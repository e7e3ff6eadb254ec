import Mathlib.Algebra.Order.Ring.Int
import Mathlib.Tactic.Linarith
import Mathlib.Tactic.Positivity
import Graft.Daemon.PidFile
import Graft.Library.Url
import Graft.Ssh.Resolve

/-!
# The destination of `connect` (`cmd/graft/connect.go`, `ParseDestination` in `pkg/utils.go`)

The client cuts the remote directory off a destination and drops `ssh://`; the daemon first parses
what is left as it is, and only then behind `ssh://`.  The first of the two refuses a colon in the
first segment of a path, so that a port is understood only where `host:` is a scheme.  A directory
may hold no `@`, and may not begin with a number where a port can stand.
-/

namespace Graft.Ssh

open Connections (Url)
open PidFile (atoi)
open Urls (cut cutLast cut_append cut_eq_none cutLast_append cutLast_eq_none exists_first exists_last
  isSchemeChar isUserinfoChar isControl not_isControl_of_isAlphanum getScheme
  getScheme_of_schemeChars getScheme_isSuffix)

/-! ### The client -/

def sshPrefix : List Char := ['s', 's', 'h', ':', '/', '/']

/-- Without `ssh://`. -/
def trimSsh (s : List Char) : List Char := if sshPrefix.isPrefixOf s then s.drop 6 else s

/-- What `strconv.Atoi` reads. -/
def isNumeric (s : List Char) : Bool := (atoi (String.ofList s)).isSome

/-- The host part, and the remote directory, which is empty if there is none. -/
def parseDestinationRemoteDir (dest : List Char) : List Char × List Char :=
  match cutLast '@' dest with
  | none => (cut ':' dest).getD (dest, [])
  | some (user, rest) =>
    match cut ':' rest with
    | some (host, dir) => (user ++ '@' :: host, dir)
    | none => (dest, [])

/-- The URL without the directory after its host, and that directory. -/
def parseSSHURLRemoteDir (dest : List Char) : List Char × List Char :=
  let (bareDest, afterHost) := parseDestinationRemoteDir (trimSsh dest)
  if afterHost = [] then (dest, [])
  else
    match cut ':' afterHost with
    | none => if isNumeric afterHost then (dest, []) else (sshPrefix ++ bareDest, afterHost)
    | some (possiblePort, after) =>
      if isNumeric possiblePort then (sshPrefix ++ bareDest ++ ':' :: possiblePort, after)
      else (sshPrefix ++ bareDest, afterHost)

/-- `parseDestination` of the client. -/
def splitDestination (raw : List Char) : List Char × List Char :=
  if sshPrefix.isPrefixOf raw then
    let (dest, dir) := parseSSHURLRemoteDir raw
    (trimSsh dest, dir)
  else parseDestinationRemoteDir raw

def dockerPrefix : List Char := ['d', 'o', 'c', 'k', 'e', 'r', ':', '/', '/']

/-- What the client asks the daemon for. -/
inductive ConnectRequest
  | docker (imageTag : List Char)
  | remote (destination remoteDir : List Char)

/-- The request of `connect` with a destination; `none` if an image tag is missing. -/
def connectRequest (raw : List Char) : Option ConnectRequest :=
  let (destination, remoteDir) :=
    if dockerPrefix.isPrefixOf raw then (raw, []) else splitDestination raw
  if dockerPrefix.isPrefixOf destination then
    let imageTag := destination.drop dockerPrefix.length
    if imageTag = [] then none else some (.docker imageTag)
  else some (.remote destination remoteDir)

/-! ### The daemon (`url.Parse`) -/

/-- The host, without the brackets of an address, and the port. -/
def parseHost (host : List Char) : Option (List Char × List Char) :=
  if host.head? = some '[' then
    (cutLast ']' host).bind fun p => match p.2 with
      | [] => some (p.1.tail, [])
      | ':' :: port => if port.all Char.isDigit then some (p.1.tail, port) else none
      | _ => none
  else match cutLast ':' host with
    | none => some (host, [])
    | some (name, port) => if port.all Char.isDigit then some (name, port) else none

/-- A URL with neither user nor host. -/
def hostless (scheme : List Char) : SshUrl :=
  ⟨⟨.ofList scheme, "", "", "", ""⟩, false, by simp [Digits]⟩

section Parse

-- how percent-encoded bytes are decoded
variable (unescape : List Char → Option (List Char))

/-- The URL of a user, a host and a port, if they are valid. -/
def parseAuthority (scheme authority : List Char) : Option SshUrl :=
  let (userinfo, host) : Option (List Char) × List Char := match cutLast '@' authority with
    | none => (none, authority)
    | some (userinfo, host) => (some userinfo, host)
  (parseHost host).bind fun p => (unescape p.1).bind fun hostname =>
    if h : Digits (.ofList p.2) then
      match userinfo with
      | none => some ⟨⟨.ofList scheme, "", .ofList hostname, .ofList p.2, ""⟩, false, h⟩
      | some userinfo =>
        if userinfo.all isUserinfoChar then
          (unescape (userinfo.takeWhile (· != ':'))).map fun user =>
            ⟨⟨.ofList scheme, .ofList user, .ofList hostname, .ofList p.2, ""⟩, true, h⟩
        else none
    else none

/-- What follows the scheme. -/
def parseRest (scheme rest : List Char) : Option SshUrl :=
  let path := (unescape rest).map fun _ => hostless scheme
  match rest with
  | '/' :: '/' :: authority =>
    if scheme = [] ∧ authority.head? = some '/' then path
    else (unescape (authority.dropWhile (· != '/'))).bind fun _ =>
      parseAuthority unescape scheme (authority.takeWhile (· != '/'))
  | '/' :: _ => path
  | _ =>
    if scheme ≠ [] then some (hostless scheme)
    else if ':' ∈ rest.takeWhile (· != '/') then none
    else path

/-- The scheme, the user, the host and the port; the query is left out. -/
def urlParse (rawURL : List Char) : Option SshUrl :=
  let rawURL := rawURL.takeWhile (· != '#')
  if rawURL.any isControl then none
  else (getScheme rawURL).bind fun p => parseRest unescape p.1 (p.2.takeWhile (· != '?'))

/-- `InitializeSSHConnection` up to the connection. -/
def destinationURL (dest : List Char) : Option SshUrl :=
  (parseDestination (fun s => urlParse unescape s.toList) (.ofList dest)).map
    fun u => { u with scheme := "ssh" }

end Parse

/-! ### Destinations -/

/-- The characters that a user may have in a URL as they are. -/
def isUserChar (c : Char) : Bool := isUserinfoChar c && c != ':' && c != '%'

/-- The characters of names of hosts. -/
def isNameChar (c : Char) : Bool := c.isAlphanum || c == '-' || c == '.' || c == '_'

/-- A host as a user writes it: a name, or an IPv6 address without the brackets. -/
inductive Host
  | name (s : List Char)
  /-- an IPv6 address, in brackets where it is written -/
  | address (s : List Char)

namespace Host

def bare : Host → List Char
  | name s | address s => s

def text : Host → List Char
  | name s => s
  | address s => '[' :: s ++ [']']

def Valid : Host → Prop
  | name s => s ≠ [] ∧ ∀ c ∈ s, isNameChar c = true
  | address s => ':' ∈ s ∧ ∀ c ∈ s, (isNameChar c || c == ':') = true

end Host

/-- The ways to write a destination. -/
inductive Form
  | scp
  | url
  deriving DecidableEq

/-- What a user means by a destination. -/
structure Destination where
  user : Option (List Char)
  host : Host
  port : Option (List Char)
  dir : Option (List Char)
  user_valid : ∀ u ∈ user, u ≠ []
  host_valid : host.Valid
  port_valid : ∀ p ∈ port, p ≠ [] ∧ p.length ≤ 5 ∧ ∀ c ∈ p, c.isDigit = true
  dir_valid : ∀ s ∈ dir, s ≠ []

namespace Destination

def colon (s : Option (List Char)) : List Char := s.elim [] (':' :: ·)

def userText (d : Destination) : List Char := d.user.elim [] (· ++ ['@'])

/-- `user@host:dir` or `ssh://user@host:port:dir`. -/
def written (d : Destination) : Form → List Char
  | .scp => d.userText ++ d.host.text ++ colon d.dir
  | .url => sshPrefix ++ (d.userText ++ d.host.text ++ colon d.port ++ colon d.dir)

/-- A URL with the user, the host and the port of the destination. -/
def Has (d : Destination) (u : SshUrl) : Prop :=
  u.scheme = "ssh" ∧ u.hasUser = d.user.isSome ∧ u.user = .ofList (d.user.getD []) ∧
    u.hostname = .ofList d.host.bare ∧ u.port = .ofList (d.port.getD [])

/-- The destination is accepted, with that user, host, port and directory. -/
def Understood (unescape : List Char → Option (List Char)) (d : Destination) (form : Form) : Prop :=
  ∃ dest, connectRequest (d.written form) = some (.remote dest (d.dir.getD [])) ∧
    ∃ u ∈ destinationURL unescape dest, d.Has u

/-- The same, for destinations that are not sent to Docker. -/
def Parsed (unescape : List Char → Option (List Char)) (d : Destination) (form : Form) : Prop :=
  (splitDestination (d.written form)).2 = d.dir.getD [] ∧
    ∃ u ∈ destinationURL unescape (splitDestination (d.written form)).1, d.Has u

/-- `host:` is read as a scheme. -/
def SchemeLike (s : List Char) : Prop :=
  (∀ c ∈ s, isSchemeChar c = true) ∧ ∀ c ∈ s.head?, c.isAlpha = true

/-- The host is a name, a port stands only alone behind a name that is like a scheme, the directory
holds no `@`, it does not begin with a number where a port can stand, and the whole is not mistaken
for a URL. -/
structure Separable (d : Destination) (form : Form) : Prop where
  name : ∃ s, d.host = .name s
  scp : form = .scp → sshPrefix.isPrefixOf (d.written .scp) = false
  dir : ∀ s ∈ d.dir, '@' ∉ s
  port : d.port ≠ none → d.user = none ∧ SchemeLike d.host.bare
  number : form = .url → d.port = none →
    ∀ s ∈ d.dir, isNumeric (((cut ':' s).map Prod.fst).getD s) = false

/-- The user needs no percent-encoding, either. -/
def PlainUser (d : Destination) : Prop := ∀ u ∈ d.user, ∀ c ∈ u, isUserChar c = true

/-- And the whole is not mistaken for an image of Docker's. -/
structure Readable (d : Destination) (form : Form) : Prop extends Separable d form where
  user : d.PlainUser
  docker : form = .scp → dockerPrefix.isPrefixOf (d.written .scp) = false

/-! ### The client on what is written -/

section Client

theorem decimal_lt {s : List Char} (h : ∀ c ∈ s, c.isDigit = true) (n : ℕ) :
    s.foldl (fun (n : ℤ) c => 10 * n + (c.toNat - 48 : ℕ)) n < (n + 1) * 10 ^ s.length ∧
      0 ≤ s.foldl (fun (n : ℤ) c => 10 * n + (c.toNat - 48 : ℕ)) n := by
  induction s generalizing n with
  | nil => simp
  | cons c s ih =>
    have hc : c.toNat - 48 ≤ 9 := by
      have := h c List.mem_cons_self
      simp only [Char.isDigit, Bool.and_eq_true, decide_eq_true_eq, ge_iff_le,
        UInt32.le_iff_toNat_le] at this
      have h9 : '9'.val.toNat = 57 := rfl
      have htoNat : c.toNat = c.val.toNat := rfl
      omega
    have hrec := ih (fun c hc => h c (List.mem_cons_of_mem _ hc)) (10 * n + (c.toNat - 48))
    rw [List.foldl_cons, List.length_cons, pow_succ]
    push_cast at hrec ⊢
    refine ⟨lt_of_lt_of_le hrec.1 ?_, hrec.2⟩
    have hpow : (0 : ℤ) < 10 ^ s.length := by positivity
    have hle : (10 * (n : ℤ) + (c.toNat - 48 : ℕ) + 1) ≤ (n + 1) * 10 := by omega
    nlinarith

theorem isNumeric_of_digits {s : List Char} (hne : s ≠ []) (hlength : s.length ≤ 5)
    (h : ∀ c ∈ s, c.isDigit = true) : isNumeric s = true := by
  have hvalue := decimal_lt h 0
  have hpow : (10 : ℤ) ^ s.length ≤ 10 ^ 5 := pow_le_pow_right₀ (by norm_num) hlength
  cases s with
  | nil => exact absurd rfl hne
  | cons c s =>
    have hc := h c List.mem_cons_self
    have hsign : c ≠ '-' ∧ c ≠ '+' := by
      constructor <;> rintro rfl <;> exact absurd hc (by decide)
    simp only [isNumeric, atoi, String.toList_ofList]
    split
    · simp_all
    · simp_all
    · grind

theorem not_isNumeric {s : List Char} (h : ']' ∈ s) : isNumeric s = false := by
  have hdigits : ∀ ds : List Char, ']' ∈ ds → ds.all Char.isDigit = false := fun ds hds =>
    List.all_eq_false.2 ⟨']', hds, by decide⟩
  simp only [isNumeric, atoi, String.toList_ofList]
  split
  · simp_all
  · simp_all
  · simp_all

theorem parseDestinationRemoteDir_of_at {s host : List Char} (dir : Option (List Char))
    (hhost : ':' ∉ host) (hat : '@' ∉ host) (hdir : ∀ t ∈ dir, '@' ∉ t) :
    parseDestinationRemoteDir (s ++ '@' :: host ++ colon dir)
      = (s ++ '@' :: host, dir.getD []) := by
  have hlast : cutLast '@' (s ++ '@' :: host ++ colon dir) = some (s, host ++ colon dir) := by
    rw [List.append_assoc, List.cons_append]
    refine cutLast_append s ?_
    cases dir with
    | none => simpa [colon] using hat
    | some t => simp [colon, hat, hdir t rfl]
  cases dir with
  | none => simp_all [parseDestinationRemoteDir, colon, cut_eq_none]
  | some t => simp_all [parseDestinationRemoteDir, colon, cut_append]

theorem parseDestinationRemoteDir_of_bare {host : List Char} (dir : Option (List Char))
    (hhost : ':' ∉ host) (hat : '@' ∉ host) (hdir : ∀ t ∈ dir, '@' ∉ t) :
    parseDestinationRemoteDir (host ++ colon dir) = (host, dir.getD []) := by
  have hlast : cutLast '@' (host ++ colon dir) = none := by
    refine cutLast_eq_none ?_
    cases dir with
    | none => simpa [colon] using hat
    | some t => simp [colon, hat, hdir t rfl]
  cases dir with
  | none => simp_all [parseDestinationRemoteDir, colon, cut_eq_none]
  | some t => simp_all [parseDestinationRemoteDir, colon, cut_append]

/-- The directory lies behind the last `@`. -/
theorem length_remoteDir_le (s : List Char) {t : List Char} (h : '@' ∉ t) :
    (parseDestinationRemoteDir (s ++ '@' :: t)).2.length ≤ t.length := by
  by_cases hcolon : ':' ∈ t
  · obtain ⟨a, b, rfl, ha⟩ := exists_first hcolon
    simp [parseDestinationRemoteDir, cutLast_append s h, cut_append b ha]
    omega
  · simp [parseDestinationRemoteDir, cutLast_append s h, cut_eq_none hcolon]

theorem length_remoteDir_le_length (s : List Char) :
    (parseDestinationRemoteDir s).2.length ≤ s.length := by
  by_cases hat : '@' ∈ s
  · obtain ⟨a, b, rfl, hb⟩ := exists_last hat
    refine (length_remoteDir_le a hb).trans ?_
    simp
    omega
  by_cases hcolon : ':' ∈ s
  · grind [exists_first, cutLast_eq_none, cut_append, parseDestinationRemoteDir]
  · simp [parseDestinationRemoteDir, cutLast_eq_none hat, cut_eq_none hcolon]

theorem length_parseSSHURLRemoteDir_le (s : List Char) :
    (parseSSHURLRemoteDir s).2.length ≤ (parseDestinationRemoteDir (trimSsh s)).2.length := by
  generalize hp : parseDestinationRemoteDir (trimSsh s) = p
  obtain ⟨bareDest, afterHost⟩ := p
  by_cases hcolon : ':' ∈ afterHost
  · obtain ⟨a, b, rfl, ha⟩ := exists_first hcolon
    simp only [parseSSHURLRemoteDir, hp, cut_append b ha]
    split_ifs <;> simp
    omega
  · simp only [parseSSHURLRemoteDir, hp, cut_eq_none hcolon]
    split_ifs <;> simp

theorem trimSsh_append (s : List Char) : trimSsh (sshPrefix ++ s) = s := by
  simp [trimSsh, sshPrefix]

theorem splitDestination_url (s : List Char) :
    splitDestination (sshPrefix ++ s)
      = (trimSsh (parseSSHURLRemoteDir (sshPrefix ++ s)).1,
        (parseSSHURLRemoteDir (sshPrefix ++ s)).2) := by
  simp [splitDestination, sshPrefix]

end Client

section Daemon

variable {unescape : List Char → Option (List Char)}

theorem getScheme_of_not_colon {s : List Char} (h : ':' ∉ s) : getScheme s = some ([], s) := by
  have hdrop : ∀ t, s.dropWhile isSchemeChar ≠ ':' :: t := fun t ht =>
    h (List.dropWhile_subset _ (ht ▸ List.mem_cons_self))
  unfold getScheme
  split
  · simp_all
  · simp_all
  · rfl

theorem getScheme_of_not_schemeLike {s : List Char} (t : List Char) (hne : s ≠ [])
    (hcolon : ':' ∉ s) (h : ¬ SchemeLike s) :
    getScheme (s ++ ':' :: t) = some ([], s ++ ':' :: t) := by
  by_cases hall : ∀ c ∈ s, isSchemeChar c = true
  · obtain ⟨c, s, rfl⟩ := List.exists_cons_of_ne_nil hne
    have hc : ¬ c.isAlpha = true := fun hc => h ⟨hall, by simpa using hc⟩
    rw [getScheme_of_schemeChars t hall, if_neg hc]
  · -- the characters of a scheme end before the colon
    have hdropWhile : s.dropWhile isSchemeChar ≠ [] := fun hnil =>
      hall (List.dropWhile_eq_nil_iff.1 hnil)
    have hdrop : ∀ u, (s ++ ':' :: t).dropWhile isSchemeChar ≠ ':' :: u := by
      intro u hu
      rw [List.dropWhile_append, if_neg (by simpa using hall)] at hu
      obtain ⟨d, ds, hd⟩ := List.exists_cons_of_ne_nil hdropWhile
      grind [List.dropWhile_subset]
    unfold getScheme
    split
    · simp_all
    · simp_all
    · rfl

/-- The characters of a destination without its directory. -/
def Plain (s : List Char) : Prop := ∀ c ∈ s, (isUserChar c || c == ':') = true

theorem Plain.ne {s : List Char} (h : Plain s) {sep : Char}
    (hsep : (isUserChar sep || sep == ':') = false) : ∀ c ∈ s, (c != sep) = true := by
  grind [Plain]

theorem Plain.takeWhile_ne {s : List Char} (h : Plain s) {sep : Char}
    (hsep : (isUserChar sep || sep == ':') = false) :
    s.takeWhile (· != sep) = s :=
  List.takeWhile_eq_self_iff.2 (h.ne hsep)

theorem not_isControl {c : Char} (h : (isUserChar c || c == ':') = true) : isControl c = false := by
  simp only [isUserChar, isUserinfoChar, Bool.or_eq_true, Bool.and_eq_true, beq_iff_eq] at h
  rcases h with ⟨⟨halnum | hmem, -⟩, -⟩ | rfl
  · exact not_isControl_of_isAlphanum halnum
  · exact (show ∀ c ∈ "-._:~!$&'()*+,;=%@".toList, isControl c = false by simp [isControl]) c
      (List.contains_iff_mem.1 hmem)
  · decide

theorem isUserChar_of_isNameChar {c : Char} (h : isNameChar c = true) : isUserChar c = true := by
  have hsep : c ≠ ':' ∧ c ≠ '%' := by
    constructor <;> rintro rfl <;> exact absurd h (by decide)
  simp only [isNameChar, Bool.or_eq_true, beq_iff_eq] at h
  rcases h with ((halnum | rfl) | rfl) | rfl
  · simp [isUserChar, isUserinfoChar, halnum, hsep]
  all_goals decide

theorem urlParse_eq {s : List Char} (h : ∀ c ∈ s, c ≠ '#' ∧ isControl c = false) :
    urlParse unescape s
      = (getScheme s).bind fun p => parseRest unescape p.1 (p.2.takeWhile (· != '?')) := by
  have htake : s.takeWhile (· != '#') = s :=
    List.takeWhile_eq_self_iff.2 fun c hc => bne_iff_ne.2 (h c hc).1
  have hany : s.any isControl = false := List.any_eq_false.2 fun c hc => by simp [(h c hc).2]
  simp [urlParse, htake, hany]

theorem Plain.urlParse {s : List Char} (h : Plain s) :
    urlParse unescape s
      = (getScheme s).bind fun p => parseRest unescape p.1 (p.2.takeWhile (· != '?')) :=
  urlParse_eq fun c hc => ⟨bne_iff_ne.1 (h.ne (by decide) c hc), not_isControl (h c hc)⟩

theorem parseRest_of_ne_slash {scheme rest : List Char} (h : '/' ∉ rest) :
    parseRest unescape scheme rest
      = if scheme ≠ [] then some (hostless scheme)
        else if ':' ∈ rest then none else (unescape rest).map fun _ => hostless scheme := by
  have htake : rest.takeWhile (· != '/') = rest :=
    List.takeWhile_eq_self_iff.2 fun c hc => bne_iff_ne.2 fun heq => h (heq ▸ hc)
  unfold parseRest
  split
  · simp at h
  · simp at h
  · rw [htake]

theorem Plain.not_slash {s : List Char} (h : Plain s) : '/' ∉ s := fun hc =>
  absurd (h _ hc) (by decide)

theorem Plain.not_percent {s : List Char} (h : Plain s) : '%' ∉ s := fun hc =>
  absurd (h _ hc) (by decide)

theorem urlParse_path (hunescape : ∀ s, '%' ∉ s → unescape s = some s) {s : List Char}
    (h : Plain s) (hcolon : ':' ∉ s) : Ssh.urlParse unescape s = some (hostless []) := by
  rw [h.urlParse, getScheme_of_not_colon hcolon, Option.bind_some, h.takeWhile_ne (by decide),
    parseRest_of_ne_slash h.not_slash]
  simp [hcolon, hunescape s h.not_percent]

variable (unescape) in
theorem urlParse_port {s port : List Char} (h : Plain (s ++ ':' :: port)) (hne : s ≠ [])
    (hcolon : ':' ∉ s) :
    (SchemeLike s → ∃ scheme, Ssh.urlParse unescape (s ++ ':' :: port) = some (hostless scheme)) ∧
      (¬ SchemeLike s → Ssh.urlParse unescape (s ++ ':' :: port) = none) := by
  have hslash := h.not_slash
  constructor
  · intro hlike
    obtain ⟨c, s, rfl⟩ := List.exists_cons_of_ne_nil hne
    have hport : Plain port := fun x hx => h x (by simp [hx])
    refine ⟨(c :: s).map Char.toLower, ?_⟩
    rw [h.urlParse, getScheme_of_schemeChars port hlike.1, if_pos (hlike.2 c rfl), Option.bind_some,
      hport.takeWhile_ne (by decide), parseRest_of_ne_slash hport.not_slash, if_pos (by simp)]
  · intro hlike
    rw [h.urlParse, getScheme_of_not_schemeLike port hne hcolon hlike, Option.bind_some,
      h.takeWhile_ne (by decide), parseRest_of_ne_slash hslash]
    simp

theorem urlParse_ssh (hunescape : ∀ s, '%' ∉ s → unescape s = some s) {s : List Char}
    (h : Plain s) :
    Ssh.urlParse unescape (sshPrefix ++ s) = parseAuthority unescape ['s', 's', 'h'] s := by
  have hs : ∀ c ∈ sshPrefix ++ s, c ≠ '#' ∧ isControl c = false := by
    intro c hc
    rcases List.mem_append.1 hc with hc | hc
    · exact (show ∀ c ∈ sshPrefix, c ≠ '#' ∧ isControl c = false by
        simp [sshPrefix, isControl]) c hc
    · exact ⟨bne_iff_ne.1 (h.ne (by decide) c hc), not_isControl (h c hc)⟩
  have hscheme : getScheme (sshPrefix ++ s) = some (['s', 's', 'h'], '/' :: '/' :: s) := rfl
  have hdrop : s.dropWhile (· != '/') = [] := List.dropWhile_eq_nil_iff.2 (h.ne (by decide))
  have hquery : ('/' :: '/' :: s).takeWhile (· != '?') = '/' :: '/' :: s := by
    simp [h.takeWhile_ne (show (isUserChar '?' || '?' == ':') = false by decide)]
  rw [urlParse_eq hs, hscheme, Option.bind_some, hquery]
  simp [parseRest, hdrop, hunescape [] (by simp),
    h.takeWhile_ne (show (isUserChar '/' || '/' == ':') = false by decide)]

theorem destinationURL_eq (hunescape : ∀ s, '%' ∉ s → unescape s = some s) {s : List Char}
    (h : Plain s) {scheme : List Char} (hparse : Ssh.urlParse unescape s = some (hostless scheme)) :
    destinationURL unescape s
      = (parseAuthority unescape ['s', 's', 'h'] s).map fun u => { u with scheme := "ssh" } := by
  have hhost : (hostless scheme).toUrl.host = "" := by
    simp [hostless, Url.host]
  have htext : ("ssh://" ++ String.ofList s).toList = sshPrefix ++ s := by
    simp [String.toList_append, sshPrefix]
  simp [destinationURL, parseDestination, hparse, hhost, htext, urlParse_ssh hunescape h]

theorem not_mem_name {s : List Char} (h : ∀ c ∈ s, isNameChar c = true) {c : Char}
    (hc : isNameChar c = false) : c ∉ s := fun hmem => absurd (h c hmem) (by simp [hc])

theorem parseHost_name {s : List Char} {port : Option (List Char)} (hne : s ≠ [])
    (hs : ∀ c ∈ s, isNameChar c = true) (hport : ∀ p ∈ port, ∀ c ∈ p, c.isDigit = true) :
    parseHost (s ++ colon port) = some (s, port.getD []) := by
  have hhead : (s ++ colon port).head? ≠ some '[' := by
    obtain ⟨c, s, rfl⟩ := List.exists_cons_of_ne_nil hne
    intro heq
    have hc := hs c List.mem_cons_self
    simp only [List.cons_append, List.head?_cons, Option.some.injEq] at heq
    exact absurd (heq ▸ hc) (by decide)
  rw [parseHost, if_neg hhead]
  cases port with
  | none => simp [colon, cutLast_eq_none (not_mem_name hs (show isNameChar ':' = false by decide))]
  | some p =>
    have hp : ':' ∉ p := fun hc => absurd (hport p rfl _ hc) (by decide)
    simpa [colon, cutLast_append s hp] using hport p rfl

end Daemon

/-! ### Which destinations are understood -/

section Understood

variable {unescape : List Char → Option (List Char)} {d : Destination} {name : List Char}

theorem plain_userText (huser : d.PlainUser) : Plain d.userText := by
  intro c hc
  cases hu : d.user with
  | none => simp [userText, hu] at hc
  | some u =>
    simp only [userText, hu, Option.elim_some, List.mem_append, List.mem_singleton] at hc
    rcases hc with hc | rfl
    · simp [huser u hu c hc]
    · decide

theorem plain_port (d : Destination) : Plain (colon d.port) := by
  intro c hc
  cases hp : d.port with
  | none => simp [colon, hp] at hc
  | some p =>
    simp only [colon, hp, Option.elim_some, List.mem_cons] at hc
    rcases hc with rfl | hc
    · decide
    · have hname : isNameChar c = true := by
        simp [isNameChar, Char.isAlphanum, (d.port_valid p hp).2.2 c hc]
      simp [isUserChar_of_isNameChar hname]

theorem not_mem_user (huser : d.PlainUser) {u : List Char} (hu : d.user = some u) {c : Char}
    (hc : isUserChar c = false) : c ∉ u := fun hmem => absurd (huser u hu c hmem) (by simp [hc])

theorem colon_not_mem_userText (huser : d.PlainUser) : ':' ∉ d.userText := by
  cases hu : d.user with
  | none => simp [userText, hu]
  | some u => simp [userText, hu, not_mem_user huser hu (show isUserChar ':' = false by decide)]

theorem name_valid (hname : d.host = .name name) : name ≠ [] ∧ ∀ c ∈ name, isNameChar c = true := by
  have h := d.host_valid
  rwa [hname] at h

theorem plain_authority (huser : d.PlainUser) (hname : d.host = .name name) :
    Plain (d.userText ++ name ++ colon d.port) := by
  intro c hc
  rcases List.mem_append.1 hc with hc | hc
  · rcases List.mem_append.1 hc with hc | hc
    · exact plain_userText huser c hc
    · simp [isUserChar_of_isNameChar ((name_valid hname).2 c hc)]
  · exact plain_port d c hc

theorem parseAuthority_written (hunescape : ∀ s, '%' ∉ s → unescape s = some s)
    (huser : d.PlainUser) (hname : d.host = .name name) :
    ∃ u, parseAuthority unescape ['s', 's', 'h'] (d.userText ++ name ++ colon d.port) = some u ∧
      u.hasUser = d.user.isSome ∧ u.user = .ofList (d.user.getD []) ∧
      u.hostname = .ofList name ∧ u.port = .ofList (d.port.getD []) := by
  obtain ⟨hne, hchars⟩ := name_valid hname
  have hhost := parseHost_name hne hchars fun p hp => (d.port_valid p hp).2.2
  have hat : '@' ∉ name ++ colon d.port := by
    have hport : '@' ∉ colon d.port := by
      cases hp : d.port with
      | none => simp [colon]
      | some p =>
        have hp' : '@' ∉ p := fun hc => absurd ((d.port_valid p hp).2.2 _ hc) (by decide)
        simp [colon, hp']
    simp [hport, not_mem_name hchars (show isNameChar '@' = false by decide)]
  have hdigits : Digits (.ofList (d.port.getD [])) := by
    cases hp : d.port with
    | none => simp [Digits]
    | some p => simpa [Digits] using (d.port_valid p hp).2.2
  have hunescapeName := hunescape name (not_mem_name hchars (by decide))
  cases hu : d.user with
  | none =>
    have hlast := cutLast_eq_none hat
    simp [parseAuthority, userText, hu, hlast, hhost, hunescapeName, hdigits]
  | some user =>
    have hlast := cutLast_append user hat
    have hinfo : user.all isUserinfoChar = true := by
      rw [List.all_eq_true]
      intro c hc
      have hc := huser user hu c hc
      simp only [isUserChar, Bool.and_eq_true] at hc
      exact hc.1.1
    have htake : user.takeWhile (· != ':') = user :=
      List.takeWhile_eq_self_iff.2 fun c hc => bne_iff_ne.2 fun heq =>
        not_mem_user huser hu (show isUserChar ':' = false by decide) (heq ▸ hc)
    simp [parseAuthority, userText, hu, hlast, hhost, hunescapeName, hdigits, hinfo, htake,
      hunescape user (not_mem_user huser hu (by decide))]

theorem schemeLike_userText :
    SchemeLike (d.userText ++ name) ↔ d.user = none ∧ SchemeLike name := by
  cases hu : d.user with
  | none => simp [userText, hu]
  | some u =>
    have hat : ¬ SchemeLike (d.userText ++ name) := fun h =>
      absurd (h.1 '@' (by simp [userText, hu])) (by decide)
    simpa using hat

/-- The daemon takes what is left of the destination, or refuses it for its port. -/
theorem destinationURL_written (hunescape : ∀ s, '%' ∉ s → unescape s = some s)
    (huser : d.PlainUser) (hname : d.host = .name name) :
    (∃ u ∈ destinationURL unescape (d.userText ++ name ++ colon d.port), d.Has u) ↔
    (d.port ≠ none → d.user = none ∧ SchemeLike d.host.bare) := by
  obtain ⟨hne, hchars⟩ := name_valid hname
  obtain ⟨u, hu, hfields⟩ := parseAuthority_written hunescape huser hname
  have hplain := plain_authority huser hname
  have hcolon : ':' ∉ d.userText ++ name := by
    simp [colon_not_mem_userText huser, not_mem_name hchars (show isNameChar ':' = false by decide)]
  have hbare : d.host.bare = name := by rw [hname]; rfl
  have hdone : ∀ scheme, urlParse unescape (d.userText ++ name ++ colon d.port)
      = some (hostless scheme) →
      ∃ u ∈ destinationURL unescape (d.userText ++ name ++ colon d.port), d.Has u := by
    intro scheme hparse
    rw [destinationURL_eq hunescape hplain hparse, hu]
    exact ⟨_, rfl, rfl, by simpa [hbare] using hfields⟩
  cases hp : d.port with
  | none =>
    simp only [hp, colon, Option.elim_none, List.append_nil] at hdone hplain ⊢
    simpa using hdone [] (urlParse_path hunescape hplain hcolon)
  | some p =>
    rw [hp] at hplain hdone
    have hport := urlParse_port unescape hplain (by simp [hne]) hcolon
    rw [schemeLike_userText] at hport
    simp only [ne_eq, reduceCtorEq, not_false_eq_true, forall_const, hbare]
    constructor
    · rintro ⟨u, hu, -⟩
      by_contra hlike
      have hnone := hport.2 hlike
      simp only [List.append_assoc] at hnone
      simp [destinationURL, parseDestination, colon, hnone] at hu
    · intro hlike
      obtain ⟨scheme, hscheme⟩ := hport.1 hlike
      simpa [hbare] using hdone scheme hscheme

/-! #### The client -/

theorem parseDestinationRemoteDir_userText (d : Destination) (host : List Char)
    {s : Option (List Char)} (hcolon : ':' ∉ host) (hhost : '@' ∉ host) (hat : ∀ t ∈ s, '@' ∉ t) :
    parseDestinationRemoteDir (d.userText ++ host ++ colon s) = (d.userText ++ host, s.getD []) := by
  cases hu : d.user with
  | none => simpa [userText, hu] using parseDestinationRemoteDir_of_bare s hcolon hhost hat
  | some u => simpa [userText, hu] using parseDestinationRemoteDir_of_at (s := u) s hcolon hhost hat

theorem parseDestinationRemoteDir_written (hname : d.host = .name name) {s : Option (List Char)}
    (hat : ∀ t ∈ s, '@' ∉ t) :
    parseDestinationRemoteDir (d.userText ++ name ++ colon s) = (d.userText ++ name, s.getD []) :=
  have hchars := (name_valid hname).2
  parseDestinationRemoteDir_userText d name (not_mem_name hchars (by decide))
    (not_mem_name hchars (by decide)) hat

theorem splitDestination_scp (hname : d.host = .name name) (hdir : ∀ t ∈ d.dir, '@' ∉ t)
    (hscp : sshPrefix.isPrefixOf (d.written .scp) = false) :
    splitDestination (d.written .scp) = (d.userText ++ name, d.dir.getD []) := by
  rw [splitDestination, hscp]
  simp only [written, hname, Host.text]
  exact parseDestinationRemoteDir_written hname hdir

theorem splitDestination_port (hname : d.host = .name name) (hdir : ∀ t ∈ d.dir, '@' ∉ t)
    {p : List Char} (hp : d.port = some p) :
    splitDestination (d.written .url) = (d.userText ++ name ++ ':' :: p, d.dir.getD []) := by
  obtain ⟨hpne, hlength, hdigits⟩ := d.port_valid p hp
  have hpat : '@' ∉ p := fun hc => absurd (hdigits _ hc) (by decide)
  have hpcolon : ':' ∉ p := fun hc => absurd (hdigits _ hc) (by decide)
  have hnumeric := isNumeric_of_digits hpne hlength hdigits
  have hparse := parseDestinationRemoteDir_written hname (s := some (p ++ colon d.dir)) (by
    rintro t ⟨⟩
    cases hd : d.dir with
    | none => simpa [colon] using hpat
    | some t => simp [colon, hpat, hdir t hd])
  have hwritten : d.written .url
      = sshPrefix ++ (d.userText ++ name ++ colon (some (p ++ colon d.dir))) := by
    simp [written, hname, Host.text, hp, colon]
  rw [hwritten, splitDestination_url, parseSSHURLRemoteDir, trimSsh_append, hparse]
  cases hd : d.dir with
  | none => simp [colon, hpne, cut_eq_none hpcolon, hnumeric, trimSsh_append]
  | some t => simp [colon, hpne, cut_append t hpcolon, hnumeric, trimSsh_append]

theorem splitDestination_url_iff (hname : d.host = .name name) (hdir : ∀ t ∈ d.dir, '@' ∉ t)
    (hp : d.port = none) :
    (∀ s ∈ d.dir, isNumeric (((cut ':' s).map Prod.fst).getD s) = false) ∧
        splitDestination (d.written .url) = (d.userText ++ name, d.dir.getD []) ∨
      ¬ (∀ s ∈ d.dir, isNumeric (((cut ':' s).map Prod.fst).getD s) = false) ∧
        (splitDestination (d.written .url)).2 ≠ d.dir.getD [] := by
  have hparse := parseDestinationRemoteDir_written hname hdir
  have hwritten : d.written .url = sshPrefix ++ (d.userText ++ name ++ colon d.dir) := by
    simp [written, hname, Host.text, hp, colon]
  rw [hwritten, splitDestination_url, parseSSHURLRemoteDir, trimSsh_append, hparse]
  cases hd : d.dir with
  | none => simp [colon, trimSsh_append]
  | some t =>
    have ht := d.dir_valid t hd
    by_cases hcolon : ':' ∈ t
    · obtain ⟨a, b, rfl, ha⟩ := exists_first hcolon
      cases hnumeric : isNumeric a <;> simp [cut_append b ha, hnumeric, trimSsh_append]
      intro heq
      have := congrArg List.length heq
      simp at this
      omega
    · cases hnumeric : isNumeric t <;>
        simp [cut_eq_none hcolon, hnumeric, trimSsh_append, ht, Ne.symm ht]

/-! #### Directories that are not understood -/

theorem length_splitDestination_le {raw s t : List Char} (hraw : raw = s ++ '@' :: t)
    (h : '@' ∉ t) : (splitDestination raw).2.length ≤ t.length := by
  by_cases hssh : sshPrefix.isPrefixOf raw = true
  · obtain ⟨rest, rfl⟩ := List.isPrefixOf_iff_prefix.1 hssh
    have hmem : '@' ∈ rest := by
      have : '@' ∈ sshPrefix ++ rest := by simp [hraw]
      exact (List.mem_append.1 this).resolve_left (by decide)
    obtain ⟨a, b, rfl, hb⟩ := exists_last hmem
    have hlast := cutLast_append s h
    rw [← hraw, ← List.append_assoc, cutLast_append _ hb] at hlast
    obtain rfl : b = t := by simp_all
    rw [splitDestination_url]
    refine (length_parseSSHURLRemoteDir_le _).trans ?_
    rw [trimSsh_append]
    exact length_remoteDir_le a h
  grind [splitDestination, length_remoteDir_le]

theorem dir_ne_of_at (d : Destination) (form : Form) {t : List Char} (hdir : d.dir = some t)
    (hat : '@' ∈ t) : (splitDestination (d.written form)).2 ≠ d.dir.getD [] := by
  obtain ⟨a, b, rfl, hb⟩ := exists_last hat
  have hwritten : ∃ s, d.written form = s ++ '@' :: b := by
    cases form with
    | scp => exact ⟨d.userText ++ d.host.text ++ ':' :: a, by simp [written, hdir, colon]⟩
    | url =>
      exact ⟨sshPrefix ++ (d.userText ++ d.host.text ++ colon d.port ++ ':' :: a),
        by simp [written, hdir, colon]⟩
  obtain ⟨s, hs⟩ := hwritten
  have hlength := length_splitDestination_le hs hb
  intro heq
  rw [heq, hdir] at hlength
  simp at hlength
  omega

/-- A bracket is no part of a port. -/
theorem length_lt_remoteDir {s x b rest : List Char}
    (h : parseDestinationRemoteDir (trimSsh s) = (x, b ++ ']' :: rest)) :
    rest.length < (parseSSHURLRemoteDir s).2.length := by
  by_cases hb : ':' ∈ b
  · obtain ⟨a, c, rfl, ha⟩ := exists_first hb
    have hcut := cut_append (c ++ ']' :: rest) ha
    simp only [parseSSHURLRemoteDir, h, List.append_assoc, List.cons_append, hcut]
    split_ifs <;> simp_all <;> omega
  by_cases hrest : ':' ∈ rest
  · obtain ⟨a, c, rfl, ha⟩ := exists_first hrest
    have hcolon : ':' ∉ b ++ ']' :: a := by simp [hb, ha]
    have hcut := cut_append c hcolon
    have hnumeric : isNumeric (b ++ ']' :: a) = false := not_isNumeric (by simp)
    simp only [List.append_assoc, List.cons_append] at hcut
    simp [parseSSHURLRemoteDir, h, hcut, hnumeric]
    omega
  · have hcut : cut ':' (b ++ ']' :: rest) = none := cut_eq_none (by simp [hb, hrest])
    have hnumeric : isNumeric (b ++ ']' :: rest) = false := not_isNumeric (by simp)
    simp [parseSSHURLRemoteDir, h, hcut, hnumeric]
    omega

theorem cut_of_isPrefixOf {s a b : List Char} (hssh : sshPrefix.isPrefixOf s = true)
    (h : cut ':' s = some (a, b)) :
    a = ['s', 's', 'h'] ∧ ∃ rest, b = '/' :: '/' :: rest ∧ s = sshPrefix ++ rest := by
  obtain ⟨rest, rfl⟩ := List.isPrefixOf_iff_prefix.1 hssh
  have hcut : cut ':' (sshPrefix ++ rest) = some (['s', 's', 'h'], '/' :: '/' :: rest) := rfl
  grind

theorem dir_ne_of_address (huser : d.PlainUser) {s : List Char} (hhost : d.host = .address s)
    (hdir : ∀ t ∈ d.dir, '@' ∉ t) (form : Form) :
    (splitDestination (d.written form)).2 ≠ d.dir.getD [] := by
  have hvalid : ':' ∈ s ∧ ∀ c ∈ s, (isNameChar c || c == ':') = true := by
    simpa [hhost, Host.Valid] using d.host_valid
  obtain ⟨a, b, rfl, ha⟩ := exists_first hvalid.1
  have hat : '@' ∉ a ++ ':' :: b := fun hc => absurd (hvalid.2 _ hc) (by decide)
  have hdirAt : '@' ∉ colon d.dir := by
    cases hd : d.dir with
    | none => simp [colon]
    | some t => simp [colon, hdir t hd]
  have hportAt : '@' ∉ colon d.port := by
    cases hp : d.port with
    | none => simp [colon]
    | some p =>
      have : '@' ∉ p := fun hc => absurd ((d.port_valid p hp).2.2 _ hc) (by decide)
      simp [colon, this]
  have hlength : (d.dir.getD []).length ≤ (colon d.dir).length := by
    cases d.dir <;> simp [colon]
  have hparse : ∀ rest, '@' ∉ rest →
      parseDestinationRemoteDir (d.userText ++ '[' :: a ++ ':' :: (b ++ ']' :: rest))
        = (d.userText ++ '[' :: a, b ++ ']' :: rest) := by
    intro rest hrest
    have := parseDestinationRemoteDir_userText d ('[' :: a)
      (s := some (b ++ ']' :: rest)) (by simpa using ha) (by simp_all) (by simp_all)
    simpa [colon] using this
  intro heq
  have hlt : (d.dir.getD []).length < (splitDestination (d.written form)).2.length := by
    cases form with
    | scp =>
      have hwritten : d.written .scp
          = d.userText ++ '[' :: a ++ ':' :: (b ++ ']' :: colon d.dir) := by
        simp [written, hhost, Host.text]
      have hssh : ¬ sshPrefix.isPrefixOf (d.written .scp) = true := by
        intro hssh
        have hcolon : ':' ∉ d.userText ++ '[' :: a := by simp [ha, colon_not_mem_userText huser]
        have hcut := cut_append (b ++ ']' :: colon d.dir) hcolon
        rw [← hwritten] at hcut
        have hbracket : '[' ∈ d.userText ++ '[' :: a := by simp
        rw [(cut_of_isPrefixOf hssh hcut).1] at hbracket
        exact absurd hbracket (by decide)
      rw [splitDestination, if_neg hssh, hwritten, hparse _ hdirAt]
      simp
      omega
    | url =>
      have hwritten : d.written .url = sshPrefix
          ++ (d.userText ++ '[' :: a ++ ':' :: (b ++ ']' :: (colon d.port ++ colon d.dir))) := by
        simp [written, hhost, Host.text]
      have hlong := length_lt_remoteDir (s := d.written .url) (by
        rw [hwritten, trimSsh_append, hparse _ (by simp [hportAt, hdirAt])])
      rw [hwritten, List.length_append] at hlong
      rw [hwritten, splitDestination_url]
      dsimp only
      omega
  rw [heq] at hlt
  exact lt_irrefl _ hlt

theorem dir_ne_of_isPrefixOf (huser : d.PlainUser) (hname : d.host = .name name)
    (hssh : sshPrefix.isPrefixOf (d.written .scp) = true) :
    (splitDestination (d.written .scp)).2 ≠ d.dir.getD [] := by
  have hcolon : ':' ∉ d.userText ++ name := by
    simp [colon_not_mem_userText huser,
      not_mem_name (name_valid hname).2 (show isNameChar ':' = false by decide)]
  have hwritten : d.written .scp = d.userText ++ name ++ colon d.dir := by
    simp [written, hname, Host.text]
  cases hd : d.dir with
  | none =>
    have hmem : ':' ∈ d.written .scp :=
      (List.isPrefixOf_iff_prefix.1 hssh).subset (show ':' ∈ sshPrefix by decide)
    rw [hwritten, hd] at hmem
    exact absurd hmem (by simpa [colon] using hcolon)
  | some t =>
    have hcut := cut_append t hcolon
    rw [show d.userText ++ name ++ ':' :: t = d.written .scp by rw [hwritten, hd]; rfl] at hcut
    obtain ⟨-, rest, rfl, hrest⟩ := cut_of_isPrefixOf hssh hcut
    have hle := length_parseSSHURLRemoteDir_le (sshPrefix ++ rest)
    have hlength := length_remoteDir_le_length rest
    rw [trimSsh_append] at hle
    rw [hrest, splitDestination_url]
    intro heq
    have := congrArg List.length heq
    simp at this
    omega

/-- With a user that needs no encoding. -/
theorem parsed_iff (hunescape : ∀ s, '%' ∉ s → unescape s = some s) (huser : d.PlainUser)
    {form : Form} (hport : form = .scp → d.port = none) :
    d.Parsed unescape form ↔ d.Separable form := by
  by_cases hdir : ∀ t ∈ d.dir, '@' ∉ t
  swap
  · push Not at hdir
    obtain ⟨t, ht, hat⟩ := hdir
    exact ⟨fun h => absurd h.1 (dir_ne_of_at d form ht hat), fun h => absurd hat (h.dir t ht)⟩
  cases hhost : d.host with
  | address s =>
    grind [dir_ne_of_address, Separable.name, Parsed]
  | name name =>
    have hurl := destinationURL_written hunescape huser hhost
    cases form with
    | scp =>
      by_cases hssh : sshPrefix.isPrefixOf (d.written .scp) = true
      · grind [dir_ne_of_isPrefixOf, Separable.scp, Parsed]
      · rw [Bool.not_eq_true] at hssh
        have hsplit := splitDestination_scp hhost hdir hssh
        rw [hport rfl] at hurl
        simp only [colon, Option.elim_none, List.append_nil] at hurl
        constructor
        · exact fun _ => ⟨⟨_, hhost⟩, fun _ => hssh, hdir, by simp [hport rfl], nofun⟩
        · simp_all [Parsed]
    | url =>
      cases hp : d.port with
      | some p =>
        have hsplit := splitDestination_port hhost hdir hp
        rw [hp] at hurl
        rw [Parsed, hsplit]
        constructor
        · exact fun h => ⟨⟨_, hhost⟩, nofun, hdir, by simpa [hp] using hurl.1 h.2, by simp [hp]⟩
        · exact fun h => ⟨rfl, hurl.2 (by simpa [hp] using h.port)⟩
      | none =>
        rw [hp] at hurl
        simp only [colon, Option.elim_none, List.append_nil] at hurl
        rcases splitDestination_url_iff hhost hdir hp with ⟨hnumber, hsplit⟩ | ⟨hnumber, hne⟩
        · rw [Parsed, hsplit]
          exact ⟨fun _ => ⟨⟨_, hhost⟩, nofun, hdir, by simp [hp], fun _ _ => hnumber⟩,
            fun _ => ⟨rfl, hurl.2 (by simp)⟩⟩
        grind [Separable.number, Parsed]

/-! #### The user that is found -/

/-- The host part is the beginning of the destination, up to the colon before the directory. -/
theorem parseDestinationRemoteDir_eq (s : List Char) :
    (parseDestinationRemoteDir s).1 = s ∧ (parseDestinationRemoteDir s).2 = [] ∨
      s = (parseDestinationRemoteDir s).1 ++ ':' :: (parseDestinationRemoteDir s).2 := by
  by_cases hat : '@' ∈ s
  · obtain ⟨a, b, rfl, hb⟩ := exists_last hat
    by_cases hcolon : ':' ∈ b
    · obtain ⟨x, y, rfl, hx⟩ := exists_first hcolon
      simp [parseDestinationRemoteDir, cutLast_append a hb, cut_append y hx]
    · simp [parseDestinationRemoteDir, cutLast_append a hb, cut_eq_none hcolon]
  · by_cases hcolon : ':' ∈ s
    · obtain ⟨x, y, rfl, hx⟩ := exists_first hcolon
      simp [parseDestinationRemoteDir, cutLast_eq_none hat, cut_append y hx]
    · simp [parseDestinationRemoteDir, cutLast_eq_none hat, cut_eq_none hcolon]

theorem remoteDir_fst_isPrefix (s : List Char) : (parseDestinationRemoteDir s).1 <+: s := by
  rcases parseDestinationRemoteDir_eq s with ⟨h, -⟩ | h
  · rw [h]
  · exact ⟨_, h.symm⟩

/-- What the daemon gets is the beginning of what is written behind `ssh://`. -/
theorem splitDestination_fst_isPrefix (raw : List Char) :
    (splitDestination raw).1 <+: trimSsh raw := by
  by_cases hssh : sshPrefix.isPrefixOf raw = true
  · obtain ⟨rest, rfl⟩ := List.isPrefixOf_iff_prefix.1 hssh
    rw [splitDestination_url, trimSsh_append]
    have hfst := remoteDir_fst_isPrefix rest
    have heq := parseDestinationRemoteDir_eq rest
    simp only [parseSSHURLRemoteDir, trimSsh_append]
    generalize parseDestinationRemoteDir rest = p at hfst heq
    obtain ⟨bareDest, afterHost⟩ := p
    dsimp only at hfst heq ⊢
    by_cases hnil : afterHost = []
    · rw [if_pos hnil, trimSsh_append]
    rw [if_neg hnil]
    by_cases hcolon : ':' ∈ afterHost
    · obtain ⟨x, y, rfl, hx⟩ := exists_first hcolon
      obtain ⟨-, hcontra⟩ | hrest := heq
      · exact absurd hcontra hnil
      rw [cut_append y hx]
      dsimp only
      split_ifs
      · rw [List.append_assoc, trimSsh_append]
        exact ⟨':' :: y, by simp [hrest]⟩
      · rwa [trimSsh_append]
    · rw [cut_eq_none hcolon]
      dsimp only
      split_ifs
      · rw [trimSsh_append]
      · rwa [trimSsh_append]
  · rw [trimSsh, if_neg hssh, splitDestination, if_neg hssh]
    exact remoteDir_fst_isPrefix raw

/-- Something without a separator is on one side of it. -/
theorem isInfix_of_not_mem {sep : Char} {t a b : List Char} (h : t <:+: a ++ sep :: b)
    (hsep : sep ∉ t) : t <:+: a ∨ t <:+: b := by
  obtain ⟨x, y, hxy⟩ := h
  obtain ⟨as, hxt, hy⟩ | ⟨as, hxt, hy⟩ := List.append_eq_append_iff.1 hxy
  · exact .inl ⟨x, as, hxt.symm⟩
  cases as with
  | nil => exact .inl ⟨x, [], by simpa using hxt⟩
  | cons c as =>
    obtain ⟨rfl, rfl⟩ := List.cons.inj hy
    -- the separator is before `t`
    obtain ⟨es, -, rfl⟩ | ⟨es, -, hes⟩ := List.append_eq_append_iff.1 hxt
    · exact absurd (by simp) hsep
    · cases es with
      | nil =>
        rw [List.nil_append] at hes
        exact absurd (by simp [← hes]) hsep
      | cons d es =>
        obtain ⟨-, rfl⟩ := List.cons.inj hes
        exact .inr ⟨es, y, by simp⟩

/-- Up to an `@` behind which there is none, nothing is longer than what is before it. -/
theorem length_le_of_isInfix {s a b : List Char} (h : s ++ ['@'] <:+: a ++ '@' :: b) (hb : '@' ∉ b) :
    s.length ≤ a.length := by
  obtain ⟨x, y, hxy⟩ := h
  have hcut : (x ++ s) ++ '@' :: y = a ++ '@' :: b := by simpa using hxy
  obtain ⟨as, rfl, -⟩ | ⟨as, hxs, hy⟩ := List.append_eq_append_iff.1 hcut
  · simp
    omega
  · cases as with
    | nil =>
      have := congrArg List.length hxs
      simp at this
      omega
    | cons c as => exact absurd (by simp [(List.cons.inj hy).2]) hb

theorem exists_userinfo_of_authority {scheme authority : List Char} {u : SshUrl}
    (h : parseAuthority unescape scheme authority = some u) (huser : u.hasUser = true) :
    ∃ s, s ++ ['@'] <:+: authority ∧ s.all isUserinfoChar = true ∧
      (unescape (s.takeWhile (· != ':'))).map String.ofList = some u.user := by
  by_cases hat : '@' ∈ authority
  · obtain ⟨s, host, rfl, hhost⟩ := exists_last hat
    refine ⟨s, ⟨[], host, by simp⟩, ?_⟩
    simp only [parseAuthority, cutLast_append s hhost] at h
    obtain ⟨p, -, h⟩ := Option.bind_eq_some_iff.1 h
    obtain ⟨hostname, -, h⟩ := Option.bind_eq_some_iff.1 h
    split_ifs at h with hdigits hinfo
    obtain ⟨user, hdecoded, rfl⟩ := Option.map_eq_some_iff.1 h
    exact ⟨hinfo, by rw [hdecoded]; rfl⟩
  · simp only [parseAuthority, cutLast_eq_none hat] at h
    obtain ⟨p, -, h⟩ := Option.bind_eq_some_iff.1 h
    obtain ⟨hostname, -, h⟩ := Option.bind_eq_some_iff.1 h
    split_ifs at h
    cases h
    cases huser

theorem exists_authority {scheme rest : List Char} {u : SshUrl}
    (h : parseRest unescape scheme rest = some u) (huser : u.hasUser = true) :
    ∃ authority, authority <:+: rest ∧ parseAuthority unescape scheme authority = some u := by
  have hpath : (unescape rest).map (fun _ => hostless scheme) ≠ some u := by
    intro hu
    obtain ⟨-, -, rfl⟩ := Option.map_eq_some_iff.1 hu
    cases huser
  unfold parseRest at h
  dsimp only at h
  split at h
  · next authority =>
    split_ifs at h
    · exact absurd h hpath
    · obtain ⟨-, -, h⟩ := Option.bind_eq_some_iff.1 h
      exact ⟨_, ( List.takeWhile_prefix _).isInfix.trans ⟨['/', '/'], [], by simp⟩, h⟩
  · exact absurd h hpath
  · split_ifs at h
    · cases h
      cases huser
    · exact absurd h hpath

/-- The user of a URL stands before an `@`. -/
theorem exists_userinfo {x : List Char} {u : SshUrl} (h : urlParse unescape x = some u)
    (huser : u.hasUser = true) : ∃ s, s ++ ['@'] <:+: x ∧ s.all isUserinfoChar = true ∧
      (unescape (s.takeWhile (· != ':'))).map String.ofList = some u.user := by
  unfold urlParse at h
  dsimp only at h
  split_ifs at h
  obtain ⟨p, hscheme, h⟩ := Option.bind_eq_some_iff.1 h
  obtain ⟨authority, hin, h⟩ := exists_authority h huser
  obtain ⟨s, hs, hinfo, hdecoded⟩ := exists_userinfo_of_authority h huser
  refine ⟨s, ?_, hinfo, hdecoded⟩
  calc s ++ ['@'] <:+: authority := hs
    _ <:+: p.2.takeWhile (· != '?') := hin
    _ <:+: p.2 := ( List.takeWhile_prefix _).isInfix
    _ <:+: x.takeWhile (· != '#') := (getScheme_isSuffix hscheme).isInfix
    _ <:+: x := ( List.takeWhile_prefix _).isInfix

theorem exists_userinfo_of_destinationURL {dest : List Char} {u : SshUrl}
    (h : destinationURL unescape dest = some u) (huser : u.hasUser = true) :
    ∃ s, s ++ ['@'] <:+: dest ∧ s.all isUserinfoChar = true ∧
      (unescape (s.takeWhile (· != ':'))).map String.ofList = some u.user := by
  obtain ⟨u', hparse, rfl⟩ := Option.map_eq_some_iff.1 h
  obtain ⟨first, hfirst, hparse⟩ := Option.bind_eq_some_iff.1 hparse
  split_ifs at hparse
  · cases hparse
    simpa using exists_userinfo hfirst huser
  · obtain ⟨s, hs, hinfo, hdecoded⟩ := exists_userinfo hparse huser
    refine ⟨s, ?_, hinfo, hdecoded⟩
    have hslash : '/' ∉ s ++ ['@'] := by
      have hs' : '/' ∉ s := fun hmem => absurd (List.all_eq_true.1 hinfo _ hmem) (by decide)
      simp [hs']
    have htext : ("ssh://" ++ String.ofList dest).toList = "ssh:/".toList ++ '/' :: dest := by
      simp [String.toList_append]
    rw [htext] at hs
    refine (isInfix_of_not_mem hs hslash).resolve_left fun hssh => ?_
    exact absurd (hssh.subset (show '@' ∈ s ++ ['@'] by simp)) (by decide)

/-- A user that is found as it is written needs no encoding. -/
theorem plainUser_of_has (hunescape : ∀ s, '%' ∉ s → unescape s = some s)
    (hshrinks : ∀ s t, unescape s = some t → '%' ∈ s → t.length < s.length) {form : Form}
    (hdir : ∀ t ∈ d.dir, '@' ∉ t) {u : SshUrl}
    (hu : destinationURL unescape (splitDestination (d.written form)).1 = some u) (hhas : d.Has u) :
    d.PlainUser := by
  intro user huser c hc
  rw [Option.mem_def] at huser
  obtain ⟨s, hs, hinfo, hdecoded⟩ := exists_userinfo_of_destinationURL hu (by
    rw [hhas.2.1, huser]
    rfl)
  have hdecoded : unescape (s.takeWhile (· != ':')) = some user := by
    obtain ⟨t, ht, heq⟩ := Option.map_eq_some_iff.1 hdecoded
    rw [hhas.2.2.1, huser] at heq
    rw [ht, String.ofList_injective heq]
    rfl
  -- what stands before the `@` that is found is not longer than the user
  have htail : '@' ∉ d.host.text ++ colon d.port ++ colon d.dir ∧ '@' ∉ d.host.text ++ colon d.dir := by
    have hhost : '@' ∉ d.host.text := by
      have hvalid := d.host_valid
      cases hhost : d.host with
      | name name =>
        rw [hhost] at hvalid
        exact fun hmem => absurd (hvalid.2 _ hmem) (by decide)
      | address address =>
        rw [hhost] at hvalid
        have haddress : '@' ∉ address := fun hmem => absurd (hvalid.2 _ hmem) (by decide)
        simp [Host.text, haddress]
    have hport : '@' ∉ colon d.port := by
      cases hp : d.port with
      | none => simp [colon]
      | some p =>
        have : '@' ∉ p := fun hc => absurd ((d.port_valid p hp).2.2 _ hc) (by decide)
        simp [colon, this]
    have hdir' : '@' ∉ colon d.dir := by
      cases hd : d.dir with
      | none => simp [colon]
      | some t => simp [colon, hdir t hd]
    simp [hhost, hport, hdir']
  have hlength : s.length ≤ user.length := by
    have hin := hs.trans (splitDestination_fst_isPrefix _).isInfix
    cases form with
    | scp =>
      have htrim : trimSsh (d.written .scp) <:+: user ++ '@' :: (d.host.text ++ colon d.dir) := by
        have hwritten : d.written .scp = user ++ '@' :: (d.host.text ++ colon d.dir) := by
          simp [written, userText, huser]
        rw [trimSsh, ← hwritten]
        split_ifs
        · exact (List.drop_suffix _ _).isInfix
        · exact List.infix_refl _
      exact length_le_of_isInfix (hin.trans htrim) htail.2
    | url =>
      have hwritten : d.written .url =
          sshPrefix ++ (user ++ '@' :: (d.host.text ++ colon d.port ++ colon d.dir)) := by
        simp [written, userText, huser]
      rw [hwritten, trimSsh_append] at hin
      exact length_le_of_isInfix hin htail.1
  have hpercent : '%' ∉ s.takeWhile (· != ':') := by
    intro hmem
    have hlt := hshrinks _ _ hdecoded hmem
    have hle := ( List.takeWhile_prefix (l := s) (· != ':')).length_le
    omega
  have heq : s.takeWhile (· != ':') = user :=
    Option.some.inj ((hunescape _ hpercent).symm.trans hdecoded)
  rw [← heq] at hc
  have hcolon : c ≠ ':' := by simpa using List.mem_takeWhile_imp hc
  have hinfo' : isUserinfoChar c = true :=
    List.all_eq_true.1 hinfo c (( List.takeWhile_prefix _).subset hc)
  have hpercent' : c ≠ '%' := fun heq => hpercent (heq ▸ hc)
  simp [isUserChar, hinfo', hcolon, hpercent']

/-- What goes to Docker is no destination; for others, the two steps are what the client and the
daemon do. -/
theorem understood_iff_parsed {form : Form}
    (hslash : '/' ∉ (splitDestination (d.written form)).1) :
    d.Understood unescape form ↔
      dockerPrefix.isPrefixOf (d.written form) = false ∧ d.Parsed unescape form := by
  have hdest : dockerPrefix.isPrefixOf (splitDestination (d.written form)).1 = false := by
    rw [← Bool.not_eq_true, List.isPrefixOf_iff_prefix]
    exact fun h => hslash (h.subset (show '/' ∈ dockerPrefix by decide))
  cases hdocker : dockerPrefix.isPrefixOf (d.written form) with
  | true =>
    refine iff_of_false ?_ (by simp)
    rintro ⟨dest, hrequest, -⟩
    simp only [connectRequest, hdocker, if_true] at hrequest
    split_ifs at hrequest
    cases hrequest
  | false =>
    simp only [Understood, connectRequest, hdocker, hdest, Bool.false_eq_true, if_false,
      Option.some.injEq, ConnectRequest.remote.injEq, Parsed, true_and]
    constructor
    · rintro ⟨dest, ⟨rfl, hdir⟩, hu⟩
      exact ⟨hdir, hu⟩
    · rintro ⟨hdir, hu⟩
      exact ⟨_, ⟨rfl, hdir⟩, hu⟩

theorem Understood.parsed {form : Form} (h : d.Understood unescape form) :
    dockerPrefix.isPrefixOf (d.written form) = false ∧ d.Parsed unescape form := by
  obtain ⟨dest, hrequest, hu⟩ := h
  cases hdocker : dockerPrefix.isPrefixOf (d.written form) with
  | true =>
    simp only [connectRequest, hdocker, if_true] at hrequest
    split_ifs at hrequest
    cases hrequest
  | false =>
    simp only [connectRequest, hdocker, Bool.false_eq_true, if_false] at hrequest
    split_ifs at hrequest
    · cases hrequest
    · obtain ⟨rfl, hdir⟩ := ConnectRequest.remote.inj (Option.some.inj hrequest)
      exact ⟨rfl, hdir, hu⟩

/-- What the daemon gets of a readable destination. -/
theorem slash_not_mem_destination {form : Form} (h : d.Readable form) :
    '/' ∉ (splitDestination (d.written form)).1 := by
  obtain ⟨name, hname⟩ := h.name
  have hslash := (plain_authority h.user hname).not_slash
  simp only [List.mem_append, not_or] at hslash
  cases form with
  | scp =>
    rw [splitDestination_scp hname h.dir (h.scp rfl)]
    simp [hslash]
  | url =>
    cases hp : d.port with
    | some p =>
      rw [splitDestination_port hname h.dir hp]
      simpa [hp, colon, and_assoc] using hslash
    | none =>
      rcases splitDestination_url_iff hname h.dir hp with ⟨-, hsplit⟩ | ⟨hnumber, -⟩
      · rw [hsplit]
        simp [hslash]
      · exact absurd (h.number rfl hp) hnumber

end Understood

/-- A destination is understood exactly if it is readable. -/
theorem destination_understood_iff (unescape : List Char → Option (List Char))
    (hunescape : ∀ s, '%' ∉ s → unescape s = some s)
    (hshrinks : ∀ s t, unescape s = some t → '%' ∈ s → t.length < s.length) (d : Destination)
    (form : Form) (hport : form = .scp → d.port = none) :
    d.Understood unescape form ↔ d.Readable form := by
  constructor
  · intro h
    obtain ⟨hdocker, hparsed⟩ := h.parsed
    obtain ⟨hdirEq, u, hu, hhas⟩ := hparsed
    have hdir : ∀ t ∈ d.dir, '@' ∉ t := fun t ht hat => dir_ne_of_at d form ht hat hdirEq
    have huser := plainUser_of_has hunescape hshrinks hdir hu hhas
    exact ⟨(parsed_iff hunescape huser hport).1 ⟨hdirEq, u, hu, hhas⟩, huser,
      fun hform => hform ▸ hdocker⟩
  · intro h
    have hparsed := (parsed_iff hunescape h.user hport).2 h.toSeparable
    refine (understood_iff_parsed (slash_not_mem_destination h)).2 ⟨?_, hparsed⟩
    cases form with
    | scp => exact h.docker rfl
    | url => rfl

theorem gateway_valid : Host.Valid (.name ['g', 'w']) :=
  ⟨by decide, List.all_eq_true.1 (by decide)⟩

/-- `ssh://gw:22:/srv`. -/
def gateway : Destination where
  user := none
  host := .name ['g', 'w']
  port := some ['2', '2']
  dir := some ['/', 's', 'r', 'v']
  user_valid := by simp
  host_valid := gateway_valid
  port_valid := by simp [Char.isDigit]
  dir_valid := by simp

/-- Nothing is decoded, and what would have to be is refused. -/
def refuseEscapes (s : List Char) : Option (List Char) := if '%' ∈ s then none else some s

theorem destination_understood_iff_port : gateway.Understood refuseEscapes .url :=
  (destination_understood_iff refuseEscapes (fun s hs => if_neg hs)
    (fun s t hst hs => by simp [refuseEscapes, hs] at hst) gateway .url nofun).2
    ⟨⟨⟨_, rfl⟩, nofun, by simp [gateway],
      fun _ => ⟨rfl, by simp [gateway, Host.bare, SchemeLike]; decide⟩, by simp [gateway]⟩,
      by simp [PlainUser, gateway], nofun⟩

/-- `ssh://me@gw:22:/srv`. -/
def userGateway : Destination :=
  { gateway with
    user := some ['m', 'e']
    user_valid := by simp }

/-- The client sends `me@gw:22`, which is no URL. -/
theorem user_and_port_refused : ¬ userGateway.Understood refuseEscapes .url := by
  intro h
  obtain ⟨-, -, u, hu, -⟩ := h.parsed
  have hnone : (destinationURL refuseEscapes
      (splitDestination (userGateway.written .url)).1).isNone = true := by decide +kernel
  grind [Option.isNone_iff_eq_none]

end Destination

end Graft.Ssh
