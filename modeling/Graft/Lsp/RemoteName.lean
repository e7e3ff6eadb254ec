import Mathlib.Data.List.TakeWhile
import Mathlib.Tactic

/-!
# The label of a remote file (`pkg/local_client_commands_lsp.go`)

The proxy of the language server names a remote file that is not synchronized by a URI of its own.
`decorateRemotePathSegment` puts the connection into the name of the file, before the extension, and
`stripRemotePathSegment` takes it out again.  A string is the list of its bytes.
-/

namespace Graft.Lsp

/-! ### Strings -/

/-- `strings.LastIndexByte` of the slash: what is up to it, and the rest. -/
def splitLast (path : List Char) : List Char × List Char :=
  ((path.reverse.dropWhile (· ≠ '/')).reverse, (path.reverse.takeWhile (· ≠ '/')).reverse)

/-- `filepath.Ext`. -/
def ext (path : List Char) : List Char :=
  match path.reverse.dropWhile fun c => c ≠ '.' && c ≠ '/' with
  | '.' :: _ => '.' :: (path.reverse.takeWhile fun c => c ≠ '.' && c ≠ '/').reverse
  | _ => []

/-- `strings.CutSuffix`. -/
def cutSuffix (s suffix : List Char) : Option (List Char) :=
  if suffix.isSuffixOf s then some (s.take (s.length - suffix.length)) else none

/-- `strings.TrimSuffix`. -/
def trimSuffix (s suffix : List Char) : List Char := (cutSuffix s suffix).getD s

/-! ### Names of connections -/

/-- What `net/url` writes for a byte of a host. -/
def keptInHost (c : Char) : Bool :=
  c.isAlphanum || c ∈ "-_.~!$&'()*+,;=:[]<>\"".toList

/-- The digits are those of a byte. -/
def upperhex (n : ℕ) : Char := "0123456789ABCDEF".toList.getD n '0'

def escapeHost (host : List Char) : List Char :=
  host.flatMap fun c =>
    if keptInHost c then [c]
    else ['%', upperhex (c.toNat / 16), upperhex (c.toNat % 16)]

def unhex (c : Char) : Option ℕ :=
  if c.isDigit then some (c.toNat - 48)
  else if 'a' ≤ c ∧ c ≤ 'f' then some (c.toNat - 87)
  else if 'A' ≤ c ∧ c ≤ 'F' then some (c.toNat - 55)
  else none

/-- In a host, only the percent sign and bytes that are not ASCII may be escaped. -/
def unescapeHost : List Char → Option (List Char)
  | '%' :: a :: b :: rest =>
    (unhex a).bind fun high => (unhex b).bind fun low =>
      if high < 8 ∧ ¬ (a = '2' ∧ b = '5') then none
      else (unescapeHost rest).map (Char.ofNat (16 * high + low) :: ·)
  | '%' :: _ => none
  | c :: rest =>
    if c.toNat < 0x80 ∧ ¬ keptInHost c then none else (unescapeHost rest).map (c :: ·)
  | [] => some []

def validOptionalPort : List Char → Bool
  | [] => true
  | c :: port => c = ':' && port.all Char.isDigit

/-- The host of a URL, without a zone. -/
def parseHost (host : List Char) : Option (List Char) :=
  if host.head? = some '[' then
    if ']' ∈ host ∧ validOptionalPort (host.reverse.takeWhile (· ≠ ']')).reverse then
      unescapeHost host
    else none
  else if ':' ∈ host ∧ ¬ (host.reverse.takeWhile (· ≠ ':')).all Char.isDigit then none
  else unescapeHost host

/-- The name is the same when it was written as the host of a URI and read again; `mintedHost` is
what stands between `graft://` and the next slash. -/
def connectionNameIsURIHostSafe (name : List Char) : Bool :=
  let mintedHost := (escapeHost name ++ "/probe".toList).takeWhile (· ≠ '/')
  name ≠ [] && match parseHost mintedHost with
    | none => false
    | some host => host.map Char.toLower = name.map Char.toLower

/-! ### The label -/

/-- Marks the last element with the name of the connection, before its extension. -/
def decorateRemotePathSegment (path connectionName : List Char) : List Char :=
  let (dir, name) := splitLast path
  if name = [] then path
  else
    let marker := '@' :: connectionName
    let stem := trimSuffix name (ext name)
    -- dotfiles have no stem
    if stem = [] then dir ++ name ++ marker else dir ++ stem ++ marker ++ ext name

/-- Takes the mark away. -/
def stripRemotePathSegment (path connectionName : List Char) : List Char :=
  let (dir, name) := splitLast path
  let marker := '@' :: connectionName
  match cutSuffix (trimSuffix name (ext name)) marker with
  | some (c :: cut) => dir ++ c :: cut ++ ext name
  | _ =>
    match cutSuffix name marker with
    | some cut => dir ++ cut
    | none => path

section Lemmas

variable {s t dir name q : List Char}

theorem cutSuffix_append (s t : List Char) : cutSuffix (s ++ t) t = some s := by
  simp [cutSuffix, List.isSuffixOf_iff_suffix]

theorem cutSuffix_eq_some (h : cutSuffix s t = some q) : s = q ++ t := by
  unfold cutSuffix at h
  split_ifs at h with hsuf
  obtain ⟨r, rfl⟩ := List.isSuffixOf_iff_suffix.1 hsuf
  simp_all

theorem trimSuffix_append (s t : List Char) : trimSuffix (s ++ t) t = s := by
  simp [trimSuffix, cutSuffix_append]

theorem splitLast_append (hdir : dir = [] ∨ dir.getLast? = some '/') (hname : '/' ∉ name) :
    splitLast (dir ++ name) = (dir, name) := by
  have hall : ∀ c ∈ name.reverse, decide (c ≠ '/') = true := by
    grind
  have hhead : ∀ c ∈ dir.reverse.head?, decide (c ≠ '/') = false := by
    grind
  unfold splitLast
  rw [List.reverse_append, List.dropWhile_append_of_pos hall, List.takeWhile_append_of_pos hall]
  cases hrev : dir.reverse with
  | nil => simp [List.reverse_eq_nil_iff.1 hrev]
  | cons c r =>
    simp_all

theorem splitLast_spec (path : List Char) :
    ∃ dir name, path = dir ++ name ∧ (dir = [] ∨ dir.getLast? = some '/') ∧ '/' ∉ name ∧
      splitLast path = (dir, name) := by
  have hname : '/' ∉ (path.reverse.takeWhile (· ≠ '/')).reverse := by
    grind [List.mem_takeWhile_imp]
  have hdir : (path.reverse.dropWhile (· ≠ '/')).reverse = [] ∨
      (path.reverse.dropWhile (· ≠ '/')).reverse.getLast? = some '/' := by
    rw [List.getLast?_reverse, List.reverse_eq_nil_iff]
    cases hd : path.reverse.dropWhile (· ≠ '/') with
    | nil => exact .inl rfl
    | cons c r =>
      have hne := List.head_dropWhile_not (fun c => decide (c ≠ '/')) (l := path.reverse)
        (by rw [hd]; nofun)
      simp only [hd, List.head_cons] at hne
      exact .inr (by simpa using hne)
  refine ⟨_, _, ?_, hdir, hname, rfl⟩
  rw [← List.reverse_append, List.takeWhile_append_dropWhile, List.reverse_reverse]

theorem ext_append (hdot : '.' ∉ q) (hslash : '/' ∉ q) : ext (s ++ '.' :: q) = '.' :: q := by
  have hall : ∀ c ∈ q.reverse, (c ≠ '.' && c ≠ '/') = true := by
    intro c hc
    have hc := List.mem_reverse.1 hc
    have hd : c ≠ '.' := fun hx => hdot (hx ▸ hc)
    grind
  unfold ext
  rw [List.reverse_append, List.reverse_cons, List.append_assoc,
    List.dropWhile_append_of_pos hall, List.takeWhile_append_of_pos hall]
  simp

theorem ext_of_notMem (hdot : '.' ∉ s) (hslash : '/' ∉ s) : ext s = [] := by
  have hall : s.reverse.dropWhile (fun c => c ≠ '.' && c ≠ '/') = [] := by
    rw [List.dropWhile_eq_nil_iff]
    intro c hc
    have hc := List.mem_reverse.1 hc
    have hd : c ≠ '.' := fun hx => hdot (hx ▸ hc)
    have hs : c ≠ '/' := fun hx => hslash (hx ▸ hc)
    simp [hd, hs]
  simp only [ext, hall]

theorem exists_last_dot (h : '.' ∈ s) : ∃ t q, s = t ++ '.' :: q ∧ '.' ∉ q := by
  obtain ⟨a, b, hrev, ha⟩ := List.eq_append_cons_of_mem (List.mem_reverse.2 h)
  grind [List.reverse_append]

/-- What is before the last dot of the marker is shorter than the marker. -/
theorem not_cut {n u p cut : List Char} {c : Char} (hn : '.' ∉ n.tail)
    (h : n ++ u = c :: cut ++ (u ++ '.' :: p)) : False := by
  cases n with
  | nil =>
    grind [List.length_append]
  | cons d n =>
    have hcount := congrArg (List.count '.') (List.cons.inj h).2
    have hzero : List.count '.' n = 0 := List.count_eq_zero.2 hn
    simp [hzero] at hcount
    omega

end Lemmas

/-! ### Taking the label out -/

section Strip

variable {dir name n conn : List Char}

/-- The label is at the end: the name has no extension, or nothing else. -/
theorem strip_marker (hdir : dir = [] ∨ dir.getLast? = some '/') (hslash : '/' ∉ n)
    (hconn : '/' ∉ conn) (hne : n ≠ []) (hdot : '.' ∉ n.tail) :
    stripRemotePathSegment (dir ++ (n ++ '@' :: conn)) conn = dir ++ n := by
  have hall : '/' ∉ n ++ '@' :: conn := by simp [hslash, hconn]
  have hcut := cutSuffix_append n ('@' :: conn)
  simp only [stripRemotePathSegment, splitLast_append hdir hall, hcut]
  by_cases hmark : '.' ∈ '@' :: conn
  · obtain ⟨u, p, hu, hp⟩ := exists_last_dot hmark
    have hpslash : '/' ∉ p := fun hx => hall (by simp [hu, hx])
    have hext : ext (n ++ '@' :: conn) = '.' :: p := by
      rw [hu, ← List.append_assoc]
      exact ext_append hp hpslash
    have hstem : trimSuffix (n ++ '@' :: conn) ('.' :: p) = n ++ u := by
      rw [hu, ← List.append_assoc]
      exact trimSuffix_append _ _
    rw [hext, hstem]
    split
    · next c cut heq => exact (not_cut hdot (hu ▸ cutSuffix_eq_some heq)).elim
    · rfl
  by_cases hname : '.' ∈ n
  · -- the dot is the first letter, so there is no stem
    obtain ⟨m, rfl⟩ : ∃ m, n = '.' :: m := by
      cases n with
      | nil => cases hname
      | cons c m =>
        grind
    have hext : ext ('.' :: m ++ '@' :: conn) = '.' :: m ++ '@' :: conn := by
      refine ext_append (s := []) (q := m ++ '@' :: conn) (fun hx => ?_) fun hx =>
        hall (List.mem_cons_of_mem _ hx)
      grind
    have hstem := trimSuffix_append [] ('.' :: m ++ '@' :: conn)
    rw [List.nil_append] at hstem
    rw [hext, hstem]
    simp [cutSuffix]
  · have hext : ext (n ++ '@' :: conn) = [] :=
      ext_of_notMem (fun hx => (List.mem_append.1 hx).elim hname hmark) hall
    have hstem := trimSuffix_append (n ++ '@' :: conn) []
    rw [List.append_nil] at hstem
    rw [hext, hstem, hcut]
    cases n with
    | nil => exact absurd rfl hne
    | cons c n => simp

theorem strip_decorate (path : List Char) (hconn : '/' ∉ conn) :
    stripRemotePathSegment (decorateRemotePathSegment path conn) conn = path := by
  obtain ⟨dir, name, rfl, hdir, hslash, hsplit⟩ := splitLast_spec path
  simp only [decorateRemotePathSegment, hsplit]
  split_ifs with hname hstem
  · subst hname
    simp only [stripRemotePathSegment, hsplit]
    simp [ext, trimSuffix, cutSuffix]
  · -- a dotfile
    have hdot : '.' ∉ name.tail := by
      intro hx
      obtain ⟨t, q, rfl, hq⟩ := exists_last_dot (List.mem_of_mem_tail hx)
      rw [ext_append hq fun hx => hslash (by simp [hx]), trimSuffix_append] at hstem
      subst hstem
      exact hq hx
    grind [strip_marker]
  · by_cases hdot : '.' ∈ name
    · obtain ⟨t, q, rfl, hq⟩ := exists_last_dot hdot
      have hqslash : '/' ∉ q := fun hx => hslash (by simp [hx])
      rw [ext_append hq hqslash, trimSuffix_append] at hstem ⊢
      have hall : '/' ∉ t ++ '@' :: conn ++ '.' :: q := by
        simp_all
      rw [List.append_assoc dir, List.append_assoc dir]
      simp only [stripRemotePathSegment, splitLast_append hdir hall, ext_append hq hqslash,
        trimSuffix_append, cutSuffix_append]
      cases t with
      | nil => exact absurd rfl hstem
      | cons c t => simp
    · have hext := ext_of_notMem hdot hslash
      have htrim := trimSuffix_append name []
      rw [List.append_nil] at htrim
      rw [hext, htrim, List.append_nil, List.append_assoc]
      exact strip_marker hdir hslash hconn hname fun hx => hdot (List.mem_of_mem_tail hx)

end Strip

/-! ### A name that is safe has no slash -/

theorem unescapeHost_slash {name : List Char} (h : '/' ∈ name) :
    unescapeHost (escapeHost name) = none := by
  induction name with
  | nil => cases h
  | cons c name ih =>
    rw [escapeHost, List.flatMap_cons, ← escapeHost]
    by_cases hc : c = '/'
    · subst hc
      show unescapeHost ('%' :: '2' :: 'F' :: escapeHost name) = none
      simp [unescapeHost, unhex]
    · have ih := ih ((List.mem_cons.1 h).resolve_left (Ne.symm hc))
      split_ifs with hkept
      · have hpct : c ≠ '%' := by
          rintro rfl
          exact absurd hkept (by decide)
        simp [unescapeHost, ih, hpct]
      · simp only [List.cons_append, List.nil_append, unescapeHost, ih]
        cases unhex _ <;> cases unhex _ <;> simp

theorem slash_notMem_escapeHost (name : List Char) : '/' ∉ escapeHost name := by
  have hdigit : ∀ n, upperhex n ≠ '/' := by
    intro n hn
    unfold upperhex at hn
    rw [List.getD_eq_getElem?_getD] at hn
    cases hget : "0123456789ABCDEF".toList[n]? with
    | none =>
      rw [hget] at hn
      exact absurd hn (by decide)
    | some c =>
      have hmem := List.mem_of_getElem? hget
      rw [hget, Option.getD_some] at hn
      rw [hn] at hmem
      exact absurd hmem (by decide)
  simp only [escapeHost, List.mem_flatMap, not_exists, not_and]
  intro c _ hmem
  split_ifs at hmem with hkept
  · obtain rfl := List.mem_singleton.1 hmem
    exact absurd hkept (by decide)
  · grind

theorem slash_notMem_of_hostSafe {name : List Char} (h : connectionNameIsURIHostSafe name = true) :
    '/' ∉ name := by
  intro hmem
  have hminted : (escapeHost name ++ "/probe".toList).takeWhile (· ≠ '/') = escapeHost name := by
    grind [List.takeWhile_append_of_pos, slash_notMem_escapeHost, List.takeWhile_cons_of_neg]
  simp only [connectionNameIsURIHostSafe, hminted, parseHost, unescapeHost_slash hmem] at h
  split_ifs at h <;> simp at h

/-- **The label of a remote file can be removed exactly.** -/
theorem remote_label_round_trip (path connectionName : List Char)
    (h : connectionNameIsURIHostSafe connectionName = true) :
    stripRemotePathSegment (decorateRemotePathSegment path connectionName) connectionName = path :=
  strip_decorate path (slash_notMem_of_hostSafe h)

/-- A dotfile, and a connection whose name has a dot. -/
theorem remote_label_round_trip_dotfile :
    connectionNameIsURIHostSafe "db.lab".toList = true ∧
      decorateRemotePathSegment "/home/u/.bashrc".toList "db.lab".toList =
        "/home/u/.bashrc@db.lab".toList ∧
      stripRemotePathSegment (decorateRemotePathSegment "/home/u/.bashrc".toList "db.lab".toList)
        "db.lab".toList = "/home/u/.bashrc".toList :=
  ⟨by decide, by decide, remote_label_round_trip _ _ (by decide)⟩

end Graft.Lsp
