import Mathlib.Data.List.Infix
import Mathlib.Data.List.TakeWhile
import Graft.Library.Path

/-!
# URLs (`net/url`)

`parse` and `format` are `Parse` and `String` of `net/url`.

* `parse_format_path`: a URL that was parsed and has got another absolute path is parsed again, with
  that path;
* `scheme_of_parse`: what begins with a scheme has that scheme.

Left out: hosts with percent-encoded bytes, which are refused here; the spelling of a path that is
not the default one (`RawPath`), which is kept only while the path is; `./` before a relative path.
The user and the fragment are kept as they are written.
-/

namespace Graft.Urls

/-! ### Cutting (`strings.Cut`, `strings.LastIndex`) -/

/-- Around the first `sep`. -/
def cut (sep : Char) : List Char → Option (List Char × List Char)
  | [] => none
  | c :: s => if c = sep then some ([], s) else (cut sep s).map fun p => (c :: p.1, p.2)

/-- Around the last `sep`. -/
def cutLast (sep : Char) (s : List Char) : Option (List Char × List Char) :=
  (cut sep s.reverse).map fun p => (p.2.reverse, p.1.reverse)

theorem cut_append {sep : Char} {s : List Char} (t : List Char) (h : sep ∉ s) :
    cut sep (s ++ sep :: t) = some (s, t) := by
  induction s with
  | nil => simp [cut]
  | cons c s ih =>
    rw [List.mem_cons, not_or] at h
    simp [cut, ih h.2, Ne.symm h.1]

theorem cut_eq_none {sep : Char} {s : List Char} (h : sep ∉ s) : cut sep s = none := by
  induction s with
  | nil => rfl
  | cons c s ih =>
    grind [cut]

theorem cutLast_append {sep : Char} (s : List Char) {t : List Char} (h : sep ∉ t) :
    cutLast sep (s ++ sep :: t) = some (s, t) := by
  grind [cut_append, List.reverse_reverse, cutLast]

theorem cutLast_eq_none {sep : Char} {s : List Char} (h : sep ∉ s) : cutLast sep s = none := by
  simp [cutLast, cut_eq_none, h]

/-- Every text without the separator, or with a first one. -/
theorem exists_first {sep : Char} {s : List Char} (h : sep ∈ s) :
    ∃ a b, s = a ++ sep :: b ∧ sep ∉ a := by
  induction s with
  | nil => cases h
  | cons c s ih =>
    by_cases hc : c = sep
    · exact ⟨[], s, by simp [hc], by simp⟩
    · grind

theorem exists_last {sep : Char} {s : List Char} (h : sep ∈ s) :
    ∃ a b, s = a ++ sep :: b ∧ sep ∉ b := by
  obtain ⟨a, b, hab, ha⟩ := exists_first (List.mem_reverse.2 h)
  grind [List.reverse_append]

/-! ### Characters -/

def isSchemeChar (c : Char) : Bool := c.isAlphanum || c == '+' || c == '-' || c == '.'

def isUserinfoChar (c : Char) : Bool :=
  c.isAlphanum || ("-._:~!$&'()*+,;=%@".toList.contains c)

def isHostChar (c : Char) : Bool :=
  c.isAlphanum || ("-_.~!$&'()*+,;=:[]<>\"".toList.contains c)

/-- The characters of a path that are not encoded. -/
def isPathChar (c : Char) : Bool := c.isAlphanum || ("-_.~$&+,/:;=@".toList.contains c)

def isControl (c : Char) : Bool := c.toNat < 0x20 || c.toNat == 0x7f

theorem not_isControl_of_isAlphanum {c : Char} (h : c.isAlphanum = true) : isControl c = false := by
  have hbound : 32 ≤ c.toNat ∧ c.toNat < 127 := by
    have hA : 'A'.val.toNat = 65 := rfl
    have hZ : 'Z'.val.toNat = 90 := rfl
    have ha : 'a'.val.toNat = 97 := rfl
    have hz : 'z'.val.toNat = 122 := rfl
    have h0 : '0'.val.toNat = 48 := rfl
    have h9 : '9'.val.toNat = 57 := rfl
    have htoNat : c.toNat = c.val.toNat := rfl
    delta Char.isAlphanum Char.isAlpha Char.isUpper Char.isLower Char.isDigit at h
    simp only [Bool.or_eq_true, Bool.and_eq_true, decide_eq_true_eq, ge_iff_le,
      UInt32.le_iff_toNat_le] at h
    omega
  grind [isControl]

/-- The scheme, which is empty if there is none, and the rest. -/
def getScheme (rawURL : List Char) : Option (List Char × List Char) :=
  match rawURL.takeWhile isSchemeChar, rawURL.dropWhile isSchemeChar with
  | [], ':' :: _ => none
  | c :: scheme, ':' :: rest =>
    if c.isAlpha then some ((c :: scheme).map Char.toLower, rest) else some ([], rawURL)
  | _, _ => some ([], rawURL)

theorem scheme_cut {s : List Char} (t : List Char) (h : ∀ c ∈ s, isSchemeChar c = true) :
    (s ++ ':' :: t).takeWhile isSchemeChar = s ∧
      (s ++ ':' :: t).dropWhile isSchemeChar = ':' :: t := by
  rw [List.takeWhile_append_of_pos h, List.dropWhile_append_of_pos h]
  simp [isSchemeChar]

theorem getScheme_of_schemeChars {c : Char} {s : List Char} (t : List Char)
    (h : ∀ x ∈ c :: s, isSchemeChar x = true) :
    getScheme (c :: s ++ ':' :: t)
      = if c.isAlpha then some ((c :: s).map Char.toLower, t) else some ([], c :: s ++ ':' :: t) := by
  simp only [getScheme, scheme_cut t h]

/-! ### Percent-encoding -/

def hexDigit (n : ℕ) : Char := "0123456789ABCDEF".toList.getD n '0'

def hexValue (c : Char) : Option ℕ :=
  if c.isDigit then some (c.toNat - 48)
  else if 'a' ≤ c ∧ c ≤ 'f' then some (c.toNat - 87)
  else if 'A' ≤ c ∧ c ≤ 'F' then some (c.toNat - 55)
  else none

/-- A byte, as it is if it is a character that may stand, or with its two digits. -/
def escapeByte (keep : Char → Bool) (b : UInt8) : List Char :=
  if b.toNat < 128 ∧ keep (Char.ofNat b.toNat) = true then [Char.ofNat b.toNat]
  else ['%', hexDigit (b.toNat / 16), hexDigit (b.toNat % 16)]

/-- The bytes of the characters that are not kept are written as `%` and two digits. -/
def escape (keep : Char → Bool) (s : List Char) : List Char :=
  (s.flatMap String.utf8EncodeChar).flatMap (escapeByte keep)

/-- The bytes of a text in which some are encoded. -/
def percentBytes : List Char → Option (List UInt8)
  | [] => some []
  | '%' :: a :: b :: s => do
    let x ← hexValue a
    let y ← hexValue b
    let rest ← percentBytes s
    return UInt8.ofNat (16 * x + y) :: rest
  | '%' :: _ => none
  | c :: s => (percentBytes s).map (String.utf8EncodeChar c ++ ·)

/-- The characters of which these are the escaped bytes. -/
def unescape (s : List Char) : Option (List Char) :=
  (percentBytes s).bind fun bytes => bytes.toByteArray.utf8Decode?.map Array.toList

theorem hexDigits (n : ℕ) (h : n < 256) :
    hexValue (hexDigit (n / 16)) = some (n / 16) ∧ hexValue (hexDigit (n % 16)) = some (n % 16) := by
  revert n
  decide +kernel

theorem utf8EncodeChar_ascii (n : ℕ) (h : n < 128) :
    String.utf8EncodeChar (Char.ofNat n) = [UInt8.ofNat n] := by
  revert n
  decide +kernel

theorem percentBytes_escapeByte {keep : Char → Bool} (hkeep : keep '%' = false) (b : UInt8)
    (s : List Char) :
    percentBytes (escapeByte keep b ++ s) = (percentBytes s).map (b :: ·) := by
  unfold escapeByte
  split_ifs with hb
  · have hpercent : Char.ofNat b.toNat ≠ '%' := by
      intro heq
      rw [heq, hkeep] at hb
      exact absurd hb.2 (by decide)
    rw [List.singleton_append, percentBytes, utf8EncodeChar_ascii _ hb.1]
    · simp
    · exact fun _ _ _ hx => absurd hx hpercent
    · exact hpercent
  · obtain ⟨hx, hy⟩ := hexDigits b.toNat b.toNat_lt
    have hbyte : UInt8.ofNat (16 * (b.toNat / 16) + b.toNat % 16) = b := by
      rw [Nat.div_add_mod, UInt8.ofNat_toNat]
    simp only [List.cons_append, List.nil_append, percentBytes, hx, hy, Option.bind_eq_bind,
      Option.bind_some, hbyte]
    cases percentBytes s <;> rfl

/-- **What is encoded is decoded to what it was.** -/
theorem unescape_escape {keep : Char → Bool} (hkeep : keep '%' = false) (s : List Char) :
    unescape (escape keep s) = some s := by
  have hbytes : ∀ bytes : List UInt8, percentBytes (bytes.flatMap (escapeByte keep)) = some bytes := by
    intro bytes
    induction bytes with
    | nil => rfl
    | cons b bytes ih => rw [List.flatMap_cons, percentBytes_escapeByte hkeep, ih, Option.map_some]
  have hutf8 : (s.flatMap String.utf8EncodeChar).toByteArray = s.utf8Encode := rfl
  rw [unescape, escape, hbytes, Option.bind_some, hutf8, List.utf8Decode?_utf8Encode]
  simp

/-- The characters of an encoded text. -/
theorem mem_escape {keep : Char → Bool} {s : List Char} {c : Char} (h : c ∈ escape keep s) :
    keep c = true ∨ c ∈ "%0123456789ABCDEF".toList := by
  obtain ⟨b, -, hc⟩ := List.mem_flatMap.1 h
  unfold escapeByte at hc
  split_ifs at hc with hb
  · rw [List.mem_singleton.1 hc]
    exact .inl hb.2
  · have hdigit : ∀ n < 16, hexDigit n ∈ "%0123456789ABCDEF".toList := by decide +kernel
    have hlt := b.toNat_lt
    simp only [List.mem_cons, List.not_mem_nil, or_false] at hc
    rcases hc with rfl | rfl | rfl
    · exact .inr (by decide)
    · exact .inr (hdigit _ (by omega))
    · exact .inr (hdigit _ (by omega))

theorem escape_cons_slash {keep : Char → Bool} (h : keep '/' = true) (s : List Char) :
    escape keep ('/' :: s) = '/' :: escape keep s := by
  have hslash : String.utf8EncodeChar '/' = [47] := by decide +kernel
  have hbyte : escapeByte keep 47 = ['/'] := by
    have hchar : Char.ofNat (UInt8.toNat 47) = '/' := by decide
    rw [escapeByte, hchar, if_pos ⟨by decide, h⟩]
  rw [escape, List.flatMap_cons, hslash, List.singleton_append, List.flatMap_cons, hbyte]
  rfl

/-- A text that begins with a slash is decoded to one that does. -/
theorem head_of_unescape_slash {t s : List Char} (h : unescape ('/' :: t) = some s) :
    s.head? = some '/' := by
  have hslash : String.utf8EncodeChar '/' = [47] := by decide +kernel
  have hpercent : percentBytes ('/' :: t) = (percentBytes t).map (String.utf8EncodeChar '/' ++ ·) := by
    rw [percentBytes]
    · exact fun _ _ _ hx => absurd hx (by decide)
    · exact fun hx => absurd hx (by decide)
  rw [unescape, hpercent] at h
  obtain ⟨bytes, hbytes, h⟩ := Option.bind_eq_some_iff.1 h
  obtain ⟨rest, -, rfl⟩ := Option.map_eq_some_iff.1 hbytes
  have happend : (String.utf8EncodeChar '/' ++ rest).toByteArray =
      ['/'].utf8Encode ++ rest.toByteArray := by
    rw [List.utf8Encode_singleton, List.toByteArray_append]
  rw [happend, ByteArray.utf8Decode?_utf8Encode_singleton_append] at h
  obtain ⟨decoded, hdecoded, rfl⟩ := Option.map_eq_some_iff.1 h
  obtain ⟨more, -, rfl⟩ := Option.map_eq_some_iff.1 hdecoded
  simp

/-! ### URLs -/

/-- A URL by its parts. -/
structure Url where
  scheme : String
  /-- what stands before an `@` -/
  userinfo : Option (List Char)
  host : List Char
  path : List Char
  /-- what follows the scheme, if it does not begin with a slash -/
  opaquePart : List Char
  /-- there is no `//` -/
  omitHost : Bool
  query : Option (List Char)
  fragment : List Char
  deriving DecidableEq

def validOptionalPort : List Char → Bool
  | [] => true
  | ':' :: port => port.all Char.isDigit
  | _ => false

/-- The end of an address in brackets, or the port. -/
def validHost (host : List Char) : Bool :=
  if host.head? = some '[' then ((cutLast ']' host).map fun p => validOptionalPort p.2).getD false
  else ((cutLast ':' host).map fun p => p.2.all Char.isDigit).getD true

/-- The user and the host of an authority. -/
def parseAuthority (authority : List Char) : Option (Option (List Char) × List Char) :=
  match cutLast '@' authority with
  | none =>
    if authority.all isHostChar && validHost authority then some (none, authority) else none
  | some (userinfo, host) =>
    if userinfo.all isUserinfoChar && (unescape userinfo).isSome && host.all isHostChar &&
        validHost host then some (some userinfo, host)
    else none

/-- What follows the scheme, without query and fragment. -/
def parseRest (scheme rest : List Char) : Option Url :=
  let pathOnly := (unescape rest).map fun path =>
    ⟨.ofList scheme, none, [], path, [], scheme ≠ [] ∧ rest.head? = some '/', none, []⟩
  match rest with
  | '/' :: '/' :: more =>
    if scheme = [] ∧ more.head? = some '/' then pathOnly
    else (parseAuthority (more.takeWhile (· != '/'))).bind fun a =>
      (unescape (more.dropWhile (· != '/'))).map fun path =>
        ⟨.ofList scheme, a.1, a.2, path, [], false, none, []⟩
  | '/' :: _ => pathOnly
  | _ =>
    if scheme ≠ [] then some ⟨.ofList scheme, none, [], [], rest, false, none, []⟩
    else if ':' ∈ rest.takeWhile (· != '/') then none
    else pathOnly

def splitQuery (rest : List Char) : List Char × Option (List Char) :=
  match cut '?' rest with
  | none => (rest, none)
  | some (rest, query) => (rest, some query)

/-- `Parse`. -/
def parse (rawURL : List Char) : Option Url :=
  let p := (cut '#' rawURL).getD (rawURL, [])
  if p.1.any isControl ∨ (unescape p.2).isNone then none
  else (getScheme p.1).bind fun q =>
    (parseRest q.1 (splitQuery q.2).1).map fun u =>
      { u with query := (splitQuery q.2).2, fragment := p.2 }

namespace Url

def authority (u : Url) : List Char := u.userinfo.elim [] (· ++ ['@']) ++ u.host

/-- `String`. -/
def format (u : Url) : List Char :=
  (if u.scheme = "" then [] else u.scheme.toList ++ [':']) ++
  (if u.opaquePart ≠ [] then u.opaquePart
    else
      (if (u.scheme = "" ∨ u.omitHost = true) ∧ u.host = [] ∧ u.userinfo = none then []
        else if u.host ≠ [] ∨ u.path ≠ [] ∨ u.userinfo ≠ none then '/' :: '/' :: u.authority
        else []) ++
      (if u.path ≠ [] ∧ u.path.head? ≠ some '/' ∧ u.host ≠ [] then ['/'] else []) ++
      escape isPathChar u.path) ++
  u.query.elim [] ('?' :: ·) ++ (if u.fragment = [] then [] else '#' :: u.fragment)

/-- What a URL is after it was parsed. -/
structure WellFormed (u : Url) : Prop where
  authority : parseAuthority u.authority = some (u.userinfo, u.host)
  query : ∀ q ∈ u.query, '#' ∉ q ∧ q.any isControl = false
  fragment : (unescape u.fragment).isSome = true

end Url

/-! ### What is parsed -/

/-- A character that ends neither the authority nor the path, and is no control character. -/
def Inner (c : Char) : Prop := c ≠ '#' ∧ c ≠ '?' ∧ isControl c = false

theorem inner_of_isAlphanum {c : Char} (h : c.isAlphanum = true) : Inner c ∧ c ≠ '/' := by
  refine ⟨⟨?_, ?_, not_isControl_of_isAlphanum h⟩, ?_⟩ <;> rintro rfl <;> exact absurd h (by decide)

theorem inner_of_mem : ∀ c ∈ "-._:~!$&'()*+,;=%@[]<>\"".toList, Inner c ∧ c ≠ '/' := by
  simp [Inner, isControl]

/-- A character of a text whose characters are all among those above. -/
theorem inner_of_contains {l : List Char}
    (hl : l.all ("-._:~!$&'()*+,;=%@[]<>\"".toList.contains ·) = true) {c : Char}
    (hc : l.contains c = true) : Inner c ∧ c ≠ '/' := by
  have hmem := List.all_eq_true.1 hl c (List.contains_iff_mem.1 hc)
  exact inner_of_mem c (List.contains_iff_mem.1 hmem)

theorem authority_chars {a : List Char} {p : Option (List Char) × List Char}
    (h : parseAuthority a = some p) : ∀ c ∈ a, Inner c ∧ c ≠ '/' := by
  have huser : ∀ c, isUserinfoChar c = true → Inner c ∧ c ≠ '/' := by
    intro c hc
    rcases Bool.or_eq_true_iff.1 hc with halnum | hmem
    · exact inner_of_isAlphanum halnum
    · exact inner_of_contains (by decide +kernel) hmem
  have hhost : ∀ c, isHostChar c = true → Inner c ∧ c ≠ '/' := by
    intro c hc
    rcases Bool.or_eq_true_iff.1 hc with halnum | hmem
    · exact inner_of_isAlphanum halnum
    · exact inner_of_contains (by decide +kernel) hmem
  unfold parseAuthority at h
  by_cases hat : '@' ∈ a
  · obtain ⟨x, y, rfl, hy⟩ := exists_last hat
    rw [cutLast_append x hy] at h
    dsimp only at h
    split_ifs at h with hall
    simp only [Bool.and_eq_true, List.all_eq_true] at hall
    intro c hc
    rcases List.mem_append.1 hc with hc | hc
    · exact huser c (hall.1.1.1 c hc)
    · rcases List.mem_cons.1 hc with rfl | hc
      · exact inner_of_mem _ (by simp)
      · exact hhost c (hall.1.2 c hc)
  · rw [cutLast_eq_none hat] at h
    dsimp only at h
    split_ifs at h with hall
    simp only [Bool.and_eq_true, List.all_eq_true] at hall
    exact fun c hc => hhost c (hall.1 c hc)

theorem authority_eq {a : List Char} {p : Option (List Char) × List Char}
    (h : parseAuthority a = some p) : a = p.1.elim [] (· ++ ['@']) ++ p.2 := by
  unfold parseAuthority at h
  by_cases hat : '@' ∈ a
  · obtain ⟨x, y, rfl, hy⟩ := exists_last hat
    rw [cutLast_append x hy] at h
    dsimp only at h
    split_ifs at h
    cases h
    simp
  · rw [cutLast_eq_none hat] at h
    dsimp only at h
    split_ifs at h
    cases h
    simp

theorem parseAuthority_nil : parseAuthority [] = some (none, []) := by decide +kernel

theorem parseRest_authority {scheme rest : List Char} {u : Url} (h : parseRest scheme rest = some u) :
    parseAuthority u.authority = some (u.userinfo, u.host) ∧ u.scheme = .ofList scheme ∧
      (Path.isAbs u.path = true → u.opaquePart = []) := by
  have hpath : ∀ b, (unescape rest).map (fun path =>
      (⟨.ofList scheme, none, [], path, [], b, none, []⟩ : Url)) = some u →
      parseAuthority u.authority = some (u.userinfo, u.host) ∧ u.scheme = .ofList scheme ∧
        (Path.isAbs u.path = true → u.opaquePart = []) := by
    intro b hu
    obtain ⟨path, -, rfl⟩ := Option.map_eq_some_iff.1 hu
    exact ⟨parseAuthority_nil, rfl, fun _ => rfl⟩
  unfold parseRest at h
  dsimp only at h
  split at h
  · split_ifs at h
    · exact hpath _ h
    · obtain ⟨a, ha, h⟩ := Option.bind_eq_some_iff.1 h
      obtain ⟨path, -, rfl⟩ := Option.map_eq_some_iff.1 h
      refine ⟨?_, rfl, fun _ => rfl⟩
      rw [Url.authority, ← authority_eq ha, ha]
  · exact hpath _ h
  · split_ifs at h
    · cases h
      exact ⟨parseAuthority_nil, rfl, fun hx => by cases hx⟩
    · exact hpath _ h

theorem splitQuery_snd {rest q : List Char} (h : (splitQuery rest).2 = some q) :
    ∃ a, rest = a ++ '?' :: q := by
  unfold splitQuery at h
  by_cases hmem : '?' ∈ rest
  · obtain ⟨a, b, rfl, ha⟩ := exists_first hmem
    rw [cut_append b ha] at h
    cases h
    exact ⟨a, rfl⟩
  · rw [cut_eq_none hmem] at h
    cases h

theorem getScheme_isSuffix {s : List Char} {p : List Char × List Char} (h : getScheme s = some p) :
    p.2 <:+ s := by
  have hdrop : s.dropWhile isSchemeChar <:+ s := List.dropWhile_suffix _
  unfold getScheme at h
  split at h
  · cases h
  · next hrest =>
    split_ifs at h
    · cases h
      rw [hrest] at hdrop
      exact (List.suffix_cons _ _).trans hdrop
    · cases h
      exact List.suffix_refl _
  · cases h
    exact List.suffix_refl _

/-- A URL that was parsed is well formed; with a path, it has no opaque part. -/
theorem wellFormed_of_parse {s : List Char} {u : Url} (h : parse s = some u) :
    u.WellFormed ∧ (Path.isAbs u.path = true → u.opaquePart = []) := by
  have hmain : '#' ∉ ((cut '#' s).getD (s, [])).1 := by
    by_cases hmem : '#' ∈ s
    · obtain ⟨a, b, rfl, ha⟩ := exists_first hmem
      rwa [cut_append b ha]
    · rwa [cut_eq_none hmem]
  unfold parse at h
  dsimp only at h
  split_ifs at h with hbad
  simp only [not_or, Bool.not_eq_true, Option.isNone_eq_false_iff] at hbad
  obtain ⟨q, hq, h⟩ := Option.bind_eq_some_iff.1 h
  obtain ⟨u', hu', rfl⟩ := Option.map_eq_some_iff.1 h
  obtain ⟨hauthority, -, hopaque⟩ := parseRest_authority hu'
  refine ⟨⟨hauthority, fun query hquery => ?_, hbad.2⟩, hopaque⟩
  obtain ⟨a, ha⟩ := splitQuery_snd hquery
  have hsub : query ⊆ ((cut '#' s).getD (s, [])).1 := by
    intro c hc
    refine (getScheme_isSuffix hq).subset ?_
    rw [ha]
    simp [hc]
  exact ⟨fun hx => hmain (hsub hx), List.any_eq_false.2 fun c hc =>
    List.any_eq_false.1 hbad.1 c (hsub hc)⟩

/-! ### What is parsed again -/

theorem escape_chars (p : List Char) : ∀ c ∈ escape isPathChar p, Inner c := by
  intro c hc
  rcases mem_escape hc with hkeep | hmem
  · rcases Bool.or_eq_true_iff.1 hkeep with halnum | hmem
    · exact (inner_of_isAlphanum halnum).1
    · have hall : ∀ c ∈ "-_.~$&+,/:;=@".toList, Inner c := by simp [Inner, isControl]
      exact hall c (List.contains_iff_mem.1 hmem)
  · have hall : ∀ c ∈ "%0123456789ABCDEF".toList, Inner c := by simp [Inner, isControl]
    exact hall c hmem

/-- A text with a scheme, then what is inside, then a query and a fragment. -/
theorem parse_append {c : Char} {scheme rest : List Char} {query : Option (List Char)}
    {fragment : List Char} (hc : c.isAlpha = true)
    (hscheme : ∀ x ∈ c :: scheme, isSchemeChar x = true)
    (hlower : (c :: scheme).map Char.toLower = c :: scheme) (hrest : ∀ x ∈ rest, Inner x)
    (hquery : ∀ q ∈ query, '#' ∉ q ∧ q.any isControl = false)
    (hfragment : (unescape fragment).isSome = true) :
    parse ((c :: scheme) ++ ':' :: (rest ++ query.elim [] ('?' :: ·)) ++
        (if fragment = [] then [] else '#' :: fragment)) =
      (parseRest (c :: scheme) rest).map fun u => { u with query := query, fragment := fragment } := by
  have hchar : ∀ x, isSchemeChar x = true → Inner x := by
    intro x hx
    simp only [isSchemeChar, Bool.or_eq_true, beq_iff_eq] at hx
    rcases hx with ((halnum | rfl) | rfl) | rfl
    · exact (inner_of_isAlphanum halnum).1
    all_goals exact (inner_of_mem _ (by simp)).1
  set main := (c :: scheme) ++ ':' :: (rest ++ query.elim [] ('?' :: ·)) with hmain
  have hquery' : ∀ x ∈ query.elim [] ('?' :: ·), x ≠ '#' ∧ isControl x = false := by
    intro x hx
    cases hq : query with
    | none =>
      rw [hq] at hx
      cases hx
    | some q =>
      rw [hq] at hx
      obtain ⟨hsharp, hcontrol⟩ := hquery q hq
      rcases List.mem_cons.1 hx with rfl | hx
      · exact ⟨by decide, by decide⟩
      · refine ⟨fun heq => hsharp (heq ▸ hx), ?_⟩
        simpa using List.any_eq_false.1 hcontrol x hx
  have hinner : ∀ x ∈ main, x ≠ '#' ∧ isControl x = false := by
    intro x hx
    rcases List.mem_append.1 hx with hx | hx
    · have := hchar x (hscheme x hx)
      exact ⟨this.1, this.2.2⟩
    · rcases List.mem_cons.1 hx with rfl | hx
      · exact ⟨by decide, by decide⟩
      · rcases List.mem_append.1 hx with hx | hx
        · exact ⟨(hrest x hx).1, (hrest x hx).2.2⟩
        · exact hquery' x hx
  have hsharp : '#' ∉ main := fun hx => (hinner _ hx).1 rfl
  have hcut : (cut '#' (main ++ if fragment = [] then [] else '#' :: fragment)).getD
      (main ++ if fragment = [] then [] else '#' :: fragment, []) = (main, fragment) := by
    split_ifs with hnil
    · rw [List.append_nil, cut_eq_none hsharp, hnil]
      rfl
    · rw [cut_append fragment hsharp]
      rfl
  have hcontrol : main.any isControl = false :=
    List.any_eq_false.2 fun x hx => by simp [(hinner x hx).2]
  have hsplit : splitQuery (rest ++ query.elim [] ('?' :: ·)) = (rest, query) := by
    have hmark : '?' ∉ rest := fun hx => (hrest _ hx).2.1 rfl
    cases query with
    | none => simp [splitQuery, cut_eq_none hmark]
    | some q => simp [splitQuery, cut_append q hmark]
  have hget : getScheme main = some (c :: scheme, rest ++ query.elim [] ('?' :: ·)) := by
    rw [hmain, getScheme_of_schemeChars _ hscheme, if_pos hc, hlower]
  have hsome : ¬ (main.any isControl = true ∨ (unescape fragment).isNone = true) := by
    rw [hcontrol, Option.isNone_iff_eq_none]
    rintro (hx | hx)
    · cases hx
    · rw [hx] at hfragment
      cases hfragment
  unfold parse
  rw [hcut]
  dsimp only
  rw [if_neg hsome, hget, Option.bind_some, hsplit]

/-- **Another path**: a URL that was parsed, with a cleaned absolute path in the place of its own, is
parsed again with that path. -/
theorem parse_format_path {s : List Char} {u : Url} (hs : parse s = some u) {c : Char}
    {scheme : List Char} (hu : u.scheme = .ofList (c :: scheme)) (hc : c.isAlpha = true)
    (hscheme : ∀ x ∈ c :: scheme, isSchemeChar x = true)
    (hlower : (c :: scheme).map Char.toLower = c :: scheme) (habs : Path.isAbs u.path = true)
    {p : List Char} (hp : Path.isAbs p = true) (hroot : p.tail.head? ≠ some '/') :
    ∃ u', parse ({ u with path := p }.format) = some u' ∧ u'.scheme = u.scheme ∧ u'.path = p := by
  obtain ⟨hwf, hopaque⟩ := wellFormed_of_parse hs
  obtain ⟨p, rfl⟩ : ∃ t, p = '/' :: t := by
    cases p with
    | nil => cases hp
    | cons d t =>
      unfold Path.isAbs at hp
      split at hp
      next t' heq => exact ⟨t', heq⟩
      next => cases hp
  have hescape : escape isPathChar ('/' :: p) = '/' :: escape isPathChar p :=
    escape_cons_slash (by decide) p
  have hdecode : unescape (escape isPathChar ('/' :: p)) = some ('/' :: p) :=
    unescape_escape (by decide) _
  have hpathChars := escape_chars ('/' :: p)
  by_cases hauthority : u.omitHost = true ∧ u.host = [] ∧ u.userinfo = none
  · -- the path follows the scheme
    have hformat : { u with path := '/' :: p }.format = (c :: scheme) ++
        ':' :: (escape isPathChar ('/' :: p) ++ u.query.elim [] ('?' :: ·)) ++
          (if u.fragment = [] then [] else '#' :: u.fragment) := by
      simp [Url.format, hopaque habs, hauthority, hu]
    have hrest : parseRest (c :: scheme) (escape isPathChar ('/' :: p)) =
        some ⟨.ofList (c :: scheme), none, [], '/' :: p, [], true, none, []⟩ := by
      have hsecond : ∀ t, escape isPathChar p ≠ '/' :: t := by
        intro t ht
        have hdecode' : unescape (escape isPathChar p) = some p := unescape_escape (by decide) _
        rw [ht] at hdecode'
        exact hroot (head_of_unescape_slash hdecode')
      have hpath : parseRest (c :: scheme) ('/' :: escape isPathChar p) =
          (unescape ('/' :: escape isPathChar p)).map fun path =>
            ⟨.ofList (c :: scheme), none, [], path, [], true, none, []⟩ := by
        unfold parseRest
        split
        next more heq => exact absurd (List.cons.inj heq).2 (hsecond more)
        next => simp
        next h => exact absurd rfl (h _)
      rw [hescape, hpath, ← hescape, hdecode]
      rfl
    rw [hformat, parse_append hc hscheme hlower hpathChars hwf.query hwf.fragment, hrest]
    exact ⟨_, rfl, hu.symm, rfl⟩
  · have hformat : { u with path := '/' :: p }.format = (c :: scheme) ++
        ':' :: (('/' :: '/' :: u.authority ++ escape isPathChar ('/' :: p)) ++
          u.query.elim [] ('?' :: ·)) ++ (if u.fragment = [] then [] else '#' :: u.fragment) := by
      simp [Url.format, hopaque habs, hauthority, hu, Url.authority]
    have hchars := authority_chars hwf.authority
    have hrest : parseRest (c :: scheme) ('/' :: '/' :: u.authority ++ escape isPathChar ('/' :: p)) =
        some ⟨.ofList (c :: scheme), u.userinfo, u.host, '/' :: p, [], false, none, []⟩ := by
      have hslash : ∀ x ∈ u.authority, (x != '/') = true := fun x hx => bne_iff_ne.2 (hchars x hx).2
      have htake : (u.authority ++ escape isPathChar ('/' :: p)).takeWhile (· != '/') = u.authority := by
        rw [List.takeWhile_append_of_pos hslash, hescape]
        simp
      have hdrop : (u.authority ++ escape isPathChar ('/' :: p)).dropWhile (· != '/') =
          escape isPathChar ('/' :: p) := by
        rw [List.dropWhile_append_of_pos hslash, hescape]
        simp
      simp only [parseRest, List.cons_append, List.cons_ne_nil, false_and, if_false, htake, hdrop,
        hwf.authority, Option.bind_some, hdecode, Option.map_some]
    have hinner : ∀ x ∈ '/' :: '/' :: u.authority ++ escape isPathChar ('/' :: p), Inner x := by
      intro x hx
      simp only [List.cons_append, List.mem_cons, List.mem_append] at hx
      rcases hx with rfl | rfl | hx | hx
      · exact ⟨by decide, by decide, by decide⟩
      · exact ⟨by decide, by decide, by decide⟩
      · exact (hchars x hx).1
      · exact hpathChars x hx
    rw [hformat, parse_append hc hscheme hlower hinner hwf.query hwf.fragment, hrest]
    exact ⟨_, rfl, hu.symm, rfl⟩

/-- **What begins with a scheme has that scheme.** -/
theorem scheme_of_parse {c : Char} {scheme rest : List Char} (hc : c.isAlpha = true)
    (hscheme : ∀ x ∈ c :: scheme, isSchemeChar x = true)
    (hlower : (c :: scheme).map Char.toLower = c :: scheme) {u : Url}
    (h : parse ((c :: scheme) ++ ':' :: rest) = some u) : u.scheme = .ofList (c :: scheme) := by
  have hsharp : '#' ∉ (c :: scheme) ++ [':'] := by
    intro hx
    rcases List.mem_append.1 hx with hx | hx
    · exact absurd (hscheme _ hx) (by decide)
    · exact absurd hx (by decide)
  -- the fragment, if there is one, follows the scheme
  have hmain : ∃ rest', ((cut '#' ((c :: scheme) ++ ':' :: rest)).getD
      ((c :: scheme) ++ ':' :: rest, [])).1 = (c :: scheme) ++ ':' :: rest' := by
    by_cases hmem : '#' ∈ rest
    · obtain ⟨a, b, rfl, ha⟩ := exists_first hmem
      have hbefore : '#' ∉ (c :: scheme) ++ [':'] ++ a := by
        simp only [List.mem_append, not_or] at hsharp ⊢
        exact ⟨hsharp, ha⟩
      have hcut : cut '#' ((c :: scheme) ++ ':' :: (a ++ '#' :: b)) =
          some ((c :: scheme) ++ ':' :: a, b) := by
        simpa using cut_append b hbefore
      exact ⟨a, by rw [hcut]; rfl⟩
    · have hnone : '#' ∉ (c :: scheme) ++ ':' :: rest := by
        simp only [List.mem_append, List.mem_cons, not_or] at hsharp ⊢
        exact ⟨hsharp.1, by decide, hmem⟩
      exact ⟨rest, by rw [cut_eq_none hnone]; rfl⟩
  obtain ⟨rest', hrest'⟩ := hmain
  unfold parse at h
  dsimp only at h
  split_ifs at h
  rw [hrest', getScheme_of_schemeChars _ hscheme, if_pos hc, hlower, Option.bind_some] at h
  obtain ⟨u', hu', rfl⟩ := Option.map_eq_some_iff.1 h
  exact (parseRest_authority hu').2.1

end Graft.Urls
