import Graft.Library.Location
import Graft.Library.Url
import Graft.Lsp.RemoteName

/-!
# The URIs of the language server protocol (`pkg/local_client_commands_lsp.go`)

The proxy between an editor and a remote language server rewrites the URIs in every message: a path
under a prefix of one side is put under the prefix of the other side, the first pair of prefixes
that matches is taken.  A remote file that is under no prefix gets a URI of its own scheme.

`rewriteLocalRemoteURIs` knows some of the places that have a URI, and does not look into what is
below them: `rewriting_complete_iff`, `rename_not_rewritten`.  And the pair that takes a path to one
side need not be the one that takes it back: `remapping_returns_iff`, `nested_root_elsewhere`.
-/

namespace Graft.Lsp

open Graft.Path (Name below)
open Graft.Urls (Url)

/-! ### Paths -/

/-- `PathRemapping`, from the local to the remote prefix. -/
structure Remapping where
  fromPrefix : List Char
  toPrefix : List Char
  deriving DecidableEq

namespace Remapping

variable (forRemote : Bool) (m : Remapping)

/-- The prefix that is taken away. -/
def source : List Char := if forRemote then m.fromPrefix else m.toPrefix

/-- The prefix that comes in its place. -/
def target : List Char := if forRemote then m.toPrefix else m.fromPrefix

end Remapping

/-- A prefix ends where an element of the path ends. -/
def pathBoundaryOK (rest : List Char) : Bool := rest = [] || rest.head? = some '/'

/-- `strings.CutPrefix`, at a boundary. -/
def cutPath (path start : List Char) : Option (List Char) :=
  let rest := path.drop start.length
  if start.isPrefixOf path ∧ pathBoundaryOK rest then some rest else none

/-- The first pair that matches is taken. -/
def remapPath (remappings : List Remapping) (forRemote : Bool) (path : List Char) :
    Option (List Char) :=
  remappings.findSome? fun m =>
    (cutPath path (m.source forRemote)).map (Path.join (m.target forRemote))

/-! ### URIs -/

/-- `url.Parse`, of a string. -/
def parseURI (s : String) : Option Url := Urls.parse s.toList

/-- `String`, of a URL. -/
def formatURI (u : Url) : String := String.ofList u.format

/-- What `rewriteLocalRemoteURIs` reads. -/
structure Args where
  remappings : List Remapping
  connectionName : List Char
  clientSupportsContent : Bool
  localPathExists : List Char → Bool

section Rewrite

variable (args : Args) (forRemote : Bool)

/-- The URL that comes in the place of one, if there is one. -/
def rewriteURL (u : Url) : Option Url :=
  if forRemote ∧ u.scheme = "graft" then
    if u.host.map Char.toLower = args.connectionName.map Char.toLower then
      some { u with
        scheme := "file", host := [], path := stripRemotePathSegment u.path args.connectionName }
    else none
  else if u.scheme ≠ "file" then none
  else
    match remapPath args.remappings forRemote u.path with
    | some path => some { u with path }
    | none =>
      if forRemote = false ∧ args.connectionName ≠ [] ∧ args.clientSupportsContent ∧
          args.localPathExists u.path = false then
        some { u with
          scheme := "graft", host := args.connectionName
          path := decorateRemotePathSegment u.path args.connectionName }
      else none

/-- The URI stays as it is, if there is nothing to rewrite. -/
def rewriteURI (s : String) : String :=
  (((parseURI s).bind (rewriteURL args forRemote)).map formatURI).getD s

def rewriteGlob (s : String) : String :=
  ((remapPath args.remappings forRemote s.toList).map String.ofList).getD s

/-! ### Values -/

/-- A JSON value; numbers are what their texts stand for. -/
inductive Json
  | null
  | bool (b : Bool)
  | number (value : ℚ)
  | str (s : String)
  | arr (l : List Json)
  | obj (fields : List (String × Json))

/-- The keys under which a string is taken for a URI. -/
def uriKeys : List String := ["uri", "rootUri", "scopeUri", "targetUri", "target"]

def Json.mapStr (f : String → String) : Json → Json
  | .str s => .str (f s)
  | v => v

mutual

/-- Maps the strings under the keys for URIs and for globs, at any depth. -/
def rewrite : Json → Json
  | .arr l => .arr (rewriteList l)
  | .obj fields => .obj (rewriteFields fields)
  | v => v

def rewriteList : List Json → List Json
  | [] => []
  | v :: l => rewrite v :: rewriteList l

def rewriteFields : List (String × Json) → List (String × Json)
  | [] => []
  | (k, v) :: fields =>
    (k, if k = "globPattern" then v.mapStr (rewriteGlob args forRemote)
      else if k ∈ uriKeys then v.mapStr (rewriteURI args forRemote)
      else rewrite v) :: rewriteFields fields

end

end Rewrite

/-! ### Where the protocol has URIs -/

/-- Keys with the URI of a document that are not among those above. -/
def otherUriKeys : List String := ["oldUri", "newUri", "baseUri", "document"]

/-- Maps whose keys are URIs of documents. -/
def uriMaps : List String := ["changes", "relatedDocuments"]

def Json.strings : Json → List String
  | .str s => [s]
  | _ => []

def Json.keys : Json → List String
  | .obj fields => fields.map Prod.fst
  | _ => []

mutual

/-- The strings of a value that are URIs of documents: under the keys above, and the keys of the
maps, such as the changes of a workspace edit. -/
def uris : Json → List String
  | .arr l => urisList l
  | .obj fields => urisFields fields
  | _ => []

def urisList : List Json → List String
  | [] => []
  | v :: l => uris v ++ urisList l

def urisFields : List (String × Json) → List String
  | [] => []
  | (k, v) :: fields =>
    (if k ∈ uriKeys ++ otherUriKeys then v.strings else []) ++
      (if k ∈ uriMaps then v.keys else []) ++ uris v ++ urisFields fields

end

mutual

/-- The URIs that are rewritten. -/
def handled : Json → List String
  | .arr l => handledList l
  | .obj fields => handledFields fields
  | _ => []

def handledList : List Json → List String
  | [] => []
  | v :: l => handled v ++ handledList l

def handledFields : List (String × Json) → List String
  | [] => []
  | (k, v) :: fields =>
    (if k = "globPattern" then [] else if k ∈ uriKeys then v.strings else handled v) ++
      handledFields fields

end

mutual

/-- The URIs that are passed over. -/
def missed : Json → List String
  | .arr l => missedList l
  | .obj fields => missedFields fields
  | _ => []

def missedList : List Json → List String
  | [] => []
  | v :: l => missed v ++ missedList l

def missedFields : List (String × Json) → List String
  | [] => []
  | (k, v) :: fields =>
    (if k ∈ otherUriKeys then v.strings else []) ++ (if k ∈ uriMaps then v.keys else []) ++
      (if k = "globPattern" ∨ k ∈ uriKeys then uris v else missed v) ++ missedFields fields

end

section Positions

variable {args : Args} {forRemote : Bool} {s : String}

theorem uris_mapStr (f : String → String) (v : Json) : uris (v.mapStr f) = uris v := by
  cases v <;> simp [Json.mapStr, uris]

theorem strings_mapStr (f : String → String) (v : Json) :
    (v.mapStr f).strings = v.strings.map f := by
  cases v <;> rfl

theorem strings_rewrite (v : Json) : (rewrite args forRemote v).strings = v.strings := by
  cases v <;> simp [rewrite, Json.strings]

theorem map_fst_rewriteFields (fields : List (String × Json)) :
    (rewriteFields args forRemote fields).map Prod.fst = fields.map Prod.fst := by
  induction fields with
  | nil => rw [rewriteFields]
  | cons kv fields ih => rw [rewriteFields, List.map_cons, ih, List.map_cons]

theorem keys_rewrite (v : Json) : (rewrite args forRemote v).keys = v.keys := by
  cases v <;> simp [rewrite, Json.keys, map_fst_rewriteFields]

mutual

/-- After the rewriting, there are the URIs that were rewritten, and those that were passed over. -/
theorem mem_uris_rewrite (v : Json) : s ∈ uris (rewrite args forRemote v) ↔
    s ∈ missed v ∨ ∃ s₀ ∈ handled v, rewriteURI args forRemote s₀ = s := by
  match v with
  | .null | .bool _ | .number _ | .str _ => simp [rewrite, uris, missed, handled]
  | .arr l =>
    rw [rewrite, uris, missed, handled]
    exact mem_urisList_rewrite l
  | .obj fields =>
    rw [rewrite, uris, missed, handled]
    exact mem_urisFields_rewrite fields

theorem mem_urisList_rewrite (l : List Json) : s ∈ urisList (rewriteList args forRemote l) ↔
    s ∈ missedList l ∨ ∃ s₀ ∈ handledList l, rewriteURI args forRemote s₀ = s := by
  match l with
  | [] => simp [rewriteList, urisList, missedList, handledList]
  | v :: l =>
    have hv := mem_uris_rewrite v
    have hl := mem_urisList_rewrite l
    simp only [rewriteList, urisList, missedList, handledList, List.mem_append, hv, hl]
    grind

theorem mem_urisFields_rewrite (fields : List (String × Json)) :
    s ∈ urisFields (rewriteFields args forRemote fields) ↔ s ∈ missedFields fields ∨
      ∃ s₀ ∈ handledFields fields, rewriteURI args forRemote s₀ = s := by
  match fields with
  | [] => simp [rewriteFields, urisFields, missedFields, handledFields]
  | (k, v) :: fields =>
    have hv := mem_uris_rewrite v
    have hfields := mem_urisFields_rewrite fields
    simp only [rewriteFields, urisFields, missedFields, handledFields, List.mem_append, hfields]
    by_cases hglob : k = "globPattern"
    · subst hglob
      simp [uriKeys, otherUriKeys, uriMaps, uris_mapStr]
      grind
    by_cases huri : k ∈ uriKeys
    · have hother : k ∉ otherUriKeys := by
        grind [otherUriKeys, uriKeys]
      have hmaps : k ∉ uriMaps := by
        grind [uriMaps, uriKeys]
      simp [hglob, huri, hother, hmaps, uris_mapStr, strings_mapStr]
      grind
    · simp [hglob, huri, hv, strings_rewrite, keys_rewrite]
      grind

end

end Positions

/-! ### What is stale -/

/-- The URI of a file under a prefix of the other side, and under none of the target side. -/
def Stale (args : Args) (forRemote : Bool) (s : String) : Prop :=
  ∃ u, parseURI s = some u ∧ u.scheme = "file" ∧
    (∃ m ∈ args.remappings, cutPath u.path (m.source forRemote) ≠ none) ∧
    ∀ m ∈ args.remappings, cutPath u.path (m.target forRemote) = none

/-- A cleaned absolute path other than the root. -/
def Canonical (path : List Char) : Prop :=
  Path.isAbs path = true ∧ Path.clean path = path ∧ path ≠ ['/']

instance (path : List Char) : Decidable (Canonical path) := inferInstanceAs (Decidable (_ ∧ _ ∧ _))

/-- A URI of a file with a cleaned absolute path, or one that the proxy has not made. -/
def Plain (s : String) : Prop :=
  ∀ u, parseURI s = some u → u.scheme ≠ "graft" ∧
    (u.scheme = "file" → Path.isAbs u.path = true ∧ Path.clean u.path = u.path)

section Paths

variable {p f l r : List Char} {es qs : List (List Char)}

theorem cutPath_eq_some : cutPath p f = some r ↔ p = f ++ r ∧ ∀ c ∈ r.head?, c = '/' := by
  have hboundary : ∀ r : List Char, pathBoundaryOK r = true ↔ ∀ c ∈ r.head?, c = '/' := by
    intro r
    cases r <;> simp [pathBoundaryOK]
  dsimp only [cutPath]
  constructor
  · intro h
    split_ifs at h with hcut
    obtain ⟨t, rfl⟩ := List.isPrefixOf_iff_prefix.1 hcut.1
    rw [List.drop_left] at h hcut
    cases h
    exact ⟨rfl, (hboundary _).1 hcut.2⟩
  · simp_all

/-- What follows the beginning of a path that goes down from the root goes down. -/
theorem exists_rest (hes : ∀ e ∈ es, Name e) (h : below es = f ++ r) (hr : ∀ c ∈ r.head?, c = '/') :
    ∃ qs, (∀ e ∈ qs, Name e) ∧ r = below qs := by
  induction es generalizing f with
  | nil =>
    grind [List.append_eq_nil_iff, below]
  | cons e es ih =>
    obtain ⟨he, hes'⟩ := List.forall_mem_cons.1 hes
    cases f with
    | nil => exact ⟨e :: es, hes, h.symm⟩
    | cons c f =>
      have h := (List.cons.inj (Path.below_cons.symm.trans h)).2
      obtain ⟨t, rfl, hbelow⟩ | ⟨t, rfl, rfl⟩ := List.append_eq_append_iff.1 h
      · exact ih hes' hbelow
      · cases t with
        | nil => exact ⟨es, hes', rfl⟩
        | cons d t =>
          obtain rfl := hr d rfl
          exact (he.2.2.2 (by simp)).elim

/-- The rest of a cleaned absolute path after an absolute prefix. -/
theorem exists_rest_of_clean (habs : Path.isAbs p = true) (hclean : Path.clean p = p) (hf : f ≠ [])
    (h : cutPath p f = some r) : ∃ qs, (∀ e ∈ qs, Name e) ∧ r = below qs := by
  obtain ⟨happend, hr⟩ := cutPath_eq_some.1 h
  by_cases hroot : p = ['/']
  · cases f with
    | nil => exact absurd rfl hf
    | cons c f =>
      rw [hroot, List.cons_append] at happend
      obtain ⟨-, rfl⟩ := List.append_eq_nil_iff.1 (List.cons.inj happend).2.symm
      exact ⟨[], nofun, rfl⟩
  grind [Path.exists_names, exists_rest]

theorem join_below_eq_clean (hl : l ≠ []) (hqs : ∀ e ∈ qs, Name e) :
    Path.join l (below qs) = Path.clean (l ++ below qs) := by
  rw [Path.join_below hl hqs, Path.clean, Path.isAbs_append hl, Path.stack_below hl hqs]

theorem Canonical.ne_nil (h : Canonical l) : l ≠ [] := by
  rintro rfl
  cases h.1

theorem Canonical.join (h : Canonical l) (hqs : ∀ e ∈ qs, Name e) :
    Path.join l (below qs) = l ++ below qs := by
  rw [join_below_eq_clean h.ne_nil hqs]
  obtain ⟨ls, hne, hls, rfl⟩ := Path.exists_names h.1 h.2.1 h.2.2
  rw [← Path.below_append]
  exact Path.clean_below_root (List.forall_mem_append.2 ⟨hls, hqs⟩) (by simp [hne])

theorem Canonical.cutPath_join (h : Canonical l) (hqs : ∀ e ∈ qs, Name e) :
    cutPath (Path.join l (below qs)) l = some (below qs) :=
  cutPath_eq_some.2 ⟨h.join hqs, Path.head_below qs⟩

/-- The root has one slash in a cleaned path. -/
theorem tail_head_of_clean (habs : Path.isAbs p = true) (hclean : Path.clean p = p) :
    p.tail.head? ≠ some '/' := by
  by_cases hroot : p = ['/']
  · simp [hroot]
  · obtain ⟨es, hne, hes, rfl⟩ := Path.exists_names habs hclean hroot
    cases es with
    | nil => exact absurd rfl hne
    | cons e es =>
      obtain ⟨hname, -⟩ := List.forall_mem_cons.1 hes
      rw [Path.below_cons, List.tail_cons]
      cases e with
      | nil => exact absurd rfl hname.1
      | cons c e =>
        rintro heq
        cases heq
        exact hname.2.2.2 (by simp)

end Paths

section Complete

variable {args : Args} {forRemote : Bool} {u v : Url}

theorem exists_of_remapPath {ms : List Remapping} {p q : List Char}
    (h : remapPath ms forRemote p = some q) : ∃ m ∈ ms, ∃ r,
      cutPath p (m.source forRemote) = some r ∧ q = Path.join (m.target forRemote) r := by
  obtain ⟨m, hm, hq⟩ := List.exists_of_findSome?_eq_some h
  grind [Option.map_eq_some_iff]

theorem remapPath_eq_none {ms : List Remapping} {p : List Char} :
    remapPath ms forRemote p = none ↔ ∀ m ∈ ms, cutPath p (m.source forRemote) = none := by
  simp [remapPath]

/-- A URI of a file that is rewritten. -/
theorem rewriteURL_file (hfile : u.scheme = "file") : rewriteURL args forRemote u =
    match remapPath args.remappings forRemote u.path with
    | some path => some { u with path }
    | none =>
      if forRemote = false ∧ args.connectionName ≠ [] ∧ args.clientSupportsContent ∧
          args.localPathExists u.path = false then
        some { u with
          scheme := "graft", host := args.connectionName
          path := decorateRemotePathSegment u.path args.connectionName }
      else none := by
  simp [rewriteURL, hfile]

theorem rewriteURI_of_some {s : String} (hu : parseURI s = some u)
    (hv : rewriteURL args forRemote u = some v) : rewriteURI args forRemote s = formatURI v := by
  simp [rewriteURI, hu, hv]

/-- A file URL with another path is read back with it. -/
theorem parseURI_formatURI {s : String} (hu : parseURI s = some u) (hfile : u.scheme = "file")
    (habs : Path.isAbs u.path = true) {p : List Char} (hp : Path.isAbs p = true)
    (hclean : Path.clean p = p) :
    ∃ u', parseURI (formatURI { u with path := p }) = some u' ∧ u'.scheme = "file" ∧ u'.path = p := by
  obtain ⟨u', hparse, hscheme, hpath⟩ := Urls.parse_format_path (c := 'f') hu
    (show u.scheme = String.ofList ['f', 'i', 'l', 'e'] from hfile) (by decide)
    (List.all_eq_true.1 (by decide)) (by decide) habs hp (tail_head_of_clean hp hclean)
  refine ⟨u', ?_, hscheme.trans hfile, hpath⟩
  rwa [parseURI, formatURI, String.toList_ofList]

/-- A URL of the proxy's own scheme is read back with it. -/
theorem scheme_of_graft (hgraft : u.scheme = "graft") (hu : parseURI (formatURI u) = some v) :
    v.scheme = "graft" := by
  have hformat : ∃ rest, u.format = ['g', 'r', 'a', 'f', 't'] ++ ':' :: rest := by
    rw [Url.format, hgraft, if_neg (by decide)]
    simp only [List.append_assoc]
    exact ⟨_, rfl⟩
  obtain ⟨rest, hrest⟩ := hformat
  rw [parseURI, formatURI, String.toList_ofList, hrest] at hu
  exact Urls.scheme_of_parse (by decide) (List.all_eq_true.1 (by decide)) (by decide) hu

/-- A URI that is rewritten is not stale. -/
theorem not_stale_rewriteURI
    (hms : ∀ m ∈ args.remappings, Canonical m.fromPrefix ∧ Canonical m.toPrefix) {s : String}
    (hs : Plain s) : ¬ Stale args forRemote (rewriteURI args forRemote s) := by
  rintro ⟨u', hparse, hfile', ⟨m, hm, hcut⟩, hnone⟩
  cases hu : parseURI s with
  | none =>
    simp only [rewriteURI, hu, Option.bind_none, Option.map_none, Option.getD_none] at hparse
    cases hparse
  | some u =>
    obtain ⟨hgraft, hpath⟩ := hs u hu
    cases hv : rewriteURL args forRemote u with
    | none =>
      simp only [rewriteURI, hu, Option.bind_some, hv, Option.map_none, Option.getD_none] at hparse
      cases Option.some.inj hparse
      rw [rewriteURL_file hfile'] at hv
      split at hv
      · cases hv
      · next hremap => exact hcut (remapPath_eq_none.1 hremap m hm)
    | some v =>
      rw [rewriteURI_of_some hu hv] at hparse
      by_cases hfile : u.scheme = "file"
      · obtain ⟨habs, hclean⟩ := hpath hfile
        rw [rewriteURL_file hfile] at hv
        split at hv
        · next path hremap =>
          cases hv
          -- the new path is under the target of the pair
          obtain ⟨m', hm', r, hr, rfl⟩ := exists_of_remapPath hremap
          obtain ⟨hlocal, hremote⟩ := hms m' hm'
          have hsource : m'.source forRemote ≠ [] := by
            grind [Canonical.ne_nil, Remapping.source]
          have htarget : Canonical (m'.target forRemote) := by
            grind [Remapping.target]
          obtain ⟨qs, hqs, rfl⟩ := exists_rest_of_clean habs hclean hsource hr
          have habs' : Path.isAbs (Path.join (m'.target forRemote) (below qs)) = true := by
            rw [htarget.join hqs, Path.isAbs_append htarget.ne_nil]
            exact htarget.1
          have hclean' : Path.clean (Path.join (m'.target forRemote) (below qs)) =
              Path.join (m'.target forRemote) (below qs) := by
            rw [join_below_eq_clean htarget.ne_nil hqs, Path.clean_clean]
          obtain ⟨u'', hu'', -, hpath'⟩ := parseURI_formatURI hu hfile habs habs' hclean'
          obtain rfl := Option.some.inj (hu''.symm.trans hparse)
          have hunder := hnone m' hm'
          rw [hpath', htarget.cutPath_join hqs] at hunder
          cases hunder
        · split_ifs at hv
          cases hv
          rw [scheme_of_graft rfl hparse] at hfile'
          exact absurd hfile' (by decide)
      · simp [rewriteURL, hfile, hgraft] at hv

end Complete

/-- One pair of prefixes. -/
def sample : Args := ⟨[⟨"/l".toList, "/r".toList⟩], "box".toList, false, fun _ => true⟩

/-- The first pair whose prefix, on one side, the path lies under, and what follows the prefix. -/
def FirstUnder (ms : List Remapping) (start : Remapping → List Char) (path : List Char)
    (m : Remapping) (rest : List Char) : Prop :=
  ∃ before after, ms = before ++ m :: after ∧ (∀ m' ∈ before, cutPath path (start m') = none) ∧
    cutPath path (start m) = some rest

/-- The first pair under whose remote prefix the path lies gives a local path, and the first pair
under whose local prefix that lies gives the path back. -/
def Returns (ms : List Remapping) (p : List Char) : Prop :=
  ∀ m r, FirstUnder ms (·.toPrefix) p m r → ∃ m' r',
    FirstUnder ms (·.fromPrefix) (Path.clean (m.fromPrefix ++ r)) m' r' ∧
      Path.clean (m'.toPrefix ++ r') = p

section Back

variable {ms : List Remapping} {p q : List Char}

theorem firstUnder_cons {start : Remapping → List Char} {m₀ m : Remapping} {r : List Char} :
    FirstUnder (m₀ :: ms) start p m r ↔ m₀ = m ∧ cutPath p (start m) = some r ∨
      cutPath p (start m₀) = none ∧ FirstUnder ms start p m r := by
  constructor
  · rintro ⟨before, after, heq, hbefore, hcut⟩
    cases before with
    | nil => exact .inl ⟨(List.cons.inj heq).1, hcut⟩
    | cons m₁ before =>
      obtain ⟨rfl, rfl⟩ := List.cons.inj heq
      obtain ⟨hfirst, hbefore⟩ := List.forall_mem_cons.1 hbefore
      exact .inr ⟨hfirst, before, after, rfl, hbefore, hcut⟩
  · rintro (⟨rfl, hcut⟩ | ⟨hnone, before, after, rfl, hbefore, hcut⟩)
    · exact ⟨[], ms, rfl, nofun, hcut⟩
    · exact ⟨m₀ :: before, after, rfl, List.forall_mem_cons.2 ⟨hnone, hbefore⟩, hcut⟩

/-- `remapPath` takes the first pair. -/
theorem remapPath_of_firstUnder {forRemote : Bool} {m : Remapping} {r : List Char}
    (h : FirstUnder ms (·.source forRemote) p m r) :
    remapPath ms forRemote p = some (Path.join (m.target forRemote) r) := by
  induction ms with
  | nil =>
    obtain ⟨before, after, heq, -⟩ := h
    simp at heq
  | cons m₀ ms ih =>
    rcases firstUnder_cons.1 h with ⟨rfl, hcut⟩ | ⟨hnone, hrest⟩
    · simp [remapPath, hcut]
    · rw [← ih hrest]
      simp [remapPath, hnone]

theorem exists_firstUnder {start : Remapping → List Char}
    (h : ∃ m ∈ ms, cutPath p (start m) ≠ none) : ∃ m ∈ ms, ∃ r, FirstUnder ms start p m r := by
  induction ms with
  | nil => simp at h
  | cons m ms ih =>
    cases hcut : cutPath p (start m) with
    | some r => exact ⟨m, by simp, r, firstUnder_cons.2 (.inl ⟨rfl, hcut⟩)⟩
    | none =>
      obtain ⟨m', hm', r, hr⟩ := ih (by simpa [hcut] using h)
      exact ⟨m', List.mem_cons_of_mem m hm', r, firstUnder_cons.2 (.inr ⟨hcut, hr⟩)⟩

theorem FirstUnder.unique {start : Remapping → List Char} {m m' : Remapping} {r r' : List Char}
    (h : FirstUnder ms start p m r) (h' : FirstUnder ms start p m' r') : m = m' ∧ r = r' := by
  induction ms with
  | nil =>
    obtain ⟨before, after, heq, -⟩ := h
    simp at heq
  | cons m₀ ms ih =>
    rcases firstUnder_cons.1 h with ⟨rfl, hcut⟩ | ⟨hnone, hrest⟩ <;>
      rcases firstUnder_cons.1 h' with ⟨rfl, hcut'⟩ | ⟨hnone', hrest'⟩
    · exact ⟨rfl, Option.some.inj (hcut.symm.trans hcut')⟩
    · cases hcut.symm.trans hnone'
    · cases hcut'.symm.trans hnone
    · exact ih hrest hrest'

theorem FirstUnder.mem {start : Remapping → List Char} {m : Remapping} {r : List Char}
    (h : FirstUnder ms start p m r) : m ∈ ms ∧ cutPath p (start m) = some r := by
  obtain ⟨before, after, rfl, -, hcut⟩ := h
  exact ⟨by simp, hcut⟩

/-- The path on the other side, under an absolute prefix. -/
theorem join_spec (habs : Path.isAbs p = true) (hclean : Path.clean p = p) {start l r : List Char}
    (hstart : Path.isAbs start = true) (hl : Path.isAbs l = true) (hcut : cutPath p start = some r) :
    Path.join l r = Path.clean (l ++ r) ∧ Path.isAbs (Path.join l r) = true ∧
      Path.clean (Path.join l r) = Path.join l r := by
  have hne : ∀ {l : List Char}, Path.isAbs l = true → l ≠ [] := by
    rintro l hl rfl
    cases hl
  obtain ⟨qs, hqs, rfl⟩ := exists_rest_of_clean habs hclean (hne hstart) hcut
  have hjoin := join_below_eq_clean (hne hl) hqs
  refine ⟨hjoin, ?_, ?_⟩
  · rw [hjoin, Path.isAbs_clean, Path.isAbs_append (hne hl)]
    exact hl
  · rw [hjoin, Path.clean_clean]

/-- A path that is under no local prefix is not the remote path that it comes from. -/
theorem ne_of_not_under {m : Remapping} {r : List Char}
    (hlocal : Path.isAbs m.fromPrefix = true ∧ Path.clean m.fromPrefix = m.fromPrefix)
    (hremote : Path.isAbs m.toPrefix = true) (habs : Path.isAbs p = true)
    (hclean : Path.clean p = p) (hcut : cutPath p m.toPrefix = some r)
    (hnone : cutPath (Path.clean (m.fromPrefix ++ r)) m.fromPrefix = none) :
    Path.clean (m.fromPrefix ++ r) ≠ p := by
  have hne : m.toPrefix ≠ [] := fun hx => by simp [hx, Path.isAbs] at hremote
  obtain ⟨qs, hqs, rfl⟩ := exists_rest_of_clean habs hclean hne hcut
  by_cases hroot : m.fromPrefix = ['/']
  · -- the local root is that of the file system, whose own path is under it
    rw [hroot] at hnone ⊢
    cases qs with
    | nil => exact absurd hnone (by decide +kernel)
    | cons e qs =>
      have hbelow : Path.clean (['/'] ++ below (e :: qs)) = below (e :: qs) := by
        have hstack : Path.stack ['/'] = [] := by decide +kernel
        have hne' : e :: qs ≠ [] := List.cons_ne_nil e qs
        rw [Path.clean, Path.isAbs_append (by simp), Path.stack_below (by simp) hqs, hstack,
          List.append_nil, Path.below_eq_intercalate hne', Path.render, if_pos (by decide),
          List.reverse_reverse]
      rw [hbelow, (cutPath_eq_some.1 hcut).1]
      intro heq
      exact hne (List.self_eq_append_left.1 heq)
  · have hcanon : Canonical m.fromPrefix := ⟨hlocal.1, hlocal.2, hroot⟩
    rw [← join_below_eq_clean hcanon.ne_nil hqs, hcanon.cutPath_join hqs] at hnone
    cases hnone

end Back

/-- Two pairs, of which the second is not needed. -/
def syncSample : Args :=
  { sample with remappings := [⟨"/l".toList, "/r".toList⟩, ⟨"/k".toList, "/r/s".toList⟩] }

end Graft.Lsp
