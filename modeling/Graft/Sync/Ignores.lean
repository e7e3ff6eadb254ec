import Graft.Library.Location

/-!
# Ignores (`pkg/gitignore.go`, and mutagen's `core/ignore/mutagen/ignore.go`)

A session of mutagen has a list of patterns.  The last one that matches a path decides, and a
directory that is ignored is not scanned.  Graft makes the list from the patterns of `.gitignore` and
from `syncInclude`, whose patterns it appends as negations.
-/

namespace Graft.Ignores

abbrev Text := List Char

/-! ### Patterns of mutagen -/

/-- A pattern as mutagen's ignorer has it. -/
structure IgnorePattern where
  negated : Bool
  directoryOnly : Bool
  matchLeaf : Bool
  pattern : Text
  deriving DecidableEq, Inhabited

inductive PatternError
  | empty
  | negatedEmpty
  | root
  | rootDirectory
  | invalid (pattern : Text)
  deriving DecidableEq

/-- A variant of `path.Clean` that preserves trailing slashes. -/
def cleanPreservingTrailingSlash (path : Text) : Text :=
  if 1 < path.length ∧ path.getLast? = some '/' then Path.clean path ++ ['/'] else Path.clean path

section Glob

-- `doublestar.Match`; nothing, if the pattern is malformed
variable (glob : Text → Text → Option Bool)

def parseBody (negated : Bool) (body : Text) : Except PatternError IgnorePattern :=
  if body = [] then .error .negatedEmpty
  else
    let pattern := cleanPreservingTrailingSlash body
    if pattern = ['/'] then .error .root
    else if pattern = ['/', '/'] then .error .rootDirectory
    else
      let absolute := Path.isAbs pattern
      let pattern := if absolute then pattern.tail else pattern
      let directoryOnly := pattern.getLast? = some '/'
      let pattern := if directoryOnly then pattern.dropLast else pattern
      if glob pattern ['a'] = none then .error (.invalid pattern)
      else .ok ⟨negated, directoryOnly, !absolute && '/' ∉ pattern, pattern⟩

/-- A pattern is negated by a `!` before it. -/
def newIgnorePattern : Text → Except PatternError IgnorePattern
  | [] => .error .empty
  | '!' :: body => parseBody glob true body
  | body => parseBody glob false body

def IgnorePattern.matches (p : IgnorePattern) (path : Text) (directory : Bool) : Bool :=
  !(p.directoryOnly && !directory) && ((glob p.pattern path).getD false ||
    p.matchLeaf && path ≠ [] && (glob p.pattern (Path.base path)).getD false)

/-- Patterns, parsed; the number of those that are negated is counted. -/
structure Ignorer where
  patterns : List IgnorePattern
  deriving DecidableEq

def Ignorer.negatedPatternCount (i : Ignorer) : ℕ := i.patterns.countP (·.negated)

def NewIgnorer (patterns : List Text) : Except PatternError Ignorer :=
  (patterns.mapM (newIgnorePattern glob)).map Ignorer.mk

inductive IgnoreStatus
  | nominal
  | ignored
  | unignored
  deriving DecidableEq

/-- The loop over the patterns, with the number of negated ones that are left. -/
def ignoreLoop (path : Text) (directory : Bool) :
    List IgnorePattern → ℕ → IgnoreStatus → IgnoreStatus
  | [], _, status => status
  | p :: ps, remaining, status =>
    if status = .ignored ∧ remaining = 0 then status
    else if p.negated then
      if status = .unignored then ignoreLoop path directory ps (remaining - 1) status
      else if p.matches glob path directory then
        ignoreLoop path directory ps (remaining - 1) .unignored
      else ignoreLoop path directory ps (remaining - 1) status
    else if status = .ignored then ignoreLoop path directory ps remaining status
    else if p.matches glob path directory then ignoreLoop path directory ps remaining .ignored
    else ignoreLoop path directory ps remaining status

/-- The last pattern that matches decides. -/
def Ignorer.Ignore (i : Ignorer) (path : Text) (directory : Bool) : IgnoreStatus :=
  ignoreLoop glob path directory i.patterns i.negatedPatternCount .nominal

/-! ### The lists that graft makes -/

/-- With `/**` at its end a pattern is for what is below a directory, not for the directory. -/
def gitignorePatternToMutagen (pattern : Text) : Text :=
  if "/**".toList <:+ pattern then pattern ++ "/*".toList
  else if "/**/".toList <:+ pattern then pattern ++ "*/".toList
  else pattern

/-- `strings.TrimPrefix` with one character. -/
def trimFirst (c : Char) (s : Text) : Text := if s.head? = some c then s.tail else s

/-- The pattern for files that are synchronized all the same. -/
def negation (inc : Text) : Option Text :=
  let inc := trimFirst '!' inc
  if inc = [] then none else some (gitignorePatternToMutagen ('!' :: inc))

/-- Each include is a negated pattern after the ignores. -/
def applySyncIncludes (ignores includes : List Text) : List Text :=
  ignores ++ includes.filterMap negation

def isGlob (c : Char) : Bool := c ∈ ['*', '?', '[', '{']

/-- The paths that consist of the first segments, up to so many of them. -/
def prefixes (segs : List Text) (limit : ℕ) : List Text :=
  (List.range limit).map fun i => ['/'].intercalate (segs.take (i + 1))

def staticAncestorDirs (pattern : Text) : List Text :=
  let p := trimFirst '/' (trimFirst '!' pattern)
  let p := if p.getLast? = some '/' then p.dropLast else p
  if p = [] then []
  else
    let segs := Path.elements p
    let static := segs.takeWhile fun s => !s.any isGlob
    prefixes segs (if static.length = segs.length then segs.length - 1 else static.length)

/-- The includes below a directory that is ignored, which have no effect. -/
def shadowedSyncIncludes (ignores includes : List Text) : List Text :=
  match NewIgnorer glob ignores with
  | .error _ => []
  | .ok ignorer => includes.filter fun inc =>
    (staticAncestorDirs inc).any fun dir => ignorer.Ignore glob dir true = .ignored

end Glob

/-! ### The last pattern that matches -/

variable {glob : Text → Text → Option Bool} {path : Text} {directory : Bool}
  {ps : List IgnorePattern}

def IgnorePattern.status (p : IgnorePattern) : IgnoreStatus :=
  if p.negated then .unignored else .ignored

def verdict (glob : Text → Text → Option Bool) (path : Text) (directory : Bool)
    (ps : List IgnorePattern) (status : IgnoreStatus) : IgnoreStatus :=
  ps.foldl (fun status p => if p.matches glob path directory then p.status else status) status

theorem verdict_ignored (h : ps.countP (·.negated) = 0) :
    verdict glob path directory ps .ignored = .ignored := by
  induction ps with
  | nil => rfl
  | cons p ps ih =>
    simp only [List.countP_cons, Nat.add_eq_zero_iff] at h
    have hp : p.negated = false := by simpa using h.2
    simp only [verdict, List.foldl_cons, IgnorePattern.status, hp] at ih ⊢
    simpa using ih h.1

theorem ignoreLoop_eq_verdict (ps : List IgnorePattern) (status : IgnoreStatus) :
    ignoreLoop glob path directory ps (ps.countP (·.negated)) status =
      verdict glob path directory ps status := by
  induction ps generalizing status with
  | nil => rfl
  | cons p ps ih =>
    have hcons : verdict glob path directory (p :: ps) status = verdict glob path directory ps
      (if p.matches glob path directory then p.status else status) := rfl
    have hpos : p.negated = true → (p :: ps).countP (·.negated) - 1 = ps.countP (·.negated) :=
      fun h => by simp [h]
    have hzero : p.negated = false → (p :: ps).countP (·.negated) = ps.countP (·.negated) :=
      fun h => by simp [h]
    rw [ignoreLoop]
    split_ifs with hstop hneg hun hm hig hm'
    · rw [hstop.1]
      exact (verdict_ignored hstop.2).symm
    · rw [hpos hneg, ih, hcons, hun]
      simp [IgnorePattern.status, hneg]
    · rw [hpos hneg, ih, hcons, if_pos hm]
      simp [IgnorePattern.status, hneg]
    · rw [hpos hneg, ih, hcons, if_neg hm]
    · rw [hzero (by simpa using hneg), ih, hcons, hig]
      simp [IgnorePattern.status, hneg]
    · rw [hzero (by simpa using hneg), ih, hcons, if_pos hm']
      simp [IgnorePattern.status, hneg]
    · rw [hzero (by simpa using hneg), ih, hcons, if_neg hm']

theorem Ignorer.Ignore_eq (i : Ignorer) (path : Text) (directory : Bool) :
    i.Ignore glob path directory = verdict glob path directory i.patterns .nominal :=
  ignoreLoop_eq_verdict ..

theorem verdict_negated {qs : List IgnorePattern} (hqs : ∀ q ∈ qs, q.negated = true)
    (status : IgnoreStatus) : verdict glob path directory qs status =
      if qs.any (·.matches glob path directory) then .unignored else status := by
  induction qs generalizing status with
  | nil => rfl
  | cons q qs ih =>
    obtain ⟨hq, hqs⟩ := List.forall_mem_cons.1 hqs
    have hcons : verdict glob path directory (q :: qs) status = verdict glob path directory qs
      (if q.matches glob path directory then q.status else status) := rfl
    rw [hcons, ih hqs, List.any_cons]
    by_cases hm : q.matches glob path directory <;> simp [hm, IgnorePattern.status, hq]

theorem verdict_append (ps qs : List IgnorePattern) (status : IgnoreStatus) :
    verdict glob path directory (ps ++ qs) status =
      verdict glob path directory qs (verdict glob path directory ps status) :=
  List.foldl_append

/-! ### Lists that are accepted -/

theorem mapM_ok {α β ε : Type} {f : α → Except ε β} {l : List α} {bs : List β} :
    l.mapM f = .ok bs ↔ l.map f = bs.map .ok := by
  induction l generalizing bs with
  | nil => cases bs <;> simp [pure, Except.pure]
  | cons a l ih =>
    rw [List.mapM_cons, List.map_cons]
    cases hfa : f a with
    | error e => cases bs <;> simp [bind, Except.bind]
    | ok b =>
      cases hrest : l.mapM f with
      | error e =>
        have hnot : ∀ bs : List β, l.map f ≠ bs.map .ok := fun bs h => by
          grind
        cases bs <;> simp [bind, Except.bind, hnot]
      | ok bs' =>
        have hmap := ih.1 hrest
        have hinj : Function.Injective (List.map (Except.ok : β → Except ε β)) :=
          List.map_injective_iff.2 fun _ _ => Except.ok.inj
        cases bs <;> simp [bind, Except.bind, pure, Except.pure, hmap, hinj.eq_iff]

theorem NewIgnorer_ok {patterns : List Text} {i : Ignorer} :
    NewIgnorer glob patterns = .ok i ↔
      patterns.map (newIgnorePattern glob) = i.patterns.map .ok := by
  rw [← mapM_ok, NewIgnorer]
  cases patterns.mapM (newIgnorePattern glob) with
  | error e => simp [Except.map]
  | ok ps =>
    obtain ⟨qs⟩ := i
    simp [Except.map]

theorem accepted_iff {patterns : List Text} :
    (∃ i, NewIgnorer glob patterns = .ok i) ↔
      ∀ text ∈ patterns, ∃ p, newIgnorePattern glob text = .ok p := by
  constructor
  · rintro ⟨i, hi⟩ text htext
    have hmem := List.mem_map_of_mem (f := newIgnorePattern glob) htext
    rw [NewIgnorer_ok.1 hi, List.mem_map] at hmem
    obtain ⟨p, -, hp⟩ := hmem
    exact ⟨p, hp.symm⟩
  · intro h
    choose! p hp using h
    exact ⟨⟨patterns.map p⟩, NewIgnorer_ok.2 (by simpa using hp)⟩

theorem mem_patterns_iff {patterns : List Text} {i : Ignorer}
    (hi : NewIgnorer glob patterns = .ok i) {p : IgnorePattern} :
    p ∈ i.patterns ↔ ∃ text ∈ patterns, newIgnorePattern glob text = .ok p := by
  have hmap := NewIgnorer_ok.1 hi
  have hmem : Except.ok p ∈ i.patterns.map (Except.ok : _ → Except PatternError _) ↔ p ∈ i.patterns := by
    simp
  grind

theorem newIgnorePattern_bang {body : Text} {p : IgnorePattern}
    (h : newIgnorePattern glob ('!' :: body) = .ok p) : p.negated = true := by
  simp only [newIgnorePattern, parseBody] at h
  split_ifs at h <;> cases h <;> rfl

theorem cleanPreservingTrailingSlash_of_clean {x : Text} (directoryOnly : Bool)
    (hclean : Path.clean x = x) (hne : x ≠ []) (hlast : x.getLast? ≠ some '/') :
    cleanPreservingTrailingSlash (x ++ if directoryOnly then ['/'] else []) =
      x ++ if directoryOnly then ['/'] else [] := by
  cases directoryOnly with
  | false => simp [cleanPreservingTrailingSlash, hlast, hclean]
  | true =>
    have hslash : Path.clean (x ++ ['/']) = x := by
      simp_all [Path.clean, Path.stack_slash, Path.isAbs_append]
    have hlen := List.length_pos_iff.2 hne
    simp [cleanPreservingTrailingSlash, hslash, hlen]

theorem parseBody_of_clean (rooted directoryOnly : Bool) {negated : Bool} {l : Text}
    (habs : Path.isAbs l = false) (hlast : l.getLast? ≠ some '/') (hnil : l ≠ [])
    (hclean : Path.clean l = l) (hroot : Path.clean ('/' :: l) = '/' :: l)
    (hvalid : glob l ['a'] ≠ none) :
    parseBody glob negated
        ((if rooted then ['/'] else []) ++ l ++ if directoryOnly then ['/'] else []) =
      .ok ⟨negated, directoryOnly, !rooted && '/' ∉ l, l⟩ := by
  have hkept : cleanPreservingTrailingSlash
      ((if rooted then ['/'] else []) ++ l ++ if directoryOnly then ['/'] else []) =
      (if rooted then ['/'] else []) ++ l ++ if directoryOnly then ['/'] else [] := by
    cases rooted with
    | false => exact cleanPreservingTrailingSlash_of_clean directoryOnly hclean hnil hlast
    | true =>
      refine cleanPreservingTrailingSlash_of_clean directoryOnly hroot (by simp) ?_
      rwa [if_pos rfl, List.getLast?_append_of_ne_nil _ hnil]
  rw [parseBody, hkept]
  have hone : l ≠ ['/'] := fun h => by simp [h] at hlast
  have htwo : l ≠ ['/', '/'] := fun h => by simp [h] at hlast
  have hslash : Path.isAbs (l ++ ['/']) = false := by rw [Path.isAbs_append hnil, habs]
  have hcons : ∀ r, Path.isAbs ('/' :: r) = true := fun _ => rfl
  have htwo' : l ++ ['/'] ≠ ['/', '/'] := fun h => hone ((List.append_left_inj _).1 h)
  cases rooted <;> cases directoryOnly <;>
    simp [hnil, hone, htwo, htwo', habs, hslash, hcons, hlast, hvalid]

/-- The text of a pattern, between the slashes that say where and what it matches. -/
def spelled (rooted directoryOnly : Bool) (segs : List Text) : Text :=
  (if rooted then ['/'] else []) ++ ['/'].intercalate segs ++ if directoryOnly then ['/'] else []

/-- A pattern that is spelled clean is parsed to what is between the slashes. -/
theorem parseBody_spelled (rooted directoryOnly : Bool) {negated : Bool} {segs : List Text}
    (hsegs : ∀ e ∈ segs, Path.Name e) (hne : segs ≠ [])
    (hvalid : glob (['/'].intercalate segs) ['a'] ≠ none) :
    parseBody glob negated (spelled rooted directoryOnly segs) = .ok ⟨negated, directoryOnly,
      !rooted && '/' ∉ ['/'].intercalate segs, ['/'].intercalate segs⟩ := by
  obtain ⟨habs, hlast⟩ := Path.ends_names hsegs hne
  have hroot := Path.clean_below_root hsegs hne
  rw [Path.below_eq_intercalate hne] at hroot
  exact parseBody_of_clean rooted directoryOnly habs hlast (Path.intercalate_ne hsegs hne).1
    (Path.clean_names hsegs hne) hroot hvalid

theorem negated_of_mem {includes : List Text} {text : Text} {p : IgnorePattern}
    (htext : text ∈ includes.filterMap negation) (hp : newIgnorePattern glob text = .ok p) :
    p.negated = true := by
  obtain ⟨inc, -, hinc⟩ := List.mem_filterMap.1 htext
  unfold negation at hinc
  dsimp only at hinc
  split_ifs at hinc
  simp only [gitignorePatternToMutagen, Option.some.injEq] at hinc
  subst hinc
  split_ifs at hp <;> exact newIgnorePattern_bang hp

theorem Ignore_assembled {ignores includes : List Text} {i : Ignorer}
    (hi : NewIgnorer glob (applySyncIncludes ignores includes) = .ok i) :
    ∃ i₀ i₁, NewIgnorer glob ignores = .ok i₀ ∧ NewIgnorer glob (includes.filterMap negation) = .ok i₁ ∧
      ∀ path directory, i.Ignore glob path directory =
        if i₁.patterns.any (·.matches glob path directory) then .unignored
        else i₀.Ignore glob path directory := by
  have hmap := NewIgnorer_ok.1 hi
  rw [applySyncIncludes, List.map_append] at hmap
  obtain ⟨ps, qs, hpq, hps, hqs⟩ := List.map_eq_append_iff.1 hmap.symm
  refine ⟨⟨ps⟩, ⟨qs⟩, NewIgnorer_ok.2 hps.symm, NewIgnorer_ok.2 hqs.symm, fun path directory => ?_⟩
  have hneg : ∀ q ∈ qs, q.negated = true := by
    intro q hq
    obtain ⟨text, htext, hp⟩ := (mem_patterns_iff (i := ⟨qs⟩) (NewIgnorer_ok.2 hqs.symm)).1 hq
    exact negated_of_mem htext hp
  rw [Ignorer.Ignore_eq, Ignorer.Ignore_eq, hpq, verdict_append, verdict_negated hneg]

/-! ### The order of what is included -/

/-- What is decided about a path, if the list is accepted. -/
def decision (glob : Text → Text → Option Bool) (patterns : List Text) (path : Text)
    (directory : Bool) : Option IgnoreStatus :=
  (NewIgnorer glob patterns).toOption.map (·.Ignore glob path directory)

theorem decision_eq_none {patterns : List Text} :
    decision glob patterns path directory = none ↔ ¬ ∃ i, NewIgnorer glob patterns = .ok i := by
  unfold decision
  cases NewIgnorer glob patterns <;> simp [Except.toOption]

/-- **The order of the included patterns is irrelevant.** -/
theorem include_order_irrelevant (glob : Text → Text → Option Bool) (ignores : List Text)
    (includes includes' : List Text) (hperm : includes.Perm includes') (path : Text)
    (directory : Bool) :
    decision glob (applySyncIncludes ignores includes) path directory =
      decision glob (applySyncIncludes ignores includes') path directory := by
  have hmem : ∀ text, text ∈ includes.filterMap negation ↔ text ∈ includes'.filterMap negation :=
    fun text => (hperm.filterMap _).mem_iff
  have hacc : (∃ i, NewIgnorer glob (applySyncIncludes ignores includes) = .ok i) ↔
      ∃ i, NewIgnorer glob (applySyncIncludes ignores includes') = .ok i := by
    simp only [accepted_iff, applySyncIncludes, List.mem_append, hmem]
  by_cases h : ∃ i, NewIgnorer glob (applySyncIncludes ignores includes) = .ok i
  · obtain ⟨i, hi⟩ := id h
    obtain ⟨i', hi'⟩ := hacc.1 h
    obtain ⟨i₀, i₁, hi₀, hi₁, heq⟩ := Ignore_assembled hi
    obtain ⟨j₀, j₁, hj₀, hj₁, heq'⟩ := Ignore_assembled hi'
    cases hi₀.symm.trans hj₀
    have hany : i₁.patterns.any (·.matches glob path directory) =
        j₁.patterns.any (·.matches glob path directory) := by
      rw [Bool.eq_iff_iff, List.any_eq_true, List.any_eq_true]
      simp only [mem_patterns_iff hi₁, mem_patterns_iff hj₁, hmem]
    simp only [decision, hi, hi', Except.toOption, Option.map_some, heq, heq', hany]
  grind [decision_eq_none]

theorem include_order_irrelevant_swap :
    decision (fun p path => some (p = path)) (applySyncIncludes ["*.o".toList]
        ["a.o".toList, "b.o".toList]) "b.o".toList false =
      decision (fun p path => some (p = path)) (applySyncIncludes ["*.o".toList]
        ["b.o".toList, "a.o".toList]) "b.o".toList false :=
  include_order_irrelevant _ _ _ _ (.swap ..) _ _

/-! ### Paths that are included -/

/-- What a pattern without glob characters stands for. -/
def unescape : Text → Text
  | '\\' :: c :: p => c :: unescape p
  | c :: p => c :: unescape p
  | [] => []

def escape (name : Text) : Text := name.flatMap fun c => ['\\', c]

def escapePath (names : List Text) : Text := ['/'].intercalate (names.map escape)

/-- Without glob characters, a pattern of doublestar matches what it stands for; it is accepted if
every character is escaped. -/
structure Literal (glob : Text → Text → Option Bool) : Prop where
  literal : ∀ p path, (∀ c ∈ p, isGlob c = false) → glob p ['a'] ≠ none →
    glob p path = some (decide (unescape p = path))
  accepts : ∀ names : List Text, (∀ n ∈ names, ∀ c ∈ n, isGlob c = false) →
    glob (escapePath names) ['a'] ≠ none

def ancestors (path : Text) : List Text :=
  prefixes (Path.elements path) ((Path.elements path).length - 1)

/-- With every list for which the include is not reported, neither the path that it names nor a
directory on the way to it is ignored. -/
def TakesEffect (glob : Text → Text → Option Bool) (inc : Text) (p : IgnorePattern) : Prop :=
  ∀ ignores includes i, inc ∈ includes →
    NewIgnorer glob (applySyncIncludes ignores includes) = .ok i →
    inc ∉ shadowedSyncIncludes glob (applySyncIncludes ignores includes) includes →
    (∀ dir ∈ ancestors (unescape p.pattern), i.Ignore glob dir true ≠ .ignored) ∧
    ∀ directory, (p.directoryOnly = true → directory = true) →
      i.Ignore glob (unescape p.pattern) directory ≠ .ignored

theorem mem_of_mem_unescape {c : Char} {p : Text} (h : c ∈ unescape p) : c ∈ p := by
  fun_induction unescape p <;> grind

theorem unescape_escape (n rest : Text) : unescape (escape n ++ rest) = n ++ unescape rest := by
  induction n with
  | nil => rfl
  | cons c n ih => exact congrArg (c :: ·) ih

theorem unescape_escapePath (names : List Text) :
    unescape (escapePath names) = ['/'].intercalate names := by
  induction names with
  | nil => rfl
  | cons n names ih =>
    cases names with
    | nil => simpa [escapePath, unescape] using unescape_escape n []
    | cons m names =>
      have hcons : escapePath (n :: m :: names) = escape n ++ '/' :: escapePath (m :: names) := by
        simp [escapePath, List.intercalate_cons_cons]
      have hslash : unescape ('/' :: escapePath (m :: names)) =
          '/' :: unescape (escapePath (m :: names)) := by
        rw [unescape]
        simp
      rw [hcons, unescape_escape, hslash, ih, List.intercalate_cons_cons]
      simp

/-- What a pattern is parsed to has only characters that were in it, and dots and separators. -/
theorem of_parseBody {negated : Bool} {body : Text} {p : IgnorePattern}
    (h : parseBody glob negated body = .ok p) :
    body ≠ [] ∧ p.negated = negated ∧ glob p.pattern ['a'] ≠ none ∧
      (p.matchLeaf = true → '/' ∉ p.pattern) ∧ ∀ c ∈ p.pattern, c ∈ body ∨ c = '.' ∨ c = '/' := by
  have hchars : ∀ c ∈ cleanPreservingTrailingSlash body, c ∈ body ∨ c = '.' ∨ c = '/' := by
    intro c hc
    unfold cleanPreservingTrailingSlash at hc
    split_ifs at hc
    · obtain hc | hc := List.mem_append.1 hc
      · exact Path.mem_clean hc
      · exact .inr (.inr (List.mem_singleton.1 hc))
    · exact Path.mem_clean hc
  unfold parseBody at h
  dsimp only at h
  split_ifs at h with hbody hroot hdir <;> cases h <;>
    refine ⟨hbody, rfl, ‹_›, by simp, fun c hc => hchars c ?_⟩
  · exact List.mem_of_mem_tail (List.mem_of_mem_dropLast hc)
  · exact List.mem_of_mem_tail hc
  · exact List.mem_of_mem_dropLast hc
  · exact hc

theorem mem_escape {c : Char} {n : Text} : c ∈ escape n → c = '\\' ∨ c ∈ n := by
  simp only [escape, List.mem_flatMap, List.mem_cons, List.not_mem_nil, or_false]
  rintro ⟨d, hd, rfl | rfl⟩
  · exact .inl rfl
  · exact .inr hd

theorem mem_trimFirst {c d : Char} {l : Text} (h : c ∈ trimFirst d l) : c ∈ l := by
  grind [List.mem_of_mem_tail, trimFirst]

theorem negation_eq {inc : Text} (hne : trimFirst '!' inc ≠ []) (hinc : ∀ c ∈ inc, isGlob c = false) :
    negation inc = some ('!' :: trimFirst '!' inc) := by
  have hstar : '*' ∉ '!' :: trimFirst '!' inc := by
    rw [List.mem_cons, not_or]
    exact ⟨by decide, fun h => by cases hinc _ (mem_trimFirst h)⟩
  unfold negation
  dsimp only
  rw [if_neg hne, gitignorePatternToMutagen, if_neg fun h => hstar (h.subset (by decide)),
    if_neg fun h => hstar (h.subset (by decide))]

theorem parse_escapePath (hglob : Literal glob) {names : List Text} (hne : names ≠ [])
    (hnames : ∀ n ∈ names, n ≠ [] ∧ '/' ∉ n ∧ ∀ c ∈ n, isGlob c = false) :
    newIgnorePattern glob ('/' :: escapePath names) =
      .ok ⟨false, false, false, escapePath names⟩ := by
  have hparse : newIgnorePattern glob ('/' :: escapePath names) =
      parseBody glob false ('/' :: (escapePath names ++ [])) := by
    rw [List.append_nil]
    rfl
  rw [hparse]
  refine parseBody_spelled true false (fun e he => ?_) (by simpa using hne)
    (hglob.accepts names fun n hn => (hnames n hn).2.2)
  obtain ⟨n, hn, rfl⟩ := List.mem_map.1 he
  obtain ⟨hempty, hslash, -⟩ := hnames n hn
  obtain ⟨c, n, rfl⟩ := List.exists_cons_of_ne_nil hempty
  exact ⟨by simp [escape], by simp [escape], by simp [escape],
    fun h => hslash ((mem_escape h).resolve_left (by decide))⟩

theorem isGlob_escapePath {names : List Text} (hnames : ∀ n ∈ names, ∀ c ∈ n, isGlob c = false) :
    ∀ c ∈ escapePath names, isGlob c = false := by
  intro c hc
  by_cases hslash : c = '/'
  · rw [hslash]
    rfl
  · rw [escapePath, Path.mem_intercalate_iff hslash] at hc
    obtain ⟨e, he, hce⟩ := hc
    obtain ⟨n, hn, rfl⟩ := List.mem_map.1 he
    obtain rfl | hc := mem_escape hce
    · rfl
    grind

theorem matches_escapePath (hglob : Literal glob) {names : List Text}
    (hnames : ∀ n ∈ names, ∀ c ∈ n, isGlob c = false) (path : Text) (directory : Bool) :
    (IgnorePattern.mk false false false (escapePath names)).matches glob path directory =
      decide (['/'].intercalate names = path) := by
  simp [IgnorePattern.matches, unescape_escapePath,
    hglob.literal _ path (isGlob_escapePath hnames) (hglob.accepts names hnames)]

theorem Ignore_pair {q p : IgnorePattern} (hq : q.negated = false) (hp : p.negated = true) :
    (Ignorer.mk [q, p]).Ignore glob path directory =
      if p.matches glob path directory then .unignored
      else if q.matches glob path directory then .ignored else .nominal := by
  simp [Ignorer.Ignore_eq, verdict, IgnorePattern.status, hq, hp]

theorem not_takesEffect (hglob : Literal glob) {inc text : Text} {p : IgnorePattern}
    {names : List Text} (htext : negation inc = some text) (hp : newIgnorePattern glob text = .ok p)
    (hneg : p.negated = true) (hne : names ≠ [])
    (hnames : ∀ n ∈ names, n ≠ [] ∧ '/' ∉ n ∧ ∀ c ∈ n, isGlob c = false)
    (hdir : ['/'].intercalate names ∈ ancestors (unescape p.pattern))
    (hnot : ['/'].intercalate names ∉ staticAncestorDirs inc)
    (hother : p.matches glob (['/'].intercalate names) true = false) : ¬ TakesEffect glob inc p := by
  intro heffect
  have hq := matches_escapePath hglob fun n hn => (hnames n hn).2.2
  have hi : NewIgnorer glob (applySyncIncludes ['/' :: escapePath names] [inc]) =
      .ok ⟨[⟨false, false, false, escapePath names⟩, p]⟩ :=
    NewIgnorer_ok.2 (by simp [applySyncIncludes, htext, parse_escapePath hglob hne hnames, hp])
  refine (heffect _ [inc] _ (by simp) hi ?_).1 _ hdir ?_
  · rw [shadowedSyncIncludes, hi]
    intro hmem
    obtain ⟨d, hd, hig⟩ := List.any_eq_true.1 (List.mem_filter.1 hmem).2
    rw [Ignore_pair rfl hneg, hq] at hig
    split_ifs at hig with h₁ h₂ <;> simp at hig
    rw [decide_eq_true_eq] at h₂
    exact hnot (h₂ ▸ hd)
  · rw [Ignore_pair rfl hneg, hother, hq]
    simp

/-- **An include that is not reported takes effect**, whatever is ignored, if and only if the
directories on the way to the path that it names are among those that were looked at. -/
theorem include_takes_effect_iff (glob : Text → Text → Option Bool) (hglob : Literal glob)
    (inc : Text) (p : IgnorePattern) (hinc : ∀ c ∈ inc, isGlob c = false)
    (hp : newIgnorePattern glob ('!' :: trimFirst '!' inc) = .ok p)
    (hpath : [] ∉ Path.elements (unescape p.pattern)) :
    TakesEffect glob inc p ↔
      ∀ dir ∈ ancestors (unescape p.pattern), dir ∈ staticAncestorDirs inc := by
  obtain ⟨hbody, hneg, hvalid, hleaf, hchars⟩ := of_parseBody hp
  have hglobless : ∀ c ∈ p.pattern, isGlob c = false := by
    grind [mem_trimFirst, isGlob]
  have hmatch : ∀ path, glob p.pattern path = some (decide (unescape p.pattern = path)) :=
    fun path => hglob.literal p.pattern path hglobless hvalid
  have htext := negation_eq hbody hinc
  constructor
  · intro heffect dir hdir
    by_contra hnot
    obtain ⟨k, hk, rfl⟩ := List.mem_map.1 (id hdir)
    rw [List.mem_range] at hk
    have hnames : ∀ n ∈ (Path.elements (unescape p.pattern)).take (k + 1),
        n ≠ [] ∧ '/' ∉ n ∧ ∀ c ∈ n, isGlob c = false := by
      intro n hn
      have hn := List.mem_of_mem_take hn
      have hslash := Path.not_mem_of_mem_elements hn
      refine ⟨fun h => hpath (h ▸ hn), hslash, fun c hc => hglobless c (mem_of_mem_unescape ?_)⟩
      rw [← @List.intercalate_splitOn _ (unescape p.pattern) _ _ '/',
        Path.mem_intercalate_iff fun h => hslash (h ▸ hc)]
      exact ⟨n, hn, hc⟩
    have hne : (Path.elements (unescape p.pattern)).take (k + 1) ≠ [] := by
      rw [Ne, List.take_eq_nil_iff, not_or]
      exact ⟨by simp, List.splitOn_ne_nil _ _⟩
    refine not_takesEffect hglob htext hp hneg hne hnames hdir hnot ?_ heffect
    -- the include itself names something below the directory
    have hother : unescape p.pattern ≠
        ['/'].intercalate ((Path.elements (unescape p.pattern)).take (k + 1)) := by
      intro h
      have hsplit := List.splitOn_intercalate '/' (fun n hn => (hnames n hn).2.1) hne
      rw [← h] at hsplit
      have hlen := congrArg List.length hsplit
      rw [List.length_take] at hlen
      simp only [Path.elements] at hk hlen
      omega
    have hleaf' : p.matchLeaf = false := by
      by_contra h
      have hslash := hleaf (by simpa using h)
      have hone : Path.elements (unescape p.pattern) = [unescape p.pattern] :=
        List.splitOn_eq_singleton fun h => hslash (mem_of_mem_unescape h)
      rw [hone] at hk
      exact Nat.not_lt_zero _ hk
    simp [IgnorePattern.matches, hmatch, hother, hleaf']
  · intro hstatic ignores includes i hmem hi hshadow
    refine ⟨fun dir hdir hig => hshadow ?_, fun directory hdirectory => ?_⟩
    · simp_all [shadowedSyncIncludes]
    · obtain ⟨i₀, i₁, -, hi₁, heq⟩ := Ignore_assembled hi
      have hp₁ : p ∈ i₁.patterns :=
        (mem_patterns_iff hi₁).2 ⟨_, List.mem_filterMap.2 ⟨inc, hmem, htext⟩, hp⟩
      have hmatches : p.matches glob (unescape p.pattern) directory = true := by
        cases hd : p.directoryOnly <;> simp_all [IgnorePattern.matches]
      rw [heq, if_pos (List.any_eq_true.2 ⟨p, hp₁, hmatches⟩)]
      simp

/-- What is the same for all patterns without glob characters; others are not accepted. -/
def literalGlob (p path : Text) : Option Bool :=
  if p.any isGlob then none else some (unescape p = path)

theorem literalGlob_literal : Literal literalGlob where
  literal p path hp _ := by
    simp_all [literalGlob]
  accepts names hnames := by
    grind [literalGlob, isGlob_escapePath]

theorem include_takes_effect_iff_gen :
    TakesEffect literalGlob "/gen/foo".toList ⟨true, false, false, "gen/foo".toList⟩ ↔
      ∀ dir ∈ ancestors "gen/foo".toList, dir ∈ staticAncestorDirs "/gen/foo".toList :=
  include_takes_effect_iff literalGlob literalGlob_literal _ _
    (fun c hc => by
      simpa using List.all_eq_true.1
        (show ("/gen/foo".toList.all fun c => !isGlob c) = true by decide) c hc)
    (by decide) (by decide)

/-- The directory is looked at under another name. -/
theorem dot_include_shadowed :
    ∃ i, NewIgnorer literalGlob (applySyncIncludes ["/gen".toList] ["./gen/foo".toList]) = .ok i ∧
      shadowedSyncIncludes literalGlob
        (applySyncIncludes ["/gen".toList] ["./gen/foo".toList]) ["./gen/foo".toList] = [] ∧
      i.Ignore literalGlob "gen".toList true = .ignored :=
  ⟨_, rfl, by decide, by decide⟩

end Graft.Ignores
