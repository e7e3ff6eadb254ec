import Mathlib.Tactic

/-!
# Lexical paths

Paths with the separator `/`, as lists of characters, and their shortest equivalent form: without
empty elements and elements `.`, and without any `..` that follows another element or the root.

* `clean`, the shortest form, `join`, `joinAll`, `base` and `dir`;
* `Normal`, the elements that `clean` leaves, and `stack_render`: they are read back as they are;
* `clean_clean`, `clean_append`: `clean` is idempotent, and forgets nothing that matters for the
  rest of a longer path;
* `Within`, one path begins another at a separator, and `Within.total`: so do two that begin the
  same.
-/

namespace Graft.Path

def elements (l : List Char) : List (List Char) := l.splitOn '/'

def isAbs : List Char → Bool
  | '/' :: _ => true
  | _ => false

/-- One more element is read; the stack has those that are kept, the last first. -/
def push (rooted : Bool) (stack : List (List Char)) (e : List Char) : List (List Char) :=
  if e = [] ∨ e = ['.'] then stack
  else if e = ['.', '.'] then
    match stack with
    | [] => if rooted then [] else [e]
    | top :: rest => if top = ['.', '.'] then e :: top :: rest else rest
  else e :: stack

def stack (l : List Char) : List (List Char) := (elements l).foldl (push (isAbs l)) []

/-- The path with the given elements, the last first. -/
def render (rooted : Bool) (stack : List (List Char)) : List Char :=
  if rooted then '/' :: ['/'].intercalate stack.reverse
  else if stack = [] then ['.']
  else ['/'].intercalate stack.reverse

def clean (l : List Char) : List Char := render (isAbs l) (stack l)

def join (a b : List Char) : List Char :=
  if a ≠ [] then clean (a ++ '/' :: b) else if b ≠ [] then clean b else []

/-- Several paths, one after the other; empty ones at the beginning are left out. -/
def joinAll (ls : List (List Char)) : List Char :=
  let ls := ls.dropWhile (· = [])
  if ls = [] then [] else clean (['/'].intercalate ls)

def base (l : List Char) : List Char :=
  let l' := (l.reverse.dropWhile (· = '/')).reverse
  if l = [] then ['.'] else if l' = [] then ['/'] else (l'.reverse.takeWhile (· ≠ '/')).reverse

def dir (l : List Char) : List Char := clean (l.reverse.dropWhile (· ≠ '/')).reverse

/-! ### What is kept -/

/-- What `clean` keeps: elements that name something, with those that go up at the beginning, and
none of them after the root. -/
def Normal (rooted : Bool) : List (List Char) → Prop
  | [] => True
  | e :: rest => (e ≠ [] ∧ e ≠ ['.'] ∧ '/' ∉ e) ∧
    (e = ['.', '.'] → rooted = false ∧ ∀ x ∈ rest, x = ['.', '.']) ∧ Normal rooted rest

variable {rooted : Bool} {s : List (List Char)} {e l r : List Char}

theorem Normal.push (h : Normal rooted s) (he : '/' ∉ e) : Normal rooted (push rooted s e) := by
  by_cases hskip : e = [] ∨ e = ['.']
  · rw [Path.push.eq_def, if_pos hskip]
    exact h
  have hnames : e ≠ [] ∧ e ≠ ['.'] ∧ '/' ∉ e :=
    ⟨fun hx => hskip (.inl hx), fun hx => hskip (.inr hx), he⟩
  by_cases hup : e = ['.', '.']
  · -- at the root nothing is left, after another `..` there is one more, else one less
    rw [Path.push.eq_def, if_neg hskip, if_pos hup]
    cases s with
    | nil =>
      cases rooted with
      | true => trivial
      | false => exact ⟨hnames, fun _ => ⟨rfl, nofun⟩, trivial⟩
    | cons top rest =>
      dsimp only
      split_ifs with htop
      · obtain ⟨hr, hrest⟩ := h.2.1 htop
        exact ⟨hnames, fun _ => ⟨hr, List.forall_mem_cons.2 ⟨htop, hrest⟩⟩, h⟩
      · exact h.2.2
  · rw [Path.push.eq_def, if_neg hskip, if_neg hup]
    exact ⟨hnames, fun hx => absurd hx hup, h⟩

theorem not_mem_of_mem_elements (h : e ∈ elements l) : '/' ∉ e := by
  induction l generalizing e with
  | nil =>
    rw [elements, List.splitOn_nil, List.mem_singleton] at h
    rw [h]
    exact List.not_mem_nil
  | cons c l ih =>
    rw [elements, List.splitOn_cons_eq_if_modifyHead] at h
    split_ifs at h with hc
    · rcases List.mem_cons.1 h with rfl | h
      · exact List.not_mem_nil
      · exact ih h
    · -- the first element of the rest gets one character more
      obtain ⟨first, others, hsplit⟩ := List.exists_cons_of_ne_nil (List.splitOn_ne_nil '/' l)
      rw [hsplit, List.modifyHead_cons] at h
      have hmem : ∀ x ∈ first :: others, '/' ∉ x := fun x hx => ih (by rwa [elements, hsplit])
      rcases List.mem_cons.1 h with rfl | h
      · rw [List.mem_cons, not_or]
        exact ⟨fun hx => hc (beq_iff_eq.2 hx.symm), hmem first (List.mem_cons_self ..)⟩
      · exact hmem e (List.mem_cons_of_mem _ h)

theorem foldl_push_normal {es : List (List Char)} (hs : Normal rooted s) (hes : ∀ e ∈ es, '/' ∉ e) :
    Normal rooted (es.foldl (push rooted) s) := by
  induction es generalizing s with
  | nil => exact hs
  | cons e es ih =>
    exact ih (hs.push (hes e (List.mem_cons_self ..))) fun x hx => hes x (List.mem_cons_of_mem _ hx)

theorem stack_normal (l : List Char) : Normal (isAbs l) (stack l) :=
  foldl_push_normal trivial fun _ => not_mem_of_mem_elements

/-! ### Reading back -/

theorem push_of_normal (h : Normal rooted (e :: s)) : push rooted s e = e :: s := by
  obtain ⟨⟨hne, hdot, -⟩, hup, -⟩ := h
  rw [push.eq_def, if_neg (by simp [hne, hdot])]
  by_cases he : e = ['.', '.']
  · obtain ⟨hr, hrest⟩ := hup he
    rw [if_pos he]
    cases s with
    | nil => exact if_neg (by simp [hr])
    | cons top rest => exact if_pos (hrest top (List.mem_cons_self ..))
  · rw [if_neg he]

theorem foldl_push_reverse (h : Normal rooted s) : s.reverse.foldl (push rooted) [] = s := by
  induction s with
  | nil => rfl
  | cons e s ih =>
    rw [List.reverse_cons, List.foldl_append, ih h.2.2]
    exact push_of_normal h

theorem Normal.names (h : Normal rooted s) (he : e ∈ s) : e ≠ [] ∧ '/' ∉ e := by
  induction s with
  | nil => cases he
  | cons x s ih =>
    rcases List.mem_cons.1 he with rfl | he
    · exact ⟨h.1.1, h.1.2.2⟩
    · exact ih h.2.2 he

theorem elements_intercalate (h : Normal rooted s) (hs : s ≠ []) :
    elements (['/'].intercalate s.reverse) = s.reverse :=
  List.splitOn_intercalate '/' (fun e he => (h.names (List.mem_reverse.1 he)).2) (by simpa using hs)

theorem isAbs_render (h : Normal rooted s) : isAbs (render rooted s) = rooted := by
  cases rooted with
  | true => rfl
  | false =>
    rw [render, if_neg Bool.false_ne_true]
    split_ifs with hs
    · rfl
    · -- the path begins as its first element does
      obtain ⟨first, others, hfirst⟩ := List.exists_cons_of_ne_nil (List.reverse_ne_nil_iff.2 hs)
      have hmem : first ∈ s := by
        rw [← List.mem_reverse, hfirst]
        exact List.mem_cons_self ..
      obtain ⟨hne, hslash⟩ := h.names hmem
      obtain ⟨c, cs, rfl⟩ := List.exists_cons_of_ne_nil hne
      have hc : c ≠ '/' := fun hx => hslash (hx ▸ List.mem_cons_self ..)
      rw [hfirst]
      cases others with
      | nil => simp [isAbs, hc]
      | cons next others => simp [isAbs, hc, List.intercalate_cons_cons]

theorem stack_render (h : Normal rooted s) : stack (render rooted s) = s := by
  rw [stack, isAbs_render h]
  cases rooted with
  | true =>
    -- the root is an empty element, which is not kept
    have hroot : ∀ l, elements ('/' :: l) = [] :: elements l := fun l =>
      List.splitOn_append_cons_self [] l
    rw [render, if_pos rfl, hroot, List.foldl_cons]
    by_cases hs : s = []
    · rw [hs]
      rfl
    · rw [elements_intercalate h hs]
      exact foldl_push_reverse h
  | false =>
    rw [render, if_neg Bool.false_ne_true]
    split_ifs with hs
    · rw [hs]
      rfl
    · rw [elements_intercalate h hs, foldl_push_reverse h]

/-! ### Cleaning twice, and longer paths -/

theorem isAbs_clean (l : List Char) : isAbs (clean l) = isAbs l := isAbs_render (stack_normal l)

theorem stack_clean (l : List Char) : stack (clean l) = stack l := stack_render (stack_normal l)

/-- **`clean` is idempotent.** -/
theorem clean_clean (l : List Char) : clean (clean l) = clean l := by
  rw [clean, isAbs_clean, stack_clean, clean]

theorem clean_ne_nil (l : List Char) : clean l ≠ [] := by
  intro h
  have hstack := stack_clean l
  have habs := isAbs_clean l
  rw [h] at hstack habs
  rw [clean, ← hstack, ← habs] at h
  cases h

theorem isAbs_append (hl : l ≠ []) : isAbs (l ++ r) = isAbs l := by
  obtain ⟨c, cs, rfl⟩ := List.exists_cons_of_ne_nil hl
  rw [List.cons_append]
  unfold isAbs
  split <;> split <;> simp_all

theorem isAbs_join (hl : l ≠ []) : isAbs (join l r) = isAbs l := by
  rw [join, if_pos hl, isAbs_clean, isAbs_append hl]

theorem stack_append (hl : l ≠ []) :
    stack (l ++ '/' :: r) = (elements r).foldl (push (isAbs l)) (stack l) := by
  rw [stack, isAbs_append hl, elements, List.splitOn_append_cons_self, List.foldl_append]
  rfl

/-- **What follows a path does not depend on how its beginning is written.** -/
theorem clean_append {l' : List Char} (hl : l ≠ []) (hl' : l' ≠ []) (h : clean l = clean l') :
    clean (l ++ '/' :: r) = clean (l' ++ '/' :: r) := by
  have habs : isAbs l = isAbs l' := by rw [← isAbs_clean l, h, isAbs_clean]
  have hstack : stack l = stack l' := by rw [← stack_clean l, h, stack_clean]
  rw [clean, clean, stack_append hl, stack_append hl', isAbs_append hl, isAbs_append hl', habs,
    hstack]

theorem mem_intercalate_iff {c : Char} {es : List (List Char)} (hc : c ≠ '/') :
    c ∈ ['/'].intercalate es ↔ ∃ e ∈ es, c ∈ e := by
  induction es with
  | nil => simp
  | cons e es ih =>
    cases es with
    | nil => simp
    | cons e' es => simp [List.intercalate_cons_cons, ih, hc]

theorem mem_push {x : List Char} (h : x ∈ push rooted s e) : x = e ∨ x ∈ s := by
  unfold push at h
  split_ifs at h <;> grind

theorem mem_foldl_push {x : List Char} {es : List (List Char)}
    (h : x ∈ es.foldl (push rooted) s) : x ∈ es ∨ x ∈ s := by
  induction es generalizing s with
  | nil => exact .inr h
  | cons e es ih =>
    obtain hx | hx := ih h
    · exact .inl (List.mem_cons_of_mem _ hx)
    · obtain rfl | hx := mem_push hx
      · exact .inl (List.mem_cons_self ..)
      · exact .inr hx

theorem mem_clean {c : Char} (h : c ∈ clean l) : c ∈ l ∨ c = '.' ∨ c = '/' := by
  by_cases hc : c = '/'
  · exact .inr (.inr hc)
  have helements : (∃ e ∈ stack l, c ∈ e) → c ∈ l := by
    rintro ⟨e, he, hce⟩
    obtain he | he := mem_foldl_push he
    · rw [← @List.intercalate_splitOn _ l _ _ '/', mem_intercalate_iff hc]
      exact ⟨e, he, hce⟩
    · cases he
  unfold clean render at h
  split_ifs at h
  · have hrest := (List.mem_cons.1 h).resolve_left hc
    rw [mem_intercalate_iff hc] at hrest
    exact .inl (helements (by simpa using hrest))
  · simp_all
  · rw [mem_intercalate_iff hc] at h
    exact .inl (helements (by simpa using h))

/-! ### Paths that begin others -/

/-- `l` begins as `r` does, and `r` ends there or goes on with a separator. -/
def Within (l r : List Char) : Prop := ∃ s, l = r ++ s ∧ ∀ c ∈ s.head?, c = '/'

theorem Within.of_append {s : List Char} (h : Within (l ++ s) r) (hr : r.length ≤ l.length) :
    Within l r := by
  obtain ⟨t, hlt, ht⟩ := h
  obtain ⟨u, rfl⟩ : ∃ u, l = r ++ u := by
    obtain ⟨u, hu⟩ := List.prefix_of_prefix_length_le ⟨t, hlt.symm⟩ ⟨s, rfl⟩ hr
    exact ⟨u, hu.symm⟩
  refine ⟨u, rfl, fun c hc => ht c ?_⟩
  rw [List.append_assoc, List.append_cancel_left_eq] at hlt
  rw [← hlt, List.head?_append, Option.mem_def.1 hc]
  rfl

/-- **Of two paths that begin the same one, one begins the other.** -/
theorem Within.total {l' : List Char} (h : Within l r) (h' : Within l l') :
    Within r l' ∨ Within l' r := by
  rcases le_total l'.length r.length with hle | hle
  · obtain ⟨s, rfl, -⟩ := h
    exact .inl (h'.of_append hle)
  · obtain ⟨s, rfl, -⟩ := h'
    exact .inr (h.of_append hle)

end Graft.Path
