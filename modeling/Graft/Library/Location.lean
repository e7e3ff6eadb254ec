import Graft.Library.Path

/-!
# Paths below others, and the directories that paths name

A list of names is the path from a directory to one below it.

* `below`, the path through some names, `exists_below`: a path in another is one below it, and
  `exists_names`: a cleaned absolute path is one below the root;
* `Location`, a directory, `Location.of`, the one that a path names, and `Location.go`.
-/

namespace Graft.Path

variable {rooted : Bool} {s es : List (List Char)} {e l r : List Char}

/-! ### Names -/

def Name (e : List Char) : Prop := e ≠ [] ∧ e ≠ ['.'] ∧ e ≠ ['.', '.'] ∧ '/' ∉ e

instance (e : List Char) : Decidable (Name e) := inferInstanceAs (Decidable (_ ∧ _))

theorem push_name (h : Name e) : push rooted s e = e :: s := by
  rw [push.eq_def, if_neg (not_or.2 ⟨h.1, h.2.1⟩), if_neg h.2.2.1]

theorem foldl_push_names (h : ∀ e ∈ es, Name e) : es.foldl (push rooted) s = es.reverse ++ s := by
  induction es generalizing s with
  | nil => rfl
  | cons e es ih =>
    rw [List.foldl_cons, push_name (h e (List.mem_cons_self ..)),
      ih fun x hx => h x (List.mem_cons_of_mem _ hx), List.reverse_cons, List.append_assoc]
    rfl

theorem normal_of_names (h : ∀ e ∈ s, Name e) : Normal rooted s := by
  induction s with
  | nil => trivial
  | cons e s ih =>
    obtain ⟨⟨hne, hdot, hup, hslash⟩, hs⟩ := List.forall_mem_cons.1 h
    exact ⟨⟨hne, hdot, hslash⟩, fun hx => absurd hx hup, ih hs⟩

theorem Normal.name (h : Normal rooted s) (he : e ∈ s)
    (hup : rooted = true ∨ ∃ x, s.getLast? = some x ∧ x ≠ ['.', '.']) : Name e := by
  induction s with
  | nil => cases he
  | cons x s ih =>
    obtain ⟨⟨hne, hdot, hslash⟩, hx, hs⟩ := h
    have hnotUp : x ≠ ['.', '.'] := by
      intro hup'
      obtain ⟨hr, hrest⟩ := hx hup'
      rcases hup with hup | ⟨y, hy, hne'⟩
      · rw [hr] at hup
        cases hup
      · rcases List.mem_cons.1 (List.mem_of_getLast? hy) with rfl | hmem
        · exact hne' hup'
        · exact hne' (hrest y hmem)
    rcases List.mem_cons.1 he with rfl | he
    · exact ⟨hne, hdot, hnotUp, hslash⟩
    · refine ih hs he (hup.imp_right ?_)
      rintro ⟨y, hy, hne'⟩
      obtain ⟨z, s', rfl⟩ := List.exists_cons_of_ne_nil (List.ne_nil_of_mem he)
      exact ⟨y, by rwa [List.getLast?_cons_cons] at hy, hne'⟩

/-! ### Below -/

/-- The path through the names, from a directory down. -/
def below (es : List (List Char)) : List Char := es.flatMap ('/' :: ·)

@[simp] theorem below_nil : below [] = [] := rfl

@[simp] theorem below_cons : below (e :: es) = '/' :: (e ++ below es) := rfl

theorem head_below (es : List (List Char)) : ∀ c ∈ (below es).head?, c = '/' := by
  cases es <;> simp

theorem below_append (es fs : List (List Char)) : below (es ++ fs) = below es ++ below fs :=
  List.flatMap_append

theorem intercalate_cons_below : ['/'].intercalate (e :: es) = e ++ below es := by
  induction es generalizing e with
  | nil => simp
  | cons f es ih => rw [List.intercalate_cons_cons, ih, below_cons]; simp

theorem below_eq_intercalate (hes : es ≠ []) : below es = '/' :: ['/'].intercalate es := by
  obtain ⟨e, es, rfl⟩ := List.exists_cons_of_ne_nil hes
  rw [intercalate_cons_below, below_cons]

theorem elements_append_below (he : '/' ∉ e) (hes : ∀ x ∈ es, '/' ∉ x) :
    elements (e ++ below es) = e :: es := by
  grind [intercalate_cons_below, List.splitOn_intercalate, elements]

theorem elements_below (hes : ∀ x ∈ es, '/' ∉ x) : elements (below es) = [] :: es :=
  elements_append_below List.not_mem_nil hes

theorem stack_below (hl : l ≠ []) (hes : ∀ e ∈ es, Name e) :
    stack (l ++ below es) = es.reverse ++ stack l := by
  cases es with
  | nil => simp
  | cons e es =>
    obtain ⟨he, hrest⟩ := List.forall_mem_cons.1 hes
    rw [below_cons, stack_append hl,
      elements_append_below he.2.2.2 fun x hx => (hrest x hx).2.2.2, foldl_push_names hes]

theorem stack_slash (hl : l ≠ []) : stack (l ++ ['/']) = stack l := by
  rw [stack_append hl]
  rfl

theorem join_below (hl : l ≠ []) (hes : ∀ e ∈ es, Name e) :
    join l (below es) = render (isAbs l) (es.reverse ++ stack l) := by
  have happend : l ++ '/' :: below es = (l ++ ['/']) ++ below es := by simp
  rw [join, if_pos hl, happend, clean, stack_below (by simp) hes, stack_slash hl,
    isAbs_append (by simp), isAbs_append hl]

theorem clean_join (h : r ≠ []) : clean (join l r) = join l r := by
  grind [join, clean_clean]

theorem elements_names (hes : ∀ e ∈ es, Name e) (hne : es ≠ []) :
    elements (['/'].intercalate es) = es :=
  List.splitOn_intercalate '/' (fun e he => (hes e he).2.2.2) hne

theorem intercalate_ne (hes : ∀ e ∈ es, Name e) (hne : es ≠ []) :
    ['/'].intercalate es ≠ [] ∧ ['/'].intercalate es ≠ ['.'] := by
  have helements := elements_names hes hne
  constructor <;> intro hx <;> rw [hx] at helements
  · exact (hes [] (by rw [← helements]; decide)).1 rfl
  · exact (hes ['.'] (by rw [← helements]; decide)).2.1 rfl

theorem clean_render (h : Normal rooted s) : clean (render rooted s) = render rooted s := by
  rw [clean, isAbs_render h, stack_render h]

theorem intercalate_concat (hne : es ≠ []) :
    ['/'].intercalate (es ++ [e]) = ['/'].intercalate es ++ '/' :: e := by
  obtain ⟨f, es, rfl⟩ := List.exists_cons_of_ne_nil hne
  rw [List.cons_append, intercalate_cons_below, intercalate_cons_below, below_append]
  simp

theorem render_names (hne : es ≠ []) : render false es.reverse = ['/'].intercalate es := by
  rw [render, if_neg Bool.false_ne_true, if_neg (by simpa using hne), List.reverse_reverse]

theorem ends_names (hes : ∀ e ∈ es, Name e) (hne : es ≠ []) :
    isAbs (['/'].intercalate es) = false ∧ (['/'].intercalate es).getLast? ≠ some '/' := by
  constructor
  · rw [← render_names hne]
    grind [isAbs_render, normal_of_names]
  · obtain rfl | ⟨init, e, rfl⟩ := List.eq_nil_or_concat es
    · exact absurd rfl hne
    · have he := hes e (by simp)
      have hlast : e.getLast? ≠ some '/' := fun h => he.2.2.2 (List.mem_of_getLast? h)
      rw [List.concat_eq_append]
      rcases eq_or_ne init [] with rfl | hinit
      · simpa using hlast
      · rwa [intercalate_concat hinit, List.append_cons, List.getLast?_append_of_ne_nil _ he.1]

theorem clean_below_root (hes : ∀ e ∈ es, Name e) (hne : es ≠ []) :
    clean (below es) = below es := by
  have hrender : below es = render true es.reverse := by
    rw [render, if_pos rfl, List.reverse_reverse, below_eq_intercalate hne]
  grind [clean_render, normal_of_names]

theorem length_render_cons (he : e ≠ []) (rooted : Bool) (s : List (List Char)) :
    (render rooted s).length ≤ (render rooted (e :: s)).length := by
  have hpos := List.length_pos_iff.2 he
  rcases eq_or_ne s [] with rfl | hs
  · cases rooted <;> simp [render, Nat.succ_le_iff, hpos]
  · have hconcat : ['/'].intercalate (s.reverse ++ [e]) = ['/'].intercalate s.reverse ++ '/' :: e :=
      intercalate_concat (by simpa using hs)
    cases rooted <;> simp [render, hs, hconcat]

theorem length_clean_append (he : Name e) (l : List Char) :
    (clean l).length ≤ (clean (l ++ '/' :: e)).length := by
  have helements : elements e = [e] := List.splitOn_eq_singleton he.2.2.2
  rcases eq_or_ne l [] with rfl | hl
  · have hroot : clean ([] ++ '/' :: (e ++ [])) = '/' :: (e ++ []) :=
      clean_below_root (List.forall_mem_singleton.2 he) (List.cons_ne_nil e [])
    rw [List.append_nil] at hroot
    rw [hroot, List.length_cons]
    exact Nat.succ_le_succ (Nat.zero_le _)
  grind [clean, isAbs_append, stack_append, push_name, length_render_cons, Name]

theorem clean_names (hes : ∀ e ∈ es, Name e) (hne : es ≠ []) :
    clean (['/'].intercalate es) = ['/'].intercalate es := by
  rw [← render_names hne]
  grind [clean_render, normal_of_names]

/-- **A cleaned absolute path goes down from the root.** -/
theorem exists_names (habs : isAbs l = true) (hclean : clean l = l) (hroot : l ≠ ['/']) :
    ∃ es, es ≠ [] ∧ (∀ e ∈ es, Name e) ∧ l = below es := by
  have hnormal := stack_normal l
  rw [habs] at hnormal
  rw [clean, habs, render, if_pos rfl] at hclean
  have hne : (stack l).reverse ≠ [] := by
    intro hnil
    rw [hnil] at hclean
    exact hroot hclean.symm
  refine ⟨(stack l).reverse, hne, fun e he => ?_, ?_⟩
  · exact hnormal.name (List.mem_reverse.1 he) (.inl rfl)
  · rw [below_eq_intercalate hne, hclean]

/-- **What follows a path in a longer one goes down from it.** -/
theorem exists_below {ps : List (List Char)} (hes : ∀ x ∈ es, '/' ∉ x) (hps : ∀ x ∈ ps, '/' ∉ x)
    (h : below es = below ps ++ r) (hr : ∀ c ∈ r.head?, c = '/') :
    ∃ qs, es = ps ++ qs ∧ r = below qs := by
  cases r with
  | nil =>
    refine ⟨[], ?_, rfl⟩
    have helements := elements_below hes
    rw [h, List.append_nil, elements_below hps] at helements
    rw [List.append_nil]
    exact (List.cons.inj helements).2.symm
  | cons c r =>
    obtain rfl := hr c rfl
    have helements := elements_below hes
    rw [h, elements, List.splitOn_append_cons_self] at helements
    change elements (below ps) ++ elements r = [] :: es at helements
    rw [elements_below hps, List.cons_append] at helements
    refine ⟨elements r, (List.cons.inj helements).2.symm, ?_⟩
    have hne : elements r ≠ [] := List.splitOn_ne_nil '/' r
    rw [below_eq_intercalate hne, elements, List.intercalate_splitOn]

theorem below_injective {es' : List (List Char)} (h : ∀ x ∈ es, '/' ∉ x) (h' : ∀ x ∈ es', '/' ∉ x)
    (heq : below es = below es') : es = es' := by
  have hcons := congrArg elements heq
  rw [elements_below h, elements_below h'] at hcons
  exact (List.cons.inj hcons).2

/-- Where a path through names is cut, both parts are paths through names. -/
theorem exists_below_of_append {a : List Char} (h : ∀ x ∈ es, Name x) (heq : below es = a ++ r)
    (hr : ∀ c ∈ r.head?, c = '/') : ∃ es₁ es₂, es = es₁ ++ es₂ ∧ r = below es₂ ∧ a = below es₁ := by
  induction es generalizing a with
  | nil =>
    obtain ⟨rfl, rfl⟩ := List.append_eq_nil_iff.1 heq.symm
    exact ⟨[], [], rfl, rfl, rfl⟩
  | cons x es ih =>
    cases a with
    | nil => exact ⟨[], x :: es, rfl, heq.symm, rfl⟩
    | cons c a =>
      rw [below_cons, List.cons_append, List.cons.injEq] at heq
      obtain ⟨rfl, heq⟩ := heq
      rcases List.append_eq_append_iff.1 heq with ⟨t, rfl, ht⟩ | ⟨t, rfl, ht⟩
      · obtain ⟨es₁, es₂, rfl, hr₂, ha₁⟩ := ih (fun y hy => h y (by simp [hy])) ht
        exact ⟨x :: es₁, es₂, rfl, hr₂, by simp [ha₁]⟩
      · -- the element is not cut
        cases t with
        | nil => exact ⟨[a], es, by simp, by simpa using ht, by simp⟩
        | cons d t =>
          rw [ht] at hr
          have hd : d = '/' := hr d rfl
          exact absurd (by simp [hd] : '/' ∈ a ++ d :: t) (h _ (by simp)).2.2.2

/-- **Where names below two paths lead to the same.** -/
theorem join_below_eq_iff {l' : List Char} {es' : List (List Char)} (hl : l ≠ []) (hl' : l' ≠ [])
    (h : ∀ x ∈ es, Name x) (h' : ∀ x ∈ es', Name x) :
    join l (below es) = join l' (below es') ↔
      isAbs l = isAbs l' ∧ es.reverse ++ stack l = es'.reverse ++ stack l' := by
  constructor
  · intro heq
    have habs := congrArg isAbs heq
    have hstack := congrArg stack heq
    rw [isAbs_join hl, isAbs_join hl'] at habs
    refine ⟨habs, ?_⟩
    simpa only [join, if_pos hl, if_pos hl', stack_clean, stack_append hl, stack_append hl',
      elements_below fun x hx => (h x hx).2.2.2, elements_below fun x hx => (h' x hx).2.2.2,
      List.foldl_cons, push, true_or, if_true, foldl_push_names h, foldl_push_names h'] using hstack
  · rintro ⟨habs, hstack⟩
    rw [join_below hl h, join_below hl' h', habs, hstack]

/-! ### Locations -/

/-- A directory, from the root or from the working directory, with its elements, the last first. -/
structure Location where
  rooted : Bool
  stack : List (List Char)
  deriving DecidableEq

namespace Location

def of (l : List Char) : Location := ⟨isAbs l, Path.stack l⟩

/-- The directory to which a relative path leads from another. -/
def go (d : Location) (l : List Char) : Location :=
  ⟨d.rooted, (elements l).foldl (push d.rooted) d.stack⟩

end Location

theorem Location.of_join (hl : l ≠ []) (r : List Char) : Location.of (join l r) = (of l).go r := by
  rw [of, isAbs_join hl, join, if_pos hl, stack_clean, stack_append hl]
  rfl

end Graft.Path
