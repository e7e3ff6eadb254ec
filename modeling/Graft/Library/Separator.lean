import Mathlib.Data.List.Basic

/-!
# Words with separators

When two words that are put together from parts are equal.

* `append_cons_inj_of_last`, `append_cons_inj_of_first`: the last or the first occurrence of a
  separator cuts a word in two;
* `append_double_eq_iff`: a separator of two equal letters does not, unless the parts are the same:
  it may overlap with the letters around it.
-/

namespace Graft.Separator

variable {α : Type*} {c : α} {x x' z z' : List α}

theorem append_cons_inj_of_last (hz : c ∉ z) (hz' : c ∉ z') :
    x ++ c :: z = x' ++ c :: z' ↔ x = x' ∧ z = z' := by
  constructor
  · intro h
    obtain ⟨as, hx, hcz⟩ | ⟨as, hx, hcz⟩ := List.append_eq_append_iff.1 h
    all_goals
      cases as with
      | nil =>
        obtain ⟨-, hzz⟩ := List.cons_eq_cons.1 hcz
        exact ⟨by simp [hx], by simp [hzz]⟩
      | cons a as =>
        obtain ⟨-, hzz⟩ := List.cons_eq_cons.1 hcz
        simp [hzz] at hz hz'
  · rintro ⟨rfl, rfl⟩
    rfl

theorem append_cons_inj_of_first (hx : c ∉ x) (hx' : c ∉ x') :
    x ++ c :: z = x' ++ c :: z' ↔ x = x' ∧ z = z' := by
  have hlast : z.reverse ++ c :: x.reverse = z'.reverse ++ c :: x'.reverse ↔
      z.reverse = z'.reverse ∧ x.reverse = x'.reverse :=
    append_cons_inj_of_last (mt List.mem_reverse.1 hx) (mt List.mem_reverse.1 hx')
  rw [← List.reverse_inj, List.reverse_append, List.reverse_append, List.reverse_cons,
    List.reverse_cons, List.append_assoc, List.append_assoc, List.singleton_append,
    List.singleton_append, hlast, List.reverse_inj, List.reverse_inj, and_comm]

/-- The two ways in which a separator of two equal letters is found later than it was put: a whole
separator, or one letter further on. -/
def Shifted (c : α) (x z x' z' : List α) : Prop :=
  (∃ y, z = y ++ [c, c] ++ z' ∧ x' = x ++ [c, c] ++ y) ∨ (z = c :: z' ∧ x' = x ++ [c])

/-- The rest of a word after a double letter that ends in such a double letter. -/
theorem shift_cases {as : List α} (h : x' ++ [c, c] = x ++ [c, c] ++ as) :
    as = [] ∧ x' = x ∨ as = [c] ∧ x' = x ++ [c] ∨
      ∃ y, as = y ++ [c, c] ∧ x' = x ++ [c, c] ++ y := by
  obtain rfl | ⟨as, b, rfl⟩ := List.eq_nil_or_concat as
  · left
    simpa using h
  · right
    have hlast : x' ++ [c] = x ++ [c, c] ++ as ∧ c = b := by
      have hcut : (x' ++ [c]) ++ [c] = (x ++ [c, c] ++ as) ++ [b] := by simpa using h
      obtain ⟨hinit, hb⟩ := List.append_inj' hcut rfl
      exact ⟨hinit, List.head_eq_of_cons_eq hb⟩
    obtain ⟨hinit, rfl⟩ := hlast
    obtain rfl | ⟨as, b, rfl⟩ := List.eq_nil_or_concat as
    · left
      have hcut : x' ++ [c] = (x ++ [c]) ++ [c] := by simpa using hinit
      exact ⟨rfl, List.append_cancel_right hcut⟩
    · right
      have hcut : x' ++ [c] = (x ++ [c, c] ++ as) ++ [b] := by simpa using hinit
      obtain ⟨hx, hb⟩ := List.append_inj' hcut rfl
      exact ⟨as, by simp [List.head_eq_of_cons_eq hb], hx⟩

theorem append_double_eq_iff :
    x ++ [c, c] ++ z = x' ++ [c, c] ++ z' ↔
      (x = x' ∧ z = z') ∨ Shifted c x z x' z' ∨ Shifted c x' z' x z := by
  constructor
  · intro h
    obtain ⟨as, hx, hz⟩ | ⟨as, hx, hz⟩ := List.append_eq_append_iff.1 h
    · obtain ⟨rfl, rfl⟩ | ⟨rfl, rfl⟩ | ⟨y, rfl, rfl⟩ := shift_cases hx
      · exact .inl ⟨rfl, hz⟩
      · exact .inr (.inl (.inr ⟨hz, rfl⟩))
      · exact .inr (.inl (.inl ⟨y, hz, rfl⟩))
    · obtain ⟨rfl, rfl⟩ | ⟨rfl, rfl⟩ | ⟨y, rfl, rfl⟩ := shift_cases hx
      · exact .inl ⟨rfl, hz.symm⟩
      · exact .inr (.inr (.inr ⟨hz, rfl⟩))
      · exact .inr (.inr (.inl ⟨y, hz, rfl⟩))
  · rintro (⟨rfl, rfl⟩ | (⟨y, rfl, rfl⟩ | ⟨rfl, rfl⟩) | (⟨y, rfl, rfl⟩ | ⟨rfl, rfl⟩))
    all_goals simp

end Graft.Separator
