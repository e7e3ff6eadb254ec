import Mathlib.Data.Set.Card
import Mathlib.Tactic

/-!
# Reference counts

Shared objects of type `D` are held by owners of type `N`; each owner holds at most one.  The
counts are *exact* when every object's count is the number of its holders.

* `Exact.acquire`, `Exact.release`, `Exact.move`: exactness is kept when an owner takes, gives up or
  exchanges an object and the counts are adjusted;
* `Exact.pos_iff`, `Exact.eq_zero_iff`: what the count of an object says about its holders.
-/

namespace Graft.RefCount

open Function (update update_self update_of_ne)

variable {N D : Type*}

/-- The owners that hold `d`. -/
def holders (held : N → Option D) (d : D) : Set N := {n | held n = some d}

@[simp] theorem mem_holders {held : N → Option D} {d : D} {n : N} :
    n ∈ holders held d ↔ held n = some d := Iff.rfl

structure Exact (held : N → Option D) (refs : D → ℤ) : Prop where
  finite : ∀ d, (holders held d).Finite
  count : ∀ d, refs d = (holders held d).ncard

theorem exact_none : Exact (fun _ : N => none) (fun _ : D => 0) := by
  have hempty : ∀ d : D, holders (fun _ : N => none) d = ∅ := by
    intro d
    ext n
    simp
  refine ⟨fun d => ?_, fun d => ?_⟩ <;> rw [hempty d]
  · exact Set.finite_empty
  · simp

namespace Exact

variable {held : N → Option D} {refs : D → ℤ} (h : Exact held refs)
include h

theorem nonneg (d : D) : 0 ≤ refs d := by
  rw [h.count d]
  exact Int.natCast_nonneg _

theorem pos_iff (d : D) : 0 < refs d ↔ ∃ n, held n = some d := by
  rw [h.count d, Int.natCast_pos, Set.ncard_pos (h.finite d)]
  rfl

theorem eq_zero_iff (d : D) : refs d = 0 ↔ ∀ n, held n ≠ some d := by
  have hpos := h.pos_iff d
  have hnonneg := h.nonneg d
  constructor
  · intro h0 n hn
    have := hpos.2 ⟨n, hn⟩
    omega
  · intro hno
    by_contra hne
    obtain ⟨n, hn⟩ := hpos.1 (by omega)
    exact hno n hn

variable [DecidableEq N] [DecidableEq D]

theorem acquire {n : N} (hn : held n = none) (d : D) :
    Exact (update held n (some d)) (update refs d (refs d + 1)) := by
  have hself : holders (update held n (some d)) d = insert n (holders held d) := by
    ext m
    by_cases hm : m = n <;> simp [hm]
  have hother : ∀ d', d' ≠ d → holders (update held n (some d)) d' = holders held d' := by
    intro d' hd
    ext m
    by_cases hm : m = n
    · subst hm
      simp [hn, hd.symm]
    · simp [hm]
  have hnot : n ∉ holders held d := by simp [hn]
  refine ⟨fun d' => ?_, fun d' => ?_⟩ <;> by_cases hd : d' = d
  · subst hd
    rw [hself]
    exact (h.finite d').insert n
  · rw [hother d' hd]
    exact h.finite d'
  · subst hd
    rw [hself, update_self, Set.ncard_insert_of_notMem hnot (h.finite d'), h.count d']
    push_cast
    rfl
  · rw [hother d' hd, update_of_ne hd, h.count d']

theorem release {n : N} {d : D} (hn : held n = some d) :
    Exact (update held n none) (update refs d (refs d - 1)) := by
  have hself : holders (update held n none) d = holders held d \ {n} := by
    ext m
    by_cases hm : m = n <;> simp [hm]
  have hother : ∀ d', d' ≠ d → holders (update held n none) d' = holders held d' := by
    intro d' hd
    ext m
    by_cases hm : m = n
    · subst hm
      simp [hn, hd.symm]
    · simp [hm]
  refine ⟨fun d' => ?_, fun d' => ?_⟩ <;> by_cases hd : d' = d
  · subst hd
    rw [hself]
    exact (h.finite d').sdiff
  · rw [hother d' hd]
    exact h.finite d'
  · subst hd
    have hcard := Set.ncard_sdiff_singleton_add_one (mem_holders.2 hn) (h.finite d')
    rw [hself, update_self, h.count d']
    omega
  · rw [hother d' hd, update_of_ne hd, h.count d']

theorem move {n : N} {d e : D} (hn : held n = some d) (hne : e ≠ d) :
    Exact (update held n (some e)) (update (update refs d (refs d - 1)) e (refs e + 1)) := by
  have hmoved := (h.release hn).acquire (n := n) (update_self n none held) e
  rwa [Function.update_idem, update_of_ne hne] at hmoved

end Exact

end Graft.RefCount
