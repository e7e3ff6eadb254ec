import Mathlib.Data.List.AList
import Mathlib.Tactic

/-!
# Tables

Objects of type `D` are kept in a table under keys.  The table *covers* the objects with property
`P` when each of them is in the table, at its own key; it may have other objects as well.

* `sweep`: the entries that satisfy a condition are deleted, in one pass over the table;
* `Covers.insert`, `Covers.erase`, `Covers.sweep`, `Covers.union`: what an update of the table makes
  of the objects that it covers.
-/

namespace Graft

variable {K D : Type*} [DecidableEq K]

/-- Delete the entries that satisfy `p`. -/
def sweep (p : K → D → Bool) (m : AList fun _ : K => D) : AList fun _ : K => D where
  entries := m.entries.filter fun e => !p e.1 e.2
  nodupKeys := m.nodupKeys.sublist List.filter_sublist

theorem lookup_sweep (p : K → D → Bool) (m : AList fun _ : K => D) (k : K) :
    (sweep p m).lookup k = (m.lookup k).filter fun d => !p k d := by
  ext d
  rw [Option.filter_eq_some_iff, ← Option.mem_def, ← Option.mem_def, AList.mem_lookup_iff,
    AList.mem_lookup_iff]
  exact List.mem_filter

theorem eq_empty_of_lookup {m : AList fun _ : K => D} (h : ∀ k, m.lookup k = none) : m = ∅ := by
  refine AList.ext (List.eq_nil_iff_forall_not_mem.2 fun e he => ?_)
  have hlookup := Option.mem_def.1 (AList.mem_lookup_iff.2 he)
  rw [h e.1] at hlookup
  cases hlookup

theorem lookup_insert_cases {m : AList fun _ : K => D} {k k' : K} {d d' : D}
    (h : (m.insert k d).lookup k' = some d') :
    (k' = k ∧ d' = d) ∨ (k' ≠ k ∧ m.lookup k' = some d') := by
  by_cases hk : k' = k
  · subst hk
    rw [AList.lookup_insert] at h
    exact .inl ⟨rfl, (Option.some.inj h).symm⟩
  · rw [AList.lookup_insert_ne hk] at h
    exact .inr ⟨hk, h⟩

theorem lookup_of_erase {m : AList fun _ : K => D} {k k' : K} {d : D}
    (h : (m.erase k).lookup k' = some d) : k' ≠ k ∧ m.lookup k' = some d := by
  by_cases hk : k' = k
  · subst hk
    rw [AList.lookup_erase] at h
    cases h
  · rw [AList.lookup_erase_ne hk] at h
    exact ⟨hk, h⟩

theorem erase_insert {m : AList fun _ : K => D} {k : K} (h : k ∉ m) (d : D) :
    (m.insert k d).erase k = m := by
  refine AList.ext ?_
  show List.kerase k (m.insert k d).entries = m.entries
  rw [AList.entries_insert_of_notMem h]
  exact List.kerase_cons_eq rfl

theorem insert_eq_union (m : AList fun _ : K => D) (k : K) (d : D) :
    m.insert k d = AList.singleton k d ∪ m := AList.ext rfl

/-- The objects that satisfy `P` are in the table, each at its key. -/
def Covers (m : AList fun _ : K => D) (P : D → Prop) (key : D → K) : Prop :=
  ∀ d, P d → m.lookup (key d) = some d

namespace Covers

variable {m m' : AList fun _ : K => D} {P P' : D → Prop} {key key' : D → K} (h : Covers m P key)
include h

theorem unique {d d' : D} (hd : P d) (hd' : P d') (hkey : key d = key d') : d = d' := by
  have hlookup := h d hd
  rw [hkey, h d' hd'] at hlookup
  exact (Option.some.inj hlookup).symm

theorem mono (hP : ∀ d, P' d → P d ∧ key' d = key d) : Covers m P' key' := by
  intro d hd
  obtain ⟨hold, hkey⟩ := hP d hd
  rw [hkey]
  exact h d hold

theorem insert {k : K} {d : D} (hd : P' d → key' d = k)
    (hP : ∀ d', P' d' → d' ≠ d → (P d' ∧ key' d' = key d') ∧ key d' ≠ k) :
    Covers (m.insert k d) P' key' := by
  intro d' hd'
  by_cases heq : d' = d
  · subst heq
    rw [hd hd', AList.lookup_insert]
  · obtain ⟨⟨hold, hkey⟩, hne⟩ := hP d' hd' heq
    rw [hkey, AList.lookup_insert_ne hne]
    exact h d' hold

theorem erase {k : K} (hP : ∀ d, P' d → (P d ∧ key' d = key d) ∧ key d ≠ k) :
    Covers (m.erase k) P' key' := by
  intro d hd
  obtain ⟨⟨hold, hkey⟩, hne⟩ := hP d hd
  rw [hkey, AList.lookup_erase_ne hne]
  exact h d hold

theorem sweep {p : K → D → Bool} (hP : ∀ d, P' d → (P d ∧ key' d = key d) ∧ p (key d) d = false) :
    Covers (sweep p m) P' key' := by
  intro d hd
  obtain ⟨⟨hold, hkey⟩, hp⟩ := hP d hd
  rw [hkey, lookup_sweep, h d hold]
  simp [hp]

theorem union (hP : ∀ d, P' d → m'.lookup (key' d) = some d ∨ (P d ∧ key' d = key d) ∧ key d ∉ m') :
    Covers (m' ∪ m) P' key' := by
  intro d hd
  rcases hP d hd with hnew | ⟨⟨hold, hkey⟩, hfree⟩
  · rw [AList.lookup_union_left (AList.lookup_isSome.1 (by rw [hnew]; rfl)), hnew]
  · rw [hkey, AList.lookup_union_right hfree]
    exact h d hold

end Covers

end Graft
