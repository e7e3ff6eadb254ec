import Mathlib.Data.List.AList
import Mathlib.Tactic

/-!
# Indices

Objects of type `D` that carry a key each are stored in a map under their keys.  The map *indexes*
the objects with property `P` when it has exactly these, each at its own key.

* `Indexes.insert`, `Indexes.erase`, `Indexes.rekey`: what an update of the map and of the objects'
  keys makes of an index.
-/

namespace Graft

variable {K D : Type*} [DecidableEq K]

/-- The map has the objects that satisfy `P`, each at its key. -/
def Indexes (m : AList fun _ : K => D) (P : D → Prop) (key : D → K) : Prop :=
  ∀ k d, m.lookup k = some d ↔ P d ∧ key d = k

namespace Indexes

variable {m : AList fun _ : K => D} {P P' : D → Prop} {key key' : D → K} (h : Indexes m P key)
include h

theorem lookup_key {d : D} (hd : P d) : m.lookup (key d) = some d := (h _ d).2 ⟨hd, rfl⟩

theorem insert {k : K} {d : D} (hfree : m.lookup k = none) (hkey : key' d = k)
    (hP : ∀ d', P' d' ↔ P d' ∨ d' = d) (hkeys : ∀ d', d' ≠ d → key' d' = key d') (hnew : ¬ P d) :
    Indexes (m.insert k d) P' key' := by
  intro k' d'
  rw [hP]
  by_cases hk : k' = k <;> by_cases hd : d' = d
  · subst hk hd
    exact iff_of_true (AList.lookup_insert m) ⟨.inr rfl, hkey⟩
  · subst hk
    rw [AList.lookup_insert, hkeys d' hd]
    refine iff_of_false (fun hx => hd (Option.some.inj hx).symm) ?_
    rintro ⟨hx | hx, hk⟩
    · rw [(h k' d').2 ⟨hx, hk⟩] at hfree
      cases hfree
    · exact hd hx
  · subst hd
    rw [AList.lookup_insert_ne hk, h k' d', hkey]
    exact iff_of_false (fun hx => hnew hx.1) fun hx => hk hx.2.symm
  · rw [AList.lookup_insert_ne hk, h k' d', hkeys d' hd]
    exact and_congr_left fun _ => (or_iff_left hd).symm

theorem erase {d : D} (hd : P d) (hP : ∀ d', P' d' ↔ P d' ∧ d' ≠ d)
    (hkeys : ∀ d', d' ≠ d → key' d' = key d') : Indexes (m.erase (key d)) P' key' := by
  intro k' d'
  rw [hP]
  by_cases hk : k' = key d
  · subst hk
    rw [AList.lookup_erase]
    refine iff_of_false nofun ?_
    rintro ⟨⟨hd', hne⟩, hk⟩
    rw [hkeys d' hne] at hk
    exact hne (Option.some.inj (((h _ d').2 ⟨hd', hk⟩).symm.trans (h.lookup_key hd)))
  · rw [AList.lookup_erase_ne hk, h k' d']
    constructor
    · rintro ⟨hd', rfl⟩
      have hne : d' ≠ d := by
        rintro rfl
        exact hk rfl
      exact ⟨⟨hd', hne⟩, hkeys d' hne⟩
    · rintro ⟨⟨hd', hne⟩, rfl⟩
      exact ⟨hd', (hkeys d' hne).symm⟩

theorem rekey {k : K} {d : D} (hd : P d) (hfree : m.lookup k = none) (hkey : key' d = k)
    (hP : ∀ d', P' d' ↔ P d') (hkeys : ∀ d', d' ≠ d → key' d' = key d') :
    Indexes ((m.erase (key d)).insert k d) P' key' := by
  have hne : k ≠ key d := by
    rintro rfl
    rw [h.lookup_key hd] at hfree
    cases hfree
  have herase : Indexes (m.erase (key d)) (fun d' => P d' ∧ d' ≠ d) key :=
    h.erase hd (fun _ => Iff.rfl) fun _ _ => rfl
  refine herase.insert (by rwa [AList.lookup_erase_ne hne]) hkey (fun d' => ?_) hkeys
    fun hx => hx.2 rfl
  rw [hP]
  constructor
  · intro hd'
    by_cases heq : d' = d
    · exact .inr heq
    · exact .inl ⟨hd', heq⟩
  · rintro (hd' | rfl)
    · exact hd'.1
    · exact hd

end Indexes

end Graft
