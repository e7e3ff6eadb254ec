import Mathlib.Tactic
import Mathlib.Data.List.Range

/-!
# Append-only histories and absolute offsets

A history is the list of everything ever appended to a stream; its elements are addressed by
their absolute offset.  A bounded buffer retains a suffix of it, a reader follows it at an
offset, and a reader that was too slow skips what the buffer no longer has.

* `Reads h o xs`: the elements `xs` are those of `h` from offset `o` on, as far as `xs` goes;
* `Retains h start buf`: `buf` is the whole rest of `h` from offset `start` on;
* `surviving h gaps lo hi`: the elements of `h` with offsets in `[lo, hi)` that lie in none of the
  intervals `gaps`.
-/

namespace History

variable {α : Type*} {h h' xs ys buf : List α} {o lo r start : ℕ} {gaps : List (ℕ × ℕ)}

/-- `xs` is what `h` holds from offset `o` on, as far as `xs` goes. -/
def Reads (h : List α) (o : ℕ) (xs : List α) : Prop := xs <+: h.drop o

theorem Reads.nil : Reads h o [] := List.nil_prefix

theorem reads_append : Reads h o (xs ++ ys) ↔ Reads h o xs ∧ Reads h (o + xs.length) ys := by
  unfold Reads
  constructor
  · rintro ⟨t, ht⟩
    refine ⟨⟨ys ++ t, by rw [← ht, List.append_assoc]⟩, t, ?_⟩
    rw [← List.drop_drop, ← ht, List.append_assoc, List.drop_left]
  · rintro ⟨⟨t, ht⟩, u, hu⟩
    refine ⟨u, ?_⟩
    rw [← List.drop_drop, ← ht, List.drop_left] at hu
    rw [List.append_assoc, hu, ht]

theorem Reads.mono (hh : h <+: h') (hr : Reads h o xs) : Reads h' o xs := by
  obtain ⟨t, rfl⟩ := hh
  refine hr.trans ?_
  rw [List.drop_append]
  exact List.prefix_append _ _

theorem Reads.length_le (hr : Reads h o xs) : xs.length ≤ h.length - o := by
  simpa using List.IsPrefix.length_le hr

theorem Reads.eq_drop (hr : Reads h o xs) (hl : h.length ≤ o + xs.length) : xs = h.drop o :=
  hr.eq_of_length_le (by simp; omega)

theorem Reads.getElem? {i : ℕ} (hr : Reads h o xs) (hi : i < xs.length) :
    h[o + i]? = xs[i]? := by
  obtain ⟨t, ht⟩ := hr
  rw [← List.getElem?_drop, ← ht, List.getElem?_append_left hi]

/-! ### Buffers -/

/-- `buf` is the whole rest of `h` from offset `start` on. -/
def Retains (h : List α) (start : ℕ) (buf : List α) : Prop :=
  start + buf.length = h.length ∧ Reads h start buf

theorem Retains.eq_drop (hr : Retains h start buf) : buf = h.drop start :=
  hr.2.eq_drop (by rw [hr.1])

theorem retains_iff : Retains h start buf ↔ start ≤ h.length ∧ buf = h.drop start := by
  constructor
  · exact fun hr => ⟨by have := hr.1; omega, hr.eq_drop⟩
  · rintro ⟨hl, rfl⟩
    exact ⟨by simp; omega, List.prefix_rfl⟩

theorem Retains.nil : Retains ([] : List α) 0 [] := retains_iff.2 ⟨le_rfl, rfl⟩

theorem Retains.append (hr : Retains h start buf) (xs : List α) :
    Retains (h ++ xs) start (buf ++ xs) := by
  obtain ⟨hl, rfl⟩ := retains_iff.1 hr
  exact retains_iff.2 ⟨by simp; omega, by rw [List.drop_append_of_le_length hl]⟩

theorem Retains.evict {n : ℕ} (hr : Retains h start buf) (hn : n ≤ buf.length) :
    Retains h (start + n) (buf.drop n) := by
  obtain ⟨hl, rfl⟩ := retains_iff.1 hr
  refine retains_iff.2 ⟨?_, List.drop_drop⟩
  rw [List.length_drop] at hn
  omega

theorem Retains.reads_drop (hr : Retains h start buf) (ho : start ≤ o) :
    Reads h o (buf.drop (o - start)) := by
  obtain ⟨hl, rfl⟩ := retains_iff.1 hr
  rw [List.drop_drop, show start + (o - start) = o by omega]
  exact List.prefix_rfl

/-! ### Skipping -/

/-- The offset `i` lies in none of the intervals. -/
def outside (gaps : List (ℕ × ℕ)) (i : ℕ) : Bool := gaps.all fun g => decide (i < g.1 ∨ g.2 ≤ i)

/-- The elements of `h` with offsets in `[lo, hi)` outside the gaps, in order. -/
def surviving (h : List α) (gaps : List (ℕ × ℕ)) (lo hi : ℕ) : List α :=
  ((List.range' lo (hi - lo)).filter (outside gaps)).filterMap (h[·]?)

@[simp] theorem surviving_self : surviving h gaps lo lo = [] := by simp [surviving]

theorem surviving_split {m hi : ℕ} (h1 : lo ≤ m) (h2 : m ≤ hi) :
    surviving h gaps lo hi = surviving h gaps lo m ++ surviving h gaps m hi := by
  unfold surviving
  rw [← List.filterMap_append, ← List.filter_append]
  congr 2
  rw [show hi - lo = (m - lo) + (hi - m) by omega, ← List.range'_append_1,
    Nat.add_sub_cancel' h1]

theorem filterMap_range'_of_reads (hr : Reads h o xs) :
    (List.range' o xs.length).filterMap (h[·]?) = xs := by
  induction xs generalizing o with
  | nil => rfl
  | cons x xs ih =>
    have hx : h[o]? = some x := by simpa using hr.getElem? (i := 0) (by simp)
    have hxs : Reads h (o + 1) xs := (reads_append.1 (show Reads h o ([x] ++ xs) from hr)).2
    rw [List.length_cons, List.range'_succ, List.filterMap_cons, hx]
    simp [ih hxs]

theorem surviving_read (hr : Reads h o xs) (hlo : lo ≤ o) (hg : ∀ g ∈ gaps, g.2 ≤ o) :
    surviving h gaps lo (o + xs.length) = surviving h gaps lo o ++ xs := by
  rw [surviving_split hlo (Nat.le_add_right _ _)]
  congr 1
  unfold surviving
  rw [List.filter_eq_self.2, Nat.add_sub_cancel_left, filterMap_range'_of_reads hr]
  intro i hi
  simp only [List.mem_range'_1] at hi
  simp only [outside, List.all_eq_true, decide_eq_true_eq]
  exact fun g hmem => Or.inr (by have := hg g hmem; omega)

theorem surviving_skip (hlo : lo ≤ o) (hor : o ≤ r) :
    surviving h (gaps ++ [(o, r)]) lo r = surviving h gaps lo o := by
  rw [surviving_split hlo hor]
  have hskip : surviving h (gaps ++ [(o, r)]) o r = [] := by
    unfold surviving
    rw [List.filter_eq_nil_iff.2, List.filterMap_nil]
    intro i hi
    simp only [List.mem_range'_1] at hi
    simp [outside]
    omega
  rw [hskip, List.append_nil]
  unfold surviving
  congr 1
  refine List.filter_congr fun i hi => ?_
  simp only [List.mem_range'_1] at hi
  have : i < o := by omega
  simp [outside, this]

theorem surviving_mono {hi : ℕ} (hh : h <+: h') (hhi : hi ≤ h.length) :
    surviving h' gaps lo hi = surviving h gaps lo hi := by
  obtain ⟨t, rfl⟩ := hh
  unfold surviving
  refine List.filterMap_congr fun i hmem => ?_
  have hi' := List.mem_of_mem_filter hmem
  simp only [List.mem_range'_1] at hi'
  rw [List.getElem?_append_left (by omega)]

theorem surviving_no_gaps {hi : ℕ} (hhi : hi ≤ h.length) : surviving h [] 0 hi = h.take hi := by
  have hr : Reads h 0 (h.take hi) := by simpa [Reads] using List.take_prefix hi h
  have hs : surviving h [] 0 (0 + (h.take hi).length) = surviving h [] 0 0 ++ h.take hi :=
    surviving_read hr le_rfl (by simp)
  simpa [hhi] using hs

end History
