import Graft.Library.History

/-!
# The output ring (`pkg/output_ring.go`)

A bounded, append-only byte buffer addressed by absolute offsets.  It retains the most recent
bytes of a command's output stream; the absolute offset `start` of the first retained byte
advances as older data is evicted.

The channels `notify` and `space` are closed whenever the condition a waiter looks at may have
changed, so a wait is modelled by the outcome (`blocked`, `wait`) of the pass: the thread makes
its next pass in a later state.  Offsets are natural numbers; the one conversion of the source
that can change a value, `int(r.released-r.start)`, is `goInt`.

The ring follows the history `h` of accepted bytes: `Retains h r.start r.buf` is kept by every
operation (`write_spec`), and a read returns the history (`readAt_data`).
-/

namespace Graft

open History

abbrev Byte := UInt8

/-- The conversion `int(n)` of a `uint64`. -/
def goInt (n : ℕ) : ℤ := Int.bmod n (2 ^ 64)

theorem goInt_le (n : ℕ) : goInt n ≤ n := by
  unfold goInt
  rw [Int.bmod_def]
  split_ifs <;> omega

theorem goInt_of_lt {n : ℕ} (h : n < 2 ^ 63) : goInt n = n := by
  unfold goInt
  rw [Int.bmod_def]
  split_ifs <;> omega

/-- `outputRing`, without its mutex and channels. -/
structure OutputRing where
  /-- retained bytes; the first is at absolute offset `start` -/
  buf : List Byte
  start : ℕ
  capacity : ℕ
  closed : Bool
  lossless : Bool
  /-- absolute offset below which data is confirmed consumed -/
  released : ℕ
  deriving DecidableEq

/-- The result of one pass of `Write` over the bytes that are still to be written. -/
inductive WriteOutcome
  /-- the ring is closed: `Write` returns an error -/
  | failed
  /-- no space: the writer waits until space is released or the ring closes -/
  | blocked
  /-- the ring afterwards, and the bytes that remain to be written -/
  | wrote (r : OutputRing) (rest : List Byte)
  deriving DecidableEq

/-- The result of one pass of `ReadAt`. -/
inductive ReadOutcome
  | data (bytes : List Byte) (gotOffset : ℕ)
  | eof (offset : ℕ)
  | wait
  deriving DecidableEq

namespace OutputRing

/-- `newOutputRing`. -/
def new (capacity : ℕ) : OutputRing := ⟨[], 0, capacity, false, false, 0⟩

def setLossless (r : OutputRing) : OutputRing := { r with lossless := true }

/-- `setReleased`: an offset that does not advance changes nothing. -/
def setReleased (r : OutputRing) (offset : ℕ) : OutputRing :=
  { r with released := if offset ≤ r.released then r.released else offset }

def close (r : OutputRing) : OutputRing := { r with closed := true }

def startOffset (r : OutputRing) : ℕ := r.start

/-- `EndOffset`: one past the last written byte. -/
def endOffset (r : OutputRing) : ℕ := r.start + r.buf.length

/-- Drop the `n` oldest retained bytes (`over` in the source, where it is positive). -/
def evict (r : OutputRing) (n : ℕ) : OutputRing :=
  { r with start := r.start + n, buf := r.buf.drop n }

def writeEvicting (r : OutputRing) (p : List Byte) : WriteOutcome :=
  if r.closed then .failed
  else if r.capacity ≤ p.length then
    .wrote { r with
      start := r.start + (r.buf.length + (p.length - r.capacity))
      buf := p.drop (p.length - r.capacity) } []
  else
    .wrote ({ r with buf := r.buf ++ p }.evict (r.buf.length + p.length - r.capacity)) []

def evictable (r : OutputRing) : ℤ :=
  if r.start < r.released then min (goInt (r.released - r.start)) r.buf.length else 0

/-- Free space plus whatever confirmed data may be evicted. -/
def space (r : OutputRing) : ℤ := r.capacity - r.buf.length + r.evictable

/-- One iteration of the loop of `writeLossless`. -/
def writeLossless (r : OutputRing) (p : List Byte) : WriteOutcome :=
  if r.closed then .failed
  else if r.space ≤ 0 then .blocked
  else
    let n := min r.space.toNat p.length
    let r' := r.evict (r.buf.length + n - r.capacity)
    .wrote { r' with buf := r'.buf ++ p.take n } (p.drop n)

/-- One pass of `Write`. -/
def write (r : OutputRing) (p : List Byte) : WriteOutcome :=
  if r.lossless then r.writeLossless p else r.writeEvicting p

/-- One pass of `ReadAt`: an evicted offset is replaced by the earliest retained one. -/
def readAt (r : OutputRing) (offset : ℕ) : ReadOutcome :=
  let offset := max offset r.start
  if offset < r.endOffset then .data (r.buf.drop (offset - r.start)) offset
  else if r.closed then .eof offset
  else .wait

variable {r r' : OutputRing} {p rest h : List Byte} {o : ℕ}

theorem setReleased_released : (r.setReleased o).released = max r.released o := by
  simp only [setReleased]
  split_ifs <;> omega

/-! ### Writing -/

theorem evictable_le_length (r : OutputRing) : r.evictable ≤ r.buf.length := by
  unfold evictable; split_ifs <;> omega

theorem start_add_evictable_le (r : OutputRing) :
    (r.start : ℤ) + r.evictable ≤ max r.start r.released := by
  have := goInt_le (r.released - r.start)
  unfold evictable
  split_ifs with h <;> omega

/-- What a pass of `Write` that makes progress does: it accepts the first `n` bytes, follows the
history of accepted bytes, and touches nothing but the buffer and its start. -/
structure Accepts (r : OutputRing) (p : List Byte) (r' : OutputRing) (n : ℕ) : Prop where
  le : n ≤ p.length
  pos : p ≠ [] → 0 < n
  retains : ∀ h, Retains h r.start r.buf → Retains (h ++ p.take n) r'.start r'.buf
  start_le : r.start ≤ r'.start
  start_le_released : r.lossless = true → r'.start ≤ max r.start r.released
  length_le : r.buf.length ≤ r.capacity → r'.buf.length ≤ r.capacity
  start_eq_zero : 0 < r.capacity → (r.buf = [] → r.start = 0) → r'.buf = [] → r'.start = 0
  capacity : r'.capacity = r.capacity
  closed : r.closed = false ∧ r'.closed = false
  lossless : r'.lossless = r.lossless
  released : r'.released = r.released

theorem writeEvicting_spec (hl : r.lossless = false) (hw : r.writeEvicting p = .wrote r' rest) :
    rest = [] ∧ r.Accepts p r' p.length := by
  unfold writeEvicting at hw
  split_ifs at hw with hc hcap
  · simp only [WriteOutcome.wrote.injEq] at hw
    obtain ⟨rfl, rfl⟩ := hw
    refine ⟨rfl, le_rfl, fun h => List.length_pos_iff.2 h, fun h hr => ?_, ?_, ?_, ?_, ?_, rfl, ?_,
      rfl, rfl⟩
    · rw [List.take_length]
      have := (hr.append p).evict (n := r.buf.length + (p.length - r.capacity)) (by simp)
      rwa [List.drop_length_add_append] at this
    · dsimp only; omega
    · simp [hl]
    · intro _; simp; omega
    · intro hpos _ hb
      simp only [List.drop_eq_nil_iff] at hb
      omega
    · simpa using hc
  · simp only [WriteOutcome.wrote.injEq] at hw
    obtain ⟨rfl, rfl⟩ := hw
    refine ⟨rfl, le_rfl, fun h => List.length_pos_iff.2 h, fun h hr => ?_, ?_, ?_, ?_, ?_, rfl, ?_,
      rfl, rfl⟩
    · rw [List.take_length]
      exact (hr.append p).evict (by simp)
    · simp [evict]
    · simp [hl]
    · intro hb; simp [evict]; omega
    · intro hpos hz hb
      simp only [evict, List.drop_eq_nil_iff, List.length_append] at hb ⊢
      have hnil : r.buf = [] := List.length_eq_zero_iff.1 (by omega)
      rw [hz hnil]
      omega
    · simpa [evict] using hc

theorem writeLossless_spec (hw : r.writeLossless p = .wrote r' rest) :
    ∃ n, rest = p.drop n ∧ r.Accepts p r' n := by
  unfold writeLossless at hw
  split_ifs at hw with hc hs
  simp only [WriteOutcome.wrote.injEq] at hw
  obtain ⟨rfl, rfl⟩ := hw
  have he := r.evictable_le_length
  have hm := r.start_add_evictable_le
  have hsp : r.space = r.capacity - r.buf.length + r.evictable := rfl
  -- the bytes evicted to make room are evictable ones
  have hover : ((r.buf.length + min r.space.toNat p.length - r.capacity : ℕ) : ℤ)
      ≤ max r.evictable 0 := by omega
  refine ⟨_, rfl, by omega, fun hp => ?_, fun h hr => ?_, ?_, fun _ => ?_, fun hb => ?_,
    fun hpos hz hb => ?_, rfl, ?_, rfl, rfl⟩
  · have := List.length_pos_iff.2 hp
    omega
  · exact (hr.evict (by omega)).append _
  · simp [evict]
  · simp only [evict]; omega
  · simp [evict]; omega
  · simp only [evict, List.append_eq_nil_iff, List.drop_eq_nil_iff, List.take_eq_nil_iff] at hb ⊢
    have hnil : r.buf = [] := List.length_eq_zero_iff.1 (by
      rcases hb.2 with h0 | h0
      · omega
      · simp only [h0, List.length_nil] at hb; omega)
    simp only [hnil, List.length_nil] at hover ⊢
    rw [hz hnil]
    omega
  · simpa [evict] using hc

/-- **A pass of `Write` that makes progress** accepts a prefix of its input. -/
theorem write_spec (hw : r.write p = .wrote r' rest) : ∃ n, rest = p.drop n ∧ r.Accepts p r' n := by
  unfold write at hw
  split_ifs at hw with hl
  · exact writeLossless_spec hw
  · obtain ⟨rfl, ha⟩ := writeEvicting_spec (by simpa using hl) hw
    exact ⟨p.length, by simp, ha⟩

/-- An evicting ring never makes a writer wait: a write fails at once or is complete. -/
theorem write_completes (hl : r.lossless = false) :
    r.write p = .failed ∨ ∃ r', r.write p = .wrote r' [] := by
  simp only [write, hl, Bool.false_eq_true, if_false, writeEvicting]
  split_ifs
  · exact .inl rfl
  · exact .inr ⟨_, rfl⟩
  · exact .inr ⟨_, rfl⟩

theorem length_of_blocked (hw : r.write p = .blocked) (h1 : r.start ≤ r.released)
    (h2 : r.released ≤ r.endOffset) (h3 : r.buf.length < 2 ^ 63) :
    r.closed = false ∧ r.capacity ≤ r.endOffset - r.released := by
  unfold endOffset at h2 ⊢
  have hi := goInt_of_lt (n := r.released - r.start) (by omega)
  unfold write writeLossless writeEvicting at hw
  split_ifs at hw with hl hc hs
  refine ⟨by simpa using hc, ?_⟩
  unfold space evictable at hs
  split_ifs at hs <;> omega

theorem write_eq_failed : r.write p = .failed ↔ r.closed = true := by
  unfold write writeLossless writeEvicting
  split_ifs <;> simp_all

/-! ### Reading -/

/-- The bytes `ReadAt` returns are the history from the reported offset to its end. -/
theorem readAt_data {bs : List Byte} {got : ℕ} (hr : Retains h r.start r.buf)
    (hd : r.readAt o = .data bs got) :
    got = max o r.start ∧ bs ≠ [] ∧ Reads h got bs ∧ got + bs.length = h.length := by
  have hlen := hr.1
  unfold readAt endOffset at hd
  dsimp only at hd
  split_ifs at hd with h1
  simp only [ReadOutcome.data.injEq] at hd
  obtain ⟨rfl, rfl⟩ := hd
  have hb : (r.buf.drop (max o r.start - r.start)).length
      = h.length - max o r.start := by simp; omega
  refine ⟨rfl, ?_, hr.reads_drop (le_max_right _ _), by omega⟩
  rw [← List.length_pos_iff]
  omega

theorem readAt_eof {got : ℕ} (hr : Retains h r.start r.buf) (hd : r.readAt o = .eof got) :
    r.closed = true ∧ h.length ≤ max o r.start := by
  have hlen := hr.1
  unfold readAt endOffset at hd
  dsimp only at hd
  split_ifs at hd with h1 h2
  exact ⟨h2, by omega⟩

end OutputRing

end Graft
