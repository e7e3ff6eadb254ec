import Graft.Command.SharedRing

/-!
# Release offsets (`pkg/output_ring.go`, `pkg/server_grpc_command.go`)

The client of a lossless ring says how much of the output it has, in acknowledgements and when it
attaches again; `AckOutput` passes the offset on to `setReleased` as it came.  The ring neither
compares it with its end nor can it tell an offset that is far ahead from one that is behind: the
difference to `start` is converted to a signed number.
-/

namespace Graft.SharedRing

/-- The bytes of the ring at or above the offset that was released. -/
def unconfirmed (r : OutputRing) : List Byte := r.buf.drop (min r.released r.endOffset - r.start)

theorem length_unconfirmed (r : OutputRing) :
    (unconfirmed r).length = r.buf.length - (min r.released r.endOffset - r.start) :=
  List.length_drop ..

/-- The difference of the offsets is a positive signed number. -/
def Near (w : State) : Event → Prop
  | .release offset => offset < w.ring.start + 2 ^ 63
  | _ => True

def Accepted (w : State) : Event → Prop
  | .release offset => offset ≤ w.history.length
  | _ => True

/-! ### Waiting -/

theorem full_iff_unconfirmed {r : OutputRing} (hlossless : r.lossless = true)
    (hstart : r.start ≤ r.released) (hnear : r.released < r.start + 2 ^ 63) :
    Full r ↔ r.closed = false ∧ r.capacity ≤ (unconfirmed r).length := by
  have hint : goInt (r.released - r.start) = (r.released - r.start : ℕ) := goInt_of_lt (by omega)
  have hspace : r.space ≤ 0 ↔ r.capacity ≤ (unconfirmed r).length := by
    rw [length_unconfirmed]
    unfold OutputRing.space OutputRing.evictable OutputRing.endOffset
    rw [hint]
    split_ifs <;> omega
  simp only [Full, hlossless, true_and, hspace]

theorem goInt_of_ge {n : ℕ} (hge : 2 ^ 63 ≤ n) (hlt : n < 2 ^ 64) : goInt n = n - 2 ^ 64 := by
  unfold goInt
  rw [Int.bmod_def]
  split_ifs <;> omega

/-- An offset that is far ahead takes space away: the ring is full though nothing is unconfirmed, or
it has so much space left that this does not show. -/
theorem full_iff_of_far {r : OutputRing} (hlossless : r.lossless = true)
    (hlength : r.buf.length ≤ r.capacity) (hcap : r.capacity < 2 ^ 63)
    (hfar : r.start + 2 ^ 63 ≤ r.released) (hlt : r.released < 2 ^ 64) :
    (unconfirmed r).length = 0 ∧
      (Full r ↔ r.closed = false ∧ r.released + r.capacity ≤ r.start + 2 ^ 64 + r.buf.length) := by
  have hint : goInt (r.released - r.start) = (r.released - r.start : ℕ) - 2 ^ 64 :=
    goInt_of_ge (by omega) (by omega)
  refine ⟨?_, ?_⟩
  · rw [length_unconfirmed, OutputRing.endOffset]
    omega
  · have hspace : r.space ≤ 0 ↔ r.released + r.capacity ≤ r.start + 2 ^ 64 + r.buf.length := by
      unfold OutputRing.space OutputRing.evictable
      rw [hint, if_pos (by omega)]
      omega
    simp only [Full, hlossless, true_and, hspace]

/-! ### What a step does to the offsets -/

/-- What the offsets of the ring may become in a step. -/
inductive Moves (w w' : State) : Event → Prop
  | ahead {e : Event} : w.ring.start ≤ w'.ring.start → w'.ring.released = w.ring.released →
      w'.releases = w.releases → Moves w w' e
  | released {offset : ℕ} : w'.ring.start = w.ring.start →
      w'.ring.released = max w.ring.released offset →
      w'.releases = ⟨offset, w.history.length⟩ :: w.releases → Moves w w' (.release offset)

theorem moves_pass (w : State) (t : ℕ) (p : List Byte) (written : ℕ) {e : Event} :
    Moves w (w.pass t p written) e := by
  unfold State.pass
  cases hwrite : w.ring.write (p.drop written) with
  | failed => exact .ahead le_rfl rfl rfl
  | blocked => exact .ahead le_rfl rfl rfl
  | wrote r rest =>
    obtain ⟨n, -, ha⟩ := OutputRing.write_spec hwrite
    exact .ahead ha.start_le ha.released rfl

theorem moves_fire (w : State) (e : Event) : Moves w (e.fire w) e := by
  cases e with
  | write | read | cancel => exact .ahead le_rfl rfl rfl
  | pass t =>
    dsimp only [Event.fire]
    split
    · exact moves_pass w t _ _
    · exact .ahead le_rfl rfl rfl
  | wake | finish | notified =>
    dsimp only [Event.fire]
    split <;> exact .ahead le_rfl rfl rfl
  | look t =>
    dsimp only [Event.fire, State.look]
    split
    · split <;> exact .ahead le_rfl rfl rfl
    · exact .ahead le_rfl rfl rfl
  | release offset => exact .released rfl OutputRing.setReleased_released rfl
  | close =>
    dsimp only [Event.fire, State.close]
    split_ifs <;> exact .ahead le_rfl rfl rfl

theorem near_fire {w : State} (hnear : w.ring.released < w.ring.start + 2 ^ 63) {e : Event}
    (hok : Near w e) : (e.fire w).ring.released < (e.fire w).ring.start + 2 ^ 63 := by
  cases moves_fire w e with
  | ahead hstart hreleased =>
    rw [hreleased]
    omega
  | released hstart hreleased =>
    grind [Near]

theorem accepted_fire {w : State} (hreleases : ∀ r ∈ w.releases, r.offset ≤ r.accepted) {e : Event}
    (hok : Accepted w e) : ∀ r ∈ (e.fire w).releases, r.offset ≤ r.accepted := by
  cases moves_fire w e with
  | ahead _ _ heq =>
    rw [heq]
    exact hreleases
  | released _ _ heq =>
    grind [Accepted]

theorem released_fire {w : State} (hlt : w.ring.released < 2 ^ 64) {e : Event} (he : e.Enabled w) :
    (e.fire w).ring.released < 2 ^ 64 := by
  cases moves_fire w e with
  | ahead _ hreleased => rwa [hreleased]
  | released _ hreleased =>
    rw [hreleased]
    exact max_lt hlt he

/-! ### The results -/

/-- The ring can make use of an offset: it is closed, or the offset is near, or there is so much
space left that it does not matter. -/
def Fits (w : State) (offset : ℕ) : Prop :=
  w.ring.closed = true ∨ max w.ring.released offset < w.ring.start + 2 ^ 63 ∨
    w.ring.start + 2 ^ 64 + w.ring.buf.length < max w.ring.released offset + w.ring.capacity

section Results

variable {capacity : ℕ} {w : State}

/-- After a release, a `Write` waits exactly when it should if and only if the ring can make use of
the offset. -/
theorem Inv.release_iff (h : Inv capacity true w) (hcap : 1 ≤ capacity) (hint : capacity < 2 ^ 63)
    (hreleased : w.ring.released < 2 ^ 64) {offset : ℕ} (hoffset : offset < 2 ^ 64) :
    (∀ p, (w.setReleased offset).ring.write p = .blocked ↔
      w.ring.closed = false ∧ capacity ≤ (unconfirmed (w.setReleased offset).ring).length) ↔
      Fits w offset := by
  have hinv := h.setReleased offset
  have hmax : (w.setReleased offset).ring.released = max w.ring.released offset :=
    OutputRing.setReleased_released
  have hclosed : (w.setReleased offset).ring.closed = w.ring.closed := rfl
  have hstart : (w.setReleased offset).ring.start = w.ring.start := rfl
  have hbuf : (w.setReleased offset).ring.buf = w.ring.buf := rfl
  have hle := hinv.start_le rfl
  have hcapacity : (w.setReleased offset).ring.capacity = capacity := hinv.capacity_eq
  have hcapacity' : w.ring.capacity = capacity := h.capacity_eq
  unfold Fits
  rw [← hmax]
  by_cases hnear : (w.setReleased offset).ring.released < w.ring.start + 2 ^ 63
  · refine iff_of_true (fun p => ?_) (.inr (.inl hnear))
    rw [full_iff, full_iff_unconfirmed hinv.lossless_eq hle (hstart ▸ hnear), hclosed, hcapacity]
  · obtain ⟨hnone, hfull⟩ := full_iff_of_far hinv.lossless_eq (hcapacity.symm ▸ hinv.length_le)
      (hcapacity.symm ▸ hint) (hstart ▸ not_lt.1 hnear) (hmax ▸ max_lt hreleased hoffset)
    simp only [full_iff, hfull, hnone, hclosed, hstart, hbuf, hcapacity, hcapacity']
    constructor
    · intro hx
      by_cases hc : w.ring.closed = true
      · exact .inl hc
      · have hopen : w.ring.closed = false := by simpa using hc
        have hnot := mt (hx []).1 fun hx => absurd hx.2 (by omega)
        rw [not_and] at hnot
        exact .inr (.inr (not_le.1 (hnot hopen)))
    · intro hx p
      refine iff_of_false (fun hy => ?_) fun hy => absurd hy.2 (by omega)
      obtain hc | hlt | hlt := hx
      · rw [hc] at hy
        cases hy.1
      · exact hnear hlt
      · exact absurd hy.2 (not_le.2 hlt)

theorem Inv.waits_of_near (h : Inv capacity true w) (hwaits : Waits w) (hcap : 1 ≤ capacity)
    (hnear : w.ring.released < w.ring.start + 2 ^ 63) :
    (∀ t p written channel, w.writer t = .waiting p written channel → channel ∉ w.space.closes →
      w.ring.closed = false ∧ capacity ≤ (unconfirmed w.ring).length) ∧
      (w.history.length ≤ w.ring.released → ∀ t p written channel,
        w.ring.write (p.drop written) ≠ .blocked ∧
          (w.writer t = .waiting p written channel → channel ∈ w.space.closes)) := by
  have hfull := full_iff_unconfirmed h.lossless_eq (h.start_le rfl) hnear
  rw [h.capacity_eq] at hfull
  have hstuck : ∀ t p written channel, w.writer t = .waiting p written channel →
      channel ∉ w.space.closes → Full w.ring := by
    intro t p written channel ht hopen
    have hwriter := hwaits.writers t
    rw [ht] at hwriter
    exact hwriter.2 hopen
  refine ⟨fun t p written channel ht hopen => hfull.1 (hstuck t p written channel ht hopen),
    fun hall t p written channel => ?_⟩
  have hnot : ¬ Full w.ring := by
    intro hx
    have hle := (hfull.1 hx).2
    have hlen := h.retains.1
    rw [length_unconfirmed, OutputRing.endOffset, hlen, min_eq_right hall] at hle
    omega
  exact ⟨fun hblocked => hnot (full_iff.1 hblocked),
    fun ht => by_contra fun hopen => hnot (hstuck t p written channel ht hopen)⟩

end Results

/-- **Releases take effect as they should.**  After a release, a `Write` waits exactly when the ring
is full of unconfirmed bytes, if and only if the ring can make use of the offset.  In a run whose
release offsets are all near, a `Write` that waits does so for that reason, and none waits when
everything was released.  And in a run whose release offsets are never past the end, every byte that
is dropped was released after it had been written. -/
theorem release_sound {capacity : ℕ} (hcap : 1 ≤ capacity) (hint : capacity < 2 ^ 63) (w : State) :
    (ring.Reachable (.init capacity true) w → ∀ offset < 2 ^ 64,
      ((∀ p, (w.setReleased offset).ring.write p = .blocked ↔
        w.ring.closed = false ∧ capacity ≤ (unconfirmed (w.setReleased offset).ring).length) ↔
        Fits w offset)) ∧
      (ring.Run Near (.init capacity true) w →
        (∀ t p written channel, w.writer t = .waiting p written channel →
          channel ∉ w.space.closes →
            w.ring.closed = false ∧ capacity ≤ (unconfirmed w.ring).length) ∧
        (w.history.length ≤ w.ring.released → ∀ t p written channel,
          w.ring.write (p.drop written) ≠ .blocked ∧
            (w.writer t = .waiting p written channel → channel ∈ w.space.closes))) ∧
      (ring.Run Accepted (.init capacity true) w →
        ∀ i < w.ring.start, ∃ r ∈ w.releases, i < r.offset ∧ i < r.accepted) := by
  refine ⟨fun h offset hoffset => ?_, fun h => ?_, fun h i hi => ?_⟩
  · have hreleased : w.ring.released < 2 ^ 64 :=
      h.invariant (I := fun w => w.ring.released < 2 ^ 64)
        (by simp [State.init, OutputRing.setLossless, OutputRing.new])
        fun _ _ hw he _ => released_fire hw he
    exact (inv_of_run hcap h).1.release_iff hcap hint hreleased hoffset
  · have hnear : w.ring.released < w.ring.start + 2 ^ 63 :=
      h.invariant (I := fun w => w.ring.released < w.ring.start + 2 ^ 63)
        (by simp [State.init, OutputRing.setLossless, OutputRing.new])
        fun _ _ hw _ hok => near_fire hw hok
    obtain ⟨hinv, hwaits⟩ := inv_of_run hcap h
    exact hinv.waits_of_near hwaits hcap hnear
  · have hreleases : ∀ r ∈ w.releases, r.offset ≤ r.accepted :=
      h.invariant (I := fun w => ∀ r ∈ w.releases, r.offset ≤ r.accepted)
        (List.forall_mem_nil _) fun _ _ hw _ hok => accepted_fire hw hok
    obtain ⟨hinv, -⟩ := inv_of_run hcap h
    have hstart := hinv.start_le rfl
    obtain hzero | ⟨r, hr, heq⟩ := hinv.released
    · omega
    · grind

instance (w : State) (e : Event) : Decidable (Near w e) := by
  apply Event.casesOn (motive := fun e => Decidable (Near w e)) e <;> intros <;>
    dsimp only [Near] <;> infer_instance

instance (w : State) (e : Event) : Decidable (Accepted w e) := by
  apply Event.casesOn (motive := fun e => Decidable (Accepted w e)) e <;> intros <;>
    dsimp only [Accepted] <;> infer_instance

/-- The end of the output is released, and the `Write` that waited is woken. -/
theorem release_sound_end :
    ∃ w, ring.Run Near (.init 4 true) w ∧ w.history.length ≤ w.ring.released ∧
      ∃ channel, w.writer 0 = .waiting [1, 2, 3, 4, 5, 6] 4 channel ∧ channel ∈ w.space.closes := by
  have hexec : ∃ w ∈ ring.exec Near (.init 4 true)
      [.write 0 [1, 2, 3, 4, 5, 6], .pass 0, .pass 0, .release 4],
      w.history.length ≤ w.ring.released ∧ w.writer 0 = .waiting [1, 2, 3, 4, 5, 6] 4 0 := by
    decide +kernel
  obtain ⟨w, hrun, hall, hwriter⟩ := Machine.exists_run_of_exec _ _ hexec
  obtain ⟨-, hwoken⟩ := (release_sound (by decide) (by decide) w).2.1 hrun
  grind

/-- **Offsets past the end.**  An offset that is far ahead leaves a `Write` waiting though all bytes
are released; and one that is a little ahead lets bytes be dropped that are written after it. -/
theorem release_unsound :
    (∃ w, ring.Reachable (.init 4 true) w ∧ w.history.length ≤ w.ring.released ∧
      w.ring.closed = false ∧
      ∃ channel, w.writer 0 = .waiting [1, 2, 3, 4, 5, 6] 4 channel ∧ channel ∉ w.space.closes) ∧
      ∃ w, ring.Reachable (.init 4 true) w ∧
        ∃ i < w.ring.start, ∀ r ∈ w.releases, r.accepted ≤ i := by
  constructor
  · have hexec : ∃ w ∈ ring.exec (fun _ _ => True) (.init 4 true)
        [.write 0 [1, 2, 3, 4, 5, 6], .pass 0, .pass 0, .release (2 ^ 63), .wake 0, .pass 0],
        w.history.length ≤ w.ring.released ∧ w.ring.closed = false ∧
          w.writer 0 = .waiting [1, 2, 3, 4, 5, 6] 4 1 ∧ 1 ∉ w.space.closes := by
      decide +kernel
    obtain ⟨w, hrun, hall, hclosed, hwriter, hopen⟩ := Machine.exists_run_of_exec _ _ hexec
    exact ⟨w, hrun, hall, hclosed, 1, hwriter, hopen⟩
  · have hexec : ∃ w ∈ ring.exec (fun _ _ => True) (.init 4 true)
        [.release 8, .write 0 [1, 2, 3, 4, 5, 6], .pass 0, .pass 0],
        ∃ i < w.ring.start, ∀ r ∈ w.releases, r.accepted ≤ i := by
      decide +kernel
    exact Machine.exists_run_of_exec _ _ hexec

end Graft.SharedRing
