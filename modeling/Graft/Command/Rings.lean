import Graft.Command.System

/-!
# What the steps do to the rings

Each ring follows the history of the bytes it has accepted.  `Grows w w'` collects everything a
step can do to a ring and its history: the history is extended, the start moves forward, a closed
ring stays as it is.  `Event.grows` proves it of every step, once; what later files say about
offsets only uses this.
-/

namespace Graft.Command

open History
open Function (update update_self update_of_ne)

/-- A ring and the history of the bytes it has accepted. -/
structure RingOk (h : List Byte) (r : OutputRing) : Prop where
  retains : Retains h r.start r.buf
  capacity_pos : 0 < r.capacity
  /-- a ring that ever accepted a byte holds one -/
  start_eq_zero : r.buf = [] → r.start = 0
  length_le : r.buf.length ≤ r.capacity

theorem RingOk.start_le {h : List Byte} {r : OutputRing} (hr : RingOk h r) :
    r.start ≤ h.length := by
  have := hr.retains.1
  omega

/-- `ReadAt` reports the end only of a closed ring all of whose bytes lie before the offset. -/
theorem RingOk.readAt_eof {h : List Byte} {r : OutputRing} {o got : ℕ} (hr : RingOk h r)
    (hd : r.readAt o = .eof got) : r.closed = true ∧ h.length ≤ o := by
  obtain ⟨hc, hl⟩ := OutputRing.readAt_eof hr.retains hd
  refine ⟨hc, ?_⟩
  have hlen := hr.retains.1
  by_cases hb : r.buf = []
  · have := hr.start_eq_zero hb
    omega
  · have := List.length_pos_iff.2 hb
    omega

structure RingGrows (h : List Byte) (r : OutputRing) (h' : List Byte) (r' : OutputRing) :
    Prop where
  ok : RingOk h r → RingOk h' r'
  hist : h <+: h'
  start_le : r.start ≤ r'.start
  start_le_released : r.lossless = true → r'.start ≤ max r.start r.released
  closed : r.closed = true → r'.closed = true ∧ h' = h
  capacity : r'.capacity = r.capacity
  lossless : r'.lossless = r.lossless
  released_le : r.released ≤ r'.released

namespace RingGrows

variable {h : List Byte} {r r' : OutputRing}

theorem refl (h : List Byte) (r : OutputRing) : RingGrows h r h r :=
  ⟨id, List.prefix_rfl, le_rfl, fun _ => le_max_left _ _, fun hc => ⟨hc, rfl⟩, rfl, rfl, le_rfl⟩

theorem close (h : List Byte) (r : OutputRing) : RingGrows h r h r.close :=
  ⟨fun hr => ⟨hr.retains, hr.capacity_pos, hr.start_eq_zero, hr.length_le⟩, List.prefix_rfl,
    le_rfl, fun _ => le_max_left _ _, fun _ => ⟨rfl, rfl⟩, rfl, rfl, le_rfl⟩

theorem release (h : List Byte) (r : OutputRing) (o : ℕ) : RingGrows h r h (r.setReleased o) :=
  ⟨fun hr => ⟨hr.retains, hr.capacity_pos, hr.start_eq_zero, hr.length_le⟩, List.prefix_rfl,
    le_rfl, fun _ => le_max_left _ _, fun hc => ⟨hc, rfl⟩, rfl, rfl, by
      rw [OutputRing.setReleased_released]; exact le_max_left _ _⟩

theorem accept {p : List Byte} {n : ℕ} (ha : r.Accepts p r' n) :
    RingGrows h r (h ++ p.take n) r' where
  ok hr :=
    ⟨ha.retains h hr.retains, by rw [ha.capacity]; exact hr.capacity_pos,
      ha.start_eq_zero hr.capacity_pos hr.start_eq_zero,
      by rw [ha.capacity]; exact ha.length_le hr.length_le⟩
  hist := List.prefix_append _ _
  start_le := ha.start_le
  start_le_released := ha.start_le_released
  closed hc := absurd (hc.symm.trans ha.closed.1) (by simp)
  capacity := ha.capacity
  lossless := ha.lossless
  released_le := ha.released.ge

end RingGrows

/-- What a step can do to the rings of a command and their histories. -/
def Grows (w w' : World) : Prop :=
  ∀ fd, RingGrows (w.hist fd) (w.cmd.rings fd) (w'.hist fd) (w'.cmd.rings fd)

theorem Grows.of_eq {w w' : World} (hh : w'.hist = w.hist) (hr : w'.cmd.rings = w.cmd.rings) :
    Grows w w' := by
  intro fd
  rw [hh, hr]
  exact .refl _ _

theorem Grows.update {w w' : World} {fd : Fd} {h : List Byte} {r : OutputRing}
    (hh : w'.hist = update w.hist fd h) (hr : w'.cmd.rings = update w.cmd.rings fd r)
    (hg : RingGrows (w.hist fd) (w.cmd.rings fd) h r) : Grows w w' := by
  intro fd'
  rw [hh, hr]
  by_cases hfd : fd' = fd
  · subst hfd
    simpa only [update_self] using hg
  · simpa only [update_of_ne hfd] using RingGrows.refl _ _

theorem Grows.close {w w' : World} {fd : Fd} (hh : w'.hist = w.hist)
    (hr : w'.cmd.rings = Function.update w.cmd.rings fd (w.cmd.rings fd).close) : Grows w w' :=
  .update (by rw [hh, Function.update_eq_self]) hr (.close _ _)

theorem take_length_sub_drop {p : List Byte} {n : ℕ} (hn : n ≤ p.length) :
    p.take (p.length - (p.drop n).length) = p.take n := by
  rw [List.length_drop, Nat.sub_sub_self hn]

theorem Host.grows {w : World} {e : Host} (he : e.Enabled w) : Grows w (e.fire w) := by
  cases e with
  | drainWrite fd p r rest =>
    obtain ⟨n, rfl, ha⟩ := OutputRing.write_spec he.2
    refine .update rfl rfl ?_
    rw [take_length_sub_drop ha.le]
    exact .accept ha
  | drainClose fd | reapCloseRing fd => exact .close rfl rfl
  | reapRelease =>
    intro fd
    cases fd <;> exact .close _ _
  | _ => exact .of_eq rfl rfl

theorem Serve.grows (w : World) (i : ℕ) (e : Serve) : Grows w (e.fire w i) := by
  cases e with
  | ackOutput o | inAck o => exact fun fd => .release _ _ _
  | greetFailed | replyFailed | leave => exact .of_eq rfl (w.cmd.clientGone_rings i)
  | _ => exact .of_eq rfl rfl

/-- **Every step makes the rings grow.** -/
theorem Event.grows {w : World} {e : Event} (he : e.Enabled w) : Grows w (e.fire w) := by
  cases e with
  | host e => exact Host.grows he
  | serve i e => exact Serve.grows w i e
  | remote e =>
    rw [Event.fire, e.fire_daemon]
    exact .of_eq rfl rfl
  | _ => exact .of_eq rfl rfl

def RingsOk (w : World) : Prop := ∀ fd, RingOk (w.hist fd) (w.cmd.rings fd)

theorem RingsOk.init (s : Start) : RingsOk (.init s) := by
  intro fd
  have hpos : 0 < s.spec.ringCapacity fd := by
    unfold ManagedCommandSpec.ringCapacity defaultOutputRingCapacity
    split_ifs <;> omega
  have hr : ∀ r : OutputRing, r.buf = [] → r.start = 0 → r.capacity = s.spec.ringCapacity fd →
      RingOk [] r := by
    intro r hb hs hc
    refine ⟨by rw [hb, hs]; exact .nil, by omega, fun _ => hs, by simp [hb]⟩
  apply hr <;> simp only [World.init, ManagedCommand.register] <;> split_ifs <;> rfl

theorem RingsOk.step {w : World} {e : Event} (h : RingsOk w) (he : e.Enabled w) :
    RingsOk (e.fire w) :=
  fun fd => (Event.grows he fd).ok (h fd)

end Graft.Command
