import Graft.Ports.HalfClose

/-!
# What a relayed connection carries (`pkg/remote_daemon.go`, `pkg/server_grpc_port_forward.go`)

The relays of a forwarded TCP connection with all that can go wrong: `Read` may return data together
with the end or with an error, `Send`, `CloseSend` and `Write` may fail, and the stream may break, so
that messages on their way are lost.  A stream that is not broken delivers all messages in order, and
the end after them.
-/

namespace Graft.Ports.Faithful

/-- Where a goroutine is; at its end it sends `nil` or an error to `errCh`. -/
inductive Status
  | running
  | ended
  | failed
  deriving DecidableEq

/-- The error that `Read` returns besides the data. -/
inductive ReadError
  | eof
  | other
  deriving DecidableEq

/-- One direction.  The first goroutine reads from a peer and sends, the second one receives and
writes to the other peer. -/
structure Lane where
  /-- all bytes that `Read` has returned -/
  read : List UInt8
  /-- `buf[:n]`, until it is sent -/
  buffer : List UInt8
  readErr : Option ReadError
  first : Status
  /-- in the stream -/
  messages : List (List UInt8)
  /-- the end of the stream follows the messages -/
  closed : Bool
  /-- received, and not written yet -/
  payload : List UInt8
  second : Status
  /-- all bytes that `Write` has taken -/
  written : List UInt8
  /-- `CloseWrite` was called -/
  signalled : Bool
  deriving DecidableEq

/-- The connection was accepted, and the remote one dialed. -/
def Lane.init : Lane := ⟨[], [], none, .running, [], false, [], .running, [], false⟩

inductive Step
  | read (chunk : List UInt8) (err : Option ReadError)
  | send
  /-- the message may have been sent all the same -/
  | sendError (sent : Bool)
  /-- the data has ended, and `CloseSend` succeeds where it is called -/
  | finish
  /-- `Read` has failed, or `CloseSend` does -/
  | abort
  | recv
  | recvEof
  | recvError
  | write
  /-- some of the bytes may have been written -/
  | writeError (n : ℕ)
  deriving DecidableEq

namespace Step

/-- The step can be taken; `closes` says whether the first goroutine calls `CloseSend`. -/
def Enabled (closes broken : Bool) (l : Lane) : Step → Prop
  | read chunk _ => l.first = .running ∧ l.buffer = [] ∧ l.readErr = none ∧ chunk.length ≤ 32 * 1024
  | send | sendError _ => l.first = .running ∧ l.buffer ≠ []
  | finish => l.first = .running ∧ l.buffer = [] ∧ l.readErr = some .eof
  | abort => l.first = .running ∧ l.buffer = [] ∧
      (l.readErr = some .other ∨ l.readErr = some .eof ∧ closes = true)
  | recv => l.second = .running ∧ l.payload = [] ∧ l.messages ≠ []
  | recvEof => l.second = .running ∧ l.payload = [] ∧ l.messages = [] ∧ l.closed = true ∧
      broken = false
  | recvError => l.second = .running ∧ l.payload = [] ∧ broken = true
  | write | writeError _ => l.second = .running ∧ l.payload ≠ []

instance (closes broken : Bool) (l : Lane) (s : Step) : Decidable (s.Enabled closes broken l) := by
  cases s <;> dsimp only [Enabled] <;> infer_instance

def sent (broken : Bool) (l : Lane) : List (List UInt8) :=
  if broken then l.messages else l.messages ++ [l.buffer]

def fire (closes broken : Bool) (l : Lane) : Step → Lane
  | read chunk err => { l with read := l.read ++ chunk, buffer := chunk, readErr := err }
  | send => { l with messages := sent broken l, buffer := [] }
  | sendError arrives =>
    { l with first := .failed, messages := if arrives then sent broken l else l.messages }
  | finish => { l with first := .ended, closed := l.closed || closes }
  | abort => { l with first := .failed }
  | recv => { l with payload := l.messages.headD [], messages := l.messages.tail }
  | recvEof => { l with second := .ended, signalled := true }
  | recvError => { l with second := .failed }
  | write => { l with written := l.written ++ l.payload, payload := [] }
  | writeError n => { l with written := l.written ++ l.payload.take n, second := .failed }

end Step

/-- A relayed connection: `relayTCPConnection` has the first goroutine upwards and the second one
downwards, `relayBidi` the other two. -/
structure Relays where
  up : Lane
  down : Lane
  broken : Bool
  deriving DecidableEq

namespace Relays

def init : Relays := ⟨.init, .init, false⟩

def lane (w : Relays) : Direction → Lane
  | .up => w.up
  | .down => w.down

def setLane (w : Relays) (d : Direction) (l : Lane) : Relays :=
  match d with
  | .up => { w with up := l }
  | .down => { w with down := l }

end Relays

inductive Event
  | step (d : Direction) (s : Step)
  /-- `relayBidi` has two results and returns `nil`, which ends the stream downwards -/
  | serverReturn
  /-- the transport breaks, `ForwardPort` returns an error, or `relayTCPConnection` cancels the
  stream; so many messages still arrive -/
  | broken (arrives : Direction → ℕ)

namespace Event

def Enabled (w : Relays) : Event → Prop
  | step d s => s.Enabled d.closes w.broken (w.lane d)
  | serverReturn => w.up.second = .ended ∧ w.down.first = .ended
  | broken _ => True

instance (w : Relays) (e : Event) : Decidable (e.Enabled w) := by
  cases e <;> dsimp only [Enabled] <;> infer_instance

def fire (w : Relays) : Event → Relays
  | step d s => w.setLane d (s.fire d.closes w.broken (w.lane d))
  | serverReturn => { w with down := { w.down with closed := true } }
  | broken arrives =>
    { up := { w.up with messages := w.up.messages.take (arrives .up) }
      down := { w.down with messages := w.down.messages.take (arrives .down) }
      broken := true }

end Event

def relays : Machine Relays Event where
  enabled := fun w e => e.Enabled w
  fire := Event.fire

instance (w : Relays) (e : Event) : Decidable (relays.enabled w e) :=
  inferInstanceAs (Decidable (e.Enabled w))

/-! ### The invariant -/

namespace Lane

/-- What was written, and what the second goroutine may still write. -/
def carried (l : Lane) : List UInt8 := l.written ++ (l.payload ++ l.messages.flatten)

/-- Nothing is put in another order; nothing is lost unless something has failed. -/
structure Sound (broken : Bool) (l : Lane) : Prop where
  written : l.written <+: l.read
  carried : l.second ≠ .failed → l.carried <+: l.read
  whole : broken = false → l.first ≠ .failed → l.second ≠ .failed → l.carried ++ l.buffer = l.read
  buffer : l.first = .ended → l.buffer = []
  closed : l.closed = true → l.first = .ended
  ended : l.second = .ended → l.signalled = true
  signalled : l.signalled = true → l.second = .ended ∧ l.first = .ended ∧ l.written = l.read

variable {closes broken : Bool} {l : Lane} {s : Step}

theorem sound_init (broken : Bool) : Sound broken .init := by
  constructor <;> simp [init, carried]

theorem Sound.not_signalled (h : l.Sound broken) (hrun : l.first = .running ∨ l.second = .running) :
    l.signalled = false := by
  grind [signalled]

theorem Sound.not_closed (h : l.Sound broken) (hrun : l.first = .running) : l.closed = false := by
  grind [closed]

theorem Sound.sent (h : l.Sound broken) (hrun : l.first = .running) (hsecond : l.second ≠ .failed) :
    l.written ++ (l.payload ++ (Step.sent broken l).flatten) <+: l.read := by
  cases broken with
  | true => exact h.carried hsecond
  | false =>
    have hwhole := h.whole rfl (by simp [hrun]) hsecond
    simp only [Lane.carried, List.append_assoc] at hwhole
    simp [Step.sent, hwhole]

theorem Sound.step (h : l.Sound broken) (he : s.Enabled closes broken l) :
    (s.fire closes broken l).Sound broken := by
  cases s with
  | read chunk err =>
    obtain ⟨hrun, hbuf, -, -⟩ := he
    have hsig := h.not_signalled (.inl hrun)
    have hclosed := h.not_closed hrun
    refine ⟨h.written.trans (List.prefix_append ..), fun hs => (h.carried hs).trans
      (List.prefix_append ..), fun hb hf hs => ?_, by simp [Step.fire, hrun],
      by simp [Step.fire, hclosed], h.ended, by simp [Step.fire, hsig]⟩
    have hwhole := h.whole hb hf hs
    rw [hbuf, List.append_nil] at hwhole
    exact congrArg (· ++ chunk) hwhole
  | send =>
    obtain ⟨hrun, -⟩ := he
    have hsig := h.not_signalled (.inl hrun)
    have hclosed := h.not_closed hrun
    refine ⟨h.written, h.sent hrun, fun hb hf hs => ?_, fun _ => rfl,
      by simp [Step.fire, hclosed], h.ended, by simp [Step.fire, hsig]⟩
    have hwhole := h.whole hb hf hs
    simp only [Lane.carried, List.append_assoc] at hwhole
    simp [Step.fire, Lane.carried, Step.sent, hb, hwhole]
  | sendError arrives =>
    obtain ⟨hrun, -⟩ := he
    have hsig := h.not_signalled (.inl hrun)
    have hclosed := h.not_closed hrun
    refine ⟨h.written, fun hs => ?_, fun _ hf => absurd rfl hf, by simp [Step.fire],
      by simp [Step.fire, hclosed], h.ended, by simp [Step.fire, hsig]⟩
    cases arrives with
    | true => exact h.sent hrun hs
    | false => exact h.carried hs
  | finish =>
    obtain ⟨hrun, hbuf, -⟩ := he
    have hsig := h.not_signalled (.inl hrun)
    exact ⟨h.written, h.carried, fun hb _ hs => h.whole hb (by simp [hrun]) hs, fun _ => hbuf,
      fun _ => rfl, h.ended, by simp [Step.fire, hsig]⟩
  | abort =>
    have hsig := h.not_signalled (.inl he.1)
    have hclosed := h.not_closed he.1
    exact ⟨h.written, h.carried, fun _ hf => absurd rfl hf, by simp [Step.fire],
      by simp [Step.fire, hclosed], h.ended, by simp [Step.fire, hsig]⟩
  | recv =>
    obtain ⟨hrun, hpayload, hne⟩ := he
    obtain ⟨m, ms, hms⟩ := List.exists_cons_of_ne_nil hne
    have hcarried : (Step.recv.fire closes broken l).carried = l.carried := by
      simp [Step.fire, Lane.carried, hms, hpayload]
    have hwhole := h.whole
    have hprefix := h.carried
    rw [← hcarried] at hwhole hprefix
    exact ⟨h.written, hprefix, hwhole, h.buffer, h.closed, h.ended, h.signalled⟩
  | recvEof =>
    obtain ⟨hrun, hpayload, hms, hclosed, hbroken⟩ := he
    have hfirst := h.closed hclosed
    have hwhole := h.whole hbroken (by simp [hfirst]) (by simp [hrun])
    have heq : l.written = l.read := by
      simpa [Lane.carried, hpayload, hms, h.buffer hfirst] using hwhole
    exact ⟨h.written, fun _ => h.carried (by simp [hrun]),
      fun hb hf _ => h.whole hb hf (by simp [hrun]), h.buffer, h.closed, fun _ => rfl,
      fun _ => ⟨rfl, hfirst, heq⟩⟩
  | recvError =>
    have hsig := h.not_signalled (.inr he.1)
    exact ⟨h.written, fun hs => absurd rfl hs, fun _ _ hs => absurd rfl hs, h.buffer, h.closed,
      by simp [Step.fire], by simp [Step.fire, hsig]⟩
  | write =>
    obtain ⟨hrun, -⟩ := he
    have hsig := h.not_signalled (.inr hrun)
    have hcarried : (Step.write.fire closes broken l).carried = l.carried := by
      simp [Step.fire, Lane.carried]
    have hprefix := h.carried
    have hwhole := h.whole
    rw [← hcarried] at hprefix hwhole
    refine ⟨?_, hprefix, hwhole, h.buffer, h.closed, h.ended, by simp [Step.fire, hsig]⟩
    refine List.IsPrefix.trans ?_ (h.carried (by simp [hrun]))
    simp [Step.fire, Lane.carried]
  | writeError n =>
    obtain ⟨hrun, -⟩ := he
    have hsig := h.not_signalled (.inr hrun)
    refine ⟨?_, fun hs => absurd rfl hs, fun _ _ hs => absurd rfl hs, h.buffer, h.closed,
      by simp [Step.fire], by simp [Step.fire, hsig]⟩
    refine List.IsPrefix.trans ?_ (h.carried (by simp [hrun]))
    simp only [Step.fire, Lane.carried, List.prefix_append_right_inj]
    grind

theorem Sound.lose (h : l.Sound broken) (n : ℕ) :
    Sound true { l with messages := l.messages.take n } := by
  refine ⟨h.written, fun hs => List.IsPrefix.trans ?_ (h.carried hs), fun hb => by simp at hb,
    h.buffer, h.closed, h.ended, h.signalled⟩
  simp only [Lane.carried, List.prefix_append_right_inj]
  exact (List.take_prefix n l.messages).flatten

end Lane

/-! ### Runs -/

variable {w : Relays}

theorem sound_fire {e : Event} (h : ∀ d, (w.lane d).Sound w.broken) (he : e.Enabled w)
    (d : Direction) : ((e.fire w).lane d).Sound (e.fire w).broken := by
  cases e with
  | step d' s =>
    have hstep := (h d').step he
    cases d' <;> cases d <;> first | exact hstep | exact h .up | exact h .down
  | serverReturn =>
    cases d with
    | up => exact h .up
    | down =>
      obtain ⟨hwritten, hcarried, hwhole, hbuffer, -, hended, hsignalled⟩ := h .down
      exact ⟨hwritten, hcarried, hwhole, hbuffer, fun _ => he.2, hended, hsignalled⟩
  | broken arrives =>
    cases d with
    | up => exact (h .up).lose _
    | down => exact (h .down).lose _

theorem sound_of_reachable (h : relays.Reachable .init w) (d : Direction) :
    (w.lane d).Sound w.broken := by
  revert d
  refine h.invariant (I := fun w => ∀ d, (w.lane d).Sound w.broken) ?_ ?_
  · intro d
    cases d <;> exact Lane.sound_init _
  · exact fun w e hw he _ d => sound_fire hw he d

/-- **Relays are faithful**: at every moment, what was written in a direction is the beginning of what
was read.  A direction that has ended without an error has signalled the end, and where the end was
signalled, everything was written. -/
theorem relays_faithful (w : Relays) (hrun : relays.Reachable .init w) (d : Direction) :
    (w.lane d).written <+: (w.lane d).read ∧
      ((w.lane d).first = .ended ∧ (w.lane d).second = .ended → (w.lane d).signalled = true) ∧
      ((w.lane d).signalled = true → (w.lane d).written = (w.lane d).read) := by
  have hsound := sound_of_reachable hrun d
  grind [Lane.Sound.written, Lane.Sound.ended, Lane.Sound.signalled]

/-- The local peer sends two bytes, one with the end of its data. -/
def upload : List Event :=
  [.step .up (.read [112] none), .step .up .send, .step .up (.read [113] (some .eof)),
    .step .up .recv, .step .up .send, .step .up .finish, .step .up .write, .step .up .recv,
    .step .up .write, .step .up .recvEof]

theorem relays_faithful_upload :
    ∃ w, relays.Reachable .init w ∧ w.up.written = [112, 113] ∧ w.up.first = .ended ∧
      w.up.second = .ended ∧ w.up.signalled = true ∧ w.up.written = w.up.read := by
  have hexec : ∃ w ∈ relays.exec (fun _ _ => True) .init upload,
      w.up.written = [112, 113] ∧ w.up.first = .ended ∧ w.up.second = .ended :=
    ⟨_, rfl, by decide⟩
  obtain ⟨w, hrun, hwritten, hfirst, hsecond⟩ := Machine.exists_run_of_exec _ _ hexec
  obtain ⟨-, hended, heq⟩ := relays_faithful w hrun .up
  exact ⟨w, hrun, hwritten, hfirst, hsecond, hended ⟨hfirst, hsecond⟩, heq (hended ⟨hfirst, hsecond⟩)⟩

end Graft.Ports.Faithful
