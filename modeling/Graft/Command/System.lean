import Graft.Command.Host
import Graft.Command.Serve
import Graft.Command.Remote

/-!
# The system around one command

The steps of all threads, put together with those of the transport and of other clients:

* `brk`: a transport breaks, or the client's library ends a stream on which a `Send` has followed the
  half-close; the first `k` messages towards the client and the first `l` towards the server have
  arrived, the others are lost;
* `notice`: the daemon notices a broken transport and ends the stream's context;
* `foreignOpen`, `foreignSend`, `foreignClose`, `foreignRecv`: another client, which may send
  anything at any time.
-/

namespace Graft.Command

open Function (update)

inductive Event
  | host (e : Host)
  | serve (i : ℕ) (e : Serve)
  | remote (e : Remote)
  | brk (i k l : ℕ)
  | notice (i : ℕ)
  | foreignOpen (offsets : Offsets)
  | foreignSend (i : ℕ) (req : Req)
  | foreignClose (i : ℕ)
  | foreignRecv (i : ℕ)

namespace Event

def Enabled (w : World) : Event → Prop
  | host e => e.Enabled w
  | serve i e => e.Enabled w i
  | remote e => e.Enabled w
  | brk i _ _ => i < w.opened ∧ w.broken i = false
  | notice i => w.broken i = true
  | foreignOpen _ => True
  | foreignSend i req =>
    i < w.opened ∧ w.own i = false ∧ w.CanSend i ∧ req ≠ .halfClose ∧
      ∀ c k, req ≠ .control c (some k)
  | foreignClose i => i < w.opened ∧ w.own i = false
  | foreignRecv i => i < w.opened ∧ w.own i = false ∧ w.toClient i ≠ []

instance (req : Req) : Decidable (∀ c k, req ≠ .control c (some k)) :=
  match req with
  | .control c (some k) => .isFalse fun h => h c k rfl
  | .control _ none => .isTrue nofun
  | .attach _ | .stdin _ | .ack _ | .halfClose => .isTrue nofun

instance (w : World) (e : Event) : Decidable (e.Enabled w) := by
  cases e <;> dsimp only [Enabled] <;> infer_instance

def fire (w : World) : Event → World
  | host e => e.fire w
  | serve i e => e.fire w i
  | remote e => e.fire w
  | brk i k l =>
    { w with
      broken := update w.broken i true
      toClient := update w.toClient i ((w.toClient i).take k)
      toServer := update w.toServer i ((w.toServer i).take l) }
  | notice i => { w with serverDown := update w.serverDown i true }
  | foreignOpen o => w.openStream false o
  | foreignSend i req => { w with toServer := w.requested i req }
  | foreignClose i =>
    { w with toServer := w.halfClosed i, sendClosed := update w.sendClosed i true }
  | foreignRecv i => w.pop i

end Event

def system : Machine World Event where
  enabled := fun w e => e.Enabled w
  fire := Event.fire

instance (w : World) (e : Event) : Decidable (system.enabled w e) :=
  inferInstanceAs (Decidable (e.Enabled w))

theorem Event.after {w w' : World} (e : Event) (h : system.Run (fun _ _ => True) w w')
    (he : e.Enabled w') : system.Run (fun _ _ => True) w (e.fire w') :=
  h.step he trivial

/-- A state of a run in which every step satisfies `ok`. -/
def Reaches (s : Start) (ok : World → Event → Prop) (w : World) : Prop :=
  system.Run ok (.init s) w

/-- The first client attaches, its transport breaks, and the daemon notices and lets it go. -/
def firstClientLost : List Event :=
  [.serve 0 .attachStart, .serve 0 .greetSent, .brk 0 0 0, .notice 0, .serve 0 .watch,
    .serve 0 (.pumpStop .stdout 0), .serve 0 (.pumpStop .stderr 0), .serve 0 (.joinStopped 0 0),
    .serve 0 (.leave .unknown)]

/-- The command exits, its outputs are drained, and the reaper records the exit and then forgets the
command or not. -/
def exitsDrained (status : ℤ) (forget : Bool) : List Event :=
  [.host (.exit status false), .host (.closeOutput .stdout), .host (.closeOutput .stderr),
    .host (.drainEof .stdout), .host (.drainEof .stderr), .host (.drainClose .stdout),
    .host (.drainClose .stderr), .host .reapWait, .host .reapDrained, .host .reapRelease,
    .host .reapRecord, .host (.reapSignal forget), .host (.reapForget forget)]

end Graft.Command
