import Graft.Library.Signal
import Graft.Command.Remote

/-!
# A resumable command and its streams (`pkg/running_command_remote.go`)

The sending side of a `RemoteRunningCommand`: the stdin pump, the calls of `Signal`, `SetEnvVar` and
`NotifyWindowChange` (`sendOOB`), and `setClient`, which the `process` goroutine calls with each new
stream.  Streams break at any time.  Here, other than in the model of the whole system, a `Send`
that returns `nil` is delivered and one that fails is not, so the two outcomes depend on the stream
alone: a `Send` succeeds as long as the stream is up and was not half-closed.
-/

namespace Graft.Delivery

open Function (update)
open Command (Control Req stdinBufferSize)

/-- `process`: in `setClient`, the local variables of it. -/
inductive Process
  /-- in `Recv` or in `tryResume` -/
  | recv
  /-- before the window size is sent -/
  | resyncing (win : ℤ × ℤ) (pending : List (Control × ℕ)) (stdinDone : Bool)
  /-- before the next queued request is sent -/
  | flushing (pending failed : List (Control × ℕ)) (stdinDone : Bool)
  /-- before the failed requests are queued again -/
  | requeueing (failed : List (Control × ℕ)) (stdinDone : Bool)
  /-- before the half-close is replayed -/
  | replaying
  | finished
  deriving DecidableEq

/-- The end of `setClient`. -/
def Process.last (stdinDone : Bool) : Process := if stdinDone then .replaying else .recv

/-- `pumpStdin`. -/
inductive Pump
  | reading
  /-- before `currentClient` -/
  | getting (data : List Byte)
  /-- before the send, with what `currentClient` returned -/
  | sending (data : List Byte) (client swapped : ℕ)
  /-- in the `select` -/
  | waiting (data : List Byte) (client swapped : ℕ)
  /-- in the deferred `closeSend`, before `stdinDone` is set -/
  | marking
  /-- in `closeSend`, before `currentClient` -/
  | fetching
  /-- in `closeSend`, before `CloseSend` -/
  | closing (client : ℕ)
  | done
  deriving DecidableEq

/-- `sendOOB`. -/
inductive CallPc
  /-- before `currentClient` -/
  | getting
  /-- before the send -/
  | sending (client : ℕ)
  /-- before the critical section after a failed send -/
  | parking (client : ℕ)
  | returned
  deriving DecidableEq

/-- A call of `Signal`, `SetEnvVar` or `NotifyWindowChange`. -/
structure Call where
  request : Control
  pc : CallPc
  deriving DecidableEq

structure State where
  /-- the number of streams opened so far -/
  opened : ℕ
  up : ℕ → Bool
  /-- the client has half-closed the stream -/
  sendClosed : ℕ → Bool
  /-- what was delivered, and on which stream -/
  log : List (ℕ × Req)
  runClient : ℕ
  swapped : Signal
  /-- parked requests, with their calls -/
  pending : List (Control × ℕ)
  stdinDone : Bool
  /-- `lastWinH`, `lastWinW` -/
  win : ℤ × ℤ
  process : Process
  pump : Pump
  /-- what the consumer is writing -/
  pipe : List Byte
  /-- all that the consumer has written -/
  written : List Byte
  /-- the consumer has closed its input -/
  inputClosed : Bool
  /-- the consumer's context has ended -/
  ctxDone : Bool
  calls : ℕ → Call
  callCount : ℕ

namespace State

/-- A command that has just been started or attached, on its first stream. -/
def init : State where
  opened := 1
  up _ := true
  sendClosed _ := false
  log := []
  runClient := 0
  swapped := .new
  pending := []
  stdinDone := false
  win := (0, 0)
  process := .recv
  pump := .reading
  pipe := []
  written := []
  inputClosed := false
  ctxDone := false
  calls _ := ⟨.signal "", .returned⟩
  callCount := 0

variable (w : State)

/-- A `Send` on the stream returns `nil`. -/
def Accepts (i : ℕ) : Prop := w.up i = true ∧ w.sendClosed i = false

instance (i : ℕ) : Decidable (w.Accepts i) := inferInstanceAs (Decidable (_ ∧ _))

def deliver (i : ℕ) (req : Req) : State := { w with log := w.log ++ [(i, req)] }

/-- `CloseSend`, which does nothing on a stream that is closed already. -/
def closeSend (i : ℕ) : State :=
  { w with
    sendClosed := update w.sendClosed i true
    log := if w.Accepts i then w.log ++ [(i, .halfClose)] else w.log }

def setCall (k : ℕ) (pc : CallPc) : State :=
  { w with calls := update w.calls k { w.calls k with pc := pc } }

/-- The locked section of `setClient`, with a new stream.  It is up and was not half-closed, as all
streams that are not opened yet. -/
def swap : State :=
  { w with
    opened := w.opened + 1
    runClient := w.opened
    swapped := w.swapped.broadcast
    pending := []
    process := .resyncing w.win w.pending w.stdinDone }

end State

inductive Event
  /-- the consumer writes to the stdin pipe -/
  | offer (bs : List Byte)
  /-- the consumer closes the stdin pipe -/
  | closeInput
  /-- a stream breaks -/
  | fail (i : ℕ)
  /-- the consumer's context ends -/
  | cancel
  /-- `Recv` has failed, a stream was opened, and `setClient` installs it -/
  | install
  | resync (win : ℤ × ℤ) (pending : List (Control × ℕ)) (stdinDone : Bool)
  /-- `setClient` sends a queued request -/
  | flush (m : Control × ℕ) (pending failed : List (Control × ℕ)) (stdinDone : Bool)
  | flushed (failed : List (Control × ℕ)) (stdinDone : Bool)
  | requeue (failed : List (Control × ℕ)) (stdinDone : Bool)
  | replay
  /-- `process` returns -/
  | finish
  /-- the pump reads from the stdin pipe -/
  | read
  /-- there is nothing more to read -/
  | eof
  | get (data : List Byte)
  | send (data : List Byte) (client swapped : ℕ)
  /-- the stream was replaced -/
  | wake (data : List Byte) (client swapped : ℕ)
  /-- `process` has returned -/
  | abandon (data : List Byte) (client swapped : ℕ)
  | mark
  | fetch
  | close (client : ℕ)
  | call (request : Control)
  | callGet (k : ℕ)
  | callSend (k client : ℕ)
  /-- the request is parked, or tried again on a new stream -/
  | callPark (k client : ℕ)

namespace Event

def Enabled (w : State) : Event → Prop
  -- a write ends when all was read, and only one goes on at a time
  | offer _ => w.pipe = [] ∧ w.inputClosed = false
  | closeInput => w.pipe = []
  | fail i => i < w.opened
  | cancel => True
  | install => w.process = .recv ∧ w.up w.runClient = false
  | resync win pending stdinDone => w.process = .resyncing win pending stdinDone
  | flush m pending failed stdinDone => w.process = .flushing (m :: pending) failed stdinDone
  | flushed failed stdinDone => w.process = .flushing [] failed stdinDone
  | requeue failed stdinDone => w.process = .requeueing failed stdinDone
  | replay => w.process = .replaying
  | finish => w.process = .recv
  | read => w.pump = .reading ∧ w.pipe ≠ []
  -- the pipe is also closed when the context ends and when `process` returns
  | eof => w.pump = .reading ∧
      (w.pipe = [] ∧ w.inputClosed = true ∨ w.ctxDone = true ∨ w.process = .finished)
  | get data => w.pump = .getting data
  | send data client swapped => w.pump = .sending data client swapped
  | wake data client swapped => w.pump = .waiting data client swapped ∧ swapped ∈ w.swapped.closes
  | abandon data client swapped => w.pump = .waiting data client swapped ∧ w.process = .finished
  | mark => w.pump = .marking
  | fetch => w.pump = .fetching
  | close client => w.pump = .closing client
  | call _ => True
  | callGet k => k < w.callCount ∧ (w.calls k).pc = .getting
  | callSend k client => k < w.callCount ∧ (w.calls k).pc = .sending client
  | callPark k client => k < w.callCount ∧ (w.calls k).pc = .parking client

def fire (w : State) : Event → State
  | offer bs => { w with pipe := bs, written := w.written ++ bs }
  | closeInput => { w with inputClosed := true }
  | fail i => { w with up := update w.up i false }
  | cancel => { w with ctxDone := true }
  | install => w.swap
  | resync win pending stdinDone =>
    let w' := { w with process := .flushing pending [] stdinDone }
    if (0 < win.1 ∧ 0 < win.2) ∧ w.Accepts w.runClient then
      w'.deliver w.runClient (.control (.windowChange win.1 win.2) none)
    else w'
  | flush m pending failed stdinDone =>
    if w.Accepts w.runClient then
      { w with process := .flushing pending failed stdinDone }.deliver w.runClient
        (.control m.1 (some m.2))
    else { w with process := .flushing pending (failed ++ [m]) stdinDone }
  | flushed failed stdinDone =>
    { w with process := if failed = [] then .last stdinDone else .requeueing failed stdinDone }
  | requeue failed stdinDone =>
    { w with process := .last stdinDone, pending := failed ++ w.pending }
  | replay => { w.closeSend w.runClient with process := .recv }
  | finish => { w with process := .finished }
  | read =>
    { w with pump := .getting (w.pipe.take stdinBufferSize), pipe := w.pipe.drop stdinBufferSize }
  | eof => { w with pump := .marking }
  | get data => { w with pump := .sending data w.runClient w.swapped.current }
  | send data client swapped =>
    if w.Accepts client then { w with pump := .reading }.deliver client (.stdin data)
    else { w with pump := .waiting data client swapped }
  | wake data _ _ => { w with pump := .getting data }
  | abandon .. => { w with pump := .marking }
  | mark => { w with stdinDone := true, pump := .fetching }
  | fetch => { w with pump := .closing w.runClient }
  | close client => { w.closeSend client with pump := .done }
  | call request =>
    { w with
      calls := update w.calls w.callCount ⟨request, .getting⟩
      callCount := w.callCount + 1
      win := request.lastWin w.win }
  | callGet k => w.setCall k (.sending w.runClient)
  | callSend k client =>
    if w.Accepts client then
      (w.setCall k .returned).deliver client (.control (w.calls k).request (some k))
    else w.setCall k (.parking client)
  | callPark k client =>
    if w.runClient = client then
      { w.setCall k .returned with pending := w.pending ++ [((w.calls k).request, k)] }
    else w.setCall k .getting

/-- A step of the pump or of `setClient`, once it has installed a stream. -/
def Feeds : Event → Prop
  | resync .. | flush .. | flushed .. | requeue .. | replay | read | eof | get _ | send .. | wake ..
  | abandon .. | mark | fetch | close _ => True
  | _ => False

end Event

def delivery : Machine State Event := ⟨Event.Enabled, Event.fire⟩

instance (w : State) (e : Event) : Decidable (delivery.enabled w e) := by
  cases e <;> simp only [delivery, Event.Enabled] <;> infer_instance

namespace State

variable (w : State)

/-- The pump and `setClient` have nothing to do but to wait. -/
def Settled : Prop := ∀ e : Event, e.Feeds → ¬ e.Enabled w

def Alive : Prop := w.ctxDone = false ∧ w.process ≠ .finished

end State

end Graft.Delivery
