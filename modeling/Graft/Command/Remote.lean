import Graft.Command.World

/-!
# The resumable client (`pkg/running_command_remote.go`)

The steps of the goroutines of one `RemoteRunningCommand`: `process` with `maybeAck`, `tryResume`
and `setClient`, the stdin pump, and the calls of `Signal`, `SetEnvVar` and `NotifyWindowChange`
(`sendOOB`).  The command is resumable: it has a reattach function and a command ID.

A stream accepts a `Send` until the client has half-closed it or has seen it fail; the request
reaches the queue only if the transport is up and the handler has not returned.  A `Send` after a
half-close is rejected, and the library ends the stream before it returns the error: the stream is
broken (`Event.brk`), and then the `Send` fails.
-/

namespace Graft.Command

open Function (update)

namespace World

/-- `Send` on stream `i` may return `nil`. -/
def CanSend (w : World) (i : ℕ) : Prop := w.sendClosed i = false ∧ w.clientDown i = false

/-- `Send` on stream `i` may fail: the stream has ended.  After a half-close it is the library that
has ended it. -/
def MayFail (w : World) (i : ℕ) : Prop :=
  w.clientDown i = true ∨ w.broken i = true ∨ w.handler i = .returned

instance (w : World) (i : ℕ) : Decidable (w.CanSend i) :=
  inferInstanceAs (Decidable (_ ∧ _))

instance (w : World) (i : ℕ) : Decidable (w.MayFail i) :=
  inferInstanceAs (Decidable (_ ∨ _))

/-- The stream has failed from the client's point of view: `Recv` returns this status. -/
def RecvFails (w : World) (i : ℕ) (code : Code) : Prop :=
  (w.toClient i).head? = some (.trailer code) ∨
    w.toClient i = [] ∧ w.broken i = true ∧ code = .unknown

instance (w : World) (i : ℕ) (code : Code) : Decidable (w.RecvFails i code) :=
  inferInstanceAs (Decidable (_ ∨ _))

/-- The queues towards the server after a successful `Send` on stream `i`. -/
def requested (w : World) (i : ℕ) (req : Req) : ℕ → List Req :=
  update w.toServer i
    (if w.broken i = true ∨ w.handler i = .returned then w.toServer i else w.toServer i ++ [req])

/-- The queues towards the server after `CloseSend` on stream `i`, which does nothing on a stream
that is closed already. -/
def halfClosed (w : World) (i : ℕ) : ℕ → List Req :=
  if w.CanSend i then w.requested i .halfClose else w.toServer

def openStream (w : World) (own : Bool) (offsets : Offsets) : World :=
  { w with
    opened := w.opened + 1
    own := update w.own w.opened own
    toClient := update w.toClient w.opened []
    toServer := update w.toServer w.opened [.attach offsets]
    broken := update w.broken w.opened false
    serverDown := update w.serverDown w.opened false
    clientDown := update w.clientDown w.opened false
    sendClosed := update w.sendClosed w.opened false
    handler := update w.handler w.opened .idle
    pump := update w.pump w.opened fun _ => .off
    stop := update w.stop w.opened false
    input := update w.input w.opened .off
    received := update w.received w.opened [] }

/-- The client has received the first message of stream `i`. -/
def pop (w : World) (i : ℕ) : World :=
  { w with
    toClient := update w.toClient i (w.toClient i).tail
    received := update w.received i (w.received i ++ (w.toClient i).head?.toList) }

/-- The stream is up and is the command's current attachment. -/
def Healthy (w : World) (i : ℕ) : Prop := w.broken i = false ∧ w.cmd.currentIs i

instance (w : World) (i : ℕ) : Decidable (w.Healthy i) := inferInstanceAs (Decidable (_ ∧ _))

end World

inductive Remote
  /-- `AttachCommand`: the client attaches to a command somebody else started -/
  | connect (offsets : Offsets)
  /-- `RunCommand`: the first response is the start -/
  | recvStarted
  /-- `AttachCommand`: the first response is the attachment -/
  | recvFirstAttached (j : ℕ) (replay : Offsets)
  | connectFail (j : ℕ) (code : Code)
  | recvOutput (fd : Fd) (bs : List Byte)
  | recvExit (status : ℤ)
  /-- a straggling handshake message is ignored -/
  | recvStraggler (m : Resp)
  /-- `Recv` fails and the command can be resumed -/
  | recvFail (code : Code)
  /-- `Recv` fails and the command is gone, taken over or abandoned -/
  | recvGiveUp (code : Code)
  /-- the consumer has read the bytes -/
  | writeDone (fd : Fd) (bs : List Byte)
  /-- the pipe was torn down -/
  | writeFail (fd : Fd) (bs : List Byte)
  | ackSkip
  | ackSent
  | ackFailed
  /-- `reattach` opens a stream and sends the attach request -/
  | reattach
  /-- the consumer's context ends between attempts -/
  | giveUp
  | recvAttached (j : ℕ) (replay : Offsets)
  | handshakeFail (j : ℕ) (code : Code)
  | handshakeNotFound (j : ℕ)
  /-- the locked section of `setClient` -/
  | install (j : ℕ)
  | resyncSkip (win : ℤ × ℤ) (todo : List (Control × ℕ)) (stdinDone : Bool)
  | resyncSent (win : ℤ × ℤ) (todo : List (Control × ℕ)) (stdinDone : Bool)
  | resyncFailed (win : ℤ × ℤ) (todo : List (Control × ℕ)) (stdinDone : Bool)
  | flushSent (m : Control × ℕ) (todo failed : List (Control × ℕ)) (stdinDone : Bool)
  | flushFailed (m : Control × ℕ) (todo failed : List (Control × ℕ)) (stdinDone : Bool)
  | flushDone (failed : List (Control × ℕ)) (stdinDone : Bool)
  | requeue (failed : List (Control × ℕ)) (stdinDone : Bool)
  | replayClose
  | replaySkip
  /-- the consumer's context ends -/
  | cancel
  | stdinRead (bs : List Byte)
  | stdinEof
  | stdinGet (bs : List Byte)
  | stdinSent (bs : List Byte) (i : ℕ)
  | stdinFailed (bs : List Byte) (i : ℕ)
  | stdinSwapped (bs : List Byte) (i : ℕ)
  /-- `process` has returned -/
  | stdinFinished (bs : List Byte) (i : ℕ)
  | stdinMark
  | stdinFetch
  | stdinClose (i : ℕ)
  | call (request : Control)
  | callGet (k : ℕ)
  | callSent (k i : ℕ)
  | callFailed (k i : ℕ)
  /-- the stream is still the current one: the request is parked -/
  | callPark (k i : ℕ)
  /-- the stream was swapped: try again -/
  | callRetry (k i : ℕ)

/-- The size of the buffer of `pumpStdin`. -/
def stdinBufferSize : ℕ := 1024

/-- The window size a call of `NotifyWindowChange` leaves behind. -/
def Control.lastWin (win : ℤ × ℤ) : Control → ℤ × ℤ
  | .windowChange h w => (h, w)
  | _ => win

namespace Remote

def Enabled (w : World) : Remote → Prop
  | connect _ => w.client.pc = .absent
  | recvStarted => w.client.pc = .connecting 0 ∧ (w.toClient 0).head? = some .started
  | recvFirstAttached j r =>
    w.client.pc = .connecting j ∧ (w.toClient j).head? = some (.attached r)
  | connectFail j c => w.client.pc = .connecting j ∧ w.RecvFails j c
  | recvOutput fd bs =>
    w.client.pc = .recv ∧ (w.toClient w.client.runClient).head? = some (.output fd bs)
  | recvExit n =>
    w.client.pc = .recv ∧ (w.toClient w.client.runClient).head? = some (.exitStatus n)
  | recvStraggler m =>
    w.client.pc = .recv ∧ (w.toClient w.client.runClient).head? = some m ∧
      (m = .started ∨ ∃ r : Offsets, m = .attached r)
  | recvFail c =>
    w.client.pc = .recv ∧ w.RecvFails w.client.runClient c ∧
      w.client.ctxDone = false ∧ c ≠ .notFound ∧ c ≠ .aborted
  | recvGiveUp c =>
    w.client.pc = .recv ∧ w.RecvFails w.client.runClient c ∧
      (w.client.ctxDone = true ∨ c = .notFound ∨ c = .aborted)
  | writeDone fd bs => w.client.pc = .writing fd bs
  | writeFail fd bs => w.client.pc = .writing fd bs ∧ w.client.ctxDone = true
  | ackSkip =>
    w.client.pc = .acking ∧ w.client.total - w.client.lastAckedTotal < commandAckEveryBytes
  | ackSent =>
    w.client.pc = .acking ∧ commandAckEveryBytes ≤ w.client.total - w.client.lastAckedTotal ∧
      w.CanSend w.client.runClient
  | ackFailed =>
    w.client.pc = .acking ∧ commandAckEveryBytes ≤ w.client.total - w.client.lastAckedTotal ∧
      w.MayFail w.client.runClient
  | reattach => w.client.pc = .resuming ∧ w.client.ctxDone = false
  | giveUp => w.client.pc = .resuming ∧ w.client.ctxDone = true
  | recvAttached j r =>
    w.client.pc = .handshake j ∧ (w.toClient j).head? = some (.attached r)
  | handshakeFail j c => w.client.pc = .handshake j ∧ w.RecvFails j c ∧ c ≠ .notFound
  | handshakeNotFound j => w.client.pc = .handshake j ∧ w.RecvFails j .notFound
  | install j => w.client.pc = .installing j
  | resyncSkip win todo sd =>
    w.client.pc = .resyncing win todo sd ∧ ¬ (0 < win.1 ∧ 0 < win.2)
  | resyncSent win todo sd =>
    w.client.pc = .resyncing win todo sd ∧ 0 < win.1 ∧ 0 < win.2 ∧ w.CanSend w.client.runClient
  | resyncFailed win todo sd =>
    w.client.pc = .resyncing win todo sd ∧ 0 < win.1 ∧ 0 < win.2 ∧ w.MayFail w.client.runClient
  | flushSent m todo failed sd =>
    w.client.pc = .flushing (m :: todo) failed sd ∧ w.CanSend w.client.runClient
  | flushFailed m todo failed sd =>
    w.client.pc = .flushing (m :: todo) failed sd ∧ w.MayFail w.client.runClient
  | flushDone failed sd => w.client.pc = .flushing [] failed sd
  | requeue failed sd => w.client.pc = .requeueing failed sd
  | replayClose => w.client.pc = .replaying true
  | replaySkip => w.client.pc = .replaying false
  | cancel => w.client.ctxDone = false
  | stdinRead bs => w.stdinPump = .reading ∧ bs ≠ [] ∧ bs.length ≤ stdinBufferSize
  | stdinEof => w.stdinPump = .reading
  | stdinGet bs => w.stdinPump = .getting bs
  | stdinSent bs i => w.stdinPump = .sending bs i ∧ w.CanSend i
  | stdinFailed bs i => w.stdinPump = .sending bs i ∧ w.MayFail i
  | stdinSwapped bs i => w.stdinPump = .waiting bs i ∧ w.client.runClient ≠ i
  | stdinFinished bs i => w.stdinPump = .waiting bs i ∧ w.client.pc = .finished
  | stdinMark => w.stdinPump = .marking
  | stdinFetch => w.stdinPump = .fetching
  | stdinClose i => w.stdinPump = .closing i
  | call _ => w.stdinPump ≠ .off
  | callGet k => (w.calls k).pc = .getting
  | callSent k i => (w.calls k).pc = .sending i ∧ w.CanSend i
  | callFailed k i => (w.calls k).pc = .sending i ∧ w.MayFail i
  | callPark k i => (w.calls k).pc = .parking i ∧ w.client.runClient = i
  | callRetry k i => (w.calls k).pc = .parking i ∧ w.client.runClient ≠ i

instance (m : Resp) : Decidable (∃ r : Offsets, m = .attached r) :=
  match m with
  | .attached r => .isTrue ⟨r, rfl⟩
  | .started | .output _ _ | .exitStatus _ | .trailer _ => .isFalse fun ⟨_, h⟩ => nomatch h

instance (w : World) (e : Remote) : Decidable (e.Enabled w) := by
  cases e <;> dsimp only [Enabled] <;> infer_instance

/-- Move call `k`. -/
def setCall (w : World) (k : ℕ) (pc : CallPc) : ℕ → Call :=
  update w.calls k ⟨(w.calls k).request, pc⟩

/-- Call `k` returns `nil`, or its parked request is sent; noted are the client's stream, and whether
it is healthy and the process running. -/
def returnCall (w : World) (k : ℕ) : ℕ → Call :=
  setCall w k (.returned w.client.runClient
    (decide (w.Healthy w.client.runClient) && w.proc.running))

/-- The gap `noteReplayGap` reports, if any. -/
def replayGap (replayOffset seenOffset : ℕ) : List (ℕ × ℕ) :=
  if seenOffset < replayOffset then [(seenOffset, replayOffset)] else []

def fire (w : World) : Remote → World
  | connect o =>
    { w.openStream true o with client := { w.client with pc := .connecting w.opened } }
  | recvStarted =>
    { w.pop 0 with
      client := { w.client with
        pc := .recv, runClient := 0, offset := fun _ => 0, base := fun _ => 0 }
      stdinPump := .reading }
  | recvFirstAttached j r =>
    { w.pop j with
      client := { w.client with pc := .recv, runClient := j, offset := r, base := r }
      stdinPump := .reading }
  | connectFail j _ =>
    { w with
      clientDown := update w.clientDown j true
      client := { w.client with pc := .finished, done := some .failed } }
  | recvOutput fd bs =>
    { w.pop w.client.runClient with client := { w.client with pc := .writing fd bs } }
  | recvExit n =>
    { w.pop w.client.runClient with
      client := { w.client with pc := .finished, done := some (.exit n) } }
  | recvStraggler _ => w.pop w.client.runClient
  | recvFail _ =>
    { w with
      clientDown := update w.clientDown w.client.runClient true
      client := { w.client with pc := .resuming } }
  | recvGiveUp _ =>
    { w with
      clientDown := update w.clientDown w.client.runClient true
      client := { w.client with pc := .finished, done := some .failed } }
  | writeDone fd bs =>
    { w with client := { w.client with
        pc := .acking
        offset := update w.client.offset fd (w.client.offset fd + bs.length)
        delivered := update w.client.delivered fd (w.client.delivered fd ++ bs) } }
  | writeFail _ _ =>
    { w with client := { w.client with pc := .finished, done := some .failed } }
  | ackSkip => { w with client := { w.client with pc := .recv } }
  | ackSent =>
    { w with
      toServer := w.requested w.client.runClient (.ack (.of w.client.offset))
      client := { w.client with pc := .recv, lastAckedTotal := w.client.total } }
  | ackFailed => { w with client := { w.client with pc := .recv } }
  | reattach =>
    { w.openStream true (.of w.client.offset) with
      client := { w.client with pc := .handshake w.opened } }
  | giveUp => { w with client := { w.client with pc := .finished, done := some .failed } }
  | recvAttached j r =>
    { w.pop j with
      client := { w.client with
        pc := .installing j
        gaps := fun fd => w.client.gaps fd ++ replayGap (r fd) (w.client.offset fd)
        offset := fun fd => max (w.client.offset fd) (r fd) } }
  | handshakeFail j _ =>
    { w with
      clientDown := update w.clientDown j true
      client := { w.client with pc := .resuming } }
  | handshakeNotFound j =>
    { w with
      clientDown := update w.clientDown j true
      client := { w.client with pc := .finished, done := some .failed } }
  | install j =>
    { w with client := { w.client with
        pc := .resyncing w.client.win w.client.pending w.client.stdinDone
        runClient := j
        pending := [] } }
  | resyncSkip _ todo sd | resyncFailed _ todo sd =>
    { w with client := { w.client with pc := .flushing todo [] sd } }
  | resyncSent win todo sd =>
    { w with
      toServer := w.requested w.client.runClient (.control (.windowChange win.1 win.2) none)
      client := { w.client with pc := .flushing todo [] sd } }
  | flushSent m todo failed sd =>
    { w with
      toServer := w.requested w.client.runClient (.control m.1 (some m.2))
      client := { w.client with pc := .flushing todo failed sd }
      calls := returnCall w m.2 }
  | flushFailed m todo failed sd =>
    { w with client := { w.client with pc := .flushing todo (failed ++ [m]) sd } }
  | flushDone failed sd =>
    { w with client := { w.client with
        pc := if failed = [] then .replaying sd else .requeueing failed sd } }
  | requeue failed sd =>
    { w with client := { w.client with
        pc := .replaying sd
        pending := failed ++ w.client.pending } }
  | replayClose =>
    { w with
      toServer := w.halfClosed w.client.runClient
      sendClosed := update w.sendClosed w.client.runClient true
      client := { w.client with pc := .recv } }
  | replaySkip => { w with client := { w.client with pc := .recv } }
  | cancel => { w with client := { w.client with ctxDone := true } }
  | stdinRead bs => { w with stdinPump := .getting bs }
  | stdinEof => { w with stdinPump := .marking }
  | stdinGet bs => { w with stdinPump := .sending bs w.client.runClient }
  | stdinSent bs i => { w with toServer := w.requested i (.stdin bs), stdinPump := .reading }
  | stdinFailed bs i => { w with stdinPump := .waiting bs i }
  | stdinSwapped bs _ => { w with stdinPump := .getting bs }
  | stdinFinished _ _ => { w with stdinPump := .marking }
  | stdinMark =>
    { w with client := { w.client with stdinDone := true }, stdinPump := .fetching }
  | stdinFetch => { w with stdinPump := .closing w.client.runClient }
  | stdinClose i =>
    { w with
      toServer := w.halfClosed i
      sendClosed := update w.sendClosed i true
      stdinPump := .done }
  | call request =>
    { w with
      calls := update w.calls w.callCount ⟨request, .getting⟩
      callCount := w.callCount + 1
      client := { w.client with win := request.lastWin w.client.win } }
  | callGet k => { w with calls := setCall w k (.sending w.client.runClient) }
  | callSent k i =>
    { w with
      toServer := w.requested i (.control (w.calls k).request (some k))
      calls := returnCall w k }
  | callFailed k i => { w with calls := setCall w k (.parking i) }
  | callPark k _ =>
    { w with
      client := { w.client with
        pending := w.client.pending ++ [((w.calls k).request, k)] }
      calls := returnCall w k }
  | callRetry k _ => { w with calls := setCall w k .getting }

/-- A step of the client leaves the daemon's own state alone: only streams and the client move. -/
theorem fire_daemon (w : World) (e : Remote) :
    e.fire w = { e.fire w with
      proc := w.proc, cmd := w.cmd, drain := w.drain, reaper := w.reaper, done := w.done
      listed := w.listed, kills := w.kills, killCount := w.killCount, hist := w.hist
      removals := w.removals, handled := w.handled } := by
  cases e <;> rfl

end Remote

end Graft.Command
