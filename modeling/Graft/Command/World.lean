import Graft.Command.ManagedCommand
import Graft.Library.Machine

/-!
# The parties around one managed command

One command is watched over its whole life: the operating-system process, the goroutines of the
daemon that owns it, the streams on which clients are attached to it, and one resumable client
(`RemoteRunningCommand`).  This file has the program counters of all these threads, the messages
they exchange, and the state they share; the next files have their steps.

A stream is a pair of message queues.  A `Send` that returns `nil` has only queued its message;
when the transport breaks, any suffix of either queue is lost, and the two sides notice later, one
after the other.  Half-closing the client's side is a message that nothing can follow; the status a
handler returns is the last message of the other direction.

Program counters carry the local variables of their thread.  Nothing in the programs reads the
fields and arguments marked *ghost*.
-/

namespace Graft.Command

inductive Control
  | signal (sig : String)
  | envVar (key value : String)
  | windowChange (height width : ℤ)
  deriving DecidableEq

/-- `RunCommandRequest`, as far as it is sent on an attached stream, and the half-close. -/
inductive Req
  | attach (offsets : Offsets)
  | stdin (data : List Byte)
  /-- `call` (ghost): the client's call that made the request -/
  | control (c : Control) (call : Option ℕ)
  | ack (offsets : Offsets)
  | halfClose
  deriving DecidableEq

/-- The status of a finished stream, as far as a client tells them apart. -/
inductive Code
  | ok
  | notFound
  | aborted
  | unknown
  deriving DecidableEq

/-- `RunCommandResponse`, and the status that ends a stream. -/
inductive Resp
  | started
  | attached (replay : Offsets)
  | output (fd : Fd) (data : List Byte)
  | exitStatus (status : ℤ)
  | trailer (code : Code)
  deriving DecidableEq

/-! ### The process -/

/-- The process of a `LocalRunningCommand` and its file descriptors. -/
structure Proc where
  isPty : Bool
  running : Bool
  /-- what `Wait` reports once the process has exited -/
  status : ℤ
  waitErr : Bool
  /-- somebody (the process or a descendant that inherited it) holds the write end -/
  writeEnd : Fd → Bool
  /-- written and not yet read by the daemon -/
  pipe : Fd → List Byte
  /-- ghost: everything ever written -/
  written : Fd → List Byte
  /-- the daemon closed its read ends (`ForceCloseOutputs`) -/
  readersClosed : Bool
  /-- the bytes the process was given on its standard input -/
  stdin : List Byte
  stdinClosed : Bool
  /-- the signals sent to the process group -/
  signals : List String
  winsize : Option (ℤ × ℤ)

/-- `Stdin().Write`. -/
def Proc.writeStdin (p : Proc) (bs : List Byte) : Proc :=
  { p with stdin := if p.stdinClosed then p.stdin else p.stdin ++ bs }

/-- `Stdin().Close`: closing a pty from this side does nothing. -/
def Proc.closeStdin (p : Proc) : Proc := { p with stdinClosed := p.stdinClosed || !p.isPty }

def Proc.signal (p : Proc) (sig : String) : Proc := { p with signals := p.signals ++ [sig] }

/-- The effect of an out-of-band request: the environment of a started process cannot be changed,
and only a pty has a window size (of two 16-bit numbers). -/
def Proc.control (p : Proc) : Control → Proc
  | .signal sig => p.signal sig
  | .envVar _ _ => p
  | .windowChange h w =>
    { p with winsize := if p.isPty then some (h % 2 ^ 16, w % 2 ^ 16) else p.winsize }

/-! ### The daemon's goroutines -/

/-- `drainIntoRing`. -/
inductive DrainPc
  | reading
  /-- in `ring.Write`, with these bytes left -/
  | writing (rest : List Byte)
  /-- before the deferred `ring.Close` and `wg.Done` -/
  | closing
  | done
  deriving DecidableEq

/-- `waitAndReap`. -/
inductive ReapPc
  /-- in `cmd.Wait` -/
  | waiting
  /-- in the `select` on the drain and its grace -/
  | draining
  /-- after `ForceCloseOutputs`, before closing the ring -/
  | closing (fd : Fd)
  /-- in the second wait for the drain -/
  | awaiting
  /-- before `Release` and closing the rings -/
  | releasing
  /-- before the locked section that records the exit -/
  | recording
  /-- before `close(mc.done)` -/
  | signalling (forget : Bool)
  /-- before the registry is updated -/
  | forgetting (forget : Bool)
  | finished
  deriving DecidableEq

/-- `killGroupWithGrace`. -/
inductive KillPc
  | peek
  | term
  /-- in the `select` on `done` and the grace -/
  | grace
  | kill
  | finished
  deriving DecidableEq

inductive KillOrigin
  /-- a timer of `ClientGone` -/
  | disconnect (timer : ℕ)
  /-- `KillWithEscalation`, or the daemon shutting down -/
  | request
  deriving DecidableEq

/-- A goroutine running `killGroupWithGrace`. -/
structure Kill where
  origin : KillOrigin
  pc : KillPc

/-- The `RunCommand` handler of one stream: `runManagedLocalCommand` (from `starting`) or
`attachManagedCommand` (from `idle`), then `serveManagedCommand`. -/
inductive HandlerPc
  /-- waiting for its first request -/
  | idle
  /-- the command is registered, before `attach` -/
  | starting
  /-- before `Send(Started)` -/
  | greeting
  /-- found in the registry, before `attach` -/
  | attaching (offsets : Offsets)
  /-- before `AckOutput` -/
  | acking (offsets : Offsets)
  /-- before reading the stdout ring's `StartOffset` -/
  | replayOut (offsets : Offsets)
  /-- before reading the stderr ring's `StartOffset` -/
  | replayErr (offsets : Offsets) (stdoutOffset : ℕ)
  /-- before `Send(Attached)` -/
  | replying (replay : Offsets)
  /-- in `tailManagedCommandOutput` -/
  | tailing
  /-- waiting for `managed.Done()` -/
  | exiting
  /-- before `Send(ExitStatus)` -/
  | sendingExit (status : ℤ)
  /-- before `cmdRegistry.Remove` -/
  | removing (code : Code)
  /-- before the deferred `ClientGone` -/
  | leaving (code : Code)
  /-- before the status is sent -/
  | returning (code : Code)
  | returned
  deriving DecidableEq

/-- A pump of `tailManagedCommandOutput`, with its offset. -/
inductive PumpPc
  | off
  /-- in `ReadAt` -/
  | reading (offset : ℕ)
  /-- before sending the bytes read at the offset -/
  | sending (data : List Byte) (offset : ℕ)
  | finished (offset : ℕ)
  deriving DecidableEq

/-- `forwardManagedCommandInput`.  `late` (ghost): the item being handled was received when this
stream's attachment was no longer the current one. -/
inductive InputPc
  | off
  /-- in `Recv` -/
  | recv
  /-- before the `currentIs` check -/
  | holding (req : Req) (late : Bool)
  /-- before the effect of the request -/
  | applying (req : Req) (late : Bool)
  /-- in `CloseStdinFromClient`, before the policy check -/
  | eof (late : Bool)
  /-- in `CloseStdinFromClient`, before `Stdin().Close` -/
  | closing (late : Bool)
  | returned
  deriving DecidableEq

/-! ### The resumable client -/

/-- How `Wait` ends. -/
inductive Outcome
  | exit (status : ℤ)
  | failed
  deriving DecidableEq

/-- `process`, with `tryResume` and `setClient`. -/
inductive ClientPc
  /-- the client does not exist yet -/
  | absent
  /-- the first handshake, on this stream -/
  | connecting (stream : ℕ)
  /-- in `Recv` -/
  | recv
  /-- in the pipe write, until the consumer has read the bytes -/
  | writing (fd : Fd) (data : List Byte)
  /-- in `maybeAck` -/
  | acking
  /-- in `tryResume`, between attempts -/
  | resuming
  /-- in `reattach`, on this stream -/
  | handshake (stream : ℕ)
  /-- before the locked section of `setClient` -/
  | installing (stream : ℕ)
  /-- in `setClient`, before the window size is sent -/
  | resyncing (win : ℤ × ℤ) (todo : List (Control × ℕ)) (stdinDone : Bool)
  /-- in `setClient`, before the next queued request is sent -/
  | flushing (todo failed : List (Control × ℕ)) (stdinDone : Bool)
  /-- in `setClient`, before the failed requests are queued again -/
  | requeueing (failed : List (Control × ℕ)) (stdinDone : Bool)
  /-- in `setClient`, before the half-close is replayed -/
  | replaying (stdinDone : Bool)
  | finished
  deriving DecidableEq

/-- `pumpStdin`. -/
inductive StdinPc
  /-- the client does not exist yet -/
  | off
  | reading
  /-- before `currentClient` -/
  | getting (data : List Byte)
  /-- before the send on the stream it got -/
  | sending (data : List Byte) (stream : ℕ)
  /-- waiting until that stream is swapped -/
  | waiting (data : List Byte) (stream : ℕ)
  /-- in the deferred `closeSend`, before `stdinDone` is set -/
  | marking
  /-- in `closeSend`, before `currentClient` -/
  | fetching
  /-- in `closeSend`, before `CloseSend` on the stream it got -/
  | closing (stream : ℕ)
  | done
  deriving DecidableEq

/-- `sendOOB`. -/
inductive CallPc
  | idle
  /-- before `currentClient` -/
  | getting
  /-- before the send on the stream it got -/
  | sending (stream : ℕ)
  /-- before the request is parked -/
  | parking (stream : ℕ)
  /-- returned `nil`; ghost: the client's stream at that moment, or when the parked request was sent
  later, and whether it was healthy and the process running -/
  | returned (stream : ℕ) (healthy : Bool)
  deriving DecidableEq

/-- A call of `Signal`, `SetEnvVar` or `NotifyWindowChange`. -/
structure Call where
  request : Control
  pc : CallPc

/-- `RemoteRunningCommand` and its `process` goroutine. -/
structure Client where
  pc : ClientPc
  /-- the stream in use -/
  runClient : ℕ
  /-- `stdoutOffset` and `stderrOffset` -/
  offset : Fd → ℕ
  lastAckedTotal : ℕ
  /-- parked requests, with their calls -/
  pending : List (Control × ℕ)
  stdinDone : Bool
  /-- `lastWinH`, `lastWinW` -/
  win : ℤ × ℤ
  /-- the consumer's context has ended -/
  ctxDone : Bool
  /-- what `Wait` returns -/
  done : Option Outcome
  /-- ghost: the bytes the consumer has read -/
  delivered : Fd → List Byte
  /-- ghost: the offset of the first byte that was offered -/
  base : Fd → ℕ
  /-- ghost: the intervals `noteReplayGap` reported -/
  gaps : Fd → List (ℕ × ℕ)

/-- `total` of `maybeAck`. -/
def Client.total (c : Client) : ℕ := c.offset .stdout + c.offset .stderr

def commandAckEveryBytes : ℕ := 128 * 2 ^ 10

/-! ### The whole state -/

inductive Removal
  /-- `serveManagedCommand` on this stream, with the status it then returns -/
  | served (stream : ℕ) (code : Code)
  /-- `waitAndReap`: nobody was attached -/
  | forgotten
  /-- a `KillCommand` of an exited command, or `ReapExited` -/
  | discarded
  deriving DecidableEq

/-- Everything around one command.  Streams, calls and kills are numbered as they appear. -/
structure World where
  proc : Proc
  cmd : ManagedCommand
  drain : Fd → DrainPc
  reaper : ReapPc
  /-- `mc.done` is closed -/
  done : Bool
  /-- the command is in the registry -/
  listed : Bool
  kills : ℕ → Kill
  killCount : ℕ
  /-- ghost: the bytes each ring has accepted -/
  hist : Fd → List Byte
  /-- ghost -/
  removals : List Removal
  /-- ghost: the requests handed to the command, with their calls -/
  handled : List (Control × ℕ)
  /-- the number of streams -/
  opened : ℕ
  /-- the client's end of the stream belongs to the resumable client -/
  own : ℕ → Bool
  toClient : ℕ → List Resp
  toServer : ℕ → List Req
  broken : ℕ → Bool
  /-- the stream's context has ended on the server -/
  serverDown : ℕ → Bool
  /-- the client has seen the stream fail -/
  clientDown : ℕ → Bool
  /-- the client half-closed the stream -/
  sendClosed : ℕ → Bool
  handler : ℕ → HandlerPc
  pump : ℕ → Fd → PumpPc
  /-- the `stop` channel is closed -/
  stop : ℕ → Bool
  input : ℕ → InputPc
  /-- ghost: the offsets of the attach request the handler received -/
  asked : ℕ → Offsets
  /-- ghost: everything its client has received on the stream -/
  received : ℕ → List Resp
  client : Client
  stdinPump : StdinPc
  calls : ℕ → Call
  callCount : ℕ

structure Start where
  spec : ManagedCommandSpec
  isPty : Bool
  /-- stdout and stderr are one stream -/
  combined : Bool
  /-- the stream that started it belongs to the resumable client -/
  byClient : Bool

/-- A piped command as `runManagedLocalCommand` registers it for the resumable client, with the
default ring capacities. -/
def Start.piped (p : Persistence) : Start :=
  ⟨⟨p, fun _ => 0, zero_capacity_lt⟩, false, false, true⟩

/-- The state after `Register`: the first stream is about to attach. -/
def World.init (s : Start) : World where
  proc :=
    { isPty := s.isPty, running := true, status := 0, waitErr := false
      writeEnd := fun fd => !(fd = .stderr && s.combined)
      pipe := fun _ => [], written := fun _ => [], readersClosed := false
      stdin := [], stdinClosed := false, signals := [], winsize := none }
  cmd := .register s.spec s.combined
  drain fd := if fd = .stderr ∧ s.combined then .done else .reading
  reaper := .waiting
  done := false
  listed := true
  kills _ := ⟨.request, .finished⟩
  killCount := 0
  hist _ := []
  removals := []
  handled := []
  opened := 1
  own i := i = 0 && s.byClient
  toClient _ := []
  toServer _ := []
  broken _ := false
  serverDown _ := false
  clientDown _ := false
  sendClosed _ := false
  handler i := if i = 0 then .starting else .idle
  pump _ _ := .off
  stop _ := false
  input _ := .off
  asked _ := ⟨0, 0⟩
  received _ := []
  client :=
    { pc := if s.byClient then .connecting 0 else .absent
      runClient := 0, offset := fun _ => 0, lastAckedTotal := 0, pending := [], stdinDone := false
      win := (0, 0), ctxDone := false, done := none, delivered := fun _ => [], base := fun _ => 0
      gaps := fun _ => [] }
  stdinPump := .off
  calls _ := ⟨.signal "", .idle⟩
  callCount := 0

end Graft.Command
