import Graft.Command.World

/-!
# The process and the goroutines that own it

The steps of the process (`write`, `closeOutput`, `exit`), of the drainers (`drainIntoRing`), of
the reaper (`waitAndReap`), of the disconnect timer and the kill goroutines
(`killGroupWithGrace`), and the requests of other parties that act on the command directly
(`DetachCommand`, `KillCommand`, `ReapExited`).

An event is one critical section, channel operation or system call.  It carries what the thread
finds there; `Host.Enabled` says that it finds it, `Host.fire` is the state afterwards.
-/

namespace Graft.Command

open Function (update)

/-- Steps on the daemon's side that belong to no stream. -/
inductive Host
  /-- the process, or a descendant that inherited its output, writes -/
  | write (fd : Fd) (bs : List Byte)
  /-- the last holder of the write end closes it -/
  | closeOutput (fd : Fd)
  | exit (status : ℤ) (waitErr : Bool)
  /-- `reader.Read` returns the next `n` bytes -/
  | drainRead (fd : Fd) (n : ℕ)
  /-- `reader.Read` fails: end of file, or the reader was closed -/
  | drainEof (fd : Fd)
  /-- a pass of `ring.Write` that accepts bytes -/
  | drainWrite (fd : Fd) (p : List Byte) (r : OutputRing) (rest : List Byte)
  /-- `ring.Write` fails -/
  | drainFail (fd : Fd) (p : List Byte)
  /-- the deferred `ring.Close` and `wg.Done` -/
  | drainClose (fd : Fd)
  /-- `cmd.Wait` returns -/
  | reapWait
  /-- the drain ends -/
  | reapDrained
  /-- the drain grace expires: `ForceCloseOutputs` -/
  | reapGrace
  | reapCloseRing (fd : Fd)
  /-- the drain ends after the forced close -/
  | reapAwaited
  | reapRelease
  | reapRecord
  | reapSignal (forget : Bool)
  | reapForget (forget : Bool)
  /-- a disconnect timer fires and starts its goroutine -/
  | timer (t : ℕ)
  /-- `KillWithEscalation` -/
  | killRequest
  | killPeek (k : ℕ)
  | killTerm (k : ℕ)
  | killDone (k : ℕ)
  | killGrace (k : ℕ)
  | killKill (k : ℕ)
  /-- `DetachCommand` -/
  | detach
  /-- `KillCommand` without escalation -/
  | signal (sig : String)
  /-- `KillCommand` of an exited command, or `ReapExited` -/
  | discard

/-- The size of the buffer of `drainIntoRing`. -/
def drainBufferSize : ℕ := 4096

def signalTerminate : String := "SIGTERM"

def signalKill : String := "SIGKILL"

/-- The next ring the reaper closes, or the state after the last one. -/
def ReapPc.afterClose : Fd → ReapPc
  | .stdout => .closing .stderr
  | .stderr => .awaiting

namespace Host

def Enabled (w : World) : Host → Prop
  | write fd _ => w.proc.writeEnd fd = true ∧ w.proc.readersClosed = false
  | closeOutput fd => w.proc.writeEnd fd = true
  | exit _ _ => w.proc.running = true
  | drainRead fd n =>
    w.drain fd = .reading ∧ w.proc.readersClosed = false ∧ 0 < n ∧ n ≤ drainBufferSize ∧
      n ≤ (w.proc.pipe fd).length
  | drainEof fd =>
    w.drain fd = .reading ∧
      (w.proc.readersClosed = true ∨ w.proc.pipe fd = [] ∧ w.proc.writeEnd fd = false)
  | drainWrite fd p r rest => w.drain fd = .writing p ∧ (w.cmd.rings fd).write p = .wrote r rest
  | drainFail fd p => w.drain fd = .writing p ∧ (w.cmd.rings fd).write p = .failed
  | drainClose fd => w.drain fd = .closing
  | reapWait => w.reaper = .waiting ∧ w.proc.running = false
  | reapDrained => w.reaper = .draining ∧ w.drain .stdout = .done ∧ w.drain .stderr = .done
  | reapGrace => w.reaper = .draining
  | reapCloseRing fd => w.reaper = .closing fd
  | reapAwaited => w.reaper = .awaiting ∧ w.drain .stdout = .done ∧ w.drain .stderr = .done
  | reapRelease => w.reaper = .releasing
  | reapRecord => w.reaper = .recording
  | reapSignal forget => w.reaper = .signalling forget
  | reapForget forget => w.reaper = .forgetting forget
  | timer t => t ∈ w.cmd.armed
  | killRequest => True
  | killPeek k => (w.kills k).pc = .peek
  | killTerm k => (w.kills k).pc = .term
  | killDone k => (w.kills k).pc = .grace ∧ w.done = true
  | killGrace k => (w.kills k).pc = .grace
  | killKill k => (w.kills k).pc = .kill
  | detach => True
  | signal _ => w.cmd.exited = false
  | discard => w.cmd.exited = true

instance (w : World) (e : Host) : Decidable (e.Enabled w) := by
  cases e <;> dsimp only [Enabled] <;> infer_instance

/-- Move the goroutine `k` to another place. -/
def setKill (w : World) (k : ℕ) (pc : KillPc) : ℕ → Kill :=
  update w.kills k ⟨(w.kills k).origin, pc⟩

def fire (w : World) : Host → World
  | write fd bs =>
    { w with proc := { w.proc with
        pipe := update w.proc.pipe fd (w.proc.pipe fd ++ bs)
        written := update w.proc.written fd (w.proc.written fd ++ bs) } }
  | closeOutput fd =>
    { w with proc := { w.proc with writeEnd := update w.proc.writeEnd fd false } }
  | exit status waitErr =>
    { w with proc := { w.proc with running := false, status := status, waitErr := waitErr } }
  | drainRead fd n =>
    { w with
      proc := { w.proc with pipe := update w.proc.pipe fd ((w.proc.pipe fd).drop n) }
      drain := update w.drain fd (.writing ((w.proc.pipe fd).take n)) }
  | drainEof fd => { w with drain := update w.drain fd .closing }
  | drainWrite fd p r rest =>
    { w with
      cmd := w.cmd.mapRing fd fun _ => r
      hist := update w.hist fd (w.hist fd ++ p.take (p.length - rest.length))
      drain := update w.drain fd (if rest = [] then .reading else .writing rest) }
  | drainFail fd _ => { w with drain := update w.drain fd .closing }
  | drainClose fd =>
    { w with cmd := w.cmd.mapRing fd .close, drain := update w.drain fd .done }
  | reapWait => { w with reaper := .draining }
  | reapDrained => { w with reaper := .releasing }
  | reapGrace =>
    { w with proc := { w.proc with readersClosed := true }, reaper := .closing .stdout }
  | reapCloseRing fd => { w with cmd := w.cmd.mapRing fd .close, reaper := .afterClose fd }
  | reapAwaited => { w with reaper := .releasing }
  | reapRelease =>
    { w with cmd := (w.cmd.mapRing .stdout .close).mapRing .stderr .close, reaper := .recording }
  | reapRecord =>
    { w with
      cmd := w.cmd.recordExit w.proc.status w.proc.waitErr
      reaper := .signalling w.cmd.forget }
  | reapSignal forget => { w with done := true, reaper := .forgetting forget }
  | reapForget forget =>
    { w with
      listed := w.listed && !forget
      removals := if forget then w.removals ++ [.forgotten] else w.removals
      reaper := .finished }
  | timer t =>
    { w with
      cmd := w.cmd.fireTimer t
      kills := update w.kills w.killCount ⟨.disconnect t, .peek⟩
      killCount := w.killCount + 1 }
  | killRequest =>
    { w with
      kills := update w.kills w.killCount ⟨.request, .peek⟩
      killCount := w.killCount + 1 }
  | killPeek k => { w with kills := setKill w k (if w.cmd.exited then .finished else .term) }
  | killTerm k => { w with proc := w.proc.signal signalTerminate, kills := setKill w k .grace }
  | killDone k => { w with kills := setKill w k .finished }
  | killGrace k => { w with kills := setKill w k .kill }
  | killKill k => { w with proc := w.proc.signal signalKill, kills := setKill w k .finished }
  | detach => { w with cmd := w.cmd.detachAndKeep }
  | signal sig => { w with proc := w.proc.signal sig }
  | discard => { w with listed := false, removals := w.removals ++ [.discarded] }

end Host

end Graft.Command
