import Graft.Command.World

/-!
# Serving one stream (`pkg/server_grpc_command.go`)

The steps of the goroutines that serve one `RunCommand` stream: the handler
(`runManagedLocalCommand` or `attachManagedCommand`, then `serveManagedCommand`), its two output
pumps (`tailManagedCommandOutput`), the watcher that closes `stop`, and the input loop
(`forwardManagedCommandInput`).

A `Send` succeeds as long as the stream's context is alive; its message is queued unless the
transport has already broken.  It may fail once the transport has broken.
-/

namespace Graft.Command

open Function (update update_of_ne)

/-- The queues towards the clients after a successful `Send` on stream `i`. -/
def World.sent (w : World) (i : ℕ) (m : Resp) : ℕ → List Resp :=
  update w.toClient i (if w.broken i then w.toClient i else w.toClient i ++ [m])

inductive Serve
  /-- `attach` on the start path -/
  | attachStart
  | greetSent
  | greetFailed
  /-- the first request is an attach and the command is found -/
  | lookup (offsets : Offsets)
  | lookupMissing (offsets : Offsets)
  /-- the first request is something else, or never comes -/
  | refuse
  | attach (offsets : Offsets)
  | ackOutput (offsets : Offsets)
  | replayOut (offsets : Offsets)
  | replayErr (offsets : Offsets) (stdoutOffset : ℕ)
  | replySent (replay : Offsets)
  | replyFailed (replay : Offsets)
  /-- the watcher closes `stop` -/
  | watch
  | pumpRead (fd : Fd) (o : ℕ) (bs : List Byte)
  /-- `ReadAt` returns data from a later offset -/
  | pumpGap (fd : Fd) (o : ℕ) (bs : List Byte) (got : ℕ)
  | pumpEof (fd : Fd) (o : ℕ) (got : ℕ)
  /-- `ReadAt` is canceled -/
  | pumpStop (fd : Fd) (o : ℕ)
  | pumpSent (fd : Fd) (o : ℕ) (bs : List Byte)
  | pumpSendFailed (fd : Fd) (o : ℕ) (bs : List Byte)
  /-- both pumps returned, `stop` is closed -/
  | joinStopped (o o' : ℕ)
  /-- both pumps returned, `stop` is open -/
  | joinEof (o o' : ℕ)
  /-- `ExitStatus` reports that waiting failed -/
  | exitError
  | exitRead
  | exitSent (status : ℤ)
  | exitSendFailed (status : ℤ)
  | remove (code : Code)
  /-- the deferred `closeStop` and `ClientGone` -/
  | leave (code : Code)
  | ret (code : Code)
  | inRecv (req : Req)
  | inEof
  | inErr
  | inCheck (req : Req) (late : Bool)
  | inStdin (bs : List Byte) (late : Bool)
  | inControl (c : Control) (call : Option ℕ) (late : Bool)
  | inAck (offsets : Offsets) (late : Bool)
  /-- a request without a case in the `switch` -/
  | inAttach (offsets : Offsets) (late : Bool)
  /-- the policy check of `CloseStdinFromClient` -/
  | inPolicy (late : Bool)
  | inClose (late : Bool)

def Req.isAttach : Req → Bool
  | .attach _ => true
  | _ => false

/-- Where an attach asking for `offset` starts on this ring. -/
def replayOffset (r : OutputRing) (offset : ℕ) : ℕ := max offset r.startOffset

namespace Serve

/-- Whether stream `i` can take the step. -/
def Enabled (w : World) (i : ℕ) : Serve → Prop
  | attachStart => w.handler i = .starting
  | greetSent => w.handler i = .greeting ∧ w.serverDown i = false
  | greetFailed => w.handler i = .greeting ∧ w.broken i = true
  | lookup o =>
    i < w.opened ∧ w.handler i = .idle ∧ (w.toServer i).head? = some (.attach o) ∧
      w.listed = true
  | lookupMissing o =>
    i < w.opened ∧ w.handler i = .idle ∧ (w.toServer i).head? = some (.attach o) ∧
      w.listed = false
  | refuse =>
    i < w.opened ∧ w.handler i = .idle ∧ (w.toServer i).head?.all (!·.isAttach) = true ∧
      (w.broken i = true ∨ w.toServer i ≠ [])
  | attach o => w.handler i = .attaching o
  | ackOutput o => w.handler i = .acking o
  | replayOut o => w.handler i = .replayOut o
  | replayErr o out => w.handler i = .replayErr o out
  | replySent r => w.handler i = .replying r ∧ w.serverDown i = false
  | replyFailed r => w.handler i = .replying r ∧ w.broken i = true
  | watch => w.input i ≠ .off ∧ (w.serverDown i = true ∨ i ∈ w.cmd.canceled)
  | pumpRead fd o bs => w.pump i fd = .reading o ∧ (w.cmd.rings fd).readAt o = .data bs o
  | pumpGap fd o bs got =>
    w.pump i fd = .reading o ∧ (w.cmd.rings fd).readAt o = .data bs got ∧ got ≠ o
  | pumpEof fd o got => w.pump i fd = .reading o ∧ (w.cmd.rings fd).readAt o = .eof got
  | pumpStop fd o =>
    w.pump i fd = .reading o ∧ (w.cmd.rings fd).readAt o = .wait ∧ w.stop i = true
  | pumpSent fd o bs => w.pump i fd = .sending bs o ∧ w.serverDown i = false
  | pumpSendFailed fd o bs => w.pump i fd = .sending bs o ∧ w.broken i = true
  | joinStopped o o' =>
    w.handler i = .tailing ∧ w.pump i .stdout = .finished o ∧ w.pump i .stderr = .finished o' ∧
      w.stop i = true
  | joinEof o o' =>
    w.handler i = .tailing ∧ w.pump i .stdout = .finished o ∧ w.pump i .stderr = .finished o' ∧
      w.stop i = false
  | exitError => w.handler i = .exiting ∧ w.done = true ∧ w.cmd.exitErr = true
  | exitRead => w.handler i = .exiting ∧ w.done = true ∧ w.cmd.exitErr = false
  | exitSent n => w.handler i = .sendingExit n ∧ w.serverDown i = false
  | exitSendFailed n => w.handler i = .sendingExit n ∧ w.broken i = true
  | remove c => w.handler i = .removing c
  | leave c => w.handler i = .leaving c
  | ret c => w.handler i = .returning c
  | inRecv req =>
    w.input i = .recv ∧ (w.toServer i).head? = some req ∧ req ≠ .halfClose
  | inEof => w.input i = .recv ∧ (w.toServer i).head? = some .halfClose
  | inErr => w.input i = .recv ∧ (w.serverDown i = true ∨ w.broken i = true ∧ w.toServer i = [])
  | inCheck req late => w.input i = .holding req late
  | inStdin bs late => w.input i = .applying (.stdin bs) late
  | inControl c call late => w.input i = .applying (.control c call) late
  | inAck o late => w.input i = .applying (.ack o) late
  | inAttach o late => w.input i = .applying (.attach o) late
  | inPolicy late => w.input i = .eof late
  | inClose late => w.input i = .closing late

instance (w : World) (i : ℕ) (e : Serve) : Decidable (e.Enabled w i) := by
  cases e <;> dsimp only [Enabled] <;> infer_instance

/-- The handler of stream `i` enters `serveManagedCommand` and starts its goroutines. -/
def serveFrom (w : World) (i : ℕ) (m : Resp) (start : Offsets) : World :=
  { w with
    toClient := w.sent i m
    handler := update w.handler i .tailing
    pump := update w.pump i fun fd => .reading (start fd)
    input := update w.input i .recv }

/-- Move a pump of stream `i`. -/
def setPump (w : World) (i : ℕ) (fd : Fd) (pc : PumpPc) : ℕ → Fd → PumpPc :=
  update w.pump i (update (w.pump i) fd pc)

/-- The state after the step of stream `i`. -/
def fire (w : World) (i : ℕ) : Serve → World
  | attachStart => { w with cmd := w.cmd.attach i, handler := update w.handler i .greeting }
  | greetSent => serveFrom w i .started ⟨0, 0⟩
  | greetFailed =>
    { w with cmd := w.cmd.clientGone i, handler := update w.handler i (.returning .unknown) }
  | lookup o =>
    { w with
      toServer := update w.toServer i (w.toServer i).tail
      asked := update w.asked i o
      handler := update w.handler i (.attaching o) }
  | lookupMissing o =>
    { w with
      toServer := update w.toServer i (w.toServer i).tail
      asked := update w.asked i o
      handler := update w.handler i (.returning .notFound) }
  | refuse => { w with handler := update w.handler i (.returning .unknown) }
  | attach o => { w with cmd := w.cmd.attach i, handler := update w.handler i (.acking o) }
  | ackOutput o =>
    { w with cmd := w.cmd.ackOutput o, handler := update w.handler i (.replayOut o) }
  | replayOut o =>
    { w with
      handler := update w.handler i
        (.replayErr o (replayOffset (w.cmd.rings .stdout) o.stdout)) }
  | replayErr o out =>
    { w with
      handler := update w.handler i
        (.replying ⟨out, replayOffset (w.cmd.rings .stderr) o.stderr⟩) }
  | replySent r => serveFrom w i (.attached r) r
  | replyFailed _ =>
    { w with cmd := w.cmd.clientGone i, handler := update w.handler i (.returning .unknown) }
  | watch => { w with stop := update w.stop i true }
  | pumpRead fd o bs => { w with pump := setPump w i fd (.sending bs o) }
  | pumpGap fd o _ _ =>
    { w with pump := setPump w i fd (.finished o), stop := update w.stop i true }
  | pumpEof fd o _ => { w with pump := setPump w i fd (.finished o) }
  | pumpStop fd o => { w with pump := setPump w i fd (.finished o) }
  | pumpSent fd o bs =>
    { w with
      toClient := w.sent i (.output fd bs)
      pump := setPump w i fd (.reading (o + bs.length)) }
  | pumpSendFailed fd o _ =>
    { w with pump := setPump w i fd (.finished o), stop := update w.stop i true }
  | joinStopped _ _ =>
    { w with
      handler := update w.handler i
        (.leaving (if i ∈ w.cmd.canceled then .aborted else .unknown)) }
  | joinEof _ _ => { w with handler := update w.handler i .exiting }
  | exitError => { w with handler := update w.handler i (.removing .unknown) }
  | exitRead => { w with handler := update w.handler i (.sendingExit w.cmd.exitStatus) }
  | exitSent n =>
    { w with
      toClient := w.sent i (.exitStatus n)
      handler := update w.handler i (.removing .ok) }
  | exitSendFailed _ => { w with handler := update w.handler i (.leaving .unknown) }
  | remove c =>
    { w with
      listed := false
      removals := w.removals ++ [.served i c]
      handler := update w.handler i (.leaving c) }
  | leave c =>
    { w with
      cmd := w.cmd.clientGone i
      stop := update w.stop i true
      handler := update w.handler i (.returning c) }
  | ret c =>
    { w with
      toClient := w.sent i (.trailer c)
      serverDown := update w.serverDown i true
      handler := update w.handler i .returned }
  | inRecv req =>
    { w with
      toServer := update w.toServer i (w.toServer i).tail
      input := update w.input i (.holding req (!decide (w.cmd.currentIs i))) }
  | inEof =>
    { w with
      toServer := update w.toServer i (w.toServer i).tail
      input := update w.input i (.eof (!decide (w.cmd.currentIs i))) }
  | inErr => { w with stop := update w.stop i true, input := update w.input i .returned }
  | inCheck req late =>
    { w with
      input := update w.input i (if w.cmd.currentIs i then .applying req late else .returned) }
  | inStdin bs _ => { w with proc := w.proc.writeStdin bs, input := update w.input i .recv }
  | inControl c call _ =>
    { w with
      proc := w.proc.control c
      handled := w.handled ++ (call.map fun k => (c, k)).toList
      input := update w.input i .recv }
  | inAck o _ => { w with cmd := w.cmd.ackOutput o, input := update w.input i .recv }
  | inAttach _ _ => { w with input := update w.input i .recv }
  | inPolicy late =>
    { w with
      input := update w.input i
        (if w.cmd.persistence = .kill then .closing late else .returned) }
  | inClose _ => { w with proc := w.proc.closeStdin, input := update w.input i .returned }

/-! ### What the steps of a stream leave alone -/

@[simp] theorem fire_hist (w : World) (i : ℕ) (e : Serve) : (e.fire w i).hist = w.hist := by
  cases e <;> rfl

@[simp] theorem fire_broken (w : World) (i : ℕ) (e : Serve) :
    (e.fire w i).broken = w.broken := by
  cases e <;> rfl

@[simp] theorem fire_received (w : World) (i : ℕ) (e : Serve) :
    (e.fire w i).received = w.received := by
  cases e <;> rfl

@[simp] theorem fire_client (w : World) (i : ℕ) (e : Serve) :
    (e.fire w i).client = w.client := by
  cases e <;> rfl

@[simp] theorem fire_clientDown (w : World) (i : ℕ) (e : Serve) :
    (e.fire w i).clientDown = w.clientDown := by
  cases e <;> rfl

def sends : Serve → List Resp
  | .greetSent => [.started]
  | .replySent r => [.attached r]
  | .pumpSent fd _ bs => [.output fd bs]
  | .exitSent n => [.exitStatus n]
  | .ret c => [.trailer c]
  | _ => []

theorem fire_toClient_self (w : World) (i : ℕ) (e : Serve) :
    (e.fire w i).toClient i = w.toClient i ++ if w.broken i then [] else e.sends := by
  have hsent : ∀ m, w.sent i m i = w.toClient i ++ if w.broken i then [] else [m] := by
    intro m
    unfold World.sent
    grind
  cases e with
  | greetSent | replySent | pumpSent | exitSent | ret => exact hsent _
  | _ => simp [fire, sends]

section Frame

variable {w : World} {i j : ℕ} (e : Serve) (h : j ≠ i)
include h

theorem fire_handler_of_ne : (e.fire w i).handler j = w.handler j := by
  cases e <;> first | rfl | exact update_of_ne h ..

theorem fire_pump_of_ne : (e.fire w i).pump j = w.pump j := by
  cases e <;> first | rfl | exact update_of_ne h ..

theorem fire_stop_of_ne : (e.fire w i).stop j = w.stop j := by
  cases e <;> first | rfl | exact update_of_ne h ..

theorem fire_input_of_ne : (e.fire w i).input j = w.input j := by
  cases e <;> first | rfl | exact update_of_ne h ..

theorem fire_toClient_of_ne : (e.fire w i).toClient j = w.toClient j := by
  cases e <;> first | rfl | exact update_of_ne h ..

theorem fire_toServer_of_ne : (e.fire w i).toServer j = w.toServer j := by
  cases e <;> first | rfl | exact update_of_ne h ..

end Frame

end Serve

/-! ### The phases of a handler -/

/-- The handler has entered `serveManagedCommand`, or is past it. -/
def HandlerPc.served : HandlerPc → Bool
  | .tailing | .exiting | .sendingExit _ | .removing _ | .leaving _ | .returning _ | .returned =>
    true
  | _ => false

/-- The handler is inside `serveManagedCommand`. -/
def HandlerPc.serving : HandlerPc → Bool
  | .tailing | .exiting | .sendingExit _ | .removing _ | .leaving _ => true
  | _ => false

theorem Serve.served_mono {w : World} {i : ℕ} {e : Serve} (he : e.Enabled w i)
    (hs : (w.handler i).served = true) : ((e.fire w i).handler i).served = true := by
  cases e with
  | attachStart | attach | ackOutput | replayOut | replayErr =>
    grind [HandlerPc.served, Enabled]
  | greetSent | replySent | joinEof | exitError | exitRead | exitSent =>
    simp [Serve.fire, Serve.serveFrom, HandlerPc.served]
  | lookup =>
    rw [he.2.1] at hs
    exact absurd hs (by simp [HandlerPc.served])
  | greetFailed | lookupMissing | refuse | replyFailed | joinStopped | exitSendFailed | remove |
      leave | ret =>
    simp [Serve.fire, HandlerPc.served]
  | _ => exact hs

end Graft.Command
