import Graft.Command.Requests
import Graft.Command.Resume

/-!
# Delivering the exit status

When a command has exited and its output is drained, the reaper records the exit.  The stream that
serves the command at that moment sends the rest of the output and then the exit status, and
removes the command from the registry; so does every stream that attaches later.
-/

namespace Graft.Command

open Function (update update_self update_of_ne)

variable {w w' : World} {i : ℕ} {e : Event}

/-! ### What the reaper has recorded -/

def ReapPc.released : ReapPc → Bool
  | .recording | .signalling _ | .forgetting _ | .finished => true
  | _ => false

def ReapPc.recorded : ReapPc → Bool
  | .signalling _ | .forgetting _ | .finished => true
  | _ => false

structure ReapInv (w : World) : Prop where
  exited : w.cmd.exited = w.reaper.recorded
  status : w.cmd.exited = true →
    w.cmd.exitStatus = w.proc.status ∧ w.cmd.exitErr = w.proc.waitErr
  running : w.reaper ≠ .waiting → w.proc.running = false
  done : w.done = true → w.cmd.exited = true
  closed : w.reaper.released = true → ∀ fd, (w.cmd.rings fd).closed = true
  /-- a command that is not in the registry was removed -/
  listed : w.listed = true ∨ w.removals ≠ []
  forgotten : .forgotten ∈ w.removals → w.reaper = .finished

theorem ReapInv.init (s : Start) : ReapInv (.init s) :=
  ⟨rfl, nofun, fun h => absurd rfl h, nofun, nofun,
    .inl rfl, nofun⟩

theorem ReapInv.mono (h : ReapInv w) (hg : Grows w w')
    (he : w'.cmd.exited = w.cmd.exited ∧ w'.cmd.exitStatus = w.cmd.exitStatus ∧
      w'.cmd.exitErr = w.cmd.exitErr)
    (hp : w'.proc.status = w.proc.status ∧ w'.proc.waitErr = w.proc.waitErr ∧
      w'.proc.running = w.proc.running) (hr : w'.reaper = w.reaper) (hd : w'.done = w.done)
    (hl : w'.listed = true ∨ w'.removals ≠ [])
    (hf : .forgotten ∈ w'.removals → .forgotten ∈ w.removals) : ReapInv w' := by
  obtain ⟨he1, he2, he3⟩ := he
  obtain ⟨hp1, hp2, hp3⟩ := hp
  refine ⟨by rw [he1, hr]; exact h.exited, ?_, by rw [hr, hp3]; exact h.running,
    by rw [hd, he1]; exact h.done, fun hx fd => ?_, hl, fun hx => hr.trans (h.forgotten (hf hx))⟩
  · simp_all [status]
  · exact ((hg fd).closed (h.closed (hr ▸ hx) fd)).1

theorem ReapInv.step_host {e : Host} (h : ReapInv w) (he : e.Enabled w) : ReapInv (e.fire w) := by
  have hg : Grows w (e.fire w) := Event.grows (e := .host e) he
  have hno : ∀ {pc}, w.reaper = pc → pc ≠ .finished → .forgotten ∉ w.removals :=
    fun h1 h2 hx => h2 (h1.symm.trans (h.forgotten hx))
  have hexited : ∀ {pc b}, w.reaper = pc → pc.recorded = b → w.cmd.exited = b :=
    fun h1 h2 => h.exited.trans (h1 ▸ h2)
  cases e with
  | exit status waitErr =>
    -- the process exits before the reaper has seen it
    have hrun : w.proc.running = true := he
    have hwait : w.reaper = .waiting := by
      grind [running]
    have hex : w.cmd.exited = false := hexited hwait rfl
    exact ⟨h.exited, fun hx => absurd hx (by simp [Host.fire, hex]), fun _ => rfl, h.done, h.closed,
      h.listed, h.forgotten⟩
  | reapWait =>
    exact ⟨hexited he.1 rfl, h.status, fun _ => he.2, h.done, (fun hx => by cases hx), h.listed,
      fun hx => absurd hx (hno he.1 (by simp))⟩
  | reapDrained | reapAwaited =>
    exact ⟨hexited he.1 rfl, h.status, fun _ => h.running (by simp [he.1]), h.done,
      (fun hx => by cases hx), h.listed, fun hx => absurd hx (hno he.1 (by simp))⟩
  | reapGrace =>
    have hr : w.reaper = .draining := he
    exact ⟨hexited hr rfl, h.status, fun _ => h.running (by simp [hr]), h.done,
      (fun hx => by cases hx), h.listed, fun hx => absurd hx (hno hr (by simp))⟩
  | reapCloseRing fd =>
    have hr : w.reaper = .closing fd := he
    have hex : w.cmd.exited = false := hexited hr rfl
    refine ⟨?_, fun hx => ?_, fun _ => h.running (by simp [hr]), h.done, fun hx => ?_, h.listed,
      fun hx => absurd hx (hno hr (by simp))⟩
    · cases fd <;> exact hex
    · exact h.status hx
    · cases fd <;> cases hx
  | reapRelease =>
    have hr : w.reaper = .releasing := he
    refine ⟨hexited hr rfl, h.status, fun _ => h.running (by simp [hr]), h.done, fun _ fd => ?_,
      h.listed, fun hx => absurd hx (hno hr (by simp))⟩
    cases fd <;> rfl
  | reapRecord =>
    have hr : w.reaper = .recording := he
    exact ⟨rfl, fun _ => ⟨rfl, rfl⟩, fun _ => h.running (by simp [hr]), fun _ => rfl,
      fun _ => h.closed (by rw [hr]; rfl), h.listed, fun hx => absurd hx (hno hr (by simp))⟩
  | reapSignal forget =>
    have hr : w.reaper = .signalling forget := he
    exact ⟨hexited hr rfl, h.status, fun _ => h.running (by simp [hr]), fun _ => hexited hr rfl,
      fun _ => h.closed (by rw [hr]; rfl), h.listed, fun hx => absurd hx (hno hr (by simp))⟩
  | reapForget forget =>
    have hr : w.reaper = .forgetting forget := he
    refine ⟨hexited hr rfl, h.status, fun _ => h.running (by simp [hr]), h.done,
      fun _ => h.closed (by rw [hr]; rfl), ?_, fun _ => rfl⟩
    cases forget with
    | true => exact .inr (by simp [Host.fire])
    | false => simpa [Host.fire] using h.listed
  | discard =>
    exact h.mono hg ⟨rfl, rfl, rfl⟩ ⟨rfl, rfl, rfl⟩ rfl rfl (.inr (by simp [Host.fire]))
      (by simp [Host.fire])
  | _ => exact h.mono hg ⟨rfl, rfl, rfl⟩ ⟨rfl, rfl, rfl⟩ rfl rfl h.listed id

theorem ReapInv.step (h : ReapInv w) (he : e.Enabled w) : ReapInv (e.fire w) := by
  have hg := Event.grows he
  cases e with
  | host e => exact h.step_host he
  | serve i e =>
    cases e with
    | remove =>
      exact h.mono hg ⟨rfl, rfl, rfl⟩ ⟨rfl, rfl, rfl⟩ rfl rfl
        (.inr (by simp [Event.fire, Serve.fire])) (by simp [Event.fire, Serve.fire])
    | greetFailed | replyFailed | leave =>
      exact h.mono hg (w.cmd.clientGone_record i) ⟨rfl, rfl, rfl⟩ rfl rfl h.listed id
    | inControl c => cases c <;> exact h.mono hg ⟨rfl, rfl, rfl⟩ ⟨rfl, rfl, rfl⟩ rfl rfl h.listed id
    | _ => exact h.mono hg ⟨rfl, rfl, rfl⟩ ⟨rfl, rfl, rfl⟩ rfl rfl h.listed id
  | remote e =>
    rw [Event.fire, e.fire_daemon]
    exact ⟨h.exited, h.status, h.running, h.done, h.closed, h.listed, h.forgotten⟩
  | _ => exact h.mono hg ⟨rfl, rfl, rfl⟩ ⟨rfl, rfl, rfl⟩ rfl rfl h.listed id

theorem ReapInv.stable (h : ReapInv w) (he : e.Enabled w) (hd : w.done = true) :
    (e.fire w).done = true ∧ (e.fire w).cmd.exitStatus = w.cmd.exitStatus := by
  have hrec : w.reaper.recorded = true := h.exited.symm.trans (h.done hd)
  cases e with
  | host e =>
    cases e with
    | reapRecord => simp [show w.reaper = _ from he, ReapPc.recorded] at hrec
    | reapSignal => exact ⟨rfl, rfl⟩
    | _ => exact ⟨hd, rfl⟩
  | serve i e =>
    cases e with
    | greetFailed | replyFailed | leave => exact ⟨hd, (w.cmd.clientGone_record i).2.1⟩
    | _ => exact ⟨hd, rfl⟩
  | remote e =>
    rw [Event.fire, e.fire_daemon]
    exact ⟨hd, rfl⟩
  | _ => exact ⟨hd, rfl⟩

/-! ### What a stream says about the exit -/

/-- The handler has left `tailManagedCommandOutput`, or never entered it. -/
def HandlerPc.joined : HandlerPc → Bool
  | .exiting | .sendingExit _ | .removing _ | .leaving _ | .returning _ | .returned => true
  | _ => false

def PumpPc.idle : PumpPc → Bool
  | .off | .finished _ => true
  | _ => false

structure EndInv (w : World) (i : ℕ) : Prop where
  /-- the status being sent is the recorded one -/
  sending : ∀ n, w.handler i = .sendingExit n → w.done = true ∧ n = w.cmd.exitStatus
  sent : ∀ n, .exitStatus n ∈ w.received i ++ w.toClient i →
    w.done = true ∧ n = w.cmd.exitStatus
  unserved : (w.handler i).served = false → w.stop i = false
  pumping : (w.handler i).serving = true → ∀ fd, w.pump i fd ≠ .off
  joined : (w.handler i).joined = true → ∀ fd, (w.pump i fd).idle = true
  trailer : ∀ c, .trailer c ∈ w.received i ++ w.toClient i → w.handler i = .returned
  /-- nothing follows a refusal -/
  refused : ∀ c q, w.received i ++ w.toClient i = .trailer c :: q → q = []

theorem EndInv.new (h : NewStream w i) : EndInv w i := by
  constructor <;>
    simp [h.handler, h.stop, h.received, h.toClient, HandlerPc.serving, HandlerPc.joined]

theorem EndInv.mono (h : EndInv w i) (hr : ReapInv w)
    (he : e.Enabled w) (hu : Untouched w (e.fire w) i) : EndInv (e.fire w) i := by
  have hsub : (e.fire w).received i ++ (e.fire w).toClient i ⊆ w.received i ++ w.toClient i := by
    grind [Untouched.messages]
  have hstable : ∀ {n}, w.done = true ∧ n = w.cmd.exitStatus →
      (e.fire w).done = true ∧ n = (e.fire w).cmd.exitStatus := by
    rintro n ⟨hd, rfl⟩
    exact ⟨(hr.stable he hd).1, (hr.stable he hd).2.symm⟩
  refine ⟨fun n hn => hstable (h.sending n (hu.handler ▸ hn)), fun n hn => hstable (h.sent n (hsub hn)),
    ?_, ?_, ?_, fun c hc => hu.handler.trans (h.trailer c (hsub hc)), fun c q hq => ?_⟩
  · rw [hu.handler, hu.stop]
    exact h.unserved
  · rw [hu.handler, hu.pump]
    exact h.pumping
  · rw [hu.handler, hu.pump]
    exact h.joined
  · rcases hu.messages with hm | ⟨-, t, hm⟩
    · exact h.refused c q (hm ▸ hq)
    grind [refused, List.append_eq_nil_iff]

section Own

variable {w : World} {i : ℕ} {e : Serve}

namespace EndInv

variable (h : EndInv w i) (he : e.Enabled w i)
include h he

theorem own_sending {n : ℤ} (hn : (e.fire w i).handler i = .sendingExit n) :
    w.done = true ∧ n = w.cmd.exitStatus := by
  cases e with
  | exitRead =>
    simp_all [Serve.Enabled, Serve.fire]
  | greetSent | replySent => simp [Serve.fire, Serve.serveFrom] at hn
  | attachStart | greetFailed | lookup | lookupMissing | refuse | attach | ackOutput | replayOut
  | replayErr | replyFailed | joinStopped | joinEof | exitError | exitSent | exitSendFailed
  | remove | leave | ret => simp [Serve.fire] at hn
  | _ => exact h.sending n hn

theorem own_unserved (hs : StreamInv w i) (hq : RequestInv w i)
    (hx : ((e.fire w i).handler i).served = false) : (e.fire w i).stop i = false := by
  have hserved : (w.handler i).served = false := by
    grind [Serve.served_mono]
  have hoff : w.input i = .off := by
    grind [RequestInv.served]
  cases e with
  | watch => exact absurd hoff he.1
  | inErr => exact absurd (hoff.symm.trans he.1) (by simp)
  | pumpGap fd | pumpSendFailed fd =>
    exact absurd ((hs.pumpOff hserved fd).symm.trans he.1) (by simp)
  | leave => simp [Serve.fire, HandlerPc.served] at hx
  | _ => exact h.unserved hserved

theorem own_pumping (hx : ((e.fire w i).handler i).serving = true) (fd : Fd) :
    (e.fire w i).pump i fd ≠ .off := by
  have hgo : ∀ {pc}, w.handler i = pc → pc.serving = true → w.pump i fd ≠ .off :=
    fun h1 h2 => h.pumping (h1 ▸ h2) fd
  cases e with
  | greetSent | replySent => simp [Serve.fire, Serve.serveFrom]
  | pumpRead fd' | pumpGap fd' | pumpEof fd' | pumpStop fd' | pumpSent fd' | pumpSendFailed fd' =>
    simp only [Serve.fire, setPump_self]
    grind [Serve.fire]
  | joinStopped | joinEof | exitError | exitRead | exitSent | exitSendFailed => exact hgo he.1 rfl
  | remove => exact hgo he rfl
  | attachStart | greetFailed | lookup | lookupMissing | refuse | attach | ackOutput | replayOut
  | replayErr | replyFailed | leave | ret => simp [Serve.fire, HandlerPc.serving] at hx
  | _ => exact h.pumping hx fd

theorem own_joined (hs : StreamInv w i) (hx : ((e.fire w i).handler i).joined = true) (fd : Fd) :
    ((e.fire w i).pump i fd).idle = true := by
  have hgo : ∀ {pc}, w.handler i = pc → pc.joined = true → (w.pump i fd).idle = true :=
    fun h1 h2 => h.joined (h1 ▸ h2) fd
  have hnew : ∀ {pc}, w.handler i = pc → pc.served = false → (w.pump i fd).idle = true :=
    fun h1 h2 => by rw [hs.pumpOff (h1 ▸ h2) fd]; rfl
  have hpump : ∀ {fd' pc}, w.pump i fd' = pc → pc.idle = false → (w.handler i).joined = false := by
    grind [joined]
  cases e with
  | joinStopped o o' | joinEof o o' =>
    cases fd
    · simp [Serve.fire, he.2.1, PumpPc.idle]
    · simp [Serve.fire, he.2.2.1, PumpPc.idle]
  | exitError | exitRead | exitSent | exitSendFailed => exact hgo he.1 rfl
  | remove | leave | ret => exact hgo he rfl
  | greetFailed | replyFailed => exact hnew he.1 rfl
  | lookupMissing | refuse => exact hnew he.2.1 rfl
  | greetSent | replySent => simp [Serve.fire, Serve.serveFrom, HandlerPc.joined] at hx
  | attachStart | lookup | attach | ackOutput | replayOut | replayErr =>
    simp [Serve.fire, HandlerPc.joined] at hx
  | pumpRead | pumpGap | pumpEof | pumpStop | pumpSent | pumpSendFailed =>
    exact absurd hx (by simp [Serve.fire, hpump he.1 rfl])
  | _ => exact h.joined hx fd

theorem own_silent (hx : w.handler i = .returned) : e.sends = [] := by
  have hidle : ∀ fd, (w.pump i fd).idle = true := h.joined (by rw [hx]; rfl)
  cases e with
  | greetSent | replySent | exitSent => exact absurd (hx.symm.trans he.1) (by simp)
  | ret => exact absurd (hx.symm.trans he) (by simp)
  | pumpSent fd => exact absurd (he.1 ▸ hidle fd) (by simp [PumpPc.idle])
  | _ => rfl

end EndInv

theorem EndInv.own (h : EndInv w i) (hr : ReapInv w) (hs : StreamInv w i) (hq : RequestInv w i)
    (he : e.Enabled w i) : EndInv (e.fire w i) i := by
  have hstable : ∀ {n}, w.done = true ∧ n = w.cmd.exitStatus →
      (e.fire w i).done = true ∧ n = (e.fire w i).cmd.exitStatus := by
    rintro n ⟨hd, rfl⟩
    have hst := hr.stable (e := .serve i e) he hd
    exact ⟨hst.1, hst.2.symm⟩
  have hT : (e.fire w i).received i ++ (e.fire w i).toClient i =
      w.received i ++ w.toClient i ++ if w.broken i then [] else e.sends := by
    rw [Serve.fire_received, Serve.fire_toClient_self, List.append_assoc]
  refine ⟨fun n hn => hstable (h.own_sending he hn), fun n hn => ?_, h.own_unserved he hs hq,
    h.own_pumping he, h.own_joined he hs, fun c hc => ?_, fun c q hx => ?_⟩
  · rw [hT] at hn
    rcases List.mem_append.1 hn with hn | hn
    · exact hstable (h.sent n hn)
    · cases e with
      | exitSent m =>
        split_ifs at hn
        · simp at hn
        · cases List.mem_singleton.1 hn
          exact hstable (h.sending n he.1)
      | _ => split_ifs at hn <;> simp [Serve.sends] at hn
  · rw [hT] at hc
    rcases List.mem_append.1 hc with hc | hc
    · exact Serve.returned_step he (h.trailer c hc)
    · split_ifs at hc
      · cases hc
      · exact Serve.returned_of_trailer hc
  · rw [hT] at hx
    cases hold : w.received i ++ w.toClient i with
    | nil =>
      rw [hold, List.nil_append] at hx
      split_ifs at hx
      cases e <;> simp_all [Serve.sends]
    | cons m t =>
      rw [hold, List.cons_append, List.cons.injEq] at hx
      obtain ⟨rfl, rfl⟩ := hx
      have hret := h.trailer c (by rw [hold]; exact List.mem_cons_self)
      rw [h.refused c t hold, h.own_silent he hret]
      simp

end Own

theorem EndInv.step (h : EndInv w i) (hr : ReapInv w)
    (hs : StreamInv w i) (hq : RequestInv w i) (he : e.Enabled w) : EndInv (e.fire w) i := by
  cases e.streamStep w i with
  | own f hf =>
    subst hf
    exact h.own hr hs hq he
  | other hu => exact h.mono hr he hu
  | opens hn => exact .new hn

structure ExitsInv (w : World) : Prop where
  served : Served w
  requests : RequestsInv w
  reap : ReapInv w
  ends : ∀ i, EndInv w i

theorem ExitsInv.init (s : Start) : ExitsInv (.init s) := by
  refine ⟨.init s, .init s, .init s, fun i => ?_⟩
  constructor <;> by_cases hi : i = 0 <;>
    simp [World.init, hi, HandlerPc.serving, HandlerPc.joined, HandlerPc.served]

theorem ExitsInv.step (h : ExitsInv w) (he : e.Enabled w) : ExitsInv (e.fire w) :=
  ⟨h.served.step he, h.requests.step he, h.reap.step he,
    fun i => (h.ends i).step h.reap (h.served.2 i) (h.requests.stream i) he⟩

theorem Reaches.exitsInv {s : Start} {ok : World → Event → Prop}
    (h : Reaches s ok w) : ExitsInv w :=
  h.invariant (.init s) fun _ _ h he _ => h.step he

/-- **What precedes an exit status**: a greeting, and then all the output from the greeting's
offsets to the end. -/
theorem ExitsInv.transcript {n : ℤ} (h : ExitsInv w)
    (hn : .exitStatus n ∈ w.received i ++ w.toClient i) :
    w.cmd.exited = true ∧ n = w.proc.status ∧ ∃ m r q, w.received i ++ w.toClient i = m :: q ∧
      m.IsGreeting r ∧ (m = .attached r → ∀ fd, Fits (w.cmd.rings fd) (w.asked i fd) (r fd)) ∧
      ∀ fd, (w.cmd.rings fd).closed = true ∧ dataOf fd q = (w.hist fd).drop (r fd) := by
  obtain ⟨hdone, hstatus⟩ := (h.ends i).sent n hn
  have hexited := h.reap.done hdone
  refine ⟨hexited, hstatus.trans (h.reap.status hexited).1, ?_⟩
  have hs := h.served.2 i
  have ht := hs.transcript
  generalize hT : w.received i ++ w.toClient i = T at ht hn
  cases ht with
  | silent => simp at hn
  | refused c q => simp [(h.ends i).refused c q hT] at hn
  | @greeted m r q hm hq =>
    have hg : m.IsGreeting r := by
      cases hm with
      | started hr => exact .inl ⟨rfl, hr⟩
      | attached => exact .inr rfl
    have hexit : HasExit q := by
      grind [HasExit, Resp.IsGreeting]
    refine ⟨m, r, q, rfl, hg, (hs.script hT hg).2, fun fd => ?_⟩
    obtain ⟨o, ho, hc, hl⟩ := hs.seenEnd (.inr (hT ▸ ⟨n, hn⟩)) fd
    have hpos := hq.upTo (.inr hexit) fd
    rw [ho, PumpPc.pos] at hpos
    exact ⟨hc, (hq.reads fd).eq_drop (by omega)⟩

/-! ### A stream is served to its end -/

def OwnRun (i : ℕ) : World → World → Prop := system.Run fun _ e => ∃ f, e = .serve i f

theorem OwnRun.refl (i : ℕ) (w : World) : OwnRun i w w := Machine.Run.refl

theorem OwnRun.then (h : OwnRun i w w') (e : Serve)
    (he : e.Enabled w' i) : OwnRun i w (e.fire w' i) := by
  have hstep : system.enabled w' (.serve i e) := he
  exact Machine.Run.step h hstep ⟨e, rfl⟩

theorem OwnRun.trans {w w' w'' : World} (h : OwnRun i w w') (h' : OwnRun i w' w'') :
    OwnRun i w w'' := Machine.Run.trans h h'

theorem OwnRun.exitsInv (h : OwnRun i w w') (hw : ExitsInv w) :
    ExitsInv w' := Machine.Run.invariant hw (fun _ _ h he _ => h.step he) h

/-- A pump of stream `i` has ended, after sending these messages. -/
def World.pumped (w : World) (i : ℕ) (fd : Fd) (ms : List Resp) (o : ℕ) : World :=
  { w with
    toClient := update w.toClient i (w.toClient i ++ ms)
    pump := Serve.setPump w i fd (.finished o) }

def PumpPc.next : PumpPc → ℕ
  | .off => 0
  | .reading o | .finished o => o
  | .sending bs o => o + bs.length

section Pump

variable {w : World} {i : ℕ} {fd : Fd}

theorem pump_ends {o : ℕ} (hp : w.pump i fd = .reading o) (hc : (w.cmd.rings fd).closed = true)
    (hs : (w.cmd.rings fd).start ≤ o) (he : (w.cmd.rings fd).endOffset ≤ o) :
    OwnRun i w (w.pumped i fd [] o) := by
  have hread : (w.cmd.rings fd).readAt o = .eof o := by
    simp only [OutputRing.readAt, max_eq_left hs, if_neg he.not_gt, hc, if_true]
  convert (OwnRun.refl i w).then (.pumpEof fd o o) ⟨hp, hread⟩ using 1
  simp [World.pumped, Serve.fire]

theorem pump_reads {o : ℕ} (hp : w.pump i fd = .reading o) (hc : (w.cmd.rings fd).closed = true)
    (hs : (w.cmd.rings fd).start ≤ o) (hb : w.broken i = false) (hd : w.serverDown i = false) :
    ∃ ms o', OwnRun i w (w.pumped i fd ms o') := by
  by_cases he : (w.cmd.rings fd).endOffset ≤ o
  · exact ⟨[], o, pump_ends hp hc hs he⟩
  · obtain ⟨bs, hbs⟩ : ∃ bs, bs = (w.cmd.rings fd).buf.drop (o - (w.cmd.rings fd).start) := ⟨_, rfl⟩
    have hlen : o + bs.length = (w.cmd.rings fd).endOffset := by
      grind [OutputRing.endOffset]
    have hread : (w.cmd.rings fd).readAt o = .data bs o := by
      simp only [OutputRing.readAt, max_eq_left hs, if_pos (not_le.1 he), hbs]
    have h1 := (OwnRun.refl i w).then (.pumpRead fd o bs) ⟨hp, hread⟩
    have h2 := h1.then (.pumpSent fd o bs) ⟨by simp [Serve.fire, Serve.setPump], hd⟩
    have h3 := h2.trans (pump_ends (o := o + bs.length) (by simp [Serve.fire, Serve.setPump]) hc
      (hs.trans (Nat.le_add_right _ _)) hlen.ge)
    refine ⟨[.output fd bs], o + bs.length, ?_⟩
    convert h3 using 1
    simp [World.pumped, Serve.fire, World.sent, Serve.setPump, hb]

/-- **A pump of a healthy stream comes to its end** when the ring is closed. -/
theorem pump_completes (hon : w.pump i fd ≠ .off) (hc : (w.cmd.rings fd).closed = true)
    (hs : (w.cmd.rings fd).start ≤ (w.pump i fd).next) (hb : w.broken i = false)
    (hd : w.serverDown i = false) : ∃ ms o, OwnRun i w (w.pumped i fd ms o) := by
  cases hp : w.pump i fd with
  | off => exact absurd hp hon
  | reading o => exact pump_reads hp hc (by simpa [hp, PumpPc.next] using hs) hb hd
  | sending bs o =>
    have h1 := (OwnRun.refl i w).then (.pumpSent fd o bs) ⟨hp, hd⟩
    have hp' : (Serve.fire w i (.pumpSent fd o bs)).pump i fd = .reading (o + bs.length) := by
      simp [Serve.fire, Serve.setPump]
    rw [hp, PumpPc.next] at hs
    obtain ⟨ms, o', h2⟩ := pump_reads hp' hc hs hb hd
    refine ⟨.output fd bs :: ms, o', ?_⟩
    convert h1.trans h2 using 1
    simp [World.pumped, Serve.fire, World.sent, Serve.setPump, hb]
  | finished o =>
    refine ⟨[], o, ?_⟩
    convert OwnRun.refl i w using 1
    simp [World.pumped, Serve.setPump, ← hp]

end Pump

/-- Stream `i` serves the command, which has exited: its transport is up, it was not stopped, and
its pumps are not outrun. -/
structure Serving (w : World) (i : ℕ) : Prop where
  handler : w.handler i = .tailing
  stop : w.stop i = false
  broken : w.broken i = false
  done : w.done = true
  noErr : w.cmd.exitErr = false
  pumps : ∀ fd, (w.cmd.rings fd).start ≤ (w.pump i fd).next

theorem ExitsInv.serverUp (h : ExitsInv w) (hb : w.broken i = false)
    (hr : w.handler i ≠ .returned) : w.serverDown i = false := by
  by_contra hx
  rcases (h.requests.stream i).serverDown (by simpa using hx) with hg | hg
  · exact absurd hg (by simp [hb])
  · exact hr hg

theorem ExitsInv.rings_closed (h : ExitsInv w) (hd : w.done = true) (fd : Fd) :
    (w.cmd.rings fd).closed = true := by
  refine h.reap.closed ?_ fd
  have hrec : w.reaper.recorded = true := h.reap.exited.symm.trans (h.reap.done hd)
  cases hr : w.reaper <;> simp_all [ReapPc.recorded, ReapPc.released]

/-- On the stream `i`, the exit status follows the messages `T`, with output in between; the
transport is up and the output is still the same. -/
def ToldExit (w : World) (i : ℕ) (T : List Resp) (w' : World) : Prop :=
  (∃ q, w'.received i ++ w'.toClient i = T ++ q ++ [.exitStatus w.cmd.exitStatus]) ∧
    w'.broken i = false ∧ w'.hist = w.hist ∧ w'.proc.status = w.proc.status

theorem joined_sends_exit {i o o' : ℕ} (hh : w.handler i = .tailing)
    (h1 : w.pump i .stdout = .finished o) (h2 : w.pump i .stderr = .finished o')
    (hstop : w.stop i = false) (hb : w.broken i = false) (hs : w.serverDown i = false)
    (hd : w.done = true) (hn : w.cmd.exitErr = false) :
    ∃ w', OwnRun i w w' ∧ ToldExit w i (w.received i ++ w.toClient i) w' := by
  have r1 := (OwnRun.refl i w).then (.joinEof o o') ⟨hh, h1, h2, hstop⟩
  have r2 := r1.then .exitRead ⟨by simp [Serve.fire], hd, hn⟩
  have r3 := r2.then (.exitSent w.cmd.exitStatus) ⟨by simp [Serve.fire], hs⟩
  refine ⟨_, r3, ⟨[], ?_⟩, hb, rfl, rfl⟩
  simp [Serve.fire, World.sent, hb]

/-- **A stream that serves an exited command comes to send the exit status**, by itself. -/
theorem Serving.sends_exit (h : Serving w i) (hw : ExitsInv w) :
    ∃ w', OwnRun i w w' ∧ ToldExit w i (w.received i ++ w.toClient i) w' := by
  have hclosed := hw.rings_closed h.done
  have hon := (hw.ends i).pumping (by rw [h.handler]; rfl)
  have hdown := hw.serverUp h.broken (by rw [h.handler]; simp)
  obtain ⟨ms, o, r1⟩ := pump_completes (hon .stdout) (hclosed _) (h.pumps _) h.broken hdown
  obtain ⟨ms', o', r2⟩ : ∃ ms' o', OwnRun i (w.pumped i .stdout ms o)
      ((w.pumped i .stdout ms o).pumped i .stderr ms' o') := by
    refine pump_completes ?_ (hclosed _) ?_ h.broken hdown
    · simpa [World.pumped, Serve.setPump] using hon .stderr
    · simpa [World.pumped, Serve.setPump] using h.pumps .stderr
  obtain ⟨w', r3, ⟨q, hq⟩, hend⟩ := joined_sends_exit
    (w := (w.pumped i .stdout ms o).pumped i .stderr ms' o') (o := o) (i := i) h.handler
    (by simp [World.pumped, Serve.setPump]) (by simp [World.pumped, Serve.setPump]; rfl) h.stop
    h.broken hdown h.done h.noErr
  refine ⟨w', (r1.trans r2).trans r3, ⟨ms ++ ms' ++ q, hq.trans ?_⟩, hend⟩
  simp [World.pumped]

/-- An attach request for the offsets `o` has arrived on the new stream `i`. -/
structure Arriving (w : World) (i : ℕ) (o : Offsets) : Prop where
  opened : i < w.opened
  handler : w.handler i = .idle
  request : (w.toServer i).head? = some (.attach o)
  broken : w.broken i = false

/-- Where the output starts for a client that asks for the offsets `o`. -/
def World.replay (w : World) (o : Offsets) : Offsets :=
  ⟨replayOffset (w.cmd.rings .stdout) o.stdout, replayOffset (w.cmd.rings .stderr) o.stderr⟩

theorem ExitsInv.idle_silent (h : ExitsInv w) (hi : w.handler i = .idle) :
    w.received i ++ w.toClient i = [] := by
  have ht := (h.served.2 i).transcript
  generalize hT : w.received i ++ w.toClient i = T at ht
  cases ht with
  | silent => rfl
  | refused c q =>
    grind [EndInv.trailer, ends]
  | greeted _ hs => exact absurd hs.served (by simp [hi, HandlerPc.served])

/-- A stream that attaches to an exited command in the registry finds it and comes to serve it. -/
theorem Arriving.attaches {o : Offsets} (h : Arriving w i o)
    (hw : ExitsInv w) (hl : w.listed = true) (hd : w.done = true) (hn : w.cmd.exitErr = false) :
    ∃ v, OwnRun i w v ∧ Serving v i ∧ v.received i ++ v.toClient i = [.attached (w.replay o)] ∧
      v.cmd.exitStatus = w.cmd.exitStatus ∧ v.hist = w.hist ∧ v.proc.status = w.proc.status := by
  have hdown := hw.serverUp h.broken (by rw [h.handler]; simp)
  have hstop : w.stop i = false := (hw.ends i).unserved (by rw [h.handler]; rfl)
  obtain ⟨hrec, hto⟩ := List.append_eq_nil_iff.1 (hw.idle_silent h.handler)
  have r1 := (OwnRun.refl i w).then (.lookup o) ⟨h.opened, h.handler, h.request, hl⟩
  have r2 := r1.then (.attach o) (by simp [Serve.Enabled, Serve.fire])
  have r3 := r2.then (.ackOutput o) (by simp [Serve.Enabled, Serve.fire])
  have r4 := r3.then (.replayOut o) (by simp [Serve.Enabled, Serve.fire])
  have r5 := r4.then (.replayErr o (w.replay o).stdout) (by simp [Serve.Enabled, Serve.fire]; rfl)
  have r6 := r5.then (.replySent (w.replay o)) ⟨by simp [Serve.fire]; rfl, hdown⟩
  refine ⟨_, r6, ⟨?_, hstop, h.broken, hd, hn, fun fd => ?_⟩, ?_, rfl, rfl, rfl⟩
  · simp [Serve.fire, Serve.serveFrom]
  · have hp : (w.cmd.rings fd).start ≤ w.replay o fd := by cases fd <;> exact le_max_right _ _
    simp only [Serve.fire, Serve.serveFrom, update_self, PumpPc.next]
    exact hp
  · simp [Serve.fire, Serve.serveFrom, World.sent, h.broken, hrec, hto]

/-- **A stream that attaches to an exited command in the registry finds it and comes to send the
exit status.** -/
theorem Arriving.sends_exit {o : Offsets} (h : Arriving w i o)
    (hw : ExitsInv w) (hl : w.listed = true) (hd : w.done = true) (hn : w.cmd.exitErr = false) :
    ∃ w', OwnRun i w w' ∧ ToldExit w i [.attached (w.replay o)] w' := by
  obtain ⟨v, r1, hv, hT, he, hh, hs⟩ := h.attaches hw hl hd hn
  obtain ⟨w', r2, htold⟩ := hv.sends_exit (r1.exitsInv hw)
  refine ⟨w', r1.trans r2, ?_⟩
  grind [ToldExit]

theorem ToldExit.complete {m : Resp} {r : Offsets} {T : List Resp}
    (h : ToldExit w i (m :: T) w') (hw' : ExitsInv w') (hm : m.IsGreeting r) :
    ∃ q, w'.received i ++ w'.toClient i = m :: q ++ [.exitStatus w.proc.status] ∧
      ∀ fd, dataOf fd q = (w.hist fd).drop (r fd) := by
  obtain ⟨⟨q, hq⟩, -, hhist, hst⟩ := h
  have hn : .exitStatus w.cmd.exitStatus ∈ w'.received i ++ w'.toClient i := by
    rw [hq]
    simp
  obtain ⟨-, hstatus, m', r', q', hT, hm', -, hdata⟩ := hw'.transcript hn
  rw [hq, List.append_assoc, List.cons_append, List.cons.injEq] at hT
  obtain ⟨rfl, rfl⟩ := hT
  have hr : r' = r := by
    rcases hm with ⟨h1, h2⟩ | h1 <;> rcases hm' with ⟨h3, h4⟩ | h3 <;> simp_all
  subst hr
  refine ⟨T ++ q, by rw [hq, hstatus, hst]; simp, fun fd => ?_⟩
  have := (hdata fd).2
  rw [← List.append_assoc, dataOf_append, dataOf_singleton,
    show (Resp.exitStatus w.cmd.exitStatus).dataFor fd = [] from rfl, List.append_nil, hhist] at this
  exact this

/-! ### Exits that are not forgotten -/

/-- The reaper has recorded the exit and will not forget the command. -/
structure Spared (w : World) : Prop where
  reaper : w.reaper = .signalling false ∨ w.reaper = .forgetting false ∨ w.reaper = .finished
  removals : .forgotten ∉ w.removals

theorem Spared.step (h : Spared w) (he : e.Enabled w) : Spared (e.fire w) := by
  have hno : ∀ {pc}, w.reaper = pc → pc ≠ .signalling false → pc ≠ .forgetting false →
      pc ≠ .finished → False :=
    fun h1 h2 h3 h4 => (h1 ▸ h.reaper).elim h2 fun hx => hx.elim h3 h4
  cases e with
  | host e =>
    cases e with
    | reapWait | reapDrained | reapAwaited => exact (hno he.1 (by simp) (by simp) (by simp)).elim
    | reapGrace | reapCloseRing | reapRelease | reapRecord =>
      exact (hno he (by simp) (by simp) (by simp)).elim
    | reapSignal forget =>
      cases forget with
      | true => exact (hno he (by simp) (by simp) (by simp)).elim
      | false => exact ⟨.inr (.inl rfl), h.removals⟩
    | reapForget forget =>
      cases forget with
      | true => exact (hno he (by simp) (by simp) (by simp)).elim
      | false => exact ⟨.inr (.inr rfl), by simpa [Event.fire, Host.fire] using h.removals⟩
    | discard => exact ⟨h.reaper, by simpa [Event.fire, Host.fire] using h.removals⟩
    | _ => exact ⟨h.reaper, h.removals⟩
  | serve i e =>
    cases e with
    | remove => exact ⟨h.reaper, by simpa [Event.fire, Serve.fire] using h.removals⟩
    | _ => exact ⟨h.reaper, h.removals⟩
  | remote e =>
    rw [Event.fire, e.fire_daemon]
    exact ⟨h.reaper, h.removals⟩
  | _ => exact ⟨h.reaper, h.removals⟩

/-- An exit recorded while the command is kept, or while somebody is attached, is not forgotten. -/
theorem Spared.recorded (h : ReapInv w) (hr : w.reaper = .recording)
    (hk : w.cmd.persistence = .keep ∨ w.cmd.current ≠ none) : Spared (Host.fire w .reapRecord) := by
  have hforget : w.cmd.forget = false := by
    rcases hk with hk | hk <;> simp [ManagedCommand.forget, hk]
  refine ⟨.inl (by simp [Host.fire, hforget]), fun hx => ?_⟩
  exact absurd (hr.symm.trans (h.forgotten hx)) (by simp)

/-- The first client is lost; then the command writes a byte and exits, and a second client
attaches. -/
def lateAttach : List Event :=
  firstClientLost ++ ([.host (.write .stdout [7]), .host (.drainRead .stdout 1),
    .host (.drainWrite .stdout [7] ⟨[7], 0, 2 ^ 20, false, false, 0⟩ [])] : List Event) ++
  exitsDrained 3 false ++ ([.foreignOpen ⟨0, 0⟩] : List Event)

/-- The client of a kill-policy command loses its stream, and the daemon notices.  The command
writes a byte and exits.  When the client comes back, the command is gone. -/
def exitDuringBreak : List Event :=
  ([.serve 0 .attachStart, .serve 0 .greetSent, .remote .recvStarted, .brk 0 0 0, .notice 0,
    .serve 0 .watch, .serve 0 (.pumpStop .stdout 0), .serve 0 (.pumpStop .stderr 0),
    .serve 0 (.joinStopped 0 0), .serve 0 (.leave .unknown), .host (.write .stdout [7]),
    .host (.drainRead .stdout 1),
    .host (.drainWrite .stdout [7] ⟨[7], 0, 2 ^ 20, false, true, 0⟩ [])] : List Event) ++
  exitsDrained 3 true ++
  ([.remote (.recvFail .unknown), .remote .reattach, .serve 1 (.lookupMissing ⟨0, 0⟩),
    .serve 1 (.ret .notFound), .remote (.handshakeNotFound 1)] : List Event)

def Resp.isExit : Resp → Bool
  | .exitStatus _ => true
  | _ => false

/-- The exit status does not get lost: it is sent while the transport is up, a break does not lose
it, and there is one (`Wait` did not fail). -/
def StatusArrives (w : World) : Event → Prop
  | .serve i (.exitSent _) => w.broken i = false
  | .serve _ .exitError => False
  | .brk i k _ => ∀ m ∈ (w.toClient i).drop k, m.isExit = false
  | _ => True

instance (w : World) (e : Event) : Decidable (StatusArrives w e) := by
  -- not `cases`, which puts proofs of equations into the instance
  apply Event.casesOn (motive := fun e => Decidable (StatusArrives w e)) e
  case serve =>
    intro i s
    apply Serve.casesOn (motive := fun s => Decidable (StatusArrives w (.serve i s))) s <;>
      intros <;> dsimp only [StatusArrives] <;> infer_instance
  all_goals
    intros
    dsimp only [StatusArrives]
    infer_instance

theorem ExitsInv.keeps_exit (h : ExitsInv w)
    (hok : StatusArrives w e) (hx : HasExit (w.received i ++ w.toClient i)) :
    HasExit ((e.fire w).received i ++ (e.fire w).toClient i) := by
  -- a stream that was not opened carries nothing
  have hlt : i ≠ w.opened := by
    rintro rfl
    obtain ⟨o, ho, -⟩ := (h.served.2 w.opened).seenEnd (.inr hx) .stdout
    have hidle := h.requests.unopened w.opened le_rfl
    have hoff := (h.served.2 w.opened).pumpOff (by rw [hidle]; rfl) .stdout
    grind
  have hopen : ∀ own o, HasExit ((w.openStream own o).received i ++
      (w.openStream own o).toClient i) := by
    intro own o
    simpa only [World.openStream, update_of_ne hlt] using hx
  have hpop : ∀ j, HasExit ((w.pop j).received i ++ (w.pop j).toClient i) := by
    intro j
    rwa [pop_transcript]
  cases e with
  | host e => cases e <;> exact hx
  | serve j f =>
    rw [Event.fire, Serve.fire_received]
    by_cases hij : i = j
    · grind [Serve.fire_toClient_self, HasExit.mono, List.subset_append_left]
    · rwa [f.fire_toClient_of_ne hij]
  | remote e =>
    cases e with
    | connect o => exact hopen true o
    | reattach => exact hopen true (.of w.client.offset)
    | recvStarted | recvFirstAttached | recvOutput | recvExit | recvStraggler | recvAttached =>
      exact hpop _
    | _ => exact hx
  | brk j k l =>
    by_cases hij : i = j
    · subst hij
      obtain ⟨n, hn⟩ := hx
      refine ⟨n, ?_⟩
      simp only [Event.fire, update_self]
      rw [← List.take_append_drop k (w.toClient i), ← List.append_assoc] at hn
      exact (List.mem_append.1 hn).resolve_right fun hd => absurd (hok _ hd) (by simp [Resp.isExit])
    · simpa only [Event.fire, update_of_ne hij] using hx
  | foreignOpen o => exact hopen false o
  | foreignRecv j => exact hpop j
  | _ => exact hx

/-- A stream removes the command only after it has told its client the exit status. -/
structure RemovalInv (w : World) : Prop where
  removing : ∀ i c, w.handler i = .removing c → HasExit (w.received i ++ w.toClient i)
  served : ∀ i c, .served i c ∈ w.removals → HasExit (w.received i ++ w.toClient i)

theorem RemovalInv.step (h : RemovalInv w) (hw : ExitsInv w)
    (he : e.Enabled w) (hok : StatusArrives w e) : RemovalInv (e.fire w) := by
  constructor
  · intro i c hc
    cases e.streamStep w i with
    | own f hf =>
      subst hf
      cases f with
      | exitSent n =>
        refine ⟨n, ?_⟩
        simp [Event.fire, Serve.fire, World.sent, show w.broken i = false from hok]
      | exitError => exact hok.elim
      | greetSent | replySent => simp [Event.fire, Serve.fire, Serve.serveFrom] at hc
      | attachStart | greetFailed | lookup | lookupMissing | refuse | attach | ackOutput
      | replayOut | replayErr | replyFailed | joinStopped | joinEof | exitRead | exitSendFailed
      | remove | leave | ret => simp [Event.fire, Serve.fire] at hc
      | _ => exact hw.keeps_exit hok (h.removing i c hc)
    | other hu => exact hw.keeps_exit hok (h.removing i c (hu.handler ▸ hc))
    | opens hn => exact absurd (hn.handler.symm.trans hc) (by simp)
  · intro i c hc
    refine hw.keeps_exit hok ?_
    cases e with
    | host e =>
      cases e with
      | reapForget forget =>
        cases forget <;> exact h.served i c (by simpa [Event.fire, Host.fire] using hc)
      | discard => exact h.served i c (by simpa [Event.fire, Host.fire] using hc)
      | _ => exact h.served i c hc
    | serve j f =>
      cases f with
      | remove c' =>
        simp only [Event.fire, Serve.fire, List.mem_append, List.mem_singleton] at hc
        rcases hc with hc | hc
        · exact h.served i c hc
        · cases hc
          exact h.removing i c he
      | _ => exact h.served i c hc
    | remote e =>
      rw [Event.fire, e.fire_daemon] at hc
      exact h.served i c hc
    | _ => exact h.served i c hc

/-- **The exit status is not lost with the command**, in every run in which it does not get lost on
its way: when a serving stream has removed the command, its client has received the exit status or
has it before it in the stream; and while nobody has removed it, a stream that attaches finds the
command and comes to send the status. -/
theorem exit_status_not_lost (s : Start) (w : World) (hw : Reaches s StatusArrives w) :
    (∀ i c, .served i c ∈ w.removals →
      .exitStatus w.proc.status ∈ w.received i ++ w.toClient i) ∧
    (w.removals = [] → w.listed = true ∧
      ∀ i o, Arriving w i o → w.done = true → w.cmd.exitErr = false →
        ∃ w', OwnRun i w w' ∧ w'.broken i = false ∧
          .exitStatus w.proc.status ∈ w'.received i ++ w'.toClient i) := by
  have h : ExitsInv w ∧ RemovalInv w := by
    refine hw.invariant (I := fun w => ExitsInv w ∧ RemovalInv w) ⟨.init s, ?_, ?_⟩
      fun _ _ h he hok => ⟨h.1.step he, h.2.step h.1 he hok⟩
    · grind [World.init]
    · simp [World.init]
  refine ⟨fun i c hc => ?_, fun hr => ?_⟩
  · obtain ⟨n, hn⟩ := h.2.served i c hc
    rwa [(h.1.transcript hn).2.1] at hn
  · have hl : w.listed = true := h.1.reap.listed.resolve_right (by simp [hr])
    refine ⟨hl, fun i o ha hd hn => ?_⟩
    obtain ⟨w', hrun, ⟨q, hq⟩, hb, -⟩ := ha.sends_exit h.1 hl hd hn
    grind [ExitsInv.reap, ReapInv.status, ReapInv.done]

def toldExit : List Event :=
  ([.serve 0 .attachStart, .serve 0 .greetSent, .remote .recvStarted] : List Event) ++
  exitsDrained 3 false ++
  ([.serve 0 (.pumpEof .stdout 0 0), .serve 0 (.pumpEof .stderr 0 0), .serve 0 (.joinEof 0 0),
    .serve 0 .exitRead, .serve 0 (.exitSent 3), .serve 0 (.remove .ok),
    .remote (.recvExit 3)] : List Event)

/-- The theorem at a run in which a serving stream removes the command. -/
theorem exit_status_not_lost_served :
    ∃ w, Reaches (.piped .kill) StatusArrives w ∧ w.listed = false ∧ .served 0 .ok ∈ w.removals ∧
      .exitStatus w.proc.status ∈ w.received 0 ++ w.toClient 0 := by
  have hrun : ∃ w ∈ system.exec StatusArrives (.init (.piped .kill)) toldExit,
      w.listed = false ∧ .served 0 .ok ∈ w.removals := by decide +kernel
  obtain ⟨w, hw, hl, hr⟩ := Machine.exists_run_of_exec _ _ hrun
  exact ⟨w, hw, hl, hr, (exit_status_not_lost _ w hw).1 0 .ok hr⟩

/-- The transport breaks just before the exit status is sent. -/
def statusLost : List Event :=
  ([.serve 0 .attachStart, .serve 0 .greetSent, .remote .recvStarted] : List Event) ++
  exitsDrained 3 false ++
  ([.serve 0 (.pumpEof .stdout 0 0), .serve 0 (.pumpEof .stderr 0 0), .serve 0 (.joinEof 0 0),
    .serve 0 .exitRead, .brk 0 0 0, .serve 0 (.exitSent 3), .serve 0 (.remove .ok),
    .remote (.recvFail .unknown), .remote .reattach, .serve 1 (.lookupMissing ⟨0, 0⟩),
    .serve 1 (.ret .notFound), .remote (.handshakeNotFound 1)] : List Event)

/-- `Send` has returned `nil` and the command was removed, but its client never receives the exit
status: when it comes back, the command is gone. -/
theorem exit_status_lost :
    ∃ w, Reaches (.piped .kill) (fun _ _ => True) w ∧ w.removals = [.served 0 .ok] ∧
      w.received 0 ++ w.toClient 0 = [.started] ∧ w.listed = false ∧
      w.client.done = some .failed := by
  have hrun : ∃ w ∈ system.exec (fun _ _ => True) (.init (.piped .kill)) statusLost,
      w.removals = [.served 0 .ok] ∧ w.received 0 ++ w.toClient 0 = [.started] ∧
        w.listed = false ∧ w.client.done = some .failed := by decide +kernel
  exact Machine.exists_run_of_exec _ _ hrun

end Graft.Command
