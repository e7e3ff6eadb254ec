import Graft.Command.Resume

/-!
# Lossless delivery

A kill-policy command has lossless rings: a ring evicts only what the client has confirmed, and the
drainer waits when it is full.  When such a command has exited, the reaper waits for its drainers
only for a grace period; then it closes the rings, and what a slow client has left in the pipes or
in the hands of a waiting drainer is gone, although the client is attached and goes on reading:
`slow_client_loses_output`.

`lossless_delivery`: in every run with one resumable client in which the grace expires only when
all that was written is in the rings (`DrainsInTime`), a client that is told the exit status has
read exactly the bytes the command wrote.  The argument has three parts:

* `DrainInv`: what was written is what the ring accepted, what the drainer holds and what is in the
  pipe, and nothing is left of the latter two when a ring is closed;
* `Confirmed`: nothing is released, hence nothing evicted, beyond the client's offsets;
* `ExitInv`: a client that has received the exit status is at the end of both histories.
-/

namespace Graft.Command

open History
open Function (update_self update_of_ne)

variable {w w' : World} {i j : ℕ} {e : Event}

/-! ### From the process to the ring -/

/-- The bytes a drainer has read and not yet written. -/
def DrainPc.held : DrainPc → List Byte
  | .writing rest => rest
  | _ => []

def DrainPc.ended : DrainPc → Bool
  | .closing | .done => true
  | _ => false

def ReapPc.forced : ReapPc → Bool
  | .closing _ | .awaiting => true
  | _ => false

/-- The grace expires only when all that was written is in the rings, and nobody but the resumable
client attaches. -/
def DrainsInTime (w : World) : Event → Prop
  | .host .reapGrace => ∀ fd, w.proc.pipe fd = [] ∧ (w.drain fd).held = []
  | .foreignOpen _ => False
  | _ => True

instance (w : World) (e : Event) : Decidable (DrainsInTime w e) := by
  apply Event.casesOn (motive := fun e => Decidable (DrainsInTime w e)) e
  case host =>
    intro s
    apply Host.casesOn (motive := fun s => Decidable (DrainsInTime w (.host s))) s <;> intros <;>
      dsimp only [DrainsInTime] <;> infer_instance
  all_goals
    intros
    dsimp only [DrainsInTime]
    infer_instance

structure DrainOk (written hist pipe : List Byte) (drain : DrainPc)
    (writeEnd readersClosed closed : Bool) : Prop where
  /-- what was written is in the ring's history, with the drainer, or in the pipe -/
  flow : written = hist ++ drain.held ++ pipe
  /-- when the ring, the drainer or the reader has ended, nothing is left and nothing more comes -/
  settled : closed = true ∨ drain.ended = true ∨ readersClosed = true →
    pipe = [] ∧ drain.held = [] ∧ (writeEnd = false ∨ readersClosed = true)

structure DrainInv (w : World) : Prop where
  ok : ∀ fd, DrainOk (w.proc.written fd) (w.hist fd) (w.proc.pipe fd) (w.drain fd)
    (w.proc.writeEnd fd) w.proc.readersClosed (w.cmd.rings fd).closed
  forced : w.reaper.forced = true → w.proc.readersClosed = true
  releasing : w.reaper = .releasing → ∀ fd, (w.drain fd).ended = true

theorem DrainInv.init (s : Start) : DrainInv (.init s) where
  ok fd := by
    by_cases hfd : fd = .stderr ∧ s.combined = true
    · refine ⟨?_, fun _ => ?_⟩ <;> simp [World.init, DrainPc.held, hfd]
    · refine ⟨by simp [World.init, DrainPc.held, hfd], fun hx => ?_⟩
      simp only [World.init, ManagedCommand.register, if_neg hfd, DrainPc.ended,
        Bool.false_eq_true, or_false] at hx
      split_ifs at hx <;> simp [OutputRing.new, OutputRing.setLossless] at hx
  forced h := nomatch h
  releasing h := nomatch h

namespace DrainOk

variable {wr h pipe p : List Byte} {d : DrainPc} {we rc c : Bool}

theorem write (hd : DrainOk wr h pipe d true false c) (bs : List Byte) :
    DrainOk (wr ++ bs) h (pipe ++ bs) d true false c :=
  ⟨by rw [hd.flow]; simp, fun hx => absurd (hd.settled hx).2.2 (by simp)⟩

theorem closeOutput (hd : DrainOk wr h pipe d we rc c) : DrainOk wr h pipe d false rc c :=
  ⟨hd.flow, fun hx => ⟨(hd.settled hx).1, (hd.settled hx).2.1, .inl rfl⟩⟩

theorem read {n : ℕ} (hd : DrainOk wr h pipe .reading we rc c) (hn : 0 < n)
    (hl : n ≤ pipe.length) : DrainOk wr h (pipe.drop n) (.writing (pipe.take n)) we rc c := by
  refine ⟨by rw [hd.flow]; simp [DrainPc.held], fun hx => ?_⟩
  have hnil := (hd.settled (by simpa [DrainPc.ended] using hx)).1
  grind

theorem eof (hd : DrainOk wr h pipe .reading we rc c)
    (he : rc = true ∨ pipe = [] ∧ we = false) : DrainOk wr h pipe .closing we rc c := by
  refine ⟨hd.flow, fun _ => ?_⟩
  rcases he with he | ⟨he, hwe⟩
  · exact hd.settled (.inr (.inr he))
  · exact ⟨he, rfl, .inl hwe⟩

theorem accept {n : ℕ} (hd : DrainOk wr h pipe (.writing p) we rc false) :
    DrainOk wr (h ++ p.take n) pipe (if p.drop n = [] then .reading else .writing (p.drop n)) we rc
      false := by
  have hheld : (if p.drop n = [] then DrainPc.reading else .writing (p.drop n)).held = p.drop n := by
    split_ifs with hp <;> simp [DrainPc.held, hp]
  refine ⟨by rw [hd.flow, hheld]; simp [DrainPc.held], fun hx => ?_⟩
  have hx' : rc = true := by
    grind [DrainPc.ended]
  obtain ⟨h1, h2, h3⟩ := hd.settled (.inr (.inr hx'))
  grind [DrainPc.held]

theorem fail (hd : DrainOk wr h pipe (.writing p) we rc true) :
    DrainOk wr h pipe .closing we rc true := by
  obtain ⟨h1, h2, h3⟩ := hd.settled (.inl rfl)
  exact ⟨by rw [hd.flow, h2]; simp [DrainPc.held], fun _ => ⟨h1, rfl, h3⟩⟩

theorem close (hd : DrainOk wr h pipe d we rc c) (he : d.ended = true ∨ rc = true) :
    DrainOk wr h pipe d we rc true :=
  ⟨hd.flow, fun _ => hd.settled (.inr he)⟩

theorem done (hd : DrainOk wr h pipe .closing we rc c) : DrainOk wr h pipe .done we rc true :=
  ⟨hd.flow, fun _ => hd.settled (.inr (.inl rfl))⟩

theorem force (hd : DrainOk wr h pipe d we rc c) (he : pipe = [] ∧ d.held = []) :
    DrainOk wr h pipe d we true c :=
  ⟨hd.flow, fun _ => ⟨he.1, he.2, .inr rfl⟩⟩

end DrainOk

theorem DrainInv.not_releasing (h : DrainInv w) {fd : Fd} {P : Prop}
    (hd : (w.drain fd).ended = false) (hr : w.reaper = .releasing) : P :=
  absurd (h.releasing hr fd) (by simp [hd])

theorem DrainInv.step_host {e : Host} (h : DrainInv w) (he : e.Enabled w)
    (hok : DrainsInTime w (.host e)) : DrainInv (e.fire w) := by
  cases e with
  | write fd bs =>
    refine ⟨fun fd' => ?_, h.forced, h.releasing⟩
    by_cases hfd : fd' = fd
    · subst hfd
      have hd := h.ok fd'
      rw [he.1, he.2] at hd
      simpa [Host.fire, he.1, he.2] using hd.write bs
    · simpa [Host.fire, hfd] using h.ok fd'
  | closeOutput fd =>
    refine ⟨fun fd' => ?_, h.forced, h.releasing⟩
    by_cases hfd : fd' = fd
    · subst hfd
      simpa [Host.fire] using (h.ok fd').closeOutput
    · simpa [Host.fire, hfd] using h.ok fd'
  | drainRead fd n =>
    obtain ⟨hd, -, hn, -, hl⟩ := he
    refine ⟨fun fd' => ?_, h.forced, fun hr => h.not_releasing (by rw [hd]; rfl) hr⟩
    by_cases hfd : fd' = fd
    · subst hfd
      simpa [Host.fire] using (hd ▸ h.ok fd').read hn hl
    · simpa [Host.fire, hfd] using h.ok fd'
  | drainEof fd =>
    obtain ⟨hd, hx⟩ := he
    refine ⟨fun fd' => ?_, h.forced, fun hr => h.not_releasing (by rw [hd]; rfl) hr⟩
    by_cases hfd : fd' = fd
    · subst hfd
      simpa [Host.fire] using (hd ▸ h.ok fd').eof hx
    · simpa [Host.fire, hfd] using h.ok fd'
  | drainWrite fd p r rest =>
    obtain ⟨hd, hw⟩ := he
    obtain ⟨n, rfl, ha⟩ := OutputRing.write_spec hw
    refine ⟨fun fd' => ?_, h.forced, fun hr => h.not_releasing (by rw [hd]; rfl) hr⟩
    by_cases hfd : fd' = fd
    · subst hfd
      have hold := h.ok fd'
      rw [hd, ha.closed.1] at hold
      simp only [Host.fire, ManagedCommand.mapRing, update_self, ha.closed.2,
        take_length_sub_drop ha.le]
      exact hold.accept
    · simpa [Host.fire, ManagedCommand.mapRing, hfd] using h.ok fd'
  | drainFail fd p =>
    obtain ⟨hd, hw⟩ := he
    have hc := OutputRing.write_eq_failed.1 hw
    refine ⟨fun fd' => ?_, h.forced, fun hr => h.not_releasing (by rw [hd]; rfl) hr⟩
    by_cases hfd : fd' = fd
    · subst hfd
      have hold := h.ok fd'
      rw [hd, hc] at hold
      simpa [Host.fire, hc] using hold.fail
    · simpa [Host.fire, hfd] using h.ok fd'
  | drainClose fd =>
    have hd : w.drain fd = .closing := he
    refine ⟨fun fd' => ?_, h.forced, fun hr fd' => ?_⟩ <;> by_cases hfd : fd' = fd
    · subst hfd
      simpa [Host.fire, ManagedCommand.mapRing, OutputRing.close] using (hd ▸ h.ok fd').done
    · simpa [Host.fire, ManagedCommand.mapRing, hfd] using h.ok fd'
    · simp [Host.fire, hfd, DrainPc.ended]
    · simpa [Host.fire, hfd] using h.releasing hr fd'
  | reapWait | reapSignal | reapForget => exact ⟨h.ok, nofun, nofun⟩
  | reapDrained | reapAwaited =>
    obtain ⟨-, h1, h2⟩ := he
    refine ⟨h.ok, nofun, fun _ fd => ?_⟩
    cases fd
    · simp [Host.fire, h1, DrainPc.ended]
    · simp [Host.fire, h2, DrainPc.ended]
  | reapGrace =>
    exact ⟨fun fd => (h.ok fd).force (hok fd), fun _ => rfl, nofun⟩
  | reapCloseRing fd =>
    have hreap : w.reaper = .closing fd := he
    have hrc : w.proc.readersClosed = true := h.forced (by rw [hreap]; rfl)
    refine ⟨fun fd' => ?_, fun _ => hrc, fun hr => ?_⟩
    · by_cases hfd : fd' = fd
      · subst hfd
        simpa [Host.fire, ManagedCommand.mapRing, OutputRing.close] using
          (h.ok fd').close (.inr hrc)
      · simpa [Host.fire, ManagedCommand.mapRing, hfd] using h.ok fd'
    · cases fd <;> exact nomatch hr
  | reapRelease =>
    refine ⟨fun fd => ?_, nofun, nofun⟩
    have hd := (h.ok fd).close (.inl (h.releasing he fd))
    cases fd <;> exact hd
  | reapRecord => exact ⟨h.ok, nofun, nofun⟩
  | _ => exact ⟨h.ok, h.forced, h.releasing⟩

theorem DrainInv.step (h : DrainInv w) (he : e.Enabled w)
    (hok : DrainsInTime w e) : DrainInv (e.fire w) := by
  cases e with
  | host e => exact h.step_host he hok
  | serve i e =>
    cases e with
    | inControl c => cases c <;> exact ⟨h.ok, h.forced, h.releasing⟩
    | greetFailed | replyFailed | leave =>
      refine ⟨fun fd => ?_, h.forced, h.releasing⟩
      simpa only [Event.fire, Serve.fire, ManagedCommand.clientGone_rings] using h.ok fd
    | _ => exact ⟨h.ok, h.forced, h.releasing⟩
  | remote e =>
    rw [Event.fire, e.fire_daemon]
    exact ⟨h.ok, h.forced, h.releasing⟩
  | _ => exact ⟨h.ok, h.forced, h.releasing⟩

/-! ### The sole client -/

def Event.isForeignOpen : Event → Bool
  | .foreignOpen _ => true
  | _ => false

/-- The first stream starts the command; it is never asked for offsets. -/
structure FirstStream (w : World) : Prop where
  idle : w.handler 0 ≠ .idle
  phase : (w.handler 0).attachPhase = false
  greeting : ∀ r, (w.received 0 ++ w.toClient 0).head? ≠ some (.attached r)

theorem FirstStream.mono (hu : Untouched w w' 0) (h : FirstStream w) : FirstStream w' := by
  refine ⟨hu.handler ▸ h.idle, hu.handler ▸ h.phase, fun r hr => h.greeting r ?_⟩
  rcases hu.messages with hm | ⟨-, t, hm⟩
  · rwa [← hm]
  grind

theorem FirstStream.own {e : Serve} (he : e.Enabled w 0) (h : FirstStream w) :
    FirstStream (e.fire w 0) := by
  have hphase : ∀ {pc}, w.handler 0 = pc → pc.attachPhase = true → False :=
    fun h1 h2 => absurd (h1 ▸ h.phase) (by simp [h2])
  refine ⟨?_, ?_, fun r hr => ?_⟩
  · cases e with
    | greetSent | replySent => simp [Serve.fire, Serve.serveFrom]
    | attachStart | greetFailed | lookup | lookupMissing | refuse | attach | ackOutput | replayOut
    | replayErr | replyFailed | joinStopped | joinEof | exitError | exitRead | exitSent
    | exitSendFailed | remove | leave | ret => simp [Serve.fire]
    | _ => exact h.idle
  · cases e with
    | lookup => exact absurd he.2.1 h.idle
    | attach | ackOutput | replayOut | replayErr => exact (hphase he rfl).elim
    | greetSent | replySent => simp [Serve.fire, Serve.serveFrom, HandlerPc.attachPhase]
    | attachStart | greetFailed | lookupMissing | refuse | replyFailed | joinStopped | joinEof
    | exitError | exitRead | exitSent | exitSendFailed | remove | leave | ret =>
      simp [Serve.fire, HandlerPc.attachPhase]
    | _ => exact h.phase
  · rw [Serve.fire_received, Serve.fire_toClient_self, ← List.append_assoc,
      List.head?_append] at hr
    cases hT : (w.received 0 ++ w.toClient 0).head? with
    | some m => exact h.greeting r (by rw [hT]; simpa [hT] using hr)
    | none =>
      simp only [hT, Option.none_or] at hr
      split_ifs at hr
      · simp at hr
      · cases e with
        | replySent => exact hphase he.1 rfl
        | _ => simp [Serve.sends] at hr

/-- The command was started by the resumable client and is used by nobody else. -/
structure Sole (w : World) : Prop where
  pos : 0 < w.opened
  own : ∀ i, i < w.opened → w.own i = true
  first : FirstStream w
  absent : w.client.pc ≠ .absent
  connecting : ∀ j, w.client.pc = .connecting j → j = 0 ∧ ∀ fd, w.client.offset fd = 0
  /-- nothing was skipped -/
  base : ∀ fd, w.client.base fd = 0

theorem Sole.init {s : Start} (hs : s.byClient = true) : Sole (.init s) where
  pos := Nat.one_pos
  own i hi := by
    grind [World.init]
  first := ⟨by simp [World.init], by simp [World.init, HandlerPc.attachPhase],
    by simp [World.init]⟩
  absent := by simp [World.init, hs]
  connecting j hj := by
    simp_all [World.init]
  base _ := rfl

theorem Sole.not_firstAttached {r : Offsets} (h : Sole w) (hp : Position w) :
    ¬ Remote.Enabled w (.recvFirstAttached j r) := by
  rintro ⟨hpc, hm⟩
  obtain ⟨rfl, -⟩ := h.connecting j hpc
  obtain ⟨-, -, h0⟩ := hp.connecting 0 hpc
  grind [FirstStream.greeting, first]

theorem Sole.step_remote {e : Remote} (h : Sole w) (hp : Position w)
    (he : e.Enabled w) : Sole (e.fire w) := by
  have hsame : ∀ {w' : World}, w'.handler = w.handler → w'.pump = w.pump → w'.asked = w.asked →
      w'.stop = w.stop → w'.broken = w.broken → w'.received = w.received →
      w'.toClient = w.toClient → FirstStream w' :=
    fun h1 h2 h3 h4 h5 h6 h7 => h.first.mono (.of_eq (by rw [h1]) (by rw [h2]) (by rw [h3])
      (by rw [h4]) (by rw [h5]) (by rw [h6]) (by rw [h7]))
  cases e with
  | connect => exact absurd he h.absent
  | reattach =>
    refine ⟨Nat.succ_pos _, fun i hi => ?_, h.first.mono (openStream_untouched w _ _ _ h.pos.ne),
      by simp [Remote.fire], by simp [Remote.fire], h.base⟩
    by_cases hio : i = w.opened
    · simp [Remote.fire, World.openStream, hio]
    · have hlt : i < w.opened := by
        have hi' : i < w.opened + 1 := hi
        omega
      simpa [Remote.fire, World.openStream, hio] using h.own i hlt
  | recvStarted =>
    exact ⟨h.pos, h.own, h.first.mono (pop_untouched w _ 0 _ _), by simp [Remote.fire],
      by simp [Remote.fire], fun _ => rfl⟩
  | recvFirstAttached j r => exact (h.not_firstAttached hp he).elim
  | recvOutput | recvExit | recvAttached =>
    exact ⟨h.pos, h.own, h.first.mono (pop_untouched w _ 0 _ _), by simp [Remote.fire],
      by simp [Remote.fire], h.base⟩
  | recvStraggler =>
    exact ⟨h.pos, h.own, h.first.mono (pop_untouched w _ 0 w.client w.stdinPump), h.absent,
      h.connecting, h.base⟩
  | flushDone failed sd =>
    refine ⟨h.pos, h.own, hsame rfl rfl rfl rfl rfl rfl rfl, ?_, fun j hj => ?_, h.base⟩ <;>
      by_cases hf : failed = [] <;> simp [Remote.fire, hf] at *
  | cancel | stdinRead | stdinEof | stdinGet | stdinSent | stdinFailed | stdinSwapped
  | stdinFinished | stdinMark | stdinFetch | stdinClose | call | callGet | callSent | callFailed
  | callPark | callRetry =>
    exact ⟨h.pos, h.own, hsame rfl rfl rfl rfl rfl rfl rfl, h.absent, h.connecting, h.base⟩
  | _ =>
    exact ⟨h.pos, h.own, hsame rfl rfl rfl rfl rfl rfl rfl, by simp [Remote.fire],
      by simp [Remote.fire], h.base⟩

theorem Sole.step (h : Sole w) (hp : Position w) (he : e.Enabled w)
    (hf : e.isForeignOpen = false) : Sole (e.fire w) := by
  have hsame : ∀ {w' : World}, Untouched w w' 0 → w'.opened = w.opened → w'.own = w.own →
      w'.client = w.client → Sole w' := by
    intro w' hu ho hown hc
    exact ⟨ho ▸ h.pos, fun i hi => hown ▸ h.own i (ho ▸ hi), h.first.mono hu, hc ▸ h.absent,
      hc ▸ h.connecting, hc ▸ h.base⟩
  cases e with
  | host e =>
    cases e <;> exact hsame (.of_eq rfl rfl rfl rfl rfl rfl rfl) rfl rfl rfl
  | serve i e =>
    have hopened : (e.fire w i).opened = w.opened := by cases e <;> rfl
    have hown : (e.fire w i).own = w.own := by cases e <;> rfl
    by_cases hi : 0 = i
    · subst hi
      refine ⟨hopened ▸ h.pos, fun i hi => ?_, h.first.own he, ?_, ?_, ?_⟩
      · simp_all [Event.fire, own]
      all_goals rw [Event.fire, Serve.fire_client]
      · exact h.absent
      · exact h.connecting
      · exact h.base
    · exact hsame (e.untouched hi) hopened hown (Serve.fire_client w i e)
  | remote e => exact h.step_remote hp he
  | brk i k l => exact hsame (brk_untouched w i 0 k l) rfl rfl rfl
  | foreignOpen => simp [Event.isForeignOpen] at hf
  | foreignRecv i => exact hsame (pop_untouched w i 0 w.client w.stdinPump) rfl rfl rfl
  | _ => exact hsame (.of_eq rfl rfl rfl rfl rfl rfl rfl) rfl rfl rfl

/-! ### Nothing is released beyond the client's offsets -/

/-- The offsets a request confirms lie below these. -/
def Req.Below (p : Fd → ℕ) : Req → Prop
  | .attach o | .ack o => ∀ fd, o fd ≤ p fd
  | _ => True

/-- The request the input loop holds confirms no more than these offsets. -/
def InputPc.Below (p : Fd → ℕ) : InputPc → Prop
  | .holding req _ | .applying req _ => req.Below p
  | _ => True

/-- The offsets a handler was asked for lie below these. -/
def HandlerPc.Below (p : Fd → ℕ) (pc : HandlerPc) : Prop :=
  ∀ o, pc.asked = some o → ∀ fd, o fd ≤ p fd

/-- Nothing is released, evicted or about to be confirmed beyond the client's offsets. -/
structure Confirmed (w : World) : Prop where
  lossless : ∀ fd, (w.cmd.rings fd).lossless = true
  start : ∀ fd, (w.cmd.rings fd).start ≤ (w.cmd.rings fd).released
  released : ∀ fd, (w.cmd.rings fd).released ≤ w.client.offset fd
  queued : ∀ i, ∀ req ∈ w.toServer i, req.Below w.client.offset
  handler : ∀ i, (w.handler i).Below w.client.offset
  input : ∀ i, (w.input i).Below w.client.offset
  gaps : ∀ fd, w.client.gaps fd = []

theorem Confirmed.init {s : Start} (hs : s.spec.persistence = .kill) : Confirmed (.init s) where
  lossless fd := by
    simp only [World.init, ManagedCommand.register, hs, if_true]
    split_ifs <;> rfl
  start fd := by
    simp only [World.init, ManagedCommand.register]
    split_ifs <;> exact le_rfl
  released fd := by
    simp only [World.init, ManagedCommand.register]
    split_ifs <;> exact le_rfl
  queued := by simp [World.init]
  handler i := by
    by_cases hi : i = 0 <;> simp [World.init, hi, HandlerPc.Below, HandlerPc.asked]
  input := by simp [World.init, InputPc.Below]
  gaps _ := rfl

section Below

variable {p p' : Fd → ℕ}

theorem Req.Below.mono {req : Req} (hp : ∀ fd, p fd ≤ p' fd) (h : req.Below p) :
    req.Below p' := by
  cases req with
  | attach o | ack o => exact fun fd => (h fd).trans (hp fd)
  | _ => trivial

theorem InputPc.Below.mono {pc : InputPc} (hp : ∀ fd, p fd ≤ p' fd) (h : pc.Below p) :
    pc.Below p' := by
  cases pc with
  | holding req | applying req => exact Req.Below.mono hp h
  | _ => trivial

theorem HandlerPc.Below.mono {pc : HandlerPc} (hp : ∀ fd, p fd ≤ p' fd) (h : pc.Below p) :
    pc.Below p' :=
  fun o ho fd => (h o ho fd).trans (hp fd)

theorem below_requested {req : Req} (hq : ∀ r ∈ w.toServer j, r.Below p) (hreq : req.Below p) :
    ∀ r ∈ w.requested i req j, r.Below p := by
  intro r hr
  unfold World.requested at hr
  by_cases hji : j = i
  · subst hji
    rw [update_self] at hr
    split_ifs at hr
    · exact hq r hr
    · rcases List.mem_append.1 hr with hr | hr
      · exact hq r hr
      · rw [List.mem_singleton.1 hr]
        exact hreq
  · rw [update_of_ne hji] at hr
    exact hq r hr

theorem below_halfClosed (hq : ∀ r ∈ w.toServer j, r.Below p) :
    ∀ r ∈ w.halfClosed i j, r.Below p := by
  unfold World.halfClosed
  split_ifs
  · exact below_requested hq trivial
  · exact hq

end Below

theorem Remote.offset_le {e : Remote} (h : Sole w) (he : e.Enabled w) (fd : Fd) :
    w.client.offset fd ≤ (e.fire w).client.offset fd := by
  cases e with
  | recvStarted => exact ((h.connecting 0 he.1).2 fd).le
  | recvFirstAttached j r => exact ((h.connecting j he.1).2 fd).le.trans (Nat.zero_le _)
  | recvAttached j r => exact le_max_left _ _
  | writeDone fd' bs =>
    by_cases hfd : fd = fd'
    · simp_all [fire]
    · simp [Remote.fire, hfd]
  | _ => exact le_rfl

theorem Confirmed.start_step (h : Confirmed w) (hg : Grows w w') (fd : Fd) :
    (w'.cmd.rings fd).start ≤ (w'.cmd.rings fd).released := by
  have h1 := (hg fd).start_le_released (h.lossless fd)
  have h2 := (hg fd).released_le
  have h3 := h.start fd
  omega

theorem Confirmed.mono (h : Confirmed w) (hg : Grows w w')
    (hr : ∀ fd, (w'.cmd.rings fd).released = (w.cmd.rings fd).released)
    (ho : ∀ fd, w.client.offset fd ≤ w'.client.offset fd)
    (hq : ∀ i, ∀ req ∈ w'.toServer i, req.Below w'.client.offset)
    (hh : ∀ i, (w'.handler i).Below w'.client.offset)
    (hi : ∀ i, (w'.input i).Below w'.client.offset)
    (hgap : ∀ fd, w'.client.gaps fd = []) : Confirmed w' where
  lossless fd := (hg fd).lossless.trans (h.lossless fd)
  start := h.start_step hg
  released fd := (hr fd).le.trans ((h.released fd).trans (ho fd))
  queued := hq
  handler := hh
  input := hi
  gaps := hgap

theorem Confirmed.serve_released {e : Serve} (h : Confirmed w) (he : e.Enabled w i) (fd : Fd) :
    ((e.fire w i).cmd.rings fd).released ≤ w.client.offset fd := by
  cases e with
  | ackOutput o =>
    have hb : o fd ≤ w.client.offset fd :=
      h.handler i o (by rw [show w.handler i = _ from he]; rfl) fd
    have hr := h.released fd
    simp only [Serve.fire, ManagedCommand.ackOutput, OutputRing.setReleased_released]
    omega
  | inAck o late =>
    have hb := h.input i
    rw [show w.input i = _ from he] at hb
    have hr := h.released fd
    have hb' : o fd ≤ w.client.offset fd := hb fd
    simp only [Serve.fire, ManagedCommand.ackOutput, OutputRing.setReleased_released]
    omega
  | greetFailed | replyFailed | leave =>
    simpa only [Serve.fire, ManagedCommand.clientGone_rings] using h.released fd
  | _ => exact h.released fd

theorem Confirmed.serve_queued (e : Serve) (h : Confirmed w) (j : ℕ) :
    ∀ req ∈ (e.fire w i).toServer j, req.Below w.client.offset := by
  intro req hreq
  refine h.queued j req ?_
  by_cases hji : j = i
  · subst hji
    cases e with
    | lookup | lookupMissing | inRecv | inEof =>
      simp_all [List.mem_of_mem_tail, Serve.fire]
    | _ => exact hreq
  · rwa [e.fire_toServer_of_ne hji] at hreq

theorem Confirmed.serve_handler {e : Serve} (h : Confirmed w)
    (he : e.Enabled w i) (j : ℕ) : ((e.fire w i).handler j).Below w.client.offset := by
  by_cases hji : j = i
  · subst hji
    intro o ho
    cases e with
    | lookup o' =>
      simp only [Serve.fire, update_self, HandlerPc.asked, Option.some.injEq] at ho
      subst ho
      exact h.queued j _ (List.mem_of_mem_head? he.2.2.1)
    | attach o' | ackOutput o' | replayOut o' =>
      simp only [Serve.fire, update_self, HandlerPc.asked, Option.some.injEq] at ho
      exact h.handler j o (by rw [show w.handler j = _ from he]; exact congrArg some ho)
    | greetSent | replySent => simp [Serve.fire, Serve.serveFrom, HandlerPc.asked] at ho
    | attachStart | greetFailed | lookupMissing | refuse | replayErr | replyFailed | joinStopped
    | joinEof | exitError | exitRead | exitSent | exitSendFailed | remove | leave | ret =>
      simp [Serve.fire, HandlerPc.asked] at ho
    | _ => exact h.handler j o ho
  · rw [e.fire_handler_of_ne hji]
    exact h.handler j

theorem Confirmed.serve_input {e : Serve} (h : Confirmed w)
    (he : e.Enabled w i) (j : ℕ) : ((e.fire w i).input j).Below w.client.offset := by
  by_cases hji : j = i
  · subst hji
    cases e with
    | inRecv req =>
      simp only [Serve.fire, update_self]
      exact h.queued j req (List.mem_of_mem_head? he.2.1)
    | inCheck req late =>
      have hold := h.input j
      rw [show w.input j = _ from he] at hold
      simp only [Serve.fire, update_self]
      grind [InputPc.Below]
    | inPolicy =>
      simp only [Serve.fire, update_self]
      split_ifs <;> trivial
    | greetSent | replySent => simp [Serve.fire, Serve.serveFrom, InputPc.Below]
    | inEof | inErr | inStdin | inControl | inAck | inAttach | inClose =>
      simp [Serve.fire, InputPc.Below]
    | _ => exact h.input j
  · rw [e.fire_input_of_ne hji]
    exact h.input j

theorem Confirmed.step_serve {e : Serve} (h : Confirmed w)
    (he : e.Enabled w i) : Confirmed (e.fire w i) where
  lossless fd := (Serve.grows w i e fd).lossless.trans (h.lossless fd)
  start := h.start_step (Serve.grows w i e)
  released := by rw [Serve.fire_client]; exact h.serve_released he
  queued := by rw [Serve.fire_client]; exact h.serve_queued e
  handler := by rw [Serve.fire_client]; exact h.serve_handler he
  input := by rw [Serve.fire_client]; exact h.serve_input he
  gaps := by rw [Serve.fire_client]; exact h.gaps

/-- The ring has evicted nothing beyond the client's offset: a replay starts there. -/
theorem Confirmed.replay_eq {r : Offsets} (h : Confirmed w) (hp : Position w)
    (hs : Served w) (hpc : w.client.pc = .handshake j)
    (hm : (w.toClient j).head? = some (.attached r)) (fd : Fd) : r fd = w.client.offset fd := by
  have hfit := hp.replay_fits hs hpc hm fd
  have h1 := h.start fd
  have h2 := h.released fd
  rcases hfit with ⟨hle, hr | hr⟩ <;> omega

theorem Confirmed.step_remote {e : Remote} (h : Confirmed w) (hsole : Sole w)
    (hp : Position w) (hs : Served w) (he : e.Enabled w) : Confirmed (e.fire w) := by
  have hg : Grows w (e.fire w) := Event.grows (e := .remote e) he
  have hrel : ∀ fd, ((e.fire w).cmd.rings fd).released = (w.cmd.rings fd).released := by
    cases e <;> exact fun _ => rfl
  have ho := Remote.offset_le hsole he
  have hq : ∀ i, ∀ req ∈ w.toServer i, req.Below (e.fire w).client.offset :=
    fun i req hreq => (h.queued i req hreq).mono ho
  have hh := fun i => (h.handler i).mono ho
  have hi := fun i => (h.input i).mono ho
  cases e with
  | connect => exact absurd he hsole.absent
  | reattach =>
    refine h.mono hg hrel ho (fun i req hreq => ?_) (fun i => ?_) (fun i => ?_) h.gaps <;>
      by_cases hio : i = w.opened
    · simp only [Remote.fire, World.openStream, hio, update_self,
        List.mem_singleton] at hreq
      subst hreq
      exact fun fd => (Offsets.of_get _ _).le
    · simp only [Remote.fire, World.openStream, update_of_ne hio] at hreq
      exact hq i req hreq
    · simp [Remote.fire, World.openStream, hio, HandlerPc.Below, HandlerPc.asked]
    · simpa only [Remote.fire, World.openStream, update_of_ne hio] using hh i
    · simp [Remote.fire, World.openStream, hio, InputPc.Below]
    · simpa only [Remote.fire, World.openStream, update_of_ne hio] using hi i
  | recvAttached j r =>
    refine h.mono hg hrel ho hq hh hi fun fd => ?_
    simp [Remote.fire, h.gaps fd, Remote.replayGap, h.replay_eq hp hs he.1 he.2 fd]
  | ackSent =>
    exact h.mono hg hrel ho
      (fun i => below_requested (h.queued i) fun fd => (Offsets.of_get _ _).le) hh hi h.gaps
  | resyncSent | flushSent | stdinSent | callSent =>
    exact h.mono hg hrel ho (fun i => below_requested (h.queued i) trivial) hh hi h.gaps
  | replayClose | stdinClose =>
    exact h.mono hg hrel ho (fun i => below_halfClosed (h.queued i)) hh hi h.gaps
  | _ => exact h.mono hg hrel ho hq hh hi h.gaps

theorem Confirmed.step (h : Confirmed w) (hsole : Sole w)
    (hp : Position w) (hs : Served w) (he : e.Enabled w) (hf : e.isForeignOpen = false) :
    Confirmed (e.fire w) := by
  have hg := Event.grows he
  cases e with
  | host e =>
    refine h.mono hg ?_ ?_ ?_ ?_ ?_ ?_
    · cases e with
      | drainWrite fd p r rest =>
        intro fd'
        by_cases hfd : fd' = fd
        · subst hfd
          obtain ⟨n, -, ha⟩ := OutputRing.write_spec he.2
          simpa [Event.fire, Host.fire, ManagedCommand.mapRing] using ha.released
        · simp [Event.fire, Host.fire, ManagedCommand.mapRing, hfd]
      | drainClose fd | reapCloseRing fd =>
        intro fd'
        by_cases hfd : fd' = fd
        · subst hfd
          simp [Event.fire, Host.fire, ManagedCommand.mapRing, OutputRing.close]
        · simp [Event.fire, Host.fire, ManagedCommand.mapRing, hfd]
      | reapRelease => intro fd'; cases fd' <;> rfl
      | _ => exact fun _ => rfl
    · cases e <;> exact fun _ => le_rfl
    · cases e <;> exact h.queued
    · cases e <;> exact h.handler
    · cases e <;> exact h.input
    · cases e <;> exact h.gaps
  | serve i e => exact h.step_serve he
  | remote e => exact h.step_remote hsole hp hs he
  | brk i k l =>
    refine h.mono hg (fun _ => rfl) (fun _ => le_rfl) (fun j req hreq => ?_) h.handler h.input
      h.gaps
    refine h.queued j req ?_
    by_cases hji : j = i
    · subst hji
      simp only [Event.fire, update_self] at hreq
      grind
    · simpa only [Event.fire, update_of_ne hji] using hreq
  | foreignOpen => simp [Event.isForeignOpen] at hf
  | foreignSend i | foreignRecv i =>
    exact absurd ((hsole.own i he.1).symm.trans he.2.1) (by simp)
  | foreignClose i => exact absurd ((hsole.own i he.1).symm.trans he.2) (by simp)
  | notice =>
    exact h.mono hg (fun _ => rfl) (fun _ => le_rfl) h.queued h.handler h.input h.gaps

/-! ### The exit status comes last -/

/-- A client about to receive the exit status has received all the output there is. -/
theorem Follows.complete {p : Fd → ℕ} {n : ℤ} (hf : Follows w i p)
    (h : StreamInv w i) (hm : (w.toClient i).head? = some (.exitStatus n)) (fd : Fd) :
    Complete w fd (p fd) := by
  obtain ⟨m, r, q, hr, hg, hp⟩ := hf
  obtain ⟨rest, hrest⟩ := List.head?_eq_some_iff.1 hm
  have hT : w.received i ++ w.toClient i = m :: (q ++ w.toClient i) := by
    rw [hr, List.cons_append]
  have hs := (h.script hT hg).1
  have hexit : HasExit (q ++ [Resp.exitStatus n]) := ⟨n, by simp⟩
  have hpre : q ++ [Resp.exitStatus n] <+: q ++ w.toClient i := ⟨rest, by simp [hrest]⟩
  have hall := hexit.mono hpre.subset
  -- no output follows the exit status, so the client is where the pump has ended
  have hdata := hs.exitLast.dataOf_eq hpre hexit fd
  rw [dataOf_append, dataOf_singleton, show (Resp.exitStatus n).dataFor fd = [] from rfl,
    List.append_nil] at hdata
  have hpos := hs.upTo (.inr hall) fd
  obtain ⟨o, ho, hc⟩ := h.seenEnd (.inr (by rw [hT]; exact hall.mono (List.subset_cons_self _ _))) fd
  rw [ho, ← hdata, ← hp fd, PumpPc.pos] at hpos
  rwa [hpos]

/-- A client that was told the exit status is done and has received all the output. -/
def ExitInv (w : World) : Prop :=
  ∀ n, w.client.done = some (.exit n) →
    w.client.pc = .finished ∧ ∀ fd, Complete w fd (w.client.offset fd)

theorem ExitInv.mono (h : ExitInv w) (hg : Grows w w')
    (hpc : w'.client.pc = w.client.pc) (ho : w'.client.offset = w.client.offset)
    (hd : w'.client.done = w.client.done) : ExitInv w' := by
  intro n hn
  obtain ⟨h1, h2⟩ := h n (hd ▸ hn)
  exact ⟨hpc.trans h1, fun fd => ho ▸ (h2 fd).mono hg⟩

theorem ExitInv.step_remote {e : Remote} (h : ExitInv w) (hs : Served w)
    (hp : Position w) (he : e.Enabled w) : ExitInv (e.fire w) := by
  have hg : Grows w (e.fire w) := Event.grows (e := .remote e) he
  -- `process` takes no step once it is done
  have hopen : ∀ {pc}, w.client.pc = pc → pc ≠ .finished →
      ∀ n, w.client.done ≠ some (.exit n) :=
    fun h1 h2 n hn => h2 (h1.symm.trans (h n hn).1)
  cases e with
  | recvExit n =>
    obtain ⟨hpc, hm⟩ := he
    obtain ⟨-, -, hf⟩ := hp.follows w.client.runClient (by simp [Client.stream, hpc])
    refine fun _ _ => ⟨rfl, fun fd => ?_⟩
    have hc := hf.complete (hs.2 _) hm fd
    simp only [Client.position, Client.inHand, hpc, List.length_nil, Nat.add_zero] at hc
    exact hc.mono hg
  | recvStraggler | cancel | stdinRead | stdinEof | stdinGet | stdinSent | stdinFailed
  | stdinSwapped | stdinFinished | stdinMark | stdinFetch | stdinClose | call | callGet
  | callSent | callFailed | callPark | callRetry => exact h.mono hg rfl rfl rfl
  | connectFail | recvGiveUp | writeFail | giveUp | handshakeNotFound =>
    intro n hn
    simp [Remote.fire] at hn
  | connect | writeDone | install | flushDone | requeue | replayClose | replaySkip =>
    exact fun n hn => absurd hn (hopen he (by simp) n)
  | _ => exact fun n hn => absurd hn (hopen he.1 (by simp) n)

theorem ExitInv.step (h : ExitInv w) (hs : Served w) (hp : Position w)
    (he : e.Enabled w) : ExitInv (e.fire w) := by
  have hg := Event.grows he
  cases e with
  | host e => cases e <;> exact h.mono hg rfl rfl rfl
  | serve i e =>
    refine h.mono hg ?_ ?_ ?_ <;> rw [Event.fire, Serve.fire_client]
  | remote e => exact h.step_remote hs hp he
  | _ => exact h.mono hg rfl rfl rfl

/-! ### All of it, once and in order -/

/-- The invariant of a lossless command and its sole client, while the grace is long enough. -/
structure LosslessInv (w : World) : Prop where
  resume : ResumeInv w
  drain : DrainInv w
  sole : Sole w
  confirmed : Confirmed w
  exit : ExitInv w

theorem LosslessInv.init {s : Start} (hk : s.spec.persistence = .kill)
    (hb : s.byClient = true) : LosslessInv (.init s) :=
  ⟨.init s, .init s, .init hb, .init hk, nofun⟩

theorem LosslessInv.step (h : LosslessInv w) (he : e.Enabled w)
    (hok : DrainsInTime w e) : LosslessInv (e.fire w) := by
  have hf : e.isForeignOpen = false := by
    cases e with
    | foreignOpen => exact hok.elim
    | _ => rfl
  have hp := h.resume.position
  have hs := h.resume.served
  exact ⟨h.resume.step he, h.drain.step he hok, h.sole.step hp he hf,
    h.confirmed.step h.sole hp hs he hf, h.exit.step hs hp he⟩

/-- **Nothing is lost.**  A resumable client that started a kill-policy command and is told its
exit status has read exactly the bytes the command wrote to each output, in every run in which the
drain grace expires only when all that was written is in the rings. -/
theorem lossless_delivery (s : Start) (hk : s.spec.persistence = .kill) (hb : s.byClient = true)
    (w : World) (hw : Reaches s DrainsInTime w) (n : ℤ)
    (hd : w.client.done = some (.exit n)) (fd : Fd) :
    w.client.delivered fd = w.proc.written fd := by
  have h : LosslessInv w := hw.invariant (.init hk hb) fun _ _ h he hok => h.step he hok
  obtain ⟨hclosed, hlen⟩ := (h.exit n hd).2 fd
  have hflow : w.proc.written fd = w.hist fd := by
    obtain ⟨hpipe, hheld, -⟩ := (h.drain.ok fd).settled (.inl hclosed)
    rw [(h.drain.ok fd).flow, hpipe, hheld, List.append_nil, List.append_nil]
  have hrange : w.client.offset fd ≤ (w.hist fd).length := by
    have hr := (h.resume.delivered fd).range
    rw [h.sole.base fd] at hr
    omega
  rw [(h.resume.delivered fd).eq, h.confirmed.gaps fd, h.sole.base fd, surviving_no_gaps hrange,
    hflow, List.take_of_length_le hlen]

/-- A command with lossless rings of capacity two, started by the resumable client. -/
def smallLossless : Start := ⟨⟨.kill, fun _ => 2, fun _ => by decide⟩, false, false, true⟩

/-- The drainer waits for the client, which loses its stream with two bytes unconfirmed.  Its
re-attach confirms them, and it is served to the end. -/
def resumedLossless : List Event :=
  ([.serve 0 .attachStart, .serve 0 .greetSent, .remote .recvStarted,
    .host (.write .stdout [1, 2, 3]), .host (.drainRead .stdout 3),
    .host (.drainWrite .stdout [1, 2, 3] ⟨[1, 2], 0, 2, false, true, 0⟩ [3]),
    .serve 0 (.pumpRead .stdout 0 [1, 2]), .serve 0 (.pumpSent .stdout 0 [1, 2]),
    .remote (.recvOutput .stdout [1, 2]), .remote (.writeDone .stdout [1, 2]), .remote .ackSkip,
    .brk 0 0 0, .remote (.recvFail .unknown), .remote .reattach,
    .serve 1 (.lookup ⟨2, 0⟩), .serve 1 (.attach ⟨2, 0⟩), .serve 1 (.ackOutput ⟨2, 0⟩),
    .serve 1 (.replayOut ⟨2, 0⟩), .serve 1 (.replayErr ⟨2, 0⟩ 2), .serve 1 (.replySent ⟨2, 0⟩),
    .remote (.recvAttached 1 ⟨2, 0⟩), .remote (.install 1), .remote (.resyncSkip (0, 0) [] false),
    .remote (.flushDone [] false), .remote .replaySkip,
    .host (.drainWrite .stdout [3] ⟨[2, 3], 1, 2, false, true, 2⟩ [])] : List Event) ++
  exitsDrained 7 false ++
  ([.serve 1 (.pumpRead .stdout 2 [3]), .serve 1 (.pumpSent .stdout 2 [3]),
    .serve 1 (.pumpEof .stdout 3 3), .serve 1 (.pumpEof .stderr 0 0), .serve 1 (.joinEof 3 0),
    .serve 1 .exitRead, .serve 1 (.exitSent 7), .remote (.recvOutput .stdout [3]),
    .remote (.writeDone .stdout [3]), .remote .ackSkip, .remote (.recvExit 7)] : List Event)

/-- The theorem at a run in which the drainer waits, the stream breaks and the client resumes. -/
theorem lossless_delivery_resumed :
    ∃ w, Reaches smallLossless DrainsInTime w ∧ w.client.done = some (.exit 7) ∧
      w.proc.written .stdout = [1, 2, 3] ∧ w.client.delivered .stdout = w.proc.written .stdout := by
  have hrun : ∃ w ∈ system.exec DrainsInTime (.init smallLossless) resumedLossless,
      w.client.done = some (.exit 7) ∧ w.proc.written .stdout = [1, 2, 3] := by decide +kernel
  obtain ⟨w, hw, hd, hwritten⟩ := Machine.exists_run_of_exec _ _ hrun
  exact ⟨w, hw, hd, hwritten, lossless_delivery smallLossless rfl rfl w hw 7 hd .stdout⟩

/-- **At every moment**, what the client has read begins what the command has written. -/
theorem lossless_so_far (s : Start) (hk : s.spec.persistence = .kill) (hb : s.byClient = true)
    (w : World) (hw : Reaches s DrainsInTime w) (fd : Fd) :
    ∃ rest, w.proc.written fd = w.client.delivered fd ++ rest := by
  have h : LosslessInv w := hw.invariant (.init hk hb) fun _ _ h he hok => h.step he hok
  have hr := (h.resume.delivered fd).range
  rw [h.sole.base fd] at hr
  rw [(h.resume.delivered fd).eq, h.confirmed.gaps fd, h.sole.base fd, surviving_no_gaps (by omega),
    (h.drain.ok fd).flow]
  refine ⟨(w.hist fd).drop (w.client.offset fd) ++ (w.drain fd).held ++ w.proc.pipe fd, ?_⟩
  simp only [← List.append_assoc, List.take_append_drop]

theorem lossless_so_far_resumed : ∃ w, Reaches smallLossless DrainsInTime w ∧
    ∃ rest, [1, 2, 3] = w.client.delivered .stdout ++ rest := by
  have hrun : ∃ w ∈ system.exec DrainsInTime (.init smallLossless) resumedLossless,
      w.proc.written .stdout = [1, 2, 3] := by decide +kernel
  obtain ⟨w, hw, hout⟩ := Machine.exists_run_of_exec _ _ hrun
  exact ⟨w, hw, hout ▸ lossless_so_far _ rfl rfl w hw .stdout⟩

/-- The command writes three bytes and exits.  The attached client has read none of them when the
grace expires; the drainer still holds the third. -/
def slowClient : List Event :=
  [.serve 0 .attachStart, .serve 0 .greetSent, .remote .recvStarted,
    .host (.write .stdout [1, 2, 3]), .host (.drainRead .stdout 3),
    .host (.drainWrite .stdout [1, 2, 3] ⟨[1, 2], 0, 2, false, true, 0⟩ [3]),
    .host (.exit 0 false), .host (.closeOutput .stdout), .host (.closeOutput .stderr),
    .host (.drainEof .stderr), .host (.drainClose .stderr), .host .reapWait, .host .reapGrace,
    .host (.reapCloseRing .stdout), .host (.reapCloseRing .stderr),
    .host (.drainFail .stdout [3]), .host (.drainClose .stdout), .host .reapAwaited,
    .host .reapRelease, .host .reapRecord, .host (.reapSignal false), .host (.reapForget false),
    .serve 0 (.pumpRead .stdout 0 [1, 2]), .serve 0 (.pumpSent .stdout 0 [1, 2]),
    .serve 0 (.pumpEof .stdout 2 2), .serve 0 (.pumpEof .stderr 0 0), .serve 0 (.joinEof 2 0),
    .serve 0 .exitRead, .serve 0 (.exitSent 0), .remote (.recvOutput .stdout [1, 2]),
    .remote (.writeDone .stdout [1, 2]), .remote .ackSkip, .remote (.recvExit 0)]

/-- The client was attached all the time, nothing broke and no kill was scheduled; it is told that
the command exited with status 0, and the last byte is lost. -/
theorem slow_client_loses_output :
    ∃ w, Reaches smallLossless (fun _ _ => True) w ∧ w.killCount = 0 ∧ w.broken 0 = false ∧
      w.opened = 1 ∧ w.client.done = some (.exit 0) ∧ w.proc.written .stdout = [1, 2, 3] ∧
      w.client.delivered .stdout = [1, 2] := by
  have hrun : ∃ w ∈ system.exec (fun _ _ => True) (.init smallLossless) slowClient,
      w.killCount = 0 ∧ w.broken 0 = false ∧ w.opened = 1 ∧ w.client.done = some (.exit 0) ∧
        w.proc.written .stdout = [1, 2, 3] ∧ w.client.delivered .stdout = [1, 2] := by
    decide +kernel
  exact Machine.exists_run_of_exec _ _ hrun

end Graft.Command
