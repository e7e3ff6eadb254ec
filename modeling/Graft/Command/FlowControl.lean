import Graft.Command.Lossless
import Graft.Command.Requests

/-!
# Flow control

The drainer of a lossless ring waits until the client confirms what it has read.  The client
confirms its offsets each time it has read another `commandAckEveryBytes` bytes, by a request on
its stream.  Once the consumer's input has ended, the stream is half-closed and such a request is
rejected; with that the stream ends, and the re-attach confirms what the request would have.

`flow_never_wedges`: with rings of at least `commandAckEveryBytes` bytes, a drainer never waits for a
client that has read everything and has no acknowledgement on its way.
-/

namespace Graft.Command

open Function (update update_self update_of_ne)

/-- The client is on a healthy stream and waits for more output; the drainer waits for space in a
ring of which the client has read everything; and no acknowledgement on its way releases any. -/
structure Wedged (w : World) (fd : Fd) : Prop where
  consuming : w.client.pc = .recv
  healthy : w.Healthy w.client.runClient
  blocked : ∃ p, w.drain fd = .writing p ∧ (w.cmd.rings fd).write p = .blocked
  consumed : (w.cmd.rings fd).endOffset ≤ w.client.offset fd
  unconfirmed : ∀ o, Coming w w.client.runClient (.ack o) → o fd ≤ (w.cmd.rings fd).released

/-- Nobody but the resumable client attaches. -/
def OneClient (_ : World) (e : Event) : Prop := e.isForeignOpen = false

instance (w : World) (e : Event) : Decidable (OneClient w e) := inferInstanceAs (Decidable (_ = _))

/-! ### A re-attach confirms -/

/-- The handler has released the offsets it was asked for and not yet answered. -/
def HandlerPc.answering : HandlerPc → Bool
  | .replayOut _ | .replayErr _ _ | .replying _ => true
  | _ => false

/-- An attach request is answered only after its offsets were released. -/
structure Answered (w : World) (i : ℕ) : Prop where
  answering : (w.handler i).answering = true → ∀ fd, w.asked i fd ≤ (w.cmd.rings fd).released
  greeted : ∀ r, (w.received i ++ w.toClient i).head? = some (.attached r) →
    ∀ fd, w.asked i fd ≤ (w.cmd.rings fd).released

theorem Answered.mono {w w' : World} {i : ℕ} (h : Answered w i) (hg : Grows w w')
    (hu : Untouched w w' i) : Answered w' i where
  answering hh fd := by
    rw [hu.asked]
    exact (h.answering (hu.handler ▸ hh) fd).trans (hg fd).released_le
  greeted r hr fd := by
    rw [hu.asked]
    refine (h.greeted r ?_ fd).trans (hg fd).released_le
    rcases hu.messages with hm | ⟨-, t, hm⟩
    · rwa [← hm]
    grind

theorem StreamInv.idle_silent {w : World} {i : ℕ} (h : StreamInv w i) (hi : w.handler i = .idle)
    (r : Offsets) : (w.received i ++ w.toClient i).head? ≠ some (.attached r) := by
  intro hr
  have ht := h.transcript
  obtain ⟨q, hq⟩ := List.head?_eq_some_iff.1 hr
  rw [hq] at ht
  cases ht with
  | greeted _ hs => exact absurd hs.served (by simp [hi, HandlerPc.served])

theorem Answered.own {w : World} {i : ℕ} {e : Serve} (h : Answered w i) (hs : StreamInv w i)
    (he : e.Enabled w i) : Answered (e.fire w i) i := by
  have hrel : ∀ {fd n}, n ≤ (w.cmd.rings fd).released →
      n ≤ ((e.fire w i).cmd.rings fd).released :=
    fun hn => hn.trans (Serve.grows w i e _).released_le
  have hphase : ∀ {pc}, w.handler i = pc → pc.answering = true →
      ∀ fd, w.asked i fd ≤ (w.cmd.rings fd).released := fun h1 h2 => h.answering (h1 ▸ h2)
  constructor
  · intro hh fd
    cases e with
    | ackOutput o =>
      rw [show (Serve.fire w i (.ackOutput o)).asked i = o from
        hs.asked o (by rw [show w.handler i = _ from he]; rfl)]
      simp [Serve.fire, ManagedCommand.ackOutput, OutputRing.setReleased_released]
    | replayOut o => exact hphase he rfl fd
    | replayErr o out => exact hphase he rfl fd
    | greetSent | replySent => simp [Serve.fire, Serve.serveFrom, HandlerPc.answering] at hh
    | attachStart | greetFailed | lookup | lookupMissing | refuse | attach | replyFailed
    | joinStopped | joinEof | exitError | exitRead | exitSent | exitSendFailed | remove | leave
    | ret => simp [Serve.fire, HandlerPc.answering] at hh
    | _ => exact hrel (h.answering hh fd)
  · intro r hr fd
    rw [Serve.fire_received, Serve.fire_toClient_self, ← List.append_assoc,
      List.head?_append] at hr
    cases hT : (w.received i ++ w.toClient i).head? with
    | some m =>
      have hm : m = .attached r := by simpa [hT] using hr
      subst hm
      cases e with
      | lookup | lookupMissing => exact absurd hT (hs.idle_silent he.2.1 r)
      | _ => exact hrel (h.greeted r hT fd)
    | none =>
      simp only [hT, Option.none_or] at hr
      split_ifs at hr
      · simp at hr
      · cases e with
        | replySent => exact hrel (hphase he.1 rfl fd)
        | _ => simp [Serve.sends] at hr

theorem Answered.step {w : World} {e : Event} {i : ℕ} (h : Answered w i) (hs : StreamInv w i)
    (he : e.Enabled w) : Answered (e.fire w) i := by
  cases e.streamStep w i with
  | own f hf =>
    subst hf
    exact h.own hs he
  | other hu => exact h.mono (Event.grows he) hu
  | opens hn =>
    constructor
    · simp [hn.handler, HandlerPc.answering]
    · simp [hn.received, hn.toClient]

/-- An acknowledgement on its way arrives, as long as the stream is healthy. -/
theorem Coming.released {w : World} {i : ℕ} {e : Serve} {o : Offsets} (h : Coming w i (.ack o))
    (hr : RequestInv w i) (he : e.Enabled w i) (hw : (e.fire w i).Healthy i) :
    Coming (e.fire w i) i (.ack o) ∨ ∀ fd, o fd ≤ ((e.fire w i).cmd.rings fd).released := by
  refine (h.own (by simp) hr he hw).imp_right fun hx fd => ?_
  cases e with
  | inAck =>
    cases hx
    simp [Serve.fire, ManagedCommand.ackOutput, OutputRing.setReleased_released]
  | _ => simp [Serve.handles] at hx

/-! ### What the client has read is confirmed -/

/-- The offsets `a` are confirmed or about to be, and the client has read less than
`commandAckEveryBytes` bytes beyond them, unless it is just looking whether it has. -/
structure Credit (w : World) (i : ℕ) (a : Offsets) : Prop where
  le : ∀ fd, a fd ≤ w.client.offset fd
  acked : w.client.lastAckedTotal ≤ (a.stdout + a.stderr)
  recent : w.client.pc ≠ .acking → w.client.total < (a.stdout + a.stderr) + commandAckEveryBytes
  confirmed : ∀ fd, a fd ≤ (w.cmd.rings fd).released ∨ ∃ o, a fd ≤ o fd ∧ Coming w i (.ack o)

/-- What the client has read on a healthy stream is confirmed. -/
structure CreditInv (w : World) : Prop where
  acked : w.client.lastAckedTotal ≤ w.client.total
  credit : ∀ i, w.client.stream = some i → w.Healthy i → ∃ a, Credit w i a

theorem Credit.mono {w w' : World} {i : ℕ} {a : Offsets} (h : Credit w i a)
    (ho : ∀ fd, w.client.offset fd ≤ w'.client.offset fd)
    (hl : w'.client.lastAckedTotal = w.client.lastAckedTotal)
    (hp : w'.client.pc ≠ .acking → w.client.pc ≠ .acking ∧ w'.client.total = w.client.total)
    (hr : ∀ fd, (w.cmd.rings fd).released ≤ (w'.cmd.rings fd).released)
    (ha : ∀ o, Coming w i (.ack o) →
      Coming w' i (.ack o) ∨ ∀ fd, o fd ≤ (w'.cmd.rings fd).released) : Credit w' i a where
  le fd := (h.le fd).trans (ho fd)
  acked := hl ▸ h.acked
  recent hpc := by
    obtain ⟨h1, h2⟩ := hp hpc
    exact h2 ▸ h.recent h1
  confirmed fd := by
    rcases h.confirmed fd with hc | ⟨o, hao, hc⟩
    · exact .inl (hc.trans (hr fd))
    · grind

theorem CreditInv.mono {w w' : World} (h : CreditInv w) (hc : w'.client = w.client)
    (hg : Grows w w') (hw : ∀ i, w.client.stream = some i → w'.Healthy i → w.Healthy i)
    (ha : ∀ i o, w'.Healthy i → Coming w i (.ack o) →
      Coming w' i (.ack o) ∨ ∀ fd, o fd ≤ (w'.cmd.rings fd).released) : CreditInv w' := by
  refine ⟨by rw [hc]; exact h.acked, fun i hi hw' => ?_⟩
  rw [hc] at hi
  obtain ⟨a, hcr⟩ := h.credit i hi (hw i hi hw')
  exact ⟨a, hcr.mono (fun fd => by rw [hc]) (by rw [hc]) (fun hp => by rw [hc] at *; exact ⟨hp, rfl⟩)
    (fun fd => (hg fd).released_le) fun o => ha i o hw'⟩

theorem CreditInv.go_on {w w' : World} (h : CreditInv w)
    (hs : w'.client.stream = w.client.stream) (ho : w'.client.offset = w.client.offset)
    (hl : w'.client.lastAckedTotal = w.client.lastAckedTotal)
    (hp : w'.client.pc ≠ .acking → w.client.pc ≠ .acking)
    (hcmd : w'.cmd = w.cmd) (hb : w'.broken = w.broken) (hi : w'.input = w.input)
    (hq : ∀ i, w.toServer i ⊆ w'.toServer i) : CreditInv w' := by
  have htotal : w'.client.total = w.client.total := by rw [Client.total, ho]; rfl
  refine ⟨by rw [hl, htotal]; exact h.acked, fun i hstream hw => ?_⟩
  obtain ⟨a, hcr⟩ := h.credit i (hs ▸ hstream)
    ⟨by rw [← hb]; exact hw.1, by rw [← hcmd]; exact hw.2⟩
  exact ⟨a, hcr.mono (fun fd => by rw [ho]) hl (fun hpc => ⟨hp hpc, htotal⟩)
    (fun fd => by rw [hcmd]) fun o hc => .inl (hc.mono (by rw [hi]) (hq i))⟩

theorem CreditInv.left {w w' : World} (h : CreditInv w) (hs : w'.client.stream = none)
    (ho : w'.client.offset = w.client.offset)
    (hl : w'.client.lastAckedTotal = w.client.lastAckedTotal) : CreditInv w' := by
  have htotal : w'.client.total = w.client.total := by rw [Client.total, ho]; rfl
  exact ⟨by rw [hl, htotal]; exact h.acked, fun i hi => by simp [hs] at hi⟩

/-- The invariant of the streams, the rings and the client that flow control rests on. -/
structure FlowInv (w : World) : Prop where
  resume : ResumeInv w
  requests : RequestsInv w
  sole : Sole w
  confirmed : Confirmed w
  answered : ∀ i, Answered w i
  credit : CreditInv w

namespace FlowInv

variable {w : World} (h : FlowInv w)
include h

theorem reattached {j : ℕ} {r : Offsets} (he : Remote.Enabled w (.recvAttached j r)) :
    CreditInv (Remote.fire w (.recvAttached j r)) := by
  obtain ⟨hpc, hm⟩ := he
  have hr := h.confirmed.replay_eq h.resume.position h.resume.served hpc hm
  obtain ⟨-, -, h0, hasks⟩ := h.resume.position.handshake j hpc
  have hhead : (w.received j ++ w.toClient j).head? = some (.attached r) := by rw [h0]; exact hm
  have ho : (Remote.fire w (.recvAttached j r)).client.offset = w.client.offset := by
    funext fd
    simp [Remote.fire, hr fd]
  have htotal : (Remote.fire w (.recvAttached j r)).client.total = w.client.total := by
    rw [Client.total, ho]
    rfl
  refine ⟨htotal ▸ h.credit.acked, fun i hi _ => ⟨.of w.client.offset, fun fd => ?_,
    h.credit.acked, fun _ => ?_, fun fd => .inl ?_⟩⟩
  · rw [ho, Offsets.of_get]
  · rw [htotal]
    exact Nat.lt_add_of_pos_right (by decide)
  · have hrel := (h.answered j).greeted r hhead fd
    rwa [hasks.greeted r hhead] at hrel

theorem acknowledged (he : Remote.Enabled w .ackSent) : CreditInv (Remote.fire w .ackSent) := by
  obtain ⟨hpc, -, hcan⟩ := he
  refine ⟨le_rfl, fun i hi hw => ⟨.of w.client.offset, fun fd => (Offsets.of_get _ _).le, le_rfl,
    fun _ => Nat.lt_add_of_pos_right (by decide), fun fd => .inr ⟨.of w.client.offset, le_rfl, ?_⟩⟩⟩
  have hrun : i = w.client.runClient := (Option.some.inj hi).symm
  subst hrun
  have hserved := h.resume.stream_served (i := w.client.runClient) (by simp [Client.stream, hpc])
  exact Coming.sent (h.requests.stream _) hw hserved hcan rfl rfl

/-- An acknowledgement fails only on a stream that has ended. -/
theorem unacknowledged (he : Remote.Enabled w .ackFailed) : CreditInv (Remote.fire w .ackFailed) := by
  obtain ⟨hpc, -, hfail⟩ := he
  refine ⟨h.credit.acked, fun i hi hw => absurd ?_ ((h.requests.stream i).not_gone hw)⟩
  have hrun : i = w.client.runClient := (Option.some.inj hi).symm
  subst hrun
  exact hfail.elim (h.requests.stream _).clientDown id

theorem step_remote {e : Remote} (he : e.Enabled w) : CreditInv (e.fire w) := by
  have hc := h.credit
  have hrefl := fun i => List.Subset.refl (w.toServer i)
  cases e with
  | connect => exact absurd he h.sole.absent
  | recvStarted =>
    obtain ⟨-, h0⟩ := h.sole.connecting 0 he.1
    have hl : w.client.lastAckedTotal ≤ 0 := by
      grind [CreditInv.acked, Client.total]
    refine ⟨hl, fun i hi hw => ⟨⟨0, 0⟩, fun fd => ?_, hl, fun _ => ?_, fun fd => .inl ?_⟩⟩
    · cases fd <;> exact le_rfl
    · exact (by decide : 0 < commandAckEveryBytes)
    · cases fd <;> exact Nat.zero_le _
  | recvFirstAttached j r => exact (h.sole.not_firstAttached h.resume.position he).elim
  | recvAttached j r => exact h.reattached he
  | connectFail | recvExit | recvFail | recvGiveUp | writeFail | reattach | giveUp | handshakeFail
  | handshakeNotFound => exact hc.left rfl rfl rfl
  | recvOutput fd bs =>
    exact hc.go_on (by simp [Remote.fire, Client.stream, he.1]) rfl rfl (by simp [he.1]) rfl rfl rfl
      hrefl
  | writeDone fd bs =>
    have hpc : w.client.pc = .writing fd bs := he
    have hle := Remote.offset_le h.sole (e := .writeDone fd bs) he
    refine ⟨hc.acked.trans (Nat.add_le_add (hle .stdout) (hle .stderr)), fun i hi hw => ?_⟩
    obtain ⟨a, hcr⟩ := hc.credit i (by simpa [Remote.fire, Client.stream, hpc] using hi) hw
    exact ⟨a, hcr.mono hle rfl (fun hx => absurd rfl hx) (fun _ => le_rfl) fun o ha => .inl ha⟩
  | ackSkip =>
    refine ⟨hc.acked, fun i hi hw => ?_⟩
    obtain ⟨a, hcr⟩ := hc.credit i (by simpa [Remote.fire, Client.stream, he.1] using hi) hw
    have hdue := he.2
    have hacked := hcr.acked
    have htotal := hc.acked
    refine ⟨a, hcr.le, hacked, fun _ => ?_, hcr.confirmed⟩
    simp only [Remote.fire, Client.total] at hdue htotal ⊢
    omega
  | ackSent => exact h.acknowledged he
  | ackFailed => exact h.unacknowledged he
  | install j =>
    have hpc : w.client.pc = .installing j := he
    exact hc.go_on (by simp [Remote.fire, Client.stream, hpc]) rfl rfl (by simp [hpc]) rfl rfl rfl
      hrefl
  | resyncSent win todo sd =>
    exact hc.go_on (by simp [Remote.fire, Client.stream, he.1]) rfl rfl (by simp [he.1]) rfl rfl rfl
      (subset_requested w _ _)
  | flushSent m todo failed sd =>
    exact hc.go_on (by simp [Remote.fire, Client.stream, he.1]) rfl rfl (by simp [he.1]) rfl rfl rfl
      (subset_requested w _ _)
  | resyncSkip | resyncFailed | flushFailed =>
    exact hc.go_on (by simp [Remote.fire, Client.stream, he.1]) rfl rfl (by simp [he.1]) rfl rfl rfl
      hrefl
  | flushDone failed sd =>
    have hpc : w.client.pc = .flushing [] failed sd := he
    refine hc.go_on ?_ rfl rfl (by simp [hpc]) rfl rfl rfl hrefl
    by_cases hf : failed = [] <;> simp [Remote.fire, Client.stream, hpc, hf]
  | requeue | replaySkip =>
    have hpc : w.client.pc = _ := he
    exact hc.go_on (by simp [Remote.fire, Client.stream, hpc]) rfl rfl (by simp [hpc]) rfl rfl rfl
      hrefl
  | replayClose =>
    have hpc : w.client.pc = .replaying true := he
    exact hc.go_on (by simp [Remote.fire, Client.stream, hpc]) rfl rfl (by simp [hpc]) rfl rfl rfl
      (subset_halfClosed w _)
  | stdinSent | callSent => exact hc.go_on rfl rfl rfl id rfl rfl rfl (subset_requested w _ _)
  | stdinClose => exact hc.go_on rfl rfl rfl id rfl rfl rfl (subset_halfClosed w _)
  | _ => exact hc.go_on rfl rfl rfl id rfl rfl rfl hrefl

theorem step_credit {e : Event} (he : e.Enabled w) (hf : e.isForeignOpen = false) :
    CreditInv (e.fire w) := by
  have hg := Event.grows he
  have hc := h.credit
  cases e with
  | host e =>
    refine hc.mono ?_ hg (fun i _ hw => ?_) fun i o _ ha => .inl (ha.mono ?_ ?_)
    · cases e <;> rfl
    · cases e with
      | detach => simp [World.Healthy, Event.fire, Host.fire, ManagedCommand.currentIs,
          ManagedCommand.detachAndKeep] at hw
      | _ => exact hw
    · cases e <;> rfl
    · cases e <;> exact List.Subset.refl _
  | serve j e =>
    refine hc.mono (Serve.fire_client w j e) hg (fun i hi hw => ?_) fun i o hw ha => ?_ <;>
      by_cases hij : i = j
    · subst hij
      have hserved := h.resume.stream_served hi
      refine ⟨by simpa [Event.fire] using hw.1,
        (Serve.current_step he hw.2).resolve_right fun hx => ?_⟩
      exact absurd hserved (by simp [hx.2])
    · exact (Serve.beside he hij).healthy hw
    · subst hij
      exact ha.released (h.requests.stream i) he hw
    grind [Coming.mono, Serve.fire_input_of_ne, Event.fire, Serve.fire_toServer_of_ne]
  | remote e => exact h.step_remote he
  | brk j k l =>
    have hne : ∀ {i}, (Event.fire w (.brk j k l)).Healthy i → i ≠ j := by
      rintro i hw rfl
      simp [World.Healthy, Event.fire] at hw
    refine hc.mono rfl hg (fun i _ hw => ?_) fun i o hw ha => .inl (ha.mono rfl ?_)
    · simpa [World.Healthy, Event.fire, hne hw] using hw
    · simpa only [Event.fire, update_of_ne (hne hw)] using List.Subset.refl _
  | foreignOpen => cases hf
  | foreignSend j req =>
    exact hc.mono rfl hg (fun _ _ hw => hw) fun i o _ ha =>
      .inl (ha.mono rfl (subset_requested w j req i))
  | foreignClose j =>
    exact hc.mono rfl hg (fun _ _ hw => hw) fun i o _ ha =>
      .inl (ha.mono rfl (subset_halfClosed w j i))
  | _ => exact hc.mono rfl hg (fun _ _ hw => hw) fun i o _ ha => .inl ha

theorem step {e : Event} (he : e.Enabled w) (hf : e.isForeignOpen = false) :
    FlowInv (e.fire w) := by
  have hp := h.resume.position
  have hs := h.resume.served
  exact ⟨h.resume.step he, h.requests.step he, h.sole.step hp he hf,
    h.confirmed.step h.sole hp hs he hf, fun i => (h.answered i).step (hs.2 i) he,
    h.step_credit he hf⟩

end FlowInv

theorem FlowInv.init {s : Start} (hk : s.spec.persistence = .kill) (hb : s.byClient = true) :
    FlowInv (.init s) := by
  refine ⟨.init s, .init s, .init hb, .init hk, fun i => ⟨?_, ?_⟩, ⟨le_rfl, fun i hi => ?_⟩⟩
  · by_cases hi : i = 0 <;> simp [World.init, hi, HandlerPc.answering]
  · simp [World.init]
  · simp [World.init, hb, Client.stream] at hi

theorem Reaches.capacity {s : Start} {ok : World → Event → Prop} {w : World} (hw : Reaches s ok w)
    (fd : Fd) : (w.cmd.rings fd).capacity = s.spec.ringCapacity fd := by
  refine hw.invariant (I := fun w => (w.cmd.rings fd).capacity = s.spec.ringCapacity fd) ?_
    fun t e h he _ => (Event.grows he fd).capacity.trans h
  simp only [World.init, ManagedCommand.register]
  split_ifs <;> rfl

/-- **Flow control never wedges**, in every run with one resumable client, for lossless rings of at
least `commandAckEveryBytes` bytes: a drainer that waits for space waits for output the client has not
read, or for an acknowledgement on its way. -/
theorem flow_never_wedges (s : Start) (hk : s.spec.persistence = .kill) (hb : s.byClient = true)
    (hcap : ∀ fd, commandAckEveryBytes ≤ s.spec.ringCapacity fd) (w : World)
    (hw : Reaches s OneClient w) (fd : Fd) : ¬ Wedged w fd := by
  intro hwedge
  have h : FlowInv w := hw.invariant (.init hk hb) fun _ _ h he hok => h.step he hok
  obtain ⟨p, -, hblocked⟩ := hwedge.blocked
  have hring := h.resume.served.1 fd
  have hcapacity := hw.capacity fd
  -- the client has confirmed, or is about to, all but the last few bytes it has read
  obtain ⟨a, hcr⟩ := h.credit.credit w.client.runClient
    (by simp [Client.stream, hwedge.consuming]) hwedge.healthy
  have hrecent := hcr.recent (by simp [hwedge.consuming])
  have hreleased : a fd ≤ (w.cmd.rings fd).released := by
    rcases hcr.confirmed fd with hc | ⟨o, hao, hc⟩
    · exact hc
    · exact hao.trans (hwedge.unconfirmed o hc)
  have hunread : w.client.offset fd < a fd + commandAckEveryBytes := by
    have h1 := hcr.le .stdout
    have h2 := hcr.le .stderr
    simp only [Client.total] at hrecent
    cases fd <;> simp only [Offsets.get] at h1 h2 ⊢ <;> omega
  -- while the unconfirmed bytes fill the ring
  have hbase : w.client.offset fd ≤ (w.hist fd).length := by
    have hr := (h.resume.delivered fd).range
    rw [h.sole.base fd] at hr
    omega
  have hend : (w.cmd.rings fd).endOffset = (w.hist fd).length := hring.retains.1
  have hrel := h.confirmed.released fd
  have hlen : (w.cmd.rings fd).buf.length < 2 ^ 63 := by
    have h1 := hring.length_le
    have h2 := s.spec.ringCapacity_lt fd
    omega
  have hfull := OutputRing.length_of_blocked hblocked (h.confirmed.start fd) (by omega) hlen
  have hconsumed := hwedge.consumed
  have := hcap fd
  omega

/-- The consumer's input ends at once and is half-closed; the client reads two bytes, which are too few
to be confirmed. -/
def readsTwo : List Event :=
  [.serve 0 .attachStart, .serve 0 .greetSent, .remote .recvStarted, .remote .stdinEof,
    .remote .stdinMark, .remote .stdinFetch, .remote (.stdinClose 0), .serve 0 .inEof,
    .serve 0 (.inPolicy false), .serve 0 (.inClose false),
    .host (.write .stdout [1, 2]), .host (.drainRead .stdout 2),
    .host (.drainWrite .stdout [1, 2] ⟨[1, 2], 0, 2 ^ 20, false, true, 0⟩ []),
    .serve 0 (.pumpRead .stdout 0 [1, 2]), .serve 0 (.pumpSent .stdout 0 [1, 2]),
    .remote (.recvOutput .stdout [1, 2]), .remote (.writeDone .stdout [1, 2]), .remote .ackSkip]

/-- The theorem at a command with rings of the default capacity, whose client has half-closed its
stream, has read all there is and has confirmed none of it. -/
theorem flow_never_wedges_unconfirmed :
    ∃ w, Reaches (.piped .kill) OneClient w ∧ w.client.pc = .recv ∧ w.Healthy 0 ∧
      w.sendClosed 0 = true ∧ (w.cmd.rings .stdout).released = 0 ∧
      (w.cmd.rings .stdout).endOffset = w.client.offset .stdout ∧ ¬ Wedged w .stdout := by
  have hrun : ∃ w ∈ system.exec OneClient (.init (.piped .kill)) readsTwo,
      w.client.pc = .recv ∧ w.Healthy 0 ∧ w.sendClosed 0 = true ∧
        (w.cmd.rings .stdout).released = 0 ∧
        (w.cmd.rings .stdout).endOffset = w.client.offset .stdout := by decide +kernel
  obtain ⟨w, hw, hpc, hh, hc, hr, he⟩ := Machine.exists_run_of_exec _ _ hrun
  exact ⟨w, hw, hpc, hh, hc, hr, he,
    flow_never_wedges (.piped .kill) rfl rfl (by decide) w hw .stdout⟩

end Graft.Command
