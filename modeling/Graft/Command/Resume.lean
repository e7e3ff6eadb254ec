import Graft.Command.Transcript

/-!
# Resuming after a break

The resumable client counts the bytes it has delivered and asks for the rest from there on.  Its
offset on each output is always the absolute offset, in the history of the ring, of the next byte
it will deliver; what it has delivered is the history without the gaps it reported, and each gap
had been evicted by the ring (`resume_offsets_exact`).

The argument: the offset is the one named by the greeting of the current stream plus the output
received on it since (`Follows`); by the invariant of the stream, its output continues the history
from there.  A re-attach asks for the client's own offset (`Asks`), so the greeting names this
offset or a later one before which the ring has evicted everything.
-/

namespace Graft.Command

open History
open Function (update_self update_of_ne)

variable {w w' : World} {i : ℕ}

/-- The handler has received the attach request and not yet answered it. -/
def HandlerPc.attachPhase : HandlerPc → Bool
  | .attaching _ | .acking _ | .replayOut _ | .replayErr _ _ | .replying _ => true
  | _ => false

/-- Stream `j` asks, or has asked, for the offsets `o`. -/
structure Asks (w : World) (j : ℕ) (o : Offsets) : Prop where
  queued : ∀ o', Req.attach o' ∈ w.toServer j → o' = o
  phase : (w.handler j).attachPhase = true → w.asked j = o
  greeted : ∀ r, (w.received j ++ w.toClient j).head? = some (.attached r) → w.asked j = o

def Resp.IsGreeting (m : Resp) (r : Offsets) : Prop :=
  m = .started ∧ r = ⟨0, 0⟩ ∨ m = .attached r

/-- The client of stream `i` has received a greeting and then the output up to the offsets `p`. -/
def Follows (w : World) (i : ℕ) (p : Fd → ℕ) : Prop :=
  ∃ m r q, w.received i = m :: q ∧ m.IsGreeting r ∧ ∀ fd, p fd = r fd + (dataOf fd q).length

/-- The stream the client's `process` goroutine reads, once it is greeted. -/
def Client.stream (c : Client) : Option ℕ :=
  match c.pc with
  | .absent | .connecting _ | .handshake _ | .resuming | .finished => none
  | .installing j => some j
  | .recv | .writing _ _ | .acking | .resyncing _ _ _ | .flushing _ _ _ | .requeueing _ _ |
    .replaying _ => some c.runClient

/-- The output that has been received and is being written to the consumer. -/
def Client.inHand (c : Client) (fd : Fd) : List Byte :=
  match c.pc with
  | .writing fd' bs => if fd' = fd then bs else []
  | _ => []

/-- The offsets up to which the client has received. -/
def Client.position (c : Client) (fd : Fd) : ℕ := c.offset fd + (c.inHand fd).length

structure Position (w : World) : Prop where
  /-- on the stream it reads -/
  follows : ∀ i, w.client.stream = some i →
    w.own i = true ∧ i < w.opened ∧ Follows w i w.client.position
  /-- in the first handshake -/
  connecting : ∀ j, w.client.pc = .connecting j →
    w.own j = true ∧ j < w.opened ∧ w.received j = []
  /-- in the handshake of a re-attach -/
  handshake : ∀ j, w.client.pc = .handshake j →
    w.own j = true ∧ j < w.opened ∧ w.received j = [] ∧ Asks w j (.of w.client.offset)
  /-- the bytes in hand are those at the offset -/
  inHand : ∀ fd, Reads (w.hist fd) (w.client.offset fd) (w.client.inHand fd)

/-! ### The request of a stream -/

section Asks

variable {w w' : World} {j : ℕ} {o : Offsets}

theorem Asks.mono (hu : Untouched w w' j)
    (hq : ∀ o', Req.attach o' ∈ w'.toServer j → Req.attach o' ∈ w.toServer j) (h : Asks w j o) :
    Asks w' j o where
  queued o' ho := h.queued o' (hq o' ho)
  phase := by
    rw [hu.handler, hu.asked]
    exact h.phase
  greeted r hr := by
    rw [hu.asked]
    refine h.greeted r ?_
    rcases hu.messages with hm | ⟨-, t, hm⟩
    · rwa [← hm]
    grind

theorem Asks.own {e : Serve} (he : e.Enabled w j) (h : Asks w j o) : Asks (e.fire w j) j o := by
  have hfirst : ∀ o', (w.toServer j).head? = some (.attach o') → o' = o :=
    fun o' ho => h.queued o' (List.mem_of_mem_head? ho)
  have hasked : (e.fire w j).asked j = w.asked j ∨ (e.fire w j).asked j = o := by
    cases e with
    | lookup o' | lookupMissing o' =>
      exact .inr (by simpa [Serve.fire] using hfirst o' he.2.2.1)
    | _ => exact .inl rfl
  refine ⟨fun o' ho => h.queued o' ?_, fun hp => ?_, fun r hr => ?_⟩
  · cases e with
    | lookup | lookupMissing | inRecv | inEof =>
      simp only [Serve.fire, update_self] at ho
      exact List.mem_of_mem_tail ho
    | _ => exact ho
  · refine hasked.elim (fun ha => ?_) id
    cases e with
    | lookup o' => simpa [Serve.fire] using hfirst o' he.2.2.1
    | attach | ackOutput | replayOut | replayErr =>
      exact ha.trans (h.phase (by rw [show w.handler j = _ from he]; rfl))
    | greetSent | replySent => simp [Serve.fire, Serve.serveFrom, HandlerPc.attachPhase] at hp
    | attachStart | greetFailed | lookupMissing | refuse | replyFailed | joinStopped | joinEof
    | exitError | exitRead | exitSent | exitSendFailed | remove | leave | ret =>
      simp [Serve.fire, HandlerPc.attachPhase] at hp
    | _ => exact h.phase hp
  · refine hasked.elim (fun ha => ha.trans ?_) id
    rw [Serve.fire_received, Serve.fire_toClient_self, ← List.append_assoc,
      List.head?_append] at hr
    -- the greeting is there already, or this step sends it
    cases hT : (w.received j ++ w.toClient j).head? with
    | some m => exact h.greeted r (by rw [hT]; simpa [hT] using hr)
    | none =>
      simp only [hT, Option.none_or] at hr
      split_ifs at hr
      · simp at hr
      · cases e with
        | replySent => exact h.phase (by rw [he.1]; rfl)
        | _ => simp [Serve.sends] at hr

end Asks

/-! ### Steps that are not the client's -/

/-- What a step that is not the client's leaves of the client's streams. -/
structure Elsewhere (w w' : World) : Prop where
  client : w'.client.pc = w.client.pc ∧ w'.client.runClient = w.client.runClient ∧
    w'.client.offset = w.client.offset
  opened : w.opened ≤ w'.opened
  own : ∀ i, i < w.opened → w.own i = true → w'.own i = true
  received : ∀ i, i < w.opened → w.own i = true → w'.received i = w.received i
  asks : ∀ i o, i < w.opened → w.own i = true → Asks w i o → Asks w' i o

theorem Position.mono (hg : Grows w w') (he : Elsewhere w w') (h : Position w) : Position w' := by
  obtain ⟨hpc, hrun, hoff⟩ := he.client
  have hstream : w'.client.stream = w.client.stream := by
    unfold Client.stream
    rw [hpc, hrun]
  have hhand : w'.client.inHand = w.client.inHand := by
    unfold Client.inHand
    rw [hpc]
  have hpos : w'.client.position = w.client.position := by
    unfold Client.position
    rw [hoff, hhand]
  refine ⟨fun i hi => ?_, fun j hj => ?_, fun j hj => ?_, fun fd => ?_⟩
  · obtain ⟨hown, hlt, hf⟩ := h.follows i (hstream ▸ hi)
    refine ⟨he.own i hlt hown, hlt.trans_le he.opened, ?_⟩
    unfold Follows
    rw [he.received i hlt hown, hpos]
    exact hf
  · obtain ⟨hown, hlt, hr⟩ := h.connecting j (hpc ▸ hj)
    exact ⟨he.own j hlt hown, hlt.trans_le he.opened, (he.received j hlt hown).trans hr⟩
  · obtain ⟨hown, hlt, hr, ha⟩ := h.handshake j (hpc ▸ hj)
    exact ⟨he.own j hlt hown, hlt.trans_le he.opened, (he.received j hlt hown).trans hr,
      hoff ▸ he.asks j _ hlt hown ha⟩
  · rw [hoff, hhand]
    exact (h.inHand fd).mono (hg fd).hist

theorem Serve.elsewhere {e : Serve} (he : e.Enabled w i) : Elsewhere w (e.fire w i) := by
  have hopened : (e.fire w i).opened = w.opened := by cases e <;> rfl
  have hown : (e.fire w i).own = w.own := by cases e <;> rfl
  refine ⟨by rw [Serve.fire_client]; exact ⟨rfl, rfl, rfl⟩, hopened.ge, fun j _ h => hown ▸ h,
    fun j _ _ => by rw [Serve.fire_received], fun j o _ _ ha => ?_⟩
  by_cases hji : j = i
  · subst hji
    exact ha.own he
  · refine ha.mono (e.untouched hji) fun o' ho => ?_
    rwa [e.fire_toServer_of_ne hji] at ho

/-- A step that touches nothing of any stream but the queues towards the server. -/
theorem Elsewhere.of_requests
    (hc : w'.client.pc = w.client.pc ∧ w'.client.runClient = w.client.runClient ∧
      w'.client.offset = w.client.offset)
    (ho : w'.opened = w.opened) (hown : w'.own = w.own) (hr : w'.received = w.received)
    (hu : ∀ i, Untouched w w' i)
    (hq : ∀ i o, Req.attach o ∈ w'.toServer i → Req.attach o ∈ w.toServer i) : Elsewhere w w' :=
  ⟨hc, ho.ge, fun _ _ h => hown ▸ h, fun _ _ _ => by rw [hr],
    fun i _ _ _ ha => ha.mono (hu i) (hq i)⟩

theorem attach_mem_requested {i j : ℕ} {req : Req} {o : Offsets}
    (hreq : req.isAttach = false) (h : Req.attach o ∈ w.requested i req j) :
    Req.attach o ∈ w.toServer j := by
  unfold World.requested at h
  by_cases hji : j = i
  · subst hji
    rw [update_self] at h
    split_ifs at h
    · exact h
    · grind [Req.isAttach]
  grind

theorem attach_mem_halfClosed {i j : ℕ} {o : Offsets}
    (h : Req.attach o ∈ w.halfClosed i j) : Req.attach o ∈ w.toServer j := by
  unfold World.halfClosed at h
  split_ifs at h
  · exact attach_mem_requested rfl h
  · exact h

theorem Elsewhere.openStream (own : Bool) (o : Offsets) : Elsewhere w (w.openStream own o) := by
  refine ⟨⟨rfl, rfl, rfl⟩, Nat.le_succ _, fun i hi h => ?_, fun i hi _ => ?_,
    fun i o' hi _ ha => ?_⟩
  · simpa only [World.openStream, update_of_ne hi.ne] using h
  · simp only [World.openStream, update_of_ne hi.ne]
  · refine ha.mono (.of_eq ?_ ?_ ?_ ?_ ?_ ?_ ?_) fun o'' ho => ?_ <;>
      simp only [World.openStream, update_of_ne hi.ne] at *
    exact ho

/-! ### The client's steps -/

theorem Position.of_stream (hs : w.client.stream = some i)
    (hown : w.own i = true) (hlt : i < w.opened) (hf : Follows w i w.client.position)
    (hh : ∀ fd, Reads (w.hist fd) (w.client.offset fd) (w.client.inHand fd)) : Position w := by
  refine ⟨fun j hj => ?_, fun j hj => ?_, fun j hj => ?_, hh⟩
  · simp_all
  · simp [Client.stream, hj] at hs
  · simp [Client.stream, hj] at hs

theorem Position.go_on (h : Position w)
    (hs : w'.client.stream = w.client.stream) (hsome : w.client.stream ≠ none)
    (hp : w'.client.position = w.client.position) (hown : w'.own = w.own)
    (ho : w'.opened = w.opened) (hr : w'.received = w.received)
    (hh : ∀ fd, Reads (w'.hist fd) (w'.client.offset fd) (w'.client.inHand fd)) : Position w' := by
  obtain ⟨i, hi⟩ := Option.ne_none_iff_exists'.1 hsome
  obtain ⟨hown', hlt, hf⟩ := h.follows i hi
  refine .of_stream (hs.trans hi) (hown ▸ hown') (ho ▸ hlt) ?_ hh
  unfold Follows
  rw [hr, hp]
  exact hf

theorem Position.of_left (hpc : w.client.pc = .resuming ∨ w.client.pc = .finished) :
    Position w := by
  refine ⟨fun i hi => ?_, fun j hj => ?_, fun j hj => ?_, fun fd => ?_⟩
  · rcases hpc with hpc | hpc <;> simp [Client.stream, hpc] at hi
  · rcases hpc with hpc | hpc <;> simp [hpc] at hj
  · rcases hpc with hpc | hpc <;> simp [hpc] at hj
  grind [Reads, Client.inHand]

theorem StreamInv.script (h : StreamInv w i) {m : Resp} {r : Offsets}
    {q : List Resp} (hq : w.received i ++ w.toClient i = m :: q) (hm : m.IsGreeting r) :
    Script w i r q ∧ (m = .attached r → ∀ fd, Fits (w.cmd.rings fd) (w.asked i fd) (r fd)) := by
  have ht := h.transcript
  rw [hq] at ht
  cases ht with
  | refused => simp [Resp.IsGreeting] at hm
  | greeted hg hs =>
    cases hg with
    | started hr =>
      grind [Resp.IsGreeting]
    | attached hr =>
      grind [Resp.IsGreeting]

/-- The output on its way to the client continues the history where the client is. -/
theorem Follows.upcoming {p : Fd → ℕ} (hf : Follows w i p)
    (h : StreamInv w i) (fd : Fd) : Reads (w.hist fd) (p fd) (dataOf fd (w.toClient i)) := by
  obtain ⟨m, r, q, hr, hm, hp⟩ := hf
  have hs := (h.script (by rw [hr, List.cons_append]) hm).1.reads fd
  grind [reads_append, dataOf_append]

theorem Follows.pop {p p' : Fd → ℕ} {m : Resp} (hf : Follows w i p)
    (hm : (w.toClient i).head? = some m) (hr : w'.received = (w.pop i).received)
    (hp : ∀ fd, p' fd = p fd + (m.dataFor fd).length) : Follows w' i p' := by
  obtain ⟨g, r, q, hq, hg, hpos⟩ := hf
  refine ⟨g, r, q ++ [m], ?_, hg, fun fd => ?_⟩
  · simp [hr, World.pop, hm, hq]
  · rw [hp, hpos, dataOf_append, dataOf_singleton, List.length_append, Nat.add_assoc]

theorem Follows.greeted {m : Resp} {r : Offsets} {p : Fd → ℕ}
    (h0 : w.received i = []) (hm : (w.toClient i).head? = some m)
    (hr : w'.received = (w.pop i).received) (hg : m.IsGreeting r) (hp : ∀ fd, p fd = r fd) :
    Follows w' i p :=
  ⟨m, r, [], by simp [hr, World.pop, hm, h0], hg, by simpa using hp⟩

theorem Position.replay_fits (h : Position w) (hs : Served w) {j : ℕ} {r : Offsets}
    (hpc : w.client.pc = .handshake j) (hm : (w.toClient j).head? = some (.attached r)) (fd : Fd) :
    Fits (w.cmd.rings fd) (w.client.offset fd) (r fd) := by
  obtain ⟨-, -, h0, ha⟩ := h.handshake j hpc
  obtain ⟨q, hq⟩ : ∃ q, w.toClient j = .attached r :: q := List.head?_eq_some_iff.1 hm
  have hT : w.received j ++ w.toClient j = .attached r :: q := by rw [h0, hq]; rfl
  have hfit := ((hs.2 j).script hT (.inr rfl)).2 rfl fd
  rw [ha.greeted r (by rw [hT]; rfl), Offsets.of_get] at hfit
  exact hfit

theorem Position.step_remote {e : Remote} (h : Position w) (hs : Served w)
    (he : e.Enabled w) : Position (e.fire w) := by
  have hgrow : Grows w (e.fire w) := Event.grows (e := .remote e) he
  cases e with
  | connect o =>
    refine ⟨fun i hi => by simp [Remote.fire, Client.stream] at hi, fun j hj => ?_,
      fun j hj => by simp [Remote.fire] at hj, fun fd => by
        simpa [Remote.fire, Client.inHand] using Reads.nil⟩
    cases hj
    simp [Remote.fire, World.openStream]
  | reattach =>
    refine ⟨fun i hi => by simp [Remote.fire, Client.stream] at hi,
      fun j hj => by simp [Remote.fire] at hj, fun j hj => ?_, fun fd => by
        simpa [Remote.fire, Client.inHand] using Reads.nil⟩
    cases hj
    refine ⟨by simp [Remote.fire, World.openStream], by simp [Remote.fire, World.openStream],
      by simp [Remote.fire, World.openStream], ?_, ?_, ?_⟩
    · simp [Remote.fire, World.openStream]
    · simp [Remote.fire, World.openStream, HandlerPc.attachPhase]
    · simp [Remote.fire, World.openStream]
  | recvStarted =>
    obtain ⟨hown, hlt, h0⟩ := h.connecting 0 he.1
    exact .of_stream rfl hown hlt
      (.greeted h0 he.2 rfl (.inl ⟨rfl, rfl⟩) fun fd => by cases fd <;> rfl) fun fd => .nil
  | recvFirstAttached j r =>
    obtain ⟨hown, hlt, h0⟩ := h.connecting j he.1
    exact .of_stream rfl hown hlt (.greeted h0 he.2 rfl (.inr rfl) fun fd => rfl) fun fd => .nil
  | recvAttached j r =>
    obtain ⟨hown, hlt, h0, -⟩ := h.handshake j he.1
    exact .of_stream rfl hown hlt
      (.greeted h0 he.2 rfl (.inr rfl) fun fd => max_eq_right (h.replay_fits hs he.1 he.2 fd).1)
      fun fd => .nil
  | recvOutput fd bs =>
    obtain ⟨hown, hlt, hf⟩ := h.follows w.client.runClient (by simp [Client.stream, he.1])
    obtain ⟨q, hq⟩ := List.head?_eq_some_iff.1 he.2
    have hup := fun fd' => hf.upcoming (hs.2 _) fd'
    have hpos : ∀ fd', w.client.position fd' = w.client.offset fd' := by
      simp [Client.position, Client.inHand, he.1]
    refine .of_stream rfl hown hlt (hf.pop he.2 rfl fun fd' => ?_) fun fd' => ?_
    · simp [Remote.fire, Client.position, Client.inHand, Resp.dataFor, he.1]
    · have := hup fd'
      rw [hq, hpos] at this
      exact (reads_append.1 this).1
  | recvStraggler m =>
    obtain ⟨hpc, hm, hkind⟩ := he
    obtain ⟨hown, hlt, hf⟩ := h.follows w.client.runClient (by simp [Client.stream, hpc])
    refine .of_stream (by simp [Remote.fire, World.pop, Client.stream, hpc]) hown hlt
      (hf.pop hm rfl fun fd' => ?_) h.inHand
    rcases hkind with rfl | ⟨r, rfl⟩ <;> simp [Remote.fire, World.pop, Resp.dataFor]
  | writeDone fd bs =>
    refine h.go_on ?_ ?_ ?_ rfl rfl rfl fun fd' => .nil
    · simp [Remote.fire, Client.stream, show w.client.pc = _ from he]
    · simp [Client.stream, show w.client.pc = _ from he]
    · funext fd'
      by_cases hfd : fd' = fd
      · subst hfd
        simp [Remote.fire, Client.position, Client.inHand, show w.client.pc = _ from he]
      · simp [Remote.fire, Client.position, Client.inHand, show w.client.pc = _ from he, hfd,
          Ne.symm hfd]
  | connectFail | recvExit | recvGiveUp | writeFail | giveUp | handshakeNotFound =>
    exact .of_left (.inr rfl)
  | recvFail | handshakeFail => exact .of_left (.inl rfl)
  | flushDone failed sd =>
    have hpc : w.client.pc = .flushing [] failed sd := he
    refine h.go_on ?_ (by simp [Client.stream, hpc]) ?_ rfl rfl rfl fun fd => ?_
    · by_cases hf : failed = [] <;> simp [Remote.fire, Client.stream, hpc, hf]
    · funext fd
      by_cases hf : failed = [] <;>
        simp [Remote.fire, Client.position, Client.inHand, hpc, hf]
    · by_cases hf : failed = [] <;> simpa [Remote.fire, Client.inHand, hf] using Reads.nil
  | install | requeue | replayClose | replaySkip =>
    have hpc : w.client.pc = _ := he
    exact h.go_on (by simp [Remote.fire, Client.stream, hpc]) (by simp [Client.stream, hpc])
      (by funext fd; simp [Remote.fire, Client.position, Client.inHand, hpc]) rfl rfl rfl
      fun fd => .nil
  | ackSkip | ackSent | ackFailed | resyncSkip | resyncSent | resyncFailed | flushSent
  | flushFailed =>
    have hpc : w.client.pc = _ := he.1
    exact h.go_on (by simp [Remote.fire, Client.stream, hpc]) (by simp [Client.stream, hpc])
      (by funext fd; simp [Remote.fire, Client.position, Client.inHand, hpc]) rfl rfl rfl
      fun fd => .nil
  | stdinSent | callSent =>
    exact h.mono hgrow (.of_requests ⟨rfl, rfl, rfl⟩ rfl rfl rfl
      (fun i => .of_eq rfl rfl rfl rfl rfl rfl rfl) fun i o ho => attach_mem_requested rfl ho)
  | stdinClose =>
    exact h.mono hgrow (.of_requests ⟨rfl, rfl, rfl⟩ rfl rfl rfl
      (fun i => .of_eq rfl rfl rfl rfl rfl rfl rfl) fun i o ho => attach_mem_halfClosed ho)
  | _ =>
    exact h.mono hgrow (.of_requests ⟨rfl, rfl, rfl⟩ rfl rfl rfl
      (fun i => .of_eq rfl rfl rfl rfl rfl rfl rfl) fun i o ho => ho)

/-- **Every step keeps the client's position.** -/
theorem Position.step {e : Event} (h : Position w) (hs : Served w)
    (he : e.Enabled w) : Position (e.fire w) := by
  have hgrow := Event.grows he
  cases e with
  | host e =>
    refine h.mono hgrow (.of_requests ?_ ?_ ?_ ?_ (fun i => ?_) ?_) <;> cases e <;>
      first | exact ⟨rfl, rfl, rfl⟩ | rfl | exact .of_eq rfl rfl rfl rfl rfl rfl rfl |
        exact fun _ _ ho => ho
  | serve i e => exact h.mono hgrow (Serve.elsewhere he)
  | remote e => exact h.step_remote hs he
  | brk j k l =>
    refine h.mono hgrow (.of_requests ⟨rfl, rfl, rfl⟩ rfl rfl rfl (brk_untouched w j · k l)
      fun i o ho => ?_)
    by_cases hij : i = j
    · subst hij
      simp only [Event.fire, update_self] at ho
      exact List.mem_of_mem_take ho
    · simpa only [Event.fire, update_of_ne hij] using ho
  | notice =>
    exact h.mono hgrow (.of_requests ⟨rfl, rfl, rfl⟩ rfl rfl rfl
      (fun i => .of_eq rfl rfl rfl rfl rfl rfl rfl) fun i o ho => ho)
  | foreignOpen => exact h.mono hgrow (.openStream _ _)
  | foreignSend i req =>
    refine h.mono hgrow ⟨⟨rfl, rfl, rfl⟩, le_rfl, fun _ _ h => h, fun _ _ _ => rfl,
      fun j o _ hown ha => Asks.mono (w := w) (.of_eq rfl rfl rfl rfl rfl rfl rfl)
        (fun o' ho => ?_) ha⟩
    have hji : j ≠ i := fun hji => absurd (hown.symm.trans (hji ▸ he.2.1)) (by simp)
    simpa only [Event.fire, World.requested, update_of_ne hji] using ho
  | foreignClose =>
    exact h.mono hgrow (.of_requests ⟨rfl, rfl, rfl⟩ rfl rfl rfl
      (fun i => .of_eq rfl rfl rfl rfl rfl rfl rfl) fun i o ho => attach_mem_halfClosed ho)
  | foreignRecv i =>
    refine h.mono hgrow ⟨⟨rfl, rfl, rfl⟩, le_rfl, fun _ _ h => h, fun j _ hown => ?_,
      fun j o _ _ ha => ha.mono (pop_untouched w i j w.client w.stdinPump) fun o' ho => ho⟩
    have hji : j ≠ i := fun hji => absurd (hown.symm.trans (hji ▸ he.2.1)) (by simp)
    simp only [Event.fire, World.pop, update_of_ne hji]

theorem Position.init (s : Start) : Position (.init s) := by
  refine ⟨fun i hi => ?_, fun j hj => ?_, fun j hj => ?_, fun fd => ?_⟩ <;>
    cases hb : s.byClient
  · simp [World.init, Client.stream, hb] at hi
  · simp [World.init, Client.stream, hb] at hi
  · simp [World.init, hb] at hj
  · grind [World.init]
  · simp [World.init, hb] at hj
  · simp [World.init, hb] at hj
  · simpa [World.init, Client.inHand, hb] using Reads.nil
  · simpa [World.init, Client.inHand, hb] using Reads.nil

/-! ### What the consumer has read -/

def Client.ungreeted (c : Client) : Prop := c.pc = .absent ∨ ∃ j, c.pc = .connecting j

structure Delivered (h : List Byte) (start : ℕ) (c : Client) (fd : Fd) : Prop where
  eq : c.delivered fd = surviving h (c.gaps fd) (c.base fd) (c.offset fd)
  base_le : c.base fd ≤ c.offset fd
  /-- the reported gaps were evicted -/
  gaps : ∀ g ∈ c.gaps fd, g.1 < g.2 ∧ g.2 ≤ c.offset fd ∧ g.2 ≤ start
  /-- a client may ask for output that is yet to come -/
  range : c.offset fd ≤ h.length ∨ c.offset fd = c.base fd
  fresh : c.ungreeted → c.delivered fd = [] ∧ c.gaps fd = []

namespace Delivered

variable {h h' : List Byte} {start start' : ℕ} {c c' : Client} {fd : Fd}

theorem mono (hd : Delivered h start c fd) (hh : h <+: h') (hs : start ≤ start') :
    Delivered h' start' c fd where
  eq := by
    rw [hd.eq]
    grind [range, surviving_mono, surviving_self]
  base_le := hd.base_le
  gaps g hg := (hd.gaps g hg).imp_right fun hg' => ⟨hg'.1, hg'.2.trans hs⟩
  range := hd.range.imp_left fun hr => hr.trans hh.length_le
  fresh := hd.fresh

theorem congr (hd : Delivered h start c fd) (ho : c'.offset fd = c.offset fd)
    (hb : c'.base fd = c.base fd) (hg : c'.gaps fd = c.gaps fd)
    (hdel : c'.delivered fd = c.delivered fd) (hf : c'.ungreeted → c.ungreeted) :
    Delivered h start c' fd := by
  refine ⟨?_, ?_, ?_, ?_, fun hu => ?_⟩
  · rw [hdel, hg, hb, ho]; exact hd.eq
  · rw [hb, ho]; exact hd.base_le
  · rw [hg, ho]; exact hd.gaps
  · rw [hb, ho]; exact hd.range
  grind [fresh]

theorem read (hd : Delivered h start c fd) {bs : List Byte} (hr : Reads h (c.offset fd) bs)
    (ho : c'.offset fd = c.offset fd + bs.length) (hb : c'.base fd = c.base fd)
    (hg : c'.gaps fd = c.gaps fd) (hdel : c'.delivered fd = c.delivered fd ++ bs)
    (hf : ¬ c'.ungreeted) : Delivered h start c' fd where
  eq := by
    rw [hdel, hg, hb, ho, surviving_read hr hd.base_le fun g hmem => (hd.gaps g hmem).2.1, hd.eq]
  base_le := by
    have := hd.base_le
    omega
  gaps g hmem := by
    obtain ⟨h1, h2, h3⟩ := hd.gaps g (hg ▸ hmem)
    grind
  range := by
    have hl := hr.length_le
    have := hd.range
    omega
  fresh hu := absurd hu hf

theorem skip (hd : Delivered h start c fd) (hs : start ≤ h.length) {r : ℕ}
    (hr : c.offset fd ≤ r ∧ (r = c.offset fd ∨ r ≤ start)) (ho : c'.offset fd = r)
    (hb : c'.base fd = c.base fd)
    (hg : c'.gaps fd = c.gaps fd ++ Remote.replayGap r (c.offset fd))
    (hdel : c'.delivered fd = c.delivered fd) (hf : ¬ c'.ungreeted) :
    Delivered h start c' fd := by
  have hbase := hd.base_le
  rcases Nat.eq_or_lt_of_le hr.1 with heq | hlt
  · -- nothing was evicted: there is no gap
    have hgap : Remote.replayGap r (c.offset fd) = [] := by simp [Remote.replayGap, heq]
    exact hd.congr (by omega) hb (by rw [hg, hgap, List.append_nil]) hdel fun hu => absurd hu hf
  · have hgap : Remote.replayGap r (c.offset fd) = [(c.offset fd, r)] := by
      simp [Remote.replayGap, hlt]
    have hstart : r ≤ start := by omega
    refine ⟨?_, by omega, fun g hmem => ?_, .inl (by omega), fun hu => absurd hu hf⟩
    · rw [hdel, hg, hgap, hb, ho, surviving_skip hbase hr.1, hd.eq]
    · rw [hg, hgap, List.mem_append, List.mem_singleton] at hmem
      rcases hmem with hmem | rfl
      · obtain ⟨h1, h2, h3⟩ := hd.gaps g hmem
        grind
      grind

end Delivered

def DeliveredInv (w : World) : Prop :=
  ∀ fd, Delivered (w.hist fd) (w.cmd.rings fd).start w.client fd

theorem DeliveredInv.init (s : Start) : DeliveredInv (.init s) := by
  intro fd
  refine ⟨?_, le_rfl, by simp [World.init], .inl le_rfl, fun _ => ⟨rfl, rfl⟩⟩
  simp [World.init]

theorem DeliveredInv.step_remote {e : Remote} (h : DeliveredInv w) (hs : Served w)
    (hp : Position w) (he : e.Enabled w) : DeliveredInv (e.fire w) := by
  cases e with
  | recvStarted =>
    intro fd
    obtain ⟨hdel, hgaps⟩ := (h fd).fresh (.inr ⟨0, he.1⟩)
    refine ⟨?_, le_rfl, fun g hg => ?_, .inr rfl, fun hu => ?_⟩
    · exact hdel.trans surviving_self.symm
    · exact absurd (show g ∈ w.client.gaps fd from hg) (by simp [hgaps])
    · simp [Client.ungreeted, Remote.fire] at hu
  | recvFirstAttached j r =>
    intro fd
    obtain ⟨hdel, hgaps⟩ := (h fd).fresh (.inr ⟨j, he.1⟩)
    refine ⟨?_, le_rfl, fun g hg => ?_, .inr rfl, fun hu => ?_⟩
    · exact hdel.trans surviving_self.symm
    · exact absurd (show g ∈ w.client.gaps fd from hg) (by simp [hgaps])
    · simp [Client.ungreeted, Remote.fire] at hu
  | recvAttached j r =>
    intro fd
    have hfit := hp.replay_fits hs he.1 he.2 fd
    exact (h fd).skip (hs.1 fd).start_le hfit (max_eq_right hfit.1) rfl rfl rfl
      (by simp [Client.ungreeted, Remote.fire])
  | writeDone fd bs =>
    intro fd'
    have hpc : w.client.pc = .writing fd bs := he
    by_cases hfd : fd' = fd
    · subst hfd
      have hr := hp.inHand fd'
      simp only [Client.inHand, hpc, if_true] at hr
      exact (h fd').read hr (by simp [Remote.fire]) rfl rfl (by simp [Remote.fire])
        (by simp [Client.ungreeted, Remote.fire])
    · exact (h fd').congr (by simp [Remote.fire, hfd]) rfl rfl (by simp [Remote.fire, hfd])
        (by simp [Client.ungreeted, Remote.fire])
  | connect o =>
    intro fd
    exact (h fd).congr rfl rfl rfl rfl fun _ => .inl he
  | flushDone failed sd =>
    intro fd
    refine (h fd).congr rfl rfl rfl rfl fun hu => ?_
    by_cases hf : failed = [] <;> simp [Client.ungreeted, Remote.fire, hf] at hu
  | recvStraggler | cancel | stdinRead | stdinEof | stdinGet | stdinSent | stdinFailed
  | stdinSwapped | stdinFinished | stdinMark | stdinFetch | stdinClose | call | callGet
  | callSent | callFailed | callPark | callRetry =>
    exact fun fd => (h fd).congr rfl rfl rfl rfl id
  | _ =>
    intro fd
    exact (h fd).congr rfl rfl rfl rfl fun hu => by simp [Client.ungreeted, Remote.fire] at hu

theorem DeliveredInv.step {e : Event} (h : DeliveredInv w) (hs : Served w)
    (hp : Position w) (he : e.Enabled w) : DeliveredInv (e.fire w) := by
  have hgrow := Event.grows he
  have hmono : ∀ fd, Delivered ((e.fire w).hist fd) ((e.fire w).cmd.rings fd).start w.client fd :=
    fun fd => (h fd).mono (hgrow fd).hist (hgrow fd).start_le
  cases e with
  | host e => cases e <;> exact hmono
  | serve i e =>
    intro fd
    rw [Event.fire, Serve.fire_client]
    exact hmono fd
  | remote e => exact DeliveredInv.step_remote h hs hp he
  | _ => exact hmono

/-- The invariant of the rings, the streams and the resumable client. -/
structure ResumeInv (w : World) : Prop where
  served : Served w
  position : Position w
  delivered : DeliveredInv w

theorem ResumeInv.init (s : Start) : ResumeInv (.init s) := ⟨.init s, .init s, .init s⟩

theorem ResumeInv.step {e : Event} (h : ResumeInv w) (he : e.Enabled w) : ResumeInv (e.fire w) :=
  ⟨h.served.step he, h.position.step h.served he, h.delivered.step h.served h.position he⟩

theorem ResumeInv.stream_served (h : ResumeInv w)
    (hi : w.client.stream = some i) : (w.handler i).served = true := by
  obtain ⟨-, -, m, r, q, hq, hm, -⟩ := h.position.follows i hi
  exact ((h.served.2 i).script (by rw [hq, List.cons_append]) hm).1.served

theorem Reaches.resumeInv {s : Start} {ok : World → Event → Prop}
    (h : Reaches s ok w) : ResumeInv w :=
  h.invariant (.init s) fun _ _ h he _ => h.step he

/-- The output on its way to the consumer: what is being written to it and what its stream
carries. -/
def World.upcoming (w : World) (fd : Fd) : List Byte :=
  w.client.inHand fd ++
    match w.client.stream with
    | none => []
    | some i => dataOf fd (w.toClient i)

/-- **Resume offsets are exact.**  In every run, the client's offset on each output is the offset
in the history of the next byte it will deliver; what it has delivered is the history from its
first offset on without the reported gaps, each byte once and in order; and every gap had been
evicted by the ring. -/
theorem resume_offsets_exact (s : Start) (w : World) (hw : Reaches s (fun _ _ => True) w)
    (fd : Fd) :
    Reads (w.hist fd) (w.client.offset fd) (w.upcoming fd) ∧
    w.client.delivered fd =
      surviving (w.hist fd) (w.client.gaps fd) (w.client.base fd) (w.client.offset fd) ∧
    ∀ g ∈ w.client.gaps fd, g.1 < g.2 ∧ g.2 ≤ (w.cmd.rings fd).start := by
  have h := hw.resumeInv
  refine ⟨?_, (h.delivered fd).eq, fun g hg => ?_⟩
  · unfold World.upcoming
    refine reads_append.2 ⟨h.position.inHand fd, ?_⟩
    cases hs : w.client.stream with
    | none => exact .nil
    | some i =>
      obtain ⟨-, -, hf⟩ := h.position.follows i hs
      exact hf.upcoming (h.served.2 i) fd
  · obtain ⟨h1, -, h3⟩ := (h.delivered fd).gaps g hg
    exact ⟨h1, h3⟩

/-- The client is served two bytes, loses its stream, and comes back when the ring, of capacity
two, has evicted one more. -/
def resumedWithGap : List Event :=
  [.serve 0 .attachStart, .serve 0 .greetSent, .remote .recvStarted,
    .host (.write .stdout [1, 2]), .host (.drainRead .stdout 2),
    .host (.drainWrite .stdout [1, 2] ⟨[1, 2], 0, 2, false, false, 0⟩ []),
    .serve 0 (.pumpRead .stdout 0 [1, 2]), .serve 0 (.pumpSent .stdout 0 [1, 2]),
    .remote (.recvOutput .stdout [1, 2]), .remote (.writeDone .stdout [1, 2]), .remote .ackSkip,
    .brk 0 0 0, .remote (.recvFail .unknown), .remote .reattach,
    .host (.write .stdout [3, 4, 5]), .host (.drainRead .stdout 3),
    .host (.drainWrite .stdout [3, 4, 5] ⟨[4, 5], 3, 2, false, false, 0⟩ []),
    .serve 1 (.lookup ⟨2, 0⟩), .serve 1 (.attach ⟨2, 0⟩),
    .serve 1 (.ackOutput ⟨2, 0⟩), .serve 1 (.replayOut ⟨2, 0⟩),
    .serve 1 (.replayErr ⟨2, 0⟩ 3), .serve 1 (.replySent ⟨3, 0⟩),
    .remote (.recvAttached 1 ⟨3, 0⟩), .remote (.install 1),
    .serve 1 (.pumpRead .stdout 3 [4, 5]), .serve 1 (.pumpSent .stdout 3 [4, 5])]

/-- The theorem at a run with an eviction during the break: the third byte is reported lost, and
the client is about to receive the fourth. -/
theorem resume_offsets_exact_with_gap :
    ∃ s w, Reaches s (fun _ _ => True) w ∧ w.client.gaps .stdout = [(2, 3)] ∧
      w.upcoming .stdout = [4, 5] ∧
      Reads (w.hist .stdout) (w.client.offset .stdout) (w.upcoming .stdout) ∧
      w.client.delivered .stdout = surviving (w.hist .stdout) (w.client.gaps .stdout)
        (w.client.base .stdout) (w.client.offset .stdout) := by
  let s : Start := ⟨⟨.keep, fun _ => 2, fun _ => by decide⟩, false, false, true⟩
  have hrun : ∃ w ∈ system.exec (fun _ _ => True) (.init s) resumedWithGap,
      w.client.gaps .stdout = [(2, 3)] ∧ w.upcoming .stdout = [4, 5] := by decide +kernel
  obtain ⟨w, hw, hg, hu⟩ := Machine.exists_run_of_exec _ _ hrun
  obtain ⟨h1, h2, -⟩ := resume_offsets_exact s w hw .stdout
  exact ⟨s, w, hw, hg, hu, h1, h2⟩

end Graft.Command
