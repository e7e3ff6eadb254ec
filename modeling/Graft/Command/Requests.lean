import Graft.Command.Attachment

/-!
# What a stream brings to the command

The requests of a stream reach the command through the queue and the input loop of the stream.
Half-closing is the last thing a client can do to the queue, and the input loop of a healthy stream
ends only because of a half-close, when the queue is empty.  So a request that was queued on a
stream is on its way to the command as long as the stream is healthy.
-/

namespace Graft.Command

open Function (update update_self update_of_ne)

variable {w w' : World} {i : ℕ} {req : Req}

/-- The handler has attached and not yet called `ClientGone`. -/
def HandlerPc.attached : HandlerPc → Bool
  | .greeting | .acking _ | .replayOut _ | .replayErr _ _ | .replying _ | .tailing | .exiting
  | .sendingExit _ | .removing _ | .leaving _ => true
  | _ => false

def InputPc.pastEof : InputPc → Bool
  | .eof _ | .closing _ => true
  | _ => false

def InputPc.receives : InputPc → Bool
  | .recv | .holding _ _ | .applying _ _ => true
  | _ => false

def Gone (w : World) (i : ℕ) : Prop := w.broken i = true ∨ w.handler i = .returned

/-- Nothing follows a half-close, and a half-close is in the queue only if it was sent. -/
structure QueueOk (q : List Req) (closed : Bool) : Prop where
  last : q.Pairwise fun a _ => a ≠ .halfClose
  closed : .halfClose ∈ q → closed = true

/-- **The invariant of the requests of one stream.** -/
structure RequestInv (w : World) (i : ℕ) : Prop where
  attached : w.cmd.current = some i → (w.handler i).attached = true
  served : w.input i ≠ .off → (w.handler i).served = true
  serving : (w.handler i).serving = true → w.input i ≠ .off
  queue : QueueOk (w.toServer i) (w.sendClosed i)
  /-- nothing is left behind a half-close -/
  pastEof : (w.input i).pastEof = true → w.sendClosed i = true ∧ w.toServer i = []
  /-- on a healthy stream, the input loop ends only because of a half-close -/
  returned : w.input i = .returned → w.Healthy i → w.sendClosed i = true ∧ w.toServer i = []
  trailer : ∀ c, .trailer c ∈ w.toClient i → w.handler i = .returned
  serverDown : w.serverDown i = true → Gone w i
  clientDown : w.clientDown i = true → Gone w i

theorem RequestInv.not_gone (h : RequestInv w i) (hw : w.Healthy i) : ¬ Gone w i := by
  rintro (hb | hr)
  · exact absurd (hw.1.symm.trans hb) (by simp)
  · exact absurd (h.attached hw.2) (by simp [hr, HandlerPc.attached])

/-! ### The queue -/

namespace QueueOk

variable {q q' : List Req} {c c' : Bool} {req : Req}

theorem nil : QueueOk [] c := ⟨.nil, by simp⟩

theorem of_sublist (h : QueueOk q c) (hq : q'.Sublist q) (hc : c = true → c' = true) :
    QueueOk q' c' :=
  ⟨h.last.sublist hq, fun hx => hc (h.closed (hq.subset hx))⟩

theorem push (h : QueueOk q false) (hreq : req = .halfClose → c' = true) :
    QueueOk (q ++ [req]) c' := by
  have hno : .halfClose ∉ q := fun hx => absurd (h.closed hx) (by simp)
  refine ⟨List.pairwise_append.2 ⟨h.last, List.pairwise_singleton _ _, ?_⟩, fun hx => ?_⟩
  · grind
  grind

theorem tail_eq_nil (h : QueueOk q c) (hq : q.head? = some .halfClose) :
    q.tail = [] ∧ c = true := by
  obtain ⟨t, rfl⟩ := List.head?_eq_some_iff.1 hq
  refine ⟨List.eq_nil_iff_forall_not_mem.2 fun b hb => ?_, h.closed List.mem_cons_self⟩
  exact (List.pairwise_cons.1 h.last).1 b hb rfl

end QueueOk

/-- What a step other than the server's own can do to a queue of requests: lose its end, or append
a request while the client has not half-closed the stream. -/
inductive Asked (q : List Req) (c : Bool) (q' : List Req) (c' : Bool) : Prop
  | same (hq : q' <+: q) (hc : c = true → c' = true)
  | pushed (req : Req) (hc : c = false) (hq : q' = q ++ [req])
      (hreq : req = .halfClose → c' = true)

theorem Asked.refl (q : List Req) (c : Bool) : Asked q c q c := .same List.prefix_rfl id

theorem Asked.queueOk {q q' : List Req} {c c' : Bool} (ha : Asked q c q' c') (h : QueueOk q c) :
    QueueOk q' c' := by
  cases ha with
  | same hq hc => exact h.of_sublist hq.sublist hc
  | pushed req hc hq hreq =>
    subst hc hq
    exact h.push hreq

theorem Asked.settled {q q' : List Req} {c c' : Bool} (ha : Asked q c q' c')
    (h : c = true ∧ q = []) : c' = true ∧ q' = [] := by
  obtain ⟨rfl, rfl⟩ := h
  cases ha with
  | same hq hc => exact ⟨hc rfl, List.prefix_nil.1 hq⟩
  | pushed _ hc => cases hc

theorem asked_requested {k : ℕ} (hcan : w.CanSend k) (hreq : req ≠ .halfClose) (i : ℕ) :
    Asked (w.toServer i) (w.sendClosed i) (w.requested k req i) (w.sendClosed i) := by
  by_cases hik : i = k
  · subst hik
    simp only [World.requested, update_self]
    split_ifs
    · exact .refl _ _
    · exact .pushed req hcan.1 rfl fun h => absurd h hreq
  · simp only [World.requested, update_of_ne hik]
    exact .refl _ _

theorem asked_halfClosed (w : World) (k i : ℕ) :
    Asked (w.toServer i) (w.sendClosed i) (w.halfClosed k i) (update w.sendClosed k true i) := by
  by_cases hik : i = k
  · subst hik
    simp only [World.halfClosed, update_self]
    split_ifs with hcan
    · simp only [World.requested, update_self]
      split_ifs
      · exact .same List.prefix_rfl fun _ => rfl
      · exact .pushed _ hcan.1 rfl fun _ => rfl
    · exact .same List.prefix_rfl fun _ => rfl
  · have hq : w.halfClosed k i = w.toServer i := by
      simp only [World.halfClosed]
      split_ifs
      · simp only [World.requested, update_of_ne hik]
      · rfl
    grind [Asked.refl]

theorem subset_requested (w : World) (k : ℕ) (req : Req) (i : ℕ) :
    w.toServer i ⊆ w.requested k req i := by
  by_cases hik : i = k
  · subst hik
    simp only [World.requested, update_self]
    grind
  · simp_all [World.requested]

theorem subset_halfClosed (w : World) (k i : ℕ) : w.toServer i ⊆ w.halfClosed k i := by
  unfold World.halfClosed
  grind [subset_requested]

/-! ### Steps that are not the stream's own -/

/-- What a step that is not the stream's own leaves of stream `i`. -/
structure Beside (w w' : World) (i : ℕ) : Prop where
  handler : w'.handler i = w.handler i
  input : w'.input i = w.input i
  current : w'.cmd.current = some i → w.cmd.current = some i
  broken : w.broken i = true → w'.broken i = true
  trailer : ∀ c, .trailer c ∈ w'.toClient i → .trailer c ∈ w.toClient i
  serverDown : w'.serverDown i = true → w.serverDown i = true ∨ w'.broken i = true
  clientDown : w'.clientDown i = true → w.clientDown i = true ∨ Gone w i
  seen : w.clientDown i = true → w'.clientDown i = true
  asked : Asked (w.toServer i) (w.sendClosed i) (w'.toServer i) (w'.sendClosed i)
  /-- only a break loses requests -/
  kept : w'.broken i = false → w.toServer i ⊆ w'.toServer i

theorem Beside.gone (hb : Beside w w' i) (h : Gone w i) : Gone w' i :=
  h.imp hb.broken fun hr => hb.handler.trans hr

theorem Beside.healthy (hb : Beside w w' i) (h : w'.Healthy i) : w.Healthy i := by
  refine ⟨?_, hb.current h.2⟩
  grind [broken, World.Healthy]

theorem RequestInv.mono (h : RequestInv w i) (hb : Beside w w' i) : RequestInv w' i where
  attached hc := by
    rw [hb.handler]
    exact h.attached (hb.current hc)
  served := by
    rw [hb.input, hb.handler]
    exact h.served
  serving := by
    rw [hb.input, hb.handler]
    exact h.serving
  queue := hb.asked.queueOk h.queue
  pastEof hp := hb.asked.settled (h.pastEof (hb.input ▸ hp))
  returned hr hw := hb.asked.settled (h.returned (hb.input ▸ hr) (hb.healthy hw))
  trailer c hc := hb.handler.trans (h.trailer c (hb.trailer c hc))
  serverDown hd := (hb.serverDown hd).elim (fun hd => hb.gone (h.serverDown hd)) .inl
  clientDown hd := hb.gone ((hb.clientDown hd).elim h.clientDown id)

/-- A step that leaves everything of the streams alone but the queues towards the server. -/
theorem Beside.of_eq (hh : w'.handler = w.handler)
    (hi : w'.input = w.input) (hc : w'.cmd.current = w.cmd.current) (hb : w'.broken = w.broken)
    (ht : w'.toClient i ⊆ w.toClient i) (hs : w'.serverDown = w.serverDown)
    (hd : w'.clientDown = w.clientDown)
    (ha : Asked (w.toServer i) (w.sendClosed i) (w'.toServer i) (w'.sendClosed i))
    (hq : w.toServer i ⊆ w'.toServer i) : Beside w w' i :=
  ⟨by rw [hh], by rw [hi], fun h => hc ▸ h, fun h => hb ▸ h, fun _ h => ht h,
    fun h => .inl (hs ▸ h), fun h => .inl (hd ▸ h), fun h => hd ▸ h, ha, fun _ => hq⟩

theorem Serve.beside {i j : ℕ} {e : Serve} (he : e.Enabled w i) (h : j ≠ i) :
    Beside w (e.fire w i) j where
  handler := e.fire_handler_of_ne h
  input := e.fire_input_of_ne h
  current hc := (Serve.current_step he hc).resolve_right fun hx => h hx.1
  broken hb := by rwa [Serve.fire_broken]
  trailer c hc := by rwa [e.fire_toClient_of_ne h] at hc
  serverDown hd := by
    have hs : (e.fire w i).serverDown j = w.serverDown j := by
      cases e <;> first | rfl | exact update_of_ne h ..
    exact .inl (hs ▸ hd)
  clientDown hd := by
    simp_all
  seen hd := by rwa [Serve.fire_clientDown]
  asked := by
    have hs : (e.fire w i).sendClosed = w.sendClosed := by cases e <;> rfl
    rw [e.fire_toServer_of_ne h, hs]
    exact .refl _ _
  kept _ := by
    simp_all [fire_toServer_of_ne]

/-! ### The stream's own steps -/

section Own

variable {w : World} {i : ℕ} {e : Serve}

theorem Serve.returned_step (he : e.Enabled w i) (hr : w.handler i = .returned) :
    (e.fire w i).handler i = .returned := by
  cases e with
  | attachStart | attach | ackOutput | replayOut | replayErr | remove | leave | ret =>
    exact absurd (hr.symm.trans he) (by simp)
  | greetSent | greetFailed | replySent | replyFailed | joinStopped | joinEof | exitError | exitRead
  | exitSent | exitSendFailed => exact absurd (hr.symm.trans he.1) (by simp)
  | lookup | lookupMissing | refuse => exact absurd (hr.symm.trans he.2.1) (by simp)
  | _ => exact hr

theorem Serve.returned_of_trailer {c : Code} (hc : .trailer c ∈ e.sends) :
    (e.fire w i).handler i = .returned := by
  cases e with
  | ret => simp [Serve.fire]
  | _ => simp [Serve.sends] at hc

theorem Serve.idle_step (he : e.Enabled w i) (hr : w.handler i = .idle) (hi : w.opened ≤ i) :
    (e.fire w i).handler i = .idle := by
  cases e with
  | attachStart | attach | ackOutput | replayOut | replayErr | remove | leave | ret =>
    exact absurd (hr.symm.trans he) (by simp)
  | greetSent | greetFailed | replySent | replyFailed | joinStopped | joinEof | exitError | exitRead
  | exitSent | exitSendFailed => exact absurd (hr.symm.trans he.1) (by simp)
  | lookup | lookupMissing | refuse => exact absurd he.1 (by omega)
  | _ => exact hr

theorem Gone.own (he : e.Enabled w i) (h : Gone w i) : Gone (e.fire w i) i :=
  h.imp (fun hb => by rwa [Serve.fire_broken]) (Serve.returned_step he)

namespace RequestInv

variable (h : RequestInv w i) (he : e.Enabled w i)
include h he

theorem attached_self (hc : (e.fire w i).cmd.current = some i) :
    ((e.fire w i).handler i).attached = true := by
  have hout : ∀ {pc}, w.handler i = pc → pc.attached = false → w.cmd.current ≠ some i :=
    fun h1 h2 hcur => absurd (h1 ▸ h.attached hcur) (by simp [h2])
  cases e with
  | attachStart | attach | ackOutput | replayOut | replayErr | joinStopped | joinEof | exitError
  | exitRead | exitSent | exitSendFailed | remove => simp [Serve.fire, HandlerPc.attached]
  | greetSent | replySent => simp [Serve.fire, Serve.serveFrom, HandlerPc.attached]
  | greetFailed | replyFailed | leave =>
    have hc' : (w.cmd.clientGone i).current = some i := hc
    rw [w.cmd.clientGone_current] at hc'
    split_ifs at hc' with hcur
    exact absurd hc' hcur
  | lookup | lookupMissing | refuse => exact absurd hc (hout he.2.1 rfl)
  | ret => exact absurd hc (hout he rfl)
  | _ => exact h.attached hc

theorem serving_self (hs : ((e.fire w i).handler i).serving = true) :
    (e.fire w i).input i ≠ .off := by
  have hgo : ∀ {pc}, w.handler i = pc → pc.serving = true → w.input i ≠ .off :=
    fun h1 h2 => h.serving (h1 ▸ h2)
  cases e with
  | greetSent | replySent | inRecv | inEof | inErr | inStdin | inControl | inAck | inAttach
  | inClose => simp [Serve.fire, Serve.serveFrom]
  | inCheck | inPolicy =>
    simp only [Serve.fire, update_self]
    split_ifs <;> simp
  | joinStopped | joinEof | exitError | exitRead | exitSent | exitSendFailed => exact hgo he.1 rfl
  | remove => exact hgo he rfl
  | attachStart | greetFailed | lookup | lookupMissing | refuse | attach | ackOutput | replayOut
  | replayErr | replyFailed | leave | ret => simp [Serve.fire, HandlerPc.serving] at hs
  | _ => exact h.serving hs

theorem queue_self : QueueOk ((e.fire w i).toServer i) ((e.fire w i).sendClosed i) := by
  cases e with
  | lookup | lookupMissing | inRecv | inEof =>
    simp only [Serve.fire, update_self]
    exact h.queue.of_sublist (List.tail_sublist _) id
  | _ => exact h.queue

theorem pastEof_self (hp : ((e.fire w i).input i).pastEof = true) :
    (e.fire w i).sendClosed i = true ∧ (e.fire w i).toServer i = [] := by
  cases e with
  | inEof =>
    obtain ⟨ht, hc⟩ := h.queue.tail_eq_nil he.2
    exact ⟨hc, by simpa [Serve.fire] using ht⟩
  | inPolicy =>
    exact h.pastEof (by rw [show w.input i = _ from he]; rfl)
  | lookup | lookupMissing =>
    obtain ⟨hc, hq⟩ := h.pastEof hp
    exact ⟨hc, by simp [Serve.fire, hq]⟩
  | greetSent | replySent | inRecv | inErr | inStdin | inControl | inAck | inAttach | inClose =>
    simp [Serve.fire, Serve.serveFrom, InputPc.pastEof] at hp
  | inCheck =>
    simp only [Serve.fire, update_self] at hp
    split_ifs at hp <;> simp [InputPc.pastEof] at hp
  | _ => exact h.pastEof hp

/-- A stream whose input loop runs was healthy before the step if it is afterwards. -/
theorem healthy_self (hin : w.input i ≠ .off) (hw : (e.fire w i).Healthy i) : w.Healthy i := by
  refine ⟨by simpa using hw.1, (Serve.current_step he hw.2).resolve_right fun hx => ?_⟩
  exact absurd (h.served hin) (by simp [hx.2])

theorem returned_self (hr : (e.fire w i).input i = .returned) (hw : (e.fire w i).Healthy i) :
    (e.fire w i).sendClosed i = true ∧ (e.fire w i).toServer i = [] := by
  cases e with
  | inErr =>
    refine absurd ?_ (h.not_gone hw)
    rcases he.2 with hd | hd
    · exact h.serverDown hd
    · exact .inl hd.1
  | inCheck req late =>
    simp only [Serve.fire, update_self] at hr
    split_ifs at hr with hcur
    exact absurd hw.2 hcur
  | inPolicy | inClose => exact h.pastEof (by rw [show w.input i = _ from he]; rfl)
  | lookup | lookupMissing =>
    obtain ⟨hc, hq⟩ := h.returned hr hw
    exact ⟨hc, by simp [Serve.fire, hq]⟩
  | greetSent | replySent | inRecv | inEof | inStdin | inControl | inAck | inAttach =>
    simp [Serve.fire, Serve.serveFrom] at hr
  | _ =>
    have hin : w.input i = .returned := hr
    exact h.returned hin (h.healthy_self he (by simp [hin]) hw)

theorem trailer_self (c : Code) (hc : .trailer c ∈ (e.fire w i).toClient i) :
    (e.fire w i).handler i = .returned := by
  rw [Serve.fire_toClient_self] at hc
  rcases List.mem_append.1 hc with hc | hc
  · exact Serve.returned_step he (h.trailer c hc)
  · split_ifs at hc
    · cases hc
    · exact Serve.returned_of_trailer hc

theorem serverDown_self (hd : (e.fire w i).serverDown i = true) : Gone (e.fire w i) i := by
  cases e with
  | ret => exact .inr (by simp [Serve.fire])
  | _ => exact (h.serverDown hd).own he

/-- **The stream's own steps keep its invariant.** -/
theorem own : RequestInv (e.fire w i) i where
  attached := h.attached_self he
  served := Serve.serving_step h.served he
  serving := h.serving_self he
  queue := h.queue_self he
  pastEof := h.pastEof_self he
  returned := h.returned_self he
  trailer := h.trailer_self he
  serverDown := h.serverDown_self he
  clientDown hd := by
    simp_all [Gone.own, clientDown]

end RequestInv

end Own

/-! ### All steps -/

theorem RequestInv.recvFails {c : Code} (h : RequestInv w i) (hf : w.RecvFails i c) : Gone w i := by
  grind [trailer, List.mem_of_mem_head?, Gone, World.RecvFails]

theorem Beside.fail {i j : ℕ} {c : Code} (h : ∀ i, RequestInv w i)
    (hf : w.RecvFails j c) (hd : w'.clientDown = update w.clientDown j true)
    (hh : w'.handler = w.handler) (hi : w'.input = w.input)
    (hc : w'.cmd.current = w.cmd.current) (hb : w'.broken = w.broken)
    (ht : w'.toClient = w.toClient) (hs : w'.serverDown = w.serverDown)
    (hq : w'.toServer = w.toServer) (hcl : w'.sendClosed = w.sendClosed) : Beside w w' i := by
  refine ⟨by rw [hh], by rw [hi], fun h => hc ▸ h, fun h => hb ▸ h,
    fun _ h => ht ▸ h, fun h => .inl (hs ▸ h), fun hx => ?_, fun hx => ?_,
    by rw [hq, hcl]; exact .refl _ _, fun _ => by rw [hq]; exact List.Subset.refl _⟩ <;>
    by_cases hij : i = j
  · subst hij
    exact .inr ((h i).recvFails hf)
  · simp_all
  · simp [hd, hij]
  · rwa [hd, update_of_ne hij]

theorem Beside.openStream {own : Bool} {o : Offsets} (c : Client)
    (hio : i ≠ w.opened) : Beside w { w.openStream own o with client := c } i := by
  refine ⟨?_, ?_, fun hc => hc, ?_, ?_, ?_, ?_, ?_, ?_, ?_⟩ <;>
    simp only [World.openStream, update_of_ne hio]
  · exact id
  · exact fun _ hc => hc
  · exact fun hd => .inl hd
  · exact fun hd => .inl hd
  · exact id
  · exact .refl _ _
  · exact fun _ => List.Subset.refl _

theorem toClient_pop_subset (w : World) (j i : ℕ) : (w.pop j).toClient i ⊆ w.toClient i := by
  by_cases hij : i = j
  · simp_all [List.Sublist.subset, List.tail_sublist, World.pop]
  · simp_all [World.pop]

def Event.opens : Event → Bool
  | .remote (.connect _) | .remote .reattach | .foreignOpen _ => true
  | _ => false

theorem Event.fire_opened (w : World) (e : Event) :
    (e.fire w).opened = if e.opens then w.opened + 1 else w.opened := by
  cases e with
  | host e => cases e <;> rfl
  | serve i e => cases e <;> rfl
  | remote e => cases e <;> rfl
  | _ => rfl

theorem Remote.beside {e : Remote} (h : ∀ i, RequestInv w i)
    (he : e.Enabled w) (ho : Event.opens (.remote e) = true → i ≠ w.opened) :
    Beside w (e.fire w) i := by
  have hrefl := List.Subset.refl (w.toClient i)
  have hsame := List.Subset.refl (w.toServer i)
  cases e with
  | connect o => exact .openStream _ (ho rfl)
  | reattach => exact .openStream _ (ho rfl)
  | recvStarted | recvFirstAttached | recvOutput | recvExit | recvStraggler | recvAttached =>
    exact .of_eq rfl rfl rfl rfl (toClient_pop_subset w _ i) rfl rfl (.refl _ _) hsame
  | connectFail | handshakeNotFound =>
    exact .fail h he.2 rfl rfl rfl rfl rfl rfl rfl rfl rfl
  | recvFail | recvGiveUp | handshakeFail =>
    exact .fail h he.2.1 rfl rfl rfl rfl rfl rfl rfl rfl rfl
  | ackSent =>
    exact .of_eq rfl rfl rfl rfl hrefl rfl rfl (asked_requested he.2.2 (by simp) i)
      (subset_requested w _ _ i)
  | resyncSent =>
    exact .of_eq rfl rfl rfl rfl hrefl rfl rfl (asked_requested he.2.2.2 (by simp) i)
      (subset_requested w _ _ i)
  | flushSent | stdinSent | callSent =>
    exact .of_eq rfl rfl rfl rfl hrefl rfl rfl (asked_requested he.2 (by simp) i)
      (subset_requested w _ _ i)
  | replayClose | stdinClose =>
    exact .of_eq rfl rfl rfl rfl hrefl rfl rfl (asked_halfClosed w _ i) (subset_halfClosed w _ i)
  | _ => exact .of_eq rfl rfl rfl rfl hrefl rfl rfl (.refl _ _) hsame

structure RequestsInv (w : World) : Prop where
  stream : ∀ i, RequestInv w i
  unopened : ∀ i, w.opened ≤ i → w.handler i = .idle

theorem RequestsInv.init (s : Start) : RequestsInv (.init s) where
  stream i := by
    refine ⟨?_, ?_, fun h => ?_, .nil, ?_, ?_, ?_, ?_, ?_⟩
    · simp [World.init, ManagedCommand.register]
    · simp [World.init]
    · by_cases hi : i = 0 <;> simp [World.init, hi, HandlerPc.serving] at h
    all_goals simp [World.init, InputPc.pastEof]
  unopened i hi := by
    grind [World.init]

/-- **What a step leaves of a stream that does not take it.** -/
theorem RequestsInv.beside {e : Event} (h : RequestsInv w)
    (he : e.Enabled w) (ho : e.opens = true → i ≠ w.opened) (hown : ∀ f, e ≠ .serve i f) :
    Beside w (e.fire w) i := by
  have hrefl := List.Subset.refl (w.toClient i)
  have hsame := List.Subset.refl (w.toServer i)
  cases e with
  | host e =>
    cases e with
    | detach =>
      refine ⟨rfl, rfl, fun hc => ?_, id, fun _ => id, .inl, .inl, id, .refl _ _, fun _ => hsame⟩
      simp [Event.fire, Host.fire, ManagedCommand.detachAndKeep] at hc
    | _ => exact .of_eq rfl rfl rfl rfl hrefl rfl rfl (.refl _ _) hsame
  | serve j f =>
    grind [Serve.beside, Event.fire, Event.Enabled]
  | remote e => exact Remote.beside h.stream he ho
  | brk j k l =>
    refine ⟨rfl, rfl, id, fun hb => ?_, fun c hc => ?_, .inl, .inl, id, ?_, fun hb => ?_⟩ <;>
      by_cases hij : i = j
    · simp [Event.fire, hij]
    · simpa only [Event.fire, update_of_ne hij] using hb
    · subst hij
      simp only [Event.fire, update_self] at hc
      exact List.mem_of_mem_take hc
    · simpa only [Event.fire, update_of_ne hij] using hc
    · subst hij
      simp only [Event.fire, update_self]
      exact .same (List.take_prefix _ _) id
    · simp only [Event.fire, update_of_ne hij]
      exact .refl _ _
    · simp [Event.fire, hij] at hb
    · simpa only [Event.fire, update_of_ne hij] using hsame
  | notice j =>
    refine ⟨rfl, rfl, id, id, fun _ => id, fun hd => ?_, .inl, id, .refl _ _, fun _ => hsame⟩
    by_cases hij : i = j
    · subst hij
      exact .inr he
    · simp only [Event.fire, update_of_ne hij] at hd
      exact .inl hd
  | foreignOpen o => exact .openStream w.client (ho rfl)
  | foreignSend j req =>
    exact .of_eq rfl rfl rfl rfl hrefl rfl rfl (asked_requested he.2.2.1 he.2.2.2.1 i)
      (subset_requested w j req i)
  | foreignClose j =>
    exact .of_eq rfl rfl rfl rfl hrefl rfl rfl (asked_halfClosed w j i) (subset_halfClosed w j i)
  | foreignRecv j =>
    exact .of_eq rfl rfl rfl rfl (toClient_pop_subset w j i) rfl rfl (.refl _ _) hsame

theorem RequestsInv.opened {e : Event} (h : RequestsInv w) (ho : e.opens = true) :
    RequestInv (e.fire w) w.opened := by
  have hcur : w.cmd.current ≠ some w.opened := by
    intro hc
    have hatt := (h.stream w.opened).attached hc
    rw [h.unopened _ le_rfl] at hatt
    exact absurd hatt (by simp [HandlerPc.attached])
  have hnew : ∀ own o c, RequestInv { w.openStream own o with client := c } w.opened := by
    intro own o c
    refine ⟨fun hc => absurd hc hcur, ?_, ?_, ⟨?_, ?_⟩, ?_, ?_, ?_, ?_, ?_⟩ <;>
      simp [World.openStream, HandlerPc.serving, InputPc.pastEof]
  cases e with
  | remote e =>
    cases e with
    | connect | reattach => exact hnew _ _ _
    | _ => exact absurd ho (by simp [Event.opens])
  | foreignOpen => exact hnew _ _ _
  | _ => exact absurd ho (by simp [Event.opens])

theorem RequestsInv.step {e : Event} (h : RequestsInv w) (he : e.Enabled w) :
    RequestsInv (e.fire w) where
  stream i := by
    by_cases hown : ∃ f, e = .serve i f
    · obtain ⟨f, rfl⟩ := hown
      exact (h.stream i).own he
    · by_cases ho : e.opens = true ∧ i = w.opened
      · exact ho.2 ▸ h.opened ho.1
      · exact (h.stream i).mono (h.beside he (not_and.1 ho) (not_exists.1 hown))
  unopened i hi := by
    rw [Event.fire_opened] at hi
    have hle : w.opened ≤ i ∧ (e.opens = true → i ≠ w.opened) := by
      grind
    have hidle := h.unopened i hle.1
    by_cases hown : ∃ f, e = .serve i f
    · grind [Serve.idle_step, Event.fire, Event.Enabled]
    · grind [Beside.handler, beside]

/-! ### Requests on their way -/

/-- The request is on its way to the command: it is in the queue of the stream or with the input
loop, which goes on receiving. -/
def Coming (w : World) (i : ℕ) (req : Req) : Prop :=
  (w.input i).receives = true ∧ (req ∈ w.toServer i ∨
    ∃ late, w.input i = .holding req late ∨ w.input i = .applying req late)

def Serve.handles : Serve → Option Req
  | .inStdin bs _ => some (.stdin bs)
  | .inControl c call _ => some (.control c call)
  | .inAck o _ => some (.ack o)
  | .inAttach o _ => some (.attach o)
  | _ => none

theorem Coming.mono (h : Coming w i req)
    (hi : w'.input i = w.input i) (hq : w.toServer i ⊆ w'.toServer i) : Coming w' i req := by
  grind [Coming]

/-- **A request on its way arrives**, as long as the stream is healthy. -/
theorem Coming.own {e : Serve} (h : Coming w i req)
    (hreq : req ≠ .halfClose) (hr : RequestInv w i) (he : e.Enabled w i)
    (hw : (e.fire w i).Healthy i) : Coming (e.fire w i) i req ∨ e.handles = some req := by
  obtain ⟨hrec, hcoming⟩ := h
  -- a stream that is not served yet has no input loop
  have hserved : (w.handler i).served = true := by
    refine hr.served fun hoff => ?_
    simp [hoff, InputPc.receives] at hrec
  have hin : ∀ {pc}, w.input i = pc →
      req ∈ w.toServer i ∨ ∃ late, pc = .holding req late ∨ pc = .applying req late :=
    fun h1 => h1 ▸ hcoming
  cases e with
  | greetSent | replySent => simp [he.1, HandlerPc.served] at hserved
  | lookup | lookupMissing => simp [he.2.1, HandlerPc.served] at hserved
  | inRecv req' =>
    obtain ⟨t, ht⟩ := List.head?_eq_some_iff.1 he.2.1
    have hmem : req ∈ w.toServer i := by simpa using hin he.1
    rw [ht, List.mem_cons] at hmem
    refine .inl ⟨by simp [Serve.fire, InputPc.receives], ?_⟩
    rcases hmem with hmem | hmem
    · exact .inr ⟨!decide (w.cmd.currentIs i), .inl (by simp [Serve.fire, hmem])⟩
    · exact .inl (by simpa [Serve.fire, ht] using hmem)
  | inEof =>
    -- the half-close is alone in the queue
    obtain ⟨t, ht⟩ := List.head?_eq_some_iff.1 he.2
    have hnil : t = [] := by simpa [ht] using (hr.queue.tail_eq_nil he.2).1
    have hmem : req ∈ w.toServer i := by simpa using hin he.1
    simp [ht, hnil, hreq] at hmem
  | inErr =>
    refine absurd ?_ (hr.not_gone hw)
    rcases he.2 with hd | hd
    · exact hr.serverDown hd
    · exact .inl hd.1
  | inCheck req' late =>
    have hcur : w.cmd.currentIs i := hw.2
    refine .inl ⟨by simp [Serve.fire, hcur, InputPc.receives], ?_⟩
    rcases hin he with hmem | ⟨late', hl | hl⟩
    · exact .inl hmem
    · cases hl
      exact .inr ⟨late, .inr (by simp [Serve.fire, hcur])⟩
    · cases hl
  | inStdin | inControl | inAck | inAttach =>
    rcases hin he with hmem | ⟨late', hl | hl⟩
    · exact .inl ⟨by simp [Serve.fire, InputPc.receives], .inl hmem⟩
    · cases hl
    · cases hl
      exact .inr rfl
  | inPolicy | inClose => simp [show w.input i = _ from he, InputPc.receives] at hrec
  | _ => exact .inl ⟨hrec, hcoming⟩

theorem Coming.sent (hr : RequestInv w i)
    (hw : w.Healthy i) (hserved : (w.handler i).served = true) (hcan : w.CanSend i)
    (hi : w'.input i = w.input i) (hq : w'.toServer = w.requested i req) : Coming w' i req := by
  have hreturned : ¬ (w.broken i = true ∨ w.handler i = .returned) := hr.not_gone hw
  have hatt := hr.attached hw.2
  have hserving : (w.handler i).serving = true := by
    cases hh : w.handler i <;> simp_all [HandlerPc.served, HandlerPc.attached, HandlerPc.serving]
  have hopen : w.sendClosed i ≠ true := by simp [hcan.1]
  refine ⟨?_, .inl (by simp [hq, World.requested, hreturned])⟩
  rw [hi]
  cases hin : w.input i with
  | off => exact absurd hin (hr.serving hserving)
  | eof | closing => exact absurd (hr.pastEof (by rw [hin]; rfl)).1 hopen
  | returned => exact absurd (hr.returned hin hw).1 hopen
  | _ => rfl

end Graft.Command
