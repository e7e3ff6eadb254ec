import Graft.Command.Requests
import Graft.Command.Resume

/-!
# Control messages

`Signal`, `SetEnvVar` and `NotifyWindowChange` send a request on the client's stream, out of band
(`sendOOB`).  A request that cannot be sent is parked and the call returns `nil` all the same: the
stream has ended, also if it was half-closed and rejected the request, and the next re-attach will
send it.

`control_handed`: a call that returned `nil` on a healthy stream, or whose parked request was sent on
one, has been handed to the command when the stream is drained; and nothing is parked while the client
waits for output on a healthy stream.
-/

namespace Graft.Command

open Function (update update_of_ne)

variable {i k : ℕ} {w : World}

def InputPc.busy : InputPc → Bool
  | .holding _ _ | .applying _ _ => true
  | _ => false

/-- Nothing that was sent on stream `i` is on its way any more. -/
def Drained (w : World) (i : ℕ) : Prop := w.toServer i = [] ∧ (w.input i).busy = false

instance (w : World) (i : ℕ) : Decidable (Drained w i) := inferInstanceAs (Decidable (_ ∧ _))

/-- The request of call `k` was handed to the command, or is on its way on stream `i`. -/
def Handed (w : World) (i : ℕ) (c : Control) (k : ℕ) : Prop :=
  (c, k) ∈ w.handled ∨ Coming w i (.control c (some k))

theorem Handed.drained {c : Control} (h : Handed w i c k)
    (hd : Drained w i) : (c, k) ∈ w.handled := by
  refine h.resolve_right ?_
  rintro ⟨-, hq | ⟨late, hin | hin⟩⟩
  · simp [hd.1] at hq
  · exact absurd hd.2 (by simp [hin, InputPc.busy])
  · exact absurd hd.2 (by simp [hin, InputPc.busy])

/-! ### A served stream -/

structure Lasting (w w' : World) (i : ℕ) : Prop where
  served : (w'.handler i).served = true
  gone : Gone w i → Gone w' i
  seen : w.clientDown i = true → w'.clientDown i = true
  healthy : w'.Healthy i → w.Healthy i
  handed : ∀ c k, w'.Healthy i → Handed w i c k → Handed w' i c k

theorem handled_subset (w : World) (e : Event) : w.handled ⊆ (e.fire w).handled := by
  cases e with
  | host e => cases e <;> exact List.Subset.refl _
  | serve i e =>
    cases e with
    | inControl => exact List.subset_append_left _ _
    | _ => exact List.Subset.refl _
  | remote e =>
    rw [Event.fire, e.fire_daemon]
    exact List.Subset.refl _
  | _ => exact List.Subset.refl _

theorem Handed.own {e : Serve} {c : Control} (h : Handed w i c k)
    (hr : RequestInv w i) (he : e.Enabled w i) (hw : (e.fire w i).Healthy i) :
    Handed (e.fire w i) i c k := by
  rcases h with h | h
  · exact .inl (handled_subset w (.serve i e) h)
  · rcases h.own (by simp) hr he hw with h' | h'
    · exact .inr h'
    · cases e with
      | inControl =>
        cases h'
        exact .inl (by simp [Serve.fire])
      | _ => simp [Serve.handles] at h'

theorem RequestsInv.lasting {e : Event} (h : RequestsInv w)
    (he : e.Enabled w) (hs : (w.handler i).served = true) : Lasting w (e.fire w) i := by
  by_cases hown : ∃ f, e = .serve i f
  · obtain ⟨f, rfl⟩ := hown
    have hw : (f.fire w i).Healthy i → w.Healthy i := by
      intro hw
      refine ⟨by simpa using hw.1, (Serve.current_step he hw.2).resolve_right fun hx => ?_⟩
      exact absurd hs (by simp [hx.2])
    exact ⟨Serve.served_mono he hs, Gone.own he, fun hd => by simpa [Event.fire] using hd, hw,
      fun c k hw hh => hh.own (h.stream i) he hw⟩
  · -- an unopened stream is not served
    have hi : i ≠ w.opened := by
      rintro rfl
      rw [h.unopened _ le_rfl] at hs
      exact absurd hs (by simp [HandlerPc.served])
    have hb := h.beside he (fun _ => hi) (not_exists.1 hown)
    refine ⟨by rw [hb.handler, hs], hb.gone, hb.seen, hb.healthy, fun c k hw hh => ?_⟩
    exact hh.imp (fun hx => handled_subset w e hx) fun hx => hx.mono hb.input (hb.kept hw.1)

/-! ### Calls -/

/-- The client has seen its stream fail and has not installed another one. -/
def ClientPc.left : ClientPc → Bool
  | .resuming | .handshake _ | .installing _ => true
  | _ => false

def ClientPc.early : ClientPc → Bool
  | .absent | .connecting _ => true
  | _ => false

/-- The client has no stream: not yet, or not any more. -/
def ClientPc.out : ClientPc → Bool
  | .absent | .connecting _ | .finished => true
  | _ => false

/-- **The invariant of call `k`.** -/
structure CallOk (w : World) (k : ℕ) : Prop where
  sending : ∀ i, (w.calls k).pc = .sending i → (w.handler i).served = true ∧
    (i ≠ w.client.runClient → w.clientDown i = true)
  /-- a request is parked only if its stream has ended -/
  parking : ∀ i, (w.calls k).pc = .parking i → (w.handler i).served = true ∧ Gone w i
  returned : ∀ i, (w.calls k).pc = .returned i true → (w.handler i).served = true ∧
    (w.Healthy i → Handed w i (w.calls k).request k)

/-- The invariant of the calls and of what they read of the client. -/
structure CallsInv (w : World) : Prop where
  call : ∀ k, CallOk w k
  off : w.stdinPump = .off → (∀ k, (w.calls k).pc = .idle) ∧ w.client.pc.out = true
  early : w.client.pc.early = true → w.stdinPump = .off
  served : w.stdinPump ≠ .off → (w.handler w.client.runClient).served = true
  left : w.client.pc.left = true → w.clientDown w.client.runClient = true

/-- The requests that `setClient` has in its hands. -/
def ClientPc.queued : ClientPc → List (Control × ℕ)
  | .resyncing _ todo _ => todo
  | .flushing todo failed _ => todo ++ failed
  | .requeueing failed _ => failed
  | _ => []

/-- The requests that `setClient` could not send. -/
def ClientPc.failed : ClientPc → List (Control × ℕ)
  | .flushing _ failed _ | .requeueing failed _ => failed
  | _ => []

/-- Call `k` has returned. -/
def Returned (w : World) (k : ℕ) : Prop := ∃ i b, (w.calls k).pc = .returned i b

/-- **The invariant of the parked requests.** -/
structure ParkedInv (w : World) : Prop where
  fresh : ∀ k, w.callCount ≤ k → (w.calls k).pc = .idle
  /-- they are those of calls that have returned -/
  request : ∀ m ∈ w.client.pending ++ w.client.pc.queued,
    (w.calls m.2).request = m.1 ∧ Returned w m.2
  /-- a request is left over only if the stream has ended -/
  ended : w.client.pending ++ w.client.pc.failed ≠ [] → Gone w w.client.runClient

theorem CallOk.of_idle (h : (w.calls k).pc = .idle) : CallOk w k :=
  ⟨fun i hi => by simp [h] at hi, fun i hi => by simp [h] at hi, fun i hi => by simp [h] at hi⟩

theorem CallOk.of_getting (h : (w.calls k).pc = .getting) : CallOk w k :=
  ⟨fun i hi => by simp [h] at hi, fun i hi => by simp [h] at hi, fun i hi => by simp [h] at hi⟩

theorem CallOk.mono {w w' : World} (h : CallOk w k)
    (hl : ∀ i, (w.handler i).served = true → Lasting w w' i) (hc : w'.calls k = w.calls k)
    (hrun : ∀ i, i ≠ w'.client.runClient → i ≠ w.client.runClient ∨ w.clientDown i = true) :
    CallOk w' k := by
  constructor <;> rw [hc]
  · intro i hi
    obtain ⟨hs, hd⟩ := h.sending i hi
    exact ⟨(hl i hs).served, fun hne => (hl i hs).seen ((hrun i hne).elim hd id)⟩
  · intro i hi
    obtain ⟨hs, hg⟩ := h.parking i hi
    exact ⟨(hl i hs).served, (hl i hs).gone hg⟩
  · intro i hi
    obtain ⟨hs, hh⟩ := h.returned i hi
    exact ⟨(hl i hs).served, fun hw => (hl i hs).handed _ _ hw (hh ((hl i hs).healthy hw))⟩

namespace CallsInv

theorem init (s : Start) : CallsInv (.init s) := by
  refine ⟨fun k => .of_idle rfl, fun _ => ⟨fun _ => rfl, ?_⟩, fun _ => rfl, fun h => absurd rfl h,
    fun h => ?_⟩ <;> cases hb : s.byClient <;> simp_all [World.init, ClientPc.out, ClientPc.left]

variable {w w' : World} (h : CallsInv w)
include h

theorem on (hk : (w.calls k).pc ≠ .idle) : w.stdinPump ≠ .off :=
  fun hoff => hk ((h.off hoff).1 k)

theorem mono (hl : ∀ i, (w.handler i).served = true → Lasting w w' i) (hc : w'.calls = w.calls)
    (hrun : w'.client.runClient = w.client.runClient)
    (hp : w'.stdinPump = .off ↔ w.stdinPump = .off)
    (hout : w.client.pc.out = true → w'.client.pc.out = true)
    (hearly : w'.client.pc.early = true → w.client.pc.early = true)
    (hleft : w'.client.pc.left = true → w.client.pc.left = true) : CallsInv w' where
  call k := (h.call k).mono hl (by rw [hc]) fun i hi => .inl (hrun ▸ hi)
  off hoff := by
    obtain ⟨h1, h2⟩ := h.off (hp.1 hoff)
    exact ⟨fun k => by rw [hc, h1 k], hout h2⟩
  early he := hp.2 (h.early (hearly he))
  served hon := by
    rw [hrun]
    exact (hl _ (h.served fun hoff => hon (hp.2 hoff))).served
  left hx := by
    have hon : w.stdinPump ≠ .off := by
      intro hoff
      have hlo := hleft hx
      have hou := (h.off hoff).2
      cases hpc : w.client.pc <;> simp [hpc, ClientPc.left, ClientPc.out] at hlo hou
    rw [hrun]
    exact (hl _ (h.served hon)).seen (h.left (hleft hx))

theorem move (hl : ∀ i, (w.handler i).served = true → Lasting w w' i)
    (hk : CallOk w' k) (hc : ∀ k', k' ≠ k → w'.calls k' = w.calls k')
    (hon : w.stdinPump ≠ .off) (hp : w'.stdinPump = w.stdinPump)
    (hrun : w'.client.runClient = w.client.runClient) (hpc : w'.client.pc = w.client.pc) :
    CallsInv w' where
  call k' := by
    by_cases hkk : k' = k
    · exact hkk ▸ hk
    · exact (h.call k').mono hl (hc k' hkk) fun i hi => .inl (hrun ▸ hi)
  off hoff := absurd (hp ▸ hoff) hon
  early he := by
    rw [hp]
    exact h.early (hpc ▸ he)
  served _ := by
    rw [hrun]
    exact (hl _ (h.served hon)).served
  left hx := by
    rw [hrun]
    exact (hl _ (h.served hon)).seen (h.left (hpc ▸ hx))

theorem moveOn (hl : ∀ i, (w.handler i).served = true → Lasting w w' i)
    (hk : CallOk w' k) (hc : ∀ k', k' ≠ k → w'.calls k' = w.calls k')
    (hon : w.stdinPump ≠ .off) (hp : w'.stdinPump = w.stdinPump)
    (hrun : w'.client.runClient = w.client.runClient) (hearly : w'.client.pc.early = false)
    (hleft : w'.client.pc.left = false) : CallsInv w' where
  call k' := by
    by_cases hkk : k' = k
    · exact hkk ▸ hk
    · exact (h.call k').mono hl (hc k' hkk) fun i hi => .inl (hrun ▸ hi)
  off hoff := absurd (hp ▸ hoff) hon
  early he := by simp [hearly] at he
  served _ := by
    rw [hrun]
    exact (hl _ (h.served hon)).served
  left hx := by simp [hleft] at hx

theorem start (hearly : w.client.pc.early = true) (hc : w'.calls = w.calls)
    (hpc : w'.client.pc = .recv) (hp : w'.stdinPump = .reading)
    (hs : (w'.handler w'.client.runClient).served = true) : CallsInv w' where
  call k := .of_idle (by rw [hc, (h.off (h.early hearly)).1 k])
  off hoff := by simp [hp] at hoff
  early he := by simp [hpc, ClientPc.early] at he
  served _ := hs
  left hx := by simp [hpc, ClientPc.left] at hx

theorem swap (hl : ∀ i, (w.handler i).served = true → Lasting w w' i)
    (hleft : w.client.pc.left = true) (hc : w'.calls = w.calls)
    (hp : w'.stdinPump = w.stdinPump) (hpc : w'.client.pc.left = false)
    (hearly : w'.client.pc.early = false)
    (hs : (w'.handler w'.client.runClient).served = true) : CallsInv w' where
  call k := by
    refine (h.call k).mono hl (by rw [hc]) fun i _ => ?_
    by_cases hi : i = w.client.runClient
    · exact .inr (hi ▸ h.left hleft)
    · exact .inl hi
  off hoff := by
    have hou := (h.off (hp ▸ hoff)).2
    cases hpc' : w.client.pc <;> simp [hpc', ClientPc.left, ClientPc.out] at hleft hou
  early he := by simp [hearly] at he
  served _ := hs
  left hx := by simp [hpc] at hx

end CallsInv

/-- The invariant of the streams, the client and its calls. -/
structure ControlInv (w : World) : Prop where
  resume : ResumeInv w
  requests : RequestsInv w
  calls : CallsInv w
  parked : ParkedInv w

namespace ControlInv

variable {w : World} (h : ControlInv w)
include h

theorem lasting {e : Event} (he : e.Enabled w) (i : ℕ) (hs : (w.handler i).served = true) :
    Lasting w (e.fire w) i := h.requests.lasting he hs

theorem callSent_ok (he : Remote.Enabled w (.callSent k i)) :
    CallOk (Remote.fire w (.callSent k i)) k := by
  obtain ⟨hpc, hcan⟩ := he
  obtain ⟨hs, hd⟩ := (h.calls.call k).sending i hpc
  have hrun : i = w.client.runClient := by
    by_contra hne
    exact absurd (hd hne) (by simp [hcan.2])
  subst hrun
  have hk : (Remote.fire w (.callSent k w.client.runClient)).calls k =
      ⟨(w.calls k).request, .returned w.client.runClient
        (decide (w.Healthy w.client.runClient) && w.proc.running)⟩ := by
    simp [Remote.fire, Remote.returnCall, Remote.setCall]
  refine ⟨fun i hi => by simp [hk] at hi, fun i hi => by simp [hk] at hi, fun i hi => ?_⟩
  simp only [hk, CallPc.returned.injEq, Bool.and_eq_true, decide_eq_true_eq] at hi ⊢
  obtain ⟨rfl, hw, -⟩ := hi
  exact ⟨hs, fun _ => .inr (Coming.sent (h.requests.stream _) hw hs hcan rfl rfl)⟩

/-- A parked request that is sent is on its way, if the stream is healthy. -/
theorem flushSent_ok {m : Control × ℕ} {todo failed : List (Control × ℕ)} {sd : Bool}
    (he : Remote.Enabled w (.flushSent m todo failed sd)) :
    CallOk (Remote.fire w (.flushSent m todo failed sd)) m.2 := by
  obtain ⟨hpc, hcan⟩ := he
  obtain ⟨hreq, j, b, hret⟩ := h.parked.request m (by simp [hpc, ClientPc.queued])
  have hs := h.calls.served (h.calls.on (k := m.2) (by simp [hret]))
  have hk : (Remote.fire w (.flushSent m todo failed sd)).calls m.2 =
      ⟨m.1, .returned w.client.runClient
        (decide (w.Healthy w.client.runClient) && w.proc.running)⟩ := by
    simp [Remote.fire, Remote.returnCall, Remote.setCall, hreq]
  refine ⟨fun i hi => by simp [hk] at hi, fun i hi => by simp [hk] at hi, fun i hi => ?_⟩
  simp only [hk, CallPc.returned.injEq, Bool.and_eq_true, decide_eq_true_eq] at hi ⊢
  obtain ⟨rfl, hw, -⟩ := hi
  exact ⟨hs, fun _ => .inr (Coming.sent (h.requests.stream _) hw hs hcan rfl rfl)⟩

/-- A send fails only on a stream that has ended. -/
theorem callFailed_ok (he : Remote.Enabled w (.callFailed k i)) :
    CallOk (Remote.fire w (.callFailed k i)) k := by
  obtain ⟨hpc, hfail⟩ := he
  have hs := ((h.calls.call k).sending i hpc).1
  have hgone : Gone w i := hfail.elim (h.requests.stream i).clientDown id
  have hk : ((Remote.fire w (.callFailed k i)).calls k).pc = .parking i := by
    simp [Remote.fire, Remote.setCall]
  refine ⟨fun j hj => by simp [hk] at hj, fun j hj => ?_, fun j hj => by simp [hk] at hj⟩
  cases hk.symm.trans hj
  exact ⟨hs, hgone⟩

theorem callPark_ok (he : Remote.Enabled w (.callPark k i)) :
    CallOk (Remote.fire w (.callPark k i)) k := by
  obtain ⟨hpc, rfl⟩ := he
  have hnot : ¬ w.Healthy w.client.runClient :=
    fun hw => (h.requests.stream _).not_gone hw ((h.calls.call k).parking _ hpc).2
  have hk : ((Remote.fire w (.callPark k w.client.runClient)).calls k).pc =
      .returned w.client.runClient false := by
    simp [Remote.fire, Remote.returnCall, Remote.setCall, hnot]
  exact ⟨fun i hi => by simp [hk] at hi, fun i hi => by simp [hk] at hi,
    fun i hi => by simp [hk] at hi⟩

theorem step_remote {e : Remote} (he : e.Enabled w) : CallsInv (e.fire w) := by
  have hc := h.calls
  have hl := h.lasting (e := .remote e) he
  have hresume : ResumeInv (e.fire w) := h.resume.step (e := .remote e) he
  have hcalls : ∀ {k : ℕ} {pc : CallPc} (k' : ℕ), k' ≠ k →
      update w.calls k ⟨(w.calls k).request, pc⟩ k' = w.calls k' :=
    fun k' hk => update_of_ne hk ..
  cases e with
  | connect =>
    exact hc.mono hl rfl rfl .rfl (fun _ => rfl) (by simp [show w.client.pc = _ from he,
      ClientPc.early]) (by simp [Remote.fire, ClientPc.left])
  | recvStarted | recvFirstAttached =>
    exact hc.start (by simp [he.1, ClientPc.early]) rfl rfl rfl (hresume.stream_served rfl)
  | install j =>
    exact hc.swap hl (by simp [show w.client.pc = _ from he, ClientPc.left]) rfl rfl rfl rfl
      (hresume.stream_served rfl)
  | recvFail =>
    refine ⟨fun k => (hc.call k).mono hl rfl fun i hi => .inl hi, fun hoff => ?_, fun hx => ?_,
      fun hon => (hl _ (hc.served hon)).served, fun _ => by simp [Remote.fire]⟩
    · exact absurd (hc.off hoff).2 (by simp [he.1, ClientPc.out])
    · simp [Remote.fire, ClientPc.early] at hx
  | connectFail | recvExit | recvGiveUp | writeFail | giveUp | handshakeNotFound =>
    exact hc.mono hl rfl rfl .rfl (fun _ => rfl) (by simp [Remote.fire, ClientPc.early])
      (by simp [Remote.fire, ClientPc.left])
  | recvOutput | ackSkip | ackSent | ackFailed | handshakeFail | recvAttached
  | resyncSkip | resyncSent | resyncFailed | flushFailed =>
    exact hc.mono hl rfl rfl .rfl (by simp [he.1, ClientPc.out])
      (by simp [Remote.fire, ClientPc.early]) (by simp [Remote.fire, he.1, ClientPc.left])
  | flushSent m todo failed sd =>
    obtain ⟨-, i, b, hpc⟩ := h.parked.request m (by simp [he.1, ClientPc.queued])
    refine hc.moveOn hl (h.flushSent_ok he) hcalls (hc.on (k := m.2) (by simp [hpc])) rfl rfl ?_ ?_
    · simp [Remote.fire, ClientPc.early]
    · simp [Remote.fire, ClientPc.left]
  | reattach =>
    exact hc.mono hl rfl rfl .rfl (by simp [he.1, ClientPc.out])
      (by simp [Remote.fire, ClientPc.early]) (by simp [he.1, ClientPc.left])
  | writeDone | requeue | replayClose | replaySkip =>
    have hpc : w.client.pc = _ := he
    exact hc.mono hl rfl rfl .rfl (by simp [hpc, ClientPc.out])
      (by simp [Remote.fire, ClientPc.early]) (by simp [Remote.fire, ClientPc.left])
  | flushDone failed =>
    have hpc : w.client.pc = _ := he
    refine hc.mono hl rfl rfl .rfl (by simp [hpc, ClientPc.out]) ?_ ?_ <;>
      by_cases hf : failed = [] <;> simp [Remote.fire, hf, ClientPc.early, ClientPc.left]
  | stdinRead | stdinSent | stdinFailed | stdinSwapped | stdinFinished =>
    exact hc.mono hl rfl rfl (by simp [Remote.fire, he.1]) id id id
  | stdinEof | stdinGet | stdinMark | stdinFetch | stdinClose =>
    exact hc.mono hl rfl rfl (by simp [Remote.fire, show w.stdinPump = _ from he]) id id id
  | call request =>
    refine hc.move (k := w.callCount) hl (.of_getting (by simp [Remote.fire]))
      (fun k' hk => update_of_ne hk ..) he rfl rfl rfl
  | callGet k =>
    have hon := hc.on (k := k) (by rw [show (w.calls k).pc = _ from he]; simp)
    have hk : ((Remote.fire w (.callGet k)).calls k).pc = .sending w.client.runClient := by
      simp [Remote.fire, Remote.setCall]
    refine hc.move hl ⟨fun i hi => ?_, fun i hi => by simp [hk] at hi,
      fun i hi => by simp [hk] at hi⟩ hcalls hon rfl rfl rfl
    cases hk.symm.trans hi
    exact ⟨hc.served hon, fun hne => absurd rfl hne⟩
  | callSent k i =>
    exact hc.move hl (h.callSent_ok he) hcalls (hc.on (k := k) (by simp [he.1])) rfl rfl rfl
  | callFailed k i =>
    exact hc.move hl (h.callFailed_ok he) hcalls (hc.on (k := k) (by simp [he.1])) rfl rfl rfl
  | callPark k i =>
    exact hc.move hl (h.callPark_ok he) hcalls (hc.on (k := k) (by simp [he.1])) rfl rfl rfl
  | callRetry k i =>
    exact hc.move hl (.of_getting (by simp [Remote.fire, Remote.setCall])) hcalls
      (hc.on (k := k) (by simp [he.1])) rfl rfl rfl
  | _ => exact hc.mono hl rfl rfl .rfl id id id

theorem gone_mono {e : Event} (he : e.Enabled w) (hq : w.client.pending ++ w.client.pc.failed ≠ []) :
    Gone (e.fire w) w.client.runClient := by
  obtain ⟨m, hm⟩ := List.exists_mem_of_ne_nil _ hq
  have hm' : m ∈ w.client.pending ++ w.client.pc.queued := by
    rcases List.mem_append.1 hm with hm | hm
    · exact List.mem_append_left _ hm
    · refine List.mem_append_right _ ?_
      cases hpc : w.client.pc <;> simp_all [ClientPc.queued, ClientPc.failed]
  obtain ⟨-, i, b, hpc⟩ := h.parked.request m hm'
  have hs := h.calls.served (h.calls.on (k := m.2) (by simp [hpc]))
  exact (h.lasting he _ hs).gone (h.parked.ended hq)

/-- Steps that park nothing. -/
theorem parked_mono {e : Event} (he : e.Enabled w)
    (hcount : w.callCount ≤ (e.fire w).callCount)
    (hfresh : ∀ k, (e.fire w).callCount ≤ k → (e.fire w).calls k = w.calls k)
    (hcalls : ∀ k, Returned w k →
      ((e.fire w).calls k).request = (w.calls k).request ∧ Returned (e.fire w) k)
    (hqueue : (e.fire w).client.pending ++ (e.fire w).client.pc.queued ⊆
      w.client.pending ++ w.client.pc.queued)
    (hended : (e.fire w).client.pending ++ (e.fire w).client.pc.failed ≠ [] →
      w.client.pending ++ w.client.pc.failed ≠ [] ∧
        (e.fire w).client.runClient = w.client.runClient) : ParkedInv (e.fire w) where
  fresh k hk := by rw [hfresh k hk, h.parked.fresh k (hcount.trans hk)]
  request m hm := by
    obtain ⟨hreq, hret⟩ := h.parked.request m (hqueue hm)
    obtain ⟨hreq', hret'⟩ := hcalls m.2 hret
    exact ⟨hreq'.trans hreq, hret'⟩
  ended hq := by
    obtain ⟨hq', hrun⟩ := hended hq
    rw [hrun]
    exact h.gone_mono he hq'

/-- Steps that leave the calls and the requests alone. -/
theorem parked_same {e : Event} (he : e.Enabled w) (hcount : (e.fire w).callCount = w.callCount)
    (hcalls : (e.fire w).calls = w.calls)
    (hqueue : (e.fire w).client.pending ++ (e.fire w).client.pc.queued ⊆
      w.client.pending ++ w.client.pc.queued)
    (hended : (e.fire w).client.pending ++ (e.fire w).client.pc.failed ≠ [] →
      w.client.pending ++ w.client.pc.failed ≠ [] ∧
        (e.fire w).client.runClient = w.client.runClient) : ParkedInv (e.fire w) := by
  refine h.parked_mono he hcount.ge (fun k _ => by rw [hcalls]) (fun k hk => ?_) hqueue hended
  unfold Returned
  rw [hcalls]
  exact ⟨rfl, hk⟩

/-- Before the client has a stream nothing is parked. -/
theorem not_parked (hoff : w.stdinPump = .off) :
    w.client.pending ++ w.client.pc.queued = [] := by
  refine List.eq_nil_iff_forall_not_mem.2 fun m hm => ?_
  obtain ⟨-, i, b, hpc⟩ := h.parked.request m hm
  simp [(h.calls.off hoff).1 m.2] at hpc

theorem parked_remote {e : Remote} (he : e.Enabled w) : ParkedInv (e.fire w) := by
  have hsame := h.parked_same (e := .remote e) he
  have hmono := h.parked_mono (e := .remote e) he
  -- a call that moves and has not returned is no other call
  have hother : ∀ {k : ℕ} {pc : CallPc}, ¬ Returned w k → ∀ k', Returned w k' →
      (Remote.setCall w k pc k').request = (w.calls k').request ∧
        ∃ i b, (Remote.setCall w k pc k').pc = .returned i b := by
    intro k pc hk k' hk'
    have hne : k' ≠ k := fun hx => hk (hx ▸ hk')
    rw [Remote.setCall, update_of_ne hne]
    exact ⟨rfl, hk'⟩
  have hmoved : ∀ {k : ℕ} {pc : CallPc}, (w.calls k).pc ≠ .idle → ∀ k', w.callCount ≤ k' →
      Remote.setCall w k pc k' = w.calls k' := by
    intro k pc hk k' hk'
    have hne : k' ≠ k := fun hx => hk (hx ▸ h.parked.fresh k' hk')
    rw [Remote.setCall, update_of_ne hne]
  have hreturn : ∀ (k : ℕ) (pc : CallPc), (∃ i b, pc = .returned i b) → ∀ k', Returned w k' →
      (Remote.setCall w k pc k').request = (w.calls k').request ∧
        ∃ i b, (Remote.setCall w k pc k').pc = .returned i b := by
    rintro k pc ⟨i, b, rfl⟩ k' hk'
    by_cases hne : k' = k
    · subst hne
      simp [Remote.setCall]
    · rw [Remote.setCall, update_of_ne hne]
      exact ⟨rfl, hk'⟩
  have hout : w.client.pc.early = true → w.client.pending = [] := fun hx =>
    (List.append_eq_nil_iff.1 (h.not_parked (h.calls.early hx))).1
  cases e with
  | connect => exact hsame rfl rfl (by simp [Event.fire, Remote.fire, ClientPc.queued,
      hout (by simp [show w.client.pc = _ from he, ClientPc.early])]) (by
      simp [Event.fire, Remote.fire, ClientPc.failed,
        hout (by simp [show w.client.pc = _ from he, ClientPc.early])])
  | recvStarted | recvFirstAttached | connectFail =>
    have hnil := hout (by simp [he.1, ClientPc.early])
    exact hsame rfl rfl (by simp [Event.fire, Remote.fire, ClientPc.queued, World.pop, hnil])
      (by simp [Event.fire, Remote.fire, ClientPc.failed, World.pop, hnil])
  | install j =>
    have hpc : w.client.pc = _ := he
    exact hsame rfl rfl (by simp [Event.fire, Remote.fire, ClientPc.queued])
      (by simp [Event.fire, Remote.fire, ClientPc.failed])
  | flushSent m todo failed sd =>
    obtain ⟨-, i, b, hpc⟩ := h.parked.request m (by simp [he.1, ClientPc.queued])
    refine hmono le_rfl (hmoved (by simp [hpc])) (hreturn _ _ ⟨_, _, rfl⟩) ?_ ?_
    · simp only [Event.fire, Remote.fire, he.1, ClientPc.queued]
      grind
    · simp [Event.fire, Remote.fire, he.1, ClientPc.failed]
  | flushFailed m todo failed sd =>
    obtain ⟨hpc, hfail⟩ := he
    have hgone : Gone w w.client.runClient := hfail.elim (h.requests.stream _).clientDown id
    refine ⟨h.parked.fresh, fun m' hm' => h.parked.request m' ?_, fun _ => hgone⟩
    simp only [Remote.fire, hpc, ClientPc.queued] at hm' ⊢
    grind
  | flushDone failed sd =>
    have hpc : w.client.pc = _ := he
    by_cases hf : failed = []
    · exact hsame rfl rfl (by simp [Event.fire, Remote.fire, hpc, hf, ClientPc.queued])
        (by simp [Event.fire, Remote.fire, hpc, hf, ClientPc.failed])
    · exact hsame rfl rfl (by simp [Event.fire, Remote.fire, hpc, hf, ClientPc.queued])
        (by simp [Event.fire, Remote.fire, hpc, hf, ClientPc.failed])
  | requeue failed sd =>
    have hpc : w.client.pc = _ := he
    refine hsame rfl rfl ?_ ?_
    · simp only [Event.fire, Remote.fire, hpc, ClientPc.queued]
      grind
    · intro hq
      refine ⟨fun hx => hq ?_, rfl⟩
      simp only [hpc, ClientPc.failed, List.append_eq_nil_iff] at hx
      simp [Event.fire, Remote.fire, ClientPc.failed, hx.1, hx.2]
  | call request =>
    refine hmono (Nat.le_succ _) (fun k hk => ?_) (fun k hk => ?_) (List.Subset.refl _)
      fun hq => ⟨hq, rfl⟩
    · exact update_of_ne (by simp only [Event.fire, Remote.fire] at hk; omega) ..
    · have hne : k ≠ w.callCount := by
        rintro rfl
        obtain ⟨i, b, hpc⟩ := hk
        simp [h.parked.fresh _ le_rfl] at hpc
      simpa [Event.fire, Remote.fire, Returned, update_of_ne hne] using hk
  | callGet k =>
    have hpc : (w.calls k).pc = _ := he
    exact hmono le_rfl (hmoved (by simp [hpc])) (hother (by simp [Returned, hpc]))
      (List.Subset.refl _) fun hq => ⟨hq, rfl⟩
  | callSent k i =>
    exact hmono le_rfl (hmoved (by simp [he.1])) (hreturn _ _ ⟨_, _, rfl⟩) (List.Subset.refl _)
      fun hq => ⟨hq, rfl⟩
  | callFailed k i | callRetry k i =>
    exact hmono le_rfl (hmoved (by simp [he.1])) (hother (by simp [Returned, he.1]))
      (List.Subset.refl _) fun hq => ⟨hq, rfl⟩
  | callPark k i =>
    obtain ⟨hpc, rfl⟩ := he
    have hgone := ((h.calls.call k).parking _ hpc).2
    refine ⟨fun k' hk' => ?_, fun m hm => ?_, fun _ => hgone⟩
    · exact (congrArg Call.pc (hmoved (by simp [hpc]) k' hk')).trans (h.parked.fresh k' hk')
    · have hcase : m ∈ w.client.pending ++ w.client.pc.queued ∨ m = ((w.calls k).request, k) := by
        simp only [Remote.fire] at hm
        grind
      rcases hcase with hm | rfl
      · obtain ⟨hreq, hret⟩ := h.parked.request m hm
        obtain ⟨hreq', hret'⟩ := hreturn k _ ⟨_, _, rfl⟩ m.2 hret
        exact ⟨hreq'.trans hreq, hret'⟩
      · simp [Remote.fire, Remote.returnCall, Remote.setCall, Returned]
  | stdinRead | stdinEof | stdinGet | stdinSent | stdinFailed | stdinSwapped | stdinFinished
  | stdinMark | stdinFetch | stdinClose | recvStraggler | cancel =>
    exact hsame rfl rfl (List.Subset.refl _) fun hq => ⟨hq, rfl⟩
  | writeDone | replayClose | replaySkip =>
    have hpc : w.client.pc = _ := he
    exact hsame rfl rfl (by simp [Event.fire, Remote.fire, ClientPc.queued])
      (by simp [Event.fire, Remote.fire, hpc, ClientPc.failed])
  | _ =>
    exact hsame rfl rfl (by simp [Event.fire, Remote.fire, World.pop, World.openStream, he.1,
      ClientPc.queued]) (by simp [Event.fire, Remote.fire, World.pop, World.openStream, he.1,
      ClientPc.failed])

theorem step_parked {e : Event} (he : e.Enabled w) : ParkedInv (e.fire w) := by
  cases e with
  | host e => cases e <;> exact h.parked_same he rfl rfl (List.Subset.refl _) fun hq => ⟨hq, rfl⟩
  | serve i e => cases e <;> exact h.parked_same he rfl rfl (List.Subset.refl _) fun hq => ⟨hq, rfl⟩
  | remote e => exact h.parked_remote he
  | _ => exact h.parked_same he rfl rfl (List.Subset.refl _) fun hq => ⟨hq, rfl⟩

theorem step {e : Event} (he : e.Enabled w) : ControlInv (e.fire w) := by
  refine ⟨h.resume.step he, h.requests.step he, ?_, h.step_parked he⟩
  have hl := h.lasting he
  have hc := h.calls
  cases e with
  | host e => cases e <;> exact hc.mono hl rfl rfl .rfl id id id
  | serve i e => cases e <;> exact hc.mono hl rfl rfl .rfl id id id
  | remote e => exact h.step_remote he
  | _ => exact hc.mono hl rfl rfl .rfl id id id

end ControlInv

theorem ParkedInv.init (s : Start) : ParkedInv (.init s) := by
  refine ⟨fun _ _ => rfl, fun m hm => ?_, fun hq => ?_⟩ <;> cases hb : s.byClient <;>
    simp_all [World.init, ClientPc.queued, ClientPc.failed]

/-- **Control messages are handed to the command**: when a call has returned `nil` while the client's
stream was healthy and the process running, or its parked request was sent then, the request has
reached the command by the time the stream is drained, provided that the stream is still healthy.
Nothing stays parked on a healthy stream: when the client waits for output on it, all that was parked
before has been sent. -/
theorem control_handed (s : Start) (w : World) (hw : Reaches s (fun _ _ => True) w) :
    (∀ k i, (w.calls k).pc = .returned i true → w.Healthy i → Drained w i →
      ((w.calls k).request, k) ∈ w.handled) ∧
    (w.client.pc = .recv → w.Healthy w.client.runClient → w.client.pending = []) := by
  have h : ControlInv w := hw.invariant ⟨.init s, .init s, .init s, .init s⟩ fun _ _ h he _ => h.step he
  refine ⟨fun k i hret hh hd => (((h.calls.call k).returned i hret).2 hh).drained hd,
    fun _ hh => ?_⟩
  by_contra hne
  exact (h.requests.stream _).not_gone hh (h.parked.ended fun hx => hne (List.append_eq_nil_iff.1 hx).1)

/-- The consumer's input ends, and then a signal is sent: the half-closed stream rejects it and ends.
The client re-attaches, sends the parked signal, and half-closes the new stream as well. -/
def eofThenSignal : List Event :=
  [.serve 0 .attachStart, .serve 0 .greetSent, .remote .recvStarted, .remote .stdinEof,
    .remote .stdinMark, .remote .stdinFetch, .remote (.stdinClose 0), .serve 0 .inEof,
    .serve 0 (.inPolicy false), .serve 0 (.inClose false), .remote (.call (.signal "SIGINT")),
    .remote (.callGet 0), .brk 0 0 0, .remote (.callFailed 0 0), .remote (.callPark 0 0),
    .remote (.recvFail .unknown), .remote .reattach, .serve 1 (.lookup ⟨0, 0⟩),
    .serve 1 (.attach ⟨0, 0⟩), .serve 1 (.ackOutput ⟨0, 0⟩), .serve 1 (.replayOut ⟨0, 0⟩),
    .serve 1 (.replayErr ⟨0, 0⟩ 0), .serve 1 (.replySent ⟨0, 0⟩),
    .remote (.recvAttached 1 ⟨0, 0⟩), .remote (.install 1),
    .remote (.resyncSkip (0, 0) [(.signal "SIGINT", 0)] true),
    .remote (.flushSent (.signal "SIGINT", 0) [] [] true), .remote (.flushDone [] true),
    .remote .replayClose, .serve 1 (.inRecv (.control (.signal "SIGINT") (some 0))),
    .serve 1 (.inCheck (.control (.signal "SIGINT") (some 0)) false),
    .serve 1 (.inControl (.signal "SIGINT") (some 0) false), .serve 1 .inEof]

/-- The theorem at a signal that is sent after the half-close. -/
theorem control_handed_after_eof :
    ∃ w, Reaches (.piped .kill) (fun _ _ => True) w ∧ (w.calls 0).pc = .returned 1 true ∧
      w.Healthy 1 ∧ w.sendClosed 1 = true ∧ Drained w 1 ∧ ((w.calls 0).request, 0) ∈ w.handled ∧
      w.client.pending = [] := by
  have hrun : ∃ w ∈ system.exec (fun _ _ => True) (.init (.piped .kill)) eofThenSignal,
      (w.calls 0).pc = .returned 1 true ∧ w.Healthy 1 ∧ w.sendClosed 1 = true ∧ Drained w 1 ∧
        w.client.pc = .recv ∧ w.client.runClient = 1 := by
    decide +kernel
  obtain ⟨w, hw, hpc, hh, hc, hd, hrecv, hcur⟩ := Machine.exists_run_of_exec _ _ hrun
  obtain ⟨hhanded, hparked⟩ := control_handed _ w hw
  exact ⟨w, hw, hpc, hh, hc, hd, hhanded 0 1 hpc hh hd, hparked hrecv (hcur ▸ hh)⟩

end Graft.Command
