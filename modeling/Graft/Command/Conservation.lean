import Graft.Command.Delivery

/-!
# The out-of-band messages of a resumable command

A message of `Signal`, `SetEnvVar` or `NotifyWindowChange` that cannot be sent is parked, and
`setClient` takes the parked messages with it when it installs a stream; what it cannot send it
parks again.  The caller parks its message only while the stream that rejected it is the current
one, and tries again otherwise.
-/

namespace Graft.Delivery

open Function (update_self update_of_ne)
open Command (Control Req)

/-- The call that a message comes from; the window size that `setClient` sends comes from none. -/
def callOf : ℕ × Req → Option ℕ
  | (_, .control _ call) => call
  | _ => none

/-- The messages that `setClient` has taken and not delivered. -/
def Process.queue : Process → List (Control × ℕ)
  | resyncing _ pending _ => pending
  | flushing pending failed _ => failed ++ pending
  | requeueing failed _ => failed
  | recv | replaying | finished => []

theorem Process.last_queue (stdinDone : Bool) : (Process.last stdinDone).queue = [] := by
  cases stdinDone <;> rfl

def CallPc.active : CallPc → Bool
  | getting | sending _ | parking _ => true
  | returned => false

namespace State

variable (w : State) (k : ℕ)

/-- How often the message of a call was delivered, over all streams. -/
def deliveries : ℕ := (w.log.filterMap callOf).count k

def parked : ℕ := (w.pending.map Prod.snd).count k

/-- How often `setClient` has it. -/
def taken : ℕ := (w.process.queue.map Prod.snd).count k

def retried : ℕ := (w.calls k).pc.active.toNat

def places : ℕ := w.deliveries k + w.parked k + w.taken k + w.retried k

end State

structure Conserved (w : State) : Prop where
  places : ∀ k, w.places k = if k < w.callCount then 1 else 0
  queued : ∀ m ∈ w.pending ++ w.process.queue, m.1 = (w.calls m.2).request
  logged : ∀ i c k, (i, Req.control c (some k)) ∈ w.log → c = (w.calls k).request

theorem Conserved.init : Conserved .init where
  places _ := rfl
  queued _ h := by cases h
  logged _ _ _ h := by cases h

section Step

variable {w : State}

/-! ### Messages that come from no call -/

theorem Conserved.append (h : Conserved w) {m : ℕ × Req} (hm : callOf m = none) :
    Conserved { w with log := w.log ++ [m] } where
  places k := by
    have hlog : State.deliveries { w with log := w.log ++ [m] } k = w.deliveries k := by
      simp [State.deliveries, List.filterMap_append, hm]
    rw [State.places, hlog]
    exact h.places k
  queued := h.queued
  logged := by
    intro i c k hmem
    obtain hmem | hmem := List.mem_append.1 hmem
    · exact h.logged i c k hmem
    · rw [List.mem_singleton] at hmem
      subst hmem
      cases hm

theorem Conserved.closeSend (h : Conserved w) (i : ℕ) : Conserved (w.closeSend i) := by
  unfold State.closeSend
  split_ifs
  · exact { h.append (m := (i, .halfClose)) rfl with }
  · exact { h with }

/-! ### `setClient` -/

theorem Conserved.setProcess (h : Conserved w) {p : Process} (hp : p.queue.Perm w.process.queue) :
    Conserved { w with process := p } where
  places k := by
    have htaken : State.taken { w with process := p } k = w.taken k := (hp.map Prod.snd).count_eq k
    rw [State.places, htaken]
    exact h.places k
  queued := by
    intro m hm
    grind [queued]
  logged := h.logged

theorem Conserved.install (h : Conserved w) (hrecv : w.process = .recv) : Conserved w.swap where
  places k := by
    refine Eq.trans ?_ (h.places k)
    simp [State.places, State.deliveries, State.parked, State.taken, State.retried, State.swap,
      hrecv, Process.queue]
  queued := by
    intro m hm
    exact h.queued m (List.mem_append_left _ hm)
  logged := h.logged

theorem Conserved.flushed (h : Conserved w) {m : Control × ℕ} {pending failed : List (Control × ℕ)}
    {stdinDone : Bool} (hprocess : w.process = .flushing (m :: pending) failed stdinDone) (i : ℕ) :
    Conserved ({ w with process := .flushing pending failed stdinDone }.deliver i
      (.control m.1 (some m.2))) where
  places k := by
    refine Eq.trans ?_ (h.places k)
    simp only [State.places, State.deliveries, State.parked, State.taken, State.retried,
      State.deliver, hprocess, Process.queue, List.filterMap_append, List.filterMap_cons,
      List.filterMap_nil, callOf, List.map_append, List.map_cons, List.count_append,
      List.count_cons, List.count_nil]
    omega
  queued := by
    intro m' hm'
    refine h.queued m' ?_
    rw [hprocess]
    simp only [State.deliver, Process.queue, List.mem_append, List.mem_cons] at hm' ⊢
    tauto
  logged := by
    intro j c k hmem
    obtain hmem | hmem := List.mem_append.1 hmem
    · exact h.logged j c k hmem
    · rw [List.mem_singleton] at hmem
      cases hmem
      refine h.queued m ?_
      rw [hprocess]
      simp [Process.queue]

theorem Conserved.requeue (h : Conserved w) {failed : List (Control × ℕ)} {stdinDone : Bool}
    (hprocess : w.process = .requeueing failed stdinDone) :
    Conserved (Event.fire w (.requeue failed stdinDone)) := by
  have hqueue : w.process.queue = failed := by rw [hprocess]; rfl
  refine ⟨fun k => ?_, fun m hm => ?_, h.logged⟩
  · refine Eq.trans ?_ (h.places k)
    simp only [State.places, State.deliveries, State.parked, State.taken, State.retried, Event.fire,
      hqueue, Process.last_queue, List.map_append, List.count_append, List.map_nil, List.count_nil]
    omega
  · simp only [Event.fire, Process.last_queue, List.append_nil, List.mem_append] at hm
    rw [← hqueue] at hm
    exact h.queued m (List.mem_append.2 hm.symm)

/-! ### Calls -/

theorem Conserved.setCall (h : Conserved w) {k : ℕ} {pc : CallPc}
    (hactive : pc.active = (w.calls k).pc.active) : Conserved (w.setCall k pc) := by
  have hcalls : ∀ j, ((w.setCall k pc).calls j).request = (w.calls j).request ∧
      ((w.setCall k pc).calls j).pc.active = (w.calls j).pc.active := by
    intro j
    by_cases hj : j = k
    · simp_all [State.setCall]
    · simp [State.setCall, hj]
  refine ⟨fun j => ?_, fun m hm => ?_, fun i c j hmem => ?_⟩
  · have hretried : (w.setCall k pc).retried j = w.retried j := congrArg Bool.toNat (hcalls j).2
    rw [State.places, hretried]
    exact h.places j
  · exact (h.queued m hm).trans (hcalls m.2).1.symm
  · exact (h.logged i c j hmem).trans (hcalls j).1.symm

/-- The message of a call moves to where `w'` has it, and the call returns. -/
theorem Conserved.returnCall (h : Conserved w) {k : ℕ} (hactive : (w.calls k).pc.active = true)
    {w' : State} (hcalls : w'.calls = (w.setCall k .returned).calls)
    (hcount : w'.callCount = w.callCount)
    (hmoved : ∀ j, w'.deliveries j + w'.parked j + w'.taken j
      = w.deliveries j + w.parked j + w.taken j + if j = k then 1 else 0)
    (hqueued : ∀ m ∈ w'.pending ++ w'.process.queue,
      m ∈ w.pending ++ w.process.queue ∨ m = ((w.calls k).request, k))
    (hlogged : ∀ i c j, (i, Req.control c (some j)) ∈ w'.log →
      (i, Req.control c (some j)) ∈ w.log ∨ c = (w.calls k).request ∧ j = k) : Conserved w' := by
  have hrequest : ∀ j, (w'.calls j).request = (w.calls j).request := by
    intro j
    rw [hcalls]
    by_cases hj : j = k
    · subst hj
      simp [State.setCall]
    · simp [State.setCall, hj]
  have hretried : ∀ j, w'.retried j + (if j = k then 1 else 0) = w.retried j := by
    intro j
    by_cases hj : j = k
    · subst hj
      have hreturned : CallPc.returned.active = false := rfl
      simp [State.retried, hcalls, State.setCall, hactive, hreturned]
    · simp [State.retried, hcalls, State.setCall, hj]
  refine ⟨fun j => ?_, fun m hm => ?_, fun i c j hmem => ?_⟩
  · have hplaces := h.places j
    grind [State.places]
  · grind [queued]
  grind [logged]

theorem Conserved.callSent (h : Conserved w) {k : ℕ} (hactive : (w.calls k).pc.active = true)
    (i : ℕ) :
    Conserved ((w.setCall k .returned).deliver i (.control (w.calls k).request (some k))) := by
  refine h.returnCall hactive rfl rfl (fun j => ?_) (fun m hm => .inl hm) fun i' c j hmem => ?_
  · by_cases hj : j = k
    · subst hj
      simp [State.deliveries, State.parked, State.taken, State.deliver, State.setCall, callOf,
        List.filterMap_append]
      omega
    · have hne : ¬ k = j := Ne.symm hj
      simp [State.deliveries, State.parked, State.taken, State.deliver, State.setCall, callOf,
        List.filterMap_append, hj, hne]
  · refine (List.mem_append.1 hmem).imp_right fun hmem => ?_
    rw [List.mem_singleton] at hmem
    cases hmem
    exact ⟨rfl, rfl⟩

theorem Conserved.callParked (h : Conserved w) {k : ℕ} (hactive : (w.calls k).pc.active = true) :
    Conserved
      { w.setCall k .returned with pending := w.pending ++ [((w.calls k).request, k)] } := by
  refine h.returnCall hactive rfl rfl (fun j => ?_) (fun m hm => ?_) fun _ _ _ hmem => .inl hmem
  · by_cases hj : j = k
    · subst hj
      simp [State.deliveries, State.parked, State.taken, State.setCall]
      omega
    · have hne : ¬ k = j := Ne.symm hj
      simp [State.deliveries, State.parked, State.taken, State.setCall, hj, hne]
  · simp only [State.setCall, List.mem_append, List.mem_singleton] at hm ⊢
    tauto

theorem Conserved.call (h : Conserved w) (request : Control) :
    Conserved (Event.fire w (.call request)) := by
  -- the message of this call is nowhere yet
  have hnew := h.places w.callCount
  rw [if_neg (lt_irrefl _), State.places] at hnew
  have hother : ∀ j ≠ w.callCount, (Event.fire w (.call request)).calls j = w.calls j :=
    fun j hj => update_of_ne hj ..
  have hself : (Event.fire w (.call request)).calls w.callCount = ⟨request, .getting⟩ :=
    update_self ..
  refine ⟨fun k => ?_, fun m hm => ?_, fun i c k hmem => ?_⟩
  · have hplaces := h.places k
    have hcount : (Event.fire w (.call request)).callCount = w.callCount + 1 := rfl
    have hrest : (Event.fire w (.call request)).places k
        = w.deliveries k + w.parked k + w.taken k + (Event.fire w (.call request)).retried k := rfl
    rw [hrest, hcount, State.retried]
    rw [State.places] at hplaces
    by_cases hk : k = w.callCount
    · subst hk
      rw [hself, if_pos (Nat.lt_succ_self _)]
      simp only [CallPc.active, Bool.toNat_true]
      omega
    · rw [hother k hk, ← State.retried, hplaces]
      congr 1
      exact propext ⟨fun hlt => by omega, fun hlt => by omega⟩
  · have hne : m.2 ≠ w.callCount := by
      intro heq
      have hpos : 0 < ((w.pending ++ w.process.queue).map Prod.snd).count w.callCount :=
        List.count_pos_iff.2 (List.mem_map.2 ⟨m, hm, heq⟩)
      rw [List.map_append, List.count_append] at hpos
      simp only [State.parked, State.taken] at hnew
      omega
    rw [hother _ hne]
    exact h.queued m hm
  · have hne : k ≠ w.callCount := by
      rintro rfl
      have hpos : 0 < (w.log.filterMap callOf).count w.callCount :=
        List.count_pos_iff.2 (List.mem_filterMap.2 ⟨_, hmem, rfl⟩)
      simp only [State.deliveries] at hnew
      omega
    rw [hother _ hne]
    exact h.logged i c k hmem

theorem Conserved.fire (h : Conserved w) {e : Event} (he : e.Enabled w) : Conserved (e.fire w) := by
  cases e with
  | install => exact h.install he.1
  | resync win pending stdinDone =>
    have hinv : Conserved { w with process := .flushing pending [] stdinDone } :=
      h.setProcess (by rw [he]; exact .refl _)
    dsimp only [Event.fire]
    split_ifs
    · exact hinv.append rfl
    · exact hinv
  | flush m pending failed stdinDone =>
    dsimp only [Event.fire]
    split_ifs
    · exact h.flushed he _
    · refine h.setProcess ?_
      rw [he]
      simp [Process.queue]
  | flushed failed stdinDone =>
    refine h.setProcess ?_
    rw [he]
    split_ifs with hfailed
    · subst hfailed
      rw [Process.last_queue]
      exact .refl _
    · simp [Process.queue]
  | requeue failed stdinDone => exact h.requeue he
  | replay =>
    refine (h.closeSend w.runClient).setProcess (p := .recv) ?_
    rw [State.closeSend, he]
    exact .refl _
  | finish => exact h.setProcess (by rw [he]; exact .refl _)
  | send data client swapped =>
    dsimp only [Event.fire]
    split_ifs
    · exact { h.append (m := (client, .stdin data)) rfl with }
    · exact { h with }
  | close client => exact { h.closeSend client with }
  | call request => exact h.call request
  | callGet k => exact h.setCall (by rw [he.2]; rfl)
  | callSend k client =>
    dsimp only [Event.fire]
    split_ifs
    · exact h.callSent (by rw [he.2]; rfl) client
    · exact h.setCall (by rw [he.2]; rfl)
  | callPark k client =>
    dsimp only [Event.fire]
    split_ifs
    · exact h.callParked (by rw [he.2]; rfl)
    · exact h.setCall (by rw [he.2]; rfl)
  | _ => exact { h with }

end Step

/-- **Each message is in exactly one place**: it was delivered once, on one stream; or it is parked
once; or `setClient` has it; or its caller is still trying to send it.  And it is the message that
the call was made with. -/
theorem messages_conserved {w : State} (h : delivery.Reachable .init w) {k : ℕ}
    (hk : k < w.callCount) :
    w.deliveries k + w.parked k + w.taken k + w.retried k = 1 ∧
      (∀ m ∈ w.pending ++ w.process.queue, m.2 = k → m.1 = (w.calls k).request) ∧
      ∀ i c, (i, Req.control c (some k)) ∈ w.log → c = (w.calls k).request := by
  have hinv : Conserved w := h.invariant (I := Conserved) .init fun _ _ hw he _ => hw.fire he
  refine ⟨(hinv.places k).trans (if_pos hk), fun m hm hmk => ?_, fun i c => hinv.logged i c k⟩
  rw [← hmk]
  exact hinv.queued m hm

/-- A signal is parked on a broken stream and delivered on the next one. -/
theorem messages_conserved_parked :
    ∃ w, delivery.Reachable .init w ∧ 0 < w.callCount ∧ w.runClient = 1 ∧ w.deliveries 0 = 1 ∧
      w.parked 0 = 0 ∧ w.retried 0 = 0 := by
  have hexec : ∃ w ∈ delivery.exec (fun _ _ => True) .init
      [.call (.signal "TERM"), .callGet 0, .fail 0, .callSend 0 0, .callPark 0 0, .install,
        .resync (0, 0) [(.signal "TERM", 0)] false, .flush (.signal "TERM", 0) [] [] false],
      0 < w.callCount ∧ w.runClient = 1 ∧ w.deliveries 0 = 1 := by
    decide +kernel
  obtain ⟨w, hrun, hcount, hclient, hdelivered⟩ := Machine.exists_run_of_exec _ _ hexec
  have hplaces := (messages_conserved hrun hcount).1
  exact ⟨w, hrun, hcount, hclient, hdelivered, by omega, by omega⟩

end Graft.Delivery
