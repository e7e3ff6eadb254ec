import Graft.Command.Conservation

/-!
# The window size on a new stream

`NotifyWindowChange` notes the size and sends it; `setClient` publishes a new stream together with a
copy of the noted size and of the parked messages, and sends these afterwards.  A call that is made
in between goes to the new stream at once, so that an older size can arrive after a newer one.
-/

namespace Graft.Delivery

open Function (update_self update_of_ne)
open Command (Control Req)

def windowOf : Control → Option (ℤ × ℤ)
  | .windowChange h w => some (h, w)
  | _ => none

def windowSent : Req → Option (ℤ × ℤ)
  | .control c _ => windowOf c
  | _ => none

def queuedWindows (queue : List (Control × ℕ)) : List (ℤ × ℤ) := queue.filterMap (windowOf ·.1)

@[simp] theorem queuedWindows_nil : queuedWindows [] = [] := rfl

@[simp] theorem queuedWindows_append (queue queue' : List (Control × ℕ)) :
    queuedWindows (queue ++ queue') = queuedWindows queue ++ queuedWindows queue' :=
  List.filterMap_append

theorem queuedWindows_cons (m : Control × ℕ) (queue : List (Control × ℕ)) :
    queuedWindows (m :: queue) = (windowOf m.1).toList ++ queuedWindows queue := by
  cases hm : windowOf m.1 <;> simp [queuedWindows, hm]

theorem queuedWindows_singleton (m : Control × ℕ) :
    queuedWindows [m] = (windowOf m.1).toList := by
  rw [queuedWindows_cons, queuedWindows_nil, List.append_nil]

/-- `setClient` sends the noted size if it is one. -/
def resyncWindow (win : ℤ × ℤ) : List (ℤ × ℤ) := if 0 < win.1 ∧ 0 < win.2 then [win] else []

namespace Process

/-- The window sizes that `setClient` is about to send. -/
def windows : Process → List (ℤ × ℤ)
  | resyncing win pending _ => resyncWindow win ++ queuedWindows pending
  | flushing pending _ _ => queuedWindows pending
  | requeueing .. | recv | replaying | finished => []

/-- The messages that `setClient` could not send. -/
def failed : Process → List (Control × ℕ)
  | flushing _ failed _ | requeueing failed _ => failed
  | resyncing .. | recv | replaying | finished => []

def Still (p : Process) : Prop := p = .recv ∨ p = .finished

instance (p : Process) : Decidable p.Still := inferInstanceAs (Decidable (_ ∨ _))

theorem Still.windows {p : Process} (h : p.Still) : p.windows = [] := by
  obtain rfl | rfl := h <;> rfl

theorem last_windows (stdinDone : Bool) : (last stdinDone).windows = [] := by
  cases stdinDone <;> rfl

theorem last_failed (stdinDone : Bool) : (last stdinDone).failed = [] := by
  cases stdinDone <;> rfl

end Process

namespace State

variable (w : State)

/-- The window sizes delivered on a stream, in order. -/
def windows (i : ℕ) : List (ℤ × ℤ) :=
  w.log.filterMap fun m => if m.1 = i then windowSent m.2 else none

def asked : List (ℤ × ℤ) :=
  (List.range w.callCount).filterMap fun k => windowOf (w.calls k).request

/-- The size of the latest call of `NotifyWindowChange`. -/
def latest : Option (ℤ × ℤ) := w.asked.getLast?

/-- No call of `NotifyWindowChange` is in progress. -/
def Idle : Prop :=
  ∀ k < w.callCount, (windowOf (w.calls k).request).isSome → (w.calls k).pc = .returned

instance : Decidable w.Idle := inferInstanceAs (Decidable (∀ _ < _, _))

/-- The sizes that wait for the next stream, should this one break. -/
def waiting : List (ℤ × ℤ) := queuedWindows (w.process.queue ++ w.pending)

/-- The sizes that wait for the next stream in any case. -/
def stranded : List (ℤ × ℤ) := queuedWindows (w.process.failed ++ w.pending)

/-- A stream rejects messages only because it is broken. -/
def Sound (i : ℕ) : Prop := w.up i = true → w.sendClosed i = false

theorem windows_deliver (i : ℕ) (req : Req) (j : ℕ) :
    (w.deliver i req).windows j
      = w.windows j ++ if i = j then (windowSent req).toList else [] := by
  simp only [windows, deliver, List.filterMap_append]
  congr 1
  by_cases hij : i = j
  · cases hreq : windowSent req <;> simp [hij, hreq]
  · simp [hij]

theorem windows_deliver_none (i : ℕ) (req : Req) (hreq : windowSent req = none) (j : ℕ) :
    (w.deliver i req).windows j = w.windows j := by
  simp [windows_deliver, hreq]

theorem setCall_request (k : ℕ) (pc : CallPc) (j : ℕ) :
    ((w.setCall k pc).calls j).request = (w.calls j).request := by
  by_cases hj : j = k
  · subst hj
    simp [setCall]
  · simp [setCall, hj]

theorem setCall_pc_self (k : ℕ) (pc : CallPc) : ((w.setCall k pc).calls k).pc = pc := by
  simp [setCall]

theorem setCall_pc_of_ne {k j : ℕ} (hj : j ≠ k) (pc : CallPc) :
    ((w.setCall k pc).calls j).pc = (w.calls j).pc := by
  simp [setCall, hj]

theorem asked_setCall (k : ℕ) (pc : CallPc) : (w.setCall k pc).asked = w.asked :=
  List.filterMap_congr fun j _ => by rw [w.setCall_request]

theorem latest_setCall (k : ℕ) (pc : CallPc) : (w.setCall k pc).latest = w.latest :=
  congrArg List.getLast? (w.asked_setCall k pc)

theorem asked_call (request : Control) :
    (Event.fire w (.call request)).asked = w.asked ++ (windowOf request).toList := by
  have hold : ∀ k ∈ List.range w.callCount,
      windowOf ((Event.fire w (.call request)).calls k).request
        = windowOf (w.calls k).request := by
    intro k hk
    have hne : k ≠ w.callCount := (List.mem_range.1 hk).ne
    simp [Event.fire, hne]
  have hcount : (Event.fire w (.call request)).callCount = w.callCount + 1 := rfl
  rw [asked, hcount, List.range_succ, List.filterMap_append, List.filterMap_congr hold, asked]
  cases hreq : windowOf request <;> simp [Event.fire, hreq]

theorem latest_call (request : Control) :
    (Event.fire w (.call request)).latest = (windowOf request).or w.latest := by
  rw [latest, asked_call, latest]
  cases windowOf request <;> simp

end State

theorem lastWin_eq (win : ℤ × ℤ) (request : Control) :
    request.lastWin win = (windowOf request).getD win := by
  cases request <;> rfl

/-- One caller calls `NotifyWindowChange`, one call after another. -/
def OneByOne (w : State) : Event → Prop
  | .call request => (windowOf request).isSome → w.Idle
  | _ => True

/-- What a step has to meet for the window sizes to arrive in order: a call sends its size on a
stream only when `setClient` has no other size to send after it; a size is rejected only by a stream
that is broken; and a new stream gets a size if there is one. -/
def Orderly (w : State) : Event → Prop
  | .callSend k client =>
    ∀ size ∈ windowOf (w.calls k).request,
      w.Sound client ∧ (w.Accepts client → ∀ later ∈ w.process.windows.getLast?, later = size)
  | .resync .. => w.Sound w.runClient
  | .flush m .. => (windowOf m.1).isSome → w.Sound w.runClient
  | .install =>
    resyncWindow w.win ≠ [] ∨ w.latest = none ∨ queuedWindows w.pending ≠ [] ∨ ¬ w.Idle
  | _ => True

instance (w : State) (i : ℕ) : Decidable (w.Sound i) := inferInstanceAs (Decidable (_ → _))

instance (w : State) (e : Event) : Decidable (OneByOne w e) := by
  -- not `cases`, which puts proofs of equations into the instance
  apply Event.casesOn (motive := fun e => Decidable (OneByOne w e)) e <;> intros <;>
    dsimp only [OneByOne] <;> infer_instance

instance (w : State) (e : Event) : Decidable (Orderly w e) := by
  apply Event.casesOn (motive := fun e => Decidable (Orderly w e)) e <;> intros <;>
    dsimp only [Orderly] <;> infer_instance

/-! ### The invariant -/

structure InOrder (w : State) : Prop where
  /-- the current stream is the newest one -/
  opened : w.opened = w.runClient + 1
  /-- it was opened because all others had broken -/
  older : ∀ i < w.runClient, w.up i = false
  unopened : ∀ i, w.runClient < i → w.windows i = []
  clients : ∀ k client, (w.calls k).pc = .sending client → client ≤ w.runClient
  win : w.win = w.latest.getD (0, 0)
  /-- the size of a call in progress is the latest one -/
  active : ∀ k < w.callCount, ∀ size, windowOf (w.calls k).request = some size →
    (w.calls k).pc ≠ .returned → w.latest = some size
  parking : ∀ k client, (windowOf (w.calls k).request).isSome → (w.calls k).pc = .parking client →
    w.up client = false
  stranded : w.up w.runClient = true → w.stranded = []
  /-- on a stream that is up, the latest size is delivered, or `setClient` delivers it last -/
  up : w.Idle → w.up w.runClient = true →
    (w.windows w.runClient ++ w.process.windows).getLast? = w.latest
  /-- on one that is not, the latest size is the last of those that wait, if any do -/
  down : w.Idle → w.up w.runClient = false → w.waiting ≠ [] → w.waiting.getLast? = w.latest

theorem InOrder.init : InOrder .init where
  opened := rfl
  older i hi := absurd hi (Nat.not_lt_zero i)
  unopened _ _ := rfl
  clients _ _ h := by cases h
  win := rfl
  active k hk := absurd hk (Nat.not_lt_zero k)
  parking _ _ h := by cases h
  stranded _ := rfl
  up _ _ := rfl
  down _ h := by cases h

/-- What a step leaves as it is that neither breaks nor opens a stream and makes no progress with a
call: on a stream that is up, what was delivered and what `setClient` has yet to send, taken
together; on one that is not, what waits for the next one. -/
structure Keeps (w w' : State) : Prop where
  opened : w'.opened = w.opened
  up : w'.up = w.up
  runClient : w'.runClient = w.runClient
  win : w'.win = w.win
  calls : w'.calls = w.calls
  callCount : w'.callCount = w.callCount
  others : ∀ i ≠ w.runClient, w'.windows i = w.windows i
  whole : w.up w.runClient = true →
    w'.windows w.runClient ++ w'.process.windows = w.windows w.runClient ++ w.process.windows
  stranded : w.up w.runClient = true → w'.stranded = w.stranded
  waiting : w.up w.runClient = false → w'.waiting = w.waiting

section Step

variable {w w' : State}

theorem Keeps.idle (h : Keeps w w') : w'.Idle ↔ w.Idle := by
  rw [State.Idle, h.calls, h.callCount, ← State.Idle]

theorem Keeps.latest (h : Keeps w w') : w'.latest = w.latest := by
  rw [State.latest, State.asked, h.calls, h.callCount, ← State.asked, ← State.latest]

theorem InOrder.keeps (h : InOrder w) (hk : Keeps w w') : InOrder w' where
  opened := by rw [hk.opened, hk.runClient, h.opened]
  older := by rw [hk.runClient, hk.up]; exact h.older
  unopened := by
    intro i hi
    rw [hk.runClient] at hi
    rw [hk.others i hi.ne', h.unopened i hi]
  clients := by rw [hk.calls, hk.runClient]; exact h.clients
  win := by rw [hk.win, hk.latest, h.win]
  active := by rw [hk.calls, hk.callCount, hk.latest]; exact h.active
  parking := by rw [hk.calls, hk.up]; exact h.parking
  stranded := by
    rw [hk.up, hk.runClient]
    intro hup
    rw [hk.stranded hup, h.stranded hup]
  up := by
    rw [hk.idle, hk.up, hk.runClient, hk.latest]
    grind [Keeps.whole, up]
  down := by
    rw [hk.idle, hk.up, hk.runClient, hk.latest]
    intro hidle hdown
    rw [hk.waiting hdown]
    exact h.down hidle hdown

theorem Keeps.deliver (i : ℕ) (req : Req) (hreq : windowSent req = none) :
    Keeps w (w.deliver i req) where
  opened := rfl
  up := rfl
  runClient := rfl
  win := rfl
  calls := rfl
  callCount := rfl
  others j _ := w.windows_deliver_none i req hreq j
  whole _ := by
    rw [w.windows_deliver_none i req hreq]
    rfl
  stranded _ := rfl
  waiting _ := rfl

theorem InOrder.closeSend (h : InOrder w) (i : ℕ) : InOrder (w.closeSend i) := by
  unfold State.closeSend
  split_ifs
  · exact { h.keeps (.deliver i .halfClose rfl) with }
  · exact { h with }

/-! ### Streams -/

/-- What `setClient` sends last is what waits, unless it could not send something already. -/
theorem exists_windows_eq_append (hstranded : w.stranded = []) :
    ∃ resync, w.process.windows = resync ++ w.waiting := by
  simp only [State.stranded, queuedWindows_append, List.append_eq_nil_iff] at hstranded
  obtain ⟨hfailed, hpending⟩ := hstranded
  simp only [State.waiting, queuedWindows_append, hpending, List.append_nil]
  cases hprocess : w.process with
  | resyncing win pending stdinDone => exact ⟨resyncWindow win, rfl⟩
  | flushing pending failed stdinDone =>
    grind [Process.failed, Process.windows, queuedWindows, Process.queue]
  | requeueing failed stdinDone =>
    rw [hprocess, Process.failed] at hfailed
    exact ⟨[], by simp [Process.windows, Process.queue, hfailed]⟩
  | recv | replaying | finished => exact ⟨[], rfl⟩

theorem InOrder.fail (h : InOrder w) (i : ℕ) : InOrder (Event.fire w (.fail i)) where
  opened := h.opened
  older j hj := by
    by_cases hij : j = i
    · simp [Event.fire, hij]
    · simpa [Event.fire, hij] using h.older j hj
  unopened := h.unopened
  clients := h.clients
  win := h.win
  active := h.active
  parking k client hwindow hpc := by
    by_cases hi : client = i
    · simp [Event.fire, hi]
    · simpa [Event.fire, hi] using h.parking k client hwindow hpc
  stranded hup := by
    refine h.stranded ?_
    by_cases hi : w.runClient = i
    · simp [Event.fire, hi] at hup
    · simpa [Event.fire, hi] using hup
  up hidle hup := by
    refine h.up hidle ?_
    by_cases hi : w.runClient = i
    · simp [Event.fire, hi] at hup
    · simpa [Event.fire, hi] using hup
  down hidle _ hwaiting := by
    have hwas : w.waiting ≠ [] := hwaiting
    change w.waiting.getLast? = w.latest
    cases hup : w.up w.runClient with
    | false => exact h.down hidle hup hwas
    | true =>
      -- the stream breaks: what `setClient` would have sent last is what waits now
      obtain ⟨resync, heq⟩ := exists_windows_eq_append (h.stranded hup)
      have hlast := h.up hidle hup
      rw [heq, ← List.append_assoc, List.getLast?_append_of_ne_nil _ hwas] at hlast
      exact hlast

theorem eq_of_resyncWindow_ne_nil {win : ℤ × ℤ} (h : resyncWindow win ≠ []) :
    resyncWindow win = [win] ∧ win ≠ (0, 0) := by
  unfold resyncWindow at h ⊢
  split_ifs at h ⊢ with hpos
  · refine ⟨rfl, ?_⟩
    rintro rfl
    exact lt_irrefl _ hpos.1
  · exact absurd rfl h

theorem InOrder.getLast?_resync (h : InOrder w) (hrecv : w.process = .recv)
    (hdown : w.up w.runClient = false) (hok : Orderly w .install) (hidle : w.Idle) :
    (resyncWindow w.win ++ queuedWindows w.pending).getLast? = w.latest := by
  have hwaiting : w.waiting = queuedWindows w.pending := by
    rw [State.waiting, hrecv]
    rfl
  by_cases hpending : queuedWindows w.pending = []
  · rw [hpending, List.append_nil]
    by_cases hwin : resyncWindow w.win = []
    · obtain hne | hnone | hne | hne := hok
      · exact absurd hwin hne
      · rw [hwin, hnone]
        rfl
      · exact absurd hpending hne
      · exact absurd hidle hne
    · obtain ⟨heq, hzero⟩ := eq_of_resyncWindow_ne_nil hwin
      have hnoted := h.win
      cases hlatest : w.latest with
      | none =>
        rw [hlatest] at hnoted
        exact absurd hnoted hzero
      | some size =>
        rw [hlatest] at hnoted
        rw [heq, hnoted]
        rfl
  · rw [List.getLast?_append_of_ne_nil _ hpending, ← hwaiting]
    exact h.down hidle hdown (hwaiting ▸ hpending)

theorem InOrder.install (h : InOrder w) (he : Event.Enabled w .install)
    (hok : Orderly w .install) : InOrder w.swap := by
  obtain ⟨hrecv, hdown⟩ := he
  have hnew : w.runClient < w.opened := by
    simp_all [opened]
  have hnothing : w.windows w.opened = [] := h.unopened _ hnew
  have hwaiting : w.swap.waiting = w.waiting := by
    simp [State.waiting, State.swap, hrecv, Process.queue]
  refine
    { opened := rfl, older := ?_, unopened := ?_, clients := ?_, win := h.win, active := h.active,
      parking := h.parking, stranded := fun _ => rfl, up := ?_, down := ?_ }
  · intro i hi
    have hle : i < w.runClient + 1 := h.opened ▸ (hi : i < w.opened)
    obtain hlt | rfl := Nat.lt_succ_iff_lt_or_eq.1 hle
    · exact h.older i hlt
    · exact hdown
  · intro i hi
    exact h.unopened i (hnew.trans hi)
  · intro k client hpc
    exact (h.clients k client hpc).trans hnew.le
  · intro hidle _
    have hlast := h.getLast?_resync hrecv hdown hok hidle
    change (w.windows w.opened ++ (resyncWindow w.win ++ queuedWindows w.pending)).getLast? = _
    rw [hnothing, List.nil_append]
    exact hlast
  · intro hidle _ hne
    rw [hwaiting] at hne ⊢
    exact h.down hidle hdown hne

/-! ### `setClient` -/

theorem Keeps.resync {win : ℤ × ℤ} {pending : List (Control × ℕ)} {stdinDone : Bool}
    (he : Event.Enabled w (.resync win pending stdinDone)) (hsound : w.Sound w.runClient) :
    Keeps w (Event.fire w (.resync win pending stdinDone)) := by
  have hprocess : w.process = .resyncing win pending stdinDone := he
  dsimp only [Event.fire]
  split_ifs with hsend
  · obtain ⟨hpos, haccepts⟩ := hsend
    refine ⟨rfl, rfl, rfl, rfl, rfl, rfl, fun i hi => ?_, fun _ => ?_, fun _ => ?_, fun hdown => ?_⟩
    · grind [State.windows, State.deliver]
    · rw [State.windows_deliver, if_pos rfl, hprocess]
      simp [State.deliver, Process.windows, resyncWindow, hpos, windowSent, windowOf]
      rfl
    · simp [State.stranded, State.deliver, Process.failed, hprocess]
    · grind [State.Accepts]
  · refine ⟨rfl, rfl, rfl, rfl, rfl, rfl, fun i _ => rfl, fun hup => ?_, fun _ => ?_, fun _ => ?_⟩
    · have hpos : ¬ (0 < win.1 ∧ 0 < win.2) := fun hpos => hsend ⟨hpos, hup, hsound hup⟩
      rw [hprocess]
      simp [Process.windows, resyncWindow, hpos]
      rfl
    · simp [State.stranded, Process.failed, hprocess]
    · simp [State.waiting, Process.queue, hprocess]

theorem Keeps.flush {m : Control × ℕ} {pending failed : List (Control × ℕ)} {stdinDone : Bool}
    (he : Event.Enabled w (.flush m pending failed stdinDone))
    (hsound : (windowOf m.1).isSome → w.Sound w.runClient) :
    Keeps w (Event.fire w (.flush m pending failed stdinDone)) := by
  have hprocess : w.process = .flushing (m :: pending) failed stdinDone := he
  dsimp only [Event.fire]
  split_ifs with haccepts
  · refine ⟨rfl, rfl, rfl, rfl, rfl, rfl, fun i hi => ?_, fun _ => ?_, fun _ => ?_, fun hdown => ?_⟩
    · grind [State.windows, State.deliver]
    · rw [State.windows_deliver, if_pos rfl, hprocess, Process.windows, queuedWindows_cons,
        List.append_assoc]
      rfl
    · simp [State.stranded, State.deliver, Process.failed, hprocess]
    · grind [State.Accepts]
  · -- a size is rejected only by a stream that is broken
    have hnone : w.up w.runClient = true → windowOf m.1 = none := by
      grind [Option.isSome_iff_ne_none, State.Accepts, State.Sound]
    refine ⟨rfl, rfl, rfl, rfl, rfl, rfl, fun i _ => rfl, fun hup => ?_, fun hup => ?_, fun _ => ?_⟩
    · grind [Process.windows, queuedWindows_cons, State.windows]
    · simp [State.stranded, Process.failed, hprocess, queuedWindows_cons, hnone hup]
    · simp [State.waiting, Process.queue, hprocess]

theorem Keeps.setProcess (p : Process) (pending : List (Control × ℕ))
    (hwindows : p.windows = w.process.windows)
    (hfailed : p.failed ++ pending = w.process.failed ++ w.pending)
    (hqueue : p.queue ++ pending = w.process.queue ++ w.pending) :
    Keeps w { w with process := p, pending := pending } where
  opened := rfl
  up := rfl
  runClient := rfl
  win := rfl
  calls := rfl
  callCount := rfl
  others _ _ := rfl
  whole _ := congrArg (w.windows w.runClient ++ ·) hwindows
  stranded _ := congrArg queuedWindows hfailed
  waiting _ := congrArg queuedWindows hqueue

theorem Keeps.flushed {failed : List (Control × ℕ)} {stdinDone : Bool}
    (he : Event.Enabled w (.flushed failed stdinDone)) :
    Keeps w (Event.fire w (.flushed failed stdinDone)) := by
  have hprocess : w.process = .flushing [] failed stdinDone := he
  dsimp only [Event.fire]
  split_ifs with hfailed
  · subst hfailed
    refine .setProcess _ _ ?_ ?_ ?_
    · rw [hprocess, Process.last_windows]
      rfl
    · rw [hprocess, Process.last_failed]
      rfl
    · rw [hprocess, Process.last_queue]
      rfl
  · refine .setProcess _ _ ?_ ?_ ?_ <;> rw [hprocess]
    · rfl
    · rfl
    · simp [Process.queue]

theorem Keeps.requeue {failed : List (Control × ℕ)} {stdinDone : Bool}
    (he : Event.Enabled w (.requeue failed stdinDone)) :
    Keeps w (Event.fire w (.requeue failed stdinDone)) := by
  have hprocess : w.process = .requeueing failed stdinDone := he
  refine .setProcess _ _ ?_ ?_ ?_
  · rw [hprocess, Process.last_windows]
    rfl
  · rw [hprocess, Process.last_failed]
    rfl
  · rw [hprocess, Process.last_queue]
    rfl

/-! ### Calls -/

theorem InOrder.call (h : InOrder w) {request : Control} (hok : OneByOne w (.call request)) :
    InOrder (Event.fire w (.call request)) := by
  have hself : (Event.fire w (.call request)).calls w.callCount = ⟨request, .getting⟩ :=
    update_self ..
  have hother : ∀ k ≠ w.callCount, (Event.fire w (.call request)).calls k = w.calls k :=
    fun k hk => update_of_ne hk ..
  have hlatest := w.latest_call request
  -- once it is idle, the call was not one of `NotifyWindowChange`
  have hidle : (Event.fire w (.call request)).Idle → w.Idle ∧ windowOf request = none := by
    grind [Option.isSome_iff_ne_none, State.Idle, Event.fire]
  refine
    { opened := h.opened, older := h.older, unopened := h.unopened, clients := ?_, win := ?_,
      active := ?_, parking := ?_, stranded := h.stranded, up := ?_, down := ?_ }
  · intro k client hpc
    by_cases hk : k = w.callCount
    · simp_all
    · rw [hother k hk] at hpc
      exact h.clients k client hpc
  · grind [lastWin_eq, win, Event.fire]
  · intro k hk size hsize hpc
    rw [hlatest]
    by_cases hcount : k = w.callCount
    · simp_all
    · rw [hother k hcount] at hsize hpc
      have hlt : k < w.callCount := lt_of_le_of_ne (Nat.lt_succ_iff.1 hk) hcount
      cases hrequest : windowOf request with
      | none => exact h.active k hlt size hsize hpc
      | some size' =>
        have hidle : w.Idle := hok (by rw [hrequest]; rfl)
        exact absurd (hidle k hlt (by rw [hsize]; rfl)) hpc
  · intro k client hwindow hpc
    by_cases hk : k = w.callCount
    · simp_all
    · rw [hother k hk] at hwindow hpc
      exact h.parking k client hwindow hpc
  · intro hidle' hup
    obtain ⟨hwas, hrequest⟩ := hidle hidle'
    rw [hlatest, hrequest, Option.none_or]
    exact h.up hwas hup
  · intro hidle' hdown hwaiting
    obtain ⟨hwas, hrequest⟩ := hidle hidle'
    rw [hlatest, hrequest, Option.none_or]
    exact h.down hwas hdown hwaiting

theorem InOrder.setCall (h : InOrder w) {k : ℕ} {pc : CallPc} (hk : k < w.callCount)
    (hactive : (w.calls k).pc ≠ .returned) (hpc : pc ≠ .returned)
    (hsending : ∀ client, pc = .sending client → client ≤ w.runClient)
    (hparking : ∀ client, (windowOf (w.calls k).request).isSome → pc = .parking client →
      w.up client = false) : InOrder (w.setCall k pc) := by
  have hlatest := w.latest_setCall k pc
  have hidle : (w.setCall k pc).Idle → w.Idle := by
    intro hidle j hj hwindow
    by_cases hjk : j = k
    · grind [State.setCall_request, State.setCall_pc_self, State.setCall, State.Idle]
    · grind [State.setCall_request, State.setCall_pc_of_ne, State.Idle, State.setCall]
  refine
    { opened := h.opened, older := h.older, unopened := h.unopened, clients := ?_, win := ?_,
      active := ?_, parking := ?_, stranded := h.stranded, up := ?_, down := ?_ }
  · grind [State.setCall_pc_self, clients, State.setCall_pc_of_ne, State.setCall]
  · rw [hlatest]
    exact h.win
  · grind [active, State.setCall_request, State.setCall_pc_of_ne, State.setCall]
  · intro j client hwindow hj
    rw [w.setCall_request] at hwindow
    by_cases hjk : j = k
    · grind [State.setCall_pc_self, State.setCall]
    · rw [w.setCall_pc_of_ne hjk] at hj
      exact h.parking j client hwindow hj
  · intro hidle' hup
    rw [hlatest]
    exact h.up (hidle hidle') hup
  · intro hidle' hdown hwaiting
    rw [hlatest]
    exact h.down (hidle hidle') hdown hwaiting

/-- A call returns, and its message is where `w'` has it: on the current stream, if that is up, and
else after all that waits. -/
theorem InOrder.returnCall (h : InOrder w) {k : ℕ} (hk : k < w.callCount)
    (hactive : (w.calls k).pc ≠ .returned) (hopened : w'.opened = w.opened) (hsame : w'.up = w.up)
    (hclient : w'.runClient = w.runClient) (hwin : w'.win = w.win)
    (hcalls : w'.calls = (w.setCall k .returned).calls) (hcount : w'.callCount = w.callCount)
    (hunopened : ∀ i, w.runClient < i → w'.windows i = [])
    (hstranded : w.up w.runClient = true → w'.stranded = [])
    (hup : w.up w.runClient = true → (w'.windows w.runClient ++ w'.process.windows).getLast?
      = (windowOf (w.calls k).request).or
        (w.windows w.runClient ++ w.process.windows).getLast?)
    (hdown : w.up w.runClient = false →
      w'.waiting = w.waiting ++ (windowOf (w.calls k).request).toList) : InOrder w' := by
  have hlatest : w'.latest = w.latest := by
    rw [State.latest, State.asked, hcalls, hcount]
    exact w.latest_setCall k .returned
  have hidle : w'.Idle → windowOf (w.calls k).request = none → w.Idle := by
    intro hidle hnone j hj hwindow
    have hjk : j ≠ k := by
      grind
    have hreturned := hidle j (hcount ▸ hj) (by rw [hcalls, w.setCall_request]; exact hwindow)
    rwa [hcalls, w.setCall_pc_of_ne hjk] at hreturned
  refine
    { opened := by rw [hopened, hclient, h.opened], older := by rw [hclient, hsame]; exact h.older,
      unopened := by rw [hclient]; exact hunopened, clients := ?_,
      win := by rw [hwin, hlatest, h.win], active := ?_, parking := ?_,
      stranded := by rw [hsame, hclient]; exact hstranded, up := ?_, down := ?_ }
  · intro j client hj
    rw [hcalls] at hj
    rw [hclient]
    by_cases hjk : j = k
    · rw [hjk, w.setCall_pc_self] at hj
      cases hj
    · rw [w.setCall_pc_of_ne hjk] at hj
      exact h.clients j client hj
  · intro j hj size hsize hjpc
    rw [hcalls] at hsize hjpc
    rw [w.setCall_request] at hsize
    rw [hlatest]
    by_cases hjk : j = k
    · rw [hjk, w.setCall_pc_self] at hjpc
      exact absurd rfl hjpc
    · rw [w.setCall_pc_of_ne hjk] at hjpc
      exact h.active j (hcount ▸ hj) size hsize hjpc
  · intro j client hwindow hj
    rw [hcalls] at hwindow hj
    rw [w.setCall_request] at hwindow
    rw [hsame]
    by_cases hjk : j = k
    · rw [hjk, w.setCall_pc_self] at hj
      cases hj
    · grind [parking, State.setCall_pc_of_ne]
  · rw [hsame, hclient, hlatest]
    intro hidle' hisup
    rw [hup hisup]
    cases hsize : windowOf (w.calls k).request with
    | none => exact h.up (hidle hidle' hsize) hisup
    | some size => exact (h.active k hk size hsize hactive).symm
  · rw [hsame, hclient, hlatest]
    intro hidle' hisdown
    rw [hdown hisdown]
    cases hsize : windowOf (w.calls k).request with
    | none =>
      simp_all [down]
    | some size =>
      intro _
      rw [h.active k hk size hsize hactive]
      simp

theorem InOrder.eq_runClient (h : InOrder w) {k client : ℕ}
    (hpc : (w.calls k).pc = .sending client) (hup : w.up client = true) :
    client = w.runClient := by
  refine (h.clients k client hpc).eq_of_not_lt fun hlt => ?_
  rw [h.older client hlt] at hup
  cases hup

theorem InOrder.callSend (h : InOrder w) {k client : ℕ}
    (he : Event.Enabled w (.callSend k client)) (hok : Orderly w (.callSend k client)) :
    InOrder (Event.fire w (.callSend k client)) := by
  obtain ⟨hk, hpc⟩ := he
  have hactive : (w.calls k).pc ≠ .returned := by rw [hpc]; nofun
  dsimp only [Event.fire]
  split_ifs with haccepts
  · obtain rfl := h.eq_runClient hpc haccepts.1
    have hwindows : ∀ i, ((w.setCall k .returned).deliver w.runClient
        (.control (w.calls k).request (some k))).windows i
          = w.windows i ++ if w.runClient = i then (windowOf (w.calls k).request).toList else [] :=
      (w.setCall k .returned).windows_deliver w.runClient _
    refine h.returnCall hk hactive rfl rfl rfl rfl rfl rfl (fun i hi => ?_) h.stranded (fun _ => ?_)
      fun hdown => ?_
    · simp_all [LT.lt.ne, unopened]
    · rw [hwindows, if_pos rfl]
      change (_ ++ w.process.windows).getLast? = _
      cases hsize : windowOf (w.calls k).request with
      | none => simp
      | some size =>
        have hlater := (hok size hsize).2 haccepts
        cases hlast : w.process.windows.getLast? with
        | none =>
          simp_all
        | some later =>
          -- what `setClient` sends after it is the same size
          rw [List.getLast?_append, hlast, hlater later hlast]
          rfl
    · grind [State.Accepts]
  · refine h.setCall hk hactive nofun nofun fun client' hwindow hclient => ?_
    cases hclient
    obtain ⟨size, hsize⟩ := Option.isSome_iff_exists.1 hwindow
    have hsound := (hok size hsize).1
    by_contra hup
    rw [Bool.not_eq_false] at hup
    exact haccepts ⟨hup, hsound hup⟩

theorem InOrder.callPark (h : InOrder w) {k client : ℕ}
    (he : Event.Enabled w (.callPark k client)) :
    InOrder (Event.fire w (.callPark k client)) := by
  obtain ⟨hk, hpc⟩ := he
  have hactive : (w.calls k).pc ≠ .returned := by simp [hpc]
  dsimp only [Event.fire]
  split_ifs with hclient
  · subst hclient
    -- a window size is parked only because the stream is broken
    have hnone : w.up w.runClient = true → windowOf (w.calls k).request = none := by
      grind [parking, Option.isSome_iff_ne_none]
    refine h.returnCall hk hactive rfl rfl rfl rfl rfl rfl h.unopened (fun hup => ?_)
      (fun hup => ?_) fun _ => ?_
    · have hstranded := h.stranded hup
      simp only [State.stranded, queuedWindows_append, List.append_eq_nil_iff] at hstranded ⊢
      exact ⟨hstranded.1, hstranded.2, by rw [queuedWindows_singleton, hnone hup]; rfl⟩
    · rw [hnone hup]
      rfl
    · simp [State.waiting, State.setCall, queuedWindows_singleton]
  · exact h.setCall hk hactive (fun hx => by cases hx) (fun _ hx => by cases hx)
      fun _ _ hparking => by cases hparking

theorem InOrder.fire (h : InOrder w) {e : Event} (he : e.Enabled w) (hone : OneByOne w e)
    (hok : Orderly w e) : InOrder (e.fire w) := by
  cases e with
  | fail i => exact h.fail i
  | install => exact h.install he hok
  | resync => exact h.keeps (.resync he hok)
  | flush => exact h.keeps (.flush he hok)
  | flushed => exact h.keeps (.flushed he)
  | requeue => exact h.keeps (.requeue he)
  | replay =>
    refine (h.closeSend w.runClient).keeps (.setProcess .recv w.pending ?_ ?_ ?_)
    all_goals
      rw [State.closeSend, he]
      rfl
  | finish =>
    refine h.keeps (.setProcess .finished w.pending ?_ ?_ ?_) <;>
      rw [he] <;> rfl
  | send data client swapped =>
    dsimp only [Event.fire]
    split_ifs
    · exact { h.keeps (.deliver client (.stdin data) rfl) with }
    · exact { h with }
  | close client => exact { h.closeSend client with }
  | call request => exact h.call hone
  | callGet k =>
    simp_all [setCall, Event.fire, Event.Enabled]
  | callSend => exact h.callSend he hok
  | callPark => exact h.callPark he
  | _ => exact { h with }

end Step

/-- **Window sizes keep their order across a re-attach**, as long as `setClient` and the caller do
not send at the same time: if one caller calls `NotifyWindowChange` one call after another and every
step is in order, then, with no call and no flush in progress, on a stream that is up, the last size
delivered on it is the size of the latest call. -/
theorem window_order {w : State}
    (h : delivery.Run (fun w e => OneByOne w e ∧ Orderly w e) .init w) (hidle : w.Idle)
    (hstill : w.process.Still) (hup : w.up w.runClient = true) :
    (w.windows w.runClient).getLast? = w.latest := by
  have hinv : InOrder w :=
    h.invariant (I := InOrder) .init fun _ _ hw he hok => hw.fire he hok.1 hok.2
  have hlast := hinv.up hidle hup
  rwa [hstill.windows, List.append_nil] at hlast

/-- A size is parked on a broken stream and sent on the next one, and the next size follows it. -/
theorem window_order_parked :
    ∃ w, delivery.Run (fun w e => OneByOne w e ∧ Orderly w e) .init w ∧ w.Idle ∧ w.process.Still ∧
      w.up w.runClient = true ∧ w.runClient = 1 ∧ w.windows 1 = [(24, 80), (24, 80), (40, 120)] ∧
      (w.windows w.runClient).getLast? = w.latest := by
  have hexec : ∃ w ∈ delivery.exec (fun w e => OneByOne w e ∧ Orderly w e) .init
      [.fail 0, .call (.windowChange 24 80), .callGet 0, .callSend 0 0, .callPark 0 0, .install,
        .resync (24, 80) [(.windowChange 24 80, 0)] false,
        .flush (.windowChange 24 80, 0) [] [] false, .flushed [] false,
        .call (.windowChange 40 120), .callGet 1, .callSend 1 1],
      w.Idle ∧ w.process.Still ∧ w.up w.runClient = true ∧ w.runClient = 1 ∧
        w.windows 1 = [(24, 80), (24, 80), (40, 120)] := by
    decide +kernel
  obtain ⟨w, hrun, hidle, hstill, hup, hclient, hwindows⟩ := Machine.exists_run_of_exec _ _ hexec
  exact ⟨w, hrun, hidle, hstill, hup, hclient, hwindows, window_order hrun hidle hstill hup⟩

/-- **A newer size is overtaken by an older one.**  `setClient` has installed the new stream and has
yet to send the size it has noted; the next call goes to the new stream at once, and the older size
arrives after it. -/
theorem window_overtaken :
    ∃ w, delivery.Run OneByOne .init w ∧ w.Idle ∧ w.process.Still ∧ w.up w.runClient = true ∧
      w.latest = some (40, 120) ∧ (w.windows w.runClient).getLast? = some (24, 80) := by
  have hexec : ∃ w ∈ delivery.exec OneByOne .init
      [.call (.windowChange 24 80), .callGet 0, .callSend 0 0, .fail 0, .install,
        .call (.windowChange 40 120), .callGet 1, .callSend 1 1, .resync (24, 80) [] false,
        .flushed [] false],
      w.Idle ∧ w.process.Still ∧ w.up w.runClient = true ∧ w.latest = some (40, 120) ∧
        (w.windows w.runClient).getLast? = some (24, 80) := by
    decide +kernel
  exact Machine.exists_run_of_exec _ _ hexec

end Graft.Delivery
