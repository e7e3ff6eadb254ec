import Graft.Daemon.Closed

/-!
# Joining a remote daemon (`remoteDaemon.Initialize`)

The first call of `Initialize` does the work; every other one waits until that is done and returns
what it returned.  `Reconnect` does not touch this result: a daemon that could not be initialized
and was brought up by a later health check is connected, and `Initialize` keeps failing on it.
-/

namespace Graft.Joining

open Function (update update_self update_of_ne)
open Lifecycle (Daemon Step Pc)

/-- A call of `Initialize`. -/
inductive Call
  /-- until `initDone` is closed -/
  | waiting
  | returned (ok : Bool)
  deriving DecidableEq

structure State where
  daemon : Daemon
  /-- whether `doInitialize` has succeeded, once that is decided -/
  result : Option Bool
  /-- the thread of the call that does the work -/
  initThread : ℕ
  /-- `initDone` was closed -/
  initDone : Bool
  calls : ℕ → Call
  callCount : ℕ

namespace State

def init : State where
  daemon := .init
  result := none
  initThread := 0
  initDone := false
  calls _ := .waiting
  callCount := 0

def addCall (w : State) (c : Call) : State :=
  { w with calls := update w.calls w.callCount c, callCount := w.callCount + 1 }

end State

/-- What a step says about the result of `doInitialize`. -/
def outcome : Lifecycle.Event → Option Bool
  | .step _ .setConnected => some true
  | .step _ .setFailed | .step _ .superseded => some false
  | _ => none

inductive Event
  /-- the first section of `Initialize` -/
  | call
  /-- a step of `doInitialize`, of `Reconnect`, of a health check or of `Close` -/
  | run (e : Lifecycle.Event)
  /-- the first call stores the result and closes `initDone` -/
  | closeDone
  /-- a call returns the result -/
  | wake (k : ℕ)

namespace Event

def Enabled (w : State) : Event → Prop
  | call => True
  | run e => e.Enabled w.daemon ∧ match e with
    | .callInitialize => False
    | _ => True
  | closeDone => w.initDone = false ∧ w.result ≠ none ∧ w.daemon.op w.initThread = .done
  | wake k => k < w.callCount ∧ w.calls k = .waiting ∧ w.initDone = true

def fire (w : State) : Event → State
  | call =>
    if w.daemon.started then w.addCall .waiting
    else match w.daemon.state with
      | .new =>
        { w.addCall .waiting with
          daemon := Lifecycle.Event.fire w.daemon .callInitialize
          initThread := w.daemon.opCount }
      | .connected => w.addCall (.returned true)
      | .initializing | .failed | .closed | .reconnecting => w.addCall (.returned false)
  | run e => { w with daemon := e.fire w.daemon, result := (outcome e).or w.result }
  | closeDone => { w with initDone := true }
  | wake k => { w with calls := update w.calls k (.returned (w.result = some true)) }

end Event

def joining : Machine State Event := ⟨Event.Enabled, Event.fire⟩

instance (w : State) (e : Event) : Decidable (joining.enabled w e) := by
  apply Event.casesOn (motive := fun e => Decidable (joining.enabled w e)) e
  case run =>
    intro s
    apply Lifecycle.Event.casesOn (motive := fun s => Decidable (joining.enabled w (.run s))) s <;>
      intros <;> dsimp only [joining, Event.Enabled] <;> infer_instance
  all_goals
    intros
    dsimp only [joining, Event.Enabled]
    infer_instance

/-- A further call of `Initialize` returns, and whenever it does, it returns success. -/
def State.Joinable (w : State) : Prop :=
  (∃ w', joining.Reachable (Event.fire w .call) w' ∧
    ∃ ok, w'.calls w.callCount = .returned ok) ∧
  ∀ w', joining.Reachable (Event.fire w .call) w' →
    ∀ ok, w'.calls w.callCount = .returned ok → ok = true

/-! ### Who decides the result -/

section Threads

/-- A thread keeps its role or gives it up, apart from `Reconnect`, which takes it up. -/
def Follows (pc pc' : Pc) : Prop :=
  pc'.role = .other ∨ pc'.role = pc.role ∨ pc.role = .enters ∧ pc'.role = .reconnects

variable {d d' : Daemon} {t u : ℕ} {s : Step} {pc pc₀ : Pc}

/-- What a step of thread `t` does.  The state becomes failed or connected only when the step
decides the result of `doInitialize`, or at the end of `Reconnect`. -/
structure Advances (d : Daemon) (t : ℕ) (s : Step) (d' : Daemon) (pc : Pc) : Prop where
  op : d'.op = update d.op t pc
  opCount : d'.opCount = d.opCount
  started : d'.started = d.started
  follows : Follows (d.op t) pc
  state : d'.state = d.state ∨ d'.state = .reconnecting ∨ outcome (.step t s) ≠ none ∨
    (d.op t).role = .reconnects

theorem Advances.of_quietly (hpc : d.op t = pc₀) (hq : Lifecycle.Quietly d d')
    (hf : Follows pc₀ pc) : Advances d t s (d'.setPc t pc) pc :=
  ⟨by rw [Daemon.setPc, hq.op], hq.opCount, hq.started, hpc ▸ hf, .inl hq.state⟩

theorem exists_advances (he : s.Enabled d t) (hs : s ≠ .superseded) :
    ∃ pc, Advances d t s (s.fire d t) pc := by
  cases s with
  | superseded => exact absurd rfl hs
  | initializeRemote caller opens =>
    refine ⟨_, .of_quietly he (Lifecycle.quietly_openTransport d opens) (.inr (.inl ?_))⟩
    cases caller <;> rfl
  | initializeRemoteFailed caller =>
    refine ⟨_, .of_quietly he (.refl d) (.inr (.inl ?_))⟩
    cases caller <;> rfl
  | connectFailed caller | discoverFailed caller =>
    refine ⟨_, .of_quietly he (Lifecycle.Quietly.refl d).unlockInstall (.inr (.inl ?_))⟩
    cases caller <;> rfl
  | reinstallFailed caller c =>
    refine ⟨_, .of_quietly he (Lifecycle.quietly_closeConn d c).unlockInstall (.inr (.inl ?_))⟩
    cases caller <;> rfl
  | lockInstall caller =>
    exact ⟨_, .of_quietly he.1 ⟨rfl, rfl, rfl, rfl, rfl, rfl, rfl⟩ (.inr (.inl rfl))⟩
  | tryConnectExisting caller found =>
    cases found
    · exact ⟨_, .of_quietly he (.refl d) (.inr (.inl rfl))⟩
    · exact ⟨_, .of_quietly he (Lifecycle.quietly_openConn d) (.inr (.inl rfl))⟩
  | reinstallDaemon caller c =>
    exact ⟨_, .of_quietly he (Lifecycle.quietly_closeConn d c) (.inr (.inl rfl))⟩
  | connectToRemoteDaemon caller =>
    exact ⟨_, .of_quietly he (Lifecycle.quietly_openConn d) (.inr (.inl rfl))⟩
  | setConnectedState caller c =>
    refine ⟨caller.installed, rfl, rfl, rfl, .inr (.inl ?_), .inl rfl⟩
    rw [show d.op t = _ from he]
    cases caller <;> rfl
  | setConnected | setFailed => exact ⟨_, rfl, rfl, rfl, .inl rfl, .inr (.inr (.inl nofun))⟩
  | enter =>
    dsimp only [Step.fire]
    split_ifs
    · exact ⟨.done, rfl, rfl, rfl, .inl rfl, .inl rfl⟩
    · refine ⟨.taking, rfl, rfl, rfl, .inr (.inr ⟨?_, rfl⟩), .inr (.inl rfl)⟩
      rw [show d.op t = _ from he]
      rfl
  | take =>
    refine ⟨.closingOld d.remoteConn, rfl, rfl, rfl, .inr (.inl ?_), .inl rfl⟩
    rw [show d.op t = _ from he]
    rfl
  | closeOld c => exact ⟨_, .of_quietly he (Lifecycle.quietly_closeConn d c) (.inr (.inl rfl))⟩
  | closeTransport =>
    exact ⟨_, .of_quietly he (Lifecycle.quietly_closeConnector d) (.inr (.inl rfl))⟩
  | deinitializeRemote | closeConnector =>
    exact ⟨_, .of_quietly he (Lifecycle.quietly_closeConnector d) (.inl rfl)⟩
  | check ok =>
    have hrole : (d.op t).role = .reconnects := by
      rw [show d.op t = _ from he]
      rfl
    dsimp only [Step.fire]
    split_ifs
    · exact ⟨.done, rfl, rfl, rfl, .inl rfl, .inr (.inr (.inr hrole))⟩
    · exact ⟨.done, rfl, rfl, rfl, .inl rfl, .inr (.inr (.inr hrole))⟩
    · exact ⟨.waiting, rfl, rfl, rfl, .inr (.inl hrole.symm), .inr (.inr (.inr hrole))⟩
  | giveUp => exact ⟨.done, rfl, rfl, rfl, .inl rfl, .inl rfl⟩
  | close c => exact ⟨_, .of_quietly he (Lifecycle.quietly_closeConn d c) (.inl rfl)⟩
  | afterTransport | keep | retry => exact ⟨_, .of_quietly he (.refl d) (.inr (.inl rfl))⟩

theorem role_of_outcome (he : s.Enabled d t) (ho : outcome (.step t s) ≠ none) :
    (d.op t).role = .initializes := by
  cases s with
  | setConnected | setFailed | superseded =>
    rw [show d.op t = _ from he]
    rfl
  | _ => exact absurd rfl ho

theorem op_of_outcome (ht : t < d.opCount) (ho : outcome (.step t s) ≠ none) :
    (s.fire d t).op t = .deinit ∨ (s.fire d t).op t = .done := by
  cases s with
  | setFailed => exact .inl (update_self ..)
  | setConnected => exact .inr (update_self ..)
  | superseded => exact .inr (by simp [Step.fire, Daemon.spawn, Daemon.setPc, ht.ne])
  | _ => exact absurd rfl ho

theorem Advances.self (h : Advances d t s d' pc) : d'.op t = pc := by
  rw [h.op, update_self]

theorem Advances.other (h : Advances d t s d' pc) (hu : u ≠ t) : d'.op u = d.op u := by
  rw [h.op, update_of_ne hu]

/-- The steps that decide the result touch no other thread that is at work on the daemon. -/
theorem of_outcome (he : s.Enabled d t) (hu : u ≠ t) :
    (s.fire d t).op u = d.op u ∨ ((s.fire d t).op u).role = .other := by
  by_cases hs : s = .superseded
  · subst hs
    by_cases hcount : u = d.opCount
    · exact .inr (by simp [Step.fire, Daemon.spawn, Daemon.setPc, hcount, Pc.role])
    · exact .inl (by simp [Step.fire, Daemon.spawn, Daemon.setPc, hcount, hu])
  · grind [exists_advances, Advances.other]

theorem started_of_outcome (ho : outcome (.step t s) ≠ none) :
    (s.fire d t).started = d.started ∧ d.opCount ≤ (s.fire d t).opCount := by
  cases s with
  | setFailed | setConnected => exact ⟨rfl, le_rfl⟩
  | superseded => exact ⟨rfl, Nat.le_succ _⟩
  | _ => exact absurd rfl ho

theorem op_of_decided (he : s.Enabled d t) (hop : d.op t = .deinit ∨ d.op t = .done) :
    (s.fire d t).op t = .done := by
  cases s with
  | deinitializeRemote => exact update_self ..
  | lockInstall => obtain hop | hop := hop <;> cases hop.symm.trans he.1
  | _ => obtain hop | hop := hop <;> cases hop.symm.trans he

end Threads

/-! ### The invariant -/

structure Inv (w : State) : Prop where
  /-- only the first call runs `doInitialize`, until the result is decided -/
  initializes : ∀ t, (w.daemon.op t).role = .initializes → t = w.initThread ∧ w.result = none
  started : w.daemon.started = false → w.result = none ∧ ∀ t, (w.daemon.op t).role = .other
  thread : w.daemon.started = true → w.initThread < w.daemon.opCount
  decided : w.result ≠ none →
    w.daemon.op w.initThread = .deinit ∨ w.daemon.op w.initThread = .done
  /-- health checks begin when the result is decided -/
  reconnects : ∀ t, (w.daemon.op t).role = .enters ∨ (w.daemon.op t).role = .reconnects →
    w.result ≠ none
  state : w.daemon.state = .failed ∨ w.daemon.state = .connected → w.result ≠ none
  done : w.initDone = true → w.result ≠ none

theorem Inv.init : Inv .init where
  initializes _ h := by cases h
  started _ := ⟨rfl, fun _ => rfl⟩
  thread h := by cases h
  decided h := absurd rfl h
  reconnects _ h := by obtain h | h := h <;> cases h
  state h := by obtain h | h := h <;> cases h
  done h := by cases h

section Step

variable {w : State}

theorem Inv.spawn (h : Inv w) {d : Daemon} {pc : Pc}
    (hop : d.op = update w.daemon.op w.daemon.opCount pc)
    (hcount : d.opCount = w.daemon.opCount + 1) (hstarted : d.started = w.daemon.started)
    (hpc : pc.role = .other ∨ pc.role = .enters ∧ w.result ≠ none)
    (hstate : d.state = .failed ∨ d.state = .connected → w.result ≠ none) :
    Inv { w with daemon := d } := by
  have hself : d.op w.daemon.opCount = pc := by rw [hop, update_self]
  have hother : ∀ u ≠ w.daemon.opCount, d.op u = w.daemon.op u :=
    fun u hu => by rw [hop, update_of_ne hu]
  refine
    { initializes := fun t ht => ?_, started := fun hs => ?_, thread := fun hs => ?_,
      decided := fun hr => ?_, reconnects := fun t ht => ?_, state := hstate, done := h.done }
  · by_cases htc : t = w.daemon.opCount
    · dsimp only at ht
      rw [htc, hself] at ht
      obtain hpc | hpc := hpc
      · rw [hpc] at ht
        cases ht
      · rw [hpc.1] at ht
        cases ht
    · exact h.initializes t (hother t htc ▸ ht)
  · obtain ⟨hresult, hroles⟩ := h.started (hstarted ▸ hs)
    refine ⟨hresult, fun t => ?_⟩
    by_cases htc : t = w.daemon.opCount
    · dsimp only
      rw [htc, hself]
      exact hpc.resolve_right fun hpc => hpc.2 hresult
    · dsimp only
      rw [hother t htc]
      exact hroles t
  · exact hcount ▸ (h.thread (hstarted ▸ hs)).trans (Nat.lt_succ_self _)
  · have hs : w.daemon.started = true := by
      by_contra hs
      exact hr (h.started (Bool.not_eq_true _ ▸ hs)).1
    dsimp only
    rw [hother _ (h.thread hs).ne]
    exact h.decided hr
  · by_cases htc : t = w.daemon.opCount
    · dsimp only at ht
      rw [htc, hself] at ht
      obtain hpc | hpc := hpc
      · rw [hpc] at ht
        obtain ht | ht := ht <;> cases ht
      · exact hpc.2
    · exact h.reconnects t (hother t htc ▸ ht)

theorem Inv.step_decides (h : Inv w) {t : ℕ} {s : Step} (he : s.Enabled w.daemon t)
    (ho : outcome (.step t s) ≠ none) : Inv (Event.fire w (.run (.step t s))) := by
  have hrole := role_of_outcome he ho
  obtain ⟨rfl, -⟩ := h.initializes t hrole
  have hs : w.daemon.started = true := by
    by_contra hs
    rw [(h.started (Bool.not_eq_true _ ▸ hs)).2] at hrole
    cases hrole
  have hresult : (Event.fire w (.run (.step w.initThread s))).result ≠ none := by
    obtain ⟨ok, hok⟩ := Option.ne_none_iff_exists'.1 ho
    simp [Event.fire, hok]
  have hop := op_of_outcome (h.thread hs) ho
  obtain ⟨hstarted, hcount⟩ := started_of_outcome (d := w.daemon) ho
  refine
    { initializes := fun u hu => ?_, started := fun hs' => ?_,
      thread := fun _ => (h.thread hs).trans_le hcount, decided := fun _ => hop,
      reconnects := fun _ _ => hresult, state := fun _ => hresult, done := fun _ => hresult }
  · change ((s.fire w.daemon w.initThread).op u).role = .initializes at hu
    by_cases hut : u = w.initThread
    · grind [Pc.role]
    · grind [of_outcome, initializes]
  · have hs'' := hstarted.symm.trans hs'
    rw [hs] at hs''
    cases hs''

theorem Inv.step_other (h : Inv w) {t : ℕ} {s : Step} (he : s.Enabled w.daemon t)
    (ho : outcome (.step t s) = none) : Inv (Event.fire w (.run (.step t s))) := by
  have hs : s ≠ .superseded := by
    rintro rfl
    cases ho
  obtain ⟨pc, hadv⟩ := exists_advances he hs
  have hfire : Event.fire w (.run (.step t s)) = { w with daemon := s.fire w.daemon t } := by
    simp only [Event.fire, ho, Option.none_or]
    rfl
  rw [hfire]
  have hroles : ∀ u, ((s.fire w.daemon t).op u).role = .other ∨
      ((s.fire w.daemon t).op u).role = (w.daemon.op u).role ∨
      (w.daemon.op u).role = .enters ∧ ((s.fire w.daemon t).op u).role = .reconnects := by
    intro u
    by_cases hut : u = t
    · rw [hut, hadv.self]
      exact hadv.follows
    · rw [hadv.other hut]
      exact .inr (.inl rfl)
  refine
    { initializes := fun u hu => ?_, started := fun hs => ?_, thread := fun hs => ?_,
      decided := fun hr => ?_, reconnects := fun u hu => ?_, state := fun hst => ?_,
      done := h.done }
  · obtain hr | hr | ⟨-, hr⟩ := hroles u
    · cases hr.symm.trans hu
    · exact h.initializes u (hr.symm.trans hu)
    · cases hr.symm.trans hu
  · obtain ⟨hresult, hothers⟩ := h.started (hadv.started.symm.trans hs)
    refine ⟨hresult, fun u => ?_⟩
    obtain hr | hr | ⟨hr, -⟩ := hroles u
    · exact hr
    · exact hr.trans (hothers u)
    · cases hr.symm.trans (hothers u)
  · exact hadv.opCount.symm ▸ h.thread (hadv.started.symm.trans hs)
  · dsimp only
    by_cases ht : w.initThread = t
    · subst ht
      exact .inr (op_of_decided he (h.decided hr))
    · rw [hadv.other ht]
      exact h.decided hr
  · obtain hr | hr | ⟨hr, -⟩ := hroles u
    · obtain hu | hu := hu <;> cases hr.symm.trans hu
    · exact h.reconnects u (by rw [← hr]; exact hu)
    · exact h.reconnects u (.inl hr)
  · obtain hsame | hrec | hout | hrole := hadv.state
    · exact h.state (hsame ▸ hst)
    · obtain hst | hst := hst <;> cases hrec.symm.trans hst
    · exact absurd ho hout
    · exact h.reconnects t (.inr hrole)

theorem Inv.start (h : Inv w) (hs : w.daemon.started = false) (hnew : w.daemon.state = .new) :
    Inv { w.addCall .waiting with
      daemon := Lifecycle.Event.fire w.daemon .callInitialize
      initThread := w.daemon.opCount } := by
  obtain ⟨hresult, hroles⟩ := h.started hs
  have hfire : Lifecycle.Event.fire w.daemon .callInitialize
      = { w.daemon with started := true, state := .initializing }.spawn
        (.transport .doInitialize) := by
    simp [Lifecycle.Event.fire, hs, hnew]
  have hother : ∀ u ≠ w.daemon.opCount,
      ((Lifecycle.Event.fire w.daemon .callInitialize).op u).role = .other := by
    intro u hu
    rw [hfire, Daemon.spawn]
    dsimp only
    rw [update_of_ne hu]
    exact hroles u
  have hself : (Lifecycle.Event.fire w.daemon .callInitialize).op w.daemon.opCount
      = .transport .doInitialize := by
    rw [hfire]
    exact update_self ..
  refine
    { initializes := fun u hu => ?_, started := fun hs' => ?_, thread := fun _ => ?_,
      decided := fun hr => absurd hresult hr, reconnects := fun u hu => ?_, state := fun hst => ?_,
      done := h.done }
  · refine ⟨?_, hresult⟩
    by_contra hne
    rw [hother u hne] at hu
    cases hu
  · rw [hfire] at hs'
    cases hs'
  · rw [hfire]
    exact Nat.lt_succ_self _
  · by_cases hne : u = w.daemon.opCount
    · rw [hne, hself] at hu
      obtain hu | hu := hu <;> cases hu
    · rw [hother u hne] at hu
      obtain hu | hu := hu <;> cases hu
  · rw [hfire] at hst
    obtain hst | hst := hst <;> cases hst

theorem Inv.fire (h : Inv w) {e : Event} (he : e.Enabled w) : Inv (e.fire w) := by
  cases e with
  | call =>
    dsimp only [Event.fire]
    by_cases hs : w.daemon.started = true
    · rw [if_pos hs]
      exact { h with }
    · rw [if_neg hs]
      rw [Bool.not_eq_true] at hs
      cases hstate : w.daemon.state with
      | new => exact h.start hs hstate
      | _ => exact { h with }
  | run e =>
    cases e with
    | callInitialize => exact he.2.elim
    | checkDaemon =>
      have hresult : w.result ≠ none := h.state he.1
      exact h.spawn rfl rfl rfl (.inr ⟨rfl, hresult⟩) fun _ => hresult
    | callClose =>
      by_cases hclosed : w.daemon.closed = true
      · simp only [Event.fire, outcome, Option.none_or, Lifecycle.Event.fire, hclosed, if_true]
        exact h
      · simp only [Event.fire, outcome, Option.none_or, Lifecycle.Event.fire, hclosed]
        refine h.spawn rfl rfl rfl (.inl rfl) fun hst => ?_
        obtain hst | hst := hst <;> cases hst
    | step t s =>
      by_cases ho : outcome (.step t s) = none
      · exact h.step_other he.1 ho
      · exact h.step_decides he.1 ho
  | closeDone => exact { h with done := fun _ => he.2.1 }
  | wake k => exact { h with }

theorem Inv.of_reachable (h : joining.Reachable .init w) : Inv w :=
  h.invariant (I := Inv) .init fun _ _ hw he _ => hw.fire he

/-! ### A further call -/

theorem Inv.started_of_decided (h : Inv w) (hr : w.result ≠ none) : w.daemon.started = true := by
  grind [started]

theorem fire_call_of_started (hs : w.daemon.started = true) :
    Event.fire w .call = w.addCall .waiting := if_pos hs

/-- What is known of call `k` once the result is decided. -/
structure Told (k : ℕ) (ok : Bool) (w : State) : Prop where
  inv : Inv w
  result : w.result = some ok
  counted : k < w.callCount
  call : w.calls k = .waiting ∨ w.calls k = .returned ok

theorem Told.fire {k : ℕ} {ok : Bool} (h : Told k ok w) {e : Event} (he : e.Enabled w) :
    Told k ok (e.fire w) := by
  have hinv := h.inv.fire he
  have hdecided : w.result ≠ none := by rw [h.result]; nofun
  cases e with
  | call =>
    rw [fire_call_of_started (h.inv.started_of_decided hdecided)] at hinv ⊢
    refine ⟨hinv, h.result, h.counted.trans (Nat.lt_succ_self _), ?_⟩
    rw [State.addCall]
    grind [call]
  | run e =>
    have hnone : outcome e = none := by
      by_contra ho
      cases e with
      | step t s =>
        have hrole := role_of_outcome he.1 ho
        exact hdecided (h.inv.initializes t hrole).2
      | _ => exact ho rfl
    refine ⟨hinv, ?_, h.counted, h.call⟩
    grind [result, Event.fire]
  | closeDone => exact ⟨hinv, h.result, h.counted, h.call⟩
  | wake j =>
    refine ⟨hinv, h.result, h.counted, ?_⟩
    by_cases hjk : k = j
    · subst hjk
      refine .inr ?_
      simp [Event.fire, h.result]
    · simpa [Event.fire, hjk] using h.call

theorem Told.exists_done {k : ℕ} {ok : Bool} (h : Told k ok w) :
    ∃ w', joining.Reachable w w' ∧ Told k ok w' ∧ w'.daemon.op w'.initThread = .done := by
  obtain hop | hop := h.inv.decided (by rw [h.result]; nofun)
  · have he : joining.enabled w (.run (.step w.initThread .deinitializeRemote)) := ⟨hop, trivial⟩
    exact ⟨_, Machine.Run.refl.step he trivial, h.fire (e := .run _) he, update_self ..⟩
  · exact ⟨w, .refl, h, hop⟩

theorem Told.exists_initDone {k : ℕ} {ok : Bool} (h : Told k ok w) :
    ∃ w', joining.Reachable w w' ∧ Told k ok w' ∧ w'.initDone = true := by
  cases hdone : w.initDone with
  | true => exact ⟨w, .refl, h, hdone⟩
  | false =>
    obtain ⟨w₁, hreach, h₁, hop⟩ := h.exists_done
    cases hdone₁ : w₁.initDone with
    | true => exact ⟨w₁, hreach, h₁, hdone₁⟩
    | false =>
      have he : joining.enabled w₁ .closeDone := ⟨hdone₁, by rw [h₁.result]; nofun, hop⟩
      exact ⟨_, hreach.step he trivial, h₁.fire (e := .closeDone) he, rfl⟩

theorem Told.exists_returned {k : ℕ} {ok : Bool} (h : Told k ok w) :
    ∃ w', joining.Reachable w w' ∧ w'.calls k = .returned ok := by
  obtain ⟨w₁, hreach, h₁, hdone⟩ := h.exists_initDone
  obtain hwaits | hreturned := h₁.call
  · have he : joining.enabled w₁ (.wake k) := ⟨h₁.counted, hwaits, hdone⟩
    refine ⟨_, hreach.step he trivial, ?_⟩
    refine (update_self ..).trans ?_
    simp [h₁.result]
  grind

end Step

/-- **A connected daemon can be joined if and only if it was initialized without an error.**  When
`doInitialize` has failed and `Reconnect` has brought the daemon up, it is connected, and every
further call of `Initialize` returns the old error. -/
theorem joinable_iff {w : State} (h : joining.Reachable .init w)
    (hconnected : w.daemon.state = .connected) : w.Joinable ↔ w.result = some true := by
  have hinv := Inv.of_reachable h
  obtain ⟨ok, hok⟩ := Option.ne_none_iff_exists'.1 (hinv.state (.inr hconnected))
  have hcall := fire_call_of_started (hinv.started_of_decided (by rw [hok]; nofun))
  have htold : Told w.callCount ok (Event.fire w .call) := by
    refine ⟨hinv.fire (e := .call) trivial, ?_, ?_, .inl ?_⟩
    all_goals rw [hcall]
    · exact hok
    · exact Nat.lt_succ_self _
    · exact update_self ..
  obtain ⟨w', hreach, hreturned⟩ := htold.exists_returned
  constructor
  · grind [State.Joinable]
  · intro htrue
    obtain rfl : ok = true := Option.some.inj (hok.symm.trans htrue)
    refine ⟨⟨w', hreach, true, hreturned⟩, fun v hv ok' hok' => ?_⟩
    have hv' : Told w.callCount true v :=
      hv.invariant (I := Told w.callCount true) htold fun _ _ hx he _ => hx.fire he
    obtain hwait | hret := hv'.call
    · cases hwait.symm.trans hok'
    · simp_all

/-- The first call initializes the daemon. -/
theorem joinable_iff_initialized :
    ∃ w, joining.Reachable .init w ∧ w.daemon.state = .connected ∧ w.Joinable := by
  have hexec : ∃ w ∈ joining.exec (fun _ _ => True) .init
      [.call, .run (.step 0 (.initializeRemote .doInitialize true)), .run (.step 0 .afterTransport),
        .run (.step 0 (.lockInstall .doInitialize)),
        .run (.step 0 (.tryConnectExisting .doInitialize true)),
        .run (.step 0 (.keep .doInitialize 0)),
        .run (.step 0 (.setConnectedState .doInitialize 0)), .run (.step 0 .setConnected)],
      w.daemon.state = .connected ∧ w.result = some true := by
    decide +kernel
  obtain ⟨w, hrun, hstate, hresult⟩ := Machine.exists_run_of_exec _ _ hexec
  exact ⟨w, hrun, hstate, (joinable_iff hrun hstate).2 hresult⟩

/-- **A connected daemon that cannot be joined.**  The first initialization fails, the next health
check reconnects the daemon, and a further call of `Initialize` returns the old error. -/
theorem connected_not_joinable :
    ∃ w w', joining.Reachable .init w ∧ w.daemon.state = .connected ∧
      joining.Reachable (Event.fire w .call) w' ∧ w'.daemon.state = .connected ∧
      w'.calls w.callCount = .returned false := by
  have hexec : ∃ w ∈ joining.exec (fun _ _ => True) .init
      [.call, .run (.step 0 (.initializeRemote .doInitialize true)), .run (.step 0 .afterTransport),
        .run (.step 0 (.lockInstall .doInitialize)), .run (.step 0 (.discoverFailed .doInitialize)),
        .run (.step 0 .setFailed), .run (.step 0 .deinitializeRemote), .closeDone, .wake 0,
        .run .checkDaemon, .run (.step 1 .enter), .run (.step 1 .take),
        .run (.step 1 (.closeOld none)), .run (.step 1 .closeTransport),
        .run (.step 1 (.initializeRemote .reconnectOnce true)),
        .run (.step 1 (.lockInstall .reconnectOnce)),
        .run (.step 1 (.tryConnectExisting .reconnectOnce true)),
        .run (.step 1 (.keep .reconnectOnce 0)),
        .run (.step 1 (.setConnectedState .reconnectOnce 0)), .run (.step 1 (.check true))],
      w.daemon.state = .connected ∧
        ∃ w' ∈ joining.exec (fun _ _ => True) (Event.fire w .call) [.wake w.callCount],
          w'.daemon.state = .connected ∧ w'.calls w.callCount = .returned false := by
    decide +kernel
  obtain ⟨w, hrun, hstate, hagain⟩ := Machine.exists_run_of_exec _ _ hexec
  obtain ⟨w', hrun', hstate', hreturned⟩ := Machine.exists_run_of_exec _ _ hagain
  exact ⟨w, w', hrun, hstate, hrun', hstate', hreturned⟩

end Graft.Joining
