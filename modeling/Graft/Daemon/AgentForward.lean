import Graft.Library.Machine
import Graft.Library.Table

/-!
# Agent forwards of a daemon (`pkg/remote_daemon.go`)

A daemon forwards the local SSH agent to the remote, for each connection that asks for it.  The
forward of a connection is registered under the connection's name, with a generation, and runs in a
worker of its own.  When a worker has failed it holds its registration for a while, the longer the
more failures in a row there were.

The generations are natural numbers here, so that they do not wrap around after 2^64 starts.  How
long a worker waits for a number of failures is left out, and so is the relay itself: it returns at
any time, with an error or not.
-/

namespace Graft.Agents

open Function (update update_self update_of_ne)

/-- `agentForwardEntry`; the `cancel` function is given by the worker whose context it cancels. -/
structure Entry where
  worker : ℕ
  gen : ℕ
  deriving DecidableEq

inductive Pc
  /-- in `ForwardSSHAgent` -/
  | running
  /-- it has returned an error that is no cancellation -/
  | failed
  /-- the context was not canceled when it was checked -/
  | counting
  /-- in the wait of `holdAgentForwardBackoff` -/
  | holding (failures : ℕ)
  /-- it has returned without an error, or because it was canceled -/
  | ended
  /-- before `endAgentForwardGen` -/
  | finishing
  /-- before the `cancel` of the entry that `endAgentForwardGen` has deleted -/
  | canceling (worker : ℕ)
  | done
  deriving DecidableEq

structure State where
  closed : Bool
  agentForwards : AList fun _ : String => Entry
  agentForwardGen : ℕ
  agentForwardFailures : AList fun _ : String => ℕ
  /-- the workers: their number, and for each the name and the generation it was started with,
  whether its context is canceled, and where it is -/
  workers : ℕ
  connName : ℕ → String
  gen : ℕ → ℕ
  canceled : ℕ → Bool
  pc : ℕ → Pc
  /-- the `cancel` functions that `endAgentForward` has yet to call -/
  stopping : List ℕ

namespace State

def init : State where
  closed := false
  agentForwards := ∅
  agentForwardGen := 0
  agentForwardFailures := ∅
  workers := 0
  connName _ := ""
  gen _ := 0
  canceled _ := false
  pc _ := .done
  stopping := []

variable (w : State)

/-- The worker that holds the registration of its name. -/
def Registered (i : ℕ) : Prop := w.agentForwards.lookup (w.connName i) = some ⟨i, w.gen i⟩

instance (i : ℕ) : Decidable (w.Registered i) := inferInstanceAs (Decidable (_ = _))

def failures (name : String) : ℕ := (w.agentForwardFailures.lookup name).getD 0

def goto (i : ℕ) (pc : Pc) : State := { w with pc := update w.pc i pc }

def cancelAll : ℕ → Bool := fun i => w.canceled i || w.agentForwards.entries.any (·.2.worker = i)

/-- `tryBeginAgentForward`, and the start of the worker. -/
def startAgentForward (name : String) : State :=
  if w.closed || (w.agentForwards.lookup name).isSome then w
  else
    { w with
      agentForwards := w.agentForwards.insert name ⟨w.workers, w.agentForwardGen + 1⟩
      agentForwardGen := w.agentForwardGen + 1
      workers := w.workers + 1
      connName := update w.connName w.workers name
      gen := update w.gen w.workers (w.agentForwardGen + 1)
      canceled := update w.canceled w.workers false
      pc := update w.pc w.workers .running }

/-- `endAgentForward`, until the lock is released. -/
def stopAgentForward (name : String) : State :=
  { w with
    agentForwards := w.agentForwards.erase name
    agentForwardFailures := w.agentForwardFailures.erase name
    stopping := w.stopping ++ ((w.agentForwards.lookup name).map (·.worker)).toList }

/-- A worker goes on; `fails` is how `ForwardSSHAgent` returns. -/
def step (i : ℕ) (fails : Bool) : State :=
  match w.pc i with
  | .running => w.goto i (if fails then .failed else .ended)
  -- `holdAgentForwardBackoff` checks the context before it takes the lock
  | .failed => w.goto i (if w.canceled i then .finishing else .counting)
  | .counting =>
    { w.goto i (.holding (w.failures (w.connName i) + 1)) with
      agentForwardFailures :=
        w.agentForwardFailures.insert (w.connName i) (w.failures (w.connName i) + 1) }
  | .holding _ => w.goto i .finishing
  -- `resetAgentForwardBackoff`
  | .ended =>
    { w.goto i .finishing with
      agentForwardFailures := w.agentForwardFailures.erase (w.connName i) }
  -- `endAgentForwardGen`
  | .finishing =>
    match w.agentForwards.lookup (w.connName i) with
    | none => w.goto i .done
    | some entry =>
      if entry.gen = w.gen i then
        { w.goto i (.canceling entry.worker) with
          agentForwards := w.agentForwards.erase (w.connName i) }
      else w.goto i .done
  | .canceling j => { w.goto i .done with canceled := update w.canceled j true }
  | .done => w

end State

/-- The calls, the steps of the workers, and what happens to the daemon. -/
inductive Event
  | start (name : String)
  | stop (name : String)
  /-- `endAgentForward` cancels the entry that it has deleted -/
  | cancelStopped (i : ℕ)
  | step (i : ℕ) (fails : Bool)
  /-- `teardownForReconnect` -/
  | teardown
  | close
  /-- the context of the daemon ends -/
  | runDone
  deriving DecidableEq

namespace Event

def Enabled (w : State) : Event → Prop
  | cancelStopped i => i ∈ w.stopping
  | step i _ => i < w.workers ∧ w.pc i ≠ .done
  | start _ | stop _ | teardown | close | runDone => True

instance (w : State) (e : Event) : Decidable (e.Enabled w) := by
  cases e <;> dsimp only [Enabled] <;> infer_instance

def fire (w : State) : Event → State
  | start name => w.startAgentForward name
  | stop name => w.stopAgentForward name
  | cancelStopped i =>
    { w with stopping := w.stopping.erase i, canceled := update w.canceled i true }
  | step i fails => w.step i fails
  | teardown =>
    { w with canceled := w.cancelAll, agentForwards := ∅, agentForwardFailures := ∅ }
  | close => if w.closed then w else { w with closed := true, canceled := w.cancelAll }
  | runDone => { w with canceled := fun _ => true }

end Event

def agents : Machine State Event := ⟨Event.Enabled, Event.fire⟩

instance (w : State) (e : Event) : Decidable (agents.enabled w e) :=
  inferInstanceAs (Decidable (e.Enabled w))

/-! ### What a worker does -/

/-- The steps of worker `i`: those that count a failure, that reset the count, that delete the
registration, that cancel, and the others. -/
inductive Steps (w : State) (i : ℕ) : State → Prop
  | count : w.pc i = .counting →
    Steps w i { w.goto i (.holding (w.failures (w.connName i) + 1)) with
      agentForwardFailures :=
        w.agentForwardFailures.insert (w.connName i) (w.failures (w.connName i) + 1) }
  | reset : w.pc i = .ended →
    Steps w i { w.goto i .finishing with
      agentForwardFailures := w.agentForwardFailures.erase (w.connName i) }
  | release {entry : Entry} : w.pc i = .finishing →
    w.agentForwards.lookup (w.connName i) = some entry → entry.gen = w.gen i →
    Steps w i { w.goto i (.canceling entry.worker) with
      agentForwards := w.agentForwards.erase (w.connName i) }
  | cancel {j : ℕ} : w.pc i = .canceling j →
    Steps w i { w.goto i .done with canceled := update w.canceled j true }
  | other {pc : Pc} : w.pc i ≠ .counting → w.pc i ≠ .ended → (∀ n, pc ≠ .holding n) →
    (∀ j, pc ≠ .canceling j) → Steps w i (w.goto i pc)

theorem steps (w : State) (i : ℕ) (fails : Bool) : Steps w i (w.step i fails) := by
  unfold State.step
  split
  next h =>
    refine .other (by simp [h]) (by simp [h]) ?_ ?_
    · cases fails <;> simp
    · cases fails <;> simp
  next h =>
    refine .other (by simp [h]) (by simp [h]) ?_ ?_
    · cases w.canceled i <;> simp
    · cases w.canceled i <;> simp
  next h => exact .count h
  next h => exact .other (by simp [h]) (by simp [h]) (by simp) (by simp)
  next h => exact .reset h
  next h =>
    split
    next => exact .other (by simp [h]) (by simp [h]) (by simp) (by simp)
    next entry hentry =>
      split_ifs with hgen
      · exact .release h hentry hgen
      · exact .other (by simp [h]) (by simp [h]) (by simp) (by simp)
  next j h => exact .cancel h
  next h =>
    have hgoto : w.goto i .done = w := by
      rw [State.goto, ← h, Function.update_eq_self]
    have hother : Steps w i (w.goto i .done) :=
      .other (by simp [h]) (by simp [h]) (by simp) (by simp)
    rwa [hgoto] at hother

/-! ### The registrations -/

/-- The generation of a worker is its number, counted from 1, and a registration is that of the
worker it names. -/
structure Inv (w : State) : Prop where
  next : w.agentForwardGen = w.workers
  gen : ∀ i < w.workers, w.gen i = i + 1
  entry : ∀ name e, w.agentForwards.lookup name = some e →
    e.worker < w.workers ∧ w.connName e.worker = name ∧ w.gen e.worker = e.gen
  canceling : ∀ i j, w.pc i = .canceling j → j = i

namespace Inv

variable {w : State} (h : Inv w)
include h

/-- The worker that is registered with the generation of worker `i` is worker `i`. -/
theorem worker_eq {name : String} {e : Entry} (he : w.agentForwards.lookup name = some e) {i : ℕ}
    (hi : i < w.workers) (hgen : e.gen = w.gen i) : e.worker = i := by
  obtain ⟨hlt, -, heq⟩ := h.entry name e he
  rw [← heq, h.gen _ hlt, h.gen _ hi] at hgen
  omega

/-- Registrations are deleted, and no worker is about to cancel another one. -/
theorem shrink {w' : State} (hgen : w'.agentForwardGen = w.agentForwardGen)
    (hworkers : w'.workers = w.workers) (hname : w'.connName = w.connName) (hgens : w'.gen = w.gen)
    (hentry : ∀ name e, w'.agentForwards.lookup name = some e →
      w.agentForwards.lookup name = some e)
    (hpc : ∀ i j, w'.pc i = .canceling j → j = i) : Inv w' where
  next := by rw [hgen, hworkers, h.next]
  gen i hi := by
    rw [hworkers] at hi
    rw [hgens, h.gen i hi]
  entry name e he := by
    rw [hworkers, hname, hgens]
    exact h.entry name e (hentry name e he)
  canceling := hpc

theorem start (name : String) : Inv (w.startAgentForward name) := by
  unfold State.startAgentForward
  split_ifs
  · exact h
  refine ⟨by simp [h.next], fun i hi => ?_, fun name' e he => ?_, fun i j hpc => ?_⟩
  · dsimp only at hi ⊢
    by_cases hne : i = w.workers
    · rw [hne, update_self, h.next]
    · rw [update_of_ne hne, h.gen i (by omega)]
  · dsimp only
    rcases lookup_insert_cases he with ⟨rfl, rfl⟩ | ⟨-, hold⟩
    · simp
    · obtain ⟨hlt, hname, hgen⟩ := h.entry name' e hold
      rw [update_of_ne hlt.ne, update_of_ne hlt.ne]
      exact ⟨by omega, hname, hgen⟩
  · dsimp only at hpc
    by_cases hne : i = w.workers
    · rw [hne, update_self] at hpc
      cases hpc
    · rw [update_of_ne hne] at hpc
      exact h.canceling i j hpc

theorem canceling_goto {i : ℕ} {pc : Pc} (hpc : ∀ j, pc = .canceling j → j = i) (i' j : ℕ)
    (h' : (w.goto i pc).pc i' = .canceling j) : j = i' := by
  by_cases hne : i' = i
  · simp_all [State.goto]
  · exact h.canceling i' j ((update_of_ne hne ..).symm.trans h')

theorem step {i : ℕ} (hi : i < w.workers) {w' : State} (hstep : Steps w i w') : Inv w' := by
  cases hstep with
  | count hpc =>
    exact h.shrink rfl rfl rfl rfl (fun _ _ he => he) (h.canceling_goto nofun)
  | reset hpc => exact h.shrink rfl rfl rfl rfl (fun _ _ he => he) (h.canceling_goto nofun)
  | release hpc hentry hgen =>
    refine h.shrink rfl rfl rfl rfl (fun _ _ he => (lookup_of_erase he).2)
      (h.canceling_goto fun j hj => ?_)
    cases hj
    exact h.worker_eq hentry hi hgen
  | cancel hpc => exact h.shrink rfl rfl rfl rfl (fun _ _ he => he) (h.canceling_goto nofun)
  | other _ _ _ hcancel =>
    exact h.shrink rfl rfl rfl rfl (fun _ _ he => he)
      (h.canceling_goto fun j hj => absurd hj (hcancel j))

theorem fire {e : Event} (he : e.Enabled w) : Inv (e.fire w) := by
  cases e with
  | start name => exact h.start name
  | stop name => exact h.shrink rfl rfl rfl rfl (fun _ _ he => (lookup_of_erase he).2) h.canceling
  | cancelStopped i => exact h.shrink rfl rfl rfl rfl (fun _ _ he => he) h.canceling
  | step i fails => exact h.step he.1 (steps w i fails)
  | teardown => exact h.shrink rfl rfl rfl rfl nofun h.canceling
  | close =>
    dsimp only [Event.fire]
    split_ifs
    · exact h
    · exact h.shrink rfl rfl rfl rfl (fun _ _ he => he) h.canceling
  | runDone => exact h.shrink rfl rfl rfl rfl (fun _ _ he => he) h.canceling

end Inv

theorem Inv.init : Inv .init := ⟨rfl, nofun, nofun, nofun⟩

theorem inv_of_reachable {w : State} (h : agents.Reachable .init w) : Inv w :=
  h.invariant .init fun _ _ h he _ => h.fire he

/-- A worker takes away and cancels what it has registered, and nothing else. -/
theorem Inv.owned {w w' : State} (h : Inv w) {i : ℕ} (hi : i < w.workers) (hstep : Steps w i w') :
    (∀ name, w'.agentForwards.lookup name = w.agentForwards.lookup name ∨
      name = w.connName i ∧ w.Registered i ∧ w'.agentForwards.lookup name = none) ∧
    ∀ j ≠ i, w'.canceled j = w.canceled j := by
  cases hstep with
  | count | reset | other => exact ⟨fun _ => .inl rfl, fun _ _ => rfl⟩
  | release hpc hentry hgen =>
    refine ⟨fun name => ?_, fun _ _ => rfl⟩
    by_cases hname : name = w.connName i
    · refine .inr ⟨hname, ?_, ?_⟩
      · rw [State.Registered, hentry, ← hgen, ← h.worker_eq hentry hi hgen]
      grind [AList.lookup_erase]
    · exact .inl (AList.lookup_erase_ne hname)
  | cancel hpc =>
    grind [canceling, State.goto]

/-- **Registrations are owned.**  In every reachable state a registration is that of a worker that
was started for its name, one for each name; workers that were started later have greater
generations; and a step of a worker takes away the registration it has made, or none, and cancels no
other worker. -/
theorem slots_owned {w : State} (h : agents.Reachable .init w) :
    (∀ name e, w.agentForwards.lookup name = some e →
      e.worker < w.workers ∧ w.connName e.worker = name ∧ w.Registered e.worker) ∧
    (∀ i j, w.Registered i → w.Registered j → w.connName i = w.connName j → i = j) ∧
    (∀ i j, i < j → j < w.workers → w.gen i < w.gen j) ∧
    ∀ i fails, agents.enabled w (.step i fails) →
      (∀ name, (w.step i fails).agentForwards.lookup name = w.agentForwards.lookup name ∨
        name = w.connName i ∧ w.Registered i ∧
          (w.step i fails).agentForwards.lookup name = none) ∧
      ∀ j ≠ i, (w.step i fails).canceled j = w.canceled j := by
  have hinv := inv_of_reachable h
  refine ⟨fun name e he => ?_, fun i j hi hj hname => ?_, fun i j hij hj => ?_,
    fun i fails he => hinv.owned he.1 (steps w i fails)⟩
  · obtain ⟨hlt, hname, hgen⟩ := hinv.entry name e he
    refine ⟨hlt, hname, ?_⟩
    rw [State.Registered, hname, hgen]
    exact he
  · grind [State.Registered]
  · grind [Inv.gen]

/-- A worker whose forward was stopped is still running when the next one is registered. -/
def restart : List Event := [.start "c", .stop "c", .cancelStopped 0, .start "c"]

/-- The theorem where the first of two workers has finished: the second stays registered. -/
theorem slots_owned_restarted : ∃ w, agents.Reachable .init w ∧ w.pc 0 = .done ∧
    w.Registered 1 ∧ w.canceled 1 = false ∧ w.gen 0 < w.gen 1 := by
  have hexec : ∃ w ∈ agents.exec (fun _ _ => True) .init
      (restart ++ [.step 0 false, .step 0 false, .step 0 false]),
      w.pc 0 = .done ∧ w.Registered 1 ∧ w.canceled 1 = false ∧ 1 < w.workers := by
    decide +kernel
  obtain ⟨w, hrun, hdone, hregistered, hcanceled, hlt⟩ := Machine.exists_run_of_exec _ _ hexec
  obtain ⟨-, -, hgen, -⟩ := slots_owned hrun
  exact ⟨w, hrun, hdone, hregistered, hcanceled, hgen 0 1 (by omega) hlt⟩

end Graft.Agents
