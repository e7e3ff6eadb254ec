import Graft.Daemon.AgentForward

/-!
# The failures of agent forwards

The failures in a row are counted by the name of the connection.  An explicit stop clears the count,
and so does a worker that ends without a failure.  A worker that was stopped in the meantime does
not know it when it counts or clears: it has checked its context before, or does not check at all.
-/

namespace Graft.Agents

open Function (update update_self update_of_ne)

inductive Outcome
  | failed
  | ended
  | stopped
  deriving DecidableEq

/-- The log of each name, from the last entry to the first. -/
abbrev Log := String → List Outcome

def consecutive (l : List Outcome) : ℕ := (l.takeWhile (· = .failed)).length

@[simp] theorem consecutive_failed (l : List Outcome) :
    consecutive (.failed :: l) = consecutive l + 1 := by
  simp [consecutive]

@[simp] theorem consecutive_ended (l : List Outcome) : consecutive (.ended :: l) = 0 := rfl

@[simp] theorem consecutive_stopped (l : List Outcome) : consecutive (.stopped :: l) = 0 := rfl

/-- Stops are logged, and what becomes of a worker that is still registered. -/
def enter (w : State) (e : Event) (log : Log) : Log :=
  match e with
  | .stop name => update log name (.stopped :: log name)
  | .teardown => fun name => .stopped :: log name
  | .step i _ =>
    if w.Registered i then
      match w.pc i with
      | .counting => update log (w.connName i) (.failed :: log (w.connName i))
      | .ended => update log (w.connName i) (.ended :: log (w.connName i))
      | _ => log
    else log
  | _ => log

def counted : Machine (State × Log) Event := agents.record enter

/-- A worker counts while it is registered, and clears while it is or when nothing is counted. -/
def Prompt (w : State) : Event → Prop
  | .step i _ =>
    (w.pc i = .counting → w.Registered i) ∧
      (w.pc i = .ended → w.Registered i ∨ w.failures (w.connName i) = 0)
  | _ => True

instance (w : State) (e : Event) : Decidable (Prompt w e) := by
  apply Event.casesOn (motive := fun e => Decidable (Prompt w e)) e <;> intros <;>
    dsimp only [Prompt] <;> infer_instance

/-! ### The invariant -/

/-- The count is that of the log, and a worker that holds its registration holds it for that
count. -/
structure Tally (w : State) (log : Log) : Prop where
  count : ∀ name, w.failures name = consecutive (log name)
  holding : ∀ i n, w.pc i = .holding n → w.Registered i → n = w.failures (w.connName i)

theorem enter_of_ne {w : State} {i : ℕ} (fails : Bool) (log : Log) (hcount : w.pc i ≠ .counting)
    (hended : w.pc i ≠ .ended) : enter w (.step i fails) log = log := by
  dsimp only [enter]
  split_ifs
  · split
    next h => exact absurd h hcount
    next h => exact absurd h hended
    next => rfl
  · rfl

theorem Registered.eq {w : State} {i j : ℕ} (hi : w.Registered i) (hj : w.Registered j)
    (hname : w.connName i = w.connName j) : i = j := by
  grind [State.Registered]

theorem holding_goto {w : State} {i : ℕ} {pc : Pc} (hpc : ∀ n, pc ≠ .holding n) {i' n : ℕ}
    (h' : (w.goto i pc).pc i' = .holding n) : w.pc i' = .holding n ∧ i' ≠ i := by
  by_cases hne : i' = i
  · simp_all [State.goto]
  · exact ⟨(update_of_ne hne ..).symm.trans h', hne⟩

section Failures

variable {w w' : State} {name : String} {n : ℕ}

theorem failures_insert (h : w'.agentForwardFailures = w.agentForwardFailures.insert name n)
    (name' : String) : w'.failures name' = if name' = name then n else w.failures name' := by
  grind [AList.lookup_insert, AList.lookup_insert_ne, State.failures]

theorem failures_erase (h : w'.agentForwardFailures = w.agentForwardFailures.erase name)
    (name' : String) : w'.failures name' = if name' = name then 0 else w.failures name' := by
  grind [AList.lookup_erase, AList.lookup_erase_ne, State.failures]

end Failures

namespace Tally

variable {w : State} {log : Log} (h : Tally w log)
include h

theorem keep {w' : State} (hfailures : w'.agentForwardFailures = w.agentForwardFailures)
    (hholding : ∀ i n, w'.pc i = .holding n → w'.Registered i →
      w.pc i = .holding n ∧ w.Registered i ∧ w'.connName i = w.connName i) : Tally w' log where
  count name := by
    rw [State.failures, hfailures]
    exact h.count name
  holding i n hpc hi := by
    grind [State.failures, holding]

theorem start (name : String) : Tally (w.startAgentForward name) log := by
  unfold State.startAgentForward
  split_ifs
  · exact h
  refine h.keep rfl fun i n hpc hi => ?_
  dsimp only [State.Registered] at hpc hi ⊢
  have hne : i ≠ w.workers := by
    grind
  rw [update_of_ne hne] at hpc
  rw [update_of_ne hne, update_of_ne hne] at hi
  rw [update_of_ne hne]
  rcases lookup_insert_cases hi with ⟨-, heq⟩ | ⟨-, hold⟩
  · exact absurd (congrArg Entry.worker heq) hne
  · exact ⟨hpc, hold, rfl⟩

theorem stop (name : String) :
    Tally (w.stopAgentForward name) (update log name (.stopped :: log name)) where
  count name' := by
    rw [failures_erase rfl name']
    grind [consecutive_stopped, count]
  holding i n hpc hi := by
    obtain ⟨hname, hold⟩ := lookup_of_erase hi
    rw [failures_erase rfl, if_neg hname]
    exact h.holding i n hpc hold

theorem count_step {i : ℕ} (fails : Bool) (hpc : w.pc i = .counting) (hi : w.Registered i) :
    Tally { w.goto i (.holding (w.failures (w.connName i) + 1)) with
      agentForwardFailures := w.agentForwardFailures.insert (w.connName i)
        (w.failures (w.connName i) + 1) } (enter w (.step i fails) log) := by
  have hlog : enter w (.step i fails) log =
      update log (w.connName i) (.failed :: log (w.connName i)) := by
    dsimp only [enter]
    rw [if_pos hi, hpc]
  rw [hlog]
  constructor
  · intro name
    rw [failures_insert rfl name]
    split_ifs with hname
    · rw [hname, update_self, consecutive_failed, h.count]
    · rw [update_of_ne hname]
      exact h.count name
  · intro i' n hpc' hi'
    rw [failures_insert rfl]
    by_cases hne : i' = i
    · subst hne
      cases (update_self ..).symm.trans hpc'
      exact (if_pos rfl).symm
    · have hold := h.holding i' n ((update_of_ne hne ..).symm.trans hpc') hi'
      exact hold.trans (if_neg fun hname => hne (Registered.eq (w := w) hi' hi hname)).symm

/-- A worker clears the count while it is registered, or when there is nothing to clear. -/
theorem reset_step {i : ℕ} (fails : Bool) (hpc : w.pc i = .ended)
    (hi : w.Registered i ∨ w.failures (w.connName i) = 0) :
    Tally { w.goto i .finishing with
      agentForwardFailures := w.agentForwardFailures.erase (w.connName i) }
      (enter w (.step i fails) log) := by
  constructor
  · intro name
    rw [failures_erase rfl name]
    by_cases hreg : w.Registered i
    · have hlog : enter w (.step i fails) log =
          update log (w.connName i) (.ended :: log (w.connName i)) := by
        dsimp only [enter]
        rw [if_pos hreg, hpc]
      rw [hlog]
      split_ifs with hname
      · rw [hname, update_self, consecutive_ended]
      · rw [update_of_ne hname]
        exact h.count name
    · have hlog : enter w (.step i fails) log = log := if_neg hreg
      rw [hlog, ← h.count name]
      split_ifs with hname
      · rw [hname, hi.resolve_left hreg]
      · rfl
  · intro i' n hpc' hi'
    obtain ⟨hpc', hne⟩ := holding_goto (by simp) hpc'
    have hold := h.holding i' n hpc' hi'
    rw [failures_erase rfl]
    split_ifs with hname
    · have hname : w.connName i' = w.connName i := hname
      rcases hi with hi | hi
      · exact absurd (Registered.eq (w := w) hi' hi hname) hne
      · rw [hold, hname, hi]
    · exact hold

theorem step {i : ℕ} (fails : Bool) (hok : Prompt w (.step i fails)) :
    Tally (w.step i fails) (enter w (.step i fails) log) := by
  generalize hw' : w.step i fails = w'
  have hstep : Steps w i w' := hw' ▸ steps w i fails
  cases hstep with
  | count hpc => exact h.count_step fails hpc (hok.1 hpc)
  | reset hpc => exact h.reset_step fails hpc (hok.2 hpc)
  | release hpc hentry hgen =>
    rw [enter_of_ne fails log (by simp [hpc]) (by simp [hpc])]
    refine h.keep rfl fun i' n hpc' hi' => ⟨(holding_goto (by simp) hpc').1, ?_, rfl⟩
    exact (lookup_of_erase hi').2
  | cancel hpc =>
    rw [enter_of_ne fails log (by simp [hpc]) (by simp [hpc])]
    exact h.keep rfl fun i' n hpc' hi' => ⟨(holding_goto (by simp) hpc').1, hi', rfl⟩
  | other hcount hended hholding _ =>
    rw [enter_of_ne fails log hcount hended]
    exact h.keep rfl fun i' n hpc' hi' => ⟨(holding_goto hholding hpc').1, hi', rfl⟩

theorem fire {e : Event} (hok : Prompt w e) : Tally (e.fire w) (enter w e log) := by
  cases e with
  | start name => exact h.start name
  | stop name => exact h.stop name
  | step i fails => exact h.step fails hok
  | teardown => exact ⟨fun _ => rfl, nofun⟩
  | close =>
    dsimp only [Event.fire, enter]
    split_ifs
    · exact h
    · exact h.keep rfl fun _ _ hpc hi => ⟨hpc, hi, rfl⟩
  | cancelStopped i => exact h.keep rfl fun _ _ hpc hi => ⟨hpc, hi, rfl⟩
  | runDone => exact h.keep rfl fun _ _ hpc hi => ⟨hpc, hi, rfl⟩

end Tally

theorem Tally.init : Tally .init fun _ => [] where
  count _ := rfl
  holding _ _ hpc := nomatch hpc

/-! ### The result -/

/-- **The count is the number of failures in a row** since the last stop of the name, or the last
clean end of a forward that was registered; a worker holds its registration for that number; and a
worker that is not registered changes no count.  All of it in runs whose steps meet the
condition. -/
theorem failures_counted {w : State} {log : Log}
    (h : counted.Run (fun s e => Prompt s.1 e) (.init, fun _ => []) (w, log)) :
    (∀ name, w.failures name = consecutive (log name)) ∧
    (∀ i n, w.pc i = .holding n → w.Registered i → n = consecutive (log (w.connName i))) ∧
    ∀ i fails, Prompt w (.step i fails) → ¬ w.Registered i →
      ∀ name, (w.step i fails).failures name = w.failures name := by
  have htally : Tally w log := by
    refine h.invariant (I := fun s => Tally s.1 s.2) .init fun s e hs _ hok => ?_
    exact hs.fire hok
  refine ⟨htally.count, fun i n hpc hi => ?_, fun i fails hok hi name => ?_⟩
  · grind [Tally.count, Tally.holding]
  · rw [(htally.step fails hok).count, htally.count]
    exact congrArg (fun log : Log => consecutive (log name)) (if_neg hi)

instance (s : State × Log) (e : Event) : Decidable (counted.enabled s e) :=
  inferInstanceAs (Decidable (e.Enabled s.1))

def failOnce (i : ℕ) : List Event := [.start "c", .step i true, .step i false, .step i false]

/-- The theorem where two forwards have failed, one after the other. -/
theorem failures_counted_twice : ∃ w log,
    counted.Run (fun s e => Prompt s.1 e) (.init, fun _ => []) (w, log) ∧
    log "c" = [.failed, .failed] ∧ w.failures "c" = 2 ∧ w.pc 1 = .holding 2 := by
  have hexec : ∃ s ∈ counted.exec (fun s e => Prompt s.1 e) (.init, fun _ => [])
      (failOnce 0 ++ [.step 0 false, .step 0 false, .step 0 false] ++ failOnce 1),
      s.2 "c" = [.failed, .failed] ∧ s.1.pc 1 = .holding 2 := by
    decide +kernel
  obtain ⟨⟨w, log⟩, hrun, hlog, hpc⟩ := Machine.exists_run_of_exec _ _ hexec
  refine ⟨w, log, hrun, hlog, ?_, hpc⟩
  rw [(failures_counted hrun).1 "c", show log "c" = _ from hlog]
  rfl

/-- A forward fails, and is stopped after its worker has checked its context; the worker counts the
failure behind the stop.  And a worker whose forward was stopped clears the failure of the next
one. -/
theorem late_worker_counts :
    (∃ s, counted.Reachable (.init, fun _ => []) s ∧ ¬ s.1.Registered 0 ∧
      s.2 "c" = [.stopped] ∧ s.1.failures "c" = 1) ∧
    ∃ s, counted.Reachable (.init, fun _ => []) s ∧ ¬ s.1.Registered 0 ∧ s.1.pc 1 = .holding 1 ∧
      s.1.Registered 1 ∧ s.2 "c" = [.failed, .stopped] ∧ s.1.failures "c" = 0 := by
  have hlate : ∃ s ∈ counted.exec (fun _ _ => True) (.init, fun _ => [])
      [.start "c", .step 0 true, .step 0 false, .stop "c", .step 0 false],
      ¬ s.1.Registered 0 ∧ s.2 "c" = [.stopped] ∧ s.1.failures "c" = 1 := by
    decide +kernel
  have hcleared : ∃ s ∈ counted.exec (fun _ _ => True) (.init, fun _ => [])
      (restart ++ [.step 1 true, .step 1 false, .step 1 false, .step 0 false, .step 0 false]),
      ¬ s.1.Registered 0 ∧ s.1.pc 1 = .holding 1 ∧ s.1.Registered 1 ∧
        s.2 "c" = [.failed, .stopped] ∧ s.1.failures "c" = 0 := by
    decide +kernel
  exact ⟨Machine.exists_run_of_exec _ _ hlate, Machine.exists_run_of_exec _ _ hcleared⟩

end Graft.Agents
