import Graft.Library.Machine

/-!
# The update lock (`pkg/update.go`)

`AcquireUpdateLock` opens or creates a file and locks it, and `UpdateLock.Close` closes the file,
which unlocks it, and then removes the path.  A process that has opened the file before it is
removed can lock it, while the path is free for another one: `update_lock_shared`.
-/

namespace Graft.UpdateLock

open Function (update)

/-- Where a process is; a file is known by its number. -/
inductive Pc
  | idle
  /-- in `AcquireUpdateLock`, before `Flock` -/
  | opened (file : ℕ)
  | holding (file : ℕ)
  /-- in `Close`, before the path is removed -/
  | closed
  deriving DecidableEq

/-- The file that was opened and not locked. -/
def Pc.opens : Pc → Option ℕ
  | opened file => some file
  | _ => none

def Pc.isOpened : Pc → Bool
  | opened _ => true
  | _ => false

def Pc.isHolding : Pc → Bool
  | holding _ => true
  | _ => false

structure State where
  /-- the file that the path names -/
  path : Option ℕ
  files : ℕ
  /-- who has locked a file -/
  lock : ℕ → Option ℕ
  pc : ℕ → Pc

def State.init : State := ⟨none, 0, fun _ => none, fun _ => .idle⟩

inductive Event
  | open (p : ℕ)
  | tryLock (p : ℕ)
  | close (p : ℕ)
  | remove (p : ℕ)

namespace Event

def Enabled (s : State) : Event → Prop
  | .open p => s.pc p = .idle
  | .tryLock p => (s.pc p).isOpened
  | .close p => (s.pc p).isHolding
  | .remove p => s.pc p = .closed

instance (s : State) (e : Event) : Decidable (e.Enabled s) := by
  cases e <;> dsimp only [Enabled] <;> infer_instance

def fire (s : State) : Event → State
  | .open p =>
    match s.path with
    | some file => { s with pc := update s.pc p (.opened file) }
    | none =>
      { s with path := some s.files, files := s.files + 1, pc := update s.pc p (.opened s.files) }
  | .tryLock p =>
    match s.pc p with
    | .opened file =>
      if s.lock file = none then
        { s with lock := update s.lock file (some p), pc := update s.pc p (.holding file) }
      -- another update is in progress: the file is closed
      else { s with pc := update s.pc p .idle }
    | _ => s
  | .close p =>
    match s.pc p with
    | .holding file => { s with lock := update s.lock file none, pc := update s.pc p .closed }
    | _ => s
  | .remove p => { s with path := none, pc := update s.pc p .idle }

end Event

def processes : Machine State Event where
  enabled := fun s e => e.Enabled s
  fire := Event.fire

instance (s : State) (e : Event) : Decidable (processes.enabled s e) :=
  inferInstanceAs (Decidable (e.Enabled s))

/-- At most one process is between a successful acquire and the start of its close. -/
def Exclusive (s : State) : Prop :=
  ∀ p q i j, s.pc p = .holding i → s.pc q = .holding j → p = q

/-- A file is locked only while the path names it, and the path is removed only while the file is
not locked. -/
def Named (s : State) : Event → Prop
  | .tryLock p => ∀ file ∈ (s.pc p).opens, s.path = some file
  | .remove _ => ∀ file ∈ s.path, s.lock file = none
  | _ => True

instance (s : State) (e : Event) : Decidable (Named s e) := by
  cases e <;> dsimp only [Named] <;> infer_instance

/-- Who holds the lock has locked the file that the path names. -/
structure Inv (s : State) : Prop where
  named : ∀ p i, s.pc p = .holding i → s.path = some i ∧ s.lock i = some p

theorem Inv.init : Inv .init := ⟨nofun⟩

theorem Inv.exclusive {s : State} (h : Inv s) : Exclusive s := by
  intro p q i j hp hq
  obtain ⟨hpath, hlock⟩ := h.named p i hp
  obtain ⟨hpath', hlock'⟩ := h.named q j hq
  cases hpath.symm.trans hpath'
  exact Option.some.inj (hlock.symm.trans hlock')

theorem Inv.fire {s : State} (h : Inv s) {e : Event} (he : e.Enabled s) (hok : Named s e) :
    Inv (e.fire s) := by
  cases e with
  | «open» p =>
    -- a new file is created only while the path is free, so nobody holds the lock
    have hnone : s.path = none → ∀ q i, s.pc q ≠ .holding i := by
      intro hpath q i hq
      cases hpath.symm.trans (h.named q i hq).1
    cases hpath : s.path with
    | none =>
      simp only [Event.fire, hpath]
      refine ⟨fun q i hq => ?_⟩
      grind
    | some file =>
      simp only [Event.fire, hpath]
      refine ⟨fun q i hq => ?_⟩
      grind [h.named q i]
  | tryLock p =>
    cases hpc : s.pc p with
    | opened file =>
      have hpath : s.path = some file := hok file (by simp [hpc, Pc.opens])
      simp only [Event.fire, hpc]
      split_ifs with hlock
      · refine ⟨fun q i hq => ?_⟩
        grind [h.named q i]
      · refine ⟨fun q i hq => ?_⟩
        grind [h.named q i]
    | _ => simp [Event.Enabled, hpc, Pc.isOpened] at he
  | close p =>
    cases hpc : s.pc p with
    | holding file =>
      have hlock := (h.named p file hpc).2
      simp only [Event.fire, hpc]
      refine ⟨fun q i hq => ?_⟩
      grind [h.named q i]
    | _ => simp [Event.Enabled, hpc, Pc.isHolding] at he
  | remove p =>
    refine ⟨fun q i hq => ?_⟩
    have hold : s.pc q = .holding i := by
      simp only [Event.fire] at hq
      grind
    obtain ⟨hpath, hlock⟩ := h.named q i hold
    cases hlock.symm.trans (hok i hpath)

/-- **The lock is exclusive** in every run in which a file is locked only while the path names it,
and the path is removed only while the file is not locked. -/
theorem update_lock_exclusive {s : State} (h : processes.Run Named .init s) : Exclusive s :=
  (h.invariant Inv.init fun _ _ hs he hok => hs.fire he hok).exclusive

/-- One process after the other. -/
theorem update_lock_exclusive_twice : ∃ s, processes.Run Named .init s ∧
    s.pc 1 = .holding 1 ∧ Exclusive s := by
  have hexec : ∃ s ∈ processes.exec Named .init [.open 0, .tryLock 0, .open 1, .tryLock 1,
      .close 0, .remove 0, .open 1, .tryLock 1], s.pc 1 = .holding 1 := by decide +kernel
  obtain ⟨s, hs, hpc⟩ := Machine.exists_run_of_exec _ _ hexec
  exact ⟨s, hs, hpc, update_lock_exclusive hs⟩

/-- A process opens the file, the path is removed, and the process locks the file while another one
has locked the file that is at the path now. -/
theorem update_lock_shared : ∃ s, Machine.Reachable processes .init s ∧
    s.pc 1 = .holding 0 ∧ s.pc 2 = .holding 1 := by
  have hexec : ∃ s ∈ processes.exec (fun _ _ => True) .init [.open 0, .tryLock 0, .open 1,
      .close 0, .remove 0, .open 2, .tryLock 2, .tryLock 1],
      s.pc 1 = .holding 0 ∧ s.pc 2 = .holding 1 := by decide +kernel
  exact Machine.exists_run_of_exec _ _ hexec

end Graft.UpdateLock
