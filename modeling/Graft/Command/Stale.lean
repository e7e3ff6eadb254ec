import Graft.Library.Machine
import Graft.Library.Processes

/-!
# Commands of an earlier daemon (`pkg/command_registry.go`)

The registry keeps a file with the process numbers of its commands, each of which leads a group.  A
daemon that starts reads the file that was left, and terminates the groups that are still there;
what survives is killed after a grace period.  It looks at a group before it signals: its leader, if
there is one, has to look like the command (it has the mark that all commands have in their
environment, or it was started when the command was), and otherwise the group must have a member.
-/

namespace Graft.Stale

open Function (update update_self update_of_ne)
open Graft.Processes

/-! ### Entries -/

/-- `runtime.GOOS`. -/
inductive Platform
  | linux
  | darwin
  | other
  deriving DecidableEq

/-- An entry of the state file.  `proc` is the process that it was written for. -/
structure Entry where
  pid : ℕ
  startedAtUnix : ℤ
  proc : ℕ
  deriving DecidableEq

def processLooksGraftSpawned (os : Platform) (p : Process) (startedAtUnix : ℤ) : Bool :=
  match os with
  -- the environment of a process that has ended is empty
  | .linux => !p.zombie && p.marked
  | .darwin => startedAtUnix ≠ 0 && |p.started - startedAtUnix| ≤ 2
  | .other => false

inductive Stage
  /-- in `escalateStaleKill`, before the group is probed -/
  | grace
  /-- before `Getpgid` -/
  | leader
  /-- the process leads its group; before it is looked at -/
  | look
  /-- there is no such process; before the group is probed -/
  | group
  /-- before the group is signalled -/
  | signal
  | done
  deriving DecidableEq

/-- An entry that is looked at, by `ReconcileStale` or by `escalateStaleKill`. -/
structure Job where
  entry : Entry
  kill : Bool
  stage : Stage
  deriving DecidableEq

def Job.next (os : Platform) (t : Table) (job : Job) : Stage :=
  match job.stage with
  | .grace => if t.HasGroup job.entry.pid then .leader else .done
  | .leader =>
    match t.holder job.entry.pid with
    | some i => if (t.procs i).pgid = job.entry.pid then .look else .done
    -- `escalateStaleKill` has probed the group already
    | none => if job.kill then .signal else .group
  | .look =>
    match t.holder job.entry.pid with
    | some i =>
      if processLooksGraftSpawned os (t.procs i) job.entry.startedAtUnix then .signal else .done
    | none => .done
  | .group => if t.HasGroup job.entry.pid then .signal else .done
  | .signal | .done => .done

/-! ### The state -/

structure State where
  table : Table
  /-- the state file -/
  file : List Entry
  /-- the entries that `ReconcileStale` has read and not come to -/
  rest : List Entry
  jobs : ℕ → Job
  jobCount : ℕ

def State.init : State := ⟨.empty, [], [], fun _ => ⟨⟨0, 0, 0⟩, false, .done⟩, 0⟩

namespace State

variable (w : State)

def addJob (job : Job) : State :=
  { w with jobs := update w.jobs w.jobCount job, jobCount := w.jobCount + 1 }

def setStage (i : ℕ) (stage : Stage) : State :=
  { w with jobs := update w.jobs i { w.jobs i with stage := stage } }

/-- The daemon is about to signal a group, and there is one. -/
def Signals (i : ℕ) : Prop :=
  i < w.jobCount ∧ (w.jobs i).stage = .signal ∧ w.table.HasGroup (w.jobs i).entry.pid

instance (i : ℕ) : Decidable (w.Signals i) := inferInstanceAs (Decidable (_ ∧ _))

end State

inductive Event
  /-- of some processes -/
  | os (op : Op)
  /-- a daemon starts a command and registers it -/
  | register (parent : Option ℕ) (pid : ℕ) (started startedAtUnix : ℤ)
  /-- a daemon takes an entry from its file -/
  | forget (entry : Entry)
  | reboot
  /-- a daemon starts, whatever became of the one before, and reads the file -/
  | start
  /-- `ReconcileStale` comes to its next entry -/
  | next (entry : Entry) (rest : List Entry)
  /-- the next system call for an entry -/
  | step (i : ℕ)
  /-- the system call fails for another reason -/
  | fail (i : ℕ)

namespace Event

def Enabled (w : State) : Event → Prop
  | os op => op.Enabled w.table
  | register parent pid started _ => (Op.spawn parent pid true started).Enabled w.table
  | next entry rest =>
    w.rest = entry :: rest ∧ ∀ i < w.jobCount, (w.jobs i).kill = false → (w.jobs i).stage = .done
  | step i | fail i => i < w.jobCount ∧ (w.jobs i).stage ≠ .done
  | forget _ | reboot | start => True

def fire (pf : Platform) (w : State) : Event → State
  | os op => { w with table := op.apply w.table }
  | register parent pid started startedAtUnix =>
    { w with
      table := (Op.spawn parent pid true started).apply w.table
      file := ⟨pid, startedAtUnix, w.table.count⟩ :: w.file }
  | forget entry => { w with file := w.file.erase entry }
  | reboot => { w with table := w.table.reboot, rest := [], jobCount := 0 }
  | start => { w with rest := w.file, jobCount := 0 }
  | next entry rest =>
    let w' := { w with rest := rest }
    if entry.pid = 0 then w' else w'.addJob ⟨entry, false, .leader⟩
  | step i =>
    let w' := w.setStage i ((w.jobs i).next pf w.table)
    -- the group is signalled; after the first signal the grace period begins
    if w.Signals i ∧ (w.jobs i).kill = false then w'.addJob ⟨(w.jobs i).entry, true, .grace⟩ else w'
  | fail i => w.setStage i .done

end Event

def stale (pf : Platform) : Machine State Event := ⟨Event.Enabled, fun w e => e.fire pf w⟩

/-! ### Processes that pass for a command -/

section Entries

variable (pf : Platform) (t : Table) (e : Entry)

def Foreign (i : ℕ) : Prop := t.Live i ∧ (t.procs i).pid = e.pid ∧ i ≠ e.proc

instance (i : ℕ) : Decidable (Foreign t e i) := inferInstanceAs (Decidable (_ ∧ _))

/-- The operation makes no other process pass for the command. -/
def Keeps : Op → Prop
  | .fork parent pid started =>
    pid = e.pid → processLooksGraftSpawned pf (Op.forked t parent pid started) e.startedAtUnix = false
  | .spawn parent pid marked started =>
    pid = e.pid →
      processLooksGraftSpawned pf (Op.spawned t parent pid marked started) e.startedAtUnix = false
  | .setpgid i pgid =>
    pgid = e.pid → pgid ≠ (t.procs i).pid →
      e.proc ∈ (t.procs i).lineage ∨ ∃ j < t.count, Foreign t e j
  | .exec i marked =>
    Foreign t e i →
      processLooksGraftSpawned pf { t.procs i with marked := marked } e.startedAtUnix = false
  | .exit _ => True
  | .reap i => Foreign t e i → ∀ j < t.count, t.Live j → (t.procs j).pgid = e.pid → j = i

instance (op : Op) : Decidable (Keeps pf t e op) := by
  cases op <;> unfold Keeps <;> infer_instance

/-- Another process with the number of the command does not look like it; unless there is one, the
group is the command's. -/
structure EntryOk : Prop where
  old : e.proc < t.count
  looks : ∀ i, Foreign t e i →
    processLooksGraftSpawned pf (t.procs i) e.startedAtUnix = false
  group : t.Within e.proc e.pid ∨ ∃ i, Foreign t e i

/-- The group is the command's, and no other process has its number. -/
structure Settled : Prop where
  group : t.Within e.proc e.pid
  alone : ∀ i, ¬ Foreign t e i

end Entries

section Entries

variable {pf : Platform} {t : Table} {e : Entry} {i : ℕ} {op : Op}

theorem Foreign.apply (h : Foreign t e i) (hreap : ∀ j, op = .reap j → j ≠ i) :
    Foreign (op.apply t) e i := by
  grind [Table.Live.apply, Foreign]

/-- A process that has ended does not look more like a command than before. -/
theorem looks_zombie {p : Process} {s : ℤ} (h : processLooksGraftSpawned pf p s = false) :
    processLooksGraftSpawned pf { p with zombie := true } s = false := by
  cases pf with
  | linux => rfl
  | darwin => exact h
  | other => rfl

theorem EntryOk.looks_set (h : EntryOk pf t e) {p : Process} (hi : t.Live i)
    (hpid : p.pid = (t.procs i).pid)
    (hlooks : Foreign t e i → processLooksGraftSpawned pf p e.startedAtUnix = false) (j : ℕ)
    (hj : Foreign (t.set i p) e j) :
    processLooksGraftSpawned pf ((t.set i p).procs j) e.startedAtUnix = false := by
  obtain ⟨hlive, hpid', hne⟩ := hj
  rcases Table.live_set hlive with ⟨rfl, -⟩ | ⟨-, hlive', heq⟩
  · grind [Table.set_self, Foreign]
  grind [looks, Foreign]

theorem EntryOk.looks_create (h : EntryOk pf t e) {p : Process}
    (hlooks : p.pid = e.pid → processLooksGraftSpawned pf p e.startedAtUnix = false) (j : ℕ)
    (hj : Foreign (t.create p) e j) :
    processLooksGraftSpawned pf ((t.create p).procs j) e.startedAtUnix = false := by
  obtain ⟨hlive, hpid, hne⟩ := hj
  rcases Table.live_create hlive with rfl | ⟨hlive', heq⟩
  · simp_all [Table.create_new]
  · rw [heq] at hpid ⊢
    exact h.looks j ⟨hlive', hpid, hne⟩

theorem EntryOk.looks_apply (h : EntryOk pf t e) (he : op.Enabled t) (hok : Keeps pf t e op) (j : ℕ)
    (hj : Foreign (op.apply t) e j) :
    processLooksGraftSpawned pf ((op.apply t).procs j) e.startedAtUnix = false := by
  cases op with
  | fork parent pid started =>
    exact h.looks_create (p := Op.forked t parent pid started) hok j hj
  | spawn parent pid marked started =>
    exact h.looks_create (p := Op.spawned t parent pid marked started) hok j hj
  | setpgid i pgid =>
    exact h.looks_set (p := { t.procs i with pgid := pgid }) he.1 rfl (h.looks i) j hj
  | exec i marked =>
    exact h.looks_set (p := { t.procs i with marked := marked }) he.1 rfl hok j hj
  | exit i =>
    grind [looks_set, looks_zombie, looks, Op.apply, Op.Enabled]
  | reap i =>
    exact h.looks_set (p := { t.procs i with live := false }) he.1 rfl (h.looks i) j hj

theorem EntryOk.foreign_of_gives (h : EntryOk pf t e) (hgives : op.gives = some e.pid) :
    Foreign (op.apply t) e t.count := by
  have hcreate : ∀ {p : Process}, p.live = true → p.pid = e.pid →
      Foreign (t.create p) e t.count := by
    intro p hlive hpid
    refine ⟨⟨Nat.lt_succ_self _, ?_⟩, ?_, h.old.ne'⟩
    · rw [Table.create_new]
      exact hlive
    · rw [Table.create_new]
      exact hpid
  cases op with
  | fork | spawn => exact hcreate rfl (Option.some.inj hgives)
  | setpgid | exec | exit | reap => cases hgives

theorem within_apply (htable : t.Ok) (h : t.Within e.proc e.pid) (he : op.Enabled t)
    (hok : Keeps pf t e op) (hgives : op.gives ≠ some e.pid)
    (halone : ∀ i, op = .setpgid i e.pid → ¬ ∃ j, Foreign t e j) :
    (op.apply t).Within e.proc e.pid := by
  refine h.apply he ?_
  cases op with
  | fork parent pid started =>
    cases parent with
    | none => exact fun hpid => hgives (congrArg some hpid)
    | some j => trivial
  | spawn => exact fun hpid => hgives (congrArg some hpid)
  | setpgid i pgid =>
    rintro rfl
    have hnone := halone i rfl
    by_cases hself : e.pid = (t.procs i).pid
    · -- the command itself forms its group
      have hi : i = e.proc := by
        by_contra hne
        exact hnone ⟨i, he.1, hself.symm, hne⟩
      exact hi ▸ htable.self i he.1
    · grind [Keeps]
  | exec | exit | reap => trivial

theorem EntryOk.apply (h : EntryOk pf t e) (htable : t.Ok) (he : op.Enabled t)
    (hok : Keeps pf t e op) : EntryOk pf (op.apply t) e where
  old := h.old.trans_le (Table.count_le_apply op)
  looks := h.looks_apply he hok
  group := by
    by_cases hgives : op.gives = some e.pid
    · exact .inr ⟨t.count, h.foreign_of_gives hgives⟩
    by_cases hforeign : ∃ i, Foreign t e i
    · obtain ⟨i, hi⟩ := hforeign
      by_cases hreap : op = .reap i
      · -- the last of its group was waited for
        subst hreap
        refine .inl fun j hj hpgid => ?_
        rcases Table.live_set hj with ⟨-, hlive⟩ | ⟨hne, hj, heq⟩
        · exact absurd hlive Bool.false_ne_true
        · grind [Op.apply, Keeps, Table.Live]
      · exact .inr ⟨i, hi.apply fun j hj hji => hreap (hji ▸ hj)⟩
    · grind [within_apply, group]

theorem Settled.apply (h : Settled t e) (htable : t.Ok) (he : op.Enabled t)
    (hok : Keeps pf t e op) (hgives : op.gives ≠ some e.pid) : Settled (op.apply t) e where
  group := within_apply htable h.group he hok hgives fun _ _ ⟨j, hj⟩ => h.alone j hj
  alone i hi := by
    obtain ⟨hlive, hpid, hne⟩ := hi
    rcases Table.live_apply he hlive with ⟨-, hnew⟩ | ⟨hlive', heq⟩
    · exact hgives (hpid ▸ hnew)
    · exact h.alone i ⟨hlive', heq ▸ hpid, hne⟩

theorem EntryOk.settled_of_none (h : EntryOk pf t e) (hnone : t.holder e.pid = none) :
    Settled t e := by
  have halone : ∀ i, ¬ Foreign t e i := fun i hi => Table.holder_eq_none hnone hi.1 hi.2.1
  exact ⟨h.group.resolve_right fun ⟨i, hi⟩ => halone i hi, halone⟩

/-- The process with the number looks like the command, so that it is the command. -/
theorem EntryOk.settled_of_looks (h : EntryOk pf t e) (htable : t.Ok)
    (hsome : t.holder e.pid = some i)
    (hlooks : processLooksGraftSpawned pf (t.procs i) e.startedAtUnix = true) : Settled t e := by
  obtain ⟨hlive, hpid⟩ := Table.holder_eq_some hsome
  have halone : ∀ j, ¬ Foreign t e j := by
    grind [looks, Table.Ok.unique, Foreign]
  exact ⟨h.group.resolve_right fun ⟨j, hj⟩ => halone j hj, halone⟩

end Entries

/-! ### The condition -/

/-- What was found out about the entry has to last until the group is signalled. -/
def Job.Checked (job : Job) : Prop := job.stage = .group ∨ job.stage = .signal

instance (job : Job) : Decidable job.Checked := inferInstanceAs (Decidable (_ ∨ _))

namespace State

variable (w : State)

/-- The entries that a daemon may come to, or looks at. -/
def pending : List Entry :=
  w.file ++ w.rest ++
    ((List.range w.jobCount).filter fun i => (w.jobs i).stage ≠ .done).map fun i => (w.jobs i).entry

/-- The operation makes no process pass for a command, and gives no number away of which the daemon
has found out that it is a command's. -/
def Keeps (pf : Platform) (op : Op) : Prop :=
  (∀ e ∈ w.pending, Stale.Keeps pf w.table e op) ∧
    ∀ i < w.jobCount, (w.jobs i).Checked → op.gives ≠ some (w.jobs i).entry.pid

instance (pf : Platform) (op : Op) : Decidable (w.Keeps pf op) :=
  inferInstanceAs (Decidable (_ ∧ ∀ i < _, _))

end State

/-- No process passes for a command that is in the file or is looked at. -/
def Undisturbed (pf : Platform) (w : State) : Event → Prop
  | .os op => w.Keeps pf op
  | .register parent pid started _ => w.Keeps pf (.spawn parent pid true started)
  | _ => True

/-! ### The invariant -/

section Invariant

variable {pf : Platform} {w : State} {e : Entry} {i : ℕ}

theorem mem_pending : e ∈ w.pending ↔
    e ∈ w.file ∨ e ∈ w.rest ∨ ∃ i < w.jobCount, (w.jobs i).stage ≠ .done ∧ (w.jobs i).entry = e := by
  simp only [State.pending, List.mem_append, List.mem_map, List.mem_filter, List.mem_range,
    decide_eq_true_iff, or_assoc, and_assoc]

theorem mem_pending_of_job (hi : i < w.jobCount) (hstage : (w.jobs i).stage ≠ .done) :
    (w.jobs i).entry ∈ w.pending :=
  mem_pending.2 (.inr (.inr ⟨i, hi, hstage, rfl⟩))

/-- What is known of the entries that are pending, and of those that were checked. -/
structure Inv (pf : Platform) (w : State) : Prop where
  table : w.table.Ok
  entries : ∀ e ∈ w.pending, EntryOk pf w.table e
  checked : ∀ i < w.jobCount, (w.jobs i).Checked → Settled w.table (w.jobs i).entry

theorem Inv.init (pf : Platform) : Inv pf .init where
  table := .empty
  entries _ he := nomatch he
  checked i hi := absurd hi (Nat.not_lt_zero i)

theorem Inv.os (h : Inv pf w) {op : Op} (he : op.Enabled w.table) (hok : w.Keeps pf op) :
    Inv pf { w with table := op.apply w.table } where
  table := h.table.apply he
  entries e hmem := (h.entries e hmem).apply h.table he (hok.1 e hmem)
  checked i hi hchecked := by
    have hpending : (w.jobs i).entry ∈ w.pending := by
      refine mem_pending_of_job hi fun hdone => ?_
      rcases hchecked with hstage | hstage
      · exact Stage.noConfusion (hstage.symm.trans hdone)
      · exact Stage.noConfusion (hstage.symm.trans hdone)
    exact (h.checked i hi hchecked).apply h.table he (hok.1 _ hpending) (hok.2 i hi hchecked)

theorem EntryOk.register {t : Table} {parent : Option ℕ} {pid : ℕ} {started startedAtUnix : ℤ}
    (he : (Op.spawn parent pid true started).Enabled t) :
    EntryOk pf ((Op.spawn parent pid true started).apply t) ⟨pid, startedAtUnix, t.count⟩ := by
  have hfree : t.Free (Op.spawned t parent pid true started).pid := he.1
  have halone : ∀ i, ¬ Foreign ((Op.spawn parent pid true started).apply t)
      ⟨pid, startedAtUnix, t.count⟩ i := by
    rintro i ⟨hlive, hpid, hne⟩
    rcases Table.live_create hlive with rfl | ⟨hlive', heq⟩
    · exact hne rfl
    · rw [Op.apply, heq] at hpid
      exact (hfree.ne hlive').1 hpid
  refine ⟨Nat.lt_succ_self _, fun i hi => absurd hi (halone i), .inl fun i hlive hpgid => ?_⟩
  rcases Table.live_create hlive with rfl | ⟨hlive', heq⟩
  · rw [Op.apply, Table.create_new]
    exact List.mem_cons_self ..
  · rw [Op.apply, heq] at hpgid
    exact absurd hpgid (hfree.ne hlive').2

theorem Inv.setStage (h : Inv pf w) (hi : i < w.jobCount) (hstage : (w.jobs i).stage ≠ .done)
    {stage : Stage}
    (hchecked : stage = .group ∨ stage = .signal → Settled w.table (w.jobs i).entry) :
    Inv pf (w.setStage i stage) where
  table := h.table
  entries e hmem := by
    refine h.entries e ?_
    rcases mem_pending.1 hmem with hfile | hrest | ⟨j, hj, hne, rfl⟩
    · exact mem_pending.2 (.inl hfile)
    · exact mem_pending.2 (.inr (.inl hrest))
    · simp only [State.setStage] at hne ⊢
      rcases eq_or_ne j i with rfl | hji
      · rw [update_self]
        exact mem_pending_of_job hi hstage
      · rw [update_of_ne hji] at hne ⊢
        exact mem_pending_of_job hj hne
  checked j hj hc := by
    simp only [State.setStage] at hc ⊢
    rcases eq_or_ne j i with rfl | hji
    · rw [update_self] at hc ⊢
      exact hchecked hc
    · rw [update_of_ne hji] at hc ⊢
      exact h.checked j hj hc

theorem Inv.addJob (h : Inv pf w) {job : Job} (hentry : EntryOk pf w.table job.entry)
    (hjob : ¬ job.Checked) : Inv pf (w.addJob job) := by
  have hnew : (w.addJob job).jobs w.jobCount = job := update_self ..
  have hold : ∀ {j}, j < w.jobCount → (w.addJob job).jobs j = w.jobs j := fun hj =>
    update_of_ne hj.ne ..
  refine ⟨h.table, fun e hmem => ?_, fun j hj hc => ?_⟩
  · rcases mem_pending.1 hmem with hfile | hrest | ⟨j, hj, hne, rfl⟩
    · exact h.entries e (mem_pending.2 (.inl hfile))
    · exact h.entries e (mem_pending.2 (.inr (.inl hrest)))
    · rcases Nat.lt_succ_iff_lt_or_eq.1 hj with hlt | rfl
      · rw [hold hlt] at hne ⊢
        exact h.entries _ (mem_pending_of_job hlt hne)
      · rw [hnew]
        exact hentry
  · rcases Nat.lt_succ_iff_lt_or_eq.1 hj with hlt | rfl
    · rw [hold hlt] at hc ⊢
      exact h.checked j hlt hc
    · rw [hnew] at hc
      exact absurd hc hjob

theorem Inv.settled_next (h : Inv pf w) (hi : i < w.jobCount) (hstage : (w.jobs i).stage ≠ .done)
    (hnext : (w.jobs i).next pf w.table = .group ∨ (w.jobs i).next pf w.table = .signal) :
    Settled w.table (w.jobs i).entry := by
  have hentry := h.entries _ (mem_pending_of_job hi hstage)
  unfold Job.next at hnext
  cases hs : (w.jobs i).stage with
  | grace =>
    grind
  | leader =>
    simp only [hs] at hnext
    split at hnext
    next j hj => split_ifs at hnext <;> simp at hnext
    next hnone => exact hentry.settled_of_none hnone
  | look =>
    simp only [hs] at hnext
    split at hnext
    next j hj =>
      split_ifs at hnext with hlooks
      · exact hentry.settled_of_looks h.table hj hlooks
      · simp at hnext
    next => simp at hnext
  | group => exact h.checked i hi (.inl hs)
  | signal => exact h.checked i hi (.inr hs)
  | done => exact absurd hs hstage

theorem Inv.fire (h : Inv pf w) {e : Event} (he : e.Enabled w) (hok : Undisturbed pf w e) :
    Inv pf (e.fire pf w) := by
  cases e with
  | os op => exact h.os he hok
  | register parent pid started startedAtUnix =>
    have hinv : Inv pf { w with table := (Op.spawn parent pid true started).apply w.table } :=
      h.os he hok
    refine ⟨hinv.table, fun e hmem => ?_, hinv.checked⟩
    rcases mem_pending.1 hmem with hfile | hrest
    · rcases List.mem_cons.1 hfile with rfl | hfile
      · exact .register he
      · exact hinv.entries e (mem_pending.2 (.inl hfile))
    · exact hinv.entries e (mem_pending.2 (.inr hrest))
  | forget entry =>
    refine ⟨h.table, fun e hmem => h.entries e (mem_pending.2 ?_), h.checked⟩
    exact (mem_pending.1 hmem).imp_left List.mem_of_mem_erase
  | reboot =>
    refine ⟨.reboot _, fun e hmem => ?_, fun j hj => absurd hj (Nat.not_lt_zero j)⟩
    have hfile : e ∈ w.file := by
      rcases mem_pending.1 hmem with hfile | hrest | ⟨j, hj, -⟩
      · exact hfile
      · cases hrest
      · exact absurd hj (Nat.not_lt_zero j)
    exact ⟨(h.entries e (mem_pending.2 (.inl hfile))).old,
      fun _ hforeign => absurd hforeign.1 Table.not_live_reboot, .inl (.reboot _ _ _)⟩
  | start =>
    refine ⟨h.table, fun e hmem => ?_, fun j hj => absurd hj (Nat.not_lt_zero j)⟩
    rcases mem_pending.1 hmem with hfile | hrest | ⟨j, hj, -⟩
    · exact h.entries e (mem_pending.2 (.inl hfile))
    · exact h.entries e (mem_pending.2 (.inl hrest))
    · exact absurd hj (Nat.not_lt_zero j)
  | next entry rest =>
    have hrest : ∀ e ∈ entry :: rest, e ∈ w.pending := fun e hmem =>
      mem_pending.2 (.inr (.inl (he.1 ▸ hmem)))
    have hinv : Inv pf { w with rest := rest } := by
      refine ⟨h.table, fun e hmem => h.entries e ?_, h.checked⟩
      rcases mem_pending.1 hmem with hfile | hmem | hjob
      · exact mem_pending.2 (.inl hfile)
      · exact hrest e (List.mem_cons_of_mem _ hmem)
      · exact mem_pending.2 (.inr (.inr hjob))
    dsimp only [Event.fire]
    split_ifs
    · exact hinv
    · exact hinv.addJob (h.entries entry (hrest entry (List.mem_cons_self ..))) (by simp [Job.Checked])
  | step i =>
    have hinv := h.setStage he.1 he.2 (h.settled_next he.1 he.2)
    dsimp only [Event.fire]
    split_ifs
    · exact hinv.addJob (h.entries _ (mem_pending_of_job he.1 he.2)) (by simp [Job.Checked])
    · exact hinv
  | fail i => exact h.setStage he.1 he.2 (by simp)

end Invariant

/-! ### The results -/

/-- **A group that is signalled has the command in it or one of its descendants**, if no other
process passes for the command. -/
theorem stale_signals_own {pf : Platform} {w : State}
    (h : (stale pf).Run (Undisturbed pf) .init w) {i : ℕ} (hi : w.Signals i) :
    ∃ j, w.table.Live j ∧ (w.table.procs j).pgid = (w.jobs i).entry.pid ∧
      (w.jobs i).entry.proc ∈ (w.table.procs j).lineage := by
  have hinv : Inv pf w := h.invariant (I := Inv pf) (.init pf) fun _ _ hw he hok => hw.fire he hok
  obtain ⟨hlt, hsignal, j, hj, hlive, hpgid⟩ := hi
  exact ⟨j, ⟨hj, hlive⟩, hpgid, (hinv.checked i hlt (.inr hsignal)).group j ⟨hj, hlive⟩ hpgid⟩

instance (pf : Platform) (w : State) (e : Event) : Decidable ((stale pf).enabled w e) := by
  cases e with
  | os op =>
    cases op <;> simp only [stale, Event.Enabled, Op.Enabled] <;> infer_instance
  | register | next | step | fail | forget | reboot | start =>
    simp only [stale, Event.Enabled, Op.Enabled]
    infer_instance

instance (pf : Platform) (w : State) (e : Event) : Decidable (Undisturbed pf w e) := by
  cases e <;> simp only [Undisturbed] <;> infer_instance

/-- A command ends and leaves a child in its group; the next daemon finds the group. -/
theorem stale_signals_own_child :
    ∃ w, (stale .linux).Run (Undisturbed .linux) .init w ∧ w.Signals 0 ∧
      ∃ j, w.table.Live j ∧ (w.table.procs j).pgid = (w.jobs 0).entry.pid ∧
        (w.jobs 0).entry.proc ∈ (w.table.procs j).lineage := by
  have hexec : ∃ w ∈ (stale .linux).exec (Undisturbed .linux) .init
      [.register none 7 100 100, .os (.fork (some 0) 8 200), .os (.exit 0), .os (.reap 0), .start,
        .next ⟨7, 100, 0⟩ [], .step 0, .step 0], w.Signals 0 := by
    decide +kernel
  obtain ⟨w, hrun, hsignals⟩ := Machine.exists_run_of_exec _ _ hexec
  exact ⟨w, hrun, hsignals, stale_signals_own hrun hsignals⟩

/-- **Another command has the number of one that has ended**: it is marked as all commands are, and
the next daemon signals its group, in which nothing descends from the command in the file. -/
theorem reused_signalled :
    ∃ w, (stale .linux).Reachable .init w ∧ w.Signals 0 ∧
      ∀ j < w.table.count, w.table.Live j → (w.table.procs j).pgid = (w.jobs 0).entry.pid →
        (w.jobs 0).entry.proc ∉ (w.table.procs j).lineage := by
  have hexec : ∃ w ∈ (stale .linux).exec (fun _ _ => True) .init
      [.register none 7 100 100, .os (.exit 0), .os (.reap 0), .os (.spawn none 7 true 300), .start,
        .next ⟨7, 100, 0⟩ [], .step 0, .step 0],
      w.Signals 0 ∧ ∀ j < w.table.count, w.table.Live j →
        (w.table.procs j).pgid = (w.jobs 0).entry.pid →
          (w.jobs 0).entry.proc ∉ (w.table.procs j).lineage := by
    decide +kernel
  exact Machine.exists_run_of_exec _ _ hexec

end Graft.Stale
