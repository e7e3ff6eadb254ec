import Mathlib.Tactic

/-!
# Processes and their groups

The processes of an operating system, with the identifiers that it gives them and takes back.  A
process is known here by its place in the table, which is never used again; its `pid` is free as
soon as it was waited for and no group is called by it.

* `Table`, `Op` with `Op.Enabled` and `Op.apply`: processes fork, form groups and join them, execute
  other programs, end, and are waited for; `Table.reboot`;
* `Process.lineage`, the process and those that it descends from;
* `Table.Ok`: no two processes have the same `pid`; every operation keeps it;
* `Table.Within`, a group is made of the descendants of one process, and `Within.apply`: it stays so
  until its number is given away or another process joins it.
-/

namespace Graft.Processes

open Function (update update_self update_of_ne)

structure Process where
  pid : ℕ
  /-- its group -/
  pgid : ℕ
  /-- its place in the table and those of its forebears -/
  lineage : List ℕ
  /-- its environment has a certain mark -/
  marked : Bool
  /-- when it was started -/
  started : ℤ
  /-- it has ended and was not waited for -/
  zombie : Bool
  /-- it was not waited for -/
  live : Bool

structure Table where
  procs : ℕ → Process
  count : ℕ

namespace Table

variable (t : Table)

def empty : Table := ⟨fun _ => ⟨0, 0, [], false, 0, false, false⟩, 0⟩

/-- Process `i` is still known to the system. -/
def Live (i : ℕ) : Prop := i < t.count ∧ (t.procs i).live = true

instance (i : ℕ) : Decidable (t.Live i) := inferInstanceAs (Decidable (_ ∧ _))

def HasGroup (pgid : ℕ) : Prop := ∃ i < t.count, (t.procs i).live = true ∧ (t.procs i).pgid = pgid

instance (pgid : ℕ) : Decidable (t.HasGroup pgid) := inferInstanceAs (Decidable (∃ i < _, _))

def Free (pid : ℕ) : Prop :=
  0 < pid ∧ ∀ i < t.count, (t.procs i).live = true → (t.procs i).pid ≠ pid ∧ (t.procs i).pgid ≠ pid

instance (pid : ℕ) : Decidable (t.Free pid) := inferInstanceAs (Decidable (_ ∧ ∀ i < _, _))

def holder (pid : ℕ) : Option ℕ :=
  (List.range t.count).find? fun i => (t.procs i).live && ((t.procs i).pid = pid : Bool)

def lineage : Option ℕ → List ℕ
  | none => []
  | some i => (t.procs i).lineage

def create (p : Process) : Table := ⟨update t.procs t.count p, t.count + 1⟩

def set (i : ℕ) (p : Process) : Table := { t with procs := update t.procs i p }

def reboot : Table := { t with procs := fun i => { t.procs i with live := false } }

end Table

inductive Op
  /-- a child with the group and the environment of its parent; `none` is a parent that is not in
  the table, and whose children are on their own -/
  | fork (parent : Option ℕ) (pid : ℕ) (started : ℤ)
  /-- a child with a group and an environment of its own -/
  | spawn (parent : Option ℕ) (pid : ℕ) (marked : Bool) (started : ℤ)
  /-- process `i` forms a group, or joins one -/
  | setpgid (i pgid : ℕ)
  /-- process `i` executes another program -/
  | exec (i : ℕ) (marked : Bool)
  | exit (i : ℕ)
  /-- process `i` was waited for -/
  | reap (i : ℕ)

namespace Op

/-- The process that a `fork` makes. -/
def forked (t : Table) (parent : Option ℕ) (pid : ℕ) (started : ℤ) : Process where
  pid := pid
  pgid := parent.elim pid fun i => (t.procs i).pgid
  lineage := t.count :: t.lineage parent
  marked := parent.elim false fun i => (t.procs i).marked
  started := started
  zombie := false
  live := true

/-- The process that a `spawn` makes. -/
def spawned (t : Table) (parent : Option ℕ) (pid : ℕ) (marked : Bool) (started : ℤ) : Process where
  pid := pid
  pgid := pid
  lineage := t.count :: t.lineage parent
  marked := marked
  started := started
  zombie := false
  live := true

def Enabled (t : Table) : Op → Prop
  | fork parent pid _ | spawn parent pid _ _ =>
    t.Free pid ∧ ∀ i ∈ parent, t.Live i ∧ (t.procs i).zombie = false
  | setpgid i pgid =>
    t.Live i ∧ (t.procs i).zombie = false ∧ (pgid = (t.procs i).pid ∨ t.HasGroup pgid)
  | exec i _ | exit i => t.Live i ∧ (t.procs i).zombie = false
  | reap i => t.Live i ∧ (t.procs i).zombie = true

def apply (t : Table) : Op → Table
  | fork parent pid started => t.create (forked t parent pid started)
  | spawn parent pid marked started => t.create (spawned t parent pid marked started)
  | setpgid i pgid => t.set i { t.procs i with pgid := pgid }
  | exec i marked => t.set i { t.procs i with marked := marked }
  | exit i => t.set i { t.procs i with zombie := true }
  | reap i => t.set i { t.procs i with live := false }

def gives : Op → Option ℕ
  | fork _ pid _ | spawn _ pid _ _ => some pid
  | _ => none

end Op

/-! ### Changes of the table -/

namespace Table

variable {t : Table} {i j : ℕ} {p : Process}

theorem set_self : (t.set i p).procs i = p := update_self ..

theorem set_of_ne (h : j ≠ i) : (t.set i p).procs j = t.procs j := update_of_ne h ..

theorem create_new : (t.create p).procs t.count = p := update_self ..

theorem create_old (h : j < t.count) : (t.create p).procs j = t.procs j :=
  update_of_ne h.ne ..

theorem live_create (h : (t.create p).Live j) :
    j = t.count ∨ t.Live j ∧ (t.create p).procs j = t.procs j := by
  rcases Nat.lt_succ_iff_lt_or_eq.1 h.1 with hlt | rfl
  · refine .inr ⟨⟨hlt, ?_⟩, create_old hlt⟩
    rw [← create_old hlt]
    exact h.2
  · exact .inl rfl

theorem live_set (h : (t.set i p).Live j) :
    j = i ∧ p.live = true ∨ j ≠ i ∧ t.Live j ∧ (t.set i p).procs j = t.procs j := by
  obtain ⟨hlt, hlive⟩ := h
  rcases eq_or_ne j i with rfl | hne
  · rw [set_self] at hlive
    exact .inl ⟨rfl, hlive⟩
  · rw [set_of_ne hne] at hlive
    exact .inr ⟨hne, ⟨hlt, hlive⟩, set_of_ne hne⟩

theorem Free.ne (h : t.Free p.pid) (hj : t.Live j) :
    (t.procs j).pid ≠ p.pid ∧ (t.procs j).pgid ≠ p.pid :=
  h.2 j hj.1 hj.2

theorem holder_eq_some (h : t.holder i = some j) : t.Live j ∧ (t.procs j).pid = i := by
  have hlt : j < t.count := List.mem_range.1 (List.mem_of_find?_eq_some h)
  have hfound := List.find?_some h
  rw [Bool.and_eq_true_iff, decide_eq_true_iff] at hfound
  exact ⟨⟨hlt, hfound.1⟩, hfound.2⟩

theorem holder_eq_none (h : t.holder i = none) (hj : t.Live j) : (t.procs j).pid ≠ i := by
  intro hpid
  have hnone := List.find?_eq_none.1 h j (List.mem_range.2 hj.1)
  rw [hj.2, hpid, decide_eq_true rfl] at hnone
  exact hnone rfl

/-! ### Tables that make sense -/

/-- No two processes have the same number, and each is of its own lineage. -/
structure Ok (t : Table) : Prop where
  unique : ∀ i j, t.Live i → t.Live j → (t.procs i).pid = (t.procs j).pid → i = j
  self : ∀ i, t.Live i → i ∈ (t.procs i).lineage

theorem Ok.empty : Ok .empty where
  unique _ _ hi := absurd hi.1 (Nat.not_lt_zero _)
  self _ hi := absurd hi.1 (Nat.not_lt_zero _)

theorem Ok.create (h : t.Ok) (hfree : t.Free p.pid) (hself : t.count ∈ p.lineage) :
    (t.create p).Ok where
  unique i j hi hj hpid := by
    rcases live_create hi with rfl | ⟨hi, heq⟩ <;> rcases live_create hj with rfl | ⟨hj, heq'⟩
    · rfl
    · grind [create_new, Free.ne]
    · simp_all [create_new, Free.ne]
    · grind [unique]
  self i hi := by
    rcases live_create hi with rfl | ⟨hi, heq⟩
    · rw [create_new]
      exact hself
    grind [self]

theorem Ok.set (h : t.Ok) (hi : t.Live i) (hpid : p.pid = (t.procs i).pid)
    (hlineage : p.lineage = (t.procs i).lineage) : (t.set i p).Ok := by
  have hlive : ∀ j, (t.set i p).Live j → t.Live j ∧
      ((t.set i p).procs j).pid = (t.procs j).pid ∧
      ((t.set i p).procs j).lineage = (t.procs j).lineage := by
    intro j hj
    rcases live_set hj with ⟨rfl, -⟩ | ⟨-, hj, heq⟩
    · simp_all [set_self]
    · simp_all
  refine ⟨fun j k hj hk hjk => ?_, fun j hj => ?_⟩
  · grind [unique]
  grind [self]

theorem Ok.apply (h : t.Ok) {op : Op} (he : op.Enabled t) : (op.apply t).Ok := by
  cases op with
  | fork | spawn => exact h.create he.1 (List.mem_cons_self ..)
  | setpgid | exec | exit | reap => exact h.set he.1 rfl rfl

theorem live_apply {op : Op} (he : op.Enabled t) (h : (op.apply t).Live j) :
    j = t.count ∧ op.gives = some ((op.apply t).procs j).pid ∨
      t.Live j ∧ ((op.apply t).procs j).pid = (t.procs j).pid := by
  cases op with
  | fork | spawn =>
    rcases live_create h with rfl | ⟨hj, heq⟩
    · rw [Op.apply, create_new]
      exact .inl ⟨rfl, rfl⟩
    grind [Op.apply]
  | setpgid i | exec i | exit i | reap i =>
    rcases live_set h with ⟨rfl, -⟩ | ⟨-, hj, heq⟩
    · rw [Op.apply, set_self]
      exact .inr ⟨he.1, rfl⟩
    grind [Op.apply]

theorem Live.apply (hj : t.Live j) {op : Op} (hreap : ∀ i, op = .reap i → i ≠ j) :
    (op.apply t).Live j ∧ ((op.apply t).procs j).pid = (t.procs j).pid := by
  have hset : ∀ {i p}, (i = j → p.live = true ∧ p.pid = (t.procs i).pid) →
      (t.set i p).Live j ∧ ((t.set i p).procs j).pid = (t.procs j).pid := by
    intro i p hp
    rcases eq_or_ne j i with rfl | hne
    · grind [Live, set_self, set]
    · grind [Live, set_of_ne, set]
  cases op with
  | fork | spawn =>
    refine ⟨⟨Nat.lt_succ_of_lt hj.1, ?_⟩, congrArg Process.pid (create_old hj.1)⟩
    exact (congrArg Process.live (create_old hj.1)).trans hj.2
  | setpgid i | exec i | exit i => exact hset fun hij => ⟨hij ▸ hj.2, rfl⟩
  | reap i => exact hset fun hij => absurd hij (hreap i rfl)

theorem count_le_apply (op : Op) : t.count ≤ (op.apply t).count := by
  cases op with
  | fork | spawn => exact Nat.le_succ _
  | setpgid | exec | exit | reap => exact Nat.le_refl _

theorem not_live_reboot : ¬ t.reboot.Live i := fun hi => Bool.false_ne_true hi.2

theorem Ok.reboot (t : Table) : t.reboot.Ok where
  unique _ _ hi := absurd hi not_live_reboot
  self _ hi := absurd hi not_live_reboot

/-! ### Groups -/

/-- The group is made of process `r` and its descendants. -/
def Within (t : Table) (r pgid : ℕ) : Prop :=
  ∀ i, t.Live i → (t.procs i).pgid = pgid → r ∈ (t.procs i).lineage

theorem Within.reboot (t : Table) (r pgid : ℕ) : t.reboot.Within r pgid :=
  fun _ hi => absurd hi not_live_reboot

theorem Within.create {r pgid : ℕ} (h : t.Within r pgid)
    (hp : p.pgid = pgid → r ∈ p.lineage) : (t.create p).Within r pgid := by
  intro i hi hpgid
  rcases live_create hi with rfl | ⟨hi, heq⟩
  · simp_all [create_new]
  grind [Within]

theorem Within.set {r pgid : ℕ} (h : t.Within r pgid)
    (hp : p.live = true → p.pgid = pgid → r ∈ p.lineage) : (t.set i p).Within r pgid := by
  intro j hj hpgid
  rcases live_set hj with ⟨rfl, hlive⟩ | ⟨-, hj, heq⟩
  · simp_all [set_self]
  grind [Within]

/-- **A group stays a family** until its number is given to another process, or one joins it that is
not of the family. -/
theorem Within.apply {r pgid : ℕ} (h : t.Within r pgid) {op : Op} (he : op.Enabled t)
    (hok : match op with
      | .fork none pid _ | .spawn _ pid _ _ => pid ≠ pgid
      | .setpgid i pgid' => pgid' = pgid → r ∈ (t.procs i).lineage
      | _ => True) : (op.apply t).Within r pgid := by
  cases op with
  | fork parent pid started =>
    refine h.create fun hpgid => ?_
    cases parent with
    | none => exact absurd hpgid hok
    | some j => exact List.mem_cons_of_mem _ (h j (he.2 j rfl).1 hpgid)
  | spawn parent pid marked started => exact h.create fun hpgid => absurd hpgid hok
  | setpgid i pgid' => exact h.set fun _ hpgid => hok hpgid
  | exec i | exit i => exact h.set fun _ hpgid => h i he.1 hpgid
  | reap i => exact h.set fun hlive => absurd hlive Bool.false_ne_true

end Table

end Graft.Processes
