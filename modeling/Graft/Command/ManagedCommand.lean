import Graft.Command.OutputRing

/-!
# Managed commands (`pkg/command_registry.go`)

A `ManagedCommand` is a locally running command owned by the daemon rather than by any client
stream: clients attach to it and detach from it over time.  This file has the state its mutex
guards and its critical sections, each as a function on that state:

An attachment handle is the number of the stream it belongs to; closing its `canceled` channel
is logged in `canceled`.  Timers are numbered in the order they are created; `armed` are those
that may still fire.
-/

namespace Graft

inductive Fd
  | stdout
  | stderr
  deriving DecidableEq

instance : Fintype Fd := ⟨{.stdout, .stderr}, fun fd => by cases fd <;> simp⟩

/-- Two offsets, one for each output, as messages carry them. -/
structure Offsets where
  stdout : ℕ
  stderr : ℕ
  deriving DecidableEq

namespace Offsets

def get (o : Offsets) : Fd → ℕ
  | .stdout => o.stdout
  | .stderr => o.stderr

instance : CoeFun Offsets fun _ => Fd → ℕ := ⟨get⟩

def of (f : Fd → ℕ) : Offsets := ⟨f .stdout, f .stderr⟩

@[simp] theorem of_get (f : Fd → ℕ) (fd : Fd) : of f fd = f fd := by cases fd <;> rfl

end Offsets

/-- `commandPersistence`: what happens to a command whose client goes away. -/
inductive Persistence
  | kill
  | keep
  deriving DecidableEq

def defaultOutputRingCapacity : ℕ := 2 ^ 20

/-- `ManagedCommandSpec`: the fields that decide how a command behaves.  Capacities are Go
`int`s; zero means the default. -/
structure ManagedCommandSpec where
  persistence : Persistence
  capacity : Fd → ℕ
  capacity_lt : ∀ fd, capacity fd < 2 ^ 63

theorem zero_capacity_lt (_ : Fd) : 0 < 2 ^ 63 := by decide

def ManagedCommandSpec.ringCapacity (spec : ManagedCommandSpec) (fd : Fd) : ℕ :=
  if spec.capacity fd = 0 then defaultOutputRingCapacity else spec.capacity fd

theorem ManagedCommandSpec.ringCapacity_lt (spec : ManagedCommandSpec) (fd : Fd) :
    spec.ringCapacity fd < 2 ^ 63 := by
  unfold ringCapacity defaultOutputRingCapacity
  split_ifs
  · decide
  · exact spec.capacity_lt fd

/-- The mutable state of a `ManagedCommand`. -/
structure ManagedCommand where
  persistence : Persistence
  rings : Fd → OutputRing
  /-- the current attachment -/
  current : Option ℕ
  /-- the delayed kill-policy kill -/
  pendingKill : Option ℕ
  exited : Bool
  exitStatus : ℤ
  /-- whether waiting for the process failed -/
  exitErr : Bool
  /-- handles whose `canceled` channel was closed, latest first -/
  canceled : List ℕ
  /-- timers that may still fire -/
  armed : List ℕ
  /-- the number of timers created so far -/
  timers : ℕ

namespace ManagedCommand

/-- `Register`: kill-policy commands get lossless rings; the stderr ring of a command with one
combined output stream is closed at once. -/
def register (spec : ManagedCommandSpec) (combined : Bool) : ManagedCommand where
  persistence := spec.persistence
  rings fd :=
    let r := OutputRing.new (spec.ringCapacity fd)
    let r := if spec.persistence = .kill then r.setLossless else r
    if fd = .stderr ∧ combined then r.close else r
  current := none
  pendingKill := none
  exited := false
  exitStatus := 0
  exitErr := false
  canceled := []
  armed := []
  timers := 0

/-- The timers that may still fire after `mc.pendingKill.Stop()`, if there is a pending kill: a
timer that has fired is not affected. -/
def armedAfterStop (mc : ManagedCommand) : List ℕ :=
  match mc.pendingKill with
  | none => mc.armed
  | some t => mc.armed.filter (· ≠ t)

/-- The closed `canceled` channels once that of the current attachment, if any, is closed too. -/
def canceledWithCurrent (mc : ManagedCommand) : List ℕ :=
  match mc.current with
  | none => mc.canceled
  | some h => h :: mc.canceled

/-- `attach`: the new handle steals the command. -/
def attach (mc : ManagedCommand) (handle : ℕ) : ManagedCommand :=
  { mc with
    armed := mc.armedAfterStop
    pendingKill := none
    canceled := mc.canceledWithCurrent
    current := some handle }

def detachAndKeep (mc : ManagedCommand) : ManagedCommand :=
  { mc with
    armed := mc.armedAfterStop
    pendingKill := none
    persistence := .keep
    canceled := mc.canceledWithCurrent
    current := none }

/-- The delayed kill of `ClientGone` is scheduled: any earlier timer is stopped. -/
def scheduleKill (mc : ManagedCommand) : ManagedCommand :=
  { mc with
    pendingKill := some mc.timers
    armed := mc.armedAfterStop ++ [mc.timers]
    timers := mc.timers + 1 }

/-- `ClientGone`: the policy is applied only if the handle is still current. -/
def clientGone (mc : ManagedCommand) (handle : ℕ) : ManagedCommand :=
  if mc.current ≠ some handle then mc
  else if mc.exited = true ∨ mc.persistence ≠ .kill then { mc with current := none }
  else { mc.scheduleKill with current := none }

def fireTimer (mc : ManagedCommand) (t : ℕ) : ManagedCommand :=
  { mc with armed := mc.armed.filter (· ≠ t) }

def currentIs (mc : ManagedCommand) (handle : ℕ) : Prop := mc.current = some handle

instance (mc : ManagedCommand) (handle : ℕ) : Decidable (mc.currentIs handle) :=
  inferInstanceAs (Decidable (mc.current = some handle))

def mapRing (mc : ManagedCommand) (fd : Fd) (f : OutputRing → OutputRing) : ManagedCommand :=
  { mc with rings := Function.update mc.rings fd (f (mc.rings fd)) }

def ackOutput (mc : ManagedCommand) (offsets : Offsets) : ManagedCommand :=
  { mc with rings := fun fd => (mc.rings fd).setReleased (offsets fd) }

/-- The part of `waitAndReap` under the command's mutex. -/
def recordExit (mc : ManagedCommand) (status : ℤ) (err : Bool) : ManagedCommand :=
  { mc with
    armed := mc.armedAfterStop
    pendingKill := none
    exited := true
    exitStatus := status
    exitErr := err }

/-- A kill-policy command that exits with nobody attached is forgotten. -/
def forget (mc : ManagedCommand) : Bool := decide (mc.persistence = .kill ∧ mc.current = none)

/-! ### Facts about the critical sections -/

variable (mc : ManagedCommand) (handle t : ℕ)

theorem mem_armedAfterStop :
    t ∈ mc.armedAfterStop ↔ t ∈ mc.armed ∧ mc.pendingKill ≠ some t := by
  unfold armedAfterStop
  cases h : mc.pendingKill with
  | none => simp
  | some u => simp [@eq_comm _ u t]

theorem clientGone_frame :
    (mc.clientGone handle).rings = mc.rings ∧
      (mc.clientGone handle).persistence = mc.persistence ∧
      (mc.clientGone handle).exited = mc.exited ∧
      (mc.clientGone handle).exitStatus = mc.exitStatus ∧
      (mc.clientGone handle).exitErr = mc.exitErr ∧
      (mc.clientGone handle).canceled = mc.canceled := by
  unfold clientGone
  split_ifs <;> exact ⟨rfl, rfl, rfl, rfl, rfl, rfl⟩

@[simp] theorem clientGone_rings : (mc.clientGone handle).rings = mc.rings :=
  (mc.clientGone_frame handle).1

@[simp] theorem clientGone_persistence : (mc.clientGone handle).persistence = mc.persistence :=
  (mc.clientGone_frame handle).2.1

@[simp] theorem clientGone_exited : (mc.clientGone handle).exited = mc.exited :=
  (mc.clientGone_frame handle).2.2.1

theorem clientGone_record : (mc.clientGone handle).exited = mc.exited ∧
    (mc.clientGone handle).exitStatus = mc.exitStatus ∧
    (mc.clientGone handle).exitErr = mc.exitErr :=
  ⟨(mc.clientGone_frame handle).2.2.1, (mc.clientGone_frame handle).2.2.2.1,
    (mc.clientGone_frame handle).2.2.2.2.1⟩

theorem clientGone_current :
    (mc.clientGone handle).current = if mc.current = some handle then none else mc.current := by
  unfold clientGone
  by_cases h : mc.current = some handle
  · simp only [h, ne_eq, not_true_eq_false, if_false, if_true]
    split_ifs <;> rfl
  · simp [h]

end ManagedCommand

end Graft
