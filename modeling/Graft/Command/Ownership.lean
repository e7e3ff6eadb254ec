import Graft.Command.Disconnect

/-!
# Who owns a managed command (`pkg/command_registry.go`)

A client attaches to a command and gets a handle; it may lose the command to another client or to
`DetachAndKeep`, which close the `canceled` channel of its handle, and it calls `ClientGone` with
the handle at its end, whoever has the command by then.
-/

namespace Graft.Ownership

open Function (update update_self update_of_ne)
open Command (TimersOk)

variable {f : Fate} {a : ℕ}

inductive Fate
  | unmade
  | current
  /-- `ClientGone` was called while it was current -/
  | gone
  /-- another client attached -/
  | replaced
  /-- `DetachAndKeep` was called while it was current -/
  | detached
  deriving DecidableEq

def Fate.taken : Fate → Bool
  | replaced | detached => true
  | unmade | current | gone => false

structure State where
  mc : ManagedCommand
  /-- the number of handles made so far -/
  count : ℕ
  fate : ℕ → Fate

namespace State

def init (spec : ManagedCommandSpec) (combined : Bool) : State :=
  ⟨.register spec combined, 0, fun _ => .unmade⟩

variable (w : State)

/-- The fates when the current handle, if any, meets its own. -/
def leave (f : Fate) : ℕ → Fate :=
  match w.mc.current with
  | none => w.fate
  | some a => update w.fate a f

end State

inductive Event
  | attach
  | clientGone (handle : ℕ)
  | detachAndKeep
  /-- the process has exited -/
  | exit (status : ℤ) (err : Bool)
  /-- a timer fires -/
  | expire (timer : ℕ)

namespace Event

def Enabled (w : State) : Event → Prop
  | attach | detachAndKeep => True
  | clientGone handle => handle < w.count
  | exit .. => w.mc.exited = false
  | expire timer => timer ∈ w.mc.armed

def fire (w : State) : Event → State
  | attach => ⟨w.mc.attach w.count, w.count + 1, update (w.leave .replaced) w.count .current⟩
  | clientGone handle =>
    { w with
      mc := w.mc.clientGone handle
      fate := if w.mc.current = some handle then update w.fate handle .gone else w.fate }
  | detachAndKeep => { w with mc := w.mc.detachAndKeep, fate := w.leave .detached }
  | exit status err => { w with mc := w.mc.recordExit status err }
  | expire timer => { w with mc := w.mc.fireTimer timer }

end Event

def attachments : Machine State Event := ⟨Event.Enabled, Event.fire⟩

/-! ### The invariant -/

structure Owned (w : State) : Prop where
  timers : TimersOk w.mc
  armed : w.mc.armed.length ≤ 1
  unmade : ∀ a, w.count ≤ a → w.fate a = .unmade
  current : ∀ a, w.fate a = .current ↔ w.mc.current = some a
  canceled : ∀ a, w.mc.canceled.count a = if (w.fate a).taken then 1 else 0

section Step

variable {w : State}

theorem Owned.leave_of_ne (w : State) (ha : w.mc.current ≠ some a) : w.leave f a = w.fate a := by
  unfold State.leave
  cases hcurrent : w.mc.current with
  | none => rfl
  | some b =>
    have hab : a ≠ b := by
      rintro rfl
      exact ha hcurrent
    exact update_of_ne hab ..

theorem Owned.leave_current (ha : w.mc.current = some a) : w.leave f a = f := by
  simp only [State.leave, ha, update_self]

theorem Owned.leave_ne_current (h : Owned w) (hf : f.taken = true) (a : ℕ) :
    w.leave f a ≠ .current := by
  by_cases ha : w.mc.current = some a
  · rw [Owned.leave_current ha]
    rintro rfl
    cases hf
  · rw [Owned.leave_of_ne w ha]
    exact fun hfate => ha ((h.current a).1 hfate)

theorem Owned.leave_unmade (h : Owned w) (ha : w.count ≤ a) : w.leave f a = .unmade := by
  have hfate := h.unmade a ha
  rw [Owned.leave_of_ne w, hfate]
  intro hcurrent
  rw [(h.current a).2 hcurrent] at hfate
  cases hfate

theorem Owned.canceled_leave (h : Owned w) (hf : f.taken = true) (a : ℕ) :
    w.mc.canceledWithCurrent.count a = if (w.leave f a).taken then 1 else 0 := by
  have hold := h.canceled a
  by_cases ha : w.mc.current = some a
  · rw [(h.current a).2 ha] at hold
    rw [Owned.leave_current ha, hf, ManagedCommand.canceledWithCurrent, ha]
    simp only [List.count_cons_self, hold]
    rfl
  · rw [Owned.leave_of_ne w ha, ← hold, ManagedCommand.canceledWithCurrent]
    cases hcurrent : w.mc.current with
    | none => rfl
    | some b =>
      have hab : b ≠ a := by
        rintro rfl
        exact ha hcurrent
      exact List.count_cons_of_ne hab

theorem Owned.attach (h : Owned w) : Owned (Event.fire w .attach) where
  timers := h.timers.attach w.count
  armed := by simp [Event.fire, ManagedCommand.attach, h.timers.armedAfterStop]
  unmade := by
    intro a ha
    have hne : a ≠ w.count := (Nat.lt_of_succ_le ha).ne'
    simp only [Event.fire, update_of_ne hne]
    exact h.leave_unmade (Nat.le_of_succ_le ha)
  current := by
    intro a
    by_cases ha : a = w.count
    · subst ha
      simp only [Event.fire, update_self, ManagedCommand.attach]
    · simp only [Event.fire, update_of_ne ha, ManagedCommand.attach, Option.some.injEq]
      exact iff_of_false (h.leave_ne_current rfl a) (Ne.symm ha)
  canceled := by
    intro a
    have hcount := h.canceled_leave (f := .replaced) rfl a
    by_cases ha : a = w.count
    · subst ha
      rw [h.leave_unmade le_rfl] at hcount
      simp only [Event.fire, update_self, ManagedCommand.attach, hcount]
      rfl
    · simpa only [Event.fire, update_of_ne ha, ManagedCommand.attach] using hcount

theorem Owned.detachAndKeep (h : Owned w) : Owned (Event.fire w .detachAndKeep) where
  timers := h.timers.detachAndKeep
  armed := by simp [Event.fire, ManagedCommand.detachAndKeep, h.timers.armedAfterStop]
  unmade _ ha := h.leave_unmade ha
  current a := iff_of_false (h.leave_ne_current rfl a) nofun
  canceled := h.canceled_leave rfl

theorem fire_clientGone_of_ne (ha : w.mc.current ≠ some a) : Event.fire w (.clientGone a) = w := by
  simp only [Event.fire, ManagedCommand.clientGone, if_pos ha, if_neg ha]

theorem armed_clientGone (h : Owned w) (a : ℕ) : (w.mc.clientGone a).armed.length ≤ 1 := by
  unfold ManagedCommand.clientGone
  split_ifs
  · exact h.armed
  · exact h.armed
  · simp [ManagedCommand.scheduleKill, h.timers.armedAfterStop]

theorem Owned.clientGone (h : Owned w) (ha : a < w.count) :
    Owned (Event.fire w (.clientGone a)) := by
  by_cases hcurrent : w.mc.current = some a
  · have hfate : (Event.fire w (.clientGone a)).fate = update w.fate a .gone := if_pos hcurrent
    refine ⟨h.timers.clientGone a, armed_clientGone h a, fun b hb => ?_, fun b => ?_, fun b => ?_⟩
    · rw [hfate, update_of_ne (ha.trans_le hb).ne']
      exact h.unmade b hb
    · have hnone : (Event.fire w (.clientGone a)).mc.current = none :=
        (w.mc.clientGone_current a).trans (if_pos hcurrent)
      rw [hnone, hfate]
      refine iff_of_false (fun hb => ?_) nofun
      by_cases hba : b = a
      · subst hba
        rw [update_self] at hb
        cases hb
      · rw [update_of_ne hba, h.current, hcurrent, Option.some.injEq] at hb
        exact hba hb.symm
    · have hcanceled : (Event.fire w (.clientGone a)).mc.canceled = w.mc.canceled :=
        (w.mc.clientGone_frame a).2.2.2.2.2
      rw [hcanceled, hfate, h.canceled b]
      by_cases hba : b = a
      · subst hba
        rw [update_self, (h.current b).2 hcurrent]
        rfl
      · rw [update_of_ne hba]
  · rw [fire_clientGone_of_ne hcurrent]
    exact h

theorem Owned.fire (h : Owned w) {e : Event} (he : e.Enabled w) : Owned (e.fire w) := by
  cases e with
  | attach => exact h.attach
  | clientGone a => exact h.clientGone he
  | detachAndKeep => exact h.detachAndKeep
  | exit status err =>
    refine ⟨h.timers.recordExit status err, ?_, h.unmade, h.current, h.canceled⟩
    simp [Event.fire, ManagedCommand.recordExit, h.timers.armedAfterStop]
  | expire timer =>
    refine ⟨h.timers.fireTimer timer, ?_, h.unmade, h.current, h.canceled⟩
    exact (List.length_filter_le ..).trans h.armed

theorem Owned.init (spec : ManagedCommandSpec) (combined : Bool) : Owned (.init spec combined) where
  timers := ⟨List.forall_mem_nil _, fun hp => absurd rfl hp, List.forall_mem_nil _⟩
  armed := Nat.zero_le _
  unmade _ _ := rfl
  current _ := iff_of_false nofun nofun
  canceled _ := rfl

end Step

/-! ### The results -/

/-- **A command has at most one owner.**  The handle that is current has not been canceled; one that
was replaced or detached was canceled exactly once, and no other; `ClientGone` with a handle that is
not current changes nothing; and at most one timer can fire, and only while nobody is attached. -/
theorem attachment_owned {spec : ManagedCommandSpec} {combined : Bool} {w : State}
    (h : attachments.Reachable (.init spec combined) w) :
    (∀ a, w.fate a = .current ↔ w.mc.current = some a) ∧
      (∀ a b, w.fate a = .current → w.fate b = .current → a = b) ∧
      (∀ a, w.mc.canceled.count a = if w.fate a = .replaced ∨ w.fate a = .detached then 1 else 0) ∧
      (∀ a ∈ w.mc.current, a ∉ w.mc.canceled) ∧
      (∀ a, w.mc.current ≠ some a → Event.fire w (.clientGone a) = w) ∧
      w.mc.armed.length ≤ 1 ∧ (w.mc.armed ≠ [] → w.mc.current = none) := by
  have hinv : Owned w :=
    h.invariant (I := Owned) (.init spec combined) fun _ _ hw he _ => hw.fire he
  refine ⟨hinv.current, fun a b ha hb => ?_, fun a => ?_, fun a ha => ?_,
    fun a ha => fire_clientGone_of_ne ha, hinv.armed, fun harmed => ?_⟩
  · rw [hinv.current] at ha hb
    exact Option.some.inj (ha.symm.trans hb)
  · rw [hinv.canceled]
    cases w.fate a <;> rfl
  · rw [← List.count_eq_zero, hinv.canceled, (hinv.current a).2 ha]
    rfl
  · obtain ⟨t, ht⟩ := List.exists_mem_of_ne_nil _ harmed
    refine (hinv.timers.pending ?_).1
    rw [hinv.timers.armed t ht]
    exact Option.some_ne_none t

instance (w : State) (e : Event) : Decidable (attachments.enabled w e) := by
  cases e <;> simp only [attachments, Event.Enabled] <;> infer_instance

def killed : ManagedCommandSpec := ⟨.kill, fun _ => 0, zero_capacity_lt⟩

/-- A client steals the command and goes; the one before it says that it is gone only then. -/
theorem attachment_owned_stale :
    ∃ w, attachments.Reachable (.init killed false) w ∧ w.fate 0 = .replaced ∧
      w.mc.canceled.count 0 = 1 ∧ Event.fire w (.clientGone 0) = w ∧ w.mc.armed = [0] ∧
      w.mc.current = none := by
  have hexec : ∃ w ∈ attachments.exec (fun _ _ => True) (.init killed false)
      [.attach, .attach, .clientGone 1, .clientGone 0],
      w.fate 0 = .replaced ∧ w.mc.current ≠ some 0 ∧ w.mc.armed = [0] := by
    decide +kernel
  obtain ⟨w, hrun, hfate, hcurrent, harmed⟩ := Machine.exists_run_of_exec _ _ hexec
  obtain ⟨-, -, hcanceled, -, hstale, -, htimer⟩ := attachment_owned hrun
  refine ⟨w, hrun, hfate, ?_, hstale 0 hcurrent, harmed, htimer (by rw [harmed]; nofun)⟩
  rw [hcanceled, if_pos (.inl hfate)]

end Graft.Ownership
