import Graft.Command.Rings

/-!
# Disconnect kills and kept commands

Two properties of the persistence policy.
-/

namespace Graft.Command

open Function (update update_self update_of_ne)

/-! ### Kill goroutines -/

/-- Goroutine `k` is about to signal the process group. -/
def World.Signalling (w : World) (k : ℕ) : Prop :=
  (w.kills k).pc = .term ∨ (w.kills k).pc = .kill

/-- The step is an `attach` or a `DetachAndKeep`. -/
def Event.IsTakeover : Event → Prop
  | .serve _ .attachStart | .serve _ (.attach _) | .host .detach => True
  | _ => False

/-- The kill goroutine was started by a timer of `ClientGone`. -/
def KillOrigin.isDisconnect : KillOrigin → Bool
  | .disconnect _ => true
  | .request => false

/-- Takeovers happen only when no disconnect kill is under way. -/
def KillsSettled (w : World) (e : Event) : Prop :=
  e.IsTakeover → ∀ k < w.killCount,
    (w.kills k).origin.isDisconnect = true → (w.kills k).pc = .finished

instance (e : Event) : Decidable e.IsTakeover := by
  unfold Event.IsTakeover
  split <;> infer_instance

instance (w : World) (e : Event) : Decidable (KillsSettled w e) :=
  inferInstanceAs (Decidable (_ → _))

/-- The command is subject to disconnect kills: nobody is attached and its policy is kill. -/
def Abandoned (mc : ManagedCommand) : Prop := mc.current = none ∧ mc.persistence = .kill

/-- The timers of a command: only the pending one can fire, and only an abandoned command has
one. -/
structure TimersOk (mc : ManagedCommand) : Prop where
  armed : ∀ t ∈ mc.armed, mc.pendingKill = some t
  pending : mc.pendingKill ≠ none → Abandoned mc
  lt : ∀ t ∈ mc.armed, t < mc.timers

namespace TimersOk

variable {mc : ManagedCommand} (h : TimersOk mc)
include h

theorem armedAfterStop : mc.armedAfterStop = [] := by
  refine List.eq_nil_iff_forall_not_mem.2 fun t ht => ?_
  grind [ManagedCommand.mem_armedAfterStop, armed]

theorem attach (i : ℕ) : TimersOk (mc.attach i) :=
  ⟨by simp [ManagedCommand.attach, h.armedAfterStop], fun hp => absurd rfl hp,
    by simp [ManagedCommand.attach, h.armedAfterStop]⟩

theorem detachAndKeep : TimersOk mc.detachAndKeep :=
  ⟨by simp [ManagedCommand.detachAndKeep, h.armedAfterStop], fun hp => absurd rfl hp,
    by simp [ManagedCommand.detachAndKeep, h.armedAfterStop]⟩

theorem recordExit (status : ℤ) (err : Bool) : TimersOk (mc.recordExit status err) :=
  ⟨by simp [ManagedCommand.recordExit, h.armedAfterStop], fun hp => absurd rfl hp,
    by simp [ManagedCommand.recordExit, h.armedAfterStop]⟩

theorem fireTimer (t : ℕ) : TimersOk (mc.fireTimer t) :=
  ⟨fun u hu => h.armed u (List.mem_of_mem_filter hu), h.pending,
    fun u hu => h.lt u (List.mem_of_mem_filter hu)⟩

theorem clientGone (i : ℕ) : TimersOk (mc.clientGone i) := by
  unfold ManagedCommand.clientGone
  split_ifs with hcur hpol
  · exact h
  · exact ⟨h.armed, fun hp => ⟨rfl, (h.pending hp).2⟩, h.lt⟩
  · have hkill : mc.persistence = .kill := not_not.1 (not_or.1 hpol).2
    refine ⟨fun t ht => ?_, fun _ => ⟨rfl, hkill⟩, fun t ht => ?_⟩ <;>
      simp only [ManagedCommand.scheduleKill, h.armedAfterStop, List.nil_append,
        List.mem_singleton] at ht ⊢
    · rw [ht]
    · omega

end TimersOk

theorem Abandoned.clientGone {mc : ManagedCommand} (h : Abandoned mc) (i : ℕ) :
    Abandoned (mc.clientGone i) := by
  grind [Abandoned, ManagedCommand.clientGone]

/-- What keeps disconnect kills away from attached and kept commands. -/
structure KillInv (w : World) : Prop where
  timers : TimersOk w.cmd
  fresh : ∀ k, w.killCount ≤ k → (w.kills k).pc = .finished
  underway : ∀ k, (w.kills k).origin.isDisconnect = true → (w.kills k).pc ≠ .finished →
    Abandoned w.cmd

namespace KillInv

variable {w : World} (h : KillInv w)
include h

theorem takeover {e : Event} (hok : KillsSettled w e) (he : e.IsTakeover) (k : ℕ)
    (hk : (w.kills k).origin.isDisconnect = true) : (w.kills k).pc = .finished := by
  grind [fresh, KillsSettled]

theorem setKill {k : ℕ} {pc : KillPc} (p : Proc) (hk : (w.kills k).pc ≠ .finished) :
    KillInv { w with proc := p, kills := Host.setKill w k pc } := by
  have hlt : k < w.killCount := by
    grind [fresh]
  refine ⟨h.timers, fun j hj => ?_, fun j => ?_⟩
  · simpa only [Host.setKill, update_of_ne (show j ≠ k by dsimp only at hj; omega)]
      using h.fresh j hj
  · by_cases hjk : j = k
    · subst hjk
      simp only [Host.setKill, update_self]
      exact fun ho _ => h.underway j ho hk
    · simpa only [Host.setKill, update_of_ne hjk] using h.underway j

theorem start {mc : ManagedCommand} {o : KillOrigin} (ht : TimersOk mc)
    (ha : Abandoned w.cmd → Abandoned mc) (ho : o.isDisconnect = true → Abandoned mc) :
    KillInv { w with
      cmd := mc, kills := update w.kills w.killCount ⟨o, .peek⟩, killCount := w.killCount + 1 } := by
  refine ⟨ht, fun j hj => ?_, fun j => ?_⟩
  · dsimp only at hj ⊢
    rw [update_of_ne (by omega)]
    exact h.fresh j (by omega)
  · dsimp only
    by_cases hj : j = w.killCount
    · subst hj
      rw [update_self]
      exact fun hd _ => ho hd
    · rw [update_of_ne hj]
      exact fun hd hf => ha (h.underway j hd hf)

end KillInv

theorem KillInv.init (s : Start) : KillInv (.init s) :=
  ⟨⟨by simp [World.init, ManagedCommand.register], fun hp => absurd rfl hp,
    by simp [World.init, ManagedCommand.register]⟩, fun _ _ => rfl, fun _ _ hf => absurd rfl hf⟩

/-- **Every step keeps disconnect kills away from attached and kept commands.** -/
theorem KillInv.step {w : World} {e : Event} (h : KillInv w) (he : e.Enabled w)
    (hok : KillsSettled w e) : KillInv (e.fire w) := by
  cases e with
  | host e =>
    cases e with
    | reapRecord => exact ⟨h.timers.recordExit _ _, h.fresh, h.underway⟩
    | timer t =>
      have ha : Abandoned w.cmd := h.timers.pending (by rw [h.timers.armed t he]; simp)
      exact h.start (h.timers.fireTimer t) (fun _ => ha) (fun _ => ha)
    | killRequest => exact h.start h.timers id (by simp [KillOrigin.isDisconnect])
    | killPeek k => exact h.setKill w.proc (by rw [show (w.kills k).pc = .peek from he]; simp)
    | killTerm k => exact h.setKill _ (by rw [show (w.kills k).pc = .term from he]; simp)
    | killDone k => exact h.setKill w.proc (by rw [show (w.kills k).pc = .grace from he.1]; simp)
    | killGrace k => exact h.setKill w.proc (by rw [show (w.kills k).pc = .grace from he]; simp)
    | killKill k => exact h.setKill _ (by rw [show (w.kills k).pc = .kill from he]; simp)
    | detach =>
      exact ⟨h.timers.detachAndKeep, h.fresh,
        fun k hk hf => absurd (h.takeover hok trivial k hk) hf⟩
    | _ => exact ⟨⟨h.timers.armed, h.timers.pending, h.timers.lt⟩, h.fresh, h.underway⟩
  | serve i e =>
    cases e with
    | attachStart | attach =>
      exact ⟨h.timers.attach i, h.fresh, fun k hk hf => absurd (h.takeover hok trivial k hk) hf⟩
    | greetFailed | replyFailed | leave =>
      exact ⟨h.timers.clientGone i, h.fresh, fun k hk hf => (h.underway k hk hf).clientGone i⟩
    | _ => exact ⟨⟨h.timers.armed, h.timers.pending, h.timers.lt⟩, h.fresh, h.underway⟩
  | remote e =>
    rw [Event.fire, e.fire_daemon]
    exact ⟨h.timers, h.fresh, h.underway⟩
  | _ => exact ⟨h.timers, h.fresh, h.underway⟩

/-! ### What was scheduled before a takeover -/

/-- No timer below `n` can fire any more. -/
structure TimersFrom (n : ℕ) (mc : ManagedCommand) : Prop where
  le : n ≤ mc.timers
  armed : ∀ t ∈ mc.armed, n ≤ t

namespace TimersFrom

variable {n : ℕ} {mc : ManagedCommand} (h : TimersFrom n mc)
include h

theorem armedAfterStop : ∀ t ∈ mc.armedAfterStop, n ≤ t :=
  fun t ht => h.armed t ((mc.mem_armedAfterStop t).1 ht).1

theorem clientGone (i : ℕ) : TimersFrom n (mc.clientGone i) := by
  unfold ManagedCommand.clientGone
  split_ifs
  · exact h
  · exact ⟨h.le, h.armed⟩
  · refine ⟨h.le.trans (Nat.le_succ _), fun t ht => ?_⟩
    simp only [ManagedCommand.scheduleKill, List.mem_append, List.mem_singleton] at ht
    rcases ht with ht | rfl
    · exact h.armedAfterStop t ht
    · exact h.le

end TimersFrom

/-- No disconnect kill scheduled by a timer below `n` is under way or can start. -/
structure CalledOff (n : ℕ) (w : World) : Prop where
  timers : TimersFrom n w.cmd
  underway : ∀ k t, (w.kills k).origin = .disconnect t → (w.kills k).pc ≠ .finished → n ≤ t

namespace CalledOff

variable {n : ℕ} {w : World} (h : CalledOff n w)
include h

theorem setKill {k : ℕ} {pc : KillPc} (p : Proc) (hk : (w.kills k).pc ≠ .finished) :
    CalledOff n { w with proc := p, kills := Host.setKill w k pc } := by
  refine ⟨h.timers, fun j t => ?_⟩
  by_cases hjk : j = k
  · subst hjk
    simp only [Host.setKill, update_self]
    exact fun ho _ => h.underway j t ho hk
  · simpa only [Host.setKill, update_of_ne hjk] using h.underway j t

theorem start {mc : ManagedCommand} {o : KillOrigin} (ht : TimersFrom n mc)
    (ho : ∀ t, o = .disconnect t → n ≤ t) :
    CalledOff n { w with
      cmd := mc, kills := update w.kills w.killCount ⟨o, .peek⟩, killCount := w.killCount + 1 } := by
  refine ⟨ht, fun j t => ?_⟩
  by_cases hj : j = w.killCount
  · subst hj
    simp only [update_self]
    exact fun hd _ => ho t hd
  · simpa only [update_of_ne hj] using h.underway j t

theorem step {e : Event} (he : e.Enabled w) : CalledOff n (e.fire w) := by
  have hstop := h.timers.armedAfterStop
  cases e with
  | host e =>
    cases e with
    | reapRecord | detach => exact ⟨⟨h.timers.le, hstop⟩, h.underway⟩
    | timer t =>
      refine h.start ⟨h.timers.le, fun u hu => h.timers.armed u (List.mem_of_mem_filter hu)⟩ ?_
      rintro _ ⟨⟩
      exact h.timers.armed t he
    | killRequest => exact h.start h.timers nofun
    | killPeek k => exact h.setKill w.proc (by rw [show (w.kills k).pc = .peek from he]; simp)
    | killTerm k => exact h.setKill _ (by rw [show (w.kills k).pc = .term from he]; simp)
    | killDone k => exact h.setKill w.proc (by rw [show (w.kills k).pc = .grace from he.1]; simp)
    | killGrace k => exact h.setKill w.proc (by rw [show (w.kills k).pc = .grace from he]; simp)
    | killKill k => exact h.setKill _ (by rw [show (w.kills k).pc = .kill from he]; simp)
    | _ => exact ⟨⟨h.timers.le, h.timers.armed⟩, h.underway⟩
  | serve i e =>
    cases e with
    | attachStart | attach => exact ⟨⟨h.timers.le, hstop⟩, h.underway⟩
    | greetFailed | replyFailed | leave => exact ⟨h.timers.clientGone i, h.underway⟩
    | _ => exact ⟨⟨h.timers.le, h.timers.armed⟩, h.underway⟩
  | remote e =>
    rw [Event.fire, e.fire_daemon]
    exact ⟨h.timers, h.underway⟩
  | _ => exact ⟨h.timers, h.underway⟩

end CalledOff

theorem KillInv.calledOff {w : World} {e : Event} (h : KillInv w) (ht : e.IsTakeover)
    (hok : KillsSettled w e) : CalledOff w.cmd.timers (e.fire w) := by
  have hdone : ∀ k t, (w.kills k).origin = .disconnect t → (w.kills k).pc = .finished :=
    fun k t hk => h.takeover hok ht k (by rw [hk]; rfl)
  have harmed : ∀ t ∈ w.cmd.armedAfterStop, w.cmd.timers ≤ t := by simp [h.timers.armedAfterStop]
  unfold Event.IsTakeover at ht
  split at ht
  · exact ⟨⟨le_rfl, harmed⟩, fun k t hk hf => absurd (hdone k t hk) hf⟩
  · exact ⟨⟨le_rfl, harmed⟩, fun k t hk hf => absurd (hdone k t hk) hf⟩
  · exact ⟨⟨le_rfl, harmed⟩, fun k t hk hf => absurd (hdone k t hk) hf⟩
  · exact ht.elim

/-- **Disconnect kills spare attached and kept commands**, in every run in which takeovers happen
only while no disconnect kill is under way: whenever such a kill is about to signal, nobody is
attached and the policy is kill; and after a takeover only kills scheduled later signal. -/
theorem disconnectKill_spares_attached (s : Start) (w : World) (hw : Reaches s KillsSettled w) :
    (∀ k t, w.Signalling k → (w.kills k).origin = .disconnect t →
      w.cmd.current = none ∧ w.cmd.persistence = .kill) ∧
    (∀ e w', e.IsTakeover → e.Enabled w → KillsSettled w e →
      system.Run KillsSettled (e.fire w) w' →
      ∀ k t, w'.Signalling k → (w'.kills k).origin = .disconnect t → w.cmd.timers ≤ t) := by
  have hinv : KillInv w := hw.invariant (KillInv.init s) fun _ _ h he hok => h.step he hok
  have hpc : ∀ {v : World} {k : ℕ}, v.Signalling k → (v.kills k).pc ≠ .finished := by
    rintro v k (hk | hk) <;> simp [hk]
  constructor
  · intro k t hk ho
    exact hinv.underway k (by rw [ho]; rfl) (hpc hk)
  · intro e w' ht _ hok hrun k t hk ho
    have hoff : CalledOff w.cmd.timers w' :=
      hrun.invariant (hinv.calledOff ht hok) fun _ _ h he _ => h.step he
    exact hoff.underway k t ho (hpc hk)

/-- The hypothesis is met by a run in which an abandoned command is about to be terminated. -/
theorem disconnectKill_of_lost_client :
    ∃ w, Reaches (.piped .kill) KillsSettled w ∧ w.Signalling 0 ∧
      w.cmd.current = none ∧ w.cmd.persistence = .kill := by
  have hrun : ∃ w ∈ system.exec KillsSettled (.init (.piped .kill))
      (firstClientLost ++ [.host (.timer 0), .host (.killPeek 0)]),
      (w.kills 0).pc = .term ∧ (w.kills 0).origin = .disconnect 0 := by decide
  obtain ⟨w, hw, hpc, ho⟩ := Machine.exists_run_of_exec _ _ hrun
  exact ⟨w, hw, .inl hpc, (disconnectKill_spares_attached _ w hw).1 0 0 (.inl hpc) ho⟩

/-- A client re-attaches after the timer has fired: the goroutine goes on to signal the command it
is now attached to. -/
theorem reattach_then_killed :
    ∃ w, Reaches (.piped .kill) (fun _ _ => True) w ∧ w.Signalling 0 ∧
      (w.kills 0).origin = .disconnect 0 ∧ w.cmd.current = some 1 := by
  have hrun : ∃ w ∈ system.exec (fun _ _ => True) (.init (.piped .kill))
      (firstClientLost ++ [.host (.timer 0), .host (.killPeek 0), .foreignOpen ⟨0, 0⟩,
        .serve 1 (.lookup ⟨0, 0⟩), .serve 1 (.attach ⟨0, 0⟩)]),
      (w.kills 0).pc = .term ∧ (w.kills 0).origin = .disconnect 0 ∧ w.cmd.current = some 1 := by
    decide
  obtain ⟨w, hw, hpc, ho⟩ := Machine.exists_run_of_exec _ _ hrun
  exact ⟨w, hw, .inl hpc, ho⟩

/-! ### Kept commands -/

/-- `DetachAndKeep` is used only on commands whose rings are not lossless. -/
def KeepsMode (w : World) : Event → Prop
  | .host .detach => ∀ fd, (w.cmd.rings fd).lossless = false
  | _ => True

instance (w : World) (e : Event) : Decidable (KeepsMode w e) := by
  unfold KeepsMode
  split <;> infer_instance

def ModeInv (w : World) : Prop :=
  ∀ fd, (w.cmd.rings fd).lossless = true → w.cmd.persistence = .kill

theorem ModeInv.init (s : Start) : ModeInv (.init s) := by
  intro fd hl
  by_contra hp
  have hp' : s.spec.persistence ≠ .kill := hp
  simp only [World.init, ManagedCommand.register, hp', if_false] at hl
  split_ifs at hl <;> simp [OutputRing.new, OutputRing.close] at hl

theorem ModeInv.step {w : World} {e : Event} (h : ModeInv w) (he : e.Enabled w)
    (hok : KeepsMode w e) : ModeInv (e.fire w) := by
  intro fd hl
  rw [(Event.grows he fd).lossless] at hl
  have hkill := h fd hl
  cases e with
  | host e =>
    cases e with
    | detach => exact absurd ((hok fd).symm.trans hl) (by simp)
    | _ => exact hkill
  | serve i e =>
    cases e with
    | greetFailed | replyFailed | leave => exact (w.cmd.clientGone_persistence i).trans hkill
    | _ => exact hkill
  | remote e =>
    rw [Event.fire, e.fire_daemon]
    exact hkill
  | _ => exact hkill

/-- **A write into a ring of a kept command never waits**, in every run in which `DetachAndKeep`
is used only on commands whose rings are not lossless: it fails at once, on a closed ring, or
accepts everything. -/
theorem keep_write_completes (s : Start) (w : World) (hw : Reaches s KeepsMode w)
    (hk : w.cmd.persistence = .keep) (fd : Fd) (p : List Byte) :
    (w.cmd.rings fd).write p = .failed ∨ ∃ r, (w.cmd.rings fd).write p = .wrote r [] := by
  have hinv : ModeInv w := hw.invariant (ModeInv.init s) fun _ _ h he hok => h.step he hok
  refine OutputRing.write_completes ?_
  by_contra hl
  rw [Bool.not_eq_false] at hl
  exact absurd (hinv fd hl) (by rw [hk]; simp)

/-- The hypotheses are met by a kept command whose client is detached. -/
theorem keep_write_completes_detached :
    ∃ w, Reaches (.piped .keep) KeepsMode w ∧ w.cmd.persistence = .keep ∧ w.cmd.current = none ∧
      ∃ r, (w.cmd.rings .stdout).write [1, 2] = .wrote r [] := by
  have hrun : ∃ w ∈ system.exec KeepsMode (.init (.piped .keep))
      [.serve 0 .attachStart, .serve 0 .greetSent, .host .detach],
      w.cmd.persistence = .keep ∧ w.cmd.current = none ∧
        (w.cmd.rings .stdout).closed = false := by decide
  obtain ⟨w, hw, hk, hc, hopen⟩ := Machine.exists_run_of_exec _ _ hrun
  refine ⟨w, hw, hk, hc, (keep_write_completes _ w hw hk .stdout [1, 2]).resolve_left ?_⟩
  rw [OutputRing.write_eq_failed, hopen]
  simp

/-- A kill-policy command with small rings is converted while its output fills one: afterwards it
is kept, nobody is attached, and its drainer waits for an acknowledgement. -/
theorem kept_but_blocked :
    ∃ s w, Reaches s (fun _ _ => True) w ∧ w.cmd.persistence = .keep ∧ w.cmd.current = none ∧
      w.drain .stdout = .writing [2] ∧ (w.cmd.rings .stdout).write [2] = .blocked := by
  let s : Start := ⟨⟨.kill, fun _ => 1, fun _ => by decide⟩, false, false, true⟩
  have hrun : ∃ w ∈ system.exec (fun _ _ => True) (.init s)
      [.serve 0 .attachStart, .serve 0 .greetSent, .host (.write .stdout [1, 2]),
        .host (.drainRead .stdout 2),
        .host (.drainWrite .stdout [1, 2] ⟨[1], 0, 1, false, true, 0⟩ [2]), .host .detach],
      w.cmd.persistence = .keep ∧ w.cmd.current = none ∧ w.drain .stdout = .writing [2] ∧
        (w.cmd.rings .stdout).write [2] = .blocked := by decide
  obtain ⟨w, hw, hP⟩ := Machine.exists_run_of_exec _ _ hrun
  exact ⟨s, w, hw, hP⟩

end Graft.Command
