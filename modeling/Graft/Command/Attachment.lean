import Graft.Command.System

/-!
# Stolen attachments

A newer attachment, or `DetachAndKeep`, replaces the current one.  The input loop of the old
stream keeps receiving; it checks `currentIs` before every request it would carry out, but not
before a half-close.
-/

namespace Graft.Command

open Function (update_self update_of_ne)

variable {i : ℕ} {e : Serve}

/-- The input loop handles an item that arrived after its attachment was replaced. -/
def InputPc.late : InputPc → Bool
  | .holding _ late | .applying _ late | .eof late | .closing late => late
  | _ => false

/-- The step handles an item that arrived after its stream's attachment was replaced. -/
def Serve.handlesLate : Serve → Bool
  | .inCheck _ late | .inStdin _ late | .inControl _ _ late | .inAck _ late | .inAttach _ late |
    .inPolicy late | .inClose late => late
  | _ => false

/-- A half-close that arrives on a replaced attachment meets a command whose standard input it
cannot close, or that is closed already. -/
def StaleEofHarmless (w : World) : Event → Prop
  | .serve _ (.inPolicy true) =>
    w.cmd.persistence = .keep ∨ w.proc.isPty = true ∨ w.proc.stdinClosed = true
  | _ => True

instance (w : World) (e : Event) : Decidable (StaleEofHarmless w e) := by
  unfold StaleEofHarmless
  split <;> infer_instance

structure StaleInv (w : World) : Prop where
  serving : ∀ i, w.input i ≠ .off → (w.handler i).served = true
  /-- a replaced attachment never becomes current again -/
  replaced : ∀ i, (w.input i).late = true → w.cmd.current ≠ some i
  checked : ∀ i req, w.input i ≠ .applying req true
  closing : ∀ i, w.input i = .closing true → w.proc.isPty = true ∨ w.proc.stdinClosed = true

theorem StaleInv.init (s : Start) : StaleInv (.init s) :=
  ⟨fun _ h => absurd rfl h, by simp [World.init, InputPc.late], by simp [World.init],
    by simp [World.init]⟩

theorem Serve.serving_step {w : World}
    (hs : w.input i ≠ .off → (w.handler i).served = true) (he : e.Enabled w i)
    (hin : (e.fire w i).input i ≠ .off) : ((e.fire w i).handler i).served = true := by
  by_cases hoff : w.input i = .off
  · cases e with
    | greetSent | replySent => simp [Serve.fire, Serve.serveFrom, HandlerPc.served]
    | inRecv | inEof | inErr =>
      exact absurd (hoff.symm.trans he.1) (by simp)
    | inCheck | inStdin | inControl | inAck | inAttach | inPolicy | inClose =>
      exact absurd (hoff.symm.trans he) (by simp)
    | _ => exact absurd hoff hin
  · exact Serve.served_mono he (hs hoff)

theorem Serve.current_step {w : World} {i j : ℕ} (he : e.Enabled w i)
    (hc : (e.fire w i).cmd.current = some j) :
    w.cmd.current = some j ∨ j = i ∧ (w.handler i).served = false := by
  cases e with
  | attachStart | attach =>
    refine .inr ⟨(Option.some.inj hc).symm, ?_⟩
    rw [show w.handler i = _ from he]
    rfl
  | greetFailed | replyFailed | leave =>
    have hc' : (w.cmd.clientGone i).current = some j := hc
    rw [w.cmd.clientGone_current] at hc'
    split_ifs at hc'
    exact .inl hc'
  | _ => exact .inl hc

namespace StaleInv

variable {w : World} (h : StaleInv w)
include h

theorem replaced_self (he : e.Enabled w i)
    (hl : ((e.fire w i).input i).late = true) : (e.fire w i).cmd.current ≠ some i := by
  cases e with
  | inRecv | inEof =>
    have hcur : ¬ w.cmd.currentIs i := by simpa [Serve.fire, InputPc.late] using hl
    exact hcur
  | inCheck req late =>
    simp only [Serve.fire, update_self] at hl
    split_ifs at hl with hcur
    · have hold : (w.input i).late = true := by rw [show w.input i = _ from he]; exact hl
      exact h.replaced i hold
    · exact hcur
  | greetSent | replySent | inErr | inStdin | inControl | inAck | inAttach | inClose =>
    simp [Serve.fire, Serve.serveFrom, InputPc.late] at hl
  | inPolicy late =>
    simp only [Serve.fire, update_self] at hl
    split_ifs at hl with hkill
    · have hold : (w.input i).late = true := by rw [show w.input i = _ from he]; exact hl
      exact h.replaced i hold
    · simp [InputPc.late] at hl
  | _ =>
    intro hcur
    have hold : (w.input i).late = true := hl
    rcases Serve.current_step he hcur with hcur' | ⟨-, hns⟩
    · exact h.replaced i hold hcur'
    · have hoff : w.input i ≠ .off := fun hoff => by simp [hoff, InputPc.late] at hold
      exact absurd (h.serving i hoff) (by simp [hns])

theorem checked_self (he : e.Enabled w i) (req : Req) :
    (e.fire w i).input i ≠ .applying req true := by
  cases e with
  | inCheck req' late =>
    simp only [Serve.fire, update_self]
    split_ifs with hcur
    · rintro ⟨⟩
      have hold : (w.input i).late = true := by rw [show w.input i = _ from he]; rfl
      exact h.replaced i hold hcur
    · simp
  | greetSent | replySent | inRecv | inEof | inErr | inStdin | inControl | inAck | inAttach |
      inClose =>
    simp [Serve.fire, Serve.serveFrom]
  | inPolicy late =>
    simp only [Serve.fire, update_self]
    split_ifs <;> simp
  | _ => exact h.checked i req

theorem closing_self (hok : StaleEofHarmless w (.serve i e))
    (he : e.Enabled w i) (hc : (e.fire w i).input i = .closing true) :
    w.proc.isPty = true ∨ w.proc.stdinClosed = true := by
  cases e with
  | inPolicy late =>
    simp only [Serve.fire, update_self] at hc
    split_ifs at hc with hkill
    cases hc
    rcases hok with hkeep | hok
    · exact absurd (hkill.symm.trans hkeep) (by simp)
    · exact hok
  | greetSent | replySent | inRecv | inEof | inErr | inStdin | inControl | inAck | inAttach |
      inClose =>
    simp [Serve.fire, Serve.serveFrom] at hc
  | inCheck =>
    simp only [Serve.fire, update_self] at hc
    split_ifs at hc
  | _ => exact h.closing i hc

theorem openStream (own : Bool) (o : Offsets) (c : Client) :
    StaleInv { w.openStream own o with client := c } := by
  have hin : ∀ j, (w.openStream own o).input j = if j = w.opened then .off else w.input j :=
    fun j => by simp [World.openStream, Function.update_apply]
  refine ⟨fun j hj => ?_, fun j hj => ?_, fun j req hj => ?_, fun j hj => ?_⟩ <;>
    simp only [hin] at hj <;> split_ifs at hj with hjo
  · exact absurd rfl hj
  · simpa only [World.openStream, update_of_ne hjo] using h.serving j hj
  · simp [InputPc.late] at hj
  · exact h.replaced j hj
  · exact h.checked j req hj
  · exact h.closing j hj

end StaleInv

theorem Serve.stdin_step (w : World) (i : ℕ) (e : Serve)
    (hp : w.proc.isPty = true ∨ w.proc.stdinClosed = true) :
    (e.fire w i).proc.isPty = true ∨ (e.fire w i).proc.stdinClosed = true := by
  cases e with
  | inControl c => cases c <;> exact hp
  | inClose =>
    rcases hp with hp | hp
    · exact .inl hp
    · exact .inr (by simp [Serve.fire, Proc.closeStdin, hp])
  | _ => exact hp

theorem StaleInv.step {w : World} {e : Event} (h : StaleInv w) (he : e.Enabled w)
    (hok : StaleEofHarmless w e) : StaleInv (e.fire w) := by
  cases e with
  | host e =>
    cases e with
    | detach => exact ⟨h.serving, fun _ _ => by simp [Event.fire, Host.fire,
        ManagedCommand.detachAndKeep], h.checked, h.closing⟩
    | _ => exact ⟨h.serving, h.replaced, h.checked, h.closing⟩
  | serve i e =>
    refine ⟨fun j hj => ?_, fun j hj => ?_, fun j req => ?_, fun j hj => ?_⟩ <;>
      by_cases hji : j = i
    · subst hji
      exact Serve.serving_step (h.serving j) he hj
    · rw [Event.fire, e.fire_input_of_ne hji] at hj
      rw [Event.fire, e.fire_handler_of_ne hji]
      exact h.serving j hj
    · subst hji
      exact h.replaced_self he hj
    · rw [Event.fire, e.fire_input_of_ne hji] at hj
      intro hcur
      rcases Serve.current_step he hcur with hcur' | ⟨hji', -⟩
      · exact h.replaced j hj hcur'
      · exact hji hji'
    · subst hji
      exact h.checked_self he req
    · rw [Event.fire, e.fire_input_of_ne hji]
      exact h.checked j req
    · subst hji
      exact Serve.stdin_step w j e (h.closing_self hok he hj)
    · rw [Event.fire, e.fire_input_of_ne hji] at hj
      exact Serve.stdin_step w i e (h.closing j hj)
  | remote e =>
    cases e with
    | connect | reattach => exact h.openStream _ _ _
    | _ => exact ⟨h.serving, h.replaced, h.checked, h.closing⟩
  | foreignOpen => exact h.openStream _ _ _
  | _ => exact ⟨h.serving, h.replaced, h.checked, h.closing⟩

/-- **Replaced attachments are inert**, in every run in which late half-closes are harmless: a
step that handles an item which arrived after its stream's attachment was replaced changes neither
the process (its input, its signals, its window size) nor the command (its rings, with their
release offsets). -/
theorem stale_input_inert (s : Start) (w : World) (hw : Reaches s StaleEofHarmless w) (i : ℕ)
    (e : Serve) (hl : e.handlesLate = true) (he : e.Enabled w i) :
    (e.fire w i).proc = w.proc ∧ (e.fire w i).cmd = w.cmd := by
  have hinv : StaleInv w := hw.invariant (StaleInv.init s) fun _ _ h he hok => h.step he hok
  cases e with
  | inCheck | inPolicy => exact ⟨rfl, rfl⟩
  | inStdin bs late | inControl c call late | inAck o late | inAttach o late =>
    cases (show late = true from hl)
    exact absurd he (hinv.checked i _)
  | inClose late =>
    cases (show late = true from hl)
    refine ⟨?_, rfl⟩
    have hclosed : (w.proc.stdinClosed || !w.proc.isPty) = w.proc.stdinClosed := by
      rcases hinv.closing i he with hp | hp <;> simp [hp]
    simp only [Serve.fire, Proc.closeStdin, hclosed]
  | _ => exact absurd hl (by simp [Serve.handlesLate])

/-- A second client takes the command over from the first. -/
def takenOver : List Event :=
  [.serve 0 .attachStart, .serve 0 .greetSent, .remote .recvStarted, .foreignOpen ⟨0, 0⟩,
    .serve 1 (.lookup ⟨0, 0⟩), .serve 1 (.attach ⟨0, 0⟩)]

/-- The first client half-closes the stream it has lost. -/
def staleHalfClose : List Event :=
  takenOver ++ ([.remote .stdinEof, .remote .stdinMark, .remote .stdinFetch,
    .remote (.stdinClose 0), .serve 0 .inEof] : List Event)

/-- The hypotheses are met by a half-close that arrives late at a kept command. -/
theorem stale_halfClose_of_kept :
    ∃ w, Reaches (.piped .keep) StaleEofHarmless w ∧ Serve.Enabled w 0 (.inPolicy true) ∧
      (Serve.fire w 0 (.inPolicy true)).proc = w.proc ∧
      (Serve.fire w 0 (.inPolicy true)).cmd = w.cmd := by
  have hrun : ∃ w ∈ system.exec StaleEofHarmless (.init (.piped .keep)) staleHalfClose,
      Serve.Enabled w 0 (.inPolicy true) := by decide
  obtain ⟨w, hw, he⟩ := Machine.exists_run_of_exec _ _ hrun
  exact ⟨w, hw, he, stale_input_inert _ w hw 0 _ rfl he⟩

/-- The half-close of a stolen stream closes the standard input of a kill-policy command, which
the second client is using. -/
theorem stale_halfClose_closes_stdin :
    ∃ w, Reaches (.piped .kill) (fun _ _ => True) w ∧ w.cmd.current = some 1 ∧
      Serve.Enabled w 0 (.inClose true) ∧ w.proc.stdinClosed = false ∧
      (Serve.fire w 0 (.inClose true)).proc.stdinClosed = true := by
  have hrun : ∃ w ∈ system.exec (fun _ _ => True) (.init (.piped .kill))
      (staleHalfClose ++ [.serve 0 (.inPolicy true)]),
      w.cmd.current = some 1 ∧ Serve.Enabled w 0 (.inClose true) ∧ w.proc.stdinClosed = false ∧
        (Serve.fire w 0 (.inClose true)).proc.stdinClosed = true := by decide
  obtain ⟨w, hw, hP⟩ := Machine.exists_run_of_exec _ _ hrun
  exact ⟨w, hw, hP⟩

end Graft.Command
