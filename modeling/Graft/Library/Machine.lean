import Mathlib.Tactic

/-!
# Guarded-command machines

A concurrent program is described by one state type and one type of events.  An event is an
atomic step of one of the threads (a critical section, a channel operation, a system call) or a
step of the environment (a message arriving, a timer expiring, a transport breaking); it may
happen in the states in which it is enabled, and `fire` gives the state after it.  The
interleavings of the threads are the sequences of enabled events.

* `Machine σ ε`: the states in which an event may happen, and its effect;
* `Run M ok s t`: `t` is reached from `s` by enabled events that all satisfy `ok`, a condition on
  the event and the state before it; `Reachable` is the case without a condition;
* `Run.invariant`, the rule for invariants: what one step keeps holds after every run;
* `record`, a machine with a history variable;
* `exec`, the executable form: replay a given sequence of events.
-/

universe u v

/-- A machine: when an event may happen, and the state after it. -/
structure Machine (σ : Type u) (ε : Type v) where
  enabled : σ → ε → Prop
  fire : σ → ε → σ

namespace Machine

variable {σ : Type u} {ε : Type v}

/-- `t` is reached from `s` by enabled events that all satisfy `ok` in the state they start
from. -/
inductive Run (M : Machine σ ε) (ok : σ → ε → Prop) (s : σ) : σ → Prop
  | refl : Run M ok s s
  | step {t : σ} {e : ε} : Run M ok s t → M.enabled t e → ok t e → Run M ok s (M.fire t e)

def Reachable (M : Machine σ ε) (s t : σ) : Prop := Run M (fun _ _ => True) s t

variable {M : Machine σ ε} {ok ok' : σ → ε → Prop} {s t u : σ}

/-- **The invariant rule.** -/
theorem Run.invariant {I : σ → Prop} (h0 : I s)
    (hstep : ∀ t e, I t → M.enabled t e → ok t e → I (M.fire t e)) (h : Run M ok s t) : I t := by
  induction h with
  | refl => exact h0
  | step _ he hok ih => exact hstep _ _ ih he hok

theorem Run.mono (hok : ∀ t e, ok t e → ok' t e) (h : Run M ok s t) : Run M ok' s t := by
  induction h with
  | refl => exact .refl
  | step _ he h ih => exact ih.step he (hok _ _ h)

theorem Run.trans (h : Run M ok s t) (h' : Run M ok t u) : Run M ok s u := by
  induction h' with
  | refl => exact h
  | step _ he hok ih => exact ih.step he hok

/-- A run of one machine is a run of another one that takes its steps, on states made of the
first's. -/
theorem Run.map {σ' : Type*} {ε' : Type*} {M' : Machine σ' ε'} {ok₁ : σ' → ε' → Prop} (g : σ → σ')
    (f : ε → ε') (hsim : ∀ s e, M.enabled s e → ok s e →
      M'.enabled (g s) (f e) ∧ ok₁ (g s) (f e) ∧ M'.fire (g s) (f e) = g (M.fire s e))
    (h : Run M ok s t) : Run M' ok₁ (g s) (g t) := by
  induction h with
  | refl => exact .refl
  | step _ he hok ih =>
    obtain ⟨he', hok', hfire⟩ := hsim _ _ he hok
    rw [← hfire]
    exact ih.step he' hok'

/-! ### History variables -/

section Record

variable {η : Type*}

/-- The machine with a record of what has happened.  `log` enters an event, given the state before
it. -/
def record (M : Machine σ ε) (log : σ → ε → η → η) : Machine (σ × η) ε where
  enabled s e := M.enabled s.1 e
  fire s e := (M.fire s.1 e, log s.1 e s.2)

end Record

/-! ### Replaying a sequence of events -/

section Exec

variable (M) (ok)
variable [∀ s e, Decidable (M.enabled s e)] [∀ s e, Decidable (ok s e)]

/-- Replay a sequence of events; `none` if one of them is not enabled or violates `ok`. -/
def exec (s : σ) : List ε → Option σ
  | [] => some s
  | e :: es => if M.enabled s e ∧ ok s e then exec (M.fire s e) es else none

theorem run_of_exec {es : List ε} (h : M.exec ok s es = some t) : Run M ok s t := by
  induction es generalizing s with
  | nil => cases h; exact .refl
  | cons e es ih =>
    rw [exec] at h
    split_ifs at h with he
    exact (Run.refl.step he.1 he.2).trans (ih h)

/-- A fact about the state at the end of a replay is a fact about a reached state. -/
theorem exists_run_of_exec {es : List ε} {P : σ → Prop} (h : ∃ t ∈ M.exec ok s es, P t) :
    ∃ t, Run M ok s t ∧ P t := by
  obtain ⟨t, ht, hP⟩ := h
  exact ⟨t, run_of_exec M ok ht, hP⟩

end Exec

end Machine
