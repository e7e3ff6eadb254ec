import Mathlib.Tactic

/-!
# Channels that are closed and replaced

A condition variable made of channels: a thread that has to wait takes the current channel under the
lock and receives from it; whoever changes the state closes the channel, which wakes all that wait,
and puts a new one in its place.  At the end the channel is closed for good.

Channels are numbered in the order they are made.  `closes` is the log of all `close` calls: closing
a channel that is closed already is an error of the program, so the log must not have duplicates.

* `broadcast`, `shut`, and `Ok`, what they keep as long as the current channel is open;
* `Ok.eq_current`: a thread that is not woken waits on the current channel.
-/

/-- The current channel, and the channels that were closed, latest first. -/
structure Signal where
  current : ℕ
  closes : List ℕ
  deriving DecidableEq

namespace Signal

def new : Signal := ⟨0, []⟩

def broadcast (s : Signal) : Signal := ⟨s.current + 1, s.current :: s.closes⟩

def shut (s : Signal) : Signal := ⟨s.current, s.current :: s.closes⟩

def Open (s : Signal) : Prop := s.current ∉ s.closes

/-- No channel was closed twice, and the ones before the current one were closed. -/
structure Ok (s : Signal) : Prop where
  nodup : s.closes.Nodup
  le : ∀ c ∈ s.closes, c ≤ s.current
  earlier : ∀ c < s.current, c ∈ s.closes

variable {s : Signal}

theorem Ok.new : Ok new := ⟨List.nodup_nil, by simp [Signal.new], by simp [Signal.new]⟩

theorem open_new : new.Open := List.not_mem_nil

theorem Ok.broadcast (h : Ok s) (hopen : s.Open) : Ok s.broadcast where
  nodup := List.nodup_cons.2 ⟨hopen, h.nodup⟩
  le := by
    intro c hc
    obtain rfl | hc := List.mem_cons.1 hc
    · exact Nat.le_succ _
    · exact (h.le c hc).trans (Nat.le_succ _)
  earlier := by
    intro c hc
    obtain hlt | rfl := Nat.lt_succ_iff_lt_or_eq.1 hc
    · exact List.mem_cons_of_mem _ (h.earlier c hlt)
    · exact List.mem_cons_self

theorem Ok.open_broadcast (h : Ok s) : s.broadcast.Open := by
  intro hmem
  obtain heq | hmem := List.mem_cons.1 hmem
  · exact absurd heq (Nat.succ_ne_self _)
  · exact absurd (h.le _ hmem) (Nat.not_succ_le_self _)

theorem Ok.shut (h : Ok s) (hopen : s.Open) : Ok s.shut where
  nodup := List.nodup_cons.2 ⟨hopen, h.nodup⟩
  le := by
    intro c hc
    obtain rfl | hc := List.mem_cons.1 hc
    · exact le_rfl
    · exact h.le c hc
  earlier c hc := List.mem_cons_of_mem _ (h.earlier c hc)

/-- A thread that took its channel and is not woken waits on the current one. -/
theorem Ok.eq_current (h : Ok s) {c : ℕ} (hc : c ≤ s.current) (hwait : c ∉ s.closes) :
    c = s.current := by
  by_contra hne
  exact hwait (h.earlier c (lt_of_le_of_ne hc hne))

theorem Ok.mem_broadcast (h : Ok s) {c : ℕ} (hc : c ≤ s.current) : c ∈ s.broadcast.closes := by
  obtain hlt | rfl := Nat.lt_or_eq_of_le hc
  · exact List.mem_cons_of_mem _ (h.earlier c hlt)
  · exact List.mem_cons_self

theorem Ok.mem_shut (h : Ok s) {c : ℕ} (hc : c ≤ s.current) : c ∈ s.shut.closes :=
  h.mem_broadcast hc

end Signal
