import Graft.Library.Machine

/-!
# A flow through two pumps

A writer puts items into a pipe and may close it.  A pump takes them from there to a stream, a
second pump from the stream to another pipe, from which a reader takes them.  Pipes and stream are
bounded, so that each part may have to wait for the next one.  A pump that finds the end of its
input ends; the first one closes the stream then, or somebody else does later.

* `Flow`, the parts and what was sent and received; `Step`, with `Enabled` and `fire`;
* `Sound`: nothing is lost, and a part has ended only if the one before it has;
* `exists_drained`: if the reader goes on reading, everything arrives;
* `exists_ended`: if the writer has closed its pipe, both pumps come to their ends;
* `exists_eof`: then the reader sees the end.
-/

namespace Graft

/-- A bounded buffer, and whether its writing end was closed. -/
structure Pipe (α : Type) where
  items : List α
  closed : Bool
  deriving DecidableEq

/-- Somebody who reads from one buffer and writes to another one. -/
structure Pump (α : Type) where
  /-- what was read and not yet written -/
  pending : List α
  done : Bool
  deriving DecidableEq

structure Flow (α : Type) where
  sent : List α
  source : Pipe α
  first : Pump α
  stream : Pipe α
  second : Pump α
  sink : Pipe α
  received : List α
  /-- the reader has seen the end -/
  eof : Bool
  deriving DecidableEq

/-- How much the buffers take, the first pump's own one included. -/
structure Capacity where
  source : ℕ
  buffer : ℕ
  stream : ℕ
  sink : ℕ

structure Capacity.Positive (cap : Capacity) : Prop where
  buffer : 0 < cap.buffer
  stream : 0 < cap.stream
  sink : 0 < cap.sink

namespace Flow

variable {α : Type}

def init : Flow α := ⟨[], ⟨[], false⟩, ⟨[], false⟩, ⟨[], false⟩, ⟨[], false⟩, ⟨[], false⟩, [], false⟩

def closeStream (f : Flow α) : Flow α := { f with stream := { f.stream with closed := true } }

/-! ### Steps -/

/-- The steps; `n` is how much is moved. -/
inductive Step (α : Type)
  | write (items : List α)
  | close
  | firstRead (n : ℕ)
  | firstWrite (n : ℕ)
  | firstEof
  | secondRead (n : ℕ)
  | secondWrite (n : ℕ)
  | secondEof
  | read (n : ℕ)
  | readEof
  deriving DecidableEq

namespace Step

def Enabled (cap : Capacity) (f : Flow α) : Step α → Prop
  | write items => f.source.closed = false ∧ f.source.items.length + items.length ≤ cap.source
  | close => f.source.closed = false
  | firstRead n => f.first.done = false ∧ f.first.pending = [] ∧ 0 < n ∧
      n ≤ f.source.items.length ∧ n ≤ cap.buffer
  | firstWrite n => 0 < n ∧ n ≤ f.first.pending.length ∧ f.stream.items.length + n ≤ cap.stream
  | firstEof => f.first.done = false ∧ f.first.pending = [] ∧ f.source.items = [] ∧
      f.source.closed = true
  | secondRead n => f.second.done = false ∧ f.second.pending = [] ∧ 0 < n ∧
      n ≤ f.stream.items.length
  | secondWrite n => 0 < n ∧ n ≤ f.second.pending.length ∧ f.sink.items.length + n ≤ cap.sink
  | secondEof => f.second.done = false ∧ f.second.pending = [] ∧ f.stream.items = [] ∧
      f.stream.closed = true
  | read n => 0 < n ∧ n ≤ f.sink.items.length
  | readEof => f.eof = false ∧ f.sink.items = [] ∧ f.sink.closed = true

instance [DecidableEq α] (cap : Capacity) (f : Flow α) (s : Step α) :
    Decidable (s.Enabled cap f) := by
  cases s <;> dsimp only [Enabled] <;> infer_instance

/-- The flow after the step; `closes` says whether the first pump closes the stream. -/
def fire (closes : Bool) (f : Flow α) : Step α → Flow α
  | write items =>
    { f with
      sent := f.sent ++ items
      source := { f.source with items := f.source.items ++ items } }
  | close => { f with source := { f.source with closed := true } }
  | firstRead n =>
    { f with
      source := { f.source with items := f.source.items.drop n }
      first := { f.first with pending := f.source.items.take n } }
  | firstWrite n =>
    { f with
      first := { f.first with pending := f.first.pending.drop n }
      stream := { f.stream with items := f.stream.items ++ f.first.pending.take n } }
  | firstEof =>
    { f with
      first := { f.first with done := true }
      stream := { f.stream with closed := f.stream.closed || closes } }
  | secondRead n =>
    { f with
      stream := { f.stream with items := f.stream.items.drop n }
      second := { f.second with pending := f.stream.items.take n } }
  | secondWrite n =>
    { f with
      second := { f.second with pending := f.second.pending.drop n }
      sink := { f.sink with items := f.sink.items ++ f.second.pending.take n } }
  | secondEof =>
    { f with
      second := { f.second with done := true }
      sink := { f.sink with closed := true } }
  | read n =>
    { f with
      sink := { f.sink with items := f.sink.items.drop n }
      received := f.received ++ f.sink.items.take n }
  | readEof => { f with eof := true }

def Moves : Step α → Prop
  | firstRead _ | firstWrite _ | secondRead _ | secondWrite _ | read _ => True
  | write _ | close | firstEof | secondEof | readEof => False

def Forwards : Step α → Prop
  | write _ | close => False
  | firstRead _ | firstWrite _ | firstEof | secondRead _ | secondWrite _ | secondEof | read _
  | readEof => True

theorem Moves.forwards {s : Step α} (h : s.Moves) : s.Forwards := by
  cases s <;> first | exact h | trivial

end Step

def machine (cap : Capacity) (closes : Bool) : Machine (Flow α) (Step α) where
  enabled := fun f s => s.Enabled cap f
  fire := fun f s => s.fire closes f

/-! ### Nothing is lost -/

/-- Nothing is lost, and a part has ended only if the one before it has. -/
structure Sound (f : Flow α) : Prop where
  conserved : f.received ++ f.sink.items ++ f.second.pending ++ f.stream.items ++
    f.first.pending ++ f.source.items = f.sent
  first : f.first.done = true →
    f.source.closed = true ∧ f.source.items = [] ∧ f.first.pending = []
  stream : f.stream.closed = true → f.first.done = true
  second : f.second.done = true →
    f.stream.closed = true ∧ f.stream.items = [] ∧ f.second.pending = []
  sink : f.sink.closed = f.second.done
  eof : f.eof = true → f.sink.closed = true ∧ f.sink.items = []

variable {f f' : Flow α} {cap : Capacity} {closes : Bool}

theorem take_append_drop_append (n : ℕ) (l r : List α) : l.take n ++ (l.drop n ++ r) = l ++ r := by
  rw [← List.append_assoc, List.take_append_drop]

theorem sound_init : (init : Flow α).Sound :=
  ⟨rfl, nofun, nofun, nofun, rfl, nofun⟩

theorem Sound.closeStream (h : f.Sound) (hdone : f.first.done = true) : f.closeStream.Sound where
  conserved := h.conserved
  first := h.first
  stream _ := hdone
  second hsecond := ⟨rfl, (h.second hsecond).2⟩
  sink := h.sink
  eof := h.eof

theorem Sound.fire (h : f.Sound) {s : Step α} (he : s.Enabled cap f) : (s.fire closes f).Sound := by
  obtain ⟨hconserved, hfirst, hstream, hsecond, hsink, heof⟩ := h
  cases s with
  | write items =>
    obtain ⟨hopen, -⟩ := he
    refine ⟨?_, fun hd => ?_, hstream, hsecond, hsink, heof⟩
    · simp only [Step.fire, ← List.append_assoc, hconserved]
    · exact absurd (hfirst hd).1 (by simp [hopen])
  | close => exact ⟨hconserved, fun hd => ⟨rfl, (hfirst hd).2⟩, hstream, hsecond, hsink, heof⟩
  | firstRead n =>
    obtain ⟨hrunning, hpending, -⟩ := he
    refine ⟨?_, fun hd => absurd hd (by simp [Step.fire, hrunning]), hstream, hsecond, hsink, heof⟩
    rw [hpending, List.append_nil] at hconserved
    simp only [Step.fire, ← hconserved, List.append_assoc, List.take_append_drop]
  | firstWrite n =>
    obtain ⟨hpos, hle, -⟩ := he
    have hrunning : ¬ f.first.done = true := by
      grind
    refine ⟨?_, fun hd => absurd hd hrunning, hstream, fun hd => ?_, hsink, heof⟩
    · simp only [Step.fire, ← hconserved, List.append_assoc, take_append_drop_append]
    · exact absurd (hstream (hsecond hd).1) hrunning
  | firstEof =>
    obtain ⟨-, hpending, hitems, hclosed⟩ := he
    refine ⟨hconserved, fun _ => ⟨hclosed, hitems, hpending⟩, fun _ => rfl, fun hd => ?_, hsink, heof⟩
    obtain ⟨hsc, hrest⟩ := hsecond hd
    exact ⟨by simp [Step.fire, hsc], hrest⟩
  | secondRead n =>
    obtain ⟨hrunning, hpending, -⟩ := he
    refine ⟨?_, hfirst, hstream, fun hd => absurd hd (by simp [Step.fire, hrunning]), hsink, heof⟩
    rw [hpending, List.append_nil] at hconserved
    simp only [Step.fire, ← hconserved, List.append_assoc, take_append_drop_append]
  | secondWrite n =>
    obtain ⟨hpos, hle, -⟩ := he
    have hrunning : ¬ f.second.done = true := by
      grind
    refine ⟨?_, hfirst, hstream, fun hd => absurd hd hrunning, hsink, fun hx => ?_⟩
    · simp only [Step.fire, ← hconserved, List.append_assoc, take_append_drop_append]
    · exact absurd (hsink.symm.trans (heof hx).1) hrunning
  | secondEof =>
    obtain ⟨-, hpending, hitems, hclosed⟩ := he
    exact ⟨hconserved, hfirst, hstream, fun _ => ⟨hclosed, hitems, hpending⟩, rfl,
      fun hx => ⟨rfl, (heof hx).2⟩⟩
  | read n =>
    refine ⟨?_, hfirst, hstream, hsecond, hsink, fun hx => ⟨(heof hx).1, ?_⟩⟩
    · simp only [Step.fire, ← hconserved, List.append_assoc, take_append_drop_append]
    · simp only [Step.fire, (heof hx).2, List.drop_nil]
  | readEof =>
    obtain ⟨-, hitems, hclosed⟩ := he
    exact ⟨hconserved, hfirst, hstream, hsecond, hsink, fun _ => ⟨hclosed, hitems⟩⟩

/-! ### Everything arrives -/

/-- How far the items that are under way have yet to go. -/
def transit (f : Flow α) : ℕ :=
  5 * f.source.items.length + 4 * f.first.pending.length + 3 * f.stream.items.length +
    2 * f.second.pending.length + f.sink.items.length

structure Moved (f f' : Flow α) : Prop where
  sent : f'.sent = f.sent
  source : f'.source.closed = f.source.closed
  first : f'.first.done = f.first.done
  stream : f'.stream.closed = f.stream.closed
  second : f'.second.done = f.second.done
  sink : f'.sink.closed = f.sink.closed
  eof : f'.eof = f.eof

theorem Moved.refl (f : Flow α) : f.Moved f := ⟨rfl, rfl, rfl, rfl, rfl, rfl, rfl⟩

theorem Moved.trans {f'' : Flow α} (h : f.Moved f') (h' : f'.Moved f'') : f.Moved f'' :=
  ⟨h'.sent.trans h.sent, h'.source.trans h.source, h'.first.trans h.first, h'.stream.trans h.stream,
    h'.second.trans h.second, h'.sink.trans h.sink, h'.eof.trans h.eof⟩

theorem Moved.fire (f : Flow α) {s : Step α} (hs : s.Moves) : f.Moved (s.fire closes f) := by
  cases s with
  | firstRead | firstWrite | secondRead | secondWrite | read =>
    exact ⟨rfl, rfl, rfl, rfl, rfl, rfl, rfl⟩
  | write | close | firstEof | secondEof | readEof => cases hs

/-- As long as something is under way, the part that is the farthest on can move it. -/
theorem exists_move (closes : Bool) (hcap : cap.Positive) (h : f.Sound) (htransit : 0 < f.transit) :
    ∃ s : Step α, s.Moves ∧ s.Enabled cap f ∧ (s.fire closes f).transit < f.transit := by
  obtain ⟨hbuffer, hstreamCap, hsinkCap⟩ := hcap
  by_cases hsink : f.sink.items = []
  · by_cases hsecond : f.second.pending = []
    · by_cases hstream : f.stream.items = []
      · by_cases hfirst : f.first.pending = []
        · -- everything is in the source
          have hsource : 0 < f.source.items.length := by
            grind [transit]
          have hrunning : f.first.done = false := by
            grind [Sound.first]
          refine ⟨.firstRead 1, trivial, ⟨hrunning, hfirst, one_pos, hsource, hbuffer⟩, ?_⟩
          simp only [Step.fire, transit, hfirst, List.length_drop, List.length_take, List.length_nil]
          omega
        · have hpos : 0 < f.first.pending.length := List.length_pos_iff.2 hfirst
          refine ⟨.firstWrite 1, trivial, ⟨one_pos, hpos, by simp [hstream]; omega⟩, ?_⟩
          simp only [Step.fire, transit, List.length_append, List.length_drop, List.length_take]
          omega
      · have hpos : 0 < f.stream.items.length := List.length_pos_iff.2 hstream
        have hrunning : f.second.done = false := by
          grind [Sound.second]
        refine ⟨.secondRead 1, trivial, ⟨hrunning, hsecond, one_pos, hpos⟩, ?_⟩
        simp only [Step.fire, transit, hsecond, List.length_drop, List.length_take, List.length_nil]
        omega
    · have hpos : 0 < f.second.pending.length := List.length_pos_iff.2 hsecond
      refine ⟨.secondWrite 1, trivial, ⟨one_pos, hpos, by simp [hsink]; omega⟩, ?_⟩
      simp only [Step.fire, transit, List.length_append, List.length_drop, List.length_take]
      omega
  · have hpos : 0 < f.sink.items.length := List.length_pos_iff.2 hsink
    refine ⟨.read 1, trivial, ⟨one_pos, hpos⟩, ?_⟩
    simp only [Step.fire, transit, List.length_drop]
    omega

/-- **Everything arrives**, by moves alone. -/
theorem exists_drained (closes : Bool) (hcap : cap.Positive) (h : f.Sound) :
    ∃ f', (machine cap closes).Run (fun _ s => s.Moves) f f' ∧ f'.Sound ∧ f.Moved f' ∧
      f'.transit = 0 := by
  -- by induction on how far there is to go
  induction hn : f.transit using Nat.strong_induction_on generalizing f with
  | _ n ih =>
    rcases Nat.eq_zero_or_pos n with hzero | hpos
    · exact ⟨f, .refl, h, .refl f, hn.trans hzero⟩
    · obtain ⟨s, hs, he, hlt⟩ := exists_move closes hcap h (hn ▸ hpos)
      obtain ⟨f', hrun, hsound, hmoved, hdrained⟩ := ih _ (hn ▸ hlt) (h.fire he) rfl
      have hfirst : (machine cap closes).Run (fun _ s => s.Moves) f (s.fire closes f) :=
        Machine.Run.refl.step he hs
      exact ⟨f', hfirst.trans hrun, hsound, (Moved.fire f hs).trans hmoved, hdrained⟩

theorem transit_eq_zero : f.transit = 0 ↔ f.source.items = [] ∧ f.first.pending = [] ∧
    f.stream.items = [] ∧ f.second.pending = [] ∧ f.sink.items = [] := by
  simp only [transit, ← List.length_eq_zero_iff]
  omega

/-- What was received is all that was sent if and only if nothing is under way. -/
theorem Sound.transit_of_received (h : f.Sound) (hreceived : f.received = f.sent) :
    f.transit = 0 := by
  have hlength := congrArg List.length h.conserved
  rw [← hreceived] at hlength
  simp only [List.length_append] at hlength
  simp only [transit]
  omega

/-! ### The end -/

theorem run_step (closes : Bool) {s : Step α} (he : s.Enabled cap f) (hs : s.Forwards) :
    (machine cap closes).Run (fun _ s => s.Forwards) f (s.fire closes f) :=
  Machine.Run.refl.step (e := s) he hs

theorem exists_firstDone (cap : Capacity) (closes : Bool) (h : f.Sound) (htransit : f.transit = 0)
    (hclosed : f.source.closed = true)
    (hhanded : closes = true → f.first.done = true → f.stream.closed = true) :
    ∃ f', (machine cap closes).Run (fun _ s => s.Forwards) f f' ∧ f'.Sound ∧ f'.transit = 0 ∧
      f'.first.done = true ∧ (f.stream.closed = true ∨ closes = true → f'.stream.closed = true) := by
  by_cases hdone : f.first.done = true
  · exact ⟨f, .refl, h, htransit, hdone, fun hx => hx.elim id fun hc => hhanded hc hdone⟩
  · obtain ⟨hsource, hfirst, -⟩ := transit_eq_zero.1 htransit
    have he : (Step.firstEof : Step α).Enabled cap f := ⟨by simpa using hdone, hfirst, hsource, hclosed⟩
    refine ⟨_, run_step closes he trivial, h.fire he, htransit, rfl, fun hx => ?_⟩
    exact Bool.or_eq_true_iff.2 hx

theorem exists_secondDone (cap : Capacity) (closes : Bool) (h : f.Sound) (htransit : f.transit = 0)
    (hclosed : f.stream.closed = true) :
    ∃ f', (machine cap closes).Run (fun _ s => s.Forwards) f f' ∧ f'.Sound ∧ f'.transit = 0 ∧
      f'.second.done = true := by
  by_cases hdone : f.second.done = true
  · exact ⟨f, .refl, h, htransit, hdone⟩
  · obtain ⟨-, -, hstream, hsecond, -⟩ := transit_eq_zero.1 htransit
    have he : (Step.secondEof : Step α).Enabled cap f :=
      ⟨by simpa using hdone, hsecond, hstream, hclosed⟩
    exact ⟨_, run_step closes he trivial, h.fire he, htransit, rfl⟩

theorem exists_eof (cap : Capacity) (closes : Bool) (h : f.Sound) (htransit : f.transit = 0)
    (hdone : f.second.done = true) :
    ∃ f', (machine cap closes).Run (fun _ s => s.Forwards) f f' ∧ f'.eof = true := by
  by_cases heof : f.eof = true
  · exact ⟨f, .refl, heof⟩
  · obtain ⟨-, -, -, -, hsink⟩ := transit_eq_zero.1 htransit
    have he : (Step.readEof : Step α).Enabled cap f :=
      ⟨by simpa using heof, hsink, h.sink.trans hdone⟩
    exact ⟨_, run_step closes he trivial, rfl⟩

/-- **If the writer has closed its pipe, and the first pump closes the stream when it ends, then
both pumps come to their ends**, with everything that was sent received. -/
theorem exists_ended (hcap : cap.Positive) (h : f.Sound) (hclosed : f.source.closed = true)
    (hhanded : f.first.done = true → f.stream.closed = true) :
    ∃ f', (machine cap true).Run (fun _ s => s.Forwards) f f' ∧ f'.Sound ∧ f'.transit = 0 ∧
      f'.second.done = true := by
  obtain ⟨f₁, hrun₁, hsound₁, hmoved, htransit₁⟩ := exists_drained true hcap h
  have hhanded₁ : true = true → f₁.first.done = true → f₁.stream.closed = true := by
    grind [Moved.stream, Moved.first]
  obtain ⟨f₂, hrun₂, hsound₂, htransit₂, -, hstream₂⟩ := exists_firstDone cap true hsound₁ htransit₁
    (hmoved.source.trans hclosed) hhanded₁
  obtain ⟨f₃, hrun₃, hsound₃, htransit₃, hdone₃⟩ :=
    exists_secondDone cap true hsound₂ htransit₂ (hstream₂ (.inr rfl))
  have hforwards := hrun₁.mono fun _ _ hs => hs.forwards
  exact ⟨f₃, (hforwards.trans hrun₂).trans hrun₃, hsound₃, htransit₃, hdone₃⟩

end Flow

end Graft
