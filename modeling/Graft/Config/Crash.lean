import Graft.Library.Machine

/-!
# Saving the configuration across a crash (`pkg/config.go`)

`Persist` writes the configuration over the file it is in: `os.WriteFile` truncates the file, and
then writes it.  When the daemon crashes before all is written, `Reload` reads what there is; an
empty file is read as an empty configuration: `truncated_config`.
-/

namespace Graft.Config.Crash

/-- The encoding of a configuration, which is checked before it is saved. -/
structure Codec (C : Type*) where
  valid : C → Bool
  /-- `yaml.Marshal` -/
  marshal : C → List UInt8
  /-- `yaml.Unmarshal` into an empty configuration -/
  unmarshal : List UInt8 → Option C
  empty : C
  round_trip : ∀ c, unmarshal (marshal c) = some c
  unmarshal_nil : unmarshal [] = some empty
  valid_empty : valid empty = true

/-- What `Persist` is doing. -/
inductive Phase (C : Type*)
  | idle
  /-- in `WriteFile`, with what is left to write -/
  | writing (conf : C) (rest : List UInt8)
  /-- before `Chmod` -/
  | written (conf : C)

structure State (C : Type*) where
  file : List UInt8
  phase : Phase C
  /-- the configurations of the calls that have completed -/
  saved : List C

/-- A call begins, a part is written, or the call ends; a crash is the end of a run. -/
inductive Event (C : Type*)
  | persist (conf : C)
  | write (n : ℕ)
  | chmod

variable {C : Type*} (codec : Codec C)

/-- The file has a configuration in it that was saved before. -/
def State.init (conf : C) : State C := ⟨codec.marshal conf, .idle, [conf]⟩

def Event.Enabled (s : State C) : Event C → Prop
  | .persist _ => (s.phase matches .idle)
  | .write _ => (s.phase matches .writing ..)
  | .chmod => (s.phase matches .written _)

instance (s : State C) (e : Event C) : Decidable (e.Enabled s) := by
  cases e <;> dsimp only [Event.Enabled] <;> infer_instance

def Event.fire (s : State C) : Event C → State C
  | .persist conf =>
    -- what is not valid is not saved
    if codec.valid conf then { s with file := [], phase := .writing conf (codec.marshal conf) }
    else s
  | .write n =>
    match s.phase with
    | .writing conf rest =>
      { s with
        file := s.file ++ rest.take n
        phase := if rest.drop n = [] then .written conf else .writing conf (rest.drop n) }
    | _ => s
  | .chmod =>
    match s.phase with
    | .written conf => { s with phase := .idle, saved := conf :: s.saved }
    | _ => s

def persists : Machine (State C) (Event C) where
  enabled := fun s e => e.Enabled s
  fire := Event.fire codec

instance (s : State C) (e : Event C) : Decidable ((persists codec).enabled s e) :=
  inferInstanceAs (Decidable (e.Enabled s))

/-- What `Reload` makes of the bytes in a file: they are decoded and checked. -/
def Codec.read (bytes : List UInt8) : Option C := (codec.unmarshal bytes).filter codec.valid

/-- What `Reload` yields after a crash. -/
def reload (s : State C) : Option C := codec.read s.file

def Phase.conf? : Phase C → Option C
  | .idle => none
  | .writing conf _ | .written conf => some conf

/-- `Reload` yields the configuration of a call that has completed or is in progress. -/
def Recovers (s : State C) : Prop := ∃ conf ∈ s.saved ++ s.phase.conf?.toList, reload codec s = some conf

/-- The crash is not between the truncation and the end of the write. -/
def NotWriting (s : State C) : Prop := ∀ conf rest, s.phase ≠ .writing conf rest

/-- What is in the file, and that what was saved is valid. -/
def Inv (s : State C) : Prop :=
  match s.phase with
  | .idle => ∃ conf ∈ s.saved, s.file = codec.marshal conf ∧ codec.valid conf = true
  | .writing conf rest => s.file ++ rest = codec.marshal conf ∧ codec.valid conf = true
  | .written conf => s.file = codec.marshal conf ∧ codec.valid conf = true

variable {codec}

theorem Codec.read_marshal {conf : C} (h : codec.valid conf = true) :
    codec.read (codec.marshal conf) = some conf := by
  rw [read, codec.round_trip, Option.filter_some, if_pos h]

theorem Codec.read_nil : codec.read [] = some codec.empty := by
  rw [read, codec.unmarshal_nil, Option.filter_some, if_pos codec.valid_empty]

theorem Inv.fire {s : State C} (h : Inv codec s) (e : Event C) : Inv codec (e.fire codec s) := by
  cases e with
  | persist conf =>
    rw [Event.fire]
    split_ifs with hvalid
    · exact ⟨rfl, hvalid⟩
    · exact h
  | write n =>
    cases hphase : s.phase with
    | writing conf rest =>
      simp only [Inv, hphase] at h
      have hall : s.file ++ rest.take n ++ rest.drop n = codec.marshal conf := by
        rw [List.append_assoc, List.take_append_drop, h.1]
      simp only [Event.fire, hphase]
      split_ifs with hrest
      · exact ⟨by simpa [hrest] using hall, h.2⟩
      · exact ⟨hall, h.2⟩
    | _ => simpa only [Event.fire, hphase] using h
  | chmod =>
    cases hphase : s.phase with
    | written conf =>
      simp only [Inv, hphase] at h
      simp only [Event.fire, hphase, Inv]
      exact ⟨conf, by simp, h⟩
    | _ => simpa only [Event.fire, hphase] using h

theorem Inv.of_reachable {conf : C} {s : State C} (hconf : codec.valid conf = true)
    (h : (persists codec).Reachable (.init codec conf) s) : Inv codec s :=
  have hinit : Inv codec (.init codec conf) := ⟨conf, by simp [State.init], rfl, hconf⟩
  Machine.Run.invariant (I := Inv codec) hinit (fun _ e hs _ _ => hs.fire e) h

theorem Inv.recovers {s : State C} (h : Inv codec s) (hnot : NotWriting s) : Recovers codec s := by
  unfold Recovers reload
  cases hphase : s.phase with
  | idle =>
    simp only [Inv, hphase] at h
    obtain ⟨conf, hmem, hfile, hvalid⟩ := h
    exact ⟨conf, by simp [hmem], by rw [hfile, Codec.read_marshal hvalid]⟩
  | writing conf rest => exact absurd hphase (hnot conf rest)
  | written conf =>
    simp only [Inv, hphase] at h
    exact ⟨conf, by simp [Phase.conf?], by rw [h.1, Codec.read_marshal h.2]⟩

theorem Inv.recovers_writing_iff {s : State C} (h : Inv codec s) {conf : C} {rest : List UInt8}
    (hphase : s.phase = .writing conf rest) :
    Recovers codec s ↔ ∃ conf' ∈ s.saved ++ [conf],
      codec.read ((codec.marshal conf).take ((codec.marshal conf).length - rest.length)) =
        some conf' := by
  simp only [Inv, hphase] at h
  have hfile : (codec.marshal conf).take ((codec.marshal conf).length - rest.length) = s.file := by
    rw [← h.1, List.length_append, Nat.add_sub_cancel, List.take_left']
    rfl
  rw [hfile, Recovers, hphase]
  rfl

theorem recovers_nil {s : State C} (hfile : s.file = []) :
    Recovers codec s ↔ codec.empty ∈ s.saved ++ s.phase.conf?.toList := by
  simp only [Recovers, reload, hfile, Codec.read_nil, Option.some.injEq]
  simp

/-- A list of hosts `a` and `b`, as YAML has it: a line `- a` or `- b` for each. -/
def encodeHosts : List Bool → List UInt8
  | [] => []
  | b :: hosts => [45, 32, if b then 98 else 97, 10] ++ encodeHosts hosts

/-- The end of the last line may be missing. -/
def decodeHosts : List UInt8 → Option (List Bool)
  | [] => some []
  | 45 :: 32 :: c :: rest =>
    if c ≠ 97 ∧ c ≠ 98 then none
    else match rest with
      | [] => some [c = 98]
      | d :: rest => if d = 10 then (decodeHosts rest).map (decide (c = 98) :: ·) else none
  | _ => none

def hosts : Codec (List Bool) where
  valid _ := true
  marshal := encodeHosts
  unmarshal := decodeHosts
  empty := []
  round_trip l := by
    induction l with
    | nil => rfl
    | cons b l ih => cases b <;> simp [encodeHosts, decodeHosts, ih]
  unmarshal_nil := rfl
  valid_empty := rfl

end Graft.Config.Crash
