import Graft.Sync.Names

/-!
# Sync sessions (`pkg/connection.go`)

Mutagen's manager keeps the sessions, each under an identifier of its own.  `establishSession` looks
for a session by its name, and resumes it, or creates it, or first terminates one whose
configuration is not the desired one.
-/

namespace Graft.Sync

open Graft.Config (ConnectionConfig)

/-! ### The manager -/

/-- What a session is created with; the modes are those of the remote side. -/
structure SessionSpec where
  name : String
  alpha : String
  beta : String
  ignores : List String
  fileMode : ℕ
  directoryMode : ℕ
  deriving DecidableEq

/-- A session that mutagen has. -/
structure Session extends SessionSpec where
  identifier : ℕ
  paused : Bool
  deriving DecidableEq

/-- The sessions; identifiers from `next` on have not been used. -/
structure Manager where
  sessions : List Session
  next : ℕ
  fresh : ∀ s ∈ sessions, s.identifier < next
  distinct : (sessions.map (·.identifier)).Nodup

namespace Manager

variable {m : Manager} {id : ℕ} {name : String}

def empty : Manager := ⟨[], 0, nofun, List.nodup_nil⟩

/-- `findExistingSessionByName`. -/
def find (m : Manager) (name : String) : Option Session := m.sessions.find? (·.name = name)

def create (m : Manager) (spec : SessionSpec) : Manager where
  sessions := m.sessions ++ [{ spec with identifier := m.next, paused := false }]
  next := m.next + 1
  fresh s hs := by
    rcases List.mem_append.1 hs with hs | hs
    · exact (m.fresh s hs).trans (Nat.lt_succ_self _)
    · rw [List.mem_singleton.1 hs]
      exact Nat.lt_succ_self _
  distinct := by
    rw [List.map_append]
    refine List.Nodup.append m.distinct (List.nodup_singleton _) fun id hid hnew => ?_
    obtain ⟨s, hs, rfl⟩ := List.mem_map.1 hid
    exact (m.fresh s hs).ne (List.mem_singleton.1 hnew)

/-- Pause or resume the session with the given identifier. -/
def setPaused (m : Manager) (id : ℕ) (paused : Bool) : Manager where
  sessions := m.sessions.map fun s => if s.identifier = id then { s with paused := paused } else s
  next := m.next
  fresh s hs := by
    obtain ⟨s', hs', rfl⟩ := List.mem_map.1 hs
    split_ifs
    · exact m.fresh s' hs'
    · exact m.fresh s' hs'
  distinct := by
    have hsame : (m.sessions.map fun s =>
        if s.identifier = id then { s with paused := paused } else s).map (·.identifier) =
        m.sessions.map (·.identifier) := by
      rw [List.map_map]
      refine List.map_congr_left fun s _ => ?_
      simp only [Function.comp_apply]
      split_ifs <;> rfl
    rw [hsame]
    exact m.distinct

def resume (m : Manager) (id : ℕ) : Manager := m.setPaused id false

def pause (m : Manager) (id : ℕ) : Manager := m.setPaused id true

def terminate (m : Manager) (id : ℕ) : Manager where
  sessions := m.sessions.filter (·.identifier ≠ id)
  next := m.next
  fresh s hs := m.fresh s (List.mem_of_mem_filter hs)
  distinct := m.distinct.sublist (List.Sublist.map _ List.filter_sublist)

/-! ### Establishing a session -/

end Manager

/-- `syncSessionConfigStale`. -/
def Session.stale (s : Session) (spec : SessionSpec) : Bool :=
  s.ignores ≠ spec.ignores || s.fileMode ≠ spec.fileMode || s.directoryMode ≠ spec.directoryMode

inductive SessionError
  | lookup
  | notAbsolute (alpha : String)
  | terminate
  | resume
  | create
  deriving DecidableEq

structure SessionOutcomes where
  list : Bool
  terminate : Bool
  resume : Bool
  create : Bool

namespace Manager

variable {m : Manager} {id : ℕ} {o : SessionOutcomes} {spec : SessionSpec}

/-- A new session, if mutagen can create it. -/
def createSession (m : Manager) (o : SessionOutcomes) (spec : SessionSpec) :
    Manager × Except SessionError ℕ :=
  if o.create then (m.create spec, .ok m.next) else (m, .error .create)

/-- The session with the name of the spec is resumed, or a new one created. -/
def establishSession (m : Manager) (o : SessionOutcomes) (spec : SessionSpec) :
    Manager × Except SessionError ℕ :=
  if o.list = false then (m, .error .lookup)
  else if isAbs spec.alpha = false then (m, .error (.notAbsolute spec.alpha))
  else match m.find spec.name with
    | none => m.createSession o spec
    | some s =>
      if s.stale spec then
        if o.terminate then (m.terminate s.identifier).createSession o spec
        else (m, .error .terminate)
      else if s.paused then
        if o.resume then (m.resume s.identifier, .ok s.identifier) else (m, .error .resume)
      else (m, .ok s.identifier)

/-- The manager has a session with this identifier and this name. -/
def Has (m : Manager) (id : ℕ) (name : String) : Prop :=
  ∃ s ∈ m.sessions, s.identifier = id ∧ s.name = name

theorem createSession_spec (h : (m.createSession o spec).2 = .ok id) :
    (m.createSession o spec).1.Has id spec.name := by
  unfold createSession at h ⊢
  split_ifs at h ⊢
  cases h
  exact ⟨_, List.mem_append_right _ (List.mem_singleton_self _), rfl, rfl⟩

theorem Has.setPaused {name : String} (h : m.Has id name) (id' : ℕ) (paused : Bool) :
    (m.setPaused id' paused).Has id name := by
  obtain ⟨s, hs, hid, hname⟩ := h
  refine ⟨_, List.mem_map.2 ⟨s, hs, rfl⟩, ?_⟩
  grind

/-- **The session that is returned is there, under the name that was asked for**, and its source is
absolute. -/
theorem establishSession_spec (h : (m.establishSession o spec).2 = .ok id) :
    isAbs spec.alpha = true ∧ (m.establishSession o spec).1.Has id spec.name := by
  unfold establishSession at h ⊢
  by_cases hlist : o.list = false
  · simp_all
  rw [if_neg hlist] at h ⊢
  by_cases habs : isAbs spec.alpha = false
  · simp_all
  rw [if_neg habs] at h ⊢
  refine ⟨by simpa using habs, ?_⟩
  cases hfind : m.find spec.name with
  | none =>
    rw [hfind] at h
    exact createSession_spec h
  | some s =>
    have hs : m.Has s.identifier spec.name :=
      ⟨s, List.mem_of_find?_eq_some hfind, rfl, by simpa using List.find?_some hfind⟩
    simp only [hfind] at h ⊢
    split_ifs at h ⊢
    · exact createSession_spec h
    · cases h
      exact hs.setPaused _ _
    · cases h
      exact hs

/-- The session with this identifier was made under this name. -/
def Knows (m : Manager) (id : ℕ) (name : String) : Prop :=
  id < m.next ∧ ∀ s ∈ m.sessions, s.identifier = id → s.name = name

theorem Has.knows {name : String} (h : m.Has id name) : m.Knows id name := by
  grind [fresh, List.inj_on_of_nodup_map, distinct, Knows, Has]

theorem knows_create (m : Manager) (spec : SessionSpec) :
    (m.create spec).Knows m.next spec.name :=
  Has.knows ⟨_, List.mem_append_right _ (List.mem_singleton_self _), rfl, rfl⟩

/-! ### What calls of the manager keep -/

/-- The sessions of `m'` are those of `m`, under their names, and perhaps new ones. -/
structure Grows (m m' : Manager) : Prop where
  next : m.next ≤ m'.next
  old : ∀ s' ∈ m'.sessions, s'.identifier < m.next →
    ∃ s ∈ m.sessions, s.identifier = s'.identifier ∧ s.name = s'.name

namespace Grows

variable {m' m'' : Manager} {name : String}

theorem refl (m : Manager) : m.Grows m := ⟨le_rfl, fun s hs _ => ⟨s, hs, rfl, rfl⟩⟩

theorem trans (h : m.Grows m') (h' : m'.Grows m'') : m.Grows m'' := by
  refine ⟨h.next.trans h'.next, fun s'' hs'' hid => ?_⟩
  obtain ⟨s', hs', hid', hname'⟩ := h'.old s'' hs'' (hid.trans_le h.next)
  obtain ⟨s, hs, hid'', hname''⟩ := h.old s' hs' (hid' ▸ hid)
  exact ⟨s, hs, hid''.trans hid', hname''.trans hname'⟩

theorem create (m : Manager) (spec : SessionSpec) : m.Grows (m.create spec) := by
  refine ⟨Nat.le_succ _, fun s hs hid => ?_⟩
  rcases List.mem_append.1 hs with hs | hs
  · exact ⟨s, hs, rfl, rfl⟩
  · simp_all

theorem terminate (m : Manager) (id : ℕ) : m.Grows (m.terminate id) :=
  ⟨le_rfl, fun s hs _ => ⟨s, List.mem_of_mem_filter hs, rfl, rfl⟩⟩

theorem setPaused (m : Manager) (id : ℕ) (paused : Bool) : m.Grows (m.setPaused id paused) := by
  refine ⟨le_rfl, fun s' hs' _ => ?_⟩
  obtain ⟨s, hs, rfl⟩ := List.mem_map.1 hs'
  refine ⟨s, hs, ?_⟩
  split_ifs
  · exact ⟨rfl, rfl⟩
  · exact ⟨rfl, rfl⟩

theorem createSession (m : Manager) (o : SessionOutcomes) (spec : SessionSpec) :
    m.Grows (m.createSession o spec).1 := by
  unfold Manager.createSession
  split_ifs
  · exact .create m spec
  · exact .refl m

theorem establishSession (m : Manager) (o : SessionOutcomes) (spec : SessionSpec) :
    m.Grows (m.establishSession o spec).1 := by
  unfold Manager.establishSession
  cases m.find spec.name with
  | none =>
    dsimp only
    split_ifs
    · exact .refl m
    · exact .refl m
    · exact .createSession m o spec
  | some s =>
    dsimp only
    split_ifs
    · exact .refl m
    · exact .refl m
    · exact (Grows.terminate m _).trans (.createSession _ o spec)
    · exact .refl m
    · exact .setPaused m _ _
    · exact .refl m
    · exact .refl m

theorem foldl {α : Type} {f : Manager → α → Manager}
    (hf : ∀ (m : Manager) (a : α), m.Grows (f m a)) (m : Manager)
    (l : List α) : m.Grows (l.foldl f m) := by
  induction l generalizing m with
  | nil => exact .refl m
  | cons a l ih => exact (hf m a).trans (ih _)

theorem pauses (m : Manager) (ids : List ℕ) : m.Grows (ids.foldl Manager.pause m) :=
  foldl (fun m id => .setPaused m id true) m ids

theorem knows (h : m.Grows m') (hknows : m.Knows id name) : m'.Knows id name := by
  refine ⟨hknows.1.trans_le h.next, fun s' hs' hid => ?_⟩
  grind [old, Knows]

theorem gone (h : m.Grows m') (hid : id < m.next) (hgone : ∀ s ∈ m.sessions, s.identifier ≠ id) :
    ∀ s ∈ m'.sessions, s.identifier ≠ id := by
  grind [old]

end Grows

/-! ### The reaper -/

variable (hash : List Char → String)

/-- The sessions of graft's that the configuration does not imply. -/
def orphans (m : Manager) (pending : List ConnectionConfig) : List Session :=
  m.sessions.filter fun s =>
    isGraftSyncName s.name && s.name ∉ expectedSyncSessionNames hash pending

/-- `reapOrphanSyncs`. -/
def reap (m : Manager) (pending : List ConnectionConfig) : Manager :=
  (m.orphans hash pending).foldl (fun m s => m.terminate s.identifier) m

variable {hash} {pending : List ConnectionConfig}

theorem mem_foldl_terminate {l : List Session} {s : Session} :
    s ∈ (l.foldl (fun m s => m.terminate s.identifier) m).sessions ↔
      s ∈ m.sessions ∧ ∀ x ∈ l, x.identifier ≠ s.identifier := by
  induction l generalizing m with
  | nil => simp
  | cons x l ih =>
    rw [List.foldl_cons, ih, List.forall_mem_cons, terminate, List.mem_filter, and_assoc]
    simp only [decide_eq_true_eq, ne_comm]

/-- **The reaper terminates the sessions of graft's without an expected name**, and no others. -/
theorem mem_reap {s : Session} (h : s ∈ m.sessions) : s ∈ (m.reap hash pending).sessions ↔
    (isGraftSyncName s.name = true → s.name ∈ expectedSyncSessionNames hash pending) := by
  rw [reap, mem_foldl_terminate, and_iff_right h]
  constructor
  · intro hnone hgraft
    by_contra hname
    exact hnone s (List.mem_filter.2 ⟨h, by simp [hgraft, hname]⟩) rfl
  · intro hname x hx hid
    obtain ⟨hmem, horphan⟩ := List.mem_filter.1 hx
    -- identifiers are distinct
    obtain rfl : x = s := List.inj_on_of_nodup_map m.distinct hmem h hid
    simp_all

end Manager

end Graft.Sync
