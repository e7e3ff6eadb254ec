import Graft.Sync.Server
import Graft.Library.Table

/-!
# Sessions that nobody knows of (`pkg/connection.go`)

A connection pauses its sessions when it is closed, those in its table of active synchronizations.
`EstablishSynchronization` starts and resumes sessions, and puts them into the table; it holds
`syncMu` and not the mutex of the connection, so that `Close` can come at any time, and it can fail
at any call.

* `State`, one connection with its table, the establishment that is in progress, and the sessions
  that `Close` has yet to pause; `touched` are the sessions that the connection has started or
  resumed;
* `Event`, the steps: a call of mutagen's manager, or a section under the connection's mutex;
  `tracker` is the machine;
* `sessions_tracked`: with no establishment in progress, a running session is in the table, or
  `Close` is about to pause it, if replicas are replaced and pauses succeed (`Kept`);
* `replica_untracked`: the modes change and the replica fails; the former replica runs on, also
  after `Close`.
-/

namespace Graft.Sync

open Graft.Config (SynchronizationIntent)

variable {spec : SessionSpec} {entry : ActiveSync} {ok : Bool}

/-! ### Running sessions -/

/-- The sessions of an entry. -/
def ActiveSync.sessions (entry : ActiveSync) : List ℕ := entry.session :: entry.gitSession.toList

theorem ActiveSync.mem_sessions {id : ℕ} :
    id ∈ entry.sessions ↔ id = entry.session ∨ id ∈ entry.gitSession := by
  simp_all [sessions]

namespace Manager

variable {m m' : Manager} {id id' : ℕ} {name : String}

/-- The session is there, and not paused. -/
def Running (m : Manager) (id : ℕ) : Prop :=
  ∃ s ∈ m.sessions, s.identifier = id ∧ s.paused = false

instance (m : Manager) (id : ℕ) : Decidable (m.Running id) :=
  inferInstanceAs (Decidable (∃ s ∈ m.sessions, _))

/-- The session is there. -/
def Present (m : Manager) (id : ℕ) : Prop := ∃ s ∈ m.sessions, s.identifier = id

theorem Running.present (h : m.Running id) : m.Present id := by
  grind [Present, Running]

/-- No two sessions have the same name. -/
def Unique (m : Manager) : Prop := (m.sessions.map (·.name)).Nodup

/-- Nothing was started or resumed. -/
structure Shrinks (m m' : Manager) : Prop where
  next : m.next = m'.next
  unique : m.Unique → m'.Unique
  old : ∀ s' ∈ m'.sessions, ∃ s ∈ m.sessions, s.identifier = s'.identifier ∧ s.name = s'.name ∧
    (s'.paused = false → s.paused = false)

theorem map_name_setPaused (m : Manager) (id : ℕ) (paused : Bool) :
    (m.setPaused id paused).sessions.map (·.name) = m.sessions.map (·.name) := by
  grind [setPaused, List.map_congr_left]

namespace Shrinks

theorem refl (m : Manager) : m.Shrinks m := ⟨rfl, id, fun s hs => ⟨s, hs, rfl, rfl, id⟩⟩

theorem pause (m : Manager) (id : ℕ) : m.Shrinks (m.pause id) := by
  refine ⟨rfl, fun hunique => ?_, fun s' hs' => ?_⟩
  · rw [Unique, Manager.pause, map_name_setPaused]
    exact hunique
  · obtain ⟨s, hs, rfl⟩ := List.mem_map.1 hs'
    grind

theorem terminate (m : Manager) (id : ℕ) : m.Shrinks (m.terminate id) :=
  ⟨rfl, fun hunique => hunique.sublist (List.Sublist.map _ List.filter_sublist),
    fun s hs => ⟨s, List.mem_of_mem_filter hs, rfl, rfl, fun hp => hp⟩⟩

theorem grows (h : m.Shrinks m') : m.Grows m' := by
  refine ⟨h.next.le, fun s' hs' _ => ?_⟩
  grind [old]

theorem running (h : m.Shrinks m') (hr : m'.Running id) : m.Running id := by
  grind [old, Running]

theorem present (h : m.Shrinks m') (hr : m'.Present id) : m.Present id := by
  grind [old, Present]

end Shrinks

theorem not_running_pause (m : Manager) (id : ℕ) : ¬ (m.pause id).Running id := by
  rintro ⟨s', hs', hid, hp⟩
  obtain ⟨s, hs, rfl⟩ := List.mem_map.1 hs'
  grind

theorem running_resume (h : (m.resume id').Running id) : m.Running id ∨ id = id' := by
  obtain ⟨s', hs', hid, hp⟩ := h
  obtain ⟨s, hs, rfl⟩ := List.mem_map.1 hs'
  grind [Running]

theorem present_resume (h : (m.resume id').Present id) : m.Present id := by
  obtain ⟨s', hs', hid⟩ := h
  obtain ⟨s, hs, rfl⟩ := List.mem_map.1 hs'
  grind [Present]

theorem running_create (h : (m.create spec).Running id) : m.Running id ∨ id = m.next := by
  obtain ⟨s, hs, hid, hp⟩ := h
  rcases List.mem_append.1 hs with hs | hs
  · exact .inl ⟨s, hs, hid, hp⟩
  · rw [List.mem_singleton.1 hs] at hid
    exact .inr hid.symm

/-- A session that was made under a name is the one that is found by it. -/
theorem eq_of_find (hunique : m.Unique) (hknows : m.Knows id name) (hpresent : m.Present id)
    {s : Session} (hfind : m.find name = some s) : id = s.identifier := by
  obtain ⟨x, hx, rfl⟩ := hpresent
  have hname : s.name = name := by simpa using List.find?_some hfind
  have hs : s ∈ m.sessions := List.mem_of_find?_eq_some hfind
  rw [List.inj_on_of_nodup_map hunique hx hs ((hknows.2 x hx rfl).trans hname.symm)]

theorem not_present_of_forall (hknows : m.Knows id name) (hnone : ∀ s ∈ m.sessions, s.name ≠ name) :
    ¬ m.Present id := by
  grind [Present, Knows]

theorem forall_of_find_eq_none (h : m.find name = none) : ∀ s ∈ m.sessions, s.name ≠ name := by
  grind [find]

/-- The session that a name finds was made under it. -/
theorem knows_of_find {s : Session} (h : m.find name = some s) : m.Knows s.identifier name := by
  have hname : s.name = name := by simpa using List.find?_some h
  exact Has.knows ⟨s, List.mem_of_find?_eq_some h, rfl, hname⟩

/-- When a session was terminated, no other has its name. -/
theorem forall_terminate (hunique : m.Unique) (hknows : m.Knows id name) (hpresent : m.Present id) :
    ∀ s ∈ (m.terminate id).sessions, s.name ≠ name := by
  intro s hs hname
  obtain ⟨hmem, hne⟩ := List.mem_filter.1 hs
  obtain ⟨x, hx, rfl⟩ := hpresent
  refine of_decide_eq_true hne ?_
  rw [List.inj_on_of_nodup_map hunique hmem hx (hname.trans (hknows.2 x hx rfl).symm)]

theorem Unique.create (h : m.Unique)
    (hnone : ∀ s ∈ m.sessions, s.name ≠ spec.name) : (m.create spec).Unique := by
  rw [Unique, Manager.create, List.map_append]
  refine List.Nodup.append h (List.nodup_singleton _) fun name hname hnew => ?_
  obtain ⟨s, hs, rfl⟩ := List.mem_map.1 hname
  exact hnone s hs (List.mem_singleton.1 hnew)

end Manager

namespace Tracked

/-! ### Establishments -/

/-- What is being established, and the entry that the source has in the table. -/
structure Task where
  intent : SynchronizationIntent
  existing : Option ActiveSync
  deriving DecidableEq

/-- The replica that is to be replaced, or not wanted any more. -/
def Task.replica (task : Task) : List ℕ := (task.existing.bind (·.gitSession)).toList

/-- Where the establishment is. -/
inductive Pc
  | idle
  /-- before `findExistingSessionByName` -/
  | looking (task : Task) (stage : Stage) (spec : SessionSpec)
  /-- a session with a stale configuration was found -/
  | terminating (task : Task) (stage : Stage) (spec : SessionSpec) (id : ℕ)
  /-- a paused one was found -/
  | resuming (task : Task) (stage : Stage) (spec : SessionSpec) (id : ℕ)
  | creating (task : Task) (stage : Stage) (spec : SessionSpec)
  /-- before a replica is paused that is not wanted any more -/
  | dropping (task : Task) (entry : ActiveSync) (more : Bool)
  /-- before `recordSync`; a replica may follow -/
  | recording (task : Task) (entry : ActiveSync) (more : Bool)
  /-- before `establishGitReplica` -/
  | replicating (task : Task) (entry : ActiveSync)
  /-- in `recordSync`, which has found the connection closed -/
  | pausing (ids : List ℕ)
  deriving DecidableEq

/-- The replica is not in the table while a new one is established. -/
def Stage.holds (task : Task) : Stage → List ℕ
  | .primary => []
  | .replica _ => task.replica

/-- The sessions that only the establishment knows of. -/
def Pc.holds : Pc → List ℕ
  | idle => []
  | looking task stage _ | terminating task stage _ _ | resuming task stage _ _
  | creating task stage _ => Stage.holds task stage
  | dropping _ entry _ | recording _ entry _ => entry.sessions
  | replicating task _ => task.replica
  | pausing ids => ids

/-- The establishment is at a call that may fail. -/
def Pc.calls : Pc → Bool
  | looking .. | terminating .. | resuming .. | creating .. | replicating .. => true
  | idle | dropping .. | recording .. | pausing _ => false

/-! ### The state -/

/-- A connection and its sessions. -/
structure State where
  conn : Connection
  manager : Manager
  pc : Pc
  /-- the sessions that `Close` has yet to pause -/
  closing : List ℕ
  /-- the sessions that were started or resumed -/
  touched : List ℕ

/-- A connection, with the sessions of former runs. -/
def State.init (name localRoot : String) (manager : Manager) : State :=
  ⟨⟨name, localRoot, ∅, false⟩, manager, .idle, [], []⟩

namespace State

variable (w : State)

def setPc (pc : Pc) : State := { w with pc := pc }

/-- A session was started or resumed. -/
def touch (manager : Manager) (id : ℕ) : State :=
  { w with manager := manager, touched := id :: w.touched }

/-- A session was established: what follows. -/
def established (task : Task) (id : ℕ) : Stage → State
  | .primary => w.setPc (.dropping task (.ofIntent task.intent id) task.intent.syncGit)
  | .replica entry =>
    w.setPc (.recording task { entry with syncGit := true, gitSession := some id } false)

/-- The session is paused, if that succeeds. -/
def pause (id : ℕ) (ok : Bool) : State :=
  if ok then { w with manager := w.manager.pause id } else w

end State

/-- The steps. -/
inductive Event
  /-- `EstablishSynchronization` takes `syncMu`, and comes to its first call; `out` is what the
  remote shell gives back -/
  | begin (intent : SynchronizationIntent) (out : String) (ignores : List String)
  | lookUp (task : Task) (stage : Stage) (spec : SessionSpec)
  | terminate (task : Task) (stage : Stage) (spec : SessionSpec) (id : ℕ)
  | resume (task : Task) (stage : Stage) (spec : SessionSpec) (id : ℕ)
  | create (task : Task) (stage : Stage) (spec : SessionSpec)
  | drop (task : Task) (entry : ActiveSync) (more ok : Bool)
  | record (task : Task) (entry : ActiveSync) (more : Bool)
  /-- the source has a directory `.git`, or not -/
  | replicate (task : Task) (entry : ActiveSync) (gitDir : Bool)
  | pauseNext (id : ℕ) (ids : List ℕ) (ok : Bool)
  /-- a call fails -/
  | fail
  /-- `Close` takes the table -/
  | close
  /-- `Close` pauses a session -/
  | closePause (id : ℕ) (ok : Bool)
  /-- the reaper terminates a session -/
  | reap (id : ℕ)
  /-- `SetRoots`, with no active synchronization -/
  | setRoots (localRoot : String)

section Steps

variable (hash : List Char → String)

namespace Event

def Enabled (w : State) : Event → Prop
  | begin .. => w.pc = .idle
  | lookUp task stage spec => w.pc = .looking task stage spec
  | terminate task stage spec id => w.pc = .terminating task stage spec id
  | resume task stage spec id => w.pc = .resuming task stage spec id
  | create task stage spec => w.pc = .creating task stage spec
  | drop task entry more _ => w.pc = .dropping task entry more
  | record task entry more => w.pc = .recording task entry more
  | replicate task entry _ => w.pc = .replicating task entry
  | pauseNext id ids _ => w.pc = .pausing (id :: ids)
  | fail => w.pc.calls = true
  | closePause id _ => id ∈ w.closing
  | setRoots _ => w.pc = .idle ∧ w.conn.synchronizations.entries = []
  | close | reap _ => True

instance (w : State) (e : Event) : Decidable (e.Enabled w) := by
  cases e <;> dsimp only [Enabled] <;> infer_instance

def fire (w : State) : Event → State
  | begin intent out ignores =>
    match plan w.conn intent with
    | .error _ | .ok .noop => w
    | .ok (.resolve intent) =>
      match action w.conn intent (trimSpace out) with
      | .error _ | .ok .noop => w
      | .ok (.flip intent existing) =>
        w.setPc (if intent.syncGit then .replicating ⟨intent, some existing⟩ existing
          else .dropping ⟨intent, some existing⟩ { existing with gitSession := none, syncGit := false }
            false)
      | .ok (.establish intent) =>
        match syncBetaConfiguration intent with
        | .error _ => w
        | .ok (fileMode, directoryMode) =>
          w.setPc (.looking ⟨intent, w.conn.synchronizations.lookup intent.fromLocal⟩ .primary
            ⟨syncSessionName hash w.conn.name intent, intent.fromLocal, intent.toRemote, ignores,
              fileMode, directoryMode⟩)
  | lookUp task stage spec =>
    if isAbs spec.alpha = false then w.setPc .idle
    else match w.manager.find spec.name with
      | none => w.setPc (.creating task stage spec)
      | some s =>
        if s.stale spec then w.setPc (.terminating task stage spec s.identifier)
        else if s.paused then w.setPc (.resuming task stage spec s.identifier)
        else w.established task s.identifier stage
  | terminate task stage spec id =>
    if w.manager.has id then
      { w with manager := w.manager.terminate id, pc := .creating task stage spec }
    else w.setPc .idle
  | resume task stage _ id =>
    if w.manager.has id then (w.touch (w.manager.resume id) id).established task id stage
    else w.setPc .idle
  | create task stage spec =>
    (w.touch (w.manager.create spec) w.manager.next).established task w.manager.next stage
  | drop task entry more ok =>
    let w := match task.existing.bind (·.gitSession) with
      | some id => if task.intent.syncGit then w else w.pause id ok
      | none => w
    w.setPc (.recording task entry more)
  | record task entry more =>
    if w.conn.closed then w.setPc (.pausing entry.sessions)
    else
      { w with
        conn := w.conn.setSync task.intent.fromLocal entry
        pc := if more then .replicating task entry else .idle }
  | replicate task entry gitDir =>
    if gitDir = false then
      w.setPc (.recording task { entry with syncGit := true, gitSession := none } false)
    else match gitReplicaBetaConfiguration task.intent with
      | .error _ => w.setPc .idle
      | .ok (fileMode, directoryMode) =>
        let git := gitReplicaIntent task.intent
        w.setPc (.looking task (.replica entry) ⟨syncSessionName hash w.conn.name git,
          git.fromLocal, git.toRemote, gitReplicaIgnores, fileMode, directoryMode⟩)
  | pauseNext id ids ok => (w.pause id ok).setPc (if ids = [] then .idle else .pausing ids)
  | fail => w.setPc .idle
  | close =>
    { w with
      conn := w.conn.close
      closing := w.closing ++ w.conn.synchronizations.entries.flatMap (·.2.sessions) }
  | closePause id ok => { w.pause id ok with closing := w.closing.erase id }
  | reap id => { w with manager := w.manager.terminate id }
  | setRoots localRoot => { w with conn := { w.conn with localRoot := localRoot } }

end Event

/-- A connection as a machine. -/
def tracker : Machine State Event := ⟨Event.Enabled, Event.fire hash⟩

instance (w : State) (e : Event) : Decidable ((tracker hash).enabled w e) :=
  inferInstanceAs (Decidable (e.Enabled w))

/-- The session is in the table. -/
def State.InTable (w : State) (id : ℕ) : Prop :=
  ∃ e ∈ w.conn.synchronizations.entries, id ∈ e.2.sessions

instance (w : State) (id : ℕ) : Decidable (w.InTable id) :=
  inferInstanceAs (Decidable (∃ e ∈ _, _))

/-- No session is running that only the establishment knows of. -/
def State.Free (w : State) : Prop := ∀ id ∈ w.pc.holds, ¬ w.manager.Running id

instance (w : State) : Decidable w.Free := inferInstanceAs (Decidable (∀ id ∈ _, _))

/-- An establishment is given up, or goes without a replica, only when the replica that it was to
replace is not running; and what is to be paused is paused, unless it is not running. -/
def Kept (w : State) (e : Event) : Prop :=
  match e with
  | .drop task _ _ ok => ok = true ∨ ∀ id ∈ task.replica, ¬ w.manager.Running id
  | .pauseNext id _ ok | .closePause id ok => ok = true ∨ ¬ w.manager.Running id
  | .replicate _ _ false => w.Free
  | .lookUp .. | .terminate .. | .resume .. | .replicate .. | .fail =>
    (e.fire hash w).pc = .idle → w.Free
  | _ => True

instance (w : State) (e : Event) : Decidable (Kept hash w e) := by
  unfold Kept
  split <;> infer_instance

end Steps

/-! ### The invariant -/

section Invariant

variable (hash : List Char → String)

/-- The name of a session depends on the connection and the paths only. -/
def sessionName (connName source destination : String) : String :=
  syncSessionName hash connName ⟨source, destination, false, [], "", ""⟩

def gitSessionName (connName source destination : String) : String :=
  syncSessionName hash connName (gitReplicaIntent ⟨source, destination, false, [], "", ""⟩)

/-- The sessions of an entry were made under the names of its source and destination. -/
structure Named (connName : String) (m : Manager) (source : String) (entry : ActiveSync) : Prop where
  session : m.Knows entry.session (sessionName hash connName source entry.destination)
  git : ∀ id ∈ entry.gitSession, m.Knows id (gitSessionName hash connName source entry.destination)

/-- The session that is looked for, and the one that the entry in the table has in its place. -/
def Stage.name (connName : String) (intent : SynchronizationIntent) : Stage → String
  | .primary => sessionName hash connName intent.fromLocal intent.toRemote
  | .replica _ => gitSessionName hash connName intent.fromLocal intent.toRemote

def Stage.olds (task : Task) : Stage → List ℕ
  | .primary => (task.existing.map (·.session)).toList
  | .replica _ => task.replica

/-- The former sessions of a task have the names of its intent. -/
structure TaskOk (w : State) (task : Task) : Prop where
  destination : ∀ existing ∈ task.existing, existing.destination = task.intent.toRemote
  named : ∀ existing ∈ task.existing,
    Named hash w.conn.name w.manager task.intent.fromLocal existing

/-- Until the session is recorded the table has the former entry, and until the replica is recorded
it has the entry without. -/
structure StageOk (w : State) (task : Task) (stage : Stage) : Prop extends TaskOk hash w task where
  table : w.conn.closed = false → w.conn.synchronizations.lookup task.intent.fromLocal =
    match stage with
    | .primary => task.existing
    | .replica entry => some entry
  entry : ∀ entry, stage = .replica entry → entry.destination = task.intent.toRemote ∧
    Named hash w.conn.name w.manager task.intent.fromLocal entry ∧
    ∀ id ∈ entry.gitSession, id ∈ task.replica

/-- What the table forgets when the entry is recorded is not running, or a replica that is to be
replaced. -/
def Replaces (w : State) (task : Task) (entry : ActiveSync) (more : Bool) : Prop :=
  w.conn.closed = false → ∀ old ∈ w.conn.synchronizations.lookup task.intent.fromLocal,
    ∀ id ∈ old.sessions, w.manager.Running id →
      id ∈ entry.sessions ∨ more = true ∧ id ∈ task.replica

/-- What the establishment knows. -/
def PcOk (w : State) : Pc → Prop
  | .idle | .pausing _ => True
  | .looking task stage spec =>
    StageOk hash w task stage ∧ spec.name = Stage.name hash w.conn.name task.intent stage
  | .terminating task stage spec id | .resuming task stage spec id =>
    StageOk hash w task stage ∧ spec.name = Stage.name hash w.conn.name task.intent stage ∧
      w.manager.Knows id spec.name ∧
      ∀ old ∈ Stage.olds task stage, w.manager.Present old → old = id
  | .creating task stage spec =>
    StageOk hash w task stage ∧ spec.name = Stage.name hash w.conn.name task.intent stage ∧
      ∀ s ∈ w.manager.sessions, s.name ≠ spec.name
  | .dropping task entry more =>
    StageOk hash w task .primary ∧ entry.destination = task.intent.toRemote ∧
      Named hash w.conn.name w.manager task.intent.fromLocal entry ∧
      entry.gitSession = none ∧ more = task.intent.syncGit ∧
      ∀ existing ∈ task.existing, w.manager.Present existing.session →
        existing.session = entry.session
  | .recording task entry more =>
    TaskOk hash w task ∧ entry.destination = task.intent.toRemote ∧
      Named hash w.conn.name w.manager task.intent.fromLocal entry ∧
      (more = true → entry.gitSession = none) ∧ Replaces w task entry more
  | .replicating task entry => StageOk hash w task (.replica entry)

/-- Every session that was started or resumed and is running is in the table, or `Close` is to pause
it, or the establishment knows of it. -/
structure Inv (w : State) : Prop where
  unique : w.manager.Unique
  closed : w.conn.closed = true → w.conn.synchronizations = ∅
  named : ∀ source, ∀ entry ∈ w.conn.synchronizations.lookup source,
    Named hash w.conn.name w.manager source entry
  pc : PcOk hash w w.pc
  known : ∀ id ∈ w.touched, w.manager.Running id →
    w.InTable id ∨ id ∈ w.closing ∨ id ∈ w.pc.holds

end Invariant

section Steps

variable {hash : List Char → String} {w w' : State} {task : Task} {stage : Stage} {entry : ActiveSync}

theorem Named.grows {connName source : String} {m m' : Manager}
    (h : Named hash connName m source entry) (hm : m.Grows m') :
    Named hash connName m' source entry :=
  ⟨hm.knows h.session, fun id hid => hm.knows (h.git id hid)⟩

theorem TaskOk.mono (h : TaskOk hash w task) (hname : w'.conn.name = w.conn.name)
    (hm : w.manager.Grows w'.manager) : TaskOk hash w' task where
  destination := h.destination
  named existing hx := by
    rw [hname]
    exact (h.named existing hx).grows hm

theorem StageOk.mono (h : StageOk hash w task stage) (hname : w'.conn.name = w.conn.name)
    (hm : w.manager.Grows w'.manager)
    (hconn : w'.conn.closed = false → w.conn.closed = false ∧
      w'.conn.synchronizations = w.conn.synchronizations) : StageOk hash w' task stage where
  toTaskOk := h.toTaskOk.mono hname hm
  table hclosed := by
    grind [table]
  entry entry he := by
    obtain ⟨hdest, hnamed, hgit⟩ := h.entry entry he
    grind [Named.grows]

/-- What the establishment knows stays true when others pause or terminate sessions, and when the
connection is closed. -/
theorem PcOk.mono {pc : Pc} (h : PcOk hash w pc) (hname : w'.conn.name = w.conn.name)
    (hm : w.manager.Shrinks w'.manager)
    (hconn : w'.conn.closed = false → w.conn.closed = false ∧
      w'.conn.synchronizations = w.conn.synchronizations) : PcOk hash w' pc := by
  cases pc with
  | idle | pausing => trivial
  | looking task stage spec =>
    obtain ⟨hstage, hspec⟩ := h
    exact ⟨hstage.mono hname hm.grows hconn, by rw [hname]; exact hspec⟩
  | terminating task stage spec id | resuming task stage spec id =>
    obtain ⟨hstage, hspec, hknows, hold⟩ := h
    exact ⟨hstage.mono hname hm.grows hconn, by rw [hname]; exact hspec, hm.grows.knows hknows,
      fun old ho hpresent => hold old ho (hm.present hpresent)⟩
  | creating task stage spec =>
    obtain ⟨hstage, hspec, hnone⟩ := h
    refine ⟨hstage.mono hname hm.grows hconn, by rw [hname]; exact hspec, fun s' hs' => ?_⟩
    obtain ⟨s, hs, -, hsname, -⟩ := hm.old s' hs'
    rw [← hsname]
    exact hnone s hs
  | dropping task entry more =>
    obtain ⟨hstage, hdest, hnamed, hgit, hmore, hold⟩ := h
    refine ⟨hstage.mono hname hm.grows hconn, hdest, ?_, hgit, hmore, fun existing hx hpresent =>
      hold existing hx (hm.present hpresent)⟩
    rw [hname]
    exact hnamed.grows hm.grows
  | recording task entry more =>
    obtain ⟨htask, hdest, hnamed, hmore, hreplaces⟩ := h
    refine ⟨htask.mono hname hm.grows, hdest, ?_, hmore, fun hclosed old ho id hid hrunning => ?_⟩
    · rw [hname]
      exact hnamed.grows hm.grows
    · obtain ⟨hopen, hsame⟩ := hconn hclosed
      rw [hsame] at ho
      exact hreplaces hopen old ho id hid (hm.running hrunning)
  | replicating task entry => exact StageOk.mono h hname hm.grows hconn

end Steps

/-! ### The steps of an establishment -/

section Establishment

variable {hash : List Char → String} {w : State} {task : Task} {stage : Stage} {id : ℕ}

theorem inTable_iff : w.InTable id ↔
    ∃ source entry, w.conn.synchronizations.lookup source = some entry ∧ id ∈ entry.sessions := by
  constructor
  · rintro ⟨⟨source, entry⟩, he, hid⟩
    exact ⟨source, entry, AList.mem_lookup_iff.2 he, hid⟩
  · rintro ⟨source, entry, he, hid⟩
    exact ⟨⟨source, entry⟩, AList.mem_lookup_iff.1 he, hid⟩

theorem mem_replica : id ∈ task.replica ↔ ∃ existing ∈ task.existing, id ∈ existing.gitSession := by
  rw [Task.replica, Option.mem_toList]
  exact Option.mem_bind_iff

theorem StageOk.knows_old (h : StageOk hash w task stage) (hid : id ∈ Stage.olds task stage) :
    w.manager.Knows id (Stage.name hash w.conn.name task.intent stage) := by
  cases stage with
  | primary =>
    obtain ⟨existing, hx, rfl⟩ := Option.mem_map.1 (Option.mem_toList.1 hid)
    have hknows := (h.named existing hx).session
    rw [h.destination existing hx] at hknows
    exact hknows
  | replica entry =>
    obtain ⟨existing, hx, hgit⟩ := mem_replica.1 hid
    have hknows := (h.named existing hx).git id hgit
    rw [h.destination existing hx] at hknows
    exact hknows

/-- The establishment moves on; what it knew of it still knows, or it is not running. -/
theorem Inv.setPc (h : Inv hash w) {pc : Pc} (hpc : PcOk hash w pc)
    (hknown : ∀ id ∈ w.pc.holds, w.manager.Running id → id ∈ pc.holds) :
    Inv hash (w.setPc pc) where
  unique := h.unique
  closed := h.closed
  named := h.named
  pc := hpc.mono rfl (.refl _) fun hopen => ⟨hopen, rfl⟩
  known id hid hrunning := by
    rcases h.known id hid hrunning with htable | hclosing | hholds
    · exact .inl htable
    · exact .inr (.inl hclosing)
    grind [State.setPc]

theorem Inv.idle (h : Inv hash w) (hfree : w.Free) : Inv hash (w.setPc .idle) :=
  h.setPc trivial fun id hid hrunning => absurd hrunning (hfree id hid)

theorem Inv.begin (h : Inv hash w) (hidle : w.pc = .idle) (intent : SynchronizationIntent)
    (out : String) (ignores : List String) :
    Inv hash ((Event.begin intent out ignores).fire hash w) := by
  have hholds : w.pc.holds = [] := by rw [hidle]; rfl
  have hmove : ∀ {pc}, PcOk hash w pc → Inv hash (w.setPc pc) := fun hpc =>
    h.setPc hpc fun id hid => absurd (hholds ▸ hid) List.not_mem_nil
  dsimp only [Event.fire]
  cases plan w.conn intent with
  | error err => exact h
  | ok p =>
    cases p with
    | noop => exact h
    | resolve intent₁ =>
      dsimp only
      cases haction : action w.conn intent₁ (trimSpace out) with
      | error err => exact h
      | ok a =>
        obtain ⟨hdests, rfl | ⟨existing, hlookup, rfl⟩ | rfl⟩ := action_cases haction
        · exact h
        · have hdest := hdests existing hlookup
          have hnamed := h.named _ existing hlookup
          have htask : TaskOk hash w ⟨{ intent₁ with toRemote := trimSpace out }, some existing⟩ := by
            refine ⟨?_, ?_⟩
            · simp_all
            · simp_all
          refine hmove ?_
          split_ifs with hgit
          · refine ⟨htask, fun _ => hlookup, ?_⟩
            grind [mem_replica]
          · refine ⟨⟨htask, fun _ => hlookup, nofun⟩, hdest, ⟨hnamed.session, nofun⟩, rfl,
              (Bool.eq_false_iff.2 hgit).symm, ?_⟩
            rintro _ ⟨⟩ -
            rfl
        · dsimp only
          cases syncBetaConfiguration { intent₁ with toRemote := trimSpace out } with
          | error err => exact h
          | ok modes =>
            exact hmove ⟨⟨⟨hdests, fun existing hx => h.named _ existing hx⟩, fun _ => rfl, nofun⟩, rfl⟩

theorem Inv.established (hunique : w.manager.Unique)
    (hclosed : w.conn.closed = true → w.conn.synchronizations = ∅)
    (hnamed : ∀ source, ∀ entry ∈ w.conn.synchronizations.lookup source,
      Named hash w.conn.name w.manager source entry)
    (hstage : StageOk hash w task stage)
    (hid : w.manager.Knows id (Stage.name hash w.conn.name task.intent stage))
    (holds : ∀ old ∈ Stage.olds task stage, w.manager.Present old → old = id)
    (hknown : ∀ x ∈ w.touched, w.manager.Running x →
      w.InTable x ∨ x ∈ w.closing ∨ x = id ∨ x ∈ Stage.holds task stage) :
    Inv hash (w.established task id stage) := by
  cases stage with
  | primary =>
    have hpc : PcOk hash w (.dropping task (.ofIntent task.intent id) task.intent.syncGit) :=
      ⟨hstage, rfl, ⟨hid, nofun⟩, rfl, rfl, fun existing hx hpresent =>
        holds _ (Option.mem_toList.2 (Option.mem_map_of_mem _ hx)) hpresent⟩
    refine ⟨hunique, hclosed, hnamed, hpc.mono rfl (.refl _) fun hopen => ⟨hopen, rfl⟩,
      fun x hx hrunning => ?_⟩
    rcases hknown x hx hrunning with htable | hclosing | rfl | hnone
    · exact .inl htable
    · exact .inr (.inl hclosing)
    · exact .inr (.inr (List.mem_cons_self ..))
    · exact absurd hnone List.not_mem_nil
  | replica entry =>
    obtain ⟨hdest, hentry, hgit⟩ := hstage.entry entry rfl
    have hpc : PcOk hash w
        (.recording task { entry with syncGit := true, gitSession := some id } false) := by
      refine ⟨hstage.toTaskOk, hdest, ⟨hentry.session, ?_⟩, nofun, fun hopen old ho x hx hrunning => ?_⟩
      · rintro _ ⟨⟩
        rw [hdest]
        exact hid
      · -- the table has the entry without the new replica
        rw [hstage.table hopen] at ho
        obtain rfl := Option.some.inj ho
        rcases ActiveSync.mem_sessions.1 hx with rfl | hx
        · exact .inl (List.mem_cons_self ..)
        · rw [holds x (hgit x hx) hrunning.present]
          exact .inl (List.mem_cons_of_mem _ (List.mem_singleton_self _))
    refine ⟨hunique, hclosed, hnamed, hpc.mono rfl (.refl _) fun hopen => ⟨hopen, rfl⟩,
      fun x hx hrunning => ?_⟩
    have hmem : id ∈ Pc.holds
        (.recording task { entry with syncGit := true, gitSession := some id } false) :=
      List.mem_cons_of_mem _ (List.mem_singleton_self _)
    rcases hknown x hx hrunning with htable | hclosing | rfl | hold
    · exact .inl htable
    · exact .inr (.inl hclosing)
    · exact .inr (.inr hmem)
    · rw [holds x hold hrunning.present]
      exact .inr (.inr hmem)

/-- While a session is looked up or started, what is held is that of the stage. -/
theorem Inv.known_holds (h : Inv hash w) (hholds : w.pc.holds = Stage.holds task stage) (x : ℕ)
    (hx : x ∈ w.touched) (hrunning : w.manager.Running x) :
    w.InTable x ∨ x ∈ w.closing ∨ x ∈ Stage.holds task stage := by
  grind [known]

theorem Inv.lookUp (h : Inv hash w) (he : w.pc = .looking task stage spec)
    (hok : Kept hash w (.lookUp task stage spec)) :
    Inv hash ((Event.lookUp task stage spec).fire hash w) := by
  have hpc : PcOk hash w (.looking task stage spec) := he ▸ h.pc
  obtain ⟨hstage, hspec⟩ := hpc
  have hholds : w.pc.holds = Stage.holds task stage := by rw [he]; rfl
  have hmove : ∀ {pc}, PcOk hash w pc → pc.holds = Stage.holds task stage →
      Inv hash (w.setPc pc) := fun hpc hsame => h.setPc hpc fun id hid _ => by
    rw [hsame, ← hholds]
    exact hid
  unfold Kept at hok
  dsimp only [Event.fire] at hok ⊢
  by_cases habs : isAbs spec.alpha = false
  · grind [idle, State.setPc]
  rw [if_neg habs]
  cases hfind : w.manager.find spec.name with
  | none => exact hmove ⟨hstage, hspec, Manager.forall_of_find_eq_none hfind⟩ rfl
  | some s =>
    have hold : ∀ old ∈ Stage.olds task stage, w.manager.Present old → old = s.identifier := by
      intro old ho hpresent
      refine Manager.eq_of_find h.unique ?_ hpresent hfind
      rw [hspec]
      exact hstage.knows_old ho
    have hknows := Manager.knows_of_find hfind
    dsimp only
    split_ifs
    · exact hmove ⟨hstage, hspec, hknows, hold⟩ rfl
    · exact hmove ⟨hstage, hspec, hknows, hold⟩ rfl
    grind [unique, established, closed, named, known_holds]

theorem present_of_has {m : Manager} (h : m.has id = true) : m.Present id := by
  grind [Manager.Present, Manager.has]

theorem Inv.terminate (h : Inv hash w) (he : w.pc = .terminating task stage spec id)
    (hok : Kept hash w (.terminate task stage spec id)) :
    Inv hash ((Event.terminate task stage spec id).fire hash w) := by
  have hpc : PcOk hash w (.terminating task stage spec id) := he ▸ h.pc
  obtain ⟨hstage, hspec, hknows, -⟩ := hpc
  unfold Kept at hok
  dsimp only [Event.fire] at hok ⊢
  by_cases hhas : w.manager.has id = true
  · rw [if_pos hhas]
    have hm := Manager.Shrinks.terminate w.manager id
    refine ⟨hm.unique h.unique, h.closed,
      fun source entry hx => (h.named source entry hx).grows hm.grows,
      ⟨hstage.mono rfl hm.grows fun hopen => ⟨hopen, rfl⟩, hspec,
        Manager.forall_terminate h.unique hknows (present_of_has hhas)⟩, fun x hx hrunning => ?_⟩
    have hheld := h.known x hx (hm.running hrunning)
    rw [he] at hheld
    exact hheld
  · grind [idle, State.setPc]

theorem Inv.resume (h : Inv hash w) (he : w.pc = .resuming task stage spec id)
    (hok : Kept hash w (.resume task stage spec id)) :
    Inv hash ((Event.resume task stage spec id).fire hash w) := by
  have hpc : PcOk hash w (.resuming task stage spec id) := he ▸ h.pc
  obtain ⟨hstage, hspec, hknows, hold⟩ := hpc
  have hholds : w.pc.holds = Stage.holds task stage := by rw [he]; rfl
  unfold Kept at hok
  dsimp only [Event.fire] at hok ⊢
  by_cases hhas : w.manager.has id = true
  · rw [if_pos hhas]
    have hm := Manager.Grows.setPaused w.manager id false
    have hunique : (w.manager.resume id).Unique := by
      rw [Manager.Unique, Manager.resume, Manager.map_name_setPaused]
      exact h.unique
    refine .established hunique h.closed (fun source entry hx => (h.named source entry hx).grows hm)
      (hstage.mono rfl hm fun hopen => ⟨hopen, rfl⟩) (hspec ▸ hm.knows hknows)
      (fun old ho hpresent => hold old ho (Manager.present_resume hpresent)) fun x hx hrunning => ?_
    rcases List.mem_cons.1 hx with rfl | hx
    · exact .inr (.inr (.inl rfl))
    rcases Manager.running_resume hrunning with hrunning | rfl
    · exact (h.known_holds hholds x hx hrunning).imp_right (·.imp_right .inr)
    · exact .inr (.inr (.inl rfl))
  · grind [idle, State.setPc]

theorem Inv.create (h : Inv hash w) (he : w.pc = .creating task stage spec) :
    Inv hash ((Event.create task stage spec).fire hash w) := by
  have hpc : PcOk hash w (.creating task stage spec) := he ▸ h.pc
  obtain ⟨hstage, hspec, hnone⟩ := hpc
  have hholds : w.pc.holds = Stage.holds task stage := by rw [he]; rfl
  have hm := Manager.Grows.create w.manager spec
  refine .established (h.unique.create hnone) h.closed
    (fun source entry hx => (h.named source entry hx).grows hm)
    (hstage.mono rfl hm fun hopen => ⟨hopen, rfl⟩) (hspec ▸ Manager.knows_create w.manager spec)
    (fun old ho hpresent => ?_) fun x hx hrunning => ?_
  · -- the former session is gone, and has not come back
    have hknows := hstage.knows_old ho
    refine absurd hpresent ?_
    rintro ⟨s, hs, hid⟩
    exact hm.gone hknows.1 (fun s hs hid => Manager.not_present_of_forall (hspec ▸ hknows) hnone
      ⟨s, hs, hid⟩) s hs hid
  · rcases Manager.running_create hrunning with hrunning | rfl
    · rcases List.mem_cons.1 hx with rfl | hx
      · exact .inr (.inr (.inl rfl))
      exact (h.known_holds hholds x hx hrunning).imp_right (·.imp_right .inr)
    grind

/-- Sessions are paused or terminated. -/
theorem Inv.shrink (h : Inv hash w) {m : Manager} (hm : w.manager.Shrinks m) :
    Inv hash { w with manager := m } where
  unique := hm.unique h.unique
  closed := h.closed
  named source entry hx := (h.named source entry hx).grows hm.grows
  pc := h.pc.mono rfl hm fun hopen => ⟨hopen, rfl⟩
  known x hx hrunning := h.known x hx (hm.running hrunning)

theorem Inv.pause (h : Inv hash w) (id : ℕ) (ok : Bool) : Inv hash (w.pause id ok) := by
  grind [shrink, Manager.Shrinks.pause, State.pause]

/-- The session is not running after the pause, or else was not before. -/
theorem not_running_pause (hok : ok = true ∨ ¬ w.manager.Running id) :
    ¬ (w.pause id ok).manager.Running id := by
  grind [Manager.not_running_pause, State.pause]

/-- The replica that is not wanted any more is paused; then the entry can replace the former. -/
theorem Inv.drop (h : Inv hash w) {more ok : Bool}
    (he : w.pc = .dropping task entry more) (hok : Kept hash w (.drop task entry more ok)) :
    Inv hash ((Event.drop task entry more ok).fire hash w) := by
  set v : State := match task.existing.bind (·.gitSession) with
    | some id => if task.intent.syncGit then w else w.pause id ok
    | none => w with hv
  have hsame : v.conn = w.conn ∧ v.pc = w.pc := by
    rw [hv]
    unfold State.pause
    split
    · split_ifs <;> exact ⟨rfl, rfl⟩
    · exact ⟨rfl, rfl⟩
  have hinv : Inv hash v := by
    rw [hv]
    split
    · split_ifs
      · exact h
      · exact h.pause _ _
    · exact h
  have hdropped : task.intent.syncGit = false → ∀ id ∈ task.replica, ¬ v.manager.Running id := by
    intro hgit id hid
    have hsome : task.existing.bind (·.gitSession) = some id := Option.mem_toList.1 hid
    have hv' : v = w.pause id ok := by
      rw [hv, hsome]
      simp [hgit]
    rw [hv']
    exact not_running_pause (hok.imp_right fun hx => hx id hid)
  have hpc : PcOk hash v (.dropping task entry more) := by
    have hvpc := hinv.pc
    rw [hsame.2, he] at hvpc
    exact hvpc
  obtain ⟨hstage, hdest, hnamed, hgit, hmore, hold⟩ := hpc
  refine hinv.setPc ⟨hstage.toTaskOk, hdest, hnamed, fun _ => hgit,
    fun hopen old ho id hid hrunning => ?_⟩ ?_
  · rw [hstage.table hopen] at ho
    rcases ActiveSync.mem_sessions.1 hid with rfl | hid
    · rw [hold old ho hrunning.present]
      exact .inl (List.mem_cons_self ..)
    · have hreplica : id ∈ task.replica := mem_replica.2 ⟨old, ho, hid⟩
      cases hsync : task.intent.syncGit with
      | true => exact .inr ⟨hmore.trans hsync, hreplica⟩
      | false => exact absurd hrunning (hdropped hsync id hreplica)
  · intro id hid _
    rw [hsame.2, he] at hid
    exact hid

theorem Inv.record (h : Inv hash w) {more : Bool} (he : w.pc = .recording task entry more) :
    Inv hash ((Event.record task entry more).fire hash w) := by
  have hpc : PcOk hash w (.recording task entry more) := he ▸ h.pc
  obtain ⟨htask, hdest, hnamed, hmore, hreplaces⟩ := hpc
  dsimp only [Event.fire]
  by_cases hclosed : w.conn.closed = true
  · rw [if_pos hclosed]
    exact h.setPc trivial fun id hid _ => by rw [he] at hid; exact hid
  rw [if_neg hclosed]
  have hopen : w.conn.closed = false := Bool.eq_false_iff.2 hclosed
  refine ⟨h.unique, fun hx => absurd hx hclosed, fun source e hx => ?_, ?_, fun id hid hrunning => ?_⟩
  · obtain ⟨rfl, rfl⟩ | ⟨-, hx⟩ := lookup_insert_cases hx
    · exact hnamed
    · exact h.named source e hx
  · split_ifs with hm
    · refine ⟨htask.mono rfl (.refl _), fun _ => AList.lookup_insert _, ?_⟩
      grind [Connection.setSync]
    · trivial
  · -- what was in the table before is there now, or known to the establishment
    rw [inTable_iff]
    have hnew : id ∈ entry.sessions → ∃ source e,
        (w.conn.setSync task.intent.fromLocal entry).synchronizations.lookup source = some e ∧
          id ∈ e.sessions := fun hx => ⟨_, entry, AList.lookup_insert _, hx⟩
    rcases h.known id hid hrunning with htable | hclosing | hheld
    · obtain ⟨source, e, hlookup, hmem⟩ := inTable_iff.1 htable
      by_cases hsource : source = task.intent.fromLocal
      · grind [Pc.holds, Replaces]
      · exact .inl ⟨source, e, (AList.lookup_insert_ne hsource).trans hlookup, hmem⟩
    · exact .inr (.inl hclosing)
    grind [Pc.holds]

theorem Inv.replicate (h : Inv hash w) {gitDir : Bool}
    (he : w.pc = .replicating task entry) (hok : Kept hash w (.replicate task entry gitDir)) :
    Inv hash ((Event.replicate task entry gitDir).fire hash w) := by
  have hstage : StageOk hash w task (.replica entry) := by
    have hpc := h.pc
    rw [he] at hpc
    exact hpc
  obtain ⟨hdest, hnamed, hgit⟩ := hstage.entry entry rfl
  have hholds : w.pc.holds = task.replica := by rw [he]; rfl
  unfold Kept at hok
  cases gitDir with
  | false =>
    have hfree : ∀ id ∈ task.replica, ¬ w.manager.Running id := by
      rw [← hholds]
      exact hok
    refine h.setPc ⟨hstage.toTaskOk, hdest, ⟨hnamed.session, nofun⟩, nofun,
      fun hopen old ho id hid hrunning => ?_⟩ fun id hid hrunning => ?_
    · rw [hstage.table hopen] at ho
      grind [ActiveSync.mem_sessions]
    grind
  | true =>
    dsimp only [Event.fire] at hok ⊢
    rw [if_neg (by simp)] at hok ⊢
    cases hmodes : gitReplicaBetaConfiguration task.intent with
    | error err =>
      grind [idle, State.setPc]
    | ok modes =>
      refine h.setPc ⟨hstage, rfl⟩ fun id hid _ => ?_
      rw [hholds] at hid
      exact hid

theorem Inv.pauseNext (h : Inv hash w) {ids : List ℕ} (he : w.pc = .pausing (id :: ids))
    (hok : ok = true ∨ ¬ w.manager.Running id) :
    Inv hash ((Event.pauseNext id ids ok).fire hash w) := by
  have hpc : (w.pause id ok).pc = .pausing (id :: ids) := by
    grind [State.pause]
  refine (h.pause id ok).setPc ?_ fun x hx hrunning => ?_
  · split_ifs <;> trivial
  grind [not_running_pause, Pc.holds]

end Establishment

/-! ### The steps of the others -/

section Others

variable {hash : List Char → String} {w : State} {id : ℕ}

theorem Inv.close (h : Inv hash w) : Inv hash (Event.close.fire hash w) where
  unique := h.unique
  closed _ := rfl
  named _ _ hx := nomatch hx
  pc := h.pc.mono rfl (.refl _) nofun
  known id hid hrunning := by
    rcases h.known id hid hrunning with ⟨e, he, hmem⟩ | hclosing | hheld
    · exact .inr (.inl (List.mem_append_right _ (List.mem_flatMap.2 ⟨e, he, hmem⟩)))
    · exact .inr (.inl (List.mem_append_left _ hclosing))
    · exact .inr (.inr hheld)

theorem Inv.closePause (h : Inv hash w) (hok : ok = true ∨ ¬ w.manager.Running id) :
    Inv hash ((Event.closePause id ok).fire hash w) := by
  have hpaused := h.pause id ok
  have hsame : (w.pause id ok).closing = w.closing := by
    grind [State.pause]
  refine ⟨hpaused.unique, hpaused.closed, hpaused.named,
    hpaused.pc.mono rfl (.refl _) fun hopen => ⟨hopen, rfl⟩, fun x hx hrunning => ?_⟩
  have hne : x ≠ id := by
    rintro rfl
    exact not_running_pause hok hrunning
  rcases hpaused.known x hx hrunning with htable | hclosing | hheld
  · exact .inl htable
  · grind [Event.fire]
  · exact .inr (.inr hheld)

theorem Inv.fire (h : Inv hash w) {e : Event} (he : e.Enabled w) (hok : Kept hash w e) :
    Inv hash (e.fire hash w) := by
  cases e with
  | begin intent out ignores => exact h.begin he intent out ignores
  | lookUp task stage spec => exact h.lookUp he hok
  | terminate task stage spec id => exact h.terminate he hok
  | resume task stage spec id => exact h.resume he hok
  | create task stage spec => exact h.create he
  | drop task entry more ok => exact h.drop he hok
  | record task entry more => exact h.record he
  | replicate task entry gitDir => exact h.replicate he hok
  | pauseNext id ids ok => exact h.pauseNext he hok
  | fail => exact h.idle (hok rfl)
  | close => exact h.close
  | closePause id ok => exact h.closePause hok
  | reap id => exact h.shrink (.terminate w.manager id)
  | setRoots localRoot =>
    exact ⟨h.unique, h.closed, h.named, h.pc.mono rfl (.refl _) fun hopen => ⟨hopen, rfl⟩, h.known⟩

end Others

/-! ### The results -/

/-- **With no establishment in progress, every running session that the connection has started or
resumed is in its table, or `Close` is about to pause it**; so none is running when it is closed and
`Close` has returned.  Replicas have to be replaced when the entry is, and pauses to succeed. -/
theorem sessions_tracked {hash : List Char → String} {name localRoot : String} {manager : Manager}
    {w : State} (hunique : manager.Unique)
    (h : (tracker hash).Run (Kept hash) (.init name localRoot manager) w) (hidle : w.pc = .idle) :
    (∀ id ∈ w.touched, w.manager.Running id → w.InTable id ∨ id ∈ w.closing) ∧
      (w.conn.closed = true → w.closing = [] → ∀ id ∈ w.touched, ¬ w.manager.Running id) := by
  have hinit : Inv hash (.init name localRoot manager) :=
    ⟨hunique, nofun, nofun, trivial, nofun⟩
  have hinv : Inv hash w := h.invariant (I := Inv hash) hinit fun _ _ hw he hok => hw.fire he hok
  have hknown : ∀ id ∈ w.touched, w.manager.Running id → w.InTable id ∨ id ∈ w.closing := by
    intro id hid hrunning
    rcases hinv.known id hid hrunning with htable | hclosing | hheld
    · exact .inl htable
    · exact .inr hclosing
    · grind [Pc.holds]
  refine ⟨hknown, fun hclosed hreturned id hid hrunning => ?_⟩
  rcases hknown id hid hrunning with ⟨e, he, -⟩ | hclosing
  · rw [hinv.closed hclosed] at he
    cases he
  · simp_all

/-- The directory `/p`, with a replica of `.git`, and a mode for its files. -/
def syncP (mode : String) : SynchronizationIntent := ⟨"/p", "/r", true, [], mode, ""⟩

/-- The session that is asked for. -/
def specP (mode : String) (fileMode : ℕ) : SessionSpec :=
  ⟨syncSessionName String.ofList "a" (syncP mode), "/p", "/r", [], fileMode, 0o755⟩

/-- That of the replica. -/
def specGit (mode : String) (fileMode : ℕ) : SessionSpec :=
  ⟨syncSessionName String.ofList "a" (gitReplicaIntent (syncP mode)), "/p/.git", "/r/.git",
    gitReplicaIgnores, fileMode, 0⟩

/-- The entry of `/p`, with its sessions. -/
def entryP (mode : String) (id : ℕ) (git : Option ℕ) : ActiveSync :=
  { ActiveSync.ofIntent (syncP mode) id with syncGit := git.isSome, gitSession := git }

/-- `/p` is established, with sessions `0` and `1`. -/
def establishP : List Event :=
  let task : Task := ⟨syncP "", none⟩
  let entry := entryP "" 0 none
  [.begin (syncP "") "/r\n" [], .lookUp task .primary (specP "" 0o644),
    .create task .primary (specP "" 0o644), .drop task entry true true, .record task entry true,
    .replicate task entry true, .lookUp task (.replica entry) (specGit "" 0),
    .create task (.replica entry) (specGit "" 0), .record task (entryP "" 0 (some 1)) false]

/-- It is established again with another mode, up to the replica; its session is now `2`. -/
def changeMode : List Event :=
  let task : Task := ⟨syncP "0600", some (entryP "" 0 (some 1))⟩
  let entry := entryP "0600" 2 none
  [.begin (syncP "0600") "/r\n" [], .lookUp task .primary (specP "0600" 0o600),
    .terminate task .primary (specP "0600" 0o600) 0, .create task .primary (specP "0600" 0o600),
    .drop task entry true true, .record task entry true]

/-- The replica is replaced as well, by session `3`. -/
def changeReplica : List Event :=
  let task : Task := ⟨syncP "0600", some (entryP "" 0 (some 1))⟩
  let entry := entryP "0600" 2 none
  [.replicate task entry true, .lookUp task (.replica entry) (specGit "0600" 0o600),
    .terminate task (.replica entry) (specGit "0600" 0o600) 1,
    .create task (.replica entry) (specGit "0600" 0o600),
    .record task (entryP "0600" 2 (some 3)) false]

/-- The mode changes and the replica is replaced; then the connection is closed. -/
theorem sessions_tracked_closed :
    ∃ w, (tracker String.ofList).Run (Kept String.ofList) (.init "a" "/p" .empty) w ∧
      w.touched = [3, 2, 1, 0] ∧ ∀ id ∈ w.touched, ¬ w.manager.Running id := by
  have hexec : ∃ w ∈ (tracker String.ofList).exec (Kept String.ofList) (.init "a" "/p" .empty)
      (establishP ++ changeMode ++ changeReplica ++
        [.close, .closePause 2 true, .closePause 3 true]),
      w.touched = [3, 2, 1, 0] ∧ w.pc = .idle ∧ w.conn.closed = true ∧ w.closing = [] := by
    decide +kernel
  obtain ⟨w, hrun, htouched, hidle, hclosed, hreturned⟩ := Machine.exists_run_of_exec _ _ hexec
  have hunique : Manager.empty.Unique := List.nodup_nil
  exact ⟨w, hrun, htouched, (sessions_tracked hunique hrun hidle).2 hclosed hreturned⟩

/-- **The mode changes and the replica fails**: the former replica is running, and is not in the
table any more; it runs on when the connection is closed and `Close` has returned. -/
theorem replica_untracked :
    (∃ w, (tracker String.ofList).Reachable (.init "a" "/p" .empty) w ∧ w.pc = .idle ∧
      w.closing = [] ∧ 1 ∈ w.touched ∧ w.manager.Running 1 ∧ ¬ w.InTable 1) ∧
    ∃ w, (tracker String.ofList).Reachable (.init "a" "/p" .empty) w ∧ w.pc = .idle ∧
      w.conn.closed = true ∧ w.closing = [] ∧ 1 ∈ w.touched ∧ w.manager.Running 1 := by
  constructor
  · have hexec : ∃ w ∈ (tracker String.ofList).exec (fun _ _ => True) (.init "a" "/p" .empty)
        (establishP ++ changeMode ++ [.fail]),
        w.pc = .idle ∧ w.closing = [] ∧ 1 ∈ w.touched ∧ w.manager.Running 1 ∧ ¬ w.InTable 1 := by
      decide +kernel
    exact Machine.exists_run_of_exec _ _ hexec
  · have hexec : ∃ w ∈ (tracker String.ofList).exec (fun _ _ => True) (.init "a" "/p" .empty)
        (establishP ++ changeMode ++ [.fail, .close, .closePause 2 true]),
        w.pc = .idle ∧ w.conn.closed = true ∧ w.closing = [] ∧ 1 ∈ w.touched ∧
          w.manager.Running 1 := by
      decide +kernel
    exact Machine.exists_run_of_exec _ _ hexec

end Tracked

end Graft.Sync
