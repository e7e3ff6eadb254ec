import Graft.Library.Machine
import Graft.Sync.Requests

/-!
# Synchronizations and the reaper (`pkg/server.go`, `pkg/connection.go`)

Requests, restores and ticks establish synchronizations, each in a thread that holds `syncMu` of its
connection; a tick works on the configuration as it was when the tick began, and at its end
terminates the sessions that this configuration does not imply.  A step is a call of mutagen's
manager, or a section under `serverMu` or under the mutex of a connection, with what the thread does
up to the next one.

Restores and ticks may establish anything at any time, and the configuration may be changed by
anyone; that the former keep to the configuration, and which requests change the latter, is not
needed.
-/

namespace Graft.Sync

open Function (update)
open Graft.Config (SynchronizationIntent ConnectionConfig)

/-! ### Threads -/

/-- A synchronization that is being established, with the names that were looked up and the sessions
that were established under them. -/
structure Job where
  /-- for `SyncFilesToConnection` -/
  request : Bool
  connName : String
  conn : ℕ
  intent : SynchronizationIntent
  names : List String
  sessions : List ℕ
  deriving DecidableEq

/-- Which session of a synchronization a request is at. -/
inductive Stage
  | primary
  /-- the replica, with the entry it is for -/
  | replica (entry : ActiveSync)
  deriving DecidableEq

/-- The entry to record when the session is established. -/
def Stage.entry (intent : SynchronizationIntent) (id : ℕ) : Stage → ActiveSync
  | primary => .ofIntent intent id
  | replica entry => { entry with syncGit := true, gitSession := some id }

def Stage.more (intent : SynchronizationIntent) : Stage → Bool
  | primary => intent.syncGit
  | replica _ => false

/-- Where a request is, between two releases of a lock. -/
inductive Pc
  | idle
  /-- before `syncMu` -/
  | waiting (job : Job)
  /-- before `findExistingSessionByName` -/
  | looking (job : Job) (stage : Stage) (spec : SessionSpec)
  /-- a session with a stale configuration was found -/
  | terminating (job : Job) (stage : Stage) (spec : SessionSpec) (id : ℕ)
  /-- a paused one was found -/
  | resuming (job : Job) (stage : Stage) (spec : SessionSpec) (id : ℕ)
  | creating (job : Job) (stage : Stage) (spec : SessionSpec)
  /-- before `recordSync`; a replica may follow -/
  | recording (job : Job) (entry : ActiveSync) (more : Bool)
  /-- before `establishGitReplica` -/
  | replicating (job : Job) (entry : ActiveSync)
  /-- before `UpdateSynchronizations` -/
  | updating (job : Job)
  | done
  deriving DecidableEq

def Pc.job : Pc → Option Job
  | idle | done => none
  | waiting job | looking job _ _ | terminating job _ _ _ | resuming job _ _ _ | creating job _ _
  | recording job _ _ | replicating job _ | updating job => some job

/-- Whether the thread has `syncMu` of its connection. -/
def Pc.locked : Pc → Bool
  | idle | done | waiting _ | updating _ => false
  | looking .. | terminating .. | resuming .. | creating .. | recording .. | replicating .. => true

/-- A request that has succeeded; `kept` until its synchronization is not in the configuration. -/
structure Success where
  connName : String
  intent : SynchronizationIntent
  names : List String
  sessions : List ℕ
  kept : Bool
  deriving DecidableEq

def Success.Configured (su : Success) (config : List ConnectionConfig) : Prop :=
  ∃ conf ∈ config, conf.name = su.connName ∧ ∃ s ∈ conf.synchronizations,
    canonicalFromLocal conf.localRoot s.fromLocal = su.intent.fromLocal ∧
      s.toRemote = su.intent.toRemote ∧ (su.intent.syncGit = true → s.syncGit = true)

instance (su : Success) (config : List ConnectionConfig) : Decidable (su.Configured config) := by
  unfold Success.Configured
  infer_instance

/-! ### The state -/

/-- Where the tick is. -/
inductive Tick
  | idle
  | applying (pending : List ConnectionConfig)
  | reaping (pending : List ConnectionConfig) (orphans : List Session)
  deriving DecidableEq

def Tick.pending : Tick → Option (List ConnectionConfig)
  | idle => none
  | applying pending | reaping pending _ => some pending

/-- The server, as far as synchronizations are concerned. -/
structure State where
  config : List ConnectionConfig
  conns : ℕ → Connection
  connCount : ℕ
  /-- which connections are held by a thread -/
  syncMu : ℕ → Bool
  registered : String → Option ℕ
  manager : Manager
  op : ℕ → Pc
  opCount : ℕ
  tick : Tick
  successes : List Success
  reaped : List ℕ

namespace State

/-- The server at its start, with a configuration and the sessions of former runs. -/
def init (config : List ConnectionConfig) (manager : Manager) : State where
  config := config
  conns _ := ⟨"", "", ∅, false⟩
  connCount := 0
  syncMu _ := false
  registered _ := none
  manager := manager
  op _ := .idle
  opCount := 0
  tick := .idle
  successes := []
  reaped := []

/-- Move thread `t`. -/
def setPc (w : State) (t : ℕ) (pc : Pc) : State := { w with op := update w.op t pc }

def spawn (w : State) (pc : Pc) : State :=
  { w with op := update w.op w.opCount pc, opCount := w.opCount + 1 }

/-- `EstablishSynchronization` takes `syncMu`. -/
def lock (w : State) (c : ℕ) : State := { w with syncMu := update w.syncMu c true }

def unlock (w : State) (c : ℕ) : State := { w with syncMu := update w.syncMu c false }

def setManager (w : State) (manager : Manager) : State := { w with manager := manager }

def setConn (w : State) (c : ℕ) (conn : Connection) : State :=
  { w with conns := update w.conns c conn }

def setConfig (w : State) (config : List ConnectionConfig) : State :=
  { w with
    config := config
    successes := w.successes.map fun su =>
      { su with kept := su.kept && decide (su.Configured config) } }

/-- `EstablishSynchronization` has failed. -/
def abort (w : State) (t : ℕ) (job : Job) : State := (w.unlock job.conn).setPc t .done

def finish (w : State) (t : ℕ) (job : Job) : State :=
  (w.unlock job.conn).setPc t (if job.request then .updating job else .done)

end State

/-! ### Steps -/

def Manager.has (m : Manager) (id : ℕ) : Bool := m.sessions.any (·.identifier = id)

def Job.established (job : Job) (id : ℕ) : Job := { job with sessions := id :: job.sessions }

def Job.recording (job : Job) (stage : Stage) (id : ℕ) : Pc :=
  .recording (job.established id) (stage.entry job.intent id) (stage.more job.intent)

/-- The steps of a request. -/
inductive Step
  /-- up to the lookup of a session; `out` is what the remote shell gives back -/
  | prepare (job : Job) (out : String) (ignores : List String)
  | lookUp (job : Job) (stage : Stage) (spec : SessionSpec)
  | terminate (job : Job) (stage : Stage) (spec : SessionSpec) (id : ℕ)
  | resume (job : Job) (stage : Stage) (spec : SessionSpec) (id : ℕ)
  | create (job : Job) (stage : Stage) (spec : SessionSpec)
  | record (job : Job) (entry : ActiveSync) (more : Bool)
  /-- the source has a directory `.git`, or not -/
  | replicate (job : Job) (entry : ActiveSync) (gitDir : Bool)
  /-- `UpdateSynchronizations` -/
  | update (job : Job)
  /-- a call fails -/
  | fail (job : Job)

section Steps

variable (hash : List Char → String)

namespace Step

/-- Whether thread `t` can take the step. -/
def Enabled (w : State) (t : ℕ) : Step → Prop
  | prepare job _ _ => w.op t = .waiting job ∧ w.syncMu job.conn = false
  | lookUp job stage spec => w.op t = .looking job stage spec
  | terminate job stage spec id => w.op t = .terminating job stage spec id
  | resume job stage spec id => w.op t = .resuming job stage spec id
  | create job stage spec => w.op t = .creating job stage spec
  | record job entry more => w.op t = .recording job entry more
  | replicate job entry _ => w.op t = .replicating job entry
  | update job => w.op t = .updating job
  | fail job => (w.op t).job = some job

instance (w : State) (t : ℕ) (s : Step) : Decidable (s.Enabled w t) := by
  cases s <;> dsimp only [Enabled] <;> infer_instance

/-- The state after the step of thread `t`. -/
def fire (w : State) (t : ℕ) : Step → State
  | prepare job out ignores =>
    match plan (w.conns job.conn) job.intent with
    | .error _ => w.setPc t .done
    | .ok .noop => w.finish t job
    | .ok (.resolve intent) =>
      match action (w.conns job.conn) intent (trimSpace out) with
      | .error _ => w.setPc t .done
      | .ok .noop => w.finish t job
      | .ok (.flip intent existing) =>
        (w.lock job.conn).setPc t (if intent.syncGit then .replicating { job with intent } existing
          else .recording { job with intent } { existing with gitSession := none, syncGit := false }
            false)
      | .ok (.establish intent) =>
        match syncBetaConfiguration intent with
        | .error _ => w.setPc t .done
        | .ok (fileMode, directoryMode) =>
          (w.lock job.conn).setPc t (.looking { job with intent } .primary
            ⟨syncSessionName hash job.connName intent, intent.fromLocal, intent.toRemote, ignores,
              fileMode, directoryMode⟩)
  | lookUp job stage spec =>
    if isAbs spec.alpha = false then w.abort t job
    else
      let job := { job with names := spec.name :: job.names }
      match w.manager.find spec.name with
      | none => w.setPc t (.creating job stage spec)
      | some s =>
        if s.stale spec then w.setPc t (.terminating job stage spec s.identifier)
        else if s.paused then w.setPc t (.resuming job stage spec s.identifier)
        else w.setPc t (job.recording stage s.identifier)
  | terminate job stage spec id =>
    if w.manager.has id then
      (w.setManager (w.manager.terminate id)).setPc t (.creating job stage spec)
    else w.abort t job
  | resume job stage _ id =>
    if w.manager.has id then
      (w.setManager (w.manager.resume id)).setPc t (job.recording stage id)
    else w.abort t job
  | create job stage spec =>
    (w.setManager (w.manager.create spec)).setPc t (job.recording stage w.manager.next)
  | record job entry more =>
    let conn := w.conns job.conn
    let r := recordSync conn (pauseReplica conn w.manager job.intent) conn.closed
      job.intent.fromLocal entry []
    let w := (w.setManager r.manager).setConn job.conn r.conn
    match r.error with
    | some _ => w.abort t job
    | none => if more then w.setPc t (.replicating job entry) else w.finish t job
  | replicate job entry gitDir =>
    if gitDir = false then
      w.setPc t (.recording job { entry with syncGit := true, gitSession := none } false)
    else match gitReplicaBetaConfiguration job.intent with
      | .error _ => w.abort t job
      | .ok (fileMode, directoryMode) =>
        let git := gitReplicaIntent job.intent
        w.setPc t (.looking job (.replica entry) ⟨syncSessionName hash job.connName git,
          git.fromLocal, git.toRemote, gitReplicaIgnores, fileMode, directoryMode⟩)
  | update job =>
    match w.registered job.connName with
    | none => w.setPc t .done
    | some c =>
      let w := w.setConfig (updateSynchronizations w.config (w.conns c))
      { w with successes := ⟨job.connName, job.intent, job.names, job.sessions, true⟩ ::
          w.successes }.setPc t .done
  | fail job => if (w.op t).locked then w.abort t job else w.setPc t .done

end Step

/-! ### The machine -/

/-- The steps of requests and of the tick, and what else changes connections and configuration. -/
inductive Event
  /-- `SyncFilesToConnection`, up to `EstablishSynchronization` -/
  | syncFiles (name : String) (c : ℕ) (homeDir : String) (req : SyncRequest)
      (intent : SynchronizationIntent)
  /-- a restore or a tick establishes a synchronization -/
  | restoreSync (name : String) (c : ℕ) (intent : SynchronizationIntent)
  | step (t : ℕ) (s : Step)
  /-- a tick takes the configuration -/
  | tick
  /-- `reapOrphanSyncs` lists the sessions -/
  | list (pending : List ConnectionConfig)
  /-- `reapOrphanSyncs` terminates the first of the orphans -/
  | reap (pending : List ConnectionConfig) (s : Session) (rest : List Session)
  | tickEnd
  /-- anyone changes the configuration -/
  | configure (config : List ConnectionConfig)
  /-- a connection is made -/
  | register (name localRoot : String)
  | unregister (name : String)
  /-- `Connection.Close` -/
  | close (c : ℕ)
  /-- the local root is changed, under `syncMu` -/
  | updateRoots (c : ℕ) (localRoot : String)

variable (shortHash : List Char → String) (identity : String)

namespace Event

def Enabled (w : State) : Event → Prop
  | syncFiles name c homeDir req intent => w.registered name = some c ∧
      req.intent shortHash homeDir identity w.config (w.conns c) = .ok intent
  | restoreSync name c _ => w.registered name = some c
  | step t s => s.Enabled w t
  | tick => w.tick.pending = none
  | list pending => w.tick = .applying pending
  | reap pending s rest => w.tick = .reaping pending (s :: rest)
  | tickEnd | configure _ | unregister _ | close _ => True
  | register name _ => w.registered name = none
  | updateRoots c _ => w.syncMu c = false

instance (w : State) (e : Event) : Decidable (e.Enabled shortHash identity w) := by
  cases e <;> dsimp only [Enabled] <;> infer_instance

def fire (w : State) : Event → State
  | syncFiles name c _ _ intent => w.spawn (.waiting ⟨true, name, c, intent, [], []⟩)
  | restoreSync name c intent => w.spawn (.waiting ⟨false, name, c, intent, [], []⟩)
  | step t s => s.fire hash w t
  | tick => { w with tick := .applying w.config }
  | list pending => { w with tick := .reaping pending (w.manager.orphans hash pending) }
  | reap pending s rest =>
    let w := { w with tick := .reaping pending rest }
    -- to terminate a session that is gone is an error, which is only logged
    if w.manager.has s.identifier then
      { w.setManager (w.manager.terminate s.identifier) with reaped := s.identifier :: w.reaped }
    else w
  | tickEnd => { w with tick := .idle }
  | configure config => w.setConfig config
  | register name localRoot =>
    { w.setConn w.connCount ⟨name, localRoot, ∅, false⟩ with
      connCount := w.connCount + 1
      registered := update w.registered name (some w.connCount) }
  | unregister name => { w with registered := update w.registered name none }
  | close c =>
    (w.setConn c (w.conns c).close).setManager
      ((w.conns c).synchronizations.entries.foldl (fun m e => e.2.pause m) w.manager)
  | updateRoots c localRoot => w.setConn c { w.conns c with localRoot := localRoot }

end Event

/-- The daemon, with any interleaving. -/
def syncServer : Machine State Event where
  enabled := fun w e => e.Enabled shortHash identity w
  fire := Event.fire hash

instance (w : State) (e : Event) : Decidable ((syncServer hash shortHash identity).enabled w e) :=
  inferInstanceAs (Decidable (e.Enabled shortHash identity w))

end Steps

end Graft.Sync
