import Mathlib.Data.List.AList
import Graft.Library.Machine

/-!
# The connection manager (`pkg/connection_manager.go`, `pkg/remote_daemon.go`)

Connections to the same destination share one remote daemon, which counts its references.  Any
number of operations run concurrently: `initialize` (also on behalf of `Restore`, which keeps the
connection when it fails) and `remove`.  A step of the model is a section under `connMgrMu`, a
section of `remoteDaemon.Initialize`, or the store of `updateDaemon`; what a connector does on the
network is given by the step.

The connector of a daemon shares the `destURL` of the operation that created it, and rewrites it
when it resolves the host; `urls t` is the `destURL` of operation `t`.
-/

namespace Graft.Connections

open Function (update)

/-! ### Destinations -/

structure Url where
  scheme : String
  /-- empty if there is none -/
  user : String
  hostname : String
  port : String
  query : String
  deriving DecidableEq

/-- `url.URL.Host`. -/
def Url.host (u : Url) : String :=
  let host := if ':' ∈ u.hostname.toList then "[" ++ u.hostname ++ "]" else u.hostname
  if u.port = "" then host else host ++ ":" ++ u.port

def daemonKey (destURL : Url) (identity : String) : String :=
  let port := if destURL.port = "22" then "" else destURL.port
  let hostPart := if port = "" then destURL.hostname else destURL.hostname ++ ":" ++ port
  let hostPart := if destURL.user = "" then hostPart else destURL.user ++ "@" ++ hostPart
  hostPart ++ "::" ++ identity

/-- `path` without `pre`, which has to end at a separator. -/
def hasPathPrefix (path pre : String) : Option (List Char) :=
  if pre.toList <+: path.toList then
    match path.toList.drop pre.toList.length with
    | [] => some []
    | c :: after => if c = '/' then some (c :: after) else none
  else none

/-! ### The state -/

structure Env where
  /-- the schemes with a connector factory -/
  schemes : List String
  /-- `strings.ToLower` -/
  toLower : String → String

/-- How `remoteDaemon.Initialize` ended. -/
inductive InitResult
  | ok
  | failed
  /-- `errDaemonSuperseded` -/
  | superseded
  deriving DecidableEq

/-- `initDone` and `initErr`. -/
inductive InitState
  /-- nobody has called `Initialize` -/
  | fresh
  | running
  | finished (result : InitResult)
  deriving DecidableEq

/-- `remoteDaemon`. -/
structure Daemon where
  mapKey : String
  refCount : ℤ
  supersededBy : Option ℕ
  init : InitState
  /-- the operation with whose `destURL` the connector was made -/
  url : ℕ
  remoteRoots : List String
  /-- `Destroy` was called -/
  destroyed : Bool

structure Connection where
  name : String
  daemon : ℕ
  localRoot : String
  remoteRoot : String
  background : Bool

/-- The arguments of `initialize` besides the name and the destination. -/
structure Args where
  localRoot : String
  remoteRoot : String
  identity : String
  background : Bool
  /-- `false` for `Restore` -/
  destroyIfFail : Bool

/-- Where an operation is.  `c` is its connection and `d` its `daemon`; `first` is `true` in the
first call of `Initialize`, whose callback re-keys the daemon, and `false` in the call after a
supersede. -/
inductive Pc
  | idle
  /-- in `getOrCreateDaemonForConnection` -/
  | looking
  /-- in `getOrCreateDaemon` -/
  | acquiring
  /-- before `CreateConnector` -/
  | connecting
  /-- before the new daemon is put into the map -/
  | inserting
  /-- before `createConnection` -/
  | creating (d : ℕ)
  /-- in `Initialize`, before it starts or while it waits for the first caller -/
  | joining (c d : ℕ) (first : Bool)
  /-- in `InitializeRemote` -/
  | transport (c d : ℕ) (first : Bool)
  /-- before `reassignDaemon` -/
  | reassigning (c d : ℕ)
  /-- superseded, before `initDone` is closed -/
  | reporting (c d : ℕ)
  /-- in `ensureDaemon` -/
  | ensuring (c d : ℕ) (first : Bool)
  /-- before `followSupersede` -/
  | following (c d : ℕ)
  /-- before `updateDaemon` -/
  | moved (c d e : ℕ)
  /-- `initErr` is known -/
  | ended (c d : ℕ) (ok : Bool)
  /-- before `updateDaemonRemoteRoots` -/
  | refreshing (c d : ℕ)
  /-- in `remove`, before the connection is looked up -/
  | finding
  /-- in `remove`, before the connection is deleted -/
  | removing (c : ℕ)
  | done (ok : Bool)
  deriving DecidableEq

structure Op where
  name : String
  args : Args
  pc : Pc

/-- The manager and everything in its heap.  Connections, daemons and operations are numbered as
they appear. -/
structure Manager where
  env : Env
  connections : AList fun _ : String => ℕ
  daemons : AList fun _ : String => ℕ
  conn : ℕ → Connection
  connCount : ℕ
  daemon : ℕ → Daemon
  daemonCount : ℕ
  op : ℕ → Op
  opCount : ℕ
  urls : ℕ → Url

def Manager.init (env : Env) : Manager where
  env := env
  connections := ∅
  daemons := ∅
  conn _ := ⟨"", 0, "", "", false⟩
  connCount := 0
  daemon _ := ⟨"", 0, none, .fresh, 0, [], false⟩
  daemonCount := 0
  op _ := ⟨"", ⟨"", "", "", false, false⟩, .idle⟩
  opCount := 0
  urls _ := ⟨"", "", "", "", ""⟩

namespace Manager

/-- The connections with their names, as in a range over the map. -/
def registered (w : Manager) : List Connection := w.connections.entries.map fun e => w.conn e.2

/-- The local root overlaps with that of a connection. -/
def checkOverlappingRoots (w : Manager) (localRoot : String) : Bool :=
  w.registered.any fun conn =>
    !(conn.background || conn.localRoot = "") &&
      ((hasPathPrefix (w.env.toLower localRoot) (w.env.toLower conn.localRoot)).isSome ||
        (hasPathPrefix (w.env.toLower conn.localRoot) (w.env.toLower localRoot)).isSome)

/-- `createConnection` refuses the local root. -/
def overlaps (w : Manager) (args : Args) : Bool :=
  !args.background && args.localRoot ≠ "" && w.checkOverlappingRoots args.localRoot

/-- Store daemon `d`. -/
def setDaemon (w : Manager) (d : ℕ) (v : Daemon) : Manager :=
  { w with daemon := update w.daemon d v }

/-- Move operation `t`. -/
def setPc (w : Manager) (t : ℕ) (pc : Pc) : Manager :=
  { w with op := update w.op t { w.op t with pc := pc } }

/-- Add `k` references to daemon `d`. -/
def addRefs (w : Manager) (d : ℕ) (k : ℤ) : Manager :=
  w.setDaemon d { w.daemon d with refCount := (w.daemon d).refCount + k }

def forget (w : Manager) (key : String) : Manager :=
  { w with daemons := w.daemons.erase key }

def unregister (w : Manager) (name : String) : Manager :=
  { w with connections := w.connections.erase name }

/-- Refresh the remote roots stored on daemon `d`. -/
def updateDaemonRemoteRoots (w : Manager) (d : ℕ) : Manager :=
  w.setDaemon d { w.daemon d with
    remoteRoots := (w.registered.filter fun conn => conn.daemon = d ∧ conn.remoteRoot ≠ "").map
      (·.remoteRoot) }

/-- Give up a reference of daemon `d`, which is destroyed with the last one. -/
def releaseDaemon (w : Manager) (d : ℕ) : Manager :=
  let w' := w.addRefs d (-1)
  if 0 < (w'.daemon d).refCount then w'
  else
    (w'.forget (w'.daemon d).mapKey).setDaemon d { w'.daemon d with destroyed := true }

/-- `Initialize` of daemon `d` ends. -/
def finishInit (w : Manager) (d : ℕ) (result : InitResult) : Manager :=
  w.setDaemon d { w.daemon d with init := .finished result }

/-- The key of operation `t`'s destination. -/
def key (w : Manager) (t : ℕ) : String := daemonKey (w.urls t) (w.op t).args.identity

end Manager

/-! ### Steps -/

inductive Step
  /-- the scheme has no connector factory -/
  | noScheme
  /-- the name is taken: the connection is returned, or refused because its destination differs -/
  | found (c : ℕ)
  | absent
  /-- the daemon is in the map -/
  | share (d : ℕ)
  | miss
  | connectorFailed
  | connectorMade
  /-- another operation was faster: the new daemon is closed and dropped -/
  | shareLate (d : ℕ)
  | insert
  | overlap (d : ℕ)
  | create (d : ℕ)
  /-- the first call of `Initialize` -/
  | start (c d : ℕ) (first : Bool)
  /-- `Initialize` was called before and has ended -/
  | joined (c d : ℕ) (first : Bool) (result : InitResult)
  /-- the operation's context ends while it waits -/
  | canceled (c d : ℕ) (first : Bool)
  /-- the daemon was closed before anybody initialized it -/
  | refused (c d : ℕ) (first : Bool)
  /-- `InitializeRemote`, which may rewrite the destination -/
  | remoteFailed (c d : ℕ) (first : Bool) (destURL : Url)
  | remoteUp (c d : ℕ) (first : Bool) (destURL : Url)
  /-- `reassignDaemon` finds the resolved key free -/
  | rekey (c d : ℕ)
  /-- `reassignDaemon` finds a daemon at the resolved key -/
  | supersede (c d e : ℕ)
  | report (c d : ℕ)
  | ensured (c d : ℕ) (first ok : Bool)
  | follow (c d e : ℕ)
  | updateDaemon (c d e : ℕ)
  /-- the remote root was resolved with the home directory -/
  | setRoots (c d : ℕ) (remoteRoot : String)
  | setRootsFailed (c d : ℕ)
  | refresh (c d : ℕ)
  | settle (c d : ℕ)
  /-- a failed `Initialize` -/
  | destroy (c d : ℕ)
  /-- a failed `Restore` -/
  | keep (c d : ℕ)
  | find (c : ℕ)
  | findMissing
  | drop (c : ℕ)

namespace Step

/-- Whether operation `t` can take the step. -/
def Enabled (w : Manager) (t : ℕ) : Step → Prop
  | noScheme => (w.op t).pc = .looking ∧ (w.urls t).scheme ∉ w.env.schemes
  | found c =>
    (w.op t).pc = .looking ∧ (w.urls t).scheme ∈ w.env.schemes ∧
      w.connections.lookup (w.op t).name = some c
  | absent =>
    (w.op t).pc = .looking ∧ (w.urls t).scheme ∈ w.env.schemes ∧
      w.connections.lookup (w.op t).name = none
  | share d => (w.op t).pc = .acquiring ∧ w.daemons.lookup (w.key t) = some d
  | miss => (w.op t).pc = .acquiring ∧ w.daemons.lookup (w.key t) = none
  | connectorFailed => (w.op t).pc = .connecting
  | connectorMade => (w.op t).pc = .connecting
  | shareLate d => (w.op t).pc = .inserting ∧ w.daemons.lookup (w.key t) = some d
  | insert => (w.op t).pc = .inserting ∧ w.daemons.lookup (w.key t) = none
  | overlap d => (w.op t).pc = .creating d ∧ w.overlaps (w.op t).args = true
  | create d => (w.op t).pc = .creating d ∧ w.overlaps (w.op t).args = false
  | start c d first => (w.op t).pc = .joining c d first ∧ (w.daemon d).init = .fresh
  | joined c d first r =>
    (w.op t).pc = .joining c d first ∧ (w.daemon d).init = .finished r
  | canceled c d first => (w.op t).pc = .joining c d first ∧ (w.daemon d).init ≠ .fresh
  | refused c d first =>
    (w.op t).pc = .joining c d first ∧ (w.daemon d).init = .fresh ∧ (w.daemon d).destroyed = true
  | remoteFailed c d first _ => (w.op t).pc = .transport c d first
  | remoteUp c d first _ => (w.op t).pc = .transport c d first
  | rekey c d =>
    (w.op t).pc = .reassigning c d ∧
      ((w.daemon d).mapKey = w.key t ∨ w.daemons.lookup (w.key t) = none)
  | supersede c d e =>
    (w.op t).pc = .reassigning c d ∧ (w.daemon d).mapKey ≠ w.key t ∧
      w.daemons.lookup (w.key t) = some e
  | report c d => (w.op t).pc = .reporting c d
  | ensured c d first _ => (w.op t).pc = .ensuring c d first
  | follow c d e => (w.op t).pc = .following c d ∧ (w.daemon d).supersededBy = some e
  | updateDaemon c d e => (w.op t).pc = .moved c d e
  | setRoots c d _ => (w.op t).pc = .ended c d true
  | setRootsFailed c d => (w.op t).pc = .ended c d true
  | refresh c d => (w.op t).pc = .refreshing c d
  | settle c d => (w.op t).pc = .ended c d true
  | destroy c d => (w.op t).pc = .ended c d false ∧ (w.op t).args.destroyIfFail = true
  | keep c d => (w.op t).pc = .ended c d false ∧ (w.op t).args.destroyIfFail = false
  | find c => (w.op t).pc = .finding ∧ w.connections.lookup (w.op t).name = some c
  | findMissing => (w.op t).pc = .finding ∧ w.connections.lookup (w.op t).name = none
  | drop c => (w.op t).pc = .removing c

instance (w : Manager) (t : ℕ) (s : Step) : Decidable (s.Enabled w t) := by
  cases s <;> dsimp only [Enabled] <;> infer_instance

/-- The state after the step of operation `t`. -/
def fire (w : Manager) (t : ℕ) : Step → Manager
  | noScheme => w.setPc t (.done false)
  | found c =>
    -- the destinations are compared as they are now, resolved or not
    w.setPc t (.done (w.urls (w.daemon (w.conn c).daemon).url = w.urls t))
  | absent => w.setPc t .acquiring
  | share d | shareLate d => (w.addRefs d 1).setPc t (.creating d)
  | miss => w.setPc t .connecting
  | connectorFailed => w.setPc t (.done false)
  | connectorMade => w.setPc t .inserting
  | insert =>
    { w.setDaemon w.daemonCount ⟨w.key t, 1, none, .fresh, t, [], false⟩ with
      daemons := w.daemons.insert (w.key t) w.daemonCount
      daemonCount := w.daemonCount + 1 }.setPc t (.creating w.daemonCount)
  | overlap _ => w.setPc t (.done false)
  | create d =>
    ({ w with
      conn := update w.conn w.connCount ⟨(w.op t).name, d, (w.op t).args.localRoot,
        (w.op t).args.remoteRoot, (w.op t).args.background⟩
      connections := w.connections.insert (w.op t).name w.connCount
      connCount := w.connCount + 1 }.updateDaemonRemoteRoots d).setPc t
        (.joining w.connCount d true)
  | start c d first =>
    (w.setDaemon d { w.daemon d with init := .running }).setPc t (.transport c d first)
  | joined c d first r =>
    w.setPc t (if r = .superseded ∧ first = true then .following c d else .ended c d (r = .ok))
  | canceled c d _ | refused c d _ => w.setPc t (.ended c d false)
  | remoteFailed c d _ u =>
    ({ w with urls := update w.urls (w.daemon d).url u }.finishInit d .failed).setPc t
      (.ended c d false)
  | remoteUp c d first u =>
    { w with urls := update w.urls (w.daemon d).url u }.setPc t
      (if first then .reassigning c d else .ensuring c d false)
  | rekey c d =>
    if (w.daemon d).mapKey = w.key t then w.setPc t (.ensuring c d true)
    else
      { w.setDaemon d { w.daemon d with mapKey := w.key t } with
        daemons := (w.daemons.erase (w.daemon d).mapKey).insert (w.key t) d }.setPc t
          (.ensuring c d true)
  | supersede c d e =>
    ((w.forget (w.daemon d).mapKey).setDaemon d
      { w.daemon d with supersededBy := some e }).setPc t (.reporting c d)
  | report c d => (w.finishInit d .superseded).setPc t (.following c d)
  | ensured c d _ ok => (w.finishInit d (if ok then .ok else .failed)).setPc t (.ended c d ok)
  | follow c d e => ((w.addRefs d (-1)).addRefs e 1).setPc t (.moved c d e)
  | updateDaemon c _ e =>
    { w with conn := update w.conn c { w.conn c with daemon := e } }.setPc t (.joining c e false)
  | setRoots c d root =>
    { w with conn := update w.conn c { w.conn c with remoteRoot := root } }.setPc t
      (.refreshing c d)
  | setRootsFailed _ _ => w.setPc t (.done false)
  | refresh _ d => (w.updateDaemonRemoteRoots d).setPc t (.done true)
  | settle _ _ => w.setPc t (.done true)
  | destroy _ d => ((w.unregister (w.op t).name).releaseDaemon d).setPc t (.done false)
  | keep _ _ => w.setPc t (.done false)
  | find c => w.setPc t (.removing c)
  | findMissing => w.setPc t (.done false)
  | drop c =>
    let w' := (w.unregister (w.op t).name).updateDaemonRemoteRoots (w.conn c).daemon
    (w'.releaseDaemon (w.conn c).daemon).setPc t (.done true)

end Step

inductive Event
  /-- `Initialize` or `Restore` is called -/
  | callInitialize (name : String) (destURL : Url) (args : Args)
  /-- `Remove` is called -/
  | callRemove (name : String)
  | step (t : ℕ) (s : Step)

namespace Event

def Enabled (w : Manager) : Event → Prop
  | callInitialize _ _ _ | callRemove _ => True
  | step t s => s.Enabled w t

instance (w : Manager) (e : Event) : Decidable (e.Enabled w) := by
  cases e <;> dsimp only [Enabled] <;> infer_instance

def begin (w : Manager) (op : Op) : Manager :=
  { w with op := update w.op w.opCount op, opCount := w.opCount + 1 }

def fire (w : Manager) : Event → Manager
  | callInitialize name destURL args =>
    { begin w ⟨if name = "" then destURL.host else name, args, .looking⟩ with
      urls := update w.urls w.opCount destURL }
  | callRemove name => begin w ⟨name, ⟨"", "", "", false, false⟩, .finding⟩
  | step t s => s.fire w t

end Event

def manager : Machine Manager Event where
  enabled := fun w e => e.Enabled w
  fire := Event.fire

instance (w : Manager) (e : Event) : Decidable (manager.enabled w e) :=
  inferInstanceAs (Decidable (e.Enabled w))

/-- A state of a run in which every step satisfies `ok`. -/
def Reaches (env : Env) (ok : Manager → Event → Prop) (w : Manager) : Prop :=
  manager.Run ok (.init env) w

end Graft.Connections
