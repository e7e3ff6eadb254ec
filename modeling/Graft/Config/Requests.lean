import Mathlib.Data.List.AList
import Graft.Library.Machine
import Graft.Config.Validate
import Graft.Config.PortSpec

/-!
# Requests, ticks and restores (`pkg/server.go`)

The server keeps what a connection forwards twice: in the configuration, and live, in the connection
and its daemon.  Requests change both.  A reconcile tick takes a copy of the configuration and adds
what it finds missing from the connections that are connected; when the server starts, each
connection is restored from the configuration as it was then.

A request holds `serverMu` from its beginning to its end, so that there is at most one; a tick holds
it only while it copies the configuration.  A step is a section under `serverMu`, or one under the
lock of a connection or a daemon.

What the connection manager does to connect is left to the environment, as are the synchronizations
but for what is recorded of them; the listeners of the port forwards are left out, and so is the
check of the names of a request to forward environment variables.  The lists that `restore` has
taken are copies here; in the source they share their memory with the configuration.
-/

namespace Graft.Config

open Function (update)

/-! ### Data -/

structure ForwardCommandIntent where
  name : String
  withPrefix : Bool
  deriving DecidableEq

structure Connection where
  name : String
  daemon : ℕ
  localRoot : String
  remoteRoot : String
  fwdList : List ForwardCommandIntent
  envFwdList : List String
  synchronizations : List SynchronizationIntent

/-- What is desired and not active, in the order in which it is desired. -/
def computeMissing {α : Type} [DecidableEq α] (desired active : List α) : List α :=
  desired.filter (· ∉ active)

def computeMissingForwardCommands (desired active : List ForwardCommandIntent) :
    List ForwardCommandIntent :=
  computeMissing desired active

def computeMissingEnvForward (desired active : List String) : List String :=
  computeMissing desired active

/-- The commands that the configuration of a connection forwards. -/
def ConnectionConfig.intents (conf : ConnectionConfig) : List ForwardCommandIntent :=
  conf.forward.map (⟨·, false⟩) ++ conf.prefixForward.map (⟨·, true⟩)

/-- The specs in the configuration of a connection; what is not a spec is skipped. -/
def ConnectionConfig.specs (conf : ConnectionConfig) : List PortForwardSpec :=
  conf.ports.filterMap parsePortSpec

/-- Replace the first configuration with the given name. -/
def updateConnection (name : String) (f : ConnectionConfig → ConnectionConfig) :
    List ConnectionConfig → List ConnectionConfig
  | [] => []
  | conn :: conns =>
    if conn.name = name then f conn :: conns else conn :: updateConnection name f conns

theorem mem_updateConnection_of_mem (name : String) (f : ConnectionConfig → ConnectionConfig)
    {config : List ConnectionConfig} {conf : ConnectionConfig} (h : conf ∈ config) :
    conf ∈ updateConnection name f config ∨
      conf.name = name ∧ f conf ∈ updateConnection name f config := by
  induction config with
  | nil => cases h
  | cons first rest ih =>
    unfold updateConnection
    rcases List.mem_cons.1 h with rfl | hrest
    · split_ifs with hname
      · exact .inr ⟨hname, List.mem_cons_self ..⟩
      · exact .inl (List.mem_cons_self ..)
    · split_ifs
      · exact .inl (List.mem_cons_of_mem _ hrest)
      · exact (ih hrest).imp (List.mem_cons_of_mem _) (.imp_right (List.mem_cons_of_mem _))

/-- The first connection of the name is the one that is updated. -/
theorem find?_updateConnection {name : String} {f : ConnectionConfig → ConnectionConfig}
    (hf : ∀ conf, (f conf).name = conf.name) (config : List ConnectionConfig) :
    (updateConnection name f config).find? (·.name = name) =
      (config.find? (·.name = name)).map f := by
  induction config with
  | nil => rfl
  | cons first rest ih =>
    unfold updateConnection
    by_cases hname : first.name = name
    · simp [hname, hf]
    · simp [hname, ih]

theorem exists_updated {name : String} (f : ConnectionConfig → ConnectionConfig)
    {config : List ConnectionConfig} (h : ∃ conf ∈ config, conf.name = name) :
    ∃ conf, conf.name = name ∧ f conf ∈ updateConnection name f config := by
  induction config with
  | nil =>
    simp_all
  | cons first rest ih =>
    unfold updateConnection
    split_ifs with hname
    · exact ⟨first, hname, List.mem_cons_self ..⟩
    · obtain ⟨conf, hconf, hupdated⟩ := ih ((List.exists_mem_cons_iff ..).1 h |>.resolve_left hname)
      grind

/-! ### Changes -/

/-- What a request changes at a connection. -/
inductive Change
  | updateForwardCommands (commands : List ForwardCommandIntent)
  | removeForwardCommands (commands : List String)
  | updateEnvForward (names : List String)
  | removeEnvForward (names : List String)
  | addPortForwards (specs : List PortForwardSpec)
  | removePortForwards (specs : List PortForwardSpec)
  | updateConnectionRoots (localRoot remoteRoot : String)
  | setForwardAgent (enabled : Bool)
  | updateSynchronizations
  deriving DecidableEq

def addSpec (ports : List String) (spec : PortForwardSpec) : List String :=
  if spec.string ∈ ports then ports else ports ++ [spec.string]

namespace Change

/-- What the request does to the connection itself; port forwards are the daemon's. -/
def apply (conn : Connection) : Change → Connection
  | updateForwardCommands commands => { conn with fwdList := conn.fwdList ++ commands }
  | removeForwardCommands commands =>
    { conn with fwdList := conn.fwdList.filter (·.name ∉ commands) }
  | updateEnvForward names => { conn with envFwdList := conn.envFwdList ++ names }
  | removeEnvForward names => { conn with envFwdList := conn.envFwdList.filter (· ∉ names) }
  | updateConnectionRoots localRoot remoteRoot =>
    { conn with
      localRoot := if localRoot = "" then conn.localRoot else localRoot
      remoteRoot := if remoteRoot = "" then conn.remoteRoot else remoteRoot }
  | addPortForwards _ | removePortForwards _ | setForwardAgent _ | updateSynchronizations => conn

/-- What the request does to the configuration `conf` of the connection. -/
def configure (conn : Connection) (conf : ConnectionConfig) : Change → ConnectionConfig
  | updateForwardCommands commands =>
    { conf with
      forward := conf.forward ++ (commands.filter (!·.withPrefix)).map (·.name)
      prefixForward := conf.prefixForward ++ (commands.filter (·.withPrefix)).map (·.name) }
  | removeForwardCommands commands =>
    { conf with
      forward := conf.forward.filter (· ∉ commands)
      prefixForward := conf.prefixForward.filter (· ∉ commands) }
  | updateEnvForward names => { conf with envForward := conf.envForward ++ names }
  | removeEnvForward names => { conf with envForward := conf.envForward.filter (· ∉ names) }
  | addPortForwards specs => { conf with ports := specs.foldl addSpec conf.ports }
  | removePortForwards specs =>
    { conf with ports := conf.ports.filter (· ∉ specs.map (·.string)) }
  | updateConnectionRoots localRoot remoteRoot =>
    { conf with
      localRoot := if localRoot = "" then conf.localRoot else localRoot
      remoteRoot := if remoteRoot = "" then conf.remoteRoot else remoteRoot }
  | setForwardAgent enabled => { conf with forwardAgent := enabled }
  | updateSynchronizations => { conf with synchronizations := conn.synchronizations }

end Change

/-! ### The state -/

/-- Port forwards that are being added to a daemon: those that are left, and whether the first is
recorded and being started. -/
structure PortQueue where
  daemon : ℕ
  specs : List PortForwardSpec
  starting : Bool
  deriving DecidableEq

/-- The arguments of `Initialize`. -/
structure InitArgs where
  scheme : String
  localRoot : String
  background : Bool
  deriving DecidableEq

/-- Where the request is that holds `serverMu`. -/
inductive Request
  /-- in `Initialize`; the connection it has registered -/
  | initializing (args : InitArgs) (registered : Option ℕ)
  /-- `Initialize` has returned connection `c`; before the configuration is changed -/
  | initialized (args : InitArgs) (c : ℕ)
  /-- a connection was removed; before the configuration is changed -/
  | removed (name : String)
  /-- the connection was found -/
  | changing (c : ℕ) (change : Change)
  /-- `UpdateEnvForward` has computed what is missing -/
  | addingEnv (c : ℕ) (missing : List String)
  /-- in `AddPortForwards`; the specs that were added -/
  | addingPorts (c : ℕ) (queue : PortQueue) (added : List PortForwardSpec)
  /-- the connection was changed; before its configuration is -/
  | changed (c : ℕ) (change : Change)
  deriving DecidableEq

/-- Where the tick is; `rest` are the configurations it has not come to. -/
inductive Tick
  | idle
  | next (rest : List ConnectionConfig)
  /-- before `ForwardIntents` -/
  | forwards (conf : ConnectionConfig) (c : ℕ) (rest : List ConnectionConfig)
  /-- before `UpdateForwardCommands` -/
  | addingForwards (missing : List ForwardCommandIntent) (conf : ConnectionConfig) (c : ℕ)
    (rest : List ConnectionConfig)
  /-- before `EnvForwardNames` -/
  | env (conf : ConnectionConfig) (c : ℕ) (rest : List ConnectionConfig)
  /-- before `UpdateEnvForward` -/
  | addingEnv (missing : List String) (conf : ConnectionConfig) (c : ℕ)
    (rest : List ConnectionConfig)
  /-- before `reconcilePortForwards` -/
  | syncs (conf : ConnectionConfig) (c : ℕ) (rest : List ConnectionConfig)
  | ports (queue : PortQueue) (conf : ConnectionConfig) (rest : List ConnectionConfig)
  deriving DecidableEq

inductive Restore
  | idle
  /-- in `connMgr.Restore` -/
  | connecting (conf : ConnectionConfig)
  /-- before `UpdateForwardCommands` -/
  | forwards (conf : ConnectionConfig)
  /-- before `restorePortForwards` -/
  | syncs (conf : ConnectionConfig)
  | ports (queue : PortQueue) (conf : ConnectionConfig)
  | done
  deriving DecidableEq

/-- The configuration, the connections and their daemons, and where requests, ticks and restores are. -/
structure Server where
  config : List ConnectionConfig
  connections : AList fun _ : String => ℕ
  conn : ℕ → Connection
  connCount : ℕ
  /-- which daemons are connected -/
  connected : ℕ → Bool
  explicitPorts : ℕ → AList fun _ : String => PortForwardSpec
  request : Option Request
  tick : Tick
  restores : ℕ → Restore
  restoreCount : ℕ
  /-- `restore` has begun -/
  restoring : Bool

def Server.init (config : List ConnectionConfig) : Server where
  config := config
  connections := ∅
  conn _ := ⟨"", 0, "", "", [], [], []⟩
  connCount := 0
  connected _ := false
  explicitPorts _ := ∅
  request := none
  tick := .idle
  restores _ := .idle
  restoreCount := 0
  restoring := false

namespace Server

/-- `connMgr.Connection`: the connection is registered and connected. -/
def usable (w : Server) (name : String) : Option ℕ :=
  (w.connections.lookup name).filter fun c => w.connected (w.conn c).daemon

/-- Change connection `c`. -/
def setConn (w : Server) (c : ℕ) (conn : Connection) : Server := { w with conn := update w.conn c conn }

def register (w : Server) (conn : Connection) : Server :=
  { w with
    connections := w.connections.insert conn.name w.connCount
    conn := update w.conn w.connCount conn
    connCount := w.connCount + 1 }

/-- Change the explicit port forwards of daemon `d`. -/
def setPorts (w : Server) (d : ℕ) (ports : AList fun _ : String => PortForwardSpec) : Server :=
  { w with explicitPorts := update w.explicitPorts d ports }

/-- `RemoveExplicitPortForward`, for several specs. -/
def removePorts (w : Server) (d : ℕ) (specs : List PortForwardSpec) : Server :=
  w.setPorts d (specs.foldl (fun ports spec => ports.erase spec.key) (w.explicitPorts d))

/-- The change, made at the connection itself. -/
def applyChange (w : Server) (c : ℕ) : Change → Server
  | .removePortForwards specs => w.removePorts (w.conn c).daemon specs
  | change => w.setConn c (change.apply (w.conn c))

end Server

/-! ### Steps -/

inductive Adder
  | request
  | tick
  | restore (i : ℕ)
  deriving DecidableEq

namespace Server

def queue (w : Server) : Adder → Option PortQueue
  | .request =>
    match w.request with
    | some (.addingPorts _ q _) => some q
    | _ => none
  | .tick =>
    match w.tick with
    | .ports q _ _ => some q
    | _ => none
  | .restore i =>
    match w.restores i with
    | .ports q _ => some q
    | _ => none

/-- The thread goes on with these port forwards; `added` is what it has added. -/
def setQueue (w : Server) (q : PortQueue) (added : List PortForwardSpec) : Adder → Server
  | .request =>
    match w.request with
    | some (.addingPorts c _ specs) => { w with request := some (.addingPorts c q (specs ++ added)) }
    | _ => w
  | .tick =>
    match w.tick with
    | .ports _ conf rest => { w with tick := .ports q conf rest }
    | _ => w
  | .restore i =>
    match w.restores i with
    | .ports _ conf => { w with restores := update w.restores i (.ports q conf) }
    | _ => w

/-- A port is in use: a request fails, the others go on. -/
def conflict (w : Server) (q : PortQueue) : Adder → Server
  | .request => { w with request := none }
  | who => w.setQueue { q with specs := q.specs.tail, starting := false } [] who

def portsAdded (w : Server) : Adder → Server
  | .request =>
    match w.request with
    | some (.addingPorts c _ added) => { w with request := some (.changed c (.addPortForwards added)) }
    | _ => w
  | .tick =>
    match w.tick with
    | .ports _ _ rest => { w with tick := .next rest }
    | _ => w
  | .restore i => { w with restores := update w.restores i .done }

section Frame

variable (w : Server) (q : PortQueue) (added : List PortForwardSpec) (who : Adder)

@[simp] theorem setQueue_config : (w.setQueue q added who).config = w.config := by
  cases who <;> rw [setQueue] <;> split <;> rfl

@[simp] theorem setQueue_conn : (w.setQueue q added who).conn = w.conn := by
  cases who <;> rw [setQueue] <;> split <;> rfl

@[simp] theorem conflict_config : (w.conflict q who).config = w.config := by
  cases who <;> simp [conflict]

@[simp] theorem conflict_conn : (w.conflict q who).conn = w.conn := by
  cases who <;> simp [conflict]

@[simp] theorem portsAdded_config : (w.portsAdded who).config = w.config := by
  cases who <;> rw [portsAdded] <;> split <;> rfl

@[simp] theorem portsAdded_conn : (w.portsAdded who).conn = w.conn := by
  cases who <;> rw [portsAdded] <;> split <;> rfl

@[simp] theorem setPorts_config (d : ℕ) (ports) : (w.setPorts d ports).config = w.config := rfl

@[simp] theorem setPorts_conn (d : ℕ) (ports) : (w.setPorts d ports).conn = w.conn := rfl

@[simp] theorem applyChange_config (c : ℕ) (change : Change) :
    (w.applyChange c change).config = w.config := by
  cases change <;> rfl

end Frame

end Server

/-- The steps of the requests and of the ticks, cut where a lock is released. -/
inductive Event
  /-- `InitializeSSHConnection`, `InitializeContainerConnection` -/
  | callInitialize (args : InitArgs)
  /-- the connection is registered while it is being initialized -/
  | initRegister (args : InitArgs) (name : String) (d : ℕ) (remoteRoot : String)
  /-- `Initialize` returns a connection that was there -/
  | initFound (args : InitArgs) (name : String) (c : ℕ)
  | initSucceeded (args : InitArgs) (c : ℕ)
  | initFailed (args : InitArgs) (registered : Option ℕ)
  /-- the configuration is appended; `rest` is what follows the scheme in the destination -/
  | initCommit (args : InitArgs) (c : ℕ) (rest : String)
  | removeConnection (name : String) (c : ℕ)
  | removeCommit (name : String)
  /-- any other request finds its connection -/
  | call (name : String) (c : ℕ) (change : Change)
  | apply (c : ℕ) (change : Change)
  | abort (c : ℕ) (change : Change)
  /-- `UpdateEnvForward` computes what is missing -/
  | readEnv (c : ℕ) (names : List String)
  | addEnv (c : ℕ) (missing : List String)
  | abortEnv (c : ℕ) (missing : List String)
  | addPorts (c : ℕ) (specs : List PortForwardSpec)
  | commit (c : ℕ) (change : Change)
  /-- `Reload`; `none` is a file that cannot be read -/
  | reload (content : Option (List ConnectionConfig))
  /-- `AddExplicitPortForward` records the next spec, unless its key is there -/
  | recordPort (who : Adder) (q : PortQueue)
  | startPort (who : Adder) (q : PortQueue)
  | conflictPort (who : Adder) (q : PortQueue)
  | endPorts (who : Adder) (q : PortQueue)
  | tickBegin
  /-- the connection is not there, or not connected -/
  | tickSkip (conf : ConnectionConfig) (rest : List ConnectionConfig)
  | tickEnter (conf : ConnectionConfig) (c : ℕ) (rest : List ConnectionConfig)
  | tickReadForwards (conf : ConnectionConfig) (c : ℕ) (rest : List ConnectionConfig)
  | tickAddForwards (missing : List ForwardCommandIntent) (conf : ConnectionConfig) (c : ℕ)
    (rest : List ConnectionConfig)
  | tickReadEnv (conf : ConnectionConfig) (c : ℕ) (rest : List ConnectionConfig)
  | tickAddEnv (missing : List String) (conf : ConnectionConfig) (c : ℕ)
    (rest : List ConnectionConfig)
  | tickPorts (conf : ConnectionConfig) (c : ℕ) (rest : List ConnectionConfig)
  | tickEnd
  | restoreBegin
  | restoreRegister (i : ℕ) (conf : ConnectionConfig) (d : ℕ)
  | restoreReturned (i : ℕ) (conf : ConnectionConfig) (ok : Bool)
  | restoreForwards (i : ℕ) (conf : ConnectionConfig)
  | restorePorts (i : ℕ) (conf : ConnectionConfig)
  /-- the restore of the connection fails after it has added the commands -/
  | restoreFailed (i : ℕ) (conf : ConnectionConfig)
  /-- a daemon connects or loses its connection -/
  | setConnected (d : ℕ) (connected : Bool)
  | recordSync (c : ℕ) (intent : SynchronizationIntent)

namespace Server

/-- Whether the connection takes the change: some requests look it up again, and roots cannot be
changed under an active synchronization. -/
def Accepts (w : Server) (c : ℕ) : Change → Prop
  | .updateForwardCommands _ | .removeForwardCommands _ | .removeEnvForward _ =>
    w.usable (w.conn c).name = some c
  | .updateConnectionRoots _ _ => (w.conn c).synchronizations = []
  | _ => True

instance (w : Server) (c : ℕ) (change : Change) : Decidable (w.Accepts c change) := by
  cases change <;> dsimp only [Accepts] <;> infer_instance

end Server

def Change.direct : Change → Bool
  | updateEnvForward _ | addPortForwards _ => false
  | _ => true

/-- The restores of the connections of a configuration. -/
def restoresOf (config : List ConnectionConfig) (i : ℕ) : Restore :=
  match config[i]? with
  | some conf => .connecting conf
  | none => .idle

def ConnectionConfig.ofInit (args : InitArgs) (conn : Connection) (rest : String) :
    ConnectionConfig where
  name := conn.name
  destination := args.scheme ++ "://" ++ rest
  localRoot := args.localRoot
  remoteRoot := conn.remoteRoot
  forward := []
  prefixForward := []
  synchronizations := []
  background := args.background
  ports := []
  forwardAgent := false
  envForward := []

/-- The active synchronizations are kept by their source. -/
def setSync (syncs : List SynchronizationIntent) (intent : SynchronizationIntent) :
    List SynchronizationIntent :=
  syncs.filter (·.fromLocal ≠ intent.fromLocal) ++ [intent]

namespace Event

def Enabled (w : Server) : Event → Prop
  | callInitialize _ => w.request = none
  | initRegister args name _ _ =>
    w.request = some (.initializing args none) ∧ w.connections.lookup name = none
  | initFound args name c =>
    w.request = some (.initializing args none) ∧ w.connections.lookup name = some c
  | initSucceeded args c => w.request = some (.initializing args (some c))
  | initFailed args registered => w.request = some (.initializing args registered)
  | initCommit args c _ => w.request = some (.initialized args c)
  | removeConnection name c => w.request = none ∧ w.connections.lookup name = some c
  | removeCommit name => w.request = some (.removed name)
  | call name c _ => w.request = none ∧ w.usable name = some c
  | apply c change =>
    w.request = some (.changing c change) ∧ change.direct = true ∧ w.Accepts c change
  | abort c change => w.request = some (.changing c change) ∧ ¬ w.Accepts c change
  | readEnv c names => w.request = some (.changing c (.updateEnvForward names))
  | addEnv c missing =>
    w.request = some (.addingEnv c missing) ∧ w.usable (w.conn c).name = some c
  | abortEnv c missing =>
    w.request = some (.addingEnv c missing) ∧ w.usable (w.conn c).name ≠ some c
  | addPorts c specs => w.request = some (.changing c (.addPortForwards specs))
  | commit c change => w.request = some (.changed c change)
  | reload _ => True
  | recordPort who q => w.queue who = some q ∧ q.starting = false ∧ q.specs ≠ []
  | startPort who q | conflictPort who q => w.queue who = some q ∧ q.starting = true
  | endPorts who q => w.queue who = some q ∧ q.starting = false ∧ q.specs = []
  | tickBegin => w.tick = .idle ∧ w.request = none
  | tickSkip conf rest => w.tick = .next (conf :: rest) ∧ w.usable conf.name = none
  | tickEnter conf c rest => w.tick = .next (conf :: rest) ∧ w.usable conf.name = some c
  | tickReadForwards conf c rest => w.tick = .forwards conf c rest
  | tickAddForwards missing conf c rest => w.tick = .addingForwards missing conf c rest
  | tickReadEnv conf c rest => w.tick = .env conf c rest
  | tickAddEnv missing conf c rest => w.tick = .addingEnv missing conf c rest
  | tickPorts conf c rest => w.tick = .syncs conf c rest
  | tickEnd => w.tick = .next []
  | restoreBegin => w.restoring = false
  | restoreRegister i conf _ =>
    w.restores i = .connecting conf ∧ w.connections.lookup conf.name = none
  | restoreReturned i conf ok =>
    w.restores i = .connecting conf ∧ (ok = true → w.connections.lookup conf.name ≠ none)
  | restoreForwards i conf => w.restores i = .forwards conf
  | restorePorts i conf | restoreFailed i conf => w.restores i = .syncs conf
  | setConnected _ _ => True
  -- the modes have been checked, by `syncBetaConfiguration` or when the entry was first recorded
  | recordSync c intent => w.connections.lookup (w.conn c).name = some c ∧ intent.ModesOk

instance (w : Server) (e : Event) : Decidable (e.Enabled w) := by
  cases e <;> dsimp only [Enabled] <;> infer_instance

def fire (w : Server) : Event → Server
  | callInitialize args => { w with request := some (.initializing args none) }
  | initRegister args name d remoteRoot =>
    { w.register ⟨name, d, args.localRoot, remoteRoot, [], [], []⟩ with
      request := some (.initializing args (some w.connCount)) }
  | initFound args _ c | initSucceeded args c => { w with request := some (.initialized args c) }
  | initFailed _ registered =>
    { w with
      request := none
      connections :=
        match registered with
        | some c => w.connections.erase (w.conn c).name
        | none => w.connections }
  | initCommit args c rest =>
    { w with
      request := none
      config := w.config ++ [.ofInit args (w.conn c) rest] }
  | removeConnection name c =>
    { w.setConn c { w.conn c with synchronizations := [] } with
      connections := w.connections.erase name
      request := some (.removed name) }
  | removeCommit name =>
    { w with
      request := none
      config := w.config.filter (·.name ≠ name) }
  | call _ c change => { w with request := some (.changing c change) }
  | apply c change => { w.applyChange c change with request := some (.changed c change) }
  | abort _ _ | abortEnv _ _ => { w with request := none }
  | readEnv c names =>
    let missing := computeMissingEnvForward names (w.conn c).envFwdList
    { w with request := if missing = [] then none else some (.addingEnv c missing) }
  | addEnv c missing =>
    { w.applyChange c (.updateEnvForward missing) with
      request := some (.changed c (.updateEnvForward missing)) }
  | addPorts c specs =>
    { w with request := some (.addingPorts c ⟨(w.conn c).daemon, specs, false⟩ []) }
  | commit c change =>
    { w with
      request := none
      config := updateConnection (w.conn c).name (change.configure (w.conn c)) w.config }
  | reload content => { w with config := content.getD w.config }
  | recordPort who q =>
    match q.specs with
    | [] => w
    | spec :: specs =>
      if ((w.explicitPorts q.daemon).lookup spec.key).isSome then
        w.setQueue { q with specs := specs } [spec] who
      else
        (w.setPorts q.daemon ((w.explicitPorts q.daemon).insert spec.key spec)).setQueue
          { q with starting := true } [] who
  | startPort who q =>
    w.setQueue { q with specs := q.specs.tail, starting := false } q.specs.head?.toList who
  | conflictPort who q =>
    match q.specs with
    | [] => w
    | spec :: _ =>
      (w.setPorts q.daemon ((w.explicitPorts q.daemon).erase spec.key)).conflict q who
  | endPorts who _ => w.portsAdded who
  | tickBegin => { w with tick := .next w.config }
  | tickSkip _ rest => { w with tick := .next rest }
  | tickEnter conf c rest => { w with tick := .forwards conf c rest }
  | tickReadForwards conf c rest =>
    { w with
      tick := .addingForwards
        (computeMissingForwardCommands conf.intents (w.conn c).fwdList) conf c rest }
  | tickAddForwards missing conf c rest =>
    { w.applyChange c (.updateForwardCommands missing) with tick := .env conf c rest }
  | tickReadEnv conf c rest =>
    { w with
      tick := .addingEnv
        (computeMissingEnvForward conf.envForward (w.conn c).envFwdList) conf c rest }
  | tickAddEnv missing conf c rest =>
    { w.applyChange c (.updateEnvForward missing) with tick := .syncs conf c rest }
  | tickPorts conf c rest =>
    { w with tick := .ports ⟨(w.conn c).daemon, conf.specs, false⟩ conf rest }
  | tickEnd => { w with tick := .idle }
  | restoreBegin =>
    { w with
      restores := restoresOf w.config
      restoreCount := w.config.length
      restoring := true }
  | restoreRegister _ conf d =>
    w.register ⟨conf.name, d, conf.localRoot, conf.remoteRoot, [], [], []⟩
  | restoreReturned i conf ok =>
    { w with restores := update w.restores i (if ok then .forwards conf else .done) }
  | restoreForwards i conf =>
    match w.usable conf.name with
    | some c =>
      { w.applyChange c (.updateForwardCommands conf.intents) with
        restores := update w.restores i (.syncs conf) }
    | none => { w with restores := update w.restores i .done }
  | restorePorts i conf =>
    { w with
      restores := update w.restores i
        (match w.usable conf.name with
        | some c => .ports ⟨(w.conn c).daemon, conf.specs, false⟩ conf
        | none => .done) }
  | restoreFailed i _ => { w with restores := update w.restores i .done }
  | setConnected d connected => { w with connected := update w.connected d connected }
  | recordSync c intent =>
    w.setConn c { w.conn c with synchronizations := setSync (w.conn c).synchronizations intent }

end Event

/-- The server, with any interleaving of its requests and ticks. -/
def server : Machine Server Event where
  enabled := fun w e => e.Enabled w
  fire := Event.fire

instance (w : Server) (e : Event) : Decidable (server.enabled w e) :=
  inferInstanceAs (Decidable (e.Enabled w))

end Graft.Config
