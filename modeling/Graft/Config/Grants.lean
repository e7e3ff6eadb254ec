import Graft.Config.Saveable
import Graft.Library.Table

/-!
# What a removed connection leaves on its daemon (`pkg/connection_manager.go`, `pkg/server.go`)

Connections with the same host and identity share a daemon.  The agent forwards and the explicit
port forwards are the daemon's: the agent forwards by the names of the connections, the ports by
protocol and remote port.  A tick visits the connections that are configured; it starts or stops the
agent forward of each, and it adds ports and takes none away.  To remove a connection is to take it
from the manager and from the configuration; its daemon is destroyed with the last reference to it,
which is that of its last connection, unless `Initialize` has refused one and kept the reference.

When a daemon reconnects, its state changes and its agent forwards are torn down in one step.
-/

namespace Graft.Config

/-- The port forward is in the configuration, as written by a request or as read. -/
def ConnectionConfig.HasPort (conf : ConnectionConfig) (spec : PortForwardSpec) : Prop :=
  spec.string ∈ conf.ports ∨ spec ∈ conf.specs

theorem ConnectionConfig.HasPort.mono {conf conf' : ConnectionConfig} {spec : PortForwardSpec}
    (hs : conf.HasPort spec) (h : conf.ports ⊆ conf'.ports) : conf'.HasPort spec := by
  rcases hs with hs | hs
  · exact .inl (h hs)
  · grind [HasPort, specs]

theorem ConnectionConfig.HasPort.remove {conf : ConnectionConfig} {spec : PortForwardSpec}
    (h : conf.HasPort spec) {specs : List PortForwardSpec} (hspec : spec ∉ specs) (conn : Connection) :
    ((Change.removePortForwards specs).configure conn conf).HasPort spec := by
  have hkeep : ∀ text ∈ conf.ports, (∀ s ∈ specs, s.string ≠ text) →
      text ∈ ((Change.removePortForwards specs).configure conn conf).ports := by
    intro text htext hne
    refine List.mem_filter.2 ⟨htext, decide_eq_true fun hx => ?_⟩
    obtain ⟨s, hs, hst⟩ := List.mem_map.1 hx
    exact hne s hs hst
  rcases h with h | h
  · grind [PortForwardSpec.string_injective, HasPort]
  · grind [PortForwardSpec.parsePortSpec_string, HasPort, specs]

theorem mem_foldl_addSpec {text : String} {specs : List PortForwardSpec} {ports : List String} :
    text ∈ specs.foldl addSpec ports ↔ text ∈ ports ∨ ∃ spec ∈ specs, spec.string = text := by
  induction specs generalizing ports with
  | nil => simp
  | cons spec specs ih =>
    have hadd : text ∈ addSpec ports spec ↔ text ∈ ports ∨ spec.string = text := by
      grind [addSpec]
    rw [List.foldl_cons, ih, hadd, List.exists_mem_cons_iff, or_assoc]

theorem lookup_foldl_erase {specs : List PortForwardSpec}
    {ports : AList fun _ : String => PortForwardSpec} {key : String} {spec : PortForwardSpec}
    (h : (specs.foldl (fun ports s => ports.erase s.key) ports).lookup key = some spec) :
    ports.lookup key = some spec ∧ ∀ s ∈ specs, s.key ≠ key := by
  induction specs generalizing ports with
  | nil => exact ⟨h, nofun⟩
  | cons s specs ih =>
    grind [lookup_of_erase]

end Graft.Config

namespace Graft.Grants

open Function (update update_self update_of_ne)
open Graft.Config (ConnectionConfig PortForwardSpec Change InitArgs updateConnection)

variable {conf : ConnectionConfig}

/-! ### Daemons (`pkg/remote_daemon.go`) -/

/-- The explicit port forwards, by protocol and remote port. -/
abbrev Ports := AList fun _ : String => PortForwardSpec

/-- A daemon with its agent forwards and its explicit ports, which connections may share. -/
structure Daemon where
  connected : Bool
  /-- the connections with an agent forward -/
  agentForwards : List String
  explicitPorts : Ports

def Daemon.init : Daemon := ⟨false, [], ∅⟩

/-- `AddExplicitPortForward`; it fails if the local port is in use. -/
def addExplicitPortForward (inUse : PortForwardSpec → Bool) (ports : Ports)
    (spec : PortForwardSpec) : Option Ports :=
  if (ports.lookup spec.key).isSome then some ports
  else if inUse spec then none
  else some (ports.insert spec.key spec)

/-- `AddPortForwards` up to the first spec that fails, and whether none did. -/
def addPortForwards (inUse : PortForwardSpec → Bool) : List PortForwardSpec → Ports → Ports × Bool
  | [], ports => (ports, true)
  | spec :: specs, ports =>
    match addExplicitPortForward inUse ports spec with
    | some ports => addPortForwards inUse specs ports
    | none => (ports, false)

/-- `reconcilePortForwards`; a spec that fails is skipped. -/
def reconcilePortForwards (inUse : PortForwardSpec → Bool) (specs : List PortForwardSpec)
    (ports : Ports) : Ports :=
  specs.foldl (fun ports spec => (addExplicitPortForward inUse ports spec).getD ports) ports

/-- `RemoveExplicitPortForward`, for several specs. -/
def removePortForwards (specs : List PortForwardSpec) (ports : Ports) : Ports :=
  specs.foldl (fun ports spec => ports.erase spec.key) ports

def startAgentForward (name : String) (names : List String) : List String :=
  if name ∈ names then names else names ++ [name]

def stopAgentForward (name : String) (names : List String) : List String :=
  names.filter (· ≠ name)

def reconcileAgentForward (conf : ConnectionConfig) (names : List String) : List String :=
  if conf.forwardAgent then startAgentForward conf.name names else stopAgentForward conf.name names

/-- The steps of `applyConnectionSpec` that change the daemon. -/
def Daemon.applyConnectionSpec (inUse : PortForwardSpec → Bool) (conf : ConnectionConfig)
    (daemon : Daemon) : Daemon where
  connected := daemon.connected
  agentForwards := reconcileAgentForward conf daemon.agentForwards
  explicitPorts := reconcilePortForwards inUse conf.specs daemon.explicitPorts

/-! ### The server -/

/-- The configuration, the connections and their daemons. -/
structure State where
  config : List ConnectionConfig
  /-- the daemon of each connection -/
  connections : AList fun _ : String => ℕ
  daemons : ℕ → Daemon
  /-- the daemons with a reference that is no connection's -/
  leaked : List ℕ

def State.init (config : List ConnectionConfig) : State := ⟨config, ∅, fun _ => .init, []⟩

namespace State

variable (w : State)

def setDaemon (d : ℕ) (daemon : Daemon) : State := { w with daemons := update w.daemons d daemon }

@[simp] theorem setDaemon_self (d : ℕ) (daemon : Daemon) :
    (w.setDaemon d daemon).daemons d = daemon :=
  update_self ..

@[simp] theorem setDaemon_of_ne {d d' : ℕ} (h : d' ≠ d) (daemon : Daemon) :
    (w.setDaemon d daemon).daemons d' = w.daemons d' :=
  update_of_ne h ..

def usable (name : String) : Option ℕ :=
  (w.connections.lookup name).filter fun d => (w.daemons d).connected

/-- A connection is registered, unless there is one of that name. -/
def register (name : String) (d : ℕ) : State :=
  if (w.connections.lookup name).isSome then w
  else { w with connections := w.connections.insert name d }

/-- The explicit ports of a connection's daemon change. -/
def changePorts (name : String) (f : Ports → Ports) : State :=
  match w.connections.lookup name with
  | none => w
  | some d => w.setDaemon d { w.daemons d with explicitPorts := f (w.daemons d).explicitPorts }

@[simp] theorem changePorts_config (name : String) (f : Ports → Ports) :
    (w.changePorts name f).config = w.config := by
  unfold changePorts
  split
  · rfl
  · rfl

@[simp] theorem changePorts_connections (name : String) (f : Ports → Ports) :
    (w.changePorts name f).connections = w.connections := by
  unfold changePorts
  split
  · rfl
  · rfl

def visit (inUse : PortForwardSpec → Bool) (w : State) (conf : ConnectionConfig) : State :=
  match w.usable conf.name with
  | none => w
  | some d => w.setDaemon d ((w.daemons d).applyConnectionSpec inUse conf)

def reconcileConnections (inUse : PortForwardSpec → Bool) : State := w.config.foldl (visit inUse) w

/-- A connection of the daemon other than `name`, or a request that was refused, has a reference. -/
def Referenced (name : String) (d : ℕ) : Prop :=
  (∃ e ∈ (w.connections.erase name).entries, e.2 = d) ∨ d ∈ w.leaked

instance (name : String) (d : ℕ) : Decidable (w.Referenced name d) :=
  inferInstanceAs (Decidable (_ ∨ _))

/-- `ConnectionManager.remove`: the daemon is destroyed with its last reference. -/
def remove (name : String) : State :=
  match w.connections.lookup name with
  | none => w
  | some d =>
    if w.Referenced name d then
      { w with connections := w.connections.erase name }
    else { w.setDaemon d .init with connections := w.connections.erase name }

end State

/-- The requests, the ticks, and what happens to a daemon. -/
inductive Event
  /-- `Initialize` returns the connection `conn`, and it is configured -/
  | initConnection (args : InitArgs) (conn : Config.Connection) (rest : String)
  /-- `Initialize` has found or made the daemon, and refuses the roots of the connection -/
  | initRefused (d : ℕ)
  /-- a configured connection is restored when the server starts -/
  | restore (conf : ConnectionConfig) (d : ℕ)
  /-- and its port forwards -/
  | restorePortForwards (conf : ConnectionConfig) (inUse : PortForwardSpec → Bool)
  | addPortForwards (name : String) (specs : List PortForwardSpec) (inUse : PortForwardSpec → Bool)
  /-- another request changes the configuration of a connection; `conn` is the connection -/
  | change (conn : Config.Connection) (edit : Change)
  | removeConnection (name : String)
  /-- a new configuration is read -/
  | reload (content : List ConnectionConfig)
  | tick (inUse : PortForwardSpec → Bool)
  /-- a daemon has connected -/
  | connected (d : ℕ)
  /-- a daemon is lost, and tears its agent forwards down -/
  | reconnecting (d : ℕ)
  /-- an agent forward fails, or its backoff has passed -/
  | agentForwardEnded (d : ℕ) (name : String)

namespace Event

def Enabled (w : State) : Event → Prop
  | restore conf _ => conf ∈ w.config ∧ w.connections.lookup conf.name = none
  | restorePortForwards conf _ => conf ∈ w.config ∧ (w.usable conf.name).isSome
  | addPortForwards name _ _ => (w.usable name).isSome
  | change conn edit =>
    (w.usable conn.name).isSome ∧
      (match edit with
        | .addPortForwards _ => false
        | _ => true) = true
  | removeConnection name => (w.connections.lookup name).isSome
  | initConnection .. | initRefused _ | reload _ | tick _ | connected _ | reconnecting _
  | agentForwardEnded .. => True

/-- One request, or one visit of the tick. -/
def fire (w : State) : Event → State
  | initConnection args conn rest =>
    { w.register conn.name conn.daemon with config := w.config ++ [.ofInit args conn rest] }
  -- the reference to the daemon is not released
  | initRefused d => { w with leaked := d :: w.leaked }
  | restore conf d => w.register conf.name d
  | restorePortForwards conf inUse =>
    w.changePorts conf.name (reconcilePortForwards inUse conf.specs)
  | addPortForwards name specs inUse =>
    match w.connections.lookup name with
    | none => w
    | some d =>
      let added := Grants.addPortForwards inUse specs (w.daemons d).explicitPorts
      let w' := w.setDaemon d { w.daemons d with explicitPorts := added.1 }
      -- the configuration changes when no port was in use
      if added.2 then
        { w' with
          config := updateConnection name
            (fun conf => { conf with ports := specs.foldl Config.addSpec conf.ports }) w.config }
      else w'
  | change conn edit =>
    let w' := match edit with
      | .removePortForwards specs => w.changePorts conn.name (removePortForwards specs)
      | _ => w
    { w' with config := updateConnection conn.name (edit.configure conn) w.config }
  | removeConnection name => { w.remove name with config := w.config.filter (·.name ≠ name) }
  | reload content => { w with config := content }
  | tick inUse => w.reconcileConnections inUse
  | connected d => w.setDaemon d { w.daemons d with connected := true }
  | reconnecting d => w.setDaemon d { w.daemons d with connected := false, agentForwards := [] }
  | agentForwardEnded d name =>
    w.setDaemon d
      { w.daemons d with agentForwards := stopAgentForward name (w.daemons d).agentForwards }

end Event

def shared : Machine State Event := ⟨Event.Enabled, fun w e => e.fire w⟩

/-! ### What is granted -/

instance (conf : ConnectionConfig) (spec : PortForwardSpec) : Decidable (conf.HasPort spec) :=
  inferInstanceAs (Decidable (_ ∨ _))

namespace State

variable (w : State)

/-- One of the configurations `config`, of a connection of daemon `d`, has the port. -/
def Configures (config : List ConnectionConfig) (d : ℕ) (spec : PortForwardSpec) : Prop :=
  ∃ conf ∈ config, w.connections.lookup conf.name = some d ∧ conf.HasPort spec

instance (config : List ConnectionConfig) (d : ℕ) (spec : PortForwardSpec) :
    Decidable (w.Configures config d spec) :=
  inferInstanceAs (Decidable (∃ conf ∈ config, _ ∧ _))

/-- What daemon `d` forwards is configured, by connections that there are. -/
structure Granted (d : ℕ) : Prop where
  agents : ∀ name ∈ (w.daemons d).agentForwards,
    w.connections.lookup name = some d ∧
      ∃ conf ∈ w.config, conf.name = name ∧ conf.forwardAgent = true
  ports : ∀ key, ∀ spec ∈ (w.daemons d).explicitPorts.lookup key, w.Configures w.config d spec

end State

/-- Forwards are withdrawn before the connection that has configured them is removed, unless the
daemon goes with its last reference; no port is in use after the first of a request; and a configuration that is
read has the connections that there are, and their ports. -/
def Withdrawn (w : State) : Event → Prop
  | .removeConnection name =>
    ∀ d ∈ w.connections.lookup name, w.Referenced name d →
      name ∉ (w.daemons d).agentForwards ∧
      ∀ e ∈ (w.daemons d).explicitPorts.entries,
        w.Configures (w.config.filter (·.name ≠ name)) d e.2
  | .addPortForwards _ specs inUse => ∀ spec ∈ specs.tail, inUse spec = false
  | .reload content =>
    ∀ e ∈ w.connections.entries, (∃ conf ∈ content, conf.name = e.1) ∧
      ∀ p ∈ (w.daemons e.2).explicitPorts.entries, w.Configures content e.2 p.2
  | _ => True

/-! ### Ports -/

section Ports

variable {inUse : PortForwardSpec → Bool} {ports : Ports} {spec s : PortForwardSpec}
  {specs : List PortForwardSpec} {key : String}

theorem lookup_addExplicitPortForward {ports' : Ports}
    (h : addExplicitPortForward inUse ports spec = some ports') (hs : s ∈ ports'.lookup key) :
    s ∈ ports.lookup key ∨ s = spec ∧ s.key = key := by
  unfold addExplicitPortForward at h
  split_ifs at h with hfound hused
  · cases h
    exact .inl hs
  · cases h
    obtain ⟨rfl, rfl⟩ | ⟨-, hs⟩ := lookup_insert_cases hs
    · exact .inr ⟨rfl, rfl⟩
    · exact .inl hs

theorem lookup_addPortForwards (hs : s ∈ (addPortForwards inUse specs ports).1.lookup key) :
    s ∈ ports.lookup key ∨ s ∈ specs ∧ s.key = key := by
  induction specs generalizing ports with
  | nil => exact .inl hs
  | cons spec specs ih =>
    rw [addPortForwards] at hs
    split at hs
    next ports' hadd =>
      rcases ih hs with hs | ⟨hs, hkey⟩
      · refine (lookup_addExplicitPortForward hadd hs).imp_right fun ⟨hx, hkey⟩ => ⟨?_, hkey⟩
        exact hx ▸ List.mem_cons_self ..
      · exact .inr ⟨List.mem_cons_of_mem _ hs, hkey⟩
    next => exact .inl hs

theorem lookup_reconcilePortForwards
    (hs : s ∈ (reconcilePortForwards inUse specs ports).lookup key) :
    s ∈ ports.lookup key ∨ s ∈ specs ∧ s.key = key := by
  induction specs generalizing ports with
  | nil => exact .inl hs
  | cons spec specs ih =>
    rcases ih hs with hs | ⟨hs, hkey⟩
    · cases hadd : addExplicitPortForward inUse ports spec with
      | none =>
        simp only [hadd, Option.getD_none] at hs
        exact .inl hs
      | some ports' =>
        simp only [hadd, Option.getD_some] at hs
        refine (lookup_addExplicitPortForward hadd hs).imp_right fun ⟨hx, hkey⟩ => ⟨?_, hkey⟩
        exact hx ▸ List.mem_cons_self ..
    · exact .inr ⟨List.mem_cons_of_mem _ hs, hkey⟩

theorem addPortForwards_snd (h : ∀ spec ∈ specs, inUse spec = false) :
    (addPortForwards inUse specs ports).2 = true := by
  induction specs generalizing ports with
  | nil => rfl
  | cons spec specs ih =>
    obtain ⟨hspec, hspecs⟩ := List.forall_mem_cons.1 h
    obtain ⟨ports', hadd⟩ : ∃ ports', addExplicitPortForward inUse ports spec = some ports' := by
      rw [addExplicitPortForward, hspec, if_neg Bool.false_ne_true]
      split_ifs
      · exact ⟨_, rfl⟩
      · exact ⟨_, rfl⟩
    rw [addPortForwards, hadd]
    exact ih hspecs

/-- A request that can only fail at its first port fails before it adds one. -/
theorem addPortForwards_of_tail (h : ∀ spec ∈ specs.tail, inUse spec = false) :
    (addPortForwards inUse specs ports).2 = true ∨
      (addPortForwards inUse specs ports).1 = ports := by
  cases specs with
  | nil => exact .inl rfl
  | cons spec specs =>
    grind [addPortForwards, addPortForwards_snd]

end Ports

/-! ### The invariant -/

/-- A connection that is registered is configured; an agent forward is one of a connection of its
daemon, which is connected; an explicit port is configured. -/
structure Inv (w : State) : Prop where
  configured : ∀ name d, w.connections.lookup name = some d → ∃ conf ∈ w.config, conf.name = name
  agents : ∀ d, ∀ name ∈ (w.daemons d).agentForwards,
    w.connections.lookup name = some d ∧ (w.daemons d).connected = true
  ports : ∀ d key, ∀ spec ∈ (w.daemons d).explicitPorts.lookup key,
    spec.key = key ∧ w.Configures w.config d spec

namespace Inv

variable {w : State} {name : String} {d : ℕ} {inUse : PortForwardSpec → Bool}

theorem init (config : List ConnectionConfig) : Inv (.init config) where
  configured _ _ hd := nomatch hd
  agents _ _ hname := nomatch hname
  ports _ _ _ hspec := nomatch hspec

theorem setDaemon (h : Inv w) {daemon : Daemon}
    (hagents : ∀ name ∈ daemon.agentForwards,
      w.connections.lookup name = some d ∧ daemon.connected = true)
    (hports : ∀ key, ∀ spec ∈ daemon.explicitPorts.lookup key,
      spec.key = key ∧ w.Configures w.config d spec) :
    Inv (w.setDaemon d daemon) where
  configured := h.configured
  agents d' name hname := by
    rcases eq_or_ne d' d with rfl | hd
    · rw [State.setDaemon_self] at hname ⊢
      exact hagents name hname
    · rw [State.setDaemon_of_ne w hd] at hname ⊢
      exact h.agents d' name hname
  ports d' key spec hspec := by
    rcases eq_or_ne d' d with rfl | hd
    · rw [State.setDaemon_self] at hspec
      exact hports key spec hspec
    · rw [State.setDaemon_of_ne w hd] at hspec
      exact h.ports d' key spec hspec

/-- The configuration changes, and keeps the names and the ports that are forwarded. -/
theorem setConfig (h : Inv w) {config : List ConnectionConfig}
    (hnames : ∀ name d, w.connections.lookup name = some d → ∃ conf ∈ config, conf.name = name)
    (hports : ∀ d key, ∀ spec ∈ (w.daemons d).explicitPorts.lookup key,
      w.Configures config d spec) : Inv { w with config := config } where
  configured := hnames
  agents := h.agents
  ports d key spec hspec := ⟨(h.ports d key spec hspec).1, hports d key spec hspec⟩

theorem register (h : Inv w) (hconf : ∃ conf ∈ w.config, conf.name = name) :
    Inv (w.register name d) := by
  unfold State.register
  split_ifs with hfound
  · exact h
  have hkeep : ∀ {name' d'}, w.connections.lookup name' = some d' →
      (w.connections.insert name d).lookup name' = some d' := by
    intro name' d' hd'
    rw [AList.lookup_insert_ne, hd']
    rintro rfl
    rw [hd'] at hfound
    exact hfound rfl
  refine ⟨fun name' d' hd' => ?_, fun d' name' hname' => ?_, fun d' key spec hspec => ?_⟩
  · grind [lookup_insert_cases, configured]
  · exact (h.agents d' name' hname').imp_left hkeep
  · obtain ⟨hkey, conf, hconf, hlookup, hport⟩ := h.ports d' key spec hspec
    grind [State.Configures]

/-- The ports of a connection's daemon change, and what is new is configured. -/
theorem changePorts (h : Inv w) {f : Ports → Ports}
    (hports : ∀ d, w.connections.lookup name = some d →
      ∀ key, ∀ spec ∈ (f (w.daemons d).explicitPorts).lookup key,
        spec.key = key ∧ w.Configures w.config d spec) :
    Inv (w.changePorts name f) := by
  unfold State.changePorts
  split
  next => exact h
  next d hd => exact h.setDaemon (h.agents d) (hports d hd)

theorem reconcilePortForwards (h : Inv w) (hconf : conf ∈ w.config)
    (hd : w.connections.lookup conf.name = some d) (key : String) :
    ∀ spec ∈ (reconcilePortForwards inUse conf.specs (w.daemons d).explicitPorts).lookup key,
      spec.key = key ∧ w.Configures w.config d spec := by
  intro spec hspec
  rcases lookup_reconcilePortForwards hspec with hold | ⟨hnew, hkey⟩
  · exact h.ports d key spec hold
  · exact ⟨hkey, conf, hconf, hd, .inr hnew⟩

theorem lookup_of_usable (h : w.usable name = some d) :
    w.connections.lookup name = some d ∧ (w.daemons d).connected = true :=
  Option.filter_eq_some_iff.1 h

theorem mem_reconcileAgentForward {names : List String}
    (h : name ∈ reconcileAgentForward conf names) :
    name ∈ names ∧ name ≠ conf.name ∨ name = conf.name ∧ conf.forwardAgent = true := by
  unfold reconcileAgentForward at h
  split_ifs at h with hforward
  · unfold startAgentForward at h
    by_cases hname : name = conf.name
    · exact .inr ⟨hname, hforward⟩
    · split_ifs at h
      · exact .inl ⟨h, hname⟩
      · rw [List.mem_append, List.mem_singleton] at h
        exact .inl ⟨h.resolve_right hname, hname⟩
  · obtain ⟨hmem, hne⟩ := List.mem_filter.1 h
    exact .inl ⟨hmem, of_decide_eq_true hne⟩

theorem visit (h : Inv w) (hconf : conf ∈ w.config) : Inv (w.visit inUse conf) := by
  unfold State.visit
  split
  next => exact h
  next d hd =>
    obtain ⟨hlookup, hconnected⟩ := lookup_of_usable hd
    refine h.setDaemon (fun name hname => ⟨?_, hconnected⟩) (h.reconcilePortForwards hconf hlookup)
    rcases mem_reconcileAgentForward hname with ⟨hold, -⟩ | ⟨rfl, -⟩
    · exact (h.agents d name hold).1
    · exact hlookup

end Inv

/-! ### Ticks -/

section Ticks

variable {w : State} {inUse : PortForwardSpec → Bool}

@[simp] theorem visit_config (conf : ConnectionConfig) : (w.visit inUse conf).config = w.config := by
  unfold State.visit
  split
  · rfl
  · rfl

theorem agentForwards_visit (h : Inv w) {name : String} {d : ℕ}
    (hname : name ∈ ((w.visit inUse conf).daemons d).agentForwards) :
    conf.name = name ∧ conf.forwardAgent = true ∨
      name ∈ (w.daemons d).agentForwards ∧ conf.name ≠ name := by
  unfold State.visit at hname
  split at hname
  next hnone =>
    -- a connection with an agent forward is connected, so that it is visited
    refine .inr ⟨hname, ?_⟩
    rintro rfl
    obtain ⟨hlookup, hconnected⟩ := h.agents d _ hname
    rw [State.usable, hlookup, Option.filter_some, hconnected] at hnone
    cases hnone
  next d' hd' =>
    obtain ⟨hlookup, -⟩ := Inv.lookup_of_usable hd'
    rcases eq_or_ne d d' with rfl | hd
    · rw [State.setDaemon_self] at hname
      rcases Inv.mem_reconcileAgentForward hname with ⟨hold, hne⟩ | ⟨heq, hforward⟩
      · exact .inr ⟨hold, hne.symm⟩
      · exact .inl ⟨heq.symm, hforward⟩
    · rw [State.setDaemon_of_ne w hd] at hname
      refine .inr ⟨hname, ?_⟩
      rintro rfl
      exact hd (Option.some.inj ((h.agents d _ hname).1.symm.trans hlookup))

theorem inv_foldl_visit (confs : List ConnectionConfig) (h : Inv w)
    (hconfs : ∀ conf ∈ confs, conf ∈ w.config) : Inv (confs.foldl (State.visit inUse) w) := by
  induction confs generalizing w with
  | nil => exact h
  | cons conf confs ih =>
    simp_all [Inv.visit]

@[simp] theorem foldl_visit_config (confs : List ConnectionConfig) :
    (confs.foldl (State.visit inUse) w).config = w.config := by
  induction confs generalizing w with
  | nil => rfl
  | cons conf confs ih => rw [List.foldl_cons, ih, visit_config]

/-- A connection has an agent forward after the visits if one of them has started it, or if it had
one and was not visited. -/
theorem agentForwards_foldl_visit (confs : List ConnectionConfig) {name : String} {d : ℕ}
    (h : Inv w) (hconfs : ∀ conf ∈ confs, conf ∈ w.config)
    (hname : name ∈ ((confs.foldl (State.visit inUse) w).daemons d).agentForwards) :
    (∃ conf ∈ confs, conf.name = name ∧ conf.forwardAgent = true) ∨
      name ∈ (w.daemons d).agentForwards ∧ ∀ conf ∈ confs, conf.name ≠ name := by
  induction confs generalizing w with
  | nil => exact .inr ⟨hname, nofun⟩
  | cons conf confs ih =>
    obtain ⟨hconf, hconfs⟩ := List.forall_mem_cons.1 hconfs
    rcases ih (h.visit hconf) (by simpa using hconfs) hname with
      ⟨conf', hconf', hforward⟩ | ⟨hvisited, hrest⟩
    · exact .inl ⟨conf', List.mem_cons_of_mem _ hconf', hforward⟩
    rcases agentForwards_visit h hvisited with hforward | ⟨hold, hne⟩
    · exact .inl ⟨conf, List.mem_cons_self .., hforward⟩
    · exact .inr ⟨hold, List.forall_mem_cons.2 ⟨hne, hrest⟩⟩

theorem Inv.tick (h : Inv w) : Inv (w.reconcileConnections inUse) :=
  inv_foldl_visit w.config h fun _ hconf => hconf

theorem Inv.granted_tick (h : Inv w) (d : ℕ) : (w.reconcileConnections inUse).Granted d where
  agents name hname := by
    obtain ⟨hlookup, -⟩ := h.tick.agents d name hname
    refine ⟨hlookup, ?_⟩
    rw [State.reconcileConnections, foldl_visit_config]
    rcases agentForwards_foldl_visit w.config h (fun _ hconf => hconf) hname with
      hconfigured | ⟨hold, hnone⟩
    · exact hconfigured
    grind [tick, State.reconcileConnections, foldl_visit_config, configured]
  ports key spec hspec := (h.tick.ports d key spec hspec).2

end Ticks

/-! ### Requests -/

section Requests

variable {w : State} {name : String} {d : ℕ} {spec : PortForwardSpec} {inUse : PortForwardSpec → Bool}

theorem exists_updateConnection {name' : String} {f : ConnectionConfig → ConnectionConfig}
    {config : List ConnectionConfig} (hf : ∀ conf, (f conf).name = conf.name)
    (h : ∃ conf ∈ config, conf.name = name') :
    ∃ conf ∈ updateConnection name f config, conf.name = name' := by
  obtain ⟨conf, hconf, rfl⟩ := h
  rcases Config.mem_updateConnection_of_mem name f hconf with hstays | ⟨-, hchanged⟩
  · exact ⟨conf, hstays, rfl⟩
  · exact ⟨f conf, hchanged, hf conf⟩

/-- A port stays configured where the connection that changes does not lose it. -/
theorem State.Configures.updateConnection {f : ConnectionConfig → ConnectionConfig}
    (h : w.Configures w.config d spec) (hf : ∀ conf, (f conf).name = conf.name)
    (hport : w.connections.lookup name = some d →
      ∀ conf : ConnectionConfig, conf.HasPort spec → (f conf).HasPort spec) :
    w.Configures (updateConnection name f w.config) d spec := by
  obtain ⟨conf, hconf, hlookup, hspec⟩ := h
  rcases Config.mem_updateConnection_of_mem name f hconf with hstays | ⟨hname, hchanged⟩
  · exact ⟨conf, hstays, hlookup, hspec⟩
  · exact ⟨f conf, hchanged, (hf conf).symm ▸ hlookup, hport (hname ▸ hlookup) conf hspec⟩

theorem Inv.addPortForwards (h : Inv w) {specs : List PortForwardSpec}
    (hok : Withdrawn w (.addPortForwards name specs inUse)) :
    Inv ((Event.addPortForwards name specs inUse).fire w) := by
  dsimp only [Event.fire]
  split
  next => exact h
  next d hd =>
    set f : ConnectionConfig → ConnectionConfig :=
      fun conf => { conf with ports := specs.foldl Config.addSpec conf.ports }
    have hf : ∀ conf, (f conf).name = conf.name := fun _ => rfl
    have hold : ∀ {d spec}, w.Configures w.config d spec →
        w.Configures (updateConnection name f w.config) d spec := by
      intro d spec hspec
      refine hspec.updateConnection hf fun _ conf hport => hport.mono fun text htext => ?_
      exact Config.mem_foldl_addSpec.2 (.inl htext)
    have hnew : ∀ spec ∈ specs, w.Configures (updateConnection name f w.config) d spec := by
      intro spec hspec
      obtain ⟨conf, hname, hconf⟩ := Config.exists_updated f (h.configured name d hd)
      refine ⟨f conf, hconf, ?_, .inl (Config.mem_foldl_addSpec.2 (.inr ⟨spec, hspec, rfl⟩))⟩
      rw [hf, hname, hd]
    split_ifs with hadded
    · -- the configuration, then the daemon
      have hconfig : Inv { w with config := updateConnection name f w.config } :=
        h.setConfig (fun name' d' hd' => exists_updateConnection hf (h.configured name' d' hd'))
          fun d key spec hspec => hold (h.ports d key spec hspec).2
      refine hconfig.setDaemon (h.agents d) fun key spec hspec => ?_
      rcases lookup_addPortForwards hspec with hspec | ⟨hspec, hkey⟩
      · exact hconfig.ports d key spec hspec
      · exact ⟨hkey, hnew spec hspec⟩
    · refine h.setDaemon (h.agents d) ?_
      grind [addPortForwards_of_tail, ports, Withdrawn]

/-- Ports are removed from the daemon, then from the configuration of the connection. -/
theorem Inv.removePortForwards (h : Inv w) {conn : Config.Connection}
    {specs : List PortForwardSpec} :
    Inv ((Event.change conn (.removePortForwards specs)).fire w) := by
  set v := w.changePorts conn.name (Grants.removePortForwards specs) with hv
  have hremoved : ∀ {d key spec}, w.connections.lookup conn.name = some d →
      spec ∈ (v.daemons d).explicitPorts.lookup key →
        spec ∈ (w.daemons d).explicitPorts.lookup key ∧ ∀ s ∈ specs, s.key ≠ key := by
    intro d key spec hd hspec
    rw [hv, State.changePorts, hd, State.setDaemon_self] at hspec
    exact Config.lookup_foldl_erase hspec
  have hinv : Inv v := by
    refine h.changePorts fun d hd key spec hspec => ?_
    exact h.ports d key spec (Config.lookup_foldl_erase hspec).1
  have hconfig : v.config = w.config := w.changePorts_config ..
  have hconnections : v.connections = w.connections := w.changePorts_connections ..
  change Inv { v with config := updateConnection conn.name _ w.config }
  rw [← hconfig]
  refine hinv.setConfig (fun name' d' hd' => exists_updateConnection (fun _ => rfl)
    (hinv.configured name' d' hd')) fun d key spec hspec => ?_
  obtain ⟨hkey, hconfigures⟩ := hinv.ports d key spec hspec
  refine hconfigures.updateConnection (fun _ => rfl) fun hd conf hport => hport.remove ?_ conn
  grind

theorem Inv.change (h : Inv w) {conn : Config.Connection} {edit : Change}
    (he : (Event.change conn edit).Enabled w) : Inv ((Event.change conn edit).fire w) := by
  have hkeep : (∀ conf, conf.ports ⊆ (edit.configure conn conf).ports) →
      Inv { w with config := updateConnection conn.name (edit.configure conn) w.config } := by
    intro hports
    have hf := fun conf => Config.Change.configure_name conn conf edit
    refine h.setConfig (fun name' d' hd' => exists_updateConnection hf
      (h.configured name' d' hd')) fun d key spec hspec => ?_
    exact (h.ports d key spec hspec).2.updateConnection hf fun _ conf hport =>
      hport.mono (hports conf)
  cases edit with
  | removePortForwards specs => exact h.removePortForwards
  | addPortForwards specs => cases he.2
  | _ => exact hkeep fun _ => List.Subset.refl _

/-- A connection is taken from the manager and from the configuration, and no forward is its own. -/
theorem Inv.erase (h : Inv w) {daemons : ℕ → Daemon}
    (hagents : ∀ d, ∀ name' ∈ (daemons d).agentForwards,
      name' ≠ name ∧ w.connections.lookup name' = some d ∧ (daemons d).connected = true)
    (hports : ∀ d key, ∀ spec ∈ (daemons d).explicitPorts.lookup key,
      spec.key = key ∧ w.Configures (w.config.filter (·.name ≠ name)) d spec) :
    Inv ⟨w.config.filter (·.name ≠ name), w.connections.erase name, daemons, w.leaked⟩ where
  configured name' d' hd' := by
    obtain ⟨hne, hd'⟩ := lookup_of_erase hd'
    obtain ⟨conf, hconf, rfl⟩ := h.configured name' d' hd'
    exact ⟨conf, List.mem_filter.2 ⟨hconf, decide_eq_true hne⟩, rfl⟩
  agents d name' hname' := by
    obtain ⟨hne, hlookup⟩ := hagents d name' hname'
    rw [AList.lookup_erase_ne hne]
    exact hlookup
  ports d key spec hspec := by
    obtain ⟨hkey, conf, hconf, hlookup, hport⟩ := hports d key spec hspec
    refine ⟨hkey, conf, hconf, ?_, hport⟩
    rw [AList.lookup_erase_ne (of_decide_eq_true (List.mem_filter.1 hconf).2)]
    exact hlookup

theorem Inv.removeConnection (h : Inv w) (he : (Event.removeConnection name).Enabled w)
    (hok : Withdrawn w (.removeConnection name)) :
    Inv ((Event.removeConnection name).fire w) := by
  obtain ⟨d, hd⟩ : ∃ d, w.connections.lookup name = some d := Option.isSome_iff_exists.1 he
  -- the forwards of the other daemons are those of other connections
  have hagents : ∀ d', d' ≠ d → ∀ name' ∈ (w.daemons d').agentForwards, name' ≠ name ∧
      w.connections.lookup name' = some d' ∧ (w.daemons d').connected = true := by
    intro d' hne name' hname'
    refine ⟨?_, h.agents d' name' hname'⟩
    rintro rfl
    exact hne (Option.some.inj ((h.agents d' _ hname').1.symm.trans hd))
  have hports : ∀ d', d' ≠ d → ∀ key, ∀ spec ∈ (w.daemons d').explicitPorts.lookup key,
      spec.key = key ∧ w.Configures (w.config.filter (·.name ≠ name)) d' spec := by
    intro d' hne key spec hspec
    obtain ⟨hkey, conf, hconf, hlookup, hport⟩ := h.ports d' key spec hspec
    refine ⟨hkey, conf, List.mem_filter.2 ⟨hconf, decide_eq_true ?_⟩, hlookup, hport⟩
    rintro rfl
    exact hne (Option.some.inj (hlookup.symm.trans hd))
  simp only [Event.fire, State.remove, hd]
  split_ifs with hshared
  · obtain ⟨hagent, hport⟩ := hok d hd hshared
    refine h.erase (fun d' name' hname' => ?_) fun d' key spec hspec => ?_
    · grind [agents]
    · rcases eq_or_ne d' d with rfl | hne
      · exact ⟨(h.ports d' key spec hspec).1, hport ⟨key, spec⟩ (AList.mem_lookup_iff.1 hspec)⟩
      grind
  · -- the daemon is destroyed
    refine h.erase (fun d' name' hname' => ?_) fun d' key spec hspec => ?_
    · grind [State.setDaemon_self, State.setDaemon_of_ne, Daemon.init]
    · rcases eq_or_ne d' d with rfl | hne
      · rw [State.setDaemon_self] at hspec
        cases hspec
      grind [State.setDaemon_of_ne]

theorem Inv.reload (h : Inv w) {content : List ConnectionConfig}
    (hok : Withdrawn w (.reload content)) : Inv ((Event.reload content).fire w) := by
  refine h.setConfig (fun name d hd => ?_) fun d key spec hspec => ?_
  · exact (hok ⟨name, d⟩ (AList.mem_lookup_iff.1 hd)).1
  · obtain ⟨-, conf, -, hlookup, -⟩ := h.ports d key spec hspec
    exact (hok ⟨conf.name, d⟩ (AList.mem_lookup_iff.1 hlookup)).2 ⟨key, spec⟩
      (AList.mem_lookup_iff.1 hspec)

theorem Inv.fire (h : Inv w) {e : Event} (he : e.Enabled w) (hok : Withdrawn w e) :
    Inv (e.fire w) := by
  cases e with
  | initConnection args conn rest =>
    have hconfig : Inv { w with config := w.config ++ [.ofInit args conn rest] } := by
      refine h.setConfig (fun name d hd => ?_) fun d key spec hspec => ?_
      · simp_all [configured]
      · obtain ⟨-, conf, hconf, hconfigures⟩ := h.ports d key spec hspec
        grind [State.Configures]
    have hregistered : Inv (State.register _ conn.name conn.daemon) :=
      hconfig.register ⟨_, List.mem_append_right _ (List.mem_singleton.2 rfl), rfl⟩
    convert hregistered using 1
    grind [Event.fire, State.register]
  | initRefused d => exact ⟨h.configured, h.agents, h.ports⟩
  | restore conf d => exact h.register ⟨conf, he.1, rfl⟩
  | restorePortForwards conf inUse =>
    exact h.changePorts fun d hd => h.reconcilePortForwards he.1 hd
  | addPortForwards name specs inUse => exact h.addPortForwards hok
  | change conn edit => exact h.change he
  | removeConnection name => exact h.removeConnection he hok
  | reload content => exact h.reload hok
  | tick inUse => exact h.tick
  | connected d => exact h.setDaemon (fun name hname => ⟨(h.agents d name hname).1, rfl⟩) (h.ports d)
  | reconnecting d => exact h.setDaemon nofun (h.ports d)
  | agentForwardEnded d name =>
    exact h.setDaemon (fun name' hname' => h.agents d name' (List.mem_of_mem_filter hname'))
      (h.ports d)

end Requests

/-! ### The results -/

instance (w : State) (e : Event) : Decidable (shared.enabled w e) := by
  cases e <;> simp only [shared, Event.Enabled] <;> infer_instance

instance (w : State) (e : Event) : Decidable (Withdrawn w e) := by
  cases e <;> simp only [Withdrawn] <;> infer_instance

/-- A connection that forwards the agent, with its ports. -/
def forwarding (name : String) (ports : List String) : ConnectionConfig where
  name := name
  destination := "ssh://host"
  localRoot := ""
  remoteRoot := ""
  forward := []
  prefixForward := []
  synchronizations := []
  background := true
  ports := ports
  forwardAgent := true
  envForward := []

/-- Two connections of one daemon; the first also forwards a port. -/
def sharedConfig : List ConnectionConfig := [forwarding "a" ["80"], forwarding "b" []]

/-- They are restored, and a tick starts what they forward. -/
def sharedStart : List Event :=
  [.restore (forwarding "a" ["80"]) 0, .restore (forwarding "b" []) 0, .connected 0,
    .tick fun _ => false]

def spec80 : PortForwardSpec := ⟨80, 80, "tcp"⟩

/-- The first stops what it forwards, and is removed at the next tick. -/
def withdrawFirst : List Event :=
  let conn : Config.Connection := ⟨"a", 0, "", "", [], [], []⟩
  [.change conn (.setForwardAgent false), .change conn (.removePortForwards [spec80]),
    .tick fun _ => false, .removeConnection "a"]

def removeFirst (w : State) : State :=
  (Event.tick fun _ => false).fire ((Event.removeConnection "a").fire w)

end Graft.Grants
