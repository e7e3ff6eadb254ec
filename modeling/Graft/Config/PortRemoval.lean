import Graft.Config.Grants

/-!
# Removed port forwards

`RemovePortForwards` takes the ports from the daemon by protocol and remote port, and their texts
from the configuration of the connection.  A port may be configured in another spelling: the text
stays, and the next tick adds the port again.

A tick copies the configuration and then visits the connections one by one; requests come between,
and also between the two steps of `RemovePortForwards`.
-/

namespace Graft.Grants

open Graft.Config (ConnectionConfig PortForwardSpec Change parsePortSpec updateConnection)

/-- The ports of a request to remove them that were not explicit. -/
def autoDetected : List PortForwardSpec → Ports → List PortForwardSpec
  | [], _ => []
  | spec :: specs, ports =>
    if (ports.lookup spec.key).isSome then autoDetected specs (ports.erase spec.key)
    else spec :: autoDetected specs ports

/-- The configuration has the port, in some spelling. -/
def Spells (conf : ConnectionConfig) (key : String) : Prop := ∃ spec ∈ conf.specs, spec.key = key

/-- Of the configurations with the name, the first has the port only as it is written for one of
`specs`, and the others do not have it. -/
def Cleared (name : String) (specs : List PortForwardSpec) (key : String) :
    List ConnectionConfig → Prop
  | [] => True
  | conf :: rest =>
    if conf.name = name then
      (∀ text ∈ conf.ports, ∀ spec ∈ parsePortSpec text, spec.key = key →
        text ∈ specs.map (·.string)) ∧ ∀ conf' ∈ rest, conf'.name = name → ¬ Spells conf' key
    else Cleared name specs key rest

/-- The step adds the port to connection `name`, or another connection to daemon `d`. -/
def Again (name : String) (d : ℕ) (key : String) : Event → Prop
  | .addPortForwards name' specs _ => name' = name ∧ ∃ spec ∈ specs, spec.key = key
  | .reload content => ∃ conf ∈ content, conf.name = name ∧ Spells conf key
  | .initConnection _ conn _ => conn.daemon = d ∧ conn.name ≠ name
  | .restore conf d' => d' = d ∧ conf.name ≠ name
  | _ => False

/-! ### Ticks, one visit at a time -/

/-- The server, and what the tick under way has still to visit of its copy of the configuration. -/
structure Ticking where
  state : State
  copy : List ConnectionConfig

namespace Ticking

variable (t : Ticking)

/-- The next connection of the copy. -/
def visit (inUse : PortForwardSpec → Bool) : Ticking :=
  match t.copy with
  | [] => t
  | conf :: rest => ⟨t.state.visit inUse conf, rest⟩

/-- `RemovePortForwards`, with visits of the tick between its two steps. -/
def removePortForwards (conn : Config.Connection) (specs : List PortForwardSpec)
    (visits : List (PortForwardSpec → Bool)) : Ticking :=
  let removed := visits.foldl visit
    ⟨t.state.changePorts conn.name (Grants.removePortForwards specs), t.copy⟩
  { removed with state := { removed.state with
      config := updateConnection conn.name ((Change.removePortForwards specs).configure conn)
        removed.state.config } }

end Ticking

/-- What is no tick, and does not remove ports. -/
def Event.isOther : Event → Bool
  | .tick _ | .change _ (.removePortForwards _) => false
  | _ => true

inductive TickEvent
  /-- a tick takes its copy -/
  | start
  | visit (inUse : PortForwardSpec → Bool)
  | removePortForwards (conn : Config.Connection) (specs : List PortForwardSpec)
    (visits : List (PortForwardSpec → Bool))
  | other (e : Event)

namespace TickEvent

def Enabled (t : Ticking) : TickEvent → Prop
  | start => t.copy = []
  | visit _ => t.copy ≠ []
  | removePortForwards conn _ _ => (t.state.usable conn.name).isSome
  | other e => e.Enabled t.state ∧ e.isOther = true

def fire (t : Ticking) : TickEvent → Ticking
  | start => { t with copy := t.state.config }
  | visit inUse => t.visit inUse
  | removePortForwards conn specs visits => t.removePortForwards conn specs visits
  | other e => { t with state := e.fire t.state }

end TickEvent

/-- Requests, and ticks that are under way meanwhile. -/
def stepwise : Machine Ticking TickEvent := ⟨TickEvent.Enabled, fun t e => e.fire t⟩

/-- No step adds the port again. -/
def NotAgain (name : String) (d : ℕ) (key : String) (_ : Ticking) : TickEvent → Prop
  | .other e => ¬ Again name d key e
  | _ => True

/-! ### The configuration -/

section Configuration

variable {name : String} {specs : List PortForwardSpec} {key : String}
  {config : List ConnectionConfig}

theorem spells_iff {conf : ConnectionConfig} :
    Spells conf key ↔ ∃ text ∈ conf.ports, ∃ spec ∈ parsePortSpec text, spec.key = key := by
  simp only [Spells, ConnectionConfig.specs, List.mem_filterMap, Option.mem_def]
  constructor
  · rintro ⟨spec, ⟨text, htext, hspec⟩, hkey⟩
    exact ⟨text, htext, spec, hspec, hkey⟩
  · rintro ⟨text, htext, spec, hspec, hkey⟩
    exact ⟨spec, ⟨text, htext, hspec⟩, hkey⟩

theorem cleared_iff (conn : Config.Connection) : Cleared name specs key config ↔
    ∀ conf ∈ updateConnection name ((Change.removePortForwards specs).configure conn) config,
      conf.name = name → ¬ Spells conf key := by
  induction config with
  | nil => simp [Cleared, updateConnection]
  | cons conf rest ih =>
    unfold Cleared updateConnection
    split_ifs with hname
    · rw [List.forall_mem_cons]
      refine and_congr_left fun _ => ?_
      simp only [Config.Change.configure, hname, true_implies, spells_iff, List.mem_filter,
        not_exists, not_and, decide_eq_true_eq, and_imp]
      refine forall₂_congr fun text _ => ?_
      constructor
      · intro h hnot spec hspec hkey
        exact hnot (h spec hspec hkey)
      · intro h spec hspec hkey
        by_contra hnot
        exact h hnot spec hspec hkey
    · rw [List.forall_mem_cons, ih]
      exact (and_iff_right fun hx => absurd hx hname).symm

end Configuration

/-! ### A port that is configured -/

section Configured

variable {inUse : PortForwardSpec → Bool} {specs : List PortForwardSpec} {key : String}

theorem mem_addExplicitPortForward {ports : Ports} (spec : PortForwardSpec) (h : key ∈ ports) :
    key ∈ (addExplicitPortForward inUse ports spec).getD ports := by
  unfold addExplicitPortForward
  split_ifs
  · exact h
  · exact h
  · exact (AList.mem_insert _).2 (.inr h)

theorem mem_reconcilePortForwards_of_mem {ports : Ports} (h : key ∈ ports) :
    key ∈ reconcilePortForwards inUse specs ports :=
  List.foldlRecOn specs (motive := fun ports : Ports => key ∈ ports) _ h
    fun _ h spec _ => mem_addExplicitPortForward spec h

theorem mem_reconcilePortForwards {spec : PortForwardSpec} (hspec : spec ∈ specs) (ports : Ports) :
    spec.key ∈ reconcilePortForwards (fun _ => false) specs ports := by
  induction specs generalizing ports with
  | nil => cases hspec
  | cons first rest ih =>
    rcases List.mem_cons.1 hspec with rfl | hspec
    · have hadded : spec.key ∈ (addExplicitPortForward (fun _ => false) ports spec).getD ports := by
        unfold addExplicitPortForward
        split_ifs with hfound hused
        · exact AList.lookup_isSome.1 hfound
        · exact absurd hused id
        · simp
      have hrest : spec.key ∈ reconcilePortForwards (fun _ => false) rest _ :=
        mem_reconcilePortForwards_of_mem hadded
      exact hrest
    · exact ih hspec _

variable {w : State} {d : ℕ} {conf : ConnectionConfig}

theorem mem_visit_of_mem (conf : ConnectionConfig) (h : key ∈ (w.daemons d).explicitPorts) :
    key ∈ ((w.visit inUse conf).daemons d).explicitPorts := by
  unfold State.visit
  split
  next => exact h
  next d' _ =>
    rcases eq_or_ne d d' with rfl | hne
    · rw [State.setDaemon_self]
      exact mem_reconcilePortForwards_of_mem h
    · rwa [State.setDaemon_of_ne w hne]

@[simp] theorem usable_visit (name : String) :
    (w.visit inUse conf).usable name = w.usable name := by
  unfold State.visit
  split
  next => rfl
  next d' _ =>
    refine congrArg (fun p => (w.connections.lookup name).filter p) (funext fun d => ?_)
    rcases eq_or_ne d d' with rfl | hne
    · rw [State.setDaemon_self]
      rfl
    · rw [State.setDaemon_of_ne w hne]

theorem mem_visit (hd : w.usable conf.name = some d) (h : Spells conf key) :
    key ∈ ((w.visit (fun _ => false) conf).daemons d).explicitPorts := by
  obtain ⟨spec, hspec, rfl⟩ := h
  rw [State.visit, hd, State.setDaemon_self]
  exact mem_reconcilePortForwards hspec _

theorem mem_foldl_visit {confs : List ConnectionConfig} (hconf : conf ∈ confs)
    (hd : w.usable conf.name = some d) (h : Spells conf key) :
    key ∈ ((confs.foldl (State.visit fun _ => false) w).daemons d).explicitPorts := by
  induction confs generalizing w with
  | nil => cases hconf
  | cons first rest ih =>
    rcases List.mem_cons.1 hconf with rfl | hconf
    · exact List.foldlRecOn rest (motive := fun w : State => key ∈ (w.daemons d).explicitPorts) _
        (mem_visit hd h) fun _ h conf _ => mem_visit_of_mem conf h
    · exact ih hconf ((usable_visit _).trans hd)

end Configured

/-! ### A port that is not -/

/-- Daemon `d` is of connection `name` only, and the port is not explicit. -/
structure Absent (name : String) (d : ℕ) (key : String) (w : State) : Prop where
  absent : key ∉ (w.daemons d).explicitPorts
  alone : ∀ name', w.connections.lookup name' = some d → name' = name

namespace Absent

variable {name : String} {d : ℕ} {key : String} {w : State} (h : Absent name d key w)
include h

theorem setDaemon {d' : ℕ} {daemon : Daemon} (hports : d' = d → key ∉ daemon.explicitPorts) :
    Absent name d key (w.setDaemon d' daemon) where
  absent := by
    rcases eq_or_ne d d' with rfl | hne
    · rw [State.setDaemon_self]
      exact hports rfl
    · rw [State.setDaemon_of_ne w hne]
      exact h.absent
  alone := h.alone

/-- The specs of a configuration are added to the daemon of its connection. -/
theorem reconcilePortForwards {conf : ConnectionConfig} (hconf : conf.name = name → ¬ Spells conf key)
    {d' : ℕ} (hd' : w.connections.lookup conf.name = some d') (inUse : PortForwardSpec → Bool)
    (heq : d' = d) :
    key ∉ reconcilePortForwards inUse conf.specs (w.daemons d').explicitPorts := by
  subst heq
  intro hmem
  obtain ⟨spec, hspec⟩ := Option.isSome_iff_exists.1 (AList.lookup_isSome.2 hmem)
  rcases lookup_reconcilePortForwards hspec with hold | ⟨hnew, hkey⟩
  · exact h.absent (AList.lookup_isSome.1 (Option.isSome_of_mem hold))
  · exact hconf (h.alone _ hd') ⟨spec, hnew, hkey⟩

theorem visit {conf : ConnectionConfig} (hconf : conf.name = name → ¬ Spells conf key)
    (inUse : PortForwardSpec → Bool) : Absent name d key (w.visit inUse conf) := by
  unfold State.visit
  split
  next => exact h
  next d' hd' =>
    exact h.setDaemon (h.reconcilePortForwards hconf (Inv.lookup_of_usable hd').1 inUse)

end Absent

/-- The copy of the tick does not have the port for connection `name`. -/
def ClearCopy (name key : String) (copy : List ConnectionConfig) : Prop :=
  ∀ conf ∈ copy, conf.name = name → ¬ Spells conf key

/-- Visits leave the configuration alone, and the copy gets shorter. -/
theorem foldl_visit_spec {name : String} {d : ℕ} {key : String}
    (visits : List (PortForwardSpec → Bool)) {t : Ticking} (h : Absent name d key t.state)
    (hcopy : ClearCopy name key t.copy) :
    Absent name d key (visits.foldl Ticking.visit t).state ∧
      ClearCopy name key (visits.foldl Ticking.visit t).copy ∧
      (visits.foldl Ticking.visit t).state.config = t.state.config := by
  induction visits generalizing t with
  | nil => exact ⟨h, hcopy, rfl⟩
  | cons inUse visits ih =>
    obtain ⟨w, copy⟩ := t
    cases copy with
    | nil => exact ih h hcopy
    | cons conf rest =>
      obtain ⟨hconf, hrest⟩ := List.forall_mem_cons.1 hcopy
      obtain ⟨habsent, hclear, hconfig⟩ := ih (t := ⟨w.visit inUse conf, rest⟩) (h.visit hconf inUse) hrest
      exact ⟨habsent, hclear, hconfig.trans (visit_config conf)⟩

/-- And the port is not configured. -/
structure Gone (name : String) (d : ℕ) (key : String) (w : State) : Prop
    extends Absent name d key w where
  config : ∀ conf ∈ w.config, conf.name = name → ¬ Spells conf key

namespace Gone

variable {name : String} {d : ℕ} {key : String} {w : State} (h : Gone name d key w)
include h

theorem setDaemon {d' : ℕ} {daemon : Daemon} (hports : d' = d → key ∉ daemon.explicitPorts) :
    Gone name d key (w.setDaemon d' daemon) :=
  ⟨h.toAbsent.setDaemon hports, h.config⟩

theorem register {name' : String} {d' : ℕ} (hname : d' = d → name' = name) :
    Gone name d key (w.register name' d') := by
  unfold State.register
  split_ifs
  · exact h
  · refine ⟨⟨h.absent, fun name'' hd'' => ?_⟩, h.config⟩
    rcases lookup_insert_cases hd'' with ⟨rfl, rfl⟩ | ⟨-, hold⟩
    · exact hname rfl
    · exact h.alone name'' hold

theorem setConfig {config : List ConnectionConfig}
    (hconfig : ∀ conf ∈ config, conf.name = name → ¬ Spells conf key) :
    Gone name d key { w with config := config } :=
  ⟨⟨h.absent, h.alone⟩, hconfig⟩

theorem updateConnection {name' : String} {f : ConnectionConfig → ConnectionConfig}
    (hname : ∀ conf, (f conf).name = conf.name)
    (hf : ∀ conf, conf.name = name → conf.name = name' → Spells (f conf) key → Spells conf key) :
    Gone name d key { w with config := updateConnection name' f w.config } := by
  refine h.setConfig fun conf hconf hconfName => ?_
  rcases Config.mem_updateConnection hconf with hold | ⟨old, hold, hold', rfl⟩
  · exact h.config conf hold hconfName
  · rw [hname] at hconfName
    exact fun hx => h.config old hold hconfName (hf old hconfName hold' hx)

theorem addPortForwards {name' : String} {specs : List PortForwardSpec}
    {inUse : PortForwardSpec → Bool} (hok : name' = name → ∀ spec ∈ specs, spec.key ≠ key) :
    Gone name d key ((Event.addPortForwards name' specs inUse).fire w) := by
  dsimp only [Event.fire]
  split
  next => exact h
  next d' hd' =>
    have hdaemon : Gone name d key (w.setDaemon d' { w.daemons d' with explicitPorts :=
        (Grants.addPortForwards inUse specs (w.daemons d').explicitPorts).1 }) := by
      refine h.setDaemon fun heq hmem => ?_
      subst heq
      obtain ⟨spec, hspec⟩ := Option.isSome_iff_exists.1 (AList.lookup_isSome.2 hmem)
      rcases lookup_addPortForwards hspec with hold | ⟨hnew, hkey⟩
      · exact h.absent (AList.lookup_isSome.1 (Option.isSome_of_mem hold))
      · exact hok (h.alone name' hd') spec hnew hkey
    split_ifs
    · refine hdaemon.updateConnection (fun _ => rfl) fun conf hname hname' hx => ?_
      -- a text that was added is read as the spec it was written for
      rw [spells_iff] at hx ⊢
      obtain ⟨text, htext, spec, hspec, hkey⟩ := hx
      rcases Config.mem_foldl_addSpec.1 htext with hold | ⟨s, hs, rfl⟩
      · exact ⟨text, hold, spec, hspec, hkey⟩
      · rw [Config.PortForwardSpec.parsePortSpec_string hspec] at hkey
        exact absurd hkey (hok (hname'.symm.trans hname) s hs)
    · exact hdaemon

/-- A change of the configuration that adds no ports. -/
theorem configure {conn : Config.Connection} {edit : Change}
    (hports : ∀ conf, (edit.configure conn conf).ports ⊆ conf.ports) :
    Gone name d key { w with
      config := Config.updateConnection conn.name (edit.configure conn) w.config } := by
  refine h.updateConnection (fun conf => Config.Change.configure_name conn conf edit) ?_
  intro conf _ _ hx
  rw [spells_iff] at hx ⊢
  obtain ⟨text, htext, hspec⟩ := hx
  exact ⟨text, hports conf htext, hspec⟩

theorem changePorts (name' : String) (specs : List PortForwardSpec) :
    Gone name d key (w.changePorts name' (removePortForwards specs)) := by
  unfold State.changePorts
  split
  next => exact h
  next d' _ =>
    refine h.setDaemon fun heq hmem => ?_
    subst heq
    obtain ⟨spec, hspec⟩ := Option.isSome_iff_exists.1 (AList.lookup_isSome.2 hmem)
    exact h.absent (AList.lookup_isSome.1
      (Option.isSome_of_mem (Config.lookup_foldl_erase hspec).1))

theorem remove (name' : String) : Gone name d key (w.remove name') := by
  unfold State.remove
  have herase : ∀ name'', (w.connections.erase name').lookup name'' = some d → name'' = name :=
    fun name'' hd'' => h.alone name'' (lookup_of_erase hd'').2
  split
  next => exact h
  next d' _ =>
    split_ifs
    · exact ⟨⟨h.absent, herase⟩, h.config⟩
    · have hinit : Gone name d key (w.setDaemon d' .init) :=
        h.setDaemon fun _ => AList.notMem_empty _
      exact ⟨⟨hinit.absent, herase⟩, hinit.config⟩

theorem fire {e : Event} (he : e.Enabled w) (hother : e.isOther = true)
    (hok : ¬ Again name d key e) : Gone name d key (e.fire w) := by
  cases e with
  | initConnection args conn rest =>
    refine (h.register fun hd => ?_).setConfig fun conf hconf hname => ?_
    · by_contra hne
      exact hok ⟨hd, hne⟩
    · rcases List.mem_append.1 hconf with hold | hnew
      · exact h.config conf hold hname
      · cases List.mem_singleton.1 hnew
        exact fun ⟨_, hspec, _⟩ => nomatch hspec
  | initRefused d' => exact ⟨⟨h.absent, h.alone⟩, h.config⟩
  | restore conf d' =>
    refine h.register fun hd => ?_
    by_contra hne
    exact hok ⟨hd, hne⟩
  | restorePortForwards conf inUse =>
    dsimp only [Event.fire]
    unfold State.changePorts
    split
    next => exact h
    next d' hd' =>
      exact h.setDaemon (h.toAbsent.reconcilePortForwards (h.config conf he.1) hd' inUse)
  | addPortForwards name' specs inUse =>
    exact h.addPortForwards fun hname spec hspec hkey => hok ⟨hname, spec, hspec, hkey⟩
  | change conn edit =>
    cases edit with
    | removePortForwards specs => cases hother
    | addPortForwards specs => cases he.2
    | _ => exact h.configure fun _ => List.Subset.refl _
  | removeConnection name' =>
    exact (h.remove name').setConfig fun conf hconf => h.config conf (List.mem_of_mem_filter hconf)
  | reload content =>
    exact h.setConfig fun conf hconf hname hx => hok ⟨conf, hconf, hname, hx⟩
  | tick inUse => cases hother
  | connected d' => exact h.setDaemon fun heq => heq ▸ h.absent
  | reconnecting d' => exact h.setDaemon fun heq => heq ▸ h.absent
  | agentForwardEnded d' name' => exact h.setDaemon fun heq => heq ▸ h.absent

end Gone

/-! ### The result -/

/-- The port is gone, also from the copy of the tick under way. -/
def GoneWith (name : String) (d : ℕ) (key : String) (t : Ticking) : Prop :=
  Gone name d key t.state ∧ ClearCopy name key t.copy

theorem GoneWith.foldl_visit {name : String} {d : ℕ} {key : String} {t : Ticking}
    (h : GoneWith name d key t) (visits : List (PortForwardSpec → Bool)) :
    GoneWith name d key (visits.foldl Ticking.visit t) := by
  obtain ⟨habsent, hcopy, hconfig⟩ := foldl_visit_spec visits h.1.toAbsent h.2
  exact ⟨⟨habsent, hconfig ▸ h.1.config⟩, hcopy⟩

theorem GoneWith.fire {name : String} {d : ℕ} {key : String} {t : Ticking}
    (h : GoneWith name d key t) {e : TickEvent} (he : e.Enabled t) (hok : NotAgain name d key t e) :
    GoneWith name d key (e.fire t) := by
  cases e with
  | start => exact ⟨h.1, h.1.config⟩
  | visit inUse => exact h.foldl_visit [inUse]
  | removePortForwards conn specs visits =>
    have hremoved : GoneWith name d key (visits.foldl Ticking.visit
        ⟨t.state.changePorts conn.name (removePortForwards specs), t.copy⟩) :=
      GoneWith.foldl_visit (t := ⟨_, t.copy⟩) ⟨h.1.changePorts conn.name specs, h.2⟩ visits
    exact ⟨hremoved.1.configure fun conf => List.filter_subset_self _, hremoved.2⟩
  | other e => exact ⟨h.1.fire he.1 he.2 hok, h.2⟩

/-- The tick under way runs to its end. -/
theorem run_visits {name : String} {d : ℕ} {key : String} (w : State) (copy : List ConnectionConfig) :
    stepwise.Run (NotAgain name d key) ⟨w, copy⟩ ⟨copy.foldl (State.visit fun _ => false) w, []⟩ := by
  induction copy generalizing w with
  | nil => exact .refl
  | cons conf rest ih =>
    have hfirst : stepwise.Run (NotAgain name d key) ⟨w, conf :: rest⟩
        ⟨w.visit (fun _ => false) conf, rest⟩ :=
      Machine.Run.refl.step (e := TickEvent.visit fun _ => false) (List.cons_ne_nil _ _) trivial
    exact hfirst.trans (ih _)

theorem usable_foldl_visit {inUse : PortForwardSpec → Bool} (w : State)
    (confs : List ConnectionConfig) (name : String) :
    (confs.foldl (State.visit inUse) w).usable name = w.usable name :=
  List.foldlRecOn confs (motive := fun w' : State => w'.usable name = w.usable name) _ rfl
    fun _ h _ _ => (usable_visit name).trans h

theorem config_foldl_visit {inUse : PortForwardSpec → Bool} (w : State)
    (confs : List ConnectionConfig) : (confs.foldl (State.visit inUse) w).config = w.config :=
  List.foldlRecOn confs (motive := fun w' : State => w'.config = w.config) _ rfl
    fun _ h conf _ => (visit_config conf).trans h

/-- **A port forward that was removed from a connection with a daemon of its own is not added by a
tick**, unless it is added again, exactly if the configuration has no other text for it and the copy
of a tick that is under way has none. -/
theorem removed_stays_iff (t : Ticking) (conn : Config.Connection) (specs : List PortForwardSpec)
    (d : ℕ) (hd : t.state.usable conn.name = some d)
    (halone : ∀ name, t.state.connections.lookup name = some d → name = conn.name)
    (spec : PortForwardSpec) (hspec : spec ∈ specs) :
    (∀ visits u, stepwise.Run (NotAgain conn.name d spec.key)
        (t.removePortForwards conn specs visits) u →
      spec.key ∉ (u.state.daemons d).explicitPorts) ↔
    Cleared conn.name specs spec.key t.state.config ∧ ClearCopy conn.name spec.key t.copy := by
  obtain ⟨hlookup, hconnected⟩ := Inv.lookup_of_usable hd
  rw [cleared_iff conn]
  have hremoved : t.state.changePorts conn.name (removePortForwards specs) = t.state.setDaemon d
      { t.state.daemons d with
        explicitPorts := removePortForwards specs (t.state.daemons d).explicitPorts } := by
    simp only [State.changePorts, hlookup]
  constructor
  · intro h
    set w := (t.removePortForwards conn specs []).state with hw
    have hconfig : w.config = updateConnection conn.name
        ((Change.removePortForwards specs).configure conn) t.state.config := by
      simp [hw, Ticking.removePortForwards]
    have husable : w.usable conn.name = some d := by
      simp only [hw, Ticking.removePortForwards, List.foldl_nil, hremoved, State.usable,
        Option.filter_eq_some_iff]
      exact ⟨hlookup, by simpa using hconnected⟩
    have hcopy : t.removePortForwards conn specs [] = ⟨w, t.copy⟩ := rfl
    have hdone : stepwise.Run (NotAgain conn.name d spec.key) (t.removePortForwards conn specs [])
        ⟨t.copy.foldl (State.visit fun _ => false) w, []⟩ := hcopy ▸ run_visits w t.copy
    constructor
    · -- the tick under way ends, and the next one adds what is configured
      intro conf hconf hname hspells
      have hnext := (hdone.step (e := TickEvent.start) rfl trivial).trans (run_visits _ _)
      have hconf' : conf ∈ (t.copy.foldl (State.visit fun _ => false) w).config := by
        rw [config_foldl_visit, hconfig]
        exact hconf
      have husable' : (t.copy.foldl (State.visit fun _ => false) w).usable conf.name = some d := by
        rw [usable_foldl_visit, hname]
        exact husable
      exact h [] _ hnext (mem_foldl_visit hconf' husable' hspells)
    · intro conf hconf hname hspells
      exact h [] _ hdone (mem_foldl_visit hconf (hname ▸ husable) hspells)
  · rintro ⟨hconfig, hcopy⟩ visits u hrun
    have habsent : Absent conn.name d spec.key
        (t.state.changePorts conn.name (removePortForwards specs)) := by
      rw [hremoved]
      refine ⟨?_, halone⟩
      rw [State.setDaemon_self]
      intro hmem
      obtain ⟨s, hs⟩ := Option.isSome_iff_exists.1 (AList.lookup_isSome.2 hmem)
      exact (Config.lookup_foldl_erase hs).2 spec hspec rfl
    obtain ⟨habsent', hcopy', hconfig'⟩ := foldl_visit_spec
      (t := ⟨t.state.changePorts conn.name (removePortForwards specs), t.copy⟩) visits habsent hcopy
    have hgone : GoneWith conn.name d spec.key (t.removePortForwards conn specs visits) := by
      refine ⟨⟨⟨habsent'.absent, habsent'.alone⟩, ?_⟩, hcopy'⟩
      simp only [Ticking.removePortForwards]
      rw [hconfig', State.changePorts_config]
      exact hconfig
    exact (hrun.invariant hgone fun _ _ h he hok => h.fire he hok).1.absent

/-- The connection `a`, as the requests have it. -/
def connA : Config.Connection := ⟨"a", 0, "", "", [], [], []⟩

/-- The only connection forwards port 8080 from 3000. -/
def aloneConfig : List ConnectionConfig := [forwarding "a" ["3000:8080"]]

def aloneStart : List TickEvent :=
  [.other (.restore (forwarding "a" ["3000:8080"]) 0), .other (.connected 0), .start,
    .visit fun _ => false]

theorem alone_of_entries {w : State} (h : ∀ e ∈ w.connections.entries, e.2 = 0 → e.1 = "a")
    (name : String) (hname : w.connections.lookup name = some 0) : name = "a" :=
  h ⟨name, 0⟩ (AList.mem_lookup_iff.1 hname) rfl

instance (t : Ticking) (e : TickEvent) : Decidable (stepwise.enabled t e) := by
  cases e with
  | start => exact decidable_of_iff (t.copy.isEmpty = true) (by simp [stepwise, TickEvent.Enabled])
  | visit inUse =>
    exact decidable_of_iff (t.copy.isEmpty = false) (by simp [stepwise, TickEvent.Enabled])
  | removePortForwards conn specs visits =>
    exact inferInstanceAs (Decidable ((t.state.usable conn.name).isSome = true))
  | other e =>
    exact inferInstanceAs (Decidable (shared.enabled t.state e ∧ _))

/-- The theorem where the port is removed as it is configured, and no tick is under way. -/
theorem removed_stays_spelled : ∃ t, stepwise.Reachable ⟨.init aloneConfig, []⟩ t ∧
    "tcp:8080" ∈ (t.state.daemons 0).explicitPorts ∧
    ∀ visits u, stepwise.Run (NotAgain "a" 0 "tcp:8080")
      (t.removePortForwards connA [⟨8080, 3000, "tcp"⟩] visits) u →
        "tcp:8080" ∉ (u.state.daemons 0).explicitPorts := by
  have hexec : ∃ t ∈ stepwise.exec (fun _ _ => True) ⟨.init aloneConfig, []⟩ aloneStart,
      "tcp:8080" ∈ (t.state.daemons 0).explicitPorts ∧ t.state.usable "a" = some 0 ∧
        (∀ e ∈ t.state.connections.entries, e.2 = 0 → e.1 = "a") ∧
        t.state.config = aloneConfig ∧ t.copy = [] := by
    decide +kernel
  obtain ⟨t, hrun, hmem, husable, halone, hconfig, hcopy⟩ := Machine.exists_run_of_exec _ _ hexec
  have hcleared : Cleared "a" [⟨8080, 3000, "tcp"⟩] "tcp:8080" t.state.config := by
    rw [hconfig]
    refine (if_pos rfl).mpr ⟨fun text htext _ _ _ => ?_, nofun⟩
    cases List.mem_singleton.1 htext
    decide +kernel
  have hclear : ClearCopy "a" "tcp:8080" t.copy := by simp [ClearCopy, hcopy]
  have hkey : (⟨8080, 3000, "tcp"⟩ : PortForwardSpec).key = "tcp:8080" := by decide +kernel
  have hstays := (removed_stays_iff t connA [⟨8080, 3000, "tcp"⟩] 0 husable
    (alone_of_entries halone) ⟨8080, 3000, "tcp"⟩ (List.mem_singleton.2 rfl)).2
  rw [hkey] at hstays
  exact ⟨t, hrun, hmem, hstays ⟨hcleared, hclear⟩⟩

/-- The port is removed as `8080`, and not reported.  The text `3000:8080` stays, and the next tick
adds the port. -/
theorem removed_comes_back : ∃ t, stepwise.Reachable ⟨.init aloneConfig, []⟩ t ∧ t.copy = [] ∧
    t.state.usable "a" = some 0 ∧
    (∀ name, t.state.connections.lookup name = some 0 → name = "a") ∧
    autoDetected [⟨8080, 8080, "tcp"⟩] (t.state.daemons 0).explicitPorts = [] ∧
    ∃ u, stepwise.Run (NotAgain "a" 0 "tcp:8080")
        (t.removePortForwards connA [⟨8080, 8080, "tcp"⟩] []) u ∧
      "tcp:8080" ∈ (u.state.daemons 0).explicitPorts := by
  have hexec : ∃ t ∈ stepwise.exec (fun _ _ => True) ⟨.init aloneConfig, []⟩ aloneStart,
      t.copy.isEmpty = true ∧ t.state.usable "a" = some 0 ∧
      (∀ e ∈ t.state.connections.entries, e.2 = 0 → e.1 = "a") ∧
      autoDetected [⟨8080, 8080, "tcp"⟩] (t.state.daemons 0).explicitPorts = [] ∧
      "tcp:8080" ∈ (((t.removePortForwards connA [⟨8080, 8080, "tcp"⟩] []).state.config.foldl
        (State.visit fun _ => false)
        (t.removePortForwards connA [⟨8080, 8080, "tcp"⟩] []).state).daemons 0).explicitPorts := by
    decide +kernel
  obtain ⟨t, hrun, hcopy, husable, halone, hreported, hmem⟩ := Machine.exists_run_of_exec _ _ hexec
  have hcopy : t.copy = [] := List.isEmpty_iff.1 hcopy
  set t' := t.removePortForwards connA [⟨8080, 8080, "tcp"⟩] []
  refine ⟨t, hrun, hcopy, husable, alone_of_entries halone, hreported,
    ⟨t'.state.config.foldl (State.visit fun _ => false) t'.state, []⟩, ?_, hmem⟩
  have hcopy' : t'.copy = [] := hcopy
  exact (Machine.Run.refl.step (e := TickEvent.start) hcopy' trivial).trans (run_visits _ _)

end Graft.Grants
