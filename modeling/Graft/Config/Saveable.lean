import Graft.Config.Requests

/-!
# The configuration stays saveable

`Persist` refuses a configuration that does not pass validation, so that one bad entry keeps the
server from saving anything until it is restarted.  Each request changes the configuration in its
own way, and not all of them look at what is there.
-/

namespace Graft.Config

open Function (update update_of_ne)

variable {config : List ConnectionConfig} {w : Server}

/-- The steps that keep the configuration valid:

* a connection is added to the configuration under a name, and one that is not there;
* commands and names of environment variables are added once, and only new ones;
* a file that is loaded is valid. -/
def Fresh (w : Server) : Event → Prop
  | .initCommit _ c _ => (w.conn c).name ≠ "" ∧ (w.conn c).name ∉ w.config.map (·.name)
  | .commit c (.updateForwardCommands commands) =>
    commands.Nodup ∧ ∀ conf ∈ w.config, conf.name = (w.conn c).name →
      ∀ cmd ∈ commands, cmd ∉ conf.intents
  | .commit c (.updateEnvForward names) =>
    names.Nodup ∧ ∀ conf ∈ w.config, conf.name = (w.conn c).name →
      ∀ name ∈ names, name ∉ conf.envForward
  | .reload (some content) => validate content = none
  | _ => True

instance (w : Server) (e : Event) : Decidable (Fresh w e) := by
  -- not `cases`, which puts proofs of equations into the instance
  apply Event.casesOn (motive := fun e => Decidable (Fresh w e)) e
  case commit =>
    intro c change
    apply Change.casesOn (motive := fun s => Decidable (Fresh w (.commit c s))) change <;> intros <;>
      dsimp only [Fresh] <;> infer_instance
  case reload =>
    intro content
    apply Option.casesOn (motive := fun s => Decidable (Fresh w (.reload s))) content <;> intros <;>
      dsimp only [Fresh] <;> infer_instance
  all_goals
    intros
    dsimp only [Fresh]
    infer_instance

/-! ### Changes of the configuration -/

theorem Valid.append (h : Valid config) {conf : ConnectionConfig} (hconf : conf.Valid)
    (hnew : conf.name ∉ config.map (·.name)) : Valid (config ++ [conf]) where
  names := by
    simp_all [List.Nodup.append, names]
  connections conn hconn := by
    grind [connections]

theorem Valid.filter (h : Valid config) (p : ConnectionConfig → Bool) : Valid (config.filter p) where
  names := h.names.sublist (List.Sublist.map _ List.filter_sublist)
  connections conn hconn := h.connections conn (List.mem_of_mem_filter hconn)

variable {name : String} {f : ConnectionConfig → ConnectionConfig}

theorem map_name_updateConnection (hf : ∀ conf, (f conf).name = conf.name) :
    (updateConnection name f config).map (·.name) = config.map (·.name) := by
  induction config with
  | nil => rfl
  | cons conf confs ih =>
    rw [updateConnection]
    split_ifs with hname
    · rw [List.map_cons, List.map_cons, hf]
    · rw [List.map_cons, List.map_cons, ih]

theorem mem_updateConnection {conf : ConnectionConfig}
    (h : conf ∈ updateConnection name f config) :
    conf ∈ config ∨ ∃ old ∈ config, old.name = name ∧ conf = f old := by
  induction config with
  | nil => exact .inl h
  | cons old olds ih =>
    rw [updateConnection] at h
    split_ifs at h with hname
    · rcases List.mem_cons.1 h with rfl | h
      · exact .inr ⟨old, List.mem_cons_self .., hname, rfl⟩
      · exact .inl (List.mem_cons_of_mem _ h)
    · rcases List.mem_cons.1 h with rfl | h
      · exact .inl (List.mem_cons_self ..)
      · rcases ih h with h | ⟨old', ho, hrest⟩
        · exact .inl (List.mem_cons_of_mem _ h)
        · exact .inr ⟨old', List.mem_cons_of_mem _ ho, hrest⟩

theorem Valid.updateConnection (h : Valid config) (hf : ∀ conf, (f conf).name = conf.name)
    (hvalid : ∀ conf ∈ config, conf.name = name → (f conf).Valid) :
    Valid (updateConnection name f config) where
  names := by
    rw [map_name_updateConnection hf]
    exact h.names
  connections conf hconf := by
    grind [mem_updateConnection, connections]

theorem Change.configure_name (conn : Connection) (conf : ConnectionConfig) (change : Change) :
    (change.configure conn conf).name = conf.name := by
  cases change <;> rfl

theorem nodup_append_names {old : List String} {commands : List ForwardCommandIntent} {b : Bool}
    (hold : old.Nodup) (hcommands : commands.Nodup)
    (hnew : ∀ cmd ∈ commands, cmd.withPrefix = b → cmd.name ∉ old) {p : ForwardCommandIntent → Bool}
    (hp : ∀ cmd, p cmd = true → cmd.withPrefix = b) :
    (old ++ (commands.filter p).map (·.name)).Nodup := by
  refine List.Nodup.append hold ?_ ?_
  · refine (hcommands.filter _).map_on fun x hx y hy hxy => ?_
    obtain ⟨n, b'⟩ := x
    obtain ⟨m, b''⟩ := y
    have hx := hp _ (List.of_mem_filter hx)
    have hy := hp _ (List.of_mem_filter hy)
    dsimp only at hx hy hxy
    rw [hx, hy, hxy]
  · intro x hx hx'
    obtain ⟨cmd, hcmd, rfl⟩ := List.mem_map.1 hx'
    exact hnew cmd (List.mem_of_mem_filter hcmd) (hp _ (List.of_mem_filter hcmd)) hx

/-- A change keeps the configuration of the connection valid, if what it adds is new. -/
theorem ConnectionConfig.Valid.configure {conf : ConnectionConfig} (h : conf.Valid) {c : ℕ}
    (hconf : conf ∈ w.config) (hname : conf.name = (w.conn c).name) {change : Change}
    (hok : Fresh w (.commit c change)) (hsyncs : ∀ s ∈ (w.conn c).synchronizations, s.ModesOk) :
    (change.configure (w.conn c) conf).Valid := by
  cases change with
  | updateForwardCommands commands =>
    obtain ⟨hnodup, hnew⟩ := hok
    refine ⟨h.name, h.destination, ?_, ?_, h.synchronizations, h.envForward⟩
    · refine nodup_append_names (b := false) h.forward hnodup (fun cmd hcmd hb hmem => ?_)
        (fun cmd hcmd => by simpa using hcmd)
      refine hnew conf hconf hname cmd hcmd (List.mem_append_left _ (List.mem_map.2 ⟨_, hmem, ?_⟩))
      rw [← hb]
    · refine nodup_append_names (b := true) h.prefixForward hnodup (fun cmd hcmd hb hmem => ?_)
        (fun cmd hcmd => hcmd)
      refine hnew conf hconf hname cmd hcmd (List.mem_append_right _ (List.mem_map.2 ⟨_, hmem, ?_⟩))
      rw [← hb]
  | removeForwardCommands commands =>
    exact ⟨h.name, h.destination, h.forward.filter _, h.prefixForward.filter _, h.synchronizations,
      h.envForward⟩
  | updateEnvForward names =>
    obtain ⟨hnodup, hnew⟩ := hok
    refine ⟨h.name, h.destination, h.forward, h.prefixForward, h.synchronizations, ?_⟩
    grind [envForward, Change.configure]
  | removeEnvForward names =>
    exact ⟨h.name, h.destination, h.forward, h.prefixForward, h.synchronizations,
      h.envForward.filter _⟩
  | addPortForwards | removePortForwards | updateConnectionRoots | setForwardAgent =>
    exact ⟨h.name, h.destination, h.forward, h.prefixForward, h.synchronizations, h.envForward⟩
  | updateSynchronizations =>
    exact ⟨h.name, h.destination, h.forward, h.prefixForward, hsyncs, h.envForward⟩

/-! ### The invariant -/

/-- The configuration is valid, and the active synchronizations have valid modes. -/
structure Saveable (w : Server) : Prop where
  valid : Valid w.config
  modes : ∀ c, ∀ s ∈ (w.conn c).synchronizations, s.ModesOk

theorem Saveable.init (h : validate config = none) : Saveable (.init config) :=
  ⟨validate_eq_none.1 h, nofun⟩

theorem modes_update (h : ∀ c, ∀ s ∈ (w.conn c).synchronizations, s.ModesOk) {c : ℕ}
    {conn : Connection} (hconn : ∀ s ∈ conn.synchronizations, s.ModesOk) (c' : ℕ) :
    ∀ s ∈ (update w.conn c conn c').synchronizations, s.ModesOk := by
  grind

theorem synchronizations_applyChange (w : Server) (c c' : ℕ) (change : Change) :
    ((w.applyChange c change).conn c').synchronizations = (w.conn c').synchronizations := by
  by_cases hc : c' = c
  · subst hc
    cases change <;> simp [Server.applyChange, Server.setConn, Server.removePorts, Server.setPorts,
      Change.apply]
  · cases change <;> simp [Server.applyChange, Server.setConn, Server.removePorts, Server.setPorts,
      update_of_ne hc]

/-- **Every step keeps the configuration valid**, if what it adds is new. -/
theorem Saveable.fire (h : Saveable w) {e : Event} (he : e.Enabled w) (hok : Fresh w e) :
    Saveable (e.fire w) := by
  have happly : ∀ c change c', ∀ s ∈ ((w.applyChange c change).conn c').synchronizations,
      s.ModesOk := by
    intro c change c'
    rw [synchronizations_applyChange]
    exact h.modes c'
  have hvalid : ∀ c change, Valid (w.applyChange c change).config := fun c change => by
    rw [Server.applyChange_config]
    exact h.valid
  cases e with
  | initCommit args c rest =>
    refine ⟨h.valid.append ⟨hok.1, ?_, List.nodup_nil, List.nodup_nil, nofun,
      List.nodup_nil⟩ hok.2, h.modes⟩
    simp [ConnectionConfig.ofInit]
  | removeCommit name => exact ⟨h.valid.filter _, h.modes⟩
  | commit c change =>
    refine ⟨h.valid.updateConnection (Change.configure_name _ · change) fun conf hconf hname => ?_,
      h.modes⟩
    exact (h.valid.connections conf hconf).configure hconf hname hok (h.modes c)
  | reload content =>
    cases content with
    | none => exact h
    | some content => exact ⟨validate_eq_none.1 hok, h.modes⟩
  | initRegister | restoreRegister => exact ⟨h.valid, modes_update h.modes nofun⟩
  | removeConnection => exact ⟨h.valid, modes_update h.modes nofun⟩
  | recordSync c intent =>
    refine ⟨h.valid, modes_update h.modes fun s hs => ?_⟩
    rcases List.mem_append.1 hs with hs | hs
    · exact h.modes c s (List.mem_of_mem_filter hs)
    grind [Event.Enabled]
  | apply c change => exact ⟨hvalid c change, happly c change⟩
  | tickAddForwards missing conf c rest =>
    exact ⟨hvalid c (.updateForwardCommands missing), happly c (.updateForwardCommands missing)⟩
  | addEnv c missing | tickAddEnv missing conf c rest =>
    exact ⟨hvalid c (.updateEnvForward missing), happly c (.updateEnvForward missing)⟩
  | restoreForwards i conf =>
    simp only [Event.fire]
    cases w.usable conf.name with
    | some c =>
      exact ⟨hvalid c (.updateForwardCommands conf.intents),
        happly c (.updateForwardCommands conf.intents)⟩
    | none => exact ⟨h.valid, h.modes⟩
  | recordPort who q =>
    simp only [Event.fire]
    split
    · exact h
    · split_ifs
      · exact ⟨by simpa using h.valid, by simpa using h.modes⟩
      · exact ⟨by simpa using h.valid, by simpa using h.modes⟩
  | startPort | endPorts =>
    exact ⟨by simpa [Event.fire] using h.valid, by simpa [Event.fire] using h.modes⟩
  | conflictPort who q =>
    simp only [Event.fire]
    split
    · exact h
    · exact ⟨by simpa using h.valid, by simpa using h.modes⟩
  | _ => exact ⟨h.valid, h.modes⟩

/-- **The configuration stays saveable**: starting from a configuration that passes validation, it
passes in every state of a run in which every request, successful or failed, adds only what is
new. -/
theorem config_saveable (config : List ConnectionConfig) (hconfig : validate config = none)
    (w : Server) (hrun : server.Run Fresh (.init config) w) : validate w.config = none :=
  validate_eq_none.2 (hrun.invariant (Saveable.init hconfig) fun _ _ h he hok => h.fire he hok).valid

/-! ### Runs -/

/-- Connection `a` is initialized. -/
def connectA : List Event :=
  [.callInitialize ⟨"ssh", "/p", false⟩, .initRegister ⟨"ssh", "/p", false⟩ "a" 0 "",
    .setConnected 0 true, .initSucceeded ⟨"ssh", "/p", false⟩ 0,
    .initCommit ⟨"ssh", "/p", false⟩ 0 "alpha"]

/-- A request that changes `a` in one step. -/
def changeA (change : Change) : List Event :=
  [.call "a" 0 change, .apply 0 change, .commit 0 change]

def forwardEnv (name : String) : List Event :=
  [.call "a" 0 (.updateEnvForward [name]), .readEnv 0 [name], .addEnv 0 [name],
    .commit 0 (.updateEnvForward [name])]

/-- The command `go`, without a prefix. -/
def forwardGo : Change := .updateForwardCommands [⟨"go", false⟩]

/-- The theorem at a run with several requests. -/
theorem config_saveable_changed :
    ∃ w, server.Run Fresh (.init []) w ∧ validate w.config = none ∧
      w.config.map (·.forward) = [["go"]] ∧ w.config.map (·.envForward) = [["HOME"]] := by
  have hexec : ∃ w ∈ server.exec Fresh (.init []) (connectA ++ changeA forwardGo ++
      changeA (.removeForwardCommands ["go"]) ++ changeA forwardGo ++ forwardEnv "HOME"),
      w.config.map (·.forward) = [["go"]] ∧ w.config.map (·.envForward) = [["HOME"]] := by
    decide +kernel
  obtain ⟨w, hw, hforward, henv⟩ := Machine.exists_run_of_exec _ _ hexec
  exact ⟨w, hw, config_saveable [] rfl w hw, hforward, henv⟩

/-- A command that is added twice makes the configuration invalid. -/
theorem forward_twice_unsaveable :
    ∃ w, server.Reachable (.init []) w ∧
      validate w.config = some (.connectionInvalid 0 (.duplicateForwarding "a" "go")) := by
  have hexec : ∃ w ∈ server.exec (fun _ _ => True) (.init [])
      (connectA ++ changeA forwardGo ++ changeA forwardGo),
      validate w.config = some (.connectionInvalid 0 (.duplicateForwarding "a" "go")) := by
    decide +kernel
  exact Machine.exists_run_of_exec _ _ hexec

end Graft.Config
