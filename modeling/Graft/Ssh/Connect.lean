import Graft.Config.Validate
import Graft.Connections.RefCounts
import Graft.Ssh.Resolve

/-!
# Connecting twice (`InitializeSSHConnection`)

A request to connect holds `serverMu` while the connection manager works.  Other operations of the
manager, such as the restores of a start, go on meanwhile.  When the manager has returned a
connection, new or not, the request appends an entry to the configuration.
-/

namespace Graft.Ssh

open Function (update)
open Connections (Url Manager Step)
open Config (ConnectionConfig)

/-! ### The machine -/

/-- `InitializeSSHConnectionRequest`. -/
structure Request where
  destination : String
  userName : String
  name : String
  localRoot : String
  remoteRoot : String
  background : Bool
  deriving DecidableEq

/-- What is given: the configuration of the client, the functions for URLs and the identity. -/
structure Site where
  client : Client
  /-- `url.Parse` -/
  parse : String → Option SshUrl
  /-- `url.URL.String` -/
  text : Url → String
  identity : String

structure State where
  mgr : Manager
  /-- the connections that the operations of the manager have returned -/
  returned : ℕ → Option ℕ
  /-- `rootConfig.Connections` -/
  config : List ConnectionConfig
  /-- the request that holds `serverMu`, and its operation -/
  serving : Option (Request × ℕ)

def Request.destURL (site : Site) (req : Request) : Option Url :=
  (parseDestination site.parse req.destination).map fun destURL =>
    { destURL.toUrl with
      scheme := "ssh"
      user := if req.userName ≠ "" ∧ destURL.hasUser = false then req.userName else destURL.user }

/-- What `InitializeRemote` makes of a destination. -/
def resolvedURL (client : Client) (u : Url) : Option Url :=
  if h : Digits u.port then (initializeRemote client ⟨u, true, h⟩).map (·.2.toUrl) else none

/-- `Destination`, of the daemon of a connection. -/
def destination (m : Manager) (c : ℕ) : Url := m.urls (m.daemon (m.conn c).daemon).url

def entry (site : Site) (req : Request) (m : Manager) (c : ℕ) : ConnectionConfig where
  name := (m.conn c).name
  destination := site.text (destination m c)
  localRoot := req.localRoot
  remoteRoot := (m.conn c).remoteRoot
  forward := []
  prefixForward := []
  synchronizations := []
  background := req.background
  ports := []
  forwardAgent := false
  envForward := []

/-- The connection that the operation returns with the step. -/
def returns (m : Manager) (t : ℕ) : Step → Option ℕ
  | .found c => if destination m c = m.urls t then some c else none
  | .settle c _ | .refresh c _ => some c
  | _ => none

/-- The connectors of SSH destinations resolve them. -/
def Resolves (client : Client) (m : Manager) : Connections.Event → Prop
  | .step _ (.remoteUp _ d _ u) =>
    (m.urls (m.daemon d).url).scheme = "ssh" →
      resolvedURL client (m.urls (m.daemon d).url) = some u
  | _ => True

instance (client : Client) (m : Manager) (e : Connections.Event) :
    Decidable (Resolves client m e) := by
  unfold Resolves
  split <;> infer_instance

inductive Event
  | manage (e : Connections.Event)
  | request (req : Request) (destURL : Url)
  /-- the operation has returned, and so does the request -/
  | respond (req : Request) (t : ℕ) (ok : Bool)

namespace Event

def Enabled (site : Site) (w : State) : Event → Prop
  | manage e => e.Enabled w.mgr ∧ Resolves site.client w.mgr e
  | request req destURL => w.serving = none ∧ req.destURL site = some destURL
  | respond req t ok => w.serving = some (req, t) ∧ (w.mgr.op t).pc = .done ok

instance (site : Site) (w : State) (e : Event) : Decidable (e.Enabled site w) := by
  cases e <;> dsimp only [Enabled] <;> infer_instance

def fire (site : Site) (w : State) : Event → State
  | manage e =>
    { w with
      mgr := e.fire w.mgr
      returned := match e with
        | .step t s => if returns w.mgr t s = none then w.returned
          else update w.returned t (returns w.mgr t s)
        | _ => w.returned }
  | request req destURL =>
    { w with
      mgr := Connections.Event.fire w.mgr (.callInitialize req.name destURL
        ⟨req.localRoot, req.remoteRoot, site.identity, req.background, true⟩)
      serving := some (req, w.mgr.opCount) }
  | respond req t ok =>
    { w with
      serving := none
      config := match (if ok then w.returned t else none) with
        | none => w.config
        | some c => w.config ++ [entry site req w.mgr c] }

end Event

def connecting (site : Site) : Machine State Event := ⟨Event.Enabled site, Event.fire site⟩

instance (site : Site) (w : State) (e : Event) : Decidable ((connecting site).enabled w e) :=
  inferInstanceAs (Decidable (e.Enabled site w))

def Event.isManage : Event → Prop
  | manage _ => True
  | _ => False

instance (e : Event) : Decidable e.isManage := by
  cases e <;> dsimp only [Event.isManage] <;> infer_instance

/-- The request is served, from its beginning to its end. -/
def Serves (site : Site) (req : Request) (w w' : State) (res : Option ℕ) : Prop :=
  ∃ destURL w₁ ok, (Event.request req destURL).Enabled site w ∧
    (connecting site).Run (fun _ e => e.isManage) ((Event.request req destURL).fire site w) w₁ ∧
    (Event.respond req w.mgr.opCount ok).Enabled site w₁ ∧
    w' = (Event.respond req w.mgr.opCount ok).fire site w₁ ∧
    res = if ok then w₁.returned w.mgr.opCount else none

/-! ### The second request -/

section Repeated

variable {site : Site} {w w₁ : State} {req : Request} {destURL : Url}

theorem config_of_run {w' : State} (h : (connecting site).Run (fun _ e => e.isManage) w w') :
    w'.config = w.config := by
  refine Machine.Run.invariant (I := fun w' => w'.config = w.config) rfl ?_ h
  intro s e hs _ hmanage
  cases e with
  | manage e => exact hs
  | request => exact hmanage.elim
  | respond => exact hmanage.elim

/-- **Connecting twice**: whatever a first request has done, a second one like it does not both
return the same connection and leave the connections and the configuration as they were. -/
theorem connect_never_idempotent (site : Site) (req : Request) (w₀ w₁ w₂ : State) (c : ℕ)
    (res : Option ℕ) (_hfirst : Serves site req w₀ w₁ (some c))
    (hsecond : Serves site req w₁ w₂ res) :
    ¬ (res = some c ∧ w₂.mgr.connections = w₁.mgr.connections ∧ w₂.config = w₁.config) := by
  rintro ⟨rfl, -, hconfig⟩
  obtain ⟨destURL, w', ok, -, hrun, -, rfl, hres⟩ := hsecond
  have hsame : w'.config = w₁.config := (config_of_run hrun).trans rfl
  dsimp only [Event.fire] at hconfig
  rw [← hres, hsame] at hconfig
  simp at hconfig

/-- The request is served by the given steps of the manager, and then `P` holds. -/
def Replays (site : Site) (req : Request) (destURL : Url) (es : List Connections.Event) (ok : Bool)
    (res : Option ℕ) (P : State → Prop) (w : State) : Prop :=
  (Event.request req destURL).Enabled site w ∧
    ∃ w' ∈ (connecting site).exec (fun _ e => e.isManage)
        ((Event.request req destURL).fire site w) (es.map .manage),
      (Event.respond req w.mgr.opCount ok).Enabled site w' ∧
        (if ok then w'.returned w.mgr.opCount else none) = res ∧
        P ((Event.respond req w.mgr.opCount ok).fire site w')

instance (es : List Connections.Event) (ok : Bool) (res : Option ℕ) (P : State → Prop)
    [DecidablePred P] : DecidablePred (Replays site req destURL es ok res P) := fun w => by
  unfold Replays
  infer_instance

theorem Replays.serves {es : List Connections.Event} {ok : Bool} {res : Option ℕ}
    {P : State → Prop} (h : Replays site req destURL es ok res P w) :
    ∃ w', Serves site req w w' res ∧ P w' := by
  obtain ⟨hreq, hexec⟩ := h
  obtain ⟨w', hrun, hdone, hres, hP⟩ := Machine.exists_run_of_exec _ _ hexec
  exact ⟨_, ⟨destURL, w', ok, hreq, hrun, hdone, rfl, hres.symm⟩, hP⟩

end Repeated

/-- A server whose SSH configuration has a section for `dev`. -/
def devSite : Site where
  client := devClient
  parse s :=
    if s = "ssh://dev" then some (plainUrl "dev")
    else if s = "ssh://me@beta:22" then some (resolvedUrl "beta")
    else some ⟨⟨"", "", "", "", ""⟩, false, nofun⟩
  text u := u.scheme ++ "://" ++ u.user ++ "@" ++ u.host
  identity := "id"

def start : State := ⟨.init Connections.sshOnly, fun _ => none, [], none⟩

def connectTo (destination : String) : Request := ⟨destination, "", "c", "", "", false⟩

def connectSteps (u : Url) : List Connections.Event :=
  [.step 0 .absent, .step 0 .miss, .step 0 .connectorMade, .step 0 .insert, .step 0 (.create 0),
    .step 0 (.start 0 0 true), .step 0 (.remoteUp 0 0 true u), .step 0 (.rekey 0 0),
    .step 0 (.ensured 0 0 true true), .step 0 (.settle 0 0)]

theorem serves_resolved :
    ∃ w₁, Serves devSite (connectTo "ssh://me@beta:22") start w₁ (some 0) ∧
      ∃ w₂, Serves devSite (connectTo "ssh://me@beta:22") w₁ w₂ (some 0) ∧
        w₂.config.map (·.name) = ["c", "c"] := by
  have hreplays : Replays devSite (connectTo "ssh://me@beta:22") (resolvedUrl "beta").toUrl
      (connectSteps (resolvedUrl "beta").toUrl) true (some 0)
      (Replays devSite (connectTo "ssh://me@beta:22") (resolvedUrl "beta").toUrl
        [.step 1 (.found 0)] true (some 0)
        fun w => w.config.map (·.name) = ["c", "c"]) start := by
    decide +kernel
  obtain ⟨w₁, hfirst, hagain⟩ := hreplays.serves
  obtain ⟨w₂, hsecond, hconfig⟩ := hagain.serves
  exact ⟨w₁, hfirst, w₂, hsecond, hconfig⟩

/-- The theorem at a request that succeeds twice. -/
theorem connect_never_idempotent_resolved :
    ∃ w₁ w₂, Serves devSite (connectTo "ssh://me@beta:22") start w₁ (some 0) ∧
      Serves devSite (connectTo "ssh://me@beta:22") w₁ w₂ (some 0) ∧
      ¬ (w₂.mgr.connections = w₁.mgr.connections ∧ w₂.config = w₁.config) := by
  obtain ⟨w₁, hfirst, w₂, hsecond, -⟩ := serves_resolved
  refine ⟨w₁, w₂, hfirst, hsecond, fun hsame => ?_⟩
  exact connect_never_idempotent _ _ _ _ _ _ _ hfirst hsecond ⟨rfl, hsame⟩

/-- With an alias, the second request is refused; with a destination that is resolved already, it
succeeds and its entry is there twice. -/
theorem repeated_connects :
    (∃ w₁, Serves devSite (connectTo "dev") start w₁ (some 0) ∧
      ∃ w₂, Serves devSite (connectTo "dev") w₁ w₂ none) ∧
    ∃ w₁, Serves devSite (connectTo "ssh://me@beta:22") start w₁ (some 0) ∧
      ∃ w₂, Serves devSite (connectTo "ssh://me@beta:22") w₁ w₂ (some 0) ∧
        w₂.config.map (·.name) = ["c", "c"] := by
  refine ⟨?_, serves_resolved⟩
  have hreplays : Replays devSite (connectTo "dev") (plainUrl "dev").toUrl
      (connectSteps (resolvedUrl "10.0.0.5").toUrl) true (some 0)
      (Replays devSite (connectTo "dev") (plainUrl "dev").toUrl [.step 1 (.found 0)] false none
        fun _ => True) start := by
    decide +kernel
  obtain ⟨w₁, hfirst, hagain⟩ := hreplays.serves
  obtain ⟨w₂, hsecond, -⟩ := hagain.serves
  exact ⟨w₁, hfirst, w₂, hsecond⟩

end Graft.Ssh
