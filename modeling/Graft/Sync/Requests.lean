import Graft.Config.Requests
import Graft.Sync.Establish

/-!
# `SyncFilesToConnection` (`pkg/server_grpc_connection.go`, `pkg/server.go`)

A request for one synchronization establishes it, and then `UpdateSynchronizations` makes the
configuration of the connection anew of all its active synchronizations.
-/

namespace Graft.Sync

open Graft.Config (SynchronizationIntent ConnectionConfig SyncModesError validateSyncModes
  updateConnection)

/-! ### The request -/

/-- `SyncFilesToConnectionRequest`, without the name of the connection. -/
structure SyncRequest where
  sourceDir : String
  destDir : String
  syncGit : Bool
  syncInclude : List String
  defaultFileMode : String
  defaultDirectoryMode : String

/-- The entry of a source in the configuration, which `SyncModesFor` and `SyncIncludesFor` read. -/
def configuredSync (config : List ConnectionConfig) (connName fromLocal : String) :
    Option SynchronizationIntent :=
  (config.filter (·.name = connName)).findSome? fun conn =>
    conn.synchronizations.find? fun s => canonicalFromLocal conn.localRoot s.fromLocal = fromLocal

inductive SyncFilesError
  /-- the connection is not there, or not connected -/
  | connection
  | source (err : SourceError)
  | modes (err : SyncModesError)
  | establish (err : EstablishError)
  deriving DecidableEq

section Request

variable (shortHash : List Char → String) (homeDir identity : String)

/-- Where a source is synchronized to by default; `shortHash` are the first six digits of SHA-256.
-/
def defaultSyncRemotePath (sourceDir : String) : String :=
  String.ofList (Path.joinAll [homeDir.toList, ".graft".toList, "sync".toList, identity.toList,
    Path.base sourceDir.toList ++ '-' :: (shortHash sourceDir.toList).toList])

/-- What the request asks for; what it leaves open is as configured. -/
def SyncRequest.intent (req : SyncRequest) (config : List ConnectionConfig) (conn : Connection) :
    Except SyncFilesError SynchronizationIntent :=
  match canonicalizeSyncFromLocal conn.localRoot req.sourceDir with
  | .error err => .error (.source err)
  | .ok sourceDir =>
    match validateSyncModes req.defaultFileMode req.defaultDirectoryMode with
    | some err => .error (.modes err)
    | none =>
      let configured := configuredSync config conn.name sourceDir
      .ok {
        fromLocal := sourceDir
        toRemote :=
          if req.destDir = "" then defaultSyncRemotePath shortHash homeDir identity sourceDir
          else req.destDir
        syncGit := req.syncGit
        syncInclude :=
          if req.syncInclude = [] then (configured.map (·.syncInclude)).getD [] else req.syncInclude
        defaultFileMode :=
          if req.defaultFileMode = "" then (configured.map (·.defaultFileMode)).getD ""
          else req.defaultFileMode
        defaultDirectoryMode :=
          if req.defaultDirectoryMode = "" then (configured.map (·.defaultDirectoryMode)).getD ""
          else req.defaultDirectoryMode }

end Request

/-- The active synchronization of a source, as an intent. -/
def ActiveSync.intent (fromLocal : String) (s : ActiveSync) : SynchronizationIntent :=
  ⟨fromLocal, s.destination, s.syncGit, s.syncInclude, s.defaultFileMode, s.defaultDirectoryMode⟩

/-- `Connection.Synchronizations`. -/
def Connection.intents (conn : Connection) : List SynchronizationIntent :=
  conn.synchronizations.entries.map fun e => e.2.intent e.1

/-- The configuration of the connection gets its active synchronizations. -/
def updateSynchronizations (config : List ConnectionConfig) (conn : Connection) :
    List ConnectionConfig :=
  updateConnection conn.name (fun conf => { conf with synchronizations := conn.intents }) config

/-- Whether the connection is found, each time it is looked up. -/
structure Lookups where
  request : Bool
  establish : Bool
  update : Bool

/-- The configuration, the connection and the manager after a request, and its error. -/
structure SyncFilesResult where
  config : List ConnectionConfig
  conn : Connection
  manager : Manager
  error : Option SyncFilesError

def syncFilesToConnection (hash shortHash : List Char → String) (homeDir identity : String)
    (config : List ConnectionConfig) (conn : Connection) (m : Manager) (o : Outcomes)
    (found : Lookups) (req : SyncRequest) : SyncFilesResult :=
  if found.request = false then ⟨config, conn, m, some .connection⟩
  else match req.intent shortHash homeDir identity config conn with
    | .error err => ⟨config, conn, m, some err⟩
    | .ok intent =>
      if found.establish = false then ⟨config, conn, m, some .connection⟩
      else
        let r := establishSynchronization hash conn m o intent
        match r.error with
        | some err => ⟨config, r.conn, r.manager, some (.establish err)⟩
        | none =>
          if found.update = false then ⟨config, r.conn, r.manager, some .connection⟩
          else ⟨updateSynchronizations config r.conn, r.conn, r.manager, none⟩

/-! ### What is active -/

/-- The active synchronization is that of the entry, whose source is canonical. -/
def Represents (s active : SynchronizationIntent) : Prop :=
  active.fromLocal = s.fromLocal ∧ active.toRemote = s.toRemote ∧ active.syncGit = s.syncGit ∧
    syncModesCompatible active.defaultFileMode active.defaultDirectoryMode s.defaultFileMode
      s.defaultDirectoryMode = true ∧
    syncIncludesCompatible active.syncInclude s.syncInclude = true

instance (s active : SynchronizationIntent) : Decidable (Represents s active) :=
  inferInstanceAs (Decidable (_ ∧ _))

/-- The desired synchronizations that are not active; the sources of the active ones are distinct.
-/
def computeMissingSyncs (desired active : List SynchronizationIntent) :
    List SynchronizationIntent :=
  desired.filter fun s => active.all fun a => !decide (Represents s a)

/-- The entries of a configuration for other sources, with their sources made canonical. -/
def otherSyncs (conf : ConnectionConfig) (fromLocal : String) : List SynchronizationIntent :=
  (canonicalizeSyncIntentConfigs conf.localRoot conf.synchronizations).filter
    (·.fromLocal ≠ fromLocal)

theorem mem_intents {conn : Connection} {a : SynchronizationIntent} :
    a ∈ conn.intents ↔
      ∃ e, conn.synchronizations.lookup a.fromLocal = some e ∧ a = e.intent a.fromLocal := by
  constructor
  · intro ha
    obtain ⟨e, he, rfl⟩ := List.mem_map.1 ha
    exact ⟨e.2, AList.mem_lookup_iff.2 he, rfl⟩
  · rintro ⟨e, he, ha⟩
    exact List.mem_map.2 ⟨⟨a.fromLocal, e⟩, AList.mem_lookup_iff.1 he, ha.symm⟩

/-! ### What a request leaves alone -/

/-- Only the synchronization of one source has changed. -/
structure Connection.Frame (fromLocal : String) (conn conn' : Connection) : Prop where
  name : conn'.name = conn.name
  others : ∀ k, k ≠ fromLocal → conn'.synchronizations.lookup k = conn.synchronizations.lookup k

namespace Connection.Frame

variable {fromLocal : String} {conn conn' : Connection}

theorem setSync (entry : ActiveSync) : conn.Frame fromLocal (conn.setSync fromLocal entry) :=
  ⟨rfl, fun _ hk => AList.lookup_insert_ne hk⟩

theorem mem_intents_iff (h : conn.Frame fromLocal conn') {a : SynchronizationIntent}
    (hne : a.fromLocal ≠ fromLocal) : a ∈ conn'.intents ↔ a ∈ conn.intents := by
  rw [mem_intents, mem_intents, h.others _ hne]

end Connection.Frame

section Frame

variable {hash : List Char → String} {conn : Connection} {m : Manager} {o : Outcomes}
  {intent : SynchronizationIntent}

theorem recordSync_ok {closed : Bool} {fromLocal : String} {entry : ActiveSync}
    {sessions : List ℕ} (h : (recordSync conn m closed fromLocal entry sessions).error = none) :
    (recordSync conn m closed fromLocal entry sessions).conn = conn.setSync fromLocal entry := by
  grind [recordSync]

theorem applyGitReplicaFlip_ok {existing : ActiveSync}
    (h : (applyGitReplicaFlip hash conn m o intent existing).error = none) :
    ∃ git, (applyGitReplicaFlip hash conn m o intent existing).conn =
      conn.setSync intent.fromLocal
        { existing with gitSession := git, syncGit := intent.syncGit } := by
  unfold applyGitReplicaFlip at h ⊢
  cases hgit : intent.syncGit with
  | false =>
    simp only [hgit, Bool.false_eq_true, if_false] at h ⊢
    exact ⟨none, recordSync_ok h⟩
  | true =>
    cases hres : (establishGitReplica hash conn.name m o intent).2 with
    | error err =>
      simp only [hgit, if_true, hres] at h
      split_ifs at h
    | ok git =>
      simp only [hgit, if_true, hres] at h ⊢
      split_ifs at h ⊢
      exact ⟨git, recordSync_ok h⟩

theorem recordEstablished_ok {id : ℕ}
    (h : (recordEstablished hash conn m o intent id).error = none) :
    ∃ git, (recordEstablished hash conn m o intent id).conn = conn.setSync intent.fromLocal
      { ActiveSync.ofIntent intent id with gitSession := git, syncGit := intent.syncGit } := by
  unfold recordEstablished at h ⊢
  set recorded := recordSync conn (pauseReplica conn m intent) o.closed intent.fromLocal
    (.ofIntent intent id) [id] with hrecorded
  cases herror : recorded.error with
  | some err => simp [herror] at h
  | none =>
    have hconn : recorded.conn = conn.setSync intent.fromLocal (.ofIntent intent id) :=
      recordSync_ok herror
    cases hgit : intent.syncGit with
    | false =>
      simp only [herror, Option.isSome_none, Bool.not_false, Bool.or_true, if_true]
      exact ⟨none, hconn⟩
    | true =>
      cases hres : (establishGitReplica hash conn.name recorded.manager o intent).2 with
      | error err => simp [herror, hgit, hres] at h
      | ok git =>
        simp only [herror, hgit, hres, Option.isSome_none, Bool.not_true, Bool.or_self,
          Bool.false_eq_true, if_false] at h ⊢
        refine ⟨git, (recordSync_ok h).trans ?_⟩
        rw [hconn, Connection.setSync, Connection.setSync, Connection.setSync, AList.insert_insert]

theorem establish_ok (h : (establish hash conn m o intent).error = none) :
    isAbs intent.fromLocal = true ∧ ∃ id git, (establish hash conn m o intent).conn =
      conn.setSync intent.fromLocal
        { ActiveSync.ofIntent intent id with gitSession := git, syncGit := intent.syncGit } := by
  rcases establish_cases hash conn m o intent with ⟨m', err, heq⟩ | ⟨m', id, habs, -, heq⟩
  · rw [heq] at h
    cases h
  grind [recordEstablished_ok]

/-- The sources of the active synchronizations are absolute. -/
def Connection.Absolute (conn : Connection) : Prop :=
  ∀ fromLocal ∈ conn.synchronizations, isAbs fromLocal = true

theorem Connection.Absolute.of_lookup (h : conn.Absolute) {fromLocal : String} {entry : ActiveSync}
    (hentry : entry ∈ conn.synchronizations.lookup fromLocal) : isAbs fromLocal = true :=
  h fromLocal (AList.lookup_isSome.1 (Option.isSome_of_mem hentry))

/-- What is done for a source leaves the others alone, and is done for absolute ones only. -/
theorem establishSynchronization_frame (habs : conn.Absolute)
    (h : (establishSynchronization hash conn m o intent).error = none) :
    (establishSynchronization hash conn m o intent).conn = conn ∨
      ∃ fromLocal, canonicalizeSyncFromLocal conn.localRoot intent.fromLocal = .ok fromLocal ∧
        isAbs fromLocal = true ∧
        conn.Frame fromLocal (establishSynchronization hash conn m o intent).conn := by
  rcases establishSynchronization_cases hash conn m o intent with
    ⟨err, heq⟩ | ⟨intent', out, hcanonical, -, -, -, ⟨existing, hentry, heq⟩ | heq⟩
  · exact .inl (by rw [heq])
  · grind [applyGitReplicaFlip_ok, Connection.Absolute.of_lookup, Connection.Frame.setSync]
  grind [Connection.Frame.setSync, establish_ok]

theorem mem_recordSync {closed : Bool} {fromLocal k : String} {entry : ActiveSync}
    {sessions : List ℕ}
    (hk : k ∈ (recordSync conn m closed fromLocal entry sessions).conn.synchronizations) :
    k = fromLocal ∨ k ∈ conn.synchronizations := by
  unfold recordSync at hk
  split_ifs at hk
  · cases hk
  · exact (AList.mem_insert _).1 hk

theorem mem_applyGitReplicaFlip {existing : ActiveSync} {k : String}
    (hk : k ∈ (applyGitReplicaFlip hash conn m o intent existing).conn.synchronizations) :
    k = intent.fromLocal ∨ k ∈ conn.synchronizations := by
  unfold applyGitReplicaFlip at hk
  dsimp only at hk
  split_ifs at hk
  · exact .inr hk
  · split at hk
    · exact .inr hk
    · exact mem_recordSync hk
  · exact mem_recordSync hk

theorem mem_recordEstablished {id : ℕ} {k : String}
    (hk : k ∈ (recordEstablished hash conn m o intent id).conn.synchronizations) :
    k = intent.fromLocal ∨ k ∈ conn.synchronizations := by
  unfold recordEstablished at hk
  dsimp only at hk
  split_ifs at hk
  · exact mem_recordSync hk
  · split at hk
    · exact mem_recordSync hk
    · exact (mem_recordSync hk).elim .inl mem_recordSync

/-- What becomes active is absolute, and overlaps with nothing that is active. -/
theorem mem_establishSynchronization {k : String}
    (hk : k ∈ (establishSynchronization hash conn m o intent).conn.synchronizations) :
    k ∈ conn.synchronizations ∨
      canonicalizeSyncFromLocal conn.localRoot intent.fromLocal = .ok k ∧ isAbs k = true ∧
        checkSyncOverlap conn.synchronizations k = none := by
  rcases establishSynchronization_cases hash conn m o intent with
    ⟨err, heq⟩ | ⟨intent', out, hcanonical, -, -, -, ⟨existing, hentry, heq⟩ | heq⟩
  · simp_all
  · grind [mem_applyGitReplicaFlip, AList.lookup_isSome, Option.isSome_of_mem]
  · cases hoverlap : checkSyncOverlap conn.synchronizations intent'.fromLocal with
    | some existing =>
      simp only [establishSynchronization, plan, hcanonical, hoverlap] at hk
      exact .inl hk
    | none =>
      rw [heq] at hk
      rcases establish_cases hash conn m o intent' with ⟨m', err, heq⟩ | ⟨m', id, habs, -, heq⟩
      · simp_all
      · grind [mem_recordEstablished]

theorem establishSynchronization_absolute (habs : conn.Absolute) :
    (establishSynchronization hash conn m o intent).conn.Absolute :=
  fun k hk => (mem_establishSynchronization hk).elim (habs k) (·.2.1)

theorem establishSynchronization_intents (habs : conn.Absolute) {sourceDir fromLocal : String}
    (hsource : canonicalizeSyncFromLocal conn.localRoot sourceDir = .ok fromLocal)
    (hintent : intent.fromLocal = fromLocal)
    (h : (establishSynchronization hash conn m o intent).error = none) :
    (establishSynchronization hash conn m o intent).conn.name = conn.name ∧
      ∀ a : SynchronizationIntent, a.fromLocal ≠ fromLocal →
        (a ∈ (establishSynchronization hash conn m o intent).conn.intents ↔ a ∈ conn.intents) := by
  rcases establishSynchronization_frame habs h with heq | ⟨fromLocal', hcanonical, hsourceAbs, hframe⟩
  · simp_all
  · -- an absolute source that is canonical is so again
    have hfirst : isAbs fromLocal = true := by
      rw [isAbs_canonicalize hcanonical, hintent, isAbs_canonicalize hsource] at hsourceAbs
      rw [isAbs_canonicalize hsource]
      simpa using hsourceAbs
    rw [hintent, canonicalize_self hsource hfirst] at hcanonical
    obtain rfl := Except.ok.inj hcanonical
    exact ⟨hframe.name, fun a hne => hframe.mem_intents_iff hne⟩

end Frame

/-! ### The configuration -/

theorem SyncRequest.intent_eq_ok {shortHash : List Char → String} {homeDir identity : String}
    {req : SyncRequest} {config : List ConnectionConfig} {conn : Connection}
    {intent : SynchronizationIntent}
    (h : req.intent shortHash homeDir identity config conn = .ok intent) :
    canonicalizeSyncFromLocal conn.localRoot req.sourceDir = .ok intent.fromLocal := by
  unfold SyncRequest.intent at h
  cases hsource : canonicalizeSyncFromLocal conn.localRoot req.sourceDir with
  | error err =>
    simp_all
  | ok sourceDir =>
    grind

/-- A request that fails leaves the configuration as it is; one that succeeds has established its
synchronization. -/
theorem syncFilesToConnection_config (hash shortHash : List Char → String)
    (homeDir identity : String) (config : List ConnectionConfig) (conn : Connection) (m : Manager)
    (o : Outcomes) (found : Lookups) (req : SyncRequest) :
    let r := syncFilesToConnection hash shortHash homeDir identity config conn m o found req
    r.error ≠ none ∧ r.config = config ∨
      ∃ intent, canonicalizeSyncFromLocal conn.localRoot req.sourceDir = .ok intent.fromLocal ∧
        (establishSynchronization hash conn m o intent).error = none ∧ r.error = none ∧
        r.config =
          updateSynchronizations config (establishSynchronization hash conn m o intent).conn := by
  intro r
  simp only [r, syncFilesToConnection]
  by_cases hfound : found.request = false
  · simp [hfound]
  rw [if_neg hfound]
  cases hintent : req.intent shortHash homeDir identity config conn with
  | error err => exact .inl ⟨nofun, rfl⟩
  | ok intent =>
    cases herror : (establishSynchronization hash conn m o intent).error with
    | some err =>
      simp only [herror]
      split_ifs
      · exact .inl ⟨nofun, rfl⟩
      · exact .inl ⟨nofun, rfl⟩
    | none =>
      simp only [herror]
      split_ifs
      · exact .inl ⟨nofun, rfl⟩
      · exact .inl ⟨nofun, rfl⟩
      · exact .inr ⟨intent, SyncRequest.intent_eq_ok hintent, herror, rfl, rfl⟩

def syncSrc : SynchronizationIntent := ⟨"src", "/srv/src", false, [], "", ""⟩

def syncDoc : SynchronizationIntent := ⟨"doc", "/srv/doc", false, [], "", ""⟩

/-- A request for the second, which leaves everything open but where it is to go. -/
def requestDoc : SyncRequest := ⟨"doc", "/srv/doc", false, [], "", ""⟩

/-- `a` with the first one active. -/
def connSrc : Connection :=
  (establishSynchronization String.ofList connA .empty (succeeds fun s => s) syncSrc).conn

end Graft.Sync
