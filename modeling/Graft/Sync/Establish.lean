import Mathlib.Data.List.AList
import Graft.Sync.Sessions

/-!
# `EstablishSynchronization` (`pkg/connection.go`)

A connection keeps its active synchronizations by their sources.  To establish one, the source is
made canonical and the remote path is resolved by the remote shell; then its session, and that of
the replica of `.git` if it is asked for, are resumed or created and recorded.  `syncMu` is held
meanwhile, so that only `Close` can come between.

How the lists of ignores are made of the files `.gitignore` is left out, and so are the warnings
about includes.
-/

namespace Graft.Sync

open Graft.Config (SynchronizationIntent ConnectionConfig SyncModesError parseSyncMode validateMode
  ensureDefaultFileModeValid ensureDefaultDirectoryModeValid)

/-! ### Active synchronizations -/

/-- An active synchronization; the sessions are those that its close functions pause. -/
structure ActiveSync where
  destination : String
  session : ℕ
  syncGit : Bool
  gitSession : Option ℕ
  defaultFileMode : String
  defaultDirectoryMode : String
  syncInclude : List String
  deriving DecidableEq

/-- What a connection knows of its synchronizations. -/
structure Connection where
  name : String
  localRoot : String
  synchronizations : AList fun _ : String => ActiveSync
  closed : Bool

/-- No mode is no opinion. -/
def syncModesCompatible (existingFile existingDir desiredFile desiredDir : String) : Bool :=
  (desiredFile = "" || desiredFile = existingFile) && (desiredDir = "" || desiredDir = existingDir)

/-- No includes are no opinion; their order does not matter. -/
def syncIncludesCompatible (existing desired : List String) : Bool :=
  desired.isEmpty || existing.isPerm desired

namespace ActiveSync

/-- The intent's modes and includes, where it has none those of the active synchronization. -/
def inheritInto (s : ActiveSync) (intent : SynchronizationIntent) : SynchronizationIntent :=
  { intent with
    defaultFileMode :=
      if intent.defaultFileMode = "" then s.defaultFileMode else intent.defaultFileMode
    defaultDirectoryMode :=
      if intent.defaultDirectoryMode = "" then s.defaultDirectoryMode
      else intent.defaultDirectoryMode
    syncInclude := if intent.syncInclude = [] then s.syncInclude else intent.syncInclude }

/-- The modes and includes are as the intent wants them. -/
def satisfies (s : ActiveSync) (intent : SynchronizationIntent) : Bool :=
  syncModesCompatible s.defaultFileMode s.defaultDirectoryMode intent.defaultFileMode
    intent.defaultDirectoryMode && syncIncludesCompatible s.syncInclude intent.syncInclude

end ActiveSync

/-! ### Errors -/

/-- Why a synchronization could not be established. -/
inductive EstablishError
  | source (err : SourceError)
  | overlap (fromLocal existing : String)
  | resolve
  | destination (fromLocal existing toRemote : String)
  | modes (err : SyncModesError)
  | mkdir
  | unavailable
  | session (err : SessionError)
  | closed
  | gitMkdir
  deriving DecidableEq

/-! ### Before the remote path is resolved -/

/-- What follows `start` in the path, if that is nothing or begins with a separator. -/
def hasPathPrefix (path start : String) : Option String :=
  if start.toList.isPrefixOf path.toList then
    let after := path.toList.drop start.toList.length
    if after = [] ∨ after.head? = some '/' then some (String.ofList after) else none
  else none

/-- An active synchronization whose source contains this one, or is contained in it. -/
def checkSyncOverlap (active : AList fun _ : String => ActiveSync) (fromLocal : String) :
    Option String :=
  active.keys.find? fun existing => existing ≠ fromLocal &&
    ((hasPathPrefix fromLocal existing).isSome || (hasPathPrefix existing fromLocal).isSome)

/-- The remote path has to be resolved, or there is nothing to do. -/
inductive Plan
  | noop
  | resolve (intent : SynchronizationIntent)
  deriving DecidableEq

/-- What is decided before the remote path is resolved. -/
def plan (conn : Connection) (intent : SynchronizationIntent) : Except EstablishError Plan :=
  match canonicalizeSyncFromLocal conn.localRoot intent.fromLocal with
  | .error err => .error (.source err)
  | .ok fromLocal =>
    match checkSyncOverlap conn.synchronizations fromLocal with
    | some existing => .error (.overlap fromLocal existing)
    | none =>
      match conn.synchronizations.lookup fromLocal with
      | none => .ok (.resolve { intent with fromLocal := fromLocal })
      | some existing =>
        let intent := existing.inheritInto { intent with fromLocal := fromLocal }
        if existing.destination = intent.toRemote ∧ existing.syncGit = intent.syncGit ∧
            existing.satisfies intent then .ok .noop
        else .ok (.resolve intent)

/-! ### After it -/

/-- `unicode.IsSpace`. -/
def isSpace (c : Char) : Bool :=
  c.toNat ∈ [9, 10, 11, 12, 13, 32, 0x85, 0xA0, 0x1680, 0x2028, 0x2029, 0x202F, 0x205F, 0x3000] ||
    (0x2000 ≤ c.toNat && c.toNat ≤ 0x200A)

/-- `strings.TrimSpace`, which also takes the newline that `echo` adds. -/
def trimSpace (s : String) : String :=
  String.ofList ((s.toList.dropWhile isSpace).reverse.dropWhile isSpace).reverse

/-- `strings.Fields`. -/
def fields (text : List Char) : List (List Char) := (text.splitOnP isSpace).filter (· ≠ [])

/-- What is left to do when the remote path is known. -/
inductive Action
  | noop
  /-- only the replica of `.git` changes -/
  | flip (intent : SynchronizationIntent) (existing : ActiveSync)
  | establish (intent : SynchronizationIntent)
  deriving DecidableEq

/-- What is decided once the remote path is known. -/
def action (conn : Connection) (intent : SynchronizationIntent) (resolved : String) :
    Except EstablishError Action :=
  let intent := { intent with toRemote := resolved }
  match conn.synchronizations.lookup intent.fromLocal with
  | none => .ok (.establish intent)
  | some existing =>
    if existing.destination ≠ resolved then
      .error (.destination intent.fromLocal existing.destination resolved)
    else if existing.satisfies intent then
      if existing.syncGit = intent.syncGit then .ok .noop else .ok (.flip intent existing)
    else .ok (.establish intent)

/-- The permission modes of the remote side, with defaults for those that are not given. -/
def syncModesConfiguration (intent : SynchronizationIntent) (defaultFile defaultDir : ℕ) :
    Except SyncModesError (ℕ × ℕ) :=
  match validateMode ensureDefaultFileModeValid intent.defaultFileMode with
  | some err => .error (.defaultFileMode err)
  | none =>
    match validateMode ensureDefaultDirectoryModeValid intent.defaultDirectoryMode with
    | some err => .error (.defaultDirectoryMode err)
    | none =>
      .ok ((parseSyncMode intent.defaultFileMode).getD defaultFile,
        (parseSyncMode intent.defaultDirectoryMode).getD defaultDir)

def syncBetaConfiguration (intent : SynchronizationIntent) : Except SyncModesError (ℕ × ℕ) :=
  syncModesConfiguration intent 0o644 0o755

def gitReplicaBetaConfiguration (intent : SynchronizationIntent) : Except SyncModesError (ℕ × ℕ) :=
  syncModesConfiguration intent 0 0

def gitReplicaIgnores : List String := ["*.lock", "objects/**/tmp_*", "gc.pid"]

/-- What the calls come to: the remote shell, the manager, the file system, and `Close`, which may
have run before a result is recorded. -/
structure Outcomes where
  echo : String → Option String
  ignores : List String
  mkdir : Bool
  available : Bool
  session : SessionOutcomes
  closed : Bool
  /-- the source has a directory `.git` -/
  gitDir : Bool
  gitMkdir : Bool
  gitSession : SessionOutcomes
  gitClosed : Bool

/-- The connection, the manager, the sessions that were established, and the error. -/
structure Established where
  conn : Connection
  manager : Manager
  sessions : List ℕ
  error : Option EstablishError

/-- `Close` has run. -/
def Connection.close (conn : Connection) : Connection :=
  { conn with synchronizations := ∅, closed := true }

def Connection.setSync (conn : Connection) (fromLocal : String) (entry : ActiveSync) : Connection :=
  { conn with synchronizations := conn.synchronizations.insert fromLocal entry }

def ActiveSync.pause (entry : ActiveSync) (m : Manager) : Manager :=
  entry.gitSession.toList.foldl Manager.pause (m.pause entry.session)

/-- An entry is recorded, unless the connection was closed. -/
def recordSync (conn : Connection) (m : Manager) (closed : Bool) (fromLocal : String)
    (entry : ActiveSync) (sessions : List ℕ) : Established :=
  if closed then ⟨conn.close, entry.pause m, sessions, some .closed⟩
  else ⟨conn.setSync fromLocal entry, m, sessions, none⟩

section Establish

variable (hash : List Char → String)

/-- The session of the replica of `.git`, if there is one to replicate. -/
def establishGitReplica (connName : String) (m : Manager) (o : Outcomes)
    (intent : SynchronizationIntent) : Manager × Except EstablishError (Option ℕ) :=
  if o.gitDir = false then (m, .ok none)
  else match gitReplicaBetaConfiguration intent with
    | .error err => (m, .error (.modes err))
    | .ok (fileMode, directoryMode) =>
      if o.gitMkdir = false then (m, .error .gitMkdir)
      else
        let git := gitReplicaIntent intent
        let r := m.establishSession o.gitSession ⟨syncSessionName hash connName git, git.fromLocal,
          git.toRemote, gitReplicaIgnores, fileMode, directoryMode⟩
        (r.1, (r.2.map some).mapError .session)

/-- Only the replica of `.git` is established or paused. -/
def applyGitReplicaFlip (conn : Connection) (m : Manager) (o : Outcomes)
    (intent : SynchronizationIntent) (existing : ActiveSync) : Established :=
  if intent.syncGit then
    if o.available = false then ⟨conn, m, [], some .unavailable⟩
    else
      let r := establishGitReplica hash conn.name m o intent
      match r.2 with
      | .error err => ⟨conn, r.1, [], some err⟩
      | .ok git =>
        recordSync conn r.1 o.closed intent.fromLocal
          { existing with gitSession := git, syncGit := true } git.toList
  else
    recordSync conn (existing.gitSession.toList.foldl Manager.pause m) o.closed intent.fromLocal
      { existing with gitSession := none, syncGit := false } []

/-- The replica of an active synchronization is paused, if it is not wanted any more. -/
def pauseReplica (conn : Connection) (m : Manager) (intent : SynchronizationIntent) : Manager :=
  match conn.synchronizations.lookup intent.fromLocal with
  | some existing =>
    if intent.syncGit then m else existing.gitSession.toList.foldl Manager.pause m
  | none => m

def ActiveSync.ofIntent (intent : SynchronizationIntent) (id : ℕ) : ActiveSync :=
  ⟨intent.toRemote, id, false, none, intent.defaultFileMode, intent.defaultDirectoryMode,
    intent.syncInclude⟩

/-- A session was established: it is recorded, then the replica established and recorded. -/
def recordEstablished (conn : Connection) (m : Manager) (o : Outcomes)
    (intent : SynchronizationIntent) (id : ℕ) : Established :=
  let recorded := recordSync conn (pauseReplica conn m intent) o.closed intent.fromLocal
    (.ofIntent intent id) [id]
  if recorded.error.isSome || !intent.syncGit then recorded
  else
    let r := establishGitReplica hash conn.name recorded.manager o intent
    match r.2 with
    | .error err => ⟨recorded.conn, r.1, [id], some err⟩
    | .ok git =>
      recordSync recorded.conn r.1 o.gitClosed intent.fromLocal
        { ActiveSync.ofIntent intent id with syncGit := true, gitSession := git } (id :: git.toList)

/-- The session of the source is established, and what follows. -/
def establish (conn : Connection) (m : Manager) (o : Outcomes) (intent : SynchronizationIntent) :
    Established :=
  match syncBetaConfiguration intent with
  | .error err => ⟨conn, m, [], some (.modes err)⟩
  | .ok (fileMode, directoryMode) =>
    if o.mkdir = false then ⟨conn, m, [], some .mkdir⟩
    else if o.available = false then ⟨conn, m, [], some .unavailable⟩
    else
      let r := m.establishSession o.session ⟨syncSessionName hash conn.name intent,
        intent.fromLocal, intent.toRemote, o.ignores, fileMode, directoryMode⟩
      match r.2 with
      | .error err => ⟨conn, r.1, [], some (.session err)⟩
      | .ok id => recordEstablished hash conn r.1 o intent id

/-- One call, with the outcomes of the calls that it makes. -/
def establishSynchronization (conn : Connection) (m : Manager) (o : Outcomes)
    (intent : SynchronizationIntent) : Established :=
  match plan conn intent with
  | .error err => ⟨conn, m, [], some err⟩
  | .ok .noop => ⟨conn, m, [], none⟩
  | .ok (.resolve intent) =>
    match o.echo intent.toRemote with
    | none => ⟨conn, m, [], some .resolve⟩
    | some out =>
      match action conn intent (trimSpace out) with
      | .error err => ⟨conn, m, [], some err⟩
      | .ok .noop => ⟨conn, m, [], none⟩
      | .ok (.flip intent existing) => applyGitReplicaFlip hash conn m o intent existing
      | .ok (.establish intent) => establish hash conn m o intent

/-! ### Names -/

variable {hash} {conn : Connection} {m : Manager} {o : Outcomes} {intent : SynchronizationIntent}

theorem ActiveSync.grows_pause (m : Manager) (entry : ActiveSync) : m.Grows (entry.pause m) :=
  (Manager.Grows.setPaused m _ _).trans (.pauses _ _)

theorem recordSync_grows (closed : Bool) (fromLocal : String) (entry : ActiveSync)
    (sessions : List ℕ) : m.Grows (recordSync conn m closed fromLocal entry sessions).manager := by
  unfold recordSync
  split_ifs
  · exact entry.grows_pause m
  · exact .refl m

theorem recordSync_sessions (closed : Bool) (fromLocal : String) (entry : ActiveSync)
    (sessions : List ℕ) :
    (recordSync conn m closed fromLocal entry sessions).sessions = sessions := by
  unfold recordSync
  split_ifs <;> rfl

/-- The replica does nothing to the manager, or establishes a session under its name. -/
theorem establishGitReplica_cases (connName : String) :
    ((establishGitReplica hash connName m o intent).1 = m ∧
        ∀ id, (establishGitReplica hash connName m o intent).2 ≠ .ok (some id)) ∨
      ∃ spec : SessionSpec, spec.name = syncSessionName hash connName (gitReplicaIntent intent) ∧
        spec.alpha = (gitReplicaIntent intent).fromLocal ∧
        establishGitReplica hash connName m o intent =
          ((m.establishSession o.gitSession spec).1,
            ((m.establishSession o.gitSession spec).2.map some).mapError .session) := by
  unfold establishGitReplica
  cases gitReplicaBetaConfiguration intent with
  | error err =>
    dsimp only
    split_ifs
    · exact .inl ⟨rfl, nofun⟩
    · exact .inl ⟨rfl, nofun⟩
  | ok modes =>
    dsimp only
    split_ifs
    · exact .inl ⟨rfl, nofun⟩
    · exact .inl ⟨rfl, nofun⟩
    · exact .inr ⟨_, rfl, rfl, rfl⟩

theorem establishGitReplica_grows (connName : String) :
    m.Grows (establishGitReplica hash connName m o intent).1 := by
  grind [establishGitReplica_cases, Manager.Grows.refl, Manager.Grows.establishSession]

theorem establishGitReplica_named {connName : String} {id : ℕ}
    (h : (establishGitReplica hash connName m o intent).2 = .ok (some id)) :
    isAbs (gitReplicaIntent intent).fromLocal = true ∧
      (establishGitReplica hash connName m o intent).1.Knows id
        (syncSessionName hash connName (gitReplicaIntent intent)) := by
  rcases establishGitReplica_cases connName with ⟨-, hnot⟩ | ⟨spec, hname, halpha, heq⟩
  · exact absurd h (hnot id)
  · rw [heq] at h ⊢
    have hok : (m.establishSession o.gitSession spec).2 = .ok id := by
      cases hres : (m.establishSession o.gitSession spec).2 with
      | error err =>
        rw [hres] at h
        cases h
      | ok id' =>
        rw [hres] at h
        cases h
        rfl
    obtain ⟨habs, hhas⟩ := Manager.establishSession_spec hok
    rw [halpha] at habs
    rw [hname] at hhas
    exact ⟨habs, hhas.knows⟩

theorem isAbs_of_gitReplica (hne : intent.fromLocal ≠ "")
    (h : isAbs (gitReplicaIntent intent).fromLocal = true) : isAbs intent.fromLocal = true := by
  simp_all [Path.isAbs_join, gitReplicaIntent, isAbs]

def Established.For (hash : List Char → String) (r : Established) (connName : String)
    (intent : SynchronizationIntent) (id : ℕ) : Prop :=
  isAbs intent.fromLocal = true ∧ ∃ name ∈ sessionNames hash connName intent, r.manager.Knows id name

theorem mem_sessionNames_self (connName : String) (intent : SynchronizationIntent) :
    syncSessionName hash connName intent ∈ sessionNames hash connName intent :=
  List.mem_cons_self ..

theorem mem_sessionNames_git (connName : String) (h : intent.syncGit = true) :
    syncSessionName hash connName (gitReplicaIntent intent) ∈ sessionNames hash connName intent := by
  simp_all [sessionNames]

theorem applyGitReplicaFlip_for (hne : intent.fromLocal ≠ "") {existing : ActiveSync} {id : ℕ}
    (h : id ∈ (applyGitReplicaFlip hash conn m o intent existing).sessions) :
    (applyGitReplicaFlip hash conn m o intent existing).For hash conn.name intent id := by
  unfold applyGitReplicaFlip at h ⊢
  by_cases hgit : intent.syncGit = true
  · rw [if_pos hgit] at h ⊢
    by_cases havailable : o.available = false
    · simp_all
    rw [if_neg havailable] at h ⊢
    cases hres : (establishGitReplica hash conn.name m o intent).2 with
    | error err =>
      simp_all
    | ok git =>
      simp only [hres, recordSync_sessions, Option.mem_toList] at h ⊢
      rw [h] at hres
      obtain ⟨habs, hknows⟩ := establishGitReplica_named hres
      exact ⟨isAbs_of_gitReplica hne habs, _, mem_sessionNames_git _ hgit,
        (recordSync_grows ..).knows hknows⟩
  grind [recordSync_sessions]

theorem pauseReplica_grows (conn : Connection) (m : Manager) (intent : SynchronizationIntent) :
    m.Grows (pauseReplica conn m intent) := by
  grind [Manager.Grows.refl, Manager.Grows.pauses, pauseReplica]

theorem recordEstablished_for {id₀ id : ℕ} (habs : isAbs intent.fromLocal = true)
    (hknows : m.Knows id₀ (syncSessionName hash conn.name intent))
    (h : id ∈ (recordEstablished hash conn m o intent id₀).sessions) :
    (recordEstablished hash conn m o intent id₀).For hash conn.name intent id := by
  unfold recordEstablished at h ⊢
  set recorded := recordSync conn (pauseReplica conn m intent) o.closed intent.fromLocal
    (.ofIntent intent id₀) [id₀]
  have hsessions : recorded.sessions = [id₀] := recordSync_sessions ..
  have hkeeps : recorded.manager.Knows id₀ (syncSessionName hash conn.name intent) :=
    (recordSync_grows ..).knows ((pauseReplica_grows ..).knows hknows)
  refine ⟨habs, ?_⟩
  by_cases hdone : (recorded.error.isSome || !intent.syncGit) = true
  · simp only [if_pos hdone, hsessions, List.mem_singleton] at h ⊢
    rw [h]
    exact ⟨_, mem_sessionNames_self .., hkeeps⟩
  · have hgit : intent.syncGit = true := by
      simp_all
    have hkeeps' : (establishGitReplica hash conn.name recorded.manager o intent).1.Knows id₀
        (syncSessionName hash conn.name intent) := (establishGitReplica_grows _).knows hkeeps
    cases hres : (establishGitReplica hash conn.name recorded.manager o intent).2 with
    | error err =>
      simp only [if_neg hdone, hres, List.mem_singleton] at h ⊢
      rw [h]
      exact ⟨_, mem_sessionNames_self .., hkeeps'⟩
    | ok git =>
      simp only [if_neg hdone, hres, recordSync_sessions, List.mem_cons, Option.mem_toList] at h ⊢
      rcases h with rfl | hid
      · exact ⟨_, mem_sessionNames_self .., (recordSync_grows ..).knows hkeeps'⟩
      · rw [hid] at hres
        exact ⟨_, mem_sessionNames_git _ hgit,
          (recordSync_grows ..).knows (establishGitReplica_named hres).2⟩

/-- An establishment fails before anything is recorded, or records the session it has. -/
theorem establish_cases (hash : List Char → String) (conn : Connection) (m : Manager) (o : Outcomes)
    (intent : SynchronizationIntent) :
    (∃ m' err, establish hash conn m o intent = ⟨conn, m', [], some err⟩) ∨
      ∃ m' id, isAbs intent.fromLocal = true ∧
        m'.Knows id (syncSessionName hash conn.name intent) ∧
        establish hash conn m o intent = recordEstablished hash conn m' o intent id := by
  unfold establish
  cases syncBetaConfiguration intent with
  | error err => exact .inl ⟨m, .modes err, rfl⟩
  | ok modes =>
    obtain ⟨fileMode, directoryMode⟩ := modes
    dsimp only
    split_ifs
    · exact .inl ⟨m, .mkdir, rfl⟩
    · exact .inl ⟨m, .unavailable, rfl⟩
    set spec : SessionSpec := ⟨syncSessionName hash conn.name intent, intent.fromLocal,
      intent.toRemote, o.ignores, fileMode, directoryMode⟩
    cases hres : (m.establishSession o.session spec).2 with
    | error err => exact .inl ⟨_, .session err, rfl⟩
    | ok id =>
      obtain ⟨habs, hhas⟩ := Manager.establishSession_spec hres
      exact .inr ⟨_, id, habs, hhas.knows, rfl⟩

theorem establish_for {id : ℕ} (h : id ∈ (establish hash conn m o intent).sessions) :
    (establish hash conn m o intent).For hash conn.name intent id := by
  rcases establish_cases hash conn m o intent with ⟨m', err, heq⟩ | ⟨m', id₀, habs, hknows, heq⟩
  · rw [heq] at h
    cases h
  grind [recordEstablished_for]

/-- The intent with its source made canonical, and perhaps modes and includes of the active one. -/
theorem plan_eq_resolve {intent' : SynchronizationIntent}
    (h : plan conn intent = .ok (.resolve intent')) :
    canonicalizeSyncFromLocal conn.localRoot intent.fromLocal = .ok intent'.fromLocal ∧
      intent'.toRemote = intent.toRemote ∧ intent'.syncGit = intent.syncGit := by
  unfold plan at h
  cases hcanonical : canonicalizeSyncFromLocal conn.localRoot intent.fromLocal with
  | error err =>
    rw [hcanonical] at h
    cases h
  | ok fromLocal =>
    simp only [hcanonical] at h
    split at h
    · cases h
    · split at h
      · cases h
        exact ⟨rfl, rfl, rfl⟩
      · split_ifs at h
        · cases h
        · cases h
          exact ⟨rfl, rfl, rfl⟩

/-- An active synchronization keeps its destination, and only its replica can change without a new
session. -/
theorem action_cases {a : Action} {resolved : String} (h : action conn intent resolved = .ok a) :
    (∀ existing ∈ conn.synchronizations.lookup intent.fromLocal,
        existing.destination = resolved) ∧
      (a = .noop ∨
        (∃ existing ∈ conn.synchronizations.lookup intent.fromLocal,
          a = .flip { intent with toRemote := resolved } existing) ∨
        a = .establish { intent with toRemote := resolved }) := by
  unfold action at h
  cases hlookup : conn.synchronizations.lookup intent.fromLocal with
  | none =>
    simp only [hlookup] at h
    cases h
    exact ⟨nofun, .inr (.inr rfl)⟩
  | some existing =>
    simp only [hlookup] at h
    by_cases hdest : existing.destination = resolved
    · refine ⟨?_, ?_⟩
      · rintro _ ⟨⟩
        exact hdest
      · rw [if_neg (not_not.2 hdest)] at h
        split_ifs at h
        · cases h
          exact .inl rfl
        · cases h
          exact .inr (.inl ⟨existing, rfl, rfl⟩)
        · cases h
          exact .inr (.inr rfl)
    · rw [if_pos hdest] at h
      cases h

/-- `EstablishSynchronization` leaves everything as it is, or goes on with the intent whose source
is canonical and whose remote path is resolved. -/
theorem establishSynchronization_cases (hash : List Char → String) (conn : Connection) (m : Manager)
    (o : Outcomes) (intent : SynchronizationIntent) :
    (∃ err, establishSynchronization hash conn m o intent = ⟨conn, m, [], err⟩) ∨
      ∃ intent' out, canonicalizeSyncFromLocal conn.localRoot intent.fromLocal =
          .ok intent'.fromLocal ∧ intent'.syncGit = intent.syncGit ∧
        o.echo intent.toRemote = some out ∧ intent'.toRemote = trimSpace out ∧
        ((∃ existing ∈ conn.synchronizations.lookup intent'.fromLocal,
            establishSynchronization hash conn m o intent =
              applyGitReplicaFlip hash conn m o intent' existing) ∨
          establishSynchronization hash conn m o intent = establish hash conn m o intent') := by
  unfold establishSynchronization
  cases hplan : plan conn intent with
  | error err => exact .inl ⟨some err, rfl⟩
  | ok p =>
    cases p with
    | noop => exact .inl ⟨none, rfl⟩
    | resolve intent₁ =>
      obtain ⟨hcanonical, hto, hgit⟩ := plan_eq_resolve hplan
      dsimp only
      rw [hto]
      cases o.echo intent.toRemote with
      | none => exact .inl ⟨some .resolve, rfl⟩
      | some out =>
        dsimp only
        cases haction : action conn intent₁ (trimSpace out) with
        | error err => exact .inl ⟨some err, rfl⟩
        | ok a =>
          rcases (action_cases haction).2 with rfl | ⟨existing, hlookup, rfl⟩ | rfl
          · exact .inl ⟨none, rfl⟩
          · exact .inr ⟨{ intent₁ with toRemote := trimSpace out }, out, hcanonical, hgit, rfl, rfl,
              .inl ⟨existing, hlookup, rfl⟩⟩
          · exact .inr ⟨{ intent₁ with toRemote := trimSpace out }, out, hcanonical, hgit, rfl, rfl,
              .inr rfl⟩

/-- The sessions are those of the intent with its source made canonical and its remote path
resolved. -/
theorem establishSynchronization_for {id : ℕ}
    (h : id ∈ (establishSynchronization hash conn m o intent).sessions) :
    ∃ intent' out, canonicalizeSyncFromLocal conn.localRoot intent.fromLocal =
        .ok intent'.fromLocal ∧ intent'.syncGit = intent.syncGit ∧
      o.echo intent.toRemote = some out ∧ intent'.toRemote = trimSpace out ∧
      (establishSynchronization hash conn m o intent).For hash conn.name intent' id := by
  rcases establishSynchronization_cases hash conn m o intent with
    ⟨err, heq⟩ | ⟨intent', out, hcanonical, hgit, hecho, hto, hcase⟩
  · rw [heq] at h
    cases h
  · refine ⟨intent', out, hcanonical, hgit, hecho, hto, ?_⟩
    rcases hcase with ⟨existing, -, heq⟩ | heq
    · rw [heq] at h ⊢
      exact applyGitReplicaFlip_for (canonicalize_eq_ok hcanonical).1 h
    · rw [heq] at h ⊢
      exact establish_for h

end Establish

/-! ### What the reaper expects -/

/-- The remote shell gives back the path, perhaps in another spelling of the same. -/
def Spells (o : Outcomes) (toRemote : String) : Prop :=
  ∀ out, o.echo toRemote = some out →
    Path.clean (trimSpace out).toList = Path.clean toRemote.toList ∧
      (trimSpace out = "" ↔ toRemote = "")

/-- A canonical source is canonical for the reaper as well, if it is absolute. -/
theorem canonicalFromLocal_of_canonicalize {localRoot fromLocal path : String}
    (h : canonicalizeSyncFromLocal localRoot (canonicalFromLocal localRoot fromLocal) = .ok path)
    (habs : isAbs path = true) : canonicalFromLocal localRoot fromLocal = path := by
  unfold canonicalFromLocal at h ⊢
  cases hfirst : canonicalizeSyncFromLocal localRoot fromLocal with
  | error err =>
    simp_all
  | ok first =>
    simp only [hfirst] at h ⊢
    have hfirstAbs : isAbs first = true := by
      rw [isAbs_canonicalize h, isAbs_canonicalize hfirst] at habs
      rw [isAbs_canonicalize hfirst]
      simpa using habs
    rw [canonicalize_self hfirst hfirstAbs] at h
    exact Except.ok.inj h

/-- An entry whose remote path the shell does not change is in the configuration for the places of
its sessions; the connection has the local root of the configuration, if the source is relative. -/
theorem listed_of_spells {pending : List ConnectionConfig} {conf : ConnectionConfig}
    (hconf : conf ∈ pending) {s : SynchronizationIntent} (hs : s ∈ conf.synchronizations)
    {localRoot out : String} (hroot : localRoot = conf.localRoot ∨ isAbs s.fromLocal = true)
    {o : Outcomes} (hspells : Spells o s.toRemote) (hecho : o.echo s.toRemote = some out)
    {i : SynchronizationIntent} (hi : i ∈ sides
      { s with fromLocal := canonicalFromLocal localRoot s.fromLocal, toRemote := trimSpace out }) :
    Listed pending conf.name i := by
  obtain ⟨hclean, hempty⟩ := hspells out hecho
  have hfrom : canonicalFromLocal localRoot s.fromLocal = canonicalFromLocal conf.localRoot s.fromLocal :=
    hroot.elim (fun h => by rw [h]) fun h => canonicalFromLocal_of_isAbs h _ _
  refine ⟨conf, hconf, rfl, _, List.mem_map.2 ⟨s, hs, rfl⟩, ?_⟩
  rw [← hfrom]
  rcases List.mem_cons.1 hi with rfl | hgit
  · exact ⟨_, List.mem_cons_self .., rfl, hclean⟩
  · split_ifs at hgit with hsync
    · obtain rfl := List.mem_singleton.1 hgit
      refine ⟨gitReplicaIntent { s with fromLocal := canonicalFromLocal localRoot s.fromLocal },
        List.mem_cons_of_mem _ (by rw [if_pos hsync]; exact List.mem_singleton_self _), rfl, ?_⟩
      rw [toList_gitRemote, toList_gitRemote]
      by_cases hnil : trimSpace out = ""
      · rw [hnil, hempty.1 hnil]
      · exact Path.clean_append (by simpa using hnil) (by simpa using mt hempty.2 hnil) hclean
    · cases hgit

/-- Connection `a` with local root `/p` and the given synchronizations. -/
def confA (synchronizations : List SynchronizationIntent) : ConnectionConfig where
  name := "a"
  destination := "ssh://alpha"
  localRoot := "/p"
  remoteRoot := ""
  forward := []
  prefixForward := []
  synchronizations := synchronizations
  background := false
  ports := []
  forwardAgent := false
  envForward := []

/-- `a` before anything was established. -/
def connA : Connection := ⟨"a", "/p", ∅, false⟩

def succeeds (echo : String → String) : Outcomes :=
  ⟨fun path => some (echo path ++ "\n"), [], true, true, ⟨true, true, true, true⟩, false, true, true,
    ⟨true, true, true, true⟩, false⟩

def syncRoot : SynchronizationIntent := ⟨".", "/srv//p", true, [], "", ""⟩

def syncHome : SynchronizationIntent := ⟨"/p", "~/x", false, [], "", ""⟩

end Graft.Sync
