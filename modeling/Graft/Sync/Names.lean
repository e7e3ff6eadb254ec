import Graft.Library.Separator
import Graft.Library.Path
import Graft.Config.Validate

/-!
# Names of sync sessions (`pkg/synchronization.go`, `pkg/server.go`)

A synchronization is a session of mutagen's, found again by its name.  The name is a hash of the
connection and the two paths.  The orphan reaper computes the names of the sessions that the
configuration implies, and terminates the sessions of graft's that have another.

`hash` is the first ten bytes of SHA-256, in hexadecimal.
-/

namespace Graft.Sync

open Graft.Config (SynchronizationIntent ConnectionConfig)

/-! ### Sources -/

/-- What is wrong with the source of a synchronization. -/
inductive SourceError
  | required
  | noLocalRoot (fromLocal : String)
  | filesystemRoot (fromLocal : String)
  deriving DecidableEq

/-- `filepath.IsAbs`. -/
def isAbs (path : String) : Bool := Path.isAbs path.toList

/-- The absolute form of a source; relative ones are below the local root of the connection. -/
def canonicalizeSyncFromLocal (localRoot fromLocal : String) : Except SourceError String :=
  if fromLocal = "" then .error .required
  else if isAbs fromLocal = false ∧ localRoot = "" then .error (.noLocalRoot fromLocal)
  else
    let resolved := Path.clean
      (if isAbs fromLocal then fromLocal.toList else Path.join localRoot.toList fromLocal.toList)
    if resolved = Path.dir resolved then .error (.filesystemRoot fromLocal)
    else .ok (String.ofList resolved)

/-- The source in its canonical form, if it has one. -/
def canonicalFromLocal (localRoot fromLocal : String) : String :=
  match canonicalizeSyncFromLocal localRoot fromLocal with
  | .ok canonical => canonical
  | .error _ => fromLocal

def canonicalizeSyncIntentConfigs (localRoot : String) (confs : List SynchronizationIntent) :
    List SynchronizationIntent :=
  confs.map fun conf => { conf with fromLocal := canonicalFromLocal localRoot conf.fromLocal }

/-- The local root is for relative sources only. -/
theorem canonicalFromLocal_of_isAbs {fromLocal : String} (h : isAbs fromLocal = true)
    (localRoot localRoot' : String) :
    canonicalFromLocal localRoot fromLocal = canonicalFromLocal localRoot' fromLocal := by
  simp [canonicalFromLocal, canonicalizeSyncFromLocal, h]

theorem canonicalize_eq_ok {localRoot fromLocal path : String}
    (h : canonicalizeSyncFromLocal localRoot fromLocal = .ok path) :
    path ≠ "" ∧ Path.clean path.toList = path.toList ∧ path.toList ≠ Path.dir path.toList := by
  unfold canonicalizeSyncFromLocal at h
  dsimp only at h
  split_ifs at h with h1 h2 h3 h4 h4
  all_goals
    obtain rfl := Except.ok.inj h
    rw [String.toList_ofList, Path.clean_clean]
    refine ⟨fun hx => ?_, rfl, h4⟩
    have hnil := congrArg String.toList hx
    rw [String.toList_ofList] at hnil
    exact Path.clean_ne_nil _ hnil

theorem isAbs_canonicalize {localRoot fromLocal path : String}
    (h : canonicalizeSyncFromLocal localRoot fromLocal = .ok path) :
    isAbs path = (isAbs fromLocal || isAbs localRoot) := by
  unfold canonicalizeSyncFromLocal at h
  dsimp only at h
  split_ifs at h with h1 h2 h3 h4 h4
  · obtain rfl := Except.ok.inj h
    rw [h3, Bool.true_or, isAbs, String.toList_ofList, Path.isAbs_clean]
    exact h3
  · obtain rfl := Except.ok.inj h
    have hroot : localRoot.toList ≠ [] := fun hx => h2 ⟨by simpa using h3, by simpa using hx⟩
    rw [(by simpa using h3 : isAbs fromLocal = false), Bool.false_or, isAbs, String.toList_ofList,
      Path.isAbs_clean, Path.isAbs_join hroot, isAbs]

/-- **A source that is canonical and absolute stays as it is**, whatever the local root. -/
theorem canonicalize_self {localRoot fromLocal path : String}
    (h : canonicalizeSyncFromLocal localRoot fromLocal = .ok path) (habs : isAbs path = true)
    (localRoot' : String) : canonicalizeSyncFromLocal localRoot' path = .ok path := by
  obtain ⟨hne, hclean, hdir⟩ := canonicalize_eq_ok h
  simp only [canonicalizeSyncFromLocal, if_neg hne, habs, Bool.true_eq_false, false_and, if_false,
    if_true, hclean, if_neg hdir, String.ofList_toList]

/-! ### Names -/

def graftSyncNamePrefix : String := "graft-"

def gitDirName : String := ".git"

/-- The synchronization of the `.git` directory of a source. -/
def gitReplicaIntent (intent : SynchronizationIntent) : SynchronizationIntent where
  fromLocal := String.ofList (Path.join intent.fromLocal.toList gitDirName.toList)
  toRemote := intent.toRemote ++ "/" ++ gitDirName
  syncGit := false
  syncInclude := []
  defaultFileMode := ""
  defaultDirectoryMode := ""

def isGraftSyncName (name : String) : Bool :=
  graftSyncNamePrefix.toList.isPrefixOf name.toList

section Hash

variable (hash : List Char → String)

/-- The name tells the connection and, hashed, both sides. -/
def syncSessionName (connName : String) (intent : SynchronizationIntent) : String :=
  graftSyncNamePrefix ++ hash (connName.toList ++
    '\x00' :: Path.clean intent.fromLocal.toList ++ '\x00' :: Path.clean intent.toRemote.toList)

theorem isGraftSyncName_syncSessionName (connName : String) (intent : SynchronizationIntent) :
    isGraftSyncName (syncSessionName hash connName intent) = true := by
  rw [isGraftSyncName, syncSessionName, String.toList_append, List.isPrefixOf_iff_prefix]
  exact List.prefix_append _ _

/-- The names of the sessions of a synchronization: its own, and that of the replica. -/
def sessionNames (connName : String) (intent : SynchronizationIntent) : List String :=
  syncSessionName hash connName intent ::
    if intent.syncGit then [syncSessionName hash connName (gitReplicaIntent intent)] else []

/-- The names that the configuration expects, those of the replicas of `.git` included. -/
def expectedSyncSessionNames (pending : List ConnectionConfig) : List String :=
  pending.flatMap fun conf =>
    (canonicalizeSyncIntentConfigs conf.localRoot conf.synchronizations).flatMap
      (sessionNames hash conf.name)

/-! ### Spellings -/

variable {hash} {connName : String} {intent intent' : SynchronizationIntent}

theorem mem_expected {pending : List ConnectionConfig} {conf : ConnectionConfig}
    {s : SynchronizationIntent} {name : String} (hconf : conf ∈ pending)
    (hs : s ∈ conf.synchronizations) (hname : name ∈ sessionNames hash conf.name
      { s with fromLocal := canonicalFromLocal conf.localRoot s.fromLocal }) :
    name ∈ expectedSyncSessionNames hash pending :=
  List.mem_flatMap.2 ⟨conf, hconf, List.mem_flatMap.2 ⟨_, List.mem_map.2 ⟨s, hs, rfl⟩, hname⟩⟩

theorem syncSessionName_congr
    (hfrom : Path.clean intent.fromLocal.toList = Path.clean intent'.fromLocal.toList)
    (hto : Path.clean intent.toRemote.toList = Path.clean intent'.toRemote.toList) :
    syncSessionName hash connName intent = syncSessionName hash connName intent' := by
  rw [syncSessionName, syncSessionName, hfrom, hto]

theorem toList_gitRemote (intent : SynchronizationIntent) :
    (gitReplicaIntent intent).toRemote.toList = intent.toRemote.toList ++ '/' :: gitDirName.toList := by
  simp [gitReplicaIntent, String.toList_append]

theorem sessionNames_congr (hfrom : intent.fromLocal = intent'.fromLocal)
    (hgit : intent.syncGit = intent'.syncGit)
    (hto : Path.clean intent.toRemote.toList = Path.clean intent'.toRemote.toList)
    (hempty : intent.toRemote = "" ↔ intent'.toRemote = "") :
    sessionNames hash connName intent = sessionNames hash connName intent' := by
  have hreplica : Path.clean (gitReplicaIntent intent).toRemote.toList =
      Path.clean (gitReplicaIntent intent').toRemote.toList := by
    rw [toList_gitRemote, toList_gitRemote]
    by_cases h : intent.toRemote = ""
    · rw [h, hempty.1 h]
    · exact Path.clean_append (by simpa using h) (by simpa using mt hempty.2 h) hto
  have hsource : (gitReplicaIntent intent).fromLocal = (gitReplicaIntent intent').fromLocal := by
    rw [gitReplicaIntent, gitReplicaIntent, hfrom]
  rw [sessionNames, sessionNames, hgit, syncSessionName_congr (by rw [hfrom]) hto,
    syncSessionName_congr (by rw [hsource]) hreplica]

/-- The synchronization itself, and that of its `.git` directory if it is asked for. -/
def sides (intent : SynchronizationIntent) : List SynchronizationIntent :=
  intent :: if intent.syncGit then [gitReplicaIntent intent] else []

theorem sessionNames_eq_map :
    sessionNames hash connName intent = (sides intent).map (syncSessionName hash connName) := by
  unfold sessionNames sides
  split_ifs <;> rfl

/-- The same directories on both sides, whatever their spelling. -/
def SamePlaces (i j : SynchronizationIntent) : Prop :=
  Path.clean i.fromLocal.toList = Path.clean j.fromLocal.toList ∧
    Path.clean i.toRemote.toList = Path.clean j.toRemote.toList

/-- An entry of the configuration of the connection, or the replica of one, is for these places. -/
def Listed (pending : List ConnectionConfig) (connName : String) (i : SynchronizationIntent) : Prop :=
  ∃ conf ∈ pending, conf.name = connName ∧
    ∃ s ∈ canonicalizeSyncIntentConfigs conf.localRoot conf.synchronizations,
      ∃ j ∈ sides s, SamePlaces i j

instance (pending : List ConnectionConfig) (connName : String) (i : SynchronizationIntent) :
    Decidable (Listed pending connName i) := by
  unfold Listed SamePlaces
  infer_instance

/-- The name and the source have no NUL, which separates them in what is hashed. -/
def NulFree (connName : String) (s : SynchronizationIntent) : Prop :=
  '\x00' ∉ connName.toList ∧ '\x00' ∉ s.fromLocal.toList

instance (connName : String) (s : SynchronizationIntent) : Decidable (NulFree connName s) :=
  inferInstanceAs (Decidable (_ ∧ _))

theorem NulFree.clean_side (h : NulFree connName intent) {i : SynchronizationIntent}
    (hi : i ∈ sides intent) : '\x00' ∉ Path.clean i.fromLocal.toList := by
  intro hmem
  have hchar := (Path.mem_clean hmem).resolve_right (by decide)
  rcases List.mem_cons.1 hi with rfl | hgit
  · exact h.2 hchar
  · split_ifs at hgit
    · rw [List.mem_singleton.1 hgit, gitReplicaIntent, String.toList_ofList, Path.join] at hchar
      split_ifs at hchar
      · have := (Path.mem_clean hchar).resolve_right (by decide)
        simp only [List.mem_append, List.mem_cons] at this
        rcases this with hfrom | hslash | hname
        · exact h.2 hfrom
        · exact absurd hslash (by decide)
        · exact absurd hname (by decide)
      · exact absurd hchar (by decide)
      · cases hchar
    · cases hgit

/-- With a hash function without collisions, the names tell connections and places apart. -/
theorem syncSessionName_inj (hhash : Function.Injective hash) {connName' : String}
    {i j : SynchronizationIntent} (hname : '\x00' ∉ connName.toList) (hname' : '\x00' ∉ connName'.toList)
    (hi : '\x00' ∉ Path.clean i.fromLocal.toList) (hj : '\x00' ∉ Path.clean j.fromLocal.toList) :
    syncSessionName hash connName i = syncSessionName hash connName' j ↔
      connName = connName' ∧ SamePlaces i j := by
  constructor
  · intro h
    have hlist : connName.toList ++ '\x00' :: (Path.clean i.fromLocal.toList ++
        '\x00' :: Path.clean i.toRemote.toList) = connName'.toList ++
          '\x00' :: (Path.clean j.fromLocal.toList ++ '\x00' :: Path.clean j.toRemote.toList) :=
      hhash (by simpa [syncSessionName] using h)
    obtain ⟨hconn, hrest⟩ := (Separator.append_cons_inj_of_first hname hname').1 hlist
    exact ⟨String.toList_inj.1 hconn, (Separator.append_cons_inj_of_first hi hj).1 hrest⟩
  · rintro ⟨rfl, hfrom, hto⟩
    exact syncSessionName_congr hfrom hto

/-- **A name is expected exactly if its places are in the configuration.** -/
theorem mem_expected_iff (hhash : Function.Injective hash) {pending : List ConnectionConfig}
    (hpending : ∀ conf ∈ pending,
      ∀ s ∈ canonicalizeSyncIntentConfigs conf.localRoot conf.synchronizations, NulFree conf.name s)
    (hintent : NulFree connName intent) {i : SynchronizationIntent} (hi : i ∈ sides intent) :
    syncSessionName hash connName i ∈ expectedSyncSessionNames hash pending ↔
      Listed pending connName i := by
  simp only [expectedSyncSessionNames, List.mem_flatMap, sessionNames_eq_map, List.mem_map, Listed]
  refine exists_congr fun conf => and_congr_right fun hconf => ?_
  rw [← exists_and_left]
  refine exists_congr fun s => ?_
  rw [and_left_comm]
  refine and_congr_right fun hs => ?_
  rw [← exists_and_left]
  refine exists_congr fun j => ?_
  rw [and_left_comm]
  refine and_congr_right fun hj => ?_
  have hconfNul := hpending conf hconf s hs
  rw [eq_comm, syncSessionName_inj hhash hintent.1 hconfNul.1 (hintent.clean_side hi)
    (hconfNul.clean_side hj), eq_comm]

end Hash

end Graft.Sync
