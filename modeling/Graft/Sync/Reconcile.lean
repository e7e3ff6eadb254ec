import Graft.Sync.Disjoint

/-!
# Reconciling synchronizations (`pkg/server.go`)

The reconcile loop establishes the synchronizations of a configuration that are not active.
-/

namespace Graft.Sync

open Graft.Config (SynchronizationIntent ConnectionConfig updateConnection)

/-! ### What is established -/

def ActiveSync.options (e : ActiveSync) : String × String × List String :=
  (e.defaultFileMode, e.defaultDirectoryMode, e.syncInclude)

def options (i : SynchronizationIntent) : String × String × List String :=
  (i.defaultFileMode, i.defaultDirectoryMode, i.syncInclude)

variable {hash : List Char → String} {conn : Connection} {m : Manager} {o : Outcomes}
  {intent : SynchronizationIntent}

theorem satisfies_iff {e : ActiveSync} : e.satisfies intent = true ↔
    (intent.defaultFileMode = "" ∨ intent.defaultFileMode = e.defaultFileMode) ∧
      (intent.defaultDirectoryMode = "" ∨ intent.defaultDirectoryMode = e.defaultDirectoryMode) ∧
      (intent.syncInclude = [] ∨ e.syncInclude.Perm intent.syncInclude) := by
  simp [ActiveSync.satisfies, syncModesCompatible, syncIncludesCompatible, and_assoc,
    List.isPerm_iff]

theorem satisfies_of_inherit {e : ActiveSync} (existing : ActiveSync)
    (h : e.satisfies (existing.inheritInto intent) = true) : e.satisfies intent = true := by
  simp only [satisfies_iff, ActiveSync.inheritInto] at h ⊢
  grind

theorem satisfies_of_options {e : ActiveSync} (h : e.options = options intent) :
    e.satisfies intent = true := by
  simp only [ActiveSync.options, options, Prod.mk.injEq] at h
  simp [satisfies_iff, h]

/-- The entry that a source has when it was established. -/
structure Entry (conn : Connection) (o : Outcomes) (intent : SynchronizationIntent) (k : String)
    (e : ActiveSync) : Prop where
  syncGit : e.syncGit = intent.syncGit
  satisfies : e.satisfies intent = true
  destination : conn.synchronizations.lookup k = some e ∧ e.destination = intent.toRemote ∨
    ∃ out, o.echo intent.toRemote = some out ∧ e.destination = trimSpace out
  fresh : conn.synchronizations.lookup k = none → e.options = options intent
  kept : ∀ existing ∈ conn.synchronizations.lookup k,
    existing.satisfies (existing.inheritInto intent) = true → e.options = existing.options

theorem Entry.of_lookup {conn' : Connection} {k : String} {e : ActiveSync}
    (h : Entry conn' o intent k e)
    (hlookup : conn'.synchronizations.lookup k = conn.synchronizations.lookup k) :
    Entry conn o intent k e :=
  ⟨h.syncGit, h.satisfies, hlookup ▸ h.destination, hlookup ▸ h.fresh, hlookup ▸ h.kept⟩

/-- The source has an entry when it was established. -/
def Settles (conn : Connection) (o : Outcomes) (intent : SynchronizationIntent) (k : String)
    (conn' : Connection) : Prop :=
  ∃ e, Entry conn o intent k e ∧
    (conn' = conn ∧ conn.synchronizations.lookup k = some e ∨ conn' = conn.setSync k e)

theorem settled {k : String} {e : ActiveSync} {conn' : Connection}
    (h : conn' = conn ∧ conn.synchronizations.lookup k = some e ∨ conn' = conn.setSync k e) :
    conn'.name = conn.name ∧ conn'.localRoot = conn.localRoot ∧
      conn'.synchronizations.lookup k = some e ∧
      ∀ k' ≠ k, conn'.synchronizations.lookup k' = conn.synchronizations.lookup k' := by
  grind [AList.lookup_insert, AList.lookup_insert_ne, Connection.setSync]

/-- A source that is not active is established, if its remote path is resolved. -/
theorem establishSynchronization_fresh {k : String}
    (hcanonical : canonicalizeSyncFromLocal conn.localRoot intent.fromLocal = .ok k)
    (hoverlap : checkSyncOverlap conn.synchronizations k = none)
    (hlookup : conn.synchronizations.lookup k = none)
    (h : (establishSynchronization hash conn m o intent).error = none) :
    ∃ out, o.echo intent.toRemote = some out ∧ establishSynchronization hash conn m o intent =
      establish hash conn m o { intent with fromLocal := k, toRemote := trimSpace out } := by
  simp only [establishSynchronization, plan, hcanonical, hoverlap, hlookup] at h ⊢
  cases hecho : o.echo intent.toRemote with
  | none => simp [hecho] at h
  | some out =>
    simp only [action, hlookup]
    exact ⟨out, rfl, rfl⟩

theorem establishSynchronization_active {k : String} {existing : ActiveSync}
    (hcanonical : canonicalizeSyncFromLocal conn.localRoot intent.fromLocal = .ok k)
    (hoverlap : checkSyncOverlap conn.synchronizations k = none)
    (hlookup : conn.synchronizations.lookup k = some existing) :
    (∃ err, establishSynchronization hash conn m o intent = ⟨conn, m, [], some err⟩) ∨
      (existing.satisfies (existing.inheritInto intent) = true ∧
        existing.syncGit = intent.syncGit ∧ (existing.destination = intent.toRemote ∨
          ∃ out, o.echo intent.toRemote = some out ∧ existing.destination = trimSpace out) ∧
        establishSynchronization hash conn m o intent = ⟨conn, m, [], none⟩) ∨
      ∃ out, o.echo intent.toRemote = some out ∧ existing.destination = trimSpace out ∧
        let i := existing.inheritInto { intent with fromLocal := k, toRemote := trimSpace out }
        (existing.satisfies (existing.inheritInto intent) = true ∧
            establishSynchronization hash conn m o intent =
              applyGitReplicaFlip hash conn m o i existing ∨
          existing.satisfies (existing.inheritInto intent) = false ∧
            establishSynchronization hash conn m o intent = establish hash conn m o i) := by
  -- the intent with what it inherits, whose source and remote path are the same
  obtain ⟨i, hi, hfrom, hto, hgit⟩ : ∃ i, existing.inheritInto { intent with fromLocal := k } = i ∧
      i.fromLocal = k ∧ i.toRemote = intent.toRemote ∧ i.syncGit = intent.syncGit :=
    ⟨_, rfl, rfl, rfl, rfl⟩
  have hsat : existing.satisfies (existing.inheritInto intent) = existing.satisfies i := by
    rw [← hi]
    rfl
  have hplan : plan conn intent = if existing.destination = i.toRemote ∧
      existing.syncGit = i.syncGit ∧ existing.satisfies i then .ok .noop else .ok (.resolve i) := by
    simp only [plan, hcanonical, hoverlap, hlookup, hi]
  rw [establishSynchronization, hplan, hsat]
  split_ifs with hfast
  · exact .inr (.inl ⟨hfast.2.2, hfast.2.1.trans hgit, .inl (hfast.1.trans hto), rfl⟩)
  dsimp only
  rw [hto]
  cases hecho : o.echo intent.toRemote with
  | none => exact .inl ⟨_, rfl⟩
  | some out =>
    have hresolved : { i with toRemote := trimSpace out } =
        existing.inheritInto { intent with fromLocal := k, toRemote := trimSpace out } := by
      rw [← hi]
      rfl
    have haction : action conn i (trimSpace out) =
        if existing.destination ≠ trimSpace out then
          .error (.destination i.fromLocal existing.destination (trimSpace out))
        else if existing.satisfies i then
          if existing.syncGit = i.syncGit then .ok .noop
          else .ok (.flip { i with toRemote := trimSpace out } existing)
        else .ok (.establish { i with toRemote := trimSpace out }) := by
      rw [← hfrom] at hlookup
      rw [action, hlookup]
      rfl
    simp only [haction, hresolved]
    split_ifs with hdest hkeeps hsame
    · exact .inl ⟨_, rfl⟩
    · exact .inr (.inl ⟨hkeeps, hsame.trans hgit, .inr ⟨out, rfl, not_not.1 hdest⟩, rfl⟩)
    · exact .inr (.inr ⟨out, rfl, not_not.1 hdest, .inl ⟨hkeeps, rfl⟩⟩)
    · exact .inr (.inr ⟨out, rfl, not_not.1 hdest, .inr ⟨by simpa using hkeeps, rfl⟩⟩)

theorem settles_active {k : String} {existing : ActiveSync}
    (hcanonical : canonicalizeSyncFromLocal conn.localRoot intent.fromLocal = .ok k)
    (hoverlap : checkSyncOverlap conn.synchronizations k = none)
    (hlookup : conn.synchronizations.lookup k = some existing)
    (h : (establishSynchronization hash conn m o intent).error = none) :
    Settles conn o intent k (establishSynchronization hash conn m o intent).conn := by
  have hkept {e : ActiveSync} (he : e.options = existing.options) :
      ∀ x ∈ conn.synchronizations.lookup k,
        x.satisfies (x.inheritInto intent) = true → e.options = x.options := by
    rintro x hx -
    cases hlookup.symm.trans hx
    exact he
  have hfresh {e : ActiveSync} (hnone : conn.synchronizations.lookup k = none) :
      e.options = options intent := by
    cases hlookup.symm.trans hnone
  rcases establishSynchronization_active hcanonical hoverlap hlookup with
    ⟨err, heq⟩ | ⟨hsat, hgit, hdest, heq⟩ | ⟨out, hecho, hdest, ⟨hsat, heq⟩ | ⟨hsat, heq⟩⟩
  · rw [heq] at h
    cases h
  · rw [heq]
    exact ⟨existing, ⟨hgit, satisfies_of_inherit _ hsat, hdest.imp_left fun hdest => ⟨hlookup, hdest⟩,
      hfresh, hkept rfl⟩, .inl ⟨rfl, hlookup⟩⟩
  · rw [heq] at h ⊢
    obtain ⟨git, hconn⟩ := applyGitReplicaFlip_ok h
    exact ⟨{ existing with gitSession := git, syncGit := intent.syncGit },
      ⟨rfl, satisfies_of_inherit existing hsat, .inr ⟨out, hecho, hdest⟩, hfresh,
        hkept rfl⟩, .inr hconn⟩
  · rw [heq] at h ⊢
    obtain ⟨-, id, git, hconn⟩ := establish_ok h
    refine ⟨_, ⟨rfl, satisfies_of_inherit existing (satisfies_of_options rfl),
      .inr ⟨out, hecho, rfl⟩, hfresh, fun x hx hx' => ?_⟩, .inr hconn⟩
    cases hlookup.symm.trans hx
    exact absurd hx' (by simp [hsat])

theorem establishSynchronization_settles
    (h : (establishSynchronization hash conn m o intent).error = none) :
    ∃ k, canonicalizeSyncFromLocal conn.localRoot intent.fromLocal = .ok k ∧
      (k ∈ conn.synchronizations ∨ isAbs k = true) ∧
      Settles conn o intent k (establishSynchronization hash conn m o intent).conn := by
  cases hcanonical : canonicalizeSyncFromLocal conn.localRoot intent.fromLocal with
  | error err => simp [establishSynchronization, plan, hcanonical] at h
  | ok k =>
    cases hoverlap : checkSyncOverlap conn.synchronizations k with
    | some existing => simp [establishSynchronization, plan, hcanonical, hoverlap] at h
    | none =>
      cases hlookup : conn.synchronizations.lookup k with
      | none =>
        obtain ⟨out, hecho, heq⟩ := establishSynchronization_fresh hcanonical hoverlap hlookup h
        rw [heq] at h ⊢
        obtain ⟨habs, id, git, hconn⟩ := establish_ok h
        exact ⟨k, rfl, .inr habs, _, ⟨rfl, satisfies_of_options rfl, .inr ⟨out, hecho, rfl⟩,
          fun _ => rfl, by simp [hlookup]⟩, .inr hconn⟩
      | some existing =>
        exact ⟨k, rfl, .inl (AList.lookup_isSome.1 (by simp [hlookup])),
          settles_active hcanonical hoverlap hlookup h⟩

/-! ### A pass -/

/-- The connection and the manager after a pass, and how each establishment ended. -/
structure Pass where
  conn : Connection
  manager : Manager
  errors : List (Option EstablishError)

def reconcileLoop (hash : List Char → String) (o : SynchronizationIntent → Outcomes) :
    List SynchronizationIntent → Connection → Manager → Pass
  | [], conn, m => ⟨conn, m, []⟩
  | intent :: missing, conn, m =>
    let r := establishSynchronization hash conn m (o intent) intent
    let rest := reconcileLoop hash o missing r.conn r.manager
    ⟨rest.conn, rest.manager, r.error :: rest.errors⟩

/-- The synchronizations of a configuration, with canonical sources. -/
def desired (conf : ConnectionConfig) : List SynchronizationIntent :=
  canonicalizeSyncIntentConfigs conf.localRoot conf.synchronizations

def reconcileSyncs (hash : List Char → String) (o : SynchronizationIntent → Outcomes)
    (conf : ConnectionConfig) (conn : Connection) (m : Manager) : Pass :=
  reconcileLoop hash o (computeMissingSyncs (desired conf) conn.intents) conn m

theorem represents_iff {s : SynchronizationIntent} {e : ActiveSync} (hgit : e.syncGit = s.syncGit)
    (hsat : e.satisfies s = true) :
    Represents s (e.intent s.fromLocal) ↔ e.destination = s.toRemote := by
  grind [Represents, ActiveSync.intent, ActiveSync.satisfies]

theorem mem_missing_iff {s : SynchronizationIntent} {conf : ConnectionConfig} :
    s ∈ computeMissingSyncs (desired conf) conn.intents ↔ s ∈ desired conf ∧
      ∀ e ∈ conn.synchronizations.lookup s.fromLocal, ¬ Represents s (e.intent s.fromLocal) := by
  rw [computeMissingSyncs, List.mem_filter, List.all_eq_true]
  refine and_congr_right fun _ => ⟨fun h e he => ?_, fun h a ha => ?_⟩
  · simpa using h (e.intent s.fromLocal) (mem_intents.2 ⟨e, he, rfl⟩)
  · obtain ⟨e, he, heq⟩ := mem_intents.1 ha
    simp only [Bool.not_eq_true', decide_eq_false_iff_not]
    intro hrep
    rw [hrep.1] at he heq
    exact h e he (heq ▸ hrep)

theorem reconcileLoop_settles {o : SynchronizationIntent → Outcomes} {root : String}
    {missing : List SynchronizationIntent} (habs : conn.Absolute) (hroot : conn.localRoot = root)
    (hsource : ∀ s ∈ missing, ∃ fromLocal, s.fromLocal = canonicalFromLocal root fromLocal)
    (hdistinct : (missing.map (·.fromLocal)).Nodup)
    (hok : ∀ err ∈ (reconcileLoop hash o missing conn m).errors, err = none) :
    (∀ k ∉ missing.map (·.fromLocal),
        (reconcileLoop hash o missing conn m).conn.synchronizations.lookup k =
          conn.synchronizations.lookup k) ∧
      ∀ s ∈ missing, ∃ e, Entry conn (o s) s s.fromLocal e ∧
        (reconcileLoop hash o missing conn m).conn.synchronizations.lookup s.fromLocal = some e := by
  induction missing generalizing conn m with
  | nil => exact ⟨fun _ _ => rfl, nofun⟩
  | cons s missing ih =>
    obtain ⟨herr, hok⟩ := List.forall_mem_cons.1 hok
    obtain ⟨hs, hdistinct⟩ := List.nodup_cons.1 hdistinct
    obtain ⟨k, hcanonical, hk, e, hentry, hconn⟩ := establishSynchronization_settles herr
    -- the source is canonical already
    have hsame : s.fromLocal = k := by
      obtain ⟨fromLocal, hfrom⟩ := hsource s (List.mem_cons_self ..)
      rw [hroot, hfrom] at hcanonical
      rw [hfrom]
      exact canonicalFromLocal_of_canonicalize hcanonical (hk.elim (habs k) id)
    subst hsame
    set conn₁ := (establishSynchronization hash conn m (o s) s).conn
    obtain ⟨-, hroot₁, hlookup⟩ := settled hconn
    obtain ⟨hothers, hentries⟩ := ih (establishSynchronization_absolute habs) (hroot₁.trans hroot)
      (fun s hs => hsource s (List.mem_cons_of_mem _ hs)) hdistinct hok
    constructor
    · intro k hk
      obtain ⟨hne, hk⟩ := not_or.1 (mt List.mem_cons.2 hk)
      exact (hothers k hk).trans (hlookup.2 k hne)
    · refine List.forall_mem_cons.2 ⟨⟨e, hentry, (hothers _ hs).trans hlookup.1⟩, fun s' hs' => ?_⟩
      obtain ⟨e', hentry', hlookup'⟩ := hentries s' hs'
      have hne : s'.fromLocal ≠ s.fromLocal := fun h => hs (List.mem_map.2 ⟨s', hs', h⟩)
      exact ⟨e', hentry'.of_lookup (hlookup.2 _ hne), hlookup'⟩

theorem exists_canonical {conf : ConnectionConfig} {s : SynchronizationIntent}
    (hs : s ∈ desired conf) :
    ∃ fromLocal, s.fromLocal = canonicalFromLocal conf.localRoot fromLocal := by
  obtain ⟨x, -, rfl⟩ := List.mem_map.1 hs
  grind

/-- **A pass converges if and only if the remote shell gives back the remote paths** of the
synchronizations that were missing: then nothing is missing, and another pass does nothing. -/
theorem reconcile_converges_iff (hash : List Char → String) (o : SynchronizationIntent → Outcomes)
    (conf : ConnectionConfig) (name localRoot : String) (conn : Connection)
    (hrun : (calls hash).Reachable ⟨name, localRoot, ∅, false⟩ conn)
    (hroot : conn.localRoot = conf.localRoot) (m : Manager)
    (hdistinct : ((desired conf).map (·.fromLocal)).Nodup)
    (hok : ∀ err ∈ (reconcileSyncs hash o conf conn m).errors, err = none) :
    let r := reconcileSyncs hash o conf conn m
    (computeMissingSyncs (desired conf) r.conn.intents = [] ∧
        ∀ o', reconcileSyncs hash o' conf r.conn r.manager = ⟨r.conn, r.manager, []⟩) ↔
      ∀ s ∈ computeMissingSyncs (desired conf) conn.intents,
        ∀ out, (o s).echo s.toRemote = some out → trimSpace out = s.toRemote := by
  intro r
  have habs : conn.Absolute := fun k hk => ((disjoint_of_reachable hrun).canonical k hk).1
  obtain ⟨hothers, hentries⟩ := reconcileLoop_settles habs hroot
    (fun s hs => exists_canonical (mem_missing_iff.1 hs).1)
    (hdistinct.sublist (List.filter_sublist.map _)) hok
  have hsecond : (computeMissingSyncs (desired conf) r.conn.intents = [] ∧
      ∀ o', reconcileSyncs hash o' conf r.conn r.manager = ⟨r.conn, r.manager, []⟩) ↔
        ∀ s ∈ desired conf, ∃ e ∈ r.conn.synchronizations.lookup s.fromLocal,
          Represents s (e.intent s.fromLocal) := by
    rw [and_iff_left_of_imp fun hnil o' => by rw [reconcileSyncs, hnil]; rfl,
      List.eq_nil_iff_forall_not_mem]
    simp [mem_missing_iff]
  rw [hsecond]
  constructor
  · intro h s hs out hecho
    obtain ⟨hdesired, hmissing⟩ := mem_missing_iff.1 hs
    obtain ⟨e, hentry, hlookup⟩ := hentries s hs
    obtain ⟨e', he', hrep⟩ := h s hdesired
    cases hlookup.symm.trans he'
    rcases hentry.destination with ⟨hbefore, -⟩ | ⟨out', hecho', hdest⟩
    · exact absurd hrep (hmissing e hbefore)
    · cases hecho.symm.trans hecho'
      exact hdest.symm.trans hrep.2.1
  · intro h s hdesired
    by_cases hs : s ∈ computeMissingSyncs (desired conf) conn.intents
    · obtain ⟨e, hentry, hlookup⟩ := hentries s hs
      refine ⟨e, hlookup, (represents_iff hentry.syncGit hentry.satisfies).2 ?_⟩
      rcases hentry.destination with ⟨-, hdest⟩ | ⟨out, hecho, hdest⟩
      · exact hdest
      · exact hdest.trans (h s hs out hecho)
    · -- it was active, and no other synchronization has its source
      have hnot : s.fromLocal ∉ (computeMissingSyncs (desired conf) conn.intents).map (·.fromLocal) := by
        intro hmem
        obtain ⟨s', hs', hfrom⟩ := List.mem_map.1 hmem
        exact hs (List.inj_on_of_nodup_map hdistinct (mem_missing_iff.1 hs').1 hdesired hfrom ▸ hs')
      have hactive : ¬ ∀ e ∈ conn.synchronizations.lookup s.fromLocal,
          ¬ Represents s (e.intent s.fromLocal) := fun h => hs (mem_missing_iff.2 ⟨hdesired, h⟩)
      push Not at hactive
      obtain ⟨e, he, hrep⟩ := hactive
      exact ⟨e, (hothers _ hnot).trans he, hrep⟩

/-- Two sources, one of which is active; the other one is established. -/
theorem reconcile_converges_iff_doc :
    let r := reconcileSyncs String.ofList (fun _ => succeeds fun s => s) (confA [syncSrc, syncDoc])
      connSrc .empty
    computeMissingSyncs (desired (confA [syncSrc, syncDoc])) connSrc.intents =
        [{ syncDoc with fromLocal := "/p/doc" }] ∧
      computeMissingSyncs (desired (confA [syncSrc, syncDoc])) r.conn.intents = [] := by
  have hrun : (calls String.ofList).Reachable connA ((calls String.ofList).fire connA
      (.establish .empty (succeeds fun s => s) syncSrc)) := Machine.Run.refl.step trivial trivial
  have hmissing : computeMissingSyncs (desired (confA [syncSrc, syncDoc])) connSrc.intents =
      [{ syncDoc with fromLocal := "/p/doc" }] := by
    decide +kernel
  refine ⟨hmissing, ((reconcile_converges_iff String.ofList (fun _ => succeeds fun s => s)
    (confA [syncSrc, syncDoc]) "a" "/p" connSrc hrun (by decide +kernel) .empty (by decide +kernel)
    (by decide +kernel)).2 ?_).1⟩
  rw [hmissing]
  rintro s hs out ⟨⟩
  obtain rfl := List.mem_singleton.1 hs
  decide +kernel

/-- The shell puts the home directory in the place of `~`: what is established for the entry is not
what the next pass looks for. -/
theorem home_missing :
    let r := reconcileSyncs String.ofList
      (fun _ => succeeds fun s => if s = "~/x" then "/home/u/x" else s) (confA [syncHome]) connA .empty
    r.errors = [none] ∧
      computeMissingSyncs (desired (confA [syncHome])) r.conn.intents = [syncHome] := by
  decide +kernel

/-! ### Requests that leave options open -/

/-- A request that succeeds has established its synchronization and written the configuration. -/
theorem syncFilesToConnection_ok {shortHash : List Char → String} {homeDir identity : String}
    {config : List ConnectionConfig} {found : Lookups} {req : SyncRequest}
    (h : (syncFilesToConnection hash shortHash homeDir identity config conn m o found
      req).error = none) :
    ∃ intent, req.intent shortHash homeDir identity config conn = .ok intent ∧
      (establishSynchronization hash conn m o intent).error = none ∧
      (syncFilesToConnection hash shortHash homeDir identity config conn m o found req).config =
        updateSynchronizations config (establishSynchronization hash conn m o intent).conn := by
  unfold syncFilesToConnection at h ⊢
  cases hintent : req.intent shortHash homeDir identity config conn with
  | error err =>
    simp only [hintent] at h
    split_ifs at h
  | ok intent =>
    cases herror : (establishSynchronization hash conn m o intent).error with
    | some err =>
      simp only [hintent, herror] at h
      split_ifs at h
    | none =>
      simp only [hintent, herror] at h ⊢
      split_ifs at h ⊢
      exact ⟨intent, rfl, herror, rfl⟩

theorem Connection.Disjoint.find_intent (h : conn.Disjoint) {k : String} {e : ActiveSync}
    (hlookup : conn.synchronizations.lookup k = some e) (localRoot : String) :
    conn.intents.find? (fun s => canonicalFromLocal localRoot s.fromLocal = k) =
      some (e.intent k) := by
  have hfixed {a : SynchronizationIntent} (ha : a ∈ conn.intents) :
      canonicalFromLocal localRoot a.fromLocal = a.fromLocal := by
    obtain ⟨e', he', -⟩ := mem_intents.1 ha
    rw [canonicalFromLocal, h.fixed _ (AList.lookup_isSome.1 (Option.isSome_of_mem he'))]
  have hmem : e.intent k ∈ conn.intents := mem_intents.2 ⟨e, hlookup, rfl⟩
  cases hfind : conn.intents.find? fun s => canonicalFromLocal localRoot s.fromLocal = k with
  | none =>
    grind [ActiveSync.intent]
  | some a =>
    have ha := List.mem_of_find?_eq_some hfind
    obtain rfl : a.fromLocal = k := (hfixed ha).symm.trans (by simpa using List.find?_some hfind)
    obtain ⟨e', he', heq⟩ := mem_intents.1 ha
    cases hlookup.symm.trans he'
    exact congrArg some heq

theorem configuredSync_update {config : List ConnectionConfig} {k : String}
    {a : SynchronizationIntent} (hconf : ∃ conf ∈ config, conf.name = conn.name)
    (ha : ∀ localRoot, conn.intents.find?
      (fun s => canonicalFromLocal localRoot s.fromLocal = k) = some a) :
    configuredSync (updateSynchronizations config conn) conn.name k = some a := by
  rw [configuredSync, updateSynchronizations]
  induction config with
  | nil =>
    obtain ⟨conf, hconf, -⟩ := hconf
    cases hconf
  | cons conf config ih =>
    rw [updateConnection]
    split_ifs with hname
    · simp [hname, ha]
    · rw [List.filter_cons_of_neg (by simpa using hname)]
      obtain ⟨conf', hmem, hname'⟩ := hconf
      rcases List.mem_cons.1 hmem with rfl | hmem
      · exact absurd hname' hname
      · exact ih ⟨conf', hmem, hname'⟩

/-- **A bare request keeps the options that are configured**, if the synchronization is active with
them or not at all. -/
theorem bare_request_keeps_options (hash shortHash : List Char → String)
    (homeDir identity : String) (config : List ConnectionConfig) (name localRoot : String)
    (conn : Connection) (hrun : (calls hash).Reachable ⟨name, localRoot, ∅, false⟩ conn) (m : Manager)
    (o : Outcomes) (found : Lookups) (req : SyncRequest) (hfile : req.defaultFileMode = "")
    (hdirectory : req.defaultDirectoryMode = "") (hinclude : req.syncInclude = []) (k : String)
    (hk : canonicalizeSyncFromLocal conn.localRoot req.sourceDir = .ok k)
    (s : SynchronizationIntent) (hs : configuredSync config conn.name k = some s)
    (hagree : ∀ e ∈ conn.synchronizations.lookup k, e.options = options s)
    (hok : (syncFilesToConnection hash shortHash homeDir identity config conn m o found
      req).error = none) :
    (configuredSync (syncFilesToConnection hash shortHash homeDir identity config conn m o found
      req).config conn.name k).map options = some (options s) := by
  obtain ⟨intent, hintent, herror, hconfig⟩ := syncFilesToConnection_ok hok
  have hfrom := SyncRequest.intent_eq_ok hintent
  have hoptions : options intent = options s := by
    unfold SyncRequest.intent at hintent
    simp only [hk, hfile, hdirectory, hinclude, if_true, hs] at hintent
    split at hintent
    · cases hintent
    · cases hintent
      rfl
  have hdisjoint := disjoint_of_reachable hrun
  obtain ⟨k', hcanonical, hk', e, hentry, hconn⟩ := establishSynchronization_settles herror
  -- the source of the intent is canonical already
  have hsame : intent.fromLocal = k := Except.ok.inj (hfrom.symm.trans hk)
  have habs : isAbs k' = true := hk'.elim (fun h => (hdisjoint.canonical k' h).1) id
  obtain rfl : k = k' := by
    have hcanonicalFrom : canonicalFromLocal conn.localRoot req.sourceDir = k := by
      rw [canonicalFromLocal, hk]
    rw [hsame, ← hcanonicalFrom] at hcanonical
    exact hcanonicalFrom.symm.trans (canonicalFromLocal_of_canonicalize hcanonical habs)
  have he : e.options = options s := by
    cases hlookup : conn.synchronizations.lookup k with
    | none => exact (hentry.fresh hlookup).trans hoptions
    | some existing =>
      have hexisting := hagree existing hlookup
      have hinherits : existing.options = options (existing.inheritInto intent) := by
        have hintent := hexisting.trans hoptions.symm
        simp only [ActiveSync.options, options, ActiveSync.inheritInto, Prod.mk.injEq] at hintent ⊢
        grind
      rw [hentry.kept existing hlookup (satisfies_of_options hinherits), hexisting]
  set conn' := (establishSynchronization hash conn m o intent).conn
  obtain ⟨hname, -, hlookup, -⟩ := settled hconn
  have hconf : ∃ conf ∈ config, conf.name = conn'.name := by
    obtain ⟨conf, hconf, -⟩ := List.exists_of_findSome?_eq_some hs
    rw [hname]
    exact ⟨conf, List.mem_of_mem_filter hconf, by simpa using (List.mem_filter.1 hconf).2⟩
  have hfind := (hdisjoint.establish m o intent).find_intent hlookup
  rw [hconfig, ← hname, configuredSync_update hconf hfind]
  exact congrArg some he

/-- `doc` is configured with options and not active. -/
theorem bare_request_keeps_options_doc :
    let s : SynchronizationIntent := ⟨"doc", "/srv/doc", true, ["gen/*.go"], "640", "750"⟩
    (configuredSync (syncFilesToConnection String.ofList String.ofList "/home/u" "me"
      [confA [syncSrc, s]] connSrc .empty (succeeds fun s => s) ⟨true, true, true⟩
      requestDoc).config "a" "/p/doc").map options = some ("640", "750", ["gen/*.go"]) := by
  have hrun : (calls String.ofList).Reachable connA ((calls String.ofList).fire connA
      (.establish .empty (succeeds fun s => s) syncSrc)) := Machine.Run.refl.step trivial trivial
  exact bare_request_keeps_options String.ofList String.ofList "/home/u" "me" _ "a" "/p" connSrc hrun
    .empty (succeeds fun s => s) ⟨true, true, true⟩ requestDoc rfl rfl rfl "/p/doc"
    (by decide +kernel) ⟨"doc", "/srv/doc", true, ["gen/*.go"], "640", "750"⟩ (by decide +kernel)
    (by decide +kernel) (by decide +kernel)

end Graft.Sync
