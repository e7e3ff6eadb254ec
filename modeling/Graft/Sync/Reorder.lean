import Graft.Sync.Ignores
import Graft.Sync.Reconcile

/-!
# Includes in another order (`pkg/connection.go`, `pkg/synchronization.go`)

A session keeps the history of its synchronization.  It is terminated and made anew when the list of
ignores it was made with is not the one that is wanted.
-/

namespace Graft.Sync

open Graft.Config (SynchronizationIntent)

/-! ### Requests -/

/-- The ignores of a session: the patterns of `.gitignore`, then the includes. -/
def assembled (git includes : List String) : List String :=
  (Ignores.applySyncIncludes (git.map String.toList) (includes.map String.toList)).map String.ofList

/-- The includes of a request, with those it inherits. -/
def inherited (conn : Connection) (intent : SynchronizationIntent) : List String :=
  match plan conn intent with
  | .ok (.resolve intent) => intent.syncInclude
  | _ => []

def establishWith (hash : List Char → String) (conn : Connection) (m : Manager) (o : Outcomes)
    (git : List String) (intent : SynchronizationIntent) : Established :=
  establishSynchronization hash conn m { o with ignores := assembled git (inherited conn intent) }
    intent

/-- The requests are the same, but for the spelling of the source, the replica and the order of the
includes. -/
structure Agree (localRoot : String) (i j : SynchronizationIntent) : Prop where
  source : canonicalizeSyncFromLocal localRoot i.fromLocal =
    canonicalizeSyncFromLocal localRoot j.fromLocal
  toRemote : i.toRemote = j.toRemote
  fileMode : i.defaultFileMode = j.defaultFileMode
  directoryMode : i.defaultDirectoryMode = j.defaultDirectoryMode
  syncInclude : i.syncInclude.Perm j.syncInclude

theorem find?_filter_of_pos {α : Type} {l : List α} {p q : α → Bool} {a : α}
    (h : l.find? p = some a) (hq : q a = true) : (l.filter q).find? p = some a := by
  induction l with
  | nil => cases h
  | cons b l ih => grind

namespace Manager

variable {m m' m'' : Manager} {name : String} {o : SessionOutcomes} {spec : SessionSpec}

/-- The session that is found under the name is the same as before. -/
def Keeps (name : String) (m m' : Manager) : Prop :=
  ∀ s, m.find name = some s → ∃ s', m'.find name = some s' ∧ s'.identifier = s.identifier ∧
    s'.toSessionSpec = s.toSessionSpec

namespace Keeps

theorem refl (name : String) (m : Manager) : Keeps name m m := fun s hs => ⟨s, hs, rfl, rfl⟩

theorem trans (h : Keeps name m m') (h' : Keeps name m' m'') : Keeps name m m'' := by
  intro s hs
  obtain ⟨s', hs', hid, hspec⟩ := h s hs
  obtain ⟨s'', hs'', hid', hspec'⟩ := h' s' hs'
  exact ⟨s'', hs'', hid'.trans hid, hspec'.trans hspec⟩

theorem setPaused (name : String) (m : Manager) (id : ℕ) (paused : Bool) :
    Keeps name m (m.setPaused id paused) := by
  intro s hs
  set f : Session → Session := fun s => if s.identifier = id then { s with paused := paused } else s
    with hf
  have hsame (s : Session) : (f s).identifier = s.identifier ∧ (f s).toSessionSpec = s.toSessionSpec := by
    grind
  have hname : (fun s : Session => decide (s.name = name)) ∘ f = fun s => decide (s.name = name) := by
    grind
  refine ⟨f s, ?_, hsame s⟩
  rw [find, Manager.setPaused, List.find?_map, hname]
  exact congrArg (Option.map f) hs

theorem pauses (name : String) (m : Manager) (ids : List ℕ) :
    Keeps name m (ids.foldl Manager.pause m) := by
  induction ids generalizing m with
  | nil => exact refl name m
  | cons id ids ih => exact (setPaused name m id true).trans (ih _)

theorem createSession (name : String) (m : Manager) (o : SessionOutcomes) (spec : SessionSpec) :
    Keeps name m (m.createSession o spec).1 := by
  unfold Manager.createSession
  split_ifs
  · grind [find, create, Keeps]
  · exact refl name m

theorem terminate {t : Session} (ht : t ∈ m.sessions) (hne : name ≠ t.name) :
    Keeps name m (m.terminate t.identifier) := by
  intro s hs
  have hid : s.identifier ≠ t.identifier := by
    intro hid
    obtain rfl := List.inj_on_of_nodup_map m.distinct (List.mem_of_find?_eq_some hs) ht hid
    have hname : s.name = name := by simpa using List.find?_some hs
    exact hne hname.symm
  exact ⟨s, find?_filter_of_pos hs (by simpa using hid), rfl, rfl⟩

theorem establishSession (m : Manager) (o : SessionOutcomes) (hne : name ≠ spec.name) :
    Keeps name m (m.establishSession o spec).1 := by
  unfold Manager.establishSession
  cases hfind : m.find spec.name with
  | none =>
    grind [refl, createSession]
  | some t =>
    have hname : t.name = spec.name := by simpa using List.find?_some hfind
    dsimp only
    split_ifs
    · exact refl name m
    · exact refl name m
    · exact (terminate (List.mem_of_find?_eq_some hfind) (hname ▸ hne)).trans
        (createSession name _ o spec)
    · exact refl name m
    · exact setPaused name m _ false
    · exact refl name m
    · exact refl name m

end Keeps

theorem keeps_establishSession {s : Session} (hfind : m.find spec.name = some s)
    (hstale : s.stale spec = false) : Keeps spec.name m (m.establishSession o spec).1 := by
  simp only [establishSession, hfind, hstale, Bool.false_eq_true, if_false]
  split_ifs
  · exact .refl _ m
  · exact .refl _ m
  · exact .setPaused _ m _ false
  · exact .refl _ m
  · exact .refl _ m

theorem not_keeps_establishSession {s : Session} {id : ℕ} (hfind : m.find spec.name = some s)
    (hstale : s.stale spec = true) (h : (m.establishSession o spec).2 = .ok id)
    (hgrows : (m.establishSession o spec).1.Grows m') : ¬ Keeps spec.name m m' := by
  simp only [establishSession, hfind, hstale, if_true] at h hgrows
  split_ifs at h hgrows
  intro hkeeps
  obtain ⟨s', hs', hid, -⟩ := hkeeps s hfind
  refine ((Grows.createSession _ o spec).trans hgrows).gone
    (m.fresh s (List.mem_of_find?_eq_some hfind)) ?_ s' (List.mem_of_find?_eq_some hs') hid
  intro x hx
  simpa using (List.mem_filter.1 hx).2

theorem find_createSession {id : ℕ} (h : (m.createSession o spec).2 = .ok id)
    (hnone : m.find spec.name = none) :
    ∃ s, (m.createSession o spec).1.find spec.name = some s ∧ s.toSessionSpec = spec := by
  unfold createSession at h ⊢
  split_ifs at h ⊢
  refine ⟨{ spec with identifier := m.next, paused := false }, ?_, rfl⟩
  rw [find] at hnone
  rw [find, create, List.find?_append, hnone]
  simp

/-- The session that is found under the name of a spec was made as it says. -/
theorem find_establishSession {id : ℕ} (h : (m.establishSession o spec).2 = .ok id)
    (hone : ∀ s ∈ m.sessions, ∀ s' ∈ m.sessions, s.name = spec.name → s'.name = spec.name → s = s') :
    ∃ s, (m.establishSession o spec).1.find spec.name = some s ∧ s.ignores = spec.ignores ∧
      s.fileMode = spec.fileMode ∧ s.directoryMode = spec.directoryMode := by
  cases hfind : m.find spec.name with
  | none =>
    simp only [establishSession, hfind] at h ⊢
    split_ifs at h ⊢
    obtain ⟨s, hs, rfl⟩ := find_createSession h hfind
    exact ⟨s, hs, rfl, rfl, rfl⟩
  | some t =>
    cases hstale : t.stale spec with
    | false =>
      obtain ⟨s, hs, -, hspec⟩ := keeps_establishSession (o := o) hfind hstale t hfind
      simp only [Session.stale, Bool.or_eq_false_iff, decide_eq_false_iff_not, ne_eq, not_not] at hstale
      rw [← hspec] at hstale
      exact ⟨s, hs, hstale.1.1, hstale.1.2, hstale.2⟩
    | true =>
      simp only [establishSession, hfind, hstale, if_true] at h ⊢
      split_ifs at h ⊢
      have hnone : (m.terminate t.identifier).find spec.name = none := by
        refine List.find?_eq_none.2 fun x hx => ?_
        obtain ⟨hx, hid⟩ := List.mem_filter.1 hx
        have ht : t.name = spec.name := by simpa using List.find?_some hfind
        simp only [decide_eq_true_eq]
        intro hname
        obtain rfl := hone x hx t (List.mem_of_find?_eq_some hfind) hname ht
        simp at hid
      obtain ⟨s, hs, rfl⟩ := find_createSession h hnone
      exact ⟨s, hs, rfl, rfl, rfl⟩

end Manager

/-! ### What a request keeps -/

variable {hash : List Char → String} {conn : Connection} {m : Manager} {o : Outcomes}
  {intent : SynchronizationIntent} {name : String}

theorem recordSync_keeps {closed : Bool} {fromLocal : String} {entry : ActiveSync}
    {sessions : List ℕ} :
    m.Keeps name (recordSync conn m closed fromLocal entry sessions).manager := by
  unfold recordSync
  split_ifs
  · exact (Manager.Keeps.setPaused name m _ true).trans (.pauses name _ _)
  · exact .refl name m

theorem establishGitReplica_keeps {connName : String}
    (hne : name ≠ syncSessionName hash connName (gitReplicaIntent intent)) :
    m.Keeps name (establishGitReplica hash connName m o intent).1 := by
  grind [establishGitReplica_cases, Manager.Keeps.refl, Manager.Keeps.establishSession]

theorem applyGitReplicaFlip_keeps {existing : ActiveSync}
    (hne : name ≠ syncSessionName hash conn.name (gitReplicaIntent intent)) :
    m.Keeps name (applyGitReplicaFlip hash conn m o intent existing).manager := by
  have hgit : m.Keeps name (establishGitReplica hash conn.name m o intent).1 :=
    establishGitReplica_keeps hne
  unfold applyGitReplicaFlip
  dsimp only
  split_ifs
  · exact .refl name m
  · split
    · exact hgit
    · exact hgit.trans recordSync_keeps
  · exact (Manager.Keeps.pauses name m _).trans recordSync_keeps

theorem recordEstablished_keeps (id : ℕ)
    (hne : name ≠ syncSessionName hash conn.name (gitReplicaIntent intent)) :
    m.Keeps name (recordEstablished hash conn m o intent id).manager := by
  have hpaused : m.Keeps name (pauseReplica conn m intent) := by
    grind [Manager.Keeps.pauses, Manager.Keeps, pauseReplica]
  have hfirst : m.Keeps name (recordSync conn (pauseReplica conn m intent) o.closed intent.fromLocal
      (.ofIntent intent id) [id]).manager := hpaused.trans recordSync_keeps
  unfold recordEstablished
  dsimp only
  split_ifs
  · exact hfirst
  · split
    · exact hfirst.trans (establishGitReplica_keeps hne)
    · exact (hfirst.trans (establishGitReplica_keeps hne)).trans recordSync_keeps

theorem establish_session (h : (establish hash conn m o intent).error = none) :
    ∃ modes id, syncBetaConfiguration intent = .ok modes ∧
      let spec : SessionSpec := ⟨syncSessionName hash conn.name intent, intent.fromLocal,
        intent.toRemote, o.ignores, modes.1, modes.2⟩
      (m.establishSession o.session spec).2 = .ok id ∧ establish hash conn m o intent =
        recordEstablished hash conn (m.establishSession o.session spec).1 o intent id := by
  unfold establish at h ⊢
  cases hmodes : syncBetaConfiguration intent with
  | error err => simp [hmodes] at h
  | ok modes =>
    simp only [hmodes] at h ⊢
    split_ifs at h ⊢
    split at h
    · cases h
    · rename_i id hid
      exact ⟨modes, id, rfl, hid, rfl⟩

theorem name_ne_replica (hhash : Function.Injective hash) {connName : String}
    (h : CanonicalPath intent.fromLocal) :
    syncSessionName hash connName intent ≠ syncSessionName hash connName (gitReplicaIntent intent) := by
  intro heq
  rw [syncSessionName, syncSessionName, h.gitSource, h.2.1, toList_gitRemote] at heq
  have hlength := congrArg List.length (hhash (by simpa using heq))
  have hremote : (Path.clean intent.toRemote.toList).length ≤
      (Path.clean (intent.toRemote.toList ++ '/' :: gitDirName.toList)).length :=
    Path.length_clean_append (by decide) _
  simp only [List.length_append, List.length_cons] at hlength
  omega

theorem recordEstablished_grows {id : ℕ} :
    m.Grows (recordEstablished hash conn m o intent id).manager := by
  have hfirst := (pauseReplica_grows conn m intent).trans
    (@recordSync_grows conn _ o.closed intent.fromLocal (.ofIntent intent id) [id])
  unfold recordEstablished
  dsimp only
  split_ifs
  · exact hfirst
  · grind [Manager.Grows.trans, establishGitReplica_grows, recordSync_grows]

theorem Agree.satisfies {localRoot : String} {i j : SynchronizationIntent} (h : Agree localRoot i j)
    {e : ActiveSync} (he : e.satisfies i = true) : e.satisfies (e.inheritInto j) = true := by
  have hnil : i.syncInclude = [] ↔ j.syncInclude = [] :=
    ⟨fun hi => (hi ▸ h.syncInclude).nil_eq.symm, fun hj => (hj ▸ h.syncInclude).eq_nil⟩
  rw [satisfies_iff, h.fileMode, h.directoryMode, hnil] at he
  obtain ⟨hfile, hdirectory, hinclude⟩ := he
  refine satisfies_iff.2 ⟨?_, ?_, ?_⟩
  · rw [ActiveSync.inheritInto]
    grind
  · rw [ActiveSync.inheritInto]
    grind
  · dsimp only [ActiveSync.inheritInto]
    split_ifs with hempty
    · exact .inr (.refl _)
    · exact .inr ((hinclude.resolve_left hempty).trans h.syncInclude)

def negations (includes : List String) : List Ignores.Text :=
  (includes.map String.toList).filterMap Ignores.negation

theorem assembled_inj {git includes includes' : List String} :
    assembled git includes = assembled git includes' ↔ negations includes = negations includes' := by
  rw [assembled, assembled, Ignores.applySyncIncludes, Ignores.applySyncIncludes,
    List.map_injective_iff.2 (fun _ _ => String.ofList_injective) |>.eq_iff, List.append_cancel_left_eq]
  rfl

theorem canonical_of_settled {k : String} (hconn : conn.Disjoint)
    (hk : canonicalizeSyncFromLocal conn.localRoot intent.fromLocal = .ok k)
    (h : (establishSynchronization hash conn m o intent).error = none) : CanonicalPath k := by
  obtain ⟨k', hk', hsource, -⟩ := establishSynchronization_settles h
  cases hk.symm.trans hk'
  obtain ⟨-, hclean, hdir⟩ := canonicalize_eq_ok hk
  refine ⟨hsource.elim (fun h => (hconn.canonical k h).1) id, hclean, fun hroot => hdir ?_⟩
  rw [hroot]
  rfl

theorem keeps_active {k : String} {e : ActiveSync} (hhash : Function.Injective hash)
    (hcanonical : CanonicalPath k)
    (hk : canonicalizeSyncFromLocal conn.localRoot intent.fromLocal = .ok k)
    (he : conn.synchronizations.lookup k = some e)
    (hsat : e.satisfies (e.inheritInto intent) = true) :
    m.Keeps (syncSessionName hash conn.name { intent with fromLocal := k, toRemote := e.destination })
      (establishSynchronization hash conn m o intent).manager := by
  cases hoverlap : checkSyncOverlap conn.synchronizations k with
  | some existing =>
    simp only [establishSynchronization, plan, hk, hoverlap]
    exact .refl _ m
  | none =>
    rcases establishSynchronization_active hk hoverlap he with
      ⟨err, heq⟩ | ⟨-, -, -, heq⟩ | ⟨out, -, hdest, ⟨-, heq⟩ | ⟨hnot, -⟩⟩
    · rw [heq]
      exact .refl _ m
    · rw [heq]
      exact .refl _ m
    · rw [heq, hdest]
      exact applyGitReplicaFlip_keeps (name_ne_replica hhash hcanonical)
    · cases hsat.symm.trans hnot

/-- A source that is not active is established with the session of its name. -/
theorem establishWith_fresh {k : String} {git : List String}
    (hk : canonicalizeSyncFromLocal conn.localRoot intent.fromLocal = .ok k)
    (hlookup : conn.synchronizations.lookup k = none)
    (h : (establishWith hash conn m o git intent).error = none) :
    ∃ out modes id, o.echo intent.toRemote = some out ∧ syncBetaConfiguration intent = .ok modes ∧
      let i := { intent with fromLocal := k, toRemote := trimSpace out }
      let spec : SessionSpec := ⟨syncSessionName hash conn.name i, k, trimSpace out,
        assembled git intent.syncInclude, modes.1, modes.2⟩
      (m.establishSession o.session spec).2 = .ok id ∧
        ∃ o', (establishWith hash conn m o git intent).manager =
          (recordEstablished hash conn (m.establishSession o.session spec).1 o' i id).manager := by
  have hoverlap : checkSyncOverlap conn.synchronizations k = none := by
    cases hoverlap : checkSyncOverlap conn.synchronizations k with
    | none => rfl
    | some existing =>
      simp only [establishWith, establishSynchronization, plan, hk, hoverlap] at h
      cases h
  have hinclude : inherited conn intent = intent.syncInclude := by
    simp only [inherited, plan, hk, hoverlap, hlookup]
  rw [establishWith, hinclude] at h ⊢
  obtain ⟨out, hecho, heq⟩ := establishSynchronization_fresh hk hoverlap hlookup h
  rw [heq] at h ⊢
  obtain ⟨modes, id, hmodes, hid, hrecord⟩ := establish_session h
  exact ⟨out, modes, id, hecho, hmodes, hid, _, by rw [hrecord]⟩

theorem keeps_fresh_iff {k toRemote : String} {git : List String} {s : Session}
    (hhash : Function.Injective hash) (hcanonical : CanonicalPath k)
    (hk : canonicalizeSyncFromLocal conn.localRoot intent.fromLocal = .ok k)
    (hlookup : conn.synchronizations.lookup k = none)
    (hdest : ∀ out, o.echo intent.toRemote = some out → trimSpace out = toRemote)
    (h : (establishWith hash conn m o git intent).error = none)
    (hfind : m.find (syncSessionName hash conn.name
      { intent with fromLocal := k, toRemote := toRemote }) = some s) :
    m.Keeps (syncSessionName hash conn.name { intent with fromLocal := k, toRemote := toRemote })
        (establishWith hash conn m o git intent).manager ↔
      s.ignores = assembled git intent.syncInclude ∧
        syncBetaConfiguration intent = .ok (s.fileMode, s.directoryMode) := by
  obtain ⟨out, modes, id, hecho, hmodes, hid, o', hmanager⟩ := establishWith_fresh hk hlookup h
  obtain rfl := hdest out hecho
  rw [hmanager, hmodes, Except.ok.injEq]
  set spec : SessionSpec := ⟨_, k, trimSpace out, assembled git intent.syncInclude, modes.1, modes.2⟩
  have hstale : s.stale spec = false ↔ s.ignores = assembled git intent.syncInclude ∧
      modes = (s.fileMode, s.directoryMode) := by
    simp [Session.stale, spec, Prod.ext_iff, and_assoc, @eq_comm _ modes.1, @eq_comm _ modes.2]
  rw [← hstale]
  constructor
  · intro hkeeps
    by_contra hnot
    exact Manager.not_keeps_establishSession hfind (by simpa using hnot) hid recordEstablished_grows
      hkeeps
  · intro hfresh
    exact (Manager.keeps_establishSession hfind hfresh).trans
      (recordEstablished_keeps id (name_ne_replica hhash hcanonical))

/-- The session of a source that was not active was made as the intent wants it. -/
theorem made_of_fresh {k toRemote : String} {git : List String} {s : Session}
    (hhash : Function.Injective hash) (hcanonical : CanonicalPath k)
    (hk : canonicalizeSyncFromLocal conn.localRoot intent.fromLocal = .ok k)
    (hlookup : conn.synchronizations.lookup k = none)
    (hdest : ∀ out, o.echo intent.toRemote = some out → trimSpace out = toRemote)
    (h : (establishWith hash conn m o git intent).error = none)
    (hone : ∀ s ∈ m.sessions, ∀ s' ∈ m.sessions,
      s.name = syncSessionName hash conn.name { intent with fromLocal := k, toRemote := toRemote } →
      s'.name = syncSessionName hash conn.name { intent with fromLocal := k, toRemote := toRemote } →
      s = s')
    (hfind : (establishWith hash conn m o git intent).manager.find (syncSessionName hash conn.name
      { intent with fromLocal := k, toRemote := toRemote }) = some s) :
    s.ignores = assembled git intent.syncInclude ∧
      syncBetaConfiguration intent = .ok (s.fileMode, s.directoryMode) := by
  obtain ⟨out, modes, id, hecho, hmodes, hid, o', hmanager⟩ := establishWith_fresh hk hlookup h
  obtain rfl := hdest out hecho
  obtain ⟨s₁, hs₁, hignores, hfile, hdirectory⟩ := Manager.find_establishSession hid hone
  obtain ⟨s₂, hs₂, -, hspec⟩ :=
    recordEstablished_keeps (o := o') id (name_ne_replica hhash hcanonical) s₁ hs₁
  rw [hmanager] at hfind
  cases hfind.symm.trans hs₂
  rw [hspec, hmodes, hignores, hfile, hdirectory]
  exact ⟨rfl, rfl⟩

/-- **Includes in another order**: while the synchronization is active, its session is the same
after the second request.  After a restart it is if it was made with the ignores and the modes that
the second request wants, and for a source that the first request made active, if the patterns that
are appended are the same. -/
theorem reordered_includes_iff (hash : List Char → String) (hhash : Function.Injective hash)
    (name localRoot : String) (conn : Connection)
    (hrun : (calls hash).Reachable ⟨name, localRoot, ∅, false⟩ conn) (m : Manager) (o : Outcomes)
    (git : List String) (i j : SynchronizationIntent) (hagree : Agree conn.localRoot i j)
    (k : String) (hk : canonicalizeSyncFromLocal conn.localRoot i.fromLocal = .ok k)
    (hfirst : (establishWith hash conn m o git i).error = none) (e : ActiveSync)
    (he : (establishWith hash conn m o git i).conn.synchronizations.lookup k = some e) :
    let r := establishWith hash conn m o git i
    let name := syncSessionName hash conn.name { i with fromLocal := k, toRemote := e.destination }
    (∀ o₂, r.manager.Keeps name (establishWith hash r.conn r.manager o₂ git j).manager) ∧
      ∀ (ids : List ℕ) (o₂ : Outcomes) (s : Session),
        let m₂ := ids.foldl Manager.pause r.manager
        let r₂ := establishWith hash { conn with synchronizations := ∅ } m₂ o₂ git j
        (∀ out, o₂.echo j.toRemote = some out → trimSpace out = e.destination) →
        r₂.error = none → r.manager.find name = some s →
          (m₂.Keeps name r₂.manager ↔ s.ignores = assembled git j.syncInclude ∧
            syncBetaConfiguration j = .ok (s.fileMode, s.directoryMode)) ∧
          (conn.synchronizations.lookup k = none →
            (∀ s ∈ m.sessions, ∀ s' ∈ m.sessions, s.name = name → s'.name = name → s = s') →
            (m₂.Keeps name r₂.manager ↔ negations i.syncInclude = negations j.syncInclude)) := by
  intro r name
  have hcanonical : CanonicalPath k := canonical_of_settled (disjoint_of_reachable hrun) hk hfirst
  obtain ⟨k', hk', -, e', hentry, hconn⟩ := establishSynchronization_settles hfirst
  cases hk.symm.trans hk'
  have hkj : canonicalizeSyncFromLocal conn.localRoot j.fromLocal = .ok k := hagree.source ▸ hk
  obtain ⟨hconnName, hroot, hlookup', -⟩ := settled hconn
  cases he.symm.trans hlookup'
  constructor
  · intro o₂
    have hname : name = syncSessionName hash r.conn.name
        { j with fromLocal := k, toRemote := e.destination } := by
      rw [show r.conn.name = conn.name from hconnName]
      rfl
    rw [hname]
    exact keeps_active hhash hcanonical (hroot ▸ hkj) he (hagree.satisfies hentry.satisfies)
  · intro ids o₂ s m₂ r₂ hecho herror hfind
    obtain ⟨s₂, hs₂, -, hspec⟩ := Manager.Keeps.pauses name r.manager ids s hfind
    have hrestart : m₂.Keeps name r₂.manager ↔ s.ignores = assembled git j.syncInclude ∧
        syncBetaConfiguration j = .ok (s.fileMode, s.directoryMode) := by
      have hk₂ : canonicalizeSyncFromLocal ({ conn with synchronizations := ∅ } : Connection).localRoot
          j.fromLocal = .ok k := hkj
      rw [← hspec]
      exact keeps_fresh_iff hhash hcanonical hk₂ (AList.lookup_empty k) hecho herror hs₂
    refine ⟨hrestart, fun hlookup hone => hrestart.trans ?_⟩
    have hdest : ∀ out, o.echo i.toRemote = some out → trimSpace out = e.destination := by
      intro out hout
      rcases hentry.destination with ⟨hbefore, -⟩ | ⟨out', hout', hdest⟩
      · cases hlookup.symm.trans hbefore
      · cases hout.symm.trans hout'
        exact hdest.symm
    obtain ⟨hignores, hmodes⟩ := made_of_fresh hhash hcanonical hk hlookup hdest hfirst hone hfind
    have hmodes' : syncBetaConfiguration j = .ok (s.fileMode, s.directoryMode) := by
      rw [← hmodes, syncBetaConfiguration, syncBetaConfiguration, syncModesConfiguration,
        syncModesConfiguration, hagree.fileMode, hagree.directoryMode]
    rw [hignores, assembled_inj, and_iff_left hmodes']

/-- Generated files are synchronized though `.gitignore` excludes them. -/
def syncGen (includes : List String) : SynchronizationIntent := ⟨"/p", "/r", false, includes, "", ""⟩

/-- The first request, on a connection without synchronizations. -/
def firstGen : Established :=
  establishWith String.ofList connA .empty (succeeds fun s => s) ["gen/**"] (syncGen ["a.go", "b.go"])

/-- In the same run, the second request finds the session as it is. -/
theorem reordered_includes_iff_gen :
    ∃ e ∈ firstGen.conn.synchronizations.lookup "/p", firstGen.manager.Keeps
      (syncSessionName String.ofList "a" ⟨"/p", e.destination, false, [], "", ""⟩)
      (establishWith String.ofList firstGen.conn firstGen.manager (succeeds fun s => s) ["gen/**"]
        (syncGen ["b.go", "a.go"])).manager := by
  have hlookup : (firstGen.conn.synchronizations.lookup "/p").isSome = true := by decide +kernel
  obtain ⟨e, he⟩ := Option.isSome_iff_exists.1 hlookup
  have hagree : Agree connA.localRoot (syncGen ["a.go", "b.go"]) (syncGen ["b.go", "a.go"]) :=
    ⟨rfl, rfl, rfl, rfl, .swap _ _ _⟩
  exact ⟨e, he, (reordered_includes_iff String.ofList (fun _ _ => String.ofList_injective) "a" "/p"
    connA .refl .empty (succeeds fun s => s) ["gen/**"] _ _ hagree "/p" (by decide +kernel)
    (by decide +kernel) e he).1 (succeeds fun s => s)⟩

/-- After a restart the session is terminated, and another one made. -/
theorem reordered_recreated :
    let r := establishWith String.ofList connA (firstGen.manager.pause 0) (succeeds fun s => s)
      ["gen/**"] (syncGen ["b.go", "a.go"])
    firstGen.error = none ∧ firstGen.manager.sessions.map (·.identifier) = [0] ∧ r.error = none ∧
      r.manager.sessions.map (·.identifier) = [1] := by
  decide +kernel

end Graft.Sync
