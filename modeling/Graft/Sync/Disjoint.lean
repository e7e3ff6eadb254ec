import Graft.Library.Location
import Graft.Library.Machine
import Graft.Library.Separator
import Graft.Sync.Requests

/-!
# Active synchronizations are disjoint (`pkg/connection.go`, `pkg/synchronization.go`)

What is active becomes the configuration with every request that succeeds: `other_syncs_kept_iff`,
`inactive_sync_lost`.
-/

namespace Graft.Sync

open Graft.Config (SynchronizationIntent ConnectionConfig)

/-- A synchronization is asked for, or the local root is set. -/
inductive Call
  | establish (m : Manager) (o : Outcomes) (intent : SynchronizationIntent)
  | setLocalRoot (localRoot : String)

/-- The connection, through calls that succeed or fail. -/
def calls (hash : List Char → String) : Machine Connection Call where
  enabled _ _ := True
  fire conn
    | .establish m o intent => (establishSynchronization hash conn m o intent).conn
    | .setLocalRoot localRoot => { conn with localRoot := localRoot }

/-- A source is absolute and in its shortest form, and not the root. -/
def CanonicalPath (k : String) : Prop :=
  isAbs k = true ∧ Path.clean k.toList = k.toList ∧ k.toList ≠ ['/']

/-- The sources are canonical, and none is within another. -/
structure Connection.Disjoint (conn : Connection) : Prop where
  canonical : ∀ k ∈ conn.synchronizations, CanonicalPath k
  fixed : ∀ k ∈ conn.synchronizations, ∀ localRoot,
    canonicalizeSyncFromLocal localRoot k = .ok k
  apart : ∀ k ∈ conn.synchronizations, ∀ k' ∈ conn.synchronizations, k ≠ k' →
    ¬ k.toList ++ ['/'] <+: k'.toList

def directory (localRoot fromLocal : String) : Path.Location :=
  if isAbs fromLocal then .of fromLocal.toList
  else (Path.Location.of localRoot.toList).go fromLocal.toList

/-! ### The sources -/

variable {hash : List Char → String} {conn : Connection} {k k' : String}

theorem hasPathPrefix_of_within (h : k.toList ++ ['/'] <+: k'.toList) :
    (hasPathPrefix k' k).isSome = true := by
  obtain ⟨t, ht⟩ := h
  rw [hasPathPrefix, ← ht]
  simp

theorem not_within_of_overlap (h : checkSyncOverlap conn.synchronizations k = none)
    (hk' : k' ∈ conn.synchronizations) (hne : k' ≠ k) :
    ¬ k.toList ++ ['/'] <+: k'.toList ∧ ¬ k'.toList ++ ['/'] <+: k.toList := by
  have hnot := List.find?_eq_none.1 h k' (AList.mem_keys.1 hk')
  simp only [ne_eq, hne, not_false_eq_true, decide_true, Bool.true_and, Bool.or_eq_true,
    not_or] at hnot
  exact ⟨mt hasPathPrefix_of_within hnot.2, mt hasPathPrefix_of_within hnot.1⟩

theorem Connection.Disjoint.establish (h : conn.Disjoint) (m : Manager) (o : Outcomes)
    (intent : SynchronizationIntent) :
    (establishSynchronization hash conn m o intent).conn.Disjoint where
  canonical k hk := by
    rcases mem_establishSynchronization hk with hk | ⟨hcanonical, habs, -⟩
    · exact h.canonical k hk
    · obtain ⟨-, hclean, hdir⟩ := canonicalize_eq_ok hcanonical
      refine ⟨habs, hclean, fun hroot => hdir ?_⟩
      rw [hroot]
      rfl
  fixed k hk := by
    rcases mem_establishSynchronization hk with hk | ⟨hcanonical, habs, -⟩
    · exact h.fixed k hk
    · exact canonicalize_self hcanonical habs
  apart k hk k' hk' hne := by
    rcases mem_establishSynchronization hk with hk | ⟨hcanonical, -, hoverlap⟩ <;>
      rcases mem_establishSynchronization hk' with hk' | ⟨hcanonical', -, hoverlap'⟩
    · exact h.apart k hk k' hk' hne
    · exact (not_within_of_overlap hoverlap' hk hne).2
    · exact (not_within_of_overlap hoverlap hk' hne.symm).1
    grind

theorem disjoint_of_reachable {name localRoot : String}
    (hrun : (calls hash).Reachable ⟨name, localRoot, ∅, false⟩ conn) : conn.Disjoint := by
  have hnone (k : String) : k ∉ (∅ : AList fun _ : String => ActiveSync) := AList.notMem_empty k
  refine Machine.Run.invariant ⟨fun k hk => absurd hk (hnone k), fun k hk => absurd hk (hnone k),
    fun k hk => absurd hk (hnone k)⟩ (fun conn call h _ _ => ?_) hrun
  cases call with
  | establish m o intent => exact h.establish m o intent
  | setLocalRoot localRoot => exact ⟨h.canonical, h.fixed, h.apart⟩

/-! ### Spellings -/

theorem canonicalize_of_directory {localRoot fromLocal : String} (hne : fromLocal ≠ "")
    (hroot : isAbs fromLocal = true ∨ localRoot ≠ "") :
    canonicalizeSyncFromLocal localRoot fromLocal =
      let d := directory localRoot fromLocal
      let resolved := Path.render d.rooted d.stack
      if resolved = Path.dir resolved then .error (.filesystemRoot fromLocal)
      else .ok (String.ofList resolved) := by
  have hresolved : Path.clean (if isAbs fromLocal then fromLocal.toList
      else Path.join localRoot.toList fromLocal.toList) =
        Path.render (directory localRoot fromLocal).rooted (directory localRoot fromLocal).stack := by
    rw [directory]
    split_ifs with habs
    · rfl
    · have hlocal : localRoot.toList ≠ [] := by simpa using hroot.resolve_left habs
      rw [← Path.Location.of_join hlocal]
      rfl
  rw [canonicalizeSyncFromLocal, if_neg hne, if_neg (by rintro ⟨habs, hnil⟩; simp_all), hresolved]

theorem canonicalize_directory {localRoot a b : String} (hb : b ≠ "")
    (hsame : directory localRoot a = directory localRoot b)
    (h : canonicalizeSyncFromLocal localRoot a = .ok k) :
    canonicalizeSyncFromLocal localRoot b = .ok k := by
  have ha : a ≠ "" ∧ (isAbs a = true ∨ localRoot ≠ "") := by
    unfold canonicalizeSyncFromLocal at h
    split_ifs at h with hempty hroot
    · exact ⟨hempty, by simpa [or_iff_not_imp_left] using hroot⟩
    · exact ⟨hempty, by simpa [or_iff_not_imp_left] using hroot⟩
  have hroot : isAbs b = true ∨ localRoot ≠ "" := by
    refine or_iff_not_imp_right.2 fun hroot => ?_
    have habs := ha.2.resolve_right hroot
    by_contra hrel
    have hrooted := congrArg Path.Location.rooted hsame
    rw [directory, directory, if_pos habs, if_neg hrel, not_not.1 hroot] at hrooted
    exact Bool.false_ne_true (hrooted.symm.trans habs)
  rw [canonicalize_of_directory ha.1 ha.2, hsame] at h
  rw [canonicalize_of_directory hb hroot]
  dsimp only at h ⊢
  split_ifs at h ⊢
  exact h

/-! ### The names -/

theorem CanonicalPath.gitSource {intent : SynchronizationIntent} (h : CanonicalPath intent.fromLocal) :
    Path.clean (gitReplicaIntent intent).fromLocal.toList =
      intent.fromLocal.toList ++ "/.git".toList := by
  obtain ⟨es, hne, hes, hbelow⟩ := Path.exists_names h.1 h.2.1 h.2.2
  have hall : ∀ e ∈ es ++ [".git".toList], Path.Name e := by
    grind [Path.Name]
  have happend : intent.fromLocal.toList ++ "/.git".toList = Path.below (es ++ [".git".toList]) := by
    rw [Path.below_append, ← hbelow]
    rfl
  have hnil : intent.fromLocal.toList ≠ [] := by
    rw [hbelow, Path.below_eq_intercalate hne]
    exact List.cons_ne_nil _ _
  rw [gitReplicaIntent, String.toList_ofList, Path.clean_join (by decide), Path.join, if_pos hnil,
    happend]
  exact (congrArg Path.clean happend).trans (Path.clean_below_root hall (by simp))

theorem mem_sessionNames {intent : SynchronizationIntent} {connName name : String}
    (h : CanonicalPath intent.fromLocal) (hname : name ∈ sessionNames hash connName intent) :
    ∃ sub ∈ [[], "/.git".toList], ∃ rest, name = graftSyncNamePrefix ++ hash (connName.toList ++
      '\x00' :: (intent.fromLocal.toList ++ sub) ++ '\x00' :: rest) := by
  rcases List.mem_cons.1 hname with rfl | hname
  · refine ⟨[], by simp, Path.clean intent.toRemote.toList, ?_⟩
    rw [syncSessionName, List.append_nil, h.2.1]
  · split_ifs at hname
    · grind [syncSessionName, CanonicalPath.gitSource]
    · cases hname

theorem source_of_name (hhash : Function.Injective hash) {connName : String}
    {x x' z z' : List Char} (hx : '\x00' ∉ x) (hx' : '\x00' ∉ x')
    (h : graftSyncNamePrefix ++ hash (connName.toList ++ '\x00' :: x ++ '\x00' :: z) =
      graftSyncNamePrefix ++ hash (connName.toList ++ '\x00' :: x' ++ '\x00' :: z')) : x = x' := by
  have hlist := hhash (by simpa using h)
  simp only [List.append_cancel_left_eq, List.cons.injEq, true_and] at hlist
  exact ((Separator.append_cons_inj_of_first hx hx').1 hlist).1

theorem disjoint_names (hhash : Function.Injective hash) {connName : String}
    {i j : SynchronizationIntent} (hi : CanonicalPath i.fromLocal) (hj : CanonicalPath j.fromLocal)
    (hinul : '\x00' ∉ i.fromLocal.toList) (hjnul : '\x00' ∉ j.fromLocal.toList)
    (hne : i.fromLocal ≠ j.fromLocal)
    (hij : ¬ i.fromLocal.toList ++ ['/'] <+: j.fromLocal.toList)
    (hji : ¬ j.fromLocal.toList ++ ['/'] <+: i.fromLocal.toList) :
    List.Disjoint (sessionNames hash connName i) (sessionNames hash connName j) := by
  intro name hni hnj
  obtain ⟨sub, hsub, z, rfl⟩ := mem_sessionNames hi hni
  obtain ⟨sub', hsub', z', heq⟩ := mem_sessionNames hj hnj
  have hnul : ∀ {sub}, sub ∈ [[], "/.git".toList] → '\x00' ∉ sub := by decide
  have hsource := source_of_name hhash (by simp [hinul, hnul hsub]) (by simp [hjnul, hnul hsub']) heq
  simp only [List.mem_cons, List.not_mem_nil, or_false] at hsub hsub'
  rcases hsub with rfl | rfl <;> rcases hsub' with rfl | rfl
  · exact hne (String.toList_inj.1 (by simpa using hsource))
  · exact hji ⟨".git".toList, by simpa using hsource.symm⟩
  · exact hij ⟨".git".toList, by simpa using hsource⟩
  · exact hne (String.toList_inj.1 (List.append_cancel_right hsource))

theorem nodup_sessionNames (hhash : Function.Injective hash) {connName : String}
    {i : SynchronizationIntent} (hi : CanonicalPath i.fromLocal) (hnul : '\x00' ∉ i.fromLocal.toList) :
    (sessionNames hash connName i).Nodup := by
  rw [sessionNames, List.nodup_cons]
  split_ifs
  · refine ⟨fun h => ?_, List.nodup_singleton _⟩
    have heq := List.mem_singleton.1 h
    rw [syncSessionName, syncSessionName, hi.2.1, hi.gitSource] at heq
    have hsource := source_of_name hhash hnul (by simp [hnul]) heq
    simp at hsource
  · simp

theorem establishSynchronization_congr {m : Manager} {o : Outcomes} {i j : SynchronizationIntent}
    (h : canonicalizeSyncFromLocal conn.localRoot i.fromLocal =
      canonicalizeSyncFromLocal conn.localRoot j.fromLocal)
    (hsame : { i with fromLocal := j.fromLocal } = j) :
    establishSynchronization hash conn m o i = establishSynchronization hash conn m o j := by
  have hplan : plan conn i = plan conn j := by
    rw [← hsame]
    simp only [plan, h]
  rw [establishSynchronization, establishSynchronization, hplan]

/-- **Active synchronizations are disjoint and have names of their own.** -/
theorem active_syncs_disjoint (hash : List Char → String) (hhash : Function.Injective hash)
    (name localRoot : String) (conn : Connection)
    (hrun : (calls hash).Reachable ⟨name, localRoot, ∅, false⟩ conn) :
    (∀ k ∈ conn.synchronizations, CanonicalPath k) ∧
      (∀ k ∈ conn.synchronizations, ∀ k' ∈ conn.synchronizations, k ≠ k' →
        ¬ k.toList ++ ['/'] <+: k'.toList) ∧
      (∀ (a b : String) (m : Manager) (o : Outcomes) (intent : SynchronizationIntent), b ≠ "" →
        directory conn.localRoot a = directory conn.localRoot b →
        (establishSynchronization hash conn m o { intent with fromLocal := a }).error = none →
          establishSynchronization hash conn m o { intent with fromLocal := a } =
            establishSynchronization hash conn m o { intent with fromLocal := b }) ∧
      ((∀ k ∈ conn.synchronizations, '\x00' ∉ k.toList) →
        (conn.intents.flatMap (sessionNames hash conn.name)).Nodup) := by
  have hdisjoint := disjoint_of_reachable hrun
  refine ⟨hdisjoint.canonical, hdisjoint.apart, ?_, fun hnul => ?_⟩
  · intro a b m o intent hb hsame herror
    cases ha : canonicalizeSyncFromLocal conn.localRoot a with
    | error err =>
      simp only [establishSynchronization, plan, ha] at herror
      cases herror
    | ok k =>
      exact establishSynchronization_congr (ha.trans (canonicalize_directory hb hsame ha).symm) rfl
  · have hkey : ∀ i ∈ conn.intents, i.fromLocal ∈ conn.synchronizations := by
      intro i hi
      obtain ⟨e, he, -⟩ := mem_intents.1 hi
      exact AList.lookup_isSome.1 (Option.isSome_of_mem he)
    refine List.nodup_flatMap.2 ⟨fun i hi =>
      nodup_sessionNames hhash (hdisjoint.canonical _ (hkey i hi)) (hnul _ (hkey i hi)), ?_⟩
    have hpairs : conn.intents.Pairwise fun i j => i.fromLocal ≠ j.fromLocal :=
      List.pairwise_map.2 (List.nodupKeys_iff_pairwise.1 conn.synchronizations.nodupKeys)
    refine hpairs.imp_of_mem fun hi hj hne => ?_
    have hi := hkey _ hi
    have hj := hkey _ hj
    exact disjoint_names hhash (hdisjoint.canonical _ hi) (hdisjoint.canonical _ hj) (hnul _ hi)
      (hnul _ hj) hne (hdisjoint.apart _ hi _ hj hne) (hdisjoint.apart _ hj _ hi hne.symm)

/-- A source with a replica, and another one. -/
theorem active_syncs_disjoint_two :
    ∃ conn, (calls String.ofList).Reachable ⟨"a", "/p", ∅, false⟩ conn ∧
      conn.synchronizations.keys = ["/p/doc", "/p/src"] ∧
      (conn.intents.flatMap (sessionNames String.ofList conn.name)).Nodup := by
  have hrun : (calls String.ofList).Reachable ⟨"a", "/p", ∅, false⟩ _ :=
    (Machine.Run.refl.step (e := .establish .empty (succeeds fun s => s)
      { syncSrc with syncGit := true }) trivial trivial).step
      (e := .establish .empty (succeeds fun s => s) syncDoc) trivial trivial
  set conn := (calls String.ofList).fire _ (.establish .empty (succeeds fun s => s) syncDoc)
  have hkeys : conn.synchronizations.keys = ["/p/doc", "/p/src"] := by decide +kernel
  refine ⟨conn, hrun, hkeys, (active_syncs_disjoint String.ofList (fun _ _ => String.ofList_injective)
    "a" "/p" conn hrun).2.2.2 fun k hk => ?_⟩
  rw [AList.mem_keys, hkeys] at hk
  revert k
  decide

/-! ### What a request leaves in the configuration -/

/-- **Another synchronization is lost exactly if it is not active**: after a request for one source
the connection's entries for other sources are all in the configuration if and only if the request
has failed, or they were all among the active synchronizations before it. -/
theorem other_syncs_kept_iff (hash shortHash : List Char → String) (homeDir identity : String)
    (name localRoot : String) (conn : Connection)
    (hrun : (calls hash).Reachable ⟨name, localRoot, ∅, false⟩ conn)
    (config : List ConnectionConfig) (conf : ConnectionConfig)
    (hconf : config.find? (·.name = conn.name) = some conf) (m : Manager) (o : Outcomes)
    (found : Lookups) (req : SyncRequest) :
    let source := canonicalFromLocal conn.localRoot req.sourceDir
    let r := syncFilesToConnection hash shortHash homeDir identity config conn m o found req
    (∃ conf', r.config.find? (·.name = conn.name) = some conf' ∧
        otherSyncs conf source ⊆ otherSyncs conf' source) ↔
      r.error ≠ none ∨ otherSyncs conf source ⊆ conn.intents := by
  intro source r
  have hdisjoint := disjoint_of_reachable hrun
  rcases syncFilesToConnection_config hash shortHash homeDir identity config conn m o found req with
    ⟨herror, hsame⟩ | ⟨intent, hsource, hestablish, hok, hconfig⟩
  · exact iff_of_true ⟨conf, by rw [hsame, hconf], List.Subset.refl _⟩ (.inl herror)
  have hsource' : source = intent.fromLocal := by simp only [source, canonicalFromLocal, hsource]
  obtain ⟨hname, hothers⟩ := establishSynchronization_intents
    (fun k hk => (hdisjoint.canonical k hk).1) hsource rfl hestablish
  set conn' := (establishSynchronization hash conn m o intent).conn with hconn'
  -- the entries are now the active synchronizations, whose sources are canonical
  have hfind : r.config.find? (·.name = conn.name) =
      some { conf with synchronizations := conn'.intents } := by
    rw [hconfig, updateSynchronizations, hname, Config.find?_updateConnection ?_, hconf,
      Option.map_some]
    exact fun _ => rfl
  have hcanonical : ∀ a ∈ conn'.intents, ∀ root, canonicalFromLocal root a.fromLocal = a.fromLocal := by
    intro a ha root
    obtain ⟨e, he, -⟩ := mem_intents.1 ha
    rw [canonicalFromLocal, (hdisjoint.establish m o intent).fixed a.fromLocal
      (AList.lookup_isSome.1 (Option.isSome_of_mem he)) root]
  have hmem : ∀ s, s ∈ otherSyncs { conf with synchronizations := conn'.intents } source ↔
      s ∈ conn'.intents ∧ s.fromLocal ≠ source := by
    intro s
    simp only [otherSyncs, canonicalizeSyncIntentConfigs, List.mem_filter, List.mem_map,
      decide_eq_true_eq]
    refine and_congr_left fun _ => ⟨?_, fun hs => ⟨s, hs, by rw [hcanonical s hs]⟩⟩
    rintro ⟨a, ha, rfl⟩
    rwa [hcanonical a ha]
  have hkept : otherSyncs conf source ⊆ otherSyncs { conf with synchronizations := conn'.intents }
      source ↔ otherSyncs conf source ⊆ conn.intents := by
    refine forall_congr' fun s => imp_congr_right fun hs => ?_
    have hne : s.fromLocal ≠ source := of_decide_eq_true (List.mem_filter.1 hs).2
    rw [hmem, hothers s (hsource' ▸ hne), and_iff_left hne]
  simp only [hfind, Option.some.injEq, exists_eq_left', hkept]
  exact (or_iff_right (not_not.2 hok)).symm

/-- The theorem with the first one active, as it is configured, at the request for the second. -/
theorem other_syncs_kept_active :
    ∃ conf', (syncFilesToConnection String.ofList String.ofList "/home/u" "me" [confA [syncSrc]]
        connSrc .empty (succeeds fun s => s) ⟨true, true, true⟩ requestDoc).config.find?
          (·.name = "a") = some conf' ∧
      otherSyncs (confA [syncSrc]) "/p/doc" = [{ syncSrc with fromLocal := "/p/src" }] ∧
      otherSyncs (confA [syncSrc]) "/p/doc" ⊆ otherSyncs conf' "/p/doc" := by
  have hrun : (calls String.ofList).Reachable connA ((calls String.ofList).fire connA
      (.establish .empty (succeeds fun s => s) syncSrc)) := Machine.Run.refl.step trivial trivial
  have hother : otherSyncs (confA [syncSrc]) "/p/doc" = [{ syncSrc with fromLocal := "/p/src" }] := by
    decide +kernel
  have hsource : canonicalFromLocal connSrc.localRoot requestDoc.sourceDir = "/p/doc" := by
    decide +kernel
  have hkept := (other_syncs_kept_iff String.ofList String.ofList "/home/u" "me" "a" "/p" connSrc hrun
    [confA [syncSrc]] (confA [syncSrc]) rfl .empty (succeeds fun s => s) ⟨true, true, true⟩
    requestDoc).2 (.inr (by rw [hsource, hother]; decide +kernel))
  rw [hsource] at hkept
  obtain ⟨conf', hfind, hsub⟩ := hkept
  exact ⟨conf', hfind, hother, hsub⟩

/-- Both are configured and none is active, as after a start at which the connection was not up: the
request for the second succeeds, and the first is gone from the configuration. -/
theorem inactive_sync_lost :
    let r := syncFilesToConnection String.ofList String.ofList "/home/u" "me"
      [confA [syncSrc, syncDoc]] connA .empty (succeeds fun s => s) ⟨true, true, true⟩ requestDoc
    r.error.isNone ∧ r.config.map (·.synchronizations.map (·.fromLocal)) = [["/p/doc"]] := by
  decide +kernel

end Graft.Sync
