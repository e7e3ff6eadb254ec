import Graft.Connections.Roots
import Graft.Library.Location

/-!
# The working directory of a command (`MatchCWD` in `pkg/connection.go`)

A command of a session runs on the connection that is selected by the working directory of the
session, in the remote directory to which that connection maps it.  The selection follows symbolic
links and ignores the case of letters; the mapping compares paths as they are written, first with
the local root and then, in any order, with the sources of the synchronizations.
-/

namespace Graft.Roots

open Graft.Connections (hasPathPrefix)

/-- The operating system.  What `EvalSymlinks` and `Abs` give together is clean and absolute, and
`ToLower` changes letters one by one. -/
structure FileSystem extends Env where
  /-- names that differ in the case of their letters only are the same -/
  foldsCase : Bool
  lower : Char → Char
  toLower_eq : ∀ s, toLower s = String.ofList (s.toList.map lower)
  lower_slash : ∀ c, lower c = '/' ↔ c = '/'
  real_clean : ∀ path p, (evalSymlinks path).bind abs = some p →
    Path.clean p.toList = p.toList ∧ Path.isAbs p.toList = true

/-- The path without symbolic links. -/
def FileSystem.real (fs : FileSystem) (path : String) : Option String :=
  (fs.evalSymlinks path).bind fs.abs

/-- Names as the file system compares them. -/
def FileSystem.fold (fs : FileSystem) (path : String) : String :=
  if fs.foldsCase then fs.toLower path else path

/-- The path from `root` down to the directory `dir`, without symbolic links, if `dir` is in it. -/
def FileSystem.relative (fs : FileSystem) (root dir : String) : Option (List Char) :=
  (fs.real root).bind fun root => (fs.real dir).bind fun dir =>
    (hasPathPrefix (fs.fold dir) (fs.fold root)).map fun after =>
      dir.toList.drop (dir.toList.length - after.length)

/-- `MatchCWD`.  `syncs` has the sources and destinations of the synchronizations, in the order in
which they are tried. -/
def matchCWD (conn : Connection) (syncs : List (String × String)) (dir : String) :
    Option (List Char) :=
  let root :=
    if conn.localRoot ≠ "" ∧ conn.remoteRoot ≠ "" then
      (hasPathPrefix dir conn.localRoot).map (Path.join conn.remoteRoot.toList)
    else none
  match root with
  | some res => some res
  | none => syncs.findSome? fun s => (hasPathPrefix dir s.1).map (Path.join s.2.toList)

/-- A synchronization, in whose source the directory is at `after`, sends the source to its place:
the source is in the local root and its destination is where the remote root has it, or the local root
is in the source and the remote root is where the destination has it. -/
def Aligned (remoteRoot destination rel after : List Char) : Prop :=
  (∃ mid, rel = mid ++ after ∧ Path.clean destination = Path.join remoteRoot mid) ∨
    ∃ mid, after = mid ++ rel ∧ Path.clean remoteRoot = Path.join destination mid

section Mapping

open Graft.Path (below Name)

variable {fs : FileSystem} {conn : Connection} {syncs order : List (String × String)} {dir : String}

/-- A path that names lead down. -/
def Down (rel : List Char) : Prop := ∃ es, (∀ x ∈ es, Name x) ∧ rel = below es

theorem down_of_append {l a r : List Char} (hclean : Path.clean l = l) (habs : Path.isAbs l = true)
    (heq : l = a ++ r) (ha : a ≠ []) (hr : ∀ c ∈ r.head?, c = '/') : Down r := by
  by_cases hroot : l = ['/']
  · subst hroot
    obtain ⟨c, a, rfl⟩ := List.exists_cons_of_ne_nil ha
    have hnil := (List.append_eq_nil_iff.1 (List.cons.inj heq).2.symm).2
    exact ⟨[], by simp, hnil⟩
  · obtain ⟨es, -, hes, rfl⟩ := Path.exists_names habs hclean hroot
    obtain ⟨es₁, es₂, rfl, hr₂, -⟩ := Path.exists_below_of_append hes heq hr
    exact ⟨es₂, fun x hx => hes x (by simp [hx]), hr₂⟩

theorem down_of_hasPathPrefix {root : String} {after : List Char}
    (hclean : Path.clean dir.toList = dir.toList) (habs : Path.isAbs dir.toList = true)
    (hroot : root ≠ "") (h : hasPathPrefix dir root = some after) : Down after := by
  obtain ⟨hdir, hhead⟩ := hasPathPrefix_eq_some.1 h
  refine down_of_append hclean habs hdir (fun hx => hroot ?_) hhead
  rw [← String.toList_inj, hx]
  rfl

theorem FileSystem.toList_fold (fs : FileSystem) (path : String) :
    (fs.fold path).toList = path.toList.map (if fs.foldsCase then fs.lower else id) := by
  unfold fold
  split_ifs
  · rw [fs.toLower_eq, String.toList_ofList]
  · simp

theorem FileSystem.down_relative {root : String} {rel : List Char}
    (h : fs.relative root dir = some rel) : Down rel := by
  simp only [relative, Option.bind_eq_some_iff, Option.map_eq_some_iff] at h
  obtain ⟨root', hroot, dir', hdir, after, hafter, rfl⟩ := h
  obtain ⟨hclean, habs⟩ := fs.real_clean dir dir' hdir
  obtain ⟨heq, hhead⟩ := hasPathPrefix_eq_some.1 hafter
  rw [fs.toList_fold, fs.toList_fold] at heq
  set n := dir'.toList.length - after.length
  have hlen : dir'.toList.length = root'.toList.length + after.length := by
    simpa using congrArg List.length heq
  have hn : n = root'.toList.length := by omega
  refine down_of_append hclean habs (List.take_append_drop n dir'.toList).symm ?_ fun c hc => ?_
  · have hne : root'.toList ≠ [] := by
      rw [← (fs.real_clean root root' hroot).1]
      exact Path.clean_ne_nil _
    rw [ne_eq, List.take_eq_nil_iff, not_or, hn]
    constructor
    · simpa using hne
    · intro hx
      rw [hx] at hlen
      have := List.length_pos_iff.2 hne
      simp at hlen
      omega
  · -- the letter after the root is a slash in the folded path, and so in the path itself
    have hdrop := congrArg (List.drop n) heq
    rw [hn, List.drop_left' (by simp), ← List.map_drop] at hdrop
    rw [hn] at hc
    have hfold := hhead (if fs.foldsCase then fs.lower c else c) (by
      rw [← hdrop, List.head?_map, Option.mem_def, Option.map_eq_some_iff]
      exact ⟨c, hc, by split_ifs <;> rfl⟩)
    split_ifs at hfold
    · exact (fs.lower_slash c).1 hfold
    · exact hfold

theorem Aligned.symm {l r rel after : List Char} (h : Aligned l r rel after) :
    Aligned r l after rel := Or.symm h

/-- One side of the comparison: the source is in the local root. -/
theorem join_eq_of_clean {l r mid after : List Char} (hl : l ≠ []) (hr : r ≠ []) (ha : Down after)
    (hrel : Down (mid ++ after)) (h : Path.clean r = Path.join l mid) :
    Path.join r after = Path.join l (mid ++ after) := by
  obtain ⟨es, hes, rfl⟩ := ha
  obtain ⟨es', hes', heq⟩ := hrel
  obtain ⟨m, es₂, rfl, hafter, rfl⟩ := Path.exists_below_of_append hes' heq.symm (by
    cases es <;> simp)
  have hm : ∀ x ∈ m, Name x := fun x hx => hes' x (by simp [hx])
  rw [← Path.below_append, Path.join_below_eq_iff hr hl hes fun x hx => ?_]
  · have hstack := congrArg Path.stack h
    have habs := congrArg Path.isAbs h
    rw [Path.stack_clean, Path.join, if_pos hl, Path.stack_clean, Path.stack_append hl,
      Path.elements_below fun x hx => (hm x hx).2.2.2, List.foldl_cons, Path.foldl_push_names hm]
      at hstack
    rw [Path.isAbs_clean, Path.isAbs_join hl] at habs
    simp [habs, hstack, Path.push]
  · rcases List.mem_append.1 hx with hx | hx
    · exact hm x hx
    · exact hes x hx

theorem aligned_of_stack {l r : List Char} {es es' t : List (List Char)} (hl : l ≠ [])
    (hes' : ∀ x ∈ es', Name x) (habs : Path.isAbs r = Path.isAbs l)
    (ht : es'.reverse = es.reverse ++ t) (hstack : Path.stack r = t ++ Path.stack l) :
    ∃ mid, below es' = mid ++ below es ∧ Path.clean r = Path.join l mid := by
  have hes : es' = t.reverse ++ es := by
    rw [← List.reverse_inj, ht, List.reverse_append, List.reverse_reverse]
  have htname : ∀ x ∈ t.reverse, Name x := fun x hx => hes' x (by simp [hes, List.mem_reverse.1 hx])
  refine ⟨below t.reverse, by rw [hes, Path.below_append], ?_⟩
  rw [Path.join_below hl htname, Path.clean, habs, hstack, List.reverse_reverse]

/-- **The synchronization takes the directory to the place of the remote root** exactly if it is
aligned with it. -/
theorem join_eq_iff_aligned {l r rel after : List Char} (hl : l ≠ []) (hr : r ≠ []) (hrel : Down rel)
    (ha : Down after) : Path.join r after = Path.join l rel ↔ Aligned l r rel after := by
  constructor
  · intro h
    obtain ⟨es, hes, rfl⟩ := ha
    obtain ⟨es', hes', rfl⟩ := hrel
    obtain ⟨habs, hstack⟩ := (Path.join_below_eq_iff hr hl hes hes').1 h
    rcases List.append_eq_append_iff.1 hstack with ⟨t, ht, hstack⟩ | ⟨t, ht, hstack⟩
    · exact .inl (aligned_of_stack hl hes' habs ht hstack)
    · exact .inr (aligned_of_stack hr hes habs.symm ht hstack)
  · rintro (⟨mid, rfl, h⟩ | ⟨mid, rfl, h⟩)
    · exact join_eq_of_clean hl hr ha hrel h
    · exact (join_eq_of_clean hr hl hrel ha h).symm

/-- Paths below one root are the same only if they are written so. -/
theorem join_eq_iff_eq {l rel after : List Char} (hl : l ≠ []) (hrel : Down rel) (ha : Down after) :
    Path.join l after = Path.join l rel ↔ after = rel := by
  obtain ⟨es, hes, rfl⟩ := ha
  obtain ⟨es', hes', rfl⟩ := hrel
  rw [Path.join_below_eq_iff hl hl hes hes']
  constructor
  · rintro ⟨-, hstack⟩
    rw [List.reverse_inj.1 (List.append_cancel_right hstack)]
  · intro heq
    rw [Path.below_injective (fun x hx => (hes x hx).2.2.2) (fun x hx => (hes' x hx).2.2.2) heq]
    exact ⟨rfl, rfl⟩

theorem matchCWD_of_root (hl : conn.localRoot ≠ "") (hr : conn.remoteRoot ≠ "") {after : List Char}
    (h : hasPathPrefix dir conn.localRoot = some after) :
    matchCWD conn syncs dir = some (Path.join conn.remoteRoot.toList after) := by
  simp [matchCWD, hl, hr, h]

theorem matchCWD_of_not_root (h : hasPathPrefix dir conn.localRoot = none) :
    matchCWD conn syncs dir =
      syncs.findSome? fun s => (hasPathPrefix dir s.1).map (Path.join s.2.toList) := by
  simp [matchCWD, h]

/-- In every order the synchronizations give one result exactly if one of them has the directory, and
each one that has it gives the result. -/
theorem findSome?_perm_iff {α β : Type*} [DecidableEq α] (f : α → Option β) (l : List α) (b : β) :
    (∀ order : List α, order.Perm l → order.findSome? f = some b) ↔
      (∃ a ∈ l, (f a).isSome) ∧ ∀ a ∈ l, ∀ b' ∈ f a, b' = b := by
  constructor
  · intro h
    refine ⟨?_, fun a ha b' hb' => ?_⟩
    · obtain ⟨a, ha, hb⟩ := List.exists_of_findSome?_eq_some (h l (.refl _))
      exact ⟨a, ha, by rw [hb]; rfl⟩
    · -- it may be the first one that is tried
      have hfirst := h (a :: l.erase a) (List.perm_cons_erase ha).symm
      rw [List.findSome?_cons, show f a = some b' from hb'] at hfirst
      exact Option.some.inj hfirst
  · rintro ⟨⟨a, ha, hsome⟩, hall⟩ order hperm
    cases hres : order.findSome? f with
    | none =>
      rw [List.findSome?_eq_none_iff.1 hres a (hperm.mem_iff.2 ha)] at hsome
      cases hsome
    | some b' =>
      obtain ⟨a', ha', hb'⟩ := List.exists_of_findSome?_eq_some hres
      rw [hall a' (hperm.mem_iff.1 ha') b' hb']

theorem localRoot_ne_of_selected {env : Env} {w : Manager} {cwd : String} {allowBackground : Bool}
    {c : ℕ} (h : w.matchConnectionByCWD env cwd allowBackground = some c) :
    (w.conn c).localRoot ≠ "" := by
  have hmem : c ∈ w.matchingConnections env cwd allowBackground := by
    unfold Manager.matchConnectionByCWD at h
    split at h
    next c' hlist =>
      cases h
      rw [hlist]
      exact List.mem_singleton_self c
    next => cases h
  unfold Manager.matchingConnections at hmem
  split_ifs at hmem with hcwd
  · cases hmem
  split at hmem
  next => cases hmem
  next path hpath =>
    obtain ⟨e, he, rfl⟩ := List.mem_map.1 hmem
    obtain ⟨-, hsel⟩ := List.mem_filter.1 he
    exact (of_decide_eq_true hsel).2.1

end Mapping

/-- **Selection and mapping of the working directory**: if the working directory selects a connection
with both roots, then, in whatever order the synchronizations are tried, the mapping gives the remote
root joined with the path from the local root down to the directory, exactly if there is such a path
and the directory is written with it below the local root, or else is not written below the local root,
some synchronization has it as it is written, and each one that has it is aligned with the roots. -/
theorem mapping_agrees_iff (fs : FileSystem) (w : Manager) (cwd : String) (allowBackground : Bool)
    (c : ℕ) (syncs : List (String × String))
    (hsel : w.matchConnectionByCWD fs.toEnv cwd allowBackground = some c)
    (hr : (w.conn c).remoteRoot ≠ "") (hcwd : Path.clean cwd.toList = cwd.toList)
    (habs : Path.isAbs cwd.toList = true) (hsyncs : ∀ s ∈ syncs, s.1 ≠ "" ∧ s.2 ≠ "") :
    (∃ rel ∈ fs.relative (w.conn c).localRoot cwd, ∀ order : List (String × String),
      order.Perm syncs →
        matchCWD (w.conn c) order cwd = some (Path.join (w.conn c).remoteRoot.toList rel)) ↔
    ∃ rel ∈ fs.relative (w.conn c).localRoot cwd,
      hasPathPrefix cwd (w.conn c).localRoot = some rel ∨
      hasPathPrefix cwd (w.conn c).localRoot = none ∧ (∃ s ∈ syncs, (hasPathPrefix cwd s.1).isSome) ∧
        ∀ s ∈ syncs, ∀ after ∈ hasPathPrefix cwd s.1,
          Aligned (w.conn c).remoteRoot.toList s.2.toList rel after := by
  have hl := localRoot_ne_of_selected hsel
  have hremote : (w.conn c).remoteRoot.toList ≠ [] := by simpa using hr
  refine exists_congr fun rel => and_congr_right fun hrel => ?_
  have hdown := FileSystem.down_relative hrel
  cases hroot : hasPathPrefix cwd (w.conn c).localRoot with
  | some after =>
    have hafter := down_of_hasPathPrefix hcwd habs hl hroot
    simp only [matchCWD_of_root hl hr hroot, Option.some.injEq, join_eq_iff_eq hremote hdown hafter,
      reduceCtorEq, false_and, or_false]
    exact ⟨fun h => h syncs (.refl _), fun h _ _ => h⟩
  | none =>
    simp only [matchCWD_of_not_root hroot, reduceCtorEq, false_or, true_and]
    rw [findSome?_perm_iff]
    refine and_congr (by simp) (forall₂_congr fun s hs => ?_)
    have hdest : s.2.toList ≠ [] := by simpa using (hsyncs s hs).2
    constructor
    · intro h after hafter
      have hadown := down_of_hasPathPrefix hcwd habs (hsyncs s hs).1 hafter
      exact (join_eq_iff_aligned hremote hdest hdown hadown).1 (h _ (Option.mem_map_of_mem _ hafter))
    · intro h b hb
      obtain ⟨after, hafter, rfl⟩ := Option.map_eq_some_iff.1 hb
      have hadown := down_of_hasPathPrefix hcwd habs (hsyncs s hs).1 hafter
      exact (join_eq_iff_aligned hremote hdest hdown hadown).2 (h after hafter)

/-- A file system with the directories `/work/p` and `/work/p/src`, in which `/home/p` is a symbolic
link to `/work/p`. -/
def linkedFs : FileSystem where
  toLower s := String.ofList (s.toList.map Char.toLower)
  evalSymlinks path :=
    if path = "/home/p" ∨ path = "/work/p" then some "/work/p"
    else if path = "/home/p/src" ∨ path = "/work/p/src" then some "/work/p/src"
    else none
  abs := some
  foldsCase := false
  lower := Char.toLower
  toLower_eq _ := rfl
  lower_slash c := by
    unfold Char.toLower
    split_ifs with h
    · have hA : (65 : ℕ) ≤ c.val.toNat := h.1
      have hZ : c.val.toNat ≤ 90 := h.2
      have hval : c = '/' ↔ c.val.toNat = 47 := by
        rw [Char.ext_iff, ← UInt32.toNat_inj]
        rfl
      have hup : (c.val + ('a'.val - 'A'.val)).toNat = c.val.toNat + 32 := by
        rw [UInt32.toNat_add, show ('a'.val - 'A'.val).toNat = 32 from rfl]
        omega
      rw [hval, Char.ext_iff, ← UInt32.toNat_inj, hup]
      simp only [show '/'.val.toNat = 47 from rfl]
      omega
    · rfl
  real_clean path p hp := by
    split_ifs at hp <;> cases hp <;> decide +kernel

/-- One connection, for `/work/p`. -/
def workManager : Manager :=
  Manager.init.createConnection linkedFs.toEnv "p" "/work/p" "/srv/p" false

/-- The theorem at a directory that is written below the local root, and at one that is written below
the source of a synchronization. -/
theorem mapping_agrees_below_root :
    linkedFs.relative "/work/p" "/work/p/src" = some "/src".toList ∧
      matchCWD (workManager.conn 0) [] "/work/p/src" = some "/srv/p/src".toList ∧
      matchCWD (workManager.conn 0) [("/home/p", "/srv/p")] "/home/p/src"
        = some "/srv/p/src".toList := by
  have hroot := mapping_agrees_iff linkedFs workManager "/work/p/src" false 0 [] (by decide +kernel)
    (by decide +kernel) (by decide +kernel) (by decide +kernel) (by decide +kernel)
  have hsync := mapping_agrees_iff linkedFs workManager "/home/p/src" false 0
    [("/home/p", "/srv/p")] (by decide +kernel) (by decide +kernel) (by decide +kernel)
    (by decide +kernel) (by decide +kernel)
  have hunder : hasPathPrefix "/home/p/src" "/home/p" = some "/src".toList := by decide +kernel
  have haligned : ∀ s ∈ [("/home/p", "/srv/p")], ∀ after ∈ hasPathPrefix "/home/p/src" s.1,
      Aligned (workManager.conn 0).remoteRoot.toList s.2.toList "/src".toList after := by
    intro s hs after hafter
    rw [List.mem_singleton] at hs
    subst hs
    cases hunder.symm.trans hafter
    exact .inl ⟨[], rfl, by decide +kernel⟩
  have hr : linkedFs.relative "/work/p" "/work/p/src" = some "/src".toList := by decide +kernel
  have hr' : linkedFs.relative "/work/p" "/home/p/src" = some "/src".toList := by decide +kernel
  obtain ⟨rel, hrel, hmap⟩ := hroot.2 ⟨"/src".toList, hr, .inl (by decide +kernel)⟩
  obtain ⟨rel', hrel', hmap'⟩ := hsync.2
    ⟨"/src".toList, hr', .inr ⟨by decide +kernel, by decide +kernel, haligned⟩⟩
  cases hr.symm.trans hrel
  cases hr'.symm.trans hrel'
  exact ⟨hr, (hmap [] (.refl _)).trans (by decide +kernel),
    (hmap' _ (.refl _)).trans (by decide +kernel)⟩

/-- The working directory `/home/p` selects the connection, which does not map it. -/
theorem selected_not_mapped :
    workManager.matchConnectionByCWD linkedFs.toEnv "/home/p" false = some 0 ∧
      (workManager.conn 0).localRoot = "/work/p" ∧ (workManager.conn 0).remoteRoot = "/srv/p" ∧
      linkedFs.relative "/work/p" "/home/p" = some [] ∧
      matchCWD (workManager.conn 0) [] "/home/p" = none := by
  decide +kernel

end Graft.Roots
