import Graft.Library.Path
import Graft.Connections.Manager
import Graft.Library.Table

/-!
# Local roots and the working directory (`pkg/connection_manager.go`, `pkg/connection.go`)

A command that names no connection is for the one whose local root the working directory is in;
background connections are left out.  A root is resolved for that: symbolic links are followed, it
is made absolute, and letters lose their case.  `createConnection` refuses a root that is in another
one, or has another one in it, as the roots are written, but for the case of their letters.

The file system does not change.  What the connections are connected to is left out.
-/

namespace Graft.Roots

open Function (update update_self update_of_ne)
open Graft.Connections (hasPathPrefix)

/-! ### The state -/

structure Env where
  /-- `strings.ToLower` -/
  toLower : String → String
  /-- `filepath.EvalSymlinks` -/
  evalSymlinks : String → Option String
  /-- `filepath.Abs` -/
  abs : String → Option String

/-- The form of a path in which the selection compares it. -/
def Env.resolve (env : Env) (path : String) : Option String :=
  ((env.evalSymlinks path).bind env.abs).map env.toLower

structure Connection where
  name : String
  localRoot : String
  remoteRoot : String
  background : Bool
  /-- the local root that it was initialized with -/
  initRoot : String
  /-- there are active synchronizations -/
  synchronizing : Bool

structure Manager where
  connections : AList fun _ : String => ℕ
  conn : ℕ → Connection
  connCount : ℕ

def Manager.init : Manager := ⟨∅, fun _ => ⟨"", "", "", false, "", false⟩, 0⟩

/-- The connection can be selected, and its root may not overlap with others. -/
def Connection.Selectable (conn : Connection) : Prop :=
  conn.background = false ∧ conn.localRoot ≠ ""

instance (conn : Connection) : Decidable conn.Selectable := inferInstanceAs (Decidable (_ ∧ _))

def Overlap (path path' : String) : Prop :=
  (hasPathPrefix path path').isSome ∨ (hasPathPrefix path' path).isSome

instance (path path' : String) : Decidable (Overlap path path') :=
  inferInstanceAs (Decidable (_ ∨ _))

namespace Manager

variable (env : Env) (w : Manager)

def setConn (c : ℕ) (conn : Connection) : Manager := { w with conn := update w.conn c conn }

@[simp] theorem setConn_self (c : ℕ) (conn : Connection) : (w.setConn c conn).conn c = conn :=
  update_self ..

@[simp] theorem setConn_of_ne {c c' : ℕ} (h : c' ≠ c) (conn : Connection) :
    (w.setConn c conn).conn c' = w.conn c' :=
  update_of_ne h ..

def checkOverlappingRoots (localRoot : String) : Prop :=
  ∃ e ∈ w.connections.entries, (w.conn e.2).Selectable ∧
    Overlap (env.toLower localRoot) (env.toLower (w.conn e.2).localRoot)

instance (localRoot : String) : Decidable (w.checkOverlappingRoots env localRoot) :=
  inferInstanceAs (Decidable (∃ e ∈ _, _))

def createConnection (name localRoot remoteRoot : String) (background : Bool) : Manager :=
  if background = false ∧ localRoot ≠ "" ∧ w.checkOverlappingRoots env localRoot then w
  else
    { w.setConn w.connCount ⟨name, localRoot, remoteRoot, background, localRoot, false⟩ with
      connections := w.connections.insert name w.connCount
      connCount := w.connCount + 1 }

/-- `Connection.SetRoots`; it fails if there are active synchronizations. -/
def setRoots (c : ℕ) (localRoot remoteRoot : String) : Manager :=
  if (w.conn c).synchronizing then w
  else
    w.setConn c
      { w.conn c with
        localRoot := if localRoot = "" then (w.conn c).localRoot else localRoot
        remoteRoot := if remoteRoot = "" then (w.conn c).remoteRoot else remoteRoot }

/-- The working directory, resolved, is in the root of the connection. -/
def Matches (cwd : String) (conn : Connection) : Prop :=
  conn.localRoot ≠ "" ∧ ∃ root ∈ env.resolve conn.localRoot, (hasPathPrefix cwd root).isSome

instance (cwd : String) (conn : Connection) : Decidable (Matches env cwd conn) :=
  inferInstanceAs (Decidable (_ ∧ ∃ root ∈ env.resolve conn.localRoot, _))

/-- The connections that match a working directory. -/
def matchingConnections (cwd : String) (allowBackground : Bool) : List ℕ :=
  if cwd = "" then []
  else
    match env.resolve cwd with
    | none => []
    | some cwd =>
      (w.connections.entries.filter fun e =>
        (allowBackground ∨ (w.conn e.2).background = false) ∧ Matches env cwd (w.conn e.2)).map (·.2)

/-- A connection is selected if no other one matches. -/
def matchConnectionByCWD (cwd : String) (allowBackground : Bool) : Option ℕ :=
  match w.matchingConnections env cwd allowBackground with
  | [c] => some c
  | _ => none

end Manager

/-! ### Steps -/

/-- The steps that change connections or their roots. -/
inductive Event
  /-- of `initialize`, for `Initialize` and `Restore` -/
  | createConnection (name localRoot remoteRoot : String) (background : Bool)
  /-- `initialize` has found out the remote root, and sets both -/
  | initSetRoots (c : ℕ) (remoteRoot : String)
  | updateConnectionRoots (name localRoot remoteRoot : String)
  /-- `remove`, or an `initialize` that fails -/
  | delete (name : String)
  /-- a synchronization is recorded, or the last one ends -/
  | setSynchronizing (c : ℕ) (active : Bool)

namespace Event

def Enabled (w : Manager) : Event → Prop
  | initSetRoots c _ | setSynchronizing c _ => c < w.connCount
  | updateConnectionRoots name _ _ => (w.connections.lookup name).isSome
  | createConnection .. | delete _ => True

def fire (env : Env) (w : Manager) : Event → Manager
  | createConnection name localRoot remoteRoot background =>
    w.createConnection env name localRoot remoteRoot background
  | initSetRoots c remoteRoot => w.setRoots c (w.conn c).initRoot remoteRoot
  | updateConnectionRoots name localRoot remoteRoot =>
    match w.connections.lookup name with
    | none => w
    | some c => w.setRoots c localRoot remoteRoot
  | delete name => { w with connections := w.connections.erase name }
  | setSynchronizing c active => w.setConn c { w.conn c with synchronizing := active }

end Event

def roots (env : Env) : Machine Manager Event := ⟨Event.Enabled, fun w e => e.fire env w⟩

/-! ### The condition -/

/-- The root is written as it resolves, but for the case of its letters, or does not resolve. -/
def Env.Plain (env : Env) (root : String) : Prop := ∀ path ∈ env.resolve root, path = env.toLower root

instance (env : Env) (root : String) : Decidable (env.Plain root) :=
  inferInstanceAs (Decidable (∀ path ∈ env.resolve root, _))

/-- Connection `c` keeps its root, or gets one that `createConnection` would accept. -/
def Manager.Settable (env : Env) (w : Manager) (c : ℕ) (root : String) : Prop :=
  root = "" ∨ root = (w.conn c).localRoot ∨ (w.conn c).background = true ∨
    env.Plain root ∧ ∀ e ∈ w.connections.entries, e.2 ≠ c → (w.conn e.2).Selectable →
      ¬ Overlap (env.toLower root) (env.toLower (w.conn e.2).localRoot)

instance (env : Env) (w : Manager) (c : ℕ) (root : String) : Decidable (w.Settable env c root) :=
  inferInstanceAs (Decidable (_ ∨ _ ∨ _ ∨ _ ∧ _))

/-- Connections are created with roots that are written as they resolve, and a root is changed only
to one that overlaps with no other. -/
def Canonical (env : Env) (w : Manager) : Event → Prop
  | .createConnection _ localRoot _ background =>
    background = true ∨ localRoot = "" ∨ env.Plain localRoot
  | .initSetRoots c _ => w.Settable env c (w.conn c).initRoot
  | .updateConnectionRoots name localRoot _ =>
    ∀ c ∈ w.connections.lookup name, w.Settable env c localRoot
  | _ => True

/-! ### Roots that begin a path -/

theorem hasPathPrefix_eq_some {path start : String} {after : List Char} :
    hasPathPrefix path start = some after ↔
      path.toList = start.toList ++ after ∧ ∀ c ∈ after.head?, c = '/' := by
  unfold hasPathPrefix
  constructor
  · intro h
    split_ifs at h with hstart
    obtain ⟨rest, hrest⟩ := hstart
    rw [← hrest, List.drop_left] at h
    rw [← hrest]
    cases rest with
    | nil =>
      simp_all
    | cons c rest =>
      grind
  · rintro ⟨hpath, hhead⟩
    rw [if_pos ⟨after, hpath.symm⟩, hpath, List.drop_left]
    cases after with
    | nil => rfl
    | cons c rest => exact if_pos (hhead c rfl)

theorem hasPathPrefix_isSome {path start : String} :
    (hasPathPrefix path start).isSome ↔ Path.Within path.toList start.toList := by
  rw [Option.isSome_iff_exists]
  exact exists_congr fun _ => hasPathPrefix_eq_some

theorem overlap_of_hasPathPrefix {path start start' : String}
    (h : (hasPathPrefix path start).isSome) (h' : (hasPathPrefix path start').isSome) :
    Overlap start start' := by
  grind [Overlap, hasPathPrefix_isSome, Path.Within.total]

theorem Overlap.symm {path path' : String} (h : Overlap path path') : Overlap path' path := Or.symm h

/-! ### The invariant -/

/-- Roots are written as they resolve, and no two overlap. -/
structure Inv (env : Env) (w : Manager) : Prop where
  names : ∀ name c, w.connections.lookup name = some c → (w.conn c).name = name ∧ c < w.connCount
  plain : ∀ name c, w.connections.lookup name = some c → (w.conn c).Selectable →
    env.Plain (w.conn c).localRoot
  apart : ∀ name c name' c', w.connections.lookup name = some c →
    w.connections.lookup name' = some c' → c ≠ c' → (w.conn c).Selectable →
    (w.conn c').Selectable →
      ¬ Overlap (env.toLower (w.conn c).localRoot) (env.toLower (w.conn c').localRoot)

namespace Inv

variable {env : Env} {w : Manager} {name : String} {c : ℕ}

theorem init (env : Env) : Inv env .init where
  names _ _ hc := nomatch hc
  plain _ _ hc := nomatch hc
  apart _ _ _ _ hc := nomatch hc

/-- Connection `c` changes; if it can be selected its root is written as it resolves, and overlaps
with no other. -/
theorem setConn (h : Inv env w) {conn : Connection} (hname : conn.name = (w.conn c).name)
    (hplain : conn.Selectable → (∃ name, w.connections.lookup name = some c) →
      env.Plain conn.localRoot)
    (hapart : conn.Selectable → ∀ name' c', w.connections.lookup name' = some c' → c' ≠ c →
      (w.conn c').Selectable → (∃ name, w.connections.lookup name = some c) →
        ¬ Overlap (env.toLower conn.localRoot) (env.toLower (w.conn c').localRoot)) :
    Inv env (w.setConn c conn) where
  names name' c' hc' := by
    obtain ⟨hname', hlt⟩ := h.names name' c' hc'
    refine ⟨?_, hlt⟩
    rcases eq_or_ne c' c with rfl | hne
    · rw [Manager.setConn_self, hname, hname']
    · rw [Manager.setConn_of_ne w hne, hname']
  plain name' c' hc' hsel := by
    rcases eq_or_ne c' c with rfl | hne
    · rw [Manager.setConn_self] at hsel ⊢
      exact hplain hsel ⟨name', hc'⟩
    · rw [Manager.setConn_of_ne w hne] at hsel ⊢
      exact h.plain name' c' hc' hsel
  apart name₁ c₁ name₂ c₂ h₁ h₂ hne hsel₁ hsel₂ := by
    rcases eq_or_ne c₁ c with rfl | hc₁
    · rw [Manager.setConn_self] at hsel₁ ⊢
      rw [Manager.setConn_of_ne w hne.symm] at hsel₂ ⊢
      exact hapart hsel₁ name₂ c₂ h₂ hne.symm hsel₂ ⟨name₁, h₁⟩
    rw [Manager.setConn_of_ne w hc₁] at hsel₁ ⊢
    rcases eq_or_ne c₂ c with rfl | hc₂
    · rw [Manager.setConn_self] at hsel₂ ⊢
      exact fun hoverlap => hapart hsel₂ name₁ c₁ h₁ hne hsel₁ ⟨name₂, h₂⟩ hoverlap.symm
    · rw [Manager.setConn_of_ne w hc₂] at hsel₂ ⊢
      exact h.apart name₁ c₁ name₂ c₂ h₁ h₂ hne hsel₁ hsel₂

theorem setRoots (h : Inv env w) {localRoot remoteRoot : String}
    (hok : w.Settable env c localRoot) : Inv env (w.setRoots c localRoot remoteRoot) := by
  unfold Manager.setRoots
  by_cases hsync : (w.conn c).synchronizing = true
  · simp_all
  rw [if_neg hsync]
  -- a root that stays is as it was
  have hsame : ∀ {conn : Connection}, conn.name = (w.conn c).name →
      conn.localRoot = (w.conn c).localRoot → conn.background = (w.conn c).background →
      Inv env (w.setConn c conn) := by
    intro conn hname hroot hbackground
    have hsel : conn.Selectable → (w.conn c).Selectable := by
      simp_all [Connection.Selectable]
    refine h.setConn hname (fun hx hc => ?_) fun hx name' c' hc' hne hx' hc => ?_
    · grind [plain]
    · grind [apart]
  rcases hok with rfl | rfl | hbackground | ⟨hplain, hapart⟩
  · exact hsame rfl rfl rfl
  · exact hsame rfl (ite_self _) rfl
  · refine h.setConn rfl (fun hx => ?_) fun hx => ?_
    · exact absurd hx.1 (by simp [hbackground])
    · exact absurd hx.1 (by simp [hbackground])
  · by_cases hroot : localRoot = ""
    · exact hsame rfl (if_pos hroot) rfl
    · refine h.setConn rfl (fun _ _ => ?_) fun _ name' c' hc' hne hx' _ => ?_
      · simp_all
      · rw [if_neg hroot]
        exact hapart ⟨name', c'⟩ (AList.mem_lookup_iff.1 hc') hne hx'

theorem createConnection (h : Inv env w) {localRoot remoteRoot : String} {background : Bool}
    (hok : background = true ∨ localRoot = "" ∨ env.Plain localRoot) :
    Inv env (w.createConnection env name localRoot remoteRoot background) := by
  unfold Manager.createConnection
  split_ifs with hrefused
  · exact h
  set conn : Connection := ⟨name, localRoot, remoteRoot, background, localRoot, false⟩
  set v := w.setConn w.connCount conn
  have hself : v.conn w.connCount = conn := w.setConn_self ..
  have hother : ∀ {c'}, c' ≠ w.connCount → v.conn c' = w.conn c' := fun hne => w.setConn_of_ne hne _
  have hlookup : ∀ {name' c'}, (w.connections.insert name w.connCount).lookup name' = some c' →
      c' = w.connCount ∧ name' = name ∨
        c' ≠ w.connCount ∧ w.connections.lookup name' = some c' := by
    intro name' c' hc'
    obtain ⟨hname, hc'⟩ | ⟨-, hc'⟩ := lookup_insert_cases hc'
    · exact .inl ⟨hc', hname⟩
    · exact .inr ⟨(h.names name' c' hc').2.ne, hc'⟩
  -- what the check has found, or rather has not
  have hnew : conn.Selectable → env.Plain localRoot ∧
      ∀ name' c', w.connections.lookup name' = some c' → (w.conn c').Selectable →
        ¬ Overlap (env.toLower localRoot) (env.toLower (w.conn c').localRoot) := by
    rintro ⟨hbackground, hroot⟩
    refine ⟨?_, fun name' c' hc' hsel hoverlap => ?_⟩
    · refine (hok.resolve_left ?_).resolve_left hroot
      rw [show background = false from hbackground]
      exact Bool.false_ne_true
    · exact hrefused ⟨hbackground, hroot, ⟨name', c'⟩, AList.mem_lookup_iff.1 hc', hsel, hoverlap⟩
  refine ⟨fun name' c' hc' => ?_, fun name' c' hc' hsel => ?_,
    fun name₁ c₁ name₂ c₂ h₁ h₂ hne hsel₁ hsel₂ => ?_⟩
  · rcases hlookup hc' with ⟨rfl, rfl⟩ | ⟨hne, hc'⟩
    · exact ⟨congrArg Connection.name hself, Nat.lt_succ_self _⟩
    · obtain ⟨hname', hlt⟩ := h.names name' c' hc'
      exact ⟨(congrArg Connection.name (hother hne)).trans hname', hlt.trans (Nat.lt_succ_self _)⟩
  · rcases hlookup hc' with ⟨rfl, -⟩ | ⟨hne, hc'⟩
    · rw [hself] at hsel ⊢
      exact (hnew hsel).1
    · rw [hother hne] at hsel ⊢
      exact h.plain name' c' hc' hsel
  · rcases hlookup h₁ with ⟨rfl, -⟩ | ⟨hc₁, h₁⟩ <;> rcases hlookup h₂ with ⟨rfl, -⟩ | ⟨hc₂, h₂⟩
    · exact absurd rfl hne
    · rw [hself] at hsel₁ ⊢
      rw [hother hc₂] at hsel₂ ⊢
      exact (hnew hsel₁).2 name₂ c₂ h₂ hsel₂
    · rw [hself] at hsel₂ ⊢
      rw [hother hc₁] at hsel₁ ⊢
      exact fun hoverlap => (hnew hsel₂).2 name₁ c₁ h₁ hsel₁ hoverlap.symm
    · rw [hother hc₁] at hsel₁ ⊢
      rw [hother hc₂] at hsel₂ ⊢
      exact h.apart name₁ c₁ name₂ c₂ h₁ h₂ hne hsel₁ hsel₂

theorem fire (h : Inv env w) {e : Event} (hok : Canonical env w e) : Inv env (e.fire env w) := by
  cases e with
  | createConnection name localRoot remoteRoot background => exact h.createConnection hok
  | initSetRoots c remoteRoot => exact h.setRoots hok
  | updateConnectionRoots name localRoot remoteRoot =>
    grind [setRoots, Event.fire, Canonical]
  | delete name =>
    have hsub : ∀ {name' c'}, (w.connections.erase name).lookup name' = some c' →
        w.connections.lookup name' = some c' := fun hc' => (lookup_of_erase hc').2
    exact ⟨fun n c hc => h.names n c (hsub hc), fun n c hc => h.plain n c (hsub hc),
      fun n c n' c' hc hc' => h.apart n c n' c' (hsub hc) (hsub hc')⟩
  | setSynchronizing c active =>
    refine h.setConn rfl (fun hx hc => ?_) fun hx name' c' hc' hne hx' hc => ?_
    · grind [plain, Connection.Selectable]
    · grind [apart, Connection.Selectable]

theorem eq_of_matches (h : Inv env w) {name' : String} {c' : ℕ} {cwd : String}
    (hc : w.connections.lookup name = some c) (hc' : w.connections.lookup name' = some c')
    (hb : (w.conn c).background = false) (hb' : (w.conn c').background = false)
    (hm : Manager.Matches env cwd (w.conn c)) (hm' : Manager.Matches env cwd (w.conn c')) :
    name = name' ∧ c = c' := by
  obtain ⟨hroot, root, hresolve, hin⟩ := hm
  obtain ⟨hroot', root', hresolve', hin'⟩ := hm'
  have heq : c = c' := by
    by_contra hne
    refine h.apart name c name' c' hc hc' hne ⟨hb, hroot⟩ ⟨hb', hroot'⟩ ?_
    rw [← h.plain name c hc ⟨hb, hroot⟩ root hresolve,
      ← h.plain name' c' hc' ⟨hb', hroot'⟩ root' hresolve']
    exact overlap_of_hasPathPrefix hin hin'
  grind [names]

end Inv

/-! ### The results -/

theorem length_le_one_of_forall_eq {α : Type*} {l : List α} (hnodup : l.Nodup)
    (h : ∀ a ∈ l, ∀ b ∈ l, a = b) : l.length ≤ 1 := by
  match l with
  | [] => exact Nat.zero_le _
  | [_] => exact Nat.le_refl _
  | a :: b :: l =>
    have hab : a = b := h a (List.mem_cons_self ..) b (List.mem_cons_of_mem _ (List.mem_cons_self ..))
    exact absurd (hab ▸ List.mem_cons_self ..) (List.nodup_cons.1 hnodup).1

/-- **At most one connection matches a working directory**, if roots are written as they resolve and
are changed only to ones that overlap with no other. -/
theorem selection_unambiguous {env : Env} {w : Manager}
    (h : (roots env).Run (Canonical env) .init w) (cwd : String) :
    (w.matchingConnections env cwd false).length ≤ 1 := by
  have hinv : Inv env w := h.invariant (I := Inv env) (.init env) fun _ _ hw _ hok => hw.fire hok
  unfold Manager.matchingConnections
  split_ifs with hcwd
  · exact Nat.zero_le _
  split
  next => exact Nat.zero_le _
  next path hpath =>
    rw [List.length_map]
    refine length_le_one_of_forall_eq (w.connections.nodupKeys.nodup.filter _) fun e he e' he' => ?_
    obtain ⟨hmem, hsel⟩ := List.mem_filter.1 he
    obtain ⟨hmem', hsel'⟩ := List.mem_filter.1 he'
    obtain ⟨hb, hm⟩ := of_decide_eq_true hsel
    obtain ⟨hb', hm'⟩ := of_decide_eq_true hsel'
    obtain ⟨hname, hc⟩ := hinv.eq_of_matches (AList.mem_lookup_iff.2 hmem)
      (AList.mem_lookup_iff.2 hmem') (hb.resolve_left id)
      (hb'.resolve_left id) hm hm'
    exact Sigma.ext hname (heq_of_eq hc)

instance (env : Env) (w : Manager) (e : Event) : Decidable ((roots env).enabled w e) := by
  cases e <;> simp only [roots, Event.Enabled] <;> infer_instance

instance (env : Env) (w : Manager) (e : Event) : Decidable (Canonical env w e) := by
  cases e <;> simp only [Canonical] <;> infer_instance

/-- A file system without symbolic links, in which every path can be read. -/
def plainEnv : Env where
  toLower s := String.ofList (s.toList.map Char.toLower)
  evalSymlinks path := some (String.ofList (Path.clean path.toList))
  abs path := some path

/-- Two connections side by side, of which one moves. -/
theorem selection_unambiguous_moved :
    ∃ w, (roots plainEnv).Run (Canonical plainEnv) .init w ∧
      w.matchConnectionByCWD plainEnv "/P/c/x" false = some 1 ∧
      w.matchConnectionByCWD plainEnv "/p/a" false = some 0 ∧
      (w.matchingConnections plainEnv "/P/c/x" false).length ≤ 1 := by
  have hexec : ∃ w ∈ (roots plainEnv).exec (Canonical plainEnv) .init
      [.createConnection "a" "/p/a" "" false, .createConnection "b" "/p/b" "" false,
        .createConnection "again" "/p/A/x" "" false, .updateConnectionRoots "b" "/p/c" ""],
      w.matchConnectionByCWD plainEnv "/P/c/x" false = some 1 ∧
        w.matchConnectionByCWD plainEnv "/p/a" false = some 0 := by
    decide +kernel
  obtain ⟨w, hrun, hb, ha⟩ := Machine.exists_run_of_exec _ _ hexec
  exact ⟨w, hrun, hb, ha, selection_unambiguous hrun "/P/c/x"⟩

/-- **A root is given with a slash at its end**: a root in it is accepted, and a directory in both
matches two connections. -/
theorem slash_ambiguous :
    ∃ w, (roots plainEnv).Reachable .init w ∧
      w.matchingConnections plainEnv "/p/q" false = [1, 0] ∧
      w.matchConnectionByCWD plainEnv "/p/q" false = none := by
  have hexec : ∃ w ∈ (roots plainEnv).exec (fun _ _ => True) .init
      [.createConnection "a" "/p/" "" false, .createConnection "b" "/p/q" "" false],
      w.matchingConnections plainEnv "/p/q" false = [1, 0] ∧
        w.matchConnectionByCWD plainEnv "/p/q" false = none := by
    decide +kernel
  exact Machine.exists_run_of_exec _ _ hexec

end Graft.Roots
