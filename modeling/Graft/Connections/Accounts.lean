import Graft.Connections.Manager
import Graft.Library.Index
import Graft.Library.RefCount
import Graft.Library.Table

/-!
# The accounts of the connection manager

A daemon's `refCount` is meant to be the number of registered connections that use it.  The
manager keeps it by hand, over several critical sections: an operation takes a reference before
its connection is registered, and gives it up, or moves it to another daemon, when its
initialization fails or the daemon is superseded.
-/

namespace Graft.Connections

open Function (update update_self update_of_ne)
open RefCount

/-! ### What the counts are about -/

def Pc.busy : Pc → Bool
  | .idle | .done _ => false
  | _ => true

/-- The daemon the operation will leave if it turns out to be superseded. -/
def Pc.leaving : Pc → Option ℕ
  | .creating d | .joining _ d true | .reporting _ d | .following _ d => some d
  | _ => none

/-- The daemon to which the operation has moved its reference, but not yet its connection. -/
def Pc.target : Pc → Option ℕ
  | .moved _ _ e => some e
  | _ => none

def Pc.runs : Pc → Option ℕ
  | .transport _ d _ | .reassigning _ d | .reporting _ d | .ensuring _ d _ => some d
  | _ => none

namespace Manager

def Quiescent (w : Manager) : Prop := ∀ t < w.opCount, (w.op t).pc.busy = false

/-- The number of registered connections that use daemon `d`. -/
def users (w : Manager) (d : ℕ) : ℕ := w.registered.countP (·.daemon = d)

def InMap (w : Manager) (d : ℕ) : Prop := ∃ key, w.daemons.lookup key = some d

def Free (w : Manager) (name : String) : Prop :=
  ∀ t < w.opCount, (w.op t).pc.busy = true → (w.op t).name ≠ name

/-- Some operation has moved to daemon `e`, or is to move to it. -/
def Awaited (w : Manager) (e : ℕ) : Prop :=
  ∃ t < w.opCount, (w.op t).pc.target = some e ∨
    ((w.op t).pc.leaving.bind fun d => (w.daemon d).supersededBy) = some e

def daemonOf (w : Manager) (name : String) : Option ℕ :=
  (w.connections.lookup name).map fun c => (w.conn c).daemon

/-- Every connection that uses daemon `d` belongs to operation `t` or to one that waits for the
daemon's initialization, and nobody is to move to `d`. -/
def Settling (w : Manager) (t d : ℕ) : Prop :=
  ¬ w.Awaited d ∧ ∀ n ∈ w.connections.keys, w.daemonOf n = some d →
    ∃ u < w.opCount, (w.op u).name = n ∧ (u = t ∨ (w.op u).pc.leaving = some d)

end Manager

/-- The steps under which the counts stay exact:

* an operation begins only when no other one is in flight under its name;
* no local root overlaps with that of a registered connection;
* a daemon is superseded only when all its references are about to be moved;
* an operation's context ends only while its daemon is not superseded;
* the last reference of a daemon is given up only when nobody is to move to it. -/
def Careful (w : Manager) : Event → Prop
  | .callInitialize name destURL _ => w.Free (if name = "" then destURL.host else name)
  | .callRemove name => w.Free name
  | .step _ (.overlap _) => False
  | .step t (.supersede _ d _) => w.Settling t d
  | .step _ (.canceled _ d _) => (w.daemon d).supersededBy = none
  | .step _ (.destroy _ d) => (w.daemon d).refCount ≤ 1 → ¬ w.Awaited d
  | .step _ (.drop c) =>
    (w.daemon (w.conn c).daemon).refCount ≤ 1 → ¬ w.Awaited (w.conn c).daemon
  | _ => True

namespace Manager

instance (w : Manager) : Decidable w.Quiescent := by
  unfold Quiescent
  infer_instance

instance (w : Manager) (name : String) : Decidable (w.Free name) := by
  unfold Free
  infer_instance

instance (w : Manager) (e : ℕ) : Decidable (w.Awaited e) := by
  unfold Awaited
  infer_instance

instance (w : Manager) (t d : ℕ) : Decidable (w.Settling t d) := by
  unfold Settling
  infer_instance

end Manager

instance (w : Manager) (e : Event) : Decidable (Careful w e) := by
  -- not `cases`, which puts proofs of equations into the instance
  apply Event.casesOn (motive := fun e => Decidable (Careful w e)) e
  case step =>
    intro t s
    apply Step.casesOn (motive := fun s => Decidable (Careful w (.step t s))) s <;> intros <;>
      dsimp only [Careful] <;> infer_instance
  all_goals
    intros
    dsimp only [Careful]
    infer_instance

/-! ### The invariant -/

namespace Manager

/-- Operation `t` is in flight under the name. -/
def Busy (w : Manager) (t : ℕ) (name : String) : Prop :=
  (w.op t).pc.busy = true ∧ (w.op t).name = name

def refs (w : Manager) (d : ℕ) : ℤ := (w.daemon d).refCount

/-- The connection under the name is `c`, and uses daemon `d`. -/
def Uses (w : Manager) (name : String) (c d : ℕ) : Prop :=
  w.connections.lookup name = some c ∧ (w.conn c).daemon = d

theorem Uses.daemonOf {w : Manager} {name : String} {c d : ℕ} (h : w.Uses name c d) :
    w.daemonOf name = some d := by
  simp [Manager.daemonOf, h.1, h.2]

end Manager

/-- What operation `op` owns, and where. -/
def OpOk (w : Manager) (held : String → Option ℕ) (op : Op) : Prop :=
  match op.pc with
  | .idle | .done _ => True
  | .looking | .finding => held op.name = w.daemonOf op.name
  | .acquiring | .connecting | .inserting =>
    held op.name = none ∧ w.connections.lookup op.name = none
  | .creating d => held op.name = some d ∧ w.connections.lookup op.name = none
  | .joining c d _ | .transport c d _ | .reassigning c d | .reporting c d | .ensuring c d _
  | .following c d | .ended c d _ | .refreshing c d =>
    held op.name = some d ∧ w.Uses op.name c d
  | .moved c d e =>
    held op.name = some e ∧ w.Uses op.name c d ∧ (w.daemon d).supersededBy ≠ none
  | .removing c => ∃ d, held op.name = some d ∧ w.Uses op.name c d

/-- The operations: each name has at most one in flight, and else owns what its connection uses. -/
structure Ops (w : Manager) (held : String → Option ℕ) : Prop where
  ok : ∀ t, OpOk w held (w.op t)
  idle : ∀ n, (∀ t, ¬ w.Busy t n) → held n = w.daemonOf n
  alone : ∀ t u n, w.Busy t n → w.Busy u n → t = u
  unbegun : ∀ t, w.opCount ≤ t → (w.op t).pc = .idle

structure Table (w : Manager) (held : String → Option ℕ) : Prop where
  exact : Exact held w.refs
  named : ∀ n c, w.connections.lookup n = some c → (w.conn c).name = n ∧ c < w.connCount
  mapped : ∀ k d, w.daemons.lookup k = some d ↔
    (w.daemon d).mapKey = k ∧ 0 < w.refs d ∧ (w.daemon d).supersededBy = none
  unborn : ∀ d, w.daemonCount ≤ d → w.refs d = 0 ∧ (w.daemon d).supersededBy = none
  destroyed : ∀ d, (w.daemon d).destroyed = true →
    w.refs d = 0 ∧ (w.daemon d).supersededBy = none

/-- The map of the daemons is an index of those that are referenced and not superseded. -/
theorem mapped_iff_indexes {w : Manager} :
    (∀ k d, w.daemons.lookup k = some d ↔
      (w.daemon d).mapKey = k ∧ 0 < w.refs d ∧ (w.daemon d).supersededBy = none) ↔
    Indexes w.daemons (fun d => 0 < w.refs d ∧ (w.daemon d).supersededBy = none)
      fun d => (w.daemon d).mapKey :=
  forall₂_congr fun k d => by rw [and_comm (a := (w.daemon d).mapKey = k)]

structure Inits (w : Manager) : Prop where
  running : ∀ t d, (w.op t).pc.runs = some d → (w.daemon d).init = .running
  sole : ∀ t u d, (w.op t).pc.runs = some d → (w.op u).pc.runs = some d → t = u
  superseded : ∀ d, (w.daemon d).supersededBy ≠ none →
    (w.daemon d).init = .running ∨ (w.daemon d).init = .finished .superseded

/-- Who holds a superseded daemon is about to leave it for a live one. -/
structure Moves (w : Manager) (held : String → Option ℕ) : Prop where
  target : ∀ d e n, (w.daemon d).supersededBy = some e → held n = some d →
    0 < w.refs e ∧ (w.daemon e).supersededBy = none
  leaving : ∀ d n, (w.daemon d).supersededBy ≠ none → held n = some d →
    ∃ t, (w.op t).name = n ∧ (w.op t).pc.leaving = some d

/-- **The invariant.**  `held n` is the daemon of which the name `n` owns a reference. -/
structure Accounts (w : Manager) (held : String → Option ℕ) : Prop where
  ops : Ops w held
  table : Table w held
  inits : Inits w
  moves : Moves w held

/-! ### What a step leaves alone -/

section AddRefs

variable (w : Manager) (d : ℕ) (k : ℤ)

theorem refs_addRefs : (w.addRefs d k).refs = update w.refs d (w.refs d + k) := by
  funext d'
  by_cases hd : d' = d
  · subst hd
    simp [Manager.refs, Manager.addRefs, Manager.setDaemon]
  · simp [Manager.refs, Manager.addRefs, Manager.setDaemon, hd]

theorem daemon_addRefs (d' : ℕ) : ((w.addRefs d k).daemon d') =
    { w.daemon d' with refCount := (w.addRefs d k).refs d' } := by
  by_cases hd : d' = d
  · subst hd
    simp [Manager.refs, Manager.addRefs, Manager.setDaemon]
  · simp [Manager.refs, Manager.addRefs, Manager.setDaemon, hd]

end AddRefs

theorem daemon_updateDaemonRemoteRoots (w : Manager) (d d' : ℕ) :
    (w.updateDaemonRemoteRoots d).daemon d' =
      { w.daemon d' with
        remoteRoots := ((w.updateDaemonRemoteRoots d).daemon d').remoteRoots } := by
  by_cases hd : d' = d
  · subst hd
    simp [Manager.updateDaemonRemoteRoots, Manager.setDaemon]
  · simp [Manager.updateDaemonRemoteRoots, Manager.setDaemon, hd]

theorem init_updateDaemonRemoteRoots (w : Manager) (d d' : ℕ) :
    ((w.updateDaemonRemoteRoots d).daemon d').init = (w.daemon d').init := by
  rw [daemon_updateDaemonRemoteRoots]

theorem daemon_follow (w : Manager) (t c d e d' : ℕ) :
    (Step.fire w t (.follow c d e)).daemon d' =
      { w.daemon d' with refCount := (Step.fire w t (.follow c d e)).refs d' } := by
  change ((w.addRefs d (-1)).addRefs e 1).daemon d' = _
  rw [daemon_addRefs, daemon_addRefs]
  rfl

theorem daemon_rekey {w : Manager} {t c d : ℕ} (hsame : (w.daemon d).mapKey ≠ w.key t) (d' : ℕ) :
    (Step.fire w t (.rekey c d)).daemon d' =
      { w.daemon d' with mapKey := if d' = d then w.key t else (w.daemon d').mapKey } := by
  rw [Step.fire, if_neg hsame]
  by_cases hd : d' = d
  · subst hd
    rw [if_pos rfl]
    exact update_self ..
  · rw [if_neg hd]
    exact update_of_ne hd ..

theorem daemon_supersede (w : Manager) (t c d e d' : ℕ) :
    (Step.fire w t (.supersede c d e)).daemon d' =
      { w.daemon d' with
        supersededBy := if d' = d then some e else (w.daemon d').supersededBy } := by
  by_cases hd : d' = d
  · subst hd
    rw [if_pos rfl]
    exact update_self ..
  · rw [if_neg hd]
    exact update_of_ne hd ..

theorem OpOk.of_not_busy {w : Manager} {held : String → Option ℕ} {op : Op}
    (h : op.pc.busy = false) : OpOk w held op := by
  grind [OpOk, Pc.busy]

theorem OpOk.frame {w w' : Manager} {held held' : String → Option ℕ} {op : Op}
    (h : OpOk w held op) (hheld : held' op.name = held op.name)
    (hlookup : w'.connections.lookup op.name = w.connections.lookup op.name)
    (hconn : ∀ c, w.connections.lookup op.name = some c →
      (w'.conn c).daemon = (w.conn c).daemon)
    (hsup : ∀ d, (w.daemon d).supersededBy ≠ none → (w'.daemon d).supersededBy ≠ none) :
    OpOk w' held' op := by
  have hdaemon : w'.daemonOf op.name = w.daemonOf op.name := by
    unfold Manager.daemonOf
    rw [hlookup]
    cases hl : w.connections.lookup op.name with
    | none => rfl
    | some c => simp [hconn c hl]
  have huses : ∀ {c d}, w.Uses op.name c d → w'.Uses op.name c d :=
    fun hu => ⟨hlookup.trans hu.1, (hconn _ hu.1).trans hu.2⟩
  unfold OpOk at h ⊢
  rw [hheld, hlookup, hdaemon]
  cases hpc : op.pc with
  | moved c d e =>
    simp_all
  | removing c =>
    grind
  | joining | transport | reassigning | reporting | ensuring | following | ended | refreshing =>
    simp_all
  | idle | done => trivial
  | _ => simpa [hpc] using h

/-- A step leaves everything alone that is not about the name `n`. -/
structure Frame (w w' : Manager) (held held' : String → Option ℕ) (n : String) : Prop where
  held : ∀ m, m ≠ n → held' m = held m
  lookup : ∀ m, m ≠ n → w'.connections.lookup m = w.connections.lookup m
  conn : ∀ m c, m ≠ n → w.connections.lookup m = some c →
    (w'.conn c).daemon = (w.conn c).daemon
  superseded : ∀ d, (w.daemon d).supersededBy ≠ none → (w'.daemon d).supersededBy ≠ none

theorem Frame.daemonOf {w w' : Manager} {held held' : String → Option ℕ} {n m : String}
    (h : Frame w w' held held' n) (hm : m ≠ n) : w'.daemonOf m = w.daemonOf m := by
  unfold Manager.daemonOf
  rw [h.lookup m hm]
  cases hl : w.connections.lookup m with
  | none => rfl
  | some c => simp [h.conn m c hm hl]

section Step

variable {w w' : Manager} {held held' : String → Option ℕ} {t : ℕ} {pc : Pc}

theorem Ops.step (h : Ops w held) (hbusy : (w.op t).pc.busy = true)
    (hop : w'.op = update w.op t { w.op t with pc := pc }) (hcount : w'.opCount = w.opCount)
    (hf : Frame w w' held held' (w.op t).name) (hok : OpOk w' held' { w.op t with pc := pc })
    (hidle : pc.busy = false → held' (w.op t).name = w'.daemonOf (w.op t).name) :
    Ops w' held' := by
  have hself : w'.op t = { w.op t with pc := pc } := by rw [hop, update_self]
  have hother : ∀ u, u ≠ t → w'.op u = w.op u := fun u hu => by rw [hop, update_of_ne hu]
  have hold : ∀ {u n}, w'.Busy u n → w.Busy u n := by
    intro u n hb
    by_cases hu : u = t
    · subst hu
      rw [Manager.Busy, hself] at hb
      exact ⟨hbusy, hb.2⟩
    · rwa [Manager.Busy, hother u hu] at hb
  refine ⟨fun u => ?_, fun n hn => ?_, fun u v n hu hv => h.alone u v n (hold hu) (hold hv),
    fun u hu => ?_⟩
  · by_cases hut : u = t
    · subst hut
      rwa [hself]
    · rw [hother u hut]
      by_cases hb : (w.op u).pc.busy = true
      · have hname : (w.op u).name ≠ (w.op t).name :=
          fun heq => hut (h.alone u t _ ⟨hb, heq⟩ ⟨hbusy, rfl⟩)
        exact (h.ok u).frame (hf.held _ hname) (hf.lookup _ hname)
          (fun c hc => hf.conn _ c hname hc) hf.superseded
      · exact .of_not_busy (by simpa using hb)
  · by_cases hname : n = (w.op t).name
    · subst hname
      refine hidle ?_
      by_contra hb
      exact hn t ⟨by rw [hself]; simpa using hb, by rw [hself]⟩
    · rw [hf.held n hname, hf.daemonOf hname]
      refine h.idle n fun u hu => ?_
      have hut : u ≠ t := by
        rintro rfl
        exact hname hu.2.symm
      exact hn u (by rwa [Manager.Busy, hother u hut])
  · have hut : u ≠ t := by
      rintro rfl
      rw [h.unbegun u (hcount ▸ hu)] at hbusy
      exact absurd hbusy (by simp [Pc.busy])
    rw [hother u hut]
    exact h.unbegun u (hcount ▸ hu)

/-- Operation `t` moves to `pc`; it may end its initialization, but does not start one. -/
theorem Inits.step (h : Inits w) (hop : w'.op = update w.op t { w.op t with pc := pc })
    (hruns : pc.runs = none ∨ pc.runs = (w.op t).pc.runs)
    (hinit : ∀ d, (w'.daemon d).init = (w.daemon d).init ∨
      (w.op t).pc.runs = some d ∧ pc.runs = none)
    (hsup : ∀ d, (w'.daemon d).supersededBy ≠ none →
      (w'.daemon d).init = .running ∨ (w'.daemon d).init = .finished .superseded) : Inits w' := by
  have hself : (w'.op t).pc = pc := by rw [hop, update_self]
  have hother : ∀ u, u ≠ t → w'.op u = w.op u := fun u hu => by rw [hop, update_of_ne hu]
  have hold : ∀ {u d}, (w'.op u).pc.runs = some d → (w.op u).pc.runs = some d := by
    intro u d hr
    by_cases hu : u = t
    · subst hu
      rw [hself] at hr
      rcases hruns with hn | hn
      · simp [hn] at hr
      · rw [← hn, hr]
    · rwa [hother u hu] at hr
  refine ⟨fun u d hr => ?_, fun u v d hu hv => h.sole u v d (hold hu) (hold hv), hsup⟩
  rcases hinit d with hi | ⟨hrun, hnone⟩
  · rw [hi]
    exact h.running u d (hold hr)
  · cases h.sole u t d (hold hr) hrun
    rw [hself, hnone] at hr
    cases hr

theorem Inits.start (h : Inits w) {c d : ℕ} {first : Bool}
    (he : Step.Enabled w t (.start c d first)) : Inits (Step.fire w t (.start c d first)) := by
  obtain ⟨-, hfresh⟩ := he
  have hnone : ∀ u, (w.op u).pc.runs ≠ some d := by
    intro u hu
    rw [h.running u d hu] at hfresh
    cases hfresh
  have hself : (Step.fire w t (.start c d first)).daemon d =
      { w.daemon d with init := .running } := update_self ..
  have hother : ∀ d', d' ≠ d →
      (Step.fire w t (.start c d first)).daemon d' = w.daemon d' :=
    fun d' hd => update_of_ne hd ..
  -- nobody else runs `d`, which is all that `t` runs
  have hcase : ∀ u d', ((Step.fire w t (.start c d first)).op u).pc.runs = some d' →
      u = t ∧ d' = d ∨ u ≠ t ∧ (w.op u).pc.runs = some d' := by
    intro u d' hu
    by_cases hut : u = t
    · subst hut
      simp only [Step.fire, Manager.setPc, update_self, Pc.runs, Option.some.injEq] at hu
      exact .inl ⟨rfl, hu.symm⟩
    · rw [show (Step.fire w t (.start c d first)).op u = w.op u from
        update_of_ne hut ..] at hu
      exact .inr ⟨hut, hu⟩
  refine ⟨fun u d' hr => ?_, fun u v d' hu hv => ?_, fun d' hx => ?_⟩
  · rcases hcase u d' hr with ⟨rfl, rfl⟩ | ⟨-, hr'⟩
    · rw [hself]
    · have hd : d' ≠ d := fun hd => hnone u (hd ▸ hr')
      rw [hother d' hd]
      exact h.running u d' hr'
  · rcases hcase u d' hu with ⟨rfl, rfl⟩ | ⟨-, hu'⟩ <;>
      rcases hcase v _ hv with ⟨rfl, hv'⟩ | ⟨-, hv'⟩
    · rfl
    · exact absurd hv' (hnone v)
    · exact absurd (hv' ▸ hu') (hnone u)
    · exact h.sole u v d' hu' hv'
  · by_cases hd : d' = d
    · subst hd
      rw [hself]
      exact .inl rfl
    · rw [hother d' hd] at hx ⊢
      exact h.superseded d' hx

theorem Moves.keep (h : Moves w held) (hop : w'.op = update w.op t { w.op t with pc := pc })
    (hsup : ∀ d, (w'.daemon d).supersededBy = (w.daemon d).supersededBy) (hrefs : w'.refs = w.refs)
    (hleave : pc.leaving = (w.op t).pc.leaving ∨
      ∀ d, held (w.op t).name = some d → (w.daemon d).supersededBy = none) : Moves w' held := by
  refine ⟨fun d e n hd hheld => ?_, fun d n hd hheld => ?_⟩
  · rw [hsup] at hd
    rw [hrefs, hsup]
    exact h.target d e n hd hheld
  · rw [hsup] at hd
    obtain ⟨u, hname, hu⟩ := h.leaving d n hd hheld
    refine ⟨u, ?_⟩
    by_cases hut : u = t
    · subst hut
      rw [hop, update_self]
      refine ⟨hname, ?_⟩
      rcases hleave with hl | hl
      · rw [hl, hu]
      · exact absurd (hl d (hname ▸ hheld)) hd
    · rw [hop, update_of_ne hut]
      exact ⟨hname, hu⟩

/-- Operation `t` moves to `pc`, and the reference of its name moves to a daemon that is not
superseded, or is given up. -/
theorem Moves.step (h : Moves w held) (hop : w'.op = update w.op t { w.op t with pc := pc })
    (hsup : ∀ d, (w'.daemon d).supersededBy = (w.daemon d).supersededBy)
    (hother : ∀ m, m ≠ (w.op t).name → held' m = held m)
    (hself : ∀ d, held' (w.op t).name = some d → (w.daemon d).supersededBy = none)
    (hpos : ∀ d e m, (w.daemon d).supersededBy = some e → m ≠ (w.op t).name →
      held m = some d → 0 < w'.refs e) : Moves w' held' := by
  refine ⟨fun d e m hd hheld => ?_, fun d m hd hheld => ?_⟩ <;> rw [hsup] at hd <;>
    by_cases hm : m = (w.op t).name
  · subst hm
    exact absurd (hself d hheld) (by simp [hd])
  · rw [hother m hm] at hheld
    rw [hsup]
    exact ⟨hpos d e m hd hm hheld, (h.target d e m hd hheld).2⟩
  · subst hm
    exact absurd (hself d hheld) hd
  · rw [hother m hm] at hheld
    obtain ⟨u, hname, hu⟩ := h.leaving d m hd hheld
    have hut : u ≠ t := by
      rintro rfl
      exact hm hname.symm
    exact ⟨u, by rw [hop, update_of_ne hut]; exact ⟨hname, hu⟩⟩

/-- A step that changes no connection's daemon and no daemon's references. -/
structure Benign (w w' : Manager) : Prop where
  connections : w'.connections = w.connections
  connCount : w'.connCount = w.connCount
  conn : ∀ c, (w'.conn c).daemon = (w.conn c).daemon ∧ (w'.conn c).name = (w.conn c).name
  daemons : w'.daemons = w.daemons
  daemonCount : w'.daemonCount = w.daemonCount
  daemon : ∀ d, (w'.daemon d).mapKey = (w.daemon d).mapKey ∧
    (w'.daemon d).refCount = (w.daemon d).refCount ∧
    (w'.daemon d).supersededBy = (w.daemon d).supersededBy ∧
    (w'.daemon d).destroyed = (w.daemon d).destroyed
  opCount : w'.opCount = w.opCount

theorem Benign.refl (w : Manager) : Benign w w :=
  ⟨rfl, rfl, fun _ => ⟨rfl, rfl⟩, rfl, rfl, fun _ => ⟨rfl, rfl, rfl, rfl⟩, rfl⟩

namespace Benign

variable (hb : Benign w w')
include hb

theorem refs : w'.refs = w.refs := funext fun d => (hb.daemon d).2.1

theorem supersededBy (d : ℕ) : (w'.daemon d).supersededBy = (w.daemon d).supersededBy :=
  (hb.daemon d).2.2.1

theorem daemonOf (n : String) : w'.daemonOf n = w.daemonOf n := by
  simp only [Manager.daemonOf, hb.connections, hb.conn]

theorem table (h : Table w held) : Table w' held where
  exact := hb.refs ▸ h.exact
  named n c hc := by
    rw [(hb.conn c).2, hb.connCount]
    exact h.named n c (hb.connections ▸ hc)
  mapped k d := by
    rw [hb.daemons, (hb.daemon d).1, hb.refs, hb.supersededBy]
    exact h.mapped k d
  unborn d hd := by
    rw [hb.refs, hb.supersededBy]
    exact h.unborn d (hb.daemonCount ▸ hd)
  destroyed d hd := by
    rw [hb.refs, hb.supersededBy]
    exact h.destroyed d ((hb.daemon d).2.2.2 ▸ hd)

theorem setPc (t : ℕ) (pc : Pc) : Benign w (w'.setPc t pc) :=
  ⟨hb.connections, hb.connCount, hb.conn, hb.daemons, hb.daemonCount, hb.daemon, hb.opCount⟩

theorem setDaemon (d : ℕ) (v : Daemon)
    (hv : v.mapKey = (w.daemon d).mapKey ∧ v.refCount = (w.daemon d).refCount ∧
      v.supersededBy = (w.daemon d).supersededBy ∧ v.destroyed = (w.daemon d).destroyed) :
    Benign w (w'.setDaemon d v) := by
  refine ⟨hb.connections, hb.connCount, hb.conn, hb.daemons, hb.daemonCount, fun d' => ?_,
    hb.opCount⟩
  by_cases hd : d' = d
  · subst hd
    simpa [Manager.setDaemon] using hv
  · simpa [Manager.setDaemon, hd] using hb.daemon d'

theorem updateDaemonRemoteRoots (d : ℕ) : Benign w (w'.updateDaemonRemoteRoots d) :=
  hb.setDaemon d { w'.daemon d with remoteRoots := _ } (hb.daemon d)

theorem opOk {op : Op} (h : OpOk w held op) : OpOk w' held op :=
  h.frame rfl (by rw [hb.connections]) (fun c _ => (hb.conn c).1)
    fun d hd => by rwa [hb.supersededBy]

theorem frame (n : String) : Frame w w' held held n :=
  ⟨fun _ _ => rfl, fun _ _ => by rw [hb.connections], fun _ c _ _ => (hb.conn c).1,
    fun d hd => by rwa [hb.supersededBy]⟩

end Benign

end Step

end Graft.Connections
