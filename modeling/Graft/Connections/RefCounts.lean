import Graft.Connections.Transfers

/-!
# The reference counts of the daemons

`refCount_exact`: in every run whose steps are `Careful`, the counts are exact whenever no operation
is in flight, the daemons in the map are those with a connection, and a daemon is destroyed only
when no connection uses it.

An operation that fails because its local root overlaps with another connection's does not give
its reference up: `overlap_leaks_daemon`.
-/

namespace Graft.Connections

open RefCount

variable {c d : ℕ}

/-! ### Every step keeps the accounts -/

theorem Accounts.init (env : Env) : Accounts (.init env) fun _ => none where
  ops := ⟨fun _ => trivial, fun _ _ => rfl, fun _ _ _ hb _ => (nomatch hb.1), fun _ _ => rfl⟩
  table := ⟨exact_none, nofun,
    fun _ _ => iff_of_false nofun fun hd => absurd hd.2.1 (lt_irrefl _),
    fun _ _ => ⟨rfl, rfl⟩, nofun⟩
  inits := ⟨nofun, nofun, fun _ hd => absurd rfl hd⟩
  moves := ⟨nofun, fun _ _ hd => absurd rfl hd⟩

namespace Accounts

variable {w : Manager} {held : String → Option ℕ} {t : ℕ} (h : Accounts w held)
include h

/-- The initialization of daemon `d` that operation `t` waited for has ended. -/
theorem joined {first : Bool} {r : InitResult} (he : Step.Enabled w t (.joined c d first r)) :
    Accounts (Step.fire w t (.joined c d first r)) held := by
  obtain ⟨hpc, hinit⟩ := he
  have hown := h.own hpc
  unfold Step.fire
  dsimp only
  split_ifs with hr
  · obtain ⟨-, rfl⟩ := hr
    exact h.move_pc hpc rfl hown nofun (.inl rfl) (.inl rfl)
  · refine h.move_pc hpc rfl hown nofun ?_ (.inl rfl)
    cases first with
    | false => exact .inl rfl
    | true =>
      -- the initialization of a superseded daemon says so
      refine .inr fun d' hd' => ?_
      cases hown.1.symm.trans hd'
      by_contra hsup
      rcases h.inits.superseded d hsup with hi | hi <;> rw [hinit] at hi <;> cases hi
      exact hr ⟨rfl, rfl⟩

theorem remoteUp {first : Bool} {u : Url} (he : Step.Enabled w t (.remoteUp c d first u)) :
    Accounts (Step.fire w t (.remoteUp c d first u)) held := by
  have hpc : (w.op t).pc = .transport c d first := he
  have hown := h.own hpc
  have hb : Benign w (Step.fire w t (.remoteUp c d first u)) :=
    ⟨rfl, rfl, fun _ => ⟨rfl, rfl⟩, rfl, rfl, fun _ => ⟨rfl, rfl, rfl, rfl⟩, rfl⟩
  cases first <;>
    exact h.benign (by simp [hpc, Pc.busy]) rfl hb hown (fun hx => by cases hx)
      (.inl (by simp [hpc, Pc.leaving])) (h.inits.step rfl (.inr (by simp [hpc, Pc.runs]))
        (fun _ => .inl rfl) h.inits.superseded)

theorem setRoots {root : String} (he : Step.Enabled w t (.setRoots c d root)) :
    Accounts (Step.fire w t (.setRoots c d root)) held := by
  have hpc : (w.op t).pc = .ended c d true := he
  have hown := h.own hpc
  have hconn : ∀ c', ((Step.fire w t (.setRoots c d root)).conn c').daemon = (w.conn c').daemon ∧
      ((Step.fire w t (.setRoots c d root)).conn c').name = (w.conn c').name := by
    intro c'
    by_cases hc : c' = c
    · subst hc
      simp [Step.fire, Manager.setPc]
    · simp [Step.fire, Manager.setPc, hc]
  exact h.benign (by simp [hpc, Pc.busy]) rfl
    ⟨rfl, rfl, hconn, rfl, rfl, fun _ => ⟨rfl, rfl, rfl, rfl⟩, rfl⟩ hown
    (fun hx => by cases hx) (.inl (by simp [hpc, Pc.leaving]))
    (h.inits.step rfl (.inl rfl) (fun _ => .inl rfl) h.inits.superseded)

theorem refresh (he : Step.Enabled w t (.refresh c d)) :
    Accounts (Step.fire w t (.refresh c d)) held := by
  have hpc : (w.op t).pc = .refreshing c d := he
  have hown := h.own hpc
  have hb : Benign w (Step.fire w t (.refresh c d)) :=
    ((Benign.refl w).updateDaemonRemoteRoots d).setPc t _
  refine h.benign (by simp [hpc, Pc.busy]) rfl hb trivial
    (fun _ => hown.1.trans hown.2.daemonOf.symm) (.inl (by simp [hpc, Pc.leaving]))
    (h.inits.step rfl (.inl rfl) (fun d' => .inl (init_updateDaemonRemoteRoots w d d'))
      fun d' hx => ?_)
  rw [hb.supersededBy] at hx
  rw [show ((Step.fire w t (.refresh c d)).daemon d').init = (w.daemon d').init from
    init_updateDaemonRemoteRoots w d d']
  exact h.inits.superseded d' hx

theorem settle {ok ok' : Bool} (hpc : (w.op t).pc = .ended c d ok) :
    Accounts (w.setPc t (.done ok')) held :=
  h.move_pc hpc rfl trivial (fun _ => (h.own hpc).1.trans (h.own hpc).2.daemonOf.symm) (.inl rfl)
    (.inl rfl)

/-- The operation ends the initialization of a daemon that is not superseded. -/
theorem finish_ended {ok : Bool} {r : InitResult} (urls : ℕ → Url)
    (hruns : (w.op t).pc.runs = some d) (hleave : (w.op t).pc.leaving = none)
    (hown : OpOk w held { w.op t with pc := .ended c d ok }) :
    Accounts (({ w with urls := urls }.finishInit d r).setPc t (.ended c d ok)) held := by
  have hbusy : (w.op t).pc.busy = true := by
    cases hpc : (w.op t).pc <;> simp [hpc, Pc.runs, Pc.busy] at hruns ⊢
  exact h.finish urls hbusy hruns rfl (.inr (h.not_superseded hbusy hown.1 (by simp [hleave]))) hown
    (fun hx => by cases hx) (.inl (by rw [hleave]; rfl))

/-- **Every careful step of an operation keeps the accounts.** -/
theorem step {s : Step} (he : s.Enabled w t) (hok : Careful w (.step t s)) :
    ∃ held', Accounts (s.fire w t) held' := by
  cases s with
  | noScheme | found =>
    exact ⟨held, h.move_pc he.1 rfl trivial (fun _ => h.own he.1) (.inl rfl) (.inl rfl)⟩
  | absent =>
    obtain ⟨hpc, -, hnone⟩ := he
    have hheld : held (w.op t).name = none := (h.own hpc).trans (by simp [Manager.daemonOf, hnone])
    exact ⟨held, h.move_pc hpc rfl ⟨hheld, hnone⟩ (fun hx => by cases hx) (.inl rfl) (.inl rfl)⟩
  | share d => exact ⟨_, h.share (.inl he.1) he.2⟩
  | shareLate d => exact ⟨_, h.share (.inr he.1) he.2⟩
  | miss =>
    have hown := h.own he.1
    exact ⟨held, h.move_pc he.1 rfl hown (fun hx => by cases hx) (.inl rfl) (.inl rfl)⟩
  | connectorFailed =>
    have hpc : (w.op t).pc = .connecting := he
    obtain ⟨hheld, hnone⟩ := h.own hpc
    have hidle := hheld.trans (show none = w.daemonOf (w.op t).name by simp [Manager.daemonOf, hnone])
    exact ⟨held, h.move_pc hpc rfl trivial (fun _ => hidle) (.inl rfl) (.inl rfl)⟩
  | connectorMade =>
    have hpc : (w.op t).pc = .connecting := he
    have hown := h.own hpc
    exact ⟨held, h.move_pc hpc rfl hown (fun hx => by cases hx) (.inl rfl) (.inl rfl)⟩
  | insert => exact ⟨_, h.insert he⟩
  | overlap => exact hok.elim
  | create => exact ⟨_, h.create he⟩
  | start => exact ⟨_, h.start he⟩
  | joined => exact ⟨_, h.joined he⟩
  | canceled c d first =>
    have hown := h.own he.1
    refine ⟨held, h.move_pc he.1 rfl hown (fun hx => by cases hx) (.inr fun d' hd' => ?_) (.inl rfl)⟩
    cases hown.1.symm.trans hd'
    exact hok
  | refused c d first =>
    -- a daemon that was destroyed is not held
    obtain ⟨hpc, -, hd⟩ := he
    exact absurd (h.own hpc).1 ((h.table.exact.eq_zero_iff d).1 (h.table.destroyed d hd).1 _)
  | remoteFailed c d first u =>
    have hpc : (w.op t).pc = .transport c d first := he
    have hown := h.own hpc
    exact ⟨held, h.finish_ended _ (by rw [hpc]; rfl) (by rw [hpc]; rfl) hown⟩
  | remoteUp => exact ⟨_, h.remoteUp he⟩
  | rekey => exact ⟨_, h.rekey he⟩
  | supersede => exact ⟨_, h.supersede he hok⟩
  | report c d =>
    have hpc : (w.op t).pc = .reporting c d := he
    have hown := h.own hpc
    exact ⟨held, h.finish w.urls (by rw [hpc]; rfl) (by rw [hpc]; rfl) rfl (.inl rfl) hown
      (fun hx => by cases hx) (.inl (by rw [hpc]; rfl))⟩
  | ensured c d first ok =>
    have hpc : (w.op t).pc = .ensuring c d first := he
    have hown := h.own hpc
    exact ⟨held, h.finish_ended w.urls (by rw [hpc]; rfl) (by rw [hpc]; rfl) hown⟩
  | follow => exact ⟨_, h.follow he⟩
  | updateDaemon => exact ⟨_, h.updateDaemon he⟩
  | setRoots => exact ⟨_, h.setRoots he⟩
  | setRootsFailed | settle => exact ⟨_, h.settle he⟩
  | keep => exact ⟨_, h.settle he.1⟩
  | refresh => exact ⟨_, h.refresh he⟩
  | destroy => exact ⟨_, h.destroy he hok⟩
  | find c =>
    obtain ⟨hpc, hc⟩ := he
    have hheld : held (w.op t).name = some (w.conn c).daemon :=
      (h.own hpc).trans (by simp [Manager.daemonOf, hc])
    exact ⟨held, h.move_pc hpc rfl ⟨_, hheld, hc, rfl⟩ (fun hx => by cases hx) (.inl rfl) (.inl rfl)⟩
  | findMissing =>
    exact ⟨held, h.move_pc he.1 rfl trivial (fun _ => h.own he.1) (.inl rfl) (.inl rfl)⟩
  | drop => exact ⟨_, h.drop he hok⟩

theorem fire {e : Event} (he : e.Enabled w) (hok : Careful w e) :
    ∃ held', Accounts (e.fire w) held' := by
  cases e with
  | callInitialize => exact ⟨held, h.begin _ (.inl rfl) hok⟩
  | callRemove => exact ⟨held, h.begin w.urls (.inr rfl) hok⟩
  | step t s => exact h.step he hok

end Accounts

/-! ### The connections that use a daemon -/

namespace Manager

theorem daemonOf_eq_some {w : Manager} {n : String} :
    w.daemonOf n = some d ↔ ∃ c, ⟨n, c⟩ ∈ w.connections.entries ∧ (w.conn c).daemon = d := by
  simp only [daemonOf, Option.map_eq_some_iff, ← AList.mem_lookup_iff, Option.mem_def]

theorem ncard_daemonOf (w : Manager) (d : ℕ) : (holders w.daemonOf d).ncard = w.users d := by
  let names := (w.connections.entries.filter fun e => (w.conn e.2).daemon = d).map Sigma.fst
  have hnodup : names.Nodup :=
    w.connections.nodupKeys.sublist List.filter_sublist
  have hnames : holders w.daemonOf d = names.toFinset := by
    ext n
    rw [mem_holders, daemonOf_eq_some]
    simp [names]
  rw [hnames, Set.ncard_coe_finset, List.toFinset_card_of_nodup hnodup]
  rw [List.length_map, ← List.countP_eq_length_filter, users, registered, List.countP_map]
  rfl

theorem users_pos_iff (w : Manager) (d : ℕ) : 0 < w.users d ↔ ∃ n, w.daemonOf n = some d := by
  simp only [users, registered, List.countP_pos_iff, List.mem_map, decide_eq_true_eq,
    daemonOf_eq_some]
  constructor
  · rintro ⟨_, ⟨e, he, rfl⟩, hd⟩
    exact ⟨e.1, e.2, he, hd⟩
  · rintro ⟨n, c, hc, hd⟩
    exact ⟨_, ⟨⟨n, c⟩, hc, rfl⟩, hd⟩

end Manager

namespace Accounts

variable {w : Manager} {held : String → Option ℕ} (h : Accounts w held)
include h

theorem held_of_quiescent (hq : w.Quiescent) : held = w.daemonOf := by
  funext n
  refine h.ops.idle n fun t ht => ?_
  have hlt : t < w.opCount := h.begun fun hi => by simp [Manager.Busy, hi, Pc.busy] at ht
  rw [Manager.Busy, hq t hlt] at ht
  cases ht.1

/-- A registered connection's daemon is held by its name, or was superseded. -/
theorem daemonOf_held {n : String} (hd : w.daemonOf n = some d)
    (hsup : (w.daemon d).supersededBy = none) : held n = some d := by
  by_cases hb : ∃ u, w.Busy u n
  · obtain ⟨u, hbusy, rfl⟩ := hb
    cases hpc : (w.op u).pc with
    | idle | done => simp [hpc, Pc.busy] at hbusy
    | looking | finding => exact (h.own hpc).trans hd
    | acquiring | connecting | inserting | creating =>
      have hnone := (h.own hpc).2
      simp [Manager.daemonOf, hnone] at hd
    | moved c d' e =>
      obtain ⟨-, huses, hx⟩ := h.own hpc
      cases huses.daemonOf.symm.trans hd
      exact absurd hsup hx
    | removing c =>
      obtain ⟨d', hheld, huses⟩ := h.own hpc
      exact hheld.trans (huses.daemonOf.symm.trans hd)
    | _ => exact (h.own hpc).1.trans ((h.own hpc).2.daemonOf.symm.trans hd)
  · exact (h.ops.idle n (not_exists.1 hb)).trans hd

theorem users_of_destroyed (hd : (w.daemon d).destroyed = true) : w.users d = 0 := by
  obtain ⟨h0, hsup⟩ := h.table.destroyed d hd
  by_contra hne
  obtain ⟨n, hn⟩ := (w.users_pos_iff d).1 (Nat.pos_of_ne_zero hne)
  exact (h.table.exact.eq_zero_iff d).1 h0 n (h.daemonOf_held hn hsup)

theorem refs_of_quiescent (hq : w.Quiescent) (d : ℕ) : w.refs d = w.users d := by
  rw [h.table.exact.count d, h.held_of_quiescent hq, w.ncard_daemonOf]

theorem not_superseded_of_quiescent (hq : w.Quiescent) {n : String}
    (hheld : held n = some d) : (w.daemon d).supersededBy = none := by
  by_contra hsup
  obtain ⟨u, -, hu⟩ := h.moves.leaving d n hsup hheld
  have hbusy : (w.op u).pc.busy = true := by
    cases hpc : (w.op u).pc <;> simp [hpc, Pc.leaving, Pc.busy] at hu ⊢
  have hlt : u < w.opCount := h.begun fun hi => by simp [hi, Pc.busy] at hbusy
  rw [hq u hlt] at hbusy
  cases hbusy

/-- Between the operations the daemons in the map are those that have a connection. -/
theorem inMap_of_quiescent (hq : w.Quiescent) (d : ℕ) : w.InMap d ↔ 0 < w.users d := by
  have hrefs := h.refs_of_quiescent hq d
  constructor
  · rintro ⟨k, hk⟩
    have hpos := ((h.table.mapped k d).1 hk).2.1
    omega
  · intro hpos
    obtain ⟨n, hn⟩ := (h.table.exact.pos_iff d).1 (by omega)
    exact ⟨_, h.lookup_mapKey hn (h.not_superseded_of_quiescent hq hn)⟩

end Accounts

/-- **Reference counts are exact**, in every run whose steps are careful: whenever no operation is
in flight, each daemon's count is the number of the registered connections that use it, and the
daemon is in the map iff that number is positive; and at all times a daemon that was destroyed has
no connection. -/
theorem refCount_exact (env : Env) (w : Manager) (hw : Reaches env Careful w) (d : ℕ) :
    (w.Quiescent → (w.daemon d).refCount = w.users d ∧ (w.InMap d ↔ 0 < w.users d)) ∧
      ((w.daemon d).destroyed = true → w.users d = 0) := by
  obtain ⟨held, h⟩ : ∃ held, Accounts w held :=
    Machine.Run.invariant (I := fun w => ∃ held, Accounts w held) ⟨_, .init env⟩
      (fun _ _ ⟨_, h⟩ he hok => h.fire he hok) hw
  exact ⟨fun hq => ⟨h.refs_of_quiescent hq d, h.inMap_of_quiescent hq d⟩, h.users_of_destroyed⟩

def sshOnly : Env := ⟨["ssh"], id⟩

def ssh (hostname : String) : Url := ⟨"ssh", "", hostname, "", ""⟩

/-- Connection `a` to a host. -/
def connectA : List Event :=
  [.callInitialize "a" (ssh "alpha") ⟨"/p", "", "me", false, true⟩, .step 0 .absent, .step 0 .miss,
    .step 0 .connectorMade, .step 0 .insert, .step 0 (.create 0), .step 0 (.start 0 0 true),
    .step 0 (.remoteUp 0 0 true (ssh "alpha")), .step 0 (.rekey 0 0), .step 0 (.ensured 0 0 true true),
    .step 0 (.settle 0 0)]

/-- Connection `b` to the same host under another name, which its connector resolves: the second
daemon is superseded.  Then `a` is removed. -/
def mergeAndRemove : List Event :=
  [.callInitialize "b" (ssh "jump") ⟨"/q", "", "me", false, true⟩, .step 1 .absent, .step 1 .miss,
    .step 1 .connectorMade, .step 1 .insert, .step 1 (.create 1), .step 1 (.start 1 1 true),
    .step 1 (.remoteUp 1 1 true (ssh "alpha")), .step 1 (.supersede 1 1 0), .step 1 (.report 1 1),
    .step 1 (.follow 1 1 0), .step 1 (.updateDaemon 1 1 0), .step 1 (.joined 1 0 false .ok),
    .step 1 (.settle 1 0), .callRemove "a", .step 2 (.find 0), .step 2 (.drop 0)]

/-- The theorem at a run in which two daemons are merged and a connection is removed. -/
theorem refCount_exact_merged :
    ∃ w, Reaches sshOnly Careful w ∧ w.Quiescent ∧ w.users 0 = 1 ∧ (w.daemon 0).refCount = 1 ∧
      w.InMap 0 ∧ (w.daemon 1).refCount = 0 ∧ ¬ w.InMap 1 := by
  have hrun : ∃ w ∈ manager.exec Careful (.init sshOnly) (connectA ++ mergeAndRemove),
      w.Quiescent ∧ w.users 0 = 1 ∧ w.users 1 = 0 := by
    decide +kernel
  obtain ⟨w, hw, hq, h0, h1⟩ := Machine.exists_run_of_exec _ _ hrun
  obtain ⟨hcount, hmap⟩ := (refCount_exact sshOnly w hw 0).1 hq
  obtain ⟨hcount', hmap'⟩ := (refCount_exact sshOnly w hw 1).1 hq
  rw [h0] at hcount hmap
  rw [h1] at hcount' hmap'
  exact ⟨w, hw, hq, h0, hcount, hmap.2 one_pos, hcount', fun hx => lt_irrefl 0 (hmap'.1 hx)⟩

/-- Connection `b` to another host, with a local root below that of `a`. -/
def overlapping : List Event :=
  [.callInitialize "b" (ssh "beta") ⟨"/p/q", "", "me", false, true⟩, .step 1 .absent, .step 1 .miss,
    .step 1 .connectorMade, .step 1 .insert, .step 1 (.overlap 1)]

/-- Nothing is in flight, and the second daemon has a reference and is in the map, but no connection
uses it. -/
theorem overlap_leaks_daemon :
    ∃ w, Reaches sshOnly (fun _ _ => True) w ∧ w.Quiescent ∧ w.users 1 = 0 ∧
      (w.daemon 1).refCount = 1 ∧ w.InMap 1 := by
  have hrun : ∃ w ∈ manager.exec (fun _ _ => True) (.init sshOnly) (connectA ++ overlapping),
      w.Quiescent ∧ w.users 1 = 0 ∧ (w.daemon 1).refCount = 1 ∧
        w.daemons.lookup "beta::me" = some 1 := by
    decide +kernel
  obtain ⟨w, hw, hq, h0, hcount, hmap⟩ := Machine.exists_run_of_exec _ _ hrun
  grind [Reaches, Manager.InMap]

end Graft.Connections
