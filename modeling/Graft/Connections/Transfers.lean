import Graft.Connections.Accounts

/-!
# The steps keep the accounts

One lemma for each step of an operation that takes, moves or gives up a reference, or starts or
ends an initialization; `Accounts.move_pc` for those that only move the operation.
-/

namespace Graft.Connections

open Function (update update_self update_of_ne)
variable {c d : ℕ}

section Step

variable {w w' : Manager} {held : String → Option ℕ} {t : ℕ} {pc : Pc}

namespace Accounts

variable (h : Accounts w held)
include h

/-- An operation that is not about to leave its daemon has one that is not superseded. -/
theorem not_superseded (hbusy : (w.op t).pc.busy = true)
    (hheld : held (w.op t).name = some d) (hl : (w.op t).pc.leaving ≠ some d) :
    (w.daemon d).supersededBy = none := by
  by_contra hsup
  obtain ⟨u, hname, hleave⟩ := h.moves.leaving d _ hsup hheld
  have hu : (w.op u).pc.busy = true := by
    cases hpc : (w.op u).pc <;> simp [hpc, Pc.leaving, Pc.busy] at hleave ⊢
  cases h.ops.alone u t _ ⟨hu, hname⟩ ⟨hbusy, rfl⟩
  exact hl hleave

/-- **A step that changes no connection's daemon and no daemon's references.** -/
theorem benign (hbusy : (w.op t).pc.busy = true)
    (hop : w'.op = update w.op t { w.op t with pc := pc }) (hb : Benign w w')
    (hok : OpOk w held { w.op t with pc := pc })
    (hidle : pc.busy = false → held (w.op t).name = w.daemonOf (w.op t).name)
    (hleave : pc.leaving = (w.op t).pc.leaving ∨
      ∀ d, held (w.op t).name = some d → (w.daemon d).supersededBy = none)
    (hinits : Inits w') : Accounts w' held := by
  refine ⟨h.ops.step hbusy hop hb.opCount (hb.frame _) (hb.opOk hok) fun hpc => ?_,
    hb.table h.table, hinits, h.moves.keep hop hb.supersededBy hb.refs hleave⟩
  rw [hb.daemonOf]
  exact hidle hpc

theorem move_pc {pc₀ : Pc} (hpc : (w.op t).pc = pc₀) (hbusy : pc₀.busy = true)
    (hok : OpOk w held { w.op t with pc := pc })
    (hidle : pc.busy = false → held (w.op t).name = w.daemonOf (w.op t).name)
    (hleave : pc.leaving = pc₀.leaving ∨
      ∀ d, held (w.op t).name = some d → (w.daemon d).supersededBy = none)
    (hruns : pc.runs = none ∨ pc.runs = pc₀.runs) : Accounts (w.setPc t pc) held := by
  subst hpc
  exact h.benign hbusy rfl ((Benign.refl w).setPc t pc) hok hidle hleave
    (h.inits.step rfl hruns (fun _ => .inl rfl) h.inits.superseded)

theorem own (hpc : (w.op t).pc = pc) : OpOk w held { w.op t with pc := pc } := by
  rw [← hpc]
  exact h.ops.ok t

theorem runs_held {u d : ℕ} (hu : (w.op u).pc.runs = some d) :
    held (w.op u).name = some d := by
  cases hpc : (w.op u).pc with
  | transport | reassigning | reporting | ensuring =>
    rw [hpc] at hu
    cases hu
    exact (h.own hpc).1
  | _ => simp [hpc, Pc.runs] at hu

/-- The operation ends the initialization of daemon `d`, which may have rewritten a destination. -/
theorem finish {r : InitResult} (urls : ℕ → Url) (hbusy : (w.op t).pc.busy = true)
    (hruns : (w.op t).pc.runs = some d) (hnone : pc.runs = none)
    (hr : r = .superseded ∨ (w.daemon d).supersededBy = none)
    (hok : OpOk w held { w.op t with pc := pc })
    (hidle : pc.busy = false → held (w.op t).name = w.daemonOf (w.op t).name)
    (hleave : pc.leaving = (w.op t).pc.leaving ∨
      ∀ d, held (w.op t).name = some d → (w.daemon d).supersededBy = none) :
    Accounts (({ w with urls := urls }.finishInit d r).setPc t pc) held := by
  have hurls : Benign w { w with urls := urls } := .mk rfl rfl (fun _ => ⟨rfl, rfl⟩) rfl rfl
    (fun _ => ⟨rfl, rfl, rfl, rfl⟩) rfl
  have hother : ∀ d', d' ≠ d →
      (({ w with urls := urls }.finishInit d r).setPc t pc).daemon d' = w.daemon d' :=
    fun d' hd => update_of_ne hd ..
  have hself : (({ w with urls := urls }.finishInit d r).setPc t pc).daemon d =
      { w.daemon d with init := .finished r } := update_self ..
  have hb := hurls.setDaemon d { w.daemon d with init := .finished r } ⟨rfl, rfl, rfl, rfl⟩
  refine h.benign hbusy rfl (hb.setPc t pc) hok hidle hleave
    (h.inits.step rfl (.inl hnone) (fun d' => ?_) fun d' hsup => ?_) <;> by_cases hd : d' = d
  · exact .inr ⟨hd ▸ hruns, hnone⟩
  · exact .inl (by rw [hother d' hd])
  · subst hd
    rw [hself] at hsup ⊢
    rcases hr with hr | hr
    · exact .inr (by rw [hr])
    · exact absurd hr hsup
  · rw [hother d' hd] at hsup ⊢
    exact h.inits.superseded d' hsup

theorem start {first : Bool} (he : Step.Enabled w t (.start c d first)) :
    Accounts (Step.fire w t (.start c d first)) held := by
  have hinits := h.inits.start he
  obtain ⟨hpc, hfresh⟩ := he
  have hown := h.own hpc
  have hsup : (w.daemon d).supersededBy = none := by
    grind [Inits.superseded, inits]
  have hb := (Benign.refl w).setDaemon d { w.daemon d with init := .running } ⟨rfl, rfl, rfl, rfl⟩
  refine h.benign (by simp [hpc, Pc.busy]) rfl (hb.setPc t _) hown (by simp [Pc.busy])
    (.inr fun d' hd' => ?_) hinits
  cases hown.1.symm.trans hd'
  exact hsup

theorem share (hpc : (w.op t).pc = .acquiring ∨ (w.op t).pc = .inserting)
    (hd : w.daemons.lookup (w.key t) = some d) :
    Accounts ((w.addRefs d 1).setPc t (.creating d)) (update held (w.op t).name (some d)) := by
  obtain ⟨hnone, hlookup⟩ :
      held (w.op t).name = none ∧ w.connections.lookup (w.op t).name = none := by
    rcases hpc with hpc | hpc <;> exact h.own hpc
  have hbusy : (w.op t).pc.busy = true := by rcases hpc with hpc | hpc <;> simp [hpc, Pc.busy]
  obtain ⟨-, hpos, hsup⟩ := (h.table.mapped _ d).1 hd
  have hrefs : ((w.addRefs d 1).setPc t (.creating d)).refs = update w.refs d (w.refs d + 1) :=
    refs_addRefs w d 1
  have hdaemon : ∀ d', ((w.addRefs d 1).setPc t (.creating d)).daemon d' =
      { w.daemon d' with refCount := (w.addRefs d 1).refs d' } := daemon_addRefs w d 1
  have hpos' : ∀ d', 0 < ((w.addRefs d 1).setPc t (.creating d)).refs d' ↔ 0 < w.refs d' := by
    intro d'
    rw [hrefs]
    by_cases hd' : d' = d
    · grind
    · rw [update_of_ne hd']
  refine ⟨h.ops.step hbusy rfl rfl ⟨fun m hm => update_of_ne hm .., fun _ _ => rfl,
      fun _ _ _ _ => rfl, fun d' hd' => by rwa [hdaemon]⟩ ⟨update_self .., hlookup⟩
      (by simp [Pc.busy]),
    ⟨hrefs ▸ h.table.exact.acquire hnone d, h.table.named, fun k d' => ?_, fun d' hd' => ?_,
      fun d' hd' => ?_⟩,
    h.inits.step rfl (.inl rfl) (fun d' => .inl (by rw [hdaemon])) fun d' hx => ?_,
    h.moves.step rfl (fun d' => by rw [hdaemon]) (fun m hm => update_of_ne hm ..)
      (fun d' hd' => ?_) fun d' e m hx _ hm => (hpos' e).2 (h.moves.target d' e m hx hm).1⟩
  · rw [hpos', hdaemon]
    exact h.table.mapped k d'
  · obtain ⟨h0, h1⟩ := h.table.unborn d' hd'
    have hne : d' ≠ d := by
      rintro rfl
      omega
    rw [hrefs, update_of_ne hne, hdaemon]
    exact ⟨h0, h1⟩
  · rw [hdaemon] at hd' ⊢
    obtain ⟨h0, h1⟩ := h.table.destroyed d' hd'
    have hne : d' ≠ d := by
      rintro rfl
      omega
    rw [hrefs, update_of_ne hne]
    exact ⟨h0, h1⟩
  · rw [hdaemon] at hx ⊢
    exact h.inits.superseded d' hx
  · simp_all

theorem insert (he : Step.Enabled w t .insert) :
    Accounts (Step.fire w t .insert) (update held (w.op t).name (some w.daemonCount)) := by
  obtain ⟨hpc, hfree⟩ := he
  obtain ⟨hnone, hlookup⟩ := h.own hpc
  obtain ⟨h0, hsup⟩ := h.table.unborn w.daemonCount le_rfl
  have hself : (Step.fire w t .insert).daemon w.daemonCount =
      ⟨w.key t, 1, none, .fresh, t, [], false⟩ := update_self ..
  have hother : ∀ d, d ≠ w.daemonCount → (Step.fire w t .insert).daemon d = w.daemon d :=
    fun d hd => update_of_ne hd ..
  have hrefs : (Step.fire w t .insert).refs =
      update w.refs w.daemonCount (w.refs w.daemonCount + 1) := by
    funext d
    by_cases hd : d = w.daemonCount
    · simp_all [Manager.refs]
    · simp_all [Manager.refs]
  have hsup' : ∀ d, ((Step.fire w t .insert).daemon d).supersededBy = (w.daemon d).supersededBy := by
    grind
  have hmapped : Indexes (w.daemons.insert (w.key t) w.daemonCount)
      (fun d => 0 < (Step.fire w t .insert).refs d ∧
        ((Step.fire w t .insert).daemon d).supersededBy = none)
      fun d => ((Step.fire w t .insert).daemon d).mapKey := by
    refine (mapped_iff_indexes.1 h.table.mapped).insert hfree (by rw [hself]) (fun d => ?_)
      (fun d hd => by rw [hother d hd]) fun hx => by omega
    by_cases hd : d = w.daemonCount
    · simp_all
    · rw [hrefs, update_of_ne hd, hsup', or_iff_left hd]
  -- nobody initializes a daemon that does not exist
  have hold : ∀ {u d}, ((Step.fire w t .insert).op u).pc.runs = some d →
      (w.op u).pc.runs = some d ∧ d ≠ w.daemonCount := by
    intro u d hu
    have hut : u ≠ t := by
      rintro rfl
      simp [Step.fire, Manager.setPc, Pc.runs] at hu
    rw [show (Step.fire w t .insert).op u = w.op u from update_of_ne hut ..] at hu
    refine ⟨hu, ?_⟩
    rintro rfl
    have := (h.table.exact.pos_iff _).2 ⟨_, h.runs_held hu⟩
    omega
  refine ⟨h.ops.step (by simp [hpc, Pc.busy]) rfl rfl ⟨fun m hm => update_of_ne hm ..,
      fun _ _ => rfl, fun _ _ _ _ => rfl, fun d hd => by rwa [hsup']⟩
      ⟨update_self .., hlookup⟩ (by simp [Pc.busy]),
    ⟨hrefs ▸ h.table.exact.acquire hnone w.daemonCount, h.table.named, mapped_iff_indexes.2 hmapped,
      fun d hd => ?_, fun d hd => ?_⟩,
    ⟨fun u d hu => ?_, fun u v d hu hv => h.inits.sole u v d (hold hu).1 (hold hv).1,
      fun d hx => ?_⟩,
    h.moves.step rfl hsup' (fun m hm => update_of_ne hm ..) (fun d hd => ?_)
      fun d e m hx _ hm => ?_⟩
  · have hlt : w.daemonCount + 1 ≤ d := hd
    have hne : d ≠ w.daemonCount := by omega
    rw [hrefs, update_of_ne hne, hother d hne]
    exact h.table.unborn d (by omega)
  · have hne : d ≠ w.daemonCount := by
      grind
    rw [hother d hne] at hd ⊢
    rw [hrefs, update_of_ne hne]
    exact h.table.destroyed d hd
  · rw [hother d (hold hu).2]
    exact h.inits.running u d (hold hu).1
  · grind [Inits.superseded, inits]
  · rw [update_self] at hd
    cases hd
    exact hsup
  · have hpos := (h.moves.target d e m hx hm).1
    grind [Manager.refs]

theorem create (he : Step.Enabled w t (.create d)) : Accounts (Step.fire w t (.create d)) held := by
  obtain ⟨hpc, -⟩ := he
  obtain ⟨hheld, hlookup⟩ := h.own hpc
  let w₁ : Manager :=
    { w with
      conn := update w.conn w.connCount ⟨(w.op t).name, d, (w.op t).args.localRoot,
        (w.op t).args.remoteRoot, (w.op t).args.background⟩
      connections := w.connections.insert (w.op t).name w.connCount
      connCount := w.connCount + 1 }
  have hb : Benign w₁ (Step.fire w t (.create d)) :=
    ((Benign.refl w₁).updateDaemonRemoteRoots d).setPc t _
  have hconn : ∀ c, c < w.connCount → w₁.conn c = w.conn c :=
    fun c hc => update_of_ne hc.ne ..
  have hnew : w₁.conn w.connCount = ⟨(w.op t).name, d, (w.op t).args.localRoot,
      (w.op t).args.remoteRoot, (w.op t).args.background⟩ := update_self ..
  have hlook : ∀ m, m ≠ (w.op t).name → w₁.connections.lookup m = w.connections.lookup m :=
    fun m hm => AList.lookup_insert_ne hm
  have huses : w₁.Uses (w.op t).name w.connCount d := ⟨AList.lookup_insert _, by rw [hnew]⟩
  refine ⟨h.ops.step (by simp [hpc, Pc.busy]) rfl rfl ⟨fun _ _ => rfl, hlook, fun m c hm hc => ?_,
      fun d' hd' => by rwa [hb.supersededBy]⟩ (hb.opOk ⟨hheld, huses⟩) (by simp [Pc.busy]),
    hb.table ⟨h.table.exact, fun n c hc => ?_, h.table.mapped, h.table.unborn, h.table.destroyed⟩,
    h.inits.step rfl (.inl rfl) (fun d' => .inl (init_updateDaemonRemoteRoots w₁ d d')) fun d' hx => ?_,
    h.moves.keep rfl hb.supersededBy hb.refs (.inl (by simp [hpc, Pc.leaving]))⟩
  · exact (hb.conn c).1.trans (by rw [hconn c (h.table.named m c hc).2])
  · obtain ⟨rfl, rfl⟩ | ⟨-, hc⟩ := lookup_insert_cases hc
    · exact ⟨by rw [hnew], Nat.lt_succ_self _⟩
    · obtain ⟨hname, hlt⟩ := h.table.named n c hc
      grind
  · rw [hb.supersededBy] at hx
    rw [show ((Step.fire w t (.create d)).daemon d').init = (w.daemon d').init from
      init_updateDaemonRemoteRoots w₁ d d']
    exact h.inits.superseded d' hx

theorem updateDaemon {c d e : ℕ} (he : Step.Enabled w t (.updateDaemon c d e)) :
    Accounts (Step.fire w t (.updateDaemon c d e)) held := by
  have hpc : (w.op t).pc = .moved c d e := he
  obtain ⟨hheld, huses, -⟩ := h.own hpc
  have hself : (Step.fire w t (.updateDaemon c d e)).conn c = { w.conn c with daemon := e } :=
    update_self ..
  have hother : ∀ c', c' ≠ c → (Step.fire w t (.updateDaemon c d e)).conn c' = w.conn c' :=
    fun c' hc => update_of_ne hc ..
  refine ⟨h.ops.step (by simp [hpc, Pc.busy]) rfl rfl ⟨fun _ _ => rfl, fun _ _ => rfl,
      fun m c' hm hc' => ?_, fun _ hd => hd⟩ ⟨hheld, huses.1, by rw [hself]⟩ (by simp [Pc.busy]),
    ⟨h.table.exact, fun n c' hc' => ?_, h.table.mapped, h.table.unborn, h.table.destroyed⟩,
    h.inits.step rfl (.inl rfl) (fun _ => .inl rfl) h.inits.superseded,
    h.moves.keep rfl (fun _ => rfl) rfl (.inl (by simp [hpc, Pc.leaving]))⟩
  · -- connections have one name each
    have hne : c' ≠ c := by
      rintro rfl
      exact hm ((h.table.named m c' hc').1.symm.trans (h.table.named _ c' huses.1).1)
    rw [hother c' hne]
  · by_cases hcc : c' = c
    · subst hcc
      rw [hself]
      exact h.table.named n c' hc'
    · rw [hother c' hcc]
      exact h.table.named n c' hc'

theorem lookup_mapKey {n : String} (hheld : held n = some d)
    (hsup : (w.daemon d).supersededBy = none) : w.daemons.lookup (w.daemon d).mapKey = some d :=
  (h.table.mapped _ d).2 ⟨rfl, (h.table.exact.pos_iff d).2 ⟨n, hheld⟩, hsup⟩

theorem rekey (he : Step.Enabled w t (.rekey c d)) :
    Accounts (Step.fire w t (.rekey c d)) held := by
  obtain ⟨hpc, hkey⟩ := he
  have hown := h.own hpc
  have hbusy : (w.op t).pc.busy = true := by simp [hpc, Pc.busy]
  have hleave : (Pc.ensuring c d true).leaving = (w.op t).pc.leaving := by simp [hpc, Pc.leaving]
  have hruns : (Pc.ensuring c d true).runs = (w.op t).pc.runs := by simp [hpc, Pc.runs]
  have hsup : (w.daemon d).supersededBy = none :=
    h.not_superseded hbusy hown.1 (by simp [hpc, Pc.leaving])
  by_cases hsame : (w.daemon d).mapKey = w.key t
  · rw [Step.fire, if_pos hsame]
    exact h.move_pc hpc rfl hown (fun hx => by cases hx) (.inl rfl) (.inr rfl)
  have hfree := hkey.resolve_left hsame
  have hdaemon := daemon_rekey (c := c) hsame
  rw [Step.fire, if_neg hsame] at hdaemon ⊢
  set w' : Manager := Manager.setPc _ t (.ensuring c d true)
  have hrefs : w'.refs = w.refs := by
    grind [Manager.refs]
  have hmapped : Indexes w'.daemons (fun d' => 0 < w'.refs d' ∧ (w'.daemon d').supersededBy = none)
      fun d' => (w'.daemon d').mapKey :=
    (mapped_iff_indexes.1 h.table.mapped).rekey ⟨(h.table.exact.pos_iff d).2 ⟨_, hown.1⟩, hsup⟩
      hfree (by rw [hdaemon, if_pos rfl]) (fun d' => by rw [hrefs, hdaemon])
      fun d' hd => by rw [hdaemon, if_neg hd]
  refine ⟨h.ops.step hbusy rfl rfl ⟨fun _ _ => rfl, fun _ _ => rfl, fun _ _ _ _ => rfl,
      fun d' hd' => by rwa [hdaemon]⟩ hown (by simp [Pc.busy]),
    ⟨hrefs ▸ h.table.exact, h.table.named, mapped_iff_indexes.2 hmapped, fun d' hd' => ?_,
      fun d' hd' => ?_⟩,
    h.inits.step rfl (.inr hruns) (fun d' => .inl (by rw [hdaemon])) fun d' hx => ?_,
    h.moves.keep rfl (fun d' => by rw [hdaemon]) hrefs (.inl hleave)⟩
  · rw [hrefs, hdaemon]
    exact h.table.unborn d' hd'
  · rw [hdaemon] at hd' ⊢
    rw [hrefs]
    exact h.table.destroyed d' hd'
  · rw [hdaemon] at hx ⊢
    exact h.inits.superseded d' hx

/-- A held reference is that of a registered connection, or of an operation before it has
registered one, or after it has moved. -/
theorem held_cases {n : String} (hheld : held n = some d) : w.daemonOf n = some d ∨
      ∃ u, (w.op u).name = n ∧ ((w.op u).pc.leaving = some d ∨ (w.op u).pc.target = some d) := by
  by_cases hb : ∃ u, w.Busy u n
  · obtain ⟨u, hbusy, rfl⟩ := hb
    cases hpc : (w.op u).pc with
    | idle | done => simp [hpc, Pc.busy] at hbusy
    | looking | finding => exact .inl ((h.own hpc).symm.trans hheld)
    | acquiring | connecting | inserting => exact absurd ((h.own hpc).1.symm.trans hheld) (by simp)
    | creating d' =>
      cases (h.own hpc).1.symm.trans hheld
      exact .inr ⟨u, rfl, .inl (by rw [hpc]; rfl)⟩
    | moved c d' e =>
      cases (h.own hpc).1.symm.trans hheld
      exact .inr ⟨u, rfl, .inr (by rw [hpc]; rfl)⟩
    | removing c =>
      obtain ⟨d', hd', hu⟩ := h.own hpc
      cases hd'.symm.trans hheld
      exact .inl hu.daemonOf
    | _ =>
      cases (h.own hpc).1.symm.trans hheld
      exact .inl (h.own hpc).2.daemonOf
  · exact .inl ((h.ops.idle n (not_exists.1 hb)).symm.trans hheld)

/-- An operation that has a daemon to leave or has just left one has begun. -/
theorem begun {u : ℕ} (hu : (w.op u).pc ≠ .idle) : u < w.opCount := by
  by_contra hle
  exact hu (h.ops.unbegun u (not_lt.1 hle))

/-- The operation finds a daemon at the resolved key, and all the references of its own are about
to be moved there. -/
theorem supersede {c d e : ℕ} (he : Step.Enabled w t (.supersede c d e)) (hok : w.Settling t d) :
    Accounts (Step.fire w t (.supersede c d e)) held := by
  obtain ⟨hpc, hkey, hlookup⟩ := he
  have hown := h.own hpc
  have hbusy : (w.op t).pc.busy = true := by simp [hpc, Pc.busy]
  have hruns : (Pc.reporting c d).runs = (w.op t).pc.runs := by simp [hpc, Pc.runs]
  have hsup : (w.daemon d).supersededBy = none :=
    h.not_superseded hbusy hown.1 (by simp [hpc, Pc.leaving])
  obtain ⟨hkey', hpos, hlive⟩ := (h.table.mapped _ e).1 hlookup
  have hed : e ≠ d := by
    grind
  set w' : Manager := Step.fire w t (.supersede c d e) with hw'
  have hdaemon : ∀ d', w'.daemon d' = _ := daemon_supersede w t c d e
  have hother : ∀ d', d' ≠ d → w'.daemon d' = w.daemon d' :=
    fun d' hd => update_of_ne hd ..
  have hopt : (w'.op t).name = (w.op t).name ∧ (w'.op t).pc = .reporting c d := by
    simp [hw', Step.fire, Manager.setPc, Manager.forget, Manager.setDaemon]
  have hop : ∀ u, u ≠ t → w'.op u = w.op u := fun u hu => update_of_ne hu ..
  have hrefs : w'.refs = w.refs := by
    grind [Manager.refs]
  have hmapped : Indexes w'.daemons (fun d' => 0 < w'.refs d' ∧ (w'.daemon d').supersededBy = none)
      fun d' => (w'.daemon d').mapKey := by
    refine (mapped_iff_indexes.1 h.table.mapped).erase (d := d)
      ⟨(h.table.exact.pos_iff d).2 ⟨_, hown.1⟩, hsup⟩ (fun d' => ?_) fun d' _ => by rw [hdaemon]
    rw [hrefs, hdaemon]
    by_cases hd : d' = d
    · simp [hd]
    · simp [hd]
  refine ⟨h.ops.step hbusy rfl rfl ⟨fun _ _ => rfl, fun _ _ => rfl, fun _ _ _ _ => rfl,
      fun d' hd' => ?_⟩ hown (by simp [Pc.busy]),
    ⟨hrefs ▸ h.table.exact, h.table.named, mapped_iff_indexes.2 hmapped, fun d' hd' => ?_,
      fun d' hd' => ?_⟩,
    h.inits.step rfl (.inr hruns) (fun d' => .inl (by rw [hdaemon])) fun d' hx => ?_,
    fun d' e' n hx hheld => ?_, fun d' n hx hheld => ?_⟩
  · grind
  · have hd : d' ≠ d := by
      rintro rfl
      have h0 := (h.table.unborn d' hd').1
      exact (h.table.exact.eq_zero_iff d').1 h0 _ hown.1
    rw [hrefs, hother d' hd]
    exact h.table.unborn d' hd'
  · have hd : d' ≠ d := by
      rintro rfl
      rw [hdaemon] at hd'
      exact (h.table.exact.eq_zero_iff d').1 (h.table.destroyed d' hd').1 _ hown.1
    rw [hother d' hd] at hd' ⊢
    rw [hrefs]
    exact h.table.destroyed d' hd'
  · grind [Inits.running, inits, Inits.superseded, Pc.runs]
  · rw [hrefs]
    by_cases hd : d' = d
    · simp_all
    · rw [hother d' hd] at hx
      obtain ⟨h1, h2⟩ := h.moves.target d' e' n hx hheld
      -- nobody was to move to the daemon that is superseded now
      have hne : e' ≠ d := by
        rintro rfl
        obtain ⟨u, -, hu⟩ := h.moves.leaving d' n (by simp [hx]) hheld
        refine hok.1 ⟨u, h.begun fun hi => ?_, .inr (by rw [hu]; exact hx)⟩
        simp [hi, Pc.leaving] at hu
      grind
  · by_cases hd : d' = d
    · subst hd
      have hleft : ∀ u, (w.op u).name = n → u = t ∨ (w.op u).pc.leaving = some d' →
          ∃ u, (w'.op u).name = n ∧ (w'.op u).pc.leaving = some d' := by
        intro u hname hu
        by_cases hut : u = t
        · grind [Pc.leaving]
        · exact ⟨u, by rw [hop u hut]; exact ⟨hname, hu.resolve_left hut⟩⟩
      rcases h.held_cases hheld with hreg | ⟨u, hname, hu | hu⟩
      · have hmem : n ∈ w.connections.keys := by
          rw [← AList.mem_keys, ← AList.lookup_isSome]
          unfold Manager.daemonOf at hreg
          cases hl : w.connections.lookup n with
          | none => simp [hl] at hreg
          | some => rfl
        obtain ⟨u, -, hname, hu⟩ := hok.2 n hmem hreg
        exact hleft u hname hu
      · exact hleft u hname (.inr hu)
      · refine absurd ⟨u, h.begun fun hi => ?_, .inl hu⟩ hok.1
        simp [hi, Pc.target] at hu
    · rw [hother d' hd] at hx
      obtain ⟨u, hname, hu⟩ := h.moves.leaving d' n hx hheld
      grind [Pc.leaving]

theorem follow {c d e : ℕ} (he : Step.Enabled w t (.follow c d e)) :
    Accounts (Step.fire w t (.follow c d e)) (update held (w.op t).name (some e)) := by
  obtain ⟨hpc, hsup⟩ := he
  obtain ⟨hheld, huses⟩ := h.own hpc
  obtain ⟨hpos, hlive⟩ := h.moves.target d e _ hsup hheld
  have hed : e ≠ d := by
    grind
  set w' : Manager := Step.fire w t (.follow c d e)
  have hrefs : w'.refs = update (update w.refs d (w.refs d - 1)) e (w.refs e + 1) := by
    rw [show w'.refs = ((w.addRefs d (-1)).addRefs e 1).refs from rfl, refs_addRefs, refs_addRefs,
      update_of_ne hed]
    rfl
  have hdaemon : ∀ d', w'.daemon d' = { w.daemon d' with refCount := w'.refs d' } :=
    daemon_follow w t c d e
  -- the counts of the other daemons stay, and `e` has one more
  have hpos' : ∀ d', d' ≠ d → (0 < w'.refs d' ↔ 0 < w.refs d') := by
    intro d' hd
    rw [hrefs]
    by_cases hde : d' = e
    · subst hde
      rw [update_self]
      omega
    · rw [update_of_ne hde, update_of_ne hd]
  have hzero : ∀ d', w.refs d' = 0 → (w.daemon d').supersededBy = none → w'.refs d' = 0 := by
    intro d' h0 hx
    have hd : d' ≠ d := by
      grind
    have hde : d' ≠ e := by
      rintro rfl
      omega
    rw [hrefs, update_of_ne hde, update_of_ne hd, h0]
  refine ⟨h.ops.step (by simp [hpc, Pc.busy]) rfl rfl ⟨fun m hm => update_of_ne hm ..,
      fun _ _ => rfl, fun _ _ _ _ => rfl, fun d' hd' => by rwa [hdaemon]⟩
      ⟨update_self .., huses, by rw [hdaemon]; simp [hsup]⟩ (by simp [Pc.busy]),
    ⟨hrefs ▸ h.table.exact.move hheld hed, h.table.named, fun k d' => ?_, fun d' hd' => ?_,
      fun d' hd' => ?_⟩,
    h.inits.step rfl (.inl rfl) (fun d' => .inl (by rw [hdaemon])) fun d' hx => ?_,
    h.moves.step rfl (fun d' => by rw [hdaemon]) (fun m hm => update_of_ne hm ..)
      (fun d' hd' => ?_) fun d' e' m hx _ hm => ?_⟩
  · rw [hdaemon]
    refine (h.table.mapped k d').trans (and_congr_right fun _ => and_congr_left fun hx => ?_)
    have hd : d' ≠ d := by
      grind
    exact (hpos' d' hd).symm
  · obtain ⟨h0, hx⟩ := h.table.unborn d' hd'
    exact ⟨hzero d' h0 hx, by rw [hdaemon]; exact hx⟩
  · rw [hdaemon] at hd'
    obtain ⟨h0, hx⟩ := h.table.destroyed d' hd'
    exact ⟨hzero d' h0 hx, by rw [hdaemon]; exact hx⟩
  · rw [hdaemon] at hx ⊢
    exact h.inits.superseded d' hx
  · rw [update_self] at hd'
    cases hd'
    exact hlive
  · obtain ⟨h1, h2⟩ := h.moves.target d' e' m hx hm
    have hd : e' ≠ d := by
      grind
    exact (hpos' e' hd).2 h1

end Accounts

/-- What giving up a reference of daemon `d` changes. -/
structure Released (w w' : Manager) (d : ℕ) : Prop where
  refs : w'.refs = update w.refs d (w.refs d - 1)
  daemon : ∀ d', (w'.daemon d').mapKey = (w.daemon d').mapKey ∧
    (w'.daemon d').supersededBy = (w.daemon d').supersededBy ∧
    (w'.daemon d').init = (w.daemon d').init
  destroyed : ∀ d', (w'.daemon d').destroyed = true →
    (w.daemon d').destroyed = true ∨ d' = d ∧ w.refs d ≤ 1
  lookup : ∀ k, w'.daemons.lookup k =
    if w.refs d ≤ 1 ∧ k = (w.daemon d).mapKey then none else w.daemons.lookup k

theorem daemon_releaseDaemon (w : Manager) (d d' : ℕ) :
    (w.releaseDaemon d).daemon d' =
      { w.daemon d' with
        refCount := (w.addRefs d (-1)).refs d'
        destroyed := (w.daemon d').destroyed || decide (d' = d ∧ w.refs d ≤ 1) } := by
  have hcount : ((w.addRefs d (-1)).daemon d).refCount = w.refs d - 1 := by
    simp [Manager.addRefs, Manager.setDaemon, Manager.refs]
    rfl
  unfold Manager.releaseDaemon
  dsimp only
  by_cases hlast : 0 < ((w.addRefs d (-1)).daemon d).refCount
  · rw [if_pos hlast, daemon_addRefs]
    rw [hcount] at hlast
    rw [decide_eq_false fun hd => by omega, Bool.or_false]
  · rw [if_neg hlast]
    rw [hcount] at hlast
    by_cases hd : d' = d
    · subst hd
      refine (update_self ..).trans ?_
      rw [daemon_addRefs, decide_eq_true ⟨rfl, by omega⟩, Bool.or_true]
    · refine (update_of_ne hd ..).trans ?_
      change (w.addRefs d (-1)).daemon d' = _
      rw [daemon_addRefs, decide_eq_false fun hx => hd hx.1, Bool.or_false]

theorem released_releaseDaemon (w : Manager) (d : ℕ) : Released w (w.releaseDaemon d) d := by
  refine ⟨?_, fun d' => ?_, fun d' hd' => ?_, fun k => ?_⟩
  · refine Eq.trans ?_ (refs_addRefs w d (-1))
    funext d'
    rw [Manager.refs, daemon_releaseDaemon]
  · simp_all [daemon_releaseDaemon]
  · simp_all [daemon_releaseDaemon]
  · have hcount : ((w.addRefs d (-1)).daemon d).refCount = w.refs d - 1 := by
      simp [Manager.addRefs, Manager.setDaemon, Manager.refs]
      rfl
    have hkey : ((w.addRefs d (-1)).daemon d).mapKey = (w.daemon d).mapKey := by
      rw [daemon_addRefs]
    unfold Manager.releaseDaemon
    dsimp only
    split_ifs with hpos hlast hlast
    · omega
    · rfl
    · grind [AList.lookup_erase, Manager.setDaemon, Manager.forget]
    · grind [AList.lookup_erase_ne, Manager.setDaemon, Manager.forget, Manager.addRefs]

/-- **The operation deletes its connection and gives its reference up.**  `w₁` is the state after
the connection was deleted. -/
theorem Accounts.release {w₁ : Manager} {ok : Bool} (h : Accounts w held)
    (hbusy : (w.op t).pc.busy = true) (hheld : held (w.op t).name = some d)
    (hleave : (w.op t).pc.leaving ≠ some d) (hok : w.refs d ≤ 1 → ¬ w.Awaited d)
    (hb : Benign (w.unregister (w.op t).name) w₁)
    (hinit : ∀ d', (w₁.daemon d').init = (w.daemon d').init)
    (hr : Released w₁ w' d) (hw' : w'.op = update w.op t { w.op t with pc := .done ok })
    (hconn : w'.connections = w₁.connections ∧ w'.conn = w₁.conn ∧ w'.connCount = w₁.connCount ∧
      w'.daemonCount = w₁.daemonCount ∧ w'.opCount = w₁.opCount) :
    Accounts w' (update held (w.op t).name none) := by
  obtain ⟨hconns, hconn, hcc, hdc, hoc⟩ := hconn
  have hsup := h.not_superseded hbusy hheld hleave
  have hold := h.lookup_mapKey hheld hsup
  have hrefs₁ : w₁.refs = w.refs := hb.refs
  have hrefs : w'.refs = update w.refs d (w.refs d - 1) := by rw [hr.refs, hrefs₁]
  have hsup' : ∀ d', (w'.daemon d').supersededBy = (w.daemon d').supersededBy :=
    fun d' => (hr.daemon d').2.1.trans (hb.supersededBy d')
  have hkey : ∀ d', (w'.daemon d').mapKey = (w.daemon d').mapKey :=
    fun d' => (hr.daemon d').1.trans (hb.daemon d').1
  have hinit' : ∀ d', (w'.daemon d').init = (w.daemon d').init :=
    fun d' => (hr.daemon d').2.2.trans (hinit d')
  have hlook : ∀ m, w'.connections.lookup m = (w.connections.erase (w.op t).name).lookup m := by
    intro m
    rw [hconns, hb.connections]
    rfl
  have hlookup : ∀ k, w'.daemons.lookup k =
      if w.refs d ≤ 1 ∧ k = (w.daemon d).mapKey then none else w.daemons.lookup k := by
    intro k
    rw [hr.lookup k, hrefs₁, (hb.daemon d).1, hb.daemons]
    rfl
  have hpos := (h.table.exact.pos_iff d).2 ⟨_, hheld⟩
  have hother : ∀ d', d' ≠ d → w'.refs d' = w.refs d' := fun d' hd => by
    rw [hrefs, update_of_ne hd]
  refine ⟨h.ops.step hbusy hw' ?_ ⟨fun m hm => update_of_ne hm ..,
      fun m hm => by rw [hlook, AList.lookup_erase_ne hm], fun m c _ _ => ?_,
      fun d' hd' => by rwa [hsup']⟩ (.of_not_busy rfl) fun _ => ?_,
    ⟨hrefs ▸ h.table.exact.release hheld, fun n c hc => ?_, fun k d' => ?_, fun d' hd' => ?_,
      fun d' hd' => ?_⟩,
    h.inits.step hw' (.inl rfl) (fun d' => .inl (hinit' d')) fun d' hx => ?_,
    h.moves.step hw' hsup' (fun m hm => update_of_ne hm ..) (fun d' hd' => ?_)
      fun d' e m hx _ hm => ?_⟩
  · rw [hoc, hb.opCount]
    rfl
  · rw [hconn]
    exact (hb.conn c).1
  · rw [update_self, Manager.daemonOf, hlook, AList.lookup_erase]
    rfl
  · rw [hlook] at hc
    rw [hconn, (hb.conn c).2, hcc, hb.connCount]
    exact h.table.named n c (lookup_of_erase hc).2
  · rw [hlookup, hkey, hsup']
    by_cases hd : d' = d
    · subst hd
      rw [hrefs, update_self]
      split_ifs with hlast
      · exact iff_of_false (fun hx => by cases hx) (by omega)
      · rw [h.table.mapped]
        refine and_congr_right fun hk => and_congr_left fun _ => ?_
        have : ¬ w.refs d' ≤ 1 := fun hle => hlast ⟨hle, hk.symm⟩
        omega
    · rw [hother d' hd, ← h.table.mapped]
      split_ifs with hlast
      · rw [hlast.2, hold]
        exact iff_of_false (fun hx => by cases hx) fun hx => hd (Option.some.inj hx).symm
      · rfl
  · obtain ⟨h0, hx⟩ := h.table.unborn d' (by rw [hdc, hb.daemonCount] at hd'; exact hd')
    have hd : d' ≠ d := by
      rintro rfl
      omega
    rw [hother d' hd, hsup']
    exact ⟨h0, hx⟩
  · rw [hsup']
    rcases hr.destroyed d' hd' with hd₁ | ⟨rfl, hlast⟩
    · rw [(hb.daemon d').2.2.2] at hd₁
      obtain ⟨h0, hx⟩ := h.table.destroyed d' hd₁
      have hd : d' ≠ d := by
        rintro rfl
        omega
      rw [hother d' hd]
      exact ⟨h0, hx⟩
    · rw [hrefs₁] at hlast
      rw [hrefs, update_self]
      exact ⟨by omega, hsup⟩
  · rw [hsup'] at hx
    rw [hinit']
    exact h.inits.superseded d' hx
  · rw [update_self] at hd'
    cases hd'
  · have h1 := (h.moves.target d' e m hx hm).1
    by_cases hd : e = d
    · subst hd
      -- somebody is to move to `e`, so this was not the last reference
      obtain ⟨u, -, hu⟩ := h.moves.leaving d' m (by simp [hx]) hm
      have hmore : ¬ w.refs e ≤ 1 := by
        intro hle
        refine hok hle ⟨u, h.begun fun hi => ?_, .inr (by rw [hu]; exact hx)⟩
        simp [hi, Pc.leaving] at hu
      rw [hrefs, update_self]
      omega
    · rwa [hother e hd]

theorem releaseDaemon_keeps (w : Manager) (d : ℕ) :
    (w.releaseDaemon d).op = w.op ∧ (w.releaseDaemon d).connections = w.connections ∧
      (w.releaseDaemon d).conn = w.conn ∧ (w.releaseDaemon d).connCount = w.connCount ∧
      (w.releaseDaemon d).daemonCount = w.daemonCount ∧
      (w.releaseDaemon d).opCount = w.opCount := by
  unfold Manager.releaseDaemon
  dsimp only
  split_ifs <;> exact ⟨rfl, rfl, rfl, rfl, rfl, rfl⟩

namespace Accounts

variable (h : Accounts w held)
include h

theorem destroy (he : Step.Enabled w t (.destroy c d)) (hok : w.refs d ≤ 1 → ¬ w.Awaited d) :
    Accounts (Step.fire w t (.destroy c d)) (update held (w.op t).name none) := by
  obtain ⟨hpc, -⟩ := he
  have hr := released_releaseDaemon (w.unregister (w.op t).name) d
  obtain ⟨hop, hkeeps⟩ := releaseDaemon_keeps (w.unregister (w.op t).name) d
  have hw' : (Step.fire w t (.destroy c d)).op =
      update w.op t { w.op t with pc := .done false } := by
    rw [Step.fire, Manager.setPc, hop]
    rfl
  exact h.release (by simp [hpc, Pc.busy]) (h.own hpc).1 (by simp [hpc, Pc.leaving]) hok
    (.refl _) (fun _ => rfl) ⟨hr.refs, hr.daemon, hr.destroyed, hr.lookup⟩ hw' hkeeps

theorem drop (he : Step.Enabled w t (.drop c))
    (hok : w.refs (w.conn c).daemon ≤ 1 → ¬ w.Awaited (w.conn c).daemon) :
    Accounts (Step.fire w t (.drop c)) (update held (w.op t).name none) := by
  have hpc : (w.op t).pc = .removing c := he
  obtain ⟨d, hheld, huses⟩ := h.own hpc
  cases huses.2
  let w₁ := (w.unregister (w.op t).name).updateDaemonRemoteRoots (w.conn c).daemon
  have hr := released_releaseDaemon w₁ (w.conn c).daemon
  obtain ⟨hop, hkeeps⟩ := releaseDaemon_keeps w₁ (w.conn c).daemon
  have hw' : (Step.fire w t (.drop c)).op = update w.op t { w.op t with pc := .done true } := by
    rw [Step.fire, Manager.setPc, hop]
    rfl
  exact h.release (by simp [hpc, Pc.busy]) hheld (by simp [hpc, Pc.leaving]) hok
    ((Benign.refl _).updateDaemonRemoteRoots _)
    (init_updateDaemonRemoteRoots (w.unregister (w.op t).name) (w.conn c).daemon)
    ⟨hr.refs, hr.daemon, hr.destroyed, hr.lookup⟩ hw' hkeeps

theorem begin {op : Op} (urls : ℕ → Url) (hpc : op.pc = .looking ∨ op.pc = .finding)
    (hfree : w.Free op.name) : Accounts { Event.begin w op with urls := urls } held := by
  set w' : Manager := { Event.begin w op with urls := urls }
  have hself : w'.op w.opCount = op := update_self ..
  have hother : ∀ u, u ≠ w.opCount → w'.op u = w.op u := fun u hu => update_of_ne hu ..
  have hidle := h.ops.unbegun w.opCount le_rfl
  have hbusy : op.pc.busy = true ∧ op.pc.leaving = none ∧ op.pc.runs = none := by
    rcases hpc with hpc | hpc <;> simp [hpc, Pc.busy, Pc.leaving, Pc.runs]
  have hnone : ∀ u, ¬ w.Busy u op.name := by
    intro u hu
    refine hfree u (h.begun fun hi => ?_) hu.1 hu.2
    simp [Manager.Busy, hi, Pc.busy] at hu
  have hruns : ∀ {u d}, (w'.op u).pc.runs = some d → (w.op u).pc.runs = some d := by
    intro u d hu
    by_cases hut : u = w.opCount
    · subst hut
      simp [hself, hbusy.2.2] at hu
    · rwa [hother u hut] at hu
  have hold : ∀ {u n}, w'.Busy u n → u = w.opCount ∧ n = op.name ∨ w.Busy u n := by
    intro u n hu
    by_cases hut : u = w.opCount
    · subst hut
      rw [Manager.Busy, hself] at hu
      exact .inl ⟨rfl, hu.2.symm⟩
    · rw [Manager.Busy, hother u hut] at hu
      exact .inr hu
  refine ⟨⟨fun u => ?_, fun n hn => ?_, fun u v n hu hv => ?_, fun u hu => ?_⟩, { h.table with },
    ⟨fun u d hu => h.inits.running u d (hruns hu),
      fun u v d hu hv => h.inits.sole u v d (hruns hu) (hruns hv), h.inits.superseded⟩,
    h.moves.target, fun d n hd hheld => ?_⟩
  · by_cases hut : u = w.opCount
    · subst hut
      rw [hself]
      unfold OpOk
      rcases hpc with hpc | hpc <;> rw [hpc] <;> exact h.ops.idle _ hnone
    · rw [hother u hut]
      exact (h.ops.ok u).frame rfl rfl (fun _ _ => rfl) fun _ => id
  · refine h.ops.idle n fun u hu => hn u ?_
    have hut : u ≠ w.opCount := by
      rintro rfl
      simp [Manager.Busy, hidle, Pc.busy] at hu
    rwa [Manager.Busy, hother u hut]
  · rcases hold hu with ⟨rfl, rfl⟩ | hu' <;> rcases hold hv with ⟨rfl, hn⟩ | hv'
    · rfl
    · exact absurd hv' (hnone v)
    · exact absurd (hn ▸ hu') (hnone u)
    · exact h.ops.alone u v n hu' hv'
  · have hlt : w.opCount + 1 ≤ u := hu
    rw [hother u (by omega)]
    exact h.ops.unbegun u (by omega)
  · obtain ⟨u, hname, hu⟩ := h.moves.leaving d n hd hheld
    have hut : u ≠ w.opCount := by
      rintro rfl
      simp [hidle, Pc.leaving] at hu
    exact ⟨u, by rw [hother u hut]; exact ⟨hname, hu⟩⟩

end Accounts

end Step

end Graft.Connections
