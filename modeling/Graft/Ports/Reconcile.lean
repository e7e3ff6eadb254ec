import Graft.Ports.Calls

/-!
# Port reconciliation

`reconcilePortForwards` stops the forwards of ports that are neither reported nor explicit, starts
conflicted ones again and starts those that are missing.
-/

namespace Graft.Forwards

open Function (update)
open Config (PortForwardSpec portForwardKey)

/-- The tables have keys that agree with what they are the keys of. -/
structure Tidy (w : Daemon) : Prop where
  explicitPorts : ∀ key spec, w.explicitPorts.lookup key = some spec → spec.key = key
  portForwards : ∀ key i, w.portForwards.lookup key = some i → i < w.fwdCount ∧ (w.fwd i).key = key

theorem Tidy.intend {w : Daemon} (h : Tidy w) (spec : PortForwardSpec) : Tidy (w.intend spec) where
  explicitPorts key spec' hspec := by
    rcases lookup_insert_cases hspec with ⟨rfl, rfl⟩ | ⟨-, hold⟩
    · rfl
    · exact h.explicitPorts key spec' hold
  portForwards := h.portForwards

namespace Daemon

variable {w : Daemon} {ports : List PortInfo} {key : String} {i : ℕ}

/-! ### The ports that are to be forwarded -/

theorem mem_foldl_reported (set : AList fun _ : String => PortInfo) :
    key ∈ ports.foldl (fun set info => set.insert info.key info) set ↔
      key ∈ set ∨ ∃ info ∈ ports, info.key = key := by
  induction ports generalizing set with
  | nil => simp
  | cons info ports ih =>
    grind [AList.mem_insert]

theorem mem_foldl_explicit (l : List (Sigma fun _ : String => PortForwardSpec))
    (set : AList fun _ : String => PortInfo) :
    key ∈ l.foldl (fun set e => if e.1 ∈ set then set else set.insert e.1 (explicitInfo e.2)) set ↔
      key ∈ set ∨ ∃ e ∈ l, e.1 = key := by
  induction l generalizing set with
  | nil => simp
  | cons e l ih =>
    rw [List.foldl_cons, ih, List.exists_mem_cons_iff]
    split_ifs with he
    · constructor
      · rintro (h | h)
        · exact .inl h
        · exact .inr (.inr h)
      · rintro (h | rfl | h)
        · exact .inl h
        · exact .inl he
        · exact .inr h
    · rw [AList.mem_insert, eq_comm]
      tauto

theorem mem_remoteSet :
    key ∈ w.remoteSet ports ↔ (∃ info ∈ ports, info.key = key) ∨ key ∈ w.explicitPorts := by
  have hexplicit : (∃ e ∈ w.explicitPorts.entries, e.1 = key) ↔ key ∈ w.explicitPorts := by
    rw [AList.mem_keys, AList.keys, List.keys, List.mem_map]
  rw [remoteSet, mem_foldl_explicit, mem_foldl_reported, hexplicit]
  simp

def Keyed (set : AList fun _ : String => PortInfo) : Prop :=
  ∀ key info, set.lookup key = some info → info.key = key

theorem Keyed.insert {set : AList fun _ : String => PortInfo} (h : Keyed set) {info : PortInfo}
    (hkey : info.key = key) : Keyed (set.insert key info) := by
  intro key' info' hinfo
  rcases lookup_insert_cases hinfo with ⟨rfl, rfl⟩ | ⟨-, hold⟩
  · exact hkey
  · exact h key' info' hold

theorem keyed_remoteSet (h : Tidy w) : Keyed (w.remoteSet ports) := by
  have hreported : Keyed (ports.foldl (fun set info => set.insert info.key info) ∅) :=
    List.foldlRecOn ports _ nofun fun _ hset _ _ => hset.insert rfl
  refine List.foldlRecOn _ _ hreported fun set hset e he => ?_
  split_ifs
  · exact hset
  · exact hset.insert (h.explicitPorts e.1 e.2 (Option.mem_def.1 (AList.mem_lookup_iff.2 he)))

/-! ### The first section -/

theorem lookup_plan : (w.plan ports).1.portForwards.lookup key = some i ↔
    w.portForwards.lookup key = some i ∧ key ∈ w.remoteSet ports ∧ (w.fwd i).conflict = false := by
  unfold plan
  rw [lookup_stop_eq_some, lookup_stop_eq_some]
  simp only [decide_eq_false_iff_not, not_not, stop_fwd, Bool.and_eq_false_iff]
  tauto

theorem listening_plan : (w.plan ports).1.listening i = true ↔
    w.listening i = true ∧ ∀ key, w.portForwards.lookup key = some i →
      key ∈ w.remoteSet ports ∧ (w.fwd i).conflict = false := by
  unfold plan
  rw [listening_stop, listening_stop, and_assoc, ← forall_and]
  refine and_congr_right fun _ => forall_congr' fun key => ?_
  rw [lookup_stop_eq_some]
  simp only [decide_eq_false_iff_not, not_not, stop_fwd, Bool.and_eq_false_iff]
  tauto

theorem mem_plan {p : PortToStart} : (key, p) ∈ (w.plan ports).2 ↔
    ((w.remoteSet ports).lookup key = some p.info ∧ p.opts = w.optsForKey key) ∧
      key ∉ (w.plan ports).1.portForwards := by
  have hmem : ∀ info, (w.remoteSet ports).lookup key = some info ↔
      (⟨key, info⟩ : Sigma fun _ : String => PortInfo) ∈ (w.remoteSet ports).entries :=
    fun info => by rw [← AList.mem_lookup_iff, Option.mem_def]
  rw [hmem]
  constructor
  · intro h
    obtain ⟨⟨key', info⟩, he, heq⟩ := List.mem_map.1 h
    obtain ⟨hentry, hnot⟩ := List.mem_filter.1 he
    cases heq
    exact ⟨⟨hentry, rfl⟩, of_decide_eq_true hnot⟩
  · rintro ⟨⟨hentry, hopts⟩, hnot⟩
    refine List.mem_map.2 ⟨⟨key, p.info⟩, List.mem_filter.2 ⟨hentry, decide_eq_true hnot⟩, ?_⟩
    obtain ⟨info, opts⟩ := p
    cases hopts
    rfl

theorem nodup_plan (w : Daemon) (ports : List PortInfo) :
    ((w.plan ports).2.map Prod.fst).Nodup := by
  have hkeys : ((w.plan ports).2.map Prod.fst) =
      ((w.remoteSet ports).entries.filter (·.1 ∉ (w.plan ports).1.portForwards)).map Sigma.fst :=
    List.map_map
  rw [hkeys]
  exact (w.remoteSet ports).nodupKeys.sublist List.filter_sublist

/-! ### Starting -/

/-- The forwards `toStart` were started, from the state `w` to `w'`, and entered in `started'`. -/
structure StartedAll (conflict : String → Option String) (toStart : List (String × PortToStart))
    (started : AList fun _ : String => ℕ) (w w' : Daemon) (started' : AList fun _ : String => ℕ) :
    Prop where
  closed : w'.closed = w.closed
  explicitPorts : w'.explicitPorts = w.explicitPorts
  portForwards : w'.portForwards = w.portForwards
  count : w.fwdCount ≤ w'.fwdCount
  fwd : ∀ i < w.fwdCount, w'.fwd i = w.fwd i
  listening : ∀ i < w.fwdCount, w'.listening i = w.listening i
  new : ∀ key p, (key, p) ∈ toStart → ∃ i, (w.fwdCount ≤ i ∧ i < w'.fwdCount) ∧
    started'.lookup key = some i ∧ w'.fwd i = startPortForward p.info p.opts (conflict key) ∧
    w'.listening i = (conflict key).isNone
  kept : ∀ key, key ∉ toStart.map Prod.fst → started'.lookup key = started.lookup key

theorem startAll_spec (conflict : String → Option String) {toStart : List (String × PortToStart)}
    (hnodup : (toStart.map Prod.fst).Nodup) (w : Daemon) (started : AList fun _ : String => ℕ) :
    StartedAll conflict toStart started w (w.startAll conflict started toStart).1
      (w.startAll conflict started toStart).2 := by
  induction toStart generalizing w started with
  | nil => exact ⟨rfl, rfl, rfl, le_rfl, fun _ _ => rfl, fun _ _ => rfl, nofun, fun _ _ => rfl⟩
  | cons first rest ih =>
    obtain ⟨key, p⟩ := first
    obtain ⟨hkey, hrest⟩ := List.nodup_cons.1 hnodup
    have h := ih hrest (w.start p.info p.opts (conflict key)) (started.insert key w.fwdCount)
    rw [startAll]
    refine ⟨h.closed, h.explicitPorts, h.portForwards, (Nat.le_succ _).trans h.count,
      fun i hi => ?_, fun i hi => ?_, fun key' p' hmem => ?_, fun key' hkey' => ?_⟩
    · exact (h.fwd i (Nat.lt_succ_of_lt hi)).trans (start_fwd_of_ne hi.ne)
    · exact (h.listening i (Nat.lt_succ_of_lt hi)).trans (start_listening_of_ne hi.ne)
    · rcases List.mem_cons.1 hmem with heq | hmem
      · cases heq
        have hlt : w.fwdCount < (w.start p.info p.opts (conflict key)).fwdCount :=
          Nat.lt_succ_self _
        refine ⟨w.fwdCount, ⟨le_rfl, hlt.trans_le h.count⟩, ?_, ?_, ?_⟩
        · exact (h.kept key hkey).trans (AList.lookup_insert _)
        · exact (h.fwd _ hlt).trans (start_fwd_self ..)
        · exact (h.listening _ hlt).trans (start_listening_self ..)
      grind [StartedAll.new, start]
    · obtain ⟨hne, hnot⟩ := not_or.1 (mt List.mem_cons.2 hkey')
      exact (h.kept key' hnot).trans (AList.lookup_insert_ne hne)

end Daemon

/-! ### The whole call -/

/-- What `reconcilePortForwards` does to an open daemon. -/
structure Reconciled (w : Daemon) (ports : List PortInfo) (conflict : String → Option String)
    (w' : Daemon) : Prop where
  closed : w'.closed = w.closed
  explicitPorts : w'.explicitPorts = w.explicitPorts
  count : w.fwdCount ≤ w'.fwdCount
  fwd : ∀ i < w.fwdCount, w'.fwd i = w.fwd i
  listening : ∀ i < w.fwdCount, w'.listening i = true ↔ w.listening i = true ∧
    ∀ key, w.portForwards.lookup key = some i →
      key ∈ w.remoteSet ports ∧ (w.fwd i).conflict = false
  /-- the forwards that are not wanted are stopped -/
  stopped : ∀ key, key ∉ w.remoteSet ports → w'.portForwards.lookup key = none
  /-- those that are wanted and work stay -/
  kept : ∀ key i, w.portForwards.lookup key = some i → (w.fwd i).conflict = false →
    key ∈ w.remoteSet ports → w'.portForwards.lookup key = some i
  /-- all others that are wanted are started -/
  started : ∀ key, key ∈ w.remoteSet ports →
    (∀ i, w.portForwards.lookup key = some i → (w.fwd i).conflict = true) →
    ∃ i info, (w.fwdCount ≤ i ∧ i < w'.fwdCount) ∧ w'.portForwards.lookup key = some i ∧
      (w.remoteSet ports).lookup key = some info ∧
      w'.fwd i = startPortForward info (w.optsForKey key) (conflict key) ∧
      w'.listening i = (conflict key).isNone

section Whole

variable {w : Daemon} {ports : List PortInfo} {conflict : String → Option String}

theorem reconciled (ports : List PortInfo) (conflict : String → Option String)
    (hopen : w.closed = false) :
    Reconciled w ports conflict (w.reconcilePortForwards ports conflict) := by
  have hall := Daemon.startAll_spec conflict (Daemon.nodup_plan w ports) (w.plan ports).1 ∅
  set s := (w.plan ports).1.startAll conflict ∅ (w.plan ports).2
  have heq : w.reconcilePortForwards ports conflict =
      { s.1 with portForwards := s.2 ∪ (w.plan ports).1.portForwards } := by
    have hinstall : s.1.install s.2 = { s.1 with portForwards := s.2 ∪ s.1.portForwards } := by
      rw [Daemon.install, if_neg]
      rw [hall.closed, Bool.not_eq_true]
      exact hopen
    rw [← hall.portForwards, ← hinstall]
    rfl
  -- a port is started if and only if it is wanted and not there
  have hstart : ∀ key, key ∈ s.2 ↔
      key ∈ w.remoteSet ports ∧ key ∉ (w.plan ports).1.portForwards := by
    intro key
    by_cases hmem : key ∈ (w.plan ports).2.map Prod.fst
    · obtain ⟨⟨key, p⟩, hp, rfl⟩ := List.mem_map.1 hmem
      obtain ⟨i, -, hi, -⟩ := hall.new key p hp
      obtain ⟨⟨hinfo, -⟩, hnot⟩ := Daemon.mem_plan.1 hp
      exact iff_of_true (AList.lookup_isSome.1 (by rw [hi]; rfl))
        ⟨AList.lookup_isSome.1 (by rw [hinfo]; rfl), hnot⟩
    · rw [← AList.lookup_isSome, hall.kept key hmem]
      refine iff_of_false (by simp) fun ⟨hwant, hnot⟩ => hmem ?_
      obtain ⟨info, hinfo⟩ := Option.isSome_iff_exists.1 (AList.lookup_isSome.2 hwant)
      exact List.mem_map.2 ⟨(key, ⟨info, w.optsForKey key⟩),
        Daemon.mem_plan.2 ⟨⟨hinfo, rfl⟩, hnot⟩, rfl⟩
  have hplanned : ∀ key, key ∈ (w.plan ports).1.portForwards → key ∈ w.remoteSet ports := by
    intro key hkey
    obtain ⟨i, hi⟩ := Option.isSome_iff_exists.1 (AList.lookup_isSome.2 hkey)
    exact (Daemon.lookup_plan.1 hi).2.1
  rw [heq]
  refine ⟨hall.closed, hall.explicitPorts, hall.count, hall.fwd, fun i hi => ?_, fun key hkey => ?_,
    fun key i hi hconflict hkey => ?_, fun key hkey hconflict => ?_⟩
  · rw [← Daemon.listening_plan]
    exact Bool.eq_iff_iff.1 (hall.listening i hi)
  · refine AList.lookup_eq_none.2 fun hmem => hkey ?_
    rcases AList.mem_union.1 hmem with hmem | hmem
    · exact ((hstart key).1 hmem).1
    · exact hplanned key hmem
  · have hplan := Daemon.lookup_plan.2 ⟨hi, hkey, hconflict⟩
    refine (AList.lookup_union_right fun hmem => ?_).trans hplan
    exact ((hstart key).1 hmem).2 (AList.lookup_isSome.1 (by rw [hplan]; rfl))
  · have hnot : key ∉ (w.plan ports).1.portForwards := by
      rw [← AList.lookup_eq_none, Option.eq_none_iff_forall_ne_some]
      intro i hi
      obtain ⟨hi, -, hx⟩ := Daemon.lookup_plan.1 hi
      rw [hconflict i hi] at hx
      cases hx
    obtain ⟨info, hinfo⟩ := Option.isSome_iff_exists.1 (AList.lookup_isSome.2 hkey)
    obtain ⟨i, hi, hlookup, hfwd, hlisten⟩ := hall.new key ⟨info, w.optsForKey key⟩
      (Daemon.mem_plan.2 ⟨⟨hinfo, rfl⟩, hnot⟩)
    refine ⟨i, info, hi, (AList.lookup_union_left ?_).trans hlookup, hinfo, hfwd, hlisten⟩
    exact (hstart key).2 ⟨hkey, hnot⟩

theorem Reconciled.lookup_cases {w' : Daemon} (h : Reconciled w ports conflict w') {key : String}
    {i : ℕ} (hi : w'.portForwards.lookup key = some i) :
    (w.portForwards.lookup key = some i ∧ (w.fwd i).conflict = false ∧ key ∈ w.remoteSet ports) ∨
      ∃ info, i < w'.fwdCount ∧ (w.remoteSet ports).lookup key = some info ∧
        w'.fwd i = startPortForward info (w.optsForKey key) (conflict key) ∧
        w'.listening i = (conflict key).isNone := by
  by_cases hwant : key ∈ w.remoteSet ports
  · by_cases hold : ∃ j, w.portForwards.lookup key = some j ∧ (w.fwd j).conflict = false
    · obtain ⟨j, hj, hconflict⟩ := hold
      cases (h.kept key j hj hconflict hwant).symm.trans hi
      exact .inl ⟨hj, hconflict, hwant⟩
    · have hconflict : ∀ j, w.portForwards.lookup key = some j → (w.fwd j).conflict = true := by
        simp_all
      obtain ⟨j, info, ⟨-, hlt⟩, hj, hinfo, hfwd, hlisten⟩ := h.started key hwant hconflict
      cases hj.symm.trans hi
      exact .inr ⟨info, hlt, hinfo, hfwd, hlisten⟩
  grind [stopped]

end Whole

/-! ### The target -/

def StaysOpen (_ : Daemon) : Call → Prop
  | .add _ attempt => attempt.closes = false
  | .close => False
  | _ => True

/-- The daemon is open, and the forward of an explicit port is explicit and has its local port. -/
structure Inv (w : Daemon) : Prop extends Tidy w where
  opened : w.closed = false
  explicit : ∀ key spec i, w.explicitPorts.lookup key = some spec →
    w.portForwards.lookup key = some i →
    (w.fwd i).explicit = true ∧ (w.fwd i).localPort = spec.effectiveLocalPort

/-- The local port of an explicit forward is the one of the spec, also if that is 0. -/
theorem startPortForward_localPort (info : PortInfo) (spec : PortForwardSpec)
    (h : info.port = spec.remotePort) (conflict : Option String) :
    (startPortForward info (explicitOptions spec) conflict).localPort =
      spec.effectiveLocalPort := by
  grind [startPortForward, explicitOptions, PortForwardSpec.effectiveLocalPort]

namespace Inv

variable {w : Daemon} (h : Inv w)
include h

theorem ne_of_key {key key' : String} {i j : ℕ} (hi : w.portForwards.lookup key = some i)
    (hj : w.portForwards.lookup key' = some j) (hkey : key' ≠ key) : j ≠ i := by
  rintro rfl
  exact hkey ((h.portForwards key' j hj).2.symm.trans (h.portForwards key j hi).2)

theorem shrink {w' : Daemon} (hclosed : w'.closed = false) (hfwd : w'.fwd = w.fwd)
    (hcount : w'.fwdCount = w.fwdCount)
    (hexplicit : ∀ key spec, w'.explicitPorts.lookup key = some spec →
      w.explicitPorts.lookup key = some spec)
    (htable : ∀ key i, w'.portForwards.lookup key = some i → w.portForwards.lookup key = some i) :
    Inv w' where
  opened := hclosed
  explicitPorts key spec hspec := h.explicitPorts key spec (hexplicit key spec hspec)
  portForwards key i hi := by
    rw [hfwd, hcount]
    exact h.portForwards key i (htable key i hi)
  explicit key spec i hspec hi := by
    rw [hfwd]
    grind [explicit]

theorem stop (p : String → ℕ → Bool) : Inv (w.stop p) :=
  h.shrink h.opened rfl rfl (fun _ _ hx => hx) fun _ _ hi => (Daemon.lookup_stop_eq_some.1 hi).1

theorem remove (spec : PortForwardSpec) : Inv (w.removeExplicitPortForward spec).1 := by
  unfold Daemon.removeExplicitPortForward
  grind [shrink, opened, lookup_of_erase, Daemon.lookup_stop_eq_some, Daemon.stop]

theorem serves {spec : PortForwardSpec} {i : ℕ}
    (hi : w.portForwards.lookup spec.key = some i) (hs : w.Serves spec i) :
    Inv { w.intend spec with fwd := update w.fwd i { w.fwd i with explicit := true } } := by
  refine ⟨⟨(h.intend spec).explicitPorts, fun key j hj => ?_⟩, h.opened,
    fun key spec' j hspec hj => ?_⟩
  · dsimp only
    rw [Daemon.update_explicit]
    exact h.portForwards key j hj
  · dsimp only
    rw [Daemon.update_explicit]
    rcases lookup_insert_cases hspec with ⟨rfl, rfl⟩ | ⟨-, hold⟩
    · cases hi.symm.trans hj
      exact ⟨by simp, hs.1⟩
    · obtain ⟨hexplicit, hport⟩ := h.explicit key spec' j hold hj
      exact ⟨by simp [hexplicit], hport⟩

theorem start (info : PortInfo) (opts : PortForwardOptions) (conflict : Option String) :
    Inv (w.start info opts conflict) where
  opened := h.opened
  explicitPorts := h.explicitPorts
  portForwards key i hi := by
    obtain ⟨hlt, hkey⟩ := h.portForwards key i hi
    grind [Daemon.start_fwd_of_ne, Daemon.start]
  explicit key spec i hspec hi := by
    rw [Daemon.start_fwd_of_ne (h.portForwards key i hi).1.ne]
    exact h.explicit key spec i hspec hi

theorem insert {spec : PortForwardSpec} {w₁ : Daemon} (hopened : w₁.closed = false)
    (hexplicit : w₁.explicitPorts = w.explicitPorts.insert spec.key spec) (hfwd : w₁.fwd = w.fwd)
    (hcount : w₁.fwdCount = w.fwdCount)
    (htable : ∀ key i, w₁.portForwards.lookup key = some i → w.portForwards.lookup key = some i) :
    Inv { w₁.start (explicitInfo spec) (explicitOptions spec) none with
      portForwards := w₁.portForwards.insert spec.key w₁.fwdCount } := by
  have hkept : ∀ key i, w₁.portForwards.lookup key = some i → w.portForwards.lookup key = some i ∧
      (w₁.start (explicitInfo spec) (explicitOptions spec) none).fwd i = w.fwd i := by
    intro key i hi
    have hlt := (h.portForwards key i (htable key i hi)).1
    rw [← hcount] at hlt
    rw [Daemon.start_fwd_of_ne hlt.ne, hfwd]
    exact ⟨htable key i hi, rfl⟩
  refine ⟨⟨?_, fun key i hi => ?_⟩, hopened, fun key spec' i hspec hi => ?_⟩
  · rw [Daemon.start_explicitPorts, hexplicit]
    exact (h.intend spec).explicitPorts
  · rcases lookup_insert_cases hi with ⟨rfl, rfl⟩ | ⟨-, hi⟩
    · rw [Daemon.start_fwd_self]
      exact ⟨Nat.lt_succ_self _, rfl⟩
    · obtain ⟨hold, heq⟩ := hkept key i hi
      obtain ⟨hlt, hkey⟩ := h.portForwards key i hold
      grind [Daemon.start_fwdCount]
  · rw [Daemon.start_explicitPorts, hexplicit] at hspec
    rcases lookup_insert_cases hi with ⟨rfl, rfl⟩ | ⟨hne, hi⟩
    · cases (AList.lookup_insert _).symm.trans hspec
      rw [Daemon.start_fwd_self]
      exact ⟨rfl, startPortForward_localPort _ spec rfl _⟩
    grind [explicit, AList.lookup_insert_ne]

theorem add (spec : PortForwardSpec) {attempt : Daemon.Attempt} (hcloses : attempt.closes = false) :
    Inv (w.addExplicitPortForward spec attempt).1 := by
  rcases Daemon.record_cases w spec with hmem | ⟨i, hmem, hi, hs⟩ | hstarts
  · rw [Daemon.add_of_mem hmem]
    exact h
  · simp_all [Daemon.add_of_serves, serves]
  have hclosed : (w.restarted spec attempt).closed = false := by simp [h.opened, hcloses]
  have htable : ∀ key i, (w.restarted spec attempt).portForwards.lookup key = some i →
      w.portForwards.lookup key = some i := by
    intro key i hi
    rw [Daemon.lookup_restarted] at hi
    split_ifs at hi
    exact hi
  cases hconflict : attempt.conflict with
  | none =>
    rw [Daemon.add_of_open hstarts hconflict hclosed]
    exact h.insert hclosed (Daemon.explicitPorts_restarted ..) (Daemon.fwd_restarted ..)
      (Daemon.fwdCount_restarted ..) htable
  | some reason =>
    rw [Daemon.add_of_conflict hstarts hconflict]
    refine (h.start (explicitInfo spec) (explicitOptions spec) (some reason)).shrink hclosed ?_ ?_
      (fun key spec' hspec => ?_) htable
    · simp [Daemon.start]
    · simp
    · rw [Daemon.explicitPorts_restarted] at hspec
      obtain ⟨hne, hspec⟩ := lookup_of_erase hspec
      exact (AList.lookup_insert_ne hne).symm.trans hspec

theorem reconcile (ports : List PortInfo) (conflict : String → Option String) :
    Inv (w.reconcilePortForwards ports conflict) := by
  have hr := reconciled ports conflict h.opened
  refine ⟨⟨?_, fun key i hi => ?_⟩, hr.closed.trans h.opened, fun key spec i hspec hi => ?_⟩
  · rw [hr.explicitPorts]
    exact h.explicitPorts
  · rcases hr.lookup_cases hi with ⟨hold, -⟩ | ⟨info, hlt, hinfo, hfwd, -⟩
    · obtain ⟨hlt, hkey⟩ := h.portForwards key i hold
      rw [hr.fwd i hlt]
      exact ⟨hlt.trans_le hr.count, hkey⟩
    · rw [hfwd]
      exact ⟨hlt, Daemon.keyed_remoteSet h.toTidy key info hinfo⟩
  · rw [hr.explicitPorts] at hspec
    rcases hr.lookup_cases hi with ⟨hold, -⟩ | ⟨info, -, hinfo, hfwd, -⟩
    · rw [hr.fwd i (h.portForwards key i hold).1]
      grind [explicit]
    · -- it was started with the options of the spec
      have hkey : portForwardKey info.protocol info.port =
          portForwardKey spec.effectiveProtocol spec.remotePort :=
        (Daemon.keyed_remoteSet h.toTidy key info hinfo).trans (h.explicitPorts key spec hspec).symm
      rw [hfwd, Daemon.optsForKey, hspec]
      exact ⟨rfl, startPortForward_localPort info spec (portForwardKey_inj hkey).2 _⟩

end Inv

theorem Inv.init : Inv .init where
  opened := rfl
  explicitPorts _ _ hx := nomatch hx
  portForwards _ _ hx := nomatch hx
  explicit _ _ _ hx := nomatch hx

theorem Inv.fire {w : Daemon} (h : Inv w) {call : Call} (hok : StaysOpen w call) :
    Inv (call.fire w) := by
  cases call with
  | add spec attempt => exact h.add spec hok
  | remove spec => exact h.remove spec
  | reconcile ports conflict => exact h.reconcile ports conflict
  | teardown => exact h.stop _
  | close => exact hok.elim

theorem inv_of_run {w : Daemon} (hrun : calls.Run StaysOpen .init w) : Inv w :=
  hrun.invariant .init fun _ _ h _ hok => h.fire hok

/-- **Reconciliation reaches its target.** -/
theorem reconcile_target {w w' : Daemon} (hrun : calls.Run StaysOpen .init w)
    (ports : List PortInfo) (conflict : String → Option String)
    (hw' : w' = w.reconcilePortForwards ports conflict) :
    -- the keys are those of the reported ports and of the explicit ones
    (∀ key, key ∈ w'.portForwards ↔
      (∃ info ∈ ports, info.key = key) ∨ key ∈ w'.explicitPorts) ∧
    w'.explicitPorts = w.explicitPorts ∧
    -- a forward that is wanted and works stays as it is
    (∀ key i, w.portForwards.lookup key = some i → (w.fwd i).conflict = false →
      key ∈ w'.portForwards → w'.portForwards.lookup key = some i ∧ w'.fwd i = w.fwd i) ∧
    -- one that is wanted and does not was started again
    (∀ key i, w.portForwards.lookup key = some i → (w.fwd i).conflict = true →
      key ∈ w'.portForwards → ∃ j, w.fwdCount ≤ j ∧ w'.portForwards.lookup key = some j ∧
        (w'.fwd j).conflict = (conflict key).isSome ∧ w'.listening j = (conflict key).isNone) ∧
    -- the forward of an explicit port is explicit, with the local port that was asked for
    ∀ key spec, w'.explicitPorts.lookup key = some spec →
      ∃ i, w'.portForwards.lookup key = some i ∧ (w'.fwd i).explicit = true ∧
        (w'.fwd i).localPort = spec.effectiveLocalPort := by
  subst hw'
  have h := inv_of_run hrun
  have hr := reconciled ports conflict h.opened
  have hkeys : ∀ key, key ∈ (w.reconcilePortForwards ports conflict).portForwards ↔
      key ∈ w.remoteSet ports := by
    intro key
    constructor
    · intro hmem
      by_contra hnot
      exact AList.lookup_eq_none.1 (hr.stopped key hnot) hmem
    · intro hwant
      by_contra hnot
      have hold : ∀ i, w.portForwards.lookup key = some i → (w.fwd i).conflict = true := by
        intro i hi
        by_contra hx
        have hkept := hr.kept key i hi (by simpa using hx) hwant
        grind [AList.lookup_eq_none]
      grind [AList.lookup_eq_none, Reconciled.started]
  refine ⟨fun key => ?_, hr.explicitPorts, fun key i hi hconflict hmem => ?_,
    fun key i hi hconflict hmem => ?_, fun key spec hspec => ?_⟩
  · rw [hkeys, Daemon.mem_remoteSet, hr.explicitPorts]
  · exact ⟨hr.kept key i hi hconflict ((hkeys key).1 hmem), hr.fwd i (h.portForwards key i hi).1⟩
  · have hold : ∀ j, w.portForwards.lookup key = some j → (w.fwd j).conflict = true := by
      simp_all
    obtain ⟨j, info, ⟨hle, -⟩, hj, -, hfwd, hlisten⟩ := hr.started key ((hkeys key).1 hmem) hold
    exact ⟨j, hle, hj, by rw [hfwd]; rfl, hlisten⟩
  · have hwant : key ∈ w.remoteSet ports := by
      grind [Daemon.mem_remoteSet, Reconciled.explicitPorts, AList.lookup_isSome]
    obtain ⟨i, hi⟩ := Option.isSome_iff_exists.1 (AList.lookup_isSome.2 ((hkeys key).2 hwant))
    grind [Inv.explicit, Inv.reconcile]

/-- Port 80 of the remote, while the local port is in use. -/
def conflicted80 : Daemon := Daemon.init.reconcilePortForwards [⟨80, "tcp"⟩] fun _ => some "in use"

/-- The theorem at a forward that is started again. -/
theorem reconcile_target_retried :
    calls.Run StaysOpen .init conflicted80 ∧ (conflicted80.fwd 0).conflict = true ∧
      ∃ j, 1 ≤ j ∧ (conflicted80.reconcilePortForwards [⟨80, "tcp"⟩]
        fun _ => none).portForwards.lookup "tcp:80" = some j := by
  have hrun : calls.Run StaysOpen .init conflicted80 :=
    Machine.Run.refl.step (e := Call.reconcile [⟨80, "tcp"⟩] fun _ => some "in use") trivial trivial
  obtain ⟨-, -, -, hretried, -⟩ := reconcile_target hrun [⟨80, "tcp"⟩] (fun _ => none) rfl
  obtain ⟨j, hj, hlookup, -⟩ := hretried "tcp:80" 0 (by decide +kernel) (by decide +kernel)
    (by decide +kernel)
  exact ⟨hrun, by decide +kernel, j, hj, hlookup⟩

end Graft.Forwards
