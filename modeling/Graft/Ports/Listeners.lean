import Graft.Ports.Reconcile

/-!
# Listeners are recorded

`AddExplicitPortForward` and `reconcilePortForwards` decide what to start, release the lock, start
it, and enter it in the table when they have the lock again.  What another call has entered there in
the meantime is overwritten and goes on listening.
-/

namespace Graft.Forwards

open Function (update update_self update_of_ne)
open Config (PortForwardSpec)
open Daemon (PortToStart)

variable {t : ℕ} {op : Op}

/-! ### Calls one after the other -/

def State.calling (daemon : Daemon) (op : Op) : State := ⟨daemon, update (fun _ => .idle) 0 op⟩

section Sequential

variable {w w' : Daemon} {op op' : Op}

theorem State.quiet_eq (w : Daemon) : State.quiet w = .calling w .idle :=
  congrArg (State.mk w) (Function.update_eq_self ..).symm

theorem State.calling_op (w : Daemon) (op : Op) : (State.calling w op).op 0 = op := rfl

theorem State.update_calling (w : Daemon) (op op' : Op) :
    update (State.calling w op).op 0 op' = (State.calling w op').op := Function.update_idem ..

theorem reachable_calling (e : Event) (he : e.Enabled (.calling w op))
    (hfire : e.fire (.calling w op) = .calling w' op') :
    forwards.Reachable (.calling w op) (.calling w' op') := by
  rw [← hfire]
  exact Machine.Run.refl.step (M := forwards) he trivial

theorem reachable_add (w : Daemon) (spec : PortForwardSpec) (attempt : Daemon.Attempt) :
    forwards.Reachable (.calling w .idle)
      (.calling (w.addExplicitPortForward spec attempt).1 .idle) := by
  unfold Daemon.addExplicitPortForward
  rcases hrecord : w.record spec with ⟨w₁, again⟩
  have hfirst : forwards.Reachable (.calling w .idle)
      (.calling w₁ (if again then .adding spec else .idle)) := by
    refine reachable_calling (.add 0 spec) (State.calling_op ..) ?_
    rw [Event.fire, State.update_calling]
    show State.calling (w.record spec).1 (if (w.record spec).2 then _ else _) = _
    rw [hrecord]
  cases again with
  | false => exact hfirst
  | true =>
    let w₂ := if attempt.closes then w₁.close else w₁
    have hclose : forwards.Reachable (.calling w₁ (.adding spec)) (.calling w₂ (.adding spec)) := by
      unfold w₂
      split_ifs
      · exact reachable_calling .close trivial rfl
      · exact .refl
    have hstart : forwards.Reachable (.calling w₂ (.adding spec))
        (.calling (w₂.start (explicitInfo spec) (explicitOptions spec) attempt.conflict)
          (.added spec w₂.fwdCount)) :=
      reachable_calling (.startAdd 0 spec attempt.conflict) (State.calling_op ..)
        (congrArg (State.mk _) (State.update_calling ..))
    refine ((hfirst.trans hclose).trans hstart).trans ?_
    exact reachable_calling (.finishAdd 0 spec w₂.fwdCount) (State.calling_op ..)
      (congrArg (State.mk _) (State.update_calling ..))

theorem reachable_startAll (conflict : String → Option String)
    {toStart : List (String × PortToStart)} (hnodup : (toStart.map Prod.fst).Nodup) (w : Daemon)
    (started : AList fun _ : String => ℕ) :
    forwards.Reachable (.calling w (.reconciling toStart started))
      (.calling (w.startAll conflict started toStart).1
        (.reconciling [] (w.startAll conflict started toStart).2)) := by
  induction toStart generalizing w started with
  | nil => exact .refl
  | cons first rest ih =>
    obtain ⟨key, p⟩ := first
    obtain ⟨hkey, hrest⟩ := List.nodup_cons.1 hnodup
    have hfilter : ((key, p) :: rest).filter (·.1 ≠ key) = rest := by
      rw [List.filter_cons_of_neg (by simp)]
      exact List.filter_eq_self.2 fun e he =>
        decide_eq_true fun heq => hkey (List.mem_map.2 ⟨e, he, heq⟩)
    refine Machine.Run.trans ?_ (ih hrest _ _)
    refine reachable_calling (.startNext 0 key p ((key, p) :: rest) started (conflict key))
      ⟨State.calling_op .., List.mem_cons_self⟩ ?_
    rw [Event.fire, hfilter]
    exact congrArg (State.mk _) (State.update_calling ..)

theorem reachable_reconcile (w : Daemon) (ports : List PortInfo)
    (conflict : String → Option String) :
    forwards.Reachable (.calling w .idle)
      (.calling (w.reconcilePortForwards ports conflict) .idle) := by
  have hplan : forwards.Reachable (.calling w .idle)
      (.calling (w.plan ports).1 (.reconciling (w.plan ports).2 ∅)) :=
    reachable_calling (.reconcile 0 ports) (State.calling_op ..)
      (congrArg (State.mk _) (State.update_calling ..))
  refine (hplan.trans (reachable_startAll conflict (Daemon.nodup_plan w ports) _ ∅)).trans ?_
  exact reachable_calling (.install 0 _) (State.calling_op ..)
    (congrArg (State.mk _) (State.update_calling ..))

/-- **Calls one after the other** are runs of the machine. -/
theorem calls_interleave (h : calls.Reachable w w') :
    forwards.Reachable (.quiet w) (.quiet w') := by
  rw [State.quiet_eq, State.quiet_eq]
  refine h.invariant (I := fun w' => forwards.Reachable (.calling w .idle) (.calling w' .idle))
    .refl fun w' call hreach _ _ => hreach.trans ?_
  cases call with
  | add spec attempt => exact reachable_add w' spec attempt
  | remove spec => exact reachable_calling (.remove spec) trivial rfl
  | reconcile ports conflict => exact reachable_reconcile w' ports conflict
  | teardown => exact reachable_calling .teardown trivial rfl
  | close => exact reachable_calling .close trivial rfl

theorem calls_interleave_conflicted : forwards.Reachable (.quiet .init) (.quiet conflicted80) :=
  calls_interleave (Machine.Run.refl.step (M := calls)
    (e := .reconcile [⟨80, "tcp"⟩] fun _ => some "in use") trivial trivial)

end Sequential

/-! ### The invariant -/

/-- The call has started forward `i`, and has not entered it. -/
def Op.Holds (i : ℕ) : Op → Prop
  | .added _ j => j = i
  | .reconciling _ started => ∃ key, started.lookup key = some i
  | .idle | .adding _ => False

def Op.Sound (w : Daemon) : Op → Prop
  | .added spec i => i < w.fwdCount ∧ (w.fwd i).key = spec.key ∧ (w.fwd i).explicit = true
  | .reconciling toStart started =>
    (∀ e ∈ toStart, e.2.info.key = e.1 ∧ e.1 ∉ started) ∧
      ∀ key i, started.lookup key = some i → i < w.fwdCount ∧ (w.fwd i).key = key
  | .idle | .adding _ => True

/-- Every listener is in the table, or with the call that has started it. -/
structure Owned (w : State) : Prop extends Tidy w.daemon where
  explicit : ∀ key i, w.daemon.portForwards.lookup key = some i →
    ((w.daemon.fwd i).explicit = true ↔ key ∈ w.daemon.explicitPorts)
  conflict : ∀ i, (w.daemon.fwd i).conflict = true → w.daemon.listening i = false
  op : ∀ t, (w.op t).Sound w.daemon
  covers : Covers w.daemon.portForwards
    (fun i => w.daemon.listening i = true ∧ ∀ t, ¬ (w.op t).Holds i) fun i => (w.daemon.fwd i).key

/-- What a call enters takes the place of nothing that listens, and is explicit if the port is. -/
def Undisturbed (w : State) : Event → Prop
  | .finishAdd _ spec i =>
    ((w.daemon.fwd i).conflict = true → spec.key ∈ w.daemon.explicitPorts →
      w.daemon.portForwards.lookup spec.key = none) ∧
    ((w.daemon.fwd i).conflict = false → w.daemon.closed = false →
      spec.key ∈ w.daemon.explicitPorts ∧
        ∀ j ∈ w.daemon.portForwards.lookup spec.key, w.daemon.listening j = false)
  | .install _ started => w.daemon.closed = false → ∀ key i, started.lookup key = some i →
    ((w.daemon.fwd i).explicit = true ↔ key ∈ w.daemon.explicitPorts) ∧
      ∀ j ∈ w.daemon.portForwards.lookup key, w.daemon.listening j = false
  | _ => True

theorem Op.Sound.mono {w w' : Daemon} (h : op.Sound w) (hcount : w.fwdCount ≤ w'.fwdCount)
    (hfwd : ∀ i < w.fwdCount, (w'.fwd i).key = (w.fwd i).key ∧
      ((w.fwd i).explicit = true → (w'.fwd i).explicit = true)) : op.Sound w' := by
  cases op with
  | idle | adding _ => trivial
  | added spec i =>
    obtain ⟨hi, hkey, hexplicit⟩ := h
    exact ⟨hi.trans_le hcount, (hfwd i hi).1.trans hkey, (hfwd i hi).2 hexplicit⟩
  | reconciling toStart started =>
    refine ⟨h.1, fun key i hi => ?_⟩
    obtain ⟨hlt, hkey⟩ := h.2 key i hi
    exact ⟨hlt.trans_le hcount, (hfwd i hlt).1.trans hkey⟩

theorem sound_update {ops : ℕ → Op} {w : Daemon} (h : ∀ t, (ops t).Sound w)
    (hop : op.Sound w) : ∀ t', (update ops t op t').Sound w :=
  (Function.forall_update_iff ops fun _ op => op.Sound w).2 ⟨hop, fun t' _ => h t'⟩

theorem holds_update {ops : ℕ → Op} {i : ℕ} (hop : (ops t).Holds i → op.Holds i)
    (t' : ℕ) (ht' : (ops t').Holds i) : (update ops t op t').Holds i := by
  grind

namespace Owned

variable {w : State} (h : Owned w)
include h

theorem shrink {w' : State} (hfwd : w'.daemon.fwd = w.daemon.fwd)
    (hcount : w'.daemon.fwdCount = w.daemon.fwdCount)
    (hkeys : ∀ key spec, w'.daemon.explicitPorts.lookup key = some spec → spec.key = key)
    (htable : ∀ key i, w'.daemon.portForwards.lookup key = some i →
      w.daemon.portForwards.lookup key = some i ∧
        (key ∈ w.daemon.explicitPorts ↔ key ∈ w'.daemon.explicitPorts))
    (hlistening : ∀ i, w'.daemon.listening i = true → w.daemon.listening i = true ∧
      (∀ key, w.daemon.portForwards.lookup key = some i →
        w'.daemon.portForwards.lookup key = some i) ∧
      ∀ t, (w.op t).Holds i → (w'.op t).Holds i)
    (hop : ∀ t, (w'.op t).Sound w.daemon) : Owned w' where
  explicitPorts := hkeys
  portForwards key i hi := by
    rw [hfwd, hcount]
    exact h.portForwards key i (htable key i hi).1
  explicit key i hi := by
    rw [hfwd, ← (htable key i hi).2]
    exact h.explicit key i (htable key i hi).1
  conflict i hi := by
    rw [hfwd] at hi
    by_contra hlisten
    rw [Bool.not_eq_false] at hlisten
    exact absurd (hlistening i hlisten).1 (by rw [h.conflict i hi]; exact Bool.false_ne_true)
  op t := (hop t).mono hcount.ge fun i _ => by rw [hfwd]; exact ⟨rfl, id⟩
  covers i := by
    rintro ⟨hlisten, hnot⟩
    obtain ⟨hold, hkept, hheld⟩ := hlistening i hlisten
    rw [hfwd]
    exact hkept _ (h.covers i ⟨hold, fun t ht => hnot t (hheld t ht)⟩)

theorem stop {w' : State} {p : String → ℕ → Bool} (hfwd : w'.daemon.fwd = w.daemon.fwd)
    (hcount : w'.daemon.fwdCount = w.daemon.fwdCount)
    (htable : w'.daemon.portForwards = (w.daemon.stop p).portForwards)
    (hlistening : w'.daemon.listening = (w.daemon.stop p).listening)
    (hkeys : ∀ key spec, w'.daemon.explicitPorts.lookup key = some spec → spec.key = key)
    (hexplicit : ∀ key i, p key i = false →
      (key ∈ w.daemon.explicitPorts ↔ key ∈ w'.daemon.explicitPorts))
    (hop : ∀ t, (w'.op t).Sound w.daemon) (hheld : ∀ t i, (w.op t).Holds i → (w'.op t).Holds i) :
    Owned w' := by
  refine h.shrink hfwd hcount hkeys (fun key i hi => ?_) (fun i hi => ?_) hop
  · grind [Daemon.lookup_stop_eq_some]
  · simp_all [Daemon.listening_stop, Daemon.lookup_stop_eq_some]

theorem remove (spec : PortForwardSpec) :
    Owned { w with daemon := (w.daemon.removeExplicitPortForward spec).1 } := by
  unfold Daemon.removeExplicitPortForward
  split_ifs
  · refine h.stop (p := fun key _ => key = spec.key) rfl rfl rfl rfl (fun key s hs => ?_)
      (fun key i hp => ?_) h.op fun _ _ => id
    · exact h.explicitPorts key s (lookup_of_erase hs).2
    · exact (AList.mem_erase.trans (and_iff_right (of_decide_eq_false hp))).symm
  · exact h

theorem stopAll {closed : Bool} :
    Owned { w with daemon := { w.daemon.stop fun _ _ => true with closed := closed } } :=
  h.stop (p := fun _ _ => true) rfl rfl rfl rfl h.explicitPorts nofun h.op fun _ _ => id

theorem expire (i : ℕ) :
    Owned { w with
      daemon := { w.daemon with listening := update w.daemon.listening i false } } := by
  refine h.shrink rfl rfl h.explicitPorts (fun _ _ hi => ⟨hi, Iff.rfl⟩) (fun j hj => ?_) h.op
  refine ⟨?_, fun _ hkey => hkey, fun _ => id⟩
  by_cases hne : j = i
  · subst hne
    exact absurd ((update_self ..).symm.trans hj) Bool.false_ne_true
  · exact (update_of_ne hne ..).symm.trans hj

theorem plan (ht : w.op t = .idle) (ports : List PortInfo) :
    Owned ⟨(w.daemon.plan ports).1, update w.op t (.reconciling (w.daemon.plan ports).2 ∅)⟩ := by
  refine h.shrink rfl rfl h.explicitPorts (fun key i hi => ⟨(Daemon.lookup_plan.1 hi).1, Iff.rfl⟩)
    (fun i hi => ?_) (sound_update h.op ⟨fun e he => ⟨?_, AList.notMem_empty _⟩, nofun⟩)
  · obtain ⟨hlisten, hkept⟩ := Daemon.listening_plan.1 hi
    refine ⟨hlisten, fun key hkey => Daemon.lookup_plan.2 ⟨hkey, hkept key hkey⟩, ?_⟩
    exact holds_update fun hx => by rw [ht] at hx; exact hx.elim
  · exact Daemon.keyed_remoteSet h.toTidy _ _ (Daemon.mem_plan.1 he).1.1

theorem start {info : PortInfo} {opts : PortForwardOptions}
    {conflict : Option String} (hop : op.Sound (w.daemon.start info opts conflict))
    (hheld : ∀ i, (w.op t).Holds i → op.Holds i) (hnew : op.Holds w.daemon.fwdCount) :
    Owned ⟨w.daemon.start info opts conflict, update w.op t op⟩ where
  explicitPorts := h.explicitPorts
  portForwards key i hi := by
    obtain ⟨hlt, hkey⟩ := h.portForwards key i hi
    grind [Daemon.start_fwd_of_ne, Daemon.start]
  explicit key i hi := by
    rw [Daemon.start_fwd_of_ne (h.portForwards key i hi).1.ne]
    exact h.explicit key i hi
  conflict i hi := by
    by_cases hne : i = w.daemon.fwdCount
    · subst hne
      rw [Daemon.start_fwd_self] at hi
      rw [Daemon.start_listening_self, ← Option.not_isSome, Bool.not_eq_false']
      exact hi
    grind [Daemon.start_listening_of_ne, conflict, Daemon.start_fwd_of_ne]
  op := sound_update (fun t' => (h.op t').mono (Nat.le_succ _) fun i hi => by
    rw [Daemon.start_fwd_of_ne hi.ne]
    exact ⟨rfl, id⟩) hop
  covers := h.covers.mono fun i ⟨hlisten, hnot⟩ => by
    have hne : i ≠ w.daemon.fwdCount := by
      rintro rfl
      refine hnot t (Eq.mpr (congrArg _ ?_) hnew)
      exact update_self ..
    rw [Daemon.start_listening_of_ne hne] at hlisten
    rw [Daemon.start_fwd_of_ne hne]
    exact ⟨⟨hlisten, fun t' ht' => hnot t' (holds_update (hheld i) t' ht')⟩, rfl⟩

theorem enter {started : AList fun _ : String => ℕ}
    (hstarted : ∀ key i, started.lookup key = some i → i < w.daemon.fwdCount ∧
      (w.daemon.fwd i).key = key)
    (hheld : ∀ i, (w.op t).Holds i → ∃ key, started.lookup key = some i)
    (hok : ∀ key i, started.lookup key = some i →
      ((w.daemon.fwd i).explicit = true ↔ key ∈ w.daemon.explicitPorts) ∧
        ∀ j ∈ w.daemon.portForwards.lookup key, w.daemon.listening j = false) :
    Owned ⟨{ w.daemon with portForwards := started ∪ w.daemon.portForwards },
      update w.op t .idle⟩ := by
  have hcases : ∀ key i, (started ∪ w.daemon.portForwards).lookup key = some i →
      started.lookup key = some i ∨ w.daemon.portForwards.lookup key = some i := by
    intro key i hi
    rcases (AList.mem_lookup_union).1 (Option.mem_def.2 hi) with hnew | ⟨-, hold⟩
    · exact .inl hnew
    · exact .inr hold
  refine ⟨⟨h.explicitPorts, fun key i hi => ?_⟩, fun key i hi => ?_, h.conflict,
    sound_update h.op trivial, h.covers.union ?_⟩
  · exact (hcases key i hi).elim (hstarted key i) (h.portForwards key i)
  · exact (hcases key i hi).elim (fun hi => (hok key i hi).1) (h.explicit key i)
  · rintro i ⟨hlisten, hnot⟩
    by_cases hi : (w.op t).Holds i
    · obtain ⟨key, hkey⟩ := hheld i hi
      left
      rw [(hstarted key i hkey).2]
      exact hkey
    · right
      have hold : w.daemon.listening i = true ∧ ∀ t', ¬ (w.op t').Holds i :=
        ⟨hlisten, fun t' ht' => hnot t' (holds_update (fun hx => absurd hx hi) t' ht')⟩
      refine ⟨⟨hold, rfl⟩, fun hmem => ?_⟩
      -- one that listens is not overwritten
      obtain ⟨j, hj⟩ := Option.isSome_iff_exists.1 (AList.lookup_isSome.2 hmem)
      have hoff := (hok _ j hj).2 i (h.covers i hold)
      rw [hlisten] at hoff
      cases hoff

theorem serves {spec : PortForwardSpec} {i : ℕ}
    (hi : w.daemon.portForwards.lookup spec.key = some i) :
    Owned { w with daemon := { w.daemon.intend spec with
      fwd := update w.daemon.fwd i { w.daemon.fwd i with explicit := true } } } := by
  have hkeys : ∀ j, (update w.daemon.fwd i { w.daemon.fwd i with explicit := true } j).key =
      (w.daemon.fwd j).key := fun j => by rw [Daemon.update_explicit]; rfl
  refine ⟨⟨(h.intend spec).explicitPorts, fun key j hj => ?_⟩, fun key j hj => ?_, fun j hj => ?_,
    fun t => (h.op t).mono le_rfl fun j _ => ⟨hkeys j, fun hx => ?_⟩, ?_⟩
  · exact (h.portForwards key j hj).imp_right (hkeys j).trans
  · -- the other forwards are at other keys
    have hji : j = i ↔ key = spec.key := by
      constructor
      · rintro rfl
        exact (h.portForwards key j hj).2.symm.trans (h.portForwards spec.key j hi).2
      · rintro rfl
        exact Option.some.inj (hj.symm.trans hi)
    dsimp only
    rw [Daemon.update_explicit]
    simp [Daemon.intend, AList.mem_insert, h.explicit key j hj, hji]
  · dsimp only at hj
    rw [Daemon.update_explicit] at hj
    exact h.conflict j hj
  · dsimp only
    rw [Daemon.update_explicit]
    simp [hx]
  · exact h.covers.mono fun j hj => ⟨hj, hkeys j⟩

theorem add (ht : w.op t = .idle) (spec : PortForwardSpec) : Owned ⟨(w.daemon.record spec).1,
      update w.op t (if (w.daemon.record spec).2 then .adding spec else .idle)⟩ := by
  have hidle : update w.op t .idle = w.op := by rw [← ht, Function.update_eq_self]
  rcases Daemon.record_cases w.daemon spec with hmem | ⟨i, hmem, hi, hs⟩ | hstarts
  · rw [Daemon.record_of_mem hmem]
    simpa [hidle] using h
  · grind [serves, Daemon.record]
  · rw [Daemon.record_of_starts hstarts]
    refine h.stop (p := fun key _ => key = spec.key) rfl rfl rfl rfl
      (h.intend spec).explicitPorts (fun key i hp => ?_) (sound_update h.op trivial)
      fun t' i => holds_update (fun hx => by rw [ht] at hx; exact hx.elim) t'
    exact ((AList.mem_insert _).trans (or_iff_right (of_decide_eq_false hp))).symm

theorem cancel {started : AList fun _ : String => ℕ}
    (hheld : ∀ i, (w.op t).Holds i → ∃ key, started.lookup key = some i) :
    Owned ⟨w.daemon.cancel started, update w.op t .idle⟩ := by
  refine h.shrink rfl rfl h.explicitPorts (fun _ _ hi => ⟨hi, Iff.rfl⟩) (fun i hi => ?_)
    (sound_update h.op trivial)
  obtain ⟨hlisten, hnot⟩ := Daemon.listening_cancel.1 hi
  refine ⟨hlisten, fun _ hkey => hkey, holds_update fun hx => ?_⟩
  obtain ⟨key, hkey⟩ := hheld i hx
  exact absurd hkey (hnot key)

theorem finish {spec : PortForwardSpec} {i : ℕ} (ht : w.op t = .added spec i)
    (hok : Undisturbed w (.finishAdd t spec i)) :
    Owned ⟨(w.daemon.finish spec i).1, update w.op t .idle⟩ := by
  have hsound := h.op t
  rw [ht] at hsound
  obtain ⟨hlt, hkey, hexplicit⟩ := hsound
  have hheld : ∀ j, (w.op t).Holds j → i = j := fun j hj => by rwa [ht] at hj
  have hsingle : ∀ key j, (AList.singleton spec.key i : AList fun _ : String => ℕ).lookup key =
      some j ↔ key = spec.key ∧ j = i := by
    intro key j
    constructor
    · intro hj
      rcases lookup_insert_cases (m := ∅) hj with heq | ⟨-, hx⟩
      · exact heq
      · cases hx
    · rintro ⟨rfl, rfl⟩
      exact AList.lookup_insert ∅
  unfold Daemon.finish
  split_ifs with hconflict hclosed
  · refine h.shrink rfl rfl (fun key s hs => h.explicitPorts key s (lookup_of_erase hs).2)
      (fun key j hj => ⟨hj, ?_⟩) (fun j hj => ?_) (sound_update h.op trivial)
    · grind [AList.mem_erase, Undisturbed]
    · grind [conflict]
  · exact h.cancel fun j hj => ⟨spec.key, (hsingle ..).2 ⟨rfl, (hheld j hj).symm⟩⟩
  · rw [Bool.not_eq_true] at hconflict hclosed
    obtain ⟨hmem, hfree⟩ := hok.2 hconflict hclosed
    rw [insert_eq_union]
    refine h.enter (fun key j hj => ?_) (fun j hj => ⟨spec.key, (hsingle ..).2 ⟨rfl, ?_⟩⟩)
      fun key j hj => ?_
    · simp_all
    · exact (hheld j hj).symm
    · grind

theorem install {started : AList fun _ : String => ℕ}
    (ht : w.op t = .reconciling [] started) (hok : Undisturbed w (.install t started)) :
    Owned ⟨w.daemon.install started, update w.op t .idle⟩ := by
  have hsound := h.op t
  rw [ht] at hsound
  have hheld : ∀ i, (w.op t).Holds i → ∃ key, started.lookup key = some i :=
    fun i hi => by rwa [ht] at hi
  unfold Daemon.install
  split_ifs with hclosed
  · exact h.cancel hheld
  · exact h.enter hsound.2 hheld (hok (Bool.eq_false_of_not_eq_true hclosed))

theorem startNext {key : String} {p : PortToStart} {toStart : List (String × PortToStart)}
    {started : AList fun _ : String => ℕ} (ht : w.op t = .reconciling toStart started)
    (hmem : (key, p) ∈ toStart) (conflict : Option String) :
    Owned ⟨w.daemon.start p.info p.opts conflict,
      update w.op t (.reconciling (toStart.filter (·.1 ≠ key))
        (started.insert key w.daemon.fwdCount))⟩ := by
  have hsound := h.op t
  rw [ht] at hsound
  obtain ⟨hkey, hnot⟩ := hsound.1 (key, p) hmem
  refine h.start ⟨fun e he => ?_, fun key' i hi => ?_⟩ (fun i hi => ?_) ⟨key, AList.lookup_insert _⟩
  · obtain ⟨he, hne⟩ := List.mem_filter.1 he
    refine ⟨(hsound.1 e he).1, ?_⟩
    rw [AList.mem_insert, not_or]
    exact ⟨of_decide_eq_true hne, (hsound.1 e he).2⟩
  · rcases lookup_insert_cases hi with ⟨rfl, rfl⟩ | ⟨-, hold⟩
    · rw [Daemon.start_fwd_self]
      exact ⟨Nat.lt_succ_self _, hkey⟩
    · obtain ⟨hlt, hkey'⟩ := hsound.2 key' i hold
      rw [Daemon.start_fwd_of_ne hlt.ne]
      exact ⟨Nat.lt_succ_of_lt hlt, hkey'⟩
  · -- the key is new: nothing that was started is forgotten
    rw [ht] at hi
    obtain ⟨key', hkey'⟩ := hi
    refine ⟨key', ?_⟩
    rw [AList.lookup_insert_ne, hkey']
    rintro rfl
    exact hnot (AList.lookup_isSome.1 (by rw [hkey']; rfl))

theorem fire {e : Event} (he : e.Enabled w) (hok : Undisturbed w e) : Owned (e.fire w) := by
  cases e with
  | add t spec => exact h.add he spec
  | startAdd t spec conflict =>
    refine h.start ⟨Nat.lt_succ_self _, ?_, ?_⟩ (fun i hi => ?_) rfl
    · rw [Daemon.start_fwd_self]
      rfl
    · rw [Daemon.start_fwd_self]
      rfl
    grind [Op.Holds, Event.Enabled]
  | finishAdd t spec i => exact h.finish he hok
  | remove spec => exact h.remove spec
  | reconcile t ports => exact h.plan he ports
  | startNext t key p toStart started conflict => exact h.startNext he.1 he.2 conflict
  | install t started => exact h.install he hok
  | teardown => exact h.stopAll
  | close =>
    show Owned { w with daemon := w.daemon.close }
    unfold Daemon.close
    split_ifs
    · exact h
    · exact h.stopAll
  | expire i => exact h.expire i

end Owned

theorem Owned.init : Owned (.quiet .init) where
  explicitPorts _ _ hx := nomatch hx
  portForwards _ _ hx := nomatch hx
  explicit _ _ hx := nomatch hx
  conflict _ _ := rfl
  op _ := trivial
  covers _ hx := nomatch hx.1

/-- **No listener leaks**: when no call is in progress, every listener is the one in the table at
its key, and a forward is explicit exactly if its port is; in runs whose steps meet the condition. -/
theorem listeners_recorded {w : State} (hrun : forwards.Run Undisturbed (.quiet .init) w)
    (hidle : ∀ t, w.op t = .idle) :
    (∀ i, w.daemon.listening i = true →
      w.daemon.portForwards.lookup (w.daemon.fwd i).key = some i) ∧
    ∀ key i, w.daemon.portForwards.lookup key = some i →
      ((w.daemon.fwd i).explicit = true ↔ key ∈ w.daemon.explicitPorts) := by
  have h : Owned w := hrun.invariant .init fun _ _ h he hok => h.fire he hok
  refine ⟨fun i hi => h.covers i ⟨hi, fun t ht => ?_⟩, h.explicit⟩
  rw [hidle t] at ht
  exact ht

/-- The theorem at a call that adds a forward. -/
theorem listeners_recorded_added : ∃ w, forwards.Run Undisturbed (.quiet .init) w ∧
    w.daemon.listening 0 = true ∧ w.daemon.portForwards.lookup "tcp:80" = some 0 := by
  let w₁ := forwards.fire (.quiet .init) (.add 0 spec8080)
  let w₂ := forwards.fire w₁ (.startAdd 0 spec8080 none)
  let w₃ := forwards.fire w₂ (.finishAdd 0 spec8080 0)
  have hok : Undisturbed w₂ (.finishAdd 0 spec8080 0) := by
    have hlookup : w₂.daemon.portForwards.lookup spec8080.key = none := by decide +kernel
    refine ⟨fun _ _ => hlookup, fun _ _ => ⟨by decide +kernel, ?_⟩⟩
    grind
  have hrun : forwards.Run Undisturbed (.quiet .init) w₃ :=
    ((Machine.Run.refl.step rfl trivial).step (by decide +kernel) trivial).step
      (by decide +kernel) hok
  have hidle : ∀ t, w₃.op t = .idle
    | 0 => rfl
    | _ + 1 => rfl
  have hlisten : w₃.daemon.listening 0 = true := by decide +kernel
  have hkey : (w₃.daemon.fwd 0).key = "tcp:80" := by decide +kernel
  obtain ⟨hlookup, -⟩ := listeners_recorded hrun hidle
  exact ⟨w₃, hrun, hlisten, hkey ▸ hlookup 0 hlisten⟩

/-- Port 80 is reported, and a forward is started for it.  Before it is entered, a forward from 8080
is asked for, started and entered.  It is overwritten by the first one: it goes on listening, and
the one that is in the table is not explicit. -/
theorem listener_lost : ∃ w, forwards.Reachable (.quiet .init) w ∧ (∀ t, w.op t = .idle) ∧
    (w.daemon.listening 1 = true ∧ w.daemon.portForwards.lookup (w.daemon.fwd 1).key = some 0) ∧
    (w.daemon.fwd 0).explicit = false ∧ (w.daemon.fwd 1).key ∈ w.daemon.explicitPorts := by
  let info : PortInfo := ⟨80, "tcp"⟩
  let toStart := (Daemon.init.plan [info]).2
  let w₁ := forwards.fire (.quiet .init) (.reconcile 0 [info])
  let w₂ := forwards.fire w₁ (.startNext 0 "tcp:80" ⟨info, .none⟩ toStart ∅ none)
  let w₃ := forwards.fire w₂ (.add 1 spec8080)
  let w₄ := forwards.fire w₃ (.startAdd 1 spec8080 none)
  let w₅ := forwards.fire w₄ (.finishAdd 1 spec8080 1)
  let w₆ := forwards.fire w₅ (.install 0 (.singleton "tcp:80" 0))
  have hnext : forwards.enabled w₁ (.startNext 0 "tcp:80" ⟨info, .none⟩ toStart ∅ none) :=
    ⟨rfl, by decide +kernel⟩
  have hrun₃ : forwards.Reachable (.quiet .init) w₃ :=
    ((Machine.Run.refl.step rfl trivial).step hnext trivial).step (by decide +kernel) trivial
  have hall : toStart.filter (·.1 ≠ "tcp:80") = [] := by decide +kernel
  have hinstall : w₅.op 0 = .reconciling [] (.singleton "tcp:80" 0) := by
    rw [← hall]
    rfl
  have hrun : forwards.Reachable (.quiet .init) w₆ :=
    ((hrun₃.step (by decide +kernel) trivial).step (by decide +kernel) trivial).step hinstall
      trivial
  have hidle : ∀ t, w₆.op t = .idle
    | 0 => rfl
    | 1 => rfl
    | _ + 2 => rfl
  exact ⟨w₆, hrun, hidle, by decide +kernel, by decide +kernel, by decide +kernel⟩

end Graft.Forwards
