import Graft.Ports.Reconcile

/-!
# Explicit ports are served

`AddExplicitPortForward` returns at once for a port that is explicit already, whatever its local
port is and whether it has a forward.
-/

namespace Graft.Forwards

open Function (update update_of_ne)
open Config (PortForwardSpec)
open Daemon (Attempt)

/-- A port that is explicit is asked for with the local port that is recorded, the daemon does not
reconnect while there are explicit ports, and is not closed. -/
def Steady (w : Daemon) : Call → Prop
  | .add spec attempt =>
    (∀ s ∈ w.explicitPorts.lookup spec.key, s.effectiveLocalPort = spec.effectiveLocalPort) ∧
      attempt.closes = false
  | .teardown => w.explicitPorts = ∅
  | .close => False
  | .remove _ | .reconcile .. => True

/-- Explicit ports have forwards that work, and all that work listen. -/
structure Served (w : Daemon) : Prop extends Inv w where
  live : ∀ key i, w.portForwards.lookup key = some i → (w.fwd i).conflict = false →
    w.listening i = true
  served : ∀ key ∈ w.explicitPorts, ∃ i, w.portForwards.lookup key = some i ∧
    (w.fwd i).conflict = false

namespace Served

variable {w : Daemon} (h : Served w)
include h

/-- The forwards at some keys are stopped, and these are not explicit any more. -/
theorem stop {w' : Daemon} (hinv : Inv w') {p : String → Bool}
    (htable : w'.portForwards = (w.stop fun key _ => p key).portForwards)
    (hlistening : ∀ i < w.fwdCount, w'.listening i = (w.stop fun key _ => p key).listening i)
    (hfwd : ∀ i < w.fwdCount, w'.fwd i = w.fwd i)
    (hexplicit : ∀ key ∈ w'.explicitPorts, key ∈ w.explicitPorts ∧ p key = false) : Served w' where
  toInv := hinv
  live key i hi hconflict := by
    rw [htable, Daemon.lookup_stop_eq_some] at hi
    have hlt := (h.portForwards key i hi.1).1
    rw [hfwd i hlt] at hconflict
    rw [hlistening i hlt, Daemon.listening_stop]
    refine ⟨h.live key i hi.1 hconflict, fun key' hi' => ?_⟩
    have hkey : key' = key := by
      by_contra hne
      exact h.ne_of_key hi.1 hi' hne rfl
    rw [hkey]
    exact hi.2
  served key hkey := by
    obtain ⟨hmem, hp⟩ := hexplicit key hkey
    obtain ⟨i, hi, hconflict⟩ := h.served key hmem
    refine ⟨i, ?_, ?_⟩
    · rw [htable, Daemon.lookup_stop_eq_some]
      exact ⟨hi, hp⟩
    · rw [hfwd i (h.portForwards key i hi).1]
      exact hconflict

theorem remove (spec : PortForwardSpec) : Served (w.removeExplicitPortForward spec).1 := by
  have hinv := h.toInv.remove spec
  unfold Daemon.removeExplicitPortForward at hinv ⊢
  split_ifs at hinv ⊢
  · refine h.stop hinv (p := fun key => key = spec.key) rfl (fun _ _ => rfl) (fun _ _ => rfl)
      fun key hkey => ?_
    grind [AList.mem_erase, Daemon.stop]
  · exact h

theorem serves {spec : PortForwardSpec} {i : ℕ} (hi : w.portForwards.lookup spec.key = some i)
    (hs : w.Serves spec i) :
    Served { w.intend spec with fwd := update w.fwd i { w.fwd i with explicit := true } } := by
  refine ⟨h.toInv.serves hi hs, fun key j hj hx => ?_, fun key hkey => ?_⟩
  · dsimp only at hx
    rw [Daemon.update_explicit] at hx
    exact h.live key j hj hx
  · simp only [Daemon.update_explicit]
    rcases (AList.mem_insert _).1 hkey with rfl | hkey
    · exact ⟨i, hi, hs.2⟩
    · exact h.served key hkey

theorem insert {w' : Daemon} (hinv : Inv w') {key : String} {i : ℕ}
    (htable : w'.portForwards = w.portForwards.insert key i) (hfwd : w'.fwd = w.fwd)
    (hlistening : w'.listening = w.listening) (hconflict : (w.fwd i).conflict = false)
    (hi : w.listening i = true)
    (hexplicit : ∀ key' ∈ w'.explicitPorts, key' ≠ key → key' ∈ w.explicitPorts) : Served w' where
  toInv := hinv
  live key' j hj hx := by
    rw [htable] at hj
    rw [hfwd] at hx
    rw [hlistening]
    rcases lookup_insert_cases hj with ⟨rfl, rfl⟩ | ⟨-, hj⟩
    · exact hi
    · exact h.live key' j hj hx
  served key' hkey' := by
    rw [htable, hfwd]
    by_cases hkey : key' = key
    · grind [AList.lookup_insert]
    · simp_all [served]

theorem add (spec : PortForwardSpec) {attempt : Attempt} (hcloses : attempt.closes = false) :
    Served (w.addExplicitPortForward spec attempt).1 := by
  have hinv := h.toInv.add spec hcloses
  rcases Daemon.record_cases w spec with hmem | ⟨i, hmem, hi, hs⟩ | hstarts
  · rw [Daemon.add_of_mem hmem]
    exact h
  · simp_all [Daemon.add_of_serves, serves]
  have hrestarted : w.restarted spec attempt = (w.intend spec).stop fun key _ => key = spec.key :=
    if_neg (by simp [hcloses])
  have hexplicit : ∀ key, key ∈ w.explicitPorts.insert spec.key spec → key ≠ spec.key →
      key ∈ w.explicitPorts := fun key hkey hne => ((AList.mem_insert _).1 hkey).resolve_left hne
  cases hconflict : attempt.conflict with
  | some reason =>
    rw [Daemon.add_of_conflict hstarts hconflict, hrestarted] at hinv ⊢
    refine h.stop hinv (p := fun key => key = spec.key) rfl (fun i hi => ?_) (fun i hi => ?_)
      fun key hkey => ?_
    · exact update_of_ne hi.ne ..
    · exact update_of_ne hi.ne ..
    grind [AList.mem_erase, Daemon.stop, Daemon.intend]
  | none =>
    have hclosed : (w.restarted spec attempt).closed = false := by simp [h.opened, hcloses]
    rw [Daemon.add_of_open hstarts hconflict hclosed, hrestarted] at hinv ⊢
    -- the forward is started, and entered after that
    have hstarted : Served ((w.stop fun key _ => key = spec.key).start (explicitInfo spec)
        (explicitOptions spec) none) := by
      refine h.stop ((h.toInv.stop _).start ..) (p := fun key => key = spec.key) rfl
        (fun i hi => ?_) (fun i hi => ?_) fun key hkey => ⟨hkey, decide_eq_false ?_⟩
      · exact update_of_ne hi.ne ..
      · exact update_of_ne hi.ne ..
      · rintro rfl
        exact hstarts.1 hkey
    exact hstarted.insert hinv rfl rfl rfl (congrArg (·.conflict) (Daemon.start_fwd_self ..))
      (Daemon.start_listening_self ..) hexplicit

theorem reconcile (ports : List PortInfo) (conflict : String → Option String) :
    Served (w.reconcilePortForwards ports conflict) := by
  have hr := reconciled ports conflict h.opened
  refine ⟨h.toInv.reconcile ports conflict, fun key i hi hx => ?_, fun key hkey => ?_⟩
  · rcases hr.lookup_cases hi with ⟨hold, hconflict, hwant⟩ | ⟨info, -, -, hfwd, hlisten⟩
    · rw [hr.listening i (h.portForwards key i hold).1]
      refine ⟨h.live key i hold hconflict, fun key' hi' => ⟨?_, hconflict⟩⟩
      by_cases hne : key' = key
      · rwa [hne]
      · exact absurd rfl (h.ne_of_key hold hi' hne)
    · grind [Option.not_isSome, startPortForward]
  · rw [hr.explicitPorts] at hkey
    obtain ⟨i, hi, hconflict⟩ := h.served key hkey
    refine ⟨i, hr.kept key i hi hconflict (Daemon.mem_remoteSet.2 (.inr hkey)), ?_⟩
    rw [hr.fwd i (h.portForwards key i hi).1]
    exact hconflict

end Served

theorem Served.init : Served .init where
  toInv := .init
  live _ _ hx := nomatch hx
  served _ hx := absurd hx (AList.notMem_empty _)

theorem Served.fire {w : Daemon} (h : Served w) {call : Call} (hok : Steady w call) :
    Served (call.fire w) := by
  cases call with
  | add spec attempt => exact h.add spec hok.2
  | remove spec => exact h.remove spec
  | reconcile ports conflict => exact h.reconcile ports conflict
  | close => exact hok.elim
  | teardown =>
    refine h.stop (h.toInv.stop _) (p := fun _ => true) rfl (fun _ _ => rfl) (fun _ _ => rfl) ?_
    intro key hkey
    have hmem : key ∈ w.explicitPorts := hkey
    grind [AList.notMem_empty, Steady]

/-- A call that succeeds leaves the port recorded, as it was before or as it was asked for. -/
theorem lookup_of_add_ok {w w' : Daemon} {spec : PortForwardSpec} {attempt : Attempt}
    (hadd : w.addExplicitPortForward spec attempt = (w', .ok ())) :
    w'.explicitPorts.lookup spec.key = some ((w.explicitPorts.lookup spec.key).getD spec) := by
  rcases Daemon.record_cases w spec with hmem | ⟨i, hmem, hi, hs⟩ | hstarts
  · rw [Daemon.add_of_mem hmem] at hadd
    cases hadd
    obtain ⟨s, hs⟩ := Option.isSome_iff_exists.1 (AList.lookup_isSome.2 hmem)
    rw [hs]
    rfl
  · rw [Daemon.add_of_serves hmem hi hs] at hadd
    cases hadd
    rw [AList.lookup_eq_none.2 hmem]
    exact AList.lookup_insert _
  · rw [AList.lookup_eq_none.2 hstarts.1]
    cases hconflict : attempt.conflict with
    | some reason =>
      rw [Daemon.add_of_conflict hstarts hconflict] at hadd
      cases hadd
    | none =>
      cases hclosed : (w.restarted spec attempt).closed with
      | true =>
        rw [Daemon.add_of_closed hstarts hconflict hclosed] at hadd
        cases hadd
      | false =>
        rw [Daemon.add_of_open hstarts hconflict hclosed] at hadd
        cases hadd
        rw [Daemon.start_explicitPorts, Daemon.explicitPorts_restarted]
        exact AList.lookup_insert _

/-- **A call that succeeds leaves a forward for the port that listens on the local port it was asked
for**, after calls that all meet the condition. -/
theorem add_serves {w w' : Daemon} (hrun : calls.Run Steady .init w) {spec : PortForwardSpec}
    {attempt : Attempt} (hok : Steady w (.add spec attempt))
    (hadd : w.addExplicitPortForward spec attempt = (w', .ok ())) :
    ∃ i, w'.portForwards.lookup spec.key = some i ∧ (w'.fwd i).protocol = spec.effectiveProtocol ∧
      (w'.fwd i).remotePort = spec.remotePort ∧ (w'.fwd i).conflict = false ∧
      (w'.fwd i).localPort = spec.effectiveLocalPort ∧ w'.listening i = true := by
  have hw : Served w := hrun.invariant .init fun _ _ h _ hok => h.fire hok
  have h : Served w' := by
    grind [Served.add, Steady]
  -- the port is explicit now, with the local port that was asked for
  have hlookup := lookup_of_add_ok hadd
  have hport : ((w.explicitPorts.lookup spec.key).getD spec).effectiveLocalPort =
      spec.effectiveLocalPort := by
    cases hs : w.explicitPorts.lookup spec.key with
    | none => rfl
    | some s => exact hok.1 s hs
  have hmem : spec.key ∈ w'.explicitPorts := by
    rw [← AList.lookup_isSome, hlookup]
    rfl
  obtain ⟨i, hi, hconflict⟩ := h.served spec.key hmem
  obtain ⟨hprotocol, hremote⟩ := portForwardKey_inj (h.portForwards spec.key i hi).2
  exact ⟨i, hi, hprotocol, hremote, hconflict,
    (h.explicit spec.key _ i hlookup hi).2.trans hport, h.live spec.key i hi hconflict⟩

/-- The theorem at a forward that replaces one of another local port. -/
theorem add_serves_replaced :
    ∃ w, daemon80.addExplicitPortForward spec8080 ⟨none, false⟩ = (w, .ok ()) ∧
      ∃ i, w.portForwards.lookup "tcp:80" = some i ∧ (w.fwd i).localPort = 8080 ∧
        w.listening i = true := by
  have hrun : calls.Run Steady .init daemon80 :=
    Machine.Run.refl.step (e := Call.reconcile [⟨80, "tcp"⟩] fun _ => none) trivial trivial
  have hadd : daemon80.addExplicitPortForward spec8080 ⟨none, false⟩ =
      ((daemon80.addExplicitPortForward spec8080 ⟨none, false⟩).1, .ok ()) :=
    Prod.ext rfl (by decide +kernel)
  have hok : Steady daemon80 (.add spec8080 ⟨none, false⟩) := by
    refine ⟨?_, rfl⟩
    rw [show daemon80.explicitPorts.lookup spec8080.key = none by decide +kernel]
    exact nofun
  obtain ⟨i, hi, -, -, -, hport, hlisten⟩ := add_serves hrun hok hadd
  exact ⟨_, hadd, i, hi, hport, hlisten⟩

/-- Port 80 is forwarded from 8080.  A call for 9090 succeeds, and the forward stays as it is. -/
theorem add_ignores_localPort :
    let w := (Daemon.init.addExplicitPortForward spec8080 ⟨none, false⟩).1
    let w' := w.addExplicitPortForward ⟨80, 9090, "tcp"⟩ ⟨none, false⟩
    calls.Reachable .init w ∧ w'.2 = .ok () ∧
      ¬ ∃ i, w'.1.portForwards.lookup "tcp:80" = some i ∧ (w'.1.fwd i).localPort = 9090 := by
  intro w w'
  have hrun : calls.Reachable .init w :=
    Machine.Run.refl.step (e := Call.add spec8080 ⟨none, false⟩) trivial trivial
  refine ⟨hrun, by decide +kernel, ?_⟩
  rintro ⟨i, hi, hport⟩
  have hlookup : w'.1.portForwards.lookup "tcp:80" = some 0 := by decide +kernel
  cases hlookup.symm.trans hi
  exact absurd hport (by decide +kernel)

end Graft.Forwards
