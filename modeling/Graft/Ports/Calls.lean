import Graft.Library.Separator
import Graft.Ports.Forwards

/-!
# Calls one after the other

The calls of `AddExplicitPortForward`, `RemoveExplicitPortForward` and `reconcilePortForwards`,
where none begins before the one before it has returned.
-/

namespace Graft.Forwards

open Function (update_of_ne)
open Config (PortForwardSpec portForwardKey)
open Daemon (Attempt)

theorem portForwardKey_inj {protocol protocol' : String} {port port' : ℕ}
    (h : portForwardKey protocol port = portForwardKey protocol' port') :
    protocol = protocol' ∧ port = port' := by
  have hlist := congrArg String.toList h
  simp only [portForwardKey, String.toList_append, String.toList_ofList, List.append_assoc,
    show ":".toList = [':'] from rfl, List.singleton_append] at hlist
  rw [Separator.append_cons_inj_of_last (Config.not_mem_toDigits rfl port)
    (Config.not_mem_toDigits rfl port')] at hlist
  exact ⟨String.toList_inj.1 hlist.1, Config.toDigits_injective hlist.2⟩

/-! ### The machine -/

inductive Call
  | add (spec : PortForwardSpec) (attempt : Attempt)
  | remove (spec : PortForwardSpec)
  | reconcile (ports : List PortInfo) (conflict : String → Option String)
  | teardown
  | close

def Call.fire (w : Daemon) : Call → Daemon
  | add spec attempt => (w.addExplicitPortForward spec attempt).1
  | remove spec => (w.removeExplicitPortForward spec).1
  | reconcile ports conflict => w.reconcilePortForwards ports conflict
  | teardown => w.teardown
  | close => w.close

def calls : Machine Daemon Call := ⟨fun _ _ => True, Call.fire⟩

/-! ### Failed calls -/

/-- The tables are as before, and so is every forward there was. -/
structure Same (w w' : Daemon) : Prop where
  explicitPorts : ∀ key, w'.explicitPorts.lookup key = w.explicitPorts.lookup key
  portForwards : ∀ key, w'.portForwards.lookup key = w.portForwards.lookup key
  fwd : ∀ i < w.fwdCount, w'.fwd i = w.fwd i
  listening : ∀ i < w.fwdCount, w'.listening i = w.listening i

namespace Daemon

variable {w : Daemon} {spec : PortForwardSpec} {attempt : Attempt} {key : String}

theorem restarted_eq (hfree : w.portForwards.lookup spec.key = none)
    (hcloses : attempt.closes = true → w.closed = true ∨ w.portForwards = ∅) :
    ∃ closed, w.restarted spec attempt = { w.intend spec with closed := closed } := by
  have hstop : (w.intend spec).stop (fun key _ => key = spec.key) = w.intend spec := by
    refine stop_eq_self fun key i hkey => decide_eq_false ?_
    rintro rfl
    cases hfree.symm.trans hkey
  rw [restarted, hstop]
  split_ifs with hc
  · rcases hcloses hc with hclosed | hempty
    · exact ⟨w.closed, if_pos hclosed⟩
    · refine ⟨true, ?_⟩
      have hall : (w.intend spec).stop (fun _ _ => true) = w.intend spec := by
        refine stop_eq_self fun key i hkey => ?_
        rw [show (w.intend spec).portForwards = ∅ from hempty] at hkey
        cases hkey
      rw [close, hall]
      split_ifs with hclosed
      · rw [← hclosed]
      · rfl
  · exact ⟨w.closed, rfl⟩

end Daemon

/-- The call succeeds, or fails before it has changed anything for good. -/
def Harmless (w : Daemon) (spec : PortForwardSpec) (attempt : Attempt) : Prop :=
  -- there is nothing to be started
  spec.key ∈ w.explicitPorts ∨ (∃ i ∈ w.portForwards.lookup spec.key, w.Serves spec i) ∨
    -- it is started and recorded
    (attempt.conflict = none ∧ w.closed = false ∧ attempt.closes = false) ∨
    -- the port is in use, and no forward was stopped for it or by `Close`
    (attempt.conflict ≠ none ∧ w.portForwards.lookup spec.key = none ∧
      (attempt.closes = true → w.closed = true ∨ w.portForwards = ∅))

theorem same_of_conflict {w : Daemon} {spec : PortForwardSpec} {attempt : Attempt} {reason : String}
    (h : w.Starts spec) (hreason : attempt.conflict = some reason)
    (hfree : w.portForwards.lookup spec.key = none)
    (hcloses : attempt.closes = true → w.closed = true ∨ w.portForwards = ∅) :
    Same w (w.addExplicitPortForward spec attempt).1 := by
  rw [Daemon.add_of_conflict h hreason]
  obtain ⟨closed, heq⟩ := Daemon.restarted_eq hfree hcloses
  rw [heq]
  refine ⟨fun key => ?_, fun key => rfl, fun i hi => ?_, fun i hi => ?_⟩
  · show ((w.explicitPorts.insert spec.key spec).erase spec.key).lookup key = _
    by_cases hkey : key = spec.key
    · subst hkey
      rw [AList.lookup_erase, AList.lookup_eq_none.2 h.1]
    · rw [AList.lookup_erase_ne hkey, AList.lookup_insert_ne hkey]
  · exact update_of_ne hi.ne ..
  · exact update_of_ne hi.ne ..

/-- **A call that fails has changed nothing**, exactly under the condition. -/
theorem add_atomic_iff (w : Daemon) (spec : PortForwardSpec) (attempt : Attempt) :
    ((w.addExplicitPortForward spec attempt).2 ≠ .ok () →
      Same w (w.addExplicitPortForward spec attempt).1) ↔ Harmless w spec attempt := by
  rcases Daemon.record_cases w spec with hmem | ⟨i, hmem, hi, hs⟩ | hstarts
  · rw [Daemon.add_of_mem hmem]
    exact iff_of_true (fun hx => absurd rfl hx) (.inl hmem)
  · rw [Daemon.add_of_serves hmem hi hs]
    exact iff_of_true (fun hx => absurd rfl hx) (.inr (.inl ⟨i, hi, hs⟩))
  have hnot : ¬ ∃ i ∈ w.portForwards.lookup spec.key, w.Serves spec i :=
    fun ⟨i, hi, hs⟩ => hstarts.2 i hi hs
  cases hconflict : attempt.conflict with
  | none =>
    cases hclosed : (w.restarted spec attempt).closed with
    | true =>
      -- the port stays recorded
      rw [Daemon.add_of_closed hstarts hconflict hclosed]
      refine iff_of_false (fun hx => ?_) ?_
      · have hkey := (hx nofun).explicitPorts spec.key
        rw [AList.lookup_eq_none.2 hstarts.1] at hkey
        rw [Daemon.cancel_explicitPorts, Daemon.start_explicitPorts, Daemon.explicitPorts_restarted,
          AList.lookup_insert] at hkey
        cases hkey
      · rw [Daemon.closed_restarted] at hclosed
        rintro (hx | hx | ⟨-, hopen, hcloses⟩ | ⟨hx, -⟩)
        · exact hstarts.1 hx
        · exact hnot hx
        · rw [hopen, hcloses] at hclosed
          cases hclosed
        · exact hx hconflict
    | false =>
      rw [Daemon.add_of_open hstarts hconflict hclosed]
      rw [Daemon.closed_restarted, Bool.or_eq_false_iff] at hclosed
      exact iff_of_true (fun hx => absurd rfl hx) (.inr (.inr (.inl ⟨hconflict, hclosed⟩)))
  | some reason =>
    have hne : (w.addExplicitPortForward spec attempt).2 ≠ .ok () := by
      rw [Daemon.add_of_conflict hstarts hconflict]
      exact nofun
    constructor
    · intro hx
      have hsame := (hx hne).portForwards
      rw [Daemon.add_of_conflict hstarts hconflict] at hsame
      have hlookup : ∀ key, (w.restarted spec attempt).portForwards.lookup key =
          w.portForwards.lookup key := hsame
      simp only [Daemon.lookup_restarted] at hlookup
      refine .inr (.inr (.inr ⟨by simp [hconflict], ?_, fun hcloses => ?_⟩))
      · rw [← hlookup spec.key, if_pos (.inl rfl)]
      · refine or_iff_not_imp_left.2 fun hopen => ?_
        rw [Bool.not_eq_true] at hopen
        refine eq_empty_of_lookup fun key => ?_
        rw [← hlookup key, if_pos (.inr ⟨hcloses, hopen⟩)]
    · rintro (hx | hx | ⟨hx, -⟩ | ⟨-, hfree, hcloses⟩)
      · exact absurd hx hstarts.1
      · exact absurd hx hnot
      · rw [hconflict] at hx
        cases hx
      · exact fun _ => same_of_conflict hstarts hconflict hfree hcloses

/-- Port 80 of the remote, and the forward that `reconcilePortForwards` has started for it. -/
def daemon80 : Daemon := Daemon.init.reconcilePortForwards [⟨80, "tcp"⟩] fun _ => none

def spec8080 : PortForwardSpec := ⟨80, 8080, "tcp"⟩

/-- When the port is in use, the forward that was there is gone; when the daemon is closed, the port
is recorded. -/
theorem add_not_atomic :
    ((daemon80.addExplicitPortForward spec8080 ⟨some "in use", false⟩).2 ≠ .ok () ∧
      ¬ Same daemon80 (daemon80.addExplicitPortForward spec8080 ⟨some "in use", false⟩).1) ∧
    (Daemon.init.addExplicitPortForward spec8080 ⟨none, true⟩).2 ≠ .ok () ∧
      ¬ Same .init (Daemon.init.addExplicitPortForward spec8080 ⟨none, true⟩).1 := by
  refine ⟨⟨by decide +kernel, fun h => ?_⟩, by decide +kernel, fun h => ?_⟩
  · exact absurd (h.portForwards "tcp:80") (by decide +kernel)
  · exact absurd (h.explicitPorts "tcp:80") (by decide +kernel)

end Graft.Forwards
