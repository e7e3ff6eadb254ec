import Graft.Config.Grants
import Graft.Ports.Calls

/-!
# The request to add port forwards (`pkg/server_grpc_port_forward.go`)

`AddPortForwards` adds its ports to the daemon of the connection, one after the other, and to the
configuration of the connection when all were added.  It stops at the first one that fails, and the
ones before it stay.
-/

namespace Graft.Forwards

open Function (update update_self update_of_ne)
open Config (ConnectionConfig PortForwardSpec updateConnection)
open Daemon (Attempt)

/-! ### The request -/

/-- The ports of a request, with what happens while each is added. -/
abbrev Adds := List (PortForwardSpec × Attempt)

def Daemon.addAll (w : Daemon) : Adds → Daemon × Except AddError Unit
  | [] => (w, .ok ())
  | (spec, attempt) :: rest =>
    match w.addExplicitPortForward spec attempt with
    | (w', .error e) => (w', .error e)
    | (w', .ok ()) => w'.addAll rest

/-- The server: the configuration, and the connections with their daemons. -/
structure Server where
  config : List ConnectionConfig
  connections : AList fun _ : String => ℕ
  daemons : ℕ → Daemon

/-- The errors of `AddPortForwards`. -/
inductive RequestError
  | notFound (name : String)
  | add (e : AddError)
  deriving DecidableEq

def Server.addPortForwards (s : Server) (name : String) (ports : Adds) :
    Server × Except RequestError Unit :=
  match s.connections.lookup name with
  | none => (s, .error (.notFound name))
  | some d =>
    match (s.daemons d).addAll ports with
    | (w, .error e) => ({ s with daemons := update s.daemons d w }, .error (.add e))
    | (w, .ok ()) =>
      ({ s with
          daemons := update s.daemons d w
          config := updateConnection name (fun conf =>
            { conf with ports := (ports.map Prod.fst).foldl Config.addSpec conf.ports }) s.config },
        .ok ())

/-! ### The explicit ports -/

section Explicit

variable {w : Daemon} {spec : PortForwardSpec} {attempt : Attempt}

theorem mem_add {key : String} (h : key ∈ w.explicitPorts) :
    key ∈ (w.addExplicitPortForward spec attempt).1.explicitPorts := by
  have hinsert : key ∈ w.explicitPorts.insert spec.key spec := (AList.mem_insert _).2 (.inr h)
  rcases Daemon.record_cases w spec with hmem | ⟨i, hmem, hi, hs⟩ | hstarts
  · rw [Daemon.add_of_mem hmem]
    exact h
  · rw [Daemon.add_of_serves hmem hi hs]
    exact hinsert
  · cases hconflict : attempt.conflict with
    | some reason =>
      rw [Daemon.add_of_conflict hstarts hconflict, Daemon.explicitPorts_restarted,
        erase_insert hstarts.1]
      exact h
    | none =>
      cases hclosed : (w.restarted spec attempt).closed with
      | true =>
        rw [Daemon.add_of_closed hstarts hconflict hclosed, Daemon.cancel_explicitPorts,
          Daemon.start_explicitPorts, Daemon.explicitPorts_restarted]
        exact hinsert
      | false =>
        rw [Daemon.add_of_open hstarts hconflict hclosed, Daemon.start_explicitPorts,
          Daemon.explicitPorts_restarted]
        exact hinsert

theorem mem_addAll (ports : Adds) {key : String} (h : key ∈ w.explicitPorts) :
    key ∈ (w.addAll ports).1.explicitPorts := by
  induction ports generalizing w with
  | nil => exact h
  | cons first rest ih =>
    obtain ⟨spec, attempt⟩ := first
    have hadd : key ∈ (w.addExplicitPortForward spec attempt).1.explicitPorts := mem_add h
    unfold Daemon.addAll
    split
    next w' e heq => simpa [heq] using hadd
    next w' heq => exact ih (by simpa [heq] using hadd)

end Explicit

/-! ### Requests that fail -/

/-- The first port that is not explicit is the one that fails, as its local port is in use. -/
def FailsFirst (w : Daemon) : Adds → Prop
  | [] => False
  | (spec, attempt) :: rest =>
    if spec.key ∈ w.explicitPorts then FailsFirst w rest
    else w.Starts spec ∧ attempt.conflict ≠ none

theorem not_subset_of_mem {w w' : Daemon} {spec : PortForwardSpec}
    (hmem : spec.key ∉ w.explicitPorts) (h : spec.key ∈ w'.explicitPorts) :
    ¬ ∀ key s, w'.explicitPorts.lookup key = some s → w.explicitPorts.lookup key = some s := by
  intro hx
  obtain ⟨s, hs⟩ := Option.isSome_iff_exists.1 (AList.lookup_isSome.2 h)
  exact hmem (AList.lookup_isSome.1 (by rw [hx _ s hs]; rfl))

/-- A loop that fails has added nothing exactly if it fails at the first port that is new. -/
theorem addAll_atomic_iff {w : Daemon} {ports : Adds} {e : AddError}
    (herror : (w.addAll ports).2 = .error e) :
    (∀ key s, (w.addAll ports).1.explicitPorts.lookup key = some s →
      w.explicitPorts.lookup key = some s) ↔ FailsFirst w ports := by
  induction ports generalizing w with
  | nil => cases herror
  | cons first rest ih =>
    obtain ⟨spec, attempt⟩ := first
    unfold FailsFirst
    unfold Daemon.addAll at herror ⊢
    rcases Daemon.record_cases w spec with hmem | ⟨i, hmem, hi, hs⟩ | hstarts
    · rw [Daemon.add_of_mem hmem] at herror ⊢
      rw [if_pos hmem]
      exact ih herror
    · rw [Daemon.add_of_serves hmem hi hs, if_neg hmem]
      refine iff_of_false (not_subset_of_mem hmem (mem_addAll rest ?_)) fun hx => hx.1.2 i hi hs
      exact (AList.mem_insert _).2 (.inl rfl)
    · rw [if_neg hstarts.1]
      have hnew : spec.key ∈ (w.restarted spec attempt).explicitPorts := by
        rw [Daemon.explicitPorts_restarted]
        exact (AList.mem_insert _).2 (.inl rfl)
      cases hconflict : attempt.conflict with
      | some reason =>
        rw [Daemon.add_of_conflict hstarts hconflict, Daemon.explicitPorts_restarted,
          erase_insert hstarts.1]
        exact iff_of_true (fun _ _ hs => hs) ⟨hstarts, nofun⟩
      | none =>
        refine iff_of_false (not_subset_of_mem hstarts.1 ?_) fun hx => hx.2 rfl
        cases hclosed : (w.restarted spec attempt).closed with
        | true =>
          rw [Daemon.add_of_closed hstarts hconflict hclosed]
          exact hnew
        | false =>
          rw [Daemon.add_of_open hstarts hconflict hclosed]
          exact mem_addAll rest hnew

/-- **A request that fails has added nothing**, exactly under the condition. -/
theorem addPortForwards_atomic_iff {s s' : Server} {name : String} {ports : Adds}
    {e : RequestError} (h : s.addPortForwards name ports = (s', .error e)) :
    (s'.config = s.config ∧ ∀ d key spec, (s'.daemons d).explicitPorts.lookup key = some spec →
      (s.daemons d).explicitPorts.lookup key = some spec) ↔
    ∀ d ∈ s.connections.lookup name, FailsFirst (s.daemons d) ports := by
  unfold Server.addPortForwards at h
  split at h
  next hnone =>
    cases h
    rw [hnone]
    exact iff_of_true ⟨rfl, fun _ _ _ hs => hs⟩ nofun
  next d hd =>
    rw [hd]
    split at h
    next w e hadd =>
      cases h
      have hiff := addAll_atomic_iff (congrArg Prod.snd hadd)
      rw [hadd] at hiff
      simp only [Option.mem_some_iff, forall_eq', true_and, ← hiff]
      constructor
      · intro hx key spec hspec
        refine hx d key spec ?_
        rwa [update_self]
      · intro hx d' key spec hspec
        by_cases hd' : d' = d
        · subst hd'
          rw [update_self] at hspec
          exact hx key spec hspec
        · rwa [update_of_ne hd'] at hspec
    next w hadd => cases h

/-- A server with one connection, whose daemon forwards nothing. -/
def idleServer : Server := ⟨[Grants.forwarding "a" []], .singleton "a" 0, fun _ => .init⟩

def used80 : Adds := [(⟨80, 80, "tcp"⟩, ⟨some "in use", false⟩), (⟨443, 443, "tcp"⟩, ⟨none, false⟩)]

/-- The theorem at a request that fails at its first port. -/
theorem addPortForwards_atomic_first :
    ∃ s e, idleServer.addPortForwards "a" used80 = (s, .error (.add e)) ∧
      s.config = idleServer.config ∧
      ∀ d key spec, (s.daemons d).explicitPorts.lookup key ≠ some spec := by
  have hrequest : idleServer.addPortForwards "a" used80 =
      ((idleServer.addPortForwards "a" used80).1, .error (.add (.inUse 80 "in use"))) :=
    Prod.ext rfl (by decide +kernel)
  have hfails : ∀ d ∈ idleServer.connections.lookup "a",
      FailsFirst (idleServer.daemons d) used80 := by
    intro d _
    refine (if_neg (AList.notMem_empty _)).mpr ⟨⟨AList.notMem_empty _, ?_⟩, nofun⟩
    exact nofun
  obtain ⟨hconfig, hports⟩ := (addPortForwards_atomic_iff hrequest).2 hfails
  exact ⟨_, _, hrequest, hconfig, fun d key spec hspec => nomatch hports d key spec hspec⟩

/-- Port 443 is in use, and port 80 was added before. -/
theorem addPortForwards_not_atomic :
    let ports : Adds :=
      [(⟨80, 80, "tcp"⟩, ⟨none, false⟩), (⟨443, 443, "tcp"⟩, ⟨some "in use", false⟩)]
    let s := (idleServer.addPortForwards "a" ports).1
    (idleServer.addPortForwards "a" ports).2 = .error (.add (.inUse 443 "in use")) ∧
      (idleServer.daemons 0).explicitPorts.lookup "tcp:80" = none ∧
      (s.daemons 0).explicitPorts.lookup "tcp:80" = some ⟨80, 80, "tcp"⟩ := by
  decide +kernel

/-! ### What is stored -/

/-- The text that is stored for the spec is read as one with the same effect. -/
def Survives (spec : PortForwardSpec) : Prop :=
  ∃ s, Config.parsePortSpec spec.string = some s ∧ s.effectiveProtocol = spec.effectiveProtocol ∧
    s.remotePort = spec.remotePort ∧ s.effectiveLocalPort = spec.effectiveLocalPort

/-- **A spec survives being stored** exactly if it has a protocol and ports that can be read; and
what was read is stored and read again as it was. -/
theorem survives_iff (spec : PortForwardSpec) :
    (Survives spec ↔ spec.Readable) ∧ ∀ text, Config.parsePortSpec text = some spec →
      Config.parsePortSpec spec.string = some spec := by
  refine ⟨⟨?_, fun h => ?_⟩, fun text h => ?_⟩
  · rintro ⟨s, hs, -⟩
    have heq := PortForwardSpec.parsePortSpec_string hs
    rw [← heq]
    exact PortForwardSpec.readable_of_parsePortSpec hs
  · exact ⟨spec, PortForwardSpec.parsePortSpec_string_iff.2 h, rfl, rfl, rfl⟩
  · exact PortForwardSpec.parsePortSpec_string_iff.2 (PortForwardSpec.readable_of_parsePortSpec h)

/-- Port 8080 is added with the local port or the protocol left out.  The text that is stored for it
is no spec. -/
theorem defaults_do_not_survive :
    let request (spec : PortForwardSpec) := idleServer.addPortForwards "a" [(spec, ⟨none, false⟩)]
    let stored (spec : PortForwardSpec) := (request spec).1.config.map (·.ports)
    ((request ⟨8080, 0, "tcp"⟩).2 = .ok () ∧ stored ⟨8080, 0, "tcp"⟩ = [["0:8080"]] ∧
      Config.parsePortSpec "0:8080" = none) ∧
    ((request ⟨8080, 8080, ""⟩).2 = .ok () ∧ stored ⟨8080, 8080, ""⟩ = [["8080/"]] ∧
      Config.parsePortSpec "8080/" = none) := by
  decide +kernel

end Graft.Forwards
