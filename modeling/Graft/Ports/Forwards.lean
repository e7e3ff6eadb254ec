import Graft.Library.Machine
import Graft.Library.Table
import Graft.Config.PortSpec

/-!
# Port forwards of a daemon (`pkg/remote_daemon.go`)

A daemon listens locally on behalf of ports of the remote machine.  There are forwards for the ports
that the remote reports, which `reconcilePortForwards` keeps up to date, and explicit ones, which a
user has asked for.  `explicitPorts` has what was asked for, `portForwards` the forwards themselves,
both by protocol and remote port.  `AddExplicitPortForward` and `reconcilePortForwards` release the
lock while they start listeners.

Whether a local port can be had is left to the environment.  A listener counts as closed when its
context is canceled, which is what its goroutine waits for; the relays that a listener has started
are left out, and so are the log and the hosts that the relays dial.
-/

namespace Graft.Forwards

open Function (update update_self update_of_ne)
open Config (PortForwardSpec portForwardKey)

/-! ### Forwards -/

/-- A port that was found listening. -/
structure PortInfo where
  port : ℕ
  protocol : String
  deriving DecidableEq

def PortInfo.key (info : PortInfo) : String := portForwardKey info.protocol info.port

/-- The port of an explicit forward, as if it was reported. -/
def explicitInfo (spec : PortForwardSpec) : PortInfo := ⟨spec.remotePort, spec.effectiveProtocol⟩

structure PortForwardOptions where
  localPort : ℕ
  explicit : Bool
  deriving DecidableEq

def PortForwardOptions.none : PortForwardOptions := ⟨0, false⟩

/-- `withLocalPort` and `withExplicit`. -/
def explicitOptions (spec : PortForwardSpec) : PortForwardOptions :=
  ⟨spec.effectiveLocalPort, true⟩

/-- A forward, with why its port could not be had. -/
structure ActivePortForward where
  remotePort : ℕ
  localPort : ℕ
  protocol : String
  conflict : Bool
  conflictReason : String
  explicit : Bool
  deriving DecidableEq

def ActivePortForward.key (fwd : ActivePortForward) : String :=
  portForwardKey fwd.protocol fwd.remotePort

/-- What `startPortForward` returns; `conflict` is the reason why the local port cannot be had. -/
def startPortForward (info : PortInfo) (opts : PortForwardOptions) (conflict : Option String) :
    ActivePortForward where
  remotePort := info.port
  localPort := if opts.localPort = 0 then info.port else opts.localPort
  protocol := info.protocol
  conflict := conflict.isSome
  conflictReason := conflict.getD ""
  explicit := opts.explicit

/-- The errors of `AddExplicitPortForward`. -/
inductive AddError
  | inUse (localPort : ℕ) (reason : String)
  | closed
  deriving DecidableEq

/-! ### The daemon -/

/-- The forwards of a remote daemon. -/
structure Daemon where
  closed : Bool
  explicitPorts : AList fun _ : String => PortForwardSpec
  /-- the forwards, by address -/
  portForwards : AList fun _ : String => ℕ
  fwd : ℕ → ActivePortForward
  fwdCount : ℕ
  /-- the forwards whose listener is open -/
  listening : ℕ → Bool

namespace Daemon

def init : Daemon where
  closed := false
  explicitPorts := ∅
  portForwards := ∅
  fwd _ := ⟨0, 0, "", false, "", false⟩
  fwdCount := 0
  listening _ := false

variable (w : Daemon)

/-- The forwards in the table that satisfy `p` are stopped, and taken out. -/
def stop (p : String → ℕ → Bool) : Daemon :=
  { w with
    portForwards := sweep p w.portForwards
    listening := fun i => w.listening i && !w.portForwards.entries.any fun e => e.2 = i && p e.1 i }

/-- A new forward, with the address `fwdCount`. -/
def start (info : PortInfo) (opts : PortForwardOptions) (conflict : Option String) : Daemon :=
  { w with
    fwd := update w.fwd w.fwdCount (startPortForward info opts conflict)
    fwdCount := w.fwdCount + 1
    listening := update w.listening w.fwdCount conflict.isNone }

/-- Forwards that were not taken into the table are stopped. -/
def cancel (started : AList fun _ : String => ℕ) : Daemon :=
  { w with listening := fun i => w.listening i && !started.entries.any (·.2 = i) }

/-- The section of `Close` under the lock. -/
def close : Daemon := if w.closed then w else { w.stop fun _ _ => true with closed := true }

/-- `teardownForReconnect`, under the lock. -/
def teardown : Daemon := w.stop fun _ _ => true

/-! ### `AddExplicitPortForward`, `RemoveExplicitPortForward` -/

/-- Forward `i` has the local port that is asked for. -/
def Serves (spec : PortForwardSpec) (i : ℕ) : Prop :=
  (w.fwd i).localPort = spec.effectiveLocalPort ∧ (w.fwd i).conflict = false

instance (spec : PortForwardSpec) (i : ℕ) : Decidable (w.Serves spec i) :=
  inferInstanceAs (Decidable (_ ∧ _))

def intend (spec : PortForwardSpec) : Daemon :=
  { w with explicitPorts := w.explicitPorts.insert spec.key spec }

/-- Until the lock is released: whether a forward is to be started. -/
def record (spec : PortForwardSpec) : Daemon × Bool :=
  if spec.key ∈ w.explicitPorts then (w, false)
  else
    match w.portForwards.lookup spec.key with
    | none => (w.intend spec, true)
    | some i =>
      if w.Serves spec i then
        ({ w.intend spec with fwd := update w.fwd i { w.fwd i with explicit := true } }, false)
      else ((w.intend spec).stop fun key _ => key = spec.key, true)

/-- From when forward `i` was started. -/
def finish (spec : PortForwardSpec) (i : ℕ) : Daemon × Except AddError Unit :=
  if (w.fwd i).conflict then
    ({ w with explicitPorts := w.explicitPorts.erase spec.key },
      .error (.inUse spec.effectiveLocalPort (w.fwd i).conflictReason))
  else if w.closed then (w.cancel (.singleton spec.key i), .error .closed)
  else ({ w with portForwards := w.portForwards.insert spec.key i }, .ok ())

/-- What happens while a call has released the lock: whether the port can be had, and whether the
daemon is closed. -/
structure Attempt where
  conflict : Option String
  closes : Bool
  deriving DecidableEq

/-- The intent is recorded, and dropped again if the port is in use. -/
def addExplicitPortForward (spec : PortForwardSpec) (attempt : Attempt) :
    Daemon × Except AddError Unit :=
  let (w₁, again) := w.record spec
  if again then
    let w₂ := if attempt.closes then w₁.close else w₁
    (w₂.start (explicitInfo spec) (explicitOptions spec) attempt.conflict).finish spec w₂.fwdCount
  else (w₁, .ok ())

/-- Whether there was such an intent is told. -/
def removeExplicitPortForward (spec : PortForwardSpec) : Daemon × Bool :=
  if spec.key ∈ w.explicitPorts then
    ({ w with explicitPorts := w.explicitPorts.erase spec.key }.stop fun key _ => key = spec.key,
      true)
  else (w, false)

/-! ### `reconcilePortForwards` -/

structure PortToStart where
  info : PortInfo
  opts : PortForwardOptions
  deriving DecidableEq

/-- The ports that are to be forwarded: those that are reported, and the explicit ones. -/
def remoteSet (ports : List PortInfo) : AList fun _ : String => PortInfo :=
  let reported := ports.foldl (fun set info => set.insert info.key info) ∅
  w.explicitPorts.entries.foldl
    (fun set e => if e.1 ∈ set then set else set.insert e.1 (explicitInfo e.2)) reported

/-- `explicitOptsForKey`. -/
def optsForKey (key : String) : PortForwardOptions :=
  match w.explicitPorts.lookup key with
  | some spec => explicitOptions spec
  | none => .none

/-- Until the lock is released: the forwards that are to be started, by key. -/
def plan (ports : List PortInfo) : Daemon × List (String × PortToStart) :=
  let remoteSet := w.remoteSet ports
  let w₁ := w.stop fun key _ => key ∉ remoteSet
  let w₂ := w₁.stop fun key i => (w₁.fwd i).conflict && key ∈ remoteSet
  (w₂, (remoteSet.entries.filter (·.1 ∉ w₂.portForwards)).map fun e =>
    (e.1, ⟨e.2, w₂.optsForKey e.1⟩))

def install (started : AList fun _ : String => ℕ) : Daemon :=
  if w.closed then w.cancel started
  else { w with portForwards := started ∪ w.portForwards }

def startAll (conflict : String → Option String) (w : Daemon)
    (started : AList fun _ : String => ℕ) :
    List (String × PortToStart) → Daemon × AList fun _ : String => ℕ
  | [] => (w, started)
  | (key, p) :: rest =>
    startAll conflict (w.start p.info p.opts (conflict key)) (started.insert key w.fwdCount) rest

/-- Stops what is not wanted and starts what is, with what the scan has found. -/
def reconcilePortForwards (ports : List PortInfo) (conflict : String → Option String) : Daemon :=
  let (w₁, toStart) := w.plan ports
  let (w₂, started) := w₁.startAll conflict ∅ toStart
  w₂.install started

end Daemon

/-! ### Interleavings -/

open Daemon (PortToStart)

/-- Where a call is, between two releases of the lock. -/
inductive Op
  | idle
  /-- `AddExplicitPortForward`, before `startPortForward` -/
  | adding (spec : PortForwardSpec)
  /-- `AddExplicitPortForward`, with the forward that was started -/
  | added (spec : PortForwardSpec) (i : ℕ)
  /-- `reconcilePortForwards`, with the forwards that are to be started and those that were -/
  | reconciling (toStart : List (String × PortToStart)) (started : AList fun _ : String => ℕ)
  deriving DecidableEq

structure State where
  daemon : Daemon
  op : ℕ → Op

def State.quiet (daemon : Daemon) : State := ⟨daemon, fun _ => .idle⟩

/-- The steps of the calls, and what else happens to the forwards. -/
inductive Event
  | add (t : ℕ) (spec : PortForwardSpec)
  | startAdd (t : ℕ) (spec : PortForwardSpec) (conflict : Option String)
  | finishAdd (t : ℕ) (spec : PortForwardSpec) (i : ℕ)
  | remove (spec : PortForwardSpec)
  | reconcile (t : ℕ) (ports : List PortInfo)
  /-- the forwards are started in any order -/
  | startNext (t : ℕ) (key : String) (p : PortToStart) (toStart : List (String × PortToStart))
    (started : AList fun _ : String => ℕ) (conflict : Option String)
  | install (t : ℕ) (started : AList fun _ : String => ℕ)
  | teardown
  | close
  /-- the context of a listener ends, with the port watch that has started it -/
  | expire (i : ℕ)

namespace Event

def Enabled (w : State) : Event → Prop
  | add t _ | reconcile t _ => w.op t = .idle
  | startAdd t spec _ => w.op t = .adding spec
  | finishAdd t spec i => w.op t = .added spec i
  | startNext t key p toStart started _ =>
    w.op t = .reconciling toStart started ∧ (key, p) ∈ toStart
  | install t started => w.op t = .reconciling [] started
  | remove _ | teardown | close | expire _ => True

instance (w : State) (e : Event) : Decidable (e.Enabled w) := by
  cases e <;> dsimp only [Enabled] <;> infer_instance

def fire (w : State) : Event → State
  | add t spec =>
    ⟨(w.daemon.record spec).1,
      update w.op t (if (w.daemon.record spec).2 then .adding spec else .idle)⟩
  | startAdd t spec conflict =>
    ⟨w.daemon.start (explicitInfo spec) (explicitOptions spec) conflict,
      update w.op t (.added spec w.daemon.fwdCount)⟩
  | finishAdd t spec i => ⟨(w.daemon.finish spec i).1, update w.op t .idle⟩
  | remove spec => { w with daemon := (w.daemon.removeExplicitPortForward spec).1 }
  | reconcile t ports =>
    ⟨(w.daemon.plan ports).1, update w.op t (.reconciling (w.daemon.plan ports).2 ∅)⟩
  | startNext t key p toStart started conflict =>
    ⟨w.daemon.start p.info p.opts conflict,
      update w.op t (.reconciling (toStart.filter (·.1 ≠ key))
        (started.insert key w.daemon.fwdCount))⟩
  | install t started => ⟨w.daemon.install started, update w.op t .idle⟩
  | teardown => { w with daemon := w.daemon.teardown }
  | close => { w with daemon := w.daemon.close }
  | expire i =>
    { w with daemon := { w.daemon with listening := update w.daemon.listening i false } }

end Event

/-- The daemon with any number of calls. -/
def forwards : Machine State Event := ⟨Event.Enabled, Event.fire⟩

instance (w : State) (e : Event) : Decidable (forwards.enabled w e) :=
  inferInstanceAs (Decidable (e.Enabled w))

/-! ### What the sections do -/

namespace Daemon

section Frame

variable (w : Daemon) (p : String → ℕ → Bool) (info : PortInfo) (opts : PortForwardOptions)
  (conflict : Option String) (started : AList fun _ : String => ℕ)

@[simp] theorem stop_fwd : (w.stop p).fwd = w.fwd := rfl

@[simp] theorem start_explicitPorts :
    (w.start info opts conflict).explicitPorts = w.explicitPorts := rfl

@[simp] theorem start_fwdCount : (w.start info opts conflict).fwdCount = w.fwdCount + 1 := rfl

@[simp] theorem cancel_explicitPorts : (w.cancel started).explicitPorts = w.explicitPorts := rfl

end Frame

variable {w : Daemon} {p : String → ℕ → Bool} {key : String} {i : ℕ}

theorem lookup_stop : (w.stop p).portForwards.lookup key =
    (w.portForwards.lookup key).filter fun i => !p key i :=
  lookup_sweep p w.portForwards key

theorem lookup_stop_eq_some : (w.stop p).portForwards.lookup key = some i ↔
    w.portForwards.lookup key = some i ∧ p key i = false := by
  simp_all [lookup_stop]

theorem listening_stop : (w.stop p).listening i = true ↔
    w.listening i = true ∧ ∀ key, w.portForwards.lookup key = some i → p key i = false := by
  simp only [stop, Bool.and_eq_true, Bool.not_eq_true', List.any_eq_false, decide_eq_true_eq,
    Sigma.forall]
  refine and_congr_right fun _ => ⟨fun h key hkey => ?_, ?_⟩
  · have hmem := AList.mem_lookup_iff.1 (Option.mem_def.2 hkey)
    simpa using h key i hmem
  · rintro h key j hmem ⟨rfl, hp⟩
    rw [h key (Option.mem_def.1 (AList.mem_lookup_iff.2 hmem))] at hp
    cases hp

theorem listening_cancel {started : AList fun _ : String => ℕ} :
    (w.cancel started).listening i = true ↔
      w.listening i = true ∧ ∀ key, started.lookup key ≠ some i := by
  simp only [cancel, Bool.and_eq_true, Bool.not_eq_true', List.any_eq_false, decide_eq_true_eq,
    Sigma.forall]
  refine and_congr_right fun _ => ⟨fun h key hkey => ?_, ?_⟩
  · exact h key i (AList.mem_lookup_iff.1 (Option.mem_def.2 hkey)) rfl
  · rintro h key j hmem rfl
    exact h key (Option.mem_def.1 (AList.mem_lookup_iff.2 hmem))

section Close

variable (w)

/-- A daemon that is closed has no forwards; one that was closed before stays as it is. -/
theorem lookup_close (key : String) : w.close.portForwards.lookup key =
    if w.closed then w.portForwards.lookup key else none := by
  grind [lookup_stop, Option.filter_eq_none_iff, close]

end Close

theorem stop_eq_self (h : ∀ key i, w.portForwards.lookup key = some i → p key i = false) :
    w.stop p = w := by
  have hentries : ∀ e ∈ w.portForwards.entries, p e.1 e.2 = false := fun e he =>
    h e.1 e.2 (Option.mem_def.1 (AList.mem_lookup_iff.2 he))
  have htable : sweep p w.portForwards = w.portForwards := by
    refine AList.ext (List.filter_eq_self.2 fun e he => ?_)
    grind
  have hlistening : (w.stop p).listening = w.listening := by
    grind [listening_stop]
  calc w.stop p = { w with portForwards := sweep p w.portForwards
                           listening := (w.stop p).listening } := rfl
    _ = w := by rw [htable, hlistening]

theorem update_explicit (fwd : ℕ → ActivePortForward) (i j : ℕ) :
    update fwd i { fwd i with explicit := true } j =
      { fwd j with explicit := decide (j = i) || (fwd j).explicit } := by
  by_cases hj : j = i
  · subst hj
    simp
  · rw [update_of_ne hj, decide_eq_false hj, Bool.false_or]

/-! ### The calls, exit by exit -/

section Add

variable {spec : PortForwardSpec} {attempt : Attempt}

/-- A forward is to be started: the port is not explicit, and no forward has the local port. -/
def Starts (w : Daemon) (spec : PortForwardSpec) : Prop :=
  spec.key ∉ w.explicitPorts ∧ ∀ i ∈ w.portForwards.lookup spec.key, ¬ w.Serves spec i

theorem record_of_mem (h : spec.key ∈ w.explicitPorts) : w.record spec = (w, false) := if_pos h

theorem record_of_serves (h : spec.key ∉ w.explicitPorts)
    (hi : w.portForwards.lookup spec.key = some i) (hs : w.Serves spec i) :
    w.record spec =
      ({ w.intend spec with fwd := update w.fwd i { w.fwd i with explicit := true } }, false) := by
  simp_all [record]

theorem record_of_starts (h : w.Starts spec) :
    w.record spec = ((w.intend spec).stop fun key _ => key = spec.key, true) := by
  rw [record, if_neg h.1]
  cases hi : w.portForwards.lookup spec.key with
  | some i => exact if_neg (h.2 i hi)
  | none =>
    refine congrArg (·, true) (stop_eq_self fun key i hkey => decide_eq_false ?_).symm
    rintro rfl
    cases hi.symm.trans hkey

/-- The port is explicit already, a forward with its local port is there, or one is started. -/
theorem record_cases (w : Daemon) (spec : PortForwardSpec) :
    spec.key ∈ w.explicitPorts ∨
      (∃ i, spec.key ∉ w.explicitPorts ∧ w.portForwards.lookup spec.key = some i ∧
        w.Serves spec i) ∨ w.Starts spec := by
  by_cases hmem : spec.key ∈ w.explicitPorts
  · exact .inl hmem
  by_cases hs : ∃ i ∈ w.portForwards.lookup spec.key, w.Serves spec i
  · simp_all
  grind [Starts]

/-- Where a call that starts a forward has the lock again. -/
def restarted (w : Daemon) (spec : PortForwardSpec) (attempt : Attempt) : Daemon :=
  let w₁ := (w.intend spec).stop fun key _ => key = spec.key
  if attempt.closes then w₁.close else w₁

theorem add_of_mem (h : spec.key ∈ w.explicitPorts) :
    w.addExplicitPortForward spec attempt = (w, .ok ()) := by
  rw [addExplicitPortForward, record_of_mem h]
  rfl

theorem add_of_serves (h : spec.key ∉ w.explicitPorts)
    (hi : w.portForwards.lookup spec.key = some i) (hs : w.Serves spec i) :
    w.addExplicitPortForward spec attempt =
      ({ w.intend spec with fwd := update w.fwd i { w.fwd i with explicit := true } }, .ok ()) := by
  rw [addExplicitPortForward, record_of_serves h hi hs]
  rfl

theorem add_of_starts (h : w.Starts spec) :
    w.addExplicitPortForward spec attempt =
      ((w.restarted spec attempt).start (explicitInfo spec) (explicitOptions spec)
        attempt.conflict).finish spec (w.restarted spec attempt).fwdCount := by
  rw [addExplicitPortForward, record_of_starts h]
  rfl

@[simp] theorem start_fwd_self (w : Daemon) (info : PortInfo) (opts : PortForwardOptions)
    (conflict : Option String) :
    (w.start info opts conflict).fwd w.fwdCount = startPortForward info opts conflict :=
  update_self ..

theorem start_fwd_of_ne {info : PortInfo} {opts : PortForwardOptions} {conflict : Option String}
    (h : i ≠ w.fwdCount) : (w.start info opts conflict).fwd i = w.fwd i :=
  update_of_ne h ..

@[simp] theorem start_listening_self (w : Daemon) (info : PortInfo) (opts : PortForwardOptions)
    (conflict : Option String) :
    (w.start info opts conflict).listening w.fwdCount = conflict.isNone :=
  update_self ..

theorem start_listening_of_ne {info : PortInfo} {opts : PortForwardOptions}
    {conflict : Option String} (h : i ≠ w.fwdCount) :
    (w.start info opts conflict).listening i = w.listening i :=
  update_of_ne h ..

theorem add_of_conflict (h : w.Starts spec) {reason : String}
    (hreason : attempt.conflict = some reason) :
    w.addExplicitPortForward spec attempt =
      ({ (w.restarted spec attempt).start (explicitInfo spec) (explicitOptions spec)
          (some reason) with
          explicitPorts := (w.restarted spec attempt).explicitPorts.erase spec.key },
        .error (.inUse spec.effectiveLocalPort reason)) := by
  rw [add_of_starts h, finish, start_fwd_self, hreason]
  rfl

theorem add_of_closed (h : w.Starts spec) (hnone : attempt.conflict = none)
    (hclosed : (w.restarted spec attempt).closed = true) :
    w.addExplicitPortForward spec attempt =
      (((w.restarted spec attempt).start (explicitInfo spec) (explicitOptions spec) none).cancel
        (.singleton spec.key (w.restarted spec attempt).fwdCount), .error .closed) := by
  rw [add_of_starts h, finish, start_fwd_self, hnone]
  exact (if_neg Bool.false_ne_true).trans (if_pos hclosed)

theorem add_of_open (h : w.Starts spec) (hnone : attempt.conflict = none)
    (hclosed : (w.restarted spec attempt).closed = false) :
    w.addExplicitPortForward spec attempt =
      ({ (w.restarted spec attempt).start (explicitInfo spec) (explicitOptions spec) none with
          portForwards := (w.restarted spec attempt).portForwards.insert spec.key
            (w.restarted spec attempt).fwdCount }, .ok ()) := by
  rw [add_of_starts h, finish, start_fwd_self, hnone]
  refine (if_neg Bool.false_ne_true).trans (if_neg ?_)
  rw [Bool.not_eq_true]
  exact hclosed

section Restarted

variable (w spec attempt)

@[simp] theorem closed_restarted :
    (w.restarted spec attempt).closed = (w.closed || attempt.closes) := by
  unfold restarted
  grind [stop, intend, close]

@[simp] theorem explicitPorts_restarted :
    (w.restarted spec attempt).explicitPorts = w.explicitPorts.insert spec.key spec := by
  unfold restarted
  grind [stop, intend, close]

@[simp] theorem fwd_restarted : (w.restarted spec attempt).fwd = w.fwd := by
  unfold restarted
  grind [stop, intend, close]

@[simp] theorem fwdCount_restarted : (w.restarted spec attempt).fwdCount = w.fwdCount := by
  unfold restarted
  grind [stop, intend, close]

theorem lookup_restarted (key : String) : (w.restarted spec attempt).portForwards.lookup key =
    if key = spec.key ∨ attempt.closes = true ∧ w.closed = false then none
    else w.portForwards.lookup key := by
  have hstop : ((w.intend spec).stop fun key _ => key = spec.key).portForwards.lookup key =
      if key = spec.key then none else w.portForwards.lookup key := by
    rw [lookup_stop, show (w.intend spec).portForwards = w.portForwards from rfl]
    cases w.portForwards.lookup key with
    | none => simp
    | some i =>
      grind
  unfold restarted
  by_cases hcloses : attempt.closes = true
  · rw [if_pos hcloses, lookup_close, hstop]
    cases hclosed : w.closed with
    | true => simp [stop, intend, hclosed]
    | false => simp [stop, intend, hclosed, hcloses]
  · simp_all

end Restarted

end Add

end Daemon

end Graft.Forwards
