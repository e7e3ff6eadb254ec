import Graft.Library.Machine

/-!
# Installing the remote daemon (`remoteDaemon.ensureDaemon`)

`ensureDaemon` connects to the daemon on the remote host, asks for its version, and installs and
starts another one when there is none or when its version differs.  Attempts are made one after
another, under `installMu`; each of their steps on the remote host may fail, and the process that
runs there may end at any time.  A daemon that was installed once is not installed again as long as
one is online: this is noted before the installation, and stays noted when it fails.
-/

namespace Graft.Install

open Function (update update_self)

/-! ### Versions -/

/-- `VersionInfo`, as far as it is compared. -/
structure VersionInfo where
  version : Option String
  vcsRevision : Option String
  vcsModified : Option Bool
  deriving DecidableEq

def goDevelVersionString : String := "(devel)"

/-- `BuildVersionsEqual`: why two versions differ, and the empty string if they do not. -/
def buildVersionsEqual (a b : VersionInfo) : String :=
  match a.version, b.version with
  | some v, some v' =>
    if v = v' then
      if v = goDevelVersionString then "development build" else ""
    else "different versions"
  | _, _ =>
    if a.vcsModified = some true ∨ b.vcsModified = some true then "dirty vcs build"
    else
      match a.vcsRevision, b.vcsRevision with
      | some r, some r' => if r ≠ r' then "different vcs revisions" else ""
      | r, r' =>
        if a.version.isSome ∨ b.version.isSome ∨ r.isSome ∨ r'.isSome then "version info mismatch"
        else ""

/-! ### Attempts -/

/-- Where `ensureDaemon` is. -/
inductive Pc
  | idle
  /-- before the host is discovered and `tryConnectExistingDaemon` has returned -/
  | probing
  /-- before `checkReinstallNeeded`, with a connection to a process -/
  | checking (p : ℕ)
  /-- before `reinstallDaemon` -/
  | reinstalling (conn : Option ℕ)
  /-- after the call of `Shutdown` -/
  | waiting
  /-- before `CopyFile` -/
  | copying
  /-- before the new daemon is started -/
  | starting
  /-- before the last call of `ConnectToRemoteDaemon` -/
  | connecting
  /-- `ensureDaemon` has returned `nil`, with a connection to a process; `checked`: the process has
  passed the comparison -/
  | succeeded (p : ℕ) (checked : Bool)
  deriving DecidableEq

structure State where
  reinstalledOnce : Bool
  /-- the process that listens on the remote socket -/
  running : Option ℕ
  /-- the number of processes so far -/
  count : ℕ
  pc : Pc
  /-- the processes that were started by an install that ran to its end -/
  installed : ℕ → Bool
  /-- the install that has set `reinstalledOnce` has run to its end -/
  completed : Bool

/-- Before the first attempt, with a process on the host or without. -/
def State.init (online : Bool) : State where
  reinstalledOnce := false
  running := if online then some 0 else none
  count := 1
  pc := .idle
  installed _ := false
  completed := false

def State.spawn (w : State) : State := { w with running := some w.count, count := w.count + 1 }

inductive Event
  /-- the process on the host ends -/
  | exit
  /-- `ensureDaemon` is called -/
  | begin
  /-- `tryConnectExistingDaemon` finds a process -/
  | probe (p : ℕ)
  /-- it finds none, or cannot tell -/
  | probeFailed
  /-- `Status` answers -/
  | status (p : ℕ)
  | statusFailed (p : ℕ)
  /-- `reinstallDaemon` returns at once -/
  | skip (conn : Option ℕ)
  /-- `reinstallDaemon` begins; `Shutdown` is called if there is a connection, and may fail -/
  | mark (conn : Option ℕ)
  /-- three seconds pass -/
  | waited
  | copy
  | start
  /-- the command that starts the daemon fails, though it may have started it -/
  | startFailed (started : Bool)
  | connect (p : ℕ)
  /-- the attempt ends with an error -/
  | fail

section

-- our own version, and those of the processes
variable (ourVersion : VersionInfo) (version : ℕ → VersionInfo)

namespace Event

def Enabled (w : State) : Event → Prop
  | exit => w.running ≠ none
  | begin => w.pc = .idle ∨ ∃ p checked, w.pc = .succeeded p checked
  | probe p => w.pc = .probing ∧ w.running = some p
  | probeFailed => w.pc = .probing
  | status p | statusFailed p => w.pc = .checking p
  | skip conn => w.pc = .reinstalling conn ∧ w.reinstalledOnce = true
  | mark conn => w.pc = .reinstalling conn ∧ w.reinstalledOnce = false
  | waited => w.pc = .waiting
  | copy => w.pc = .copying
  | start | startFailed _ => w.pc = .starting
  | connect p => w.pc = .connecting ∧ w.running = some p
  -- the host cannot be discovered, the context ends, the copy fails, or the last connection does
  | fail => w.pc = .probing ∨ w.pc = .waiting ∨ w.pc = .copying ∨ w.pc = .connecting

def fire (w : State) : Event → State
  | exit => { w with running := none }
  | begin => { w with pc := .probing }
  | probe p => { w with pc := .checking p }
  | probeFailed => { w with reinstalledOnce := false, pc := .reinstalling none }
  | status p =>
    if buildVersionsEqual (version p) ourVersion ≠ "" then { w with pc := .reinstalling (some p) }
    else { w with pc := .succeeded p true }
  | statusFailed p => { w with pc := .reinstalling (some p) }
  | skip _ => { w with pc := .connecting }
  | mark conn =>
    { w with
      reinstalledOnce := true
      completed := false
      pc := if conn.isSome then .waiting else .copying }
  | waited => { w with pc := .copying }
  | copy => { w with pc := .starting }
  | start =>
    { w.spawn with
      installed := update w.installed w.count true
      completed := true
      pc := .connecting }
  | startFailed started => { if started then w.spawn else w with pc := .idle }
  | connect p => { w with pc := .succeeded p false }
  | fail => { w with pc := .idle }

end Event

/-- Attempts of `ensureDaemon`, one after another. -/
def installer : Machine State Event := ⟨Event.Enabled, Event.fire ourVersion version⟩

end

instance (w : State) : Decidable (∃ p checked, w.pc = .succeeded p checked) := by
  cases hpc : w.pc with
  | succeeded p checked => exact .isTrue ⟨p, checked, rfl⟩
  | _ => exact .isFalse (by rintro ⟨p, checked, h⟩; cases h)

instance (ourVersion : VersionInfo) (version : ℕ → VersionInfo) (w : State) (e : Event) :
    Decidable ((installer ourVersion version).enabled w e) := by
  cases e <;> simp only [installer, Event.Enabled] <;> infer_instance

/-- `reinstallDaemon` finds a daemon noted as installed only after an install that has run to its
end. -/
def Thorough (w : State) : Event → Prop
  | .skip _ => w.completed = true
  | _ => True

instance (w : State) (e : Event) : Decidable (Thorough w e) := by
  cases e <;> simp only [Thorough] <;> infer_instance

/-! ### The invariant -/

section

variable {ourVersion : VersionInfo} {version : ℕ → VersionInfo} {w : State}

/-- A process has the right version: it has passed the comparison, or was started by an install
that ran to its end. -/
def Right (ourVersion : VersionInfo) (version : ℕ → VersionInfo) (w : State) (p : ℕ)
    (checked : Bool) : Prop :=
  checked = true ∧ buildVersionsEqual (version p) ourVersion = "" ∨ w.installed p = true

structure Inv (ourVersion : VersionInfo) (version : ℕ → VersionInfo) (w : State) : Prop where
  /-- after an install that ran to its end, what runs is what it started -/
  running : w.reinstalledOnce = true → w.completed = true →
    ∀ p ∈ w.running, w.installed p = true
  connecting : w.pc = .connecting → w.reinstalledOnce = true ∧ w.completed = true
  /-- an install that goes on has not run to its end -/
  installing : w.pc = .waiting ∨ w.pc = .copying ∨ w.pc = .starting →
    w.reinstalledOnce = true ∧ w.completed = false
  succeeded : ∀ p checked, w.pc = .succeeded p checked → Right ourVersion version w p checked

theorem Inv.init (online : Bool) : Inv ourVersion version (.init online) where
  running h := by cases h
  connecting h := by cases h
  installing h := by obtain h | h | h := h <;> cases h
  succeeded _ _ h := by cases h

theorem Inv.setPc (h : Inv ourVersion version w) {pc : Pc} (hconnecting : pc ≠ .connecting)
    (hinstalling : pc = .copying ∨ pc = .starting →
      w.reinstalledOnce = true ∧ w.completed = false) (hwaiting : pc ≠ .waiting)
    (hsucceeded : ∀ p checked, pc = .succeeded p checked → Right ourVersion version w p checked) :
    Inv ourVersion version { w with pc := pc } where
  running := h.running
  connecting hpc := absurd hpc hconnecting
  installing hpc := hinstalling (hpc.resolve_left hwaiting)
  succeeded := hsucceeded

theorem Inv.start (h : Inv ourVersion version w) (he : Event.Enabled w .start) :
    Inv ourVersion version (Event.fire ourVersion version w .start) where
  running _ _ p hp := by
    cases hp
    exact update_self ..
  connecting _ := ⟨(h.installing (.inr (.inr he))).1, rfl⟩
  installing hpc := by obtain hpc | hpc | hpc := hpc <;> cases hpc
  succeeded _ _ hpc := by cases hpc

theorem Inv.fire (h : Inv ourVersion version w) {e : Event} (he : e.Enabled w)
    (hok : Thorough w e) : Inv ourVersion version (e.fire ourVersion version w) := by
  cases e with
  | exit => exact { h with running := fun _ _ _ hp => by cases hp }
  | begin | probe | fail | statusFailed => exact h.setPc nofun nofun nofun nofun
  | probeFailed =>
    refine ⟨fun hflag => ?_, nofun, nofun, nofun⟩
    cases hflag
  | status p =>
    dsimp only [Event.fire]
    split_ifs with hversion
    · exact h.setPc nofun nofun nofun nofun
    · refine h.setPc nofun nofun nofun fun p' checked hpc => ?_
      grind [Right]
  | skip conn => exact ⟨h.running, fun _ => ⟨he.2, hok⟩, nofun, nofun⟩
  | mark conn =>
    refine ⟨fun _ hcompleted => ?_, fun hpc => ?_, fun _ => ⟨rfl, rfl⟩, fun p checked hpc => ?_⟩
    · cases hcompleted
    all_goals
      dsimp only [Event.fire] at hpc
      split_ifs at hpc
  | waited => exact h.setPc nofun (fun _ => h.installing (.inl he)) nofun nofun
  | copy => exact h.setPc nofun (fun _ => h.installing (.inr (.inl he))) nofun nofun
  | start => exact h.start he
  | startFailed started =>
    have hcompleted := (h.installing (.inr (.inr he))).2
    refine ⟨fun _ hdone => ?_, nofun, nofun, nofun⟩
    have hsame : (Event.fire ourVersion version w (.startFailed started)).completed
        = w.completed := by cases started <;> rfl
    grind
  | connect p =>
    obtain ⟨hflag, hcompleted⟩ := h.connecting he.1
    refine h.setPc nofun nofun nofun fun p' checked hpc => ?_
    grind [running, Right, Event.Enabled]

/-- **A connected daemon runs the right version**, if `reinstallDaemon` leaves a daemon alone only
after an install that has run to its end: whenever `ensureDaemon` returns `nil`, the process it is
connected to has passed the comparison in that attempt or was started by such an install. -/
theorem ensured {online : Bool}
    (h : (installer ourVersion version).Run Thorough (.init online) w) {p : ℕ} {checked : Bool}
    (hpc : w.pc = .succeeded p checked) :
    checked = true ∧ buildVersionsEqual (version p) ourVersion = "" ∨ w.installed p = true := by
  have hinv : Inv ourVersion version w :=
    h.invariant (I := Inv ourVersion version) (.init online) fun _ _ hw he hok => hw.fire he hok
  exact hinv.succeeded p checked hpc

end

def release (version : String) : VersionInfo := ⟨some version, none, none⟩

/-- An outdated daemon is replaced. -/
theorem ensured_replaced :
    ∃ w, (installer (release "v2") fun p => release (if p = 0 then "v1" else "v2")).Run Thorough
        (.init true) w ∧ w.pc = .succeeded 1 false ∧ w.installed 1 = true := by
  have hexec : ∃ w ∈ (installer (release "v2")
      fun p => release (if p = 0 then "v1" else "v2")).exec Thorough (.init true)
      [.begin, .probe 0, .status 0, .mark (some 0), .waited, .copy, .start, .connect 1],
      w.pc = .succeeded 1 false := by
    decide +kernel
  obtain ⟨w, hrun, hpc⟩ := Machine.exists_run_of_exec _ _ hexec
  have hright := ensured hrun hpc
  grind

/-- **An outdated daemon is kept.**  The first attempt to replace it fails when the new one is
copied; the second one finds it still running, and noted as installed. -/
theorem outdated_kept :
    ∃ w, (installer (release "v2") fun _ => release "v1").Reachable (.init true) w ∧
      w.pc = .succeeded 0 false ∧
      buildVersionsEqual (release "v1") (release "v2") = "different versions" ∧
      w.installed 0 = false := by
  have hexec : ∃ w ∈ (installer (release "v2") fun _ => release "v1").exec (fun _ _ => True)
      (.init true)
      [.begin, .probe 0, .status 0, .mark (some 0), .waited, .fail, .begin, .probe 0, .status 0,
        .skip (some 0), .connect 0],
      w.pc = .succeeded 0 false ∧
      buildVersionsEqual (release "v1") (release "v2") = "different versions" ∧
      w.installed 0 = false := by
    decide +kernel
  exact Machine.exists_run_of_exec _ _ hexec

end Graft.Install
