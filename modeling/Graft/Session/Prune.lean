import Graft.Daemon.PidFile

/-!
# Pruning sessions (`tickPruneSessions` in `pkg/session_manager.go`)

Each tick lists the session directories, asks with signal 0 whether the process of each is alive,
and removes the session or makes sure that it is in memory.  The sessions in memory are not listed,
and a signal that is not permitted counts as a dead process.  The kernel cuts the number of the
process to 32 bits.

The calls on session directories are taken to succeed; a root that does not exist has none.
-/

namespace Graft.Prune

open PidFile (parseUint IsPid isPid_iff)

def maxInt : ℕ := 2 ^ 63 - 1

/-- The processes, those that may be signalled, and the groups of processes (by numbers that are not
positive) with a member that may be. -/
structure Processes where
  alive : ℕ → Bool
  own : ℕ → Bool
  groups : ℤ → Bool
  isPid : ∀ pid, alive pid = true → IsPid pid

/-- `kill` with signal 0 succeeds. -/
def Processes.kill (ps : Processes) (target : ℤ) : Bool :=
  if 0 < target then ps.alive target.toNat && ps.own target.toNat else ps.groups target

/-- `FindProcess` and `Signal` give no error: 0 is refused by `Signal`, and no number beyond `int` is
asked about. -/
def Processes.signals (ps : Processes) (pid : ℕ) : Bool :=
  decide (0 < pid ∧ pid ≤ maxInt) && ps.kill (Int.bmod pid (2 ^ 32))

/-- The sessions in memory, by their processes, and the names in the directory of the sessions. -/
structure Manager where
  sessions : Finset ℕ
  disk : List (List Char)
  deriving DecidableEq

def removeSession (m : Manager) (sessPid : ℕ) (name : List Char) : Manager :=
  ⟨m.sessions.erase sessPid, m.disk.filter (· ≠ name)⟩

def getOrCreateSession (m : Manager) (sessionPID : ℕ) : Manager :=
  if sessionPID ∈ m.sessions then m
  else ⟨insert sessionPID m.sessions, if Nat.toDigits 10 sessionPID ∈ m.disk then m.disk
    else m.disk ++ [Nat.toDigits 10 sessionPID]⟩

/-- One directory. -/
def pruneDir (ps : Processes) (m : Manager) (name : List Char) : Manager :=
  match parseUint name with
  | none => removeSession m 0 name
  | some sessPid =>
    if maxInt < sessPid then m
    else if ps.signals sessPid then getOrCreateSession m sessPid
    else removeSession m sessPid name

def tickPruneSessions (ps : Processes) (m : Manager) : Manager := m.disk.foldl (pruneDir ps) m

/-! ### What is required -/

/-- The process has a session directory. -/
def Manager.HasDir (m : Manager) (pid : ℕ) : Prop := ∃ name ∈ m.disk, parseUint name = some pid

/-- Afterwards the sessions in memory are those with a directory and a process that is alive, and no
directory of such a process was deleted. -/
def Exact (ps : Processes) (m m' : Manager) : Prop :=
  (∀ pid, pid ∈ m'.sessions ↔ m'.HasDir pid ∧ ps.alive pid) ∧
    ∀ name ∈ m.disk, ∀ pid, parseUint name = some pid → ps.alive pid → name ∈ m'.disk

/-! ### What a tick does -/

variable {ps : Processes} {m : Manager} {pid : ℕ} {name : List Char}

/-- Some name in the list is that of the process. -/
def Listed (l : List (List Char)) (pid : ℕ) : Prop :=
  ∃ name ∈ l, parseUint name = some pid ∧ pid ≤ maxInt

theorem parseUint_toDigits (h : pid ≤ maxInt) : parseUint (Nat.toDigits 10 pid) = some pid := by
  have hvalue : Nat.ofDigitChars 10 (Nat.toDigits 10 pid) 0 = pid :=
    Nat.ofDigitChars_toDigits (by decide) le_rfl
  have hdigits : (Nat.toDigits 10 pid).all Char.isDigit = true :=
    List.all_eq_true.2 fun c hc => Nat.isDigit_of_mem_toDigits (by decide) le_rfl hc
  have hbound : pid < 2 ^ 64 := lt_of_le_of_lt h (by decide)
  rw [parseUint, hvalue, if_pos ⟨Nat.toDigits_ne_nil, hdigits, hbound⟩]

theorem Processes.signals_bound (h : ps.signals pid = true) : 0 < pid ∧ pid ≤ maxInt :=
  of_decide_eq_true (Bool.and_eq_true_iff.1 h).1

theorem Processes.alive_bound (h : ps.alive pid = true) : 0 < pid ∧ pid < 2 ^ 31 := by
  have hpid := ps.isPid pid h
  unfold IsPid at hpid
  omega

/-- Below 2^31 the process is asked itself. -/
theorem Processes.signals_of_lt (h : pid < 2 ^ 31) : ps.signals pid = (ps.alive pid && ps.own pid) := by
  obtain rfl | hpos := Nat.eq_zero_or_pos pid
  · have hdead : ps.alive 0 ≠ true := fun hx => absurd (ps.alive_bound hx).1 (by decide)
    simp [signals, Bool.eq_false_iff.2 hdead]
  · have hcut := ((isPid_iff pid).1 ⟨by omega, by omega⟩).1
    have hint : 0 < pid ∧ pid ≤ maxInt := ⟨hpos, h.le.trans (by decide)⟩
    rw [signals, hcut, kill, if_pos (by omega), Int.toNat_natCast, decide_eq_true hint, Bool.true_and]

/-- The directory is removed. -/
def Removable (ps : Processes) (name : List Char) : Prop :=
  ∀ pid, parseUint name = some pid → pid ≤ maxInt ∧ ps.signals pid = false

/-- What one directory can lead to: nothing, its removal, or a session. -/
theorem pruneDir_cases (ps : Processes) (m : Manager) (name : List Char) :
    (∃ sessPid, parseUint name = some sessPid ∧ maxInt < sessPid ∧ pruneDir ps m name = m) ∨
    (parseUint name = none ∧ pruneDir ps m name = removeSession m 0 name) ∨
    (∃ sessPid, parseUint name = some sessPid ∧ sessPid ≤ maxInt ∧ ps.signals sessPid = false ∧
      pruneDir ps m name = removeSession m sessPid name) ∨
    ∃ sessPid, parseUint name = some sessPid ∧ sessPid ≤ maxInt ∧ ps.signals sessPid = true ∧
      pruneDir ps m name = getOrCreateSession m sessPid := by
  unfold pruneDir
  cases parseUint name with
  | none => simp
  | some sessPid =>
    by_cases hmax : maxInt < sessPid
    · simp [hmax]
    · cases hsig : ps.signals sessPid <;> simp_all

theorem mem_sessions_removeSession {sessPid : ℕ} :
    pid ∈ (removeSession m sessPid name).sessions ↔ pid ≠ sessPid ∧ pid ∈ m.sessions :=
  Finset.mem_erase

theorem mem_sessions_getOrCreateSession {sessPid : ℕ} :
    pid ∈ (getOrCreateSession m sessPid).sessions ↔ pid = sessPid ∨ pid ∈ m.sessions := by
  unfold getOrCreateSession
  by_cases h : sessPid ∈ m.sessions
  · rw [if_pos h]
    exact ⟨.inr, fun hx => hx.elim (fun hx => hx ▸ h) id⟩
  · rw [if_neg h]
    exact Finset.mem_insert

/-- **The sessions in memory after some directories**: those listed have a process that can be
signalled, and the others are as they were, but for process 0. -/
theorem mem_sessions_foldl (ps : Processes) (l : List (List Char)) (m : Manager) (pid : ℕ) :
    pid ∈ (l.foldl (pruneDir ps) m).sessions ↔
      Listed l pid ∧ ps.signals pid = true ∨
        ¬ Listed l pid ∧ pid ∈ m.sessions ∧ ¬ (pid = 0 ∧ ∃ name ∈ l, parseUint name = none) := by
  have hzero : ps.signals pid = true → pid ≠ 0 := fun h => (ps.signals_bound h).1.ne'
  induction l generalizing m with
  | nil => simp [Listed]
  | cons name l ih =>
    have hlisted : Listed (name :: l) pid ↔ parseUint name = some pid ∧ pid ≤ maxInt ∨ Listed l pid := by
      simp [Listed]
    have hnone : (∃ n ∈ name :: l, parseUint n = none) ↔
        parseUint name = none ∨ ∃ n ∈ l, parseUint n = none := by simp
    rw [List.foldl_cons]
    refine (ih (pruneDir ps m name)).trans ?_
    rw [hlisted, hnone]
    rcases pruneDir_cases ps m name with ⟨p, hparse, hmax, heq⟩ | ⟨hparse, heq⟩ |
      ⟨p, hparse, hmax, hsig, heq⟩ | ⟨p, hparse, hmax, hsig, heq⟩ <;> rw [heq, hparse]
    · grind
    · rw [mem_sessions_removeSession]
      grind
    · rw [mem_sessions_removeSession]
      grind
    · rw [mem_sessions_getOrCreateSession]
      grind

/-- What one directory does to the names on the disk. -/
theorem mem_disk_pruneDir (ps : Processes) (m : Manager) (name n : List Char) :
    n ∈ (pruneDir ps m name).disk ↔ n ∈ m.disk ∧ ¬ (n = name ∧ Removable ps name) ∨
      ∃ pid, parseUint name = some pid ∧ ps.signals pid = true ∧ pid ∉ m.sessions ∧
        n = Nat.toDigits 10 pid := by
  unfold Removable
  rcases pruneDir_cases ps m name with ⟨p, hparse, hmax, heq⟩ | ⟨hparse, heq⟩ |
    ⟨p, hparse, hmax, hsig, heq⟩ | ⟨p, hparse, hmax, hsig, heq⟩ <;> rw [heq, hparse]
  · have hsig : ps.signals p ≠ true := fun hx => absurd (ps.signals_bound hx).2 (by omega)
    grind
  · simp [removeSession]
  · simp [removeSession, hsig, hmax]
  · unfold getOrCreateSession
    grind

theorem not_removable (h : ps.signals pid = true) : ¬ Removable ps (Nat.toDigits 10 pid) := by
  intro hr
  have hbound := (ps.signals_bound h).2
  rw [(hr pid (parseUint_toDigits hbound)).2] at h
  cases h

/-- **The names on the disk after some directories.** -/
theorem mem_disk_foldl (ps : Processes) (l : List (List Char)) (m : Manager) (n : List Char) :
    (n ∈ (l.foldl (pruneDir ps) m).disk → n ∈ m.disk ∧ ¬ (n ∈ l ∧ Removable ps n) ∨
      ∃ pid, Listed l pid ∧ ps.signals pid = true ∧ n = Nat.toDigits 10 pid) ∧
    (n ∈ m.disk → ¬ (n ∈ l ∧ Removable ps n) → n ∈ (l.foldl (pruneDir ps) m).disk) := by
  induction l generalizing m with
  | nil => exact ⟨fun hn => .inl ⟨hn, by simp⟩, fun hn _ => hn⟩
  | cons name l ih =>
    obtain ⟨hsound, hkept⟩ := ih (pruneDir ps m name)
    have hdir := mem_disk_pruneDir ps m name n
    rw [List.foldl_cons]
    constructor
    · intro hn
      rcases hsound hn with ⟨hn, hl⟩ | ⟨pid, ⟨x, hx, hpid⟩, hrest⟩
      · rcases hdir.1 hn with ⟨hn, hname⟩ | ⟨pid, hparse, hsig, -, hn⟩
        · exact .inl ⟨hn, by grind⟩
        · exact .inr ⟨pid, ⟨name, List.mem_cons_self, hparse, (ps.signals_bound hsig).2⟩, hsig, hn⟩
      · exact .inr ⟨pid, ⟨x, List.mem_cons_of_mem _ hx, hpid⟩, hrest⟩
    · intro hn hr
      exact hkept (hdir.2 (.inl ⟨hn, by grind⟩)) (by grind)

/-- **Pruning is exact** if and only if each session in memory has a directory, or is that of process
0 and is dropped with a name that is no number, each process with a directory that is alive may be
signalled, and no process or group is found alive with a directory whose number is cut to its own. -/
theorem prune_exact_iff (ps : Processes) (m : Manager) :
    Exact ps m (tickPruneSessions ps m) ↔
      (∀ pid ∈ m.sessions, Listed m.disk pid ∨ pid = 0 ∧ ∃ name ∈ m.disk, parseUint name = none) ∧
      ∀ name ∈ m.disk, ∀ pid ≤ maxInt, parseUint name = some pid →
        (ps.alive pid → ps.own pid) ∧ (2 ^ 31 ≤ pid → ps.kill (Int.bmod pid (2 ^ 32)) = false) := by
  have hsessions := mem_sessions_foldl ps m.disk m
  have hdisk := mem_disk_foldl ps m.disk m
  -- a directory that is there afterwards was listed
  have hlisted : ∀ pid, (tickPruneSessions ps m).HasDir pid → ps.alive pid = true →
      Listed m.disk pid := by
    rintro pid ⟨name, hname, hparse⟩ halive
    rcases (hdisk name).1 hname with ⟨hname, -⟩ | ⟨pid', hpid', hsig, rfl⟩
    · exact ⟨name, hname, hparse, (ps.alive_bound halive).2.le.trans (by decide)⟩
    · rw [parseUint_toDigits (ps.signals_bound hsig).2] at hparse
      exact Option.some.inj hparse ▸ hpid'
  have hkept : ∀ name ∈ m.disk, ∀ pid, parseUint name = some pid → ps.signals pid = true →
      name ∈ (tickPruneSessions ps m).disk := by
    intro name hname pid hparse hsig
    refine (hdisk name).2 hname fun hx => ?_
    rw [(hx.2 pid hparse).2] at hsig
    cases hsig
  constructor
  · rintro ⟨hmem, hdirs⟩
    refine ⟨fun pid hpid => ?_, fun name hname pid hmax hparse => ⟨fun halive => ?_, fun hbig => ?_⟩⟩
    · by_contra hx
      obtain ⟨hnot, hzero⟩ := not_or.1 hx
      have hstays := (hsessions pid).2 (.inr ⟨hnot, hpid, hzero⟩)
      obtain ⟨hdir, halive⟩ := (hmem pid).1 hstays
      exact hnot (hlisted pid hdir halive)
    · by_contra hown
      have hsig : ps.signals pid = false := by
        rw [Processes.signals_of_lt (ps.alive_bound halive).2]
        exact Bool.and_eq_false_imp.2 fun _ => Bool.eq_false_iff.2 hown
      rcases (hdisk name).1 (hdirs name hname pid hparse halive) with ⟨-, hr⟩ | ⟨pid', -, hsig', rfl⟩
      · refine hr ⟨hname, fun p hp => ?_⟩
        cases hparse.symm.trans hp
        exact ⟨hmax, hsig⟩
      · refine not_removable hsig' fun p hp => ?_
        cases hparse.symm.trans hp
        exact ⟨hmax, hsig⟩
    · -- the session is made, although there is no process of that number
      by_contra hkill
      have hsig : ps.signals pid = true := by
        rw [Processes.signals, Bool.eq_true_of_not_eq_false hkill, decide_eq_true ⟨by omega, hmax⟩]
        rfl
      have hstays := (hsessions pid).2 (.inl ⟨⟨name, hname, hparse, hmax⟩, hsig⟩)
      have hbound := (ps.alive_bound ((hmem pid).1 hstays).2).2
      omega
  · rintro ⟨hmemory, hright⟩
    have hsig : ∀ name ∈ m.disk, ∀ pid ≤ maxInt, parseUint name = some pid →
        ps.signals pid = ps.alive pid := by
      intro name hname pid hmax hparse
      obtain ⟨hown, hcut⟩ := hright name hname pid hmax hparse
      by_cases hlt : pid < 2 ^ 31
      · rw [Processes.signals_of_lt hlt]
        exact Bool.and_eq_left_iff_imp.2 hown
      · have hdead : ps.alive pid = false :=
          Bool.eq_false_iff.2 fun hx => hlt (ps.alive_bound hx).2
        rw [Processes.signals, hcut (not_lt.1 hlt), hdead, Bool.and_false]
    refine ⟨fun pid => ⟨fun h => ?_, fun ⟨hdir, halive⟩ => ?_⟩, fun name hname pid hparse halive => ?_⟩
    · rcases (hsessions pid).1 h with ⟨⟨name, hname, hparse, hmax⟩, hs⟩ | ⟨hnot, hpid, hzero⟩
      · exact ⟨⟨name, hkept name hname pid hparse hs, hparse⟩, hsig name hname pid hmax hparse ▸ hs⟩
      · exact absurd (hmemory pid hpid) (not_or.2 ⟨hnot, hzero⟩)
    · obtain ⟨name, hname, hparse, hmax⟩ := hlisted pid hdir halive
      exact (hsessions pid).2
        (.inl ⟨⟨name, hname, hparse, hmax⟩, (hsig name hname pid hmax hparse).trans halive⟩)
    · have hmax : pid ≤ maxInt := (ps.alive_bound halive).2.le.trans (by decide)
      exact hkept name hname pid hparse ((hsig name hname pid hmax hparse).trans halive)

/-- Process 8 is alive, and belongs to another user. -/
def foreign : Processes :=
  ⟨(· = 8), fun _ => false, fun _ => false, fun pid h => by simp_all [IsPid]⟩

/-- Process 1 is alive, and may be signalled. -/
def first : Processes := ⟨(· = 1), fun _ => true, fun _ => false, fun pid h => by simp_all [IsPid]⟩

/-- The session of process 7, which has no directory, stays in memory; the directory of process 8 is
deleted, which is alive; and a directory gets a session because of process 1. -/
theorem prune_not_exact :
    (tickPruneSessions foreign ⟨{7}, [['8']]⟩ = ⟨{7}, []⟩ ∧ foreign.alive 8 = true ∧
      ¬ Exact foreign ⟨{7}, [['8']]⟩ (tickPruneSessions foreign ⟨{7}, [['8']]⟩)) ∧
    4294967297 ∈ (tickPruneSessions first ⟨∅, ["4294967297".toList]⟩).sessions ∧
      first.alive 4294967297 = false := by
  have htick : tickPruneSessions foreign ⟨{7}, [['8']]⟩ = ⟨{7}, []⟩ := by decide +kernel
  refine ⟨⟨htick, rfl, fun h => ?_⟩, by decide +kernel, by decide⟩
  have hkept := h.2 ['8'] (by decide) 8 (by decide +kernel) rfl
  rw [htick] at hkept
  cases hkept

end Graft.Prune
