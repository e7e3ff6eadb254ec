import Graft.Sync.Establish

/-!
# Replacing a daemon (`pkg/pidfile.go`)

`killDaemonByPIDFile` asks with signal 0 whether the process of the PID file is alive, sends SIGTERM
and then SIGKILL, and waits after each for the process to be gone.  It takes every error of signal 0
for a dead process, also that the signal is not permitted, and a number that is not positive for a
process:
`replace_unsafe`.
-/

namespace Graft.PidFile

open Sync (trimSpace)

/-- What a call of `kill` returns: nothing, `ESRCH` or `EPERM`. -/
inductive Answer
  | ok
  | noProcess
  | notPermitted
  deriving DecidableEq

inductive Signal
  /-- signal 0, which is not delivered -/
  | probe
  | term
  | kill
  deriving DecidableEq

/-- A call of `processSignal`. -/
structure Call where
  pid : ℤ
  signal : Signal
  answer : Answer
  deriving DecidableEq

inductive File
  | missing
  | unreadable
  | content (text : String)

inductive KillError
  | reading
  | sendingTerm (pid : ℤ)
  | sendingKill (pid : ℤ)
  | stillAlive (pid : ℤ)
  deriving DecidableEq

/-- `strconv.Atoi`. -/
def atoi (s : String) : Option ℤ :=
  let digits : List Char := match s.toList with
    | '-' :: ds | '+' :: ds => ds
    | ds => ds
  let n : ℤ := digits.foldl (fun n c => 10 * n + (c.toNat - 48 : ℕ)) 0
  let value := if s.toList.head? = some '-' then -n else n
  if digits ≠ [] ∧ digits.all Char.isDigit ∧ -2 ^ 63 ≤ value ∧ value < 2 ^ 63 then some value
  else none

/-- `strconv.ParseUint` in base 10, for 64 bits. -/
def parseUint (digits : List Char) : Option ℕ :=
  if digits ≠ [] ∧ digits.all Char.isDigit ∧ Nat.ofDigitChars 10 digits 0 < 2 ^ 64 then
    some (Nat.ofDigitChars 10 digits 0)
  else none

/-- The number that is in the file. -/
def File.pid : File → Option ℤ
  | content text => atoi (trimSpace text)
  | _ => none

/-- What is returned, where `none` is `nil`, the calls that were made, and whether the file is
removed. -/
structure Outcome where
  err : Option KillError
  calls : List Call
  removed : Bool

/-- `waitForProcessDeath`, when there is time to ask so many times: whether the process died, and the
answers. -/
def waitForProcessDeath (answers : ℕ → Answer) : ℕ → Bool × List Answer
  | 0 => (false, [])
  | polls + 1 =>
    if answers 0 = .ok then
      let (died, l) := waitForProcessDeath (fun k => answers (k + 1)) polls
      (died, .ok :: l)
    else (true, [answers 0])

/-- The answers are those of all calls of `processSignal`, one after the other; `termPolls` and
`killPolls` are how many times there is time to ask after each signal. -/
def killProcess (pid : ℤ) (answers : ℕ → Answer) (termPolls killPolls : ℕ) : Outcome :=
  let alive : Call := ⟨pid, .probe, answers 0⟩
  if answers 0 ≠ .ok then ⟨none, [alive], true⟩
  else
    let calls := [alive, ⟨pid, .term, answers 1⟩]
    match answers 1 with
    | .noProcess => ⟨none, calls, true⟩
    | .notPermitted => ⟨some (.sendingTerm pid), calls, false⟩
    | .ok =>
      let (died, l) := waitForProcessDeath (fun k => answers (k + 2)) termPolls
      let calls := calls ++ l.map (⟨pid, .probe, ·⟩)
      if died then ⟨none, calls, true⟩
      else
        let calls := calls ++ [⟨pid, .kill, answers (l.length + 2)⟩]
        match answers (l.length + 2) with
        | .noProcess => ⟨none, calls, true⟩
        | .notPermitted => ⟨some (.sendingKill pid), calls, false⟩
        | .ok =>
          let (died, l') := waitForProcessDeath (fun k => answers (k + l.length + 3)) killPolls
          let calls := calls ++ l'.map (⟨pid, .probe, ·⟩)
          if died then ⟨none, calls, true⟩ else ⟨some (.stillAlive pid), calls, false⟩

def killDaemonByPIDFile (file : File) (answers : ℕ → Answer) (termPolls killPolls : ℕ) : Outcome :=
  match file with
  | .missing => ⟨none, [], false⟩
  | .unreadable => ⟨some .reading, [], false⟩
  | .content text =>
    match atoi (trimSpace text) with
    | none => ⟨none, [], true⟩
    | some pid => killProcess pid answers termPolls killPolls

/-! ### Safety -/

/-- What the kernel signals: its numbers of processes have 32 bits, of which a call takes the lower
ones of the number it is given.  It is a group of processes if it is not positive. -/
def Call.target (c : Call) : ℤ := Int.bmod c.pid (2 ^ 32)

/-- The number can be that of a process. -/
def IsPid (pid : ℤ) : Prop := 0 < pid ∧ pid < 2 ^ 31

instance (pid : ℤ) : Decidable (IsPid pid) := inferInstanceAs (Decidable (_ ∧ _))

theorem isPid_iff (pid : ℤ) : IsPid pid ↔ Int.bmod pid (2 ^ 32) = pid ∧ 0 < pid := by
  unfold IsPid
  constructor
  · intro h
    exact ⟨Int.bmod_eq_of_le (by omega) (by omega), h.1⟩
  · rintro ⟨heq, hpos⟩
    have hlt := Int.bmod_lt (x := pid) (m := 2 ^ 32) (by decide)
    omega

/-- The file names a process that was there when `kill` was called last. -/
def Running (file : File) (calls : List Call) : Prop :=
  ∃ pid ∈ file.pid, IsPid pid ∧ ∀ c ∈ calls.getLast?, c.answer ≠ .noProcess

/-- `nil` is returned only if the process is not running, and a signal is sent only to the one process
whose positive number is in the file. -/
structure Safe (file : File) (out : Outcome) : Prop where
  gone : out.err = none → ¬ Running file out.calls
  target : ∀ c ∈ out.calls, c.signal ≠ .probe → file.pid = some c.target ∧ 0 < c.target

/-- The signal of call `k`, if all calls before it succeed. -/
def signalAt (termPolls k : ℕ) : Signal :=
  if k = 1 then .term else if k = termPolls + 2 then .kill else .probe

/-- If the number in the file can be that of a process, then the first call that fails is not a
question that is not permitted; if not, then the first question fails. -/
def Answered (file : File) (answers : ℕ → Answer) (termPolls killPolls : ℕ) : Prop :=
  ∀ pid ∈ file.pid,
    if IsPid pid then ∀ k < termPolls + killPolls + 3, (∀ j < k, answers j = .ok) →
      signalAt termPolls k = .probe → answers k ≠ .notPermitted
    else answers 0 ≠ .ok

/-- Only the last answer is an error, if the process is found dead, and else none is. -/
theorem waitForProcessDeath_cases (answers : ℕ → Answer) (polls : ℕ) :
    (∃ l a, waitForProcessDeath answers polls = (true, l ++ [a]) ∧ a ≠ .ok ∧ ∀ x ∈ l, x = .ok) ∨
      ∃ l, waitForProcessDeath answers polls = (false, l) ∧ ∀ x ∈ l, x = .ok := by
  induction polls generalizing answers with
  | zero => exact .inr ⟨[], rfl, nofun⟩
  | succ polls ih =>
    rw [waitForProcessDeath]
    split_ifs with hok
    · obtain ⟨l, a, heq, ha, hl⟩ | ⟨l, heq, hl⟩ := ih fun k => answers (k + 1)
      · exact .inl ⟨.ok :: l, a, by simp [heq], ha, by simpa using hl⟩
      · exact .inr ⟨.ok :: l, by simp [heq], by simpa using hl⟩
    · exact .inl ⟨[], answers 0, rfl, hok, nofun⟩

/-- What the calls tell of the process. -/
structure Spec (pid : ℤ) (answer : Answer) (out : Outcome) : Prop where
  pids : ∀ c ∈ out.calls, c.pid = pid
  first : out.calls.head? = some ⟨pid, .probe, answer⟩
  sends : answer = .ok ↔ ∃ c ∈ out.calls, c.signal ≠ .probe
  /-- a refused question ends it -/
  refused : ∀ c ∈ out.calls, c.signal = .probe → c.answer = .notPermitted →
    out.err = none ∧ out.calls.getLast? = some c
  ended : out.err = none → ∀ c ∈ out.calls.getLast?,
    c.answer = .noProcess ∨ c.signal = .probe ∧ c.answer = .notPermitted

section Calls

variable {pid : ℤ} {err : Option KillError} {removed : Bool} {calls : List Call} {last : Call}

/-- The calls after the process was found alive: all up to the last one succeed. -/
structure Log (pid : ℤ) (calls : List Call) : Prop where
  pids : ∀ c ∈ calls, c.pid = pid
  answers : ∀ c ∈ calls, c.answer = .ok
  first : calls.head? = some ⟨pid, .probe, .ok⟩

theorem Log.append_probes (h : Log pid calls) {l : List Answer} (hl : ∀ x ∈ l, x = .ok) :
    Log pid (calls ++ l.map (⟨pid, .probe, ·⟩)) := by
  refine ⟨fun c hc => ?_, fun c hc => ?_, by simp [h.first]⟩ <;>
    obtain hc | hc := List.mem_append.1 hc
  · exact h.pids c hc
  · grind
  · exact h.answers c hc
  grind

theorem Log.append_call (h : Log pid calls) (signal : Signal) :
    Log pid (calls ++ [⟨pid, signal, .ok⟩]) := by
  refine ⟨?_, ?_, by simp [h.first]⟩ <;> simp only [List.forall_mem_append]
  · exact ⟨h.pids, by simp⟩
  · exact ⟨h.answers, by simp⟩

theorem Log.spec (h : Log pid calls) (hlast : last.pid = pid)
    (hsends : ∃ c ∈ calls ++ [last], c.signal ≠ .probe)
    (hend : err = none ↔ last.answer = .noProcess ∨ last.signal = .probe ∧
      last.answer = .notPermitted) : Spec pid .ok ⟨err, calls ++ [last], removed⟩ := by
  refine ⟨?_, by simp [h.first], by simpa using hsends, fun c hc hprobe hrefused => ?_, ?_⟩
  · grind [pids]
  · grind [answers]
  · simp_all

/-- There was no time left to ask. -/
theorem Log.spec_alive (h : Log pid calls) (hsends : ∃ c ∈ calls, c.signal ≠ .probe)
    (herr : err ≠ none) : Spec pid .ok ⟨err, calls, removed⟩ := by
  refine ⟨h.pids, h.first, by simpa using hsends, fun c hc _ hrefused => ?_, fun hx => (herr hx).elim⟩
  grind [answers]

end Calls

theorem killProcess_spec (pid : ℤ) (answers : ℕ → Answer) (termPolls killPolls : ℕ) :
    Spec pid (answers 0) (killProcess pid answers termPolls killPolls) := by
  unfold killProcess
  split_ifs with h0
  · cases hans : answers 0 with
    | ok => exact absurd hans h0
    | _ => constructor <;> simp
  rw [not_not] at h0
  have halive : Log pid [⟨pid, .probe, .ok⟩] := ⟨by simp, by simp, rfl⟩
  rw [h0]
  cases h1 : answers 1 with
  | noProcess | notPermitted =>
    exact halive.spec rfl ⟨_, List.mem_append_right _ (List.mem_singleton_self _), by simp⟩ (by simp)
  | ok =>
    have hterm := halive.append_call .term
    obtain ⟨l, a, heq, ha, hl⟩ | ⟨l, heq, hl⟩ :=
      waitForProcessDeath_cases (fun k => answers (k + 2)) termPolls
    · simp only [heq, List.map_append, List.map_singleton, ← List.append_assoc]
      refine (hterm.append_probes hl).spec rfl ⟨⟨pid, .term, .ok⟩, by simp, by simp⟩ ?_
      cases a <;> simp_all
    have hwait := hterm.append_probes hl
    simp only [heq]
    cases h2 : answers (l.length + 2) with
    | noProcess | notPermitted =>
      exact hwait.spec rfl ⟨⟨pid, .term, .ok⟩, by simp, by simp⟩ (by simp)
    | ok =>
      have hkill := hwait.append_call .kill
      obtain ⟨l', a, heq', ha, hl'⟩ | ⟨l', heq', hl'⟩ :=
        waitForProcessDeath_cases (fun k => answers (k + l.length + 3)) killPolls
      · simp only [heq', List.map_append, List.map_singleton, ← List.append_assoc]
        refine (hkill.append_probes hl').spec rfl ⟨⟨pid, .term, .ok⟩, by simp, by simp⟩ ?_
        cases a <;> simp_all
      · simp only [heq']
        exact (hkill.append_probes hl').spec_alive ⟨⟨pid, .term, .ok⟩, by simp, by simp⟩ nofun

/-! ### Which calls are made -/

/-- A search that ends at the first failure, cut in two. -/
theorem exists_lt_add {p q : ℕ → Prop} (m n : ℕ) :
    (∃ k < m + n, (∀ j < k, q j) ∧ p k) ↔ (∃ k < m, (∀ j < k, q j) ∧ p k) ∨
      (∀ j < m, q j) ∧ ∃ k < n, (∀ j < k, q (j + m)) ∧ p (k + m) := by
  constructor
  · rintro ⟨k, hk, hq, hp⟩
    by_cases hkm : k < m
    · exact .inl ⟨k, hkm, hq, hp⟩
    · refine .inr ⟨fun j hj => hq j (by omega), k - m, by omega, fun j hj => hq _ (by omega), ?_⟩
      rwa [Nat.sub_add_cancel (not_lt.1 hkm)]
  · rintro (⟨k, hk, hq, hp⟩ | ⟨hm, k, hk, hq, hp⟩)
    · exact ⟨k, by omega, hq, hp⟩
    · refine ⟨k + m, by omega, fun j hj => ?_, hp⟩
      by_cases hjm : j < m
      · exact hm j hjm
      · have hj' := hq (j - m) (by omega)
        rwa [Nat.sub_add_cancel (not_lt.1 hjm)] at hj'

/-- The answers that a wait gets, and what it returns. -/
theorem waitForProcessDeath_spec (answers : ℕ → Answer) (polls : ℕ) :
    (∀ a, a ∈ (waitForProcessDeath answers polls).2 ↔
      ∃ k < polls, (∀ j < k, answers j = .ok) ∧ answers k = a) ∧
    ((waitForProcessDeath answers polls).1 = true ↔ ∃ k < polls, answers k ≠ .ok) ∧
    ((waitForProcessDeath answers polls).1 = false →
      (waitForProcessDeath answers polls).2.length = polls) := by
  induction polls generalizing answers with
  | zero => simp [waitForProcessDeath]
  | succ polls ih =>
    obtain ⟨hmem, hdied, hlength⟩ := ih fun k => answers (k + 1)
    have hsplit : ∀ {p q : ℕ → Prop}, (∃ k < polls + 1, (∀ j < k, q j) ∧ p k) ↔
        p 0 ∨ q 0 ∧ ∃ k < polls, (∀ j < k, q (j + 1)) ∧ p (k + 1) := by
      intro p q
      rw [Nat.add_comm, exists_lt_add]
      simp
    have hany : (∃ k < polls + 1, answers k ≠ .ok) ↔
        answers 0 ≠ .ok ∨ ∃ k < polls, answers (k + 1) ≠ .ok := by
      simpa using hsplit (p := fun k => answers k ≠ .ok) (q := fun _ => True)
    rw [waitForProcessDeath]
    simp only [hsplit, hany]
    split_ifs with hok
    · refine ⟨fun a => ?_, ?_, fun h => ?_⟩
      · simp only [List.mem_cons, hmem, hok, true_and, eq_comm]
      · simp [hdied, hok]
      · simp [hlength h]
    · simp [hok, eq_comm]

/-- Up to the first failure, the calls are a question, `SIGTERM`, questions, `SIGKILL` and
questions. -/
theorem exists_call_iff (answers : ℕ → Answer) (termPolls killPolls : ℕ) (p : ℕ → Prop) :
    (∃ k < termPolls + killPolls + 3, (∀ j < k, answers j = .ok) ∧ p k) ↔
      p 0 ∨ answers 0 = .ok ∧ (p 1 ∨ answers 1 = .ok ∧
        ((∃ k < termPolls, (∀ j < k, answers (j + 2) = .ok) ∧ p (k + 2)) ∨
          (∀ j < termPolls, answers (j + 2) = .ok) ∧ (p (termPolls + 2) ∨
            answers (termPolls + 2) = .ok ∧ ∃ k < killPolls,
              (∀ j < k, answers (j + termPolls + 3) = .ok) ∧ p (k + termPolls + 3)))) := by
  rw [show termPolls + killPolls + 3 = 1 + (1 + (termPolls + (1 + killPolls))) by omega]
  simp only [exists_lt_add]
  simp [Nat.add_assoc, Nat.add_comm 1]

/-- **The calls**: one after the other, up to the first that fails. -/
theorem mem_calls_iff (pid : ℤ) (answers : ℕ → Answer) (termPolls killPolls : ℕ) (c : Call) :
    c ∈ (killProcess pid answers termPolls killPolls).calls ↔
      ∃ k < termPolls + killPolls + 3, (∀ j < k, answers j = .ok) ∧
        c = ⟨pid, signalAt termPolls k, answers k⟩ := by
  rw [exists_call_iff]
  have hterm : signalAt termPolls 0 = .probe ∧ signalAt termPolls 1 = .term := by simp [signalAt]
  have hkill : signalAt termPolls (termPolls + 2) = .kill := by simp [signalAt]
  have hpoll : ∀ k < termPolls, signalAt termPolls (k + 2) = .probe := by
    intro k hk
    simp [signalAt]
    omega
  have hpoll' : ∀ k, signalAt termPolls (k + termPolls + 3) = .probe := by
    intro k
    simp [signalAt]
    omega
  obtain ⟨hmem, hdied, hlength⟩ := waitForProcessDeath_spec (fun k => answers (k + 2)) termPolls
  have hmem' := (waitForProcessDeath_spec (fun k => answers (k + termPolls + 3)) killPolls).1
  -- the questions after a signal, as calls
  have hwait : c ∈ (waitForProcessDeath (fun k => answers (k + 2)) termPolls).2.map
      (⟨pid, .probe, ·⟩) ↔ ∃ k < termPolls, (∀ j < k, answers (j + 2) = .ok) ∧
        c = ⟨pid, signalAt termPolls (k + 2), answers (k + 2)⟩ := by
    simp only [List.mem_map, hmem]
    constructor
    · rintro ⟨_, ⟨k, hk, hok, rfl⟩, rfl⟩
      exact ⟨k, hk, hok, by rw [hpoll k hk]⟩
    · rintro ⟨k, hk, hok, rfl⟩
      exact ⟨_, ⟨k, hk, hok, rfl⟩, by rw [hpoll k hk]⟩
  have hwait' : c ∈ (waitForProcessDeath (fun k => answers (k + termPolls + 3)) killPolls).2.map
      (⟨pid, .probe, ·⟩) ↔ ∃ k < killPolls, (∀ j < k, answers (j + termPolls + 3) = .ok) ∧
        c = ⟨pid, signalAt termPolls (k + termPolls + 3), answers (k + termPolls + 3)⟩ := by
    simp only [List.mem_map, hmem', hpoll']
    constructor
    · rintro ⟨_, ⟨k, hk, hok, rfl⟩, rfl⟩
      exact ⟨k, hk, hok, rfl⟩
    · rintro ⟨k, hk, hok, rfl⟩
      exact ⟨_, ⟨k, hk, hok, rfl⟩, rfl⟩
  rw [← hwait, ← hwait', hterm.1, hterm.2, hkill]
  unfold killProcess
  split_ifs with h0
  · simp [h0]
  rw [not_not] at h0
  cases h1 : answers 1 with
  | noProcess | notPermitted => simp [h0]
  | ok =>
    cases hbool : (waitForProcessDeath (fun k => answers (k + 2)) termPolls).1 with
    | true =>
      have hsome := hdied.1 hbool
      have hnot : ¬ ∀ j < termPolls, answers (j + 2) = .ok := by simpa using hsome
      simp [h0, hbool, hnot, -not_forall]
    | false =>
      have hall : ∀ j < termPolls, answers (j + 2) = .ok := by simpa [hbool] using hdied
      simp only [hbool, hlength hbool, eq_true hall, true_and, Bool.false_eq_true, if_false]
      cases h2 : answers (termPolls + 2) with
      | noProcess | notPermitted => simp [h0]
      | ok => split_ifs <;> simp [h0]

theorem killProcess_safe_iff {text : String} {pid : ℤ} (hpid : File.pid (.content text) = some pid)
    (answers : ℕ → Answer) (termPolls killPolls : ℕ) :
    Safe (.content text) (killProcess pid answers termPolls killPolls) ↔
      Answered (.content text) answers termPolls killPolls := by
  have h := killProcess_spec pid answers termPolls killPolls
  have hcall := mem_calls_iff pid answers termPolls killPolls
  constructor
  · intro hsafe pid' hmem
    cases hpid.symm.trans hmem
    split_ifs with hp
    · intro k hk hok hprobe hrefused
      have hc := (hcall _).2 ⟨k, hk, hok, rfl⟩
      obtain ⟨herr, hlast⟩ := h.refused _ hc hprobe hrefused
      refine hsafe.gone herr ⟨pid, hpid, hp, fun c' hc' => ?_⟩
      cases hlast.symm.trans hc'
      simp [hrefused]
    · intro hok
      obtain ⟨c, hc, hsignal⟩ := h.sends.1 hok
      obtain ⟨htarget, hpos⟩ := hsafe.target c hc hsignal
      exact hp ((isPid_iff pid).2 (by grind [Spec, Call.target]))
  · intro hans
    have hans' := hans pid hpid
    refine ⟨fun herr => ?_, fun c hc hsignal => ?_⟩
    · rintro ⟨pid', hmem, hp, hlast⟩
      cases hpid.symm.trans hmem
      rw [if_pos hp] at hans'
      have hne : (killProcess pid answers termPolls killPolls).calls ≠ [] :=
        fun hx => by simpa [hx] using h.first
      have hc := List.getLast?_eq_some_getLast hne
      obtain hgone | ⟨hprobe, hrefused⟩ := h.ended herr _ hc
      · exact hlast _ hc hgone
      · obtain ⟨k, hk, hok, heq⟩ := (hcall _).1 (List.getLast_mem hne)
        rw [heq] at hprobe hrefused
        exact hans' k hk hok hprobe hrefused
    · split_ifs at hans' with hp
      · have htarget := (isPid_iff pid).1 hp
        rw [Call.target, h.pids c hc, htarget.1]
        exact ⟨hpid, htarget.2⟩
      · exact absurd (h.sends.2 ⟨c, hc, hsignal⟩) hans'

/-- **Replacing a daemon is safe** exactly if the answers are as they should be. -/
theorem replace_safe_iff (file : File) (answers : ℕ → Answer) (termPolls killPolls : ℕ) :
    Safe file (killDaemonByPIDFile file answers termPolls killPolls) ↔
      Answered file answers termPolls killPolls := by
  cases file with
  | missing | unreadable => exact ⟨fun _ => nofun, fun _ => ⟨fun _ => nofun, nofun⟩⟩
  | content text =>
    cases hpid : atoi (trimSpace text) with
    | none =>
      have hnone : File.pid (.content text) = none := hpid
      simp only [killDaemonByPIDFile, hpid]
      exact ⟨fun _ => by simp [Answered, hnone],
        fun _ => ⟨fun _ => by simp [Running, hnone], nofun⟩⟩
    | some pid =>
      simp only [killDaemonByPIDFile, hpid]
      exact killProcess_safe_iff hpid answers termPolls killPolls

/-- The process is there, but the signal is not permitted; and two numbers for a group of processes
are in the file, the second of them only after it was cut to 32 bits. -/
theorem replace_unsafe :
    ((killDaemonByPIDFile (.content "7\n") (fun _ => .notPermitted) 1 1).err = none ∧
      ¬ Safe (.content "7\n") (killDaemonByPIDFile (.content "7\n") (fun _ => .notPermitted) 1 1)) ∧
    ⟨-7, .term, .ok⟩ ∈ (killDaemonByPIDFile (.content "-7") (fun _ => .ok) 1 1).calls ∧
    ∃ c ∈ (killDaemonByPIDFile (.content "4294967289") (fun _ => .ok) 1 1).calls,
      c.signal = .term ∧ c.target = -7 := by
  refine ⟨⟨by decide +kernel, fun h => ?_⟩, by decide +kernel, ?_⟩
  · exact h.gone (by decide +kernel) ⟨7, by decide +kernel, by decide, by decide +kernel⟩
  · exact ⟨⟨4294967289, .term, .ok⟩, by decide +kernel, rfl, by decide⟩

end Graft.PidFile
