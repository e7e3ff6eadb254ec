import Graft.Library.Shell
import Mathlib.Tactic

/-!
# One-shot commands in a container (`pkg/connector_docker.go`)

`runOneShotCommand` gives its command to a shell, between double quotes, and `runContainerExec` puts
that into a script for another shell, which reads the quotes.  What has a meaning between double
quotes does not come through: `one_shot_expanded`.
-/

namespace Graft.OneShot

open Shell

def endsWord (kind : Char → Kind) : Mode Char → Char → Bool
  | .unquoted _, c => kind c ∈ [.blank, .newline, .operator]
  | _, _ => false

/-- The first word of a text, up to the blank or operator after it. -/
def firstWord (kind : Char → Kind) : Mode Char → List Char → Option (List (Sym Char))
  | m, [] => if m.complete then some [] else none
  | m, c :: s =>
    if endsWord kind m c then some []
    else (step kind m c).bind fun r => (firstWord kind r.1 s).map (r.2 ++ ·)

/-- What `dockerWrapper` has before the command, -/
def wrapperHead : List Char :=
  ("mkdir -p /tmp\nstdout=$(mktemp -u)\nmkfifo -m 600 \"$stdout\"\nstderr=$(mktemp -u)\n" ++
    "mkfifo -m 600 \"$stderr\"\n\x7b ").toList

/-- and after it. -/
def wrapperTail : List Char :=
  (" <&3 3<&- 1>$stdout 2>$stderr & \x7d 3<&0\nPID=$!\necho $!\ncat $stdout &\n" ++
    "cat $stderr 1>&2 &\nwait $PID\n").toList

/-- The arguments of `ExecCreate`. -/
def runContainerExec (cmd : List (List Char)) : List (List Char) :=
  ["/bin/sh".toList, "-c".toList, wrapperHead ++ [' '].intercalate cmd ++ wrapperTail]

def runOneShotCommand (command : List Char) : List (List Char) :=
  runContainerExec ["/bin/sh".toList, "-c".toList, '"' :: command ++ ['"']]

/-- The script of the innermost shell, if what comes after `/bin/sh -c` in the braces is a word that
stands for itself; nothing, if it has to be expanded, or does not end. -/
def received (command : List Char) : Option (List Char) :=
  (runOneShotCommand command)[2]?.bind fun script =>
    (firstWord .ofChar (.unquoted false)
      (script.drop (wrapperHead ++ "/bin/sh -c ".toList).length)).bind (literal .ofChar)

/-- The command has nothing in it that has a meaning between double quotes: no quote, dollar sign or
backquote, and no backslash before one of these, a backslash or the end of a line. -/
def Quotable : List Char → Bool
  | [] => true
  | '\\' :: c :: s =>
    !(Kind.ofChar c ∈ [.newline, .double, .expand, .backslash]) && Quotable s
  | c :: s => !(Kind.ofChar c ∈ [.double, .expand, .backslash]) && Quotable s

/-! ### Quotes only make a text longer -/

/-- A backslash that was read and has not counted yet. -/
def held : Mode Char → ℕ
  | .escape _ | .doubleEscape _ => 1
  | _ => 0

section Words

variable {m m' : Mode Char} {c : Char} {s : List Char} {v w : List (Sym Char)}

theorem length_step (h : step Kind.ofChar m c = some (m', v)) :
    (text v).length + held m' ≤ 1 + held m := by
  cases m <;> simp only [step, stepUnquoted] at h <;> split at h <;> grind [text, held, Sym.symbol]

/-- Of the quote that ends the command, and what is after it. -/
theorem length_tail (h : firstWord .ofChar m ('"' :: wrapperTail) = some w) :
    (text w).length ≤ held m := by
  have hdouble : firstWord .ofChar .double wrapperTail = none := by decide +kernel
  have hsingle : firstWord .ofChar .single wrapperTail = none := by decide +kernel
  have hcomment : firstWord .ofChar .comment wrapperTail = none := by decide +kernel
  have hend : firstWord .ofChar (.unquoted true) wrapperTail = some [] := by decide +kernel
  cases m <;> simp [firstWord, endsWord, step, stepUnquoted, Kind.ofChar, hdouble, hsingle, hcomment,
    hend] at h
  all_goals subst h; simp [text, held, Sym.symbol]

theorem firstWord_cons {t : List Char} (h : firstWord .ofChar m (c :: t) = some w) :
    w = [] ∨ ∃ m' v w', step Kind.ofChar m c = some (m', v) ∧ firstWord .ofChar m' t = some w' ∧
      w = v ++ w' := by
  rw [firstWord] at h
  split_ifs at h
  · exact .inl (Option.some.inj h).symm
  · obtain ⟨⟨m', v⟩, hstep, hrest⟩ := Option.bind_eq_some_iff.1 h
    obtain ⟨w', hw', rfl⟩ := Option.map_eq_some_iff.1 hrest
    exact .inr ⟨m', v, w', hstep, hw', rfl⟩

theorem length_firstWord (h : firstWord .ofChar m (s ++ '"' :: wrapperTail) = some w) :
    (text w).length ≤ s.length + held m := by
  induction s generalizing m w with
  | nil => simpa using length_tail h
  | cons c s ih =>
    obtain rfl | ⟨m', v, w', hstep, hrest, rfl⟩ := firstWord_cons h
    · simp [text]
    · have hfirst := length_step hstep
      have hrest := ih hrest
      simp only [text_append, List.length_append, List.length_cons]
      omega

/-- A backslash before the quote that ends the command. -/
theorem firstWord_escaped (b : Char) :
    firstWord .ofChar (.doubleEscape b) ('"' :: wrapperTail) = none := by
  have hdouble : firstWord .ofChar .double wrapperTail = none := by decide +kernel
  simp [firstWord, endsWord, step, Kind.ofChar, hdouble]

theorem step_double (h : Kind.ofChar c ∉ [.double, .expand, .backslash]) :
    step Kind.ofChar .double c = some (.double, [.lit c]) := by
  simp only [step]
  split <;> simp_all

theorem step_doubleEscape {b : Char}
    (h : Kind.ofChar c ∉ [.newline, .double, .expand, .backslash]) :
    step Kind.ofChar (.doubleEscape b) c = some (.double, [.lit b, .lit c]) := by
  simp only [step]
  split <;> simp_all

/-- Nothing has a meaning between the quotes, if nothing is lost. -/
theorem quotable_of_length (h : firstWord .ofChar .double (s ++ '"' :: wrapperTail) = some w)
    (hlen : s.length ≤ (text w).length) : Quotable s = true := by
  fun_induction Quotable s generalizing w with
  | case1 => rfl
  | case2 c s ih =>
    obtain rfl | ⟨m', v, w', hstep, hrest, rfl⟩ := firstWord_cons h
    · simp [text] at hlen
    obtain ⟨rfl, rfl⟩ : m' = .doubleEscape '\\' ∧ v = [] := by
      simpa [step, Kind.ofChar, eq_comm] using hstep
    obtain rfl | ⟨m', v, w'', hstep', hrest', rfl⟩ := firstWord_cons hrest
    · simp [text] at hlen
    have hbound := length_firstWord hrest'
    simp only [List.nil_append, text_append, List.length_append, List.length_cons] at hlen
    simp only [step] at hstep'
    split at hstep' <;> obtain ⟨rfl, rfl⟩ := Prod.mk.inj (Option.some.inj hstep') <;>
      simp only [text, List.filterMap_cons, List.filterMap_nil, Sym.symbol, List.length_cons,
        List.length_nil, held] at hlen hbound
    · omega
    · omega
    · omega
    · omega
    · have hs := ih hrest' (by simp only [text]; omega)
      simp_all
  | case3 c s hne ih =>
    obtain rfl | ⟨m', v, w', hstep, hrest, rfl⟩ := firstWord_cons h
    · simp [text] at hlen
    have hbound := length_firstWord hrest
    simp only [text_append, List.length_append, List.length_cons] at hlen
    simp only [step] at hstep
    split at hstep
    · obtain ⟨rfl, rfl⟩ := Prod.mk.inj (Option.some.inj hstep)
      simp [text, held] at hlen hbound
      omega
    · cases hstep
    · obtain ⟨rfl, rfl⟩ := Prod.mk.inj (Option.some.inj hstep)
      rename_i hback
      obtain rfl := kind_eq_backslash hback
      cases s with
      | nil => cases (firstWord_escaped _).symm.trans hrest
      | cons d s => exact (hne d s rfl rfl).elim
    · obtain ⟨rfl, rfl⟩ := Prod.mk.inj (Option.some.inj hstep)
      have hs := ih hrest (by simp [text, Sym.symbol] at hlen ⊢; omega)
      simp_all

theorem firstWord_of_quotable (h : Quotable s = true) :
    firstWord .ofChar .double (s ++ '"' :: wrapperTail) = some (s.map .lit) := by
  fun_induction Quotable s with
  | case1 => decide +kernel
  | case2 c s ih =>
    simp only [Bool.and_eq_true, Bool.not_eq_true', decide_eq_false_iff_not] at h
    simp [firstWord, endsWord, step_doubleEscape h.1, ih h.2,
      show step Kind.ofChar .double '\\' = some (.doubleEscape '\\', []) from rfl]
  | case3 c s hne ih =>
    simp only [Bool.and_eq_true, Bool.not_eq_true', decide_eq_false_iff_not] at h
    simp [firstWord, endsWord, step_double h.1, ih h.2]

end Words

theorem received_eq (command : List Char) : received command =
    (firstWord .ofChar .double (command ++ '"' :: wrapperTail)).bind fun w =>
      literal .ofChar (.mark :: w) := by
  have hscript : (runOneShotCommand command)[2]? = some ((wrapperHead ++ "/bin/sh -c ".toList) ++
      '"' :: (command ++ '"' :: wrapperTail)) := by
    simp [runOneShotCommand, runContainerExec, List.intercalate]
  rw [received, hscript, Option.bind_some, List.drop_left]
  simp [firstWord, endsWord, step, stepUnquoted, Kind.ofChar, Option.bind_map]

/-- **A one-shot command means what it says** exactly if nothing in it has a meaning between double
quotes. -/
theorem one_shot_received_iff (command : List Char) :
    received command = some command ↔ Quotable command = true := by
  rw [received_eq]
  constructor
  · intro h
    obtain ⟨w, hw, hliteral⟩ := Option.bind_eq_some_iff.1 h
    have htext : text (.mark :: w) = command := text_of_literal hliteral
    refine quotable_of_length hw (le_of_eq ?_)
    exact congrArg List.length htext.symm
  · intro h
    rw [firstWord_of_quotable h, Option.bind_some, literal_quoted]

/-- The variable is expanded by the shell of the script, and the quotes end its word. -/
theorem one_shot_expanded :
    received "echo $HOME".toList = none ∧ received "echo \"a b\"".toList = some "echo a".toList := by
  decide +kernel

end Graft.OneShot
