import Graft.Library.Shell
import Graft.Sync.Establish

/-!
# Commands that are wrapped in a shell (`pkg/running_command_local.go`)

The remote daemon runs a command by a shell, which gets one line: `cd` to the working directory, and
then the command with its arguments, each between the quotes of Go if it has white space, and else
as it is.
-/

namespace Graft.Wrapping

open Shell

/-! ### Strings -/

/-- A string of Go, as it is decoded: characters, and bytes that belong to none. -/
inductive Rune
  | char (c : Char)
  | byte (b : UInt8)
  deriving DecidableEq

namespace Rune

def kind : Rune → Kind
  | char c => .ofChar c
  | byte _ => .other

def isSpace : Rune → Bool
  | char c => Sync.isSpace c
  | byte _ => false

end Rune

def ofString (s : String) : List Rune := s.toList.map .char

def hex (width n : ℕ) : List Char :=
  (List.range width).reverse.map fun i => Nat.digitChar (n / 16 ^ i % 16)

def escapeChar (c : Char) : List Char :=
  match c.toNat with
  | 7 => ['\\', 'a']
  | 8 => ['\\', 'b']
  | 9 => ['\\', 't']
  | 10 => ['\\', 'n']
  | 11 => ['\\', 'v']
  | 12 => ['\\', 'f']
  | 13 => ['\\', 'r']
  | n =>
    if n < 0x20 ∨ n = 0x7F then '\\' :: 'x' :: hex 2 n
    else if n < 0x10000 then '\\' :: 'u' :: hex 4 n
    else '\\' :: 'U' :: hex 8 n

section Wrap

-- `isPrint` is `strconv.IsPrint`
variable (isPrint : Char → Bool)

def quoteRune : Rune → List Rune
  | .byte b => ('\\' :: 'x' :: hex 2 b.toNat).map .char
  | .char c =>
    if c = '"' ∨ c = '\\' then [.char '\\', .char c]
    else if isPrint c then [.char c]
    else (escapeChar c).map .char

/-- The verb `%q`. -/
def quote (s : List Rune) : List Rune :=
  .char '"' :: s.flatMap (quoteRune isPrint) ++ [.char '"']

def wrapArgument (arg : List Rune) : List Rune :=
  if arg.any Rune.isSpace then quote isPrint arg else arg

def wrapArguments (arguments : List (List Rune)) : List Rune :=
  arguments.flatMap fun arg => .char ' ' :: wrapArgument isPrint arg

def makeCommandWrappedInShell (shellPath cwd rawCommand : List Rune) (arguments : List (List Rune))
    (withSudo : Bool) (shellHookPrefix : List Rune) : List (List Rune) :=
  [shellPath, ofString "-c", shellHookPrefix ++
    (if cwd = [] then [] else ofString "cd " ++ cwd ++ ofString " && ") ++
    (if withSudo then ofString "sudo " else []) ++ rawCommand ++ wrapArguments isPrint arguments]

end Wrap

/-! ### What the shell makes of it -/

def reservedWords : List String :=
  ["!", "\x7b", "\x7d", "case", "do", "done", "elif", "else", "esac", "fi", "for", "if", "in", "then",
    "until", "while"]

/-- A character of a name; digits do not begin one. -/
def isNameChar : Rune → Bool
  | .char c => c.isAlphanum || c = '_'
  | .byte _ => false

/-- The word is an assignment, if it comes before the command. -/
def isAssignment (word : List Rune) : Bool :=
  let name := word.takeWhile (· ≠ .char '=')
  name ≠ word && name ≠ [] && name.all isNameChar && !(name.head?.map fun
    | .char c => c.isDigit
    | .byte _ => false).getD false

/-- The first word of the line, or the first one after `sudo`, is the command; `sudo` has options,
and assignments of its own. -/
def IsCommand (withSudo : Bool) (word : List Rune) : Prop :=
  if withSudo then word.head? ≠ some (.char '-') ∧ .char '=' ∉ word
  else word ∉ reservedWords.map ofString ∧ isAssignment word = false

/-- After what the hook is read as, the shell changes to the directory and runs the command with the
arguments; `cd` has options. -/
structure Survives (isPrint : Char → Bool) (shellPath cwd rawCommand : List Rune)
    (arguments : List (List Rune)) (withSudo : Bool) (shellHookPrefix : List Rune)
    (hook : List (Token Rune)) : Prop where
  read : ∃ line,
    makeCommandWrappedInShell isPrint shellPath cwd rawCommand arguments withSudo shellHookPrefix =
      [shellPath, ofString "-c", line] ∧
    fields Rune.kind (literal Rune.kind) line = some (hook ++
      (if cwd = [] then [] else
        [.word (ofString "cd"), .word cwd, .operator (ofString "&&")]) ++
      (if withSudo then [.word (ofString "sudo")] else []) ++
      .word rawCommand :: arguments.map .word)
  operand : cwd.head? ≠ some (.char '-')
  command : IsCommand withSudo rawCommand

/-! ### The condition -/

/-- Between double quotes, the shell reads what Go writes for the rune as the rune. -/
def Kept (isPrint : Char → Bool) (r : Rune) : Prop :=
  ∃ c, r = .char c ∧ (c = '"' ∨ c = '\\' ∨ isPrint c = true ∧ Kind.ofChar c ≠ .expand)

/-- The argument is between quotes and has only such runes, or it stands for itself. -/
def KeptArgument (isPrint : Char → Bool) (arg : List Rune) : Prop :=
  if arg.any Rune.isSpace then ∀ r ∈ arg, Kept isPrint r else Verbatim Rune.kind arg

/-- The directory and the command stand for themselves, and all arguments are kept. -/
structure Preserved (isPrint : Char → Bool) (cwd rawCommand : List Rune)
    (arguments : List (List Rune)) (withSudo : Bool) : Prop where
  directory : cwd = [] ∨ Verbatim Rune.kind cwd
  operand : cwd.head? ≠ some (.char '-')
  word : Verbatim Rune.kind rawCommand
  command : IsCommand withSudo rawCommand
  kept : ∀ arg ∈ arguments, KeptArgument isPrint arg

/-! ### Quotes -/

variable {isPrint : Char → Bool} {r : Rune} {s t : List Rune} {m : Mode Rune} {w : List (Sym Rune)}
  {g : List (Sym Rune)} {gs : List (List (Sym Rune))}

theorem scan_double_other (h : ∀ r ∈ s, r.kind = .other) :
    scan Rune.kind .double s = some (.double, s.map .lit) := by
  induction s with
  | nil => rfl
  | cons r s ih =>
    obtain ⟨hr, hs⟩ := List.forall_mem_cons.1 h
    exact scan_cons.2 ⟨.double, [.lit r], _, by simp [step, hr], ih hs, rfl⟩

theorem kind_hex {width n : ℕ} : ∀ c ∈ hex width n, Kind.ofChar c = .other := by
  have hdigit : ∀ k : Fin 16, Kind.ofChar (Nat.digitChar k) = .other := by decide
  simp only [hex, List.mem_map]
  rintro c ⟨i, -, rfl⟩
  exact hdigit ⟨_, Nat.mod_lt _ (by decide)⟩

def Foreign (l : List Rune) : Prop :=
  ∃ d rest, l = .char '\\' :: d :: rest ∧ ∀ r ∈ d :: rest, r.kind = .other

theorem foreign_hex {d : Char} {w n : ℕ} (hd : Kind.ofChar d = .other) :
    Foreign (('\\' :: d :: hex w n).map .char) := by
  refine ⟨.char d, (hex w n).map .char, rfl, ?_⟩
  simpa [Rune.kind, hd] using kind_hex

theorem foreign_escapeChar (c : Char) : Foreign ((escapeChar c).map .char) := by
  unfold escapeChar
  split
  iterate 7 exact ⟨_, [], rfl, by decide⟩
  split_ifs <;> exact foreign_hex (by decide)

theorem Foreign.scan {l : List Rune} (h : Foreign l) :
    scan Rune.kind .double l = some (.double, l.map .lit) ∧ 2 ≤ l.length := by
  obtain ⟨d, rest, rfl, hother⟩ := h
  obtain ⟨hd, hrest⟩ := List.forall_mem_cons.1 hother
  refine ⟨?_, by simp⟩
  refine scan_cons.2 ⟨.doubleEscape (.char '\\'), [], _, rfl, ?_, rfl⟩
  exact scan_cons.2 ⟨.double, [.lit (.char '\\'), .lit d], _, by simp [step, hd],
    scan_double_other hrest, rfl⟩

theorem quoteRune_cases (isPrint : Char → Bool) (r : Rune) :
    Kept isPrint r ∧ scan Rune.kind .double (quoteRune isPrint r) = some (.double, [.lit r]) ∨
      ¬ Kept isPrint r ∧ (scan Rune.kind .double (quoteRune isPrint r) = none ∨
        ∃ l : List Rune, 2 ≤ l.length ∧
          scan Rune.kind .double (quoteRune isPrint r) = some (.double, l.map .lit)) := by
  cases r with
  | byte b =>
    obtain ⟨hscan, hlen⟩ := (foreign_hex (d := 'x') (w := 2) (n := b.toNat) rfl).scan
    exact .inr ⟨by simp [Kept], .inr ⟨_, hlen, hscan⟩⟩
  | char c =>
    simp only [quoteRune]
    split_ifs with hq hp
    · left
      obtain rfl | rfl := hq <;> exact ⟨⟨_, rfl, by simp⟩, rfl⟩
    · have hdouble : Kind.ofChar c ≠ .double := fun h => hq (.inl (kind_eq_double h))
      have hback : Kind.ofChar c ≠ .backslash := fun h => hq (.inr (kind_eq_backslash h))
      by_cases he : Kind.ofChar c = .expand
      · refine .inr ⟨?_, .inl (by simp [scan, step, Rune.kind, he])⟩
        rintro ⟨d, hd, h⟩
        cases hd
        simp_all
      · refine .inl ⟨⟨c, rfl, .inr (.inr ⟨hp, he⟩)⟩, ?_⟩
        have hstep : step Rune.kind .double (.char c) = some (.double, [.lit (.char c)]) := by
          cases hk : Kind.ofChar c <;> simp_all [step, Rune.kind]
        exact scan_cons.2 ⟨_, _, [], hstep, rfl, rfl⟩
    · grind [Foreign.scan, foreign_escapeChar, Kept]

theorem scan_kept (h : ∀ r ∈ s, Kept isPrint r) :
    scan Rune.kind .double (s.flatMap (quoteRune isPrint)) = some (.double, s.map .lit) := by
  induction s with
  | nil => rfl
  | cons r s ih =>
    obtain ⟨hr, hs⟩ := List.forall_mem_cons.1 h
    obtain ⟨-, hscan⟩ | ⟨hnot, -⟩ := quoteRune_cases isPrint r
    · exact scan_append.2 ⟨.double, [.lit r], _, hscan, ih hs, rfl⟩
    · exact absurd hr hnot

theorem scan_quoted (h : scan Rune.kind .double (s.flatMap (quoteRune isPrint)) = some (m, w)) :
    m = .double ∧ s.length ≤ (text w).length ∧
      ((text w).length ≤ s.length → ∀ r ∈ s, Kept isPrint r) ∧ ∀ x ∈ w, x.class Rune.kind = .word := by
  induction s generalizing w with
  | nil =>
    cases h
    simp
  | cons r s ih =>
    obtain ⟨m₁, v, w₁, hfirst, hrest, rfl⟩ := scan_append.1 h
    obtain ⟨hr, hscan⟩ | ⟨-, hnone | ⟨l, hl, hscan⟩⟩ := quoteRune_cases isPrint r
    · cases hscan.symm.trans hfirst
      obtain ⟨rfl, hle, hkept, hword⟩ := ih hrest
      simp only [text_append, List.length_append, List.length_cons]
      refine ⟨trivial, by simp [text, Sym.symbol] at hle ⊢; omega, fun hlen => ?_, ?_⟩
      · exact List.forall_mem_cons.2 ⟨hr, hkept (by simp [text, Sym.symbol] at hlen ⊢; omega)⟩
      · simpa [Sym.class] using hword
    · simp [hnone] at hfirst
    · cases hscan.symm.trans hfirst
      obtain ⟨rfl, hle, -, hword⟩ := ih hrest
      have hltext : (text (l.map Sym.lit)).length = l.length := by
        simp [text, Sym.symbol, Function.comp_def]
      simp only [text_append, List.length_append, List.length_cons, hltext]
      refine ⟨trivial, by omega, fun hlen => by omega, ?_⟩
      simp only [List.mem_append, List.mem_map]
      rintro x (⟨c, -, rfl⟩ | hx)
      · rfl
      · exact hword x hx

/-- **A string between quotes is read as itself if and only if it is kept.** -/
theorem quote_parses {ts : List (Token Rune)} (ht : Ends Rune.kind t) :
    Parses Rune.kind (literal Rune.kind) false (quote isPrint s ++ t) (.word s :: ts) ↔
      (∀ r ∈ s, Kept isPrint r) ∧ Parses Rune.kind (literal Rune.kind) true t ts := by
  have hscan : ∀ {w}, scan Rune.kind .double (s.flatMap (quoteRune isPrint)) = some (.double, w) →
      scan Rune.kind (.unquoted false) (quote isPrint s) = some (.unquoted true, .mark :: w) := by
    intro w h
    refine scan_cons.2 ⟨.double, [.mark], w, rfl, ?_, rfl⟩
    exact scan_append.2 ⟨.double, w, [], h, rfl, by simp⟩
  constructor
  · intro h
    obtain ⟨gs, ⟨m, w, hline, -⟩, -⟩ := id h
    obtain ⟨m₁, v, w₁, hfirst, -, -⟩ := scan_append.1 hline
    obtain ⟨m₂, v₂, w₂, hstep, hrest, -⟩ := scan_cons.1 hfirst
    cases hstep
    obtain ⟨m₃, w, w₃, hbody, -, -⟩ := scan_append.1 hrest
    obtain ⟨rfl, -, hkept, hword⟩ := scan_quoted hbody
    obtain ⟨v, ts', hv, heq, hparses⟩ := (parses_word (hscan hbody)
      (by simpa [Sym.class] using hword) (by simp) ht.stops).1 h
    cases heq
    have htext : text w = s := text_of_literal (g := .mark :: w) hv
    exact ⟨hkept (htext ▸ Nat.le_refl _), hparses⟩
  · rintro ⟨hkept, h⟩
    exact (parses_word (hscan (scan_kept hkept)) (by simp [Sym.class]) (by simp) ht.stops).2
      ⟨s, ts, literal_quoted _ s, rfl, h⟩

/-! ### Arguments -/

theorem ends_wrapArguments (arguments : List (List Rune)) :
    Ends Rune.kind (wrapArguments isPrint arguments) := by
  cases arguments with
  | nil => simp [Ends, wrapArguments]
  | cons arg arguments =>
    simp only [Ends, wrapArguments, List.flatMap_cons, List.cons_append, List.head?_cons,
      Option.mem_def, Option.some.injEq]
    rintro c rfl
    rfl

theorem Foreign.blanks {l : List Rune} (h : Foreign l) : blanks Rune.kind l = 0 := by
  obtain ⟨d, rest, rfl, hother⟩ := h
  rw [Shell.blanks, List.countP_eq_zero]
  intro r hr
  obtain rfl | hr := List.mem_cons.1 hr
  · decide
  · simp [hother r hr]

theorem blanks_quoteRune (r : Rune) : blanks Rune.kind (quoteRune isPrint r) ≤ blanks Rune.kind [r] := by
  cases r with
  | byte b => exact (foreign_hex (d := 'x') (w := 2) (n := b.toNat) rfl).blanks ▸ Nat.zero_le _
  | char c =>
    simp only [quoteRune]
    split_ifs with hq hp
    · obtain rfl | rfl := hq <;> decide
    · exact Nat.le_refl _
    · simp [(foreign_escapeChar c).blanks]

theorem blanks_wrapArgument (arg : List Rune) :
    blanks Rune.kind (wrapArgument isPrint arg) ≤ blanks Rune.kind arg := by
  unfold wrapArgument
  split_ifs
  · rw [quote, blanks_append, ← List.singleton_append, blanks_append]
    have hbody : blanks Rune.kind (arg.flatMap (quoteRune isPrint)) ≤ blanks Rune.kind arg := by
      clear * -
      induction arg with
      | nil => exact Nat.le_refl _
      | cons r arg ih =>
        rw [List.flatMap_cons, blanks_append, ← List.singleton_append (l := arg), blanks_append]
        exact Nat.add_le_add (blanks_quoteRune r) ih
    have hquote : blanks Rune.kind [.char '"'] = 0 := by decide
    omega
  · exact Nat.le_refl _

theorem blanks_wrapArguments (arguments : List (List Rune)) :
    blanks Rune.kind (wrapArguments isPrint arguments) ≤
      (arguments.map (blanks Rune.kind)).sum + arguments.length := by
  induction arguments with
  | nil => exact Nat.le_refl _
  | cons arg arguments ih =>
    have harg : blanks Rune.kind (wrapArgument isPrint arg) ≤ _ := blanks_wrapArgument arg
    have hcons : wrapArguments isPrint (arg :: arguments) =
        [.char ' '] ++ wrapArgument isPrint arg ++ wrapArguments isPrint arguments := rfl
    have hblank : blanks Rune.kind [.char ' '] = 1 := by decide
    rw [hcons, blanks_append, blanks_append, hblank]
    simp only [List.map_cons, List.sum_cons, List.length_cons]
    omega

/-- **All arguments are read as they are if and only if they are kept.** -/
theorem arguments_iff (arguments : List (List Rune)) :
    Parses Rune.kind (literal Rune.kind) true (wrapArguments isPrint arguments)
        (arguments.map .word) ↔ ∀ arg ∈ arguments, KeptArgument isPrint arg := by
  induction arguments with
  | nil => simp [wrapArguments, parses_nil]
  | cons arg arguments ih =>
    have hline : wrapArguments isPrint (arg :: arguments) =
        .char ' ' :: (wrapArgument isPrint arg ++ wrapArguments isPrint arguments) := rfl
    have hends : Ends Rune.kind (wrapArguments isPrint arguments) := ends_wrapArguments arguments
    rw [List.forall_mem_cons, ← ih, hline, parses_blank rfl, List.map_cons]
    by_cases hspace : arg.any Rune.isSpace = true
    · simp only [wrapArgument, KeptArgument, if_pos hspace, quote_parses hends]
    · simp only [wrapArgument, KeptArgument, if_neg hspace]
      exact parses_iff hends (blanks_wrapArguments arguments)

/-! ### The line -/

theorem directory_parses {ts : List (Token Rune)} (hs : Begins Rune.kind s) :
    Parses Rune.kind (literal Rune.kind) false (ofString "cd " ++ s ++ ofString " && " ++ t)
        ([.word (ofString "cd"), .word s, .operator (ofString "&&")] ++ ts) ↔
      Verbatim Rune.kind s ∧ Parses Rune.kind (literal Rune.kind) false t ts := by
  have hcd : Leads Rune.kind (literal Rune.kind) (ofString "cd ") [.word (ofString "cd")] :=
    ⟨_, rfl, by decide, rfl⟩
  have hand : Leads Rune.kind (literal Rune.kind) (ofString "&& ") [.operator (ofString "&&")] :=
    ⟨_, rfl, by decide, rfl⟩
  have hends : Ends Rune.kind (ofString " && " ++ t) := by
    rintro c ⟨⟩
    rfl
  rw [List.append_assoc, List.append_assoc]
  refine Iff.trans (b := Parses Rune.kind (literal Rune.kind) false _
    (.word s :: .operator (ofString "&&") :: ts)) hcd.parses ?_
  rw [hs.parses_iff hends]
  exact and_congr_right fun _ => (parses_blank rfl).trans hand.parses

theorem sudo_parses {ts : List (Token Rune)} :
    Parses Rune.kind (literal Rune.kind) false (ofString "sudo " ++ t)
        ([.word (ofString "sudo")] ++ ts) ↔
      Parses Rune.kind (literal Rune.kind) false t ts :=
  Leads.parses ⟨_, rfl, by decide, rfl⟩

/-- **The directory, the command and the arguments survive if and only if they are preserved.** -/
theorem wrapped_survives_iff (isPrint : Char → Bool) (shellPath cwd rawCommand : List Rune)
    (arguments : List (List Rune)) (withSudo : Bool) (shellHookPrefix : List Rune)
    (hook : List (Token Rune)) (hhook : Leads Rune.kind (literal Rune.kind) shellHookPrefix hook)
    (hcwd : cwd = [] ∨ Begins Rune.kind cwd) :
    Survives isPrint shellPath cwd rawCommand arguments withSudo shellHookPrefix hook ↔
      Preserved isPrint cwd rawCommand arguments withSudo := by
  have hcommand : Parses Rune.kind (literal Rune.kind) false
        (rawCommand ++ wrapArguments isPrint arguments) ((rawCommand :: arguments).map .word) ↔
      Verbatim Rune.kind rawCommand ∧ ∀ arg ∈ arguments, KeptArgument isPrint arg := by
    rw [parses_iff (ends_wrapArguments _) (blanks_wrapArguments _), arguments_iff]
  have hsudo : Parses Rune.kind (literal Rune.kind) false
        ((if withSudo then ofString "sudo " else []) ++
          (rawCommand ++ wrapArguments isPrint arguments))
        ((if withSudo then [.word (ofString "sudo")] else []) ++
          .word rawCommand :: arguments.map .word) ↔
      Verbatim Rune.kind rawCommand ∧ ∀ arg ∈ arguments, KeptArgument isPrint arg := by
    cases withSudo with
    | false => exact hcommand
    | true => exact sudo_parses.trans hcommand
  have hline : (∃ line, makeCommandWrappedInShell isPrint shellPath cwd rawCommand arguments
        withSudo shellHookPrefix = [shellPath, ofString "-c", line] ∧
      fields Rune.kind (literal Rune.kind) line = some (hook ++
        (if cwd = [] then [] else
          [.word (ofString "cd"), .word cwd, .operator (ofString "&&")]) ++
        (if withSudo then [.word (ofString "sudo")] else []) ++
        .word rawCommand :: arguments.map .word)) ↔
      (cwd = [] ∨ Verbatim Rune.kind cwd) ∧ Verbatim Rune.kind rawCommand ∧
        ∀ arg ∈ arguments, KeptArgument isPrint arg := by
    simp only [makeCommandWrappedInShell, List.cons.injEq, and_true, true_and, exists_eq_left',
      fields_eq_some, List.append_assoc]
    rw [hhook.parses]
    by_cases hnil : cwd = []
    · simpa [hnil] using hsudo
    · have hstarts := hcwd.resolve_left hnil
      simp only [hnil, false_or, ← hsudo]
      exact directory_parses hstarts
  constructor
  · rintro ⟨hread, hoperand, hword⟩
    obtain ⟨hdir, hraw, hkept⟩ := hline.1 hread
    exact ⟨hdir, hoperand, hraw, hword, hkept⟩
  · rintro ⟨hdir, hoperand, hraw, hword, hkept⟩
    exact ⟨hline.2 ⟨hdir, hraw, hkept⟩, hoperand, hword⟩

def asciiPrint (c : Char) : Bool := ' ' ≤ c && c ≤ '~'

theorem wrapped_survives_iff_quoted :
    Survives asciiPrint (ofString "/bin/sh") (ofString "/srv/app") (ofString "git")
        [ofString "commit", ofString "-m", ofString "say \"hi\""] false
        (ofString "trap 'eval' DEBUG; ")
        [.word (ofString "trap"), .word (ofString "eval"), .word (ofString "DEBUG"),
          .operator (ofString ";")] ↔
      Preserved asciiPrint (ofString "/srv/app") (ofString "git")
        [ofString "commit", ofString "-m", ofString "say \"hi\""] false :=
  wrapped_survives_iff _ _ _ _ _ _ _ _ ⟨_, rfl, by decide, rfl⟩ (.inr fun i h => by cases h)

/-- A dollar sign in an argument is the shell's. -/
theorem dollar_expanded :
    ¬ Survives asciiPrint (ofString "/bin/sh") (ofString "/srv/app") (ofString "echo")
      [ofString "$HOME"] false [] [] := by
  rintro ⟨⟨line, hline, hread⟩, -⟩
  simp only [makeCommandWrappedInShell, List.cons.injEq, and_true, true_and] at hline
  subst hline
  revert hread
  decide

end Graft.Wrapping
