import Mathlib.Algebra.GroupWithZero.Nat
import Mathlib.Data.List.TakeWhile

/-!
# How a shell reads a line

The words and operators of a line as a POSIX shell recognizes them, with quotes, comments and
continued lines, and what a word stands for.  The alphabet is arbitrary: what matters of a symbol is
its `Kind`.

* `step`, one symbol of the line, and `scan`, all of them; `tokens`, words and operators;
* `literal`, the word without its quotes; nothing, if it is a pattern for names of files or begins
  with a tilde;
* `fields`, all of the line; nothing, if it is not complete, or if a parameter or a command has to
  be expanded;
* `scan_append`, `tokens_append`: a line is read from left to right;
* `scan_length`, `scan_blanks`: quotes only make a text longer, and blanks are not made;
* `Begins.plain`: a text that is read as itself has no quotes;
* `parses_word`, `Begins.parses_iff` and `parses_iff`, for the words of a line.
-/

namespace Graft.Shell

/-- What a character is to the shell. -/
inductive Kind
  | blank
  | newline
  | operator
  | single
  | double
  | backslash
  /-- `$` or a backquote, which have a meaning between double quotes, too -/
  | expand
  | hash
  | tilde
  | slash
  /-- `*` or `?` -/
  | wild
  | opening
  | closing
  | bang
  | other
  deriving DecidableEq

/-- The characters of a POSIX shell; `\x60` is the backquote. -/
def Kind.ofChar : Char → Kind
  | ' ' | '\t' => blank
  | '\n' => newline
  | '&' | '|' | ';' | '<' | '>' | '(' | ')' => operator
  | '\'' => single
  | '"' => double
  | '\\' => backslash
  | '$' | '\x60' => expand
  | '#' => hash
  | '~' => tilde
  | '/' => slash
  | '*' | '?' => wild
  | '[' => opening
  | ']' => closing
  | '!' => bang
  | _ => other

theorem kind_eq_double {c : Char} (h : Kind.ofChar c = .double) : c = '"' := by
  unfold Kind.ofChar at h
  split at h <;> simp_all

theorem kind_eq_backslash {c : Char} (h : Kind.ofChar c = .backslash) : c = '\\' := by
  unfold Kind.ofChar at h
  split at h <;> simp_all

/-- The symbol can be part of a word that is not quoted. -/
def Kind.inWord : Kind → Bool
  | blank | newline | operator | single | double | backslash | expand => false
  | hash | tilde | slash | wild | opening | closing | bang | other => true

/-- What is left of a symbol: it stands as it is, or was quoted.  A quote leaves a mark. -/
inductive Sym (χ : Type)
  | bare (c : χ)
  | lit (c : χ)
  | mark
  deriving DecidableEq

/-- Where in a line the shell is. -/
inductive Mode (χ : Type)
  | unquoted (inWord : Bool)
  | escape (inWord : Bool)
  | single
  | double
  | doubleEscape (backslash : χ)
  | comment

def Mode.complete {χ : Type} : Mode χ → Bool
  | unquoted _ | comment => true
  | escape _ | single | double | doubleEscape _ => false

variable {χ : Type}

def Sym.symbol : Sym χ → Option χ
  | bare c | lit c => some c
  | mark => none

def text (w : List (Sym χ)) : List χ := w.filterMap Sym.symbol

section Kinds

variable (kind : χ → Kind)

/-! ### Symbols -/

def stepUnquoted (inWord : Bool) (c : χ) : Option (Mode χ × List (Sym χ)) :=
  match kind c with
  | .blank | .newline | .operator => some (.unquoted false, [.bare c])
  | .single => some (.single, [.mark])
  | .double => some (.double, [.mark])
  | .backslash => some (.escape inWord, [])
  | .expand => none
  | .hash => if inWord then some (.unquoted true, [.bare c]) else some (.comment, [])
  | .tilde | .slash | .wild | .opening | .closing | .bang | .other =>
    some (.unquoted true, [.bare c])

/-- What one character does. -/
def step : Mode χ → χ → Option (Mode χ × List (Sym χ))
  | .unquoted inWord, c => stepUnquoted kind inWord c
  | .escape inWord, c =>
    if kind c = .newline then some (.unquoted inWord, []) else some (.unquoted true, [.lit c])
  | .single, c => if kind c = .single then some (.unquoted true, []) else some (.single, [.lit c])
  | .double, c =>
    match kind c with
    | .double => some (.unquoted true, [])
    | .expand => none
    | .backslash => some (.doubleEscape c, [])
    | _ => some (.double, [.lit c])
  | .doubleEscape b, c =>
    match kind c with
    | .newline => some (.double, [])
    | .double | .expand | .backslash => some (.double, [.lit c])
    | _ => some (.double, [.lit b, .lit c])
  | .comment, c =>
    if kind c = .newline then some (.unquoted false, [.bare c]) else some (.comment, [])

/-- What a line does. -/
def scan : Mode χ → List χ → Option (Mode χ × List (Sym χ))
  | m, [] => some (m, [])
  | m, c :: s => (step kind m c).bind fun r => (scan r.1 s).map fun q => (q.1, r.2 ++ q.2)

/-! ### Tokens -/

inductive Class
  | gap
  | operator
  | word
  deriving DecidableEq

def Sym.class : Sym χ → Class
  | bare c =>
    match kind c with
    | .blank => .gap
    | .newline | .operator => .operator
    | _ => .word
  | lit _ | mark => .word

/-- Symbols of a class that are not separated are a token. -/
def tokens : List (Sym χ) → List (List (Sym χ))
  | [] => []
  | x :: s =>
    if x.class kind = .gap then tokens s
    else if s.head?.map (Sym.class kind) = some (x.class kind) then
      match tokens s with
      | [] => [[x]]
      | g :: gs => (x :: g) :: gs
    else [x] :: tokens s

/-! ### Expansions -/

def Sym.isBare (k : Kind) : Sym χ → Bool
  | bare c => kind c = k
  | lit _ | mark => false

def closes : List (Sym χ) → Bool
  | [] => false
  | x :: s => x.isBare kind .closing || !x.isBare kind .slash && closes s

/-- What follows an opening bracket makes it a bracket expression; what comes first in one does not
close it. -/
def bracket (s : List (Sym χ)) : Bool :=
  match if (s.head?.map (Sym.isBare kind .bang)).getD false then s.tail else s with
  | [] => false
  | x :: s => !x.isBare kind .slash && closes kind s

def isPattern : List (Sym χ) → Bool
  | [] => false
  | x :: s => x.isBare kind .wild || x.isBare kind .opening && bracket kind s || isPattern s

def hasTilde (w : List (Sym χ)) : Bool := (w.head?.map (Sym.isBare kind .tilde)).getD false

/-- What a word stands for, if it depends neither on files nor on users. -/
def literal (w : List (Sym χ)) : Option (List χ) :=
  if isPattern kind w || hasTilde kind w then none else some (text w)

theorem literal_quoted (kind : χ → Kind) (s : List χ) :
    literal kind (.mark :: s.map .lit) = some s := by
  have hpattern : isPattern kind (s.map .lit) = false := by
    induction s with
    | nil => rfl
    | cons c s ih => simpa [isPattern, Sym.isBare] using ih
  have htext : text (s.map Sym.lit) = s := by
    simp [text, Sym.symbol, Function.comp_def]
  simp only [literal, isPattern, Sym.isBare, hpattern, hasTilde, List.head?_cons, Option.map_some]
  exact congrArg some htext

variable (value : List (Sym χ) → Option (List χ))

inductive Token (χ : Type)
  | word (value : List χ)
  | operator (symbols : List χ)
  deriving DecidableEq

def token (g : List (Sym χ)) : Option (Token χ) :=
  if (g.head?.map (Sym.class kind)) = some .operator then some (.operator (text g))
  else (value g).map .word

/-- The words and operators of a line, where `value` is what a word stands for. -/
def fields (line : List χ) : Option (List (Token χ)) :=
  (scan kind (.unquoted false) line).bind fun r =>
    if r.1.complete then (tokens kind r.2).mapM (token kind value) else none

/-! ### From left to right -/

variable {kind value} {m m' : Mode χ} {w : List (Sym χ)} {s t : List χ} {c : χ}

theorem scan_cons : scan kind m (c :: s) = some (m', w) ↔
    ∃ m₁ v w₁, step kind m c = some (m₁, v) ∧ scan kind m₁ s = some (m', w₁) ∧ w = v ++ w₁ := by
  simp only [scan, Option.bind_eq_some_iff, Option.map_eq_some_iff, Prod.exists, Prod.mk.injEq]
  constructor
  · grind
  · grind

theorem scan_append : scan kind m (s ++ t) = some (m', w) ↔
    ∃ m₁ v w₁, scan kind m s = some (m₁, v) ∧ scan kind m₁ t = some (m', w₁) ∧ w = v ++ w₁ := by
  induction s generalizing m w with
  | nil =>
    constructor
    · exact fun h => ⟨m, [], w, rfl, h, rfl⟩
    · rintro ⟨m₁, v, w₁, hnil, h, rfl⟩
      cases hnil
      exact h
  | cons c s ih =>
    rw [List.cons_append, scan_cons]
    simp only [ih, scan_cons]
    constructor
    · rintro ⟨m₁, v, -, hstep, ⟨m₂, v', w₂, hs, ht, rfl⟩, rfl⟩
      exact ⟨m₂, v ++ v', w₂, ⟨m₁, v, v', hstep, hs, rfl⟩, ht, by simp⟩
    · rintro ⟨m₂, -, w₂, ⟨m₁, v, v', hstep, hs, rfl⟩, ht, rfl⟩
      exact ⟨m₁, v, v' ++ w₂, hstep, ⟨m₂, v', w₂, hs, ht, rfl⟩, by simp⟩

@[simp] theorem text_append (v w : List (Sym χ)) : text (v ++ w) = text v ++ text w :=
  List.filterMap_append

def Mode.held : Mode χ → List χ
  | doubleEscape b => [b]
  | unquoted _ | escape _ | single | double | comment => []

theorem step_length (h : step kind m c = some (m', w)) :
    (text w).length + m'.held.length ≤ 1 + m.held.length := by
  cases m <;> simp only [step, stepUnquoted] at h <;> split at h <;>
    grind [text, Mode.held, Sym.symbol]

theorem scan_length (h : scan kind m s = some (m', w)) :
    (text w).length + m'.held.length ≤ s.length + m.held.length := by
  induction s generalizing m w with
  | nil =>
    cases h
    simp [text]
  | cons c s ih =>
    obtain ⟨m₁, v, w₁, hstep, hscan, rfl⟩ := scan_cons.1 h
    have hfirst := step_length hstep
    have hrest := ih hscan
    simp only [text_append, List.length_append, List.length_cons]
    omega

theorem step_unquoted {i : Bool} (h : step kind (.unquoted i) c = some (m, w)) :
    ((∃ j, m = .unquoted j) ∧ w = [.bare c] ∧
        (Sym.class kind (.bare c) = .word → (kind c).inWord = true) ∧
        (i = false → kind c ≠ .hash)) ∨ text w = [] ∧ m.held = [] ∧ ∀ j, m ≠ .unquoted j := by
  simp only [step, stepUnquoted] at h
  split at h <;> grind [text, Mode.held, Sym.symbol, Sym.class, Kind.inWord]

theorem scan_eq_of_length {i : Bool} (h : scan kind (.unquoted i) s = some (m, w))
    (hlen : s.length ≤ (text w).length + m.held.length) :
    (∃ j, m = .unquoted j) ∧ w = s.map .bare ∧
      (∀ c ∈ s, Sym.class kind (.bare c) = .word → (kind c).inWord = true) ∧
      (i = false → ∀ c ∈ s.head?, kind c ≠ .hash) := by
  induction s generalizing i w with
  | nil =>
    cases h
    simp
  | cons c s ih =>
    obtain ⟨m₁, v, w₁, hstep, hscan, rfl⟩ := scan_cons.1 h
    simp only [text_append, List.length_append, List.length_cons] at hlen
    obtain ⟨⟨j, rfl⟩, rfl, hword, hhash⟩ | ⟨hv, hheld, -⟩ := step_unquoted hstep
    · obtain ⟨hm, rfl, hall, -⟩ := ih hscan (by simp [text, Sym.symbol] at hlen ⊢; omega)
      refine ⟨hm, rfl, ?_, by simpa using hhash⟩
      simpa using ⟨hword, by simpa using hall⟩
    · -- there are not enough symbols left
      have hrest := scan_length hscan
      simp only [hv, hheld, List.length_nil] at hlen hrest
      omega

def blanks (kind : χ → Kind) (l : List χ) : ℕ := l.countP (kind · = .blank)

theorem step_blanks (h : step kind m c = some (m', w)) :
    blanks kind (text w) + blanks kind m'.held ≤ blanks kind [c] + blanks kind m.held := by
  cases m <;> simp only [step, stepUnquoted] at h <;> split at h <;>
    grind [text, Mode.held, Sym.symbol, blanks]

theorem scan_blanks (h : scan kind m s = some (m', w)) :
    blanks kind (text w) + blanks kind m'.held ≤ blanks kind s + blanks kind m.held := by
  induction s generalizing m w with
  | nil =>
    cases h
    simp [text]
  | cons c s ih =>
    obtain ⟨m₁, v, w₁, hstep, hscan, rfl⟩ := scan_cons.1 h
    have hfirst := step_blanks hstep
    have hrest := ih hscan
    have hcons : blanks kind (c :: s) = blanks kind [c] + blanks kind s := by
      grind [blanks]
    rw [text_append, blanks, List.countP_append, hcons]
    simp only [blanks] at hfirst hrest ⊢
    omega

/-! ### Tokens -/

variable {x : Sym χ} {g : List (Sym χ)} {gs : List (List (Sym χ))} {k : Class}

theorem tokens_append (hg : ∀ x ∈ g, x.class kind = k) (hk : k ≠ .gap) (hne : g ≠ [])
    (hw : w.head?.map (Sym.class kind) ≠ some k) :
    tokens kind (g ++ w) = g :: tokens kind w := by
  induction g with
  | nil => exact absurd rfl hne
  | cons x g ih =>
    obtain ⟨hx, hg⟩ := List.forall_mem_cons.1 hg
    cases g with
    | nil => simp [tokens, hx, hk, hw]
    | cons y g =>
      have hy : y.class kind = k := hg y (List.mem_cons_self ..)
      have hrest := ih hg (List.cons_ne_nil _ _)
      rw [List.cons_append, tokens, hrest]
      simp [hx, hy, hk]

theorem tokens_gap {v : List (Sym χ)} (h : ∀ x ∈ w.getLast?, x.class kind = .gap) :
    tokens kind (w ++ v) = tokens kind w ++ tokens kind v := by
  induction w with
  | nil => rfl
  | cons x w ih =>
    cases w with
    | nil => simp [tokens, h x rfl]
    | cons y w =>
      have hrest := ih (by simpa using h)
      have hne : y.class kind ≠ .gap → tokens kind (y :: w) ≠ [] := by grind [tokens]
      rw [List.cons_append, tokens, hrest, tokens.eq_def kind (x :: y :: w)]
      cases htok : tokens kind (y :: w) <;> grind

theorem tokens_eq_cons (h : tokens kind w = g :: gs) :
    ∃ lead rest, w = lead ++ g ++ rest ∧ (∀ x ∈ lead, x.class kind = .gap) ∧
      (∃ k, k ≠ .gap ∧ g.head?.map (Sym.class kind) = some k ∧ (∀ x ∈ g, x.class kind = k) ∧
        rest.head?.map (Sym.class kind) ≠ some k) ∧ tokens kind rest = gs := by
  induction w generalizing g gs with
  | nil => simp [tokens] at h
  | cons x w ih =>
    rw [tokens] at h
    split_ifs at h with hgap hsame
    · obtain ⟨lead, rest, rfl, hlead, hrest⟩ := ih h
      exact ⟨x :: lead, rest, by simp, List.forall_mem_cons.2 ⟨hgap, hlead⟩, hrest⟩
    · -- one more symbol of the token that follows
      cases htok : tokens kind w with
      | nil => cases w <;> grind [tokens]
      | cons g₁ gs₁ =>
        simp only [htok, List.cons.injEq] at h
        obtain ⟨rfl, rfl⟩ := h
        obtain ⟨lead, rest, rfl, hlead, ⟨k, hk, hhead, hg, hne⟩, hrest⟩ := ih htok
        cases lead with
        | nil =>
          have hx : x.class kind = k := by
            cases g₁ <;> simp_all
          refine ⟨[], rest, rfl, by simp, ⟨k, hk, by simp [hx], ?_, hne⟩, hrest⟩
          exact List.forall_mem_cons.2 ⟨hx, hg⟩
        | cons y lead => simp_all
    · simp only [List.cons.injEq] at h
      obtain ⟨rfl, rfl⟩ := h
      exact ⟨[], w, rfl, by simp, ⟨_, hgap, rfl, by simp, hsame⟩, rfl⟩

theorem blanks_append (l r : List χ) : blanks kind (l ++ r) = blanks kind l + blanks kind r :=
  List.countP_append

theorem blanks_of_gap {lead : List (Sym χ)} (h : ∀ x ∈ lead, x.class kind = .gap) :
    blanks kind (text lead) = lead.length := by
  induction lead with
  | nil => rfl
  | cons x lead ih =>
    obtain ⟨hx, hlead⟩ := List.forall_mem_cons.1 h
    cases x with
    | bare c =>
      have hc : kind c = .blank := by
        grind [Sym.class]
      simp only [blanks, text] at ih
      simp [text, Sym.symbol, blanks, hc, ih hlead]
    | lit | mark => cases hx

theorem words_blanks
    (hgs : ∀ g ∈ tokens kind w, g.head?.map (Sym.class kind) ≠ some .operator) :
    ((tokens kind w).map fun g => blanks kind (text g)).sum + (tokens kind w).length ≤
      blanks kind (text w) + if w.head?.map (Sym.class kind) = some .gap then 0 else 1 := by
  induction htok : tokens kind w generalizing w with
  | nil => simp
  | cons g gs ih =>
    rw [htok] at hgs
    obtain ⟨hg, hgs⟩ := List.forall_mem_cons.1 hgs
    obtain ⟨lead, rest, rfl, hlead, ⟨k, hk, hhead, -, hne⟩, hrest⟩ := tokens_eq_cons htok
    obtain rfl : k = .word := by cases k <;> simp_all
    have hih := ih (hrest ▸ hgs) hrest
    -- what follows a word before the next one is a blank
    have hgap : gs ≠ [] → rest.head?.map (Sym.class kind) = some .gap := by
      intro hgs'
      obtain ⟨g', gs', rfl⟩ := List.exists_cons_of_ne_nil hgs'
      obtain ⟨lead', rest', rfl, hlead', ⟨k', hk', hhead', -⟩, -⟩ := tokens_eq_cons hrest
      have hg' := hgs g' (List.mem_cons_self ..)
      cases lead' with
      | nil => cases k' <;> cases g' <;> simp_all
      | cons x lead' => simpa using hlead' x (List.mem_cons_self ..)
    have hsep : (gs.map fun g => blanks kind (text g)).sum + gs.length ≤ blanks kind (text rest) := by
      grind
    have hlen := blanks_of_gap hlead
    have hfirst : 1 ≤ lead.length +
        if (lead ++ g ++ rest).head?.map (Sym.class kind) = some .gap then 0 else 1 := by
      cases lead with
      | nil => cases g <;> simp_all
      | cons x lead => exact Nat.le_add_right_of_le (Nat.succ_pos _)
    simp only [List.map_cons, List.sum_cons, List.length_cons, text_append, blanks_append]
    omega

/-! ### Texts that are read as they are -/

def Reads (kind : χ → Kind) (i : Bool) (line : List χ) (gs : List (List (Sym χ))) : Prop :=
  ∃ m w, scan kind (.unquoted i) line = some (m, w) ∧ m.complete = true ∧ tokens kind w = gs

def Ends (kind : χ → Kind) (r : List χ) : Prop := ∀ c ∈ r.head?, kind c = .blank

def Stops (kind : χ → Kind) (r : List χ) : Prop :=
  ∀ c ∈ r.head?, kind c = .blank ∨ kind c = .operator

theorem Ends.stops (h : Ends kind t) : Stops kind t := fun c hc => .inl (h c hc)

/-- A text without anything special to the shell. -/
structure Plain (kind : χ → Kind) (s : List χ) : Prop where
  ne_nil : s ≠ []
  inWord : ∀ c ∈ s, (kind c).inWord = true
  hash : ∀ c ∈ s.head?, kind c ≠ .hash

theorem reads_blank {i : Bool} (hc : kind c = .blank) :
    Reads kind i (c :: t) gs ↔ Reads kind false t gs := by
  have hstep : step kind (.unquoted i) c = some (.unquoted false, [.bare c]) := by
    simp [step, stepUnquoted, hc]
  have hclass : Sym.class kind (.bare c) = .gap := by simp [Sym.class, hc]
  constructor
  · rintro ⟨m, w, hscan, hm, rfl⟩
    obtain ⟨m₁, v, w₁, hfirst, hrest, rfl⟩ := scan_cons.1 hscan
    cases hstep.symm.trans hfirst
    exact ⟨m, w₁, hrest, hm, by simp [tokens, hclass]⟩
  · rintro ⟨m, w, hscan, hm, rfl⟩
    exact ⟨m, .bare c :: w, scan_cons.2 ⟨_, _, w, hstep, hscan, rfl⟩, hm, by simp [tokens, hclass]⟩

theorem class_bare (h : (kind c).inWord = true) : Sym.class kind (.bare c) = .word := by
  grind [Sym.class, Kind.inWord]

theorem text_map_bare (s : List χ) : text (s.map Sym.bare) = s := by
  induction s with
  | nil => rfl
  | cons c s ih => simpa [text, Sym.symbol] using ih

theorem scan_inWord (h : ∀ c ∈ s, (kind c).inWord = true) :
    scan kind (.unquoted true) s = some (.unquoted true, s.map .bare) := by
  induction s with
  | nil => rfl
  | cons c s ih =>
    obtain ⟨hc, hs⟩ := List.forall_mem_cons.1 h
    refine scan_cons.2 ⟨.unquoted true, [.bare c], _, ?_, ih hs, rfl⟩
    simp only [step, stepUnquoted]
    grind [Kind.inWord]

theorem Plain.scan (h : Plain kind s) (i : Bool) :
    scan kind (.unquoted i) s = some (.unquoted true, s.map .bare) := by
  obtain ⟨c, s, rfl⟩ := List.exists_cons_of_ne_nil h.ne_nil
  obtain ⟨hc, hs⟩ := List.forall_mem_cons.1 h.inWord
  refine scan_cons.2 ⟨.unquoted true, [.bare c], _, ?_, scan_inWord hs, rfl⟩
  have hhash := h.hash c rfl
  simp only [step, stepUnquoted]
  cases hk : kind c <;> simp_all [Kind.inWord]

theorem scan_comment (h : scan kind .comment s = some (m, w)) :
    w = [] ∨ w.head?.map (Sym.class kind) = some .operator := by
  induction s generalizing w with
  | nil =>
    cases h
    simp
  | cons c s ih =>
    obtain ⟨m₁, v, w₁, hstep, hscan, rfl⟩ := scan_cons.1 h
    simp only [step] at hstep
    split_ifs at hstep with hc <;> cases hstep
    · simp [Sym.class, hc]
    · exact ih hscan

theorem step_blank (hc : kind c = .blank) (h : step kind m c = some (m', w)) :
    (∃ i, m = .unquoted i) ∧ w = [.bare c] ∨ m = .comment ∧ m' = .comment ∧ w = [] ∨
      (∀ i, m ≠ .unquoted i) ∧ w = m.held.map .lit ++ [.lit c] := by
  cases m <;> simp only [step, stepUnquoted, hc] at h <;> grind [Mode.held]

theorem scan_blank (ht : Ends kind t) (h : scan kind m t = some (m', w)) :
    (w = [] ∨ w.head?.map (Sym.class kind) = some .operator ∨
        (∃ i, m = .unquoted i) ∧ w.head?.map (Sym.class kind) = some .gap) ∨
      ∃ c v, kind c = .blank ∧ (∀ i, m ≠ .unquoted i) ∧ w = m.held.map .lit ++ .lit c :: v := by
  cases t with
  | nil =>
    cases h
    simp
  | cons c t =>
    have hc : kind c = .blank := ht c rfl
    obtain ⟨m₁, v, w₁, hstep, hscan, rfl⟩ := scan_cons.1 h
    obtain ⟨hi, rfl⟩ | ⟨rfl, rfl, rfl⟩ | ⟨hi, rfl⟩ := step_blank hc hstep
    · simp [Sym.class, hc, hi]
    · grind [scan_comment]
    grind

theorem no_gap (hs : ∀ c ∈ s, kind c ≠ .blank) (hheld : m.held = [])
    (h : scan kind m s = some (m', w)) : ∀ x ∈ w, x.class kind ≠ .gap := by
  intro x hx hgap
  have hle := scan_blanks h
  have hzero : blanks kind s = 0 := by
    simp_all [blanks]
  have hone : blanks kind (text [x]) = 1 := blanks_of_gap (by simpa using hgap)
  obtain ⟨w₁, w₂, rfl⟩ := List.append_of_mem hx
  rw [← List.singleton_append] at hle
  grind [blanks, text_append]

theorem head_of_stops {i : Bool} (ht : Stops kind t) (h : scan kind (.unquoted i) t = some (m, w)) :
    w.head?.map (Sym.class kind) ≠ some .word := by
  cases t with
  | nil =>
    cases h
    simp
  | cons c t =>
    obtain ⟨m₁, v, w₁, hstep, -, rfl⟩ := scan_cons.1 h
    obtain hc | hc := ht c rfl <;>
    · simp only [step, stepUnquoted, hc, Option.some.injEq, Prod.mk.injEq] at hstep
      simp [← hstep.2, Sym.class, hc]

theorem reads_token {i j : Bool} (hscan : scan kind (.unquoted i) s = some (.unquoted j, g))
    (hg : ∀ x ∈ g, x.class kind = k) (hk : k ≠ .gap) (hne : g ≠ [])
    (ht : ∀ {m w}, scan kind (.unquoted j) t = some (m, w) →
      w.head?.map (Sym.class kind) ≠ some k) :
    Reads kind i (s ++ t) gs ↔ ∃ gs', gs = g :: gs' ∧ Reads kind j t gs' := by
  constructor
  · rintro ⟨m, w, h, hm, rfl⟩
    obtain ⟨m₁, v, w₁, hfirst, hrest, rfl⟩ := scan_append.1 h
    cases hscan.symm.trans hfirst
    exact ⟨_, tokens_append hg hk hne (ht hrest), m, w₁, hrest, hm, rfl⟩
  · rintro ⟨gs', rfl, m, w, h, hm, rfl⟩
    exact ⟨m, g ++ w, scan_append.2 ⟨_, g, w, hscan, h, rfl⟩, hm, tokens_append hg hk hne (ht h)⟩

theorem Plain.reads (h : Plain kind s) (hr : Reads kind false (s ++ t) (g :: gs)) :
    ∃ g', g = s.map .bare ++ g' := by
  obtain ⟨m, w, hscan, -, htok⟩ := hr
  obtain ⟨m₁, v, w₁, hfirst, -, rfl⟩ := scan_append.1 hscan
  cases (h.scan false).symm.trans hfirst
  have hclass : ∀ x ∈ s.map Sym.bare, x.class kind = .word := by
    simpa using fun c hc => class_bare (h.inWord c hc)
  obtain ⟨lead, rest, hw, hlead, ⟨k, -, hk, -, hne⟩, -⟩ := tokens_eq_cons htok
  obtain ⟨c, s, rfl⟩ := List.exists_cons_of_ne_nil h.ne_nil
  obtain rfl : lead = [] := by
    rcases lead with _ | ⟨x, lead⟩ <;> simp_all
  rw [List.nil_append] at hw
  obtain ⟨a, hg, -⟩ | ⟨a, hs, rfl⟩ := List.append_eq_append_iff.1 hw
  · exact ⟨a, hg⟩
  · have hkw : k = .word := by
      cases g <;> simp_all
    cases a with
    | nil => exact ⟨[], by simpa using hs.symm⟩
    | cons x a => exact absurd (by simp [hkw, hclass x (by simp [hs])]) hne

/-- **A word that begins with the text it is read from has no quotes there, and ends with it**, if
the text has no blanks, is followed by one or ends the line, and leaves something. -/
theorem plain_of_reads (hs : ∀ c ∈ s, kind c ≠ .blank)
    (hstart : ∀ i, scan kind (.unquoted false) s ≠ some (.unquoted i, [])) (ht : Ends kind t)
    (h : Reads kind false (s ++ t) (g :: gs)) (hword : g.head?.map (Sym.class kind) = some .word)
    (hpre : s <+: text g) : Plain kind s ∧ g = s.map .bare := by
  obtain ⟨m, w, h, -, htok⟩ := h
  obtain ⟨m₁, v, w₁, hscan, hscan₁, rfl⟩ := scan_append.1 h
  obtain ⟨lead, rest, hw, hlead, ⟨k, -, hk, hg, -⟩, hrest⟩ := tokens_eq_cons htok
  obtain rfl : k = .word := Option.some.inj (hk.symm.trans hword)
  have hgap := no_gap hs rfl hscan
  have hnext := scan_blank ht hscan₁
  obtain rfl : lead = [] := by
    rcases lead with _ | ⟨x, lead⟩
    · rfl
    have hx : x.class kind = .gap := hlead x (List.mem_cons_self ..)
    cases v with
    | cons y v => exact absurd (by simp_all) (hgap y (List.mem_cons_self ..))
    | nil =>
      obtain (rfl | hop | ⟨⟨i, rfl⟩, -⟩) | ⟨c, v, -, -, rfl⟩ := hnext
      · simp at hw
      · simp_all
      · exact absurd hscan (hstart i)
      · cases hheld : m₁.held <;>
        · simp only [hheld, List.nil_append, List.map_nil, List.map_cons, List.cons_append,
            List.cons.injEq] at hw
          rw [← hw.1] at hx
          cases hx
  rw [List.nil_append] at hw
  obtain hend | ⟨c, v', hc, hi, rfl⟩ := hnext
  · -- the word ends within the text, which is not longer than it
    obtain ⟨a, rfl, rfl⟩ : ∃ a, v = g ++ a ∧ rest = a ++ w₁ := by
      obtain ⟨a, hga, hw₁⟩ | ⟨a, hv, hr⟩ := List.append_eq_append_iff.1 hw
      · cases a with
        | nil => exact ⟨[], by simpa using hga.symm, by simpa using hw₁.symm⟩
        | cons x a =>
          simp_all
      · exact ⟨a, hv, hr⟩
    have hlen : s.length ≤ (text g).length := hpre.length_le
    obtain ⟨-, hbare, hkind, hhash⟩ := scan_eq_of_length hscan (by simp; omega)
    obtain ⟨s₁, s₂, rfl, rfl, rfl⟩ := List.map_eq_append_iff.1 hbare.symm
    obtain rfl : s₂ = [] := by
      simp only [text_map_bare, List.length_append] at hlen
      exact List.length_eq_zero_iff.1 (by omega)
    simp only [List.append_nil, List.map_nil] at hscan hkind hhash hstart hrest
    rw [List.append_nil]
    have hplain : Plain kind s₁ :=
      ⟨by rintro rfl; exact hstart false rfl,
        fun c hc => hkind c hc (hg _ (List.mem_map_of_mem hc)), hhash trivial⟩
    exact ⟨hplain, rfl⟩
  · -- a quoted blank is in the word where the text has none
    have hlt : (text v ++ m₁.held).length < s.length := by
      by_contra hge
      obtain ⟨⟨j, hj⟩, -⟩ := scan_eq_of_length hscan (by simpa using hge)
      exact hi j hj
    have hline : s <+: (text v ++ m₁.held) ++ c :: text v' := by
      have htext : text (v ++ (m₁.held.map .lit ++ .lit c :: v')) =
          (text v ++ m₁.held) ++ c :: text v' := by
        simp [text, Sym.symbol, Function.comp_def]
      grind [text_append]
    have hmem : c ∈ s := by
      have hget := hline.getElem hlt
      grind
    grind

def firstPart (kind : χ → Kind) (s : List χ) : List χ := s.takeWhile fun c => !decide (kind c = .blank)

/-- Something of the text is read before its first blank, which is not so if it begins with one. -/
def Begins (kind : χ → Kind) (s : List χ) : Prop :=
  ∀ i, scan kind (.unquoted false) (firstPart kind s) ≠ some (.unquoted i, [])

theorem firstPart_append (ht : Ends kind t) : ∃ r, s = firstPart kind s ++ r ∧ Ends kind (r ++ t) := by
  grind [List.takeWhile_append_dropWhile, List.head?_dropWhile_not, firstPart, Ends]

theorem not_blank_of_firstPart (hc : c ∈ firstPart kind s) : kind c ≠ .blank := by
  simpa using List.mem_takeWhile_imp hc

/-- **A text that is read as itself is plain.** -/
theorem Begins.plain (hs : Begins kind s) (ht : Ends kind t) (h : Reads kind false (s ++ t) (g :: gs))
    (hword : g.head?.map (Sym.class kind) = some .word) (htext : text g = s) :
    Plain kind s ∧ g = s.map .bare := by
  obtain ⟨r, hr, hend⟩ := firstPart_append (s := s) ht
  rw [hr, List.append_assoc] at h
  obtain ⟨hplain, rfl⟩ := plain_of_reads (fun _ => not_blank_of_firstPart) hs hend h hword
    (by rw [htext]; exact ⟨r, hr.symm⟩)
  grind [text_map_bare]

/-- Words need blanks between them, and before the first one if nothing is read before that. -/
theorem blanks_of_not_begins (hs : ¬ Begins kind s) (ht : Ends kind t)
    (h : Reads kind false (s ++ t) gs) (hne : gs ≠ [])
    (hops : ∀ g ∈ gs, g.head?.map (Sym.class kind) ≠ some .operator) :
    (gs.map fun g => blanks kind (text g)).sum + gs.length ≤ blanks kind (s ++ t) := by
  obtain ⟨i, hi⟩ := not_forall_not.1 hs
  obtain ⟨r, hr, hend⟩ := firstPart_append (s := s) ht
  obtain ⟨m, w, hscan, -, rfl⟩ := h
  have hle := words_blanks hops
  have hmade := scan_blanks hscan
  rw [hr, List.append_assoc] at hscan
  obtain ⟨m₁, v, w₁, hfirst, hrest, rfl⟩ := scan_append.1 hscan
  cases hi.symm.trans hfirst
  have hgap : w₁.head?.map (Sym.class kind) = some .gap := by
    cases hline : r ++ t with
    | nil =>
      rw [hline] at hrest
      cases hrest
      exact absurd rfl hne
    | cons c l =>
      rw [hline] at hrest
      obtain ⟨m₂, v, w₂, hstep, -, rfl⟩ := scan_cons.1 hrest
      have hc : kind c = .blank := hend c (by simp [hline])
      simp only [step, stepUnquoted, hc, Option.some.injEq, Prod.mk.injEq] at hstep
      simp [← hstep.2, Sym.class, hc]
  have hzero : blanks kind (Mode.unquoted false : Mode χ).held = 0 := rfl
  rw [List.nil_append, if_pos hgap] at hle
  rw [List.nil_append] at hmade ⊢
  omega

/-! ### Texts that stand for themselves -/

/-- The text is read as a word and stands for itself. -/
structure Verbatim (kind : χ → Kind) (s : List χ) : Prop extends Plain kind s where
  literal : literal kind (s.map .bare) = some s

def Parses (kind : χ → Kind) (value : List (Sym χ) → Option (List χ)) (i : Bool) (line : List χ)
    (ts : List (Token χ)) : Prop :=
  ∃ gs, Reads kind i line gs ∧ gs.mapM (token kind value) = some ts

variable {i : Bool} {v : List χ} {ts : List (Token χ)}

theorem fields_eq_some : fields kind value s = some ts ↔ Parses kind value false s ts := by
  simp only [fields, Option.bind_eq_some_iff, Parses, Reads, Prod.exists]
  constructor
  · rintro ⟨m, w, hscan, h⟩
    split_ifs at h with hm
    exact ⟨_, ⟨m, w, hscan, hm, rfl⟩, h⟩
  · rintro ⟨-, ⟨m, w, hscan, hm, rfl⟩, h⟩
    exact ⟨m, w, hscan, by rwa [if_pos hm]⟩

theorem parses_nil : Parses kind value i [] ts ↔ ts = [] := by
  constructor
  · rintro ⟨gs, ⟨m, w, hscan, -, rfl⟩, h⟩
    cases hscan
    simpa [tokens] using h.symm
  · rintro rfl
    exact ⟨[], ⟨_, [], rfl, rfl, rfl⟩, rfl⟩

theorem parses_blank (hc : kind c = .blank) :
    Parses kind value i (c :: t) ts ↔ Parses kind value false t ts := by
  simp only [Parses, reads_blank hc]

theorem mapM_cons {gs : List (List (Sym χ))} : (g :: gs).mapM (token kind value) = some ts ↔
    ∃ x ts', token kind value g = some x ∧ gs.mapM (token kind value) = some ts' ∧ ts = x :: ts' := by
  rw [List.mapM_cons]
  cases token kind value g <;> cases gs.mapM (token kind value) <;> simp [eq_comm]

theorem token_of_word (hg : g.head?.map (Sym.class kind) = some .word) :
    token kind value g = (value g).map .word := by
  simp [token, hg]

theorem parses_word (hscan : scan kind (.unquoted i) s = some (.unquoted true, g))
    (hg : ∀ x ∈ g, x.class kind = .word) (hne : g ≠ []) (ht : Stops kind t) :
    Parses kind value i (s ++ t) ts ↔
      ∃ v ts', value g = some v ∧ ts = .word v :: ts' ∧ Parses kind value true t ts' := by
  have hhead : g.head?.map (Sym.class kind) = some .word := by
    obtain ⟨x, g, rfl⟩ := List.exists_cons_of_ne_nil hne
    grind
  simp only [Parses, reads_token hscan hg (by simp) hne (head_of_stops ht)]
  constructor
  · rintro ⟨-, ⟨gs, rfl, hreads⟩, h⟩
    obtain ⟨x, ts', hx, hrest, rfl⟩ := mapM_cons.1 h
    rw [token_of_word hhead] at hx
    grind [Option.map_eq_some_iff]
  · grind [mapM_cons, token_of_word]

theorem Plain.parses (h : Plain kind s) (ht : Stops kind t) : Parses kind value i (s ++ t) ts ↔
    ∃ v ts', value (s.map .bare) = some v ∧ ts = .word v :: ts' ∧ Parses kind value true t ts' :=
  parses_word (h.scan i) (by simpa using fun c hc => class_bare (h.inWord c hc))
    (by simpa using h.ne_nil) ht

/-- The text is read as these words and operators, whatever follows. -/
def Leads (kind : χ → Kind) (value : List (Sym χ) → Option (List χ)) (s : List χ)
    (ts : List (Token χ)) : Prop :=
  ∃ w, scan kind (.unquoted false) s = some (.unquoted false, w) ∧
    (∀ x ∈ w.getLast?, x.class kind = .gap) ∧ (tokens kind w).mapM (token kind value) = some ts

theorem Leads.parses {lead : List (Token χ)} (h : Leads kind value s lead) :
    Parses kind value false (s ++ t) (lead ++ ts) ↔ Parses kind value false t ts := by
  obtain ⟨w, hscan, hgap, htok⟩ := h
  have htokens : ∀ {v}, (tokens kind (w ++ v)).mapM (token kind value) = some (lead ++ ts) ↔
      (tokens kind v).mapM (token kind value) = some ts := by
    intro v
    rw [tokens_gap hgap, List.mapM_append, htok]
    cases (tokens kind v).mapM (token kind value) <;> simp
  constructor
  · rintro ⟨-, ⟨m, w', hline, hm, rfl⟩, h⟩
    obtain ⟨m₁, v, w₁, hfirst, hrest, rfl⟩ := scan_append.1 hline
    cases hscan.symm.trans hfirst
    exact ⟨_, ⟨m, w₁, hrest, hm, rfl⟩, htokens.1 h⟩
  · rintro ⟨-, ⟨m, v, hrest, hm, rfl⟩, h⟩
    exact ⟨_, ⟨m, w ++ v, scan_append.2 ⟨_, w, v, hscan, hrest, rfl⟩, hm, rfl⟩, htokens.2 h⟩

theorem text_of_literal (h : Shell.literal kind g = some v) : text g = v := by
  grind [literal]

theorem Parses.first {line : List χ} (h : Parses kind value i line (.word v :: ts)) :
    ∃ g gs, Reads kind i line (g :: gs) ∧ g.head?.map (Sym.class kind) = some .word ∧
      value g = some v ∧ gs.mapM (token kind value) = some ts := by
  obtain ⟨_ | ⟨g, gs⟩, hreads, htok⟩ := h
  · simp at htok
  obtain ⟨x, ts', hx, hrest, heq⟩ := mapM_cons.1 htok
  cases heq
  obtain ⟨m, w, -, -, hw⟩ := id hreads
  obtain ⟨-, -, -, -, ⟨k, hk, hhead, -⟩, -⟩ := tokens_eq_cons hw
  cases k with
  | gap => exact absurd rfl hk
  | operator => simp [token, hhead] at hx
  | word =>
    rw [token_of_word hhead] at hx
    obtain ⟨v', hv, heq⟩ := Option.map_eq_some_iff.1 hx
    cases heq
    exact ⟨g, gs, hreads, hhead, hv, hrest⟩

theorem token_eq_literal (h : token kind (Shell.literal kind) g = some (.word v)) :
    g.head?.map (Sym.class kind) ≠ some .operator ∧ text g = v := by
  unfold token at h
  split_ifs at h with hop
  · cases h
  · obtain ⟨v', hv, heq⟩ := Option.map_eq_some_iff.1 h
    cases heq
    exact ⟨hop, text_of_literal hv⟩

theorem text_of_mapM {vs : List (List χ)}
    (h : gs.mapM (token kind (Shell.literal kind)) = some (vs.map .word)) :
    (∀ g ∈ gs, g.head?.map (Sym.class kind) ≠ some .operator) ∧ gs.map text = vs := by
  induction gs generalizing vs with
  | nil => cases vs <;> simp at h ⊢
  | cons g gs ih =>
    obtain ⟨x, ts, hx, hrest, heq⟩ := mapM_cons.1 h
    cases vs with
    | nil => cases heq
    | cons v vs =>
      cases heq
      obtain ⟨hop, rfl⟩ := token_eq_literal hx
      obtain ⟨hops, rfl⟩ := ih hrest
      exact ⟨List.forall_mem_cons.2 ⟨hop, hops⟩, rfl⟩

/-- A text is read as itself only if something of it is read before its first blank, where there are
not enough blanks in what follows for the other words. -/
theorem begins_of_parses {vs : List (List χ)} (ht : Ends kind t)
    (hfew : blanks kind t ≤ (vs.map (blanks kind)).sum + vs.length)
    (h : Parses kind (Shell.literal kind) false (s ++ t) ((s :: vs).map .word)) : Begins kind s := by
  by_contra hs
  obtain ⟨gs, hreads, htok⟩ := h
  obtain ⟨hops, htext⟩ := text_of_mapM htok
  have hle := blanks_of_not_begins hs ht hreads (by rintro rfl; cases htext) hops
  have hsum : gs.map (fun g => blanks kind (text g)) = (s :: vs).map (blanks kind) := by
    rw [← htext, List.map_map]
    rfl
  have hlen : gs.length = (s :: vs).length := by rw [← htext, List.length_map]
  rw [hsum, hlen, List.map_cons, List.sum_cons, List.length_cons, blanks_append] at hle
  omega

/-- **A text is read as itself if and only if it stands for itself.** -/
theorem Begins.parses_iff (hs : Begins kind s) (ht : Ends kind t) :
    Parses kind (Shell.literal kind) false (s ++ t) (.word s :: ts) ↔
      Verbatim kind s ∧ Parses kind (Shell.literal kind) true t ts := by
  constructor
  · intro h
    obtain ⟨g, gs, hreads, hword, hlit, -⟩ := h.first
    obtain ⟨hplain, rfl⟩ := hs.plain ht hreads hword (text_of_literal hlit)
    obtain ⟨v, ts', -, heq, hrest⟩ := (hplain.parses ht.stops).1 h
    cases heq
    exact ⟨⟨hplain, hlit⟩, hrest⟩
  grind [Plain.parses, Verbatim.toPlain, Ends.stops, Verbatim.literal]

theorem parses_iff {vs : List (List χ)} (ht : Ends kind t)
    (hfew : blanks kind t ≤ (vs.map (blanks kind)).sum + vs.length) :
    Parses kind (Shell.literal kind) false (s ++ t) ((s :: vs).map .word) ↔
      Verbatim kind s ∧ Parses kind (Shell.literal kind) true t (vs.map .word) := by
  constructor
  · grind [Begins.parses_iff, begins_of_parses]
  · simp_all [Plain.parses, Verbatim.toPlain, Ends.stops, Verbatim.literal]

end Kinds

end Graft.Shell
