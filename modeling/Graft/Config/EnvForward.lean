import Mathlib.Data.List.Basic
import Mathlib.Algebra.Order.BigOperators.Group.List
import Mathlib.Algebra.Order.Group.Nat

/-!
# Forwarding environment variables (`pkg/server.go`, `pkg/local_client_commands.go`)

A connection has a list of names and patterns of the variables that are forwarded to it.  Only the
pattern `*` is refused as one that forwards the entire environment.  No list does: a star never goes
over a separator of paths, which may stand in a name.

The patterns are those of `path.Match`, read as its documentation has them.
-/

namespace Graft.EnvForward

/-! ### Patterns -/

/-- A term of a pattern. -/
inductive Term
  | star
  | any
  | bracket (negated : Bool) (ranges : List (Char × Char))
  | char (c : Char)
  deriving DecidableEq

/-- A character of a class, which may be escaped; the class has to go on. -/
def getEsc : List Char → Option (Char × List Char)
  | [] | '-' :: _ | ']' :: _ | ['\\'] => none
  | '\\' :: c :: chunk => if chunk = [] then none else some (c, chunk)
  | c :: chunk => if chunk = [] then none else some (c, chunk)

/-- The ranges of a class, up to its end; each takes a character at least. -/
def parseRanges : ℕ → List (Char × Char) → List Char → Option (List (Char × Char) × List Char)
  | 0, _, _ => none
  | fuel + 1, ranges, chunk =>
    if chunk.head? = some ']' ∧ ranges ≠ [] then some (ranges, chunk.tail)
    else do
      let (lo, chunk) ← getEsc chunk
      if chunk.head? = some '-' then
        let (hi, chunk) ← getEsc chunk.tail
        parseRanges fuel (ranges ++ [(lo, hi)]) chunk
      else parseRanges fuel (ranges ++ [(lo, lo)]) chunk

/-- The terms of a pattern, `none` if it is malformed; each takes a character at least. -/
def parseTerms : ℕ → List Char → Option (List Term)
  | _, [] => some []
  | 0, _ :: _ => none
  | fuel + 1, '*' :: pattern => (parseTerms fuel pattern).map (.star :: ·)
  | fuel + 1, '?' :: pattern => (parseTerms fuel pattern).map (.any :: ·)
  | fuel + 1, '[' :: pattern => do
    let negated := pattern.head? = some '^'
    let chunk := if negated then pattern.tail else pattern
    let (ranges, rest) ← parseRanges (chunk.length + 1) [] chunk
    (parseTerms fuel rest).map (.bracket negated ranges :: ·)
  | _ + 1, ['\\'] => none
  | fuel + 1, '\\' :: c :: pattern => (parseTerms fuel pattern).map (.char c :: ·)
  | fuel + 1, c :: pattern => (parseTerms fuel pattern).map (.char c :: ·)

def parsePattern (pattern : List Char) : Option (List Term) := parseTerms pattern.length pattern

/-- A term that is no star matches the character, or a star goes over it. -/
def Term.admits : Term → Char → Bool
  | star, c | any, c => c ≠ '/'
  | bracket negated ranges, c => (ranges.any fun r => r.1 ≤ c && c ≤ r.2) != negated
  | char x, c => x = c

def matchTerms : List Term → List Char → Bool
  | [], name => name = []
  | .star :: terms, [] => matchTerms terms []
  | .star :: terms, c :: name =>
    matchTerms terms (c :: name) || (c ≠ '/' && matchTerms (.star :: terms) name)
  | _ :: _, [] => false
  | t :: terms, c :: name => t.admits c && matchTerms terms name
termination_by terms name => terms.length + name.length

/-- `path.Match`, `none` for a malformed pattern. -/
def pathMatch (pattern name : List Char) : Option Bool :=
  (parsePattern pattern).map (matchTerms · name)

/-! ### The functions -/

inductive EnvForwardError
  | tooBroad (name : List Char)
  | invalid (name : List Char)
  deriving DecidableEq

def validateEnvForwardNames : List (List Char) → Option EnvForwardError
  | [] => none
  | name :: names =>
    if name = ['*'] then some (.tooBroad name)
    else if pathMatch name [] = none then some (.invalid name)
    else validateEnvForwardNames names

def resolveEnvForwardNames (patterns environ : List (List Char)) : List (List Char) :=
  environ.filter fun keyVal => '=' ∈ keyVal &&
    patterns.any fun pattern => pathMatch pattern (keyVal.takeWhile (· ≠ '=')) = some true

/-- A character of the names of variables. -/
def NameChar (c : Char) : Prop := c ≠ '=' ∧ c ≠ Char.ofNat 0

/-- The name of some variable, which is not forwarded whatever its value is. -/
def Escapes (patterns : List (List Char)) : Prop :=
  ∃ name, name ≠ [] ∧ (∀ c ∈ name, NameChar c) ∧
    ∀ value, resolveEnvForwardNames patterns [name ++ '=' :: value] = []

/-! ### What a pattern matches -/

/-- The number of terms that take a character; a star goes over separators of paths by none. -/
def width (terms : List Term) : ℕ := terms.countP (· ≠ .star)

/-- **A match has no more separators than the pattern has terms for single characters.** -/
theorem count_le_width {terms : List Term} {name : List Char} (h : matchTerms terms name = true) :
    name.count '/' ≤ width terms := by
  fun_induction matchTerms terms name with
  | case1 name =>
    have hname : name = [] := of_decide_eq_true h
    simp [hname]
  | case2 terms ih => simp
  | case3 terms c name ihTerms ihName =>
    have hwidth : width (.star :: terms) = width terms := List.countP_cons_of_neg (by simp)
    rw [Bool.or_eq_true, Bool.and_eq_true] at h
    rcases h with h | ⟨hc, h⟩
    · exact hwidth ▸ ihTerms h
    · have hne : c ≠ '/' := of_decide_eq_true hc
      rw [List.count_cons_of_ne hne]
      exact ihName h
  | case4 => cases h
  | case5 t terms c name ht ih =>
    have hstar : t ≠ .star := fun hx => ht hx
    have hwidth : width (t :: terms) = width terms + 1 :=
      List.countP_cons_of_pos (by simpa using hstar)
    have hrest := ih (Bool.and_eq_true_iff.1 h).2
    rw [hwidth, List.count_cons]
    split_ifs <;> omega

/-- The width of a pattern; a malformed one matches nothing. -/
def patternWidth (pattern : List Char) : ℕ := ((parsePattern pattern).map width).getD 0

theorem pathMatch_replicate {pattern : List Char} {n : ℕ} (hn : patternWidth pattern < n) :
    pathMatch pattern (List.replicate n '/') ≠ some true := by
  intro hmatch
  obtain ⟨terms, hparse, h⟩ := Option.map_eq_some_iff.1 hmatch
  have hle := count_le_width h
  rw [List.count_replicate_self] at hle
  simp only [patternWidth, hparse, Option.map_some, Option.getD_some] at hn
  omega

theorem resolve_eq_nil {patterns : List (List Char)} {name value : List Char}
    (hname : ∀ c ∈ name, NameChar c)
    (h : ∀ pattern ∈ patterns, pathMatch pattern name ≠ some true) :
    resolveEnvForwardNames patterns [name ++ '=' :: value] = [] := by
  have hkey : (name ++ '=' :: value).takeWhile (· ≠ '=') = name := by
    rw [List.takeWhile_append_of_pos fun c hc => decide_eq_true (hname c hc).1]
    simp
  simp only [resolveEnvForwardNames, List.filter_cons, hkey]
  simpa using h

/-- **No list of patterns forwards the whole environment**, accepted or not: a name with more
separators of paths than the patterns have terms together is a name of a variable that none of them
matches, as neither `*` nor `?` matches a separator and every other term takes one character. -/
theorem allowlist_escapes (patterns : List (List Char)) : Escapes patterns := by
  have hplain : ∀ n, ∀ c ∈ List.replicate n '/', NameChar c := fun n c hc => by
    rw [List.eq_of_mem_replicate hc]
    exact ⟨by decide, by decide⟩
  refine ⟨List.replicate ((patterns.map patternWidth).sum + 1) '/', by simp, hplain _,
    fun value => resolve_eq_nil (hplain _) fun pattern hp => pathMatch_replicate ?_⟩
  have hle := List.le_sum_of_mem (List.mem_map_of_mem (f := patternWidth) hp)
  omega

/-- The accepted pattern `**` matches every name without a separator, and not `A/B`. -/
example : validateEnvForwardNames ["**".toList] = none ∧
    parsePattern "**".toList = some [.star, .star] ∧
    matchTerms [.star, .star] "PATH".toList = true ∧
    matchTerms [.star, .star] "A/B".toList = false := by
  refine ⟨?_, by decide, by simp [matchTerms], by simp [matchTerms]⟩
  have hterms : parsePattern "**".toList = some [.star, .star] := by decide
  rw [validateEnvForwardNames, if_neg (by decide), pathMatch, hterms]
  rfl

end Graft.EnvForward
