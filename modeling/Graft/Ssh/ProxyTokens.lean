import Graft.Ssh.Resolve

/-!
# The tokens of a proxy command (`pkg/ssh_config.go`)

`substituteProxyTokens` replaces the tokens one after the other, so what a value has in it is
searched for the tokens that come later, and `%%` is kept as a text that a value may have, too.
-/

namespace Graft.Ssh

open Function (update update_self update_of_ne)

/-- One scan from left to right, where `value` is what stands for a `%` and the letter after it. -/
def scanTokens (value : Char → List Char) : List Char → List Char
  | '%' :: c :: text => value c ++ scanTokens value text
  | c :: text => c :: scanTokens value text
  | [] => []

/-- The values of the tokens; what is no token stays as it is. -/
def tokenValue (originalHost hostname port user : String) : Char → List Char
  | '%' => ['%']
  | 'h' => hostname.toList
  | 'p' => port.toList
  | 'r' => user.toList
  | 'n' => originalHost.toList
  | c => ['%', c]

/-- The expansion in one pass. -/
def expandTokens (cmd originalHost hostname port user : String) : String :=
  String.ofList (scanTokens (tokenValue originalHost hostname port user) cmd.toList)

/-- What `%%` is kept as. -/
def sentinel : List Char := ['\x00', 'P', 'E', 'R', 'C', 'E', 'N', 'T', '\x00']

/-- What stands for the tokens when those in `done` have been replaced. -/
def stage (originalHost hostname port user : String) (done : List Char) (c : Char) : List Char :=
  if c = '%' then sentinel
  else if c ∈ done then tokenValue originalHost hostname port user c
  else ['%', c]

/-- Somewhere a percent sign of a value that was put in stands before the letter `x`. -/
def rereads (value : Char → List Char) (done : List Char) (x : Char) : List Char → Bool
  | '%' :: c :: text =>
    decide (c ∈ done ∧ ['%', x] <:+: value c ++ (scanTokens value text).take 1) ||
      rereads value done x text
  | _ :: text => rereads value done x text
  | [] => false

/-- No token is found that begins in a value: when `%p`, `%r` and `%n` are replaced, none of the
values that are in the text by then has a percent sign before the letter. -/
def SinglePass (cmd originalHost hostname port user : String) : Prop :=
  ∀ t ∈ [(['h'], 'p'), (['h', 'p'], 'r'), (['h', 'p', 'r'], 'n')],
    rereads (stage originalHost hostname port user t.1) t.1 t.2 cmd.toList = false

instance (cmd originalHost hostname port user : String) :
    Decidable (SinglePass cmd originalHost hostname port user) :=
  inferInstanceAs (Decidable (∀ _ ∈ _, _))

/-! ### One replacement -/

section Replace

variable {p : Char} {ps new text : List Char} {value : Char → List Char}

theorem replaceFrom_append (a : List Char) (h : p ∉ a) :
    replaceFrom (p :: ps) new 0 (a ++ text) = a ++ replaceFrom (p :: ps) new 0 text := by
  induction a with
  | nil => rfl
  | cons c a ih =>
    have hc : p ≠ c := fun hx => h (by simp [hx])
    simp [replaceFrom, hc, ih fun hx => h (List.mem_cons_of_mem c hx)]

theorem replaceFrom_skip (a : List Char) :
    replaceFrom (p :: ps) new a.length (a ++ text) = replaceFrom (p :: ps) new 0 text := by
  induction a with
  | nil => rfl
  | cons c a ih => exact ih

theorem replaceFrom_self :
    replaceFrom (p :: ps) new 0 (p :: ps ++ text) = new ++ replaceFrom (p :: ps) new 0 text := by
  have hpre : (p :: ps).isPrefixOf (p :: (ps ++ text)) = true := by simp
  rw [List.cons_append, replaceFrom, if_pos hpre]
  exact congrArg _ (replaceFrom_skip ps)

theorem scanTokens_keep (text : List Char) : scanTokens (fun c => ['%', c]) text = text := by
  fun_induction scanTokens (fun c => ['%', c]) text with
  | case1 c text ih => simp [ih]
  | case2 c text _ ih => rw [ih]
  | case3 => rfl

theorem scanTokens_cons {c : Char} (h : c = '%' → text = []) :
    scanTokens value (c :: text) = c :: scanTokens value text := by
  cases text with
  | nil => simp [scanTokens]
  | cons d text =>
    have hc : c ≠ '%' := fun hx => by cases h hx
    simp [scanTokens, hc]

/-- What has no token that begins in it stays. -/
theorem replaceFrom_of_absent {x : Char} (a : List Char)
    (h : ¬ ['%', x] <:+: a ++ text.take 1) :
    replaceFrom ['%', x] new 0 (a ++ text) = a ++ replaceFrom ['%', x] new 0 text := by
  induction a with
  | nil => rfl
  | cons c a ih =>
    have hpre : ¬ ['%', x].isPrefixOf (c :: (a ++ text)) = true := by
      intro hx
      refine h (List.IsPrefix.isInfix ?_)
      have htwo : ['%', x] <+: c :: (a ++ text) := List.isPrefixOf_iff_prefix.1 hx
      cases a with
      | nil =>
        cases text with
        | nil => simp at htwo
        | cons d text => simpa using htwo
      | cons d a => simpa using htwo
    rw [List.cons_append, replaceFrom, if_neg hpre, ih fun hx => h ?_]
    · rfl
    · exact hx.trans (List.suffix_cons c _).isInfix

/-- The other tokens are still to be replaced, or are kept otherwise. -/
theorem replaceFrom_scanTokens (new : List Char) {x : Char} {done : List Char}
    (hx : value x = ['%', x])
    (hothers : ∀ c, c ≠ x → c ∈ done ∨ '%' ∉ value c ∨ value c = ['%', c] ∧ c ≠ '%')
    (text : List Char) (h : rereads value done x text = false) :
    replaceFrom ['%', x] new 0 (scanTokens value text) = scanTokens (update value x new) text := by
  fun_induction scanTokens value text with
  | case1 c text ih =>
    rw [rereads, Bool.or_eq_false_iff, decide_eq_false_iff_not] at h
    rw [scanTokens, ← ih h.2]
    by_cases hc : c = x
    · subst hc
      rw [hx, update_self]
      exact replaceFrom_self
    · rw [update_of_ne hc]
      obtain hdone | hval | ⟨hval, hpct⟩ := hothers c hc
      · exact replaceFrom_of_absent _ fun hx => h.1 ⟨hdone, hx⟩
      · exact replaceFrom_append _ hval
      · simp [hval, replaceFrom, Ne.symm hc, Ne.symm hpct]
  | case2 c text hne ih =>
    have hlast : c = '%' → text = [] := by
      rintro rfl
      cases text with
      | nil => rfl
      | cons d text => exact (hne d text rfl rfl).elim
    have hrest : rereads value done x text = false := by
      rwa [rereads.eq_2 value done x c text hne] at h
    rw [scanTokens_cons hlast, ← ih hrest]
    by_cases hc : c = '%'
    · rw [hc, hlast hc]
      simp [scanTokens, replaceFrom]
    · exact replaceFrom_append [c] (by simpa using Ne.symm hc)
  | case3 => rfl

/-- What stands for a token is replaced, if its first letter is nowhere else. -/
theorem replaceFrom_sentinel (new : List Char) {x : Char} (hx : value x = p :: ps)
    (text : List Char) (h : p ∉ scanTokens (update value x new) text) :
    replaceFrom (p :: ps) new 0 (scanTokens value text) =
      scanTokens (update value x new) text := by
  fun_induction scanTokens value text with
  | case1 c text ih =>
    rw [scanTokens, List.mem_append, not_or] at h
    rw [scanTokens, ← ih h.2]
    by_cases hc : c = x
    · subst hc
      rw [hx, update_self]
      exact replaceFrom_self
    · rw [update_of_ne hc] at h ⊢
      exact replaceFrom_append _ h.1
  | case2 c text hne ih =>
    have hlast : c = '%' → text = [] := by
      rintro rfl
      cases text with
      | nil => rfl
      | cons d text => exact (hne d text rfl rfl).elim
    rw [scanTokens_cons hlast, List.mem_cons, not_or] at h
    rw [scanTokens_cons hlast, ← ih h.2]
    exact replaceFrom_append [c] (by simpa using h.1)
  | case3 => rfl

theorem rereads_nil (value : Char → List Char) (x : Char) (text : List Char) :
    rereads value [] x text = false := by
  fun_induction rereads value [] x text with
  | case1 c text ih => simpa using ih
  | case2 c text _ ih => exact ih
  | case3 => rfl

end Replace

section Stages

variable {originalHost hostname port user : String}

theorem update_stage {done : List Char} {x : Char} (hx : x ≠ '%') : update (stage originalHost hostname port user done) x
    (tokenValue originalHost hostname port user x) =
      stage originalHost hostname port user (done ++ [x]) := by
  funext c
  by_cases hc : c = x
  · subst hc
    simp [stage, hx]
  · simp [stage, hc]

theorem replaceFrom_stage (done : List Char) (x : Char) (hx : x ≠ '%') (hdone : x ∉ done) (text : List Char)
    (h : rereads (stage originalHost hostname port user done) done x text = false) :
    replaceFrom ['%', x] (tokenValue originalHost hostname port user x) 0
        (scanTokens (stage originalHost hostname port user done) text) =
      scanTokens (stage originalHost hostname port user (done ++ [x])) text := by
  rw [← update_stage hx]
  refine replaceFrom_scanTokens _ (by simp [stage, hx, hdone]) (fun c _ => ?_) text h
  by_cases hc : c = '%'
  · exact .inr (.inl (by simp [stage, hc, sentinel]))
  · by_cases hmem : c ∈ done
    · exact .inl hmem
    · exact .inr (.inr ⟨by simp [stage, hc, hmem], hc⟩)

end Stages

end Graft.Ssh
