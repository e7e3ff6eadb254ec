import Mathlib.Tactic

/-!
# The configuration (`pkg/config.go`)

The root configuration is a list of connections.  It is validated when it is loaded and before it is
saved; `Persist` refuses what does not pass.
-/

namespace Graft.Config

/-! ### Data -/

/-- `SynchronizationIntent`, and `SynchronizationIntentConfig`, which has the same fields. -/
structure SynchronizationIntent where
  fromLocal : String
  toRemote : String
  syncGit : Bool
  syncInclude : List String
  defaultFileMode : String
  defaultDirectoryMode : String
  deriving DecidableEq

/-- The entry of a connection in the configuration. -/
structure ConnectionConfig where
  name : String
  destination : String
  localRoot : String
  remoteRoot : String
  forward : List String
  prefixForward : List String
  synchronizations : List SynchronizationIntent
  background : Bool
  ports : List String
  forwardAgent : Bool
  envForward : List String
  deriving DecidableEq

/-! ### Permission modes (`pkg/synchronization.go`) -/

/-- `strings.TrimPrefix`. -/
def trimPrefix (s start : List Char) : List Char :=
  if start.isPrefixOf s then s.drop start.length else s

def octalDigit (c : Char) : Option ℕ :=
  if '0' ≤ c ∧ c ≤ '7' then some (c.toNat - '0'.toNat) else none

/-- `strconv.ParseUint` with base 8 and 32 bits. -/
def parseOctal (digits : List Char) : Option ℕ :=
  if digits = [] then none
  else (digits.foldlM (fun n c => (octalDigit c).map (8 * n + ·)) 0).filter (· < 2 ^ 32)

/-- A mode in octal digits, with or without `0o`. -/
def parseSyncMode (s : String) : Option ℕ :=
  if s = "" then none
  else parseOctal (trimPrefix (trimPrefix s.toList ['0', 'o']) ['0', 'O'])

inductive ModeError
  | octal (mode : String)
  | zero
  | nonPermission
  | executable
  deriving DecidableEq

/-- `EnsureDefaultFileModeValid`, with portable permissions. -/
def ensureDefaultFileModeValid (mode : ℕ) : Option ModeError :=
  if mode = 0 then some .zero
  else if mode &&& 0o777 ≠ mode then some .nonPermission
  else if mode &&& 0o111 ≠ 0 then some .executable
  else none

def ensureDefaultDirectoryModeValid (mode : ℕ) : Option ModeError :=
  if mode = 0 then some .zero
  else if mode &&& 0o777 ≠ mode then some .nonPermission
  else none

/-- The check of one mode; empty means the default. -/
def validateMode (ensure : ℕ → Option ModeError) (mode : String) : Option ModeError :=
  if mode = "" then none
  else match parseSyncMode mode with
    | none => some (.octal mode)
    | some parsed => ensure parsed

/-- The field with a bad mode, and what is wrong with it. -/
inductive SyncModesError
  | defaultFileMode (err : ModeError)
  | defaultDirectoryMode (err : ModeError)
  deriving DecidableEq

/-- Checks both modes, the one of files first. -/
def validateSyncModes (fileMode dirMode : String) : Option SyncModesError :=
  match validateMode ensureDefaultFileModeValid fileMode with
  | some err => some (.defaultFileMode err)
  | none => (validateMode ensureDefaultDirectoryModeValid dirMode).map .defaultDirectoryMode

/-! ### Validation -/

/-- The first entry of a list that was seen before. -/
def duplicate? : List String → List String → Option String
  | _, [] => none
  | seen, x :: xs => if x ∈ seen then some x else duplicate? (x :: seen) xs

def badSync? : ℕ → List SynchronizationIntent → Option (ℕ × SyncModesError)
  | _, [] => none
  | idx, s :: ss =>
    match validateSyncModes s.defaultFileMode s.defaultDirectoryMode with
    | some err => some (idx, err)
    | none => badSync? (idx + 1) ss

/-- What is wrong with the configuration of a connection. -/
inductive ConnectionError
  | noName
  | noDestination
  | duplicateForwarding (connection forwarding : String)
  | duplicatePrefixForwarding (connection forwarding : String)
  | synchronizationInvalid (idx : ℕ) (err : SyncModesError)
  | duplicateEnvForward (connection envForward : String)
  deriving DecidableEq

/-- `ConnectionConfig.Validate`. -/
def ConnectionConfig.validate (conf : ConnectionConfig) : Option ConnectionError :=
  if conf.name = "" then some .noName
  else if conf.destination = "" then some .noDestination
  else match duplicate? [] conf.forward with
  | some fwd => some (.duplicateForwarding conf.name fwd)
  | none =>
    match duplicate? [] conf.prefixForward with
    | some fwd => some (.duplicatePrefixForwarding conf.name fwd)
    | none =>
      match badSync? 0 conf.synchronizations with
      | some (idx, err) => some (.synchronizationInvalid idx err)
      | none => (duplicate? [] conf.envForward).map (.duplicateEnvForward conf.name)

/-- Why a configuration is refused; the number is that of the connection. -/
inductive ConfigError
  | duplicateConnection (name : String)
  | connectionInvalid (idx : ℕ) (err : ConnectionError)
  deriving DecidableEq

/-- The loop of `RootConfig.validate`. -/
def validateFrom : ℕ → List String → List ConnectionConfig → Option ConfigError
  | _, _, [] => none
  | idx, seen, conn :: conns =>
    if conn.name ∈ seen then some (.duplicateConnection conn.name)
    else match conn.validate with
      | some err => some (.connectionInvalid idx err)
      | none => validateFrom (idx + 1) (conn.name :: seen) conns

/-- `RootConfig.validate`. -/
def validate (conf : List ConnectionConfig) : Option ConfigError := validateFrom 0 [] conf

/-! ### What is checked -/

/-- The modes of a synchronization are empty or permissions. -/
def SynchronizationIntent.ModesOk (s : SynchronizationIntent) : Prop :=
  validateSyncModes s.defaultFileMode s.defaultDirectoryMode = none

instance (s : SynchronizationIntent) : Decidable s.ModesOk :=
  inferInstanceAs (Decidable (_ = _))

/-- What the checks of one connection come to. -/
structure ConnectionConfig.Valid (conf : ConnectionConfig) : Prop where
  name : conf.name ≠ ""
  destination : conf.destination ≠ ""
  forward : conf.forward.Nodup
  prefixForward : conf.prefixForward.Nodup
  synchronizations : ∀ s ∈ conf.synchronizations, s.ModesOk
  envForward : conf.envForward.Nodup

structure Valid (conf : List ConnectionConfig) : Prop where
  names : (conf.map (·.name)).Nodup
  connections : ∀ conn ∈ conf, conn.Valid

theorem duplicate?_eq_none {seen l : List String} :
    duplicate? seen l = none ↔ l.Nodup ∧ ∀ x ∈ l, x ∉ seen := by
  induction l generalizing seen with
  | nil => simp [duplicate?]
  | cons x xs ih =>
    rw [duplicate?]
    split_ifs with hx
    · simp [hx]
    · rw [ih, List.nodup_cons]
      constructor
      · rintro ⟨hnodup, hseen⟩
        refine ⟨⟨fun hmem => hseen x hmem (List.mem_cons_self ..), hnodup⟩, ?_⟩
        rintro y hy
        rcases List.mem_cons.1 hy with rfl | hy
        · exact hx
        · exact fun hs => hseen y hy (List.mem_cons_of_mem _ hs)
      · rintro ⟨⟨hmem, hnodup⟩, hseen⟩
        refine ⟨hnodup, fun y hy hs => ?_⟩
        rcases List.mem_cons.1 hs with rfl | hs
        · exact hmem hy
        · exact hseen y (List.mem_cons_of_mem _ hy) hs

theorem duplicate?_nil_eq_none {l : List String} : duplicate? [] l = none ↔ l.Nodup := by
  simp [duplicate?_eq_none]

theorem badSync?_eq_none {idx : ℕ} {l : List SynchronizationIntent} :
    badSync? idx l = none ↔ ∀ s ∈ l, s.ModesOk := by
  induction l generalizing idx with
  | nil => simp [badSync?]
  | cons s ss ih =>
    rw [badSync?, List.forall_mem_cons, SynchronizationIntent.ModesOk]
    cases hs : validateSyncModes s.defaultFileMode s.defaultDirectoryMode with
    | none => simp [ih]
    | some err => simp

theorem ConnectionConfig.validate_eq_none {conf : ConnectionConfig} :
    conf.validate = none ↔ conf.Valid := by
  have hforward := duplicate?_nil_eq_none (l := conf.forward)
  have hprefix := duplicate?_nil_eq_none (l := conf.prefixForward)
  have hsyncs : badSync? 0 conf.synchronizations = none ↔ ∀ s ∈ conf.synchronizations, s.ModesOk :=
    badSync?_eq_none
  have henv := duplicate?_nil_eq_none (l := conf.envForward)
  constructor
  · intro h
    rw [ConnectionConfig.validate] at h
    split_ifs at h with hname hdest
    cases h1 : duplicate? [] conf.forward with
    | some fwd => simp [h1] at h
    | none =>
      cases h2 : duplicate? [] conf.prefixForward with
      | some fwd => simp [h1, h2] at h
      | none =>
        cases h3 : badSync? 0 conf.synchronizations with
        | some p => simp [h1, h2, h3] at h
        | none =>
          simp only [h1, h2, h3, Option.map_eq_none_iff] at h
          exact ⟨hname, hdest, hforward.1 h1, hprefix.1 h2, hsyncs.1 h3, henv.1 h⟩
  · intro h
    rw [ConnectionConfig.validate, if_neg h.name, if_neg h.destination, hforward.2 h.forward,
      hprefix.2 h.prefixForward, hsyncs.2 h.synchronizations, henv.2 h.envForward]
    rfl

theorem validateFrom_eq_none {idx : ℕ} {seen : List String} {conf : List ConnectionConfig} :
    validateFrom idx seen conf = none ↔ Valid conf ∧ ∀ conn ∈ conf, conn.name ∉ seen := by
  induction conf generalizing idx seen with
  | nil => exact ⟨fun _ => ⟨⟨List.nodup_nil, by simp⟩, by simp⟩, fun _ => rfl⟩
  | cons conn conns ih =>
    rw [validateFrom]
    split_ifs with hseen
    · simp [hseen]
    · cases hconn : conn.validate with
      | some err =>
        have hnot : ¬ conn.Valid := fun h => by
          rw [ConnectionConfig.validate_eq_none.2 h] at hconn
          cases hconn
        simp only [reduceCtorEq, false_iff]
        exact fun h => hnot (h.1.connections conn (List.mem_cons_self ..))
      | none =>
        have hvalid := ConnectionConfig.validate_eq_none.1 hconn
        rw [ih]
        constructor
        · rintro ⟨h, hnew⟩
          refine ⟨⟨?_, ?_⟩, ?_⟩
          · rw [List.map_cons, List.nodup_cons]
            refine ⟨fun hmem => ?_, h.names⟩
            obtain ⟨c, hc, heq⟩ := List.mem_map.1 hmem
            exact hnew c hc (heq ▸ List.mem_cons_self ..)
          · exact List.forall_mem_cons.2 ⟨hvalid, h.connections⟩
          · exact List.forall_mem_cons.2
              ⟨hseen, fun c hc hs => hnew c hc (List.mem_cons_of_mem _ hs)⟩
        · rintro ⟨⟨hnames, hconns⟩, hnew⟩
          rw [List.map_cons, List.nodup_cons] at hnames
          refine ⟨⟨hnames.2, (List.forall_mem_cons.1 hconns).2⟩, fun c hc hs => ?_⟩
          rcases List.mem_cons.1 hs with heq | hs
          · exact hnames.1 (heq ▸ List.mem_map_of_mem hc)
          · exact hnew c (List.mem_cons_of_mem _ hc) hs

/-- **A configuration passes iff it is valid.** -/
theorem validate_eq_none {conf : List ConnectionConfig} : validate conf = none ↔ Valid conf := by
  simp_all [validate, validateFrom_eq_none]

end Graft.Config
