import Graft.Library.Shell
import Graft.Sync.Establish

/-!
# Remote paths as text of a shell (`pkg/connection.go`, `pkg/synchronization.go`)

The destination of a synchronization is resolved by `echo` on the remote, and its root is created by
a command with the path in three places.  None of them quotes it.
-/

namespace Graft.RemotePaths

open Shell

def word (s : String) : Token Char := .word s.toList

def operator (s : String) : Token Char := .operator s.toList

/-! ### Tildes -/

section Home

-- the home directories of the users, where the empty name is the user who logs in
variable (home : List Char → Option (List Char))

def isSlash (x : Sym Char) : Bool := x.isBare Kind.ofChar .slash

def unquoted : Sym Char → Bool
  | .bare _ => true
  | .lit _ | .mark => false

def expandTilde (w : List (Sym Char)) : List Char :=
  if hasTilde Kind.ofChar w then
    let name := w.tail.takeWhile (!isSlash ·)
    match if name.all unquoted then home (text name) else none with
    | some dir => dir ++ text (w.tail.dropWhile (!isSlash ·))
    | none => text w
  else text w

/-- What a word stands for, if it is not a pattern. -/
def value (w : List (Sym Char)) : Option (List Char) :=
  if isPattern Kind.ofChar w then none else some (expandTilde home w)

def denoted (s : List Char) : List Char := expandTilde home (s.map .bare)

end Home

/-! ### Commands -/

def makeSyncRootCommand (remotePath : List Char) (dirMode : ℕ) : List Char :=
  "test -d ".toList ++ (remotePath ++ (" || (mkdir -p ".toList ++ (remotePath ++
    (" && chmod ".toList ++ (Nat.toDigits 8 dirMode ++ (" ".toList ++ (remotePath ++
      ")".toList)))))))

def rootTokens (remotePath : List Char) (dirMode : ℕ) : List (Token Char) :=
  [word "test", word "-d", .word remotePath, operator "||", operator "(", word "mkdir", word "-p",
    .word remotePath, operator "&&", word "chmod", .word (Nat.toDigits 8 dirMode),
    .word remotePath, operator ")"]

/-- `echo` with one operand; what it does with options and backslashes depends on the system. -/
def echo (operand : List Char) : Option (List Char) :=
  if operand.head? = some '-' ∨ '\\' ∈ operand then none else some (operand ++ ['\n'])

def replicaPath (toRemote : List Char) : List Char := toRemote ++ '/' :: ".git".toList

/-- The commands for a destination get the path that it names, and no other word is in its place. -/
structure AsData (home : List Char → Option (List Char)) (toRemote : List Char)
    (dirMode replicaDirMode : ℕ) : Prop where
  echoed : fields Kind.ofChar (value home) ("echo ".toList ++ toRemote) =
    some [word "echo", .word (denoted home toRemote)]
  resolved : (echo (denoted home toRemote)).map (fun out => Sync.trimSpace (String.ofList out)) =
    some (String.ofList (denoted home toRemote))
  created : fields Kind.ofChar (value home) (makeSyncRootCommand (denoted home toRemote) dirMode) =
    some (rootTokens (denoted home toRemote) dirMode)
  replica : fields Kind.ofChar (value home)
      (makeSyncRootCommand (replicaPath (denoted home toRemote)) replicaDirMode) =
    some (rootTokens (replicaPath (denoted home toRemote)) replicaDirMode)

/-! ### The condition -/

structure IsWord (s : List Char) : Prop extends Plain Kind.ofChar s where
  literal : isPattern Kind.ofChar (s.map .bare) = false

/-- The destination and the path that it names are words; the path is not an option, and has no
white space at its ends. -/
structure Usable (home : List Char → Option (List Char)) (toRemote : List Char) : Prop where
  destination : IsWord toRemote
  path : IsWord (denoted home toRemote)
  operand : (denoted home toRemote).head? ≠ some '-'
  left : ∀ c ∈ (denoted home toRemote).head?, Sync.isSpace c = false
  right : ∀ c ∈ (denoted home toRemote).getLast?, Sync.isSpace c = false

/-- Users have names that are words without a slash, and absolute home directories. -/
def Homes (home : List Char → Option (List Char)) : Prop :=
  ∀ name dir, home name = some dir →
    (∀ c ∈ name, (Kind.ofChar c).inWord = true ∧ Kind.ofChar c ≠ .slash) ∧ dir.head? = some '/'

/-! ### What a word stands for -/

variable {home : List Char → Option (List Char)} {s t p : List Char} {ts : List (Token Char)}
  {g : List (Sym Char)} {gs : List (List (Sym Char))} {i : Bool}

theorem kind_eq_slash {c : Char} (h : Kind.ofChar c = .slash) : c = '/' := by
  unfold Kind.ofChar at h
  split at h <;> simp_all

theorem kind_eq_tilde {c : Char} (h : Kind.ofChar c = .tilde) : c = '~' := by
  unfold Kind.ofChar at h
  split at h <;> simp_all

theorem map_bare_of_unquoted {w : List (Sym Char)} (h : w.all unquoted = true) :
    w = (text w).map .bare := by
  induction w with
  | nil => rfl
  | cons x w ih =>
    rw [List.all_cons, Bool.and_eq_true] at h
    cases x with
    | bare c => exact congrArg (.bare c :: ·) (ih h.2)
    | lit | mark => cases h.1

theorem expandTilde_cases (home : List Char → Option (List Char)) (w : List (Sym Char)) :
    (∃ name rest dir, w = .bare '~' :: (name.map .bare ++ rest) ∧ home name = some dir ∧
        (∀ x ∈ rest.head?, x = .bare '/') ∧ expandTilde home w = dir ++ text rest) ∨
      expandTilde home w = text w := by
  unfold expandTilde
  split_ifs with htilde
  · obtain ⟨x, w, rfl⟩ : ∃ x w', w = x :: w' := by
      cases w with
      | nil => cases htilde
      | cons x w => exact ⟨x, w, rfl⟩
    rw [List.tail_cons]
    by_cases hall : (w.takeWhile (!isSlash ·)).all unquoted = true
    · cases hdir : home (text (w.takeWhile (!isSlash ·))) with
      | none => simp [hdir]
      | some dir =>
        refine .inl ⟨_, w.dropWhile (!isSlash ·), dir, ?_, hdir, fun y hy => ?_,
          by simp [hall, hdir]⟩
        · rw [← map_bare_of_unquoted hall, List.takeWhile_append_dropWhile, List.cons.injEq]
          cases x with
          | bare c =>
            have hc : Kind.ofChar c = .tilde := by simpa [hasTilde, Sym.isBare] using htilde
            simp [kind_eq_tilde hc]
          | lit | mark => cases htilde
        · have hslash := List.head?_dropWhile_not (!isSlash ·) w
          rw [hy] at hslash
          cases y with
          | bare c => exact congrArg _ (kind_eq_slash (by simpa [isSlash, Sym.isBare] using hslash))
          | lit | mark => simp [isSlash, Sym.isBare] at hslash
    · simp [hall]
  · exact .inr rfl

theorem expandTilde_name {name dir : List Char} {r : List (Sym Char)} (hhome : Homes home)
    (hdir : home name = some dir) (hrest : ∀ x ∈ r.head?, x = .bare '/') :
    expandTilde home (.bare '~' :: (name.map .bare ++ r)) = dir ++ text r := by
  have hname : ∀ x ∈ name.map Sym.bare, (!isSlash x) = true := by
    simpa [isSlash, Sym.isBare] using fun c hc => ((hhome name dir hdir).1 c hc).2
  have hstop : ∀ x ∈ r.head?, (!isSlash x) = false := fun x hx => by rw [hrest x hx]; rfl
  have htake : (name.map Sym.bare ++ r).takeWhile (!isSlash ·) = name.map .bare := by
    rw [List.takeWhile_append_of_pos hname]
    cases r <;> simp_all
  have hdrop : (name.map Sym.bare ++ r).dropWhile (!isSlash ·) = r := by
    simp_all
  have hall : (name.map Sym.bare).all unquoted = true := by simp [unquoted]
  simp only [expandTilde, List.tail_cons, htake, hdrop, hall, if_true, text_map_bare, hdir]
  rfl

theorem denoted_cases (home : List Char → Option (List Char)) (s : List Char) :
    (∃ name rest dir, s = '~' :: (name ++ rest) ∧ home name = some dir ∧
        (∀ c ∈ rest.head?, c = '/') ∧ denoted home s = dir ++ rest) ∨ denoted home s = s := by
  obtain ⟨name, rest, dir, hw, hdir, hrest, heq⟩ | heq := expandTilde_cases home (s.map .bare)
  · left
    cases s with
    | nil => cases hw
    | cons c s =>
      simp only [List.map_cons, List.cons.injEq, Sym.bare.injEq] at hw
      obtain ⟨rfl, hw⟩ := hw
      obtain ⟨n, r, rfl, hn, rfl⟩ := List.map_eq_append_iff.1 hw
      obtain rfl := List.map_injective_iff.2 (fun _ _ => Sym.bare.inj) hn
      refine ⟨n, r, dir, rfl, hdir, ?_, by rw [denoted, heq, text_map_bare]⟩
      intro c hc
      exact Sym.bare.inj (hrest (.bare c) (by simp [Option.mem_def.1 hc]))
  · exact .inr (heq.trans (text_map_bare s))

theorem denoted_denoted (hhome : Homes home) (s : List Char) :
    denoted home (denoted home s) = denoted home s := by
  obtain ⟨name, rest, dir, -, hdir, -, heq⟩ | heq := denoted_cases home s
  · obtain ⟨d, hd⟩ := List.head?_eq_some_iff.1 (hhome name dir hdir).2
    rw [heq, hd]
    exact text_map_bare _
  · rw [heq, heq]

theorem value_eq (hw : isPattern Kind.ofChar (p.map .bare) = false) (hp : denoted home p = p) :
    value home (p.map .bare) = some p := by
  rw [value, hw]
  exact congrArg some hp

theorem of_value {w : List (Sym Char)} {v : List Char} (h : value home w = some v) :
    isPattern Kind.ofChar w = false ∧ expandTilde home w = v := by
  unfold value at h
  split_ifs at h with hpattern
  exact ⟨by simpa using hpattern, Option.some.inj h⟩

/-! ### Words are read as they are -/

theorem IsWord.parses (hp : IsWord p) (hd : denoted home p = p) (ht : Stops Kind.ofChar t) :
    Parses Kind.ofChar (value home) i (p ++ t) (.word p :: ts) ↔
      Parses Kind.ofChar (value home) true t ts := by
  rw [hp.toPlain.parses ht]
  constructor
  · simp_all
  · exact fun h => ⟨p, ts, value_eq hp.literal hd, rfl, h⟩

theorem kind_of_isDigit {c : Char} (h : c.isDigit = true) : Kind.ofChar c = .other := by
  unfold Kind.ofChar
  split <;> first | rfl | exact absurd h (by decide)

theorem isWord_of_other (hne : s ≠ []) (h : ∀ c ∈ s, Kind.ofChar c = .other) : IsWord s where
  ne_nil := hne
  inWord c hc := by rw [h c hc]; rfl
  hash c hc := by simp [h c (List.mem_of_mem_head? hc)]
  literal := by
    clear hne
    induction s with
    | nil => rfl
    | cons c s ih =>
      obtain ⟨hc, hs⟩ := List.forall_mem_cons.1 h
      simp [isPattern, Sym.isBare, hc, ih hs]

theorem denoted_of_head (h : ∀ c ∈ s.head?, c ≠ '~') : denoted home s = s := by
  grind [denoted_cases]

theorem makeSyncRootCommand_parses (hp : IsWord p) (hd : denoted home p = p) (dirMode : ℕ) :
    fields Kind.ofChar (value home) (makeSyncRootCommand p dirMode) =
      some (rootTokens p dirMode) := by
  have htest : Leads Kind.ofChar (value home) "test -d ".toList [word "test", word "-d"] :=
    ⟨_, rfl, by decide, rfl⟩
  have hmkdir : Leads Kind.ofChar (value home) "|| (mkdir -p ".toList
      [operator "||", operator "(", word "mkdir", word "-p"] := ⟨_, rfl, by decide, rfl⟩
  have hchmod : Leads Kind.ofChar (value home) "&& chmod ".toList [operator "&&", word "chmod"] :=
    ⟨_, rfl, by decide, rfl⟩
  have hdigit : ∀ c ∈ Nat.toDigits 8 dirMode, Kind.ofChar c = .other := fun c hc =>
    kind_of_isDigit (Nat.isDigit_of_mem_toDigits (by decide) (by decide) hc)
  have hmode : denoted home (Nat.toDigits 8 dirMode) = Nat.toDigits 8 dirMode :=
    denoted_of_head fun c hc htilde => by
      grind [Kind.ofChar]
  have hspace : ∀ r : List Char, Stops Kind.ofChar (' ' :: r) := by
    rintro r c ⟨⟩
    exact .inl rfl
  have hclose : Stops Kind.ofChar ")".toList := by
    rintro c ⟨⟩
    exact .inr rfl
  refine fields_eq_some.2 (htest.parses.2 ((hp.parses hd (hspace _)).2 ((parses_blank rfl).2 ?_)))
  refine hmkdir.parses.2 ((hp.parses hd (hspace _)).2 ((parses_blank rfl).2 (hchmod.parses.2 ?_)))
  refine ((isWord_of_other Nat.toDigits_ne_nil hdigit).parses hmode (hspace _)).2 ?_
  exact (parses_blank rfl).2 ((hp.parses hd hclose).2 ⟨_, ⟨_, _, rfl, rfl, rfl⟩, rfl⟩)

theorem echo_parses (hs : IsWord s) :
    fields Kind.ofChar (value home) ("echo ".toList ++ s) =
      some [word "echo", .word (denoted home s)] := by
  have hecho : Leads Kind.ofChar (value home) "echo ".toList [word "echo"] :=
    ⟨_, rfl, by decide, rfl⟩
  have hend : Stops Kind.ofChar ([] : List Char) := fun c hc => by cases hc
  refine fields_eq_some.2 (hecho.parses.2 ?_)
  rw [← List.append_nil s, hs.toPlain.parses hend, List.append_nil]
  exact ⟨denoted home s, [], by rw [value, hs.literal]; rfl, rfl, parses_nil.2 rfl⟩

/-! ### The replica of `.git` -/

theorem closes_slash (w r : List (Sym Char)) :
    closes Kind.ofChar (w ++ .bare '/' :: r) = closes Kind.ofChar w := by
  induction w with
  | nil => rfl
  | cons x w ih => rw [List.cons_append, closes, closes, ih]

theorem bracket_slash (w r : List (Sym Char)) :
    bracket Kind.ofChar (w ++ .bare '/' :: r) = bracket Kind.ofChar w := by
  rcases w with _ | ⟨x, _ | ⟨y, w⟩⟩
  · rfl
  · have hnil : closes Kind.ofChar (.bare '/' :: r) = false := rfl
    have hempty : closes Kind.ofChar [] = false := rfl
    have hslash : (Sym.bare '/').isBare Kind.ofChar .slash = true := rfl
    cases hx : x.isBare Kind.ofChar .bang <;> simp [bracket, hx, hnil, hempty, hslash]
  · have hrest := closes_slash w r
    have hnext := closes_slash (y :: w) r
    rw [List.cons_append] at hnext
    cases hx : x.isBare Kind.ofChar .bang <;> simp [bracket, hx, hrest, hnext]

theorem isPattern_slash (w r : List (Sym Char)) :
    isPattern Kind.ofChar (w ++ .bare '/' :: r) =
      (isPattern Kind.ofChar w || isPattern Kind.ofChar r) := by
  induction w with
  | nil => rfl
  | cons x w ih => simp only [List.cons_append, isPattern, ih, bracket_slash, Bool.or_assoc]

theorem replica_isWord (hp : IsWord p) : IsWord (replicaPath p) where
  ne_nil := by simp [replicaPath]
  inWord := by
    simp only [replicaPath, List.mem_append]
    rintro c (hc | hc)
    · exact hp.inWord c hc
    · exact List.all_eq_true.1
        (show (('/' :: ".git".toList).all fun c => (Kind.ofChar c).inWord) = true by decide) c hc
  hash := by
    obtain ⟨c, p, rfl⟩ := List.exists_cons_of_ne_nil hp.ne_nil
    exact hp.hash
  literal := by
    rw [replicaPath, List.map_append]
    exact (isPattern_slash _ (".git".toList.map .bare)).trans (by rw [hp.literal]; decide)

theorem replica_denoted (hhome : Homes home) (hne : p ≠ []) (hd : denoted home p = p) :
    denoted home (replicaPath p) = replicaPath p := by
  obtain ⟨name, rest, dir, heq, hdir, hrest, -⟩ | heq := denoted_cases home (replicaPath p)
  · -- the name ends before the slash, so the path itself would be expanded
    obtain ⟨hname, habs⟩ := hhome name dir hdir
    obtain ⟨c, p, rfl⟩ := List.exists_cons_of_ne_nil hne
    rw [replicaPath, List.cons_append] at heq
    obtain ⟨rfl, htail⟩ := List.cons.inj heq
    obtain ⟨r, rfl, hr⟩ : ∃ r, p = name ++ r ∧ ∀ c ∈ r.head?, c = '/' := by
      obtain ⟨r, rfl, h⟩ | ⟨r, rfl, rfl⟩ := List.append_eq_append_iff.1 htail
      · cases r with
        | nil => exact ⟨[], by simp, by simp⟩
        | cons d r =>
          obtain ⟨rfl, -⟩ := List.cons.inj h
          exact absurd rfl (hname '/' (by simp)).2
      · refine ⟨r, rfl, fun c hc => hrest c ?_⟩
        obtain ⟨r, rfl⟩ := List.head?_eq_some_iff.1 hc
        rfl
    have hexp : denoted home ('~' :: (name ++ r)) = dir ++ r := by
      rw [denoted, List.map_cons, List.map_append, expandTilde_name hhome hdir, text_map_bare]
      cases r <;> simp_all
    obtain ⟨d, rfl⟩ := List.head?_eq_some_iff.1 habs
    rw [hexp] at hd
    cases hd
  · exact heq

/-! ### What is read as the path is a word -/

/-- Where the text names an absolute path, a word that stands for it is not expanded. -/
theorem text_of_abs (hp : p.head? = some '/') (hread : Reads Kind.ofChar false (p ++ t) (g :: gs))
    (hg : expandTilde home g = p) : text g = p := by
  obtain ⟨d, rfl⟩ := List.head?_eq_some_iff.1 hp
  have hslash : Plain Kind.ofChar ['/'] :=
    ⟨by simp, by simp [Kind.ofChar, Kind.inWord], by simp [Kind.ofChar]⟩
  obtain ⟨g', rfl⟩ := hslash.reads hread
  exact hg

/-- The destination is read as one word, which stands for the path that it names. -/
theorem text_of_denoted (hhome : Homes home) (hread : Reads Kind.ofChar false s [g])
    (hg : expandTilde home g = denoted home s) : text g = s := by
  rw [← List.append_nil s] at hread
  obtain ⟨name, rest, dir, rfl, hdir, hrest, heq⟩ | heq := denoted_cases home s
  · -- what comes up to the slash after the name is read as it is
    obtain ⟨hname, -⟩ := hhome name dir hdir
    have hplain : ∀ r : List Char, (∀ c ∈ r, c = '/') → Plain Kind.ofChar ('~' :: (name ++ r)) := by
      refine fun r hr => ⟨by simp, ?_, by simp; decide⟩
      simp only [List.mem_cons, List.mem_append]
      rintro c (rfl | hc | hc)
      · rfl
      · exact (hname c hc).1
      · rw [hr c hc]
        rfl
    cases rest with
    | nil =>
      have hs := hplain [] (by simp)
      obtain ⟨gs, hgs, -⟩ := (reads_token (hs.scan false)
        (by simpa using fun c hc => class_bare (hs.inWord c hc)) (by simp) (by simp)
        (head_of_stops fun c hc => by cases hc)).1 hread
      rw [(List.cons.inj hgs).1, text_map_bare]
    | cons c rest =>
      obtain rfl : c = '/' := hrest c rfl
      have hline : '~' :: (name ++ '/' :: rest) ++ [] = '~' :: (name ++ ['/']) ++ rest := by simp
      rw [hline] at hread
      obtain ⟨g', rfl⟩ := (hplain ['/'] (by simp)).reads hread
      have hexp := expandTilde_name (r := .bare '/' :: g') hhome hdir (by simp)
      have hword : ('~' :: (name ++ ['/'])).map Sym.bare ++ g' =
          .bare '~' :: (name.map .bare ++ .bare '/' :: g') := by simp
      rw [hword, hexp, heq] at hg
      rw [text_append, text_map_bare, List.cons_append, List.append_assoc]
      exact congrArg (fun r => '~' :: (name ++ r)) (List.append_cancel_left hg)
  · -- the word is not expanded either, since a home directory is absolute
    rw [heq] at hg
    obtain ⟨name, rest, dir, rfl, hdir, -, hexp⟩ | htext := expandTilde_cases home g
    · obtain ⟨d, rfl⟩ := List.head?_eq_some_iff.1 (hhome name dir hdir).2
      refine text_of_abs ?_ hread hg
      rw [← hg, hexp]
      rfl
    · exact htext.symm.trans hg

theorem destination_isWord (hhome : Homes home)
    (h : fields Kind.ofChar (value home) ("echo ".toList ++ s) =
      some [word "echo", .word (denoted home s)]) : IsWord s := by
  have hecho : Leads Kind.ofChar (value home) "echo ".toList [word "echo"] :=
    ⟨_, rfl, by decide, rfl⟩
  have hs : Parses Kind.ofChar (value home) false s [.word (denoted home s)] :=
    hecho.parses.1 (fields_eq_some.1 h)
  obtain ⟨g, gs, hread, hword, hg, hgs⟩ := hs.first
  obtain rfl : gs = [] := by
    cases gs with
    | nil => rfl
    | cons g' gs =>
      grind [mapM_cons]
  obtain ⟨hpattern, hg⟩ := of_value hg
  have htext := text_of_denoted hhome hread hg
  have hend : Ends Kind.ofChar ([] : List Char) := fun c hc => by cases hc
  rw [← List.append_nil s] at hread
  have hbegins : Begins Kind.ofChar s := by
    by_contra hnot
    have hle := blanks_of_not_begins hnot hend hread (by simp)
      (by rw [List.forall_mem_singleton, hword]; simp)
    simp [htext] at hle
  obtain ⟨hplain, rfl⟩ := hbegins.plain hend hread hword htext
  exact ⟨hplain, hpattern⟩

theorem path_isWord (hhome : Homes home) (hs : IsWord s) {dirMode : ℕ}
    (h : fields Kind.ofChar (value home) (makeSyncRootCommand (denoted home s) dirMode) =
      some (rootTokens (denoted home s) dirMode)) : IsWord (denoted home s) := by
  obtain ⟨name, rest, dir, -, hdir, -, heq⟩ | heq := denoted_cases home s
  · -- the path is absolute
    have habs : (denoted home s).head? = some '/' := by
      grind [Homes]
    have htest : Leads Kind.ofChar (value home) "test -d ".toList [word "test", word "-d"] :=
      ⟨_, rfl, by decide, rfl⟩
    have hp := htest.parses.1 (fields_eq_some.1 h)
    obtain ⟨g, gs, hread, hword, hg, -⟩ := hp.first
    obtain ⟨hpattern, hg⟩ := of_value hg
    have htext := text_of_abs habs hread hg
    have hbegins : Begins Kind.ofChar (denoted home s) := by
      obtain ⟨d, hd⟩ := List.head?_eq_some_iff.1 habs
      intro i hscan
      rw [hd] at hscan
      obtain ⟨m, v, w, hstep, -, hnil⟩ := scan_cons.1 hscan
      cases hstep
      cases hnil
    obtain ⟨hplain, rfl⟩ := hbegins.plain (fun c hc => by cases hc; rfl) hread hword htext
    exact ⟨hplain, hpattern⟩
  · rwa [heq]

/-! ### The condition is what is needed -/

/-- Nothing but the newline is taken away if there is no white space at the ends. -/
theorem trimSpace_eq_iff (hne : p ≠ []) :
    Sync.trimSpace (String.ofList (p ++ ['\n'])) = String.ofList p ↔
      (∀ c ∈ p.head?, Sync.isSpace c = false) ∧ ∀ c ∈ p.getLast?, Sync.isSpace c = false := by
  simp only [Sync.trimSpace, String.toList_ofList, String.ofList_inj]
  constructor
  · intro h
    set l := (p ++ ['\n']).dropWhile Sync.isSpace with hl
    have hrev : l.reverse.dropWhile Sync.isSpace = p.reverse := by rw [← h, List.reverse_reverse]
    have hpre : p <+: l := by
      grind [List.dropWhile_suffix]
    obtain ⟨r, hr⟩ := hpre
    have hfirst := List.head?_dropWhile_not Sync.isSpace (p ++ ['\n'])
    have hlast := List.head?_dropWhile_not Sync.isSpace l.reverse
    rw [← hl, ← hr] at hfirst
    rw [hrev, List.head?_reverse] at hlast
    constructor
    · intro c hc
      obtain ⟨p, rfl⟩ := List.head?_eq_some_iff.1 hc
      simpa using hfirst
    · intro c hc
      rw [hc] at hlast
      simpa using hlast
  · rintro ⟨hleft, hright⟩
    have hhead : (p ++ ['\n']).dropWhile Sync.isSpace = p ++ ['\n'] := by
      refine List.dropWhile_eq_self_iff.2 fun _ => ?_
      cases p <;> simp_all
    have hlast : p.reverse.dropWhile Sync.isSpace = p.reverse := by
      refine List.dropWhile_eq_self_iff.2 fun _ => ?_
      simpa [List.getLast_eq_getElem] using hright _ (List.getLast?_eq_some_getLast hne)
    have hnl : Sync.isSpace '\n' = true := by decide
    rw [hhead, List.reverse_append, List.reverse_singleton, List.singleton_append,
      List.dropWhile_cons_of_pos hnl, hlast, List.reverse_reverse]

/-- **The commands get the path that the destination names, and nothing else, if and only if it is
usable.** -/
theorem path_is_data_iff (home : List Char → Option (List Char)) (hhome : Homes home)
    (toRemote : List Char) (dirMode replicaDirMode : ℕ) :
    AsData home toRemote dirMode replicaDirMode ↔ Usable home toRemote := by
  constructor
  · rintro ⟨hechoed, hresolved, hcreated, -⟩
    have hword := destination_isWord hhome hechoed
    have hpath := path_isWord hhome hword hcreated
    obtain ⟨out, hout, htrim⟩ := Option.map_eq_some_iff.1 hresolved
    unfold echo at hout
    split_ifs at hout with hnot
    cases hout
    obtain ⟨hleft, hright⟩ := (trimSpace_eq_iff hpath.ne_nil).1 htrim
    exact ⟨hword, hpath, fun h => hnot (.inl h), hleft, hright⟩
  · rintro ⟨hword, hpath, hoperand, hleft, hright⟩
    have hself := denoted_denoted hhome toRemote
    refine ⟨echo_parses hword, ?_, makeSyncRootCommand_parses hpath hself _,
      makeSyncRootCommand_parses (replica_isWord hpath) (replica_denoted hhome hpath.ne_nil hself) _⟩
    have hbackslash : '\\' ∉ denoted home toRemote := fun h => by
      have := hpath.inWord _ h
      cases this
    rw [echo, if_neg (by simp [hoperand, hbackslash]), Option.map_some,
      (trimSpace_eq_iff hpath.ne_nil).2 ⟨hleft, hright⟩]

def someHome (name : List Char) : Option (List Char) :=
  if name = [] then some "/home/u".toList else none

theorem someHome_homes : Homes someHome := by
  intro name dir h
  unfold someHome at h
  split_ifs at h with hname
  cases h
  subst hname
  exact ⟨by simp, by decide⟩

theorem path_is_data_iff_home :
    AsData someHome "~/src/app".toList 0o755 0o700 ↔ Usable someHome "~/src/app".toList :=
  path_is_data_iff someHome someHome_homes _ _ _

/-- A semicolon ends the command, and what follows is run. -/
theorem destination_runs_command :
    ¬ AsData someHome "/srv; reboot".toList 0o755 0o700 := by
  intro h
  have hechoed := h.echoed
  revert hechoed
  decide

end Graft.RemotePaths
