import Graft.Library.Location

/-!
# The commands of a remote (`collectExecutablesFromDirs` in `pkg/runtime.go`)

The remote daemon lists the directories of the `PATH` and takes each name that it has not seen
before, by the type and the mode of the directory entry.  For a symbolic link these are its own,
while a search along the `PATH` follows it.  Any bit for execution counts, while only one class of
them counts for the user who executes the file.
-/

namespace Graft.Commands

/-- Whose bits of a file count for the user. -/
inductive Class
  | root
  | owner
  | group
  | other
  deriving DecidableEq

/-- The bits with which the user may execute the file. -/
def Class.mask : Class → ℕ
  | root => 0o111
  | owner => 0o100
  | group => 0o010
  | other => 0o001

/-- What a path leads to when links are followed. -/
inductive Target
  | file (mode : ℕ) (cls : Class)
  | dir
  deriving DecidableEq

/-- An entry of a directory; the target of a link is `none` if it dangles. -/
inductive Entry
  | file (mode : ℕ) (cls : Class)
  | dir
  | link (mode : ℕ) (target : Option Target)
  deriving DecidableEq

/-- What can be the name of an entry. -/
def IsName (name : String) : Prop := Path.Name name.toList

instance (name : String) : Decidable (IsName name) := inferInstanceAs (Decidable (Path.Name _))

structure Directory where
  /-- `os.ReadDir` succeeds -/
  readable : Bool
  /-- the entries can be examined and executed -/
  searchable : Bool
  entries : List (String × Entry)
  nodup : (entries.map Prod.fst).Nodup
  isName : ∀ e ∈ entries, IsName e.1

abbrev FileSystem := String → Option Directory

/-- The test of the scan. -/
def executable (mode : ℕ) : Bool := mode &&& 0o111 ≠ 0

/-- The user may execute the file. -/
def Class.permits (cls : Class) (mode : ℕ) : Bool := mode &&& cls.mask ≠ 0

/-- The mode of `entry.Info()`, unless the entry is a directory. -/
def Entry.mode : Entry → Option ℕ
  | file mode _ => some mode
  | dir => none
  | link mode _ => some mode

/-- The entry leads to a file that the user may execute. -/
def Entry.runs : Entry → Bool
  | file mode cls | link _ (some (.file mode cls)) => cls.permits mode
  | dir | link _ _ => false

/-! ### The scan -/

/-- A command that was found; its path is what is collected. -/
structure Found where
  name : String
  dir : String
  deriving DecidableEq

def Found.path (f : Found) : List Char := Path.join f.dir.toList f.name.toList

structure Scan where
  seen : List String
  collected : List Found

/-- One entry of directory `dir`. -/
def scanEntry (dir : String) (d : Directory) (st : Scan) (entry : String × Entry) : Scan :=
  if entry.2.mode = none ∨ entry.1 ∈ st.seen then st
  else if !d.searchable || !entry.2.mode.any executable then st
  else ⟨entry.1 :: st.seen, st.collected ++ [⟨entry.1, dir⟩]⟩

def scanDir (fs : FileSystem) (st : Scan) (dir : String) : Scan :=
  match fs dir with
  | none => st
  | some d => if d.readable then d.entries.foldl (scanEntry dir d) st else st

def collected (fs : FileSystem) (dirs : List String) : List Found :=
  (dirs.foldl (scanDir fs) ⟨[], []⟩).collected

def collectExecutablesFromDirs (fs : FileSystem) (dirs : List String) : List (List Char) :=
  (collected fs dirs).map Found.path

/-! ### The search -/

/-- The directory has an entry of that name that leads to a file that the user may execute. -/
def FileSystem.runs (fs : FileSystem) (name dir : String) : Bool :=
  (fs dir).any fun d => d.searchable && d.entries.any fun e => e.1 = name && e.2.runs

/-- The first directory where a search along the list finds the name. -/
def search (fs : FileSystem) (dirs : List String) (name : String) : Option String :=
  dirs.find? (fs.runs name)

/-- The paths that are collected are those that a search for some name would execute, each once. -/
def Exact (fs : FileSystem) (dirs : List String) : Prop :=
  (collectExecutablesFromDirs fs dirs).Nodup ∧ ∀ path, path ∈ collectExecutablesFromDirs fs dirs ↔
    ∃ name dir, search fs dirs name = some dir ∧ Found.path ⟨name, dir⟩ = path

/-- The entry is judged wrongly: it would be executed, but the directory cannot be listed; or it is a
file with a bit for execution that does not count for the user; or it is a link that is executable
when what it leads to is not, or the other way. -/
def Directory.misjudges (d : Directory) (e : Entry) : Prop :=
  if d.readable then
    match e with
    | .file mode cls => executable mode = true ∧ cls.permits mode = false
    | .dir => False
    | .link mode _ => executable mode = true ↔ e.runs = false
  else e.runs = true

def Misjudged (fs : FileSystem) (name dir : String) : Prop :=
  ∃ d, fs dir = some d ∧ d.searchable = true ∧ ∃ e, (name, e) ∈ d.entries ∧ d.misjudges e

/-- The scan takes the name in the directory, if it has not seen it. -/
def FileSystem.takes (fs : FileSystem) (name dir : String) : Bool :=
  (fs dir).any fun d => d.readable && d.searchable &&
    d.entries.any fun e => e.1 = name && e.2.mode.any executable

variable {fs : FileSystem} {dirs : List String} {name dir : String}

/-- What the scan has: a name is seen exactly if it was collected, once. -/
structure Scan.Consistent (st : Scan) : Prop where
  seen : ∀ n, n ∈ st.seen ↔ n ∈ st.collected.map Found.name
  nodup : (st.collected.map Found.name).Nodup

/-- **The entries of a directory**: those names are new that the scan takes and has not seen. -/
theorem foldl_scanEntry (dir : String) (d : Directory) (es : List (String × Entry)) {st : Scan}
    (h : st.Consistent) :
    (es.foldl (scanEntry dir d) st).Consistent ∧
      ∀ f, f ∈ (es.foldl (scanEntry dir d) st).collected ↔ f ∈ st.collected ∨ f.dir = dir ∧
        f.name ∉ st.seen ∧ d.searchable = true ∧ ∃ e, (f.name, e) ∈ es ∧ e.mode.any executable := by
  induction es generalizing st with
  | nil => simp [h]
  | cons x es ih =>
    obtain ⟨name, e⟩ := x
    rw [List.foldl_cons]
    by_cases hskip : name ∈ st.seen ∨ d.searchable = false ∨ e.mode.any executable = false
    · -- nothing is collected
      have hstep : scanEntry dir d st (name, e) = st := by
        unfold scanEntry
        cases hmode : e.mode <;> grind
      rw [hstep]
      refine ⟨(ih h).1, fun f => ?_⟩
      rw [(ih h).2]
      grind
    · have hstep : scanEntry dir d st (name, e) =
          ⟨name :: st.seen, st.collected ++ [⟨name, dir⟩]⟩ := by
        unfold scanEntry
        cases hmode : e.mode <;> grind
      have hnew : name ∉ st.collected.map Found.name := by
        rw [← h.seen]
        exact fun hx => hskip (.inl hx)
      have hconsistent : Scan.Consistent ⟨name :: st.seen, st.collected ++ [⟨name, dir⟩]⟩ := by
        refine ⟨fun n => ?_, ?_⟩
        · simp [h.seen, or_comm]
        · rw [List.map_append, List.nodup_append]
          exact ⟨h.nodup, List.nodup_singleton _, by grind⟩
      rw [hstep]
      refine ⟨(ih hconsistent).1, fun f => ?_⟩
      rw [(ih hconsistent).2]
      obtain ⟨n, dir'⟩ := f
      simp only [List.mem_append, Found.mk.injEq, List.mem_cons]
      grind

theorem scanDir_spec (fs : FileSystem) {st : Scan} (h : st.Consistent) (dir : String) :
    (scanDir fs st dir).Consistent ∧ ∀ f, f ∈ (scanDir fs st dir).collected ↔
      f ∈ st.collected ∨ f.dir = dir ∧ f.name ∉ st.seen ∧ fs.takes f.name dir = true := by
  unfold scanDir FileSystem.takes
  cases fs dir with
  | none => simp [h]
  | some d =>
    cases hread : d.readable with
    | false => simp [h, hread]
    | true =>
      obtain ⟨hconsistent, hmem⟩ := foldl_scanEntry dir d d.entries h
      simp only [hread, if_true]
      refine ⟨hconsistent, fun f => (hmem f).trans ?_⟩
      simp [hread]

/-- **The whole scan** takes each name in the first directory that has it. -/
theorem foldl_scanDir (fs : FileSystem) (dirs : List String) {st : Scan} (h : st.Consistent) :
    (dirs.foldl (scanDir fs) st).Consistent ∧
      ∀ f, f ∈ (dirs.foldl (scanDir fs) st).collected ↔ f ∈ st.collected ∨
        f.name ∉ st.seen ∧ dirs.find? (fs.takes f.name) = some f.dir := by
  induction dirs generalizing st with
  | nil => simp [h]
  | cons dir dirs ih =>
    obtain ⟨hconsistent, hdir⟩ := scanDir_spec fs h dir
    obtain ⟨hfinal, hmem⟩ := ih hconsistent
    refine ⟨hfinal, fun f => ?_⟩
    have hseen : f.name ∈ (scanDir fs st dir).seen ↔
        f.name ∈ st.seen ∨ fs.takes f.name dir = true := by
      rw [hconsistent.seen, h.seen]
      constructor
      · intro hx
        obtain ⟨g, hg, hgf⟩ := List.mem_map.1 hx
        rw [← hgf]
        exact ((hdir g).1 hg).imp (List.mem_map_of_mem) fun hg => hg.2.2
      · by_cases hold : f.name ∈ st.collected.map Found.name
        · obtain ⟨g, hg, hgf⟩ := List.mem_map.1 hold
          exact fun _ => List.mem_map.2 ⟨g, (hdir g).2 (.inl hg), hgf⟩
        · exact fun hx => List.mem_map.2 ⟨⟨f.name, dir⟩, (hdir _).2 (.inr
            ⟨rfl, fun hs => hold ((h.seen _).1 hs), hx.resolve_left hold⟩), rfl⟩
    rw [List.foldl_cons, hmem, hdir, hseen, List.find?_cons]
    cases htakes : fs.takes f.name dir <;> grind

theorem collected_spec (fs : FileSystem) (dirs : List String) :
    ((collected fs dirs).map Found.name).Nodup ∧ ∀ name dir,
      ⟨name, dir⟩ ∈ collected fs dirs ↔ dirs.find? (fs.takes name) = some dir := by
  have hinit : Scan.Consistent ⟨[], []⟩ := ⟨by simp, List.nodup_nil⟩
  obtain ⟨hconsistent, hmem⟩ := foldl_scanDir fs dirs hinit
  refine ⟨hconsistent.nodup, fun name dir => (hmem ⟨name, dir⟩).trans ?_⟩
  simp

/-- Their paths are those of the names that the scan takes somewhere. -/
theorem mem_collectExecutablesFromDirs {path : List Char} :
    path ∈ collectExecutablesFromDirs fs dirs ↔
      ∃ name dir, dirs.find? (fs.takes name) = some dir ∧ Found.path ⟨name, dir⟩ = path := by
  simp only [← (collected_spec fs dirs).2]
  rw [collectExecutablesFromDirs, List.mem_map]
  exact ⟨fun ⟨⟨name, dir⟩, hf, hpath⟩ => ⟨name, dir, hf, hpath⟩,
    fun ⟨name, dir, hf, hpath⟩ => ⟨⟨name, dir⟩, hf, hpath⟩⟩

/-! ### Paths -/

theorem isName_of_takes (h : fs.takes name dir = true) : IsName name := by
  simp only [FileSystem.takes, Option.any_eq_true, Bool.and_eq_true, List.any_eq_true,
    decide_eq_true_eq] at h
  obtain ⟨d, -, -, e, he, rfl, -⟩ := h
  exact d.isName e he

theorem isName_of_runs (h : fs.runs name dir = true) : IsName name := by
  simp only [FileSystem.runs, Option.any_eq_true, Bool.and_eq_true, List.any_eq_true,
    decide_eq_true_eq] at h
  obtain ⟨d, -, -, e, he, rfl, -⟩ := h
  exact d.isName e he

/-- The path ends in the name. -/
theorem head?_stack_path (h : IsName name) (dir : String) :
    (Path.stack (Found.path ⟨name, dir⟩)).head? = some name.toList := by
  have helements : Path.elements name.toList = [name.toList] := by
    have happend : Path.elements (name.toList ++ Path.below []) = name.toList :: [] :=
      Path.elements_append_below h.2.2.2 (by simp)
    simpa using happend
  unfold Found.path Path.join
  by_cases hdir : dir.toList = []
  · rw [if_neg (not_not.2 hdir), if_pos h.1, Path.stack_clean, Path.stack, helements]
    simp [Path.push_name h]
  · rw [if_pos hdir, Path.stack_clean, Path.stack_append hdir, helements]
    simp [Path.push_name h]

theorem name_of_path {name' dir' : String} (h : IsName name) (h' : IsName name')
    (heq : Found.path ⟨name, dir⟩ = Found.path ⟨name', dir'⟩) : name = name' := by
  have hhead := head?_stack_path h dir
  rw [heq, head?_stack_path h' dir'] at hhead
  exact (String.toList_inj.1 (Option.some.inj hhead)).symm

theorem nodup_collectExecutablesFromDirs (fs : FileSystem) (dirs : List String) :
    (collectExecutablesFromDirs fs dirs).Nodup := by
  obtain ⟨hnodup, hmem⟩ := collected_spec fs dirs
  have hname : ∀ f ∈ collected fs dirs, IsName f.name := fun f hf =>
    isName_of_takes (List.find?_some ((hmem f.name f.dir).1 hf))
  refine List.Nodup.map_on (fun f hf g hg heq => ?_) (List.Nodup.of_map _ hnodup)
  exact List.inj_on_of_nodup_map hnodup hf hg (name_of_path (hname f hf) (hname g hg) heq)

/-! ### The two compared -/

/-- Two searches of one list find the same, up to a key, exactly if at the first place where one of
them stops, both do, or the other one stops next at the same key. -/
theorem find?_map_eq_iff {α β : Type*} {p q : α → Bool} {key : α → β} {l : List α} :
    (l.find? p).map key = (l.find? q).map key ↔ ∀ before a after, l = before ++ a :: after →
      (∀ b ∈ before, p b = false ∧ q b = false) → p a ≠ q a →
        (after.find? (if p a then q else p)).map key = some (key a) := by
  induction l with
  | nil => simp
  | cons x l ih =>
    -- a split of the longer list is at its head, or is one of the rest
    have hsplit : (∀ before a after, x :: l = before ++ a :: after →
        (∀ b ∈ before, p b = false ∧ q b = false) → p a ≠ q a →
          (after.find? (if p a then q else p)).map key = some (key a)) ↔
        (p x ≠ q x → (l.find? (if p x then q else p)).map key = some (key x)) ∧
        (p x = false → q x = false → (l.find? p).map key = (l.find? q).map key) := by
      rw [ih]
      constructor
      · intro h
        refine ⟨h [] x l rfl (by simp), fun hp hq before a after hl hbefore => ?_⟩
        exact h (x :: before) a after (by rw [hl]; rfl) (by simpa [hp, hq] using hbefore)
      · rintro ⟨hhead, hrest⟩ before a after hl hbefore
        cases before with
        | nil =>
          obtain ⟨rfl, rfl⟩ := List.cons.inj hl
          exact hhead
        | cons y before =>
          obtain ⟨rfl, rfl⟩ := List.cons.inj hl
          obtain ⟨hp, hq⟩ := hbefore x List.mem_cons_self
          exact hrest hp hq before a after rfl fun b hb => hbefore b (List.mem_cons_of_mem x hb)
    rw [hsplit, List.find?_cons, List.find?_cons]
    cases p x <;> cases q x <;> simp [eq_comm]

theorem Directory.any_entries (d : Directory) {e : Entry} (he : (name, e) ∈ d.entries)
    (p : Entry → Bool) : (d.entries.any fun x => x.1 = name && p x.2) = p e := by
  have hunique : ∀ x ∈ d.entries, x.1 = name → x = (name, e) :=
    fun x hx hname => List.inj_on_of_nodup_map d.nodup hx he hname
  rw [Bool.eq_iff_iff, List.any_eq_true]
  constructor
  · rintro ⟨x, hx, hp⟩
    simp only [Bool.and_eq_true, decide_eq_true_eq] at hp
    rw [hunique x hx hp.1] at hp
    exact hp.2
  · exact fun hp => ⟨_, he, by simp [hp]⟩

theorem executable_of_permits {cls : Class} {mode : ℕ} (h : cls.permits mode = true) :
    executable mode = true := by
  have hmask : cls.mask = 0o111 &&& cls.mask := by cases cls <;> rfl
  simp only [Class.permits, executable, decide_eq_true_eq] at h ⊢
  intro hzero
  rw [hmask, ← Nat.and_assoc, hzero, Nat.zero_and] at h
  exact h rfl

theorem takes_ne_runs_iff : fs.takes name dir ≠ fs.runs name dir ↔ Misjudged fs name dir := by
  unfold FileSystem.takes FileSystem.runs Misjudged
  cases hdir : fs dir with
  | none => simp
  | some d =>
    by_cases hentry : ∃ e, (name, e) ∈ d.entries
    · obtain ⟨e, he⟩ := hentry
      have hwhich : (∃ e', (name, e') ∈ d.entries ∧ d.misjudges e') ↔ d.misjudges e := by
        refine ⟨?_, fun hP => ⟨e, he, hP⟩⟩
        rintro ⟨e', he', hP⟩
        have heq := List.inj_on_of_nodup_map d.nodup he' he rfl
        rwa [(Prod.mk.inj heq).2] at hP
      have htakes := d.any_entries he (·.mode.any executable)
      have hruns := d.any_entries he Entry.runs
      simp only [Option.any_some, htakes, hruns, Option.some.injEq, exists_eq_left', hwhich]
      unfold Directory.misjudges
      cases hread : d.readable <;> cases hsearch : d.searchable <;> cases e <;>
        simp [Entry.mode, Entry.runs]
      · grind [executable_of_permits]
      · grind
    · have hnone : ∀ p : Entry → Bool, (d.entries.any fun x => x.1 = name && p x.2) = false := by
        intro p
        rw [List.any_eq_false]
        rintro ⟨n, e⟩ hx hp
        simp only [Bool.and_eq_true, decide_eq_true_eq] at hp
        exact hentry ⟨e, hp.1 ▸ hx⟩
      have htakes := hnone (·.mode.any executable)
      have hruns := hnone Entry.runs
      simp only [Option.any_some, htakes, hruns, Bool.and_false, ne_eq, not_true_eq_false, false_iff]
      rintro ⟨d', hd', -, e, he, -⟩
      cases hd'
      exact hentry ⟨e, he⟩

/-- A directory with a link `tool` to a directory and a file `own` that its owner may not execute,
before one with a `tool` and an `own` that can be executed. -/
def linkedFs : FileSystem
  | "/a" => some ⟨true, true, [("own", .file 0o610 .owner), ("tool", .link 0o777 (some .dir))],
      by decide, by decide +kernel⟩
  | "/b" => some ⟨true, true, [("own", .file 0o755 .owner), ("tool", .file 0o755 .other)],
      by decide, by decide +kernel⟩
  | _ => none

end Graft.Commands
