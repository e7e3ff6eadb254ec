import Mathlib.Data.List.Sort
import Graft.Command.StateFile

/-!
# Forgetting exited commands (`CommandRegistry.ReapExited`)

The output of a command that has exited is kept for a late `attach`, as long as all commands
together retain no more than a budget.  Over budget, the exited commands without a client are
forgotten in the order of their exits.  The registry is the one of `StateFile`; its table is a Go
map, so the first loop meets the commands in any order.
-/

namespace Graft

def OutputRing.retainedBytes (r : OutputRing) : ℤ := r.buf.length

namespace StateFile

abbrev Listed := (_ : CommandId) × ℕ

/-- `reapCandidate`.  The ids are texts of eight hexadecimal digits, which are ordered as the
numbers they stand for. -/
structure ReapCandidate where
  id : CommandId
  exitedAt : ℤ
  retained : ℤ

/-- The order of `slices.SortFunc`. -/
def ReapCandidate.Le (a b : ReapCandidate) : Prop :=
  a.exitedAt < b.exitedAt ∨ a.exitedAt = b.exitedAt ∧ a.id ≤ b.id

instance : DecidableRel ReapCandidate.Le := fun _ _ => inferInstanceAs (Decidable (_ ∨ _))

instance : Std.Total ReapCandidate.Le where
  total a b := by
    simp only [ReapCandidate.Le, BitVec.le_def]
    omega

instance : IsTrans ReapCandidate ReapCandidate.Le where
  trans a b c hab hbc := by
    simp only [ReapCandidate.Le, BitVec.le_def] at *
    omega

/-- The second loop: `total` is what is retained by the commands that are left. -/
def reapLoop (budget : ℤ) : List ReapCandidate → ℤ → State → Bool → State × Bool
  | [], _, w, removed => (w, removed)
  | candidate :: candidates, total, w, removed =>
    if total ≤ budget then (w, removed)
    else reapLoop budget candidates (total - candidate.retained)
      { w with commands := w.commands.erase candidate.id } true

section

-- the times of the exits
variable (w : State) (exitedAt : ℕ → ℤ)

def State.retained (c : ℕ) : ℤ :=
  ((w.commandOf c).managed.rings .stdout).retainedBytes
    + ((w.commandOf c).managed.rings .stderr).retainedBytes

def State.reapable (c : ℕ) : Bool :=
  (w.commandOf c).managed.exited && (w.commandOf c).managed.current.isNone

def State.candidate (e : Listed) : ReapCandidate := ⟨e.1, exitedAt e.2, w.retained e.2⟩

/-- The first loop, over the table in some order: what all commands retain, and the candidates. -/
def State.survey (order : List Listed) : ℤ × List ReapCandidate :=
  order.foldl
    (fun acc e =>
      (acc.1 + w.retained e.2,
        if w.reapable e.2 then acc.2 ++ [w.candidate exitedAt e] else acc.2))
    (0, [])

def State.reapExited (budget : ℤ) (order : List Listed) : State :=
  let (total, candidates) := w.survey exitedAt order
  if total ≤ budget then w
  else
    let (w', removed) := reapLoop budget (candidates.insertionSort ReapCandidate.Le) total w false
    if removed then w'.write none else w'

def State.retainedBy (es : List Listed) : ℤ := (es.map fun e => w.retained e.2).sum

def State.reapables : List Listed := w.commands.entries.filter fun e => w.reapable e.2

/-- The command exited earlier, or at the same time and has the smaller id. -/
def Before (e f : Listed) : Prop :=
  exitedAt e.2 < exitedAt f.2 ∨ exitedAt e.2 = exitedAt f.2 ∧ e.1 < f.1

def State.without (es : List Listed) : State :=
  { w with commands := es.foldl (fun t e => t.erase e.1) w.commands }

end

@[simp] theorem State.retainedBy_nil (w : State) : w.retainedBy [] = 0 := rfl

@[simp] theorem State.retainedBy_cons (w : State) (e : Listed) (es : List Listed) :
    w.retainedBy (e :: es) = w.retained e.2 + w.retainedBy es := rfl

/-! ### The loops -/

section

variable (w : State) (exitedAt : ℕ → ℤ)

theorem survey_eq (order : List Listed) :
    w.survey exitedAt order
      = (w.retainedBy order,
        (order.filter fun e => w.reapable e.2).map (w.candidate exitedAt)) := by
  have hloop : ∀ (order : List Listed) (total : ℤ) (candidates : List ReapCandidate),
      order.foldl
        (fun acc e =>
          (acc.1 + w.retained e.2,
            if w.reapable e.2 then acc.2 ++ [w.candidate exitedAt e] else acc.2))
        (total, candidates)
        = (total + w.retainedBy order, candidates ++
          (order.filter fun e => w.reapable e.2).map (w.candidate exitedAt)) := by
    intro order
    induction order with
    | nil => simp
    | cons e order ih =>
      intro total candidates
      rw [List.foldl_cons, ih]
      by_cases he : w.reapable e.2 = true
      · simp [he, add_assoc]
      · simp [he, add_assoc]
  grind [State.survey]

/-- The second loop forgets candidates from the front, for as long as the rest is over budget. -/
theorem reapLoop_eq (budget : ℤ) (queue : List Listed) (total : ℤ) (w' : State) (removed : Bool) :
    ∃ n ≤ queue.length,
      reapLoop budget (queue.map (w.candidate exitedAt)) total w' removed
        = (w'.without (queue.take n), removed || decide (n ≠ 0)) ∧
      (∀ m < n, budget < total - w.retainedBy (queue.take m)) ∧
      (n = queue.length ∨ total - w.retainedBy (queue.take n) ≤ budget) := by
  induction queue generalizing total w' removed with
  | nil => exact ⟨0, le_rfl, by simp [reapLoop, State.without], by simp, .inl rfl⟩
  | cons e queue ih =>
    rw [List.map_cons, reapLoop]
    split_ifs with htotal
    · exact ⟨0, Nat.zero_le _, by simp [State.without], by simp,
        .inr (by simpa using htotal)⟩
    · obtain ⟨n, hn, hloop, hover, hend⟩ :=
        ih (total - w.retained e.2) { w' with commands := w'.commands.erase e.1 } true
      have hsum : ∀ m, w.retainedBy ((e :: queue).take (m + 1))
          = w.retained e.2 + w.retainedBy (queue.take m) := fun m => by simp
      refine ⟨n + 1, Nat.succ_le_succ hn, ?_, ?_, ?_⟩
      · refine hloop.trans ?_
        simp [State.without]
      · intro m hm
        cases m with
        | zero => simpa using htotal
        | succ m =>
          grind
      · grind

theorem exists_queue (es : List Listed) (hes : es.NodupKeys) :
    ∃ queue : List Listed, queue.Perm es ∧ queue.Pairwise (Before exitedAt) ∧
      (es.map (w.candidate exitedAt)).insertionSort ReapCandidate.Le
        = queue.map (w.candidate exitedAt) := by
  let le : Listed → Listed → Prop :=
    fun e f => (w.candidate exitedAt e).Le (w.candidate exitedAt f)
  have hperm : (es.insertionSort le).Perm es := List.perm_insertionSort le es
  refine ⟨es.insertionSort le, hperm, ?_, ?_⟩
  · have hsorted : (es.insertionSort le).Pairwise le := by
      have : Std.Total le := ⟨fun e f => Std.Total.total (r := ReapCandidate.Le) _ _⟩
      have : IsTrans Listed le := ⟨fun e f g => IsTrans.trans (r := ReapCandidate.Le) _ _ _⟩
      exact List.pairwise_insertionSort le es
    -- no two commands have the same id
    have hids : (es.insertionSort le).Pairwise fun e f => e.1 ≠ f.1 :=
      List.nodupKeys_iff_pairwise.1 ((List.perm_nodupKeys hperm).2 hes)
    refine hsorted.imp₂ (fun e f hle hne => ?_) hids
    obtain hlt | ⟨heq, hid⟩ := hle
    · exact .inl hlt
    · refine .inr ⟨heq, BitVec.lt_def.2 (lt_of_le_of_ne (BitVec.le_def.1 hid) fun h => ?_)⟩
      exact hne (BitVec.eq_of_toNat_eq h)
  · exact (List.map_insertionSort le ReapCandidate.Le (w.candidate exitedAt) es
      fun _ _ _ _ => Iff.rfl).symm

/-! ### The table -/

theorem lookup_without (es : List Listed) (id : CommandId) :
    (w.without es).commands.lookup id
      = if id ∈ es.map Sigma.fst then none else w.commands.lookup id := by
  have hloop : ∀ (es : List Listed) (t : AList fun _ : CommandId => ℕ),
      (es.foldl (fun t e => t.erase e.1) t).lookup id
        = if id ∈ es.map Sigma.fst then none else t.lookup id := by
    intro es
    induction es with
    | nil => simp
    | cons e es ih =>
      intro t
      rw [List.foldl_cons, ih, List.map_cons]
      by_cases hid : id = e.1
      · grind [AList.lookup_erase]
      · rw [AList.lookup_erase_ne hid]
        simp only [List.mem_cons, hid, false_or]
  exact hloop es w.commands

theorem without_eq_deleteAll (es : List Listed) (hids : ∀ e ∈ es, (w.commandOf e.2).id = e.1) :
    w.without es = w.deleteAll (es.map Sigma.snd) := by
  induction es generalizing w with
  | nil => rfl
  | cons e es ih =>
    have hself : (w.commandOf e.2).id = e.1 := hids e List.mem_cons_self
    have hrest := ih (w.delete e.2) fun f hf => hids f (List.mem_cons_of_mem e hf)
    rw [List.map_cons, State.deleteAll, List.foldl_cons, ← State.deleteAll, ← hrest]
    simp only [State.without, State.delete, hself, List.foldl_cons]

/-- What `ReapExited` does, given the order in which the loop meets the commands. -/
theorem reapExited_eq (budget : ℤ) {order : List Listed} (horder : order.Perm w.commands.entries) :
    (w.retainedBy w.commands.entries ≤ budget → w.reapExited exitedAt budget order = w) ∧
      ∃ queue : List Listed, queue.Perm w.reapables ∧ queue.Pairwise (Before exitedAt) ∧
        ∃ n ≤ queue.length,
          w.reapExited exitedAt budget order
            = (if n = 0 then w else (w.without (queue.take n)).write none) ∧
          (∀ m < n, budget < w.retainedBy w.commands.entries - w.retainedBy (queue.take m)) ∧
          (n = queue.length ∨
            w.retainedBy w.commands.entries - w.retainedBy (queue.take n) ≤ budget) := by
  have htotal : w.retainedBy order = w.retainedBy w.commands.entries := (horder.map _).sum_eq
  have hfilter : (order.filter fun e => w.reapable e.2).Perm w.reapables := horder.filter _
  have hnodup : (order.filter fun e => w.reapable e.2).NodupKeys :=
    ((List.perm_nodupKeys horder).2 w.commands.nodupKeys).sublist List.filter_sublist
  obtain ⟨queue, hqueue, hsorted, hsort⟩ := exists_queue w exitedAt _ hnodup
  obtain ⟨n, hn, hloop, hover, hend⟩ :=
    reapLoop_eq w exitedAt budget queue (w.retainedBy w.commands.entries) w false
  simp only [State.reapExited, survey_eq, htotal, hsort]
  constructor
  · simp_all
  · refine ⟨queue, hqueue.trans hfilter, hsorted, n, hn, ?_, hover, hend⟩
    rw [hloop]
    cases n with
    | zero =>
      rw [if_pos rfl]
      exact ite_self w
    | succ n =>
      have hover' : ¬ w.retainedBy w.commands.entries ≤ budget := by
        simpa using hover 0 (Nat.succ_pos n)
      rw [if_neg hover', if_neg (Nat.succ_ne_zero n)]
      rfl

/-- **`ReapExited` forgets the fewest commands, oldest exit first.**  Within budget it does nothing.
Otherwise the commands that are forgotten are the first `n` in the queue of the exited commands
without a client, in the order of exit and id: with fewer, what is left is over budget, and with
these it is not, or they are all there are.  No command that runs or has a client is forgotten. -/
theorem reapExited_shortest (budget : ℤ) {order : List Listed}
    (horder : order.Perm w.commands.entries) :
    (w.retainedBy w.commands.entries ≤ budget → w.reapExited exitedAt budget order = w) ∧
      (∃ queue : List Listed, queue.Perm w.reapables ∧ queue.Pairwise (Before exitedAt) ∧
        ∃ n ≤ queue.length,
          (∀ id, (w.reapExited exitedAt budget order).commands.lookup id
            = if id ∈ (queue.take n).map Sigma.fst then none else w.commands.lookup id) ∧
          (∀ m < n, budget < w.retainedBy w.commands.entries - w.retainedBy (queue.take m)) ∧
          (n = queue.length ∨
            w.retainedBy w.commands.entries - w.retainedBy (queue.take n) ≤ budget)) ∧
      ∀ id c, w.commands.lookup id = some c →
        ((w.commandOf c).managed.exited = false ∨ (w.commandOf c).managed.current ≠ none) →
        (w.reapExited exitedAt budget order).commands.lookup id = some c := by
  obtain ⟨hwithin, queue, hqueue, hsorted, n, hn, heq, hover, hend⟩ :=
    reapExited_eq w exitedAt budget horder
  have hlookup : ∀ id, (w.reapExited exitedAt budget order).commands.lookup id
      = if id ∈ (queue.take n).map Sigma.fst then none else w.commands.lookup id := by
    intro id
    rw [heq]
    split_ifs with hzero hmem hmem
    · simp_all
    · rfl
    · exact (lookup_without w _ id).trans (if_pos hmem)
    · exact (lookup_without w _ id).trans (if_neg hmem)
  refine ⟨hwithin, ⟨queue, hqueue, hsorted, n, hn, hlookup, hover, hend⟩, ?_⟩
  intro id c hid hc
  rw [hlookup, if_neg, hid]
  intro hmem
  obtain ⟨e, he, rfl⟩ := List.mem_map.1 hmem
  have hreapable : e ∈ w.reapables := hqueue.subset (List.mem_of_mem_take he)
  obtain ⟨hentry, hreap⟩ := List.mem_filter.1 hreapable
  -- the table has one command under each id
  have hself : e.2 = c := Option.some.inj ((AList.mem_lookup_iff.2 hentry).symm.trans hid)
  rw [hself, State.reapable, Bool.and_eq_true, Option.isNone_iff_eq_none] at hreap
  obtain hrunning | hclient := hc
  · rw [hrunning] at hreap
    cases hreap.1
  · exact hclient hreap.2

/-- Seen from the file of running commands, `ReapExited` does nothing, or takes exited commands without
a client out of the table. -/
theorem reapExited_refines (h : Table w) (hwriting : w.writing = none) (budget : ℤ)
    {order : List Listed} (horder : order.Perm w.commands.entries) :
    w.reapExited exitedAt budget order = w ∨
      ∃ cs, Event.Enabled w (.reapExited cs) ∧ (∀ c ∈ cs, w.reapable c = true) ∧
        w.reapExited exitedAt budget order = Event.fire w (.reapExited cs) := by
  obtain ⟨-, queue, hqueue, -, n, hn, heq, -⟩ := reapExited_eq w exitedAt budget horder
  have hentry : ∀ e ∈ queue, w.commands.lookup e.1 = some e.2 ∧ w.reapable e.2 = true := by
    intro e he
    obtain ⟨hentry, hreap⟩ := List.mem_filter.1 (hqueue.subset he)
    exact ⟨AList.mem_lookup_iff.2 hentry, hreap⟩
  cases n with
  | zero => exact .inl (heq.trans (if_pos rfl))
  | succ n =>
    have hreapable : ∀ c ∈ (queue.take (n + 1)).map Sigma.snd, w.reapable c = true := by
      intro c hc
      obtain ⟨e, he, rfl⟩ := List.mem_map.1 hc
      exact (hentry e (List.mem_of_mem_take he)).2
    refine .inr ⟨(queue.take (n + 1)).map Sigma.snd, ⟨hwriting, ?_, ?_⟩, hreapable, ?_⟩
    · grind [List.length_map]
    · intro c hc
      obtain ⟨e, he, rfl⟩ := List.mem_map.1 hc
      obtain ⟨hlookup, hreap⟩ := hentry e (List.mem_of_mem_take he)
      obtain ⟨hcount, hid⟩ := h.holder hlookup
      grind [State.reapable]
    · rw [heq, if_neg (Nat.succ_ne_zero n)]
      refine congrArg (State.write · none) ?_
      have hids : ∀ e ∈ queue.take (n + 1), (w.commandOf e.2).id = e.1 :=
        fun e he => (h.holder (hentry e (List.mem_of_mem_take he)).1).2
      exact without_eq_deleteAll w _ hids

end

/-! ### Three commands, of which the middle one has a client -/

/-- A command that has exited and retains some bytes. -/
def exitedCommand (id : CommandId) (buf : List Byte) (current : Option ℕ) : Command where
  id := id
  managed :=
    { ManagedCommand.register ⟨.keep, fun _ => 0, zero_capacity_lt⟩ true with
      rings := fun fd => { OutputRing.new 1024 with buf := if fd = .stdout then buf else [] }
      exited := true
      current := current }
  reaper := .done
  returned := true

def threeExited : State :=
  { State.init with
    commandOf := fun c => exitedCommand c [0, 0] (if c = 1 then some 7 else none)
    count := 3
    commands := ((∅ : AList fun _ : CommandId => ℕ).insert 0 0).insert 1 1 |>.insert 2 2 }

/-- `ReapExited` on these commands, which exited one after another. -/
def reapThree (budget : ℤ) : State :=
  threeExited.reapExited (fun c => c) budget threeExited.commands.entries

/-- Over budget, the oldest exit goes, and then the newest; the command with a client stays. -/
theorem reapExited_shortest_client :
    (reapThree 5).commands.lookup 0 = none ∧ (reapThree 5).commands.lookup 2 = some 2 ∧
      (reapThree 0).commands.lookup 2 = none ∧ (reapThree 0).commands.lookup 1 = some 1 := by
  refine ⟨by decide, by decide, by decide, ?_⟩
  exact (reapExited_shortest threeExited (fun c => c) 0 (.refl _)).2.2 1 1 (by decide)
    (.inr (by decide))

theorem threeExited_table : Table threeExited where
  holder {id c} hlookup := by
    have hentries : threeExited.commands.entries = [⟨2, 2⟩, ⟨1, 1⟩, ⟨0, 0⟩] := by decide
    have hmem := AList.mem_lookup_iff.1 hlookup
    rw [hentries] at hmem
    simp only [List.mem_cons, List.not_mem_nil, or_false, Sigma.mk.injEq, heq_eq_eq] at hmem
    rcases hmem with ⟨rfl, rfl⟩ | ⟨rfl, rfl⟩ | ⟨rfl, rfl⟩ <;> decide
  exited _ _ := nofun
  listed c hc := absurd hc.2 (by simp [threeExited, exitedCommand])
  file c hc := absurd hc.2 (by simp [threeExited, exitedCommand])

/-- The refinement when one command is forgotten. -/
theorem reapExited_refines_three : ∃ cs, Event.Enabled threeExited (.reapExited cs) ∧
    (∀ c ∈ cs, threeExited.reapable c = true) ∧
      reapThree 5 = Event.fire threeExited (.reapExited cs) := by
  refine (reapExited_refines threeExited (fun c => c) threeExited_table rfl 5 (.refl _)).resolve_left
    fun hsame => ?_
  have hgone : (reapThree 5).commands.lookup 0 = none := by decide
  rw [reapThree, hsame] at hgone
  revert hgone
  decide

end StateFile

end Graft
