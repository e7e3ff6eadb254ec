import Mathlib.Data.List.AList
import Graft.Library.Machine
import Graft.Command.ManagedCommand
import Graft.Library.Table

/-!
# The file of running commands (`pkg/command_registry.go`)

The registry keeps its commands in a table by their ids and writes those that have not exited to a
file, so that the next daemon can clean up after a crash.  Every operation that changes the table
writes the file before it releases the registry's mutex: it looks at the commands of the table one
after another, each under the command's own mutex, writes a temporary file and renames it.
-/

namespace Graft.StateFile

open Function (update update_self update_of_ne)

variable {c : ℕ} {k : Command}

/-! ### The registry -/

abbrev CommandId := BitVec 32

/-- Where `waitAndReap` is with a command. -/
inductive Reaper
  /-- in `cmd.Wait` -/
  | waiting
  /-- the end of the process was seen; before the command's critical section -/
  | draining
  /-- before the registry's critical section -/
  | recorded (forget : Bool)
  | done
  deriving DecidableEq

structure Command where
  id : CommandId
  managed : ManagedCommand
  reaper : Reaper
  /-- `Register` has released the registry's mutex and can return -/
  returned : Bool

/-- An entry of the file.  `command` stands for what it has of the command besides the id: the
process, the start and the text. -/
structure Entry where
  id : CommandId
  command : ℕ
  deriving DecidableEq

/-- A call of `writeStateLocked`. -/
structure Write where
  /-- the commands that are not looked at yet -/
  todo : List ℕ
  entries : List Entry
  /-- the command that `Register` returns after it -/
  fresh : Option ℕ

structure State where
  commandOf : ℕ → Command
  /-- the number of commands registered so far -/
  count : ℕ
  commands : AList fun _ : CommandId => ℕ
  closed : Bool
  /-- the file under its final name -/
  file : List Entry
  /-- the write that goes on; the registry's mutex is held for it -/
  writing : Option Write

/-- A critical section of a command that its clients enter. -/
inductive Client
  | attach (handle : ℕ)
  | clientGone (handle : ℕ)
  | detachAndKeep
  deriving DecidableEq

def Client.apply (mc : ManagedCommand) : Client → ManagedCommand
  | attach handle => mc.attach handle
  | clientGone handle => mc.clientGone handle
  | detachAndKeep => mc.detachAndKeep

namespace State

def init : State where
  commandOf _ :=
    { id := 0
      managed := ManagedCommand.register ⟨.kill, fun _ => 0, zero_capacity_lt⟩ false
      reaper := .waiting
      returned := false }
  count := 0
  commands := ∅
  closed := false
  file := []
  writing := none

variable (w : State)

def entry (c : ℕ) : Entry := ⟨(w.commandOf c).id, c⟩

def Running (c : ℕ) : Prop := c < w.count ∧ (w.commandOf c).reaper = .waiting

def setCommand (c : ℕ) (k : Command) : State := { w with commandOf := update w.commandOf c k }

def setManaged (c : ℕ) (mc : ManagedCommand) (reaper : Reaper) : State :=
  w.setCommand c { w.commandOf c with managed := mc, reaper := reaper }

/-- `delete(reg.commands, mc.id)`. -/
def delete (c : ℕ) : State := { w with commands := w.commands.erase (w.commandOf c).id }

def deleteAll (cs : List ℕ) : State := cs.foldl delete w

/-- `writeStateLocked` starts. -/
def write (fresh : Option ℕ) : State :=
  { w with writing := some ⟨w.commands.entries.map Sigma.snd, [], fresh⟩ }

/-- `mc.id = id; reg.commands[id] = mc`. -/
def add (id : CommandId) (mc : ManagedCommand) : State :=
  { w with
    commandOf := update w.commandOf w.count ⟨id, mc, .waiting, false⟩
    count := w.count + 1
    commands := w.commands.insert id w.count }

/-- `writeStateLocked` looks at a command. -/
def scan (c : ℕ) (wr : Write) : State :=
  { w with
    writing := some
      { wr with
        todo := wr.todo.erase c
        entries :=
          if (w.commandOf c).managed.exited then wr.entries else wr.entries ++ [w.entry c] } }

/-- The registry's mutex is released; `Register` can return. -/
def unlock (fresh : Option ℕ) : State :=
  match fresh with
  | none => { w with writing := none }
  | some c => { w.setCommand c { w.commandOf c with returned := true } with writing := none }

end State

inductive Event
  /-- `Register` puts a command into the table and starts to write -/
  | register (id : CommandId) (spec : ManagedCommandSpec) (combined : Bool)
  /-- `writeStateLocked` looks at a command -/
  | scan (c : ℕ)
  /-- it renames its temporary file, and the registry's mutex is released -/
  | rename
  | client (c : ℕ) (op : Client)
  /-- `cmd.Wait` returns -/
  | wait (c : ℕ)
  /-- `waitAndReap` records the end of a command -/
  | exit (c : ℕ) (status : ℤ) (err : Bool)
  /-- the critical section of `waitAndReap` in the registry starts -/
  | reap (c : ℕ)
  /-- `Remove`, of a caller that has seen the exit status of the command -/
  | remove (c : ℕ)
  /-- `ReapExited` takes these commands out of the table -/
  | reapExited (cs : List ℕ)
  /-- the first critical section of `CloseAll` -/
  | closeAll
  /-- the second one -/
  | closed

namespace Event

def Enabled (w : State) : Event → Prop
  | register id _ _ => w.writing = none ∧ w.closed = false ∧ w.commands.lookup id = none
  | scan c => ∃ wr ∈ w.writing, c ∈ wr.todo
  | rename => ∃ wr ∈ w.writing, wr.todo = []
  | client c _ => c < w.count ∧ (w.commandOf c).returned = true
  -- `waitAndReap` is started when the registry's mutex has been released
  | wait c => w.Running c ∧ (w.commandOf c).returned = true
  | exit c _ _ => c < w.count ∧ (w.commandOf c).reaper = .draining
  | reap c => w.writing = none ∧ c < w.count ∧
      ((w.commandOf c).reaper = .recorded false ∨ (w.commandOf c).reaper = .recorded true)
  | remove c => w.writing = none ∧ c < w.count ∧ (w.commandOf c).managed.exited = true
  -- they had no client either when they were looked at, but one may have come since
  | reapExited cs => w.writing = none ∧ cs ≠ [] ∧ ∀ c ∈ cs, c < w.count ∧
      (w.commandOf c).managed.exited = true ∧ w.commands.lookup (w.commandOf c).id = some c
  | closeAll => w.writing = none
  | closed => w.writing = none ∧ w.closed = true

def fire (w : State) : Event → State
  | register id spec combined => (w.add id (.register spec combined)).write (some w.count)
  | scan c =>
    match w.writing with
    | none => w
    | some wr => w.scan c wr
  | rename =>
    match w.writing with
    | none => w
    | some wr => { w with file := wr.entries }.unlock wr.fresh
  | client c op => w.setManaged c (op.apply (w.commandOf c).managed) (w.commandOf c).reaper
  | wait c => w.setManaged c (w.commandOf c).managed .draining
  | exit c status err =>
    w.setManaged c ((w.commandOf c).managed.recordExit status err)
      (.recorded (w.commandOf c).managed.forget)
  | reap c =>
    let w' := if (w.commandOf c).reaper = .recorded true then w.delete c else w
    (w'.setManaged c (w.commandOf c).managed .done).write none
  | remove c => (w.delete c).write none
  | reapExited cs => (w.deleteAll cs).write none
  | closeAll => { w with closed := true }
  | closed => w.write none

end Event

def registry : Machine State Event := ⟨Event.Enabled, Event.fire⟩

/-- The id of a command, taken out of the table, is not that of a running command. -/
def Own (w : State) : Event → Prop
  | .remove c => ∀ d ∈ w.commands.lookup (w.commandOf c).id, ¬ w.Running d
  | .reap c => (w.commandOf c).reaper = .recorded true →
      ∀ d ∈ w.commands.lookup (w.commandOf c).id, ¬ w.Running d
  | _ => True

/-! ### The table and the file -/

/-- The running commands stand in the table, and in the file when `Register` has returned them. -/
structure Table (w : State) : Prop where
  /-- the table has commands under their ids -/
  holder : ∀ {id c}, w.commands.lookup id = some c → c < w.count ∧ (w.commandOf c).id = id
  /-- an exit is recorded when it was seen -/
  exited : ∀ c, (w.commandOf c).managed.exited = true → (w.commandOf c).reaper ≠ .waiting
  listed : ∀ c, w.Running c → w.commands.lookup (w.commandOf c).id = some c
  file : ∀ c, w.Running c → (w.commandOf c).returned = true → w.entry c ∈ w.file

def Complete (w : State) (wr : Write) : Prop :=
  ∀ c, w.Running c → c ∈ wr.todo ∨ w.entry c ∈ wr.entries

structure Inv (w : State) : Prop extends Table w where
  writing : ∀ wr ∈ w.writing, Complete w wr

section Step

variable {w : State}

/-- A write has all running commands before it, since they are in the table. -/
theorem Table.write (h : Table w) (fresh : Option ℕ) : Inv (w.write fresh) where
  holder := h.holder
  exited := h.exited
  listed := h.listed
  file := h.file
  writing := by
    rintro wr ⟨⟩ c hc
    have hmem : ⟨(w.commandOf c).id, c⟩ ∈ w.commands.entries :=
      AList.mem_lookup_iff.1 (h.listed c hc)
    exact .inl (List.mem_map.2 ⟨_, hmem, rfl⟩)

theorem Table.delete (h : Table w)
    (hown : ∀ d ∈ w.commands.lookup (w.commandOf c).id, ¬ w.Running d) : Table (w.delete c) where
  holder := by
    intro id d hd
    exact h.holder (lookup_of_erase hd).2
  exited := h.exited
  listed := by
    intro d hd
    have hd' := h.listed d hd
    grind [listed, AList.lookup_erase_ne, State.delete, State.Running]
  file := h.file

theorem Table.deleteAll (h : Table w) {cs : List ℕ}
    (hcs : ∀ c ∈ cs, ∀ d ∈ w.commands.lookup (w.commandOf c).id, ¬ w.Running d) :
    Table (w.deleteAll cs) := by
  induction cs generalizing w with
  | nil => exact h
  | cons c cs ih =>
    exact ih (h.delete (hcs c (.head _))) fun c' hc' d hd =>
      hcs c' (.tail _ hc') d (lookup_of_erase hd).2

/-- A new command enters the table.  It is not returned yet, so the file need not have it. -/
theorem Table.add (h : Table w) {id : CommandId} (hid : w.commands.lookup id = none)
    (spec : ManagedCommandSpec) (combined : Bool) :
    Table (w.add id (.register spec combined)) := by
  have hself : (w.add id (.register spec combined)).commandOf w.count
      = ⟨id, .register spec combined, .waiting, false⟩ := update_self ..
  have hother : ∀ c ≠ w.count, (w.add id (.register spec combined)).commandOf c = w.commandOf c :=
    fun c hc => update_of_ne hc ..
  have hcases : ∀ c < w.count + 1, c < w.count ∨ c = w.count := fun c hc => by omega
  constructor
  · intro i c hc
    obtain ⟨rfl, rfl⟩ | ⟨-, hc⟩ := lookup_insert_cases hc
    · exact ⟨Nat.lt_succ_self _, by rw [hself]⟩
    · obtain ⟨hlt, hci⟩ := h.holder hc
      exact ⟨Nat.lt_succ_of_lt hlt, by rw [hother c hlt.ne, hci]⟩
  · grind [exited, ManagedCommand.register]
  · rintro c ⟨hc, hrun⟩
    obtain hlt | rfl := hcases c hc
    · rw [hother c hlt.ne] at hrun ⊢
      have hlisted := h.listed c ⟨hlt, hrun⟩
      have hne : (w.commandOf c).id ≠ id := by
        grind
      exact (AList.lookup_insert_ne hne).trans hlisted
    · rw [hself]
      exact AList.lookup_insert ..
  · rintro c ⟨hc, hrun⟩ hret
    obtain hlt | rfl := hcases c hc
    · rw [hother c hlt.ne] at hrun hret
      rw [State.entry, hother c hlt.ne]
      exact h.file c ⟨hlt, hrun⟩ hret
    grind

/-- A command may come closer to its end, and `Register` may return it when it is in the file. -/
structure Advances (w : State) (c : ℕ) (k : Command) : Prop where
  id : k.id = (w.commandOf c).id
  reaper : k.reaper = .waiting → (w.commandOf c).reaper = .waiting
  returned : k.returned = true →
    (w.commandOf c).returned = true ∨ (w.Running c → w.entry c ∈ w.file)
  exited : k.managed.exited = true → k.reaper ≠ .waiting

theorem State.setCommand_self (w : State) (c : ℕ) (k : Command) :
    (w.setCommand c k).commandOf c = k := update_self ..

theorem State.setCommand_of_ne (w : State) (k : Command) {c d : ℕ} (hd : d ≠ c) :
    (w.setCommand c k).commandOf d = w.commandOf d := update_of_ne hd ..

theorem State.entry_setCommand (hk : k.id = (w.commandOf c).id) (d : ℕ) :
    (w.setCommand c k).entry d = w.entry d := by
  by_cases hd : d = c
  · subst hd
    rw [State.entry, State.setCommand_self, hk, State.entry]
  · rw [State.entry, State.setCommand_of_ne w k hd, State.entry]

theorem Advances.seen (w : State) (c : ℕ) (mc : ManagedCommand) (reaper : Reaper)
    (hseen : reaper ≠ .waiting) :
    Advances w c { w.commandOf c with managed := mc, reaper := reaper } where
  id := rfl
  reaper hrun := absurd hrun hseen
  returned hret := .inl hret
  exited _ := hseen

theorem Advances.running (hk : Advances w c k) {d : ℕ}
    (hd : (w.setCommand c k).Running d) : w.Running d := by
  obtain ⟨hlt, hrun⟩ := hd
  refine ⟨hlt, ?_⟩
  by_cases hdc : d = c
  · subst hdc
    rw [State.setCommand_self] at hrun
    exact hk.reaper hrun
  · rwa [State.setCommand_of_ne w k hdc] at hrun

theorem Table.setCommand (h : Table w) (hk : Advances w c k) : Table (w.setCommand c k) := by
  have hid : ∀ d, ((w.setCommand c k).commandOf d).id = (w.commandOf d).id := fun d =>
    congrArg Entry.id (State.entry_setCommand hk.id d)
  constructor
  · intro i d hd
    rw [hid]
    exact h.holder hd
  · grind [State.setCommand_self, Advances.exited, State.setCommand_of_ne, exited]
  · intro d hd
    rw [hid]
    exact h.listed d (hk.running hd)
  · intro d hd hret
    rw [State.entry_setCommand hk.id]
    have hrun := hk.running hd
    by_cases hdc : d = c
    · grind [Advances.returned, State.setCommand_self, file, State.setCommand]
    · grind [file, State.setCommand_of_ne, State.setCommand]

theorem Inv.setCommand (h : Inv w) (hk : Advances w c k) : Inv (w.setCommand c k) where
  toTable := h.toTable.setCommand hk
  writing := by
    intro wr hwr d hd
    rw [State.entry_setCommand hk.id]
    exact h.writing wr hwr d (hk.running hd)

theorem Inv.scan (h : Inv w) {wr : Write} (hwr : w.writing = some wr) : Inv (w.scan c wr) where
  toTable := ⟨h.holder, h.exited, h.listed, h.file⟩
  writing := by
    rintro wr' ⟨⟩ d hd
    have hrest := h.writing wr hwr d hd
    dsimp only
    by_cases hdc : d = c
    · grind [toTable, Table.exited, State.entry, State.scan, State.Running]
    · refine hrest.imp (fun hmem => (List.mem_erase_of_ne hdc).2 hmem) fun hmem => ?_
      split_ifs
      · exact hmem
      · exact List.mem_append_left _ hmem

/-- A write that has looked at all commands has the running ones, also that which `Register`
returns. -/
theorem Inv.rename (h : Inv w) {wr : Write} (hwr : w.writing = some wr) (htodo : wr.todo = []) :
    Inv ({ w with file := wr.entries }.unlock wr.fresh) := by
  have hfile : ∀ c, w.Running c → w.entry c ∈ wr.entries := by
    intro c hc
    obtain hmem | hmem := h.writing wr hwr c hc
    · simp_all
    · exact hmem
  have hinv : Inv { w with file := wr.entries, writing := none } :=
    ⟨⟨h.holder, h.exited, h.listed, fun c hc _ => hfile c hc⟩, by rintro _ ⟨⟩⟩
  cases wr.fresh with
  | none => exact hinv
  | some n =>
    exact hinv.setCommand ⟨rfl, fun hrun => hrun, fun _ => .inr (hfile n), h.exited n⟩

end Step

/-! ### The steps -/

theorem Client.exited_apply (mc : ManagedCommand) (op : Client) :
    (op.apply mc).exited = mc.exited := by
  cases op with
  | attach handle => rfl
  | clientGone handle => exact mc.clientGone_exited handle
  | detachAndKeep => rfl

section Fire

variable {w : State}

theorem Inv.client (h : Inv w) (c : ℕ) (op : Client) :
    Inv (w.setManaged c (op.apply (w.commandOf c).managed) (w.commandOf c).reaper) := by
  refine h.setCommand ⟨rfl, fun hrun => hrun, .inl, fun hex => ?_⟩
  rw [Client.exited_apply] at hex
  exact h.exited c hex

theorem Inv.reap (h : Inv w) (hown : (w.commandOf c).reaper = .recorded true →
    ∀ d ∈ w.commands.lookup (w.commandOf c).id, ¬ w.Running d) : Inv (Event.fire w (.reap c)) := by
  dsimp only [Event.fire]
  by_cases hforget : (w.commandOf c).reaper = .recorded true
  · rw [if_pos hforget]
    exact ((h.toTable.delete (hown hforget)).setCommand (.seen _ c _ .done nofun)).write none
  · rw [if_neg hforget]
    exact (h.toTable.setCommand (.seen _ c _ .done nofun)).write none

theorem Inv.fire (h : Inv w) {e : Event} (he : e.Enabled w) (hok : Own w e) : Inv (e.fire w) := by
  cases e with
  | register id spec combined => exact (h.toTable.add he.2.2 spec combined).write _
  | scan c =>
    grind [scan, Event.fire]
  | rename =>
    grind [rename, Event.fire, Event.Enabled]
  | client c op => exact h.client c op
  | wait c => exact h.setCommand (.seen w c _ _ nofun)
  | exit c status err => exact h.setCommand (.seen w c _ _ nofun)
  | reap c => exact h.reap hok
  | remove c => exact (h.toTable.delete hok).write none
  | reapExited cs =>
    refine (h.toTable.deleteAll fun c hc d hd hrun => ?_).write none
    -- what the table has under the id of such a command is the command itself, which has exited
    obtain ⟨-, hex, hlookup⟩ := he.2.2 c hc
    rw [hlookup] at hd
    cases hd
    exact h.exited c hex hrun.2
  | closeAll => exact ⟨⟨h.holder, h.exited, h.listed, h.file⟩, h.writing⟩
  | closed => exact h.toTable.write none

end Fire

theorem Inv.init : Inv .init where
  holder := by
    simp_all [State.init]
  exited := by
    intro c hex
    cases hex
  listed := by
    grind [State.Running, State.init]
  file := by
    grind [State.init]
  writing := by rintro wr ⟨⟩

/-! ### The results -/

/-- **The file has every command that `Register` has returned and whose end has not been seen**, at
any time, if no id is taken out of the table that is a running command's. -/
theorem running_listed {w : State} (h : registry.Run Own .init w) {c : ℕ} (hc : w.Running c)
    (hreturned : (w.commandOf c).returned = true) : w.entry c ∈ w.file := by
  have hinv : Inv w := h.invariant (I := Inv) .init fun _ _ hw he hok => hw.fire he hok
  exact hinv.file c hc hreturned

instance (w : State) (c : ℕ) : Decidable (w.Running c) := inferInstanceAs (Decidable (_ ∧ _))

instance (w : State) (e : Event) : Decidable (registry.enabled w e) := by
  cases e <;> simp only [registry, Event.Enabled] <;> infer_instance

instance (w : State) (e : Event) : Decidable (Own w e) := by
  cases e <;> simp only [Own] <;> infer_instance

def defaultSpec : ManagedCommandSpec := ⟨.keep, fun _ => 0, zero_capacity_lt⟩

/-- A command is registered while another one ends. -/
theorem running_listed_other :
    ∃ w, registry.Run Own .init w ∧ w.Running 1 ∧ (w.commandOf 1).returned = true ∧
      w.entry 1 ∈ w.file := by
  have hexec : ∃ w ∈ registry.exec Own .init
      [.register 5 defaultSpec false, .scan 0, .rename, .wait 0, .register 6 defaultSpec false,
        .scan 1, .exit 0 0 false, .scan 0, .rename, .reap 0, .scan 1, .scan 0, .rename, .remove 0,
        .scan 1],
      w.Running 1 ∧ (w.commandOf 1).returned = true := by
    decide +kernel
  obtain ⟨w, hrun, hrunning, hreturned⟩ := Machine.exists_run_of_exec _ _ hexec
  exact ⟨w, hrun, hrunning, hreturned, running_listed hrun hrunning hreturned⟩

/-- **Two callers remove an exited command, and another one gets its id in between**: the second
caller takes the running command out of the table and of the file. -/
theorem removed_twice :
    ∃ w, registry.Reachable .init w ∧ w.Running 1 ∧ (w.commandOf 1).returned = true ∧
      w.entry 1 ∉ w.file := by
  have hexec : ∃ w ∈ registry.exec (fun _ _ => True) .init
      [.register 5 defaultSpec false, .scan 0, .rename, .wait 0, .exit 0 0 false, .reap 0, .scan 0,
        .rename, .remove 0, .rename, .register 5 defaultSpec false, .scan 1, .rename, .remove 0,
        .rename],
      w.Running 1 ∧ (w.commandOf 1).returned = true ∧ w.entry 1 ∉ w.file := by
    decide +kernel
  exact Machine.exists_run_of_exec _ _ hexec

end Graft.StateFile
