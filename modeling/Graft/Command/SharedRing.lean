import Graft.Library.Machine
import Graft.Library.Signal
import Graft.Command.OutputRing

/-!
# The output ring and its threads (`pkg/output_ring.go`)

Any number of threads use one ring.  Each pass of `Write` and `ReadAt` is a critical section of the
ring's mutex; between two passes a thread waits on a channel of the ring, `space` or `notify`, which
is closed and replaced by a change that may let it go on.
-/

namespace Graft.SharedRing

open Function (update update_of_ne)
open History

variable {t : ℕ} {r : OutputRing}

/-! ### The machine -/

/-- Where a call of `Write` is. -/
inductive Writer
  | idle
  /-- before a pass, with the bytes that were written so far -/
  | writing (p : List Byte) (written : ℕ)
  /-- at `<-wait` -/
  | waiting (p : List Byte) (written channel : ℕ)
  | returned (written : ℕ) (err : Bool)
  deriving DecidableEq

/-- Where a call of `ReadAt` is.  `asked` is its argument, and `offset` the variable, which a pass
may advance. -/
inductive Reader
  | idle
  | reading (asked offset : ℕ)
  | waiting (asked offset channel : ℕ)
  /-- the outcome; none if the read was canceled -/
  | returned (outcome : Option ReadOutcome)
  deriving DecidableEq

/-- A call of `setReleased`, with the number of bytes accepted by then. -/
structure Release where
  offset : ℕ
  accepted : ℕ
  deriving DecidableEq

structure State where
  ring : OutputRing
  notify : Signal
  space : Signal
  /-- all bytes that were accepted -/
  history : List Byte
  releases : List Release
  writer : ℕ → Writer
  reader : ℕ → Reader

namespace State

/-- `newOutputRing`, with `setLossless` for a lossless ring. -/
def init (capacity : ℕ) (lossless : Bool) : State where
  ring := if lossless then (OutputRing.new capacity).setLossless else .new capacity
  notify := .new
  space := .new
  history := []
  releases := []
  writer _ := .idle
  reader _ := .idle

variable (w : State)

def setWriter (t : ℕ) (pc : Writer) : State := { w with writer := update w.writer t pc }

def setReader (t : ℕ) (pc : Reader) : State := { w with reader := update w.reader t pc }

/-- The ring after a pass that has written all but `rest` of the bytes `p`. -/
def accept (p : List Byte) (r : OutputRing) (rest : List Byte) : State :=
  { w with
    ring := r
    history := w.history ++ p.take (p.length - rest.length)
    notify := w.notify.broadcast }

/-- A pass of `Write`. -/
def pass (t : ℕ) (p : List Byte) (written : ℕ) : State :=
  match w.ring.write (p.drop written) with
  | .failed => w.setWriter t (.returned written true)
  | .blocked => w.setWriter t (.waiting p written w.space.current)
  | .wrote r rest =>
    (w.accept (p.drop written) r rest).setWriter t
      (if w.ring.lossless then .writing p (p.length - rest.length) else .returned p.length false)

/-- A pass of `ReadAt`. -/
def look (t asked offset : ℕ) : State :=
  match w.ring.readAt offset with
  | .data bytes got => w.setReader t (.returned (some (.data bytes got)))
  | .eof got => w.setReader t (.returned (some (.eof got)))
  | .wait => w.setReader t (.waiting asked (max offset w.ring.start) w.notify.current)

def setReleased (offset : ℕ) : State :=
  { w with
    ring := w.ring.setReleased offset
    releases := ⟨offset, w.history.length⟩ :: w.releases
    space :=
      -- `Close` has closed the channel already
      if offset ≤ w.ring.released ∨ w.ring.closed = true then w.space else w.space.broadcast }

def close : State :=
  if w.ring.closed then w
  else { w with ring := w.ring.close, notify := w.notify.shut, space := w.space.shut }

end State

inductive Event
  /-- `Write` is called -/
  | write (t : ℕ) (p : List Byte)
  /-- a pass of `Write` -/
  | pass (t : ℕ)
  /-- the channel that a `Write` waits on is closed -/
  | wake (t : ℕ)
  /-- the loop of `writeLossless` ends -/
  | finish (t : ℕ)
  /-- `ReadAt` is called -/
  | read (t offset : ℕ)
  /-- a pass of `ReadAt` -/
  | look (t : ℕ)
  /-- the channel that a `ReadAt` waits on is closed -/
  | notified (t : ℕ)
  | cancel (t : ℕ)
  | release (offset : ℕ)
  | close

namespace Event

def Enabled (w : State) : Event → Prop
  | write t _ =>
    match w.writer t with
    | .idle | .returned .. => True
    | _ => False
  | pass t =>
    match w.writer t with
    | .writing p written => w.ring.lossless = true → written < p.length
    | _ => False
  | wake t =>
    match w.writer t with
    | .waiting _ _ channel => channel ∈ w.space.closes
    | _ => False
  | finish t =>
    match w.writer t with
    | .writing p written => w.ring.lossless = true ∧ p.length ≤ written
    | _ => False
  | read t _ =>
    match w.reader t with
    | .idle | .returned _ => True
    | _ => False
  | look t =>
    match w.reader t with
    | .reading .. => True
    | _ => False
  | notified t =>
    match w.reader t with
    | .waiting _ _ channel => channel ∈ w.notify.closes
    | _ => False
  | cancel t =>
    match w.reader t with
    | .waiting .. => True
    | _ => False
  -- offsets are unsigned numbers of 64 bits
  | release offset => offset < 2 ^ 64
  | close => True

def fire (w : State) : Event → State
  | write t p => w.setWriter t (.writing p 0)
  | pass t =>
    match w.writer t with
    | .writing p written => w.pass t p written
    | _ => w
  | wake t =>
    match w.writer t with
    | .waiting p written _ => w.setWriter t (.writing p written)
    | _ => w
  | finish t =>
    match w.writer t with
    | .writing _ written => w.setWriter t (.returned written false)
    | _ => w
  | read t offset => w.setReader t (.reading offset offset)
  | look t =>
    match w.reader t with
    | .reading asked offset => w.look t asked offset
    | _ => w
  | notified t =>
    match w.reader t with
    | .waiting asked offset _ => w.setReader t (.reading asked offset)
    | _ => w
  | cancel t => w.setReader t (.returned none)
  | release offset => w.setReleased offset
  | close => w.close

end Event

def ring : Machine State Event := ⟨Event.Enabled, Event.fire⟩

/-! ### The ring and the history -/

/-- A channel of the ring: it is open until the ring is closed. -/
structure ChannelOk (s : Signal) (closed : Bool) : Prop extends s.Ok where
  isOpen : s.Open ↔ closed = false

theorem ChannelOk.broadcast {s : Signal} {closed : Bool} (h : ChannelOk s closed)
    (hopen : closed = false) : ChannelOk s.broadcast closed where
  toOk := h.toOk.broadcast (h.isOpen.2 hopen)
  isOpen := iff_of_true h.open_broadcast hopen

theorem ChannelOk.shut {s : Signal} (h : ChannelOk s false) : ChannelOk s.shut true where
  toOk := h.toOk.shut (h.isOpen.2 rfl)
  isOpen := iff_of_false (fun hopen => hopen List.mem_cons_self) (by simp)

/-- A read that asked for an offset has not gone further than the ring made it. -/
def Reader.Follows (start : ℕ) : Reader → Prop
  | reading asked offset | waiting asked offset _ => asked ≤ offset ∧ offset ≤ max asked start
  | _ => True

theorem Reader.Follows.mono {start start' : ℕ} (hstart : start ≤ start') {pc : Reader}
    (h : pc.Follows start) : pc.Follows start' := by
  cases pc with
  | reading | waiting => exact ⟨h.1, h.2.trans (max_le_max_left _ hstart)⟩
  | idle | returned => trivial

structure Inv (capacity : ℕ) (lossless : Bool) (w : State) : Prop where
  retains : Retains w.history w.ring.start w.ring.buf
  capacity_eq : w.ring.capacity = capacity
  lossless_eq : w.ring.lossless = lossless
  length_le : w.ring.buf.length ≤ capacity
  /-- a ring that has had bytes is not empty -/
  start_eq_zero : w.ring.buf = [] → w.ring.start = 0
  released : w.ring.released = 0 ∨ ∃ r ∈ w.releases, w.ring.released = r.offset
  start_le : lossless = true → w.ring.start ≤ w.ring.released
  notify : ChannelOk w.notify w.ring.closed
  space : ChannelOk w.space w.ring.closed
  follows : ∀ t, (w.reader t).Follows w.ring.start

section Step

variable {capacity : ℕ} {lossless : Bool} {w : State}

theorem Inv.init (capacity : ℕ) (lossless : Bool) :
    Inv capacity lossless (.init capacity lossless) := by
  have hchannel : ChannelOk .new false := ⟨.new, iff_of_true Signal.open_new rfl⟩
  cases lossless <;>
    exact ⟨.nil, rfl, rfl, Nat.zero_le _, fun _ => rfl, .inl rfl, fun _ => le_rfl, hchannel,
      hchannel, fun _ => trivial⟩

theorem Inv.setWriter (h : Inv capacity lossless w) (t : ℕ) (pc : Writer) :
    Inv capacity lossless (w.setWriter t pc) :=
  ⟨h.retains, h.capacity_eq, h.lossless_eq, h.length_le, h.start_eq_zero, h.released, h.start_le,
    h.notify, h.space, h.follows⟩

theorem Inv.setReader (h : Inv capacity lossless w) {pc : Reader}
    (hpc : pc.Follows w.ring.start) : Inv capacity lossless (w.setReader t pc) := by
  refine ⟨h.retains, h.capacity_eq, h.lossless_eq, h.length_le, h.start_eq_zero, h.released,
    h.start_le, h.notify, h.space, fun u => ?_⟩
  by_cases hu : u = t
  · simp_all [State.setReader]
  · simpa only [State.setReader, update_of_ne hu] using h.follows u

theorem Inv.accept (hcap : 1 ≤ capacity) (h : Inv capacity lossless w) {p rest : List Byte}
    (hw : w.ring.write p = .wrote r rest) : Inv capacity lossless (w.accept p r rest) := by
  obtain ⟨n, rfl, ha⟩ := OutputRing.write_spec hw
  have hn : p.length - (p.drop n).length = n := by
    have := ha.le
    grind
  have hclosed : r.closed = w.ring.closed := ha.closed.2.trans ha.closed.1.symm
  constructor
  · simp only [State.accept, hn]
    exact ha.retains _ h.retains
  · exact ha.capacity.trans h.capacity_eq
  · exact ha.lossless.trans h.lossless_eq
  · rw [← h.capacity_eq]
    exact ha.length_le (h.capacity_eq ▸ h.length_le)
  · exact ha.start_eq_zero (h.capacity_eq ▸ hcap) h.start_eq_zero
  · exact ha.released.symm ▸ h.released
  · intro hl
    have hstart := ha.start_le_released (h.lossless_eq.trans hl)
    rw [max_eq_right (h.start_le hl), ← ha.released] at hstart
    exact hstart
  · exact hclosed.symm ▸ h.notify.broadcast ha.closed.1
  · exact hclosed.symm ▸ h.space
  · exact fun t => (h.follows t).mono ha.start_le

theorem Inv.pass (hcap : 1 ≤ capacity) (h : Inv capacity lossless w) (t : ℕ) (p : List Byte)
    (written : ℕ) : Inv capacity lossless (w.pass t p written) := by
  unfold State.pass
  cases hw : w.ring.write (p.drop written) with
  | failed => exact h.setWriter t _
  | blocked => exact h.setWriter t _
  | wrote r rest => exact (h.accept hcap hw).setWriter t _

theorem Inv.look (h : Inv capacity lossless w) {t asked offset : ℕ}
    (hpc : asked ≤ offset ∧ offset ≤ max asked w.ring.start) :
    Inv capacity lossless (w.look t asked offset) := by
  unfold State.look
  cases w.ring.readAt offset with
  | data bytes got => exact h.setReader trivial
  | eof got => exact h.setReader trivial
  | wait => exact h.setReader ⟨hpc.1.trans (le_max_left _ _), max_le hpc.2 (le_max_right _ _)⟩

theorem Inv.setReleased (h : Inv capacity lossless w) (offset : ℕ) :
    Inv capacity lossless (w.setReleased offset) := by
  refine ⟨h.retains, h.capacity_eq, h.lossless_eq, h.length_le, h.start_eq_zero, ?_, fun hl => ?_,
    h.notify, ?_, h.follows⟩
  · simp only [State.setReleased, OutputRing.setReleased]
    split_ifs
    · refine h.released.imp_right ?_
      rintro ⟨r, hr, heq⟩
      exact ⟨r, List.mem_cons_of_mem _ hr, heq⟩
    · exact .inr ⟨_, List.mem_cons_self, rfl⟩
  · have hle : w.ring.released ≤ (w.ring.setReleased offset).released :=
      OutputRing.setReleased_released.symm ▸ le_max_left ..
    exact (h.start_le hl).trans hle
  · simp only [State.setReleased]
    grind [space, ChannelOk.broadcast, OutputRing.setReleased]

theorem Inv.close (h : Inv capacity lossless w) : Inv capacity lossless w.close := by
  unfold State.close
  split_ifs with hclosed
  · exact h
  · rw [Bool.not_eq_true] at hclosed
    exact ⟨h.retains, h.capacity_eq, h.lossless_eq, h.length_le, h.start_eq_zero, h.released,
      h.start_le, (hclosed ▸ h.notify).shut, (hclosed ▸ h.space).shut, h.follows⟩

theorem Inv.fire (hcap : 1 ≤ capacity) (h : Inv capacity lossless w) (e : Event) :
    Inv capacity lossless (e.fire w) := by
  cases e with
  | write t p => exact h.setWriter t _
  | pass t =>
    grind [pass, Event.fire]
  | wake t =>
    grind [setWriter, Event.fire]
  | finish t =>
    grind [setWriter, Event.fire]
  | read t offset => exact h.setReader ⟨le_rfl, le_max_left _ _⟩
  | look t =>
    have hfollows := h.follows t
    dsimp only [Event.fire]
    split
    case h_1 hpc =>
      rw [hpc] at hfollows
      exact h.look hfollows
    case h_2 => exact h
  | notified t =>
    have hfollows := h.follows t
    dsimp only [Event.fire]
    split
    case h_1 hpc =>
      rw [hpc] at hfollows
      exact h.setReader hfollows
    case h_2 => exact h
  | cancel t => exact h.setReader trivial
  | release offset => exact h.setReleased offset
  | close => exact h.close

end Step

/-! ### Threads that wait -/

/-- The ring makes every `Write` wait. -/
def Full (r : OutputRing) : Prop := r.lossless = true ∧ r.closed = false ∧ r.space ≤ 0

theorem full_iff {p : List Byte} : r.write p = .blocked ↔ Full r := by
  unfold Full OutputRing.write OutputRing.writeLossless OutputRing.writeEvicting
  split_ifs <;> simp_all

/-- A `Write` that waits on an open channel would wait again. -/
def Writer.Stuck (r : OutputRing) (space : Signal) : Writer → Prop
  | waiting _ _ channel => channel ≤ space.current ∧ (channel ∉ space.closes → Full r)
  | _ => True

/-- A `ReadAt` that waits on an open channel would wait again. -/
def Reader.Stuck (r : OutputRing) (notify : Signal) : Reader → Prop
  | waiting _ offset channel =>
    channel ≤ notify.current ∧ (channel ∉ notify.closes → r.readAt offset = .wait)
  | _ => True

structure Waits (w : State) : Prop where
  writers : ∀ t, (w.writer t).Stuck w.ring w.space
  readers : ∀ t, (w.reader t).Stuck w.ring w.notify

theorem Waits.init (capacity : ℕ) (lossless : Bool) : Waits (.init capacity lossless) :=
  ⟨fun _ => trivial, fun _ => trivial⟩

section Waiting

variable {capacity : ℕ} {lossless : Bool} {w : State}

theorem Waits.setWriter (hw : Waits w) {pc : Writer} (hpc : pc.Stuck w.ring w.space) :
    Waits (w.setWriter t pc) := by
  refine ⟨fun u => ?_, hw.readers⟩
  by_cases hu : u = t
  · simp_all [State.setWriter]
  · simpa only [State.setWriter, update_of_ne hu] using hw.writers u

theorem Waits.setReader (hw : Waits w) {pc : Reader} (hpc : pc.Stuck w.ring w.notify) :
    Waits (w.setReader t pc) := by
  refine ⟨hw.writers, fun u => ?_⟩
  by_cases hu : u = t
  · simp_all [State.setReader]
  · simpa only [State.setReader, update_of_ne hu] using hw.readers u

/-- A change of the ring that closes both channels wakes all threads.  One that closes only one of
them leaves the others waiting for a reason. -/
theorem Waits.change (hw : Waits w) {w' : State} (hwriter : w'.writer = w.writer)
    (hreader : w'.reader = w.reader)
    (hspace : w'.space = w.space ∧ (Full w.ring → Full w'.ring) ∨
      ∀ c ≤ w.space.current, c ≤ w'.space.current ∧ c ∈ w'.space.closes)
    (hnotify : w'.notify = w.notify ∧
        (∀ o, w.ring.readAt o = .wait → w'.ring.readAt o = .wait) ∨
      ∀ c ≤ w.notify.current, c ≤ w'.notify.current ∧ c ∈ w'.notify.closes) : Waits w' := by
  constructor
  · intro t
    have hstuck := hw.writers t
    rw [hwriter]
    cases hpc : w.writer t with
    | idle | writing | returned => trivial
    | waiting p written c =>
      rw [hpc] at hstuck
      obtain ⟨hle, hfull⟩ := hstuck
      obtain ⟨heq, hsame⟩ | hclosed := hspace
      · exact ⟨heq ▸ hle, fun hc => hsame (hfull (heq ▸ hc))⟩
      · exact ⟨(hclosed c hle).1, fun hc => absurd (hclosed c hle).2 hc⟩
  · intro t
    have hstuck := hw.readers t
    rw [hreader]
    cases hpc : w.reader t with
    | idle | reading | returned => trivial
    | waiting asked offset c =>
      rw [hpc] at hstuck
      obtain ⟨hle, hwait⟩ := hstuck
      obtain ⟨heq, hsame⟩ | hclosed := hnotify
      · exact ⟨heq ▸ hle, fun hc => hsame _ (hwait (heq ▸ hc))⟩
      · exact ⟨(hclosed c hle).1, fun hc => absurd (hclosed c hle).2 hc⟩

theorem Waits.accept (h : Inv capacity lossless w) (hw : Waits w) {p rest : List Byte}
    (hwrite : w.ring.write p = .wrote r rest) : Waits (w.accept p r rest) := by
  refine hw.change rfl rfl (.inl ⟨rfl, fun hfull => ?_⟩)
    (.inr fun c hc => ⟨hc.trans (Nat.le_succ _), h.notify.mem_broadcast hc⟩)
  grind [full_iff]

theorem readAt_wait {o : ℕ} :
    r.readAt o = .wait ↔ r.endOffset ≤ max o r.start ∧ r.closed = false := by
  unfold OutputRing.readAt
  dsimp only
  split_ifs with hlt hclosed
  · exact iff_of_false nofun fun h => absurd h.1 (not_le.2 hlt)
  · exact iff_of_false nofun fun h => by simp [hclosed] at h
  · exact iff_of_true rfl ⟨not_lt.1 hlt, by simpa using hclosed⟩

theorem Waits.look (hw : Waits w) (t asked offset : ℕ) : Waits (w.look t asked offset) := by
  unfold State.look
  cases hread : w.ring.readAt offset with
  | data bytes got => exact hw.setReader trivial
  | eof got => exact hw.setReader trivial
  | wait =>
    refine hw.setReader ⟨le_rfl, fun _ => readAt_wait.2 ?_⟩
    grind [readAt_wait]

theorem Waits.pass (h : Inv capacity lossless w) (hw : Waits w) (t : ℕ) (p : List Byte)
    (written : ℕ) : Waits (w.pass t p written) := by
  unfold State.pass
  cases hwrite : w.ring.write (p.drop written) with
  | failed => exact hw.setWriter trivial
  | blocked => exact hw.setWriter ⟨le_rfl, fun _ => full_iff.1 hwrite⟩
  | wrote r rest =>
    refine (hw.accept h hwrite).setWriter ?_
    split_ifs <;> trivial

theorem Waits.setReleased (h : Inv capacity lossless w) (hw : Waits w) (offset : ℕ) :
    Waits (w.setReleased offset) := by
  by_cases hold : offset ≤ w.ring.released ∨ w.ring.closed = true
  · refine hw.change rfl rfl (.inl ⟨if_pos hold, fun hfull => ?_⟩)
      (.inl ⟨rfl, fun _ hread => hread⟩)
    have hle : offset ≤ w.ring.released :=
      hold.resolve_right (by rw [hfull.2.1]; exact Bool.false_ne_true)
    simpa only [State.setReleased, OutputRing.setReleased, if_pos hle] using hfull
  · refine hw.change rfl rfl (.inr fun c hc => ?_) (.inl ⟨rfl, fun _ hread => hread⟩)
    simp only [State.setReleased, if_neg hold]
    exact ⟨hc.trans (Nat.le_succ _), h.space.mem_broadcast hc⟩

theorem Waits.close (h : Inv capacity lossless w) (hw : Waits w) : Waits w.close := by
  unfold State.close
  split_ifs
  · exact hw
  · exact hw.change rfl rfl (.inr fun c hc => ⟨hc, h.space.mem_shut hc⟩)
      (.inr fun c hc => ⟨hc, h.notify.mem_shut hc⟩)

theorem Waits.fire (h : Inv capacity lossless w) (hw : Waits w) (e : Event) :
    Waits (e.fire w) := by
  cases e with
  | write t p => exact hw.setWriter trivial
  | pass t =>
    grind [pass, Event.fire]
  | wake t =>
    dsimp only [Event.fire]
    split
    · exact hw.setWriter trivial
    · exact hw
  | finish t =>
    dsimp only [Event.fire]
    split
    · exact hw.setWriter trivial
    · exact hw
  | read t offset => exact hw.setReader trivial
  | look t =>
    grind [look, Event.fire]
  | notified t =>
    dsimp only [Event.fire]
    split
    · exact hw.setReader trivial
    · exact hw
  | cancel t => exact hw.setReader trivial
  | release offset => exact hw.setReleased h offset
  | close => exact hw.close h

end Waiting

theorem inv_of_run {capacity : ℕ} (hcap : 1 ≤ capacity) {lossless : Bool}
    {ok : State → Event → Prop} {w : State} (h : ring.Run ok (.init capacity lossless) w) :
    Inv capacity lossless w ∧ Waits w :=
  h.invariant (I := fun w => Inv capacity lossless w ∧ Waits w) ⟨.init .., .init ..⟩
    fun _ e hw _ _ => ⟨hw.1.fire hcap e, hw.2.fire hw.1 e⟩

/-! ### The results -/

/-- What a read at an offset should give: the history from there, or from the first byte that is
retained, to its end. -/
def State.expected (w : State) (asked : ℕ) : ReadOutcome :=
  if max asked w.ring.start < w.history.length then
    .data (w.history.drop (max asked w.ring.start)) (max asked w.ring.start)
  else if w.ring.closed then .eof (max asked w.ring.start)
  else .wait

section Reads

variable {capacity : ℕ} {lossless : Bool} {w : State}

theorem Inv.readAt (h : Inv capacity lossless w) {t asked offset : ℕ}
    (ht : w.reader t = .reading asked offset) : w.ring.readAt offset = w.expected asked := by
  have hfollows := h.follows t
  rw [ht] at hfollows
  obtain ⟨hle, hmax⟩ := hfollows
  have hoffset : max offset w.ring.start = max asked w.ring.start :=
    le_antisymm (max_le hmax (le_max_right _ _)) (max_le_max_right _ hle)
  have hdrop : w.ring.buf.drop (max asked w.ring.start - w.ring.start)
      = w.history.drop (max asked w.ring.start) := by
    rw [h.retains.eq_drop, List.drop_drop, Nat.add_sub_cancel' (le_max_right _ _)]
  simp only [OutputRing.readAt, State.expected, OutputRing.endOffset, hoffset, h.retains.1, hdrop]

theorem Inv.eof (h : Inv capacity lossless w) {asked got : ℕ}
    (hread : w.expected asked = .eof got) : w.ring.closed = true ∧ w.history.length ≤ asked := by
  unfold State.expected at hread
  split_ifs at hread with hlt hclosed
  refine ⟨hclosed, ?_⟩
  -- if the offset had been dropped, the ring would not be empty
  by_contra hasked
  have hlen := h.retains.1
  have hempty : w.ring.buf = [] := List.length_eq_zero_iff.1 (by omega)
  have hzero := h.start_eq_zero hempty
  rw [hempty, List.length_nil] at hlen
  omega

end Reads

/-- **The ring follows the history of accepted bytes**: it holds the history from `start` on, at
most `capacity` bytes of it; a read gives the history from its offset, or from `start`, to the end,
and the end itself only when the ring is closed and has no byte at the offset; a lossless ring drops
only what was released; and no channel is closed twice. -/
theorem ring_refines {capacity : ℕ} (hcap : 1 ≤ capacity) {lossless : Bool} {w : State}
    (h : ring.Reachable (.init capacity lossless) w) :
    w.ring.buf = w.history.drop w.ring.start ∧ w.ring.buf.length ≤ capacity ∧
      w.ring.start + w.ring.buf.length = w.history.length ∧
      (∀ t asked offset, w.reader t = .reading asked offset →
        w.ring.readAt offset = w.expected asked ∧
          ∀ got, w.ring.readAt offset = .eof got →
            w.ring.closed = true ∧ w.history.length ≤ asked) ∧
      (lossless = true → ∀ i < w.ring.start, ∃ r ∈ w.releases, i < r.offset) ∧
      w.notify.closes.Nodup ∧ w.space.closes.Nodup := by
  obtain ⟨hinv, -⟩ := inv_of_run hcap h
  refine ⟨hinv.retains.eq_drop, hinv.length_le, hinv.retains.1, fun t asked offset ht => ?_,
    fun hl i hi => ?_, hinv.notify.nodup, hinv.space.nodup⟩
  · grind [Inv.readAt, Inv.eof, State.expected]
  grind [Inv.start_le, Inv.released]

instance (w : State) (e : Event) : Decidable (ring.enabled w e) := by
  cases e <;> simp only [ring, Event.Enabled] <;>
    first | infer_instance | (split <;> infer_instance)

/-- A lossless ring of four bytes; the first two are read again after they were released. -/
theorem ring_refines_released :
    ∃ w, ring.Reachable (.init 4 true) w ∧ w.history = [1, 2, 3, 4, 5, 6] ∧ w.ring.start = 2 ∧
      w.ring.readAt 0 = .data [3, 4, 5, 6] 2 := by
  have hexec : ∃ w ∈ ring.exec (fun _ _ => True) (.init 4 true)
      [.write 0 [1, 2, 3, 4, 5, 6], .pass 0, .pass 0, .release 2, .wake 0, .pass 0, .finish 0,
        .read 0 0],
      w.history = [1, 2, 3, 4, 5, 6] ∧ w.ring.start = 2 ∧ w.reader 0 = .reading 0 0 := by
    decide +kernel
  obtain ⟨w, hrun, hhistory, hstart, hreader⟩ := Machine.exists_run_of_exec _ _ hexec
  obtain ⟨-, -, -, hreads, -⟩ := ring_refines (by decide) hrun
  refine ⟨w, hrun, hhistory, hstart, ?_⟩
  rw [(hreads 0 0 0 hreader).1, State.expected, hhistory, hstart]
  rfl

end Graft.SharedRing
