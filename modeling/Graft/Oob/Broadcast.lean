import Graft.Library.Machine

/-!
# Out-of-band messages (`pkg/server_oob.go`, `pkg/server_grpc_administrative.go`)

A client subscribes to out-of-band messages with a stream `OOBMessages`.  Its handler enters a
listener, acknowledges, and hands on what comes through the listener's channel until the stream's
context ends; then it takes the listener out again.  `WriteOOB` sends a message to every listener,
one after the other.  The channels have no buffer, and listeners are entered and taken out under
`serverMu`, which requests such as `InitializeSSHConnection` hold all the time.
-/

namespace Graft.Oob

open Function (update update_self update_of_ne)

/-! ### The server -/

structure OobMessage where
  coID : String
  data : List UInt8
  deriving DecidableEq

/-- Where the handler of `OOBMessages` is. -/
inductive ListenerPc
  | idle
  /-- in `listenToOOB` -/
  | registering
  /-- before the first `Send` has returned -/
  | acking
  /-- in the `select` -/
  | receiving
  /-- in `Send` -/
  | sending (msg : OobMessage)
  /-- the loop has ended, before `doneWithListener` -/
  | ended
  | gone
  deriving DecidableEq

/-- The handler is at its loop, or on its way to it. -/
def ListenerPc.Serving : ListenerPc → Prop
  | acking | receiving | sending _ => True
  | idle | registering | ended | gone => False

instance (pc : ListenerPc) : Decidable pc.Serving := by
  cases pc <;> dsimp only [ListenerPc.Serving] <;> infer_instance

/-- Where a request is; `locked` says whether it holds `serverMu`. -/
inductive WriterPc
  | idle
  /-- before `serverMu` -/
  | locking
  | running (locked : Bool)
  /-- in `WriteOOB`, with the listeners that are left -/
  | writing (locked : Bool) (msg : OobMessage) (listeners : List ℕ)
  | done
  deriving DecidableEq

/-- The listeners that a request has yet to send to. -/
def WriterPc.todo : WriterPc → List ℕ
  | writing _ _ listeners => listeners
  | idle | locking | running _ | done => []

/-- Whether a request holds `serverMu`. -/
def WriterPc.locked : WriterPc → Bool
  | running locked | writing locked _ _ => locked
  | idle | locking | done => false

structure Server where
  /-- which request holds `serverMu`; handlers hold it for one step only -/
  serverMu : Option ℕ
  oobListeners : List ℕ
  listener : ℕ → ListenerPc
  listenerCount : ℕ
  writer : ℕ → WriterPc
  writerCount : ℕ

namespace Server

def init : Server := ⟨none, [], fun _ => .idle, 0, fun _ => .idle, 0⟩

def setListener (w : Server) (l : ℕ) (pc : ListenerPc) : Server :=
  { w with listener := update w.listener l pc }

def setWriter (w : Server) (t : ℕ) (pc : WriterPc) : Server :=
  { w with writer := update w.writer t pc }

end Server

/-! ### Steps -/

inductive Event
  /-- `OOBMessages` -/
  | subscribe
  | register (l : ℕ)
  | ack (l : ℕ)
  | ackFailed (l : ℕ)
  /-- `Send` returns; an error is only logged -/
  | sent (l : ℕ) (msg : OobMessage)
  /-- the stream's context has ended -/
  | drop (l : ℕ)
  /-- `doneWithListener` -/
  | unregister (l : ℕ)
  /-- a request that takes `serverMu`, or one that does not -/
  | request (locks : Bool)
  | lock (t : ℕ)
  /-- `WriteOOB` takes the listeners, in some order -/
  | write (t : ℕ) (locked : Bool) (msg : OobMessage) (listeners : List ℕ)
  /-- a listener takes the message -/
  | send (t l : ℕ) (locked : Bool) (msg : OobMessage) (rest : List ℕ)
  /-- `WriteOOB` returns -/
  | written (t : ℕ) (locked : Bool) (msg : OobMessage)
  /-- the request returns -/
  | finish (t : ℕ) (locked : Bool)

namespace Event

def Enabled (w : Server) : Event → Prop
  | subscribe | request _ => True
  | register l => w.listener l = .registering ∧ w.serverMu = none
  | ack l | ackFailed l => w.listener l = .acking
  | sent l msg => w.listener l = .sending msg
  | drop l => w.listener l = .receiving
  | unregister l => w.listener l = .ended ∧ w.serverMu = none
  | lock t => w.writer t = .locking ∧ w.serverMu = none
  | write t locked _ listeners => w.writer t = .running locked ∧ listeners.Perm w.oobListeners
  | send t l locked msg rest =>
    w.writer t = .writing locked msg (l :: rest) ∧ w.listener l = .receiving
  | written t locked msg => w.writer t = .writing locked msg []
  | finish t locked => w.writer t = .running locked

instance (w : Server) (e : Event) : Decidable (e.Enabled w) := by
  cases e <;> dsimp only [Enabled] <;> infer_instance

def fire (w : Server) : Event → Server
  | subscribe =>
    { w.setListener w.listenerCount .registering with listenerCount := w.listenerCount + 1 }
  | register l => { w.setListener l .acking with oobListeners := l :: w.oobListeners }
  | ack l => w.setListener l .receiving
  | ackFailed l => w.setListener l .ended
  | sent l _ => w.setListener l .receiving
  | drop l => w.setListener l .ended
  | unregister l => { w.setListener l .gone with oobListeners := w.oobListeners.filter (· ≠ l) }
  | request locks =>
    { w.setWriter w.writerCount (if locks then .locking else .running false) with
      writerCount := w.writerCount + 1 }
  | lock t => { w.setWriter t (.running true) with serverMu := some t }
  | write t locked msg listeners => w.setWriter t (.writing locked msg listeners)
  | send t l locked msg rest => (w.setWriter t (.writing locked msg rest)).setListener l (.sending msg)
  | written t locked _ => w.setWriter t (.running locked)
  | finish t locked =>
    let w := w.setWriter t .done
    if locked then { w with serverMu := none } else w

/-- The step is one of the handler of listener `l` in its loop, or before it. -/
def Serves (l : ℕ) (e : Event) : Prop := e = .ack l ∨ ∃ msg, e = .sent l msg

end Event

def broadcast : Machine Server Event where
  enabled := fun w e => e.Enabled w
  fire := Event.fire

instance (w : Server) (e : Event) : Decidable (broadcast.enabled w e) :=
  inferInstanceAs (Decidable (e.Enabled w))

/-- A handler leaves its loop only while no request is about to send to its listener, and a request
takes the listeners only while none of them has ended. -/
def Attended (w : Server) : Event → Prop
  | .drop l | .ackFailed l => ∀ t < w.writerCount, l ∉ (w.writer t).todo
  | .write .. => ∀ l ∈ w.oobListeners, w.listener l ≠ .ended
  | _ => True

instance (w : Server) (e : Event) : Decidable (Attended w e) := by
  unfold Attended
  split <;> infer_instance

/-! ### The invariant -/

/-- Listeners that are entered are serving or have just ended; those that a request has yet to send
to are serving. -/
structure Inv (w : Server) : Prop where
  idle : ∀ t, w.writerCount ≤ t → w.writer t = .idle
  entered : ∀ l ∈ w.oobListeners, (w.listener l).Serving ∨ w.listener l = .ended
  fresh : ∀ l, w.listenerCount ≤ l → w.listener l = .idle
  todo : ∀ t, ∀ l ∈ (w.writer t).todo, (w.listener l).Serving

variable {w : Server}

theorem inv_init : Inv .init :=
  ⟨fun _ _ => rfl, nofun, fun _ _ => rfl, nofun⟩

/-- A handler moves on: it serves, or nobody is about to send to its listener. -/
theorem Inv.setListener (h : Inv w) {l : ℕ} {pc₀ pc : ListenerPc} (hat : w.listener l = pc₀)
    (hne : pc₀ ≠ .idle) (hentered : l ∈ w.oobListeners → pc.Serving ∨ pc = .ended)
    (htodo : ∀ t, l ∈ (w.writer t).todo → pc.Serving) : Inv (w.setListener l pc) where
  idle := h.idle
  entered l' hl' := by
    by_cases hl : l' = l
    · simp_all [Server.setListener]
    · have hother : (w.setListener l pc).listener l' = w.listener l' := update_of_ne hl ..
      rw [hother]
      exact h.entered l' hl'
  fresh l' hl' := by
    have hidle := h.fresh l' hl'
    have hother : l' ≠ l := by
      grind
    rw [← hidle]
    exact update_of_ne hother ..
  todo t l' hl' := by
    by_cases hl : l' = l
    · subst hl
      have hself : (w.setListener l' pc).listener l' = pc := update_self ..
      rw [hself]
      exact htodo t hl'
    · have hother : (w.setListener l pc).listener l' = w.listener l' := update_of_ne hl ..
      rw [hother]
      exact h.todo t l' hl'

theorem Inv.setWriter (h : Inv w) {t : ℕ} {pc₀ pc : WriterPc} (hat : w.writer t = pc₀)
    (hne : pc₀ ≠ .idle) (htodo : ∀ l ∈ pc.todo, (w.listener l).Serving) : Inv (w.setWriter t pc) where
  idle t' ht' := by
    have hidle := h.idle t' ht'
    have hother : t' ≠ t := by
      grind
    rw [← hidle]
    exact update_of_ne hother ..
  entered := h.entered
  fresh := h.fresh
  todo t' l hl := by
    by_cases ht : t' = t
    · simp_all [Server.setWriter]
    · have hother : (w.setWriter t pc).writer t' = w.writer t' := update_of_ne ht ..
      rw [hother] at hl
      exact h.todo t' l hl

theorem Inv.not_todo (h : Inv w) {l : ℕ} (hok : ∀ t < w.writerCount, l ∉ (w.writer t).todo) (t : ℕ) :
    l ∉ (w.writer t).todo := by
  grind [idle, WriterPc.todo]

theorem Inv.not_todo_of_not_serving (h : Inv w) {l : ℕ} (hl : ¬ (w.listener l).Serving) (t : ℕ) :
    l ∉ (w.writer t).todo :=
  fun hx => hl (h.todo t l hx)

theorem Inv.subscribe (h : Inv w) : Inv (Event.subscribe.fire w) := by
  have hidle := h.fresh w.listenerCount le_rfl
  have hother {l : ℕ} (hl : l ≠ w.listenerCount) :
      (Event.subscribe.fire w).listener l = w.listener l := update_of_ne hl ..
  refine ⟨h.idle, fun l hl => ?_, fun l hl => ?_, fun t l hl => ?_⟩
  · have hne : l ≠ w.listenerCount := by
      rintro rfl
      rcases h.entered _ hl with hs | hs
      · rw [hidle] at hs
        exact hs
      grind
    rw [hother hne]
    exact h.entered l hl
  · grind [fresh, Event.fire]
  · have hne : l ≠ w.listenerCount := by
      rintro rfl
      have hs := h.todo t _ hl
      rw [hidle] at hs
      exact hs
    rw [hother hne]
    exact h.todo t l hl

theorem Inv.register (h : Inv w) {l : ℕ} (hat : w.listener l = .registering) :
    Inv ((Event.register l).fire w) := by
  have hself : ((Event.register l).fire w).listener l = .acking := update_self ..
  have hmoved : Inv (w.setListener l .acking) :=
    h.setListener hat nofun (fun _ => .inl trivial) fun _ _ => trivial
  refine ⟨hmoved.idle, fun l' hl' => ?_, hmoved.fresh, hmoved.todo⟩
  rcases List.mem_cons.1 hl' with rfl | hl'
  · rw [hself]
    exact .inl trivial
  · exact hmoved.entered l' hl'

theorem Inv.unregister (h : Inv w) {l : ℕ} (hat : w.listener l = .ended) :
    Inv ((Event.unregister l).fire w) := by
  have hnot : ∀ t, l ∉ (w.writer t).todo := h.not_todo_of_not_serving (by rw [hat]; exact id)
  have hother {l' : ℕ} (hl : l' ≠ l) : ((Event.unregister l).fire w).listener l' = w.listener l' :=
    update_of_ne hl ..
  refine ⟨h.idle, fun l' hl' => ?_, fun l' hl' => ?_, fun t l' hl' => ?_⟩
  · grind [entered, Event.fire]
  · have hidle := h.fresh l' hl'
    grind
  · have hne : l' ≠ l := by
      rintro rfl
      exact hnot t hl'
    rw [hother hne]
    exact h.todo t l' hl'

theorem Inv.request (h : Inv w) (locks : Bool) : Inv ((Event.request locks).fire w) := by
  set pc : WriterPc := if locks then .locking else .running false with hpc
  have htodo : pc.todo = [] := by
    rw [hpc]
    split_ifs <;> rfl
  have hother {t : ℕ} (ht : t ≠ w.writerCount) :
      ((Event.request locks).fire w).writer t = w.writer t := update_of_ne ht ..
  refine ⟨fun t ht => ?_, h.entered, h.fresh, fun t l hl => ?_⟩
  · grind [idle, Event.fire]
  · by_cases ht : t = w.writerCount
    · subst ht
      have hself : ((Event.request locks).fire w).writer w.writerCount = pc :=
        update_self ..
      grind
    · rw [hother ht] at hl
      exact h.todo t l hl

theorem Inv.serving (h : Inv w) (hok : ∀ l ∈ w.oobListeners, w.listener l ≠ .ended) {l : ℕ}
    (hl : l ∈ w.oobListeners) : (w.listener l).Serving :=
  (h.entered l hl).resolve_right (hok l hl)

theorem Inv.send (h : Inv w) {t l : ℕ} {locked : Bool} {msg : OobMessage} {rest : List ℕ}
    (hwriter : w.writer t = .writing locked msg (l :: rest)) (hlistener : w.listener l = .receiving) :
    Inv ((Event.send t l locked msg rest).fire w) := by
  have hrest : ∀ l' ∈ rest, (w.listener l').Serving := by
    intro l' hl'
    refine h.todo t l' ?_
    grind [WriterPc.todo]
  have hmoved : Inv (w.setWriter t (.writing locked msg rest)) := h.setWriter hwriter nofun hrest
  exact hmoved.setListener hlistener nofun (fun _ => .inl trivial) fun _ _ => trivial

theorem Inv.event (h : Inv w) {e : Event} (he : e.Enabled w) (hok : Attended w e) :
    Inv (e.fire w) := by
  cases e with
  | subscribe => exact h.subscribe
  | register l => exact h.register he.1
  | ack l => exact h.setListener he nofun (fun _ => .inl trivial) fun _ _ => trivial
  | sent l msg => exact h.setListener he nofun (fun _ => .inl trivial) fun _ _ => trivial
  | ackFailed l | drop l =>
    exact h.setListener he nofun (fun _ => .inr rfl) fun t hl => absurd hl (h.not_todo hok t)
  | unregister l => exact h.unregister he.1
  | request locks => exact h.request locks
  | lock t =>
    have hmoved : Inv (w.setWriter t (.running true)) := h.setWriter he.1 nofun nofun
    exact ⟨hmoved.idle, hmoved.entered, hmoved.fresh, hmoved.todo⟩
  | write t locked msg listeners =>
    exact h.setWriter he.1 nofun fun l hl => h.serving hok (he.2.mem_iff.1 hl)
  | send t l locked msg rest => exact h.send he.1 he.2
  | written t locked msg => exact h.setWriter he nofun nofun
  | finish t locked =>
    have hmoved : Inv (w.setWriter t .done) := h.setWriter he nofun nofun
    dsimp only [Event.fire]
    split_ifs
    · exact ⟨hmoved.idle, hmoved.entered, hmoved.fresh, hmoved.todo⟩
    · exact hmoved

/-! ### The theorem -/

theorem exists_receiving {l : ℕ} (h : (w.listener l).Serving) :
    ∃ w', broadcast.Run (fun _ e => e.Serves l) w w' ∧ w'.listener l = .receiving ∧
      w'.writer = w.writer := by
  cases hpc : w.listener l with
  | receiving => exact ⟨w, .refl, hpc, rfl⟩
  | acking =>
    have hrun : broadcast.Run (fun _ e => e.Serves l) w ((Event.ack l).fire w) :=
      Machine.Run.step (e := Event.ack l) .refl hpc (Or.inl rfl)
    exact ⟨_, hrun, update_self .., rfl⟩
  | sending msg =>
    have hrun : broadcast.Run (fun _ e => e.Serves l) w ((Event.sent l msg).fire w) :=
      Machine.Run.step (e := Event.sent l msg) .refl hpc (Or.inr ⟨msg, rfl⟩)
    exact ⟨_, hrun, update_self .., rfl⟩
  | idle | registering | ended | gone =>
    rw [hpc] at h
    exact h.elim

/-- **A writer is served**: in every run in which handlers leave their loops, and requests take the
listeners, under the condition, the listener that a request is sending to has not ended, so that it
does not wait for `serverMu` either; and by steps of its own it comes to take the message. -/
theorem writers_served (hrun : broadcast.Run Attended .init w) (t l : ℕ) (locked : Bool)
    (msg : OobMessage) (rest : List ℕ) (hwriting : w.writer t = .writing locked msg (l :: rest)) :
    w.listener l ≠ .ended ∧ w.listener l ≠ .gone ∧
      ∃ w', broadcast.Run (fun _ e => e.Serves l) w w' ∧
        (Event.send t l locked msg rest).Enabled w' := by
  have hinv : Inv w := hrun.invariant inv_init fun _ _ h he hok => h.event he hok
  have hserving : (w.listener l).Serving := by
    refine hinv.todo t l ?_
    grind [WriterPc.todo]
  obtain ⟨w', hrun', hreceiving, hwriter⟩ := exists_receiving hserving
  refine ⟨fun hx => ?_, fun hx => ?_, w', hrun', ?_, hreceiving⟩
  · rw [hx] at hserving
    exact hserving
  · rw [hx] at hserving
    exact hserving
  · simp_all

/-- What `reinstallDaemon` writes. -/
def installing : OobMessage := ⟨"co", "installing daemon\n".toUTF8.toList⟩

/-- A client subscribes and its handler receives; then a request takes `serverMu`, and writes. -/
def initializes : List Event :=
  [.subscribe, .register 0, .ack 0, .request true, .lock 0, .write 0 true installing [0]]

/-- The theorem while a request holds `serverMu`. -/
theorem writers_served_locked :
    ∃ w, broadcast.Run Attended .init w ∧ w.serverMu = some 0 ∧
      ∃ w', broadcast.Run (fun _ e => e.Serves 0) w w' ∧
        (Event.send 0 0 true installing []).Enabled w' := by
  have hexec : ∃ w ∈ broadcast.exec Attended .init initializes,
      w.serverMu = some 0 ∧ w.writer 0 = .writing true installing [0] := by
    decide +kernel
  obtain ⟨w, hrun, hlocked, hwriting⟩ := Machine.exists_run_of_exec _ _ hexec
  exact ⟨w, hrun, hlocked, (writers_served hrun 0 0 true installing [] hwriting).2.2⟩

/-! ### The wedge -/

/-- Only one request holds `serverMu`. -/
def Exclusive (w : Server) : Prop := ∀ t, (w.writer t).locked = true → w.serverMu = some t

theorem Exclusive.setWriter (h : Exclusive w) (t : ℕ) {pc : WriterPc}
    (hpc : pc.locked = true → w.serverMu = some t) : Exclusive (w.setWriter t pc) := by
  intro t' ht'
  by_cases ht : t' = t
  · simp_all [Server.setWriter]
  · have hother : (w.setWriter t pc).writer t' = w.writer t' := update_of_ne ht ..
    rw [hother] at ht'
    exact h t' ht'

theorem Exclusive.event (h : Exclusive w) {e : Event} (he : e.Enabled w) : Exclusive (e.fire w) := by
  cases e with
  | subscribe | register | ack | ackFailed | sent | drop | unregister => exact h
  | request locks =>
    refine h.setWriter w.writerCount fun hx => ?_
    split_ifs at hx <;> cases hx
  | lock t =>
    intro t' ht'
    by_cases ht : t' = t
    · rw [ht]
      rfl
    · have hother : ((Event.lock t).fire w).writer t' = w.writer t' := update_of_ne ht ..
      grind [Exclusive, Event.Enabled]
  | write t locked msg listeners => exact h.setWriter t fun hx => h t (by rw [he.1]; exact hx)
  | send t l locked msg rest => exact h.setWriter t fun hx => h t (by rw [he.1]; exact hx)
  | written t locked msg => exact h.setWriter t fun hx => h t (by rw [he]; exact hx)
  | finish t locked =>
    cases locked with
    | false => exact h.setWriter t nofun
    | true =>
      intro t' ht'
      have hheld : w.serverMu = some t := h t (by rw [he]; rfl)
      by_cases ht : t' = t
      · subst ht
        have hself : ((Event.finish t' true).fire w).writer t' = .done := update_self ..
        rw [hself] at ht'
        cases ht'
      · have hother : ((Event.finish t true).fire w).writer t' = w.writer t' :=
          update_of_ne ht ..
        grind [Exclusive]

/-- Request `t` holds `serverMu` and waits for listener `l`, which has ended. -/
structure Wedged (w : Server) (t l : ℕ) (msg : OobMessage) (rest : List ℕ) : Prop where
  exclusive : Exclusive w
  writing : w.writer t = .writing true msg (l :: rest)
  ended : w.listener l = .ended
  fresh : l < w.listenerCount ∧ t < w.writerCount

/-- **A wedge stays.** -/
theorem Wedged.event {t l : ℕ} {msg : OobMessage} {rest : List ℕ} (h : Wedged w t l msg rest)
    {e : Event} (he : e.Enabled w) : Wedged (e.fire w) t l msg rest := by
  have hheld : w.serverMu = some t := h.exclusive t (by rw [h.writing]; rfl)
  have hlocked : w.serverMu ≠ none := by rw [hheld]; nofun
  -- another handler moves on
  have hlistener {l' : ℕ} {pc : ListenerPc} (hne : w.listener l' ≠ .ended) :
      (w.setListener l' pc).listener l = .ended := by
    have hl : l ≠ l' := by
      grind [ended]
    exact (update_of_ne hl ..).trans h.ended
  -- another request moves on
  have hwriter {t' : ℕ} {pc : WriterPc} (hne : w.writer t' ≠ .writing true msg (l :: rest)) :
      (w.setWriter t' pc).writer t = .writing true msg (l :: rest) := by
    have ht : t ≠ t' := by
      grind [writing]
    exact (update_of_ne ht ..).trans h.writing
  refine ⟨h.exclusive.event he, ?_, ?_, ?_⟩
  · cases e with
    | subscribe | register | ack | ackFailed | sent | drop | unregister => exact h.writing
    | request locks => exact (update_of_ne h.fresh.2.ne ..).trans h.writing
    | lock t' => exact absurd he.2 hlocked
    | write t' locked msg' listeners => exact hwriter (by rw [he.1]; nofun)
    | send t' l' locked msg' rest' =>
      refine hwriter ?_
      intro hx
      rw [he.1] at hx
      cases hx
      have hreceiving := he.2
      rw [h.ended] at hreceiving
      cases hreceiving
    | written t' locked msg' => exact hwriter (by rw [he]; nofun)
    | finish t' locked =>
      grind [Event.fire, Event.Enabled]
  · cases e with
    | subscribe => exact (update_of_ne h.fresh.1.ne ..).trans h.ended
    | register l' => exact absurd he.2 hlocked
    | unregister l' => exact absurd he.2 hlocked
    | ack l' | ackFailed l' | drop l' => exact hlistener (by rw [he]; nofun)
    | sent l' msg' => exact hlistener (by rw [he]; nofun)
    | send t' l' locked msg' rest' => exact hlistener (by rw [he.2]; nofun)
    | request | lock | write | written => exact h.ended
    | finish t' locked => cases locked <;> exact h.ended
  · cases e with
    | subscribe => exact ⟨h.fresh.1.trans (Nat.lt_succ_self _), h.fresh.2⟩
    | request => exact ⟨h.fresh.1, h.fresh.2.trans (Nat.lt_succ_self _)⟩
    | finish t' locked => cases locked <;> exact h.fresh
    | register | ack | ackFailed | sent | drop | unregister | lock | write | send | written =>
      exact h.fresh

/-- The client drops its stream before the message is taken: the request holds `serverMu` and waits
for a listener that has ended and waits for `serverMu`, and so it stays whatever happens. -/
theorem writer_wedged :
    ∃ w, broadcast.Reachable .init w ∧ ∀ w', broadcast.Reachable w w' →
      w'.serverMu = some 0 ∧ w'.writer 0 = .writing true installing [0] ∧ w'.listener 0 = .ended := by
  have hexec : ∃ w ∈ broadcast.exec (fun _ _ => True) .init (initializes ++ [.drop 0]),
      w.writer 0 = .writing true installing [0] ∧ w.listener 0 = .ended ∧
        0 < w.listenerCount ∧ 0 < w.writerCount := by
    decide +kernel
  obtain ⟨w, hrun, hwriting, hended, hfresh⟩ := Machine.exists_run_of_exec _ _ hexec
  have hinit : Exclusive .init := by
    intro t ht
    cases ht
  have hexclusive : Exclusive w := hrun.invariant hinit fun _ _ h he _ => h.event he
  have hwedged : Wedged w 0 0 installing [] := ⟨hexclusive, hwriting, hended, hfresh⟩
  refine ⟨w, hrun, fun w' hrun' => ?_⟩
  have hstays : Wedged w' 0 0 installing [] :=
    hrun'.invariant (I := fun w => Wedged w 0 0 installing []) hwedged
      fun _ _ h he _ => h.event he
  exact ⟨hstays.exclusive 0 (by rw [hstays.writing]; rfl), hstays.writing, hstays.ended⟩

end Graft.Oob
