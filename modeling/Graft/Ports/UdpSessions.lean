import Graft.Library.Machine
import Graft.Library.Table

/-!
# Sessions of a UDP forward (`pkg/remote_daemon.go`)

`handleUDPForward` relays the datagrams of each client address in a session of its own, and keeps the
sessions in a table by address.  A session whose stream fails is replaced by the next one.  When a
session ends, its goroutine deletes the entry of its address, without a look at whose entry it is.

A session is counted from when it is stored.  The payloads are left out, and whether a stream opens,
a datagram is sent and a reply comes is left to the environment.
-/

namespace Graft.Udp

open Function (update update_self update_of_ne)

variable {w : State} {key : String}

/-- `udpSessionTimeout`, in seconds. -/
def udpSessionTimeout : ℕ := 30

inductive Loop
  | reading
  /-- before the `Send` to the session it has found -/
  | sending (sessionKey : String) (i : ℕ)
  /-- the `Send` has failed and the session is canceled -/
  | deleting (sessionKey : String) (i : ℕ)
  /-- in `startUDPSession` -/
  | starting (sessionKey : String)
  /-- with a session that is not stored yet -/
  | storing (sessionKey : String)
  | returned
  deriving DecidableEq

inductive Pc
  | receiving
  /-- in the clean-up, after the `cancel` -/
  | deleting
  | done
  deriving DecidableEq

structure State where
  sessions : AList fun _ : String => ℕ
  loop : Loop
  /-- the sessions that were stored: their number, and for each its address, when it was last used,
  whether its context is canceled, and where its goroutine is; the next one is the one that the loop
  is about to store -/
  count : ℕ
  sessionKey : ℕ → String
  lastUsed : ℕ → ℕ
  canceled : ℕ → Bool
  pc : ℕ → Pc
  /-- the goroutine that reaps runs until `listenerCtx` is done -/
  reaping : Bool
  relayCanceled : Bool
  now : ℕ

namespace State

def init : State where
  sessions := ∅
  loop := .reading
  count := 0
  sessionKey _ := ""
  lastUsed _ := 0
  canceled _ := false
  pc _ := .done
  reaping := true
  relayCanceled := false
  now := 0

variable (w : State)

/-- The sessions in the table that satisfy `p` are canceled and deleted. -/
def cancel (p : ℕ → Bool) : State :=
  { w with
    sessions := sweep (fun _ i => p i) w.sessions
    canceled := fun i => w.canceled i || w.sessions.entries.any fun e => e.2 = i && p i }

end State

/-- The steps of the loop, of the sessions and of the reaper, and what happens to the contexts. -/
inductive Event
  /-- a datagram comes, and its session is looked up -/
  | datagram (sessionKey : String)
  /-- the socket is closed -/
  | readFails
  | sent (sessionKey : String) (i : ℕ)
  | sendFails (sessionKey : String) (i : ℕ)
  | delete (sessionKey : String) (i : ℕ)
  | started (sessionKey : String)
  | startFails (sessionKey : String)
  | store (sessionKey : String)
  /-- the stream of a session ends, or a reply cannot be written -/
  | streamEnds (i : ℕ)
  /-- the clean-up of the session -/
  | cleanup (i : ℕ)
  | reap
  /-- `listenerCtx` is done -/
  | shutdown
  /-- `relayCtx` is done -/
  | relayDone
  | elapse (seconds : ℕ)
  deriving DecidableEq

namespace Event

def Enabled (w : State) : Event → Prop
  | datagram _ | readFails => w.loop = .reading
  | sent key i | sendFails key i => w.loop = .sending key i
  | delete key i => w.loop = .deleting key i
  | started key | startFails key => w.loop = .starting key
  | store key => w.loop = .storing key
  | streamEnds i => i < w.count ∧ w.pc i = .receiving
  | cleanup i => i < w.count ∧ w.pc i = .deleting
  | reap | shutdown => w.reaping = true
  | relayDone | elapse _ => True

instance (w : State) (e : Event) : Decidable (e.Enabled w) := by
  cases e <;> dsimp only [Enabled] <;> infer_instance

def fire (w : State) : Event → State
  | datagram key =>
    match w.sessions.lookup key with
    | some i => { w with loop := .sending key i, lastUsed := update w.lastUsed i w.now }
    | none => { w with loop := .starting key }
  | readFails => { w with loop := .returned }
  | sent _ _ | startFails _ => { w with loop := .reading }
  | sendFails key i => { w with loop := .deleting key i, canceled := update w.canceled i true }
  | delete key _ => { w with loop := .starting key, sessions := w.sessions.erase key }
  | started key =>
    { w with
      loop := .storing key
      canceled := update w.canceled w.count w.relayCanceled
      lastUsed := update w.lastUsed w.count w.now }
  | store key =>
    { w with
      loop := .reading
      sessions := w.sessions.insert key w.count
      count := w.count + 1
      sessionKey := update w.sessionKey w.count key
      pc := update w.pc w.count .receiving }
  | streamEnds i =>
    { w with pc := update w.pc i .deleting, canceled := update w.canceled i true }
  | cleanup i =>
    { w with pc := update w.pc i .done, sessions := w.sessions.erase (w.sessionKey i) }
  | reap => w.cancel fun i => udpSessionTimeout < w.now - w.lastUsed i
  | shutdown => { w.cancel fun _ => true with reaping := false }
  | relayDone => { w with canceled := fun _ => true, relayCanceled := true }
  | elapse seconds => { w with now := w.now + seconds }

end Event

def udp : Machine State Event := ⟨Event.Enabled, Event.fire⟩

instance (w : State) (e : Event) : Decidable (udp.enabled w e) :=
  inferInstanceAs (Decidable (e.Enabled w))

/-- A session is stored only when the earlier ones of its address have cleaned up. -/
def AfterCleanup (w : State) : Event → Prop
  | .store key => ∀ i < w.count, w.sessionKey i = key → w.pc i = .done
  | _ => True

/-! ### The invariant -/

/-- The loop is the only one to store: what it has found stays, or is deleted. -/
def Loop.Sound (w : State) : Loop → Prop
  | .sending key i => ∀ j ∈ w.sessions.lookup key, j = i
  | .deleting key i => w.canceled i = true ∧ ∀ j ∈ w.sessions.lookup key, j = i
  | .starting key | .storing key => w.sessions.lookup key = none
  | .reading | .returned => True

/-- At most one session of each address has not cleaned up, and none that has is in the table. -/
structure Single (w : State) : Prop where
  entries : ∀ key i, w.sessions.lookup key = some i → w.pc i ≠ .done
  unique : ∀ i < w.count, ∀ j < w.count, w.pc i ≠ .done → w.pc j ≠ .done →
    w.sessionKey i = w.sessionKey j → i = j

/-- Sessions that are not canceled are in the table. -/
structure Tracked (w : State) : Prop where
  keys : ∀ key i, w.sessions.lookup key = some i → i < w.count ∧ w.sessionKey i = key
  deleting : ∀ i < w.count, w.pc i = .deleting → w.canceled i = true
  loop : w.loop.Sound w
  covers : Covers w.sessions (fun i => i < w.count ∧ w.canceled i = false) w.sessionKey

theorem canceled_cancel {p : ℕ → Bool} {i : ℕ} (h : (w.cancel p).canceled i = false) :
    w.canceled i = false ∧ ∀ key, w.sessions.lookup key = some i → p i = false := by
  simp only [State.cancel, Bool.or_eq_false_iff, List.any_eq_false, Bool.and_eq_true,
    decide_eq_true_eq, not_and, Bool.not_eq_true] at h
  exact ⟨h.1, fun key hkey => h.2 ⟨key, i⟩ (AList.mem_lookup_iff.1 hkey) rfl⟩

theorem canceled_cancel_of (p : ℕ → Bool) {i : ℕ} (h : w.canceled i = true) :
    (w.cancel p).canceled i = true := by
  simp [State.cancel, h]

theorem Loop.Sound.shrink {w w' : State} {loop : Loop} (h : loop.Sound w)
    (hsessions : ∀ key i, w'.sessions.lookup key = some i → w.sessions.lookup key = some i)
    (hcanceled : ∀ i, w.canceled i = true → w'.canceled i = true) : loop.Sound w' := by
  have hnone : ∀ {key}, w.sessions.lookup key = none → w'.sessions.lookup key = none := by
    intro key hkey
    refine Option.eq_none_iff_forall_ne_some.2 fun i hi => ?_
    grind
  cases loop with
  | reading | returned => trivial
  | sending key i => exact fun j hj => h j (hsessions key j hj)
  | deleting key i => exact ⟨hcanceled i h.1, fun j hj => h.2 j (hsessions key j hj)⟩
  | starting key => exact hnone h
  | storing key => exact hnone h

namespace Tracked

variable {w : State} (h : Tracked w)
include h

theorem goto {loop : Loop} (hloop : loop.Sound w) : Tracked { w with loop := loop } where
  keys := h.keys
  deleting := h.deleting
  loop := by
    cases loop with
    | _ => exact hloop
  covers := h.covers

theorem frame (lastUsed : ℕ → ℕ) (reaping relayCanceled : Bool) (now : ℕ) :
    Tracked { w with
      lastUsed := lastUsed
      reaping := reaping
      relayCanceled := relayCanceled
      now := now } where
  keys := h.keys
  deleting := h.deleting
  loop := h.loop.shrink (fun _ _ hx => hx) fun _ hx => hx
  covers := h.covers

theorem setPc (i : ℕ) {pc : Pc} (hpc : pc = .deleting → w.canceled i = true) :
    Tracked { w with pc := update w.pc i pc } where
  keys := h.keys
  deleting j hj hdeleting := by
    dsimp only at hdeleting
    by_cases hne : j = i
    · subst hne
      rw [update_self] at hdeleting
      exact hpc hdeleting
    · rw [update_of_ne hne] at hdeleting
      exact h.deleting j hj hdeleting
  loop := h.loop.shrink (fun _ _ hx => hx) fun _ hx => hx
  covers := h.covers

theorem setCanceled {canceled : ℕ → Bool}
    (hcanceled : ∀ i, w.canceled i = true → canceled i = true) :
    Tracked { w with canceled := canceled } where
  keys := h.keys
  deleting i hi hpc := hcanceled i (h.deleting i hi hpc)
  loop := h.loop.shrink (fun _ _ hx => hx) hcanceled
  covers := h.covers.mono fun i ⟨hi, hlive⟩ => by
    refine ⟨⟨hi, ?_⟩, rfl⟩
    by_contra hx
    cases hlive.symm.trans (hcanceled i (Bool.eq_true_of_not_eq_false hx))

theorem cancelOne (i : ℕ) : Tracked { w with canceled := update w.canceled i true } := by
  grind [setCanceled]

theorem erase (hkey : ∀ j ∈ w.sessions.lookup key, w.canceled j = true) :
    Tracked { w with sessions := w.sessions.erase key } where
  keys key' i hi := h.keys key' i (lookup_of_erase hi).2
  deleting := h.deleting
  loop := h.loop.shrink (fun _ _ hi => (lookup_of_erase hi).2) fun _ hx => hx
  covers := h.covers.erase fun i hi => by
    refine ⟨⟨hi, rfl⟩, ?_⟩
    rintro rfl
    rw [hkey i (h.covers i hi)] at hi
    cases hi.2

theorem cancel (p : ℕ → Bool) : Tracked (w.cancel p) where
  keys key i hi := by
    rw [State.cancel, lookup_sweep, Option.filter_eq_some_iff] at hi
    exact h.keys key i hi.1
  deleting i hi hpc := canceled_cancel_of p (h.deleting i hi hpc)
  loop := by
    refine h.loop.shrink (fun key i hi => ?_) fun i hi => canceled_cancel_of p hi
    rw [State.cancel, lookup_sweep, Option.filter_eq_some_iff] at hi
    exact hi.1
  covers := h.covers.sweep fun i ⟨hi, hlive⟩ => by
    obtain ⟨hold, hp⟩ := canceled_cancel hlive
    exact ⟨⟨⟨hi, hold⟩, rfl⟩, hp _ (h.covers i ⟨hi, hold⟩)⟩

theorem store (hkey : w.sessions.lookup key = none) : Tracked ((Event.store key).fire w) where
  keys key' i hi := by
    dsimp only [Event.fire]
    rcases lookup_insert_cases hi with ⟨rfl, rfl⟩ | ⟨-, hold⟩
    · simp
    · obtain ⟨hlt, hkey'⟩ := h.keys key' i hold
      grind
  deleting i hi hpc := by
    dsimp only [Event.fire] at hi hpc
    have hne : i ≠ w.count := by
      grind
    rw [update_of_ne hne] at hpc
    exact h.deleting i (by omega) hpc
  loop := trivial
  covers := by
    refine h.covers.insert (fun _ => update_self ..) fun i ⟨hi, hlive⟩ hne => ?_
    dsimp only [Event.fire] at hi
    have hold : i < w.count ∧ w.canceled i = false := ⟨by omega, hlive⟩
    refine ⟨⟨hold, update_of_ne hne ..⟩, ?_⟩
    rintro rfl
    cases hkey.symm.trans (h.covers i hold)

theorem started (hkey : w.sessions.lookup key = none) : Tracked ((Event.started key).fire w) where
  keys := h.keys
  deleting i hi hpc := by
    simp_all [LT.lt.ne, deleting, Event.fire]
  loop := hkey
  covers := h.covers.mono fun i ⟨hi, hlive⟩ => by
    simp_all [LT.lt.ne, Event.fire]

/-- A clean-up finds the entry of its own session, or none. -/
theorem own_entry (hs : Single w) {i : ℕ} (he : (Event.cleanup i).Enabled w) :
    ∀ j ∈ w.sessions.lookup (w.sessionKey i), j = i := by
  intro j hj
  obtain ⟨hlt, hkey⟩ := h.keys _ j hj
  have hpc : w.pc i ≠ .done := by simp [he.2]
  exact hs.unique j hlt i he.1 (hs.entries _ j hj) hpc hkey

theorem fire (hs : Single w) {e : Event} (he : e.Enabled w) : Tracked (e.fire w) := by
  have hloop := h.loop
  cases e with
  | datagram key =>
    dsimp only [Event.fire]
    split
    next i hi =>
      have hfound : (Loop.sending key i).Sound w := by
        grind [Loop.Sound]
      exact (h.goto hfound).frame ..
    next hnone => exact h.goto hnone
  | readFails => exact h.goto trivial
  | sent key i => exact h.goto trivial
  | startFails key => exact h.goto trivial
  | sendFails key i =>
    rw [show w.loop = _ from he] at hloop
    exact (h.cancelOne i).goto ⟨update_self .., hloop⟩
  | delete key i =>
    rw [show w.loop = _ from he] at hloop
    refine (h.erase fun j hj => ?_).goto (AList.lookup_erase key w.sessions)
    rw [hloop.2 j hj]
    exact hloop.1
  | started key =>
    rw [show w.loop = _ from he] at hloop
    exact h.started hloop
  | store key =>
    rw [show w.loop = _ from he] at hloop
    exact h.store hloop
  | streamEnds i => exact (h.cancelOne i).setPc i fun _ => update_self ..
  | cleanup i =>
    refine (h.erase fun j hj => ?_).setPc i nofun
    rw [h.own_entry hs he j hj]
    exact h.deleting i he.1 he.2
  | reap => exact h.cancel _
  | shutdown => exact (h.cancel fun _ => true).frame ..
  | relayDone =>
    have hall : Tracked { w with canceled := fun _ => true } := h.setCanceled fun _ _ => rfl
    exact hall.frame ..
  | elapse seconds => exact h.frame ..

end Tracked

theorem Tracked.init : Tracked .init where
  keys _ _ hx := nomatch hx
  deleting _ hx := nomatch hx
  loop := trivial
  covers _ hx := absurd hx.1 (Nat.not_lt_zero _)

/-- Steps by which entries go, and sessions do not come back. -/
theorem Single.shrink {w w' : State} (h : Single w) (hcount : w'.count = w.count)
    (hkey : w'.sessionKey = w.sessionKey)
    (hsessions : ∀ key i, w'.sessions.lookup key = some i →
      w.sessions.lookup key = some i ∧ (w'.pc i = .done → w.pc i = .done))
    (hpc : ∀ i, w.pc i = .done → w'.pc i = .done) : Single w' where
  entries key i hi hdone := h.entries key i (hsessions key i hi).1 ((hsessions key i hi).2 hdone)
  unique i hi j hj hpi hpj hij := by
    rw [hkey] at hij
    exact h.unique i (hcount ▸ hi) j (hcount ▸ hj) (fun hx => hpi (hpc i hx))
      (fun hx => hpj (hpc j hx)) hij

theorem Single.store (h : Single w) (ht : Tracked w) (hok : AfterCleanup w (.store key)) :
    Single ((Event.store key).fire w) where
  entries key' i hi := by
    dsimp only [Event.fire]
    rcases lookup_insert_cases hi with ⟨rfl, rfl⟩ | ⟨-, hold⟩
    · simp
    · rw [update_of_ne (ht.keys key' i hold).1.ne]
      exact h.entries key' i hold
  unique i hi j hj hpi hpj hij := by
    have hold : ∀ i < w.count + 1, update w.pc w.count Pc.receiving i ≠ .done → i ≠ w.count →
        i < w.count ∧ w.pc i ≠ .done ∧ w.sessionKey i ≠ key ∧
          update w.sessionKey w.count key i = w.sessionKey i := by
      intro i hi hpc hne
      rw [update_of_ne hne] at hpc
      exact ⟨by omega, hpc, fun hx => hpc (hok i (by omega) hx), update_of_ne hne ..⟩
    dsimp only [Event.fire] at hi hj hpi hpj hij
    by_cases hic : i = w.count <;> by_cases hjc : j = w.count
    · rw [hic, hjc]
    · obtain ⟨-, -, hne, heq⟩ := hold j hj hpj hjc
      rw [hic, update_self, heq] at hij
      exact absurd hij.symm hne
    · obtain ⟨-, -, hne, heq⟩ := hold i hi hpi hic
      rw [hjc, update_self, heq] at hij
      exact absurd hij hne
    · obtain ⟨hi', hpi', -, heq⟩ := hold i hi hpi hic
      obtain ⟨hj', hpj', -, heq'⟩ := hold j hj hpj hjc
      rw [heq, heq'] at hij
      exact h.unique i hi' j hj' hpi' hpj' hij

theorem Single.fire (h : Single w) (ht : Tracked w) {e : Event} (he : e.Enabled w)
    (hok : AfterCleanup w e) : Single (e.fire w) := by
  have hsame : ∀ key i, w.sessions.lookup key = some i →
      w.sessions.lookup key = some i ∧ (w.pc i = .done → w.pc i = .done) := fun _ _ hi => ⟨hi, id⟩
  have hsweep : ∀ (p : ℕ → Bool) key i, (w.cancel p).sessions.lookup key = some i →
      w.sessions.lookup key = some i ∧ (w.pc i = .done → w.pc i = .done) := by
    intro p key i hi
    rw [State.cancel, lookup_sweep, Option.filter_eq_some_iff] at hi
    exact hsame key i hi.1
  cases e with
  | datagram key =>
    dsimp only [Event.fire]
    split
    · exact h.shrink rfl rfl hsame fun _ => id
    · exact h.shrink rfl rfl hsame fun _ => id
  | store key => exact h.store ht hok
  | delete key i =>
    exact h.shrink rfl rfl (fun _ _ hi => hsame _ _ (lookup_of_erase hi).2) fun _ => id
  | streamEnds i =>
    refine h.shrink rfl rfl (fun key j hj => ⟨hj, fun hx => ?_⟩) fun j hj => ?_
    · dsimp only [Event.fire] at hx
      grind
    · have hne : j ≠ i := by
        rintro rfl
        cases he.2.symm.trans hj
      simpa [Event.fire, update_of_ne hne] using hj
  | cleanup i =>
    refine h.shrink rfl rfl (fun key j hj => ?_) fun j hj => ?_
    · obtain ⟨hkey, hold⟩ := lookup_of_erase hj
      refine ⟨hold, fun hx => ?_⟩
      have hne : j ≠ i := by
        rintro rfl
        exact hkey (ht.keys key j hold).2.symm
      simpa [Event.fire, update_of_ne hne] using hx
    · dsimp only [Event.fire]
      grind
  | reap => exact h.shrink rfl rfl (hsweep _) fun _ => id
  | shutdown => exact h.shrink rfl rfl (hsweep _) fun _ => id
  | _ => exact h.shrink rfl rfl hsame fun _ => id

theorem Single.init : Single .init where
  entries _ _ hx := nomatch hx
  unique _ hx := nomatch hx

theorem tracked_of_run (h : udp.Run AfterCleanup .init w) : Tracked w ∧ Single w :=
  h.invariant (I := fun w => Tracked w ∧ Single w) ⟨.init, .init⟩
    fun _ _ ⟨ht, hs⟩ he hok => ⟨ht.fire hs he, hs.fire ht he hok⟩

/-! ### The result -/

/-- **Sessions that are not canceled are in the table**, one for each address; the session that the
loop is about to store is the only one of its address; and a clean-up deletes no entry but that of
its own session.  All of it in runs in which no session is stored before the earlier ones of its
address have cleaned up. -/
theorem sessions_in_table {w : State} (h : udp.Run AfterCleanup .init w) :
    (∀ i < w.count, w.canceled i = false → w.sessions.lookup (w.sessionKey i) = some i) ∧
    (∀ i < w.count, ∀ j < w.count, w.canceled i = false → w.canceled j = false →
      w.sessionKey i = w.sessionKey j → i = j) ∧
    (∀ key, w.loop = .storing key →
      ∀ i < w.count, w.canceled i = false → w.sessionKey i ≠ key) ∧
    ∀ i, udp.enabled w (.cleanup i) → ∀ key,
      (udp.fire w (.cleanup i)).sessions.lookup key = w.sessions.lookup key ∨
        w.sessions.lookup key = some i := by
  obtain ⟨ht, hs⟩ := tracked_of_run h
  refine ⟨fun i hi hlive => ht.covers i ⟨hi, hlive⟩, fun i hi j hj hlive hlive' hkey => ?_,
    fun key hloop i hi hlive hkey => ?_, fun i he key => ?_⟩
  · exact ht.covers.unique ⟨hi, hlive⟩ ⟨hj, hlive'⟩ hkey
  · have hfree := ht.loop
    rw [hloop] at hfree
    cases hfree.symm.trans (hkey ▸ ht.covers i ⟨hi, hlive⟩)
  · by_cases hkey : key = w.sessionKey i
    · subst hkey
      cases hlookup : w.sessions.lookup (w.sessionKey i) with
      | none => exact .inl (AList.lookup_erase ..)
      | some j => exact .inr (congrArg some (ht.own_entry hs he j hlookup))
    · exact .inl (AList.lookup_erase_ne hkey)

instance (w : State) (e : Event) : Decidable (AfterCleanup w e) := by
  cases e <;> dsimp only [AfterCleanup] <;> infer_instance

/-- A datagram comes from an address that has no session, and gets one. -/
def openSession (key : String) : List Event := [.datagram key, .started key, .store key]

/-- A datagram cannot be sent to session `i`, and its address gets another session. -/
def replaceSession (key : String) (i : ℕ) : List Event :=
  [.datagram key, .sendFails key i, .delete key i, .started key, .store key]

/-- The theorem when the first session of an address has cleaned up and the second one is stored. -/
theorem sessions_in_table_two : ∃ w, udp.Run AfterCleanup .init w ∧ w.pc 0 = .done ∧
    w.sessions.lookup "a" = some 2 ∧ w.sessions.lookup "b" = some 1 := by
  have hexec : ∃ w ∈ udp.exec AfterCleanup .init
      (openSession "a" ++ openSession "b" ++ [.streamEnds 0, .cleanup 0] ++ openSession "a"),
      w.pc 0 = .done ∧ 2 < w.count ∧ (w.canceled 1 = false ∧ w.sessionKey 1 = "b") ∧
        w.canceled 2 = false ∧ w.sessionKey 2 = "a" := by
    decide +kernel
  obtain ⟨w, hrun, hpc, hcount, ⟨hlive, hkey⟩, hlive', hkey'⟩ := Machine.exists_run_of_exec _ _ hexec
  obtain ⟨htable, -⟩ := sessions_in_table hrun
  have hb := htable 1 (by omega) hlive
  have ha := htable 2 (by omega) hlive'
  rw [hkey] at hb
  rw [hkey'] at ha
  exact ⟨w, hrun, hpc, ha, hb⟩

/-- The `Send` to session 0 fails, and session 1 is stored in its place.  Then session 0 cleans up,
and deletes the entry of session 1, which is not canceled.  The next datagram of the address gets a
third session, beside it. -/
theorem cleanup_deletes_successor :
    (∃ w, udp.Reachable .init w ∧ udp.enabled w (.cleanup 0) ∧ w.sessions.lookup "a" = some 1 ∧
      (udp.fire w (.cleanup 0)).sessions.lookup "a" = none ∧
      (udp.fire w (.cleanup 0)).canceled 1 = false) ∧
    ∃ w, udp.Reachable .init w ∧ w.count = 3 ∧ w.sessionKey 1 = "a" ∧ w.sessionKey 2 = "a" ∧
      w.canceled 1 = false ∧ w.canceled 2 = false ∧ w.sessions.lookup "a" = some 2 := by
  have hdeletes : ∃ w ∈ udp.exec (fun _ _ => True) .init
      (openSession "a" ++ replaceSession "a" 0 ++ [.streamEnds 0]),
      udp.enabled w (.cleanup 0) ∧ w.sessions.lookup "a" = some 1 ∧
        (udp.fire w (.cleanup 0)).sessions.lookup "a" = none ∧
        (udp.fire w (.cleanup 0)).canceled 1 = false := by
    decide +kernel
  have htwo : ∃ w ∈ udp.exec (fun _ _ => True) .init
      (openSession "a" ++ replaceSession "a" 0 ++ [.streamEnds 0, .cleanup 0] ++ openSession "a"),
      w.count = 3 ∧ w.sessionKey 1 = "a" ∧ w.sessionKey 2 = "a" ∧
        w.canceled 1 = false ∧ w.canceled 2 = false ∧ w.sessions.lookup "a" = some 2 := by
    decide +kernel
  exact ⟨Machine.exists_run_of_exec _ _ hdeletes, Machine.exists_run_of_exec _ _ htwo⟩

end Graft.Udp
