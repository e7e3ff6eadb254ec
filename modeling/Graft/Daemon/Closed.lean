import Graft.Daemon.Lifecycle

/-!
# A closed daemon stays closed

Once `Close` has run, the daemon should stay closed, and when no thread is at work on it any more,
everything it opened should be closed.

`doInitialize` sets the state when it ends, and `ensureDaemon` stores the connection it has made,
whether the daemon was closed in the meantime or not: `closed_then_connected`.  And an attempt to
reconnect that fails after `InitializeRemote` leaves its transport to be overwritten by the next
one.  `closed_final`: in every run in which the state, the connection and the transport are only set
while the daemon is not closed, and a transport only where there is none, closed is final.
-/

namespace Graft.Lifecycle

open Function (update update_self update_of_ne)

variable {pc₀ : Pc} {s : Step} {w : Daemon}

def Daemon.Quiet (w : Daemon) : Prop := ∀ t < w.opCount, w.op t = .done

instance (w : Daemon) : Decidable w.Quiet := by
  unfold Daemon.Quiet
  infer_instance

/-- The steps that respect a `Close`: `setState` in `doInitialize` and `setConnectedState` happen
only while the daemon is not closed, and a transport is stored only then and only if there is none.
-/
def RespectsClose (w : Daemon) : Event → Prop
  | .step _ .setConnected | .step _ .setFailed | .step _ (.setConnectedState _ _) =>
    w.closed = false
  | .step _ (.initializeRemote _ true) => w.closed = false ∧ w.sshClient = none
  | _ => True

instance (w : Daemon) (e : Event) : Decidable (RespectsClose w e) := by
  unfold RespectsClose
  split <;> infer_instance

/-! ### Who is at work -/

inductive Role
  | other
  /-- in `doInitialize`, before it sets the state -/
  | initializes
  /-- `Reconnect` has not started -/
  | enters
  | reconnects
  deriving DecidableEq

/-- The role of whoever runs `ensureDaemon`. -/
def Caller.role : Caller → Role
  | doInitialize => .initializes
  | reconnectOnce => .reconnects

namespace Pc

def role : Pc → Role
  | transport k | install k | probing k | probed k _ | redialing k | storing k _ => k.role
  | callback | succeeding | failing => .initializes
  | entering => .enters
  | taking | closingOld _ | closingTransport | checking _ | waiting => .reconnects
  | idle | deinit | closing _ | closingConnector | done => .other

/-- The thread has seen to it that the daemon has no connection. -/
def cleared : Pc → Bool
  | transport _ | install _ | probing _ | probed _ _ | redialing _ | storing _ _ | callback | failing
  | closingOld _ | closingTransport | checking false | waiting => true
  | _ => false

def conn : Pc → Option ℕ
  | probed _ c | closingOld c | closing c => c
  | storing _ c => some c
  | _ => none

end Pc

structure Phases (w : Daemon) : Prop where
  closed : w.closed = true → w.state = .closed
  unbegun : ∀ t, w.opCount ≤ t → w.op t = .idle
  unstarted : w.started = false → (w.closed = true ∨ w.state = .new) ∧
    ∀ t, (w.op t).role = .other
  initializing : ∀ t, (w.op t).role = .initializes → w.closed = true ∨ w.state = .initializing
  alone : ∀ t u, (w.op t).role = .initializes → (w.op u).role ≠ .other → u = t
  reconnecting : ∀ t, (w.op t).role = .reconnects → w.reconnecting = true
  sole : ∀ t u, (w.op t).role = .reconnects → (w.op u).role = .reconnects → t = u
  cleared : ∀ t, (w.op t).cleared = true → w.remoteConn = none

/-- Everything open is stored in the daemon or held by a thread. -/
structure Ledger (w : Daemon) : Prop where
  conns : ∀ c, w.conns c = true → w.remoteConn = some c ∨ ∃ t, (w.op t).conn = some c
  clients : ∀ c, w.clients c = true → w.sshClient = some c

/-- What a closed daemon still has is about to be closed. -/
structure Shut (w : Daemon) : Prop where
  conn : w.closed = true → ∀ c, w.remoteConn = some c → w.conns c = true →
    ∃ t, w.op t = .closing (some c)
  client : w.closed = true → w.sshClient ≠ none →
    ∃ t, w.op t = .closingConnector ∨ ∃ c, w.op t = .closing c

/-- **The invariant.** -/
structure CloseInv (w : Daemon) : Prop where
  phases : Phases w
  ledger : Ledger w
  shut : Shut w
  fresh : w.started = false → w.remoteConn = none

/-! ### The phases -/

theorem Pc.role_of_cleared {pc : Pc} (h : pc.cleared = true) :
    pc.role = .initializes ∨ pc.role = .reconnects := by
  cases pc with
  | transport k | install k | probing k | probed k | redialing k | storing k =>
    cases k
    · exact .inl rfl
    · exact .inr rfl
  | callback | failing => exact .inl rfl
  | closingOld | closingTransport | checking | waiting => exact .inr rfl
  | _ => cases h

section Step

variable {w w' : Daemon} {t : ℕ} {pc : Pc}

theorem Phases.of_roles (h : Phases w) (hunbegun : ∀ u, w'.opCount ≤ u → w'.op u = .idle)
    (hroles : ∀ u, (w'.op u).role ≠ .other → (w'.op u).role = (w.op u).role)
    (hclosed : w'.closed = true → w'.state = .closed)
    (hstarted : w'.started = false → w.started = false ∧ (w'.closed = true ∨ w'.state = .new))
    (hinit : ∀ u, (w'.op u).role = .initializes → w'.closed = true ∨ w'.state = .initializing)
    (hrec : ∀ u, (w'.op u).role = .reconnects → w'.reconnecting = true)
    (hcleared : ∀ u, (w'.op u).cleared = true → w'.remoteConn = none) : Phases w' := by
  have hold : ∀ {u r}, r ≠ .other → (w'.op u).role = r → (w.op u).role = r := by
    rintro u r hr rfl
    exact (hroles u hr).symm
  refine ⟨hclosed, hunbegun, fun hs => ?_, hinit, fun u v hu hv => ?_, hrec, fun u v hu hv => ?_,
    hcleared⟩
  · obtain ⟨hs', hstate⟩ := hstarted hs
    refine ⟨hstate, fun u => ?_⟩
    by_contra hne
    exact hne ((hroles u hne).trans ((h.unstarted hs').2 u))
  · exact h.alone u v (hold nofun hu) (hroles v hv ▸ hv)
  · exact h.sole u v (hold nofun hu) (hold nofun hv)

/-- What a step of thread `t` leaves alone. -/
structure Moved (w w' : Daemon) (t : ℕ) (pc : Pc) : Prop where
  op : w'.op = update w.op t pc
  opCount : w'.opCount = w.opCount
  begun : w.op t ≠ .idle
  role : pc.role ≠ .other → pc.role = (w.op t).role

namespace Moved

variable (hm : Moved w w' t pc)
include hm

theorem self : w'.op t = pc := by rw [hm.op, update_self]

theorem other {u : ℕ} (hu : u ≠ t) : w'.op u = w.op u := by rw [hm.op, update_of_ne hu]

theorem unbegun (h : Phases w) (u : ℕ) (hu : w'.opCount ≤ u) : w'.op u = .idle := by
  rw [hm.opCount] at hu
  have hut : u ≠ t := by
    rintro rfl
    exact hm.begun (h.unbegun u hu)
  rw [hm.other hut]
  exact h.unbegun u hu

theorem roles (u : ℕ) (hu : (w'.op u).role ≠ .other) : (w'.op u).role = (w.op u).role := by
  grind [self, role, other]

theorem phases (h : Phases w) (hstate : w'.state = w.state) (hclosed : w'.closed = w.closed)
    (hstarted : w'.started = w.started)
    (hrec : w'.reconnecting = w.reconnecting ∨ pc.role ≠ .reconnects ∧ (w.op t).role = .reconnects)
    (hconn : w'.remoteConn = w.remoteConn ∨ w'.remoteConn = none)
    (hcleared : pc.cleared = true → w'.remoteConn = none) : Phases w' := by
  refine h.of_roles (hm.unbegun h) hm.roles ?_ (fun hs => ?_) (fun u hu => ?_) (fun u hu => ?_)
    fun u hu => ?_
  · rw [hclosed, hstate]
    exact h.closed
  · simp_all [Phases.unstarted]
  · rw [hclosed, hstate]
    exact h.initializing u (hm.roles u (by simp [hu]) ▸ hu)
  · have hu' : (w.op u).role = .reconnects := hm.roles u (by simp [hu]) ▸ hu
    grind [Phases.reconnecting, Phases.sole, self]
  · by_cases hut : u = t
    · grind [self]
    · rw [hm.other hut] at hu
      grind [Phases.cleared]

end Moved

/-- Handles are opened and closed, and nothing else happens. -/
structure Quietly (w w' : Daemon) : Prop where
  op : w'.op = w.op
  opCount : w'.opCount = w.opCount
  state : w'.state = w.state
  closed : w'.closed = w.closed
  started : w'.started = w.started
  reconnecting : w'.reconnecting = w.reconnecting
  remoteConn : w'.remoteConn = w.remoteConn

theorem Quietly.refl (w : Daemon) : Quietly w w := ⟨rfl, rfl, rfl, rfl, rfl, rfl, rfl⟩

theorem quietly_closeConn (w : Daemon) (c : Option ℕ) : Quietly w (w.closeConn c) := by
  cases c <;> exact ⟨rfl, rfl, rfl, rfl, rfl, rfl, rfl⟩

theorem quietly_closeConnector (w : Daemon) : Quietly w w.closeConnector := by
  unfold Daemon.closeConnector
  split <;> exact ⟨rfl, rfl, rfl, rfl, rfl, rfl, rfl⟩

theorem quietly_openConn (w : Daemon) : Quietly w w.openConn := ⟨rfl, rfl, rfl, rfl, rfl, rfl, rfl⟩

theorem quietly_openTransport (w : Daemon) (opens : Bool) :
    Quietly w (if opens then w.openTransport else w) := by
  cases opens <;> exact ⟨rfl, rfl, rfl, rfl, rfl, rfl, rfl⟩

theorem Quietly.unlockInstall (hq : Quietly w w') : Quietly w w'.unlockInstall :=
  ⟨hq.op, hq.opCount, hq.state, hq.closed, hq.started, hq.reconnecting, hq.remoteConn⟩

namespace Phases

variable (h : Phases w)
include h

theorem move (hpc : w.op t = pc₀) (hq : Quietly w w') (hidle : pc₀ ≠ .idle)
    (hrole : pc.role ≠ .other → pc.role = pc₀.role)
    (hcleared : pc.cleared = true → pc₀.cleared = true) : Phases (w'.setPc t pc) := by
  subst hpc
  have hm : Moved w (w'.setPc t pc) t pc :=
    ⟨by rw [Daemon.setPc, hq.op], hq.opCount, hidle, hrole⟩
  exact hm.phases h hq.state hq.closed hq.started (.inl hq.reconnecting) (.inl hq.remoteConn)
    fun hx => hq.remoteConn.trans (h.cleared t (hcleared hx))

theorem spawn (hrole : pc.role = .other) (hcleared : pc.cleared = false) : Phases (w.spawn pc) := by
  have hself : (w.spawn pc).op w.opCount = pc := update_self ..
  have hother : ∀ u, u ≠ w.opCount → (w.spawn pc).op u = w.op u :=
    fun u hu => update_of_ne hu ..
  have hroles : ∀ u, ((w.spawn pc).op u).role ≠ .other →
      ((w.spawn pc).op u).role = (w.op u).role := by
    intro u hu
    by_cases hut : u = w.opCount
    · simp_all
    · rw [hother u hut]
  refine h.of_roles (fun u hu => ?_) hroles h.closed (fun hs => ⟨hs, (h.unstarted hs).1⟩)
    (fun u hu => h.initializing u (hroles u (by simp [hu]) ▸ hu))
    (fun u hu => h.reconnecting u (hroles u (by simp [hu]) ▸ hu)) fun u hu => ?_
  · grind [unbegun, Daemon.spawn]
  grind [cleared, Daemon.spawn]

theorem setConnectedState {k : Caller} {c : ℕ} (hpc : w.op t = .storing k c) :
    Phases (Step.fire w t (.setConnectedState k c)) := by
  have hrole : k.installed.role = k.role := by cases k <;> rfl
  have hm : Moved w (Step.fire w t (.setConnectedState k c)) t k.installed :=
    ⟨rfl, rfl, by simp [hpc], fun _ => by rw [hpc]; exact hrole⟩
  refine h.of_roles (hm.unbegun h) hm.roles h.closed (fun hs => ⟨hs, (h.unstarted hs).1⟩)
    (fun u hu => h.initializing u (hm.roles u (by simp [hu]) ▸ hu))
    (fun u hu => h.reconnecting u (hm.roles u (by simp [hu]) ▸ hu)) fun u hu => ?_
  -- nobody else has seen to it that there is no connection
  have hut : u ≠ t := by
    rintro rfl
    rw [hm.self] at hu
    cases k <;> cases hu
  rw [hm.other hut] at hu
  refine absurd ?_ hut
  have ht : (w.op t).role = k.role := by rw [hpc]; rfl
  cases k with
  | doInitialize =>
    refine h.alone t u ht ?_
    grind [Pc.role_of_cleared]
  | reconnectOnce =>
    rcases Pc.role_of_cleared hu with hr | hr
    · exact (h.alone u t hr (by simp [ht, Caller.role])).symm
    · exact h.sole u t hr ht

theorem setState {state : ConnectionState} (hinit : (w.op t).role = .initializes)
    (hclosed : w.closed = false) (hrole : pc.role = .other) (hcleared : pc.cleared = false) :
    Phases ((w.setState state).setPc t pc) := by
  have hm : Moved w ((w.setState state).setPc t pc) t pc :=
    ⟨rfl, rfl, (fun hx => by rw [hx] at hinit; cases hinit), fun hx => absurd hrole hx⟩
  refine h.of_roles (hm.unbegun h) hm.roles (fun hx => ?_) (fun hs => ?_) (fun u hu => ?_)
    (fun u hu => h.reconnecting u (hm.roles u (by simp [hu]) ▸ hu)) fun u hu => ?_
  · grind [Daemon.setPc, Daemon.setState]
  · exact absurd ((h.unstarted hs).2 t) (by simp [hinit])
  · have hut : u ≠ t := by
      grind [Moved.self]
    rw [hm.other hut] at hu
    grind [alone]
  · have hut : u ≠ t := by
      grind [Moved.self]
    rw [hm.other hut] at hu
    exact h.cleared u hu

theorem enter (hpc : w.op t = .entering) : Phases (Step.fire w t .enter) := by
  rw [Step.fire]
  split_ifs with hx
  · exact h.move hpc (.refl w) nofun (fun hx => absurd rfl hx) nofun
  · simp only [not_or, Bool.not_eq_true] at hx
    have hrole : (w.op t).role = .enters := by rw [hpc]; rfl
    set w' : Daemon := Daemon.setPc _ t .taking
    have hself : w'.op t = .taking := update_self ..
    have hother : ∀ u, u ≠ t → w'.op u = w.op u := fun u hu => update_of_ne hu ..
    have hcases : ∀ u, (w'.op u).role ≠ .other → u = t ∨ (w'.op u).role = (w.op u).role := by
      grind
    -- an initialization is alone, and no other `Reconnect` is under way
    have hnoinit : ∀ u, (w.op u).role ≠ .initializes := by
      grind [alone]
    have hnorec : ∀ u, (w.op u).role ≠ .reconnects := by
      grind [reconnecting]
    have honly : ∀ {u}, (w'.op u).role = .reconnects → u = t := by
      grind
    refine ⟨fun hc => ?_, fun u hu => ?_, fun hs => ?_, fun u hu => ?_, fun u v hu _ => ?_,
      fun _ _ => rfl, fun u v hu hv => (honly hu).trans (honly hv).symm, fun u hu => ?_⟩
    · rw [show w'.closed = w.closed from rfl, hx.1] at hc
      cases hc
    · have hut : u ≠ t := by
        rintro rfl
        rw [h.unbegun u hu] at hpc
        cases hpc
      rw [hother u hut]
      exact h.unbegun u hu
    · have ht := (h.unstarted hs).2 t
      rw [hrole] at ht
      cases ht
    · rcases hcases u (by simp [hu]) with rfl | heq
      · rw [hself] at hu
        cases hu
      · exact absurd (heq ▸ hu) (hnoinit u)
    · rcases hcases u (by simp [hu]) with rfl | heq
      · rw [hself] at hu
        cases hu
      · exact absurd (heq ▸ hu) (hnoinit u)
    · have hut : u ≠ t := by
        rintro rfl
        rw [hself] at hu
        cases hu
      rw [hother u hut] at hu
      exact h.cleared u hu

theorem check {ok : Bool} (hpc : w.op t = .checking ok) : Phases (Step.fire w t (.check ok)) := by
  have hrole : (w.op t).role = .reconnects := by rw [hpc]; rfl
  have hidle : w.op t ≠ .idle := by simp [hpc]
  rw [Step.fire]
  split_ifs with hc hok
  · have hm : Moved w ({ w with reconnecting := false }.setPc t .done) t .done :=
      ⟨rfl, rfl, hidle, fun hx => absurd rfl hx⟩
    exact hm.phases h rfl rfl rfl (.inr ⟨nofun, hrole⟩) (.inl rfl) nofun
  · have hm : Moved w ({ w with reconnecting := false, state := .connected }.setPc t .done) t .done :=
      ⟨rfl, rfl, hidle, fun hx => absurd rfl hx⟩
    refine h.of_roles (hm.unbegun h) hm.roles (fun hx => absurd hx hc) (fun hs => ?_) (fun u hu => ?_)
      (fun u hu => ?_) fun u hu => ?_
    · exact absurd ((h.unstarted hs).2 t) (by simp [hrole])
    · have hu' : (w.op u).role = .initializes := hm.roles u (by simp [hu]) ▸ hu
      grind [alone]
    · have hu' : (w.op u).role = .reconnects := hm.roles u (by simp [hu]) ▸ hu
      cases h.sole u t hu' hrole
      rw [hm.self] at hu
      cases hu
    · have hut : u ≠ t := by
        rintro rfl
        rw [hm.self] at hu
        cases hu
      rw [hm.other hut] at hu
      exact h.cleared u hu
  · refine h.move hpc (.refl w) nofun (fun _ => rfl) fun _ => ?_
    simp_all [Pc.cleared]

theorem step (he : s.Enabled w t) (hok : RespectsClose w (.step t s)) : Phases (s.fire w t) := by
  cases s with
  | initializeRemote k opens =>
    exact h.move he (quietly_openTransport w opens) nofun
      (fun _ => by cases k <;> rfl) fun _ => rfl
  | initializeRemoteFailed k =>
    exact h.move he (.refl w) nofun (fun _ => by cases k <;> rfl) fun _ => rfl
  | afterTransport => exact h.move he (.refl w) nofun (fun _ => rfl) fun _ => rfl
  | superseded =>
    have hdone : Phases (w.setPc t .done) :=
      h.move he (.refl w) nofun (fun hx => absurd rfl hx) nofun
    exact hdone.spawn rfl rfl
  | lockInstall k =>
    exact h.move he.1 ⟨rfl, rfl, rfl, rfl, rfl, rfl, rfl⟩ nofun (fun _ => rfl)
      fun _ => rfl
  | discoverFailed k | connectFailed k =>
    exact h.move he (Quietly.refl w).unlockInstall nofun
      (fun _ => by cases k <;> rfl) fun _ => rfl
  | tryConnectExisting k found =>
    cases found with
    | true => exact h.move he (quietly_openConn w) nofun (fun _ => rfl) fun _ => rfl
    | false => exact h.move he (.refl w) nofun (fun _ => rfl) fun _ => rfl
  | keep k c => exact h.move he (.refl w) nofun (fun _ => rfl) fun _ => rfl
  | reinstallDaemon k c =>
    exact h.move he (quietly_closeConn w c) nofun (fun _ => rfl) fun _ => rfl
  | reinstallFailed k c =>
    exact h.move he (quietly_closeConn w c).unlockInstall nofun
      (fun _ => by cases k <;> rfl) fun _ => rfl
  | connectToRemoteDaemon k =>
    exact h.move he (quietly_openConn w) nofun (fun _ => rfl) fun _ => rfl
  | setConnectedState k c => exact h.setConnectedState he
  | setConnected => exact h.setState (by rw [show w.op t = _ from he]; rfl) hok rfl rfl
  | setFailed => exact h.setState (by rw [show w.op t = _ from he]; rfl) hok rfl rfl
  | deinitializeRemote | closeConnector =>
    exact h.move he (quietly_closeConnector w) nofun (fun hx => absurd rfl hx)
      nofun
  | enter => exact h.enter he
  | take =>
    have hpc : w.op t = .taking := he
    have hm : Moved w (Step.fire w t .take) t (.closingOld w.remoteConn) :=
      ⟨rfl, rfl, by simp [hpc], fun _ => by rw [hpc]; rfl⟩
    exact hm.phases h rfl rfl rfl (.inl rfl) (.inr rfl) fun _ => rfl
  | closeOld c =>
    exact h.move he (quietly_closeConn w c) nofun (fun _ => rfl) fun _ => rfl
  | closeTransport =>
    exact h.move he (quietly_closeConnector w) nofun (fun _ => rfl) fun _ => rfl
  | check ok => exact h.check he
  | retry => exact h.move he (.refl w) nofun (fun _ => rfl) fun _ => rfl
  | giveUp =>
    have hpc : w.op t = .waiting := he
    have hm : Moved w (Step.fire w t .giveUp) t .done :=
      ⟨rfl, rfl, by simp [hpc], fun hx => absurd rfl hx⟩
    exact hm.phases h rfl rfl rfl (.inr ⟨nofun, by rw [hpc]; rfl⟩) (.inl rfl)
      nofun
  | close c =>
    exact h.move he (quietly_closeConn w c) nofun (fun hx => absurd rfl hx)
      nofun

end Phases

/-! ### What is open -/

theorem clients_closeConnector (h : ∀ c, w.clients c = true → w.sshClient = some c) (c : ℕ) :
    w.closeConnector.clients c = false := by
  have hnot : w.sshClient ≠ some c → w.clients c = false := fun hne => by
    by_contra hx
    exact hne (h c (by simpa using hx))
  unfold Daemon.closeConnector
  split
  · next hn => exact hnot (by rw [hn]; nofun)
  · next c₀ hc =>
    by_cases heq : c = c₀
    · subst heq
      exact update_self ..
    · refine (update_of_ne heq ..).trans (hnot ?_)
      rw [hc]
      exact fun hx => heq (Option.some.inj hx).symm

theorem sshClient_closeConnector (w : Daemon) : w.closeConnector.sshClient = none := by
  grind [Daemon.closeConnector]

theorem conns_closeConnector (w : Daemon) : w.closeConnector.conns = w.conns := by
  unfold Daemon.closeConnector
  split <;> rfl

theorem conns_closeConn (w : Daemon) (c : Option ℕ) (c' : ℕ) :
    (w.closeConn c).conns c' = true ↔ w.conns c' = true ∧ c ≠ some c' := by
  cases c with
  | none => simp [Daemon.closeConn]
  | some c₀ =>
    by_cases heq : c' = c₀
    · subst heq
      simp [Daemon.closeConn]
    · simp [Daemon.closeConn, heq, Ne.symm heq]

theorem client_closeConn (w : Daemon) (c : Option ℕ) :
    (w.closeConn c).clients = w.clients ∧ (w.closeConn c).sshClient = w.sshClient := by
  cases c <;> exact ⟨rfl, rfl⟩

theorem Ledger.move (h : Ledger w) (hop : w'.op = update w.op t pc)
    (hconns : ∀ c, w'.conns c = true → pc.conn = some c ∨ w'.remoteConn = some c ∨
      w.conns c = true ∧ (w.op t).conn ≠ some c ∧
        (w.remoteConn = some c → w'.remoteConn = some c))
    (hclients : ∀ c, w'.clients c = true → w'.sshClient = some c) : Ledger w' := by
  refine ⟨fun c hc => ?_, hclients⟩
  rcases hconns c hc with hx | hx | ⟨hx, hnot, hrem⟩
  · exact .inr ⟨t, by rw [hop, update_self]; exact hx⟩
  · exact .inl hx
  · rcases h.conns c hx with heq | ⟨u, hu⟩
    · exact .inl (hrem heq)
    · refine .inr ⟨u, ?_⟩
      have hut : u ≠ t := by
        grind
      simp_all

theorem Ledger.keep (h : Ledger w) (hpc : w.op t = pc₀)
    (hop : w'.op = update w.op t pc) (hconn : pc.conn = pc₀.conn) (hconns : w'.conns = w.conns)
    (hremote : w'.remoteConn = w.remoteConn)
    (hclients : w'.clients = w.clients ∧ w'.sshClient = w.sshClient) : Ledger w' := by
  refine h.move hop (fun c hc => ?_) (fun c hc => ?_)
  · rw [hconns] at hc
    rw [hremote, hpc]
    by_cases hx : pc₀.conn = some c
    · exact .inl (hconn.trans hx)
    · exact .inr (.inr ⟨hc, hx, id⟩)
  · rw [hclients.2]
    exact h.clients c (hclients.1 ▸ hc)

theorem Ledger.close (h : Ledger w) {c : Option ℕ} (hpc : w.op t = pc₀)
    (hconn : pc₀.conn = c) (hq : Quietly w w') (hconns : w'.conns = (w.closeConn c).conns)
    (hclients : w'.clients = w.clients ∧ w'.sshClient = w.sshClient) : Ledger (w'.setPc t pc) := by
  refine h.move (by rw [Daemon.setPc, hq.op]) (fun c' hc' => ?_) (fun c' hc' => ?_)
  · rw [Daemon.setPc, hconns, conns_closeConn] at hc'
    grind [Daemon.setPc, Quietly.remoteConn]
  grind [Daemon.setPc, clients]

theorem Ledger.open (h : Ledger w) (hpc : w.op t = pc₀) (hnone : pc₀.conn = none)
    (hconn : pc.conn = some w.connCount) : Ledger (w.openConn.setPc t pc) := by
  refine h.move rfl (fun c hc => ?_) h.clients
  by_cases heq : c = w.connCount
  · exact .inl (by rw [hconn, heq])
  simp_all [Daemon.setPc, Daemon.openConn]

theorem Ledger.closeConnector (h : Ledger w) (hpc : w.op t = pc₀)
    (hnone : pc₀.conn = none) : Ledger (w.closeConnector.setPc t pc) := by
  have hq := quietly_closeConnector w
  refine h.move (by rw [Daemon.setPc, hq.op]) (fun c hc => ?_) (fun c hc => ?_)
  · grind [conns_closeConnector, Daemon.setPc, Quietly.remoteConn]
  · cases (clients_closeConnector h.clients c).symm.trans hc

theorem Phases.idle_setPc (h : Phases w) (hpc : w.op t = pc₀) (ht : pc₀ ≠ .idle) :
    (w.setPc t pc).op (w.setPc t pc).opCount = .idle := by
  have hne : w.opCount ≠ t := by
    grind [unbegun]
  simp_all [unbegun, Daemon.setPc]

theorem Ledger.spawn (h : Ledger w) (hidle : w.op w.opCount = .idle) : Ledger (w.spawn pc) := by
  refine ⟨fun c hc => (h.conns c hc).imp_right ?_, h.clients⟩
  rintro ⟨u, hu⟩
  have hut : u ≠ w.opCount := by
    rintro rfl
    rw [hidle] at hu
    cases hu
  refine ⟨u, ?_⟩
  simp_all [Daemon.spawn]

theorem Ledger.step (h : Ledger w) (hph : Phases w) (he : s.Enabled w t)
    (hok : RespectsClose w (.step t s)) : Ledger (s.fire w t) := by
  cases s with
  | initializeRemote k opens =>
    cases opens with
    | false => exact h.keep he rfl (by cases k <;> rfl) rfl rfl ⟨rfl, rfl⟩
    | true =>
      refine h.move rfl (fun c hc => .inr (.inr ⟨hc, ?_, id⟩)) (fun c hc => ?_)
      · rw [show w.op t = _ from he]
        nofun
      · by_cases heq : c = w.clientCount
        · rw [heq]
          rfl
        · cases (h.clients c ((update_of_ne heq ..).symm.trans hc)).symm.trans hok.2
  | initializeRemoteFailed k | discoverFailed k | connectFailed k =>
    exact h.keep he rfl (by cases k <;> rfl) rfl rfl ⟨rfl, rfl⟩
  | afterTransport | keep | retry | setConnected | setFailed | giveUp =>
    exact h.keep he rfl rfl rfl rfl ⟨rfl, rfl⟩
  | lockInstall => exact h.keep he.1 rfl rfl rfl rfl ⟨rfl, rfl⟩
  | superseded =>
    have hdone : Ledger (w.setPc t .done) := h.keep he rfl rfl rfl rfl ⟨rfl, rfl⟩
    exact hdone.spawn (hph.idle_setPc he nofun)
  | tryConnectExisting k found =>
    cases found with
    | true => exact h.open he rfl rfl
    | false => exact h.keep he rfl rfl rfl rfl ⟨rfl, rfl⟩
  | connectToRemoteDaemon k => exact h.open he rfl rfl
  | reinstallDaemon _ c | closeOld c | close c =>
    exact h.close he rfl (quietly_closeConn w c) rfl (client_closeConn w c)
  | reinstallFailed k c =>
    exact h.close he rfl (quietly_closeConn w c).unlockInstall rfl (client_closeConn w c)
  | setConnectedState k c =>
    have hpc : w.op t = .storing k c := he
    have hnone : w.remoteConn = none := hph.cleared t (by rw [hpc]; rfl)
    refine h.move rfl (fun c' hc' => ?_) h.clients
    by_cases heq : c' = c
    · exact .inr (.inl (by rw [heq]; rfl))
    · refine .inr (.inr ⟨hc', by simp [hpc, Pc.conn, Ne.symm heq], fun hx => ?_⟩)
      cases hnone.symm.trans hx
  | deinitializeRemote | closeTransport | closeConnector => exact h.closeConnector he rfl
  | enter | check =>
    rw [Step.fire]
    split_ifs <;> exact h.keep he rfl rfl rfl rfl ⟨rfl, rfl⟩
  | take =>
    refine h.move rfl (fun c hc => ?_) h.clients
    by_cases hx : w.remoteConn = some c
    · exact .inl hx
    · refine .inr (.inr ⟨hc, ?_, fun hy => absurd hy hx⟩)
      rw [show w.op t = _ from he]
      nofun

/-! ### What `Close` still has to close -/

/-- The thread is in `Close`, or closes the connector of a superseded daemon. -/
def Pc.closes : Pc → Bool
  | closing _ | closingConnector => true
  | _ => false

theorem Shut.move (h : Shut w) (hpc : w.op t = pc₀) (hnot : pc₀.closes = false)
    (hop : w'.op = update w.op t pc) (hclosed : w'.closed = w.closed)
    (hconn : w.closed = true → ∀ c, w'.remoteConn = some c → w'.conns c = true →
      w.remoteConn = some c ∧ w.conns c = true)
    (hclient : w.closed = true → w'.sshClient ≠ none → w.sshClient ≠ none) : Shut w' := by
  have hother : ∀ {u p}, w.op u = p → p.closes = true → w'.op u = p := by
    rintro u p hu hp
    have hut : u ≠ t := by
      grind
    rw [hop, update_of_ne hut]
    exact hu
  refine ⟨fun hc c hr ho => ?_, fun hc hs => ?_⟩ <;> rw [hclosed] at hc
  · obtain ⟨hr', ho'⟩ := hconn hc c hr ho
    obtain ⟨u, hu⟩ := h.conn hc c hr' ho'
    exact ⟨u, hother hu rfl⟩
  · obtain ⟨u, hu | ⟨c, hu⟩⟩ := h.client hc (hclient hc hs)
    · exact ⟨u, .inl (hother hu rfl)⟩
    · exact ⟨u, .inr ⟨c, hother hu rfl⟩⟩

theorem Shut.keep (h : Shut w) (hpc : w.op t = pc₀) (hnot : pc₀.closes = false)
    (hop : w'.op = update w.op t pc) (hclosed : w'.closed = w.closed)
    (hconns : ∀ c, w'.conns c = true → w.conns c = true)
    (hremote : w'.remoteConn = w.remoteConn ∨ w'.remoteConn = none)
    (hclient : w'.sshClient = w.sshClient ∨ w'.sshClient = none) : Shut w' := by
  refine h.move hpc hnot hop hclosed (fun _ c hr ho => ⟨?_, hconns c ho⟩) fun _ hs => ?_
  · simp_all
  simp_all

theorem Shut.open (h : Shut w) (hpc : w.op t = pc₀) (hnot : pc₀.closes = false)
    (hnone : w.remoteConn = none) : Shut (w.openConn.setPc t pc) := by
  refine h.move hpc hnot rfl rfl (fun _ c hr => ?_) fun _ => id
  cases hnone.symm.trans hr

theorem Shut.closeConn (h : Shut w) {c : Option ℕ} (hpc : w.op t = pc₀)
    (hnot : pc₀.closes = false) (hq : Quietly w w') (hconns : w'.conns = (w.closeConn c).conns)
    (hclient : w'.sshClient = (w.closeConn c).sshClient) : Shut (w'.setPc t pc) := by
  refine h.keep hpc hnot (by rw [Daemon.setPc, hq.op]) hq.closed (fun c' hx => ?_)
    (.inl hq.remoteConn) (.inl (hclient.trans (client_closeConn w c).2))
  simp_all [Daemon.setPc, conns_closeConn]

theorem Shut.closeConnector (h : Shut w) (hpc : w.op t = pc₀)
    (hnot : pc₀.closes = false) : Shut (w.closeConnector.setPc t pc) := by
  have hq := quietly_closeConnector w
  refine h.keep hpc hnot (by rw [Daemon.setPc, hq.op]) hq.closed (fun c hx => ?_)
    (.inl hq.remoteConn) (.inr (sshClient_closeConnector w))
  rwa [Daemon.setPc, conns_closeConnector] at hx

/-- `Close` moves on, and what it does not close stays in the hands of another `Close`. -/
theorem Shut.close (h : Shut w) (hq : Quietly w w')
    (hconns : ∀ c, w'.conns c = true → w.conns c = true ∧ w.op t ≠ .closing (some c))
    (hclient : w'.sshClient = none ∨ pc = .closingConnector) : Shut (w'.setPc t pc) := by
  refine ⟨fun hc c hr ho => ?_, fun _ hs => ⟨t, .inl ?_⟩⟩
  · obtain ⟨ho', hne⟩ := hconns c ho
    obtain ⟨u, hu⟩ := h.conn (hq.closed.symm.trans hc) c (hq.remoteConn.symm.trans hr) ho'
    have hut : u ≠ t := by
      grind
    refine ⟨u, (update_of_ne hut ..).trans ?_⟩
    rw [hq.op]
    exact hu
  simp_all [Daemon.setPc]

theorem Shut.spawn (h : Shut w) (hidle : w.op w.opCount = .idle) : Shut (w.spawn pc) := by
  have hother : ∀ {u}, w.op u ≠ .idle → (w.spawn pc).op u = w.op u := by
    intro u hu
    have hut : u ≠ w.opCount := by
      grind
    exact update_of_ne hut ..
  refine ⟨fun hc c hr ho => ?_, fun hc hs => ?_⟩
  · grind [conn, Daemon.spawn]
  grind [client, Daemon.spawn]

theorem Shut.step (h : Shut w) (hph : Phases w) (he : s.Enabled w t)
    (hok : RespectsClose w (.step t s)) : Shut (s.fire w t) := by
  have hnone : (w.op t).cleared = true → w.remoteConn = none := hph.cleared t
  cases s with
  | initializeRemote k opens =>
    cases opens with
    | false => exact h.keep he rfl rfl rfl (fun _ => id) (.inl rfl) (.inl rfl)
    | true =>
      refine h.move he rfl rfl rfl (fun hc => ?_) fun hc => ?_ <;> cases hok.1.symm.trans hc
  | initializeRemoteFailed | afterTransport | discoverFailed | connectFailed | keep | retry
  | setConnected | setFailed | giveUp =>
    exact h.keep he rfl rfl rfl (fun _ => id) (.inl rfl) (.inl rfl)
  | lockInstall => exact h.keep he.1 rfl rfl rfl (fun _ => id) (.inl rfl) (.inl rfl)
  | superseded =>
    have hdone : Shut (w.setPc t .done) :=
      h.keep he rfl rfl rfl (fun _ => id) (.inl rfl) (.inl rfl)
    exact hdone.spawn (hph.idle_setPc he nofun)
  | tryConnectExisting k found =>
    cases found with
    | false => exact h.keep he rfl rfl rfl (fun _ => id) (.inl rfl) (.inl rfl)
    | true => exact h.open he rfl (hnone (by rw [show w.op t = _ from he]; rfl))
  | connectToRemoteDaemon k => exact h.open he rfl (hnone (by rw [show w.op t = _ from he]; rfl))
  | reinstallDaemon _ c | closeOld c => exact h.closeConn he rfl (quietly_closeConn w c) rfl rfl
  | reinstallFailed k c => exact h.closeConn he rfl (quietly_closeConn w c).unlockInstall rfl rfl
  | setConnectedState k c =>
    exact h.move he rfl rfl rfl (fun hc => nomatch (show w.closed = false from hok).symm.trans hc)
      fun _ => id
  | deinitializeRemote | closeTransport => exact h.closeConnector he rfl
  | enter | check =>
    rw [Step.fire]
    split_ifs <;> exact h.keep he rfl rfl rfl (fun _ => id) (.inl rfl) (.inl rfl)
  | take => exact h.keep he rfl rfl rfl (fun _ => id) (.inr rfl) (.inl rfl)
  | close c =>
    refine h.close (quietly_closeConn w c) (fun c' ho => ?_) (.inr rfl)
    obtain ⟨ho', hne⟩ := (conns_closeConn w c c').1 ho
    rw [show w.op t = _ from he]
    simp_all
  | closeConnector =>
    refine h.close (quietly_closeConnector w) (fun c ho => ?_) (.inl (sshClient_closeConnector w))
    rw [conns_closeConnector] at ho
    rw [show w.op t = _ from he]
    exact ⟨ho, nofun⟩

end Step

/-! ### The calls -/

section Calls

variable {w : Daemon}

/-- A health check starts `Reconnect`: the daemon was initialized, and nobody initializes it. -/
theorem Phases.checkDaemon (h : Phases w) (he : w.state = .failed ∨ w.state = .connected) :
    Phases (w.spawn .entering) := by
  have hopen : ¬ (w.closed = true) := by
    grind [closed]
  have hinit : ∀ u, (w.op u).role ≠ .initializes := by
    grind [initializing]
  have hself : (w.spawn .entering).op w.opCount = .entering := update_self ..
  have hother : ∀ u, u ≠ w.opCount → (w.spawn .entering).op u = w.op u :=
    fun u hu => update_of_ne hu ..
  -- the new thread is neither initializing nor reconnecting
  have hold : ∀ {u r}, r ≠ .enters → r ≠ .other → ((w.spawn .entering).op u).role = r →
      (w.op u).role = r := by
    intro u r hr _ hu
    by_cases hut : u = w.opCount
    · grind [Pc.role]
    · rwa [hother u hut] at hu
  refine ⟨h.closed, fun u hu => ?_, fun hs => ?_, fun u hu => ?_, fun u v hu => ?_,
    fun u hu => ?_, fun u v hu hv => ?_, fun u hu => ?_⟩
  · grind [unbegun, Daemon.spawn]
  · grind [unstarted, Daemon.spawn]
  · exact absurd (hold (by simp) (by simp) hu) (hinit u)
  · exact absurd (hold (by simp) (by simp) hu) (hinit u)
  · exact h.reconnecting u (hold (by simp) (by simp) hu)
  · exact h.sole u v (hold (by simp) (by simp) hu) (hold (by simp) (by simp) hv)
  · by_cases hut : u = w.opCount
    · subst hut
      rw [hself] at hu
      cases hu
    grind [cleared, Daemon.spawn]

/-- The first call of `Initialize`: nobody has worked on the daemon before. -/
theorem Phases.callInitialize (h : Phases w) (hstarted : w.started = false) (hnew : w.state = .new)
    (hconn : w.remoteConn = none) :
    Phases ({ w with started := true, state := .initializing }.spawn (.transport .doInitialize)) := by
  set w' := { w with started := true, state := .initializing }.spawn (.transport .doInitialize)
  have hself : w'.op w.opCount = .transport .doInitialize := update_self ..
  have hother : ∀ u, u ≠ w.opCount → w'.op u = w.op u := fun u hu => update_of_ne hu ..
  have hnone : ∀ u, (w.op u).role = .other := (h.unstarted hstarted).2
  have honly : ∀ u, (w'.op u).role ≠ .other → u = w.opCount := by
    grind
  have hrec : ∀ u, (w'.op u).role ≠ .reconnects := by
    intro u hu
    cases honly u (by simp [hu])
    rw [hself] at hu
    cases hu
  refine ⟨fun hc => ?_, fun u hu => ?_, (fun hs => by cases hs), fun _ _ => .inr rfl,
    fun u v hu hv => ?_, fun u hu => absurd hu (hrec u), fun u v hu => absurd hu (hrec u),
    fun _ _ => hconn⟩
  · have hclosed := h.closed hc
    simp_all
  · have hlt : w.opCount + 1 ≤ u := hu
    grind [unbegun]
  grind

theorem Phases.callClose (h : Phases w) : Phases { w with closed := true, state := .closed } :=
  ⟨fun _ => rfl, h.unbegun, fun hs => ⟨.inl rfl, (h.unstarted hs).2⟩, fun _ _ => .inl rfl, h.alone,
    h.reconnecting, h.sole, h.cleared⟩

theorem Shut.callClose (w : Daemon) :
    Shut ({ w with closed := true, state := .closed }.spawn (.closing w.remoteConn)) := by
  refine ⟨fun _ c hr _ => ⟨w.opCount, ?_⟩, fun _ _ => ⟨w.opCount, .inr ⟨w.remoteConn, ?_⟩⟩⟩
  · simp_all [Daemon.spawn]
  · exact update_self ..

/-- A connection is stored only by a thread that initializes or reconnects. -/
theorem fresh_step (h : Phases w) (hfresh : w.started = false → w.remoteConn = none) {t : ℕ}
    (he : s.Enabled w t) : (s.fire w t).started = false → (s.fire w t).remoteConn = none := by
  cases s with
  | setConnectedState k c =>
    intro hs
    have hrole := (h.unstarted hs).2 t
    rw [show w.op t = .storing k c from he] at hrole
    cases k <;> cases hrole
  | initializeRemote _ opens => cases opens <;> exact hfresh
  | tryConnectExisting _ found => cases found <;> exact hfresh
  | reinstallDaemon _ c | reinstallFailed _ c | closeOld c | close c => cases c <;> exact hfresh
  | deinitializeRemote | closeTransport | closeConnector =>
    have hq := quietly_closeConnector w
    intro hs
    exact hq.remoteConn.trans (hfresh (hq.started.symm.trans hs))
  | enter | check =>
    rw [Step.fire]
    split_ifs <;> exact hfresh
  | take => exact fun _ => rfl
  | _ => exact hfresh

end Calls

/-! ### Runs -/

theorem CloseInv.init : CloseInv Daemon.init :=
  ⟨⟨(fun h => by cases h), fun _ _ => rfl, fun _ => ⟨.inr rfl, fun _ => rfl⟩, (fun _ h => by cases h),
      (fun _ _ h => by cases h), (fun _ h => by cases h), (fun _ _ h => by cases h), fun _ _ => rfl⟩,
    ⟨(fun _ h => by cases h), fun _ h => by cases h⟩, ⟨(fun h => by cases h), fun h => by cases h⟩,
    fun _ => rfl⟩

theorem CloseInv.step {e : Event} (h : CloseInv w) (he : daemon.enabled w e)
    (hok : RespectsClose w e) : CloseInv (daemon.fire w e) := by
  have hidle := h.phases.unbegun w.opCount le_rfl
  cases e with
  | callInitialize =>
    show CloseInv (Event.fire w .callInitialize)
    rw [Event.fire]
    split_ifs with hx
    · refine ⟨h.phases.callInitialize hx.1 hx.2 (h.fresh hx.1), ?_, ?_, fun hs => by cases hs⟩
      · exact Ledger.spawn ⟨h.ledger.conns, h.ledger.clients⟩ hidle
      · exact Shut.spawn ⟨h.shut.conn, h.shut.client⟩ hidle
    · exact h
  | checkDaemon =>
    exact ⟨h.phases.checkDaemon he, h.ledger.spawn hidle, h.shut.spawn hidle, h.fresh⟩
  | callClose =>
    show CloseInv (Event.fire w .callClose)
    rw [Event.fire]
    split_ifs
    · exact h
    · refine ⟨h.phases.callClose.spawn rfl rfl, ?_, Shut.callClose w, h.fresh⟩
      exact Ledger.spawn ⟨h.ledger.conns, h.ledger.clients⟩ hidle
  | step t s =>
    exact ⟨h.phases.step he hok, h.ledger.step h.phases he hok, h.shut.step h.phases he hok,
      fresh_step h.phases h.fresh he⟩

theorem CloseInv.of_run {w w' : Daemon} (h : CloseInv w)
    (hrun : Machine.Run daemon RespectsClose w w') : CloseInv w' :=
  hrun.invariant h fun _ _ h he hok => h.step he hok

theorem closed_fire (h : w.closed = true) (e : Event) : (daemon.fire w e).closed = true := by
  cases e with
  | callInitialize =>
    show (Event.fire w .callInitialize).closed = true
    rw [Event.fire]
    split_ifs <;> exact h
  | checkDaemon => exact h
  | callClose =>
    simp_all [Event.fire, daemon]
  | step t s =>
    show (s.fire w t).closed = true
    cases s with
    | initializeRemote _ opens => cases opens <;> exact h
    | tryConnectExisting _ found => cases found <;> exact h
    | reinstallDaemon _ c | reinstallFailed _ c | closeOld c | close c => cases c <;> exact h
    | deinitializeRemote | closeTransport | closeConnector =>
      exact (quietly_closeConnector w).closed.trans h
    | enter | check =>
      rw [Step.fire]
      split_ifs <;> exact h
    | _ => exact h

theorem CloseInv.nothing_open (h : CloseInv w) (hclosed : w.closed = true)
    (hquiet : w.Quiet) (c : ℕ) : w.conns c = false ∧ w.clients c = false := by
  have hop : ∀ t, w.op t = .done ∨ w.op t = .idle := by
    intro t
    rcases lt_or_ge t w.opCount with hlt | hge
    · exact .inl (hquiet t hlt)
    · exact .inr (h.phases.unbegun t hge)
  constructor
  · by_contra hc
    have hopen : w.conns c = true := by simpa using hc
    rcases h.ledger.conns c hopen with hr | ⟨t, ht⟩
    · obtain ⟨t, ht⟩ := h.shut.conn hclosed c hr hopen
      grind
    · rcases hop t with hx | hx <;> rw [hx] at ht <;> cases ht
  · by_contra hc
    have hopen : w.clients c = true := by simpa using hc
    obtain ⟨t, ht⟩ := h.shut.client hclosed (by simp [h.ledger.clients c hopen])
    grind

/-- **Closed is final.** In every run in which `doInitialize` sets the state, `ensureDaemon` stores
its connection and `InitializeRemote` its transport only while the daemon is not closed, and a
transport only where there is none: once the daemon is closed its state is closed for ever, and
when no operation is in flight none of the connections and transports it opened is open. -/
theorem closed_final {w : Daemon} (hw : Machine.Run daemon RespectsClose Daemon.init w)
    (hclosed : w.closed = true) :
    (∀ w', Machine.Run daemon RespectsClose w w' → w'.state = .closed) ∧
      (w.Quiet → ∀ c, w.conns c = false ∧ w.clients c = false) := by
  have h := CloseInv.init.of_run hw
  refine ⟨fun w' hw' => ?_, h.nothing_open hclosed⟩
  have hclosed' : w'.closed = true :=
    Machine.Run.invariant (I := fun v => v.closed = true) hclosed
      (fun _ e hv _ _ => closed_fire hv e) hw'
  exact (h.of_run hw').phases.closed hclosed'

/-- A daemon is initialized over a transport, a health check reconnects it, and while the new
transport is made it is closed. -/
theorem closed_final_reconnected :
    ∃ w, Machine.Run daemon RespectsClose Daemon.init w ∧ w.closed = true ∧ w.Quiet ∧
      w.connCount = 2 ∧ w.clientCount = 2 ∧ ∀ c, w.conns c = false ∧ w.clients c = false := by
  have hexec : ∃ w ∈ daemon.exec RespectsClose Daemon.init
      [.callInitialize, .step 0 (.initializeRemote .doInitialize true), .step 0 .afterTransport,
        .step 0 (.lockInstall .doInitialize), .step 0 (.tryConnectExisting .doInitialize true),
        .step 0 (.keep .doInitialize 0), .step 0 (.setConnectedState .doInitialize 0),
        .step 0 .setConnected, .checkDaemon, .step 1 .enter, .step 1 .take,
        .step 1 (.closeOld (some 0)), .step 1 .closeTransport,
        .step 1 (.initializeRemote .reconnectOnce true), .step 1 (.lockInstall .reconnectOnce),
        .step 1 (.tryConnectExisting .reconnectOnce true), .step 1 (.keep .reconnectOnce 1),
        .step 1 (.setConnectedState .reconnectOnce 1), .callClose, .step 1 (.check true),
        .step 2 (.close (some 1)), .step 2 .closeConnector],
      w.closed = true ∧ w.Quiet ∧ w.connCount = 2 ∧ w.clientCount = 2 := by decide +kernel
  obtain ⟨w, hw, hclosed, hquiet, hconns, hclients⟩ := Machine.exists_run_of_exec _ _ hexec
  exact ⟨w, hw, hclosed, hquiet, hconns, hclients, (closed_final hw hclosed).2 hquiet⟩

/-- The daemon is closed while `ensureDaemon` has a new connection in its hands: the state becomes
connected, and the connection is never closed. -/
theorem closed_then_connected :
    ∃ w, Machine.Reachable daemon Daemon.init w ∧ w.closed = true ∧ w.Quiet ∧
      w.state = .connected ∧ w.remoteConn = some 0 ∧ w.conns 0 = true := by
  have hexec : ∃ w ∈ daemon.exec (fun _ _ => True) Daemon.init
      [.callInitialize, .step 0 (.initializeRemote .doInitialize true), .step 0 .afterTransport,
        .step 0 (.lockInstall .doInitialize), .step 0 (.tryConnectExisting .doInitialize true),
        .step 0 (.keep .doInitialize 0), .callClose, .step 1 (.close none), .step 1 .closeConnector,
        .step 0 (.setConnectedState .doInitialize 0), .step 0 .setConnected],
      w.closed = true ∧ w.Quiet ∧ w.state = .connected ∧ w.remoteConn = some 0 ∧
        w.conns 0 = true := by decide +kernel
  exact Machine.exists_run_of_exec _ _ hexec

end Graft.Lifecycle
