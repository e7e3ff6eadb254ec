import Graft.Library.Flow

/-!
# Half-closes of forwarded connections (`pkg/server_grpc_port_forward.go`, `pkg/remote_daemon.go`)

A TCP connection to a forwarded port is relayed over a stream `ForwardPort`: `relayTCPConnection`
between the local peer and the stream, `relayBidi` between the stream and the remote peer.  Each has
one goroutine for each direction and returns when both have ended.  Upwards, the end of the local
peer's data is passed on by `CloseSend`, and then by `CloseWrite`.  A server cannot half-close its
side of a stream: the client sees the end when the handler returns.

When `relayTCPConnection` returns, both directions of its connection have ended, so that closing it
changes nothing; messages of the stream are cut up like the data of a connection.
-/

namespace Graft.Ports

/-- The direction of data: to the remote peer or to the local one. -/
inductive Direction
  | up
  | down
  deriving DecidableEq

structure Relay where
  up : Flow UInt8
  down : Flow UInt8
  /-- `relayBidi` has returned, and with it `ForwardPort` -/
  returned : Bool
  deriving DecidableEq

namespace Relay

/-- The connection was accepted, and the remote one dialed. -/
def init : Relay := ⟨.init, .init, false⟩

def flow (w : Relay) : Direction → Flow UInt8
  | .up => w.up
  | .down => w.down

def setFlow (w : Relay) (d : Direction) (f : Flow UInt8) : Relay :=
  match d with
  | .up => { w with up := f }
  | .down => { w with down := f }

end Relay

/-- Only the local relay's goroutine closes the stream, by `CloseSend`. -/
def Direction.closes : Direction → Bool
  | up => true
  | down => false

inductive Event
  | flow (d : Direction) (s : Flow.Step UInt8)
  /-- both goroutines of `relayBidi` have reported that they have ended -/
  | serverReturn
  deriving DecidableEq

namespace Event

variable (cap : Direction → Capacity)

def Enabled (w : Relay) : Event → Prop
  | flow d s => s.Enabled (cap d) (w.flow d)
  | serverReturn => w.returned = false ∧ w.up.second.done = true ∧ w.down.first.done = true

instance (w : Relay) (e : Event) : Decidable (e.Enabled cap w) := by
  cases e <;> dsimp only [Enabled] <;> infer_instance

def fire (w : Relay) : Event → Relay
  | flow d s => w.setFlow d (s.fire d.closes (w.flow d))
  | serverReturn => { w with returned := true, down := w.down.closeStream }

def Relays : Event → Prop
  | flow _ s => s.Forwards
  | serverReturn => True

end Event

def relay (cap : Direction → Capacity) : Machine Relay Event where
  enabled := fun w e => e.Enabled cap w
  fire := Event.fire

instance (cap : Direction → Capacity) (w : Relay) (e : Event) :
    Decidable ((relay cap).enabled w e) :=
  inferInstanceAs (Decidable (e.Enabled cap w))

/-- The remote peer closes its side only when the local one has closed its own. -/
def LocalFirst (w : Relay) (e : Event) : Prop :=
  e = .flow .down .close → w.up.source.closed = true

instance (w : Relay) (e : Event) : Decidable (LocalFirst w e) :=
  inferInstanceAs (Decidable (_ → _))

/-! ### What holds in every run -/

/-- The flows are sound, and the streams are closed by `CloseSend` and by the return of
`ForwardPort`. -/
structure Inv (w : Relay) : Prop where
  up : w.up.Sound
  down : w.down.Sound
  closeSend : w.up.first.done = true → w.up.stream.closed = true
  returned : w.down.stream.closed = w.returned
  ended : w.returned = true → w.up.second.done = true ∧ w.down.first.done = true

variable {cap : Direction → Capacity} {w w' : Relay}

theorem inv_init : Inv .init :=
  ⟨Flow.sound_init, Flow.sound_init, nofun, rfl, nofun⟩

theorem ends_fire (closes : Bool) (f : Flow UInt8) (s : Flow.Step UInt8) :
    (f.first.done = true → (s.fire closes f).first.done = true) ∧
      (f.second.done = true → (s.fire closes f).second.done = true) ∧
      ((s.fire closes f).stream.closed = f.stream.closed ∨
        s = .firstEof ∧ (s.fire closes f).stream.closed = (f.stream.closed || closes)) ∧
      ((s.fire closes f).first.done = f.first.done ∨ s = .firstEof) := by
  cases s with
  | firstEof => exact ⟨fun _ => rfl, id, .inr ⟨rfl, rfl⟩, .inr rfl⟩
  | secondEof => exact ⟨id, fun _ => rfl, .inl rfl, .inl rfl⟩
  | write | close | firstRead | firstWrite | secondRead | secondWrite | read | readEof =>
    exact ⟨id, id, .inl rfl, .inl rfl⟩

theorem Inv.event (h : Inv w) {e : Event} (he : e.Enabled cap w) : Inv (e.fire w) := by
  cases e with
  | serverReturn =>
    obtain ⟨-, hsecond, hfirst⟩ := he
    exact ⟨h.up, h.down.closeStream hfirst, h.closeSend, rfl, fun _ => ⟨hsecond, hfirst⟩⟩
  | flow d s =>
    cases d with
    | up =>
      obtain ⟨-, hsecond, hstream, hfirst⟩ := ends_fire true w.up s
      refine ⟨h.up.fire he, h.down, fun hdone => ?_, h.returned, fun hr => ?_⟩
      · rcases hfirst with hsame | rfl
        · have hclosed := h.closeSend (hsame.symm.trans hdone)
          rcases hstream with hkept | ⟨-, hor⟩
          · exact hkept.trans hclosed
          · exact hor.trans (by simp)
        · exact Bool.or_true _
      · exact ⟨hsecond (h.ended hr).1, (h.ended hr).2⟩
    | down =>
      obtain ⟨hfirst, -, hstream, -⟩ := ends_fire false w.down s
      refine ⟨h.up, h.down.fire he, h.closeSend, ?_, fun hr => ?_⟩
      · rcases hstream with hkept | ⟨-, hor⟩
        · exact hkept.trans h.returned
        · exact (hor.trans (Bool.or_false _)).trans h.returned
      · exact ⟨(h.ended hr).1, hfirst (h.ended hr).2⟩

theorem inv_of_run {ok : Relay → Event → Prop} (h : (relay cap).Run ok .init w) : Inv w :=
  h.invariant inv_init fun _ _ hinv he _ => hinv.event he

/-! ### The relays go on -/

@[simp] theorem flow_setFlow (w : Relay) (d : Direction) (f : Flow UInt8) :
    (w.setFlow d f).flow d = f := by
  cases d <;> rfl

@[simp] theorem setFlow_setFlow (w : Relay) (d : Direction) (f f' : Flow UInt8) :
    (w.setFlow d f).setFlow d f' = w.setFlow d f' := by
  cases d <;> rfl

@[simp] theorem setFlow_flow (w : Relay) (d : Direction) : w.setFlow d (w.flow d) = w := by
  cases d <;> rfl

/-- What can happen to one flow can happen while the other one stays as it is. -/
theorem run_flow (w : Relay) (d : Direction) {f : Flow UInt8}
    (h : (Flow.machine (cap d) d.closes).Run (fun _ s => s.Forwards) (w.flow d) f) :
    (relay cap).Run (fun _ e => e.Relays) w (w.setFlow d f) := by
  have hsim : ∀ f' s, (Flow.machine (cap d) d.closes).enabled f' s → s.Forwards →
      (relay cap).enabled (w.setFlow d f') (.flow d s) ∧ Event.Relays (.flow d s) ∧
        (relay cap).fire (w.setFlow d f') (.flow d s) =
          w.setFlow d ((Flow.machine (cap d) d.closes).fire f' s) := by
    intro f' s he hs
    refine ⟨?_, hs, ?_⟩
    · simpa [relay, Event.Enabled, Flow.machine] using he
    · simp [relay, Event.fire, Flow.machine]
  have hrun : (relay cap).Run (fun _ e => e.Relays) (w.setFlow d (w.flow d)) (w.setFlow d f) :=
    h.map (w.setFlow d) (Event.flow d) hsim
  rwa [setFlow_flow] at hrun

theorem exists_up_done (hcap : (cap .up).Positive) (h : Inv w) (hclosed : w.up.source.closed = true) :
    ∃ f, (relay cap).Run (fun _ e => e.Relays) w { w with up := f } ∧ f.Sound ∧ f.transit = 0 ∧
      f.second.done = true := by
  obtain ⟨f, hrun, hsound, htransit, hdone⟩ := Flow.exists_ended hcap h.up hclosed h.closeSend
  exact ⟨f, run_flow w .up hrun, hsound, htransit, hdone⟩

theorem exists_up_eof (hcap : (cap .up).Positive) (h : Inv w) (hclosed : w.up.source.closed = true) :
    ∃ w', (relay cap).Run (fun _ e => e.Relays) w w' ∧ w'.up.eof = true := by
  obtain ⟨f, hrun, hsound, htransit, hdone⟩ := exists_up_done hcap h hclosed
  obtain ⟨f', hrun', heof⟩ := Flow.exists_eof (cap .up) true hsound htransit hdone
  exact ⟨_, hrun.trans (run_flow { w with up := f } .up hrun'), heof⟩

/-- `ForwardPort` returns when both goroutines of `relayBidi` have ended, unless it has. -/
theorem exists_returned {f : Flow UInt8} (hup : w.up.second.done = true)
    (hf : w.down = f) (hsound : f.Sound) (hdone : f.first.done = true)
    (hreturned : w.returned = true → f.stream.closed = true) :
    ∃ w', (relay cap).Run (fun _ e => e.Relays) w w' ∧ w'.down.Sound ∧
      w'.down.transit = f.transit ∧ w'.down.stream.closed = true := by
  by_cases hr : w.returned = true
  · exact ⟨w, .refl, hf ▸ hsound, by rw [hf], hf ▸ hreturned hr⟩
  · have he : (relay cap).enabled w .serverReturn := ⟨by simpa using hr, hup, hf ▸ hdone⟩
    refine ⟨_, Machine.Run.refl.step he trivial, ?_, ?_, rfl⟩
    · exact (hf ▸ hsound : w.down.Sound).closeStream (hf ▸ hdone)
    · rw [← hf]
      rfl

/-- It gets through to the local peer, if that has closed its own side: both goroutines of
`relayBidi` come to their ends, and `ForwardPort` returns. -/
theorem exists_down_eof (hcap : (cap .up).Positive) (h : Inv w) (hup : w.up.source.closed = true)
    (hclosed : w.down.source.closed = true) (htransit : w.down.transit = 0) :
    ∃ w', (relay cap).Run (fun _ e => e.Relays) w w' ∧ w'.down.eof = true := by
  obtain ⟨up, hrunUp, -, -, hupDone⟩ := exists_up_done hcap h hup
  obtain ⟨f₁, hrun₁, hsound₁, htransit₁, hdone₁, hstream₁⟩ :=
    Flow.exists_firstDone (cap .down) false h.down htransit hclosed nofun
  set w₁ : Relay := { w with up := up, down := f₁ }
  have hto₁ : (relay cap).Run (fun _ e => e.Relays) w w₁ :=
    hrunUp.trans (run_flow { w with up := up } .down hrun₁)
  have hreturned : w₁.returned = true → f₁.stream.closed = true :=
    fun hr => hstream₁ (.inl (h.returned.trans hr))
  obtain ⟨w₂, hto₂, hsound₂, htransit₂, hstream₂⟩ : ∃ w₂,
      (relay cap).Run (fun _ e => e.Relays) w₁ w₂ ∧ w₂.down.Sound ∧
        w₂.down.transit = f₁.transit ∧ w₂.down.stream.closed = true :=
    exists_returned hupDone rfl hsound₁ hdone₁ hreturned
  obtain ⟨f₃, hrun₃, hsound₃, htransit₃, hdone₃⟩ :=
    Flow.exists_secondDone (cap .down) false hsound₂ (htransit₂.trans htransit₁) hstream₂
  obtain ⟨f₄, hrun₄, heof⟩ := Flow.exists_eof (cap .down) false hsound₃ htransit₃ hdone₃
  exact ⟨_, (hto₁.trans hto₂).trans (run_flow w₂ .down (hrun₃.trans hrun₄)), heof⟩

/-! ### The theorem -/

theorem local_closed_of_remote_closed (h : (relay cap).Run LocalFirst .init w) :
    w.down.source.closed = true → w.up.source.closed = true := by
  have hinit : Relay.init.down.source.closed = true → Relay.init.up.source.closed = true := by
    intro hx
    cases hx
  refine h.invariant (I := fun w => w.down.source.closed = true → w.up.source.closed = true) hinit ?_
  intro w e hw _ hok
  cases e with
  | serverReturn => exact hw
  | flow d s =>
    cases d with
    | up =>
      intro hdown
      cases s with
      | close => rfl
      | write | firstRead | firstWrite | firstEof | secondRead | secondWrite | secondEof | read
      | readEof => exact hw hdown
    | down =>
      intro hdown
      cases s with
      | close => exact hok rfl
      | write | firstRead | firstWrite | firstEof | secondRead | secondWrite | secondEof | read
      | readEof => exact hw hdown

/-- **A half-close is forwarded**: in every run in which the remote peer closes its side only after
the local one, if a peer has closed its side and the other one has received everything, then that
one comes to see the end while nobody but the relays does anything, except to read. -/
theorem halfClose_forwarded (cap : Direction → Capacity) (hcap : ∀ d, (cap d).Positive) (w : Relay)
    (hrun : (relay cap).Run LocalFirst .init w) (d : Direction)
    (hclosed : (w.flow d).source.closed = true) (hreceived : (w.flow d).received = (w.flow d).sent) :
    ∃ w', (relay cap).Run (fun _ e => e.Relays) w w' ∧ (w'.flow d).eof = true := by
  have hinv := inv_of_run hrun
  cases d with
  | up => exact exists_up_eof (hcap .up) hinv hclosed
  | down =>
    have hup := local_closed_of_remote_closed hrun hclosed
    exact exists_down_eof (hcap .up) hinv hup hclosed (hinv.down.transit_of_received hreceived)

def capSmall : Direction → Capacity := fun _ => ⟨2, 2, 1, 1⟩

/-- The local peer sends two bytes and closes its side; they go to the remote peer one by one. -/
def requestUp : List Event :=
  [.flow .up (.write [112, 113]), .flow .up .close, .flow .up (.firstRead 2),
    .flow .up (.firstWrite 1), .flow .up (.secondRead 1), .flow .up (.firstWrite 1),
    .flow .up (.secondWrite 1), .flow .up (.read 1), .flow .up (.secondRead 1),
    .flow .up (.secondWrite 1), .flow .up (.read 1)]

/-- The theorem where the remote peer, too, closes its side, having sent nothing. -/
theorem halfClose_forwarded_both :
    ∃ w, (relay capSmall).Run LocalFirst .init w ∧ w.up.received = [112, 113] ∧
      (∃ w', (relay capSmall).Run (fun _ e => e.Relays) w w' ∧ w'.up.eof = true) ∧
      ∃ w', (relay capSmall).Run (fun _ e => e.Relays) w w' ∧ w'.down.eof = true := by
  have hexec : ∃ w ∈ (relay capSmall).exec LocalFirst .init (requestUp ++ [.flow .down .close]),
      (w.up.received = [112, 113] ∧ w.up.received = w.up.sent ∧ w.up.source.closed = true) ∧
        w.down.received = w.down.sent ∧ w.down.source.closed = true := by
    decide +kernel
  obtain ⟨w, hrun, ⟨hbytes, hup, hupClosed⟩, hdown, hdownClosed⟩ :=
    Machine.exists_run_of_exec _ _ hexec
  have hcap : ∀ d, (capSmall d).Positive := fun _ => ⟨two_pos, one_pos, one_pos⟩
  exact ⟨w, hrun, hbytes, halfClose_forwarded capSmall hcap w hrun .up hupClosed hup,
    halfClose_forwarded capSmall hcap w hrun .down hdownClosed hdown⟩

/-! ### The other way round -/

theorem local_eof_after_close (h : Inv w) (heof : w.down.eof = true) : w.up.source.closed = true := by
  have hsecond : w.down.second.done = true := h.down.sink.symm.trans (h.down.eof heof).1
  have hreturned : w.returned = true := h.returned.symm.trans (h.down.second hsecond).1
  have hupSecond := (h.ended hreturned).1
  exact (h.up.first (h.up.stream (h.up.second hupSecond).1)).1

/-- The remote peer sends a byte and closes its side, and the local one receives it: whatever
happens, the local peer does not see the end as long as it does not close its own side. -/
theorem remote_halfClose_stuck :
    ∃ w, (relay capSmall).Reachable .init w ∧ w.down.source.closed = true ∧
      w.down.received = [112] ∧ w.down.sent = [112] ∧ w.up.source.closed = false ∧
      ∀ w', (relay capSmall).Run (fun _ e => e ≠ .flow .up .close) w w' → w'.down.eof = false := by
  have hexec : ∃ w ∈ (relay capSmall).exec (fun _ _ => True) .init
      [.flow .down (.write [112]), .flow .down .close, .flow .down (.firstRead 1),
        .flow .down (.firstWrite 1), .flow .down (.secondRead 1), .flow .down (.secondWrite 1),
        .flow .down (.read 1), .flow .down .firstEof],
      w.down.source.closed = true ∧ w.down.received = [112] ∧ w.down.sent = [112] ∧
        w.up.source.closed = false := by
    decide +kernel
  obtain ⟨w, hrun, hclosed, hreceived, hsent, hopen⟩ := Machine.exists_run_of_exec _ _ hexec
  refine ⟨w, hrun, hclosed, hreceived, hsent, hopen, fun w' hrun' => ?_⟩
  have hstays : Inv w' ∧ w'.up.source.closed = false := by
    refine hrun'.invariant (I := fun w => Inv w ∧ w.up.source.closed = false)
      ⟨inv_of_run hrun, hopen⟩ ?_
    rintro w₁ e ⟨hinv, hopen₁⟩ he hne
    refine ⟨hinv.event he, ?_⟩
    cases e with
    | serverReturn => exact hopen₁
    | flow d s =>
      cases d with
      | down => exact hopen₁
      | up =>
        cases s with
        | close => exact absurd rfl hne
        | write | firstRead | firstWrite | firstEof | secondRead | secondWrite | secondEof | read
        | readEof => exact hopen₁
  grind [local_eof_after_close]

end Graft.Ports
