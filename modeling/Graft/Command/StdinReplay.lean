import Graft.Command.Delivery

/-!
# The input of a resumable command

The stdin pump keeps the chunk that it could not send until a new stream is there, and the
half-close is recorded before it is applied, so that `setClient` applies it to a stream that comes
later.
-/

namespace Graft.Delivery

open Function (update_self update_of_ne)
open Command (Req stdinBufferSize)

/-! ### What is delivered -/

def stdinOf : ℕ × Req → List Byte
  | (_, .stdin data) => data
  | _ => []

/-- The input that was delivered, over all streams. -/
def State.stdin (w : State) : List Byte := w.log.flatMap stdinOf

/-- Input is delivered on one stream after the other. -/
def Ordered (log : List (ℕ × Req)) : Prop :=
  log.Pairwise fun a b => stdinOf a ≠ [] → stdinOf b ≠ [] → a.1 ≤ b.1

def Pump.held : Pump → List Byte
  | getting data | sending data _ _ | waiting data _ _ => data
  | _ => []

def Pump.past : Pump → Bool
  | marking | fetching | closing _ | done => true
  | _ => false

def Pump.marked : Pump → Bool
  | fetching | closing _ | done => true
  | _ => false

def Pump.client (runClient : ℕ) : Pump → ℕ
  | sending _ client _ | waiting _ client _ => client
  | _ => runClient

/-- `setClient` is going to half-close the stream. -/
def Process.replays : Process → Bool
  | resyncing _ _ stdinDone | flushing _ _ stdinDone | requeueing _ stdinDone => stdinDone
  | replaying => true
  | recv | finished => false

/-- The pump has the stream and the channel of one moment; if it waits, the stream has rejected its
chunk. -/
def Pump.Ok (w : State) : Pump → Prop
  | sending _ client swapped =>
    swapped ≤ w.swapped.current ∧ client ≤ w.runClient ∧
      (swapped = w.swapped.current → client = w.runClient)
  | waiting _ client swapped =>
    swapped ≤ w.swapped.current ∧ client ≤ w.runClient ∧
      (swapped = w.swapped.current → client = w.runClient) ∧ ¬ w.Accepts client
  | _ => True

theorem Pump.Ok.mono {w w' : State} {p : Pump} (h : p.Ok w) (hswapped : w'.swapped = w.swapped)
    (hclient : w'.runClient = w.runClient) (haccepts : ∀ i, w'.Accepts i → w.Accepts i) :
    p.Ok w' := by
  cases p with
  | sending data client swapped =>
    simpa only [Pump.Ok, hswapped, hclient] using h
  | waiting data client swapped =>
    obtain ⟨hle, hold, hnew, hnot⟩ := h
    simp only [Pump.Ok, hswapped, hclient]
    exact ⟨hle, hold, hnew, fun ha => hnot (haccepts client ha)⟩
  | _ => trivial

theorem Pump.Ok.swap {w : State} {p : Pump} (h : p.Ok w) (hopened : w.opened = w.runClient + 1) :
    p.Ok w.swap := by
  have hle : w.runClient ≤ w.opened := by omega
  cases p with
  | sending data client swapped =>
    obtain ⟨hchannel, hclient, -⟩ := h
    exact ⟨hchannel.trans (Nat.le_succ _), hclient.trans hle,
      fun heq => absurd (heq ▸ hchannel) (Nat.not_succ_le_self _)⟩
  | waiting data client swapped =>
    obtain ⟨hchannel, hclient, -, hnot⟩ := h
    exact ⟨hchannel.trans (Nat.le_succ _), hclient.trans hle,
      fun heq => absurd (heq ▸ hchannel) (Nat.not_succ_le_self _), hnot⟩
  | _ => trivial

structure Inv (w : State) : Prop where
  swapped : w.swapped.Ok
  isOpen : w.swapped.Open
  opened : w.opened = w.runClient + 1
  pump : w.pump.Ok w
  bytes : w.Alive → w.stdin ++ w.pump.held ++ w.pipe = w.written
  past : w.Alive → w.pump.past = true → w.pipe = [] ∧ w.inputClosed = true
  marked : w.stdinDone = w.pump.marked
  replays : w.process.replays = true → w.stdinDone = true
  closed : ∀ i, w.sendClosed i = true → w.stdinDone = true
  halfClosed : ∀ i, (i, Req.halfClose) ∈ w.log → w.sendClosed i = true
  delivered : ∀ i, w.sendClosed i = true → w.up i = true → (i, Req.halfClose) ∈ w.log
  /-- once the end is recorded, the pump or `setClient` will half-close the newest stream -/
  newest : w.stdinDone = true → w.pump = .fetching ∨ w.pump = .closing w.runClient ∨
    w.process.replays = true ∨ w.sendClosed w.runClient = true
  ordered : Ordered w.log
  bound : ∀ m ∈ w.log, stdinOf m ≠ [] → m.1 ≤ w.pump.client w.runClient

theorem Inv.init : Inv .init where
  swapped := .new
  isOpen := Signal.open_new
  opened := rfl
  pump := trivial
  bytes _ := rfl
  past _ h := by cases h
  marked := rfl
  replays h := by cases h
  closed _ h := by cases h
  halfClosed _ h := by cases h
  delivered _ h := by cases h
  newest h := by cases h
  ordered := .nil
  bound _ h := by cases h

section Step

variable {w : State}

/-! ### Other messages -/

theorem Ordered.append {log : List (ℕ × Req)} (h : Ordered log) {m : ℕ × Req}
    (hm : ∀ a ∈ log, stdinOf a ≠ [] → stdinOf m ≠ [] → a.1 ≤ m.1) : Ordered (log ++ [m]) := by
  refine List.pairwise_append.2 ⟨h, List.pairwise_singleton .., fun a ha b hb => ?_⟩
  rw [List.mem_singleton] at hb
  subst hb
  exact hm a ha

theorem Inv.deliver (h : Inv w) (i : ℕ) {req : Req} (hreq : stdinOf (i, req) = [])
    (hne : req ≠ .halfClose) : Inv (w.deliver i req) := by
  have hstdin : (w.deliver i req).stdin = w.stdin := by
    simp [State.stdin, State.deliver, hreq]
  refine { h with
    bytes := fun ha => hstdin.symm ▸ h.bytes ha
    halfClosed := fun j hj => ?_
    delivered := fun j hc hu => List.mem_append_left _ (h.delivered j hc hu)
    ordered := h.ordered.append fun _ _ _ hx => absurd hreq hx
    bound := fun m hm hx => ?_ }
  · obtain hj | hj := List.mem_append.1 hj
    · exact h.halfClosed j hj
    grind
  · obtain hm | hm := List.mem_append.1 hm
    · exact h.bound m hm hx
    grind

theorem Inv.setProcess (h : Inv w) {p : Process} (hreplays : p.replays = w.process.replays)
    (hfin : p ≠ .finished → w.process ≠ .finished) : Inv { w with process := p } :=
  { h with
    bytes := fun ha => h.bytes ⟨ha.1, hfin ha.2⟩
    past := fun ha => h.past ⟨ha.1, hfin ha.2⟩
    replays := fun hx => h.replays (hreplays ▸ hx)
    newest := fun hd => by
      rw [hreplays]
      exact h.newest hd }

theorem Inv.closeSend (h : Inv w) (i : ℕ) (hdone : w.stdinDone = true) : Inv (w.closeSend i) := by
  have hstdin : (w.closeSend i).stdin = w.stdin := by
    simp only [State.stdin, State.closeSend]
    grind [stdinOf]
  have hclosed : ∀ j, w.sendClosed j = true → (w.closeSend i).sendClosed j = true := by
    intro j hj
    by_cases hji : j = i
    · subst hji
      exact update_self ..
    · exact (update_of_ne hji ..).trans hj
  have hlog : ∀ m ∈ (w.closeSend i).log, m ∈ w.log ∨ m = (i, .halfClose) := by
    intro m hm
    simp only [State.closeSend] at hm
    split_ifs at hm
    · exact (List.mem_append.1 hm).imp_right List.mem_singleton.1
    · exact .inl hm
  have hsub : ∀ m ∈ w.log, m ∈ (w.closeSend i).log := by
    intro m hm
    simp only [State.closeSend]
    split_ifs
    · exact List.mem_append_left _ hm
    · exact hm
  refine { h with
    pump := h.pump.mono rfl rfl fun j hj => ⟨hj.1, ?_⟩
    bytes := fun ha => hstdin.symm ▸ h.bytes ha
    closed := fun _ _ => hdone
    halfClosed := fun j hj => ?_
    delivered := fun j hc hu => ?_
    newest := fun hd => (h.newest hd).imp_right (Or.imp_right (Or.imp_right (hclosed _)))
    ordered := ?_
    bound := fun m hm hx => ?_ }
  · grind [State.Accepts]
  · obtain hj | hj := hlog _ hj
    · exact hclosed j (h.halfClosed j hj)
    · cases hj
      exact update_self ..
  · by_cases hold : w.sendClosed j = true
    · exact hsub _ (h.delivered j hold hu)
    · have hji : j = i := by
        by_contra hne
        exact hold ((update_of_ne hne ..).symm.trans hc)
      subst hji
      simp only [State.closeSend, if_pos (show w.Accepts j from ⟨hu, by simpa using hold⟩)]
      exact List.mem_append_right _ (List.mem_singleton_self _)
  · simp only [State.closeSend]
    split_ifs
    · exact h.ordered.append fun _ _ _ hx => absurd rfl hx
    · exact h.ordered
  · obtain hm | rfl := hlog m hm
    · exact h.bound m hm hx
    · exact absurd rfl hx

/-! ### The steps of `process` -/

theorem Inv.install (h : Inv w) (hrecv : w.process = .recv) : Inv w.swap := by
  have halive : w.swap.Alive → w.Alive := fun ha => ⟨ha.1, by rw [hrecv]; nofun⟩
  refine { h with
    swapped := h.swapped.broadcast h.isOpen
    isOpen := h.swapped.open_broadcast
    opened := rfl
    pump := h.pump.swap h.opened
    bytes := fun ha => h.bytes (halive ha)
    past := fun ha => h.past (halive ha)
    replays := fun hx => hx
    newest := fun hd => .inr (.inr (.inl hd))
    bound := fun m hm hx => ?_ }
  have hle : w.pump.client w.runClient ≤ w.pump.client w.opened := by
    cases w.pump <;> simp [Pump.client, h.opened]
  exact (h.bound m hm hx).trans hle

theorem Inv.replay (h : Inv w) (hreplay : w.process = .replaying) :
    Inv { w.closeSend w.runClient with process := .recv } := by
  have hdone : w.stdinDone = true := h.replays (by rw [hreplay]; rfl)
  have hc := h.closeSend w.runClient hdone
  have halive : ∀ {p}, State.Alive { w.closeSend w.runClient with process := p } →
      (w.closeSend w.runClient).Alive := fun ha => ⟨ha.1, by rw [State.closeSend, hreplay]; nofun⟩
  exact { hc with
    bytes := fun ha => hc.bytes (halive ha)
    past := fun ha => hc.past (halive ha)
    replays := nofun
    newest := fun _ => .inr (.inr (.inr (update_self ..))) }

theorem replays_last (stdinDone : Bool) : (Process.last stdinDone).replays = stdinDone := by
  cases stdinDone <;> rfl

theorem last_ne_finished (stdinDone : Bool) : Process.last stdinDone ≠ .finished := by
  cases stdinDone <;> nofun

/-! ### The steps of the pump -/

theorem Inv.setPump (h : Inv w) {p : Pump} {pipe : List Byte} (hold : w.pump.marked = false)
    (hnew : p.marked = false) (hok : p.Ok w)
    (hheld : w.Alive → p.held ++ pipe = w.pump.held ++ w.pipe)
    (hpast : w.Alive → p.past = true → pipe = [] ∧ w.inputClosed = true)
    (hclient : w.pump.client w.runClient ≤ p.client w.runClient) :
    Inv { w with pump := p, pipe := pipe } :=
  { h with
    pump := hok.mono rfl rfl fun _ ha => ha
    bytes := fun ha => by
      rw [List.append_assoc]
      exact (congrArg (w.stdin ++ ·) (hheld ha)).trans
        ((List.append_assoc ..).symm.trans (h.bytes ha))
    past := hpast
    marked := h.marked.trans (hold.trans hnew.symm)
    newest := fun hd => by
      simp_all [marked]
    bound := fun m hm hx => (h.bound m hm hx).trans hclient }

theorem Inv.read (h : Inv w) (hpump : w.pump = .reading) : Inv (Event.fire w .read) := by
  refine h.setPump ?_ rfl trivial (fun _ => ?_) (fun _ hx => by cases hx) ?_
  · rw [hpump]; rfl
  · rw [hpump]
    exact List.take_append_drop ..
  · rw [hpump]; exact le_rfl

theorem Inv.eof (h : Inv w) (hpump : w.pump = .reading)
    (hend : w.pipe = [] ∧ w.inputClosed = true ∨ w.ctxDone = true ∨ w.process = .finished) :
    Inv (Event.fire w .eof) := by
  have hclosed : w.Alive → w.pipe = [] ∧ w.inputClosed = true := by
    grind [State.Alive]
  refine h.setPump (p := .marking) ?_ rfl trivial (fun ha => ?_) (fun ha _ => hclosed ha) ?_
  · rw [hpump]; rfl
  · rw [hpump]; rfl
  · rw [hpump]; exact le_rfl

theorem Inv.get (h : Inv w) {data : List Byte} (hpump : w.pump = .getting data) :
    Inv (Event.fire w (.get data)) := by
  refine h.setPump (p := .sending ..) ?_ rfl ⟨le_rfl, le_rfl, fun _ => rfl⟩ (fun _ => ?_)
    (fun _ hx => by cases hx) ?_
  · rw [hpump]; rfl
  · rw [hpump]; rfl
  · rw [hpump]; exact le_rfl

theorem Inv.send (h : Inv w) {data : List Byte} {client swapped : ℕ}
    (hpump : w.pump = .sending data client swapped) :
    Inv (Event.fire w (.send data client swapped)) := by
  have hok := h.pump
  rw [hpump] at hok
  obtain ⟨hchannel, hclient, hnew⟩ := hok
  have hunmarked : w.pump.marked = false := by rw [hpump]; rfl
  dsimp only [Event.fire]
  by_cases haccepts : w.Accepts client
  · rw [if_pos haccepts]
    have hstdin : State.stdin ({ w with pump := .reading }.deliver client (.stdin data))
        = w.stdin ++ data := by
      simp [State.stdin, State.deliver, stdinOf]
    -- what was delivered so far came on streams up to this one
    have hbound : ∀ m ∈ w.log, stdinOf m ≠ [] → m.1 ≤ client := by
      intro m hm hx
      have hle := h.bound m hm hx
      rwa [hpump] at hle
    refine { h with
      pump := trivial
      bytes := fun ha => ?_
      past := fun _ hx => by cases hx
      marked := h.marked.trans hunmarked
      halfClosed := fun j hj => ?_
      delivered := fun j hc hu => List.mem_append_left _ (h.delivered j hc hu)
      newest := fun hd => ?_
      ordered := h.ordered.append fun m hm hx _ => hbound m hm hx
      bound := fun m hm hx => ?_ }
    · have hbytes := h.bytes ha
      rw [hpump] at hbytes
      rw [hstdin]
      simpa [State.deliver, Pump.held] using hbytes
    · obtain hj | hj := List.mem_append.1 hj
      · exact h.halfClosed j hj
      · rw [List.mem_singleton] at hj
        cases hj
    · rw [State.deliver, h.marked, hunmarked] at hd
      cases hd
    · obtain hm | hm := List.mem_append.1 hm
      · exact (hbound m hm hx).trans hclient
      · rw [List.mem_singleton] at hm
        subst hm
        exact hclient
  · rw [if_neg haccepts]
    refine h.setPump (p := .waiting ..) hunmarked rfl ⟨hchannel, hclient, hnew, haccepts⟩
      (fun _ => ?_) (fun _ hx => by cases hx) ?_
    · rw [hpump]; rfl
    · rw [hpump]; exact le_rfl

theorem Inv.wake (h : Inv w) {data : List Byte} {client swapped : ℕ}
    (hpump : w.pump = .waiting data client swapped) :
    Inv (Event.fire w (.wake data client swapped)) := by
  have hok := h.pump
  rw [hpump] at hok
  refine h.setPump (p := .getting data) ?_ rfl trivial (fun _ => ?_) (fun _ hx => by cases hx) ?_
  · rw [hpump]; rfl
  · rw [hpump]; rfl
  · rw [hpump]; exact hok.2.1

theorem Inv.abandon (h : Inv w) {data : List Byte} {client swapped : ℕ}
    (hpump : w.pump = .waiting data client swapped) (hfin : w.process = .finished) :
    Inv (Event.fire w (.abandon data client swapped)) := by
  have hok := h.pump
  rw [hpump] at hok
  have hdead : ¬ w.Alive := fun ha => ha.2 hfin
  refine h.setPump (p := .marking) ?_ rfl trivial (fun ha => absurd ha hdead)
    (fun ha => absurd ha hdead) ?_
  · rw [hpump]; rfl
  · rw [hpump]; exact hok.2.1

theorem Inv.mark (h : Inv w) (hpump : w.pump = .marking) : Inv (Event.fire w .mark) :=
  { h with
    pump := trivial
    bytes := fun ha => by
      have hbytes := h.bytes ha
      rwa [hpump] at hbytes
    past := fun ha _ => h.past ha (by rw [hpump]; rfl)
    marked := rfl
    replays := fun _ => rfl
    closed := fun _ _ => rfl
    newest := fun _ => .inl rfl
    bound := fun m hm hx => by
      have hle := h.bound m hm hx
      rwa [hpump] at hle }

theorem Inv.fetch (h : Inv w) (hpump : w.pump = .fetching) : Inv (Event.fire w .fetch) :=
  { h with
    pump := trivial
    bytes := fun ha => by
      have hbytes := h.bytes ha
      rwa [hpump] at hbytes
    past := fun ha _ => h.past ha (by rw [hpump]; rfl)
    marked := h.marked.trans (by rw [hpump]; rfl)
    newest := fun _ => .inr (.inl rfl)
    bound := fun m hm hx => by
      have hle := h.bound m hm hx
      rwa [hpump] at hle }

/-- The pump half-closes the stream it has got; if that is not the newest any more, `setClient` sees
to the newest. -/
theorem Inv.close (h : Inv w) {client : ℕ} (hpump : w.pump = .closing client) :
    Inv (Event.fire w (.close client)) := by
  have hdone : w.stdinDone = true := h.marked.trans (by rw [hpump]; rfl)
  have hc := h.closeSend client hdone
  have hpump' : (w.closeSend client).pump = .closing client := hpump
  exact { hc with
    pump := trivial
    bytes := fun ha => by
      have hbytes := hc.bytes ha
      rwa [hpump'] at hbytes
    past := fun ha _ => hc.past ha (by rw [hpump']; rfl)
    marked := hdone
    newest := fun hd => by
      obtain hx | hx | hx := hc.newest hd
      · simp_all
      · simp_all [Event.fire, State.closeSend]
      · exact .inr (.inr hx)
    bound := fun m hm hx => by
      have hle := hc.bound m hm hx
      rwa [hpump'] at hle }

/-! ### All steps -/

theorem Inv.setCall (h : Inv w) (k : ℕ) (pc : CallPc) : Inv (w.setCall k pc) := { h with }

theorem Inv.offer (h : Inv w) (bs : List Byte) (hpipe : w.pipe = [])
    (hopen : w.inputClosed = false) : Inv (Event.fire w (.offer bs)) :=
  { h with
    bytes := fun ha => by
      have hbytes := h.bytes ha
      grind [State.stdin, Event.fire]
    past := fun ha hx => by
      have hclosed := (h.past ha hx).2
      rw [hopen] at hclosed
      cases hclosed }

theorem Inv.fail (h : Inv w) (i : ℕ) : Inv (Event.fire w (.fail i)) := by
  have hup : ∀ j, (Event.fire w (.fail i)).up j = true → w.up j = true := by
    intro j hj
    by_cases hji : j = i
    · subst hji
      simp [Event.fire] at hj
    · simpa only [Event.fire, update_of_ne hji] using hj
  exact { h with
    pump := h.pump.mono rfl rfl fun j hj => ⟨hup j hj.1, hj.2⟩
    delivered := fun j hc hu => h.delivered j hc (hup j hu) }

theorem Inv.fire (h : Inv w) {e : Event} (he : e.Enabled w) : Inv (e.fire w) := by
  cases e with
  | offer bs => exact h.offer bs he.1 he.2
  | closeInput => exact { h with past := fun ha hx => ⟨(h.past ha hx).1, rfl⟩ }
  | fail i => exact h.fail i
  | cancel =>
    have hdead : ¬ (Event.fire w .cancel).Alive := fun ha => absurd ha.1 nofun
    exact { h with
      bytes := fun ha => absurd ha hdead
      past := fun ha => absurd ha hdead }
  | install => exact h.install he.1
  | resync win pending stdinDone =>
    have hinv : Inv { w with process := .flushing pending [] stdinDone } :=
      h.setProcess (congrArg Process.replays he).symm fun _ => by rw [he]; nofun
    dsimp only [Event.fire]
    split_ifs
    · exact hinv.deliver _ rfl nofun
    · exact hinv
  | flush m pending failed stdinDone =>
    have hinv : ∀ failed', Inv { w with process := .flushing pending failed' stdinDone } :=
      fun _ => h.setProcess (congrArg Process.replays he).symm fun _ => by rw [he]; nofun
    dsimp only [Event.fire]
    split_ifs
    · exact (hinv failed).deliver _ rfl nofun
    · exact hinv _
  | flushed failed stdinDone =>
    refine h.setProcess ?_ fun _ => by rw [he]; nofun
    rw [he]
    split_ifs
    · exact replays_last stdinDone
    · rfl
  | requeue failed stdinDone =>
    have hinv : Inv { w with process := .last stdinDone } :=
      h.setProcess ((replays_last stdinDone).trans (congrArg Process.replays he).symm)
        fun _ => by rw [he]; nofun
    exact { hinv with }
  | replay => exact h.replay he
  | finish =>
    exact h.setProcess (congrArg Process.replays he).symm fun _ => by rw [he]; nofun
  | read => exact h.read he.1
  | eof => exact h.eof he.1 he.2
  | get data => exact h.get he
  | send data client swapped => exact h.send he
  | wake data client swapped => exact h.wake he.1
  | abandon data client swapped => exact h.abandon he.1 he.2
  | mark => exact h.mark he
  | fetch => exact h.fetch he
  | close client => exact h.close he
  | call request => exact { h with }
  | callGet k => exact h.setCall k _
  | callSend k client =>
    dsimp only [Event.fire]
    split_ifs
    · exact (h.setCall k _).deliver _ rfl nofun
    · exact h.setCall k _
  | callPark k client =>
    dsimp only [Event.fire]
    split_ifs
    · exact { h.setCall k .returned with }
    · exact h.setCall k _

end Step

/-! ### The results -/

section Results

variable {w : State}

theorem Inv.all_of_done (h : Inv w) (halive : w.Alive) (hdone : w.stdinDone = true) :
    w.stdin = w.written ∧ w.inputClosed = true := by
  have hmarked : w.pump.marked = true := h.marked.symm.trans hdone
  have hrest : w.pump.past = true ∧ w.pump.held = [] := by
    cases hpc : w.pump <;> rw [hpc] at hmarked <;> first | exact ⟨rfl, rfl⟩ | cases hmarked
  obtain ⟨hpipe, hclosed⟩ := h.past halive hrest.1
  have hbytes := h.bytes halive
  rw [hrest.2, hpipe, List.append_nil, List.append_nil] at hbytes
  exact ⟨hbytes, hclosed⟩

/-- The pump does not miss a new stream: if it waits for one, the stream is down. -/
theorem Inv.not_waiting (h : Inv w) (hup : w.up w.runClient = true) {data : List Byte}
    {client swapped : ℕ} (hpump : w.pump = .waiting data client swapped) :
    swapped ∈ w.swapped.closes := by
  have hok := h.pump
  rw [hpump] at hok
  obtain ⟨hchannel, -, hnew, hnot⟩ := hok
  by_contra hopen
  obtain rfl := hnew (h.swapped.eq_current hchannel hopen)
  have hclosed : w.sendClosed w.runClient = true := by
    grind [State.Accepts]
  -- but streams are half-closed only after the pump has read all input
  have hmarked := h.marked.symm.trans (h.closed _ hclosed)
  rw [hpump] at hmarked
  cases hmarked

theorem Inv.settled (h : Inv w) (hup : w.up w.runClient = true) (hsettled : w.Settled) :
    w.pipe = [] ∧ (w.pump = .reading ∧ w.inputClosed = false) ∨ w.pump = .done := by
  cases hpump : w.pump with
  | reading =>
    have hpipe : w.pipe = [] := by
      by_contra hne
      exact hsettled .read trivial ⟨hpump, hne⟩
    refine .inl ⟨hpipe, rfl, ?_⟩
    by_contra hclosed
    exact hsettled .eof trivial ⟨hpump, .inl ⟨hpipe, by simpa using hclosed⟩⟩
  | getting data => exact absurd hpump (hsettled (.get data) trivial)
  | sending data client swapped => exact absurd hpump (hsettled (.send data client swapped) trivial)
  | waiting data client swapped =>
    exact absurd ⟨hpump, h.not_waiting hup hpump⟩ (hsettled (.wake data client swapped) trivial)
  | marking => exact absurd hpump (hsettled .mark trivial)
  | fetching => exact absurd hpump (hsettled .fetch trivial)
  | closing client => exact absurd hpump (hsettled (.close client) trivial)
  | done => exact .inr rfl

theorem replays_of_settled (hsettled : w.Settled) : w.process.replays = false := by
  cases hprocess : w.process with
  | recv => rfl
  | finished => rfl
  | resyncing win pending stdinDone => exact absurd hprocess (hsettled (.resync ..) trivial)
  | flushing pending failed stdinDone =>
    cases pending with
    | nil => exact absurd hprocess (hsettled (.flushed ..) trivial)
    | cons m pending => exact absurd hprocess (hsettled (.flush ..) trivial)
  | requeueing failed stdinDone => exact absurd hprocess (hsettled (.requeue ..) trivial)
  | replaying => exact absurd hprocess (hsettled .replay trivial)

theorem Inv.halfClose_of_done (h : Inv w) (hup : w.up w.runClient = true) (hsettled : w.Settled)
    (hpump : w.pump = .done) : (w.runClient, Req.halfClose) ∈ w.log := by
  have hdone : w.stdinDone = true := h.marked.trans (by rw [hpump]; rfl)
  have hclosed : w.sendClosed w.runClient = true := by
    obtain hx | hx | hx | hx := h.newest hdone
    · rw [hpump] at hx
      cases hx
    · rw [hpump] at hx
      cases hx
    · rw [replays_of_settled hsettled] at hx
      cases hx
    · exact hx
  exact h.delivered _ hclosed hup

end Results

/-! ### The work ends -/

section Work

variable {w : State}

/-- How many steps the pump is from waiting for input or from its end.  A stream that has been
replaced costs it another round. -/
def State.pumpWork (w : State) : ℕ :=
  match w.pump with
  | .done => 0
  | .closing _ => 1
  | .fetching => 2
  | .marking => 3
  | .reading => 4
  | .sending _ client _ => if w.Accepts client then 6 else 9
  | .getting _ => 7
  | .waiting .. => 8

/-- How many steps `setClient` is from its end. -/
def Process.work : Process → ℕ
  | recv | finished => 0
  | replaying => 1
  | requeueing .. => 2
  | flushing pending _ _ => pending.length + 3
  | resyncing _ pending _ => pending.length + 4

/-- A bound for what the pump and `setClient` have yet to do. -/
def State.work (w : State) : ℕ := 8 * w.pipe.length + w.pumpWork + w.process.work

theorem work_last_lt (stdinDone : Bool) : (Process.last stdinDone).work < 2 := by
  cases stdinDone <;> decide

theorem Inv.pumpWork_closeSend (h : Inv w) (i : ℕ) (hdone : w.stdinDone = true) :
    (w.closeSend i).pumpWork = w.pumpWork := by
  have hmarked : w.pump.marked = true := h.marked.symm.trans hdone
  have hpump : (w.closeSend i).pump = w.pump := rfl
  unfold State.pumpWork
  rw [hpump]
  cases hpc : w.pump <;> first | rfl | (rw [hpc] at hmarked; cases hmarked)

theorem Inv.pumpWork_lt (h : Inv w) (hup : w.up w.runClient = true) {e : Event} (he : e.Enabled w)
    (hfeeds : e.Feeds) :
    (e.fire w).process = w.process ∧ 8 * (e.fire w).pipe.length + (e.fire w).pumpWork
        < 8 * w.pipe.length + w.pumpWork ∨
      (e.fire w).process.work < w.process.work ∧ (e.fire w).pipe = w.pipe ∧
        (e.fire w).pumpWork = w.pumpWork := by
  cases e with
  | read =>
    obtain ⟨hpump, hpipe⟩ := he
    have hpos : 0 < w.pipe.length := List.length_pos_iff.2 hpipe
    refine .inl ⟨rfl, ?_⟩
    simp only [Event.fire, State.pumpWork, hpump, List.length_drop, stdinBufferSize]
    omega
  | eof =>
    grind [Event.fire, State.pumpWork, Event.Enabled]
  | get data =>
    rw [Event.Enabled] at he
    have haccepts : w.Accepts w.runClient := by
      refine ⟨hup, ?_⟩
      by_contra hclosed
      have hmarked := h.marked.symm.trans (h.closed _ (by simpa using hclosed))
      rw [he] at hmarked
      cases hmarked
    have haccepts' : State.Accepts (Event.fire w (.get data)) w.runClient := haccepts
    grind [Event.fire, State.pumpWork]
  | send data client swapped =>
    rw [Event.Enabled] at he
    dsimp only [Event.fire]
    split_ifs with haccepts
    · grind [State.deliver, State.pumpWork]
    · grind [State.pumpWork]
  | wake data client swapped =>
    refine .inl ⟨rfl, ?_⟩
    simp [Event.fire, State.pumpWork, he.1]
  | abandon data client swapped =>
    grind [Event.fire, State.pumpWork, Event.Enabled]
  | mark =>
    grind [Event.Enabled, Event.fire, State.pumpWork]
  | fetch =>
    grind [Event.Enabled, Event.fire, State.pumpWork]
  | close client =>
    rw [Event.Enabled] at he
    refine .inl ⟨rfl, ?_⟩
    simp [Event.fire, State.closeSend, State.pumpWork, he]
  | resync win pending stdinDone =>
    rw [Event.Enabled] at he
    dsimp only [Event.fire]
    split_ifs <;> exact .inr ⟨by rw [he]; exact Nat.lt_succ_self _, rfl, rfl⟩
  | flush m pending failed stdinDone =>
    rw [Event.Enabled] at he
    dsimp only [Event.fire]
    split_ifs <;>
      exact .inr ⟨by rw [he]; exact Nat.add_lt_add_right (Nat.lt_succ_self _) 3, rfl, rfl⟩
  | flushed failed stdinDone =>
    rw [Event.Enabled] at he
    refine .inr ⟨?_, rfl, rfl⟩
    rw [he]
    simp only [Event.fire]
    split_ifs
    · exact (work_last_lt stdinDone).trans (Nat.lt_succ_self 2)
    · exact Nat.lt_succ_self 2
  | requeue failed stdinDone =>
    rw [Event.Enabled] at he
    refine .inr ⟨?_, rfl, rfl⟩
    rw [he]
    exact work_last_lt stdinDone
  | replay =>
    rw [Event.Enabled] at he
    have hdone : w.stdinDone = true := h.replays (by rw [he]; rfl)
    refine .inr ⟨?_, rfl, h.pumpWork_closeSend w.runClient hdone⟩
    rw [he]
    exact Nat.zero_lt_one
  | _ => exact False.elim hfeeds

theorem Inv.work_lt (h : Inv w) (hup : w.up w.runClient = true) {e : Event} (he : e.Enabled w)
    (hfeeds : e.Feeds) : (e.fire w).work < w.work := by
  unfold State.work
  obtain ⟨hprocess, hlt⟩ | ⟨hlt, hpipe, hpump⟩ := h.pumpWork_lt hup he hfeeds
  · rw [hprocess]
    omega
  · rw [hpipe, hpump]
    omega

/-- What the pump and `setClient` leave as it is. -/
structure Fed (w w' : State) : Prop where
  up : w'.up = w.up
  runClient : w'.runClient = w.runClient
  written : w'.written = w.written
  inputClosed : w'.inputClosed = w.inputClosed
  alive : w.Alive → w'.Alive

theorem Fed.refl (w : State) : Fed w w := ⟨rfl, rfl, rfl, rfl, fun ha => ha⟩

theorem Fed.trans {w' w'' : State} (h : Fed w w') (h' : Fed w' w'') : Fed w w'' :=
  ⟨h'.up.trans h.up, h'.runClient.trans h.runClient, h'.written.trans h.written,
    h'.inputClosed.trans h.inputClosed, fun ha => h'.alive (h.alive ha)⟩

theorem Fed.fire {e : Event} (hfeeds : e.Feeds) : Fed w (e.fire w) := by
  cases e with
  | read | eof | get | wake | abandon | mark | fetch | close =>
    exact ⟨rfl, rfl, rfl, rfl, fun ha => ha⟩
  | send =>
    dsimp only [Event.fire]
    split_ifs <;> exact ⟨rfl, rfl, rfl, rfl, fun ha => ha⟩
  | resync | flush =>
    dsimp only [Event.fire]
    split_ifs <;> exact ⟨rfl, rfl, rfl, rfl, fun ha => ⟨ha.1, fun hx => by cases hx⟩⟩
  | flushed failed stdinDone =>
    refine ⟨rfl, rfl, rfl, rfl, fun ha => ⟨ha.1, ?_⟩⟩
    grind [last_ne_finished, Event.fire]
  | requeue failed stdinDone =>
    exact ⟨rfl, rfl, rfl, rfl, fun ha => ⟨ha.1, last_ne_finished stdinDone⟩⟩
  | replay => exact ⟨rfl, rfl, rfl, rfl, fun ha => ⟨ha.1, fun hx => by cases hx⟩⟩
  | _ => exact False.elim hfeeds

/-- **The pump and `setClient` come to an end** on a stream that stays up. -/
theorem Inv.exists_settled (h : Inv w) (hup : w.up w.runClient = true) :
    ∃ w', delivery.Run (fun _ e => e.Feeds) w w' ∧ Inv w' ∧ Fed w w' ∧ w'.Settled := by
  -- by induction on the work that is left
  induction hn : w.work using Nat.strong_induction_on generalizing w with
  | _ n ih =>
    by_cases hsettled : w.Settled
    · exact ⟨w, .refl, h, .refl w, hsettled⟩
    · simp only [State.Settled, not_forall, not_not] at hsettled
      obtain ⟨e, hfeeds, he⟩ := hsettled
      have hfed : Fed w (e.fire w) := .fire hfeeds
      have hup' : (e.fire w).up (e.fire w).runClient = true := by rw [hfed.up, hfed.runClient, hup]
      obtain ⟨w', hrun, hinv, hfed', hend⟩ :=
        ih _ (hn ▸ h.work_lt hup he hfeeds) (h.fire he) hup' rfl
      have hstep : delivery.Run (fun _ e => e.Feeds) w (e.fire w) := Machine.Run.refl.step he hfeeds
      exact ⟨w', hstep.trans hrun, hinv, hfed.trans hfed', hend⟩

end Work

/-- What is delivered when the pump and `setClient` have nothing left to do. -/
theorem Inv.delivered_of_settled {w : State} (h : Inv w) (halive : w.Alive)
    (hup : w.up w.runClient = true) (hsettled : w.Settled) :
    w.stdin = w.written ∧ (w.inputClosed = true → (w.runClient, Req.halfClose) ∈ w.log) := by
  obtain ⟨hpipe, hpump, hopen⟩ | hpump := h.settled hup hsettled
  · refine ⟨?_, fun hclosed => by rw [hopen] at hclosed; cases hclosed⟩
    have hbytes := h.bytes halive
    rw [hpump, hpipe, List.append_nil] at hbytes
    exact (List.append_nil _).symm.trans hbytes
  · have hdone : w.stdinDone = true := h.marked.trans (by rw [hpump]; rfl)
    grind [all_of_done, halfClose_of_done]

/-- **The input is replayed exactly once.**  As long as the client cares for the command, what the
consumer wrote is what was delivered, the chunk in the pump's hand, and what is not read yet; it was
delivered on one stream after the other; no stream was half-closed before all of it was delivered;
and when the pump and `setClient` have nothing left to do on a stream that is up, all of it is
delivered, and the newest stream is half-closed if the consumer has closed its input.  They come to
that point if the stream stays up. -/
theorem stdin_replayed {w : State} (h : delivery.Reachable .init w) (halive : w.Alive) :
    w.stdin ++ w.pump.held ++ w.pipe = w.written ∧ Ordered w.log ∧
      (∀ i, (i, Req.halfClose) ∈ w.log → w.stdin = w.written ∧ w.inputClosed = true) ∧
      w.opened = w.runClient + 1 ∧
      (w.up w.runClient = true → w.Settled →
        w.stdin = w.written ∧ (w.inputClosed = true → (w.runClient, Req.halfClose) ∈ w.log)) ∧
      (w.up w.runClient = true →
        ∃ w', delivery.Run (fun _ e => e.Feeds) w w' ∧ w'.Settled ∧ w'.written = w.written ∧
          w'.stdin = w.written) := by
  have hinv : Inv w := h.invariant (I := Inv) .init fun _ _ hw he _ => hw.fire he
  refine ⟨hinv.bytes halive, hinv.ordered,
    fun i hi => hinv.all_of_done halive (hinv.closed i (hinv.halfClosed i hi)), hinv.opened,
    fun hup hsettled => hinv.delivered_of_settled halive hup hsettled, fun hup => ?_⟩
  obtain ⟨w', hrun, hinv', hfed, hsettled⟩ := hinv.exists_settled hup
  have hup' : w'.up w'.runClient = true := by rw [hfed.up, hfed.runClient, hup]
  have hall := (hinv'.delivered_of_settled (hfed.alive halive) hup' hsettled).1
  exact ⟨w', hrun, hsettled, hfed.written, hall.trans hfed.written⟩

/-- With the pump at its end and `setClient` not called, there is nothing left to do. -/
theorem settled_of_done {w : State} (hpump : w.pump = .done) (hprocess : w.process = .recv) :
    w.Settled := by
  intro e hfeeds he
  cases e <;> first | exact hfeeds | simp [Event.Enabled, hpump, hprocess] at he

/-- A stream breaks under a chunk and another one after the end of the input. -/
theorem stdin_replayed_broken :
    ∃ w, delivery.Reachable .init w ∧ w.Alive ∧ w.runClient = 2 ∧ w.written = [1, 2, 3] ∧
      w.stdin = w.written ∧ (2, Req.halfClose) ∈ w.log := by
  have hexec : ∃ w ∈ delivery.exec (fun _ _ => True) .init
      [.offer [1, 2, 3], .read, .get [1, 2, 3], .fail 0, .send [1, 2, 3] 0 0, .install,
        .resync (0, 0) [] false, .wake [1, 2, 3] 0 0, .get [1, 2, 3], .send [1, 2, 3] 1 1,
        .flushed [] false, .closeInput, .eof, .mark, .fetch, .fail 1, .install,
        .resync (0, 0) [] true, .close 1, .flushed [] true, .replay],
      w.written = [1, 2, 3] ∧ w.runClient = 2 ∧ w.inputClosed = true ∧ w.pump = .done ∧
        w.process = .recv ∧ w.ctxDone = false ∧ w.up 2 = true := by
    decide +kernel
  obtain ⟨w, hrun, hwritten, hclient, hclosed, hpump, hprocess, hctx, hup⟩ :=
    Machine.exists_run_of_exec _ _ hexec
  have halive : w.Alive := ⟨hctx, by rw [hprocess]; nofun⟩
  obtain ⟨-, -, -, -, hend, -⟩ := stdin_replayed hrun halive
  rw [hclient] at hend
  obtain ⟨hstdin, hhalf⟩ := hend hup (settled_of_done hpump hprocess)
  exact ⟨w, hrun, halive, hclient, hwritten, hstdin, hhalf hclosed⟩

end Graft.Delivery
