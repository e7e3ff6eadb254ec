import Graft.Command.Rings

/-!
# What a stream carries

The transcript of a stream is everything its client has received on it followed by everything that
is still on the way.  Whatever the threads, the transport and the clients do, the transcript of
every stream is of one form: a greeting that names the offsets at which the output starts, then
the output from these offsets on, without holes, and possibly the exit status, which comes after
all the output there is.
-/

namespace Graft.Command

open History
open Function (update_self update_of_ne)

variable {q : List Resp} {w : World} {i : ℕ}

/-! ### Messages -/

def Resp.dataFor (fd : Fd) : Resp → List Byte
  | .output fd' bs => if fd' = fd then bs else []
  | _ => []

/-- The bytes of one output in a sequence of messages. -/
def dataOf (fd : Fd) (q : List Resp) : List Byte := q.flatMap (Resp.dataFor fd)

@[simp] theorem dataOf_nil (fd : Fd) : dataOf fd [] = [] := rfl

@[simp] theorem dataOf_append (fd : Fd) (p q : List Resp) :
    dataOf fd (p ++ q) = dataOf fd p ++ dataOf fd q := List.flatMap_append

@[simp] theorem dataOf_singleton (fd : Fd) (m : Resp) : dataOf fd [m] = m.dataFor fd := by
  simp [dataOf]

def HasExit (q : List Resp) : Prop := ∃ n, Resp.exitStatus n ∈ q

theorem HasExit.mono {p q : List Resp} (hpq : p ⊆ q) (h : HasExit p) : HasExit q :=
  h.imp fun _ hn => hpq hn

def ExitLast (q : List Resp) : Prop :=
  q.Pairwise fun a b => (∃ n, a = .exitStatus n) → ∀ fd, b.dataFor fd = []

theorem ExitLast.dataOf_eq {p q : List Resp} (ho : ExitLast q) (hp : p <+: q) (he : HasExit p)
    (fd : Fd) : dataOf fd p = dataOf fd q := by
  obtain ⟨t, rfl⟩ := hp
  obtain ⟨n, hn⟩ := he
  have hrest : dataOf fd t = [] := by
    grind [List.flatMap_eq_nil_iff, dataOf, ExitLast]
  grind [dataOf_append]

theorem ExitLast.append_other {q ms : List Resp} (ho : ExitLast q)
    (hm : ∀ m ∈ ms, ∀ fd, m.dataFor fd = []) : ExitLast (q ++ ms) := by
  refine List.pairwise_append.2 ⟨ho, ?_, fun a _ b hb _ => hm b hb⟩
  exact List.pairwise_iff_getElem.2 fun _ _ _ hj _ _ => hm _ (List.getElem_mem hj)

theorem ExitLast.append {m : Resp} (ho : ExitLast q) (hx : ¬ HasExit q) : ExitLast (q ++ [m]) := by
  grind [ExitLast, HasExit]

/-! ### The state of a stream -/

def PumpPc.pos : PumpPc → ℕ
  | .off => 0
  | .reading o | .sending _ o | .finished o => o

def HandlerPc.seenEnd : HandlerPc → Bool
  | .exiting | .sendingExit _ | .removing _ => true
  | _ => false

/-- The offsets a handler was asked for, while it attaches. -/
def HandlerPc.asked : HandlerPc → Option (Offsets)
  | .attaching o | .acking o | .replayOut o | .replayErr o _ => some o
  | _ => none

/-- A replay offset: it is the one asked for, or the ring has evicted everything before it. -/
def Fits (r : OutputRing) (asked replay : ℕ) : Prop :=
  asked ≤ replay ∧ (replay = asked ∨ replay ≤ r.start)

theorem fits_replayOffset (r : OutputRing) (asked : ℕ) : Fits r asked (replayOffset r asked) := by
  unfold Fits replayOffset OutputRing.startOffset
  omega

theorem Fits.mono {r r' : OutputRing} {asked replay : ℕ} (hs : r.start ≤ r'.start)
    (h : Fits r asked replay) : Fits r' asked replay :=
  ⟨h.1, h.2.imp id fun hr => hr.trans hs⟩

/-- The ring is closed and everything it ever held is below the offset. -/
def Complete (w : World) (fd : Fd) (o : ℕ) : Prop :=
  (w.cmd.rings fd).closed = true ∧ (w.hist fd).length ≤ o

theorem Complete.mono {w w' : World} {fd : Fd} {o : ℕ} (hg : Grows w w') (h : Complete w fd o) :
    Complete w' fd o := by
  grind [RingGrows.closed, Complete, Grows]

/-- The messages `q` that follow a greeting with the offsets `r`. -/
structure Script (w : World) (i : ℕ) (r : Offsets) (q : List Resp) : Prop where
  served : (w.handler i).served = true
  reads : ∀ fd, Reads (w.hist fd) (r fd) (dataOf fd q)
  upTo : w.broken i = false ∨ HasExit q →
    ∀ fd, r fd + (dataOf fd q).length = (w.pump i fd).pos
  exitLast : ExitLast q

/-- The greeting of a stream whose output starts at the offsets `r`. -/
inductive Greets (w : World) (i : ℕ) (r : Offsets) : Resp → Prop
  | started (hr : r = ⟨0, 0⟩) : Greets w i r .started
  | attached (hr : ∀ fd, Fits (w.cmd.rings fd) (w.asked i fd) (r fd)) : Greets w i r (.attached r)

/-- The transcript of stream `i`. -/
inductive Transcript (w : World) (i : ℕ) : List Resp → Prop
  | silent (h : w.broken i = true ∨ (w.handler i).serving = false ∧ ∀ fd, w.pump i fd = .off) :
      Transcript w i []
  | refused (c : Code) (q : List Resp) : Transcript w i (.trailer c :: q)
  | greeted {m : Resp} {r : Offsets} {q : List Resp} (hm : Greets w i r m) (hq : Script w i r q) :
      Transcript w i (m :: q)

/-- **The invariant of one stream.** -/
structure StreamInv (w : World) (i : ℕ) : Prop where
  pumpOff : (w.handler i).served = false → ∀ fd, w.pump i fd = .off
  sending : ∀ fd bs o, w.pump i fd = .sending bs o → Reads (w.hist fd) o bs
  finished : ∀ fd o, w.pump i fd = .finished o → w.stop i = true ∨ Complete w fd o
  seenEnd : (w.handler i).seenEnd = true ∨ HasExit (w.received i ++ w.toClient i) →
    ∀ fd, ∃ o, w.pump i fd = .finished o ∧ Complete w fd o
  asked : ∀ o, (w.handler i).asked = some o → w.asked i = o
  replayErr : ∀ o out, w.handler i = .replayErr o out →
    Fits (w.cmd.rings .stdout) (w.asked i .stdout) out
  replying : ∀ r, w.handler i = .replying r →
    ∀ fd, Fits (w.cmd.rings fd) (w.asked i fd) (r fd)
  transcript : Transcript w i (w.received i ++ w.toClient i)

/-! ### Steps that are not the stream's own -/

/-- What a step that is not the stream's own leaves of stream `i`: it may break it or move messages
to its client. -/
structure Untouched (w w' : World) (i : ℕ) : Prop where
  handler : w'.handler i = w.handler i
  pump : w'.pump i = w.pump i
  asked : w'.asked i = w.asked i
  stop : w'.stop i = w.stop i
  broken : w.broken i = true → w'.broken i = true
  messages : w'.received i ++ w'.toClient i = w.received i ++ w.toClient i ∨
    w'.broken i = true ∧ w'.received i ++ w'.toClient i <+: w.received i ++ w.toClient i

theorem Untouched.of_eq {w w' : World} (hh : w'.handler i = w.handler i)
    (hp : w'.pump i = w.pump i) (ha : w'.asked i = w.asked i) (hs : w'.stop i = w.stop i)
    (hb : w'.broken i = w.broken i) (hr : w'.received i = w.received i)
    (hc : w'.toClient i = w.toClient i) : Untouched w w' i :=
  ⟨hh, hp, ha, hs, fun h => hb.trans h, .inl (by rw [hr, hc])⟩

section Transport

variable {w w' : World} {i : ℕ} {m : Resp} {r : Offsets} {p q : List Resp}

theorem Greets.mono (hg : Grows w w') (ha : w'.asked i = w.asked i) (h : Greets w i r m) :
    Greets w' i r m := by
  cases h with
  | started hr => exact .started hr
  | attached hr => exact .attached fun fd => ha ▸ (hr fd).mono (hg fd).start_le

theorem Script.mono (hg : Grows w w') (hu : Untouched w w' i) (h : Script w i r q) :
    Script w' i r q where
  served := hu.handler ▸ h.served
  reads fd := (h.reads fd).mono (hg fd).hist
  upTo hb := by
    rw [hu.pump]
    refine h.upTo (hb.imp (fun hb' => ?_) id)
    by_contra hbroken
    rw [hu.broken (by simpa using hbroken)] at hb'
    exact absurd hb' (by simp)
  exitLast := h.exitLast

theorem Script.of_prefix (hb : w.broken i = true) (hp : p <+: q) (h : Script w i r q) :
    Script w i r p where
  served := h.served
  reads fd := by
    obtain ⟨t, rfl⟩ := hp
    exact (reads_append.1 (dataOf_append fd p t ▸ h.reads fd)).1
  upTo he fd := by
    have hexit : HasExit p := he.resolve_left (by simp [hb])
    rw [h.exitLast.dataOf_eq hp hexit]
    grind [upTo, HasExit]
  exitLast := List.Pairwise.sublist hp.sublist h.exitLast

theorem Transcript.mono (hg : Grows w w') (hu : Untouched w w' i) (h : Transcript w i q) :
    Transcript w' i q := by
  cases h with
  | silent h =>
    refine .silent (h.imp hu.broken ?_)
    rw [hu.handler, hu.pump]
    exact id
  | refused c q => exact .refused c q
  | greeted hm hq => exact .greeted (hm.mono hg hu.asked) (hq.mono hg hu)

theorem Transcript.of_prefix (hb : w.broken i = true) (hp : p <+: q) (h : Transcript w i q) :
    Transcript w i p := by
  cases p with
  | nil => exact .silent (.inl hb)
  | cons m' p =>
    cases h with
    | silent => simp at hp
    | refused c q =>
      obtain ⟨rfl, -⟩ := List.cons_prefix_cons.1 hp
      exact .refused c p
    | greeted hm hq =>
      obtain ⟨rfl, hp'⟩ := List.cons_prefix_cons.1 hp
      exact .greeted hm (hq.of_prefix hb hp')

theorem StreamInv.mono (hg : Grows w w') (hu : Untouched w w' i) (h : StreamInv w i) :
    StreamInv w' i where
  pumpOff := by
    rw [hu.handler, hu.pump]
    exact h.pumpOff
  sending fd bs o hp := (h.sending fd bs o (hu.pump ▸ hp)).mono (hg fd).hist
  finished fd o hp := (h.finished fd o (hu.pump ▸ hp)).imp hu.stop.trans (Complete.mono hg)
  seenEnd he fd := by
    rw [hu.handler] at he
    have he' := he.imp_right fun hx : HasExit _ => hx.mono <| by
      rcases hu.messages with hm | ⟨-, hm⟩
      · rw [hm]; exact List.Subset.refl _
      · exact hm.subset
    obtain ⟨o, hp, hc⟩ := h.seenEnd he' fd
    exact ⟨o, hu.pump ▸ hp, hc.mono hg⟩
  asked o := by
    rw [hu.handler, hu.asked]
    exact h.asked o
  replayErr o out hh := by
    rw [hu.asked]
    exact (h.replayErr o out (hu.handler ▸ hh)).mono (hg .stdout).start_le
  replying r hh fd := by
    rw [hu.asked]
    exact (h.replying r (hu.handler ▸ hh) fd).mono (hg fd).start_le
  transcript := by
    have ht := h.transcript.mono hg hu
    grind [Untouched.messages, Transcript.of_prefix]

end Transport

/-! ### The stream's own steps -/

section Own

variable {w : World} {i : ℕ} {e : Serve}

theorem setPump_self (w : World) (i : ℕ) (fd fd' : Fd) (pc : PumpPc) :
    Serve.setPump w i fd pc i fd' = if fd' = fd then pc else w.pump i fd' := by
  simp [Serve.setPump, Function.update_apply]

theorem Serve.pump_pos (he : e.Enabled w i) (hs : (w.handler i).served = true)
    (hne : ∀ fd o bs, e ≠ .pumpSent fd o bs) (fd : Fd) :
    ((e.fire w i).pump i fd).pos = (w.pump i fd).pos := by
  cases e with
  | greetSent | replySent => simp [he.1, HandlerPc.served] at hs
  | pumpRead fd' o bs | pumpGap fd' o bs got | pumpEof fd' o got | pumpStop fd' o
  | pumpSendFailed fd' o bs =>
    simp only [Serve.fire, setPump_self]
    split_ifs with hfd
    · rw [hfd, he.1]; rfl
    · rfl
  | pumpSent fd' o bs => exact absurd rfl (hne fd' o bs)
  | _ => rfl

theorem Serve.sends_dataFor (hne : ∀ fd o bs, e ≠ .pumpSent fd o bs) :
    ∀ m ∈ e.sends, ∀ fd, m.dataFor fd = [] := by
  cases e with
  | pumpSent fd o bs => exact absurd rfl (hne fd o bs)
  | greetSent | replySent | exitSent | ret => simp [Serve.sends, Resp.dataFor]
  | _ => simp [Serve.sends]

theorem StreamInv.not_sending (h : StreamInv w i) (hx : HasExit q)
    (hq : q ⊆ w.received i ++ w.toClient i) (fd : Fd) : ∃ o, w.pump i fd = .finished o := by
  obtain ⟨o, ho, -⟩ := h.seenEnd (.inr (hx.mono hq)) fd
  exact ⟨o, ho⟩

theorem Script.own_other {r : Offsets} (hq : Script w i r q) (he : e.Enabled w i)
    (hne : ∀ fd o bs, e ≠ .pumpSent fd o bs) :
    Script (e.fire w i) i r (q ++ if w.broken i then [] else e.sends) := by
  have hms : ∀ m ∈ (if w.broken i then [] else e.sends), ∀ fd, m.dataFor fd = [] := by
    intro m hm
    split_ifs at hm
    · simp at hm
    · exact Serve.sends_dataFor hne m hm
  have hdata : ∀ fd, dataOf fd (q ++ if w.broken i then [] else e.sends) = dataOf fd q := by
    intro fd
    have hnil : dataOf fd (if w.broken i then [] else e.sends) = [] :=
      List.flatMap_eq_nil_iff.2 fun m hm => hms m hm fd
    rw [dataOf_append, hnil, List.append_nil]
  refine ⟨Serve.served_mono he hq.served, fun fd => ?_, fun hx fd => ?_,
    hq.exitLast.append_other hms⟩
  · rw [hdata, Serve.fire_hist]
    exact hq.reads fd
  · rw [hdata, Serve.pump_pos he hq.served hne]
    refine hq.upTo ?_ fd
    rw [Serve.fire_broken] at hx
    rcases hx with hx | ⟨n, hn⟩
    · exact .inl hx
    · rcases List.mem_append.1 hn with hn | hn
      · exact .inr ⟨n, hn⟩
      · refine .inl ?_
        by_contra hb
        simp [Bool.not_eq_false _ ▸ hb] at hn

theorem Script.own_pumpSent {r : Offsets} {fd : Fd} {o : ℕ} {bs : List Byte}
    (hq : Script w i r q) (hp : w.pump i fd = .sending bs o) (hr : Reads (w.hist fd) o bs)
    (hx : ¬ HasExit q) : Script (Serve.fire w i (.pumpSent fd o bs)) i r
      (q ++ if w.broken i then [] else [.output fd bs]) := by
  by_cases hb : w.broken i = true
  · rw [if_pos hb, List.append_nil]
    exact ⟨hq.served, hq.reads, fun he => he.elim (fun h => absurd (hb.symm.trans h) (by simp))
      fun h => absurd h hx, hq.exitLast⟩
  · have hb' : w.broken i = false := by simpa using hb
    have hup := hq.upTo (.inl hb')
    rw [if_neg hb]
    refine ⟨hq.served, fun fd' => ?_, fun _ fd' => ?_, hq.exitLast.append hx⟩
    · rw [dataOf_append, dataOf_singleton, reads_append]
      refine ⟨hq.reads fd', ?_⟩
      by_cases hfd : fd = fd'
      · subst hfd
        have := hup fd
        rw [hp] at this
        rw [this]
        simpa [Resp.dataFor, PumpPc.pos] using hr
      · simpa [Resp.dataFor, hfd] using Reads.nil
    · simp only [Serve.fire, setPump_self, dataOf_append, dataOf_singleton, Resp.dataFor]
      have := hup fd'
      by_cases hfd : fd = fd'
      · subst hfd
        rw [hp] at this
        simp only [if_true, List.length_append, PumpPc.pos] at this ⊢
        omega
      · simpa [hfd, Ne.symm hfd] using this

theorem Serve.fire_asked (he : e.Enabled w i) (hs : (w.handler i).served = true) :
    (e.fire w i).asked i = w.asked i := by
  cases e with
  | lookup o | lookupMissing o => simp [he.2.1, HandlerPc.served] at hs
  | _ => rfl

theorem Transcript.own_silent (h : StreamInv w i) (he : e.Enabled w i)
    (hs : (w.handler i).serving = false) (hp : ∀ fd, w.pump i fd = .off) :
    Transcript (e.fire w i) i e.sends := by
  have hoff : ∀ {pc fd}, w.pump i fd = pc → pc ≠ .off → False := fun h1 h2 => h2 (h1 ▸ hp _)
  have hns : ∀ {pc}, w.handler i = pc → pc.serving = true → False :=
    fun h1 h2 => absurd (h1 ▸ hs) (by simp [h2])
  cases e with
  | greetSent =>
    refine .greeted (.started rfl) ⟨by simp [Serve.fire, Serve.serveFrom, HandlerPc.served],
      fun _ => .nil, fun _ fd => ?_, List.Pairwise.nil⟩
    simp [Serve.fire, Serve.serveFrom, PumpPc.pos]
  | replySent r =>
    refine .greeted (.attached (h.replying r he.1)) ⟨by
      simp [Serve.fire, Serve.serveFrom, HandlerPc.served], fun _ => .nil, fun _ fd => ?_,
      List.Pairwise.nil⟩
    simp [Serve.fire, Serve.serveFrom, PumpPc.pos]
  | ret c => exact .refused c []
  | pumpRead | pumpGap | pumpEof | pumpStop | pumpSent | pumpSendFailed =>
    exact (hoff he.1 (by simp)).elim
  | joinStopped | joinEof | exitError | exitRead | exitSent | exitSendFailed =>
    exact (hns he.1 rfl).elim
  | remove | leave => exact (hns he rfl).elim
  | attachStart | greetFailed | lookup | lookupMissing | refuse | attach | ackOutput | replayOut
  | replayErr | replyFailed =>
    exact .silent (.inr ⟨by simp [Serve.fire, HandlerPc.serving], hp⟩)
  | _ => exact .silent (.inr ⟨hs, hp⟩)

/-- **The transcript of a stream is extended by its own steps.** -/
theorem Transcript.own (h : StreamInv w i) (he : e.Enabled w i) :
    Transcript (e.fire w i) i ((e.fire w i).received i ++ (e.fire w i).toClient i) := by
  rw [Serve.fire_received, Serve.fire_toClient_self, ← List.append_assoc]
  have ht := h.transcript
  generalize hT : w.received i ++ w.toClient i = T at ht
  cases ht with
  | silent hs =>
    rw [List.nil_append]
    by_cases hb : w.broken i = true
    · rw [if_pos hb]
      exact .silent (.inl (by rw [Serve.fire_broken]; exact hb))
    · simp_all [own_silent]
  | refused c q => exact .refused c _
  | @greeted m r q hm hq =>
    refine .greeted (hm.mono (Serve.grows w i e) (Serve.fire_asked he hq.served)) ?_
    by_cases hsend : ∃ fd o bs, e = .pumpSent fd o bs
    · obtain ⟨fd, o, bs, rfl⟩ := hsend
      refine hq.own_pumpSent he.1 (h.sending fd bs o he.1) fun hx => ?_
      obtain ⟨o', ho'⟩ := h.not_sending hx (hT ▸ List.subset_cons_self _ _) fd
      exact absurd (he.1.symm.trans ho') (by simp)
    · exact hq.own_other he fun fd o bs heq => hsend ⟨fd, o, bs, heq⟩

theorem StreamInv.own_pumpOff (h : StreamInv w i) (he : e.Enabled w i)
    (hs : ((e.fire w i).handler i).served = false) (fd : Fd) : (e.fire w i).pump i fd = .off := by
  have hold : (w.handler i).served = false := by
    grind [Serve.served_mono]
  have hoff := h.pumpOff hold
  cases e with
  | greetSent | replySent => simp [Serve.fire, Serve.serveFrom, HandlerPc.served] at hs
  | pumpRead | pumpGap | pumpEof | pumpStop | pumpSent | pumpSendFailed =>
    exact absurd ((hoff _).symm.trans he.1) (by simp)
  | _ => exact hoff fd

theorem StreamInv.own_sending (h : StreamInv w i) (hr : RingsOk w) (he : e.Enabled w i) (fd : Fd)
    (bs : List Byte) (o : ℕ) (hp : (e.fire w i).pump i fd = .sending bs o) :
    Reads (w.hist fd) o bs := by
  cases e with
  | greetSent | replySent => simp [Serve.fire, Serve.serveFrom] at hp
  | pumpRead fd' o' bs' =>
    simp only [Serve.fire, setPump_self] at hp
    split_ifs at hp with hfd
    · cases hp
      subst hfd
      exact (OutputRing.readAt_data (hr fd).retains he.2).2.2.1
    · exact h.sending fd bs o hp
  | pumpGap | pumpEof | pumpStop | pumpSent | pumpSendFailed =>
    simp only [Serve.fire, setPump_self] at hp
    grind [sending]
  | _ => exact h.sending fd bs o hp

theorem StreamInv.own_finished (h : StreamInv w i) (hr : RingsOk w) (he : e.Enabled w i) (fd : Fd)
    (o : ℕ) (hp : (e.fire w i).pump i fd = .finished o) :
    (e.fire w i).stop i = true ∨ Complete (e.fire w i) fd o := by
  have hgrow := Serve.grows w i e
  cases e with
  | greetSent | replySent => simp [Serve.fire, Serve.serveFrom] at hp
  | pumpRead | pumpSent =>
    simp only [Serve.fire, setPump_self] at hp
    split_ifs at hp
    exact h.finished fd o hp
  | pumpGap | pumpSendFailed => exact .inl (by simp [Serve.fire])
  | pumpStop => exact .inl he.2.2
  | pumpEof fd' o' got =>
    simp only [Serve.fire, setPump_self] at hp
    split_ifs at hp with hfd
    · cases hp
      subst hfd
      exact .inr ((hr fd).readAt_eof he.2)
    · exact h.finished fd o hp
  | watch | leave | inErr => exact .inl (by simp [Serve.fire])
  | _ => exact (h.finished fd o hp).imp_right (Complete.mono hgrow)

/-- The handler goes on to the exit status only when both outputs have ended. -/
theorem StreamInv.own_seenEnd (h : StreamInv w i) (he : e.Enabled w i)
    (hx : ((e.fire w i).handler i).seenEnd = true ∨
      HasExit ((e.fire w i).received i ++ (e.fire w i).toClient i)) (fd : Fd) :
    ∃ o, (e.fire w i).pump i fd = .finished o ∧ Complete (e.fire w i) fd o := by
  have hgrow := Serve.grows w i e
  -- what was known before the step is still known, unless a pump moved
  have hkeep : (w.handler i).seenEnd = true ∨ HasExit (w.received i ++ w.toClient i) →
      ∃ o, (e.fire w i).pump i fd = .finished o ∧ Complete (e.fire w i) fd o := by
    intro hold
    obtain ⟨o, ho, hc⟩ := h.seenEnd hold fd
    refine ⟨o, ?_, hc.mono hgrow⟩
    have hdone := h.seenEnd hold
    cases e with
    | greetSent | replySent =>
      have hoff := h.pumpOff (by rw [he.1]; rfl) fd
      grind
    | pumpRead fd' | pumpGap fd' | pumpEof fd' | pumpStop fd' | pumpSent fd'
    | pumpSendFailed fd' =>
      obtain ⟨o', ho', -⟩ := hdone fd'
      grind [Serve.Enabled]
    | _ => exact ho
  have hexit : HasExit ((e.fire w i).received i ++ (e.fire w i).toClient i) →
      HasExit (w.received i ++ w.toClient i) ∨ HasExit e.sends := by
    rintro ⟨n, hn⟩
    rw [Serve.fire_received, Serve.fire_toClient_self, ← List.append_assoc] at hn
    rcases List.mem_append.1 hn with hn | hn
    · exact .inl ⟨n, hn⟩
    · split_ifs at hn
      · simp at hn
      · exact .inr ⟨n, hn⟩
  by_cases hold : HasExit (w.received i ++ w.toClient i)
  · exact hkeep (.inr hold)
  have hnew : ((e.fire w i).handler i).seenEnd = true ∨ HasExit e.sends :=
    hx.imp_right fun h => (hexit h).resolve_left hold
  cases e with
  | joinEof o o' =>
    obtain ⟨-, h1, h2, hstop⟩ := he
    cases fd with
    | stdout => exact ⟨o, h1, (h.finished _ o h1).resolve_left (by simp [hstop])⟩
    | stderr => exact ⟨o', h2, (h.finished _ o' h2).resolve_left (by simp [hstop])⟩
  | exitError | exitRead | exitSent => exact hkeep (.inl (by rw [he.1]; rfl))
  | greetSent | replySent =>
    simp [Serve.fire, Serve.serveFrom, HandlerPc.seenEnd, HasExit, Serve.sends] at hnew
  | attachStart | greetFailed | lookup | lookupMissing | refuse | attach | ackOutput | replayOut
  | replayErr | replyFailed | joinStopped | exitSendFailed | remove | leave | ret =>
    simp [Serve.fire, HandlerPc.seenEnd, HasExit, Serve.sends] at hnew
  | _ => exact hkeep (.inl (hnew.resolve_right (by simp [HasExit, Serve.sends])))

theorem StreamInv.own_asked (h : StreamInv w i) (he : e.Enabled w i) (o : Offsets)
    (ha : ((e.fire w i).handler i).asked = some o) : (e.fire w i).asked i = o := by
  cases e with
  | lookup o' =>
    simp only [Serve.fire, update_self, HandlerPc.asked, Option.some.injEq] at ha ⊢
    exact ha
  | attach o' | ackOutput o' | replayOut o' =>
    simp only [Serve.fire, update_self, HandlerPc.asked, Option.some.injEq] at ha
    exact ha ▸ h.asked o' (by rw [show w.handler i = _ from he]; rfl)
  | greetSent | replySent => simp [Serve.fire, Serve.serveFrom, HandlerPc.asked] at ha
  | attachStart | greetFailed | lookupMissing | refuse | replayErr | replyFailed | joinStopped
  | joinEof | exitError | exitRead | exitSent | exitSendFailed | remove | leave | ret =>
    simp [Serve.fire, HandlerPc.asked] at ha
  | _ => exact h.asked o ha

theorem StreamInv.own_replayErr (h : StreamInv w i) (he : e.Enabled w i) (o : Offsets) (out : ℕ)
    (hh : (e.fire w i).handler i = .replayErr o out) :
    Fits ((e.fire w i).cmd.rings .stdout) ((e.fire w i).asked i .stdout) out := by
  have hgrow := (Serve.grows w i e .stdout).start_le
  cases e with
  | replayOut o' =>
    simp only [Serve.fire, update_self, HandlerPc.replayErr.injEq] at hh
    obtain ⟨rfl, rfl⟩ := hh
    have ha : w.asked i = o' := h.asked o' (by rw [show w.handler i = _ from he]; rfl)
    exact ha ▸ fits_replayOffset _ _
  | greetSent | replySent => simp [Serve.fire, Serve.serveFrom] at hh
  | attachStart | greetFailed | lookup | lookupMissing | refuse | attach | ackOutput | replayErr
  | replyFailed | joinStopped | joinEof | exitError | exitRead | exitSent | exitSendFailed
  | remove | leave | ret =>
    simp [Serve.fire] at hh
  | _ => exact (h.replayErr o out hh).mono hgrow

theorem StreamInv.own_replying (h : StreamInv w i) (he : e.Enabled w i) (r : Offsets)
    (hh : (e.fire w i).handler i = .replying r) (fd : Fd) :
    Fits ((e.fire w i).cmd.rings fd) ((e.fire w i).asked i fd) (r fd) := by
  have hgrow := (Serve.grows w i e fd).start_le
  cases e with
  | replayErr o out =>
    simp only [Serve.fire, update_self, HandlerPc.replying.injEq] at hh
    subst hh
    have ha : w.asked i = o := h.asked o (by rw [show w.handler i = _ from he]; rfl)
    cases fd with
    | stdout => exact h.replayErr o out he
    | stderr => exact ha ▸ fits_replayOffset _ _
  | greetSent | replySent => simp [Serve.fire, Serve.serveFrom] at hh
  | attachStart | greetFailed | lookup | lookupMissing | refuse | attach | ackOutput | replayOut
  | replyFailed | joinStopped | joinEof | exitError | exitRead | exitSent | exitSendFailed
  | remove | leave | ret =>
    simp [Serve.fire] at hh
  | _ => exact (h.replying r hh fd).mono hgrow

theorem StreamInv.own (h : StreamInv w i) (hr : RingsOk w) (he : e.Enabled w i) :
    StreamInv (e.fire w i) i where
  pumpOff := h.own_pumpOff he
  sending fd bs o hp := by
    rw [Serve.fire_hist]
    exact h.own_sending hr he fd bs o hp
  finished := h.own_finished hr he
  seenEnd := h.own_seenEnd he
  asked := h.own_asked he
  replayErr := h.own_replayErr he
  replying := h.own_replying he
  transcript := Transcript.own h he

end Own

/-! ### All steps -/

theorem Serve.untouched {i j : ℕ} (e : Serve) (hji : j ≠ i) : Untouched w (e.fire w i) j := by
  refine .of_eq (e.fire_handler_of_ne hji) (e.fire_pump_of_ne hji) ?_ (e.fire_stop_of_ne hji)
    (by rw [Serve.fire_broken]) (by rw [Serve.fire_received]) (e.fire_toClient_of_ne hji)
  cases e <;> first | rfl | exact update_of_ne hji ..

theorem pop_transcript (w : World) (i j : ℕ) :
    (w.pop i).received j ++ (w.pop i).toClient j = w.received j ++ w.toClient j := by
  by_cases hji : j = i
  · subst hji
    simp only [World.pop, update_self, List.append_assoc]
    cases w.toClient j <;> rfl
  · simp only [World.pop, update_of_ne hji]

theorem pop_untouched (w : World) (i j : ℕ) (c : Client) (sp : StdinPc) :
    Untouched w { w.pop i with client := c, stdinPump := sp } j :=
  ⟨rfl, rfl, rfl, rfl, id, .inl (pop_transcript w i j)⟩

theorem brk_untouched (w : World) (i j k l : ℕ) :
    Untouched w (Event.fire w (.brk i k l)) j := by
  by_cases hji : j = i
  · subst hji
    refine ⟨rfl, rfl, rfl, rfl, fun _ => by simp [Event.fire], .inr ⟨by simp [Event.fire], ?_⟩⟩
    simp only [Event.fire, update_self]
    exact (List.prefix_append_right_inj _).2 (List.take_prefix _ _)
  · simp_all [Untouched.of_eq, Event.fire]

theorem openStream_untouched (w : World) (own : Bool) (o : Offsets) (c : Client)
    (hi : i ≠ w.opened) : Untouched w { w.openStream own o with client := c } i := by
  refine .of_eq ?_ ?_ ?_ ?_ ?_ ?_ ?_ <;> simp only [World.openStream, update_of_ne hi]

/-- Stream `i` was just opened. -/
structure NewStream (w : World) (i : ℕ) : Prop where
  handler : w.handler i = .idle
  pump : ∀ fd, w.pump i fd = .off
  stop : w.stop i = false
  received : w.received i = []
  toClient : w.toClient i = []

theorem newStream_openStream (w : World) (own : Bool) (o : Offsets) (c : Client) :
    NewStream { w.openStream own o with client := c } w.opened := by
  constructor <;> simp [World.openStream]

/-- **What a step is to a stream**: its own, one that leaves it alone, or the one that opens it. -/
inductive StreamStep (w : World) (e : Event) (i : ℕ) : Prop
  | own (f : Serve) (he : e = .serve i f)
  | other (hu : Untouched w (e.fire w) i)
  | opens (hn : NewStream (e.fire w) i)

theorem Event.streamStep (w : World) (e : Event) (i : ℕ) : StreamStep w e i := by
  have hopen : ∀ {e : Event} own o c, e.fire w = { w.openStream own o with client := c } →
      StreamStep w e i := by
    intro e own o c he
    by_cases hi : i = w.opened
    · exact .opens (he ▸ hi ▸ newStream_openStream w own o c)
    · exact .other (he ▸ openStream_untouched w own o c hi)
  cases e with
  | host e => cases e <;> exact .other (.of_eq rfl rfl rfl rfl rfl rfl rfl)
  | serve j e =>
    by_cases hij : i = j
    · exact .own e (by rw [hij])
    · exact .other (e.untouched hij)
  | remote e =>
    cases e with
    | connect | reattach => exact hopen _ _ _ rfl
    | recvStarted | recvFirstAttached | recvOutput | recvExit | recvStraggler | recvAttached =>
      exact .other (pop_untouched w _ i _ _)
    | _ => exact .other (.of_eq rfl rfl rfl rfl rfl rfl rfl)
  | brk j k l => exact .other (brk_untouched w j i k l)
  | foreignOpen => exact hopen _ _ w.client rfl
  | foreignRecv j => exact .other (pop_untouched w j i w.client w.stdinPump)
  | _ => exact .other (.of_eq rfl rfl rfl rfl rfl rfl rfl)

theorem StreamInv.new (h : NewStream w i) : StreamInv w i := by
  refine ⟨fun _ => h.pump, ?_, ?_, ?_, ?_, ?_, ?_, ?_⟩
  · simp [h.pump]
  · simp [h.pump]
  · simp [h.handler, h.received, h.toClient, HandlerPc.seenEnd, HasExit]
  · simp [h.handler, HandlerPc.asked]
  · simp [h.handler]
  · simp [h.handler]
  · rw [h.received, h.toClient]
    exact .silent (.inr ⟨by rw [h.handler]; rfl, h.pump⟩)

/-- **Every step keeps the invariant of every stream.** -/
theorem StreamInv.step {e : Event} (hr : RingsOk w) (he : e.Enabled w)
    (h : StreamInv w i) : StreamInv (e.fire w) i := by
  cases e.streamStep w i with
  | own f hf =>
    subst hf
    exact h.own hr he
  | other hu => exact h.mono (Event.grows he) hu
  | opens hn => exact .new hn

theorem StreamInv.init (s : Start) (i : ℕ) : StreamInv (.init s) i where
  pumpOff _ _ := rfl
  sending _ _ _ hp := nomatch hp
  finished _ _ hp := nomatch hp
  seenEnd hx := by
    grind [World.init, HandlerPc.seenEnd, HasExit]
  asked o ha := by by_cases hi : i = 0 <;> simp [World.init, hi, HandlerPc.asked] at ha
  replayErr o out hh := by by_cases hi : i = 0 <;> simp [World.init, hi] at hh
  replying r hh := by by_cases hi : i = 0 <;> simp [World.init, hi] at hh
  transcript := by
    refine .silent (.inr ⟨?_, fun _ => rfl⟩)
    by_cases hi : i = 0 <;> simp [World.init, hi, HandlerPc.serving]

def Served (w : World) : Prop := RingsOk w ∧ ∀ i, StreamInv w i

theorem Served.init (s : Start) : Served (.init s) := ⟨.init s, .init s⟩

theorem Served.step {e : Event} (h : Served w) (he : e.Enabled w) : Served (e.fire w) :=
  ⟨h.1.step he, fun i => (h.2 i).step h.1 he⟩

end Graft.Command
