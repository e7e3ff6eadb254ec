import Mathlib.Data.List.Basic

/-!
# Byte streams over messages (`pkg/synchronization.go`, `pkg/connection.go`)

The synchronization protocol and the forwarding of the SSH agent each carry a byte stream in the
messages of a gRPC stream.  Both wrappers read alike: what a message has beyond the caller's buffer
is kept for the next call, and a message without data is passed over.
-/

namespace Graft.StreamWrapper

variable {β ReadT Err : Type*}

/-- The wrapper, with the messages its streamer has still to receive, and the error after them. -/
structure Wrapper (β ReadT Err : Type*) where
  streamer : List ReadT
  failure : Err
  buf : List β
  deriving DecidableEq

/-- `Read` with a buffer of `n` bytes: the bytes it gives, or the error of `Recv`. -/
def streamRead (getData : ReadT → List β) (n : ℕ) : List ReadT → Err → List β →
    Except Err (List β) × Wrapper β ReadT Err
  | streamer, failure, c :: buf => (.ok ((c :: buf).take n), ⟨streamer, failure, (c :: buf).drop n⟩)
  | [], failure, [] => (.error failure, ⟨[], failure, []⟩)
  | resp :: streamer, failure, [] => streamRead getData n streamer failure (getData resp)
termination_by streamer _ buf => (streamer.length, buf.length)

/-- A call with a size. -/
abbrev Reader (β ReadT Err : Type*) :=
  ℕ → Wrapper β ReadT Err → Except Err (List β) × Wrapper β ReadT Err

/-- `mutagenSyncStreamWrapper.Read` -/
def mutagenSyncRead (getData : ReadT → List β) : Reader β ReadT Err := fun n w =>
  streamRead getData n w.streamer w.failure w.buf

/-- `forwardSSHAgentStreamWrapper.Read` -/
def forwardSSHAgentRead (getData : ReadT → List β) : Reader β ReadT Err := fun n w =>
  streamRead getData n w.streamer w.failure w.buf

/-- What the wrapper has still to give. -/
def Wrapper.pending (getData : ReadT → List β) (w : Wrapper β ReadT Err) : List β :=
  w.buf ++ w.streamer.flatMap getData

/-- Successive calls of `read`, each with its size: the results, in order. -/
def reads (read : Reader β ReadT Err) :
    List ℕ → Wrapper β ReadT Err → List (Except Err (List β)) × Wrapper β ReadT Err
  | [], w => ([], w)
  | n :: ns, w =>
    let (res, w') := read n w
    let (ress, w'') := reads read ns w'
    (res :: ress, w'')

/-- The bytes that the results have. -/
def bytes (ress : List (Except Err (List β))) : List β := ress.flatMap (·.toOption.getD [])

/-- A wrapper is a transparent byte stream: whatever it receives and whatever sizes are asked for,
what was read begins what was sent, a call without an error gives a byte, and an error is the one
that ended the messages, with nothing left to read. -/
def Transparent (getData : ReadT → List β)
    (read : Reader β ReadT Err) : Prop :=
  ∀ (messages : List ReadT) (failure : Err) (sizes : List ℕ), (∀ n ∈ sizes, 1 ≤ n) →
    let ress := (reads read sizes ⟨messages, failure, []⟩).1
    bytes ress <+: messages.flatMap getData ∧ (∀ res ∈ ress, res ≠ .ok []) ∧
      ∀ before err after, ress = before ++ .error err :: after →
        err = failure ∧ bytes before = messages.flatMap getData

/-! ### One call -/

variable {getData : ReadT → List β} {n : ℕ} {w : Wrapper β ReadT Err}

/-- What one call can do: it gives the next bytes that are pending, one at least, or there are none
and it gives the error. -/
theorem streamRead_cases (getData : ReadT → List β) (hn : 1 ≤ n) (streamer : List ReadT)
    (failure : Err) (buf : List β) :
    ∃ res w', streamRead getData n streamer failure buf = (res, w') ∧ w'.failure = failure ∧
      ((∃ data, res = .ok data ∧ data ≠ [] ∧
          buf ++ streamer.flatMap getData = data ++ w'.pending getData) ∨
        res = .error failure ∧ buf ++ streamer.flatMap getData = [] ∧ w'.pending getData = []) := by
  fun_induction streamRead getData n streamer failure buf with
  | case1 streamer failure c buf =>
    refine ⟨_, _, rfl, rfl, .inl ⟨_, rfl, ?_, ?_⟩⟩
    · obtain ⟨m, rfl⟩ := Nat.exists_eq_add_of_le' hn
      exact nofun
    · rw [Wrapper.pending, ← List.append_assoc, List.take_append_drop]
  | case2 failure => exact ⟨_, _, rfl, rfl, .inr ⟨rfl, rfl, rfl⟩⟩
  | case3 failure resp streamer ih => exact ih

/-! ### A series of calls -/

/-- **A series of calls**: what was read and what is pending is what was pending before. -/
theorem reads_spec {read : Reader β ReadT Err}
    (hread : ∀ n w, read n w = streamRead getData n w.streamer w.failure w.buf)
    {sizes : List ℕ} (hsizes : ∀ n ∈ sizes, 1 ≤ n) (w : Wrapper β ReadT Err) :
    let (ress, w') := reads read sizes w
    bytes ress ++ w'.pending getData = w.pending getData ∧ (∀ res ∈ ress, res ≠ .ok []) ∧
      ∀ before err after, ress = before ++ .error err :: after →
        err = w.failure ∧ bytes before = w.pending getData := by
  induction sizes generalizing w with
  | nil => exact ⟨rfl, nofun, fun before err after h => by cases before <;> cases h⟩
  | cons n sizes ih =>
    obtain ⟨hn, hrest⟩ := List.forall_mem_cons.1 hsizes
    obtain ⟨res, w', heq, hfailure, hcases⟩ :=
      streamRead_cases getData hn w.streamer w.failure w.buf
    obtain ⟨hbytes, hok, herr⟩ := ih hrest w'
    rw [← hread] at heq
    simp only [reads, heq]
    rw [hfailure] at herr
    rcases hcases with ⟨data, rfl, hdata, hpending⟩ | ⟨rfl, hpending, hpending'⟩
    · have hcons : ∀ ress, bytes (.ok data :: ress : List (Except Err (List β))) = data ++ bytes ress :=
        fun _ => List.flatMap_cons
      refine ⟨?_, ?_, fun before err after h => ?_⟩
      · rw [hcons, List.append_assoc, hbytes]
        exact hpending.symm
      · exact List.forall_mem_cons.2 ⟨fun hx => hdata (Except.ok.inj hx), hok⟩
      · cases before with
        | nil => cases h
        | cons first before =>
          obtain ⟨rfl, htail⟩ := List.cons.inj h
          obtain ⟨rfl, hbefore⟩ := herr before err after htail
          rw [hcons, hbefore]
          exact ⟨rfl, hpending.symm⟩
    · -- nothing was pending, and nothing is afterwards
      have hw : w.pending getData = [] := hpending
      rw [hpending'] at hbytes herr
      refine ⟨hw ▸ hbytes, List.forall_mem_cons.2 ⟨nofun, hok⟩, fun before err after h => ?_⟩
      cases before with
      | nil =>
        cases h
        exact ⟨rfl, hw.symm⟩
      | cons first before =>
        obtain ⟨rfl, htail⟩ := List.cons.inj h
        rw [hw]
        exact herr before err after htail

theorem transparent_of_eq {read : Reader β ReadT Err}
    (hread : ∀ n w, read n w = streamRead getData n w.streamer w.failure w.buf) :
    Transparent getData read := by
  intro messages failure sizes hsizes
  obtain ⟨hbytes, hok, herr⟩ := reads_spec hread hsizes ⟨messages, failure, []⟩
  exact ⟨⟨_, hbytes⟩, hok, herr⟩

/-- **Both wrappers are transparent byte streams**, for messages of any type. -/
theorem wrappers_transparent (getData : ReadT → List β) :
    Transparent getData (mutagenSyncRead getData : Reader β ReadT Err) ∧
      Transparent getData (forwardSSHAgentRead getData : Reader β ReadT Err) :=
  ⟨transparent_of_eq fun _ _ => rfl, transparent_of_eq fun _ _ => rfl⟩

end Graft.StreamWrapper
