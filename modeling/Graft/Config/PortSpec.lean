import Mathlib.Tactic

/-!
# Port specs (`pkg/port_spec.go`)

Explicit port forwards are configured as strings, `[local:]remote[/protocol]`.
-/

namespace Graft.Config

structure PortForwardSpec where
  remotePort : ℕ
  localPort : ℕ
  protocol : String
  deriving DecidableEq

namespace PortForwardSpec

/-- The protocol, by default `tcp`. -/
def effectiveProtocol (s : PortForwardSpec) : String := if s.protocol = "" then "tcp" else s.protocol

def effectiveLocalPort (s : PortForwardSpec) : ℕ :=
  if s.localPort = 0 then s.remotePort else s.localPort

def portPart (s : PortForwardSpec) : List Char :=
  if s.localPort ≠ s.remotePort then
    Nat.toDigits 10 s.localPort ++ ':' :: Nat.toDigits 10 s.remotePort
  else Nat.toDigits 10 s.remotePort

def protocolPart (s : PortForwardSpec) : List Char :=
  if s.protocol ≠ "tcp" then '/' :: s.protocol.toList else []

/-- `PortForwardSpec.String`. -/
def string (s : PortForwardSpec) : String := String.ofList (s.portPart ++ s.protocolPart)

end PortForwardSpec

def portForwardKey (protocol : String) (port : ℕ) : String :=
  protocol ++ ":" ++ String.ofList (Nat.toDigits 10 port)

def PortForwardSpec.key (s : PortForwardSpec) : String :=
  portForwardKey s.effectiveProtocol s.remotePort

/-- `\d+`. -/
def isDigits (l : List Char) : Bool := !l.isEmpty && l.all Char.isDigit

/-- The parts before and from the first `c` on. -/
def cut (c : Char) (l : List Char) : List Char × List Char :=
  (l.takeWhile (· ≠ c), l.dropWhile (· ≠ c))

/-- `\d+(:\d+)?`. -/
def isPorts (l : List Char) : Bool :=
  isDigits (cut ':' l).1 && ((cut ':' l).2.isEmpty || isDigits (cut ':' l).2.tail)

def isPortSpec (l : List Char) : Bool :=
  isPorts (cut '/' l).1 &&
    ((cut '/' l).2.isEmpty || (cut '/' l).2 = "/tcp".toList || (cut '/' l).2 = "/udp".toList)

def parsePort (l : List Char) : Option ℕ :=
  if 0 < Nat.ofDigitChars 10 l 0 ∧ Nat.ofDigitChars 10 l 0 ≤ 65535 then
    some (Nat.ofDigitChars 10 l 0)
  else none

def parsePortSpec (text : String) : Option PortForwardSpec :=
  if isPortSpec text.toList then
    let protocol :=
      if (cut '/' text.toList).2.isEmpty then "tcp" else String.ofList (cut '/' text.toList).2.tail
    let portPart := (cut '/' text.toList).1
    if (cut ':' portPart).2.isEmpty then
      (parsePort portPart).map fun port => ⟨port, port, protocol⟩
    else
      (parsePort (cut ':' portPart).1).bind fun localPort =>
        (parsePort (cut ':' portPart).2.tail).map fun port => ⟨port, localPort, protocol⟩
  else none

/-! ### Reading what was written -/

theorem cut_append {c : Char} {l r : List Char} (hl : c ∉ l) (hr : ∀ d ∈ r.head?, d = c) :
    cut c (l ++ r) = (l, r) := by
  have hl' : ∀ d ∈ l, decide (d ≠ c) = true := fun d hd => by
    simp only [ne_eq, decide_not, Bool.not_eq_eq_eq_not, Bool.not_true, decide_eq_false_iff_not]
    rintro rfl
    exact hl hd
  unfold cut
  rw [List.takeWhile_append_of_pos hl', List.dropWhile_append_of_pos hl']
  cases r with
  | nil => simp
  | cons d r =>
    have hd : d = c := hr d rfl
    simp [hd]

theorem not_mem_toDigits {c : Char} (hc : c.isDigit = false) (n : ℕ) : c ∉ Nat.toDigits 10 n := by
  intro h
  rw [Nat.isDigit_of_mem_toDigits (by norm_num) le_rfl h] at hc
  cases hc

theorem toDigits_injective {n m : ℕ} (h : Nat.toDigits 10 n = Nat.toDigits 10 m) : n = m := by
  have hn := Nat.ofDigitChars_toDigits (b := 10) (n := n) (by norm_num) le_rfl
  rw [h, Nat.ofDigitChars_toDigits (by norm_num) le_rfl] at hn
  exact hn.symm

namespace PortForwardSpec

variable {s s' : PortForwardSpec}

theorem cut_portPart (s : PortForwardSpec) :
    cut ':' s.portPart = if s.localPort ≠ s.remotePort then
      (Nat.toDigits 10 s.localPort, ':' :: Nat.toDigits 10 s.remotePort)
      else (Nat.toDigits 10 s.remotePort, []) := by
  unfold portPart
  split_ifs
  · exact cut_append (not_mem_toDigits rfl _) (by simp)
  · simpa using cut_append (c := ':') (not_mem_toDigits rfl s.remotePort) (r := []) (by simp)

theorem cut_string (s : PortForwardSpec) :
    cut '/' s.string.toList = (s.portPart, s.protocolPart) := by
  have hnot : '/' ∉ s.portPart := by
    unfold portPart
    split_ifs
    · simp [not_mem_toDigits (c := '/') rfl]
    · exact not_mem_toDigits rfl _
  rw [string, String.toList_ofList]
  refine cut_append hnot ?_
  unfold protocolPart
  split_ifs <;> simp

theorem string_injective (h : s.string = s'.string) : s = s' := by
  have hcut := cut_string s
  rw [h, cut_string s', Prod.mk.injEq] at hcut
  obtain ⟨hports, hprotocol⟩ := hcut
  have hp : s.protocol = s'.protocol := by
    unfold protocolPart at hprotocol
    split_ifs at hprotocol with h1 h2 h2
    · exact (String.toList_inj.1 (List.cons.inj hprotocol).2).symm
    · rw [not_not.1 h1, not_not.1 h2]
  have hcut := cut_portPart s
  rw [← hports, cut_portPart s'] at hcut
  obtain ⟨r, l, p⟩ := s
  obtain ⟨r', l', p'⟩ := s'
  dsimp only at hp hcut
  split_ifs at hcut with h1 h2 h2
  · obtain ⟨hl, hr⟩ := Prod.mk.inj hcut
    rw [hp, toDigits_injective hl, toDigits_injective (List.cons.inj hr).2]
  · cases (Prod.mk.inj hcut).2
  · cases (Prod.mk.inj hcut).2
  · have hr := toDigits_injective (Prod.mk.inj hcut).1
    rw [hp, not_not.1 h1, not_not.1 h2, hr]

theorem parsePort_toDigits {n m : ℕ} (h : parsePort (Nat.toDigits 10 n) = some m) : m = n := by
  rw [parsePort, Nat.ofDigitChars_toDigits (by norm_num) le_rfl] at h
  split_ifs at h
  exact (Option.some.inj h).symm

theorem read_protocolPart (s : PortForwardSpec) :
    (if s.protocolPart.isEmpty then "tcp" else String.ofList s.protocolPart.tail) =
      s.protocol := by
  unfold protocolPart
  split_ifs with h1 h2 h2
  · cases h2
  · exact String.ofList_toList
  · exact (not_not.1 h1).symm
  · exact absurd rfl h2

/-- **A spec that was written is read back**, if it can be read. -/
theorem parsePortSpec_string (h : parsePortSpec s.string = some s') : s' = s := by
  have hspec : isPortSpec s.string.toList = true := by
    by_contra hx
    rw [parsePortSpec, if_neg hx] at h
    cases h
  rw [parsePortSpec, if_pos hspec] at h
  simp only [cut_string, cut_portPart, read_protocolPart] at h
  by_cases hports : s.localPort = s.remotePort
  · simp only [hports, ne_eq, not_true_eq_false, ↓reduceIte, List.isEmpty_nil,
      Option.map_eq_some_iff] at h
    obtain ⟨port, hport, rfl⟩ := h
    rw [portPart, if_neg (not_not.2 hports)] at hport
    rw [parsePort_toDigits hport]
    obtain ⟨r, l, p⟩ := s
    cases hports
    rfl
  · simp only [ne_eq, hports, not_false_eq_true, ↓reduceIte, List.isEmpty_cons, Bool.false_eq_true,
      List.tail_cons, Option.bind_eq_some_iff, Option.map_eq_some_iff] at h
    obtain ⟨l, hl, port, hport, rfl⟩ := h
    rw [parsePort_toDigits hl, parsePort_toDigits hport]

/-! ### What can be read -/

/-- The protocol and the ports are such that the text can be read. -/
def Readable (s : PortForwardSpec) : Prop :=
  (s.protocol = "tcp" ∨ s.protocol = "udp") ∧ (1 ≤ s.remotePort ∧ s.remotePort ≤ 65535) ∧
    (1 ≤ s.localPort ∧ s.localPort ≤ 65535)

theorem parsePort_range {l : List Char} {n : ℕ} (h : parsePort l = some n) : 1 ≤ n ∧ n ≤ 65535 := by
  unfold parsePort at h
  split_ifs at h with hrange
  cases h
  exact hrange

theorem readable_of_parsePortSpec {text : String} (h : parsePortSpec text = some s) :
    s.Readable := by
  have hspec : isPortSpec text.toList = true := by
    by_contra hx
    rw [parsePortSpec, if_neg hx] at h
    cases h
  rw [parsePortSpec, if_pos hspec] at h
  dsimp only at h
  generalize hprotocol : (if (cut '/' text.toList).2.isEmpty then "tcp"
    else String.ofList (cut '/' text.toList).2.tail) = protocol at h
  have hknown : protocol = "tcp" ∨ protocol = "udp" := by
    unfold isPortSpec at hspec
    simp only [Bool.and_eq_true, Bool.or_eq_true, decide_eq_true_eq] at hspec
    rcases hspec.2 with (hx | hx) | hx
    · rw [if_pos hx] at hprotocol
      exact .inl hprotocol.symm
    · rw [hx] at hprotocol
      exact .inl (hprotocol.symm.trans (by decide +kernel))
    · rw [hx] at hprotocol
      exact .inr (hprotocol.symm.trans (by decide +kernel))
  split_ifs at h
  · obtain ⟨port, hport, rfl⟩ := Option.map_eq_some_iff.1 h
    exact ⟨hknown, parsePort_range hport, parsePort_range hport⟩
  · obtain ⟨localPort, hlocal, h⟩ := Option.bind_eq_some_iff.1 h
    obtain ⟨port, hport, rfl⟩ := Option.map_eq_some_iff.1 h
    exact ⟨hknown, parsePort_range hport, parsePort_range hlocal⟩

theorem isDigits_toDigits (n : ℕ) : isDigits (Nat.toDigits 10 n) = true := by
  have hne : Nat.toDigits 10 n ≠ [] := Nat.toDigits_ne_nil
  simp only [isDigits, Bool.and_eq_true, Bool.not_eq_true', List.isEmpty_eq_false_iff,
    List.all_eq_true]
  exact ⟨hne, fun c hc => Nat.isDigit_of_mem_toDigits (by norm_num) le_rfl hc⟩

theorem parsePortSpec_string_iff : parsePortSpec s.string = some s ↔ s.Readable := by
  refine ⟨readable_of_parsePortSpec, fun ⟨hprotocol, hremote, hlocal⟩ => ?_⟩
  have hports : isPorts s.portPart = true := by
    unfold isPorts
    rw [cut_portPart]
    split_ifs
    · simp [isDigits_toDigits]
    · simp [isDigits_toDigits]
  have hread : ∀ {n}, 1 ≤ n ∧ n ≤ 65535 → parsePort (Nat.toDigits 10 n) = some n := by
    intro n hn
    rw [parsePort, Nat.ofDigitChars_toDigits (by norm_num) le_rfl]
    exact if_pos hn
  have hspec : isPortSpec s.string.toList = true := by
    unfold isPortSpec
    rw [cut_string, hports]
    rcases hprotocol with hp | hp
    · simp [protocolPart, hp]
    · simp [protocolPart, hp]
  rw [parsePortSpec, if_pos hspec]
  simp only [cut_string, cut_portPart, read_protocolPart]
  obtain ⟨r, l, p⟩ := s
  by_cases heq : l = r
  · subst heq
    simp [portPart, hread hlocal]
  · simp [heq, hread hlocal, hread hremote]

end PortForwardSpec

end Graft.Config
