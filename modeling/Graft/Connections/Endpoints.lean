import Graft.Library.Separator
import Graft.Connections.Transfers

/-!
# What `daemonKey` tells apart

The key of a daemon is a text: the user, the host, a port other than the default one and the
identity, with `@`, `:` and `::` between them.  The parts may have these letters in them, and a
container has no id before it was created.
-/

namespace Graft.Connections

variable {a b : Destination} {port : Port}

namespace Endpoints

/-! ### Destinations -/

/-- A host name or an address, without the brackets of a URL: what follows the last `@`. -/
structure Host where
  text : String
  not_mem : '@' ∉ text.toList

/-- A port, as it is written; empty if there is none. -/
structure Port where
  text : String
  digits : ∀ c ∈ text.toList, c.isDigit = true

/-- The id that Docker gives to a container; empty before that. -/
structure ContainerId where
  text : String
  not_mem : '@' ∉ text.toList ∧ ':' ∉ text.toList

inductive Destination
  /-- `InitializeSSHConnection`; the user is empty if there is none -/
  | ssh (user : String) (host : Host) (port : Port)
  /-- `InitializeContainerConnection` and the connectors of containers -/
  | container (id : ContainerId) (containerName imageTag : String)

namespace Port

def number (p : Port) : ℕ :=
  if p.text = "" then 22 else p.text.toList.foldl (fun n c => 10 * n + (c.toNat - '0'.toNat)) 0

def inKey (p : Port) : String := if p.text = "22" then "" else p.text

theorem number_eq {p q : Port} (h : p.inKey = q.inKey) : p.number = q.number := by
  have hnumber : ∀ p : Port, p.number = if p.inKey = "" then 22 else
      p.inKey.toList.foldl (fun n c => 10 * n + (c.toNat - '0'.toNat)) 0 := by
    intro p
    unfold number inKey
    by_cases h22 : p.text = "22"
    · simp_all
    · rw [if_neg h22]
  rw [hnumber p, hnumber q, h]

theorem colon_not_mem (p : Port) : ':' ∉ p.inKey.toList := by
  intro hmem
  unfold inKey at hmem
  split_ifs at hmem
  · cases hmem
  · cases p.digits ':' hmem

theorem at_not_mem (p : Port) : '@' ∉ p.inKey.toList := by
  intro hmem
  unfold inKey at hmem
  split_ifs at hmem
  · cases hmem
  · cases p.digits '@' hmem

end Port

/-- `newDockerConnector`: without a name, a container is named after its image. -/
def containerName (name imageTag : String) : String := if name = "" then imageTag else name

namespace Destination

def hostPort (host : Host) (port : Port) : String :=
  if port.inKey = "" then host.text else host.text ++ ":" ++ port.inKey

def text : Destination → String
  | ssh user host port =>
    if user = "" then hostPort host port else user ++ "@" ++ hostPort host port
  | container id _ _ => id.text

/-- The URL; `encode` is the encoding of the query of a container. -/
def url (encode : String → String → String) : Destination → Url
  | ssh user host port => ⟨"ssh", user, host.text, port.text, ""⟩
  | container id name imageTag => ⟨"docker", "", id.text, "", encode name imageTag⟩

theorem daemonKey_url (encode : String → String → String) (a : Destination) (i : String) :
    daemonKey (a.url encode) i = a.text ++ "::" ++ i := by
  cases a with
  | ssh user host port => rfl
  | container id name imageTag => rfl

end Destination

open Destination Separator

/-- Two destinations are the same endpoint: the same user, host and port number, or the same
container, which has its name until it gets an id. -/
def Agree : Destination → Destination → Prop
  | .ssh user host port, .ssh user' host' port' =>
    user = user' ∧ host.text = host'.text ∧ port.number = port'.number
  | .container id name tag, .container id' name' tag' =>
    id.text = id'.text ∧ (id.text = "" → containerName name tag = containerName name' tag')
  | _, _ => False

/-- One endpoint, with its port written in two ways. -/
def Respelled : Destination → Destination → Prop
  | .ssh user host port, .ssh user' host' port' =>
    user = user' ∧ host.text = host'.text ∧ port.number = port'.number ∧ port.inKey ≠ port'.inKey
  | _, _ => False

/-- Lookups of different endpoints that get the same key. -/
inductive Confusable : Destination → String → Destination → String → Prop
  /-- two containers that were not created yet -/
  | uncreated {id id' : ContainerId} {name name' tag tag' i : String} (hid : id.text = "")
      (hid' : id'.text = "") (hname : containerName name tag ≠ containerName name' tag') :
      Confusable (.container id name tag) i (.container id' name' tag') i
  /-- a host is named like the id of a container -/
  | scheme {host : Host} {port : Port} {id : ContainerId} {name tag i : String}
      (hport : port.inKey = "") (hhost : host.text = id.text) :
      Confusable (.ssh "" host port) i (.container id name tag) i
  /-- the address of a host ends like that of another one with its port -/
  | port {user : String} {host host' : Host} {port port' : Port} {i : String}
      (hport : port.inKey ≠ "") (hport' : port'.inKey = "")
      (hhost : host'.text = host.text ++ ":" ++ port.inKey) :
      Confusable (.ssh user host port) i (.ssh user host' port') i
  /-- the identity begins like the end of the other destination -/
  | identity {a b : Destination} {i j : String}
      (h : Shifted ':' a.text.toList i.toList b.text.toList j.toList) : Confusable a i b j
  | symm {a b : Destination} {i j : String} (h : Confusable a i b j) : Confusable b j a i

/-! ### Equal texts -/

theorem hostPort_toList (host : Host) (h : port.inKey ≠ "") :
    (hostPort host port).toList = host.text.toList ++ ':' :: port.inKey.toList := by
  rw [hostPort, if_neg h]
  simp

theorem at_not_mem_hostPort (host : Host) (port : Port) : '@' ∉ (hostPort host port).toList := by
  intro hmem
  by_cases h : port.inKey = ""
  · simp_all [Host.not_mem, hostPort]
  · simp_all [hostPort_toList, Host.not_mem, Port.at_not_mem]

theorem text_ssh_eq_iff {user user' : String} {host host' : Host} {port port' : Port} :
    (Destination.ssh user host port).text = (Destination.ssh user' host' port').text ↔
      user = user' ∧ hostPort host port = hostPort host' port' := by
  have hat := at_not_mem_hostPort host port
  have hat' := at_not_mem_hostPort host' port'
  by_cases hu : user = "" <;> by_cases hu' : user' = ""
  · simp [text, hu, hu']
  · refine iff_of_false (fun h => hat ?_) fun h => hu' (h.1 ▸ hu)
    rw [text, text, if_pos hu, if_neg hu'] at h
    rw [h]
    simp
  · refine iff_of_false (fun h => hat' ?_) fun h => hu (h.1.trans hu')
    rw [text, text, if_neg hu, if_pos hu'] at h
    rw [← h]
    simp
  · rw [text, text, if_neg hu, if_neg hu', ← String.toList_inj, ← @String.toList_inj user,
      ← @String.toList_inj (hostPort host port), ← append_cons_inj_of_last hat hat']
    simp

theorem hostPort_eq {host host' : Host} {port port' : Port}
    (h : hostPort host port = hostPort host' port') :
    (host.text = host'.text ∧ port.inKey = port'.inKey) ∨
      (port.inKey ≠ "" ∧ port'.inKey = "" ∧ host'.text = host.text ++ ":" ++ port.inKey) ∨
      (port'.inKey ≠ "" ∧ port.inKey = "" ∧ host.text = host'.text ++ ":" ++ port'.inKey) := by
  by_cases hp : port.inKey = "" <;> by_cases hp' : port'.inKey = ""
  · simp_all [hostPort]
  · simp_all [hostPort]
  · simp_all [hostPort]
  · grind [String.toList_inj, append_cons_inj_of_last, Port.colon_not_mem, hostPort_toList]

theorem text_ssh_eq_id {user : String} {host : Host} {id : ContainerId}
    (h : (Destination.ssh user host port).text = id.text) :
    user = "" ∧ port.inKey = "" ∧ host.text = id.text := by
  have hu : user = "" := by
    by_contra hu
    rw [text, if_neg hu] at h
    refine id.not_mem.1 ?_
    rw [← h]
    simp
  rw [text, if_pos hu] at h
  have hp : port.inKey = "" := by
    grind [ContainerId.not_mem, hostPort_toList]
  rw [hostPort, if_pos hp] at h
  exact ⟨hu, hp, h⟩

/-! ### Equal keys -/

theorem Agree.symm (h : Agree a b) : Agree b a := by
  cases a <;> cases b
  · exact ⟨h.1.symm, h.2.1.symm, h.2.2.symm⟩
  · exact h
  · exact h
  grind [Agree]

/-- Keys are equal if their parts are, or if the separators are at different places. -/
theorem key_eq_iff {i j : String} : a.text ++ "::" ++ i = b.text ++ "::" ++ j ↔
      (a.text = b.text ∧ i = j) ∨ Shifted ':' a.text.toList i.toList b.text.toList j.toList ∨
        Shifted ':' b.text.toList j.toList a.text.toList i.toList := by
  rw [← String.toList_inj, ← @String.toList_inj a.text, ← @String.toList_inj i,
    ← append_double_eq_iff]
  simp

/-- With the same text, destinations agree or one of the parts was taken for another one. -/
theorem agree_or_confusable (i : String) (h : a.text = b.text) :
    Agree a b ∨ Confusable a i b i := by
  cases a with
  | ssh user host port =>
    cases b with
    | ssh user' host' port' =>
      obtain ⟨rfl, hhp⟩ := text_ssh_eq_iff.1 h
      obtain ⟨hhost, hport⟩ | ⟨hp, hp', hhost⟩ | ⟨hp', hp, hhost⟩ := hostPort_eq hhp
      · exact .inl ⟨rfl, hhost, Port.number_eq hport⟩
      · exact .inr (.port hp hp' hhost)
      · exact .inr (.symm (.port hp' hp hhost))
    | container id name tag =>
      obtain ⟨rfl, hp, hhost⟩ := text_ssh_eq_id h
      exact .inr (.scheme hp hhost)
  | container id name tag =>
    cases b with
    | ssh user' host' port' =>
      obtain ⟨rfl, hp, hhost⟩ := text_ssh_eq_id h.symm
      exact .inr (.symm (.scheme hp hhost))
    | container id' name' tag' =>
      have hid : id.text = id'.text := h
      by_cases hname : containerName name tag = containerName name' tag'
      · exact .inl ⟨hid, fun _ => hname⟩
      · by_cases hempty : id.text = ""
        · exact .inr (.uncreated hempty (hid.symm.trans hempty) hname)
        grind [Agree]

theorem Shifted.ne {i j : String}
    (h : Shifted ':' a.text.toList i.toList b.text.toList j.toList) : i ≠ j := by
  rintro rfl
  obtain ⟨y, hz, -⟩ | ⟨hz, -⟩ := h
  all_goals
    have hlength := congrArg List.length hz
    simp at hlength
  omega

theorem Confusable.collides {i j : String} (h : Confusable a i b j) :
    a.text ++ "::" ++ i = b.text ++ "::" ++ j ∧ ¬ (Agree a b ∧ i = j) := by
  induction h with
  | uncreated hid hid' hname =>
    exact ⟨by simp only [text, hid, hid'], fun h => hname (h.1.2 hid)⟩
  | scheme hport hhost =>
    exact ⟨by simp only [text, hostPort, hport, hhost, if_true], fun h => h.1⟩
  | @port user host host' port port' i hport hport' hhost =>
    refine ⟨?_, fun h => ?_⟩
    · have htext : (Destination.ssh user host port).text =
          (Destination.ssh user host' port').text := by
        rw [text_ssh_eq_iff]
        refine ⟨rfl, ?_⟩
        rw [hostPort, hostPort, if_neg hport, if_pos hport', hhost]
      rw [htext]
    · -- the address is longer than the other one
      have hlength := congrArg (List.length ∘ String.toList) (hhost.symm.trans h.1.2.1.symm)
      simp at hlength
  | identity h => exact ⟨key_eq_iff.2 (.inr (.inl h)), fun ⟨_, hij⟩ => Shifted.ne h hij⟩
  | symm _ ih => exact ⟨ih.1.symm, fun ⟨hagree, hij⟩ => ih.2 ⟨hagree.symm, hij.symm⟩⟩

/-- The same endpoint has one text, unless its port is written in two ways. -/
theorem Agree.text_eq (h : Agree a b) : a.text = b.text ∨ Respelled a b := by
  cases a with
  | ssh user host port =>
    cases b with
    | ssh user' host' port' =>
      obtain ⟨rfl, hhost, hport⟩ := h
      by_cases hp : port.inKey = port'.inKey
      · refine .inl (text_ssh_eq_iff.2 ⟨rfl, ?_⟩)
        rw [hostPort, hostPort, hhost, hp]
      · exact .inr ⟨rfl, hhost, hport, hp⟩
    | container id name tag => exact h.elim
  | container id name tag =>
    cases b with
    | ssh user' host' port' => exact h.elim
    | container id' name' tag' => exact .inl h.1

theorem Respelled.agree (h : Respelled a b) : Agree a b ∧ a.text ≠ b.text := by
  cases a with
  | ssh user host port =>
    cases b with
    | ssh user' host' port' =>
      obtain ⟨rfl, hhost, hport, hp⟩ := h
      refine ⟨⟨rfl, hhost, hport⟩, fun htext => ?_⟩
      obtain ⟨-, hp'⟩ | ⟨-, -, hh⟩ | ⟨-, -, hh⟩ := hostPort_eq (text_ssh_eq_iff.1 htext).2
      · exact hp hp'
      all_goals
        rw [hhost] at hh
        have hlength := congrArg (List.length ∘ String.toList) hh
        simp at hlength
    | container id name tag => exact h.elim
  | container id name tag => cases b <;> exact h.elim

/-- **What a key identifies**: two lookups get the same key exactly if they are of the same endpoint
with the same identity, unless they are confusable, or the port is written in two ways. -/
theorem daemonKey_identifies_iff (encode : String → String → String) (a b : Destination)
    (i j : String) :
    ((daemonKey (a.url encode) i = daemonKey (b.url encode) j) ↔ (Agree a b ∧ i = j)) ↔
      ¬ Confusable a i b j ∧ ¬ (Respelled a b ∧ i = j) := by
  rw [daemonKey_url, daemonKey_url]
  have hsplit : a.text ++ "::" ++ i = b.text ++ "::" ++ j →
      (Agree a b ∧ i = j) ∨ Confusable a i b j := by
    intro hkey
    obtain ⟨htext, rfl⟩ | hshift | hshift := key_eq_iff.1 hkey
    · exact (agree_or_confusable i htext).imp_left fun hagree => ⟨hagree, rfl⟩
    · exact .inr (.identity hshift)
    · exact .inr (.symm (.identity hshift))
  have hjoin : (Agree a b ∧ i = j) →
      a.text ++ "::" ++ i = b.text ++ "::" ++ j ∨ (Respelled a b ∧ i = j) := by
    rintro ⟨hagree, rfl⟩
    exact hagree.text_eq.imp (fun htext => by rw [htext]) fun hre => ⟨hre, rfl⟩
  have hrespelled : (Respelled a b ∧ i = j) →
      (Agree a b ∧ i = j) ∧ a.text ++ "::" ++ i ≠ b.text ++ "::" ++ j := by
    rintro ⟨hre, rfl⟩
    refine ⟨⟨hre.agree.1, rfl⟩, fun hkey => ?_⟩
    obtain ⟨htext, -⟩ | hshift | hshift := key_eq_iff.1 hkey
    · exact hre.agree.2 htext
    · exact Shifted.ne hshift rfl
    · exact Shifted.ne hshift rfl
  constructor
  · intro h
    refine ⟨fun hc => ?_, fun hr => ?_⟩
    · exact hc.collides.2 (h.1 hc.collides.1)
    · exact (hrespelled hr).2 (h.2 (hrespelled hr).1)
  · rintro ⟨hc, hr⟩
    refine ⟨fun hkey => ?_, fun hagree => ?_⟩
    · exact (hsplit hkey).resolve_right hc
    · exact (hjoin hagree).resolve_right hr

/-- Port 2222 of the host `::1`, and the host `::1:2222`. -/
def loopback : Destination × Destination :=
  (.ssh "me" ⟨"::1", by decide⟩ ⟨"2222", by simp⟩,
    .ssh "me" ⟨"::1:2222", by decide⟩ ⟨"", by simp⟩)

def uncreated : Destination × Destination :=
  (.container ⟨"", by decide⟩ "web" "debian", .container ⟨"", by decide⟩ "db" "postgres")

/-- The two hosts have one key, and so have the two containers. -/
theorem endpoints_share_key :
    (¬ Agree loopback.1 loopback.2 ∧ ∀ encode i,
      daemonKey (loopback.1.url encode) i = daemonKey (loopback.2.url encode) i) ∧
    (¬ Agree uncreated.1 uncreated.2 ∧ ∀ encode i,
      daemonKey (uncreated.1.url encode) i = daemonKey (uncreated.2.url encode) i) := by
  refine ⟨⟨fun h => absurd h.2.1 (by decide), fun encode i => ?_⟩,
    ⟨fun h => absurd (h.2 rfl) (by decide), fun encode i => rfl⟩⟩
  have htext : loopback.1.text = loopback.2.text := by decide
  rw [daemonKey_url, daemonKey_url, htext]

end Endpoints

end Graft.Connections
