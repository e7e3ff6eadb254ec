import Graft.Daemon.PidFile
import Mathlib.Logic.Relation
import Mathlib.Data.Finset.Card

/-!
# The ports of a process and its descendants (`pkg/port_scan_linux.go`)

The remote daemon reads the parents of all processes from `/proc`, follows the links to children
from its own process, collects the sockets that these processes have open, and reports the ports on
which one of them listens.  It compares each scan with the one before.

* `mem_getDescendants`: the search ends, with the processes that can be reached;
* `scan_stable`: the ports do not depend on the order in which directories are listed and maps are
  iterated.
-/

namespace Graft.Scan

open PidFile (atoi parseUint)
open Sync (fields)

/-! ### Descendants -/

/-- A directory of `/proc`, with its `stat` if that can be read. -/
structure ProcEntry where
  name : String
  stat : Option String

/-- The process and its parent: `stat` has the command in parentheses, the state and the parent. -/
def ProcEntry.link (e : ProcEntry) : Option (ℤ × ℤ) := do
  let pid ← atoi e.name
  let stat ← e.stat
  if ')' ∉ stat.toList then none
  let ppid ← (fields (stat.toList.reverse.takeWhile (· ≠ ')')).reverse)[1]?
  return (pid, ← atoi (String.ofList ppid))

/-- The map from parents to children. -/
def children (links : List (ℤ × ℤ)) (cur : ℤ) : List ℤ :=
  (links.filter (·.2 = cur)).map (·.1)

/-- A child that is new is noted, and comes into the queue. -/
def visit (st : Finset ℤ × List ℤ) (child : ℤ) : Finset ℤ × List ℤ :=
  if child ∈ st.1 then st else (insert child st.1, st.2 ++ [child])

/-- The processes that are not yet noted. -/
def unseen (links : List (ℤ × ℤ)) (pids : Finset ℤ) : Finset ℤ :=
  (links.map (·.1)).toFinset \ pids

/-- What the visit of some children does: they are noted, the new ones come into the queue, and each
of these is one less that is not noted. -/
theorem foldl_visit {links : List (ℤ × ℤ)} {cs : List ℤ} (hcs : ∀ c ∈ cs, c ∈ links.map (·.1))
    (st : Finset ℤ × List ℤ) :
    (cs.foldl visit st).1 = st.1 ∪ cs.toFinset ∧
      (∀ p, p ∈ (cs.foldl visit st).2 ↔ p ∈ st.2 ∨ p ∈ cs ∧ p ∉ st.1) ∧
      (unseen links (cs.foldl visit st).1).card + (cs.foldl visit st).2.length =
        (unseen links st.1).card + st.2.length := by
  induction cs generalizing st with
  | nil => simp
  | cons c cs ih =>
    obtain ⟨hc, hrest⟩ := List.forall_mem_cons.1 hcs
    obtain ⟨hpids, hqueue, hcard⟩ := ih hrest (visit st c)
    rw [List.foldl_cons, hcard, hpids]
    by_cases hmem : c ∈ st.1
    · have hvisit : visit st c = st := if_pos hmem
      rw [hvisit] at hqueue ⊢
      refine ⟨?_, fun p => ?_, rfl⟩
      · ext p
        simp only [Finset.mem_union, List.mem_toFinset, List.mem_cons]
        grind
      · rw [hqueue]
        grind
    · have hvisit : visit st c = (insert c st.1, st.2 ++ [c]) := if_neg hmem
      rw [hvisit] at hqueue ⊢
      refine ⟨?_, fun p => ?_, ?_⟩
      · ext p
        simp only [Finset.mem_union, Finset.mem_insert, List.mem_toFinset, List.mem_cons]
        tauto
      · rw [hqueue]
        simp only [List.mem_append, Finset.mem_insert, List.mem_cons]
        grind
      · -- `c` is in the queue instead
        have hunseen : unseen links (insert c st.1) = (unseen links st.1).erase c := by
          rw [unseen, unseen, Finset.sdiff_insert]
        have hin : c ∈ unseen links st.1 := Finset.mem_sdiff.2 ⟨List.mem_toFinset.2 hc, hmem⟩
        have hpos := Finset.card_pos.2 ⟨c, hin⟩
        rw [hunseen, Finset.card_erase_of_mem hin, List.length_append, List.length_singleton]
        omega

theorem children_subset (links : List (ℤ × ℤ)) (cur : ℤ) :
    ∀ c ∈ children links cur, c ∈ links.map (·.1) := by
  intro c hc
  obtain ⟨l, hl, rfl⟩ := List.mem_map.1 hc
  exact List.mem_map_of_mem (List.mem_filter.1 hl).1

theorem mem_children {links : List (ℤ × ℤ)} {cur c : ℤ} :
    c ∈ children links cur ↔ (c, cur) ∈ links := by
  simp [children]

/-- The search through the queue. -/
def bfs (links : List (ℤ × ℤ)) (pids : Finset ℤ) : List ℤ → Finset ℤ
  | [] => pids
  | cur :: queue =>
    let st := (children links cur).foldl visit (pids, queue)
    bfs links st.1 st.2
termination_by queue => (unseen links pids).card + queue.length
decreasing_by
  rw [(foldl_visit (children_subset links cur) (pids, queue)).2.2, List.length_cons]
  exact Nat.lt_succ_self _

/-- `getDescendants`, for the entries of `/proc` in the order in which they are listed. -/
def getDescendants (entries : List ProcEntry) (parentPID : ℤ) : Finset ℤ :=
  bfs (entries.filterMap ProcEntry.link) {parentPID} [parentPID]

/-- One process is a child of the other. -/
def Child (links : List (ℤ × ℤ)) (p c : ℤ) : Prop := (c, p) ∈ links

/-- The invariant of the search: what is noted can be reached from the root, and its children are
noted too, unless it is in the queue. -/
structure Searched (links : List (ℤ × ℤ)) (root : ℤ) (pids : Finset ℤ) (queue : List ℤ) :
    Prop where
  noted : root ∈ pids
  reached : ∀ p ∈ pids, Relation.ReflTransGen (Child links) root p
  queued : ∀ p ∈ queue, p ∈ pids
  closed : ∀ p ∈ pids, p ∉ queue → ∀ c, Child links p c → c ∈ pids

theorem Searched.step {links : List (ℤ × ℤ)} {root cur : ℤ} {pids : Finset ℤ} {queue : List ℤ}
    (h : Searched links root pids (cur :: queue)) :
    Searched links root ((children links cur).foldl visit (pids, queue)).1
      ((children links cur).foldl visit (pids, queue)).2 := by
  obtain ⟨hpids, hqueue, -⟩ := foldl_visit (children_subset links cur) (pids, queue)
  have hmem : ∀ p, p ∈ ((children links cur).foldl visit (pids, queue)).1 ↔
      p ∈ pids ∨ Child links cur p := by
    intro p
    rw [hpids, Finset.mem_union, List.mem_toFinset, mem_children, Child]
  have hcur := h.queued cur List.mem_cons_self
  refine ⟨(hmem _).2 (.inl h.noted), fun p hp => ?_, fun p hp => ?_, fun p hp hq c hc => ?_⟩
  · rcases (hmem p).1 hp with hp | hp
    · exact h.reached p hp
    · exact (h.reached cur hcur).tail hp
  · rcases (hqueue p).1 hp with hp | ⟨hp, -⟩
    · exact (hmem p).2 (.inl (h.queued p (List.mem_cons_of_mem cur hp)))
    · exact (hmem p).2 (.inr (mem_children.1 hp))
  · rw [hmem]
    by_cases hpcur : p = cur
    · exact .inr (hpcur ▸ hc)
    · -- `p` was noted before, or else it would be in the queue
      rw [hqueue, not_or, not_and_not_right] at hq
      have hold : p ∈ pids := ((hmem p).1 hp).elim id fun hx => hq.2 (mem_children.2 hx)
      exact .inl (h.closed p hold (by simp [hpcur, hq.1]) c hc)

theorem mem_bfs {links : List (ℤ × ℤ)} {root : ℤ} {pids : Finset ℤ} {queue : List ℤ}
    (h : Searched links root pids queue) {p : ℤ} :
    p ∈ bfs links pids queue ↔ Relation.ReflTransGen (Child links) root p := by
  fun_induction bfs links pids queue with
  | case1 pids =>
    refine ⟨h.reached p, fun hp => ?_⟩
    induction hp with
    | refl => exact h.noted
    | tail _ hc ih => exact h.closed _ ih List.not_mem_nil _ hc
  | case2 pids cur queue st ih => exact ih h.step

/-- **The search finds the processes that can be reached from the root by links to children.** -/
theorem mem_getDescendants {entries : List ProcEntry} {parentPID p : ℤ} :
    p ∈ getDescendants entries parentPID ↔
      Relation.ReflTransGen (Child (entries.filterMap ProcEntry.link)) parentPID p := by
  refine mem_bfs ⟨by simp, ?_, by simp, by simp⟩
  intro p hp
  rw [Finset.mem_singleton.1 hp]

/-! ### Sockets -/

structure ListeningPort where
  port : ℤ
  host : String
  protocol : String
  pid : ℤ
  inode : ℕ
  deriving DecidableEq

/-- The socket of a link `socket:[12345]`. -/
def socketInode (link : String) : Option ℕ :=
  if "socket:[".toList <+: link.toList then parseUint (link.toList.drop 8).dropLast else none

/-- The files of the system that a scan reads. -/
structure System where
  /-- `/proc`, in the order of the listing -/
  proc : List ProcEntry
  /-- the links in `/proc/PID/fd`, none if they cannot be read -/
  fds : ℤ → List String
  /-- the sockets of `/proc/net` that listen or are bound, in the order of the files -/
  listening : List ListeningPort

/-- `getSocketInodes`: the keys of the map. -/
def getSocketInodes (s : System) (pid : ℤ) : Finset ℕ := ((s.fds pid).filterMap socketInode).toFinset

/-- An order in which the maps of a scan are iterated. -/
structure Order (s : System) (parentPID : ℤ) where
  pids : List ℤ
  inodes : ℤ → List ℕ
  mem_pids : ∀ p, p ∈ pids ↔ p ∈ getDescendants s.proc parentPID
  mem_inodes : ∀ p n, n ∈ inodes p ↔ n ∈ getSocketInodes s p

/-- The last process that was written for a socket. -/
def inodeToPort (pids : List ℤ) (inodes : ℤ → List ℕ) : ℕ → Option ℤ :=
  (pids.flatMap fun pid => (inodes pid).map fun inode => (inode, pid)).foldl
    (fun m e => Function.update m e.1 (some e.2)) fun _ => none

/-- The sockets with an owner, the first for each protocol and port. -/
def matchPorts (owner : ℕ → Option ℤ) : List ListeningPort → List (String × ℤ) →
    List ListeningPort
  | [], _ => []
  | lp :: listening, seen =>
    match owner lp.inode with
    | none => matchPorts owner listening seen
    | some pid =>
      if (lp.protocol, lp.port) ∈ seen then matchPorts owner listening seen
      else { lp with pid } :: matchPorts owner listening ((lp.protocol, lp.port) :: seen)

/-- The comparison of the sort. -/
def less (a b : ListeningPort) : Bool :=
  if a.protocol ≠ b.protocol then a.protocol < b.protocol
  else if a.port ≠ b.port then a.port < b.port
  else a.host < b.host

def getPortsForParent (s : System) (parentPID : ℤ) (o : Order s parentPID) : List ListeningPort :=
  (matchPorts (inodeToPort o.pids o.inodes) s.listening []).mergeSort fun a b => !less b a

def listeningPortsEqual (a b : List ListeningPort) : Bool :=
  a.length = b.length ∧ ∀ p ∈ a.zip b,
    p.1.port = p.2.port ∧ p.1.protocol = p.2.protocol ∧ p.1.host = p.2.host

/-- Without the process. -/
def ListeningPort.anonymous (lp : ListeningPort) : ListeningPort := { lp with pid := 0 }

/-- The same files, with directories listed in any order. -/
structure System.Same (s s' : System) : Prop where
  proc : s.proc.Perm s'.proc
  fds : ∀ pid, (s.fds pid).Perm (s'.fds pid)
  listening : s.listening = s'.listening

theorem isSome_foldl_update (es : List (ℕ × ℤ)) (m : ℕ → Option ℤ) (n : ℕ) :
    ((es.foldl (fun m e => Function.update m e.1 (some e.2)) m : ℕ → Option ℤ) n).isSome ↔
      (m n).isSome ∨ ∃ p, (n, p) ∈ es := by
  induction es generalizing m with
  | nil => simp
  | cons e es ih =>
    rw [List.foldl_cons, ih]
    by_cases hn : n = e.1
    · subst hn
      simp only [Function.update_self, Option.isSome_some, true_or, List.mem_cons, true_iff]
      exact .inr ⟨e.2, .inl rfl⟩
    · rw [Function.update_of_ne hn]
      refine or_congr_right (exists_congr fun p => ?_)
      rw [List.mem_cons, or_iff_right fun hx => hn (congrArg Prod.fst hx)]

/-- A socket has an owner if a descendant has it open. -/
theorem isSome_inodeToPort {s : System} {parentPID : ℤ} (o : Order s parentPID) (n : ℕ) :
    (inodeToPort o.pids o.inodes n).isSome ↔
      ∃ p ∈ getDescendants s.proc parentPID, n ∈ getSocketInodes s p := by
  rw [inodeToPort, isSome_foldl_update]
  simp [o.mem_pids, o.mem_inodes]

theorem map_matchPorts {owner owner' : ℕ → Option ℤ}
    (h : ∀ n, (owner n).isSome ↔ (owner' n).isSome) (listening : List ListeningPort)
    (seen : List (String × ℤ)) :
    (matchPorts owner listening seen).map ListeningPort.anonymous =
      (matchPorts owner' listening seen).map ListeningPort.anonymous := by
  induction listening generalizing seen with
  | nil => rfl
  | cons lp listening ih =>
    have hlp := h lp.inode
    unfold matchPorts
    cases hown : owner lp.inode <;> cases hown' : owner' lp.inode <;> simp [hown, hown'] at hlp
    · exact ih seen
    · dsimp only
      split_ifs with hseen
      · exact ih seen
      · exact congrArg (List.cons _) (ih _)

theorem System.Same.owned {s s' : System} (h : s.Same s') {parentPID : ℤ} (n : ℕ) :
    (∃ p ∈ getDescendants s.proc parentPID, n ∈ getSocketInodes s p) ↔
      ∃ p ∈ getDescendants s'.proc parentPID, n ∈ getSocketInodes s' p := by
  have hchild : Child (s.proc.filterMap ProcEntry.link) = Child (s'.proc.filterMap ProcEntry.link) := by
    ext p c
    exact (h.proc.filterMap _).mem_iff
  refine exists_congr fun p => and_congr ?_ ?_
  · rw [mem_getDescendants, mem_getDescendants, hchild]
  · rw [getSocketInodes, getSocketInodes, List.mem_toFinset, List.mem_toFinset]
    exact ((h.fds p).filterMap _).mem_iff

/-- Without the processes the ports are the same. -/
theorem map_getPortsForParent {s s' : System} (h : s.Same s') {parentPID : ℤ}
    (o : Order s parentPID) (o' : Order s' parentPID) :
    (getPortsForParent s parentPID o).map ListeningPort.anonymous =
      (getPortsForParent s' parentPID o').map ListeningPort.anonymous := by
  have hsort : ∀ l : List ListeningPort,
      (l.mergeSort fun a b => !less b a).map ListeningPort.anonymous =
        (l.map ListeningPort.anonymous).mergeSort fun a b => !less b a :=
    fun l => List.map_mergeSort fun _ _ _ _ => rfl
  have howner : ∀ n, (inodeToPort o.pids o.inodes n).isSome ↔
      (inodeToPort o'.pids o'.inodes n).isSome := by
    intro n
    rw [isSome_inodeToPort, isSome_inodeToPort, h.owned]
  rw [getPortsForParent, getPortsForParent, hsort, hsort, map_matchPorts howner, h.listening]

theorem listeningPortsEqual_of_map {a b : List ListeningPort}
    (h : a.map ListeningPort.anonymous = b.map ListeningPort.anonymous) :
    listeningPortsEqual a b = true := by
  refine decide_eq_true ⟨by simpa using congrArg List.length h, ?_⟩
  induction a generalizing b with
  | nil => simp
  | cons x a ih =>
    cases b with
    | nil => simp
    | cons y b =>
      obtain ⟨hxy, htail⟩ := List.cons.inj h
      have hfields := ListeningPort.mk.inj hxy
      exact List.forall_mem_cons.2 ⟨⟨hfields.1, hfields.2.2.1, hfields.2.1⟩, ih htail⟩

/-- **A scan finds the descendants, and is stable**: of one system, however its directories are
listed and the maps are iterated, two scans give the same ports but for the processes, and compare
equal. -/
theorem scan_stable (s s' : System) (hsame : s.Same s') (parentPID : ℤ) :
    (∀ p, p ∈ getDescendants s.proc parentPID ↔
      Relation.ReflTransGen (Child (s.proc.filterMap ProcEntry.link)) parentPID p) ∧
    ∀ (o : Order s parentPID) (o' : Order s' parentPID),
      (getPortsForParent s parentPID o).map ListeningPort.anonymous =
          (getPortsForParent s' parentPID o').map ListeningPort.anonymous ∧
        listeningPortsEqual (getPortsForParent s parentPID o) (getPortsForParent s' parentPID o') := by
  refine ⟨fun p => mem_getDescendants, fun o o' => ?_⟩
  have hmap := map_getPortsForParent hsame o o'
  exact ⟨hmap, listeningPortsEqual_of_map hmap⟩

/-- Two processes that are each other's parents, in both orders. -/
theorem scan_stable_cycle :
    let s : System := ⟨[⟨"7", some "7 (a) S 8"⟩, ⟨"8", some "8 (b) S 7"⟩], fun _ => [], []⟩
    let s' : System := ⟨[⟨"8", some "8 (b) S 7"⟩, ⟨"7", some "7 (a) S 8"⟩], fun _ => [], []⟩
    ∀ (o : Order s 7) (o' : Order s' 7),
      listeningPortsEqual (getPortsForParent s 7 o) (getPortsForParent s' 7 o') := by
  intro s s' o o'
  exact ((scan_stable s s' ⟨.swap .., fun _ => .refl _, rfl⟩ 7).2 o o').2

end Graft.Scan
