import Graft.Sync.Server

/-!
# New synchronizations and the reaper

A session exists before the configuration mentions it, and the reaper works on a configuration that
is older still.  A tick that overlaps with a request, from the lookup of its session to the update
of the configuration, takes the new session for an orphan.
-/

namespace Graft.Sync

open Function (update update_self update_of_ne)
open Graft.Config (SynchronizationIntent ConnectionConfig updateConnection)

variable {stage : Stage} {su : Success} {spec : SessionSpec}

section Reaper

variable (hash : List Char → String)

/-! ### The condition -/

/-- A session that a request has looked up, and that is not in the configuration yet, has a name
that the tick in progress expects; and when a request updates the configuration, its connection is
there and configured, and has the synchronization as it was recorded. -/
def Uninterrupted (w : State) : Event → Prop
  | .tick => ∀ t < w.opCount, ∀ job ∈ (w.op t).job, job.request = true →
      ∀ name ∈ job.names, name ∈ expectedSyncSessionNames hash w.config
  | .step _ (.lookUp job _ spec) => job.request = true →
      ∀ pending ∈ w.tick.pending, spec.name ∈ expectedSyncSessionNames hash pending
  | .step _ (.update job) => job.sessions ≠ [] →
      w.registered job.connName = some job.conn ∧ (∃ conf ∈ w.config, conf.name = job.connName) ∧
        ∃ e ∈ (w.conns job.conn).synchronizations.lookup job.intent.fromLocal,
          e.destination = job.intent.toRemote ∧ (job.intent.syncGit = true → e.syncGit = true)
  | _ => True

instance (w : State) (e : Event) : Decidable (Uninterrupted hash w e) := by
  unfold Uninterrupted
  split <;> infer_instance

/-! ### The invariant -/

/-- A source that is canonical for every connection. -/
def Canonical (fromLocal : String) : Prop :=
  ∀ localRoot, canonicalizeSyncFromLocal localRoot fromLocal = .ok fromLocal

def Named (connName : String) (intent : SynchronizationIntent) (names : List String) : Prop :=
  ∀ name ∈ names, name ∈ sessionNames hash connName intent ∧ Canonical intent.fromLocal

/-- The sessions have not been reaped, and will not be. -/
structure Safe (w : State) (names : List String) (sessions : List ℕ) : Prop where
  reaped : ∀ id ∈ sessions, id ∉ w.reaped
  known : ∀ id ∈ sessions, ∃ name ∈ names, w.manager.Knows id name
  expected : ∀ pending ∈ w.tick.pending, ∀ name ∈ names, name ∈ expectedSyncSessionNames hash pending

structure JobOk (w : State) (job : Job) : Prop where
  named : Named hash job.connName job.intent job.names
  safe : job.request = true → Safe hash w job.names job.sessions

def Resolved (intent : SynchronizationIntent) : Prop :=
  ∃ localRoot fromLocal, canonicalizeSyncFromLocal localRoot fromLocal = .ok intent.fromLocal

def PcOk (w : State) : Pc → Prop
  | .idle | .done => True
  | .waiting job => job.names = [] ∧ job.sessions = []
  | .looking job _ spec => JobOk hash w job ∧ Resolved job.intent ∧
      spec.name ∈ sessionNames hash job.connName job.intent ∧
      (isAbs spec.alpha = true → isAbs job.intent.fromLocal = true)
  | .terminating job _ spec _ | .creating job _ spec =>
    JobOk hash w job ∧ Resolved job.intent ∧ spec.name ∈ job.names
  | .resuming job _ spec id =>
    JobOk hash w job ∧ Resolved job.intent ∧ spec.name ∈ job.names ∧ w.manager.Knows id spec.name
  | .recording job _ more =>
    JobOk hash w job ∧ Resolved job.intent ∧ (more = true → job.intent.syncGit = true)
  | .replicating job _ => JobOk hash w job ∧ Resolved job.intent ∧ job.intent.syncGit = true
  | .updating job => JobOk hash w job ∧ job.request = true

structure SuccessOk (w : State) (su : Success) : Prop where
  named : Named hash su.connName su.intent su.names
  safe : su.kept = true → su.sessions ≠ [] → Safe hash w su.names su.sessions
  configured : su.kept = true → su.sessions ≠ [] → su.Configured w.config

structure Inv (w : State) : Prop where
  registered : ∀ n c, w.registered n = some c → c < w.connCount ∧ (w.conns c).name = n
  idle : ∀ t, w.opCount ≤ t → w.op t = .idle
  gone : ∀ id ∈ w.reaped, id < w.manager.next ∧ ∀ s ∈ w.manager.sessions, s.identifier ≠ id
  orphans : ∀ pending todo, w.tick = .reaping pending todo → ∀ s ∈ todo,
    s.name ∉ expectedSyncSessionNames hash pending ∧ w.manager.Knows s.identifier s.name
  threads : ∀ t, PcOk hash w (w.op t)
  successes : ∀ su ∈ w.successes, SuccessOk hash w su

variable {hash} {w w' : State}

/-! ### Other threads -/

structure Extends (w w' : State) : Prop where
  reaped : w'.reaped = w.reaped
  tick : w'.tick = w.tick
  manager : w.manager.Grows w'.manager

theorem Safe.mono {names : List String} {sessions : List ℕ} (h : Safe hash w names sessions)
    (hext : Extends w w') : Safe hash w' names sessions where
  reaped id hid := by
    rw [hext.reaped]
    exact h.reaped id hid
  known id hid := by
    obtain ⟨name, hname, hknows⟩ := h.known id hid
    exact ⟨name, hname, hext.manager.knows hknows⟩
  expected := by
    rw [hext.tick]
    exact h.expected

theorem JobOk.mono {job : Job} (h : JobOk hash w job) (hext : Extends w w') : JobOk hash w' job :=
  ⟨h.named, fun hrequest => (h.safe hrequest).mono hext⟩

theorem PcOk.of_job {pc : Pc} (h : PcOk hash w pc) (hgrows : w.manager.Grows w'.manager)
    (hjob : ∀ job ∈ pc.job, JobOk hash w job → JobOk hash w' job) : PcOk hash w' pc := by
  cases pc with
  | idle | done => trivial
  | waiting job => exact h
  | resuming job stage spec id =>
    grind [Manager.Grows.knows, PcOk, Pc.job]
  | looking job stage spec | terminating job stage spec id | creating job stage spec
  | recording job entry more | replicating job entry | updating job =>
    exact h.imp_left (hjob job rfl)

theorem PcOk.mono {pc : Pc} (h : PcOk hash w pc) (hext : Extends w w') : PcOk hash w' pc :=
  h.of_job hext.manager fun _ _ hok => hok.mono hext

theorem SuccessOk.mono (h : SuccessOk hash w su) (hext : Extends w w')
    (hconfig : w'.config = w.config) : SuccessOk hash w' su where
  named := h.named
  safe hkept hne := (h.safe hkept hne).mono hext
  configured := by
    rw [hconfig]
    exact h.configured

/-- Sessions and connections change, but not what threads and ticks rest on. -/
theorem Inv.extend (h : Inv hash w) (hext : Extends w w')
    (hconns : w'.registered = w.registered ∧ w'.connCount = w.connCount)
    (hnames : ∀ c, (w'.conns c).name = (w.conns c).name)
    (hsame : w'.config = w.config ∧ w'.successes = w.successes)
    (hop : w'.op = w.op ∧ w'.opCount = w.opCount) : Inv hash w' where
  registered n c hc := by
    rw [hconns.1] at hc
    rw [hconns.2, hnames]
    exact h.registered n c hc
  idle t ht := by
    rw [hop.2] at ht
    rw [hop.1]
    exact h.idle t ht
  gone id hid := by
    rw [hext.reaped] at hid
    obtain ⟨hlt, hgone⟩ := h.gone id hid
    exact ⟨hlt.trans_le hext.manager.next, hext.manager.gone hlt hgone⟩
  orphans pending todo htick s hs := by
    rw [hext.tick] at htick
    obtain ⟨hname, hknows⟩ := h.orphans pending todo htick s hs
    exact ⟨hname, hext.manager.knows hknows⟩
  threads t := by
    rw [hop.1]
    exact (h.threads t).mono hext
  successes su hsu := by
    rw [hsame.2] at hsu
    exact (h.successes su hsu).mono hext hsame.1

section Thread

variable {t : ℕ} {pc₀ pc : Pc} {job : Job}

theorem Inv.setPc (h : Inv hash w) (hat : w.op t = pc₀) (hne : pc₀ ≠ .idle) (hpc : PcOk hash w pc) :
    Inv hash (w.setPc t pc) := by
  have hext : Extends w (w.setPc t pc) := ⟨rfl, rfl, .refl _⟩
  exact {
    registered := h.registered
    gone := h.gone
    orphans := h.orphans
    idle := fun t' ht' => by
      have hidle := h.idle t' ht'
      have hother : t' ≠ t := by
        grind
      rw [← hidle]
      exact update_of_ne hother ..
    threads := fun t' => by
      by_cases ht : t' = t
      · subst ht
        have hself : (w.setPc t' pc).op t' = pc := update_self ..
        grind [PcOk.mono]
      · have hother : (w.setPc t pc).op t' = w.op t' := update_of_ne ht ..
        rw [hother]
        exact (h.threads t').mono hext
    successes := fun su hsu => (h.successes su hsu).mono hext rfl }

theorem Inv.setSyncMu (h : Inv hash w) (syncMu : ℕ → Bool) :
    Inv hash { w with syncMu := syncMu } :=
  h.extend ⟨rfl, rfl, .refl _⟩ ⟨rfl, rfl⟩ (fun _ => rfl) ⟨rfl, rfl⟩ ⟨rfl, rfl⟩

theorem Inv.move (h : Inv hash w) (hat : w.op t = pc₀) (hne : pc₀ ≠ .idle) (syncMu : ℕ → Bool)
    (hpc : PcOk hash w pc) : Inv hash ({ w with syncMu := syncMu }.setPc t pc) := by
  have hext : Extends w { w with syncMu := syncMu } := ⟨rfl, rfl, .refl _⟩
  exact (h.setSyncMu syncMu).setPc hat hne (hpc.mono hext)

theorem Inv.stop (h : Inv hash w) (hat : w.op t = pc₀) (hne : pc₀ ≠ .idle) :
    Inv hash (w.setPc t .done) :=
  h.setPc hat hne trivial

theorem Inv.abort (h : Inv hash w) (hat : w.op t = pc₀) (hne : pc₀ ≠ .idle) :
    Inv hash (w.abort t job) :=
  h.move hat hne _ trivial

theorem JobOk.finished (h : JobOk hash w job) :
    PcOk hash w (if job.request then .updating job else .done) := by
  grind [PcOk]

theorem Inv.finish (h : Inv hash w) (hat : w.op t = pc₀) (hne : pc₀ ≠ .idle)
    (hjob : JobOk hash w job) : Inv hash (w.finish t job) :=
  h.move hat hne _ hjob.finished

theorem Inv.setManager (h : Inv hash w) {m : Manager} (hgrows : w.manager.Grows m) :
    Inv hash (w.setManager m) :=
  h.extend ⟨rfl, rfl, hgrows⟩ ⟨rfl, rfl⟩ (fun _ => rfl) ⟨rfl, rfl⟩ ⟨rfl, rfl⟩

theorem Inv.setConn (h : Inv hash w) (c : ℕ) {conn : Connection}
    (hname : conn.name = (w.conns c).name) : Inv hash (w.setConn c conn) := by
  refine h.extend ⟨rfl, rfl, .refl _⟩ ⟨rfl, rfl⟩ (fun c' => ?_) ⟨rfl, rfl⟩ ⟨rfl, rfl⟩
  by_cases hc : c' = c
  · simp_all [State.setConn]
  · simp_all [State.setConn]

/-! ### Jobs -/

theorem JobOk.of_nil (hnames : job.names = []) (hsessions : job.sessions = []) :
    JobOk hash w job where
  named name hname := by
    simp_all
  safe _ := by
    refine ⟨fun id hid => ?_, fun id hid => ?_, fun pending _ name hname => ?_⟩
    · simp_all
    · simp_all
    grind

theorem JobOk.lookUp (h : JobOk hash w job) {name : String}
    (hname : name ∈ sessionNames hash job.connName job.intent)
    (hcanonical : Canonical job.intent.fromLocal)
    (hexpected : job.request = true →
      ∀ pending ∈ w.tick.pending, name ∈ expectedSyncSessionNames hash pending) :
    JobOk hash w { job with names := name :: job.names } where
  named := by
    intro name' hname'
    rcases List.mem_cons.1 hname' with rfl | hname'
    · exact ⟨hname, hcanonical⟩
    · exact h.named name' hname'
  safe hrequest := by
    have hsafe := h.safe hrequest
    refine ⟨hsafe.reaped, fun id hid => ?_, fun pending hpending name' hname' => ?_⟩
    · obtain ⟨name', hname', hknows⟩ := hsafe.known id hid
      exact ⟨name', List.mem_cons_of_mem _ hname', hknows⟩
    · rcases List.mem_cons.1 hname' with rfl | hname'
      · exact hexpected hrequest pending hpending
      · exact hsafe.expected pending hpending name' hname'

theorem JobOk.established (h : JobOk hash w job) {id : ℕ} {name : String} (hname : name ∈ job.names)
    (hknows : w.manager.Knows id name) (hreaped : id ∉ w.reaped) :
    JobOk hash w (job.established id) where
  named := h.named
  safe hrequest := by
    have hsafe := h.safe hrequest
    refine ⟨fun id' hid' => ?_, fun id' hid' => ?_, hsafe.expected⟩
    · grind [Safe.reaped, Job.established]
    grind [Safe.known, Job.established]

theorem Stage.syncGit_of_more {intent : SynchronizationIntent}
    (h : stage.more intent = true) : intent.syncGit = true := by
  cases stage with
  | primary => exact h
  | replica entry => cases h

theorem Inv.not_reaped (h : Inv hash w) {s : Session} (hs : s ∈ w.manager.sessions) :
    s.identifier ∉ w.reaped :=
  fun hx => (h.gone _ hx).2 s hs rfl

theorem Resolved.canonical {intent : SynchronizationIntent} (h : Resolved intent)
    (habs : isAbs intent.fromLocal = true) : Canonical intent.fromLocal := by
  grind [canonicalize_self, Canonical, Resolved]

/-! ### Steps of a thread -/

theorem Inv.prepare (h : Inv hash w) {out : String} {ignores : List String}
    (hat : w.op t = .waiting job) : Inv hash ((Step.prepare job out ignores).fire hash w t) := by
  obtain ⟨hnames, hsessions⟩ : job.names = [] ∧ job.sessions = [] := by
    have hpc := h.threads t
    rw [hat] at hpc
    exact hpc
  have hjob (intent : SynchronizationIntent) : JobOk hash w { job with intent } :=
    .of_nil hnames hsessions
  dsimp only [Step.fire]
  cases hplan : plan (w.conns job.conn) job.intent with
  | error err => exact h.stop hat nofun
  | ok p =>
    cases p with
    | noop => exact h.finish hat nofun (.of_nil hnames hsessions)
    | resolve intent₁ =>
      have hresolved : Resolved intent₁ := ⟨_, _, (plan_eq_resolve hplan).1⟩
      dsimp only
      cases haction : action (w.conns job.conn) intent₁ (trimSpace out) with
      | error err => exact h.stop hat nofun
      | ok a =>
        set intent₂ : SynchronizationIntent := { intent₁ with toRemote := trimSpace out }
        have hresolved₂ : Resolved intent₂ := hresolved
        rcases (action_cases haction).2 with rfl | ⟨existing, -, rfl⟩ | rfl
        · exact h.finish hat nofun (.of_nil hnames hsessions)
        · dsimp only
          refine h.move hat nofun _ ?_
          split_ifs with hgit
          · exact ⟨hjob intent₂, hresolved₂, hgit⟩
          · exact ⟨hjob intent₂, hresolved₂, nofun⟩
        · dsimp only
          cases syncBetaConfiguration intent₂ with
          | error err => exact h.stop hat nofun
          | ok modes =>
            exact h.move hat nofun _
              ⟨hjob intent₂, hresolved₂, mem_sessionNames_self .., fun habs => habs⟩

theorem Inv.lookUp (h : Inv hash w) (hat : w.op t = .looking job stage spec)
    (hok : Uninterrupted hash w (.step t (.lookUp job stage spec))) :
    Inv hash ((Step.lookUp job stage spec).fire hash w t) := by
  have hpc := h.threads t
  rw [hat] at hpc
  obtain ⟨hjob, hresolved, hname, habs⟩ := hpc
  dsimp only [Step.fire]
  by_cases halpha : isAbs spec.alpha = false
  · simp_all [abort]
  rw [if_neg halpha]
  have hcanonical := hresolved.canonical (habs (by simpa using halpha))
  set job' : Job := { job with names := spec.name :: job.names }
  have hlooked : JobOk hash w job' := hjob.lookUp hname hcanonical hok
  have hmem : spec.name ∈ job'.names := List.mem_cons_self ..
  cases hfind : w.manager.find spec.name with
  | none => exact h.setPc hat nofun ⟨hlooked, hresolved, hmem⟩
  | some s =>
    have hs : s ∈ w.manager.sessions := List.mem_of_find?_eq_some hfind
    have hknows : w.manager.Knows s.identifier spec.name :=
      Manager.Has.knows ⟨s, hs, rfl, by simpa using List.find?_some hfind⟩
    dsimp only
    split_ifs
    · exact h.setPc hat nofun ⟨hlooked, hresolved, hmem⟩
    · exact h.setPc hat nofun ⟨hlooked, hresolved, hmem, hknows⟩
    · exact h.setPc hat nofun ⟨hlooked.established hmem hknows (h.not_reaped hs), hresolved,
        Stage.syncGit_of_more⟩

theorem Inv.terminate (h : Inv hash w) {id : ℕ} (hat : w.op t = .terminating job stage spec id) :
    Inv hash ((Step.terminate job stage spec id).fire hash w t) := by
  have hpc := h.threads t
  rw [hat] at hpc
  dsimp only [Step.fire]
  split_ifs
  · have hext : Extends w (w.setManager (w.manager.terminate id)) := ⟨rfl, rfl, .terminate _ _⟩
    exact (h.setManager (.terminate _ _)).setPc hat nofun (hpc.imp_left (·.mono hext))
  · exact h.abort hat nofun

theorem Inv.resume (h : Inv hash w) {id : ℕ} (hat : w.op t = .resuming job stage spec id) :
    Inv hash ((Step.resume job stage spec id).fire hash w t) := by
  have hpc := h.threads t
  rw [hat] at hpc
  obtain ⟨hjob, hresolved, hmem, hknows⟩ := hpc
  dsimp only [Step.fire]
  by_cases hhas : w.manager.has id = true
  · rw [if_pos hhas]
    obtain ⟨s, hs, hid⟩ := List.any_eq_true.1 hhas
    have hreaped : id ∉ w.reaped := by
      grind [not_reaped]
    have hext : Extends w (w.setManager (w.manager.resume id)) := ⟨rfl, rfl, .setPaused _ _ _⟩
    exact (h.setManager (.setPaused _ _ _)).setPc hat nofun
      ⟨(hjob.established hmem hknows hreaped).mono hext, hresolved, Stage.syncGit_of_more⟩
  · simp_all [abort]

theorem Inv.create (h : Inv hash w) (hat : w.op t = .creating job stage spec) :
    Inv hash ((Step.create job stage spec).fire hash w t) := by
  have hpc := h.threads t
  rw [hat] at hpc
  obtain ⟨hjob, hresolved, hmem⟩ := hpc
  have hext : Extends w (w.setManager (w.manager.create spec)) := ⟨rfl, rfl, .create _ _⟩
  have hreaped : w.manager.next ∉ w.reaped := fun hx => lt_irrefl _ (h.gone _ hx).1
  exact (h.setManager (.create _ _)).setPc hat nofun ⟨(hjob.mono hext).established hmem
    (Manager.knows_create ..) hreaped, hresolved, Stage.syncGit_of_more⟩

theorem recordSync_name {conn : Connection} {m : Manager} {closed : Bool} {fromLocal : String}
    {entry : ActiveSync} {sessions : List ℕ} :
    (recordSync conn m closed fromLocal entry sessions).conn.name = conn.name := by
  unfold recordSync
  split_ifs <;> rfl

theorem Inv.record (h : Inv hash w) {entry : ActiveSync} {more : Bool}
    (hat : w.op t = .recording job entry more) :
    Inv hash ((Step.record job entry more).fire hash w t) := by
  have hpc := h.threads t
  rw [hat] at hpc
  obtain ⟨hjob, hresolved, hmore⟩ := hpc
  dsimp only [Step.fire]
  set r := recordSync (w.conns job.conn) (pauseReplica (w.conns job.conn) w.manager job.intent)
    (w.conns job.conn).closed job.intent.fromLocal entry []
  have hgrows : w.manager.Grows r.manager := (pauseReplica_grows ..).trans (recordSync_grows ..)
  have hext : Extends w ((w.setManager r.manager).setConn job.conn r.conn) := ⟨rfl, rfl, hgrows⟩
  have hw : Inv hash ((w.setManager r.manager).setConn job.conn r.conn) :=
    (h.setManager hgrows).setConn job.conn recordSync_name
  cases r.error with
  | some err => exact hw.abort hat nofun
  | none =>
    dsimp only
    split_ifs with hm
    · exact hw.setPc hat nofun ⟨hjob.mono hext, hresolved, hmore hm⟩
    · exact hw.finish hat nofun (hjob.mono hext)

theorem Inv.replicate (h : Inv hash w) {entry : ActiveSync} {gitDir : Bool}
    (hat : w.op t = .replicating job entry) :
    Inv hash ((Step.replicate job entry gitDir).fire hash w t) := by
  have hpc := h.threads t
  rw [hat] at hpc
  obtain ⟨hjob, hresolved, hgit⟩ := hpc
  dsimp only [Step.fire]
  by_cases hdir : gitDir = false
  · rw [if_pos hdir]
    exact h.setPc hat nofun ⟨hjob, hresolved, nofun⟩
  rw [if_neg hdir]
  cases gitReplicaBetaConfiguration job.intent with
  | error err => exact h.abort hat nofun
  | ok modes =>
    have hne : job.intent.fromLocal ≠ "" := by
      obtain ⟨localRoot, fromLocal, hcanonical⟩ := hresolved
      exact (canonicalize_eq_ok hcanonical).1
    exact h.setPc hat nofun ⟨hjob, hresolved, mem_sessionNames_git _ hgit, isAbs_of_gitReplica hne⟩

theorem Inv.fail (h : Inv hash w) (hat : (w.op t).job = some job) :
    Inv hash ((Step.fail job).fire hash w t) := by
  have hne : w.op t ≠ .idle := by
    grind [Pc.job]
  dsimp only [Step.fire]
  split_ifs
  · exact h.abort rfl hne
  · exact h.stop rfl hne

/-! ### The configuration -/

theorem Inv.setConfig (h : Inv hash w) (config : List ConnectionConfig) :
    Inv hash (w.setConfig config) := by
  have hext : Extends w (w.setConfig config) := ⟨rfl, rfl, .refl _⟩
  refine ⟨h.registered, h.idle, h.gone, h.orphans, fun t => (h.threads t).mono hext,
    fun su hsu => ?_⟩
  obtain ⟨su₀, hsu₀, rfl⟩ := List.mem_map.1 hsu
  have hold := h.successes su₀ hsu₀
  refine ⟨hold.named, fun hkept hne => ?_, fun hkept _ => ?_⟩
  · exact (hold.safe (Bool.and_eq_true_iff.1 hkept).1 hne).mono hext
  · exact of_decide_eq_true (Bool.and_eq_true_iff.1 hkept).2

/-- A request that has established a session puts it into the configuration. -/
theorem configured_of_update {conn : Connection} {config : List ConnectionConfig}
    {conf : ConnectionConfig} (hconf : conf ∈ config) (hname : conf.name = conn.name)
    (hsu : su.connName = conn.name) (hcanonical : Canonical su.intent.fromLocal)
    {e : ActiveSync} (he : conn.synchronizations.lookup su.intent.fromLocal = some e)
    (hdestination : e.destination = su.intent.toRemote)
    (hgit : su.intent.syncGit = true → e.syncGit = true) :
    su.Configured (updateSynchronizations config conn) := by
  obtain ⟨conf', hconf', hname', hsyncs⟩ : ∃ conf' ∈ updateSynchronizations config conn,
      conf'.name = conn.name ∧ conf'.synchronizations = conn.intents := by
    clear hsu
    unfold updateSynchronizations
    induction config with
    | nil => cases hconf
    | cons first rest ih =>
      unfold updateConnection
      by_cases hfirst : first.name = conn.name
      · rw [if_pos hfirst]
        exact ⟨_, List.mem_cons_self .., hfirst, rfl⟩
      · rw [if_neg hfirst]
        rcases List.mem_cons.1 hconf with rfl | hrest
        · exact absurd hname hfirst
        · obtain ⟨conf', hmem, hx⟩ := ih hrest
          exact ⟨conf', List.mem_cons_of_mem _ hmem, hx⟩
  refine ⟨conf', hconf', hname'.trans hsu.symm, e.intent su.intent.fromLocal, ?_, ?_, hdestination,
    hgit⟩
  · rw [hsyncs]
    exact mem_intents.2 ⟨e, he, rfl⟩
  · have hself := hcanonical conf'.localRoot
    simp only [ActiveSync.intent, canonicalFromLocal, hself]

theorem Inv.addSuccess (h : Inv hash w) (hsu : SuccessOk hash w su) :
    Inv hash { w with successes := su :: w.successes } := by
  have hext : Extends w { w with successes := su :: w.successes } := ⟨rfl, rfl, .refl _⟩
  refine ⟨h.registered, h.idle, h.gone, h.orphans, fun t => (h.threads t).mono hext,
    fun su' hsu' => ?_⟩
  rcases List.mem_cons.1 hsu' with rfl | hsu'
  · exact hsu.mono hext rfl
  · exact (h.successes su' hsu').mono hext rfl

theorem JobOk.canonical (h : JobOk hash w job) (hrequest : job.request = true)
    (hsessions : job.sessions ≠ []) : Canonical job.intent.fromLocal := by
  obtain ⟨id, hid⟩ := List.exists_mem_of_ne_nil _ hsessions
  obtain ⟨name, hname, -⟩ := (h.safe hrequest).known id hid
  exact (h.named name hname).2

theorem Inv.update (h : Inv hash w) (hat : w.op t = .updating job)
    (hok : Uninterrupted hash w (.step t (.update job))) :
    Inv hash ((Step.update job).fire hash w t) := by
  obtain ⟨hjob, hrequest⟩ : JobOk hash w job ∧ job.request = true := by
    have hpc := h.threads t
    rw [hat] at hpc
    exact hpc
  dsimp only [Step.fire]
  cases hregistered : w.registered job.connName with
  | none => exact h.stop hat nofun
  | some c =>
    set config := updateSynchronizations w.config (w.conns c)
    have hext : Extends w (w.setConfig config) := ⟨rfl, rfl, .refl _⟩
    have hname : (w.conns c).name = job.connName := (h.registered _ _ hregistered).2
    have hsu : SuccessOk hash (w.setConfig config)
        ⟨job.connName, job.intent, job.names, job.sessions, true⟩ := by
      refine ⟨hjob.named, fun _ _ => (hjob.safe hrequest).mono hext, fun _ hsessions => ?_⟩
      obtain ⟨hsame, ⟨conf, hconf, hconfName⟩, e, he, hdestination, hgit⟩ := hok hsessions
      rw [hregistered] at hsame
      obtain rfl : c = job.conn := Option.some.inj hsame
      exact configured_of_update hconf (hconfName.trans hname.symm) hname.symm
        (hjob.canonical hrequest hsessions) he hdestination hgit
    exact ((h.setConfig config).addSuccess hsu).setPc hat nofun trivial

end Thread

theorem Inv.step (h : Inv hash w) {t : ℕ} {s : Step} (he : s.Enabled w t)
    (hok : Uninterrupted hash w (.step t s)) : Inv hash (s.fire hash w t) := by
  cases s with
  | prepare job out ignores => exact h.prepare he.1
  | lookUp job stage spec => exact h.lookUp he hok
  | terminate job stage spec id => exact h.terminate he
  | resume job stage spec id => exact h.resume he
  | create job stage spec => exact h.create he
  | record job entry more => exact h.record he
  | replicate job entry gitDir => exact h.replicate he
  | update job => exact h.update he hok
  | fail job => exact h.fail he

/-! ### The tick -/

theorem Inv.spawn (h : Inv hash w) {pc : Pc} (hpc : PcOk hash w pc) : Inv hash (w.spawn pc) := by
  have hext : Extends w (w.spawn pc) := ⟨rfl, rfl, .refl _⟩
  refine ⟨h.registered, fun t ht => ?_, h.gone, h.orphans, fun t => ?_,
    fun su hsu => (h.successes su hsu).mono hext rfl⟩
  · have hlt : w.opCount < t := ht
    have hother : (w.spawn pc).op t = w.op t := update_of_ne hlt.ne' ..
    grind [idle]
  · by_cases ht : t = w.opCount
    · subst ht
      have hself : (w.spawn pc).op w.opCount = pc := update_self ..
      rw [hself]
      exact hpc.mono hext
    · have hother : (w.spawn pc).op t = w.op t := update_of_ne ht ..
      rw [hother]
      exact (h.threads t).mono hext

theorem Success.expected {config : List ConnectionConfig}
    (hnamed : Named hash su.connName su.intent su.names) (hconfigured : su.Configured config)
    {name : String} (hname : name ∈ su.names) : name ∈ expectedSyncSessionNames hash config := by
  obtain ⟨conf, hconf, hconn, s, hs, hfrom, hto, hgit⟩ := hconfigured
  refine mem_expected hconf hs ?_
  have hmem := (hnamed name hname).1
  set s' : SynchronizationIntent :=
    { s with fromLocal := canonicalFromLocal conf.localRoot s.fromLocal }
  have hself : syncSessionName hash su.connName su.intent = syncSessionName hash conf.name s' := by
    rw [hconn]
    exact syncSessionName_congr (by rw [← hfrom]) (by rw [← hto])
  have hreplica : syncSessionName hash su.connName (gitReplicaIntent su.intent) =
      syncSessionName hash conf.name (gitReplicaIntent s') := by
    rw [hconn, gitReplicaIntent, gitReplicaIntent, ← hfrom, ← hto]
  rcases List.mem_cons.1 hmem with rfl | hmem
  · rw [hself]
    exact mem_sessionNames_self ..
  · split_ifs at hmem with hsyncGit
    · rw [List.mem_singleton.1 hmem, hreplica]
      exact mem_sessionNames_git _ (hgit hsyncGit)
    · cases hmem

theorem Inv.ticks (h : Inv hash w) {tick : Tick} {m : Manager} {reaped : List ℕ}
    (hgrows : w.manager.Grows m)
    (hgone : ∀ id ∈ reaped, id < m.next ∧ ∀ s ∈ m.sessions, s.identifier ≠ id)
    (horphans : ∀ pending todo, tick = .reaping pending todo → ∀ s ∈ todo,
      s.name ∉ expectedSyncSessionNames hash pending ∧ m.Knows s.identifier s.name)
    (hjobs : ∀ t, ∀ job ∈ (w.op t).job, job.request = true → Safe hash w job.names job.sessions →
      Safe hash { w with tick := tick, manager := m, reaped := reaped } job.names job.sessions)
    (hsuccesses : ∀ su ∈ w.successes, su.kept = true → su.sessions ≠ [] →
      Safe hash w su.names su.sessions →
      Safe hash { w with tick := tick, manager := m, reaped := reaped } su.names su.sessions) :
    Inv hash { w with tick := tick, manager := m, reaped := reaped } where
  registered := h.registered
  idle := h.idle
  gone := hgone
  orphans := horphans
  threads t := (h.threads t).of_job hgrows fun job hjob hok =>
    ⟨hok.named, fun hrequest => hjobs t job hjob hrequest (hok.safe hrequest)⟩
  successes su hsu := by
    have hold := h.successes su hsu
    exact ⟨hold.named, fun hkept hne => hsuccesses su hsu hkept hne (hold.safe hkept hne),
      hold.configured⟩

/-- A tick begins: it expects what requests have configured, or are about to. -/
theorem Inv.tick (h : Inv hash w) (hok : Uninterrupted hash w .tick) :
    Inv hash { w with tick := .applying w.config } := by
  refine h.ticks (.refl _) h.gone nofun (fun t job hjob hrequest hsafe => ?_)
    fun su hsu hkept hne hsafe => ?_
  · have ht : t < w.opCount := by
      grind [idle, Pc.job]
    refine ⟨hsafe.reaped, hsafe.known, ?_⟩
    rintro pending ⟨⟩ name hname
    exact hok t ht job hjob hrequest name hname
  · have hold := h.successes su hsu
    refine ⟨hsafe.reaped, hsafe.known, ?_⟩
    rintro pending ⟨⟩ name hname
    exact Success.expected hold.named (hold.configured hkept hne) hname

theorem Inv.list (h : Inv hash w) {pending : List ConnectionConfig}
    (htick : w.tick = .applying pending) :
    Inv hash { w with tick := .reaping pending (w.manager.orphans hash pending) } := by
  have hsafe {names : List String} {sessions : List ℕ} (hsafe : Safe hash w names sessions) :
      Safe hash { w with tick := .reaping pending (w.manager.orphans hash pending) } names
        sessions := by
    refine ⟨hsafe.reaped, hsafe.known, ?_⟩
    rintro pending' ⟨⟩
    exact hsafe.expected pending (by rw [htick]; rfl)
  refine h.ticks (.refl _) h.gone ?_ (fun _ _ _ _ => hsafe) fun _ _ _ _ => hsafe
  rintro pending' todo ⟨⟩ s hs
  obtain ⟨hmem, horphan⟩ := List.mem_filter.1 hs
  exact ⟨of_decide_eq_true (Bool.and_eq_true_iff.1 horphan).2, Manager.Has.knows ⟨s, hmem, rfl, rfl⟩⟩

theorem Safe.ne_orphan {names : List String} {sessions : List ℕ} (h : Safe hash w names sessions)
    {pending : List ConnectionConfig} (htick : w.tick.pending = some pending) {s : Session}
    (hs : s.name ∉ expectedSyncSessionNames hash pending)
    (hknows : w.manager.Knows s.identifier s.name) (hhas : w.manager.has s.identifier = true) :
    s.identifier ∉ sessions := by
  intro hid
  obtain ⟨name, hname, hknows'⟩ := h.known _ hid
  obtain ⟨x, hx, hxid⟩ := List.any_eq_true.1 hhas
  have hsame : s.name = name :=
    (hknows.2 x hx (of_decide_eq_true hxid)).symm.trans (hknows'.2 x hx (of_decide_eq_true hxid))
  rw [hsame] at hs
  exact hs (h.expected pending htick name hname)

/-- **The reaper terminates no session of a request.** -/
theorem Inv.reap (h : Inv hash w) {pending : List ConnectionConfig} {s : Session}
    {rest : List Session} (htick : w.tick = .reaping pending (s :: rest)) :
    Inv hash ((Event.reap pending s rest).fire hash w) := by
  obtain ⟨hs, hknows⟩ := h.orphans _ _ htick s (List.mem_cons_self ..)
  have hpending : w.tick.pending = some pending := by rw [htick]; rfl
  have hrest : ∀ x ∈ rest, x.name ∉ expectedSyncSessionNames hash pending ∧
      w.manager.Knows x.identifier x.name :=
    fun x hx => h.orphans _ _ htick x (List.mem_cons_of_mem _ hx)
  dsimp only [Event.fire]
  by_cases hhas : w.manager.has s.identifier = true
  · rw [if_pos hhas]
    have hgrows : w.manager.Grows (w.manager.terminate s.identifier) := .terminate _ _
    have hsafe {names : List String} {sessions : List ℕ} (hsafe : Safe hash w names sessions) :
        Safe hash { w with tick := .reaping pending rest
                           manager := w.manager.terminate s.identifier
                           reaped := s.identifier :: w.reaped } names sessions := by
      refine ⟨fun id hid hx => ?_, fun id hid => ?_, ?_⟩
      · grind [Safe.ne_orphan, Safe.reaped]
      · grind [Safe.known, Manager.Grows.knows]
      · rintro pending' ⟨⟩
        exact hsafe.expected pending hpending
    refine h.ticks hgrows (fun id hid => ?_) ?_ (fun _ _ _ _ => hsafe) fun _ _ _ _ => hsafe
    · rcases List.mem_cons.1 hid with rfl | hid
      · exact ⟨hknows.1, fun x hx => of_decide_eq_true (List.mem_filter.1 hx).2⟩
      · obtain ⟨hlt, hgone⟩ := h.gone id hid
        exact ⟨hlt, hgrows.gone hlt hgone⟩
    · rintro pending' todo ⟨⟩ x hx
      exact (hrest x hx).imp_right hgrows.knows
  · rw [if_neg hhas]
    have hsafe {names : List String} {sessions : List ℕ} (hsafe : Safe hash w names sessions) :
        Safe hash { w with tick := .reaping pending rest } names sessions := by
      refine ⟨hsafe.reaped, hsafe.known, ?_⟩
      rintro pending' ⟨⟩
      exact hsafe.expected pending hpending
    refine h.ticks (.refl _) h.gone ?_ (fun _ _ _ _ => hsafe) fun _ _ _ _ => hsafe
    rintro pending' todo ⟨⟩
    exact hrest

theorem Inv.tickEnd (h : Inv hash w) : Inv hash { w with tick := .idle } := by
  have hsafe {names : List String} {sessions : List ℕ} (hsafe : Safe hash w names sessions) :
      Safe hash { w with tick := .idle } names sessions :=
    ⟨hsafe.reaped, hsafe.known, nofun⟩
  exact h.ticks (.refl _) h.gone nofun (fun _ _ _ _ => hsafe) fun _ _ _ _ => hsafe

/-! ### Connections -/

theorem Inv.register (h : Inv hash w) (name localRoot : String) :
    Inv hash ((Event.register name localRoot).fire hash w) := by
  have hext : Extends w ((Event.register name localRoot).fire hash w) := ⟨rfl, rfl, .refl _⟩
  refine ⟨fun n c hc => ?_, h.idle, h.gone, h.orphans, fun t => (h.threads t).mono hext,
    fun su hsu => (h.successes su hsu).mono hext rfl⟩
  simp only [Event.fire, State.setConn] at hc ⊢
  by_cases hn : n = name
  · simp_all
  · rw [update_of_ne hn] at hc
    obtain ⟨hlt, hname⟩ := h.registered n c hc
    grind

theorem Inv.unregister (h : Inv hash w) (name : String) :
    Inv hash ((Event.unregister name).fire hash w) := by
  have hext : Extends w ((Event.unregister name).fire hash w) := ⟨rfl, rfl, .refl _⟩
  refine ⟨fun n c hc => ?_, h.idle, h.gone, h.orphans, fun t => (h.threads t).mono hext,
    fun su hsu => (h.successes su hsu).mono hext rfl⟩
  simp only [Event.fire] at hc ⊢
  by_cases hn : n = name
  · simp_all
  · rw [update_of_ne hn] at hc
    exact h.registered n c hc

/-! ### The theorem -/

variable {shortHash : List Char → String} {identity : String}

theorem Inv.init (config : List ConnectionConfig) (manager : Manager) :
    Inv hash (.init config manager) where
  registered := nofun
  idle _ _ := rfl
  gone := nofun
  orphans := nofun
  threads _ := trivial
  successes := nofun

theorem Inv.event (h : Inv hash w) {e : Event}
    (he : (syncServer hash shortHash identity).enabled w e) (hok : Uninterrupted hash w e) :
    Inv hash ((syncServer hash shortHash identity).fire w e) := by
  cases e with
  | syncFiles name c homeDir req intent => exact h.spawn ⟨rfl, rfl⟩
  | restoreSync name c intent => exact h.spawn ⟨rfl, rfl⟩
  | step t s => exact h.step he hok
  | tick => exact h.tick hok
  | list pending => exact h.list he
  | reap pending s rest => exact h.reap he
  | tickEnd => exact h.tickEnd
  | configure config => exact h.setConfig config
  | register name localRoot => exact h.register name localRoot
  | unregister name => exact h.unregister name
  | close c =>
    have hclosed : Inv hash (w.setConn c (w.conns c).close) := h.setConn c rfl
    exact hclosed.setManager
      (.foldl (fun m (e : Sigma fun _ : String => ActiveSync) => e.2.grows_pause m) _ _)
  | updateRoots c localRoot => exact h.setConn c rfl

variable (hash shortHash identity)

/-- **A requested synchronization is not reaped**: in every run in which no tick overlaps with a
request that it does not expect, no session that a successful request has established was terminated
by the reaper, as long as the synchronization stays in the configuration. -/
theorem requested_not_reaped (config : List ConnectionConfig) (manager : Manager)
    (hrun : (syncServer hash shortHash identity).Run (Uninterrupted hash) (.init config manager) w)
    (su : Success) (hsu : su ∈ w.successes) (hkept : su.kept = true) :
    ∀ id ∈ su.sessions, id ∉ w.reaped := by
  have hinv : Inv hash w :=
    hrun.invariant (.init config manager) fun _ _ h he hok => h.event he hok
  intro id hid
  exact ((hinv.successes su hsu).safe hkept (List.ne_nil_of_mem hid)).reaped id hid

end Reaper

/-! ### Runs -/

/-- The request for `/p/doc` as a thread has it, with what it has looked up and established. -/
def docJob (names : List String) (sessions : List ℕ) : Job :=
  ⟨true, "a", 0, ⟨"/p/doc", "/srv/doc", false, [], "", ""⟩, names, sessions⟩

def docSpec : SessionSpec :=
  ⟨syncSessionName String.ofList "a" (docJob [] []).intent, "/p/doc", "/srv/doc", [], 0o644, 0o755⟩

/-- The request, from its begin to its success; the session gets the identifier `id`. -/
def docRequest (id : ℕ) : List Event :=
  [.syncFiles "a" 0 "/home/u" requestDoc (docJob [] []).intent,
    .step 0 (.prepare (docJob [] []) "/srv/doc\n" []),
    .step 0 (.lookUp (docJob [] []) .primary docSpec),
    .step 0 (.create (docJob [docSpec.name] []) .primary docSpec),
    .step 0 (.record (docJob [docSpec.name] [id]) (.ofIntent (docJob [] []).intent id) false),
    .step 0 (.update (docJob [docSpec.name] [id]))]

def docSuccess (id : ℕ) : Success :=
  ⟨"a", (docJob [] []).intent, [docSpec.name], [id], true⟩

/-- A session of a synchronization that was removed. -/
def oldSpec : SessionSpec := ⟨"graft-old", "/p/old", "/srv/old", [], 0o644, 0o755⟩

/-- The theorem at a run in which a tick follows the request, and terminates another session. -/
theorem requested_not_reaped_orphan :
    ∃ w, (syncServer String.ofList String.ofList "me").Run (Uninterrupted String.ofList)
        (.init [confA []] (Manager.empty.create oldSpec)) w ∧
      docSuccess 1 ∈ w.successes ∧ w.reaped = [0] ∧ 1 ∉ w.reaped := by
  have hexec : ∃ w ∈ (syncServer String.ofList String.ofList "me").exec (Uninterrupted String.ofList)
      (.init [confA []] (Manager.empty.create oldSpec))
      ([.register "a" "/p"] ++ docRequest 1 ++
        [.tick, .list [confA [(docJob [] []).intent]],
          .reap [confA [(docJob [] []).intent]] ⟨oldSpec, 0, false⟩ []]),
      docSuccess 1 ∈ w.successes ∧ w.reaped = [0] := by
    decide +kernel
  obtain ⟨w, hrun, hsuccess, hreaped⟩ := Machine.exists_run_of_exec _ _ hexec
  exact ⟨w, hrun, hsuccess, hreaped, requested_not_reaped _ _ _ [confA []] _
    hrun (docSuccess 1) hsuccess rfl 1 (by decide)⟩

/-- A tick takes the configuration; the request runs from its begin to its success; then the tick
comes to its end, and terminates the session that the request has established and configured. -/
theorem snapshot_reaps_new :
    ∃ w, (syncServer String.ofList String.ofList "me").Reachable (.init [confA []] .empty) w ∧
      docSuccess 0 ∈ w.successes ∧ (docSuccess 0).Configured w.config ∧ w.reaped = [0] ∧
      w.manager.sessions = [] := by
  have hexec : ∃ w ∈ (syncServer String.ofList String.ofList "me").exec (fun _ _ => True)
      (.init [confA []] .empty)
      ([.register "a" "/p", .tick] ++ docRequest 0 ++
        [.list [confA []], .reap [confA []] ⟨docSpec, 0, false⟩ []]),
      docSuccess 0 ∈ w.successes ∧ (docSuccess 0).Configured w.config ∧ w.reaped = [0] ∧
        w.manager.sessions = [] := by
    decide +kernel
  exact Machine.exists_run_of_exec _ _ hexec

end Graft.Sync
