import Graft.Library.Machine

/-!
# The life of a remote daemon (`pkg/remote_daemon.go`)

`Initialize`, `Reconnect` (started by the health checks) and `Close` run concurrently on one remote
daemon.  A step is a section under `d.mu`, or what a thread does outside it up to the next one: a
call of the connector, the installation under `installMu`, the closing of a connection.

`InitializeRemote` may open a transport (ssh) or not (docker); `connector.Close` closes it.  The
monitors and the port forwards, which `Close` cancels and waits for, are left out.
-/

namespace Graft.Lifecycle

open Function (update)

inductive ConnectionState
  | new
  | initializing
  | connected
  | failed
  | closed
  | reconnecting
  deriving DecidableEq

/-- For whom `ensureDaemon` and `InitializeRemote` run. -/
inductive Caller
  | doInitialize
  | reconnectOnce
  deriving DecidableEq

inductive Pc
  | idle
  /-- in `InitializeRemote` -/
  | transport (caller : Caller)
  /-- before `afterTransport` -/
  | callback
  /-- in `ensureDaemon`, before `installMu` -/
  | install (caller : Caller)
  /-- before `tryConnectExistingDaemon` has returned -/
  | probing (caller : Caller)
  /-- after it has -/
  | probed (caller : Caller) (conn : Option ℕ)
  /-- reinstalled, before `ConnectToRemoteDaemon` -/
  | redialing (caller : Caller)
  /-- before `setConnectedState` -/
  | storing (caller : Caller) (conn : ℕ)
  /-- `doInitialize` has succeeded, before `setState` -/
  | succeeding
  /-- `doInitialize` has failed, before `setState` -/
  | failing
  /-- before `DeinitializeRemote` -/
  | deinit
  /-- `Reconnect` was called -/
  | entering
  /-- in `teardownForReconnect`, before the old connection is taken -/
  | taking
  /-- before the old connection is closed -/
  | closingOld (conn : Option ℕ)
  /-- before `connector.Close` -/
  | closingTransport
  /-- an attempt to reconnect has ended -/
  | checking (ok : Bool)
  /-- in the backoff -/
  | waiting
  /-- in `Close`, before the connection is closed -/
  | closing (conn : Option ℕ)
  /-- before `connector.Close`, in `Close` or when the daemon was superseded -/
  | closingConnector
  | done
  deriving DecidableEq

/-- A remote daemon with its connector, and the threads at work on it. -/
structure Daemon where
  state : ConnectionState
  closed : Bool
  reconnecting : Bool
  /-- `initDone` is not `nil` -/
  started : Bool
  remoteConn : Option ℕ
  /-- the connector's transport -/
  sshClient : Option ℕ
  installMu : Option ℕ
  /-- which connections are open -/
  conns : ℕ → Bool
  connCount : ℕ
  /-- which transports are open -/
  clients : ℕ → Bool
  clientCount : ℕ
  op : ℕ → Pc
  opCount : ℕ

/-- `newRemoteDaemon`. -/
def Daemon.init : Daemon where
  state := .new
  closed := false
  reconnecting := false
  started := false
  remoteConn := none
  sshClient := none
  installMu := none
  conns _ := false
  connCount := 0
  clients _ := false
  clientCount := 0
  op _ := .idle
  opCount := 0

namespace Daemon

/-- Move thread `t`. -/
def setPc (w : Daemon) (t : ℕ) (pc : Pc) : Daemon := { w with op := update w.op t pc }

def spawn (w : Daemon) (pc : Pc) : Daemon :=
  { w with op := update w.op w.opCount pc, opCount := w.opCount + 1 }

def setState (w : Daemon) (state : ConnectionState) : Daemon := { w with state := state }

/-- `Close` of a connection. -/
def closeConn (w : Daemon) : Option ℕ → Daemon
  | none => w
  | some c => { w with conns := update w.conns c false }

/-- `Close` of the connector. -/
def closeConnector (w : Daemon) : Daemon :=
  match w.sshClient with
  | none => w
  | some c => { w with sshClient := none, clients := update w.clients c false }

def openConn (w : Daemon) : Daemon :=
  { w with conns := update w.conns w.connCount true, connCount := w.connCount + 1 }

/-- A transport was opened and stored in the connector. -/
def openTransport (w : Daemon) : Daemon :=
  { w with
    clients := update w.clients w.clientCount true
    clientCount := w.clientCount + 1
    sshClient := some w.clientCount }

/-- `ensureDaemon` returns. -/
def unlockInstall (w : Daemon) : Daemon := { w with installMu := none }

end Daemon

/-- Where a caller goes on when `InitializeRemote` has succeeded. -/
def Caller.transported : Caller → Pc
  | doInitialize => .callback
  | reconnectOnce => .install .reconnectOnce

/-- Where a caller goes on when `ensureDaemon` has succeeded. -/
def Caller.installed : Caller → Pc
  | doInitialize => .succeeding
  | reconnectOnce => .checking true

/-- Where a caller goes on when `InitializeRemote` or `ensureDaemon` has failed. -/
def Caller.failed : Caller → Pc
  | doInitialize => .failing
  | reconnectOnce => .checking false

inductive Step
  /-- `InitializeRemote` succeeds, with a new transport or without -/
  | initializeRemote (caller : Caller) (opens : Bool)
  | initializeRemoteFailed (caller : Caller)
  | afterTransport
  /-- `errDaemonSuperseded`; the connector is closed by a goroutine -/
  | superseded
  | lockInstall (caller : Caller)
  /-- discovery or the lookup of the binary fails -/
  | discoverFailed (caller : Caller)
  /-- `tryConnectExistingDaemon` -/
  | tryConnectExisting (caller : Caller) (found : Bool)
  /-- no need to reinstall -/
  | keep (caller : Caller) (conn : ℕ)
  | reinstallDaemon (caller : Caller) (conn : Option ℕ)
  | reinstallFailed (caller : Caller) (conn : Option ℕ)
  | connectToRemoteDaemon (caller : Caller)
  | connectFailed (caller : Caller)
  | setConnectedState (caller : Caller) (conn : ℕ)
  /-- `doInitialize` sets the state -/
  | setConnected
  | setFailed
  | deinitializeRemote
  /-- the first section of `Reconnect` -/
  | enter
  | take
  | closeOld (conn : Option ℕ)
  | closeTransport
  /-- the section after an attempt -/
  | check (ok : Bool)
  /-- the backoff ends -/
  | retry
  /-- the context ends -/
  | giveUp
  | close (conn : Option ℕ)
  | closeConnector

namespace Step

/-- Whether thread `t` can take the step. -/
def Enabled (w : Daemon) (t : ℕ) : Step → Prop
  | initializeRemote caller _ | initializeRemoteFailed caller => w.op t = .transport caller
  | afterTransport | superseded => w.op t = .callback
  | lockInstall caller => w.op t = .install caller ∧ w.installMu = none
  | discoverFailed caller | tryConnectExisting caller _ => w.op t = .probing caller
  | keep caller c => w.op t = .probed caller (some c)
  | reinstallDaemon caller c | reinstallFailed caller c => w.op t = .probed caller c
  | connectToRemoteDaemon caller | connectFailed caller => w.op t = .redialing caller
  | setConnectedState caller c => w.op t = .storing caller c
  | setConnected => w.op t = .succeeding
  | setFailed => w.op t = .failing
  | deinitializeRemote => w.op t = .deinit
  | enter => w.op t = .entering
  | take => w.op t = .taking
  | closeOld c => w.op t = .closingOld c
  | closeTransport => w.op t = .closingTransport
  | check ok => w.op t = .checking ok
  | retry | giveUp => w.op t = .waiting
  | close c => w.op t = .closing c
  | closeConnector => w.op t = .closingConnector

instance (w : Daemon) (t : ℕ) (s : Step) : Decidable (s.Enabled w t) := by
  cases s <;> dsimp only [Enabled] <;> infer_instance

/-- The state after the step of thread `t`. -/
def fire (w : Daemon) (t : ℕ) : Step → Daemon
  | initializeRemote caller opens =>
    (if opens then w.openTransport else w).setPc t caller.transported
  | initializeRemoteFailed caller => w.setPc t caller.failed
  | afterTransport => w.setPc t (.install .doInitialize)
  | superseded => (w.setPc t .done).spawn .closingConnector
  | lockInstall caller => { w with installMu := some t }.setPc t (.probing caller)
  | discoverFailed caller => w.unlockInstall.setPc t caller.failed
  | tryConnectExisting caller found =>
    if found then w.openConn.setPc t (.probed caller (some w.connCount))
    else w.setPc t (.probed caller none)
  | keep caller c => w.setPc t (.storing caller c)
  | reinstallDaemon caller c => (w.closeConn c).setPc t (.redialing caller)
  | reinstallFailed caller c => (w.closeConn c).unlockInstall.setPc t caller.failed
  | connectToRemoteDaemon caller => w.openConn.setPc t (.storing caller w.connCount)
  | connectFailed caller => w.unlockInstall.setPc t caller.failed
  | setConnectedState caller c =>
    { w with remoteConn := some c }.unlockInstall.setPc t caller.installed
  | setConnected => (w.setState .connected).setPc t .done
  | setFailed => (w.setState .failed).setPc t .deinit
  | deinitializeRemote => w.closeConnector.setPc t .done
  | enter =>
    if w.closed ∨ w.reconnecting then w.setPc t .done
    else { w with reconnecting := true, state := .reconnecting }.setPc t .taking
  | take => { w with remoteConn := none }.setPc t (.closingOld w.remoteConn)
  | closeOld c => (w.closeConn c).setPc t .closingTransport
  | closeTransport => w.closeConnector.setPc t (.transport .reconnectOnce)
  | check ok =>
    if w.closed then { w with reconnecting := false }.setPc t .done
    else if ok then { w with reconnecting := false, state := .connected }.setPc t .done
    else w.setPc t .waiting
  | retry => w.setPc t (.transport .reconnectOnce)
  | giveUp => { w with reconnecting := false }.setPc t .done
  | close c => (w.closeConn c).setPc t .closingConnector
  | closeConnector => w.closeConnector.setPc t .done

end Step

inductive Event
  | callInitialize
  /-- a health check starts `Reconnect` -/
  | checkDaemon
  | callClose
  | step (t : ℕ) (s : Step)

namespace Event

def Enabled (w : Daemon) : Event → Prop
  | callInitialize | callClose => True
  | checkDaemon => w.state = .failed ∨ w.state = .connected
  | step t s => s.Enabled w t

instance (w : Daemon) (e : Event) : Decidable (e.Enabled w) := by
  cases e <;> dsimp only [Enabled] <;> infer_instance

/-- The state after the step.  A call that finds nothing to do returns at once. -/
def fire (w : Daemon) : Event → Daemon
  | callInitialize =>
    if w.started = false ∧ w.state = .new then
      { w with started := true, state := .initializing }.spawn (.transport .doInitialize)
    else w
  | checkDaemon => w.spawn .entering
  | callClose =>
    if w.closed then w
    else { w with closed := true, state := .closed }.spawn (.closing w.remoteConn)
  | step t s => s.fire w t

end Event

def daemon : Machine Daemon Event where
  enabled := fun w e => e.Enabled w
  fire := Event.fire

instance (w : Daemon) (e : Event) : Decidable (daemon.enabled w e) :=
  inferInstanceAs (Decidable (e.Enabled w))

end Graft.Lifecycle
