import Graft.Library.Machine
import Graft.Library.History
import Graft.Library.Index
import Graft.Library.RefCount
import Graft.Library.Path
import Graft.Library.Location
import Graft.Library.Url
import Graft.Library.Flow
import Graft.Library.Processes
import Graft.Library.Signal
import Graft.Library.Separator
import Graft.Library.Table
import Graft.Library.Shell
import Graft.Command.OutputRing
import Graft.Command.ManagedCommand
import Graft.Command.World
import Graft.Command.Host
import Graft.Command.Serve
import Graft.Command.Remote
import Graft.Command.System
import Graft.Command.Rings
import Graft.Command.Disconnect
import Graft.Command.Attachment
import Graft.Command.Transcript
import Graft.Command.Resume
import Graft.Command.Lossless
import Graft.Command.Requests
import Graft.Command.FlowControl
import Graft.Command.ExitStatus
import Graft.Command.Control
import Graft.Command.SharedRing
import Graft.Command.Releases
import Graft.Command.Ownership
import Graft.Command.Delivery
import Graft.Command.StdinReplay
import Graft.Command.Conservation
import Graft.Command.WindowOrder
import Graft.Command.Stale
import Graft.Command.StateFile
import Graft.Command.Reaping
import Graft.Command.Wrapping
import Graft.Connections.Manager
import Graft.Connections.Accounts
import Graft.Connections.Transfers
import Graft.Connections.RefCounts
import Graft.Connections.Roots
import Graft.Connections.Endpoints
import Graft.Connections.WorkingDirectory
import Graft.Ssh.Resolve
import Graft.Ssh.Connect
import Graft.Ssh.ProxyTokens
import Graft.Ssh.Destination
import Graft.Daemon.Lifecycle
import Graft.Daemon.AgentForward
import Graft.Daemon.Backoff
import Graft.Daemon.Closed
import Graft.Daemon.Joining
import Graft.Daemon.Install
import Graft.Daemon.UpdateLock
import Graft.Daemon.PidFile
import Graft.Containers.OneShot
import Graft.Config.Validate
import Graft.Config.PortSpec
import Graft.Config.Requests
import Graft.Config.Saveable
import Graft.Config.Grants
import Graft.Config.PortRemoval
import Graft.Config.Crash
import Graft.Sync.Names
import Graft.Sync.Sessions
import Graft.Sync.Establish
import Graft.Sync.Requests
import Graft.Sync.Server
import Graft.Sync.Reaper
import Graft.Sync.Tracked
import Graft.Sync.RemotePaths
import Graft.Sync.Ignores
import Graft.Sync.Disjoint
import Graft.Sync.Reconcile
import Graft.Sync.Reorder
import Graft.Ports.HalfClose
import Graft.Ports.Forwards
import Graft.Ports.Calls
import Graft.Ports.Reconcile
import Graft.Ports.Explicit
import Graft.Ports.Listeners
import Graft.Ports.AddRequest
import Graft.Ports.UdpSessions
import Graft.Ports.Faithful
import Graft.Oob.Broadcast
import Graft.Lsp.RemoteName
import Graft.Lsp.Rewrite
import Graft.Lsp.Proxy
import Graft.Connections.PathPrefix
import Graft.Daemon.StreamWrapper
import Graft.Daemon.Download
import Graft.Ports.Scan
import Graft.Session.Commands
import Graft.Session.Prune
import Graft.Config.EnvForward
