import AgentGather.Library.RelyGuarantee
import AgentGather.Library.Text
import AgentGather.Library.Regex
import AgentGather.Library.JsonScan
import AgentGather.Library.JsonSize
import AgentGather.Library.Utf8
import AgentGather.Library.Number
import AgentGather.Protocol.Types
import AgentGather.Protocol.Validation
import AgentGather.Browser.OrderedLists
import AgentGather.Browser.Provenance
import AgentGather.Browser.BackupCoverage
import AgentGather.Browser.LiveCursor
import AgentGather.Protocol.MentionScan
import AgentGather.Protocol.Messages
import AgentGather.Protocol.Attention
import AgentGather.Protocol.Forum
import AgentGather.Storage.Files
import AgentGather.Storage.RoomStore
import AgentGather.Storage.MessageIds
import AgentGather.Storage.Creation
import AgentGather.Storage.Channels
import AgentGather.Storage.ForumPosts
import AgentGather.Storage.ForumThreads
import AgentGather.Storage.Discipline
import AgentGather.Storage.Idempotence
import AgentGather.Storage.Brief
import AgentGather.Storage.Seats
import AgentGather.Storage.Membership
import AgentGather.Storage.RedactionFixpoint
import AgentGather.Storage.RedactionSecrecy
import AgentGather.Storage.SnapshotBounds
import AgentGather.Storage.Snapshots
import AgentGather.Storage.BulkRooms
import AgentGather.Platform.HeldSeats
import AgentGather.Platform.HistoryReceiver
import AgentGather.Platform.MeteringLedger
import AgentGather.Platform.BaseUrls
import AgentGather.Library.JsonMembers
import AgentGather.Platform.Registry
import AgentGather.Platform.RegistryStore
import AgentGather.Platform.Accounts
import AgentGather.Platform.RoomsApi
import AgentGather.Platform.SnapshotCapabilities
import AgentGather.Platform.HistoryBridge
import AgentGather.Platform.Status
import AgentGather.Platform.TokenlessUrls
import AgentGather.Server.Memory
import AgentGather.Server.Handlers
import AgentGather.Server.Calls
import AgentGather.Server.LoopGuard
import AgentGather.Server.RateLimiter
import AgentGather.Server.Endpoints
import AgentGather.Server.Requests
import AgentGather.Server.Closing
import AgentGather.Server.Sessions
import AgentGather.Server.Roster
import AgentGather.Cli.Transport
import AgentGather.Cli.WakeAdapter
import AgentGather.Cli.Args
import AgentGather.Browser.CreateCommand
import AgentGather.Cli.Backoff
import AgentGather.Cli.WakeRequests
import AgentGather.Storage.MessageLog
import AgentGather.Tunnel.Relay
import AgentGather.Tunnel.RelayOnce
import AgentGather.Tunnel.Broker
import AgentGather.Tunnel.Admission
import AgentGather.Tunnel.HostSession
import AgentGather.Tunnel.Epochs
import AgentGather.Tunnel.Metering
import AgentGather.Tunnel.Lifecycle
import AgentGather.Tunnel.Paths
import AgentGather.Tunnel.ForwardingAgrees
import AgentGather.Server.Paging
import AgentGather.Server.SingleClose
import AgentGather.Server.WaitDelivery
import AgentGather.Server.AutoContinue
import AgentGather.Server.Preference
import AgentGather.Server.Names
import AgentGather.Server.Listener
import AgentGather.Server.Exposure
import AgentGather.Server.RuntimePlan
import AgentGather.Server.RuntimeSecrecy
import AgentGather.Storage.SecureFsAtomic
import AgentGather.Storage.WriterLock
import AgentGather.Storage.LockRefinement
import AgentGather.Storage.LockExclusion
import AgentGather.Storage.LockRecovery
import AgentGather.Server.Mediation
