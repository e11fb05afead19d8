import RaftRx.Library.Majority
import RaftRx.Library.Runs
import RaftRx.Library.Mailbox
import RaftRx.Library.Buffers
import RaftRx.Library.Text
import RaftRx.Library.Utf8
import RaftRx.Protocol.State
import RaftRx.Protocol.Ballots
import RaftRx.Protocol.Election
import RaftRx.Protocol.Logs
import RaftRx.Protocol.Commit
import RaftRx.Protocol.Local
import RaftRx.C.Node
import RaftRx.C.Handlers
import RaftRx.C.Membership
import RaftRx.C.Storage
import RaftRx.C.Tick
import RaftRx.C.System
import RaftRx.C.RoundTrip
import RaftRx.C.Frames
import RaftRx.C.View
import RaftRx.C.Quorums
import RaftRx.C.LogMoves
import RaftRx.C.Roles
import RaftRx.C.Dump
import RaftRx.C.Hosts
import RaftRx.C.Turns
import RaftRx.C.AppendMerge
import RaftRx.C.Reload
import RaftRx.C.CompactedLog
import RaftRx.C.KvApp
import RaftRx.C.KvSnapshot
import RaftRx.C.Clusters
import RaftRx.C.ElectionSafety
import RaftRx.C.VoteUniqueness
import RaftRx.C.StateMachineSafety
import RaftRx.C.WriteAhead
import RaftRx.C.AppliedState
import RaftRx.C.MemberLists
import RaftRx.C.Configurations
import RaftRx.C.JointLeave
import RaftRx.C.AppliedConfiguration
import RaftRx.C.AwaitedEntry
import RaftRx.C.MembershipRequests
import RaftRx.C.CompactionCrash
import RaftRx.C.Spelling
import RaftRx.C.Durable
import RaftRx.C.Cursors
import RaftRx.C.Accesses
import RaftRx.C.AccessSafety
import RaftRx.C.FoundedHosts
import RaftRx.C.CompactionBound
import RaftRx.Library.Sequences
import RaftRx.Library.Overlay
import RaftRx.Python.Node
import RaftRx.Python.Handlers
import RaftRx.Python.Machines
import RaftRx.Python.System
import RaftRx.Python.Turns
import RaftRx.Python.Compaction
import RaftRx.Python.RestartReplay
import RaftRx.Python.KvApp
import RaftRx.Python.JointMembers
import RaftRx.Python.ApplyFailure
import RaftRx.Agreement.KvStores
import RaftRx.Agreement.Handlers
import RaftRx.C.SnapshotFaith
import RaftRx.C.TornSave
import RaftRx.Agreement.Members
import RaftRx.C.MemoryTransport
import RaftRx.C.CommandIntake
import RaftRx.C.LearnerStart
import RaftRx.C.MqttJoins
import RaftRx.Library.InPlace
import RaftRx.C.PeerTable
import RaftRx.Python.View
import RaftRx.Python.Hosts
import RaftRx.Python.Clusters
import RaftRx.Python.Safety
import RaftRx.Python.CommitQuorum
import RaftRx.Python.Cursors
import RaftRx.Python.TickSafety
import RaftRx.Library.Backoff
import RaftRx.Library.Words
import RaftRx.Library.Streams
import RaftRx.Library.Ring
import RaftRx.Protocol.Completeness
import RaftRx.Library.Replicas
import RaftRx.C.Completeness
import RaftRx.C.Replicas
import RaftRx.C.CatchUp
import RaftRx.C.InProcess
import RaftRx.C.TcpFrames
import RaftRx.C.SnapshotBytes
import RaftRx.C.MqttRing
import RaftRx.C.Tenure
import RaftRx.C.Campaign
import RaftRx.Python.Completeness
import RaftRx.Python.WriteAhead
import RaftRx.Python.Replicas
import RaftRx.Python.InProcess
import RaftRx.Python.CatchUp
