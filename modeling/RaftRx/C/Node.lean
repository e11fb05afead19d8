import RaftRx.Protocol.State
import Mathlib.Data.List.Basic
import Mathlib.Order.Lattice

/-!
The C node: its data and the helpers that read it (`raft.h`, the first part of `raft.c`).

A C string is the list of its characters, `int` is `ℤ` (a run in which a persisted `int` would
overflow has no defined behaviour and is no run of the model), an array with its count is a list.
`log` holds the live entries; what a read of the array outside them gives is the field `slots`,
which the environment may set at the beginning of every phase.

* `Command`, `LogEntry`, `Message`, `NodeConfig`, `ClusterConfiguration`, `Node`: the records;
* `Application`: the four callbacks, each of which may be missing;
* `Node.lastLogIndex` .. `Node.leaderAtIndex`: the index helpers;
* `normalizeMembers`, `Node.refreshPeers`: configurations;
* `Node.hasVoteQuorum`, `Node.replicatedOnMembers`: quorums.
-/

namespace RaftRx.C

open Protocol (Role)

/-! ### Records -/

/-- The characters before the terminating zero. -/
abbrev CString := List Char

instance : LawfulBEq CString := inferInstance

/-- `RAFT_MAX_NODES` -/
def maxNodes : ℕ := 8
/-- `RAFT_MAX_PEERS` -/
def maxPeers : ℕ := maxNodes - 1
/-- `RAFT_MAX_ID` -/
def maxId : ℕ := 16
/-- `RAFT_MAX_LOG` -/
def maxLog : ℕ := 128
/-- `RAFT_MAX_QUEUE` -/
def maxQueue : ℕ := 256
/-- `RAFT_MAX_BATCH` -/
def maxBatch : ℕ := 16
/-- `RAFT_MAX_KEY` -/
def maxKey : ℕ := 64
/-- `RAFT_MAX_VALUE` -/
def maxValue : ℕ := 128
/-- `RAFT_MAX_SNAPSHOT_SIZE` -/
def maxSnapshotSize : ℕ := 4096
/-- The size of `raft_command_t.op`. -/
def maxOp : ℕ := 32

/-- `strncpy(dst, src, size - 1)` into a zeroed buffer of `size` bytes. -/
def strncpy (size : ℕ) (src : CString) : CString := src.take (size - 1)

/-- `raft_membership_state_t` -/
inductive MembershipState where
  | stable | jointPending | joint | finalizing
  deriving DecidableEq, Repr

/-- `raft_message_kind_t` -/
inductive MessageKind where
  | requestVote | requestVoteResponse | appendEntries | appendEntriesResponse
  deriving DecidableEq, Repr

/-- `raft_command_t` -/
structure Command where
  op : CString
  key : CString
  value : CString
  deriving DecidableEq, Repr

/-- `raft_log_entry_t` -/
structure LogEntry where
  index : ℤ
  term : ℤ
  leaderId : CString
  command : Command
  deriving DecidableEq, Repr

/-- `raft_message_t`; a field that a sender does not set is zero. -/
structure Message where
  kind : MessageKind
  term : ℤ
  source : CString
  target : CString
  granted : Bool := false
  success : Bool := false
  prevLogIndex : ℤ := 0
  prevLogTerm : ℤ := 0
  prevLogLeaderId : CString := []
  leaderCommit : ℤ := 0
  matchIndex : ℤ := 0
  lastLogIndex : ℤ := 0
  lastLogTerm : ℤ := 0
  entries : List LogEntry := []
  deriving DecidableEq, Repr

/-- `raft_application_t`: a callback may be `NULL`.  `snapshot` returns the bytes it wrote, at
most as many as the buffer it is given has. -/
structure Application (σ : Type*) where
  apply : Option (σ → Command → σ)
  reload : Option (σ → σ)
  snapshot : Option (σ → { data : List UInt8 // data.length ≤ maxSnapshotSize })
  restoreSnapshot : Option (σ → List UInt8 → σ)

/-- `raft_node_config_t` -/
structure NodeConfig where
  nodeId : CString
  peers : List CString
  initialMembers : List CString
  learner : Bool
  electionTimeoutMs : ℤ
  heartbeatIntervalMs : ℤ
  deriving DecidableEq, Repr

/-- `raft_cluster_configuration_t` -/
structure ClusterConfiguration where
  oldMembers : List CString
  newMembers : List CString
  index : ℤ
  deriving DecidableEq, Repr

/-- `raft_node_t`, with the state of the application (`application.user`), the snapshot buffer of
its storage and the role of its machine. -/
structure Node (σ : Type*) where
  config : NodeConfig
  clockMs : ℤ
  user : σ
  snapshotBuf : List UInt8
  state : Role
  currentTerm : ℤ
  votedFor : CString
  log : List LogEntry
  slots : ℤ → LogEntry
  snapshotLastIncludedIndex : ℤ
  snapshotLastIncludedTerm : ℤ
  commitIndex : ℤ
  lastApplied : ℤ
  leaderId : CString
  compactionThreshold : ℤ
  running : Bool
  configState : ClusterConfiguration
  membershipState : MembershipState
  requestedMembership : List CString
  requestedMembershipPending : Bool
  jointConfigIndex : ℤ
  finalConfigIndex : ℤ
  votesReceived : List CString
  nextIndex : List ℤ
  matchIndex : List ℤ
  outbox : List Message
  pendingAppendEntries : List Message
  pendingVoteRequests : List Message
  pendingVotes : List Message
  persistDirty : Bool
  electionDeadlineMs : ℤ
  heartbeatDeadlineMs : ℤ

variable {σ : Type*}

namespace Node

/-! ### Log-index helpers -/

/-- `node_last_log_index` -/
def lastLogIndex (node : Node σ) : ℤ := node.snapshotLastIncludedIndex + node.log.length

/-- `node_last_log_term` -/
def lastLogTerm (node : Node σ) : ℤ :=
  match node.log.getLast? with
  | none => node.snapshotLastIncludedTerm
  | some entry => entry.term

/-- `node_log_base_index` -/
def logBaseIndex (node : Node σ) : ℤ := node.snapshotLastIncludedIndex + 1

/-- `node_physical_index` -/
def physicalIndex (node : Node σ) (index : ℤ) : ℤ := index - node.snapshotLastIncludedIndex - 1

/-- `node_has_log_index` -/
def hasLogIndex (node : Node σ) (index : ℤ) : Bool :=
  decide (node.logBaseIndex ≤ index) && decide (index ≤ node.lastLogIndex)

/-- `node->log[i]` -/
def slot (node : Node σ) (i : ℤ) : LogEntry :=
  if 0 ≤ i then (node.log[i.toNat]?).getD (node.slots i) else node.slots i

/-- `node->log[node_physical_index(node, index)]` -/
def entryAt (node : Node σ) (index : ℤ) : LogEntry := node.slot (node.physicalIndex index)

/-- `node_term_at_index` -/
def termAtIndex (node : Node σ) (index : ℤ) : ℤ :=
  if index = 0 then 0
  else if index = node.snapshotLastIncludedIndex then node.snapshotLastIncludedTerm
  else (node.entryAt index).term

/-- `node_leader_at_index` -/
def leaderAtIndex (node : Node σ) (index : ℤ) : CString :=
  if index ≤ 0 ∨ node.hasLogIndex index = false then [] else (node.entryAt index).leaderId

/-! ### Election timeout -/

/-- One round of FNV-1a. -/
def fnv1a (h x : UInt32) : UInt32 := (h ^^^ x) * 16777619

/-- `node_next_election_timeout` -/
def nextElectionTimeout (node : Node σ) : ℤ :=
  let base := node.config.electionTimeoutMs
  if base ≤ 1 then base
  else
    let h := node.config.nodeId.foldl (fun h c => fnv1a h (UInt32.ofNat (c.toNat % 256))) 2166136261
    let h := fnv1a h (UInt32.ofInt node.currentTerm)
    let h := fnv1a h (UInt32.ofInt node.clockMs)
    base + (h % UInt32.ofInt base).toNat

end Node

/-! ### Configuration helpers -/

/-- `configuration_is_joint` -/
def ClusterConfiguration.isJoint (config : ClusterConfiguration) : Bool :=
  decide (0 < config.newMembers.length)

/-- One step of the insertion sort of `normalize_members`: `rev` is the sorted prefix, last
element first, and `m` moves left past every larger element. -/
def sinkMember (m : CString) : List CString → List CString
  | [] => [m]
  | x :: rev => if m < x then x :: sinkMember m rev else m :: x :: rev

/-- `normalize_members` -/
def normalizeMembers (members : List CString) (capacity : ℕ) : List CString :=
  let out := members.foldl
    (fun out m =>
      if out.length < capacity ∧ m ≠ [] ∧ m ∉ out then out ++ [strncpy maxId m] else out) []
  (out.foldl (fun rev m => sinkMember m rev) []).reverse

/-- `configuration_set_stable` -/
def configurationSetStable (members : List CString) (index : ℤ) : ClusterConfiguration :=
  { oldMembers := normalizeMembers members maxNodes, newMembers := [], index := index }

/-- `configuration_set_joint` -/
def configurationSetJoint (oldMembers newMembers : List CString) (index : ℤ) :
    ClusterConfiguration :=
  { oldMembers := normalizeMembers oldMembers maxNodes
    newMembers := normalizeMembers newMembers maxNodes
    index := index }

/-- `member_majority` -/
def memberMajority (memberCount : ℕ) : ℕ := memberCount / 2 + 1

namespace Node

/-- `node_refresh_peers` -/
def refreshPeers (node : Node σ) : Node σ :=
  let peers := node.configState.oldMembers.foldl
    (fun peers m =>
      if peers.length < maxPeers ∧ m ≠ node.config.nodeId then peers ++ [strncpy maxId m]
      else peers) []
  let peers := node.configState.newMembers.foldl
    (fun peers m =>
      if peers.length < maxPeers ∧ m ≠ node.config.nodeId ∧ m ∉ peers then
        peers ++ [strncpy maxId m]
      else peers) peers
  { node with config := { node.config with peers := peers } }

/-- `node_self_is_member` -/
def selfIsMember (node : Node σ) : Bool :=
  node.configState.oldMembers.contains node.config.nodeId ||
    node.configState.newMembers.contains node.config.nodeId

/-- `node_is_leader` -/
def isLeader (node : Node σ) : Bool :=
  node.running && node.selfIsMember && decide (node.state = .leader)

/-- `node_peer_index`; `none` is `-1`. -/
def peerIndex (node : Node σ) (peerId : CString) : Option ℕ :=
  node.config.peers.findIdx? (· == peerId)

/-- `node_record_vote` -/
def recordVote (node : Node σ) (peerId : CString) : Node σ :=
  if peerId ∈ node.votesReceived then node
  else if node.votesReceived.length < maxPeers + 1 then
    { node with votesReceived := node.votesReceived ++ [strncpy maxId peerId] }
  else node

/-- `node_has_vote_quorum` -/
def hasVoteQuorum (node : Node σ) (members : List CString) : Bool :=
  decide (memberMajority members.length ≤ members.countP fun m => node.votesReceived.contains m)

/-- `node_queue_message` -/
def queueMessage (node : Node σ) (message : Message) : Node σ :=
  if node.outbox.length < maxQueue then { node with outbox := node.outbox ++ [message] } else node

/-- `node->match_index[node_peer_index(node, peer_id)]`, if there is such a peer. -/
def matchOf (node : Node σ) (peerId : CString) : Option ℤ :=
  (node.peerIndex peerId).map fun i => node.matchIndex.getD i 0

/-- `node_replicated_on_members` -/
def replicatedOnMembers (node : Node σ) (candidateIndex : ℤ) (members : List CString) : Bool :=
  decide (memberMajority members.length ≤ members.countP fun m =>
    if m = node.config.nodeId then decide (candidateIndex ≤ node.lastLogIndex)
    else match node.matchOf m with
      | none => false
      | some i => decide (candidateIndex ≤ i))

/-- `node_is_committed_under_current_configuration` -/
def isCommittedUnderCurrentConfiguration (node : Node σ) (candidateIndex : ℤ) : Bool :=
  node.replicatedOnMembers candidateIndex node.configState.oldMembers &&
    (!node.configState.isJoint ||
      node.replicatedOnMembers candidateIndex node.configState.newMembers)

/-- `node_joint_members_are_caught_up` -/
def jointMembersAreCaughtUp (node : Node σ) : Bool :=
  node.configState.isJoint && node.configState.newMembers.all fun m =>
    m == node.config.nodeId || match node.matchOf m with
      | none => false
      | some i => decide (node.lastLogIndex ≤ i)

end Node

end RaftRx.C
