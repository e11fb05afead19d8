import RaftRx.C.Storage

/-!
The phases of a tick and the life cycle of the C node (`raft.c`, from `raft_node_latch_inputs`
on).

* `Node.latchInputs`: incoming messages and client commands;
* `Guard`, `Action`, `raftTransitions`, `Node.transition`: the transition table as data and the
  first enabled row for the current role (the role is published, then the action runs);
* `Node.dumpOutputs`: commit, apply, drive the membership, compact, save and send, with the files
  it replaces, the messages it hands to the transport and the entries it applies;
* `Node.init`, `Node.stop`, `Node.start`, `Node.resetForJoin`, `Node.requestMembershipChange`.
-/

namespace RaftRx.C

open Protocol (Role)

variable {σ : Type*} (A : Application σ)

namespace Node

/-! ### Latching inputs -/

/-- The body of the receive loop. -/
def receive (node : Node σ) (m : Message) : Node σ :=
  match m.kind with
  | .appendEntries => { node with pendingAppendEntries := node.pendingAppendEntries ++ [m] }
  | .requestVote => { node with pendingVoteRequests := node.pendingVoteRequests ++ [m] }
  | .requestVoteResponse => { node with pendingVotes := node.pendingVotes ++ [m] }
  | .appendEntriesResponse => node.handleAppendEntriesResponse m

/-- The entry a leader makes of a client command. -/
def clientEntry (node : Node σ) (command : Command) : LogEntry :=
  { index := node.lastLogIndex + 1
    term := node.currentTerm
    leaderId := strncpy maxId node.config.nodeId
    command := command }

/-- The body of the loop over client commands; it stops when the log is full. -/
def appendClientCommand (node : Node σ) (command : Command) : Node σ :=
  if node.log.length < maxLog then
    broadcastAppendEntries
      { node with log := node.log ++ [node.clientEntry command], persistDirty := true }
  else node

/-- `raft_node_latch_inputs`: at most `maxQueue` messages and commands are received. -/
def latchInputs (node : Node σ) (messages : List Message) (commands : List Command) : Node σ :=
  let node :=
    { node with pendingAppendEntries := [], pendingVoteRequests := [], pendingVotes := [] }
  if node.running = false then { node with outbox := [] }
  else
    let node := (messages.take maxQueue).foldl receive node
    if node.isLeader then (commands.take maxQueue).foldl appendClientCommand node else node

/-! ### Guards and actions -/

end Node

/-- The guards of the transition table. -/
inductive Guard where
  | timeoutExpired | hasAppendEntries | hasVoteRequest | hasHigherTermVoteRequest | hasVote
  | receivedMajorityVotes | timeForHeartbeat
  deriving DecidableEq, Repr

/-- The actions of the transition table. -/
inductive Action where
  | becomeCandidate | handleAppendEntries | handleVoteRequest | ignoreVote
  | backToFollowerDueToTimeout | becomeLeader | handleVote | ignoreVoteRequest | sendHeartbeat
  deriving DecidableEq, Repr

/-- A row of the table. -/
structure Transition where
  source : Role
  target : Role
  guard : Guard
  action : Action
  deriving DecidableEq, Repr

/-- `RAFT_TRANSITIONS` -/
def raftTransitions : List Transition :=
  [⟨.follower, .candidate, .timeoutExpired, .becomeCandidate⟩,
   ⟨.follower, .follower, .hasAppendEntries, .handleAppendEntries⟩,
   ⟨.follower, .follower, .hasVoteRequest, .handleVoteRequest⟩,
   ⟨.follower, .follower, .hasVote, .ignoreVote⟩,
   ⟨.candidate, .follower, .timeoutExpired, .backToFollowerDueToTimeout⟩,
   ⟨.candidate, .leader, .receivedMajorityVotes, .becomeLeader⟩,
   ⟨.candidate, .follower, .hasAppendEntries, .handleAppendEntries⟩,
   ⟨.candidate, .follower, .hasHigherTermVoteRequest, .handleVoteRequest⟩,
   ⟨.candidate, .candidate, .hasVoteRequest, .handleVoteRequest⟩,
   ⟨.candidate, .candidate, .hasVote, .handleVote⟩,
   ⟨.leader, .follower, .hasAppendEntries, .handleAppendEntries⟩,
   ⟨.leader, .follower, .hasHigherTermVoteRequest, .handleVoteRequest⟩,
   ⟨.leader, .leader, .hasVoteRequest, .ignoreVoteRequest⟩,
   ⟨.leader, .leader, .hasVote, .ignoreVote⟩,
   ⟨.leader, .leader, .timeForHeartbeat, .sendHeartbeat⟩]

namespace Node

/-- `guard_timeout_expired` -/
def guardTimeoutExpired (node : Node σ) : Bool :=
  node.running && node.selfIsMember && decide (node.electionDeadlineMs ≤ node.clockMs)

/-- `guard_has_append_entries` -/
def guardHasAppendEntries (node : Node σ) : Bool := !node.pendingAppendEntries.isEmpty

/-- `guard_has_vote_request` -/
def guardHasVoteRequest (node : Node σ) : Bool := !node.pendingVoteRequests.isEmpty

/-- `guard_has_higher_term_vote_request` -/
def guardHasHigherTermVoteRequest (node : Node σ) : Bool :=
  match node.pendingVoteRequests with
  | [] => false
  | m :: _ => decide (node.currentTerm < m.term)

/-- `guard_has_vote` -/
def guardHasVote (node : Node σ) : Bool := !node.pendingVotes.isEmpty

/-- `guard_received_majority_votes` -/
def guardReceivedMajorityVotes (node : Node σ) : Bool :=
  node.hasVoteQuorum node.configState.oldMembers &&
    (!node.configState.isJoint || node.hasVoteQuorum node.configState.newMembers)

/-- `guard_time_for_heartbeat` -/
def guardTimeForHeartbeat (node : Node σ) : Bool :=
  decide (node.heartbeatDeadlineMs ≤ node.clockMs)

/-- The guard of a row. -/
def holds (node : Node σ) : Guard → Bool
  | .timeoutExpired => node.guardTimeoutExpired
  | .hasAppendEntries => node.guardHasAppendEntries
  | .hasVoteRequest => node.guardHasVoteRequest
  | .hasHigherTermVoteRequest => node.guardHasHigherTermVoteRequest
  | .hasVote => node.guardHasVote
  | .receivedMajorityVotes => node.guardReceivedMajorityVotes
  | .timeForHeartbeat => node.guardTimeForHeartbeat

/-- The vote request a candidate sends to a peer. -/
def voteRequestTo (node : Node σ) (peerId : CString) : Message :=
  { kind := .requestVote
    term := node.currentTerm
    source := strncpy maxId node.config.nodeId
    target := strncpy maxId peerId
    lastLogIndex := node.lastLogIndex
    lastLogTerm := node.lastLogTerm }

/-- `action_become_candidate` -/
def becomeCandidate (node : Node σ) : Node σ :=
  let node :=
    { node with
      currentTerm := node.currentTerm + 1
      votedFor := strncpy maxId node.config.nodeId
      votesReceived := [] }
  let node := node.recordVote node.config.nodeId
  let node := { node with leaderId := [], persistDirty := true }
  let node := { node with electionDeadlineMs := node.clockMs + node.nextElectionTimeout }
  node.config.peers.foldl (fun node peer => node.queueMessage (node.voteRequestTo peer)) node

/-- `action_handle_append_entries` -/
def actionHandleAppendEntries (node : Node σ) : Node σ :=
  match node.pendingAppendEntries with
  | [] => node
  | m :: rest => handleAppendEntries A { node with pendingAppendEntries := rest } m

/-- `action_handle_vote_request` -/
def actionHandleVoteRequest (node : Node σ) : Node σ :=
  match node.pendingVoteRequests with
  | [] => node
  | m :: rest => handleVoteRequest { node with pendingVoteRequests := rest } m

/-- `action_ignore_vote` -/
def ignoreVote (node : Node σ) : Node σ := { node with pendingVotes := node.pendingVotes.drop 1 }

/-- `action_back_to_follower_due_to_timeout` -/
def backToFollowerDueToTimeout (node : Node σ) : Node σ :=
  { node with
    votesReceived := []
    leaderId := []
    electionDeadlineMs := node.clockMs + node.nextElectionTimeout }

/-- `action_become_leader` -/
def becomeLeader (node : Node σ) : Node σ :=
  let count := node.config.peers.length
  let node :=
    { node with
      leaderId := strncpy maxId node.config.nodeId
      nextIndex := List.replicate count (max (node.lastLogIndex + 1) node.logBaseIndex) ++
        node.nextIndex.drop count
      matchIndex := List.replicate count 0 ++ node.matchIndex.drop count }
  let node := node.broadcastAppendEntries
  { node with heartbeatDeadlineMs := node.clockMs + node.config.heartbeatIntervalMs }

/-- `action_handle_vote` -/
def actionHandleVote (node : Node σ) : Node σ :=
  match node.pendingVotes with
  | [] => node
  | m :: rest => handleVoteResponse { node with pendingVotes := rest } m

/-- `action_ignore_vote_request` -/
def ignoreVoteRequest (node : Node σ) : Node σ :=
  { node with pendingVoteRequests := node.pendingVoteRequests.drop 1 }

/-- `action_send_heartbeat` -/
def sendHeartbeat (node : Node σ) : Node σ :=
  let node := node.broadcastAppendEntries
  { node with heartbeatDeadlineMs := node.clockMs + node.config.heartbeatIntervalMs }

/-- The action of a row. -/
def perform (node : Node σ) : Action → Node σ
  | .becomeCandidate => node.becomeCandidate
  | .handleAppendEntries => node.actionHandleAppendEntries A
  | .handleVoteRequest => node.actionHandleVoteRequest
  | .ignoreVote => node.ignoreVote
  | .backToFollowerDueToTimeout => node.backToFollowerDueToTimeout
  | .becomeLeader => node.becomeLeader
  | .handleVote => node.actionHandleVote
  | .ignoreVoteRequest => node.ignoreVoteRequest
  | .sendHeartbeat => node.sendHeartbeat

/-- The first row for the current role whose guard holds. -/
def enabled (node : Node σ) : Option Transition :=
  raftTransitions.find? fun row => decide (row.source = node.state) && node.holds row.guard

/-- The transition of a tick. -/
def transition (node : Node σ) : Node σ :=
  match node.enabled with
  | some row => perform A { node with state := row.target } row.action
  | none => node

end Node

/-! ### Dumping outputs -/

/-- What `raft_node_dump_outputs` leaves behind: the node, the files it replaces, the messages it
sends, in order, and the entries it passes to `node_apply_command`. -/
structure Dump (σ : Type*) where
  node : Node σ
  writes : List Write
  sends : List Message
  applied : List (ℤ × LogEntry)

namespace Node

/-- The node after the apply loop, and the entries it applied. -/
def commitAndApply (node : Node σ) : Node σ × List (ℤ × LogEntry) :=
  let node := if node.isLeader then node.advanceCommitIndex else node
  node.applyCommitted A (node.commitIndex - node.lastApplied).toNat

/-- The compaction of a tick, and the snapshot it saves. -/
def maybeCompact (node : Node σ) : Node σ × Option SnapshotFile :=
  if node.shouldCompact then node.doCompact A else (node, none)

/-- The files a tick replaces at its end. -/
def maybeSave (node : Node σ) : List Write := if node.persistDirty then save node else []

/-- `raft_node_dump_outputs` -/
def dumpOutputs (node : Node σ) : Dump σ :=
  if node.running = false then
    { node := { node with outbox := [] }, writes := [], sends := [], applied := [] }
  else
    let (node, applied) := node.commitAndApply A
    let node := node.maybeDriveMembership
    let (node, snapshot) := node.maybeCompact A
    { node := { node with persistDirty := false, outbox := [] }
      writes := (snapshot.map Write.snapshot).toList ++ node.maybeSave
      sends := node.outbox
      applied := applied }

/-! ### Life cycle -/

/-- The configuration a node without a stored one starts from. -/
def fallbackConfig (node : Node σ) : ClusterConfiguration :=
  if node.config.initialMembers ≠ [] then configurationSetStable node.config.initialMembers 0
  else
    configurationSetStable
      (((node.config.nodeId :: node.config.peers).take maxNodes).map (strncpy maxId)) 0

/-- The test for the fallback: no stored configuration, no learner and an empty log. -/
def needsFallback (node : Node σ) : Bool :=
  node.configState.oldMembers.isEmpty && !node.config.learner && node.log.isEmpty

/-- A node with all fields zero. -/
def zero (config : NodeConfig) (user : σ) (clockMs : ℤ) : Node σ :=
  { config := config, clockMs := clockMs, user := user, snapshotBuf := [], state := .follower
    currentTerm := 0, votedFor := [], log := [], slots := fun _ => ⟨0, 0, [], ⟨[], [], []⟩⟩
    snapshotLastIncludedIndex := 0, snapshotLastIncludedTerm := 0, commitIndex := 0
    lastApplied := 0, leaderId := [], compactionThreshold := maxLog, running := true
    configState := ⟨[], [], 0⟩, membershipState := .stable, requestedMembership := []
    requestedMembershipPending := false, jointConfigIndex := 0, finalConfigIndex := 0
    votesReceived := [], nextIndex := List.replicate maxPeers 0
    matchIndex := List.replicate maxPeers 0, outbox := [], pendingAppendEntries := []
    pendingVoteRequests := [], pendingVotes := [], persistDirty := false
    electionDeadlineMs := 0, heartbeatDeadlineMs := 0 }

/-- A learner forgets what was stored. -/
def forget (node : Node σ) : Node σ :=
  { node with
    configState := ⟨[], [], 0⟩
    log := []
    commitIndex := 0
    lastApplied := 0
    snapshotLastIncludedIndex := 0
    snapshotLastIncludedTerm := 0
    currentTerm := 0
    votedFor := [] }

/-- `raft_node_init` -/
def init (config : NodeConfig) (disk : Disk) (user : σ) (clockMs : ℤ) : Node σ :=
  let node := (Node.zero config user clockMs).load A disk
  let node :=
    if node.compactionThreshold ≤ 0 then { node with compactionThreshold := maxLog } else node
  let node := if config.learner then { node.forget with persistDirty := true } else node
  let node :=
    if node.needsFallback then { node with configState := node.fallbackConfig } else node
  let node :=
    { node with membershipState := if node.configState.isJoint then .joint else .stable }
  let node := node.refreshPeers
  { node with
    electionDeadlineMs := clockMs + node.nextElectionTimeout +
      (if 0 < node.currentTerm then 2 * config.electionTimeoutMs else 0)
    heartbeatDeadlineMs := clockMs + config.heartbeatIntervalMs }

/-- `raft_node_stop` -/
def stop (node : Node σ) : Node σ :=
  { node with
    running := false, outbox := [], pendingAppendEntries := [], pendingVoteRequests := []
    pendingVotes := [], state := .follower }

/-- `raft_node_start` -/
def start (node : Node σ) (disk : Disk) : Node σ :=
  let node := node.load A disk
  let node :=
    if node.needsFallback then refreshPeers { node with configState := node.fallbackConfig }
    else node
  { node with
    running := true
    state := .follower
    electionDeadlineMs := node.clockMs + node.nextElectionTimeout +
      2 * node.config.electionTimeoutMs }

/-- `raft_node_reset_for_join`: the node and the files it saves. -/
def resetForJoin (node : Node σ) : Node σ × List Write :=
  let node :=
    { node.forget with
      leaderId := [], votesReceived := [], pendingAppendEntries := [], pendingVoteRequests := []
      pendingVotes := [], outbox := [], config := { node.config with learner := true }
      membershipState := .stable }
  let node := { node.refreshPeers with running := true, state := .follower }
  let node :=
    { node with
      electionDeadlineMs := node.clockMs + node.nextElectionTimeout +
        2 * node.config.electionTimeoutMs
      heartbeatDeadlineMs := node.clockMs + node.config.heartbeatIntervalMs
      persistDirty := false }
  (node, save node)

/-- `raft_node_request_membership_change`: the node and the returned code. -/
def requestMembershipChange (node : Node σ) (members : List CString) : Node σ × ℤ :=
  if node.isLeader = false then (node, -1)
  else
    let node := { node with requestedMembership := normalizeMembers members maxNodes }
    if node.requestedMembership = [] then (node, -1)
    else ({ node with requestedMembershipPending := true }, 0)

end Node

end RaftRx.C
