import RaftRx.C.Node

/-!
Replication and message handling of the C node (`raft.c`, from `node_send_append_entries_to` to
`node_handle_append_entries_response`).

Every handler is a function on nodes.  Loops over arrays are folds; the search of
`node_advance_commit_index` goes through the candidate indices from the last one down.
-/

namespace RaftRx.C

open Protocol (Role)

variable {σ : Type*} (A : Application σ)

namespace Node

/-! ### Replication -/

/-- `node_send_append_entries_to` -/
def sendAppendEntriesTo (node : Node σ) (peerId : CString) : Node σ :=
  let nextIdx := match node.peerIndex peerId with
    | some i => node.nextIndex.getD i 0
    | none => node.lastLogIndex + 1
  let nextIdx := if nextIdx < node.logBaseIndex then node.logBaseIndex else nextIdx
  let prevIndex := nextIdx - 1
  -- the loop copies live entries only: `nextIdx` is not below the base of the log
  let entries := (node.log.drop (node.physicalIndex nextIdx).toNat).take maxBatch
  node.queueMessage
    { kind := .appendEntries
      term := node.currentTerm
      source := strncpy maxId node.config.nodeId
      target := strncpy maxId peerId
      prevLogIndex := prevIndex
      prevLogTerm := node.termAtIndex prevIndex
      prevLogLeaderId := strncpy maxId (node.leaderAtIndex prevIndex)
      leaderCommit := node.commitIndex
      entries := entries }

/-- `node_broadcast_append_entries` -/
def broadcastAppendEntries (node : Node σ) : Node σ :=
  node.config.peers.foldl sendAppendEntriesTo node

/-- `node_candidate_is_up_to_date` -/
def candidateIsUpToDate (node : Node σ) (message : Message) : Bool :=
  if message.lastLogTerm ≠ node.lastLogTerm then decide (node.lastLogTerm < message.lastLogTerm)
  else decide (node.lastLogIndex ≤ message.lastLogIndex)

/-- The indices `node_advance_commit_index` tries, from the last one down to the one after the
commit index. -/
def commitCandidates (node : Node σ) : List ℤ :=
  (List.range (node.lastLogIndex - node.commitIndex).toNat).map fun i : ℕ =>
    node.lastLogIndex - (i : ℤ)

/-- `node_advance_commit_index` -/
def advanceCommitIndex (node : Node σ) : Node σ :=
  match node.commitCandidates.find? fun idx =>
      decide (node.termAtIndex idx = node.currentTerm) &&
        node.isCommittedUnderCurrentConfiguration idx with
  | some idx => { node with commitIndex := idx, persistDirty := true }
  | none => node

/-! ### Message handling -/

/-- `node_handle_term_update` -/
def handleTermUpdate (node : Node σ) (message : Message) : Node σ :=
  if node.currentTerm < message.term then
    { node with currentTerm := message.term, votedFor := [], leaderId := [], persistDirty := true }
  else node

/-- The test of `node_handle_vote_request`, made after the term update. -/
def grantsVote (node : Node σ) (message : Message) : Bool :=
  node.selfIsMember && decide (message.term = node.currentTerm) &&
    (decide (node.votedFor = []) || decide (node.votedFor = message.source)) &&
    node.candidateIsUpToDate message

/-- What `node_handle_vote_request` records when it grants the vote. -/
def castVote (node : Node σ) (message : Message) : Node σ :=
  let node := { node with votedFor := strncpy maxId message.source }
  { node with
    electionDeadlineMs := node.clockMs + node.nextElectionTimeout, persistDirty := true }

/-- The reply of `node_handle_vote_request`. -/
def voteResponse (node : Node σ) (message : Message) (granted : Bool) : Message :=
  { kind := .requestVoteResponse
    term := node.currentTerm
    source := strncpy maxId node.config.nodeId
    target := strncpy maxId message.source
    granted := granted }

/-- `node_handle_vote_request` -/
def handleVoteRequest (node : Node σ) (message : Message) : Node σ :=
  let node := node.handleTermUpdate message
  let granted := node.grantsVote message
  let node := if granted then node.castVote message else node
  node.queueMessage (node.voteResponse message granted)

/-- The four checks of the previous entry in `node_append_entries_from_leader`. -/
def prevMatches (node : Node σ) (message : Message) : Bool :=
  decide (node.snapshotLastIncludedIndex ≤ message.prevLogIndex) &&
  decide (message.prevLogIndex ≤ node.lastLogIndex) &&
  !(decide (0 < message.prevLogIndex) &&
    decide (node.termAtIndex message.prevLogIndex ≠ message.prevLogTerm)) &&
  !(decide (0 < message.prevLogIndex) && decide (message.prevLogLeaderId ≠ []) &&
    node.hasLogIndex message.prevLogIndex &&
    decide (node.leaderAtIndex message.prevLogIndex ≠ message.prevLogLeaderId))

/-- The conflict test of the merge loop. -/
def conflicts (node : Node σ) (entry : LogEntry) : Bool :=
  decide (node.termAtIndex entry.index ≠ entry.term) ||
    (decide (entry.leaderId ≠ []) && decide (node.leaderAtIndex entry.index ≠ entry.leaderId))

/-- The end of the merge loop: append the entry if it is the next one and there is room. -/
def appendNext (node : Node σ) (entry : LogEntry) : Node σ :=
  if entry.index = node.lastLogIndex + 1 ∧ node.log.length < maxLog then
    { node with log := node.log ++ [entry], persistDirty := true }
  else node

/-- One turn of the merge loop, with the flag `rebuild_applied_state`. -/
def mergeEntry (acc : Node σ × Bool) (entry : LogEntry) : Node σ × Bool :=
  let (node, rebuild) := acc
  if entry.index ≤ node.snapshotLastIncludedIndex then (node, rebuild)
  else if node.hasLogIndex entry.index then
    if node.conflicts entry then
      let rebuild := rebuild || decide (entry.index ≤ node.lastApplied)
      let node :=
        { node with
          log := node.log.take (node.physicalIndex entry.index).toNat, persistDirty := true }
      (node.appendNext entry, rebuild)
    else (node, rebuild)
  else (node.appendNext entry, rebuild)

/-- The application is put back to the snapshot or to the empty state. -/
def resetApplication (node : Node σ) : Node σ :=
  if 0 < node.snapshotLastIncludedIndex ∧ 0 < node.snapshotBuf.length then
    match A.restoreSnapshot with
    | some restore => { node with user := restore node.user node.snapshotBuf }
    | none => node
  else
    match A.reload with
    | some reload => { node with user := reload node.user }
    | none => node

/-- The end of `node_append_entries_from_leader`: commit index and applied state. -/
def settleCommit (node : Node σ) (message : Message) (rebuild : Bool) : Node σ :=
  if rebuild then
    let node := { node with commitIndex := min message.leaderCommit node.lastLogIndex }
    let node := node.resetApplication A
    { node with lastApplied := node.snapshotLastIncludedIndex, persistDirty := true }
  else if node.commitIndex < message.leaderCommit then
    { node with commitIndex := min message.leaderCommit node.lastLogIndex, persistDirty := true }
  else if node.lastLogIndex < node.commitIndex then
    { node with commitIndex := node.lastLogIndex, persistDirty := true }
  else node

/-- `node_append_entries_from_leader` -/
def appendEntriesFromLeader (node : Node σ) (message : Message) : Node σ × Bool :=
  if node.prevMatches message then
    let (node, rebuild) := message.entries.foldl mergeEntry (node, false)
    (node.settleCommit A message rebuild, true)
  else (node, false)

/-- The reply of `node_handle_append_entries`. -/
def appendResponse (node : Node σ) (message : Message) (success : Bool) : Message :=
  { kind := .appendEntriesResponse
    term := node.currentTerm
    source := strncpy maxId node.config.nodeId
    target := strncpy maxId message.source
    success := success
    matchIndex := node.lastLogIndex }

/-- What `node_handle_append_entries` notes about a leader of the current term. -/
def hearLeader (node : Node σ) (message : Message) : Node σ :=
  { node with
    leaderId := strncpy maxId message.source
    electionDeadlineMs := node.clockMs + node.nextElectionTimeout }

/-- `node_handle_append_entries` -/
def handleAppendEntries (node : Node σ) (message : Message) : Node σ :=
  let node := node.handleTermUpdate message
  let (node, success) :=
    if message.term = node.currentTerm then
      (node.hearLeader message).appendEntriesFromLeader A message
    else (node, false)
  node.queueMessage (node.appendResponse message success)

/-- `node_handle_vote_response` -/
def handleVoteResponse (node : Node σ) (message : Message) : Node σ :=
  let node := node.handleTermUpdate message
  if node.selfIsMember = false ∨ node.state ≠ .candidate ∨ message.term ≠ node.currentTerm then node
  else if message.granted then node.recordVote message.source
  else node

/-- `node_handle_append_entries_response` -/
def handleAppendEntriesResponse (node : Node σ) (message : Message) : Node σ :=
  let node := node.handleTermUpdate message
  if node.state ≠ .leader ∨ message.term ≠ node.currentTerm then node
  else match node.peerIndex message.source with
    | none => node
    | some i =>
      if message.success then
        advanceCommitIndex
          { node with
            matchIndex := node.matchIndex.set i message.matchIndex
            nextIndex := node.nextIndex.set i (message.matchIndex + 1) }
      else
        let node :=
          if node.logBaseIndex < node.nextIndex.getD i 0 then
            { node with nextIndex := node.nextIndex.set i (node.nextIndex.getD i 0 - 1) }
          else node
        node.sendAppendEntriesTo message.source

end Node

end RaftRx.C
