import RaftRx.Python.Storage

/-!
The message handlers of a Python node, its replication and its actions (`node.py`).

* `Node.handleTermUpdate`, `Node.handleRequestVote`, `Node.handleRequestVoteResponse`: elections;
* `Node.sendAppendEntries`, `Node.advanceCommitIndex`, `Node.appendClientCommand`: a leader;
* `Node.mergeEntries`, `Node.appendEntriesFromLeader`: a follower takes a batch;
* `Node.becomeCandidate`, `Node.becomeLeader`: the actions that change the role.
-/

namespace RaftRx.Python

open Protocol (Role)

variable {σ ν : Type}

namespace Node

/-! ### Terms and votes -/

/-- `_step_down_to_follower` -/
def stepDownToFollower (x : Node σ ν) : Node σ ν :=
  { x with
    votesReceived := []
    role := .follower
    electionDeadlineMs := x.clockMs + x.nextElectionTimeoutMs
    lastContactMs := x.clockMs }

/-- `_handle_term_update` -/
def handleTermUpdate (x : Node σ ν) (m : Message) : Node σ ν :=
  if x.currentTerm < m.term then
    stepDownToFollower
      { x with currentTerm := m.term, votedFor := none, leaderId := none, persistDirty := true }
  else x

/-- The deadline is moved on contact. -/
def contact (x : Node σ ν) : Node σ ν :=
  { x with
    electionDeadlineMs := x.clockMs + x.nextElectionTimeoutMs
    lastContactMs := x.clockMs }

/-- The test of `_handle_request_vote`. -/
def grantsVote (x : Node σ ν) (m : Message) : Bool :=
  x.isVotingMember && decide (m.term = x.currentTerm) &&
    decide (x.votedFor = none ∨ x.votedFor = some m.source) && x.candidateIsUpToDate m

/-- `_handle_request_vote` after the term update. -/
def answerRequestVote (x : Node σ ν) (m : Message) : Node σ ν :=
  let granted := x.grantsVote m
  let x := if granted then contact { x with votedFor := some m.source, persistDirty := true } else x
  { x with
    outbox := x.outbox ++
      [{ kind := .requestVoteResponse, term := x.currentTerm, source := x.config.nodeId
         target := m.source, granted := granted }] }

/-- `_handle_request_vote` -/
def handleRequestVote (x : Node σ ν) (m : Message) : Node σ ν :=
  (x.handleTermUpdate m).answerRequestVote m

/-- `_handle_request_vote_response` after the term update. -/
def collectVote (x : Node σ ν) (m : Message) : Node σ ν :=
  if x.isVotingMember = false ∨ x.role ≠ .candidate ∨ m.term ≠ x.currentTerm then x
  else if m.granted then
    { x with
      votesReceived :=
        if m.source ∈ x.votesReceived then x.votesReceived else x.votesReceived ++ [m.source] }
  else x

/-- `_handle_request_vote_response` -/
def handleRequestVoteResponse (x : Node σ ν) (m : Message) : Node σ ν :=
  (x.handleTermUpdate m).collectVote m

/-! ### Replication -/

/-- `0 if prev_index == 0 else self._term_at_index(prev_index)` -/
def prevTermAt (x : Node σ ν) (prevIndex : ℤ) : Option ℤ :=
  if prevIndex = 0 then some 0 else x.termAtIndex prevIndex

/-- `_send_append_entries` -/
def sendAppendEntries (x : Node σ ν) (peer : Str) : Option (Node σ ν) := do
  let nextIndex := max ((x.nextIndex.get peer).getD (x.lastLogIndex + 1)) x.logBaseIndex
  let prevIndex := nextIndex - 1
  let prevTerm ← x.prevTermAt prevIndex
  let prevLeaderId ← x.leaderAtIndex prevIndex
  some { x with
    outbox := x.outbox ++
      [{ kind := .appendEntries, term := x.currentTerm, source := x.config.nodeId, target := peer
         prevLogIndex := prevIndex, prevLogTerm := prevTerm, prevLogLeaderId := prevLeaderId
         entries := x.entriesFrom nextIndex, leaderCommit := x.commitIndex }] }

/-- `_broadcast_append_entries` -/
def broadcastAppendEntries (x : Node σ ν) : Option (Node σ ν) :=
  x.peers.foldlM sendAppendEntries x

/-- The loop of `_advance_commit_index` over the candidates `commit_index + k`, largest first. -/
def advanceFrom (x : Node σ ν) : ℕ → Option (Node σ ν)
  | 0 => some x
  | k + 1 => do
      let candidateIndex := x.commitIndex + (k + 1 : ℕ)
      let term ← x.termAtIndex candidateIndex
      if term ≠ x.currentTerm then x.advanceFrom k
      else if x.isCommittedUnderCurrentConfiguration candidateIndex then
        some { x with commitIndex := candidateIndex, persistDirty := true }
      else x.advanceFrom k

/-- `_advance_commit_index` -/
def advanceCommitIndex (x : Node σ ν) : Option (Node σ ν) :=
  x.advanceFrom (x.lastLogIndex - x.commitIndex).toNat

/-- The part of `_handle_append_entries_response` before the commit index is advanced. -/
def recordMatch (x : Node σ ν) (m : Message) : Node σ ν :=
  { x with
    matchIndex := x.matchIndex.set m.source m.matchIndex
    nextIndex := x.nextIndex.set m.source (m.matchIndex + 1) }

/-- The next index of a peer that refused a batch; a source without one is a `KeyError`. -/
def backOff (x : Node σ ν) (peer : Str) : Option (Node σ ν) :=
  (x.nextIndex.get peer).map fun next =>
    { x with nextIndex := x.nextIndex.set peer (max 1 (next - 1)) }

/-- `_handle_append_entries_response` after the term update. -/
def takeAnswer (x : Node σ ν) (m : Message) : Option (Node σ ν) :=
  if x.role ≠ .leader ∨ m.term ≠ x.currentTerm then some x
  else if m.success then (x.recordMatch m).advanceCommitIndex
  else (x.backOff m.source).bind fun y => y.sendAppendEntries m.source

/-- `_handle_append_entries_response` -/
def handleAppendEntriesResponse (x : Node σ ν) (m : Message) : Option (Node σ ν) :=
  (x.handleTermUpdate m).takeAnswer m

/-- The part of `_append_client_command` before the commit index is advanced. -/
def appendEntry (x : Node σ ν) (command : Command) : Node σ ν :=
  let entry : LogEntry :=
    { index := x.lastLogIndex + 1, term := x.currentTerm, command := command
      leaderId := x.config.nodeId }
  { x with
    log := x.log ++ [entry], persistDirty := true
    matchIndex := x.matchIndex.set x.config.nodeId entry.index }

/-- `_append_client_command` -/
def appendClientCommand (x : Node σ ν) (command : Command) : Option (Node σ ν) :=
  (x.appendEntry command).advanceCommitIndex.bind broadcastAppendEntries

/-! ### Taking a batch -/

/-- `if entry.index == self._last_log_index() + 1: self.log.append(entry)` -/
def appendIfNext (x : Node σ ν) (e : LogEntry) : Node σ ν :=
  if e.index = x.lastLogIndex + 1 then { x with log := x.log ++ [e], persistDirty := true } else x

/-- Whether an entry of the batch conflicts with the entry the log has at its index. -/
def conflicts (x : Node σ ν) (e : LogEntry) : Option Bool := do
  let term ← x.termAtIndex e.index
  if term ≠ e.term then some true
  else if e.leaderId ≠ [] then (x.leaderAtIndex e.index).map fun id => decide (id ≠ e.leaderId)
  else some false

/-- One entry of the batch; the flag is `rebuild_applied_state`. -/
def mergeEntry (r : Node σ ν × Bool) (e : LogEntry) : Option (Node σ ν × Bool) :=
  let (x, rebuild) := r
  if e.index ≤ x.snapshotLastIncludedIndex then some r
  else if x.hasLogIndex e.index then do
    let conflict ← x.conflicts e
    if conflict then
      let y := { x.truncateLogSuffixFrom e.index with persistDirty := true }
      some (y.appendIfNext e, rebuild || decide (e.index ≤ x.lastApplied))
    else some r
  else some (x.appendIfNext e, rebuild)

/-- The loop over the batch. -/
def mergeEntries (x : Node σ ν) (entries : List LogEntry) : Option (Node σ ν × Bool) :=
  entries.foldlM mergeEntry (x, false)

/-- The tests of `_append_entries_from_leader` on the entry before the batch. -/
def prevMatches (x : Node σ ν) (m : Message) : Option Bool := do
  if x.lastLogIndex < m.prevLogIndex then some false
  else if m.prevLogIndex < x.snapshotLastIncludedIndex then some false
  else if 0 < m.prevLogIndex then do
    let term ← x.termAtIndex m.prevLogIndex
    if term ≠ m.prevLogTerm then some false
    else if m.prevLogLeaderId ≠ [] ∧ x.hasLogIndex m.prevLogIndex = true then
      (x.leaderAtIndex m.prevLogIndex).map fun id => decide (id = m.prevLogLeaderId)
    else some true
  else some true

/-- `_restore_application_base_state` -/
def restoreApplicationBaseState (E : Env σ ν) (disk : Disk ν) (x : Node σ ν) : Node σ ν :=
  { x with user := E.restoreSnapshot x.user (disk.load.snapshot.getD E.emptyObject) }

/-- The commit index after the batch. -/
def settleCommit (E : Env σ ν) (disk : Disk ν) (x : Node σ ν) (rebuild : Bool)
    (leaderCommit : ℤ) : Node σ ν :=
  if rebuild then
    { restoreApplicationBaseState E disk { x with
        commitIndex := min leaderCommit x.lastLogIndex } with
      lastApplied := x.snapshotLastIncludedIndex, persistDirty := true }
  else if x.commitIndex < leaderCommit then
    { x with commitIndex := min leaderCommit x.lastLogIndex, persistDirty := true }
  else if x.lastLogIndex < x.commitIndex then
    { x with commitIndex := x.lastLogIndex, persistDirty := true }
  else x

/-- `_append_entries_from_leader` -/
def appendEntriesFromLeader (E : Env σ ν) (disk : Disk ν) (x : Node σ ν) (m : Message) :
    Option (Node σ ν × Bool) := do
  let ok ← x.prevMatches m
  if ok then do
    let (y, rebuild) ← x.mergeEntries m.entries
    some (y.settleCommit E disk rebuild m.leaderCommit, true)
  else some (x, false)

/-- The answer of `_handle_append_entries`. -/
def answerAppendEntries (x : Node σ ν) (m : Message) (success : Bool) : Node σ ν :=
  { x with
    outbox := x.outbox ++
      [{ kind := .appendEntriesResponse, term := x.currentTerm, source := x.config.nodeId
         target := m.source, success := success, matchIndex := x.lastLogIndex }] }

/-- `_handle_append_entries` after the term update. -/
def takeBatch (E : Env σ ν) (disk : Disk ν) (x : Node σ ν) (m : Message) : Option (Node σ ν) :=
  if m.term = x.currentTerm then do
    let (y, success) ← appendEntriesFromLeader E disk (contact { x with leaderId := some m.source }) m
    some (y.answerAppendEntries m success)
  else some (x.answerAppendEntries m false)

/-- `_handle_append_entries` -/
def handleAppendEntries (E : Env σ ν) (disk : Disk ν) (x : Node σ ν) (m : Message) :
    Option (Node σ ν) :=
  (x.handleTermUpdate m).takeBatch E disk m

/-! ### Actions on the role -/

/-- `_become_candidate` -/
def becomeCandidate (x : Node σ ν) : Node σ ν :=
  let x :=
    { x with
      currentTerm := x.currentTerm + 1
      votedFor := some x.config.nodeId
      votesReceived := [x.config.nodeId]
      leaderId := none
      persistDirty := true }
  { x with
    electionDeadlineMs := x.clockMs + x.nextElectionTimeoutMs
    outbox := x.outbox ++ x.peers.map fun peer =>
      { kind := .requestVote, term := x.currentTerm, source := x.config.nodeId, target := peer
        lastLogIndex := x.lastLogIndex, lastLogTerm := x.lastLogTerm } }

/-- The part of `_become_leader` before the broadcast. -/
def lead (x : Node σ ν) : Node σ ν :=
  { x with
    leaderId := some x.config.nodeId
    nextIndex := Dict.ofKeys x.peers fun _ => x.lastLogIndex + 1
    matchIndex := Dict.set (Dict.ofKeys x.peers fun _ => 0) x.config.nodeId x.lastLogIndex
    heartbeatDeadlineMs := x.clockMs }

/-- The next heartbeat. -/
def scheduleHeartbeat (x : Node σ ν) : Node σ ν :=
  { x with heartbeatDeadlineMs := x.clockMs + x.config.heartbeatIntervalMs }

/-- `_become_leader` -/
def becomeLeader (x : Node σ ν) : Option (Node σ ν) :=
  x.lead.broadcastAppendEntries.map scheduleHeartbeat

/-- `_back_to_follower_due_to_timeout` -/
def backToFollowerDueToTimeout (x : Node σ ν) : Node σ ν :=
  { x with
    votesReceived := []
    leaderId := none
    electionDeadlineMs := x.clockMs + x.nextElectionTimeoutMs }

/-- `_send_heartbeat` -/
def sendHeartbeat (x : Node σ ν) : Option (Node σ ν) :=
  x.broadcastAppendEntries.map scheduleHeartbeat

end Node

end RaftRx.Python
