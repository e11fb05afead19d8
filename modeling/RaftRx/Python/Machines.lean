import RaftRx.Python.Handlers

/-!
The three machines of a Python node and its tick (`node.py`).

rxnet runs a tick of the role machine as latch, the first enabled transition (the new state is
published, then the action runs) and dump; the compaction and the membership machine have
transitions only.

* `TransitionSpec`, `nextOf`: a row of a table, and the first enabled row;
* `Node.latchInputs`, `Node.transition`, `Node.dumpOutputs`: the phases of the role machine;
* `Node.compactionTransition`, `Node.membershipTransition`: the other two machines;
* `Node.applyAll`: the apply loop, with every lookup it makes.
-/

namespace RaftRx.Python

open Protocol (Role)

variable {σ ν : Type}

/-- `TransitionSpec`: a row of a transition table over states `S` and actions `α`. -/
structure TransitionSpec (σ ν S α : Type) where
  fromState : S
  toState : S
  guard : Node σ ν → Bool
  action : α

/-- The first enabled row. -/
def nextOf {S α : Type} [DecidableEq S] (table : List (TransitionSpec σ ν S α)) (state : S)
    (x : Node σ ν) : Option (TransitionSpec σ ν S α) :=
  table.find? fun t => decide (t.fromState = state) && t.guard x

namespace Node

/-! ### Latching -/

/-- One message in `_latch_inputs`. -/
def latchMessage (x : Node σ ν) (m : Message) : Option (Node σ ν) :=
  match m.kind with
  | .appendEntries => some { x with pendingAppendEntries := x.pendingAppendEntries ++ [m] }
  | .requestVote => some { x with pendingVoteRequests := x.pendingVoteRequests ++ [m] }
  | .requestVoteResponse => some { x with pendingVotes := x.pendingVotes ++ [m] }
  | .appendEntriesResponse => x.handleAppendEntriesResponse m
  | .clientCommand => some x

/-- `_latch_inputs` -/
def latchInputs (x : Node σ ν) (messages : List Message) (commands : List Command) :
    Option (Node σ ν) :=
  if x.running then do
    let y ← messages.foldlM latchMessage x
    if y.role = .leader then commands.foldlM appendClientCommand y else some y
  else some x

/-! ### The role machine -/

/-- The actions of the role machine. -/
inductive RoleAction where
  | becomeCandidate | backToFollowerDueToTimeout | becomeLeader | handleNextAppendEntries
  | handleNextVoteRequest | handleNextVote | ignoreVoteRequest | ignoreVote | sendHeartbeat
  deriving DecidableEq, Repr

/-- `_timeout_expired` -/
def timeoutExpired (x : Node σ ν) : Bool :=
  x.isVotingMember && decide (x.electionDeadlineMs ≤ x.clockMs) && x.pendingAppendEntries.isEmpty

/-- `_has_append_entries` -/
def hasAppendEntries (x : Node σ ν) : Bool := !x.pendingAppendEntries.isEmpty

/-- `_has_vote_request` -/
def hasVoteRequest (x : Node σ ν) : Bool := !x.pendingVoteRequests.isEmpty

/-- `_has_higher_term_vote_request` -/
def hasHigherTermVoteRequest (x : Node σ ν) : Bool :=
  x.pendingVoteRequests.head?.any fun m => decide (x.currentTerm < m.term)

/-- `_has_vote` -/
def hasVote (x : Node σ ν) : Bool := !x.pendingVotes.isEmpty

/-- `_time_for_heartbeat` -/
def timeForHeartbeat (x : Node σ ν) : Bool := decide (x.heartbeatDeadlineMs ≤ x.clockMs)

/-- `_build_transitions` -/
def roleTransitions : List (TransitionSpec σ ν Role RoleAction) :=
  [⟨.follower, .candidate, timeoutExpired, .becomeCandidate⟩,
    ⟨.follower, .follower, hasAppendEntries, .handleNextAppendEntries⟩,
    ⟨.follower, .follower, hasVoteRequest, .handleNextVoteRequest⟩,
    ⟨.follower, .follower, hasVote, .ignoreVote⟩,
    ⟨.candidate, .follower, timeoutExpired, .backToFollowerDueToTimeout⟩,
    ⟨.candidate, .leader, receivedMajorityVotes, .becomeLeader⟩,
    ⟨.candidate, .follower, hasAppendEntries, .handleNextAppendEntries⟩,
    ⟨.candidate, .follower, hasHigherTermVoteRequest, .handleNextVoteRequest⟩,
    ⟨.candidate, .candidate, hasVoteRequest, .handleNextVoteRequest⟩,
    ⟨.candidate, .candidate, hasVote, .handleNextVote⟩,
    ⟨.leader, .follower, hasAppendEntries, .handleNextAppendEntries⟩,
    ⟨.leader, .follower, hasHigherTermVoteRequest, .handleNextVoteRequest⟩,
    ⟨.leader, .leader, hasVoteRequest, .ignoreVoteRequest⟩,
    ⟨.leader, .leader, hasVote, .ignoreVote⟩,
    ⟨.leader, .leader, timeForHeartbeat, .sendHeartbeat⟩]

/-- `_handle_next_append_entries` -/
def handleNextAppendEntries (E : Env σ ν) (disk : Disk ν) (x : Node σ ν) : Option (Node σ ν) :=
  match x.pendingAppendEntries with
  | [] => some x
  | m :: rest => handleAppendEntries E disk { x with pendingAppendEntries := rest } m

/-- `_handle_next_vote_request` -/
def handleNextVoteRequest (x : Node σ ν) : Node σ ν :=
  match x.pendingVoteRequests with
  | [] => x
  | m :: rest => handleRequestVote { x with pendingVoteRequests := rest } m

/-- `_handle_next_vote` -/
def handleNextVote (x : Node σ ν) : Option (Node σ ν) :=
  match x.pendingVotes with
  | [] => some x
  | m :: rest =>
      let y := { x with pendingVotes := rest }
      match m.kind with
      | .requestVoteResponse => some (y.handleRequestVoteResponse m)
      | .appendEntriesResponse => y.handleAppendEntriesResponse m
      | _ => some y

/-- `_ignore_vote` -/
def ignoreVote (x : Node σ ν) : Option (Node σ ν) :=
  match x.pendingVotes with
  | [] => some x
  | m :: rest =>
      let y := { x with pendingVotes := rest }
      if m.kind = .appendEntriesResponse then y.handleAppendEntriesResponse m else some y

/-- The method with the action's name. -/
def perform (E : Env σ ν) (disk : Disk ν) (x : Node σ ν) : RoleAction → Option (Node σ ν)
  | .becomeCandidate => some x.becomeCandidate
  | .backToFollowerDueToTimeout => some x.backToFollowerDueToTimeout
  | .becomeLeader => x.becomeLeader
  | .handleNextAppendEntries => x.handleNextAppendEntries E disk
  | .handleNextVoteRequest => some x.handleNextVoteRequest
  | .handleNextVote => x.handleNextVote
  | .ignoreVoteRequest => some x.handleNextVoteRequest
  | .ignoreVote => x.ignoreVote
  | .sendHeartbeat => x.sendHeartbeat

/-- The row the role machine takes next. -/
def nextTransition (x : Node σ ν) : Option (TransitionSpec σ ν Role RoleAction) :=
  nextOf roleTransitions x.role x

/-- The first enabled transition of the role machine. -/
def transition (E : Env σ ν) (disk : Disk ν) (x : Node σ ν) : Option (Node σ ν) :=
  match x.nextTransition with
  | none => some x
  | some t => perform E disk { x with role := t.toState } t.action

/-! ### The compaction machine -/

/-- The actions of the compaction machine. -/
inductive CompactionAction where
  | markSnapshotPending | beginCompaction | finishCompaction
  deriving DecidableEq, Repr

/-- `_compactible_index` -/
def compactibleIndex (x : Node σ ν) : ℤ :=
  if x.role = .leader then (x.matchIndex.map Prod.snd).foldl min x.lastApplied else x.lastApplied

/-- `_compaction_threshold_reached` -/
def compactionThresholdReached (x : Node σ ν) : Bool :=
  decide (x.compactionThreshold ≤ x.compactibleIndex - x.snapshotLastIncludedIndex)

/-- `_can_start_compaction` -/
def canStartCompaction (x : Node σ ν) : Bool := x.compactionRequested && !x.compactionInProgress

/-- `_compaction_finished` -/
def compactionFinished (x : Node σ ν) : Bool := x.compactionDone

/-- `_build_compaction_transitions` -/
def compactionTransitions : List (TransitionSpec σ ν CompactionState CompactionAction) :=
  [⟨.idle, .snapshotPending, compactionThresholdReached, .markSnapshotPending⟩,
    ⟨.snapshotPending, .compacting, canStartCompaction, .beginCompaction⟩,
    ⟨.compacting, .idle, compactionFinished, .finishCompaction⟩]

/-- `_mark_snapshot_pending` -/
def markSnapshotPending (x : Node σ ν) : Node σ ν :=
  { x with compactionRequested := true, compactionDone := false }

/-- `_begin_compaction` -/
def beginCompaction (E : Env σ ν) (x : Node σ ν) : Option (Node σ ν) := do
  let term ← x.termAtIndex x.compactibleIndex
  some { x with
    compactionTargetIndex := x.compactibleIndex
    compactionTargetTerm := term
    compactionSnapshot := some (E.snapshot x.user)
    compactionInProgress := true
    compactionDone := true }

/-- The file `_finish_compaction` saves.  The machine is in `COMPACTING` only after it took a
snapshot, so the default is not used. -/
def snapshotFile (E : Env σ ν) (x : Node σ ν) : SnapshotFile ν :=
  { lastIncludedIndex := x.compactionTargetIndex, lastIncludedTerm := x.compactionTargetTerm
    application := x.compactionSnapshot.getD E.emptyObject }

/-- `_finish_compaction` -/
def finishCompaction (x : Node σ ν) : Node σ ν :=
  { x.truncateLogPrefixThrough x.compactionTargetIndex with
    snapshotLastIncludedIndex := x.compactionTargetIndex
    snapshotLastIncludedTerm := x.compactionTargetTerm
    persistDirty := true
    compactionRequested := false
    compactionInProgress := false
    compactionDone := false
    compactionSnapshot := none }

/-- The row the compaction machine takes next. -/
def nextCompaction (x : Node σ ν) :
    Option (TransitionSpec σ ν CompactionState CompactionAction) :=
  nextOf compactionTransitions x.compactionState x

/-- The first enabled transition of the compaction machine, with the file it writes. -/
def compactionTransition (E : Env σ ν) (x : Node σ ν) : Option (Node σ ν × List (Write ν)) :=
  match x.nextCompaction with
  | none => some (x, [])
  | some t =>
      let y := { x with compactionState := t.toState }
      match t.action with
      | .markSnapshotPending => some (y.markSnapshotPending, [])
      | .beginCompaction => (y.beginCompaction E).map fun y => (y, [])
      | .finishCompaction => some (y.finishCompaction, [.snapshotJson (y.snapshotFile E)])

/-! ### The membership machine -/

/-- The actions of the membership machine. -/
inductive MembershipAction where
  | beginMembershipChange | enterJointConfig | appendFinalConfig | leaveJointConfig
  deriving DecidableEq, Repr

/-- `_has_membership_change_request` -/
def hasMembershipChangeRequest (x : Node σ ν) : Bool :=
  decide (x.role = .leader) && x.requestedMembershipChangePending && !x.configState.isJoint &&
    x.requestedMembershipChange.any fun members => decide (members ≠ x.configState.oldMembers)

/-- `_joint_config_committed` -/
def jointConfigCommitted (x : Node σ ν) : Bool :=
  x.configState.isJoint && decide (x.configState.index = x.jointConfigIndex)

/-- `_can_finalize_joint` -/
def canFinalizeJoint (x : Node σ ν) : Bool :=
  decide (x.role = .leader) && x.configState.isJoint && x.pendingConfigurationMembers.isSome &&
    x.jointMembersAreCaughtUp

/-- `_final_config_committed` -/
def finalConfigCommitted (x : Node σ ν) : Bool :=
  !x.configState.isJoint && decide (0 < x.finalConfigIndex) &&
    decide (x.configState.index = x.finalConfigIndex)

/-- `_build_membership_transitions` -/
def membershipTransitions : List (TransitionSpec σ ν MembershipState MembershipAction) :=
  [⟨.stable, .jointPending, hasMembershipChangeRequest, .beginMembershipChange⟩,
    ⟨.jointPending, .joint, jointConfigCommitted, .enterJointConfig⟩,
    ⟨.joint, .finalizing, canFinalizeJoint, .appendFinalConfig⟩,
    ⟨.finalizing, .stable, finalConfigCommitted, .leaveJointConfig⟩]

/-- A command that carries a configuration. -/
def configCommand (E : Env σ ν) (op : String) (members : List Str) : Command :=
  { op := op.toList, key := "config".toList, value := some (E.dumps members) }

/-- `_begin_membership_change` -/
def beginMembershipChange (E : Env σ ν) (x : Node σ ν) : Option (Node σ ν) :=
  let y := { x with pendingConfigurationMembers := x.requestedMembershipChange }
  match x.requestedMembershipChange with
  | none => some y
  | some members =>
      appendClientCommand { y with jointConfigIndex := y.lastLogIndex + 1, outbox := [] }
        (configCommand E "cluster.enter_joint" members)

/-- `_append_final_config` -/
def appendFinalConfig (E : Env σ ν) (x : Node σ ν) : Option (Node σ ν) :=
  match x.pendingConfigurationMembers with
  | none => some x
  | some members =>
      appendClientCommand { x with finalConfigIndex := x.lastLogIndex + 1 }
        (configCommand E "cluster.leave_joint" members)

/-- `_leave_joint_config` -/
def leaveJointConfig (x : Node σ ν) : Node σ ν :=
  { x with
    requestedMembershipChange := none
    requestedMembershipChangePending := false
    pendingConfigurationMembers := none
    jointConfigIndex := 0
    finalConfigIndex := 0 }

/-- The row the membership machine takes next. -/
def nextMembership (x : Node σ ν) :
    Option (TransitionSpec σ ν MembershipState MembershipAction) :=
  nextOf membershipTransitions x.membershipState x

/-- The first enabled transition of the membership machine; `_enter_joint_config` only reports. -/
def membershipTransition (E : Env σ ν) (x : Node σ ν) : Option (Node σ ν) :=
  match x.nextMembership with
  | none => some x
  | some t =>
      let y := { x with membershipState := t.toState }
      match t.action with
      | .beginMembershipChange => y.beginMembershipChange E
      | .enterJointConfig => some y
      | .appendFinalConfig => y.appendFinalConfig E
      | .leaveJointConfig => some y.leaveJointConfig

/-- `request_membership_change` -/
def requestMembershipChange (x : Node σ ν) (members : List Str) : Node σ ν :=
  { x with
    requestedMembershipChange := some (ClusterConfiguration.normalizeMembers members)
    requestedMembershipChangePending := true }

/-! ### Applying -/

/-- `_decode_members` of a value that is not `None` -/
def decodeMembers (E : Env σ ν) (encoded : Str) : Option (List Str) :=
  (E.loads encoded).map ClusterConfiguration.normalizeMembers

/-- `_apply_enter_joint` -/
def applyEnterJoint (E : Env σ ν) (x : Node σ ν) (command : Command) : Option (Node σ ν) := do
  let encoded ← command.value
  let target ← decodeMembers E encoded
  if x.lastApplied ≤ x.configState.index then some x
  else
    let x :=
      { x with
        configState := .joint x.configState.oldMembers target x.lastApplied
        requestedMembershipChange := some target
        requestedMembershipChangePending := true
        pendingConfigurationMembers := some target
        jointConfigIndex := x.lastApplied }
    some { x.refreshMembershipState with membershipState := .joint, persistDirty := true }

/-- `_apply_leave_joint` -/
def applyLeaveJoint (E : Env σ ν) (x : Node σ ν) (command : Command) : Option (Node σ ν) := do
  let encoded ← command.value
  let target ← decodeMembers E encoded
  if x.lastApplied ≤ x.configState.index then some x
  else
    let wasMember := x.isVotingMember
    let x :=
      { x with
        configState := .stable target x.lastApplied
        requestedMembershipChange := none
        requestedMembershipChangePending := false
        pendingConfigurationMembers := none
        finalConfigIndex := x.lastApplied }
    let x := { x.refreshMembershipState with membershipState := .stable, persistDirty := true }
    some (if wasMember && !x.isVotingMember then x.stop else x)

/-- `_apply_committed_command` -/
def applyCommittedCommand (E : Env σ ν) (x : Node σ ν) (command : Command) :
    Option (Node σ ν) :=
  if command.op = "cluster.set_maxlog".toList then do
    let value ← command.value
    let threshold ← E.int value
    some { x with compactionThreshold := threshold, persistDirty := true }
  else if command.op = "cluster.enter_joint".toList then x.applyEnterJoint E command
  else if command.op = "cluster.leave_joint".toList then x.applyLeaveJoint E command
  else (E.apply x.user command).map fun user => { x with user := user }

/-- The loop `while self.last_applied < self.commit_index`: the entry every lookup found, `none`
for an index error, and the node unless something raised.  The fuel is the number of rounds. -/
def applyAll (E : Env σ ν) : ℕ → Node σ ν → List (ℤ × Option LogEntry) × Option (Node σ ν)
  | 0, x => ([], some x)
  | k + 1, x =>
      if x.lastApplied < x.commitIndex then
        let y := { x with lastApplied := x.lastApplied + 1 }
        match y.entryAtIndex y.lastApplied with
        | none => ([(y.lastApplied, none)], none)
        | some entry =>
            match y.applyCommittedCommand E entry.command with
            | none => ([(y.lastApplied, some entry)], none)
            | some y' =>
                let r := applyAll E k y'
                ((y.lastApplied, some entry) :: r.1, r.2)
      else ([], some x)

/-! ### Dumping -/

/-- What `_dump_outputs` does: the files it replaces, the lookups of its apply loop, the messages
it sends and the node it leaves, unless it raises. -/
structure Dumped (σ ν : Type) where
  writes : List (Write ν)
  applied : List (ℤ × Option LogEntry)
  sends : List Message
  node : Option (Node σ ν)

/-- The node after the files are saved. -/
def saved (x : Node σ ν) : Node σ ν := { x with persistDirty := false }

/-- The rounds of the apply loop. -/
def rounds (x : Node σ ν) : ℕ := (x.commitIndex - x.lastApplied).toNat

/-- `_dump_outputs` -/
def dumpOutputs (E : Env σ ν) (x : Node σ ν) : Dumped σ ν :=
  if x.running then
    let r := applyAll E x.rounds x.saved
    { writes := if x.persistDirty then x.save else []
      applied := r.1
      sends := (r.2.map Node.outbox).getD []
      node := r.2.map fun y => { y with outbox := [] } }
  else { writes := [], applied := [], sends := [], node := some x }

end Node

end RaftRx.Python
