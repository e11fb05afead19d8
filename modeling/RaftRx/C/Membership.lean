import RaftRx.C.Handlers
import RaftRx.Library.Text

/-!
Internal commands, application of committed entries and the membership driver of the C node
(`raft.c`, the part headed "Membership helpers" and the driver).

* `encodeMemberList`, `decodeMemberList`: member lists inside a command value;
* `Node.applyCommand`: a committed command, internal or of the application;
* `Node.applyCommitted`: the loop of `raft_node_dump_outputs`, with the entries it passed on;
* `Node.maybeDriveMembership`: the four steps of a membership change.
-/

namespace RaftRx.C

open Protocol (Role)

variable {σ : Type*} (A : Application σ)

/-! ### Member lists as text -/

/-- The loop of `encode_member_list`: `out` is what the buffer holds, `sep` what comes before the
next member.  A piece that does not fit is cut by `snprintf` and ends the loop. -/
def encodeMembers (outSize : ℕ) (out : CString) (sep : CString) : List CString → CString
  | [] => out
  | m :: members =>
      let piece := sep ++ m
      if piece.length < outSize - out.length then encodeMembers outSize (out ++ piece) [','] members
      else out ++ piece.take (outSize - out.length - 1)

/-- `encode_member_list` -/
def encodeMemberList (members : List CString) (outSize : ℕ) : CString :=
  encodeMembers outSize [] [] members

/-- The tokens of `strtok(.., ",")`: the maximal nonempty pieces without a comma. -/
def tokens (value : CString) : List CString :=
  (value.splitOn ',').filter (· ≠ [])

/-- `decode_member_list` -/
def decodeMemberList (value : CString) (capacity : ℕ) : List CString :=
  (tokens (strncpy maxValue value)).foldl
    (fun out token =>
      if out.length < capacity ∧ token ∉ out then out ++ [strncpy maxId token] else out) []

/-- `"cluster.set_maxlog"` -/
def opSetMaxlog : CString := "cluster.set_maxlog".toList
/-- `"cluster.enter_joint"` -/
def opEnterJoint : CString := "cluster.enter_joint".toList
/-- `"cluster.leave_joint"` -/
def opLeaveJoint : CString := "cluster.leave_joint".toList

/-- The commands the engine keeps for itself. -/
def Command.isInternal (command : Command) : Bool :=
  decide (command.op = opSetMaxlog) || decide (command.op = opEnterJoint) ||
    decide (command.op = opLeaveJoint)

namespace Node

/-! ### Internal commands -/

/-- The entry `node_append_internal_command` writes. -/
def internalEntry (node : Node σ) (op key value : CString) : LogEntry :=
  { index := node.lastLogIndex + 1
    term := node.currentTerm
    leaderId := strncpy maxId node.config.nodeId
    command :=
      { op := strncpy maxOp op, key := strncpy maxKey key, value := strncpy maxValue value } }

/-- `node_append_internal_command`: the node and the index of the entry, or `-1`. -/
def appendInternalCommand (node : Node σ) (op key value : CString) : Node σ × ℤ :=
  if node.isLeader = false ∨ maxLog ≤ node.log.length then (node, -1)
  else
    let entry := node.internalEntry op key value
    let node := { node with log := node.log ++ [entry], persistDirty := true }
    (node.broadcastAppendEntries, entry.index)

/-- The branch `cluster.enter_joint` of `node_apply_internal_command`. -/
def applyEnterJoint (node : Node σ) (command : Command) : Node σ :=
  let newMembers := decodeMemberList command.value maxNodes
  if node.lastApplied ≤ node.configState.index then node
  else if newMembers = [] then node
  else
    let node :=
      { node with
        configState :=
          configurationSetJoint node.configState.oldMembers newMembers node.lastApplied
        membershipState := .joint
        jointConfigIndex := node.lastApplied
        requestedMembership := newMembers
        requestedMembershipPending := true }
    { node.refreshPeers with persistDirty := true }

/-- The branch `cluster.leave_joint` of `node_apply_internal_command`: a member that is expelled
stops. -/
def applyLeaveJoint (node : Node σ) (command : Command) : Node σ :=
  let members := decodeMemberList command.value maxNodes
  if node.lastApplied ≤ node.configState.index then node
  else if members = [] then node
  else
    let wasMember := node.selfIsMember
    let node :=
      { node with
        configState := configurationSetStable members node.lastApplied
        membershipState := .stable
        finalConfigIndex := node.lastApplied
        jointConfigIndex := 0
        requestedMembershipPending := false
        requestedMembership := [] }
    let node := { node.refreshPeers with persistDirty := true }
    if wasMember && !node.selfIsMember then
      { node with running := false, leaderId := [], votesReceived := [], state := .follower }
    else node

/-- `node_apply_internal_command` -/
def applyInternalCommand (node : Node σ) (command : Command) : Node σ :=
  if command.op = opSetMaxlog then
    let threshold := Text.atoi command.value
    if 0 < threshold then { node with compactionThreshold := threshold, persistDirty := true }
    else node
  else if command.op = opEnterJoint then node.applyEnterJoint command
  else if command.op = opLeaveJoint then node.applyLeaveJoint command
  else node

/-- `node_apply_command` -/
def applyCommand (node : Node σ) (command : Command) : Node σ :=
  if command.isInternal then node.applyInternalCommand command
  else match A.apply with
    | some apply => { node with user := apply node.user command }
    | none => node

/-- One turn of the apply loop of `raft_node_dump_outputs`, with the entry it passed to
`node_apply_command` and the index it was read at. -/
def applyNext (node : Node σ) : Node σ × (ℤ × LogEntry) :=
  let node := { node with lastApplied := node.lastApplied + 1 }
  let entry := node.entryAt node.lastApplied
  ({ node.applyCommand A entry.command with persistDirty := true }, (node.lastApplied, entry))

/-- The apply loop, as many turns as there are committed entries to apply. -/
def applyCommitted : ℕ → Node σ → Node σ × List (ℤ × LogEntry)
  | 0, node => (node, [])
  | n + 1, node =>
      let next := node.applyNext A
      let rest := applyCommitted n next.1
      (rest.1, next.2 :: rest.2)

/-! ### Membership driver -/

/-- `node_maybe_drive_membership` -/
def maybeDriveMembership (node : Node σ) : Node σ :=
  if node.isLeader = false then node
  else if node.membershipState = .stable ∧ node.requestedMembershipPending = true ∧
      node.configState.isJoint = false then
    let encoded := encodeMemberList node.requestedMembership maxValue
    let (node, index) := node.appendInternalCommand opEnterJoint "members".toList encoded
    let node := { node with jointConfigIndex := index }
    if 0 < node.jointConfigIndex then { node with membershipState := .jointPending } else node
  else if node.membershipState = .jointPending ∧ node.configState.isJoint = true ∧
      node.configState.index = node.jointConfigIndex then
    { node with membershipState := .joint }
  else if node.membershipState = .joint ∧ node.configState.isJoint = true ∧
      node.jointMembersAreCaughtUp = true then
    let encoded := encodeMemberList node.requestedMembership maxValue
    let (node, index) := node.appendInternalCommand opLeaveJoint "members".toList encoded
    let node := { node with finalConfigIndex := index }
    if 0 < node.finalConfigIndex then { node with membershipState := .finalizing } else node
  else if node.membershipState = .finalizing ∧ node.configState.isJoint = false ∧
      node.configState.index = node.finalConfigIndex then
    { node with membershipState := .stable }
  else node

end Node

end RaftRx.C
