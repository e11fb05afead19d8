import RaftRx.Protocol.State
import RaftRx.Library.Sequences
import RaftRx.Library.Text
import Mathlib.Data.List.Sort
import Mathlib.Data.String.Basic

/-!
The Python node: its data and the helpers that read it (`messages.py`, `configuration.py`, the
helpers of `node.py`).

A string is the list of its characters, `int` is `ℤ`, a dictionary is the list of its items and a
set the list of its elements.  A method that may raise returns an option: `none` is the exception.

* `Command`, `LogEntry`, `Message`, `NodeConfig`, `ClusterConfiguration`, `Node`: the records;
* `Env`: what the node calls outside its own code, the application and `json`;
* `Node.lastLogIndex` .. `Node.truncateLogPrefixThrough`: the index helpers, with the negative
  indices of Python's lists;
* `Node.hasQuorum`, `Node.replicatedOnMembers`: quorums.
-/

namespace RaftRx.Python

open Protocol (Role)
open Text (decimal)

/-! ### Records -/

/-- `str` -/
abbrev Str := List Char

instance : LawfulBEq Str := inferInstance

/-- `CompactionState` -/
inductive CompactionState where
  | idle | snapshotPending | compacting
  deriving DecidableEq, Repr

/-- `MembershipState` -/
inductive MembershipState where
  | stable | jointPending | joint | finalizing
  deriving DecidableEq, Repr

/-- `MessageKind` -/
inductive MessageKind where
  | requestVote | requestVoteResponse | appendEntries | appendEntriesResponse | clientCommand
  deriving DecidableEq, Repr

/-- `Command` -/
structure Command where
  op : Str
  key : Str
  value : Option Str := none
  deriving DecidableEq, Repr

/-- `LogEntry` -/
structure LogEntry where
  index : ℤ
  term : ℤ
  command : Command
  leaderId : Str := []
  deriving DecidableEq, Repr

/-- `Message`.  The keys of `payload` are fields; each kind has its own keys and leaves the others
at their defaults. -/
structure Message where
  kind : MessageKind
  term : ℤ
  source : Str
  target : Str
  lastLogIndex : ℤ := 0
  lastLogTerm : ℤ := 0
  granted : Bool := false
  prevLogIndex : ℤ := 0
  prevLogTerm : ℤ := 0
  prevLogLeaderId : Str := []
  entries : List LogEntry := []
  leaderCommit : ℤ := 0
  success : Bool := false
  matchIndex : ℤ := 0
  deriving DecidableEq, Repr

/-- `NodeConfig` -/
structure NodeConfig where
  nodeId : Str
  peers : List Str
  electionTimeoutMs : ℤ
  heartbeatIntervalMs : ℤ := 50
  initialMembers : Option (List Str) := none
  deriving DecidableEq, Repr

/-- `ClusterConfiguration` -/
structure ClusterConfiguration where
  oldMembers : List Str
  newMembers : Option (List Str) := none
  index : ℤ := 0
  deriving DecidableEq, Repr

/-- What the node calls outside its own code: the methods of the application, of which `apply` may
raise, `json` and `int`.  `loads` gives the members in a JSON text as strings; it raises on other
texts, as `int` does on texts that are no literals. -/
structure Env (σ ν : Type) where
  apply : σ → Command → Option σ
  reload : σ → σ
  snapshot : σ → ν
  restoreSnapshot : σ → ν → σ
  emptyObject : ν
  dumps : List Str → Str
  loads : Str → Option (List Str)
  int : Str → Option ℤ

/-- `RaftNode`, with the states of its three machines and of its application.  `clockMs` is the
value of `clock.now_ms()`. -/
structure Node (σ ν : Type) where
  config : NodeConfig
  clockMs : ℤ
  user : σ
  role : Role
  compactionState : CompactionState
  membershipState : MembershipState
  configState : ClusterConfiguration
  peers : List Str
  running : Bool
  currentTerm : ℤ
  votedFor : Option Str
  log : List LogEntry
  snapshotLastIncludedIndex : ℤ
  snapshotLastIncludedTerm : ℤ
  compactionThreshold : ℤ
  commitIndex : ℤ
  lastApplied : ℤ
  leaderId : Option Str
  votesReceived : List Str
  nextIndex : Dict Str ℤ
  matchIndex : Dict Str ℤ
  outbox : List Message
  pendingAppendEntries : List Message
  pendingVoteRequests : List Message
  pendingVotes : List Message
  requestedMembershipChange : Option (List Str)
  requestedMembershipChangePending : Bool
  pendingConfigurationMembers : Option (List Str)
  jointConfigIndex : ℤ
  finalConfigIndex : ℤ
  compactionRequested : Bool
  compactionInProgress : Bool
  compactionDone : Bool
  compactionTargetIndex : ℤ
  compactionTargetTerm : ℤ
  compactionSnapshot : Option ν
  persistDirty : Bool
  lastContactMs : ℤ
  electionDeadlineMs : ℤ
  heartbeatDeadlineMs : ℤ

/-! ### Configurations -/

namespace ClusterConfiguration

/-- `is_joint` -/
def isJoint (c : ClusterConfiguration) : Bool := c.newMembers.isSome

/-- `all_members` -/
def allMembers (c : ClusterConfiguration) : List Str :=
  match c.newMembers with
  | none => c.oldMembers
  | some new => new.foldl (fun ms m => if m ∈ ms then ms else ms ++ [m]) c.oldMembers

/-- `normalize_members` -/
def normalizeMembers (members : List Str) : List Str :=
  (members.foldl (fun ms m => if m ≠ [] ∧ m ∉ ms then ms ++ [m] else ms) []).insertionSort (· ≤ ·)

/-- `stable` -/
def stable (members : List Str) (index : ℤ) : ClusterConfiguration :=
  { oldMembers := normalizeMembers members, newMembers := none, index := index }

/-- `joint` -/
def joint (oldMembers newMembers : List Str) (index : ℤ) : ClusterConfiguration :=
  { oldMembers := normalizeMembers oldMembers, newMembers := some (normalizeMembers newMembers)
    index := index }

end ClusterConfiguration

/-- The members of the program's own configuration. -/
def NodeConfig.startMembers (config : NodeConfig) : List Str :=
  config.initialMembers.getD (config.nodeId :: config.peers)

/-! ### Election timeout -/

/-- Eight rounds of the reflected polynomial of `zlib.crc32`. -/
def crc32Byte (crc : ℕ) (byte : UInt8) : ℕ :=
  (List.range 8).foldl
    (fun c _ => if c % 2 = 1 then 0xEDB88320 ^^^ (c / 2) else c / 2) (crc ^^^ byte.toNat)

/-- `zlib.crc32` -/
def crc32 (data : List UInt8) : ℕ := (data.foldl crc32Byte 0xFFFFFFFF) ^^^ 0xFFFFFFFF

variable {σ ν : Type}

namespace Node

/-- `_next_election_timeout_ms` -/
def nextElectionTimeoutMs (x : Node σ ν) : ℤ :=
  let base := max 1 x.config.electionTimeoutMs
  let window := max 1 base
  let salt := x.config.nodeId ++ ':' :: decimal x.currentTerm ++ ':' :: decimal x.lastContactMs
  base + (crc32 (salt.flatMap String.utf8EncodeChar) : ℤ) % window

/-! ### Log indices -/

/-- `_last_log_index` -/
def lastLogIndex (x : Node σ ν) : ℤ := x.snapshotLastIncludedIndex + x.log.length

/-- `_last_log_term` -/
def lastLogTerm (x : Node σ ν) : ℤ :=
  match x.log.getLast? with
  | none => x.snapshotLastIncludedTerm
  | some entry => entry.term

/-- `_log_base_index` -/
def logBaseIndex (x : Node σ ν) : ℤ := x.snapshotLastIncludedIndex + 1

/-- `_has_log_index` -/
def hasLogIndex (x : Node σ ν) (index : ℤ) : Bool :=
  decide (x.logBaseIndex ≤ index) && decide (index ≤ x.lastLogIndex)

/-- `_physical_index` -/
def physicalIndex (x : Node σ ν) (index : ℤ) : ℤ := index - x.logBaseIndex

/-- `_entry_at_index` -/
def entryAtIndex (x : Node σ ν) (index : ℤ) : Option LogEntry :=
  item x.log (x.physicalIndex index)

/-- `_term_at_index` -/
def termAtIndex (x : Node σ ν) (index : ℤ) : Option ℤ :=
  if index = 0 then some 0
  else if index = x.snapshotLastIncludedIndex then some x.snapshotLastIncludedTerm
  else (x.entryAtIndex index).map LogEntry.term

/-- `_leader_at_index` -/
def leaderAtIndex (x : Node σ ν) (index : ℤ) : Option Str :=
  if index ≤ 0 ∨ x.hasLogIndex index = false then some []
  else (x.entryAtIndex index).map LogEntry.leaderId

/-- `_entries_from` -/
def entriesFrom (x : Node σ ν) (index : ℤ) : List LogEntry :=
  if x.lastLogIndex < index then [] else sliceFrom x.log (x.physicalIndex index)

/-- `_truncate_log_suffix_from` -/
def truncateLogSuffixFrom (x : Node σ ν) (index : ℤ) : Node σ ν :=
  if index ≤ x.snapshotLastIncludedIndex then { x with log := [] }
  else { x with log := sliceTo x.log (x.physicalIndex index) }

/-- `_truncate_log_prefix_through` -/
def truncateLogPrefixThrough (x : Node σ ν) (index : ℤ) : Node σ ν :=
  if index < x.logBaseIndex then x
  else if x.lastLogIndex ≤ index then { x with log := [] }
  else { x with log := sliceFrom x.log (x.physicalIndex (index + 1)) }

/-! ### Quorums -/

/-- `_majority` -/
def majority (members : List Str) : ℕ := members.length / 2 + 1

/-- `_is_voting_member` -/
def isVotingMember (x : Node σ ν) : Bool := decide (x.config.nodeId ∈ x.configState.allMembers)

/-- `_has_quorum` -/
def hasQuorum (votes members : List Str) : Bool :=
  decide (majority members ≤ members.countP fun m => decide (m ∈ votes))

/-- `_received_majority_votes` -/
def receivedMajorityVotes (x : Node σ ν) : Bool :=
  hasQuorum x.votesReceived x.configState.oldMembers &&
    x.configState.newMembers.all fun new => hasQuorum x.votesReceived new

/-- `_replicated_on_members` -/
def replicatedOnMembers (x : Node σ ν) (candidateIndex : ℤ) (members : List Str) : Bool :=
  decide (majority members ≤ members.countP fun m =>
    if m = x.config.nodeId then decide (candidateIndex ≤ x.lastLogIndex)
    else decide (candidateIndex ≤ (x.matchIndex.get m).getD 0))

/-- `_is_committed_under_current_configuration` -/
def isCommittedUnderCurrentConfiguration (x : Node σ ν) (candidateIndex : ℤ) : Bool :=
  x.replicatedOnMembers candidateIndex x.configState.oldMembers &&
    x.configState.newMembers.all fun new => x.replicatedOnMembers candidateIndex new

/-- `_joint_members_are_caught_up` -/
def jointMembersAreCaughtUp (x : Node σ ν) : Bool :=
  match x.configState.newMembers with
  | none => false
  | some new => new.all fun m =>
      decide (m = x.config.nodeId) || decide (x.lastLogIndex ≤ (x.matchIndex.get m).getD 0)

/-- `_candidate_is_up_to_date` -/
def candidateIsUpToDate (x : Node σ ν) (m : Message) : Bool :=
  if m.lastLogTerm ≠ x.lastLogTerm then decide (x.lastLogTerm < m.lastLogTerm)
  else decide (x.lastLogIndex ≤ m.lastLogIndex)

/-- `_refresh_membership_state` -/
def refreshMembershipState (x : Node σ ν) : Node σ ν :=
  let peers := x.configState.allMembers.filter (· ≠ x.config.nodeId)
  { x with
    peers := peers
    nextIndex := Dict.ofKeys peers fun p => (x.nextIndex.get p).getD x.logBaseIndex
    matchIndex := Dict.ofKeys peers fun p => (x.matchIndex.get p).getD 0 }

end Node

end RaftRx.Python
