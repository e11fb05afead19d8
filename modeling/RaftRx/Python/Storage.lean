import RaftRx.Python.Node

/-!
The files of a Python node (`storage.py`) and loading a node from them.

Each of the three files is replaced as a whole: `meta.json` and `log.json` by `save`, in this order,
and `snapshot.json` by `save_snapshot`.  Writing a value as JSON and reading it back gives the value
again, so a file is modelled by what is in it.

* `Disk`, `Write`: the files and the replacement of one;
* `Disk.load`: what a node reads;
* `Node.save`: what a node writes;
* `Node.loadFromStorage`, `Node.init`: a node from its files.
-/

namespace RaftRx.Python

variable {σ ν : Type}

/-! ### Files -/

/-- `meta.json` -/
structure MetaFile where
  currentTerm : ℤ
  votedFor : Option Str
  oldMembers : List Str
  newMembers : Option (List Str)
  configurationIndex : ℤ
  commitIndex : ℤ
  compactionThreshold : ℤ
  snapshotLastIncludedIndex : ℤ
  snapshotLastIncludedTerm : ℤ
  deriving DecidableEq, Repr

/-- `snapshot.json` -/
structure SnapshotFile (ν : Type) where
  lastIncludedIndex : ℤ
  lastIncludedTerm : ℤ
  application : ν

/-- The files of a node; `none` is a file that does not exist. -/
structure Disk (ν : Type) where
  metaJson : Option MetaFile
  logJson : Option (List LogEntry)
  snapshotJson : Option (SnapshotFile ν)

/-- An empty directory. -/
def Disk.empty : Disk ν := ⟨none, none, none⟩

/-- The replacement of one file. -/
inductive Write (ν : Type) where
  | metaJson (file : MetaFile)
  | logJson (entries : List LogEntry)
  | snapshotJson (file : SnapshotFile ν)

/-- `_atomic_write_json` -/
def Disk.write (disk : Disk ν) : Write ν → Disk ν
  | .metaJson file => { disk with metaJson := some file }
  | .logJson entries => { disk with logJson := some entries }
  | .snapshotJson file => { disk with snapshotJson := some file }

/-- Several replacements. -/
def Disk.writeAll (disk : Disk ν) (writes : List (Write ν)) : Disk ν :=
  writes.foldl Disk.write disk

/-- `PersistentState` -/
structure PersistentState (ν : Type) where
  currentTerm : ℤ := 0
  votedFor : Option Str := none
  oldMembers : List Str := []
  newMembers : Option (List Str) := none
  configurationIndex : ℤ := 0
  log : List LogEntry := []
  commitIndex : ℤ := 0
  compactionThreshold : ℤ := 32
  snapshotLastIncludedIndex : ℤ := 0
  snapshotLastIncludedTerm : ℤ := 0
  snapshot : Option ν := none

/-- `JsonFileStorage.load`.  Without `meta.json` the other files are not read. -/
def Disk.load (disk : Disk ν) : PersistentState ν :=
  match disk.metaJson with
  | none => {}
  | some file =>
      { currentTerm := file.currentTerm
        votedFor := file.votedFor
        oldMembers := file.oldMembers
        newMembers := file.newMembers
        configurationIndex := file.configurationIndex
        log := disk.logJson.getD []
        commitIndex := file.commitIndex
        compactionThreshold := file.compactionThreshold
        snapshotLastIncludedIndex := file.snapshotLastIncludedIndex
        snapshotLastIncludedTerm := file.snapshotLastIncludedTerm
        snapshot := disk.snapshotJson.map SnapshotFile.application }

/-! ### Loading -/

namespace Node

/-- `JsonFileStorage.save` -/
def save (x : Node σ ν) : List (Write ν) :=
  [.metaJson
      { currentTerm := x.currentTerm
        votedFor := x.votedFor
        oldMembers := x.configState.oldMembers
        newMembers := x.configState.newMembers
        configurationIndex := x.configState.index
        commitIndex := x.commitIndex
        compactionThreshold := x.compactionThreshold
        snapshotLastIncludedIndex := x.snapshotLastIncludedIndex
        snapshotLastIncludedTerm := x.snapshotLastIncludedTerm },
    .logJson x.log]

/-- The configuration a node takes from its files, or from the program when these have none. -/
def loadedConfiguration (config : NodeConfig) (p : PersistentState ν) : ClusterConfiguration :=
  if p.oldMembers ≠ [] then
    match p.newMembers with
    | none => .stable p.oldMembers p.configurationIndex
    | some new => .joint p.oldMembers new p.configurationIndex
  else .stable config.startMembers 0

/-- The machine of a joint configuration is in `JOINT`. -/
def loadedMembershipState (c : ClusterConfiguration) : MembershipState :=
  if c.isJoint then .joint else .stable

/-- `_load_from_storage` -/
def loadFromStorage (E : Env σ ν) (disk : Disk ν) (x : Node σ ν) : Node σ ν :=
  let p := disk.load
  let c := loadedConfiguration x.config p
  let x :=
    { x with
      currentTerm := p.currentTerm
      votedFor := p.votedFor
      log := p.log
      compactionThreshold := p.compactionThreshold
      configState := c
      snapshotLastIncludedIndex := p.snapshotLastIncludedIndex
      snapshotLastIncludedTerm := p.snapshotLastIncludedTerm
      commitIndex := min p.commitIndex (p.snapshotLastIncludedIndex + p.log.length)
      lastApplied := 0
      leaderId := none
      votesReceived := [] }
  let x := x.refreshMembershipState
  let x :=
    { x with
      outbox := []
      pendingAppendEntries := []
      pendingVoteRequests := []
      pendingVotes := []
      -- a joint configuration is taken up again where it was left
      requestedMembershipChange := c.newMembers
      requestedMembershipChangePending := c.isJoint
      pendingConfigurationMembers := c.newMembers
      jointConfigIndex := 0
      finalConfigIndex := 0
      compactionRequested := false
      compactionInProgress := false
      compactionDone := false
      compactionTargetIndex := 0
      compactionTargetTerm := 0
      compactionSnapshot := none
      persistDirty := false
      user := match p.snapshot with
        | some snapshot => E.restoreSnapshot x.user snapshot
        | none => E.reload x.user
      lastContactMs := x.clockMs
      membershipState := loadedMembershipState c }
  { x with
    electionDeadlineMs := x.lastContactMs + x.nextElectionTimeoutMs
    heartbeatDeadlineMs := x.lastContactMs + x.config.heartbeatIntervalMs }

/-- `RaftNode.__init__` before it loads the files.  The deadlines are set by the load. -/
def blank (config : NodeConfig) (user : σ) (clockMs : ℤ) : Node σ ν :=
  let configState := ClusterConfiguration.stable config.startMembers 0
  let peers := configState.allMembers.filter (· ≠ config.nodeId)
  { config := config
    clockMs := clockMs
    user := user
    role := .follower
    compactionState := .idle
    membershipState := .stable
    configState := configState
    peers := peers
    running := true
    currentTerm := 0
    votedFor := none
    log := []
    snapshotLastIncludedIndex := 0
    snapshotLastIncludedTerm := 0
    compactionThreshold := 32
    commitIndex := 0
    lastApplied := 0
    leaderId := none
    votesReceived := []
    nextIndex := Dict.ofKeys peers fun _ => 1
    matchIndex := Dict.ofKeys peers fun _ => 0
    outbox := []
    pendingAppendEntries := []
    pendingVoteRequests := []
    pendingVotes := []
    requestedMembershipChange := none
    requestedMembershipChangePending := false
    pendingConfigurationMembers := none
    jointConfigIndex := 0
    finalConfigIndex := 0
    compactionRequested := false
    compactionInProgress := false
    compactionDone := false
    compactionTargetIndex := 0
    compactionTargetTerm := 0
    compactionSnapshot := none
    persistDirty := false
    lastContactMs := clockMs
    electionDeadlineMs := clockMs
    heartbeatDeadlineMs := clockMs }

/-- `RaftNode.__init__` -/
def init (E : Env σ ν) (config : NodeConfig) (disk : Disk ν) (user : σ) (clockMs : ℤ) :
    Node σ ν :=
  (blank config user clockMs).loadFromStorage E disk

/-! ### Stop and start -/

/-- `stop` -/
def stop (x : Node σ ν) : Node σ ν :=
  { x with
    running := false
    pendingAppendEntries := []
    pendingVoteRequests := []
    pendingVotes := []
    outbox := []
    votesReceived := []
    leaderId := none
    role := .follower
    compactionState := .idle
    membershipState := .stable }

/-- `start` -/
def start (E : Env σ ν) (disk : Disk ν) (x : Node σ ν) : Node σ ν :=
  let x := x.loadFromStorage E disk
  { x with
    running := true
    role := .follower
    compactionState := .idle
    membershipState := loadedMembershipState x.configState }

end Node

end RaftRx.Python
