import RaftRx.C.Membership

/-!
The files of the C node (`raft_storage.c`) and log compaction.

The disk holds three files: the texts `meta.txt` and `log.txt` and the record `snapshot.bin`.
Each is replaced as a whole (write to a temporary file, then rename).

* `writeMeta`, `writeLog`: the texts `raft_storage_node_save` writes;
* `MetaFile`, `readMeta`, `readLog`: the loops of `raft_storage_node_load`;
* `Node.load`: the whole of `raft_storage_node_load`;
* `Node.doCompact`: `node_do_compact`, with the snapshot it saves.
-/

namespace RaftRx.C

open Protocol (Role)
open Text

variable {σ : Type*} (A : Application σ)

/-! ### Files -/

/-- `snapshot.bin` -/
structure SnapshotFile where
  index : ℤ
  term : ℤ
  data : List UInt8
  deriving DecidableEq, Repr

/-- The data directory of a node. -/
structure Disk where
  metaText : Option (List Char)
  logText : Option (List Char)
  snapshot : Option SnapshotFile
  deriving DecidableEq, Repr

/-- The replacement of one file. -/
inductive Write where
  | snapshot (file : SnapshotFile)
  | metaText (text : List Char)
  | logText (text : List Char)
  deriving DecidableEq, Repr

/-- `atomic_replace_path` -/
def Disk.write (disk : Disk) : Write → Disk
  | .snapshot file => { disk with snapshot := some file }
  | .metaText text => { disk with metaText := some text }
  | .logText text => { disk with logText := some text }

/-- An empty data directory. -/
def Disk.empty : Disk := { metaText := none, logText := none, snapshot := none }

/-! ### Saving -/

/-- One line of `meta.txt`. -/
def metaLine (key : String) (value : List Char) : List Char := key.toList ++ value ++ ['\n']

/-- `write_meta` -/
def writeMeta (node : Node σ) : List Char :=
  metaLine "current_term " (decimal node.currentTerm) ++
  metaLine "voted_for " (if node.votedFor = [] then ['-'] else node.votedFor) ++
  metaLine "compaction_threshold " (decimal node.compactionThreshold) ++
  metaLine "commit_index " (decimal node.commitIndex) ++
  metaLine "snapshot_last_included_index " (decimal node.snapshotLastIncludedIndex) ++
  metaLine "snapshot_last_included_term " (decimal node.snapshotLastIncludedTerm) ++
  metaLine "configuration_index " (decimal node.configState.index) ++
  metaLine "old_count " (decimal node.configState.oldMembers.length) ++
  node.configState.oldMembers.flatMap (metaLine "old_member ") ++
  metaLine "new_count " (decimal node.configState.newMembers.length) ++
  node.configState.newMembers.flatMap (metaLine "new_member ")

/-- One line of `log.txt`. -/
def logLine (entry : LogEntry) : List Char :=
  decimal entry.index ++ '|' :: (decimal entry.term ++ '|' :: (entry.leaderId ++ '|' ::
    (entry.command.op ++ '|' :: (entry.command.key ++ '|' :: (entry.command.value ++ ['\n'])))))

/-- `write_log` -/
def writeLog (node : Node σ) : List Char := node.log.flatMap logLine

/-- `raft_storage_node_save`: first `meta.txt`, then `log.txt`. -/
def save (node : Node σ) : List Write := [.metaText (writeMeta node), .logText (writeLog node)]

/-! ### Loading -/

/-- What the loop over `meta.txt` fills in; the member arrays have `maxNodes` slots. -/
structure MetaFile where
  currentTerm : ℤ := 0
  votedFor : CString := []
  compactionThreshold : ℤ := maxLog
  commitIndex : ℤ := 0
  snapshotLastIncludedIndex : ℤ := 0
  snapshotLastIncludedTerm : ℤ := 0
  configurationIndex : ℤ := 0
  oldCount : ℕ := 0
  oldSlots : List CString := List.replicate maxNodes []
  newCount : ℕ := 0
  newSlots : List CString := List.replicate maxNodes []
  deriving DecidableEq, Repr

/-- `strncmp(line, key, strlen(key)) == 0`, and the text after the key. -/
def afterKey (key : String) (line : List Char) : Option (List Char) :=
  if key.toList.isPrefixOf line then some (line.drop key.toList.length) else none

/-- A count as it is read: at most `maxNodes`; a negative number becomes a large `size_t`. -/
def readCount (text : List Char) : ℕ :=
  let n := atoi text
  if 0 ≤ n ∧ n ≤ maxNodes then n.toNat else maxNodes

/-- A member line: the first empty slot below the count, or the slot at the count. -/
def readMember (count : ℕ) (slots : List CString) (text : List Char) : List CString :=
  let idx := ((slots.take count).findIdx? (· == [])).getD count
  if idx < maxNodes then
    match scanWord (maxId - 1) text with
    | some w => slots.set idx w
    | none => slots
  else slots

/-- The vote as it is read. -/
def readVote (old : CString) (text : List Char) : CString :=
  let v := (scanWord (maxId - 1) text).getD old
  if v = ['-'] then [] else v

/-- The body of the loop over `meta.txt`. -/
def readMetaLine (m : MetaFile) (line : List Char) : MetaFile :=
  if let some v := afterKey "current_term " line then { m with currentTerm := atoi v }
  else if let some v := afterKey "voted_for " line then { m with votedFor := readVote m.votedFor v }
  else if let some v := afterKey "compaction_threshold " line then
    { m with compactionThreshold := atoi v }
  else if let some v := afterKey "commit_index " line then { m with commitIndex := atoi v }
  else if let some v := afterKey "snapshot_last_included_index " line then
    { m with snapshotLastIncludedIndex := atoi v }
  else if let some v := afterKey "snapshot_last_included_term " line then
    { m with snapshotLastIncludedTerm := atoi v }
  else if let some v := afterKey "configuration_index " line then
    { m with configurationIndex := atoi v }
  else if let some v := afterKey "old_count " line then { m with oldCount := readCount v }
  else if let some v := afterKey "old_member " line then
    { m with oldSlots := readMember m.oldCount m.oldSlots v }
  else if let some v := afterKey "new_count " line then { m with newCount := readCount v }
  else if let some v := afterKey "new_member " line then
    { m with newSlots := readMember m.newCount m.newSlots v }
  else m

/-- The size of the line buffer. -/
def lineSize : ℕ := 512

/-- The strings `fgets` returns on a file; none if it cannot be opened. -/
def fileLines (file : Option (List Char)) : List (List Char) :=
  match file with
  | none => []
  | some text => fgetsLines lineSize text

/-- The loop over `meta.txt`. -/
def readMeta (file : Option (List Char)) : MetaFile := (fileLines file).foldl readMetaLine {}

/-- The configuration `meta.txt` describes. -/
def MetaFile.configState (m : MetaFile) : ClusterConfiguration :=
  { oldMembers := m.oldSlots.take m.oldCount
    newMembers := m.newSlots.take m.newCount
    index := m.configurationIndex }

/-- A line of `log.txt`: six fields, or the older format with five. -/
def parseEntry (line : List Char) : Option LogEntry :=
  match splitFields '|' 6 line with
  | some [index, term, leader, op, key, value] =>
      some
        { index := atoi index
          term := atoi term
          leaderId := strncpy maxId leader
          command :=
            { op := strncpy maxOp op, key := strncpy maxKey key, value := strncpy maxValue value } }
  | _ =>
    match splitFields '|' 5 line with
    | some [index, term, op, key, value] =>
        some
          { index := atoi index
            term := atoi term
            leaderId := []
            command :=
              { op := strncpy maxOp op, key := strncpy maxKey key,
                value := strncpy maxValue value } }
    | _ => none

/-- The body of the loop over `log.txt`. -/
def readLogLine (snapshotIndex : ℤ) (log : List LogEntry) (line : List Char) : List LogEntry :=
  if log.length < maxLog then
    match parseEntry line with
    | some entry => if entry.index ≤ snapshotIndex then log else log ++ [entry]
    | none => log
  else log

/-- The loop over `log.txt`. -/
def readLog (snapshotIndex : ℤ) (file : Option (List Char)) : List LogEntry :=
  (fileLines file).foldl (readLogLine snapshotIndex) []

/-- The snapshot file is used when it belongs to `meta.txt`. -/
def matchingSnapshot (m : MetaFile) (file : Option SnapshotFile) : Option (List UInt8) :=
  match file with
  | none => none
  | some f =>
    if f.index = m.snapshotLastIncludedIndex ∧ f.term = m.snapshotLastIncludedTerm then
      some (if f.data.length ≤ maxSnapshotSize then f.data else [])
    else none

/-- `raft_storage_node_load` -/
def Node.load (disk : Disk) (node : Node σ) : Node σ :=
  let m := readMeta disk.metaText
  let log := readLog m.snapshotLastIncludedIndex disk.logText
  let snap := matchingSnapshot m disk.snapshot
  let node :=
    { node with
      currentTerm := m.currentTerm
      votedFor := m.votedFor
      log := log
      snapshotLastIncludedIndex := m.snapshotLastIncludedIndex
      snapshotLastIncludedTerm := m.snapshotLastIncludedTerm
      commitIndex := min m.commitIndex (m.snapshotLastIncludedIndex + log.length)
      snapshotBuf := snap.getD []
      compactionThreshold := m.compactionThreshold
      configState := m.configState }
  match snap with
  | some data =>
      { node with
        user := match A.restoreSnapshot with
          | some restore => restore node.user data
          | none => node.user
        lastApplied := node.snapshotLastIncludedIndex }
  | none =>
      { node with
        user := match A.reload with
          | some reload => reload node.user
          | none => node.user
        lastApplied := 0 }

/-! ### Compaction -/

namespace Node

/-- `node_compactible_index` -/
def compactibleIndex (node : Node σ) : ℤ :=
  if node.state ≠ .leader then node.lastApplied
  else (node.matchIndex.take node.config.peers.length).foldl min node.lastApplied

/-- `node_should_compact` -/
def shouldCompact (node : Node σ) : Bool :=
  decide (0 < node.compactionThreshold) &&
    decide (node.compactionThreshold ≤ node.compactibleIndex - node.snapshotLastIncludedIndex)

/-- `node_do_compact`: the node and the snapshot it saved. -/
def doCompact (node : Node σ) : Node σ × Option SnapshotFile :=
  let target := node.compactibleIndex
  if target ≤ node.snapshotLastIncludedIndex ∨ node.lastLogIndex < target then (node, none)
  else
    let targetTerm := node.termAtIndex target
    let data := match A.snapshot with
      | some snapshot => (snapshot node.user).val
      | none => []
    let keepFrom := (target - node.snapshotLastIncludedIndex).toNat
    let node' :=
      { node with
        snapshotBuf := data
        log := node.log.drop keepFrom
        snapshotLastIncludedIndex := target
        snapshotLastIncludedTerm := targetTerm
        persistDirty := true }
    (node', some { index := target, term := targetTerm, data := data })

end Node

end RaftRx.C
