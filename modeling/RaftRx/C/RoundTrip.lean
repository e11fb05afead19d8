import RaftRx.C.System

/-!
What `raft_storage_node_save` writes, `raft_storage_node_load` reads back.

* `IdOk`: a nonempty id without white space that fits its buffer and is not the mark `-` of a
  missing vote;
* `readMeta_writeMeta`: `meta.txt`, for a node whose ids are well formed;
* `numbers_readMeta`: its numbers, for a node whose ids only fit their lines;
* `FieldsOk`, `readLog_writeLog`: `log.txt`, for entries without separators;
* `LogEntry.stamp`, `stamps_readLog`: index, term and leader of the entries, for commands that only
  stay on their lines.
-/

namespace RaftRx.C

open Text

variable {σ : Type*}

/-- A well-formed id. -/
structure IdOk (id : CString) : Prop where
  ne_nil : id ≠ []
  length_le : id.length ≤ maxId - 1
  no_space : ∀ c ∈ id, isSpace c = false
  ne_dash : id ≠ ['-']

lemma not_mem_of_isSpace {id : CString} (h : ∀ c ∈ id, isSpace c = false) : '\n' ∉ id := by
  intro hmem
  have := h _ hmem
  exact absurd this (by decide)

lemma FitsInt.natAbs_lt {z : ℤ} (h : FitsInt z) : z.natAbs < 10 ^ 10 := by
  obtain ⟨h1, h2⟩ := h
  omega

/-! ### Lines -/

/-- A text made of short lines is read line by line. -/
lemma fgetsLines_flatMap {size : ℕ} (ls : List (List Char))
    (h : ∀ l ∈ ls, '\n' ∉ l ∧ l.length + 1 < size) :
    fgetsLines size (ls.flatMap (· ++ ['\n'])) = ls.map (· ++ ['\n']) := by
  induction ls with
  | nil => simp
  | cons l ls ih =>
      have hl := h l List.mem_cons_self
      have hsplit : (l :: ls).flatMap (· ++ ['\n']) = l ++ '\n' :: ls.flatMap (· ++ ['\n']) := by
        simp
      rw [hsplit, fgetsLines_line _ hl.1 hl.2, ih fun l' hl' => h l' (List.mem_cons_of_mem _ hl')]
      rfl

/-- A key of `meta.txt` with its value, without the newline. -/
def metaEntry (key : String) (value : List Char) : List Char := key.toList ++ value

lemma metaLine_eq (key : String) : metaLine key = fun value => metaEntry key value ++ ['\n'] := rfl

/-- The lines of `meta.txt`, without their newlines. -/
def metaEntries (node : Node σ) : List (List Char) :=
  [metaEntry "current_term " (decimal node.currentTerm),
   metaEntry "voted_for " (if node.votedFor = [] then ['-'] else node.votedFor),
   metaEntry "compaction_threshold " (decimal node.compactionThreshold),
   metaEntry "commit_index " (decimal node.commitIndex),
   metaEntry "snapshot_last_included_index " (decimal node.snapshotLastIncludedIndex),
   metaEntry "snapshot_last_included_term " (decimal node.snapshotLastIncludedTerm),
   metaEntry "configuration_index " (decimal node.configState.index),
   metaEntry "old_count " (decimal node.configState.oldMembers.length)] ++
  node.configState.oldMembers.map (metaEntry "old_member ") ++
  [metaEntry "new_count " (decimal node.configState.newMembers.length)] ++
  node.configState.newMembers.map (metaEntry "new_member ")

lemma writeMeta_eq (node : Node σ) : writeMeta node = (metaEntries node).flatMap (· ++ ['\n']) := by
  simp [writeMeta, metaEntries, metaLine_eq, List.flatMap_append, List.flatMap_map]

/-- A value of `meta.txt`: one short line. -/
def ValueOk (value : List Char) : Prop := '\n' ∉ value ∧ value.length ≤ 15

lemma ValueOk.metaEntry {key : String} {value : List Char} (h : ValueOk value)
    (hkey : '\n' ∉ key.toList) (hlen : key.toList.length ≤ 40) :
    '\n' ∉ metaEntry key value ∧ (metaEntry key value).length + 1 < lineSize := by
  obtain ⟨hnl, hle⟩ := h
  refine ⟨?_, ?_⟩
  · rw [C.metaEntry, List.mem_append, not_or]
    exact ⟨hkey, hnl⟩
  · rw [C.metaEntry, List.length_append, lineSize]
    omega

lemma valueOk_decimal {z : ℤ} (h : FitsInt z) : ValueOk (decimal z) :=
  ⟨not_mem_decimal (by decide) (by decide),
    (length_decimal_le h.natAbs_lt).trans (by norm_num)⟩

lemma valueOk_id {id : CString} (h : IdOk id) : ValueOk id :=
  ⟨not_mem_of_isSpace h.no_space, h.length_le⟩

/-! ### `meta.txt` -/

/-- A member list that `meta.txt` can hold. -/
structure MembersOk (members : List CString) : Prop where
  length_le : members.length ≤ maxNodes
  id : ∀ m ∈ members, IdOk m

lemma fitsInt_length {members : List CString} (h : members.length ≤ maxNodes) :
    FitsInt (members.length : ℤ) := by
  have : maxNodes = 8 := rfl
  constructor <;> omega

/-- The member arrays after `done` members have been read. -/
def slotsOf (done : List CString) : List CString := done ++ List.replicate (maxNodes - done.length) []

lemma readMember_slotsOf {done : List CString} {m : CString} {count : ℕ}
    (hdone : ∀ x ∈ done, x ≠ []) (hm : IdOk m) (hcount : done.length < count)
    (hmax : count ≤ maxNodes) :
    readMember count (slotsOf done) (m ++ ['\n']) = slotsOf (done ++ [m]) := by
  have hrep : List.replicate (maxNodes - done.length) ([] : CString)
      = [] :: List.replicate (maxNodes - (done.length + 1)) [] := by
    rw [show maxNodes - done.length = (maxNodes - (done.length + 1)) + 1 from by omega,
      List.replicate_succ]
  have htake : (slotsOf done).take count
      = done ++ (List.replicate (maxNodes - done.length) []).take (count - done.length) := by
    rw [slotsOf, List.take_append, List.take_of_length_le hcount.le]
  have hfind : ((slotsOf done).take count).findIdx? (· == []) = some done.length := by
    rw [htake, List.findIdx?_append, List.findIdx?_eq_none_iff.mpr
      (fun x hx => by simpa using hdone x hx), hrep,
      show count - done.length = (count - done.length - 1) + 1 from by omega, List.take_succ_cons]
    simp [List.findIdx?_cons]
  have hscan : scanWord (maxId - 1) (m ++ ['\n']) = some m :=
    scanWord_word hm.ne_nil hm.length_le hm.no_space (by simp [isSpace])
  rw [readMember, hfind, hscan]
  simp only [Option.getD_some]
  rw [if_pos (by omega), slotsOf, slotsOf, hrep, List.set_append_right _ _ le_rfl]
  simp

/-- Reading all member lines. -/
lemma foldl_readMember {count : ℕ} (hmax : count ≤ maxNodes) (members : List CString) :
    ∀ done : List CString, (∀ x ∈ done, x ≠ []) → (∀ x ∈ members, IdOk x) →
      count = done.length + members.length →
      members.foldl (fun slots x => readMember count slots (x ++ ['\n'])) (slotsOf done)
        = slotsOf (done ++ members) := by
  induction members with
  | nil =>
      intro done _ _ _
      simp
  | cons x members ih =>
      intro done hdone hok hcount
      rw [List.length_cons] at hcount
      have hx := hok x List.mem_cons_self
      have hdone' : ∀ y ∈ done ++ [x], y ≠ [] := by
        intro y hy
        rcases List.mem_append.mp hy with hy | hy
        · exact hdone y hy
        · rw [List.mem_singleton.mp hy]; exact hx.ne_nil
      have hcount' : count = (done ++ [x]).length + members.length := by
        rw [hcount, List.length_append, List.length_singleton]; omega
      rw [List.foldl_cons, readMember_slotsOf hdone hx (by omega) hmax,
        ih (done ++ [x]) hdone' (fun y hy => hok y (List.mem_cons_of_mem _ hy)) hcount']
      simp

/-- The member lines of the old configuration fill the old slots. -/
lemma foldl_oldMembers {m : MetaFile} {members : List CString} (hm : MembersOk members)
    (hs : m.oldSlots = slotsOf []) (hcount : m.oldCount = members.length) :
    (members.map (metaLine "old_member ")).foldl readMetaLine m
      = { m with oldSlots := slotsOf members } := by
  have hhom : members.foldl (fun m x => readMetaLine m (metaLine "old_member " x))
        { m with oldSlots := slotsOf [] }
      = { m with oldSlots :=
            members.foldl (fun slots x => readMember m.oldCount slots (x ++ ['\n'])) (slotsOf []) } :=
    List.foldl_hom (fun slots => { m with oldSlots := slots }) fun _ _ => rfl
  rw [List.foldl_map, show m = { m with oldSlots := slotsOf [] } from by rw [← hs], hhom,
    foldl_readMember (hcount ▸ hm.length_le) members [] (by simp) hm.id (by simpa using hcount)]
  rfl

/-- The member lines of the new configuration fill the new slots. -/
lemma foldl_newMembers {m : MetaFile} {members : List CString} (hm : MembersOk members)
    (hs : m.newSlots = slotsOf []) (hcount : m.newCount = members.length) :
    (members.map (metaLine "new_member ")).foldl readMetaLine m
      = { m with newSlots := slotsOf members } := by
  have hhom : members.foldl (fun m x => readMetaLine m (metaLine "new_member " x))
        { m with newSlots := slotsOf [] }
      = { m with newSlots :=
            members.foldl (fun slots x => readMember m.newCount slots (x ++ ['\n'])) (slotsOf []) } :=
    List.foldl_hom (fun slots => { m with newSlots := slots }) fun _ _ => rfl
  rw [List.foldl_map, show m = { m with newSlots := slotsOf [] } from by rw [← hs], hhom,
    foldl_readMember (hcount ▸ hm.length_le) members [] (by simp) hm.id (by simpa using hcount)]
  rfl

/-- What a node stores in `meta.txt`. -/
def metaOf (node : Node σ) : MetaFile :=
  { currentTerm := node.currentTerm
    votedFor := node.votedFor
    compactionThreshold := node.compactionThreshold
    commitIndex := node.commitIndex
    snapshotLastIncludedIndex := node.snapshotLastIncludedIndex
    snapshotLastIncludedTerm := node.snapshotLastIncludedTerm
    configurationIndex := node.configState.index
    oldCount := node.configState.oldMembers.length
    oldSlots := slotsOf node.configState.oldMembers
    newCount := node.configState.newMembers.length
    newSlots := slotsOf node.configState.newMembers }

/-- The ids a node stores are well formed. -/
structure StoredIdsOk (node : Node σ) : Prop where
  vote : node.votedFor = [] ∨ IdOk node.votedFor
  old : MembersOk node.configState.oldMembers
  new : MembersOk node.configState.newMembers

lemma atoi_line (z : ℤ) : atoi (decimal z ++ ['\n']) = z :=
  atoi_decimal z (by simp [EndsNumber])

lemma readCount_line {n : ℕ} (h : n ≤ maxNodes) : readCount (decimal n ++ ['\n']) = n := by
  simp only [readCount, atoi_line]
  rw [if_pos ⟨by omega, by omega⟩]
  omega

lemma readVote_line {vote : CString} (h : vote = [] ∨ IdOk vote) :
    readVote [] ((if vote = [] then ['-'] else vote) ++ ['\n']) = vote := by
  rcases h with rfl | h
  · rfl
  · rw [if_neg h.ne_nil, readVote,
      scanWord_word h.ne_nil h.length_le h.no_space (by simp [isSpace])]
    simp only [Option.getD_some]
    rw [if_neg h.ne_dash]

/-- The ids a node stores fit the lines of `meta.txt`. -/
structure LinesOk (node : Node σ) : Prop where
  vote : ValueOk node.votedFor
  oldCount : node.configState.oldMembers.length ≤ maxNodes
  old : ∀ m ∈ node.configState.oldMembers, ValueOk m
  newCount : node.configState.newMembers.length ≤ maxNodes
  new : ∀ m ∈ node.configState.newMembers, ValueOk m

lemma StoredIdsOk.linesOk {node : Node σ} (h : StoredIdsOk node) : LinesOk node where
  vote := by
    rcases h.vote with h | h
    · rw [h]
      exact ⟨by simp, by simp⟩
    · exact valueOk_id h
  oldCount := h.old.length_le
  old := fun m hm => valueOk_id (h.old.id m hm)
  newCount := h.new.length_le
  new := fun m hm => valueOk_id (h.new.id m hm)

/-- The lines of `meta.txt` are read one by one. -/
lemma fileLines_writeMeta {node : Node σ} (hfit : node.Fits) (hids : LinesOk node) :
    fileLines (some (writeMeta node)) = (metaEntries node).map (· ++ ['\n']) := by
  obtain ⟨-, hterm, -, hthr, hcommit, hsi, hst, hci, -⟩ := hfit
  rw [fileLines, writeMeta_eq]
  refine fgetsLines_flatMap _ fun l hl => ?_
  have hvote : ValueOk (if node.votedFor = [] then ['-'] else node.votedFor) := by
    split
    · exact ⟨by decide, by decide⟩
    · exact hids.vote
  simp only [metaEntries, List.mem_append, List.mem_cons, List.mem_map, List.not_mem_nil,
    or_false] at hl
  rcases hl with ((h | ⟨m, hm, rfl⟩) | rfl) | ⟨m, hm, rfl⟩
  · rcases h with rfl | rfl | rfl | rfl | rfl | rfl | rfl | rfl
    · exact (valueOk_decimal hterm).metaEntry (by decide) (by decide)
    · exact hvote.metaEntry (by decide) (by decide)
    · exact (valueOk_decimal hthr).metaEntry (by decide) (by decide)
    · exact (valueOk_decimal hcommit).metaEntry (by decide) (by decide)
    · exact (valueOk_decimal hsi).metaEntry (by decide) (by decide)
    · exact (valueOk_decimal hst).metaEntry (by decide) (by decide)
    · exact (valueOk_decimal hci).metaEntry (by decide) (by decide)
    · exact (valueOk_decimal (fitsInt_length hids.oldCount)).metaEntry (by decide) (by decide)
  · exact (hids.old m hm).metaEntry (by decide) (by decide)
  · exact (valueOk_decimal (fitsInt_length hids.newCount)).metaEntry (by decide) (by decide)
  · exact (hids.new m hm).metaEntry (by decide) (by decide)

/-- The lines of `meta.txt`: eight of the node itself, then its members. -/
lemma lines_writeMeta {node : Node σ} (hfit : node.Fits) (hids : LinesOk node) :
    fileLines (some (writeMeta node)) =
      [metaLine "current_term " (decimal node.currentTerm),
       metaLine "voted_for " (if node.votedFor = [] then ['-'] else node.votedFor),
       metaLine "compaction_threshold " (decimal node.compactionThreshold),
       metaLine "commit_index " (decimal node.commitIndex),
       metaLine "snapshot_last_included_index " (decimal node.snapshotLastIncludedIndex),
       metaLine "snapshot_last_included_term " (decimal node.snapshotLastIncludedTerm),
       metaLine "configuration_index " (decimal node.configState.index),
       metaLine "old_count " (decimal node.configState.oldMembers.length)] ++
      (node.configState.oldMembers.map (metaLine "old_member ") ++
      (metaLine "new_count " (decimal node.configState.newMembers.length) ::
      node.configState.newMembers.map (metaLine "new_member "))) := by
  rw [fileLines_writeMeta hfit hids]
  simp [metaEntries, metaLine_eq, Function.comp_def]

/-- What the first eight lines of `meta.txt` fill in. -/
def headOf (node : Node σ) : MetaFile :=
  { currentTerm := node.currentTerm
    votedFor := readVote [] ((if node.votedFor = [] then ['-'] else node.votedFor) ++ ['\n'])
    compactionThreshold := node.compactionThreshold
    commitIndex := node.commitIndex
    snapshotLastIncludedIndex := node.snapshotLastIncludedIndex
    snapshotLastIncludedTerm := node.snapshotLastIncludedTerm
    configurationIndex := node.configState.index
    oldCount := readCount (decimal node.configState.oldMembers.length ++ ['\n']) }

/-- The head lines, one field each. -/
lemma foldl_head (node : Node σ) :
    [metaLine "current_term " (decimal node.currentTerm),
     metaLine "voted_for " (if node.votedFor = [] then ['-'] else node.votedFor),
     metaLine "compaction_threshold " (decimal node.compactionThreshold),
     metaLine "commit_index " (decimal node.commitIndex),
     metaLine "snapshot_last_included_index " (decimal node.snapshotLastIncludedIndex),
     metaLine "snapshot_last_included_term " (decimal node.snapshotLastIncludedTerm),
     metaLine "configuration_index " (decimal node.configState.index),
     metaLine "old_count " (decimal node.configState.oldMembers.length)].foldl readMetaLine {} =
    headOf node := by
  change ({
      currentTerm := atoi (decimal node.currentTerm ++ ['\n'])
      votedFor := readVote [] ((if node.votedFor = [] then ['-'] else node.votedFor) ++ ['\n'])
      compactionThreshold := atoi (decimal node.compactionThreshold ++ ['\n'])
      commitIndex := atoi (decimal node.commitIndex ++ ['\n'])
      snapshotLastIncludedIndex := atoi (decimal node.snapshotLastIncludedIndex ++ ['\n'])
      snapshotLastIncludedTerm := atoi (decimal node.snapshotLastIncludedTerm ++ ['\n'])
      configurationIndex := atoi (decimal node.configState.index ++ ['\n'])
      oldCount := readCount (decimal node.configState.oldMembers.length ++ ['\n']) }
    : MetaFile) = _
  rw [atoi_line, atoi_line, atoi_line, atoi_line, atoi_line, atoi_line]
  rfl

/-- What is read from `meta.txt` when its lines and its members are whole, whatever the vote. -/
lemma readMeta_members {node : Node σ} (hfit : node.Fits) (hids : LinesOk node)
    (hold : MembersOk node.configState.oldMembers) (hnew : MembersOk node.configState.newMembers) :
    readMeta (some (writeMeta node)) = { metaOf node with
      votedFor := readVote [] ((if node.votedFor = [] then ['-'] else node.votedFor) ++ ['\n']) } := by
  have hnewCount : ∀ m : MetaFile,
      readMetaLine m (metaLine "new_count " (decimal node.configState.newMembers.length))
        = { m with newCount := node.configState.newMembers.length } := by
    intro m
    change { m with
      newCount := readCount (decimal node.configState.newMembers.length ++ ['\n']) } = _
    rw [readCount_line hnew.length_le]
  rw [readMeta, lines_writeMeta hfit hids, List.foldl_append, foldl_head, headOf,
    readCount_line hold.length_le, List.foldl_append, foldl_oldMembers hold rfl rfl,
    List.foldl_cons, hnewCount, foldl_newMembers hnew rfl rfl]
  rfl

/-- **`meta.txt` is read back as it was written.** -/
theorem readMeta_writeMeta {node : Node σ} (hfit : node.Fits) (hids : StoredIdsOk node) :
    readMeta (some (writeMeta node)) = metaOf node := by
  rw [readMeta_members hfit hids.linesOk hids.old hids.new, readVote_line hids.vote]
  rfl

/-- The files agree on everything but the members. -/
def MetaFile.SameNumbers (m m' : MetaFile) : Prop :=
  m'.currentTerm = m.currentTerm ∧ m'.votedFor = m.votedFor ∧
    m'.compactionThreshold = m.compactionThreshold ∧ m'.commitIndex = m.commitIndex ∧
    m'.snapshotLastIncludedIndex = m.snapshotLastIncludedIndex ∧
    m'.snapshotLastIncludedTerm = m.snapshotLastIncludedTerm ∧
    m'.configurationIndex = m.configurationIndex

lemma MetaFile.SameNumbers.trans {m m' m'' : MetaFile} (h : m.SameNumbers m')
    (h' : m'.SameNumbers m'') : m.SameNumbers m'' := by
  obtain ⟨h1, h2, h3, h4, h5, h6, h7⟩ := h
  obtain ⟨g1, g2, g3, g4, g5, g6, g7⟩ := h'
  exact ⟨g1.trans h1, g2.trans h2, g3.trans h3, g4.trans h4, g5.trans h5, g6.trans h6,
    g7.trans h7⟩

lemma sameNumbers_foldl (key : String)
    (h : ∀ (m : MetaFile) (v : CString), m.SameNumbers (readMetaLine m (metaLine key v)))
    (members : List CString) : ∀ m : MetaFile,
      m.SameNumbers ((members.map (metaLine key)).foldl readMetaLine m) := by
  induction members with
  | nil => exact fun m => ⟨rfl, rfl, rfl, rfl, rfl, rfl, rfl⟩
  | cons v members ih => exact fun m => (h m v).trans (ih _)

/-- **The numbers of `meta.txt` are read back** whenever its lines are. -/
theorem numbers_readMeta {node : Node σ} (hfit : node.Fits) (hids : LinesOk node) :
    (headOf node).SameNumbers (readMeta (some (writeMeta node))) := by
  rw [readMeta, lines_writeMeta hfit hids, List.foldl_append, foldl_head, List.foldl_append,
    List.foldl_cons]
  have hold := sameNumbers_foldl "old_member "
    (fun _ _ => ⟨rfl, rfl, rfl, rfl, rfl, rfl, rfl⟩) node.configState.oldMembers (headOf node)
  have hnew := sameNumbers_foldl "new_member "
    (fun _ _ => ⟨rfl, rfl, rfl, rfl, rfl, rfl, rfl⟩) node.configState.newMembers
  have hcount : ∀ m : MetaFile, m.SameNumbers
      (readMetaLine m (metaLine "new_count " (decimal node.configState.newMembers.length))) :=
    fun _ => ⟨rfl, rfl, rfl, rfl, rfl, rfl, rfl⟩
  exact (hold.trans (hcount _)).trans (hnew _)

/-- The configuration comes back as it was. -/
lemma configState_metaOf (node : Node σ) :
    (metaOf node).configState = node.configState := by
  have htake : ∀ members : List CString, (slotsOf members).take members.length = members := by
    intro members
    rw [slotsOf, List.take_left']
    rfl
  simp only [MetaFile.configState, metaOf, htake]

theorem configState_readMeta {node : Node σ} (hfit : node.Fits) (hids : LinesOk node)
    (hold : MembersOk node.configState.oldMembers) (hnew : MembersOk node.configState.newMembers) :
    (readMeta (some (writeMeta node))).configState = node.configState := by
  rw [readMeta_members hfit hids hold hnew]
  exact configState_metaOf node

/-! ### `log.txt` -/

/-- The texts of an entry stay on its line and, up to the leader, in their fields. -/
structure StampOk (e : LogEntry) : Prop where
  leader : '|' ∉ e.leaderId ∧ '\n' ∉ e.leaderId
  op : '\n' ∉ e.command.op
  key : '\n' ∉ e.command.key
  value : '\n' ∉ e.command.value

/-- The texts of an entry stay in their fields. -/
structure LineOk (e : LogEntry) : Prop extends StampOk e where
  opField : '|' ∉ e.command.op
  keyField : '|' ∉ e.command.key
  valueField : '|' ∉ e.command.value

/-- The texts of an entry end where the reader of its line ends them: the value is the last field,
so separators in it do no harm. -/
structure FieldsOk (e : LogEntry) : Prop extends StampOk e where
  opField : '|' ∉ e.command.op
  keyField : '|' ∉ e.command.key

lemma LineOk.fieldsOk {e : LogEntry} (h : LineOk e) : FieldsOk e where
  toStampOk := h.toStampOk
  opField := h.opField
  keyField := h.keyField

/-- What `log.txt` says about an entry besides its command. -/
def LogEntry.stamp (e : LogEntry) : ℤ × ℤ × CString := (e.index, e.term, e.leaderId)

/-- An entry as a line, without the newline. -/
def entryText (e : LogEntry) : List Char :=
  decimal e.index ++ '|' :: (decimal e.term ++ '|' :: (e.leaderId ++ '|' ::
    (e.command.op ++ '|' :: (e.command.key ++ '|' :: e.command.value))))

lemma logLine_eq (e : LogEntry) : logLine e = entryText e ++ ['\n'] := by
  simp [logLine, entryText]

lemma entryText_short {e : LogEntry} (hfit : e.Fits) (h : StampOk e) :
    '\n' ∉ entryText e ∧ (entryText e).length + 1 < lineSize := by
  obtain ⟨hi, ht, hl, ho, hk, hv⟩ := hfit
  have hdi : '\n' ∉ decimal e.index := not_mem_decimal (by decide) (by decide)
  have hdt : '\n' ∉ decimal e.term := not_mem_decimal (by decide) (by decide)
  have hli := length_decimal_le hi.natAbs_lt
  have hlt := length_decimal_le ht.natAbs_lt
  refine ⟨?_, ?_⟩
  · simp [entryText, hdi, hdt, h.leader.2, h.op, h.key, h.value]
  · simp only [FitsBuffer, maxId, maxOp, maxKey, maxValue] at hl ho hk hv
    simp only [entryText, List.length_append, List.length_cons, lineSize]
    omega

lemma fileLines_writeLog {node : Node σ} (hfit : ∀ e ∈ node.log, e.Fits)
    (hok : ∀ e ∈ node.log, StampOk e) :
    fileLines (some (writeLog node)) = node.log.map logLine := by
  have hflat : writeLog node = (node.log.map entryText).flatMap (· ++ ['\n']) := by
    rw [writeLog, List.flatMap_map]
    exact List.flatMap_congr fun e _ => logLine_eq e
  rw [fileLines, hflat, fgetsLines_flatMap _ fun l hl => ?_, List.map_map]
  · exact List.map_congr_left fun e _ => (logLine_eq e).symm
  · obtain ⟨e, he, rfl⟩ := List.mem_map.mp hl
    exact entryText_short (hfit e he) (hok e he)

lemma atoi_field (z : ℤ) : atoi (decimal z) = z := by
  have h : atoi (decimal z ++ []) = z := atoi_decimal z (by simp [EndsNumber])
  rwa [List.append_nil] at h

/-- A text with enough separators splits, whatever its fields hold. -/
lemma splitFields_of_count (sep : Char) (n : ℕ) : ∀ s : List Char, n ≤ s.count sep →
    ∃ fs, splitFields sep (n + 1) s = some fs ∧ fs.length = n + 1 := by
  induction n with
  | zero => exact fun s _ => ⟨_, rfl, rfl⟩
  | succ n ih =>
      intro s hs
      have hcount : (s.dropWhile (· ≠ sep)).count sep = s.count sep := by
        have hzero : (s.takeWhile (· ≠ sep)).count sep = 0 := by
          refine List.count_eq_zero_of_not_mem fun hmem => ?_
          have hne := List.all_eq_true.mp (List.all_takeWhile (p := (· ≠ sep)) (l := s)) sep hmem
          simp at hne
        conv_rhs => rw [← List.takeWhile_append_dropWhile (p := (· ≠ sep)) (l := s)]
        rw [List.count_append, hzero, zero_add]
      cases hd : s.dropWhile (· ≠ sep) with
      | nil =>
          rw [hd, List.count_nil] at hcount
          omega
      | cons c rest =>
          have hrest : n ≤ rest.count sep := by
            rw [hd, List.count_cons] at hcount
            split at hcount <;> omega
          obtain ⟨fs, hfs, hlen⟩ := ih rest hrest
          refine ⟨s.takeWhile (· ≠ sep) :: fs, ?_, by rw [List.length_cons, hlen]⟩
          rw [splitFields, hd]
          simp only [hfs, Option.map_some]

/-- The first three fields of a line. -/
lemma splitFields_logLine {e : LogEntry} (h : StampOk e) :
    splitFields '|' 6 (logLine e) = (splitFields '|' 3 (e.command.op ++ '|' ::
      (e.command.key ++ '|' :: (e.command.value ++ ['\n'])))).map
        fun fs => decimal e.index :: decimal e.term :: e.leaderId :: fs := by
  rw [logLine, splitFields_cons (not_mem_decimal (by decide) (by decide)),
    splitFields_cons (not_mem_decimal (by decide) (by decide)), splitFields_cons h.leader.1,
    Option.map_map, Option.map_map]
  rfl

lemma strncpy_of_fits {size : ℕ} {t : CString} (h : FitsBuffer size t) : strncpy size t = t :=
  List.take_of_length_le (by rw [FitsBuffer] at h; omega)

/-- Index, term and leader of an entry are read back from its line. -/
lemma parseEntry_stamp {e : LogEntry} (hfit : e.Fits) (h : StampOk e) :
    ∃ e', parseEntry (logLine e) = some e' ∧ e'.stamp = e.stamp := by
  obtain ⟨fs, hfs, hlen⟩ := splitFields_of_count '|' 2 (e.command.op ++ '|' ::
    (e.command.key ++ '|' :: (e.command.value ++ ['\n']))) (by
      simp only [List.count_append, List.count_cons_self]
      omega)
  obtain ⟨o, k, v, rfl⟩ : ∃ o k v, fs = [o, k, v] := by
    match fs, hlen with
    | [o, k, v], _ => exact ⟨o, k, v, rfl⟩
  refine ⟨_, by rw [parseEntry, splitFields_logLine h, hfs]; rfl, ?_⟩
  rw [LogEntry.stamp, LogEntry.stamp, atoi_field, atoi_field, strncpy_of_fits hfit.2.2.1]

/-- An entry is read back from its line. -/
lemma parseEntry_logLine {e : LogEntry} (hfit : e.Fits) (h : FieldsOk e) :
    parseEntry (logLine e) = some e := by
  obtain ⟨hi, ht, hl, ho, hk, hv⟩ := hfit
  have hlast : splitFields '|' 1 (e.command.value ++ ['\n']) = some [e.command.value] :=
    splitFields_last h.value
  have hfields : splitFields '|' 3 (e.command.op ++ '|' ::
      (e.command.key ++ '|' :: (e.command.value ++ ['\n'])))
      = some [e.command.op, e.command.key, e.command.value] := by
    rw [splitFields_cons h.opField, splitFields_cons h.keyField, hlast]
    rfl
  rw [parseEntry, splitFields_logLine h.toStampOk, hfields]
  simp only [Option.map_some, atoi_field, strncpy_of_fits hl, strncpy_of_fits ho,
    strncpy_of_fits hk, strncpy_of_fits hv]

/-- The entries beyond the snapshot. -/
def beyond (s : ℤ) (log : List LogEntry) : List LogEntry := log.filter fun e => decide (s < e.index)

lemma beyond_eq_self {s : ℤ} {log : List LogEntry} (h : ∀ e ∈ log, s < e.index) :
    beyond s log = log :=
  List.filter_eq_self.mpr fun e he => decide_eq_true (h e he)

/-- The loop over `log.txt` on lines that hold entries. -/
lemma foldl_readLogLine {s : ℤ} {f : LogEntry → LogEntry} (es : List LogEntry)
    (hparse : ∀ e ∈ es, parseEntry (logLine e) = some (f e)) :
    ∀ log : List LogEntry, log.length + es.length ≤ maxLog →
      (es.map logLine).foldl (readLogLine s) log = log ++ beyond s (es.map f) := by
  induction es with
  | nil => simp [beyond]
  | cons e es ih =>
      intro log hlen
      rw [List.length_cons] at hlen
      have hrest := ih fun e' he' => hparse e' (List.mem_cons_of_mem _ he')
      rw [List.map_cons, List.foldl_cons, readLogLine, if_pos (by omega),
        hparse e List.mem_cons_self, List.map_cons, beyond, List.filter_cons]
      dsimp only
      rcases le_or_gt (f e).index s with hle | hlt
      · rw [if_pos hle, if_neg (by simpa using hle)]
        exact hrest log (by omega)
      · rw [if_neg (not_le.mpr hlt), if_pos (decide_eq_true hlt),
          hrest _ (by rw [List.length_append, List.length_singleton]; omega), List.append_assoc]
        rfl

/-- **`log.txt` is read back as it was written**, beyond the snapshot. -/
theorem readLog_writeLog {node : Node σ} {s : ℤ} (hfit : ∀ e ∈ node.log, e.Fits)
    (hok : ∀ e ∈ node.log, FieldsOk e) (hfull : node.log.length ≤ maxLog) :
    readLog s (some (writeLog node)) = beyond s node.log := by
  rw [readLog, fileLines_writeLog hfit fun e he => (hok e he).toStampOk,
    foldl_readLogLine (f := id) node.log (fun e he => parseEntry_logLine (hfit e he) (hok e he))
      [] (by simpa using hfull), List.nil_append, List.map_id]

/-- **The stamps of `log.txt` are read back** whenever its lines are. -/
theorem stamps_readLog {node : Node σ} {s : ℤ} (hfit : ∀ e ∈ node.log, e.Fits)
    (hok : ∀ e ∈ node.log, StampOk e) (hfull : node.log.length ≤ maxLog)
    (hbeyond : ∀ e ∈ node.log, s < e.index) :
    (readLog s (some (writeLog node))).map LogEntry.stamp = node.log.map LogEntry.stamp := by
  have hex : ∀ e : LogEntry, ∃ e', e ∈ node.log →
      parseEntry (logLine e) = some e' ∧ e'.stamp = e.stamp := by
    intro e
    by_cases he : e ∈ node.log
    · obtain ⟨e', h⟩ := parseEntry_stamp (hfit e he) (hok e he)
      exact ⟨e', fun _ => h⟩
    · exact ⟨e, fun h => absurd h he⟩
  choose f hf using hex
  have hindex : ∀ e ∈ node.log.map f, s < e.index := by
    intro e he
    obtain ⟨e', he', rfl⟩ := List.mem_map.mp he
    rw [show (f e').index = e'.index from congrArg Prod.fst (hf e' he').2]
    exact hbeyond e' he'
  rw [readLog, fileLines_writeLog hfit hok, foldl_readLogLine (f := f) node.log
    (fun e he => (hf e he).1) [] (by simpa using hfull), List.nil_append, beyond_eq_self hindex,
    List.map_map]
  exact List.map_congr_left fun e he => (hf e he).2

end RaftRx.C
