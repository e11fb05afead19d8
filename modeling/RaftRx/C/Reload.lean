import RaftRx.C.AppendMerge

/-!
A node that is saved and loaded again.

* `Node.Held`: what fits in the record of a node, whatever its texts;
* `snapshotIndex_readMeta`: the snapshot index is read back from `meta.txt` also when ids break
  its lines;
* `fieldsOk_of_parseEntry`: what is read from `log.txt` has no separator in its fields;
* `log_reload_iff`: exactly the logs without separators come back;
* `meta_reload`: numbers, vote and configuration come back for well-formed ids, and the commit
  index as far as the entries beyond the snapshot reach.
-/

namespace RaftRx.C

open Text

variable {σ : Type*} {A : Application σ} {x y : Node σ}

/-! ### `meta.txt`, whatever the ids -/

/-- What the record of a node can hold: numbers, buffers and arrays are within their sizes. -/
structure Node.Held (x : Node σ) : Prop where
  fits : x.Fits
  log : x.log.length ≤ maxLog
  oldCount : x.configState.oldMembers.length ≤ maxNodes
  old : ∀ m ∈ x.configState.oldMembers, FitsBuffer maxId m
  newCount : x.configState.newMembers.length ≤ maxNodes
  new : ∀ m ∈ x.configState.newMembers, FitsBuffer maxId m

/-- A short line does not set the snapshot index. -/
lemma readMetaLine_short {line : List Char} (h : line.length < 29) (mf : MetaFile) :
    (readMetaLine mf line).snapshotLastIncludedIndex = mf.snapshotLastIncludedIndex := by
  have hkey : afterKey "snapshot_last_included_index " line = none := by
    rw [afterKey, if_neg]
    intro hp
    have := (List.isPrefixOf_iff_prefix.mp hp).length_le
    rw [show "snapshot_last_included_index ".toList.length = 29 by decide] at this
    omega
  rw [readMetaLine, hkey]
  repeat' split
  all_goals first | rfl | contradiction

/-- The snapshot index is set by its own line only. -/
lemma foldl_readMetaLine_short {lines : List (List Char)} (h : ∀ l ∈ lines, l.length < 29) :
    ∀ mf : MetaFile, (lines.foldl readMetaLine mf).snapshotLastIncludedIndex
      = mf.snapshotLastIncludedIndex := by
  induction lines with
  | nil => exact fun _ => rfl
  | cons l lines ih =>
      intro mf
      rw [List.foldl_cons, ih fun l' hl' => h l' (List.mem_cons_of_mem _ hl'),
        readMetaLine_short (h l List.mem_cons_self)]

/-- Reading the text leaves the snapshot index alone. -/
def KeepsIndex (text : List Char) : Prop :=
  ∀ mf : MetaFile, ((fgetsLines lineSize text).foldl readMetaLine mf).snapshotLastIncludedIndex
    = mf.snapshotLastIncludedIndex

lemma keepsIndex_nil : KeepsIndex [] := fun _ => rfl

/-- A short line of text in front, whatever the newlines in it. -/
lemma KeepsIndex.short {v rest : List Char} (h : KeepsIndex rest) (key : String)
    (hlen : (metaLine key v).length < 29) : KeepsIndex (metaLine key v ++ rest) := by
  intro mf
  have htext : metaLine key v ++ rest = (key.toList ++ v) ++ '\n' :: rest := by simp [metaLine]
  rw [htext, fgetsLines_append, List.foldl_append, h, foldl_readMetaLine_short]
  intro l hl
  exact (length_fgetsLines hl).trans_lt hlen

/-- A line with a number in front, with another key. -/
lemma KeepsIndex.number {z : ℤ} {rest : List Char} (h : KeepsIndex rest) (key : String)
    (hz : FitsInt z) (hkey : '\n' ∉ key.toList) (hlen : key.toList.length ≤ 40)
    (hkeep : ∀ mf : MetaFile, (readMetaLine mf (metaLine key (decimal z))).snapshotLastIncludedIndex
      = mf.snapshotLastIncludedIndex) : KeepsIndex (metaLine key (decimal z) ++ rest) := by
  intro mf
  have htext : metaLine key (decimal z) ++ rest = metaEntry key (decimal z) ++ '\n' :: rest := by
    simp [metaLine, metaEntry]
  obtain ⟨hnl, hle⟩ := (valueOk_decimal hz).metaEntry hkey hlen
  rw [htext, fgetsLines_line rest hnl hle, List.foldl_cons, h]
  exact hkeep mf

/-- Member lines in front. -/
lemma KeepsIndex.members {rest : List Char} (h : KeepsIndex rest) (key : String)
    (hkey : key.toList.length ≤ 11) {members : List CString}
    (hm : ∀ m ∈ members, FitsBuffer maxId m) :
    KeepsIndex (members.flatMap (metaLine key) ++ rest) := by
  induction members with
  | nil => exact h
  | cons m members ih =>
      rw [List.flatMap_cons, List.append_assoc]
      refine (ih fun m' hm' => hm m' (List.mem_cons_of_mem _ hm')).short key ?_
      have hlt : m.length < 16 := hm m List.mem_cons_self
      simp only [metaLine, List.length_append, List.length_singleton]
      omega

/-- **The snapshot index is read back** whatever the ids. -/
theorem snapshotIndex_readMeta (h : x.Held) :
    (readMeta (some (writeMeta x))).snapshotLastIncludedIndex = x.snapshotLastIncludedIndex := by
  obtain ⟨-, -, -, -, -, hsi, hst, hci, -⟩ := h.fits
  have hnew : KeepsIndex (x.configState.newMembers.flatMap (metaLine "new_member ")) := by
    simpa using keepsIndex_nil.members "new_member " (by decide) h.new
  have hrest := (((((hnew.number "new_count " (fitsInt_length h.newCount) (by decide)
    (by decide) fun _ => rfl).members "old_member " (by decide) h.old).number
    "old_count " (fitsInt_length h.oldCount) (by decide) (by decide) fun _ => rfl).number
    "configuration_index " hci (by decide) (by decide) fun _ => rfl).number
    "snapshot_last_included_term " hst (by decide) (by decide) fun _ => rfl)
  generalize hafter : metaLine "snapshot_last_included_term "
    (decimal x.snapshotLastIncludedTerm) ++ _ = after at hrest
  have hbefore : ∃ before, writeMeta x = before ++ '\n' ::
      (metaEntry "snapshot_last_included_index " (decimal x.snapshotLastIncludedIndex) ++
        '\n' :: after) := by
    refine ⟨metaLine "current_term " (decimal x.currentTerm) ++
      metaLine "voted_for " (if x.votedFor = [] then ['-'] else x.votedFor) ++
      metaLine "compaction_threshold " (decimal x.compactionThreshold) ++
      metaEntry "commit_index " (decimal x.commitIndex), ?_⟩
    rw [← hafter]
    simp only [writeMeta, metaLine, metaEntry, List.append_assoc, List.cons_append,
      List.nil_append]
  obtain ⟨before, hbefore⟩ := hbefore
  obtain ⟨hnl, hle⟩ :
      '\n' ∉ metaEntry "snapshot_last_included_index " (decimal x.snapshotLastIncludedIndex) ∧
        (metaEntry "snapshot_last_included_index "
          (decimal x.snapshotLastIncludedIndex)).length + 1 < lineSize :=
    (valueOk_decimal hsi).metaEntry (by decide) (by decide)
  rw [readMeta, fileLines, hbefore, fgetsLines_append, fgetsLines_line after hnl hle,
    List.foldl_append, List.foldl_cons, hrest]
  change atoi (decimal x.snapshotLastIncludedIndex ++ ['\n']) = _
  exact atoi_line _

/-! ### `log.txt` -/

lemma not_mem_strncpy {size : ℕ} {c : Char} {s : CString} (h : c ∉ s) : c ∉ strncpy size s :=
  fun hmem => h (List.mem_of_mem_take hmem)

/-- **What is read from a line of `log.txt`** has no newline and no separator before its value. -/
lemma fieldsOk_of_parseEntry {line : List Char} {e : LogEntry} (hline : '\n' ∉ line.dropLast)
    (h : parseEntry line = some e) : FieldsOk e := by
  rw [parseEntry] at h
  split at h
  · rename_i index term leader op key value hfs
    obtain ⟨hnl, hsep⟩ := splitFields_free 6 hline hfs
    rw [← Option.some.inj h]
    exact
      { leader := ⟨not_mem_strncpy (hsep leader (by simp)), not_mem_strncpy (hnl leader (by simp))⟩
        op := not_mem_strncpy (hnl op (by simp))
        key := not_mem_strncpy (hnl key (by simp))
        value := not_mem_strncpy (hnl value (by simp))
        opField := not_mem_strncpy (hsep op (by simp))
        keyField := not_mem_strncpy (hsep key (by simp)) }
  · split at h
    · rename_i index term op key value hfs
      obtain ⟨hnl, hsep⟩ := splitFields_free 5 hline hfs
      rw [← Option.some.inj h]
      exact
        { leader := ⟨by simp, by simp⟩
          op := not_mem_strncpy (hnl op (by simp))
          key := not_mem_strncpy (hnl key (by simp))
          value := not_mem_strncpy (hnl value (by simp))
          opField := not_mem_strncpy (hsep op (by simp))
          keyField := not_mem_strncpy (hsep key (by simp)) }
    · simp at h

/-- So is everything the loop over `log.txt` reads; it lies beyond the snapshot. -/
lemma mem_readLog {s : ℤ} {text : List Char} {e : LogEntry} (h : e ∈ readLog s (some text)) :
    s < e.index ∧ FieldsOk e := by
  have key : ∀ (lines : List (List Char)) (log : List LogEntry),
      (∀ l ∈ lines, '\n' ∉ l.dropLast) → (∀ e ∈ log, s < e.index ∧ FieldsOk e) →
      ∀ e ∈ lines.foldl (readLogLine s) log, s < e.index ∧ FieldsOk e := by
    intro lines
    induction lines with
    | nil => exact fun log _ hlog => hlog
    | cons l lines ih =>
        intro log hlines hlog
        refine ih _ (fun l' hl' => hlines l' (List.mem_cons_of_mem _ hl')) ?_
        rw [readLogLine]
        split
        · split
          · rename_i e hparse
            split
            · exact hlog
            · rename_i hindex
              intro e' he'
              rcases List.mem_append.mp he' with he' | he'
              · exact hlog e' he'
              · rw [List.mem_singleton.mp he']
                exact ⟨not_le.mp hindex,
                  fieldsOk_of_parseEntry (hlines l List.mem_cons_self) hparse⟩
          · exact hlog
        · exact hlog
  exact key _ [] (fun l hl => newline_fgetsLines hl) (by simp) e h

/-! ### Saving and loading -/

/-- The disk after `raft_storage_node_save`. -/
def Disk.saved (disk : Disk) (x : Node σ) : Disk := disk.writeAll (save x)

lemma load_log (disk : Disk) (h : x.Held) :
    (y.load A (disk.saved x)).log
      = readLog x.snapshotLastIncludedIndex (some (writeLog x)) := by
  rw [← snapshotIndex_readMeta h, Node.load]
  dsimp only
  split <;> rfl

/-- Of a log without separators the part beyond the snapshot comes back. -/
lemma load_log_beyond (disk : Disk) (h : x.Held) (hok : ∀ e ∈ x.log, FieldsOk e) :
    (y.load A (disk.saved x)).log = beyond x.snapshotLastIncludedIndex x.log := by
  rw [load_log disk h]
  exact readLog_writeLog (fun e he => h.fits.2.2.2.2.2.2.2.2 e he) hok h.log

/-- **The log comes back exactly when nothing in it reads as a separator**: no newline in a text
and no `|` before the value. -/
theorem log_reload_iff (A : Application σ) (disk : Disk) (x y : Node σ) (h : x.Held) :
    (y.load A (disk.saved x)).log = x.log ↔
      ∀ e ∈ x.log, x.snapshotLastIncludedIndex < e.index ∧ FieldsOk e := by
  refine ⟨fun hlog e he => ?_, fun hok => ?_⟩
  · rw [load_log disk h] at hlog
    rw [← hlog] at he
    exact mem_readLog he
  · rw [load_log_beyond disk h fun e he => (hok e he).2]
    exact beyond_eq_self fun e he => (hok e he).1

/-- A node whose log holds one entry with this key and value. -/
def holding (key value : String) : Node Unit :=
  { Node.zero (threeConfig n1) () 0 with
    currentTerm := 1
    log := [{ entryOf 1 1 "n1" with command := ⟨"set".toList, key.toList, value.toList⟩ }] }

lemma held_holding {key value : String} (h : (holding key value).Fits) :
    (holding key value).Held where
  fits := h
  log := by
    change 1 ≤ maxLog
    decide
  oldCount := Nat.zero_le _
  old := by simp [holding, Node.zero]
  newCount := Nat.zero_le _
  new := by simp [holding, Node.zero]

/-- A separator in the value does no harm. -/
theorem log_reload_plain :
    ((Node.zero (threeConfig n1) () 0).load silent (Disk.empty.saved (holding "a" "b|c"))).log
      = (holding "a" "b|c").log := by
  refine (log_reload_iff silent Disk.empty (holding "a" "b|c") (Node.zero (threeConfig n1) () 0)
    (held_holding (by decide))).mpr fun e he => ?_
  rw [List.mem_singleton.mp he]
  exact ⟨by decide, ⟨⟨by decide, by decide⟩, by decide, by decide, by decide⟩, by decide, by decide⟩

/-- **A separator in the key moves text from the key to the value.** -/
theorem log_reload_moves_text :
    (holding "a|b" "c").Held ∧ (holding "a|b" "c").Contiguous ∧
      ((Node.zero (threeConfig n1) () 0).load silent (Disk.empty.saved (holding "a|b" "c"))).log
        = (holding "a" "b|c").log ∧
      ((Node.zero (threeConfig n1) () 0).load silent (Disk.empty.saved (holding "a|b" "c"))).log
        ≠ (holding "a|b" "c").log :=
  ⟨held_holding (by decide), numbered_singleton rfl, by decide +kernel,
    by decide +kernel⟩

/-- What `meta.txt` keeps of a node. -/
structure MetaKept (x y : Node σ) : Prop where
  term : y.currentTerm = x.currentTerm
  vote : y.votedFor = x.votedFor
  threshold : y.compactionThreshold = x.compactionThreshold
  snapIndex : y.snapshotLastIncludedIndex = x.snapshotLastIncludedIndex
  snapTerm : y.snapshotLastIncludedTerm = x.snapshotLastIncludedTerm
  config : y.configState = x.configState

lemma load_metaKept (disk : Disk) (hfit : x.Fits) (hids : StoredIdsOk x) :
    MetaKept x (y.load A (disk.saved x)) := by
  have hconfig := configState_metaOf x
  have hmeta : readMeta (disk.saved x).metaText = metaOf x := readMeta_writeMeta hfit hids
  rw [Node.load, hmeta]
  dsimp only
  split <;> exact ⟨rfl, rfl, rfl, rfl, rfl, hconfig⟩

/-- The commit index is cut off at the last index that was read. -/
lemma load_commitIndex (disk : Disk) (hfit : x.Fits) (hids : StoredIdsOk x) :
    (y.load A (disk.saved x)).commitIndex =
      min x.commitIndex (y.load A (disk.saved x)).lastLogIndex := by
  have hmeta : readMeta (disk.saved x).metaText = metaOf x := readMeta_writeMeta hfit hids
  rw [Node.load, hmeta, Node.lastLogIndex]
  dsimp only
  split <;> rfl

lemma StoredIdsOk.held (hids : StoredIdsOk x) (hfit : x.Fits) (hfull : x.log.length ≤ maxLog) :
    x.Held where
  fits := hfit
  log := hfull
  oldCount := hids.old.length_le
  old := fun m hm => Nat.lt_succ_of_le (hids.old.id m hm).length_le
  newCount := hids.new.length_le
  new := fun m hm => Nat.lt_succ_of_le (hids.new.id m hm).length_le

/-- The last index that the entries beyond the snapshot can have. -/
def Node.beyondIndex (x : Node σ) : ℤ :=
  x.snapshotLastIncludedIndex + (beyond x.snapshotLastIncludedIndex x.log).length

/-- **`meta.txt` comes back**: numbers, vote and configuration of a node with well-formed ids, and
its commit index as far as the entries beyond the snapshot reach. -/
theorem meta_reload (A : Application σ) (disk : Disk) (x y : Node σ) (hfit : x.Fits)
    (hids : StoredIdsOk x) (hfull : x.log.length ≤ maxLog) (hok : ∀ e ∈ x.log, LineOk e) :
    MetaKept x (y.load A (disk.saved x)) ∧
      ((y.load A (disk.saved x)).commitIndex = x.commitIndex ↔ x.commitIndex ≤ x.beyondIndex) ∧
      ((∀ e ∈ x.log, x.snapshotLastIncludedIndex < e.index) → x.commitIndex ≤ x.lastLogIndex →
        (y.load A (disk.saved x)).commitIndex = x.commitIndex) := by
  have hkept := load_metaKept (A := A) (y := y) disk hfit hids
  have hlast : (y.load A (disk.saved x)).lastLogIndex = x.beyondIndex := by
    rw [Node.lastLogIndex, hkept.snapIndex,
      load_log_beyond disk (hids.held hfit hfull) fun e he => (hok e he).fieldsOk]
    rfl
  have hcommit := load_commitIndex (A := A) (y := y) disk hfit hids
  rw [hlast] at hcommit
  refine ⟨hkept, by rw [hcommit, min_eq_left_iff], fun hbeyond hle => ?_⟩
  rw [hcommit, Node.beyondIndex, beyond_eq_self hbeyond]
  exact min_eq_left hle

/-- A node whose snapshot covers the one entry in its log. -/
def covering : Node Unit :=
  { holding "a" "b" with
    snapshotLastIncludedIndex := 1, snapshotLastIncludedTerm := 1, commitIndex := 2 }

/-- **An entry the snapshot covers is passed over**, and the commit index is cut off below it. -/
theorem meta_reload_covered :
    covering.Fits ∧ StoredIdsOk covering ∧ covering.log.length ≤ maxLog ∧
      (∀ e ∈ covering.log, LineOk e) ∧ covering.commitIndex ≤ covering.lastLogIndex ∧
      ((Node.zero (threeConfig n1) () 0).load silent (Disk.empty.saved covering)).commitIndex ≠
        covering.commitIndex := by
  have hids : StoredIdsOk covering :=
    { vote := Or.inl rfl
      old := ⟨by decide, fun m hm => absurd hm List.not_mem_nil⟩
      new := ⟨by decide, fun m hm => absurd hm List.not_mem_nil⟩ }
  have hok : ∀ e ∈ covering.log, LineOk e := by
    intro e he
    rw [List.mem_singleton.mp he]
    exact ⟨⟨by decide, by decide, by decide, by decide⟩, by decide, by decide, by decide⟩
  exact ⟨by decide, hids, by decide, hok, by decide, by decide +kernel⟩

/-- A node in a joint configuration that has not voted. -/
def unvoted : Node Unit :=
  { holding "a" "b" with commitIndex := 1, configState := ⟨[n1, n2], [n1, n2, n3], 1⟩ }

/-- Its vote, its configuration and its commit index come back. -/
theorem meta_reload_unvoted :
    MetaKept unvoted ((Node.zero (threeConfig n1) () 0).load silent (Disk.empty.saved unvoted)) ∧
      ((Node.zero (threeConfig n1) () 0).load silent (Disk.empty.saved unvoted)).commitIndex = 1 := by
  have hid : ∀ m ∈ [n1, n2, n3], IdOk m := by
    intro m hm
    simp only [List.mem_cons, List.not_mem_nil, or_false] at hm
    rcases hm with rfl | rfl | rfl <;> exact ⟨by decide, by decide, by decide, by decide⟩
  have hids : StoredIdsOk unvoted :=
    { vote := Or.inl rfl
      old := ⟨by decide, fun m hm => hid m (List.mem_of_mem_take (i := 2) hm)⟩
      new := ⟨by decide, hid⟩ }
  have h := meta_reload silent Disk.empty unvoted (Node.zero (threeConfig n1) () 0) (by decide) hids
    (by decide) fun e he => by
      rw [List.mem_singleton.mp he]
      exact ⟨⟨by decide, by decide, by decide, by decide⟩, by decide, by decide, by decide⟩
  exact ⟨h.1, h.2.1.mpr (by decide)⟩

end RaftRx.C
