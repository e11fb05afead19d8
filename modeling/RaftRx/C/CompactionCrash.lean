import RaftRx.C.JointLeave

/-!
A crash between the two files a compaction replaces.

A compaction first replaces `snapshot.bin` and the end of the tick then replaces `meta.txt`.  A
process that dies in between leaves a new snapshot beside a `meta.txt` that names an older one, and
the load falls back to an empty application with nothing applied.

* `snap_readMeta`: the snapshot position in `meta.txt` is read back whatever the ids are made of;
* `Host.SnapKept`: between two acts `meta.txt` names the snapshot of the node;
* `snapKept_exec`: every act keeps it so;
* `Recovered`: what the node should be after the crash;
* `recovered_iff`: it is so exactly if `meta.txt` names no snapshot yet, that is at the first
  compaction;
* `second_compaction_lost`: the crash at a second compaction.
-/

namespace RaftRx.C

open Protocol (Role)
open Text

variable {σ : Type*} {A : Application σ} {empty : σ} {x y : Node σ} {H : Message → Prop}
  {C : Command → Prop} {h h' : Host σ} {act : HostAct σ} {effect : Effect} {disk : Disk}

/-! ### The snapshot position in `meta.txt` -/

/-- The snapshot position `meta.txt` names. -/
def MetaFile.snap (m : MetaFile) : ℤ × ℤ :=
  (m.snapshotLastIncludedIndex, m.snapshotLastIncludedTerm)

/-- A piece of a file that does not touch the snapshot position. -/
def QuietPiece (p : List Char) : Prop := ∀ m : MetaFile, (readMetaLine m p).snap = m.snap

lemma length_of_afterKey {key : String} {line v : List Char} (h : afterKey key line = some v) :
    key.toList.length ≤ line.length := by
  rw [afterKey, Option.ite_none_right_eq_some] at h
  exact (List.isPrefixOf_iff_prefix.mp h.1).length_le

/-- The two keys are long. -/
lemma quietPiece_of_length {p : List Char} (hp : p.length < 28) : QuietPiece p := by
  intro m
  rw [readMetaLine]
  repeat' split
  any_goals rfl
  · have := length_of_afterKey ‹afterKey "snapshot_last_included_index " p = some _›
    have hlen : "snapshot_last_included_index ".toList.length = 29 := by decide
    omega
  · have := length_of_afterKey ‹afterKey "snapshot_last_included_term " p = some _›
    have hlen : "snapshot_last_included_term ".toList.length = 28 := by decide
    omega

lemma snap_foldl_quiet {ps : List (List Char)} (hps : ∀ p ∈ ps, QuietPiece p) :
    ∀ m : MetaFile, (ps.foldl readMetaLine m).snap = m.snap := by
  induction ps with
  | nil => exact fun _ => rfl
  | cons p ps ih =>
      intro m
      rw [List.foldl_cons, ih fun q hq => hps q (List.mem_cons_of_mem _ hq)]
      exact hps p List.mem_cons_self m

/-- The pieces of one entry of `meta.txt`. -/
def pieces (l : List Char) : List (List Char) := fgetsLines lineSize (l ++ ['\n'])

lemma fgetsLines_entries (ls : List (List Char)) :
    fgetsLines lineSize (ls.flatMap (· ++ ['\n'])) = ls.flatMap pieces := by
  induction ls with
  | nil => rfl
  | cons l ls ih =>
      rw [List.flatMap_cons, List.flatMap_cons, List.append_assoc, List.singleton_append,
        fgetsLines_append, ih]
      rfl

/-- A number is on one line. -/
lemma pieces_decimal (key : String) (hkey : '\n' ∉ key.toList) (hlen : key.toList.length ≤ 40)
    {z : ℤ} (hz : FitsInt z) :
    pieces (metaEntry key (decimal z)) = [metaLine key (decimal z)] := by
  obtain ⟨h1, h2⟩ := (valueOk_decimal hz).metaEntry hkey hlen
  rw [pieces, fgetsLines_line [] h1 h2]
  rfl

/-- An id may be cut into pieces; none of them is long. -/
lemma quiet_id (key : String) (hlen : key.toList.length ≤ 11) {id : CString}
    (hid : id.length < maxId) : ∀ p ∈ pieces (metaEntry key id), QuietPiece p := by
  intro p hp
  have hle := length_fgetsLines hp
  have hmax : maxId = 16 := rfl
  refine quietPiece_of_length ?_
  rw [metaEntry, List.length_append, List.length_append, List.length_singleton] at hle
  omega

/-- The ids of the configuration fit their buffers; nothing is said about their characters. -/
structure Node.ShortIds (x : Node σ) : Prop where
  old : Roster [] x.configState.oldMembers
  new : Roster [] x.configState.newMembers

/-- **The snapshot position is read back**, whatever characters the ids are made of. -/
theorem snap_readMeta (hfit : x.Fits) (hx : x.ShortIds) :
    (readMeta (some (writeMeta x))).snap =
      (x.snapshotLastIncludedIndex, x.snapshotLastIncludedTerm) := by
  obtain ⟨-, -, -, -, -, hsi, hst, hci, -⟩ := hfit
  have hdec : ∀ (key : String), '\n' ∉ key.toList → key.toList.length ≤ 40 →
      (∀ v, QuietPiece (metaLine key v)) → ∀ {z : ℤ}, FitsInt z →
        ∀ p ∈ pieces (metaEntry key (decimal z)), QuietPiece p := by
    intro key h1 h2 hq z hz p hp
    rw [pieces_decimal key h1 h2 hz, List.mem_singleton] at hp
    rw [hp]
    exact hq _
  rw [readMeta, fileLines, writeMeta_eq, fgetsLines_entries]
  -- the lines before the two, the two, and the lines after them
  have hsplit : (metaEntries x).flatMap pieces =
      ([metaEntry "current_term " (decimal x.currentTerm),
        metaEntry "voted_for " (if x.votedFor = [] then ['-'] else x.votedFor),
        metaEntry "compaction_threshold " (decimal x.compactionThreshold),
        metaEntry "commit_index " (decimal x.commitIndex)].flatMap pieces) ++
      ([metaLine "snapshot_last_included_index " (decimal x.snapshotLastIncludedIndex),
        metaLine "snapshot_last_included_term " (decimal x.snapshotLastIncludedTerm)] ++
      (([metaEntry "configuration_index " (decimal x.configState.index),
          metaEntry "old_count " (decimal x.configState.oldMembers.length)] ++
        x.configState.oldMembers.map (metaEntry "old_member ") ++
        [metaEntry "new_count " (decimal x.configState.newMembers.length)] ++
        x.configState.newMembers.map (metaEntry "new_member ")).flatMap pieces)) := by
    have hi := pieces_decimal "snapshot_last_included_index " (by decide) (by decide) hsi
    have ht := pieces_decimal "snapshot_last_included_term " (by decide) (by decide) hst
    simp [metaEntries, hi, ht]
  rw [hsplit, List.foldl_append, List.foldl_append, snap_foldl_quiet]
  · change (atoi (decimal x.snapshotLastIncludedIndex ++ ['\n']),
      atoi (decimal x.snapshotLastIncludedTerm ++ ['\n'])) = _
    rw [atoi_line, atoi_line]
  · intro p hp
    obtain ⟨l, hl, hp⟩ := List.mem_flatMap.mp hp
    simp only [List.mem_append, List.mem_cons, List.mem_map, List.not_mem_nil, or_false] at hl
    rcases hl with (((rfl | rfl) | ⟨id, hid, rfl⟩) | rfl) | ⟨id, hid, rfl⟩
    · exact hdec _ (by decide) (by decide) (fun _ _ => rfl) hci p hp
    · exact hdec _ (by decide) (by decide) (fun _ _ => rfl) (fitsInt_length hx.old.count) p hp
    · exact quiet_id _ (by decide) (hx.old.short id hid) p hp
    · exact hdec _ (by decide) (by decide) (fun _ _ => rfl) (fitsInt_length hx.new.count) p hp
    · exact quiet_id _ (by decide) (hx.new.short id hid) p hp

/-! ### Configurations -/

lemma free_anything (s : CString) : Free [] s := fun _ _ => List.not_mem_nil

lemma roster_normalized (ids : List CString) : Roster [] (normalizeMembers ids maxNodes) :=
  roster_normalizeMembers fun id _ => free_anything id

lemma Node.ShortIds.same (hx : x.ShortIds) (hc : y.configState = x.configState) : y.ShortIds := by
  obtain ⟨hold, hnew⟩ := hx
  constructor
  · rw [hc]
    exact hold
  · rw [hc]
    exact hnew

/-- A configuration read from a file. -/
lemma shortIds_readMeta (text : Option (List Char)) :
    Roster [] (readMeta text).configState.oldMembers ∧
      Roster [] (readMeta text).configState.newMembers :=
  (metaFree_foldl (fileLines text) {} (metaFree_default []) fun _ _ _ _ hc =>
    absurd hc List.not_mem_nil).roster

lemma Node.ShortIds.startConfig (hx : x.ShortIds) :
    Node.ShortIds { x with configState := x.startConfig } := by
  rw [Node.startConfig]
  split
  · rw [Node.fallbackConfig]
    split
    · exact ⟨roster_normalized _, roster_nil []⟩
    · exact ⟨roster_normalized _, roster_nil []⟩
  · exact hx

/-- A committed entry may bring a new configuration, whose ids are cut to their buffers. -/
lemma Node.ShortIds.applyNext (hx : x.ShortIds) : (x.applyNext A).1.ShortIds := by
  have hcase := applyCommand_case (A := A) { x with lastApplied := x.lastApplied + 1 }
    (x.entryAt (x.lastApplied + 1)).command
  have hy : (Node.applyCommand A { x with lastApplied := x.lastApplied + 1 }
      (x.entryAt (x.lastApplied + 1)).command).ShortIds := by
    generalize Node.applyCommand A { x with lastApplied := x.lastApplied + 1 }
      (x.entryAt (x.lastApplied + 1)).command = z at hcase ⊢
    cases hcase with
    | user | noUser | threshold | skip => exact hx.same rfl
    | enter _ _ _ => exact ⟨roster_normalized _, roster_normalized _⟩
    | leave _ hidx hne =>
        obtain ⟨r, l, v, s, heq, -⟩ := applyLeaveJoint_eq
          (x := { x with lastApplied := x.lastApplied + 1 }) hidx hne
        rw [heq]
        exact ⟨roster_normalized _, roster_nil []⟩
  exact hy.same rfl

lemma Node.ShortIds.applyCommitted (k : ℕ) : ∀ x : Node σ, x.ShortIds →
    (x.applyCommitted A k).1.ShortIds := by
  induction k with
  | zero => exact fun _ hx => hx
  | succ k ih => exact fun x hx => ih _ hx.applyNext

lemma Node.ShortIds.dumped (hx : x.ShortIds) : (x.dumped A).ShortIds := by
  have hadv : x.advanced.ShortIds := hx.same (still_advanced x).configState
  have happ : (x.commitAndApply A).1.ShortIds := by
    rw [commitAndApply_eq]
    exact Node.ShortIds.applyCommitted _ _ hadv
  have hdrive : (x.commitAndApply A).1.maybeDriveMembership.ShortIds :=
    happ.same (still_maybeDriveMembership _).configState
  exact hdrive.same (still_maybeCompact _).configState

/-! ### Hosts -/

/-- **Between two acts** `meta.txt` names the snapshot of the node. -/
structure Host.SnapKept (h : Host σ) : Prop where
  learner : h.config.learner = false
  short : h.node.ShortIds
  stored : (readMeta h.disk.metaText).snap =
    (h.node.snapshotLastIncludedIndex, h.node.snapshotLastIncludedTerm)
  nonneg : 0 ≤ h.node.snapshotLastIncludedIndex

/-- What a load makes of the snapshot position and the configuration. -/
lemma loaded_snapKept (y : Node σ) (disk : Disk) : (y.load A disk).ShortIds ∧
    (readMeta disk.metaText).snap =
      ((y.load A disk).snapshotLastIncludedIndex, (y.load A disk).snapshotLastIncludedTerm) := by
  obtain ⟨user, hl⟩ := load_record (A := A) y disk
  obtain ⟨hold, hnew⟩ := shortIds_readMeta disk.metaText
  rw [hl]
  exact ⟨⟨hold, hnew⟩, rfl⟩

/-- A node that was initialised from its files. -/
lemma init_snapKept {config : NodeConfig} (hl : config.learner = false) (disk : Disk) (user : σ)
    (clock : ℤ) (h0 : 0 ≤ (readMeta disk.metaText).snap.1) (p : Phase) :
    Host.SnapKept { config := config, node := Node.init A config disk user clock, disk := disk
                    phase := p } := by
  obtain ⟨s, d, e, hinit⟩ := init_eq (A := A) hl disk user clock
  obtain ⟨v, la, buf, c, t, hloaded⟩ := loaded_eq (A := A) config disk user clock
  obtain ⟨hold, hnew⟩ := shortIds_readMeta disk.metaText
  have hshort : (Node.loaded A config disk user clock).ShortIds := by
    rw [hloaded]
    exact ⟨hold, hnew⟩
  have hstart := hshort.startConfig
  rw [hloaded] at hstart hinit
  exact
    { learner := hl
      short := by
        rw [hinit]
        exact hstart.same rfl
      stored := by
        rw [hinit]
        rfl
      nonneg := by
        rw [hinit]
        exact h0 }

lemma start_snapKept (x : Node σ) (disk : Disk) : (x.start A disk).ShortIds ∧
    (readMeta disk.metaText).snap =
      ((x.start A disk).snapshotLastIncludedIndex, (x.start A disk).snapshotLastIncludedTerm) := by
  obtain ⟨hshort, hsnap⟩ := loaded_snapKept (A := A) x disk
  have hstart := hshort.startConfig
  rw [Node.start]
  rw [Node.startConfig] at hstart
  generalize x.load A disk = z at hshort hsnap hstart ⊢
  dsimp only
  split
  · rename_i hneeds
    rw [if_pos hneeds] at hstart
    exact ⟨hstart.same rfl, hsnap⟩
  · exact ⟨hshort.same rfl, hsnap⟩

/-- The files some replacements of a tick leave: the first of a compaction is `snapshot.bin`. -/
lemma Host.SnapKept.writes (hh : h.SnapKept) (hrun : h.node.running = true)
    (hfit : (h.node.dumped A).Fits) (k : ℕ) :
    0 ≤ (readMeta (h.disk.writeAll ((h.node.dumpOutputs A).writes.take k)).metaText).snap.1 := by
  have hkept : 0 ≤ (readMeta h.disk.metaText).snap.1 := by
    rw [hh.stored]
    exact hh.nonneg
  have hsaved : 0 ≤ (readMeta (some (writeMeta (h.node.dumped A)))).snap.1 := by
    rw [snap_readMeta hfit hh.short.dumped]
    exact hh.nonneg.trans (snap_le_dumped h.node)
  rw [dumpOutputs_eq hrun]
  rcases writeAll_cases h.disk _ (h.node.dumped A) k (dirty_of_compacts (A := A) h.node) with
    heq | ⟨f, -, -, heq⟩ | ⟨-, heq⟩ | ⟨-, heq⟩
  all_goals rw [heq]
  · exact hkept
  · exact hkept
  · exact hsaved
  · exact hsaved

/-- **Every act keeps it so**, whatever the environment sends and wherever the process dies. -/
lemma snapKept_exec (hh : h.SnapKept) (hexec : h.exec A act = some (h', effect)) :
    h'.SnapKept := by
  obtain ⟨hcase, hfit⟩ := exec_cases hexec
  have hstored : 0 ≤ (readMeta h.disk.metaText).snap.1 := by
    rw [hh.stored]
    exact hh.nonneg
  cases hcase with
  | latch clock slots ms cs _ =>
      have hturns := turns_latchInputs (x := h.node) (H := (· ∈ ms)) (C := (· ∈ cs))
        (fun _ => id) (fun _ => id) clock slots
      obtain ⟨hi, ht, -⟩ := turns_snap hturns
      refine ⟨hh.learner, hh.short.same (sameMembership_turns hturns).configState, ?_, ?_⟩
      · rw [hi, ht]
        exact hh.stored
      · rw [hi]
        exact hh.nonneg
  | transition clock _ =>
      obtain ⟨hi, ht, -⟩ := transition_snap (A := A) { h.node with clockMs := clock }
      have hsame := sameMembership_transition (A := A) { h.node with clockMs := clock }
      refine ⟨hh.learner, hh.short.same hsame.configState, ?_, ?_⟩
      · rw [hi, ht]
        exact hh.stored
      · rw [hi]
        exact hh.nonneg
  | dumpStopped _ _ => exact ⟨hh.learner, hh.short.same rfl, hh.stored, hh.nonneg⟩
  | dump _ hrun =>
      have hle := snap_le_dumped (A := A) h.node
      have hdirty := dirty_of_compacts (A := A) h.node
      have hsnap := dumped_snap (A := A) h.node
      refine ⟨hh.learner, hh.short.dumped.same rfl, ?_, hh.nonneg.trans hle⟩
      rw [dumpOutputs_eq hrun]
      dsimp only
      rcases writeAll_all h.disk _ (h.node.dumped A) hdirty with ⟨-, hnone, heq⟩ | ⟨-, heq⟩
      · rw [heq]
        rcases hsnap with ⟨-, hi, ht⟩ | ⟨f, hsome, -⟩
        · rw [hi, ht]
          exact hh.stored
        · rw [hsome] at hnone
          simp at hnone
      · rw [heq]
        exact snap_readMeta hfit hh.short.dumped
  | stop _ => exact ⟨hh.learner, hh.short.same rfl, hh.stored, hh.nonneg⟩
  | start clock _ =>
      obtain ⟨hshort, hsnap⟩ := start_snapKept (A := A) { h.node with clockMs := clock } h.disk
      refine ⟨hh.learner, hshort, hsnap, ?_⟩
      rw [hsnap] at hstored
      exact hstored
  | request members _ =>
      obtain ⟨r, b, hreq⟩ := requestMembershipChange_eq h.node members
      rw [hreq]
      exact ⟨hh.learner, hh.short.same rfl, hh.stored, hh.nonneg⟩
  | resetForJoin clock user _ =>
      have hshort : (Node.resetForJoin
          { h.node with clockMs := clock, user := user }).1.ShortIds :=
        ⟨roster_nil [], roster_nil []⟩
      have hsaved := snap_readMeta
        (x := (Node.resetForJoin { h.node with clockMs := clock, user := user }).1) hfit hshort
      exact ⟨hh.learner, hshort, hsaved, le_rfl⟩
  | crash user clock => exact init_snapKept hh.learner _ _ _ hstored _
  | crashInDump k j user clock _ hfits =>
      refine init_snapKept hh.learner _ _ _ ?_ _
      cases hrun : h.node.running with
      | false =>
          rw [dumpOutputs_stopped hrun]
          simpa [Disk.writeAll] using hstored
      | true =>
          rw [dumpOutputs_eq hrun] at hfits
          exact hh.writes hrun hfits k
  | crashInReset k user clock _ hfits =>
      refine init_snapKept hh.learner _ _ _ ?_ _
      have hsaved : 0 ≤ (readMeta (some (writeMeta h.node.resetForJoin.1))).snap.1 := by
        rw [snap_readMeta hfits ⟨roster_nil [], roster_nil []⟩]
        exact le_rfl
      rcases resetWrites_cases h.disk h.node k with heq | ⟨-, heq⟩ | heq
      all_goals rw [heq]
      · exact hstored
      · exact hsaved
      · exact hsaved

lemma snapKept_boot {config : NodeConfig} (hl : config.learner = false) (user : σ) (clock : ℤ) :
    (Host.boot A config user clock).SnapKept :=
  init_snapKept hl Disk.empty user clock le_rfl .idle

/-! ### What a tick applies -/

lemma Node.Inside.turns (hx : x.Inside) (ht : Turns H C x y) : y.Inside :=
  ht.invariant (fun _ _ hx ht => hx.turn ht) hx

lemma Node.Inside.absorbed (hx : x.Inside) (m : Message) (d : Bool) :
    Node.Inside { x.absorbed A m with persistDirty := d } := by
  refine ⟨hx.snap_nonneg, ?_, settledCommit_le_last { x with log := (x.merged m).1 } m _⟩
  change x.snapshotLastIncludedIndex ≤
    if (x.merged m).2 then x.snapshotLastIncludedIndex else x.lastApplied
  split
  · exact le_rfl
  · exact hx.applied

lemma Node.Inside.transition (hx : x.Inside) : (x.transition A).Inside := by
  rcases transition_turns (C := fun _ => False) (A := A) x with h | ⟨m, rest, hacc, hrest, htrans⟩
  · exact hx.turns h
  · obtain ⟨t, v, l, e, d₀, d, z, -, hz, -, heq, -⟩ :=
      transition_accept (C := fun _ => False) hacc hrest htrans
    rw [heq]
    exact ((hx.turns hz).absorbed m d).turns (H := fun _ => False) (C := fun _ => False)
      (turns_queueMessage rfl fun _ => rfl)

/-- The entry is the one the log holds at the index. -/
def Node.HoldsAt (x : Node σ) (p : ℤ × LogEntry) : Prop :=
  x.snapshotLastIncludedIndex < p.1 ∧ p.1 ≤ x.lastLogIndex ∧
    x.log[(p.1 - x.snapshotLastIncludedIndex - 1).toNat]? = some p.2

/-- **The apply loop** reads inside the log. -/
lemma Node.Inside.applyCommitted (k : ℕ) : ∀ x : Node σ, x.Inside →
    x.lastApplied + k ≤ x.commitIndex → ∀ p ∈ (x.applyCommitted A k).2, x.HoldsAt p := by
  induction k with
  | zero => exact fun x _ _ p hp => absurd hp List.not_mem_nil
  | succ k ih =>
      intro x hx hle p hp
      push_cast at hle
      obtain ⟨e, y, he, -, heq⟩ := applyNext_case (A := A) hx (by omega)
      obtain ⟨happ, hla⟩ := applying_applyNext (A := A) x
      have hs := hx.applied
      have hc := hx.commit
      rw [Node.applyCommitted] at hp
      rcases List.mem_cons.mp hp with rfl | hp
      · rw [heq]
        refine ⟨?_, ?_, ?_⟩
        · change x.snapshotLastIncludedIndex < x.lastApplied + 1
          omega
        · change x.lastApplied + 1 ≤ x.lastLogIndex
          omega
        · change x.log[(x.lastApplied + 1 - x.snapshotLastIncludedIndex - 1).toNat]? = some e
          rw [← he]
          congr 2
          omega
      · have hrest := ih (x.applyNext A).1 (hx.applying happ (by omega)) (by
          rw [hla, happ.commit]
          omega) p hp
        rw [Node.HoldsAt, Node.lastLogIndex, happ.snapIndex, happ.log] at hrest
        exact hrest

lemma Node.Inside.commitAndApply (hx : x.Inside) : ∀ p ∈ (x.commitAndApply A).2, x.HoldsAt p := by
  have hsame : x.advanced.log = x.log ∧
      x.advanced.snapshotLastIncludedIndex = x.snapshotLastIncludedIndex := by
    rcases advanced_cases x with h | ⟨k, -, -, h⟩
    all_goals
      rw [h]
      exact ⟨rfl, rfl⟩
  intro p hp
  rw [commitAndApply_eq] at hp
  by_cases hle : x.advanced.lastApplied ≤ x.advanced.commitIndex
  · have hheld := hx.advanced.applyCommitted (A := A) x.advanced.toApplyCount x.advanced
      (by rw [Node.toApplyCount]; omega) p hp
    rw [Node.HoldsAt, Node.lastLogIndex, hsame.1, hsame.2] at hheld
    exact hheld
  · rw [Node.toApplyCount, show (x.advanced.commitIndex - x.advanced.lastApplied).toNat = 0 by
      omega] at hp
    exact absurd hp List.not_mem_nil

/-- The entries a dump passes on lie inside the log. -/
lemma Node.Inside.dump (hx : x.Inside) : ∀ p ∈ (x.dumpOutputs A).applied, x.HoldsAt p := by
  cases hrun : x.running with
  | false =>
      rw [dumpOutputs_stopped hrun]
      exact fun p hp => absurd hp List.not_mem_nil
  | true =>
      rw [dumpOutputs_eq hrun]
      exact hx.commitAndApply

/-! ### Recovery -/

/-- **What the node should be after the crash.**  Nothing the snapshot covers is left to apply, the
application is in the state the applied entries lead to, `past` being the ones the log no longer
holds, and the next tick, whatever it hears, applies entries of the log. -/
structure Recovered (A : Application σ) (empty : σ) (h : Host σ) : Prop where
  applied : h.node.snapshotLastIncludedIndex ≤ h.node.lastApplied
  user : ∃ past : List LogEntry, (past.length : ℤ) = h.node.snapshotLastIncludedIndex ∧
    h.node.user = A.replay empty ((past ++ h.node.log).take h.node.lastApplied.toNat)
  inside : ∀ (clock : ℤ) (slots : ℤ → LogEntry) (ms : List Message) (cs : List Command)
    (clock' : ℤ) (h₁ h₂ h₃ : Host σ) (e₁ e₂ e₃ : Effect),
    h.exec A (.latch clock slots ms cs) = some (h₁, e₁) →
    h₁.exec A (.transition clock') = some (h₂, e₂) → h₂.exec A .dump = some (h₃, e₃) →
    ∀ p ∈ e₃.applied, h₂.node.HoldsAt p

/-- The application is reset by `reload`, or a process without one starts empty. -/
def Application.StartsEmpty (A : Application σ) (empty user : σ) : Prop :=
  A.ReloadsTo empty ∨ A.reload = none ∧ user = empty

/-- Without a snapshot that belongs to `meta.txt` nothing is applied. -/
lemma init_unmatched (disk : Disk) (clock : ℤ) {config : NodeConfig}
    (hl : config.learner = false)
    (hnone : matchingSnapshot (readMeta disk.metaText) disk.snapshot = none) {user : σ}
    (hA : A.StartsEmpty empty user) :
    (Node.init A config disk user clock).lastApplied = 0 ∧
      (Node.init A config disk user clock).user = empty ∧
      (Node.init A config disk user clock).commitIndex ≤
        (Node.init A config disk user clock).lastLogIndex ∧
      (Node.init A config disk user clock).snapshotLastIncludedIndex =
        (readMeta disk.metaText).snapshotLastIncludedIndex := by
  have hload : ((Node.zero config user clock).load A disk).lastApplied = 0 ∧
      ((Node.zero config user clock).load A disk).user = empty ∧
      ((Node.zero config user clock).load A disk).commitIndex ≤
        ((Node.zero config user clock).load A disk).lastLogIndex ∧
      ((Node.zero config user clock).load A disk).snapshotLastIncludedIndex =
        (readMeta disk.metaText).snapshotLastIncludedIndex := by
    rw [Node.load]
    simp only [hnone]
    refine ⟨trivial, ?_, min_le_right _ _, trivial⟩
    rcases hA with ⟨reload, hr, hempty⟩ | ⟨hr, hu⟩
    · rw [hr]
      exact hempty _
    · rw [hr]
      exact hu
  obtain ⟨s, d, e, hinit⟩ := init_eq (A := A) hl disk user clock
  have hloaded : (Node.loaded A config disk user clock).lastApplied = 0 ∧
      (Node.loaded A config disk user clock).user = empty ∧
      (Node.loaded A config disk user clock).commitIndex ≤
        (Node.loaded A config disk user clock).lastLogIndex ∧
      (Node.loaded A config disk user clock).snapshotLastIncludedIndex =
        (readMeta disk.metaText).snapshotLastIncludedIndex := by
    rw [Node.loaded]
    generalize (Node.zero config user clock).load A disk = z at hload ⊢
    split
    · exact hload
    · exact hload
  rw [hinit]
  exact hloaded

/-- **The crash inside a compaction**: the node recovers exactly if it has not compacted before. -/
theorem recovered_iff {config : NodeConfig} (hl : config.learner = false) {user : σ} {clock : ℤ}
    (hrun : Run (Host.step A) (fun _ _ => True) (Host.boot A config user clock) h)
    (hcompacts : h.node.compacts A = true) {j : ℕ} {user' : σ} {clock' : ℤ}
    (hA : A.StartsEmpty empty user')
    (hexec : h.exec A (.crashInDump 1 j user' clock') = some (h', effect)) :
    Recovered A empty h' ↔ h.node.snapshotLastIncludedIndex = 0 := by
  have hh : h.SnapKept := hrun.invariant (fun _ _ _ hh _ hs => by
    obtain ⟨e, he⟩ := exec_of_step hs
    exact snapKept_exec hh he) (snapKept_boot hl user clock)
  have hrunning : h.node.running = true := by
    cases hr : h.node.running with
    | true => rfl
    | false =>
        rw [Node.compacts, dumpOutputs_stopped hr] at hcompacts
        simp at hcompacts
  -- the one file that was replaced
  obtain ⟨f, hfile, hindex, hlt⟩ : ∃ f : SnapshotFile,
      (h.node.dumpOutputs A).writes.take 1 = [.snapshot f] ∧
      f.index = (h.node.dumped A).snapshotLastIncludedIndex ∧
      h.node.snapshotLastIncludedIndex < (h.node.dumped A).snapshotLastIncludedIndex := by
    rcases dumped_snap (A := A) h.node with ⟨hnone, -⟩ | ⟨f, hsome, -, hindex, -, hlt⟩
    · rw [Node.compacts, dumpOutputs_eq hrunning, hnone] at hcompacts
      simp only [Option.map_none, Option.toList_none, List.nil_append, Node.maybeSave] at hcompacts
      split at hcompacts
      · simp [save, Write.isSnapshot] at hcompacts
      · simp at hcompacts
    · refine ⟨f, ?_, hindex, hlt⟩
      rw [dumpOutputs_eq hrunning, hsome]
      rfl
  obtain ⟨hcase, -⟩ := exec_cases hexec
  cases hcase with
  | crashInDump _ _ _ _ _ _ =>
      rw [hfile]
      have hstored : (readMeta h.disk.metaText).snapshotLastIncludedIndex =
          h.node.snapshotLastIncludedIndex := congrArg Prod.fst hh.stored
      have hnone : matchingSnapshot (readMeta h.disk.metaText) (some f) = none := by
        rw [matchingSnapshot, if_neg]
        rintro ⟨hi, -⟩
        rw [hstored] at hi
        omega
      obtain ⟨hla, huser, hcommit, hsnap⟩ :=
        init_unmatched (h.disk.writeAll [.snapshot f]) clock' hh.learner hnone hA
      rw [show (readMeta (h.disk.writeAll [.snapshot f]).metaText).snapshotLastIncludedIndex =
        h.node.snapshotLastIncludedIndex from hstored] at hsnap
      constructor
      · intro hrec
        have hle := hrec.applied
        dsimp only at hle
        rw [hsnap, hla] at hle
        exact le_antisymm hle hh.nonneg
      · intro h0
        have hin : (Node.init A h.config (h.disk.writeAll [.snapshot f]) user' clock').Inside := by
          refine ⟨?_, ?_, hcommit⟩
          · rw [hsnap, h0]
          · rw [hsnap, h0, hla]
        refine ⟨?_, ⟨[], ?_, ?_⟩, ?_⟩
        · exact hin.applied
        · dsimp only
          rw [hsnap, h0]
          rfl
        · dsimp only
          rw [hla, huser]
          rfl
        · intro clock₁ slots ms cs clock₂ h₁ h₂ h₃ e₁ e₂ e₃ hlatch htrans hdump
          obtain ⟨hcase₁, -⟩ := exec_cases hlatch
          cases hcase₁ with
          | latch _ _ _ _ _ =>
              obtain ⟨hcase₂, -⟩ := exec_cases htrans
              cases hcase₂ with
              | transition _ _ =>
                  have hlatched := hin.turns (turns_latchInputs (H := (· ∈ ms)) (C := (· ∈ cs))
                    (fun _ => id) (fun _ => id) clock₁ slots)
                  have hacted : (Node.transition A { Node.latchInputs { Node.init A h.config
                      (h.disk.writeAll [.snapshot f]) user' clock' with
                        clockMs := clock₁, slots := slots } ms cs with
                      clockMs := clock₂ }).Inside :=
                    Node.Inside.transition ⟨hlatched.snap_nonneg, hlatched.applied, hlatched.commit⟩
                  obtain ⟨hcase₃, -⟩ := exec_cases hdump
                  cases hcase₃ with
                  | dumpStopped => exact fun p hp => absurd hp List.not_mem_nil
                  | dump => exact hacted.dump

/-! ### Two compactions -/

/-- A node of its own sets the threshold to one and is about to compact for the first time. -/
def firstCompaction : List (HostAct UInt8) :=
  hostTick 1 [] [] ++ hostTick 1 [] [] ++
    openTick 2 [] [⟨opSetMaxlog, [], "1".toList⟩, putCommand "x"]

/-- It is about to compact for the second time. -/
def secondCompaction : List (HostAct UInt8) :=
  firstCompaction ++ [.dump] ++ openTick 3 [] [putCommand "y"]

/-- The crash at the first compaction. -/
theorem first_compaction_recovered : ∃ h h' : Host UInt8,
    Run (Host.step counter) (fun _ _ => True) (Host.boot counter soloConfig 0 0) h ∧
    h.node.compacts counter = true ∧ (∃ e, h.exec counter (.crashInDump 1 0 7 2) = some (h', e)) ∧
    Recovered counter 0 h' := by
  have hexec : (execAll (Host.step counter) (fun _ _ => true) (Host.boot counter soloConfig 0 0)
      firstCompaction).any (fun h =>
        decide (h.node.compacts counter = true ∧ h.node.snapshotLastIncludedIndex = 0) &&
          (h.exec counter (.crashInDump 1 0 7 2)).isSome) = true := by
    decide +kernel
  obtain ⟨h, hrun, hq⟩ := Run.exists_of_execAll hexec
  have hrun' : Run (Host.step counter) (fun _ _ => True) (Host.boot counter soloConfig 0 0) h :=
    hrun.mono fun _ _ _ => trivial
  rw [Bool.and_eq_true, decide_eq_true_eq, Option.isSome_iff_exists] at hq
  obtain ⟨⟨hcompacts, h0⟩, ⟨h', e⟩, hcrash⟩ := hq
  exact ⟨h, h', hrun', hcompacts, ⟨e, hcrash⟩,
    (recovered_iff rfl hrun' hcompacts (Or.inl counter_reloads) hcrash).mpr h0⟩

/-- **The crash at the second compaction**: the log begins after entry 2 and nothing is applied. -/
theorem second_compaction_lost : ¬ ∀ h h' : Host UInt8, ∀ e : Effect,
    Run (Host.step counter) (fun _ _ => True) (Host.boot counter soloConfig 0 0) h →
    h.node.compacts counter = true → h.exec counter (.crashInDump 1 0 0 3) = some (h', e) →
    Recovered counter 0 h' := by
  intro hclaim
  have hexec : (execAll (Host.step counter) (fun _ _ => true) (Host.boot counter soloConfig 0 0)
      secondCompaction).any (fun h => decide (h.node.compacts counter = true) &&
        (h.exec counter (.crashInDump 1 0 0 3)).any fun r =>
          decide (r.1.node.lastApplied < r.1.node.snapshotLastIncludedIndex)) = true := by
    decide +kernel
  obtain ⟨h, hrun, hq⟩ := Run.exists_of_execAll hexec
  have hrun' : Run (Host.step counter) (fun _ _ => True) (Host.boot counter soloConfig 0 0) h :=
    hrun.mono fun _ _ _ => trivial
  rw [Bool.and_eq_true, decide_eq_true_eq, Option.any_eq_true] at hq
  obtain ⟨hcompacts, ⟨h', e⟩, hcrash, hlt⟩ := hq
  have hle := (hclaim h h' e hrun' hcompacts hcrash).applied
  exact absurd (of_decide_eq_true hlt) (not_lt.mpr hle)

end RaftRx.C
