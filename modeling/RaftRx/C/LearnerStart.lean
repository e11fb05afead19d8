import RaftRx.C.SnapshotFaith

/-!
A learner that starts on a data directory with files in it (`raft_node_init`).

Initialisation loads everything first, which restores or reloads the application, and then clears
the fields of the node one by one.

* `Application.started`: what loading does to the application;
* `learner_init`: the fields of an initialised learner;
* `SameStart`, `Disk.Forgettable`: what should not depend on the files, and the files that leave no
  trace;
* `learner_forgets_iff`: the learner starts as on an empty directory exactly on those.
-/

namespace RaftRx.C

variable {σ : Type*} (A : Application σ)

/-- What loading does to the application: a snapshot that belongs to `meta.txt` is restored, else
the application is reloaded. -/
def Application.started (snapshot : Option (List UInt8)) (user : σ) : σ :=
  match snapshot with
  | some data => A.revive user data
  | none =>
    match A.reload with
    | some reload => reload user
    | none => user

lemma user_load (y : Node σ) (disk : Disk) : (y.load A disk).user =
    A.started (matchingSnapshot (readMeta disk.metaText) disk.snapshot) y.user := by
  rw [Node.load]
  dsimp only
  generalize matchingSnapshot (readMeta disk.metaText) disk.snapshot = snap
  cases snap with
  | none => rfl
  | some data => rfl

/-- The threshold a node takes from `meta.txt`. -/
def MetaFile.threshold (m : MetaFile) : ℤ :=
  if m.compactionThreshold ≤ 0 then maxLog else m.compactionThreshold

lemma loaded_threshold (config : NodeConfig) (disk : Disk) (user : σ) (clock : ℤ) :
    (Node.loaded A config disk user clock).compactionThreshold =
        (readMeta disk.metaText).threshold ∧
      (Node.loaded A config disk user clock).user =
        A.started (matchingSnapshot (readMeta disk.metaText) disk.snapshot) user ∧
      (Node.loaded A config disk user clock).config = config := by
  have hload := user_load A (Node.zero config user clock) disk
  obtain ⟨v, hrec⟩ := load_record (A := A) (Node.zero config user clock) disk
  rw [Node.loaded, MetaFile.threshold]
  rw [hrec] at hload ⊢
  dsimp only at hload ⊢
  split <;> exact ⟨rfl, hload, rfl⟩

/-- What the start of a learner should not take from its files. -/
structure SameStart (x y : Node σ) : Prop where
  term : x.currentTerm = y.currentTerm
  vote : x.votedFor = y.votedFor
  log : x.log = y.log
  snapIndex : x.snapshotLastIncludedIndex = y.snapshotLastIncludedIndex
  snapTerm : x.snapshotLastIncludedTerm = y.snapshotLastIncludedTerm
  commit : x.commitIndex = y.commitIndex
  applied : x.lastApplied = y.lastApplied
  configState : x.configState = y.configState
  threshold : x.compactionThreshold = y.compactionThreshold
  user : x.user = y.user

/-- **An initialised learner**: all but the threshold and the application is cleared. -/
lemma learner_init {config : NodeConfig} (hl : config.learner = true) (disk : Disk) (user : σ)
    (clock : ℤ) :
    SameStart (Node.init A config disk user clock)
      { Node.zero config
          (A.started (matchingSnapshot (readMeta disk.metaText) disk.snapshot) user) clock with
        compactionThreshold := (readMeta disk.metaText).threshold } := by
  obtain ⟨hthr, huser, hconfig⟩ := loaded_threshold A config disk user clock
  have hfresh : Node.fresh A config disk user clock =
      { (Node.loaded A config disk user clock).forget with persistDirty := true } := by
    rw [Node.fresh, if_pos hl]
  have hstart : (Node.fresh A config disk user clock).startConfig = ⟨[], [], 0⟩ := by
    rw [hfresh, Node.startConfig, Node.needsFallback]
    change (if (true && !(Node.loaded A config disk user clock).config.learner && true) = true
      then _ else _) = _
    rw [hconfig, hl]
    rfl
  rw [init_ready, hstart, hfresh]
  exact
    { term := rfl, vote := rfl, log := rfl, snapIndex := rfl, snapTerm := rfl, commit := rfl
      applied := rfl, configState := rfl, threshold := hthr, user := huser }

/-- **Files that leave no trace**: `meta.txt` sets no threshold of its own, and a snapshot that
belongs to it restores the state an application without a snapshot starts from. -/
def Disk.Forgettable (disk : Disk) (user : σ) : Prop :=
  ((readMeta disk.metaText).compactionThreshold ≤ 0 ∨
    (readMeta disk.metaText).compactionThreshold = maxLog) ∧
  ∀ data, matchingSnapshot (readMeta disk.metaText) disk.snapshot = some data →
    A.started (some data) user = A.started none user

lemma threshold_eq_maxLog_iff (m : MetaFile) :
    m.threshold = maxLog ↔ m.compactionThreshold ≤ 0 ∨ m.compactionThreshold = maxLog := by
  rw [MetaFile.threshold]
  split
  · rename_i h
    exact iff_of_true rfl (Or.inl h)
  · rename_i h
    exact (or_iff_right h).symm

/-- **A learner forgets its past** on the files that leave no trace, and on no others: term, vote,
log, snapshot, commit and applied index, configuration, threshold and application are those of a
start on an empty directory. -/
theorem learner_forgets_iff {config : NodeConfig} (hl : config.learner = true) (disk : Disk)
    (user : σ) (clock : ℤ) :
    SameStart (Node.init A config disk user clock) (Node.init A config Disk.empty user clock) ↔
      disk.Forgettable A user := by
  have hdisk := learner_init A hl disk user clock
  have hempty := learner_init A hl Disk.empty user clock
  have hthreshold : (readMeta Disk.empty.metaText).threshold = maxLog := rfl
  have hsnap : matchingSnapshot (readMeta Disk.empty.metaText) Disk.empty.snapshot = none := rfl
  rw [hthreshold, hsnap] at hempty
  generalize Node.init A config disk user clock = x at hdisk ⊢
  generalize Node.init A config Disk.empty user clock = y at hempty ⊢
  have hkeep : x.compactionThreshold = y.compactionThreshold ↔
      (readMeta disk.metaText).threshold = maxLog := by
    rw [hdisk.threshold, hempty.threshold]
  have huser : x.user = y.user ↔
      A.started (matchingSnapshot (readMeta disk.metaText) disk.snapshot) user =
        A.started none user := by
    rw [hdisk.user, hempty.user]
    rfl
  have hrest : x.compactionThreshold = y.compactionThreshold → x.user = y.user →
      SameStart x y := fun ht hu =>
    { term := hdisk.term.trans hempty.term.symm
      vote := hdisk.vote.trans hempty.vote.symm
      log := hdisk.log.trans hempty.log.symm
      snapIndex := hdisk.snapIndex.trans hempty.snapIndex.symm
      snapTerm := hdisk.snapTerm.trans hempty.snapTerm.symm
      commit := hdisk.commit.trans hempty.commit.symm
      applied := hdisk.applied.trans hempty.applied.symm
      configState := hdisk.configState.trans hempty.configState.symm
      threshold := ht
      user := hu }
  rw [Disk.Forgettable, ← threshold_eq_maxLog_iff]
  constructor
  · intro h
    refine ⟨hkeep.mp h.threshold, fun data hdata => ?_⟩
    rw [← hdata]
    exact huser.mp h.user
  · rintro ⟨hthr, hdata⟩
    refine hrest (hkeep.mpr hthr) (huser.mpr ?_)
    cases hmatch : matchingSnapshot (readMeta disk.metaText) disk.snapshot with
    | none => rfl
    | some data => exact hdata data hmatch

/-- A learner. -/
def learnerConfig : NodeConfig :=
  { nodeId := n3, peers := [], initialMembers := [], learner := true, electionTimeoutMs := 100
    heartbeatIntervalMs := 10 }

/-- What an earlier run with a smaller log left behind. -/
def leftover : Disk :=
  { metaText := some "current_term 3\ncompaction_threshold 20\n".toList, logText := none
    snapshot := none }

/-- A term alone is forgotten. -/
theorem learner_forgets_term :
    SameStart
      (Node.init silent learnerConfig
        { leftover with metaText := some "current_term 3\n".toList } () 0)
      (Node.init silent learnerConfig Disk.empty () 0) :=
  (learner_forgets_iff silent (rfl : learnerConfig.learner = true)
    { leftover with metaText := some "current_term 3\n".toList } () 0).mpr
    ⟨Or.inr (by decide), fun data h => by simp [matchingSnapshot, leftover] at h⟩

/-- The threshold of the earlier run is kept. -/
theorem learner_keeps_threshold :
    ¬SameStart (Node.init silent learnerConfig leftover () 0)
      (Node.init silent learnerConfig Disk.empty () 0) := by
  intro h
  have hthr := h.threshold
  rw [(learner_init silent rfl leftover () 0).threshold,
    (learner_init silent rfl Disk.empty () 0).threshold] at hthr
  exact absurd hthr (by decide)

end RaftRx.C
