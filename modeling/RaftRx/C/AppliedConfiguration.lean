import RaftRx.C.JointLeave

/-!
The configuration of a C node without compaction, as a function of its applied log.

`config_state` is stored beside the log, and a replay skips every change up to its index.  That is
right for a plain restart; after a merge has replaced entries below that index, or has taken the
commit index below it, the configuration is one the log does not hold.

* `replayConfig`: the configuration the entries of a log lead to;
* `Node.Configured`: the configuration is the one of the log at every point from its index to the
  applied index;
* `ConfigKept`: a batch that leaves the log under the configuration in place;
* `config_replayed`: what holds after every tick whose batches do;
* `config_stale`: a batch that replaces the entry the configuration came from.
-/

namespace RaftRx.C

open Protocol (Role)

variable {σ : Type*} {A : Application σ} {x y : Node σ} {H : Message → Prop}
  {C : Command → Prop} {m : Message} {disk : Disk} {initial : ClusterConfiguration}

/-! ### The configuration of a log -/

/-- The configuration after an entry. -/
def configureBy (c : ClusterConfiguration) (e : LogEntry) : ClusterConfiguration :=
  let members := decodeMemberList e.command.value maxNodes
  if members = [] then c
  else if e.command.op = opEnterJoint then configurationSetJoint c.oldMembers members e.index
  else if e.command.op = opLeaveJoint then configurationSetStable members e.index
  else c

/-- The configuration the entries lead to. -/
def replayConfig (initial : ClusterConfiguration) (es : List LogEntry) : ClusterConfiguration :=
  es.foldl configureBy initial

lemma replayConfig_take {es : List LogEntry} {k : ℕ} {e : LogEntry} (h : es[k]? = some e) :
    replayConfig initial (es.take (k + 1)) = configureBy (replayConfig initial (es.take k)) e := by
  obtain ⟨hk, rfl⟩ := List.getElem?_eq_some_iff.mp h
  rw [List.take_succ_eq_append_getElem hk, replayConfig, List.foldl_append]
  rfl

lemma configureBy_skip {c : ClusterConfiguration} {e : LogEntry}
    (h : e.command.op = opEnterJoint ∨ e.command.op = opLeaveJoint →
      decodeMemberList e.command.value maxNodes = []) : configureBy c e = c := by
  rw [configureBy]
  split
  · rfl
  · rename_i hne
    rw [if_neg fun hop => hne (h (Or.inl hop)), if_neg fun hop => hne (h (Or.inr hop))]

lemma configureBy_enter {c : ClusterConfiguration} {e : LogEntry} (hop : e.command.op = opEnterJoint)
    (hne : decodeMemberList e.command.value maxNodes ≠ []) : configureBy c e =
      configurationSetJoint c.oldMembers (decodeMemberList e.command.value maxNodes) e.index := by
  simp only [configureBy, if_neg hne, if_pos hop]

lemma configureBy_leave {c : ClusterConfiguration} {e : LogEntry} (hop : e.command.op = opLeaveJoint)
    (hne : decodeMemberList e.command.value maxNodes ≠ []) : configureBy c e =
      configurationSetStable (decodeMemberList e.command.value maxNodes) e.index := by
  have hop' : e.command.op ≠ opEnterJoint := by
    rw [hop]
    decide
  simp only [configureBy, if_neg hne, if_neg hop', if_pos hop]

/-! ### Nodes -/

/-- From its index to the applied index the log leads to the configuration. -/
structure Node.Configured (initial : ClusterConfiguration) (x : Node σ) : Prop where
  snap : x.snapshotLastIncludedIndex = 0
  applied_nonneg : 0 ≤ x.lastApplied
  applied_le : x.lastApplied ≤ x.commitIndex
  index_nonneg : 0 ≤ x.configState.index
  index_le : x.configState.index ≤ x.commitIndex
  commit_le : x.commitIndex ≤ x.log.length
  replay : ∀ k : ℕ, x.configState.index ≤ k → k ≤ max x.lastApplied x.configState.index →
    x.configState = replayConfig initial (x.log.take k)

/-- Entries beyond the commit index and a later commit index change nothing. -/
lemma Node.Configured.grow (h : x.Configured initial)
    (hs : y.snapshotLastIncludedIndex = x.snapshotLastIncludedIndex)
    (ha : y.lastApplied = x.lastApplied) (hc : y.configState = x.configState)
    (hle : x.commitIndex ≤ y.commitIndex) (hlen : y.commitIndex ≤ y.log.length)
    (hlog : x.log <+: y.log) : y.Configured initial := by
  refine ⟨hs.trans h.snap, ha ▸ h.applied_nonneg, ?_, hc ▸ h.index_nonneg, ?_, hlen, ?_⟩
  · rw [ha]
    exact h.applied_le.trans hle
  · rw [hc]
    exact h.index_le.trans hle
  · rw [hc, ha]
    intro k hlo hhi
    have hk : k ≤ x.log.length := by
      have h1 := h.applied_le
      have h2 := h.index_le
      have h3 := h.commit_le
      omega
    obtain ⟨t, ht⟩ := hlog
    rw [← ht, List.take_append_of_le_length hk]
    exact h.replay k hlo hhi

lemma Node.Configured.frame (h : x.Configured initial)
    (hs : y.snapshotLastIncludedIndex = x.snapshotLastIncludedIndex)
    (ha : y.lastApplied = x.lastApplied) (hc : y.configState = x.configState)
    (hk : y.commitIndex = x.commitIndex) (hl : y.log = x.log) : y.Configured initial := by
  refine h.grow hs ha hc hk.ge ?_ ?_
  · rw [hk, hl]
    exact h.commit_le
  · rw [hl]

lemma Node.Configured.turn (hx : x.Configured initial) (h : Turn H C x y) :
    y.Configured initial := by
  cases h with
  | commit k hlt hle =>
      refine hx.grow rfl rfl rfl hlt.le ?_ List.prefix_rfl
      rw [Node.lastLogIndex, hx.snap, zero_add] at hle
      exact hle
  | append c _ _ =>
      refine hx.grow rfl rfl rfl le_rfl ?_ (List.prefix_append _ _)
      have := hx.commit_le
      rw [List.length_append]
      push_cast
      omega
  | tune | role | lead | raise | campaign | vote | queue | clear | report | backOff =>
      exact hx.frame rfl rfl rfl rfl rfl

lemma Node.Configured.turns (hx : x.Configured initial) (h : Turns H C x y) :
    y.Configured initial :=
  h.invariant (fun _ _ hx h => hx.turn h) hx

/-! ### Accepting a batch -/

/-- The batch conflicts with nothing up to the index of the configuration, and if it makes the node
replay its log the leader has committed that much. -/
def ConfigKept (x : Node σ) (m : Message) : Prop :=
  (∀ e ∈ m.entries, 0 < e.index → e.index ≤ x.configState.index → x.conflicts e = false) ∧
    ∀ e ∈ m.entries, 0 < e.index → e.index ≤ x.lastApplied → x.conflicts e = true →
      x.configState.index ≤ m.leaderCommit

instance (m : Message) : Decidable (ConfigKept x m) := inferInstanceAs (Decidable (_ ∧ _))

/-- **A batch that leaves the log under the configuration in place.** -/
lemma Node.Configured.absorbed (hx : x.Configured initial) (hm : ConfigKept x m) (d : Bool) :
    Node.Configured initial { x.absorbed A m with persistDirty := d } := by
  obtain ⟨hkeep, hcommit⟩ := hm
  have h0 := hx.applied_nonneg
  have h1 := hx.applied_le
  have h2 := hx.index_nonneg
  have h3 := hx.index_le
  have h4 := hx.commit_le
  have hlast : Node.lastLogIndex { x with log := (x.merged m).1 } = (x.merged m).1.length := by
    change x.snapshotLastIncludedIndex + _ = _
    rw [hx.snap, zero_add]
  obtain ⟨htake, hlen, -⟩ := mergeEntries_take m.entries x.configState.index.toNat (x, false)
    (by dsimp only; omega) (fun e he hlo hhi => by
      rw [hx.snap] at hlo hhi
      exact hkeep e he hlo (by omega))
  have hlen' : x.configState.index.toNat ≤ (x.merged m).1.length := hlen
  have htake' : (x.merged m).1.take x.configState.index.toNat =
      x.log.take x.configState.index.toNat := htake
  have hbase := hx.replay x.configState.index.toNat (by omega) (by omega)
  have hle := settledCommit_le_last { x with log := (x.merged m).1 } m (x.merged m).2
  rw [hlast] at hle
  cases hb : (x.merged m).2 with
  | true =>
      -- some entry up to the applied one conflicts: the node starts over
      have hlc : x.configState.index ≤ m.leaderCommit := by
        by_contra hlt
        have hno : ∀ e ∈ m.entries, x.snapshotLastIncludedIndex < e.index →
            e.index ≤ x.snapshotLastIncludedIndex + (x.lastApplied.toNat : ℤ) →
            x.conflicts e = false := by
          intro e he hlo hhi
          rw [hx.snap] at hlo hhi
          cases hc : x.conflicts e with
          | false => rfl
          | true => exact absurd (hcommit e he hlo (by omega) hc) hlt
        have hsame := (mergeEntries_take m.entries x.lastApplied.toNat (x, false)
          (by dsimp only; omega) hno).2.2 (by dsimp only; rw [hx.snap]; omega)
        exact absurd (hb.symm.trans hsame) (by simp)
      obtain ⟨happ, -, hc⟩ := absorbed_rebuild (A := A) hb
      rw [hx.snap] at happ
      rw [hlast] at hc
      refine ⟨hx.snap, happ.ge, ?_, h2, ?_, hle, fun k hlo hhi => ?_⟩
      · change (x.absorbed A m).lastApplied ≤ (x.absorbed A m).commitIndex
        rw [happ, hc]
        omega
      · change x.configState.index ≤ (x.absorbed A m).commitIndex
        rw [hc]
        omega
      · change k ≤ max (x.absorbed A m).lastApplied x.configState.index at hhi
        change x.configState.index ≤ k at hlo
        rw [happ] at hhi
        rw [show k = x.configState.index.toNat by omega]
        change x.configState = replayConfig initial ((x.merged m).1.take _)
        rw [htake']
        exact hbase
  | false =>
      obtain ⟨happ, -, hc⟩ := absorbed_keep (A := A) hb
      have hk : x.snapshotLastIncludedIndex + (x.lastApplied.toNat : ℤ) = x.lastApplied := by
        rw [hx.snap]
        omega
      obtain ⟨htakeA, hlenA⟩ := mergeEntries_applied m.entries x.lastApplied.toNat x false
        (by omega) hk.le hb
      have hlenA' : x.lastApplied.toNat ≤ (x.merged m).1.length := hlenA
      have hmono : min x.commitIndex (x.merged m).1.length ≤ (x.absorbed A m).commitIndex := by
        rw [hc, settledCommit, if_neg Bool.false_ne_true, hlast]
        split
        · rename_i hlt
          change x.commitIndex < m.leaderCommit at hlt
          omega
        · split
          · exact min_le_right _ _
          · exact min_le_left _ _
      refine ⟨hx.snap, ?_, ?_, h2, ?_, hle, fun k hlo hhi => ?_⟩
      · change 0 ≤ (x.absorbed A m).lastApplied
        rw [happ]
        exact h0
      · change (x.absorbed A m).lastApplied ≤ (x.absorbed A m).commitIndex
        rw [happ]
        omega
      · change x.configState.index ≤ (x.absorbed A m).commitIndex
        omega
      · change k ≤ max (x.absorbed A m).lastApplied x.configState.index at hhi
        change x.configState.index ≤ k at hlo
        rw [happ] at hhi
        have hsame : (x.merged m).1.take k = x.log.take k := by
          rcases le_or_gt x.lastApplied x.configState.index with hcase | hcase
          · rw [show k = x.configState.index.toNat by omega]
            exact htake'
          · have := congrArg (List.take k) htakeA
            rw [List.take_take, List.take_take, min_eq_left (by omega)] at this
            exact this
        change x.configState = replayConfig initial ((x.merged m).1.take k)
        rw [hsame]
        exact hx.replay k hlo hhi

lemma Node.Configured.transition (hx : x.Configured initial) (hm : x.AcceptsOnly (ConfigKept x)) :
    (x.transition A).Configured initial := by
  rcases transition_turns (C := fun _ => False) (A := A) x with h | ⟨m, rest, hacc, hrest, htrans⟩
  · exact hx.turns h
  · obtain ⟨t, v, l, e, d₀, d, z, hzeq, hz, -, heq, -⟩ :=
      transition_accept (C := fun _ => False) hacc hrest htrans
    have hkept : ConfigKept z m := by
      rw [hzeq]
      exact hm m hacc
    rw [heq]
    exact ((hx.turns hz).absorbed hkept d).turns (H := fun _ => False) (C := fun _ => False)
      (turns_queueMessage rfl fun _ => rfl)

/-! ### The end of a tick -/

/-- Applying the next entry moves the configuration on, or skips what it is ahead of. -/
lemma Node.Configured.applyNext (hx : x.Configured initial) (hn : x.Contiguous) (hin : x.Inside)
    (hlt : x.lastApplied < x.commitIndex) : (x.applyNext A).1.Configured initial := by
  obtain ⟨e, y, he, hcase, heq⟩ := applyNext_case (A := A) hin hlt
  have h0 := hx.applied_nonneg
  have h2 := hx.index_nonneg
  rw [hx.snap, sub_zero] at he
  have hidx : e.index = x.lastApplied + 1 := by
    rw [Node.Contiguous, hx.snap] at hn
    have := hn _ e he
    push_cast at this
    omega
  have hnext : ∀ k : ℕ, (k : ℤ) = x.lastApplied + 1 → x.configState.index ≤ x.lastApplied →
      replayConfig initial (x.log.take k) = configureBy x.configState e := by
    intro k hk hle
    rw [show k = x.lastApplied.toNat + 1 by omega, replayConfig_take he,
      ← hx.replay x.lastApplied.toNat (by omega) (by omega)]
  -- a node that only moves its applied index
  have hstay : ∀ z : Node σ, z.snapshotLastIncludedIndex = x.snapshotLastIncludedIndex →
      z.lastApplied = x.lastApplied + 1 → z.configState = x.configState →
      z.commitIndex = x.commitIndex → z.log = x.log →
      (x.configState.index ≤ x.lastApplied → configureBy x.configState e = x.configState) →
      z.Configured initial := by
    intro z hs ha hc hcommit hlog hsame
    refine ⟨hs.trans hx.snap, by omega, by omega, hc ▸ h2, ?_, ?_, ?_⟩
    · rw [hc, hcommit]
      exact hx.index_le
    · rw [hcommit, hlog]
      exact hx.commit_le
    · rw [hc, ha, hlog]
      intro k hlo hhi
      rcases lt_or_ge x.lastApplied k with hk | hk
      · rcases le_or_gt x.configState.index x.lastApplied with hcase | hcase
        · rw [hnext k (by omega) hcase, hsame hcase]
        · exact hx.replay k hlo (by omega)
      · exact hx.replay k hlo (by omega)
  have hy : y.Configured initial := by
    cases hcase with
    | user apply hint _ =>
        refine hstay _ rfl rfl rfl rfl rfl fun _ => configureBy_skip fun hop => ?_
        rcases hop with hop | hop
        all_goals
          rw [Command.isInternal, hop] at hint
          exact absurd hint (by decide)
    | noUser hint _ =>
        refine hstay _ rfl rfl rfl rfl rfl fun _ => configureBy_skip fun hop => ?_
        rcases hop with hop | hop
        all_goals
          rw [Command.isInternal, hop] at hint
          exact absurd hint (by decide)
    | threshold t hset =>
        refine hstay _ rfl rfl rfl rfl rfl fun _ => configureBy_skip fun hop => ?_
        rw [hset] at hop
        exact absurd hop (by decide)
    | skip _ hskip =>
        refine hstay _ rfl rfl rfl rfl rfl fun hle => configureBy_skip fun hop => ?_
        exact (hskip hop).resolve_left (by dsimp only; omega)
    | enter hop hlo hne =>
        change x.configState.index < x.lastApplied + 1 at hlo
        refine ⟨hx.snap, by change 0 ≤ x.lastApplied + 1; omega, by
          change x.lastApplied + 1 ≤ x.commitIndex; omega, by
          change 0 ≤ x.lastApplied + 1; omega, by
          change x.lastApplied + 1 ≤ x.commitIndex; omega, hx.commit_le, ?_⟩
        intro k hklo hkhi
        change x.lastApplied + 1 ≤ k at hklo
        change k ≤ max (x.lastApplied + 1) (x.lastApplied + 1) at hkhi
        change configurationSetJoint x.configState.oldMembers _ (x.lastApplied + 1) =
          replayConfig initial (x.log.take k)
        rw [hnext k (by omega) (by omega), configureBy_enter hop hne, hidx]
    | leave hop hlo hne =>
        obtain ⟨r, l, v, s, hleave, -⟩ := applyLeaveJoint_eq
          (x := { x with lastApplied := x.lastApplied + 1 }) hlo hne
        change x.configState.index < x.lastApplied + 1 at hlo
        rw [hleave]
        refine ⟨hx.snap, by change 0 ≤ x.lastApplied + 1; omega, by
          change x.lastApplied + 1 ≤ x.commitIndex; omega, by
          change 0 ≤ x.lastApplied + 1; omega, by
          change x.lastApplied + 1 ≤ x.commitIndex; omega, hx.commit_le, ?_⟩
        intro k hklo hkhi
        change x.lastApplied + 1 ≤ k at hklo
        change k ≤ max (x.lastApplied + 1) (x.lastApplied + 1) at hkhi
        change configurationSetStable _ (x.lastApplied + 1) = replayConfig initial (x.log.take k)
        rw [hnext k (by omega) (by omega), configureBy_leave hop hne, hidx]
  rw [heq]
  exact hy.frame rfl rfl rfl rfl rfl

/-- **The apply loop** ends with everything committed applied. -/
lemma Node.Configured.commitAndApply (hx : x.Configured initial) (hn : x.Contiguous)
    (hin : x.Inside) : (x.commitAndApply A).1.Configured initial ∧
      (x.commitAndApply A).1.lastApplied = (x.commitAndApply A).1.commitIndex := by
  have hadv : x.advanced.Configured initial ∧ x.advanced.Contiguous := by
    rcases advanced_cases x with h | ⟨k, hlt, hle, h⟩
    · rw [h]
      exact ⟨hx, hn⟩
    · rw [h]
      rw [Node.lastLogIndex, hx.snap, zero_add] at hle
      exact ⟨hx.grow rfl rfl rfl hlt.le hle List.prefix_rfl, hn⟩
  constructor
  · refine (commitAndApply_induct (I := fun z => z.Configured initial ∧ z.Contiguous)
      hin.advanced hadv fun z hz hlt hI => ?_).1
    obtain ⟨happ, -⟩ := applying_applyNext (A := A) z
    refine ⟨hI.1.applyNext hI.2 hz hlt, ?_⟩
    rw [Node.Contiguous, happ.snapIndex, happ.log]
    exact hI.2
  · have hle := hadv.1.applied_le
    obtain ⟨happ, hla⟩ := applying_applyCommitted (A := A) x.advanced.toApplyCount x.advanced
    rw [commitAndApply_eq, hla, happ.commit, Node.toApplyCount]
    omega

/-- A tick that compacts nothing. -/
lemma Node.Configured.dumped (hx : x.Configured initial) (hn : x.Contiguous) (hin : x.Inside)
    (hno : (((x.commitAndApply A).1.maybeDriveMembership).maybeCompact A).2 = none) :
    (x.dumped A).Configured initial ∧ (x.dumped A).lastApplied = (x.dumped A).commitIndex := by
  obtain ⟨happ, hall⟩ := hx.commitAndApply (A := A) hn hin
  have hgrow : ∀ e : LogEntry, ((x.commitAndApply A).1.commitIndex : ℤ) ≤
      (((x.commitAndApply A).1.log ++ [e]).length : ℤ) := by
    intro e
    have := happ.commit_le
    rw [List.length_append]
    push_cast
    omega
  rw [Node.dumped]
  rcases maybeCompact_cases (A := A) (x.commitAndApply A).1.maybeDriveMembership with
    heq | ⟨data, -, -, -, -, heq⟩
  · rw [heq]
    have hcase := maybeDriveMembership_cases (x.commitAndApply A).1
    generalize (x.commitAndApply A).1.maybeDriveMembership = y at hcase ⊢
    cases hcase with
    | enter => exact ⟨happ.grow rfl rfl rfl le_rfl (hgrow _) (List.prefix_append _ _), hall⟩
    | leave => exact ⟨happ.grow rfl rfl rfl le_rfl (hgrow _) (List.prefix_append _ _), hall⟩
    | none | fullEnter | joint | fullLeave | stable =>
        exact ⟨happ.frame rfl rfl rfl rfl rfl, hall⟩
  · rw [heq] at hno
    simp at hno

/-! ### Files -/

/-- Files from which a node that is no learner reads a log and the configuration it leads to, or
nothing at all. -/
structure Disk.Configured (initial : ClusterConfiguration) (disk : Disk) : Prop where
  plain : disk.Plain
  numbered : Numbered 0 0 disk.entries
  full : disk.entries.length ≤ maxLog
  state : disk.fallsBack false = true ∨
    (0 ≤ (readMeta disk.metaText).configState.index ∧
      (readMeta disk.metaText).configState.index ≤ (readMeta disk.metaText).commitIndex ∧
      (readMeta disk.metaText).configState.index ≤ disk.entries.length ∧
      (readMeta disk.metaText).configState = replayConfig initial
        (disk.entries.take (readMeta disk.metaText).configState.index.toNat))

lemma Disk.Configured.readLog (hd : disk.Configured initial) :
    readLog (readMeta disk.metaText).snapshotLastIncludedIndex disk.logText = disk.entries := by
  rw [readLog_eq hd.full, hd.plain.snap, hd.numbered.filter le_rfl]
  rfl

lemma configuredDisk_empty : Disk.empty.Configured initial where
  plain := plain_empty
  numbered := fun k e he => by simp [Disk.entries, Disk.empty, fileLines] at he
  full := by simp [Disk.entries, Disk.empty, fileLines]
  state := Or.inl (by simp [Disk.fallsBack, Disk.empty, C.readLog, fileLines, readMeta,
    MetaFile.configState])

/-- The configuration that is read belongs to the log that is read. -/
lemma Disk.Configured.config (hd : disk.Configured initial) (h0 : initial.index = 0) :
    ∃ c : ClusterConfiguration, (if disk.fallsBack false = true then initial
        else (readMeta disk.metaText).configState) = c ∧ 0 ≤ c.index ∧
      c.index ≤ (readMeta disk.metaText).commitIndex ∧ c.index ≤ disk.entries.length ∧
      c = replayConfig initial (disk.entries.take c.index.toNat) := by
  have hcommit := hd.plain.commit
  by_cases hback : disk.fallsBack false = true
  · have hnil : disk.entries = [] := by
      have hempty := hback
      simp only [Disk.fallsBack, hd.readLog, Bool.and_eq_true, List.isEmpty_iff] at hempty
      exact hempty.2
    refine ⟨initial, if_pos hback, h0.ge, by omega, by omega, ?_⟩
    rw [hnil, List.take_nil]
    rfl
  · exact ⟨_, if_neg hback, hd.state.resolve_left hback⟩

/-- **A load** reads the configuration of the log. -/
lemma configured_load (hd : disk.Configured initial) (hl : y.config.learner = false)
    (hi : y.fallbackConfig = initial) (h0 : initial.index = 0) :
    Node.Configured initial { y.load A disk with configState := (y.load A disk).startConfig } := by
  have hcommit := hd.plain.commit
  have hnone : matchingSnapshot (readMeta disk.metaText) disk.snapshot = none := by
    rw [hd.plain.snapshot]
    rfl
  obtain ⟨c, hc, h1, h2, h3, h4⟩ := hd.config h0
  rw [startConfig_load, hl, hi, hc]
  obtain ⟨user, heq⟩ := load_record (A := A) y disk
  rw [heq, hd.readLog, hnone, hd.plain.snap]
  refine ⟨rfl, le_rfl, ?_, h1, ?_, ?_, fun k hlo hhi => ?_⟩
  · exact le_min hcommit (by dsimp only; omega)
  · exact le_min h2 (by dsimp only; omega)
  · exact (min_le_right _ _).trans (by dsimp only; omega)
  · change c.index ≤ k at hlo
    change k ≤ max 0 c.index at hhi
    rw [show k = c.index.toNat by omega]
    exact h4

/-- What a node saves. -/
lemma Node.Configured.save (hx : x.Configured initial) (ht : x.Steady) (hs : x.Sound separators)
    (hfit : x.Fits) : Disk.Configured initial
      { metaText := some (writeMeta x), logText := some (writeLog x), snapshot := none } := by
  have hconf := configState_save ht hs hfit
  obtain ⟨-, -, -, hcommit, hsnap, -⟩ := numbers_readMeta hfit
    (hs.spelled.linesOk separators_self.newline hfit)
  have hcommit' : (readMeta (some (writeMeta x))).commitIndex = x.commitIndex := hcommit
  obtain ⟨-, -, hsame⟩ := entries_writeLog (d :=
    { metaText := some (writeMeta x), logText := some (writeLog x), snapshot := none })
    separators_self hfit hs.spelled.log rfl
  have hentries := hsame (by simp [separators])
  have h1 := hx.index_nonneg
  have h2 := hx.index_le
  have h3 := hx.commit_le
  have hn := hs.numbered
  rw [Node.Contiguous, hx.snap] at hn
  refine ⟨⟨hsnap.trans hx.snap, ?_, rfl⟩, ?_, ?_, Or.inr ⟨?_, ?_, ?_, ?_⟩⟩
  · rw [hcommit']
    omega
  · rw [hentries]
    exact hn
  · rw [hentries]
    exact hs.full
  · rw [hconf]
    exact h1
  · rw [hconf, hcommit']
    exact h2
  · rw [hconf, hentries]
    omega
  · rw [hconf, hentries]
    exact hx.replay _ (by omega) (by omega)

/-! ### Hosts -/

/-- Ticks, messages, requests, stops and starts without compaction, with whole ids. -/
def UncompactedAct (A : Application σ) (h : Host σ) (a : HostAct σ) : Prop :=
  SteadyAct a ∧ match a with
    | .dump => h.node.compacts A = false
    | .resetForJoin _ _ | .crash _ _ | .crashInDump _ _ _ _ | .crashInReset _ _ _ => False
    | _ => True

/-- A transition accepts only batches that leave the log under the configuration in place. -/
def KeptAct (h : Host σ) : HostAct σ → Prop
  | .transition clock => Node.AcceptsOnly { h.node with clockMs := clock } (ConfigKept h.node)
  | _ => True

instance (h : Host σ) : (a : HostAct σ) → Decidable (UncompactedAct A h a)
  | .dump => inferInstanceAs (Decidable (_ ∧ h.node.compacts A = false))
  | .resetForJoin _ _ | .crash _ _ | .crashInDump _ _ _ _ | .crashInReset _ _ _ =>
      inferInstanceAs (Decidable (_ ∧ False))
  | .latch _ _ _ _ | .transition _ | .stop | .start _ | .request _ =>
      inferInstanceAs (Decidable (_ ∧ True))

instance (h : Host σ) : (a : HostAct σ) → Decidable (KeptAct h a)
  | .transition _ => inferInstanceAs (Decidable (Node.AcceptsOnly _ _))
  | .latch _ _ _ _ | .dump | .stop | .start _ | .request _ | .resetForJoin _ _ | .crash _ _
  | .crashInDump _ _ _ _ | .crashInReset _ _ _ => inferInstanceAs (Decidable True)

lemma UncompactedAct.crashOk {h : Host σ} {a : HostAct σ} (ha : UncompactedAct A h a) :
    CrashOk A h a := by
  cases a with
  | crash | crashInDump | crashInReset => exact ha.2.elim
  | latch | request | transition | dump | stop | start | resetForJoin => trivial

/-- Node and files of a host hold the configuration of their log. -/
structure Host.Configured (members : List CString) (h : Host σ) : Prop where
  steady : h.Steady
  node : h.node.Configured (configurationSetStable members 0)
  disk : h.disk.Configured (configurationSetStable members 0)
  learner : h.node.config.learner = false
  initial : h.node.config.initialMembers = members

lemma fallbackConfig_initial {members : List CString} (hi : y.config.initialMembers = members)
    (hne : members ≠ []) : y.fallbackConfig = configurationSetStable members 0 := by
  rw [Node.fallbackConfig, hi, if_pos hne]

/-- What a tick leaves of the program's configuration. -/
lemma config_dumped (x : Node σ) : (x.dumped A).config.learner = x.config.learner ∧
    (x.dumped A).config.initialMembers = x.config.initialMembers := by
  have hadv := still_advanced x
  have hrec := reconfigured_applyCommitted (A := A) x.advanced.toApplyCount x.advanced
  have hstill := (still_maybeDriveMembership (x.commitAndApply A).1).trans
    (still_maybeCompact (A := A) _)
  rw [Node.dumped, hstill.config]
  exact ⟨hrec.learner.trans (by rw [hadv.config]), hrec.initial.trans (by rw [hadv.config])⟩

/-- A change of the node that keeps its configuration file. -/
lemma Host.Configured.node' {members : List CString} {h h' : Host σ} (hh : h.Configured members)
    (hs : h'.Steady) (hn : h'.node.Configured (configurationSetStable members 0))
    (hd : h'.disk = h.disk) (hl : h'.node.config.learner = h.node.config.learner)
    (hi : h'.node.config.initialMembers = h.node.config.initialMembers) : h'.Configured members :=
  ⟨hs, hn, hd ▸ hh.disk, hl.trans hh.learner, hi.trans hh.initial⟩

lemma configured_start {members : List CString} (hd : disk.Configured (configurationSetStable members 0))
    (hl : x.config.learner = false) (hi : x.config.initialMembers = members) (hne : members ≠ []) :
    (x.start A disk).Configured (configurationSetStable members 0) ∧
      (x.start A disk).config.learner = x.config.learner ∧
      (x.start A disk).config.initialMembers = x.config.initialMembers := by
  have hload := configured_load (A := A) hd hl (fallbackConfig_initial hi hne) rfl
  have hconf : (x.load A disk).config = x.config := by
    obtain ⟨user, heq⟩ := load_record (A := A) x disk
    rw [heq]
  rw [Node.start]
  generalize x.load A disk = z at hload hconf ⊢
  rw [Node.startConfig] at hload
  split
  · rename_i hneeds
    rw [if_pos hneeds] at hload
    refine ⟨hload.frame rfl rfl rfl rfl rfl, ?_, ?_⟩
    · change z.config.learner = _
      rw [hconf]
    · change z.config.initialMembers = _
      rw [hconf]
  · rename_i hneeds
    rw [if_neg hneeds] at hload
    refine ⟨hload.frame rfl rfl rfl rfl rfl, ?_, ?_⟩
    · change z.config.learner = _
      rw [hconf]
    · change z.config.initialMembers = _
      rw [hconf]

lemma configured_boot {config : NodeConfig} (hc : config.Steady) (hl : config.learner = false)
    (hne : config.initialMembers ≠ []) (user : σ) (clock : ℤ) :
    (Host.boot A config user clock).Configured config.initialMembers := by
  obtain ⟨u, c, s, d, e₁, e₂, heq, hconf⟩ := init_empty (A := A) config user clock
  rw [hl, if_neg Bool.false_ne_true, fallbackConfig_initial (y := Node.zero config u clock) rfl hne]
    at hconf
  refine ⟨steady_boot hc user clock, ?_, configuredDisk_empty, ?_, ?_⟩
  · change (Node.init A config Disk.empty user clock).Configured _
    rw [heq, hconf]
    exact ⟨rfl, le_rfl, le_rfl, le_rfl, le_rfl, le_rfl, fun k _ _ => by
      simp [Node.refreshPeers, Node.zero, replayConfig]⟩
  · change (Node.init A config Disk.empty user clock).config.learner = false
    rw [heq]
    exact hl
  · change (Node.init A config Disk.empty user clock).config.initialMembers = _
    rw [heq]
    rfl

/-- The end of a tick that compacts nothing. -/
lemma Host.Configured.dump {members : List CString} {h h' : Host σ} (hh : h.Configured members)
    (hs : h'.Steady) (hrun : h.node.running = true) (hno : h.node.compacts A = false)
    (hfit : (h.node.dumped A).Fits)
    (hnode : h'.node = { h.node.dumped A with persistDirty := false, outbox := [] })
    (hdisk : h'.disk = h.disk.writeAll (h.node.dumpOutputs A).writes) :
    h'.Configured members ∧ h'.node.lastApplied = h'.node.commitIndex := by
  have hin := hh.steady.sound.node.inside
  have hnone := maybeCompact_of_not_compacts hrun hno
  obtain ⟨hconf, hall⟩ := hh.node.dumped (A := A) hh.steady.sound.node.numbered hin hnone
  have hsteady := hh.steady.node.dumped (A := A) hin
  have hsound := hh.steady.sound.node.dumped (A := A) separators_self
  obtain ⟨hl, hi⟩ := config_dumped (A := A) h.node
  refine ⟨⟨hs, ?_, ?_, ?_, ?_⟩, ?_⟩
  · rw [hnode]
    exact hconf.frame rfl rfl rfl rfl rfl
  · rw [hdisk, dumpOutputs_eq hrun]
    dsimp only
    rcases writeAll_all h.disk _ (h.node.dumped A) (dirty_of_compacts h.node) with
      ⟨-, -, heq⟩ | ⟨-, heq⟩
    · rw [heq]
      exact hh.disk
    · rw [heq, hnone, hh.disk.plain.snapshot]
      exact hconf.save hsteady hsound hfit
  · rw [hnode]
    exact hl.trans hh.learner
  · rw [hnode]
    exact hi.trans hh.initial
  · rw [hnode]
    exact hall

/-- **Every act whose batches leave the configuration's log in place.** -/
lemma configured_exec {members : List CString} (hne : members ≠ []) {h h' : Host σ}
    {a : HostAct σ} {e : Effect} (hh : h.Configured members) (ha : UncompactedAct A h a)
    (hk : KeptAct h a) (he : h.exec A a = some (h', e)) : h'.Configured members := by
  have hs := steady_exec hh.steady ha.1 ha.crashOk he
  obtain ⟨hcase, hfit⟩ := exec_cases he
  cases hcase with
  | latch clock slots ms cs _ =>
      have hturns := turns_latchInputs (x := h.node) (H := (· ∈ ms)) (C := (· ∈ cs))
        (fun _ => id) (fun _ => id) clock slots
      have hsame := (sameMembership_turns hturns).config
      exact hh.node' hs (hh.node.turns hturns) rfl (by rw [hsame]) (by rw [hsame])
  | transition clock _ =>
      have hclock : Node.Configured (configurationSetStable members 0)
          { h.node with clockMs := clock } := hh.node.frame rfl rfl rfl rfl rfl
      have hsame := (sameMembership_transition (A := A) { h.node with clockMs := clock }).config
      exact hh.node' hs (hclock.transition hk) rfl (by rw [hsame]) (by rw [hsame])
  | dumpStopped _ _ => exact hh.node' hs (hh.node.frame rfl rfl rfl rfl rfl) rfl rfl rfl
  | dump _ hrun => exact (hh.dump hs hrun ha.2 hfit rfl rfl).1
  | stop _ => exact hh.node' hs (hh.node.frame rfl rfl rfl rfl rfl) rfl rfl rfl
  | start clock _ =>
      obtain ⟨hstart, hl, hi⟩ := configured_start (A := A)
        (x := { h.node with clockMs := clock }) hh.disk hh.learner hh.initial hne
      generalize Node.start A { h.node with clockMs := clock } h.disk = y at hs hstart hl hi ⊢
      exact hh.node' hs hstart rfl hl hi
  | request members' _ =>
      obtain ⟨r, b, hreq⟩ := requestMembershipChange_eq h.node members'
      refine hh.node' hs ?_ rfl ?_ ?_
      all_goals rw [hreq]
      exact hh.node.frame rfl rfl rfl rfl rfl
  | resetForJoin | crash | crashInDump | crashInReset => exact ha.2.elim

/-! ### Runs -/

/-- **The configuration is the one of the applied log** after every tick of a running node, in every
run whose batches leave the log under the configuration in place. -/
theorem config_replayed (A : Application σ) {config : NodeConfig} (hc : config.Steady)
    (hl : config.learner = false) (hne : config.initialMembers ≠ []) (user : σ) (clock : ℤ)
    {h h' : Host σ} {e : Effect}
    (hrun : Run (Host.step A) (fun h a => UncompactedAct A h a ∧ KeptAct h a)
      (Host.boot A config user clock) h)
    (hrunning : h.node.running = true) (hno : h.node.compacts A = false)
    (hdump : h.exec A .dump = some (h', e)) :
    h'.node.configState =
      replayConfig (configurationSetStable config.initialMembers 0) h'.node.appliedEntries := by
  have hh : h.Configured config.initialMembers := hrun.invariant (fun _ _ _ hh ha hs => by
    obtain ⟨e, he⟩ := exec_of_step hs
    exact configured_exec hne hh ha.1 ha.2 he) (configured_boot hc hl hne user clock)
  have hs := steady_exec hh.steady (a := .dump) trivial trivial hdump
  obtain ⟨hcase, hfit⟩ := exec_cases hdump
  cases hcase with
  | dumpStopped _ hstop => exact absurd (hrunning.symm.trans hstop) (by simp)
  | dump _ _ =>
      obtain ⟨hconf, hall⟩ := hh.dump hs hrunning hno hfit rfl rfl
      have h0 := hconf.node.applied_nonneg
      have hidx := hconf.node.index_le
      rw [appliedEntries_eq h0 hconf.node.snap hs.sound.node.numbered]
      exact hconf.node.replay _ (by omega) (by omega)

/-! ### Replaced entries -/

/-- `n1` makes `n2` enter a joint configuration and apply one more entry. -/
def joinedByLeader : List (HostAct UInt8) :=
  hostTick 1 [{ batch n1 n2 1 0 0 []
    [⟨1, 1, n1, ⟨opEnterJoint, "members".toList, "n1,n2".toList⟩⟩, ⟨2, 1, n1, putCommand "x"⟩] with
      leaderCommit := 2 }] []

lemma steady_three : (threeConfig n2).Steady := by
  refine ⟨by decide, ?_, by simp [threeConfig]⟩
  intro id hid
  simp only [threeConfig, List.mem_cons, List.not_mem_nil, or_false] at hid
  rcases hid with rfl | rfl | rfl
  all_goals decide

/-- The second entry is replaced after it was applied, and the node is started again. -/
theorem config_replayed_rebuild : ∃ (h h' : Host UInt8) (e : Effect),
    Run (Host.step counter) (fun h a => UncompactedAct counter h a ∧ KeptAct h a)
      (Host.boot counter (threeConfig n2) 0 0) h ∧ h.node.lastApplied = 0 ∧
    h.exec counter .dump = some (h', e) ∧ h'.node.configState.isJoint = true ∧
    h'.node.configState = replayConfig
      (configurationSetStable (threeConfig n2).initialMembers 0) h'.node.appliedEntries := by
  have hexec : (execAll (Host.step counter)
      (fun h a => decide (UncompactedAct counter h a ∧ KeptAct h a))
      (Host.boot counter (threeConfig n2) 0 0)
      (joinedByLeader ++ hostTick 2 [{ batch n3 n2 2 1 1 n1 [⟨2, 2, n3, putCommand "y"⟩] with
        leaderCommit := 1 }] [] ++ [.stop, .start 3] ++ openTick 3 [] [])).any (fun h =>
        decide (h.node.lastApplied = 0 ∧ h.node.running = true ∧ h.node.compacts counter = false) &&
        (h.exec counter .dump).any fun r => r.1.node.configState.isJoint) = true := by
    decide +kernel
  obtain ⟨h, hrun, hq⟩ := Run.exists_of_execAll hexec
  rw [Bool.and_eq_true, decide_eq_true_eq, Option.any_eq_true] at hq
  obtain ⟨⟨hla, hrunning, hno⟩, ⟨h', e⟩, hdump, hjoint⟩ := hq
  have hrun' := hrun.mono (fun _ _ => of_decide_eq_true)
  exact ⟨h, h', e, hrun', hla, hdump, hjoint,
    config_replayed counter steady_three rfl (by simp [threeConfig]) 0 0 hrun' hrunning hno hdump⟩

/-- **A configuration the log does not hold**: a leader of term 2 replaces the entry by which `n2`
entered the joint configuration. -/
theorem config_stale : ¬ ∀ (h h' : Host UInt8) (e : Effect),
    Run (Host.step counter) (UncompactedAct counter) (Host.boot counter (threeConfig n2) 0 0) h →
    h.node.running = true → h.node.compacts counter = false →
    h.exec counter .dump = some (h', e) → h'.node.configState = replayConfig
      (configurationSetStable (threeConfig n2).initialMembers 0) h'.node.appliedEntries := by
  intro hall
  have hexec : (execAll (Host.step counter) (fun h a => decide (UncompactedAct counter h a))
      (Host.boot counter (threeConfig n2) 0 0)
      (joinedByLeader ++ openTick 2 [{ batch n3 n2 2 0 0 [] [⟨1, 2, n3, putCommand "z"⟩] with
        leaderCommit := 1 }] [])).any (fun h =>
        decide (h.node.running = true ∧ h.node.compacts counter = false) &&
        (h.exec counter .dump).any fun r => decide (r.1.node.configState ≠ replayConfig
          (configurationSetStable (threeConfig n2).initialMembers 0) r.1.node.appliedEntries)) =
      true := by
    decide +kernel
  obtain ⟨h, hrun, hq⟩ := Run.exists_of_execAll hexec
  rw [Bool.and_eq_true, decide_eq_true_eq, Option.any_eq_true] at hq
  obtain ⟨⟨hrunning, hno⟩, ⟨h', e⟩, hdump, hne⟩ := hq
  rw [decide_eq_true_eq] at hne
  exact hne (hall h h' e (hrun.mono fun _ _ => of_decide_eq_true) hrunning hno hdump)

end RaftRx.C
