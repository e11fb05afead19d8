import RaftRx.C.AccessSafety
import RaftRx.C.VoteUniqueness

/-!
Hosts whose members stay the initial ones.

* `Forward`, `Signed`: how far log and term of a node have got, and what its acknowledgements tell;
* `dumped_same`: a leader compacts no further than any of its peers has acknowledged;
* `Host.Founded`: the members of a host are the initial ones, in memory and on disk;
* `Host.Keeps`: ticks, stops, starts and crashes without a change of the members;
* `forward_exec`, `signed_exec`: such an act goes forward, unless it may cut the log, and the host
  stands by what it acknowledges;
* `elected_exec`, `led_exec`: what becomes of the board of a node that is elected or goes on leading.
-/

namespace RaftRx.C

open Protocol

variable {σ : Type*} {A : Application σ} {x y : Node σ} {m : Message} {H : Message → Prop}
  {C : Command → Prop}

/-! ### Going forward -/

/-- Neither log nor term go back. -/
structure Forward (x y : Node σ) : Prop where
  last : x.lastLogIndex ≤ y.lastLogIndex
  term : x.currentTerm ≤ y.currentTerm

lemma Forward.refl (x : Node σ) : Forward x x := ⟨le_rfl, le_rfl⟩

lemma Forward.trans {z : Node σ} (h : Forward x y) (h' : Forward y z) : Forward x z :=
  ⟨h.last.trans h'.last, h.term.trans h'.term⟩

/-- A positive answer to AppendEntries. -/
def Message.Acks (m : Message) : Prop := m.kind = .appendEntriesResponse ∧ m.success = true

/-- The message tells no more than the log of the node holds, in no later term. -/
structure Node.Stands (x : Node σ) (m : Message) : Prop where
  term : m.term ≤ x.currentTerm
  last : m.matchIndex ≤ x.lastLogIndex

lemma Node.Stands.forward (h : x.Stands m) (hf : Forward x y) : y.Stands m :=
  ⟨h.term.trans hf.term, h.last.trans hf.last⟩

/-- The node stands by every acknowledgement that was not queued before. -/
def Signed (x y : Node σ) : Prop := ∀ m ∈ y.outbox, m.Acks → m ∈ x.outbox ∨ y.Stands m

/-- **Elementary changes** go forward and sign what they acknowledge. -/
lemma Turns.signed (h : Turns H C x y) : Forward x y ∧ Signed x y := by
  refine h.invariant (I := fun z => Forward x z ∧ Signed x z) (fun z z' hz hturn => ?_)
    ⟨Forward.refl x, fun m hm _ => Or.inl hm⟩
  obtain ⟨hf, hs⟩ := hz
  -- what a change does that queues nothing
  have hkeep : Forward z z' → z'.outbox = z.outbox → Forward x z' ∧ Signed x z' := by
    intro hzf hzo
    refine ⟨hf.trans hzf, fun m hm hk => ?_⟩
    exact (hs m (hzo ▸ hm) hk).imp_right fun h => h.forward hzf
  cases hturn with
  | tune | role | vote | report | backOff | commit => exact hkeep ⟨le_rfl, le_rfl⟩ rfl
  | lead => exact hkeep ⟨le_rfl, le_rfl⟩ rfl
  | raise t ht => exact hkeep ⟨le_rfl, ht.le⟩ rfl
  | campaign => exact hkeep ⟨le_rfl, (lt_add_one z.currentTerm).le⟩ rfl
  | append c _ _ =>
      refine hkeep ⟨?_, le_rfl⟩ rfl
      simp only [Node.lastLogIndex, List.length_append]
      push_cast
      omega
  | clear => exact ⟨⟨hf.last, hf.term⟩, fun m hm => absurd hm List.not_mem_nil⟩
  | queue m ht ha =>
      refine ⟨⟨hf.last, hf.term⟩, fun m' hm' hk => ?_⟩
      rcases List.mem_append.mp hm' with hm' | hm'
      · exact (hs m' hm' hk).imp_right fun h => h.forward ⟨le_rfl, le_rfl⟩
      · rw [List.mem_singleton.mp hm'] at hk ⊢
        exact Or.inr ⟨ht.le, (ha hk.1).le⟩

/-- Latching, whatever is heard. -/
lemma turns_latched (x : Node σ) (clock : ℤ) (slots : ℤ → LogEntry) (ms : List Message)
    (cs : List Command) : Turns (fun _ => True) (fun _ => True) x
      (Node.latchInputs { x with clockMs := clock, slots := slots } ms cs) :=
  turns_latchInputs (fun _ _ => trivial) (fun _ _ => trivial) clock slots

/-- A batch without a conflict leaves the log as long as it was. -/
lemma last_le_absorbed (h : ¬ x.Clashes m) (d : Bool) :
    x.lastLogIndex ≤ Node.lastLogIndex { x.absorbed A m with persistDirty := d } := by
  obtain ⟨-, hlen, -⟩ := mergeEntries_take m.entries x.log.length (x, false) le_rfl
    fun e he hlo hhi => by
      by_contra hconf
      rw [Bool.not_eq_false] at hconf
      exact h ⟨e, he, Node.hasLogIndex_eq_true.mpr ⟨hlo, hhi⟩, hconf⟩
  change x.snapshotLastIncludedIndex + (x.log.length : ℤ) ≤
    x.snapshotLastIncludedIndex + ((x.merged m).1.length : ℤ)
  have hlen' : x.log.length ≤ (x.merged m).1.length := hlen
  omega

/-- **A transition** signs what it acknowledges; only a batch that conflicts shortens the log. -/
lemma signed_transition (x : Node σ) : Signed x (x.transition A) ∧
    x.currentTerm ≤ (x.transition A).currentTerm ∧
    ((∃ m, x.Accepts m ∧ x.Clashes m) ∨ x.lastLogIndex ≤ (x.transition A).lastLogIndex) := by
  rcases transition_turns (C := fun _ => False) (A := A) x with h | ⟨m, rest, hacc, hrest, htrans⟩
  · obtain ⟨hf, hs⟩ := h.signed
    exact ⟨hs, hf.term, Or.inr hf.last⟩
  · obtain ⟨t, v, l, e, d₀, d, z, hzeq, hz, -, heq, -⟩ :=
      transition_accept (C := fun _ => False) hacc hrest htrans
    have hout : z.outbox = x.outbox := by rw [hzeq]
    obtain ⟨hanswer, hsigned⟩ := Turns.signed (H := fun _ => False) (C := fun _ => False)
      (turns_queueMessage (x := { z.absorbed A m with persistDirty := d })
        (m := Node.appendResponse { z.absorbed A m with persistDirty := d } m true) rfl
        fun _ => rfl)
    rw [← heq] at hanswer hsigned
    refine ⟨fun m' hm' hk => ?_, hz.signed.1.term.trans hanswer.term, ?_⟩
    · exact (hsigned m' hm' hk).imp_left fun hmem => hout ▸ hmem
    · by_cases hclash : x.Clashes m
      · exact Or.inl ⟨m, hacc, hclash⟩
      · have hlast : z.lastLogIndex = x.lastLogIndex := by rw [hzeq]; rfl
        have hno : ¬ z.Clashes m := by
          rw [hzeq]
          exact hclash
        right
        rw [← hlast]
        exact (last_le_absorbed hno d).trans hanswer.last

/-! ### The end of a tick -/

lemma last_maybeDriveMembership (x : Node σ) :
    x.lastLogIndex ≤ x.maybeDriveMembership.lastLogIndex := by
  have hcase := maybeDriveMembership_cases x
  generalize x.maybeDriveMembership = y at hcase ⊢
  have happend : ∀ e : LogEntry, x.snapshotLastIncludedIndex + (x.log.length : ℤ) ≤
      x.snapshotLastIncludedIndex + ((x.log ++ [e]).length : ℤ) := by
    intro e
    rw [List.length_append]
    push_cast
    omega
  cases hcase with
  | none | fullEnter | joint | fullLeave | stable => exact le_rfl
  | enter => exact happend _
  | leave => exact happend _

/-- Compaction keeps the end of the log where it is. -/
lemma last_maybeCompact (x : Node σ) : (x.maybeCompact A).1.lastLogIndex = x.lastLogIndex := by
  rcases maybeCompact_cases (A := A) x with heq | ⟨data, -, hlo, hhi, -, heq⟩
  · rw [heq]
  · rw [heq]
    simp only [Node.lastLogIndex, List.length_drop] at hhi ⊢
    omega

/-- **The end of a tick** goes forward and acknowledges nothing. -/
lemma forward_dumped (x : Node σ) : Forward x (x.dumped A) ∧ NoAcks x (x.dumped A) := by
  obtain ⟨happ, -⟩ := applying_applyCommitted (A := A) x.advanced.toApplyCount x.advanced
  rw [← commitAndApply_eq] at happ
  have hadv : x.advanced.log = x.log ∧
      x.advanced.snapshotLastIncludedIndex = x.snapshotLastIncludedIndex ∧
      x.advanced.outbox = x.outbox := by
    rcases advanced_cases x with h | ⟨k, -, -, h⟩
    all_goals
      rw [h]
      exact ⟨rfl, rfl, rfl⟩
  have hlast : (x.commitAndApply A).1.lastLogIndex = x.lastLogIndex := by
    rw [Node.lastLogIndex, Node.lastLogIndex, happ.log, happ.snapIndex, hadv.1, hadv.2.1]
  have hdrive := last_maybeDriveMembership (x.commitAndApply A).1
  have hcompact := last_maybeCompact (A := A) (x.commitAndApply A).1.maybeDriveMembership
  refine ⟨⟨?_, (term_dumped x).ge⟩, ?_⟩
  · rw [← hlast]
    exact hdrive.trans hcompact.ge
  · have hout : (x.commitAndApply A).1.outbox = x.outbox := happ.outbox.trans hadv.2.2
    refine ((NoAcks.of_eq hout).trans (noAcks_maybeDriveMembership _)).trans (NoAcks.of_eq ?_)
    rcases maybeCompact_cases (A := A) (x.commitAndApply A).1.maybeDriveMembership with
      heq | ⟨data, -, -, -, -, heq⟩
    all_goals rw [Node.dumped, heq]

lemma foldl_min_le_of_mem {l : List ℤ} {k : ℤ} : ∀ {a : ℤ}, k ∈ l → l.foldl min a ≤ k := by
  induction l with
  | nil => exact fun h => absurd h List.not_mem_nil
  | cons b l ih =>
      intro a h
      rw [List.foldl_cons]
      rcases List.mem_cons.mp h with rfl | h
      · exact (foldl_min_le l _).trans (min_le_right a k)
      · exact ih h

/-- A leader compacts no further than any of its peers has acknowledged. -/
lemma compactibleIndex_le_matchIndex (hs : x.state = .leader) {i : ℕ}
    (hi : i < x.config.peers.length) (hlen : i < x.matchIndex.length) :
    x.compactibleIndex ≤ x.matchIndex.getD i 0 := by
  rw [Node.compactibleIndex, if_neg (not_not.mpr hs)]
  refine foldl_min_le_of_mem (List.mem_of_getElem? (i := i) ?_)
  rw [List.getElem?_take_of_lt hi, List.getD_eq_getElem?_getD, List.getElem?_eq_getElem hlen]
  rfl

/-- **What a dump does to a node** whose configuration it keeps: the board stays, and the snapshot
moves to the compactible index or not at all. -/
lemma dumped_same (hrun : x.running = true) (hs : SameConfig A x) :
    (x.dumped A).board = x.board ∧ (x.dumped A).config = x.config ∧
    (x.dumped A).configState = x.configState ∧
    ((x.dumped A).snapshotLastIncludedIndex = x.snapshotLastIncludedIndex ∨
      (x.snapshotLastIncludedIndex < (x.dumped A).snapshotLastIncludedIndex ∧
        (x.state = .leader → ∀ i < x.config.peers.length, i < x.matchIndex.length →
          (x.dumped A).snapshotLastIncludedIndex ≤ x.matchIndex.getD i 0))) := by
  obtain ⟨v, t, d, heq, -⟩ := applyOnly_of_sameConfig hrun hs
  have happ : (x.commitAndApply A).1.board = x.board ∧ (x.commitAndApply A).1.config = x.config ∧
      (x.commitAndApply A).1.snapshotLastIncludedIndex = x.snapshotLastIncludedIndex := by
    rw [heq]
    rcases advanced_cases x with h | ⟨k, -, -, h⟩
    all_goals
      rw [h]
      exact ⟨rfl, rfl, rfl⟩
  obtain ⟨hboard, hconf, hsnap⟩ := happ
  have hdrive : (x.commitAndApply A).1.maybeDriveMembership.board = x.board ∧
      (x.commitAndApply A).1.maybeDriveMembership.config = x.config ∧
      (x.commitAndApply A).1.maybeDriveMembership.snapshotLastIncludedIndex =
        x.snapshotLastIncludedIndex := by
    rw [← hboard, ← hconf, ← hsnap]
    have hcase := maybeDriveMembership_cases (x.commitAndApply A).1
    generalize (x.commitAndApply A).1.maybeDriveMembership = z at hcase ⊢
    cases hcase <;> exact ⟨rfl, rfl, rfl⟩
  have hsame : (x.dumped A).configState = x.configState := by
    rw [SameConfig, dumpOutputs_eq hrun] at hs
    exact hs
  refine ⟨(board_dumped x).trans hboard, ?_, hsame, ?_⟩
  · exact (still_maybeCompact (A := A) _).config.trans hdrive.2.1
  · obtain ⟨hzb, hzc, hzs⟩ := hdrive
    rw [Node.dumped]
    generalize (x.commitAndApply A).1.maybeDriveMembership = z at hzb hzc hzs ⊢
    rcases maybeCompact_cases (A := A) z with hz | ⟨data, -, hlo, -, -, hz⟩
    · rw [hz]
      exact Or.inl hzs
    · rw [hz]
      refine Or.inr ⟨hzs ▸ hlo, fun hlead i hi hlen => ?_⟩
      have hzm : z.matchIndex = x.matchIndex := congrArg Board.matchIndex hzb
      have hzl : z.state = .leader := (congrArg Board.state hzb).trans hlead
      rw [← hzm] at hlen ⊢
      exact compactibleIndex_le_matchIndex hzl (hzc ▸ hi) hlen

/-! ### The members of a host -/

variable {members : List CString} {disk : Disk} {n : CString} {a : State CString ℤ LogEntry}

/-- The configuration names the members. -/
def NodeConfig.Founds (members : List CString) (config : NodeConfig) : Prop :=
  config.initialMembers ≠ [] ∧ normalizeMembers config.initialMembers maxNodes = members

/-- The node knows the members and no others, and its snapshot has no negative index. -/
structure Node.Founded (members : List CString) (x : Node σ) : Prop where
  given : x.config.Founds members
  old : x.configState.oldMembers = members
  new : x.configState.newMembers = []
  peers : x.config.peers = x.configState.others x.config.nodeId
  snap : 0 ≤ x.snapshotLastIncludedIndex

/-- The files name the members, unless there are none. -/
structure Disk.Founded (members : List CString) (disk : Disk) : Prop where
  stable : (disk.metaText = none ∧ disk.logText = none) ∨
    ((readMeta disk.metaText).configState.oldMembers = members ∧
      (readMeta disk.metaText).configState.newMembers = [])
  snap : 0 ≤ (readMeta disk.metaText).snapshotLastIncludedIndex

/-- **The members of a host** are those it started with, in memory and on disk, and it campaigns
only as one of them. -/
structure Host.Founded (members : List CString) (h : Host σ) : Prop where
  config : h.config.Founds members
  node : h.node.Founded members
  disk : h.disk.Founded members
  member : h.node.state ≠ .follower → h.node.config.nodeId ∈ members

lemma Node.Founded.frame (h : x.Founded members) (hc : y.config = x.config)
    (hs : y.configState = x.configState)
    (hi : x.snapshotLastIncludedIndex ≤ y.snapshotLastIncludedIndex) : y.Founded members := by
  obtain ⟨h1, h2, h3, h4, h5⟩ := h
  refine ⟨?_, ?_, ?_, ?_, h5.trans hi⟩
  · rw [hc]
    exact h1
  · rw [hs]
    exact h2
  · rw [hs]
    exact h3
  · rw [hc, hs]
    exact h4

lemma ConfigOk.common_of_founds {mode : Mode} {config : NodeConfig}
    (h : ConfigOk mode members config) (hf : config.Founds members) :
    ConfigOk .election members config :=
  ⟨h.learner, h.initial, h.alone, fun _ => hf⟩

/-- The peers are brought in line with the members. -/
lemma founded_refreshPeers (hg : x.config.Founds members) (hm : MembersOk members)
    (ho : x.configState.oldMembers = members) (hn : x.configState.newMembers = [])
    (hs : 0 ≤ x.snapshotLastIncludedIndex) : x.refreshPeers.Founded members := by
  refine ⟨hg, ho, hn, ?_, hs⟩
  refine peers_refreshPeers (fun m h => ?_) (fun m h => ?_) ?_
  · rw [ho] at h
    exact (hm.id m h).length_lt
  · rw [hn] at h
    exact absurd h List.not_mem_nil
  · rw [hn]
    exact List.nodup_nil

/-- The configuration a load leads to. -/
lemma startConfig_founded {mode : Mode} (hc : ConfigOk mode members x.config)
    (hg : x.config.Founds members) (hd : DiskOk members mode disk) (hf : disk.Founded members)
    (hs : x.configState = (readMeta disk.metaText).configState)
    (hl : x.log = readLog (readMeta disk.metaText).snapshotLastIncludedIndex disk.logText) :
    x.startConfig.oldMembers = members ∧ x.startConfig.newMembers = [] :=
  (startConfig_ok (hc.common_of_founds hg) ⟨hd.vote, hd.old, hd.new, fun _ => hf.stable⟩ hs hl).2.2
    Mode.elects_election

/-- **A node that was started** knows the same members. -/
lemma Node.Founded.start {mode : Mode} (h : x.Founded members) (hm : MembersOk members)
    (hc : ConfigOk mode members x.config) (hd : DiskOk members mode disk)
    (hf : disk.Founded members) : (x.start A disk).Founded members := by
  obtain ⟨u, hload⟩ := load_record (A := A) x disk
  obtain ⟨hold, hnew⟩ := startConfig_founded (x := x.load A disk) (by rw [hload]; exact hc)
    (by rw [hload]; exact h.given) hd hf (by rw [hload]) (by rw [hload])
  rw [Node.start]
  rw [Node.startConfig] at hold hnew
  split
  · rename_i hneeds
    rw [if_pos hneeds] at hold hnew
    have href : (Node.refreshPeers
        { x.load A disk with configState := (x.load A disk).fallbackConfig }).Founded members := by
      refine founded_refreshPeers ?_ hm hold hnew ?_
      · rw [hload]
        exact h.given
      · rw [hload]
        exact hf.snap
    exact href.frame rfl rfl le_rfl
  · rename_i hneeds
    rw [if_neg hneeds] at hold hnew
    rw [hload] at hold hnew ⊢
    refine ⟨h.given, hold, hnew, ?_, hf.snap⟩
    have hpeers := h.peers
    rw [ClusterConfiguration.others, h.old, h.new] at hpeers
    change x.config.peers = (readMeta disk.metaText).configState.others x.config.nodeId
    rw [ClusterConfiguration.others]
    rw [show (readMeta disk.metaText).configState.oldMembers = members from hold,
      show (readMeta disk.metaText).configState.newMembers = [] from hnew]
    exact hpeers

/-- **A node that was initialised** knows the members of its configuration. -/
lemma founded_init {mode : Mode} {config : NodeConfig} (hg : config.Founds members)
    (hm : MembersOk members) (hc : ConfigOk mode members config) (hd : DiskOk members mode disk)
    (hf : disk.Founded members) (user : σ) (clock : ℤ) :
    (Node.init A config disk user clock).Founded members := by
  obtain ⟨s, d, e, hinit⟩ := init_eq (A := A) hc.learner disk user clock
  obtain ⟨v, la, buf, c, t, hloaded⟩ := loaded_eq (A := A) config disk user clock
  obtain ⟨hold, hnew⟩ := startConfig_founded (x := Node.loaded A config disk user clock)
    (by rw [hloaded]; exact hc) (by rw [hloaded]; exact hg) hd hf (by rw [hloaded])
    (by rw [hloaded])
  rw [hinit]
  generalize (Node.loaded A config disk user clock).startConfig = conf at hold hnew ⊢
  rw [hloaded]
  exact (founded_refreshPeers (x := { Node.zero config v clock with
    currentTerm := _, votedFor := _, log := _, snapshotLastIncludedIndex := _
    snapshotLastIncludedTerm := _, commitIndex := _, snapshotBuf := _, compactionThreshold := _
    configState := conf, lastApplied := _, membershipState := s }) hg hm hold hnew hf.snap).frame
      rfl rfl le_rfl

lemma Disk.Founded.congr {disk' : Disk} (h : disk.Founded members)
    (hm : disk'.metaText = disk.metaText) (hl : disk'.logText = disk.logText) :
    disk'.Founded members := by
  obtain ⟨h1, h2⟩ := h
  rw [← hm, ← hl] at h1
  rw [← hm] at h2
  exact ⟨h1, h2⟩

lemma vote_dumped (x : Node σ) : (x.dumped A).votedFor = x.votedFor := by
  have hcalm := calm_applyCommitted (A := A) x.advanced.toApplyCount x.advanced
  have hstill := (still_maybeDriveMembership (x.commitAndApply A).1).trans
    (still_maybeCompact (A := A) _)
  exact hstill.vote.trans (hcalm.vote.trans (still_advanced x).vote)

/-- **The files some replacements of a dump leave**: the old ones, or those of the new node. -/
lemma files_dumped (disk : Disk) (hx : x.Founded members) (hm : MembersOk members)
    (hvote : x.votedFor = [] ∨ IdOk x.votedFor) (hrun : x.running = true)
    (hs : SameConfig A x) (hfit : (x.dumped A).Fits) (k : ℕ) :
    ((disk.writeAll ((x.dumpOutputs A).writes.take k)).metaText = disk.metaText ∧
      (disk.writeAll ((x.dumpOutputs A).writes.take k)).logText = disk.logText) ∨
    readMeta (disk.writeAll ((x.dumpOutputs A).writes.take k)).metaText = metaOf (x.dumped A) := by
  obtain ⟨-, -, hstate, -⟩ := dumped_same hrun hs
  have hids : StoredIdsOk (x.dumped A) := by
    refine ⟨by rw [vote_dumped]; exact hvote, by rw [hstate, hx.old]; exact hm, ?_⟩
    rw [hstate, hx.new]
    exact ⟨Nat.zero_le _, fun m h => absurd h List.not_mem_nil⟩
  rw [dumpOutputs_eq hrun]
  rcases disk_of_take disk (((x.commitAndApply A).1.maybeDriveMembership).maybeCompact A).2
    (x.dumped A) k with h | ⟨-, h⟩
  · exact Or.inl h
  · right
    rw [← readMeta_writeMeta hfit hids, ← h]

/-- They name the same members. -/
lemma Disk.Founded.dumped (hd : disk.Founded members) (hx : x.Founded members)
    (hm : MembersOk members) (hvote : x.votedFor = [] ∨ IdOk x.votedFor) (hrun : x.running = true)
    (hs : SameConfig A x) (hfit : (x.dumped A).Fits) (k : ℕ) :
    (disk.writeAll ((x.dumpOutputs A).writes.take k)).Founded members := by
  obtain ⟨-, hconf, hstate, hsnap⟩ := dumped_same hrun hs
  have hy : (x.dumped A).Founded members := by
    refine hx.frame hconf hstate ?_
    rcases hsnap with hsnap | hsnap
    · exact hsnap.ge
    · exact hsnap.1.le
  rcases files_dumped disk hx hm hvote hrun hs hfit k with ⟨h1, h2⟩ | hread
  · exact hd.congr h1 h2
  · refine ⟨Or.inr ?_, ?_⟩
    · rw [hread, configState_metaOf]
      exact ⟨hy.old, hy.new⟩
    · rw [hread]
      exact hy.snap

/-- A node campaigns only as a member. -/
lemma member_transition (hx : x.Founded members)
    (hm : x.state ≠ .follower → x.config.nodeId ∈ members)
    (hs : (x.transition A).state ≠ .follower) : x.config.nodeId ∈ members := by
  have hcase := transition_cases (A := A) x
  generalize x.transition A = y at hcase hs
  cases hcase with
  | none | ignoreVote | ignoreVoteRequest => exact hm hs
  | campaign hguard =>
      rw [Node.guardTimeoutExpired, Bool.and_eq_true, Bool.and_eq_true, Node.selfIsMember, hx.old,
        hx.new, List.contains_nil, Bool.or_false, List.contains_iff_mem] at hguard
      exact hguard.1.2
  | giveUp hcand | win hcand => exact hm (by rw [hcand]; decide)
  | heartbeat hlead => exact hm (by rw [hlead]; decide)
  | append m rest =>
      exact absurd (congrArg Board.state (board_handleAppendEntries (A := A)
        { x with state := .follower, pendingAppendEntries := rest } m)) hs
  | request m rest =>
      exact absurd (congrArg Board.state (board_handleVoteRequest
        { x with state := .follower, pendingVoteRequests := rest } m)) hs
  | requestAsCandidate m rest =>
      have hstate := congrArg Board.state
        (board_handleVoteRequest { x with pendingVoteRequests := rest } m)
      exact hm fun h => hs (hstate.trans h)
  | vote m rest =>
      have hstate := congrArg Board.state
        (board_handleVoteResponse { x with pendingVotes := rest } m)
      exact hm fun h => hs (hstate.trans h)

/-! ### Acts that keep the members -/

/-- The act leaves the members as they are. -/
def Host.Keeps (A : Application σ) (h : Host σ) : HostAct σ → Prop
  | .dump | .crashInDump _ _ _ _ => SameConfig A h.node
  | .request _ | .resetForJoin _ _ | .crashInReset _ _ _ => False
  | _ => True

instance (h : Host σ) : (act : HostAct σ) → Decidable (h.Keeps A act)
  | .dump | .crashInDump _ _ _ _ => inferInstanceAs (Decidable (SameConfig A h.node))
  | .request _ | .resetForJoin _ _ | .crashInReset _ _ _ => inferInstanceAs (Decidable False)
  | .latch _ _ _ _ | .transition _ | .stop | .start _ | .crash _ _ =>
      inferInstanceAs (Decidable True)

variable {h h' : Host σ} {act : HostAct σ} {e : Effect}

lemma actOk_of_keeps (hat : HostAt members .ballots n a h) (hk : h.Keeps A act)
    (hheard : AllHeard .ballots a.sent n act.heard) : ActOk members .ballots A n a h act := by
  cases act with
  | latch clock slots ms cs => exact ⟨hheard, nofun⟩
  | transition clock => exact ⟨nofun, fun _ _ _ h => absurd h (by simp)⟩
  | dump => exact dumpOk_of_sameConfig hat.node.ok hk nofun
  | stop => trivial
  | start clock => exact id
  | request ms => trivial
  | resetForJoin clock user => exact hk
  | crashInReset k user clock => exact hk
  | crash user clock => exact id
  | crashInDump k j user clock => exact ⟨id, dumpOk_of_sameConfig hat.node.ok hk nofun⟩

/-- **Every act** that keeps the members keeps them in memory and on disk. -/
lemma Host.Founded.exec (hf : h.Founded members) (hm : MembersOk members)
    (hat : HostAt members .ballots n a h) (hd : DiskOk members .ballots h'.disk)
    (hk : h.Keeps A act) (he : h.exec A act = some (h', e)) : h'.Founded members := by
  obtain ⟨hcase, hfit⟩ := exec_cases he
  have hvote := hat.node.ok.vote
  -- a node that was initialised leads nobody
  have hinit : ∀ disk user clock, DiskOk members .ballots disk → disk.Founded members →
      (Node.init A h.config disk user clock).Founded members ∧
        ((Node.init A h.config disk user clock).state ≠ .follower →
          (Node.init A h.config disk user clock).config.nodeId ∈ members) := by
    intro disk user clock hok hdisk
    refine ⟨founded_init hf.config hm hat.ok.config hok hdisk user clock, fun hs => ?_⟩
    exact absurd (board_init (A := A) h.config disk user clock).1 hs
  cases hcase with
  | latch clock slots ms cs _ =>
      have hturns := turns_latched h.node clock slots ms cs
      have hsame := sameMembership_turns hturns
      refine ⟨hf.config, ?_, hf.disk, fun hs => ?_⟩
      · exact hf.node.frame hsame.config hsame.configState (turns_snap hturns).1.ge
      · rw [hsame.config]
        exact hf.member fun hfollow => hs ((state_latchInputs _ ms cs).trans hfollow)
  | transition clock _ =>
      have hsame := sameMembership_transition (A := A) { h.node with clockMs := clock }
      have hsnap := (transition_snap (A := A) { h.node with clockMs := clock }).1
      have hx : Node.Founded members { h.node with clockMs := clock } :=
        hf.node.frame rfl rfl le_rfl
      refine ⟨hf.config, hf.node.frame hsame.config hsame.configState hsnap.ge, hf.disk,
        fun hs => ?_⟩
      rw [hsame.config]
      exact member_transition hx hf.member hs
  | dumpStopped _ _ => exact ⟨hf.config, hf.node.frame rfl rfl le_rfl, hf.disk, hf.member⟩
  | dump _ hrun =>
      obtain ⟨hboard, hconf, hstate, hsnap⟩ := dumped_same hrun hk
      refine ⟨hf.config, hf.node.frame hconf hstate ?_, ?_, fun hs => ?_⟩
      · rcases hsnap with hsnap | hsnap
        · exact hsnap.ge
        · exact hsnap.1.le
      · have hall := hf.disk.dumped hf.node hm hvote hrun hk hfit
          (h.node.dumpOutputs A).writes.length
        rw [List.take_length] at hall
        exact hall
      · change (h.node.dumped A).config.nodeId ∈ members
        rw [hconf]
        exact hf.member fun hfollow => hs ((congrArg Board.state hboard).trans hfollow)
  | stop _ =>
      exact ⟨hf.config, hf.node.frame rfl rfl le_rfl, hf.disk, fun hs => absurd rfl hs⟩
  | start clock _ =>
      have hx : Node.Founded members { h.node with clockMs := clock } :=
        hf.node.frame rfl rfl le_rfl
      have hstart := nodeOk_start (A := A) id (hat.node.clock clock h.node.slots).ok hd
      refine ⟨hf.config, hx.start hm hat.node.ok.config hd hf.disk, hf.disk, fun hs => ?_⟩
      exact absurd hstart.2.2.2.1 hs
  | request | resetForJoin | crashInReset => exact hk.elim
  | crash user clock =>
      obtain ⟨hnode, hlead⟩ := hinit h.disk user clock hd hf.disk
      exact ⟨hf.config, hnode, hf.disk, hlead⟩
  | crashInDump k j user clock _ hfits =>
      have hdisk : Disk.Founded members
          (h.disk.writeAll ((h.node.dumpOutputs A).writes.take k)) := by
        cases hrun : h.node.running with
        | false =>
            rw [dumpOutputs_stopped hrun, List.take_nil]
            exact hf.disk
        | true =>
            rw [dumpOutputs_eq hrun] at hfits
            exact hf.disk.dumped hf.node hm hvote hrun hk hfits k
      obtain ⟨hnode, hlead⟩ := hinit _ user clock hd hdisk
      exact ⟨hf.config, hnode, hdisk, hlead⟩

/-- The peers of a member are all other members. -/
lemma Node.Founded.peers_of_mem (hx : x.Founded members) (hm : MembersOk members)
    (hself : x.config.nodeId ∈ members) {p : CString} (hp : p ∈ members)
    (hne : p ≠ x.config.nodeId) : p ∈ x.config.peers := by
  have hroom : (members.filter (· ≠ x.config.nodeId)).length < members.length :=
    List.length_filter_lt_length_iff_exists.mpr ⟨_, hself, by simp⟩
  have hlen := hm.length_le
  rw [hx.peers, ClusterConfiguration.others, hx.old, hx.new, List.filter_nil, List.append_nil,
    List.take_of_length_le]
  · exact List.mem_filter.mpr ⟨hp, by simpa using hne⟩
  · rw [maxPeers]
    omega

/-! ### One act of a host -/

/-- The act may leave the log shorter: it accepts a batch that conflicts with the log, or loads the
log from the files. -/
def Node.MayCut (x : Node σ) : HostAct σ → Prop
  | .transition clockMs => ∃ m, Node.Accepts { x with clockMs := clockMs } m ∧ x.Clashes m
  | .start _ | .crash _ _ | .crashInDump _ _ _ _ => True
  | _ => False

/-- **Any other act** goes forward. -/
lemma forward_exec (hk : h.Keeps A act) (hcut : ¬ h.node.MayCut act)
    (he : h.exec A act = some (h', e)) : Forward h.node h'.node := by
  obtain ⟨hcase, -⟩ := exec_cases he
  cases hcase with
  | latch clock slots ms cs _ =>
      exact (turns_latched h.node clock slots ms cs).signed.1
  | transition clock _ =>
      obtain ⟨-, hterm, hlast⟩ := signed_transition (A := A) { h.node with clockMs := clock }
      exact ⟨hlast.resolve_left hcut, hterm⟩
  | dumpStopped _ _ | stop _ => exact ⟨le_rfl, le_rfl⟩
  | dump _ _ => exact ⟨(forward_dumped h.node).1.last, (forward_dumped h.node).1.term⟩
  | request | resetForJoin | crashInReset => exact hk.elim
  | start clock _ => exact absurd trivial hcut
  | crash user clock => exact absurd trivial hcut
  | crashInDump k j user clock _ _ => exact absurd trivial hcut

/-- **What an act acknowledges** it stands by, and what it sends was queued before. -/
lemma signed_exec (hidle : h'.phase = .idle → h'.node.outbox = []) (hk : h.Keeps A act)
    (he : h.exec A act = some (h', e)) :
    Signed h.node h'.node ∧ ∀ m ∈ e.sends, m.Acks → m ∈ h.node.outbox := by
  obtain ⟨hcase, -⟩ := exec_cases he
  have hempty : h'.phase = .idle → Signed h.node h'.node := by
    intro hphase m hm
    rw [hidle hphase] at hm
    exact absurd hm List.not_mem_nil
  have hsends : ∀ m ∈ (h.node.dumpOutputs A).sends, m.Acks → m ∈ h.node.outbox := by
    intro m hm hack
    cases hrun : h.node.running with
    | false =>
        rw [dumpOutputs_stopped hrun] at hm
        exact absurd hm List.not_mem_nil
    | true =>
        rw [dumpOutputs_eq hrun] at hm
        exact (forward_dumped h.node).2 m hm hack.1 hack.2
  cases hcase with
  | latch clock slots ms cs _ =>
      refine ⟨?_, fun m hm => absurd hm List.not_mem_nil⟩
      exact (turns_latched h.node clock slots ms cs).signed.2
  | transition clock _ =>
      refine ⟨?_, fun m hm => absurd hm List.not_mem_nil⟩
      exact (signed_transition (A := A) { h.node with clockMs := clock }).1
  | dumpStopped _ _ => exact ⟨hempty rfl, fun m hm => absurd hm List.not_mem_nil⟩
  | dump _ _ => exact ⟨hempty rfl, hsends⟩
  | stop hphase | start clock hphase =>
      exact ⟨hempty hphase, fun m hm => absurd hm List.not_mem_nil⟩
  | request | resetForJoin | crashInReset => exact hk.elim
  | crash user clock => exact ⟨hempty rfl, fun m hm => absurd hm List.not_mem_nil⟩
  | crashInDump k j user clock _ _ =>
      refine ⟨hempty rfl, fun m hm => ?_⟩
      dsimp only at hm
      split at hm
      · exact hsends m (List.mem_of_mem_take hm)
      · exact absurd hm List.not_mem_nil

/-! ### Leading -/

lemma state_start (x : Node σ) (disk : Disk) : (x.start A disk).state = .follower := rfl

/-- A host leads after latching or a transition, or after an act that leaves its board alone. -/
lemma leads_exec (hl : h'.node.state = .leader) (hk : h.Keeps A act)
    (he : h.exec A act = some (h', e)) :
    (∃ clock slots ms cs, act = .latch clock slots ms cs ∧
      h'.node = Node.latchInputs { h.node with clockMs := clock, slots := slots } ms cs) ∨
    (∃ clock, act = .transition clock ∧
      h'.node = Node.transition A { h.node with clockMs := clock }) ∨
    (act.heard = [] ∧ h'.node.board = h.node.board ∧
      h'.node.currentTerm = h.node.currentTerm) := by
  obtain ⟨hcase, -⟩ := exec_cases he
  cases hcase with
  | latch clock slots ms cs _ => exact Or.inl ⟨clock, slots, ms, cs, rfl, rfl⟩
  | transition clock _ => exact Or.inr (Or.inl ⟨clock, rfl, rfl⟩)
  | dumpStopped _ _ => exact Or.inr (Or.inr ⟨rfl, rfl, rfl⟩)
  | dump _ hrun => exact Or.inr (Or.inr ⟨rfl, (dumped_same hrun hk).1, term_dumped h.node⟩)
  | stop _ => exact absurd hl (by simp [Node.stop])
  | start clock _ =>
      have hstate := state_start (A := A) { h.node with clockMs := clock } h.disk
      exact absurd (hstate.symm.trans hl) (by decide)
  | request | resetForJoin | crashInReset => exact hk.elim
  | crash user clock =>
      have hstate := (board_init (A := A) h.config h.disk user clock).1
      exact absurd (hstate.symm.trans hl) (by decide)
  | crashInDump k j user clock _ _ =>
      have hstate := (board_init (A := A) h.config
        (h.disk.writeAll ((h.node.dumpOutputs A).writes.take k)) user clock).1
      exact absurd (hstate.symm.trans hl) (by decide)

/-- **A node is elected** with a cleared board. -/
lemma elected_exec (hno : h.node.state ≠ .leader) (hl : h'.node.state = .leader)
    (hk : h.Keeps A act) (he : h.exec A act = some (h', e)) :
    ∃ x : Node σ, h'.node.board = x.lead.board := by
  rcases leads_exec hl hk he with ⟨clock, slots, ms, cs, -, hnode⟩ | ⟨clock, -, hnode⟩ |
    ⟨-, hboard, -⟩
  · rw [hnode] at hl
    exact absurd ((state_latchInputs _ ms cs).symm.trans hl) hno
  · rw [hnode] at hl ⊢
    rcases board_transition (A := A) { h.node with clockMs := clock } with
      ⟨r, hboard, hr⟩ | ⟨-, hboard⟩
    · have hstate : (Node.transition A { h.node with clockMs := clock }).state = r :=
        congrArg Board.state hboard
      exact absurd (hr (hstate.symm.trans hl)) hno
    · exact ⟨_, hboard⟩
  · exact absurd ((congrArg Board.state hboard).symm.trans hl) hno

/-- **A leader that goes on leading** puts what it takes in its places. -/
lemma led_exec (hlead : h.node.state = .leader) (hl : h'.node.state = .leader)
    (hk : h.Keeps A act) (he : h.exec A act = some (h', e)) :
    h.node.currentTerm ≤ h'.node.currentTerm ∧
      h'.node.board = (h.node.taken act.heard).foldl Board.put h.node.board := by
  -- an act that hears nothing takes nothing
  have hnothing : act.heard = [] → h.node.taken act.heard = [] := by
    intro hact
    rw [hact, Node.taken, List.take_nil]
    split <;> rfl
  rcases leads_exec hl hk he with ⟨clock, slots, ms, cs, rfl, hnode⟩ | ⟨clock, rfl, hnode⟩ |
    ⟨hact, hboard, hterm⟩
  · rw [hnode]
    exact ⟨(turns_latched h.node clock slots ms cs).signed.1.term,
      board_latchInputs h.node clock slots ms cs⟩
  · rw [hnothing rfl]
    rw [hnode] at hl ⊢
    refine ⟨(signed_transition (A := A) { h.node with clockMs := clock }).2.1, ?_⟩
    rcases board_transition (A := A) { h.node with clockMs := clock } with
      ⟨r, hboard, -⟩ | ⟨hno, -⟩
    · have hr : r = h.node.state :=
        (congrArg Board.state hboard).symm.trans (hl.trans hlead.symm)
      exact hboard.trans (by rw [hr]; rfl)
    · exact absurd hlead hno
  · rw [hnothing hact]
    exact ⟨hterm.ge, hboard⟩

/-! ### Snapshot indices -/

/-- The index of the snapshot the files are for. -/
def Disk.snapshotIndex (disk : Disk) : ℤ := (readMeta disk.metaText).snapshotLastIncludedIndex

/-- The act ends a tick, or dies in the attempt. -/
def HostAct.Dumps : HostAct σ → Prop
  | .dump | .crashInDump _ _ _ _ => True
  | _ => False

instance : (act : HostAct σ) → Decidable act.Dumps
  | .dump | .crashInDump _ _ _ _ => inferInstanceAs (Decidable True)
  | .latch _ _ _ _ | .transition _ | .stop | .start _ | .request _ | .resetForJoin _ _ | .crash _ _
  | .crashInReset _ _ _ => inferInstanceAs (Decidable False)

lemma snap_init {config : NodeConfig} (hl : config.learner = false) (disk : Disk) (user : σ)
    (clock : ℤ) :
    (Node.init A config disk user clock).snapshotLastIncludedIndex = disk.snapshotIndex := by
  obtain ⟨s, d, e, hinit⟩ := init_eq (A := A) hl disk user clock
  obtain ⟨v, la, buf, c, t, hloaded⟩ := loaded_eq (A := A) config disk user clock
  rw [hinit, hloaded]
  rfl

lemma snap_start (x : Node σ) (disk : Disk) :
    (x.start A disk).snapshotLastIncludedIndex = disk.snapshotIndex := by
  have hload : (x.load A disk).snapshotLastIncludedIndex = disk.snapshotIndex := by
    obtain ⟨u, heq⟩ := load_record (A := A) x disk
    rw [heq]
    rfl
  rw [← hload, Node.start]
  generalize x.load A disk = z
  dsimp only
  split <;> rfl

/-- **Where a snapshot index comes from**: what holds of the index in memory and in the files before
an act holds of them afterwards, if it holds of the one the act compacts up to. -/
lemma snap_exec {P : ℤ → Prop} (hf : h.Founded members) (hm : MembersOk members)
    (hat : HostAt members .ballots n a h) (hk : h.Keeps A act)
    (he : h.exec A act = some (h', e)) (hnode : P h.node.snapshotLastIncludedIndex)
    (hdisk : P h.disk.snapshotIndex)
    (hnew : act.Dumps →
      h.node.snapshotLastIncludedIndex < (h.node.dumped A).snapshotLastIncludedIndex →
      (h.node.state = .leader →
        ∀ i < h.node.config.peers.length, i < h.node.matchIndex.length →
          (h.node.dumped A).snapshotLastIncludedIndex ≤ h.node.matchIndex.getD i 0) →
      P (h.node.dumped A).snapshotLastIncludedIndex) :
    P h'.node.snapshotLastIncludedIndex ∧ P h'.disk.snapshotIndex := by
  obtain ⟨hcase, hfit⟩ := exec_cases he
  have hl : h.config.learner = false := hat.ok.config.learner
  -- the index a dump leaves in memory
  have hdumped : h.node.running = true → SameConfig A h.node → act.Dumps →
      P (h.node.dumped A).snapshotLastIncludedIndex := by
    intro hrun hs hdumps
    obtain ⟨-, -, -, hsame | ⟨hlt, hle⟩⟩ := dumped_same hrun hs
    · rw [hsame]
      exact hnode
    · exact hnew hdumps hlt hle
  -- and the one it leaves in the files
  have hfiles : h.node.running = true → SameConfig A h.node → act.Dumps →
      (h.node.dumped A).Fits → ∀ k,
        P (h.disk.writeAll ((h.node.dumpOutputs A).writes.take k)).snapshotIndex := by
    intro hrun hs hdumps hfits k
    rw [Disk.snapshotIndex]
    rcases files_dumped h.disk hf.node hm hat.node.ok.vote hrun hs hfits k with ⟨heq, -⟩ | heq
    · rw [heq]
      exact hdisk
    · rw [heq]
      exact hdumped hrun hs hdumps
  cases hcase with
  | latch clock slots ms cs _ =>
      have hturns := turns_latched h.node clock slots ms cs
      exact ⟨(turns_snap hturns).1.symm ▸ hnode, hdisk⟩
  | transition clock _ =>
      have hsnap := (transition_snap (A := A) { h.node with clockMs := clock }).1
      exact ⟨hsnap.symm ▸ hnode, hdisk⟩
  | dumpStopped _ _ | stop _ => exact ⟨hnode, hdisk⟩
  | dump _ hrun =>
      refine ⟨hdumped hrun hk trivial, ?_⟩
      have hall := hfiles hrun hk trivial hfit (h.node.dumpOutputs A).writes.length
      rw [List.take_length] at hall
      exact hall
  | start clock _ =>
      refine ⟨?_, hdisk⟩
      rw [snap_start]
      exact hdisk
  | request | resetForJoin | crashInReset => exact hk.elim
  | crash user clock =>
      refine ⟨?_, hdisk⟩
      rw [snap_init hl]
      exact hdisk
  | crashInDump k j user clock _ hfits =>
      have hwritten : P (h.disk.writeAll ((h.node.dumpOutputs A).writes.take k)).snapshotIndex := by
        cases hrun : h.node.running with
        | false =>
            rw [dumpOutputs_stopped hrun, List.take_nil]
            exact hdisk
        | true =>
            rw [dumpOutputs_eq hrun] at hfits
            exact hfiles hrun hk trivial hfits k
      refine ⟨?_, hwritten⟩
      rw [snap_init hl]
      exact hwritten

end RaftRx.C
