import RaftRx.Python.View
import RaftRx.Python.JointMembers

/-!
Hosts of Python nodes as servers of the protocol.

A stopped node ticks on: it neither hears nor sends nor saves anything until it is started from its
files.  Its server does not move meanwhile; only its stable copies and its log are compared.

* `DiskOk`, `Loaded`: files in order, and a node that was loaded from them;
* `Halted`: a stopped node;
* `Simulates`: steps of one server that send;
* `At.saved`, `At.sends`, `reach_loaded`: files, messages and restarts;
* `HostAt`: the host is the server of an abstract state;
* `ActOk`, `hostAt_exec`: an act of a host that meets `ActOk` is a sequence of steps.
-/

namespace RaftRx.Python

open Protocol

variable {σ ν : Type} {E : Env σ ν} {F : Disk ν} {members : List Str} {mode : Mode}
  {S S' : Set (Msg Str ℤ LogEntry)} {n : Str} {st : Stored} {u : Bool}
  {a a' a'' : State Str ℤ LogEntry} {x y : Node σ ν} {m : Message} {disk : Disk ν}

/-! ### Loading -/

/-- Files in order: the configuration in them is the common one, and nothing is compacted when logs
are studied. -/
structure DiskOk (members : List Str) (mode : Mode) (disk : Disk ν) : Prop where
  empty : disk.metaJson = none → disk.logJson = none
  members : ∀ file ∈ disk.metaJson, file.oldMembers = members ∧ file.newMembers = none
  good : mode.keepsLogs → ∀ file ∈ disk.metaJson, file.snapshotLastIncludedIndex = 0 ∧
    file.snapshotLastIncludedTerm = 0 ∧ 0 ≤ file.commitIndex

lemma diskOk_empty : DiskOk members mode (Disk.empty : Disk ν) :=
  ⟨fun _ => rfl, fun _ h => absurd h (by simp [Disk.empty]),
    fun _ _ h => absurd h (by simp [Disk.empty])⟩

lemma load_of_none (h : disk.metaJson = none) : disk.load = {} := by
  rw [Disk.load, h]

/-- A node right after it was loaded. -/
structure Loaded (disk : Disk ν) (given : NodeConfig) (y : Node σ ν) : Prop where
  config : y.config = given
  running : y.running = true
  role : y.role = .follower
  term : y.currentTerm = disk.stored.term
  vote : y.votedFor = disk.stored.vote
  log : y.log = disk.stored.log
  outbox : y.outbox = []
  appends : y.pendingAppendEntries = []
  requests : y.pendingVoteRequests = []
  votes : y.pendingVotes = []
  configState : y.configState = Node.loadedConfiguration given disk.load
  snapIndex : y.snapshotLastIncludedIndex = disk.load.snapshotLastIncludedIndex
  snapTerm : y.snapshotLastIncludedTerm = disk.load.snapshotLastIncludedTerm
  commit : y.commitIndex =
    min disk.load.commitIndex (disk.load.snapshotLastIncludedIndex + disk.load.log.length)

lemma loaded_init (config : NodeConfig) (user : σ) (clockMs : ℤ) :
    Loaded disk config (Node.init E config disk user clockMs) :=
  ⟨rfl, rfl, rfl, rfl, rfl, rfl, rfl, rfl, rfl, rfl, rfl, rfl, rfl, rfl⟩

lemma loaded_start (x : Node σ ν) : Loaded disk x.config (Node.start E disk x) :=
  ⟨rfl, rfl, rfl, rfl, rfl, rfl, rfl, rfl, rfl, rfl, rfl, rfl, rfl, rfl⟩

/-- **The configuration after a load** is the common one. -/
lemma loadedConfiguration_members {config : NodeConfig} (hd : DiskOk members mode disk)
    (hs : ClusterConfiguration.normalizeMembers config.startMembers = members) :
    (Node.loadedConfiguration config disk.load).oldMembers = members ∧
      (Node.loadedConfiguration config disk.load).newMembers = none := by
  have hidem : ClusterConfiguration.normalizeMembers members = members := by
    rw [← hs]
    exact normalizeMembers_idem _
  cases hm : disk.metaJson with
  | none =>
      rw [load_of_none hm]
      exact ⟨hs, rfl⟩
  | some file =>
      obtain ⟨hold, hnew⟩ := hd.members file (by rw [hm]; rfl)
      have hload : disk.load.oldMembers = members ∧ disk.load.newMembers = none := by
        rw [Disk.load, hm]
        exact ⟨hold, hnew⟩
      rw [Node.loadedConfiguration, hload.1, hload.2]
      split
      · exact ⟨hidem, rfl⟩
      · exact ⟨hs, rfl⟩

/-- **A loaded node is in order.** -/
lemma Loaded.nodeOk {config : NodeConfig} (h : Loaded disk config y) (hn : config.nodeId = n)
    (hs : ClusterConfiguration.normalizeMembers config.startMembers = members)
    (hd : DiskOk members mode disk) : NodeOk members mode S n y := by
  obtain ⟨hold, hnew⟩ := loadedConfiguration_members hd hs
  refine ⟨h.config ▸ hn, h.config ▸ hs, h.configState ▸ hold, h.configState ▸ hnew,
    fun hr => absurd h.role hr, Pending.nil h.appends h.requests h.votes, fun hk => ?_⟩
  have hload : disk.load.snapshotLastIncludedIndex = 0 ∧ disk.load.snapshotLastIncludedTerm = 0 ∧
      0 ≤ disk.load.commitIndex := by
    cases hm : disk.metaJson with
    | none =>
        rw [load_of_none hm]
        exact ⟨rfl, rfl, le_refl _⟩
    | some file =>
        rw [Disk.load, hm]
        exact hd.good hk file (by rw [hm]; rfl)
  obtain ⟨hi, ht, hc⟩ := hload
  refine ⟨h.snapIndex.trans hi, h.snapTerm.trans ht, ?_, ?_⟩
  · rw [h.commit, hi, zero_add]
    exact le_min hc (Int.natCast_nonneg _)
  · rw [h.outbox]
    exact fun m hm => absurd hm List.not_mem_nil

/-! ### Saving -/

/-- What a save leaves in the files. -/
def Node.toStore (x : Node σ ν) : Stored :=
  { term := x.currentTerm, vote := x.votedFor, log := x.log }

/-- **The files after some of the replacements of a save**: nothing, `meta.json` or both are new. -/
lemma stored_save (hd : disk.metaJson = none → disk.logJson = none) (k : ℕ) :
    ((disk.writeAll (x.save.take k)).stored = disk.stored ∧ k = 0) ∨
    ((disk.writeAll (x.save.take k)).stored =
        { term := x.currentTerm, vote := x.votedFor, log := disk.stored.log } ∧ k = 1) ∨
    ((disk.writeAll (x.save.take k)).stored = x.toStore ∧ 2 ≤ k) := by
  cases k with
  | zero => exact Or.inl ⟨rfl, rfl⟩
  | succ k =>
      cases k with
      | zero =>
          refine Or.inr (Or.inl ⟨?_, rfl⟩)
          have hlog : disk.logJson.getD [] = disk.stored.log := by
            rw [Disk.stored]
            cases hm : disk.metaJson with
            | none =>
                rw [hd hm, load_of_none hm]
                rfl
            | some file => rw [Disk.load, hm]
          rw [← hlog]
          rfl
      | succ k =>
          refine Or.inr (Or.inr ⟨?_, by omega⟩)
          rw [List.take_of_length_le (by simp [Node.save])]
          rfl

/-- The files stay in order. -/
lemma DiskOk.save (h : DiskOk members mode disk) (hx : NodeOk members mode S n x) (k : ℕ) :
    DiskOk members mode (disk.writeAll (x.save.take k)) := by
  cases k with
  | zero => exact h
  | succ k =>
      have hmeta : ∃ file : MetaFile, (disk.writeAll (x.save.take (k + 1))).metaJson = some file ∧
          file.oldMembers = x.configState.oldMembers ∧
          file.newMembers = x.configState.newMembers ∧
          file.snapshotLastIncludedIndex = x.snapshotLastIncludedIndex ∧
          file.snapshotLastIncludedTerm = x.snapshotLastIncludedTerm ∧
          file.commitIndex = x.commitIndex := by
        cases k with
        | zero => exact ⟨_, rfl, rfl, rfl, rfl, rfl, rfl⟩
        | succ k =>
            rw [List.take_of_length_le (by simp [Node.save])]
            exact ⟨_, rfl, rfl, rfl, rfl, rfl, rfl⟩
      obtain ⟨file, heq, hold, hnew, hindex, hterm, hcommit⟩ := hmeta
      have hmem : file.oldMembers = members ∧ file.newMembers = none :=
        ⟨hold.trans hx.old, hnew.trans hx.new⟩
      have hgood : mode.keepsLogs → file.snapshotLastIncludedIndex = 0 ∧
          file.snapshotLastIncludedTerm = 0 ∧ 0 ≤ file.commitIndex := fun hk =>
        ⟨hindex.trans (hx.good hk).snapIndex, hterm.trans (hx.good hk).snapTerm,
          hcommit ▸ (hx.good hk).commit_nonneg⟩
      refine ⟨fun hnone => ?_, fun file' hfile => ?_, fun hk file' hfile => ?_⟩
      · rw [heq] at hnone
        exact absurd hnone (by simp)
      · rw [heq] at hfile
        exact Option.some.inj hfile ▸ hmem
      · rw [heq] at hfile
        exact Option.some.inj hfile ▸ hgood hk

/-- The stable copies of a server are what the files say. -/
structure Stable (st : Stored) (s : Server Str ℤ LogEntry) : Prop where
  term : s.stableTerm = st.term
  vote : s.stableVote = st.vote
  log : s.stableLog = st.log

lemma At.stable (h : At members mode S n st u a x) : Stable st (a.srv n) := by
  rw [h.srv]
  exact ⟨rfl, rfl, rfl⟩

/-- **A save** of all three. -/
lemma At.saved (h : At members mode S n st u a x) :
    Reach members mode S n x.toStore false a x.saved := by
  have hok : NodeOk members mode S n x.saved := by
    refine h.ok.frame rfl rfl h.ok.member (h.ok.pending.frame id rfl rfl rfl) fun hk => ?_
    have g := h.ok.good hk
    exact ⟨g.snapIndex, g.snapTerm, g.commit_nonneg, g.queued⟩
  refine h.reach ?_ hok
  refine (moves_save h.srv).bind fun a1 hl1 h1 => ?_
  refine (moves_saveLog h1 rfl).bind fun a2 hl2 h2 => ?_
  exact moves_settle ((hl1.trans hl2).inv h.inv).ballots h2 rfl

/-- A node with nothing to save settles. -/
lemma At.settled (h : At members mode S n st u a x) (hd : x.persistDirty = false) :
    Reach members mode S n st false a x.saved := by
  have hsaved : x.saved = x := by
    rw [Node.saved, ← hd]
  rw [hsaved]
  exact h.reach (moves_settle h.inv.ballots h.srv hd) h.ok

/-- A save that dies after `meta.json`. -/
lemma At.savedMeta (h : At members mode S n st u a x) : ∃ a', Local (params members) mode n a a' ∧
    Stable { term := x.currentTerm, vote := x.votedFor, log := st.log } (a'.srv n) := by
  have hmove : Moves (params members) mode a n _ := moves_save h.srv
  obtain ⟨a', hl, hy⟩ := hmove
  refine ⟨a', hl, ?_⟩
  rw [hy]
  exact ⟨rfl, rfl, rfl⟩

/-- **A restart**: the server is read back from its stable copies. -/
lemma reach_loaded {config : NodeConfig} (hm : mode ≠ .commits)
    (hinv : ModeInv (params members) mode a) (hsent : a.sent = S)
    (hst : Stable disk.stored (a.srv n)) (hy : Loaded disk config y)
    (hok : NodeOk members mode S n y) (u : Bool) : Reach members mode S n disk.stored u a y := by
  have hmove : Moves (params members) mode a n _ :=
    moves_crash rfl {v | v ∈ y.votesReceived} y.matched y.commitIndex.toNat y.persistDirty u hm
  obtain ⟨a', hl, hx⟩ := hmove
  refine ⟨a', hl, hl.inv hinv, hl.sent.trans hsent, hx.trans ?_, hok⟩
  simp only [Node.view, hy.term, hy.vote, hy.role, hy.log, hy.outbox, hst.term, hst.vote, hst.log,
    List.filterMap_nil]

/-! ### Sending -/

lemma Hears.mono (h : Hears mode S n m) (hS : S ⊆ S') : Hears mode S' n m :=
  ⟨h.target, fun p hp => hS (h.sent p hp), h.sane⟩

lemma Queued.mono {H H' : Message → Prop} {kind : MessageKind} {q q' : List Message}
    (h : Queued H x kind q q') (hH : ∀ m, H m → H' m) : Queued H' x kind q q' :=
  fun m hm => (h m hm).imp_right fun ⟨hrun, hm, hkind⟩ => ⟨hrun, hH m hm, hkind⟩

lemma Pending.mono {H H' : Message → Prop} (h : Pending H x) (hH : ∀ m, H m → H' m) :
    Pending H' x :=
  ⟨h.appends.mono hH, h.requests.mono hH, h.votes.mono hH⟩

lemma NodeOk.mono (h : NodeOk members mode S n x) (hS : S ⊆ S') : NodeOk members mode S' n x :=
  ⟨h.nodeId, h.start, h.old, h.new, h.member, h.pending.mono fun _ hm => hm.mono hS, h.good⟩

/-- Steps of one server that send the messages. -/
structure Simulates (members : List Str) (mode : Mode) (n : Str) (ms : List Message)
    (a a' : State Str ℤ LogEntry) : Prop where
  steps : Steps (params members) mode a a'
  others : ∀ p, p ≠ n → a'.srv p = a.srv p
  sent : a'.sent = a.sent ∪ {p | ∃ m ∈ ms, m.promise = some p}
  sane : mode.keepsLogs → ∀ m ∈ ms, m.Sane

lemma simulates_of_local (h : Local (params members) mode n a a') :
    Simulates members mode n [] a a' :=
  ⟨h.steps, h.others, by rw [h.sent]; simp, fun _ _ hm => absurd hm List.not_mem_nil⟩

lemma Simulates.before {ms : List Message} (h : Local (params members) mode n a a')
    (h' : Simulates members mode n ms a' a'') : Simulates members mode n ms a a'' :=
  ⟨Relation.ReflTransGen.trans h.steps h'.steps, fun p hp => (h'.others p hp).trans (h.others p hp),
    by rw [h'.sent, h.sent], h'.sane⟩

lemma Simulates.after {ms : List Message} (h : Simulates members mode n ms a a')
    (h' : Local (params members) mode n a' a'') : Simulates members mode n ms a a'' :=
  ⟨Relation.ReflTransGen.trans h.steps h'.steps, fun p hp => (h'.others p hp).trans (h.others p hp),
    h'.sent.trans h.sent, h.sane⟩

/-- **The first messages of a clean node's queue leave.** -/
lemma At.sends (h : At members mode a.sent n st u a x) (hd : x.persistDirty = false)
    {ms rest : List Message} (hq : x.outbox = ms ++ rest) :
    ∃ a', Simulates members mode n ms a a' ∧
      At members mode a'.sent n st u a' { x with outbox := rest } := by
  have hout : (x.view st u).outbox =
      ms.filterMap Message.promise ++ rest.filterMap Message.promise := by
    rw [Node.view, hq, List.filterMap_append]
  obtain ⟨a', hsteps, hothers, hsrv, hsent, -⟩ :=
    sends_of_clean (params members) mode (ms.filterMap Message.promise) h.inv.ballots h.srv hd hout
  have hset : a'.sent = a.sent ∪ {p | ∃ m ∈ ms, m.promise = some p} := by
    rw [hsent]
    ext p
    simp only [Set.mem_union, Set.mem_ofPred_eq, List.mem_filterMap]
  refine ⟨a', ⟨hsteps, hothers, hset, fun hk m hm => ?_⟩, modeInv_steps h.inv hsteps, rfl, hsrv, ?_⟩
  · exact (h.ok.good hk).queued m (by rw [hq]; exact List.mem_append_left _ hm)
  · have hmono : a.sent ⊆ a'.sent := by
      rw [hset]
      exact Set.subset_union_left
    refine (h.ok.mono hmono).frame rfl rfl h.ok.member
      ((h.ok.mono hmono).pending.frame id rfl rfl rfl) fun hk => ?_
    have g := h.ok.good hk
    exact ⟨g.snapIndex, g.snapTerm, g.commit_nonneg,
      fun m hm => g.queued m (by rw [hq]; exact List.mem_append_right _ hm)⟩

/-! ### Stopped nodes -/

/-- **A stopped node**: nothing is pending, it has no vote but its own, and it leads only alone. -/
structure Halted (members : List Str) (mode : Mode) (n : Str) (st : Stored)
    (s : Server Str ℤ LogEntry) (x : Node σ ν) : Prop where
  stable : Stable st s
  log : mode.keepsLogs → x.log = s.log
  nodeId : x.config.nodeId = n
  start : ClusterConfiguration.normalizeMembers x.config.startMembers = members
  old : x.configState.oldMembers = members
  new : x.configState.newMembers = none
  pending : Pending (fun _ => False) x
  votes : ∀ v ∈ x.votesReceived, v = n
  leader : x.role = .leader → members = [n]

variable {s : Server Str ℤ LogEntry} {C : List LogEntry → Message → Prop}

/-- A change of fields that a stopped node is not asked about. -/
lemma Halted.frame (h : Halted members mode n st s x) (hc : y.config = x.config)
    (hcs : y.configState = x.configState) (hl : mode.keepsLogs → y.log = x.log)
    (hp : Pending (fun _ => False) y) (hv : ∀ v ∈ y.votesReceived, v = n)
    (hr : y.role = .leader → members = [n]) : Halted members mode n st s y :=
  ⟨h.stable, fun hk => (hl hk).trans (h.log hk), hc ▸ h.nodeId, hc ▸ h.start, hcs ▸ h.old,
    hcs ▸ h.new, hp, hv, hr⟩

/-- **A turn of a stopped node** leaves the log alone and brings no vote. -/
lemma Turn.halted {H : Message → Prop} (ht : Turn E F H C x y) (hrun : x.running = false) :
    y.log = x.log ∧ ∀ v ∈ y.votesReceived, v ∈ x.votesReceived := by
  have hstopped : ¬ x.running = true := by simp [hrun]
  cases ht with
  | tune ht => exact ⟨ht.log, fun v hv => ht.votesReceived ▸ hv⟩
  | observe m hm =>
      rw [Node.handleTermUpdate, if_pos hm]
      exact ⟨rfl, fun v hv => absurd hv List.not_mem_nil⟩
  | follow => exact ⟨rfl, fun v => id⟩
  | forget => exact ⟨rfl, fun v hv => absurd hv List.not_mem_nil⟩
  | grant m hrun' => exact absurd hrun' hstopped
  | refuse => exact ⟨rfl, fun v => id⟩
  | collect m hrun' => exact absurd hrun' hstopped
  | append command hrun' => exact absurd hrun' hstopped
  | send peer _ _ hsend =>
      obtain ⟨m, -, rfl⟩ := sendAppendEntries_cases hsend
      exact ⟨rfl, fun v => id⟩
  | record m hrun' => exact absurd hrun' hstopped
  | advance k hrun' => exact absurd hrun' hstopped
  | accept m rebuild hrun' => exact absurd hrun' hstopped

/-- **Turns of a stopped node.** -/
lemma Halted.turns (h : Halted members mode n st s x)
    (ht : Turns E F (fun _ => False) C x y) (hrun : x.running = false) :
    Halted members mode n st s y ∧ y.running = false := by
  induction ht with
  | refl => exact ⟨h, hrun⟩
  | tail _ hturn ih =>
      obtain ⟨hz, hrunz⟩ := ih
      obtain ⟨hc, hcs, hrun', hr, -⟩ := hturn.kept
      obtain ⟨hl, hv⟩ := hturn.halted hrunz
      refine ⟨hz.frame hc hcs (fun _ => hl) (hturn.pending hz.pending)
        (fun v hvy => hz.votes v (hv v hvy)) fun hlead => ?_, hrun'.trans hrunz⟩
      cases hr with
      | inl hr => exact hz.leader (hr.symm.trans hlead)
      | inr hr => exact absurd (hr.symm.trans hlead) (by simp)

/-- Members without repetitions of which one alone is a majority. -/
lemma eq_singleton_of_majority (hnd : members.Nodup) (h : Majority members {v | v = n}) :
    members = [n] := by
  classical
  obtain ⟨v, hmem, hv, -⟩ := h.inter h
  have hvn : v = n := hv
  have hcount : members.countP (fun v => decide (v ∈ {v | v = n})) ≤ 1 := by
    have hle : members.count n ≤ 1 := List.nodup_iff_count_le_one.mp hnd n
    refine le_trans (List.countP_mono_left fun v _ hv => ?_) hle
    simpa using hv
  have hlen : members.length = 1 := by
    have hpos := List.length_pos_of_mem hmem
    rw [Majority] at h
    have hcongr : members.countP (fun v => decide (v ∈ {v | v = n})) =
        members.countP fun v => @decide (v ∈ {v | v = n}) (Classical.propDecidable _) :=
      List.countP_congr fun v _ => by simp
    omega
  obtain ⟨w, rfl⟩ := List.length_eq_one_iff.mp hlen
  rw [← hvn, List.mem_singleton.mp hmem]

lemma nodup_normalizeMembers (ms : List Str) :
    (ClusterConfiguration.normalizeMembers ms).Nodup :=
  (List.perm_insertionSort _ _).nodup_iff.mpr
    (foldl_collect ms [] List.nodup_nil fun _ hm => absurd hm List.not_mem_nil).1

/-- **A transition of a stopped node.** -/
lemma Halted.transition (h : Halted members mode n st s x) (hrun : x.running = false)
    (hy : x.transition E F = some y) :
    Halted members mode n st s y ∧ y.running = false := by
  rcases transition_cases (C := fun _ _ => True) h.pending (fun _ _ => trivial) hy with
    hturns | ⟨-, -, rfl⟩ | ⟨-, hv, hturns⟩
  · exact h.turns hturns hrun
  · refine ⟨h.frame rfl rfl (fun _ => rfl) (h.pending.frame id rfl rfl rfl) (fun v hv => ?_)
      fun hr => absurd hr (by simp [Node.becomeCandidate]), hrun⟩
    exact (List.mem_singleton.mp hv).trans h.nodeId
  · have hmaj : Majority members {v | v = n} := by
      rw [Node.receivedMajorityVotes, Bool.and_eq_true, h.old, Node.hasQuorum, decide_eq_true_eq,
        Node.majority] at hv
      exact majority_of_countP hv.1 fun v _ hm => h.votes v (of_decide_eq_true hm)
    have hone : members = [n] :=
      eq_singleton_of_majority (h.start ▸ nodup_normalizeMembers _) hmaj
    have hlead : Halted members mode n st s (Node.lead { x with role := .leader }) :=
      h.frame rfl rfl (fun _ => rfl) (h.pending.frame id rfl rfl rfl) h.votes fun _ => hone
    exact hlead.turns hturns hrun

/-! ### The other machines -/

/-- A compaction ends: the log is cut and the snapshot is written. -/
def Node.Compacts (x : Node σ ν) : Prop :=
  x.nextCompaction.map TransitionSpec.action = some .finishCompaction

instance (x : Node σ ν) : Decidable x.Compacts := inferInstanceAs (Decidable (_ = _))

/-- What a move of the compaction machine leaves alone; the log only until a compaction ends. -/
structure Shelved (x y : Node σ ν) : Prop where
  config : y.config = x.config
  configState : y.configState = x.configState
  running : y.running = x.running
  role : y.role = x.role
  term : y.currentTerm = x.currentTerm
  vote : y.votedFor = x.votedFor
  votes : y.votesReceived = x.votesReceived
  outbox : y.outbox = x.outbox
  commit : y.commitIndex = x.commitIndex
  matchIndex : y.matchIndex = x.matchIndex
  dirty : x.persistDirty = true → y.persistDirty = true
  log : ¬ x.Compacts → y.log = x.log ∧ y.persistDirty = x.persistDirty ∧
    y.snapshotLastIncludedIndex = x.snapshotLastIncludedIndex ∧
    y.snapshotLastIncludedTerm = x.snapshotLastIncludedTerm

/-- **A move of the compaction machine** writes no file but the snapshot. -/
lemma shelved_compactionTransition {writes : List (Write ν)}
    (h : x.compactionTransition E = some (y, writes)) :
    Shelved x y ∧ (writes = [] ∨ ∃ file, writes = [.snapshotJson file]) := by
  rw [Node.compactionTransition] at h
  cases hnext : x.nextCompaction with
  | none =>
      simp only [hnext, Option.some.injEq, Prod.mk.injEq] at h
      obtain ⟨rfl, rfl⟩ := h
      exact ⟨⟨rfl, rfl, rfl, rfl, rfl, rfl, rfl, rfl, rfl, rfl, id, fun _ => ⟨rfl, rfl, rfl, rfl⟩⟩,
        Or.inl rfl⟩
  | some t =>
      simp only [hnext] at h
      split at h
      · simp only [Option.some.injEq, Prod.mk.injEq] at h
        obtain ⟨rfl, rfl⟩ := h
        exact ⟨⟨rfl, rfl, rfl, rfl, rfl, rfl, rfl, rfl, rfl, rfl, id,
          fun _ => ⟨rfl, rfl, rfl, rfl⟩⟩, Or.inl rfl⟩
      · simp only [Option.map_eq_some_iff, Prod.mk.injEq] at h
        obtain ⟨z, hz, rfl, rfl⟩ := h
        obtain ⟨term, -, hz⟩ := Option.bind_eq_some_iff.mp hz
        rw [Option.some.injEq] at hz
        subst hz
        exact ⟨⟨rfl, rfl, rfl, rfl, rfl, rfl, rfl, rfl, rfl, rfl, id,
          fun _ => ⟨rfl, rfl, rfl, rfl⟩⟩, Or.inl rfl⟩
      · rename_i hact
        simp only [Option.some.injEq, Prod.mk.injEq] at h
        obtain ⟨rfl, rfl⟩ := h
        have hends : x.Compacts := by
          rw [Node.Compacts, hnext, Option.map_some, hact]
        refine ⟨?_, Or.inr ⟨_, rfl⟩⟩
        rw [Node.finishCompaction, Node.truncateLogPrefixThrough]
        split_ifs <;>
          exact ⟨rfl, rfl, rfl, rfl, rfl, rfl, rfl, rfl, rfl, rfl, fun _ => rfl,
            fun hno => absurd hends hno⟩

/-- The snapshot is not what the protocol reads. -/
lemma stored_snapshot {writes : List (Write ν)}
    (h : writes = [] ∨ ∃ file, writes = [.snapshotJson file]) :
    (disk.writeAll writes).stored = disk.stored ∧
      (DiskOk members mode disk → DiskOk members mode (disk.writeAll writes)) := by
  rcases h with rfl | ⟨file, rfl⟩
  · exact ⟨rfl, id⟩
  · refine ⟨?_, fun hd => ⟨hd.empty, hd.members, hd.good⟩⟩
    show Disk.stored { disk with snapshotJson := some file } = disk.stored
    rw [Disk.stored, Disk.stored, Disk.load, Disk.load]
    cases disk.metaJson <;> rfl

/-- **A move of the compaction machine**, as local moves. -/
lemma reach_compaction {writes : List (Write ν)} (h : At members mode S n st u a x)
    (hno : mode.keepsLogs → ¬ x.Compacts) (hy : x.compactionTransition E = some (y, writes)) :
    Reach members mode S n st u a y := by
  obtain ⟨hs, -⟩ := shelved_compactionTransition hy
  have hok : NodeOk members mode S n y := by
    refine h.ok.frame hs.config hs.configState (fun hr => h.ok.member (hs.role ▸ hr))
      (pending_compactionTransition h.ok.pending hy) fun hk => ?_
    have g := h.ok.good hk
    obtain ⟨-, -, hi, ht⟩ := hs.log (hno hk)
    exact ⟨hi.trans g.snapIndex, ht.trans g.snapTerm, hs.commit ▸ g.commit_nonneg,
      hs.outbox ▸ g.queued⟩
  by_cases hk : mode.keepsLogs
  · obtain ⟨hl, hd, -, -⟩ := hs.log (hno hk)
    refine (h.same ?_ hok).self
    have hmatched : y.matched = x.matched := by
      funext p
      rw [Node.matched, Node.matched, hs.config, hs.matchIndex]
    simp only [Node.view, hs.term, hs.vote, hs.role, hs.votes, hl, hmatched, hs.commit, hs.outbox,
      hd]
  · exact reach_of_logged hk h ⟨hs.term, hs.vote, hs.role, hs.votes, hs.dirty, [],
      hs.outbox.trans (List.append_nil _).symm, fun _ hm => absurd hm List.not_mem_nil⟩ hok

/-- **A move of the compaction machine of a stopped node.** -/
lemma Halted.compaction {writes : List (Write ν)} (h : Halted members mode n st s x)
    (hno : mode.keepsLogs → ¬ x.Compacts) (hy : x.compactionTransition E = some (y, writes)) :
    Halted members mode n st s y := by
  obtain ⟨hs, -⟩ := shelved_compactionTransition hy
  exact h.frame hs.config hs.configState (fun hk => (hs.log (hno hk)).1)
    (pending_compactionTransition h.pending hy) (fun v hv => h.votes v (hs.votes ▸ hv))
    fun hr => h.leader (hs.role ▸ hr)

/-! ### Hosts -/

/-- Between transition and dump a candidacy may be missing in the files. -/
def Host.unsettled (h : Host σ ν) : Bool := decide (h.phase = .acted)

/-- **The host is the server `n`** of an abstract state. -/
structure HostAt (members : List Str) (mode : Mode) (n : Str) (a : State Str ℤ LogEntry)
    (h : Host σ ν) : Prop where
  inv : ModeInv (params members) mode a
  running : h.node.running = true →
    At members mode a.sent n h.disk.stored h.unsettled a h.node
  stopped : h.node.running = false →
    Halted members mode n h.disk.stored (a.srv n) h.node
  nodeId : h.config.nodeId = n
  start : ClusterConfiguration.normalizeMembers h.config.startMembers = members
  disk : DiskOk members mode h.disk

/-- The dump leaves the configuration as it is. -/
def SameConfig (E : Env σ ν) (x : Node σ ν) : Prop :=
  ∀ y ∈ (x.dumpOutputs E).node, y.configState = x.configState

instance (E : Env σ ν) (x : Node σ ν) : Decidable (SameConfig E x) :=
  inferInstanceAs (Decidable (∀ y ∈ _, _))

/-- What is asked of an act of the host. -/
def ActOk (members : List Str) (mode : Mode) (E : Env σ ν) (n : Str) (a : State Str ℤ LogEntry)
    (h : Host σ ν) : HostAct σ → Prop
  | .latch _ ms _ => ∀ m ∈ ms, Hears mode a.sent n m
  | .transition clockMs =>
      ∀ m, Node.Accepts { h.node with clockMs := clockMs } m →
        BatchCovered members mode n a h.node.log m
  | .dump => SameConfig E h.node
  | .compaction => mode.keepsLogs → ¬ h.node.Compacts
  | .membership => h.node.nextMembership = none
  | .request _ => False
  | .stop | .start _ | .crash _ _ | .crashInDump _ _ _ _ => mode ≠ .commits

variable {h h' : Host σ ν} {ms : List Message}

/-- The stable copies are what the files say, whether the node runs or not. -/
lemma HostAt.stable (hat : HostAt members mode n a h) : Stable h.disk.stored (a.srv n) := by
  cases hrun : h.node.running with
  | true => exact (hat.running hrun).stable
  | false => exact (hat.stopped hrun).stable

/-- A host whose node runs. -/
lemma HostAt.of_at (hrun : h.node.running = true)
    (hat : At members mode a.sent n h.disk.stored h.unsettled a h.node)
    (hn : h.config.nodeId = n)
    (hs : ClusterConfiguration.normalizeMembers h.config.startMembers = members)
    (hd : DiskOk members mode h.disk) : HostAt members mode n a h :=
  ⟨hat.inv, fun _ => hat, fun hstop => absurd (hrun.symm.trans hstop) (by simp), hn, hs, hd⟩

/-- A host whose node is stopped. -/
lemma HostAt.of_halted (hinv : ModeInv (params members) mode a) (hstop : h.node.running = false)
    (hat : Halted members mode n h.disk.stored (a.srv n) h.node) (hn : h.config.nodeId = n)
    (hs : ClusterConfiguration.normalizeMembers h.config.startMembers = members)
    (hd : DiskOk members mode h.disk) : HostAt members mode n a h :=
  ⟨hinv, fun hrun => absurd (hrun.symm.trans hstop) (by simp), fun _ => hat, hn, hs, hd⟩

/-- Local moves lead to the host. -/
lemma Reach.hostAt (hr : Reach members mode a.sent n h'.disk.stored h'.unsettled a h'.node)
    (hrun : h'.node.running = true) (hn : h'.config.nodeId = n)
    (hs : ClusterConfiguration.normalizeMembers h'.config.startMembers = members)
    (hd : DiskOk members mode h'.disk) :
    ∃ a', Simulates members mode n [] a a' ∧ HostAt members mode n a' h' := by
  obtain ⟨a', hl, hat⟩ := hr
  refine ⟨a', simulates_of_local hl, HostAt.of_at hrun ?_ hn hs hd⟩
  rw [hl.sent]
  exact hat

/-- The server does not move. -/
lemma Halted.hostAt (hinv : ModeInv (params members) mode a) (hstop : h'.node.running = false)
    (hat : Halted members mode n h'.disk.stored (a.srv n) h'.node) (hn : h'.config.nodeId = n)
    (hs : ClusterConfiguration.normalizeMembers h'.config.startMembers = members)
    (hd : DiskOk members mode h'.disk) :
    ∃ a', Simulates members mode n [] a a' ∧ HostAt members mode n a' h' :=
  ⟨a, simulates_of_local (Local.refl a), HostAt.of_halted hinv hstop hat hn hs hd⟩

/-! ### Acts -/

/-- The clock moves. -/
lemma At.clock (h : At members mode S n st u a x) (clockMs : ℤ) :
    At members mode S n st u a { x with clockMs := clockMs } :=
  h.same rfl (h.ok.frame rfl rfl h.ok.member (h.ok.pending.frame id rfl rfl rfl) fun hk =>
    ⟨(h.ok.good hk).snapIndex, (h.ok.good hk).snapTerm, (h.ok.good hk).commit_nonneg,
      (h.ok.good hk).queued⟩)

lemma Halted.clock (h : Halted members mode n st s x) (clockMs : ℤ) :
    Halted members mode n st s { x with clockMs := clockMs } :=
  h.frame rfl rfl (fun _ => rfl) (h.pending.frame id rfl rfl rfl) h.votes h.leader

/-- A transition neither stops nor starts the node. -/
lemma running_transition {H : Message → Prop} (hp : Pending H x)
    (hy : x.transition E F = some y) : y.running = x.running := by
  rcases transition_cases (C := fun _ _ => True) hp (fun _ _ => trivial) hy with
    hturns | ⟨-, -, rfl⟩ | ⟨-, -, hturns⟩
  · exact hturns.running
  · rfl
  · exact hturns.running

/-- **A latch.** -/
lemma HostAt.latch (E : Env σ ν) (hat : HostAt members mode n a h) (hphase : h.phase = .idle) (clockMs : ℤ)
    {cs : List Command} (hms : ∀ m ∈ ms, Hears mode a.sent n m)
    (hy : Node.latchInputs { h.node with clockMs := clockMs } ms cs = some y) :
    ∃ a', Simulates members mode n [] a a' ∧
      HostAt members mode n a' { h with node := y, phase := .latched } := by
  cases hrun : h.node.running with
  | true =>
      have hturns : Turns E h.disk (Hears mode a.sent n) (BatchCovered members mode n a)
          { h.node with clockMs := clockMs } y := turns_latchInputs hms hy
      have hreach := reach_turns ((hat.running hrun).clock clockMs) hturns fun _ _ => id
      have hu : h.unsettled = false := by simp [Host.unsettled, hphase]
      rw [hu] at hreach
      exact Reach.hostAt hreach (hturns.running.trans hrun) hat.nodeId hat.start hat.disk
  | false =>
      rw [Node.latchInputs, if_neg (by simp [hrun]), Option.some.injEq] at hy
      subst hy
      exact Halted.hostAt hat.inv hrun ((hat.stopped hrun).clock clockMs) hat.nodeId hat.start
        hat.disk

/-- **A transition.** -/
lemma HostAt.transition (hel : mode.elects) (hat : HostAt members mode n a h)
    (hphase : h.phase = .latched) (clockMs : ℤ)
    (hok : ActOk members mode E n a h (.transition clockMs))
    (hy : Node.transition E h.disk { h.node with clockMs := clockMs } = some y) :
    ∃ a', Simulates members mode n [] a a' ∧
      HostAt members mode n a' { h with node := y, phase := .acted } := by
  cases hrun : h.node.running with
  | true =>
      have hnode := (hat.running hrun).clock clockMs
      have hu : h.unsettled = false := by simp [Host.unsettled, hphase]
      rw [hu] at hnode
      exact Reach.hostAt (reach_transition hel hnode hok hy)
        ((running_transition hnode.ok.pending hy).trans hrun) hat.nodeId hat.start hat.disk
  | false =>
      obtain ⟨hhalt, hstop⟩ := ((hat.stopped hrun).clock clockMs).transition hrun hy
      exact Halted.hostAt hat.inv hstop hhalt hat.nodeId hat.start hat.disk

/-- The files a dump leaves, with the node before the apply loop. -/
lemma reach_dumped (h : At members mode S n disk.stored u a x) (hd : DiskOk members mode disk) :
    Reach members mode S n (disk.writeAll (if x.persistDirty then x.save else [])).stored false a
      x.saved ∧ DiskOk members mode (disk.writeAll (if x.persistDirty then x.save else [])) := by
  cases hdirty : x.persistDirty with
  | false => exact ⟨h.settled hdirty, hd⟩
  | true =>
      have hall : x.save.take 2 = x.save := rfl
      have hstored : (disk.writeAll x.save).stored = x.toStore := by
        rcases stored_save (x := x) hd.empty 2 with ⟨-, h0⟩ | ⟨-, h1⟩ | ⟨h2, -⟩
        · omega
        · omega
        · exact h2
      have hdisk := hd.save h.ok 2
      rw [hall] at hdisk
      rw [if_pos rfl, hstored]
      exact ⟨h.saved, hdisk⟩

/-- **A dump** under one configuration. -/
lemma HostAt.dump (hat : HostAt members mode n a h) (hok : SameConfig E h.node)
    (hy : (h.node.dumpOutputs E).node = some y) :
    ∃ a', Simulates members mode n (h.node.dumpOutputs E).sends a a' ∧
      HostAt members mode n a'
        { h with
          node := y, disk := h.disk.writeAll (h.node.dumpOutputs E).writes, phase := .idle } := by
  rcases dumpOutputs_cases hy with ⟨hstop, rfl, hwrites, hsends⟩ |
    ⟨hrun, z, hz, rfl, hsends, hwrites⟩
  · rw [hwrites, hsends]
    exact Halted.hostAt hat.inv hstop (hat.stopped hstop) hat.nodeId hat.start hat.disk
  · obtain ⟨hkept, hrec⟩ := applyAll_cases hz
    have hmark : Marked h.node.saved z := by
      cases hrec with
      | inl hmark => exact hmark
      | inr hlt =>
          have hsame := congrArg ClusterConfiguration.index (hok _ hy)
          exact absurd hsame (ne_of_gt hlt)
    have hout : z.outbox = h.node.outbox := congrArg Core.outbox hmark.core
    have hrunz : z.running = true := (congrArg Core.running hmark.core).trans hrun
    rw [hwrites, hsends, hout]
    obtain ⟨⟨a1, hl1, h1⟩, hdisk⟩ := reach_dumped (hat.running hrun) hat.disk
    rw [← hl1.sent] at h1
    obtain ⟨a2, hsim2, h2⟩ := h1.sends rfl (List.append_nil h.node.saved.outbox).symm
    -- applying is bookkeeping
    have htune : Turn E h.disk (Hears mode a2.sent n) (fun _ _ => False)
        { h.node.saved with outbox := [] } { z with outbox := [] } :=
      Turn.tune ⟨congrArg (fun c : Core => { c with outbox := [] }) hmark.core, hmark.dirty,
        hmark.appends ▸ Queued.refl, hmark.requests ▸ Queued.refl, hmark.votes ▸ Queued.refl⟩
    obtain ⟨a3, hl3, h3⟩ := reach_turn h2 htune fun _ _ => False.elim
    rw [← hl3.sent] at h3
    exact ⟨a3, (Simulates.before hl1 hsim2).after hl3,
      HostAt.of_at hrunz h3 hat.nodeId hat.start hdisk⟩

/-- **A stop.** -/
lemma HostAt.stop (hat : HostAt members mode n a h) :
    ∃ a', Simulates members mode n [] a a' ∧
      HostAt members mode n a' { h with node := h.node.stop } := by
  have hpending : Pending (fun _ => False) h.node.stop := Pending.nil rfl rfl rfl
  have hhalt : Halted members mode n h.disk.stored (a.srv n) h.node.stop := by
    cases hrun : h.node.running with
    | true =>
        have hnode := hat.running hrun
        exact ⟨hnode.stable, fun _ => by rw [hnode.srv]; rfl, hnode.ok.nodeId, hnode.ok.start,
          hnode.ok.old, hnode.ok.new, hpending, fun v hv => absurd hv List.not_mem_nil,
          fun hr => absurd hr (by simp [Node.stop])⟩
    | false =>
        exact (hat.stopped hrun).frame rfl rfl (fun _ => rfl) hpending
          (fun v hv => absurd hv List.not_mem_nil) fun hr => absurd hr (by simp [Node.stop])
  exact Halted.hostAt hat.inv rfl hhalt hat.nodeId hat.start hat.disk

/-- **A start.** -/
lemma HostAt.restart (hm : mode ≠ .commits) (hat : HostAt members mode n a h) (clockMs : ℤ) :
    ∃ a', Simulates members mode n [] a a' ∧ HostAt members mode n a'
      { h with node := Node.start E h.disk { h.node with clockMs := clockMs } } := by
  have hgiven : h.node.config.nodeId = n ∧
      ClusterConfiguration.normalizeMembers h.node.config.startMembers = members := by
    cases hrun : h.node.running with
    | true => exact ⟨(hat.running hrun).ok.nodeId, (hat.running hrun).ok.start⟩
    | false => exact ⟨(hat.stopped hrun).nodeId, (hat.stopped hrun).start⟩
  have hloaded : Loaded h.disk h.node.config
      (Node.start E h.disk { h.node with clockMs := clockMs }) :=
    loaded_start { h.node with clockMs := clockMs }
  have hreach := reach_loaded (S := a.sent) hm hat.inv rfl hat.stable hloaded
    (hloaded.nodeOk hgiven.1 hgiven.2 hat.disk) h.unsettled
  exact Reach.hostAt hreach hloaded.running hat.nodeId hat.start hat.disk

/-- The node is lost after it sent some messages. -/
lemma hostAt_lost {config : NodeConfig} (hm : mode ≠ .commits)
    (hsim : Simulates members mode n ms a a') (hinv : ModeInv (params members) mode a')
    (hst : Stable disk.stored (a'.srv n)) (hn : config.nodeId = n)
    (hs : ClusterConfiguration.normalizeMembers config.startMembers = members)
    (hd : DiskOk members mode disk) (user : σ) (clockMs : ℤ) :
    ∃ a'', Simulates members mode n ms a a'' ∧ HostAt members mode n a''
      { config := config, node := Node.init E config disk user clockMs, disk := disk
        phase := .idle } := by
  have hloaded : Loaded disk config (Node.init E config disk user clockMs) :=
    loaded_init config user clockMs
  obtain ⟨a'', hl, hat⟩ := reach_loaded (S := a'.sent) hm hinv rfl hst hloaded
    (hloaded.nodeOk hn hs hd) false
  refine ⟨a'', hsim.after hl, HostAt.of_at hloaded.running ?_ hn hs hd⟩
  rw [hl.sent]
  exact hat

/-- A dump sends the outbox or nothing. -/
lemma sends_dumpOutputs (hrun : x.running = true) :
    (x.dumpOutputs E).sends = x.outbox ∨ (x.dumpOutputs E).sends = [] := by
  rw [dumpOutputs_running hrun]
  show ((Node.applyAll E x.rounds x.saved).2.map Node.outbox).getD [] = x.outbox ∨
    ((Node.applyAll E x.rounds x.saved).2.map Node.outbox).getD [] = []
  cases hz : (Node.applyAll E x.rounds x.saved).2 with
  | none => exact Or.inr rfl
  | some z => exact (applyAll_cases hz).1.outbox

/-- **A crash inside the dump**, after some replacements and, once all files are written, some
sends. -/
lemma HostAt.crashInDump (hm : mode ≠ .commits) (hat : HostAt members mode n a h) (i j : ℕ)
    (user : σ) (clockMs : ℤ) :
    ∃ a', Simulates members mode n (h.lateSends E i j) a a' ∧ HostAt members mode n a'
      { h with
        node := Node.init E h.config (h.disk.writeAll ((h.node.dumpOutputs E).writes.take i)) user
          clockMs
        disk := h.disk.writeAll ((h.node.dumpOutputs E).writes.take i), phase := .idle } := by
  have hstay : Simulates members mode n [] a a := simulates_of_local (Local.refl a)
  cases hrun : h.node.running with
  | false =>
      rw [Host.lateSends, dumpOutputs_stopped hrun]
      simp only [List.take_nil, ite_self]
      exact hostAt_lost hm hstay hat.inv hat.stable hat.nodeId hat.start hat.disk user clockMs
  | true =>
      have hnode := hat.running hrun
      obtain ⟨rest, hrest⟩ : ∃ rest, h.node.saved.outbox =
          (h.node.dumpOutputs E).sends.take j ++ rest := by
        cases sends_dumpOutputs (E := E) hrun with
        | inl hs => exact ⟨h.node.outbox.drop j, by rw [hs, List.take_append_drop]; rfl⟩
        | inr hs => exact ⟨h.node.saved.outbox, by rw [hs, List.take_nil, List.nil_append]⟩
      have hwrites : (h.node.dumpOutputs E).writes =
          if h.node.persistDirty then h.node.save else [] := by rw [dumpOutputs_running hrun]
      rw [Host.lateSends]
      split
      · -- every file is written: some messages may have left
        rename_i hall
        rw [List.take_of_length_le hall, hwrites]
        obtain ⟨⟨a1, hl1, h1⟩, hdisk⟩ := reach_dumped hnode hat.disk
        rw [← hl1.sent] at h1
        obtain ⟨a2, hsim2, h2⟩ := h1.sends rfl hrest
        exact hostAt_lost hm (Simulates.before hl1 hsim2) h2.inv h2.stable hat.nodeId hat.start
          hdisk user clockMs
      · rename_i hsome
        have hdirty : (h.node.dumpOutputs E).writes = h.node.save := by
          cases hd : h.node.persistDirty with
          | true => rw [hwrites, hd, if_pos rfl]
          | false =>
              rw [hwrites, hd, if_neg (by simp)] at hsome
              exact absurd (Nat.zero_le i) hsome
        rw [hdirty] at hsome ⊢
        have hdisk := hat.disk.save hnode.ok i
        rcases stored_save (x := h.node) hat.disk.empty i with ⟨hst, -⟩ | ⟨hst, -⟩ | ⟨-, hi⟩
        · exact hostAt_lost hm hstay hat.inv (hst.symm ▸ hat.stable) hat.nodeId hat.start hdisk user
            clockMs
        · -- `meta.json` is the new one
          obtain ⟨a1, hl1, h1⟩ := hnode.savedMeta
          exact hostAt_lost hm (simulates_of_local hl1) (hl1.inv hat.inv) (hst.symm ▸ h1) hat.nodeId
            hat.start hdisk user clockMs
        · exact absurd hi (by simpa [Node.save] using hsome)

/-- **A move of the compaction machine.** -/
lemma HostAt.compaction {writes : List (Write ν)} (hat : HostAt members mode n a h)
    (hno : mode.keepsLogs → ¬ h.node.Compacts)
    (hy : h.node.compactionTransition E = some (y, writes)) :
    ∃ a', Simulates members mode n [] a a' ∧
      HostAt members mode n a' { h with node := y, disk := h.disk.writeAll writes } := by
  obtain ⟨hshelved, hwrites⟩ := shelved_compactionTransition hy
  have hsnapshot : (h.disk.writeAll writes).stored = h.disk.stored ∧
      (DiskOk members mode h.disk → DiskOk members mode (h.disk.writeAll writes)) :=
    stored_snapshot hwrites
  obtain ⟨hst, hdisk⟩ := hsnapshot
  cases hrun : h.node.running with
  | true =>
      have hreach := reach_compaction (hat.running hrun) hno hy
      rw [← hst] at hreach
      exact Reach.hostAt hreach (hshelved.running.trans hrun) hat.nodeId hat.start (hdisk hat.disk)
  | false =>
      have hhalt := (hat.stopped hrun).compaction hno hy
      rw [← hst] at hhalt
      exact Halted.hostAt hat.inv (hshelved.running.trans hrun) hhalt hat.nodeId hat.start
        (hdisk hat.disk)

/-- **An act of a host is a sequence of steps of the protocol.** -/
theorem hostAt_exec (hel : mode.elects) (hat : HostAt members mode n a h) {act : HostAct σ}
    (hexec : h.exec E act = some (h', ms)) (hok : ActOk members mode E n a h act) :
    ∃ a', Simulates members mode n ms a a' ∧ HostAt members mode n a' h' := by
  rw [Host.exec, Option.ite_none_right_eq_some] at hexec
  obtain ⟨henabled, hexec⟩ := hexec
  cases act with
  | latch clockMs ms cs =>
      obtain ⟨y, hy, heq⟩ := Option.map_eq_some_iff.mp hexec
      simp only [Prod.mk.injEq] at heq
      obtain ⟨rfl, rfl⟩ := heq
      exact HostAt.latch E hat (of_decide_eq_true henabled) clockMs hok hy
  | transition clockMs =>
      obtain ⟨y, hy, heq⟩ := Option.map_eq_some_iff.mp hexec
      simp only [Prod.mk.injEq] at heq
      obtain ⟨rfl, rfl⟩ := heq
      exact hat.transition hel (of_decide_eq_true henabled) clockMs hok hy
  | dump =>
      obtain ⟨y, hy, heq⟩ := Option.map_eq_some_iff.mp hexec
      simp only [Prod.mk.injEq] at heq
      obtain ⟨rfl, rfl⟩ := heq
      exact hat.dump hok hy
  | compaction =>
      obtain ⟨⟨y, writes⟩, hy, heq⟩ := Option.map_eq_some_iff.mp hexec
      simp only [Prod.mk.injEq] at heq
      obtain ⟨rfl, rfl⟩ := heq
      exact hat.compaction hok hy
  | membership =>
      obtain ⟨y, hy, heq⟩ := Option.map_eq_some_iff.mp hexec
      simp only [Prod.mk.injEq] at heq
      obtain ⟨rfl, rfl⟩ := heq
      have hnext : h.node.nextMembership = none := hok
      rw [Node.membershipTransition, hnext, Option.some.injEq] at hy
      subst hy
      exact ⟨a, simulates_of_local (Local.refl a), hat⟩
  | request members => exact absurd hok id
  | stop =>
      simp only [Host.run, Option.some.injEq, Prod.mk.injEq] at hexec
      obtain ⟨rfl, rfl⟩ := hexec
      exact hat.stop
  | start clockMs =>
      simp only [Host.run, Option.some.injEq, Prod.mk.injEq] at hexec
      obtain ⟨rfl, rfl⟩ := hexec
      exact hat.restart hok clockMs
  | crash user clockMs =>
      simp only [Host.run, Option.some.injEq, Prod.mk.injEq] at hexec
      obtain ⟨rfl, rfl⟩ := hexec
      exact hostAt_lost hok (simulates_of_local (Local.refl a)) hat.inv hat.stable hat.nodeId
        hat.start hat.disk user clockMs
  | crashInDump i j user clockMs =>
      simp only [Host.run, Option.some.injEq, Prod.mk.injEq] at hexec
      obtain ⟨rfl, rfl⟩ := hexec
      exact hat.crashInDump hok i j user clockMs

end RaftRx.Python
