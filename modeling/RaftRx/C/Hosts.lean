import RaftRx.C.Dump

/-!
Hosts of C nodes as servers of the protocol.

* `load_eq`, `nodeOk_init`, `nodeOk_start`: what a node is after it was loaded from its files;
* `HostAt`: the host is the server of an abstract state;
* `ActOk`: what is asked of an act in each mode;
* `hostAt_exec`: an act of a host that meets `ActOk` is a sequence of steps of the protocol.
-/

namespace RaftRx.C

open Protocol

variable {σ : Type*} {A : Application σ} {members : List CString} {mode : Mode}
  {S : Set (Msg CString ℤ LogEntry)} {n : CString} {st : Stored} {u : Bool}
  {a a' : State CString ℤ LogEntry} {x x' : Node σ} {m : Message} {disk : Disk}

/-! ### Loading -/

/-- A loaded node in one record. -/
lemma load_eq (y : Node σ) (disk : Disk) : ∃ (user : σ) (applied : ℤ) (buf : List UInt8)
    (commit : ℤ), y.load A disk =
      { y with
        currentTerm := disk.stored.term
        votedFor := disk.stored.vote
        log := readLog (readMeta disk.metaText).snapshotLastIncludedIndex disk.logText
        snapshotLastIncludedIndex := (readMeta disk.metaText).snapshotLastIncludedIndex
        snapshotLastIncludedTerm := (readMeta disk.metaText).snapshotLastIncludedTerm
        commitIndex := commit, snapshotBuf := buf
        compactionThreshold := (readMeta disk.metaText).compactionThreshold
        configState := (readMeta disk.metaText).configState
        user := user, lastApplied := applied } := by
  rw [Node.load]
  dsimp only
  split <;> exact ⟨_, _, _, _, rfl⟩

/-- The configuration a node starts with. -/
def Node.startConfig (y : Node σ) : ClusterConfiguration :=
  if y.needsFallback then y.fallbackConfig else y.configState

/-- The ids of a fallback configuration are well formed. -/
lemma membersOk_fallbackConfig {y : Node σ} (h : ConfigOk mode members y.config) :
    MembersOk y.fallbackConfig.oldMembers ∧ y.fallbackConfig.newMembers = [] := by
  rw [Node.fallbackConfig]
  split
  · exact ⟨membersOk_normalizeMembers h.initial, rfl⟩
  · rename_i hi
    obtain ⟨hn, hp⟩ := h.alone (not_not.mp hi)
    refine ⟨membersOk_normalizeMembers fun m hm => Or.inr ?_, rfl⟩
    obtain ⟨id, hid, rfl⟩ := List.mem_map.mp hm
    have hok : IdOk id := by
      rcases List.mem_cons.mp (List.mem_of_mem_take hid) with rfl | hid
      · exact hn
      · exact hp id hid
    rw [strncpy_self hok.length_lt]
    exact hok

/-- **The configuration after a load** is well formed and, when elections are studied, the common
one. -/
lemma startConfig_ok {y : Node σ} (h : ConfigOk mode members y.config)
    (hd : DiskOk members mode disk)
    (hc : y.configState = (readMeta disk.metaText).configState)
    (hlog : y.log = readLog (readMeta disk.metaText).snapshotLastIncludedIndex disk.logText) :
    MembersOk y.startConfig.oldMembers ∧ MembersOk y.startConfig.newMembers ∧
      (mode.elects → y.startConfig.oldMembers = members ∧ y.startConfig.newMembers = []) := by
  obtain ⟨hold, hnew⟩ := membersOk_fallbackConfig h
  have hcommon : mode.elects → y.fallbackConfig.oldMembers = members := by
    intro hel
    obtain ⟨hne, heq⟩ := h.common hel
    rw [Node.fallbackConfig, if_pos hne]
    exact heq
  rw [Node.startConfig]
  split
  · refine ⟨hold, by rw [hnew]; exact ⟨Nat.zero_le _, by simp⟩, fun hel => ⟨hcommon hel, hnew⟩⟩
  · rename_i hneeds
    rw [hc]
    refine ⟨hd.old, hd.new, fun hel => ?_⟩
    rcases hd.stable hel with ⟨hm, hl⟩ | hst
    · -- no files: the fallback would have been taken
      refine absurd ?_ hneeds
      rw [Node.needsFallback, hc, hm, hlog, hm, hl, h.learner]
      rfl
    · exact hst

lemma fallback_eq (y : Node σ) :
    (if y.needsFallback then { y with configState := y.fallbackConfig } else y)
      = { y with configState := y.startConfig } := by
  rw [Node.startConfig]
  split <;> rfl

/-- What `raft_node_init` starts from: the loaded node with a threshold. -/
def Node.loaded (A : Application σ) (config : NodeConfig) (disk : Disk) (user : σ) (clockMs : ℤ) :
    Node σ :=
  let node := (Node.zero config user clockMs).load A disk
  if node.compactionThreshold ≤ 0 then { node with compactionThreshold := maxLog } else node

lemma loaded_eq (config : NodeConfig) (disk : Disk) (user : σ) (clockMs : ℤ) :
    ∃ (user' : σ) (applied : ℤ) (buf : List UInt8) (commit threshold : ℤ),
      Node.loaded A config disk user clockMs =
        { Node.zero config user' clockMs with
          currentTerm := disk.stored.term
          votedFor := disk.stored.vote
          log := readLog (readMeta disk.metaText).snapshotLastIncludedIndex disk.logText
          snapshotLastIncludedIndex := (readMeta disk.metaText).snapshotLastIncludedIndex
          snapshotLastIncludedTerm := (readMeta disk.metaText).snapshotLastIncludedTerm
          commitIndex := commit, snapshotBuf := buf, compactionThreshold := threshold
          configState := (readMeta disk.metaText).configState, lastApplied := applied } := by
  obtain ⟨v, la, buf, c, hload⟩ := load_eq (A := A) (Node.zero config user clockMs) disk
  simp only [Node.loaded, hload]
  split <;> exact ⟨v, la, buf, c, _, rfl⟩

/-- A node that was initialised, in one record. -/
lemma init_eq {config : NodeConfig} (hl : config.learner = false) (disk : Disk) (user : σ)
    (clockMs : ℤ) : ∃ (s : MembershipState) (d e : ℤ), Node.init A config disk user clockMs =
      { Node.refreshPeers
          { Node.loaded A config disk user clockMs with
            configState := (Node.loaded A config disk user clockMs).startConfig
            membershipState := s } with
        electionDeadlineMs := d, heartbeatDeadlineMs := e } := by
  rw [Node.init]
  simp only [hl, Bool.false_eq_true, if_false, fallback_eq]
  exact ⟨_, _, _, rfl⟩

/-- The peers of well-formed members are well formed. -/
lemma idOk_of_mem_refreshPeers (hold : MembersOk x.configState.oldMembers)
    (hnew : MembersOk x.configState.newMembers) {p : CString}
    (hp : p ∈ x.refreshPeers.config.peers) : IdOk p := by
  obtain ⟨m, hm, rfl⟩ := mem_refreshPeers hp
  have hid : IdOk m := by
    rcases List.mem_append.mp hm with hm | hm
    · exact hold.id m hm
    · exact hnew.id m hm
  rw [strncpy_self hid.length_lt]
  exact hid

/-- **A node that was initialised** from files that are in order is in order. -/
lemma nodeOk_init {config : NodeConfig} (hn : config.nodeId = n)
    (hfits : n.length < maxId) (hc : ConfigOk mode members config) (hd : DiskOk members mode disk)
    (user : σ) (clockMs : ℤ)
    (hgood : mode.keepsLogs → Good (Node.init A config disk user clockMs)) :
    NodeOk members mode S n (Node.init A config disk user clockMs) ∧
      (Node.init A config disk user clockMs).currentTerm = disk.stored.term ∧
      (Node.init A config disk user clockMs).votedFor = disk.stored.vote ∧
      (Node.init A config disk user clockMs).state = .follower ∧
      (Node.init A config disk user clockMs).outbox = [] := by
  obtain ⟨s, d, e, hinit⟩ := init_eq (A := A) hc.learner disk user clockMs
  obtain ⟨v, la, buf, c, t, hloaded⟩ := loaded_eq (A := A) config disk user clockMs
  obtain ⟨hold, hnew, hstable⟩ := startConfig_ok (y := Node.loaded A config disk user clockMs)
    (by rw [hloaded]; exact hc) hd (by rw [hloaded]) (by rw [hloaded])
  rw [hinit] at hgood ⊢
  generalize hconf : (Node.loaded A config disk user clockMs).startConfig = conf at *
  rw [hloaded] at hgood ⊢
  refine ⟨?_, rfl, rfl, rfl, rfl⟩
  exact
    { nodeId := hn
      fits := hfits
      config := ⟨hc.learner, hc.initial, fun hi => ⟨(hc.alone hi).1, fun p hp =>
        idOk_of_mem_refreshPeers hold hnew hp⟩, hc.common⟩
      vote := hd.vote
      old := hold
      new := hnew
      stable := hstable
      appends := fun m hm => absurd hm List.not_mem_nil
      requests := fun m hm => absurd hm List.not_mem_nil
      responses := fun m hm => absurd hm List.not_mem_nil
      sources := fun m hm => absurd hm List.not_mem_nil
      good := hgood }

/-- A node on an empty data directory. -/
lemma loaded_empty (config : NodeConfig) (user : σ) (clockMs : ℤ) :
    ∃ user' : σ, Node.loaded A config Disk.empty user clockMs = Node.zero config user' clockMs := by
  cases hr : A.reload with
  | none =>
      refine ⟨user, ?_⟩
      simp only [Node.loaded, Node.load, hr]
      rfl
  | some reload =>
      refine ⟨reload user, ?_⟩
      simp only [Node.loaded, Node.load, hr]
      rfl

lemma good_boot {config : NodeConfig} (hl : config.learner = false) (user : σ) (clockMs : ℤ) :
    Good (Node.init A config Disk.empty user clockMs) := by
  obtain ⟨s, d, e, hinit⟩ := init_eq (A := A) hl Disk.empty user clockMs
  obtain ⟨v, hloaded⟩ := loaded_empty (A := A) config user clockMs
  rw [hinit, hloaded]
  refine ⟨rfl, rfl, le_rfl, le_rfl, Nat.zero_le _, fun m hm => absurd hm List.not_mem_nil, ?_⟩
  intro hlead
  exact absurd hlead (by simp [Node.refreshPeers, Node.zero])

/-- **A node that was started** from files that are in order is in order. -/
lemma nodeOk_start (hk : ¬ mode.keepsLogs) (h : NodeOk members mode S n x)
    (hd : DiskOk members mode disk) :
    NodeOk members mode S n (x.start A disk) ∧
      (x.start A disk).currentTerm = disk.stored.term ∧
      (x.start A disk).votedFor = disk.stored.vote ∧ (x.start A disk).state = .follower ∧
      (x.start A disk).outbox = x.outbox := by
  obtain ⟨v, la, buf, c, hload⟩ := load_eq (A := A) x disk
  obtain ⟨hold, hnew, hstable⟩ := startConfig_ok (y := x.load A disk)
    (by rw [hload]; exact h.config) hd (by rw [hload]) (by rw [hload])
  rw [Node.start]
  rw [Node.startConfig] at hold hnew hstable
  split
  · rename_i hneeds
    rw [if_pos hneeds] at hold hnew hstable
    generalize (x.load A disk).fallbackConfig = conf at *
    rw [hload]
    refine ⟨?_, rfl, rfl, rfl, rfl⟩
    exact
      { nodeId := h.nodeId
        fits := h.fits
        config := ⟨h.config.learner, h.config.initial, fun hi => ⟨(h.config.alone hi).1,
          fun p hp => idOk_of_mem_refreshPeers hold hnew hp⟩, h.config.common⟩
        vote := hd.vote
        old := hold
        new := hnew
        stable := hstable
        appends := h.appends
        requests := h.requests
        responses := h.responses
        sources := h.sources
        good := fun h => absurd h hk }
  · rename_i hneeds
    rw [if_neg hneeds, hload] at hold hnew hstable
    rw [hload]
    refine ⟨?_, rfl, rfl, rfl, rfl⟩
    exact
      { nodeId := h.nodeId
        fits := h.fits
        config := h.config
        vote := hd.vote
        old := hold
        new := hnew
        stable := hstable
        appends := h.appends
        requests := h.requests
        responses := h.responses
        sources := h.sources
        good := fun h => absurd h hk }

/-! ### Hosts -/

/-- The host's own fields are in order. -/
structure HostOk (members : List CString) (mode : Mode) (n : CString) (h : Host σ) : Prop where
  nodeId : h.config.nodeId = n
  config : ConfigOk mode members h.config
  idle : h.phase = .idle → h.node.outbox = []
  disk : DiskOk members mode h.disk

/-- Between transition and dump a candidacy may be missing in the files. -/
def Host.unsettled (h : Host σ) : Bool := decide (h.phase = .acted) && h.node.running

/-- **The host is the server `n`** of an abstract state. -/
structure HostAt (members : List CString) (mode : Mode) (n : CString)
    (a : State CString ℤ LogEntry) (h : Host σ) : Prop where
  node : At members mode a.sent n h.disk.stored h.unsettled a h.node
  ok : HostOk members mode n h

/-- What is asked of an act of the host. -/
def ActOk (members : List CString) (mode : Mode) (A : Application σ) (n : CString)
    (a : State CString ℤ LogEntry) (h : Host σ) : HostAct σ → Prop
  | .latch _ _ ms _ => AllHeard mode a.sent n ms ∧ (mode.elects → LatchOk h.node ms)
  | .transition clockMs =>
      (mode.elects → TransitionOk { h.node with clockMs := clockMs }) ∧
        NextCovered members mode n a { h.node with clockMs := clockMs }
  | .dump => DumpOk mode A h.node
  | .stop => True
  | .request _ => True
  | .start _ => ¬ mode.keepsLogs
  | .crash _ _ => ¬ mode.keepsLogs
  | .crashInDump _ _ _ _ => ¬ mode.keepsLogs ∧ DumpOk mode A h.node
  | .resetForJoin _ _ | .crashInReset _ _ _ => False

lemma handleVoteRequest_running (x : Node σ) (m : Message) :
    (x.handleVoteRequest m).running = x.running := by
  have hq : ∀ (y : Node σ) (m' : Message), (y.queueMessage m').running = y.running := by
    intro y m'
    rw [Node.queueMessage]
    split <;> rfl
  simp only [Node.handleVoteRequest, hq]
  split <;> exact handleTermUpdate_running x m

lemma transition_running (x : Node σ) : (x.transition A).running = x.running := by
  have hcase := transition_cases (A := A) x
  generalize x.transition A = y at hcase ⊢
  cases hcase with
  | none => rfl
  | campaign _ =>
      obtain ⟨d, ms, heq, -⟩ := becomeCandidate_eq { x with state := .candidate }
      rw [heq]
  | giveUp _ => rfl
  | win _ _ => exact (still_broadcastAppendEntries x.lead).running
  | append m rest _ _ =>
      exact (still_handleAppendEntries _ m).running.trans (handleTermUpdate_running _ m)
  | request m rest _ => exact handleVoteRequest_running _ m
  | requestAsCandidate m rest _ _ => exact handleVoteRequest_running _ m
  | vote m rest _ _ =>
      rw [Node.handleVoteResponse]
      split
      · exact handleTermUpdate_running _ m
      · split
        · rw [Node.recordVote]
          split
          · exact handleTermUpdate_running _ m
          · split <;> exact handleTermUpdate_running _ m
        · exact handleTermUpdate_running _ m
  | ignoreVote => rfl
  | ignoreVoteRequest => rfl
  | heartbeat _ => exact (still_broadcastAppendEntries x).running

/-- A change that only the host sees. -/
lemma At.clock (h : At members mode S n st u a x) (c : ℤ) (s : ℤ → LogEntry) :
    At members mode S n st u a { x with clockMs := c, slots := s } :=
  ⟨h.inv, h.sent, h.srv, h.ok.frame rfl rfl (Or.inl rfl) (fun _ => id) (fun _ => id)
    (fun _ => id) (fun _ => Or.inl) fun hk => (h.ok.good hk).frame rfl rfl rfl rfl rfl
      (fun _ => Or.inl) fun hl => ⟨hl, rfl, rfl, rfl⟩⟩

/-- Local moves lead to the host. -/
lemma Reach.hostAt {h' : Host σ} {es : List (ℤ × LogEntry)} {ms : List Message}
    (hr : Reach members mode a.sent n h'.disk.stored h'.unsettled a h'.node)
    (hok : HostOk members mode n h') (hms : ms = []) (hes : es = []) :
    ∃ a', Simulates members mode n ms es a a' ∧ HostAt members mode n a' h' := by
  obtain ⟨a', hl, hat⟩ := hr
  subst hms hes
  refine ⟨a', simulates_of_local hl, ⟨?_, hok⟩⟩
  rw [hl.sent]
  exact hat

variable {h h' : Host σ} {effect : Effect}

/-! ### Acts -/

/-- **A latch.** -/
lemma HostAt.latch (hat : HostAt members mode n a h) (hlogs : mode ≠ .logs)
    (hphase : h.phase = .idle) (c : ℤ) (s : ℤ → LogEntry) {ms : List Message} (cs : List Command)
    (hok : ActOk members mode A n a h (.latch c s ms cs)) :
    ∃ a', Simulates members mode n [] [] a a' ∧ HostAt members mode n a'
      { h with
        node := Node.latchInputs { h.node with clockMs := c, slots := s } ms cs
        phase := .latched } := by
  have hu : h.unsettled = false := by simp [Host.unsettled, hphase]
  have hreach := reach_latchInputs (hat.node.clock c s) hlogs cs hok.1 hok.2
  rw [hu] at hreach
  exact Reach.hostAt hreach ⟨hat.ok.nodeId, hat.ok.config, fun hi => by simp at hi, hat.ok.disk⟩
    rfl rfl

/-- **A transition.** -/
lemma HostAt.transition (hat : HostAt members mode n a h) (hphase : h.phase = .latched) (c : ℤ)
    (hok : ActOk members mode A n a h (.transition c)) :
    ∃ a', Simulates members mode n [] [] a a' ∧ HostAt members mode n a'
      { h with node := Node.transition A { h.node with clockMs := c }, phase := .acted } := by
  have hu : h.unsettled = false := by simp [Host.unsettled, hphase]
  have hnode := hat.node
  rw [hu] at hnode
  refine Reach.hostAt ?_ ⟨hat.ok.nodeId, hat.ok.config, fun hi => by simp at hi, hat.ok.disk⟩
    rfl rfl
  have hu' : Host.unsettled
      { h with node := Node.transition A { h.node with clockMs := c }, phase := .acted }
      = h.node.running := by
    simp [Host.unsettled, transition_running]
  rw [hu']
  exact reach_transition (x := { h.node with clockMs := c })
    (hnode.clock c h.node.slots) hok.1 hok.2

/-- The part of a dump before the files are written. -/
lemma simulates_dumped (hrun : x.running = true) (hok : DumpOk mode A x)
    (hat : At members mode S n st u a x) :
    ∃ a', Simulates members mode n [] (x.commitAndApply A).2 a a' ∧
      At members mode S n st u a' (x.dumped A) := by
  obtain ⟨a1, hl1, h1⟩ := reach_advanced hat
  obtain ⟨a2, hsim, h2⟩ := simulates_commitAndApply hrun hok h1
  obtain ⟨a3, hl3, h3⟩ := reach_dumped hrun hok h2
  have hall := ((simulates_of_local hl1).trans hsim).trans (simulates_of_local hl3)
  exact ⟨a3, by simpa using hall, h3⟩

/-- The files of a tick are written. -/
lemma reach_saved (hat : At members mode S n disk.stored u a x) (hfit : x.Fits)
    (hd : DiskOk members mode disk) (file : Option SnapshotFile) :
    Reach members mode S n
      (disk.writeAll ((file.map Write.snapshot).toList ++ x.maybeSave)).stored false a
      { x with persistDirty := false } ∧
    DiskOk members mode (disk.writeAll ((file.map Write.snapshot).toList ++ x.maybeSave)) := by
  cases hdirty : x.persistDirty with
  | true =>
      have hmeta := disk_of_all disk file hdirty
      rw [stored_of_writeMeta hfit hat.ok.storedIdsOk hmeta]
      exact ⟨hat.save, diskOk_of_writeMeta hfit hat.ok hmeta⟩
  | false =>
      have htake := disk_of_take disk file x ((file.map Write.snapshot).toList ++ x.maybeSave).length
      rw [List.take_length] at htake
      rcases htake with ⟨hm, hl⟩ | ⟨h, -⟩
      · rw [stored_congr hm]
        exact ⟨hat.settle hdirty, hd.congr hm hl⟩
      · rw [hdirty] at h
        simp at h

/-- **A dump.** -/
lemma HostAt.dump (hat : HostAt members mode n a h) (hok : DumpOk mode A h.node)
    (hfit : (h.node.dumpOutputs A).node.Fits) :
    ∃ a', Simulates members mode n (h.node.dumpOutputs A).sends (h.node.dumpOutputs A).applied
      a a' ∧ HostAt members mode n a'
      { h with
        node := (h.node.dumpOutputs A).node
        disk := h.disk.writeAll (h.node.dumpOutputs A).writes, phase := .idle } := by
  cases hrun : h.node.running with
  | false =>
      have hu : h.unsettled = false := by simp [Host.unsettled, hrun]
      have hnode := hat.node
      rw [hu] at hnode
      rw [dumpOutputs_stopped hrun]
      exact Reach.hostAt (reach_clearOutbox hnode)
        ⟨hat.ok.nodeId, hat.ok.config, fun _ => rfl, hat.ok.disk⟩ rfl rfl
  | true =>
      obtain ⟨a1, hsim1, h1⟩ := simulates_dumped hrun hok hat.node
      rw [dumpOutputs_eq hrun] at hfit ⊢
      obtain ⟨⟨a2, hl2, h2⟩, hdisk⟩ := reach_saved h1 hfit hat.ok.disk
        (((h.node.commitAndApply A).1.maybeDriveMembership).maybeCompact A).2
      obtain ⟨a3, hsim3, h3⟩ := h2.sends rfl (h.node.dumped A).outbox.length
      have hall := (hsim1.trans (simulates_of_local hl2)).trans hsim3
      simp only [List.append_nil, List.nil_append, List.take_length] at hall
      refine ⟨a3, hall, ⟨?_, hat.ok.nodeId, hat.ok.config, fun _ => rfl, hdisk⟩⟩
      simp only [List.drop_length] at h3
      exact h3

/-- **A stop.** -/
lemma HostAt.stop (hat : HostAt members mode n a h) (hphase : h.phase = .idle) :
    ∃ a', Simulates members mode n [] [] a a' ∧ HostAt members mode n a'
      { h with node := h.node.stop } := by
  have hu : h.unsettled = false := by simp [Host.unsettled, hphase]
  refine Reach.hostAt ?_ ⟨hat.ok.nodeId, hat.ok.config, fun _ => rfl, hat.ok.disk⟩ rfl rfl
  have hu' : Host.unsettled { h with node := h.node.stop } = h.unsettled := by
    simp [Host.unsettled, hphase]
  rw [hu']
  refine (hat.node.follow (p := []) (q := []) (by simp) (by simp)).bind fun a1 _ h1 => ?_
  refine (reach_clearOutbox h1).bind fun a2 _ h2 => ?_
  refine (h2.dequeue (r := []) (fun _ => id) (by simp)).bind fun a3 _ h3 => ?_
  exact ⟨a3, Local.refl a3, h3.inv, h3.sent, h3.srv, h3.ok.frame rfl rfl (Or.inl rfl)
    (fun _ => id) (fun _ => id) (fun _ => id) (fun _ => Or.inl) fun hk =>
      (h3.ok.good hk).frame rfl rfl rfl rfl rfl (fun _ => Or.inl) fun hl => ⟨hl, rfl, rfl, rfl⟩⟩

/-- **A start.** -/
lemma HostAt.start (hat : HostAt members mode n a h) (hphase : h.phase = .idle)
    (hk : ¬ mode.keepsLogs) (c : ℤ) :
    ∃ a', Simulates members mode n [] [] a a' ∧ HostAt members mode n a'
      { h with node := Node.start A { h.node with clockMs := c } h.disk } := by
  have hclock := hat.node.clock c h.node.slots
  obtain ⟨hok, hterm, hvote, hstate, hout⟩ := nodeOk_start (A := A) hk hclock.ok hat.ok.disk
  have hout' : (Node.start A { h.node with clockMs := c } h.disk).outbox = [] :=
    hout.trans (hat.ok.idle hphase)
  exact Reach.hostAt (hclock.restart hk _ hterm hvote hstate hout' hok)
    ⟨hat.ok.nodeId, hat.ok.config, fun _ => hout', hat.ok.disk⟩ rfl rfl

/-- **A request for a membership change** is noted. -/
lemma HostAt.request (hat : HostAt members mode n a h) (ms : List CString) :
    ∃ a', Simulates members mode n [] [] a a' ∧ HostAt members mode n a'
      { h with node := (h.node.requestMembershipChange ms).1 } := by
  have hnote : ∃ (r : List CString) (p : Bool), (h.node.requestMembershipChange ms).1 =
      { h.node with requestedMembership := r, requestedMembershipPending := p } := by
    rw [Node.requestMembershipChange]
    split
    · exact ⟨_, _, rfl⟩
    · dsimp only
      split <;> exact ⟨_, _, rfl⟩
  obtain ⟨r, p, heq⟩ := hnote
  rw [heq]
  refine Reach.hostAt (hat.node.same rfl ?_) ⟨hat.ok.nodeId, hat.ok.config, hat.ok.idle,
    hat.ok.disk⟩ rfl rfl
  exact hat.node.ok.frame rfl rfl (Or.inl rfl) (fun _ => id) (fun _ => id) (fun _ => id)
    (fun _ => Or.inl) fun hk => (hat.node.ok.good hk).frame rfl rfl rfl rfl rfl (fun _ => Or.inl)
      fun hl => ⟨hl, rfl, rfl, rfl⟩

/-- The node is lost and initialised again from its files. -/
lemma reach_init {config : NodeConfig} (hat : At members mode S n disk.stored u a x)
    (hk : ¬ mode.keepsLogs) (hn : config.nodeId = n) (hc : ConfigOk mode members config)
    (hd : DiskOk members mode disk) (user : σ) (c : ℤ) :
    Reach members mode S n disk.stored false a (Node.init A config disk user c) ∧
      (Node.init A config disk user c).outbox = [] := by
  obtain ⟨hok, hterm, hvote, hstate, hout⟩ := nodeOk_init (A := A) (S := S) hn hat.ok.fits hc hd
    user c fun h => absurd h hk
  exact ⟨hat.restart hk false hterm hvote hstate hout hok, hout⟩

/-- **A crash** between phases. -/
lemma HostAt.crash (hat : HostAt members mode n a h) (hk : ¬ mode.keepsLogs) (user : σ) (c : ℤ) :
    ∃ a', Simulates members mode n [] [] a a' ∧ HostAt members mode n a'
      { h with node := Node.init A h.config h.disk user c, phase := .idle } := by
  obtain ⟨hreach, hout⟩ :=
    reach_init (A := A) hat.node hk hat.ok.nodeId hat.ok.config hat.ok.disk user c
  exact Reach.hostAt hreach ⟨hat.ok.nodeId, hat.ok.config, fun _ => hout, hat.ok.disk⟩ rfl rfl

/-- What was applied matters only when commits are studied. -/
lemma Simulates.applied_free {ms : List Message} {es es' : List (ℤ × LogEntry)}
    (hk : ¬ mode.keepsLogs) (hsim : Simulates members mode n ms es a a') :
    Simulates members mode n ms es' a a' :=
  ⟨hsim.steps, hsim.others, hsim.sent, fun hmode => absurd (by rw [hmode]; trivial) hk,
    hsim.sendOk⟩

/-- The node is lost after local moves. -/
lemma HostAt.lost {config : NodeConfig} {ms : List Message} {es es' : List (ℤ × LogEntry)}
    (hk : ¬ mode.keepsLogs) (hsim : Simulates members mode n ms es a a')
    (hat : At members mode a'.sent n disk.stored u a' x) (hn : config.nodeId = n)
    (hc : ConfigOk mode members config) (hd : DiskOk members mode disk) (user : σ) (c : ℤ) :
    ∃ a'', Simulates members mode n ms es' a a'' ∧ HostAt members mode n a''
      { config := config, node := Node.init A config disk user c, disk := disk, phase := .idle } := by
  obtain ⟨hreach, hout⟩ := reach_init (A := A) hat hk hn hc hd user c
  have hboot : ∃ a'', Simulates members mode n [] [] a' a'' ∧ HostAt members mode n a''
      { config := config, node := Node.init A config disk user c, disk := disk, phase := .idle } :=
    Reach.hostAt hreach ⟨hn, hc, fun _ => hout, hd⟩ rfl rfl
  obtain ⟨a'', hsim', hat'⟩ := hboot
  have hall := hsim.trans hsim'
  rw [List.append_nil] at hall
  exact ⟨a'', hall.applied_free hk, hat'⟩

/-- **A crash inside the dump**, after some replacements and, once all files are written, some
sends. -/
lemma HostAt.crashInDump (hat : HostAt members mode n a h) (hk : ¬ mode.keepsLogs)
    (hok : DumpOk mode A h.node) (hfit : (h.node.dumpOutputs A).node.Fits) (i j : ℕ)
    (user : σ) (c : ℤ) :
    ∃ a', Simulates members mode n
      (if (h.node.dumpOutputs A).writes.length ≤ i then (h.node.dumpOutputs A).sends.take j else [])
      (h.node.dumpOutputs A).applied a a' ∧ HostAt members mode n a'
      { h with
        node := Node.init A h.config (h.disk.writeAll ((h.node.dumpOutputs A).writes.take i)) user c
        disk := h.disk.writeAll ((h.node.dumpOutputs A).writes.take i), phase := .idle } := by
  cases hrun : h.node.running with
  | false =>
      rw [dumpOutputs_stopped hrun]
      simp only [List.take_nil, ite_self]
      exact HostAt.lost hk (simulates_of_local (Local.refl a)) hat.node hat.ok.nodeId
        hat.ok.config hat.ok.disk user c
  | true =>
      obtain ⟨a1, hsim1, h1⟩ := simulates_dumped hrun hok hat.node
      have hsent1 := h1.sent
      rw [← hsent1] at h1
      rw [dumpOutputs_eq hrun] at hfit ⊢
      change (h.node.dumped A).Fits at hfit
      dsimp only
      split
      · -- every file is written: some messages may have left
        rename_i hall
        rw [List.take_of_length_le hall]
        obtain ⟨⟨a2, hl2, h2⟩, hdisk⟩ := reach_saved h1 hfit hat.ok.disk
          (((h.node.commitAndApply A).1.maybeDriveMembership).maybeCompact A).2
        obtain ⟨a3, hsim3, h3⟩ := h2.sends rfl j
        have hsims := (hsim1.trans (simulates_of_local hl2)).trans hsim3
        exact HostAt.lost hk hsims h3 hat.ok.nodeId hat.ok.config hdisk user c
      · rcases disk_of_take h.disk
          (((h.node.commitAndApply A).1.maybeDriveMembership).maybeCompact A).2
          (h.node.dumped A) i with ⟨hm, hl⟩ | ⟨-, hm⟩
        · -- `meta.txt` and `log.txt` are the old ones
          rw [← stored_congr hm] at h1
          exact HostAt.lost hk hsim1 h1 hat.ok.nodeId hat.ok.config (hat.ok.disk.congr hm hl) user c
        · -- `meta.txt` is the new one
          obtain ⟨a2, hl2, h2⟩ := h1.save
          rw [← stored_of_writeMeta hfit h1.ok.storedIdsOk hm, ← hl2.sent] at h2
          exact HostAt.lost hk (hsim1.trans (simulates_of_local hl2)) h2 hat.ok.nodeId
            hat.ok.config (diskOk_of_writeMeta hfit h1.ok hm) user c

/-- **An act of a host is a sequence of steps of the protocol.** -/
theorem hostAt_exec (hat : HostAt members mode n a h) (hlogs : mode ≠ .logs) {act : HostAct σ}
    (hexec : h.exec A act = some (h', effect)) (hok : ActOk members mode A n a h act) :
    ∃ a', Simulates members mode n effect.sends effect.applied a a' ∧
      HostAt members mode n a' h' := by
  rw [Host.exec, Option.filter_eq_some_iff, decide_eq_true_eq] at hexec
  obtain ⟨hact, hfit⟩ := hexec
  cases act with
  | latch c s ms cs =>
      simp only [Host.act, Option.ite_none_right_eq_some, Option.some.injEq, Prod.mk.injEq] at hact
      obtain ⟨hphase, rfl, rfl⟩ := hact
      exact hat.latch hlogs hphase c s cs hok
  | transition c =>
      simp only [Host.act, Option.ite_none_right_eq_some, Option.some.injEq, Prod.mk.injEq] at hact
      obtain ⟨hphase, rfl, rfl⟩ := hact
      exact hat.transition hphase c hok
  | dump =>
      simp only [Host.act, Option.ite_none_right_eq_some, Option.some.injEq, Prod.mk.injEq] at hact
      obtain ⟨-, rfl, rfl⟩ := hact
      exact hat.dump hok hfit
  | stop =>
      simp only [Host.act, Option.ite_none_right_eq_some, Option.some.injEq, Prod.mk.injEq] at hact
      obtain ⟨hphase, rfl, rfl⟩ := hact
      exact hat.stop hphase
  | start c =>
      simp only [Host.act, Option.ite_none_right_eq_some, Option.some.injEq, Prod.mk.injEq] at hact
      obtain ⟨hphase, rfl, rfl⟩ := hact
      exact hat.start hphase hok c
  | request ms =>
      simp only [Host.act, Option.ite_none_right_eq_some, Option.some.injEq, Prod.mk.injEq] at hact
      obtain ⟨-, rfl, rfl⟩ := hact
      exact hat.request ms
  | resetForJoin c user => exact absurd hok id
  | crashInReset i user c => exact absurd hok id
  | crash user c =>
      simp only [Host.act, Option.some.injEq, Prod.mk.injEq] at hact
      obtain ⟨rfl, rfl⟩ := hact
      exact hat.crash hok user c
  | crashInDump i j user c =>
      simp only [Host.act, Option.ite_none_right_eq_some, Option.some.injEq, Prod.mk.injEq] at hact
      obtain ⟨⟨-, hfits⟩, rfl, rfl⟩ := hact
      exact hat.crashInDump hok.1 hok.2 hfits i j user c

end RaftRx.C
