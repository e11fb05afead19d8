import RaftRx.C.MemberLists

/-!
Nodes whose configuration survives its files.

The configuration is changed by entries of the log and kept in `meta.txt`.  As long as every id
that is mentioned stays in one piece, a node that reads its files finds the configuration it
stored.

* `CommandNames`: the members a command names are whole ids;
* `Node.Steady`, `Disk.Steady`, `Host.Steady`: so are all members a node knows and stores;
* `dumped_clean`: a tick that saves nothing has changed little;
* `SteadyAct`, `steady_exec`: the acts that keep a host steady.
-/

namespace RaftRx.C

open Protocol (Role)

variable {σ : Type*} {A : Application σ} {x y : Node σ} {H : Message → Prop}
  {C : Command → Prop} {m : Message} {disk : Disk}

/-! ### Named members -/

/-- The command changes the configuration. -/
def Command.configures (c : Command) : Bool :=
  decide (c.op = opEnterJoint) || decide (c.op = opLeaveJoint)

/-- The members a command names are whole ids. -/
def CommandNames (c : Command) : Prop :=
  c.configures = true → ∀ id ∈ decodeMemberList c.value maxNodes, PlainId id

/-- A list of whole ids that fits its array. -/
structure MemberList (ids : List CString) : Prop where
  length_le : ids.length ≤ maxNodes
  id : ∀ id ∈ ids, MemberId id

instance (id : CString) : Decidable (PlainId id) :=
  decidable_of_iff ((id ≠ [] ∧ id.length ≤ 15 ∧ (∀ c ∈ id, Text.isSpace c = false) ∧ id ≠ ['-']) ∧
      '|' ∉ id)
    ⟨fun h => ⟨⟨h.1.1, h.1.2.1, h.1.2.2.1, h.1.2.2.2⟩, h.2⟩,
      fun h => ⟨⟨h.ne_nil, h.length_le, h.no_space, h.ne_dash⟩, h.noBar⟩⟩

instance (id : CString) : Decidable (MemberId id) :=
  decidable_of_iff (PlainId id ∧ ',' ∉ id) ⟨fun h => ⟨h.1, h.2⟩, fun h => ⟨h.toPlainId, h.noComma⟩⟩

instance (c : Command) : Decidable (CommandNames c) :=
  inferInstanceAs (Decidable (_ → ∀ id ∈ decodeMemberList c.value maxNodes, PlainId id))

lemma memberList_nil : MemberList [] := ⟨Nat.zero_le _, by simp⟩

lemma MemberList.membersOk {ids : List CString} (h : MemberList ids) : MembersOk ids :=
  ⟨h.length_le, fun id hid => (h.id id hid).toIdOk⟩

lemma memberList_normalize {ids : List CString} (h : ∀ id ∈ ids, MemberId id) :
    MemberList (normalizeMembers ids maxNodes) := by
  refine ⟨length_normalizeMembers ids maxNodes, fun id hid => ?_⟩
  rw [(perm_gathered ids).mem_iff] at hid
  exact h id (mem_gathered (fun id hid => (h id hid).short) hid)

lemma CommandNames.decoded {c : Command} (h : CommandNames c) (hc : c.configures = true) :
    MemberList (decodeMemberList c.value maxNodes) :=
  ⟨length_decodeMemberList _, fun id hid => ⟨h hc id hid, (mem_decodeMemberList hid).2.2⟩⟩

/-- The entry the membership driver writes names the requested members. -/
lemma decode_internalEntry (x : Node σ) (op key : CString) {ids : List CString}
    (h : MemberList ids) :
    decodeMemberList (x.internalEntry op key (encodeMemberList ids maxValue)).command.value
      maxNodes = gathered ids := by
  obtain ⟨-, hfit⟩ := encodeMemberList_eq (fun id hid => (h.id id hid).short.2) h.length_le
  change decodeMemberList (strncpy maxValue (encodeMemberList ids maxValue)) maxNodes = _
  rw [strncpy_of_fits hfit, decode_encode h.id h.length_le]

lemma commandNames_internalEntry (x : Node σ) (op key : CString) {ids : List CString}
    (h : MemberList ids) :
    CommandNames (x.internalEntry op key (encodeMemberList ids maxValue)).command := by
  intro _ id hid
  rw [decode_internalEntry x op key h] at hid
  exact (h.id id (mem_gathered (fun id hid => (h.id id hid).short) hid)).toPlainId

/-! ### Nodes -/

/-- The ids of a configuration file are whole. -/
structure NodeConfig.Steady (c : NodeConfig) : Prop where
  nodeId : MemberId c.nodeId
  initial : ∀ id ∈ c.initialMembers, MemberId id
  peers : ∀ id ∈ c.peers, MemberId id

/-- All members a node knows of are whole ids. -/
structure Node.Steady (x : Node σ) : Prop where
  config : x.config.Steady
  old : MemberList x.configState.oldMembers
  new : MemberList x.configState.newMembers
  requested : MemberList x.requestedMembership
  log : ∀ e ∈ x.log, CommandNames e.command
  waiting : ∀ m, x.Waiting m → ∀ e ∈ m.entries, CommandNames e.command

lemma Node.Steady.frame (h : x.Steady) (hc : y.config = x.config)
    (hs : y.configState = x.configState) (hr : y.requestedMembership = x.requestedMembership)
    (hl : y.log = x.log) (hw : ∀ m, y.Waiting m → x.Waiting m) : y.Steady := by
  obtain ⟨h1, h2, h3, h4, h5, h6⟩ := h
  exact ⟨hc ▸ h1, hs ▸ h2, hs ▸ h3, hr ▸ h4, hl ▸ h5, fun m hm => h6 m (hw m hm)⟩

lemma Node.Steady.turn (hx : x.Steady) (hH : ∀ m, H m → ∀ e ∈ m.entries, CommandNames e.command)
    (hC : ∀ c, C c → CommandNames c) (h : Turn H C x y) : y.Steady := by
  have hwait := waiting_turns h.turns hH hx.waiting
  cases h with
  | append c hc _ =>
      refine ⟨hx.config, hx.old, hx.new, hx.requested, fun e he => ?_, hwait⟩
      rcases List.mem_append.mp he with he | he
      · exact hx.log e he
      · rw [List.mem_singleton.mp he]
        exact hC c hc
  | tune | role | lead | raise | campaign | vote | queue | clear | report | backOff | commit =>
      exact ⟨hx.config, hx.old, hx.new, hx.requested, hx.log, hwait⟩

lemma Node.Steady.turns (hx : x.Steady)
    (hH : ∀ m, H m → ∀ e ∈ m.entries, CommandNames e.command) (hC : ∀ c, C c → CommandNames c)
    (h : Turns H C x y) : y.Steady :=
  h.invariant (fun _ _ hx h => hx.turn hH hC h) hx

lemma Node.Steady.transition (hx : x.Steady) : (x.transition A).Steady := by
  rcases transition_turns (C := fun _ => False) (A := A) x with h | ⟨m, rest, hacc, hrest, htrans⟩
  · exact hx.turns hx.waiting (fun _ h => h.elim) h
  · obtain ⟨t, v, l, e, d₀, d, z, -, hz, -, heq, -⟩ :=
      transition_accept (C := fun _ => False) hacc hrest htrans
    have hzs : z.Steady := hx.turns (fun _ h => h.elim) (fun _ h => h.elim) hz
    have hm := hx.waiting m (Or.inl (mem_of_eq_cons hrest).1)
    have habs : Node.Steady { z.absorbed A m with persistDirty := d } := by
      refine ⟨hzs.config, hzs.old, hzs.new, hzs.requested, fun e he => ?_, hzs.waiting⟩
      rcases mem_merged he with he | he
      · exact hzs.log e he
      · exact hm e he
    rw [heq]
    exact habs.turns (H := fun _ => False) (C := fun _ => False) (fun _ h => h.elim)
      (fun _ h => h.elim) (turns_queueMessage rfl fun _ => rfl)

/-! ### The end of a tick -/

lemma Node.Steady.refreshPeers (hx : x.Steady) : x.refreshPeers.Steady := by
  refine ⟨⟨hx.config.nodeId, hx.config.initial, fun id hid => ?_⟩, hx.old, hx.new, hx.requested,
    hx.log, hx.waiting⟩
  obtain ⟨m, hm, rfl⟩ := mem_refreshPeers hid
  have hmem : MemberId m := by
    rcases List.mem_append.mp hm with hm | hm
    · exact hx.old.id m hm
    · exact hx.new.id m hm
  rw [strncpy_self hmem.short.2]
  exact hmem

lemma configures_enter {c : Command} (h : c.op = opEnterJoint) : c.configures = true := by
  simp [Command.configures, h]

lemma configures_leave {c : Command} (h : c.op = opLeaveJoint) : c.configures = true := by
  simp [Command.configures, h]

lemma isInternal_of_configures {c : Command} (h : c.configures = true) : c.isInternal = true := by
  simp only [Command.configures, Bool.or_eq_true] at h
  simp only [Command.isInternal, Bool.or_eq_true]
  rcases h with h | h
  · exact Or.inl (Or.inr h)
  · exact Or.inr h

lemma Node.Steady.applyNext (hx : x.Steady) (hin : x.Inside) (hlt : x.lastApplied < x.commitIndex) :
    (x.applyNext A).1.Steady := by
  obtain ⟨e, y, he, hcase, heq⟩ := applyNext_case (A := A) hin hlt
  have hnames := hx.log e (List.mem_of_getElem? he)
  have hframe : Node.Steady { x with lastApplied := x.lastApplied + 1 } :=
    hx.frame rfl rfl rfl rfl fun _ => id
  have hy : y.Steady := by
    cases hcase with
    | user | noUser | threshold | skip => exact hframe.frame rfl rfl rfl rfl fun _ => id
    | enter hop _ _ =>
        have hdec := hnames.decoded (configures_enter hop)
        refine Node.Steady.frame (Node.Steady.refreshPeers (x := { x with
          lastApplied := x.lastApplied + 1
          configState := configurationSetJoint x.configState.oldMembers
            (decodeMemberList e.command.value maxNodes) (x.lastApplied + 1)
          membershipState := .joint, jointConfigIndex := x.lastApplied + 1
          requestedMembership := decodeMemberList e.command.value maxNodes
          requestedMembershipPending := true }) ?_) rfl rfl rfl rfl fun _ => id
        exact ⟨hx.config, memberList_normalize hx.old.id, memberList_normalize hdec.id, hdec,
          hx.log, hx.waiting⟩
    | leave hop hidx hne =>
        have hdec := hnames.decoded (configures_leave hop)
        obtain ⟨r, l, v, s, hleave, -⟩ := applyLeaveJoint_eq
          (x := { x with lastApplied := x.lastApplied + 1 }) hidx hne
        rw [hleave]
        refine Node.Steady.frame (Node.Steady.refreshPeers (x := { x with
          lastApplied := x.lastApplied + 1
          configState := configurationSetStable (decodeMemberList e.command.value maxNodes)
            (x.lastApplied + 1)
          membershipState := .stable, finalConfigIndex := x.lastApplied + 1, jointConfigIndex := 0
          requestedMembershipPending := false, requestedMembership := [] }) ?_)
          rfl rfl rfl rfl fun _ => id
        exact ⟨hx.config, memberList_normalize hdec.id, memberList_nil, memberList_nil,
          hx.log, hx.waiting⟩
  rw [heq]
  exact hy.frame rfl rfl rfl rfl fun _ => id

lemma Node.Steady.maybeDriveMembership (hx : x.Steady) : x.maybeDriveMembership.Steady := by
  have happend : ∀ op key : CString, ∀ e ∈ x.log ++ [x.internalEntry op key
      (encodeMemberList x.requestedMembership maxValue)], CommandNames e.command := by
    intro op key e he
    rcases List.mem_append.mp he with he | he
    · exact hx.log e he
    · rw [List.mem_singleton.mp he]
      exact commandNames_internalEntry x op key hx.requested
  have hcase := maybeDriveMembership_cases x
  generalize x.maybeDriveMembership = y at hcase ⊢
  cases hcase with
  | enter => exact ⟨hx.config, hx.old, hx.new, hx.requested, happend _ _, hx.waiting⟩
  | leave => exact ⟨hx.config, hx.old, hx.new, hx.requested, happend _ _, hx.waiting⟩
  | none | fullEnter | joint | fullLeave | stable => exact hx.frame rfl rfl rfl rfl fun _ => id

lemma Node.Steady.advanced (hx : x.Steady) : x.advanced.Steady := by
  rcases advanced_cases x with h | ⟨k, -, -, h⟩
  · rw [h]
    exact hx
  · rw [h]
    exact hx.frame rfl rfl rfl rfl fun _ => id

lemma Node.Steady.commitAndApply (hx : x.Steady) (hin : x.Inside) :
    (x.commitAndApply A).1.Steady :=
  commitAndApply_induct hin.advanced hx.advanced fun _ hz hlt hI => hI.applyNext hz hlt

/-- **The end of a tick** keeps a node steady. -/
lemma Node.Steady.dumped (hx : x.Steady) (hin : x.Inside) : (x.dumped A).Steady := by
  have hdrive := (hx.commitAndApply (A := A) hin).maybeDriveMembership
  rw [Node.dumped]
  rcases maybeCompact_cases (A := A) (x.commitAndApply A).1.maybeDriveMembership with
    heq | ⟨data, -, -, -, -, heq⟩
  · rw [heq]
    exact hdrive
  · rw [heq]
    exact ⟨hdrive.config, hdrive.old, hdrive.new, hdrive.requested,
      fun e he => hdrive.log e (List.mem_of_mem_drop he), hdrive.waiting⟩

/-- A tick that leaves nothing to save has at most moved the membership machine. -/
lemma dumped_clean (h : (x.dumped A).persistDirty = false) :
    x.dumped A = x.maybeDriveMembership ∧
      (((x.commitAndApply A).1.maybeDriveMembership).maybeCompact A).2 = none := by
  have hloop : ∀ (k : ℕ) (z : Node σ), (z.applyCommitted A k).1.persistDirty = false →
      (z.applyCommitted A k).1 = z := by
    intro k
    induction k with
    | zero => exact fun z _ => rfl
    | succ k ih =>
        intro z hz
        have hdirty : (z.applyNext A).1.persistDirty = true := rfl
        have hcalm := (calm_applyCommitted (A := A) k (z.applyNext A).1).dirty hdirty
        exact absurd (hz.symm.trans hcalm) (by simp)
  have happ : (x.commitAndApply A).1.persistDirty = false → (x.commitAndApply A).1 = x := by
    intro hclean
    rw [commitAndApply_eq] at hclean ⊢
    have hsame := hloop _ _ hclean
    rw [hsame] at hclean ⊢
    rcases advanced_cases x with hadv | ⟨k, -, -, hadv⟩
    · exact hadv
    · rw [hadv] at hclean
      exact absurd hclean (by simp)
  rw [Node.dumped] at h ⊢
  rcases maybeCompact_cases (A := A) (x.commitAndApply A).1.maybeDriveMembership with
    heq | ⟨data, -, -, -, -, heq⟩
  · rw [heq] at h ⊢
    have hclean : (x.commitAndApply A).1.persistDirty = false := by
      cases hd : (x.commitAndApply A).1.persistDirty with
      | false => rfl
      | true =>
          have := (marked_maybeDriveMembership (x.commitAndApply A).1).dirty hd
          exact absurd (h.symm.trans this) (by simp)
    rw [happ hclean]
    exact ⟨rfl, rfl⟩
  · rw [heq] at h
    exact absurd h (by simp)

/-! ### What latching and acting leave alone -/

/-- Configuration and membership machine are as they were. -/
structure SameMembership (x y : Node σ) : Prop where
  config : y.config = x.config
  configState : y.configState = x.configState
  machine : y.membershipState = x.membershipState
  requested : y.requestedMembership = x.requestedMembership
  pending : y.requestedMembershipPending = x.requestedMembershipPending
  jointIndex : y.jointConfigIndex = x.jointConfigIndex
  finalIndex : y.finalConfigIndex = x.finalConfigIndex

lemma SameMembership.refl (x : Node σ) : SameMembership x x := ⟨rfl, rfl, rfl, rfl, rfl, rfl, rfl⟩

lemma SameMembership.trans {z : Node σ} (h : SameMembership x y) (h' : SameMembership y z) :
    SameMembership x z where
  config := h'.config.trans h.config
  configState := h'.configState.trans h.configState
  machine := h'.machine.trans h.machine
  requested := h'.requested.trans h.requested
  pending := h'.pending.trans h.pending
  jointIndex := h'.jointIndex.trans h.jointIndex
  finalIndex := h'.finalIndex.trans h.finalIndex

lemma sameMembership_turns (h : Turns H C x y) : SameMembership x y := by
  refine h.invariant (I := SameMembership x) (fun z z' hz hstep => hz.trans ?_)
    (SameMembership.refl x)
  cases hstep <;> exact ⟨rfl, rfl, rfl, rfl, rfl, rfl, rfl⟩

lemma sameMembership_transition (x : Node σ) : SameMembership x (x.transition A) := by
  rcases transition_turns (C := fun _ => False) (A := A) x with h | ⟨m, rest, hacc, hrest, htrans⟩
  · exact sameMembership_turns h
  · obtain ⟨t, v, l, e, d₀, d, z, -, hz, -, heq, -⟩ :=
      transition_accept (C := fun _ => False) hacc hrest htrans
    have habs : SameMembership z { z.absorbed A m with persistDirty := d } :=
      ⟨rfl, rfl, rfl, rfl, rfl, rfl, rfl⟩
    rw [heq]
    exact ((sameMembership_turns hz).trans habs).trans (sameMembership_turns
      (H := fun _ => False) (C := fun _ => False) (turns_queueMessage rfl fun _ => rfl))

/-! ### Files -/

/-- The members the files name are whole ids. -/
structure Disk.Steady (disk : Disk) : Prop where
  old : MemberList (readMeta disk.metaText).configState.oldMembers
  new : MemberList (readMeta disk.metaText).configState.newMembers
  entries : ∀ e ∈ disk.entries, CommandNames e.command

lemma steadyDisk_empty : Disk.empty.Steady where
  old := memberList_nil
  new := memberList_nil
  entries := by simp [Disk.entries, Disk.empty, fileLines]

/-- What a steady node saves is read back. -/
lemma configState_save (hx : x.Steady) (hs : x.Sound separators) (hfit : x.Fits) :
    (readMeta (some (writeMeta x))).configState = x.configState :=
  configState_readMeta hfit (hs.spelled.linesOk (by simp [separators]) hfit) hx.old.membersOk
    hx.new.membersOk

lemma Node.Steady.save (hx : x.Steady) (hs : x.Sound separators) (hfit : x.Fits)
    (file : Option SnapshotFile) : Disk.Steady
      { metaText := some (writeMeta x), logText := some (writeLog x), snapshot := file } := by
  have hconf := configState_save hx hs hfit
  obtain ⟨-, -, hsame⟩ := entries_writeLog (d :=
    { metaText := some (writeMeta x), logText := some (writeLog x), snapshot := file })
    ⟨by simp [separators], fun _ => id⟩ hfit hs.spelled.log rfl
  refine ⟨?_, ?_, ?_⟩
  · exact hconf.symm ▸ hx.old
  · exact hconf.symm ▸ hx.new
  · rw [hsame (by simp [separators])]
    exact hx.log

/-- The files hold neither members nor entries, and the node is no learner. -/
def Disk.fallsBack (disk : Disk) (learner : Bool) : Bool :=
  (readMeta disk.metaText).configState.oldMembers.isEmpty && !learner &&
    (readLog (readMeta disk.metaText).snapshotLastIncludedIndex disk.logText).isEmpty

/-- **The configuration a load ends with** is the stored one or a stable one. -/
lemma startConfig_load (y : Node σ) (disk : Disk) : (y.load A disk).startConfig =
    if disk.fallsBack y.config.learner then y.fallbackConfig
    else (readMeta disk.metaText).configState := by
  obtain ⟨user, heq⟩ := load_record (A := A) y disk
  rw [heq]
  rfl

lemma isJoint_fallbackConfig (y : Node σ) : y.fallbackConfig.isJoint = false := by
  rw [Node.fallbackConfig]
  split <;> rfl

lemma steady_fallbackConfig (hc : y.config.Steady) :
    MemberList y.fallbackConfig.oldMembers ∧ MemberList y.fallbackConfig.newMembers := by
  rw [Node.fallbackConfig]
  split
  · exact ⟨memberList_normalize hc.initial, memberList_nil⟩
  · refine ⟨memberList_normalize fun id hid => ?_, memberList_nil⟩
    obtain ⟨id', hid', rfl⟩ := List.mem_map.mp hid
    have hmem : MemberId id' := by
      rcases List.mem_cons.mp (List.mem_of_mem_take hid') with rfl | hid'
      · exact hc.nodeId
      · exact hc.peers id' hid'
    rw [strncpy_self hmem.short.2]
    exact hmem

/-- **A load** gives a steady node. -/
lemma steady_load (hd : disk.Steady) (hfull : disk.entries.length ≤ maxLog)
    (hc : y.config.Steady) (hr : MemberList y.requestedMembership)
    (hw : ∀ m, y.Waiting m → ∀ e ∈ m.entries, CommandNames e.command) : (y.load A disk).Steady := by
  obtain ⟨user, heq⟩ := load_record (A := A) y disk
  rw [heq]
  refine ⟨hc, hd.old, hd.new, hr, fun e he => ?_, hw⟩
  change e ∈ readLog (readMeta disk.metaText).snapshotLastIncludedIndex disk.logText at he
  rw [readLog_eq hfull] at he
  exact hd.entries e (List.mem_filter.mp he).1

lemma Node.Steady.startConfig (h : y.Steady) :
    Node.Steady { y with configState := y.startConfig } := by
  rw [Node.startConfig]
  split
  · obtain ⟨ho, hn⟩ := steady_fallbackConfig h.config
    exact ⟨h.config, ho, hn, h.requested, h.log, h.waiting⟩
  · exact h

lemma steady_start (hd : disk.Steady) (hfull : disk.entries.length ≤ maxLog) (hx : x.Steady) :
    (x.start A disk).Steady := by
  have hload : (x.load A disk).Steady := steady_load hd hfull hx.config hx.requested hx.waiting
  have hconf := hload.startConfig
  rw [Node.start]
  generalize x.load A disk = z at hload hconf ⊢
  rw [Node.startConfig] at hconf
  split
  · rename_i hneeds
    rw [if_pos hneeds] at hconf
    exact hconf.refreshPeers.frame rfl rfl rfl rfl fun _ => id
  · exact hload.frame rfl rfl rfl rfl fun _ => id

lemma steady_init {config : NodeConfig} (hc : config.Steady) (hd : disk.Steady)
    (hfull : disk.entries.length ≤ maxLog) (user : σ) (clock : ℤ) :
    (Node.init A config disk user clock).Steady := by
  have hload : ((Node.zero config user clock).load A disk).Steady := by
    refine steady_load hd hfull hc memberList_nil ?_
    rintro m (hm | hm)
    · exact absurd hm List.not_mem_nil
    · exact absurd hm List.not_mem_nil
  have hloaded : (Node.loaded A config disk user clock).Steady := by
    rw [Node.loaded]
    generalize (Node.zero config user clock).load A disk = z at hload ⊢
    split
    · exact hload.frame rfl rfl rfl rfl fun _ => id
    · exact hload
  have hfresh : (Node.fresh A config disk user clock).Steady := by
    rw [Node.fresh]
    split
    · exact ⟨hloaded.config, memberList_nil, memberList_nil, hloaded.requested,
        by simp [Node.forget], hloaded.waiting⟩
    · exact hloaded
  rw [init_ready, Node.ready]
  have hstart : Node.Steady { Node.fresh A config disk user clock with
      configState := (Node.fresh A config disk user clock).startConfig
      membershipState := if (Node.fresh A config disk user clock).startConfig.isJoint
        then .joint else .stable } := hfresh.startConfig.frame rfl rfl rfl rfl fun _ => id
  exact hstart.refreshPeers.frame rfl rfl rfl rfl fun _ => id

/-! ### Hosts -/

/-- Node, files and configuration of a host name whole ids only. -/
structure Host.Steady (h : Host σ) : Prop where
  sound : h.Sound separators
  config : h.config.Steady
  node : h.node.Steady
  disk : h.disk.Steady

/-- What the environment may do: it names whole ids and sends texts without separators. -/
def SteadyAct : HostAct σ → Prop
  | .latch _ _ messages commands =>
      (∀ m ∈ messages, MessageFree separators m ∧ ∀ e ∈ m.entries, CommandNames e.command) ∧
      ∀ c ∈ commands, CommandFree separators c ∧ CommandNames c
  | .request members => ∀ id ∈ members, MemberId id
  | _ => True

instance : (a : HostAct σ) → Decidable (SteadyAct a)
  | .latch _ _ messages commands => inferInstanceAs (Decidable
      ((∀ m ∈ messages, MessageFree separators m ∧ ∀ e ∈ m.entries, CommandNames e.command) ∧
        ∀ c ∈ commands, CommandFree separators c ∧ CommandNames c))
  | .request members => inferInstanceAs (Decidable (∀ id ∈ members, MemberId id))
  | .transition _ | .dump | .stop | .start _ | .resetForJoin _ _ | .crash _ _
  | .crashInDump _ _ _ _ | .crashInReset _ _ _ => inferInstanceAs (Decidable True)

lemma MemberId.free {id : CString} (h : MemberId id) : Free separators id := h.toPlainId.free

lemma SteadyAct.spelled {a : HostAct σ} (ha : SteadyAct a) : a.Spelled separators := by
  cases a with
  | latch => exact ⟨fun m hm => (ha.1 m hm).1, fun c hc => (ha.2 c hc).1⟩
  | request => exact fun id hid => (ha id hid).free
  | transition | dump | stop | start | resetForJoin | crash | crashInDump | crashInReset => trivial

lemma NodeConfig.Steady.spelled {c : NodeConfig} (h : c.Steady) : c.Spelled separators :=
  ⟨h.nodeId.free, fun id hid => (h.initial id hid).free, fun id hid => (h.peers id hid).free⟩

lemma steady_boot {config : NodeConfig} (hc : config.Steady) (user : σ) (clock : ℤ) :
    (Host.boot A config user clock).Steady :=
  ⟨sound_boot separators_self hc.spelled user clock, hc,
    steady_init hc steadyDisk_empty (by simp [Disk.entries, Disk.empty, fileLines]) user clock,
    steadyDisk_empty⟩

/-- The files some replacements of a tick leave. -/
lemma Host.Steady.writes {h : Host σ} (hh : h.Steady) (hrun : h.node.running = true)
    (hfit : (h.node.dumped A).Fits) (k : ℕ) :
    (h.disk.writeAll ((h.node.dumpOutputs A).writes.take k)).Steady := by
  have hsteady := hh.node.dumped (A := A) hh.sound.node.inside
  have hsound := hh.sound.node.dumped (A := A) separators_self
  have hdirty := dirty_of_compacts (A := A) h.node
  have hconf := configState_save hsteady hsound hfit
  rw [dumpOutputs_eq hrun]
  dsimp only
  generalize (((h.node.commitAndApply A).1.maybeDriveMembership).maybeCompact A).2 = file
    at hdirty ⊢
  rcases writeAll_cases h.disk file (h.node.dumped A) k hdirty with
    heq | ⟨f, -, -, heq⟩ | ⟨-, heq⟩ | ⟨-, heq⟩
  all_goals rw [heq]
  · exact hh.disk
  · exact ⟨hh.disk.old, hh.disk.new, hh.disk.entries⟩
  · exact ⟨hconf.symm ▸ hsteady.old, hconf.symm ▸ hsteady.new, hh.disk.entries⟩
  · exact hsteady.save hsound hfit _

lemma Host.Steady.crashedDisk {h : Host σ} (hh : h.Steady)
    (hfit : (h.node.dumpOutputs A).node.Fits) (k : ℕ) :
    (h.disk.writeAll ((h.node.dumpOutputs A).writes.take k)).Steady := by
  cases hrun : h.node.running with
  | false =>
      rw [dumpOutputs_stopped hrun]
      simpa [Disk.writeAll] using hh.disk
  | true =>
      refine hh.writes hrun ?_ k
      rw [dumpOutputs_eq hrun] at hfit
      exact hfit

/-- A node that is reset. -/
lemma Node.Steady.resetForJoin (hx : x.Steady) : x.resetForJoin.1.Steady := by
  refine Node.Steady.frame (Node.Steady.refreshPeers (x :=
    { x.forget with
      leaderId := [], votesReceived := [], pendingAppendEntries := [], pendingVoteRequests := []
      pendingVotes := [], outbox := [], config := { x.config with learner := true }
      membershipState := .stable }) ?_) rfl rfl rfl rfl fun _ => id
  refine ⟨⟨hx.config.nodeId, hx.config.initial, hx.config.peers⟩, memberList_nil, memberList_nil,
    hx.requested, by simp [Node.forget], ?_⟩
  rintro m (hm | hm)
  · exact absurd hm List.not_mem_nil
  · exact absurd hm List.not_mem_nil

/-- The files some replacements of a reset leave. -/
lemma Host.Steady.resetDisk {h : Host σ} (hh : h.Steady) (hfit : h.node.resetForJoin.1.Fits)
    (k : ℕ) : (h.disk.writeAll (h.node.resetForJoin.2.take k)).Steady := by
  have hsteady := hh.node.resetForJoin
  have hsound := hh.sound.node.resetForJoin
  have hconf := configState_save hsteady hsound hfit
  rcases resetWrites_cases h.disk h.node k with heq | ⟨-, heq⟩ | heq
  all_goals rw [heq]
  · exact hh.disk
  · exact ⟨hconf.symm ▸ hsteady.old, hconf.symm ▸ hsteady.new, hh.disk.entries⟩
  · exact hsteady.save hsound hfit _

/-- **Every act that names whole ids keeps a host steady.** -/
theorem steady_exec {h h' : Host σ} {a : HostAct σ} {e : Effect} (hh : h.Steady)
    (ha : SteadyAct a) (hc : CrashOk A h a) (he : h.exec A a = some (h', e)) : h'.Steady := by
  have hsound := sound_exec separators_self hh.sound ha.spelled hc he
  obtain ⟨hcase, hfit⟩ := exec_cases he
  cases hcase with
  | latch clock slots ms cs _ =>
      have hturns := turns_latchInputs (x := h.node) (H := (· ∈ ms)) (C := (· ∈ cs))
        (fun _ => id) (fun _ => id) clock slots
      exact ⟨hsound, hh.config, hh.node.turns (fun m hm => (ha.1 m hm).2)
        (fun c hc => (ha.2 c hc).2) hturns, hh.disk⟩
  | transition clock _ =>
      have hclock : Node.Steady { h.node with clockMs := clock } :=
        hh.node.frame rfl rfl rfl rfl fun _ => id
      exact ⟨hsound, hh.config, hclock.transition, hh.disk⟩
  | dumpStopped _ _ =>
      exact ⟨hsound, hh.config, hh.node.frame rfl rfl rfl rfl fun _ => id, hh.disk⟩
  | dump _ hrun =>
      have hdisk := hh.writes hrun hfit (h.node.dumpOutputs A).writes.length
      rw [List.take_length] at hdisk
      have hdump := hh.node.dumped (A := A) hh.sound.node.inside
      exact ⟨hsound, hh.config, hdump.frame rfl rfl rfl rfl fun _ => id, hdisk⟩
  | stop _ =>
      refine ⟨hsound, hh.config, hh.node.frame rfl rfl rfl rfl ?_, hh.disk⟩
      rintro m (hm | hm)
      · exact absurd hm List.not_mem_nil
      · exact absurd hm List.not_mem_nil
  | start clock _ =>
      have hclock : Node.Steady { h.node with clockMs := clock } :=
        hh.node.frame rfl rfl rfl rfl fun _ => id
      exact ⟨hsound, hh.config, steady_start hh.disk hh.sound.disk.full hclock, hh.disk⟩
  | request members _ =>
      rcases requestMembershipChange_cases h.node members with hreq | ⟨b, hreq⟩
      · refine ⟨hsound, hh.config, ?_, hh.disk⟩
        rw [hreq]
        exact hh.node
      · refine ⟨hsound, hh.config, ?_, hh.disk⟩
        rw [hreq]
        exact ⟨hh.node.config, hh.node.old, hh.node.new, memberList_normalize ha, hh.node.log,
          hh.node.waiting⟩
  | resetForJoin clock user _ =>
      have hclock : Node.Steady { h.node with clockMs := clock, user := user } :=
        hh.node.frame rfl rfl rfl rfl fun _ => id
      have hnode := hclock.resetForJoin
      exact ⟨hsound, hh.config, hnode, hnode.save hsound.node hfit _⟩
  | crash user clock =>
      exact ⟨hsound, hh.config, steady_init hh.config hh.disk hh.sound.disk.full user clock,
        hh.disk⟩
  | crashInDump k j user clock _ hfits =>
      have hdisk := hh.crashedDisk hfits k
      exact ⟨hsound, hh.config, steady_init hh.config hdisk hsound.disk.full user clock, hdisk⟩
  | crashInReset k user clock _ hfits =>
      have hdisk := hh.resetDisk hfits k
      exact ⟨hsound, hh.config, steady_init hh.config hdisk hsound.disk.full user clock, hdisk⟩

end RaftRx.C
