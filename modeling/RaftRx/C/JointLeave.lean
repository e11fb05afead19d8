import RaftRx.C.AppliedState
import RaftRx.C.Configurations

/-!
Joint consensus leaves to the configuration it entered.

The list of a `cluster.leave_joint` entry is taken from `requested_membership`, which is not
stored.  It is the list of new members as long as nobody overwrites it while the configuration is
joint and the process is not started again in the middle of a change.

* `LeavesAsEntered`: an entry that leaves the joint configuration names its new members;
* `Node.InStep`: the requested members are the new ones;
* `HeldAct`: no request during a change, and no restart from a joint configuration;
* `leavesAsEntered_of_heldAct`: what holds in every such run;
* `leaves_elsewhere`: a request during the change.
-/

namespace RaftRx.C

open Protocol (Role)

variable {σ : Type*} {A : Application σ} {x y : Node σ} {H : Message → Prop}
  {C : Command → Prop} {m : Message} {disk : Disk}

/-- An entry with which the node leaves a joint configuration names its new members. -/
def LeavesAsEntered (x : Node σ) : Prop :=
  ∀ e : LogEntry, x.maybeDriveMembership.log = x.log ++ [e] → e.command.op = opLeaveJoint →
    x.configState.isJoint = true ∧
      normalizeMembers (decodeMemberList e.command.value maxNodes) maxNodes =
        x.configState.newMembers

/-- In a joint configuration the requested members are the new ones. -/
def Node.InStep (x : Node σ) : Prop :=
  x.configState.isJoint = true →
    normalizeMembers x.requestedMembership maxNodes = x.configState.newMembers

lemma Node.InStep.frame (h : x.InStep) (hc : y.configState = x.configState)
    (hr : y.requestedMembership = x.requestedMembership) : y.InStep := by
  rw [Node.InStep, hc, hr]
  exact h

/-- **A node in step leaves as it entered.** -/
lemma Node.InStep.leaves (h : x.InStep) (hs : x.Steady) : LeavesAsEntered x := by
  intro e he hop
  have hcase := maybeDriveMembership_cases x
  generalize x.maybeDriveMembership = y at hcase he
  have hsame : ∀ l : List LogEntry, l = l ++ [e] → False := by
    intro l hl
    have := congrArg List.length hl
    rw [List.length_append, List.length_singleton] at this
    omega
  cases hcase with
  | none | fullEnter | joint | fullLeave | stable => exact (hsame _ he).elim
  | enter =>
      rw [← List.singleton_injective (List.append_cancel_left he)] at hop
      change strncpy maxOp opEnterJoint = opLeaveJoint at hop
      exact absurd hop (by decide)
  | leave _ _ _ _ hjoint =>
      rw [← List.singleton_injective (List.append_cancel_left he)]
      refine ⟨hjoint, ?_⟩
      rw [decode_internalEntry x _ _ hs.requested,
        normalizeMembers_gathered fun id hid => (hs.requested.id id hid).short]
      exact h hjoint

/-! ### Nodes -/

lemma Node.InStep.applyNext (h : x.InStep) (hin : x.Inside) (hlt : x.lastApplied < x.commitIndex) :
    (x.applyNext A).1.InStep := by
  obtain ⟨e, y, -, hcase, heq⟩ := applyNext_case (A := A) hin hlt
  have hy : y.InStep := by
    cases hcase with
    | user | noUser | threshold | skip => exact h
    | enter => exact fun _ => rfl
    | leave _ hidx hne =>
        obtain ⟨r, l, v, s, hleave, -⟩ := applyLeaveJoint_eq
          (x := { x with lastApplied := x.lastApplied + 1 }) hidx hne
        rw [hleave]
        exact fun hjoint => absurd hjoint Bool.false_ne_true
  rw [heq]
  exact hy

lemma Node.InStep.commitAndApply (h : x.InStep) (hin : x.Inside) :
    (x.commitAndApply A).1.InStep := by
  have hadv : x.advanced.InStep := by
    rcases advanced_cases x with heq | ⟨k, -, -, heq⟩
    · rw [heq]
      exact h
    · rw [heq]
      exact h
  exact commitAndApply_induct hin.advanced hadv fun z hz hlt hI => hI.applyNext hz hlt

lemma inStep_maybeDriveMembership (h : x.InStep) : x.maybeDriveMembership.InStep := by
  have hcase := maybeDriveMembership_cases x
  generalize x.maybeDriveMembership = y at hcase ⊢
  cases hcase with
  | none | fullEnter | enter | joint | fullLeave | leave | stable => exact h

lemma Node.InStep.dumped (h : x.InStep) (hin : x.Inside) : (x.dumped A).InStep := by
  have hdrive := inStep_maybeDriveMembership (h.commitAndApply (A := A) hin)
  rw [Node.dumped]
  rcases maybeCompact_cases (A := A) (x.commitAndApply A).1.maybeDriveMembership with
    heq | ⟨data, -, -, -, -, heq⟩
  · rw [heq]
    exact hdrive
  · rw [heq]
    exact hdrive

/-! ### Hosts -/

/-- What the environment may do: it names whole ids, and no crash breaks the files. -/
def MembershipAct (A : Application σ) (h : Host σ) (a : HostAct σ) : Prop :=
  SteadyAct a ∧ CrashOk A h a

/-- The files an act leaves when the process dies in it. -/
def Host.filesAt (A : Application σ) (h : Host σ) : HostAct σ → Disk
  | .crashInDump writes _ _ _ => h.disk.writeAll ((h.node.dumpOutputs A).writes.take writes)
  | .crashInReset writes _ _ => h.disk.writeAll (h.node.resetForJoin.2.take writes)
  | _ => h.disk

/-- No request is taken while the configuration is joint, and no process is started again from
files with a joint configuration. -/
def HeldAct (A : Application σ) (h : Host σ) : HostAct σ → Prop
  | .request _ => h.node.isLeader = true → h.node.configState.isJoint = false
  | .crash user clock =>
      (readMeta (h.filesAt A (.crash user clock)).metaText).configState.isJoint = false
  | .crashInDump writes sends user clock =>
      (readMeta (h.filesAt A (.crashInDump writes sends user clock)).metaText).configState.isJoint
        = false
  | .crashInReset writes user clock =>
      (readMeta (h.filesAt A (.crashInReset writes user clock)).metaText).configState.isJoint
        = false
  | _ => True

instance (h : Host σ) (a : HostAct σ) : Decidable (MembershipAct A h a) :=
  inferInstanceAs (Decidable (_ ∧ _))

instance (h : Host σ) : (a : HostAct σ) → Decidable (HeldAct A h a)
  | .request _ => inferInstanceAs (Decidable (_ → _))
  | .crash _ _ | .crashInDump _ _ _ _ | .crashInReset _ _ _ => inferInstanceAs (Decidable (_ = _))
  | .latch _ _ _ _ | .transition _ | .dump | .stop | .start _ | .resetForJoin _ _ =>
      inferInstanceAs (Decidable True)

/-- A host that leaves joint configurations as it entered them.  What a start would read is the
configuration in memory, if it is joint. -/
structure Host.InStep (h : Host σ) : Prop where
  steady : h.Steady
  node : h.node.InStep
  stored : (readMeta h.disk.metaText).configState.isJoint = true →
    h.disk.fallsBack h.node.config.learner = false →
    (readMeta h.disk.metaText).configState = h.node.configState

/-- A change of the node that leaves its configuration and the requested members alone. -/
lemma Host.InStep.same {h h' : Host σ} (hh : h.InStep) (hs : h'.Steady) (hd : h'.disk = h.disk)
    (hn : SameMembership h.node h'.node) : h'.InStep := by
  refine ⟨hs, hh.node.frame hn.configState hn.requested, ?_⟩
  rw [hd, hn.config, hn.configState]
  exact hh.stored

lemma inStep_boot {config : NodeConfig} (hc : config.Steady) (user : σ) (clock : ℤ) :
    (Host.boot A config user clock).InStep := by
  obtain ⟨u, c, s, d, e₁, e₂, heq, hconf⟩ := init_empty (A := A) config user clock
  have hstable : c.isJoint = false := by
    rw [hconf]
    split
    · rfl
    · exact isJoint_fallbackConfig _
  have hempty : (readMeta Disk.empty.metaText).configState.isJoint = false := rfl
  refine ⟨steady_boot hc user clock, ?_, fun hjoint => absurd (hjoint.symm.trans hempty) (by simp)⟩
  change (Node.init A config Disk.empty user clock).InStep
  rw [heq]
  intro hjoint
  change c.isJoint = true at hjoint
  exact absurd (hjoint.symm.trans hstable) (by simp)

/-- The configuration of a node that was started. -/
lemma configState_start (x : Node σ) (disk : Disk) :
    (x.start A disk).configState = (x.load A disk).startConfig ∧
      (x.start A disk).requestedMembership = x.requestedMembership ∧
      (x.start A disk).config.learner = x.config.learner := by
  have hload : (x.load A disk).requestedMembership = x.requestedMembership ∧
      (x.load A disk).config.learner = x.config.learner := by
    obtain ⟨user, heq⟩ := load_record (A := A) x disk
    rw [heq]
    exact ⟨rfl, rfl⟩
  rw [Node.start, Node.startConfig]
  generalize x.load A disk = z at hload ⊢
  split
  · exact ⟨rfl, hload⟩
  · exact ⟨rfl, hload⟩

lemma configState_init {config : NodeConfig} (hl : config.learner = false) (disk : Disk) (user : σ)
    (clock : ℤ) : (Node.init A config disk user clock).configState =
      ((Node.zero config user clock).load A disk).startConfig := by
  obtain ⟨s, d, e, heq⟩ := init_eq (A := A) hl disk user clock
  rw [heq]
  change (Node.loaded A config disk user clock).startConfig = _
  rw [Node.loaded]
  generalize (Node.zero config user clock).load A disk = z
  split
  · rfl
  · rfl

/-- A node whose tick saves its files. -/
lemma Host.InStep.dump {h h' : Host σ} (hh : h.InStep) (hs : h'.Steady)
    (hrun : h.node.running = true) (hfit : (h.node.dumped A).Fits)
    (hnode : h'.node = { h.node.dumped A with persistDirty := false, outbox := [] })
    (hdisk : h'.disk = h.disk.writeAll (h.node.dumpOutputs A).writes) : h'.InStep := by
  have hin := hh.steady.sound.node.inside
  have hstep := hh.node.dumped (A := A) hin
  have hsteady := hh.steady.node.dumped (A := A) hin
  have hsound := hh.steady.sound.node.dumped (A := A) separators_self
  refine ⟨hs, ?_, ?_⟩
  · rw [hnode]
    exact hstep
  · rw [hdisk, hnode, dumpOutputs_eq hrun]
    dsimp only
    rcases writeAll_all h.disk _ (h.node.dumped A) (dirty_of_compacts h.node) with
      ⟨hclean, -, heq⟩ | ⟨-, heq⟩
    · obtain ⟨hdrive, -⟩ := dumped_clean hclean
      rw [heq, hdrive]
      have hcase := maybeDriveMembership_cases h.node
      generalize h.node.maybeDriveMembership = y at hcase ⊢
      cases hcase with
      | none | fullEnter | enter | joint | fullLeave | leave | stable => exact hh.stored
    · rw [heq]
      exact fun _ _ => configState_save hsteady hsound hfit

/-- A process that is started again from files without a joint configuration. -/
lemma Host.InStep.restart {config : NodeConfig} (hl : config.learner = false)
    (hheld : (readMeta disk.metaText).configState.isJoint = false) {user : σ} {clock : ℤ}
    {p : Phase}
    (hs : Host.Steady
      { config := config, node := Node.init A config disk user clock, disk := disk, phase := p }) :
    Host.InStep
      { config := config, node := Node.init A config disk user clock, disk := disk
        phase := p } := by
  have hconf := configState_init (A := A) hl disk user clock
  rw [startConfig_load] at hconf
  refine ⟨hs, ?_, fun hjoint => absurd (hjoint.symm.trans hheld) (by simp)⟩
  change (Node.init A config disk user clock).InStep
  rw [Node.InStep, hconf]
  split
  · intro hjoint
    rw [isJoint_fallbackConfig] at hjoint
    exact absurd hjoint Bool.false_ne_true
  · exact fun hjoint => absurd (hjoint.symm.trans hheld) (by simp)

/-- **Every held act** keeps a host in step. -/
lemma inStep_exec {h h' : Host σ} {a : HostAct σ} {e : Effect} (hh : h.InStep)
    (ha : MembershipAct A h a) (hheld : HeldAct A h a) (he : h.exec A a = some (h', e)) :
    h'.InStep := by
  have hs := steady_exec hh.steady ha.1 ha.2 he
  obtain ⟨hcase, hfit⟩ := exec_cases he
  cases hcase with
  | latch clock slots ms cs _ =>
      exact hh.same hs rfl (sameMembership_turns (turns_latchInputs (H := (· ∈ ms))
        (C := (· ∈ cs)) (fun _ => id) (fun _ => id) clock slots))
  | transition clock _ =>
      have hclock : SameMembership h.node { h.node with clockMs := clock } :=
        ⟨rfl, rfl, rfl, rfl, rfl, rfl, rfl⟩
      exact hh.same hs rfl (hclock.trans (sameMembership_transition _))
  | dumpStopped _ _ => exact hh.same hs rfl ⟨rfl, rfl, rfl, rfl, rfl, rfl, rfl⟩
  | dump _ hrun => exact hh.dump hs hrun hfit rfl rfl
  | stop _ => exact hh.same hs rfl ⟨rfl, rfl, rfl, rfl, rfl, rfl, rfl⟩
  | start clock _ =>
      obtain ⟨hconf, hreq, hlearner⟩ :=
        configState_start (A := A) { h.node with clockMs := clock } h.disk
      rw [startConfig_load] at hconf
      refine ⟨hs, ?_, ?_⟩
      · change (Node.start A { h.node with clockMs := clock } h.disk).InStep
        rw [Node.InStep, hconf, hreq]
        split
        · intro hjoint
          rw [isJoint_fallbackConfig] at hjoint
          exact absurd hjoint Bool.false_ne_true
        · rename_i hback
          rw [Bool.not_eq_true] at hback
          intro hjoint
          have hsame := hh.stored hjoint hback
          rw [hsame] at hjoint ⊢
          exact hh.node hjoint
      · change _ → h.disk.fallsBack
          (Node.start A { h.node with clockMs := clock } h.disk).config.learner = false →
          _ = (Node.start A { h.node with clockMs := clock } h.disk).configState
        rw [hconf, hlearner]
        intro _ hback
        rw [show h.disk.fallsBack ({ h.node with clockMs := clock } : Node σ).config.learner
          = false from hback]
        rfl
  | request members _ =>
      rcases requestMembershipChange_cases h.node members with hreq | ⟨b, hreq⟩
      · refine hh.same hs rfl ?_
        rw [hreq]
        exact SameMembership.refl _
      · by_cases hlead : h.node.isLeader = true
        · refine ⟨hs, ?_, ?_⟩
          · rw [hreq]
            intro hjoint
            exact absurd (hjoint.symm.trans (hheld hlead)) (by simp)
          · rw [hreq]
            exact hh.stored
        · refine hh.same hs rfl ?_
          rw [Node.requestMembershipChange, if_pos (by simpa using hlead)]
          exact SameMembership.refl _
  | resetForJoin clock user _ =>
      have hempty : (Node.resetForJoin
          { h.node with clockMs := clock, user := user }).1.configState.isJoint = false := rfl
      exact ⟨hs, fun hjoint => absurd (hjoint.symm.trans hempty) (by simp),
        fun _ _ => configState_save hs.node hs.sound.node hfit⟩
  | crash => exact Host.InStep.restart ha.2 hheld hs
  | crashInDump | crashInReset => exact Host.InStep.restart ha.2.1 hheld hs

/-! ### Runs -/

/-- **Joint consensus leaves as it entered** in every run without a request during a change and
without a restart in the middle of one. -/
theorem leavesAsEntered_of_heldAct (A : Application σ) {config : NodeConfig} (hc : config.Steady)
    (user : σ) (clock : ℤ) {h : Host σ}
    (hrun : Run (Host.step A) (fun h a => MembershipAct A h a ∧ HeldAct A h a)
      (Host.boot A config user clock) h) :
    LeavesAsEntered (h.node.commitAndApply A).1 := by
  have hh : h.InStep := hrun.invariant (fun _ _ _ hh ha hs => by
    obtain ⟨e, he⟩ := exec_of_step hs
    exact inStep_exec hh ha.1 ha.2 he) (inStep_boot hc user clock)
  have hin := hh.steady.sound.node.inside
  exact (hh.node.commitAndApply hin).leaves (hh.steady.node.commitAndApply hin)

/-! ### A change of one member -/

/-- A node that is its own cluster. -/
def soloConfig : NodeConfig :=
  { nodeId := n1, peers := [], initialMembers := [n1], learner := false
    electionTimeoutMs := 1, heartbeatIntervalMs := 10 }

lemma steady_solo : soloConfig.Steady := by
  refine ⟨by decide, ?_, by simp [soloConfig]⟩
  intro id hid
  simp only [soloConfig, List.mem_singleton] at hid
  rw [hid]
  decide

/-- `n1` leads, asks for `n2` and enters the joint configuration. -/
def enteredJoint : List (HostAct UInt8) :=
  hostTick 1 [] [] ++ hostTick 1 [] [] ++ [.request [n1, n2]] ++ hostTick 1 [] [] ++
    hostTick 1 [] []

/-- The node is about to write an entry with that operation and value. -/
def drives (A : Application σ) (h : Host σ) (op value : CString) : Bool :=
  ((h.node.commitAndApply A).1.maybeDriveMembership.log.drop
    (h.node.commitAndApply A).1.log.length).any fun e =>
      decide ((h.node.commitAndApply A).1.maybeDriveMembership.log =
        (h.node.commitAndApply A).1.log ++ [e]) &&
      decide (e.command.op = op) && decide (e.command.value = value)

lemma drives_spec {h : Host σ} {op value : CString} (hd : drives A h op value = true) :
    ∃ e : LogEntry, (h.node.commitAndApply A).1.maybeDriveMembership.log =
      (h.node.commitAndApply A).1.log ++ [e] ∧ e.command.op = op ∧ e.command.value = value := by
  rw [drives, List.any_eq_true] at hd
  obtain ⟨e, -, he⟩ := hd
  simp only [Bool.and_eq_true, decide_eq_true_eq] at he
  exact ⟨e, he.1.1, he.1.2, he.2⟩

/-- A change that nobody disturbs. -/
theorem leavesAsEntered_undisturbed : ∃ (h : Host UInt8) (e : LogEntry),
    Run (Host.step counter) (fun h a => MembershipAct counter h a ∧ HeldAct counter h a)
      (Host.boot counter soloConfig 0 0) h ∧
    (h.node.commitAndApply counter).1.maybeDriveMembership.log =
      (h.node.commitAndApply counter).1.log ++ [e] ∧ e.command.op = opLeaveJoint ∧
    normalizeMembers (decodeMemberList e.command.value maxNodes) maxNodes =
      (h.node.commitAndApply counter).1.configState.newMembers := by
  have hexec : (execAll (Host.step counter)
      (fun h a => decide (MembershipAct counter h a ∧ HeldAct counter h a))
      (Host.boot counter soloConfig 0 0)
      (enteredJoint ++ openTick 1 [appendAnswer n2 n1 1 true 1] [])).any
      (fun h => drives counter h opLeaveJoint "n1,n2".toList) = true := by
    decide +kernel
  obtain ⟨h, hrun, hd⟩ := Run.exists_of_execAll hexec
  obtain ⟨e, he, hop, -⟩ := drives_spec hd
  have hrun' := hrun.mono (fun _ _ => of_decide_eq_true)
  exact ⟨h, e, hrun', he, hop,
    (leavesAsEntered_of_heldAct counter steady_solo 0 0 hrun' e he hop).2⟩

/-- **A request during the change**: `n1` has entered the configuration with `n2` and leaves it to
one with `n3`. -/
theorem leaves_elsewhere : ¬ ∀ h : Host UInt8,
    Run (Host.step counter) (MembershipAct counter) (Host.boot counter soloConfig 0 0) h →
      LeavesAsEntered (h.node.commitAndApply counter).1 := by
  intro hall
  have hexec : (execAll (Host.step counter) (fun h a => decide (MembershipAct counter h a))
      (Host.boot counter soloConfig 0 0)
      (enteredJoint ++ [.request [n1, n3]] ++ openTick 1 [appendAnswer n2 n1 1 true 1] [])).any
      (fun h => drives counter h opLeaveJoint "n1,n3".toList &&
        decide ((h.node.commitAndApply counter).1.configState.newMembers = [n1, n2])) = true := by
    decide +kernel
  obtain ⟨h, hrun, hd⟩ := Run.exists_of_execAll hexec
  rw [Bool.and_eq_true, decide_eq_true_eq] at hd
  obtain ⟨e, he, hop, hvalue⟩ := drives_spec hd.1
  have hleave := (hall h (hrun.mono fun _ _ => of_decide_eq_true) e he hop).2
  rw [hvalue, hd.2] at hleave
  exact absurd hleave (by decide +kernel)

end RaftRx.C
