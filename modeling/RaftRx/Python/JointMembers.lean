import RaftRx.Python.Compaction

/-!
The members a joint configuration of a Python node leaves to.

`_append_final_config` writes `pending_configuration_members`, and nothing in it compares them with
the configuration.  The request API, two actions, two apply handlers and the load write the three
fields involved; the configuration becomes joint only where the pending members are set with it.

* `normalizeMembers_idem`: `normalize_members` of its own result;
* `Node.LeavesToNew`: the invariant, the pending members of a joint configuration are its new ones;
* `Pinned`: a change that touches neither; every phase but applying is one;
* `leavesToNew_applyAll`, `leavesToNew_next`: what keeps the invariant;
* `joint_leaves_to_new`: the invariant in every state, and what `_append_final_config` appends.
-/

namespace RaftRx.Python

open Protocol (Role)

variable {σ ν : Type} {E : Env σ ν} {F : Disk ν} {x x' y : Node σ ν} {m : Message}

/-! ### Normal member lists -/

/-- The loop of `normalize_members`. -/
def collected (members : List Str) : List Str :=
  members.foldl (fun ms m => if m ≠ [] ∧ m ∉ ms then ms ++ [m] else ms) []

/-- What is collected is nonempty and without repetitions. -/
lemma foldl_collect (members : List Str) : ∀ ms : List Str, ms.Nodup → (∀ m ∈ ms, m ≠ []) →
    (members.foldl (fun ms m => if m ≠ [] ∧ m ∉ ms then ms ++ [m] else ms) ms).Nodup ∧
    ∀ m ∈ members.foldl (fun ms m => if m ≠ [] ∧ m ∉ ms then ms ++ [m] else ms) ms, m ≠ [] := by
  induction members with
  | nil => exact fun ms hnd hne => ⟨hnd, hne⟩
  | cons a members ih =>
      intro ms hnd hne
      rw [List.foldl_cons]
      split
      · rename_i ha
        refine ih _ ?_ ?_
        · exact List.nodup_append.mpr ⟨hnd, List.nodup_singleton a, fun b hb c hc hbc => ha.2
            (by rw [← List.mem_singleton.mp hc, ← hbc]; exact hb)⟩
        · intro b hb
          rcases List.mem_append.mp hb with hb | hb
          · exact hne b hb
          · rw [List.mem_singleton.mp hb]
            exact ha.1
      · exact ih ms hnd hne

/-- A list without repetitions and without empty members is collected as it is. -/
lemma foldl_collect_self (members : List Str) : ∀ ms : List Str, (ms ++ members).Nodup →
    (∀ m ∈ members, m ≠ []) →
    members.foldl (fun ms m => if m ≠ [] ∧ m ∉ ms then ms ++ [m] else ms) ms = ms ++ members := by
  induction members with
  | nil => exact fun ms _ _ => (List.append_nil ms).symm
  | cons a members ih =>
      intro ms hnd hne
      have hfresh : a ∉ ms := fun ha =>
        (List.nodup_append.mp hnd).2.2 a ha a List.mem_cons_self rfl
      rw [List.foldl_cons, if_pos ⟨hne a List.mem_cons_self, hfresh⟩,
        ih (ms ++ [a]) (by simpa using hnd) fun m hm => hne m (List.mem_cons_of_mem a hm)]
      simp

/-- **Normal members are normalized to themselves.** -/
lemma normalizeMembers_idem (members : List Str) :
    ClusterConfiguration.normalizeMembers (ClusterConfiguration.normalizeMembers members) =
      ClusterConfiguration.normalizeMembers members := by
  obtain ⟨hnd, hne⟩ := foldl_collect members [] List.nodup_nil (by simp)
  have hperm : (ClusterConfiguration.normalizeMembers members).Perm (collected members) :=
    List.perm_insertionSort _ _
  have hself : collected (ClusterConfiguration.normalizeMembers members) =
      ClusterConfiguration.normalizeMembers members :=
    foldl_collect_self _ [] (hperm.nodup_iff.mpr hnd) fun m hm => hne m (hperm.mem_iff.mp hm)
  have hsorted : (ClusterConfiguration.normalizeMembers members).Pairwise (· ≤ ·) :=
    List.pairwise_insertionSort _ _
  calc ClusterConfiguration.normalizeMembers (ClusterConfiguration.normalizeMembers members)
      = (collected (ClusterConfiguration.normalizeMembers members)).insertionSort (· ≤ ·) := rfl
    _ = (ClusterConfiguration.normalizeMembers members).insertionSort (· ≤ ·) := by rw [hself]
    _ = ClusterConfiguration.normalizeMembers members := hsorted.insertionSort_eq

/-! ### The invariant -/

/-- **The invariant**: the pending members of a joint configuration are its new members, and these
are normal. -/
def Node.LeavesToNew (x : Node σ ν) : Prop :=
  ∀ new, x.configState.newMembers = some new → x.pendingConfigurationMembers = some new ∧
    ClusterConfiguration.normalizeMembers new = new

/-- A change that touches neither the configuration nor the pending members. -/
structure Pinned (x y : Node σ ν) : Prop where
  configState : y.configState = x.configState
  members : y.pendingConfigurationMembers = x.pendingConfigurationMembers

lemma Pinned.refl (x : Node σ ν) : Pinned x x := ⟨rfl, rfl⟩

lemma Pinned.trans (h : Pinned x x') (h' : Pinned x' y) : Pinned x y :=
  ⟨h'.configState.trans h.configState, h'.members.trans h.members⟩

lemma Pinned.leavesToNew (h : Pinned x y) (hx : x.LeavesToNew) : y.LeavesToNew := by
  intro new hnew
  rw [h.members]
  exact hx new (h.configState ▸ hnew)

/-- A loop of pinned steps is pinned. -/
lemma Pinned.foldlM {β : Type} {f : Node σ ν → β → Option (Node σ ν)} {l : List β}
    (hf : ∀ b x y, f x b = some y → Pinned x y) (h : l.foldlM f x = some y) : Pinned x y :=
  foldlM_invariant (I := fun z => Pinned x z)
    (fun b _ z z' hz hz' => hz.trans (hf b z z' hz')) (Pinned.refl x) h

/-! ### The phases that leave both alone -/

lemma pinned_handleTermUpdate (x : Node σ ν) (m : Message) : Pinned x (x.handleTermUpdate m) := by
  rw [Node.handleTermUpdate]
  split <;> exact ⟨rfl, rfl⟩

lemma pinned_handleRequestVote (x : Node σ ν) (m : Message) : Pinned x (x.handleRequestVote m) := by
  refine (pinned_handleTermUpdate x m).trans ?_
  rw [Node.handleRequestVote, Node.answerRequestVote]
  cases (x.handleTermUpdate m).grantsVote m <;> exact ⟨rfl, rfl⟩

lemma pinned_handleRequestVoteResponse (x : Node σ ν) (m : Message) :
    Pinned x (x.handleRequestVoteResponse m) := by
  refine (pinned_handleTermUpdate x m).trans ?_
  rw [Node.handleRequestVoteResponse, Node.collectVote]
  split
  · exact Pinned.refl _
  · split <;> exact ⟨rfl, rfl⟩

lemma pinned_sendAppendEntries {peer : Str} (h : x.sendAppendEntries peer = some y) :
    Pinned x y := by
  obtain ⟨m, -, rfl⟩ := sendAppendEntries_cases h
  exact ⟨rfl, rfl⟩

lemma pinned_broadcast (h : x.broadcastAppendEntries = some y) : Pinned x y :=
  Pinned.foldlM (fun _ _ _ => pinned_sendAppendEntries) h

lemma pinned_advanceCommitIndex (h : x.advanceCommitIndex = some y) : Pinned x y := by
  rcases advanceCommitIndex_cases h with rfl | ⟨i, -, -, -, -, rfl⟩
  · exact Pinned.refl y
  · exact ⟨rfl, rfl⟩

lemma pinned_appendClientCommand {command : Command} (h : x.appendClientCommand command = some y) :
    Pinned x y := by
  obtain ⟨z, hz, hy⟩ := Option.bind_eq_some_iff.mp h
  have happend : Pinned x (x.appendEntry command) := ⟨rfl, rfl⟩
  exact (happend.trans (pinned_advanceCommitIndex hz)).trans (pinned_broadcast hy)

/-- A command is appended as the next entry. -/
lemma log_appendClientCommand {command : Command} (h : x.appendClientCommand command = some y) :
    y.log = x.log ++ [{ index := x.lastLogIndex + 1, term := x.currentTerm, command := command
                        leaderId := x.config.nodeId }] := by
  obtain ⟨z, hz, hy⟩ := Option.bind_eq_some_iff.mp h
  have hlog : z.log = (x.appendEntry command).log := by
    rcases advanceCommitIndex_cases hz with rfl | ⟨i, -, -, -, -, rfl⟩ <;> rfl
  refine broadcastAppendEntries_induct (I := fun w => w.log = (x.appendEntry command).log)
    (fun w w' peer _ hw hw' => ?_) hlog hy
  obtain ⟨m, -, rfl⟩ := sendAppendEntries_cases hw'
  exact hw

lemma pinned_handleAppendEntriesResponse (h : x.handleAppendEntriesResponse m = some y) :
    Pinned x y := by
  refine (pinned_handleTermUpdate x m).trans ?_
  rw [Node.handleAppendEntriesResponse, Node.takeAnswer] at h
  split_ifs at h
  · rw [Option.some.injEq] at h
    exact h ▸ Pinned.refl _
  · have hrecord : Pinned (x.handleTermUpdate m) ((x.handleTermUpdate m).recordMatch m) :=
      ⟨rfl, rfl⟩
    exact hrecord.trans (pinned_advanceCommitIndex h)
  · obtain ⟨z, hz, hy⟩ := Option.bind_eq_some_iff.mp h
    obtain ⟨next, -, rfl⟩ := Option.map_eq_some_iff.mp hz
    have hback : Pinned (x.handleTermUpdate m) { x.handleTermUpdate m with
        nextIndex := (x.handleTermUpdate m).nextIndex.set m.source (max 1 (next - 1)) } :=
      ⟨rfl, rfl⟩
    exact hback.trans (pinned_sendAppendEntries hy)

lemma pinned_appendEntriesFromLeader {success : Bool}
    (h : x.appendEntriesFromLeader E F m = some (y, success)) : Pinned x y := by
  rcases appendEntriesFromLeader_cases h with ⟨rfl, -⟩ | ⟨z, rebuild, -, -, hz, rfl⟩
  · exact Pinned.refl y
  · obtain ⟨L, d, rfl, -⟩ := rewritten_mergeEntries hz
    obtain ⟨commit, user, applied, d', heq, -⟩ := settleCommit_eq (E := E) (F := F)
      { x with log := L, persistDirty := d } rebuild m.leaderCommit
    rw [heq]
    exact ⟨rfl, rfl⟩

lemma pinned_handleAppendEntries (h : x.handleAppendEntries E F m = some y) : Pinned x y := by
  refine (pinned_handleTermUpdate x m).trans ?_
  rw [Node.handleAppendEntries, Node.takeBatch] at h
  split at h
  · obtain ⟨⟨z, success⟩, hz, h⟩ := Option.bind_eq_some_iff.mp h
    rw [Option.some.injEq] at h
    have hheard : Pinned (x.handleTermUpdate m)
        (Node.contact { x.handleTermUpdate m with leaderId := some m.source }) := ⟨rfl, rfl⟩
    have hanswer : Pinned z (z.answerAppendEntries m success) := ⟨rfl, rfl⟩
    exact h ▸ (hheard.trans (pinned_appendEntriesFromLeader hz)).trans hanswer
  · rw [Option.some.injEq] at h
    exact h ▸ ⟨rfl, rfl⟩

lemma pinned_latchMessage (h : x.latchMessage m = some y) : Pinned x y := by
  rw [Node.latchMessage] at h
  split at h
  case h_4 => exact pinned_handleAppendEntriesResponse h
  all_goals
    rw [Option.some.injEq] at h
    exact h ▸ ⟨rfl, rfl⟩

/-- **A latch.** -/
lemma pinned_latchInputs {ms : List Message} {cs : List Command}
    (h : x.latchInputs ms cs = some y) : Pinned x y := by
  rw [Node.latchInputs] at h
  split at h
  · obtain ⟨z, hz, h⟩ := Option.bind_eq_some_iff.mp h
    have hlatch : Pinned x z := Pinned.foldlM (fun _ _ _ => pinned_latchMessage) hz
    split at h
    · exact hlatch.trans (Pinned.foldlM (fun _ _ _ => pinned_appendClientCommand) h)
    · rw [Option.some.injEq] at h
      exact h ▸ hlatch
  · rw [Option.some.injEq] at h
    exact h ▸ Pinned.refl x

lemma pinned_handleNextAppendEntries (h : x.handleNextAppendEntries E F = some y) :
    Pinned x y := by
  rw [Node.handleNextAppendEntries] at h
  split at h
  · rw [Option.some.injEq] at h
    exact h ▸ Pinned.refl x
  · rename_i m rest _
    have hpop : Pinned x { x with pendingAppendEntries := rest } := ⟨rfl, rfl⟩
    exact hpop.trans (pinned_handleAppendEntries h)

lemma pinned_handleNextVoteRequest (x : Node σ ν) : Pinned x x.handleNextVoteRequest := by
  rw [Node.handleNextVoteRequest]
  split
  · exact Pinned.refl x
  · rename_i m rest _
    have hpop : Pinned x { x with pendingVoteRequests := rest } := ⟨rfl, rfl⟩
    exact hpop.trans (pinned_handleRequestVote _ m)

lemma pinned_handleNextVote (h : x.handleNextVote = some y) : Pinned x y := by
  rw [Node.handleNextVote] at h
  split at h
  · rw [Option.some.injEq] at h
    exact h ▸ Pinned.refl x
  · rename_i m rest _
    have hpop : Pinned x { x with pendingVotes := rest } := ⟨rfl, rfl⟩
    dsimp only at h
    split at h
    · rw [Option.some.injEq] at h
      exact h ▸ hpop.trans (pinned_handleRequestVoteResponse _ m)
    · exact hpop.trans (pinned_handleAppendEntriesResponse h)
    · rw [Option.some.injEq] at h
      exact h ▸ hpop

lemma pinned_ignoreVote (h : x.ignoreVote = some y) : Pinned x y := by
  rw [Node.ignoreVote] at h
  split at h
  · rw [Option.some.injEq] at h
    exact h ▸ Pinned.refl x
  · rename_i m rest _
    have hpop : Pinned x { x with pendingVotes := rest } := ⟨rfl, rfl⟩
    split at h
    · exact hpop.trans (pinned_handleAppendEntriesResponse h)
    · rw [Option.some.injEq] at h
      exact h ▸ hpop

lemma pinned_heartbeat (h : x.broadcastAppendEntries.map Node.scheduleHeartbeat = some y) :
    Pinned x y := by
  obtain ⟨z, hz, rfl⟩ := Option.map_eq_some_iff.mp h
  have hschedule : Pinned z z.scheduleHeartbeat := ⟨rfl, rfl⟩
  exact (pinned_broadcast hz).trans hschedule

/-- The actions of the role machine. -/
lemma pinned_perform {action : Node.RoleAction} (h : x.perform E F action = some y) :
    Pinned x y := by
  cases action with
  | becomeCandidate =>
      rw [Node.perform, Option.some.injEq] at h
      exact h ▸ ⟨rfl, rfl⟩
  | backToFollowerDueToTimeout =>
      rw [Node.perform, Option.some.injEq] at h
      exact h ▸ ⟨rfl, rfl⟩
  | becomeLeader =>
      have hlead : Pinned x x.lead := ⟨rfl, rfl⟩
      exact hlead.trans (pinned_heartbeat h)
  | handleNextAppendEntries => exact pinned_handleNextAppendEntries h
  | handleNextVoteRequest =>
      rw [Node.perform, Option.some.injEq] at h
      exact h ▸ pinned_handleNextVoteRequest x
  | handleNextVote => exact pinned_handleNextVote h
  | ignoreVoteRequest =>
      rw [Node.perform, Option.some.injEq] at h
      exact h ▸ pinned_handleNextVoteRequest x
  | ignoreVote => exact pinned_ignoreVote h
  | sendHeartbeat => exact pinned_heartbeat h

/-- **A transition of the role machine.** -/
lemma pinned_transition (h : x.transition E F = some y) : Pinned x y := by
  rw [Node.transition] at h
  split at h
  · rw [Option.some.injEq] at h
    exact h ▸ Pinned.refl x
  · rename_i t _
    have hpublish : Pinned x { x with role := t.toState } := ⟨rfl, rfl⟩
    exact hpublish.trans (pinned_perform h)

/-- **A move of the compaction machine.** -/
lemma pinned_compactionTransition {writes : List (Write ν)}
    (h : x.compactionTransition E = some (y, writes)) : Pinned x y := by
  rw [Node.compactionTransition] at h
  split at h
  · simp only [Option.some.injEq, Prod.mk.injEq] at h
    exact h.1 ▸ Pinned.refl x
  · dsimp only at h
    split at h
    · simp only [Option.some.injEq, Prod.mk.injEq] at h
      exact h.1 ▸ ⟨rfl, rfl⟩
    · obtain ⟨z, hz, h⟩ := Option.map_eq_some_iff.mp h
      simp only [Prod.mk.injEq] at h
      obtain ⟨term, -, hz⟩ := Option.bind_eq_some_iff.mp hz
      rw [Option.some.injEq] at hz
      exact h.1 ▸ hz ▸ ⟨rfl, rfl⟩
    · simp only [Option.some.injEq, Prod.mk.injEq] at h
      rw [← h.1, Node.finishCompaction, Node.truncateLogPrefixThrough]
      split_ifs <;> exact ⟨rfl, rfl⟩

/-! ### Applying -/

/-- **Entering**: the pending members are set with the configuration. -/
lemma leavesToNew_applyEnterJoint {command : Command} (hx : x.LeavesToNew)
    (h : x.applyEnterJoint E command = some y) : y.LeavesToNew := by
  obtain ⟨encoded, -, h⟩ := Option.bind_eq_some_iff.mp h
  obtain ⟨target, htarget, h⟩ := Option.bind_eq_some_iff.mp h
  split at h
  · rw [Option.some.injEq] at h
    exact h ▸ hx
  · rw [Option.some.injEq] at h
    obtain ⟨members, -, rfl⟩ := Option.map_eq_some_iff.mp htarget
    subst h
    intro new hnew
    change some (ClusterConfiguration.normalizeMembers
      (ClusterConfiguration.normalizeMembers members)) = some new at hnew
    rw [normalizeMembers_idem, Option.some.injEq] at hnew
    subst hnew
    exact ⟨rfl, normalizeMembers_idem members⟩

/-- **Leaving** ends in a configuration that is not joint. -/
lemma leavesToNew_applyLeaveJoint {command : Command} (hx : x.LeavesToNew)
    (h : x.applyLeaveJoint E command = some y) : y.LeavesToNew := by
  obtain ⟨encoded, -, h⟩ := Option.bind_eq_some_iff.mp h
  obtain ⟨target, -, h⟩ := Option.bind_eq_some_iff.mp h
  split at h
  · rw [Option.some.injEq] at h
    exact h ▸ hx
  · rw [Option.some.injEq] at h
    subst h
    intro new hnew
    split at hnew <;> exact absurd hnew (by simp [Node.stop, Node.refreshMembershipState,
      ClusterConfiguration.stable])

lemma leavesToNew_applyCommittedCommand {command : Command} (hx : x.LeavesToNew)
    (h : x.applyCommittedCommand E command = some y) : y.LeavesToNew := by
  rw [Node.applyCommittedCommand] at h
  split_ifs at h
  · obtain ⟨value, -, h⟩ := Option.bind_eq_some_iff.mp h
    obtain ⟨threshold, -, h⟩ := Option.bind_eq_some_iff.mp h
    rw [Option.some.injEq] at h
    exact h ▸ hx
  · exact leavesToNew_applyEnterJoint hx h
  · exact leavesToNew_applyLeaveJoint hx h
  · obtain ⟨user, -, rfl⟩ := Option.map_eq_some_iff.mp h
    exact hx

/-- **The apply loop**, after any number of rounds. -/
lemma leavesToNew_applyAll : ∀ {k : ℕ} {x : Node σ ν}, x.LeavesToNew →
    (Node.applyAll E k x).2 = some y → y.LeavesToNew
  | 0, x, hx, h => by
      rw [Node.applyAll, Option.some.injEq] at h
      exact h ▸ hx
  | k + 1, x, hx, h => by
      rw [Node.applyAll] at h
      split at h
      · dsimp only at h
        split at h
        · exact absurd h (by simp)
        · split at h
          · exact absurd h (by simp)
          · rename_i y' hy'
            have hnext : Node.LeavesToNew { x with lastApplied := x.lastApplied + 1 } := hx
            exact leavesToNew_applyAll (leavesToNew_applyCommittedCommand hnext hy') h
      · rw [Option.some.injEq] at h
        exact h ▸ hx

/-- **A dump.** -/
lemma leavesToNew_dumpOutputs (hx : x.LeavesToNew) (h : (x.dumpOutputs E).node = some y) :
    y.LeavesToNew := by
  rcases dumpOutputs_cases h with ⟨-, rfl, -⟩ | ⟨-, z, hz, rfl, -⟩
  · exact hx
  · have hsaved : x.saved.LeavesToNew := hx
    have happlied : z.LeavesToNew := leavesToNew_applyAll hsaved hz
    exact happlied

/-! ### Loading and the membership machine -/

/-- **A load** takes up a joint configuration where it was left. -/
lemma leavesToNew_loadFromStorage (x : Node σ ν) : (x.loadFromStorage E F).LeavesToNew := by
  intro new hnew
  refine ⟨hnew, ?_⟩
  change (Node.loadedConfiguration x.config F.load).newMembers = some new at hnew
  rw [Node.loadedConfiguration] at hnew
  split at hnew
  · split at hnew
    · exact absurd hnew (by simp [ClusterConfiguration.stable])
    · rename_i members _
      change some (ClusterConfiguration.normalizeMembers members) = some new at hnew
      rw [Option.some.injEq] at hnew
      exact hnew ▸ normalizeMembers_idem members
  · exact absurd hnew (by simp [ClusterConfiguration.stable])

/-- A configuration that is not joint has nothing to leave to. -/
lemma leavesToNew_of_stable (h : x.configState.isJoint = false) : x.LeavesToNew := by
  intro new hnew
  rw [ClusterConfiguration.isJoint, hnew] at h
  exact absurd h (by simp)

/-- **What `_append_final_config` appends**: a command with the new members of the configuration. -/
lemma appendFinalConfig_eq (hx : x.LeavesToNew)
    (hnext : x.nextMembership.map TransitionSpec.action = some .appendFinalConfig) :
    ∃ new, x.configState.newMembers = some new ∧ x.membershipTransition E =
      Node.appendClientCommand
        { x with membershipState := .finalizing, finalConfigIndex := x.lastLogIndex + 1 }
        (Node.configCommand E "cluster.leave_joint" new) := by
  obtain ⟨t, ht, haction⟩ := Option.map_eq_some_iff.mp hnext
  obtain ⟨hmem, -, hguard⟩ := nextOf_spec ht
  simp only [Node.membershipTransitions, List.mem_cons, List.not_mem_nil, or_false] at hmem
  rcases hmem with rfl | rfl | rfl | rfl
  · exact absurd haction (by simp)
  · exact absurd haction (by simp)
  · simp only [Node.canFinalizeJoint, Bool.and_eq_true, ClusterConfiguration.isJoint] at hguard
    obtain ⟨new, hnew⟩ := Option.isSome_iff_exists.mp hguard.1.1.2
    refine ⟨new, hnew, ?_⟩
    rw [Node.membershipTransition, ht]
    change Node.appendFinalConfig E { x with membershipState := .finalizing } = _
    rw [Node.appendFinalConfig, (hx new hnew).1]
    rfl
  · exact absurd haction (by simp)

/-- **A move of the membership machine**: a change begins, and its state is cleared, in a stable
configuration only. -/
lemma leavesToNew_membershipTransition (hx : x.LeavesToNew)
    (h : x.membershipTransition E = some y) : y.LeavesToNew := by
  cases hnext : x.nextMembership with
  | none =>
      rw [Node.membershipTransition, hnext, Option.some.injEq] at h
      exact h ▸ hx
  | some t =>
      obtain ⟨hmem, -, hguard⟩ := nextOf_spec hnext
      rw [Node.membershipTransition, hnext] at h
      simp only [Node.membershipTransitions, List.mem_cons, List.not_mem_nil, or_false] at hmem
      rcases hmem with rfl | rfl | rfl | rfl
      · simp only [Node.hasMembershipChangeRequest, Bool.and_eq_true, Bool.not_eq_true'] at hguard
        refine leavesToNew_of_stable ?_
        change Node.beginMembershipChange E { x with membershipState := .jointPending } = some y at h
        rw [Node.beginMembershipChange] at h
        split at h
        · rw [Option.some.injEq] at h
          exact h ▸ hguard.1.2
        · rw [(pinned_appendClientCommand h).configState]
          exact hguard.1.2
      · rw [Option.some.injEq] at h
        exact h ▸ hx
      · have hfinal : Node.LeavesToNew { x with membershipState := .finalizing } := hx
        change Node.appendFinalConfig E { x with membershipState := .finalizing } = some y at h
        rw [Node.appendFinalConfig] at h
        split at h
        · rw [Option.some.injEq] at h
          exact h ▸ hfinal
        · exact (pinned_appendClientCommand h).leavesToNew hfinal
      · simp only [Node.finalConfigCommitted, Bool.and_eq_true, Bool.not_eq_true'] at hguard
        rw [Option.some.injEq] at h
        exact h ▸ leavesToNew_of_stable hguard.1.1

/-! ### Runs -/

/-- **An act of a host** keeps the invariant. -/
lemma leavesToNew_next {h h' : Host σ ν} {a : HostAct σ} (hinv : h.node.LeavesToNew)
    (hnext : h.next E a = some h') : h'.node.LeavesToNew := by
  obtain ⟨⟨h'', sends⟩, hexec, rfl⟩ := Option.map_eq_some_iff.mp hnext
  rw [Host.exec] at hexec
  split at hexec
  · cases a with
    | latch clockMs ms cs =>
        obtain ⟨y, hy, heq⟩ := Option.map_eq_some_iff.mp hexec
        simp only [Prod.mk.injEq] at heq
        obtain ⟨rfl, -⟩ := heq
        have hclock : Pinned h.node { h.node with clockMs := clockMs } := ⟨rfl, rfl⟩
        exact (hclock.trans (pinned_latchInputs hy)).leavesToNew hinv
    | transition clockMs =>
        obtain ⟨y, hy, heq⟩ := Option.map_eq_some_iff.mp hexec
        simp only [Prod.mk.injEq] at heq
        obtain ⟨rfl, -⟩ := heq
        have hclock : Pinned h.node { h.node with clockMs := clockMs } := ⟨rfl, rfl⟩
        exact (hclock.trans (pinned_transition hy)).leavesToNew hinv
    | dump =>
        obtain ⟨y, hy, heq⟩ := Option.map_eq_some_iff.mp hexec
        simp only [Prod.mk.injEq] at heq
        obtain ⟨rfl, -⟩ := heq
        exact leavesToNew_dumpOutputs hinv hy
    | compaction =>
        obtain ⟨⟨y, writes⟩, hy, heq⟩ := Option.map_eq_some_iff.mp hexec
        simp only [Prod.mk.injEq] at heq
        obtain ⟨rfl, -⟩ := heq
        exact (pinned_compactionTransition hy).leavesToNew hinv
    | membership =>
        obtain ⟨y, hy, heq⟩ := Option.map_eq_some_iff.mp hexec
        simp only [Prod.mk.injEq] at heq
        obtain ⟨rfl, -⟩ := heq
        exact leavesToNew_membershipTransition hinv hy
    | request members =>
        simp only [Host.run, Option.some.injEq, Prod.mk.injEq] at hexec
        obtain ⟨rfl, -⟩ := hexec
        exact hinv
    | stop =>
        simp only [Host.run, Option.some.injEq, Prod.mk.injEq] at hexec
        obtain ⟨rfl, -⟩ := hexec
        exact hinv
    | start clockMs =>
        simp only [Host.run, Option.some.injEq, Prod.mk.injEq] at hexec
        obtain ⟨rfl, -⟩ := hexec
        exact leavesToNew_loadFromStorage (E := E) { h.node with clockMs := clockMs }
    | crash user clockMs =>
        simp only [Host.run, Option.some.injEq, Prod.mk.injEq] at hexec
        obtain ⟨rfl, -⟩ := hexec
        exact leavesToNew_loadFromStorage _
    | crashInDump i j user clockMs =>
        simp only [Host.run, Option.some.injEq, Prod.mk.injEq] at hexec
        obtain ⟨rfl, -⟩ := hexec
        exact leavesToNew_loadFromStorage _
  · exact absurd hexec (by simp)

/-- **A joint configuration is left for the one it entered**: in every state of every run, the
pending members of a joint configuration are its new members, also after some rounds of the apply
loop, and what `_append_final_config` appends next encodes exactly these members. -/
theorem joint_leaves_to_new (E : Env σ ν) (config : NodeConfig) (disk : Disk ν) (user : σ)
    (clockMs : ℤ) (h : Host σ ν)
    (hrun : Run (Host.next E) (fun _ _ => True)
      { config := config, node := Node.init E config disk user clockMs, disk := disk
        phase := .idle } h) :
    (∀ new, h.node.configState.newMembers = some new →
      h.node.pendingConfigurationMembers = some new) ∧
    (∀ k y, (Node.applyAll E k h.node.saved).2 = some y →
      ∀ new, y.configState.newMembers = some new → y.pendingConfigurationMembers = some new) ∧
    (h.node.nextMembership.map TransitionSpec.action = some .appendFinalConfig →
      ∃ new, h.node.configState.newMembers = some new ∧
        h.node.membershipTransition E = Node.appendClientCommand
          { h.node with membershipState := .finalizing, finalConfigIndex := h.node.lastLogIndex + 1 }
          (Node.configCommand E "cluster.leave_joint" new) ∧
        (∀ y, h.node.membershipTransition E = some y → ∃ e, y.log = h.node.log ++ [e] ∧
          e.command = Node.configCommand E "cluster.leave_joint" new) ∧
        (E.loads (E.dumps new) = some new → Node.decodeMembers E (E.dumps new) = some new)) := by
  have hinv : h.node.LeavesToNew :=
    hrun.invariant (I := fun g => g.node.LeavesToNew)
      (fun _ _ _ hg _ hnext => leavesToNew_next hg hnext) (leavesToNew_loadFromStorage _)
  refine ⟨fun new hnew => (hinv new hnew).1, fun k y hy new hnew => ?_, fun hnext => ?_⟩
  · have hsaved : h.node.saved.LeavesToNew := hinv
    exact (leavesToNew_applyAll hsaved hy new hnew).1
  · obtain ⟨new, hnew, heq⟩ := appendFinalConfig_eq (E := E) hinv hnext
    refine ⟨new, hnew, heq, fun y hy => ?_, fun hloads => ?_⟩
    · rw [heq] at hy
      have hlog := log_appendClientCommand hy
      exact ⟨_, hlog, rfl⟩
    · rw [Node.decodeMembers, hloads, Option.map_some, (hinv new hnew).2]

/-- An id in quotation marks. -/
def quoted (id : Str) : Str := Char.ofNat 34 :: id ++ [Char.ofNat 34]

/-- `json.dumps` of a list of ids. -/
def dumpIds (ids : List Str) : Str := '[' :: (", ".toList).intercalate (ids.map quoted) ++ [']']

/-- An application without a state, with `json` on the lists of ids that occur below. -/
def jsonPair : Env Unit Unit :=
  { quiet with
    dumps := dumpIds
    loads := fun s => if s = dumpIds [n1, n2] then some [n1, n2] else none }

/-- `n1`, alone, is elected and enters the configuration with `n2`, which then catches up. -/
def joinSecond : List (HostAct Unit) :=
  hostTick 5 [] [] ++ hostTick 5 [] [] ++ [.request [n2, n1], .membership] ++ hostTick 5 [] [] ++
    [.latch 5 [appendAnswer n2 n1 1 true 1] []]

/-- The leader of a cluster of one that takes in a second node leaves the joint configuration for
both of them. -/
theorem joint_leaves_to_second : ∃ h y e, Run (Host.next jsonPair) (fun _ _ => True)
      (Host.boot jsonPair (impatient [n1] n1) () 0) h ∧
    h.node.configState.newMembers = some [n1, n2] ∧
    h.node.pendingConfigurationMembers = some [n1, n2] ∧
    h.node.membershipTransition jsonPair = some y ∧ y.log = h.node.log ++ [e] ∧
    e.command = Node.configCommand jsonPair "cluster.leave_joint" [n1, n2] := by
  have hexec : (execAll (Host.next jsonPair) (fun _ _ => true)
      (Host.boot jsonPair (impatient [n1] n1) () 0) joinSecond).any (fun h =>
        decide (h.node.configState.newMembers = some [n1, n2]) &&
        decide (h.node.nextMembership.map TransitionSpec.action = some .appendFinalConfig) &&
        (h.node.membershipTransition jsonPair).isSome) = true := by
    decide +kernel
  obtain ⟨h, hrun, hq⟩ := Run.exists_of_execAll hexec
  simp only [Bool.and_eq_true, decide_eq_true_eq] at hq
  obtain ⟨⟨hnew, hnext⟩, hsome⟩ := hq
  obtain ⟨y, hy⟩ := Option.isSome_iff_exists.mp hsome
  have hrun' := hrun.mono (Q := fun _ _ => True) (fun _ _ _ => trivial)
  have hjoint := joint_leaves_to_new jsonPair (impatient [n1] n1) Disk.empty () 0 h hrun'
  obtain ⟨new, hnew', -, hlog, -⟩ := hjoint.2.2 hnext
  obtain ⟨e, he, hcommand⟩ := hlog y hy
  rw [hnew, Option.some.injEq] at hnew'
  exact ⟨h, y, e, hrun', hnew, hjoint.1 _ hnew, hy, he, hnew' ▸ hcommand⟩

end RaftRx.Python
