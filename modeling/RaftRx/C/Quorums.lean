import RaftRx.C.Tick
import RaftRx.Library.Majority

/-!
The quorums of a configuration (`guard_received_majority_votes`,
`node_is_committed_under_current_configuration`).

A candidate counts votes by looking the members up among the voters; a leader counts replicas by
its own log and the match indices of its peers.  Both counts run over the lists of the current
configuration, and no distinctness of a list is needed.

* `Node.countsReplica`: the members that `node_replicated_on_members` counts;
* `jointMajority_of_votes`, `jointMajority_of_replicas`: either test finds a majority of the old
  members, and of the new ones while the configuration is joint;
* `Adjacent`: two configurations one step of a membership change apart;
* `adjacent_quorums_meet`: quorums under adjacent configurations share a member.
-/

namespace RaftRx.C

variable {σ : Type*}

/-! ### The two counts -/

/-- A member that `node_replicated_on_members` counts. -/
def Node.countsReplica (node : Node σ) (candidateIndex : ℤ) (m : CString) : Bool :=
  if m = node.config.nodeId then decide (candidateIndex ≤ node.lastLogIndex)
  else match node.matchOf m with
    | none => false
    | some i => decide (candidateIndex ≤ i)

lemma Node.replicatedOnMembers_eq (node : Node σ) (candidateIndex : ℤ) (ms : List CString) :
    node.replicatedOnMembers candidateIndex ms =
      decide (memberMajority ms.length ≤ ms.countP (node.countsReplica candidateIndex)) := rfl

lemma ClusterConfiguration.isJoint_of_ne_nil {config : ClusterConfiguration}
    (h : config.newMembers ≠ []) : config.isJoint = true := by
  rw [ClusterConfiguration.isJoint, decide_eq_true_eq]
  exact List.length_pos_iff.mpr h

lemma Node.majority_of_hasVoteQuorum {node : Node σ} {ms : List CString}
    (h : node.hasVoteQuorum ms = true) : Majority ms {m | m ∈ node.votesReceived} := by
  rw [Node.hasVoteQuorum, decide_eq_true_eq] at h
  refine majority_of_countP h fun m _ hm => ?_
  rw [List.contains_iff_mem] at hm
  exact hm

lemma Node.majority_of_replicatedOnMembers {node : Node σ} {k : ℤ} {ms : List CString}
    (h : node.replicatedOnMembers k ms = true) :
    Majority ms {m | node.countsReplica k m = true} := by
  rw [Node.replicatedOnMembers_eq, decide_eq_true_eq] at h
  exact majority_of_countP h fun m _ hm => hm

/-- **`guard_received_majority_votes`** finds a quorum of the configuration. -/
lemma jointMajority_of_votes {node : Node σ} (h : node.guardReceivedMajorityVotes = true) :
    JointMajority node.configState.oldMembers node.configState.newMembers
      {m | m ∈ node.votesReceived} := by
  rw [Node.guardReceivedMajorityVotes, Bool.and_eq_true] at h
  refine ⟨Node.majority_of_hasVoteQuorum h.1, fun hne => Node.majority_of_hasVoteQuorum ?_⟩
  simpa [ClusterConfiguration.isJoint_of_ne_nil hne] using h.2

/-- **`node_is_committed_under_current_configuration`** finds a quorum of the configuration. -/
lemma jointMajority_of_replicas {node : Node σ} {k : ℤ}
    (h : node.isCommittedUnderCurrentConfiguration k = true) :
    JointMajority node.configState.oldMembers node.configState.newMembers
      {m | node.countsReplica k m = true} := by
  rw [Node.isCommittedUnderCurrentConfiguration, Bool.and_eq_true] at h
  refine ⟨Node.majority_of_replicatedOnMembers h.1, fun hne =>
    Node.majority_of_replicatedOnMembers ?_⟩
  simpa [ClusterConfiguration.isJoint_of_ne_nil hne] using h.2

/-! ### Adjacent configurations -/

/-- Two configurations one step of a membership change apart: the same one, on the way into the
change from `A` to `B`, with other new members, or on the way out. -/
inductive Adjacent (A B : List CString) : ClusterConfiguration → ClusterConfiguration → Prop
  | same (i j : ℤ) : Adjacent A B ⟨A, [], i⟩ ⟨A, [], j⟩
  | enter (i j : ℤ) : Adjacent A B ⟨A, [], i⟩ ⟨A, B, j⟩
  | amend (B' : List CString) (i j : ℤ) : Adjacent A B ⟨A, B, i⟩ ⟨A, B', j⟩
  | leave (i j : ℤ) : Adjacent A B ⟨A, B, i⟩ ⟨B, [], j⟩

/-- Quorums under adjacent configurations share a member of the old or of the new list. -/
lemma Adjacent.inter {A B : List CString} {c c' : ClusterConfiguration} (h : Adjacent A B c c')
    {S S' : Set CString} (hS : JointMajority c.oldMembers c.newMembers S)
    (hS' : JointMajority c'.oldMembers c'.newMembers S') :
    ∃ m, (m ∈ A ∨ m ∈ B) ∧ m ∈ S ∧ m ∈ S' := by
  cases h with
  | same i j =>
      obtain ⟨m, hm, h1, h2⟩ := hS.inter_left hS'
      exact ⟨m, Or.inl hm, h1, h2⟩
  | enter i j =>
      obtain ⟨m, hm, h1, h2⟩ := hS.inter_left hS'
      exact ⟨m, Or.inl hm, h1, h2⟩
  | amend B' i j =>
      obtain ⟨m, hm, h1, h2⟩ := hS.inter_left hS'
      exact ⟨m, Or.inl hm, h1, h2⟩
  | leave i j =>
      -- the new members are the old ones of the second configuration, so they are not empty
      obtain ⟨m, hm, h1, h2⟩ := hS.inter_right hS'
      exact ⟨m, Or.inr hm, h1, h2⟩

lemma Adjacent.inter_or {A B : List CString} {c c' : ClusterConfiguration}
    (h : Adjacent A B c c' ∨ Adjacent A B c' c) {S S' : Set CString}
    (hS : JointMajority c.oldMembers c.newMembers S)
    (hS' : JointMajority c'.oldMembers c'.newMembers S') :
    ∃ m, (m ∈ A ∨ m ∈ B) ∧ m ∈ S ∧ m ∈ S' := by
  cases h with
  | inl h => exact h.inter hS hS'
  | inr h =>
      obtain ⟨m, hm, h1, h2⟩ := h.inter hS' hS
      exact ⟨m, hm, h2, h1⟩

/-- **Quorums of adjacent configurations overlap**: voters that pass
`guard_received_majority_votes` share a member with the voters that pass it, and with the members
that `node_is_committed_under_current_configuration` counts as replicated, under any adjacent
configuration. -/
theorem adjacent_quorums_meet {τ : Type*} {A B : List CString} (voted : Node σ) (other : Node τ)
    (h : Adjacent A B voted.configState other.configState ∨
      Adjacent A B other.configState voted.configState)
    (hvotes : voted.guardReceivedMajorityVotes = true) :
    (other.guardReceivedMajorityVotes = true →
      ∃ m, (m ∈ A ∨ m ∈ B) ∧ m ∈ voted.votesReceived ∧ m ∈ other.votesReceived) ∧
    ∀ candidateIndex, other.isCommittedUnderCurrentConfiguration candidateIndex = true →
      ∃ m, (m ∈ A ∨ m ∈ B) ∧ m ∈ voted.votesReceived ∧
        other.countsReplica candidateIndex m = true := by
  have hS := jointMajority_of_votes hvotes
  constructor
  · intro hother
    exact Adjacent.inter_or h hS (jointMajority_of_votes hother)
  · intro k hk
    exact Adjacent.inter_or h hS (jointMajority_of_replicas hk)

/-- A node with some votes under a configuration. -/
def pollingNode (configState : ClusterConfiguration) (votes : List CString) : Node Unit :=
  { Node.zero ⟨['a'], [], [], false, 1, 1⟩ () 0 with
    configState := configState, votesReceived := votes }

/-- The voters of a joint configuration and the ones of the configuration it ends in. -/
theorem adjacent_quorums_meet_leave :
    ∃ m : CString, (m ∈ [['a'], ['b']] ∨ m ∈ [['b'], ['c'], ['d']]) ∧
      m ∈ [['a'], ['b'], ['c']] ∧ m ∈ [['c'], ['d']] :=
  (adjacent_quorums_meet
    (pollingNode ⟨[['a'], ['b']], [['b'], ['c'], ['d']], 1⟩ [['a'], ['b'], ['c']])
    (pollingNode ⟨[['b'], ['c'], ['d']], [], 2⟩ [['c'], ['d']])
    (Or.inl (Adjacent.leave 1 2)) (by decide)).1 (by decide)

end RaftRx.C
