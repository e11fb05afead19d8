import RaftRx.Python.CommitQuorum
import RaftRx.Protocol.Completeness

/-!
Votes and logs of clusters of Python nodes, over whole runs.

* `Message.ballot`, `votes_once`: over everything sent in a run, with nodes lost at any moment, a
  node votes for one candidate in a term;
* `leader_only_appends`: the log of a running leader continues what it was earlier in its term,
  in every run without a membership change in which no compaction ends, with nodes that are stopped,
  started and lost at any moment;
* `CoveredAct`: no node is stopped, started or lost, and every accepted batch is covered;
* `committed_in_leader`: a leader has what any node of an earlier or equal term had committed;
* `committed_agree`: of what two nodes had committed, one continues the other.
-/

namespace RaftRx.Python

open Protocol

variable {σ ν : Type} {E : Str → Env σ ν} {members : List Str} {mode : Mode} {n : Str}
  {a a' : State Str ℤ LogEntry} {c c' : Cluster σ ν} {config : Str → NodeConfig}

/-- The entries a node knows to be committed, of a log that is not compacted. -/
def Node.committed (x : Node σ ν) : List LogEntry := x.log.take x.commitIndex.toNat

/-! ### Votes -/

/-- The ballot a message announces: voter, term and candidate.  A vote request is a vote of the
candidate for itself. -/
def Message.ballot (m : Message) : Option (Str × ℤ × Str) :=
  match m.kind with
  | .requestVote => some (m.source, m.term, m.source)
  | .requestVoteResponse => if m.granted then some (m.source, m.term, m.target) else none
  | _ => none

/-- The ballot is that of the promise. -/
lemma ballot_of_promise {m : Message} {b : Str × ℤ × Str} (h : m.ballot = some b) :
    ∃ p, m.promise = some p ∧ p.ballot = some b := by
  rw [Message.ballot] at h
  rw [Message.promise]
  cases hkind : m.kind with
  | requestVote =>
      rw [hkind] at h
      exact ⟨_, rfl, h⟩
  | requestVoteResponse =>
      rw [hkind] at h
      simp only at h ⊢
      cases hgranted : m.granted with
      | true =>
          rw [hgranted, if_pos rfl] at h
          exact ⟨_, if_pos rfl, h⟩
      | false =>
          rw [hgranted, if_neg (by simp)] at h
          exact absurd h (by simp)
  | appendEntries | appendEntriesResponse | clientCommand =>
      rw [hkind] at h
      exact absurd h (by simp)

/-- **One vote per node and term**, over all messages sent in a run without a membership change:
nodes that are lost inside a dump do not vote twice. -/
theorem votes_once (E : Str → Env σ ν) (hboot : ∀ n, Bootstrapped members n (config n))
    (user : Str → σ) (clockMs : ℤ)
    (hrun : Run (Cluster.exec E) (NoMembershipChange E) (Cluster.boot E config user clockMs) c)
    {m m' : Message} (hm : m ∈ c.network) (hm' : m' ∈ c.network) {v p q : Str} {t : ℤ}
    (hp : m.ballot = some (v, t, p)) (hq : m'.ballot = some (v, t, q)) : p = q := by
  have hstep : ∀ (c : Cluster σ ν) (act : ClusterAct σ), NoMembershipChange E c act →
      StepOk .election E c act := fun _ _ h =>
    ⟨h, fun hk => absurd hk id, fun hm => absurd hm (by simp), fun hm => absurd hm (by simp)⟩
  obtain ⟨a₀, hat₀⟩ := clusterAt_boot E .election hboot user clockMs
  obtain ⟨a, -, hat⟩ := clusterAt_run Mode.elects_election hat₀ (hrun.mono hstep)
  obtain ⟨b, hb, hbal⟩ := ballot_of_promise hp
  obtain ⟨b', hb', hbal'⟩ := ballot_of_promise hq
  refine hat.inv.ballots.sent_unique ?_ ?_ hbal hbal'
  · rw [hat.sent]
    exact ⟨m, hm, hb⟩
  · rw [hat.sent]
    exact ⟨m', hm', hb'⟩

/-- The votes `n2` gives to `n1` are one vote. -/
def twiceGranted : List (ClusterAct Unit) :=
  tick n1 1 [] [] ++ [⟨n2, .latch 0 [voteRequest n1 n2 1 0 0] []⟩, ⟨n2, .transition 0⟩,
    ⟨n2, .crashInDump 2 1 () 0⟩] ++ tick n2 0 [voteRequest n1 n2 1 0 0] []

/-- `n2` dies after it sent its vote and votes again for the same candidate. -/
theorem votes_once_three : ∃ c, Run (Cluster.exec fun _ => quiet)
    (NoMembershipChange fun _ => quiet) threeNodes c ∧
    2 ≤ c.network.countP (fun m => decide (m.ballot = some (n2, 1, n1))) ∧
    ∀ m ∈ c.network, ∀ q, m.ballot = some (n2, 1, q) → q = n1 := by
  have hexec : (execAll (Cluster.exec fun _ => quiet)
      (fun c act => decide (NoMembershipChange (fun _ => quiet) c act)) threeNodes
      twiceGranted).any (fun c => decide (2 ≤ c.network.countP
        fun m => decide (m.ballot = some (n2, 1, n1)))) = true := by
    decide +kernel
  obtain ⟨c, hrun, hc⟩ := Run.exists_of_execAll hexec
  rw [decide_eq_true_eq] at hc
  have hrun' := hrun.mono (fun _ _ => of_decide_eq_true)
  obtain ⟨m₀, hm₀, hb₀⟩ := List.countP_pos_iff.mp (lt_of_lt_of_le (by omega) hc)
  refine ⟨c, hrun', hc, fun m hm q hq => ?_⟩
  exact votes_once (fun _ => quiet) bootstrapped_three (fun _ => ()) 0 hrun' hm hm₀ hq
    (of_decide_eq_true hb₀)

/-! ### Leaders -/

/-- The conditions of log matching are those of mode `logs`. -/
lemma stepOk_logs {act : ClusterAct σ} (h : NoMembershipChange E c act ∧ NoCompaction c act) :
    StepOk .logs E c act :=
  ⟨h.1, fun _ => h.2, fun hm => absurd hm (by simp), fun hm => absurd hm (by simp)⟩

/-- The node runs and leads in the term with a log of the length. -/
def leadsWith (c : Cluster Unit Unit) (n : Str) (term : ℤ) (k : ℕ) : Bool :=
  ((c.hosts n).node.running && decide ((c.hosts n).node.role = .leader)) &&
    (decide ((c.hosts n).node.currentTerm = term) && decide ((c.hosts n).node.log.length = k))

lemma leadsWith_spec {c : Cluster Unit Unit} {n : Str} {term : ℤ} {k : ℕ}
    (h : leadsWith c n term k = true) :
    ((c.hosts n).node.running = true ∧ (c.hosts n).node.role = .leader) ∧
      (c.hosts n).node.currentTerm = term ∧ (c.hosts n).node.log.length = k := by
  simpa only [leadsWith, Bool.and_eq_true, decide_eq_true_eq] using h

/-- **Leaders append only**: a leader that runs keeps the log it had at any earlier moment of its
term, whatever nodes were lost in between. -/
theorem leader_only_appends (E : Str → Env σ ν)
    (hboot : ∀ n, Bootstrapped members n (config n)) (user : Str → σ) (clockMs : ℤ)
    (hrun : Run (Cluster.exec E) (fun c act => NoMembershipChange E c act ∧ NoCompaction c act)
      (Cluster.boot E config user clockMs) c)
    (hrun' : Run (Cluster.exec E) (fun c act => NoMembershipChange E c act ∧ NoCompaction c act)
      c c') (p q : Str)
    (hp : (c.hosts p).node.running = true ∧ (c.hosts p).node.role = .leader)
    (hq : (c'.hosts q).node.running = true ∧ (c'.hosts q).node.role = .leader)
    (hterm : (c.hosts p).node.currentTerm = (c'.hosts q).node.currentTerm) :
    p = q ∧ (c.hosts p).node.log <+: (c'.hosts q).node.log := by
  have hk : Mode.logs.keepsLogs := trivial
  obtain ⟨a₀, hat₀⟩ := clusterAt_boot E .logs hboot user clockMs
  obtain ⟨a, -, hat⟩ := clusterAt_run hk.elects hat₀ (hrun.mono fun _ _ => stepOk_logs)
  obtain ⟨a', hsteps, hat'⟩ := clusterAt_run hk.elects hat (hrun'.mono fun _ _ => stepOk_logs)
  obtain ⟨hrole, hta⟩ := (hat.hosts p).leader hp.1 hp.2
  obtain ⟨hrole', htb⟩ := (hat'.hosts q).leader hq.1 hq.2
  have hsame : (a.srv p).term = (a'.srv q).term := by rw [hta, htb, hterm]
  refine ⟨election_safety hk.elects (hat.inv.election hk.elects) hsteps hrole hrole' hsame, ?_⟩
  rw [← (hat.hosts p).log hk, ← (hat'.hosts q).log hk]
  exact leader_append_only hk (hat.inv.logs hk) hsteps hrole hrole' hsame

/-- `n2` gets a batch and dies, and the leader takes another command. -/
def secondCommand : List (ClusterAct Unit) :=
  tick n2 0 [batch n1 n2 1 0 0 [] [⟨1, 1, putCommand "x", n1⟩] 0] [] ++ [⟨n2, .crash () 0⟩] ++
    tick n1 1 [] [putCommand "y"]

/-- `n1` leads before and after the loss of `n2`, and has one more entry. -/
theorem leader_only_appends_three : ∃ c c' : Cluster Unit Unit,
    Run (Cluster.exec fun _ => quiet) (fun c act => NoMembershipChange (fun _ => quiet) c act ∧
      NoCompaction c act) threeNodes c ∧
    (c.hosts n1).node.log.length = 1 ∧ (c'.hosts n1).node.log.length = 2 ∧
    (c.hosts n1).node.log <+: (c'.hosts n1).node.log := by
  have hexec : (execAll (Cluster.exec fun _ => quiet)
      (fun c act => decide (NoMembershipChange (fun _ => quiet) c act ∧ NoCompaction c act))
      threeNodes loneCommand).any (fun c => (leadsWith c n1 1 1) &&
        (execAll (Cluster.exec fun _ => quiet)
          (fun c act => decide (NoMembershipChange (fun _ => quiet) c act ∧ NoCompaction c act)) c
          secondCommand).any fun c' => leadsWith c' n1 1 2) = true := by
    decide +kernel
  obtain ⟨c, c', hrun, hc, hrun', hc'⟩ := Run.exists_two_of_execAll hexec
  obtain ⟨hlead, hterm, hlen⟩ := leadsWith_spec hc
  obtain ⟨hlead', hterm', hlen'⟩ := leadsWith_spec hc'
  refine ⟨c, c', hrun.mono fun _ _ => of_decide_eq_true, hlen, hlen', ?_⟩
  exact (leader_only_appends (fun _ => quiet) bootstrapped_three (fun _ => ()) 0
    (hrun.mono fun _ _ => of_decide_eq_true) (hrun'.mono fun _ _ => of_decide_eq_true) n1 n1 hlead
    hlead' (hterm.trans hterm'.symm)).2

/-! ### Nodes keep running -/

/-- An act without a restart leaves a node running. -/
lemma HostAt.keeps_running {D : Env σ ν} {h h' : Host σ ν} {act : HostAct σ} {ms : List Message}
    (hat : HostAt members mode n a h) (hok : ActOk members mode D n a h act)
    (hno : NoRestart (⟨n, act⟩ : ClusterAct σ)) (hrun : h.node.running = true)
    (hexec : h.exec D act = some (h', ms)) : h'.node.running = true := by
  rw [Host.exec, Option.ite_none_right_eq_some] at hexec
  obtain ⟨-, hexec⟩ := hexec
  cases act with
  | latch clockMs ms cs =>
      obtain ⟨y, hy, heq⟩ := Option.map_eq_some_iff.mp hexec
      simp only [Prod.mk.injEq] at heq
      obtain ⟨rfl, rfl⟩ := heq
      have hturns : Turns D h.disk (Hears mode a.sent n) (fun _ _ => False)
          { h.node with clockMs := clockMs } y := turns_latchInputs hok hy
      exact hturns.running.trans hrun
  | transition clockMs =>
      obtain ⟨y, hy, heq⟩ := Option.map_eq_some_iff.mp hexec
      simp only [Prod.mk.injEq] at heq
      obtain ⟨rfl, rfl⟩ := heq
      exact (running_transition ((hat.running hrun).clock clockMs).ok.pending hy).trans hrun
  | dump =>
      obtain ⟨y, hy, heq⟩ := Option.map_eq_some_iff.mp hexec
      simp only [Prod.mk.injEq] at heq
      obtain ⟨rfl, rfl⟩ := heq
      rcases dumpOutputs_cases hy with ⟨hstop, -⟩ | ⟨-, z, hz, rfl, -, -⟩
      · exact absurd (hrun.symm.trans hstop) (by simp)
      · rcases (applyAll_cases hz).2 with hmark | hlt
        · exact (congrArg Core.running hmark.core).trans hrun
        · exact absurd (congrArg ClusterConfiguration.index (hok _ hy)) (ne_of_gt hlt)
  | compaction =>
      obtain ⟨⟨y, writes⟩, hy, heq⟩ := Option.map_eq_some_iff.mp hexec
      simp only [Prod.mk.injEq] at heq
      obtain ⟨rfl, rfl⟩ := heq
      exact (shelved_compactionTransition hy).1.running.trans hrun
  | membership =>
      obtain ⟨y, hy, heq⟩ := Option.map_eq_some_iff.mp hexec
      simp only [Prod.mk.injEq] at heq
      obtain ⟨rfl, rfl⟩ := heq
      have hnext : h.node.nextMembership = none := hok
      rw [Node.membershipTransition, hnext, Option.some.injEq] at hy
      subst hy
      exact hrun
  | request ms => exact absurd hok id
  | stop | start clockMs | crash user clockMs | crashInDump i j user clockMs =>
      exact absurd hno id

/-! ### Committed entries -/

/-- No membership changes, no compaction ends, no node is stopped, started or lost, and every
accepted batch is covered. -/
def CoveredAct (E : Str → Env σ ν) (c : Cluster σ ν) (act : ClusterAct σ) : Prop :=
  NoMembershipChange E c act ∧ NoCompaction c act ∧ NoRestart act ∧ NextAppendCovered c act

instance (E : Str → Env σ ν) (c : Cluster σ ν) (act : ClusterAct σ) :
    Decidable (CoveredAct E c act) := inferInstanceAs (Decidable (_ ∧ _))

lemma CoveredAct.stepOk {act : ClusterAct σ} (h : CoveredAct E c act) : StepOk .commits E c act :=
  ⟨h.1, fun _ => h.2.1, fun _ => h.2.2.1, fun _ => h.2.2.2⟩

/-- **A run of covered acts** is a run of the protocol, and its nodes keep running. -/
lemma clusterAt_covered (hat : ClusterAt members .commits a c)
    (hon : ∀ p, (c.hosts p).node.running = true)
    (hrun : Run (Cluster.exec E) (CoveredAct E) c c') :
    ∃ a', Steps (params members) .commits a a' ∧ ClusterAt members .commits a' c' ∧
      ∀ p, (c'.hosts p).node.running = true := by
  induction hrun with
  | refl => exact ⟨a, Relation.ReflTransGen.refl, hat, hon⟩
  | tail _ hstep ih =>
      obtain ⟨a1, hsteps, hat1, hon1⟩ := ih
      obtain ⟨act, hok, hexec⟩ := hstep
      obtain ⟨a2, hsteps', hat2⟩ := clusterAt_exec Mode.elects_commits hat1 hok.stepOk hexec
      refine ⟨a2, Relation.ReflTransGen.trans hsteps hsteps', hat2, fun p => ?_⟩
      rw [Cluster.exec, Option.ite_none_right_eq_some] at hexec
      obtain ⟨hdeliver, hmap⟩ := hexec
      obtain ⟨⟨h', sends⟩, hhost, rfl⟩ := Option.map_eq_some_iff.mp hmap
      by_cases heq : p = act.host
      · subst heq
        simp only [Function.update_self]
        exact (hat1.hosts _).keeps_running (actOk_of_stepOk hat1 hdeliver hok.stepOk) hok.2.2.1
          (hon1 _) hhost
      · simp only [Function.update_of_ne heq]
        exact hon1 p

/-- Covered acts from a boot. -/
lemma clusterAt_coveredBoot (hboot : ∀ n, Bootstrapped members n (config n)) {user : Str → σ}
    {clockMs : ℤ} (hrun : Run (Cluster.exec E) (CoveredAct E)
      (Cluster.boot E config user clockMs) c) :
    ∃ a, ClusterAt members .commits a c ∧ ∀ p, (c.hosts p).node.running = true := by
  obtain ⟨a₀, hat₀⟩ := clusterAt_boot E .commits hboot user clockMs
  have hon : ∀ p, ((Cluster.boot E config user clockMs).hosts p).node.running = true :=
    fun p => by
      have hloaded : Loaded Disk.empty (config p)
          (Node.init (E p) (config p) Disk.empty (user p) clockMs) :=
        loaded_init (config p) (user p) clockMs
      exact hloaded.running
  obtain ⟨a, -, hat, hon'⟩ := clusterAt_covered hat₀ hon hrun
  exact ⟨a, hat, hon'⟩

/-- The committed entries of a host that runs are those of its server. -/
lemma HostAt.committed {h : Host σ ν} (hat : HostAt members mode n a h)
    (hrun : h.node.running = true) :
    (a.srv n).committed = h.node.committed ∧ (a.srv n).term = h.node.currentTerm := by
  rw [(hat.running hrun).srv]
  exact ⟨rfl, rfl⟩

/-- **Leader completeness**: what a node had committed is in the log of every leader of its term or
of a later one, from then on. -/
theorem committed_in_leader (E : Str → Env σ ν) (hboot : ∀ n, Bootstrapped members n (config n))
    (user : Str → σ) (clockMs : ℤ)
    (hrun : Run (Cluster.exec E) (CoveredAct E) (Cluster.boot E config user clockMs) c)
    (hrun' : Run (Cluster.exec E) (CoveredAct E) c c') (p q : Str)
    (hq : (c'.hosts q).node.role = .leader)
    (hterm : (c.hosts p).node.currentTerm ≤ (c'.hosts q).node.currentTerm) :
    (c.hosts p).node.committed <+: (c'.hosts q).node.log := by
  obtain ⟨a, hat, hon⟩ := clusterAt_coveredBoot hboot hrun
  obtain ⟨a', hsteps, hat', hon'⟩ := clusterAt_covered hat hon hrun'
  obtain ⟨hrole', htb⟩ := (hat'.hosts q).leader (hon' q) hq
  obtain ⟨hcom, hta⟩ := (hat.hosts p).committed (hon p)
  rw [← hcom, ← (hat'.hosts q).log Mode.keepsLogs_commits]
  have hle : (a.srv p).term ≤ (a'.srv q).term := by
    rw [hta, htb]
    exact hterm
  exact leader_completeness (P := params members) hat.inv hsteps hrole' hle

/-- The command reaches `n2`, which learns that it is committed. -/
def committedCommand : List (ClusterAct Unit) :=
  sharedCommand ++ tick n1 1 [appendAnswer n2 n1 1 true 1] [] ++ tick n1 60 [] [] ++
    tick n2 0 [batch n1 n2 1 1 1 n1 [] 1] []

/-- `n2` is elected in term 2 by `n1`. -/
def laterElection : List (ClusterAct Unit) :=
  tick n2 9 [] [] ++ tick n1 60 [voteRequest n2 n1 2 1 1] [] ++
    tick n2 9 [voteGrant n1 n2 2] [] ++ tick n2 9 [] []

/-- The node has committed something. -/
def hasCommitted (c : Cluster Unit Unit) (n : Str) : Bool :=
  decide ((c.hosts n).node.committed ≠ [])

/-- What `n1` committed in term 1 is in the log of the leader of term 2. -/
theorem committed_in_leader_three : ∃ c c' : Cluster Unit Unit,
    Run (Cluster.exec fun _ => quiet) (CoveredAct fun _ => quiet) threeNodes c ∧
    Run (Cluster.exec fun _ => quiet) (CoveredAct fun _ => quiet) c c' ∧
    (c'.hosts n2).node.role = .leader ∧ (c.hosts n1).node.committed ≠ [] ∧
    (c.hosts n1).node.committed <+: (c'.hosts n2).node.log := by
  have hexec : (execAll (Cluster.exec fun _ => quiet)
      (fun c act => decide (CoveredAct (fun _ => quiet) c act)) threeNodes committedCommand).any
        (fun c => (leadsWith c n1 1 1 && hasCommitted c n1) &&
          (execAll (Cluster.exec fun _ => quiet)
            (fun c act => decide (CoveredAct (fun _ => quiet) c act)) c laterElection).any fun c' =>
              leadsWith c' n2 2 1) = true := by
    decide +kernel
  obtain ⟨c, c', hrun, hc, hrun', hc'⟩ := Run.exists_two_of_execAll hexec
  rw [Bool.and_eq_true, hasCommitted, decide_eq_true_eq] at hc
  obtain ⟨-, hterm, -⟩ := leadsWith_spec hc.1
  obtain ⟨hlead', hterm', -⟩ := leadsWith_spec hc'
  refine ⟨c, c', hrun.mono fun _ _ => of_decide_eq_true, hrun'.mono fun _ _ => of_decide_eq_true,
    hlead'.2, hc.2, ?_⟩
  exact committed_in_leader (fun _ => quiet) bootstrapped_three (fun _ => ()) 0
    (hrun.mono fun _ _ => of_decide_eq_true) (hrun'.mono fun _ _ => of_decide_eq_true) n1 n2
    hlead'.2 (by rw [hterm, hterm']; omega)

/-- What two hosts had committed at two moments of covered acts. -/
lemma ClusterAt.comparable (hat : ClusterAt members .commits a c)
    (hon : ∀ p, (c.hosts p).node.running = true)
    (hrun : Run (Cluster.exec E) (CoveredAct E) c c') (p q : Str) :
    (c.hosts p).node.committed <+: (c'.hosts q).node.committed ∨
      (c'.hosts q).node.committed <+: (c.hosts p).node.committed := by
  obtain ⟨a', hsteps, hat', hon'⟩ := clusterAt_covered hat hon hrun
  rw [← ((hat.hosts p).committed (hon p)).1, ← ((hat'.hosts q).committed (hon' q)).1]
  exact committed_comparable (P := params members) hat.inv hsteps p q

/-- **Committed prefixes**: of what two nodes had committed, at two moments of a run, one continues
the other. -/
theorem committed_agree (E : Str → Env σ ν) (hboot : ∀ n, Bootstrapped members n (config n))
    (user : Str → σ) (clockMs : ℤ)
    (hrun : Run (Cluster.exec E) (CoveredAct E) (Cluster.boot E config user clockMs) c)
    (hrun' : Run (Cluster.exec E) (CoveredAct E) c c') (p q : Str) :
    (c.hosts p).node.committed <+: (c'.hosts q).node.committed ∨
      (c'.hosts q).node.committed <+: (c.hosts p).node.committed := by
  obtain ⟨a, hat, hon⟩ := clusterAt_coveredBoot hboot hrun
  exact hat.comparable hon hrun' p q

/-- What `n1` and `n2` committed, before and after the second election. -/
theorem committed_agree_three : ∃ c c' : Cluster Unit Unit,
    Run (Cluster.exec fun _ => quiet) (CoveredAct fun _ => quiet) threeNodes c ∧
    Run (Cluster.exec fun _ => quiet) (CoveredAct fun _ => quiet) c c' ∧
    (c.hosts n1).node.committed ≠ [] ∧ (c'.hosts n2).node.committed ≠ [] ∧
    ((c.hosts n1).node.committed <+: (c'.hosts n2).node.committed ∨
      (c'.hosts n2).node.committed <+: (c.hosts n1).node.committed) := by
  have hexec : (execAll (Cluster.exec fun _ => quiet)
      (fun c act => decide (CoveredAct (fun _ => quiet) c act)) threeNodes committedCommand).any
        (fun c => hasCommitted c n1 && (execAll (Cluster.exec fun _ => quiet)
          (fun c act => decide (CoveredAct (fun _ => quiet) c act)) c laterElection).any fun c' =>
            hasCommitted c' n2) = true := by
    decide +kernel
  obtain ⟨c, c', hrun, hc, hrun', hc'⟩ := Run.exists_two_of_execAll hexec
  rw [hasCommitted, decide_eq_true_eq] at hc hc'
  refine ⟨c, c', hrun.mono fun _ _ => of_decide_eq_true, hrun'.mono fun _ _ => of_decide_eq_true,
    hc, hc', ?_⟩
  exact committed_agree (fun _ => quiet) bootstrapped_three (fun _ => ()) 0
    (hrun.mono fun _ _ => of_decide_eq_true) (hrun'.mono fun _ _ => of_decide_eq_true) n1 n2

end RaftRx.Python
