import RaftRx.C.StateMachineSafety
import RaftRx.Protocol.Completeness

/-!
Logs of clusters of C nodes at two moments of a run.

The runs are those of `appliedAgree_of_suffixOk`: ticks without a membership change and without
compaction that raise no term under a role it was not won in and accept only covered batches.

* `entries_match`: two logs with an entry of one index and one term are equal up to it;
* `leaders_append_only`: the log of a leader continues what it was earlier in its term;
* `leaders_complete`: a leader has what any node of an earlier or equal term had committed;
* `committed_prefixes`: of what two nodes had committed, one continues the other.
-/

namespace RaftRx.C

open Protocol

variable {σ : Type*} {A : CString → Application σ} {initial members : List CString}
  {config : CString → NodeConfig} {mode : Mode} {a : State CString ℤ LogEntry} {c c' : Cluster σ}
  {n : CString}

/-- A tick whose terms are won and whose accepted batches are covered. -/
def SafeTick (A : CString → Application σ) (c : Cluster σ) (act : ClusterAct σ) : Prop :=
  TickAct A c act ∧ HigherTermsOk c act ∧ SuffixOk c act

instance (A : CString → Application σ) (c : Cluster σ) (act : ClusterAct σ) :
    Decidable (SafeTick A c act) := inferInstanceAs (Decidable (_ ∧ _))

/-- The entries a node knows to be committed, of a log that is not compacted. -/
def Node.committed (x : Node σ) : List LogEntry := x.log.take x.commitIndex.toNat

/-! ### Hosts of a run -/

/-- A host whose id does not fit its buffer does nothing. -/
lemma hosts_of_long {P : Cluster σ → ClusterAct σ → Prop} (hn : maxId ≤ n.length)
    (hrun : Run (Cluster.exec A) P c c') : c'.hosts n = c.hosts n := by
  refine Run.invariant (I := fun d => d.hosts n = c.hosts n) ?_ hrun rfl
  intro d act d' hd _ hexec
  rw [Cluster.exec, Option.ite_none_right_eq_some] at hexec
  obtain ⟨⟨hfits, -⟩, hmap⟩ := hexec
  obtain ⟨⟨h', effect⟩, -, rfl⟩ := Option.map_eq_some_iff.mp hmap
  have hne : n ≠ act.host := by
    rintro rfl
    exact absurd hfits (not_lt.mpr hn)
  simp only [Function.update_of_ne hne]
  exact hd

/-- It has an empty log. -/
lemma log_of_long {P : Cluster σ → ClusterAct σ → Prop}
    (hboot : ∀ n, Bootstrapped initial n (config n)) {user : CString → σ} {clockMs : ℤ}
    (hn : maxId ≤ n.length) (hrun : Run (Cluster.exec A) P (Cluster.boot A config user clockMs) c) :
    (c.hosts n).node.log = [] := by
  rw [hosts_of_long hn hrun]
  exact (fresh_boot (A := A n) (hboot n) (user n) clockMs).log

/-- **The log of a host** is the log of its server, or empty. -/
lemma ClusterAt.log_cases {P : Cluster σ → ClusterAct σ → Prop}
    (hboot : ∀ n, Bootstrapped initial n (config n)) {user : CString → σ} {clockMs : ℤ}
    (hrun : Run (Cluster.exec A) P (Cluster.boot A config user clockMs) c)
    (hat : ClusterAt members mode a c) (n : CString) :
    (c.hosts n).node.log = [] ∨
      ((a.srv n).log = (c.hosts n).node.log ∧ (a.srv n).term = (c.hosts n).node.currentTerm ∧
        (a.srv n).committed = (c.hosts n).node.committed) := by
  by_cases hn : n.length < maxId
  · rw [(hat.hosts n hn).node.srv]
    exact Or.inr ⟨rfl, rfl, rfl⟩
  · exact Or.inl (log_of_long hboot (not_lt.mp hn) hrun)

/-- The log of a leader is the log of its server. -/
lemma ClusterAt.leader_log (hat : ClusterAt members mode a c)
    (hl : (c.hosts n).node.state = .leader) : (a.srv n).log = (c.hosts n).node.log := by
  have hn : n.length < maxId := by
    by_contra hlen
    have hfollower := hat.idle n (not_lt.mp hlen)
    rw [hl] at hfollower
    exact absurd hfollower (by simp)
  rw [(hat.hosts n hn).node.srv]
  rfl

/-- Safe ticks from a boot are a run of the protocol. -/
lemma clusterAt_safeTicks (hboot : ∀ n, Bootstrapped initial n (config n))
    (hids : ∀ m ∈ initial, IdOk m) {user : CString → σ} {clockMs : ℤ}
    (hrun : Run (Cluster.exec A) (SafeTick A) (Cluster.boot A config user clockMs) c) :
    ∃ a, CommitInv (params (startMembers initial)) a ∧
      ClusterAt (startMembers initial) .commits a c := by
  obtain ⟨a₀, hinv, hat₀⟩ := clusterAt_boot (A := A) .commits hboot hids user clockMs
  obtain ⟨a, hsteps, hat⟩ := clusterAt_run Mode.elects_commits (by simp) hat₀
    (hrun.mono fun _ _ h => stepOk_of_tick h.1 h.2.1 h.2.2)
  exact ⟨a, commitInv_steps hinv hsteps, hat⟩

/-- So are the ticks that follow. -/
lemma clusterAt_laterTicks (hat : ClusterAt members .commits a c)
    (hrun : Run (Cluster.exec A) (SafeTick A) c c') :
    ∃ a', Steps (params members) .commits a a' ∧ ClusterAt members .commits a' c' :=
  clusterAt_run Mode.elects_commits (by simp) hat
    (hrun.mono fun _ _ h => stepOk_of_tick h.1 h.2.1 h.2.2)

/-! ### Two logs at one moment -/

/-- **Log matching**: entries of one index and one term stand at one position, and the logs are
equal up to it. -/
theorem entries_match (hboot : ∀ n, Bootstrapped initial n (config n))
    (hids : ∀ m ∈ initial, IdOk m) (user : CString → σ) (clockMs : ℤ)
    (hrun : Run (Cluster.exec A) (SafeTick A) (Cluster.boot A config user clockMs) c)
    (p q : CString) {k k' : ℕ} {e e' : LogEntry} (he : (c.hosts p).node.log[k]? = some e)
    (he' : (c.hosts q).node.log[k']? = some e') (hindex : e.index = e'.index)
    (hterm : e.term = e'.term) :
    k = k' ∧ (c.hosts p).node.log.take (k + 1) = (c.hosts q).node.log.take (k' + 1) := by
  obtain ⟨a, hinv, hat⟩ := clusterAt_safeTicks hboot hids hrun
  rcases hat.log_cases hboot hrun p with hp | ⟨hp, -, -⟩
  · rw [hp] at he
    exact absurd he (by simp)
  rcases hat.log_cases hboot hrun q with hq | ⟨hq, -, -⟩
  · rw [hq] at he'
    exact absurd he' (by simp)
  rw [← hp] at he
  rw [← hq] at he'
  have hk : e.index = (k : ℤ) + 1 := hinv.logs.index_log p he
  have hk' : e'.index = (k' : ℤ) + 1 := hinv.logs.index_log q he'
  obtain rfl : k = k' := by omega
  rw [← hp, ← hq]
  exact ⟨rfl, log_matching (P := params (startMembers initial)) hinv.logs he he' hterm⟩

/-- The first entry of two nodes is of one index and one term. -/
def sharedFirst (c : Cluster Unit) (p q : CString) : Bool :=
  (c.hosts p).node.log[0]?.any fun e : LogEntry =>
    (c.hosts q).node.log[0]?.any fun e' : LogEntry =>
      decide (e.index = e'.index) && decide (e.term = e'.term)

/-- The command of the leader stands at one position in two logs. -/
theorem entries_match_three : ∃ (c : Cluster Unit) (e e' : LogEntry),
    Run (Cluster.exec fun _ => silent) (SafeTick fun _ => silent) threeNodes c ∧
    (c.hosts n1).node.log[0]? = some e ∧ (c.hosts n2).node.log[0]? = some e' ∧
    (c.hosts n1).node.log.take 1 = (c.hosts n2).node.log.take 1 := by
  have hexec : (execAll (Cluster.exec fun _ => silent)
      (fun c act => decide (SafeTick (fun _ => silent) c act)) threeNodes coveredCommand).any
        (fun c => sharedFirst c n1 n2) = true := by
    decide +kernel
  obtain ⟨c, hrun, hc⟩ := Run.exists_of_execAll hexec
  simp only [sharedFirst, Option.any_eq_true, Bool.and_eq_true, decide_eq_true_eq] at hc
  obtain ⟨e, he, e', he', hindex, hterm⟩ := hc
  exact ⟨c, e, e', hrun.mono fun _ _ => of_decide_eq_true, he, he',
    (entries_match bootstrapped_three idOk_three (fun _ => ()) 0
      (hrun.mono fun _ _ => of_decide_eq_true) n1 n2 he he' hindex hterm).2⟩

/-! ### Two moments -/

/-- **Leaders append only**: a leader keeps the log it had at any earlier moment of its term. -/
theorem leaders_append_only (hboot : ∀ n, Bootstrapped initial n (config n))
    (hids : ∀ m ∈ initial, IdOk m) (user : CString → σ) (clockMs : ℤ)
    (hrun : Run (Cluster.exec A) (SafeTick A) (Cluster.boot A config user clockMs) c)
    (hrun' : Run (Cluster.exec A) (SafeTick A) c c') (p q : CString)
    (hp : (c.hosts p).node.state = .leader) (hq : (c'.hosts q).node.state = .leader)
    (hterm : (c.hosts p).node.currentTerm = (c'.hosts q).node.currentTerm) :
    p = q ∧ (c.hosts p).node.log <+: (c'.hosts q).node.log := by
  obtain ⟨a, hinv, hat⟩ := clusterAt_safeTicks hboot hids hrun
  obtain ⟨a', hsteps, hat'⟩ := clusterAt_laterTicks hat hrun'
  obtain ⟨hrole, hta⟩ := hat.leader hp
  obtain ⟨hrole', htb⟩ := hat'.leader hq
  have hsame : (a.srv p).term = (a'.srv q).term := by rw [hta, htb, hterm]
  refine ⟨election_safety Mode.elects_commits hinv.logs.election hsteps hrole hrole' hsame, ?_⟩
  rw [← hat.leader_log hp, ← hat'.leader_log hq]
  exact leader_append_only Mode.keepsLogs_commits hinv.logs hsteps hrole hrole' hsame

/-- `n1` leads before and after it takes a command. -/
theorem leaders_append_only_three : ∃ c c' : Cluster Unit,
    Run (Cluster.exec fun _ => silent) (SafeTick fun _ => silent) threeNodes c ∧
    Run (Cluster.exec fun _ => silent) (SafeTick fun _ => silent) c c' ∧
    (c'.hosts n1).node.log ≠ [] ∧ (c.hosts n1).node.log <+: (c'.hosts n1).node.log := by
  have hexec : (execAll (Cluster.exec fun _ => silent)
      (fun c act => decide (SafeTick (fun _ => silent) c act)) threeNodes firstElection).any
        (fun c => leads c n1 1 && (execAll (Cluster.exec fun _ => silent)
          (fun c act => decide (SafeTick (fun _ => silent) c act)) c
          (tick n1 1 [] [putCommand "x"])).any fun c' =>
            leads c' n1 1 && decide ((c'.hosts n1).node.log ≠ [])) = true := by
    decide +kernel
  obtain ⟨c, c', hrun, hc, hrun', hc'⟩ := Run.exists_two_of_execAll hexec
  rw [Bool.and_eq_true, decide_eq_true_eq] at hc'
  obtain ⟨hlead, hterm⟩ := leads_spec hc
  obtain ⟨hlead', hterm'⟩ := leads_spec hc'.1
  refine ⟨c, c', hrun.mono fun _ _ => of_decide_eq_true, hrun'.mono fun _ _ => of_decide_eq_true,
    hc'.2, ?_⟩
  exact (leaders_append_only bootstrapped_three idOk_three (fun _ => ()) 0
    (hrun.mono fun _ _ => of_decide_eq_true) (hrun'.mono fun _ _ => of_decide_eq_true) n1 n1 hlead
    hlead' (hterm.trans hterm'.symm)).2

/-- **Leader completeness**: what a node had committed is in the log of every leader of its term or
of a later one, from then on. -/
theorem leaders_complete (hboot : ∀ n, Bootstrapped initial n (config n))
    (hids : ∀ m ∈ initial, IdOk m) (user : CString → σ) (clockMs : ℤ)
    (hrun : Run (Cluster.exec A) (SafeTick A) (Cluster.boot A config user clockMs) c)
    (hrun' : Run (Cluster.exec A) (SafeTick A) c c') (p q : CString)
    (hq : (c'.hosts q).node.state = .leader)
    (hterm : (c.hosts p).node.currentTerm ≤ (c'.hosts q).node.currentTerm) :
    (c.hosts p).node.committed <+: (c'.hosts q).node.log := by
  obtain ⟨a, hinv, hat⟩ := clusterAt_safeTicks hboot hids hrun
  obtain ⟨a', hsteps, hat'⟩ := clusterAt_laterTicks hat hrun'
  obtain ⟨hrole, htb⟩ := hat'.leader hq
  rcases hat.log_cases hboot hrun p with hp | ⟨-, hta, hcom⟩
  · rw [Node.committed, hp, List.take_nil]
    exact List.nil_prefix
  · rw [← hcom, ← hat'.leader_log hq]
    exact leader_completeness hinv hsteps hrole (by rw [hta, htb]; exact hterm)

/-- `n2` is elected in term 2 by `n1`. -/
def laterElection : List (ClusterAct Unit) :=
  tick n2 3000 [] [] ++ tick n1 3000 [voteRequest n2 n1 2 1 1] [] ++
    tick n2 3000 [voteGrant n1 n2 2] [] ++ tick n2 3000 [] []

/-- The node has committed something. -/
def hasCommitted (c : Cluster Unit) (n : CString) : Bool :=
  decide ((c.hosts n).node.committed ≠ [])

/-- What `n1` committed in term 1 is in the log of the leader of term 2. -/
theorem leaders_complete_three : ∃ c c' : Cluster Unit,
    Run (Cluster.exec fun _ => silent) (SafeTick fun _ => silent) threeNodes c ∧
    Run (Cluster.exec fun _ => silent) (SafeTick fun _ => silent) c c' ∧
    (c'.hosts n2).node.state = .leader ∧ (c.hosts n1).node.committed ≠ [] ∧
    (c.hosts n1).node.committed <+: (c'.hosts n2).node.log := by
  have hexec : (execAll (Cluster.exec fun _ => silent)
      (fun c act => decide (SafeTick (fun _ => silent) c act)) threeNodes coveredCommand).any
        (fun c => (leads c n1 1 && hasCommitted c n1) && (execAll (Cluster.exec fun _ => silent)
          (fun c act => decide (SafeTick (fun _ => silent) c act)) c laterElection).any fun c' =>
            leads c' n2 2) = true := by
    decide +kernel
  obtain ⟨c, c', hrun, hc, hrun', hc'⟩ := Run.exists_two_of_execAll hexec
  rw [Bool.and_eq_true, hasCommitted, decide_eq_true_eq] at hc
  obtain ⟨-, hterm⟩ := leads_spec hc.1
  obtain ⟨hlead', hterm'⟩ := leads_spec hc'
  refine ⟨c, c', hrun.mono fun _ _ => of_decide_eq_true, hrun'.mono fun _ _ => of_decide_eq_true,
    hlead', hc.2, ?_⟩
  exact leaders_complete bootstrapped_three idOk_three (fun _ => ()) 0
    (hrun.mono fun _ _ => of_decide_eq_true) (hrun'.mono fun _ _ => of_decide_eq_true) n1 n2 hlead'
    (by rw [hterm, hterm']; omega)

/-- What two nodes had committed, at a moment of a run and at a later one. -/
lemma ClusterAt.comparable {P : Cluster σ → ClusterAct σ → Prop}
    (hboot : ∀ n, Bootstrapped initial n (config n)) {user : CString → σ} {clockMs : ℤ}
    {a' : State CString ℤ LogEntry}
    (hrun : Run (Cluster.exec A) P (Cluster.boot A config user clockMs) c)
    (hinv : CommitInv (params members) a) (hat : ClusterAt members .commits a c)
    (hrun' : Run (Cluster.exec A) P (Cluster.boot A config user clockMs) c')
    (hsteps : Steps (params members) .commits a a') (hat' : ClusterAt members .commits a' c')
    (p q : CString) : (c.hosts p).node.committed <+: (c'.hosts q).node.committed ∨
      (c'.hosts q).node.committed <+: (c.hosts p).node.committed := by
  rcases hat.log_cases hboot hrun p with hp | ⟨-, -, hp⟩
  · left
    rw [Node.committed, hp, List.take_nil]
    exact List.nil_prefix
  rcases hat'.log_cases hboot hrun' q with hq | ⟨-, -, hq⟩
  · right
    rw [Node.committed, hq, List.take_nil]
    exact List.nil_prefix
  · rw [← hp, ← hq]
    exact committed_comparable hinv hsteps p q

/-- **Committed prefixes**: of what two nodes had committed, at two moments of a run, one continues
the other. -/
theorem committed_prefixes (hboot : ∀ n, Bootstrapped initial n (config n))
    (hids : ∀ m ∈ initial, IdOk m) (user : CString → σ) (clockMs : ℤ)
    (hrun : Run (Cluster.exec A) (SafeTick A) (Cluster.boot A config user clockMs) c)
    (hrun' : Run (Cluster.exec A) (SafeTick A) c c') (p q : CString) :
    (c.hosts p).node.committed <+: (c'.hosts q).node.committed ∨
      (c'.hosts q).node.committed <+: (c.hosts p).node.committed := by
  obtain ⟨a, hinv, hat⟩ := clusterAt_safeTicks hboot hids hrun
  obtain ⟨a', hsteps, hat'⟩ := clusterAt_laterTicks hat hrun'
  exact hat.comparable hboot hrun hinv (hrun.trans hrun') hsteps hat' p q

/-- What `n1` and `n2` committed, before and after the second election. -/
theorem committed_prefixes_three : ∃ c c' : Cluster Unit,
    Run (Cluster.exec fun _ => silent) (SafeTick fun _ => silent) threeNodes c ∧
    Run (Cluster.exec fun _ => silent) (SafeTick fun _ => silent) c c' ∧
    (c.hosts n1).node.committed ≠ [] ∧ (c'.hosts n2).node.committed ≠ [] ∧
    ((c.hosts n1).node.committed <+: (c'.hosts n2).node.committed ∨
      (c'.hosts n2).node.committed <+: (c.hosts n1).node.committed) := by
  have hexec : (execAll (Cluster.exec fun _ => silent)
      (fun c act => decide (SafeTick (fun _ => silent) c act)) threeNodes coveredCommand).any
        (fun c => hasCommitted c n1 && (execAll (Cluster.exec fun _ => silent)
          (fun c act => decide (SafeTick (fun _ => silent) c act)) c laterElection).any fun c' =>
            hasCommitted c' n2) = true := by
    decide +kernel
  obtain ⟨c, c', hrun, hc, hrun', hc'⟩ := Run.exists_two_of_execAll hexec
  rw [hasCommitted, decide_eq_true_eq] at hc hc'
  refine ⟨c, c', hrun.mono fun _ _ => of_decide_eq_true, hrun'.mono fun _ _ => of_decide_eq_true,
    hc, hc', ?_⟩
  exact committed_prefixes bootstrapped_three idOk_three (fun _ => ()) 0
    (hrun.mono fun _ _ => of_decide_eq_true) (hrun'.mono fun _ _ => of_decide_eq_true) n1 n2

end RaftRx.C
