import RaftRx.Python.Clusters

/-!
Election safety and log matching of clusters of Python nodes.

Both hold in every run without a membership change, with nodes that are stopped, started and lost at
any moment; log matching is about runs in which no compaction ends.

* `OneLeaderPerTerm`, `one_leader_per_term`: leaders of one term, at any two moments of a run, are
  one node;
* `LogsMatch`, `logs_match`: two logs with an entry of one index and term are equal up to it.
-/

namespace RaftRx.Python

open Protocol

variable {σ ν : Type} {E : Str → Env σ ν} {members : List Str} {mode : Mode} {n : Str}
  {a a' : State Str ℤ LogEntry} {c c' : Cluster σ ν}

/-! ### Election safety -/

/-- **Leaders of one term**, at two moments of a run from `c₀`, are one node. -/
def OneLeaderPerTerm (E : Str → Env σ ν) (P : Cluster σ ν → ClusterAct σ → Prop)
    (c₀ : Cluster σ ν) : Prop :=
  ∀ c c' : Cluster σ ν, Run (Cluster.exec E) P c₀ c → Run (Cluster.exec E) P c c' →
    ∀ a b : Str, (c.hosts a).node.role = .leader → (c'.hosts b).node.role = .leader →
      (c.hosts a).node.currentTerm = (c'.hosts b).node.currentTerm → a = b

/-- A leader is a member, and a stopped one is the only member. -/
lemma HostAt.leads {h : Host σ ν} (hat : HostAt members mode n a h)
    (hl : h.node.role = .leader) :
    (h.node.running = true ∧ n ∈ members) ∨ members = [n] := by
  cases hrun : h.node.running with
  | true => exact Or.inl ⟨rfl, (hat.running hrun).ok.member (by rw [hl]; simp)⟩
  | false => exact Or.inr ((hat.stopped hrun).leader hl)

/-- Leaders of one term in two states of a run. -/
lemma ClusterAt.leader_unique (hel : mode.elects) (hat : ClusterAt members mode a c)
    (hat' : ClusterAt members mode a' c') (hsteps : Steps (params members) mode a a') {p q : Str}
    (hp : (c.hosts p).node.role = .leader) (hq : (c'.hosts q).node.role = .leader)
    (hterm : (c.hosts p).node.currentTerm = (c'.hosts q).node.currentTerm) : p = q := by
  have halone : ∀ r s : Str, members = [r] → s ∈ members → s = r := by
    intro r s hone hs
    rw [hone] at hs
    exact List.mem_singleton.mp hs
  rcases (hat.hosts p).leads hp with ⟨hrun, hmem⟩ | hone
  · rcases (hat'.hosts q).leads hq with ⟨hrun', -⟩ | hone'
    · obtain ⟨hrole, htp⟩ := (hat.hosts p).leader hrun hp
      obtain ⟨hrole', htq⟩ := (hat'.hosts q).leader hrun' hq
      exact election_safety hel (hat.inv.election hel) hsteps hrole hrole'
        (by rw [htp, htq, hterm])
    · exact halone q p hone' hmem
  · rcases (hat'.hosts q).leads hq with ⟨-, hmem'⟩ | hone'
    · exact (halone p q hone hmem').symm
    · exact halone q p hone' (by rw [hone]; exact List.mem_singleton_self p)

/-- **Election safety** of every run without a membership change. -/
theorem one_leader_per_term (E : Str → Env σ ν) {config : Str → NodeConfig}
    (hboot : ∀ n, Bootstrapped members n (config n)) (user : Str → σ) (clockMs : ℤ) :
    OneLeaderPerTerm E (NoMembershipChange E) (Cluster.boot E config user clockMs) := by
  intro c c' hrun hrun' p q hp hq hterm
  have hstep : ∀ (c : Cluster σ ν) (act : ClusterAct σ), NoMembershipChange E c act →
      StepOk .election E c act := fun _ _ h =>
    ⟨h, fun hk => absurd hk id, fun hm => absurd hm (by simp), fun hm => absurd hm (by simp)⟩
  obtain ⟨a₀, hat₀⟩ := clusterAt_boot E .election hboot user clockMs
  obtain ⟨a, -, hat⟩ := clusterAt_run Mode.elects_election hat₀ (hrun.mono hstep)
  obtain ⟨a', hsteps, hat'⟩ := clusterAt_run Mode.elects_election hat (hrun'.mono hstep)
  exact hat.leader_unique Mode.elects_election hat' hsteps hp hq hterm

lemma bootstrapped_three (n : Str) :
    Bootstrapped [n1, n2, n3] n (impatient [n1, n2, n3] n) := by
  have hstart : ClusterConfiguration.normalizeMembers (impatient [n1, n2, n3] n1).startMembers =
      [n1, n2, n3] := by
    decide +kernel
  exact ⟨rfl, hstart⟩

/-- `n1` is elected in term 1 with the vote of `n2`, which dies and is started again. -/
def restartedElection : List (ClusterAct Unit) :=
  tick n1 1 [] [] ++ tick n2 0 [voteRequest n1 n2 1 0 0] [] ++ [⟨n2, .crash () 0⟩] ++
    tick n1 1 [voteGrant n2 n1 1] [] ++ tick n1 1 [] []

/-- The only leader of term 1 after that election. -/
theorem one_leader_per_term_three : ∃ c, Run (Cluster.exec fun _ => quiet)
    (NoMembershipChange fun _ => quiet) threeNodes c ∧
    (c.hosts n1).node.role = .leader ∧
    ∀ b, (c.hosts b).node.role = .leader →
      (c.hosts n1).node.currentTerm = (c.hosts b).node.currentTerm → n1 = b := by
  have hexec : (execAll (Cluster.exec fun _ => quiet)
      (fun c act => decide (NoMembershipChange (fun _ => quiet) c act)) threeNodes
      restartedElection).any (fun c => decide ((c.hosts n1).node.role = .leader)) = true := by
    decide +kernel
  obtain ⟨c, hrun, hc⟩ := Run.exists_of_execAll hexec
  have hrun' := hrun.mono (fun _ _ => of_decide_eq_true)
  have hlead : (c.hosts n1).node.role = .leader := of_decide_eq_true hc
  refine ⟨c, hrun', hlead, fun b hb hterm => ?_⟩
  exact one_leader_per_term (fun _ => quiet) bootstrapped_three (fun _ => ()) 0 c c hrun'
    (Run.refl c) n1 b hlead hb hterm

/-! ### Log matching -/

/-- The entries of a log up to an index. -/
def upTo (L : List LogEntry) (i : ℤ) : List LogEntry := L.filter fun e => decide (e.index ≤ i)

/-- **Logs match** in every state of a run from `c₀`: two logs with an entry of one index and one
term have the same entries up to it. -/
def LogsMatch (E : Str → Env σ ν) (P : Cluster σ ν → ClusterAct σ → Prop) (c₀ : Cluster σ ν) :
    Prop :=
  ∀ c : Cluster σ ν, Run (Cluster.exec E) P c₀ c →
    ∀ a b : Str, ∀ e ∈ (c.hosts a).node.log, ∀ e' ∈ (c.hosts b).node.log,
      e.index = e'.index → e.term = e'.term →
      upTo (c.hosts a).node.log e.index = upTo (c.hosts b).node.log e.index

/-- In a log that is numbered from `1`, the entries up to an index are its first ones. -/
lemma upTo_of_numbered {L : List LogEntry} (h : Numbered 0 L) (k : ℕ) :
    upTo L (k + 1) = L.take (k + 1) := by
  have hin : ∀ e ∈ L.take (k + 1), e.index ≤ k + 1 := by
    intro e he
    obtain ⟨i, hi⟩ := List.mem_iff_getElem?.mp he
    rw [List.getElem?_take] at hi
    split at hi
    · have := h i e hi
      omega
    · exact absurd hi (by simp)
  have hout : ∀ e ∈ L.drop (k + 1), ¬ e.index ≤ k + 1 := by
    intro e he
    obtain ⟨i, hi⟩ := List.mem_iff_getElem?.mp he
    rw [List.getElem?_drop] at hi
    have := h _ e hi
    push_cast at this
    omega
  calc upTo L (k + 1) = upTo (L.take (k + 1) ++ L.drop (k + 1)) (k + 1) := by
        rw [List.take_append_drop]
    _ = upTo (L.take (k + 1)) (k + 1) ++ upTo (L.drop (k + 1)) (k + 1) := List.filter_append ..
    _ = L.take (k + 1) ++ [] := by
        rw [upTo, upTo, List.filter_eq_self.mpr fun e he => decide_eq_true (hin e he),
          List.filter_eq_nil_iff.mpr fun e he => by simpa using hout e he]
    _ = L.take (k + 1) := List.append_nil _

/-- The logs of a cluster are numbered from `1`. -/
lemma ClusterAt.numbered (hk : mode.keepsLogs) (hat : ClusterAt members mode a c) (n : Str) :
    Numbered 0 (c.hosts n).node.log := by
  intro k e he
  rw [← (hat.hosts n).log hk] at he
  have hidx : e.index = (k : ℤ) + 1 := (hat.inv.logs hk).index_log n he
  omega

/-- **Log matching** of every run without a membership change in which no compaction ends. -/
theorem logs_match (E : Str → Env σ ν) {config : Str → NodeConfig}
    (hboot : ∀ n, Bootstrapped members n (config n)) (user : Str → σ) (clockMs : ℤ) :
    LogsMatch E (fun c act => NoMembershipChange E c act ∧ NoCompaction c act)
      (Cluster.boot E config user clockMs) := by
  intro c hrun p q e he e' he' hindex hterm
  have hstep : ∀ (c : Cluster σ ν) (act : ClusterAct σ),
      NoMembershipChange E c act ∧ NoCompaction c act → StepOk .logs E c act := fun _ _ h =>
    ⟨h.1, fun _ => h.2, fun hm => absurd hm (by simp), fun hm => absurd hm (by simp)⟩
  have hk : Mode.logs.keepsLogs := trivial
  obtain ⟨a₀, hat₀⟩ := clusterAt_boot E .logs hboot user clockMs
  obtain ⟨a, -, hat⟩ := clusterAt_run hk.elects hat₀ (hrun.mono hstep)
  have hp := hat.numbered hk p
  have hq := hat.numbered hk q
  obtain ⟨k, hek⟩ := List.mem_iff_getElem?.mp he
  obtain ⟨k', hek'⟩ := List.mem_iff_getElem?.mp he'
  have hidx : e.index = (k : ℤ) + 1 := by
    have := hp k e hek
    omega
  have hkk : k' = k := by
    have := hq k' e' hek'
    omega
  rw [hkk] at hek'
  have hmatch : (a.srv p).log.take (k + 1) = (a.srv q).log.take (k + 1) := by
    refine log_matching (P := params members) (hat.inv.logs hk) ?_ ?_ hterm
    · rw [(hat.hosts p).log hk]
      exact hek
    · rw [(hat.hosts q).log hk]
      exact hek'
  rw [(hat.hosts p).log hk, (hat.hosts q).log hk] at hmatch
  calc upTo (c.hosts p).node.log e.index
      = (c.hosts p).node.log.take (k + 1) := by rw [hidx, upTo_of_numbered hp]
    _ = (c.hosts q).node.log.take (k + 1) := hmatch
    _ = upTo (c.hosts q).node.log e.index := by rw [hidx, upTo_of_numbered hq]

/-- The leader of term 1 appends a command, sends it to `n2` and dies. -/
def oneBatch : List (ClusterAct Unit) :=
  restartedElection ++ tick n1 1 [] [putCommand "x"] ++
    tick n2 0 [batch n1 n2 1 0 0 [] [⟨1, 1, putCommand "x", n1⟩] 0] [] ++ [⟨n1, .crash () 0⟩]

/-- The logs of `n1` and `n2` match after that batch. -/
theorem logs_match_three : ∃ c, Run (Cluster.exec fun _ => quiet)
    (fun c act => NoMembershipChange (fun _ => quiet) c act ∧ NoCompaction c act) threeNodes c ∧
    (∃ e ∈ (c.hosts n1).node.log, ∃ e' ∈ (c.hosts n2).node.log,
      e.index = e'.index ∧ e.term = e'.term) ∧
    ∀ e ∈ (c.hosts n1).node.log, ∀ e' ∈ (c.hosts n2).node.log,
      e.index = e'.index → e.term = e'.term →
      upTo (c.hosts n1).node.log e.index = upTo (c.hosts n2).node.log e.index := by
  have hexec : (execAll (Cluster.exec fun _ => quiet)
      (fun c act => decide (NoMembershipChange (fun _ => quiet) c act ∧ NoCompaction c act))
      threeNodes oneBatch).any (fun c => decide (∃ e ∈ (c.hosts n1).node.log,
        ∃ e' ∈ (c.hosts n2).node.log, e.index = e'.index ∧ e.term = e'.term)) = true := by
    decide +kernel
  obtain ⟨c, hrun, hc⟩ := Run.exists_of_execAll hexec
  have hrun' := hrun.mono (fun _ _ => of_decide_eq_true)
  refine ⟨c, hrun', of_decide_eq_true hc, fun e he e' he' => ?_⟩
  exact logs_match (fun _ => quiet) bootstrapped_three (fun _ => ()) 0 c hrun' n1 n2 e he e' he'

end RaftRx.Python
