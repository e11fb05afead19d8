import RaftRx.C.Clusters

/-!
Election safety of clusters of C nodes.

`node_handle_term_update` raises the term of a node and leaves its role to the transition table.
Two paths get past the table: an answer to AppendEntries is handled while a leader or candidate
latches its inputs, and a candidate that reads a vote of a higher term stays a candidate with the
votes it has.  Both keep a role under a term that was never won.

* `OrdinaryAct`: ticks, stops and starts without a membership change;
* `HigherTermsOk`: neither of the two paths is taken;
* `LeadersUnique`: leaders of one term, at any two moments of a run, are one node;
* `leadersUnique_of_higherTermsOk`: runs that take neither path are safe;
* `two_leaders_in_one_term`: a run that takes the first path is not.
-/

namespace RaftRx.C

open Protocol

variable {σ : Type*}

/-! ### Runs -/

/-- Ticks, stops and starts without a membership change. -/
def OrdinaryAct (A : CString → Application σ) (c : Cluster σ) (act : ClusterAct σ) : Prop :=
  match act.act with
  | .latch _ _ _ _ => True
  | .transition _ => True
  | .dump => SameConfig (A act.host) (c.hosts act.host).node
  | .stop => True
  | .start _ => True
  | _ => False

instance (A : Application σ) (x : Node σ) : Decidable (SameConfig A x) :=
  inferInstanceAs (Decidable (_ = _))

instance (A : CString → Application σ) (c : Cluster σ) (act : ClusterAct σ) :
    Decidable (OrdinaryAct A c act) := by
  unfold OrdinaryAct
  split <;> infer_instance

/-- A latch meets no answer of a higher term in a leader or candidate, and a transition no vote of
a higher term in a candidate. -/
def HigherTermsOk (c : Cluster σ) (act : ClusterAct σ) : Prop :=
  match act.act with
  | .latch _ _ ms _ => LatchOk (c.hosts act.host).node ms
  | .transition clockMs => TransitionOk { (c.hosts act.host).node with clockMs := clockMs }
  | _ => True

instance (x : Node σ) (ms : List Message) : Decidable (LatchOk x ms) :=
  inferInstanceAs (Decidable (_ → _))

instance (x : Node σ) : Decidable (TransitionOk x) := inferInstanceAs (Decidable (_ → _))

instance (c : Cluster σ) (act : ClusterAct σ) : Decidable (HigherTermsOk c act) := by
  unfold HigherTermsOk
  split <;> infer_instance

/-- **Leaders of one term**, at two moments of a run from `c₀`, are one node. -/
def LeadersUnique (A : CString → Application σ) (P : Cluster σ → ClusterAct σ → Prop)
    (c₀ : Cluster σ) : Prop :=
  ∀ c c' : Cluster σ, Run (Cluster.exec A) P c₀ c → Run (Cluster.exec A) P c c' →
    ∀ a b : CString, (c.hosts a).node.state = .leader → (c'.hosts b).node.state = .leader →
      (c.hosts a).node.currentTerm = (c'.hosts b).node.currentTerm → a = b

/-! ### Safety -/

variable {A : CString → Application σ} {members : List CString}
  {a : State CString ℤ LogEntry} {c : Cluster σ}

/-- A leader of the cluster is a leader of the abstract state. -/
lemma ClusterAt.leader {mode : Mode} {n : CString} (hat : ClusterAt members mode a c)
    (hl : (c.hosts n).node.state = .leader) :
    (a.srv n).role = .leader ∧ (a.srv n).term = (c.hosts n).node.currentTerm := by
  have hn : n.length < maxId := by
    by_contra hlen
    have := hat.idle n (not_lt.mp hlen)
    rw [hl] at this
    simp at this
  rw [(hat.hosts n hn).node.srv]
  exact ⟨hl, rfl⟩

lemma stepOk_of_ordinary {c : Cluster σ} {act : ClusterAct σ} (ho : OrdinaryAct A c act)
    (hh : HigherTermsOk c act) : StepOk .election A c act := by
  obtain ⟨n, act⟩ := act
  cases act with
  | latch clockMs s ms cs => exact hh
  | transition clockMs => exact ⟨hh, fun h => absurd h (by simp)⟩
  | dump => exact ⟨ho, fun h => absurd h id⟩
  | stop => trivial
  | start clockMs => exact id
  | request ms => exact ho
  | resetForJoin clockMs user => exact ho
  | crash user clockMs => exact absurd ho id
  | crashInDump i j user clockMs => exact absurd ho id
  | crashInReset i user clockMs => exact absurd ho id

/-- **Election safety** of every run that does not raise a term under a role it was not won in. -/
theorem leadersUnique_of_higherTermsOk {initial : List CString} {config : CString → NodeConfig}
    (hboot : ∀ n, Bootstrapped initial n (config n)) (hids : ∀ m ∈ initial, IdOk m)
    (user : CString → σ) (clockMs : ℤ) :
    LeadersUnique A (fun c act => OrdinaryAct A c act ∧ HigherTermsOk c act)
      (Cluster.boot A config user clockMs) := by
  intro c c' hrun hrun' x y hx hy hterm
  have hstep : ∀ (c : Cluster σ) (act : ClusterAct σ),
      OrdinaryAct A c act ∧ HigherTermsOk c act → StepOk .election A c act :=
    fun _ _ h => stepOk_of_ordinary h.1 h.2
  obtain ⟨a₀, hinv, hat₀⟩ := clusterAt_boot (A := A) .election hboot hids user clockMs
  obtain ⟨a, hsteps, hat⟩ :=
    clusterAt_run Mode.elects_election (by simp) hat₀ (hrun.mono hstep)
  obtain ⟨a', hsteps', hat'⟩ :=
    clusterAt_run Mode.elects_election (by simp) hat (hrun'.mono hstep)
  obtain ⟨hrole, hta⟩ := hat.leader hx
  obtain ⟨hrole', htb⟩ := hat'.leader hy
  exact election_safety (P := params (startMembers initial)) Mode.elects_election
    (modeInv_steps hinv hsteps) hsteps' hrole hrole' (by rw [hta, htb, hterm])

/-! ### Three nodes -/

/-- The ids of a cluster of three. -/
def n1 : CString := "n1".toList
/-- The second id. -/
def n2 : CString := "n2".toList
/-- The third id. -/
def n3 : CString := "n3".toList

/-- An application without callbacks. -/
def silent : Application Unit := ⟨none, none, none, none⟩

/-- `n1` and `n3` are impatient, `n2` is not. -/
def threeConfig (n : CString) : NodeConfig :=
  { nodeId := n, peers := [], initialMembers := [n1, n2, n3], learner := false
    electionTimeoutMs := if n = n2 then 1000 else 1, heartbeatIntervalMs := 10 }

/-- Three nodes on empty data directories. -/
def threeNodes : Cluster Unit := Cluster.boot (fun _ => silent) threeConfig (fun _ => ()) 0

/-- A whole tick. -/
def tick (n : CString) (clockMs : ℤ) (ms : List Message) (cs : List Command) :
    List (ClusterAct Unit) :=
  [⟨n, .latch clockMs (fun _ => ⟨0, 0, [], ⟨[], [], []⟩⟩) ms cs⟩, ⟨n, .transition clockMs⟩,
    ⟨n, .dump⟩]

/-- A vote request. -/
def voteRequest (a b : CString) (term lastIndex lastTerm : ℤ) : Message :=
  { kind := .requestVote, term := term, source := a, target := b
    lastLogIndex := lastIndex, lastLogTerm := lastTerm }

/-- A granted vote. -/
def voteGrant (a b : CString) (term : ℤ) : Message :=
  { kind := .requestVoteResponse, term := term, source := a, target := b, granted := true }

/-- A heartbeat to an empty log. -/
def heartbeat (a b : CString) (term : ℤ) : Message :=
  { kind := .appendEntries, term := term, source := a, target := b }

/-- An answer to AppendEntries. -/
def appendAnswer (a b : CString) (term : ℤ) (success : Bool) (index : ℤ) : Message :=
  { kind := .appendEntriesResponse, term := term, source := a, target := b, success := success
    matchIndex := index }

/-- `n1` is elected in term 1. -/
def firstElection : List (ClusterAct Unit) :=
  tick n1 1 [] [] ++ tick n2 1 [voteRequest n1 n2 1 0 0] [] ++
    tick n1 1 [voteGrant n2 n1 1] [] ++ tick n1 1 [] []

/-- `n3` is elected in term 2; `n2` refuses a heartbeat of term 1 and `n1` latches the refusal. -/
def secondElection : List (ClusterAct Unit) :=
  tick n3 1 [] [] ++ tick n3 2 [] [] ++ tick n3 3 [] [] ++
    tick n2 3 [voteRequest n3 n2 2 0 0] [] ++ tick n3 3 [voteGrant n2 n3 2] [] ++ tick n3 3 [] [] ++
    tick n2 3 [heartbeat n1 n2 1] [] ++
    [⟨n1, .latch 3 (fun _ => ⟨0, 0, [], ⟨[], [], []⟩⟩) [appendAnswer n2 n1 2 false 0] []⟩]

/-- The node leads in the term. -/
def leads (c : Cluster Unit) (n : CString) (term : ℤ) : Bool :=
  decide ((c.hosts n).node.state = .leader) && decide ((c.hosts n).node.currentTerm = term)

lemma leads_spec {c : Cluster Unit} {n : CString} {term : ℤ} (h : leads c n term = true) :
    (c.hosts n).node.state = .leader ∧ (c.hosts n).node.currentTerm = term := by
  rwa [leads, Bool.and_eq_true, decide_eq_true_eq, decide_eq_true_eq] at h

lemma bootstrapped_three (n : CString) : Bootstrapped [n1, n2, n3] n (threeConfig n) :=
  ⟨rfl, rfl, by simp, rfl⟩

lemma idOk_three : ∀ m ∈ [n1, n2, n3], IdOk m := by
  intro m hm
  simp only [List.mem_cons, List.not_mem_nil, or_false] at hm
  rcases hm with rfl | rfl | rfl
  all_goals exact ⟨by decide, by decide, by decide, by decide⟩

/-- An election that takes neither path: the leader is unique from there on. -/
theorem leadersUnique_three : ∃ c, Run (Cluster.exec fun _ => silent)
    (fun c act => OrdinaryAct (fun _ => silent) c act ∧ HigherTermsOk c act) threeNodes c ∧
    (c.hosts n1).node.state = .leader ∧
    ∀ b, (c.hosts b).node.state = .leader →
      (c.hosts n1).node.currentTerm = (c.hosts b).node.currentTerm → n1 = b := by
  have hexec : (execAll (Cluster.exec fun _ => silent)
      (fun c act => decide (OrdinaryAct (fun _ => silent) c act ∧ HigherTermsOk c act))
      threeNodes firstElection).any (fun c => leads c n1 1) = true := by
    decide +kernel
  obtain ⟨c, hrun, hc⟩ := Run.exists_of_execAll hexec
  have hrun' := hrun.mono (fun _ _ => of_decide_eq_true)
  refine ⟨c, hrun', (leads_spec hc).1, fun b hb hterm => ?_⟩
  exact leadersUnique_of_higherTermsOk bootstrapped_three idOk_three (fun _ => ()) 0 c c hrun'
    (Run.refl c) n1 b (leads_spec hc).1 hb hterm

/-- **Two leaders in one term**: the leader of term 1 latches an answer of term 2 and stays
LEADER, next to the leader of term 2. -/
theorem two_leaders_in_one_term :
    ¬ LeadersUnique (fun _ => silent) (OrdinaryAct fun _ => silent) threeNodes := by
  intro hunique
  have hexec : (execAll (Cluster.exec fun _ => silent)
      (fun c act => decide (OrdinaryAct (fun _ => silent) c act)) threeNodes
      (firstElection ++ secondElection)).any (fun c => leads c n1 2 && leads c n3 2) = true := by
    decide +kernel
  obtain ⟨c, hrun, hc⟩ := Run.exists_of_execAll hexec
  rw [Bool.and_eq_true] at hc
  obtain ⟨h1, ht1⟩ := leads_spec hc.1
  obtain ⟨h3, ht3⟩ := leads_spec hc.2
  have heq := hunique c c (hrun.mono fun _ _ => of_decide_eq_true) (Run.refl c) n1 n3 h1 h3
    (ht1.trans ht3.symm)
  exact absurd heq (by decide)

end RaftRx.C
