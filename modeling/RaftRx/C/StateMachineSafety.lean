import RaftRx.C.ElectionSafety

/-!
State machine safety of clusters of C nodes.

A follower that accepts a batch answers with the last index of its whole log.  What lies behind the
batch was never compared with the leader's log, so a leader may count an entry as replicated that
the follower does not hold.

* `TickAct`: ticks without a membership change and without compaction;
* `SuffixOk`: the log a follower acknowledges is really the leader's (`AppendCovered`);
* `AppliedAgree`: entries applied at one index carry one command;
* `appliedAgree_of_suffixOk`: runs in which every accepted batch is covered are safe;
* `applied_disagree`: a heartbeat to a follower with a stale suffix is enough to lose safety.
-/

namespace RaftRx.C

open Protocol

variable {σ : Type*}

/-! ### Runs -/

/-- The dump saves no snapshot. -/
def NoSnapshot (A : Application σ) (x : Node σ) : Prop :=
  ∀ w ∈ (x.dumpOutputs A).writes, ∀ file, w ≠ .snapshot file

/-- Ticks without a membership change and without compaction. -/
def TickAct (A : CString → Application σ) (c : Cluster σ) (act : ClusterAct σ) : Prop :=
  match act.act with
  | .latch _ _ _ _ => True
  | .transition _ => True
  | .dump =>
      SameConfig (A act.host) (c.hosts act.host).node ∧
        NoSnapshot (A act.host) (c.hosts act.host).node
  | _ => False

instance (w : Write) : Decidable (∀ file, w ≠ .snapshot file) :=
  match w with
  | .snapshot file => isFalse fun h => h file rfl
  | .metaText _ => isTrue fun _ => by simp
  | .logText _ => isTrue fun _ => by simp

instance (A : Application σ) (x : Node σ) : Decidable (NoSnapshot A x) :=
  inferInstanceAs (Decidable (∀ w ∈ _, _))

instance (A : CString → Application σ) (c : Cluster σ) (act : ClusterAct σ) :
    Decidable (TickAct A c act) :=
  match act with
  | ⟨_, .latch _ _ _ _⟩ | ⟨_, .transition _⟩ => inferInstanceAs (Decidable True)
  | ⟨_, .dump⟩ => inferInstanceAs (Decidable (_ ∧ _))
  | ⟨_, .stop⟩ | ⟨_, .start _⟩ | ⟨_, .request _⟩ | ⟨_, .resetForJoin _ _⟩ | ⟨_, .crash _ _⟩
  | ⟨_, .crashInDump _ _ _ _⟩ | ⟨_, .crashInReset _ _ _⟩ => inferInstanceAs (Decidable False)

/-- A transition accepts only batches that cover the follower's log. -/
def SuffixOk (c : Cluster σ) (act : ClusterAct σ) : Prop :=
  match act.act with
  | .transition clockMs =>
      NextAppendCovered c act.host { (c.hosts act.host).node with clockMs := clockMs }
  | _ => True

instance (c : Cluster σ) (n : CString) (x : Node σ) (m : Message) :
    Decidable (AppendCovered c n x m) :=
  inferInstanceAs (Decidable (_ ∨ _))

instance (c : Cluster σ) (n : CString) (x : Node σ) : Decidable (NextAppendCovered c n x) :=
  inferInstanceAs (Decidable (_ → _))

instance (c : Cluster σ) (act : ClusterAct σ) : Decidable (SuffixOk c act) :=
  match act with
  | ⟨_, .transition _⟩ => inferInstanceAs (Decidable (NextAppendCovered _ _ _))
  | ⟨_, .latch _ _ _ _⟩ | ⟨_, .dump⟩ | ⟨_, .stop⟩ | ⟨_, .start _⟩ | ⟨_, .request _⟩
  | ⟨_, .resetForJoin _ _⟩ | ⟨_, .crash _ _⟩ | ⟨_, .crashInDump _ _ _ _⟩
  | ⟨_, .crashInReset _ _ _⟩ =>
      inferInstanceAs (Decidable True)

/-- **Entries applied at one index** carry one command, in every state of a run from `c₀`. -/
def AppliedAgree (A : CString → Application σ) (P : Cluster σ → ClusterAct σ → Prop)
    (c₀ : Cluster σ) : Prop :=
  ∀ c : Cluster σ, Run (Cluster.exec A) P c₀ c → ∀ (a b : CString) (i : ℤ) (e e' : LogEntry),
    (a, i, e) ∈ c.applied → (b, i, e') ∈ c.applied → e.command = e'.command

/-! ### Safety -/

variable {A : CString → Application σ}

lemma stepOk_of_tick {c : Cluster σ} {act : ClusterAct σ} (ht : TickAct A c act)
    (hh : HigherTermsOk c act) (hs : SuffixOk c act) : StepOk .commits A c act := by
  obtain ⟨n, act⟩ := act
  cases act with
  | latch clockMs s ms cs => exact hh
  | transition clockMs => exact ⟨hh, fun _ => hs⟩
  | dump => exact ⟨ht.1, fun _ file hfile => ht.2 _ hfile file rfl⟩
  | stop => trivial
  | start clockMs => exact absurd ht id
  | request ms => exact ht
  | resetForJoin clockMs user => exact ht
  | crash user clockMs => exact absurd ht id
  | crashInDump i j user clockMs => exact absurd ht id
  | crashInReset i user clockMs => exact absurd ht id

/-- **State machine safety** of every run whose accepted batches are covered. -/
theorem appliedAgree_of_suffixOk {initial : List CString} {config : CString → NodeConfig}
    (hboot : ∀ n, Bootstrapped initial n (config n)) (hids : ∀ m ∈ initial, IdOk m)
    (user : CString → σ) (clockMs : ℤ) :
    AppliedAgree A (fun c act => TickAct A c act ∧ HigherTermsOk c act ∧ SuffixOk c act)
      (Cluster.boot A config user clockMs) := by
  intro c hrun x y i e e' hx hy
  obtain ⟨a₀, hinv, hat₀⟩ := clusterAt_boot (A := A) .commits hboot hids user clockMs
  obtain ⟨a, hsteps, hat⟩ := clusterAt_run Mode.elects_commits (by simp) hat₀
    (hrun.mono fun _ _ h => stepOk_of_tick h.1 h.2.1 h.2.2)
  have happlied : ∀ n i e, (n, i, e) ∈ c.applied → (n, (i - 1).toNat, e) ∈ a.applied := by
    intro n i e hmem
    rw [hat.applied rfl]
    exact ⟨(n, i, e), hmem, rfl⟩
  have hcommit : CommitInv (params (startMembers initial)) a := commitInv_steps hinv hsteps
  rw [applied_unique hcommit (happlied x i e hx) (happlied y i e' hy)]

/-! ### A stale suffix -/

/-- A client command. -/
def putCommand (key : String) : Command := ⟨"put".toList, key.toList, []⟩

/-- A batch of entries. -/
def batch (a b : CString) (term prev prevTerm : ℤ) (prevLeader : CString) (es : List LogEntry) :
    Message :=
  { kind := .appendEntries, term := term, source := a, target := b, prevLogIndex := prev
    prevLogTerm := prevTerm, prevLogLeaderId := prevLeader, entries := es }

/-- The leader `n1` of term 1 takes a command that no other node gets to know. -/
def loneCommand : List (ClusterAct Unit) := firstElection ++ tick n1 1 [] [putCommand "x"]

/-- `n3` is elected in term 2 by `n2`; `n1` answers its heartbeat with the index of the lone
command, and `n3` counts it for a command of its own. -/
def countedSuffix : List (ClusterAct Unit) :=
  tick n3 1 [] [] ++ tick n3 2 [] [] ++ tick n3 3 [] [] ++
    tick n2 3 [voteRequest n3 n2 2 0 0] [] ++ tick n3 3 [voteGrant n2 n3 2] [] ++ tick n3 3 [] [] ++
    tick n1 3 [heartbeat n3 n1 2] [] ++
    tick n3 3 [appendAnswer n1 n3 2 true 1] [putCommand "y"]

/-- `n1` is elected in term 3 by `n2` and brings the lone command through. -/
def revivedCommand : List (ClusterAct Unit) :=
  tick n1 5 [] [] ++ tick n2 5 [voteRequest n1 n2 3 1 1] [] ++
    tick n1 5 [voteGrant n2 n1 3] [] ++ tick n1 5 [] [] ++
    tick n2 5 [batch n1 n2 3 1 1 n1 []] [] ++
    tick n1 5 [appendAnswer n2 n1 3 false 0] [putCommand "z"] ++
    tick n2 5 [batch n1 n2 3 0 0 []
      [⟨1, 1, n1, putCommand "x"⟩, ⟨2, 3, n1, putCommand "z"⟩]] [] ++
    tick n1 5 [appendAnswer n2 n1 3 true 2] []

/-- The node has applied the command at the index. -/
def hasApplied (c : Cluster Unit) (n : CString) (i : ℤ) (command : Command) : Bool :=
  c.applied.any fun r => decide (r.1 = n) && decide (r.2.1 = i) && decide (r.2.2.command = command)

lemma hasApplied_spec {c : Cluster Unit} {n : CString} {i : ℤ} {command : Command}
    (h : hasApplied c n i command = true) :
    ∃ e, (n, i, e) ∈ c.applied ∧ e.command = command := by
  rw [hasApplied, List.any_eq_true] at h
  obtain ⟨⟨n', i', e⟩, hmem, hp⟩ := h
  simp only [Bool.and_eq_true, decide_eq_true_eq] at hp
  obtain ⟨⟨rfl, rfl⟩, hc⟩ := hp
  exact ⟨e, hmem, hc⟩

/-- Two nodes apply one entry: the leader, and a follower whose log the batches cover. -/
def coveredCommand : List (ClusterAct Unit) :=
  loneCommand ++ tick n2 1 [batch n1 n2 1 0 0 [] [⟨1, 1, n1, putCommand "x"⟩]] [] ++
    tick n1 1 [appendAnswer n2 n1 1 true 1] [] ++ tick n1 11 [] [] ++
    tick n2 11 [{ batch n1 n2 1 1 1 n1 [] with leaderCommit := 1 }] []

/-- A run whose batches are covered, with entries applied by two nodes. -/
theorem appliedAgree_three : ∃ (c : Cluster Unit) (e e' : LogEntry),
    Run (Cluster.exec fun _ => silent) (fun c act => TickAct (fun _ => silent) c act ∧
      HigherTermsOk c act ∧ SuffixOk c act) threeNodes c ∧
    (n1, 1, e) ∈ c.applied ∧ (n2, 1, e') ∈ c.applied ∧ e.command = e'.command := by
  have hexec : (execAll (Cluster.exec fun _ => silent)
      (fun c act => decide (TickAct (fun _ => silent) c act ∧ HigherTermsOk c act ∧ SuffixOk c act))
      threeNodes coveredCommand).any (fun c =>
        hasApplied c n1 1 (putCommand "x") && hasApplied c n2 1 (putCommand "x")) = true := by
    decide +kernel
  obtain ⟨c, hrun, hc⟩ := Run.exists_of_execAll hexec
  rw [Bool.and_eq_true] at hc
  obtain ⟨e, he, -⟩ := hasApplied_spec hc.1
  obtain ⟨e', he', -⟩ := hasApplied_spec hc.2
  have hrun' := hrun.mono (fun _ _ => of_decide_eq_true)
  exact ⟨c, e, e', hrun', he, he', appliedAgree_of_suffixOk bootstrapped_three idOk_three
    (fun _ => ()) 0 c hrun' n1 n2 1 e e' he he'⟩

/-- **Two commands at one index**: `n3` applies its own command at index 1 and `n1` the lone
one. -/
theorem applied_disagree :
    ¬ AppliedAgree (fun _ => silent) (TickAct fun _ => silent) threeNodes := by
  intro hagree
  have hexec : (execAll (Cluster.exec fun _ => silent)
      (fun c act => decide (TickAct (fun _ => silent) c act)) threeNodes
      (loneCommand ++ countedSuffix ++ revivedCommand)).any (fun c =>
        hasApplied c n1 1 (putCommand "x") && hasApplied c n3 1 (putCommand "y")) = true := by
    decide +kernel
  obtain ⟨c, hrun, hc⟩ := Run.exists_of_execAll hexec
  rw [Bool.and_eq_true] at hc
  obtain ⟨e, he, hx⟩ := hasApplied_spec hc.1
  obtain ⟨e', he', hy⟩ := hasApplied_spec hc.2
  have heq := hagree c (hrun.mono fun _ _ => of_decide_eq_true) n1 n3 1 e e' he he'
  rw [hx, hy] at heq
  exact absurd heq (by decide)

end RaftRx.C
