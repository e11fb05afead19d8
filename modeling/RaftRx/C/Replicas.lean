import RaftRx.C.AppliedState
import RaftRx.C.Completeness
import RaftRx.C.KvSnapshot
import RaftRx.Library.Replicas

/-!
The applications of the nodes of a C cluster are replicas of one state machine.

The runs are those of `appliedAgree_of_suffixOk`, with one application on all nodes.  A batch may
cut applied entries off a log, and the application is rebuilt then; what is committed holds it
together.

* `replayed_safeTicks`: each application is the replay of the applied entries of its node;
* `Node.replica`: the node as a replica, whose log is what it knows to be committed;
* `replicas_follow`: of two nodes at two moments, the one that applied more is where the commands in
  between lead the other;
* `kvApplication`: the table of `raft_kv_make_application`.
-/

namespace RaftRx.C

open Protocol

variable {σ : Type*} {B : Application σ} {empty : σ} {initial : List CString}
  {config : CString → NodeConfig} {c c' : Cluster σ} {h h' : Host σ} {a : HostAct σ} {e : Effect}
  {x : Node σ}

/-! ### Safe ticks replay the log -/

/-- What one host does in a safe tick. -/
def PlainStep (B : Application σ) (h : Host σ) : HostAct σ → Prop
  | .latch _ _ _ _ | .transition _ => True
  | .dump => h.node.compacts B = false
  | _ => False

lemma compacts_of_noSnapshot (hno : NoSnapshot B x) : x.compacts B = false := by
  rw [Node.compacts, List.any_eq_false]
  intro w hw hsnap
  cases w with
  | snapshot file => exact hno _ hw file rfl
  | metaText _ => exact absurd hsnap (by simp [Write.isSnapshot])
  | logText _ => exact absurd hsnap (by simp [Write.isSnapshot])

lemma plainStep_of_safeTick {act : ClusterAct σ} (ht : SafeTick (fun _ => B) c act) :
    PlainStep B (c.hosts act.host) act.act := by
  obtain ⟨n, a⟩ := act
  obtain ⟨htick, -, -⟩ := ht
  cases a with
  | latch => trivial
  | transition => trivial
  | dump => exact compacts_of_noSnapshot htick.2
  | stop | start | request | resetForJoin | crash | crashInDump | crashInReset => exact htick.elim

/-- **Every phase of a tick** keeps the application the replay of the applied entries. -/
lemma Node.Replayed.step (hB : B.ReloadsTo empty) (hx : h.node.Replayed B empty)
    (hlc : ∀ m ∈ h.node.pendingAppendEntries, 0 ≤ m.leaderCommit) (ha : PlainStep B h a)
    (he : h.exec B a = some (h', e)) : h'.node.Replayed B empty := by
  obtain ⟨hcase, -⟩ := exec_cases he
  cases hcase with
  | latch clock slots ms cs _ =>
      exact hx.turns (turns_latchInputs (x := h.node) (H := fun _ => True) (C := fun _ => True)
        (fun _ _ => trivial) (fun _ _ => trivial) clock slots)
  | transition clock _ =>
      have hclock : Node.Replayed B empty { h.node with clockMs := clock } :=
        hx.frame rfl rfl rfl rfl rfl
      exact hclock.transition hB hlc
  | dumpStopped _ _ => exact hx.frame rfl rfl rfl rfl rfl
  | dump _ hrun =>
      have hdump := hx.dumped (maybeCompact_of_not_compacts hrun ha)
      exact hdump.frame rfl rfl rfl rfl rfl
  | stop | start | request | resetForJoin | crash | crashInDump | crashInReset => exact ha.elim

/-- **The application of every node** is the replay of the entries it applied. -/
lemma replayed_safeTicks (hB : B.ReloadsTo empty) (hboot : ∀ n, Bootstrapped initial n (config n))
    (hids : ∀ m ∈ initial, IdOk m) {user : CString → σ} {clockMs : ℤ}
    (hrun : Run (Cluster.exec fun _ => B) (SafeTick fun _ => B)
      (Cluster.boot (fun _ => B) config user clockMs) c) (n : CString) :
    (c.hosts n).node.Replayed B empty := by
  induction hrun with
  | refl => exact replayed_init hB (hboot n).learner plain_empty (user n) clockMs
  | @tail c c' hrun hst ih =>
      obtain ⟨act, ht, hexec⟩ := hst
      obtain ⟨a, -, hat⟩ := clusterAt_safeTicks hboot hids hrun
      rw [Cluster.exec, Option.ite_none_right_eq_some] at hexec
      obtain ⟨⟨hfits, -⟩, hmap⟩ := hexec
      obtain ⟨⟨h', effect⟩, hstep, rfl⟩ := Option.map_eq_some_iff.mp hmap
      by_cases hn : n = act.host
      · subst hn
        simp only [Function.update_self]
        refine ih.step hB (fun m hm => ?_) (plainStep_of_safeTick ht) hstep
        obtain ⟨-, hheard⟩ := (hat.hosts act.host hfits).node.ok.appends m hm
        exact (hheard.2 trivial).commit
      · simp only [Function.update_of_ne hn]
        exact ih

/-! ### Replicas -/

/-- What the application makes of an entry. -/
def Application.take (B : Application σ) (u : σ) (e : LogEntry) : σ :=
  if e.command.isInternal then u else B.run u e.command

lemma replay_eq_foldl (u : σ) (es : List LogEntry) : B.replay u es = es.foldl B.take u := by
  induction es using List.reverseRecOn with
  | nil => rfl
  | append_singleton es e ih =>
      rw [replay_concat, ih, List.foldl_append]
      rfl

/-- The entries a node has applied, of a log that is not compacted. -/
def Node.applied (x : Node σ) : List LogEntry := x.log.take x.lastApplied.toNat

/-- The node as a replica. -/
def Node.replica (x : Node σ) : Replica σ LogEntry :=
  { log := x.committed, count := x.lastApplied.toNat, state := x.user }

/-- It executed the entries it applied. -/
lemma Node.Replayed.executed (hx : x.Replayed B empty) : x.replica.executed = x.applied := by
  have hle : x.lastApplied.toNat ≤ x.commitIndex.toNat := Int.toNat_le_toNat hx.applied_le
  change (x.log.take x.commitIndex.toNat).take x.lastApplied.toNat = _
  rw [List.take_take, min_eq_left hle]
  rfl

lemma Node.Replayed.faithful (hx : x.Replayed B empty) : x.replica.Faithful B.take empty := by
  refine ⟨?_, ?_⟩
  · have h0 := hx.applied_le
    have h1 := hx.commit_le
    rw [hx.last] at h1
    change x.lastApplied.toNat ≤ (x.log.take x.commitIndex.toNat).length
    rw [List.length_take]
    omega
  · rw [hx.executed, ← replay_eq_foldl]
    exact hx.user

/-- Of two nodes, at two moments of a run, one had committed what the other had and more. -/
lemma comparable_replicas (hboot : ∀ n, Bootstrapped initial n (config n))
    (hids : ∀ m ∈ initial, IdOk m) {user : CString → σ} {clockMs : ℤ}
    (hrun : Run (Cluster.exec fun _ => B) (SafeTick fun _ => B)
      (Cluster.boot (fun _ => B) config user clockMs) c)
    (hrun' : Run (Cluster.exec fun _ => B) (SafeTick fun _ => B) c c') (p q : CString) :
    Replica.Comparable (c.hosts p).node.replica (c'.hosts q).node.replica := by
  obtain ⟨a, hinv, hat⟩ := clusterAt_safeTicks hboot hids hrun
  obtain ⟨a', hsteps, hat'⟩ := clusterAt_laterTicks hat hrun'
  exact hat.comparable hboot hrun hinv (hrun.trans hrun') hsteps hat' p q

/-- The second node is where the commands that it applied beyond the first one lead the first. -/
def Ahead (B : Application σ) (x y : Node σ) : Prop :=
  x.applied <+: y.applied ∧ y.user = B.replay x.user (y.applied.drop x.lastApplied.toNat)

lemma ahead_of_replicas {y : Node σ} (hx : x.Replayed B empty) (hy : y.Replayed B empty)
    (hlog : Replica.Comparable x.replica y.replica) (hle : x.lastApplied ≤ y.lastApplied) :
    Ahead B x y := by
  have hcount : x.replica.count ≤ y.replica.count := Int.toNat_le_toNat hle
  refine ⟨?_, ?_⟩
  · rw [← hx.executed, ← hy.executed]
    exact hx.faithful.executed_prefix hy.faithful hlog hcount
  · rw [replay_eq_foldl, ← hy.executed]
    exact hx.faithful.follows hy.faithful hlog hcount

/-- **Replicas of one state machine**: of two nodes, at two moments of a run, the one that applied
more is where the commands in between lead the other; equal applied indices mean equal states. -/
theorem replicas_follow (hB : B.ReloadsTo empty) (hboot : ∀ n, Bootstrapped initial n (config n))
    (hids : ∀ m ∈ initial, IdOk m) (user : CString → σ) (clockMs : ℤ)
    (hrun : Run (Cluster.exec fun _ => B) (SafeTick fun _ => B)
      (Cluster.boot (fun _ => B) config user clockMs) c)
    (hrun' : Run (Cluster.exec fun _ => B) (SafeTick fun _ => B) c c') (p q : CString) :
    ((c.hosts p).node.lastApplied ≤ (c'.hosts q).node.lastApplied →
        Ahead B (c.hosts p).node (c'.hosts q).node) ∧
      ((c'.hosts q).node.lastApplied ≤ (c.hosts p).node.lastApplied →
        Ahead B (c'.hosts q).node (c.hosts p).node) := by
  have hp := replayed_safeTicks hB hboot hids hrun p
  have hq := replayed_safeTicks hB hboot hids (hrun.trans hrun') q
  have hlog := comparable_replicas hboot hids hrun hrun' p q
  exact ⟨ahead_of_replicas hp hq hlog, ahead_of_replicas hq hp hlog.symm⟩

/-! ### The key-value application -/

/-- The bytes of a text. -/
def bytesOf (text : List Char) : List UInt8 := text.map fun c => UInt8.ofNat c.toNat

/-- The text of some bytes. -/
def textOf (bytes : List UInt8) : List Char := bytes.map fun b => Char.ofNat b.toNat

/-- The loop stays inside the buffer. -/
lemma length_snapshotLoop_le (ps : List KvPair) : ∀ {out : List Char},
    out.length ≤ maxSnapshotSize → (snapshotLoop ps out).length ≤ maxSnapshotSize := by
  induction ps with
  | nil => exact id
  | cons p ps ih =>
      intro out hout
      rw [snapshotLoop]
      split_ifs with hused hfull hline
      · exact ih hout
      · exact hout
      · exact hout
      · refine ih ?_
        rw [List.length_append]
        omega

/-- `raft_kv_make_application` -/
def kvApplication : Application KvState where
  apply := some kvApply
  reload := some fun _ => KvState.init
  snapshot := some fun kv => ⟨bytesOf (kvSnapshot kv), by
    rw [bytesOf, List.length_map]
    exact length_snapshotLoop_le kv.pairs (Nat.zero_le _)⟩
  restoreSnapshot := some fun _ data => kvRestore (textOf data)

lemma kvApplication_reloads : kvApplication.ReloadsTo KvState.init := ⟨_, rfl, fun _ => rfl⟩

/-- A whole tick of one node. -/
def replicaTick (n : CString) (clockMs : ℤ) (ms : List Message) (cs : List Command) :
    List (ClusterAct KvState) :=
  (hostTick clockMs ms cs).map fun a => ⟨n, a⟩

/-- Three key-value stores. -/
def threeStores : Cluster KvState :=
  Cluster.boot (fun _ => kvApplication) threeConfig (fun _ => KvState.init) 0

/-- The leader `n1` and then `n2` apply an assignment. -/
def sharedSet : List (ClusterAct KvState) :=
  replicaTick n1 1 [] [] ++ replicaTick n2 1 [voteRequest n1 n2 1 0 0] [] ++
    replicaTick n1 1 [voteGrant n2 n1 1] [] ++ replicaTick n1 1 [] [] ++
    replicaTick n1 1 [] [cmdSet "x".toList "1".toList] ++
    replicaTick n2 1 [batch n1 n2 1 0 0 [] [⟨1, 1, n1, cmdSet "x".toList "1".toList⟩]] [] ++
    replicaTick n1 1 [appendAnswer n2 n1 1 true 1] [] ++ replicaTick n1 11 [] [] ++
    replicaTick n2 11 [{ batch n1 n2 1 1 1 n1 [] with leaderCommit := 1 }] []

/-- Both answer what was assigned. -/
theorem replicas_follow_set : ∃ c,
    Run (Cluster.exec fun _ => kvApplication) (SafeTick fun _ => kvApplication) threeStores c ∧
    kvGet (c.hosts n1).node.user "x".toList = "1".toList ∧
    (c.hosts n1).node.lastApplied = 1 ∧ (c.hosts n2).node.lastApplied = 1 ∧
    Ahead kvApplication (c.hosts n1).node (c.hosts n2).node := by
  have hexec : (execAll (Cluster.exec fun _ => kvApplication)
      (fun c act => decide (SafeTick (fun _ => kvApplication) c act)) threeStores sharedSet).any
        (fun c => decide (kvGet (c.hosts n1).node.user "x".toList = "1".toList ∧
          (c.hosts n1).node.lastApplied = 1 ∧ (c.hosts n2).node.lastApplied = 1)) = true := by
    decide +kernel
  obtain ⟨c, hrun, hc⟩ := Run.exists_of_execAll hexec
  obtain ⟨hget, hp, hq⟩ := of_decide_eq_true hc
  have hrun' := hrun.mono (fun _ _ => of_decide_eq_true)
  refine ⟨c, hrun', hget, hp, hq, ?_⟩
  exact (replicas_follow kvApplication_reloads bootstrapped_three idOk_three
    (fun _ => KvState.init) 0 hrun' (Run.refl c) n1 n2).1 (by rw [hp, hq])

end RaftRx.C
