import RaftRx.Python.Hosts
import RaftRx.Python.Compaction

/-!
Clusters of Python nodes that were given the same initial members, as states of the protocol.

* `Bootstrapped`: the configuration a node of such a cluster starts with;
* `ClusterAt`: the cluster is an abstract state;
* `clusterAt_boot`: a cluster on empty directories is;
* `NoMembershipChange`, `NoCompaction`, `NoRestart`: conditions on the acts of a run;
* `clusterAt_exec`, `clusterAt_run`: an act that meets the conditions of its mode is a sequence of
  steps, and so is a run.
-/

namespace RaftRx.Python

open Protocol

variable {σ ν : Type} {E : Str → Env σ ν} {members : List Str} {mode : Mode} {n : Str}
  {a a' : State Str ℤ LogEntry} {c c' : Cluster σ ν} {act : ClusterAct σ}

/-! ### Bootstrapping -/

/-- The configuration of a node that is given the initial members of the cluster. -/
structure Bootstrapped (members : List Str) (n : Str) (config : NodeConfig) : Prop where
  nodeId : config.nodeId = n
  start : ClusterConfiguration.normalizeMembers config.startMembers = members

/-! ### Clusters as abstract states -/

/-- **The cluster is an abstract state.** -/
structure ClusterAt (members : List Str) (mode : Mode) (a : State Str ℤ LogEntry)
    (c : Cluster σ ν) : Prop where
  sent : a.sent = {p | ∃ m ∈ c.network, m.promise = some p}
  hosts : ∀ n, HostAt members mode n a (c.hosts n)
  sane : mode.keepsLogs → ∀ m ∈ c.network, m.Sane

lemma ClusterAt.inv (h : ClusterAt members mode a c) : ModeInv (params members) mode a :=
  (h.hosts []).inv

/-- **A cluster on empty directories** is a fresh abstract state. -/
theorem clusterAt_boot (E : Str → Env σ ν) (mode : Mode) {config : Str → NodeConfig}
    (hboot : ∀ n, Bootstrapped members n (config n)) (user : Str → σ) (clockMs : ℤ) :
    ∃ a, ClusterAt members mode a (Cluster.boot E config user clockMs) := by
  have hloaded : ∀ n, Loaded Disk.empty (config n)
      (Node.init (E n) (config n) Disk.empty (user n) clockMs) :=
    fun n => loaded_init (config n) (user n) clockMs
  obtain ⟨srv, hsrv⟩ : ∃ srv : Str → Server Str ℤ LogEntry, ∀ n, srv n =
      (Node.init (E n) (config n) Disk.empty (user n) clockMs).view (Disk.empty : Disk ν).stored
        false := ⟨fun n => _, fun _ => rfl⟩
  have hfresh : ∀ n, Fresh (srv n) := fun n => by
    rw [hsrv]
    exact ⟨rfl, rfl, rfl, rfl, rfl, rfl, rfl, rfl, rfl⟩
  have hinv : ModeInv (params members) mode (State.fresh srv) := modeInv_fresh hfresh
  refine ⟨State.fresh srv, ?_, fun n => ?_, fun _ m hm => absurd hm List.not_mem_nil⟩
  · simp [State.fresh, Cluster.boot]
  · have hok : NodeOk members mode ∅ n (Node.init (E n) (config n) Disk.empty (user n) clockMs) :=
      (hloaded n).nodeOk (hboot n).nodeId (hboot n).start diskOk_empty
    exact HostAt.of_at rfl ⟨hinv, rfl, hsrv n, hok⟩ (hboot n).nodeId (hboot n).start diskOk_empty

/-! ### Conditions on acts -/

/-- Nobody asks for other members, the membership machine does not move, and no dump changes a
configuration. -/
def NoMembershipChange (E : Str → Env σ ν) (c : Cluster σ ν) (act : ClusterAct σ) : Prop :=
  match act.act with
  | .request _ => False
  | .membership => (c.hosts act.host).node.nextMembership = none
  | .dump => SameConfig (E act.host) (c.hosts act.host).node
  | _ => True

/-- No compaction ends. -/
def NoCompaction (c : Cluster σ ν) (act : ClusterAct σ) : Prop :=
  match act.act with
  | .compaction => ¬ (c.hosts act.host).node.Compacts
  | _ => True

/-- No node is stopped, started or lost. -/
def NoRestart (act : ClusterAct σ) : Prop :=
  match act.act with
  | .stop | .start _ | .crash _ _ | .crashInDump _ _ _ _ => False
  | _ => True

instance (E : Str → Env σ ν) (c : Cluster σ ν) (act : ClusterAct σ) :
    Decidable (NoMembershipChange E c act) := by
  unfold NoMembershipChange
  split <;> infer_instance

instance (c : Cluster σ ν) (act : ClusterAct σ) : Decidable (NoCompaction c act) := by
  unfold NoCompaction
  split <;> infer_instance

instance (act : ClusterAct σ) : Decidable (NoRestart act) := by
  unfold NoRestart
  split <;> infer_instance

/-- The log the follower would acknowledge as a whole is really the leader's: the batch reaches its
end or cuts it, it ends in the leader's own term, or it is a prefix of the sender's log. -/
def AppendCovered (c : Cluster σ ν) (n : Str) (L : List LogEntry) (m : Message) : Prop :=
  L.length ≤ m.prevLogIndex.toNat + m.entries.length ∨
  (∃ k < m.entries.length, ∃ e ∈ L[m.prevLogIndex.toNat + k]?, ∃ e' ∈ m.entries[k]?,
    e.term ≠ e'.term) ∨
  lastTerm LogEntry.term L = m.term ∨
  (m.source ≠ n ∧ (c.hosts m.source).node.running = true ∧
    (c.hosts m.source).node.role = .leader ∧ (c.hosts m.source).node.currentTerm = m.term ∧
    L <+: (c.hosts m.source).node.log)

/-- The batch the next transition accepts, if any, is covered. -/
def NextAppendCovered (c : Cluster σ ν) (act : ClusterAct σ) : Prop :=
  match act.act with
  | .transition clockMs =>
      ∀ m ∈ (c.hosts act.host).node.pendingAppendEntries.head?,
        Node.Accepts { (c.hosts act.host).node with clockMs := clockMs } m →
          AppendCovered c act.host (c.hosts act.host).node.log m
  | _ => True

instance (c : Cluster σ ν) (n : Str) (L : List LogEntry) (m : Message) :
    Decidable (AppendCovered c n L m) :=
  inferInstanceAs (Decidable (_ ∨ _))

instance (c : Cluster σ ν) (act : ClusterAct σ) : Decidable (NextAppendCovered c act) := by
  unfold NextAppendCovered
  split <;> infer_instance

/-- What is asked of an act in each mode. -/
structure StepOk (mode : Mode) (E : Str → Env σ ν) (c : Cluster σ ν) (act : ClusterAct σ) :
    Prop where
  membership : NoMembershipChange E c act
  compaction : mode.keepsLogs → NoCompaction c act
  restart : mode = .commits → NoRestart act
  covered : mode = .commits → NextAppendCovered c act

/-! ### Acts of a cluster -/

/-- A log that is kept as a whole, or ends with the batch. -/
lemma merge_length {L L' : List LogEntry} {prev : ℕ} {es : List LogEntry}
    (h : Merge LogEntry.term L prev es L') :
    (L' = L ∧ AgreeBelow LogEntry.term L prev es es.length) ∨ L'.length ≤ prev + es.length := by
  cases h with
  | keep hag => exact Or.inl ⟨rfl, hag⟩
  | extend j _ h1 h2 =>
      right
      rw [List.length_append, List.length_take, List.length_drop]
      omega
  | replace k j e e' _ he' _ _ =>
      right
      have hk : k < es.length := (List.getElem?_eq_some_iff.mp he').1
      rw [List.length_append, List.length_take, List.length_take, List.length_drop]
      omega

/-- A leader that runs is a leader of the abstract state. -/
lemma HostAt.leader {h : Host σ ν} (hat : HostAt members mode n a h)
    (hrun : h.node.running = true) (hl : h.node.role = .leader) :
    (a.srv n).role = .leader ∧ (a.srv n).term = h.node.currentTerm := by
  rw [(hat.running hrun).srv]
  exact ⟨hl, rfl⟩

/-- The log of a host is the log of its server. -/
lemma HostAt.log {h : Host σ ν} (hat : HostAt members mode n a h) (hk : mode.keepsLogs) :
    (a.srv n).log = h.node.log := by
  cases hrun : h.node.running with
  | true =>
      rw [(hat.running hrun).srv]
      rfl
  | false => exact ((hat.stopped hrun).log hk).symm

/-- **A covered batch** is covered in the sense of the protocol. -/
lemma batchCovered_of_appendCovered (hat : ClusterAt members mode a c) {L : List LogEntry}
    {m : Message} (hcov : mode = .commits → AppendCovered c n L m) :
    BatchCovered members mode n a L m := by
  intro hmode a' L' hl hL
  cases merge_length hL with
  | inl hkeep =>
      obtain ⟨rfl, hag⟩ := hkeep
      rcases hcov hmode with hle | ⟨k, hk, e, he, e', he', hne⟩ | hlast |
        ⟨hne, hrun, hlead, ht, hpre⟩
      · exact Or.inl hle
      · exact absurd (hag k hk e e' he he') hne
      · exact Or.inr (Or.inl hlast)
      · refine Or.inr (Or.inr ?_)
        obtain ⟨hrole, hterm⟩ := (hat.hosts m.source).leader hrun hlead
        rw [hl.others _ hne]
        refine ⟨hrole, hterm.trans ht, ?_⟩
        rw [(hat.hosts m.source).log (by rw [hmode]; trivial)]
        exact hpre
  | inr hlen => exact Or.inl hlen

/-- A message that was handed to the transport for a host is heard. -/
lemma ClusterAt.hears (hat : ClusterAt members mode a c) {m : Message} (hm : m ∈ c.network)
    (ht : m.target = n) : Hears mode a.sent n m := by
  refine ⟨ht, fun p hp => ?_, fun hk => hat.sane hk m hm⟩
  rw [hat.sent]
  exact ⟨m, hm, hp⟩

/-- The conditions on a cluster's act are those on its host's. -/
lemma actOk_of_stepOk (hat : ClusterAt members mode a c) (hdeliver : c.Deliverable act)
    (hok : StepOk mode E c act) :
    ActOk members mode (E act.host) act.host a (c.hosts act.host) act.act := by
  obtain ⟨n, act⟩ := act
  cases act with
  | latch clockMs ms cs => exact fun m hm => hat.hears (hdeliver m hm).1 (hdeliver m hm).2
  | transition clockMs =>
      exact fun m hm =>
        batchCovered_of_appendCovered hat fun hmode => hok.covered hmode m hm.head hm
  | dump => exact hok.membership
  | compaction => exact hok.compaction
  | membership => exact hok.membership
  | request ms => exact hok.membership
  | stop => exact fun hmode => hok.restart hmode
  | start clockMs => exact fun hmode => hok.restart hmode
  | crash user clockMs => exact fun hmode => hok.restart hmode
  | crashInDump i j user clockMs => exact fun hmode => hok.restart hmode

/-- The rest of the cluster does not notice the act of one host. -/
lemma HostAt.other {p : Str} {h : Host σ ν} {ms : List Message} (hat : HostAt members mode p a h)
    (hsim : Simulates members mode n ms a a') (hp : p ≠ n) : HostAt members mode p a' h := by
  have hinv := modeInv_steps hat.inv hsim.steps
  have hsub : a.sent ⊆ a'.sent := by
    rw [hsim.sent]
    exact Set.subset_union_left
  refine ⟨hinv, fun hrun => ⟨hinv, rfl, ?_, (hat.running hrun).ok.mono hsub⟩, fun hstop => ?_,
    hat.nodeId, hat.start, hat.disk⟩
  · rw [hsim.others p hp]
    exact (hat.running hrun).srv
  · rw [hsim.others p hp]
    exact hat.stopped hstop

/-- **An act of a cluster is a sequence of steps of the protocol.** -/
theorem clusterAt_exec (hel : mode.elects) (hat : ClusterAt members mode a c)
    (hok : StepOk mode E c act) (hexec : c.exec E act = some c') :
    ∃ a', Steps (params members) mode a a' ∧ ClusterAt members mode a' c' := by
  rw [Cluster.exec, Option.ite_none_right_eq_some] at hexec
  obtain ⟨hdeliver, hmap⟩ := hexec
  obtain ⟨⟨h', sends⟩, hhost, rfl⟩ := Option.map_eq_some_iff.mp hmap
  obtain ⟨a', hsim, hat'⟩ :=
    hostAt_exec hel (hat.hosts act.host) hhost (actOk_of_stepOk hat hdeliver hok)
  refine ⟨a', hsim.steps, ?_, fun p => ?_, fun hk m hm => ?_⟩
  · rw [hsim.sent, hat.sent]
    ext p
    simp only [Set.mem_union, Set.mem_ofPred_eq, List.mem_append]
    constructor
    · rintro (⟨m, hm, hp⟩ | ⟨m, hm, hp⟩)
      · exact ⟨m, Or.inl hm, hp⟩
      · exact ⟨m, Or.inr hm, hp⟩
    · rintro ⟨m, hm | hm, hp⟩
      · exact Or.inl ⟨m, hm, hp⟩
      · exact Or.inr ⟨m, hm, hp⟩
  · by_cases heq : p = act.host
    · subst heq
      simp only [Function.update_self]
      exact hat'
    · simp only [Function.update_of_ne heq]
      exact (hat.hosts p).other hsim heq
  · cases List.mem_append.mp hm with
    | inl hm => exact hat.sane hk m hm
    | inr hm => exact hsim.sane hk m hm

/-- **A run of a cluster is a run of the protocol.** -/
theorem clusterAt_run (hel : mode.elects) (hat : ClusterAt members mode a c)
    (hrun : Run (Cluster.exec E) (StepOk mode E) c c') :
    ∃ a', Steps (params members) mode a a' ∧ ClusterAt members mode a' c' := by
  induction hrun with
  | refl => exact ⟨a, Relation.ReflTransGen.refl, hat⟩
  | tail _ hstep ih =>
      obtain ⟨a1, hsteps, hat1⟩ := ih
      obtain ⟨act, hok, hexec⟩ := hstep
      obtain ⟨a2, hsteps', hat2⟩ := clusterAt_exec hel hat1 hok hexec
      exact ⟨a2, Relation.ReflTransGen.trans hsteps hsteps', hat2⟩

end RaftRx.Python
