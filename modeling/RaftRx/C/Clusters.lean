import RaftRx.C.Hosts

/-!
Clusters of C nodes that were given the same initial members, as states of the protocol.

* `Bootstrapped`: the configuration a node of such a cluster starts with;
* `ClusterAt`: the cluster is an abstract state;
* `clusterAt_boot`: a cluster on empty data directories is;
* `StepOk`, `clusterAt_exec`: an act that meets the conditions is a sequence of steps.
-/

namespace RaftRx.C

open Protocol

variable {σ : Type*} {A : CString → Application σ} {members : List CString} {mode : Mode}
  {n : CString} {a a' : State CString ℤ LogEntry} {c c' : Cluster σ} {act : ClusterAct σ}

/-! ### Bootstrapping -/

/-- The configuration of a node that is given the initial members of the cluster. -/
structure Bootstrapped (initial : List CString) (n : CString) (config : NodeConfig) : Prop where
  nodeId : config.nodeId = n
  given : config.initialMembers = initial
  nonempty : initial ≠ []
  learner : config.learner = false

/-- The members all nodes start with. -/
def startMembers (initial : List CString) : List CString := normalizeMembers initial maxNodes

lemma Bootstrapped.configOk {initial : List CString} {config : NodeConfig}
    (h : Bootstrapped initial n config) (hids : ∀ m ∈ initial, IdOk m) :
    ConfigOk mode (startMembers initial) config where
  learner := h.learner
  initial := by
    rw [h.given]
    exact fun m hm => Or.inr (hids m hm)
  alone := fun hi => absurd (h.given.symm.trans hi) h.nonempty
  common := fun _ => by
    rw [h.given]
    exact ⟨h.nonempty, rfl⟩

/-! ### Clusters as abstract states -/

/-- **The cluster is an abstract state.**  A node whose id does not fit its buffer never acts. -/
structure ClusterAt (members : List CString) (mode : Mode) (a : State CString ℤ LogEntry)
    (c : Cluster σ) : Prop where
  sent : a.sent = {p | ∃ m ∈ c.network, m.promise = some p}
  applied : mode = .commits →
    a.applied = {q | ∃ r ∈ c.applied, q = (r.1, (r.2.1 - 1).toNat, r.2.2)}
  hosts : ∀ n, n.length < maxId → HostAt members mode n a (c.hosts n)
  idle : ∀ n, maxId ≤ n.length → (c.hosts n).node.state = .follower
  network : ∀ m ∈ c.network, m.source.length < maxId ∧ SendOk mode m.source m

/-- The first node of a host, as a server. -/
lemma fresh_boot {A : Application σ} {initial : List CString} {config : NodeConfig}
    (h : Bootstrapped initial n config) (user : σ) (clockMs : ℤ) :
    Fresh ((Node.init A config Disk.empty user clockMs).view Disk.empty.stored false) := by
  obtain ⟨s, d, e, hinit⟩ := init_eq (A := A) h.learner Disk.empty user clockMs
  obtain ⟨v, hloaded⟩ := loaded_empty (A := A) config user clockMs
  rw [hinit, hloaded]
  exact ⟨rfl, rfl, rfl, rfl, rfl, rfl, rfl, rfl, rfl⟩

/-- **A cluster on empty data directories** is a fresh abstract state. -/
theorem clusterAt_boot (mode : Mode) {initial : List CString} {config : CString → NodeConfig}
    (hboot : ∀ n, Bootstrapped initial n (config n)) (hids : ∀ m ∈ initial, IdOk m)
    (user : CString → σ) (clockMs : ℤ) :
    ∃ a, ModeInv (params (startMembers initial)) mode a ∧
      ClusterAt (startMembers initial) mode a (Cluster.boot A config user clockMs) := by
  have hinv : ModeInv (params (startMembers initial)) mode (State.fresh fun n =>
      (Node.init (A n) (config n) Disk.empty (user n) clockMs).view Disk.empty.stored false) :=
    modeInv_fresh fun n => fresh_boot (hboot n) (user n) clockMs
  refine ⟨_, hinv, ?_⟩
  refine ⟨by simp [State.fresh, Cluster.boot], fun _ => by simp [State.fresh, Cluster.boot], ?_, ?_,
    by simp [Cluster.boot]⟩
  · intro n hn
    have hconf : ConfigOk mode (startMembers initial) (config n) := (hboot n).configOk hids
    obtain ⟨hok, -, -, -, hout⟩ := nodeOk_init (A := A n) (S := ∅) (hboot n).nodeId hn hconf
      diskOk_empty (user n) clockMs fun _ => good_boot (hboot n).learner (user n) clockMs
    exact ⟨⟨hinv, rfl, rfl, hok⟩, (hboot n).nodeId, hconf, fun _ => hout, diskOk_empty⟩
  · intro n _
    obtain ⟨s, d, e, hinit⟩ := init_eq (A := A n) (hboot n).learner Disk.empty (user n) clockMs
    obtain ⟨v, hloaded⟩ := loaded_empty (A := A n) (config n) (user n) clockMs
    simp only [Cluster.boot, Host.boot]
    rw [hinit, hloaded]
    rfl

/-! ### Acts of a cluster -/

/-- The dump leaves the configuration as it is. -/
def SameConfig (A : Application σ) (x : Node σ) : Prop :=
  (x.dumpOutputs A).node.configState = x.configState

/-- The log the follower would acknowledge as a whole is really the leader's: the batch reaches its
end or cuts it, it ends in the leader's own term, or it is a prefix of the sender's log. -/
def AppendCovered (c : Cluster σ) (n : CString) (x : Node σ) (m : Message) : Prop :=
  x.log.length ≤ m.prevLogIndex.toNat + m.entries.length ∨
  (∃ k < m.entries.length, ∃ e ∈ x.log[m.prevLogIndex.toNat + k]?, ∃ e' ∈ m.entries[k]?,
    e.term ≠ e'.term) ∨
  x.lastLogTerm = m.term ∨
  (m.source ≠ n ∧ (c.hosts m.source).node.state = .leader ∧
    (c.hosts m.source).node.currentTerm = m.term ∧ x.log <+: (c.hosts m.source).node.log)

/-- The batch the next transition accepts, if any, is covered. -/
def NextAppendCovered (c : Cluster σ) (n : CString) (x : Node σ) : Prop :=
  x.nextAction = some .handleAppendEntries → ∀ m ∈ x.pendingAppendEntries.head?,
    x.currentTerm ≤ m.term → x.prevMatches m = true → AppendCovered c n x m

/-- What is asked of an act in a mode in which elections are studied. -/
def StepOk (mode : Mode) (A : CString → Application σ) (c : Cluster σ) (act : ClusterAct σ) :
    Prop :=
  let x := (c.hosts act.host).node
  match act.act with
  | .latch _ _ ms _ => LatchOk x ms
  | .transition clockMs =>
      TransitionOk { x with clockMs := clockMs } ∧
        (mode = .commits → NextAppendCovered c act.host { x with clockMs := clockMs })
  | .dump =>
      SameConfig (A act.host) x ∧
        (mode.keepsLogs → ∀ file, Write.snapshot file ∉ (x.dumpOutputs (A act.host)).writes)
  | .stop => True
  | .start _ => ¬ mode.keepsLogs
  | .crash _ _ => ¬ mode.keepsLogs
  | .crashInDump _ _ _ _ => ¬ mode.keepsLogs ∧ SameConfig (A act.host) x
  | .request _ => False
  | .resetForJoin _ _ => False
  | .crashInReset _ _ _ => False

/-- A dump under one configuration. -/
lemma dumpOk_of_sameConfig {A : Application σ} {S : Set (Msg CString ℤ LogEntry)} {x : Node σ}
    (h : NodeOk members mode S n x) (hs : SameConfig A x)
    (hwhole : mode.keepsLogs → ∀ file, Write.snapshot file ∉ (x.dumpOutputs A).writes) :
    DumpOk mode A x := by
  refine ⟨?_, fun _ => hs, hwhole⟩
  rw [hs]
  intro m hm
  rcases List.mem_append.mp hm with hm | hm
  · exact h.old.id m hm
  · exact h.new.id m hm

/-- Without a change of the configuration the entries a dump applies move the applied index only. -/
lemma applyOnly_of_sameConfig {A : Application σ} {x : Node σ} (hrun : x.running = true)
    (hs : SameConfig A x) : ApplyOnly x.advanced.toApplyCount x.advanced (x.commitAndApply A).1 := by
  have hsame : (x.commitAndApply A).1.configState = x.advanced.configState := by
    rw [SameConfig, dumpOutputs_eq hrun] at hs
    have hstill := (still_maybeDriveMembership (x.commitAndApply A).1).trans
      (still_maybeCompact (A := A) _)
    exact hstill.configState.symm.trans (hs.trans (still_advanced x).configState.symm)
  rcases applyCommitted_cases (A := A) x.advanced.toApplyCount x.advanced with ⟨honly, -⟩ | hlt
  · exact honly
  · have hlt' : x.advanced.configState.index < (x.commitAndApply A).1.configState.index := hlt
    rw [hsame] at hlt'
    exact absurd hlt' (lt_irrefl _)

/-- A log that is kept as a whole, or ends with the batch. -/
lemma merge_length {L L' : List LogEntry} {prev : ℕ} {es : List LogEntry}
    (h : Merge LogEntry.term L prev es L') :
    (L' = L ∧ AgreeBelow LogEntry.term L prev es es.length) ∨ L'.length ≤ prev + es.length := by
  cases h with
  | keep hag => exact Or.inl ⟨rfl, hag⟩
  | extend j _ h1 h2 =>
      right
      rw [List.length_append, List.length_take, List.length_drop]
      omega
  | replace k j e e' _ he' _ _ =>
      right
      have hk : k < es.length := (List.getElem?_eq_some_iff.mp he').1
      rw [List.length_append, List.length_take, List.length_take, List.length_drop]
      omega

/-- **A covered batch** is covered in the sense of the protocol. -/
lemma batchCovered_of_appendCovered (hat : ClusterAt members mode a c) {x : Node σ} {m : Message}
    (hsrc : m.source.length < maxId) (hgood : mode = .commits → Good x)
    (hcov : mode = .commits → x.currentTerm ≤ m.term → x.prevMatches m = true →
      AppendCovered c n x m) : BatchCovered members mode n a x m := by
  intro hmode hterm hprev a' L hl hL
  have hlen := merge_length hL
  rcases hlen with ⟨rfl, hag⟩ | hlen
  · rcases hcov hmode hterm hprev with hle | ⟨k, hk, e, he, e', he', hne⟩ | hlast |
      ⟨hne, hlead, ht, hpre⟩
    · exact Or.inl hle
    · exact absurd (hag k hk e e' he he') hne
    · exact Or.inr (Or.inl ((hgood hmode).lastLogTerm.symm.trans hlast))
    · refine Or.inr (Or.inr ?_)
      rw [hl.others _ hne, (hat.hosts _ hsrc).node.srv]
      exact ⟨hlead, ht, hpre⟩
  · exact Or.inl hlen

/-- What a node hears was handed to the transport for it. -/
lemma ClusterAt.allHeard (hat : ClusterAt members mode a c) {ms : List Message}
    (hms : ∀ m ∈ ms, m ∈ c.network ∧ m.target = n) : AllHeard mode a.sent n ms := by
  intro m hm
  obtain ⟨hnet, htgt⟩ := hms m hm
  obtain ⟨hlen, hsend⟩ := hat.network m hnet
  refine ⟨⟨fun _ => ⟨htgt, hlen, fun p hp => ?_⟩, hsend.sane⟩, hsend.campaign⟩
  rw [hat.sent]
  exact ⟨m, hnet, hp⟩

/-- The conditions on a cluster's act are those on its host's. -/
lemma actOk_of_stepOk (hel : mode.elects) (hat : ClusterAt members mode a c)
    (hn : act.host.length < maxId)
    (hheard : ∀ m ∈ act.act.heard, m ∈ c.network ∧ m.target = act.host)
    (hok : StepOk mode A c act) :
    ActOk members mode (A act.host) act.host a (c.hosts act.host) act.act := by
  obtain ⟨n, act⟩ := act
  have hnode := (hat.hosts n hn).node
  cases act with
  | latch clockMs s ms cs => exact ⟨hat.allHeard hheard, fun _ => hok⟩
  | transition clockMs =>
      refine ⟨fun _ => hok.1, fun hnext m hm => ?_⟩
      obtain ⟨-, hhears⟩ := hnode.ok.appends m (List.mem_of_mem_head? hm)
      exact batchCovered_of_appendCovered hat (hhears.1 hel).2.1
        (fun hmode => ((hnode.clock clockMs _).ok.good (by rw [hmode]; trivial)))
        fun hmode => hok.2 hmode hnext m hm
  | dump => exact dumpOk_of_sameConfig hnode.ok hok.1 hok.2
  | stop => trivial
  | start clockMs => exact hok
  | request ms => trivial
  | resetForJoin clockMs user => exact hok
  | crash user clockMs => exact hok
  | crashInDump i j user clockMs =>
      exact ⟨hok.1, dumpOk_of_sameConfig hnode.ok hok.2 fun hk => absurd hk hok.1⟩
  | crashInReset i user clockMs => exact hok

/-- The rest of the cluster does not notice the act of one host. -/
lemma HostAt.other {p : CString} {h : Host σ} {ms : List Message} {es : List (ℤ × LogEntry)}
    (hat : HostAt members mode p a h) (hsim : Simulates members mode n ms es a a') (hp : p ≠ n) :
    HostAt members mode p a' h := by
  refine ⟨⟨modeInv_steps hat.node.inv hsim.steps, rfl, ?_, ?_⟩, hat.ok⟩
  · rw [hsim.others p hp]
    exact hat.node.srv
  · refine hat.node.ok.mono ?_
    rw [hsim.sent]
    exact Set.subset_union_left

/-- An act that meets the conditions of its host is a sequence of steps of the protocol. -/
lemma clusterAt_of_actOk (hlogs : mode ≠ .logs) (hat : ClusterAt members mode a c)
    (hok : ActOk members mode (A act.host) act.host a (c.hosts act.host) act.act)
    (hexec : c.exec A act = some c') :
    ∃ a', Steps (params members) mode a a' ∧ ClusterAt members mode a' c' := by
  rw [Cluster.exec, Option.ite_none_right_eq_some] at hexec
  obtain ⟨⟨hn, -⟩, hmap⟩ := hexec
  obtain ⟨⟨h', effect⟩, hhost, rfl⟩ := Option.map_eq_some_iff.mp hmap
  obtain ⟨a', hsim, hat'⟩ := hostAt_exec (hat.hosts _ hn) hlogs hhost hok
  refine ⟨a', hsim.steps, ?_, ?_, ?_, ?_, ?_⟩
  · rw [hsim.sent, hat.sent]
    ext p
    simp only [Set.mem_union, Set.mem_ofPred_eq, List.mem_append]
    constructor
    · rintro (⟨m, hm, hp⟩ | ⟨m, hm, hp⟩)
      · exact ⟨m, Or.inl hm, hp⟩
      · exact ⟨m, Or.inr hm, hp⟩
    · rintro ⟨m, hm | hm, hp⟩
      · exact Or.inl ⟨m, hm, hp⟩
      · exact Or.inr ⟨m, hm, hp⟩
  · intro hmode
    rw [hsim.applied hmode, hat.applied hmode]
    ext q
    simp only [Set.mem_union, Set.mem_ofPred_eq, List.mem_append, List.mem_map]
    constructor
    · rintro (⟨r, hr, hq⟩ | ⟨r, hr, hq⟩)
      · exact ⟨r, Or.inl hr, hq⟩
      · exact ⟨_, Or.inr ⟨r, hr, rfl⟩, hq⟩
    · rintro ⟨r, hr | ⟨r', hr', rfl⟩, hq⟩
      · exact Or.inl ⟨r, hr, hq⟩
      · exact Or.inr ⟨r', hr', hq⟩
  · intro p hp
    by_cases heq : p = act.host
    · subst heq
      simp only [Function.update_self]
      exact hat'
    · simp only [Function.update_of_ne heq]
      exact (hat.hosts p hp).other hsim heq
  · intro p hp
    have heq : p ≠ act.host := by
      rintro rfl
      exact absurd hn (not_lt.mpr hp)
    simp only [Function.update_of_ne heq]
    exact hat.idle p hp
  · intro m hm
    rcases List.mem_append.mp hm with hm | hm
    · exact hat.network m hm
    · have hsend := hsim.sendOk m hm
      rw [hsend.source]
      exact ⟨hn, hsend⟩

/-- **An act of a cluster is a sequence of steps of the protocol.** -/
theorem clusterAt_exec (hel : mode.elects) (hlogs : mode ≠ .logs) (hat : ClusterAt members mode a c)
    (hok : StepOk mode A c act) (hexec : c.exec A act = some c') :
    ∃ a', Steps (params members) mode a a' ∧ ClusterAt members mode a' c' := by
  have hcan := hexec
  rw [Cluster.exec, Option.ite_none_right_eq_some] at hcan
  exact clusterAt_of_actOk hlogs hat (actOk_of_stepOk hel hat hcan.1.1 hcan.1.2 hok) hexec

/-- **A run of a cluster is a run of the protocol.** -/
theorem clusterAt_run (hel : mode.elects) (hlogs : mode ≠ .logs) (hat : ClusterAt members mode a c)
    (hrun : Run (Cluster.exec A) (StepOk mode A) c c') :
    ∃ a', Steps (params members) mode a a' ∧ ClusterAt members mode a' c' := by
  induction hrun with
  | refl => exact ⟨a, Relation.ReflTransGen.refl, hat⟩
  | tail _ hstep ih =>
      obtain ⟨a1, hsteps, hat1⟩ := ih
      obtain ⟨act, hok, hexec⟩ := hstep
      obtain ⟨a2, hsteps', hat2⟩ := clusterAt_exec hel hlogs hat1 hok hexec
      exact ⟨a2, Relation.ReflTransGen.trans hsteps hsteps', hat2⟩

end RaftRx.C
