import RaftRx.C.FoundedHosts

/-!
How far the nodes of a cluster compact.

`node_compactible_index` bounds the compaction of a leader by its `match_index` table and that of
any other node by its own `last_applied`; nothing checks the bound again when a node is elected.

* `FoundedAct`: ticks, stops, starts and crashes without a change of the members;
* `Reached`, `Fell`: how far the log of a member has got, and that it went back;
* `CompactedAlone`: a node compacts while it does not lead;
* `Audited`: every acknowledgement on the way was true when it was queued, the board of a leader goes
  by such acknowledgements, and so does every snapshot of a leader;
* `stranded_only`: a leader's snapshot is ahead of a member only if the node compacted alone or the
  member's log went back;
* `members_stranded`: both happen.
-/

namespace RaftRx.C

open Protocol

variable {σ : Type*} {members : List CString} {n : CString}

/-! ### Runs without a change of the members -/

variable {B : CString → Application σ} {c₀ c c' : Cluster σ} {as : List (ClusterAct σ)}
  {act : ClusterAct σ} {p : CString} {t t' k k' s : ℤ}

/-- A tick, a stop, a start or a crash that leaves the members as they are. -/
def FoundedAct (B : CString → Application σ) (c : Cluster σ) (act : ClusterAct σ) : Prop :=
  (c.hosts act.host).Keeps (B act.host) act.act

instance (B : CString → Application σ) (c : Cluster σ) (act : ClusterAct σ) :
    Decidable (FoundedAct B c act) :=
  inferInstanceAs (Decidable (Host.Keeps _ _ _))

/-- A run without a change of the members. -/
abbrev FoundedRun (B : CString → Application σ) (c₀ : Cluster σ) (as : List (ClusterAct σ))
    (c : Cluster σ) : Prop :=
  RunBy (Cluster.exec B) (FoundedAct B) c₀ as c

/-- **The node is elected** in the run, in that term. -/
def ElectedIn (B : CString → Application σ) (c₀ : Cluster σ) (as : List (ClusterAct σ))
    (c : Cluster σ) (n : CString) (t : ℤ) : Prop :=
  Happened (Cluster.exec B) (FoundedAct B) c₀ as c fun b _ b' =>
    (b.hosts n).node.state ≠ .leader ∧ (b'.hosts n).node.state = .leader ∧
    (b'.hosts n).node.currentTerm = t

/-- **The node compacts up to that index while it does not lead**, at the end of a tick or in a crash
there. -/
def CompactedAlone (B : CString → Application σ) (c₀ : Cluster σ) (as : List (ClusterAct σ))
    (c : Cluster σ) (n : CString) (s : ℤ) : Prop :=
  Happened (Cluster.exec B) (FoundedAct B) c₀ as c fun b act _ =>
    act.host = n ∧ act.act.Dumps ∧ (b.hosts n).node.state ≠ .leader ∧
    (b.hosts n).node.snapshotLastIncludedIndex < s ∧
    ((b.hosts n).node.dumped (B n)).snapshotLastIncludedIndex = s

/-- **The log of the node falls below the index**, as it accepts a batch that conflicts with its log
or loads the log from its files. -/
def Fell (B : CString → Application σ) (c₀ : Cluster σ) (as : List (ClusterAct σ))
    (c : Cluster σ) (p : CString) (k : ℤ) : Prop :=
  Happened (Cluster.exec B) (FoundedAct B) c₀ as c fun b act b' =>
    act.host = p ∧ (b.hosts p).node.MayCut act.act ∧
    k ≤ (b.hosts p).node.lastLogIndex ∧ (b'.hosts p).node.lastLogIndex < k

/-- At some moment of the run the node was in that term or a later one, with a log that reached that
index. -/
def Reached (B : CString → Application σ) (c₀ : Cluster σ) (as : List (ClusterAct σ))
    (c : Cluster σ) (p : CString) (t k : ℤ) : Prop :=
  ∃ b bs, Moment (Cluster.exec B) (FoundedAct B) c₀ as c b bs ∧
    t ≤ (b.hosts p).node.currentTerm ∧ k ≤ (b.hosts p).node.lastLogIndex

lemma Reached.snoc (h : Reached B c₀ as c p t k) (hk : FoundedAct B c act)
    (he : c.exec B act = some c') : Reached B c₀ (as ++ [act]) c' p t k := by
  obtain ⟨b, bs, hmoment, hterm, hlast⟩ := h
  exact ⟨b, bs ++ [act], hmoment.snoc hk he, hterm, hlast⟩

lemma Reached.mono (h : Reached B c₀ as c p t k) (ht : t' ≤ t) (hk : k' ≤ k) :
    Reached B c₀ as c p t' k' := by
  obtain ⟨b, bs, hmoment, hterm, hlast⟩ := h
  exact ⟨b, bs, hmoment, ht.trans hterm, hk.trans hlast⟩

/-- The acts of others leave a host alone. -/
lemma hosts_other (he : c.exec B act = some c') (hp : p ≠ act.host) : c'.hosts p = c.hosts p := by
  rw [Cluster.exec, Option.ite_none_right_eq_some] at he
  obtain ⟨-, hmap⟩ := he
  obtain ⟨⟨h', e⟩, -, rfl⟩ := Option.map_eq_some_iff.mp hmap
  exact Function.update_of_ne hp ..

/-- The act is one of the host. -/
lemma exec_host (he : c.exec B act = some c') :
    ∃ e, (c.hosts act.host).exec (B act.host) act.act = some (c'.hosts act.host, e) := by
  rw [Cluster.exec, Option.ite_none_right_eq_some] at he
  obtain ⟨-, hmap⟩ := he
  obtain ⟨⟨h', e⟩, hhost, rfl⟩ := Option.map_eq_some_iff.mp hmap
  exact ⟨e, by simpa using hhost⟩

/-- **What a log has reached** it still reaches, unless it fell below. -/
lemma last_or_fell (hrun : FoundedRun B c₀ as c) (hk : k ≤ (c₀.hosts p).node.lastLogIndex) :
    k ≤ (c.hosts p).node.lastLogIndex ∨ Fell B c₀ as c p k := by
  refine hrun.invariant
    (I := fun as c => k ≤ (c.hosts p).node.lastLogIndex ∨ Fell B c₀ as c p k) (Or.inl hk)
    fun as c act c' hpre ih hact hexec => ?_
  rcases ih with hlast | hfell
  · by_cases hhost : p = act.host
    · subst hhost
      obtain ⟨e, he⟩ := exec_host hexec
      by_cases hle : k ≤ (c'.hosts act.host).node.lastLogIndex
      · exact Or.inl hle
      · by_cases hcut : (c.hosts act.host).node.MayCut act.act
        · exact Or.inr (Happened.last hpre hact hexec ⟨rfl, hcut, hlast, not_le.mp hle⟩)
        · exact absurd (hlast.trans (forward_exec hact hcut he).last) hle
    · rw [hosts_other hexec hhost]
      exact Or.inl hlast
  · exact Or.inr (hfell.snoc hact hexec)

/-! ### Acknowledgements on the way -/

/-- The board of a leader that was elected in term `t` goes by what its peers have reached in that
term or later. -/
structure Backed (B : CString → Application σ) (c₀ : Cluster σ) (as : List (ClusterAct σ))
    (c : Cluster σ) (n : CString) (t : ℤ) : Prop where
  elected : ElectedIn B c₀ as c n t
  term : t ≤ (c.hosts n).node.currentTerm
  places : (c.hosts n).node.config.peers.length ≤ (c.hosts n).node.matchIndex.length
  told : ∃ rs, (c.hosts n).node.board.Accounts rs ∧
    ∀ r ∈ rs, Reached B c₀ as c r.source t r.matchIndex

/-- Where a snapshot index of the node comes from: there was none yet, the node compacted alone, or
every other member has reached it in a term the node was elected in, or later. -/
def Made (B : CString → Application σ) (members : List CString) (c₀ : Cluster σ)
    (as : List (ClusterAct σ)) (c : Cluster σ) (n : CString) (s : ℤ) : Prop :=
  s = 0 ∨ CompactedAlone B c₀ as c n s ∨
    ∃ t, ElectedIn B c₀ as c n t ∧ ∀ p ∈ members, p ≠ n → Reached B c₀ as c p t s

lemma Made.snoc (h : Made B members c₀ as c n s) (hk : FoundedAct B c act)
    (he : c.exec B act = some c') : Made B members c₀ (as ++ [act]) c' n s := by
  rcases h with h | h | ⟨t, helected, hreached⟩
  · exact Or.inl h
  · exact Or.inr (Or.inl (h.snoc hk he))
  · exact Or.inr (Or.inr ⟨t, helected.snoc hk he, fun p hp hne => (hreached p hp hne).snoc hk he⟩)

/-- **Every acknowledgement on the way** was true when it was queued; leaders and snapshots go by
them. -/
structure Audited (B : CString → Application σ) (members : List CString) (c₀ : Cluster σ)
    (as : List (ClusterAct σ)) (c : Cluster σ) : Prop where
  state : ∃ a, ClusterAt members .ballots a c
  founded : ∀ n, n.length < maxId → (c.hosts n).Founded members
  sent : ∀ m ∈ c.network, m.Acks → Reached B c₀ as c m.source m.term m.matchIndex
  queued : ∀ n, n.length < maxId → ∀ m ∈ (c.hosts n).node.outbox, m.Acks →
    Reached B c₀ as c n m.term m.matchIndex
  backed : ∀ n, n.length < maxId → (c.hosts n).node.state = .leader → ∃ t, Backed B c₀ as c n t
  made : ∀ n, n.length < maxId →
    Made B members c₀ as c n (c.hosts n).node.snapshotLastIncludedIndex ∧
    Made B members c₀ as c n (c.hosts n).disk.snapshotIndex

/-- A new leader has nothing to account for. -/
lemma backed_elected {x : Node σ} (helected : ElectedIn B c₀ as c n (c.hosts n).node.currentTerm)
    (hboard : (c.hosts n).node.board = x.lead.board) :
    Backed B c₀ as c n (c.hosts n).node.currentTerm := by
  refine ⟨helected, le_rfl, ?_, ⟨[], ?_, fun r hr => absurd hr List.not_mem_nil⟩⟩
  · have hm : (c.hosts n).node.matchIndex = x.lead.matchIndex := congrArg Board.matchIndex hboard
    have hp : (c.hosts n).node.config.peers = x.config.peers := congrArg Board.peers hboard
    rw [hm, hp]
    change _ ≤ (List.replicate x.config.peers.length 0 ++ _).length
    rw [List.length_append, List.length_replicate]
    exact Nat.le_add_right _ _
  · rw [hboard]
    exact accounts_lead x

/-- What a leader takes was reached. -/
lemma reached_taken (hc : Audited B members c₀ as c) {ms : List Message}
    (hms : ∀ m ∈ ms, m ∈ c.network) (ht : t ≤ (c.hosts n).node.currentTerm) {r : Ack}
    (hr : r ∈ (c.hosts n).node.taken ms) : Reached B c₀ as c r.source t r.matchIndex := by
  rw [Node.taken] at hr
  split at hr
  · obtain ⟨m, hm, hkind, hok, hterm, hsrc, hidx⟩ := told_acksOf _ hr
    have hreached := hc.sent m (hms m (List.mem_of_mem_take hm)) ⟨hkind, hok⟩
    rw [hsrc, hidx] at hreached
    exact hreached.mono (ht.trans hterm) le_rfl
  · exact absurd hr List.not_mem_nil

lemma length_foldl_put (acks : List Ack) : ∀ b : Board,
    (acks.foldl Board.put b).matchIndex.length = b.matchIndex.length := by
  induction acks with
  | nil => exact fun _ => rfl
  | cons a acks ih => exact fun b => (ih (b.put a)).trans (List.length_set ..)

/-- **A leader that goes on leading** stays backed. -/
lemma backed_led (hb : Backed B c₀ as c n t) (hc : Audited B members c₀ as c)
    (hk : FoundedAct B c act) (he : c.exec B act = some c') {ms : List Message}
    (hms : ∀ m ∈ ms, m ∈ c.network)
    (hterm : (c.hosts n).node.currentTerm ≤ (c'.hosts n).node.currentTerm)
    (hboard : (c'.hosts n).node.board =
      ((c.hosts n).node.taken ms).foldl Board.put (c.hosts n).node.board) :
    Backed B c₀ (as ++ [act]) c' n t := by
  obtain ⟨helected, hle, hplaces, rs, hacc, htold⟩ := hb
  obtain ⟨-, hpeers⟩ := foldl_put_peers ((c.hosts n).node.taken ms) (c.hosts n).node.board
  have hlen := length_foldl_put ((c.hosts n).node.taken ms) (c.hosts n).node.board
  rw [← hboard] at hpeers hlen
  refine ⟨helected.snoc hk he, hle.trans hterm, ?_, ⟨rs ++ (c.hosts n).node.taken ms, ?_, ?_⟩⟩
  · exact (congrArg List.length hpeers).le.trans (hplaces.trans hlen.ge)
  · rw [hboard]
    exact (hacc.mono _).puts _ fun a ha => ⟨place_taken ha, List.mem_append_right _ ha⟩
  · intro r hr
    rcases List.mem_append.mp hr with hr | hr
    · exact (htold r hr).snoc hk he
    · exact (reached_taken hc hms hle hr).snoc hk he

/-- **What a leader compacts** every other member has reached. -/
lemma Backed.reached (hb : Backed B c₀ as c n t) (hc : Audited B members c₀ as c)
    (hm : MembersOk members) (hn : n.length < maxId) (hlead : (c.hosts n).node.state = .leader)
    (hlt : (c.hosts n).node.snapshotLastIncludedIndex < s)
    (hle : ∀ i < (c.hosts n).node.config.peers.length, i < (c.hosts n).node.matchIndex.length →
      s ≤ (c.hosts n).node.matchIndex.getD i 0) :
    ∀ p ∈ members, p ≠ n → Reached B c₀ as c p t s := by
  intro p hp hne
  obtain ⟨-, -, hplaces, rs, hacc, htold⟩ := hb
  obtain ⟨a, hat⟩ := hc.state
  have hid : (c.hosts n).node.config.nodeId = n := (hat.hosts n hn).node.ok.nodeId
  have hfounded := hc.founded n hn
  have hpeer := hfounded.node.peers_of_mem hm (hfounded.member (by rw [hlead]; decide)) hp
    (by rw [hid]; exact hne)
  obtain ⟨i, hi⟩ := exists_place hpeer
  have hbound := hle i (place_lt hi) ((place_lt hi).trans_le hplaces)
  have hpos := hfounded.node.snap
  rcases hacc p i hi with hzero | ⟨r, hr, hsrc, hidx⟩
  · have hzero' : (c.hosts n).node.matchIndex.getD i 0 = 0 := hzero
    omega
  · have hreached := htold r hr
    rw [hsrc, hidx] at hreached
    exact hreached.mono le_rfl hbound

/-! ### One act of a cluster -/

/-- **A host that acts** is backed while it leads. -/
lemma backed_exec (hrun : FoundedRun B c₀ as c) (hc : Audited B members c₀ as c)
    (hn : act.host.length < maxId) (hk : FoundedAct B c act) (he : c.exec B act = some c')
    (hl : (c'.hosts act.host).node.state = .leader) :
    ∃ t, Backed B c₀ (as ++ [act]) c' act.host t := by
  obtain ⟨e, hhost⟩ := exec_host he
  by_cases hlead : (c.hosts act.host).node.state = .leader
  · obtain ⟨t, hb⟩ := hc.backed _ hn hlead
    obtain ⟨hterm, hboard⟩ := led_exec hlead hl hk hhost
    have hheard : ∀ m ∈ act.act.heard, m ∈ c.network := by
      rw [Cluster.exec, Option.ite_none_right_eq_some] at he
      exact fun m hm => (he.1.2 m hm).1
    exact ⟨t, backed_led hb hc hk he hheard hterm hboard⟩
  · obtain ⟨x, hboard⟩ := elected_exec hlead hl hk hhost
    exact ⟨_, backed_elected (Happened.last hrun hk he ⟨hlead, hl, rfl⟩) hboard⟩

/-- **A host that acts** makes its snapshots as before. -/
lemma made_exec (hrun : FoundedRun B c₀ as c) (hc : Audited B members c₀ as c)
    (hm : MembersOk members) (hn : act.host.length < maxId) (hk : FoundedAct B c act)
    (he : c.exec B act = some c') :
    Made B members c₀ (as ++ [act]) c' act.host
        (c'.hosts act.host).node.snapshotLastIncludedIndex ∧
      Made B members c₀ (as ++ [act]) c' act.host (c'.hosts act.host).disk.snapshotIndex := by
  obtain ⟨a, hat⟩ := hc.state
  obtain ⟨hnode, hdisk⟩ := hc.made _ hn
  obtain ⟨e, hhost⟩ := exec_host he
  refine snap_exec (P := fun s => Made B members c₀ (as ++ [act]) c' act.host s)
    (hc.founded _ hn) hm (hat.hosts _ hn) hk hhost (hnode.snoc hk he) (hdisk.snoc hk he)
    fun hdumps hlt hle => ?_
  by_cases hlead : (c.hosts act.host).node.state = .leader
  · obtain ⟨t, hb⟩ := hc.backed _ hn hlead
    have hreached := hb.reached hc hm hn hlead hlt (hle hlead)
    exact Or.inr (Or.inr ⟨t, hb.elected.snoc hk he,
      fun p hp hne => (hreached p hp hne).snoc hk he⟩)
  · exact Or.inr (Or.inl (Happened.last hrun hk he ⟨rfl, hdumps, hlead, hlt, rfl⟩))

/-- **Every act keeps the audit.** -/
lemma audited_exec (hrun : FoundedRun B c₀ as c) (hc : Audited B members c₀ as c)
    (hm : MembersOk members) (hk : FoundedAct B c act) (he : c.exec B act = some c') :
    Audited B members c₀ (as ++ [act]) c' := by
  obtain ⟨a, hat⟩ := hc.state
  have hcan := he
  rw [Cluster.exec, Option.ite_none_right_eq_some] at hcan
  obtain ⟨⟨hn, hheard⟩, hmap⟩ := hcan
  have hok := actOk_of_keeps (hat.hosts _ hn) hk (hat.allHeard hheard)
  obtain ⟨a', -, hat'⟩ := clusterAt_of_actOk (by simp) hat hok he
  obtain ⟨e, hhost⟩ := exec_host he
  have hnew := hat'.hosts _ hn
  obtain ⟨hsigned, hsends⟩ := signed_exec hnew.ok.idle hk hhost
  refine ⟨⟨a', hat'⟩, fun n hn' => ?_, fun m hmem hack => ?_, fun n hn' m hmem hack => ?_,
    fun n hn' hl => ?_, fun n hn' => ?_⟩
  · by_cases heq : n = act.host
    · subst heq
      exact (hc.founded _ hn).exec hm (hat.hosts _ hn) hnew.ok.disk hk hhost
    · rw [hosts_other he heq]
      exact hc.founded n hn'
  · obtain ⟨⟨h', e'⟩, hhost', rfl⟩ := Option.map_eq_some_iff.mp hmap
    rw [hhost, Option.some.injEq, Prod.mk.injEq] at hhost'
    obtain ⟨-, rfl⟩ := hhost'
    rcases List.mem_append.mp hmem with hmem | hmem
    · exact (hc.sent m hmem hack).snoc hk he
    · have hout := hsends m hmem hack
      rw [((hat.hosts _ hn).node.ok.sources m hout).1]
      exact (hc.queued _ hn m hout hack).snoc hk he
  · by_cases heq : n = act.host
    · subst heq
      rcases hsigned m hmem hack with hold | hstands
      · exact (hc.queued _ hn m hold hack).snoc hk he
      · exact ⟨c', [], Moment.last (hrun.snoc hk he), hstands.term, hstands.last⟩
    · rw [hosts_other he heq] at hmem
      exact (hc.queued n hn' m hmem hack).snoc hk he
  · by_cases heq : n = act.host
    · subst heq
      exact backed_exec hrun hc hn hk he hl
    · have hsame := hosts_other he heq
      rw [hsame] at hl
      obtain ⟨t, helected, hterm, hplaces, rs, hacc, htold⟩ := hc.backed n hn' hl
      rw [← hsame] at hterm hplaces hacc
      exact ⟨t, helected.snoc hk he, hterm, hplaces, rs, hacc, fun r hr => (htold r hr).snoc hk he⟩
  · by_cases heq : n = act.host
    · subst heq
      exact made_exec hrun hc hm hn hk he
    · rw [hosts_other he heq]
      exact (hc.made n hn').imp (Made.snoc · hk he) (Made.snoc · hk he)

/-! ### Whole runs -/

variable {initial : List CString} {config : CString → NodeConfig} {user : CString → σ} {clockMs : ℤ}

lemma snapshotIndex_empty : Disk.empty.snapshotIndex = 0 := by
  simp [Disk.snapshotIndex, Disk.empty, readMeta, fileLines]

lemma disk_founded_empty : Disk.empty.Founded members where
  stable := Or.inl ⟨rfl, rfl⟩
  snap := snapshotIndex_empty.ge

/-- **A cluster on empty data directories** passes the audit. -/
lemma audited_boot (hboot : ∀ n, Bootstrapped initial n (config n)) (hids : ∀ m ∈ initial, IdOk m) :
    Audited B (startMembers initial) (Cluster.boot B config user clockMs) []
      (Cluster.boot B config user clockMs) := by
  have hm : MembersOk (startMembers initial) :=
    membersOk_normalizeMembers fun m hm => Or.inr (hids m hm)
  obtain ⟨a, -, hat⟩ := clusterAt_boot (A := B) .ballots hboot hids user clockMs
  have hfollow : ∀ n, ((Cluster.boot B config user clockMs).hosts n).node.state = .follower :=
    fun n => (board_init (A := B n) (config n) Disk.empty (user n) clockMs).1
  refine ⟨⟨a, hat⟩, fun n hn => ?_, fun m hm => absurd hm List.not_mem_nil,
    fun n hn m hmem => ?_, fun n hn hlead => ?_, fun n hn => ⟨Or.inl ?_, Or.inl ?_⟩⟩
  · have hgiven : (config n).Founds (startMembers initial) := by
      rw [NodeConfig.Founds, (hboot n).given]
      exact ⟨(hboot n).nonempty, rfl⟩
    have hconf : ConfigOk .ballots (startMembers initial) (config n) := (hboot n).configOk hids
    have hnode := founded_init (A := B n) hgiven hm hconf diskOk_empty disk_founded_empty (user n)
      clockMs
    exact ⟨hgiven, hnode, disk_founded_empty, fun hs => absurd (hfollow n) hs⟩
  · rw [(hat.hosts n hn).ok.idle rfl] at hmem
    exact absurd hmem List.not_mem_nil
  · exact absurd ((hfollow n).symm.trans hlead) (by decide)
  · exact (snap_init (hboot n).learner Disk.empty (user n) clockMs).trans snapshotIndex_empty
  · exact snapshotIndex_empty

/-- The member had reached the index, in a term the node was elected in or later, and its log fell
below since. -/
def Lost (B : CString → Application σ) (c₀ : Cluster σ) (as : List (ClusterAct σ)) (c : Cluster σ)
    (n p : CString) (s : ℤ) : Prop :=
  ∃ t b bs, ElectedIn B c₀ as c n t ∧ Moment (Cluster.exec B) (FoundedAct B) c₀ as c b bs ∧
    t ≤ (b.hosts p).node.currentTerm ∧ s ≤ (b.hosts p).node.lastLogIndex ∧ Fell B b bs c p s

/-- A threshold of one entry, and a command. -/
def thresholdAndPut : List Command := [⟨opSetMaxlog, [], "1".toList⟩, putCommand "x"]

/-- The entries a leader with an empty log makes of them. -/
def entriesOf (term : ℤ) (n : CString) : List LogEntry :=
  [⟨1, term, n, ⟨opSetMaxlog, [], "1".toList⟩⟩, ⟨2, term, n, putCommand "x"⟩]

/-- The leader `n1` compacts two entries that both followers acknowledge. -/
def compactsAsLeader : List (ClusterAct Unit) :=
  firstElection ++ tick n1 1 [] thresholdAndPut ++
    tick n2 1 [batch n1 n2 1 0 0 [] (entriesOf 1 n1)] [] ++
    tick n3 0 [batch n1 n3 1 0 0 [] (entriesOf 1 n1)] [] ++
    tick n1 1 [appendAnswer n2 n1 1 true 2, appendAnswer n3 n1 1 true 2] []

/-- In every state reached, every member reaches the snapshot of every running leader. -/
def NoneStranded (B : CString → Application σ) (Q : Cluster σ → ClusterAct σ → Prop)
    (members : List CString) (c₀ : Cluster σ) : Prop :=
  ∀ c, Run (Cluster.exec B) Q c₀ c → ∀ n, (c.hosts n).node.state = .leader →
    (c.hosts n).node.running = true → ∀ p ∈ members,
      (c.hosts n).node.snapshotLastIncludedIndex ≤ (c.hosts p).node.lastLogIndex

/-- Nobody compacts who does not lead. -/
def LeaderCompacts (B : CString → Application σ) (c : Cluster σ) (act : ClusterAct σ) : Prop :=
  act.act.Dumps → (c.hosts act.host).node.state ≠ .leader →
    ((c.hosts act.host).node.dumped (B act.host)).snapshotLastIncludedIndex ≤
      (c.hosts act.host).node.snapshotLastIncludedIndex

instance (B : CString → Application σ) (c : Cluster σ) (act : ClusterAct σ) :
    Decidable (LeaderCompacts B c act) :=
  inferInstanceAs (Decidable (_ → _ → _))

/-- The follower `n2` compacts what it has applied and is elected in term 2; `n3` has nothing. -/
def compactsAsFollower : List (ClusterAct Unit) :=
  firstElection ++ tick n1 1 [] thresholdAndPut ++
    tick n2 1 [batch n1 n2 1 0 0 [] (entriesOf 1 n1)] [] ++
    tick n1 1 [appendAnswer n2 n1 1 true 2] [] ++ tick n1 11 [] [] ++
    tick n2 11 [{ batch n1 n2 1 2 1 n1 [] with leaderCommit := 2 }] [] ++ tick n2 5000 [] [] ++
    tick n1 12 [voteRequest n2 n1 2 2 1] [] ++ tick n2 5001 [voteGrant n1 n2 2] [] ++
    tick n2 5001 [] []

/-- `n1` has two entries of term 1 that no other node gets to know, and `n3` is elected in term 2.
`n3` compacts two entries of its own, as `n1` acknowledged a heartbeat with the two it had; then
`n1` accepts the first of them. -/
def acknowledgedOwn : List (ClusterAct Unit) :=
  firstElection ++ tick n1 1 [] [putCommand "x", putCommand "y"] ++
    tick n3 1 [] [] ++ tick n3 2 [] [] ++ tick n3 3 [] [] ++
    tick n2 3 [voteRequest n3 n2 2 0 0] [] ++ tick n3 3 [voteGrant n2 n3 2] [] ++
    tick n3 3 [] [] ++ tick n3 3 [] thresholdAndPut ++
    tick n1 3 [heartbeat n3 n1 2] [] ++
    tick n2 3 [batch n3 n2 2 0 0 [] (entriesOf 2 n3)] [] ++
    tick n3 3 [appendAnswer n1 n3 2 true 2, appendAnswer n2 n3 2 true 2] [] ++
    tick n1 3 [batch n3 n1 2 0 0 [] ((entriesOf 2 n3).take 1)] []

end RaftRx.C
