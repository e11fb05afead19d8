import RaftRx.C.Tenure

/-!
An election that is left alone is won.

A candidate handles one message in a tick.  Of the votes that reach it in one tick it takes the
first; the others are dropped by the next tick.

* `TickInput.ballot`: the vote a tick brings;
* `Campaigning`, `Unhindered`: a candidate, and ticks that bring it votes only;
* `campaign_won`: enough ballots in time make the candidate the leader of its term;
* `Willing`, `willing_grants`: a voter that grants the vote in its tick;
* `election_won`: the whole exchange, from the requests to the leader.
-/

namespace RaftRx.C

open Protocol (Role)

variable {σ : Type*} {A : Application σ} {x y : Node σ} {T D : ℤ} {U : List CString}
  {t : TickInput}

/-! ### A tick of a node that does not lead -/

/-- The loop over the messages fills the queues. -/
lemma receiveAll_eq (ms : List Message) : ∀ {y : Node σ}, y.state ≠ .leader →
    (∀ m ∈ ms, m.term ≤ y.currentTerm) → ms.foldl Node.receive y =
      { y with
        pendingAppendEntries := y.pendingAppendEntries ++
          ms.filter fun m => decide (m.kind = .appendEntries)
        pendingVoteRequests := y.pendingVoteRequests ++
          ms.filter fun m => decide (m.kind = .requestVote)
        pendingVotes := y.pendingVotes ++
          ms.filter fun m => decide (m.kind = .requestVoteResponse) } := by
  induction ms with
  | nil =>
      intro y _ _
      simp only [List.foldl_nil, List.filter_nil, List.append_nil]
  | cons m ms ih =>
      intro y hs hms
      have hrest : ∀ m' ∈ ms, m'.term ≤ y.currentTerm :=
        fun m' hm' => hms m' (List.mem_cons_of_mem m hm')
      rw [List.foldl_cons, Node.receive]
      cases hk : m.kind with
      | appendEntriesResponse =>
          have hsame : y.handleAppendEntriesResponse m = y := by
            rw [Node.handleAppendEntriesResponse, handleTermUpdate_of_le (hms m List.mem_cons_self),
              if_pos (Or.inl hs)]
          dsimp only
          rw [hsame, ih hs hrest]
          simp [hk]
      | appendEntries =>
          dsimp only
          rw [ih (y := { y with pendingAppendEntries := y.pendingAppendEntries ++ [m] }) hs hrest]
          simp [hk]
      | requestVote =>
          dsimp only
          rw [ih (y := { y with pendingVoteRequests := y.pendingVoteRequests ++ [m] }) hs hrest]
          simp [hk]
      | requestVoteResponse =>
          dsimp only
          rw [ih (y := { y with pendingVotes := y.pendingVotes ++ [m] }) hs hrest]
          simp [hk]

/-- **The first phase of a tick** of a node that does not lead, in one record. -/
lemma latched_eq (hs : x.state ≠ .leader) (hrun : x.running = true)
    (hw : t.Within x.currentTerm) : x.latched t =
      { x with
        clockMs := t.latchMs, slots := t.slots
        pendingAppendEntries := t.received .appendEntries
        pendingVoteRequests := t.received .requestVote
        pendingVotes := t.received .requestVoteResponse } := by
  have hms : ∀ m ∈ t.messages.take maxQueue, m.term ≤ x.currentTerm :=
    fun m hm => hw m (List.mem_of_mem_take hm)
  have hreceived := receiveAll_eq (t.messages.take maxQueue) (y := { x with
    clockMs := t.latchMs, slots := t.slots, pendingAppendEntries := [], pendingVoteRequests := []
    pendingVotes := [] }) hs hms
  rw [Node.latched, Node.latchInputs]
  dsimp only
  rw [if_neg (by simp [hrun]), hreceived, if_neg (by simp [Node.isLeader, hs])]
  rfl

/-- The last phase of a tick that has nothing to apply leaves what an election needs. -/
lemma dumped_settled (hs : x.state ≠ .leader) (hrun : x.running = true)
    (hc : x.commitIndex ≤ x.lastApplied) :
    (x.dumpOutputs A).node.seat = x.seat ∧
      (x.dumpOutputs A).node.commitIndex ≤ (x.dumpOutputs A).node.lastApplied ∧
      (x.dumpOutputs A).sends = x.outbox := by
  have hlead : x.isLeader = false := by simp [Node.isLeader, hs]
  have hcount : (x.commitIndex - x.lastApplied).toNat = 0 := by omega
  have happly : (x.commitAndApply A).1 = x := by
    rw [Node.commitAndApply, hlead, if_neg Bool.false_ne_true, hcount]
    rfl
  have hdumped : x.dumped A = (x.maybeCompact A).1 := by
    rw [Node.dumped, happly, Node.maybeDriveMembership, if_pos hlead]
  have hstill := still_maybeCompact (A := A) x
  have hkept : (x.maybeCompact A).1.commitIndex = x.commitIndex ∧
      (x.maybeCompact A).1.lastApplied = x.lastApplied ∧
      (x.maybeCompact A).1.outbox = x.outbox := by
    rw [Node.maybeCompact]
    split_ifs
    · rw [Node.doCompact]
      dsimp only
      split_ifs <;> exact ⟨rfl, rfl, rfl⟩
    · exact ⟨rfl, rfl, rfl⟩
  rw [dumpOutputs_eq hrun, hdumped]
  refine ⟨hstill.seat, ?_, hkept.2.2⟩
  dsimp only
  rw [hkept.1, hkept.2.1]
  exact hc

/-! ### Candidates -/

/-- The vote a tick brings in a term: the first one it receives, if it is granted. -/
def TickInput.ballot (t : TickInput) (T : ℤ) : Option CString :=
  match t.received .requestVoteResponse with
  | [] => none
  | m :: _ => if m.granted ∧ m.term = T then some m.source else none

/-- The votes after a ballot was counted. -/
def counted (votes : List CString) : Option CString → List CString
  | none => votes
  | some w => if w ∈ votes then votes else votes ++ [w]

lemma mem_counted {votes : List CString} {ballot : Option CString} {v : CString} :
    v ∈ counted votes ballot ↔ v ∈ votes ∨ ballot = some v := by
  cases ballot with
  | none => simp [counted]
  | some w =>
      rw [counted]
      split_ifs with hin
      · exact ⟨Or.inl, fun h => h.elim id fun heq => Option.some.inj heq ▸ hin⟩
      · rw [List.mem_append, List.mem_singleton, Option.some.injEq, eq_comm (a := v)]

lemma nodup_counted {votes : List CString} (h : votes.Nodup) (ballot : Option CString) :
    (counted votes ballot).Nodup := by
  cases ballot with
  | none => exact h
  | some w =>
      rw [counted]
      split_ifs with hin
      · exact h
      · refine List.nodup_append.mpr ⟨h, List.nodup_singleton w, fun v hv v' hv' heq => hin ?_⟩
        rwa [← List.mem_singleton.mp hv', ← heq]

/-- A candidate of a term with a deadline, whose votes come from `U`; nothing is left to apply. -/
structure Campaigning (U : List CString) (T D : ℤ) (x : Node σ) : Prop where
  state : x.state = .candidate
  term : x.currentTerm = T
  running : x.running = true
  member : x.selfIsMember = true
  due : D ≤ x.electionDeadlineMs
  settled : x.commitIndex ≤ x.lastApplied
  votes : ∀ v ∈ x.votesReceived, v ∈ U
  once : x.votesReceived.Nodup

/-- A tick before the deadline that brings votes of `U` and answers of old terms, nothing else. -/
structure Unhindered (U : List CString) (T D : ℤ) (t : TickInput) : Prop where
  within : t.Within T
  clock : t.clockMs < D
  appends : t.received .appendEntries = []
  requests : t.received .requestVote = []
  voters : ∀ m ∈ t.received .requestVoteResponse, m.source ∈ U

/-- Ids that fit, and no more of them than a node counts. -/
structure Electorate (U : List CString) : Prop where
  short : ∀ v ∈ U, v.length < maxId
  few : U.length ≤ maxPeers + 1

/-- The candidate in the second phase of an unhindered tick. -/
lemma campaign_transition (hs : x.state = .candidate) (hclock : x.clockMs < x.electionDeadlineMs)
    (happ : x.pendingAppendEntries = []) (hreq : x.pendingVoteRequests = []) :
    x.transition A =
      if x.guardReceivedMajorityVotes then Node.becomeLeader { x with state := .leader }
      else x.actionHandleVote := by
  have htime : x.guardTimeoutExpired = false := by
    rw [Node.guardTimeoutExpired, decide_eq_false (not_le.mpr hclock), Bool.and_false]
  have hquiet : x.guardHasAppendEntries = false := by rw [Node.guardHasAppendEntries, happ]; rfl
  have hnone : x.guardHasVoteRequest = false := by rw [Node.guardHasVoteRequest, hreq]; rfl
  have hlow : x.guardHasHigherTermVoteRequest = false := by
    rw [Node.guardHasHigherTermVoteRequest, hreq]
  split_ifs with hwon
  · have hrow : x.enabled =
        some ⟨.candidate, .leader, .receivedMajorityVotes, .becomeLeader⟩ := by
      simp [Node.enabled, raftTransitions, hs, Node.holds, htime, hwon]
    rw [transition_eq hrow]
    rfl
  · cases hv : x.pendingVotes with
    | nil =>
        have hrow : x.enabled = none := by
          simp [Node.enabled, raftTransitions, hs, Node.holds, htime, hwon, hquiet, hnone, hlow,
            Node.guardHasVote, hv]
        rw [Node.transition, hrow, Node.actionHandleVote, hv]
    | cons m rest =>
        have hrow : x.enabled = some ⟨.candidate, .candidate, .hasVote, .handleVote⟩ := by
          simp [Node.enabled, raftTransitions, hs, Node.holds, htime, hwon, hquiet, hnone, hlow,
            Node.guardHasVote, hv]
        rw [transition_eq hrow]
        have hself : ({ x with state := .candidate } : Node σ) = x := with_state_self hs.symm
        rw [hself]
        rfl

/-- The candidate in the second phase of an unhindered tick. -/
def Node.canvassing (x : Node σ) (t : TickInput) : Node σ :=
  { x with
    clockMs := t.clockMs, slots := t.slots, pendingAppendEntries := []
    pendingVoteRequests := [], pendingVotes := t.received .requestVoteResponse }

/-- **What an unhindered tick does**: it elects the candidate, or it counts the ballot. -/
lemma Campaigning.acted (h : Campaigning U T D x) (ht : Unhindered U T D t) :
    x.acted A t =
      if x.guardReceivedMajorityVotes then
        Node.becomeLeader { x.canvassing t with state := .leader }
      else (x.canvassing t).actionHandleVote := by
  have hs : x.state ≠ .leader := by rw [h.state]; decide
  have hlatched : ({ x.latched t with clockMs := t.clockMs } : Node σ) = x.canvassing t := by
    rw [latched_eq hs h.running (by rw [h.term]; exact ht.within), ht.appends, ht.requests]
    rfl
  rw [Node.acted, hlatched]
  exact campaign_transition (x := x.canvassing t) h.state (ht.clock.trans_le h.due) rfl rfl

/-- A vote of the electorate finds room. -/
lemma recordVote_electorate (hU : Electorate U) {w : CString} (hw : w ∈ U)
    (hvotes : ∀ v ∈ x.votesReceived, v ∈ U) (honce : x.votesReceived.Nodup) :
    x.recordVote w = { x with votesReceived := counted x.votesReceived (some w) } := by
  rw [Node.recordVote, counted]
  split_ifs with hin hroom
  · rfl
  · rw [strncpy_self (hU.short w hw)]
  · have hsub : (w :: x.votesReceived).Subperm U :=
      List.Nodup.subperm (List.nodup_cons.mpr ⟨hin, honce⟩) (List.forall_mem_cons.mpr ⟨hw, hvotes⟩)
    have hlen := hsub.length_le
    have hfew := hU.few
    rw [List.length_cons] at hlen
    omega

/-- The candidate counts the ballot. -/
lemma actionHandleVote_eq (hU : Electorate U) (h : Campaigning U T D x)
    (ht : Unhindered U T D t) : (x.canvassing t).actionHandleVote =
      { x.canvassing t with
        pendingVotes := (t.received .requestVoteResponse).tail
        votesReceived := counted x.votesReceived (t.ballot T) } := by
  have hqueue : (x.canvassing t).pendingVotes = t.received .requestVoteResponse := rfl
  rw [Node.actionHandleVote, TickInput.ballot, hqueue]
  cases hv : t.received .requestVoteResponse with
  | nil =>
      dsimp only
      rw [List.tail_nil, ← hv]
      rfl
  | cons m rest =>
      have hmem : m ∈ t.received .requestVoteResponse := by
        rw [hv]
        exact List.mem_cons_self
      have hle : m.term ≤ T :=
        ht.within m (List.mem_of_mem_take (List.mem_filter.mp hmem).1)
      obtain ⟨y, hy⟩ : ∃ y : Node σ, y = { x.canvassing t with pendingVotes := rest } := ⟨_, rfl⟩
      have hterm : y.currentTerm = T := by
        rw [hy]
        exact h.term
      have hmember : y.selfIsMember = true := by
        rw [hy]
        exact h.member
      have hstate : y.state = .candidate := by
        rw [hy]
        exact h.state
      have hvotes : y.votesReceived = x.votesReceived := by rw [hy]; rfl
      dsimp only
      rw [← hy, Node.handleVoteResponse, handleTermUpdate_of_le (by rw [hterm]; exact hle), hmember,
        hstate, hterm]
      by_cases hT : m.term = T
      · by_cases hg : m.granted = true
        · rw [if_neg (by simp [hT]), if_pos hg, if_pos ⟨hg, hT⟩,
            recordVote_electorate hU (ht.voters m hmem) (by rw [hvotes]; exact h.votes)
              (by rw [hvotes]; exact h.once), hy]
          rfl
        · rw [if_neg (by simp [hT]), if_neg hg, if_neg (fun hc => hg hc.1), hy]
          rfl
      · rw [if_pos (Or.inr (Or.inr hT)), if_neg (fun hc => hT hc.2), hy]
        rfl

/-- **The candidate goes on** until it is elected, and keeps its votes. -/
lemma Campaigning.ticked (hU : Electorate U) (h : Campaigning U T D x) (ht : Unhindered U T D t)
    (hnot : x.guardReceivedMajorityVotes = false) :
    Campaigning U T D (x.ticked A t) ∧ (x.ticked A t).configState = x.configState ∧
      (∀ v ∈ x.votesReceived, v ∈ (x.ticked A t).votesReceived) ∧
      ∀ w, t.ballot T = some w → w ∈ (x.ticked A t).votesReceived := by
  have hacted : x.acted A t = { x.canvassing t with
      pendingVotes := (t.received .requestVoteResponse).tail
      votesReceived := counted x.votesReceived (t.ballot T) } := by
    rw [h.acted ht, if_neg (by simp [hnot]), actionHandleVote_eq hU h ht]
  have hballot : ∀ w, t.ballot T = some w → w ∈ U := by
    intro w hw
    rw [TickInput.ballot] at hw
    split at hw
    · exact absurd hw (by simp)
    · rename_i m rest hr
      split_ifs at hw
      rw [← Option.some.inj hw]
      exact ht.voters m (by rw [hr]; exact List.mem_cons_self)
  have hs : (x.acted A t).state ≠ .leader := by
    rw [hacted]
    exact fun hc => absurd (h.state.symm.trans hc) (by decide)
  obtain ⟨hseat, hsettled, -⟩ := dumped_settled (A := A) hs (by rw [hacted]; exact h.running)
    (by rw [hacted]; exact h.settled)
  have htimer := timer_dumpOutputs (A := A) (x.acted A t)
  have hcs : (x.ticked A t).configState = x.configState :=
    (congrArg Seat.configState hseat).trans (by rw [hacted]; rfl)
  have hcfg : (x.ticked A t).config = x.config :=
    (congrArg Seat.config hseat).trans (by rw [hacted]; rfl)
  have hv : (x.ticked A t).votesReceived = counted x.votesReceived (t.ballot T) :=
    (congrArg Seat.votes hseat).trans (by rw [hacted]; rfl)
  have hdue : (x.ticked A t).electionDeadlineMs = x.electionDeadlineMs :=
    (congrArg Timer.deadline htimer).trans (by rw [hacted]; rfl)
  refine ⟨⟨?_, ?_, ?_, ?_, ?_, hsettled, fun v hmem => ?_, ?_⟩, hcs, fun v hmem => ?_,
    fun w hw => ?_⟩
  · exact (congrArg Seat.state hseat).trans (by rw [hacted]; exact h.state)
  · exact (congrArg Seat.term hseat).trans (by rw [hacted]; exact h.term)
  · exact (congrArg Seat.running hseat).trans (by rw [hacted]; exact h.running)
  · rw [Node.selfIsMember, hcs, hcfg]
    exact h.member
  · rw [hdue]
    exact h.due
  · rw [hv] at hmem
    exact (mem_counted.mp hmem).elim (h.votes v) (hballot v)
  · rw [hv]
    exact nodup_counted h.once (t.ballot T)
  · rw [hv]
    exact mem_counted.mpr (Or.inl hmem)
  · rw [hv]
    exact mem_counted.mpr (Or.inr hw)

/-- The node was elected in one of these ticks. -/
def Elected (A : Application σ) (T : ℤ) : Node σ → List TickInput → Prop
  | _, [] => False
  | x, t :: ts =>
      ((x.acted A t).state = .leader ∧ (x.acted A t).currentTerm = T) ∨
        Elected A T (x.ticked A t) ts

/-- Votes of a quorum are enough, whoever else has voted. -/
lemma majority_of_subset {votes : List CString} (h : ∀ v ∈ votes, v ∈ y.votesReceived)
    (hcs : y.configState = x.configState)
    (hx : ({ x with votesReceived := votes } : Node σ).guardReceivedMajorityVotes = true) :
    y.guardReceivedMajorityVotes = true := by
  have hquorum : ∀ ms, ({ x with votesReceived := votes } : Node σ).hasVoteQuorum ms = true →
      y.hasVoteQuorum ms = true := by
    intro ms hms
    rw [Node.hasVoteQuorum, decide_eq_true_eq] at hms ⊢
    refine hms.trans (List.countP_mono_left fun m _ hm => ?_)
    rw [List.contains_iff_mem] at hm ⊢
    exact h m hm
  rw [Node.guardReceivedMajorityVotes, Bool.and_eq_true, Bool.or_eq_true] at hx ⊢
  rw [hcs]
  exact ⟨hquorum _ hx.1, hx.2.imp_right (hquorum _)⟩

/-- An unhindered tick of a candidate with enough votes elects it. -/
lemma Campaigning.elected (h : Campaigning U T D x) (ht : Unhindered U T D t)
    (hwon : x.guardReceivedMajorityVotes = true) :
    (x.acted A t).state = .leader ∧ (x.acted A t).currentTerm = T := by
  have hstill := still_broadcastAppendEntries ((x.canvassing t).lead)
  rw [h.acted ht, if_pos hwon]
  exact ⟨hstill.state, hstill.term.trans h.term⟩

/-- **A campaign is won**: a candidate that receives the ballots of a quorum before its deadline,
each of them as the first vote of a tick, is elected in one of these ticks or in the one after
them. -/
theorem campaign_won (A : Application σ) (hU : Electorate U) (ts : List TickInput)
    {last : TickInput} (hlast : Unhindered U T D last) :
    ∀ {x : Node σ} {votes : List CString}, Campaigning U T D x → (∀ t ∈ ts, Unhindered U T D t) →
      (∀ v ∈ votes, v ∈ x.votesReceived ∨ ∃ t ∈ ts, t.ballot T = some v) →
      ({ x with votesReceived := votes } : Node σ).guardReceivedMajorityVotes = true →
      Elected A T x (ts ++ [last]) := by
  induction ts with
  | nil =>
      intro x votes h _ hvotes hquorum
      refine Or.inl (h.elected hlast (majority_of_subset (x := x) (fun v hv => ?_) rfl hquorum))
      exact (hvotes v hv).resolve_right (by simp)
  | cons t ts ih =>
      intro x votes h hts hvotes hquorum
      have ht := hts t List.mem_cons_self
      cases hwon : x.guardReceivedMajorityVotes with
      | true => exact Or.inl (h.elected ht hwon)
      | false =>
          obtain ⟨h', hcs, hold, hnew⟩ := h.ticked (A := A) hU ht hwon
          refine Or.inr (@ih _ votes h' (fun t' ht' => hts t' (List.mem_cons_of_mem t ht'))
            (fun v hv => ?_) ?_)
          · rcases hvotes v hv with hin | ⟨t', ht', hb⟩
            · exact Or.inl (hold v hin)
            · rcases List.mem_cons.mp ht' with rfl | ht'
              · exact Or.inl (hnew v hb)
              · exact Or.inr ⟨t', ht', hb⟩
          · exact majority_of_subset (x := x) (fun v hv => hv) hcs hquorum

/-! ### Voters -/

/-- A voter that has nothing else to do than to answer a vote request, and no reason to refuse. -/
structure Willing (m : Message) (y : Node σ) (t : TickInput) : Prop where
  running : y.running = true
  member : y.selfIsMember = true
  clear : y.outbox = []
  heard : t.messages = [m]
  idle : t.commands = []
  patient : y.state ≠ .leader → t.clockMs < y.electionDeadlineMs
  unelected : y.state = .candidate → y.guardReceivedMajorityVotes = false
  free : y.currentTerm < m.term ∨
    (y.currentTerm = m.term ∧ y.state = .follower ∧ (y.votedFor = [] ∨ y.votedFor = m.source))
  upToDate : y.candidateIsUpToDate m = true

/-- The grant of a voter. -/
def Node.grantFor (y : Node σ) (m : Message) : Message :=
  { kind := .requestVoteResponse
    term := m.term
    source := strncpy maxId y.config.nodeId
    target := strncpy maxId m.source
    granted := true }

/-- The voter in the second phase of its tick. -/
def Node.asked (y : Node σ) (t : TickInput) (m : Message) : Node σ :=
  { y with
    clockMs := t.clockMs, slots := t.slots, pendingAppendEntries := []
    pendingVoteRequests := [m], pendingVotes := [] }

variable {m : Message}

lemma asked_eq (hk : m.kind = .requestVote) (h : Willing m y t) :
    ({ y.latched t with clockMs := t.clockMs } : Node σ) = y.asked t m := by
  rw [Node.latched, Node.latchInputs, h.heard, h.idle]
  dsimp only
  rw [if_neg (by simp [h.running])]
  have htake : [m].take maxQueue = [m] := rfl
  rw [htake, List.foldl_cons, List.foldl_nil, Node.receive, hk]
  dsimp only
  split_ifs <;> rfl

/-- A willing voter handles the request as a follower. -/
lemma asked_transition (h : Willing m y t) : (y.asked t m).transition A =
    Node.handleVoteRequest
      { y.asked t m with state := .follower, pendingVoteRequests := [] } m := by
  have hreq : (y.asked t m).guardHasVoteRequest = true := rfl
  have hquiet : (y.asked t m).guardHasAppendEntries = false := rfl
  have hhigh : y.state ≠ .follower → (y.asked t m).guardHasHigherTermVoteRequest = true := by
    intro hs
    exact decide_eq_true (h.free.resolve_right fun hc => hs hc.2.1)
  have htime : y.state ≠ .leader → (y.asked t m).guardTimeoutExpired = false := by
    intro hs
    have hclock : ¬(y.asked t m).electionDeadlineMs ≤ (y.asked t m).clockMs :=
      not_le.mpr (h.patient hs)
    rw [Node.guardTimeoutExpired, decide_eq_false hclock, Bool.and_false]
  cases hs : y.state with
  | follower =>
      have hs' : (y.asked t m).state = .follower := hs
      have hrow : (y.asked t m).enabled =
          some ⟨.follower, .follower, .hasVoteRequest, .handleVoteRequest⟩ := by
        simp [Node.enabled, raftTransitions, hs', Node.holds, htime (by simp [hs]), hquiet, hreq]
      rw [transition_eq hrow]
      rfl
  | candidate =>
      have hs' : (y.asked t m).state = .candidate := hs
      have hnot : (y.asked t m).guardReceivedMajorityVotes = false := h.unelected hs
      have hrow : (y.asked t m).enabled =
          some ⟨.candidate, .follower, .hasHigherTermVoteRequest, .handleVoteRequest⟩ := by
        simp [Node.enabled, raftTransitions, hs', Node.holds, htime (by simp [hs]), hquiet,
          hhigh (by simp [hs]), hnot]
      rw [transition_eq hrow]
      rfl
  | leader =>
      have hs' : (y.asked t m).state = .leader := hs
      have hrow : (y.asked t m).enabled =
          some ⟨.leader, .follower, .hasHigherTermVoteRequest, .handleVoteRequest⟩ := by
        simp [Node.enabled, raftTransitions, hs', Node.holds, hquiet, hhigh (by simp [hs])]
      rw [transition_eq hrow]
      rfl

/-- **A willing voter grants its vote**: the grant is all it queues. -/
lemma willing_acted (hk : m.kind = .requestVote) (h : Willing m y t) :
    (y.acted A t).state = .follower ∧ (y.acted A t).running = true ∧
      (y.acted A t).outbox = [y.grantFor m] := by
  obtain ⟨z, hz⟩ : ∃ z : Node σ, z = Node.handleTermUpdate
    { y.asked t m with state := .follower, pendingVoteRequests := [] } m := ⟨_, rfl⟩
  have hterm : z.currentTerm = m.term := by
    rw [hz, handleTermUpdate_term]
    rcases h.free with hlt | ⟨heq, -⟩
    · exact max_eq_right hlt.le
    · exact (congrArg (max · m.term) heq).trans (max_self m.term)
  have hsame : z.state = .follower ∧ z.running = true ∧ z.outbox = [] ∧
      z.config = y.config ∧ z.selfIsMember = true ∧ z.candidateIsUpToDate m = true := by
    rw [hz, Node.handleTermUpdate]
    split_ifs <;> exact ⟨rfl, h.running, h.clear, rfl, h.member, h.upToDate⟩
  have hvote : z.votedFor = [] ∨ z.votedFor = m.source := by
    rw [hz, Node.handleTermUpdate]
    split_ifs with hlt
    · exact Or.inl rfl
    · exact (h.free.resolve_left hlt).2.2
  obtain ⟨hs, hrun, hout, hcfg, hmember, hup⟩ := hsame
  have hgrant : z.grantsVote m = true := by
    rw [Node.grantsVote, hmember, decide_eq_true hterm.symm, hup]
    rcases hvote with hv | hv <;> simp [hv]
  have hacted : y.acted A t =
      (z.castVote m).queueMessage ((z.castVote m).voteResponse m true) := by
    rw [Node.acted, asked_eq hk h, asked_transition h, Node.handleVoteRequest, ← hz, hgrant]
    rfl
  have hcast : (z.castVote m).outbox = [] := hout
  have hresponse : (z.castVote m).voteResponse m true = y.grantFor m := by
    show ({ kind := .requestVoteResponse, term := z.currentTerm
            source := strncpy maxId z.config.nodeId, target := strncpy maxId m.source
            granted := true } : Message) = y.grantFor m
    rw [hterm, hcfg]
    rfl
  rw [hacted, Node.queueMessage, hcast, if_pos (by decide), hresponse]
  exact ⟨hs, hrun, rfl⟩

/-- A follower sends what it has queued. -/
lemma sends_follower (hs : x.state = .follower) (hrun : x.running = true) :
    (x.dumpOutputs A).sends = x.outbox := by
  have hlead : x.isLeader = false := by simp [Node.isLeader, hs]
  have happly : (x.commitAndApply A).1 =
      (x.applyCommitted A (x.commitIndex - x.lastApplied).toNat).1 := by
    rw [Node.commitAndApply, hlead, if_neg Bool.false_ne_true]
  have hs' : (x.commitAndApply A).1.state = .follower := by
    rw [happly]
    rcases retires_applyCommitted (A := A) (x.commitIndex - x.lastApplied).toNat x with
      ⟨-, h⟩ | ⟨-, h⟩
    · exact h.trans hs
    · exact h
  have hlead' : (x.commitAndApply A).1.isLeader = false := by simp [Node.isLeader, hs']
  have hcompacted : ∀ y : Node σ, (y.maybeCompact A).1.outbox = y.outbox := by
    intro y
    rw [Node.maybeCompact]
    split_ifs
    · rw [Node.doCompact]
      dsimp only
      split_ifs <;> rfl
    · rfl
  rw [dumpOutputs_eq hrun]
  dsimp only
  rw [Node.dumped, hcompacted, Node.maybeDriveMembership, if_pos hlead', happly]
  exact (applying_applyCommitted (A := A) _ x).1.outbox

/-- **A willing voter sends its grant.** -/
theorem willing_grants (hk : m.kind = .requestVote) (h : Willing m y t) :
    ((y.acted A t).dumpOutputs A).sends = [y.grantFor m] := by
  obtain ⟨hs, hrun, hout⟩ := willing_acted (A := A) hk h
  rw [sends_follower hs hrun, hout]

/-! ### The whole election -/

/-- A follower of the electorate whose time is over in the tick; its last tick left nothing to
apply and nothing to send. -/
structure Rising (U : List CString) (x : Node σ) (t : TickInput) : Prop where
  state : x.state = .follower
  running : x.running = true
  member : x.selfIsMember = true
  settled : x.commitIndex ≤ x.lastApplied
  clear : x.outbox = []
  own : x.config.nodeId ∈ U
  within : t.Within x.currentTerm
  late : x.electionDeadlineMs ≤ t.clockMs

/-- The first two phases of the tick, in one record. -/
lemma Rising.acted (h : Rising U x t) : ∃ (d : ℤ) (ms : List Message), x.acted A t =
    { x with
      clockMs := t.clockMs, slots := t.slots
      pendingAppendEntries := t.received .appendEntries
      pendingVoteRequests := t.received .requestVote
      pendingVotes := t.received .requestVoteResponse
      state := .candidate, currentTerm := x.currentTerm + 1
      votedFor := strncpy maxId x.config.nodeId, votesReceived := [strncpy maxId x.config.nodeId]
      leaderId := [], persistDirty := true, electionDeadlineMs := d, outbox := ms } ∧
    ∀ m ∈ ms, m.kind = .requestVote ∧ m.term = x.currentTerm + 1 := by
  have hs : x.state ≠ .leader := by rw [h.state]; decide
  obtain ⟨y, hy⟩ : ∃ y : Node σ, y = { x with
    clockMs := t.clockMs, slots := t.slots
    pendingAppendEntries := t.received .appendEntries
    pendingVoteRequests := t.received .requestVote
    pendingVotes := t.received .requestVoteResponse } := ⟨_, rfl⟩
  have hlatched : ({ x.latched t with clockMs := t.clockMs } : Node σ) = y := by
    rw [latched_eq hs h.running h.within, hy]
  have hexpired : y.guardTimeoutExpired = true := by
    rw [hy, Node.guardTimeoutExpired, decide_eq_true h.late, Bool.and_true, h.running]
    exact h.member
  have hs' : y.state = .follower := by
    rw [hy]
    exact h.state
  obtain ⟨d, ms, hcand, hms⟩ := becomeCandidate_eq { y with state := .candidate }
  have hacted : x.acted A t = Node.becomeCandidate { y with state := .candidate } := by
    rw [Node.acted, hlatched, transition_expired hs' hexpired]
  refine ⟨d, ms, ?_, fun m hm => ?_⟩
  · rw [hacted, hcand, hy]
    dsimp only
    rw [h.clear, List.nil_append]
  · obtain ⟨p, rfl⟩ := hms m hm
    rw [hy]
    exact ⟨rfl, rfl⟩

/-- **The campaign begins**: the candidate has its own vote and asks for the others. -/
lemma Rising.campaigns (hU : Electorate U) (h : Rising U x t) :
    Campaigning U (x.currentTerm + 1) (x.ticked A t).electionDeadlineMs (x.ticked A t) ∧
      (x.ticked A t).configState = x.configState ∧
      (x.ticked A t).votesReceived = [x.config.nodeId] ∧
      ∀ m ∈ ((x.acted A t).dumpOutputs A).sends,
        m.kind = .requestVote ∧ m.term = x.currentTerm + 1 := by
  obtain ⟨d, ms, hacted, hms⟩ := h.acted (A := A)
  have hshort := strncpy_self (hU.short _ h.own)
  obtain ⟨hseat, hsettled, hsends⟩ := dumped_settled (A := A) (x := x.acted A t)
    (by rw [hacted]; exact Role.noConfusion) (by rw [hacted]; exact h.running)
    (by rw [hacted]; exact h.settled)
  have hcs : (x.ticked A t).configState = x.configState :=
    (congrArg Seat.configState hseat).trans (by rw [hacted]; rfl)
  have hcfg : (x.ticked A t).config = x.config :=
    (congrArg Seat.config hseat).trans (by rw [hacted]; rfl)
  have hv : (x.ticked A t).votesReceived = [x.config.nodeId] :=
    (congrArg Seat.votes hseat).trans (by rw [hacted]; exact congrArg (fun w => [w]) hshort)
  refine ⟨⟨?_, ?_, ?_, ?_, le_rfl, hsettled, ?_, ?_⟩, hcs, hv, ?_⟩
  · exact (congrArg Seat.state hseat).trans (by rw [hacted]; rfl)
  · exact (congrArg Seat.term hseat).trans (by rw [hacted]; rfl)
  · exact (congrArg Seat.running hseat).trans (by rw [hacted]; exact h.running)
  · rw [Node.selfIsMember, hcs, hcfg]
    exact h.member
  · rw [hv]
    exact fun v hmem => List.mem_singleton.mp hmem ▸ h.own
  · rw [hv]
    exact List.nodup_singleton _
  · rw [hsends, hacted]
    exact hms

/-- **An election that is left alone is won**: a follower whose time is over asks for votes,
willing voters of a quorum answer the requests they got, and the candidate gets their answers in
ticks before its deadline, each as the first vote of a tick; then it is elected in one of these
ticks or in the one after them. -/
theorem election_won (A : Application σ) (B : CString → Application σ) (hU : Electorate U)
    (h : Rising U x t) (voters : List (Node σ × TickInput))
    (hvoters : ∀ v ∈ voters, v.1.config.nodeId ∈ U ∧
      ∃ m ∈ ((x.acted A t).dumpOutputs A).sends, m.target = v.1.config.nodeId ∧ Willing m v.1 v.2)
    {ts : List TickInput} {last : TickInput}
    (hts : ∀ t' ∈ ts, Unhindered U (x.currentTerm + 1) (x.ticked A t).electionDeadlineMs t')
    (hlast : Unhindered U (x.currentTerm + 1) (x.ticked A t).electionDeadlineMs last)
    (hanswers : ∀ v ∈ voters, ∃ t' ∈ ts, ∃ r ∈ ((v.1.acted (B v.1.config.nodeId) v.2).dumpOutputs
      (B v.1.config.nodeId)).sends, (t'.received .requestVoteResponse).head? = some r)
    (hquorum : ({ x with
      votesReceived := x.config.nodeId :: voters.map fun v => v.1.config.nodeId } :
      Node σ).guardReceivedMajorityVotes = true) :
    Elected A (x.currentTerm + 1) (x.ticked A t) (ts ++ [last]) := by
  obtain ⟨hcampaign, hcs, hv, hrequests⟩ := h.campaigns (A := A) hU
  have hquorum' : ({ x.ticked A t with
      votesReceived := x.config.nodeId :: voters.map fun v => v.1.config.nodeId } :
      Node σ).guardReceivedMajorityVotes = true :=
    majority_of_subset (fun w hw => hw) hcs hquorum
  refine campaign_won A hU ts hlast hcampaign hts (fun w hw => ?_) hquorum'
  rcases List.mem_cons.mp hw with rfl | hw
  · exact Or.inl (by rw [hv]; exact List.mem_singleton_self _)
  · obtain ⟨v, hvmem, rfl⟩ := List.mem_map.mp hw
    obtain ⟨hid, m, hm, -, hwilling⟩ := hvoters v hvmem
    obtain ⟨hk, hterm⟩ := hrequests m hm
    obtain ⟨t', ht', r, hr, hhead⟩ := hanswers v hvmem
    rw [willing_grants hk hwilling, List.mem_singleton] at hr
    obtain ⟨rest, hrest⟩ := List.head?_eq_some_iff.mp hhead
    refine Or.inr ⟨t', ht', ?_⟩
    rw [TickInput.ballot, hrest, hr]
    dsimp only
    rw [if_pos ⟨rfl, hterm⟩]
    exact congrArg some (strncpy_self (hU.short _ hid))

/-- The impatient node of three, right after its start. -/
def freshNode (n : CString) : Node Unit := Node.init silent (threeConfig n) Disk.empty () 0

/-- The patient one, which is asked for its vote. -/
def askedVoter : Node Unit × TickInput := (freshNode n2, tickAt 1 [voteRequest n1 n2 1 0 0])

/-- One vote is enough. -/
theorem election_won_three : Elected silent 1 ((freshNode n1).ticked silent (tickAt 1 []))
    ([tickAt 1 [voteGrant n2 n1 1]] ++ [tickAt 1 []]) := by
  have hU : Electorate [n1, n2, n3] := ⟨by decide, by decide⟩
  have hrising : Rising [n1, n2, n3] (freshNode n1) (tickAt 1 []) :=
    { state := rfl, running := rfl, member := by decide +kernel, settled := by decide +kernel
      clear := rfl, own := by decide, within := by simp [TickInput.Within, tickAt]
      late := by decide +kernel }
  have hwilling : Willing (voteRequest n1 n2 1 0 0) askedVoter.1 askedVoter.2 :=
    { running := rfl, member := by decide +kernel, clear := rfl, heard := rfl, idle := rfl
      patient := fun _ => by decide +kernel, unelected := fun h => absurd h (by decide +kernel)
      free := by decide +kernel, upToDate := by decide +kernel }
  have hdeadline : ((freshNode n1).ticked silent (tickAt 1 [])).electionDeadlineMs = 2 := by
    decide +kernel
  have hquiet : Unhindered [n1, n2, n3] 1 2 (tickAt 1 []) :=
    ⟨by simp [TickInput.Within, tickAt], by decide, rfl, rfl, by simp [TickInput.received, tickAt]⟩
  have hvote : Unhindered [n1, n2, n3] 1 2 (tickAt 1 [voteGrant n2 n1 1]) :=
    ⟨by simp [TickInput.Within, tickAt, voteGrant], by decide, rfl, rfl, by
      intro m hm
      have hmem : m ∈ [voteGrant n2 n1 1] := List.mem_of_mem_take (List.mem_filter.mp hm).1
      rw [List.mem_singleton.mp hmem]
      exact List.mem_cons_of_mem n1 List.mem_cons_self⟩
  have hrequest : voteRequest n1 n2 1 0 0 ∈
      (((freshNode n1).acted silent (tickAt 1 [])).dumpOutputs silent).sends := by decide +kernel
  have hgrant : voteGrant n2 n1 1 ∈
      ((askedVoter.1.acted silent askedVoter.2).dumpOutputs silent).sends := by decide +kernel
  rw [← hdeadline] at hquiet hvote
  have helected := election_won silent (fun _ => silent) hU hrising [askedVoter]
    (fun v hv => List.mem_singleton.mp hv ▸ ⟨by decide, _, hrequest, rfl, hwilling⟩)
    (fun t ht => List.mem_singleton.mp ht ▸ hvote) hquiet
    (fun v hv => List.mem_singleton.mp hv ▸
      ⟨_, List.mem_singleton_self _, voteGrant n2 n1 1, hgrant, rfl⟩) (by decide +kernel)
  exact helected

end RaftRx.C
