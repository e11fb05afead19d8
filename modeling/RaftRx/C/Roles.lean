import RaftRx.C.LogMoves

/-!
Votes, candidacies and roles of the C node, as moves of the protocol: the latch and the transition
of a tick.

`node_handle_term_update` raises the term and leaves the role alone.  The protocol's observation of
a higher term gives the role up, so the moves below ask that a higher term is met by a follower
only (`LatchOk`, `TransitionOk`); a batch must be covered when commits are studied.

* `reach_handleVoteRequest`, `reach_campaign`, `reach_handleVoteResponse`, `reach_becomeLeader`;
* `reach_latchInputs`: a latch, with the messages it hears;
* `enabled_cases`: the rows of the table, with their guards;
* `reach_transition`: a transition.
-/

namespace RaftRx.C

open Protocol

variable {σ : Type*} {A : Application σ} {members : List CString} {mode : Mode}
  {S : Set (Msg CString ℤ LogEntry)} {n : CString} {st : Stored} {u : Bool}
  {a : State CString ℤ LogEntry} {x x' : Node σ} {m : Message}

/-! ### Voting -/

lemma asVote_of_ne_nil {v : CString} (h : v ≠ []) : asVote v = some v := if_neg h

/-- The voter's comparison is the protocol's. -/
lemma upToDate_of_candidateIsUpToDate (g : Good x) (h : x.candidateIsUpToDate m = true) :
    UpToDate LogEntry.term m.lastLogIndex.toNat m.lastLogTerm x.log := by
  rw [Node.candidateIsUpToDate, g.lastLogTerm, g.lastLogIndex] at h
  split at h
  · rw [decide_eq_true_eq] at h
    exact Or.inl h
  · rename_i heq
    rw [decide_eq_true_eq] at h
    exact Or.inr ⟨not_not.mp heq, by omega⟩

/-- A node that changes in nothing the study of logs looks at. -/
lemma Good.frame (g : Good x) (hs : x'.snapshotLastIncludedIndex = x.snapshotLastIncludedIndex)
    (ht : x'.snapshotLastIncludedTerm = x.snapshotLastIncludedTerm)
    (hc : x'.commitIndex = x.commitIndex) (ha : x'.lastApplied = x.lastApplied)
    (hl : x'.log = x.log) (ho : ∀ m ∈ x'.outbox, m ∈ x.outbox ∨ m.Sane)
    (hn : x'.state = .leader → x.state = .leader ∧ x'.config.peers = x.config.peers ∧
      x'.nextIndex = x.nextIndex ∧ x'.matchIndex = x.matchIndex) : Good x' where
  snapIndex := by rw [hs]; exact g.snapIndex
  snapTerm := by rw [ht]; exact g.snapTerm
  commit_nonneg := by rw [hc]; exact g.commit_nonneg
  applied_nonneg := by rw [ha]; exact g.applied_nonneg
  full := by rw [hl]; exact g.full
  queued := fun m hm => (ho m hm).elim (g.queued m) id
  next := by
    intro hlead p i hi
    obtain ⟨hlead', hp, hne, hma⟩ := hn hlead
    rw [Node.peerIndex, hp] at hi
    rw [hne, hma, hl]
    exact g.next hlead' p i hi

/-- The vote is cast and the answer queued. -/
lemma reach_castVote (h : At members mode S n st u a x) (hkind : m.kind = .requestVote)
    (hid : IdOk m.source) (hh : Hears mode S n m) (hg : x.grantsVote m = true) :
    Reach members mode S n st u a
      ((x.castVote m).queueMessage ((x.castVote m).voteResponse m true)) := by
  simp only [Node.grantsVote, Bool.and_eq_true, Bool.or_eq_true, decide_eq_true_eq] at hg
  obtain ⟨⟨⟨-, hterm⟩, hvote⟩, hup⟩ := hg
  have hsrc := strncpy_self hid.length_lt
  have hheard : Heard mode a (.voteReq m.source n (x.view st u).term m.lastLogIndex.toNat
      m.lastLogTerm) := by
    intro hel
    obtain ⟨htgt, -, hmem⟩ := hh.1 hel
    rw [h.sent]
    refine hmem _ ?_
    rw [Message.promise, hkind, htgt, hterm]
    rfl
  have hv : (x.view st u).vote = none ∨ (x.view st u).vote = some m.source := by
    change asVote x.votedFor = none ∨ asVote x.votedFor = some m.source
    rcases hvote with hvote | hvote
    · exact Or.inl (by rw [hvote]; rfl)
    · exact Or.inr (by rw [hvote]; exact asVote_of_ne_nil hid.ne_nil)
  have hsane : mode.keepsLogs → ((x.castVote m).voteResponse m true).Sane :=
    fun _ => ⟨le_rfl, le_rfl, le_rfl, length_strncpy_lt _⟩
  have hok : NodeOk members mode S n (x.castVote m) :=
    { nodeId := h.ok.nodeId
      fits := h.ok.fits
      config := h.ok.config
      vote := Or.inr (by rw [Node.castVote]; simpa only [hsrc] using hid)
      old := h.ok.old
      new := h.ok.new
      stable := h.ok.stable
      appends := h.ok.appends
      requests := h.ok.requests
      responses := h.ok.responses
      sources := h.ok.sources
      good := fun hk => (h.ok.good hk).frame rfl rfl rfl rfl rfl (fun _ => Or.inl)
        fun hl => ⟨hl, rfl, rfl, rfl⟩ }
  have hmove : Moves (params members) mode a n _ :=
    moves_grant h.srv hheard hv fun hk => upToDate_of_candidateIsUpToDate (h.ok.good hk) hup
  refine h.reach ?_ (hok.queueMessage ⟨rfl, by simp [Node.voteResponse]⟩ hsane)
  have hpromise : ((x.castVote m).voteResponse m true).promise
      = some (.grant n m.source (x.view st u).term) := by
    rw [Message.promise, Node.voteResponse]
    simp only [if_true, hsrc, Node.castVote, h.ok.nodeId, strncpy_self h.ok.fits]
    rfl
  have hcast : asVote (x.castVote m).votedFor = some m.source := by
    simp only [Node.castVote, hsrc]
    exact asVote_of_ne_nil hid.ne_nil
  rw [Node.queueMessage]
  split
  · refine hmove.bind fun a1 _ h1 => Moves.refl (h1.trans ?_)
    simp only [Node.view, hcast, List.filterMap_append, List.filterMap_cons, hpromise,
      List.filterMap_nil]
    rfl
  · refine hmove.bind fun a1 _ h1 => ?_
    refine (moves_drop h1 (List.sublist_append_left _ _)).bind fun a2 _ h2 => ?_
    refine Moves.refl (h2.trans ?_)
    simp only [Node.view, hcast]
    rfl

/-- **`node_handle_vote_request`** on a message that was sent to the node. -/
lemma reach_handleVoteRequest (h : At members mode S n st u a x) (hkind : m.kind = .requestVote)
    (hid : IdOk m.source) (hh : Hears mode S n m)
    (hrole : mode.elects → x.currentTerm < m.term → x.state = .follower) :
    Reach members mode S n st u a (x.handleVoteRequest m) := by
  refine (reach_handleTermUpdate h m hrole).bind fun a1 _ h1 => ?_
  simp only [Node.handleVoteRequest]
  cases hg : (x.handleTermUpdate m).grantsVote m with
  | true =>
      rw [if_pos rfl]
      exact reach_castVote h1 hkind hid hh hg
  | false =>
      rw [if_neg Bool.false_ne_true]
      exact reach_queueRefusal h1 ⟨rfl, by simp [Node.voteResponse]⟩ rfl
        fun _ => ⟨le_rfl, le_rfl, le_rfl, length_strncpy_lt _⟩

/-! ### Candidacies -/

/-- Vote requests are queued as far as there is room. -/
lemma queueRequests_eq (ps : List CString) : ∀ y : Node σ, ∃ ms,
    ps.foldl (fun node peer => node.queueMessage (node.voteRequestTo peer)) y
      = { y with outbox := y.outbox ++ ms } ∧ ∀ m ∈ ms, ∃ p, m = y.voteRequestTo p := by
  induction ps with
  | nil => exact fun y => ⟨[], by simp, by simp⟩
  | cons p ps ih =>
      intro y
      rw [List.foldl_cons, Node.queueMessage]
      split
      · obtain ⟨ms, heq, hms⟩ := ih { y with outbox := y.outbox ++ [y.voteRequestTo p] }
        refine ⟨y.voteRequestTo p :: ms, ?_, ?_⟩
        · rw [heq]
          simp
        · intro m hm
          rcases List.mem_cons.mp hm with rfl | hm
          · exact ⟨p, rfl⟩
          · exact hms m hm
      · exact ih y

/-- A candidacy in one record. -/
lemma becomeCandidate_eq (y : Node σ) : ∃ (d : ℤ) (ms : List Message), y.becomeCandidate =
    { y with
      currentTerm := y.currentTerm + 1, votedFor := strncpy maxId y.config.nodeId
      votesReceived := [strncpy maxId y.config.nodeId], leaderId := [], persistDirty := true
      electionDeadlineMs := d, outbox := y.outbox ++ ms } ∧
    ∀ m ∈ ms, ∃ p, m =
      { y.voteRequestTo p with term := y.currentTerm + 1 } := by
  have hrec : Node.recordVote
      { y with
        currentTerm := y.currentTerm + 1, votedFor := strncpy maxId y.config.nodeId
        votesReceived := [] } y.config.nodeId =
      { y with
        currentTerm := y.currentTerm + 1, votedFor := strncpy maxId y.config.nodeId
        votesReceived := [strncpy maxId y.config.nodeId] } := by
    rw [Node.recordVote, if_neg List.not_mem_nil, if_pos (by simp)]
    rfl
  rw [Node.becomeCandidate]
  simp only [hrec]
  obtain ⟨ms, heq, hms⟩ := queueRequests_eq y.config.peers
    { y with
      currentTerm := y.currentTerm + 1, votedFor := strncpy maxId y.config.nodeId
      votesReceived := [strncpy maxId y.config.nodeId], leaderId := [], persistDirty := true
      electionDeadlineMs := y.clockMs + Node.nextElectionTimeout
        { y with
          currentTerm := y.currentTerm + 1, votedFor := strncpy maxId y.config.nodeId
          votesReceived := [strncpy maxId y.config.nodeId], leaderId := [], persistDirty := true } }
  exact ⟨_, ms, heq, hms⟩

/-- **`action_become_candidate`**, with the role published before it. -/
lemma reach_campaign (h : At members mode S n st u a x) (hu : u = true)
    (hself : x.selfIsMember = true) :
    Reach members mode S n st u a (Node.becomeCandidate { x with state := .candidate }) := by
  subst hu
  have hid : IdOk n := h.ok.idOk_of_selfIsMember hself
  have hn : strncpy maxId n = n := strncpy_self hid.length_lt
  obtain ⟨d, ms, heq, hms⟩ := becomeCandidate_eq { x with state := .candidate }
  simp only [h.ok.nodeId, hn] at heq
  have hreqs : ∀ p ∈ ms.filterMap Message.promise, ∃ q li lt,
      p = .voteReq n q (x.currentTerm + 1) li lt ∧
        (mode.keepsLogs → li = x.log.length ∧ lt = lastTerm LogEntry.term x.log) := by
    intro p hp
    obtain ⟨m, hm, hpm⟩ := List.mem_filterMap.mp hp
    obtain ⟨q, rfl⟩ := hms m hm
    rw [Message.promise, Node.voteRequestTo] at hpm
    simp only [Option.some.injEq, h.ok.nodeId, hn] at hpm
    refine ⟨_, _, _, hpm.symm, fun hk => ?_⟩
    have g := h.ok.good hk
    refine ⟨?_, g.lastLogTerm⟩
    change x.lastLogIndex.toNat = _
    rw [g.lastLogIndex, Int.toNat_natCast]
  rw [heq]
  refine h.reach ?_ ?_
  · refine (moves_campaign h.srv
      (show x.currentTerm < x.currentTerm + 1 by omega) hreqs).bind fun a1 _ h1 => ?_
    refine Moves.refl (h1.trans ?_)
    simp only [Node.view, List.filterMap_append, asVote_of_ne_nil hid.ne_nil, List.mem_singleton]
    rfl
  · exact
      { nodeId := h.ok.nodeId
        fits := h.ok.fits
        config := h.ok.config
        vote := Or.inr hid
        old := h.ok.old
        new := h.ok.new
        stable := h.ok.stable
        appends := h.ok.appends
        requests := h.ok.requests
        responses := h.ok.responses
        sources := by
          intro m hm
          rcases List.mem_append.mp hm with hm | hm
          · exact h.ok.sources m hm
          · obtain ⟨q, rfl⟩ := hms m hm
            refine ⟨?_, fun _ => hid⟩
            simp only [Node.voteRequestTo, h.ok.nodeId, hn]
        good := fun hk => (h.ok.good hk).frame rfl rfl rfl rfl rfl
          (by
            intro m hm
            rcases List.mem_append.mp hm with hm | hm
            · exact Or.inl hm
            · obtain ⟨q, rfl⟩ := hms m hm
              exact Or.inr ⟨le_rfl, le_rfl, le_rfl, length_strncpy_lt _⟩)
          fun hl => absurd hl (by simp) }

/-- **`node_handle_vote_response`** on a message that was sent to the node. -/
lemma reach_handleVoteResponse (h : At members mode S n st u a x)
    (hkind : m.kind = .requestVoteResponse) (hh : Hears mode S n m)
    (hrole : mode.elects → x.currentTerm < m.term → x.state = .follower) :
    Reach members mode S n st u a (x.handleVoteResponse m) := by
  refine (reach_handleTermUpdate h m hrole).bind fun a1 _ h1 => ?_
  rw [Node.handleVoteResponse]
  split
  · exact h1.self
  · rename_i hcond
    simp only [not_or, not_not] at hcond
    obtain ⟨-, hcand, hterm⟩ := hcond
    split
    · rename_i hgranted
      rw [Node.recordVote]
      split
      · exact h1.self
      · split
        · have hok : NodeOk members mode S n
              { x.handleTermUpdate m with
                votesReceived := (x.handleTermUpdate m).votesReceived ++
                  [strncpy maxId m.source] } :=
            h1.ok.frame rfl rfl (Or.inl rfl) (fun _ => id) (fun _ => id) (fun _ => id)
              (fun _ => Or.inl) fun hk => (h1.ok.good hk).frame rfl rfl rfl rfl rfl
                (fun _ => Or.inl) fun hl => ⟨hl, rfl, rfl, rfl⟩
          by_cases hel : mode.elects
          · obtain ⟨htgt, hlen, hmem⟩ := hh.1 hel
            have hheard : Heard mode a1
                (.grant m.source n ((x.handleTermUpdate m).view st u).term) := by
              intro _
              rw [h1.sent]
              refine hmem _ ?_
              rw [Message.promise, hkind, htgt, hterm]
              simp only [hgranted, if_true]
              rfl
            refine h1.reach ?_ hok
            refine (moves_collect h1.srv hcand hheard).bind fun a2 _ h2 => ?_
            refine Moves.refl (h2.trans ?_)
            have hset : insert m.source {v | v ∈ (x.handleTermUpdate m).votesReceived}
                = {v | v ∈ (x.handleTermUpdate m).votesReceived ++ [strncpy maxId m.source]} := by
              rw [strncpy_self hlen]
              ext v
              simp only [Set.mem_insert_iff, Set.mem_ofPred_eq, List.mem_append,
                List.mem_singleton]
              exact or_comm
            simp only [Node.view, ← hset]
            rfl
          · exact reach_of_calm hel h1 ⟨rfl, rfl, rfl, id, Queued.of_eq rfl⟩ hok
        · exact h1.self
    · exact h1.self

/-! ### Leading -/

/-- The quorum of votes is a majority in the sense of the protocol. -/
lemma majority_of_hasVoteQuorum {ms : List CString} (h : x.hasVoteQuorum ms = true) :
    Majority ms (x.view st u).votes :=
  Node.majority_of_hasVoteQuorum h

/-- The cursors of a new leader are inside its log and its match indices are zero. -/
lemma cursors_becomeLeader (k : ℤ) (ys : List ℤ) {c i : ℕ} (hi : i < c) :
    i < (List.replicate c k ++ ys).length ∧ (List.replicate c k ++ ys).getD i 0 = k := by
  refine ⟨by rw [List.length_append, List.length_replicate]; omega, ?_⟩
  rw [List.getD_eq_getElem?_getD, List.getElem?_append_left (by simpa using hi),
    List.getElem?_replicate, if_pos hi]
  rfl

lemma Node.peerIndex_lt {y : Node σ} {p : CString} {i : ℕ} (h : y.peerIndex p = some i) :
    i < y.config.peers.length := by
  rw [Node.peerIndex, List.findIdx?_eq_some_iff_getElem] at h
  exact h.1

/-- The role, the cursors and the match indices of a new leader. -/
def Node.lead (y : Node σ) : Node σ :=
  { y with
    state := .leader
    leaderId := strncpy maxId y.config.nodeId
    nextIndex := List.replicate y.config.peers.length (max (y.lastLogIndex + 1) y.logBaseIndex) ++
      y.nextIndex.drop y.config.peers.length
    matchIndex := List.replicate y.config.peers.length 0 ++
      y.matchIndex.drop y.config.peers.length }

lemma becomeLeader_eq (y : Node σ) : Node.becomeLeader { y with state := .leader } =
    { y.lead.broadcastAppendEntries with
      heartbeatDeadlineMs := y.lead.broadcastAppendEntries.clockMs +
        y.lead.broadcastAppendEntries.config.heartbeatIntervalMs } := rfl

lemma good_lead (g : Good x) : Good x.lead := by
  refine ⟨g.snapIndex, g.snapTerm, g.commit_nonneg, g.applied_nonneg, g.full, g.queued, ?_⟩
  intro _ p i hi
  have hlt : i < x.config.peers.length := Node.peerIndex_lt hi
  have hlast := g.lastLogIndex
  obtain ⟨hn, hnv⟩ := cursors_becomeLeader (max (x.lastLogIndex + 1) x.logBaseIndex)
    (x.nextIndex.drop x.config.peers.length) hlt
  obtain ⟨hm, -⟩ := cursors_becomeLeader 0 (x.matchIndex.drop x.config.peers.length) hlt
  refine ⟨hn, hm, ?_⟩
  change 1 ≤ List.getD (_ ++ _) _ _ ∧ List.getD (_ ++ _) _ _ ≤ (x.log.length : ℤ) + 1
  rw [hnv, Node.logBaseIndex, g.snapIndex, hlast]
  omega

/-- A new leader has matched nothing yet. -/
lemma matchOf_lead (y : Node σ) (p : CString) : (y.lead.matchOf p).getD 0 = 0 := by
  rw [Node.matchOf]
  cases hi : y.lead.peerIndex p with
  | none => rfl
  | some i =>
      have hlt : i < y.config.peers.length := Node.peerIndex_lt hi
      exact (cursors_becomeLeader 0 (y.matchIndex.drop y.config.peers.length) hlt).2

/-- The deadline of the heartbeat is not the protocol's business. -/
lemma Reach.heartbeat {y : Node σ} (h : Reach members mode S n st u a y) (d : ℤ) :
    Reach members mode S n st u a { y with heartbeatDeadlineMs := d } :=
  h.bind fun _ _ h1 => h1.same rfl (h1.ok.frame rfl rfl (Or.inl rfl) (fun _ => id) (fun _ => id)
    (fun _ => id) (fun _ => Or.inl) fun hk => (h1.ok.good hk).frame rfl rfl rfl rfl rfl
      (fun _ => Or.inl) fun hl => ⟨hl, rfl, rfl, rfl⟩)

/-- **`action_become_leader`**, with the role published before it: the candidacy is settled. -/
lemma reach_becomeLeader (h : At members mode S n st false a x) (hcand : x.state = .candidate)
    (hq : x.guardReceivedMajorityVotes = true) :
    Reach members mode S n st false a (Node.becomeLeader { x with state := .leader }) := by
  have hok : NodeOk members mode S n x.lead :=
    h.ok.frame rfl rfl (Or.inl rfl) (fun _ => id) (fun _ => id) (fun _ => id) (fun _ => Or.inl)
      fun hk => good_lead (h.ok.good hk)
  have hlead : Reach members mode S n st false a x.lead := by
    by_cases hel : mode.elects
    · rw [Node.guardReceivedMajorityVotes, Bool.and_eq_true] at hq
      have hmaj : Majority members (x.view st false).votes := by
        rw [← (h.ok.stable hel).1]
        exact majority_of_hasVoteQuorum hq.1
      refine h.reach ?_ hok
      refine (moves_win (h.inv.election hel) h.srv hcand rfl hmaj).bind fun a1 _ h1 => ?_
      refine Moves.refl (h1.trans ?_)
      simp only [Node.view, matchOf_lead]
      rfl
    · exact reach_of_calm hel h ⟨rfl, rfl, rfl, id, Queued.of_eq rfl⟩ hok
  rw [becomeLeader_eq]
  refine Reach.heartbeat ?_ _
  exact hlead.bind fun a1 _ h1 => reach_broadcastAppendEntries h1 fun _ => rfl

/-! ### The latch -/

/-- A leader or candidate meets no answer of a higher term. -/
def LatchOk (x : Node σ) (ms : List Message) : Prop :=
  x.state ≠ .follower → ∀ m ∈ ms, m.kind = .appendEntriesResponse → m.term ≤ x.currentTerm

/-- The messages of a latch were sent to the node, and vote requests name a well-formed id. -/
def AllHeard (mode : Mode) (S : Set (Msg CString ℤ LogEntry)) (n : CString)
    (ms : List Message) : Prop :=
  ∀ m ∈ ms, Hears mode S n m ∧ (m.kind = .requestVote → IdOk m.source)

/-- A message that waits for the transition. -/
lemma NodeOk.pend (h : NodeOk members mode S n x) (ha : ∀ m ∈ x'.pendingAppendEntries,
      m ∈ x.pendingAppendEntries ∨ (m.kind = .appendEntries ∧ Hears mode S n m))
    (hr : ∀ m ∈ x'.pendingVoteRequests, m ∈ x.pendingVoteRequests ∨
      (m.kind = .requestVote ∧ IdOk m.source ∧ Hears mode S n m))
    (hp : ∀ m ∈ x'.pendingVotes, m ∈ x.pendingVotes ∨
      (m.kind = .requestVoteResponse ∧ Hears mode S n m))
    (hx : x' = { x with
      pendingAppendEntries := x'.pendingAppendEntries
      pendingVoteRequests := x'.pendingVoteRequests, pendingVotes := x'.pendingVotes }) :
    NodeOk members mode S n x' := by
  rw [hx]
  exact
    { nodeId := h.nodeId
      fits := h.fits
      config := h.config
      vote := h.vote
      old := h.old
      new := h.new
      stable := h.stable
      appends := fun m hm => (ha m hm).elim (h.appends m) id
      requests := fun m hm => (hr m hm).elim (h.requests m) id
      responses := fun m hm => (hp m hm).elim (h.responses m) id
      sources := h.sources
      good := fun hk => (h.good hk).frame rfl rfl rfl rfl rfl (fun _ => Or.inl)
        fun hl => ⟨hl, rfl, rfl, rfl⟩ }

/-- A list that one element was added to. -/
lemma mem_or_of_mem_concat {α : Type*} {Q : α → Prop} {l : List α} {b : α} (hb : Q b) :
    ∀ c ∈ l ++ [b], c ∈ l ∨ Q c := by
  intro c hc
  rcases List.mem_append.mp hc with hc | hc
  · exact Or.inl hc
  · rw [List.mem_singleton.mp hc]
    exact Or.inr hb

/-- The body of the receive loop. -/
lemma reach_receive (h : At members mode S n st u a x) (hlogs : mode ≠ .logs)
    (hh : Hears mode S n m) (hid : m.kind = .requestVote → IdOk m.source)
    (hrole : mode.elects → m.kind = .appendEntriesResponse → x.currentTerm < m.term →
      x.state = .follower) :
    Reach members mode S n st u a (x.receive m) := by
  rw [Node.receive]
  cases hkind : m.kind with
  | appendEntries =>
      exact h.same rfl (h.ok.pend (mem_or_of_mem_concat ⟨hkind, hh⟩) (fun _ => Or.inl)
        (fun _ => Or.inl) rfl)
  | requestVote =>
      exact h.same rfl (h.ok.pend (fun _ => Or.inl)
        (mem_or_of_mem_concat ⟨hkind, hid hkind, hh⟩) (fun _ => Or.inl) rfl)
  | requestVoteResponse =>
      exact h.same rfl (h.ok.pend (fun _ => Or.inl) (fun _ => Or.inl)
        (mem_or_of_mem_concat ⟨hkind, hh⟩) rfl)
  | appendEntriesResponse =>
      exact reach_handleAppendEntriesResponse h hkind hh hlogs fun hel => hrole hel hkind

lemma receive_state (x : Node σ) (m : Message) : (x.receive m).state = x.state := by
  rw [Node.receive]
  split
  · rfl
  · rfl
  · rfl
  · exact (still_handleAppendEntriesResponse x m).state.trans (handleTermUpdate_state x m)

lemma receive_term (x : Node σ) (m : Message) : (x.receive m).currentTerm =
    if m.kind = .appendEntriesResponse then max x.currentTerm m.term else x.currentTerm := by
  rw [Node.receive]
  cases m.kind with
  | appendEntries => rfl
  | requestVote => rfl
  | requestVoteResponse => rfl
  | appendEntriesResponse =>
      exact (still_handleAppendEntriesResponse x m).term.trans (handleTermUpdate_term x m)

/-- A message of the loop leaves what was asked of the rest. -/
lemma LatchOk.receive {ms : List Message} (h : LatchOk x (m :: ms)) : LatchOk (x.receive m) ms := by
  intro hstate m' hm' hkind'
  rw [receive_state] at hstate
  have hle := h hstate m' (List.mem_cons_of_mem _ hm') hkind'
  rw [receive_term]
  split
  · exact hle.trans (le_max_left _ _)
  · exact hle

/-- The receive loop. -/
lemma reach_receiveAll (hlogs : mode ≠ .logs) (ms : List Message) :
    ∀ {a : State CString ℤ LogEntry} {x : Node σ}, At members mode S n st u a x →
      AllHeard mode S n ms → (mode.elects → LatchOk x ms) →
      Reach members mode S n st u a (ms.foldl Node.receive x) := by
  induction ms with
  | nil => exact fun h _ _ => h.self
  | cons m ms ih =>
      intro a x h hall hok
      obtain ⟨hh, hid⟩ := hall m List.mem_cons_self
      refine (reach_receive h hlogs hh hid fun hel hkind hlt => ?_).bind fun a1 _ h1 => ?_
      · by_contra hstate
        have := hok hel hstate m List.mem_cons_self hkind
        omega
      · exact ih h1 (fun m' hm' => hall m' (List.mem_cons_of_mem _ hm')) fun hel =>
          (hok hel).receive

/-- The loop over client commands. -/
lemma reach_appendClientCommands (cs : List Command) :
    ∀ {a : State CString ℤ LogEntry} {x : Node σ}, At members mode S n st u a x →
      (mode.keepsLogs → x.state = .leader) →
      Reach members mode S n st u a (cs.foldl Node.appendClientCommand x) := by
  induction cs with
  | nil => exact fun h _ => h.self
  | cons c cs ih =>
      intro a x h hl
      refine (reach_appendClientCommand h c hl).bind fun a1 _ h1 => ih h1 fun hk => ?_
      exact (still_appendClientCommand x c).state.trans (hl hk)

/-- Queued messages are lost. -/
lemma reach_clearOutbox (h : At members mode S n st u a x) :
    Reach members mode S n st u a { x with outbox := [] } := by
  refine h.reach ?_ (h.ok.frame rfl rfl (Or.inl rfl) (fun _ => id) (fun _ => id) (fun _ => id)
    (by simp) fun hk => (h.ok.good hk).frame rfl rfl rfl rfl rfl (by simp)
      fun hl => ⟨hl, rfl, rfl, rfl⟩)
  exact moves_drop h.srv (List.nil_sublist _)

/-- **`raft_node_latch_inputs`**. -/
lemma reach_latchInputs (h : At members mode S n st u a x) (hlogs : mode ≠ .logs)
    {ms : List Message} (cs : List Command) (hall : AllHeard mode S n ms)
    (hok : mode.elects → LatchOk x ms) :
    Reach members mode S n st u a (x.latchInputs ms cs) := by
  have hclear : Reach members mode S n st u a
      { x with pendingAppendEntries := [], pendingVoteRequests := [], pendingVotes := [] } :=
    h.same rfl (h.ok.pend (by simp) (by simp) (by simp) rfl)
  refine hclear.bind fun a1 _ h1 => ?_
  rw [Node.latchInputs]
  split
  · exact reach_clearOutbox h1
  · have hrecv := reach_receiveAll hlogs (ms.take maxQueue) h1
      (fun m hm => hall m (List.mem_of_mem_take hm))
      fun hel hstate m hm => hok hel hstate m (List.mem_of_mem_take hm)
    refine hrecv.bind fun a2 _ h2 => ?_
    dsimp only
    split
    · rename_i hlead
      rw [Node.isLeader, Bool.and_eq_true, decide_eq_true_eq] at hlead
      exact reach_appendClientCommands _ h2 fun _ => hlead.2
    · exact h2.self

/-! ### The transition -/

/-- The action the next transition runs. -/
def Node.nextAction (x : Node σ) : Option Action := x.enabled.map Transition.action

/-- **What a transition can do**, one case for each kind of row. -/
inductive TransitionCase (A : Application σ) (x : Node σ) : Node σ → Prop where
  | none : TransitionCase A x x
  | campaign : x.guardTimeoutExpired = true → TransitionCase A x
      (Node.becomeCandidate { x with state := .candidate })
  | giveUp : x.state = .candidate → TransitionCase A x
      (Node.backToFollowerDueToTimeout { x with state := .follower })
  | win : x.state = .candidate → x.guardReceivedMajorityVotes = true → TransitionCase A x
      (Node.becomeLeader { x with state := .leader })
  | append (m : Message) (rest : List Message) : x.pendingAppendEntries = m :: rest →
      x.nextAction = some .handleAppendEntries → TransitionCase A x
      (Node.handleAppendEntries A { x with state := .follower, pendingAppendEntries := rest } m)
  | request (m : Message) (rest : List Message) : x.pendingVoteRequests = m :: rest →
      TransitionCase A x
      (Node.handleVoteRequest { x with state := .follower, pendingVoteRequests := rest } m)
  | requestAsCandidate (m : Message) (rest : List Message) : x.pendingVoteRequests = m :: rest →
      m.term ≤ x.currentTerm → TransitionCase A x
      (Node.handleVoteRequest { x with pendingVoteRequests := rest } m)
  | vote (m : Message) (rest : List Message) : x.pendingVotes = m :: rest →
      x.nextAction = some .handleVote → TransitionCase A x
      (Node.handleVoteResponse { x with pendingVotes := rest } m)
  | ignoreVote : TransitionCase A x x.ignoreVote
  | ignoreVoteRequest : TransitionCase A x x.ignoreVoteRequest
  | heartbeat : x.state = .leader → TransitionCase A x x.sendHeartbeat

/-- The enabled row is in the table, starts from the current role and its guard holds. -/
lemma enabled_spec {row : Transition} (h : x.enabled = some row) :
    row ∈ raftTransitions ∧ row.source = x.state ∧ x.holds row.guard = true := by
  have hp := List.find?_some h
  rw [Bool.and_eq_true, decide_eq_true_eq] at hp
  exact ⟨List.mem_of_find?_eq_some h, hp⟩

/-- A candidate answers a vote request as a candidate only if its term is not higher. -/
lemma guardHasHigherTermVoteRequest_of_candidate (hs : x.state = .candidate)
    (h : x.enabled = some ⟨.candidate, .candidate, .hasVoteRequest, .handleVoteRequest⟩) :
    x.guardHasHigherTermVoteRequest = false := by
  by_contra hg
  rw [Bool.not_eq_false] at hg
  simp only [Node.enabled, raftTransitions, List.find?_cons, hs, Node.holds, reduceCtorEq,
    decide_false, Bool.false_and, decide_true, Bool.true_and, hg] at h
  split at h
  · simp at h
  · split at h
    · simp at h
    · split at h <;> simp at h

/-- A row of the table is `x` unchanged in its role when source and target agree. -/
lemma with_state_self {y : Node σ} {r : Role} (h : r = y.state) : { y with state := r } = y := by
  rw [h]

lemma exists_cons_of_not_isEmpty {α : Type*} {l : List α} (h : (!l.isEmpty) = true) :
    ∃ b rest, l = b :: rest := by
  cases l with
  | nil => simp at h
  | cons b rest => exact ⟨b, rest, rfl⟩

lemma transitionCase_append (hg : x.guardHasAppendEntries = true)
    (hnext : x.nextAction = some .handleAppendEntries) :
    TransitionCase A x (Node.actionHandleAppendEntries A { x with state := .follower }) := by
  obtain ⟨m, rest, hm⟩ := exists_cons_of_not_isEmpty hg
  simp only [Node.actionHandleAppendEntries, hm]
  exact TransitionCase.append m rest hm hnext

lemma transitionCase_request (hg : x.guardHasVoteRequest = true) :
    TransitionCase A x (Node.actionHandleVoteRequest { x with state := .follower }) := by
  obtain ⟨m, rest, hm⟩ := exists_cons_of_not_isEmpty hg
  simp only [Node.actionHandleVoteRequest, hm]
  exact TransitionCase.request m rest hm

lemma guardHasVoteRequest_of_higher (hg : x.guardHasHigherTermVoteRequest = true) :
    x.guardHasVoteRequest = true := by
  rw [Node.guardHasHigherTermVoteRequest] at hg
  rw [Node.guardHasVoteRequest]
  cases hp : x.pendingVoteRequests with
  | nil => rw [hp] at hg; simp at hg
  | cons m rest => rfl

/-- **The transition** is one of the cases. -/
theorem transition_cases (x : Node σ) : TransitionCase A x (x.transition A) := by
  rw [Node.transition]
  cases henabled : x.enabled with
  | none => exact TransitionCase.none
  | some row =>
      obtain ⟨hmem, hsrc, hg⟩ := enabled_spec henabled
      have hnext : x.nextAction = some row.action := by rw [Node.nextAction, henabled]; rfl
      simp only [raftTransitions, List.mem_cons, List.not_mem_nil, or_false] at hmem
      rcases hmem with rfl | rfl | rfl | rfl | rfl | rfl | rfl | rfl | rfl | rfl | rfl | rfl |
        rfl | rfl | rfl
      -- from FOLLOWER
      · exact TransitionCase.campaign hg
      · exact transitionCase_append hg hnext
      · exact transitionCase_request hg
      · exact (with_state_self hsrc).symm ▸ TransitionCase.ignoreVote
      -- from CANDIDATE
      · exact TransitionCase.giveUp hsrc.symm
      · exact TransitionCase.win hsrc.symm hg
      · exact transitionCase_append hg hnext
      · exact transitionCase_request (guardHasVoteRequest_of_higher hg)
      · have hlow := guardHasHigherTermVoteRequest_of_candidate hsrc.symm henabled
        obtain ⟨m, rest, hm⟩ := exists_cons_of_not_isEmpty (l := x.pendingVoteRequests) hg
        rw [Node.guardHasHigherTermVoteRequest, hm] at hlow
        simp only [decide_eq_false_iff_not, not_lt] at hlow
        have hself : ({ x with state := .candidate } : Node σ) = x := with_state_self hsrc
        change TransitionCase A x (Node.actionHandleVoteRequest { x with state := .candidate })
        rw [hself]
        simp only [Node.actionHandleVoteRequest, hm]
        exact TransitionCase.requestAsCandidate m rest hm hlow
      · obtain ⟨m, rest, hm⟩ := exists_cons_of_not_isEmpty (l := x.pendingVotes) hg
        have hself : ({ x with state := .candidate } : Node σ) = x := with_state_self hsrc
        change TransitionCase A x (Node.actionHandleVote { x with state := .candidate })
        rw [hself]
        simp only [Node.actionHandleVote, hm]
        exact TransitionCase.vote m rest hm hnext
      -- from LEADER
      · exact transitionCase_append hg hnext
      · exact transitionCase_request (guardHasVoteRequest_of_higher hg)
      · exact (with_state_self hsrc).symm ▸ TransitionCase.ignoreVoteRequest
      · exact (with_state_self hsrc).symm ▸ TransitionCase.ignoreVote
      · have hself : ({ x with state := .leader } : Node σ) = x := with_state_self hsrc
        change TransitionCase A x (Node.sendHeartbeat { x with state := .leader })
        rw [hself]
        exact TransitionCase.heartbeat hsrc.symm

/-- The candidacy of a node may be missing in its files. -/
lemma At.unsettle (h : At members mode S n st false a x) (u : Bool) :
    Reach members mode S n st u a x := by
  cases u with
  | false => exact h.self
  | true =>
      have hmove : Moves (params members) mode a n { x.view st false with unsettled := true } :=
        moves_unsettle h.srv
      obtain ⟨a', hl, hx⟩ := hmove
      exact ⟨a', hl, hl.inv h.inv, hl.sent.trans h.sent, hx, h.ok⟩

/-- The role FOLLOWER is published and a message leaves its queue. -/
lemma At.follow (h : At members mode S n st u a x) {p q : List Message}
    (hp : ∀ m ∈ p, m ∈ x.pendingAppendEntries) (hq : ∀ m ∈ q, m ∈ x.pendingVoteRequests) :
    Reach members mode S n st u a
      { x with state := .follower, pendingAppendEntries := p, pendingVoteRequests := q } := by
  refine h.reach (moves_stepDown h.srv) (h.ok.frame rfl rfl (Or.inl rfl) hp hq (fun _ => id)
    (fun _ => Or.inl) fun hk => (h.ok.good hk).frame rfl rfl rfl rfl rfl (fun _ => Or.inl)
      fun hl => absurd hl (by simp))

/-- Messages leave their queues. -/
lemma At.dequeue (h : At members mode S n st u a x) {q r : List Message}
    (hq : ∀ m ∈ q, m ∈ x.pendingVoteRequests) (hr : ∀ m ∈ r, m ∈ x.pendingVotes) :
    Reach members mode S n st u a { x with pendingVoteRequests := q, pendingVotes := r } :=
  h.same rfl (h.ok.frame rfl rfl (Or.inl rfl) (fun _ => id) hq hr
    (fun _ => Or.inl) fun hk => (h.ok.good hk).frame rfl rfl rfl rfl rfl (fun _ => Or.inl)
      fun hl => ⟨hl, rfl, rfl, rfl⟩)

/-- A candidate that gives up. -/
lemma At.giveUp (h : At members mode S n st u a x) :
    Reach members mode S n st u a
      (Node.backToFollowerDueToTimeout { x with state := .follower }) := by
  refine h.reach ?_ (h.ok.frame rfl rfl (Or.inl rfl) (fun _ => id) (fun _ => id) (fun _ => id)
    (fun _ => Or.inl) fun hk => (h.ok.good hk).frame rfl rfl rfl rfl rfl (fun _ => Or.inl)
      fun hl => absurd hl (by simp [Node.backToFollowerDueToTimeout]))
  refine (moves_stepDown h.srv).bind fun a1 _ h1 => ?_
  refine (moves_clear h1 ∅ (x.view st u).matched (fun hc => absurd hc (by simp))
    fun _ => rfl).bind fun a2 _ h2 => ?_
  refine Moves.refl (h2.trans ?_)
  simp only [Node.view, Node.backToFollowerDueToTimeout, List.not_mem_nil]
  rfl

lemma mem_of_eq_cons {α : Type*} {l rest : List α} {b : α} (h : l = b :: rest) :
    b ∈ l ∧ ∀ c ∈ rest, c ∈ l := by
  rw [h]
  exact ⟨List.mem_cons_self, fun _ => List.mem_cons_of_mem _⟩

/-- A candidate meets no vote of a higher term. -/
def TransitionOk (x : Node σ) : Prop :=
  x.nextAction = some .handleVote → ∀ m ∈ x.pendingVotes.head?, m.term ≤ x.currentTerm

/-- The batch the next transition accepts is covered. -/
def NextCovered (members : List CString) (mode : Mode) (n : CString)
    (a : State CString ℤ LogEntry) (x : Node σ) : Prop :=
  x.nextAction = some .handleAppendEntries → ∀ m ∈ x.pendingAppendEntries.head?,
    BatchCovered members mode n a x m

/-- **The transition of a tick.** -/
lemma reach_transition (h : At members mode S n st false a x) (hvote : mode.elects → TransitionOk x)
    (hcov : NextCovered members mode n a x) :
    Reach members mode S n st x.running a (x.transition A) := by
  have hcase := transition_cases (A := A) x
  generalize x.transition A = y at hcase ⊢
  cases hcase with
  | none => exact h.unsettle _
  | campaign hg =>
      rw [Node.guardTimeoutExpired, Bool.and_eq_true, Bool.and_eq_true] at hg
      exact (h.unsettle x.running).bind fun a1 _ h1 => reach_campaign h1 hg.1.1 hg.1.2
  | giveUp _ => exact (h.unsettle x.running).bind fun a1 _ h1 => h1.giveUp
  | win hc hq => exact (reach_becomeLeader h hc hq).bind fun a1 _ h1 => h1.unsettle _
  | append m rest hm hnext =>
      obtain ⟨hmem, hrest⟩ := mem_of_eq_cons hm
      obtain ⟨hkind, hh⟩ := h.ok.appends m hmem
      refine (h.unsettle x.running).bind fun a1 hl1 h1 => ?_
      refine (h1.follow hrest fun _ => id).bind fun a2 hl2 h2 => ?_
      refine reach_handleAppendEntries h2 hkind hh (fun _ => rfl) ?_
      intro hmode hterm hprev a' L hl hL
      exact hcov hnext m (by rw [hm]; rfl) hmode hterm hprev a' L ((hl1.trans hl2).trans hl) hL
  | request m rest hm =>
      obtain ⟨hmem, hrest⟩ := mem_of_eq_cons hm
      obtain ⟨hkind, hid, hh⟩ := h.ok.requests m hmem
      refine (h.unsettle x.running).bind fun a1 _ h1 => ?_
      refine (h1.follow (fun _ => id) hrest).bind fun a2 _ h2 => ?_
      exact reach_handleVoteRequest h2 hkind hid hh fun _ _ => rfl
  | requestAsCandidate m rest hm hle =>
      obtain ⟨hmem, hrest⟩ := mem_of_eq_cons hm
      obtain ⟨hkind, hid, hh⟩ := h.ok.requests m hmem
      refine (h.unsettle x.running).bind fun a1 _ h1 => ?_
      refine (h1.dequeue hrest fun _ => id).bind fun a2 _ h2 => ?_
      exact reach_handleVoteRequest h2 hkind hid hh fun _ hlt => absurd hlt (not_lt.mpr hle)
  | vote m rest hm hnext =>
      obtain ⟨hmem, hrest⟩ := mem_of_eq_cons hm
      obtain ⟨hkind, hh⟩ := h.ok.responses m hmem
      refine (h.unsettle x.running).bind fun a1 _ h1 => ?_
      refine (h1.dequeue (fun _ => id) hrest).bind fun a2 _ h2 => ?_
      refine reach_handleVoteResponse h2 hkind hh fun hel hlt => ?_
      exact absurd hlt (not_lt.mpr (hvote hel hnext m (by rw [hm]; rfl)))
  | ignoreVote =>
      exact (h.unsettle x.running).bind fun a1 _ h1 =>
        h1.dequeue (fun _ => id) fun _ => List.mem_of_mem_drop
  | ignoreVoteRequest =>
      exact (h.unsettle x.running).bind fun a1 _ h1 =>
        h1.dequeue (fun _ => List.mem_of_mem_drop) fun _ => id
  | heartbeat hl =>
      refine (h.unsettle x.running).bind fun a1 _ h1 => ?_
      exact (reach_broadcastAppendEntries h1 fun _ => hl).heartbeat _

end RaftRx.C
