import RaftRx.C.RoundTrip

/-!
What the functions of the C node leave alone.

Most of them touch the log and what belongs to it (commit index, cursors of peers, messages about
entries) and leave term, vote, role and votes as they are.

* `Message.promise`: the message of the protocol a C message is, if it carries a promise;
* `Still`: only the log and what belongs to it changed; new messages announce no ballot;
* `Calm`: as `Still`, but role, votes and configuration may have changed too;
* `still_sendAppendEntriesTo` .. `still_maybeCompact`, `calm_applyCommitted`: one frame lemma for
  each function.
-/

namespace RaftRx.C

open Protocol (Role Msg)

variable {σ : Type*} {A : Application σ}

/-! ### Messages of the protocol -/

/-- The promise a message carries; refusals carry none. -/
def Message.promise (m : Message) : Option (Msg CString ℤ LogEntry) :=
  match m.kind with
  | .requestVote => some (.voteReq m.source m.target m.term m.lastLogIndex.toNat m.lastLogTerm)
  | .requestVoteResponse => if m.granted then some (.grant m.source m.target m.term) else none
  | .appendEntries =>
      some (.append m.source m.target m.term m.prevLogIndex.toNat m.prevLogTerm m.entries
        m.leaderCommit.toNat)
  | .appendEntriesResponse =>
      if m.success then some (.ack m.source m.target m.term m.matchIndex.toNat) else none

/-- The message announces no ballot. -/
def Message.NoBallot (m : Message) : Prop := ∀ p, m.promise = some p → p.ballot = none

lemma noBallot_of_appendEntries {m : Message} (h : m.kind = .appendEntries) : m.NoBallot := by
  intro p hp
  rw [Message.promise, h] at hp
  simp only [Option.some.injEq] at hp
  rw [← hp]
  rfl

lemma noBallot_of_appendEntriesResponse {m : Message} (h : m.kind = .appendEntriesResponse) :
    m.NoBallot := by
  intro p hp
  rw [Message.promise, h] at hp
  simp only at hp
  split at hp
  · rw [Option.some.injEq] at hp
    rw [← hp]
    rfl
  · simp at hp

/-! ### Frames -/

/-- A message the node sends in its current term that announces no ballot. -/
structure Plain (x : Node σ) (m : Message) : Prop where
  noBallot : m.NoBallot
  term : m.term = x.currentTerm
  source : m.source = strncpy maxId x.config.nodeId

/-- The outbox grew by plain messages. -/
def Queued (x x' : Node σ) : Prop := ∃ ms, x'.outbox = x.outbox ++ ms ∧ ∀ m ∈ ms, Plain x m

lemma Queued.of_eq {x x' : Node σ} (h : x'.outbox = x.outbox) : Queued x x' :=
  ⟨[], by simp [h], by simp⟩

lemma Queued.trans {x x' x'' : Node σ} (h : Queued x x') (ht : x'.currentTerm = x.currentTerm)
    (hn : x'.config.nodeId = x.config.nodeId) (h' : Queued x' x'') : Queued x x'' := by
  obtain ⟨ms, hms, hno⟩ := h
  obtain ⟨ms', hms', hno'⟩ := h'
  refine ⟨ms ++ ms', by rw [hms', hms, List.append_assoc], fun m hm => ?_⟩
  rcases List.mem_append.mp hm with hm | hm
  · exact hno m hm
  · obtain ⟨hb, hterm, hsource⟩ := hno' m hm
    exact ⟨hb, hterm.trans ht, by rw [hsource, hn]⟩

/-- A message the node sends that asks for no vote. -/
def Answer (x : Node σ) (m : Message) : Prop :=
  m.source = strncpy maxId x.config.nodeId ∧ m.kind ≠ .requestVote

lemma Plain.answer {x : Node σ} {m : Message} (h : Plain x m) : Answer x m := by
  refine ⟨h.source, fun hkind => ?_⟩
  have := h.noBallot _ (by rw [Message.promise, hkind])
  exact absurd this (by simp [Msg.ballot])

/-- A message in the outbox was there before or is an answer. -/
lemma Queued.mem {x x' : Node σ} (h : Queued x x') :
    ∀ m ∈ x'.outbox, m ∈ x.outbox ∨ Answer x m := by
  obtain ⟨ms, hms, hno⟩ := h
  intro m hm
  rw [hms, List.mem_append] at hm
  exact hm.imp_right fun hm => (hno m hm).answer

/-- Term and vote stay, nothing becomes clean and no ballot is announced. -/
structure Calm (x x' : Node σ) : Prop where
  nodeId : x'.config.nodeId = x.config.nodeId
  term : x'.currentTerm = x.currentTerm
  vote : x'.votedFor = x.votedFor
  dirty : x.persistDirty = true → x'.persistDirty = true
  queued : Queued x x'

/-- Only the log and what belongs to it changed. -/
structure Still (x x' : Node σ) : Prop where
  config : x'.config = x.config
  configState : x'.configState = x.configState
  state : x'.state = x.state
  running : x'.running = x.running
  votes : x'.votesReceived = x.votesReceived
  term : x'.currentTerm = x.currentTerm
  vote : x'.votedFor = x.votedFor
  appends : x'.pendingAppendEntries = x.pendingAppendEntries
  requests : x'.pendingVoteRequests = x.pendingVoteRequests
  responses : x'.pendingVotes = x.pendingVotes
  dirty : x.persistDirty = true → x'.persistDirty = true
  queued : Queued x x'

lemma Still.calm {x x' : Node σ} (h : Still x x') : Calm x x' :=
  ⟨by rw [h.config], h.term, h.vote, h.dirty, h.queued⟩

lemma Still.refl (x : Node σ) : Still x x :=
  ⟨rfl, rfl, rfl, rfl, rfl, rfl, rfl, rfl, rfl, rfl, id, Queued.of_eq rfl⟩

lemma Still.trans {x x' x'' : Node σ} (h : Still x x') (h' : Still x' x'') : Still x x'' where
  config := h'.config.trans h.config
  configState := h'.configState.trans h.configState
  state := h'.state.trans h.state
  running := h'.running.trans h.running
  votes := h'.votes.trans h.votes
  term := h'.term.trans h.term
  vote := h'.vote.trans h.vote
  appends := h'.appends.trans h.appends
  requests := h'.requests.trans h.requests
  responses := h'.responses.trans h.responses
  dirty := fun hd => h'.dirty (h.dirty hd)
  queued := h.queued.trans h.term (by rw [h.config]) h'.queued

lemma Calm.refl (x : Node σ) : Calm x x := (Still.refl x).calm

lemma Calm.trans {x x' x'' : Node σ} (h : Calm x x') (h' : Calm x' x'') : Calm x x'' where
  nodeId := h'.nodeId.trans h.nodeId
  term := h'.term.trans h.term
  vote := h'.vote.trans h.vote
  dirty := fun hd => h'.dirty (h.dirty hd)
  queued := h.queued.trans h.term h.nodeId h'.queued

/-- A loop of still steps is still. -/
lemma Still.foldl {β : Type*} {f : Node σ → β → Node σ} (hf : ∀ x b, Still x (f x b)) (l : List β) :
    ∀ x, Still x (l.foldl f x) := by
  induction l with
  | nil => exact Still.refl
  | cons b l ih => exact fun x => (hf x b).trans (ih _)

/-! ### Replication -/

lemma still_queueMessage {x : Node σ} {m : Message} (hm : Plain x m) :
    Still x (x.queueMessage m) := by
  rw [Node.queueMessage]
  split
  · exact ⟨rfl, rfl, rfl, rfl, rfl, rfl, rfl, rfl, rfl, rfl, id, [m], rfl, by simpa using hm⟩
  · exact Still.refl x

lemma still_sendAppendEntriesTo (x : Node σ) (p : CString) : Still x (x.sendAppendEntriesTo p) :=
  still_queueMessage ⟨noBallot_of_appendEntries rfl, rfl, rfl⟩

lemma still_broadcastAppendEntries (x : Node σ) : Still x x.broadcastAppendEntries :=
  Still.foldl still_sendAppendEntriesTo _ x

lemma still_advanceCommitIndex (x : Node σ) : Still x x.advanceCommitIndex := by
  rw [Node.advanceCommitIndex]
  split
  · exact ⟨rfl, rfl, rfl, rfl, rfl, rfl, rfl, rfl, rfl, rfl, fun _ => rfl, Queued.of_eq rfl⟩
  · exact Still.refl x

/-! ### Accepting entries -/

lemma still_appendNext (x : Node σ) (e : LogEntry) : Still x (x.appendNext e) := by
  rw [Node.appendNext]
  split
  · exact ⟨rfl, rfl, rfl, rfl, rfl, rfl, rfl, rfl, rfl, rfl, fun _ => rfl, Queued.of_eq rfl⟩
  · exact Still.refl x

lemma still_mergeEntry (acc : Node σ × Bool) (e : LogEntry) :
    Still acc.1 (Node.mergeEntry acc e).1 := by
  obtain ⟨x, b⟩ := acc
  simp only [Node.mergeEntry]
  split
  · exact Still.refl x
  · split
    · split
      · have hcut : Still x { x with
            log := x.log.take (x.physicalIndex e.index).toNat, persistDirty := true } :=
          ⟨rfl, rfl, rfl, rfl, rfl, rfl, rfl, rfl, rfl, rfl, fun _ => rfl, Queued.of_eq rfl⟩
        exact hcut.trans (still_appendNext _ e)
      · exact Still.refl x
    · exact still_appendNext x e

lemma still_mergeEntries (es : List LogEntry) :
    ∀ acc : Node σ × Bool, Still acc.1 (es.foldl Node.mergeEntry acc).1 := by
  induction es with
  | nil => exact fun acc => Still.refl acc.1
  | cons e es ih => exact fun acc => (still_mergeEntry acc e).trans (ih _)

lemma still_resetApplication (x : Node σ) : Still x (x.resetApplication A) := by
  rw [Node.resetApplication]
  split <;> split
  all_goals exact ⟨rfl, rfl, rfl, rfl, rfl, rfl, rfl, rfl, rfl, rfl, id, Queued.of_eq rfl⟩

lemma still_settleCommit (x : Node σ) (m : Message) (b : Bool) :
    Still x (x.settleCommit A m b) := by
  rw [Node.settleCommit]
  split
  · have h1 : Still x { x with commitIndex := min m.leaderCommit x.lastLogIndex } :=
      ⟨rfl, rfl, rfl, rfl, rfl, rfl, rfl, rfl, rfl, rfl, id, Queued.of_eq rfl⟩
    have h2 := h1.trans (still_resetApplication (A := A) _)
    exact ⟨h2.config, h2.configState, h2.state, h2.running, h2.votes, h2.term, h2.vote,
      h2.appends, h2.requests, h2.responses, fun _ => rfl, h2.queued⟩
  · split
    · exact ⟨rfl, rfl, rfl, rfl, rfl, rfl, rfl, rfl, rfl, rfl, fun _ => rfl, Queued.of_eq rfl⟩
    · split
      · exact ⟨rfl, rfl, rfl, rfl, rfl, rfl, rfl, rfl, rfl, rfl, fun _ => rfl, Queued.of_eq rfl⟩
      · exact Still.refl x

lemma still_appendEntriesFromLeader (x : Node σ) (m : Message) :
    Still x (x.appendEntriesFromLeader A m).1 := by
  rw [Node.appendEntriesFromLeader]
  split
  · exact (still_mergeEntries m.entries (x, false)).trans (still_settleCommit _ m _)
  · exact Still.refl x

lemma still_hearLeader (x : Node σ) (m : Message) : Still x (x.hearLeader m) :=
  ⟨rfl, rfl, rfl, rfl, rfl, rfl, rfl, rfl, rfl, rfl, id, Queued.of_eq rfl⟩

lemma still_answerAppend (x : Node σ) (m : Message) (b : Bool) :
    Still x (x.queueMessage (x.appendResponse m b)) :=
  still_queueMessage ⟨noBallot_of_appendEntriesResponse rfl, rfl, rfl⟩

/-- `node_handle_append_entries` after the term update. -/
lemma still_handleAppendEntries (x : Node σ) (m : Message) :
    Still (x.handleTermUpdate m) (x.handleAppendEntries A m) := by
  rw [Node.handleAppendEntries]
  by_cases hterm : m.term = (x.handleTermUpdate m).currentTerm
  · simp only [if_pos hterm]
    exact ((still_hearLeader _ m).trans (still_appendEntriesFromLeader _ m)).trans
      (still_answerAppend _ m _)
  · simp only [if_neg hterm]
    exact still_answerAppend _ m _

/-- `node_handle_append_entries_response` after the term update. -/
lemma still_handleAppendEntriesResponse (x : Node σ) (m : Message) :
    Still (x.handleTermUpdate m) (x.handleAppendEntriesResponse m) := by
  rw [Node.handleAppendEntriesResponse]
  split
  · exact Still.refl _
  · split
    · exact Still.refl _
    · split
      · refine Still.trans ?_ (still_advanceCommitIndex _)
        exact ⟨rfl, rfl, rfl, rfl, rfl, rfl, rfl, rfl, rfl, rfl, id, Queued.of_eq rfl⟩
      · refine Still.trans ?_ (still_sendAppendEntriesTo _ _)
        split
        · exact ⟨rfl, rfl, rfl, rfl, rfl, rfl, rfl, rfl, rfl, rfl, id, Queued.of_eq rfl⟩
        · exact Still.refl _

/-! ### Seeing a higher term -/

lemma handleTermUpdate_state (x : Node σ) (m : Message) :
    (x.handleTermUpdate m).state = x.state := by
  rw [Node.handleTermUpdate]
  split <;> rfl

lemma handleTermUpdate_running (x : Node σ) (m : Message) :
    (x.handleTermUpdate m).running = x.running := by
  rw [Node.handleTermUpdate]
  split <;> rfl

lemma handleTermUpdate_outbox (x : Node σ) (m : Message) :
    (x.handleTermUpdate m).outbox = x.outbox := by
  rw [Node.handleTermUpdate]
  split <;> rfl

lemma handleTermUpdate_log (x : Node σ) (m : Message) :
    (x.handleTermUpdate m).log = x.log := by
  rw [Node.handleTermUpdate]
  split <;> rfl

lemma handleTermUpdate_prevMatches (x : Node σ) (m m' : Message) :
    (x.handleTermUpdate m).prevMatches m' = x.prevMatches m' := by
  rw [Node.handleTermUpdate]
  split <;> rfl

lemma handleTermUpdate_term (x : Node σ) (m : Message) :
    (x.handleTermUpdate m).currentTerm = max x.currentTerm m.term := by
  rw [Node.handleTermUpdate]
  split
  · exact (max_eq_right (le_of_lt ‹_›)).symm
  · exact (max_eq_left (not_lt.mp ‹_›)).symm

/-! ### Client commands, membership and compaction -/

lemma still_appendEntry (x : Node σ) (e : LogEntry) :
    Still x { x with log := x.log ++ [e], persistDirty := true } :=
  ⟨rfl, rfl, rfl, rfl, rfl, rfl, rfl, rfl, rfl, rfl, fun _ => rfl, Queued.of_eq rfl⟩

lemma still_appendClientCommand (x : Node σ) (c : Command) : Still x (x.appendClientCommand c) := by
  rw [Node.appendClientCommand]
  split
  · exact (still_appendEntry x _).trans (still_broadcastAppendEntries _)
  · exact Still.refl x

lemma still_appendInternalCommand (x : Node σ) (op key value : CString) :
    Still x (x.appendInternalCommand op key value).1 := by
  rw [Node.appendInternalCommand]
  split
  · exact Still.refl x
  · exact (still_appendEntry x _).trans (still_broadcastAppendEntries _)

/-- The driver's own fields belong to nothing else. -/
lemma Still.driver {x x' : Node σ} (h : Still x x') (s : MembershipState) (j f : ℤ) :
    Still x { x' with membershipState := s, jointConfigIndex := j, finalConfigIndex := f } :=
  ⟨h.config, h.configState, h.state, h.running, h.votes, h.term, h.vote, h.appends, h.requests,
    h.responses, h.dirty, h.queued⟩

lemma still_maybeDriveMembership (x : Node σ) : Still x x.maybeDriveMembership := by
  rw [Node.maybeDriveMembership]
  split
  · exact Still.refl x
  · split
    · dsimp only
      split
      all_goals exact (still_appendInternalCommand x _ _ _).driver _ _ _
    · split
      · exact (Still.refl x).driver _ _ _
      · split
        · dsimp only
          split
          all_goals exact (still_appendInternalCommand x _ _ _).driver _ _ _
        · split
          · exact (Still.refl x).driver _ _ _
          · exact Still.refl x

lemma still_maybeCompact (x : Node σ) : Still x (x.maybeCompact A).1 := by
  rw [Node.maybeCompact]
  split
  · rw [Node.doCompact]
    dsimp only
    split
    · exact Still.refl x
    · exact ⟨rfl, rfl, rfl, rfl, rfl, rfl, rfl, rfl, rfl, rfl, fun _ => rfl, Queued.of_eq rfl⟩
  · exact Still.refl x

/-! ### Applying entries -/

lemma calm_applyEnterJoint (x : Node σ) (c : Command) : Calm x (x.applyEnterJoint c) := by
  rw [Node.applyEnterJoint]
  dsimp only
  split
  · exact Calm.refl x
  · split
    · exact Calm.refl x
    · exact ⟨rfl, rfl, rfl, fun _ => rfl, Queued.of_eq rfl⟩

lemma calm_applyLeaveJoint (x : Node σ) (c : Command) : Calm x (x.applyLeaveJoint c) := by
  rw [Node.applyLeaveJoint]
  dsimp only
  split
  · exact Calm.refl x
  · split
    · exact Calm.refl x
    · split <;> exact ⟨rfl, rfl, rfl, fun _ => rfl, Queued.of_eq rfl⟩

lemma calm_applyInternalCommand (x : Node σ) (c : Command) : Calm x (x.applyInternalCommand c) := by
  rw [Node.applyInternalCommand]
  split
  · dsimp only
    split
    · exact ⟨rfl, rfl, rfl, fun _ => rfl, Queued.of_eq rfl⟩
    · exact Calm.refl x
  · split
    · exact calm_applyEnterJoint x c
    · split
      · exact calm_applyLeaveJoint x c
      · exact Calm.refl x

lemma calm_applyCommand (x : Node σ) (c : Command) : Calm x (x.applyCommand A c) := by
  rw [Node.applyCommand]
  split
  · exact calm_applyInternalCommand x c
  · split
    · exact ⟨rfl, rfl, rfl, id, Queued.of_eq rfl⟩
    · exact Calm.refl x

lemma calm_applyNext (x : Node σ) : Calm x (x.applyNext A).1 := by
  have h1 : Calm x { x with lastApplied := x.lastApplied + 1 } :=
    ⟨rfl, rfl, rfl, id, Queued.of_eq rfl⟩
  have h2 := h1.trans (calm_applyCommand (A := A) _
    (Node.entryAt { x with lastApplied := x.lastApplied + 1 } (x.lastApplied + 1)).command)
  exact ⟨h2.nodeId, h2.term, h2.vote, fun _ => rfl, h2.queued⟩

lemma calm_applyCommitted (n : ℕ) : ∀ x : Node σ, Calm x (x.applyCommitted A n).1 := by
  induction n with
  | zero => exact Calm.refl
  | succ n ih => exact fun x => (calm_applyNext x).trans (ih _)

end RaftRx.C
