import RaftRx.C.Hosts

/-!
The elementary changes of a single C node.

Latching and acting are sequences of a few kinds of changes.  What a result about one node needs is
shown once for each kind; the acceptance of a batch of entries is the one action with a shape of
its own.

* `Turn`, `Turns`: an elementary change and sequences of them;
* `turns_latchInputs`: latching is such a sequence;
* `Node.Accepts`, `transition_turns`: so is a transition that accepts no batch;
* `Node.merged`, `transition_accept`: a transition that accepts one, in one record;
* `mergeEntries_take`, `merged_contiguous`: what the merge loop leaves in place, and that it keeps
  the log numbered;
* `ApplyCase`, `DriveCase`, `maybeCompact_cases`: the parts of the end of a tick, in records;
* `ExecCase`, `exec_cases`: the acts of a host.
-/

namespace RaftRx.C

open Protocol (Role)

variable {σ : Type*} {A : Application σ} {x y : Node σ} {H H' : Message → Prop}
  {C : Command → Prop} {m : Message}

/-! ### Turns -/

/-- A response the node may queue tells the end of its log. -/
def Node.Answers (x : Node σ) (m : Message) : Prop :=
  m.kind = .appendEntriesResponse → m.matchIndex = x.lastLogIndex

/-- One change of a node that latches or acts: `H` are the messages it may handle, `C` the
commands of clients. -/
inductive Turn (H : Message → Prop) (C : Command → Prop) (x : Node σ) : Node σ → Prop where
  /-- Clock, deadlines, known leader, votes and queues. -/
  | tune (clock : ℤ) (slots : ℤ → LogEntry) (leader : CString) (votes : List CString)
      (appends requests responses : List Message) (election heartbeat : ℤ)
      (ha : ∀ m ∈ appends, m ∈ x.pendingAppendEntries ∨ H m ∧ m.kind = .appendEntries)
      (hr : ∀ m ∈ requests, m ∈ x.pendingVoteRequests ∨ H m ∧ m.kind = .requestVote) :
      Turn H C x
        { x with
          clockMs := clock, slots := slots, leaderId := leader, votesReceived := votes
          pendingAppendEntries := appends, pendingVoteRequests := requests
          pendingVotes := responses, electionDeadlineMs := election
          heartbeatDeadlineMs := heartbeat }
  | role (r : Role) (hr : r ≠ .leader) : Turn H C x { x with state := r }
  | lead : Turn H C x x.lead
  /-- `node_handle_term_update` -/
  | raise (t : ℤ) (ht : x.currentTerm < t) : Turn H C x
      { x with currentTerm := t, votedFor := [], leaderId := [], persistDirty := true }
  | campaign : Turn H C x
      { x with
        currentTerm := x.currentTerm + 1, votedFor := strncpy maxId x.config.nodeId
        persistDirty := true }
  | vote (m : Message) (hm : H m) : Turn H C x
      { x with votedFor := strncpy maxId m.source, persistDirty := true }
  | queue (m : Message) (ht : m.term = x.currentTerm) (ha : x.Answers m) : Turn H C x
      { x with outbox := x.outbox ++ [m] }
  | clear : Turn H C x { x with outbox := [] }
  /-- A peer reports how far its log agrees. -/
  | report (m : Message) (i : ℕ) (hm : H m) (hk : m.kind = .appendEntriesResponse)
      (hs : x.state = .leader) (hok : m.success = true)
      (hi : x.peerIndex m.source = some i) : Turn H C x
      { x with
        matchIndex := x.matchIndex.set i m.matchIndex
        nextIndex := x.nextIndex.set i (m.matchIndex + 1) }
  | backOff (i : ℕ) (k : ℤ) : Turn H C x { x with nextIndex := x.nextIndex.set i k }
  | commit (k : ℤ) (hlt : x.commitIndex < k) (hle : k ≤ x.lastLogIndex) : Turn H C x
      { x with commitIndex := k, persistDirty := true }
  /-- A client command becomes an entry. -/
  | append (c : Command) (hc : C c) (hroom : x.log.length < maxLog) : Turn H C x
      { x with log := x.log ++ [x.clientEntry c], persistDirty := true }

/-- A sequence of changes. -/
def Turns (H : Message → Prop) (C : Command → Prop) : Node σ → Node σ → Prop :=
  Relation.ReflTransGen (Turn H C)

lemma Turns.refl (x : Node σ) : Turns H C x x := Relation.ReflTransGen.refl

lemma Turn.turns (h : Turn H C x y) : Turns H C x y := Relation.ReflTransGen.single h

lemma Turns.trans {z : Node σ} (h : Turns H C x y) (h' : Turns H C y z) : Turns H C x z :=
  Relation.ReflTransGen.trans h h'

/-- **The invariant rule** for sequences of changes. -/
theorem Turns.invariant {I : Node σ → Prop} (hI : ∀ x y, I x → Turn H C x y → I y)
    (h : Turns H C x y) (hx : I x) : I y := by
  induction h with
  | refl => exact hx
  | tail _ hst ih => exact hI _ _ ih hst

/-- A loop of turns. -/
lemma Turns.foldl {β : Type*} {f : Node σ → β → Node σ} {l : List β}
    (hf : ∀ b ∈ l, ∀ x, Turns H C x (f x b)) : ∀ x, Turns H C x (l.foldl f x) := by
  induction l with
  | nil => exact Turns.refl
  | cons b l ih =>
      intro x
      exact (hf b List.mem_cons_self x).trans
        (ih (fun b' hb' => hf b' (List.mem_cons_of_mem _ hb')) _)

/-! ### Latching -/

lemma turns_queueMessage (ht : m.term = x.currentTerm) (ha : x.Answers m) :
    Turns H C x (x.queueMessage m) := by
  rw [Node.queueMessage]
  split
  · exact (Turn.queue m ht ha).turns
  · exact Turns.refl x

lemma turns_sendAppendEntriesTo (x : Node σ) (p : CString) :
    Turns H C x (x.sendAppendEntriesTo p) :=
  turns_queueMessage rfl fun h => by cases h

lemma turns_broadcastAppendEntries (x : Node σ) : Turns H C x x.broadcastAppendEntries :=
  Turns.foldl (fun p _ x => turns_sendAppendEntriesTo x p) x

/-- The commit index moves forward inside the log. -/
lemma advanceCommitIndex_cases (x : Node σ) : x.advanceCommitIndex = x ∨
    ∃ k, x.commitIndex < k ∧ k ≤ x.lastLogIndex ∧
      x.advanceCommitIndex = { x with commitIndex := k, persistDirty := true } := by
  rw [Node.advanceCommitIndex]
  split
  · rename_i k hk
    right
    have hmem := List.mem_of_find?_eq_some hk
    rw [Node.commitCandidates, List.mem_map] at hmem
    obtain ⟨i, hi, rfl⟩ := hmem
    rw [List.mem_range] at hi
    exact ⟨_, by omega, by omega, rfl⟩
  · exact Or.inl rfl

lemma turns_advanceCommitIndex (x : Node σ) : Turns H C x x.advanceCommitIndex := by
  rcases advanceCommitIndex_cases x with h | ⟨k, hlt, hle, h⟩
  · rw [h]
    exact Turns.refl x
  · rw [h]
    exact (Turn.commit k hlt hle).turns

lemma turns_handleTermUpdate (x : Node σ) (m : Message) : Turns H C x (x.handleTermUpdate m) := by
  rw [Node.handleTermUpdate]
  split
  · exact (Turn.raise m.term ‹_›).turns
  · exact Turns.refl x

lemma turns_handleAppendEntriesResponse (hm : H m) (hk : m.kind = .appendEntriesResponse) :
    Turns H C x (x.handleAppendEntriesResponse m) := by
  refine (turns_handleTermUpdate x m).trans ?_
  rw [Node.handleAppendEntriesResponse]
  dsimp only
  generalize x.handleTermUpdate m = y
  split
  · exact Turns.refl y
  · rename_i hs
    simp only [not_or, not_not] at hs
    split
    · exact Turns.refl y
    · rename_i i hi
      split
      · rename_i hok
        exact (Turn.report m i hm hk hs.1 hok hi).turns.trans (turns_advanceCommitIndex _)
      · refine Turns.trans ?_ (turns_sendAppendEntriesTo _ _)
        split
        · exact (Turn.backOff i _).turns
        · exact Turns.refl y

lemma turns_receive (hm : H m) : Turns H C x (x.receive m) := by
  rw [Node.receive]
  split
  · rename_i hk
    refine (Turn.tune x.clockMs x.slots x.leaderId x.votesReceived _ x.pendingVoteRequests
      x.pendingVotes x.electionDeadlineMs x.heartbeatDeadlineMs (fun m' hm' => ?_)
      fun _ => Or.inl).turns
    rcases List.mem_append.mp hm' with hm' | hm'
    · exact Or.inl hm'
    · rw [List.mem_singleton.mp hm']
      exact Or.inr ⟨hm, hk⟩
  · rename_i hk
    refine (Turn.tune x.clockMs x.slots x.leaderId x.votesReceived x.pendingAppendEntries _
      x.pendingVotes x.electionDeadlineMs x.heartbeatDeadlineMs (fun _ => Or.inl)
      fun m' hm' => ?_).turns
    rcases List.mem_append.mp hm' with hm' | hm'
    · exact Or.inl hm'
    · rw [List.mem_singleton.mp hm']
      exact Or.inr ⟨hm, hk⟩
  · exact (Turn.tune x.clockMs x.slots x.leaderId x.votesReceived x.pendingAppendEntries
      x.pendingVoteRequests _ x.electionDeadlineMs x.heartbeatDeadlineMs (fun _ => Or.inl)
      fun _ => Or.inl).turns
  · exact turns_handleAppendEntriesResponse hm ‹_›

lemma turns_appendClientCommand (x : Node σ) {c : Command} (hc : C c) :
    Turns H C x (x.appendClientCommand c) := by
  rw [Node.appendClientCommand]
  split
  · exact (Turn.append c hc ‹_›).turns.trans (turns_broadcastAppendEntries _)
  · exact Turns.refl x

/-- **Latching** handles the messages it receives and takes the commands it is given. -/
theorem turns_latchInputs {ms : List Message} {cs : List Command} (hm : ∀ m ∈ ms, H m)
    (hc : ∀ c ∈ cs, C c) (clock : ℤ) (slots : ℤ → LogEntry) :
    Turns H C x (Node.latchInputs { x with clockMs := clock, slots := slots } ms cs) := by
  rw [Node.latchInputs]
  dsimp only
  refine Turns.trans (Turn.tune clock slots x.leaderId x.votesReceived [] [] []
    x.electionDeadlineMs x.heartbeatDeadlineMs (by simp) (by simp)).turns ?_
  split
  · exact Turn.clear.turns
  · have hms := Turns.foldl (H := H) (C := C) (f := Node.receive) (l := ms.take maxQueue)
      (fun m hm' x => turns_receive (hm m (List.mem_of_mem_take hm')))
      { x with
        clockMs := clock, slots := slots, pendingAppendEntries := [], pendingVoteRequests := []
        pendingVotes := [] }
    split
    · exact hms.trans (Turns.foldl (fun c hc' x =>
        turns_appendClientCommand x (hc c (List.mem_of_mem_take hc'))) _)
    · exact hms

/-- The role of a node is a matter of its transitions. -/
lemma state_latchInputs (x : Node σ) (ms : List Message) (cs : List Command) :
    (x.latchInputs ms cs).state = x.state := by
  have hreceive : ∀ (ms : List Message) (y : Node σ), (ms.foldl Node.receive y).state = y.state := by
    intro ms
    induction ms with
    | nil => exact fun _ => rfl
    | cons m ms ih =>
        intro y
        rw [List.foldl_cons, ih, Node.receive]
        cases m.kind with
        | appendEntriesResponse =>
            exact (still_handleAppendEntriesResponse y m).state.trans (handleTermUpdate_state y m)
        | appendEntries | requestVote | requestVoteResponse => rfl
  have hclient : ∀ (cs : List Command) (y : Node σ),
      (cs.foldl Node.appendClientCommand y).state = y.state := by
    intro cs
    induction cs with
    | nil => exact fun _ => rfl
    | cons c cs ih => exact fun y => (ih _).trans (still_appendClientCommand y c).state
  rw [Node.latchInputs]
  split
  · rfl
  · dsimp only
    split
    · exact (hclient _ _).trans (hreceive _ _)
    · exact hreceive _ _

/-! ### Acting -/

/-- The messages a transition may handle. -/
def Node.Waiting (x : Node σ) (m : Message) : Prop :=
  m ∈ x.pendingAppendEntries ∨ m ∈ x.pendingVoteRequests

/-- The next transition accepts the batch. -/
structure Node.Accepts (x : Node σ) (m : Message) : Prop where
  next : x.nextAction = some .handleAppendEntries
  first : x.pendingAppendEntries.head? = some m
  term : x.currentTerm ≤ m.term
  prev : x.prevMatches m = true

/-- Every batch the next transition accepts has the property. -/
def Node.AcceptsOnly (x : Node σ) (P : Message → Prop) : Prop := ∀ m, x.Accepts m → P m

instance (P : Message → Prop) [DecidablePred P] : Decidable (x.AcceptsOnly P) :=
  decidable_of_iff (∀ m ∈ x.pendingAppendEntries.head?, x.nextAction = some .handleAppendEntries →
      x.currentTerm ≤ m.term → x.prevMatches m = true → P m)
    ⟨fun h m hm => h m hm.first hm.next hm.term hm.prev,
      fun h m hfirst hnext hterm hprev => h m ⟨hnext, hfirst, hterm, hprev⟩⟩

/-- The node that is about to accept a batch: a follower in the term of its leader. -/
def Node.accepting (x : Node σ) (m : Message) (rest : List Message) : Node σ :=
  Node.handleTermUpdate { x with state := .follower, pendingAppendEntries := rest } m

lemma turns_accepting {rest : List Message} (hrest : ∀ m' ∈ rest, m' ∈ x.pendingAppendEntries) :
    Turns H C x (x.accepting m rest) := by
  refine (Turn.role .follower (by simp)).turns.trans (Turns.trans ?_ (turns_handleTermUpdate _ m))
  exact (Turn.tune (x := { x with state := .follower }) x.clockMs x.slots x.leaderId
    x.votesReceived rest x.pendingVoteRequests x.pendingVotes x.electionDeadlineMs
    x.heartbeatDeadlineMs (fun m' hm' => Or.inl (hrest m' hm')) fun _ => Or.inl).turns

lemma turns_hearLeader (x : Node σ) (m : Message) : Turns H C x (x.hearLeader m) :=
  (Turn.tune x.clockMs x.slots _ x.votesReceived x.pendingAppendEntries x.pendingVoteRequests
    x.pendingVotes _ x.heartbeatDeadlineMs (fun _ => Or.inl) fun _ => Or.inl).turns

lemma turns_handleVoteRequest (hm : H m) : Turns H C x (x.handleVoteRequest m) := by
  refine (turns_handleTermUpdate x m).trans ?_
  simp only [Node.handleVoteRequest]
  generalize x.handleTermUpdate m = y
  refine Turns.trans (y := if y.grantsVote m = true then y.castVote m else y) ?_
    (turns_queueMessage rfl fun h => by cases h)
  split
  · refine (Turn.vote m hm).turns.trans ?_
    exact (Turn.tune (x := { y with votedFor := strncpy maxId m.source, persistDirty := true })
      y.clockMs y.slots y.leaderId y.votesReceived y.pendingAppendEntries
      y.pendingVoteRequests y.pendingVotes _ y.heartbeatDeadlineMs (fun _ => Or.inl)
      fun _ => Or.inl).turns
  · exact Turns.refl y

lemma turns_handleVoteResponse (x : Node σ) (m : Message) :
    Turns H C x (x.handleVoteResponse m) := by
  refine (turns_handleTermUpdate x m).trans ?_
  rw [Node.handleVoteResponse]
  generalize x.handleTermUpdate m = y
  split
  · exact Turns.refl y
  · split
    · rw [Node.recordVote]
      split
      · exact Turns.refl y
      · split
        · exact (Turn.tune y.clockMs y.slots y.leaderId _ y.pendingAppendEntries
            y.pendingVoteRequests y.pendingVotes y.electionDeadlineMs y.heartbeatDeadlineMs
            (fun _ => Or.inl) fun _ => Or.inl).turns
        · exact Turns.refl y
    · exact Turns.refl y

lemma turns_queueAll (ms : List Message) : ∀ x : Node σ,
    (∀ m ∈ ms, m.term = x.currentTerm ∧ m.kind = .requestVote) →
    Turns H C x { x with outbox := x.outbox ++ ms } := by
  induction ms with
  | nil =>
      intro x _
      rw [List.append_nil]
      exact Turns.refl x
  | cons m ms ih =>
      intro x hms
      obtain ⟨hterm, hkind⟩ := hms m List.mem_cons_self
      have hanswer : x.Answers m := fun h => absurd (hkind.symm.trans h) (by decide)
      refine (Turn.queue m hterm hanswer).turns.trans ?_
      have hrest := ih { x with outbox := x.outbox ++ [m] }
        fun m' hm' => hms m' (List.mem_cons_of_mem _ hm')
      simpa using hrest

lemma turns_becomeCandidate (x : Node σ) : Turns H C x x.becomeCandidate := by
  obtain ⟨d, ms, heq, hms⟩ := becomeCandidate_eq x
  rw [heq]
  have hcampaign : Turns H C x
      { x with
        currentTerm := x.currentTerm + 1, votedFor := strncpy maxId x.config.nodeId
        persistDirty := true } := Turn.campaign.turns
  have htune := Turn.tune (H := H) (C := C)
    (x := { x with
      currentTerm := x.currentTerm + 1, votedFor := strncpy maxId x.config.nodeId
      persistDirty := true })
    x.clockMs x.slots [] [strncpy maxId x.config.nodeId] x.pendingAppendEntries
    x.pendingVoteRequests x.pendingVotes d x.heartbeatDeadlineMs (fun _ => Or.inl) fun _ => Or.inl
  refine (hcampaign.trans htune.turns).trans (turns_queueAll ms _ fun m hm => ?_)
  obtain ⟨p, rfl⟩ := hms m hm
  exact ⟨rfl, rfl⟩

lemma turns_sendHeartbeat (x : Node σ) : Turns H C x x.sendHeartbeat := by
  refine (turns_broadcastAppendEntries x).trans ?_
  rw [Node.sendHeartbeat]
  generalize x.broadcastAppendEntries = y
  exact (Turn.tune y.clockMs y.slots y.leaderId y.votesReceived y.pendingAppendEntries
    y.pendingVoteRequests y.pendingVotes y.electionDeadlineMs _ (fun _ => Or.inl)
    fun _ => Or.inl).turns

lemma turns_becomeLeader (x : Node σ) :
    Turns H C x (Node.becomeLeader { x with state := .leader }) :=
  Turn.lead.turns.trans (turns_sendHeartbeat x.lead)

lemma turns_dropQueues (x : Node σ) {q r : List Message} (hq : ∀ m ∈ q, m ∈ x.pendingVoteRequests) :
    Turns H C x { x with pendingVoteRequests := q, pendingVotes := r } :=
  (Turn.tune x.clockMs x.slots x.leaderId x.votesReceived x.pendingAppendEntries q r
    x.electionDeadlineMs x.heartbeatDeadlineMs (fun _ => Or.inl) fun m hm => Or.inl (hq m hm)).turns

/-- An append of entries that is refused. -/
lemma turns_refuse {rest : List Message} (hrest : ∀ m' ∈ rest, m' ∈ x.pendingAppendEntries)
    (hno : ¬ (x.currentTerm ≤ m.term ∧ x.prevMatches m = true)) :
    Turns H C x
      (Node.handleAppendEntries A { x with state := .follower, pendingAppendEntries := rest } m) := by
  refine (turns_accepting (m := m) hrest).trans ?_
  have hprev : (x.accepting m rest).prevMatches m = x.prevMatches m :=
    handleTermUpdate_prevMatches _ m m
  have hterm : (x.accepting m rest).currentTerm = max x.currentTerm m.term :=
    handleTermUpdate_term _ m
  simp only [Node.handleAppendEntries]
  change Turns H C (x.accepting m rest) _
  rw [Node.accepting] at hprev hterm ⊢
  generalize Node.handleTermUpdate { x with state := .follower, pendingAppendEntries := rest } m
    = y at hprev hterm ⊢
  by_cases ht : m.term = y.currentTerm
  · have hfalse : (y.hearLeader m).prevMatches m = false := by
      change y.prevMatches m = false
      rw [hprev]
      by_contra hp
      exact hno ⟨by omega, by simpa using hp⟩
    rw [if_pos ht, Node.appendEntriesFromLeader, if_neg (by simp [hfalse])]
    exact (turns_hearLeader y m).trans (turns_queueMessage rfl fun _ => rfl)
  · rw [if_neg ht]
    exact turns_queueMessage rfl fun _ => rfl

/-- **A transition** that accepts no batch is a sequence of turns. -/
theorem transition_turns (x : Node σ) : Turns x.Waiting C x (x.transition A) ∨
    ∃ m rest, x.Accepts m ∧ x.pendingAppendEntries = m :: rest ∧ x.transition A =
      Node.handleAppendEntries A { x with state := .follower, pendingAppendEntries := rest } m := by
  have hcase := transition_cases (A := A) x
  generalize x.transition A = y at hcase ⊢
  cases hcase with
  | none => exact Or.inl (Turns.refl x)
  | campaign _ =>
      exact Or.inl ((Turn.role .candidate (by simp)).turns.trans (turns_becomeCandidate _))
  | giveUp _ =>
      refine Or.inl ((Turn.role .follower (by simp)).turns.trans ?_)
      exact (Turn.tune (x := { x with state := .follower }) x.clockMs x.slots [] [] x.pendingAppendEntries x.pendingVoteRequests
        x.pendingVotes _ x.heartbeatDeadlineMs (fun _ => Or.inl) fun _ => Or.inl).turns
  | win _ _ => exact Or.inl (turns_becomeLeader x)
  | append m rest hm hnext =>
      obtain ⟨hmem, hrest⟩ := mem_of_eq_cons hm
      by_cases hok : x.currentTerm ≤ m.term ∧ x.prevMatches m = true
      · exact Or.inr ⟨m, rest, ⟨hnext, by rw [hm]; rfl, hok.1, hok.2⟩, hm, rfl⟩
      · exact Or.inl (turns_refuse hrest hok)
  | request m rest hm =>
      obtain ⟨hmem, hrest⟩ := mem_of_eq_cons hm
      refine Or.inl ((Turn.role .follower (by simp)).turns.trans (Turns.trans
        (turns_dropQueues _ (r := x.pendingVotes) hrest) (turns_handleVoteRequest (Or.inr hmem))))
  | requestAsCandidate m rest hm _ =>
      obtain ⟨hmem, hrest⟩ := mem_of_eq_cons hm
      exact Or.inl ((turns_dropQueues x (r := x.pendingVotes) hrest).trans
        (turns_handleVoteRequest (Or.inr hmem)))
  | vote m rest hm _ =>
      exact Or.inl ((turns_dropQueues x (r := rest) fun _ => id).trans
        (turns_handleVoteResponse _ m))
  | ignoreVote => exact Or.inl (turns_dropQueues x fun _ => id)
  | ignoreVoteRequest =>
      exact Or.inl (turns_dropQueues x (r := x.pendingVotes) fun _ => List.mem_of_mem_drop)
  | heartbeat _ => exact Or.inl (turns_sendHeartbeat x)

/-! ### Accepting a batch -/

/-- **One turn of the merge loop**: nothing, an entry at the end, or an entry in the place of a
conflicting one and all that follow it. -/
lemma mergeEntry_cases (x : Node σ) (b : Bool) (e : LogEntry) :
    Node.mergeEntry (x, b) e = (x, b) ∨
    (x.hasLogIndex e.index = false ∧ e.index = x.lastLogIndex + 1 ∧ x.log.length < maxLog ∧
      Node.mergeEntry (x, b) e = ({ x with log := x.log ++ [e], persistDirty := true }, b)) ∨
    (x.snapshotLastIncludedIndex < e.index ∧ x.hasLogIndex e.index = true ∧
      x.conflicts e = true ∧ ∃ t : List LogEntry, (t = [e] ∨ t = []) ∧
      Node.mergeEntry (x, b) e =
        ({ x with
          log := x.log.take (x.physicalIndex e.index).toNat ++ t, persistDirty := true },
         b || decide (e.index ≤ x.lastApplied))) := by
  simp only [Node.mergeEntry]
  split
  · exact Or.inl rfl
  · rename_i hsnap
    split
    · rename_i hhas
      split
      · rename_i hconf
        right; right
        refine ⟨by omega, hhas, hconf, ?_⟩
        rw [Node.appendNext]
        split
        · exact ⟨[e], Or.inl rfl, rfl⟩
        · exact ⟨[], Or.inr rfl, by simp⟩
      · exact Or.inl rfl
    · rename_i hhas
      rw [Node.appendNext]
      split
      · rename_i hroom
        exact Or.inr (Or.inl ⟨by simpa using hhas, hroom.1, hroom.2, rfl⟩)
      · exact Or.inl rfl

/-- The merge loop touches the log only. -/
lemma mergeEntries_eq (es : List LogEntry) : ∀ acc : Node σ × Bool, ∃ d : Bool,
    (es.foldl Node.mergeEntry acc).1 =
      { acc.1 with log := (es.foldl Node.mergeEntry acc).1.log, persistDirty := d } ∧
    (acc.1.persistDirty = true → d = true) ∧
    (d = true ∨ (es.foldl Node.mergeEntry acc).1.log = acc.1.log) := by
  induction es with
  | nil => exact fun acc => ⟨acc.1.persistDirty, rfl, id, Or.inr rfl⟩
  | cons e es ih =>
      rintro ⟨x, b⟩
      rw [List.foldl_cons]
      rcases mergeEntry_cases x b e with h | ⟨-, -, -, h⟩ | ⟨-, -, -, t, -, h⟩
      · rw [h]
        exact ih (x, b)
      all_goals
        rw [h]
        obtain ⟨d, heq, hd, -⟩ := ih _
        rw [heq]
        exact ⟨d, rfl, fun _ => hd rfl, Or.inl (hd rfl)⟩

/-- What the merge loop makes of the log, and whether the applied state must be rebuilt. -/
def Node.merged (x : Node σ) (m : Message) : List LogEntry × Bool :=
  ((m.entries.foldl Node.mergeEntry (x, false)).1.log,
    (m.entries.foldl Node.mergeEntry (x, false)).2)

/-- The application as it is put back before a rebuild. -/
def Node.baseUser (A : Application σ) (x : Node σ) : σ := (x.resetApplication A).user

lemma resetApplication_baseUser (x : Node σ) :
    x.resetApplication A = { x with user := x.baseUser A } := by
  obtain ⟨u, hu⟩ := resetApplication_eq (A := A) x
  rw [Node.baseUser, hu]

lemma baseUser_congr (hu : y.user = x.user) (hb : y.snapshotBuf = x.snapshotBuf)
    (hs : y.snapshotLastIncludedIndex = x.snapshotLastIncludedIndex) :
    y.baseUser A = x.baseUser A := by
  rw [Node.baseUser, Node.baseUser, Node.resetApplication, Node.resetApplication, hs, hb]
  split <;> split
  · rw [hu]
  · exact hu
  · rw [hu]
  · exact hu

/-- The node after `node_append_entries_from_leader` accepted a batch. -/
def Node.absorbed (A : Application σ) (x : Node σ) (m : Message) : Node σ :=
  { x with
    log := (x.merged m).1
    user := if (x.merged m).2 then x.baseUser A else x.user
    commitIndex := settledCommit { x with log := (x.merged m).1 } m (x.merged m).2
    lastApplied := if (x.merged m).2 then x.snapshotLastIncludedIndex else x.lastApplied }

/-- A batch that reaches applied entries puts the application back. -/
lemma absorbed_rebuild (h : (x.merged m).2 = true) :
    (x.absorbed A m).lastApplied = x.snapshotLastIncludedIndex ∧
      (x.absorbed A m).user = x.baseUser A ∧ (x.absorbed A m).commitIndex =
        min m.leaderCommit (Node.lastLogIndex { x with log := (x.merged m).1 }) := by
  simp only [Node.absorbed, settledCommit, h, if_true, and_self]

/-- Any other batch leaves the application alone. -/
lemma absorbed_keep (h : (x.merged m).2 = false) :
    (x.absorbed A m).lastApplied = x.lastApplied ∧ (x.absorbed A m).user = x.user ∧
      (x.absorbed A m).commitIndex = settledCommit { x with log := (x.merged m).1 } m false := by
  simp only [Node.absorbed, h, Bool.false_eq_true, if_false, and_self]

/-- The end of `node_append_entries_from_leader`, with the state of the application. -/
lemma settleCommit_baseUser (x : Node σ) (m : Message) (b : Bool) : ∃ d : Bool,
    x.settleCommit A m b =
      { x with
        user := if b then x.baseUser A else x.user
        commitIndex := settledCommit x m b
        lastApplied := if b then x.snapshotLastIncludedIndex else x.lastApplied
        persistDirty := d } ∧
    (x.persistDirty = true → d = true) ∧
    (d = true ∨ (b = false ∧ settledCommit x m b = x.commitIndex ∧ d = x.persistDirty)) := by
  rw [Node.settleCommit, settledCommit]
  cases b with
  | true =>
      refine ⟨true, ?_, fun _ => rfl, Or.inl rfl⟩
      simp only [if_true, resetApplication_baseUser]
      rw [baseUser_congr (A := A) (x := x)
        (y := { x with commitIndex := min m.leaderCommit x.lastLogIndex }) rfl rfl rfl]
  | false =>
      simp only [Bool.false_eq_true, if_false]
      split
      · exact ⟨true, rfl, fun _ => rfl, Or.inl rfl⟩
      · split
        · exact ⟨true, rfl, fun _ => rfl, Or.inl rfl⟩
        · exact ⟨x.persistDirty, rfl, id, Or.inr ⟨trivial, rfl, rfl⟩⟩

/-- **`node_append_entries_from_leader`** on a batch it accepts, in one record. -/
theorem appendEntriesFromLeader_eq (hprev : x.prevMatches m = true) : ∃ d : Bool,
    x.appendEntriesFromLeader A m = ({ x.absorbed A m with persistDirty := d }, true) ∧
    (x.persistDirty = true → d = true) ∧
    (d = true ∨ ((x.merged m).1 = x.log ∧ (x.absorbed A m).commitIndex = x.commitIndex)) := by
  obtain ⟨d, heq, hd, hlog⟩ := mergeEntries_eq m.entries (x, false)
  obtain ⟨d', hset, hd', hcommit⟩ := settleCommit_baseUser (A := A)
    (m.entries.foldl Node.mergeEntry (x, false)).1 m (x.merged m).2
  have hcall : x.appendEntriesFromLeader A m =
      ((m.entries.foldl Node.mergeEntry (x, false)).1.settleCommit A m (x.merged m).2, true) := by
    rw [Node.appendEntriesFromLeader, if_pos hprev]
    rfl
  rw [hcall, hset]
  have hlog' : (x.merged m).1 = (m.entries.foldl Node.mergeEntry (x, false)).1.log := rfl
  have hbase : Node.baseUser A { x with log := (x.merged m).1, persistDirty := d } = x.baseUser A :=
    baseUser_congr rfl rfl rfl
  rw [← hlog'] at heq hlog
  dsimp only at heq
  rw [heq] at hd' hcommit ⊢
  rw [hbase]
  refine ⟨d', rfl, fun hx => hd' (hd hx), ?_⟩
  rcases hcommit with hcommit | ⟨-, hcommit, hdd⟩
  · exact Or.inl hcommit
  · rcases hlog with hlog | hlog
    · exact Or.inl (hdd.trans hlog)
    · exact Or.inr ⟨hlog, hcommit⟩

/-- **A transition that accepts a batch**: the node has become a follower in the term of its
leader, takes the batch in and answers. -/
theorem transition_accept {rest : List Message} (h : x.Accepts m)
    (hrest : x.pendingAppendEntries = m :: rest)
    (htrans : x.transition A =
      Node.handleAppendEntries A { x with state := .follower, pendingAppendEntries := rest } m) :
    ∃ (t : ℤ) (v l : CString) (e : ℤ) (d₀ d : Bool) (z : Node σ),
      z = { x with
        state := .follower, pendingAppendEntries := rest, currentTerm := t, votedFor := v
        leaderId := l, electionDeadlineMs := e, persistDirty := d₀ } ∧
      Turns (fun _ => False) C x z ∧ z.prevMatches m = true ∧
      x.transition A = Node.queueMessage { z.absorbed A m with persistDirty := d }
        (Node.appendResponse { z.absorbed A m with persistDirty := d } m true) ∧
      (z.persistDirty = true → d = true) ∧
      (d = true ∨ ((z.merged m).1 = z.log ∧ (z.absorbed A m).commitIndex = z.commitIndex)) := by
  obtain ⟨-, hrestmem⟩ := mem_of_eq_cons hrest
  have hterm : (x.accepting m rest).currentTerm = max x.currentTerm m.term :=
    handleTermUpdate_term _ m
  have hmterm : m.term = (x.accepting m rest).currentTerm := by
    have := h.term
    omega
  have hacc : ∃ (t : ℤ) (v l : CString) (d₀ : Bool), x.accepting m rest =
      { x with
        state := .follower, pendingAppendEntries := rest, currentTerm := t, votedFor := v
        leaderId := l, persistDirty := d₀ } := by
    rw [Node.accepting, Node.handleTermUpdate]
    split
    · exact ⟨_, _, _, _, rfl⟩
    · exact ⟨_, _, _, _, rfl⟩
  have hturns : Turns (fun _ => False) C x ((x.accepting m rest).hearLeader m) :=
    (turns_accepting hrestmem).trans (turns_hearLeader _ m)
  have hprev : ((x.accepting m rest).hearLeader m).prevMatches m = true := by
    change (x.accepting m rest).prevMatches m = true
    rw [Node.accepting, handleTermUpdate_prevMatches]
    exact h.prev
  obtain ⟨d, heq, hd, hsame⟩ := appendEntriesFromLeader_eq (A := A) hprev
  have hcall : x.transition A = Node.queueMessage
      { ((x.accepting m rest).hearLeader m).absorbed A m with persistDirty := d }
      (Node.appendResponse
        { ((x.accepting m rest).hearLeader m).absorbed A m with persistDirty := d } m true) := by
    rw [htrans, Node.handleAppendEntries]
    change (fun r : Node σ × Bool => Node.queueMessage r.1 (Node.appendResponse r.1 m r.2))
      (if m.term = (x.accepting m rest).currentTerm then
        ((x.accepting m rest).hearLeader m).appendEntriesFromLeader A m
      else (x.accepting m rest, false)) = _
    rw [if_pos hmterm, heq]
  obtain ⟨t, v, l, d₀, hacc⟩ := hacc
  have hz : (x.accepting m rest).hearLeader m =
      { x with
        state := .follower, pendingAppendEntries := rest, currentTerm := t, votedFor := v
        leaderId := strncpy maxId m.source
        electionDeadlineMs := ((x.accepting m rest).hearLeader m).electionDeadlineMs
        persistDirty := d₀ } := by
    conv_lhs => rw [Node.hearLeader, hacc]
    rw [hacc]
    rfl
  exact ⟨t, v, _, _, d₀, d, _, hz, hturns, hprev, hcall, hd, hsame⟩

/-- A request is remembered, or refused. -/
lemma requestMembershipChange_cases (x : Node σ) (members : List CString) :
    (x.requestMembershipChange members).1 = x ∨ ∃ b : Bool,
      (x.requestMembershipChange members).1 =
        { x with
          requestedMembership := normalizeMembers members maxNodes
          requestedMembershipPending := b } := by
  rw [Node.requestMembershipChange]
  split
  · exact Or.inl rfl
  · dsimp only
    split
    · exact Or.inr ⟨_, rfl⟩
    · exact Or.inr ⟨_, rfl⟩

lemma requestMembershipChange_eq (x : Node σ) (members : List CString) :
    ∃ (r : List CString) (b : Bool), (x.requestMembershipChange members).1 =
      { x with requestedMembership := r, requestedMembershipPending := b } := by
  rcases requestMembershipChange_cases x members with h | ⟨b, h⟩
  · exact ⟨x.requestedMembership, x.requestedMembershipPending, h⟩
  · exact ⟨_, b, h⟩

/-! ### The messages a node keeps -/

/-- What holds of the messages handled and of those kept holds of those kept afterwards. -/
lemma waiting_turns {P : Message → Prop} (h : Turns H C x y) (hH : ∀ m, H m → P m)
    (hx : ∀ m, x.Waiting m → P m) : ∀ m, y.Waiting m → P m := by
  refine h.invariant (I := fun z => ∀ m, z.Waiting m → P m) (fun z z' hz hstep => ?_) hx
  cases hstep with
  | tune _ _ _ _ appends requests _ _ _ ha hr =>
      rintro m (hm | hm)
      · rcases ha m hm with h | h
        · exact hz m (Or.inl h)
        · exact hH m h.1
      · rcases hr m hm with h | h
        · exact hz m (Or.inr h)
        · exact hH m h.1
  | role | lead | raise | campaign | vote | queue | clear | report | backOff | commit | append =>
      exact hz

lemma waiting_transition {P : Message → Prop} (hx : ∀ m, x.Waiting m → P m) :
    ∀ m, (x.transition A).Waiting m → P m := by
  rcases transition_turns (C := fun _ => False) (A := A) x with h | ⟨m, rest, hacc, hrest, htrans⟩
  · exact waiting_turns h hx hx
  · obtain ⟨t, v, l, e, d₀, d, z, -, hz, -, heq, -⟩ :=
      transition_accept (C := fun _ => False) hacc hrest htrans
    have hzx := waiting_turns hz (fun _ h => h.elim) hx
    have hqueue : Turns (fun _ => False) (fun _ => False) { z.absorbed A m with persistDirty := d }
        (x.transition A) := by
      rw [heq]
      exact turns_queueMessage rfl fun _ => rfl
    exact waiting_turns hqueue (fun _ h => h.elim) hzx

lemma waiting_congr (ha : y.pendingAppendEntries = x.pendingAppendEntries)
    (hr : y.pendingVoteRequests = x.pendingVoteRequests) : ∀ m, y.Waiting m → x.Waiting m := by
  intro m hm
  rw [Node.Waiting, ha, hr] at hm
  exact hm

lemma pending_dumped (x : Node σ) : (x.dumped A).pendingAppendEntries = x.pendingAppendEntries ∧
    (x.dumped A).pendingVoteRequests = x.pendingVoteRequests := by
  have hadv := still_advanced x
  have hrec := reconfigured_applyCommitted (A := A) x.advanced.toApplyCount x.advanced
  have hstill := (still_maybeDriveMembership (x.commitAndApply A).1).trans
    (still_maybeCompact (A := A) _)
  exact ⟨hstill.appends.trans (hrec.appends.trans hadv.appends),
    hstill.requests.trans (hrec.requests.trans hadv.requests)⟩

lemma waiting_dumped (x : Node σ) : ∀ m, (x.dumped A).Waiting m → x.Waiting m :=
  waiting_congr (pending_dumped x).1 (pending_dumped x).2

/-! ### What the merge loop leaves in place -/

/-- A cell inside the log depends on the entries up to it only. -/
lemma entryAt_congr {k : ℕ} {j : ℤ} (hs : y.snapshotLastIncludedIndex = x.snapshotLastIncludedIndex)
    (hk : y.log.take k = x.log.take k) (hx : k ≤ x.log.length)
    (hlo : x.snapshotLastIncludedIndex < j) (hhi : j ≤ x.snapshotLastIncludedIndex + k) :
    y.entryAt j = x.entryAt j := by
  obtain ⟨i, hi⟩ : ∃ i : ℕ, j = x.snapshotLastIncludedIndex + i + 1 :=
    ⟨(j - x.snapshotLastIncludedIndex - 1).toNat, by omega⟩
  have hget : y.log[i]? = x.log[i]? := by
    rw [← List.getElem?_take_of_lt (l := y.log) (by omega : i < k), hk,
      List.getElem?_take_of_lt (by omega)]
  have hyi : y.physicalIndex j = i := by rw [Node.physicalIndex, hs, hi]; omega
  have hxi : x.physicalIndex j = i := by rw [Node.physicalIndex, hi]; omega
  rw [Node.entryAt, Node.entryAt, hyi, hxi, Node.slot, Node.slot, if_pos (by omega),
    if_pos (by omega), Int.toNat_natCast, hget, List.getElem?_eq_getElem (by omega : i < x.log.length)]
  rfl

/-- A read inside the log depends on the entries up to it only. -/
lemma conflicts_congr {k : ℕ} {e : LogEntry} (hs : y.snapshotLastIncludedIndex = x.snapshotLastIncludedIndex)
    (ht : y.snapshotLastIncludedTerm = x.snapshotLastIncludedTerm)
    (hk : y.log.take k = x.log.take k) (hx : k ≤ x.log.length) (hy : k ≤ y.log.length)
    (hlo : x.snapshotLastIncludedIndex < e.index) (hhi : e.index ≤ x.snapshotLastIncludedIndex + k) :
    y.conflicts e = x.conflicts e := by
  have hhas : y.hasLogIndex e.index = x.hasLogIndex e.index := by
    rw [Bool.eq_iff_iff, Node.hasLogIndex_eq_true, Node.hasLogIndex_eq_true, hs]
    omega
  rw [Node.conflicts, Node.conflicts, Node.termAtIndex, Node.termAtIndex, Node.leaderAtIndex,
    Node.leaderAtIndex, hs, ht, hhas, entryAt_congr hs hk hx hlo hhi]

/-- **What lies below every conflict stays.** -/
theorem mergeEntries_take (es : List LogEntry) (k : ℕ) : ∀ acc : Node σ × Bool,
    k ≤ acc.1.log.length →
    (∀ e ∈ es, acc.1.snapshotLastIncludedIndex < e.index →
      e.index ≤ acc.1.snapshotLastIncludedIndex + k → acc.1.conflicts e = false) →
    (es.foldl Node.mergeEntry acc).1.log.take k = acc.1.log.take k ∧
      k ≤ (es.foldl Node.mergeEntry acc).1.log.length ∧
      (acc.1.lastApplied ≤ acc.1.snapshotLastIncludedIndex + k →
        (es.foldl Node.mergeEntry acc).2 = acc.2) := by
  induction es with
  | nil => exact fun acc hk _ => ⟨rfl, hk, fun _ => rfl⟩
  | cons e es ih =>
      rintro ⟨x, b⟩ hk hno
      dsimp only at hk hno
      have hno' : ∀ e ∈ es, x.snapshotLastIncludedIndex < e.index →
          e.index ≤ x.snapshotLastIncludedIndex + k → x.conflicts e = false :=
        fun e he => hno e (List.mem_cons_of_mem _ he)
      rw [List.foldl_cons]
      rcases mergeEntry_cases x b e with h | ⟨-, -, -, h⟩ | ⟨hlo, hhas, hconf, t, -, h⟩
      · rw [h]
        exact ih (x, b) hk hno'
      · rw [h]
        have htake : (x.log ++ [e]).take k = x.log.take k := List.take_append_of_le_length hk
        have hlen : k ≤ (x.log ++ [e]).length := by rw [List.length_append]; omega
        obtain ⟨h1, h2, h3⟩ := ih ({ x with log := x.log ++ [e], persistDirty := true }, b) hlen
          fun e' he' hlo hhi => by
            have hsame := conflicts_congr (e := e') (x := x)
              (y := { x with log := x.log ++ [e], persistDirty := true }) rfl rfl htake hk hlen
              hlo hhi
            exact hsame.trans (hno' e' he' hlo hhi)
        exact ⟨h1.trans htake, h2, h3⟩
      · -- the entry that conflicts lies above
        have habove : x.snapshotLastIncludedIndex + k < e.index := by
          by_contra hle
          have := hno e List.mem_cons_self hlo (by omega)
          rw [hconf] at this
          exact Bool.noConfusion this
        rw [Node.hasLogIndex_eq_true] at hhas
        have hphys : k ≤ (x.physicalIndex e.index).toNat := by rw [Node.physicalIndex]; omega
        have hlt : (x.physicalIndex e.index).toNat ≤ x.log.length := by
          rw [Node.physicalIndex]
          omega
        have htake : (x.log.take (x.physicalIndex e.index).toNat ++ t).take k = x.log.take k := by
          rw [List.take_append_of_le_length (by rw [List.length_take]; omega), List.take_take,
            min_eq_left hphys]
        have hlen : k ≤ (x.log.take (x.physicalIndex e.index).toNat ++ t).length := by
          rw [List.length_append, List.length_take]
          omega
        rw [h]
        obtain ⟨h1, h2, h3⟩ := ih
          ({ x with
            log := x.log.take (x.physicalIndex e.index).toNat ++ t, persistDirty := true },
            b || decide (e.index ≤ x.lastApplied)) hlen
          fun e' he' hlo hhi => by
            have hsame := conflicts_congr (e := e') (x := x)
              (y := { x with
                log := x.log.take (x.physicalIndex e.index).toNat ++ t, persistDirty := true })
              rfl rfl htake hk hlen hlo hhi
            exact hsame.trans (hno' e' he' hlo hhi)
        refine ⟨h1.trans htake, h2, fun hap => (h3 hap).trans ?_⟩
        have : ¬ e.index ≤ x.lastApplied := by
          change x.lastApplied ≤ x.snapshotLastIncludedIndex + k at hap
          omega
        simp [this]

/-- A rebuild that was found necessary stays so. -/
lemma mergeEntries_rebuild (es : List LogEntry) : ∀ x : Node σ,
    (es.foldl Node.mergeEntry (x, true)).2 = true := by
  induction es with
  | nil => exact fun x => rfl
  | cons e es ih =>
      intro x
      rw [List.foldl_cons]
      rcases mergeEntry_cases x true e with h | ⟨-, -, -, h⟩ | ⟨-, -, -, t, -, h⟩
      all_goals
        rw [h]
        exact ih _

/-- **Without a rebuild the applied entries stay.** -/
theorem mergeEntries_applied (es : List LogEntry) (k : ℕ) : ∀ (x : Node σ) (b : Bool),
    k ≤ x.log.length → x.snapshotLastIncludedIndex + k ≤ x.lastApplied →
    (es.foldl Node.mergeEntry (x, b)).2 = false →
    (es.foldl Node.mergeEntry (x, b)).1.log.take k = x.log.take k ∧
      k ≤ (es.foldl Node.mergeEntry (x, b)).1.log.length := by
  induction es with
  | nil => exact fun x b hk _ _ => ⟨rfl, hk⟩
  | cons e es ih =>
      intro x b hk hle hfalse
      rw [List.foldl_cons] at hfalse ⊢
      rcases mergeEntry_cases x b e with h | ⟨-, -, -, h⟩ | ⟨hlo, hhas, hconf, t, -, h⟩
      · rw [h] at hfalse ⊢
        exact ih x b hk hle hfalse
      · rw [h] at hfalse ⊢
        obtain ⟨h1, h2⟩ := ih { x with log := x.log ++ [e], persistDirty := true } b
          (by simp only [List.length_append]; omega) hle hfalse
        exact ⟨h1.trans (List.take_append_of_le_length hk), h2⟩
      · rw [h] at hfalse ⊢
        have habove : x.lastApplied < e.index := by
          by_contra hno
          have htrue : (b || decide (e.index ≤ x.lastApplied)) = true := by
            simp [not_lt.mp hno]
          rw [htrue, mergeEntries_rebuild] at hfalse
          exact Bool.noConfusion hfalse
        rw [Node.hasLogIndex_eq_true] at hhas
        have hphys : k ≤ (x.physicalIndex e.index).toNat := by rw [Node.physicalIndex]; omega
        have hlt : (x.physicalIndex e.index).toNat ≤ x.log.length := by
          rw [Node.physicalIndex]
          omega
        obtain ⟨h1, h2⟩ := ih
          { x with log := x.log.take (x.physicalIndex e.index).toNat ++ t, persistDirty := true }
          _ (by simp only [List.length_append, List.length_take]; omega) hle hfalse
        refine ⟨h1.trans ?_, h2⟩
        rw [List.take_append_of_le_length (by rw [List.length_take]; omega), List.take_take,
          min_eq_left hphys]

/-- The entries of the log carry the indices they are at. -/
def Node.Contiguous (x : Node σ) : Prop := Numbered x.snapshotLastIncludedIndex 0 x.log

lemma Numbered.append_end {s : ℤ} {es : List LogEntry} {e : LogEntry} (h : Numbered s 0 es)
    (he : e.index = s + es.length + 1) : Numbered s 0 (es ++ [e]) := by
  intro k e' he'
  rcases lt_or_ge k es.length with hk | hk
  · rw [List.getElem?_append_left hk] at he'
    exact h k e' he'
  · rw [List.getElem?_append_right hk, List.getElem?_singleton] at he'
    split at he'
    · rw [← Option.some.inj he', he]
      push_cast
      omega
    · simp at he'

lemma Numbered.take {s : ℤ} {i : ℕ} {es : List LogEntry} (h : Numbered s i es) (k : ℕ) :
    Numbered s i (es.take k) := by
  intro j e he
  rw [List.getElem?_take] at he
  split at he
  · exact h j e he
  · simp at he

/-- The merge loop keeps the log numbered, whatever the batch. -/
lemma contiguous_mergeEntries (es : List LogEntry) : ∀ acc : Node σ × Bool, acc.1.Contiguous →
    (es.foldl Node.mergeEntry acc).1.Contiguous := by
  induction es with
  | nil => exact fun acc h => h
  | cons e es ih =>
      rintro ⟨x, b⟩ hx
      rw [List.foldl_cons]
      refine ih _ ?_
      rcases mergeEntry_cases x b e with h | ⟨-, hidx, -, h⟩ | ⟨hlo, hhas, -, t, ht, h⟩
      · rw [h]
        exact hx
      · rw [h]
        exact Numbered.append_end hx hidx
      · rw [h]
        rcases ht with rfl | rfl
        · refine Numbered.append_end (hx.take _) ?_
          rw [Node.hasLogIndex_eq_true] at hhas
          change e.index = x.snapshotLastIncludedIndex + _ + 1
          rw [List.length_take, Node.physicalIndex]
          omega
        · change Numbered _ 0 (_ ++ [])
          rw [List.append_nil]
          exact hx.take _

lemma merged_contiguous (hx : x.Contiguous) (m : Message) :
    Numbered x.snapshotLastIncludedIndex 0 (x.merged m).1 := by
  have h := contiguous_mergeEntries m.entries (x, false) hx
  obtain ⟨d, heq, -⟩ := mergeEntries_eq m.entries (x, false)
  rw [Node.Contiguous, show (m.entries.foldl Node.mergeEntry (x, false)).1.snapshotLastIncludedIndex
    = x.snapshotLastIncludedIndex by rw [heq]] at h
  exact h

/-! ### The end of a tick -/

/-- What `node_apply_command` does to a node whose applied index was moved to the entry. -/
inductive ApplyCase (A : Application σ) (x : Node σ) (c : Command) : Node σ → Prop where
  | user (apply : σ → Command → σ) : c.isInternal = false → A.apply = some apply →
      ApplyCase A x c { x with user := apply x.user c }
  | noUser : c.isInternal = false → A.apply = none → ApplyCase A x c x
  | threshold (t : ℤ) : c.op = opSetMaxlog → ApplyCase A x c
      { x with compactionThreshold := t, persistDirty := true }
  /-- An internal command that asks for nothing, or one the configuration is ahead of. -/
  | skip : c.isInternal = true →
      (c.op = opEnterJoint ∨ c.op = opLeaveJoint →
        x.lastApplied ≤ x.configState.index ∨ decodeMemberList c.value maxNodes = []) →
      ApplyCase A x c x
  | enter : c.op = opEnterJoint → x.configState.index < x.lastApplied →
      decodeMemberList c.value maxNodes ≠ [] → ApplyCase A x c
      { Node.refreshPeers
          { x with
            configState := configurationSetJoint x.configState.oldMembers
              (decodeMemberList c.value maxNodes) x.lastApplied
            membershipState := .joint
            jointConfigIndex := x.lastApplied
            requestedMembership := decodeMemberList c.value maxNodes
            requestedMembershipPending := true } with persistDirty := true }
  | leave : c.op = opLeaveJoint → x.configState.index < x.lastApplied →
      decodeMemberList c.value maxNodes ≠ [] → ApplyCase A x c (x.applyLeaveJoint c)

lemma applyInternalCommand_cases (x : Node σ) {c : Command} (hint : c.isInternal = true) :
    ApplyCase A x c (x.applyInternalCommand c) := by
  rw [Node.applyInternalCommand]
  split
  · rename_i hop
    dsimp only
    split
    · exact ApplyCase.threshold _ hop
    · refine ApplyCase.skip hint fun h => ?_
      rw [hop] at h
      exact absurd h (by decide)
  · split
    · rename_i hop
      rw [Node.applyEnterJoint]
      split
      · exact ApplyCase.skip hint fun _ => Or.inl ‹_›
      · split
        · exact ApplyCase.skip hint fun _ => Or.inr ‹_›
        · exact ApplyCase.enter hop (by omega) ‹_›
    · split
      · rename_i hop
        by_cases hidx : x.lastApplied ≤ x.configState.index
        · have hsame : x.applyLeaveJoint c = x := by
            rw [Node.applyLeaveJoint]
            exact if_pos hidx
          rw [hsame]
          exact ApplyCase.skip hint fun _ => Or.inl hidx
        · by_cases hnil : decodeMemberList c.value maxNodes = []
          · have hsame : x.applyLeaveJoint c = x := by
              rw [Node.applyLeaveJoint]
              exact (if_neg hidx).trans (if_pos hnil)
            rw [hsame]
            exact ApplyCase.skip hint fun _ => Or.inr hnil
          · exact ApplyCase.leave hop (by omega) hnil
      · rename_i henter hleave
        exact ApplyCase.skip hint fun h => absurd h (not_or.mpr ⟨henter, hleave⟩)

/-- **`node_apply_command`** is one of the cases. -/
theorem applyCommand_case (x : Node σ) (c : Command) : ApplyCase A x c (x.applyCommand A c) := by
  rw [Node.applyCommand]
  split
  · exact applyInternalCommand_cases x ‹_›
  · rename_i hint
    rw [Bool.not_eq_true] at hint
    split
    · exact ApplyCase.user _ hint ‹_›
    · exact ApplyCase.noUser hint ‹_›

/-- An expelled member stops, any other one goes on under the new configuration. -/
lemma applyLeaveJoint_eq {c : Command} (hidx : x.configState.index < x.lastApplied)
    (hne : decodeMemberList c.value maxNodes ≠ []) :
    ∃ (r : Bool) (l : CString) (v : List CString) (s : Role), x.applyLeaveJoint c =
      { Node.refreshPeers
          { x with
            configState := configurationSetStable (decodeMemberList c.value maxNodes) x.lastApplied
            membershipState := .stable
            finalConfigIndex := x.lastApplied
            jointConfigIndex := 0
            requestedMembershipPending := false
            requestedMembership := [] } with
        persistDirty := true, running := r, leaderId := l, votesReceived := v, state := s } ∧
      ((r = x.running ∧ s = x.state) ∨ (r = false ∧ s = .follower)) := by
  rw [Node.applyLeaveJoint]
  simp only [if_neg (not_le.mpr hidx), if_neg hne]
  split
  · exact ⟨false, [], [], .follower, rfl, Or.inr ⟨rfl, rfl⟩⟩
  · exact ⟨x.running, x.leaderId, x.votesReceived, x.state, rfl, Or.inl ⟨rfl, rfl⟩⟩

/-- What applying entries leaves alone. -/
structure Applying (x x' : Node σ) : Prop where
  log : x'.log = x.log
  slots : x'.slots = x.slots
  snapIndex : x'.snapshotLastIncludedIndex = x.snapshotLastIncludedIndex
  snapTerm : x'.snapshotLastIncludedTerm = x.snapshotLastIncludedTerm
  snapBuf : x'.snapshotBuf = x.snapshotBuf
  commit : x'.commitIndex = x.commitIndex
  term : x'.currentTerm = x.currentTerm
  vote : x'.votedFor = x.votedFor
  outbox : x'.outbox = x.outbox
  next : x'.nextIndex = x.nextIndex
  matched : x'.matchIndex = x.matchIndex
  appends : x'.pendingAppendEntries = x.pendingAppendEntries
  nodeId : x'.config.nodeId = x.config.nodeId

lemma Applying.refl (x : Node σ) : Applying x x :=
  ⟨rfl, rfl, rfl, rfl, rfl, rfl, rfl, rfl, rfl, rfl, rfl, rfl, rfl⟩

lemma Applying.trans {z : Node σ} (h : Applying x y) (h' : Applying y z) : Applying x z where
  log := h'.log.trans h.log
  slots := h'.slots.trans h.slots
  snapIndex := h'.snapIndex.trans h.snapIndex
  snapTerm := h'.snapTerm.trans h.snapTerm
  snapBuf := h'.snapBuf.trans h.snapBuf
  commit := h'.commit.trans h.commit
  term := h'.term.trans h.term
  vote := h'.vote.trans h.vote
  outbox := h'.outbox.trans h.outbox
  next := h'.next.trans h.next
  matched := h'.matched.trans h.matched
  appends := h'.appends.trans h.appends
  nodeId := h'.nodeId.trans h.nodeId

lemma applying_applyCommand (x : Node σ) (c : Command) : Applying x (x.applyCommand A c) ∧
    (x.applyCommand A c).lastApplied = x.lastApplied := by
  have hcase := applyCommand_case (A := A) x c
  generalize x.applyCommand A c = y at hcase ⊢
  cases hcase with
  | user | noUser | threshold | skip | enter =>
      exact ⟨⟨rfl, rfl, rfl, rfl, rfl, rfl, rfl, rfl, rfl, rfl, rfl, rfl, rfl⟩, rfl⟩
  | leave _ hidx hne =>
      obtain ⟨r, l, v, s, heq, -⟩ := applyLeaveJoint_eq (x := x) hidx hne
      rw [heq]
      exact ⟨⟨rfl, rfl, rfl, rfl, rfl, rfl, rfl, rfl, rfl, rfl, rfl, rfl, rfl⟩, rfl⟩

lemma applying_applyNext (x : Node σ) : Applying x (x.applyNext A).1 ∧
    (x.applyNext A).1.lastApplied = x.lastApplied + 1 := by
  obtain ⟨h, hla⟩ := applying_applyCommand (A := A) { x with lastApplied := x.lastApplied + 1 }
    (Node.entryAt { x with lastApplied := x.lastApplied + 1 } (x.lastApplied + 1)).command
  exact ⟨⟨h.log, h.slots, h.snapIndex, h.snapTerm, h.snapBuf, h.commit, h.term, h.vote, h.outbox,
    h.next, h.matched, h.appends, h.nodeId⟩, hla⟩

/-- **The apply loop** moves the applied index and leaves the log alone. -/
theorem applying_applyCommitted (k : ℕ) : ∀ x : Node σ, Applying x (x.applyCommitted A k).1 ∧
    (x.applyCommitted A k).1.lastApplied = x.lastApplied + k := by
  induction k with
  | zero => exact fun x => ⟨Applying.refl x, by simp [Node.applyCommitted]⟩
  | succ k ih =>
      intro x
      obtain ⟨h, hla⟩ := applying_applyNext (A := A) x
      obtain ⟨h', hla'⟩ := ih (x.applyNext A).1
      refine ⟨h.trans h', ?_⟩
      rw [Node.applyCommitted]
      dsimp only
      rw [hla', hla]
      push_cast
      ring

lemma queueMessage_eq (x : Node σ) (m : Message) : ∃ ms, x.queueMessage m =
    { x with outbox := x.outbox ++ ms } ∧ ∀ m' ∈ ms, m' = m := by
  rw [Node.queueMessage]
  split
  · exact ⟨[m], rfl, by simp⟩
  · exact ⟨[], by simp, by simp⟩

/-- Broadcasting fills the outbox. -/
lemma broadcastAppendEntries_eq (x : Node σ) : ∃ ms, x.broadcastAppendEntries =
    { x with outbox := x.outbox ++ ms } ∧ ∀ m ∈ ms, m.term = x.currentTerm := by
  have hfold : ∀ (ps : List CString) (y : Node σ), ∃ ms, ps.foldl Node.sendAppendEntriesTo y =
      { y with outbox := y.outbox ++ ms } ∧ ∀ m ∈ ms, m.term = y.currentTerm := by
    intro ps
    induction ps with
    | nil => exact fun y => ⟨[], by simp, by simp⟩
    | cons p ps ih =>
        intro y
        obtain ⟨ms, heq, hms⟩ := queueMessage_eq y _
        obtain ⟨ms', heq', hms'⟩ := ih { y with outbox := y.outbox ++ ms }
        refine ⟨ms ++ ms', ?_, fun m hm => ?_⟩
        · rw [List.foldl_cons, Node.sendAppendEntriesTo, heq, heq']
          simp
        · rcases List.mem_append.mp hm with hm | hm
          · rw [hms m hm]
          · exact hms' m hm
  exact hfold x.config.peers x

/-! ### The membership driver and compaction -/

/-- What `node_maybe_drive_membership` does. -/
inductive DriveCase (x : Node σ) : Node σ → Prop where
  | none : DriveCase x x
  /-- The log is full: the index of the entry that was not written is `-1`. -/
  | fullEnter : x.isLeader = true → x.membershipState = .stable →
      DriveCase x { x with jointConfigIndex := -1 }
  | enter (ms : List Message) (s : MembershipState) : x.isLeader = true →
      x.membershipState = .stable → x.requestedMembershipPending = true →
      x.configState.isJoint = false → x.log.length < maxLog → (∀ m ∈ ms, m.term = x.currentTerm) →
      s = (if 0 < x.lastLogIndex + 1 then .jointPending else x.membershipState) →
      DriveCase x
        { x with
          log := x.log ++ [x.internalEntry opEnterJoint "members".toList
            (encodeMemberList x.requestedMembership maxValue)]
          persistDirty := true, outbox := x.outbox ++ ms
          jointConfigIndex := x.lastLogIndex + 1, membershipState := s }
  | joint : x.isLeader = true → x.membershipState = .jointPending →
      x.configState.isJoint = true → x.configState.index = x.jointConfigIndex →
      DriveCase x { x with membershipState := .joint }
  | fullLeave : x.isLeader = true → x.membershipState = .joint →
      DriveCase x { x with finalConfigIndex := -1 }
  | leave (ms : List Message) (s : MembershipState) : x.isLeader = true →
      x.membershipState = .joint → x.configState.isJoint = true →
      x.jointMembersAreCaughtUp = true → x.log.length < maxLog →
      (∀ m ∈ ms, m.term = x.currentTerm) →
      s = (if 0 < x.lastLogIndex + 1 then .finalizing else x.membershipState) →
      DriveCase x
        { x with
          log := x.log ++ [x.internalEntry opLeaveJoint "members".toList
            (encodeMemberList x.requestedMembership maxValue)]
          persistDirty := true, outbox := x.outbox ++ ms
          finalConfigIndex := x.lastLogIndex + 1, membershipState := s }
  | stable : x.isLeader = true → x.membershipState = .finalizing →
      x.configState.isJoint = false → x.configState.index = x.finalConfigIndex →
      DriveCase x { x with membershipState := .stable }

/-- An internal command is refused by a full log, or becomes an entry that is broadcast. -/
lemma appendInternalCommand_cases (hl : x.isLeader = true) (op key value : CString) :
    x.appendInternalCommand op key value = (x, -1) ∨
    (x.log.length < maxLog ∧ ∃ ms, (∀ m ∈ ms, m.term = x.currentTerm) ∧
      x.appendInternalCommand op key value =
        ({ x with
          log := x.log ++ [x.internalEntry op key value], persistDirty := true
          outbox := x.outbox ++ ms }, x.lastLogIndex + 1)) := by
  rw [Node.appendInternalCommand]
  split
  · exact Or.inl rfl
  · rename_i hroom
    simp only [hl, Bool.true_eq_false, false_or, not_le] at hroom
    obtain ⟨ms, heq, hms⟩ := broadcastAppendEntries_eq
      { x with log := x.log ++ [x.internalEntry op key value], persistDirty := true }
    refine Or.inr ⟨hroom, ms, hms, ?_⟩
    simp only [heq]
    rfl

/-- **`node_maybe_drive_membership`** is one of the cases. -/
theorem maybeDriveMembership_cases (x : Node σ) : DriveCase x x.maybeDriveMembership := by
  rw [Node.maybeDriveMembership]
  split
  · exact DriveCase.none
  · rename_i hlead
    rw [Bool.not_eq_false] at hlead
    split
    · rename_i h
      rcases appendInternalCommand_cases hlead opEnterJoint "members".toList
        (encodeMemberList x.requestedMembership maxValue) with heq | ⟨hroom, ms, hms, heq⟩
      · simp only [heq]
        exact DriveCase.fullEnter hlead h.1
      · simp only [heq]
        have hcase := DriveCase.enter ms _ hlead h.1 h.2.1 h.2.2 hroom hms rfl
        split
        · rename_i hpos
          rw [if_pos hpos] at hcase
          exact hcase
        · rename_i hpos
          rw [if_neg hpos] at hcase
          exact hcase
    · split
      · rename_i h
        exact DriveCase.joint hlead h.1 h.2.1 h.2.2
      · split
        · rename_i h
          rcases appendInternalCommand_cases hlead opLeaveJoint "members".toList
            (encodeMemberList x.requestedMembership maxValue) with heq | ⟨hroom, ms, hms, heq⟩
          · simp only [heq]
            exact DriveCase.fullLeave hlead h.1
          · simp only [heq]
            have hcase := DriveCase.leave ms _ hlead h.1 h.2.1 h.2.2 hroom hms rfl
            split
            · rename_i hpos
              rw [if_pos hpos] at hcase
              exact hcase
            · rename_i hpos
              rw [if_neg hpos] at hcase
              exact hcase
        · split
          · rename_i h
            exact DriveCase.stable hlead h.1 h.2.1 h.2.2
          · exact DriveCase.none

/-- What the compaction of a tick does: nothing, or a snapshot at the compactible index. -/
lemma maybeCompact_cases (x : Node σ) : x.maybeCompact A = (x, none) ∨
    ∃ data : List UInt8, x.shouldCompact = true ∧
      x.snapshotLastIncludedIndex < x.compactibleIndex ∧ x.compactibleIndex ≤ x.lastLogIndex ∧
      data = (match A.snapshot with | some snapshot => (snapshot x.user).val | none => []) ∧
      x.maybeCompact A =
        ({ x with
          snapshotBuf := data
          log := x.log.drop (x.compactibleIndex - x.snapshotLastIncludedIndex).toNat
          snapshotLastIncludedIndex := x.compactibleIndex
          snapshotLastIncludedTerm := x.termAtIndex x.compactibleIndex
          persistDirty := true },
         some ⟨x.compactibleIndex, x.termAtIndex x.compactibleIndex, data⟩) := by
  rw [Node.maybeCompact]
  split
  · rename_i hshould
    rw [Node.doCompact]
    dsimp only
    split
    · exact Or.inl rfl
    · rename_i h
      simp only [not_or, not_le, not_lt] at h
      exact Or.inr ⟨_, hshould, h.1, h.2, rfl, rfl⟩
  · exact Or.inl rfl

/-! ### Acts of a host -/

/-- **What an act of a host does.** -/
inductive ExecCase (A : Application σ) (h : Host σ) : HostAct σ → Host σ → Effect → Prop where
  | latch (clock : ℤ) (slots : ℤ → LogEntry) (ms : List Message) (cs : List Command) :
      h.phase = .idle → ExecCase A h (.latch clock slots ms cs)
        { h with
          node := Node.latchInputs { h.node with clockMs := clock, slots := slots } ms cs
          phase := .latched } {}
  | transition (clock : ℤ) : h.phase = .latched → ExecCase A h (.transition clock)
      { h with node := Node.transition A { h.node with clockMs := clock }, phase := .acted } {}
  | dumpStopped : h.phase = .acted → h.node.running = false → ExecCase A h .dump
      { h with node := { h.node with outbox := [] }, phase := .idle } {}
  | dump : h.phase = .acted → h.node.running = true → ExecCase A h .dump
      { h with
        node := { h.node.dumped A with persistDirty := false, outbox := [] }
        disk := h.disk.writeAll (h.node.dumpOutputs A).writes, phase := .idle }
      { writes := (h.node.dumpOutputs A).writes, sends := (h.node.dumpOutputs A).sends
        applied := (h.node.dumpOutputs A).applied }
  | stop : h.phase = .idle → ExecCase A h .stop { h with node := h.node.stop } {}
  | start (clock : ℤ) : h.phase = .idle → ExecCase A h (.start clock)
      { h with node := Node.start A { h.node with clockMs := clock } h.disk } {}
  | request (members : List CString) : h.phase = .idle → ExecCase A h (.request members)
      { h with node := (h.node.requestMembershipChange members).1 } {}
  | resetForJoin (clock : ℤ) (user : σ) : h.phase = .idle → ExecCase A h (.resetForJoin clock user)
      { h with
        node := (Node.resetForJoin { h.node with clockMs := clock, user := user }).1
        disk := h.disk.writeAll
          (Node.resetForJoin { h.node with clockMs := clock, user := user }).2 }
      { writes := (Node.resetForJoin { h.node with clockMs := clock, user := user }).2 }
  | crash (user : σ) (clock : ℤ) : ExecCase A h (.crash user clock)
      { h with node := Node.init A h.config h.disk user clock, phase := .idle } {}
  | crashInDump (writes sends : ℕ) (user : σ) (clock : ℤ) : h.phase = .acted →
      (h.node.dumpOutputs A).node.Fits → ExecCase A h (.crashInDump writes sends user clock)
      { h with
        node := Node.init A h.config
          (h.disk.writeAll ((h.node.dumpOutputs A).writes.take writes)) user clock
        disk := h.disk.writeAll ((h.node.dumpOutputs A).writes.take writes), phase := .idle }
      { writes := (h.node.dumpOutputs A).writes.take writes
        sends := if (h.node.dumpOutputs A).writes.length ≤ writes then
          (h.node.dumpOutputs A).sends.take sends else []
        applied := (h.node.dumpOutputs A).applied }
  | crashInReset (writes : ℕ) (user : σ) (clock : ℤ) : h.phase = .idle →
      h.node.resetForJoin.1.Fits → ExecCase A h (.crashInReset writes user clock)
      { h with
        node := Node.init A h.config
          (h.disk.writeAll (h.node.resetForJoin.2.take writes)) user clock
        disk := h.disk.writeAll (h.node.resetForJoin.2.take writes), phase := .idle }
      { writes := h.node.resetForJoin.2.take writes }

/-- An act that is carried out is one of the cases, and its result fits. -/
theorem exec_cases {h h' : Host σ} {a : HostAct σ} {e : Effect}
    (he : h.exec A a = some (h', e)) : ExecCase A h a h' e ∧ h'.node.Fits := by
  rw [Host.exec, Option.filter_eq_some_iff, decide_eq_true_eq] at he
  obtain ⟨hact, hfit⟩ := he
  refine ⟨?_, hfit⟩
  cases a with
  | latch clock slots ms cs =>
      simp only [Host.act, Option.ite_none_right_eq_some, Option.some.injEq, Prod.mk.injEq] at hact
      obtain ⟨hp, rfl, rfl⟩ := hact
      exact ExecCase.latch clock slots ms cs hp
  | transition clock =>
      simp only [Host.act, Option.ite_none_right_eq_some, Option.some.injEq, Prod.mk.injEq] at hact
      obtain ⟨hp, rfl, rfl⟩ := hact
      exact ExecCase.transition clock hp
  | dump =>
      simp only [Host.act, Option.ite_none_right_eq_some, Option.some.injEq, Prod.mk.injEq] at hact
      obtain ⟨hp, rfl, rfl⟩ := hact
      cases hrun : h.node.running with
      | false =>
          have hcase := ExecCase.dumpStopped (A := A) hp hrun
          rw [dumpOutputs_stopped hrun]
          exact hcase
      | true =>
          have hcase := ExecCase.dump (A := A) hp hrun
          have hnode : (h.node.dumpOutputs A).node =
              { h.node.dumped A with persistDirty := false, outbox := [] } := by
            rw [dumpOutputs_eq hrun]
          rw [hnode]
          exact hcase
  | stop =>
      simp only [Host.act, Option.ite_none_right_eq_some, Option.some.injEq, Prod.mk.injEq] at hact
      obtain ⟨hp, rfl, rfl⟩ := hact
      exact ExecCase.stop hp
  | start clock =>
      simp only [Host.act, Option.ite_none_right_eq_some, Option.some.injEq, Prod.mk.injEq] at hact
      obtain ⟨hp, rfl, rfl⟩ := hact
      exact ExecCase.start clock hp
  | request members =>
      simp only [Host.act, Option.ite_none_right_eq_some, Option.some.injEq, Prod.mk.injEq] at hact
      obtain ⟨hp, rfl, rfl⟩ := hact
      exact ExecCase.request members hp
  | resetForJoin clock user =>
      simp only [Host.act, Option.ite_none_right_eq_some, Option.some.injEq, Prod.mk.injEq] at hact
      obtain ⟨hp, rfl, rfl⟩ := hact
      exact ExecCase.resetForJoin clock user hp
  | crash user clock =>
      simp only [Host.act, Option.some.injEq, Prod.mk.injEq] at hact
      obtain ⟨rfl, rfl⟩ := hact
      exact ExecCase.crash user clock
  | crashInDump writes sends user clock =>
      simp only [Host.act, Option.ite_none_right_eq_some, Option.some.injEq, Prod.mk.injEq] at hact
      obtain ⟨⟨hp, hfits⟩, rfl, rfl⟩ := hact
      exact ExecCase.crashInDump writes sends user clock hp hfits
  | crashInReset writes user clock =>
      simp only [Host.act, Option.ite_none_right_eq_some, Option.some.injEq, Prod.mk.injEq] at hact
      obtain ⟨⟨hp, hfits⟩, rfl, rfl⟩ := hact
      exact ExecCase.crashInReset writes user clock hp hfits

/-- The host after an act. -/
def Host.step (A : Application σ) (h : Host σ) (a : HostAct σ) : Option (Host σ) :=
  (h.exec A a).map Prod.fst

lemma exec_of_step {h h' : Host σ} {a : HostAct σ} (hs : h.step A a = some h') :
    ∃ e, h.exec A a = some (h', e) := by
  obtain ⟨⟨h'', e⟩, he, rfl⟩ := Option.map_eq_some_iff.mp hs
  exact ⟨e, he⟩

end RaftRx.C
