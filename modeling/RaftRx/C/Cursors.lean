import RaftRx.C.AppliedConfiguration

/-!
The replication cursors of a leader through changes of its peers.

`match_index` and `next_index` are arrays beside the list of peers.  `node_refresh_peers` rebuilds
the list, the old members first and then the new ones, and leaves the arrays as they are.

* `CursorsFollow`: a peer that stays keeps its cursors, a new one starts at 0;
* `ClusterConfiguration.others`: the list of peers a configuration leads to;
* `Ack`, `acksOf`: the match indices a leader takes from responses of its own term, with the places
  it puts them in;
* `PlacesKept`: a peer that stays keeps its place or meets equal cursors in the new one, and a new
  one comes to a place where no match index was left behind;
* `Ledger`: a host with what was reported to it since it leads, and what its places remember;
* `stepFollows_iff`: the entries that move the cursors along;
* `cursors_follow`: what holds in every run of such entries;
* `cursors_swapped`: a change that permutes two peers.
-/

namespace RaftRx.C

open Protocol (Role)

variable {σ : Type*} {A : Application σ} {x y : Node σ} {m : Message}

/-! ### Cursors -/

/-- `node->next_index[node_peer_index(node, peer_id)]`, if there is such a peer. -/
def Node.nextOf (x : Node σ) (peerId : CString) : Option ℤ :=
  (x.peerIndex peerId).map fun i => x.nextIndex.getD i 0

/-- Peers that stay keep their cursors, and the match index of new ones is 0. -/
def CursorsFollow (x y : Node σ) : Prop :=
  ∀ p ∈ y.config.peers,
    (p ∈ x.config.peers → y.matchOf p = x.matchOf p ∧ y.nextOf p = x.nextOf p) ∧
    (p ∉ x.config.peers → y.matchOf p = some 0)

instance (x y : Node σ) : Decidable (CursorsFollow x y) :=
  inferInstanceAs (Decidable (∀ p ∈ y.config.peers, _))

/-- Every turn of the apply loop is related to the one before. -/
def Node.AppliesWith (A : Application σ) (R : Node σ → Node σ → Prop) : ℕ → Node σ → Prop
  | 0, _ => True
  | n + 1, x => R x (x.applyNext A).1 ∧ (x.applyNext A).1.AppliesWith A R n

instance appliesWithDecidable (R : Node σ → Node σ → Prop) [∀ x y, Decidable (R x y)] :
    (n : ℕ) → (x : Node σ) → Decidable (x.AppliesWith A R n)
  | 0, _ => inferInstanceAs (Decidable True)
  | n + 1, x =>
      have := appliesWithDecidable R n (x.applyNext A).1
      inferInstanceAs (Decidable (R x (x.applyNext A).1 ∧ (x.applyNext A).1.AppliesWith A R n))

/-- Two relations that agree under an invariant of the loop. -/
lemma Node.AppliesWith.congr {R S : Node σ → Node σ → Prop} {I : Node σ → Prop}
    (hI : ∀ x, I x → I (x.applyNext A).1)
    (hRS : ∀ x, I x → (R x (x.applyNext A).1 ↔ S x (x.applyNext A).1)) (n : ℕ) :
    ∀ x : Node σ, I x → (x.AppliesWith A R n ↔ x.AppliesWith A S n) := by
  induction n with
  | zero => exact fun _ _ => Iff.rfl
  | succ n ih => exact fun x hx => and_congr (hRS x hx) (ih _ (hI x hx))

/-- A leader's step moves its cursors along. -/
def StepFollows (x y : Node σ) : Prop := x.state = .leader → CursorsFollow x y

instance (x y : Node σ) : Decidable (StepFollows x y) := inferInstanceAs (Decidable (_ → _))

/-- `node_peer_index` in a list of peers. -/
def placeOf (peers : List CString) (p : CString) : Option ℕ := peers.findIdx? (· == p)

lemma mem_of_placeOf {peers : List CString} {p : CString} {i : ℕ} (h : placeOf peers p = some i) :
    peers[i]? = some p := by
  rw [placeOf, List.findIdx?_eq_some_iff_getElem] at h
  obtain ⟨hi, hp, -⟩ := h
  rw [List.getElem?_eq_getElem hi]
  exact congrArg some (beq_iff_eq.mp hp)

lemma exists_place {peers : List CString} {p : CString} (h : p ∈ peers) :
    ∃ i, placeOf peers p = some i := by
  cases hi : placeOf peers p with
  | none =>
      rw [placeOf, List.findIdx?_eq_none_iff] at hi
      exact absurd (hi p h) (by simp)
  | some i => exact ⟨i, rfl⟩

lemma placeOf_eq_none {peers : List CString} {p : CString} (h : p ∉ peers) :
    placeOf peers p = none := by
  cases hi : placeOf peers p with
  | none => rfl
  | some i => exact absurd (List.mem_of_getElem? (mem_of_placeOf hi)) h

/-! ### The peers in a configuration -/

/-- The members of a configuration other than the node, the old ones first, as many as there is room
for. -/
def ClusterConfiguration.others (c : ClusterConfiguration) (nodeId : CString) : List CString :=
  ((c.oldMembers ++ c.newMembers.filter (· ∉ c.oldMembers)).filter (· ≠ nodeId)).take maxPeers

/-- The first loop of `node_refresh_peers`. -/
lemma foldl_oldPeers (nodeId : CString) (ms : List CString) : ∀ acc : List CString,
    (∀ m ∈ ms, m.length < maxId) → acc.length ≤ maxPeers →
    ms.foldl (fun peers m =>
        if peers.length < maxPeers ∧ m ≠ nodeId then peers ++ [strncpy maxId m] else peers) acc =
      (acc ++ ms.filter (· ≠ nodeId)).take maxPeers := by
  induction ms with
  | nil =>
      intro acc _ hacc
      rw [List.foldl_nil, List.filter_nil, List.append_nil, List.take_of_length_le hacc]
  | cons m ms ih =>
      intro acc hms hacc
      have hrest : ∀ m ∈ ms, m.length < maxId := fun m' h => hms m' (List.mem_cons_of_mem _ h)
      rw [List.foldl_cons]
      by_cases hm : m ≠ nodeId
      · rw [List.filter_cons_of_pos (by simpa using hm)]
        by_cases hroom : acc.length < maxPeers
        · rw [if_pos ⟨hroom, hm⟩, strncpy_self (hms m List.mem_cons_self),
            ih _ hrest (by rw [List.length_append, List.length_singleton]; exact hroom),
            List.append_assoc, List.singleton_append]
        · have hfull : maxPeers ≤ acc.length := not_lt.mp hroom
          rw [if_neg fun h => hroom h.1, ih _ hrest hacc, List.take_append_of_le_length hfull,
            List.take_append_of_le_length hfull]
      · rw [List.filter_cons_of_neg (by simpa using hm), if_neg fun h => hm h.2]
        exact ih _ hrest hacc

/-- The second loop of `node_refresh_peers`. -/
lemma foldl_newPeers (nodeId : CString) (ms : List CString) : ∀ acc : List CString,
    (∀ m ∈ ms, m.length < maxId) → ms.Nodup → acc.length ≤ maxPeers →
    ms.foldl (fun peers m =>
        if peers.length < maxPeers ∧ m ≠ nodeId ∧ m ∉ peers then peers ++ [strncpy maxId m]
        else peers) acc =
      (acc ++ ms.filter fun m => m ≠ nodeId ∧ m ∉ acc).take maxPeers := by
  induction ms with
  | nil =>
      intro acc _ _ hacc
      rw [List.foldl_nil, List.filter_nil, List.append_nil, List.take_of_length_le hacc]
  | cons m ms ih =>
      intro acc hms hnd hacc
      obtain ⟨hm, hnd⟩ := List.nodup_cons.mp hnd
      have hrest : ∀ m ∈ ms, m.length < maxId := fun m' h => hms m' (List.mem_cons_of_mem _ h)
      rw [List.foldl_cons]
      by_cases hnew : m ≠ nodeId ∧ m ∉ acc
      · rw [List.filter_cons_of_pos (by simpa using hnew)]
        by_cases hroom : acc.length < maxPeers
        · -- the member does not come again
          have hfilter : ms.filter (fun m' => m' ≠ nodeId ∧ m' ∉ acc ++ [m]) =
              ms.filter fun m' => m' ≠ nodeId ∧ m' ∉ acc := by
            refine List.filter_congr fun m' hm' => ?_
            have hne : m' ≠ m := fun h => hm (h ▸ hm')
            simp [hne]
          rw [if_pos ⟨hroom, hnew⟩, strncpy_self (hms m List.mem_cons_self),
            ih _ hrest hnd (by rw [List.length_append, List.length_singleton]; exact hroom),
            hfilter, List.append_assoc, List.singleton_append]
        · have hfull : maxPeers ≤ acc.length := not_lt.mp hroom
          rw [if_neg fun h => hroom h.1, ih _ hrest hnd hacc, List.take_append_of_le_length hfull,
            List.take_append_of_le_length hfull]
      · rw [List.filter_cons_of_neg (by simpa using hnew), if_neg fun h => hnew h.2]
        exact ih _ hrest hnd hacc

/-- **`node_refresh_peers`** under a configuration of short ids. -/
lemma peers_refreshPeers (hold : ∀ m ∈ x.configState.oldMembers, m.length < maxId)
    (hnew : ∀ m ∈ x.configState.newMembers, m.length < maxId)
    (hnd : x.configState.newMembers.Nodup) :
    x.refreshPeers.config.peers = x.configState.others x.config.nodeId := by
  rw [Node.refreshPeers]
  dsimp only
  rw [foldl_oldPeers _ _ _ hold (Nat.zero_le _), List.nil_append,
    foldl_newPeers _ _ _ hnew hnd (List.length_take_le _ _), ClusterConfiguration.others,
    List.filter_append, List.filter_filter]
  obtain ⟨os, hos⟩ : ∃ os, os = x.configState.oldMembers.filter (· ≠ x.config.nodeId) := ⟨_, rfl⟩
  by_cases hfull : maxPeers ≤ os.length
  · rw [← hos, List.take_append_of_le_length hfull,
      List.take_append_of_le_length (by rw [List.length_take]; omega), List.take_take, min_self]
  · rw [← hos, List.take_of_length_le (show os.length ≤ maxPeers by omega)]
    congr 2
    refine List.filter_congr fun m _ => ?_
    have hmem : m ∈ os ↔ m ∈ x.configState.oldMembers ∧ m ≠ x.config.nodeId := by
      rw [hos, List.mem_filter, decide_eq_true_eq]
    rw [← Bool.decide_and, decide_eq_decide, hmem]
    tauto

lemma length_refreshPeers (x : Node σ) : x.refreshPeers.config.peers.length ≤ maxPeers :=
  length_foldl_guarded (fun _ _ h => h.1) _
    (length_foldl_guarded (fun _ _ h => h.1) _ (Nat.zero_le _))

lemma short_normalizeMembers (ids : List CString) :
    ∀ m ∈ normalizeMembers ids maxNodes, m.length < maxId := by
  have hroster : Roster [] (normalizeMembers ids maxNodes) :=
    roster_normalizeMembers fun _ _ _ _ => List.not_mem_nil
  exact hroster.short

/-- The members an entry names come once. -/
lemma nodup_normalizeMembers_decoded (value : CString) :
    (normalizeMembers (decodeMemberList value maxNodes) maxNodes).Nodup := by
  rw [(perm_gathered _).nodup_iff]
  exact nodup_gathered fun id hid =>
    ⟨(mem_decodeMemberList hid).1, (mem_decodeMemberList hid).2.1⟩

/-- **The next entry changes the configuration**: it names members, and the configuration is not
ahead of it. -/
def Node.Adopts (x : Node σ) : Prop :=
  (x.entryAt (x.lastApplied + 1)).command.configures = true ∧
    x.configState.index ≤ x.lastApplied ∧
    decodeMemberList (x.entryAt (x.lastApplied + 1)).command.value maxNodes ≠ []

instance (x : Node σ) : Decidable x.Adopts := inferInstanceAs (Decidable (_ ∧ _))

/-- The peers the next entry leads to. -/
def Node.nextPeers (x : Node σ) : List CString :=
  (configureBy x.configState (x.entryAt (x.lastApplied + 1))).others x.config.nodeId

/-- **Applying an entry** leaves the arrays alone, and the list of peers unless it is adopted. -/
lemma peers_applyNext (x : Node σ) : (x.applyNext A).1.matchIndex = x.matchIndex ∧
    (x.applyNext A).1.nextIndex = x.nextIndex ∧
    (x.applyNext A).1.config.peers = if x.Adopts then x.nextPeers else x.config.peers := by
  obtain ⟨happ, -⟩ := applying_applyNext (A := A) x
  refine ⟨happ.matched, happ.next, ?_⟩
  have hcase := applyCommand_case (A := A) { x with lastApplied := x.lastApplied + 1 }
    (x.entryAt (x.lastApplied + 1)).command
  have hpeers : (x.applyNext A).1.config.peers = (Node.applyCommand A
      { x with lastApplied := x.lastApplied + 1 }
      (x.entryAt (x.lastApplied + 1)).command).config.peers := rfl
  have hadopts : x.Adopts ↔ (x.entryAt (x.lastApplied + 1)).command.configures = true ∧
      x.configState.index ≤ x.lastApplied ∧
      decodeMemberList (x.entryAt (x.lastApplied + 1)).command.value maxNodes ≠ [] := Iff.rfl
  rw [hpeers, Node.nextPeers]
  generalize x.entryAt (x.lastApplied + 1) = e at hcase hadopts ⊢
  generalize Node.applyCommand A { x with lastApplied := x.lastApplied + 1 } e.command = z
    at hcase ⊢
  cases hcase with
  | user _ hint | noUser hint =>
      rw [if_neg fun h => ?_]
      exact absurd (isInternal_of_configures (hadopts.mp h).1) (by rw [hint]; decide)
  | threshold _ hop =>
      rw [if_neg fun h => ?_]
      have hconf := (hadopts.mp h).1
      rw [Command.configures, hop] at hconf
      exact absurd hconf (by decide)
  | skip _ hskip =>
      rw [if_neg fun h => ?_]
      obtain ⟨hconf, hidx, hne⟩ := hadopts.mp h
      rw [Command.configures, Bool.or_eq_true, decide_eq_true_eq, decide_eq_true_eq] at hconf
      rcases hskip hconf with hlate | hnil
      · change x.lastApplied + 1 ≤ x.configState.index at hlate
        omega
      · exact hne hnil
  | enter hop hidx hne =>
      rw [if_pos (hadopts.mpr ⟨configures_enter hop, Int.lt_add_one_iff.mp hidx, hne⟩),
        configureBy_enter hop hne]
      exact peers_refreshPeers (x := { x with configState := _ })
        (short_normalizeMembers _) (short_normalizeMembers _)
        (nodup_normalizeMembers_decoded _)
  | leave hop hidx hne =>
      obtain ⟨r, l, v, s, heq, -⟩ := applyLeaveJoint_eq
        (x := { x with lastApplied := x.lastApplied + 1 }) hidx hne
      rw [if_pos (hadopts.mpr ⟨configures_leave hop, Int.lt_add_one_iff.mp hidx, hne⟩),
        configureBy_leave hop hne, heq]
      exact peers_refreshPeers (x := { x with configState := _ })
        (short_normalizeMembers _) (fun _ h => absurd h List.not_mem_nil) List.nodup_nil

/-! ### Reports -/

/-- A match index a leader took from a response, and the place in the arrays it was put in. -/
structure Ack where
  place : ℕ
  source : CString
  matchIndex : ℤ
  deriving DecidableEq, Repr

variable {acks rs : List Ack}

/-- What a leader of a term takes from the messages it receives: the match indices of successful
responses of its own term from peers.  A response of a later term makes that term its own. -/
def acksOf (peers : List CString) : ℤ → List Message → List Ack
  | _, [] => []
  | t, m :: ms =>
      if m.kind = .appendEntriesResponse then
        (if m.success = true ∧ t ≤ m.term then
          ((placeOf peers m.source).map fun i => (⟨i, m.source, m.matchIndex⟩ : Ack)).toList
        else []) ++ acksOf peers (max t m.term) ms
      else acksOf peers t ms

/-- What was put in a place last; the newest come first. -/
def lastAck (acks : List Ack) (i : ℕ) : ℤ :=
  ((acks.find? (·.place == i)).map Ack.matchIndex).getD 0

/-- What was put in a place last, if anything, was 0. -/
def Vacant (acks : List Ack) (i : ℕ) : Prop :=
  ∀ a ∈ acks.find? (·.place == i), a.matchIndex = 0

instance (acks : List Ack) (i : ℕ) : Decidable (Vacant acks i) :=
  inferInstanceAs (Decidable (∀ a ∈ acks.find? _, _))

lemma lastAck_eq_zero {i : ℕ} : lastAck acks i = 0 ↔ Vacant acks i := by
  rw [lastAck, Vacant]
  cases acks.find? (·.place == i) with
  | none => simp
  | some a => simp

lemma lastAck_cons (a : Ack) (acks : List Ack) (i : ℕ) :
    lastAck (a :: acks) i = if a.place = i then a.matchIndex else lastAck acks i := by
  rw [lastAck, List.find?_cons]
  by_cases h : a.place = i
  · rw [beq_iff_eq.mpr h, if_pos h]
    rfl
  · rw [beq_eq_false_iff_ne.mpr h, if_neg h]
    rfl

/-- An election clears the places of the peers. -/
lemma lastAck_cleared (acks : List Ack) (n i : ℕ) :
    lastAck (acks.filter fun a => decide (n ≤ a.place)) i =
      if i < n then 0 else lastAck acks i := by
  induction acks with
  | nil => simp [lastAck]
  | cons a acks ih =>
      by_cases h : n ≤ a.place
      · rw [List.filter_cons_of_pos (by simpa using h), lastAck_cons, lastAck_cons, ih]
        split_ifs <;> first | rfl | omega
      · rw [List.filter_cons_of_neg (by simpa using h), ih, lastAck_cons]
        split_ifs <;> first | rfl | omega

/-! ### The arrays -/

/-- Role, match indices and peers of a node. -/
structure Board where
  state : Role
  matchIndex : List ℤ
  peers : List CString

/-- The board of a node. -/
def Node.board (x : Node σ) : Board :=
  { state := x.state, matchIndex := x.matchIndex, peers := x.config.peers }

lemma board_foldl {β : Type*} {f : Node σ → β → Node σ} (hf : ∀ x b, (f x b).board = x.board)
    (l : List β) : ∀ x : Node σ, (l.foldl f x).board = x.board := by
  induction l with
  | nil => exact fun _ => rfl
  | cons b l ih => exact fun x => (ih (f x b)).trans (hf x b)

@[simp] lemma board_queueMessage (x : Node σ) (m : Message) :
    (x.queueMessage m).board = x.board := by
  rw [Node.queueMessage]
  split <;> rfl

@[simp] lemma board_sendAppendEntriesTo (x : Node σ) (p : CString) :
    (x.sendAppendEntriesTo p).board = x.board := board_queueMessage x _

@[simp] lemma board_broadcastAppendEntries (x : Node σ) :
    x.broadcastAppendEntries.board = x.board := board_foldl board_sendAppendEntriesTo _ x

@[simp] lemma board_advanceCommitIndex (x : Node σ) : x.advanceCommitIndex.board = x.board := by
  rw [Node.advanceCommitIndex]
  split <;> rfl

@[simp] lemma board_handleTermUpdate (x : Node σ) (m : Message) :
    (x.handleTermUpdate m).board = x.board := by
  rw [Node.handleTermUpdate]
  split <;> rfl

lemma board_appendClientCommand (x : Node σ) (c : Command) :
    (x.appendClientCommand c).board = x.board := by
  rw [Node.appendClientCommand]
  split
  · exact board_broadcastAppendEntries _
  · rfl

lemma board_recordVote (x : Node σ) (p : CString) : (x.recordVote p).board = x.board := by
  rw [Node.recordVote]
  split
  · rfl
  · split <;> rfl

lemma board_handleVoteRequest (x : Node σ) (m : Message) :
    (x.handleVoteRequest m).board = x.board := by
  rw [← board_handleTermUpdate x m, Node.handleVoteRequest]
  rw [board_queueMessage]
  split <;> rfl

lemma board_handleVoteResponse (x : Node σ) (m : Message) :
    (x.handleVoteResponse m).board = x.board := by
  rw [← board_handleTermUpdate x m, Node.handleVoteResponse]
  split
  · rfl
  · split
    · exact board_recordVote _ _
    · rfl

lemma board_settleCommit (x : Node σ) (m : Message) (b : Bool) :
    (x.settleCommit A m b).board = x.board := by
  have hreset : ∀ y : Node σ, (y.resetApplication A).board = y.board := by
    intro y
    rw [Node.resetApplication]
    split <;> split <;> rfl
  rw [Node.settleCommit]
  split
  · exact hreset { x with commitIndex := min m.leaderCommit x.lastLogIndex }
  · split
    · rfl
    · split <;> rfl

lemma board_handleAppendEntries (x : Node σ) (m : Message) :
    (x.handleAppendEntries A m).board = x.board := by
  have hmerge : ∀ y : Node σ, (y.appendEntriesFromLeader A m).1.board = y.board := by
    intro y
    rw [Node.appendEntriesFromLeader]
    split
    · refine (board_settleCommit _ m _).trans ?_
      obtain ⟨d, heq, -⟩ := mergeEntries_eq m.entries (y, false)
      rw [heq]
      rfl
    · rfl
  rw [← board_handleTermUpdate x m, Node.handleAppendEntries]
  dsimp only
  rw [board_queueMessage]
  split
  · exact hmerge _
  · rfl

lemma board_becomeCandidate (x : Node σ) : x.becomeCandidate.board = x.board := by
  obtain ⟨d, ms, heq, -⟩ := becomeCandidate_eq x
  rw [heq]
  rfl

/-- **A transition** leaves the match indices alone, unless it makes a leader. -/
lemma board_transition (x : Node σ) :
    (∃ r, (x.transition A).board = { x.board with state := r } ∧
      (r = .leader → x.state = .leader)) ∨
    (x.state ≠ .leader ∧ (x.transition A).board = x.lead.board) := by
  have hcase := transition_cases (A := A) x
  generalize x.transition A = y at hcase ⊢
  cases hcase with
  | none | ignoreVote | ignoreVoteRequest => exact Or.inl ⟨x.state, rfl, id⟩
  | campaign => exact Or.inl ⟨.candidate, board_becomeCandidate _, fun h => absurd h (by decide)⟩
  | giveUp => exact Or.inl ⟨.follower, rfl, fun h => absurd h (by decide)⟩
  | win hcand =>
      refine Or.inr ⟨by rw [hcand]; decide, ?_⟩
      rw [becomeLeader_eq]
      exact board_broadcastAppendEntries x.lead
  | append m rest =>
      exact Or.inl ⟨.follower, board_handleAppendEntries _ m, fun h => absurd h (by decide)⟩
  | request m rest =>
      exact Or.inl ⟨.follower, board_handleVoteRequest _ m, fun h => absurd h (by decide)⟩
  | requestAsCandidate m rest => exact Or.inl ⟨x.state, board_handleVoteRequest _ m, id⟩
  | vote m rest => exact Or.inl ⟨x.state, board_handleVoteResponse _ m, id⟩
  | heartbeat => exact Or.inl ⟨x.state, board_broadcastAppendEntries x, id⟩

/-- The board with what was taken put in its places. -/
def Board.put (b : Board) (a : Ack) : Board :=
  { b with matchIndex := b.matchIndex.set a.place a.matchIndex }

lemma board_receive_other (x : Node σ) (h : m.kind ≠ .appendEntriesResponse) :
    (x.receive m).board = x.board ∧ (x.receive m).currentTerm = x.currentTerm := by
  rw [Node.receive]
  cases hk : m.kind with
  | appendEntriesResponse => exact absurd hk h
  | appendEntries | requestVote | requestVoteResponse => exact ⟨rfl, rfl⟩

/-- **A response** is taken by a leader if it is of the leader's term once that was updated. -/
lemma board_receive_response (x : Node σ) (h : m.kind = .appendEntriesResponse) :
    (x.receive m).currentTerm = max x.currentTerm m.term ∧
    (x.receive m).board =
      (if x.state = .leader ∧ m.success = true ∧ x.currentTerm ≤ m.term then
        ((placeOf x.config.peers m.source).map fun i => (⟨i, m.source, m.matchIndex⟩ : Ack)).toList
      else []).foldl Board.put x.board := by
  have hterm : (x.handleTermUpdate m).currentTerm = max x.currentTerm m.term := by
    rw [Node.handleTermUpdate]
    split
    · rename_i hlt
      exact (max_eq_right hlt.le).symm
    · rename_i hge
      exact (max_eq_left (not_lt.mp hge)).symm
  have hboard := board_handleTermUpdate x m
  have hreceive : x.receive m = x.handleAppendEntriesResponse m := by rw [Node.receive, h]
  have hstill := still_handleAppendEntriesResponse x m
  rw [hreceive, hstill.term]
  refine ⟨hterm, ?_⟩
  rw [Node.handleAppendEntriesResponse]
  generalize x.handleTermUpdate m = y at hterm hboard ⊢
  obtain ⟨hstate, hmatched, hpeers⟩ : y.state = x.state ∧ y.matchIndex = x.matchIndex ∧
      y.config.peers = x.config.peers := by
    injection hboard with h1 h2 h3
    exact ⟨h1, h2, h3⟩
  have hplace : y.peerIndex m.source = placeOf x.config.peers m.source := by
    rw [Node.peerIndex, hpeers]
    rfl
  dsimp only
  split
  · rename_i hno
    rw [if_neg, List.foldl_nil, hboard]
    rintro ⟨hlead, -, hle⟩
    rcases hno with hno | hno
    · exact hno (hstate.trans hlead)
    · exact hno (by rw [hterm, max_eq_right hle])
  · rename_i hyes
    rw [not_or, not_not, not_not] at hyes
    have hle : x.currentTerm ≤ m.term := by
      have := hyes.2
      rw [hterm] at this
      exact (le_max_left _ _).trans this.ge
    rw [hplace]
    cases hi : placeOf x.config.peers m.source with
    | none =>
        rw [Option.map_none, Option.toList_none, ite_self, List.foldl_nil]
        exact hboard
    | some i =>
        dsimp only
        cases hok : m.success with
        | true =>
            rw [if_pos rfl, if_pos ⟨hstate.symm.trans hyes.1, rfl, hle⟩, board_advanceCommitIndex]
            simp only [Option.map_some, Option.toList_some, List.foldl_cons, List.foldl_nil]
            rw [← hboard]
            rfl
        | false =>
            have hnot : ¬ (x.state = .leader ∧ false = true ∧ x.currentTerm ≤ m.term) :=
              fun h => Bool.false_ne_true h.2.1
            rw [if_neg hnot, if_neg Bool.false_ne_true, List.foldl_nil, ← hboard]
            refine (board_sendAppendEntriesTo _ _).trans ?_
            split <;> rfl

lemma foldl_put_peers (acks : List Ack) : ∀ b : Board,
    (acks.foldl Board.put b).state = b.state ∧ (acks.foldl Board.put b).peers = b.peers := by
  induction acks with
  | nil => exact fun _ => ⟨rfl, rfl⟩
  | cons a acks ih => exact fun b => ih (b.put a)

/-- **The receive loop of a leader** puts what it takes in the places. -/
lemma board_receive_leader (ms : List Message) : ∀ x : Node σ, x.state = .leader →
    (ms.foldl Node.receive x).board =
      (acksOf x.config.peers x.currentTerm ms).foldl Board.put x.board := by
  induction ms with
  | nil => exact fun _ _ => rfl
  | cons m ms ih =>
      intro x hlead
      rw [List.foldl_cons, acksOf]
      by_cases hk : m.kind = .appendEntriesResponse
      · obtain ⟨hterm, hboard⟩ := board_receive_response x hk
        simp only [hlead, true_and] at hboard
        obtain ⟨hs, hp⟩ := foldl_put_peers
          (if m.success = true ∧ x.currentTerm ≤ m.term then
            ((placeOf x.config.peers m.source).map
              fun i => (⟨i, m.source, m.matchIndex⟩ : Ack)).toList
          else []) x.board
        rw [← hboard] at hs hp
        change (x.receive m).config.peers = x.config.peers at hp
        rw [if_pos hk, List.foldl_append, ← hboard, ih _ (hs.trans hlead), hterm, hp]
      · obtain ⟨hboard, hterm⟩ := board_receive_other x hk
        have hs : (x.receive m).state = x.state := congrArg Board.state hboard
        have hp : (x.receive m).config.peers = x.config.peers := congrArg Board.peers hboard
        rw [if_neg hk, ih _ (hs.trans hlead), hterm, hp, hboard]

/-- Others take nothing. -/
lemma board_receive_idle (ms : List Message) : ∀ x : Node σ, x.state ≠ .leader →
    (ms.foldl Node.receive x).board = x.board := by
  induction ms with
  | nil => exact fun _ _ => rfl
  | cons m ms ih =>
      intro x hidle
      have hboard : (x.receive m).board = x.board := by
        by_cases hk : m.kind = .appendEntriesResponse
        · rw [(board_receive_response x hk).2, if_neg fun h => hidle h.1, List.foldl_nil]
        · exact (board_receive_other x hk).1
      have hs : (x.receive m).state = x.state := congrArg Board.state hboard
      rw [List.foldl_cons, ih _ (hs.symm ▸ hidle), hboard]

/-- What a node takes when it latches. -/
def Node.taken (x : Node σ) (ms : List Message) : List Ack :=
  if x.running = true ∧ x.state = .leader then
    acksOf x.config.peers x.currentTerm (ms.take maxQueue)
  else []

/-- **Latching** puts what the node takes in the places. -/
lemma board_latchInputs (x : Node σ) (clock : ℤ) (slots : ℤ → LogEntry) (ms : List Message)
    (cs : List Command) :
    (Node.latchInputs { x with clockMs := clock, slots := slots } ms cs).board =
      (x.taken ms).foldl Board.put x.board := by
  rw [Node.latchInputs, Node.taken]
  dsimp only
  cases hrun : x.running with
  | false => simp [Node.board]
  | true =>
      have hclient : ∀ y : Node σ,
          (if y.isLeader then (cs.take maxQueue).foldl Node.appendClientCommand y else y).board =
            y.board := by
        intro y
        split
        · exact board_foldl board_appendClientCommand _ y
        · rfl
      rw [if_neg (by simp), hclient]
      by_cases hlead : x.state = .leader
      · rw [if_pos ⟨rfl, hlead⟩]
        exact board_receive_leader _ { x with
          running := true, clockMs := clock, slots := slots, pendingAppendEntries := [],
          pendingVoteRequests := [], pendingVotes := [] } hlead
      · rw [if_neg fun h => hlead h.2]
        exact board_receive_idle _ _ hlead

/-! ### Places -/

/-- The cursors in a place of the arrays. -/
def Node.cursorsAt (x : Node σ) (i : ℕ) : ℤ × ℤ := (x.matchIndex.getD i 0, x.nextIndex.getD i 0)

/-- A peer that stays keeps its place or meets equal cursors in the new one, and a new one comes to
a place where no match index was left behind. -/
def PlacesKept (acks : List Ack) (x : Node σ) (peers : List CString) : Prop :=
  ∀ p ∈ peers, ∀ i ∈ placeOf peers p,
    (∀ j ∈ placeOf x.config.peers p, i = j ∨ x.cursorsAt i = x.cursorsAt j) ∧
    (p ∉ x.config.peers → Vacant acks i)

instance (acks : List Ack) (x : Node σ) (peers : List CString) :
    Decidable (PlacesKept acks x peers) :=
  inferInstanceAs (Decidable (∀ p ∈ peers, _))

/-- The next entry keeps the places, if it is one that a leader adopts. -/
def Node.KeepsPlaces (acks : List Ack) (x : Node σ) : Prop :=
  x.state = .leader → x.Adopts → PlacesKept acks x x.nextPeers

instance (acks : List Ack) (x : Node σ) : Decidable (x.KeepsPlaces acks) :=
  inferInstanceAs (Decidable (_ → _ → _))

/-- **Every place holds what was put in it last.** -/
structure Board.Mirrors (acks : List Ack) (b : Board) : Prop where
  length : b.matchIndex.length = maxPeers
  peers : b.peers.length ≤ maxPeers
  slot : ∀ i, b.matchIndex.getD i 0 = lastAck acks i

lemma place_lt {peers : List CString} {p : CString} {i : ℕ} (h : placeOf peers p = some i) :
    i < peers.length :=
  (List.getElem?_eq_some_iff.mp (mem_of_placeOf h)).1

lemma getD_set {l : List ℤ} {i j : ℕ} (h : i < l.length) (v : ℤ) :
    (l.set i v).getD j 0 = if i = j then v else l.getD j 0 := by
  rw [List.getD_eq_getElem?_getD, List.getElem?_set]
  split
  · rfl
  · exact (List.getD_eq_getElem?_getD ..).symm

lemma Board.Mirrors.put {b : Board} (h : b.Mirrors acks) {a : Ack} (ha : a.place < maxPeers) :
    (b.put a).Mirrors (a :: acks) where
  length := by
    rw [Board.put, List.length_set]
    exact h.length
  peers := h.peers
  slot := fun i => by
    rw [lastAck_cons, ← h.slot i]
    exact getD_set (h.length.symm ▸ ha) a.matchIndex

lemma Board.Mirrors.puts (new : List Ack) : ∀ {b : Board} {acks : List Ack}, b.Mirrors acks →
    (∀ a ∈ new, a.place < maxPeers) → (new.foldl Board.put b).Mirrors (new.reverse ++ acks) := by
  induction new with
  | nil => exact fun h _ => h
  | cons a new ih =>
      intro b acks h hnew
      rw [List.foldl_cons, List.reverse_cons, List.append_assoc]
      exact ih (h.put (hnew a List.mem_cons_self)) fun a' ha' =>
        hnew a' (List.mem_cons_of_mem _ ha')

/-- What is taken comes from a peer and goes to its place. -/
lemma place_acksOf {peers : List CString} (ms : List Message) : ∀ {t : ℤ} {a : Ack},
    a ∈ acksOf peers t ms → placeOf peers a.source = some a.place := by
  induction ms with
  | nil => exact fun h => absurd h List.not_mem_nil
  | cons m ms ih =>
      intro t a h
      rw [acksOf] at h
      split at h
      · rcases List.mem_append.mp h with h | h
        · split at h
          · rw [Option.mem_toList, Option.map_eq_some_iff] at h
            obtain ⟨i, hi, rfl⟩ := h
            exact hi
          · exact absurd h List.not_mem_nil
        · exact ih h
      · exact ih h

/-- What is taken was told in a response of that term or a later one. -/
lemma told_acksOf {peers : List CString} (ms : List Message) : ∀ {t : ℤ} {a : Ack},
    a ∈ acksOf peers t ms → ∃ m ∈ ms, m.kind = .appendEntriesResponse ∧ m.success = true ∧
      t ≤ m.term ∧ m.source = a.source ∧ m.matchIndex = a.matchIndex := by
  induction ms with
  | nil => exact fun h => absurd h List.not_mem_nil
  | cons m ms ih =>
      intro t a h
      rw [acksOf] at h
      split at h
      · rename_i hkind
        rcases List.mem_append.mp h with h | h
        · split at h
          · rename_i hok
            rw [Option.mem_toList, Option.map_eq_some_iff] at h
            obtain ⟨i, -, rfl⟩ := h
            exact ⟨m, List.mem_cons_self, hkind, hok.1, hok.2, rfl, rfl⟩
          · exact absurd h List.not_mem_nil
        · obtain ⟨m', hm', hk, hok, ht, hsrc⟩ := ih h
          exact ⟨m', List.mem_cons_of_mem _ hm', hk, hok, (le_max_left _ _).trans ht, hsrc⟩
      · obtain ⟨m', hm', hsaid⟩ := ih h
        exact ⟨m', List.mem_cons_of_mem _ hm', hsaid⟩

lemma place_taken {ms : List Message} {a : Ack} (h : a ∈ x.taken ms) :
    placeOf x.config.peers a.source = some a.place := by
  rw [Node.taken] at h
  split at h
  · exact place_acksOf _ h
  · exact absurd h List.not_mem_nil

/-- A new leader clears the places of its peers. -/
lemma Board.Mirrors.lead (h : x.board.Mirrors acks) :
    x.lead.board.Mirrors (acks.filter fun a => decide (x.config.peers.length ≤ a.place)) := by
  have hlen : x.matchIndex.length = maxPeers := h.length
  have hpeers : x.config.peers.length ≤ maxPeers := h.peers
  refine ⟨?_, h.peers, fun i => ?_⟩
  · change (List.replicate x.config.peers.length 0 ++
      x.matchIndex.drop x.config.peers.length).length = maxPeers
    rw [List.length_append, List.length_replicate, List.length_drop]
    omega
  · rw [lastAck_cleared, ← h.slot i]
    change (List.replicate x.config.peers.length 0 ++
      x.matchIndex.drop x.config.peers.length).getD i 0 = if _ then 0 else x.matchIndex.getD i 0
    rw [List.getD_eq_getElem?_getD, List.getD_eq_getElem?_getD]
    split
    · rename_i hlt
      rw [List.getElem?_append_left (by rw [List.length_replicate]; exact hlt),
        List.getElem?_replicate, if_pos hlt]
      rfl
    · rename_i hge
      rw [List.getElem?_append_right (by rw [List.length_replicate]; omega),
        List.length_replicate, List.getElem?_drop]
      congr 2
      omega

lemma Board.Mirrors.applyNext (h : x.board.Mirrors acks) :
    (x.applyNext A).1.board.Mirrors acks := by
  obtain ⟨hm, -, hp⟩ := peers_applyNext (A := A) x
  refine ⟨?_, ?_, fun i => ?_⟩
  · change (x.applyNext A).1.matchIndex.length = maxPeers
    rw [hm]
    exact h.length
  · change (x.applyNext A).1.config.peers.length ≤ maxPeers
    rw [hp]
    split
    · exact List.length_take_le _ _
    · exact h.peers
  · change (x.applyNext A).1.matchIndex.getD i 0 = _
    rw [hm]
    exact h.slot i

lemma Board.Mirrors.applyCommitted (n : ℕ) : ∀ {x : Node σ}, x.board.Mirrors acks →
    (x.applyCommitted A n).1.board.Mirrors acks := by
  induction n with
  | zero => exact fun h => h
  | succ n ih => exact fun h => ih h.applyNext

/-- Where the arrays stay, the cursors follow as far as the places are kept. -/
lemma cursorsFollow_iff (h : x.board.Mirrors acks) (hm : y.matchIndex = x.matchIndex)
    (hn : y.nextIndex = x.nextIndex) :
    CursorsFollow x y ↔ PlacesKept acks x y.config.peers := by
  refine forall₂_congr fun p hp => ?_
  obtain ⟨i, hi⟩ := exists_place hp
  have hpeer : y.peerIndex p = some i := hi
  rw [Node.matchOf, Node.nextOf, hpeer, hm, hn, hi]
  simp only [Option.map_some, Option.mem_some_iff, forall_eq']
  refine and_congr ?_ (forall_congr' fun _ => ?_)
  · by_cases hx : p ∈ x.config.peers
    · obtain ⟨j, hj⟩ := exists_place hx
      have hpeer' : x.peerIndex p = some j := hj
      rw [Node.matchOf, Node.nextOf, hpeer', hj]
      simp only [hx, true_implies, Option.map_some, Option.mem_some_iff, forall_eq',
        Option.some.injEq, Node.cursorsAt, Prod.mk.injEq]
      refine ⟨Or.inr, fun h => h.elim (fun hij => ?_) id⟩
      rw [hij]
      exact ⟨rfl, rfl⟩
    · rw [placeOf_eq_none hx]
      simp [hx]
  · have hslot : x.matchIndex.getD i 0 = lastAck acks i := h.slot i
    rw [hslot, Option.some.injEq, lastAck_eq_zero]

/-- **An applied entry moves the cursors of a leader along** exactly if it keeps the places. -/
lemma stepFollows_iff (h : x.board.Mirrors acks) :
    StepFollows x (x.applyNext A).1 ↔ x.KeepsPlaces acks := by
  obtain ⟨hm, hn, hp⟩ := peers_applyNext (A := A) x
  refine forall_congr' fun _ => ?_
  rw [cursorsFollow_iff h hm hn, hp]
  by_cases hadopts : x.Adopts
  · rw [if_pos hadopts]
    exact ⟨fun hkept _ => hkept, fun hkept => hkept hadopts⟩
  · rw [if_neg hadopts]
    refine ⟨fun _ h => absurd h hadopts, fun _ p hp i hi => ⟨fun j hj => Or.inl ?_, ?_⟩⟩
    · exact Option.some.inj (hi.symm.trans hj)
    · exact fun hno => absurd hp hno

/-! ### Accounts -/

/-- The match index of every peer of a leader is 0 or was reported by it. -/
def Node.Reported (rs : List Ack) (x : Node σ) : Prop :=
  x.state = .leader → ∀ p v, x.matchOf p = some v →
    v = 0 ∨ ∃ a ∈ rs, a.source = p ∧ a.matchIndex = v

/-- What the places of the peers hold is 0 or was reported by them. -/
def Board.Accounts (rs : List Ack) (b : Board) : Prop :=
  ∀ p, ∀ i ∈ placeOf b.peers p, b.matchIndex.getD i 0 = 0 ∨
    ∃ a ∈ rs, a.source = p ∧ a.matchIndex = b.matchIndex.getD i 0

lemma reported_iff : x.Reported rs ↔ (x.state = .leader → x.board.Accounts rs) := by
  refine forall_congr' fun _ => forall_congr' fun p => ?_
  rw [Node.matchOf]
  constructor
  · intro h i hi
    exact h _ (Option.map_eq_some_iff.mpr ⟨i, hi, rfl⟩)
  · intro h v hv
    obtain ⟨i, hi, rfl⟩ := Option.map_eq_some_iff.mp hv
    exact h i hi

lemma Board.Accounts.put {b : Board} (h : b.Accounts rs) {a : Ack}
    (ha : placeOf b.peers a.source = some a.place) (hin : a ∈ rs) : (b.put a).Accounts rs := by
  intro p i hi
  change placeOf b.peers p = some i at hi
  by_cases hlt : a.place < b.matchIndex.length
  · have hset : (b.put a).matchIndex.getD i 0 = _ := getD_set hlt a.matchIndex
    rw [hset]
    split
    · rename_i heq
      have hp : p = a.source := by
        have h1 := mem_of_placeOf hi
        rw [← heq, mem_of_placeOf ha] at h1
        exact (Option.some.inj h1).symm
      exact Or.inr ⟨a, hin, hp.symm, rfl⟩
    · exact h p i hi
  · rw [Board.put, List.set_eq_of_length_le (not_lt.mp hlt)]
    exact h p i hi

lemma Board.Accounts.puts (new : List Ack) : ∀ {b : Board}, b.Accounts rs →
    (∀ a ∈ new, placeOf b.peers a.source = some a.place ∧ a ∈ rs) →
    (new.foldl Board.put b).Accounts rs := by
  induction new with
  | nil => exact fun h _ => h
  | cons a new ih =>
      intro b h hnew
      obtain ⟨ha, hin⟩ := hnew a List.mem_cons_self
      exact ih (h.put ha hin) fun a' ha' => hnew a' (List.mem_cons_of_mem _ ha')

lemma Board.Accounts.mono {b : Board} (h : b.Accounts rs) (new : List Ack) :
    b.Accounts (rs ++ new) := by
  intro p i hi
  rcases h p i hi with h0 | ⟨a, ha, heq⟩
  · exact Or.inl h0
  · exact Or.inr ⟨a, List.mem_append_left _ ha, heq⟩

/-- A new leader has nothing to account for. -/
lemma accounts_lead (x : Node σ) : x.lead.board.Accounts rs := by
  intro p i hi
  have hlt : i < x.config.peers.length := place_lt hi
  left
  change (List.replicate x.config.peers.length 0 ++
    x.matchIndex.drop x.config.peers.length).getD i 0 = 0
  rw [List.getD_eq_getElem?_getD,
    List.getElem?_append_left (by rw [List.length_replicate]; exact hlt), List.getElem?_replicate,
    if_pos hlt]
  rfl

/-- Where a leader's cursors follow, its match indices stay reported ones. -/
lemma CursorsFollow.reported (h : CursorsFollow x y) (hx : x.Reported rs)
    (hs : x.state = .leader) : y.Reported rs := by
  intro _ p v hv
  have hp : p ∈ y.config.peers := by
    rw [Node.matchOf, Option.map_eq_some_iff] at hv
    obtain ⟨i, hi, -⟩ := hv
    exact List.mem_of_getElem? (mem_of_placeOf hi)
  obtain ⟨hkept, hfresh⟩ := h p hp
  by_cases hmem : p ∈ x.config.peers
  · rw [(hkept hmem).1] at hv
    exact hx hs p v hv
  · rw [hfresh hmem] at hv
    exact Or.inl (Option.some.inj hv).symm

/-- Applying an entry makes no leader. -/
lemma state_applyNext (x : Node σ) (h : (x.applyNext A).1.state = .leader) : x.state = .leader := by
  have hcase := applyCommand_case (A := A) { x with lastApplied := x.lastApplied + 1 }
    (x.entryAt (x.lastApplied + 1)).command
  change (Node.applyCommand A { x with lastApplied := x.lastApplied + 1 }
    (x.entryAt (x.lastApplied + 1)).command).state = .leader at h
  generalize (x.entryAt (x.lastApplied + 1)).command = c at hcase h
  generalize Node.applyCommand A { x with lastApplied := x.lastApplied + 1 } c = z at hcase h
  cases hcase with
  | user | noUser | threshold | skip | enter => exact h
  | leave _ hidx hne =>
      obtain ⟨r, l, v, s, heq, hrole⟩ := applyLeaveJoint_eq
        (x := { x with lastApplied := x.lastApplied + 1 }) hidx hne
      rw [heq] at h
      change s = .leader at h
      rcases hrole with ⟨-, hs⟩ | ⟨-, hs⟩
      · exact hs.symm.trans h
      · exact absurd (hs.symm.trans h) (by decide)

lemma Node.Reported.applyCommitted (n : ℕ) : ∀ x : Node σ, x.Reported rs →
    x.AppliesWith A StepFollows n → (x.applyCommitted A n).1.Reported rs := by
  induction n with
  | zero => exact fun x hx _ => hx
  | succ n ih =>
      intro x hx h
      refine ih _ (fun hlead => ?_) h.2
      have hs := state_applyNext x hlead
      exact (h.1 hs).reported hx hs hlead

/-! ### Ledgers -/

/-- A host with what it took since it leads, and what was put in its places since they were
cleared, the newest first. -/
structure Ledger (σ : Type*) where
  host : Host σ
  reports : List Ack
  acks : List Ack

/-- What a node takes in an act. -/
def HostAct.taken (x : Node σ) : HostAct σ → List Ack
  | .latch _ _ messages _ => x.taken messages
  | _ => []

/-- What an act leaves in the places: an election clears those of the peers, and a node that is
initialised again has nothing in any of them. -/
def Ledger.left (l : Ledger σ) (h : Host σ) : HostAct σ → List Ack
  | .transition _ =>
      if l.host.node.state ≠ .leader ∧ h.node.state = .leader then
        l.acks.filter fun a => decide (l.host.node.config.peers.length ≤ a.place)
      else l.acks
  | .crash _ _ | .crashInDump _ _ _ _ | .crashInReset _ _ _ => []
  | _ => l.acks

/-- An act, and what is taken by it. -/
def Ledger.step (A : Application σ) (l : Ledger σ) (a : HostAct σ) : Option (Ledger σ) :=
  (l.host.step A a).map fun h =>
    { host := h
      reports := if l.host.node.state = .leader ∧ h.node.state = .leader then
        l.reports ++ a.taken l.host.node else []
      acks := (a.taken l.host.node).reverse ++ l.left h a }

/-- A host that has just started leads nobody. -/
def Ledger.boot (A : Application σ) (config : NodeConfig) (user : σ) (clock : ℤ) : Ledger σ :=
  { host := Host.boot A config user clock, reports := [], acks := [] }

/-- The entries that the act applies move the cursors of a leader along. -/
def Ledger.Follows (A : Application σ) (l : Ledger σ) : HostAct σ → Prop
  | .dump => l.host.node.running = true →
      l.host.node.advanced.AppliesWith A StepFollows l.host.node.advanced.toApplyCount
  | _ => True

/-- **The entries that the act applies keep the places** of a leader's peers. -/
def PlacesAct (A : Application σ) (l : Ledger σ) : HostAct σ → Prop
  | .dump => l.host.node.running = true →
      l.host.node.advanced.AppliesWith A (fun x _ => x.KeepsPlaces l.acks)
        l.host.node.advanced.toApplyCount
  | _ => True

instance (l : Ledger σ) : (a : HostAct σ) → Decidable (PlacesAct A l a)
  | .dump => inferInstanceAs
      (Decidable (_ → Node.AppliesWith A (fun x _ => x.KeepsPlaces l.acks) _ _))
  | .latch _ _ _ _ | .transition _ | .stop | .start _ | .request _ | .resetForJoin _ _ | .crash _ _
  | .crashInDump _ _ _ _ | .crashInReset _ _ _ => inferInstanceAs (Decidable True)

/-- The end of a tick, once the entries are applied. -/
lemma board_dumped (x : Node σ) : (x.dumped A).board = (x.commitAndApply A).1.board := by
  have hdrive : (x.commitAndApply A).1.maybeDriveMembership.board =
      (x.commitAndApply A).1.board := by
    have hcase := maybeDriveMembership_cases (x.commitAndApply A).1
    generalize (x.commitAndApply A).1.maybeDriveMembership = z at hcase ⊢
    cases hcase <;> rfl
  rw [Node.dumped, ← hdrive]
  rcases maybeCompact_cases (A := A) (x.commitAndApply A).1.maybeDriveMembership with
    heq | ⟨data, -, -, -, -, heq⟩
  all_goals rw [heq]
  all_goals rfl

lemma board_advanced (x : Node σ) : x.advanced.board = x.board := by
  rcases advanced_cases x with heq | ⟨k, -, -, heq⟩
  all_goals rw [heq]
  all_goals rfl

lemma reported_of_board (h : y.board = x.board) (hx : x.Reported rs) : y.Reported rs := by
  rw [reported_iff] at hx ⊢
  have hs : y.state = x.state := congrArg Board.state h
  rw [h, hs]
  exact hx

/-- A node that was initialised has nothing in its places. -/
lemma board_init (config : NodeConfig) (disk : Disk) (user : σ) (clock : ℤ) :
    (Node.init A config disk user clock).state = .follower ∧
      (Node.init A config disk user clock).board.Mirrors [] := by
  have hload : ((Node.zero config user clock).load A disk).state = .follower ∧
      ((Node.zero config user clock).load A disk).matchIndex = List.replicate maxPeers 0 := by
    obtain ⟨u, heq⟩ := load_record (A := A) (Node.zero config user clock) disk
    rw [heq]
    exact ⟨rfl, rfl⟩
  have hfresh : (Node.fresh A config disk user clock).state = .follower ∧
      (Node.fresh A config disk user clock).matchIndex = List.replicate maxPeers 0 := by
    rw [Node.fresh, Node.loaded]
    generalize (Node.zero config user clock).load A disk = z at hload ⊢
    split <;> split <;> exact hload
  rw [init_ready]
  refine ⟨hfresh.1, ?_, length_refreshPeers _, fun i => ?_⟩
  · change (Node.fresh A config disk user clock).matchIndex.length = maxPeers
    rw [hfresh.2, List.length_replicate]
  · change (Node.fresh A config disk user clock).matchIndex.getD i 0 = 0
    rw [hfresh.2, List.getD_eq_getElem?_getD, List.getElem?_replicate]
    split <;> rfl

lemma board_start (x : Node σ) (disk : Disk) (h : x.board.Mirrors acks) :
    (x.start A disk).state = .follower ∧ (x.start A disk).board.Mirrors acks := by
  have hload : (x.load A disk).board.Mirrors acks := by
    obtain ⟨u, heq⟩ := load_record (A := A) x disk
    rw [heq]
    exact h
  rw [Node.start]
  generalize x.load A disk = z at hload ⊢
  split
  · exact ⟨rfl, hload.length, length_refreshPeers _, hload.slot⟩
  · exact ⟨rfl, hload.length, hload.peers, hload.slot⟩

/-- What is kept of a host's cursors. -/
structure Ledger.Kept (l : Ledger σ) : Prop where
  mirrors : l.host.node.board.Mirrors l.acks
  reported : l.host.node.Reported l.reports

/-- **Every act** leaves in the places what was put there last. -/
lemma mirrors_step {l l' : Ledger σ} {a : HostAct σ} (hl : l.host.node.board.Mirrors l.acks)
    (hs : l.step A a = some l') : l'.host.node.board.Mirrors l'.acks := by
  obtain ⟨h', hstep, rfl⟩ := Option.map_eq_some_iff.mp hs
  obtain ⟨e, he⟩ := exec_of_step hstep
  obtain ⟨hcase, -⟩ := exec_cases he
  obtain ⟨h, reports, acks⟩ := l
  change h.node.board.Mirrors acks at hl
  cases hcase with
  | latch clock slots ms cs _ =>
      change (Node.latchInputs { h.node with clockMs := clock, slots := slots } ms cs
        ).board.Mirrors _
      rw [board_latchInputs]
      exact hl.puts _ fun a ha => (place_lt (place_taken ha)).trans_le hl.peers
  | transition clock _ =>
      rcases board_transition (A := A) { h.node with clockMs := clock } with
        ⟨r, hboard, hr⟩ | ⟨hno, hboard⟩
      · have hstate : (Node.transition A { h.node with clockMs := clock }).state = r :=
          congrArg Board.state hboard
        have hkeep : ¬ (h.node.state ≠ .leader ∧
            (Node.transition A { h.node with clockMs := clock }).state = .leader) :=
          fun h => h.1 (hr (hstate.symm.trans h.2))
        change (Node.transition A { h.node with clockMs := clock }).board.Mirrors
          (if _ ∧ _ then _ else _)
        rw [if_neg hkeep, hboard]
        exact ⟨hl.length, hl.peers, hl.slot⟩
      · have hstate : (Node.transition A { h.node with clockMs := clock }).state = .leader :=
          congrArg Board.state hboard
        change (Node.transition A { h.node with clockMs := clock }).board.Mirrors
          (if _ ∧ _ then _ else _)
        rw [if_pos ⟨hno, hstate⟩, hboard]
        exact Board.Mirrors.lead (x := { h.node with clockMs := clock }) hl
  | dumpStopped _ _ => exact hl
  | dump _ hrun =>
      change (h.node.dumped A).board.Mirrors acks
      have hadv : h.node.advanced.board.Mirrors acks := by
        rw [board_advanced]
        exact hl
      rw [board_dumped, commitAndApply_eq]
      exact hadv.applyCommitted _
  | stop _ => exact ⟨hl.length, hl.peers, hl.slot⟩
  | start clock _ => exact (board_start { h.node with clockMs := clock } h.disk hl).2
  | request members _ =>
      obtain ⟨r, b, hreq⟩ := requestMembershipChange_eq h.node members
      rw [hreq]
      exact hl
  | resetForJoin clock user _ => exact ⟨hl.length, length_refreshPeers _, hl.slot⟩
  | crash user clock => exact (board_init (A := A) h.config h.disk user clock).2
  | crashInDump k j user clock _ _ => exact (board_init (A := A) h.config _ user clock).2
  | crashInReset k user clock _ _ => exact (board_init (A := A) h.config _ user clock).2

/-- **The entries of an act follow** exactly if they keep the places. -/
lemma follows_iff {l : Ledger σ} (hl : l.host.node.board.Mirrors l.acks) (a : HostAct σ) :
    l.Follows A a ↔ PlacesAct A l a := by
  cases a with
  | dump =>
      refine forall_congr' fun _ => ?_
      refine Node.AppliesWith.congr (I := fun x => x.board.Mirrors l.acks)
        (fun x hx => hx.applyNext) (fun x hx => stepFollows_iff hx) _ _ ?_
      rw [board_advanced]
      exact hl
  | latch | transition | stop | start | request | resetForJoin | crash | crashInDump
  | crashInReset => exact Iff.rfl

/-- **Every act that keeps the places** keeps the match indices reported ones. -/
lemma reported_step {l l' : Ledger σ} {a : HostAct σ} (hl : l.Kept) (ha : PlacesAct A l a)
    (hs : l.step A a = some l') : l'.host.node.Reported l'.reports := by
  have hfollows := (follows_iff hl.mirrors a).mpr ha
  obtain ⟨h', hstep, rfl⟩ := Option.map_eq_some_iff.mp hs
  obtain ⟨e, he⟩ := exec_of_step hstep
  obtain ⟨hcase, -⟩ := exec_cases he
  obtain ⟨h, reports, acks⟩ := l
  -- a node that does not lead has nothing to account for
  have hidle : ∀ (y : Node σ) (r : List Ack), y.state ≠ .leader → y.Reported r :=
    fun y r hy hlead => absurd hlead hy
  -- a node that led or not, and took nothing
  have htold : ∀ y : Node σ, (∀ r, h.node.Reported r → y.Reported r) →
      y.Reported (if h.node.state = .leader ∧ y.state = .leader then reports ++ [] else []) := by
    intro y hy
    split
    · rw [List.append_nil]
      exact hy _ hl.reported
    · rename_i hno
      by_cases hlead : h.node.state = .leader
      · exact hidle _ _ fun h => hno ⟨hlead, h⟩
      · exact hy _ (hidle _ _ hlead)
  cases hcase with
  | latch clock slots ms cs _ =>
      have hstate := state_latchInputs { h.node with clockMs := clock, slots := slots } ms cs
      have hboard := board_latchInputs h.node clock slots ms cs
      change (Node.latchInputs { h.node with clockMs := clock, slots := slots } ms cs).Reported
        (if _ ∧ _ then reports ++ h.node.taken ms else [])
      rw [reported_iff]
      intro hlead
      have hled : h.node.state = .leader := hstate.symm.trans hlead
      rw [if_pos ⟨hled, hlead⟩, hboard]
      have hbefore : h.node.board.Accounts (reports ++ h.node.taken ms) :=
        (reported_iff.mp hl.reported hled).mono _
      exact hbefore.puts _ fun a ha => ⟨place_taken ha, List.mem_append_right _ ha⟩
  | transition clock _ =>
      rcases board_transition (A := A) { h.node with clockMs := clock } with
        ⟨r, hboard, hr⟩ | ⟨-, hboard⟩
      · refine htold _ fun rs hrs => ?_
        rw [reported_iff] at hrs ⊢
        intro hlead
        have hstate : (Node.transition A { h.node with clockMs := clock }).state = r :=
          congrArg Board.state hboard
        rw [hboard]
        exact hrs (hr (hstate.symm.trans hlead))
      · rw [reported_iff]
        intro _
        change (Node.transition A { h.node with clockMs := clock }).board.Accounts _
        rw [hboard]
        exact accounts_lead { h.node with clockMs := clock }
  | dumpStopped _ _ => exact htold _ fun r hr => hr
  | dump _ hrun =>
      refine htold _ fun r hr => ?_
      have happ := (reported_of_board (board_advanced h.node) hr).applyCommitted (A := A) _ _
        (hfollows hrun)
      rw [← commitAndApply_eq] at happ
      exact reported_of_board (board_dumped h.node) happ
  | stop _ => exact hidle _ _ (by simp [Node.stop])
  | start clock _ =>
      refine hidle _ _ ?_
      rw [(board_start (A := A) { h.node with clockMs := clock } h.disk hl.mirrors).1]
      decide
  | request members _ =>
      obtain ⟨r, b, hreq⟩ := requestMembershipChange_eq h.node members
      rw [hreq]
      exact htold _ fun r hr => hr
  | resetForJoin clock user _ => exact hidle _ _ (by simp [Node.resetForJoin])
  | crash user clock =>
      exact hidle _ _ (by rw [(board_init (A := A) h.config h.disk user clock).1]; decide)
  | crashInDump k j user clock _ _ =>
      exact hidle _ _ (by rw [(board_init (A := A) h.config _ user clock).1]; decide)
  | crashInReset k user clock _ _ =>
      exact hidle _ _ (by rw [(board_init (A := A) h.config _ user clock).1]; decide)

/-- **The cursors of a leader follow its peers**: in every run, the entries of an act move them
along exactly if they keep the places; and in every run of acts that keep them, the match index of a
peer is 0 or was reported by it. -/
theorem cursors_follow (A : Application σ) (config : NodeConfig) (user : σ) (clock : ℤ) :
    (∀ l, Run (Ledger.step A) (fun _ _ => True) (Ledger.boot A config user clock) l →
      ∀ a, l.Follows A a ↔ PlacesAct A l a) ∧
    ∀ l, Run (Ledger.step A) (PlacesAct A) (Ledger.boot A config user clock) l →
      l.host.node.Reported l.reports := by
  obtain ⟨hf, hboot⟩ := board_init (A := A) config Disk.empty user clock
  constructor
  · intro l hrun a
    exact follows_iff (hrun.invariant (I := fun l => l.host.node.board.Mirrors l.acks)
      (fun _ _ _ hl _ hs => mirrors_step hl hs) hboot) a
  · intro l hrun
    have hkept : l.Kept := hrun.invariant
      (fun _ _ _ hl ha hs => ⟨mirrors_step hl.mirrors hs, reported_step hl ha hs⟩)
      ⟨hboot, fun hlead => absurd (hf.symm.trans hlead) (by decide)⟩
    exact hkept.reported

/-! ### A change that permutes two peers -/

/-- `n1` and a second node. -/
def pairConfig (n : CString) : NodeConfig :=
  { nodeId := n1, peers := [n], initialMembers := [n1, n], learner := false
    electionTimeoutMs := 1, heartbeatIntervalMs := 10 }

/-- `n1` leads itself and `n`, and is asked to take in `n'`: both have the entry that enters the
joint configuration, and `n` has the one that leaves it. -/
def takenIn (n n' : CString) : List (HostAct UInt8) :=
  hostTick 1 [] [] ++ hostTick 1 [voteGrant n n1 1] [] ++ hostTick 1 [] [] ++
    [.request [n1, n2, n3]] ++ hostTick 1 [] [] ++ hostTick 1 [appendAnswer n n1 1 true 1] [] ++
    hostTick 1 [appendAnswer n' n1 1 true 1] [] ++ openTick 1 [appendAnswer n n1 1 true 2] []

/-- `n3` is taken in after `n2` and stays there. -/
theorem cursors_follow_taken_in : ∃ l : Ledger UInt8,
    Run (Ledger.step counter) (PlacesAct counter) (Ledger.boot counter (pairConfig n2) 0 0) l ∧
    l.host.node.state = .leader ∧ l.host.node.matchOf n2 = some 2 ∧
    ∃ a ∈ l.reports, a.source = n2 ∧ a.matchIndex = 2 := by
  have hexec : (execAll (Ledger.step counter) (fun l a => decide (PlacesAct counter l a))
      (Ledger.boot counter (pairConfig n2) 0 0) (takenIn n2 n3 ++ [.dump])).any
      (fun l => decide (l.host.node.state = .leader) &&
        decide (l.host.node.matchOf n2 = some 2)) = true := by
    decide +kernel
  obtain ⟨l, hrun, hl⟩ := Run.exists_of_execAll hexec
  rw [Bool.and_eq_true, decide_eq_true_eq, decide_eq_true_eq] at hl
  have hrun' := hrun.mono (fun _ _ => of_decide_eq_true)
  have hreported := (cursors_follow counter (pairConfig n2) 0 0).2 l hrun' hl.1 n2 2 hl.2
  exact ⟨l, hrun', hl.1, hl.2, hreported.resolve_left (by decide)⟩

/-- **A change that permutes two peers**: `n2` is taken in after `n3` and comes before it in the
end, with the match index of `n3`. -/
theorem cursors_swapped :
    (¬ ∀ l : Ledger UInt8, Run (Ledger.step counter) (fun _ _ => True)
      (Ledger.boot counter (pairConfig n3) 0 0) l → l.Follows counter .dump) ∧
    ¬ ∀ l : Ledger UInt8, Run (Ledger.step counter) (fun _ _ => True)
      (Ledger.boot counter (pairConfig n3) 0 0) l → l.host.node.Reported l.reports := by
  constructor
  · intro hall
    have hexec : (execAll (Ledger.step counter) (fun _ _ => true)
        (Ledger.boot counter (pairConfig n3) 0 0) (takenIn n3 n2)).any (fun l =>
          decide (l.host.node.running = true) && decide (¬ l.host.node.advanced.AppliesWith counter
            StepFollows l.host.node.advanced.toApplyCount)) = true := by
      decide +kernel
    obtain ⟨l, hrun, hl⟩ := Run.exists_of_execAll hexec
    rw [Bool.and_eq_true, decide_eq_true_eq, decide_eq_true_eq] at hl
    exact hl.2 (hall l (hrun.mono fun _ _ _ => trivial) hl.1)
  · intro hall
    have hexec : (execAll (Ledger.step counter) (fun _ _ => true)
        (Ledger.boot counter (pairConfig n3) 0 0) (takenIn n3 n2 ++ [.dump])).any (fun l =>
          decide (l.host.node.state = .leader ∧ l.host.node.matchOf n2 = some 2 ∧
            ∀ a ∈ l.reports, a.source = n2 → a.matchIndex ≠ 2)) = true := by
      decide +kernel
    obtain ⟨l, hrun, hl⟩ := Run.exists_of_execAll hexec
    obtain ⟨hlead, hmatch, hno⟩ := of_decide_eq_true hl
    rcases hall l (hrun.mono fun _ _ _ => trivial) hlead n2 2 hmatch with h0 | ⟨a, ha, hs, hm⟩
    · exact absurd h0 (by decide)
    · exact hno a ha hs hm

end RaftRx.C
