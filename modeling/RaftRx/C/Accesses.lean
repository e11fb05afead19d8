import RaftRx.C.Cursors
import RaftRx.C.Durable

/-!
The reads of `node->log[node_physical_index(node, i)]`.

`node_term_at_index` has no bounds of its own: every caller relies on what the node knows about
the index it passes.  The reads of a phase are listed next to the functions of that phase, each
with the bounds of the log at the moment of the read.

* `Access`, `Access.Inside`: a read and that it is inside the log;
* `Node.latchReads`, `Node.transitionReads`, `Node.dumpReads`: the reads of a tick;
* `Node.Vouches`: what the messages of a term promise about the log of their leader;
* `Node.Indexed`: the order of the indices of a node, and the cursors of a leader;
* `broadcast_inside`, `response_inside`, `latch_inside`: the reads of a node that latches.
-/

namespace RaftRx.C

open Protocol (Role)

variable {σ : Type*} {A : Application σ} {x y : Node σ} {m : Message}

/-! ### Reads -/

/-- A read of the log, with the bounds the log has at that moment. -/
structure Access where
  index : ℤ
  snap : ℤ
  last : ℤ
  deriving DecidableEq, Repr

/-- The read is inside the log. -/
def Access.Inside (a : Access) : Prop := a.snap < a.index ∧ a.index ≤ a.last

instance (a : Access) : Decidable a.Inside := inferInstanceAs (Decidable (_ ∧ _))

/-- The reads of a loop. -/
def readsAlong {S β : Type*} (next : S → β → S) (reads : S → β → List Access) :
    S → List β → List Access
  | _, [] => []
  | s, b :: bs => reads s b ++ readsAlong next reads (next s b) bs

/-- **The rule for the reads of a loop.** -/
lemma readsAlong_inside {S β : Type*} {f : S → β → S} {r : S → β → List Access}
    {I : S → Prop} {l : List β} (hI : ∀ s, ∀ b ∈ l, I s → I (f s b))
    (hreads : ∀ s, ∀ b ∈ l, I s → ∀ a ∈ r s b, a.Inside) :
    ∀ s, I s → (∀ a ∈ readsAlong f r s l, a.Inside) ∧ I (l.foldl f s) := by
  induction l with
  | nil => exact fun s hs => ⟨by simp [readsAlong], hs⟩
  | cons b l ih =>
      intro s hs
      obtain ⟨h1, h2⟩ := ih (fun s b' hb' => hI s b' (List.mem_cons_of_mem _ hb'))
        (fun s b' hb' => hreads s b' (List.mem_cons_of_mem _ hb')) (f s b)
        (hI s b List.mem_cons_self hs)
      refine ⟨fun a ha => ?_, h2⟩
      rcases List.mem_append.mp ha with ha | ha
      · exact hreads s b List.mem_cons_self hs a ha
      · exact h1 a ha

namespace Node

/-- `node->log[node_physical_index(node, index)]` -/
def access (node : Node σ) (index : ℤ) : Access :=
  ⟨index, node.snapshotLastIncludedIndex, node.lastLogIndex⟩

/-- In `node_term_at_index`. -/
def termReads (node : Node σ) (index : ℤ) : List Access :=
  if index = 0 then []
  else if index = node.snapshotLastIncludedIndex then []
  else [node.access index]

/-- In `node_leader_at_index`. -/
def leaderReads (node : Node σ) (index : ℤ) : List Access :=
  if index ≤ 0 ∨ node.hasLogIndex index = false then [] else [node.access index]

/-- The first index `node_send_append_entries_to` sends. -/
def sendFrom (node : Node σ) (peerId : CString) : ℤ :=
  let nextIdx := match node.peerIndex peerId with
    | some i => node.nextIndex.getD i 0
    | none => node.lastLogIndex + 1
  if nextIdx < node.logBaseIndex then node.logBaseIndex else nextIdx

/-- In `node_send_append_entries_to`: the previous entry and the batch. -/
def sendReads (node : Node σ) (peerId : CString) : List Access :=
  let nextIdx := node.sendFrom peerId
  node.termReads (nextIdx - 1) ++ node.leaderReads (nextIdx - 1) ++
    ((List.range (node.lastLogIndex + 1 - nextIdx).toNat).take maxBatch).map fun i : ℕ =>
      node.access (nextIdx + i)

/-- In `node_broadcast_append_entries`. -/
def broadcastReads (node : Node σ) : List Access :=
  readsAlong sendAppendEntriesTo sendReads node node.config.peers

/-- In `node_advance_commit_index`: every candidate down to the one that is committed. -/
def advanceReads (node : Node σ) : List Access :=
  (node.commitCandidates.take (node.commitCandidates.findIdx (fun idx =>
      decide (node.termAtIndex idx = node.currentTerm) &&
        node.isCommittedUnderCurrentConfiguration idx) + 1)).flatMap node.termReads

/-- In `node_handle_append_entries_response`. -/
def responseReads (node : Node σ) (message : Message) : List Access :=
  let node := node.handleTermUpdate message
  if node.state ≠ .leader ∨ message.term ≠ node.currentTerm then []
  else match node.peerIndex message.source with
    | none => []
    | some i =>
      if message.success then
        advanceReads
          { node with
            matchIndex := node.matchIndex.set i message.matchIndex
            nextIndex := node.nextIndex.set i (message.matchIndex + 1) }
      else
        let node :=
          if node.logBaseIndex < node.nextIndex.getD i 0 then
            { node with nextIndex := node.nextIndex.set i (node.nextIndex.getD i 0 - 1) }
          else node
        node.sendReads message.source

/-- In the receive loop. -/
def receiveReads (node : Node σ) (m : Message) : List Access :=
  match m.kind with
  | .appendEntriesResponse => node.responseReads m
  | .appendEntries | .requestVote | .requestVoteResponse => []

/-- In the loop over client commands. -/
def clientReads (node : Node σ) (command : Command) : List Access :=
  if node.log.length < maxLog then
    broadcastReads { node with log := node.log ++ [node.clientEntry command], persistDirty := true }
  else []

/-- In `raft_node_latch_inputs`. -/
def latchReads (node : Node σ) (messages : List Message) (commands : List Command) : List Access :=
  let node :=
    { node with pendingAppendEntries := [], pendingVoteRequests := [], pendingVotes := [] }
  if node.running = false then []
  else
    readsAlong receive receiveReads node (messages.take maxQueue) ++
      (let node := (messages.take maxQueue).foldl receive node
       if node.isLeader then readsAlong appendClientCommand clientReads node (commands.take maxQueue)
       else [])

/-- In the checks of the previous entry in `node_append_entries_from_leader`. -/
def prevReads (node : Node σ) (message : Message) : List Access :=
  if message.prevLogIndex < node.snapshotLastIncludedIndex then []
  else if node.lastLogIndex < message.prevLogIndex then []
  else if 0 < message.prevLogIndex then
    node.termReads message.prevLogIndex ++
      (if node.termAtIndex message.prevLogIndex = message.prevLogTerm ∧
          message.prevLogLeaderId ≠ [] ∧ node.hasLogIndex message.prevLogIndex = true then
        node.leaderReads message.prevLogIndex
      else [])
  else []

/-- In one turn of the merge loop. -/
def mergeReads (acc : Node σ × Bool) (entry : LogEntry) : List Access :=
  if entry.index ≤ acc.1.snapshotLastIncludedIndex then []
  else if acc.1.hasLogIndex entry.index then
    acc.1.termReads entry.index ++
      (if acc.1.termAtIndex entry.index = entry.term ∧ entry.leaderId ≠ [] then
        acc.1.leaderReads entry.index
      else [])
  else []

/-- In `node_append_entries_from_leader`. -/
def appendReads (node : Node σ) (message : Message) : List Access :=
  node.prevReads message ++
    if node.prevMatches message then readsAlong mergeEntry mergeReads (node, false) message.entries
    else []

/-- In `node_handle_append_entries`. -/
def handleAppendReads (node : Node σ) (message : Message) : List Access :=
  let node := node.handleTermUpdate message
  if message.term = node.currentTerm then (node.hearLeader message).appendReads message else []

/-- In the action of a row. -/
def performReads (node : Node σ) : Action → List Access
  | .handleAppendEntries => match node.pendingAppendEntries with
      | [] => []
      | m :: rest => handleAppendReads { node with pendingAppendEntries := rest } m
  | .becomeLeader => node.lead.broadcastReads
  | .sendHeartbeat => node.broadcastReads
  | .becomeCandidate | .handleVoteRequest | .ignoreVote | .backToFollowerDueToTimeout
  | .handleVote | .ignoreVoteRequest => []

/-- In the transition of a tick. -/
def transitionReads (node : Node σ) : List Access :=
  match node.enabled with
  | some row => performReads { node with state := row.target } row.action
  | none => []

/-- In the apply loop. -/
def applyReads (A : Application σ) : ℕ → Node σ → List Access
  | 0, _ => []
  | n + 1, node => node.access (node.lastApplied + 1) :: applyReads A n (node.applyNext A).1

/-- In `node_append_internal_command`. -/
def internalReads (node : Node σ) (op key value : CString) : List Access :=
  if node.isLeader = false ∨ maxLog ≤ node.log.length then []
  else
    broadcastReads
      { node with log := node.log ++ [node.internalEntry op key value], persistDirty := true }

/-- In `node_maybe_drive_membership`. -/
def driveReads (node : Node σ) : List Access :=
  if node.isLeader = false then []
  else if node.membershipState = .stable ∧ node.requestedMembershipPending = true ∧
      node.configState.isJoint = false then
    node.internalReads opEnterJoint "members".toList
      (encodeMemberList node.requestedMembership maxValue)
  else if node.membershipState = .jointPending ∧ node.configState.isJoint = true ∧
      node.configState.index = node.jointConfigIndex then []
  else if node.membershipState = .joint ∧ node.configState.isJoint = true ∧
      node.jointMembersAreCaughtUp = true then
    node.internalReads opLeaveJoint "members".toList
      (encodeMemberList node.requestedMembership maxValue)
  else []

/-- In `node_do_compact`. -/
def compactReads (node : Node σ) : List Access :=
  if node.shouldCompact then
    if node.compactibleIndex ≤ node.snapshotLastIncludedIndex ∨
        node.lastLogIndex < node.compactibleIndex then []
    else node.termReads node.compactibleIndex
  else []

/-- In `raft_node_dump_outputs`. -/
def dumpReads (A : Application σ) (node : Node σ) : List Access :=
  if node.running = false then []
  else
    (if node.isLeader then node.advanceReads else []) ++
      node.advanced.applyReads A node.advanced.toApplyCount ++
      (node.commitAndApply A).1.driveReads ++
      (node.commitAndApply A).1.maybeDriveMembership.compactReads

end Node

/-- The reads of an act of a tick. -/
def Host.reads (A : Application σ) (h : Host σ) : HostAct σ → List Access
  | .latch clock slots ms cs =>
      Node.latchReads { h.node with clockMs := clock, slots := slots } ms cs
  | .transition clock => Node.transitionReads { h.node with clockMs := clock }
  | .dump => h.node.dumpReads A
  | _ => []

/-! ### What the messages of a leader promise -/

/-- Whoever leads in that term, or led in it, has a log up to that index as long as it leads. -/
structure Node.Vouches (x : Node σ) (t k : ℤ) : Prop where
  term : t ≤ x.currentTerm
  last : t = x.currentTerm → x.state ≠ .candidate ∧ (x.state = .leader → k ≤ x.lastLogIndex)

/-- The sender of a batch has the entries that it sent. -/
def Node.Backs (x : Node σ) (m : Message) : Prop :=
  x.Vouches m.term (m.prevLogIndex + m.entries.length) ∧ ∀ e ∈ m.entries, x.Vouches m.term e.index

/-- A node goes on: within a term nobody becomes a candidate, and only candidates become leaders. -/
structure Onward (x y : Node σ) : Prop where
  term : x.currentTerm ≤ y.currentTerm
  role : y.currentTerm = x.currentTerm → (y.state = .candidate → x.state = .candidate) ∧
    (y.state = .leader →
      x.state = .candidate ∨ x.state = .leader ∧ x.lastLogIndex ≤ y.lastLogIndex)

/-- A node that keeps its role and its log. -/
lemma Onward.of_log (ht : x.currentTerm ≤ y.currentTerm) (hs : y.state = x.state)
    (hl : x.lastLogIndex ≤ y.lastLogIndex) : Onward x y := by
  refine ⟨ht, fun _ => ⟨fun h => hs.symm.trans h, fun h => Or.inr ⟨hs.symm.trans h, hl⟩⟩⟩

lemma Onward.refl (x : Node σ) : Onward x x := Onward.of_log le_rfl rfl le_rfl

lemma Onward.trans {z : Node σ} (h : Onward x y) (h' : Onward y z) : Onward x z := by
  have h1 := h.term
  have h2 := h'.term
  refine ⟨h1.trans h2, fun ht => ?_⟩
  obtain ⟨hc, hl⟩ := h.role (by omega)
  obtain ⟨hc', hl'⟩ := h'.role (by omega)
  refine ⟨fun hz => hc (hc' hz), fun hz => ?_⟩
  rcases hl' hz with hy | ⟨hy, hle'⟩
  · exact Or.inl (hc hy)
  · rcases hl hy with hx | ⟨hx, hle⟩
    · exact Or.inl hx
    · exact Or.inr ⟨hx, hle.trans hle'⟩

lemma Node.Vouches.onward {t k : ℤ} (h : x.Vouches t k) (ho : Onward x y) : y.Vouches t k := by
  have h1 := h.term
  have h2 := ho.term
  refine ⟨h1.trans h2, fun ht => ?_⟩
  obtain ⟨hcand, hlast⟩ := h.last (by omega)
  obtain ⟨hcand', hlead⟩ := ho.role (by omega)
  refine ⟨fun hy => hcand (hcand' hy), fun hy => ?_⟩
  rcases hlead hy with hx | ⟨hx, hle⟩
  · exact absurd hx hcand
  · exact (hlast hx).trans hle

lemma Node.Backs.onward (h : x.Backs m) (ho : Onward x y) : y.Backs m :=
  ⟨h.1.onward ho, fun e he => (h.2 e he).onward ho⟩

/-- No batch is acknowledged. -/
def NoAcks (x y : Node σ) : Prop :=
  ∀ m ∈ y.outbox, m.kind = .appendEntriesResponse → m.success = true → m ∈ x.outbox

lemma NoAcks.of_eq (h : y.outbox = x.outbox) : NoAcks x y := fun _ hm _ _ => h ▸ hm

lemma NoAcks.trans {z : Node σ} (h : NoAcks x y) (h' : NoAcks y z) : NoAcks x z :=
  fun m hm hk hok => h m (h' m hm hk hok) hk hok

lemma noAcks_queueMessage (hm : m.kind = .appendEntriesResponse → m.success = false) :
    NoAcks x (x.queueMessage m) := by
  rw [Node.queueMessage]
  split
  · intro m' hm' hk hok
    rcases List.mem_append.mp hm' with h | h
    · exact h
    · rw [List.mem_singleton.mp h] at hk hok
      rw [hm hk] at hok
      exact Bool.noConfusion hok
  · exact NoAcks.of_eq rfl

lemma onward_queueMessage (x : Node σ) (m : Message) : Onward x (x.queueMessage m) := by
  rw [Node.queueMessage]
  split
  · exact Onward.of_log le_rfl rfl le_rfl
  · exact Onward.refl x

/-! ### Indices -/

/-- The indices of a node are in order, the cursors of a leader point into its log or right behind
it, and it can stand by the batches it is about to send. -/
structure Node.Indexed (x : Node σ) : Prop where
  contiguous : x.Contiguous
  snap_nonneg : 0 ≤ x.snapshotLastIncludedIndex
  snap_le : x.snapshotLastIncludedIndex ≤ x.lastApplied
  applied_le : x.lastApplied ≤ x.commitIndex
  commit_le : x.commitIndex ≤ x.lastLogIndex
  cursors : x.state = .leader → ∀ p, ∀ i ∈ x.peerIndex p, x.nextIndex.getD i 0 ≤ x.lastLogIndex + 1
  batches : ∀ m ∈ x.outbox, m.kind = .appendEntries →
    m.source = strncpy maxId x.config.nodeId ∧ x.Backs m

lemma Node.Indexed.inside (h : x.Indexed) : x.Inside := ⟨h.snap_nonneg, h.snap_le, h.commit_le⟩

lemma index_le_of_mem (hx : x.Contiguous) {e : LogEntry} (he : e ∈ x.log) :
    e.index ≤ x.lastLogIndex := by
  obtain ⟨k, hk⟩ := List.mem_iff_getElem?.mp he
  have hidx := hx k e hk
  have hlt := (List.getElem?_eq_some_iff.mp hk).1
  rw [Node.lastLogIndex]
  omega

/-- What a change of other fields leaves alone. -/
lemma Node.Indexed.frame (h : x.Indexed) (ho : Onward x y) (hl : y.log = x.log)
    (hs : y.snapshotLastIncludedIndex = x.snapshotLastIncludedIndex)
    (ha : y.lastApplied = x.lastApplied) (hc : y.commitIndex = x.commitIndex)
    (hid : y.config = x.config)
    (hcur : y.state = .leader → x.state = .leader ∧ y.nextIndex = x.nextIndex)
    (hout : ∀ m ∈ y.outbox, m.kind = .appendEntries → m ∈ x.outbox) : y.Indexed := by
  have hlast : y.lastLogIndex = x.lastLogIndex := by rw [Node.lastLogIndex, Node.lastLogIndex, hs, hl]
  refine ⟨?_, hs ▸ h.snap_nonneg, ?_, ?_, ?_, fun hlead => ?_, fun m hm hk => ?_⟩
  · rw [Node.Contiguous, hs, hl]
    exact h.contiguous
  · rw [hs, ha]
    exact h.snap_le
  · rw [ha, hc]
    exact h.applied_le
  · rw [hc, hlast]
    exact h.commit_le
  · obtain ⟨hx, hn⟩ := hcur hlead
    intro p i hi
    rw [Node.peerIndex, hid] at hi
    rw [hlast, hn]
    exact h.cursors hx p i hi
  · obtain ⟨hsrc, hbacks⟩ := h.batches m (hout m hm hk) hk
    rw [hid]
    exact ⟨hsrc, hbacks.onward ho⟩

/-! ### Reads of single functions -/

lemma termReads_inside {i : ℤ} (hlo : x.snapshotLastIncludedIndex ≤ i) (hhi : i ≤ x.lastLogIndex) :
    ∀ a ∈ x.termReads i, a.Inside := by
  intro a ha
  rw [Node.termReads] at ha
  split at ha
  · exact absurd ha List.not_mem_nil
  · split at ha
    · exact absurd ha List.not_mem_nil
    · rw [List.mem_singleton.mp ha]
      exact ⟨by change x.snapshotLastIncludedIndex < i; omega, hhi⟩

lemma leaderReads_inside (x : Node σ) (i : ℤ) : ∀ a ∈ x.leaderReads i, a.Inside := by
  intro a ha
  rw [Node.leaderReads] at ha
  split at ha
  · exact absurd ha List.not_mem_nil
  · rename_i h
    rw [not_or, Bool.not_eq_false, Node.hasLogIndex_eq_true] at h
    rw [List.mem_singleton.mp ha]
    exact ⟨h.2.1, h.2.2⟩

lemma sendFrom_bounds (hx : x.Indexed) (hlead : x.state = .leader) (p : CString) :
    x.snapshotLastIncludedIndex + 1 ≤ x.sendFrom p ∧ x.sendFrom p ≤ x.lastLogIndex + 1 := by
  have h0 : x.snapshotLastIncludedIndex ≤ x.lastLogIndex := by
    rw [Node.lastLogIndex]
    omega
  have hnext : (match x.peerIndex p with
      | some i => x.nextIndex.getD i 0
      | none => x.lastLogIndex + 1) ≤ x.lastLogIndex + 1 := by
    cases hi : x.peerIndex p with
    | none => exact le_rfl
    | some i => exact hx.cursors hlead p i hi
  rw [Node.sendFrom, Node.logBaseIndex]
  split_ifs
  · omega
  · omega

/-- **A batch** is read inside the log. -/
lemma sendReads_inside (hx : x.Indexed) (hlead : x.state = .leader) (p : CString) :
    ∀ a ∈ x.sendReads p, a.Inside := by
  obtain ⟨hlo, hhi⟩ := sendFrom_bounds hx hlead p
  intro a ha
  rw [Node.sendReads] at ha
  rcases List.mem_append.mp ha with ha | ha
  · rcases List.mem_append.mp ha with ha | ha
    · exact termReads_inside (by omega) (by omega) a ha
    · exact leaderReads_inside x _ a ha
  · obtain ⟨i, hi, rfl⟩ := List.mem_map.mp ha
    have hlt := List.mem_range.mp (List.mem_of_mem_take hi)
    refine ⟨?_, ?_⟩
    · change x.snapshotLastIncludedIndex < x.sendFrom p + i
      omega
    · change x.sendFrom p + i ≤ x.lastLogIndex
      omega

/-- The batch that is sent. -/
lemma sendAppendEntriesTo_eq (x : Node σ) (p : CString) : ∃ m : Message,
    x.sendAppendEntriesTo p = x.queueMessage m ∧ m.kind = .appendEntries ∧
    m.term = x.currentTerm ∧ m.source = strncpy maxId x.config.nodeId ∧
    m.prevLogIndex = x.sendFrom p - 1 ∧
    m.entries = (x.log.drop (x.physicalIndex (x.sendFrom p)).toNat).take maxBatch :=
  ⟨_, rfl, rfl, rfl, rfl, rfl, rfl⟩

/-- A message more. -/
lemma Node.Indexed.queue (hx : x.Indexed) (hm : m.kind = .appendEntries →
    m.source = strncpy maxId x.config.nodeId ∧ x.Backs m) : (x.queueMessage m).Indexed := by
  rw [Node.queueMessage]
  split
  · have ho : Onward x { x with outbox := x.outbox ++ [m] } := Onward.of_log le_rfl rfl le_rfl
    refine ⟨hx.contiguous, hx.snap_nonneg, hx.snap_le, hx.applied_le, hx.commit_le, hx.cursors, ?_⟩
    intro m' hm' hk
    rcases List.mem_append.mp hm' with h | h
    · exact ⟨(hx.batches m' h hk).1, (hx.batches m' h hk).2.onward ho⟩
    · rw [List.mem_singleton.mp h] at hk ⊢
      exact ⟨(hm hk).1, (hm hk).2.onward ho⟩
  · exact hx

lemma Node.Indexed.send (hx : x.Indexed) (hlead : x.state = .leader) (p : CString) :
    (x.sendAppendEntriesTo p).Indexed := by
  obtain ⟨m, heq, -, hterm, hsrc, hprev, hentries⟩ := sendAppendEntriesTo_eq x p
  obtain ⟨hlo, hhi⟩ := sendFrom_bounds hx hlead p
  have hvouch : ∀ k ≤ x.lastLogIndex, x.Vouches m.term k := fun k hk =>
    ⟨hterm.le, fun _ => ⟨by rw [hlead]; decide, fun _ => hk⟩⟩
  rw [heq]
  refine hx.queue fun _ => ⟨hsrc, hvouch _ ?_, fun e he => hvouch _ ?_⟩
  · rw [hprev, hentries, List.length_take, List.length_drop, Node.physicalIndex]
    rw [Node.lastLogIndex] at hhi ⊢
    omega
  · rw [hentries] at he
    exact index_le_of_mem hx.contiguous (List.mem_of_mem_drop (List.mem_of_mem_take he))

/-- **A broadcast** of a leader. -/
lemma broadcast_inside (hx : x.Indexed) (hlead : x.state = .leader) :
    (∀ a ∈ x.broadcastReads, a.Inside) ∧ x.broadcastAppendEntries.Indexed := by
  have h := readsAlong_inside (f := Node.sendAppendEntriesTo) (r := Node.sendReads)
    (I := fun y : Node σ => y.Indexed ∧ y.state = .leader) (l := x.config.peers)
    (fun y p _ hy => ⟨hy.1.send hy.2 p, (still_sendAppendEntriesTo y p).state.trans hy.2⟩)
    (fun y p _ hy => sendReads_inside hy.1 hy.2 p) x ⟨hx, hlead⟩
  exact ⟨h.1, h.2.1⟩

lemma onward_broadcast (x : Node σ) : Onward x x.broadcastAppendEntries := by
  have h := still_broadcastAppendEntries x
  have hlog : x.broadcastAppendEntries.lastLogIndex = x.lastLogIndex := by
    rw [Node.broadcastAppendEntries]
    induction x.config.peers using List.reverseRecOn with
    | nil => rfl
    | append_singleton ps p ih =>
        rw [List.foldl_append, List.foldl_cons, List.foldl_nil]
        generalize ps.foldl Node.sendAppendEntriesTo x = z at ih
        rw [Node.sendAppendEntriesTo, Node.queueMessage, ← ih]
        split <;> rfl
  exact Onward.of_log h.term.ge h.state hlog.ge

lemma noAcks_send (x : Node σ) (p : CString) : NoAcks x (x.sendAppendEntriesTo p) := by
  obtain ⟨m, heq, hk, -⟩ := sendAppendEntriesTo_eq x p
  rw [heq]
  exact noAcks_queueMessage fun h => absurd (hk.symm.trans h) (by decide)

lemma noAcks_broadcast (x : Node σ) : NoAcks x x.broadcastAppendEntries := by
  have h : ∀ (ps : List CString) (y : Node σ), NoAcks y (ps.foldl Node.sendAppendEntriesTo y) := by
    intro ps
    induction ps with
    | nil => exact fun y => NoAcks.of_eq rfl
    | cons p ps ih => exact fun y => (noAcks_send y p).trans (ih _)
  exact h _ x

lemma onward_append (x : Node σ) (e : LogEntry) :
    Onward x { x with log := x.log ++ [e], persistDirty := true } := by
  refine Onward.of_log le_rfl rfl ?_
  change x.snapshotLastIncludedIndex + (x.log.length : ℤ) ≤
    x.snapshotLastIncludedIndex + ((x.log ++ [e]).length : ℤ)
  rw [List.length_append]
  omega

/-- An entry more. -/
lemma Node.Indexed.append (hx : x.Indexed) (e : LogEntry) (he : e.index = x.lastLogIndex + 1) :
    Node.Indexed { x with log := x.log ++ [e], persistDirty := true } := by
  have hlast : Node.lastLogIndex { x with log := x.log ++ [e], persistDirty := true } =
      x.lastLogIndex + 1 := by
    change x.snapshotLastIncludedIndex + ((x.log ++ [e]).length : ℤ) =
      x.snapshotLastIncludedIndex + x.log.length + 1
    rw [List.length_append]
    push_cast
    simp only [List.length_singleton, Nat.cast_one]
    omega
  have ho := onward_append x e
  refine ⟨Numbered.append_end hx.contiguous he, hx.snap_nonneg, hx.snap_le, hx.applied_le, ?_, ?_, ?_⟩
  · have h := hx.commit_le
    change x.commitIndex ≤ _
    omega
  · intro hlead p i hi
    have h := hx.cursors hlead p i hi
    change x.nextIndex.getD i 0 ≤ _
    omega
  · exact fun m hm hk => ⟨(hx.batches m hm hk).1, (hx.batches m hm hk).2.onward ho⟩

/-- **The search for a commit index** goes through the uncommitted entries only. -/
lemma advanceReads_inside (hx : x.Indexed) : ∀ a ∈ x.advanceReads, a.Inside := by
  have h1 := hx.snap_le
  have h2 := hx.applied_le
  intro a ha
  obtain ⟨idx, hidx, ha⟩ := List.mem_flatMap.mp ha
  have hmem := List.mem_of_mem_take hidx
  rw [Node.commitCandidates, List.mem_map] at hmem
  obtain ⟨i, hi, rfl⟩ := hmem
  rw [List.mem_range] at hi
  exact termReads_inside (by omega) (by omega) a ha

lemma Node.Indexed.advance (hx : x.Indexed) : x.advanceCommitIndex.Indexed := by
  rcases advanceCommitIndex_cases x with h | ⟨k, hlt, hle, h⟩
  · rw [h]
    exact hx
  · have h1 := hx.applied_le
    rw [h]
    refine ⟨hx.contiguous, hx.snap_nonneg, hx.snap_le, ?_, hle, hx.cursors, fun m hm hk => ?_⟩
    · change x.lastApplied ≤ k
      omega
    · exact ⟨(hx.batches m hm hk).1, (hx.batches m hm hk).2.onward (Onward.of_log le_rfl rfl le_rfl)⟩

/-! ### Latching -/

lemma onward_handleTermUpdate (x : Node σ) (m : Message) : Onward x (x.handleTermUpdate m) := by
  rw [Node.handleTermUpdate]
  split
  · exact Onward.of_log (le_of_lt ‹_›) rfl le_rfl
  · exact Onward.refl x

lemma Node.Indexed.termUpdate (hx : x.Indexed) (m : Message) : (x.handleTermUpdate m).Indexed := by
  have ho := onward_handleTermUpdate x m
  rw [Node.handleTermUpdate] at ho ⊢
  split
  · rename_i h
    rw [if_pos h] at ho
    exact hx.frame ho rfl rfl rfl rfl rfl (fun hl => ⟨hl, rfl⟩) fun _ hm _ => hm
  · exact hx

/-- A cursor that is moved to a place behind an entry of the log. -/
lemma Node.Indexed.setNext (hx : x.Indexed) {i : ℕ} {k : ℤ} (matchIndex : List ℤ)
    (hk : k ≤ x.lastLogIndex + 1) :
    Node.Indexed { x with matchIndex := matchIndex, nextIndex := x.nextIndex.set i k } := by
  have ho : Onward x { x with matchIndex := matchIndex, nextIndex := x.nextIndex.set i k } :=
    Onward.of_log le_rfl rfl le_rfl
  refine ⟨hx.contiguous, hx.snap_nonneg, hx.snap_le, hx.applied_le, hx.commit_le, ?_, ?_⟩
  · intro hlead p j hj
    change (x.nextIndex.set i k).getD j 0 ≤ x.lastLogIndex + 1
    have hold := hx.cursors hlead p j hj
    by_cases hij : i = j
    · subst hij
      rw [List.getD_eq_getElem?_getD, List.getElem?_set_self']
      cases hget : x.nextIndex[i]? with
      | none =>
          rw [List.getD_eq_getElem?_getD, hget] at hold
          exact hold
      | some w => exact hk
    · rw [List.getD_eq_getElem?_getD, List.getElem?_set_ne hij, ← List.getD_eq_getElem?_getD]
      exact hold
  · exact fun m hm hk => ⟨(hx.batches m hm hk).1, (hx.batches m hm hk).2.onward ho⟩

/-- **An answer to a batch**: the leader believes it. -/
lemma response_inside (hx : x.Indexed)
    (hm : m.success = true → x.Vouches m.term m.matchIndex) :
    (∀ a ∈ x.responseReads m, a.Inside) ∧ (x.handleAppendEntriesResponse m).Indexed := by
  have hy := hx.termUpdate m
  have hvouch := fun hok => (hm hok).onward (onward_handleTermUpdate x m)
  rw [Node.responseReads, Node.handleAppendEntriesResponse]
  dsimp only
  generalize x.handleTermUpdate m = y at hy hvouch
  split
  · exact ⟨by simp, hy⟩
  · rename_i hs
    simp only [not_or, not_not] at hs
    cases hi : y.peerIndex m.source with
    | none => exact ⟨by simp, hy⟩
    | some i =>
        dsimp only
        split
        · rename_i hok
          have hle := ((hvouch hok).last hs.2).2 hs.1
          have hset := hy.setNext (i := i) (y.matchIndex.set i m.matchIndex)
            (k := m.matchIndex + 1) (by omega)
          exact ⟨advanceReads_inside hset, hset.advance⟩
        · have hback : Node.Indexed (if y.logBaseIndex < y.nextIndex.getD i 0 then
              { y with nextIndex := y.nextIndex.set i (y.nextIndex.getD i 0 - 1) } else y) ∧
              (if y.logBaseIndex < y.nextIndex.getD i 0 then
                { y with nextIndex := y.nextIndex.set i (y.nextIndex.getD i 0 - 1) }
              else y).state = .leader := by
            split
            · have hle := hy.cursors hs.1 m.source i hi
              exact ⟨hy.setNext (i := i) (k := y.nextIndex.getD i 0 - 1) y.matchIndex (by omega), hs.1⟩
            · exact ⟨hy, hs.1⟩
          exact ⟨sendReads_inside hback.1 hback.2 _, hback.1.send hback.2 _⟩

lemma lastLogIndex_send (x : Node σ) (p : CString) :
    (x.sendAppendEntriesTo p).lastLogIndex = x.lastLogIndex := by
  rw [Node.sendAppendEntriesTo, Node.queueMessage]
  split <;> rfl

lemma onward_response (x : Node σ) (m : Message) : Onward x (x.handleAppendEntriesResponse m) := by
  have hstill := still_handleAppendEntriesResponse x m
  have hup := onward_handleTermUpdate x m
  refine Onward.of_log (hup.term.trans hstill.term.ge)
    (hstill.state.trans (handleTermUpdate_state x m)) ?_
  have hlog : x.lastLogIndex = (x.handleTermUpdate m).lastLogIndex := by
    rw [Node.handleTermUpdate]
    split <;> rfl
  rw [hlog, Node.handleAppendEntriesResponse]
  dsimp only
  generalize x.handleTermUpdate m = y
  split
  · exact le_rfl
  · split
    · exact le_rfl
    · split
      · rename_i i _ _
        rcases advanceCommitIndex_cases { y with
          matchIndex := y.matchIndex.set i m.matchIndex
          nextIndex := y.nextIndex.set i (m.matchIndex + 1) } with h | ⟨k, -, -, h⟩
        · rw [h]
          exact le_rfl
        · rw [h]
          exact le_rfl
      · rw [lastLogIndex_send]
        split <;> exact le_rfl

lemma noAcks_response (x : Node σ) (m : Message) : NoAcks x (x.handleAppendEntriesResponse m) := by
  have hup : NoAcks x (x.handleTermUpdate m) := NoAcks.of_eq (handleTermUpdate_outbox x m)
  refine hup.trans ?_
  rw [Node.handleAppendEntriesResponse]
  dsimp only
  generalize x.handleTermUpdate m = y
  split
  · exact NoAcks.of_eq rfl
  · split
    · exact NoAcks.of_eq rfl
    · split
      · rename_i i _ _
        rcases advanceCommitIndex_cases { y with
          matchIndex := y.matchIndex.set i m.matchIndex
          nextIndex := y.nextIndex.set i (m.matchIndex + 1) } with h | ⟨k, -, -, h⟩
        · rw [h]
          exact NoAcks.of_eq rfl
        · rw [h]
          exact NoAcks.of_eq rfl
      · refine NoAcks.trans ?_ (noAcks_send _ _)
        split <;> exact NoAcks.of_eq rfl

/-- **A client's command**: the entry is broadcast. -/
lemma client_inside (hx : x.Indexed) (hlead : x.state = .leader) (c : Command) :
    (∀ a ∈ x.clientReads c, a.Inside) ∧ (x.appendClientCommand c).Indexed := by
  rw [Node.clientReads, Node.appendClientCommand]
  split
  · refine broadcast_inside ?_ hlead
    exact hx.append (x.clientEntry c) rfl
  · exact ⟨by simp, hx⟩

lemma onward_client (x : Node σ) (c : Command) : Onward x (x.appendClientCommand c) := by
  rw [Node.appendClientCommand]
  split
  · have h := onward_broadcast
      { x with log := x.log ++ [x.clientEntry c], persistDirty := true }
    exact (onward_append x _).trans h
  · exact Onward.refl x

lemma noAcks_client (x : Node σ) (c : Command) : NoAcks x (x.appendClientCommand c) := by
  rw [Node.appendClientCommand]
  split
  · exact NoAcks.trans (NoAcks.of_eq rfl) (noAcks_broadcast _)
  · exact NoAcks.of_eq rfl

/-- What a node may believe of the answers it hears. -/
def Node.Believes (x : Node σ) (ms : List Message) : Prop :=
  ∀ m ∈ ms, m.kind = .appendEntriesResponse → m.success = true → x.Vouches m.term m.matchIndex

lemma Node.Believes.onward {ms : List Message} (h : x.Believes ms) (ho : Onward x y) :
    y.Believes ms := fun m hm hk hok => (h m hm hk hok).onward ho

lemma receive_inside {ms : List Message} (hx : x.Indexed) (hb : x.Believes ms) (hm : m ∈ ms) :
    (∀ a ∈ x.receiveReads m, a.Inside) ∧ (x.receive m).Indexed ∧ Onward x (x.receive m) ∧
      NoAcks x (x.receive m) := by
  rw [Node.receiveReads, Node.receive]
  cases hk : m.kind with
  | appendEntriesResponse =>
      obtain ⟨h1, h2⟩ := response_inside hx fun hok => hb m hm hk hok
      exact ⟨h1, h2, onward_response x m, noAcks_response x m⟩
  | appendEntries | requestVote | requestVoteResponse =>
      refine ⟨by simp, ?_, Onward.of_log le_rfl rfl le_rfl, NoAcks.of_eq rfl⟩
      exact hx.frame (Onward.of_log le_rfl rfl le_rfl) rfl rfl rfl rfl rfl (fun hl => ⟨hl, rfl⟩)
        fun _ hm _ => hm

/-- **Latching** reads inside the log. -/
theorem latch_inside (hx : x.Indexed) {ms : List Message} (hb : x.Believes ms) (cs : List Command) :
    (∀ a ∈ x.latchReads ms cs, a.Inside) ∧ (x.latchInputs ms cs).Indexed ∧
      Onward x (x.latchInputs ms cs) ∧ NoAcks x (x.latchInputs ms cs) := by
  have hclear : Node.Indexed
      { x with pendingAppendEntries := [], pendingVoteRequests := [], pendingVotes := [] } :=
    hx.frame (Onward.of_log le_rfl rfl le_rfl) rfl rfl rfl rfl rfl (fun hl => ⟨hl, rfl⟩)
      fun _ hm _ => hm
  rw [Node.latchReads, Node.latchInputs]
  dsimp only
  split
  · refine ⟨by simp, ?_, Onward.of_log le_rfl rfl le_rfl, fun m hm => absurd hm List.not_mem_nil⟩
    exact hclear.frame (Onward.of_log le_rfl rfl le_rfl) rfl rfl rfl rfl rfl (fun hl => ⟨hl, rfl⟩)
      fun _ hm => absurd hm List.not_mem_nil
  · obtain ⟨hreads, ⟨hnode, hon, hacks⟩⟩ := readsAlong_inside (f := Node.receive)
      (r := Node.receiveReads) (l := ms.take maxQueue)
      (I := fun y : Node σ => y.Indexed ∧ Onward x y ∧ NoAcks x y)
      (fun y m hm hy => by
        obtain ⟨-, h2, h3, h4⟩ :=
          receive_inside hy.1 (hb.onward hy.2.1) (List.mem_of_mem_take hm)
        exact ⟨h2, hy.2.1.trans h3, hy.2.2.trans h4⟩)
      (fun y m hm hy => (receive_inside hy.1 (hb.onward hy.2.1) (List.mem_of_mem_take hm)).1)
      _ ⟨hclear, Onward.of_log le_rfl rfl le_rfl, NoAcks.of_eq rfl⟩
    split
    · rename_i hlead
      have hstate : (List.foldl Node.receive { x with
          pendingAppendEntries := [], pendingVoteRequests := [], pendingVotes := [] }
          (ms.take maxQueue)).state = .leader := by
        simp only [Node.isLeader, Bool.and_eq_true, decide_eq_true_eq] at hlead
        exact hlead.2
      obtain ⟨hreads', ⟨hnode', -, hon', hacks'⟩⟩ := readsAlong_inside
        (f := Node.appendClientCommand) (r := Node.clientReads) (l := cs.take maxQueue)
        (I := fun y : Node σ => y.Indexed ∧ y.state = .leader ∧ Onward x y ∧ NoAcks x y)
        (fun y c _ hy => ⟨(client_inside hy.1 hy.2.1 c).2,
          (still_appendClientCommand y c).state.trans hy.2.1, hy.2.2.1.trans (onward_client y c),
          hy.2.2.2.trans (noAcks_client y c)⟩)
        (fun y c _ hy => (client_inside hy.1 hy.2.1 c).1) _ ⟨hnode, hstate, hon, hacks⟩
      refine ⟨fun a ha => ?_, hnode', hon', hacks'⟩
      rcases List.mem_append.mp ha with ha | ha
      · exact hreads a ha
      · exact hreads' a ha
    · refine ⟨fun a ha => ?_, hnode, hon, hacks⟩
      rw [List.append_nil] at ha
      exact hreads a ha

end RaftRx.C
