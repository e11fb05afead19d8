import RaftRx.C.AppendMerge
import RaftRx.C.Accesses
import RaftRx.C.Completeness
import RaftRx.Library.Backoff

/-!
A leader brings the log of a follower up to date.

One round is the exchange of `node_send_append_entries_to`, `node_handle_append_entries` and
`node_handle_append_entries_response`: a batch, its reply, and what the leader makes of the reply.

* `Node.batchFor`, `exchange`: the batch and the round;
* `Paired`: a leader and a follower whose logs overlap, `probe`: their state as one of the search of
  `Library.Backoff`;
* `exchange_step`: a round is a step of that search;
* `exchange_catches_up`: after a bounded number of rounds the follower has the leader's log, and
  keeps it;
* `left_behind`: a follower whose log ends before the leader's snapshot never changes;
* `catches_up_in_run`: the rounds between a new leader and any other node of a run of safe ticks.
-/

namespace RaftRx.C

open Protocol

variable {σ : Type*} {A : Application σ} {x ℓ f : Node σ} {i : ℕ}

/-! ### Rounds -/

/-- The batch `node_send_append_entries_to` queues. -/
def Node.batchFor (x : Node σ) (peerId : CString) : Message :=
  { kind := .appendEntries
    term := x.currentTerm
    source := strncpy maxId x.config.nodeId
    target := strncpy maxId peerId
    prevLogIndex := x.sendFrom peerId - 1
    prevLogTerm := x.termAtIndex (x.sendFrom peerId - 1)
    prevLogLeaderId := strncpy maxId (x.leaderAtIndex (x.sendFrom peerId - 1))
    leaderCommit := x.commitIndex
    entries := (x.log.drop (x.physicalIndex (x.sendFrom peerId)).toNat).take maxBatch }

lemma sendAppendEntriesTo_batchFor (x : Node σ) (p : CString) :
    x.sendAppendEntriesTo p = x.queueMessage (x.batchFor p) := rfl

/-- **One round**: the follower handles the batch the leader has for it, and the leader handles the
reply. -/
def exchange (A : Application σ) (r : Node σ × Node σ) : Node σ × Node σ :=
  let m := r.1.batchFor r.2.config.nodeId
  (r.1.handleAppendEntriesResponse (r.2.appendReply A m), r.2.handleAppendEntries A m)

/-- The index from which on both nodes have live entries. -/
def commonBase (ℓ f : Node σ) : ℤ := max ℓ.snapshotLastIncludedIndex f.snapshotLastIncludedIndex

/-- The leader's entries behind the common base. -/
def offered (ℓ f : Node σ) : List LogEntry :=
  ℓ.log.drop (commonBase ℓ f - ℓ.snapshotLastIncludedIndex).toNat

/-- The follower's entries behind the common base. -/
def present (ℓ f : Node σ) : List LogEntry :=
  f.log.drop (commonBase ℓ f - f.snapshotLastIncludedIndex).toNat

/-- What the leader shows behind the end of its log: a slot of the array, without a leader. -/
def shown (ℓ f : Node σ) (q : ℕ) : LogEntry :=
  { ℓ.slots (commonBase ℓ f - ℓ.snapshotLastIncludedIndex + q) with leaderId := [] }

/-- **A leader and a follower whose logs overlap**: neither snapshot lies beyond the other log, both
agree on the term at the common base, and the follower has room for the leader's log. -/
structure Paired (ℓ f : Node σ) (i : ℕ) : Prop where
  leader : ℓ.state = .leader
  term : f.currentTerm ≤ ℓ.currentTerm
  peer : ℓ.peerIndex f.config.nodeId = some i
  slot : i < ℓ.nextIndex.length
  short : f.config.nodeId.length < maxId
  contiguous : ℓ.Contiguous
  leaders : ∀ e ∈ ℓ.log, e.leaderId.length < maxId
  snap : 0 ≤ ℓ.snapshotLastIncludedIndex
  snap' : 0 ≤ f.snapshotLastIncludedIndex
  full : f.log.length ≤ maxLog
  room : ℓ.lastLogIndex ≤ f.snapshotLastIncludedIndex + maxLog
  reach : ℓ.snapshotLastIncludedIndex ≤ f.lastLogIndex
  reach' : f.snapshotLastIncludedIndex ≤ ℓ.lastLogIndex
  base : f.termAtIndex (commonBase ℓ f) = ℓ.termAtIndex (commonBase ℓ f)
  cursor : commonBase ℓ f + 1 ≤ ℓ.nextIndex.getD i 0

/-- The pair as a state of the search. -/
def probe (ℓ f : Node σ) (i : ℕ) : Backoff.Probe LogEntry :=
  { next := (ℓ.nextIndex.getD i 0 - 1 - commonBase ℓ f).toNat, log := present ℓ f }

namespace Paired

/-- The batch begins behind the cursor. -/
lemma sendFrom (h : Paired ℓ f i) :
    ℓ.sendFrom f.config.nodeId = commonBase ℓ f + (probe ℓ f i).next + 1 := by
  have hc := h.cursor
  have hb : ℓ.snapshotLastIncludedIndex ≤ commonBase ℓ f := le_max_left _ _
  rw [Node.sendFrom, h.peer]
  dsimp only [probe]
  rw [if_neg (by rw [Node.logBaseIndex]; omega)]
  omega

/-- The entries of the batch. -/
lemma entries (h : Paired ℓ f i) : (ℓ.batchFor f.config.nodeId).entries =
    ((offered ℓ f).drop (probe ℓ f i).next).take maxBatch := by
  have hb : ℓ.snapshotLastIncludedIndex ≤ commonBase ℓ f := le_max_left _ _
  have hphys : (ℓ.physicalIndex (commonBase ℓ f + (probe ℓ f i).next + 1)).toNat =
      (commonBase ℓ f - ℓ.snapshotLastIncludedIndex).toNat + (probe ℓ f i).next := by
    rw [Node.physicalIndex]
    omega
  rw [Node.batchFor, h.sendFrom, hphys, offered, List.drop_drop]

/-- The entry the leader compares with behind the common base. -/
lemma shown_term (h : Paired ℓ f i) (q : ℕ) :
    ℓ.termAtIndex (commonBase ℓ f + q + 1) =
      (((offered ℓ f)[q]?).getD (shown ℓ f q)).term := by
  have hb : ℓ.snapshotLastIncludedIndex ≤ commonBase ℓ f := le_max_left _ _
  have hs := h.snap
  have hphys : ℓ.physicalIndex (commonBase ℓ f + q + 1) =
      commonBase ℓ f - ℓ.snapshotLastIncludedIndex + q := by
    rw [Node.physicalIndex]
    omega
  rw [Node.termAtIndex, if_neg (by omega), if_neg (by omega), Node.entryAt, hphys, Node.slot,
    if_pos (by omega), offered, List.getElem?_drop]
  have hnat : (commonBase ℓ f - ℓ.snapshotLastIncludedIndex + q).toNat =
      (commonBase ℓ f - ℓ.snapshotLastIncludedIndex).toNat + q := by omega
  rw [hnat]
  cases ℓ.log[(commonBase ℓ f - ℓ.snapshotLastIncludedIndex).toNat + q]? <;> rfl

/-- Its leader. -/
lemma shown_leader (h : Paired ℓ f i) (q : ℕ) :
    strncpy maxId (ℓ.leaderAtIndex (commonBase ℓ f + q + 1)) =
      (((offered ℓ f)[q]?).getD (shown ℓ f q)).leaderId := by
  have hb : ℓ.snapshotLastIncludedIndex ≤ commonBase ℓ f := le_max_left _ _
  have hs := h.snap
  have hnat : commonBase ℓ f + q + 1 = ℓ.snapshotLastIncludedIndex +
      ((commonBase ℓ f - ℓ.snapshotLastIncludedIndex).toNat + q : ℕ) + 1 := by omega
  rw [offered, List.getElem?_drop]
  cases hget : ℓ.log[(commonBase ℓ f - ℓ.snapshotLastIncludedIndex).toNat + q]? with
  | some e =>
      rw [hnat, Node.leaderAtIndex_eq hs hget, Option.getD_some,
        strncpy_self (h.leaders e (List.mem_of_getElem? hget))]
  | none =>
      have hlen := List.getElem?_eq_none_iff.mp hget
      have hhas : ℓ.hasLogIndex (commonBase ℓ f + q + 1) = false := by
        rw [Bool.eq_false_iff, Ne, Node.hasLogIndex_eq_true]
        omega
      rw [Node.leaderAtIndex, if_pos (Or.inr hhas)]
      rfl

/-- The follower's entries behind the common base. -/
lemma present_getElem? (f : Node σ) (h : Paired ℓ f i) {q : ℕ} {e : LogEntry}
    (hq : (present ℓ f)[q]? = some e) :
    f.termAtIndex (commonBase ℓ f + q + 1) = e.term ∧
      f.leaderAtIndex (commonBase ℓ f + q + 1) = e.leaderId ∧
      f.hasLogIndex (commonBase ℓ f + q + 1) = true := by
  have hb : f.snapshotLastIncludedIndex ≤ commonBase ℓ f := le_max_right _ _
  have hidx : commonBase ℓ f + q + 1 = f.snapshotLastIncludedIndex +
      ((commonBase ℓ f - f.snapshotLastIncludedIndex).toNat + q : ℕ) + 1 := by omega
  rw [present, List.getElem?_drop] at hq
  rw [hidx]
  refine ⟨Node.termAtIndex_eq h.snap' hq, Node.leaderAtIndex_eq h.snap' hq, ?_⟩
  have hlt := (List.getElem?_eq_some_iff.mp hq).1
  rw [Node.hasLogIndex_eq_true]
  omega

/-- The follower's log ends that far behind the common base. -/
lemma length_present (h : Paired ℓ f i) :
    commonBase ℓ f + (present ℓ f).length = f.lastLogIndex := by
  have hr := h.reach
  have hb : commonBase ℓ f ≤ f.lastLogIndex := by
    rw [commonBase, Node.lastLogIndex] at *
    omega
  have hb' : f.snapshotLastIncludedIndex ≤ commonBase ℓ f := le_max_right _ _
  rw [present, List.length_drop]
  rw [Node.lastLogIndex] at *
  omega

/-- **The follower's checks** are the receiver's. -/
lemma prevMatches (h : Paired ℓ f i) : f.prevMatches (ℓ.batchFor f.config.nodeId) =
    Backoff.accepts clashes (offered ℓ f) (shown ℓ f) (present ℓ f) (probe ℓ f i).next := by
  have hprev : (ℓ.batchFor f.config.nodeId).prevLogIndex =
      commonBase ℓ f + (probe ℓ f i).next := by
    change ℓ.sendFrom f.config.nodeId - 1 = _
    rw [h.sendFrom]
    ring
  have hterm : (ℓ.batchFor f.config.nodeId).prevLogTerm =
      ℓ.termAtIndex (commonBase ℓ f + (probe ℓ f i).next) := by
    rw [← hprev]
    rfl
  have hlead : (ℓ.batchFor f.config.nodeId).prevLogLeaderId =
      strncpy maxId (ℓ.leaderAtIndex (commonBase ℓ f + (probe ℓ f i).next)) := by
    rw [← hprev]
    rfl
  have hb : ℓ.snapshotLastIncludedIndex ≤ commonBase ℓ f := le_max_left _ _
  have hb' : f.snapshotLastIncludedIndex ≤ commonBase ℓ f := le_max_right _ _
  have hlast := h.length_present
  have hs := h.snap
  have hfrom : f.snapshotLastIncludedIndex ≤ commonBase ℓ f + (probe ℓ f i).next := by omega
  rw [Node.prevMatches, hprev, hterm, hlead, ← hlast, decide_eq_true hfrom]
  cases hnext : (probe ℓ f i).next with
  | zero =>
      have hno : f.hasLogIndex (commonBase ℓ f) = false ∨
          strncpy maxId (ℓ.leaderAtIndex (commonBase ℓ f)) = [] := by
        rcases le_total ℓ.snapshotLastIncludedIndex f.snapshotLastIncludedIndex with hle | hle
        · left
          rw [Bool.eq_false_iff, Ne, Node.hasLogIndex_eq_true, commonBase, max_eq_right hle]
          omega
        · right
          have hhas : ℓ.hasLogIndex (commonBase ℓ f) = false := by
            rw [Bool.eq_false_iff, Ne, Node.hasLogIndex_eq_true, commonBase, max_eq_left hle]
            omega
          rw [Node.leaderAtIndex, if_pos (Or.inr hhas)]
          rfl
      simp only [Nat.cast_zero, add_zero, h.base, Backoff.accepts]
      rcases hno with hno | hno
      · simp [hno]
      · simp [hno]
  | succ q =>
      have hcast : commonBase ℓ f + ((q + 1 : ℕ) : ℤ) = commonBase ℓ f + q + 1 := by
        push_cast
        ring
      rw [hcast, h.shown_term q, h.shown_leader q, Backoff.accepts]
      cases hget : (present ℓ f)[q]? with
      | none =>
          have hlen := List.getElem?_eq_none_iff.mp hget
          rw [Option.any_none, decide_eq_false (by omega)]
          simp
      | some e =>
          have hlt := (List.getElem?_eq_some_iff.mp hget).1
          obtain ⟨ht, hl, hhas⟩ := present_getElem? f h hget
          rw [ht, hl, hhas, Option.any_some, clashes, decide_eq_true (by omega),
            decide_eq_true (by omega)]
          simp

/-- The offered entries carry their indices. -/
lemma numbered (h : Paired ℓ f i) {p : ℕ} : C.Numbered f.snapshotLastIncludedIndex
    ((commonBase ℓ f - f.snapshotLastIncludedIndex).toNat + p)
    (((offered ℓ f).drop p).take maxBatch) := by
  have hb : ℓ.snapshotLastIncludedIndex ≤ commonBase ℓ f := le_max_left _ _
  have hb' : f.snapshotLastIncludedIndex ≤ commonBase ℓ f := le_max_right _ _
  intro k e he
  have hmem := getElem?_of_isPrefix (List.take_prefix _ _) he
  rw [List.getElem?_drop, offered, List.getElem?_drop] at hmem
  have := h.contiguous _ e hmem
  omega

/-- They end with the leader's log. -/
lemma length_offered (h : Paired ℓ f i) :
    commonBase ℓ f + (offered ℓ f).length = ℓ.lastLogIndex := by
  have hr := h.reach'
  have hb : commonBase ℓ f ≤ ℓ.lastLogIndex := by
    rw [commonBase, Node.lastLogIndex] at *
    omega
  have hb' : ℓ.snapshotLastIncludedIndex ≤ commonBase ℓ f := le_max_left _ _
  rw [offered, List.length_drop]
  rw [Node.lastLogIndex] at *
  omega

/-- **The log of the follower** after an accepted batch: what is not behind the common base stays,
and the batch is written over the rest. -/
lemma accepted_log (h : Paired ℓ f i)
    (hacc : f.prevMatches (ℓ.batchFor f.config.nodeId) = true) :
    (f.answered A (ℓ.batchFor f.config.nodeId)).1.log =
      f.log.take (commonBase ℓ f - f.snapshotLastIncludedIndex).toNat ++
        Backoff.taken clashes (offered ℓ f) maxBatch (probe ℓ f i) ∧
      (f.answered A (ℓ.batchFor f.config.nodeId)).1.log.length ≤ maxLog := by
  obtain ⟨d, hd⟩ : ∃ d, d = (commonBase ℓ f - f.snapshotLastIncludedIndex).toNat := ⟨_, rfl⟩
  obtain ⟨p, hp⟩ : ∃ p, p = (probe ℓ f i).next := ⟨_, rfl⟩
  have hb' : f.snapshotLastIncludedIndex ≤ commonBase ℓ f := le_max_right _ _
  have hlen := h.length_present
  have hlenL := h.length_offered
  have hF : (present ℓ f).length = f.log.length - d := by rw [present, List.length_drop, hd]
  have hroom := h.room
  have hfull := h.full
  have hple : p ≤ (present ℓ f).length := by
    have hle := (prev_bounds hacc).2
    have hprev : (ℓ.batchFor f.config.nodeId).prevLogIndex = commonBase ℓ f + p := by
      change ℓ.sendFrom f.config.nodeId - 1 = _
      rw [h.sendFrom, hp]
      ring
    omega
  have hdle : d ≤ f.log.length := by
    rw [Node.lastLogIndex] at hlen
    omega
  have hover : (overlay clashes (f.log.drop (d + p))
      (((offered ℓ f).drop p).take maxBatch)).length ≤ maxLog - (d + p) := by
    refine (overlay_length_le _ _).trans ?_
    rw [List.length_drop, List.length_take, List.length_drop]
    rw [Node.lastLogIndex] at hlen
    omega
  have hlog := answered_log (A := A) (x := f) (m := ℓ.batchFor f.config.nodeId) (i := d + p) h.snap'
    h.full h.term hacc (by rw [h.entries, ← hp, hd]; exact h.numbered) (by omega)
  rw [h.entries, ← hp] at hlog
  refine ⟨?_, by rw [hlog, List.length_take]; omega⟩
  rw [hlog, List.take_of_length_le (by rw [List.length_append, List.length_take]; omega),
    Backoff.taken, ← hp, ← hd]
  have hpres : (probe ℓ f i).log = f.log.drop d := by rw [hd]; rfl
  rw [hpres, List.drop_drop, ← List.append_assoc, ← List.take_add]

end Paired

/-! ### The two sides of a round -/

/-- What a batch leaves of the follower. -/
structure Heeded (ℓ f f' : Node σ) : Prop where
  config : f'.config = f.config
  snap : f'.snapshotLastIncludedIndex = f.snapshotLastIncludedIndex
  snapTerm : f'.snapshotLastIncludedTerm = f.snapshotLastIncludedTerm
  term : f'.currentTerm = ℓ.currentTerm

/-- What a reply leaves of the leader, whose next index for the follower becomes `k`. -/
structure Moved (i : ℕ) (k : ℤ) (ℓ ℓ' : Node σ) : Prop where
  state : ℓ'.state = ℓ.state
  term : ℓ'.currentTerm = ℓ.currentTerm
  config : ℓ'.config = ℓ.config
  log : ℓ'.log = ℓ.log
  slots : ℓ'.slots = ℓ.slots
  snap : ℓ'.snapshotLastIncludedIndex = ℓ.snapshotLastIncludedIndex
  snapTerm : ℓ'.snapshotLastIncludedTerm = ℓ.snapshotLastIncludedTerm
  next : ℓ'.nextIndex = ℓ.nextIndex.set i k

/-- A batch of the leader's term, accepted or not. -/
lemma heeded (A : Application σ) (h : f.currentTerm ≤ ℓ.currentTerm) (p : CString) :
    Heeded ℓ f (f.handleAppendEntries A (ℓ.batchFor p)) := by
  obtain ⟨ms, hq, -⟩ :=
    queueMessage_eq (f.answered A (ℓ.batchFor p)).1 (f.appendReply A (ℓ.batchFor p))
  obtain ⟨v, t, d, hx, -⟩ := heard_eq f (ℓ.batchFor p)
  have hterm : (f.heard (ℓ.batchFor p)).currentTerm = ℓ.currentTerm := by
    rw [hx]
    exact max_eq_right h
  rw [handleAppendEntries_eq, hq]
  cases hprev : f.prevMatches (ℓ.batchFor p) with
  | false =>
      rw [answered_refused h hprev]
      refine ⟨?_, ?_, ?_, hterm⟩
      all_goals rw [hx]
  | true =>
      obtain ⟨d', heq⟩ := answered_accepted (A := A) (m := ℓ.batchFor p) h hprev
      rw [heq]
      refine ⟨?_, ?_, ?_, hterm⟩
      · change (f.heard (ℓ.batchFor p)).config = f.config
        rw [hx]
      · change (f.heard (ℓ.batchFor p)).snapshotLastIncludedIndex = _
        rw [hx]
      · change (f.heard (ℓ.batchFor p)).snapshotLastIncludedTerm = _
        rw [hx]

/-- The reply to a batch of the leader's term. -/
lemma reply_fields (A : Application σ) (h : f.currentTerm ≤ ℓ.currentTerm) (p : CString) :
    (f.appendReply A (ℓ.batchFor p)).term = ℓ.currentTerm ∧
      (f.appendReply A (ℓ.batchFor p)).source = strncpy maxId f.config.nodeId ∧
      (f.appendReply A (ℓ.batchFor p)).success = f.prevMatches (ℓ.batchFor p) ∧
      (f.appendReply A (ℓ.batchFor p)).matchIndex =
        (f.handleAppendEntries A (ℓ.batchFor p)).lastLogIndex := by
  have hh := heeded A h p
  obtain ⟨ms, hq⟩ := handled_eq (A := A) f (ℓ.batchFor p)
  have hanswered : (f.answered A (ℓ.batchFor p)).1.currentTerm = ℓ.currentTerm ∧
      (f.answered A (ℓ.batchFor p)).1.config = f.config := by
    have ht := hh.term
    have hc := hh.config
    rw [hq] at ht hc
    exact ⟨ht, hc⟩
  refine ⟨hanswered.1, ?_, ?_, ?_⟩
  · change strncpy maxId (f.answered A (ℓ.batchFor p)).1.config.nodeId = _
    rw [hanswered.2]
  · change (f.answered A (ℓ.batchFor p)).2 = _
    cases hprev : f.prevMatches (ℓ.batchFor p) with
    | false => rw [answered_refused (A := A) (m := ℓ.batchFor p) h hprev]
    | true =>
        obtain ⟨d, heq⟩ := answered_accepted (A := A) (m := ℓ.batchFor p) h hprev
        rw [heq]
  · rw [hq]
    rfl

/-- A refused batch leaves the log alone. -/
lemma log_of_refused (A : Application σ) {m : Message} (h : f.currentTerm ≤ m.term)
    (hprev : f.prevMatches m = false) : (f.handleAppendEntries A m).log = f.log := by
  obtain ⟨v, t, d, hx, -⟩ := heard_eq f m
  rw [(handled_fields f m).1, answered_refused h hprev, hx]

/-- **The leader handles a reply** of its own term. -/
lemma moved {r : Message} (hlead : ℓ.state = .leader) (hterm : r.term = ℓ.currentTerm)
    (hpeer : ℓ.peerIndex r.source = some i) :
    (r.success = true → Moved i (r.matchIndex + 1) ℓ (ℓ.handleAppendEntriesResponse r)) ∧
    (r.success = false → ℓ.logBaseIndex < ℓ.nextIndex.getD i 0 →
      Moved i (ℓ.nextIndex.getD i 0 - 1) ℓ (ℓ.handleAppendEntriesResponse r)) := by
  have hupdate : ℓ.handleTermUpdate r = ℓ := by rw [Node.handleTermUpdate, if_neg (by omega)]
  have hresponse : ℓ.handleAppendEntriesResponse r =
      if r.success then
        Node.advanceCommitIndex { ℓ with
          matchIndex := ℓ.matchIndex.set i r.matchIndex
          nextIndex := ℓ.nextIndex.set i (r.matchIndex + 1) }
      else
        Node.sendAppendEntriesTo
          (if ℓ.logBaseIndex < ℓ.nextIndex.getD i 0 then
            { ℓ with nextIndex := ℓ.nextIndex.set i (ℓ.nextIndex.getD i 0 - 1) }
          else ℓ) r.source := by
    rw [Node.handleAppendEntriesResponse, hupdate, if_neg (by rw [hlead, hterm]; simp), hpeer]
  rw [hresponse]
  refine ⟨fun hs => ?_, fun hs hbase => ?_⟩
  · rw [if_pos hs]
    rcases advanceCommitIndex_cases { ℓ with
        matchIndex := ℓ.matchIndex.set i r.matchIndex
        nextIndex := ℓ.nextIndex.set i (r.matchIndex + 1) } with heq | ⟨k, -, -, heq⟩
    · rw [heq]
      exact ⟨rfl, rfl, rfl, rfl, rfl, rfl, rfl, rfl⟩
    · rw [heq]
      exact ⟨rfl, rfl, rfl, rfl, rfl, rfl, rfl, rfl⟩
  · rw [if_neg (by simp [hs]), if_pos hbase, sendAppendEntriesTo_batchFor]
    obtain ⟨ms, hq, -⟩ := queueMessage_eq
      { ℓ with nextIndex := ℓ.nextIndex.set i (ℓ.nextIndex.getD i 0 - 1) }
      (Node.batchFor { ℓ with nextIndex := ℓ.nextIndex.set i (ℓ.nextIndex.getD i 0 - 1) } r.source)
    rw [hq]
    exact ⟨rfl, rfl, rfl, rfl, rfl, rfl, rfl, rfl⟩

/-! ### A round is a step of the search -/

namespace Moved

variable {ℓ' f' : Node σ} {k : ℤ}

/-- Both snapshots stay where they are. -/
lemma commonBase (hm : Moved i k ℓ ℓ') (hh : Heeded ℓ f f') :
    C.commonBase ℓ' f' = C.commonBase ℓ f := by
  rw [C.commonBase, C.commonBase, hm.snap, hh.snap]

lemma offered (hm : Moved i k ℓ ℓ') (hh : Heeded ℓ f f') : C.offered ℓ' f' = C.offered ℓ f := by
  rw [C.offered, C.offered, hm.commonBase hh, hm.log, hm.snap]

lemma shown (hm : Moved i k ℓ ℓ') (hh : Heeded ℓ f f') : C.shown ℓ' f' = C.shown ℓ f := by
  funext q
  rw [C.shown, C.shown, hm.commonBase hh, hm.slots, hm.snap]

/-- The pair after a round in which the follower kept its log up to the common base. -/
lemma paired (h : Paired ℓ f i) (hm : Moved i k ℓ ℓ') (hh : Heeded ℓ f f')
    (hk : C.commonBase ℓ f + 1 ≤ k) (hfull : f'.log.length ≤ maxLog)
    (hlen : (C.commonBase ℓ f - f.snapshotLastIncludedIndex).toNat ≤ f'.log.length)
    (htake : f'.log.take (C.commonBase ℓ f - f.snapshotLastIncludedIndex).toNat =
      f.log.take (C.commonBase ℓ f - f.snapshotLastIncludedIndex).toNat) : Paired ℓ' f' i := by
  have hb : ℓ.snapshotLastIncludedIndex ≤ C.commonBase ℓ f := le_max_left _ _
  have hb' : f.snapshotLastIncludedIndex ≤ C.commonBase ℓ f := le_max_right _ _
  have hlast' : ℓ'.lastLogIndex = ℓ.lastLogIndex := by
    rw [Node.lastLogIndex, Node.lastLogIndex, hm.snap, hm.log]
  have hold := h.length_present
  have hterm : f'.termAtIndex (C.commonBase ℓ f) = f.termAtIndex (C.commonBase ℓ f) := by
    rw [Node.termAtIndex, Node.termAtIndex, hh.snap, hh.snapTerm]
    rcases hb'.lt_or_eq with hlt | heq
    · rw [entryAt_congr hh.snap htake (by rw [Node.lastLogIndex] at hold; omega) hlt (by omega)]
    · simp only [← heq, if_true]
  have hterm' : ℓ'.termAtIndex (C.commonBase ℓ f) = ℓ.termAtIndex (C.commonBase ℓ f) := by
    rw [Node.termAtIndex, Node.termAtIndex, hm.snap, hm.snapTerm, Node.entryAt, Node.entryAt,
      Node.physicalIndex, Node.physicalIndex, hm.snap, Node.slot, Node.slot, hm.log, hm.slots]
  refine ⟨hm.state.trans h.leader, by rw [hh.term, hm.term], ?_, ?_, ?_, ?_, ?_, ?_, ?_, hfull, ?_,
    ?_, ?_, ?_, ?_⟩
  · rw [Node.peerIndex, hm.config, hh.config]
    exact h.peer
  · rw [hm.next, List.length_set]
    exact h.slot
  · rw [hh.config]
    exact h.short
  · rw [Node.Contiguous, hm.snap, hm.log]
    exact h.contiguous
  · rw [hm.log]
    exact h.leaders
  · rw [hm.snap]
    exact h.snap
  · rw [hh.snap]
    exact h.snap'
  · rw [hlast', hh.snap]
    exact h.room
  · rw [hm.snap, Node.lastLogIndex, hh.snap]
    omega
  · rw [hh.snap, hlast']
    exact h.reach'
  · rw [hm.commonBase hh, hterm, hterm']
    exact h.base
  · rw [hm.commonBase hh, hm.next, List.getD_eq_getElem?_getD, List.getElem?_set_self h.slot]
    exact hk

/-- The cursor after a round. -/
lemma probe (h : Paired ℓ f i) (hm : Moved i k ℓ ℓ') (hh : Heeded ℓ f f') : C.probe ℓ' f' i =
    { next := (k - 1 - C.commonBase ℓ f).toNat
      log := f'.log.drop (C.commonBase ℓ f - f.snapshotLastIncludedIndex).toNat } := by
  rw [C.probe, present, hm.commonBase hh, hm.next, List.getD_eq_getElem?_getD,
    List.getElem?_set_self h.slot, hh.snap]
  rfl

end Moved

/-- **A round is a step of the search.** -/
theorem exchange_step (A : Application σ) (h : Paired ℓ f i) :
    Paired (exchange A (ℓ, f)).1 (exchange A (ℓ, f)).2 i ∧
      (exchange A (ℓ, f)).1.log = ℓ.log ∧
      commonBase (exchange A (ℓ, f)).1 (exchange A (ℓ, f)).2 = commonBase ℓ f ∧
      offered (exchange A (ℓ, f)).1 (exchange A (ℓ, f)).2 = offered ℓ f ∧
      shown (exchange A (ℓ, f)).1 (exchange A (ℓ, f)).2 = shown ℓ f ∧
      probe (exchange A (ℓ, f)).1 (exchange A (ℓ, f)).2 i =
        (probe ℓ f i).step clashes (offered ℓ f) (shown ℓ f) maxBatch := by
  obtain ⟨hrterm, hsource, hsuccess, hmatch⟩ := reply_fields A h.term f.config.nodeId
  have hh := heeded A h.term f.config.nodeId
  rw [strncpy_self h.short] at hsource
  have hpeer : ℓ.peerIndex (f.appendReply A (ℓ.batchFor f.config.nodeId)).source = some i := by
    rw [hsource]
    exact h.peer
  obtain ⟨hyes, hno⟩ := moved h.leader hrterm hpeer
  have hacc := h.prevMatches
  have hcursor := h.cursor
  have hold := h.length_present
  have hb' : f.snapshotLastIncludedIndex ≤ commonBase ℓ f := le_max_right _ _
  have hlogp : (probe ℓ f i).log = present ℓ f := rfl
  have hround : exchange A (ℓ, f) =
      (ℓ.handleAppendEntriesResponse (f.appendReply A (ℓ.batchFor f.config.nodeId)),
        f.handleAppendEntries A (ℓ.batchFor f.config.nodeId)) := rfl
  rw [hround]
  dsimp only
  rw [hsuccess] at hyes hno
  rw [Backoff.Probe.step, hlogp, ← hacc]
  cases hprev : f.prevMatches (ℓ.batchFor f.config.nodeId) with
  | true =>
      have hm := hyes hprev
      have hlog := (handled_fields (A := A) f (ℓ.batchFor f.config.nodeId)).1
      obtain ⟨hwritten, hlen'⟩ := h.accepted_log (A := A) hprev
      have hfull : (f.handleAppendEntries A (ℓ.batchFor f.config.nodeId)).log.length ≤ maxLog := by
        rw [hlog]
        exact hlen'
      rw [hwritten] at hlog
      obtain ⟨d, hd⟩ : ∃ d, d = (commonBase ℓ f - f.snapshotLastIncludedIndex).toNat := ⟨_, rfl⟩
      rw [← hd] at hlog
      have hdle : d ≤ f.log.length := by
        rw [Node.lastLogIndex] at hold
        omega
      have hlen : (f.log.take d).length = d := by
        rw [List.length_take]
        omega
      have hdrop : (f.handleAppendEntries A (ℓ.batchFor f.config.nodeId)).log.drop d =
          Backoff.taken clashes (offered ℓ f) maxBatch (probe ℓ f i) := by
        rw [hlog, List.drop_left' hlen]
      have hlast : (f.handleAppendEntries A (ℓ.batchFor f.config.nodeId)).lastLogIndex =
          commonBase ℓ f +
            (Backoff.taken clashes (offered ℓ f) maxBatch (probe ℓ f i)).length := by
        rw [Node.lastLogIndex, hh.snap, hlog, List.length_append, hlen]
        omega
      rw [hmatch, hlast] at hm
      refine ⟨hm.paired h hh (by omega) hfull ?_ ?_, hm.log, hm.commonBase hh, hm.offered hh,
        hm.shown hh, ?_⟩
      · rw [← hd, hlog, List.length_append, hlen]
        omega
      · rw [← hd, hlog, List.take_left' hlen]
      · rw [hm.probe h hh, ← hd, hdrop, if_pos rfl]
        congr 1
        omega
  | false =>
      have hpos : 0 < (probe ℓ f i).next := by
        rcases Nat.eq_zero_or_pos (probe ℓ f i).next with hzero | hpos
        · rw [hzero, hprev] at hacc
          exact absurd hacc (by simp [Backoff.accepts])
        · exact hpos
      have hnext : ℓ.nextIndex.getD i 0 = commonBase ℓ f + (probe ℓ f i).next + 1 := by
        rw [probe]
        dsimp only
        omega
      have hb : ℓ.snapshotLastIncludedIndex ≤ commonBase ℓ f := le_max_left _ _
      have hm := hno hprev (by rw [hnext, Node.logBaseIndex]; omega)
      have hlog := log_of_refused A (m := ℓ.batchFor f.config.nodeId) h.term hprev
      refine ⟨hm.paired h hh (by omega) (by rw [hlog]; exact h.full) ?_ (by rw [hlog]), hm.log,
        hm.commonBase hh, hm.offered hh, hm.shown hh, ?_⟩
      · rw [hlog]
        rw [Node.lastLogIndex] at hold
        omega
      · rw [hm.probe h hh, hlog, if_neg (by simp)]
        have hpred : (ℓ.nextIndex.getD i 0 - 1 - 1 - commonBase ℓ f).toNat =
            (probe ℓ f i).next - 1 := by omega
        rw [hpred]
        rfl

/-! ### Rounds -/

/-- **Rounds are steps of the search.** -/
lemma exchange_steps (A : Application σ) (h : Paired ℓ f i) : ∀ n : ℕ,
    Paired ((exchange A)^[n] (ℓ, f)).1 ((exchange A)^[n] (ℓ, f)).2 i ∧
      ((exchange A)^[n] (ℓ, f)).1.log = ℓ.log ∧
      commonBase ((exchange A)^[n] (ℓ, f)).1 ((exchange A)^[n] (ℓ, f)).2 = commonBase ℓ f ∧
      offered ((exchange A)^[n] (ℓ, f)).1 ((exchange A)^[n] (ℓ, f)).2 = offered ℓ f ∧
      shown ((exchange A)^[n] (ℓ, f)).1 ((exchange A)^[n] (ℓ, f)).2 = shown ℓ f ∧
      probe ((exchange A)^[n] (ℓ, f)).1 ((exchange A)^[n] (ℓ, f)).2 i =
        (Backoff.Probe.step clashes (offered ℓ f) (shown ℓ f) maxBatch)^[n] (probe ℓ f i) := by
  intro n
  induction n with
  | zero => exact ⟨h, rfl, rfl, rfl, rfl, rfl⟩
  | succ n ih =>
      obtain ⟨hpair, hlog, hbase, hoff, hshown, hprobe⟩ := ih
      obtain ⟨hpair', hlog', hbase', hoff', hshown', hprobe'⟩ := exchange_step A hpair
      rw [Function.iterate_succ_apply', Function.iterate_succ_apply']
      rw [hoff, hshown, hprobe] at hprobe'
      exact ⟨hpair', hlog'.trans hlog, hbase'.trans hbase, hoff'.trans hoff, hshown'.trans hshown,
        hprobe'⟩

/-- The follower has the leader's entries from the common base on. -/
def CaughtUp (ℓ f : Node σ) : Prop :=
  ∀ k : ℤ, commonBase ℓ f < k → k ≤ ℓ.lastLogIndex →
    k ≤ f.lastLogIndex ∧ f.entryAt k = ℓ.entryAt k

lemma caughtUp_of_isPrefix (h : Paired ℓ f i) (hpre : offered ℓ f <+: present ℓ f) :
    CaughtUp ℓ f := by
  intro k hlo hhi
  have hlenL := h.length_offered
  have hlenF := h.length_present
  have hle := hpre.length_le
  have hb : ℓ.snapshotLastIncludedIndex ≤ commonBase ℓ f := le_max_left _ _
  have hb' : f.snapshotLastIncludedIndex ≤ commonBase ℓ f := le_max_right _ _
  obtain ⟨q, hq⟩ : ∃ q : ℕ, k = commonBase ℓ f + q + 1 :=
    ⟨(k - commonBase ℓ f - 1).toNat, by omega⟩
  obtain ⟨e, hgetL⟩ : ∃ e, (offered ℓ f)[q]? = some e :=
    ⟨_, List.getElem?_eq_getElem (by omega : q < (offered ℓ f).length)⟩
  have hgetF := getElem?_of_isPrefix hpre hgetL
  rw [offered, List.getElem?_drop] at hgetL
  rw [present, List.getElem?_drop] at hgetF
  refine ⟨by omega, ?_⟩
  have hkL : k = ℓ.snapshotLastIncludedIndex +
      ((commonBase ℓ f - ℓ.snapshotLastIncludedIndex).toNat + q : ℕ) + 1 := by omega
  have hkF : k = f.snapshotLastIncludedIndex +
      ((commonBase ℓ f - f.snapshotLastIncludedIndex).toNat + q : ℕ) + 1 := by omega
  calc f.entryAt k = e := by rw [hkF, Node.entryAt_eq hgetF]
    _ = ℓ.entryAt k := by rw [hkL, Node.entryAt_eq hgetL]

/-- After enough rounds the offered entries are present. -/
lemma present_of_rounds (A : Application σ) (h : Paired ℓ f i)
    (hmatch : Backoff.Matches clashes (offered ℓ f) (present ℓ f))
    (hnext : ℓ.nextIndex.getD i 0 = ℓ.lastLogIndex + 1) {n : ℕ}
    (hn : (offered ℓ f).length + ((offered ℓ f).length + maxBatch - 1) / maxBatch ≤ n) :
    offered ℓ f <+: present ((exchange A)^[n] (ℓ, f)).1 ((exchange A)^[n] (ℓ, f)).2 := by
  obtain ⟨-, -, -, -, -, hprobe⟩ := exchange_steps A h n
  have hlen := h.length_offered
  have hstart : probe ℓ f i = ⟨(offered ℓ f).length, present ℓ f⟩ := by
    rw [probe, hnext]
    congr 1
    omega
  have hbatch : (offered ℓ f).length ≤
      ((offered ℓ f).length + maxBatch - 1) / maxBatch * maxBatch := by
    have hmax : maxBatch = 16 := rfl
    rw [hmax]
    omega
  have hpre : offered ℓ f <+: ((Backoff.Probe.step clashes (offered ℓ f) (shown ℓ f) maxBatch)^[n]
      ⟨(offered ℓ f).length, present ℓ f⟩).log :=
    Backoff.prefix_of_rounds clashes_self (by decide) hmatch hbatch hn
  rw [← hstart, ← hprobe] at hpre
  exact hpre

/-- **A follower catches up**: from the state right after an election on, as many rounds as the
leader has entries and batches bring the leader's entries to the follower, whatever its log was, and
further rounds leave them there. -/
theorem exchange_catches_up (A : Application σ) (h : Paired ℓ f i)
    (hmatch : Backoff.Matches clashes (offered ℓ f) (present ℓ f))
    (hnext : ℓ.nextIndex.getD i 0 = ℓ.lastLogIndex + 1) {n : ℕ}
    (hn : (offered ℓ f).length + ((offered ℓ f).length + maxBatch - 1) / maxBatch ≤ n) :
    ((exchange A)^[n] (ℓ, f)).1.log = ℓ.log ∧
      CaughtUp ((exchange A)^[n] (ℓ, f)).1 ((exchange A)^[n] (ℓ, f)).2 := by
  obtain ⟨hpair, hlog, -, hoff, -, -⟩ := exchange_steps A h n
  refine ⟨hlog, caughtUp_of_isPrefix hpair ?_⟩
  rw [hoff]
  exact present_of_rounds A h hmatch hnext hn

/-- A leader that compacted its first entry, right after its election. -/
def trimmedLeader : Node Unit :=
  { Node.zero { threeConfig n1 with peers := [n2, n3] } () 0 with
    state := .leader, currentTerm := 2, snapshotLastIncludedIndex := 1
    snapshotLastIncludedTerm := 1, log := [entryOf 2 2 "n1", entryOf 3 2 "n1"]
    nextIndex := List.replicate maxPeers 4 }

/-- A follower with an entry that the leader does not have. -/
def oldFollower : Node Unit :=
  { Node.zero { threeConfig n2 with peers := [n1, n3] } () 0 with
    log := [entryOf 1 1 "n1", entryOf 2 1 "n1"] }

lemma paired_trimmed : Paired trimmedLeader oldFollower 0 where
  leader := rfl
  term := by decide
  peer := by decide
  slot := by decide
  short := by decide
  contiguous := by
    intro k e he
    rcases k with _ | _ | k
    · obtain rfl : entryOf 2 2 "n1" = e := by simpa [trimmedLeader] using he
      rfl
    · obtain rfl : entryOf 3 2 "n1" = e := by simpa [trimmedLeader] using he
      rfl
    · simp [trimmedLeader] at he
  leaders := by decide
  snap := by decide
  snap' := by decide
  full := by decide
  room := by decide
  reach := by decide
  reach' := by decide
  base := by decide
  cursor := by decide

/-- Three rounds replace the entry. -/
theorem exchange_catches_up_trimmed :
    CaughtUp ((exchange silent)^[3] (trimmedLeader, oldFollower)).1
      ((exchange silent)^[3] (trimmedLeader, oldFollower)).2 := by
  have hmatch : Backoff.Matches clashes (offered trimmedLeader oldFollower)
      (present trimmedLeader oldFollower) := by
    have hpres : present trimmedLeader oldFollower = [entryOf 2 1 "n1"] := by decide
    have hoff : offered trimmedLeader oldFollower = [entryOf 2 2 "n1", entryOf 3 2 "n1"] := by
      decide
    rw [hpres, hoff]
    intro k e' e he' he hclash
    cases k with
    | zero =>
        rw [List.getElem?_cons_zero, Option.some.injEq] at he' he
        rw [← he', ← he] at hclash
        exact absurd hclash (by decide)
    | succ k => simp at he'
  exact (exchange_catches_up silent paired_trimmed hmatch (by decide) (n := 3) (by decide)).2

/-! ### Left behind -/

/-- A batch never begins before the leader's snapshot. -/
lemma batchFor_prev (x : Node σ) (p : CString) :
    x.snapshotLastIncludedIndex ≤ (x.batchFor p).prevLogIndex := by
  have hbase : x.logBaseIndex ≤ x.sendFrom p := by
    rw [Node.sendFrom]
    split_ifs <;> omega
  change _ ≤ x.sendFrom p - 1
  rw [Node.logBaseIndex] at hbase
  omega

/-- **A follower left behind**: leaders whose snapshots lie beyond its log, in any states and any
order, never change it. -/
theorem left_behind (A : Application σ) (leaders : List (Node σ)) (f : Node σ)
    (h : ∀ ℓ ∈ leaders, f.lastLogIndex < ℓ.snapshotLastIncludedIndex) :
    (leaders.foldl (fun f ℓ => f.handleAppendEntries A (ℓ.batchFor f.config.nodeId)) f).log =
        f.log ∧
      (leaders.foldl (fun f ℓ => f.handleAppendEntries A (ℓ.batchFor f.config.nodeId))
        f).commitIndex = f.commitIndex := by
  induction leaders generalizing f with
  | nil => exact ⟨rfl, rfl⟩
  | cons ℓ leaders ih =>
      obtain ⟨hlt, hrest⟩ := List.forall_mem_cons.mp h
      obtain ⟨m, hm⟩ : ∃ m, m = ℓ.batchFor f.config.nodeId := ⟨_, rfl⟩
      have hprev : f.prevMatches m = false := by
        have hbase := batchFor_prev ℓ f.config.nodeId
        rw [← hm] at hbase
        rw [Node.prevMatches, decide_eq_false (show ¬ m.prevLogIndex ≤ f.lastLogIndex by omega)]
        simp
      obtain ⟨v, t, d, hx, -⟩ := heard_eq f m
      obtain ⟨hl, hc, -, hlast⟩ := handled_fields (A := A) f m
      have hkeep : (f.handleAppendEntries A m).log = f.log ∧
          (f.handleAppendEntries A m).commitIndex = f.commitIndex ∧
          (f.handleAppendEntries A m).lastLogIndex = f.lastLogIndex := by
        rw [hl, hc, hlast]
        rcases lt_or_ge m.term f.currentTerm with hold | hnew
        · rw [answered_old hold]
          exact ⟨rfl, rfl, rfl⟩
        · rw [answered_refused hnew hprev, hx]
          exact ⟨rfl, rfl, rfl⟩
      obtain ⟨hkl, hkc, hklast⟩ := hkeep
      have hih := ih (f.handleAppendEntries A m) (by rw [hklast]; exact hrest)
      rw [hkl, hkc] at hih
      rw [List.foldl_cons, ← hm]
      exact hih

/-- An empty follower of a leader that compacted its first entry. -/
theorem left_behind_trimmed : (Node.handleAppendEntries silent
    { oldFollower with log := [] } (trimmedLeader.batchFor n2)).log = [] :=
  (left_behind silent [trimmedLeader] { oldFollower with log := [] } (by decide)).1

/-! ### Followers of a run -/

section Runs

variable {B : CString → Application σ} {initial : List CString} {config : CString → NodeConfig}
  {c : Cluster σ}

/-- The entries of a run fit in `raft_log_entry_t`. -/
lemma entries_fit {P : Cluster σ → ClusterAct σ → Prop}
    (hboot : ∀ n, Bootstrapped initial n (config n)) {user : CString → σ} {clockMs : ℤ}
    (hrun : Run (Cluster.exec B) P (Cluster.boot B config user clockMs) c) (n : CString) :
    ∀ e ∈ (c.hosts n).node.log, e.Fits := by
  refine Run.invariant (I := fun d => ∀ e ∈ (d.hosts n).node.log, e.Fits) ?_ hrun ?_
  · intro d act d' hd _ hexec
    rw [Cluster.exec, Option.ite_none_right_eq_some] at hexec
    obtain ⟨-, hmap⟩ := hexec
    obtain ⟨⟨h', effect⟩, hhost, rfl⟩ := Option.map_eq_some_iff.mp hmap
    by_cases heq : n = act.host
    · subst heq
      simp only [Function.update_self]
      have hfits := (Option.filter_eq_some_iff.mp hhost).2
      exact (of_decide_eq_true hfits).2.2.2.2.2.2.2.2
    · simp only [Function.update_of_ne heq]
      exact hd
  · have hnil : ((Cluster.boot B config user clockMs).hosts n).node.log = [] :=
      (fresh_boot (A := B n) (hboot n) (user n) clockMs).log
    rw [hnil]
    exact fun e he => absurd he List.not_mem_nil

/-- A node of a run of safe ticks has no snapshot, and its log is that of its server. -/
lemma safeTick_node {members : List CString} {a : State CString ℤ LogEntry}
    (hat : ClusterAt members .commits a c) {n : CString} (hn : n.length < maxId) :
    (c.hosts n).node.config.nodeId = n ∧ Good (c.hosts n).node ∧
      (a.srv n).log = (c.hosts n).node.log := by
  have hnode := (hat.hosts n hn).node
  exact ⟨hnode.ok.nodeId, hnode.ok.good Mode.keepsLogs_commits, by rw [hnode.srv]; rfl⟩

/-- **A new leader brings every follower of a run up to date.** -/
theorem catches_up_in_run (hboot : ∀ n, Bootstrapped initial n (config n))
    (hids : ∀ m ∈ initial, IdOk m) (user : CString → σ) (clockMs : ℤ)
    (hrun : Run (Cluster.exec B) (SafeTick B) (Cluster.boot B config user clockMs) c)
    (p q : CString) (hlead : (c.hosts p).node.state = .leader) (hq : q.length < maxId)
    (hpeer : (c.hosts p).node.peerIndex q = some i)
    (hterm : (c.hosts q).node.currentTerm ≤ (c.hosts p).node.currentTerm)
    (hnext : (c.hosts p).node.nextIndex.getD i 0 = (c.hosts p).node.lastLogIndex + 1) {n : ℕ}
    (hn : (c.hosts p).node.log.length +
      ((c.hosts p).node.log.length + maxBatch - 1) / maxBatch ≤ n) :
    (c.hosts p).node.log <+:
      ((exchange (B q))^[n] ((c.hosts p).node, (c.hosts q).node)).2.log := by
  obtain ⟨a, hinv, hat⟩ := clusterAt_safeTicks hboot hids hrun
  have hp : p.length < maxId := by
    by_contra hlen
    have hfollower := hat.idle p (not_lt.mp hlen)
    rw [hlead] at hfollower
    exact absurd hfollower (by simp)
  obtain ⟨hidp, hgoodp, hlogp⟩ := safeTick_node hat hp
  obtain ⟨hidq, hgoodq, hlogq⟩ := safeTick_node hat hq
  obtain ⟨ℓ, hℓ⟩ : ∃ ℓ, ℓ = (c.hosts p).node := ⟨_, rfl⟩
  obtain ⟨f, hf⟩ : ∃ f, f = (c.hosts q).node := ⟨_, rfl⟩
  have hfit := entries_fit hboot hrun p
  rw [← hℓ] at hlead hpeer hterm hnext hn hgoodp hlogp hfit ⊢
  rw [← hf] at hterm hidq hgoodq hlogq ⊢
  have hbase : commonBase ℓ f = 0 := by
    rw [commonBase, hgoodp.snapIndex, hgoodq.snapIndex, max_self]
  have hoff : offered ℓ f = ℓ.log := by
    rw [offered, hbase, hgoodp.snapIndex, sub_self, Int.toNat_zero, List.drop_zero]
  have hpres : present ℓ f = f.log := by
    rw [present, hbase, hgoodq.snapIndex, sub_self, Int.toNat_zero, List.drop_zero]
  have hlast : ℓ.lastLogIndex = ℓ.log.length := by
    rw [Node.lastLogIndex, hgoodp.snapIndex, zero_add]
  have hmax : (ℓ.log.length : ℤ) ≤ maxLog := by exact_mod_cast hgoodp.full
  obtain ⟨hslot, -, hone, -⟩ := hgoodp.next hlead q i hpeer
  have hpair : Paired ℓ f i :=
    { leader := hlead
      term := hterm
      peer := by rw [hidq]; exact hpeer
      slot := hslot
      short := by rw [hidq]; exact hq
      contiguous := by
        intro k e he
        rw [← hlogp] at he
        have hidx : e.index = (k : ℤ) + 1 := hinv.logs.index_log p he
        rw [hgoodp.snapIndex, hidx]
        push_cast
        ring
      leaders := fun e he => (hfit e he).2.2.1
      snap := hgoodp.snapIndex.ge
      snap' := hgoodq.snapIndex.ge
      full := hgoodq.full
      room := by
        rw [hlast, hgoodq.snapIndex]
        omega
      reach := by
        rw [hgoodp.snapIndex, Node.lastLogIndex, hgoodq.snapIndex]
        omega
      reach' := by
        rw [hgoodq.snapIndex, hlast]
        omega
      base := by rw [hbase, Node.termAtIndex, Node.termAtIndex, if_pos rfl, if_pos rfl]
      cursor := by
        rw [hbase]
        exact hone }
  have hmatch : Backoff.Matches clashes (offered ℓ f) (present ℓ f) := by
    rw [hoff, hpres]
    intro k e' e he' he hclash
    simp only [clashes, Bool.or_eq_false_iff, decide_eq_false_iff_not, not_not] at hclash
    rw [← hlogq] at he'
    rw [← hlogp] at he
    rw [← hlogq, ← hlogp]
    exact log_matching (P := params (startMembers initial)) hinv.logs he' he hclash.1
  obtain ⟨hpair', -, hbase', -, -, -⟩ := exchange_steps (B q) hpair n
  have hrounds : (offered ℓ f).length +
      ((offered ℓ f).length + maxBatch - 1) / maxBatch ≤ n := by
    rw [hoff]
    exact hn
  have hpre := present_of_rounds (B q) hpair hmatch hnext hrounds
  have hsnap : ((exchange (B q))^[n] (ℓ, f)).2.snapshotLastIncludedIndex = 0 := by
    have hle : ((exchange (B q))^[n] (ℓ, f)).2.snapshotLastIncludedIndex ≤
        commonBase ((exchange (B q))^[n] (ℓ, f)).1 ((exchange (B q))^[n] (ℓ, f)).2 :=
      le_max_right _ _
    rw [hbase', hbase] at hle
    exact le_antisymm hle hpair'.snap'
  rw [hoff, present, hbase', hbase, hsnap, sub_self, Int.toNat_zero, List.drop_zero] at hpre
  exact hpre

/-- `n2`, the leader of term 2, brings its entry to `n3`, which has none. -/
theorem catches_up_in_run_three : ∃ c : Cluster Unit,
    Run (Cluster.exec fun _ => silent) (SafeTick fun _ => silent) threeNodes c ∧
    (c.hosts n2).node.state = .leader ∧ (c.hosts n2).node.log ≠ [] ∧ (c.hosts n3).node.log = [] ∧
    (c.hosts n2).node.log <+:
      ((exchange silent)^[2] ((c.hosts n2).node, (c.hosts n3).node)).2.log := by
  have hexec : (execAll (Cluster.exec fun _ => silent)
      (fun c act => decide (SafeTick (fun _ => silent) c act)) threeNodes
      (coveredCommand ++ laterElection)).any (fun c => leads c n2 2 &&
        decide ((c.hosts n2).node.log.length = 1 ∧ (c.hosts n3).node.log = [] ∧
          (c.hosts n2).node.peerIndex n3 = some 1 ∧
          (c.hosts n3).node.currentTerm ≤ (c.hosts n2).node.currentTerm ∧
          (c.hosts n2).node.nextIndex.getD 1 0 = (c.hosts n2).node.lastLogIndex + 1)) = true := by
    decide +kernel
  obtain ⟨c, hrun, hc⟩ := Run.exists_of_execAll hexec
  rw [Bool.and_eq_true, decide_eq_true_eq] at hc
  obtain ⟨hleads, hlen, hnil, hpeer, hterm, hnext⟩ := hc
  have hrun' := hrun.mono (fun _ _ => of_decide_eq_true)
  refine ⟨c, hrun', (leads_spec hleads).1, List.ne_nil_of_length_pos (by omega), hnil, ?_⟩
  refine catches_up_in_run bootstrapped_three idOk_three (fun _ => ()) 0 hrun' n2 n3
    (leads_spec hleads).1 (by decide) hpeer hterm hnext ?_
  rw [hlen]
  decide

end Runs

end RaftRx.C
