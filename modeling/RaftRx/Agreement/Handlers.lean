import RaftRx.C.AppendMerge
import RaftRx.Python.System

/-!
The message handlers of the two libraries on the same node.

* `toEntry`, `SameMessage`, `Represents`: entries, messages and nodes of the two libraries that
  stand for the same thing;
* `LogsMatch`: the part of a node the batch is merged into, and that both read it alike;
* `prevMatches_eq`, `mergeEntries_match`, `settleCommit_match`: the steps of
  `_append_entries_from_leader`;
* `handlers_agree`: both handlers lead to nodes that stand for the same node, with the same reply.
-/

namespace RaftRx.Agreement

/-! ### Representation -/

/-- A command in the C library; a missing value is the empty string. -/
def toCommand (c : Python.Command) : C.Command := ⟨c.op, c.key, c.value.getD []⟩

/-- A log entry in the C library. -/
def toEntry (e : Python.LogEntry) : C.LogEntry := ⟨e.index, e.term, e.leaderId, toCommand e.command⟩

/-- The kind of a message in the C library, which has no client commands. -/
def toKind : Python.MessageKind → Option C.MessageKind
  | .requestVote => some .requestVote
  | .requestVoteResponse => some .requestVoteResponse
  | .appendEntries => some .appendEntries
  | .appendEntriesResponse => some .appendEntriesResponse
  | .clientCommand => none

/-- The two messages are the same. -/
structure SameMessage (m : C.Message) (m' : Python.Message) : Prop where
  kind : toKind m'.kind = some m.kind
  term : m.term = m'.term
  source : m.source = m'.source
  target : m.target = m'.target
  granted : m.granted = m'.granted
  success : m.success = m'.success
  prevLogIndex : m.prevLogIndex = m'.prevLogIndex
  prevLogTerm : m.prevLogTerm = m'.prevLogTerm
  prevLogLeaderId : m.prevLogLeaderId = m'.prevLogLeaderId
  leaderCommit : m.leaderCommit = m'.leaderCommit
  matchIndex : m.matchIndex = m'.matchIndex
  lastLogIndex : m.lastLogIndex = m'.lastLogIndex
  lastLogTerm : m.lastLogTerm = m'.lastLogTerm
  entries : m.entries = m'.entries.map toEntry

/-- An id that may be missing: the empty string in C, `None` in Python. -/
def SameId (id : C.CString) (id' : Option Python.Str) : Prop :=
  id' = if id = [] then none else some id

variable {σ : Type} {τ ν : Type}

/-- What the merge of a batch reads and writes. -/
structure LogsMatch (x : C.Node σ) (p : Python.Node τ ν) : Prop where
  log : x.log = p.log.map toEntry
  snapIndex : x.snapshotLastIncludedIndex = p.snapshotLastIncludedIndex
  snapTerm : x.snapshotLastIncludedTerm = p.snapshotLastIncludedTerm
  commit : x.commitIndex = p.commitIndex
  applied : x.lastApplied = p.lastApplied

/-- The two nodes stand for the same node. -/
structure Represents (x : C.Node σ) (p : Python.Node τ ν) : Prop extends LogsMatch x p where
  id : x.config.nodeId = p.config.nodeId
  term : x.currentTerm = p.currentTerm
  vote : SameId x.votedFor p.votedFor
  leader : SameId x.leaderId p.leaderId
  old : x.configState.oldMembers = p.configState.oldMembers
  new : p.configState.newMembers =
    if x.configState.newMembers = [] then none else some x.configState.newMembers
  configIndex : x.configState.index = p.configState.index

variable {x : C.Node σ} {p : Python.Node τ ν} {m : C.Message} {m' : Python.Message}

lemma sameId_some {id : C.CString} (h : id ≠ []) : SameId id (some id) := by
  rw [SameId, if_neg h]

lemma sameId_none : SameId [] none := rfl

/-! ### Reading the log -/

namespace LogsMatch

lemma length (h : LogsMatch x p) : x.log.length = p.log.length := by
  rw [h.log, List.length_map]

lemma lastLogIndex (h : LogsMatch x p) : x.lastLogIndex = p.lastLogIndex := by
  rw [C.Node.lastLogIndex, Python.Node.lastLogIndex, h.snapIndex, h.length]

lemma lastLogTerm (h : LogsMatch x p) : x.lastLogTerm = p.lastLogTerm := by
  rw [C.Node.lastLogTerm, Python.Node.lastLogTerm, h.log, List.getLast?_map, h.snapTerm]
  cases p.log.getLast? <;> rfl

lemma hasLogIndex (h : LogsMatch x p) (k : ℤ) : x.hasLogIndex k = p.hasLogIndex k := by
  rw [C.Node.hasLogIndex, Python.Node.hasLogIndex, h.lastLogIndex, C.Node.logBaseIndex,
    Python.Node.logBaseIndex, h.snapIndex]

/-- An entry both logs have. -/
lemma entryAt (h : LogsMatch x p) {k : ℤ} (hk : x.hasLogIndex k = true) :
    ∃ e, p.entryAtIndex k = some e ∧ x.entryAt k = toEntry e := by
  rw [C.Node.hasLogIndex_eq_true, h.length] at hk
  obtain ⟨i, hi⟩ : ∃ i : ℕ, k = x.snapshotLastIncludedIndex + i + 1 :=
    ⟨(k - x.snapshotLastIncludedIndex - 1).toNat, by omega⟩
  obtain ⟨e, he⟩ : ∃ e, p.log[i]? = some e := ⟨_, List.getElem?_eq_getElem (by omega)⟩
  refine ⟨e, ?_, ?_⟩
  · rw [Python.Node.entryAtIndex, Python.Node.physicalIndex, Python.Node.logBaseIndex,
      ← h.snapIndex, show k - (x.snapshotLastIncludedIndex + 1) = (i : ℤ) by omega,
      item_natCast, he]
  · rw [hi]
    refine C.Node.entryAt_eq ?_
    rw [h.log, List.getElem?_map, he]
    rfl

lemma termAtIndex (h : LogsMatch x p) {k : ℤ}
    (hk : k = x.snapshotLastIncludedIndex ∨ x.hasLogIndex k = true) :
    p.termAtIndex k = some (x.termAtIndex k) := by
  rw [Python.Node.termAtIndex, C.Node.termAtIndex, ← h.snapIndex, ← h.snapTerm]
  split
  · rfl
  · split
    · rfl
    · rename_i hne
      obtain ⟨e, he, hx⟩ := h.entryAt (hk.resolve_left hne)
      rw [he, hx]
      rfl

lemma leaderAtIndex (h : LogsMatch x p) (k : ℤ) : p.leaderAtIndex k = some (x.leaderAtIndex k) := by
  rw [Python.Node.leaderAtIndex, C.Node.leaderAtIndex, ← h.hasLogIndex]
  split
  · rfl
  · rename_i hk
    rw [not_or, Bool.not_eq_false] at hk
    obtain ⟨e, he, hx⟩ := h.entryAt hk.2
    rw [he, hx]
    rfl

end LogsMatch

/-! ### The previous entry and the merge -/

/-- **The checks of the previous entry** have the same outcome, whatever their order. -/
lemma prevMatches_eq (h : LogsMatch x p) (hm : SameMessage m m') :
    p.prevMatches m' = some (x.prevMatches m) := by
  rw [Python.Node.prevMatches, C.Node.prevMatches, ← hm.prevLogIndex, ← hm.prevLogTerm,
    ← hm.prevLogLeaderId, ← h.lastLogIndex, ← h.snapIndex, ← h.hasLogIndex, h.leaderAtIndex]
  by_cases hlast : x.lastLogIndex < m.prevLogIndex
  · simp [hlast]
  · by_cases hsnap : m.prevLogIndex < x.snapshotLastIncludedIndex
    · simp [hlast, hsnap]
    · by_cases hpos : 0 < m.prevLogIndex
      · have hread : m.prevLogIndex = x.snapshotLastIncludedIndex ∨
            x.hasLogIndex m.prevLogIndex = true := by
          rw [C.Node.hasLogIndex_eq_true]
          rw [C.Node.lastLogIndex] at hlast
          omega
        rw [if_neg hlast, if_neg hsnap, if_pos hpos, h.termAtIndex hread]
        by_cases hterm : x.termAtIndex m.prevLogIndex = m.prevLogTerm
        · by_cases hlead : m.prevLogLeaderId ≠ [] ∧ x.hasLogIndex m.prevLogIndex = true
          · simp [hpos, hterm, hlead, not_lt.mp hlast, not_lt.mp hsnap]
          · rw [not_and_or, not_not] at hlead
            rcases hlead with hlead | hlead <;>
              simp [hpos, hterm, hlead, not_lt.mp hlast, not_lt.mp hsnap]
        · simp [hpos, hterm]
      · simp [hlast, hsnap, hpos, not_lt.mp hlast, not_lt.mp hsnap]

/-- The conflict tests are the same. -/
lemma conflicts_eq (h : LogsMatch x p) {e : Python.LogEntry} (hk : x.hasLogIndex e.index = true) :
    p.conflicts e = some (x.conflicts (toEntry e)) := by
  rw [Python.Node.conflicts, h.termAtIndex (Or.inr hk), h.leaderAtIndex, C.Node.conflicts]
  change (if x.termAtIndex e.index ≠ e.term then some true
    else if e.leaderId ≠ [] then some (decide (x.leaderAtIndex e.index ≠ e.leaderId))
    else some false) = some (decide (x.termAtIndex e.index ≠ e.term) ||
      (decide (e.leaderId ≠ []) && decide (x.leaderAtIndex e.index ≠ e.leaderId)))
  by_cases hterm : x.termAtIndex e.index = e.term
  · by_cases hlead : e.leaderId = [] <;> simp [hterm, hlead]
  · simp [hterm]

namespace Represents

/-- The merge writes the log and the flag `persist_dirty`. -/
lemma withLog (h : Represents x p) {l : List C.LogEntry} {l' : List Python.LogEntry}
    (hl : l = l'.map toEntry) (d d' : Bool) :
    Represents { x with log := l, persistDirty := d } { p with log := l', persistDirty := d' } where
  log := hl
  snapIndex := h.snapIndex
  snapTerm := h.snapTerm
  commit := h.commit
  applied := h.applied
  id := h.id
  term := h.term
  vote := h.vote
  leader := h.leader
  old := h.old
  new := h.new
  configIndex := h.configIndex

/-- What is common to two nodes after a part of the merge, `n` entries of the batch being left. -/
structure Merged (x y : C.Node σ) (p q : Python.Node τ ν) (n : ℕ) : Prop where
  represents : Represents y q
  room : y.log.length + n ≤ C.maxLog
  outbox : y.outbox = x.outbox
  outbox' : q.outbox = p.outbox

/-- The entry is appended if it is the next one. -/
lemma appendNext (h : Represents x p) {n : ℕ} (hroom : x.log.length + (n + 1) ≤ C.maxLog)
    (e : Python.LogEntry) : Merged x (x.appendNext (toEntry e)) p (p.appendIfNext e) n := by
  have hlast := h.toLogsMatch.lastLogIndex
  have hindex : (toEntry e).index = e.index := rfl
  rw [C.Node.appendNext, Python.Node.appendIfNext, hindex, hlast]
  by_cases hnext : e.index = p.lastLogIndex + 1
  · rw [if_pos ⟨hnext, by omega⟩, if_pos hnext]
    refine ⟨h.withLog ?_ true true, ?_, rfl, rfl⟩
    · rw [h.log, List.map_append]
      rfl
    · dsimp only
      rw [List.length_append, List.length_singleton]
      omega
  · rw [if_neg fun hboth => hnext hboth.1, if_neg hnext]
    exact ⟨h, by omega, rfl, rfl⟩

/-- The suffix of the log is dropped from an index it has. -/
lemma truncate (h : Represents x p) {k : ℤ} (hk : x.hasLogIndex k = true) :
    Represents { x with log := x.log.take (x.physicalIndex k).toNat, persistDirty := true }
      { p.truncateLogSuffixFrom k with persistDirty := true } := by
  rw [C.Node.hasLogIndex_eq_true] at hk
  have hphys : x.physicalIndex k = p.physicalIndex k := by
    rw [C.Node.physicalIndex, Python.Node.physicalIndex, Python.Node.logBaseIndex, h.snapIndex]
    ring
  have hpos : 0 ≤ p.physicalIndex k := by
    rw [← hphys, C.Node.physicalIndex]
    omega
  rw [Python.Node.truncateLogSuffixFrom, if_neg (by rw [← h.snapIndex]; omega)]
  refine h.withLog ?_ true true
  rw [h.log, hphys, ← List.map_take, sliceTo, slicePos, if_pos hpos]

lemma truncate_outbox (p : Python.Node τ ν) (k : ℤ) :
    (p.truncateLogSuffixFrom k).outbox = p.outbox := by
  rw [Python.Node.truncateLogSuffixFrom]
  split <;> rfl

/-- **One entry of the batch** leads to nodes that stand for the same node, with the same flag. -/
lemma mergeEntry (h : Represents x p) {n : ℕ} (hroom : x.log.length + (n + 1) ≤ C.maxLog)
    (rebuild : Bool) (e : Python.LogEntry) :
    ∃ q, Python.Node.mergeEntry (p, rebuild) e =
        some (q, (C.Node.mergeEntry (x, rebuild) (toEntry e)).2) ∧
      Merged x (C.Node.mergeEntry (x, rebuild) (toEntry e)).1 p q n := by
  have hindex : (toEntry e).index = e.index := rfl
  have hhas := h.toLogsMatch.hasLogIndex e.index
  have hstay : Merged x x p p n := ⟨h, by omega, rfl, rfl⟩
  rw [C.Node.mergeEntry, Python.Node.mergeEntry, hindex, ← hhas, ← h.snapIndex]
  by_cases hsnap : e.index ≤ x.snapshotLastIncludedIndex
  · rw [if_pos hsnap, if_pos hsnap]
    exact ⟨p, rfl, hstay⟩
  rw [if_neg hsnap, if_neg hsnap]
  by_cases hk : x.hasLogIndex e.index = true
  · rw [if_pos hk, if_pos hk, conflicts_eq h.toLogsMatch hk]
    cases hconf : x.conflicts (toEntry e) with
    | false => exact ⟨p, rfl, hstay⟩
    | true =>
        have hshort : (x.log.take (x.physicalIndex e.index).toNat).length ≤ x.log.length :=
          List.length_take_le' _ _
        obtain ⟨hrep, hroom', hout, hout'⟩ :=
          (h.truncate hk).appendNext (n := n) (by dsimp only; omega) e
        refine ⟨_, ?_, hrep, hroom', hout, hout'.trans (truncate_outbox p _)⟩
        rw [← h.applied]
        rfl
  · rw [if_neg hk, if_neg hk]
    exact ⟨_, rfl, h.appendNext hroom e⟩

/-- **The whole batch**, by induction on it. -/
lemma mergeEntries (es : List Python.LogEntry) : ∀ {x : C.Node σ} {p : Python.Node τ ν}
    (_ : Represents x p) (_ : x.log.length + es.length ≤ C.maxLog) (rebuild : Bool),
    ∃ q, es.foldlM Python.Node.mergeEntry (p, rebuild) =
        some (q, ((es.map toEntry).foldl C.Node.mergeEntry (x, rebuild)).2) ∧
      Merged x ((es.map toEntry).foldl C.Node.mergeEntry (x, rebuild)).1 p q 0 := by
  induction es with
  | nil => exact fun {x p} h hroom rebuild => ⟨p, rfl, h, hroom, rfl, rfl⟩
  | cons e es ih =>
      intro x p h hroom rebuild
      rw [List.length_cons] at hroom
      obtain ⟨q, hq, hstep⟩ := h.mergeEntry hroom rebuild e
      obtain ⟨q', hq', hrest⟩ := ih hstep.represents hstep.room
        (C.Node.mergeEntry (x, rebuild) (toEntry e)).2
      refine ⟨q', ?_, hrest.represents, hrest.room, hrest.outbox.trans hstep.outbox,
        hrest.outbox'.trans hstep.outbox'⟩
      rw [List.foldlM_cons, hq, List.map_cons, List.foldl_cons]
      exact hq'

/-- **The commit index** after the batch; a rebuilt application starts from the snapshot. -/
lemma settleCommit (h : Represents x p) (A : C.Application σ) (E : Python.Env τ ν)
    (disk : Python.Disk ν) (rebuild : Bool) (hm : SameMessage m m') :
    Represents (x.settleCommit A m rebuild)
        (p.settleCommit E disk rebuild m'.leaderCommit) ∧
      (x.settleCommit A m rebuild).outbox = x.outbox ∧
      (p.settleCommit E disk rebuild m'.leaderCommit).outbox = p.outbox := by
  have hlast := h.toLogsMatch.lastLogIndex
  obtain ⟨u, hu⟩ := C.resetApplication_eq (A := A)
    { x with commitIndex := min m.leaderCommit x.lastLogIndex }
  rw [C.Node.settleCommit, Python.Node.settleCommit, ← hm.leaderCommit, ← hlast, ← h.commit]
  cases rebuild with
  | true =>
      rw [if_pos rfl, if_pos rfl]
      dsimp only
      rw [hu]
      exact ⟨⟨⟨h.log, h.snapIndex, h.snapTerm, rfl, h.snapIndex⟩, h.id, h.term, h.vote, h.leader,
        h.old, h.new, h.configIndex⟩, rfl, rfl⟩
  | false =>
      rw [if_neg Bool.false_ne_true, if_neg Bool.false_ne_true]
      split
      · exact ⟨⟨⟨h.log, h.snapIndex, h.snapTerm, rfl, h.applied⟩, h.id, h.term, h.vote, h.leader,
          h.old, h.new, h.configIndex⟩, rfl, rfl⟩
      · split
        · exact ⟨⟨⟨h.log, h.snapIndex, h.snapTerm, rfl, h.applied⟩, h.id, h.term, h.vote,
            h.leader, h.old, h.new, h.configIndex⟩, rfl, rfl⟩
        · exact ⟨h, rfl, rfl⟩

/-! ### The handlers -/

/-- The term update; only the Python one changes the role as well. -/
lemma handleTermUpdate (h : Represents x p) (hm : SameMessage m m') :
    Represents (x.handleTermUpdate m) (p.handleTermUpdate m') ∧
      (x.handleTermUpdate m).outbox = x.outbox ∧ (p.handleTermUpdate m').outbox = p.outbox ∧
      (x.handleTermUpdate m).log = x.log := by
  rw [C.Node.handleTermUpdate, Python.Node.handleTermUpdate, ← hm.term, ← h.term]
  split
  · exact ⟨⟨⟨h.log, h.snapIndex, h.snapTerm, h.commit, h.applied⟩, h.id, rfl, sameId_none,
      sameId_none, h.old, h.new, h.configIndex⟩, rfl, rfl, rfl⟩
  · exact ⟨h, rfl, rfl, rfl⟩

end Represents

/-- The two nodes stand for the same node again, and each has queued one reply, the same. -/
structure SameAnswer (x x' : C.Node σ) (p p' : Python.Node τ ν) : Prop where
  represents : Represents x' p'
  reply : ∃ r r', SameMessage r r' ∧ x'.outbox = x.outbox ++ [r] ∧ p'.outbox = p.outbox ++ [r']

/-- Members that are not there yet are added at the end. -/
lemma mem_addMembers (new : List Python.Str) : ∀ old : List Python.Str, ∀ a,
    a ∈ new.foldl (fun ms m => if m ∈ ms then ms else ms ++ [m]) old ↔ a ∈ old ∨ a ∈ new := by
  induction new with
  | nil => simp
  | cons b new ih =>
      intro old a
      rw [List.foldl_cons, ih]
      split
      · rename_i hb
        constructor
        · rintro (h | h)
          · exact Or.inl h
          · exact Or.inr (List.mem_cons_of_mem b h)
        · rintro (h | h)
          · exact Or.inl h
          · cases h with
            | head => exact Or.inl hb
            | tail _ h => exact Or.inr h
      · simp [or_assoc]

namespace Represents

/-- Voting members of the two configurations. -/
lemma isMember (h : Represents x p) : x.selfIsMember = p.isVotingMember := by
  have hmem : x.config.nodeId ∈ x.configState.oldMembers ∨
      x.config.nodeId ∈ x.configState.newMembers ↔
      p.config.nodeId ∈ p.configState.allMembers := by
    rw [Python.ClusterConfiguration.allMembers, h.new, ← h.id, ← h.old]
    by_cases hnew : x.configState.newMembers = []
    · simp [hnew]
    · rw [if_neg hnew, mem_addMembers]
  rw [C.Node.selfIsMember, Python.Node.isVotingMember, ← decide_eq_decide.mpr hmem,
    Bool.decide_or, List.contains_eq_mem, List.contains_eq_mem]

/-- A vote that has not been given to somebody else. -/
lemma voteFree (h : Represents x p) (id : C.CString) :
    (p.votedFor = none ∨ p.votedFor = some id) ↔ (x.votedFor = [] ∨ x.votedFor = id) := by
  have hvote := h.vote
  rw [SameId] at hvote
  rw [hvote]
  by_cases hv : x.votedFor = []
  · simp [hv]
  · simp [hv]

/-- **The test of a vote request.** -/
lemma grantsVote (h : Represents x p) (hm : SameMessage m m') :
    p.grantsVote m' = x.grantsVote m := by
  rw [Python.Node.grantsVote, C.Node.grantsVote, ← h.isMember, ← hm.term, ← h.term, ← hm.source,
    decide_eq_decide.mpr (h.voteFree _), Bool.decide_or, Python.Node.candidateIsUpToDate,
    C.Node.candidateIsUpToDate, ← hm.lastLogTerm, ← hm.lastLogIndex,
    ← h.toLogsMatch.lastLogTerm, ← h.toLogsMatch.lastLogIndex]

/-- A reply of each goes to the end of an outbox with room. -/
lemma answer {y : C.Node σ} {q : Python.Node τ ν} {r : C.Message} {r' : Python.Message}
    (h : Represents y q) (hr : SameMessage r r') (hout : y.outbox = x.outbox)
    (hout' : q.outbox = p.outbox) (hspace : x.outbox.length < C.maxQueue) :
    SameAnswer x (y.queueMessage r) p { q with outbox := q.outbox ++ [r'] } := by
  rw [C.Node.queueMessage, if_pos (by rw [hout]; exact hspace)]
  refine ⟨⟨⟨h.log, h.snapIndex, h.snapTerm, h.commit, h.applied⟩, h.id, h.term, h.vote, h.leader,
    h.old, h.new, h.configIndex⟩, r, r', hr, ?_, ?_⟩
  · rw [← hout]
  · rw [← hout']

/-- **A vote request.** -/
lemma handleVoteRequest (h : Represents x p) (hm : SameMessage m m')
    (hid : C.FitsBuffer C.maxId x.config.nodeId) (hsource : C.FitsBuffer C.maxId m.source)
    (hne : m.source ≠ []) (hspace : x.outbox.length < C.maxQueue) :
    SameAnswer x (x.handleVoteRequest m) p (p.handleRequestVote m') := by
  obtain ⟨hterm, hout, hout', -⟩ := h.handleTermUpdate hm
  have hidy : (x.handleTermUpdate m).config.nodeId = x.config.nodeId := by
    rw [hterm.id, h.id, Python.Node.handleTermUpdate]
    split <;> rfl
  have hcopy : C.strncpy C.maxId m.source = m.source := C.strncpy_of_fits hsource
  have hself : C.strncpy C.maxId (x.handleTermUpdate m).config.nodeId =
      (p.handleTermUpdate m').config.nodeId := by
    rw [hidy, C.strncpy_of_fits hid, ← hidy, hterm.id]
  rw [C.Node.handleVoteRequest, Python.Node.handleRequestVote, Python.Node.answerRequestVote,
    hterm.grantsVote hm]
  cases (x.handleTermUpdate m).grantsVote m with
  | false =>
      exact hterm.answer ⟨rfl, hterm.term, hself, hcopy.trans hm.source, rfl, rfl, rfl, rfl, rfl,
        rfl, rfl, rfl, rfl, rfl⟩ hout hout' hspace
  | true =>
      have hvote : Represents ((x.handleTermUpdate m).castVote m)
          (Python.Node.contact
            { p.handleTermUpdate m' with votedFor := some m'.source, persistDirty := true }) := by
        refine ⟨⟨hterm.log, hterm.snapIndex, hterm.snapTerm, hterm.commit, hterm.applied⟩,
          hterm.id, hterm.term, ?_, hterm.leader, hterm.old, hterm.new, hterm.configIndex⟩
        change SameId (C.strncpy C.maxId m.source) (some m'.source)
        rw [hcopy, ← hm.source]
        exact sameId_some hne
      exact hvote.answer ⟨rfl, hterm.term, hself, hcopy.trans hm.source, rfl, rfl, rfl, rfl, rfl,
        rfl, rfl, rfl, rfl, rfl⟩ hout hout' hspace

/-- **A batch from a leader** of the term of the node. -/
lemma appendEntriesFromLeader (h : Represents x p) (A : C.Application σ) (E : Python.Env τ ν)
    (disk : Python.Disk ν) (hm : SameMessage m m')
    (hroom : x.log.length + m.entries.length ≤ C.maxLog) :
    ∃ q, Python.Node.appendEntriesFromLeader E disk p m' =
        some (q, (x.appendEntriesFromLeader A m).2) ∧
      Represents (x.appendEntriesFromLeader A m).1 q ∧
      (x.appendEntriesFromLeader A m).1.outbox = x.outbox ∧ q.outbox = p.outbox := by
  rw [C.Node.appendEntriesFromLeader, Python.Node.appendEntriesFromLeader,
    prevMatches_eq h.toLogsMatch hm]
  cases hprev : x.prevMatches m with
  | false => exact ⟨p, rfl, h, rfl, rfl⟩
  | true =>
      rw [hm.entries, List.length_map] at hroom
      obtain ⟨q, hq, hmerged⟩ := h.mergeEntries m'.entries hroom false
      obtain ⟨hrep, hout, hout'⟩ := hmerged.represents.settleCommit A E disk
        ((m'.entries.map toEntry).foldl C.Node.mergeEntry (x, false)).2 hm
      rw [if_pos rfl, hm.entries]
      refine ⟨_, ?_, hrep, hout.trans hmerged.outbox, hout'.trans hmerged.outbox'⟩
      change ((p.mergeEntries m'.entries).bind fun r => some
        (r.1.settleCommit E disk r.2 m'.leaderCommit, true)) = _
      rw [Python.Node.mergeEntries, hq]
      rfl

/-- The replies to an append request. -/
lemma appendResponse (h : Represents x p) (hm : SameMessage m m')
    (hid : C.FitsBuffer C.maxId x.config.nodeId) (hsource : C.FitsBuffer C.maxId m.source)
    (success : Bool) :
    SameMessage (x.appendResponse m success)
      { kind := .appendEntriesResponse, term := p.currentTerm, source := p.config.nodeId
        target := m'.source, success := success, matchIndex := p.lastLogIndex } where
  kind := rfl
  term := h.term
  source := (C.strncpy_of_fits hid).trans h.id
  target := (C.strncpy_of_fits hsource).trans hm.source
  granted := rfl
  success := rfl
  prevLogIndex := rfl
  prevLogTerm := rfl
  prevLogLeaderId := rfl
  leaderCommit := rfl
  matchIndex := h.toLogsMatch.lastLogIndex
  lastLogIndex := rfl
  lastLogTerm := rfl
  entries := rfl

/-- **An append request.** -/
lemma handleAppendEntries (h : Represents x p) (A : C.Application σ) (E : Python.Env τ ν)
    (disk : Python.Disk ν) (hm : SameMessage m m')
    (hid : C.FitsBuffer C.maxId x.config.nodeId) (hsource : C.FitsBuffer C.maxId m.source)
    (hne : m.source ≠ []) (hroom : x.log.length + m.entries.length ≤ C.maxLog)
    (hspace : x.outbox.length < C.maxQueue) :
    ∃ p', p.handleAppendEntries E disk m' = some p' ∧
      SameAnswer x (x.handleAppendEntries A m) p p' := by
  obtain ⟨hterm, hout, hout', hlog⟩ := h.handleTermUpdate hm
  have hidy : (x.handleTermUpdate m).config = x.config := by
    rw [C.Node.handleTermUpdate]
    split <;> rfl
  have hsame : m'.term = (p.handleTermUpdate m').currentTerm ↔
      m.term = (x.handleTermUpdate m).currentTerm := by
    rw [hm.term, hterm.term]
  rw [Python.Node.handleAppendEntries, Python.Node.takeBatch, C.Node.handleAppendEntries]
  by_cases hcur : m.term = (x.handleTermUpdate m).currentTerm
  · rw [if_pos hcur, if_pos (hsame.mpr hcur)]
    have hheard : Represents ((x.handleTermUpdate m).hearLeader m)
        (Python.Node.contact { p.handleTermUpdate m' with leaderId := some m'.source }) := by
      refine ⟨⟨hterm.log, hterm.snapIndex, hterm.snapTerm, hterm.commit, hterm.applied⟩,
        hterm.id, hterm.term, hterm.vote, ?_, hterm.old, hterm.new, hterm.configIndex⟩
      change SameId (C.strncpy C.maxId m.source) (some m'.source)
      rw [C.strncpy_of_fits hsource, ← hm.source]
      exact sameId_some hne
    have hfits : ((x.handleTermUpdate m).hearLeader m).log.length + m.entries.length ≤
        C.maxLog := by
      change (x.handleTermUpdate m).log.length + _ ≤ _
      rw [hlog]
      exact hroom
    obtain ⟨q, hq, hrep, hkept, hkept'⟩ := hheard.appendEntriesFromLeader A E disk hm hfits
    have hconfig : (((x.handleTermUpdate m).hearLeader m).appendEntriesFromLeader A m).1.config =
        x.config := (C.still_appendEntriesFromLeader _ m).config.trans hidy
    exact ⟨_, Option.bind_eq_some_iff.mpr ⟨_, hq, rfl⟩,
      hrep.answer (hrep.appendResponse hm (by rw [hconfig]; exact hid) hsource _)
        (hkept.trans hout) (hkept'.trans hout') hspace⟩
  · rw [if_neg hcur, if_neg (mt hsame.mp hcur)]
    exact ⟨_, rfl, hterm.answer (hterm.appendResponse hm (by rw [hidy]; exact hid) hsource false)
      hout hout' hspace⟩

end Represents

/-- **The handlers agree**: on nodes that stand for the same node, with room in the C log for the
batch and in the C outbox for the reply, a message from a named node leads to nodes that stand for
the same node, and the same reply is queued. -/
theorem handlers_agree (A : C.Application σ) (E : Python.Env τ ν) (disk : Python.Disk ν)
    (x : C.Node σ) (p : Python.Node τ ν) (m : C.Message) (m' : Python.Message)
    (h : Represents x p) (hm : SameMessage m m') (hid : C.FitsBuffer C.maxId x.config.nodeId)
    (hsource : C.FitsBuffer C.maxId m.source) (hne : m.source ≠ [])
    (hroom : x.log.length + m.entries.length ≤ C.maxLog) (hspace : x.outbox.length < C.maxQueue) :
    (m.kind = .requestVote →
      SameAnswer x (x.handleVoteRequest m) p (p.handleRequestVote m')) ∧
    (m.kind = .appendEntries → ∃ p', p.handleAppendEntries E disk m' = some p' ∧
      SameAnswer x (x.handleAppendEntries A m) p p') :=
  ⟨fun _ => h.handleVoteRequest hm hid hsource hne hspace,
    fun _ => h.handleAppendEntries A E disk hm hid hsource hne hroom hspace⟩

/-! ### Two nodes and the messages that tell them apart -/

/-- A C node that is alone in its configuration. -/
def lonelyC (outbox : List C.Message) : C.Node Unit :=
  { C.Node.zero (C.threeConfig ['n', '1']) () 0 with
    configState := ⟨[['n', '1']], [], 0⟩, outbox := outbox }

/-- The same node in Python. -/
def lonelyPython : Python.Node Unit Unit :=
  Python.Node.blank (Python.impatient [['n', '1']] ['n', '1']) () 0

/-- A vote request in C. -/
def voteRequestC (source : C.CString) : C.Message :=
  { kind := .requestVote, term := 1, source := source, target := ['n', '1'] }

/-- The same request in Python. -/
def voteRequestPython (source : Python.Str) : Python.Message :=
  { kind := .requestVote, term := 1, source := source, target := ['n', '1'] }

lemma represents_lonely (outbox : List C.Message) : Represents (lonelyC outbox) lonelyPython := by
  have hold : [['n', '1']] = lonelyPython.configState.oldMembers := by decide
  exact ⟨⟨rfl, rfl, rfl, rfl, rfl⟩, rfl, rfl, sameId_none, sameId_none, hold, rfl, rfl⟩

lemma sameMessage_voteRequest (source : C.CString) :
    SameMessage (voteRequestC source) (voteRequestPython source) :=
  ⟨rfl, rfl, rfl, rfl, rfl, rfl, rfl, rfl, rfl, rfl, rfl, rfl, rfl, rfl⟩

/-- The log of a node that applied two commands of the first term. -/
def appliedLog : List Python.LogEntry :=
  [⟨1, 1, ⟨['s', 'e', 't'], ['x'], some ['1']⟩, ['n', '1']⟩,
   ⟨2, 1, ⟨['s', 'e', 't'], ['x'], some ['2']⟩, ['n', '1']⟩]

/-- What a leader of the second term has instead of the second one, and after it. -/
def newerLog : List Python.LogEntry :=
  [⟨2, 2, ⟨['d', 'e', 'l'], ['x'], none⟩, ['n', '2']⟩,
   ⟨3, 2, ⟨['s', 'e', 't'], ['y'], some ['1']⟩, ['n', '2']⟩]

/-- The C node that applied the two. -/
def appliedC : C.Node Unit :=
  { lonelyC [] with
    currentTerm := 1, log := appliedLog.map toEntry, commitIndex := 2, lastApplied := 2 }

/-- The same node in Python. -/
def appliedPython : Python.Node Unit Unit :=
  { lonelyPython with currentTerm := 1, log := appliedLog, commitIndex := 2, lastApplied := 2 }

/-- The batch of the new leader in C. -/
def newerBatchC : C.Message :=
  { kind := .appendEntries, term := 2, source := ['n', '2'], target := ['n', '1']
    prevLogIndex := 1, prevLogTerm := 1, prevLogLeaderId := ['n', '1'], leaderCommit := 3
    entries := newerLog.map toEntry }

/-- The same batch in Python. -/
def newerBatchPython : Python.Message :=
  { kind := .appendEntries, term := 2, source := ['n', '2'], target := ['n', '1']
    prevLogIndex := 1, prevLogTerm := 1, prevLogLeaderId := ['n', '1'], leaderCommit := 3
    entries := newerLog }

lemma represents_applied : Represents appliedC appliedPython := by
  obtain ⟨-, hid, -, hvote, hleader, hold, hnew, hindex⟩ := represents_lonely []
  exact ⟨⟨rfl, rfl, rfl, rfl, rfl⟩, hid, rfl, hvote, hleader, hold, hnew, hindex⟩

lemma sameMessage_newerBatch : SameMessage newerBatchC newerBatchPython :=
  ⟨rfl, rfl, rfl, rfl, rfl, rfl, rfl, rfl, rfl, rfl, rfl, rfl, rfl, rfl⟩

/-- The request of a named node is answered in the same way, and so is a batch that replaces an
applied entry. -/
theorem handlers_agree_lonely :
    (Represents (lonelyC []) lonelyPython ∧
      SameAnswer (lonelyC []) ((lonelyC []).handleVoteRequest (voteRequestC ['n', '2']))
        lonelyPython (lonelyPython.handleRequestVote (voteRequestPython ['n', '2'])) ∧
      (lonelyC []).votedFor = [] ∧
      ((lonelyC []).handleVoteRequest (voteRequestC ['n', '2'])).votedFor = ['n', '2']) ∧
    Represents appliedC appliedPython ∧
    ∃ p', appliedPython.handleAppendEntries Python.quiet Python.Disk.empty newerBatchPython =
        some p' ∧
      SameAnswer appliedC (appliedC.handleAppendEntries C.silent newerBatchC) appliedPython p' ∧
      p'.log = appliedLog.take 1 ++ newerLog ∧ p'.commitIndex = 3 ∧ p'.lastApplied = 0 := by
  have hagree := handlers_agree C.silent Python.quiet (Python.Disk.empty) (lonelyC []) lonelyPython
    (voteRequestC ['n', '2']) (voteRequestPython ['n', '2']) (represents_lonely [])
    (sameMessage_voteRequest _) (by decide) (by decide) (by decide) (by decide) (by decide)
  obtain ⟨p', hp', hanswer⟩ := (handlers_agree C.silent Python.quiet Python.Disk.empty appliedC
    appliedPython newerBatchC newerBatchPython represents_applied sameMessage_newerBatch
    (by decide) (by decide) (by decide) (by decide) (by decide)).2 rfl
  have hresult : (appliedPython.handleAppendEntries Python.quiet Python.Disk.empty
      newerBatchPython).any (fun p' => decide (p'.log = appliedLog.take 1 ++ newerLog ∧
        p'.commitIndex = 3 ∧ p'.lastApplied = 0)) = true := by
    decide +kernel
  rw [hp', Option.any_some, decide_eq_true_eq] at hresult
  exact ⟨⟨represents_lonely [], hagree.1 rfl, rfl, by decide⟩, represents_applied, p', hp', hanswer,
    hresult⟩

/-- A full outbox stays as it is. -/
lemma handleVoteRequest_full (m : C.Message) (hfull : ¬ x.outbox.length < C.maxQueue) :
    (x.handleVoteRequest m).outbox = x.outbox := by
  have hterm : (x.handleTermUpdate m).outbox = x.outbox := by
    rw [C.Node.handleTermUpdate]
    split <;> rfl
  rw [C.Node.handleVoteRequest, C.Node.queueMessage]
  cases (x.handleTermUpdate m).grantsVote m with
  | false =>
      rw [if_neg Bool.false_ne_true, if_neg (by rw [hterm]; exact hfull)]
      exact hterm
  | true =>
      have hcast : ((x.handleTermUpdate m).castVote m).outbox = x.outbox := hterm
      rw [if_pos rfl, if_neg (by rw [hcast]; exact hfull)]
      exact hcast

/-- **Where they differ**: a vote for a node without a name is no vote in C, and a full outbox of
the C node takes no reply. -/
theorem handlers_differ :
    (Represents (lonelyC []) lonelyPython ∧
      SameMessage (voteRequestC []) (voteRequestPython []) ∧
      ¬ Represents ((lonelyC []).handleVoteRequest (voteRequestC []))
        (lonelyPython.handleRequestVote (voteRequestPython []))) ∧
    (Represents (lonelyC (List.replicate C.maxQueue (voteRequestC []))) lonelyPython ∧
      SameMessage (voteRequestC ['n', '2']) (voteRequestPython ['n', '2']) ∧
      ¬ SameAnswer (lonelyC (List.replicate C.maxQueue (voteRequestC [])))
        ((lonelyC (List.replicate C.maxQueue (voteRequestC []))).handleVoteRequest
          (voteRequestC ['n', '2']))
        lonelyPython (lonelyPython.handleRequestVote (voteRequestPython ['n', '2']))) := by
  refine ⟨⟨represents_lonely _, sameMessage_voteRequest _, fun h => ?_⟩,
    represents_lonely _, sameMessage_voteRequest _, fun h => ?_⟩
  · have hvote : SameId [] (some []) := h.vote
    exact absurd hvote (by rw [SameId]; decide)
  · obtain ⟨r, -, -, hout, -⟩ := h.reply
    rw [handleVoteRequest_full _ (by change ¬ (List.replicate _ _).length < _; simp)] at hout
    exact absurd (congrArg List.length hout) (by simp)

end RaftRx.Agreement
