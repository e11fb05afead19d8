import RaftRx.C.AppendMerge

/-!
Compaction keeps the logical log.

`node_do_compact` drops the entries up to the compactible index and remembers the term of the last
one it drops.  What the protocol reads of the log, from that index on, is what it read before.

* `SameLog`: the logs of two nodes read the same from the snapshot of the second one on;
* `doCompact_sameLog`: compaction leads to such a log and changes no other protocol field;
* `doCompact_accepts`: which batches are accepted after it.
-/

namespace RaftRx.C

open Protocol (Role)

variable {σ : Type*} {A : Application σ} {x y : Node σ}

/-- From its snapshot on, the log of `y` reads as that of `x`; the rest of the node is the same. -/
structure SameLog (x y : Node σ) : Prop where
  lastIndex : y.lastLogIndex = x.lastLogIndex
  lastTerm : y.lastLogTerm = x.lastLogTerm
  term : ∀ i, y.snapshotLastIncludedIndex ≤ i → i ≤ y.lastLogIndex →
    y.termAtIndex i = x.termAtIndex i
  entry : ∀ i, y.snapshotLastIncludedIndex < i → i ≤ y.lastLogIndex → y.entryAt i = x.entryAt i
  upToDate : ∀ m, y.candidateIsUpToDate m = x.candidateIsUpToDate m
  contiguous : y.Contiguous
  /-- Only the log, the snapshot and the mark for saving differ. -/
  frame : ∃ (buf : List UInt8) (log : List LogEntry) (s t : ℤ) (d : Bool), y = { x with
    snapshotBuf := buf, log := log, snapshotLastIncludedIndex := s
    snapshotLastIncludedTerm := t, persistDirty := d }

/-- Both logs are compared with a candidate's by their last index and term. -/
lemma candidateIsUpToDate_congr (hi : y.lastLogIndex = x.lastLogIndex)
    (ht : y.lastLogTerm = x.lastLogTerm) (m : Message) :
    y.candidateIsUpToDate m = x.candidateIsUpToDate m := by
  rw [Node.candidateIsUpToDate, Node.candidateIsUpToDate, hi, ht]

lemma SameLog.refl (hx : x.Contiguous) : SameLog x x where
  lastIndex := rfl
  lastTerm := rfl
  term := fun _ _ _ => rfl
  entry := fun _ _ _ => rfl
  upToDate := fun _ => rfl
  contiguous := hx
  frame := ⟨x.snapshotBuf, x.log, _, _, x.persistDirty, rfl⟩

/-- The node whose first `k` entries were dropped. -/
def Node.dropped (x : Node σ) (k : ℕ) (buf : List UInt8) : Node σ :=
  { x with
    snapshotBuf := buf
    log := x.log.drop k
    snapshotLastIncludedIndex := x.snapshotLastIncludedIndex + k
    snapshotLastIncludedTerm := x.termAtIndex (x.snapshotLastIncludedIndex + k)
    persistDirty := true }

/-- Compaction drops a part of the log, up to the compactible index, and saves a snapshot of it, or
does nothing. -/
lemma doCompact_cases (x : Node σ) : x.doCompact A = (x, none) ∨
    ∃ (k : ℕ) (buf : List UInt8), 0 < k ∧ k ≤ x.log.length ∧
      x.doCompact A = (x.dropped k buf, some ⟨x.snapshotLastIncludedIndex + k,
        x.termAtIndex (x.snapshotLastIncludedIndex + k), buf⟩) := by
  rw [Node.doCompact]
  dsimp only
  split
  · exact Or.inl rfl
  · rename_i h
    simp only [not_or, not_le, not_lt, Node.lastLogIndex] at h
    obtain ⟨k, hk⟩ : ∃ k : ℕ, x.compactibleIndex = x.snapshotLastIncludedIndex + k :=
      ⟨(x.compactibleIndex - x.snapshotLastIncludedIndex).toNat, by omega⟩
    have hkeep : (x.compactibleIndex - x.snapshotLastIncludedIndex).toNat = k := by omega
    rw [hkeep, hk]
    exact Or.inr ⟨k, _, by omega, by omega, rfl⟩

section Dropped

variable {k : ℕ} {buf : List UInt8}

lemma dropped_lastIndex (hk : k ≤ x.log.length) :
    (x.dropped k buf).lastLogIndex = x.lastLogIndex := by
  rw [Node.lastLogIndex, Node.lastLogIndex, Node.dropped]
  dsimp only
  rw [List.length_drop]
  omega

/-- The entries that are left are where they were. -/
lemma dropped_entryAt {i : ℤ} (hlo : x.snapshotLastIncludedIndex + k < i)
    (hhi : i ≤ x.lastLogIndex) : (x.dropped k buf).entryAt i = x.entryAt i := by
  rw [Node.lastLogIndex] at hhi
  obtain ⟨j, hj⟩ : ∃ j : ℕ, i = x.snapshotLastIncludedIndex + k + j + 1 :=
    ⟨(i - x.snapshotLastIncludedIndex - k - 1).toNat, by omega⟩
  have hget : x.log[k + j]? = some x.log[k + j] := List.getElem?_eq_getElem (by omega)
  have hdrop : (x.dropped k buf).log[j]? = some x.log[k + j] := by
    rw [Node.dropped, List.getElem?_drop, hget]
  have hx := Node.entryAt_eq hget
  have hy := Node.entryAt_eq hdrop
  push_cast at hx
  rw [show i = x.snapshotLastIncludedIndex + (k + j) + 1 by omega, hx, ← hy]
  congr 1
  rw [Node.dropped]
  ring

/-- The last term is that of the last entry, or of the snapshot when all entries are dropped. -/
lemma dropped_lastTerm (hs : 0 ≤ x.snapshotLastIncludedIndex) (hpos : 0 < k)
    (hk : k ≤ x.log.length) : (x.dropped k buf).lastLogTerm = x.lastLogTerm := by
  obtain ⟨e, he⟩ : ∃ e, x.log[x.log.length - 1]? = some e :=
    ⟨_, List.getElem?_eq_getElem (by omega)⟩
  have hlast : x.log.getLast? = some e := by
    rw [List.getLast?_eq_getElem?, he]
  rw [Node.lastLogTerm, Node.lastLogTerm, hlast, Node.dropped]
  dsimp only
  rcases hk.lt_or_eq with hlt | rfl
  · have hdrop : (x.log.drop k).getLast? = some e := by
      rw [List.getLast?_drop, if_neg (by omega), hlast]
    rw [hdrop]
  · rw [List.drop_length]
    have hterm := Node.termAtIndex_eq hs he
    rw [show x.snapshotLastIncludedIndex + ((x.log.length - 1 : ℕ) : ℤ) + 1
      = x.snapshotLastIncludedIndex + x.log.length by omega] at hterm
    exact hterm

/-- The terms that are left are where they were, that of the snapshot included. -/
lemma dropped_termAtIndex_pos (hpos : 0 < k) {i : ℤ} (hi : 0 < i)
    (hlo : x.snapshotLastIncludedIndex + k ≤ i) (hhi : i ≤ x.lastLogIndex) :
    (x.dropped k buf).termAtIndex i = x.termAtIndex i := by
  rcases hlo.lt_or_eq with hlt | rfl
  · have hsnap : ¬ i = (x.dropped k buf).snapshotLastIncludedIndex := by
      rw [Node.dropped]
      dsimp only
      omega
    rw [Node.termAtIndex, if_neg (by omega), if_neg hsnap, Node.termAtIndex, if_neg (by omega),
      if_neg (by omega), dropped_entryAt hlt hhi]
  · rw [Node.termAtIndex, if_neg (by omega), Node.dropped]
    exact if_pos rfl

lemma dropped_termAtIndex (hs : 0 ≤ x.snapshotLastIncludedIndex) (hpos : 0 < k) {i : ℤ}
    (hlo : x.snapshotLastIncludedIndex + k ≤ i) (hhi : i ≤ x.lastLogIndex) :
    (x.dropped k buf).termAtIndex i = x.termAtIndex i :=
  dropped_termAtIndex_pos hpos (by omega) hlo hhi

lemma dropped_contiguous (hx : x.Contiguous) : (x.dropped k buf).Contiguous := by
  intro j e he
  rw [Node.dropped, List.getElem?_drop] at he
  rw [hx (k + j) e he, Node.dropped]
  push_cast
  ring

/-- Dropping entries keeps the logical log. -/
lemma sameLog_dropped (hx : x.Contiguous) (hs : 0 ≤ x.snapshotLastIncludedIndex) (hpos : 0 < k)
    (hk : k ≤ x.log.length) : SameLog x (x.dropped k buf) where
  lastIndex := dropped_lastIndex hk
  lastTerm := dropped_lastTerm hs hpos hk
  term := fun i hlo hhi => by
    rw [dropped_lastIndex hk] at hhi
    exact dropped_termAtIndex hs hpos hlo hhi
  entry := fun i hlo hhi => by
    rw [dropped_lastIndex hk] at hhi
    exact dropped_entryAt hlo hhi
  upToDate := candidateIsUpToDate_congr (dropped_lastIndex hk) (dropped_lastTerm hs hpos hk)
  contiguous := dropped_contiguous hx
  frame := ⟨_, _, _, _, _, rfl⟩

end Dropped

/-- **Compaction keeps the logical log**, in any role and whatever the match indices. -/
theorem doCompact_sameLog (A : Application σ) (x : Node σ) (hx : x.Contiguous)
    (hs : 0 ≤ x.snapshotLastIncludedIndex) : SameLog x (x.doCompact A).1 := by
  rcases doCompact_cases (A := A) x with h | ⟨k, buf, hpos, hk, h⟩
  · rw [h]
    exact SameLog.refl hx
  · rw [h]
    exact sameLog_dropped hx hs hpos hk

/-- A node that has applied the first two of its three entries. -/
def appliedTwo : Node Unit := { staleFollower with commitIndex := 2, lastApplied := 2 }

/-- It drops two entries, and its log still ends with the third. -/
theorem doCompact_appliedTwo : (appliedTwo.doCompact silent).1.log = [entryOf 3 1 "n1"] ∧
    SameLog appliedTwo (appliedTwo.doCompact silent).1 :=
  ⟨by decide, doCompact_sameLog silent appliedTwo contiguous_staleFollower (by decide)⟩

/-! ### Accepted batches -/

/-- The message names another creator for the entry before its batch than the log does. -/
def Node.creatorConflicts (node : Node σ) (message : Message) : Bool :=
  decide (0 < message.prevLogIndex) && decide (message.prevLogLeaderId ≠ []) &&
    decide (node.leaderAtIndex message.prevLogIndex ≠ message.prevLogLeaderId)

/-- A batch that begins after a live entry is accepted by its term and its creator. -/
lemma prevMatches_live {m : Message} (hhas : x.hasLogIndex m.prevLogIndex = true) :
    x.prevMatches m = (!(decide (0 < m.prevLogIndex) &&
      decide (x.termAtIndex m.prevLogIndex ≠ m.prevLogTerm)) && !x.creatorConflicts m) := by
  have hrange := hhas
  rw [Node.hasLogIndex, Bool.and_eq_true, decide_eq_true_eq, decide_eq_true_eq, Node.logBaseIndex]
    at hrange
  rw [Node.prevMatches, Node.creatorConflicts, hhas, decide_eq_true (show _ ≤ _ by omega),
    decide_eq_true hrange.2]
  simp only [Bool.true_and, Bool.and_true]

/-- A batch that begins at the snapshot is accepted by its term alone. -/
lemma prevMatches_snapshot {m : Message} (hm : m.prevLogIndex = x.snapshotLastIncludedIndex) :
    x.prevMatches m = !(decide (0 < m.prevLogIndex) &&
      decide (x.termAtIndex m.prevLogIndex ≠ m.prevLogTerm)) := by
  have hhas : x.hasLogIndex m.prevLogIndex = false := by
    rw [Node.hasLogIndex, Node.logBaseIndex, hm, decide_eq_false (by omega), Bool.false_and]
  have hlast : m.prevLogIndex ≤ x.lastLogIndex := by
    rw [hm, Node.lastLogIndex]
    omega
  rw [Node.prevMatches, hhas, decide_eq_true hm.ge, decide_eq_true hlast, Bool.and_false,
    Bool.false_and, Bool.not_false, Bool.and_true, Bool.true_and, Bool.true_and]

lemma snd_appendEntriesFromLeader (x : Node σ) (m : Message) :
    (x.appendEntriesFromLeader A m).2 = x.prevMatches m := by
  rw [Node.appendEntriesFromLeader]
  cases x.prevMatches m with
  | true => rfl
  | false => rfl

section Dropped

variable {k : ℕ} {buf : List UInt8} {m : Message}

lemma dropped_leaderAtIndex {i : ℤ} (hlo : x.snapshotLastIncludedIndex + k < i)
    (hk : k ≤ x.log.length) : (x.dropped k buf).leaderAtIndex i = x.leaderAtIndex i := by
  have hhas : (x.dropped k buf).hasLogIndex i = x.hasLogIndex i := by
    rw [Node.hasLogIndex, Node.hasLogIndex, dropped_lastIndex hk]
    congr 1
    rw [Node.logBaseIndex, Node.logBaseIndex, Node.dropped]
    dsimp only
    rw [decide_eq_true (by omega), decide_eq_true (by omega)]
  rw [Node.leaderAtIndex, Node.leaderAtIndex, hhas]
  by_cases hin : i ≤ 0 ∨ x.hasLogIndex i = false
  · rw [if_pos hin, if_pos hin]
  · rw [not_or, Bool.not_eq_false, Node.hasLogIndex, Bool.and_eq_true, decide_eq_true_eq,
      decide_eq_true_eq] at hin
    have hnot : ¬(i ≤ 0 ∨ x.hasLogIndex i = false) := by
      rw [not_or, Bool.not_eq_false, Node.hasLogIndex, Bool.and_eq_true, decide_eq_true_eq,
        decide_eq_true_eq]
      exact hin
    rw [if_neg hnot, if_neg hnot, dropped_entryAt hlo hin.2.2]

/-- After its new snapshot a node accepts what it accepted before. -/
lemma dropped_prevMatches (hpos : 0 < k) (hk : k ≤ x.log.length)
    (hm : x.snapshotLastIncludedIndex + k < m.prevLogIndex) :
    (x.dropped k buf).prevMatches m = x.prevMatches m := by
  have hsnap : (x.dropped k buf).snapshotLastIncludedIndex = x.snapshotLastIncludedIndex + k := rfl
  have hlast : (x.dropped k buf).lastLogIndex = x.lastLogIndex := dropped_lastIndex hk
  by_cases hin : m.prevLogIndex ≤ x.lastLogIndex
  · have hhas : x.hasLogIndex m.prevLogIndex = true := by
      rw [Node.hasLogIndex, Node.logBaseIndex, decide_eq_true (by omega), decide_eq_true hin,
        Bool.and_true]
    have hhas' : (x.dropped k buf).hasLogIndex m.prevLogIndex = true := by
      rw [Node.hasLogIndex, Node.logBaseIndex, hsnap, hlast, decide_eq_true (by omega),
        decide_eq_true hin, Bool.and_true]
    rw [prevMatches_live hhas, prevMatches_live hhas', Node.creatorConflicts, Node.creatorConflicts,
      dropped_leaderAtIndex hm hk]
    by_cases hprev : 0 < m.prevLogIndex
    · rw [dropped_termAtIndex_pos hpos hprev hm.le hin]
    · simp only [decide_eq_false hprev, Bool.false_and]
  · rw [Node.prevMatches, Node.prevMatches, hlast, decide_eq_false hin, Bool.and_false,
      Bool.and_false, Bool.false_and, Bool.false_and, Bool.false_and, Bool.false_and]

/-- At its new snapshot a node accepts what it accepted before, and also batches whose message
names another creator of the dropped entry. -/
lemma prevMatches_of_dropped {b : List UInt8} (hpos : 0 < k) (hk : k ≤ x.log.length)
    (hm : m.prevLogIndex = x.snapshotLastIncludedIndex + k) :
    x.prevMatches m = ((x.dropped k b).prevMatches m && !x.creatorConflicts m) := by
  have hin : m.prevLogIndex ≤ x.lastLogIndex := by
    rw [hm, Node.lastLogIndex]
    omega
  have hhas : x.hasLogIndex m.prevLogIndex = true := by
    rw [Node.hasLogIndex, Node.logBaseIndex, decide_eq_true (by omega), decide_eq_true hin,
      Bool.and_true]
  rw [prevMatches_live hhas, prevMatches_snapshot (x := x.dropped k b) hm]
  by_cases hprev : 0 < m.prevLogIndex
  · rw [dropped_termAtIndex_pos hpos hprev hm.ge hin]
  · simp only [decide_eq_false hprev, Bool.false_and]

end Dropped

/-- **Compaction and accepted batches**: after a compaction to index `t`, a message that begins after
`t` is accepted if and only if it would have been accepted before.  One that begins at `t` would
have been accepted before if and only if it is accepted now and its creator of the entry at `t`,
which a snapshot does not keep, does not conflict with the one that was in the log. -/
theorem doCompact_accepts (A : Application σ) (x : Node σ) {f : SnapshotFile}
    (hf : (x.doCompact A).2 = some f) (m : Message) :
    (f.index < m.prevLogIndex →
      (((x.doCompact A).1.appendEntriesFromLeader A m).2 = true ↔
        (x.appendEntriesFromLeader A m).2 = true)) ∧
    (m.prevLogIndex = f.index →
      ((x.appendEntriesFromLeader A m).2 = true ↔
        ((x.doCompact A).1.appendEntriesFromLeader A m).2 = true ∧
          x.creatorConflicts m = false)) := by
  rcases doCompact_cases (A := A) x with h | ⟨k, buf, hpos, hk, h⟩
  · rw [h] at hf
    exact absurd hf (by simp)
  · rw [h, Option.some.injEq] at hf
    rw [h, ← hf, snd_appendEntriesFromLeader, snd_appendEntriesFromLeader]
    constructor
    · intro hm
      rw [dropped_prevMatches hpos hk hm]
    · intro hm
      have hsnap := prevMatches_of_dropped (b := buf) hpos hk hm
      rw [hsnap, Bool.and_eq_true, Bool.not_eq_true']

/-- A batch of another cluster that begins after an entry of the log. -/
def mergedBatch (prev : ℤ) (creator : String) : Message :=
  { kind := .appendEntries, term := 1, source := ['n', '3'], target := ['n', '2']
    prevLogIndex := prev, prevLogTerm := 1, prevLogLeaderId := creator.toList }

/-- A node that has dropped two entries still asks for the creator of the third. -/
theorem doCompact_accepts_appliedTwo :
    (((appliedTwo.doCompact silent).1.appendEntriesFromLeader silent (mergedBatch 3 "n3")).2 = true ↔
      (appliedTwo.appendEntriesFromLeader silent (mergedBatch 3 "n3")).2 = true) ∧
    ((appliedTwo.appendEntriesFromLeader silent (mergedBatch 2 "n1")).2 = true ↔
      ((appliedTwo.doCompact silent).1.appendEntriesFromLeader silent (mergedBatch 2 "n1")).2 = true ∧
        appliedTwo.creatorConflicts (mergedBatch 2 "n1") = false) :=
  ⟨(doCompact_accepts silent appliedTwo (f := ⟨2, 1, []⟩) (by decide) (mergedBatch 3 "n3")).1
      (by decide),
    (doCompact_accepts silent appliedTwo (f := ⟨2, 1, []⟩) (by decide) (mergedBatch 2 "n1")).2
      (by decide)⟩

/-- It no longer asks for the creator of the second, which it dropped: a batch that it refused
before is accepted. -/
theorem doCompact_forgets_creator :
    appliedTwo.Contiguous ∧ (appliedTwo.doCompact silent).2 = some ⟨2, 1, []⟩ ∧
      (appliedTwo.appendEntriesFromLeader silent (mergedBatch 2 "n3")).2 = false ∧
      ((appliedTwo.doCompact silent).1.appendEntriesFromLeader silent (mergedBatch 2 "n3")).2 =
        true :=
  ⟨contiguous_staleFollower, by decide, by decide, by decide⟩

end RaftRx.C
