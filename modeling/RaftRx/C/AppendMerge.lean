import RaftRx.C.Turns
import RaftRx.C.ElectionSafety
import RaftRx.Library.Overlay

/-!
What `node_handle_append_entries` makes of a log.

The merge loop skips, truncates and appends.  On a log whose entries carry their indices and a
batch that continues one of them it writes the batch over the log (`overlay`), cut off at the size
of the array.

* `clashes`, `mergeEntries_overlay`: the loop as an overlay, with the flag for a rebuild;
* `Node.answered`, `Node.appendReply`: the handler before its reply is queued, and the reply;
* `handleAppendEntries_merges`: the log and the reply of every batch;
* `handleAppendEntries_twice`: the same batch a second time.
-/

namespace RaftRx.C

open Protocol (Role)

variable {σ : Type*} {A : Application σ} {x y : Node σ} {m : Message} {es : List LogEntry}
  {e e' : LogEntry} {b : Bool} {i : ℕ}

/-! ### The merge loop -/

/-- A stored entry and one of the leader's are not the same: the conflict test of the loop. -/
def clashes (e' e : LogEntry) : Bool :=
  decide (e'.term ≠ e.term) || (decide (e.leaderId ≠ []) && decide (e'.leaderId ≠ e.leaderId))

lemma clashes_self (e : LogEntry) : clashes e e = false := by
  simp [clashes]

/-- The conflict test on an entry whose index the log has. -/
lemma conflicts_eq_clashes (hs : 0 ≤ y.snapshotLastIncludedIndex)
    (he : e.index = y.snapshotLastIncludedIndex + i + 1) (hi : y.log[i]? = some e') :
    y.conflicts e = clashes e' e := by
  have hterm : y.termAtIndex e.index = e'.term := by rw [he]; exact Node.termAtIndex_eq hs hi
  have hlead : y.leaderAtIndex e.index = e'.leaderId := by
    rw [he]
    exact Node.leaderAtIndex_eq hs hi
  rw [Node.conflicts, hterm, hlead]
  rfl

/-- An entry behind a gap is left out. -/
lemma mergeEntry_beyond (he : y.lastLogIndex + 1 < e.index) :
    Node.mergeEntry (y, b) e = (y, b) := by
  rcases mergeEntry_cases y b e with h | ⟨-, hidx, -, -⟩ | ⟨-, hhas, -, -⟩
  · exact h
  · omega
  · rw [Node.hasLogIndex_eq_true] at hhas
    rw [Node.lastLogIndex] at he
    omega

/-- So is a batch that begins behind a gap. -/
lemma mergeEntries_beyond (es : List LogEntry) :
    (∀ e ∈ es, y.lastLogIndex + 1 < e.index) → es.foldl Node.mergeEntry (y, b) = (y, b) := by
  induction es with
  | nil => exact fun _ => rfl
  | cons e es ih =>
      intro h
      rw [List.foldl_cons, mergeEntry_beyond (h e List.mem_cons_self)]
      exact ih fun e he => h e (List.mem_cons_of_mem _ he)

lemma Numbered.index_of_mem {s : ℤ} (h : Numbered s i es) (he : e ∈ es) : s + i < e.index := by
  obtain ⟨k, hk⟩ := List.mem_iff_getElem?.mp he
  have := h k e hk
  omega

/-- The entry after the last one is appended, if there is room. -/
lemma mergeEntry_next (he : e.index = y.snapshotLastIncludedIndex + y.log.length + 1) :
    Node.mergeEntry (y, b) e =
      (if y.log.length < maxLog then { y with log := y.log ++ [e], persistDirty := true } else y,
        b) := by
  have hhas : y.hasLogIndex e.index = false := by
    rw [Bool.eq_false_iff, Ne, Node.hasLogIndex_eq_true, he]
    omega
  simp only [Node.mergeEntry]
  rw [if_neg (by omega), hhas]
  simp only [Bool.false_eq_true, if_false, Node.appendNext, Node.lastLogIndex, he, true_and]

/-- An entry the log has is skipped, or it replaces the one there and all that follow. -/
lemma mergeEntry_inside (hs : 0 ≤ y.snapshotLastIncludedIndex)
    (he : e.index = y.snapshotLastIncludedIndex + i + 1) (hi : y.log[i]? = some e')
    (hmax : y.log.length ≤ maxLog) :
    Node.mergeEntry (y, b) e =
      if clashes e' e then
        ({ y with log := y.log.take i ++ [e], persistDirty := true },
          b || decide (e.index ≤ y.lastApplied))
      else (y, b) := by
  have hlt : i < y.log.length := (List.getElem?_eq_some_iff.mp hi).1
  have hhas : y.hasLogIndex e.index = true := by
    rw [Node.hasLogIndex_eq_true, he]
    omega
  have hphys : (y.physicalIndex e.index).toNat = i := by
    rw [Node.physicalIndex, he]
    omega
  have hlen : (y.log.take i).length = i := by
    rw [List.length_take]
    omega
  simp only [Node.mergeEntry]
  rw [if_neg (by omega), hhas, if_pos rfl, conflicts_eq_clashes hs he hi]
  split
  · rw [hphys, Node.appendNext, if_pos]
    dsimp only [Node.lastLogIndex]
    rw [hlen]
    exact ⟨he, by omega⟩
  · rfl

/-- The first entry of a batch that differs from the one of its index is at or below `applied`. -/
def reachesApplied (s applied : ℤ) (i : ℕ) (old es : List LogEntry) : Bool :=
  (firstClash clashes old es).any fun k : ℕ => decide (s + i + k + 1 ≤ applied)

/-- **The merge loop writes the batch over the log**, up to the size of the array. -/
theorem mergeEntries_overlay (es : List LogEntry) : ∀ {y : Node σ} {b : Bool} {i : ℕ},
    0 ≤ y.snapshotLastIncludedIndex → Numbered y.snapshotLastIncludedIndex i es →
    i ≤ y.log.length → y.log.length ≤ maxLog →
    (es.foldl Node.mergeEntry (y, b)).1.log =
        (y.log.take i ++ overlay clashes (y.log.drop i) es).take maxLog ∧
      (es.foldl Node.mergeEntry (y, b)).2 =
        (b || reachesApplied y.snapshotLastIncludedIndex y.lastApplied i (y.log.drop i) es) := by
  induction es with
  | nil =>
      intro y b i _ _ _ hmax
      simp [reachesApplied, List.take_of_length_le hmax]
  | cons e es ih =>
      intro y b i hs hnum hi hmax
      rw [List.foldl_cons]
      rcases hi.lt_or_eq with hlt | rfl
      · have hget : y.log[i]? = some y.log[i] := List.getElem?_eq_getElem hlt
        have hdrop : y.log.drop i = y.log[i] :: y.log.drop (i + 1) := List.drop_eq_getElem_cons hlt
        rw [mergeEntry_inside hs hnum.head hget hmax, hdrop, overlay, reachesApplied, firstClash]
        split
        · -- everything from here on comes from the batch
          have hlen : (y.log.take i ++ [e]).length = i + 1 := by
            rw [List.length_append, List.length_take, List.length_singleton]
            omega
          obtain ⟨h1, h2⟩ := ih (y := { y with log := y.log.take i ++ [e], persistDirty := true })
            (b := b || decide (e.index ≤ y.lastApplied)) (i := i + 1) hs hnum.tail hlen.ge
            (by dsimp only; omega)
          have hend : (y.log.take i ++ [e]).drop (i + 1) = [] := List.drop_eq_nil_of_le hlen.le
          dsimp only at h1 h2
          rw [h1, h2, hend, List.take_of_length_le hlen.le, reachesApplied, hnum.head]
          simp
        · obtain ⟨h1, h2⟩ := ih (y := y) (b := b) (i := i + 1) hs hnum.tail hlt hmax
          rw [h1, h2, List.take_succ_eq_append_getElem hlt, List.append_assoc, reachesApplied]
          refine ⟨rfl, ?_⟩
          cases firstClash clashes (y.log.drop (i + 1)) es with
          | none => rfl
          | some k =>
              simp only [Option.map_some, Option.any_some]
              push_cast
              rw [show y.snapshotLastIncludedIndex + (i + 1) + k + 1
                = y.snapshotLastIncludedIndex + i + (k + 1) + 1 by ring]
      · rw [mergeEntry_next hnum.head, List.drop_length, List.take_length, overlay_nil_left,
          reachesApplied, firstClash_nil_left]
        split
        · have hlen : (y.log ++ [e]).length = y.log.length + 1 := by simp
          obtain ⟨h1, h2⟩ := ih (y := { y with log := y.log ++ [e], persistDirty := true })
            (b := b) (i := y.log.length + 1) hs hnum.tail hlen.ge (by dsimp only; omega)
          dsimp only at h1 h2
          rw [h1, h2, List.drop_eq_nil_of_le hlen.le, List.take_of_length_le hlen.le,
            reachesApplied]
          simp
        · have hfull : y.log.length = maxLog := by omega
          rw [mergeEntries_beyond es fun e' he' => ?_]
          · simp [← hfull]
          · have := hnum.tail.index_of_mem he'
            rw [Node.lastLogIndex]
            push_cast at this
            omega

/-! ### The handler -/

/-- The node that checks the previous entry: in the term of the message, its leader known. -/
def Node.heard (x : Node σ) (m : Message) : Node σ := (x.handleTermUpdate m).hearLeader m

/-- `node_handle_append_entries` before its reply is queued, with the outcome. -/
def Node.answered (A : Application σ) (x : Node σ) (m : Message) : Node σ × Bool :=
  if m.term = (x.handleTermUpdate m).currentTerm then (x.heard m).appendEntriesFromLeader A m
  else (x.handleTermUpdate m, false)

/-- The reply `node_handle_append_entries` queues. -/
def Node.appendReply (A : Application σ) (x : Node σ) (m : Message) : Message :=
  (x.answered A m).1.appendResponse m (x.answered A m).2

lemma handleAppendEntries_eq (x : Node σ) (m : Message) :
    x.handleAppendEntries A m = (x.answered A m).1.queueMessage (x.appendReply A m) := rfl

lemma heard_eq (x : Node σ) (m : Message) : ∃ (v : CString) (e : ℤ) (d : Bool),
    x.heard m = { x with
      currentTerm := max x.currentTerm m.term, votedFor := v, leaderId := strncpy maxId m.source
      electionDeadlineMs := e, persistDirty := d } ∧
    (m.term ≤ x.currentTerm → v = x.votedFor) := by
  rw [Node.heard, Node.hearLeader, Node.handleTermUpdate]
  split
  · rename_i h
    rw [max_eq_right h.le]
    exact ⟨_, _, _, rfl, fun h' => absurd h (not_lt.mpr h')⟩
  · rename_i h
    rw [max_eq_left (not_lt.mp h)]
    exact ⟨_, _, _, rfl, fun _ => rfl⟩

lemma heard_prevMatches (x : Node σ) (m : Message) : (x.heard m).prevMatches m = x.prevMatches m :=
  handleTermUpdate_prevMatches x m m

/-- A message of an older term. -/
lemma answered_old (h : m.term < x.currentTerm) : x.answered A m = (x, false) := by
  have hx : x.handleTermUpdate m = x := by rw [Node.handleTermUpdate, if_neg (by omega)]
  rw [Node.answered, hx, if_neg (by omega)]

lemma answered_current (h : x.currentTerm ≤ m.term) :
    x.answered A m = (x.heard m).appendEntriesFromLeader A m := by
  rw [Node.answered, if_pos]
  rw [handleTermUpdate_term]
  omega

/-- A batch whose previous entry does not match. -/
lemma answered_refused (h : x.currentTerm ≤ m.term) (hprev : x.prevMatches m = false) :
    x.answered A m = (x.heard m, false) := by
  rw [answered_current h, Node.appendEntriesFromLeader, heard_prevMatches, if_neg (by simp [hprev])]

/-- A batch that is accepted. -/
lemma answered_accepted (h : x.currentTerm ≤ m.term) (hprev : x.prevMatches m = true) :
    ∃ d : Bool, x.answered A m = ({ (x.heard m).absorbed A m with persistDirty := d }, true) := by
  rw [← heard_prevMatches x m] at hprev
  obtain ⟨d, heq, -, -⟩ := appendEntriesFromLeader_eq (A := A) hprev
  exact ⟨d, (answered_current h).trans heq⟩

/-- The fields the handler and its reply share. -/
lemma handled_fields (x : Node σ) (m : Message) :
    (x.handleAppendEntries A m).log = (x.answered A m).1.log ∧
    (x.handleAppendEntries A m).commitIndex = (x.answered A m).1.commitIndex ∧
    (x.handleAppendEntries A m).lastApplied = (x.answered A m).1.lastApplied ∧
    (x.handleAppendEntries A m).lastLogIndex = (x.answered A m).1.lastLogIndex := by
  obtain ⟨ms, h, -⟩ := queueMessage_eq (x.answered A m).1 (x.appendReply A m)
  rw [handleAppendEntries_eq, h]
  exact ⟨rfl, rfl, rfl, rfl⟩

lemma answered_outbox (x : Node σ) (m : Message) : (x.answered A m).1.outbox = x.outbox := by
  obtain ⟨v, t, d, hx, -⟩ := heard_eq x m
  rcases lt_or_ge m.term x.currentTerm with h | h
  · rw [answered_old h]
  · cases hprev : x.prevMatches m with
    | false => rw [answered_refused h hprev, hx]
    | true =>
        obtain ⟨d', heq⟩ := answered_accepted (A := A) h hprev
        rw [heq]
        change (x.heard m).outbox = x.outbox
        rw [hx]

/-! ### One batch -/

/-- The entries of the message carry the indices after `prev_log_index`. -/
def Message.Numbered (m : Message) : Prop :=
  ∀ (k : ℕ) e, m.entries[k]? = some e → e.index = m.prevLogIndex + k + 1

/-- The log has an entry of the same index with another term or another leader. -/
def Clash (log : List LogEntry) (e : LogEntry) : Prop :=
  ∃ e' ∈ log, e'.index = e.index ∧
    (e'.term ≠ e.term ∨ e.leaderId ≠ [] ∧ e'.leaderId ≠ e.leaderId)

/-- In a numbered log the entry of an index is the one at its place. -/
lemma clash_iff {s : ℤ} {log : List LogEntry} (hlog : Numbered s 0 log)
    (he : e.index = s + i + 1) :
    Clash log e ↔ ∃ e', log[i]? = some e' ∧ clashes e' e = true := by
  simp only [clashes, Bool.or_eq_true, Bool.and_eq_true, decide_eq_true_eq]
  refine ⟨fun ⟨e', hmem, hidx, hdiff⟩ => ?_, fun ⟨e', hget, hdiff⟩ => ?_⟩
  · obtain ⟨k, hk⟩ := List.mem_iff_getElem?.mp hmem
    have hki : k = i := by
      have := hlog k e' hk
      omega
    exact ⟨e', hki ▸ hk, hdiff⟩
  · refine ⟨e', List.mem_of_getElem? hget, ?_, hdiff⟩
    rw [hlog i e' hget, he]
    push_cast
    ring

/-- The entries below an index are the first ones. -/
lemma Numbered.filter_lt {s : ℤ} (log : List LogEntry) : ∀ {i : ℕ}, Numbered s i log → ∀ k : ℕ,
    log.filter (fun e => decide (e.index < s + i + k + 1)) = log.take k := by
  induction log with
  | nil => simp
  | cons e log ih =>
      intro i h k
      cases k with
      | zero =>
          rw [List.take_zero, List.filter_eq_nil_iff]
          intro e' he'
          have := h.index_of_mem he'
          simp only [decide_eq_true_eq]
          push_cast
          omega
      | succ k =>
          have htail := ih h.tail k
          rw [List.filter_cons_of_pos (by rw [h.head]; simp only [decide_eq_true_eq]; push_cast; omega),
            List.take_succ_cons, ← htail]
          push_cast
          rw [show s + i + (k + 1) + 1 = s + (i + 1) + k + 1 by ring]

/-- The entries above an index are the last ones. -/
lemma Numbered.filter_gt {s : ℤ} (log : List LogEntry) : ∀ {i : ℕ}, Numbered s i log → ∀ k : ℕ,
    log.filter (fun e => decide (s + i + k < e.index)) = log.drop k := by
  induction log with
  | nil => simp
  | cons e log ih =>
      intro i h k
      cases k with
      | zero =>
          rw [List.drop_zero, List.filter_eq_self]
          intro e' he'
          have := h.index_of_mem he'
          simp only [decide_eq_true_eq]
          push_cast
          omega
      | succ k =>
          have htail := ih h.tail k
          rw [List.filter_cons_of_neg (by rw [h.head]; simp only [decide_eq_true_eq]; push_cast; omega),
            List.drop_succ_cons, ← htail]
          push_cast
          rw [show s + i + (k + 1) = s + (i + 1) + k by ring]

/-- An accepted batch begins inside the log or right behind it. -/
lemma prev_bounds (h : x.prevMatches m = true) :
    x.snapshotLastIncludedIndex ≤ m.prevLogIndex ∧ m.prevLogIndex ≤ x.lastLogIndex := by
  simp only [Node.prevMatches, Bool.and_eq_true, decide_eq_true_eq] at h
  exact ⟨h.1.1.1, h.1.1.2⟩

/-- **The log of an accepted batch** that begins inside the log or right behind it. -/
theorem answered_log (hs : 0 ≤ x.snapshotLastIncludedIndex) (hfull : x.log.length ≤ maxLog)
    (hterm : x.currentTerm ≤ m.term) (hprev : x.prevMatches m = true)
    (hnum : Numbered x.snapshotLastIncludedIndex i m.entries) (hi : i ≤ x.log.length) :
    (x.answered A m).1.log =
      (x.log.take i ++ overlay clashes (x.log.drop i) m.entries).take maxLog := by
  obtain ⟨d, heq⟩ := answered_accepted (A := A) hterm hprev
  obtain ⟨v, t, d', hx, -⟩ := heard_eq x m
  have hlog : (x.heard m).log = x.log := by rw [hx]
  have hsnap : (x.heard m).snapshotLastIncludedIndex = x.snapshotLastIncludedIndex := by rw [hx]
  have hmerge := (mergeEntries_overlay m.entries (y := x.heard m) (b := false) (i := i)
    (by rw [hsnap]; exact hs) (by rw [hsnap]; exact hnum) (by rw [hlog]; exact hi)
    (by rw [hlog]; exact hfull)).1
  rw [hlog] at hmerge
  rw [heq]
  exact hmerge

/-- The place of `prev_log_index` in the log. -/
def Node.prevPlace (x : Node σ) (m : Message) : ℕ :=
  (m.prevLogIndex - x.snapshotLastIncludedIndex).toNat

lemma Message.Numbered.place (hnum : m.Numbered) (hprev : x.prevMatches m = true) :
    C.Numbered x.snapshotLastIncludedIndex (x.prevPlace m) m.entries ∧
      x.prevPlace m ≤ x.log.length := by
  obtain ⟨h1, h2⟩ := prev_bounds hprev
  rw [Node.lastLogIndex] at h2
  refine ⟨fun k e he => ?_, by rw [Node.prevPlace]; omega⟩
  rw [hnum k e he, Node.prevPlace]
  omega

/-- The batch differs from the log first at `c`: the log below `c`, then the batch from `c` on. -/
lemma overlay_of_clash {before after : List LogEntry} {c : LogEntry} {s : ℤ} {log : List LogEntry}
    (hlog : Numbered s 0 log) (hnum : Numbered s i (before ++ c :: after))
    (hbefore : ∀ e ∈ before, ¬ Clash log e) (hc : Clash log c) :
    log.take i ++ overlay clashes (log.drop i) (before ++ c :: after) =
      log.filter (fun e => decide (e.index < c.index)) ++ c :: after := by
  have hidx : c.index = s + (i + before.length : ℕ) + 1 := by
    have := hnum before.length c (by simp)
    push_cast
    omega
  obtain ⟨c', hget, hdiff⟩ := (clash_iff hlog hidx).mp hc
  have hfirst : firstClash clashes (log.drop i) (before ++ c :: after) = some before.length := by
    rw [firstClash_eq_some]
    refine ⟨⟨c', c, by rw [List.getElem?_drop]; exact hget, by simp, hdiff⟩, ?_⟩
    intro j hj e' e ho hn
    rw [List.getElem?_drop] at ho
    have he : e ∈ before := by
      rw [List.getElem?_append_left hj] at hn
      exact List.mem_of_getElem? hn
    have heidx : e.index = s + (i + j : ℕ) + 1 := by
      have := hnum j e hn
      push_cast
      omega
    by_contra hclash
    exact hbefore e he ((clash_iff hlog heidx).mpr ⟨e', ho, by simpa using hclash⟩)
  have hfilter : log.filter (fun e => decide (e.index < c.index)) = log.take (i + before.length) := by
    rw [← hlog.filter_lt log (i + before.length), hidx]
    push_cast
    rw [add_zero]
  rw [overlay_of_some hfirst, hfilter, ← List.append_assoc, List.take_add,
    List.drop_left' rfl]

/-- The batch agrees with the log: the log, then the batch beyond it. -/
lemma overlay_of_agree {s : ℤ} {log : List LogEntry} (hlog : Numbered s 0 log)
    (hnum : Numbered s i es) (hi : i ≤ log.length) (hes : ∀ e ∈ es, ¬ Clash log e) :
    log.take i ++ overlay clashes (log.drop i) es =
      log ++ es.filter (fun e => decide (s + log.length < e.index)) := by
  have hfirst : firstClash clashes (log.drop i) es = none := by
    rw [firstClash_eq_none]
    intro j e' e ho hn
    rw [List.getElem?_drop] at ho
    have heidx : e.index = s + (i + j : ℕ) + 1 := by
      have := hnum j e hn
      push_cast
      omega
    by_contra hclash
    exact hes e (List.mem_of_getElem? hn)
      ((clash_iff hlog heidx).mpr ⟨e', ho, by simpa using hclash⟩)
  have hfilter : es.filter (fun e => decide (s + log.length < e.index))
      = es.drop (log.length - i) := by
    rw [← hnum.filter_gt es (log.length - i)]
    congr 1
    funext e
    rw [show s + (i : ℤ) + ((log.length - i : ℕ) : ℤ) = s + log.length by omega]
  rw [overlay_of_none hfirst, ← List.append_assoc, List.take_append_drop, List.length_drop,
    hfilter]

/-- **A batch of entries.**  A batch that is accepted and differs from the log first at its entry
`c` leaves the entries below `c`, followed by the batch from `c` on; one that does not differ leaves
the whole log, followed by what the batch has beyond it; both are cut off at the size of the array.
The reply tells success and the last index.  A batch that is refused leaves log, commit index and
applied index alone, and the reply tells so. -/
theorem handleAppendEntries_merges (A : Application σ) (x : Node σ) (m : Message)
    (hlog : x.Contiguous) (hs : 0 ≤ x.snapshotLastIncludedIndex) (hfull : x.log.length ≤ maxLog)
    (hterm : x.currentTerm ≤ m.term) (hnum : m.Numbered) :
    (x.prevMatches m = true →
      (∀ before c after, m.entries = before ++ c :: after → (∀ e ∈ before, ¬ Clash x.log e) →
        Clash x.log c →
        (x.handleAppendEntries A m).log =
            (x.log.filter (fun e => decide (e.index < c.index)) ++ c :: after).take maxLog ∧
          x.log.filter (fun e => decide (e.index < c.index)) <+: (x.handleAppendEntries A m).log) ∧
      ((∀ e ∈ m.entries, ¬ Clash x.log e) →
        (x.handleAppendEntries A m).log =
            (x.log ++ m.entries.filter fun e => decide (x.lastLogIndex < e.index)).take maxLog ∧
          x.log <+: (x.handleAppendEntries A m).log) ∧
      (x.appendReply A m).success = true ∧
      (x.appendReply A m).matchIndex = (x.handleAppendEntries A m).lastLogIndex) ∧
    (x.prevMatches m = false →
      (x.handleAppendEntries A m).log = x.log ∧
      (x.handleAppendEntries A m).commitIndex = x.commitIndex ∧
      (x.handleAppendEntries A m).lastApplied = x.lastApplied ∧
      (x.appendReply A m).success = false) ∧
    (x.handleAppendEntries A m).outbox =
      if x.outbox.length < maxQueue then x.outbox ++ [x.appendReply A m] else x.outbox := by
  obtain ⟨hl, hc, ha, hlast⟩ := handled_fields (A := A) x m
  refine ⟨fun hprev => ?_, fun hprev => ?_, ?_⟩
  · obtain ⟨hnum', hplace⟩ := hnum.place hprev
    have hmerge := answered_log (A := A) hs hfull hterm hprev hnum' hplace
    rw [hl]
    refine ⟨fun before c after hes hbefore hclash => ?_, fun hagree => ?_, ?_, ?_⟩
    · rw [hes] at hnum' hmerge
      rw [overlay_of_clash hlog hnum' hbefore hclash] at hmerge
      rw [hmerge]
      refine ⟨rfl, List.prefix_of_prefix_length_le ?_ (List.take_prefix _ _) ?_⟩
      · exact List.prefix_append _ _
      · have := List.length_filter_le (fun e : LogEntry => decide (e.index < c.index)) x.log
        rw [List.length_take, List.length_append]
        omega
    · rw [overlay_of_agree hlog hnum' hplace hagree] at hmerge
      rw [hmerge]
      refine ⟨rfl, List.prefix_of_prefix_length_le ?_ (List.take_prefix _ _) ?_⟩
      · exact List.prefix_append _ _
      · rw [List.length_take, List.length_append]
        omega
    · obtain ⟨d, heq⟩ := answered_accepted (A := A) hterm hprev
      rw [Node.appendReply, heq]
      rfl
    · rw [hlast]
      rfl
  · obtain ⟨v, t, d, hx, -⟩ := heard_eq x m
    have hans := answered_refused (A := A) hterm hprev
    rw [hl, hc, ha, Node.appendReply, hans, hx]
    exact ⟨rfl, rfl, rfl, rfl⟩
  · rw [handleAppendEntries_eq, Node.queueMessage, answered_outbox]
    split
    · rfl
    · exact answered_outbox x m

/-- An entry of a leader. -/
def entryOf (index term : ℤ) (leader : String) : LogEntry :=
  { index := index, term := term, leaderId := leader.toList, command := ⟨[], [], []⟩ }

/-- A node with a log of term 1. -/
def staleFollower : Node Unit :=
  { Node.zero (threeConfig ['n', '2']) () 0 with
    currentTerm := 1, log := [entryOf 1 1 "n1", entryOf 2 1 "n1", entryOf 3 1 "n1"] }

/-- A batch of term 2 that begins after the first entry. -/
def freshBatch : Message :=
  { kind := .appendEntries, term := 2, source := ['n', '3'], target := ['n', '2']
    prevLogIndex := 1, prevLogTerm := 1, prevLogLeaderId := ['n', '1']
    entries := [entryOf 2 2 "n3"] }

lemma numbered_singleton {s : ℤ} (h : e.index = s + i + 1) : Numbered s i [e] := by
  intro k e' he'
  cases k with
  | zero =>
      rw [List.getElem?_cons_zero, Option.some.injEq] at he'
      rw [← he', h]
      push_cast
      ring
  | succ k => simp at he'

lemma contiguous_staleFollower : staleFollower.Contiguous :=
  Numbered.append_end (Numbered.append_end (numbered_singleton rfl) rfl) rfl

lemma numbered_freshBatch : freshBatch.Numbered := by
  intro k e he
  have := numbered_singleton (i := 1) (s := 0) (e := entryOf 2 2 "n3") rfl k e he
  rw [this]
  norm_num [freshBatch]

/-- The batch replaces the second entry, and the third one goes. -/
theorem handleAppendEntries_stale :
    (staleFollower.handleAppendEntries silent freshBatch).log =
        [entryOf 1 1 "n1", entryOf 2 2 "n3"] ∧
      (staleFollower.appendReply silent freshBatch).success = true := by
  have h := (handleAppendEntries_merges silent staleFollower freshBatch contiguous_staleFollower
    (by decide) (by decide) (by decide) numbered_freshBatch).1 (by decide)
  have hlog := (h.1 [] (entryOf 2 2 "n3") [] rfl (by simp)
    ⟨entryOf 2 1 "n1", by decide, rfl, Or.inl (by decide)⟩).1
  exact ⟨hlog.trans (by decide), h.2.2.1⟩

/-! ### The same batch twice -/

/-- The handler puts the application back with `reload` or `restore_snapshot`. -/
def Node.rebuilds (x : Node σ) (m : Message) : Bool :=
  decide (x.currentTerm ≤ m.term) && x.prevMatches m && ((x.heard m).merged m).2

/-- The application is touched by such a rebuild only. -/
lemma handled_user (x : Node σ) (m : Message) : (x.handleAppendEntries A m).user =
    if x.rebuilds m then (x.heard m).baseUser A else x.user := by
  obtain ⟨ms, hq, -⟩ := queueMessage_eq (x.answered A m).1 (x.appendReply A m)
  obtain ⟨v, t, d, hx, -⟩ := heard_eq x m
  have huser : (x.heard m).user = x.user := by rw [hx]
  rw [handleAppendEntries_eq, hq, Node.rebuilds]
  rcases lt_or_ge m.term x.currentTerm with h | h
  · rw [answered_old h, decide_eq_false (not_le.mpr h)]
    rfl
  · rw [decide_eq_true h]
    cases hprev : x.prevMatches m with
    | false =>
        rw [answered_refused h hprev]
        exact huser
    | true =>
        obtain ⟨d', heq⟩ := answered_accepted (A := A) h hprev
        rw [heq]
        change (if ((x.heard m).merged m).2 = true then (x.heard m).baseUser A
          else (x.heard m).user) = _
        rw [huser]
        rfl

/-- The checks of the previous entry read the log up to it. -/
lemma prevMatches_congr {k : ℕ} (hs : y.snapshotLastIncludedIndex = x.snapshotLastIncludedIndex)
    (ht : y.snapshotLastIncludedTerm = x.snapshotLastIncludedTerm)
    (hk : y.log.take k = x.log.take k) (hx : k ≤ x.log.length) (hy : k ≤ y.log.length)
    (hp : m.prevLogIndex = x.snapshotLastIncludedIndex + k) :
    y.prevMatches m = x.prevMatches m := by
  have hhas : y.hasLogIndex m.prevLogIndex = x.hasLogIndex m.prevLogIndex := by
    rw [Bool.eq_iff_iff, Node.hasLogIndex_eq_true, Node.hasLogIndex_eq_true, hs]
    omega
  have hlast : decide (m.prevLogIndex ≤ y.lastLogIndex) = decide (m.prevLogIndex ≤ x.lastLogIndex) := by
    rw [Node.lastLogIndex, Node.lastLogIndex, hs, decide_eq_true (by omega),
      decide_eq_true (by omega)]
  have hterm : y.termAtIndex m.prevLogIndex = x.termAtIndex m.prevLogIndex ∧
      y.leaderAtIndex m.prevLogIndex = x.leaderAtIndex m.prevLogIndex := by
    rw [Node.termAtIndex, Node.termAtIndex, Node.leaderAtIndex, Node.leaderAtIndex, hhas, hs, ht]
    rcases Nat.eq_zero_or_pos k with rfl | hpos
    · have hnone : x.hasLogIndex m.prevLogIndex = false := by
        rw [Bool.eq_false_iff, Ne, Node.hasLogIndex_eq_true]
        omega
      rw [hnone]
      simp [hp]
    · rw [entryAt_congr hs hk hx (by omega) hp.le]
      exact ⟨rfl, rfl⟩
  rw [Node.prevMatches, Node.prevMatches, hs, hlast, hhas, hterm.1, hterm.2]

/-- The entries of the message have consecutive indices. -/
def Message.Consecutive (m : Message) : Prop :=
  ∃ a : ℤ, ∀ (k : ℕ) e, m.entries[k]? = some e → e.index = a + k

/-- **A batch that has been merged changes nothing when it is merged again.** -/
lemma merged_twice (hs : 0 ≤ x.snapshotLastIncludedIndex) (hfull : x.log.length ≤ maxLog)
    (hcons : m.Consecutive) (hbeyond : ∀ e ∈ m.entries, x.snapshotLastIncludedIndex < e.index)
    (hlog : y.log = (x.merged m).1)
    (hsnap : y.snapshotLastIncludedIndex = x.snapshotLastIncludedIndex) :
    y.merged m = ((x.merged m).1, false) := by
  obtain ⟨a, ha⟩ := hcons
  by_cases hgap : ∀ e ∈ m.entries, x.lastLogIndex + 1 < e.index
  · have hx : x.merged m = (x.log, false) := by
      rw [Node.merged, mergeEntries_beyond m.entries hgap]
    rw [hx] at hlog
    have hlast : y.lastLogIndex = x.lastLogIndex := by
      rw [Node.lastLogIndex, Node.lastLogIndex, hlog, hsnap]
    rw [hx, Node.merged, mergeEntries_beyond m.entries (by rw [hlast]; exact hgap), hlog]
  · push Not at hgap
    obtain ⟨e, he, hle⟩ := hgap
    obtain ⟨k, hk⟩ := List.mem_iff_getElem?.mp he
    have hlt := (List.getElem?_eq_some_iff.mp hk).1
    have hfirst := hbeyond _ (List.getElem_mem (by omega : 0 < m.entries.length))
    have ha0 := ha 0 _ (List.getElem?_eq_getElem (by omega))
    have hak := ha k e hk
    rw [Node.lastLogIndex] at hle
    obtain ⟨i, hi⟩ : ∃ i : ℕ, a = x.snapshotLastIncludedIndex + i + 1 :=
      ⟨(a - x.snapshotLastIncludedIndex - 1).toNat, by push_cast at ha0; omega⟩
    have hnum : Numbered x.snapshotLastIncludedIndex i m.entries := by
      intro j e' he'
      rw [ha j e' he', hi]
      ring
    have hilen : i ≤ x.log.length := by omega
    obtain ⟨hmerge, -⟩ := mergeEntries_overlay m.entries (b := false) hs hnum hilen hfull
    have hlog' : y.log = x.log.take i ++
        (overlay clashes (x.log.drop i) m.entries).take (maxLog - i) := by
      rw [hlog, Node.merged, hmerge, List.take_append, List.length_take, min_eq_left hilen,
        List.take_of_length_le (by rw [List.length_take]; omega)]
    have htake : y.log.take i = x.log.take i := by
      rw [hlog', List.take_left' (by rw [List.length_take]; omega)]
    have hdrop : y.log.drop i
        = (overlay clashes (x.log.drop i) m.entries).take (maxLog - i) := by
      rw [hlog', List.drop_left' (by rw [List.length_take]; omega)]
    have hylen : i ≤ y.log.length := by
      rw [hlog', List.length_append, List.length_take]
      omega
    have hymax : y.log.length ≤ maxLog := by
      rw [hlog, Node.merged, hmerge, List.length_take]
      omega
    obtain ⟨hagain, hflag⟩ := mergeEntries_overlay m.entries (y := y) (b := false)
      (by rw [hsnap]; exact hs) (by rw [hsnap]; exact hnum) hylen hymax
    rw [Node.merged, hagain, hflag, htake, hdrop, reachesApplied,
      firstClash_overlay_take clashes_self, List.take_append, List.length_take, min_eq_left hilen,
      overlay_take_idem clashes_self, List.take_of_length_le (by rw [List.length_take]; omega),
      ← hlog', hlog]
    rfl

/-- The commit index is settled once. -/
lemma settledCommit_twice {b : Bool} (hy : y.lastLogIndex = x.lastLogIndex)
    (hc : y.commitIndex = settledCommit x m b) : settledCommit y m false = y.commitIndex := by
  rw [settledCommit, hy, hc, settledCommit]
  simp only [Bool.false_eq_true, if_false]
  split_ifs <;> omega

/-- Queueing the reply changes the outbox. -/
lemma handled_eq (x : Node σ) (m : Message) :
    ∃ ms, x.handleAppendEntries A m = { (x.answered A m).1 with outbox := ms } := by
  obtain ⟨ms, hq, -⟩ := queueMessage_eq (x.answered A m).1 (x.appendReply A m)
  exact ⟨_, hq⟩

/-- What a second handling of `m` by the node `y` that has just handled it leaves as it was. -/
structure Repeats (A : Application σ) (x y : Node σ) (m : Message) : Prop where
  term : (y.handleAppendEntries A m).currentTerm = y.currentTerm
  vote : (y.handleAppendEntries A m).votedFor = y.votedFor
  log : (y.handleAppendEntries A m).log = y.log
  commit : (y.handleAppendEntries A m).commitIndex = y.commitIndex
  applied : (y.handleAppendEntries A m).lastApplied = y.lastApplied
  success : (y.appendReply A m).success = (x.appendReply A m).success
  matched : (y.appendReply A m).matchIndex = (x.appendReply A m).matchIndex
  /-- Neither `reload` nor `restore_snapshot` is called again. -/
  quiet : y.rebuilds m = false
  user : (y.handleAppendEntries A m).user = y.user

lemma repeats_old (h : m.term < x.currentTerm) : Repeats A x (x.handleAppendEntries A m) m := by
  obtain ⟨ms, hy⟩ := handled_eq (A := A) x m
  rw [answered_old h] at hy
  generalize x.handleAppendEntries A m = y at hy
  have hterm : m.term < y.currentTerm := by rw [hy]; exact h
  obtain ⟨ms', hz⟩ := handled_eq (A := A) y m
  have huser := handled_user (A := A) y m
  have hquiet : y.rebuilds m = false := by
    rw [Node.rebuilds, decide_eq_false (not_le.mpr hterm)]
    rfl
  rw [hquiet] at huser
  rw [answered_old hterm] at hz
  refine ⟨by rw [hz], by rw [hz], by rw [hz], by rw [hz], by rw [hz], ?_, ?_, hquiet, huser⟩
  · rw [Node.appendReply, Node.appendReply, answered_old hterm, answered_old h]
    rfl
  · rw [Node.appendReply, Node.appendReply, answered_old hterm, answered_old h, hy]
    rfl

lemma repeats_refused (h : x.currentTerm ≤ m.term) (hprev : x.prevMatches m = false) :
    Repeats A x (x.handleAppendEntries A m) m := by
  obtain ⟨ms, hy⟩ := handled_eq (A := A) x m
  obtain ⟨v, t, d, hx, -⟩ := heard_eq x m
  rw [answered_refused h hprev] at hy
  have hprev' : (x.handleAppendEntries A m).prevMatches m = false := by
    rw [hy]
    exact (heard_prevMatches x m).trans hprev
  have hterm : (x.handleAppendEntries A m).currentTerm = m.term := by
    rw [hy, hx]
    exact max_eq_right h
  have hlast : (x.handleAppendEntries A m).lastLogIndex = (x.heard m).lastLogIndex := by
    rw [hy]
    rfl
  generalize x.handleAppendEntries A m = y at hprev' hterm hlast
  obtain ⟨v', t', d', hw, hv⟩ := heard_eq y m
  obtain ⟨ms', hz⟩ := handled_eq (A := A) y m
  have huser := handled_user (A := A) y m
  have hquiet : y.rebuilds m = false := by
    rw [Node.rebuilds, hprev', Bool.and_false, Bool.false_and]
  have hans := answered_refused (A := A) hterm.le hprev'
  rw [hquiet] at huser
  rw [hans, hw] at hz
  refine ⟨?_, by rw [hz]; exact hv hterm.ge, by rw [hz], by rw [hz], by rw [hz], ?_, ?_, hquiet,
    huser⟩
  · rw [hz]
    exact max_eq_left hterm.ge
  · rw [Node.appendReply, Node.appendReply, hans, answered_refused h hprev]
    rfl
  · rw [Node.appendReply, Node.appendReply, hans, answered_refused h hprev, hw]
    exact hlast

lemma repeats_accepted (hs : 0 ≤ x.snapshotLastIncludedIndex) (hfull : x.log.length ≤ maxLog)
    (hcons : m.Consecutive) (hbeyond : ∀ e ∈ m.entries, m.prevLogIndex < e.index)
    (h : x.currentTerm ≤ m.term) (hprev : x.prevMatches m = true) :
    Repeats A x (x.handleAppendEntries A m) m := by
  obtain ⟨ms, hy⟩ := handled_eq (A := A) x m
  obtain ⟨d, hacc⟩ := answered_accepted (A := A) h hprev
  obtain ⟨v, t, d', hx, -⟩ := heard_eq x m
  rw [hacc] at hy
  have hzs : (x.heard m).snapshotLastIncludedIndex = x.snapshotLastIncludedIndex := by rw [hx]
  have hzlog : (x.heard m).log = x.log := by rw [hx]
  have hzterm : (x.heard m).currentTerm = m.term := by rw [hx]; exact max_eq_right h
  have hzprev := (heard_prevMatches x m).trans hprev
  obtain ⟨h1, h2⟩ := prev_bounds hzprev
  rw [Node.lastLogIndex] at h2
  -- nothing up to the previous entry is touched
  obtain ⟨htake, hlen, -⟩ := mergeEntries_take m.entries ((x.heard m).prevPlace m)
    (x.heard m, false) (by rw [Node.prevPlace]; dsimp only; omega) fun e he _ hle => by
      have := hbeyond e he
      rw [Node.prevPlace] at hle
      dsimp only at hle
      omega
  have hreply : (x.appendReply A m).matchIndex = (x.handleAppendEntries A m).lastLogIndex ∧
      (x.appendReply A m).success = true := by
    rw [Node.appendReply, hacc, hy]
    exact ⟨rfl, rfl⟩
  have hylog : (x.handleAppendEntries A m).log = ((x.heard m).merged m).1 := by rw [hy]; rfl
  have hys : (x.handleAppendEntries A m).snapshotLastIncludedIndex
      = (x.heard m).snapshotLastIncludedIndex := by rw [hy]; rfl
  have hyst : (x.handleAppendEntries A m).snapshotLastIncludedTerm
      = (x.heard m).snapshotLastIncludedTerm := by rw [hy]; rfl
  have hyterm : (x.handleAppendEntries A m).currentTerm = m.term := by rw [hy]; exact hzterm
  have hyc : (x.handleAppendEntries A m).commitIndex
      = settledCommit { x.heard m with log := ((x.heard m).merged m).1 } m ((x.heard m).merged m).2 := by
    rw [hy]
    rfl
  generalize x.handleAppendEntries A m = y at hreply hylog hys hyst hyterm hyc
  have hyprev : y.prevMatches m = true := by
    rw [← hzprev]
    refine prevMatches_congr hys hyst (k := (x.heard m).prevPlace m) ?_ ?_ ?_ ?_
    · rw [hylog]
      exact htake
    · rw [Node.prevPlace]
      omega
    · rw [hylog]
      exact hlen
    · rw [Node.prevPlace]
      omega
  obtain ⟨v', t', d₂, hw, hv⟩ := heard_eq y m
  have hwlog : (y.heard m).log = y.log := by rw [hw]
  have hmerged : (y.heard m).merged m = (y.log, false) := by
    rw [hylog]
    refine merged_twice (by rw [hzs]; exact hs) (by rw [hzlog]; exact hfull) hcons
      (fun e he => ?_) (hwlog.trans hylog) (by rw [hw]; exact hys)
    have := hbeyond e he
    omega
  have hquiet : y.rebuilds m = false := by
    rw [Node.rebuilds, hmerged, Bool.and_false]
  have huser := handled_user (A := A) y m
  rw [hquiet] at huser
  obtain ⟨d₃, hans⟩ := answered_accepted (A := A) hyterm.le hyprev
  obtain ⟨ms', hz⟩ := handled_eq (A := A) y m
  obtain ⟨hkeepA, -, hkeepC⟩ := absorbed_keep (A := A) (x := y.heard m) (m := m)
    (by rw [hmerged])
  have hlast : Node.lastLogIndex { y.heard m with log := y.log } = y.lastLogIndex := by
    rw [Node.lastLogIndex, Node.lastLogIndex, hw]
  have hcommit : ((y.heard m).absorbed A m).commitIndex = y.commitIndex := by
    rw [hkeepC, hmerged]
    have hwc : (y.heard m).commitIndex = y.commitIndex := by rw [hw]
    refine (settledCommit_twice (x := { x.heard m with log := ((x.heard m).merged m).1 })
      (b := ((x.heard m).merged m).2) ?_ ?_).trans hwc
    · rw [hlast, Node.lastLogIndex, Node.lastLogIndex, hylog, hys]
    · exact hwc.trans hyc
  have hlogs : ((y.heard m).absorbed A m).log = y.log := congrArg Prod.fst hmerged
  rw [hans] at hz
  refine ⟨?_, ?_, ?_, ?_, ?_, ?_, ?_, hquiet, huser⟩
  · rw [hz]
    change (y.heard m).currentTerm = y.currentTerm
    rw [hw]
    exact max_eq_left hyterm.ge
  · rw [hz]
    change (y.heard m).votedFor = y.votedFor
    rw [hw]
    exact hv hyterm.ge
  · rw [hz]
    exact hlogs
  · rw [hz]
    exact hcommit
  · rw [hz]
    refine hkeepA.trans ?_
    rw [hw]
  · rw [hreply.2, Node.appendReply, hans]
    rfl
  · rw [hreply.1, Node.appendReply, hans]
    change (y.heard m).snapshotLastIncludedIndex + (((y.heard m).absorbed A m).log.length : ℤ) = _
    rw [hlogs, hw]
    rfl

/-- **A batch is handled twice like once**, if its entries lie beyond its previous entry. -/
theorem handleAppendEntries_twice (A : Application σ) (x : Node σ) (m : Message)
    (hs : 0 ≤ x.snapshotLastIncludedIndex) (hfull : x.log.length ≤ maxLog)
    (hcons : m.Consecutive) (hbeyond : ∀ e ∈ m.entries, m.prevLogIndex < e.index) :
    Repeats A x (x.handleAppendEntries A m) m := by
  rcases lt_or_ge m.term x.currentTerm with h | h
  · exact repeats_old h
  · cases hprev : x.prevMatches m with
    | false => exact repeats_refused h hprev
    | true => exact repeats_accepted hs hfull hcons hbeyond h hprev

lemma consecutive_singleton (h : m.entries = [e]) : m.Consecutive := by
  refine ⟨e.index, fun k e' he' => ?_⟩
  rw [h] at he'
  cases k with
  | zero => simp_all
  | succ k => simp at he'

/-- The batch of the example above, once more. -/
theorem handleAppendEntries_twice_stale :
    Repeats silent staleFollower (staleFollower.handleAppendEntries silent freshBatch) freshBatch :=
  handleAppendEntries_twice silent staleFollower freshBatch (by decide) (by decide)
    (consecutive_singleton rfl) (by decide)

/-- A batch whose entry lies below its previous entry. -/
def lowBatch : Message :=
  { freshBatch with prevLogIndex := 3, entries := [entryOf 2 2 "n3"] }

/-- **It removes its own previous entry**: the first handling succeeds, the second does not. -/
theorem second_handling_refuses :
    staleFollower.Contiguous ∧ lowBatch.Consecutive ∧
      (staleFollower.appendReply silent lowBatch).success = true ∧
      ((staleFollower.handleAppendEntries silent lowBatch).appendReply silent lowBatch).success
        = false :=
  ⟨contiguous_staleFollower, consecutive_singleton rfl, by decide, by decide⟩

end RaftRx.C
