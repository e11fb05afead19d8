import RaftRx.C.View
import RaftRx.C.Quorums

/-!
The functions of the C node that are about the log, as moves of the protocol.

In the modes that keep logs they are the protocol's own steps, given that nothing is compacted and
that the cursors of a leader are inside its log (`Good`); in the other modes they are free.

* `Node.entryAt_eq`, `Node.termAtIndex_eq`, `Node.leaderAtIndex_eq`: reading live entries;
* `reach_sendAppendEntriesTo`, `reach_broadcastAppendEntries`: slices of the leader's log;
* `reach_advanceCommitIndex`: a quorum counted over the match indices;
* `merge_mergeEntries`: the merge loop is a merge in the sense of the protocol;
* `reach_handleAppendEntries`, `reach_handleAppendEntriesResponse`, `reach_appendClientCommand`.
-/

namespace RaftRx.C

open Protocol

variable {σ : Type*} {A : Application σ}

/-! ### Reading live entries -/

section Reading

variable {x : Node σ} {i : ℕ} {e : LogEntry}

lemma Node.entryAt_eq (h : x.log[i]? = some e) :
    x.entryAt (x.snapshotLastIncludedIndex + i + 1) = e := by
  have hphys : x.physicalIndex (x.snapshotLastIncludedIndex + i + 1) = (i : ℤ) := by
    rw [Node.physicalIndex]
    omega
  rw [Node.entryAt, hphys, Node.slot, if_pos (by omega), Int.toNat_natCast, h]
  rfl

lemma Node.hasLogIndex_eq_true {k : ℤ} :
    x.hasLogIndex k = true ↔ x.snapshotLastIncludedIndex < k ∧
      k ≤ x.snapshotLastIncludedIndex + x.log.length := by
  rw [Node.hasLogIndex, Node.logBaseIndex, Node.lastLogIndex, Bool.and_eq_true,
    decide_eq_true_eq, decide_eq_true_eq]
  omega

lemma Node.termAtIndex_eq (hs : 0 ≤ x.snapshotLastIncludedIndex) (h : x.log[i]? = some e) :
    x.termAtIndex (x.snapshotLastIncludedIndex + i + 1) = e.term := by
  rw [Node.termAtIndex, if_neg (by omega), if_neg (by omega), Node.entryAt_eq h]

lemma Node.leaderAtIndex_eq (hs : 0 ≤ x.snapshotLastIncludedIndex) (h : x.log[i]? = some e) :
    x.leaderAtIndex (x.snapshotLastIncludedIndex + i + 1) = e.leaderId := by
  have hlt : i < x.log.length := (List.getElem?_eq_some_iff.mp h).1
  have hhas : x.hasLogIndex (x.snapshotLastIncludedIndex + i + 1) = true :=
    Node.hasLogIndex_eq_true.mpr ⟨by omega, by omega⟩
  rw [Node.leaderAtIndex, if_neg, Node.entryAt_eq h]
  rw [hhas]
  simp only [Bool.true_eq_false, or_false, not_le]
  omega

/-- Without a snapshot the term at an index is the protocol's. -/
lemma Good.termAtIndex (g : Good x) {k : ℕ} (hk : k ≤ x.log.length) :
    x.termAtIndex k = termAt LogEntry.term x.log k := by
  cases k with
  | zero => rfl
  | succ i =>
      have he : x.log[i]? = some x.log[i] := List.getElem?_eq_getElem (by omega)
      have hterm := Node.termAtIndex_eq (by rw [g.snapIndex]) he
      rw [g.snapIndex] at hterm
      rw [termAt, if_neg (by omega), Nat.add_sub_cancel, he,
        show ((i + 1 : ℕ) : ℤ) = 0 + i + 1 from by push_cast; ring, hterm]
      rfl

lemma Good.lastLogIndex (g : Good x) : x.lastLogIndex = x.log.length := by
  rw [Node.lastLogIndex, g.snapIndex, zero_add]

lemma Good.lastLogTerm (g : Good x) : x.lastLogTerm = lastTerm LogEntry.term x.log := by
  rw [Node.lastLogTerm, lastTerm]
  cases x.log.getLast? with
  | none => exact g.snapTerm
  | some e => rfl

end Reading

variable {members : List CString} {mode : Mode} {S : Set (Msg CString ℤ LogEntry)} {n : CString}
  {st : Stored} {u : Bool} {a : State CString ℤ LogEntry} {x x' : Node σ}

/-! ### Queueing -/

lemma Good.queueMessage (g : Good x) {m : Message} (hm : m.Sane) : Good (x.queueMessage m) := by
  rw [Node.queueMessage]
  split
  · refine ⟨g.snapIndex, g.snapTerm, g.commit_nonneg, g.applied_nonneg, g.full, fun m' hm' => ?_,
      g.next⟩
    rcases List.mem_append.mp hm' with hm' | hm'
    · exact g.queued m' hm'
    · rw [List.mem_singleton.mp hm']
      exact hm
  · exact g

lemma NodeOk.queueMessage (h : NodeOk members mode S n x) {m : Message}
    (hans : Answer x m) (hm : mode.keepsLogs → m.Sane) : NodeOk members mode S n (x.queueMessage m) := by
  refine h.frame ?_ ?_ (Or.inl ?_) ?_ ?_ ?_ ?_ fun hk => (h.good hk).queueMessage (hm hk)
  all_goals rw [Node.queueMessage]; split
  all_goals first | rfl | exact fun _ => id | skip
  · intro m' hm'
    rcases List.mem_append.mp hm' with hm' | hm'
    · exact Or.inl hm'
    · rw [List.mem_singleton.mp hm']
      exact Or.inr hans
  · exact fun _ => Or.inl

/-- Queueing a promise the protocol may queue. -/
lemma reach_queueMessage (h : At members mode S n st u a x) {m : Message}
    {p : Msg CString ℤ LogEntry} (hans : Answer x m) (hp : m.promise = some p)
    (hsane : mode.keepsLogs → m.Sane)
    (hmove : Moves (params members) mode a n
      { x.view st u with outbox := (x.view st u).outbox ++ [p] }) :
    Reach members mode S n st u a (x.queueMessage m) := by
  refine h.reach ?_ (h.ok.queueMessage hans hsane)
  rw [Node.queueMessage]
  split
  · have hview : Node.view { x with outbox := x.outbox ++ [m] } st u
        = { x.view st u with outbox := (x.view st u).outbox ++ [p] } := by
      simp only [Node.view, List.filterMap_append, List.filterMap_cons, hp, List.filterMap_nil]
      rfl
    rw [hview]
    exact hmove
  · exact Moves.refl h.srv

/-- Queueing a refusal. -/
lemma reach_queueRefusal (h : At members mode S n st u a x) {m : Message}
    (hans : Answer x m) (hp : m.promise = none) (hsane : mode.keepsLogs → m.Sane) :
    Reach members mode S n st u a (x.queueMessage m) := by
  refine h.same ?_ (h.ok.queueMessage hans hsane)
  rw [Node.queueMessage]
  split
  · simp only [Node.view, List.filterMap_append, List.filterMap_cons, hp, List.filterMap_nil,
      List.append_nil]
    rfl
  · rfl

/-! ### Replication -/

/-- A leader sends a slice of its log to a peer. -/
lemma reach_sendAppendEntriesTo (h : At members mode S n st u a x) {p : CString}
    (hl : mode.keepsLogs → x.state = .leader ∧ ∃ i, x.peerIndex p = some i) :
    Reach members mode S n st u a (x.sendAppendEntriesTo p) := by
  by_cases hk : mode.keepsLogs
  · obtain ⟨hlead, i, hi⟩ := hl hk
    have g := h.ok.good hk
    obtain ⟨-, -, h1, h2⟩ := g.next hlead p i hi
    obtain ⟨prev, hprev⟩ : ∃ prev : ℕ, x.nextIndex.getD i 0 = (prev : ℤ) + 1 :=
      ⟨(x.nextIndex.getD i 0 - 1).toNat, by omega⟩
    rw [hprev] at h2
    have hle : prev ≤ x.log.length := by omega
    rw [Node.sendAppendEntriesTo]
    simp only [hi, hprev, Node.logBaseIndex, g.snapIndex]
    have hbase : ¬ ((prev : ℤ) + 1 < 0 + 1) := by omega
    rw [if_neg hbase]
    have hphys : (x.physicalIndex ((prev : ℤ) + 1)).toNat = prev := by
      rw [Node.physicalIndex, g.snapIndex]
      omega
    refine reach_queueMessage h ⟨rfl, by simp⟩ rfl (fun _ =>
      ⟨by simp, g.commit_nonneg, le_rfl, length_strncpy_lt _⟩) ?_
    simp only [hphys, Int.add_sub_cancel, Int.toNat_natCast, h.ok.nodeId, strncpy_self h.ok.fits]
    rw [g.termAtIndex hle]
    exact moves_send h.srv hlead hle (List.take_prefix _ _) le_rfl
  · exact reach_of_still hk h (still_sendAppendEntriesTo x p)

lemma Node.peerIndex_of_mem {p : CString} (hp : p ∈ x.config.peers) :
    ∃ i, x.peerIndex p = some i := by
  cases hi : x.peerIndex p with
  | some i => exact ⟨i, rfl⟩
  | none =>
      rw [Node.peerIndex, List.findIdx?_eq_none_iff] at hi
      have := hi p hp
      simp at this

/-- A leader sends to all peers. -/
lemma reach_broadcastAppendEntries (h : At members mode S n st u a x)
    (hl : mode.keepsLogs → x.state = .leader) :
    Reach members mode S n st u a x.broadcastAppendEntries := by
  have key : ∀ (ps : List CString) (a : State CString ℤ LogEntry) (y : Node σ), Still x y →
      (∀ p ∈ ps, p ∈ x.config.peers) → At members mode S n st u a y →
      Reach members mode S n st u a (ps.foldl Node.sendAppendEntriesTo y) := by
    intro ps
    induction ps with
    | nil => exact fun a y _ _ hy => hy.self
    | cons p ps ih =>
        intro a y hs hps hy
        have hlead : mode.keepsLogs → y.state = .leader ∧ ∃ i, y.peerIndex p = some i := by
          intro hk
          refine ⟨hs.state.trans (hl hk), Node.peerIndex_of_mem ?_⟩
          rw [hs.config]
          exact hps p List.mem_cons_self
        refine (reach_sendAppendEntriesTo hy hlead).bind fun a' _ hy' => ?_
        exact ih a' _ (hs.trans (still_sendAppendEntriesTo y p))
          (fun q hq => hps q (List.mem_cons_of_mem _ hq)) hy'
  exact key x.config.peers a x (Still.refl x) (fun _ => id) h

/-! ### Committing -/

/-- The count of `node_replicated_on_members` is a majority in the sense of the protocol. -/
lemma majority_of_replicatedOnMembers {k : ℕ} (hn : x.config.nodeId = n) {ms : List CString}
    (h : x.replicatedOnMembers k ms = true) :
    Majority ms {p | p = n ∨ (p ≠ n ∧ k ≤ (x.view st u).matched p)} := by
  refine (Node.majority_of_replicatedOnMembers h).mono fun p _ hp => ?_
  change x.countsReplica k p = true at hp
  by_cases hpn : p = n
  · exact Or.inl hpn
  · right
    refine ⟨hpn, ?_⟩
    rw [Node.countsReplica, hn, if_neg hpn] at hp
    change k ≤ ((x.matchOf p).getD 0).toNat
    cases hmatch : x.matchOf p with
    | none => rw [hmatch] at hp; simp at hp
    | some i =>
        rw [hmatch] at hp
        simp only [decide_eq_true_eq] at hp
        simp only [Option.getD_some]
        omega

/-- The leader raises its commit index. -/
lemma reach_advanceCommitIndex (h : At members mode S n st u a x)
    (hl : mode.keepsLogs → x.state = .leader) :
    Reach members mode S n st u a x.advanceCommitIndex := by
  by_cases hk : mode.keepsLogs
  · have g := h.ok.good hk
    rw [Node.advanceCommitIndex]
    split
    · rename_i idx hfind
      have hpred := List.find?_some hfind
      have hmem := List.mem_of_find?_eq_some hfind
      rw [Bool.and_eq_true, decide_eq_true_eq] at hpred
      obtain ⟨hterm, hcom⟩ := hpred
      obtain ⟨j, hj, hidx⟩ := List.mem_map.mp hmem
      rw [List.mem_range, g.lastLogIndex] at hj
      rw [g.lastLogIndex] at hidx
      have hcommit := g.commit_nonneg
      obtain ⟨k, rfl⟩ : ∃ k : ℕ, idx = (k : ℤ) := ⟨idx.toNat, by omega⟩
      have hpos : 0 < k := by omega
      have hle : k ≤ x.log.length := by omega
      rw [g.termAtIndex hle] at hterm
      rw [Node.isCommittedUnderCurrentConfiguration, Bool.and_eq_true,
        (h.ok.stable hk.elects).1] at hcom
      refine h.reach ?_ (h.ok.frame rfl rfl (Or.inl rfl) (fun _ => id) (fun _ => id) (fun _ => id)
        (fun _ => Or.inl) fun _ => ⟨g.snapIndex, g.snapTerm, Int.natCast_nonneg k, g.applied_nonneg, g.full, g.queued,
          g.next⟩)
      exact moves_advance h.srv (hl hk) hpos hle hterm
        (majority_of_replicatedOnMembers h.ok.nodeId hcom.1)
    · exact h.self
  · exact reach_of_still hk h (still_advanceCommitIndex x)

/-! ### The merge loop -/

section Merging

variable {y : Node σ} {b : Bool} {e : LogEntry} {es : List LogEntry}

/-- The entries are numbered consecutively from the physical position `i` on. -/
def Numbered (s : ℤ) (i : ℕ) (es : List LogEntry) : Prop :=
  ∀ (k : ℕ) e, es[k]? = some e → e.index = s + i + k + 1

lemma Numbered.head {s : ℤ} {i : ℕ} (h : Numbered s i (e :: es)) : e.index = s + i + 1 := by
  have := h 0 e rfl
  simpa using this

lemma Numbered.tail {s : ℤ} {i : ℕ} (h : Numbered s i (e :: es)) : Numbered s (i + 1) es := by
  intro k e' he'
  have := h (k + 1) e' he'
  push_cast at this ⊢
  omega

lemma appendNext_log (y : Node σ) (e : LogEntry) : (y.appendNext e).log =
    if e.index = y.lastLogIndex + 1 ∧ y.log.length < maxLog then y.log ++ [e] else y.log := by
  rw [Node.appendNext]
  split <;> rfl

lemma appendNext_snapIndex (y : Node σ) (e : LogEntry) :
    (y.appendNext e).snapshotLastIncludedIndex = y.snapshotLastIncludedIndex := by
  rw [Node.appendNext]
  split <;> rfl

lemma mergeEntry_snapIndex (acc : Node σ × Bool) (e : LogEntry) :
    (Node.mergeEntry acc e).1.snapshotLastIncludedIndex = acc.1.snapshotLastIncludedIndex := by
  obtain ⟨y, b⟩ := acc
  simp only [Node.mergeEntry]
  split
  · rfl
  · split
    · split
      · exact appendNext_snapIndex _ e
      · rfl
    · exact appendNext_snapIndex y e

/-- An entry beyond the end of the log is handed to the end of the loop body. -/
lemma mergeEntry_log_of_beyond {i : ℕ} (he : e.index = y.snapshotLastIncludedIndex + i + 1)
    (hi : y.log.length ≤ i) : (Node.mergeEntry (y, b) e).1.log = (y.appendNext e).log := by
  have hhas : y.hasLogIndex e.index = false := by
    rw [Bool.eq_false_iff, Ne, Node.hasLogIndex_eq_true, he]
    omega
  simp only [Node.mergeEntry]
  rw [if_neg (by omega), hhas]
  rfl

lemma mergeEntries_past (es : List LogEntry) :
    ∀ {y : Node σ} {b : Bool} {i : ℕ}, Numbered y.snapshotLastIncludedIndex i es →
      y.log.length < i → (es.foldl Node.mergeEntry (y, b)).1.log = y.log := by
  induction es with
  | nil => exact fun _ _ => rfl
  | cons e es ih =>
      intro y b i hnum hi
      have hlog : (Node.mergeEntry (y, b) e).1.log = y.log := by
        rw [mergeEntry_log_of_beyond hnum.head hi.le, appendNext_log, if_neg]
        rw [hnum.head, Node.lastLogIndex]
        omega
      have hsnap := mergeEntry_snapIndex (y, b) e
      rw [List.foldl_cons, ← Prod.mk.eta (p := Node.mergeEntry (y, b) e),
        ih (i := i + 1) (by rw [hsnap]; exact hnum.tail) (by rw [hlog]; omega), hlog]

/-- A batch that starts at the end of the log is appended as far as there is room. -/
lemma mergeEntries_at_end (es : List LogEntry) :
    ∀ {y : Node σ} {b : Bool}, Numbered y.snapshotLastIncludedIndex y.log.length es →
      ∃ j, (es.foldl Node.mergeEntry (y, b)).1.log = y.log ++ es.take j := by
  induction es with
  | nil => exact fun _ => ⟨0, by simp⟩
  | cons e es ih =>
      intro y b hnum
      have hstep := mergeEntry_log_of_beyond (b := b) hnum.head le_rfl
      have hsnap := mergeEntry_snapIndex (y, b) e
      rw [appendNext_log] at hstep
      by_cases hroom : y.log.length < maxLog
      · rw [if_pos ⟨by rw [hnum.head, Node.lastLogIndex], hroom⟩] at hstep
        have hlen : (Node.mergeEntry (y, b) e).1.log.length = y.log.length + 1 := by
          rw [hstep, List.length_append, List.length_singleton]
        obtain ⟨j, hj⟩ := ih (y := (Node.mergeEntry (y, b) e).1) (b := (Node.mergeEntry (y, b) e).2)
          (by rw [hsnap, hlen]; exact hnum.tail)
        refine ⟨j + 1, ?_⟩
        rw [List.foldl_cons, ← Prod.mk.eta (p := Node.mergeEntry (y, b) e), hj, hstep]
        simp
      · rw [if_neg (by simp [hroom])] at hstep
        refine ⟨0, ?_⟩
        rw [List.foldl_cons, ← Prod.mk.eta (p := Node.mergeEntry (y, b) e),
          mergeEntries_past es (i := y.log.length + 1) (by rw [hsnap]; exact hnum.tail)
            (by rw [hstep]; omega), hstep]
        simp

/-- An entry that is in the log already is skipped or cuts the log. -/
lemma mergeEntry_log_of_has {i : ℕ} {e' : LogEntry} (hs : 0 ≤ y.snapshotLastIncludedIndex)
    (he : e.index = y.snapshotLastIncludedIndex + i + 1) (hi : y.log[i]? = some e')
    (hmax : y.log.length ≤ maxLog) :
    (e'.term = e.term ∧ (Node.mergeEntry (y, b) e).1.log = y.log) ∨
      (e' ≠ e ∧ (Node.mergeEntry (y, b) e).1.log = y.log.take i ++ [e]) := by
  have hlt : i < y.log.length := (List.getElem?_eq_some_iff.mp hi).1
  have hhas : y.hasLogIndex e.index = true := by
    rw [Node.hasLogIndex_eq_true, he]
    omega
  have hterm : y.termAtIndex e.index = e'.term := by rw [he]; exact Node.termAtIndex_eq hs hi
  have hlead : y.leaderAtIndex e.index = e'.leaderId := by rw [he]; exact Node.leaderAtIndex_eq hs hi
  simp only [Node.mergeEntry]
  rw [if_neg (by omega), if_pos hhas]
  by_cases hc : y.conflicts e = true
  · right
    rw [if_pos hc]
    rw [Node.conflicts, hterm, hlead, Bool.or_eq_true, decide_eq_true_eq, Bool.and_eq_true,
      decide_eq_true_eq, decide_eq_true_eq] at hc
    refine ⟨?_, ?_⟩
    · rintro rfl
      rcases hc with hc | ⟨-, hc⟩
      · exact hc rfl
      · exact hc rfl
    · have hphys : (y.physicalIndex e.index).toNat = i := by
        rw [Node.physicalIndex, he]
        omega
      have hlen : (y.log.take i).length = i := by
        rw [List.length_take]
        omega
      rw [appendNext_log, hphys, if_pos]
      refine ⟨?_, ?_⟩
      · simp only [Node.lastLogIndex, hlen]
        exact he
      · simp only [hlen]
        omega
  · left
    rw [if_neg hc]
    refine ⟨?_, rfl⟩
    rw [Node.conflicts, hterm, Bool.or_eq_true, decide_eq_true_eq, not_or, not_not] at hc
    exact hc.1

/-- Agreement at the first position and below the rest. -/
lemma AgreeBelow.cons {L : List LogEntry} {i n : ℕ} {e e' : LogEntry} {es : List LogEntry}
    (hi : L[i]? = some e') (ht : e'.term = e.term)
    (h : AgreeBelow LogEntry.term L (i + 1) es n) :
    AgreeBelow LogEntry.term L i (e :: es) (n + 1) := by
  intro k hk f f' hf hf'
  cases k with
  | zero =>
      rw [Nat.add_zero, hi, Option.some.injEq] at hf
      rw [List.getElem?_cons_zero, Option.some.injEq] at hf'
      rw [← hf, ← hf']
      exact ht
  | succ k =>
      rw [List.getElem?_cons_succ] at hf'
      exact h k (by omega) f f' (by rw [← hf]; congr 1; omega) hf'

/-- **The merge loop is a merge**: the log is kept, extended or cut at the first conflict. -/
theorem merge_mergeEntries (es : List LogEntry) :
    ∀ {y : Node σ} {b : Bool} {i : ℕ}, 0 ≤ y.snapshotLastIncludedIndex →
      Numbered y.snapshotLastIncludedIndex i es → i ≤ y.log.length → y.log.length ≤ maxLog →
      Merge LogEntry.term y.log i es (es.foldl Node.mergeEntry (y, b)).1.log := by
  induction es with
  | nil =>
      intro y b i _ _ _ _
      exact Merge.keep fun k hk => absurd hk (by simp)
  | cons e es ih =>
      intro y b i hs hnum hi hmax
      rcases hi.lt_or_eq with hlt | rfl
      · have hget : y.log[i]? = some y.log[i] := List.getElem?_eq_getElem hlt
        have hsnap := mergeEntry_snapIndex (y, b) e
        rcases mergeEntry_log_of_has (b := b) hs hnum.head hget hmax with ⟨ht, hlog⟩ | ⟨hne, hlog⟩
        · -- skipped: the merge of the rest is a merge of the whole batch
          have hrest := ih (y := (Node.mergeEntry (y, b) e).1) (b := (Node.mergeEntry (y, b) e).2)
            (i := i + 1) (by rw [hsnap]; exact hs) (by rw [hsnap]; exact hnum.tail)
            (by rw [hlog]; omega) (by rw [hlog]; exact hmax)
          rw [hlog] at hrest
          rw [List.foldl_cons, ← Prod.mk.eta (p := Node.mergeEntry (y, b) e)]
          generalize (es.foldl Node.mergeEntry
            ((Node.mergeEntry (y, b) e).1, (Node.mergeEntry (y, b) e).2)).1.log = L' at hrest ⊢
          cases hrest with
          | keep hag => exact Merge.keep (AgreeBelow.cons hget ht hag)
          | extend j hag h1 h2 =>
              have hdrop : (e :: es).drop (y.log.length - i) = es.drop (y.log.length - (i + 1)) := by
                rw [show y.log.length - i = (y.log.length - (i + 1)) + 1 from by omega,
                  List.drop_succ_cons]
              rw [← hdrop]
              exact Merge.extend j (AgreeBelow.cons hget ht hag) hi
                (by rw [List.length_cons]; omega)
          | replace c j f f' hf hf' hne hag =>
              have hcut : y.log.take (i + 1 + c) ++ (es.drop c).take j
                  = y.log.take (i + (c + 1)) ++ ((e :: es).drop (c + 1)).take j := by
                rw [List.drop_succ_cons, show i + 1 + c = i + (c + 1) from by omega]
              rw [hcut]
              exact Merge.replace (c + 1) j f f' (by rw [← hf]; congr 1; omega)
                (by rw [List.getElem?_cons_succ]; exact hf') hne (AgreeBelow.cons hget ht hag)
        · -- cut: the rest of the batch follows
          have hlen : (Node.mergeEntry (y, b) e).1.log.length = i + 1 := by
            rw [hlog, List.length_append, List.length_take, List.length_singleton]
            omega
          obtain ⟨j, hj⟩ := mergeEntries_at_end es (y := (Node.mergeEntry (y, b) e).1)
            (b := (Node.mergeEntry (y, b) e).2) (by rw [hsnap, hlen]; exact hnum.tail)
          rw [List.foldl_cons, ← Prod.mk.eta (p := Node.mergeEntry (y, b) e), hj, hlog]
          have hcut : y.log.take i ++ [e] ++ es.take j
              = y.log.take (i + 0) ++ ((e :: es).drop 0).take (j + 1) := by
            simp
          rw [hcut]
          exact Merge.replace 0 (j + 1) _ e hget rfl hne fun k hk => absurd hk (by simp)
      · -- the batch starts at the end of the log
        obtain ⟨j, hj⟩ := mergeEntries_at_end (e :: es) (b := b) hnum
        rw [hj]
        have hag : AgreeBelow LogEntry.term y.log y.log.length (e :: es) (e :: es).length := by
          intro k _ f f' hf
          rw [List.getElem?_eq_none (by omega)] at hf
          simp at hf
        have hdrop : (e :: es).take j
            = ((e :: es).drop (y.log.length - y.log.length)).take j := by
          rw [Nat.sub_self, List.drop_zero]
        rw [hdrop]
        exact Merge.extend j hag le_rfl (by omega)

end Merging

/-! ### Accepting a batch -/

section Accepting

variable {m : Message} {b : Bool}

/-- The fields of snapshots and the applied index are not touched by the merge loop. -/
lemma mergeEntries_keeps (es : List LogEntry) : ∀ acc : Node σ × Bool,
    (es.foldl Node.mergeEntry acc).1.snapshotLastIncludedIndex = acc.1.snapshotLastIncludedIndex ∧
    (es.foldl Node.mergeEntry acc).1.snapshotLastIncludedTerm = acc.1.snapshotLastIncludedTerm ∧
    (es.foldl Node.mergeEntry acc).1.commitIndex = acc.1.commitIndex ∧
    (es.foldl Node.mergeEntry acc).1.lastApplied = acc.1.lastApplied ∧
    (es.foldl Node.mergeEntry acc).1.outbox = acc.1.outbox := by
  have happend : ∀ (y : Node σ) (e : LogEntry),
      (y.appendNext e).snapshotLastIncludedTerm = y.snapshotLastIncludedTerm ∧
      (y.appendNext e).commitIndex = y.commitIndex ∧
      (y.appendNext e).lastApplied = y.lastApplied ∧ (y.appendNext e).outbox = y.outbox := by
    intro y e
    rw [Node.appendNext]
    split <;> exact ⟨rfl, rfl, rfl, rfl⟩
  have hone : ∀ (acc : Node σ × Bool) (e : LogEntry),
      (Node.mergeEntry acc e).1.snapshotLastIncludedTerm = acc.1.snapshotLastIncludedTerm ∧
      (Node.mergeEntry acc e).1.commitIndex = acc.1.commitIndex ∧
      (Node.mergeEntry acc e).1.lastApplied = acc.1.lastApplied ∧
      (Node.mergeEntry acc e).1.outbox = acc.1.outbox := by
    rintro ⟨y, b⟩ e
    simp only [Node.mergeEntry]
    split
    · exact ⟨rfl, rfl, rfl, rfl⟩
    · split
      · split
        · exact happend _ e
        · exact ⟨rfl, rfl, rfl, rfl⟩
      · exact happend y e
  induction es with
  | nil => exact fun _ => ⟨rfl, rfl, rfl, rfl, rfl⟩
  | cons e es ih =>
      intro acc
      obtain ⟨h0, h1, h2, h3, h4⟩ := ih (Node.mergeEntry acc e)
      obtain ⟨k1, k2, k3, k4⟩ := hone acc e
      rw [List.foldl_cons]
      exact ⟨h0.trans (mergeEntry_snapIndex acc e), h1.trans k1, h2.trans k2, h3.trans k3,
        h4.trans k4⟩

/-- The merge loop never grows the log beyond its array. -/
lemma mergeEntries_full (es : List LogEntry) : ∀ acc : Node σ × Bool, acc.1.log.length ≤ maxLog →
    (es.foldl Node.mergeEntry acc).1.log.length ≤ maxLog := by
  have happend : ∀ (y : Node σ) (e : LogEntry), y.log.length ≤ maxLog →
      (y.appendNext e).log.length ≤ maxLog := by
    intro y e hy
    rw [appendNext_log]
    split
    · rename_i hroom
      rw [List.length_append, List.length_singleton]
      exact hroom.2
    · exact hy
  induction es with
  | nil => exact fun _ => id
  | cons e es ih =>
      rintro ⟨y, b⟩ hy
      refine ih _ ?_
      simp only [Node.mergeEntry]
      split
      · exact hy
      · split
        · split
          · refine happend _ e ?_
            simp only [List.length_take]
            exact (min_le_right _ _).trans hy
          · exact hy
        · exact happend y e hy

/-- The application is reset without touching the node's own fields. -/
lemma resetApplication_eq (y : Node σ) :
    ∃ user : σ, y.resetApplication A = { y with user := user } := by
  rw [Node.resetApplication]
  split <;> split
  all_goals exact ⟨_, rfl⟩

/-- The commit index that `node_append_entries_from_leader` ends with. -/
def settledCommit (y : Node σ) (m : Message) (b : Bool) : ℤ :=
  if b then min m.leaderCommit y.lastLogIndex
  else if y.commitIndex < m.leaderCommit then min m.leaderCommit y.lastLogIndex
  else if y.lastLogIndex < y.commitIndex then y.lastLogIndex
  else y.commitIndex

/-- The end of `node_append_entries_from_leader` in one record. -/
lemma settleCommit_eq (y : Node σ) (m : Message) (b : Bool) :
    ∃ (user : σ) (d : Bool), y.settleCommit A m b =
      { y with
        user := user, commitIndex := settledCommit y m b
        lastApplied := if b then y.snapshotLastIncludedIndex else y.lastApplied
        persistDirty := d } ∧ (y.persistDirty = true → d = true) := by
  rw [Node.settleCommit, settledCommit]
  cases b with
  | true =>
      obtain ⟨user, huser⟩ := resetApplication_eq (A := A)
        { y with commitIndex := min m.leaderCommit y.lastLogIndex }
      simp only [if_true, huser]
      exact ⟨user, true, rfl, fun _ => rfl⟩
  | false =>
      simp only [Bool.false_eq_true, if_false]
      split
      · exact ⟨y.user, true, rfl, fun _ => rfl⟩
      · split
        · exact ⟨y.user, true, rfl, fun _ => rfl⟩
        · exact ⟨y.user, y.persistDirty, rfl, id⟩

lemma settledCommit_bounds {y : Node σ} (hlast : 0 ≤ y.lastLogIndex) (hc : 0 ≤ y.commitIndex)
    (hlc : 0 ≤ m.leaderCommit) :
    0 ≤ settledCommit y m b ∧ settledCommit y m b ≤ y.lastLogIndex ∧
      settledCommit y m b ≤ max y.commitIndex m.leaderCommit := by
  rw [settledCommit]
  split
  · omega
  · split
    · omega
    · split <;> omega

/-- The previous entry of an accepted batch, as the protocol checks it. -/
lemma prev_of_prevMatches (g : Good x) (h : x.prevMatches m = true) :
    0 ≤ m.prevLogIndex ∧ m.prevLogIndex.toNat ≤ x.log.length ∧
      (m.prevLogIndex = 0 ∨
        termAt LogEntry.term x.log m.prevLogIndex.toNat = m.prevLogTerm) := by
  simp only [Node.prevMatches, Bool.and_eq_true, decide_eq_true_eq, Bool.not_eq_true',
    Bool.and_eq_false_iff, decide_eq_false_iff_not, not_not, g.snapIndex, g.lastLogIndex] at h
  obtain ⟨⟨⟨h0, hle⟩, hterm⟩, -⟩ := h
  obtain ⟨k, hk⟩ : ∃ k : ℕ, m.prevLogIndex = (k : ℤ) := ⟨m.prevLogIndex.toNat, by omega⟩
  rw [hk] at hle hterm ⊢
  rw [Int.toNat_natCast]
  refine ⟨by omega, by omega, ?_⟩
  rcases hterm with hterm | hterm
  · exact Or.inl (by omega)
  · right
    rw [g.termAtIndex (by omega)] at hterm
    exact hterm

/-- The node after an accepted batch, before it answers. -/
def Node.accepted (A : Application σ) (x : Node σ) (m : Message) : Node σ :=
  ((x.hearLeader m).appendEntriesFromLeader A m).1

lemma still_accepted (x : Node σ) (m : Message) : Still x (x.accepted A m) :=
  (still_hearLeader x m).trans (still_appendEntriesFromLeader _ m)

/-- The log, commit index and snapshot fields of a node that accepts a batch. -/
lemma accepted_spec (g : Good x) (hlc : 0 ≤ m.leaderCommit)
    (hprev : x.prevMatches m = true) (hnum : Numbered 0 m.prevLogIndex.toNat m.entries) :
    Merge LogEntry.term x.log m.prevLogIndex.toNat m.entries (x.accepted A m).log ∧
      (x.accepted A m).commitIndex.toNat ≤ (x.accepted A m).log.length ∧
      (x.accepted A m).commitIndex.toNat ≤ max x.commitIndex.toNat m.leaderCommit.toNat ∧
      (x.accepted A m).lastLogIndex = (x.accepted A m).log.length ∧
      (x.accepted A m).outbox = x.outbox ∧ (x.state = .follower → Good (x.accepted A m)) := by
  have hstill := still_accepted (A := A) x m
  have hprev' : (x.hearLeader m).prevMatches m = true := hprev
  obtain ⟨-, hle, -⟩ := prev_of_prevMatches g hprev
  have hmerge := merge_mergeEntries m.entries (y := x.hearLeader m) (b := false)
    (i := m.prevLogIndex.toNat) g.snapIndex.ge (by rw [show
      (x.hearLeader m).snapshotLastIncludedIndex = 0 from g.snapIndex]; exact hnum) hle g.full
  obtain ⟨hsi, hst, hci, hla, hout⟩ := mergeEntries_keeps m.entries (x.hearLeader m, false)
  have hfull := mergeEntries_full m.entries (x.hearLeader m, false) g.full
  generalize hacc : m.entries.foldl Node.mergeEntry (x.hearLeader m, false) = acc at *
  obtain ⟨user, d, hset, -⟩ := settleCommit_eq (A := A) acc.1 m acc.2
  have heq : x.accepted A m =
      { acc.1 with
        user := user, commitIndex := settledCommit acc.1 m acc.2
        lastApplied := if acc.2 then acc.1.snapshotLastIncludedIndex else acc.1.lastApplied
        persistDirty := d } := by
    rw [Node.accepted, Node.appendEntriesFromLeader, if_pos hprev', hacc]
    exact hset
  have hsnap : acc.1.snapshotLastIncludedIndex = 0 := hsi.trans g.snapIndex
  have hlast : acc.1.lastLogIndex = acc.1.log.length := by
    rw [Node.lastLogIndex, hsnap, zero_add]
  have hcommit : acc.1.commitIndex = x.commitIndex := hci
  obtain ⟨h1, h2, h3⟩ := settledCommit_bounds (m := m) (b := acc.2) (y := acc.1)
    (by rw [hlast]; omega) (by rw [hcommit]; exact g.commit_nonneg) hlc
  rw [hlast] at h2
  rw [hcommit] at h3
  rw [heq] at hstill ⊢
  refine ⟨hmerge, ?_, ?_, ?_, hout, fun hf => ⟨hsnap, hst.trans g.snapTerm, h1, ?_, ?_, ?_, fun hl => ?_⟩⟩
  · change (settledCommit acc.1 m acc.2).toNat ≤ acc.1.log.length
    omega
  · change (settledCommit acc.1 m acc.2).toNat ≤ _
    omega
  · exact hlast
  · change 0 ≤ if acc.2 then acc.1.snapshotLastIncludedIndex else acc.1.lastApplied
    split
    · rw [hsnap]
    · rw [hla]; exact g.applied_nonneg
  · exact hfull
  · rw [show acc.1.outbox = x.outbox from hout]
    exact g.queued
  · rw [hstill.state, hf] at hl
    simp at hl

/-- What a run must promise about a batch that is accepted: whatever log the merge leaves, the
acknowledgement of the whole log is covered. -/
def BatchCovered (members : List CString) (mode : Mode) (n : CString)
    (a : State CString ℤ LogEntry) (x : Node σ) (m : Message) : Prop :=
  mode = .commits → x.currentTerm ≤ m.term → x.prevMatches m = true →
    ∀ a' L, Local (params members) mode n a a' →
      Merge LogEntry.term x.log m.prevLogIndex.toNat m.entries L →
      Covered (params members) a' m.source m.term (m.prevLogIndex.toNat + m.entries.length) L

/-- The batch of a message that was sent continues a leader's log. -/
lemma batchOk_of_hears (hk : mode.keepsLogs) (h : At members mode S n st u a x)
    (hkind : m.kind = .appendEntries) (hh : Hears mode S n m) :
    BatchOk (params members) a.hist m.term m.prevLogIndex.toNat m.prevLogTerm m.entries := by
  have hp : m.promise = some (.append m.source m.target m.term m.prevLogIndex.toNat m.prevLogTerm
      m.entries m.leaderCommit.toNat) := by
    rw [Message.promise, hkind]
  have hsent := (hh.1 hk.elects).2.2 _ hp
  rw [← h.sent] at hsent
  exact (h.inv.logs hk).sent _ hsent

/-- A follower accepts a batch of its term and answers. -/
lemma reach_accept (hk : mode.keepsLogs) (h : At members mode S n st u a x)
    (hkind : m.kind = .appendEntries) (hh : Hears mode S n m) (hrole : x.state = .follower)
    (hterm : m.term = x.currentTerm) (hprev : x.prevMatches m = true)
    (hcov : mode = .commits → ∀ L,
      Merge LogEntry.term x.log m.prevLogIndex.toNat m.entries L →
      Covered (params members) a m.source m.term (m.prevLogIndex.toNat + m.entries.length) L) :
    Reach members mode S n st u a
      ((x.accepted A m).queueMessage ((x.accepted A m).appendResponse m true)) := by
  have g := h.ok.good hk
  have hsane := hh.2 hk
  have hb := batchOk_of_hears hk h hkind hh
  have hheard : Heard mode a (.append m.source n (x.view st u).term m.prevLogIndex.toNat
      m.prevLogTerm m.entries m.leaderCommit.toNat) := by
    intro hel
    obtain ⟨htgt, -, hmem⟩ := hh.1 hel
    rw [h.sent]
    refine hmem _ ?_
    rw [Message.promise, hkind, htgt, hterm]
    rfl
  have hnum : Numbered 0 m.prevLogIndex.toNat m.entries := by
    intro k e he
    have := (h.inv.logs hk).leaders.index _ _ e (hb.getElem? he)
    change e.index = _ at this
    rw [this]
    push_cast
    ring
  obtain ⟨-, hle, hpt⟩ := prev_of_prevMatches g hprev
  have hpt' : termAt LogEntry.term x.log m.prevLogIndex.toNat = m.prevLogTerm := by
    rcases hpt with h0 | hpt
    · rw [hb.2.1, h0]
      rfl
    · exact hpt
  obtain ⟨hmerge, hc1, hc2, hlast, houtbox, hgood⟩ := accepted_spec (A := A) g hsane.commit hprev hnum
  have hstill := still_accepted (A := A) x m
  -- the acknowledgement
  have hresp : ((x.accepted A m).appendResponse m true).promise
      = some (.ack n m.source (x.view st u).term (x.accepted A m).log.length) := by
    rw [Message.promise, Node.appendResponse]
    simp only [if_true, hstill.config, h.ok.nodeId, strncpy_self h.ok.fits,
      strncpy_self hsane.source, hstill.term, hlast, Int.toNat_natCast]
    rfl
  have hsaneResp : ((x.accepted A m).appendResponse m true).Sane :=
    ⟨le_rfl, le_rfl, by rw [Node.appendResponse]; simp only [hlast]; omega, length_strncpy_lt _⟩
  have hok := (h.ok.of_still hstill fun _ => hgood hrole).queueMessage
    ⟨rfl, by simp [Node.appendResponse]⟩ fun _ => hsaneResp
  have hcov' : mode = .commits → Covered (params members) a m.source (x.view st u).term
      (m.prevLogIndex.toNat + m.entries.length) (x.accepted A m).log := by
    intro hmode
    have := hcov hmode _ hmerge
    rwa [hterm] at this
  have haccept := moves_accept (d := (x.accepted A m).persistDirty) h.srv hheard hrole hle hpt'
    hmerge hc1 hc2 hstill.dirty hcov'
  refine h.reach ?_ hok
  refine haccept.bind fun a1 _ h1 => ?_
  -- the match indices of a follower mean nothing
  refine (moves_clear h1 _ (fun p => (((x.accepted A m).matchOf p).getD 0).toNat) (fun _ => rfl)
    fun hl => absurd (hrole.symm.trans hl) (by simp)).bind fun a2 _ h2 => ?_
  rw [Node.queueMessage]
  split
  · have hs := hstill.trans (still_answerAppend (x.accepted A m) m true)
    rw [Node.queueMessage, if_pos ‹_›] at hs
    rw [hs.view_eq (congrArg (· ++ [(x.accepted A m).appendResponse m true]) houtbox)]
    refine Moves.refl (h2.trans ?_)
    simp only [List.filterMap_cons, hresp, List.filterMap_nil]
    rfl
  · rw [hstill.view_eq (houtbox.trans (List.append_nil _).symm)]
    refine (moves_drop h2 (List.sublist_append_left _ _)).bind fun a3 _ h3 => ?_
    refine Moves.refl (h3.trans ?_)
    simp only [List.filterMap_nil, List.append_nil]

/-- **`node_handle_append_entries`** on a message that was sent to the node. -/
lemma reach_handleAppendEntries (h : At members mode S n st u a x)
    (hkind : m.kind = .appendEntries) (hh : Hears mode S n m)
    (hrole : mode.elects → x.state = .follower) (hcov : BatchCovered members mode n a x m) :
    Reach members mode S n st u a (x.handleAppendEntries A m) := by
  refine (reach_handleTermUpdate h m fun hel _ => hrole hel).bind fun a1 hl1 h1 => ?_
  rw [Node.handleAppendEntries]
  by_cases hterm : m.term = (x.handleTermUpdate m).currentTerm
  · simp only [if_pos hterm]
    by_cases hprev : (x.handleTermUpdate m).prevMatches m = true
    · have hacc : ((x.handleTermUpdate m).hearLeader m).appendEntriesFromLeader A m
          = ((x.handleTermUpdate m).accepted A m, true) := by
        have hprev' : ((x.handleTermUpdate m).hearLeader m).prevMatches m = true := hprev
        rw [Node.accepted, Node.appendEntriesFromLeader, if_pos hprev']
      rw [hacc]
      by_cases hk : mode.keepsLogs
      · refine reach_accept hk h1 hkind hh ?_ hterm hprev fun hmode L hL => ?_
        · rw [handleTermUpdate_state]
          exact hrole hk.elects
        · refine hcov hmode ?_ ?_ a1 L hl1 ?_
          · rw [hterm, handleTermUpdate_term]
            exact le_max_left _ _
          · rw [← handleTermUpdate_prevMatches x m]
            exact hprev
          · rw [handleTermUpdate_log] at hL
            exact hL
      · exact reach_of_still hk h1 ((still_accepted _ m).trans (still_answerAppend _ m true))
    · have hrej : ((x.handleTermUpdate m).hearLeader m).appendEntriesFromLeader A m
          = ((x.handleTermUpdate m).hearLeader m, false) := by
        have hprev' : ¬ ((x.handleTermUpdate m).hearLeader m).prevMatches m = true := hprev
        rw [Node.appendEntriesFromLeader, if_neg hprev']
      rw [hrej]
      by_cases hk : mode.keepsLogs
      · have g := h1.ok.good hk
        have hhear : Reach members mode S n st u a1 ((x.handleTermUpdate m).hearLeader m) :=
          h1.same rfl (h1.ok.of_still (still_hearLeader _ m) fun _ =>
            ⟨g.snapIndex, g.snapTerm, g.commit_nonneg, g.applied_nonneg, g.full, g.queued, g.next⟩)
        refine hhear.bind fun a2 _ h2 => ?_
        have hlast := (h2.ok.good hk).lastLogIndex
        refine reach_queueRefusal h2 ⟨rfl, by simp [Node.appendResponse]⟩ rfl fun _ => ⟨le_rfl, le_rfl, ?_, length_strncpy_lt _⟩
        simp only [Node.appendResponse, hlast]
        omega
      · exact reach_of_still hk h1 ((still_hearLeader _ m).trans (still_answerAppend _ m false))
  · simp only [if_neg hterm]
    by_cases hk : mode.keepsLogs
    · refine reach_queueRefusal h1 ⟨rfl, by simp [Node.appendResponse]⟩ rfl fun _ => ⟨le_rfl, le_rfl, ?_, length_strncpy_lt _⟩
      simp only [Node.appendResponse, (h1.ok.good hk).lastLogIndex]
      omega
    · exact reach_of_still hk h1 (still_answerAppend _ m false)

end Accepting

/-! ### Answers and client commands -/

section Leading

variable {m : Message}

/-- The match indices after one of them was set. -/
lemma matchOf_set {i : ℕ} {k : ℤ} {src : CString} (hi : x.peerIndex src = some i)
    (hlen : i < x.matchIndex.length) (ys : List ℤ) (p : CString) :
    (({ x with matchIndex := x.matchIndex.set i k, nextIndex := ys } : Node σ).matchOf p).getD 0
      = if p = src then k else (x.matchOf p).getD 0 := by
  have hpeer : ∀ q, ({ x with matchIndex := x.matchIndex.set i k, nextIndex := ys } : Node σ).peerIndex q
      = x.peerIndex q := fun _ => rfl
  by_cases hp : p = src
  · rw [if_pos hp, hp, Node.matchOf, hpeer, hi]
    simp [List.getD_eq_getElem?_getD, List.getElem?_set_self hlen]
  · rw [if_neg hp, Node.matchOf, hpeer, Node.matchOf]
    cases hj : x.peerIndex p with
    | none => rfl
    | some j =>
        have hne : i ≠ j := by
          rintro rfl
          rw [Node.peerIndex, List.findIdx?_eq_some_iff_getElem] at hi hj
          obtain ⟨_, h1, -⟩ := hi
          obtain ⟨_, h2, -⟩ := hj
          simp only [beq_iff_eq] at h1 h2
          exact hp (h2.symm.trans h1)
        simp [List.getD_eq_getElem?_getD, List.getElem?_set_ne hne]

/-- A cursor of the leader moves inside its log. -/
lemma Good.setCursors (g : Good x) {i : ℕ} {ν : ℤ} {ms : List ℤ}
    (hlen : ms.length = x.matchIndex.length) (h1 : 1 ≤ ν) (h2 : ν ≤ x.log.length + 1) :
    Good { x with matchIndex := ms, nextIndex := x.nextIndex.set i ν } := by
  refine ⟨g.snapIndex, g.snapTerm, g.commit_nonneg, g.applied_nonneg, g.full, g.queued, ?_⟩
  intro hl p j hj
  obtain ⟨hnext, hmatch, hlow, hhigh⟩ := g.next hl p j hj
  refine ⟨by rw [List.length_set]; exact hnext, by rw [hlen]; exact hmatch, ?_⟩
  rw [List.getD_eq_getElem?_getD (l := List.set _ _ _)]
  by_cases hij : i = j
  · subst hij
    rw [List.getElem?_set_self hnext, Option.getD_some]
    exact ⟨h1, h2⟩
  · rw [List.getElem?_set_ne hij, ← List.getD_eq_getElem?_getD]
    exact ⟨hlow, hhigh⟩

/-- **`node_handle_append_entries_response`** on a message that was sent to the node. -/
lemma reach_handleAppendEntriesResponse (h : At members mode S n st u a x)
    (hkind : m.kind = .appendEntriesResponse) (hh : Hears mode S n m) (hcommits : mode ≠ .logs)
    (hrole : mode.elects → x.currentTerm < m.term → x.state = .follower) :
    Reach members mode S n st u a (x.handleAppendEntriesResponse m) := by
  refine (reach_handleTermUpdate h m hrole).bind fun a1 _ h1 => ?_
  by_cases hk : mode.keepsLogs
  · rw [Node.handleAppendEntriesResponse]
    split
    · exact h1.self
    · rename_i hcond
      simp only [not_or, not_not] at hcond
      obtain ⟨hlead, hterm⟩ := hcond
      split
      · exact h1.self
      · rename_i i hi
        have g := h1.ok.good hk
        obtain ⟨hn, hm, h1n, h2n⟩ := g.next hlead _ i hi
        split
        · rename_i hsucc
          -- an acknowledgement of this term: the match index is recorded
          have hack : Heard mode a1 (.ack m.source n ((x.handleTermUpdate m).view st u).term
              m.matchIndex.toNat) := by
            intro hel
            obtain ⟨htgt, -, hmem⟩ := hh.1 hel
            rw [h1.sent]
            refine hmem _ ?_
            rw [Message.promise, hkind, htgt, hterm]
            simp only [hsucc, if_true]
            rfl
          have hcommit : CommitInv (params members) a1 := by
            have hmode : mode = .commits := by
              cases mode with
              | ballots => exact absurd hk id
              | election => exact absurd hk id
              | logs => exact absurd rfl hcommits
              | commits => rfl
            subst hmode
            exact h1.inv
          have hbound : m.matchIndex ≤ (x.handleTermUpdate m).log.length := by
            have hacked := hcommit.sent _ (hack hk.elects)
            have hle := (hcommit.acked_in _ _ _ hacked).2
            have hlog := (hcommit.logs.law n).leader (by rw [h1.srv]; exact hlead)
            rw [h1.srv] at hlog
            change (x.handleTermUpdate m).log = _ at hlog
            have hle' : m.matchIndex.toNat
                ≤ (a1.hist.leaderLog ((x.handleTermUpdate m).view st u).term).length := hle
            rw [← hlog] at hle'
            omega
          have hpos := (hh.2 hk).index
          have hview : Node.view
              { x.handleTermUpdate m with
                matchIndex := (x.handleTermUpdate m).matchIndex.set i m.matchIndex
                nextIndex := (x.handleTermUpdate m).nextIndex.set i (m.matchIndex + 1) } st u
              = { (x.handleTermUpdate m).view st u with
                  matched := Function.update ((x.handleTermUpdate m).view st u).matched m.source
                    m.matchIndex.toNat } := by
            have hμ : (fun p => ((({ x.handleTermUpdate m with
                matchIndex := (x.handleTermUpdate m).matchIndex.set i m.matchIndex
                nextIndex := (x.handleTermUpdate m).nextIndex.set i (m.matchIndex + 1) }
                : Node σ).matchOf p).getD 0).toNat)
                = Function.update ((x.handleTermUpdate m).view st u).matched m.source
                    m.matchIndex.toNat := by
              funext p
              rw [matchOf_set hi hm]
              by_cases hp : p = m.source
              · rw [if_pos hp, hp, Function.update_self]
              · rw [if_neg hp, Function.update_of_ne hp]
                rfl
            rw [← hμ]
            rfl
          have hrec : Reach members mode S n st u a1
              { x.handleTermUpdate m with
                matchIndex := (x.handleTermUpdate m).matchIndex.set i m.matchIndex
                nextIndex := (x.handleTermUpdate m).nextIndex.set i (m.matchIndex + 1) } := by
            refine h1.reach (by rw [hview]; exact moves_record h1.srv hlead hack)
              (h1.ok.frame rfl rfl (Or.inl rfl) (fun _ => id) (fun _ => id) (fun _ => id)
                (fun _ => Or.inl) fun _ => ?_)
            exact g.setCursors (by rw [List.length_set]) (by omega) (by omega)
          exact hrec.bind fun a2 _ h2 => reach_advanceCommitIndex h2 fun _ => hlead
        · -- a refusal: the cursor goes back
          have hback : Reach members mode S n st u a1
              (if (x.handleTermUpdate m).logBaseIndex < (x.handleTermUpdate m).nextIndex.getD i 0 then
                { x.handleTermUpdate m with
                  nextIndex := (x.handleTermUpdate m).nextIndex.set i
                    ((x.handleTermUpdate m).nextIndex.getD i 0 - 1) }
              else x.handleTermUpdate m) := by
            split
            · rename_i hlt
              rw [Node.logBaseIndex, g.snapIndex] at hlt
              exact h1.same rfl (h1.ok.frame rfl rfl (Or.inl rfl) (fun _ => id) (fun _ => id)
                (fun _ => id) (fun _ => Or.inl) fun _ => g.setCursors rfl (by omega) (by omega))
            · exact h1.self
          refine hback.bind fun a2 _ h2 => reach_sendAppendEntriesTo h2 fun _ => ?_
          split
          · exact ⟨hlead, i, hi⟩
          · exact ⟨hlead, i, hi⟩
  · exact reach_of_still hk h1 (still_handleAppendEntriesResponse x m)

/-- A leader appends an entry of its own and sends it to all peers. -/
lemma reach_appendOwn (h : At members mode S n st u a x) {e : LogEntry}
    (hl : mode.keepsLogs → x.state = .leader) (hterm : e.term = x.currentTerm)
    (hidx : e.index = x.lastLogIndex + 1) (hroom : x.log.length < maxLog) :
    Reach members mode S n st u a
      (Node.broadcastAppendEntries { x with log := x.log ++ [e], persistDirty := true }) := by
  by_cases hk : mode.keepsLogs
  · have g := h.ok.good hk
    have happ : Reach members mode S n st u a
        { x with log := x.log ++ [e], persistDirty := true } := by
      refine h.reach ?_ (h.ok.of_still (still_appendEntry x e) fun _ => ⟨g.snapIndex, g.snapTerm,
        g.commit_nonneg, g.applied_nonneg, ?_, g.queued, fun hs p i hi => ?_⟩)
      · refine moves_append h.srv (hl hk) hterm ?_
        change e.index = _
        rw [hidx, g.lastLogIndex]
        rfl
      · rw [List.length_append, List.length_singleton]
        exact hroom
      · obtain ⟨k1, k2, k3, k4⟩ := g.next hs p i hi
        refine ⟨k1, k2, k3, k4.trans ?_⟩
        rw [List.length_append, List.length_singleton]
        push_cast
        omega
    exact happ.bind fun a1 _ h1 => reach_broadcastAppendEntries h1 hl
  · exact reach_of_still hk h ((still_appendEntry x e).trans (still_broadcastAppendEntries _))

lemma reach_appendClientCommand (h : At members mode S n st u a x) (c : Command)
    (hl : mode.keepsLogs → x.state = .leader) :
    Reach members mode S n st u a (x.appendClientCommand c) := by
  rw [Node.appendClientCommand]
  split
  · exact reach_appendOwn h hl rfl rfl ‹_›
  · exact h.self

end Leading

end RaftRx.C
