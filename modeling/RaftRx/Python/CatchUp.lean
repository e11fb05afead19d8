import RaftRx.Python.Cursors
import RaftRx.Python.TickSafety
import RaftRx.Python.Completeness
import RaftRx.Library.Backoff

/-!
A Python leader brings the log of a follower up to date.

One round is the exchange of `_send_append_entries`, `_handle_append_entries` and
`_handle_append_entries_response`.  A batch holds everything behind the cursor.  A leader whose
cursor is beyond the end of its log raises an index error, so that rounds need not go on for ever:
they do so at most when the follower has the leader's log already.

* `Node.batchFor`, `exchange`, `exchanges`: the batch, a round and some rounds, unless one raises;
* `Probes`: the batch from a cursor inside the log;
* `Heeded`, `Moved`: the two sides of a round;
* `exchange_step`: a round is a step of the search of `Library.Backoff`;
* `exchanges_reach`, `follower_catches_up`: between a leader after its election and any running node
  of a run, one round more than the leader has entries is enough.
-/

namespace RaftRx.Python

open Protocol

variable {σ ν : Type} {x ℓ f : Node σ ν} {p : Str} {k : ℕ} {m r : Message}

/-! ### Rounds -/

/-- The batch `_send_append_entries` makes, unless it raises. -/
def Node.batchFor (x : Node σ ν) (peer : Str) : Option Message := do
  let nextIndex := max ((x.nextIndex.get peer).getD (x.lastLogIndex + 1)) x.logBaseIndex
  let prevTerm ← x.prevTermAt (nextIndex - 1)
  let prevLeaderId ← x.leaderAtIndex (nextIndex - 1)
  some
    { kind := .appendEntries, term := x.currentTerm, source := x.config.nodeId, target := peer
      prevLogIndex := nextIndex - 1, prevLogTerm := prevTerm, prevLogLeaderId := prevLeaderId
      entries := x.entriesFrom nextIndex, leaderCommit := x.commitIndex }

lemma sendAppendEntries_batchFor (x : Node σ ν) (peer : Str) : x.sendAppendEntries peer =
    (x.batchFor peer).map fun m => { x with outbox := x.outbox ++ [m] } := by
  simp only [Node.sendAppendEntries, Node.batchFor, Option.bind_eq_bind, Option.map_bind,
    Function.comp_def, Option.map_some]

/-- **One round**: the follower handles the batch the leader has for it, and the leader handles what
the follower answers. -/
def exchange (E : Env σ ν) (F : Disk ν) (r : Node σ ν × Node σ ν) :
    Option (Node σ ν × Node σ ν) := do
  let m ← r.1.batchFor r.2.config.nodeId
  let f ← r.2.handleAppendEntries E F m
  let answer ← f.outbox.getLast?
  let ℓ ← r.1.handleAppendEntriesResponse answer
  some (ℓ, f)

/-- Some rounds. -/
def exchanges (E : Env σ ν) (F : Disk ν) : ℕ → Node σ ν × Node σ ν → Option (Node σ ν × Node σ ν)
  | 0, r => some r
  | n + 1, r => (exchange E F r).bind (exchanges E F n)

/-- No leader shows an entry behind the end of its log. -/
def noEntry (_ : ℕ) : LogEntry := ⟨0, 0, ⟨[], [], none⟩, []⟩

/-! ### The batch -/

/-- **The batch from a cursor** inside the log. -/
structure Probes (ℓ : Node σ ν) (k : ℕ) (m : Message) : Prop where
  term : m.term = ℓ.currentTerm
  prev : m.prevLogIndex = k
  entries : m.entries = ℓ.log.drop k
  before : ∀ q, k = q + 1 → ∃ e, ℓ.log[q]? = some e ∧ m.prevLogTerm = e.term ∧
    m.prevLogLeaderId = e.leaderId

lemma Whole.termAt (h : Whole x) {q : ℕ} {e : LogEntry} (hq : x.log[q]? = some e) :
    x.termAtIndex (q + 1) = some e.term := by
  have hs : x.snapshotLastIncludedIndex = 0 := h
  rw [Node.termAtIndex, if_neg (by omega), if_neg (by omega), entryAtIndex_eq h, hq]
  rfl

lemma Whole.leaderAt (h : Whole x) {q : ℕ} {e : LogEntry} (hq : x.log[q]? = some e) :
    x.leaderAtIndex (q + 1) = some e.leaderId := by
  have hlt := (List.getElem?_eq_some_iff.mp hq).1
  have hhas : x.hasLogIndex (q + 1) = true := by
    rw [h.hasLogIndex, h.lastLogIndex]
    omega
  have hin : ¬((q : ℤ) + 1 ≤ 0 ∨ x.hasLogIndex (q + 1) = false) := by
    rw [hhas]
    simp only [Bool.true_eq_false, or_false]
    omega
  rw [Node.leaderAtIndex, if_neg hin, entryAtIndex_eq h, hq]
  rfl

/-- A cursor inside the log or right behind it raises nothing. -/
lemma batchFor_probes (h : Whole ℓ) (hnext : ℓ.nextIndex.get p = some ((k : ℤ) + 1))
    (hle : k ≤ ℓ.log.length) : ∃ m, ℓ.batchFor p = some m ∧ Probes ℓ k m := by
  have hlast := h.lastLogIndex
  have hcursor : max ((ℓ.nextIndex.get p).getD (ℓ.lastLogIndex + 1)) ℓ.logBaseIndex =
      (k : ℤ) + 1 := by
    rw [hnext, h.logBaseIndex, Option.getD_some]
    omega
  have hentries : ℓ.entriesFrom ((k : ℤ) + 1) = ℓ.log.drop k := by
    rw [Node.entriesFrom]
    split
    · rw [List.drop_eq_nil_of_le (by omega)]
    · rw [Node.physicalIndex, h.logBaseIndex, sliceFrom_of_nonneg (by omega),
        show ((k : ℤ) + 1 - 1).toNat = k by omega]
  rw [Node.batchFor, hcursor, hentries, add_sub_cancel_right]
  cases k with
  | zero =>
      have hterm : ℓ.prevTermAt ((0 : ℕ) : ℤ) = some 0 := if_pos rfl
      have hlead : ℓ.leaderAtIndex ((0 : ℕ) : ℤ) = some [] := if_pos (Or.inl le_rfl)
      rw [hterm, hlead]
      exact ⟨_, rfl, rfl, rfl, rfl, fun q hq => absurd hq (by omega)⟩
  | succ q =>
      have hq : ℓ.log[q]? = some ℓ.log[q] := List.getElem?_eq_getElem hle
      have hterm : ℓ.prevTermAt ((q + 1 : ℕ) : ℤ) = some ℓ.log[q].term := by
        rw [Node.prevTermAt, if_neg (by omega)]
        push_cast
        exact h.termAt hq
      have hlead : ℓ.leaderAtIndex ((q + 1 : ℕ) : ℤ) = some ℓ.log[q].leaderId := by
        push_cast
        exact h.leaderAt hq
      rw [hterm, hlead]
      refine ⟨_, rfl, rfl, rfl, rfl, fun q' hq' => ?_⟩
      obtain rfl : q = q' := by omega
      exact ⟨_, hq, rfl, rfl⟩

/-- **The follower's checks** are the receiver's. -/
lemma prevMatches_probes (h : Whole f) (hm : Probes ℓ k m) : f.prevMatches m =
    some (Backoff.accepts clashes ℓ.log noEntry f.log k) := by
  have hlast := h.lastLogIndex
  have hs : f.snapshotLastIncludedIndex = 0 := h
  rw [Node.prevMatches, hm.prev]
  cases k with
  | zero =>
      rw [if_neg (by omega), if_neg (by omega), if_neg (by omega)]
      rfl
  | succ q =>
      obtain ⟨e, he, hterm, hlead⟩ := hm.before q rfl
      rw [Backoff.accepts, he, Option.getD_some]
      cases hget : f.log[q]? with
      | none =>
          have hlen := List.getElem?_eq_none_iff.mp hget
          rw [if_pos (by push_cast; omega)]
          rfl
      | some e' =>
          have hlt := (List.getElem?_eq_some_iff.mp hget).1
          have hhas : f.hasLogIndex ((q : ℤ) + 1) = true := by
            rw [h.hasLogIndex]
            omega
          rw [if_neg (by push_cast; omega), if_neg (by push_cast; omega),
            if_pos (by push_cast; omega), Nat.cast_succ, h.termAt hget, h.leaderAt hget, hterm,
            hlead, hhas, Option.any_some, clashes]
          by_cases ht : e'.term = e.term
          · by_cases hl : e.leaderId = []
            · simp [ht, hl]
            · simp [ht, hl]
          · simp [ht]

/-! ### The two sides of a round -/

/-- What handling a batch leaves of the follower, and its answer. -/
structure Heeded (ℓ f f' : Node σ ν) (k : ℕ) (r : Message) : Prop where
  config : f'.config = f.config
  snap : Whole f'
  term : f'.currentTerm = ℓ.currentTerm
  answer : f'.outbox.getLast? = some r
  answerTerm : r.term = ℓ.currentTerm
  source : r.source = f.config.nodeId
  success : r.success = Backoff.accepts clashes ℓ.log noEntry f.log k
  index : r.matchIndex = f'.log.length
  log : f'.log = if Backoff.accepts clashes ℓ.log noEntry f.log k = true then
      f.log.take k ++ overlay clashes (f.log.drop k) (ℓ.log.drop k)
    else f.log

/-- The answer of a node. -/
lemma heeded_answer (m : Message) (ok : Bool) {y : Node σ ν} (hc : y.config = f.config)
    (hs : Whole y) (ht : y.currentTerm = ℓ.currentTerm)
    (hok : ok = Backoff.accepts clashes ℓ.log noEntry f.log k)
    (hlog : y.log = if Backoff.accepts clashes ℓ.log noEntry f.log k = true then
        f.log.take k ++ overlay clashes (f.log.drop k) (ℓ.log.drop k)
      else f.log) : ∃ r, Heeded ℓ f (y.answerAppendEntries m ok) k r := by
  refine ⟨_, hc, hs, ht, List.getLast?_concat, ht, congrArg NodeConfig.nodeId hc, hok, ?_, hlog⟩
  exact hs.lastLogIndex

/-- **The follower handles the batch**, and raises nothing. -/
lemma heeded (E : Env σ ν) (F : Disk ν) (hf : Whole f) (hle : f.currentTerm ≤ ℓ.currentTerm)
    (hnum : Numbered 0 ℓ.log) (hm : Probes ℓ k m) :
    ∃ f' r, f.handleAppendEntries E F m = some f' ∧ Heeded ℓ f f' k r := by
  obtain ⟨f₁, hf₁⟩ : ∃ y, y = f.handleTermUpdate m := ⟨_, rfl⟩
  have hlog₁ : f₁.log = f.log := by rw [hf₁, log_handleTermUpdate]
  have hrest : f₁.config = f.config ∧ Whole f₁ ∧ f₁.currentTerm = ℓ.currentTerm := by
    rw [hf₁, Node.handleTermUpdate, hm.term]
    split
    · exact ⟨rfl, hf, rfl⟩
    · exact ⟨rfl, hf, by omega⟩
  obtain ⟨hc₁, hs₁, ht₁⟩ := hrest
  obtain ⟨f₂, hf₂⟩ : ∃ y, y = Node.contact { f₁ with leaderId := some m.source } := ⟨_, rfl⟩
  have hc₂ : f₂.config = f.config := by rw [hf₂]; exact hc₁
  have hs₂ : Whole f₂ := by rw [hf₂]; exact hs₁
  have ht₂ : f₂.currentTerm = ℓ.currentTerm := by rw [hf₂]; exact ht₁
  have hlog₂ : f₂.log = f.log := by rw [hf₂]; exact hlog₁
  have hprev := prevMatches_probes hs₂ hm
  rw [hlog₂] at hprev
  have hhandle : f.handleAppendEntries E F m =
      (f₂.appendEntriesFromLeader E F m).map fun r => r.1.answerAppendEntries m r.2 := by
    rw [Node.handleAppendEntries, ← hf₁, Node.takeBatch, if_pos (by rw [hm.term, ht₁]), ← hf₂]
    exact Option.bind_eq_bind.symm ▸ (Option.map_eq_bind).symm
  rw [hhandle, Node.appendEntriesFromLeader, hprev]
  cases hacc : Backoff.accepts clashes ℓ.log noEntry f.log k with
  | false =>
      obtain ⟨r, hr⟩ := heeded_answer (k := k) m false hc₂ hs₂ ht₂ hacc.symm
        (by rw [hacc, hlog₂]; simp)
      exact ⟨_, r, rfl, hr⟩
  | true =>
      obtain ⟨y, rebuild, hy, -⟩ := mergeEntries_total (U := (ℓ.log.length : ℤ)) m.entries f₂ false
        hs₂ (fun e he => by
          rw [hm.entries] at he
          obtain ⟨q, hq⟩ := List.mem_iff_getElem?.mp (List.mem_of_mem_drop he)
          have hlt := (List.getElem?_eq_some_iff.mp hq).1
          have := hnum q e hq
          omega)
      have hk : k ≤ f₂.log.length := by
        rw [hlog₂]
        cases k with
        | zero => exact Nat.zero_le _
        | succ q =>
            rw [Backoff.accepts, Option.any_eq_true] at hacc
            obtain ⟨e', he', -⟩ := hacc
            exact (List.getElem?_eq_some_iff.mp he').1
      have hwritten := mergeEntries_overlay m.entries (i := k) hs₂
        (by rw [hm.entries]; simpa using hnum.drop k) hk hy
      obtain ⟨L, d, hyL, -⟩ := rewritten_mergeEntries hy
      obtain ⟨commit, user, applied, d', hsettle, -⟩ :=
        settleCommit_eq (E := E) (F := F) y rebuild m.leaderCommit
      rw [hlog₂, hm.entries] at hwritten
      obtain ⟨r, hr⟩ := heeded_answer (ℓ := ℓ) (f := f) (k := k) m true
        (y := y.settleCommit E F rebuild m.leaderCommit) (by rw [hsettle, hyL]; exact hc₂)
        (by rw [hsettle, hyL]; exact hs₂) (by rw [hsettle, hyL]; exact ht₂) hacc.symm
        (by rw [hsettle, hacc, if_pos rfl]; exact hwritten)
      refine ⟨_, r, ?_, hr⟩
      change (((f₂.mergeEntries m.entries).bind fun z =>
        some (z.1.settleCommit E F z.2 m.leaderCommit, true)).map _) = _
      rw [Node.mergeEntries, hy]
      rfl

/-- What handling the answer leaves of the leader, whose next index for the follower becomes
`k`. -/
structure Moved (p : Str) (k : ℤ) (ℓ ℓ' : Node σ ν) : Prop where
  role : ℓ'.role = ℓ.role
  term : ℓ'.currentTerm = ℓ.currentTerm
  log : ℓ'.log = ℓ.log
  snap : ℓ'.snapshotLastIncludedIndex = ℓ.snapshotLastIncludedIndex
  commit : ℓ.commitIndex ≤ ℓ'.commitIndex
  next : ℓ'.nextIndex.get p = some k

/-- **The leader handles an acceptance**, and raises nothing. -/
lemma moved_accepted (hs : Whole ℓ) (hr : ℓ.role = .leader) (hc : 0 ≤ ℓ.commitIndex)
    (hterm : r.term = ℓ.currentTerm) (hok : r.success = true) :
    ∃ ℓ', ℓ.handleAppendEntriesResponse r = some ℓ' ∧ Moved r.source (r.matchIndex + 1) ℓ ℓ' := by
  rw [Node.handleAppendEntriesResponse, handleTermUpdate_of_le hterm.le, Node.takeAnswer,
    if_neg (by rw [hr, hterm]; simp), if_pos hok]
  obtain ⟨y, hy⟩ : ∃ y, (ℓ.recordMatch r).advanceCommitIndex = some y := by
    by_cases hle : ℓ.commitIndex ≤ ℓ.lastLogIndex
    · exact advanceFrom_total (x := ℓ.recordMatch r) hs hc _
        (by change ℓ.commitIndex + ((ℓ.lastLogIndex - ℓ.commitIndex).toNat : ℤ) ≤ ℓ.lastLogIndex
            omega)
    · have hzero : ((ℓ.recordMatch r).lastLogIndex - (ℓ.recordMatch r).commitIndex).toNat = 0 := by
        change (ℓ.lastLogIndex - ℓ.commitIndex).toNat = 0
        omega
      rw [Node.advanceCommitIndex, hzero]
      exact ⟨_, rfl⟩
  have hnext : (ℓ.recordMatch r).nextIndex.get r.source = some (r.matchIndex + 1) := by
    change (ℓ.nextIndex.set r.source (r.matchIndex + 1)).get r.source = _
    rw [Dict.get_set, if_pos rfl]
  refine ⟨y, hy, ?_⟩
  rcases advanceCommitIndex_cases hy with rfl | ⟨i, hlt, -, -, -, rfl⟩
  · exact ⟨rfl, rfl, rfl, rfl, le_rfl, hnext⟩
  · exact ⟨rfl, rfl, rfl, rfl, hlt.le, hnext⟩

/-- **The leader handles a refusal**: the cursor moves back, and nothing is raised. -/
lemma moved_refused (hs : Whole ℓ) (hr : ℓ.role = .leader) (hterm : r.term = ℓ.currentTerm)
    (hok : r.success = false) (hnext : ℓ.nextIndex.get r.source = some ((k : ℤ) + 1))
    (hpos : 0 < k) (hle : k ≤ ℓ.log.length) :
    ∃ ℓ', ℓ.handleAppendEntriesResponse r = some ℓ' ∧ Moved r.source k ℓ ℓ' := by
  have hprev : max 1 ((k : ℤ) + 1 - 1) = ((k - 1 : ℕ) : ℤ) + 1 := by omega
  obtain ⟨y, hy⟩ : ∃ y, y = { ℓ with
      nextIndex := ℓ.nextIndex.set r.source (max 1 ((k : ℤ) + 1 - 1)) } := ⟨_, rfl⟩
  have hcursor : y.nextIndex.get r.source = some (((k - 1 : ℕ) : ℤ) + 1) := by
    rw [hy]
    change (ℓ.nextIndex.set r.source (max 1 ((k : ℤ) + 1 - 1))).get r.source = _
    rw [Dict.get_set, if_pos rfl, hprev]
  obtain ⟨m, hm, -⟩ := batchFor_probes (ℓ := y) (p := r.source) (k := k - 1)
    (by rw [hy]; exact hs) hcursor (by rw [hy]; dsimp only; omega)
  have hresponse : ℓ.handleAppendEntriesResponse r =
      some { y with outbox := y.outbox ++ [m] } := by
    rw [Node.handleAppendEntriesResponse, handleTermUpdate_of_le hterm.le, Node.takeAnswer,
      if_neg (by rw [hr, hterm]; simp), if_neg (by simp [hok]), Node.backOff, hnext]
    change Node.sendAppendEntries { ℓ with
      nextIndex := ℓ.nextIndex.set r.source (max 1 ((k : ℤ) + 1 - 1)) } r.source = _
    rw [← hy, sendAppendEntries_batchFor, hm]
    rfl
  refine ⟨_, hresponse, ?_⟩
  have hk : ((k - 1 : ℕ) : ℤ) + 1 = k := by omega
  rw [hk] at hcursor
  refine ⟨?_, ?_, ?_, ?_, ?_, hcursor⟩
  all_goals rw [hy]

/-! ### A round is a step of the search -/

/-- **A leader and a follower**, with a cursor for it. -/
structure Paired (ℓ f : Node σ ν) : Prop where
  leader : ℓ.role = .leader
  term : f.currentTerm ≤ ℓ.currentTerm
  snap : Whole ℓ
  snap' : Whole f
  numbered : Numbered 0 ℓ.log
  commit : 0 ≤ ℓ.commitIndex
  next : ∃ k : ℕ, ℓ.nextIndex.get f.config.nodeId = some ((k : ℤ) + 1)

/-- The pair as a state of the search. -/
def probe (ℓ f : Node σ ν) : Backoff.Probe LogEntry :=
  { next := (((ℓ.nextIndex.get f.config.nodeId).getD 1) - 1).toNat, log := f.log }

lemma probe_eq (hnext : ℓ.nextIndex.get f.config.nodeId = some ((k : ℤ) + 1)) :
    probe ℓ f = { next := k, log := f.log } := by
  rw [probe, hnext, Option.getD_some, add_sub_cancel_right, Int.toNat_natCast]

/-- **A round with a cursor inside the log** is a step of the search, in which a batch holds the
whole rest of the leader's log. -/
lemma exchange_step (E : Env σ ν) (F : Disk ν) (h : Paired ℓ f)
    (hle : (probe ℓ f).next ≤ ℓ.log.length) :
    ∃ ℓ' f', exchange E F (ℓ, f) = some (ℓ', f') ∧ Paired ℓ' f' ∧ ℓ'.log = ℓ.log ∧
      probe ℓ' f' = (probe ℓ f).step clashes ℓ.log noEntry (ℓ.log.length + 1) := by
  obtain ⟨k, hk⟩ := h.next
  have hprobe := probe_eq hk
  rw [hprobe] at hle ⊢
  obtain ⟨m, hm, hprobes⟩ := batchFor_probes h.snap hk hle
  obtain ⟨f', r, hf', hh⟩ := heeded E F h.snap' h.term h.numbered hprobes
  have hbatch : (ℓ.log.drop k).take (ℓ.log.length + 1) = ℓ.log.drop k :=
    List.take_of_length_le (by rw [List.length_drop]; omega)
  have hround : ∀ ℓ', ℓ.handleAppendEntriesResponse r = some ℓ' →
      exchange E F (ℓ, f) = some (ℓ', f') := by
    intro ℓ' hℓ'
    change ((ℓ.batchFor f.config.nodeId).bind fun m => (f.handleAppendEntries E F m).bind fun g =>
      g.outbox.getLast?.bind fun a => (ℓ.handleAppendEntriesResponse a).bind fun y =>
        some (y, g)) = _
    rw [hm, Option.bind_some, hf', Option.bind_some, hh.answer, Option.bind_some, hℓ',
      Option.bind_some]
  have hpaired : ∀ ℓ' (k' : ℕ), Moved r.source ((k' : ℤ) + 1) ℓ ℓ' →
      Paired ℓ' f' ∧ probe ℓ' f' = { next := k', log := f'.log } := by
    intro ℓ' k' hmoved
    have hnext : ℓ'.nextIndex.get f'.config.nodeId = some ((k' : ℤ) + 1) := by
      rw [hh.config, ← hh.source]
      exact hmoved.next
    refine ⟨⟨hmoved.role.trans h.leader, by rw [hh.term, hmoved.term], ?_, hh.snap, ?_,
      h.commit.trans hmoved.commit, k', hnext⟩, probe_eq hnext⟩
    · exact hmoved.snap.trans h.snap
    · rw [hmoved.log]
      exact h.numbered
  have hlog := hh.log
  have hsuccess := hh.success
  rw [Backoff.Probe.step, Backoff.taken, hbatch]
  dsimp only
  cases hacc : Backoff.accepts clashes ℓ.log noEntry f.log k with
  | true =>
      rw [hacc, if_pos rfl] at hlog
      rw [hacc] at hsuccess
      obtain ⟨ℓ', hℓ', hmoved⟩ := moved_accepted h.snap h.leader h.commit hh.answerTerm hsuccess
      rw [hh.index] at hmoved
      obtain ⟨hpair, hstate⟩ := hpaired ℓ' f'.log.length hmoved
      refine ⟨ℓ', f', hround ℓ' hℓ', hpair, hmoved.log, ?_⟩
      rw [hstate, if_pos rfl, hlog]
  | false =>
      rw [hacc, if_neg (by simp)] at hlog
      rw [hacc] at hsuccess
      have hpos : 0 < k := by
        rcases Nat.eq_zero_or_pos k with rfl | hpos
        · exact absurd hacc (by simp [Backoff.accepts])
        · exact hpos
      obtain ⟨ℓ', hℓ', hmoved⟩ := moved_refused h.snap h.leader hh.answerTerm hsuccess
        (by rw [hh.source]; exact hk) hpos hle
      have hcast : (k : ℤ) = ((k - 1 : ℕ) : ℤ) + 1 := by omega
      rw [hcast] at hmoved
      obtain ⟨hpair, hstate⟩ := hpaired ℓ' (k - 1) hmoved
      refine ⟨ℓ', f', hround ℓ' hℓ', hpair, hmoved.log, ?_⟩
      rw [hstate, if_neg (by simp), hlog]

/-! ### Rounds -/

/-- An entry does not clash with itself. -/
lemma clashes_self (e : LogEntry) : clashes e e = false := by simp [clashes]

/-- **Rounds reach the end of the search** before one of them raises. -/
lemma exchanges_reach (E : Env σ ν) (F : Disk ν) (n : ℕ) : ∀ {ℓ f : Node σ ν}, Paired ℓ f →
    Backoff.Within clashes ℓ.log noEntry (ℓ.log.length + 1) n (probe ℓ f) →
    ∃ j ≤ n, ∃ ℓ' f', exchanges E F j (ℓ, f) = some (ℓ', f') ∧ ℓ'.log = ℓ.log ∧
      ℓ.log <+: f'.log := by
  induction n with
  | zero =>
      intro ℓ f h hw
      have hpre := Backoff.prefix_of_within clashes_self (Nat.succ_pos _) hw
      exact ⟨0, le_rfl, ℓ, f, rfl, rfl, hpre⟩
  | succ n ih =>
      intro ℓ f h hw
      by_cases hpre : ℓ.log <+: f.log
      · exact ⟨0, Nat.zero_le _, ℓ, f, rfl, rfl, hpre⟩
      · have hle : (probe ℓ f).next ≤ ℓ.log.length := by
          rcases hw with hin | ⟨hnext, -, -⟩ | ⟨hnext, -, -, -⟩
          · exact absurd hin hpre
          · exact hnext
          · exact hnext
        obtain ⟨ℓ₁, f₁, hround, hpair, hlog, hstep⟩ := exchange_step E F h hle
        have hw₁ := Backoff.within_step clashes_self (Nat.succ_pos _) hw
        rw [← hstep, ← hlog] at hw₁
        obtain ⟨j, hj, ℓ', f', hrounds, hlog', hpre'⟩ := ih hpair hw₁
        refine ⟨j + 1, Nat.succ_le_succ hj, ℓ', f', ?_, hlog'.trans hlog, hlog ▸ hpre'⟩
        rw [exchanges, hround]
        exact hrounds

/-! ### Runs -/

section Runs

variable {B : Str → Env σ ν} {members : List Str} {mode : Mode} {n : Str}
  {a : State Str ℤ LogEntry} {c : Cluster σ ν} {config : Str → NodeConfig}

/-- The logs of two hosts are equal up to entries that do not clash. -/
lemma ClusterAt.matches (hk : mode.keepsLogs) (hat : ClusterAt members mode a c) (p q : Str) :
    Backoff.Matches clashes (c.hosts p).node.log (c.hosts q).node.log := by
  intro k e' e he' he hclash
  rw [← (hat.hosts q).log hk] at he' ⊢
  rw [← (hat.hosts p).log hk] at he ⊢
  exact log_matching (P := params members) (hat.inv.logs hk) he' he (term_eq_of_clashes hclash)

/-- **A new leader brings every running node of a run up to date**: after at most one round more
than the leader has entries the node has the leader's log, and no round before that raises. -/
theorem follower_catches_up (B : Str → Env σ ν) (hboot : ∀ n, Bootstrapped members n (config n))
    (user : Str → σ) (clockMs : ℤ)
    (hrun : Run (Cluster.exec B) (fun c act => NoMembershipChange B c act ∧ NoCompaction c act)
      (Cluster.boot B config user clockMs) c) (p q : Str)
    (hp : (c.hosts p).node.running = true ∧ (c.hosts p).node.role = .leader)
    (hq : (c.hosts q).node.running = true)
    (hterm : (c.hosts q).node.currentTerm ≤ (c.hosts p).node.currentTerm)
    (hnext : (c.hosts p).node.nextIndex.get q = some ((c.hosts p).node.lastLogIndex + 1)) :
    ∃ j ≤ (c.hosts p).node.log.length + 1, ∃ ℓ f,
      exchanges (B q) (c.hosts q).disk j ((c.hosts p).node, (c.hosts q).node) = some (ℓ, f) ∧
        ℓ.log = (c.hosts p).node.log ∧ (c.hosts p).node.log <+: f.log := by
  have hk : Mode.logs.keepsLogs := trivial
  obtain ⟨a₀, hat₀⟩ := clusterAt_boot B .logs hboot user clockMs
  obtain ⟨a, -, hat⟩ := clusterAt_run hk.elects hat₀ (hrun.mono fun _ _ => stepOk_logs)
  have hokp := ((hat.hosts p).running hp.1).ok
  have hokq := ((hat.hosts q).running hq).ok
  have hlast : (c.hosts p).node.lastLogIndex = (c.hosts p).node.log.length :=
    Whole.lastLogIndex (hokp.good hk).snapIndex
  rw [hlast, ← hokq.nodeId] at hnext
  have hpair : Paired (c.hosts p).node (c.hosts q).node :=
    { leader := hp.2
      term := hterm
      snap := (hokp.good hk).snapIndex
      snap' := (hokq.good hk).snapIndex
      numbered := hat.numbered hk p
      commit := (hokp.good hk).commit_nonneg
      next := ⟨_, hnext⟩ }
  refine exchanges_reach (B q) (c.hosts q).disk _ hpair ?_
  rw [probe_eq hnext]
  exact Backoff.within_start (hat.matches hk p q) (k := 1) (by omega) le_rfl

/-- `n2`, the leader of term 2, brings its entry to `n3`, which has none. -/
theorem follower_catches_up_three : ∃ c : Cluster Unit Unit,
    Run (Cluster.exec fun _ => quiet) (fun c act => NoMembershipChange (fun _ => quiet) c act ∧
      NoCompaction c act) threeNodes c ∧
    (c.hosts n2).node.log.length = 1 ∧ (c.hosts n3).node.log = [] ∧
    ∃ j ≤ 2, ∃ ℓ f, exchanges quiet (c.hosts n3).disk j ((c.hosts n2).node, (c.hosts n3).node) =
      some (ℓ, f) ∧ ℓ.log = (c.hosts n2).node.log ∧ (c.hosts n2).node.log <+: f.log := by
  have hexec : (execAll (Cluster.exec fun _ => quiet)
      (fun c act => decide (NoMembershipChange (fun _ => quiet) c act ∧ NoCompaction c act))
      threeNodes (committedCommand ++ laterElection)).any (fun c => leadsWith c n2 2 1 &&
        decide ((c.hosts n3).node.running = true ∧ (c.hosts n3).node.log = [] ∧
          (c.hosts n3).node.currentTerm ≤ (c.hosts n2).node.currentTerm ∧
          (c.hosts n2).node.nextIndex.get n3 = some ((c.hosts n2).node.lastLogIndex + 1))) =
        true := by
    decide +kernel
  obtain ⟨c, hrun, hc⟩ := Run.exists_of_execAll hexec
  rw [Bool.and_eq_true, decide_eq_true_eq] at hc
  obtain ⟨hleads, hon, hnil, hterm, hnext⟩ := hc
  obtain ⟨hlead, -, hlen⟩ := leadsWith_spec hleads
  have hrun' := hrun.mono (fun _ _ => of_decide_eq_true)
  have hcaught := follower_catches_up (fun _ => quiet) bootstrapped_three (fun _ => ()) 0 hrun' n2
    n3 hlead hon hterm hnext
  rw [hlen] at hcaught
  exact ⟨c, hrun', hlen, hnil, hcaught⟩

end Runs

end RaftRx.Python
