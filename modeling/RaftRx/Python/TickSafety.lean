import RaftRx.Python.Cursors
import RaftRx.Python.CommitQuorum

/-!
Ticks of Python nodes that return.

As long as no follower acknowledges more than its leader has, nothing in a tick raises: every lookup
of the log is inside it and every cursor a leader looks up is there.

* `AckBounded`: what is asked of a batch that is accepted;
* `goes_transition`, `goes_dump`: the other two phases of a tick;
* `Cluster.Peaceful`: all nodes of a cluster are calm and all messages lawful;
* `TicksReturn`, `ticks_return`: what holds in every run all whose batches meet that;
* `tick_raises`: a heartbeat for a follower that had the longer log.
-/

namespace RaftRx.Python

open Protocol (Role)

variable {σ ν : Type} {E : Env σ ν} {F : Disk ν} {members : List Str} {N : Str → Node σ ν} {n : Str}
  {x y z : Node σ ν} {m : Message}

/-! ### Taking a batch -/

/-- Some entry of the batch conflicts with the log. -/
def Node.Clashes (x : Node σ ν) (m : Message) : Prop :=
  ∃ e ∈ m.entries, x.hasLogIndex e.index = true ∧ x.conflicts e = some true

/-- The follower acknowledges no more than the batch, which cuts its log or reaches its end, or no
more than the log of its sender `L`, if that still leads in the batch's term. -/
def AckBounded (L x : Node σ ν) (m : Message) : Prop :=
  x.lastLogIndex ≤ m.prevLogIndex + m.entries.length ∨ x.Clashes m ∨
    (L.role = .leader → L.currentTerm = m.term → x.lastLogIndex ≤ L.lastLogIndex)

instance (m : Message) : Decidable (x.Clashes m) := inferInstanceAs (Decidable (∃ e ∈ m.entries, _))

instance (L : Node σ ν) (m : Message) : Decidable (AckBounded L x m) :=
  inferInstanceAs (Decidable (_ ∨ _))

lemma conflicts_total (h : Whole x) {e : LogEntry} (he : x.hasLogIndex e.index = true) :
    ∃ b, x.conflicts e = some b := by
  obtain ⟨h1, h2⟩ := (h.hasLogIndex _).mp he
  obtain ⟨t, ht⟩ := h.termAtIndex (by omega) h2
  obtain ⟨id, hid⟩ := h.leaderAtIndex e.index
  simp only [Node.conflicts, ht, hid, Option.bind_eq_bind, Option.bind_some, Option.map_some]
  split_ifs
  · exact ⟨_, rfl⟩
  · exact ⟨_, rfl⟩
  · exact ⟨_, rfl⟩

/-- **One entry of a batch** never raises. -/
lemma mergeEntry_total (h : Whole x) (b : Bool) (e : LogEntry) :
    ∃ r, Node.mergeEntry (x, b) e = some r := by
  rw [Node.mergeEntry]
  dsimp only
  split
  · exact ⟨_, rfl⟩
  · split
    · rename_i hhas
      obtain ⟨conflict, hc⟩ := conflicts_total h hhas
      rw [hc]
      cases conflict with
      | true => exact ⟨_, rfl⟩
      | false => exact ⟨_, rfl⟩
    · exact ⟨_, rfl⟩

lemma Rewritten.whole (h : Rewritten x y) (hx : Whole x) : Whole y := by
  obtain ⟨L, d, rfl, -⟩ := h
  exact hx

/-- An entry that is appended is the last one. -/
lemma appendIfNext_last (x : Node σ ν) (e : LogEntry) :
    ((x.appendIfNext e).log = x.log ++ [e] ∧ (x.appendIfNext e).lastLogIndex = e.index ∧
      e.index = x.lastLogIndex + 1) ∨ x.appendIfNext e = x := by
  rw [Node.appendIfNext]
  split
  · rename_i hidx
    refine Or.inl ⟨rfl, ?_, hidx⟩
    rw [hidx, Node.lastLogIndex, Node.lastLogIndex, List.length_append, List.length_singleton]
    push_cast
    omega
  · exact Or.inr rfl

/-- The log in front of an index of it. -/
lemma truncate_last (h : Whole x) {i : ℤ} (hi : x.hasLogIndex i = true) :
    (x.truncateLogSuffixFrom i).log = x.log.take (i - 1).toNat ∧
      (x.truncateLogSuffixFrom i).lastLogIndex = i - 1 := by
  obtain ⟨h1, h2⟩ := (h.hasLogIndex i).mp hi
  have hlog : (x.truncateLogSuffixFrom i).log = x.log.take (i - 1).toNat := by
    rw [Node.truncateLogSuffixFrom, if_neg (by rw [h]; omega), sliceTo_of_nonneg (by
      rw [Node.physicalIndex, h.logBaseIndex]; omega), Node.physicalIndex, h.logBaseIndex]
  have hwhole : Whole (x.truncateLogSuffixFrom i) :=
    (rewritten_truncate x i).whole h
  refine ⟨hlog, ?_⟩
  rw [h.lastLogIndex] at h2
  rw [hwhole.lastLogIndex, hlog, List.length_take]
  omega

/-- What a batch leaves in the log. -/
structure Merged (U : ℤ) (x y : Node σ ν) (es : List LogEntry) : Prop where
  mem : ∀ e ∈ y.log, e ∈ x.log ∨ e ∈ es
  numbered : Numbered 0 x.log → Numbered 0 y.log
  last : y.lastLogIndex ≤ max x.lastLogIndex U
  cut : (∃ e ∈ es, x.hasLogIndex e.index = true ∧ x.conflicts e = some true) → y.lastLogIndex ≤ U

/-- One entry leaves the log as it is, or makes it end no later than the batch. -/
lemma mergeEntry_merged {U : ℤ} (h : Whole x) {b b' : Bool} {e : LogEntry} (he : e.index ≤ U)
    (hy : Node.mergeEntry (x, b) e = some (y, b')) :
    (y = x ∧ ¬ (x.hasLogIndex e.index = true ∧ x.conflicts e = some true)) ∨
      ((∀ e' ∈ y.log, e' ∈ x.log ∨ e' = e) ∧ (Numbered 0 x.log → Numbered 0 y.log) ∧
        y.lastLogIndex ≤ U) := by
  have happend : ∀ z : Node σ ν, Whole z → (∀ e' ∈ z.log, e' ∈ x.log) →
      (Numbered 0 x.log → Numbered 0 z.log) → z.lastLogIndex ≤ U →
      (∀ e' ∈ (z.appendIfNext e).log, e' ∈ x.log ∨ e' = e) ∧
        (Numbered 0 x.log → Numbered 0 (z.appendIfNext e).log) ∧
        (z.appendIfNext e).lastLogIndex ≤ U := by
    intro z hz hmem hnum hlast
    rcases appendIfNext_last z e with ⟨hlog, hnew, hidx⟩ | hsame
    · refine ⟨fun e' he' => ?_, fun hx => ?_, by omega⟩
      · rw [hlog] at he'
        exact (List.mem_append.mp he').imp (hmem e') List.mem_singleton.mp
      · rw [hlog]
        refine (hnum hx).snoc ?_
        rw [hidx, hz.lastLogIndex]
        omega
    · rw [hsame]
      exact ⟨fun e' he' => Or.inl (hmem e' he'), hnum, hlast⟩
  rcases mergeEntry_cases hy with ⟨rfl, -, hkeep⟩ | ⟨rfl, -, -, hhas⟩ | ⟨-, hhas, -, -, rfl⟩
  · refine Or.inl ⟨rfl, fun hc => ?_⟩
    rcases hkeep with hsnap | ⟨-, hno⟩
    · have hpos := ((h.hasLogIndex _).mp hc.1).1
      rw [h] at hsnap
      omega
    · exact absurd (hno.symm.trans hc.2) (by simp)
  · by_cases hidx : e.index = x.lastLogIndex + 1
    · exact Or.inr (happend x h (fun _ => id) id (by omega))
    · refine Or.inl ⟨by rw [Node.appendIfNext, if_neg hidx], fun hc => ?_⟩
      exact absurd (hhas.symm.trans hc.1) (by simp)
  · -- the entry replaces what follows it
    obtain ⟨hlog, hlast⟩ := truncate_last h hhas
    refine Or.inr (happend _ ((rewritten_truncate x e.index).whole h) (fun e' he' => ?_)
      (fun hx => ?_) ?_)
    · exact List.mem_of_mem_take (hlog ▸ he')
    · show Numbered 0 (x.truncateLogSuffixFrom e.index).log
      rw [hlog]
      exact hx.take _
    · show (x.truncateLogSuffixFrom e.index).lastLogIndex ≤ U
      omega

/-- **A batch** never raises, and its log ends with it or where it did. -/
lemma mergeEntries_total {U : ℤ} (es : List LogEntry) : ∀ (x : Node σ ν) (b : Bool), Whole x →
    (∀ e ∈ es, e.index ≤ U) →
    ∃ y b', es.foldlM Node.mergeEntry (x, b) = some (y, b') ∧ Merged U x y es := by
  induction es with
  | nil =>
      intro x b _ _
      refine ⟨x, b, rfl, fun e he => Or.inl he, id, le_max_left _ _, ?_⟩
      rintro ⟨e, he, -⟩
      exact absurd he List.not_mem_nil
  | cons e es ih =>
      intro x b hx hU
      have hU' : ∀ e' ∈ es, e'.index ≤ U := fun e' he' => hU e' (List.mem_cons_of_mem e he')
      obtain ⟨⟨z, b₁⟩, hz⟩ := mergeEntry_total hx b e
      have hzw : Whole z := (rewritten_mergeEntry hz).whole hx
      obtain ⟨y, b', hy, hm⟩ := ih z b₁ hzw hU'
      refine ⟨y, b', by rw [List.foldlM_cons, hz]; exact hy, ?_⟩
      rcases mergeEntry_merged hx (hU e List.mem_cons_self) hz with ⟨rfl, hno⟩ | ⟨hmem, hnum, hlast⟩
      · refine ⟨fun e' he' => (hm.mem e' he').imp id (List.mem_cons_of_mem e), hm.numbered, hm.last,
          ?_⟩
        rintro ⟨e', he', hc⟩
        cases List.mem_cons.mp he' with
        | inl heq => exact absurd (heq ▸ hc) hno
        | inr he' => exact hm.cut ⟨e', he', hc⟩
      · have hle : y.lastLogIndex ≤ U := hm.last.trans (max_le hlast le_rfl)
        refine ⟨fun e' he' => ?_, fun h => hm.numbered (hnum h), hle.trans (le_max_right _ _),
          fun _ => hle⟩
        cases hm.mem e' he' with
        | inl he' =>
            refine (hmem e' he').imp id ?_
            rintro rfl
            exact List.mem_cons_self
        | inr he' => exact Or.inr (List.mem_cons_of_mem e he')

/-- What has been applied is kept, or applied again from the start. -/
lemma lastApplied_settleCommit (x : Node σ ν) (rebuild : Bool) (c : ℤ) :
    (x.settleCommit E F rebuild c).lastApplied = x.lastApplied ∨
      (x.settleCommit E F rebuild c).lastApplied = x.snapshotLastIncludedIndex := by
  rw [Node.settleCommit]
  split_ifs
  · exact Or.inr rfl
  · exact Or.inl rfl
  · exact Or.inl rfl
  · exact Or.inl rfl

/-- **A follower that has taken a batch** is in order again. -/
lemma Steady.settled (h : Steady members n x) (hr : x.role = .follower) {U c : ℤ} {b : Bool}
    {es : List LogEntry} (hy : x.mergeEntries es = some (y, b)) (hm : Merged U x y es)
    (hes : ∀ e ∈ es, Plain e.command) (hc : 0 ≤ c) :
    Steady members n (y.settleCommit E F b c) ∧ (y.settleCommit E F b c).role = .follower ∧
      (y.settleCommit E F b c).currentTerm = x.currentTerm ∧
      (y.settleCommit E F b c).config = x.config ∧ (y.settleCommit E F b c).outbox = x.outbox ∧
      (y.settleCommit E F b c).pendingAppendEntries = x.pendingAppendEntries ∧
      (y.settleCommit E F b c).lastLogIndex = y.lastLogIndex := by
  have hplain : ∀ e ∈ y.log, Plain e.command := fun e he =>
    (hm.mem e he).elim (h.plain e) (hes e)
  have hnum := hm.numbered h.numbered
  obtain ⟨L, d, rfl, -⟩ := rewritten_mergeEntries hy
  have hlen := (show Whole { x with log := L, persistDirty := d } from h.snap).lastLogIndex
  have happlied := lastApplied_settleCommit (E := E) (F := F)
    { x with log := L, persistDirty := d } b c
  obtain ⟨commit, user, applied, d', heq, -, hcommit⟩ := settleCommit_eq (E := E) (F := F)
    { x with log := L, persistDirty := d } b c
  rw [heq] at happlied ⊢
  have hpos := h.commit_nonneg
  have h0 := h.applied
  have hsnap : x.snapshotLastIncludedIndex = 0 := h.snap
  dsimp only at happlied hcommit hlen
  refine ⟨⟨h.nodeId, h.peers, h.snap, hnum, hplain, ?_, ?_, ?_, fun hl => ?_, h.votes⟩, hr, rfl, rfl,
    rfl, rfl, rfl⟩
  · show 0 ≤ applied
    omega
  · show 0 ≤ commit
    omega
  · show commit ≤ Node.lastLogIndex { x with log := L, persistDirty := d }
    omega
  · exact absurd (hr.symm.trans hl) (by simp)

/-- **An answer** to the batch `m`, which is for `n`, is queued. -/
lemma Calm.answer (h : Calm members N n x) (ht : m.target = n) (hmem : m.target ∈ members)
    (hother : m.source ≠ m.target) {success : Bool}
    (hb : success = true → Backs (N m.source) x.currentTerm x.lastLogIndex) :
    Calm members N n (x.answerAppendEntries m success) ∧
      Onward x (x.answerAppendEntries m success) := by
  refine h.send ⟨fun hk => absurd hk (by simp), fun _ => ⟨?_, ?_, ?_, fun hs => ?_⟩⟩
  · dsimp only
    rw [h.steady.nodeId, ← ht]
    exact hmem
  · dsimp only
    rw [h.steady.nodeId, ← ht]
    exact hother.symm
  · dsimp only
    rw [h.steady.snap.lastLogIndex]
    exact Int.natCast_nonneg _
  · dsimp only
    rw [Function.update_of_ne (by rw [← ht]; exact hother)]
    exact hb hs

/-- The tests on the entry before the batch never raise. -/
lemma prevMatches_total (h : Whole x) (m : Message) : ∃ ok, x.prevMatches m = some ok := by
  rw [Node.prevMatches]
  split
  · exact ⟨_, rfl⟩
  · rename_i hlast
    split
    · exact ⟨_, rfl⟩
    · split
      · rename_i hpos
        obtain ⟨t, ht⟩ := h.termAtIndex hpos.le (not_lt.mp hlast)
        obtain ⟨id, hid⟩ := h.leaderAtIndex m.prevLogIndex
        simp only [ht, hid, Option.bind_eq_bind, Option.bind_some, Option.map_some]
        split_ifs
        · exact ⟨_, rfl⟩
        · exact ⟨_, rfl⟩
        · exact ⟨_, rfl⟩
      · exact ⟨_, rfl⟩

/-- **`_handle_append_entries`** of a follower returns. -/
lemma goes_takeBatch (h : Calm members N n x) (hr : x.role = .follower) (ht : m.target = n)
    (hlaw : BatchLaw members (N m.source) m) : ∃ y, x.takeBatch E F m = some y ∧
      ((m.term = x.currentTerm → x.prevMatches m = some true → AckBounded (N m.source) x m) →
        Calm members N n y ∧ Onward x y) := by
  have hs := h.steady
  have hrefuse : ∀ z : Node σ ν, Calm members N n z → Calm members N n (z.answerAppendEntries m false) ∧
      Onward z (z.answerAppendEntries m false) :=
    fun z hz => hz.answer ht hlaw.target hlaw.other (fun hf => absurd hf (by simp))
  by_cases hterm : m.term = x.currentTerm
  · have hc : Onward x (Node.contact { x with leaderId := some m.source }) :=
      Onward.of_log rfl rfl le_rfl
    have hcalm : Calm members N n (Node.contact { x with leaderId := some m.source }) :=
      h.onward hc (hs.frame rfl rfl rfl rfl rfl rfl (fun hl => ⟨hl, rfl⟩) fun _ => id) (fun _ => id)
        fun _ => id
    obtain ⟨ok, hok⟩ := prevMatches_total hs.snap m
    have hok' : (Node.contact { x with leaderId := some m.source }).prevMatches m = some ok := hok
    rw [Node.takeBatch, if_pos hterm, Node.appendEntriesFromLeader, hok']
    cases ok with
    | false =>
        obtain ⟨hcalm', ho⟩ := hrefuse _ hcalm
        exact ⟨_, rfl, fun _ => ⟨hcalm', hc.trans ho⟩⟩
    | true =>
        obtain ⟨y, b, hy, hm⟩ := mergeEntries_total m.entries
          (Node.contact { x with leaderId := some m.source }) false hs.snap hlaw.bound
        have hy' : (Node.contact { x with leaderId := some m.source }).mergeEntries m.entries =
            some (y, b) := hy
        obtain ⟨hsettled, hrole, hterm', hconf, hout, hpend, hlast⟩ :=
          hcalm.steady.settled (E := E) (F := F) (c := m.leaderCommit) hr hy' hm hlaw.plain hlaw.commit
        refine ⟨(y.settleCommit E F b m.leaderCommit).answerAppendEntries m true, ?_, fun hack => ?_⟩
        · simp only [if_true, Option.bind_eq_bind, hy', Option.bind_some]
        · have ho : Onward x (y.settleCommit E F b m.leaderCommit) :=
            Onward.of_follower hterm'.ge hrole
          have hcalm' : Calm members N n (y.settleCommit E F b m.leaderCommit) :=
            h.onward ho hsettled (fun m' hm' => hout ▸ hm') fun m' hm' => hpend ▸ hm'
          -- what is acknowledged is in the log of the leader, as long as that leads
          have hbacks : Backs (N m.source) (y.settleCommit E F b m.leaderCommit).currentTerm
              (y.settleCommit E F b m.leaderCommit).lastLogIndex := by
            rw [hlast, hterm']
            show Backs (N m.source) x.currentTerm y.lastLogIndex
            rw [← hterm]
            have hmax : y.lastLogIndex ≤
                max x.lastLogIndex (m.prevLogIndex + m.entries.length) := hm.last
            rcases hlaw.backs with hlt | ⟨heq, hne, hle⟩
            · exact Or.inl hlt
            · refine Or.inr ⟨heq, hne, fun hl => ?_⟩
              have hU := hle hl
              rcases hack hterm hok with hb | hb | hb
              · omega
              · exact (hm.cut hb).trans hU
              · have := hb hl heq.symm
                omega
          obtain ⟨hcalm'', ho'⟩ := hcalm'.answer ht hlaw.target hlaw.other fun _ => hbacks
          exact ⟨hcalm'', ho.trans ho'⟩
  · rw [Node.takeBatch, if_neg hterm]
    exact ⟨_, rfl, fun _ => hrefuse x h⟩

lemma ackBounded_handleTermUpdate {L : Node σ ν} (h : AckBounded L x m) :
    AckBounded L (x.handleTermUpdate m) m := by
  rw [Node.handleTermUpdate]
  split
  · exact h
  · exact h

/-- A batch that waits at `n`. -/
lemma Calm.batch (h : Calm members N n x) (hm : m ∈ x.pendingAppendEntries) :
    m.target = n ∧ BatchLaw members (N m.source) m := by
  obtain ⟨hk, ht, hlaw⟩ := h.pending m hm
  have hb := hlaw.1 hk
  rw [Function.update_of_ne (by rw [← ht]; exact hb.other)] at hb
  exact ⟨ht, hb⟩

/-! ### The role machine -/

lemma goes_handleNextAppendEntries (h : Calm members N n x) (hr : x.role = .follower) :
    ∃ y, x.handleNextAppendEntries E F = some y ∧
      ((∀ m ∈ x.pendingAppendEntries.head?, x.currentTerm ≤ m.term → x.prevMatches m = some true →
        AckBounded (N m.source) x m) → Calm members N n y ∧ Onward x y) := by
  rw [Node.handleNextAppendEntries]
  cases hq : x.pendingAppendEntries with
  | nil => exact ⟨x, rfl, fun _ => ⟨h, Onward.refl x⟩⟩
  | cons m rest =>
      obtain ⟨ht, hlaw⟩ := h.batch (m := m) (hq ▸ List.mem_cons_self)
      have ho : Onward x { x with pendingAppendEntries := rest } := Onward.of_log rfl rfl le_rfl
      have hpop : Calm members N n { x with pendingAppendEntries := rest } :=
        h.onward ho (h.steady.frame rfl rfl rfl rfl rfl rfl (fun hl => ⟨hl, rfl⟩) fun _ => id)
          (fun _ => id) fun m' hm' => hq ▸ List.mem_cons_of_mem m hm'
      obtain ⟨hup, ho'⟩ := hpop.handleTermUpdate m
      obtain ⟨y, hy, hcalm⟩ := goes_takeBatch (E := E) (F := F) hup
        (role_handleTermUpdate_follower m hr) ht hlaw
      refine ⟨y, hy, fun hack => ?_⟩
      obtain ⟨hcalm', ho''⟩ := hcalm fun hterm hprev => by
        rw [prevMatches_handleTermUpdate] at hprev
        refine ackBounded_handleTermUpdate (hack m rfl ?_ hprev)
        exact (currentTerm_le_handleTermUpdate { x with pendingAppendEntries := rest } m).trans
          hterm.ge
      exact ⟨hcalm', (ho.trans ho').trans ho''⟩

/-- A vote is asked for, and granted or not. -/
lemma Calm.handleRequestVote (h : Calm members N n x) (m : Message) :
    Calm members N n (x.handleRequestVote m) ∧ Onward x (x.handleRequestVote m) := by
  obtain ⟨hup, ho⟩ := h.handleTermUpdate m
  rw [Node.handleRequestVote]
  generalize x.handleTermUpdate m = y at hup ho
  have hcast : Calm members N n
      (Node.contact { y with votedFor := some m.source, persistDirty := true }) ∧
      Onward y (Node.contact { y with votedFor := some m.source, persistDirty := true }) :=
    ⟨hup.onward (Onward.of_log rfl rfl le_rfl) (hup.steady.frame rfl rfl rfl rfl rfl rfl
      (fun hl => ⟨hl, rfl⟩) fun _ => id) (fun _ => id) fun _ => id, Onward.of_log rfl rfl le_rfl⟩
  rw [Node.answerRequestVote]
  cases y.grantsVote m with
  | true =>
      obtain ⟨h1, h2⟩ := hcast.1.send (m := { kind := .requestVoteResponse, term := y.currentTerm
                                              source := y.config.nodeId, target := m.source
                                              granted := true }) (lawful_of_kind (by simp) (by simp))
      exact ⟨h1, (ho.trans hcast.2).trans h2⟩
  | false =>
      obtain ⟨h1, h2⟩ := hup.send (m := { kind := .requestVoteResponse, term := y.currentTerm
                                          source := y.config.nodeId, target := m.source
                                          granted := false }) (lawful_of_kind (by simp) (by simp))
      exact ⟨h1, ho.trans h2⟩

lemma Calm.handleNextVoteRequest (h : Calm members N n x) :
    Calm members N n x.handleNextVoteRequest ∧ Onward x x.handleNextVoteRequest := by
  rw [Node.handleNextVoteRequest]
  split
  · exact ⟨h, Onward.refl x⟩
  · rename_i m rest _
    have ho : Onward x { x with pendingVoteRequests := rest } := Onward.of_log rfl rfl le_rfl
    obtain ⟨h1, h2⟩ := (h.onward ho (h.steady.frame rfl rfl rfl rfl rfl rfl (fun hl => ⟨hl, rfl⟩)
      fun _ => id) (fun _ => id) fun _ => id).handleRequestVote m
    exact ⟨h1, ho.trans h2⟩

/-- The first pending vote is taken off. -/
lemma Calm.popVote (h : Calm members N n x) {rest : List Message}
    (hq : x.pendingVotes = m :: rest) : m.kind = .requestVoteResponse ∧
      Calm members N n { x with pendingVotes := rest } ∧
      Onward x { x with pendingVotes := rest } := by
  have ho : Onward x { x with pendingVotes := rest } := Onward.of_log rfl rfl le_rfl
  refine ⟨h.steady.votes m (hq ▸ List.mem_cons_self), h.onward ho ?_ (fun _ => id) fun _ => id, ho⟩
  exact h.steady.frame rfl rfl rfl rfl rfl rfl (fun hl => ⟨hl, rfl⟩)
    fun m' hm' => hq ▸ List.mem_cons_of_mem m hm'

lemma goes_ignoreVote (h : Calm members N n x) : Goes members N n x x.ignoreVote := by
  rw [Node.ignoreVote]
  split
  · exact Goes.of_some h (Onward.refl x)
  · rename_i m rest hq
    obtain ⟨hkind, hcalm, ho⟩ := h.popVote hq
    simp only [hkind]
    exact Goes.of_some hcalm ho

lemma goes_handleNextVote (h : Calm members N n x) : Goes members N n x x.handleNextVote := by
  rw [Node.handleNextVote]
  split
  · exact Goes.of_some h (Onward.refl x)
  · rename_i m rest hq
    obtain ⟨hkind, hcalm, ho⟩ := h.popVote hq
    obtain ⟨hup, ho'⟩ := hcalm.handleTermUpdate m
    simp only [hkind]
    refine Goes.of_some ?_ ((ho.trans ho').trans ?_)
    · rw [Node.handleRequestVoteResponse]
      generalize Node.handleTermUpdate { x with pendingVotes := rest } m = y at hup
      rw [Node.collectVote]
      split_ifs
      · exact hup
      · exact hup.onward (Onward.of_log rfl rfl le_rfl) (hup.steady.frame rfl rfl rfl rfl rfl rfl
          (fun hl => ⟨hl, rfl⟩) fun _ => id) (fun _ => id) fun _ => id
      · exact hup.onward (Onward.of_log rfl rfl le_rfl) (hup.steady.frame rfl rfl rfl rfl rfl rfl
          (fun hl => ⟨hl, rfl⟩) fun _ => id) (fun _ => id) fun _ => id
      · exact hup
    · rw [Node.handleRequestVoteResponse]
      generalize Node.handleTermUpdate { x with pendingVotes := rest } m = y
      rw [Node.collectVote]
      split_ifs <;> exact Onward.of_log rfl rfl le_rfl

/-- A candidacy is taken up. -/
lemma Calm.becomeCandidate (h : Calm members N n x) :
    Calm members N n (Node.becomeCandidate { x with role := .candidate }) ∧
      Onward x (Node.becomeCandidate { x with role := .candidate }) := by
  have ho : Onward x (Node.becomeCandidate { x with role := .candidate }) :=
    ⟨by show x.currentTerm ≤ x.currentTerm + 1; omega, fun heq => by
      have heq' : x.currentTerm = x.currentTerm + 1 := heq
      omega⟩
  refine ⟨⟨h.steady.frame rfl rfl rfl rfl rfl rfl (fun hl => absurd hl (by
    simp [Node.becomeCandidate])) fun _ => id, fun m hm => ?_, fun m hm => ?_⟩, ho⟩
  · cases List.mem_append.mp hm with
    | inl hm => exact (h.outbox m hm).onward ho
    | inr hm =>
        obtain ⟨peer, -, rfl⟩ := List.mem_map.mp hm
        exact lawful_of_kind (by simp) (by simp)
  · obtain ⟨h1, h2, h3⟩ := h.pending m hm
    exact ⟨h1, h2, h3.onward ho⟩

/-- **The lead is taken up**: every cursor starts right behind the log. -/
lemma Calm.lead (h : Calm members N n x) (hr : x.role = .candidate) :
    Calm members N n (Node.lead { x with role := .leader }) ∧
      Onward x (Node.lead { x with role := .leader }) := by
  have ho : Onward x (Node.lead { x with role := .leader }) :=
    ⟨le_rfl, fun _ hne => absurd hr hne⟩
  refine ⟨h.onward ho ?_ (fun _ => id) fun _ => id, ho⟩
  refine { h.steady with cursors := fun _ p hp hn => ?_ }
  have hpos := h.steady.snap.lastLogIndex
  refine ⟨x.lastLogIndex + 1, ?_, by omega, le_rfl⟩
  show Dict.get (Dict.ofKeys x.peers fun _ => x.lastLogIndex + 1) p = _
  rw [Dict.get_ofKeys, if_pos ((h.steady.peers p).mpr ⟨hp, hn⟩)]

/-- The next heartbeat is scheduled after a broadcast. -/
lemma goes_heartbeat (h : Calm members N n x) (hr : x.role = .leader) :
    Goes members N n x (x.broadcastAppendEntries.map Node.scheduleHeartbeat) := by
  obtain ⟨⟨y, hy, hcalm, ho, hry⟩, -⟩ := leads_broadcast h hr
  have ho' : Onward y y.scheduleHeartbeat := Onward.of_log rfl rfl le_rfl
  refine ⟨y.scheduleHeartbeat, by rw [hy]; rfl, hcalm.onward ho' ?_ (fun _ => id) fun _ => id,
    ho.trans ho'⟩
  exact hcalm.steady.frame rfl rfl rfl rfl rfl rfl (fun hl => ⟨hl, rfl⟩) fun _ => id

/-- The calls of `_send_append_entries` in a transition. -/
def Node.transitionSends (x : Node σ ν) : List (Node σ ν × Str) :=
  match x.nextTransition with
  | none => []
  | some t =>
      let y := { x with role := t.toState }
      match t.action with
      | .becomeLeader => y.lead.sendsTo y.lead.peers
      | .sendHeartbeat => y.sendsTo y.peers
      | _ => []

/-- **A transition** returns, keeps the node calm if the batch it accepts is bounded, and makes
batches that start inside the log. -/
theorem goes_transition (h : Calm members N n x) : (∃ y, x.transition E F = some y ∧
      ((∀ m, x.Accepts m → AckBounded (N m.source) x m) → Calm members N n y ∧ Onward x y)) ∧
    ∀ call ∈ x.transitionSends, InsideCall call := by
  have hgo : ∀ {o : Option (Node σ ν)}, Goes members N n x o → ∃ y, o = some y ∧
      ((∀ m, x.Accepts m → AckBounded (N m.source) x m) → Calm members N n y ∧ Onward x y) := by
    rintro o ⟨y, hy, hcalm, ho⟩
    exact ⟨y, hy, fun _ => ⟨hcalm, ho⟩⟩
  rw [Node.transition, Node.transitionSends]
  cases hnext : x.nextTransition with
  | none => exact ⟨hgo (Goes.of_some h (Onward.refl x)), fun _ hc => absurd hc List.not_mem_nil⟩
  | some t =>
      obtain ⟨hmem, hfrom, -⟩ := nextOf_spec hnext
      have hfollow : Calm members N n { x with role := .follower } ∧
          Onward x { x with role := .follower } := by
        have ho : Onward x { x with role := .follower } := Onward.of_follower le_rfl rfl
        exact ⟨h.onward ho (h.steady.frame rfl rfl rfl rfl rfl rfl
          (fun hl => absurd hl (by simp)) fun _ => id) (fun _ => id) fun _ => id, ho⟩
      have hself : t.toState = t.fromState → Goes members N n x (Node.perform E F x t.action) →
          Goes members N n x (Node.perform E F { x with role := t.toState } t.action) := by
        intro heq hgoes
        rw [publish_self (heq.trans hfrom)]
        exact hgoes
      -- the rows on which a batch is taken up
      have happend : t.action = .handleNextAppendEntries →
          ∃ y, Node.handleNextAppendEntries E F { x with role := .follower } = some y ∧
            ((∀ m, x.Accepts m → AckBounded (N m.source) x m) → Calm members N n y ∧
              Onward x y) := by
        intro hact
        obtain ⟨y, hy, hcalm⟩ := goes_handleNextAppendEntries (E := E) (F := F) hfollow.1 rfl
        refine ⟨y, hy, fun hack => ?_⟩
        obtain ⟨hcalm', ho⟩ := hcalm fun m hm hterm hprev =>
          hack m ⟨by rw [hnext, Option.map_some, hact], hm, hterm, hprev⟩
        exact ⟨hcalm', hfollow.2.trans ho⟩
      have hrequest : Goes members N n x
          (some (Node.handleNextVoteRequest { x with role := .follower })) := by
        obtain ⟨hcalm, ho⟩ := hfollow.1.handleNextVoteRequest
        exact Goes.of_some hcalm (hfollow.2.trans ho)
      have hkeep : Goes members N n x (some x.handleNextVoteRequest) := by
        obtain ⟨hcalm, ho⟩ := h.handleNextVoteRequest
        exact Goes.of_some hcalm ho
      have hquiet : ∀ call ∈ ([] : List (Node σ ν × Str)), InsideCall call :=
        fun _ hc => absurd hc List.not_mem_nil
      clear hnext
      simp only [Node.roleTransitions, List.mem_cons, List.not_mem_nil, or_false] at hmem
      rcases hmem with rfl | rfl | rfl | rfl | rfl | rfl | rfl | rfl | rfl | rfl | rfl | rfl | rfl |
        rfl | rfl
      · -- the timeout of a follower
        exact ⟨hgo (Goes.of_some h.becomeCandidate.1 h.becomeCandidate.2), hquiet⟩
      · exact ⟨happend rfl, hquiet⟩
      · exact ⟨hgo hrequest, hquiet⟩
      · exact ⟨hgo (hself rfl (goes_ignoreVote h)), hquiet⟩
      · -- the timeout of a candidate
        have ho : Onward x (Node.backToFollowerDueToTimeout { x with role := .follower }) :=
          Onward.of_follower le_rfl rfl
        refine ⟨hgo (Goes.of_some (h.onward ho ?_ (fun _ => id) fun _ => id) ho), hquiet⟩
        exact h.steady.frame rfl rfl rfl rfl rfl rfl
          (fun hl => absurd hl (by simp [Node.backToFollowerDueToTimeout])) fun _ => id
      · -- the election is won
        obtain ⟨hcalm, ho⟩ := h.lead hfrom.symm
        obtain ⟨y, hy, hcalm', ho'⟩ := goes_heartbeat hcalm rfl
        exact ⟨hgo ⟨y, hy, hcalm', ho.trans ho'⟩, (leads_broadcast hcalm rfl).2⟩
      · exact ⟨happend rfl, hquiet⟩
      · exact ⟨hgo hrequest, hquiet⟩
      · exact ⟨hgo (hself rfl hkeep), hquiet⟩
      · exact ⟨hgo (hself rfl (goes_handleNextVote h)), hquiet⟩
      · exact ⟨happend rfl, hquiet⟩
      · exact ⟨hgo hrequest, hquiet⟩
      · exact ⟨hgo (hself rfl hkeep), hquiet⟩
      · exact ⟨hgo (hself rfl (goes_ignoreVote h)), hquiet⟩
      · -- a heartbeat
        refine ⟨hgo (hself rfl (goes_heartbeat h hfrom.symm)), ?_⟩
        show ∀ call ∈ Node.sendsTo { x with role := Role.leader } x.peers, InsideCall call
        rw [publish_self hfrom]
        exact (leads_broadcast h hfrom.symm).2

/-! ### Applying -/

/-- A plain command is the application's. -/
lemma applyCommittedCommand_plain {command : Command} (h : Plain command) :
    x.applyCommittedCommand E command =
      (E.apply x.user command).map fun user => { x with user := user } := by
  have hop : ∀ op : String, "cluster.".toList <+: op.toList → command.op ≠ op.toList := by
    intro op hpre heq
    rw [Plain, heq] at h
    exact h hpre
  rw [Node.applyCommittedCommand, if_neg (hop _ (by decide)), if_neg (hop _ (by decide)),
    if_neg (hop _ (by decide))]

/-- **The apply loop** finds every entry it looks up. -/
lemma applyAll_total (happ : ∀ u command, E.apply u command ≠ none) : ∀ (k : ℕ) (x : Node σ ν),
    Steady members n x → ∃ user applied, 0 ≤ applied ∧
      (Node.applyAll E k x).2 = some { x with user := user, lastApplied := applied }
  | 0, x, h => ⟨x.user, x.lastApplied, h.applied, rfl⟩
  | k + 1, x, h => by
      rw [Node.applyAll]
      split
      · rename_i hlt
        have h0 := h.applied
        have hle := h.commit_le
        obtain ⟨e, he, hmem⟩ := h.snap.entryAtIndex (i := x.lastApplied + 1) (by omega) (by omega)
        have he' : Node.entryAtIndex { x with lastApplied := x.lastApplied + 1 }
            (x.lastApplied + 1) = some e := he
        obtain ⟨user, huser⟩ := Option.ne_none_iff_exists'.mp (happ x.user e.command)
        have hcommand : Node.applyCommittedCommand E { x with lastApplied := x.lastApplied + 1 }
            e.command = some { x with lastApplied := x.lastApplied + 1, user := user } := by
          rw [applyCommittedCommand_plain (h.plain e hmem), huser]
          rfl
        have hnext : Steady members n { x with lastApplied := x.lastApplied + 1, user := user } :=
          { h with applied := by dsimp only; omega }
        obtain ⟨user', applied, hpos, hall⟩ := applyAll_total happ k _ hnext
        simp only [he', hcommand]
        exact ⟨user', applied, hpos, hall⟩
      · exact ⟨x.user, x.lastApplied, h.applied, rfl⟩

/-- **`_dump_outputs`** returns and sends what is queued. -/
theorem goes_dump (happ : ∀ u command, E.apply u command ≠ none) (h : Calm members N n x) :
    Goes members N n x (x.dumpOutputs E).node ∧ ∀ m ∈ (x.dumpOutputs E).sends, m ∈ x.outbox := by
  rw [Node.dumpOutputs]
  split
  · have hsaved : Steady members n x.saved :=
      h.steady.frame rfl rfl rfl rfl rfl rfl (fun hl => ⟨hl, rfl⟩) fun _ => id
    obtain ⟨user, applied, hpos, hall⟩ := applyAll_total happ x.rounds x.saved hsaved
    simp only [hall]
    refine ⟨Goes.of_some (h.onward ?_ ?_ (fun _ hm => absurd hm List.not_mem_nil) fun _ => id) ?_,
      fun m hm => hm⟩
    · exact Onward.of_log rfl rfl le_rfl
    · exact { hsaved with applied := hpos }
    · exact Onward.of_log rfl rfl le_rfl
  · exact ⟨Goes.of_some h (Onward.refl x), fun m hm => absurd hm List.not_mem_nil⟩

/-! ### Acts of a tick -/

/-- An act of a tick: the commands are plain, and the other two machines stay where they are. -/
def PlainAct (x : Node σ ν) : HostAct σ → Prop
  | .latch _ _ commands => ∀ command ∈ commands, Plain command
  | .transition _ | .dump => True
  | .compaction => x.nextCompaction = none
  | .membership => x.nextMembership = none
  | _ => False

/-- The batch that is accepted, if any, is bounded. -/
def AckAct (N : Str → Node σ ν) (x : Node σ ν) : HostAct σ → Prop
  | .transition clockMs =>
      ∀ m ∈ x.pendingAppendEntries.head?, Node.Accepts { x with clockMs := clockMs } m →
        AckBounded (N m.source) x m
  | _ => True

instance (x : Node σ ν) (act : HostAct σ) : Decidable (PlainAct x act) := by
  unfold PlainAct
  split <;> infer_instance

instance (N : Str → Node σ ν) (x : Node σ ν) (act : HostAct σ) : Decidable (AckAct N x act) := by
  unfold AckAct
  split <;> infer_instance

/-- The calls of `_send_append_entries` in an act. -/
def HostAct.sends (x : Node σ ν) : HostAct σ → List (Node σ ν × Str)
  | .latch clockMs messages commands =>
      Node.latchSends { x with clockMs := clockMs } messages commands
  | .transition clockMs => Node.transitionSends { x with clockMs := clockMs }
  | _ => []

lemma Calm.clock (h : Calm members N n x) (clockMs : ℤ) :
    Calm members N n { x with clockMs := clockMs } ∧ Onward x { x with clockMs := clockMs } := by
  have ho : Onward x { x with clockMs := clockMs } := Onward.of_log rfl rfl le_rfl
  exact ⟨h.onward ho (h.steady.frame rfl rfl rfl rfl rfl rfl (fun hl => ⟨hl, rfl⟩) fun _ => id)
    (fun _ => id) fun _ => id, ho⟩

/-- **Every act of a tick** returns. -/
theorem goes_run {h : Host σ ν} (happ : ∀ u command, E.apply u command ≠ none)
    (hcalm : Calm members N n h.node) {act : HostAct σ} (hplain : PlainAct h.node act)
    (hheard : ∀ m ∈ act.heard, Addressed members N n h.node m) :
    (∃ h' ms, h.run E act = some (h', ms) ∧ (AckAct N h.node act →
      Calm members N n h'.node ∧ Onward h.node h'.node ∧ ∀ m ∈ ms, m ∈ h.node.outbox)) ∧
    ∀ call ∈ act.sends h.node, InsideCall call := by
  have hquiet : ∀ call ∈ ([] : List (Node σ ν × Str)), InsideCall call :=
    fun _ hc => absurd hc List.not_mem_nil
  have hsilent : ∀ m ∈ ([] : List Message), m ∈ h.node.outbox := fun _ hm => absurd hm List.not_mem_nil
  cases act with
  | latch clockMs ms cs =>
      obtain ⟨hclock, ho⟩ := hcalm.clock clockMs
      have hms : ∀ m ∈ ms, Addressed members N n { h.node with clockMs := clockMs } m :=
        fun m hm => (hheard m hm).onward ho
      obtain ⟨⟨y, hy, hcalm', ho'⟩, hinside⟩ := goes_latchInputs hclock hms hplain
      exact ⟨⟨{ h with node := y, phase := .latched }, [], Option.map_eq_some_iff.mpr ⟨y, hy, rfl⟩,
        fun _ => ⟨hcalm', ho.trans ho', hsilent⟩⟩, hinside⟩
  | transition clockMs =>
      obtain ⟨hclock, ho⟩ := hcalm.clock clockMs
      obtain ⟨⟨y, hy, hgoes⟩, hinside⟩ := goes_transition (E := E) (F := h.disk) hclock
      refine ⟨⟨{ h with node := y, phase := .acted }, [], Option.map_eq_some_iff.mpr ⟨y, hy, rfl⟩,
        fun hack => ?_⟩, hinside⟩
      obtain ⟨hcalm', ho'⟩ := hgoes fun m hacc => hack m hacc.head hacc
      exact ⟨hcalm', ho.trans ho', hsilent⟩
  | dump =>
      obtain ⟨⟨y, hy, hcalm', ho⟩, hsends⟩ := goes_dump happ hcalm
      exact ⟨⟨{ h with
          node := y, disk := h.disk.writeAll (h.node.dumpOutputs E).writes, phase := .idle },
        (h.node.dumpOutputs E).sends, Option.map_eq_some_iff.mpr ⟨y, hy, rfl⟩,
        fun _ => ⟨hcalm', ho, hsends⟩⟩, hquiet⟩
  | compaction =>
      have hnext : h.node.nextCompaction = none := hplain
      refine ⟨⟨h, [], ?_, fun _ => ⟨hcalm, Onward.refl _, hsilent⟩⟩, hquiet⟩
      rw [Host.run, Node.compactionTransition, hnext]
      rfl
  | membership =>
      have hnext : h.node.nextMembership = none := hplain
      refine ⟨⟨h, [], ?_, fun _ => ⟨hcalm, Onward.refl _, hsilent⟩⟩, hquiet⟩
      rw [Host.run, Node.membershipTransition, hnext]
      rfl
  | request ms => exact absurd hplain id
  | stop => exact absurd hplain id
  | start clockMs => exact absurd hplain id
  | crash user clockMs => exact absurd hplain id
  | crashInDump i j user clockMs => exact absurd hplain id

/-! ### Clusters -/

/-- The nodes of a cluster. -/
def Cluster.nodes (c : Cluster σ ν) (p : Str) : Node σ ν := (c.hosts p).node

/-- **All nodes are calm** and all messages lawful. -/
structure Cluster.Peaceful (members : List Str) (c : Cluster σ ν) : Prop where
  calm : ∀ p, Calm members c.nodes p (c.nodes p)
  lawful : ∀ m ∈ c.network, Lawful members c.nodes m

/-- The cluster's act is an act of a tick. -/
def PlainTick (c : Cluster σ ν) (act : ClusterAct σ) : Prop := PlainAct (c.nodes act.host) act.act

/-- The batch the next transition accepts, if any, is bounded. -/
def NextAckBounded (c : Cluster σ ν) (act : ClusterAct σ) : Prop :=
  AckAct c.nodes (c.nodes act.host) act.act

instance (c : Cluster σ ν) (act : ClusterAct σ) : Decidable (PlainTick c act) :=
  inferInstanceAs (Decidable (PlainAct _ _))

instance (c : Cluster σ ν) (act : ClusterAct σ) : Decidable (NextAckBounded c act) :=
  inferInstanceAs (Decidable (AckAct _ _ _))

/-- A node in its own place. -/
lemma Calm.place (h : Calm members N n x) : Calm members (Function.update N n x) n x := by
  refine ⟨h.steady, fun m hm => ?_, fun m hm => ?_⟩
  · rw [Function.update_idem]
    exact h.outbox m hm
  · rw [Function.update_idem]
    exact h.pending m hm

/-- A node whose peers move on. -/
lemma Calm.others {N' : Str → Node σ ν} (h : Calm members N n (N n)) (hn : N' n = N n)
    (hN : ∀ p, Onward (N p) (N' p)) : Calm members N' n (N' n) := by
  have hself : Function.update N' n (N n) = N' := by rw [← hn, Function.update_eq_self]
  rw [hn]
  refine ⟨h.steady, fun m hm => ?_, fun m hm => ?_⟩
  · have hlaw := h.outbox m hm
    rw [Function.update_eq_self] at hlaw
    rw [hself]
    exact hlaw.mono hN
  · obtain ⟨h1, h2, hlaw⟩ := h.pending m hm
    rw [Function.update_eq_self] at hlaw
    rw [hself]
    exact ⟨h1, h2, hlaw.mono hN⟩

/-- **A peaceful cluster** after an act of one host. -/
lemma Cluster.Peaceful.step {c : Cluster σ ν} (h : c.Peaceful members) {h' : Host σ ν}
    {ms : List Message} (hcalm : Calm members c.nodes n h'.node)
    (ho : Onward (c.nodes n) h'.node) (hms : ∀ m ∈ ms, m ∈ (c.nodes n).outbox) :
    Cluster.Peaceful members
      { hosts := Function.update c.hosts n h', network := c.network ++ ms } := by
  have hnodes : Cluster.nodes { hosts := Function.update c.hosts n h', network := c.network ++ ms } =
      Function.update c.nodes n h'.node := by
    funext p
    by_cases hp : p = n
    · subst hp
      simp [Cluster.nodes]
    · simp [Cluster.nodes, Function.update_of_ne hp]
  have hall : ∀ p, Onward (c.nodes p) (Function.update c.nodes n h'.node p) := by
    intro p
    have := onward_update (N := c.nodes) (n := n) ho p
    rwa [Function.update_eq_self] at this
  refine ⟨fun p => ?_, fun m hm => ?_⟩
  · rw [hnodes]
    by_cases hp : p = n
    · rw [hp, Function.update_self]
      exact hcalm.place
    · exact (h.calm p).others (Function.update_of_ne hp _ _) hall
  · rw [hnodes]
    cases List.mem_append.mp hm with
    | inl hm => exact (h.lawful m hm).mono hall
    | inr hm =>
        have hlaw := (h.calm n).outbox m (hms m hm)
        rw [Function.update_eq_self] at hlaw
        exact hlaw.mono hall

/-- What an act hears was sent to its host. -/
lemma Cluster.Peaceful.heard {c : Cluster σ ν} (h : c.Peaceful members) {act : ClusterAct σ}
    (hdeliver : c.Deliverable act) :
    ∀ m ∈ act.act.heard, Addressed members c.nodes act.host (c.nodes act.host) m := by
  intro m hm
  obtain ⟨hmem, ht⟩ := hdeliver m hm
  refine ⟨ht, ?_⟩
  rw [Function.update_eq_self]
  exact h.lawful m hmem

/-- A cluster on empty directories is peaceful. -/
lemma peaceful_boot (E : Str → Env σ ν) {config : Str → NodeConfig}
    (hboot : ∀ n, Bootstrapped members n (config n)) (user : Str → σ) (clockMs : ℤ) :
    Cluster.Peaceful members (Cluster.boot E config user clockMs) := by
  refine ⟨fun n => ⟨?_, fun m hm => absurd hm List.not_mem_nil, fun m hm => absurd hm
    List.not_mem_nil⟩, fun m hm => absurd hm List.not_mem_nil⟩
  have hpeers : (Node.init (E n) (config n) (Disk.empty : Disk ν) (user n) clockMs).peers =
      (ClusterConfiguration.normalizeMembers (config n).startMembers).filter
        (· ≠ (config n).nodeId) := rfl
  refine ⟨(hboot n).nodeId, fun p => ?_, rfl, numbered_nil 0, fun e he => absurd he List.not_mem_nil,
    le_rfl, le_rfl, le_rfl, fun hl => absurd hl (by simp [Cluster.nodes, Cluster.boot, Host.boot,
      Node.init, Node.loadFromStorage, Node.refreshMembershipState, Node.blank]),
    fun m hm => absurd hm List.not_mem_nil⟩
  show p ∈ (Node.init (E n) (config n) (Disk.empty : Disk ν) (user n) clockMs).peers ↔ _
  rw [hpeers, (hboot n).start, (hboot n).nodeId]
  simp

/-! ### Ticks that return -/

/-- **Ticks return**: no act of a tick raises in a state of a run from `c₀`, and every batch it makes
follows nothing or an entry of its sender's log. -/
def TicksReturn (E : Str → Env σ ν) (P : Cluster σ ν → ClusterAct σ → Prop) (c₀ : Cluster σ ν) :
    Prop :=
  ∀ c : Cluster σ ν, Run (Cluster.exec E) P c₀ c → ∀ act : ClusterAct σ, PlainTick c act →
    c.Deliverable act → (c.hosts act.host).enabled act.act = true →
      (c.exec E act).isSome = true ∧
        ∀ call ∈ act.act.sends (c.nodes act.host), InsideCall call

/-- **Ticks never raise** in a run whose accepted batches are bounded. -/
theorem ticks_return (E : Str → Env σ ν) {config : Str → NodeConfig}
    (hboot : ∀ n, Bootstrapped members n (config n)) (user : Str → σ) (clockMs : ℤ)
    (happ : ∀ n u command, (E n).apply u command ≠ none) :
    TicksReturn E (fun c act => PlainTick c act ∧ NextAckBounded c act)
      (Cluster.boot E config user clockMs) := by
  intro c hrun act hplain hdeliver henabled
  have hpeace : c.Peaceful members := by
    refine hrun.invariant (I := Cluster.Peaceful members) ?_ (peaceful_boot E hboot user clockMs)
    rintro c act c' hc ⟨hplain, hack⟩ hexec
    rw [Cluster.exec, Option.ite_none_right_eq_some] at hexec
    obtain ⟨hdeliver, hmap⟩ := hexec
    obtain ⟨⟨h', sends⟩, hhost, rfl⟩ := Option.map_eq_some_iff.mp hmap
    rw [Host.exec, Option.ite_none_right_eq_some] at hhost
    obtain ⟨⟨h'', ms, hrun', hkeep⟩, -⟩ :=
      goes_run (happ act.host) (hc.calm act.host) hplain (hc.heard hdeliver)
    have heq := Option.some.inj (hrun'.symm.trans hhost.2)
    rw [Prod.mk.injEq] at heq
    obtain ⟨rfl, rfl⟩ := heq
    obtain ⟨hcalm, ho, hms⟩ := hkeep hack
    exact hc.step hcalm ho hms
  obtain ⟨⟨h', ms, hrun', -⟩, hinside⟩ :=
    goes_run (happ act.host) (hpeace.calm act.host) hplain (hpeace.heard hdeliver)
  refine ⟨?_, hinside⟩
  rw [Cluster.exec, if_pos hdeliver, Host.exec, if_pos henabled]
  have hsome : (c.hosts act.host).run (E act.host) act.act = some (h', ms) := hrun'
  rw [hsome]
  rfl

/-- A heartbeat that is due after the answer of a follower whose log the batch reached. -/
theorem ticks_return_three : ∃ c, Run (Cluster.exec fun _ => quiet)
    (fun c act => PlainTick c act ∧ NextAckBounded c act) threeNodes c ∧
    HostAct.sends (c.nodes n1) (.transition 60) ≠ [] ∧
    (c.exec (fun _ => quiet) ⟨n1, .transition 60⟩).isSome = true := by
  have hexec : (execAll (Cluster.exec fun _ => quiet)
      (fun c act => decide (PlainTick c act ∧ NextAckBounded c act)) threeNodes
      (sharedCommand ++ [⟨n1, .latch 60 [appendAnswer n2 n1 1 true 1] []⟩])).any (fun c =>
        decide ((c.hosts n1).phase = .latched) &&
          !(HostAct.sends (c.nodes n1) (.transition 60)).isEmpty) = true := by
    decide +kernel
  obtain ⟨c, hrun, hc⟩ := Run.exists_of_execAll hexec
  rw [Bool.and_eq_true, Bool.not_eq_true', List.isEmpty_eq_false_iff] at hc
  have hrun' := hrun.mono (fun _ _ => of_decide_eq_true)
  exact ⟨c, hrun', hc.2, (ticks_return (fun _ => quiet) bootstrapped_three (fun _ => ()) 0
    (fun _ _ _ => by simp [quiet]) c hrun' ⟨n1, .transition 60⟩ trivial
    (fun m hm => absurd hm List.not_mem_nil) hc.1).1⟩

/-- **A heartbeat raises**: `n3`, whose log is empty, has taken the answer of `n1`, whose log is
longer, and looks up the entry before the next batch for `n1`. -/
theorem tick_raises : ¬ TicksReturn (fun _ => quiet) PlainTick threeNodes := by
  intro hreturn
  have hexec : (execAll (Cluster.exec fun _ => quiet) (fun c act => decide (PlainTick c act))
      threeNodes (staleEntry ++ [⟨n3, .latch 60 [appendAnswer n1 n3 2 true 1] []⟩])).any (fun c =>
        decide ((c.hosts n3).phase = .latched) &&
          (c.exec (fun _ => quiet) ⟨n3, .transition 60⟩).isNone) = true := by
    decide +kernel
  obtain ⟨c, hrun, hc⟩ := Run.exists_of_execAll hexec
  rw [Bool.and_eq_true] at hc
  have hsome := (hreturn c (hrun.mono fun _ _ => of_decide_eq_true) ⟨n3, .transition 60⟩ trivial
    (fun m hm => absurd hm List.not_mem_nil) hc.1).1
  rw [Option.isNone_iff_eq_none.mp hc.2] at hsome
  exact absurd hsome (by simp)

end RaftRx.Python
