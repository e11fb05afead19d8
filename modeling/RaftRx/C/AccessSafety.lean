import RaftRx.C.Accesses

/-!
Reads of the log in clusters of C nodes.

A leader's `next_index` for a peer comes from the peer's own `match_index`, the end of its log.
As long as no follower acknowledges more than its leader has, every read is inside the log.

* `acted_transition`, `dump_inside`: the reads of a node that acts and dumps;
* `Cluster.Traffic`: the indices of all nodes are in order and all messages are backed;
* `AckBounded`, `KeepsBase`: what is asked of a batch that is accepted;
* `accesses_inside`: what holds in every run all whose batches meet that;
* `access_outside`: a heartbeat that is answered by a longer log.
-/

namespace RaftRx.C

open Protocol (Role)

variable {σ : Type*} {A : Application σ} {x y : Node σ} {m : Message}

/-! ### Accepting a batch -/

/-- Some entry of the batch conflicts with the log. -/
def Node.Clashes (x : Node σ) (m : Message) : Prop :=
  ∃ e ∈ m.entries, x.hasLogIndex e.index = true ∧ x.conflicts e = true

instance (m : Message) : Decidable (x.Clashes m) := inferInstanceAs (Decidable (∃ e ∈ m.entries, _))

/-- A batch that conflicts with an applied entry comes from a leader that has committed what the
snapshot covers. -/
def KeepsBase (x : Node σ) (m : Message) : Prop :=
  ∀ e ∈ m.entries, x.snapshotLastIncludedIndex < e.index → e.index ≤ x.lastApplied →
    x.conflicts e = true → x.snapshotLastIncludedIndex ≤ m.leaderCommit

instance (m : Message) : Decidable (KeepsBase x m) := inferInstanceAs (Decidable (∀ e ∈ m.entries, _))

lemma prevReads_inside (x : Node σ) (m : Message) : ∀ a ∈ x.prevReads m, a.Inside := by
  intro a ha
  rw [Node.prevReads] at ha
  split at ha
  · exact absurd ha List.not_mem_nil
  · split at ha
    · exact absurd ha List.not_mem_nil
    · split at ha
      · rcases List.mem_append.mp ha with ha | ha
        · exact termReads_inside (by omega) (by omega) a ha
        · split at ha
          · exact leaderReads_inside x _ a ha
          · exact absurd ha List.not_mem_nil
      · exact absurd ha List.not_mem_nil

lemma mergeReads_inside (acc : Node σ × Bool) (e : LogEntry) :
    ∀ a ∈ Node.mergeReads acc e, a.Inside := by
  intro a ha
  rw [Node.mergeReads] at ha
  split at ha
  · exact absurd ha List.not_mem_nil
  · split at ha
    · rename_i hhas
      rw [Node.hasLogIndex_eq_true] at hhas
      rcases List.mem_append.mp ha with ha | ha
      · exact termReads_inside (by omega) hhas.2 a ha
      · split at ha
        · exact leaderReads_inside acc.1 _ a ha
        · exact absurd ha List.not_mem_nil
    · exact absurd ha List.not_mem_nil

/-- **A follower** tests every index before it reads there. -/
lemma handleAppendReads_inside (x : Node σ) (m : Message) :
    ∀ a ∈ x.handleAppendReads m, a.Inside := by
  intro a ha
  rw [Node.handleAppendReads] at ha
  split at ha
  · rcases List.mem_append.mp ha with ha | ha
    · exact prevReads_inside _ m a ha
    · split at ha
      · exact (readsAlong_inside (I := fun _ => True) (fun _ _ _ _ => trivial)
          (fun acc e _ _ => mergeReads_inside acc e) _ trivial).1 a ha
      · exact absurd ha List.not_mem_nil
  · exact absurd ha List.not_mem_nil

/-- The merge loop leaves a log that is as long as the batch says, or as it was. -/
lemma mergeEntries_last {U : ℤ} (es : List LogEntry) : ∀ acc : Node σ × Bool,
    (∀ e ∈ es, e.index ≤ U) →
    (acc.1.lastLogIndex ≤ U ∨
      ∃ e ∈ es, acc.1.hasLogIndex e.index = true ∧ acc.1.conflicts e = true) →
    (es.foldl Node.mergeEntry acc).1.lastLogIndex ≤ U := by
  induction es with
  | nil =>
      rintro acc - (h | ⟨e, he, -⟩)
      · exact h
      · exact absurd he List.not_mem_nil
  | cons e es ih =>
      rintro ⟨x, b⟩ hU hor
      have hU' : ∀ e ∈ es, e.index ≤ U := fun e' he' => hU e' (List.mem_cons_of_mem _ he')
      have he := hU e List.mem_cons_self
      -- what an appended entry leaves behind
      have hnext : ∀ z : Node σ, z.lastLogIndex ≤ U → (z.appendNext e).lastLogIndex ≤ U := by
        intro z hz
        rw [Node.appendNext]
        split
        · rename_i hroom
          rw [Node.lastLogIndex] at hroom
          change z.snapshotLastIncludedIndex + ((z.log ++ [e]).length : ℤ) ≤ U
          rw [List.length_append, List.length_singleton]
          push_cast
          omega
        · exact hz
      rw [List.foldl_cons]
      refine ih _ hU' ?_
      rw [Node.mergeEntry]
      split
      · rename_i hsnap
        refine hor.imp id ?_
        rintro ⟨e', he', hhas, hconf⟩
        rcases List.mem_cons.mp he' with rfl | he'
        · rw [Node.hasLogIndex_eq_true] at hhas
          exact absurd hhas.1 (by dsimp only; omega)
        · exact ⟨e', he', hhas, hconf⟩
      · split
        · rename_i hhas
          split
          · -- the entry replaces what follows it
            left
            rw [Node.hasLogIndex_eq_true] at hhas
            refine hnext _ ?_
            change x.snapshotLastIncludedIndex +
              ((x.log.take (x.physicalIndex e.index).toNat).length : ℤ) ≤ U
            rw [List.length_take, Node.physicalIndex]
            omega
          · rename_i hno
            refine hor.imp id ?_
            rintro ⟨e', he', hhas', hconf⟩
            rcases List.mem_cons.mp he' with rfl | he'
            · exact absurd hconf hno
            · exact ⟨e', he', hhas', hconf⟩
        · rename_i hhas
          rw [Node.appendNext]
          split
          · rename_i hroom
            left
            rw [Node.lastLogIndex] at hroom
            change x.snapshotLastIncludedIndex + ((x.log ++ [e]).length : ℤ) ≤ U
            rw [List.length_append, List.length_singleton]
            push_cast
            omega
          · refine hor.imp id ?_
            rintro ⟨e', he', hhas', hconf⟩
            rcases List.mem_cons.mp he' with rfl | he'
            · exact absurd hhas' hhas
            · exact ⟨e', he', hhas', hconf⟩

/-- **What a follower acknowledges**: no more than the batch, if its log is no longer or is cut. -/
lemma merged_last_le {U : ℤ} (hU : ∀ e ∈ m.entries, e.index ≤ U)
    (h : x.lastLogIndex ≤ U ∨ x.Clashes m) :
    x.snapshotLastIncludedIndex + ((x.merged m).1.length : ℤ) ≤ U := by
  have hlast := mergeEntries_last m.entries (x, false) hU h
  obtain ⟨d, heq, -⟩ := mergeEntries_eq m.entries (x, false)
  rw [Node.lastLogIndex, show (m.entries.foldl Node.mergeEntry (x, false)).1.snapshotLastIncludedIndex
    = x.snapshotLastIncludedIndex by rw [heq]] at hlast
  exact hlast

/-- **A batch that is taken in** keeps the indices in order. -/
lemma Node.Indexed.absorbed (hx : x.Indexed) (hs : x.state = .follower) (hm : KeepsBase x m)
    (d : Bool) : Node.Indexed { x.absorbed A m with persistDirty := d } := by
  have h1 := hx.snap_le
  have h2 := hx.applied_le
  have h3 := hx.commit_le
  rw [Node.lastLogIndex] at h3
  have hlast : Node.lastLogIndex { x with log := (x.merged m).1 } =
      x.snapshotLastIncludedIndex + ((x.merged m).1.length : ℤ) := rfl
  have ho : Onward x { x.absorbed A m with persistDirty := d } := by
    refine ⟨le_rfl, fun _ => ⟨id, fun hl => ?_⟩⟩
    exact absurd (hs.symm.trans hl) (by decide)
  have hbatches : ∀ m' ∈ x.outbox, m'.kind = .appendEntries →
      m'.source = strncpy maxId x.config.nodeId ∧
        Node.Backs { x.absorbed A m with persistDirty := d } m' :=
    fun m' hm' hk => ⟨(hx.batches m' hm' hk).1, (hx.batches m' hm' hk).2.onward ho⟩
  have hcursors : x.state = .leader → ∀ p, ∀ i ∈ x.peerIndex p,
      x.nextIndex.getD i 0 ≤ Node.lastLogIndex { x with log := (x.merged m).1 } + 1 :=
    fun hl => absurd (hs.symm.trans hl) (by decide)
  cases hb : (x.merged m).2 with
  | true =>
      obtain ⟨ha, -, hc⟩ := absorbed_rebuild (A := A) hb
      -- some applied entry was replaced
      have hbase : x.snapshotLastIncludedIndex ≤ m.leaderCommit := by
        by_contra hlt
        obtain ⟨-, -, hflag⟩ := mergeEntries_take m.entries
          (x.lastApplied - x.snapshotLastIncludedIndex).toNat (x, false) (by dsimp only; omega)
          (fun e he hlo hhi => by
            dsimp only at hlo hhi
            by_contra hconf
            exact hlt (hm e he hlo (by omega) (by simpa using hconf)))
        have hfalse : (x.merged m).2 = false := hflag (by dsimp only; omega)
        rw [hb] at hfalse
        exact Bool.noConfusion hfalse
      refine ⟨merged_contiguous hx.contiguous m, hx.snap_nonneg, ?_, ?_, ?_, hcursors, hbatches⟩
      · change x.snapshotLastIncludedIndex ≤ (x.absorbed A m).lastApplied
        omega
      · change (x.absorbed A m).lastApplied ≤ (x.absorbed A m).commitIndex
        omega
      · change (x.absorbed A m).commitIndex ≤ Node.lastLogIndex { x with log := (x.merged m).1 }
        omega
  | false =>
      obtain ⟨ha, -, hc⟩ := absorbed_keep (A := A) hb
      obtain ⟨-, hlen⟩ := mergeEntries_applied m.entries
        (x.lastApplied - x.snapshotLastIncludedIndex).toNat x false (by omega) (by omega) hb
      have hlen' : (x.lastApplied - x.snapshotLastIncludedIndex).toNat ≤ (x.merged m).1.length := hlen
      have hcommit : x.lastApplied ≤ (x.absorbed A m).commitIndex ∧
          (x.absorbed A m).commitIndex ≤ Node.lastLogIndex { x with log := (x.merged m).1 } := by
        rw [hc, settledCommit, if_neg (by simp)]
        change x.lastApplied ≤ (if x.commitIndex < m.leaderCommit then _ else
            if Node.lastLogIndex { x with log := (x.merged m).1 } < x.commitIndex then _
            else x.commitIndex) ∧ (if x.commitIndex < m.leaderCommit then _ else
            if Node.lastLogIndex { x with log := (x.merged m).1 } < x.commitIndex then _
            else x.commitIndex) ≤ _
        split_ifs
        · omega
        · omega
        · omega
      refine ⟨merged_contiguous hx.contiguous m, hx.snap_nonneg, ?_, ?_, hcommit.2, hcursors, hbatches⟩
      · change x.snapshotLastIncludedIndex ≤ (x.absorbed A m).lastApplied
        omega
      · change (x.absorbed A m).lastApplied ≤ (x.absorbed A m).commitIndex
        omega

/-! ### Acting -/

lemma onward_lead (hs : x.state = .candidate) : Onward x x.lead :=
  ⟨le_rfl, fun _ => ⟨fun h => absurd h (by simp [Node.lead]), fun _ => Or.inl hs⟩⟩

/-- A new leader starts right behind its log. -/
lemma Node.Indexed.lead (hx : x.Indexed) (hs : x.state = .candidate) : x.lead.Indexed := by
  have hlast : x.lead.lastLogIndex = x.lastLogIndex := rfl
  refine ⟨hx.contiguous, hx.snap_nonneg, hx.snap_le, hx.applied_le, hx.commit_le, ?_, ?_⟩
  · intro _ p i hi
    change x.peerIndex p = some i at hi
    have hlt : i < x.config.peers.length := Node.peerIndex_lt hi
    change (List.replicate x.config.peers.length (max (x.lastLogIndex + 1) x.logBaseIndex) ++
      _).getD i 0 ≤ x.lastLogIndex + 1
    rw [List.getD_eq_getElem?_getD,
      List.getElem?_append_left (by rw [List.length_replicate]; exact hlt),
      List.getElem?_replicate, if_pos hlt, Option.getD_some, Node.logBaseIndex, Node.lastLogIndex]
    omega
  · exact fun m hm hk => ⟨(hx.batches m hm hk).1, (hx.batches m hm hk).2.onward (onward_lead hs)⟩

/-- **Acting** reads inside the log. -/
lemma transitionReads_inside (hx : x.Indexed) : ∀ a ∈ x.transitionReads, a.Inside := by
  intro a ha
  rw [Node.transitionReads] at ha
  cases henabled : x.enabled with
  | none =>
      rw [henabled] at ha
      exact absurd ha List.not_mem_nil
  | some row =>
      rw [henabled] at ha
      obtain ⟨hmem, hsrc, -⟩ := enabled_spec henabled
      simp only [raftTransitions, List.mem_cons, List.not_mem_nil, or_false] at hmem
      rcases hmem with rfl | rfl | rfl | rfl | rfl | rfl | rfl | rfl | rfl | rfl | rfl | rfl |
        rfl | rfl | rfl
      -- the batches of three roles, the new leader and the heartbeat; the others read nothing
      case inr.inl | inr.inr.inr.inr.inr.inr.inl | inr.inr.inr.inr.inr.inr.inr.inr.inr.inr.inl =>
        simp only [Node.performReads] at ha
        split at ha
        · exact absurd ha List.not_mem_nil
        · exact handleAppendReads_inside _ _ a ha
      case inr.inr.inr.inr.inr.inl => exact (broadcast_inside (hx.lead hsrc.symm) rfl).1 a ha
      case inr.inr.inr.inr.inr.inr.inr.inr.inr.inr.inr.inr.inr.inr =>
        have hself : { x with state := Role.leader } = x := with_state_self hsrc
        simp only [Node.performReads, hself] at ha
        exact (broadcast_inside hx hsrc.symm).1 a ha
      all_goals exact absurd ha List.not_mem_nil

/-- What a transition does to the indices and the role of a node, and what it acknowledges. -/
structure Acted (A : Application σ) (x y : Node σ) : Prop where
  indexed : y.Indexed
  onward : Onward x y
  acks : ∀ m' ∈ y.outbox, m'.kind = .appendEntriesResponse → m'.success = true → m' ∈ x.outbox ∨
    ∃ m, x.Accepts m ∧ m'.target = strncpy maxId m.source ∧ m'.term = m.term ∧
      ∀ U, (∀ e ∈ m.entries, e.index ≤ U) → x.lastLogIndex ≤ U ∨ x.Clashes m → m'.matchIndex ≤ U

lemma Acted.of_noAcks (h : y.Indexed) (ho : Onward x y) (ha : NoAcks x y) : Acted A x y :=
  ⟨h, ho, fun m' hm' hk hok => Or.inl (ha m' hm' hk hok)⟩

/-- A vote is cast. -/
lemma acted_handleVoteRequest (hx : x.Indexed) (m : Message) :
    (x.handleVoteRequest m).Indexed ∧ Onward x (x.handleVoteRequest m) ∧
      NoAcks x (x.handleVoteRequest m) := by
  have hup := hx.termUpdate m
  have hon := onward_handleTermUpdate x m
  have hacks : NoAcks x (x.handleTermUpdate m) := NoAcks.of_eq (handleTermUpdate_outbox x m)
  rw [Node.handleVoteRequest]
  generalize x.handleTermUpdate m = y at hup hon hacks
  have hcast : Node.Indexed (if y.grantsVote m = true then y.castVote m else y) ∧
      Onward y (if y.grantsVote m = true then y.castVote m else y) ∧
      NoAcks y (if y.grantsVote m = true then y.castVote m else y) := by
    split
    · exact ⟨hup.frame (Onward.of_log le_rfl rfl le_rfl) rfl rfl rfl rfl rfl (fun hl => ⟨hl, rfl⟩)
        fun _ hm _ => hm, Onward.of_log le_rfl rfl le_rfl, NoAcks.of_eq rfl⟩
    · exact ⟨hup, Onward.refl y, NoAcks.of_eq rfl⟩
  obtain ⟨h1, h2, h3⟩ := hcast
  refine ⟨h1.queue (by simp [Node.voteResponse]), (hon.trans h2).trans (onward_queueMessage _ _),
    (hacks.trans h3).trans (noAcks_queueMessage (by simp [Node.voteResponse]))⟩

lemma acted_handleVoteResponse (hx : x.Indexed) (m : Message) :
    (x.handleVoteResponse m).Indexed ∧ Onward x (x.handleVoteResponse m) ∧
      NoAcks x (x.handleVoteResponse m) := by
  have hup := hx.termUpdate m
  have hon := onward_handleTermUpdate x m
  have hacks : NoAcks x (x.handleTermUpdate m) := NoAcks.of_eq (handleTermUpdate_outbox x m)
  rw [Node.handleVoteResponse]
  generalize x.handleTermUpdate m = y at hup hon hacks
  split
  · exact ⟨hup, hon, hacks⟩
  · split
    · rw [Node.recordVote]
      split
      · exact ⟨hup, hon, hacks⟩
      · split
        · exact ⟨hup.frame (Onward.of_log le_rfl rfl le_rfl) rfl rfl rfl rfl rfl
            (fun hl => ⟨hl, rfl⟩) fun _ hm _ => hm,
            hon.trans (Onward.of_log le_rfl rfl le_rfl), hacks.trans (NoAcks.of_eq rfl)⟩
        · exact ⟨hup, hon, hacks⟩
    · exact ⟨hup, hon, hacks⟩

/-- Every role may fall back to that of a follower. -/
lemma Node.Indexed.follow (hx : x.Indexed) (rest : List Message) (requests : List Message) :
    Node.Indexed { x with
      state := .follower, pendingAppendEntries := rest, pendingVoteRequests := requests } ∧
    Onward x { x with
      state := .follower, pendingAppendEntries := rest, pendingVoteRequests := requests } := by
  have ho : Onward x { x with
      state := .follower, pendingAppendEntries := rest, pendingVoteRequests := requests } :=
    ⟨le_rfl, fun _ => ⟨by simp, by simp⟩⟩
  exact ⟨hx.frame ho rfl rfl rfl rfl rfl (by simp) fun _ hm _ => hm, ho⟩

/-- A batch that is refused. -/
lemma acted_refuse (hx : x.Indexed) {rest : List Message}
    (hno : ¬ (x.currentTerm ≤ m.term ∧ x.prevMatches m = true)) :
    Acted A x
      (Node.handleAppendEntries A { x with state := .follower, pendingAppendEntries := rest } m) := by
  obtain ⟨hf, hof⟩ := hx.follow rest x.pendingVoteRequests
  have hprev : (Node.handleTermUpdate
      { x with state := Role.follower, pendingAppendEntries := rest } m).prevMatches m =
        x.prevMatches m := handleTermUpdate_prevMatches _ m m
  have hterm : (Node.handleTermUpdate
      { x with state := Role.follower, pendingAppendEntries := rest } m).currentTerm =
        max x.currentTerm m.term := handleTermUpdate_term _ m
  have hup := hf.termUpdate m
  have hon := hof.trans (onward_handleTermUpdate _ m)
  have hacks : NoAcks x (Node.handleTermUpdate
      { x with state := Role.follower, pendingAppendEntries := rest } m) :=
    NoAcks.of_eq (handleTermUpdate_outbox _ m)
  simp only [Node.handleAppendEntries]
  generalize Node.handleTermUpdate
    { x with state := Role.follower, pendingAppendEntries := rest } m = y at hprev hterm hup hon hacks
  by_cases ht : m.term = y.currentTerm
  · have hfalse : (y.hearLeader m).prevMatches m = false := by
      change y.prevMatches m = false
      rw [hprev]
      by_contra hp
      exact hno ⟨by omega, by simpa using hp⟩
    have hhear : Onward y (y.hearLeader m) := Onward.of_log le_rfl rfl le_rfl
    rw [if_pos ht, Node.appendEntriesFromLeader, if_neg (by simp [hfalse])]
    refine Acted.of_noAcks ?_ ((hon.trans hhear).trans (onward_queueMessage _ _))
      ((hacks.trans (NoAcks.of_eq rfl)).trans
        (noAcks_queueMessage (x := y.hearLeader m) fun _ => rfl))
    exact (hup.frame hhear rfl rfl rfl rfl rfl (fun hl => ⟨hl, rfl⟩) fun _ hm _ => hm).queue
      (by simp [Node.appendResponse])
  · rw [if_neg ht]
    exact Acted.of_noAcks (hup.queue (by simp [Node.appendResponse]))
      (hon.trans (onward_queueMessage _ _)) (hacks.trans (noAcks_queueMessage fun _ => rfl))

/-- A batch that is accepted. -/
lemma acted_accept (hx : x.Indexed) {rest : List Message} (hm : KeepsBase x m) (h : x.Accepts m)
    (hrest : x.pendingAppendEntries = m :: rest)
    (htrans : x.transition A =
      Node.handleAppendEntries A { x with state := .follower, pendingAppendEntries := rest } m) :
    Acted A x (x.transition A) := by
  obtain ⟨t, v, l, e, d₀, d, z, hzeq, hz, -, heq, -⟩ :=
    transition_accept (C := fun _ => False) h hrest htrans
  have hterm : x.currentTerm ≤ z.currentTerm ∧ z.currentTerm = m.term := by
    have hmax : (x.transition A).currentTerm = max x.currentTerm m.term := by
      rw [htrans, (still_handleAppendEntries _ m).term]
      exact handleTermUpdate_term _ m
    have hzt : (x.transition A).currentTerm = z.currentTerm := by
      rw [heq, Node.queueMessage]
      split <;> rfl
    have := h.term
    omega
  have ho : Onward x z := by
    rw [hzeq] at hterm ⊢
    exact ⟨hterm.1, fun _ => ⟨by simp, by simp⟩⟩
  have hzx : z.Indexed := by
    rw [hzeq] at ho ⊢
    exact hx.frame ho rfl rfl rfl rfl rfl (by simp) fun _ hm _ => hm
  have hzs : z.state = .follower := by rw [hzeq]
  have hzk : KeepsBase z m := by
    rw [hzeq]
    exact hm
  have habs := hzx.absorbed (A := A) hzs hzk d
  have hoabs : Onward z { z.absorbed A m with persistDirty := d } := by
    refine ⟨le_rfl, fun _ => ⟨id, fun hl => ?_⟩⟩
    exact absurd (hzs.symm.trans hl) (by decide)
  rw [heq]
  refine ⟨habs.queue (by simp [Node.appendResponse]),
    (ho.trans hoabs).trans (onward_queueMessage _ _), fun m' hm' hk hok => ?_⟩
  have hout : z.outbox = x.outbox := by rw [hzeq]
  rw [Node.queueMessage] at hm'
  have hmem : m' ∈ x.outbox ∨
      m' = Node.appendResponse { z.absorbed A m with persistDirty := d } m true := by
    rw [← hout]
    split at hm'
    · exact (List.mem_append.mp hm').imp id List.mem_singleton.mp
    · exact Or.inl hm'
  refine hmem.imp id ?_
  rintro rfl
  refine ⟨m, h, rfl, hterm.2, fun U hU hor => ?_⟩
  have hle := merged_last_le (x := z) hU (by
    rw [hzeq]
    exact hor)
  exact hle

/-- **Acting** keeps the indices in order, and acknowledges what was accepted. -/
theorem acted_transition (hx : x.Indexed) (hm : x.AcceptsOnly (KeepsBase x)) :
    Acted A x (x.transition A) := by
  have hcase := transition_cases (A := A) x
  generalize hy : x.transition A = y at hcase ⊢
  cases hcase with
  | none => exact Acted.of_noAcks hx (Onward.refl x) (NoAcks.of_eq rfl)
  | campaign _ =>
      obtain ⟨d, ms, heq, hms⟩ := becomeCandidate_eq { x with state := Role.candidate }
      have hkind : ∀ m ∈ ms, m.kind = .requestVote := by
        intro m hm
        obtain ⟨p, rfl⟩ := hms m hm
        rfl
      have hnew : ∀ k : MessageKind, k ≠ .requestVote → ∀ m ∈ x.outbox ++ ms, m.kind = k → m ∈ x.outbox := by
        intro k hk m hm hmk
        refine (List.mem_append.mp hm).resolve_right fun hmem => hk ?_
        exact hmk.symm.trans (hkind m hmem)
      rw [heq]
      have ho : Onward x { x with
          state := Role.candidate, currentTerm := x.currentTerm + 1
          votedFor := strncpy maxId x.config.nodeId
          votesReceived := [strncpy maxId x.config.nodeId], leaderId := [], persistDirty := true
          electionDeadlineMs := d, outbox := x.outbox ++ ms } :=
        ⟨by dsimp only; omega, fun h => absurd h (by dsimp only; omega)⟩
      exact Acted.of_noAcks (hx.frame ho rfl rfl rfl rfl rfl (by simp) (hnew _ (by decide)))
        ho fun m hm hk _ => hnew _ (by decide) m hm hk
  | giveUp _ =>
      have ho : Onward x (Node.backToFollowerDueToTimeout { x with state := Role.follower }) :=
        ⟨le_rfl, fun _ => ⟨by simp [Node.backToFollowerDueToTimeout],
          by simp [Node.backToFollowerDueToTimeout]⟩⟩
      exact Acted.of_noAcks (hx.frame ho rfl rfl rfl rfl rfl
        (by simp [Node.backToFollowerDueToTimeout]) fun _ hm _ => hm) ho (NoAcks.of_eq rfl)
  | win hs _ =>
      rw [becomeLeader_eq]
      obtain ⟨-, hb⟩ := broadcast_inside (hx.lead hs) rfl
      have ho := (onward_lead hs).trans (onward_broadcast x.lead)
      have hacks : NoAcks x x.lead.broadcastAppendEntries :=
        NoAcks.trans (NoAcks.of_eq rfl) (noAcks_broadcast x.lead)
      generalize x.lead.broadcastAppendEntries = z at hb ho hacks
      have hz : Onward z { z with heartbeatDeadlineMs := z.clockMs + z.config.heartbeatIntervalMs } :=
        Onward.of_log le_rfl rfl le_rfl
      exact Acted.of_noAcks (hb.frame hz rfl rfl rfl rfl rfl (fun hl => ⟨hl, rfl⟩) fun _ hm _ => hm)
        (ho.trans hz) (hacks.trans (NoAcks.of_eq rfl))
  | append m rest hrest hnext =>
      by_cases hok : x.currentTerm ≤ m.term ∧ x.prevMatches m = true
      · have hacc : x.Accepts m := ⟨hnext, by rw [hrest]; rfl, hok.1, hok.2⟩
        have h := acted_accept hx (hm m hacc) hacc hrest hy
        rw [hy] at h
        exact h
      · exact acted_refuse hx hok
  | request m rest _ =>
      obtain ⟨hf, hof⟩ := hx.follow x.pendingAppendEntries rest
      obtain ⟨h1, h2, h3⟩ := acted_handleVoteRequest hf m
      exact Acted.of_noAcks h1 (hof.trans h2) (NoAcks.trans (NoAcks.of_eq rfl) h3)
  | requestAsCandidate m rest _ _ =>
      have ho : Onward x { x with pendingVoteRequests := rest } := Onward.of_log le_rfl rfl le_rfl
      obtain ⟨h1, h2, h3⟩ := acted_handleVoteRequest
        (hx.frame ho rfl rfl rfl rfl rfl (fun hl => ⟨hl, rfl⟩) fun _ hm _ => hm) m
      exact Acted.of_noAcks h1 (ho.trans h2) (NoAcks.trans (NoAcks.of_eq rfl) h3)
  | vote m rest _ _ =>
      have ho : Onward x { x with pendingVotes := rest } := Onward.of_log le_rfl rfl le_rfl
      obtain ⟨h1, h2, h3⟩ := acted_handleVoteResponse
        (hx.frame ho rfl rfl rfl rfl rfl (fun hl => ⟨hl, rfl⟩) fun _ hm _ => hm) m
      exact Acted.of_noAcks h1 (ho.trans h2) (NoAcks.trans (NoAcks.of_eq rfl) h3)
  | ignoreVote =>
      have ho : Onward x x.ignoreVote := Onward.of_log le_rfl rfl le_rfl
      exact Acted.of_noAcks (hx.frame ho rfl rfl rfl rfl rfl (fun hl => ⟨hl, rfl⟩) fun _ hm _ => hm)
        ho (NoAcks.of_eq rfl)
  | ignoreVoteRequest =>
      have ho : Onward x x.ignoreVoteRequest := Onward.of_log le_rfl rfl le_rfl
      exact Acted.of_noAcks (hx.frame ho rfl rfl rfl rfl rfl (fun hl => ⟨hl, rfl⟩) fun _ hm _ => hm)
        ho (NoAcks.of_eq rfl)
  | heartbeat hs =>
      rw [Node.sendHeartbeat]
      obtain ⟨-, hb⟩ := broadcast_inside hx hs
      have ho := onward_broadcast x
      have hacks := noAcks_broadcast x
      generalize x.broadcastAppendEntries = z at hb ho hacks
      have hz : Onward z { z with heartbeatDeadlineMs := z.clockMs + z.config.heartbeatIntervalMs } :=
        Onward.of_log le_rfl rfl le_rfl
      exact Acted.of_noAcks (hb.frame hz rfl rfl rfl rfl rfl (fun hl => ⟨hl, rfl⟩) fun _ hm _ => hm)
        (ho.trans hz) (hacks.trans (NoAcks.of_eq rfl))

/-! ### The end of a tick -/

/-- **The apply loop** reads what is committed and not yet applied. -/
lemma applyReads_inside (n : ℕ) : ∀ x : Node σ, x.snapshotLastIncludedIndex ≤ x.lastApplied →
    x.lastApplied + n ≤ x.lastLogIndex → ∀ a ∈ x.applyReads A n, a.Inside := by
  induction n with
  | zero => exact fun x _ _ a ha => absurd ha List.not_mem_nil
  | succ n ih =>
      intro x hlo hhi a ha
      push_cast at hhi
      rcases List.mem_cons.mp ha with rfl | ha
      · exact ⟨by change x.snapshotLastIncludedIndex < x.lastApplied + 1; omega,
          by change x.lastApplied + 1 ≤ x.lastLogIndex; omega⟩
      · obtain ⟨happ, hla⟩ := applying_applyNext (A := A) x
        have hlast : (x.applyNext A).1.lastLogIndex = x.lastLogIndex := by
          rw [Node.lastLogIndex, Node.lastLogIndex, happ.snapIndex, happ.log]
        refine ih _ ?_ ?_ a ha
        · rw [happ.snapIndex, hla]
          omega
        · rw [hlast, hla]
          omega

/-- An internal command acknowledges nothing. -/
lemma noAcks_internal (x : Node σ) (op key value : CString) :
    NoAcks x (x.appendInternalCommand op key value).1 := by
  rw [Node.appendInternalCommand]
  split
  · exact NoAcks.of_eq rfl
  · exact NoAcks.trans (NoAcks.of_eq rfl) (noAcks_broadcast _)

/-- It becomes an entry that is broadcast. -/
lemma internal_inside (hx : x.Indexed) (op key value : CString) :
    (∀ a ∈ x.internalReads op key value, a.Inside) ∧
      (x.appendInternalCommand op key value).1.Indexed ∧
      Onward x (x.appendInternalCommand op key value).1 := by
  rw [Node.internalReads, Node.appendInternalCommand]
  split
  · exact ⟨by simp, hx, Onward.refl x⟩
  · rename_i h
    rw [not_or, Bool.not_eq_false] at h
    have hlead : x.state = .leader := by
      have hl := h.1
      simp only [Node.isLeader, Bool.and_eq_true, decide_eq_true_eq] at hl
      exact hl.2
    have happ := hx.append (x.internalEntry op key value) rfl
    obtain ⟨h1, h2⟩ := broadcast_inside happ hlead
    exact ⟨h1, h2, (onward_append x _).trans (onward_broadcast _)⟩

lemma noAcks_maybeDriveMembership (x : Node σ) : NoAcks x x.maybeDriveMembership := by
  rw [Node.maybeDriveMembership]
  split
  · exact NoAcks.of_eq rfl
  · split
    · have h := noAcks_internal x opEnterJoint "members".toList
        (encodeMemberList x.requestedMembership maxValue)
      dsimp only
      split <;> exact h
    · split
      · exact NoAcks.of_eq rfl
      · split
        · have h := noAcks_internal x opLeaveJoint "members".toList
            (encodeMemberList x.requestedMembership maxValue)
          dsimp only
          split <;> exact h
        · split <;> exact NoAcks.of_eq rfl

/-- **The membership driver.** -/
lemma drive_inside (hx : x.Indexed) : (∀ a ∈ x.driveReads, a.Inside) ∧
    x.maybeDriveMembership.Indexed ∧ Onward x x.maybeDriveMembership := by
  have hfields : ∀ (y : Node σ) (s : MembershipState) (i j : ℤ), y.Indexed →
      Node.Indexed { y with membershipState := s, jointConfigIndex := i, finalConfigIndex := j } :=
    fun y s i j hy => hy.frame (Onward.of_log le_rfl rfl le_rfl) rfl rfl rfl rfl rfl
      (fun hl => ⟨hl, rfl⟩) fun _ hm _ => hm
  have hon : ∀ (y : Node σ) (s : MembershipState) (i j : ℤ), Onward x y →
      Onward x { y with membershipState := s, jointConfigIndex := i, finalConfigIndex := j } :=
    fun y s i j hy => hy.trans (Onward.of_log le_rfl rfl le_rfl)
  have hself : x.Indexed ∧ Onward x x := ⟨hx, Onward.refl x⟩
  rw [Node.driveReads, Node.maybeDriveMembership]
  split
  · exact ⟨by simp, hself⟩
  · split
    · obtain ⟨h1, h2, h3⟩ := internal_inside hx opEnterJoint "members".toList
        (encodeMemberList x.requestedMembership maxValue)
      refine ⟨h1, ?_⟩
      dsimp only
      generalize x.appendInternalCommand opEnterJoint "members".toList
        (encodeMemberList x.requestedMembership maxValue) = r at h2 h3 ⊢
      obtain ⟨y, i⟩ := r
      dsimp only at h2 h3 ⊢
      split
      · exact ⟨hfields y .jointPending i y.finalConfigIndex h2,
          hon y .jointPending i y.finalConfigIndex h3⟩
      · exact ⟨hfields y y.membershipState i y.finalConfigIndex h2,
          hon y y.membershipState i y.finalConfigIndex h3⟩
    · split
      · exact ⟨by simp, hfields x .joint x.jointConfigIndex x.finalConfigIndex hx,
          hon x .joint x.jointConfigIndex x.finalConfigIndex hself.2⟩
      · split
        · obtain ⟨h1, h2, h3⟩ := internal_inside hx opLeaveJoint "members".toList
            (encodeMemberList x.requestedMembership maxValue)
          refine ⟨h1, ?_⟩
          dsimp only
          generalize x.appendInternalCommand opLeaveJoint "members".toList
            (encodeMemberList x.requestedMembership maxValue) = r at h2 h3 ⊢
          obtain ⟨y, i⟩ := r
          dsimp only at h2 h3 ⊢
          split
          · exact ⟨hfields y .finalizing y.jointConfigIndex i h2,
              hon y .finalizing y.jointConfigIndex i h3⟩
          · exact ⟨hfields y y.membershipState y.jointConfigIndex i h2,
              hon y y.membershipState y.jointConfigIndex i h3⟩
        · refine ⟨by simp, ?_⟩
          split
          · exact ⟨hfields x .stable x.jointConfigIndex x.finalConfigIndex hx,
              hon x .stable x.jointConfigIndex x.finalConfigIndex hself.2⟩
          · exact hself

/-- **Compaction** moves the base of the log to an applied entry. -/
lemma compact_inside (hx : x.Indexed) : (∀ a ∈ x.compactReads, a.Inside) ∧
    (x.maybeCompact A).1.Indexed ∧ Onward x (x.maybeCompact A).1 ∧
      (x.maybeCompact A).1.outbox = x.outbox := by
  constructor
  · intro a ha
    rw [Node.compactReads] at ha
    split at ha
    · split at ha
      · exact absurd ha List.not_mem_nil
      · exact termReads_inside (by omega) (by omega) a ha
    · exact absurd ha List.not_mem_nil
  · rcases maybeCompact_cases (A := A) x with heq | ⟨data, -, hlo, hhi, -, heq⟩
    · rw [heq]
      exact ⟨hx, Onward.refl x, rfl⟩
    · have hla := compactibleIndex_le x
      have hs := hx.snap_nonneg
      have hc := hx.commit_le
      rw [Node.lastLogIndex] at hhi
      have hnum := Numbered.drop hx.contiguous
        (x.compactibleIndex - x.snapshotLastIncludedIndex).toNat
      rw [show x.snapshotLastIncludedIndex +
        ((x.compactibleIndex - x.snapshotLastIncludedIndex).toNat : ℤ) = x.compactibleIndex by
          omega] at hnum
      have hlast : x.compactibleIndex + ((x.log.drop
          (x.compactibleIndex - x.snapshotLastIncludedIndex).toNat).length : ℤ) =
            x.lastLogIndex := by
        rw [List.length_drop, Node.lastLogIndex]
        omega
      rw [heq]
      have ho : Onward x
          { x with
            snapshotBuf := data
            log := x.log.drop (x.compactibleIndex - x.snapshotLastIncludedIndex).toNat
            snapshotLastIncludedIndex := x.compactibleIndex
            snapshotLastIncludedTerm := x.termAtIndex x.compactibleIndex
            persistDirty := true } := Onward.of_log le_rfl rfl hlast.ge
      refine ⟨⟨hnum, by dsimp only; omega, hla, hx.applied_le, ?_, fun hlead p i hi => ?_,
        fun m hm hk => ?_⟩, ho, rfl⟩
      · exact hc.trans hlast.ge
      · exact (hx.cursors hlead p i hi).trans (by rw [← hlast]; rfl)
      · exact ⟨(hx.batches m hm hk).1, (hx.batches m hm hk).2.onward ho⟩

/-- Without a change of the configuration the apply loop moves the applied index only. -/
lemma Node.Indexed.commitAndApply (hx : x.Indexed) (hrun : x.running = true)
    (hs : SameConfig A x) : (x.commitAndApply A).1.Indexed ∧ Onward x (x.commitAndApply A).1 ∧
      NoAcks x (x.commitAndApply A).1 := by
  have hadv : x.advanced.Indexed ∧ Onward x x.advanced ∧ x.advanced.outbox = x.outbox ∧
      x.advanced.lastApplied = x.lastApplied := by
    rcases advanced_cases x with h | ⟨k, hlt, hle, h⟩
    · rw [h]
      exact ⟨hx, Onward.refl x, rfl, rfl⟩
    · have h1 := hx.applied_le
      have ho : Onward x { x with commitIndex := k, persistDirty := true } :=
        Onward.of_log le_rfl rfl le_rfl
      rw [h]
      refine ⟨⟨hx.contiguous, hx.snap_nonneg, hx.snap_le, by dsimp only; omega, hle, hx.cursors,
        fun m hm hk => ?_⟩, ho, rfl, rfl⟩
      exact ⟨(hx.batches m hm hk).1, (hx.batches m hm hk).2.onward ho⟩
  obtain ⟨hind, hon, hout, hla⟩ := hadv
  obtain ⟨v, t, d, heq, -⟩ := applyOnly_of_sameConfig hrun hs
  have hcount : x.advanced.lastApplied + x.advanced.toApplyCount = x.advanced.commitIndex := by
    have := hind.applied_le
    rw [Node.toApplyCount]
    omega
  have ho : Onward x.advanced
      { x.advanced with
        user := v, lastApplied := x.advanced.lastApplied + x.advanced.toApplyCount
        compactionThreshold := t, persistDirty := d } := Onward.of_log le_rfl rfl le_rfl
  have h1 := hind.snap_le
  rw [heq]
  refine ⟨⟨hind.contiguous, hind.snap_nonneg, by dsimp only; omega, hcount.le, hind.commit_le,
    hind.cursors, fun m hm hk => ?_⟩, hon.trans ho, NoAcks.of_eq hout⟩
  exact ⟨(hind.batches m hm hk).1, (hind.batches m hm hk).2.onward ho⟩

/-- **The end of a tick** reads inside the log. -/
theorem dump_inside (hx : x.Indexed) (hrun : x.running = true) (hs : SameConfig A x) :
    (∀ a ∈ x.dumpReads A, a.Inside) ∧ (x.dumped A).Indexed ∧ Onward x (x.dumped A) ∧
      NoAcks x (x.dumped A) := by
  obtain ⟨happ, hon, hacks⟩ := hx.commitAndApply hrun hs
  obtain ⟨hdreads, hdrive, hdon⟩ := drive_inside happ
  obtain ⟨hcreads, hcomp, hcon, hcout⟩ := compact_inside (A := A) hdrive
  refine ⟨fun a ha => ?_, hcomp, (hon.trans hdon).trans hcon,
    (hacks.trans (noAcks_maybeDriveMembership _)).trans (NoAcks.of_eq hcout)⟩
  rw [Node.dumpReads, if_neg (by simp [hrun])] at ha
  rcases List.mem_append.mp ha with ha | ha
  · rcases List.mem_append.mp ha with ha | ha
    · rcases List.mem_append.mp ha with ha | ha
      · split at ha
        · exact advanceReads_inside hx a ha
        · exact absurd ha List.not_mem_nil
      · have hin : x.advanced.Inside := hx.inside.advanced
        obtain ⟨-, h2, h3⟩ := hin
        by_cases hle : x.advanced.lastApplied ≤ x.advanced.commitIndex
        · refine applyReads_inside _ _ h2 ?_ a ha
          rw [Node.toApplyCount]
          omega
        · rw [Node.toApplyCount, show (x.advanced.commitIndex - x.advanced.lastApplied).toNat = 0 by
            omega] at ha
          exact absurd ha List.not_mem_nil
    · exact hdreads a ha
  · exact hcreads a ha

/-! ### Clusters -/

/-- What the hosts of a cluster can stand by. -/
def Cluster.Backed (c : Cluster σ) (m : Message) : Prop :=
  (m.kind = .appendEntries → FitsBuffer maxId m.source ∧ (c.hosts m.source).node.Backs m) ∧
  (m.kind = .appendEntriesResponse → m.success = true →
    (c.hosts m.target).node.Vouches m.term m.matchIndex)

/-- The indices of all nodes are in order, and all messages are backed. -/
structure Cluster.Traffic (c : Cluster σ) : Prop where
  ids : ∀ n, (c.hosts n).node.config.nodeId = n
  indexed : ∀ n, (c.hosts n).node.Indexed
  sent : ∀ m ∈ c.network, c.Backed m
  acks : ∀ n, ∀ m ∈ (c.hosts n).node.outbox, m.kind = .appendEntriesResponse → m.success = true →
    (c.hosts m.target).node.Vouches m.term m.matchIndex
  waiting : ∀ n, ∀ m, (c.hosts n).node.Waiting m → m ∈ c.network
  kinds : ∀ n, ∀ m ∈ (c.hosts n).node.pendingAppendEntries, m.kind = .appendEntries

/-- **One host goes on.** -/
lemma Cluster.Traffic.update {c : Cluster σ} (hc : c.Traffic) {n : CString} {h' : Host σ}
    {sends : List Message} {applied : List (CString × ℤ × LogEntry)}
    (hid : h'.node.config.nodeId = n) (hind : h'.node.Indexed)
    (hon : Onward (c.hosts n).node h'.node)
    (hbatches : ∀ m ∈ sends, m.kind = .appendEntries →
      FitsBuffer maxId m.source ∧ m.source = n ∧ h'.node.Backs m)
    (hacks : ∀ m ∈ sends ++ h'.node.outbox, m.kind = .appendEntriesResponse → m.success = true →
      (c.hosts m.target).node.Vouches m.term m.matchIndex)
    (hwait : ∀ m, h'.node.Waiting m → m ∈ c.network)
    (hkinds : ∀ m ∈ h'.node.pendingAppendEntries, m.kind = .appendEntries) :
    Cluster.Traffic
      { hosts := Function.update c.hosts n h', network := c.network ++ sends, applied := applied } := by
  have hall : ∀ k, Onward (c.hosts k).node (Function.update c.hosts n h' k).node := by
    intro k
    by_cases hk : k = n
    · rw [hk, Function.update_self]
      exact hon
    · rw [Function.update_of_ne hk]
      exact Onward.refl _
  refine ⟨fun k => ?_, fun k => ?_, fun m hm => ?_, fun k m hm => ?_, fun k m hm => ?_, fun k => ?_⟩
  · by_cases hk : k = n
    · dsimp only
      rw [hk, Function.update_self]
      exact hid
    · dsimp only
      rw [Function.update_of_ne hk]
      exact hc.ids k
  · by_cases hk : k = n
    · dsimp only
      rw [hk, Function.update_self]
      exact hind
    · dsimp only
      rw [Function.update_of_ne hk]
      exact hc.indexed k
  · rcases List.mem_append.mp hm with hm | hm
    · obtain ⟨h1, h2⟩ := hc.sent m hm
      exact ⟨fun hk => ⟨(h1 hk).1, (h1 hk).2.onward (hall _)⟩,
        fun hk hok => (h2 hk hok).onward (hall _)⟩
    · refine ⟨fun hk => ?_, fun hk hok => ?_⟩
      · obtain ⟨hfits, hsrc, hbacks⟩ := hbatches m hm hk
        refine ⟨hfits, ?_⟩
        dsimp only
        rw [hsrc, Function.update_self]
        exact hbacks
      · exact (hacks m (List.mem_append_left _ hm) hk hok).onward (hall _)
  · intro hk hok
    refine Node.Vouches.onward ?_ (hall _)
    by_cases hkn : k = n
    · dsimp only at hm
      rw [hkn, Function.update_self] at hm
      exact hacks m (List.mem_append_right _ hm) hk hok
    · dsimp only at hm
      rw [Function.update_of_ne hkn] at hm
      exact hc.acks k m hm hk hok
  · refine List.mem_append_left _ ?_
    by_cases hk : k = n
    · dsimp only at hm
      rw [hk, Function.update_self] at hm
      exact hwait m hm
    · dsimp only at hm
      rw [Function.update_of_ne hk] at hm
      exact hc.waiting k m hm
  · by_cases hk : k = n
    · dsimp only
      rw [hk, Function.update_self]
      exact hkinds
    · dsimp only
      rw [Function.update_of_ne hk]
      exact hc.kinds k

/-! ### Runs -/

/-- Ticks without a membership change. -/
def PlainTick (A : CString → Application σ) (c : Cluster σ) (act : ClusterAct σ) : Prop :=
  match act.act with
  | .latch _ _ _ _ => True
  | .transition _ => True
  | .dump => SameConfig (A act.host) (c.hosts act.host).node
  | _ => False

instance (A : CString → Application σ) (c : Cluster σ) (act : ClusterAct σ) :
    Decidable (PlainTick A c act) :=
  match act with
  | ⟨_, .latch _ _ _ _⟩ | ⟨_, .transition _⟩ => inferInstanceAs (Decidable True)
  | ⟨_, .dump⟩ => inferInstanceAs (Decidable (SameConfig _ _))
  | ⟨_, .stop⟩ | ⟨_, .start _⟩ | ⟨_, .request _⟩ | ⟨_, .resetForJoin _ _⟩ | ⟨_, .crash _ _⟩
  | ⟨_, .crashInDump _ _ _ _⟩ | ⟨_, .crashInReset _ _ _⟩ => inferInstanceAs (Decidable False)

/-- The log of the follower ends with the batch or before it, or the batch cuts it, or the sender,
if it still leads in that term, has a log that is as long. -/
def AckBounded (c : Cluster σ) (x : Node σ) (m : Message) : Prop :=
  x.lastLogIndex ≤ m.prevLogIndex + m.entries.length ∨ x.Clashes m ∨
    ((c.hosts m.source).node.state = .leader → (c.hosts m.source).node.currentTerm = m.term →
      x.lastLogIndex ≤ (c.hosts m.source).node.lastLogIndex)

instance (c : Cluster σ) (m : Message) : Decidable (AckBounded c x m) :=
  inferInstanceAs (Decidable (_ ∨ _))

/-- A transition accepts only batches that bound what is acknowledged, and that keep the commit
index on the log. -/
def AckAct (c : Cluster σ) (act : ClusterAct σ) : Prop :=
  match act.act with
  | .transition clock =>
      Node.AcceptsOnly { (c.hosts act.host).node with clockMs := clock } fun m =>
        AckBounded c (c.hosts act.host).node m ∧ KeepsBase (c.hosts act.host).node m
  | _ => True

instance (c : Cluster σ) (act : ClusterAct σ) : Decidable (AckAct c act) :=
  match act with
  | ⟨_, .transition _⟩ => inferInstanceAs (Decidable (Node.AcceptsOnly _ _))
  | ⟨_, .latch _ _ _ _⟩ | ⟨_, .dump⟩ | ⟨_, .stop⟩ | ⟨_, .start _⟩ | ⟨_, .request _⟩
  | ⟨_, .resetForJoin _ _⟩ | ⟨_, .crash _ _⟩ | ⟨_, .crashInDump _ _ _ _⟩
  | ⟨_, .crashInReset _ _ _⟩ =>
      inferInstanceAs (Decidable True)

/-- What a follower acknowledges under the condition is backed by the sender. -/
lemma vouches_of_ackBounded {c : Cluster σ} {k : ℤ}
    (hb : (c.hosts m.source).node.Backs m) (ha : AckBounded c x m)
    (hk : ∀ U, (∀ e ∈ m.entries, e.index ≤ U) → x.lastLogIndex ≤ U ∨ x.Clashes m → k ≤ U) :
    (c.hosts m.source).node.Vouches m.term k := by
  obtain ⟨hreach, hentries⟩ := hb
  refine ⟨hreach.term, fun ht => ⟨(hreach.last ht).1, fun hlead => ?_⟩⟩
  have hup := (hreach.last ht).2 hlead
  refine hk _ (fun e he => ((hentries e he).last ht).2 hlead) ?_
  rcases ha with h | h | h
  · exact Or.inl (h.trans hup)
  · exact Or.inr h
  · exact Or.inl (h hlead ht.symm)

lemma appends_kind_turns {H : Message → Prop} {C : Command → Prop} (h : Turns H C x y)
    (hx : ∀ m ∈ x.pendingAppendEntries, m.kind = .appendEntries) :
    ∀ m ∈ y.pendingAppendEntries, m.kind = .appendEntries := by
  refine h.invariant (I := fun z => ∀ m ∈ z.pendingAppendEntries, m.kind = .appendEntries)
    (fun z z' hz hstep => ?_) hx
  cases hstep with
  | tune _ _ _ _ appends _ _ _ _ ha _ =>
      intro m hm
      rcases ha m hm with h | h
      · exact hz m h
      · exact h.2
  | role | lead | raise | campaign | vote | queue | clear | report | backOff | commit | append =>
      exact hz

lemma appends_kind_transition (hx : ∀ m ∈ x.pendingAppendEntries, m.kind = .appendEntries) :
    ∀ m ∈ (x.transition A).pendingAppendEntries, m.kind = .appendEntries := by
  rcases transition_turns (C := fun _ => False) (A := A) x with h | ⟨m, rest, hacc, hrest, htrans⟩
  · exact appends_kind_turns h hx
  · obtain ⟨t, v, l, e, d₀, d, z, -, hz, -, heq, -⟩ :=
      transition_accept (C := fun _ => False) hacc hrest htrans
    have hzx := appends_kind_turns hz hx
    have hqueue : Turns (fun _ => False) (fun _ => False) { z.absorbed A m with persistDirty := d }
        (x.transition A) := by
      rw [heq]
      exact turns_queueMessage rfl fun _ => rfl
    exact appends_kind_turns hqueue hzx

lemma Node.Indexed.clock (hx : x.Indexed) (clock : ℤ) (slots : ℤ → LogEntry) :
    Node.Indexed { x with clockMs := clock, slots := slots } :=
  hx.frame (Onward.of_log le_rfl rfl le_rfl) rfl rfl rfl rfl rfl (fun hl => ⟨hl, rfl⟩)
    fun _ hm _ => hm

lemma nodeId_dumped (x : Node σ) : (x.dumped A).config.nodeId = x.config.nodeId := by
  have hadv := still_advanced x
  have hrec := reconfigured_applyCommitted (A := A) x.advanced.toApplyCount x.advanced
  have hstill := (still_maybeDriveMembership (x.commitAndApply A).1).trans
    (still_maybeCompact (A := A) _)
  rw [Node.dumped, hstill.config]
  exact hrec.nodeId.trans (by rw [hadv.config])

lemma onward_clock (x : Node σ) (clock : ℤ) (slots : ℤ → LogEntry) :
    Onward x { x with clockMs := clock, slots := slots } := Onward.of_log le_rfl rfl le_rfl

/-- **Every tick that acknowledges no more than its leader has** reads inside the log and leaves a
cluster in order. -/
theorem traffic_exec {A : CString → Application σ} {c c' : Cluster σ} {act : ClusterAct σ}
    (hc : c.Traffic) (htick : PlainTick A c act) (hack : AckAct c act)
    (hexec : c.exec A act = some c') :
    (∀ a ∈ (c.hosts act.host).reads (A act.host) act.act, a.Inside) ∧ c'.Traffic := by
  obtain ⟨n, act⟩ := act
  rw [Cluster.exec, Option.ite_none_right_eq_some] at hexec
  obtain ⟨⟨hfits, hheard⟩, hexec⟩ := hexec
  obtain ⟨⟨h', e⟩, hhost, rfl⟩ := Option.map_eq_some_iff.mp hexec
  obtain ⟨hcase, -⟩ := exec_cases hhost
  have hind := hc.indexed n
  cases hcase with
  | latch clock slots ms cs _ =>
      have hx := hind.clock clock slots
      have hbel : Node.Believes { (c.hosts n).node with clockMs := clock, slots := slots } ms := by
        intro m hm hk hok
        obtain ⟨hnet, htgt⟩ := hheard m hm
        have hv := (hc.sent m hnet).2 hk hok
        rw [htgt] at hv
        exact hv.onward (onward_clock _ clock slots)
      obtain ⟨hreads, hnode, hon, hacks⟩ := latch_inside hx hbel cs
      have hturns := turns_latchInputs (x := (c.hosts n).node) (H := (· ∈ ms)) (C := (· ∈ cs))
        (fun m (hm : m ∈ ms) => hm) (fun c (hc : c ∈ cs) => hc) clock slots
      refine ⟨hreads, hc.update ?_ hnode ((onward_clock _ clock slots).trans hon)
        (fun m hm => absurd hm List.not_mem_nil) (fun m hm hk hok => ?_) ?_ ?_⟩
      · rw [(sameMembership_turns hturns).config]
        exact hc.ids n
      · exact hc.acks n m (hacks m hm hk hok) hk hok
      · exact waiting_turns hturns (fun m hm => (hheard m hm).1) (hc.waiting n)
      · exact appends_kind_turns hturns (hc.kinds n)
  | transition clock _ =>
      have hx := hind.clock clock (c.hosts n).node.slots
      have hacted := acted_transition (A := A n) hx fun m hm => (hack m hm).2
      refine ⟨transitionReads_inside hx, hc.update ?_ hacted.indexed
        ((onward_clock _ clock (c.hosts n).node.slots).trans hacted.onward)
        (fun m hm => absurd hm List.not_mem_nil) (fun m' hm' hk hok => ?_) ?_ ?_⟩
      · rw [(sameMembership_transition _).config]
        exact hc.ids n
      · rcases hacted.acks m' hm' hk hok with hmem | ⟨m, hacc, htgt, hterm, hbound⟩
        · exact hc.acks n m' hmem hk hok
        · have hpend : m ∈ (c.hosts n).node.pendingAppendEntries := List.mem_of_mem_head? hacc.first
          obtain ⟨hsrc, hbacks⟩ := (hc.sent m (hc.waiting n m (Or.inl hpend))).1 (hc.kinds n m hpend)
          rw [htgt, strncpy_self hsrc, hterm]
          exact vouches_of_ackBounded hbacks (hack m hacc).1 hbound
      · exact waiting_transition (hc.waiting n)
      · exact appends_kind_transition (hc.kinds n)
  | dumpStopped _ hstop =>
      have ho : Onward (c.hosts n).node { (c.hosts n).node with outbox := [] } :=
        Onward.of_log le_rfl rfl le_rfl
      refine ⟨fun a ha => ?_, hc.update (hc.ids n) ?_ ho
        (fun m hm => absurd hm List.not_mem_nil) (fun m hm => absurd hm List.not_mem_nil)
        (hc.waiting n) (hc.kinds n)⟩
      · rw [Host.reads, Node.dumpReads, if_pos hstop] at ha
        exact absurd ha List.not_mem_nil
      · exact hind.frame ho rfl rfl rfl rfl rfl (fun hl => ⟨hl, rfl⟩)
          fun _ hm => absurd hm List.not_mem_nil
  | dump _ hrun =>
      obtain ⟨hreads, hnode, hon, hacks⟩ := dump_inside (A := A n) hind hrun htick
      have ho : Onward ((c.hosts n).node.dumped (A n))
          { (c.hosts n).node.dumped (A n) with persistDirty := false, outbox := [] } :=
        Onward.of_log le_rfl rfl le_rfl
      have hid : ((c.hosts n).node.dumped (A n)).config.nodeId = n :=
        (nodeId_dumped _).trans (hc.ids n)
      have hsends : ((c.hosts n).node.dumpOutputs (A n)).sends =
          ((c.hosts n).node.dumped (A n)).outbox := by
        rw [dumpOutputs_eq hrun]
      refine ⟨hreads, hc.update hid ?_ (hon.trans ho) (fun m hm hk => ?_) (fun m hm hk hok => ?_)
        (fun m hm => hc.waiting n m (waiting_dumped _ m hm)) (fun m hm => ?_)⟩
      · exact hnode.frame ho rfl rfl rfl rfl rfl (fun hl => ⟨hl, rfl⟩)
          fun _ hm => absurd hm List.not_mem_nil
      · dsimp only at hm
        rw [hsends] at hm
        obtain ⟨hsrc, hbacks⟩ := hnode.batches m hm hk
        rw [hid, strncpy_self hfits] at hsrc
        exact ⟨hsrc ▸ hfits, hsrc, hbacks.onward ho⟩
      · dsimp only at hm
        rw [List.append_nil, hsends] at hm
        exact hc.acks n m (hacks m hm hk hok) hk hok
      · exact hc.kinds n m ((pending_dumped (c.hosts n).node).1 ▸ hm)
  | stop | start | request | resetForJoin | crash | crashInDump | crashInReset => exact htick.elim

/-- A node that was initialised has received nothing. -/
lemma not_waiting_init (config : NodeConfig) (disk : Disk) (user : σ) (clock : ℤ) (m : Message) :
    ¬ (Node.init A config disk user clock).Waiting m := by
  have hload : ((Node.zero config user clock).load A disk).pendingAppendEntries = [] ∧
      ((Node.zero config user clock).load A disk).pendingVoteRequests = [] := by
    obtain ⟨u, heq⟩ := load_record (A := A) (Node.zero config user clock) disk
    rw [heq]
    exact ⟨rfl, rfl⟩
  have hfresh : (Node.fresh A config disk user clock).pendingAppendEntries = [] ∧
      (Node.fresh A config disk user clock).pendingVoteRequests = [] := by
    rw [Node.fresh, Node.loaded]
    generalize (Node.zero config user clock).load A disk = z at hload ⊢
    split <;> split <;> exact hload
  rw [init_ready]
  intro hm
  change m ∈ (Node.fresh A config disk user clock).pendingAppendEntries ∨
    m ∈ (Node.fresh A config disk user clock).pendingVoteRequests at hm
  rw [hfresh.1, hfresh.2] at hm
  exact hm.elim List.not_mem_nil List.not_mem_nil

/-- A cluster on empty data directories. -/
lemma traffic_boot {A : CString → Application σ} {initial : List CString}
    {config : CString → NodeConfig} (hboot : ∀ n, Bootstrapped initial n (config n))
    (user : CString → σ) (clock : ℤ) : (Cluster.boot A config user clock).Traffic := by
  have hnode : ∀ n, (Node.init (A n) (config n) Disk.empty (user n) clock).Indexed ∧
      (Node.init (A n) (config n) Disk.empty (user n) clock).config.nodeId = n ∧
      (Node.init (A n) (config n) Disk.empty (user n) clock).outbox = [] ∧
      (Node.init (A n) (config n) Disk.empty (user n) clock).pendingAppendEntries = [] := by
    intro n
    obtain ⟨s, d, e, hinit⟩ := init_eq (A := A n) (hboot n).learner Disk.empty (user n) clock
    obtain ⟨v, hloaded⟩ := loaded_empty (A := A n) (config n) (user n) clock
    rw [hinit, hloaded]
    refine ⟨⟨fun k e he => by simp [Node.refreshPeers, Node.zero] at he, le_rfl, le_rfl, le_rfl, le_rfl,
      fun h => absurd h (by simp [Node.refreshPeers, Node.zero]),
      fun m hm => by simp [Node.refreshPeers, Node.zero] at hm⟩, (hboot n).nodeId, rfl, rfl⟩
  refine ⟨fun n => (hnode n).2.1, fun n => (hnode n).1, fun m hm => absurd hm List.not_mem_nil,
    fun n m hm => ?_, fun n m hm => ?_, fun n m hm => ?_⟩
  · rw [show ((Cluster.boot A config user clock).hosts n).node.outbox = [] from (hnode n).2.2.1] at hm
    exact absurd hm List.not_mem_nil
  · exact absurd hm (not_waiting_init (A := A n) (config n) Disk.empty (user n) clock m)
  · rw [show ((Cluster.boot A config user clock).hosts n).node.pendingAppendEntries = [] from
      (hnode n).2.2.2] at hm
    exact absurd hm List.not_mem_nil

/-- **All reads are inside the log** in every run in which nobody acknowledges more than its leader
has: the cursors of a leader are at most one behind its log, and no act that may follow reads
outside. -/
theorem accesses_inside {A : CString → Application σ} {initial : List CString}
    {config : CString → NodeConfig} (hboot : ∀ n, Bootstrapped initial n (config n))
    (user : CString → σ) (clock : ℤ) {c : Cluster σ}
    (hrun : Run (Cluster.exec A) (fun c act => PlainTick A c act ∧ AckAct c act)
      (Cluster.boot A config user clock) c) :
    (∀ n, (c.hosts n).node.state = .leader → ∀ p, ∀ i ∈ (c.hosts n).node.peerIndex p,
      (c.hosts n).node.nextIndex.getD i 0 ≤ (c.hosts n).node.lastLogIndex + 1) ∧
    ∀ act c', PlainTick A c act → AckAct c act → c.exec A act = some c' →
      ∀ a ∈ (c.hosts act.host).reads (A act.host) act.act, a.Inside := by
  have hc : c.Traffic := hrun.invariant
    (fun _ _ _ hc ha hexec => (traffic_exec hc ha.1 ha.2 hexec).2) (traffic_boot hboot user clock)
  exact ⟨fun n => (hc.indexed n).cursors,
    fun act c' htick hack hexec => (traffic_exec hc htick hack hexec).1⟩

/-- A leader whose log reached one follower sends it a heartbeat. -/
def reachedFollower : List (ClusterAct Unit) :=
  loneCommand ++ tick n2 1 [batch n1 n2 1 0 0 [] [⟨1, 1, n1, putCommand "x"⟩]] [] ++
    tick n1 1 [appendAnswer n2 n1 1 true 1] [] ++
    [⟨n1, .latch 11 (fun _ => ⟨0, 0, [], ⟨[], [], []⟩⟩) [] []⟩]

/-- The heartbeat reads the entry before the batch. -/
theorem accesses_inside_three : ∃ (c : Cluster Unit) (a : Access),
    Run (Cluster.exec fun _ => silent)
      (fun c act => PlainTick (fun _ => silent) c act ∧ AckAct c act) threeNodes c ∧
    a ∈ (c.hosts n1).reads silent (.transition 11) ∧ a.Inside := by
  have hexec : (execAll (Cluster.exec fun _ => silent)
      (fun c act => decide (PlainTick (fun _ => silent) c act ∧ AckAct c act)) threeNodes
      reachedFollower).any (fun c =>
        decide (AckAct c ⟨n1, .transition 11⟩) &&
        (c.exec (fun _ => silent) ⟨n1, .transition 11⟩).isSome &&
        decide (⟨1, 0, 1⟩ ∈ (c.hosts n1).reads silent (.transition 11))) = true := by
    decide +kernel
  obtain ⟨c, hrun, hc⟩ := Run.exists_of_execAll hexec
  rw [Bool.and_eq_true, Bool.and_eq_true, decide_eq_true_eq, decide_eq_true_eq,
    Option.isSome_iff_exists] at hc
  obtain ⟨⟨hack, c', hc'⟩, ha⟩ := hc
  have hrun' := hrun.mono (fun _ _ => of_decide_eq_true)
  exact ⟨c, ⟨1, 0, 1⟩, hrun', ha, (accesses_inside bootstrapped_three (fun _ => ()) 0 hrun').2
    ⟨n1, .transition 11⟩ c' trivial hack hc' _ ha⟩

/-- `n3` is elected in term 2 by `n2`; `n1`, with its lone command, answers the heartbeat. -/
def longerFollower : List (ClusterAct Unit) :=
  tick n3 1 [] [] ++ tick n3 2 [] [] ++ tick n3 3 [] [] ++
    tick n2 3 [voteRequest n3 n2 2 0 0] [] ++ tick n3 3 [voteGrant n2 n3 2] [] ++ tick n3 3 [] [] ++
    tick n1 3 [heartbeat n3 n1 2] [] ++ tick n3 3 [appendAnswer n1 n3 2 true 1] [] ++
    [⟨n3, .latch 20 (fun _ => ⟨0, 0, [], ⟨[], [], []⟩⟩) [] []⟩]

/-- **A read outside the log**: the cursor for `n1` is 2 and the log of `n3` is empty; its next
heartbeat reads the term of an entry 1. -/
theorem access_outside : ¬ ∀ c : Cluster Unit,
    Run (Cluster.exec fun _ => silent) (PlainTick fun _ => silent) threeNodes c →
      ∀ act c', PlainTick (fun _ => silent) c act → c.exec (fun _ => silent) act = some c' →
        ∀ a ∈ (c.hosts act.host).reads silent act.act, a.Inside := by
  intro hall
  have hexec : (execAll (Cluster.exec fun _ => silent)
      (fun c act => decide (PlainTick (fun _ => silent) c act)) threeNodes
      (loneCommand ++ longerFollower)).any (fun c =>
        (c.exec (fun _ => silent) ⟨n3, .transition 20⟩).isSome &&
        decide (⟨1, 0, 0⟩ ∈ (c.hosts n3).reads silent (.transition 20))) = true := by
    decide +kernel
  obtain ⟨c, hrun, hc⟩ := Run.exists_of_execAll hexec
  rw [Bool.and_eq_true, decide_eq_true_eq, Option.isSome_iff_exists] at hc
  obtain ⟨⟨c', hc'⟩, ha⟩ := hc
  have hin := hall c (hrun.mono fun _ _ => of_decide_eq_true) ⟨n3, .transition 20⟩ c' trivial hc'
    ⟨1, 0, 0⟩ ha
  exact absurd hin (by decide)

end RaftRx.C
