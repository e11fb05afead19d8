import RaftRx.Python.Turns

/-!
The replication cursors of a Python leader, and what its node needs so that nothing raises.

`next_index` is set from the index a follower reports and is used to read the leader's own log.

* `Onward`, `Backs`: what a node that moves on keeps, and an index its log has as long as it leads;
* `Lawful`: what is sent among nodes `N`, batches by who sends them and answers by who gets them;
* `Steady`, `Calm`: a node whose indices are in order, and its queues in the place `n` of `N`;
* `Goes`: a step that returns and keeps all that;
* `InsideCall`: a batch that follows nothing or an entry of the log;
* `goes_latchInputs`: a latch returns, and every batch it makes is such a batch.
-/

namespace RaftRx.Python

open Protocol (Role)

variable {σ ν : Type}

/-! ### Moving on -/

/-- **Moving on**: the term does not decrease, and within a term who has led does not stand again,
nobody else takes the lead and a leader's log does not become shorter. -/
structure Onward (x y : Node σ ν) : Prop where
  term : x.currentTerm ≤ y.currentTerm
  keeps : x.currentTerm = y.currentTerm → x.role ≠ .candidate → y.role ≠ .candidate ∧
    (y.role = .leader → x.role = .leader ∧ x.lastLogIndex ≤ y.lastLogIndex)

/-- A node that has passed the term, or will never stand in it again and has the index as long as it
leads. -/
def Backs (x : Node σ ν) (term index : ℤ) : Prop :=
  term < x.currentTerm ∨ (term = x.currentTerm ∧ x.role ≠ .candidate ∧
    (x.role = .leader → index ≤ x.lastLogIndex))

variable {x y z : Node σ ν} {m : Message} {t i : ℤ}

lemma Onward.refl (x : Node σ ν) : Onward x x := ⟨le_rfl, fun _ h => ⟨h, fun hl => ⟨hl, le_rfl⟩⟩⟩

lemma Onward.trans (h : Onward x y) (h' : Onward y z) : Onward x z where
  term := h.term.trans h'.term
  keeps := by
    intro heq hx
    have hxy : x.currentTerm = y.currentTerm := le_antisymm h.term (heq ▸ h'.term)
    obtain ⟨hy, hlead⟩ := h.keeps hxy hx
    obtain ⟨hz, hlead'⟩ := h'.keeps (hxy ▸ heq) hy
    refine ⟨hz, fun hl => ?_⟩
    obtain ⟨hly, hle'⟩ := hlead' hl
    obtain ⟨hlx, hle⟩ := hlead hly
    exact ⟨hlx, hle.trans hle'⟩

/-- Role and term stay, and the log does not become shorter. -/
lemma Onward.of_log (ht : x.currentTerm = y.currentTerm) (hr : y.role = x.role)
    (hl : x.lastLogIndex ≤ y.lastLogIndex) : Onward x y :=
  ⟨ht.le, fun _ hx => ⟨by rw [hr]; exact hx, fun hlead => ⟨by rw [← hr]; exact hlead, hl⟩⟩⟩

/-- A follower in a term that is no older. -/
lemma Onward.of_follower (ht : x.currentTerm ≤ y.currentTerm) (hr : y.role = .follower) :
    Onward x y :=
  ⟨ht, fun _ _ => ⟨by rw [hr]; simp, fun hl => absurd (hr.symm.trans hl) (by simp)⟩⟩

lemma Backs.onward (h : Backs x t i) (ho : Onward x y) : Backs y t i := by
  rcases h with h | ⟨h, hr, hl⟩
  · exact Or.inl (lt_of_lt_of_le h ho.term)
  · rcases lt_or_eq_of_le ho.term with hlt | heq
    · exact Or.inl (by omega)
    · obtain ⟨hy, hlead⟩ := ho.keeps heq hr
      refine Or.inr ⟨h.trans heq, hy, fun hly => ?_⟩
      obtain ⟨hlx, hle⟩ := hlead hly
      exact (hl hlx).trans hle

/-- A leader backs what it has. -/
lemma backs_leader (hr : x.role = .leader) (hi : i ≤ x.lastLogIndex) :
    Backs x x.currentTerm i :=
  Or.inr ⟨rfl, by rw [hr]; simp, fun _ => hi⟩

/-! ### What is sent -/

/-- The command is not one of the cluster's own. -/
def Plain (command : Command) : Prop := ¬ "cluster.".toList <+: command.op

instance (command : Command) : Decidable (Plain command) := inferInstanceAs (Decidable (¬ _))

/-- A batch of plain commands for another member, from a node `x` that backs its end. -/
structure BatchLaw (members : List Str) (x : Node σ ν) (m : Message) : Prop where
  target : m.target ∈ members
  other : m.source ≠ m.target
  plain : ∀ e ∈ m.entries, Plain e.command
  bound : ∀ e ∈ m.entries, e.index ≤ m.prevLogIndex + m.entries.length
  commit : 0 ≤ m.leaderCommit
  backs : Backs x m.term (m.prevLogIndex + m.entries.length)

/-- An answer of another member; the leader `x` that is told of a success backs it. -/
structure AnswerLaw (members : List Str) (x : Node σ ν) (m : Message) : Prop where
  source : m.source ∈ members
  other : m.source ≠ m.target
  nonneg : 0 ≤ m.matchIndex
  backs : m.success = true → Backs x m.term m.matchIndex

/-- **What is sent** among nodes `N`. -/
def Lawful (members : List Str) (N : Str → Node σ ν) (m : Message) : Prop :=
  (m.kind = .appendEntries → BatchLaw members (N m.source) m) ∧
  (m.kind = .appendEntriesResponse → AnswerLaw members (N m.target) m)

variable {members : List Str} {N N' : Str → Node σ ν} {n : Str}

lemma Lawful.mono (h : Lawful members N m) (hN : ∀ p, Onward (N p) (N' p)) :
    Lawful members N' m := by
  refine ⟨fun hk => ?_, fun hk => ?_⟩
  · have hb := h.1 hk
    exact { hb with backs := hb.backs.onward (hN _) }
  · have ha := h.2 hk
    exact { ha with backs := fun hs => (ha.backs hs).onward (hN _) }

/-- Messages of elections are not looked at. -/
lemma lawful_of_kind (h1 : m.kind ≠ .appendEntries) (h2 : m.kind ≠ .appendEntriesResponse) :
    Lawful members N m :=
  ⟨fun h => absurd h h1, fun h => absurd h h2⟩

/-! ### Nodes -/

/-- Nothing is compacted. -/
def Whole (x : Node σ ν) : Prop := x.snapshotLastIncludedIndex = 0

namespace Whole

variable (h : Whole x)
include h

lemma lastLogIndex : x.lastLogIndex = x.log.length := by
  rw [Node.lastLogIndex, h, zero_add]

lemma logBaseIndex : x.logBaseIndex = 1 := by
  rw [Node.logBaseIndex, h, zero_add]

lemma hasLogIndex (i : ℤ) : x.hasLogIndex i = true ↔ 1 ≤ i ∧ i ≤ x.lastLogIndex := by
  rw [Node.hasLogIndex, Bool.and_eq_true, decide_eq_true_eq, decide_eq_true_eq, h.logBaseIndex]

/-- **Every index of the log has an entry.** -/
lemma entryAtIndex (h1 : 1 ≤ i) (h2 : i ≤ x.lastLogIndex) :
    ∃ e, x.entryAtIndex i = some e ∧ e ∈ x.log := by
  rw [h.lastLogIndex] at h2
  have hlt : (i - 1).toNat < x.log.length := by omega
  refine ⟨x.log[(i - 1).toNat], ?_, List.getElem_mem hlt⟩
  rw [Node.entryAtIndex, Node.physicalIndex, h.logBaseIndex, item_of_nonneg (by omega)]
  exact List.getElem?_eq_getElem hlt

lemma termAtIndex (h0 : 0 ≤ i) (h2 : i ≤ x.lastLogIndex) : ∃ t, x.termAtIndex i = some t := by
  rw [Node.termAtIndex]
  split
  · exact ⟨0, rfl⟩
  · split
    · exact ⟨_, rfl⟩
    · obtain ⟨e, he, -⟩ := h.entryAtIndex (by omega) h2
      exact ⟨e.term, by rw [he]; rfl⟩

lemma leaderAtIndex (i : ℤ) : ∃ id, x.leaderAtIndex i = some id := by
  rw [Node.leaderAtIndex]
  split
  · exact ⟨[], rfl⟩
  · rename_i hi
    rw [not_or, Bool.not_eq_false, h.hasLogIndex] at hi
    obtain ⟨e, he, -⟩ := h.entryAtIndex hi.2.1 hi.2.2
    exact ⟨e.leaderId, by rw [he]; rfl⟩

end Whole

/-- **A node whose indices are in order**: nothing is compacted, what is committed is in the log, and
a leader's cursor for every other member is at most one behind it. -/
structure Steady (members : List Str) (n : Str) (x : Node σ ν) : Prop where
  nodeId : x.config.nodeId = n
  peers : ∀ p, p ∈ x.peers ↔ p ∈ members ∧ p ≠ n
  snap : Whole x
  numbered : Numbered 0 x.log
  plain : ∀ e ∈ x.log, Plain e.command
  applied : 0 ≤ x.lastApplied
  commit_nonneg : 0 ≤ x.commitIndex
  commit_le : x.commitIndex ≤ x.lastLogIndex
  cursors : x.role = .leader → ∀ p, p ∈ members → p ≠ n →
    ∃ i, x.nextIndex.get p = some i ∧ 1 ≤ i ∧ i ≤ x.lastLogIndex + 1
  votes : ∀ m ∈ x.pendingVotes, m.kind = .requestVoteResponse

/-- The node `x` in the place `n` of `N`, with lawful queues. -/
structure Calm (members : List Str) (N : Str → Node σ ν) (n : Str) (x : Node σ ν) : Prop where
  steady : Steady members n x
  outbox : ∀ m ∈ x.outbox, Lawful members (Function.update N n x) m
  pending : ∀ m ∈ x.pendingAppendEntries, m.kind = .appendEntries ∧ m.target = n ∧
    Lawful members (Function.update N n x) m

lemma onward_update (h : Onward x y) (p : Str) :
    Onward (Function.update N n x p) (Function.update N n y p) := by
  by_cases hp : p = n
  · subst hp
    simpa using h
  · simpa [Function.update_of_ne hp] using Onward.refl (N p)

lemma Lawful.onward (h : Lawful members (Function.update N n x) m) (ho : Onward x y) :
    Lawful members (Function.update N n y) m :=
  h.mono (onward_update ho)

namespace Steady

variable (h : Steady members n x)
include h

/-- Changes of other fields. -/
lemma frame (hc : y.config = x.config) (hp : y.peers = x.peers)
    (hs : y.snapshotLastIncludedIndex = x.snapshotLastIncludedIndex) (hl : y.log = x.log)
    (ha : y.lastApplied = x.lastApplied) (hci : y.commitIndex = x.commitIndex)
    (hn : y.role = .leader → x.role = .leader ∧ y.nextIndex = x.nextIndex)
    (hv : ∀ m ∈ y.pendingVotes, m ∈ x.pendingVotes) : Steady members n y := by
  have hlast : y.lastLogIndex = x.lastLogIndex := by
    rw [Node.lastLogIndex, Node.lastLogIndex, hs, hl]
  refine ⟨hc ▸ h.nodeId, hp ▸ h.peers, hs.trans h.snap, hl ▸ h.numbered, hl ▸ h.plain, ha ▸ h.applied,
    hci ▸ h.commit_nonneg, by rw [hci, hlast]; exact h.commit_le, fun hlead => ?_,
    fun m hm => h.votes m (hv m hm)⟩
  rw [(hn hlead).2, hlast]
  exact h.cursors (hn hlead).1

end Steady

namespace Calm

variable (h : Calm members N n x)
include h

/-- A step that queues nothing. -/
lemma onward (ho : Onward x y) (hs : Steady members n y) (hout : ∀ m ∈ y.outbox, m ∈ x.outbox)
    (hpend : ∀ m ∈ y.pendingAppendEntries, m ∈ x.pendingAppendEntries) : Calm members N n y :=
  ⟨hs, fun m hm => (h.outbox m (hout m hm)).onward ho, fun m hm =>
    let hm := h.pending m (hpend m hm)
    ⟨hm.1, hm.2.1, hm.2.2.onward ho⟩⟩

/-- A lawful message is queued. -/
lemma send (hm : Lawful members (Function.update N n x) m) :
    Calm members N n { x with outbox := x.outbox ++ [m] } ∧
      Onward x { x with outbox := x.outbox ++ [m] } := by
  have ho : Onward x { x with outbox := x.outbox ++ [m] } := Onward.of_log rfl rfl le_rfl
  refine ⟨⟨h.steady.frame rfl rfl rfl rfl rfl rfl (fun hl => ⟨hl, rfl⟩) fun _ => id,
    fun m' hm' => ?_, fun m' hm' => ?_⟩, ho⟩
  · cases List.mem_append.mp hm' with
    | inl hm' => exact (h.outbox m' hm').onward ho
    | inr hm' => exact List.mem_singleton.mp hm' ▸ hm.onward ho
  · obtain ⟨h1, h2, h3⟩ := h.pending m' hm'
    exact ⟨h1, h2, h3.onward ho⟩

end Calm

/-- **A step that returns**, and keeps the node calm. -/
def Goes (members : List Str) (N : Str → Node σ ν) (n : Str) (x : Node σ ν)
    (o : Option (Node σ ν)) : Prop :=
  ∃ y, o = some y ∧ Calm members N n y ∧ Onward x y

/-- A step of a leader that returns, and leaves it in the lead. -/
def Leads (members : List Str) (N : Str → Node σ ν) (n : Str) (x : Node σ ν)
    (o : Option (Node σ ν)) : Prop :=
  ∃ y, o = some y ∧ Calm members N n y ∧ Onward x y ∧ y.role = .leader

lemma Goes.of_some (h : Calm members N n y) (ho : Onward x y) : Goes members N n x (some y) :=
  ⟨y, rfl, h, ho⟩

/-! ### Batches -/

/-- The index before the batch `_send_append_entries` makes for a peer. -/
def Node.prevIndexFor (x : Node σ ν) (peer : Str) : ℤ :=
  max ((x.nextIndex.get peer).getD (x.lastLogIndex + 1)) x.logBaseIndex - 1

/-- A call of `_send_append_entries` whose batch follows nothing or an entry of the log. -/
def InsideCall (call : Node σ ν × Str) : Prop :=
  call.1.prevIndexFor call.2 = 0 ∨ call.1.hasLogIndex (call.1.prevIndexFor call.2) = true

instance (call : Node σ ν × Str) : Decidable (InsideCall call) := inferInstanceAs (Decidable (_ ∨ _))

lemma Steady.prevIndexFor (h : Steady members n x) (hr : x.role = .leader) {peer : Str}
    (hp : peer ∈ members) (hn : peer ≠ n) :
    0 ≤ x.prevIndexFor peer ∧ x.prevIndexFor peer ≤ x.lastLogIndex := by
  obtain ⟨i, hi, h1, h2⟩ := h.cursors hr peer hp hn
  rw [Node.prevIndexFor, hi, Option.getD_some, h.snap.logBaseIndex, max_eq_left h1]
  omega

/-- **The batch of a leader starts inside its log.** -/
lemma Steady.insideCall (h : Steady members n x) (hr : x.role = .leader) {peer : Str}
    (hp : peer ∈ members) (hn : peer ≠ n) : InsideCall (x, peer) := by
  obtain ⟨h1, h2⟩ := h.prevIndexFor hr hp hn
  by_cases h0 : x.prevIndexFor peer = 0
  · exact Or.inl h0
  · have hpos : 1 ≤ x.prevIndexFor peer := by omega
    exact Or.inr ((h.snap.hasLogIndex _).mpr ⟨hpos, h2⟩)

/-- What follows an index of the log ends with the log. -/
lemma Steady.entriesFrom (h : Steady members n x) (h1 : 0 ≤ i) (h2 : i ≤ x.lastLogIndex) :
    i + (x.entriesFrom (i + 1)).length = x.lastLogIndex ∧
      ∀ e ∈ x.entriesFrom (i + 1), e ∈ x.log ∧ e.index ≤ x.lastLogIndex := by
  have hlast := h.snap.lastLogIndex
  have hidx : ∀ e ∈ x.log, e.index ≤ x.lastLogIndex := by
    intro e he
    obtain ⟨k, hk⟩ := List.mem_iff_getElem?.mp he
    have hlt := (List.getElem?_eq_some_iff.mp hk).1
    have := h.numbered k e hk
    omega
  rw [Node.entriesFrom]
  split
  · refine ⟨?_, fun e he => absurd he List.not_mem_nil⟩
    rw [List.length_nil]
    omega
  · rw [Node.physicalIndex, h.snap.logBaseIndex, sliceFrom_of_nonneg (by omega)]
    refine ⟨?_, fun e he => ⟨List.mem_of_mem_drop he, hidx e (List.mem_of_mem_drop he)⟩⟩
    rw [List.length_drop]
    omega

/-- **`_send_append_entries`** returns for every other member. -/
lemma leads_sendAppendEntries (h : Calm members N n x) (hr : x.role = .leader) {peer : Str}
    (hp : peer ∈ members) (hn : peer ≠ n) : Leads members N n x (x.sendAppendEntries peer) := by
  have hs := h.steady
  obtain ⟨h1, h2⟩ := hs.prevIndexFor hr hp hn
  obtain ⟨prevTerm, hterm⟩ : ∃ t, x.prevTermAt (x.prevIndexFor peer) = some t := by
    rw [Node.prevTermAt]
    split
    · exact ⟨0, rfl⟩
    · exact hs.snap.termAtIndex h1 h2
  obtain ⟨leader, hleader⟩ := hs.snap.leaderAtIndex (x.prevIndexFor peer)
  have hsend : x.sendAppendEntries peer = some { x with
      outbox := x.outbox ++
        [{ kind := .appendEntries, term := x.currentTerm, source := x.config.nodeId, target := peer
           prevLogIndex := x.prevIndexFor peer, prevLogTerm := prevTerm, prevLogLeaderId := leader
           entries := x.entriesFrom (x.prevIndexFor peer + 1), leaderCommit := x.commitIndex }] } := by
    rw [Node.prevIndexFor] at hterm hleader ⊢
    simp only [Node.sendAppendEntries, hterm, hleader, sub_add_cancel]
    rfl
  obtain ⟨hlen, hentries⟩ := hs.entriesFrom h1 h2
  refine ⟨_, hsend, ?_⟩
  have hlaw : Lawful members (Function.update N n x)
      { kind := .appendEntries, term := x.currentTerm, source := x.config.nodeId, target := peer
        prevLogIndex := x.prevIndexFor peer, prevLogTerm := prevTerm, prevLogLeaderId := leader
        entries := x.entriesFrom (x.prevIndexFor peer + 1), leaderCommit := x.commitIndex } := by
    refine ⟨fun _ => ⟨hp, ?_, fun e he => hs.plain e (hentries e he).1, fun e he => ?_,
      hs.commit_nonneg, ?_⟩, fun hk => absurd hk (by simp)⟩
    · exact fun heq => hn (heq.symm.trans hs.nodeId)
    · have := (hentries e he).2
      dsimp only
      omega
    · dsimp only
      rw [hs.nodeId, Function.update_self, hlen]
      exact backs_leader hr le_rfl
  obtain ⟨hcalm, ho⟩ := h.send hlaw
  exact ⟨hcalm, ho, hr⟩

/-- The calls of `_send_append_entries` for some peers. -/
def Node.sendsTo (x : Node σ ν) (peers : List Str) : List (Node σ ν × Str) :=
  roundsOf Node.sendAppendEntries (fun y peer => [(y, peer)]) x peers

/-- **`_broadcast_append_entries`** returns, and its batches start inside the log. -/
lemma leads_broadcast (h : Calm members N n x) (hr : x.role = .leader) :
    Leads members N n x x.broadcastAppendEntries ∧ ∀ call ∈ x.sendsTo x.peers, InsideCall call := by
  have hpeer : ∀ p ∈ x.peers, p ∈ members ∧ p ≠ n := fun p hp => (h.steady.peers p).mp hp
  have hround : ∀ p ∈ x.peers, ∀ y : Node σ ν,
      (Calm members N n y ∧ Onward x y ∧ y.role = .leader) →
      ∃ z, y.sendAppendEntries p = some z ∧ Calm members N n z ∧ Onward x z ∧ z.role = .leader := by
    rintro p hp y ⟨hy, ho, hry⟩
    obtain ⟨z, hz, hcalm, ho', hrz⟩ := leads_sendAppendEntries hy hry (hpeer p hp).1 (hpeer p hp).2
    exact ⟨z, hz, hcalm, ho.trans ho', hrz⟩
  refine ⟨foldlM_total hround ⟨h, Onward.refl x, hr⟩, ?_⟩
  refine forall_roundsOf (I := fun y => Calm members N n y ∧ Onward x y ∧ y.role = .leader)
    (Q := InsideCall) ?_ ?_ ⟨h, Onward.refl x, hr⟩
  · intro p hp y z hy hz
    obtain ⟨z', hz', hI⟩ := hround p hp y hy
    rw [hz, Option.some.injEq] at hz'
    exact hz' ▸ hI
  · rintro p hp y ⟨hy, -, hry⟩ call hcall
    rw [List.mem_singleton.mp hcall]
    exact hy.steady.insideCall hry (hpeer p hp).1 (hpeer p hp).2

/-! ### Commits and commands -/

/-- The loop of `_advance_commit_index` reads inside the log. -/
lemma advanceFrom_total (hs : Whole x) (hpos : 0 ≤ x.commitIndex) :
    ∀ k : ℕ, x.commitIndex + k ≤ x.lastLogIndex → ∃ y, x.advanceFrom k = some y
  | 0, _ => ⟨x, rfl⟩
  | k + 1, hk => by
      obtain ⟨y, hy⟩ := advanceFrom_total hs hpos k (by push_cast at hk; omega)
      obtain ⟨t, ht⟩ := hs.termAtIndex (i := x.commitIndex + (k + 1 : ℕ)) (by omega) hk
      rw [Node.advanceFrom, ht]
      show ∃ y, (if t ≠ x.currentTerm then x.advanceFrom k
        else if x.isCommittedUnderCurrentConfiguration (x.commitIndex + (k + 1 : ℕ)) then _
        else x.advanceFrom k) = some y
      split_ifs
      · exact ⟨y, hy⟩
      · exact ⟨_, rfl⟩
      · exact ⟨y, hy⟩

/-- **`_advance_commit_index`** returns. -/
lemma leads_advance (h : Calm members N n x) (hr : x.role = .leader) :
    Leads members N n x x.advanceCommitIndex := by
  have hs := h.steady
  have hle := hs.commit_le
  obtain ⟨y, hy⟩ := advanceFrom_total hs.snap hs.commit_nonneg
    (x.lastLogIndex - x.commitIndex).toNat (by omega)
  rcases advanceCommitIndex_cases hy with rfl | ⟨k, hlt, hk, -, -, rfl⟩
  · exact ⟨y, hy, h, Onward.refl y, hr⟩
  · have ho : Onward x { x with commitIndex := k, persistDirty := true } :=
      Onward.of_log rfl rfl le_rfl
    refine ⟨_, hy, h.onward ho ?_ (fun _ => id) fun _ => id, ho, hr⟩
    exact { hs with commit_nonneg := by have := hs.commit_nonneg; dsimp only; omega, commit_le := hk }

/-- **A plain command** is appended. -/
lemma Calm.appendEntry (h : Calm members N n x) (hr : x.role = .leader) {command : Command}
    (hplain : Plain command) :
    Calm members N n (x.appendEntry command) ∧ Onward x (x.appendEntry command) := by
  have hs := h.steady
  have hlast : (x.appendEntry command).lastLogIndex = x.lastLogIndex + 1 := by
    simp only [Node.lastLogIndex, Node.appendEntry, List.length_append, List.length_singleton]
    push_cast
    omega
  have ho : Onward x (x.appendEntry command) := Onward.of_log rfl rfl (by rw [hlast]; omega)
  refine ⟨h.onward ho ?_ (fun _ => id) fun _ => id, ho⟩
  refine ⟨hs.nodeId, hs.peers, hs.snap, hs.numbered.snoc ?_, fun e he => ?_, hs.applied,
    hs.commit_nonneg, ?_, fun _ p hp hn => ?_, hs.votes⟩
  · show x.lastLogIndex + 1 = 0 + (x.log.length : ℤ) + 1
    rw [hs.snap.lastLogIndex, zero_add]
  · cases List.mem_append.mp he with
    | inl he => exact hs.plain e he
    | inr he =>
        rw [List.mem_singleton.mp he]
        exact hplain
  · have := hs.commit_le
    rw [hlast]
    show x.commitIndex ≤ _
    omega
  · obtain ⟨i, hi, h1, h2⟩ := hs.cursors hr p hp hn
    exact ⟨i, hi, h1, by rw [hlast]; omega⟩

/-- The calls of `_send_append_entries` in `_append_client_command`. -/
def Node.commandSends (x : Node σ ν) (command : Command) : List (Node σ ν × Str) :=
  match (x.appendEntry command).advanceCommitIndex with
  | none => []
  | some y => y.sendsTo y.peers

/-- **`_append_client_command`** returns, and its batches start inside the log. -/
lemma leads_appendClientCommand (h : Calm members N n x) (hr : x.role = .leader)
    {command : Command} (hplain : Plain command) :
    Leads members N n x (x.appendClientCommand command) ∧
      ∀ call ∈ x.commandSends command, InsideCall call := by
  obtain ⟨happend, ho⟩ := h.appendEntry hr hplain
  obtain ⟨y, hy, hcalm, ho', hry⟩ := leads_advance happend hr
  obtain ⟨⟨z, hz, hcalm', ho'', hrz⟩, hinside⟩ := leads_broadcast hcalm hry
  refine ⟨⟨z, ?_, hcalm', (ho.trans ho').trans ho'', hrz⟩, ?_⟩
  · rw [Node.appendClientCommand, hy]
    exact hz
  · rw [Node.commandSends, hy]
    exact hinside

/-! ### Answers -/

/-- A term update is a step to a follower, or none. -/
lemma Calm.handleTermUpdate (h : Calm members N n x) (m : Message) :
    Calm members N n (x.handleTermUpdate m) ∧ Onward x (x.handleTermUpdate m) := by
  rw [Node.handleTermUpdate]
  split
  · rename_i hlt
    have ho : Onward x (Node.stepDownToFollower { x with
        currentTerm := m.term, votedFor := none, leaderId := none, persistDirty := true }) :=
      Onward.of_follower hlt.le rfl
    refine ⟨h.onward ho ?_ (fun _ => id) fun _ => id, ho⟩
    exact h.steady.frame rfl rfl rfl rfl rfl rfl (fun hl => absurd hl (by
      simp [Node.stepDownToFollower])) fun _ => id
  · exact ⟨h, Onward.refl x⟩

/-- A cursor is moved to an index that is at most one behind the log. -/
lemma Calm.moveCursor (h : Calm members N n x) (peer : Str) {i : ℤ} {d : Dict Str ℤ} (h1 : 1 ≤ i)
    (h2 : i ≤ x.lastLogIndex + 1) :
    Calm members N n { x with nextIndex := x.nextIndex.set peer i, matchIndex := d } ∧
      Onward x { x with nextIndex := x.nextIndex.set peer i, matchIndex := d } := by
  have ho : Onward x { x with nextIndex := x.nextIndex.set peer i, matchIndex := d } :=
    Onward.of_log rfl rfl le_rfl
  refine ⟨h.onward ho ?_ (fun _ => id) fun _ => id, ho⟩
  refine { h.steady with cursors := fun hl p hp hn => ?_ }
  dsimp only
  rw [Dict.get_set]
  split
  · exact ⟨i, rfl, h1, h2⟩
  · exact h.steady.cursors hl p hp hn

/-- The calls of `_send_append_entries` while a message is latched. -/
def Node.answerSends (x : Node σ ν) (m : Message) : List (Node σ ν × Str) :=
  let y := x.handleTermUpdate m
  if m.kind = .appendEntriesResponse ∧ y.role = .leader ∧ m.term = y.currentTerm ∧
      m.success = false then
    (y.backOff m.source).toList.map fun z => (z, m.source)
  else []

/-- **`_handle_append_entries_response`** returns. -/
lemma goes_takeAnswer (h : Calm members N n x) (hlaw : AnswerLaw members x m) (ht : m.target = n) :
    Goes members N n x (x.takeAnswer m) ∧
      (x.role = .leader → m.term = x.currentTerm → m.success = false →
        ∃ y, x.backOff m.source = some y ∧ InsideCall (y, m.source)) := by
  have hother : m.source ≠ n := ht ▸ hlaw.other
  -- an answer that is counted is backed by the leader itself
  have hback : x.role = .leader → ∃ y, x.backOff m.source = some y ∧ Calm members N n y ∧
      Onward x y ∧ y.role = .leader := by
    intro hr
    obtain ⟨i, hi, h1, h2⟩ := h.steady.cursors hr m.source hlaw.source hother
    obtain ⟨hcalm, ho⟩ := h.moveCursor m.source (i := max 1 (i - 1)) (d := x.matchIndex)
      (le_max_left _ _) (by omega)
    exact ⟨_, by rw [Node.backOff, hi]; rfl, hcalm, ho, hr⟩
  refine ⟨?_, fun hr _ _ => ?_⟩
  · rw [Node.takeAnswer]
    split
    · exact Goes.of_some h (Onward.refl x)
    · rename_i hcond
      simp only [not_or, not_not] at hcond
      obtain ⟨hr, hterm⟩ := hcond
      split
      · rename_i hsuccess
        have hle : m.matchIndex ≤ x.lastLogIndex := by
          rcases hlaw.backs hsuccess with hlt | ⟨-, -, hle⟩
          · omega
          · exact hle hr
        have hpos := hlaw.nonneg
        obtain ⟨hcalm, ho⟩ := h.moveCursor m.source (i := m.matchIndex + 1)
          (d := x.matchIndex.set m.source m.matchIndex) (by omega) (by omega)
        obtain ⟨z, hz, hcalm', ho', -⟩ := leads_advance hcalm hr
        exact ⟨z, hz, hcalm', ho.trans ho'⟩
      · obtain ⟨y, hy, hcalm, ho, hry⟩ := hback hr
        obtain ⟨z, hz, hcalm', ho', -⟩ :=
          leads_sendAppendEntries hcalm hry hlaw.source hother
        exact ⟨z, by rw [hy]; exact hz, hcalm', ho.trans ho'⟩
  · obtain ⟨y, hy, hcalm, -, hry⟩ := hback hr
    exact ⟨y, hy, hcalm.steady.insideCall hry hlaw.source hother⟩

/-! ### Latching -/

/-- A message that was sent to `n`. -/
def Addressed (members : List Str) (N : Str → Node σ ν) (n : Str) (x : Node σ ν) (m : Message) : Prop :=
  m.target = n ∧ Lawful members (Function.update N n x) m

lemma Addressed.onward (h : Addressed members N n x m) (ho : Onward x y) : Addressed members N n y m :=
  ⟨h.1, h.2.onward ho⟩

lemma Addressed.answer (h : Addressed members N n x m) (hk : m.kind = .appendEntriesResponse) :
    AnswerLaw members x m := by
  have hlaw := h.2.2 hk
  rw [h.1, Function.update_self] at hlaw
  exact hlaw

/-- **One message is latched**, and a batch it makes starts inside the log. -/
lemma goes_latchMessage (h : Calm members N n x) (hm : Addressed members N n x m) :
    Goes members N n x (x.latchMessage m) ∧ ∀ call ∈ x.answerSends m, InsideCall call := by
  have hqueue : ∀ y : Node σ ν, Onward x y → Steady members n y → y.outbox = x.outbox →
      y.pendingAppendEntries = x.pendingAppendEntries → Goes members N n x (some y) :=
    fun y ho hs hout hpend => Goes.of_some
      (h.onward ho hs (fun m hm => hout ▸ hm) fun m hm => hpend ▸ hm) ho
  have hno : m.kind ≠ .appendEntriesResponse → ∀ call ∈ x.answerSends m, InsideCall call := by
    intro hk call hcall
    rw [Node.answerSends, if_neg fun hc => hk hc.1] at hcall
    exact absurd hcall List.not_mem_nil
  rw [Node.latchMessage]
  cases hkind : m.kind with
  | appendEntries =>
      refine ⟨?_, hno (by rw [hkind]; simp)⟩
      have ho : Onward x { x with pendingAppendEntries := x.pendingAppendEntries ++ [m] } :=
        Onward.of_log rfl rfl le_rfl
      refine Goes.of_some ⟨h.steady.frame rfl rfl rfl rfl rfl rfl (fun hl => ⟨hl, rfl⟩) fun _ => id,
        fun m' hm' => (h.outbox m' hm').onward ho, fun m' hm' => ?_⟩ ho
      cases List.mem_append.mp hm' with
      | inl hm' =>
          obtain ⟨h1, h2, h3⟩ := h.pending m' hm'
          exact ⟨h1, h2, h3.onward ho⟩
      | inr hm' =>
          rw [List.mem_singleton.mp hm']
          exact ⟨hkind, hm.1, hm.2.onward ho⟩
  | requestVote =>
      exact ⟨hqueue _ (Onward.of_log rfl rfl le_rfl)
        (h.steady.frame rfl rfl rfl rfl rfl rfl (fun hl => ⟨hl, rfl⟩) fun _ => id) rfl rfl,
        hno (by rw [hkind]; simp)⟩
  | requestVoteResponse =>
      refine ⟨hqueue _ (Onward.of_log rfl rfl le_rfl) ?_ rfl rfl, hno (by rw [hkind]; simp)⟩
      refine { h.steady with votes := fun m' hm' => ?_ }
      cases List.mem_append.mp hm' with
      | inl hm' => exact h.steady.votes m' hm'
      | inr hm' => rw [List.mem_singleton.mp hm', hkind]
  | clientCommand => exact ⟨Goes.of_some h (Onward.refl x), hno (by rw [hkind]; simp)⟩
  | appendEntriesResponse =>
      obtain ⟨hup, ho⟩ := h.handleTermUpdate m
      obtain ⟨⟨y, hy, hcalm, ho'⟩, hcall⟩ :=
        goes_takeAnswer hup ((hm.onward ho).answer hkind) hm.1
      refine ⟨⟨y, hy, hcalm, ho.trans ho'⟩, fun call hmem => ?_⟩
      rw [Node.answerSends] at hmem
      split at hmem
      · rename_i hc
        obtain ⟨z, hz, hinside⟩ := hcall hc.2.1 hc.2.2.1 hc.2.2.2
        rw [hz, Option.toList_some, List.map_singleton, List.mem_singleton] at hmem
        rw [hmem]
        exact hinside
      · exact absurd hmem List.not_mem_nil

/-- The calls of `_send_append_entries` in `_latch_inputs`. -/
def Node.latchSends (x : Node σ ν) (messages : List Message) (commands : List Command) :
    List (Node σ ν × Str) :=
  if x.running then
    roundsOf Node.latchMessage Node.answerSends x messages ++
      match messages.foldlM Node.latchMessage x with
      | none => []
      | some y =>
          if y.role = .leader then roundsOf Node.appendClientCommand Node.commandSends y commands
          else []
  else []

/-- **`_latch_inputs`** returns, and all its batches start inside the log. -/
theorem goes_latchInputs {ms : List Message} {cs : List Command} (h : Calm members N n x)
    (hms : ∀ m ∈ ms, Addressed members N n x m) (hcs : ∀ command ∈ cs, Plain command) :
    Goes members N n x (x.latchInputs ms cs) ∧ ∀ call ∈ x.latchSends ms cs, InsideCall call := by
  cases hrun : x.running with
  | false =>
      rw [Node.latchInputs, Node.latchSends, if_neg (by simp [hrun]), if_neg (by simp [hrun])]
      exact ⟨Goes.of_some h (Onward.refl x), fun _ hcall => absurd hcall List.not_mem_nil⟩
  | true =>
      have hround : ∀ m ∈ ms, ∀ y : Node σ ν, (Calm members N n y ∧ Onward x y) →
          ∃ z, y.latchMessage m = some z ∧ Calm members N n z ∧ Onward x z := by
        rintro m hm y ⟨hy, ho⟩
        obtain ⟨z, hz, hcalm, ho'⟩ := (goes_latchMessage hy ((hms m hm).onward ho)).1
        exact ⟨z, hz, hcalm, ho.trans ho'⟩
      have hcommand : ∀ command ∈ cs, ∀ y : Node σ ν,
          (Calm members N n y ∧ Onward x y ∧ y.role = .leader) →
          ∃ z, y.appendClientCommand command = some z ∧ Calm members N n z ∧ Onward x z ∧
            z.role = .leader := by
        rintro command hmem y ⟨hy, ho, hr⟩
        obtain ⟨z, hz, hcalm, ho', hrz⟩ := (leads_appendClientCommand hy hr (hcs command hmem)).1
        exact ⟨z, hz, hcalm, ho.trans ho', hrz⟩
      obtain ⟨y, hy, hcalm, ho⟩ := foldlM_total hround ⟨h, Onward.refl x⟩
      have hfirst : ∀ call ∈ roundsOf Node.latchMessage Node.answerSends x ms, InsideCall call := by
        refine forall_roundsOf (I := fun z => Calm members N n z ∧ Onward x z) (Q := InsideCall)
          ?_ ?_ ⟨h, Onward.refl x⟩
        · intro m hm z z' hz hz'
          obtain ⟨w, hw, hI⟩ := hround m hm z hz
          rw [hz', Option.some.injEq] at hw
          exact hw ▸ hI
        · rintro m hm z ⟨hz, ho⟩
          exact (goes_latchMessage hz ((hms m hm).onward ho)).2
      rw [Node.latchInputs, Node.latchSends, if_pos hrun, if_pos hrun, hy]
      by_cases hr : y.role = .leader
      · obtain ⟨z, hz, hcalm', ho', -⟩ := foldlM_total hcommand ⟨hcalm, ho, hr⟩
        refine ⟨⟨z, ?_, hcalm', ho'⟩, fun call hcall => ?_⟩
        · show (if y.role = .leader then cs.foldlM Node.appendClientCommand y else some y) = some z
          rw [if_pos hr]
          exact hz
        · dsimp only at hcall
          rw [if_pos hr] at hcall
          cases List.mem_append.mp hcall with
          | inl hcall => exact hfirst call hcall
          | inr hcall =>
              refine forall_roundsOf
                (I := fun z => Calm members N n z ∧ Onward x z ∧ z.role = .leader)
                (Q := InsideCall) ?_ ?_ ⟨hcalm, ho, hr⟩ call hcall
              · intro command hmem z z' hz hz'
                obtain ⟨w, hw, hI⟩ := hcommand command hmem z hz
                rw [hz', Option.some.injEq] at hw
                exact hw ▸ hI
              · rintro command hmem z ⟨hz, -, hrz⟩
                exact (leads_appendClientCommand hz hrz (hcs command hmem)).2
      · refine ⟨⟨y, ?_, hcalm, ho⟩, fun call hcall => ?_⟩
        · show (if y.role = .leader then cs.foldlM Node.appendClientCommand y else some y) = some y
          rw [if_neg hr]
        · dsimp only at hcall
          rw [if_neg hr, List.append_nil] at hcall
          exact hfirst call hcall

end RaftRx.Python
