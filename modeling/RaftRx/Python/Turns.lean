import RaftRx.Python.System

/-!
What a tick can do to a Python node, in elementary changes.

The phases of a tick are sequences of a few kinds of changes: a higher term is seen, a vote is
given, an entry appended, a batch taken.  What holds of a node after a tick is proved once for each
kind.

* `Core`, `Node.core`: the fields that no bookkeeping touches;
* `Tuned`: a change of bookkeeping only, which may also queue heard messages;
* `Turn`, `Turns`: the elementary changes, under the condition `H` on heard messages and `C` on the
  batches a log takes;
* `sendAppendEntries_cases`, `advanceCommitIndex_cases`, `appendEntriesFromLeader_cases`: what each
  function can do;
* `turns_latchInputs`, `transition_cases`, `dumpOutputs_cases`: the phases.
-/

namespace RaftRx.Python

open Protocol (Role)
open Relation (ReflTransGen)

variable {σ ν : Type} {E : Env σ ν} {F : Disk ν} {x x' y : Node σ ν} {m : Message}

/-! ### Bookkeeping -/

/-- The fields that no bookkeeping touches. -/
structure Core where
  config : NodeConfig
  configState : ClusterConfiguration
  peers : List Str
  running : Bool
  role : Role
  currentTerm : ℤ
  votedFor : Option Str
  votesReceived : List Str
  log : List LogEntry
  snapshotLastIncludedIndex : ℤ
  snapshotLastIncludedTerm : ℤ
  commitIndex : ℤ
  matchIndex : Dict Str ℤ
  outbox : List Message
  compactionState : CompactionState
  compactionTargetIndex : ℤ

/-- The core of a node. -/
def Node.core (x : Node σ ν) : Core :=
  { config := x.config, configState := x.configState, peers := x.peers, running := x.running
    role := x.role, currentTerm := x.currentTerm, votedFor := x.votedFor
    votesReceived := x.votesReceived, log := x.log
    snapshotLastIncludedIndex := x.snapshotLastIncludedIndex
    snapshotLastIncludedTerm := x.snapshotLastIncludedTerm, commitIndex := x.commitIndex
    matchIndex := x.matchIndex, outbox := x.outbox, compactionState := x.compactionState
    compactionTargetIndex := x.compactionTargetIndex }

/-- A queue after bookkeeping: nothing new, or a heard message of its kind. -/
def Queued (H : Message → Prop) (x : Node σ ν) (kind : MessageKind) (q q' : List Message) : Prop :=
  ∀ m ∈ q', m ∈ q ∨ (x.running = true ∧ H m ∧ m.kind = kind)

/-- **Bookkeeping**: the core stays, nothing unsaved is forgotten. -/
structure Tuned (H : Message → Prop) (x x' : Node σ ν) : Prop where
  core : x'.core = x.core
  dirty : x.persistDirty = true → x'.persistDirty = true
  appends : Queued H x .appendEntries x.pendingAppendEntries x'.pendingAppendEntries
  requests : Queued H x .requestVote x.pendingVoteRequests x'.pendingVoteRequests
  votes : Queued H x .requestVoteResponse x.pendingVotes x'.pendingVotes

/-- What is pending was heard by a running node. -/
structure Pending (H : Message → Prop) (x : Node σ ν) : Prop where
  appends : Queued H x .appendEntries [] x.pendingAppendEntries
  requests : Queued H x .requestVote [] x.pendingVoteRequests
  votes : Queued H x .requestVoteResponse [] x.pendingVotes

/-! ### Elementary changes -/

/-- An answer that promises nothing. -/
structure Refusal (x : Node σ ν) (m : Message) : Prop where
  source : m.source = x.config.nodeId
  kind : m.kind = .requestVoteResponse ∨ m.kind = .appendEntriesResponse
  granted : m.granted = false
  success : m.success = false
  prev : m.prevLogIndex = 0
  commit : m.leaderCommit = 0

/-- **The elementary changes of a tick**, apart from taking up a candidacy or the lead. -/
inductive Turn (E : Env σ ν) (F : Disk ν) (H : Message → Prop)
    (C : List LogEntry → Message → Prop) : Node σ ν → Node σ ν → Prop where
  | tune {x x' : Node σ ν} : Tuned H x x' → Turn E F H C x x'
  | observe {x : Node σ ν} (m : Message) : x.currentTerm < m.term → Turn E F H C x (x.handleTermUpdate m)
  | follow {x : Node σ ν} : Turn E F H C x { x with role := .follower }
  | forget {x : Node σ ν} : x.role = .follower → Turn E F H C x x.backToFollowerDueToTimeout
  | grant {x : Node σ ν} (m : Message) : x.running = true → H m → m.kind = .requestVote →
      x.grantsVote m = true → Turn E F H C x (x.answerRequestVote m)
  | refuse {x : Node σ ν} (m : Message) : Refusal x m →
      Turn E F H C x { x with outbox := x.outbox ++ [m] }
  | collect {x : Node σ ν} (m : Message) : x.running = true → H m → m.kind = .requestVoteResponse →
      x.role = .candidate → m.term = x.currentTerm → m.granted = true →
      Turn E F H C x { x with votesReceived := x.votesReceived ++ [m.source] }
  | append {x : Node σ ν} (command : Command) : x.running = true → x.role = .leader →
      Turn E F H C x (x.appendEntry command)
  | send {x y : Node σ ν} (peer : Str) : x.running = true ∨ peer ∈ x.peers → x.role = .leader →
      x.sendAppendEntries peer = some y → Turn E F H C x y
  | record {x : Node σ ν} (m : Message) : x.running = true → H m → m.kind = .appendEntriesResponse →
      x.role = .leader → m.term = x.currentTerm → m.success = true →
      Turn E F H C x (x.recordMatch m)
  | advance {x : Node σ ν} (k : ℤ) : x.running = true → x.role = .leader → x.commitIndex < k →
      k ≤ x.lastLogIndex → x.termAtIndex k = some x.currentTerm →
      x.isCommittedUnderCurrentConfiguration k = true →
      Turn E F H C x { x with commitIndex := k, persistDirty := true }
  | accept {x y : Node σ ν} (m : Message) (rebuild : Bool) : x.running = true → H m →
      m.kind = .appendEntries → x.role = .follower → m.term = x.currentTerm →
      x.prevMatches m = some true → x.mergeEntries m.entries = some (y, rebuild) →
      C x.log m →
      Turn E F H C x ((y.settleCommit E F rebuild m.leaderCommit).answerAppendEntries m true)

/-- A sequence of elementary changes. -/
def Turns (E : Env σ ν) (F : Disk ν) (H : Message → Prop) (C : List LogEntry → Message → Prop) :
    Node σ ν → Node σ ν → Prop :=
  ReflTransGen (Turn E F H C)

variable {H : Message → Prop} {C : List LogEntry → Message → Prop}

lemma Queued.refl {kind : MessageKind} {q : List Message} : Queued H x kind q q :=
  fun _ => Or.inl

lemma Queued.nil {kind : MessageKind} {q : List Message} : Queued H x kind q [] :=
  fun _ hm => absurd hm List.not_mem_nil

lemma Queued.tail {kind : MessageKind} {q : List Message} (m : Message) :
    Queued H x kind (m :: q) q :=
  fun _ hm => Or.inl (List.mem_cons_of_mem m hm)

/-- Bookkeeping that leaves the queues alone. -/
lemma Tuned.of_core (hc : x'.core = x.core) (hd : x'.persistDirty = x.persistDirty)
    (ha : x'.pendingAppendEntries = x.pendingAppendEntries)
    (hr : x'.pendingVoteRequests = x.pendingVoteRequests) (hv : x'.pendingVotes = x.pendingVotes) :
    Tuned H x x' :=
  ⟨hc, fun h => hd.trans h, ha ▸ Queued.refl, hr ▸ Queued.refl, hv ▸ Queued.refl⟩

namespace Tuned

variable (h : Tuned H x x')
include h

lemma config : x'.config = x.config := congrArg Core.config h.core
lemma configState : x'.configState = x.configState := congrArg Core.configState h.core
lemma peers : x'.peers = x.peers := congrArg Core.peers h.core
lemma running : x'.running = x.running := congrArg Core.running h.core
lemma role : x'.role = x.role := congrArg Core.role h.core
lemma currentTerm : x'.currentTerm = x.currentTerm := congrArg Core.currentTerm h.core
lemma votedFor : x'.votedFor = x.votedFor := congrArg Core.votedFor h.core
lemma votesReceived : x'.votesReceived = x.votesReceived := congrArg Core.votesReceived h.core
lemma log : x'.log = x.log := congrArg Core.log h.core
lemma commitIndex : x'.commitIndex = x.commitIndex := congrArg Core.commitIndex h.core
lemma matchIndex : x'.matchIndex = x.matchIndex := congrArg Core.matchIndex h.core
lemma outbox : x'.outbox = x.outbox := congrArg Core.outbox h.core

lemma snapshotIndex : x'.snapshotLastIncludedIndex = x.snapshotLastIncludedIndex :=
  congrArg Core.snapshotLastIncludedIndex h.core

lemma snapshotTerm : x'.snapshotLastIncludedTerm = x.snapshotLastIncludedTerm :=
  congrArg Core.snapshotLastIncludedTerm h.core

end Tuned

lemma Turns.refl (x : Node σ ν) : Turns E F H C x x := ReflTransGen.refl

lemma Turns.trans (h : Turns E F H C x x') (h' : Turns E F H C x' y) :
    Turns E F H C x y := ReflTransGen.trans h h'

lemma Turn.turns (h : Turn E F H C x x') : Turns E F H C x x' := ReflTransGen.single h

lemma turns_of_core (hc : x'.core = x.core) (hd : x'.persistDirty = x.persistDirty)
    (ha : x'.pendingAppendEntries = x.pendingAppendEntries)
    (hr : x'.pendingVoteRequests = x.pendingVoteRequests) (hv : x'.pendingVotes = x.pendingVotes) :
    Turns E F H C x x' :=
  (Turn.tune (Tuned.of_core hc hd ha hr hv)).turns

/-! ### What each function can do -/

lemma handleTermUpdate_of_le (h : m.term ≤ x.currentTerm) : x.handleTermUpdate m = x := by
  rw [Node.handleTermUpdate, if_neg (not_lt.mpr h)]

/-- The term does not decrease. -/
lemma currentTerm_le_handleTermUpdate (x : Node σ ν) (m : Message) :
    x.currentTerm ≤ (x.handleTermUpdate m).currentTerm := by
  rw [Node.handleTermUpdate]
  split
  · exact le_of_lt ‹_›
  · exact le_refl _

lemma running_handleTermUpdate (x : Node σ ν) (m : Message) :
    (x.handleTermUpdate m).running = x.running := by
  rw [Node.handleTermUpdate]
  split <;> rfl

lemma log_handleTermUpdate (x : Node σ ν) (m : Message) : (x.handleTermUpdate m).log = x.log := by
  rw [Node.handleTermUpdate]
  split <;> rfl

lemma prevMatches_handleTermUpdate (x : Node σ ν) (m : Message) :
    (x.handleTermUpdate m).prevMatches m = x.prevMatches m := by
  rw [Node.handleTermUpdate]
  split <;> rfl

lemma role_handleTermUpdate_follower (m : Message) (h : x.role = .follower) :
    (x.handleTermUpdate m).role = .follower := by
  rw [Node.handleTermUpdate]
  split
  · rfl
  · exact h

lemma turns_handleTermUpdate (x : Node σ ν) (m : Message) :
    Turns E F H C x (x.handleTermUpdate m) := by
  by_cases h : x.currentTerm < m.term
  · exact (Turn.observe m h).turns
  · rw [handleTermUpdate_of_le (not_lt.mp h)]
    exact Turns.refl x

/-- The batch `_send_append_entries` makes. -/
structure Slice (x : Node σ ν) (peer : Str) (m : Message) : Prop where
  kind : m.kind = .appendEntries
  source : m.source = x.config.nodeId
  target : m.target = peer
  term : m.term = x.currentTerm
  prev : x.snapshotLastIncludedIndex ≤ m.prevLogIndex
  prevTerm : x.termAtIndex m.prevLogIndex = some m.prevLogTerm
  entries : m.entries = x.entriesFrom (m.prevLogIndex + 1)
  commit : m.leaderCommit = x.commitIndex
  index : m.matchIndex = 0

/-- **One batch is queued**, or an index error is raised. -/
lemma sendAppendEntries_cases {peer : Str} (h : x.sendAppendEntries peer = some y) :
    ∃ m, Slice x peer m ∧ y = { x with outbox := x.outbox ++ [m] } := by
  simp only [Node.sendAppendEntries, Option.bind_eq_bind, Option.bind_eq_some_iff,
    Option.some.injEq] at h
  obtain ⟨prevTerm, hterm, leader, -, rfl⟩ := h
  refine ⟨_, ⟨rfl, rfl, rfl, rfl, ?_, ?_, ?_, rfl, rfl⟩, rfl⟩
  · simp only [Node.logBaseIndex]
    omega
  · rw [Node.prevTermAt] at hterm
    split at hterm
    · rename_i hzero
      rw [hzero, Node.termAtIndex, if_pos rfl, hterm]
    · exact hterm
  · simp only [sub_add_cancel]

/-- The batches `_broadcast_append_entries` queues, one after the other. -/
lemma broadcastAppendEntries_induct {I : Node σ ν → Prop}
    (hsend : ∀ z z' : Node σ ν, ∀ peer ∈ x.peers, I z → z.sendAppendEntries peer = some z' → I z')
    (hx : I x) (h : x.broadcastAppendEntries = some y) : I y :=
  foldlM_invariant (fun peer hp z z' hz hz' => hsend z z' peer hp hz hz') hx h

lemma advanceFrom_cases : ∀ {k : ℕ}, x.advanceFrom k = some y → y = x ∨
    ∃ i, x.commitIndex < i ∧ i ≤ x.commitIndex + k ∧ x.termAtIndex i = some x.currentTerm ∧
      x.isCommittedUnderCurrentConfiguration i = true ∧
      y = { x with commitIndex := i, persistDirty := true }
  | 0, h => by
      rw [Node.advanceFrom, Option.some.injEq] at h
      exact Or.inl h.symm
  | k + 1, h => by
      have hless : x.advanceFrom k = some y → y = x ∨ ∃ i, x.commitIndex < i ∧
          i ≤ x.commitIndex + (k + 1 : ℕ) ∧ x.termAtIndex i = some x.currentTerm ∧
          x.isCommittedUnderCurrentConfiguration i = true ∧
          y = { x with commitIndex := i, persistDirty := true } := by
        intro hk
        rcases advanceFrom_cases hk with rfl | ⟨i, hlt, hle, hi⟩
        · exact Or.inl rfl
        · exact Or.inr ⟨i, hlt, by push_cast; omega, hi⟩
      rw [Node.advanceFrom] at h
      obtain ⟨t, ht, h⟩ := Option.bind_eq_some_iff.mp h
      split at h
      · exact hless h
      · rename_i hterm
        split at h
        · rename_i hcom
          rw [not_not] at hterm
          rw [Option.some.injEq] at h
          exact Or.inr ⟨_, by push_cast; omega, le_refl _, hterm ▸ ht, hcom, h.symm⟩
        · exact hless h

/-- **The commit index stays or moves** to an entry of the current term that a quorum has. -/
lemma advanceCommitIndex_cases (h : x.advanceCommitIndex = some y) : y = x ∨
    ∃ i, x.commitIndex < i ∧ i ≤ x.lastLogIndex ∧ x.termAtIndex i = some x.currentTerm ∧
      x.isCommittedUnderCurrentConfiguration i = true ∧
      y = { x with commitIndex := i, persistDirty := true } := by
  rcases advanceFrom_cases h with rfl | ⟨i, hlt, hle, hi⟩
  · exact Or.inl rfl
  · exact Or.inr ⟨i, hlt, by omega, hi⟩

/-- **A batch is refused or taken.** -/
lemma appendEntriesFromLeader_cases {success : Bool}
    (h : x.appendEntriesFromLeader E F m = some (y, success)) :
    (y = x ∧ success = false) ∨ ∃ z rebuild, success = true ∧ x.prevMatches m = some true ∧
      x.mergeEntries m.entries = some (z, rebuild) ∧
      y = z.settleCommit E F rebuild m.leaderCommit := by
  rw [Node.appendEntriesFromLeader] at h
  obtain ⟨ok, hok, h⟩ := Option.bind_eq_some_iff.mp h
  cases ok with
  | false =>
      simp only [Bool.false_eq_true, if_false, Option.some.injEq, Prod.mk.injEq] at h
      exact Or.inl ⟨h.1.symm, h.2.symm⟩
  | true =>
      simp only [if_true] at h
      obtain ⟨⟨z, rebuild⟩, hz, h⟩ := Option.bind_eq_some_iff.mp h
      simp only [Option.some.injEq, Prod.mk.injEq] at h
      exact Or.inr ⟨z, rebuild, h.2.symm, hok, hz, h.1.symm⟩

/-! ### Leaders -/

/-- Sending leaves role, peers and running as they are. -/
lemma turns_broadcast (hrole : x.role = .leader) (h : x.broadcastAppendEntries = some y) :
    Turns E F H C x y ∧ y.role = .leader ∧ y.running = x.running := by
  have hall : Turns E F H C x y ∧ y.role = .leader ∧ y.running = x.running ∧
      y.peers = x.peers := by
    refine broadcastAppendEntries_induct
      (I := fun z => Turns E F H C x z ∧ z.role = .leader ∧ z.running = x.running ∧
        z.peers = x.peers) ?_ ⟨Turns.refl x, hrole, rfl, rfl⟩ h
    rintro z z' peer hpeer ⟨hturns, hr, hrun, hp⟩ hz'
    have hturn : Turn E F H C z z' := Turn.send peer (Or.inr (hp ▸ hpeer)) hr hz'
    obtain ⟨m, -, rfl⟩ := sendAppendEntries_cases hz'
    exact ⟨hturns.trans hturn.turns, hr, hrun, hp⟩
  exact ⟨hall.1, hall.2.1, hall.2.2.1⟩

lemma turns_advance (hrun : x.running = true) (hrole : x.role = .leader)
    (h : x.advanceCommitIndex = some y) :
    Turns E F H C x y ∧ y.role = .leader ∧ y.running = true := by
  rcases advanceCommitIndex_cases h with rfl | ⟨i, hlt, hle, hterm, hcom, rfl⟩
  · exact ⟨Turns.refl y, hrole, hrun⟩
  · exact ⟨(Turn.advance i hrun hrole hlt hle hterm hcom).turns, hrole, hrun⟩

/-- **A client command.** -/
lemma turns_appendClientCommand {command : Command} (hrun : x.running = true)
    (hrole : x.role = .leader) (h : x.appendClientCommand command = some y) :
    Turns E F H C x y ∧ y.role = .leader ∧ y.running = true := by
  obtain ⟨z, hz, h⟩ := Option.bind_eq_some_iff.mp h
  obtain ⟨hturns, hr, hrun'⟩ := turns_advance (E := E) (F := F) (H := H) (C := C)
    (x := x.appendEntry command) hrun hrole hz
  obtain ⟨hturns', hr', hrun''⟩ := turns_broadcast (E := E) (F := F) (H := H) (C := C) hr h
  exact ⟨((Turn.append command hrun hrole).turns.trans hturns).trans hturns', hr',
    hrun''.trans hrun'⟩

/-! ### Answers and batches -/

/-- Backing off is bookkeeping. -/
lemma turns_backOff {peer : Str} (h : x.backOff peer = some y) :
    Turns E F H C x y ∧ y.role = x.role ∧ y.running = x.running := by
  obtain ⟨next, -, rfl⟩ := Option.map_eq_some_iff.mp h
  exact ⟨turns_of_core rfl rfl rfl rfl rfl, rfl, rfl⟩

lemma running_sendAppendEntries {peer : Str} (h : x.sendAppendEntries peer = some y) :
    y.running = x.running := by
  obtain ⟨m, -, rfl⟩ := sendAppendEntries_cases h
  rfl

lemma turns_takeAnswer (hrun : x.running = true) (hm : H m)
    (hkind : m.kind = .appendEntriesResponse) (h : x.takeAnswer m = some y) :
    Turns E F H C x y ∧ y.running = true := by
  rw [Node.takeAnswer] at h
  split at h
  · rw [Option.some.injEq] at h
    exact h ▸ ⟨Turns.refl x, hrun⟩
  · rename_i hcond
    simp only [not_or, not_not] at hcond
    obtain ⟨hrole, hterm⟩ := hcond
    split at h
    · rename_i hsuccess
      have hrecord : Turn E F H C x (x.recordMatch m) :=
        Turn.record m hrun hm hkind hrole hterm hsuccess
      obtain ⟨hadv, -, hrun'⟩ := turns_advance (E := E) (F := F) (H := H) (C := C)
        (x := x.recordMatch m) hrun hrole h
      exact ⟨hrecord.turns.trans hadv, hrun'⟩
    · obtain ⟨z, hz, h⟩ := Option.bind_eq_some_iff.mp h
      obtain ⟨hback, hr, hrun'⟩ := turns_backOff (E := E) (F := F) (H := H) (C := C) hz
      have hsend : Turn E F H C z y :=
        Turn.send m.source (Or.inl (hrun'.trans hrun)) (hr.trans hrole) h
      exact ⟨hback.trans hsend.turns, (running_sendAppendEntries h).trans (hrun'.trans hrun)⟩

lemma turns_handleAppendEntriesResponse (hrun : x.running = true) (hm : H m)
    (hkind : m.kind = .appendEntriesResponse) (h : x.handleAppendEntriesResponse m = some y) :
    Turns E F H C x y ∧ y.running = true := by
  obtain ⟨hturns, hrun'⟩ := turns_takeAnswer (E := E) (F := F) (C := C)
    ((running_handleTermUpdate x m).trans hrun) hm hkind h
  exact ⟨(turns_handleTermUpdate x m).trans hturns, hrun'⟩

lemma turns_takeBatch (hrun : x.running = true) (hm : H m) (hkind : m.kind = .appendEntries)
    (hrole : x.role = .follower)
    (hC : m.term = x.currentTerm → x.prevMatches m = some true → C x.log m)
    (h : x.takeBatch E F m = some y) : Turns E F H C x y := by
  have hrefuse : ∀ z : Node σ ν, Turn E F H C z (z.answerAppendEntries m false) :=
    fun z => Turn.refuse _ ⟨rfl, Or.inr rfl, rfl, rfl, rfl, rfl⟩
  rw [Node.takeBatch] at h
  split at h
  · rename_i hterm
    obtain ⟨⟨z, success⟩, hz, h⟩ := Option.bind_eq_some_iff.mp h
    rw [Option.some.injEq] at h
    subst h
    have hcontact : Turns E F H C x (Node.contact { x with leaderId := some m.source }) :=
      turns_of_core rfl rfl rfl rfl rfl
    refine hcontact.trans ?_
    rcases appendEntriesFromLeader_cases hz with ⟨rfl, rfl⟩ | ⟨w, rebuild, rfl, hprev, hw, rfl⟩
    · exact (hrefuse _).turns
    · exact (Turn.accept (x := Node.contact { x with leaderId := some m.source }) m rebuild hrun hm
        hkind hrole hterm hprev hw (hC hterm hprev)).turns
  · rw [Option.some.injEq] at h
    exact h ▸ (hrefuse x).turns

lemma turns_handleAppendEntries (hrun : x.running = true) (hm : H m)
    (hkind : m.kind = .appendEntries) (hrole : x.role = .follower)
    (hC : x.currentTerm ≤ m.term → x.prevMatches m = some true → C x.log m)
    (h : x.handleAppendEntries E F m = some y) : Turns E F H C x y := by
  refine (turns_handleTermUpdate x m).trans
    (turns_takeBatch ((running_handleTermUpdate x m).trans hrun) hm hkind
      (role_handleTermUpdate_follower m hrole) (fun hterm hprev => ?_) h)
  rw [log_handleTermUpdate]
  rw [prevMatches_handleTermUpdate] at hprev
  exact hC ((currentTerm_le_handleTermUpdate x m).trans hterm.ge) hprev

/-! ### Votes -/

lemma turns_answerRequestVote (hrun : x.running = true) (hm : H m)
    (hkind : m.kind = .requestVote) : Turns E F H C x (x.answerRequestVote m) := by
  cases hg : x.grantsVote m with
  | true => exact (Turn.grant m hrun hm hkind hg).turns
  | false =>
      rw [Node.answerRequestVote, hg]
      exact (Turn.refuse _ ⟨rfl, Or.inl rfl, rfl, rfl, rfl, rfl⟩).turns

lemma turns_handleRequestVote (hrun : x.running = true) (hm : H m) (hkind : m.kind = .requestVote) :
    Turns E F H C x (x.handleRequestVote m) :=
  (turns_handleTermUpdate x m).trans
    (turns_answerRequestVote ((running_handleTermUpdate x m).trans hrun) hm hkind)

lemma turns_collectVote (hrun : x.running = true) (hm : H m)
    (hkind : m.kind = .requestVoteResponse) : Turns E F H C x (x.collectVote m) := by
  rw [Node.collectVote]
  split
  · exact Turns.refl _
  · rename_i hcond
    simp only [not_or, not_not, Bool.not_eq_false] at hcond
    obtain ⟨-, hrole, hterm⟩ := hcond
    split
    · rename_i hgranted
      split
      · exact Turns.refl _
      · exact (Turn.collect m hrun hm hkind hrole hterm hgranted).turns
    · exact Turns.refl _

lemma turns_handleRequestVoteResponse (hrun : x.running = true) (hm : H m)
    (hkind : m.kind = .requestVoteResponse) :
    Turns E F H C x (x.handleRequestVoteResponse m) :=
  (turns_handleTermUpdate x m).trans
    (turns_collectVote ((running_handleTermUpdate x m).trans hrun) hm hkind)

/-! ### Phases -/

lemma Queued.snoc {kind : MessageKind} {q : List Message} (hrun : x.running = true) (hm : H m)
    (hkind : m.kind = kind) : Queued H x kind q (q ++ [m]) := by
  intro m' hm'
  rcases List.mem_append.mp hm' with hm' | hm'
  · exact Or.inl hm'
  · rw [List.mem_singleton] at hm'
    exact Or.inr ⟨hrun, hm' ▸ hm, hm' ▸ hkind⟩

/-- **A message is latched.** -/
lemma turns_latchMessage (hrun : x.running = true) (hm : H m) (h : x.latchMessage m = some y) :
    Turns E F H C x y ∧ y.running = true := by
  have htune : ∀ z : Node σ ν, some z = some y → Tuned H x z →
      Turns E F H C x y ∧ y.running = true := by
    intro z heq hz
    rw [Option.some.injEq] at heq
    exact heq ▸ ⟨(Turn.tune hz).turns, hz.running.trans hrun⟩
  rw [Node.latchMessage] at h
  cases hkind : m.kind with
  | requestVote =>
      rw [hkind] at h
      exact htune _ h ⟨rfl, id, Queued.refl, Queued.snoc hrun hm hkind, Queued.refl⟩
  | requestVoteResponse =>
      rw [hkind] at h
      exact htune _ h ⟨rfl, id, Queued.refl, Queued.refl, Queued.snoc hrun hm hkind⟩
  | appendEntries =>
      rw [hkind] at h
      exact htune _ h ⟨rfl, id, Queued.snoc hrun hm hkind, Queued.refl, Queued.refl⟩
  | appendEntriesResponse =>
      rw [hkind] at h
      exact turns_handleAppendEntriesResponse hrun hm hkind h
  | clientCommand =>
      rw [hkind] at h
      exact htune _ h ⟨rfl, id, Queued.refl, Queued.refl, Queued.refl⟩

/-- **The messages of a latch.** -/
lemma turns_latchMessages {ms : List Message} (hrun : x.running = true) (hms : ∀ m ∈ ms, H m)
    (h : ms.foldlM Node.latchMessage x = some y) : Turns E F H C x y ∧ y.running = true := by
  refine foldlM_invariant (I := fun z => Turns E F H C x z ∧ z.running = true) ?_
    ⟨Turns.refl x, hrun⟩ h
  rintro m hm z z' ⟨hturns, hz⟩ hz'
  obtain ⟨hturns', hrun'⟩ := turns_latchMessage (E := E) (F := F) (C := C) hz (hms m hm) hz'
  exact ⟨hturns.trans hturns', hrun'⟩

/-- **The commands of a latch.** -/
lemma turns_commands {cs : List Command} (hrun : x.running = true) (hrole : x.role = .leader)
    (h : cs.foldlM Node.appendClientCommand x = some y) :
    Turns E F H C x y ∧ y.role = .leader ∧ y.running = true := by
  refine foldlM_invariant
    (I := fun z => Turns E F H C x z ∧ z.role = .leader ∧ z.running = true) ?_
    ⟨Turns.refl x, hrole, hrun⟩ h
  rintro c - z z' ⟨hturns, hz, hrun'⟩ hz'
  obtain ⟨hturns', hr, hrun''⟩ :=
    turns_appendClientCommand (E := E) (F := F) (H := H) (C := C) hrun' hz hz'
  exact ⟨hturns.trans hturns', hr, hrun''⟩

/-- **A latch.** -/
theorem turns_latchInputs {ms : List Message} {cs : List Command} (hms : ∀ m ∈ ms, H m)
    (h : x.latchInputs ms cs = some y) : Turns E F H C x y := by
  rw [Node.latchInputs] at h
  split at h
  · rename_i hrun
    obtain ⟨z, hz, h⟩ := Option.bind_eq_some_iff.mp h
    obtain ⟨hturns, hrun'⟩ := turns_latchMessages (E := E) (F := F) (C := C) hrun hms hz
    split at h
    · rename_i hrole
      exact hturns.trans (turns_commands hrun' hrole h).1
    · rw [Option.some.injEq] at h
      exact h ▸ hturns
  · rw [Option.some.injEq] at h
    exact h ▸ Turns.refl x

/-! ### Numbered logs -/

/-- The entries of a log are numbered from its base. -/
def Numbered (base : ℤ) (L : List LogEntry) : Prop :=
  ∀ (k : ℕ) (e : LogEntry), L[k]? = some e → e.index = base + 1 + k

lemma numbered_nil (base : ℤ) : Numbered base [] := fun k e h => by simp at h

lemma Numbered.snoc {base : ℤ} {L : List LogEntry} (h : Numbered base L) {e : LogEntry}
    (he : e.index = base + L.length + 1) : Numbered base (L ++ [e]) := by
  intro k e' hk
  rcases lt_trichotomy k L.length with hlt | rfl | hlt
  · rw [List.getElem?_append_left hlt] at hk
    exact h k e' hk
  · rw [List.getElem?_append_right (le_refl _), Nat.sub_self, List.getElem?_cons_zero,
      Option.some.injEq] at hk
    rw [← hk, he]
    omega
  · rw [List.getElem?_eq_none (by rw [List.length_append, List.length_singleton]; omega)] at hk
    exact absurd hk (by simp)

lemma Numbered.take {base : ℤ} {L : List LogEntry} (h : Numbered base L) (n : ℕ) :
    Numbered base (L.take n) := by
  intro k e hk
  rw [List.getElem?_take] at hk
  split at hk
  · exact h k e hk
  · exact absurd hk (by simp)

lemma Numbered.drop {base : ℤ} {L : List LogEntry} (h : Numbered base L) (n : ℕ) :
    Numbered (base + n) (L.drop n) := by
  intro k e hk
  rw [List.getElem?_drop] at hk
  have hidx := h (n + k) e hk
  push_cast at hidx
  omega

/-! ### The log of a follower -/

/-- A node that differs in its log only, and may be unsaved now. -/
def Rewritten (x y : Node σ ν) : Prop :=
  ∃ L d, y = { x with log := L, persistDirty := d } ∧ (x.persistDirty = true → d = true)

lemma Rewritten.refl (x : Node σ ν) : Rewritten x x := ⟨x.log, x.persistDirty, rfl, id⟩

lemma Rewritten.trans (h : Rewritten x x') (h' : Rewritten x' y) : Rewritten x y := by
  obtain ⟨L, d, rfl, hd⟩ := h
  obtain ⟨L', d', rfl, hd'⟩ := h'
  exact ⟨L', d', rfl, fun h => hd' (hd h)⟩

lemma rewritten_appendIfNext (x : Node σ ν) (e : LogEntry) : Rewritten x (x.appendIfNext e) := by
  rw [Node.appendIfNext]
  split
  · exact ⟨_, true, rfl, fun _ => rfl⟩
  · exact Rewritten.refl x

lemma rewritten_truncate (x : Node σ ν) (i : ℤ) :
    Rewritten x { x.truncateLogSuffixFrom i with persistDirty := true } := by
  rw [Node.truncateLogSuffixFrom]
  split <;> exact ⟨_, true, rfl, fun _ => rfl⟩

/-- **One entry of a batch**: what is left alone, what is appended, what is cut. -/
lemma mergeEntry_cases {b b' : Bool} {e : LogEntry}
    (h : Node.mergeEntry (x, b) e = some (y, b')) :
    (y = x ∧ b' = b ∧ (e.index ≤ x.snapshotLastIncludedIndex ∨
      (x.hasLogIndex e.index = true ∧ x.conflicts e = some false))) ∨
    (y = x.appendIfNext e ∧ b' = b ∧ x.snapshotLastIncludedIndex < e.index ∧
      x.hasLogIndex e.index = false) ∨
    (x.snapshotLastIncludedIndex < e.index ∧ x.hasLogIndex e.index = true ∧
      x.conflicts e = some true ∧ b' = (b || decide (e.index ≤ x.lastApplied)) ∧
      y = Node.appendIfNext { x.truncateLogSuffixFrom e.index with persistDirty := true } e) := by
  rw [Node.mergeEntry] at h
  split at h
  · rename_i hsnap
    simp only [Option.some.injEq, Prod.mk.injEq] at h
    exact Or.inl ⟨h.1.symm, h.2.symm, Or.inl hsnap⟩
  · rename_i hsnap
    rw [not_le] at hsnap
    split at h
    · rename_i hhas
      obtain ⟨conflict, hc, h⟩ := Option.bind_eq_some_iff.mp h
      cases conflict with
      | true =>
          simp only [if_true, Option.some.injEq, Prod.mk.injEq] at h
          exact Or.inr (Or.inr ⟨hsnap, hhas, hc, h.2.symm, h.1.symm⟩)
      | false =>
          simp only [Bool.false_eq_true, if_false, Option.some.injEq, Prod.mk.injEq] at h
          exact Or.inl ⟨h.1.symm, h.2.symm, Or.inr ⟨hhas, hc⟩⟩
    · rename_i hhas
      simp only [Option.some.injEq, Prod.mk.injEq] at h
      exact Or.inr (Or.inl ⟨h.1.symm, h.2.symm, hsnap, by simpa using hhas⟩)

lemma rewritten_mergeEntry {b b' : Bool} {e : LogEntry}
    (h : Node.mergeEntry (x, b) e = some (y, b')) : Rewritten x y := by
  rcases mergeEntry_cases h with ⟨rfl, -⟩ | ⟨rfl, -⟩ | ⟨-, -, -, -, rfl⟩
  · exact Rewritten.refl y
  · exact rewritten_appendIfNext x e
  · exact (rewritten_truncate x e.index).trans (rewritten_appendIfNext _ e)

/-- **A batch changes the log only.** -/
lemma rewritten_mergeEntries {es : List LogEntry} {rebuild : Bool}
    (h : x.mergeEntries es = some (y, rebuild)) : Rewritten x y := by
  have hall : Rewritten x (y, rebuild).1 := by
    refine foldlM_invariant (I := fun r : Node σ ν × Bool => Rewritten x r.1) ?_
      (Rewritten.refl x) h
    rintro e - ⟨z, b⟩ ⟨z', b'⟩ hz hz'
    exact hz.trans (rewritten_mergeEntry hz')
  exact hall

/-- The commit index after a batch, with what belongs to it. -/
lemma settleCommit_eq (x : Node σ ν) (rebuild : Bool) (c : ℤ) : ∃ commit user applied d,
    x.settleCommit E F rebuild c =
      { x with commitIndex := commit, user := user, lastApplied := applied, persistDirty := d } ∧
    (x.persistDirty = true → d = true) ∧
    (commit = min c x.lastLogIndex ∨
      (commit = x.commitIndex ∧ commit ≤ x.lastLogIndex) ∨
      (commit = x.lastLogIndex ∧ x.lastLogIndex < x.commitIndex)) := by
  rw [Node.settleCommit]
  split_ifs with h1 h2 h3
  · exact ⟨_, _, _, true, rfl, fun _ => rfl, Or.inl rfl⟩
  · exact ⟨_, _, _, true, rfl, fun _ => rfl, Or.inl rfl⟩
  · exact ⟨_, _, _, true, rfl, fun _ => rfl, Or.inr (Or.inr ⟨rfl, h3⟩)⟩
  · exact ⟨_, _, _, x.persistDirty, rfl, id, Or.inr (Or.inl ⟨rfl, not_lt.mp h3⟩)⟩

/-! ### The transition -/

/-- The first enabled row is a row that is enabled. -/
lemma nextOf_spec {S α : Type} [DecidableEq S] {table : List (TransitionSpec σ ν S α)} {state : S}
    {t : TransitionSpec σ ν S α} (h : nextOf table state x = some t) :
    t ∈ table ∧ t.fromState = state ∧ t.guard x = true := by
  have hp := List.find?_some h
  simp only [Bool.and_eq_true, decide_eq_true_eq] at hp
  exact ⟨List.mem_of_find?_eq_some h, hp⟩

/-- Publishing the role a node has. -/
lemma publish_self {r : Role} (h : r = x.role) : { x with role := r } = x := by
  subst h
  rfl

/-- What is pending was heard, also after the role is published. -/
lemma Pending.publish (h : Pending H x) (r : Role) : Pending H { x with role := r } :=
  ⟨h.appends, h.requests, h.votes⟩

lemma Queued.mem {kind : MessageKind} {q : List Message} (h : Queued H x kind [] q) (hm : m ∈ q) :
    x.running = true ∧ H m ∧ m.kind = kind :=
  (h m hm).resolve_left List.not_mem_nil

lemma turns_handleNextAppendEntries (hp : Pending H x) (hrole : x.role = .follower)
    (hC : ∀ m ∈ x.pendingAppendEntries.head?,
      x.currentTerm ≤ m.term → x.prevMatches m = some true → C x.log m)
    (h : x.handleNextAppendEntries E F = some y) : Turns E F H C x y := by
  rw [Node.handleNextAppendEntries] at h
  split at h
  · rw [Option.some.injEq] at h
    exact h ▸ Turns.refl x
  · rename_i m rest hq
    obtain ⟨hrun, hm, hkind⟩ := hp.appends.mem (hq ▸ List.mem_cons_self)
    have hpop : Turn E F H C x { x with pendingAppendEntries := rest } :=
      Turn.tune ⟨rfl, id, hq ▸ Queued.tail m, Queued.refl, Queued.refl⟩
    exact hpop.turns.trans (turns_handleAppendEntries
      (x := { x with pendingAppendEntries := rest }) hrun hm hkind hrole (hC m (by rw [hq]; rfl)) h)

lemma turns_handleNextVoteRequest (hp : Pending H x) :
    Turns E F H C x x.handleNextVoteRequest := by
  rw [Node.handleNextVoteRequest]
  split
  · exact Turns.refl x
  · rename_i m rest hq
    obtain ⟨hrun, hm, hkind⟩ := hp.requests.mem (hq ▸ List.mem_cons_self)
    have hpop : Turn E F H C x { x with pendingVoteRequests := rest } :=
      Turn.tune ⟨rfl, id, Queued.refl, hq ▸ Queued.tail m, Queued.refl⟩
    exact hpop.turns.trans (turns_handleRequestVote
      (x := { x with pendingVoteRequests := rest }) hrun hm hkind)

/-- A vote leaves the queue. -/
lemma turns_popVote {rest : List Message} (hq : x.pendingVotes = m :: rest) :
    Turns E F H C x { x with pendingVotes := rest } := by
  have hpop : Turn E F H C x { x with pendingVotes := rest } :=
    Turn.tune ⟨rfl, id, Queued.refl, Queued.refl, hq ▸ Queued.tail m⟩
  exact hpop.turns

lemma turns_handleNextVote (hp : Pending H x) (h : x.handleNextVote = some y) :
    Turns E F H C x y := by
  rw [Node.handleNextVote] at h
  split at h
  · rw [Option.some.injEq] at h
    exact h ▸ Turns.refl x
  · rename_i m rest hq
    obtain ⟨hrun, hm, hkind⟩ := hp.votes.mem (hq ▸ List.mem_cons_self)
    rw [hkind, Option.some.injEq] at h
    exact h ▸ (turns_popVote hq).trans (turns_handleRequestVoteResponse
      (x := { x with pendingVotes := rest }) hrun hm hkind)

/-- The queue of votes holds votes only. -/
lemma turns_ignoreVote (hp : Pending H x) (h : x.ignoreVote = some y) : Turns E F H C x y := by
  rw [Node.ignoreVote] at h
  split at h
  · rw [Option.some.injEq] at h
    exact h ▸ Turns.refl x
  · rename_i m rest hq
    obtain ⟨-, -, hkind⟩ := hp.votes.mem (hq ▸ List.mem_cons_self)
    rw [if_neg (by rw [hkind]; decide), Option.some.injEq] at h
    exact h ▸ turns_popVote hq

/-- A broadcast and the next deadline. -/
lemma turns_heartbeat (hrole : x.role = .leader)
    (h : x.broadcastAppendEntries.map Node.scheduleHeartbeat = some y) :
    Turns E F H C x y := by
  obtain ⟨z, hz, rfl⟩ := Option.map_eq_some_iff.mp h
  exact (turns_broadcast hrole hz).1.trans (turns_of_core rfl rfl rfl rfl rfl)

/-- The transition takes the batch of the message and accepts it. -/
structure Node.Accepts (x : Node σ ν) (m : Message) : Prop where
  next : x.nextTransition.map TransitionSpec.action = some .handleNextAppendEntries
  head : m ∈ x.pendingAppendEntries.head?
  term : x.currentTerm ≤ m.term
  prev : x.prevMatches m = some true

instance (x : Node σ ν) (m : Message) : Decidable (x.Accepts m) :=
  decidable_of_iff (Option.map TransitionSpec.action x.nextTransition =
      some .handleNextAppendEntries ∧ m ∈ x.pendingAppendEntries.head? ∧ x.currentTerm ≤ m.term ∧
      x.prevMatches m = some true)
    ⟨fun h => ⟨h.1, h.2.1, h.2.2.1, h.2.2.2⟩, fun h => ⟨h.next, h.head, h.term, h.prev⟩⟩

/-- **A transition** takes up a candidacy, takes up the lead or is a sequence of turns. -/
theorem transition_cases (hp : Pending H x) (hC : ∀ m, x.Accepts m → C x.log m)
    (h : x.transition E F = some y) :
    Turns E F H C x y ∨
    (x.role = .follower ∧ x.isVotingMember = true ∧
      y = Node.becomeCandidate { x with role := .candidate }) ∨
    (x.role = .candidate ∧ x.receivedMajorityVotes = true ∧
      Turns E F H C (Node.lead { x with role := .leader }) y) := by
  rw [Node.transition] at h
  cases hnext : x.nextTransition with
  | none =>
      rw [hnext, Option.some.injEq] at h
      exact Or.inl (h ▸ Turns.refl x)
  | some t =>
      rw [hnext] at h
      obtain ⟨hmem, hfrom, hguard⟩ := nextOf_spec hnext
      have hrow : Node.perform E F { x with role := t.toState } t.action = some y := h
      have hself : t.toState = t.fromState → Node.perform E F x t.action = some y := by
        intro heq
        rw [publish_self (heq.trans hfrom)] at hrow
        exact hrow
      have hfollow : Turns E F H C x { x with role := .follower } := Turn.follow.turns
      have happend : Node.handleNextAppendEntries E F { x with role := .follower } = some y →
          t.action = .handleNextAppendEntries → Turns E F H C x y := fun hy hact =>
        hfollow.trans (turns_handleNextAppendEntries (hp.publish _) rfl
          (fun m hm ht hprev => hC m ⟨by rw [hnext, Option.map_some, hact], hm, ht, hprev⟩) hy)
      have hrequest : some (Node.handleNextVoteRequest { x with role := .follower }) = some y →
          Turns E F H C x y := fun hy =>
        Option.some.inj hy ▸ hfollow.trans (turns_handleNextVoteRequest (hp.publish _))
      have hkeep : some x.handleNextVoteRequest = some y → Turns E F H C x y := fun hy =>
        Option.some.inj hy ▸ turns_handleNextVoteRequest hp
      clear h hC hnext
      simp only [Node.roleTransitions, List.mem_cons, List.not_mem_nil, or_false] at hmem
      rcases hmem with rfl | rfl | rfl | rfl | rfl | rfl | rfl | rfl | rfl | rfl | rfl | rfl | rfl |
        rfl | rfl
      · -- the timeout of a follower
        simp only [Node.timeoutExpired, Bool.and_eq_true] at hguard
        exact Or.inr (Or.inl ⟨hfrom.symm, hguard.1.1, (Option.some.inj hrow).symm⟩)
      · exact Or.inl (happend hrow rfl)
      · exact Or.inl (hrequest hrow)
      · exact Or.inl (turns_ignoreVote hp (hself rfl))
      · -- the timeout of a candidate
        exact Or.inl (Option.some.inj hrow ▸ hfollow.trans (Turn.forget rfl).turns)
      · -- the election is won
        exact Or.inr (Or.inr ⟨hfrom.symm, hguard, turns_heartbeat rfl hrow⟩)
      · exact Or.inl (happend hrow rfl)
      · exact Or.inl (hrequest hrow)
      · exact Or.inl (hkeep (hself rfl))
      · exact Or.inl (turns_handleNextVote hp (hself rfl))
      · exact Or.inl (happend hrow rfl)
      · exact Or.inl (hrequest hrow)
      · exact Or.inl (hkeep (hself rfl))
      · exact Or.inl (turns_ignoreVote hp (hself rfl))
      · exact Or.inl (turns_heartbeat hfrom.symm (hself rfl))

/-! ### What is pending -/

/-- A change that keeps the queues or empties them. -/
lemma Pending.frame (h : Pending H x) (hrun : x.running = true → y.running = true)
    (ha : y.pendingAppendEntries = x.pendingAppendEntries)
    (hr : y.pendingVoteRequests = x.pendingVoteRequests) (hv : y.pendingVotes = x.pendingVotes) :
    Pending H y where
  appends := fun _ hm => Or.inr ((h.appends.mem (ha ▸ hm)).imp_left hrun)
  requests := fun _ hm => Or.inr ((h.requests.mem (hr ▸ hm)).imp_left hrun)
  votes := fun _ hm => Or.inr ((h.votes.mem (hv ▸ hm)).imp_left hrun)

lemma Pending.nil (ha : x.pendingAppendEntries = []) (hr : x.pendingVoteRequests = [])
    (hv : x.pendingVotes = []) : Pending H x := by
  refine ⟨?_, ?_, ?_⟩
  · rw [ha]
    exact Queued.nil
  · rw [hr]
    exact Queued.nil
  · rw [hv]
    exact Queued.nil

/-- A heard message of a queue stays heard. -/
lemma Queued.compose {kind : MessageKind} {q q' : List Message} (h : Queued H x kind [] q)
    (h' : Queued H x kind q q') (hrun : y.running = x.running) : Queued H y kind [] q' := by
  intro m hm
  rcases h' m hm with hm | hm
  · exact Or.inr (hrun ▸ h.mem hm)
  · exact Or.inr (hrun ▸ hm)

/-- **What is pending was heard**, also after a turn. -/
lemma Turn.pending (ht : Turn E F H C x y) (h : Pending H x) : Pending H y := by
  cases ht with
  | tune ht =>
      exact ⟨h.appends.compose ht.appends ht.running, h.requests.compose ht.requests ht.running,
        h.votes.compose ht.votes ht.running⟩
  | observe m hm =>
      rw [Node.handleTermUpdate, if_pos hm]
      exact h.frame id rfl rfl rfl
  | follow => exact h.frame id rfl rfl rfl
  | forget => exact h.frame id rfl rfl rfl
  | grant m _ _ _ hg =>
      rw [Node.answerRequestVote, hg]
      exact h.frame id rfl rfl rfl
  | refuse => exact h.frame id rfl rfl rfl
  | collect => exact h.frame id rfl rfl rfl
  | append => exact h.frame id rfl rfl rfl
  | send peer _ _ hsend =>
      obtain ⟨m, -, rfl⟩ := sendAppendEntries_cases hsend
      exact h.frame id rfl rfl rfl
  | record => exact h.frame id rfl rfl rfl
  | advance => exact h.frame id rfl rfl rfl
  | accept m rebuild _ _ _ _ _ _ hmerge _ =>
      obtain ⟨L, d, rfl, -⟩ := rewritten_mergeEntries hmerge
      obtain ⟨commit, user, applied, d', heq, -⟩ := settleCommit_eq (E := E) (F := F)
        { x with log := L, persistDirty := d } rebuild m.leaderCommit
      rw [Node.answerAppendEntries, heq]
      exact h.frame id rfl rfl rfl

lemma Turns.pending (ht : Turns E F H C x y) (h : Pending H x) : Pending H y := by
  induction ht with
  | refl => exact h
  | tail _ hturn ih => exact hturn.pending ih

/-! ### Applying -/

/-- What applying a command never touches; it may stop the node. -/
structure Kept (x y : Node σ ν) : Prop where
  config : y.config = x.config
  currentTerm : y.currentTerm = x.currentTerm
  votedFor : y.votedFor = x.votedFor
  log : y.log = x.log
  snapshotIndex : y.snapshotLastIncludedIndex = x.snapshotLastIncludedIndex
  commitIndex : y.commitIndex = x.commitIndex
  target : y.compactionTargetIndex = x.compactionTargetIndex
  outbox : y.outbox = x.outbox ∨ y.outbox = []
  machines : (y.running = x.running ∧ y.compactionState = x.compactionState ∧
      y.pendingAppendEntries = x.pendingAppendEntries ∧
      y.pendingVoteRequests = x.pendingVoteRequests ∧ y.pendingVotes = x.pendingVotes) ∨
    (y.compactionState = .idle ∧ y.pendingAppendEntries = [] ∧ y.pendingVoteRequests = [] ∧
      y.pendingVotes = [])

/-- A change of bookkeeping by the apply loop. -/
structure Marked (x y : Node σ ν) : Prop where
  core : y.core = x.core
  dirty : x.persistDirty = true → y.persistDirty = true
  appends : y.pendingAppendEntries = x.pendingAppendEntries
  requests : y.pendingVoteRequests = x.pendingVoteRequests
  votes : y.pendingVotes = x.pendingVotes

lemma Marked.refl (x : Node σ ν) : Marked x x := ⟨rfl, id, rfl, rfl, rfl⟩

lemma Marked.trans (h : Marked x x') (h' : Marked x' y) : Marked x y :=
  ⟨h'.core.trans h.core, fun hd => h'.dirty (h.dirty hd), h'.appends.trans h.appends,
    h'.requests.trans h.requests, h'.votes.trans h.votes⟩

lemma Kept.refl (x : Node σ ν) : Kept x x :=
  ⟨rfl, rfl, rfl, rfl, rfl, rfl, rfl, Or.inl rfl, Or.inl ⟨rfl, rfl, rfl, rfl, rfl⟩⟩

lemma Kept.trans (h : Kept x x') (h' : Kept x' y) : Kept x y where
  config := h'.config.trans h.config
  currentTerm := h'.currentTerm.trans h.currentTerm
  votedFor := h'.votedFor.trans h.votedFor
  log := h'.log.trans h.log
  snapshotIndex := h'.snapshotIndex.trans h.snapshotIndex
  commitIndex := h'.commitIndex.trans h.commitIndex
  target := h'.target.trans h.target
  outbox := h'.outbox.elim (fun heq => h.outbox.imp heq.trans heq.trans) Or.inr
  machines := by
    rcases h'.machines with ⟨hr', hc', ha', hq', hv'⟩ | hstop
    · rcases h.machines with ⟨hr, hc, ha, hq, hv⟩ | ⟨hc, ha, hq, hv⟩
      · exact Or.inl ⟨hr'.trans hr, hc'.trans hc, ha'.trans ha, hq'.trans hq, hv'.trans hv⟩
      · exact Or.inr ⟨hc'.trans hc, ha'.trans ha, hq'.trans hq, hv'.trans hv⟩
    · exact Or.inr hstop

lemma Kept.pending (h : Kept x y) (hx : Pending H x) : Pending H y := by
  rcases h.machines with ⟨hr, -, ha, hq, hv⟩ | ⟨-, ha, hq, hv⟩
  · exact hx.frame (fun h => hr.trans h) ha hq hv
  · exact Pending.nil ha hq hv

/-- A command changes the configuration to one of a later index, or bookkeeping only. -/
def Reconfigures (x y : Node σ ν) : Prop :=
  Marked x y ∨ x.configState.index < y.configState.index

lemma applyEnterJoint_cases {command : Command} (h : x.applyEnterJoint E command = some y) :
    Kept x y ∧ Reconfigures x y ∧ y.lastApplied = x.lastApplied := by
  obtain ⟨encoded, -, h⟩ := Option.bind_eq_some_iff.mp h
  obtain ⟨target, -, h⟩ := Option.bind_eq_some_iff.mp h
  split at h
  · rw [Option.some.injEq] at h
    exact h ▸ ⟨Kept.refl x, Or.inl (Marked.refl x), rfl⟩
  · rename_i hidx
    rw [Option.some.injEq] at h
    subst h
    exact ⟨⟨rfl, rfl, rfl, rfl, rfl, rfl, rfl, Or.inl rfl, Or.inl ⟨rfl, rfl, rfl, rfl, rfl⟩⟩,
      Or.inr (not_le.mp hidx), rfl⟩

lemma applyLeaveJoint_cases {command : Command} (h : x.applyLeaveJoint E command = some y) :
    Kept x y ∧ Reconfigures x y ∧ y.lastApplied = x.lastApplied := by
  obtain ⟨encoded, -, h⟩ := Option.bind_eq_some_iff.mp h
  obtain ⟨target, -, h⟩ := Option.bind_eq_some_iff.mp h
  split at h
  · rw [Option.some.injEq] at h
    exact h ▸ ⟨Kept.refl x, Or.inl (Marked.refl x), rfl⟩
  · rename_i hidx
    rw [Option.some.injEq] at h
    subst h
    split
    · exact ⟨⟨rfl, rfl, rfl, rfl, rfl, rfl, rfl, Or.inr rfl, Or.inr ⟨rfl, rfl, rfl, rfl⟩⟩,
        Or.inr (not_le.mp hidx), rfl⟩
    · exact ⟨⟨rfl, rfl, rfl, rfl, rfl, rfl, rfl, Or.inl rfl, Or.inl ⟨rfl, rfl, rfl, rfl, rfl⟩⟩,
        Or.inr (not_le.mp hidx), rfl⟩

/-- **One command.** -/
lemma applyCommittedCommand_cases {command : Command}
    (h : x.applyCommittedCommand E command = some y) :
    Kept x y ∧ Reconfigures x y ∧ y.lastApplied = x.lastApplied := by
  rw [Node.applyCommittedCommand] at h
  split_ifs at h
  · obtain ⟨value, -, h⟩ := Option.bind_eq_some_iff.mp h
    obtain ⟨threshold, -, h⟩ := Option.bind_eq_some_iff.mp h
    rw [Option.some.injEq] at h
    subst h
    exact ⟨⟨rfl, rfl, rfl, rfl, rfl, rfl, rfl, Or.inl rfl, Or.inl ⟨rfl, rfl, rfl, rfl, rfl⟩⟩,
      Or.inl ⟨rfl, fun _ => rfl, rfl, rfl, rfl⟩, rfl⟩
  · exact applyEnterJoint_cases h
  · exact applyLeaveJoint_cases h
  · obtain ⟨user, -, rfl⟩ := Option.map_eq_some_iff.mp h
    exact ⟨⟨rfl, rfl, rfl, rfl, rfl, rfl, rfl, Or.inl rfl, Or.inl ⟨rfl, rfl, rfl, rfl, rfl⟩⟩,
      Or.inl ⟨rfl, id, rfl, rfl, rfl⟩, rfl⟩

/-- **The apply loop.** -/
lemma applyAll_cases : ∀ {k : ℕ} {x : Node σ ν}, (Node.applyAll E k x).2 = some y →
    Kept x y ∧ Reconfigures x y
  | 0, x, h => by
      rw [Node.applyAll, Option.some.injEq] at h
      exact h ▸ ⟨Kept.refl x, Or.inl (Marked.refl x)⟩
  | k + 1, x, h => by
      rw [Node.applyAll] at h
      split at h
      · dsimp only at h
        split at h
        · exact absurd h (by simp)
        · split at h
          · exact absurd h (by simp)
          · rename_i z hz
            obtain ⟨hkept, hrec, -⟩ := applyCommittedCommand_cases hz
            obtain ⟨hkept', hrec'⟩ := applyAll_cases h
            have hnext : Kept x z :=
              ⟨hkept.config, hkept.currentTerm, hkept.votedFor, hkept.log, hkept.snapshotIndex,
                hkept.commitIndex, hkept.target, hkept.outbox, hkept.machines⟩
            refine ⟨hnext.trans hkept', ?_⟩
            rcases hrec with hrec | hrec
            · have hmark : Marked x z :=
                ⟨hrec.core, hrec.dirty, hrec.appends, hrec.requests, hrec.votes⟩
              rcases hrec' with hrec' | hrec'
              · exact Or.inl (hmark.trans hrec')
              · refine Or.inr ?_
                rw [← show z.configState = x.configState from congrArg Core.configState hmark.core]
                exact hrec'
            · refine Or.inr ?_
              rcases hrec' with hrec' | hrec'
              · rw [show y.configState = z.configState from congrArg Core.configState hrec'.core]
                exact hrec
              · exact lt_trans hrec hrec'
      · rw [Option.some.injEq] at h
        exact h ▸ ⟨Kept.refl x, Or.inl (Marked.refl x)⟩

/-- A stopped node dumps nothing. -/
lemma dumpOutputs_stopped (h : x.running = false) :
    x.dumpOutputs E = { writes := [], applied := [], sends := [], node := some x } := by
  rw [Node.dumpOutputs, if_neg (by rw [h]; simp)]

lemma dumpOutputs_running (h : x.running = true) :
    x.dumpOutputs E =
      { writes := if x.persistDirty then x.save else []
        applied := (Node.applyAll E x.rounds x.saved).1
        sends := ((Node.applyAll E x.rounds x.saved).2.map Node.outbox).getD []
        node := (Node.applyAll E x.rounds x.saved).2.map fun y => { y with outbox := [] } } := by
  rw [Node.dumpOutputs, if_pos h]

/-- **A dump**: the node after the apply loop, with an empty outbox. -/
lemma dumpOutputs_cases (h : (x.dumpOutputs E).node = some y) :
    (x.running = false ∧ y = x ∧ (x.dumpOutputs E).writes = [] ∧ (x.dumpOutputs E).sends = []) ∨
    (x.running = true ∧ ∃ z, (Node.applyAll E x.rounds x.saved).2 = some z ∧
      y = { z with outbox := [] } ∧ (x.dumpOutputs E).sends = z.outbox ∧
      (x.dumpOutputs E).writes = if x.persistDirty then x.save else []) := by
  cases hrun : x.running with
  | false =>
      rw [dumpOutputs_stopped hrun] at h ⊢
      exact Or.inl ⟨rfl, (Option.some.inj h).symm, rfl, rfl⟩
  | true =>
      rw [dumpOutputs_running hrun] at h ⊢
      obtain ⟨z, hz, rfl⟩ := Option.map_eq_some_iff.mp h
      refine Or.inr ⟨rfl, z, hz, rfl, ?_, rfl⟩
      show ((Node.applyAll E x.rounds x.saved).2.map Node.outbox).getD [] = z.outbox
      rw [hz]
      rfl

lemma kept_dumpOutputs (h : (x.dumpOutputs E).node = some y) : Kept x y := by
  rcases dumpOutputs_cases h with ⟨-, rfl, -⟩ | ⟨-, z, hz, rfl, -⟩
  · exact Kept.refl y
  · obtain ⟨hk, -⟩ := applyAll_cases hz
    exact ⟨hk.config, hk.currentTerm, hk.votedFor, hk.log, hk.snapshotIndex, hk.commitIndex,
      hk.target, Or.inr rfl, hk.machines⟩

/-! ### The other machines -/

/-- The compaction machine leaves the queues alone. -/
lemma pending_compactionTransition {writes : List (Write ν)} (h : Pending H x)
    (hy : x.compactionTransition E = some (y, writes)) : Pending H y := by
  rw [Node.compactionTransition] at hy
  split at hy
  · simp only [Option.some.injEq, Prod.mk.injEq] at hy
    exact hy.1 ▸ h
  · dsimp only at hy
    split at hy
    · simp only [Option.some.injEq, Prod.mk.injEq] at hy
      exact hy.1 ▸ h.frame id rfl rfl rfl
    · simp only [Option.map_eq_some_iff, Prod.mk.injEq] at hy
      obtain ⟨z, hz, rfl, -⟩ := hy
      obtain ⟨term, -, hz⟩ := Option.bind_eq_some_iff.mp hz
      rw [Option.some.injEq] at hz
      exact hz ▸ h.frame id rfl rfl rfl
    · simp only [Option.some.injEq, Prod.mk.injEq] at hy
      rw [← hy.1, Node.finishCompaction, Node.truncateLogPrefixThrough]
      split_ifs <;> exact h.frame id rfl rfl rfl

lemma pending_appendClientCommand {command : Command} (h : Pending H x)
    (hy : x.appendClientCommand command = some y) : Pending H y := by
  obtain ⟨z, hz, hy⟩ := Option.bind_eq_some_iff.mp hy
  have hzp : Pending H z := by
    rcases advanceCommitIndex_cases hz with rfl | ⟨i, -, -, -, -, rfl⟩ <;>
      exact h.frame id rfl rfl rfl
  refine broadcastAppendEntries_induct (I := Pending H) ?_ hzp hy
  intro w w' peer _ hw hw'
  obtain ⟨m, -, rfl⟩ := sendAppendEntries_cases hw'
  exact hw.frame id rfl rfl rfl

/-- The bookkeeping of the membership machine, which may also clear the outbox. -/
structure Noted (x y : Node σ ν) : Prop where
  core : { y.core with outbox := x.outbox } = x.core
  appends : y.pendingAppendEntries = x.pendingAppendEntries
  requests : y.pendingVoteRequests = x.pendingVoteRequests
  votes : y.pendingVotes = x.pendingVotes

/-- **A move of the membership machine** is bookkeeping, or appends a command after it. -/
lemma membershipTransition_cases (h : x.membershipTransition E = some y) :
    Noted x y ∨ ∃ z command, z.appendClientCommand command = some y ∧ Noted x z := by
  rw [Node.membershipTransition] at h
  split at h
  · exact Or.inl (Option.some.inj h ▸ ⟨rfl, rfl, rfl, rfl⟩)
  · dsimp only at h
    split at h
    · rw [Node.beginMembershipChange] at h
      split at h
      · exact Or.inl (Option.some.inj h ▸ ⟨rfl, rfl, rfl, rfl⟩)
      · exact Or.inr ⟨_, _, h, ⟨rfl, rfl, rfl, rfl⟩⟩
    · exact Or.inl (Option.some.inj h ▸ ⟨rfl, rfl, rfl, rfl⟩)
    · rw [Node.appendFinalConfig] at h
      split at h
      · exact Or.inl (Option.some.inj h ▸ ⟨rfl, rfl, rfl, rfl⟩)
      · exact Or.inr ⟨_, _, h, ⟨rfl, rfl, rfl, rfl⟩⟩
    · exact Or.inl (Option.some.inj h ▸ ⟨rfl, rfl, rfl, rfl⟩)

lemma Noted.pending (h : Noted x y) (hx : Pending H x) : Pending H y :=
  hx.frame (fun hr => (congrArg Core.running h.core).trans hr) h.appends h.requests h.votes

/-- So does the membership machine. -/
lemma pending_membershipTransition (h : Pending H x) (hy : x.membershipTransition E = some y) :
    Pending H y := by
  rcases membershipTransition_cases hy with hn | ⟨z, command, hy, hn⟩
  · exact hn.pending h
  · exact pending_appendClientCommand (hn.pending h) hy

end RaftRx.Python
