import RaftRx.Python.Turns
import RaftRx.Protocol.Local

/-!
The Python node as a server of the protocol.

* `Node.view`: the server a node is, given what its files say (`Stored`) and whether a candidacy
  may still be missing there;
* `NodeOk`: what holds of a node between any two elementary changes: its configuration is the
  common one and pending messages were sent to it; `Good` adds what the study of logs needs;
* `At`, `Reach`: the node is the server of an abstract state, and it can become another node by
  local moves;
* `merge_mergeEntries`: the merge loop is a merge in the sense of the protocol;
* `reach_turn`, `reach_turns`: every elementary change is a sequence of local moves;
* `reach_transition`: the transition.
-/

namespace RaftRx.Python

open Protocol

variable {σ ν : Type} {E : Env σ ν} {F : Disk ν}

/-! ### Nodes as servers -/

/-- What a message promises; refusals and commands promise nothing. -/
def Message.promise (m : Message) : Option (Msg Str ℤ LogEntry) :=
  match m.kind with
  | .requestVote =>
      some (.voteReq m.source m.target m.term m.lastLogIndex.toNat m.lastLogTerm)
  | .requestVoteResponse => if m.granted then some (.grant m.source m.target m.term) else none
  | .appendEntries =>
      some (.append m.source m.target m.term m.prevLogIndex.toNat m.prevLogTerm m.entries
        m.leaderCommit.toNat)
  | .appendEntriesResponse =>
      if m.success then some (.ack m.source m.target m.term m.matchIndex.toNat) else none
  | .clientCommand => none

/-- The message announces no ballot. -/
def Message.NoBallot (m : Message) : Prop := ∀ p, m.promise = some p → p.ballot = none

/-- What the files say about term, vote and log. -/
structure Stored where
  term : ℤ
  vote : Option Str
  log : List LogEntry

/-- What the files of a disk say. -/
def Disk.stored (disk : Disk ν) : Stored :=
  { term := disk.load.currentTerm, vote := disk.load.votedFor, log := disk.load.log }

/-- The match index of another node; the own one is not read. -/
def Node.matched (x : Node σ ν) (p : Str) : ℕ :=
  if p = x.config.nodeId then 0 else ((x.matchIndex.get p).getD 0).toNat

/-- The server of the protocol a node is. -/
def Node.view (x : Node σ ν) (st : Stored) (u : Bool) : Server Str ℤ LogEntry :=
  { term := x.currentTerm
    vote := x.votedFor
    role := x.role
    votes := {v | v ∈ x.votesReceived}
    log := x.log
    matched := x.matched
    commit := x.commitIndex.toNat
    outbox := x.outbox.filterMap Message.promise
    dirty := x.persistDirty
    unsettled := u
    stableTerm := st.term
    stableVote := st.vote
    stableLog := st.log }

/-- The entries of a Python log, as the protocol reads them. -/
def params (members : List Str) : Params Str ℤ LogEntry :=
  { members := members, termOf := LogEntry.term, indexOf := LogEntry.index }

/-! ### Nodes between changes -/

/-- A message as nodes send it: no index is negative. -/
structure Message.Sane (m : Message) : Prop where
  prev : 0 ≤ m.prevLogIndex
  commit : 0 ≤ m.leaderCommit
  index : m.success = true → 0 ≤ m.matchIndex

/-- A message that was handed to the transport for `n`. -/
structure Hears (mode : Mode) (S : Set (Msg Str ℤ LogEntry)) (n : Str) (m : Message) : Prop where
  target : m.target = n
  sent : ∀ p, m.promise = some p → p ∈ S
  sane : mode.keepsLogs → m.Sane

/-- What the study of logs needs: nothing is compacted and no index is negative. -/
structure Good (x : Node σ ν) : Prop where
  snapIndex : x.snapshotLastIncludedIndex = 0
  snapTerm : x.snapshotLastIncludedTerm = 0
  commit_nonneg : 0 ≤ x.commitIndex
  queued : ∀ m ∈ x.outbox, m.Sane

/-- **What holds of a node between any two changes.** -/
structure NodeOk (members : List Str) (mode : Mode) (S : Set (Msg Str ℤ LogEntry)) (n : Str)
    (x : Node σ ν) : Prop where
  nodeId : x.config.nodeId = n
  start : ClusterConfiguration.normalizeMembers x.config.startMembers = members
  old : x.configState.oldMembers = members
  new : x.configState.newMembers = none
  member : x.role ≠ .follower → n ∈ members
  pending : Pending (Hears mode S n) x
  good : mode.keepsLogs → Good x

variable {members : List Str} {mode : Mode} {S : Set (Msg Str ℤ LogEntry)} {n : Str} {st : Stored}
  {u : Bool} {a a' : State Str ℤ LogEntry} {x x' y : Node σ ν} {m : Message}
  {C : List LogEntry → Message → Prop}

/-- A turn keeps the program's configuration, the members and the running flag; a role is kept or
given up. -/
lemma Turn.kept {H : Message → Prop} (ht : Turn E F H C x y) : y.config = x.config ∧
    y.configState = x.configState ∧ y.running = x.running ∧
    (y.role = x.role ∨ y.role = .follower) ∧
    y.snapshotLastIncludedIndex = x.snapshotLastIncludedIndex ∧
    y.snapshotLastIncludedTerm = x.snapshotLastIncludedTerm := by
  cases ht with
  | tune ht =>
      exact ⟨ht.config, ht.configState, ht.running, Or.inl ht.role, ht.snapshotIndex,
        ht.snapshotTerm⟩
  | observe m hm =>
      rw [Node.handleTermUpdate, if_pos hm]
      exact ⟨rfl, rfl, rfl, Or.inr rfl, rfl, rfl⟩
  | follow => exact ⟨rfl, rfl, rfl, Or.inr rfl, rfl, rfl⟩
  | forget => exact ⟨rfl, rfl, rfl, Or.inl rfl, rfl, rfl⟩
  | grant m _ _ _ hg =>
      rw [Node.answerRequestVote, hg]
      exact ⟨rfl, rfl, rfl, Or.inl rfl, rfl, rfl⟩
  | refuse => exact ⟨rfl, rfl, rfl, Or.inl rfl, rfl, rfl⟩
  | collect => exact ⟨rfl, rfl, rfl, Or.inl rfl, rfl, rfl⟩
  | append => exact ⟨rfl, rfl, rfl, Or.inl rfl, rfl, rfl⟩
  | send peer _ _ hsend =>
      obtain ⟨m, -, rfl⟩ := sendAppendEntries_cases hsend
      exact ⟨rfl, rfl, rfl, Or.inl rfl, rfl, rfl⟩
  | record => exact ⟨rfl, rfl, rfl, Or.inl rfl, rfl, rfl⟩
  | advance => exact ⟨rfl, rfl, rfl, Or.inl rfl, rfl, rfl⟩
  | accept m rebuild _ _ _ _ _ _ hmerge _ =>
      obtain ⟨L, d, rfl, -⟩ := rewritten_mergeEntries hmerge
      obtain ⟨commit, user, applied, d', heq, -⟩ := settleCommit_eq (E := E) (F := F)
        { x with log := L, persistDirty := d } rebuild m.leaderCommit
      rw [Node.answerAppendEntries, heq]
      exact ⟨rfl, rfl, rfl, Or.inl rfl, rfl, rfl⟩

lemma Turns.running {H : Message → Prop} (ht : Turns E F H C x y) : y.running = x.running := by
  induction ht with
  | refl => rfl
  | tail _ hturn ih => exact hturn.kept.2.2.1.trans ih

lemma Message.Sane.mk_of_eq_zero (hp : m.prevLogIndex = 0) (hc : m.leaderCommit = 0)
    (hs : m.success = true → 0 ≤ m.matchIndex) : m.Sane :=
  ⟨hp.ge, hc.ge, hs⟩

/-- Queued messages stay sane when one is added. -/
lemma sane_append (h : ∀ m ∈ x.outbox, m.Sane) (hm : m.Sane) :
    ∀ m' ∈ x.outbox ++ [m], m'.Sane := by
  intro m' hm'
  cases List.mem_append.mp hm' with
  | inl hm' => exact h m' hm'
  | inr hm' => exact List.mem_singleton.mp hm' ▸ hm

lemma Good.lastLogIndex (g : Good x) : x.lastLogIndex = x.log.length := by
  rw [Node.lastLogIndex, g.snapIndex, zero_add]

lemma Good.lastLogTerm (g : Good x) : x.lastLogTerm = lastTerm LogEntry.term x.log := by
  rw [Node.lastLogTerm, lastTerm]
  cases x.log.getLast? with
  | none => exact g.snapTerm
  | some e => rfl

/-- **A turn keeps what the study of logs needs.** -/
lemma Good.turn (g : Good x) (hk : mode.keepsLogs) (ht : Turn E F (Hears mode S n) C x y) :
    Good y := by
  obtain ⟨-, -, -, -, hi, hterm⟩ := ht.kept
  refine ⟨hi.trans g.snapIndex, hterm.trans g.snapTerm, ?_, ?_⟩
  · cases ht with
    | tune ht => exact ht.commitIndex ▸ g.commit_nonneg
    | observe m hm =>
        rw [Node.handleTermUpdate, if_pos hm]
        exact g.commit_nonneg
    | grant m _ _ _ hg =>
        rw [Node.answerRequestVote, hg]
        exact g.commit_nonneg
    | send peer _ _ hsend =>
        obtain ⟨m, -, rfl⟩ := sendAppendEntries_cases hsend
        exact g.commit_nonneg
    | advance k _ _ hlt => exact g.commit_nonneg.trans hlt.le
    | accept m rebuild _ hm _ _ _ _ hmerge _ =>
        obtain ⟨L, d, rfl, -⟩ := rewritten_mergeEntries hmerge
        obtain ⟨commit, user, applied, d', heq, -, hcommit⟩ := settleCommit_eq (E := E) (F := F)
          { x with log := L, persistDirty := d } rebuild m.leaderCommit
        rw [Node.answerAppendEntries, heq]
        have hlast : 0 ≤ Node.lastLogIndex { x with log := L, persistDirty := d } := by
          rw [Node.lastLogIndex]
          simp only [g.snapIndex]
          omega
        have hlead := (hm.sane hk).commit
        have hcom := g.commit_nonneg
        show 0 ≤ commit
        rcases hcommit with hc | ⟨hc, -⟩ | ⟨hc, -⟩
        · rw [hc]
          exact le_min hlead hlast
        · rw [hc]
          exact hcom
        · rw [hc]
          exact hlast
    | _ => exact g.commit_nonneg
  · have hq := g.queued
    cases ht with
    | tune ht => exact ht.outbox ▸ hq
    | observe m hm =>
        rw [Node.handleTermUpdate, if_pos hm]
        exact hq
    | grant m _ _ _ hg =>
        rw [Node.answerRequestVote, hg]
        exact sane_append hq (Message.Sane.mk_of_eq_zero rfl rfl fun h => absurd h (by simp))
    | refuse m hm =>
        refine sane_append hq (Message.Sane.mk_of_eq_zero hm.prev hm.commit fun h => ?_)
        rw [hm.success] at h
        exact absurd h (by simp)
    | send peer _ _ hsend =>
        obtain ⟨m, hm, rfl⟩ := sendAppendEntries_cases hsend
        refine sane_append hq ⟨?_, ?_, fun _ => hm.index.ge⟩
        · have := hm.prev
          rw [g.snapIndex] at this
          exact this
        · rw [hm.commit]
          exact g.commit_nonneg
    | accept m rebuild _ _ _ _ _ _ hmerge _ =>
        obtain ⟨L, d, rfl, -⟩ := rewritten_mergeEntries hmerge
        obtain ⟨commit, user, applied, d', heq, -⟩ := settleCommit_eq (E := E) (F := F)
          { x with log := L, persistDirty := d } rebuild m.leaderCommit
        rw [Node.answerAppendEntries, heq]
        refine sane_append hq (Message.Sane.mk_of_eq_zero rfl rfl fun _ => ?_)
        simp only [Node.lastLogIndex, g.snapIndex]
        omega
    | _ => exact hq

/-- **A turn keeps the node in order.** -/
lemma NodeOk.turn (h : NodeOk members mode S n x) (ht : Turn E F (Hears mode S n) C x y) :
    NodeOk members mode S n y := by
  obtain ⟨hc, hcs, -, hr, -⟩ := ht.kept
  refine ⟨hc ▸ h.nodeId, hc ▸ h.start, hcs ▸ h.old, hcs ▸ h.new, fun hy => ?_, ht.pending h.pending,
    fun hk => (h.good hk).turn hk ht⟩
  cases hr with
  | inl hr => exact h.member (hr ▸ hy)
  | inr hr => exact absurd hr hy

/-! ### Reaching a node by local moves -/

/-- The node is the server `n` of the abstract state. -/
structure At (members : List Str) (mode : Mode) (S : Set (Msg Str ℤ LogEntry)) (n : Str)
    (st : Stored) (u : Bool) (a : State Str ℤ LogEntry) (x : Node σ ν) : Prop where
  inv : ModeInv (params members) mode a
  sent : a.sent = S
  srv : a.srv n = x.view st u
  ok : NodeOk members mode S n x

/-- Local moves lead to a state whose server `n` is the node. -/
def Reach (members : List Str) (mode : Mode) (S : Set (Msg Str ℤ LogEntry)) (n : Str)
    (st : Stored) (u : Bool) (a : State Str ℤ LogEntry) (x : Node σ ν) : Prop :=
  ∃ a', Local (params members) mode n a a' ∧ At members mode S n st u a' x

lemma At.reach {st' : Stored} {u' : Bool} (h : At members mode S n st u a x)
    (hm : Moves (params members) mode a n (y.view st' u')) (hok : NodeOk members mode S n y) :
    Reach members mode S n st' u' a y := by
  obtain ⟨a', hl, hx⟩ := hm
  exact ⟨a', hl, hl.inv h.inv, hl.sent.trans h.sent, hx, hok⟩

lemma At.self (h : At members mode S n st u a x) : Reach members mode S n st u a x :=
  ⟨a, Local.refl a, h⟩

/-- A change that the protocol does not see. -/
lemma At.same (h : At members mode S n st u a x) (hv : y.view st u = x.view st u)
    (hok : NodeOk members mode S n y) : At members mode S n st u a y :=
  ⟨h.inv, h.sent, h.srv.trans hv.symm, hok⟩

lemma Reach.bind {st' : Stored} {u' : Bool} (h : Reach members mode S n st u a x)
    (h' : ∀ a', Local (params members) mode n a a' → At members mode S n st u a' x →
      Reach members mode S n st' u' a' y) : Reach members mode S n st' u' a y := by
  obtain ⟨a', hl, hat⟩ := h
  obtain ⟨a'', hl', hat'⟩ := h' a' hl hat
  exact ⟨a'', hl.trans hl', hat'⟩

/-- A change of the log and of what is read from it only. -/
structure Logged (x y : Node σ ν) : Prop where
  term : y.currentTerm = x.currentTerm
  vote : y.votedFor = x.votedFor
  role : y.role = x.role
  votes : y.votesReceived = x.votesReceived
  dirty : x.persistDirty = true → y.persistDirty = true
  queued : ∃ ms, y.outbox = x.outbox ++ ms ∧ ∀ m ∈ ms, m.NoBallot

/-- **Changes of the log** are free in the modes that do not keep logs. -/
lemma reach_of_logged (hk : ¬ mode.keepsLogs) (h : At members mode S n st u a x)
    (hl : Logged x y) (hok : NodeOk members mode S n y) : Reach members mode S n st u a y := by
  obtain ⟨ms, hms, hno⟩ := hl.queued
  have hview : y.view st u =
      { x.view st u with
        log := y.log, matched := y.matched, commit := y.commitIndex.toNat
        outbox := (x.view st u).outbox ++ ms.filterMap Message.promise
        dirty := y.persistDirty } := by
    simp only [Node.view, hl.term, hl.vote, hl.role, hl.votes, hms, List.filterMap_append]
  have hballot : ∀ p ∈ ms.filterMap Message.promise, p.ballot = none := by
    intro p hp
    obtain ⟨m, hm, hpm⟩ := List.mem_filterMap.mp hp
    exact hno m hm p hpm
  refine h.reach ?_ hok
  rw [hview]
  exact moves_havocLog h.srv y.log y.matched y.commitIndex.toNat hk hballot hl.dirty

/-- What a message promises is queued behind the rest. -/
lemma view_outbox (st : Stored) (u : Bool) (y : Node σ ν) (m : Message) :
    Node.view { y with outbox := y.outbox ++ [m] } st u =
      { y.view st u with outbox := (y.view st u).outbox ++ m.promise.toList } := by
  simp only [Node.view, List.filterMap_append, List.filterMap_cons, List.filterMap_nil]
  cases m.promise <;> rfl

lemma noBallot_of_appendEntries (h : m.kind = .appendEntries) : m.NoBallot := by
  intro p hp
  rw [Message.promise, h] at hp
  exact Option.some.inj hp ▸ rfl

lemma noBallot_of_appendEntriesResponse (h : m.kind = .appendEntriesResponse) : m.NoBallot := by
  intro p hp
  rw [Message.promise, h] at hp
  dsimp only at hp
  split at hp
  · exact Option.some.inj hp ▸ rfl
  · exact absurd hp (by simp)

/-! ### Reading a log without a snapshot -/

/-- The term at an index that is inside the log is the protocol's. -/
lemma Good.termAtIndex_eq_some (g : Good x) {i t : ℤ} (hi : 0 ≤ i)
    (h : x.termAtIndex i = some t) :
    i.toNat ≤ x.log.length ∧ termAt LogEntry.term x.log i.toNat = t := by
  rw [Node.termAtIndex] at h
  split at h
  · rename_i hzero
    rw [Option.some.injEq] at h
    subst hzero
    exact ⟨Nat.zero_le _, h⟩
  · rename_i hzero
    rw [if_neg (by rw [g.snapIndex]; exact hzero)] at h
    obtain ⟨e, he, rfl⟩ := Option.map_eq_some_iff.mp h
    rw [Node.entryAtIndex, Node.physicalIndex, Node.logBaseIndex, g.snapIndex,
      item_of_nonneg (by omega), show (i - (0 + 1)).toNat = i.toNat - 1 by omega] at he
    have hlt := (List.getElem?_eq_some_iff.mp he).1
    refine ⟨by omega, ?_⟩
    rw [termAt, if_neg (by omega), he]
    rfl

/-- What follows an index of the log. -/
lemma Good.entriesFrom_eq (g : Good x) {i : ℤ} (hi : 0 ≤ i) :
    x.entriesFrom (i + 1) <+: x.log.drop i.toNat := by
  rw [Node.entriesFrom]
  split
  · exact List.nil_prefix
  · rw [Node.physicalIndex, Node.logBaseIndex, g.snapIndex, sliceFrom_of_nonneg (by omega),
      show (i + 1 - (0 + 1)).toNat = i.toNat by omega]

/-- The voter's comparison is the protocol's. -/
lemma Good.upToDate (g : Good x) (h : x.candidateIsUpToDate m = true) :
    UpToDate LogEntry.term m.lastLogIndex.toNat m.lastLogTerm x.log := by
  rw [Node.candidateIsUpToDate, g.lastLogTerm, g.lastLogIndex] at h
  split at h
  · rw [decide_eq_true_eq] at h
    exact Or.inl h
  · rename_i heq
    rw [decide_eq_true_eq] at h
    exact Or.inr ⟨not_not.mp heq, by omega⟩

/-- The count of `_replicated_on_members` is a majority in the sense of the protocol. -/
lemma majority_of_replicatedOnMembers (st : Stored) (u : Bool) {k : ℕ}
    (hn : x.config.nodeId = n) {ms : List Str}
    (h : x.replicatedOnMembers k ms = true) :
    Majority ms {p | p = n ∨ (p ≠ n ∧ k ≤ (x.view st u).matched p)} := by
  rw [Node.replicatedOnMembers, decide_eq_true_eq, Node.majority] at h
  refine majority_of_countP h fun p _ hp => ?_
  by_cases hpn : p = n
  · exact Or.inl hpn
  · refine Or.inr ⟨hpn, ?_⟩
    rw [hn, if_neg hpn, decide_eq_true_eq] at hp
    show k ≤ x.matched p
    rw [Node.matched, hn, if_neg hpn]
    omega

/-! ### The merge loop -/

/-- An entry of a batch clashes with the entry a log has at its index. -/
def clashes (e' e : LogEntry) : Bool :=
  decide (e'.term ≠ e.term) || (decide (e.leaderId ≠ []) && decide (e'.leaderId ≠ e.leaderId))

lemma term_eq_of_clashes {e' e : LogEntry} (h : clashes e' e = false) : e'.term = e.term := by
  rw [clashes, Bool.or_eq_false_iff, decide_eq_false_iff_not, not_not] at h
  exact h.1

lemma ne_of_clashes {e' e : LogEntry} (h : clashes e' e = true) : e' ≠ e := by
  rintro rfl
  simp [clashes] at h

lemma hasLogIndex_eq (hs : x.snapshotLastIncludedIndex = 0) {i : ℕ} {e : LogEntry}
    (he : e.index = i + 1) : x.hasLogIndex e.index = decide (i < x.log.length) := by
  rw [Node.hasLogIndex, Node.logBaseIndex, Node.lastLogIndex, hs, he, Bool.eq_iff_iff,
    Bool.and_eq_true, decide_eq_true_eq, decide_eq_true_eq, decide_eq_true_eq]
  omega

lemma entryAtIndex_eq (hs : x.snapshotLastIncludedIndex = 0) (i : ℕ) :
    x.entryAtIndex (i + 1) = x.log[i]? := by
  rw [Node.entryAtIndex, Node.physicalIndex, Node.logBaseIndex, hs,
    show (i : ℤ) + 1 - (0 + 1) = i by omega, item_natCast]

/-- **The test of the loop** compares the two entries. -/
lemma conflicts_eq (hs : x.snapshotLastIncludedIndex = 0) {i : ℕ} {e e' : LogEntry}
    (he : e.index = i + 1) (hi : x.log[i]? = some e') : x.conflicts e = some (clashes e' e) := by
  have hlt := (List.getElem?_eq_some_iff.mp hi).1
  have hhas : x.hasLogIndex e.index = true := by
    rw [hasLogIndex_eq hs he, decide_eq_true_eq]
    exact hlt
  have hterm : x.termAtIndex e.index = some e'.term := by
    rw [Node.termAtIndex, if_neg (by omega), if_neg (by omega), he, entryAtIndex_eq hs, hi]
    rfl
  have hlead : x.leaderAtIndex e.index = some e'.leaderId := by
    rw [Node.leaderAtIndex, if_neg (by rw [hhas]; simp; omega), he, entryAtIndex_eq hs, hi]
    rfl
  rw [Node.conflicts, hterm, hlead, clashes]
  by_cases ht : e'.term = e.term
  · by_cases hl : e.leaderId = [] <;> simp [ht, hl]
  · simp [ht]

lemma Numbered.head {base : ℤ} {e : LogEntry} {es : List LogEntry} (h : Numbered base (e :: es)) :
    e.index = base + 1 := by
  have := h 0 e rfl
  simpa using this

lemma Numbered.tail {base : ℤ} {e : LogEntry} {es : List LogEntry} (h : Numbered base (e :: es)) :
    Numbered (base + 1) es := by
  intro k e' he'
  have := h (k + 1) e' he'
  push_cast at this
  omega

/-- An entry that is next is appended. -/
lemma log_appendIfNext (hs : x.snapshotLastIncludedIndex = 0) {e : LogEntry}
    (he : e.index = x.log.length + 1) : (x.appendIfNext e).log = x.log ++ [e] := by
  rw [Node.appendIfNext, if_pos (by rw [Node.lastLogIndex, hs, he]; ring)]

/-- **One entry of a batch** that starts inside the log or right behind it. -/
lemma mergeEntry_overlay {b b' : Bool} {i : ℕ} {e : LogEntry}
    (hs : x.snapshotLastIncludedIndex = 0) (he : e.index = i + 1) (hi : i ≤ x.log.length)
    (h : Node.mergeEntry (x, b) e = some (y, b')) :
    y.snapshotLastIncludedIndex = 0 ∧
      ((∃ e', x.log[i]? = some e' ∧ clashes e' e = false ∧ y.log = x.log) ∨
        ((x.log[i]? = none ∨ ∃ e', x.log[i]? = some e' ∧ clashes e' e = true) ∧
          y.log = x.log.take i ++ [e])) := by
  have hrew : y.snapshotLastIncludedIndex = 0 := by
    obtain ⟨L, d, rfl, -⟩ := rewritten_mergeEntry h
    exact hs
  refine ⟨hrew, ?_⟩
  have hhas := hasLogIndex_eq hs he
  rcases mergeEntry_cases h with ⟨rfl, -, hkeep⟩ | ⟨rfl, -, -, hnone⟩ | ⟨-, hin, hc, -, rfl⟩
  · rcases hkeep with hkeep | ⟨hin, hc⟩
    · omega
    · rw [hhas, decide_eq_true_eq] at hin
      have hget : y.log[i]? = some y.log[i] := List.getElem?_eq_getElem hin
      rw [conflicts_eq hs he hget, Option.some.injEq] at hc
      exact Or.inl ⟨_, hget, hc, rfl⟩
  · rw [hhas, decide_eq_false_iff_not] at hnone
    have hlen : i = x.log.length := by omega
    refine Or.inr ⟨Or.inl (List.getElem?_eq_none (by omega)), ?_⟩
    rw [log_appendIfNext hs (by rw [he, hlen]), hlen, List.take_length]
  · rw [hhas, decide_eq_true_eq] at hin
    have hget : x.log[i]? = some x.log[i] := List.getElem?_eq_getElem hin
    rw [conflicts_eq hs he hget, Option.some.injEq] at hc
    refine Or.inr ⟨Or.inr ⟨_, hget, hc⟩, ?_⟩
    have hcut : ({ x.truncateLogSuffixFrom e.index with persistDirty := true } : Node σ ν) =
        { x with log := x.log.take i, persistDirty := true } := by
      rw [Node.truncateLogSuffixFrom, if_neg (by omega), Node.physicalIndex, Node.logBaseIndex, hs,
        he, sliceTo_of_nonneg (by omega), show ((i : ℤ) + 1 - (0 + 1)).toNat = i by omega]
    rw [hcut]
    refine log_appendIfNext (x := { x with log := x.log.take i, persistDirty := true }) hs ?_
    rw [he, List.length_take_of_le hi]

/-- **The merge loop** writes the batch over the log. -/
theorem mergeEntries_overlay (es : List LogEntry) : ∀ {x y : Node σ ν} {b b' : Bool} {i : ℕ},
    x.snapshotLastIncludedIndex = 0 → Numbered i es → i ≤ x.log.length →
    es.foldlM Node.mergeEntry (x, b) = some (y, b') →
      y.log = x.log.take i ++ overlay clashes (x.log.drop i) es := by
  induction es with
  | nil =>
      intro x y b b' i _ _ _ h
      rw [List.foldlM_nil, Option.pure_def, Option.some.injEq, Prod.mk.injEq] at h
      rw [overlay_nil_right, List.take_append_drop, h.1]
  | cons e es ih =>
      intro x y b b' i hs hnum hi h
      rw [List.foldlM_cons] at h
      obtain ⟨⟨z, b₁⟩, hz, h⟩ := Option.bind_eq_some_iff.mp h
      obtain ⟨hsz, hcase⟩ := mergeEntry_overlay hs hnum.head hi hz
      rcases hcase with ⟨e', hget, hc, hlog⟩ | ⟨hget, hlog⟩
      · -- the entry is in the log already
        have hlt := (List.getElem?_eq_some_iff.mp hget).1
        have hrest := ih (i := i + 1) hsz (by push_cast; exact hnum.tail) (by rw [hlog]; omega) h
        rw [hrest, hlog, List.take_add_one, hget, List.drop_eq_getElem_cons hlt,
          (List.getElem?_eq_some_iff.mp hget).2, overlay, hc]
        simp
      · -- from here on the batch is taken
        have hlen : z.log.length = i + 1 := by
          rw [hlog, List.length_append, List.length_take_of_le hi, List.length_singleton]
        have hrest := ih (i := i + 1) hsz (by push_cast; exact hnum.tail) hlen.ge h
        have hover : overlay clashes (x.log.drop i) (e :: es) = e :: es := by
          rcases hget with hget | ⟨e', hget, hc⟩
          · rw [List.getElem?_eq_none_iff] at hget
            rw [List.drop_eq_nil_of_le hget, overlay_nil_left]
          · have hlt := (List.getElem?_eq_some_iff.mp hget).1
            rw [List.drop_eq_getElem_cons hlt, (List.getElem?_eq_some_iff.mp hget).2, overlay, hc]
            rfl
        rw [hrest, hover, List.take_of_length_le hlen.le, List.drop_eq_nil_of_le hlen.le,
          overlay_nil_left, hlog]
        simp

/-- **The merge loop is a merge** in the sense of the protocol. -/
theorem merge_mergeEntries {es : List LogEntry} {i : ℕ} {rebuild : Bool}
    (hs : x.snapshotLastIncludedIndex = 0) (hnum : Numbered i es) (hi : i ≤ x.log.length)
    (h : x.mergeEntries es = some (y, rebuild)) : Merge LogEntry.term x.log i es y.log := by
  have hlog := mergeEntries_overlay es hs hnum hi h
  have hterm : ∀ e e', clashes e e' = false → e.term = e'.term := fun _ _ => term_eq_of_clashes
  have hne : ∀ e e', clashes e e' = true → e ≠ e' := fun _ _ => ne_of_clashes
  have hmerge : Merge LogEntry.term x.log i es
      ((x.log.take i ++ overlay clashes (x.log.drop i) es).take
        (max x.log.length y.log.length)) :=
    merge_of_overlay hterm hne hi (le_max_left x.log.length y.log.length)
  rw [← hlog, List.take_of_length_le (le_max_right _ _)] at hmerge
  exact hmerge

/-! ### Elementary changes as moves -/

/-- A batch that the protocol finds covered, whatever its receiver does before it takes it. -/
def BatchCovered (members : List Str) (mode : Mode) (n : Str) (a : State Str ℤ LogEntry)
    (L : List LogEntry) (m : Message) : Prop :=
  mode = .commits → ∀ a' L', Local (params members) mode n a a' →
    Merge LogEntry.term L m.prevLogIndex.toNat m.entries L' →
    Covered (params members) a' m.source m.term (m.prevLogIndex.toNat + m.entries.length) L'

/-- Seeing a higher term gives the role up. -/
lemma reach_observe (h : At members mode S n st u a x) (hm : x.currentTerm < m.term)
    (hok : NodeOk members mode S n (x.handleTermUpdate m)) :
    Reach members mode S n st u a (x.handleTermUpdate m) := by
  refine h.reach ?_ hok
  rw [Node.handleTermUpdate, if_pos hm]
  have hseen : Moves (params members) mode a n
      { x.view st u with term := m.term, vote := none, role := .follower, dirty := true } :=
    moves_observe h.srv hm
  refine hseen.bind fun a' _ hy => ?_
  have hview : Node.view (Node.stepDownToFollower
      { x with currentTerm := m.term, votedFor := none, leaderId := none, persistDirty := true })
      st u =
      { ({ x.view st u with
            term := m.term, vote := none, role := .follower, dirty := true } :
            Server Str ℤ LogEntry) with votes := {v | v ∈ ([] : List Str)} } := rfl
  rw [hview]
  exact moves_clear hy _ _ (fun hr => absurd hr (by simp)) fun hr => absurd hr (by simp)

/-- A vote is given. -/
lemma reach_grant (h : At members mode S n st u a x) (hh : Hears mode S n m)
    (hkind : m.kind = .requestVote) (hg : x.grantsVote m = true)
    (hok : NodeOk members mode S n (x.answerRequestVote m)) :
    Reach members mode S n st u a (x.answerRequestVote m) := by
  refine h.reach ?_ hok
  have htest := hg
  simp only [Node.grantsVote, Bool.and_eq_true, decide_eq_true_eq] at htest
  obtain ⟨⟨⟨-, hterm⟩, hvote⟩, hup⟩ := htest
  have hheard : Heard mode a
      (.voteReq m.source n (x.view st u).term m.lastLogIndex.toNat m.lastLogTerm) := by
    intro _
    rw [h.sent]
    refine hh.sent _ ?_
    rw [Message.promise, hkind, hh.target, hterm]
    rfl
  have hmove := moves_grant (P := params members) h.srv hheard hvote fun hk =>
    (h.ok.good hk).upToDate hup
  refine hmove.bind fun a' _ hy => Moves.refl (hy.trans ?_)
  rw [Node.answerRequestVote, hg]
  refine Eq.symm ((view_outbox st u
    (Node.contact { x with votedFor := some m.source, persistDirty := true }) _).trans ?_)
  rw [← h.ok.nodeId]
  rfl

/-- A vote is counted. -/
lemma reach_collect (h : At members mode S n st u a x) (hh : Hears mode S n m)
    (hkind : m.kind = .requestVoteResponse) (hr : x.role = .candidate)
    (hterm : m.term = x.currentTerm) (hgranted : m.granted = true)
    (hok : NodeOk members mode S n { x with votesReceived := x.votesReceived ++ [m.source] }) :
    Reach members mode S n st u a { x with votesReceived := x.votesReceived ++ [m.source] } := by
  refine h.reach ?_ hok
  have hheard : Heard mode a (.grant m.source n (x.view st u).term) := by
    intro _
    rw [h.sent]
    refine hh.sent _ ?_
    rw [Message.promise, hkind, hh.target, hterm, hgranted]
    rfl
  refine (moves_collect h.srv hr hheard).bind fun a' _ hy => Moves.refl (hy.trans ?_)
  have hvotes : {v | v ∈ x.votesReceived ++ [m.source]} =
      insert m.source {v | v ∈ x.votesReceived} := by
    ext v
    simp [or_comm]
  rw [Node.view, Node.view, hvotes]
  rfl

/-- A match index is set; the own one is not read. -/
lemma matched_set {q : Str} {k : ℤ} (hc : y.config = x.config)
    (hm : y.matchIndex = x.matchIndex.set q k) : y.matched =
      if q = x.config.nodeId then x.matched else Function.update x.matched q k.toNat := by
  funext p
  rw [Node.matched, hc, hm, Dict.get_set]
  by_cases hq : q = x.config.nodeId
  · rw [if_pos hq, Node.matched]
    by_cases hp : p = x.config.nodeId
    · rw [if_pos hp, if_pos hp]
    · rw [if_neg hp, if_neg hp, if_neg fun h => hp (h.trans hq)]
  · rw [if_neg hq]
    by_cases hp : p = q
    · rw [hp, if_neg hq, if_pos rfl, Function.update_self]
      rfl
    · rw [if_neg hp, Function.update_of_ne hp, Node.matched]

/-- A client's entry is appended. -/
lemma reach_append (h : At members mode S n st u a x) (hr : x.role = .leader) (command : Command)
    (hok : NodeOk members mode S n (x.appendEntry command)) :
    Reach members mode S n st u a (x.appendEntry command) := by
  by_cases hk : mode.keepsLogs
  · refine h.reach ?_ hok
    have g := h.ok.good hk
    refine (moves_append (e := (x.appendEntry command).log.getLast
      (by simp [Node.appendEntry])) h.srv hr ?_ ?_).bind fun a' _ hy => Moves.refl (hy.trans ?_)
    · simp [Node.appendEntry, params, Node.view]
    · simp [Node.appendEntry, params, Node.view, g.lastLogIndex]
    · have hmatched : (x.appendEntry command).matched = x.matched :=
        (matched_set (x := x) (y := x.appendEntry command) rfl rfl).trans (if_pos rfl)
      rw [Node.view, Node.view, hmatched]
      simp [Node.appendEntry]
  · exact reach_of_logged hk h ⟨rfl, rfl, rfl, rfl, fun _ => rfl, [], (List.append_nil _).symm,
      fun _ hm => absurd hm List.not_mem_nil⟩ hok

/-- A slice of the leader's log is sent. -/
lemma reach_send {peer : Str} (h : At members mode S n st u a x) (hr : x.role = .leader)
    (hs : Slice x peer m) (hok : NodeOk members mode S n { x with outbox := x.outbox ++ [m] }) :
    Reach members mode S n st u a { x with outbox := x.outbox ++ [m] } := by
  by_cases hk : mode.keepsLogs
  · refine h.reach ?_ hok
    have g := h.ok.good hk
    have hprev := hs.prev
    rw [g.snapIndex] at hprev
    obtain ⟨hle, hterm⟩ := g.termAtIndex_eq_some hprev hs.prevTerm
    have hmove : Moves (params members) mode a n _ :=
      moves_send (p := peer) h.srv hr hle (hs.entries ▸ g.entriesFrom_eq hprev) le_rfl
    refine hmove.bind fun a' _ hy => Moves.refl (hy.trans ?_)
    rw [view_outbox, Message.promise, hs.kind]
    dsimp only
    rw [hs.source, hs.target, hs.term, hs.commit, h.ok.nodeId, ← hterm]
    rfl
  · exact reach_of_logged hk h ⟨rfl, rfl, rfl, rfl, id, [m], rfl, fun m' hm' =>
      List.mem_singleton.mp hm' ▸ noBallot_of_appendEntries hs.kind⟩ hok

/-- An acknowledgement is recorded. -/
lemma reach_record (h : At members mode S n st u a x) (hh : Hears mode S n m)
    (hkind : m.kind = .appendEntriesResponse) (hr : x.role = .leader)
    (hterm : m.term = x.currentTerm) (hsuccess : m.success = true)
    (hok : NodeOk members mode S n (x.recordMatch m)) :
    Reach members mode S n st u a (x.recordMatch m) := by
  by_cases hk : mode.keepsLogs
  · refine h.reach ?_ hok
    by_cases hself : m.source = n
    · -- the own match index is not read
      refine Moves.refl (h.srv.trans ?_)
      have hmatched : (x.recordMatch m).matched = x.matched :=
        (matched_set (x := x) (y := x.recordMatch m) rfl rfl).trans (if_pos (hself.trans h.ok.nodeId.symm))
      rw [Node.view, Node.view, hmatched]
      rfl
    · have hheard : Heard mode a (.ack m.source n (x.view st u).term m.matchIndex.toNat) := by
        intro _
        rw [h.sent]
        refine hh.sent _ ?_
        rw [Message.promise, hkind, hh.target, hterm, hsuccess]
        rfl
      refine (moves_record h.srv hr hheard).bind fun a' _ hy => Moves.refl (hy.trans ?_)
      have hmatched : (x.recordMatch m).matched =
          Function.update x.matched m.source m.matchIndex.toNat :=
        (matched_set (x := x) (y := x.recordMatch m) rfl rfl).trans
          (if_neg fun heq => hself (heq.trans h.ok.nodeId))
      rw [Node.view, Node.view, hmatched]
      rfl
  · exact reach_of_logged hk h ⟨rfl, rfl, rfl, rfl, id, [], (List.append_nil _).symm,
      fun _ hm => absurd hm List.not_mem_nil⟩ hok

/-- The test of `_advance_commit_index` is a quorum in the sense of the protocol. -/
lemma At.counted {k : ℤ} (h : At members mode S n st u a x) (hk : mode.keepsLogs)
    (hlt : x.commitIndex < k) (hterm : x.termAtIndex k = some x.currentTerm)
    (hcom : x.isCommittedUnderCurrentConfiguration k = true) :
    0 < k.toNat ∧ k.toNat ≤ x.log.length ∧
      termAt LogEntry.term x.log k.toNat = x.currentTerm ∧
      Majority members {p | p = n ∨ (p ≠ n ∧ k.toNat ≤ (x.view st u).matched p)} := by
  have g := h.ok.good hk
  have hpos : 0 < k := lt_of_le_of_lt g.commit_nonneg hlt
  obtain ⟨hle, hat⟩ := g.termAtIndex_eq_some hpos.le hterm
  rw [Node.isCommittedUnderCurrentConfiguration, Bool.and_eq_true, h.ok.old] at hcom
  have hcount : x.replicatedOnMembers (k.toNat : ℤ) members = true := by
    rw [Int.toNat_of_nonneg hpos.le]
    exact hcom.1
  have hpos' : 0 < k.toNat := by omega
  exact ⟨hpos', hle, hat, majority_of_replicatedOnMembers st u h.ok.nodeId hcount⟩

/-- The commit index is raised. -/
lemma reach_advance {k : ℤ} (h : At members mode S n st u a x) (hr : x.role = .leader)
    (hlt : x.commitIndex < k) (hterm : x.termAtIndex k = some x.currentTerm)
    (hcom : x.isCommittedUnderCurrentConfiguration k = true)
    (hok : NodeOk members mode S n { x with commitIndex := k, persistDirty := true }) :
    Reach members mode S n st u a { x with commitIndex := k, persistDirty := true } := by
  by_cases hk : mode.keepsLogs
  · refine h.reach ?_ hok
    obtain ⟨hpos, hle, hat, hmaj⟩ := h.counted hk hlt hterm hcom
    exact moves_advance h.srv hr hpos hle hat hmaj
  · exact reach_of_logged hk h ⟨rfl, rfl, rfl, rfl, fun _ => rfl, [], (List.append_nil _).symm,
      fun _ hm => absurd hm List.not_mem_nil⟩ hok

/-- The entry before the batch is in the log, with its term. -/
lemma Good.prevMatches (g : Good x) (hprev : 0 ≤ m.prevLogIndex)
    (h : x.prevMatches m = some true) : m.prevLogIndex.toNat ≤ x.log.length ∧
      (0 < m.prevLogIndex → termAt LogEntry.term x.log m.prevLogIndex.toNat = m.prevLogTerm) := by
  rw [Node.prevMatches] at h
  split at h
  · exact absurd h (by simp)
  · rename_i hlast
    rw [g.lastLogIndex] at hlast
    refine ⟨by omega, fun hpos => ?_⟩
    split at h
    · exact absurd h (by simp)
    · obtain ⟨term, hterm, h⟩ := Option.bind_eq_some_iff.mp h
      split at h
      · exact absurd h (by simp)
      · rename_i heq
        exact (g.termAtIndex_eq_some hprev hterm).2.trans (not_not.mp heq)

/-- A batch that was sent is numbered from its first index on. -/
lemma BatchOk.numbered {P : History Str ℤ LogEntry} {t pt : ℤ} {prev : ℕ} {es : List LogEntry}
    (hok : LeadersOk (params members) P) (hb : BatchOk (params members) P t prev pt es) :
    Numbered prev es := by
  intro k e he
  have hidx := hok.index t _ e (hb.getElem? he)
  push_cast at hidx
  calc e.index = (prev : ℤ) + k + 1 := hidx
    _ = prev + 1 + k := by ring

/-- A batch is taken. -/
lemma reach_accept {rebuild : Bool} (h : At members mode S n st u a x) (hh : Hears mode S n m)
    (hkind : m.kind = .appendEntries) (hr : x.role = .follower) (hterm : m.term = x.currentTerm)
    (hprev : x.prevMatches m = some true) (hmerge : x.mergeEntries m.entries = some (y, rebuild))
    (hcov : BatchCovered members mode n a x.log m)
    (hok : NodeOk members mode S n
      ((y.settleCommit E F rebuild m.leaderCommit).answerAppendEntries m true)) :
    Reach members mode S n st u a
      ((y.settleCommit E F rebuild m.leaderCommit).answerAppendEntries m true) := by
  have hrew := rewritten_mergeEntries hmerge
  obtain ⟨L, d, rfl, hd⟩ := hrew
  obtain ⟨commit, user, applied, d', heq, hd', hcommit⟩ := settleCommit_eq (E := E) (F := F)
    { x with log := L, persistDirty := d } rebuild m.leaderCommit
  rw [Node.answerAppendEntries, heq] at hok ⊢
  by_cases hk : mode.keepsLogs
  · have g := h.ok.good hk
    have hsane := hh.sane hk
    have hlogs := h.inv.logs hk
    have hpromise : m.promise = some (.append m.source n x.currentTerm m.prevLogIndex.toNat
        m.prevLogTerm m.entries m.leaderCommit.toNat) := by
      rw [Message.promise, hkind, hh.target, hterm]
    have hsent := hh.sent _ hpromise
    have hbatch : BatchOk (params members) a.hist x.currentTerm m.prevLogIndex.toNat m.prevLogTerm
        m.entries := by
      rw [← h.sent] at hsent
      exact hlogs.sent _ hsent
    obtain ⟨hle, hpt⟩ := g.prevMatches hsane.prev hprev
    have hpt' : termAt LogEntry.term x.log m.prevLogIndex.toNat = m.prevLogTerm := by
      cases hsane.prev.lt_or_eq with
      | inl hpos => exact hpt hpos
      | inr hzero =>
          have hz : m.prevLogIndex.toNat = 0 := by omega
          rw [hbatch.2.1, hz]
          rfl
    have hmerged : Merge LogEntry.term x.log m.prevLogIndex.toNat m.entries L :=
      merge_mergeEntries g.snapIndex (BatchOk.numbered hlogs.leaders hbatch) hle hmerge
    have hlast : Node.lastLogIndex { x with log := L, persistDirty := d } = L.length := by
      rw [Node.lastLogIndex]
      simp only [g.snapIndex, zero_add]
    rw [hlast] at hcommit
    have hlead := hsane.commit
    have hcom := g.commit_nonneg
    simp only at hcommit
    have hcL : commit.toNat ≤ L.length := by
      rcases hcommit with hc | ⟨-, hc⟩ | ⟨hc, -⟩ <;> omega
    have hc : commit.toNat ≤ max (x.view st u).commit m.leaderCommit.toNat := by
      show commit.toNat ≤ max x.commitIndex.toNat m.leaderCommit.toNat
      rcases hcommit with hc | ⟨hc, -⟩ | ⟨hc, hlt⟩ <;> omega
    refine h.reach ?_ hok
    have hmove := moves_accept (P := params members) (d := d') h.srv
      (fun _ => by rw [h.sent]; exact hsent) hr hle hpt' hmerged hcL hc (fun hx => hd' (hd hx))
      fun hmode => hterm ▸ hcov hmode a L (Local.refl a) hmerged
    refine hmove.bind fun a' _ hy => Moves.refl (hy.trans ?_)
    refine Eq.symm ((view_outbox st u
      { x with
        log := L, commitIndex := commit, user := user, lastApplied := applied
        persistDirty := d' } _).trans ?_)
    have hlen : Node.lastLogIndex
        { x with
          log := L, commitIndex := commit, user := user, lastApplied := applied
          persistDirty := d' } = L.length := hlast
    rw [hlen, Message.promise]
    simp only [if_true, Int.toNat_natCast, h.ok.nodeId]
    rfl
  · refine reach_of_logged hk h ⟨rfl, rfl, rfl, rfl, fun hx => hd' (hd hx), [_], rfl,
      fun m' hm' => List.mem_singleton.mp hm' ▸ ?_⟩ hok
    exact noBallot_of_appendEntriesResponse rfl

/-- **Every elementary change is a sequence of local moves.** -/
theorem reach_turn (h : At members mode S n st u a x)
    (ht : Turn E F (Hears mode S n) C x y)
    (hC : ∀ L m, C L m → BatchCovered members mode n a L m) :
    Reach members mode S n st u a y := by
  have hok : NodeOk members mode S n y := h.ok.turn ht
  cases ht with
  | tune ht =>
      refine h.reach ?_ hok
      have hview : y.view st u = { x.view st u with dirty := y.persistDirty } := by
        have hmatched : y.matched = x.matched := by
          funext p
          rw [Node.matched, Node.matched, ht.config, ht.matchIndex]
        simp only [Node.view, ht.currentTerm, ht.votedFor, ht.role, ht.votesReceived, ht.log,
          ht.commitIndex, ht.outbox, hmatched]
      rw [hview]
      exact moves_touch h.srv ht.dirty
  | observe m hm => exact reach_observe h hm hok
  | follow => exact h.reach (moves_stepDown h.srv) hok
  | forget hr =>
      refine h.reach ?_ hok
      exact moves_clear h.srv {v | v ∈ ([] : List Str)} x.matched
        (fun hc => absurd (hr.symm.trans hc) (by simp)) fun _ => rfl
  | grant m _ hh hkind hg => exact reach_grant h hh hkind hg hok
  | refuse m hm =>
      have hnone : m.promise = none := by
        rw [Message.promise]
        rcases hm.kind with hkind | hkind <;> rw [hkind]
        · simp [hm.granted]
        · simp [hm.success]
      refine (h.same ?_ hok).self
      rw [view_outbox, hnone]
      simp [Node.view]
  | collect m _ hh hkind hr hterm hgranted => exact reach_collect h hh hkind hr hterm hgranted hok
  | append command _ hr => exact reach_append h hr command hok
  | send peer _ hr hsend =>
      obtain ⟨m, hm, rfl⟩ := sendAppendEntries_cases hsend
      exact reach_send h hr hm hok
  | record m _ hh hkind hr hterm hsuccess => exact reach_record h hh hkind hr hterm hsuccess hok
  | advance k _ hr hlt _ hterm hcom => exact reach_advance h hr hlt hterm hcom hok
  | accept m rebuild _ hh hkind hr hterm hprev hmerge hc =>
      exact reach_accept h hh hkind hr hterm hprev hmerge (hC _ _ hc) hok

lemma BatchCovered.mono {L : List LogEntry} (h : BatchCovered members mode n a L m)
    (hl : Local (params members) mode n a a') : BatchCovered members mode n a' L m :=
  fun hmode a'' L' hl' hL' => h hmode a'' L' (hl.trans hl') hL'

/-- **Sequences of elementary changes.** -/
theorem reach_turns (h : At members mode S n st u a x) (ht : Turns E F (Hears mode S n) C x y)
    (hC : ∀ L m, C L m → BatchCovered members mode n a L m) :
    Reach members mode S n st u a y := by
  induction ht with
  | refl => exact h.self
  | tail _ hturn ih =>
      exact ih.bind fun a' hl hat => reach_turn hat hturn fun L m hc => (hC L m hc).mono hl

/-! ### The transition -/

/-- A change of fields that a node in order is not asked about. -/
lemma NodeOk.frame (h : NodeOk members mode S n x) (hc : y.config = x.config)
    (hcs : y.configState = x.configState) (hm : y.role ≠ .follower → n ∈ members)
    (hp : Pending (Hears mode S n) y) (hg : mode.keepsLogs → Good y) :
    NodeOk members mode S n y :=
  ⟨hc ▸ h.nodeId, hc ▸ h.start, hcs ▸ h.old, hcs ▸ h.new, hm, hp, hg⟩

/-- A voting member is one of the members. -/
lemma NodeOk.mem_of_isVotingMember (h : NodeOk members mode S n x)
    (hv : x.isVotingMember = true) : n ∈ members := by
  rw [Node.isVotingMember, decide_eq_true_eq, ClusterConfiguration.allMembers, h.new, h.old,
    h.nodeId] at hv
  exact hv

/-- A candidacy is taken up. -/
lemma reach_campaign (h : At members mode S n st u a x) (hv : x.isVotingMember = true) :
    Reach members mode S n st true a (Node.becomeCandidate { x with role := .candidate }) := by
  have hok : NodeOk members mode S n (Node.becomeCandidate { x with role := .candidate }) := by
    refine h.ok.frame rfl rfl (fun _ => h.ok.mem_of_isVotingMember hv)
      (h.ok.pending.frame id rfl rfl rfl) fun hk => ?_
    have g := h.ok.good hk
    refine ⟨g.snapIndex, g.snapTerm, g.commit_nonneg, fun m hm => ?_⟩
    cases List.mem_append.mp hm with
    | inl hm => exact g.queued m hm
    | inr hm =>
        obtain ⟨peer, -, rfl⟩ := List.mem_map.mp hm
        exact Message.Sane.mk_of_eq_zero rfl rfl fun hs => absurd hs (by simp)
  refine h.reach ?_ hok
  have hreqs : ∀ p ∈ (x.peers.map fun peer =>
      { kind := .requestVote, term := x.currentTerm + 1, source := x.config.nodeId, target := peer
        lastLogIndex := x.lastLogIndex, lastLogTerm := x.lastLogTerm :
          Message }).filterMap Message.promise,
      ∃ q li lt, p = .voteReq n q (x.currentTerm + 1) li lt ∧
        (mode.keepsLogs → li = (x.view st false).log.length ∧
          lt = lastTerm (params members).termOf (x.view st false).log) := by
    intro p hp
    obtain ⟨m, hm, hpm⟩ := List.mem_filterMap.mp hp
    obtain ⟨peer, -, rfl⟩ := List.mem_map.mp hm
    rw [Message.promise, Option.some.injEq] at hpm
    subst hpm
    refine ⟨peer, x.lastLogIndex.toNat, x.lastLogTerm, by rw [h.ok.nodeId], fun hk => ?_⟩
    have g := h.ok.good hk
    rw [g.lastLogIndex, g.lastLogTerm]
    exact ⟨Int.toNat_natCast _, rfl⟩
  have hmove : Moves (params members) mode a n _ :=
    moves_campaign (t := x.currentTerm + 1) h.srv (lt_add_one _) hreqs
  refine hmove.bind fun a' _ hy => Moves.refl (hy.trans ?_)
  have hvotes : ({n} : Set Str) = {v | v ∈ [x.config.nodeId]} := by
    ext v
    simp [h.ok.nodeId]
  rw [hvotes, ← h.ok.nodeId]
  simp only [Node.view, Node.becomeCandidate, List.filterMap_append]
  rfl

/-- The test of `_received_majority_votes` is the protocol's. -/
lemma NodeOk.majority_of_votes (h : NodeOk members mode S n x)
    (hv : x.receivedMajorityVotes = true) : Majority members {v | v ∈ x.votesReceived} := by
  rw [Node.receivedMajorityVotes, Bool.and_eq_true, h.old, Node.hasQuorum, decide_eq_true_eq,
    Node.majority] at hv
  exact majority_of_countP hv.1 fun v _ hm => of_decide_eq_true hm

/-- An election is won. -/
lemma reach_lead (hel : mode.elects) (h : At members mode S n st false a x)
    (hr : x.role = .candidate) (hv : x.receivedMajorityVotes = true) :
    Reach members mode S n st false a (Node.lead { x with role := .leader }) := by
  have hok : NodeOk members mode S n (Node.lead { x with role := .leader }) := by
    refine h.ok.frame rfl rfl (fun _ => h.ok.member (by rw [hr]; simp))
      (h.ok.pending.frame id rfl rfl rfl) fun hk => ?_
    have g := h.ok.good hk
    exact ⟨g.snapIndex, g.snapTerm, g.commit_nonneg, g.queued⟩
  refine h.reach ?_ hok
  have hmove : Moves (params members) mode a n _ :=
    moves_win (h.inv.election hel) h.srv hr rfl (h.ok.majority_of_votes hv)
  refine hmove.bind fun a' _ hy => Moves.refl (hy.trans ?_)
  have hmatched : (Node.lead { x with role := .leader }).matched = fun _ => 0 := by
    funext p
    rw [Node.matched]
    split
    · rfl
    · rename_i hp
      have hget : (Node.lead { x with role := .leader }).matchIndex.get p =
          Dict.get (Dict.ofKeys x.peers fun _ => 0) p := (Dict.get_set _ _ _ _).trans (if_neg hp)
      rw [hget, Dict.get_ofKeys]
      split <;> rfl
  rw [Node.view, Node.view, hmatched]
  rfl

/-- **A transition** of a node whose candidacy, if it is one, is in its files. -/
theorem reach_transition (hel : mode.elects) (h : At members mode S n st false a x)
    (hC : ∀ m, x.Accepts m → BatchCovered members mode n a x.log m)
    (hy : x.transition E F = some y) : Reach members mode S n st true a y := by
  have hunsettle : Reach members mode S n st false a y → Reach members mode S n st true a y :=
    fun hreach => hreach.bind fun a' _ hat => by
      have hmove : Moves (params members) mode a' n (y.view st true) := moves_unsettle hat.srv
      exact hat.reach hmove hat.ok
  rcases transition_cases h.ok.pending hC hy with hturns | ⟨-, hv, rfl⟩ | ⟨hr, hv, hturns⟩
  · exact hunsettle (reach_turns h hturns fun _ _ => id)
  · exact reach_campaign h hv
  · refine hunsettle ((reach_lead hel h hr hv).bind fun a' hl hat => ?_)
    exact reach_turns hat hturns fun _ _ hc => hc.mono hl

end RaftRx.Python
