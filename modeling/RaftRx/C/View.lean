import RaftRx.C.Frames
import RaftRx.Protocol.Local

/-!
The C node as a server of the protocol.

* `Node.view`: the server a node is, given what its files say (`Stored`) and whether a candidacy
  may still be missing there;
* `NodeOk`: what holds of a node between any two functions: its ids are well formed, the
  configuration is the common one when elections are studied, pending messages were sent to it;
  `Good` adds what the study of logs needs;
* `At`, `Reach`: the node is the server of an abstract state, and it can become another node by
  local moves;
* `reach_of_still`, `reach_of_calm`: functions that only touch the log, in the modes in which logs
  are arbitrary;
* `reach_handleTermUpdate`: seeing a higher term.
-/

namespace RaftRx.C

open Protocol

variable {σ : Type*} {A : Application σ}

/-! ### Nodes as servers -/

/-- The vote as an option. -/
def asVote (v : CString) : Option CString := if v = [] then none else some v

/-- What the files say about term and vote. -/
structure Stored where
  term : ℤ
  vote : CString

/-- What the files of a disk say. -/
def Disk.stored (disk : Disk) : Stored :=
  { term := (readMeta disk.metaText).currentTerm
    vote := (readMeta disk.metaText).votedFor }

/-- The server of the protocol a node is.  Restarts are studied only where logs are arbitrary, so
nothing is said about the stable log. -/
def Node.view (x : Node σ) (st : Stored) (u : Bool) : Server CString ℤ LogEntry :=
  { term := x.currentTerm
    vote := asVote x.votedFor
    role := x.state
    votes := {v | v ∈ x.votesReceived}
    log := x.log
    matched := fun p => ((x.matchOf p).getD 0).toNat
    commit := x.commitIndex.toNat
    outbox := x.outbox.filterMap Message.promise
    dirty := x.persistDirty
    unsettled := u
    stableTerm := st.term
    stableVote := asVote st.vote
    stableLog := [] }

/-- The entries of a C log, as the protocol reads them. -/
def params (members : List CString) : Params CString ℤ LogEntry :=
  { members := members, termOf := LogEntry.term, indexOf := LogEntry.index }

/-! ### Nodes between functions -/

/-- A message as nodes send it: no index is negative and the source fits its buffer. -/
structure Message.Sane (m : Message) : Prop where
  prev : 0 ≤ m.prevLogIndex
  commit : 0 ≤ m.leaderCommit
  index : 0 ≤ m.matchIndex
  source : m.source.length < maxId

/-- A message that was handed to the transport for `n`. -/
def Hears (mode : Mode) (S : Set (Msg CString ℤ LogEntry)) (n : CString) (m : Message) : Prop :=
  (mode.elects → m.target = n ∧ m.source.length < maxId ∧ ∀ p, m.promise = some p → p ∈ S) ∧
    (mode.keepsLogs → m.Sane)

/-- What the study of logs needs: nothing is compacted, the log has room for what it holds, the
cursors are inside it and queued messages have no negative index. -/
structure Good (x : Node σ) : Prop where
  snapIndex : x.snapshotLastIncludedIndex = 0
  snapTerm : x.snapshotLastIncludedTerm = 0
  commit_nonneg : 0 ≤ x.commitIndex
  applied_nonneg : 0 ≤ x.lastApplied
  full : x.log.length ≤ maxLog
  queued : ∀ m ∈ x.outbox, m.Sane
  next : x.state = .leader → ∀ p i, x.peerIndex p = some i →
    i < x.nextIndex.length ∧ i < x.matchIndex.length ∧ 1 ≤ x.nextIndex.getD i 0 ∧
      x.nextIndex.getD i 0 ≤ x.log.length + 1

/-- The program's configuration: the ids of its fallback are well formed. -/
structure ConfigOk (mode : Mode) (members : List CString) (config : NodeConfig) : Prop where
  learner : config.learner = false
  initial : ∀ m ∈ config.initialMembers, m = [] ∨ IdOk m
  alone : config.initialMembers = [] → IdOk config.nodeId ∧ ∀ p ∈ config.peers, IdOk p
  common : mode.elects →
    config.initialMembers ≠ [] ∧ normalizeMembers config.initialMembers maxNodes = members

/-- **What holds of a node between any two functions.** -/
structure NodeOk (members : List CString) (mode : Mode) (S : Set (Msg CString ℤ LogEntry))
    (n : CString) (x : Node σ) : Prop where
  nodeId : x.config.nodeId = n
  fits : n.length < maxId
  config : ConfigOk mode members x.config
  vote : x.votedFor = [] ∨ IdOk x.votedFor
  old : MembersOk x.configState.oldMembers
  new : MembersOk x.configState.newMembers
  stable : mode.elects → x.configState.oldMembers = members ∧ x.configState.newMembers = []
  appends : ∀ m ∈ x.pendingAppendEntries, m.kind = .appendEntries ∧ Hears mode S n m
  requests : ∀ m ∈ x.pendingVoteRequests,
    m.kind = .requestVote ∧ IdOk m.source ∧ Hears mode S n m
  responses : ∀ m ∈ x.pendingVotes, m.kind = .requestVoteResponse ∧ Hears mode S n m
  sources : ∀ m ∈ x.outbox, m.source = n ∧ (m.kind = .requestVote → IdOk n)
  good : mode.keepsLogs → Good x

variable {members : List CString} {mode : Mode} {S : Set (Msg CString ℤ LogEntry)} {n : CString}
  {st : Stored} {u : Bool} {a a' : State CString ℤ LogEntry} {x x' x'' : Node σ}

lemma NodeOk.idOk_of_selfIsMember (h : NodeOk members mode S n x) (hs : x.selfIsMember = true) :
    IdOk n := by
  rw [Node.selfIsMember, h.nodeId, Bool.or_eq_true, List.contains_iff_mem,
    List.contains_iff_mem] at hs
  rcases hs with hs | hs
  · exact h.old.id n hs
  · exact h.new.id n hs

lemma strncpy_self {id : CString} (h : id.length < maxId) : strncpy maxId id = id := by
  have hmax : maxId = 16 := rfl
  exact List.take_of_length_le (by omega)

lemma length_strncpy_lt (id : CString) : (strncpy maxId id).length < maxId := by
  have hmax : maxId = 16 := rfl
  rw [strncpy, List.length_take]
  omega

lemma IdOk.length_lt {id : CString} (h : IdOk id) : id.length < maxId := by
  have hmax : maxId = 16 := rfl
  have := h.length_le
  omega

lemma NodeOk.source_of_answer (h : NodeOk members mode S n x) {m : Message} (hm : Answer x m) :
    m.source = n ∧ (m.kind = .requestVote → IdOk n) := by
  refine ⟨?_, fun hkind => absurd hkind hm.2⟩
  rw [hm.1, h.nodeId, strncpy_self h.fits]

/-- A step that keeps configuration, vote and pending messages. -/
lemma NodeOk.frame (h : NodeOk members mode S n x) (hc : x'.config = x.config)
    (hcs : x'.configState = x.configState) (hv : x'.votedFor = x.votedFor ∨ x'.votedFor = [])
    (ha : ∀ m ∈ x'.pendingAppendEntries, m ∈ x.pendingAppendEntries)
    (hr : ∀ m ∈ x'.pendingVoteRequests, m ∈ x.pendingVoteRequests)
    (hp : ∀ m ∈ x'.pendingVotes, m ∈ x.pendingVotes)
    (hq : ∀ m ∈ x'.outbox, m ∈ x.outbox ∨ Answer x m) (hg : mode.keepsLogs → Good x') :
    NodeOk members mode S n x' where
  nodeId := by rw [hc]; exact h.nodeId
  fits := h.fits
  config := by rw [hc]; exact h.config
  vote := hv.elim (fun hv => by rw [hv]; exact h.vote) Or.inl
  old := by rw [hcs]; exact h.old
  new := by rw [hcs]; exact h.new
  stable := by rw [hcs]; exact h.stable
  appends := fun m hm => h.appends m (ha m hm)
  requests := fun m hm => h.requests m (hr m hm)
  responses := fun m hm => h.responses m (hp m hm)
  sources := fun m hm => (hq m hm).elim (h.sources m) h.source_of_answer
  good := hg

lemma NodeOk.of_still (h : NodeOk members mode S n x) (hs : Still x x')
    (hg : mode.keepsLogs → Good x') : NodeOk members mode S n x' :=
  h.frame hs.config hs.configState (Or.inl hs.vote) (by rw [hs.appends]; exact fun _ => id)
    (by rw [hs.requests]; exact fun _ => id) (by rw [hs.responses]; exact fun _ => id)
    hs.queued.mem hg

/-! ### Reaching a node by local moves -/

/-- The node is the server `n` of the abstract state. -/
structure At (members : List CString) (mode : Mode) (S : Set (Msg CString ℤ LogEntry))
    (n : CString) (st : Stored) (u : Bool) (a : State CString ℤ LogEntry) (x : Node σ) : Prop where
  inv : ModeInv (params members) mode a
  sent : a.sent = S
  srv : a.srv n = x.view st u
  ok : NodeOk members mode S n x

/-- Local moves lead to a state whose server `n` is the node. -/
def Reach (members : List CString) (mode : Mode) (S : Set (Msg CString ℤ LogEntry))
    (n : CString) (st : Stored) (u : Bool) (a : State CString ℤ LogEntry) (x : Node σ) : Prop :=
  ∃ a', Local (params members) mode n a a' ∧ At members mode S n st u a' x

lemma At.reach (h : At members mode S n st u a x)
    (hm : Moves (params members) mode a n (x'.view st u)) (hok : NodeOk members mode S n x') :
    Reach members mode S n st u a x' := by
  obtain ⟨a', hl, hx⟩ := hm
  exact ⟨a', hl, hl.inv h.inv, hl.sent.trans h.sent, hx, hok⟩

lemma At.self (h : At members mode S n st u a x) : Reach members mode S n st u a x :=
  ⟨a, Local.refl a, h⟩

/-- A change that the protocol does not see. -/
lemma At.same (h : At members mode S n st u a x) (hv : x'.view st u = x.view st u)
    (hok : NodeOk members mode S n x') : Reach members mode S n st u a x' :=
  h.reach (Moves.refl (h.srv.trans hv.symm)) hok

lemma Reach.bind {st' : Stored} {u' : Bool} (h : Reach members mode S n st u a x)
    (h' : ∀ a', Local (params members) mode n a a' → At members mode S n st u a' x →
      Reach members mode S n st' u' a' x') : Reach members mode S n st' u' a x' := by
  obtain ⟨a', hl, hat⟩ := h
  obtain ⟨a'', hl', hat'⟩ := h' a' hl hat
  exact ⟨a'', hl.trans hl', hat'⟩

/-- The promises of new messages without ballots. -/
lemma ballot_eq_none {ms : List Message} (h : ∀ m ∈ ms, m.NoBallot) :
    ∀ p ∈ ms.filterMap Message.promise, p.ballot = none := by
  intro p hp
  obtain ⟨m, hm, hpm⟩ := List.mem_filterMap.mp hp
  exact h m hm p hpm

/-- The server of a node that differs in the log and what belongs to it. -/
lemma Still.view_eq (h : Still x x') {ms : List Message} (hms : x'.outbox = x.outbox ++ ms) :
    x'.view st u =
      { x.view st u with
        log := x'.log, matched := fun p => ((x'.matchOf p).getD 0).toNat
        commit := x'.commitIndex.toNat
        outbox := (x.view st u).outbox ++ ms.filterMap Message.promise
        dirty := x'.persistDirty } := by
  simp only [Node.view, h.term, h.vote, h.state, h.votes, hms, List.filterMap_append]

/-- **Functions that only touch the log** are free in the modes that do not keep logs. -/
lemma reach_of_still (hm : ¬ mode.keepsLogs) (h : At members mode S n st u a x)
    (hs : Still x x') : Reach members mode S n st u a x' := by
  obtain ⟨ms, hms, hno⟩ := hs.queued
  refine h.reach ?_ (h.ok.of_still hs fun hk => absurd hk hm)
  rw [hs.view_eq hms]
  exact moves_havocLog h.srv x'.log (fun p => ((x'.matchOf p).getD 0).toNat) x'.commitIndex.toNat
    hm (ballot_eq_none fun m hm => (hno m hm).noBallot) hs.dirty

/-- **Functions that keep term and vote** are free in the mode of ballots. -/
lemma reach_of_calm (hm : ¬ mode.elects) (h : At members mode S n st u a x)
    (hs : Calm x x') (hok : NodeOk members mode S n x') : Reach members mode S n st u a x' := by
  obtain ⟨ms, hms, hno⟩ := hs.queued
  have hk : ¬ mode.keepsLogs := fun hk => hm hk.elects
  have hview : x'.view st u =
      { ({ x.view st u with
            log := x'.log, matched := fun p => ((x'.matchOf p).getD 0).toNat
            commit := x'.commitIndex.toNat
            outbox := (x.view st u).outbox ++ ms.filterMap Message.promise
            dirty := x'.persistDirty } : Server CString ℤ LogEntry) with
        role := x'.state, votes := {v | v ∈ x'.votesReceived}, unsettled := u } := by
    simp only [Node.view, hs.term, hs.vote, hms, List.filterMap_append]
  refine h.reach ?_ hok
  rw [hview]
  refine Moves.bind (moves_havocLog h.srv x'.log (fun p => ((x'.matchOf p).getD 0).toNat)
    x'.commitIndex.toNat hk (ballot_eq_none fun m hm => (hno m hm).noBallot) hs.dirty) fun a' _ hy => ?_
  exact moves_havocRole hy x'.state {v | v ∈ x'.votesReceived} u hm

/-- **Seeing a higher term**: a follower forgets its vote; when roles are arbitrary anyone may. -/
lemma reach_handleTermUpdate (h : At members mode S n st u a x) (m : Message)
    (hrole : mode.elects → x.currentTerm < m.term → x.state = .follower) :
    Reach members mode S n st u a (x.handleTermUpdate m) := by
  rw [Node.handleTermUpdate]
  split
  · rename_i ht
    have hok : NodeOk members mode S n
        { x with currentTerm := m.term, votedFor := [], leaderId := [], persistDirty := true } :=
      h.ok.frame rfl rfl (Or.inr rfl) (fun _ => id) (fun _ => id) (fun _ => id)
        (fun _ => Or.inl) fun hk =>
        let g := h.ok.good hk
        ⟨g.snapIndex, g.snapTerm, g.commit_nonneg, g.applied_nonneg, g.full, g.queued, g.next⟩
    have hmove : Moves (params members) mode a n
        { x.view st u with term := m.term, vote := none, role := .follower, dirty := true } :=
      moves_observe h.srv ht
    refine h.reach ?_ hok
    by_cases hel : mode.elects
    · have hview : Node.view
          { x with currentTerm := m.term, votedFor := [], leaderId := [], persistDirty := true } st u
          = { x.view st u with
              term := m.term, vote := none, role := .follower, dirty := true } := by
        have hf := hrole hel ht
        simp only [Node.view, hf]
        rfl
      rw [hview]
      exact hmove
    · refine hmove.bind fun a' _ hy => ?_
      exact moves_havocRole hy x.state {v | v ∈ x.votesReceived} u hel
  · exact h.self

end RaftRx.C
