import RaftRx.C.Accesses

/-!
How long a node keeps its role: election timers, heartbeats and stray messages.

* `TickInput`, `Node.ticked`, `Node.ticks`: whole ticks of a node and runs of them;
* `Timer`: what an election depends on; most functions leave it as it is;
* `latched_spec`, `dumped_role`: what the first and the last phase of a tick do to a role;
* `follower_stays`: a follower that hears its leader in time starts no election;
* `leader_deposed_iff`: without newer terms a leader is deposed by `APPEND_ENTRIES` messages, by old
  ones too, and, unless it stops itself, by nothing else;
* `late_follower_campaigns`: in no run a follower waits longer than four election timeouts.
-/

namespace RaftRx.C

open Protocol (Role)

variable {σ : Type*} {A : Application σ} {x y : Node σ} {T : ℤ}

/-! ### Ticks -/

/-- What a tick reads: the clock in its first two phases, the slots behind the log, and what the
transport has for it. -/
structure TickInput where
  latchMs : ℤ
  clockMs : ℤ
  slots : ℤ → LogEntry
  messages : List Message
  commands : List Command

namespace Node

/-- The node after the first phase of a tick. -/
def latched (x : Node σ) (t : TickInput) : Node σ :=
  latchInputs { x with clockMs := t.latchMs, slots := t.slots } t.messages t.commands

/-- The node after the second phase of a tick. -/
def acted (A : Application σ) (x : Node σ) (t : TickInput) : Node σ :=
  Node.transition A { x.latched t with clockMs := t.clockMs }

/-- The node after a tick. -/
def ticked (A : Application σ) (x : Node σ) (t : TickInput) : Node σ :=
  ((x.acted A t).dumpOutputs A).node

/-- The node after some ticks. -/
def ticks (A : Application σ) (x : Node σ) (ts : List TickInput) : Node σ := ts.foldl (ticked A) x

end Node

/-- A tick of a node is three acts of its host. -/
lemma host_ticked (h : Host σ) (hidle : h.phase = .idle) (t : TickInput) :
    h.act A (.latch t.latchMs t.slots t.messages t.commands) =
      some ({ h with node := h.node.latched t, phase := .latched }, {}) ∧
    Host.act A { h with node := h.node.latched t, phase := .latched } (.transition t.clockMs) =
      some ({ h with node := h.node.acted A t, phase := .acted }, {}) ∧
    ∃ disk effect, Host.act A { h with node := h.node.acted A t, phase := .acted } .dump =
        some ({ h with node := h.node.ticked A t, disk := disk, phase := .idle }, effect) ∧
      effect.sends = ((h.node.acted A t).dumpOutputs A).sends := by
  refine ⟨?_, ?_, ?_⟩
  · rw [Host.act, if_pos hidle]
    rfl
  · rw [Host.act, if_pos rfl]
    rfl
  · rw [Host.act, if_pos rfl]
    exact ⟨_, _, rfl, rfl⟩

/-! ### Timers -/

/-- When an election starts. -/
structure Timer where
  deadline : ℤ
  clock : ℤ
  base : ℤ

/-- The timer of a node. -/
def Node.timer (x : Node σ) : Timer :=
  { deadline := x.electionDeadlineMs, clock := x.clockMs, base := x.config.electionTimeoutMs }

lemma timer_foldl {β : Type*} {f : Node σ → β → Node σ} (hf : ∀ x b, (f x b).timer = x.timer)
    (l : List β) : ∀ x : Node σ, (l.foldl f x).timer = x.timer := by
  induction l with
  | nil => exact fun _ => rfl
  | cons b l ih => exact fun x => (ih (f x b)).trans (hf x b)

@[simp] lemma timer_queueMessage (x : Node σ) (m : Message) :
    (x.queueMessage m).timer = x.timer := by
  rw [Node.queueMessage]
  split <;> rfl

@[simp] lemma timer_sendAppendEntriesTo (x : Node σ) (p : CString) :
    (x.sendAppendEntriesTo p).timer = x.timer := timer_queueMessage x _

@[simp] lemma timer_broadcastAppendEntries (x : Node σ) :
    x.broadcastAppendEntries.timer = x.timer := timer_foldl timer_sendAppendEntriesTo _ x

@[simp] lemma timer_advanceCommitIndex (x : Node σ) : x.advanceCommitIndex.timer = x.timer := by
  rw [Node.advanceCommitIndex]
  split <;> rfl

@[simp] lemma timer_handleTermUpdate (x : Node σ) (m : Message) :
    (x.handleTermUpdate m).timer = x.timer := by
  rw [Node.handleTermUpdate]
  split <;> rfl

lemma timer_handleAppendEntriesResponse (x : Node σ) (m : Message) :
    (x.handleAppendEntriesResponse m).timer = x.timer := by
  rw [← timer_handleTermUpdate x m, Node.handleAppendEntriesResponse]
  dsimp only
  split
  · rfl
  · split
    · rfl
    · split
      · exact timer_advanceCommitIndex _
      · refine (timer_sendAppendEntriesTo _ _).trans ?_
        split <;> rfl

lemma timer_appendClientCommand (x : Node σ) (c : Command) :
    (x.appendClientCommand c).timer = x.timer := by
  rw [Node.appendClientCommand]
  split
  · exact timer_broadcastAppendEntries _
  · rfl

lemma timer_mergeEntries (es : List LogEntry) (acc : Node σ × Bool) :
    (es.foldl Node.mergeEntry acc).1.timer = acc.1.timer := by
  obtain ⟨d, heq, -, -⟩ := mergeEntries_eq es acc
  rw [heq]
  rfl

lemma timer_resetApplication (x : Node σ) : (x.resetApplication A).timer = x.timer := by
  rw [Node.resetApplication]
  split <;> split <;> rfl

lemma timer_settleCommit (x : Node σ) (m : Message) (b : Bool) :
    (x.settleCommit A m b).timer = x.timer := by
  rw [Node.settleCommit]
  split
  · exact timer_resetApplication { x with commitIndex := min m.leaderCommit x.lastLogIndex }
  · split
    · rfl
    · split <;> rfl

lemma timer_appendEntriesFromLeader (x : Node σ) (m : Message) :
    (x.appendEntriesFromLeader A m).1.timer = x.timer := by
  rw [Node.appendEntriesFromLeader]
  split
  · exact (timer_settleCommit _ m _).trans (timer_mergeEntries m.entries (x, false))
  · rfl

/-- The timer was set anew, by one election timeout or three. -/
structure Timer.Fresh (k k' : Timer) : Prop where
  clock : k'.clock = k.clock
  base : k'.base = k.base
  bounds : 0 ≤ k.base → k.clock + k.base ≤ k'.deadline ∧ k'.deadline ≤ k.clock + 4 * k.base

/-- A remainder is not larger than the divisor, also when the divisor wraps. -/
lemma toNat_mod_ofInt_le {base : ℤ} (h : 0 < base) (k : UInt32) :
    ((k % UInt32.ofInt base).toNat : ℤ) ≤ base := by
  have hof : (UInt32.ofInt base).toNat = (base % 2 ^ 32).toNat := by
    rw [UInt32.ofInt, UInt32.toNat_ofNat']
    omega
  have hk := k.toNat_lt
  rw [UInt32.toNat_mod, hof]
  rcases Nat.eq_zero_or_pos (base % 2 ^ 32).toNat with hzero | hpos
  · rw [hzero, Nat.mod_zero]
    omega
  · have hlt := Nat.mod_lt k.toNat hpos
    omega

/-- An election timeout is between one and two times the configured one. -/
lemma nextElectionTimeout_bounds (x : Node σ) (h : 0 ≤ x.config.electionTimeoutMs) :
    x.config.electionTimeoutMs ≤ x.nextElectionTimeout ∧
      x.nextElectionTimeout ≤ 2 * x.config.electionTimeoutMs := by
  rw [Node.nextElectionTimeout]
  dsimp only
  split_ifs with hsmall
  · omega
  · have hmod := toNat_mod_ofInt_le (show 0 < x.config.electionTimeoutMs by omega)
      (Node.fnv1a (Node.fnv1a (x.config.nodeId.foldl
        (fun h c => Node.fnv1a h (UInt32.ofNat (c.toNat % 256))) 2166136261)
        (UInt32.ofInt x.currentTerm)) (UInt32.ofInt x.clockMs))
    omega

/-- The deadline is set from the clock. -/
lemma fresh_of_timeout {k : Timer} (x : Node σ) (hc : k.clock = x.clockMs)
    (hb : k.base = x.config.electionTimeoutMs) (hy : y.timer =
      { deadline := x.clockMs + x.nextElectionTimeout, clock := k.clock, base := k.base }) :
    k.Fresh y.timer := by
  rw [hy]
  refine ⟨rfl, rfl, fun h => ?_⟩
  rw [hb] at h ⊢
  rw [hc]
  obtain ⟨hlo, hhi⟩ := nextElectionTimeout_bounds x h
  exact ⟨by dsimp only; omega, by dsimp only; omega⟩

/-- The node hears a leader. -/
lemma fresh_handleAppendEntries (x : Node σ) {m : Message} (h : x.currentTerm ≤ m.term) :
    x.timer.Fresh (x.handleAppendEntries A m).timer := by
  have hterm : m.term = (x.handleTermUpdate m).currentTerm := by
    rw [handleTermUpdate_term]
    omega
  have htimer := timer_handleTermUpdate x m
  have hheard : ((x.handleTermUpdate m).hearLeader m).timer =
      { deadline := (x.handleTermUpdate m).clockMs + (x.handleTermUpdate m).nextElectionTimeout
        clock := x.timer.clock, base := x.timer.base } := by
    rw [← htimer]
    rfl
  refine fresh_of_timeout (x.handleTermUpdate m) (congrArg Timer.clock htimer).symm
    (congrArg Timer.base htimer).symm ?_
  rw [← hheard, Node.handleAppendEntries]
  simp only [if_pos hterm, timer_queueMessage, timer_appendEntriesFromLeader]

/-- The node hears a leader of an old term. -/
lemma timer_handleAppendEntries (x : Node σ) {m : Message} (h : m.term < x.currentTerm) :
    (x.handleAppendEntries A m).timer = x.timer := by
  have hterm : m.term ≠ (x.handleTermUpdate m).currentTerm := by
    rw [handleTermUpdate_term]
    omega
  rw [Node.handleAppendEntries]
  simp only [if_neg hterm, timer_queueMessage, timer_handleTermUpdate]

/-- The timer was left alone, or set anew. -/
def Timer.Later (k k' : Timer) : Prop := k' = k ∨ k.Fresh k'

/-- A vote that is granted sets the timer. -/
lemma later_handleVoteRequest (x : Node σ) (m : Message) :
    x.timer.Later (x.handleVoteRequest m).timer := by
  rw [Node.handleVoteRequest, timer_queueMessage]
  split_ifs
  · refine Or.inr ?_
    rw [← timer_handleTermUpdate x m]
    exact fresh_of_timeout { x.handleTermUpdate m with votedFor := strncpy maxId m.source } rfl rfl
      rfl
  · exact Or.inl (timer_handleTermUpdate x m)

lemma timer_recordVote (x : Node σ) (p : CString) : (x.recordVote p).timer = x.timer := by
  rw [Node.recordVote]
  split_ifs <;> rfl

lemma timer_handleVoteResponse (x : Node σ) (m : Message) :
    (x.handleVoteResponse m).timer = x.timer := by
  rw [Node.handleVoteResponse]
  split_ifs
  · exact timer_handleTermUpdate x m
  · exact (timer_recordVote _ _).trans (timer_handleTermUpdate x m)
  · exact timer_handleTermUpdate x m

lemma fresh_becomeCandidate (x : Node σ) : x.timer.Fresh x.becomeCandidate.timer := by
  have hrecord := timer_recordVote { x with
    currentTerm := x.currentTerm + 1, votedFor := strncpy maxId x.config.nodeId
    votesReceived := [] } x.config.nodeId
  rw [Node.becomeCandidate, timer_foldl fun y p => timer_queueMessage y _]
  exact fresh_of_timeout _ (congrArg Timer.clock hrecord.symm) (congrArg Timer.base hrecord.symm)
    (congrArg (fun k : Timer => Timer.mk _ k.clock k.base) hrecord)

lemma fresh_backToFollower (x : Node σ) :
    x.timer.Fresh x.backToFollowerDueToTimeout.timer :=
  fresh_of_timeout { x with votesReceived := [], leaderId := [] } rfl rfl rfl

lemma timer_becomeLeader (x : Node σ) : x.becomeLeader.timer = x.timer := by
  rw [Node.becomeLeader]
  exact timer_broadcastAppendEntries _

lemma timer_sendHeartbeat (x : Node σ) : x.sendHeartbeat.timer = x.timer := by
  rw [Node.sendHeartbeat]
  exact timer_broadcastAppendEntries _

/-- **A transition** leaves the timer alone or sets it. -/
theorem later_transition (x : Node σ) : x.timer.Later (x.transition A).timer := by
  have hcase := transition_cases (A := A) x
  generalize x.transition A = y at hcase ⊢
  cases hcase with
  | none => exact Or.inl rfl
  | campaign => exact Or.inr (fresh_becomeCandidate { x with state := .candidate })
  | giveUp => exact Or.inr (fresh_backToFollower { x with state := .follower })
  | win => exact Or.inl (timer_becomeLeader { x with state := .leader })
  | append m rest =>
      rcases lt_or_ge m.term x.currentTerm with h | h
      · exact Or.inl (timer_handleAppendEntries
          { x with state := .follower, pendingAppendEntries := rest } h)
      · exact Or.inr (fresh_handleAppendEntries
          { x with state := .follower, pendingAppendEntries := rest } h)
  | request m rest => exact later_handleVoteRequest _ m
  | requestAsCandidate m rest => exact later_handleVoteRequest _ m
  | vote m rest => exact Or.inl (timer_handleVoteResponse _ m)
  | ignoreVote => exact Or.inl rfl
  | ignoreVoteRequest => exact Or.inl rfl
  | heartbeat => exact Or.inl (timer_sendHeartbeat x)

lemma timer_applyNext (x : Node σ) : (x.applyNext A).1.timer = x.timer := by
  have hcommand : ∀ (y : Node σ) (c : Command), (y.applyCommand A c).timer = y.timer := by
    intro y c
    have hcase := applyCommand_case (A := A) y c
    generalize y.applyCommand A c = z at hcase ⊢
    cases hcase with
    | user | noUser | threshold | skip | enter => rfl
    | leave _ hidx hne =>
        obtain ⟨r, l, v, s, heq, -⟩ := applyLeaveJoint_eq (x := y) hidx hne
        rw [heq]
        rfl
  exact hcommand { x with lastApplied := x.lastApplied + 1 } _

lemma timer_applyCommitted (k : ℕ) : ∀ x : Node σ, (x.applyCommitted A k).1.timer = x.timer := by
  induction k with
  | zero => exact fun _ => rfl
  | succ k ih => exact fun x => (ih (x.applyNext A).1).trans (timer_applyNext x)

lemma timer_appendInternalCommand (x : Node σ) (op key value : CString) :
    (x.appendInternalCommand op key value).1.timer = x.timer := by
  rw [Node.appendInternalCommand]
  split
  · rfl
  · exact timer_broadcastAppendEntries _

lemma timer_maybeDriveMembership (x : Node σ) : x.maybeDriveMembership.timer = x.timer := by
  rw [Node.maybeDriveMembership]
  split
  · rfl
  · split
    · dsimp only
      split
      all_goals exact timer_appendInternalCommand x _ _ _
    · split
      · rfl
      · split
        · dsimp only
          split
          all_goals exact timer_appendInternalCommand x _ _ _
        · split <;> rfl

lemma timer_maybeCompact (x : Node σ) : (x.maybeCompact A).1.timer = x.timer := by
  rw [Node.maybeCompact]
  split
  · rw [Node.doCompact]
    dsimp only
    split_ifs <;> rfl
  · rfl

/-- The last phase of a tick leaves the timer alone. -/
lemma timer_dumpOutputs (x : Node σ) : (x.dumpOutputs A).node.timer = x.timer := by
  cases hrun : x.running with
  | false =>
      rw [dumpOutputs_stopped hrun]
      rfl
  | true =>
      have hadvanced : x.advanced.timer = x.timer := by
        rw [Node.advanced]
        split_ifs
        · exact timer_advanceCommitIndex x
        · rfl
      rw [dumpOutputs_eq hrun]
      show (x.dumped A).timer = x.timer
      exact (timer_maybeCompact _).trans <| (timer_maybeDriveMembership _).trans <|
        (timer_applyCommitted _ _).trans hadvanced

/-- The first phase of a tick sets the clock. -/
lemma timer_latched (x : Node σ) (t : TickInput) :
    (x.latched t).timer = { x.timer with clock := t.latchMs } := by
  have hreceive : ∀ (y : Node σ) (m : Message), (y.receive m).timer = y.timer := by
    intro y m
    rw [Node.receive]
    cases m.kind with
    | appendEntriesResponse => exact timer_handleAppendEntriesResponse y m
    | appendEntries | requestVote | requestVoteResponse => rfl
  rw [Node.latched, Node.latchInputs]
  dsimp only
  split_ifs
  · rfl
  · exact (timer_foldl timer_appendClientCommand _ _).trans (timer_foldl hreceive _ _)
  · exact timer_foldl hreceive _ _

/-! ### Roles in the first and the last phase -/

/-- What makes up the role of a node. -/
structure Seat where
  config : NodeConfig
  configState : ClusterConfiguration
  state : Role
  running : Bool
  term : ℤ
  vote : CString
  votes : List CString

/-- The seat of a node. -/
def Node.seat (x : Node σ) : Seat :=
  { config := x.config, configState := x.configState, state := x.state, running := x.running
    term := x.currentTerm, vote := x.votedFor, votes := x.votesReceived }

lemma Still.seat (h : Still x y) : y.seat = x.seat := by
  rw [Node.seat, Node.seat, h.config, h.configState, h.state, h.running, h.term, h.vote, h.votes]

/-- The messages of a kind that a tick receives. -/
def TickInput.received (t : TickInput) (kind : MessageKind) : List Message :=
  (t.messages.take maxQueue).filter fun m => decide (m.kind = kind)

/-- No message carries a newer term. -/
def TickInput.Within (t : TickInput) (T : ℤ) : Prop := ∀ m ∈ t.messages, m.term ≤ T

lemma handleTermUpdate_of_le {m : Message} (h : m.term ≤ x.currentTerm) :
    x.handleTermUpdate m = x := if_neg (not_lt.mpr h)

lemma seat_receive {m : Message} (h : m.term ≤ x.currentTerm) : (x.receive m).seat = x.seat := by
  rw [Node.receive]
  cases m.kind with
  | appendEntriesResponse =>
      have hstill := still_handleAppendEntriesResponse x m
      rw [handleTermUpdate_of_le h] at hstill
      exact hstill.seat
  | appendEntries | requestVote | requestVoteResponse => rfl

/-- Messages of old terms leave the seat of a node alone. -/
lemma seat_latched {t : TickInput} (h : t.Within x.currentTerm) : (x.latched t).seat = x.seat := by
  have hreceive : ∀ (ms : List Message) (y : Node σ), (∀ m ∈ ms, m.term ≤ y.currentTerm) →
      (ms.foldl Node.receive y).seat = y.seat := by
    intro ms
    induction ms with
    | nil => exact fun _ _ => rfl
    | cons m ms ih =>
        intro y hms
        have hseat := seat_receive (hms m List.mem_cons_self)
        have hterm : (y.receive m).currentTerm = y.currentTerm := congrArg Seat.term hseat
        refine (ih (y.receive m) fun m' hm' => ?_).trans hseat
        rw [hterm]
        exact hms m' (List.mem_cons_of_mem m hm')
  have hclient : ∀ (cs : List Command) (y : Node σ),
      (cs.foldl Node.appendClientCommand y).seat = y.seat :=
    fun cs y => (Still.foldl still_appendClientCommand cs y).seat
  have hms : ∀ m ∈ t.messages.take maxQueue, m.term ≤ x.currentTerm :=
    fun m hm => h m (List.mem_of_mem_take hm)
  rw [Node.latched, Node.latchInputs]
  dsimp only
  split_ifs
  · rfl
  · exact (hclient _ _).trans (hreceive _ _ hms)
  · exact hreceive _ _ hms

/-- The queue of a node for the messages of a kind. -/
def Node.queueOf (x : Node σ) : MessageKind → List Message
  | .appendEntries => x.pendingAppendEntries
  | .requestVote => x.pendingVoteRequests
  | .requestVoteResponse => x.pendingVotes
  | .appendEntriesResponse => []

lemma Still.queueOf (h : Still x y) (kind : MessageKind) : y.queueOf kind = x.queueOf kind := by
  cases kind with
  | appendEntries => exact h.appends
  | requestVote => exact h.requests
  | requestVoteResponse => exact h.responses
  | appendEntriesResponse => rfl

lemma queueOf_receive {kind : MessageKind} (hkind : kind ≠ .appendEntriesResponse) (x : Node σ)
    (m : Message) : (x.receive m).queueOf kind =
      x.queueOf kind ++ [m].filter fun m => decide (m.kind = kind) := by
  rw [Node.receive]
  cases hm : m.kind with
  | appendEntriesResponse =>
      have hupdate : (x.handleTermUpdate m).queueOf kind = x.queueOf kind := by
        rw [Node.handleTermUpdate]
        split_ifs <;> cases kind <;> rfl
      rw [List.filter_singleton, hm, decide_eq_false hkind.symm]
      simp only [cond_false, List.append_nil]
      exact ((still_handleAppendEntriesResponse x m).queueOf kind).trans hupdate
  | appendEntries | requestVote | requestVoteResponse =>
      rw [List.filter_singleton, hm]
      cases kind <;> simp [Node.queueOf]

/-- A running node queues what it receives, and nothing else. -/
lemma queueOf_latched (hrun : x.running = true) (t : TickInput) (kind : MessageKind)
    (hkind : kind ≠ .appendEntriesResponse) : (x.latched t).queueOf kind = t.received kind := by
  have hreceive : ∀ (ms : List Message) (y : Node σ), (ms.foldl Node.receive y).queueOf kind =
      y.queueOf kind ++ ms.filter fun m => decide (m.kind = kind) := by
    intro ms
    induction ms with
    | nil => exact fun y => (List.append_nil _).symm
    | cons m ms ih =>
        intro y
        rw [List.foldl_cons, ih, queueOf_receive hkind, List.append_assoc, ← List.filter_append,
          List.singleton_append]
  have hempty : ({ x with
      clockMs := t.latchMs, slots := t.slots, pendingAppendEntries := [], pendingVoteRequests := []
      pendingVotes := [] } : Node σ).queueOf kind = [] := by
    cases kind <;> rfl
  have hms := hreceive (t.messages.take maxQueue) { x with
    clockMs := t.latchMs, slots := t.slots, pendingAppendEntries := [], pendingVoteRequests := []
    pendingVotes := [] }
  rw [hempty, List.nil_append] at hms
  rw [Node.latched, Node.latchInputs]
  dsimp only
  rw [if_neg (by simp [hrun])]
  split_ifs
  · exact ((Still.foldl still_appendClientCommand _ _).queueOf kind).trans hms
  · exact hms

/-- A node goes on in its role, or it was expelled and stops. -/
def Retires (x y : Node σ) : Prop :=
  (y.running = x.running ∧ y.state = x.state) ∨ (y.running = false ∧ y.state = .follower)

lemma Retires.trans {z : Node σ} (h : Retires x y) (h' : Retires y z) : Retires x z := by
  rcases h with ⟨hr, hs⟩ | ⟨hr, hs⟩
  · rcases h' with ⟨hr', hs'⟩ | hout
    · exact Or.inl ⟨hr'.trans hr, hs'.trans hs⟩
    · exact Or.inr hout
  · rcases h' with ⟨hr', hs'⟩ | hout
    · exact Or.inr ⟨hr'.trans hr, hs'.trans hs⟩
    · exact Or.inr hout

lemma Still.retires (h : Still x y) : Retires x y := Or.inl ⟨h.running, h.state⟩

lemma retires_applyNext (x : Node σ) : Retires x (x.applyNext A).1 := by
  have hcommand : ∀ (y : Node σ) (c : Command), Retires y (y.applyCommand A c) := by
    intro y c
    have hcase := applyCommand_case (A := A) y c
    generalize y.applyCommand A c = z at hcase ⊢
    cases hcase with
    | user | noUser | threshold | skip | enter => exact Or.inl ⟨rfl, rfl⟩
    | leave _ hidx hne =>
        obtain ⟨r, l, v, s, heq, hrs⟩ := applyLeaveJoint_eq (x := y) hidx hne
        rw [heq]
        exact hrs
  exact hcommand { x with lastApplied := x.lastApplied + 1 } _

lemma retires_applyCommitted (k : ℕ) : ∀ x : Node σ, Retires x (x.applyCommitted A k).1 := by
  induction k with
  | zero => exact fun _ => Or.inl ⟨rfl, rfl⟩
  | succ k ih => exact fun x => (retires_applyNext x).trans (ih (x.applyNext A).1)

/-- **The last phase of a tick** leaves term and vote alone, and the role too unless the node was
expelled. -/
theorem dumped_role (x : Node σ) : Retires x (x.dumpOutputs A).node ∧
    (x.dumpOutputs A).node.currentTerm = x.currentTerm ∧
    (x.dumpOutputs A).node.votedFor = x.votedFor := by
  cases hrun : x.running with
  | false =>
      rw [dumpOutputs_stopped hrun]
      exact ⟨Or.inl ⟨rfl, rfl⟩, rfl, rfl⟩
  | true =>
      have happlied := retires_applyCommitted (A := A) x.advanced.toApplyCount x.advanced
      have hcalm := calm_applyCommitted (A := A) x.advanced.toApplyCount x.advanced
      have hdriven := still_maybeDriveMembership (x.commitAndApply A).1
      have hcompacted := still_maybeCompact (A := A) (x.commitAndApply A).1.maybeDriveMembership
      have hlast := hdriven.trans hcompacted
      rw [dumpOutputs_eq hrun]
      exact ⟨((still_advanced x).retires.trans happlied).trans hlast.retires,
        hlast.term.trans (hcalm.term.trans (still_advanced x).term),
        hlast.vote.trans (hcalm.vote.trans (still_advanced x).vote)⟩

/-! ### Followers -/

lemma transition_eq {row : Transition} (h : x.enabled = some row) :
    x.transition A = Node.perform A { x with state := row.target } row.action := by
  rw [Node.transition, h]

lemma role_handleAppendEntries (x : Node σ) {m : Message} (h : m.term ≤ x.currentTerm) :
    (x.handleAppendEntries A m).state = x.state ∧
      (x.handleAppendEntries A m).currentTerm = x.currentTerm := by
  have hstill := still_handleAppendEntries (A := A) x m
  rw [handleTermUpdate_of_le h] at hstill
  exact ⟨hstill.state, hstill.term⟩

lemma term_handleVoteRequest (x : Node σ) (m : Message) :
    (x.handleVoteRequest m).currentTerm = max x.currentTerm m.term := by
  rw [← handleTermUpdate_term, Node.handleVoteRequest, Node.queueMessage]
  split_ifs <;> rfl

lemma term_handleVoteResponse (x : Node σ) (m : Message) :
    (x.handleVoteResponse m).currentTerm = max x.currentTerm m.term := by
  rw [← handleTermUpdate_term, Node.handleVoteResponse, Node.recordVote]
  split_ifs <;> rfl

lemma role_handleVoteRequest (x : Node σ) {m : Message} (h : m.term ≤ x.currentTerm) :
    (x.handleVoteRequest m).state = x.state ∧
      (x.handleVoteRequest m).currentTerm = x.currentTerm := by
  refine ⟨?_, (term_handleVoteRequest x m).trans (max_eq_left h)⟩
  rw [Node.handleVoteRequest, handleTermUpdate_of_le h, Node.queueMessage]
  split_ifs <;> rfl

lemma role_handleVoteResponse (x : Node σ) {m : Message} (h : m.term ≤ x.currentTerm) :
    (x.handleVoteResponse m).state = x.state ∧
      (x.handleVoteResponse m).currentTerm = x.currentTerm := by
  refine ⟨?_, (term_handleVoteResponse x m).trans (max_eq_left h)⟩
  rw [Node.handleVoteResponse, handleTermUpdate_of_le h, Node.recordVote]
  split_ifs <;> rfl

/-- A follower stays one, whatever messages of its term it has, unless its time is over. -/
lemma follower_cases (hs : x.state = .follower)
    (hq : ∀ kind, ∀ m ∈ x.queueOf kind, m.term ≤ x.currentTerm) :
    ((x.transition A).state = .follower ∧ (x.transition A).currentTerm = x.currentTerm) ∨
    (x.guardTimeoutExpired = true ∧
      x.transition A = Node.becomeCandidate { x with state := .candidate }) := by
  have hcase := transition_cases (A := A) x
  generalize x.transition A = y at hcase ⊢
  cases hcase with
  | none => exact Or.inl ⟨hs, rfl⟩
  | campaign hg => exact Or.inr ⟨hg, rfl⟩
  | giveUp hc => exact absurd (hs.symm.trans hc) (by decide)
  | win hc => exact absurd (hs.symm.trans hc) (by decide)
  | append m rest hm =>
      have hle : m.term ≤ x.currentTerm :=
        hq .appendEntries m (by rw [Node.queueOf, hm]; exact List.mem_cons_self)
      exact Or.inl
        (role_handleAppendEntries { x with state := .follower, pendingAppendEntries := rest } hle)
  | request m rest hm =>
      have hle : m.term ≤ x.currentTerm :=
        hq .requestVote m (by rw [Node.queueOf, hm]; exact List.mem_cons_self)
      exact Or.inl
        (role_handleVoteRequest { x with state := .follower, pendingVoteRequests := rest } hle)
  | requestAsCandidate m rest hm hle =>
      obtain ⟨h1, h2⟩ := role_handleVoteRequest { x with pendingVoteRequests := rest } hle
      exact Or.inl ⟨h1.trans hs, h2⟩
  | vote m rest hm =>
      have hle : m.term ≤ x.currentTerm :=
        hq .requestVoteResponse m (by rw [Node.queueOf, hm]; exact List.mem_cons_self)
      obtain ⟨h1, h2⟩ := role_handleVoteResponse { x with pendingVotes := rest } hle
      exact Or.inl ⟨h1.trans hs, h2⟩
  | ignoreVote => exact Or.inl ⟨hs, rfl⟩
  | ignoreVoteRequest => exact Or.inl ⟨hs, rfl⟩
  | heartbeat hl => exact absurd (hs.symm.trans hl) (by decide)

/-- A follower that has time left stays one. -/
lemma follower_transition (hs : x.state = .follower)
    (hclock : x.running = true → x.clockMs < x.electionDeadlineMs)
    (hq : ∀ kind, ∀ m ∈ x.queueOf kind, m.term ≤ x.currentTerm) :
    (x.transition A).state = .follower ∧ (x.transition A).currentTerm = x.currentTerm := by
  refine (follower_cases hs hq).resolve_right fun h => ?_
  have hg := h.1
  rw [Node.guardTimeoutExpired, Bool.and_eq_true, Bool.and_eq_true, decide_eq_true_eq] at hg
  exact absurd hg.2 (not_le.mpr (hclock hg.1.1))

/-- A follower that has time left handles a message of its leader first. -/
lemma follower_hears (hs : x.state = .follower) (hclock : x.clockMs < x.electionDeadlineMs)
    {m : Message} {rest : List Message} (hm : x.pendingAppendEntries = m :: rest)
    (hterm : x.currentTerm ≤ m.term) : x.timer.Fresh (x.transition A).timer := by
  have htime : x.guardTimeoutExpired = false := by
    rw [Node.guardTimeoutExpired, decide_eq_false (not_le.mpr hclock), Bool.and_false]
  have happend : x.guardHasAppendEntries = true := by
    rw [Node.guardHasAppendEntries, hm]
    rfl
  have hrow : x.enabled = some ⟨.follower, .follower, .hasAppendEntries, .handleAppendEntries⟩ := by
    rw [Node.enabled, raftTransitions, List.find?_cons_of_neg (by simp [Node.holds, htime]),
      List.find?_cons_of_pos (by simp [hs, Node.holds, happend])]
  rw [transition_eq hrow]
  have haction : Node.perform A { x with state := .follower } .handleAppendEntries =
      Node.handleAppendEntries A { x with state := .follower, pendingAppendEntries := rest } m := by
    rw [Node.perform, Node.actionHandleAppendEntries]
    dsimp only
    rw [hm]
  dsimp only
  rw [haction]
  exact fresh_handleAppendEntries { x with state := .follower, pendingAppendEntries := rest } hterm

/-- A stopped node has nothing to handle. -/
lemma queueOf_stopped (hrun : x.running = false) (t : TickInput) (kind : MessageKind) :
    (x.latched t).queueOf kind = [] := by
  rw [Node.latched, Node.latchInputs]
  dsimp only
  rw [if_pos hrun]
  cases kind <;> rfl

/-- What is left to handle after the first phase of a tick carries no newer term either. -/
lemma queueOf_within {t : TickInput} (h : t.Within T) (x : Node σ) (kind : MessageKind)
    {m : Message} (hm : m ∈ (x.latched t).queueOf kind) : m.term ≤ T := by
  by_cases hkind : kind = .appendEntriesResponse
  · rw [hkind] at hm
    exact absurd hm List.not_mem_nil
  · cases hrun : x.running with
    | false =>
        rw [queueOf_stopped hrun] at hm
        exact absurd hm List.not_mem_nil
    | true =>
        rw [queueOf_latched hrun t kind hkind] at hm
        exact h m (List.mem_of_mem_take (List.mem_filter.mp hm).1)

/-- The first message of a leader that the tick receives is one of the term. -/
def TickInput.hears (t : TickInput) (T : ℤ) : Bool :=
  (t.received .appendEntries).head?.any fun m => decide (m.term = T)

/-- Ticks that come in time for a follower of a term that has until `due`: none brings a newer term,
and each one comes less than the election timeout after the last one that heard the leader. -/
def InTime (base T : ℤ) : ℤ → List TickInput → Prop
  | _, [] => True
  | due, t :: ts => t.Within T ∧ t.clockMs < due ∧
      InTime base T
        (if t.hears T then t.clockMs + base else min due (t.clockMs + base)) ts

/-- A follower of a term that has until `due`. -/
structure Following (base T due : ℤ) (x : Node σ) : Prop where
  state : x.state = .follower
  term : x.currentTerm = T
  base : x.config.electionTimeoutMs = base
  due : x.running = true → due ≤ x.electionDeadlineMs

/-- The node in the second phase of a tick. -/
lemma seat_timer_acting {t : TickInput} (h : t.Within x.currentTerm) :
    ({ x.latched t with clockMs := t.clockMs } : Node σ).seat = x.seat ∧
      ({ x.latched t with clockMs := t.clockMs } : Node σ).timer =
        { x.timer with clock := t.clockMs } := by
  refine ⟨seat_latched h, ?_⟩
  have htimer := timer_latched x t
  have hdeadline : (x.latched t).electionDeadlineMs = x.electionDeadlineMs :=
    congrArg Timer.deadline htimer
  have hbase : (x.latched t).config.electionTimeoutMs = x.config.electionTimeoutMs :=
    congrArg Timer.base htimer
  rw [Node.timer, Node.timer, hdeadline, hbase]

/-- **A tick in time** leaves a follower one. -/
lemma Following.ticked {base due : ℤ} (hb : 0 ≤ base) (h : Following base T due x) {t : TickInput}
    (hw : t.Within T) (hclock : t.clockMs < due) :
    Following base T (if t.hears T then t.clockMs + base else min due (t.clockMs + base))
      (x.ticked A t) := by
  obtain ⟨hseat, htimer⟩ := seat_timer_acting (x := x) (by rw [h.term]; exact hw)
  obtain ⟨y, hy⟩ : ∃ y : Node σ, y = { x.latched t with clockMs := t.clockMs } := ⟨_, rfl⟩
  rw [← hy] at hseat htimer
  have hs : y.state = .follower := (congrArg Seat.state hseat).trans h.state
  have hterm : y.currentTerm = T := (congrArg Seat.term hseat).trans h.term
  have hrun : y.running = x.running := congrArg Seat.running hseat
  have hdue : y.running = true → due ≤ y.electionDeadlineMs := by
    intro hr
    have hsame : y.electionDeadlineMs = x.electionDeadlineMs := congrArg Timer.deadline htimer
    rw [hsame]
    exact h.due (hrun ▸ hr)
  have hclk : y.clockMs = t.clockMs := congrArg Timer.clock htimer
  have hbase : y.timer.base = base := (congrArg Timer.base htimer).trans h.base
  have htime : y.running = true → y.clockMs < y.electionDeadlineMs := by
    intro hr
    rw [hclk]
    exact hclock.trans_le (hdue hr)
  have hrun' := transition_running (A := A) y
  obtain ⟨hs', hterm'⟩ := follower_transition (A := A) hs htime fun kind m hm => by
    rw [hterm]
    rw [hy] at hm
    exact queueOf_within hw x kind hm
  obtain ⟨hretires, hterm'', -⟩ := dumped_role (A := A) (y.transition A)
  have htimer' := timer_dumpOutputs (A := A) (y.transition A)
  have hticked : x.ticked A t = ((y.transition A).dumpOutputs A).node := by
    rw [Node.ticked, Node.acted, hy]
  have hnew : y.timer.Fresh (y.transition A).timer →
      t.clockMs + base ≤ (y.transition A).electionDeadlineMs := by
    intro hf
    have hlo := (hf.bounds (by rw [hbase]; exact hb)).1
    rw [hbase, show y.timer.clock = t.clockMs from hclk] at hlo
    exact hlo
  have hlater := later_transition (A := A) y
  rw [hticked]
  refine ⟨?_, hterm''.trans (hterm'.trans hterm), ?_, fun hr => ?_⟩
  · rcases hretires with ⟨-, hst⟩ | ⟨-, hst⟩
    · exact hst.trans hs'
    · exact hst
  · have hb' : (y.transition A).timer.base = base := by
      rcases hlater with heq | hf
      · rw [heq, hbase]
      · rw [hf.base, hbase]
    exact (congrArg Timer.base htimer').trans hb'
  · have hr' : y.running = true := by
      rcases hretires with ⟨hr', -⟩ | ⟨hr', -⟩
      · exact hrun'.symm.trans (hr'.symm.trans hr)
      · exact absurd (hr'.symm.trans hr) (by decide)
    rw [show ((y.transition A).dumpOutputs A).node.electionDeadlineMs =
      (y.transition A).electionDeadlineMs from congrArg Timer.deadline htimer']
    split_ifs with hhears
    · rw [TickInput.hears, Option.any_eq_true] at hhears
      obtain ⟨m, hm, hmT⟩ := hhears
      have hqueue : y.pendingAppendEntries = t.received .appendEntries := by
        rw [hy]
        exact queueOf_latched (hrun.symm.trans hr') t .appendEntries (by decide)
      obtain ⟨rest, hrest⟩ := List.head?_eq_some_iff.mp hm
      refine hnew (follower_hears hs (htime hr') (hqueue.trans hrest) ?_)
      rw [hterm, of_decide_eq_true hmT]
    · rcases hlater with heq | hf
      · have hsame : (y.transition A).electionDeadlineMs = y.electionDeadlineMs :=
          congrArg Timer.deadline heq
        rw [hsame]
        exact (min_le_left _ _).trans (hdue hr')
      · exact (min_le_right _ _).trans (hnew hf)

/-- **A follower that hears its leader in time** stays a follower in its term: it starts no
election, whatever else it hears that is not newer. -/
theorem follower_stays (A : Application σ) {base : ℤ} (hb : 0 ≤ base) (ts : List TickInput) :
    ∀ {due : ℤ} {x : Node σ}, Following base T due x → InTime base T due ts →
      (x.ticks A ts).state = .follower ∧ (x.ticks A ts).currentTerm = T := by
  induction ts with
  | nil => exact fun h _ => ⟨h.state, h.term⟩
  | cons t ts ih =>
      intro due x h hts
      obtain ⟨hw, hclock, hrest⟩ := hts
      exact ih (h.ticked hb hw hclock) hrest

/-- A tick of an idle program at some time. -/
def tickAt (clockMs : ℤ) (messages : List Message) : TickInput :=
  { latchMs := clockMs, clockMs := clockMs, slots := fun _ => ⟨0, 0, [], ⟨[], [], []⟩⟩
    messages := messages, commands := [] }

/-- A follower of term 2 that has half of its time left. -/
def halfWay : Node Unit :=
  { Node.zero { threeConfig n2 with peers := [n1, n3] } () 0 with
    currentTerm := 2, electionDeadlineMs := 500 }

/-- A heartbeat, a stray one of an old leader, and a heartbeat again. -/
def heartbeats : List TickInput :=
  [tickAt 400 [heartbeat n1 n2 2], tickAt 900 [heartbeat n3 n2 1], tickAt 1300 [heartbeat n1 n2 2],
    tickAt 2200 []]

theorem follower_stays_heartbeats :
    (Following 1000 2 500 halfWay ∧ InTime 1000 2 500 heartbeats) ∧
      (halfWay.ticks silent heartbeats).state = .follower ∧
        (halfWay.ticks silent heartbeats).currentTerm = 2 := by
  have hnode : Following 1000 2 500 halfWay := ⟨rfl, rfl, rfl, fun _ => le_rfl⟩
  have htime : InTime 1000 2 500 heartbeats := by
    refine ⟨?_, by decide, ?_, by decide, ?_, by decide, ?_, by decide, trivial⟩ <;>
      simp [TickInput.Within, tickAt, heartbeat]
  exact ⟨⟨hnode, htime⟩, follower_stays silent (by decide) heartbeats hnode htime⟩

/-! ### Leaders -/

/-- A leader with a message of any leader steps down; without one it goes on. -/
lemma leader_transition (x : Node σ) (hs : x.state = .leader)
    (hq : ∀ kind, ∀ m ∈ x.queueOf kind, m.term ≤ x.currentTerm) :
    (x.transition A).state = (if x.pendingAppendEntries = [] then .leader else .follower) ∧
      (x.transition A).currentTerm = x.currentTerm := by
  split_ifs with happ
  · have hquiet : x.guardHasAppendEntries = false := by rw [Node.guardHasAppendEntries, happ]; rfl
    rw [Node.transition]
    cases henabled : x.enabled with
    | none => exact ⟨hs, rfl⟩
    | some row =>
        obtain ⟨hmem, hsrc, hg⟩ := enabled_spec henabled
        rw [hs] at hsrc
        simp only [raftTransitions, List.mem_cons, List.not_mem_nil, or_false] at hmem
        rcases hmem with rfl | rfl | rfl | rfl | rfl | rfl | rfl | rfl | rfl | rfl | rfl | rfl |
          rfl | rfl | rfl
        -- rows from another role
        iterate 10 exact absurd hsrc (by decide)
        · exact absurd hg (by simp [Node.holds, hquiet])
        · rw [Node.holds, Node.guardHasHigherTermVoteRequest] at hg
          cases hreq : x.pendingVoteRequests with
          | nil =>
              rw [hreq] at hg
              exact absurd hg Bool.false_ne_true
          | cons m rest =>
              rw [hreq] at hg
              have hle := hq .requestVote m (by rw [Node.queueOf, hreq]; exact List.mem_cons_self)
              exact absurd (of_decide_eq_true hg) (not_lt.mpr hle)
        · exact ⟨rfl, rfl⟩
        · exact ⟨rfl, rfl⟩
        · have hstill := still_broadcastAppendEntries ({ x with state := .leader } : Node σ)
          exact ⟨hstill.state, hstill.term⟩
  · have happend : x.guardHasAppendEntries = true := by
      rw [Node.guardHasAppendEntries]
      simpa using happ
    have hrow : x.enabled = some ⟨.leader, .follower, .hasAppendEntries, .handleAppendEntries⟩ := by
      simp [Node.enabled, raftTransitions, hs, Node.holds, happend]
    obtain ⟨m, rest, hm⟩ := List.exists_cons_of_ne_nil happ
    have hle := hq .appendEntries m (by rw [Node.queueOf, hm]; exact List.mem_cons_self)
    have haction : x.transition A = Node.handleAppendEntries A
        { x with state := .follower, pendingAppendEntries := rest } m := by
      rw [transition_eq hrow, Node.perform, Node.actionHandleAppendEntries]
      dsimp only
      rw [hm]
    rw [haction]
    exact role_handleAppendEntries { x with state := .follower, pendingAppendEntries := rest } hle

/-- The node does not lead in the term any more, nor can it come back to it. -/
def Deposed (T : ℤ) (x : Node σ) : Prop :=
  T < x.currentTerm ∨ x.currentTerm = T ∧ x.state = .follower

/-- A transition never lowers the term. -/
lemma term_transition (x : Node σ) : x.currentTerm ≤ (x.transition A).currentTerm := by
  have hcase := transition_cases (A := A) x
  generalize x.transition A = y at hcase ⊢
  cases hcase with
  | none | giveUp | ignoreVote | ignoreVoteRequest => exact le_rfl
  | campaign =>
      obtain ⟨d, ms, heq, -⟩ := becomeCandidate_eq { x with state := .candidate }
      rw [heq]
      exact Int.le_add_one le_rfl
  | win =>
      exact (still_broadcastAppendEntries _).term.ge
  | append m rest =>
      have hstill := still_handleAppendEntries (A := A)
        { x with state := .follower, pendingAppendEntries := rest } m
      rw [hstill.term, handleTermUpdate_term]
      exact le_max_left _ _
  | request m rest | requestAsCandidate m rest =>
      rw [term_handleVoteRequest]
      exact le_max_left _ _
  | vote m rest =>
      rw [term_handleVoteResponse]
      exact le_max_left _ _
  | heartbeat => exact (still_broadcastAppendEntries x).term.ge

/-- **The node stays deposed.** -/
lemma Deposed.ticked (h : Deposed T x) {t : TickInput} (hw : t.Within T) :
    Deposed T (x.ticked A t) := by
  have hle : T ≤ x.currentTerm := by
    rcases h with h | ⟨h, -⟩
    · exact h.le
    · exact h.ge
  obtain ⟨hseat, -⟩ := seat_timer_acting (x := x) fun m hm => (hw m hm).trans hle
  obtain ⟨y, hy⟩ : ∃ y : Node σ, y = { x.latched t with clockMs := t.clockMs } := ⟨_, rfl⟩
  rw [← hy] at hseat
  have hterm : y.currentTerm = x.currentTerm := congrArg Seat.term hseat
  have hs : y.state = x.state := congrArg Seat.state hseat
  have hacted : Deposed T (y.transition A) := by
    rcases h with h | ⟨h, hx⟩
    · refine Or.inl (lt_of_lt_of_le ?_ (term_transition y))
      rw [hterm]
      exact h
    · have hq : ∀ kind, ∀ m ∈ y.queueOf kind, m.term ≤ y.currentTerm := by
        intro kind m hm
        rw [hterm, h]
        rw [hy] at hm
        exact queueOf_within hw x kind hm
      rcases follower_cases (A := A) (hs.trans hx) hq with ⟨hs', hterm'⟩ | ⟨-, heq⟩
      · exact Or.inr ⟨hterm'.trans (hterm.trans h), hs'⟩
      · obtain ⟨d, ms, hcand, -⟩ := becomeCandidate_eq { y with state := .candidate }
        rw [heq, hcand]
        refine Or.inl ?_
        show T < y.currentTerm + 1
        omega
  obtain ⟨hretires, hterm', -⟩ := dumped_role (A := A) (y.transition A)
  have hticked : x.ticked A t = ((y.transition A).dumpOutputs A).node := by
    rw [Node.ticked, Node.acted, hy]
  rw [hticked]
  rcases hacted with h' | ⟨h', hx'⟩
  · exact Or.inl (by rw [hterm']; exact h')
  · refine Or.inr ⟨hterm'.trans h', ?_⟩
    rcases hretires with ⟨-, hst⟩ | ⟨-, hst⟩
    · exact hst.trans hx'
    · exact hst

lemma Deposed.ticks (ts : List TickInput) :
    ∀ {x : Node σ}, Deposed T x → (∀ t ∈ ts, t.Within T) → Deposed T (x.ticks A ts) := by
  induction ts with
  | nil => exact fun h _ => h
  | cons t ts ih =>
      intro x h hts
      exact ih (h.ticked (hts t List.mem_cons_self)) fun t' ht' =>
        hts t' (List.mem_cons_of_mem t ht')

/-- A node that was stopped stays so. -/
lemma stopped_ticked (h : x.running = false) (t : TickInput) : (x.ticked A t).running = false := by
  have hlatched : (x.latched t).running = false := by
    rw [Node.latched, Node.latchInputs]
    dsimp only
    rw [if_pos h]
    exact h
  have hacted : (x.acted A t).running = false := (transition_running _).trans hlatched
  rcases (dumped_role (A := A) (x.acted A t)).1 with ⟨hr, -⟩ | ⟨hr, -⟩
  · exact hr.trans hacted
  · exact hr

lemma stopped_ticks (ts : List TickInput) :
    ∀ {x : Node σ}, x.running = false → (x.ticks A ts).running = false := by
  induction ts with
  | nil => exact fun h => h
  | cons t ts ih => exact fun h => ih (stopped_ticked h t)

/-- The first two phases of a leader's tick. -/
lemma leader_acted (hs : x.state = .leader) (hrun : x.running = true) {t : TickInput}
    (hw : t.Within x.currentTerm) :
    (x.acted A t).state = (if t.received .appendEntries = [] then .leader else .follower) ∧
      (x.acted A t).currentTerm = x.currentTerm := by
  obtain ⟨hseat, -⟩ := seat_timer_acting hw
  have hterm : ({ x.latched t with clockMs := t.clockMs } : Node σ).currentTerm = x.currentTerm :=
    congrArg Seat.term hseat
  have hqueue : (x.latched t).pendingAppendEntries = t.received .appendEntries :=
    queueOf_latched hrun t .appendEntries (by decide)
  obtain ⟨hs', hterm'⟩ := leader_transition (A := A) { x.latched t with clockMs := t.clockMs }
    ((congrArg Seat.state hseat).trans hs) fun kind m hm => by
      rw [hterm]
      exact queueOf_within hw x kind hm
  rw [← hqueue]
  exact ⟨hs', hterm'.trans hterm⟩

/-- What the last phase of a tick leaves of a leader that was in the term. -/
lemma leader_ticked (hs : x.state = .leader) (hrun : x.running = true) {t : TickInput}
    (hw : t.Within x.currentTerm) :
    (t.received .appendEntries = [] ∧ (x.ticked A t).running = true ∧
        (x.ticked A t).state = .leader ∧ (x.ticked A t).currentTerm = x.currentTerm) ∨
      ((t.received .appendEntries ≠ [] ∨ (x.ticked A t).running = false) ∧
        Deposed x.currentTerm (x.ticked A t)) := by
  obtain ⟨hacted, hterm⟩ := leader_acted (A := A) hs hrun hw
  obtain ⟨hretires, hterm', -⟩ := dumped_role (A := A) (x.acted A t)
  have hT : (x.ticked A t).currentTerm = x.currentTerm := hterm'.trans hterm
  rcases hretires with ⟨hr, hst⟩ | ⟨hr, hst⟩
  · have hr' : (x.acted A t).running = true := by
      rw [Node.acted, transition_running]
      exact (congrArg Seat.running (seat_timer_acting hw).1).trans hrun
    by_cases happ : t.received .appendEntries = []
    · rw [if_pos happ] at hacted
      exact Or.inl ⟨happ, hr.trans hr', hst.trans hacted, hT⟩
    · rw [if_neg happ] at hacted
      exact Or.inr ⟨Or.inl happ, Or.inr ⟨hT, hst.trans hacted⟩⟩
  · exact Or.inr ⟨Or.inr hr, Or.inr ⟨hT, hst⟩⟩

/-- **A leader in a term without newer messages** still leads in it exactly if it has not stopped
itself and has received no `APPEND_ENTRIES`: any of them deposes it, also a stray one of an old
term, and nothing else does. -/
theorem leader_deposed_iff (A : Application σ) (ts : List TickInput) :
    ∀ {x : Node σ}, x.state = .leader → x.running = true → (∀ t ∈ ts, t.Within x.currentTerm) →
      (((x.ticks A ts).state = .leader ∧ (x.ticks A ts).currentTerm = x.currentTerm) ↔
        (x.ticks A ts).running = true ∧ ∀ t ∈ ts, t.received .appendEntries = []) := by
  induction ts with
  | nil => exact fun hs hrun _ => iff_of_true ⟨hs, rfl⟩ ⟨hrun, by simp⟩
  | cons t ts ih =>
      intro x hs hrun hts
      have hts' : ∀ t' ∈ ts, t'.Within x.currentTerm :=
        fun t' ht' => hts t' (List.mem_cons_of_mem t ht')
      rw [List.forall_mem_cons]
      rcases leader_ticked (A := A) hs hrun (hts t List.mem_cons_self) with
        ⟨happ, hrun', hs', hT⟩ | ⟨hwhy, hdeposed⟩
      · have hrest := ih hs' hrun' (by rw [hT]; exact hts')
        rw [hT] at hrest
        exact hrest.trans (and_congr_right fun _ => (and_iff_right happ).symm)
      · -- the node has left its office, and does not come back to it
        refine iff_of_false (fun ⟨hlead, hsame⟩ => ?_) fun ⟨hend, hall⟩ => ?_
        · rcases hdeposed.ticks (A := A) ts hts' with hlt | ⟨-, hfollow⟩
          · exact absurd hsame hlt.ne'
          · exact absurd (hlead.symm.trans hfollow) (by decide)
        · rcases hwhy with happ | hstop
          · exact happ hall.1
          · exact Bool.false_ne_true ((stopped_ticks ts hstop).symm.trans hend)

/-- A leader of term 2. -/
def secondLeader : Node Unit :=
  { Node.zero { threeConfig n1 with peers := [n2, n3] } () 0 with
    currentTerm := 2, state := .leader }

/-- An answer and a stray vote request, and then a heartbeat of the leader of term 1. -/
def strayHeartbeat : List TickInput :=
  [tickAt 5 [appendAnswer n2 n1 2 true 0, voteRequest n3 n1 1 0 0], tickAt 6 [heartbeat n3 n1 1]]

/-- The old leader deposes the new one. -/
theorem leader_deposed_iff_stray :
    (∀ t ∈ strayHeartbeat, t.Within secondLeader.currentTerm) ∧
      (secondLeader.ticks silent strayHeartbeat).running = true ∧
      (((secondLeader.ticks silent strayHeartbeat).state = .leader ∧
          (secondLeader.ticks silent strayHeartbeat).currentTerm = secondLeader.currentTerm) ↔
        (secondLeader.ticks silent strayHeartbeat).running = true ∧
          ∀ t ∈ strayHeartbeat, t.received .appendEntries = []) := by
  have hwithin : ∀ t ∈ strayHeartbeat, t.Within secondLeader.currentTerm := by
    simp [strayHeartbeat, TickInput.Within, tickAt, appendAnswer, voteRequest, heartbeat,
      secondLeader]
  have hrun : (secondLeader.ticks silent strayHeartbeat).running = true := by decide +kernel
  exact ⟨hwithin, hrun, leader_deposed_iff silent strayHeartbeat rfl rfl hwithin⟩

/-! ### How long a follower waits -/

/-- The clock of an act shows at most `c`. -/
def HostAct.Until (c : ℤ) : HostAct σ → Prop
  | .latch clockMs _ _ _ => clockMs ≤ c
  | .transition clockMs => clockMs ≤ c
  | .start clockMs => clockMs ≤ c
  | .resetForJoin clockMs _ => clockMs ≤ c
  | .crash _ clockMs => clockMs ≤ c
  | .crashInDump _ _ _ clockMs => clockMs ≤ c
  | .crashInReset _ _ clockMs => clockMs ≤ c
  | _ => True

/-- The timer was set before `c`. -/
structure Timer.Before (c b : ℤ) (k : Timer) : Prop where
  clock : k.clock ≤ c
  base : k.base = b
  deadline : k.deadline ≤ c + 4 * b

lemma Timer.Before.later {c base : ℤ} {k k' : Timer} (hb : 0 ≤ base) (h : k.Before c base)
    (hl : k.Later k') : k'.Before c base := by
  rcases hl with rfl | hf
  · exact h
  · have hbounds := (hf.bounds (by rw [h.base]; exact hb)).2
    have hclock := h.clock
    rw [h.base] at hbounds
    exact ⟨hf.clock.trans_le h.clock, hf.base.trans h.base, by omega⟩

/-- One election timeout, and two more if the node was there before. -/
lemma before_of_timeout {c base : ℤ} (x : Node σ) (extra : ℤ) (hb : 0 ≤ base)
    (hbase : x.config.electionTimeoutMs = base) (hc : x.clockMs ≤ c) (hextra : extra ≤ 2 * base)
    (hy : y.timer = { deadline := x.clockMs + x.nextElectionTimeout + extra, clock := x.clockMs
                      base := base }) : y.timer.Before c base := by
  have hbounds := (nextElectionTimeout_bounds x (by rw [hbase]; exact hb)).2
  rw [hbase] at hbounds
  rw [hy]
  exact ⟨hc, rfl, by dsimp only; omega⟩

/-- A node that was initialised. -/
lemma before_init {c : ℤ} (config : NodeConfig) (hb : 0 ≤ config.electionTimeoutMs) (disk : Disk)
    (user : σ) {clockMs : ℤ} (hc : clockMs ≤ c) :
    (Node.init A config disk user clockMs).timer.Before c config.electionTimeoutMs := by
  have hfresh : (Node.fresh A config disk user clockMs).timer.base = config.electionTimeoutMs ∧
      (Node.fresh A config disk user clockMs).clockMs = clockMs := by
    obtain ⟨v, la, buf, k, th, heq⟩ := loaded_eq (A := A) config disk user clockMs
    rw [Node.fresh, heq]
    split_ifs <;> exact ⟨rfl, rfl⟩
  rw [init_ready]
  obtain ⟨y, hy⟩ : ∃ y : Node σ, y = { Node.fresh A config disk user clockMs with
    configState := (Node.fresh A config disk user clockMs).startConfig } := ⟨_, rfl⟩
  have hbase : y.config.electionTimeoutMs = config.electionTimeoutMs := by
    rw [hy]
    exact hfresh.1
  have hclock : y.clockMs = clockMs := by
    rw [hy]
    exact hfresh.2
  rw [← hy]
  refine before_of_timeout (Node.refreshPeers { y with
    membershipState := if y.configState.isJoint then .joint else .stable })
    (if 0 < y.currentTerm then 2 * config.electionTimeoutMs else 0) hb hbase
    (by rw [← hclock] at hc; exact hc) ?_ ?_
  · split_ifs <;> omega
  · rw [Node.ready, ← hclock, ← hbase]
    rfl

/-- A node that was started again. -/
lemma before_start {c base clock : ℤ} (hb : 0 ≤ base)
    (hbase : x.config.electionTimeoutMs = base) (hc : clock ≤ c) (disk : Disk) :
    (Node.start A { x with clockMs := clock } disk).timer.Before c base := by
  obtain ⟨y, hy⟩ : ∃ y, y = Node.load A disk { x with clockMs := clock } := ⟨_, rfl⟩
  have hloaded : y.clockMs = clock ∧ y.config.electionTimeoutMs = base := by
    obtain ⟨v, la, buf, k, heq⟩ := load_eq (A := A) { x with clockMs := clock } disk
    rw [hy, heq]
    exact ⟨rfl, hbase⟩
  obtain ⟨z, hz⟩ : ∃ z : Node σ, z = (if y.needsFallback then
      Node.refreshPeers { y with configState := y.fallbackConfig } else y) := ⟨_, rfl⟩
  have hset : z.clockMs = clock ∧ z.config.electionTimeoutMs = base := by
    rw [hz]
    split_ifs <;> exact hloaded
  refine before_of_timeout z (2 * base) hb hset.2 (hset.1.trans_le hc) le_rfl ?_
  rw [Node.start, ← hy, ← hz, ← hset.2]
  rfl

/-- **The timer of a host** was set before the last moment its clock showed. -/
lemma before_step {c base : ℤ} (hb : 0 ≤ base) {h h' : Host σ} {a : HostAct σ}
    (hconfig : h.config.electionTimeoutMs = base) (hbefore : h.node.timer.Before c base)
    (ha : a.Until c) (hstep : h.step A a = some h') :
    h'.config.electionTimeoutMs = base ∧ h'.node.timer.Before c base := by
  obtain ⟨e, hexec⟩ := exec_of_step hstep
  obtain ⟨hcase, -⟩ := exec_cases hexec
  have hbase := hbefore.base
  have hsame : ∀ {k : Timer}, k = h.node.timer → k.Before c base := fun hk => hk ▸ hbefore
  cases hcase with
  | latch clock slots ms cs =>
      refine ⟨hconfig, ?_⟩
      have htimer := timer_latched h.node
        { latchMs := clock, clockMs := clock, slots := slots, messages := ms, commands := cs }
      have hset : (Timer.Before c base { h.node.timer with clock := clock }) :=
        ⟨ha, hbefore.base, hbefore.deadline⟩
      rw [← htimer] at hset
      exact hset
  | transition clock =>
      refine ⟨hconfig, ?_⟩
      have hset : (Node.timer { h.node with clockMs := clock }).Before c base :=
        ⟨ha, hbefore.base, hbefore.deadline⟩
      exact hset.later hb (later_transition { h.node with clockMs := clock })
  | dumpStopped => exact ⟨hconfig, hsame rfl⟩
  | dump _ hrun =>
      refine ⟨hconfig, hsame ?_⟩
      rw [← timer_dumpOutputs (A := A) h.node, dumpOutputs_eq hrun]
  | stop => exact ⟨hconfig, hsame rfl⟩
  | start clock => exact ⟨hconfig, before_start hb hbase ha h.disk⟩
  | request ms =>
      obtain ⟨r, b, hreq⟩ := requestMembershipChange_eq h.node ms
      refine ⟨hconfig, hsame ?_⟩
      dsimp only
      rw [hreq]
      rfl
  | resetForJoin clock user =>
      have hc : clock ≤ c := ha
      exact ⟨hconfig, before_of_timeout (Node.refreshPeers
        { Node.forget { h.node with clockMs := clock, user := user } with
          leaderId := [], votesReceived := [], pendingAppendEntries := [], pendingVoteRequests := []
          pendingVotes := [], outbox := [], config := { h.node.config with learner := true }
          membershipState := .stable }) (2 * h.node.config.electionTimeoutMs) hb hbase hc
        (by rw [show h.node.config.electionTimeoutMs = base from hbase]) (by rw [← hbase]; rfl)⟩
  | crash user clock =>
      refine ⟨hconfig, ?_⟩
      rw [← hconfig] at hb ⊢
      exact before_init h.config hb h.disk user ha
  | crashInDump _ _ user | crashInReset _ user =>
      refine ⟨hconfig, ?_⟩
      rw [← hconfig] at hb ⊢
      exact before_init h.config hb _ user ha

/-- A follower whose time is over starts an election, whatever it has received. -/
lemma transition_expired (hs : x.state = .follower) (hexpired : x.guardTimeoutExpired = true) :
    x.transition A = Node.becomeCandidate { x with state := .candidate } := by
  have hrow : x.enabled = some ⟨.follower, .candidate, .timeoutExpired, .becomeCandidate⟩ := by
    rw [Node.enabled, raftTransitions, List.find?_cons_of_pos]
    rw [hs, Node.holds, hexpired]
    rfl
  exact transition_eq hrow

/-- **No follower waits forever**: in every run of a host, crashes and restarts included, a running
follower that may vote starts an election in the first tick that comes four election timeouts after
everything before, whatever it hears in this tick that is not newer than its term. -/
theorem late_follower_campaigns {config : NodeConfig} (hb : 0 ≤ config.electionTimeoutMs) (user : σ)
    {clockMs c : ℤ} (hc : clockMs ≤ c) {h : Host σ}
    (hrun : Run (Host.step A) (fun _ a => a.Until c) (Host.boot A config user clockMs) h)
    (hon : h.node.running = true) (hs : h.node.state = .follower)
    (hmember : h.node.selfIsMember = true) {t : TickInput} (hw : t.Within h.node.currentTerm)
    (hlate : c + 4 * config.electionTimeoutMs ≤ t.clockMs) :
    (h.node.acted A t).state = .candidate ∧
      (h.node.acted A t).currentTerm = h.node.currentTerm + 1 := by
  obtain ⟨-, hbefore⟩ := hrun.invariant
    (I := fun h => h.config.electionTimeoutMs = config.electionTimeoutMs ∧
      h.node.timer.Before c config.electionTimeoutMs)
    (fun _ _ _ hI ha hstep => before_step hb hI.1 hI.2 ha hstep)
    ⟨rfl, before_init config hb Disk.empty user hc⟩
  obtain ⟨hseat, htimer⟩ := seat_timer_acting hw
  rw [Node.acted]
  obtain ⟨y, hy⟩ : ∃ y : Node σ, y = { h.node.latched t with clockMs := t.clockMs } := ⟨_, rfl⟩
  rw [← hy] at hseat htimer ⊢
  have hdue : y.electionDeadlineMs ≤ y.clockMs := by
    have hdeadline : y.electionDeadlineMs = h.node.electionDeadlineMs :=
      congrArg Timer.deadline htimer
    have hclock : y.clockMs = t.clockMs := congrArg Timer.clock htimer
    rw [hdeadline, hclock]
    exact hbefore.deadline.trans hlate
  have hmember' : y.selfIsMember = true := by
    have hcfg : y.config = h.node.config := congrArg Seat.config hseat
    have hstate : y.configState = h.node.configState := congrArg Seat.configState hseat
    rw [Node.selfIsMember, hcfg, hstate]
    exact hmember
  have hon' : y.running = true := (congrArg Seat.running hseat).trans hon
  have hs' : y.state = .follower := (congrArg Seat.state hseat).trans hs
  have hexpired : y.guardTimeoutExpired = true := by
    rw [Node.guardTimeoutExpired, hon', hmember', decide_eq_true hdue]
    rfl
  obtain ⟨d, ms, hcand, -⟩ := becomeCandidate_eq { y with state := .candidate }
  rw [transition_expired hs' hexpired, hcand]
  exact ⟨rfl, congrArg (· + 1) (congrArg Seat.term hseat)⟩

/-- A tick of the patient node that hears a heartbeat. -/
def heardOnce : List (HostAct Unit) :=
  [.latch 2 (fun _ => ⟨0, 0, [], ⟨[], [], []⟩⟩) [heartbeat n1 n2 1] [], .transition 3, .dump]

/-- After that it is left alone. -/
theorem late_follower_campaigns_heard : ∃ h : Host Unit,
    Run (Host.step silent) (fun _ a => a.Until 3) (Host.boot silent (threeConfig n2) () 0) h ∧
      h.node.currentTerm = 1 ∧ (h.node.acted silent (tickAt 4003 [])).state = .candidate ∧
      (h.node.acted silent (tickAt 4003 [])).currentTerm = h.node.currentTerm + 1 := by
  have huntil : ∀ a ∈ heardOnce, a.Until 3 := by simp [heardOnce, HostAct.Until]
  have hexec : (execAll (Host.step silent) (fun _ _ => true)
      (Host.boot silent (threeConfig n2) () 0) heardOnce).any (fun h =>
        decide (h.node.currentTerm = 1 ∧ h.node.running = true ∧ h.node.state = .follower ∧
          h.node.selfIsMember = true)) = true := by decide +kernel
  obtain ⟨h, hrun, hq⟩ := Run.exists_of_forall huntil hexec
  obtain ⟨hterm, hon, hs, hmember⟩ := of_decide_eq_true hq
  have hpatient : 0 ≤ (threeConfig n2).electionTimeoutMs := by decide
  exact ⟨h, hrun, hterm, late_follower_campaigns hpatient () (by decide) hrun hon hs hmember
    (by simp [TickInput.Within, tickAt]) (by decide)⟩

end RaftRx.C
