import RaftRx.C.MemoryTransport
import RaftRx.C.AppendMerge

/-!
Client commands on their way into the log of a leader.

`raft_node_submit_command` puts a command into the queue of the transport, and the next tick of the
leader takes the whole queue; its loop ends early when the log is full.

* `Node.submitCommand`, `Node.submitAll`, `Node.latchFrom`: the two ends of the queue;
* `log_receiveAll`, `log_appendClientCommands`: what the messages and the commands of a latch do to
  the log;
* `Node.GrownBy`: the log has grown by some commands;
* `latch_takes_accepted_iff`: the accepted commands all enter the log if and only if there is room.
-/

namespace RaftRx.C

open Protocol (Role)

variable {σ : Type*} {x y : Node σ}

namespace Node

/-- `raft_node_submit_command` over the memory transport, and whether it returned `0`. -/
def submitCommand (node : Node σ) (transport : MemoryTransport) (command : Command) :
    MemoryTransport × Bool :=
  if node.running = false ∨ node.selfIsMember = false then (transport, false)
  else transport.submitClientCommand node.config.nodeId command

/-- Commands submitted one after the other: the transport after them, and those that were
accepted. -/
def submitAll (node : Node σ) (transport : MemoryTransport) :
    List Command → MemoryTransport × List Command
  | [] => (transport, [])
  | command :: commands =>
      let (transport, accepted) := node.submitCommand transport command
      let (transport, rest) := node.submitAll transport commands
      (transport, if accepted then command :: rest else rest)

/-- `raft_node_latch_inputs` over the memory transport, for some messages; a stopped node leaves its
queue alone. -/
def latchFrom (node : Node σ) (transport : MemoryTransport) (messages : List Message) :
    Node σ × MemoryTransport :=
  if node.running = false then (node.latchInputs messages [], transport)
  else
    let (transport, commands) := transport.recvClientCommands node.config.nodeId maxQueue
    (node.latchInputs messages commands, transport)

/-- The log has grown by exactly these commands, in this order, with consecutive indices and the
current term. -/
def GrownBy (x y : Node σ) (commands : List Command) : Prop :=
  ∃ es : List LogEntry, y.log = x.log ++ es ∧ es.map LogEntry.command = commands ∧
    ∀ (k : ℕ) (e : LogEntry), es[k]? = some e →
      e.index = x.lastLogIndex + 1 + k ∧ e.term = y.currentTerm

end Node

/-! ### The queue -/

/-- What a leader submits goes to the queue, or is refused. -/
lemma submitCommand_eq (hlead : x.isLeader = true) (transport : MemoryTransport) (c : Command) :
    x.submitCommand transport c = transport.submitClientCommand x.config.nodeId c := by
  rw [Node.isLeader, Bool.and_eq_true, Bool.and_eq_true] at hlead
  rw [Node.submitCommand, if_neg (by simp [hlead.1.1, hlead.1.2])]

/-- One submission: the accepted command is queued last. -/
lemma queuedCommands_submit (transport : MemoryTransport) (n : CString) (c : Command)
    (hfit : (transport.queuedCommands n).length ≤ maxQueue) :
    (transport.submitClientCommand n c).1.queuedCommands n = transport.queuedCommands n ++
        (if (transport.submitClientCommand n c).2 then [c] else []) ∧
      ((transport.submitClientCommand n c).1.queuedCommands n).length ≤ maxQueue := by
  change (MemoryTransport.queuedAt (MemoryTransport.enqueue transport.clientQueues
      (transport.findNode n) c).1 (transport.findNode n)) =
    MemoryTransport.queuedAt transport.clientQueues (transport.findNode n) ++
      (if (MemoryTransport.enqueue transport.clientQueues (transport.findNode n) c).2 then [c]
        else []) ∧
    (MemoryTransport.queuedAt (MemoryTransport.enqueue transport.clientQueues
      (transport.findNode n) c).1 (transport.findNode n)).length ≤ maxQueue
  change (MemoryTransport.queuedAt transport.clientQueues (transport.findNode n)).length ≤ _ at hfit
  cases hn : transport.findNode n with
  | none => exact ⟨rfl, Nat.zero_le _⟩
  | some i =>
      rw [hn] at hfit
      by_cases hfull : maxQueue ≤ (transport.clientQueues i).length
      · simp only [MemoryTransport.enqueue, if_pos hfull, MemoryTransport.queuedAt,
          Bool.false_eq_true, if_false, List.append_nil, true_and]
        exact hfit
      · simp only [MemoryTransport.enqueue, if_neg hfull, MemoryTransport.queuedAt,
          Function.update_self, if_true, true_and, List.length_append, List.length_singleton]
        omega

/-- **What was accepted is queued**, in the order of submission. -/
lemma queuedCommands_submitAll (hlead : x.isLeader = true) (cs : List Command) :
    ∀ transport : MemoryTransport,
      (transport.queuedCommands x.config.nodeId).length ≤ maxQueue →
      (x.submitAll transport cs).1.queuedCommands x.config.nodeId =
          transport.queuedCommands x.config.nodeId ++ (x.submitAll transport cs).2 ∧
        ((x.submitAll transport cs).1.queuedCommands x.config.nodeId).length ≤ maxQueue := by
  induction cs with
  | nil => exact fun _ hfit => ⟨(List.append_nil _).symm, hfit⟩
  | cons c cs ih =>
      intro transport hfit
      obtain ⟨hqueue, hfit'⟩ := queuedCommands_submit transport x.config.nodeId c hfit
      obtain ⟨hrest, hlen⟩ := ih (transport.submitClientCommand x.config.nodeId c).1 hfit'
      rw [Node.submitAll, submitCommand_eq hlead]
      refine ⟨?_, hlen⟩
      dsimp only
      rw [hrest, hqueue]
      cases (transport.submitClientCommand x.config.nodeId c).2 with
      | true => simp
      | false => simp

/-- A tick of a running node leaves its queue empty. -/
lemma queuedCommands_recvClientCommands (transport : MemoryTransport) (n : CString)
    (capacity : ℕ) :
    (transport.recvClientCommands n capacity).1.queuedCommands n = [] := by
  change MemoryTransport.queuedAt (MemoryTransport.dequeue transport.clientQueues
    (transport.findNode n) capacity).1 (transport.findNode n) = []
  cases transport.findNode n with
  | none => rfl
  | some i =>
      change Function.update transport.clientQueues i [] i = []
      rw [Function.update_self]

lemma recvClientCommands_out (transport : MemoryTransport) (n : CString) (capacity : ℕ) :
    (transport.recvClientCommands n capacity).2 =
      (transport.queuedCommands n).take capacity := by
  change (MemoryTransport.dequeue transport.clientQueues (transport.findNode n) capacity).2 =
    (MemoryTransport.queuedAt transport.clientQueues (transport.findNode n)).take capacity
  cases transport.findNode n with
  | none => exact List.take_nil.symm
  | some i => rfl

/-! ### The log -/

/-- What the commands of a latch depend on. -/
structure KeepsLog (x y : Node σ) : Prop where
  log : y.log = x.log
  snapIndex : y.snapshotLastIncludedIndex = x.snapshotLastIncludedIndex
  config : y.config = x.config
  configState : y.configState = x.configState
  state : y.state = x.state
  running : y.running = x.running

lemma KeepsLog.refl (x : Node σ) : KeepsLog x x := ⟨rfl, rfl, rfl, rfl, rfl, rfl⟩

lemma KeepsLog.trans {z : Node σ} (h : KeepsLog x y) (h' : KeepsLog y z) : KeepsLog x z :=
  ⟨h'.log.trans h.log, h'.snapIndex.trans h.snapIndex, h'.config.trans h.config,
    h'.configState.trans h.configState, h'.state.trans h.state, h'.running.trans h.running⟩

lemma KeepsLog.isLeader (h : KeepsLog x y) : y.isLeader = x.isLeader := by
  rw [Node.isLeader, Node.isLeader, Node.selfIsMember, Node.selfIsMember, h.running, h.configState,
    h.config, h.state]

lemma KeepsLog.lastLogIndex (h : KeepsLog x y) : y.lastLogIndex = x.lastLogIndex := by
  rw [Node.lastLogIndex, Node.lastLogIndex, h.log, h.snapIndex]

lemma keepsLog_queueMessage (x : Node σ) (m : Message) : KeepsLog x (x.queueMessage m) := by
  rw [Node.queueMessage]
  split <;> exact ⟨rfl, rfl, rfl, rfl, rfl, rfl⟩

lemma keepsLog_advanceCommitIndex (x : Node σ) : KeepsLog x x.advanceCommitIndex := by
  rw [Node.advanceCommitIndex]
  split <;> exact ⟨rfl, rfl, rfl, rfl, rfl, rfl⟩

lemma keepsLog_handleTermUpdate (x : Node σ) (m : Message) : KeepsLog x (x.handleTermUpdate m) := by
  rw [Node.handleTermUpdate]
  split <;> exact ⟨rfl, rfl, rfl, rfl, rfl, rfl⟩

lemma keepsLog_handleAppendEntriesResponse (x : Node σ) (m : Message) :
    KeepsLog x (x.handleAppendEntriesResponse m) := by
  refine (keepsLog_handleTermUpdate x m).trans ?_
  rw [Node.handleAppendEntriesResponse]
  dsimp only
  generalize x.handleTermUpdate m = y
  split
  · exact KeepsLog.refl y
  · split
    · exact KeepsLog.refl y
    · split
      · refine KeepsLog.trans ?_ (keepsLog_advanceCommitIndex _)
        exact ⟨rfl, rfl, rfl, rfl, rfl, rfl⟩
      · refine KeepsLog.trans ?_ (keepsLog_queueMessage _ _)
        split <;> exact ⟨rfl, rfl, rfl, rfl, rfl, rfl⟩

/-- **Messages of a latch** change neither the log nor the role. -/
lemma keepsLog_receive (x : Node σ) (m : Message) : KeepsLog x (x.receive m) := by
  rw [Node.receive]
  cases m.kind with
  | appendEntriesResponse => exact keepsLog_handleAppendEntriesResponse x m
  | appendEntries | requestVote | requestVoteResponse => exact ⟨rfl, rfl, rfl, rfl, rfl, rfl⟩

lemma keepsLog_receiveAll (ms : List Message) : ∀ x : Node σ,
    KeepsLog x (ms.foldl Node.receive x) := by
  induction ms with
  | nil => exact KeepsLog.refl
  | cons m ms ih => exact fun x => (keepsLog_receive x m).trans (ih _)

/-- **The loop over the commands**: as many as the log has room for, each one entry. -/
lemma log_appendClientCommands (cs : List Command) : ∀ x : Node σ,
    ∃ es : List LogEntry, (cs.foldl Node.appendClientCommand x).log = x.log ++ es ∧
      es.map LogEntry.command = cs.take (maxLog - x.log.length) ∧
      (∀ (k : ℕ) (e : LogEntry), es[k]? = some e →
        e.index = x.lastLogIndex + 1 + k ∧ e.term = x.currentTerm) ∧
      (cs.foldl Node.appendClientCommand x).currentTerm = x.currentTerm := by
  induction cs with
  | nil => exact fun x => ⟨[], (List.append_nil _).symm, List.take_nil.symm, by simp, rfl⟩
  | cons c cs ih =>
      intro x
      rw [List.foldl_cons]
      by_cases hroom : x.log.length < maxLog
      · obtain ⟨out, hout, -⟩ := broadcastAppendEntries_eq
          { x with log := x.log ++ [x.clientEntry c], persistDirty := true }
        have hstep : x.appendClientCommand c =
            { x with
              log := x.log ++ [x.clientEntry c], persistDirty := true, outbox := x.outbox ++ out } := by
          rw [Node.appendClientCommand, if_pos hroom, hout]
        obtain ⟨es, hlog, hcs, hes, hterm⟩ := ih (x.appendClientCommand c)
        rw [hstep] at hlog hcs hes hterm ⊢
        refine ⟨x.clientEntry c :: es, ?_, ?_, ?_, hterm⟩
        · rw [hlog, List.append_assoc, List.singleton_append]
        · have hsucc : maxLog - x.log.length = (maxLog - (x.log.length + 1)) + 1 := by omega
          rw [List.map_cons, hcs, hsucc, List.take_succ_cons, List.length_append,
            List.length_singleton]
          rfl
        · intro k e he
          cases k with
          | zero =>
              rw [List.getElem?_cons_zero, Option.some.injEq] at he
              rw [← he]
              exact ⟨(add_zero _).symm, rfl⟩
          | succ k =>
              rw [List.getElem?_cons_succ] at he
              obtain ⟨hi, ht⟩ := hes k e he
              refine ⟨?_, ht⟩
              rw [hi]
              simp only [Node.lastLogIndex, List.length_append, List.length_singleton]
              push_cast
              ring
      · have hstep : x.appendClientCommand c = x := by
          rw [Node.appendClientCommand, if_neg hroom]
        obtain ⟨es, hlog, hcs, hes, hterm⟩ := ih x
        have hzero : maxLog - x.log.length = 0 := by omega
        rw [hstep]
        refine ⟨es, hlog, ?_, hes, hterm⟩
        rw [hcs, hzero, List.take_zero, List.take_zero]

/-! ### The latch -/

lemma running_of_isLeader (hlead : x.isLeader = true) : x.running = true := by
  rw [Node.isLeader, Bool.and_eq_true, Bool.and_eq_true] at hlead
  exact hlead.1.1

/-- **What a latch of a leader appends**: as many of the commands it is given as the log has room
for. -/
lemma log_latchInputs (hlead : x.isLeader = true) (ms : List Message) {cs : List Command}
    (hcap : cs.length ≤ maxQueue) :
    ∃ es : List LogEntry, (x.latchInputs ms cs).log = x.log ++ es ∧
      es.map LogEntry.command = cs.take (maxLog - x.log.length) ∧
      ∀ (k : ℕ) (e : LogEntry), es[k]? = some e →
        e.index = x.lastLogIndex + 1 + k ∧ e.term = (x.latchInputs ms cs).currentTerm := by
  rw [Node.latchInputs]
  dsimp only
  rw [if_neg (by simp [running_of_isLeader hlead]), List.take_of_length_le hcap]
  have hreceived := KeepsLog.trans (⟨rfl, rfl, rfl, rfl, rfl, rfl⟩ : KeepsLog x
    { x with pendingAppendEntries := [], pendingVoteRequests := [], pendingVotes := [] })
    (keepsLog_receiveAll (ms.take maxQueue) _)
  revert hreceived
  generalize (ms.take maxQueue).foldl Node.receive
    { x with pendingAppendEntries := [], pendingVoteRequests := [], pendingVotes := [] } = y
  intro hreceived
  rw [if_pos (hreceived.isLeader.trans hlead)]
  obtain ⟨es, hlog, hcs, hes, hterm⟩ := log_appendClientCommands cs y
  rw [hreceived.log] at hlog hcs
  refine ⟨es, hlog, hcs, fun k e he => ?_⟩
  obtain ⟨hi, ht⟩ := hes k e he
  exact ⟨by rw [hi, hreceived.lastLogIndex], by rw [ht, hterm]⟩

/-- Growth by as many of the commands as there is room for is growth by all of them only if there
is room for all. -/
lemma grownBy_iff {es : List LogEntry} {cs : List Command} {room : ℕ} (hlog : y.log = x.log ++ es)
    (hcs : es.map LogEntry.command = cs.take room)
    (hes : ∀ (k : ℕ) (e : LogEntry), es[k]? = some e →
      e.index = x.lastLogIndex + 1 + k ∧ e.term = y.currentTerm) :
    x.GrownBy y cs ↔ cs.length ≤ room := by
  constructor
  · rintro ⟨es', hlog', hcs', -⟩
    have hsame : es = es' := List.append_cancel_left (hlog.symm.trans hlog')
    have hlen : cs.length ≤ (cs.take room).length := by rw [← hcs, hsame, hcs']
    rw [List.length_take] at hlen
    omega
  · intro hroom
    exact ⟨es, hlog, hcs.trans (List.take_of_length_le hroom), hes⟩

/-- A latch gets the commands that were accepted since its queue was emptied. -/
lemma latchFrom_submitAll (hlead : x.isLeader = true) {drained : MemoryTransport}
    (hempty : drained.queuedCommands x.config.nodeId = []) (cs : List Command) (ms : List Message) :
    (x.latchFrom (x.submitAll drained cs).1 ms).1 = x.latchInputs ms (x.submitAll drained cs).2 ∧
      (x.submitAll drained cs).2.length ≤ maxQueue := by
  obtain ⟨hqueue, hfit⟩ := queuedCommands_submitAll hlead cs drained
    (by rw [hempty]; exact Nat.zero_le _)
  rw [hempty, List.nil_append] at hqueue
  constructor
  · rw [Node.latchFrom, if_neg (by simp [running_of_isLeader hlead])]
    dsimp only
    rw [recvClientCommands_out, List.take_of_length_le hfit, hqueue]
  · rw [← hqueue]
    exact hfit

/-- **A leader takes what it accepted, if there is room**: after a tick that emptied its queue, the
log of a running leader grows in the next latch by exactly the commands that were accepted since,
each once, in order, with consecutive indices and the current term, if and only if the log has
room for them all. -/
theorem latch_takes_accepted_iff (hlead : x.isLeader = true) (before : MemoryTransport)
    (commands : List Command) (messages : List Message) :
    let drained := (before.recvClientCommands x.config.nodeId maxQueue).1
    let submitted := x.submitAll drained commands
    x.GrownBy (x.latchFrom submitted.1 messages).1 submitted.2 ↔
      submitted.2.length ≤ maxLog - x.log.length := by
  intro drained submitted
  obtain ⟨hlatch, hcap⟩ := latchFrom_submitAll hlead
    (queuedCommands_recvClientCommands before x.config.nodeId maxQueue) commands messages
  obtain ⟨es, hlog, hcs, hes⟩ := log_latchInputs hlead messages hcap
  rw [← hlatch] at hlog hes
  exact grownBy_iff hlog hcs hes

/-- The transport of two nodes. -/
def twoNodes : MemoryTransport := MemoryTransport.withNodes [['a'], ['b']]

/-- A client command. -/
def setCommand : Command := ⟨['s', 'e', 't'], ['k'], ['v']⟩

/-- A leader whose peer does not answer, with some entries that are not committed. -/
def waitingLeader (entries : ℕ) : Node Unit :=
  { Node.zero ⟨['a'], [['b']], [['a'], ['b']], false, 1, 1⟩ () 0 with
    state := .leader, currentTerm := 1, configState := ⟨[['a'], ['b']], [], 0⟩
    log := List.replicate entries ⟨1, 1, ['a'], setCommand⟩ }

/-- An empty log takes two commands. -/
theorem latch_takes_two :
    (waitingLeader 0).GrownBy
      ((waitingLeader 0).latchFrom ((waitingLeader 0).submitAll
        (twoNodes.recvClientCommands ['a'] maxQueue).1 [setCommand, setCommand]).1 []).1
      ((waitingLeader 0).submitAll (twoNodes.recvClientCommands ['a'] maxQueue).1
        [setCommand, setCommand]).2 :=
  (latch_takes_accepted_iff (x := waitingLeader 0) (by decide) twoNodes [setCommand, setCommand]
    []).mpr (by decide)

/-- A full log takes none: the command was accepted, and it is in neither the queue nor the log
afterwards. -/
theorem full_log_drops :
    ¬(waitingLeader maxLog).GrownBy
      ((waitingLeader maxLog).latchFrom ((waitingLeader maxLog).submitAll
        (twoNodes.recvClientCommands ['a'] maxQueue).1 [setCommand]).1 []).1
      ((waitingLeader maxLog).submitAll (twoNodes.recvClientCommands ['a'] maxQueue).1
        [setCommand]).2 := by
  have haccepted : ((waitingLeader maxLog).submitAll
      (twoNodes.recvClientCommands ['a'] maxQueue).1 [setCommand]).2 = [setCommand] := by decide
  have hlead : (waitingLeader maxLog).isLeader = true := by decide
  have hfull : (waitingLeader maxLog).log.length = maxLog := List.length_replicate
  obtain ⟨hlatch, hcap⟩ := latchFrom_submitAll hlead
    (queuedCommands_recvClientCommands twoNodes ['a'] maxQueue) [setCommand] []
  obtain ⟨es, hlog, hcs, hes⟩ := log_latchInputs hlead [] hcap
  rw [← hlatch] at hlog hes
  intro hgrown
  have hroom := (grownBy_iff hlog hcs hes).mp hgrown
  rw [hfull, haccepted] at hroom
  exact absurd hroom (by decide)

end RaftRx.C
