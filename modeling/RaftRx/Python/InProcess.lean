import RaftRx.Python.Completeness
import RaftRx.Library.Mailbox

/-!
Python nodes of one process (`cluster.py`, `transport.py`).

The nodes share a clock and the memory transport, which keeps the messages for each node in a deque.
The phases of the nodes and the moves of their other two machines may interleave in any way.

* `MemoryTransport`, `TransportCall`: the transport and its methods;
* `TransportLedger`: the transport, with everything that was handed to it and that it handed out;
* `outcome_exec`: what each call does to the account of a node's messages;
* `RaftCluster`, `ProcessAct`, `RaftCluster.exec`: the clock, the transport and the nodes;
* `exec_refines`, `refines_run`: a run in one process is a run of `Cluster.exec`;
* `process_committed_agree`: so the safety of clusters is theirs;
* `heard_in_order`: a node hears what was sent to it in the order in which it was sent and nothing
  twice, and all of it unless it is silenced.
-/

namespace RaftRx.Python

open Mailbox (Outcome Passes Drops AllKeep outcome_of_eq)

variable {σ ν : Type}

/-! ### The transport -/

/-- `MemoryTransport`; the items of its dictionaries by key, with their defaults. -/
structure MemoryTransport where
  messages : Str → List Message
  clientCommands : Str → List Command
  enabled : Str → Bool

namespace MemoryTransport

/-- `__init__` -/
def init : MemoryTransport :=
  { messages := fun _ => [], clientCommands := fun _ => [], enabled := fun _ => true }

/-- `set_enabled` -/
def setEnabled (t : MemoryTransport) (nodeId : Str) (enabled : Bool) : MemoryTransport :=
  let t := { t with enabled := Function.update t.enabled nodeId enabled }
  if enabled then t
  else
    { t with
      messages := Function.update t.messages nodeId []
      clientCommands := Function.update t.clientCommands nodeId [] }

/-- `send` -/
def send (t : MemoryTransport) (message : Message) : MemoryTransport :=
  if t.enabled message.target then
    { t with
      messages := Function.update t.messages message.target
        (t.messages message.target ++ [message]) }
  else t

/-- `recv_for` -/
def recvFor (t : MemoryTransport) (nodeId : Str) : MemoryTransport × List Message :=
  if t.enabled nodeId then
    ({ t with messages := Function.update t.messages nodeId [] }, t.messages nodeId)
  else (t, [])

/-- `submit_client_command`; `none` is the `RuntimeError` for a node that is not running. -/
def submitClientCommand (t : MemoryTransport) (nodeId : Str) (command : Command) :
    Option MemoryTransport :=
  if t.enabled nodeId then
    some { t with
      clientCommands := Function.update t.clientCommands nodeId
        (t.clientCommands nodeId ++ [command]) }
  else none

/-- `recv_client_commands` -/
def recvClientCommands (t : MemoryTransport) (nodeId : Str) : MemoryTransport × List Command :=
  if t.enabled nodeId then
    ({ t with clientCommands := Function.update t.clientCommands nodeId [] },
      t.clientCommands nodeId)
  else (t, [])

end MemoryTransport

/-- A call of one of the methods; `send_many` is a `send` for each message. -/
inductive TransportCall where
  | setEnabled (nodeId : Str) (enabled : Bool)
  | send (message : Message)
  | recvFor (nodeId : Str)
  | submitClientCommand (nodeId : Str) (command : Command)
  | recvClientCommands (nodeId : Str)
  deriving DecidableEq

/-- The message a call hands over. -/
def TransportCall.message? : TransportCall → Option Message
  | .send m => some m
  | _ => none

/-- The transport, with the messages handed to `send` and those each node has received. -/
structure TransportLedger where
  transport : MemoryTransport
  sent : List Message
  received : Str → List Message

namespace TransportLedger

/-- One call. -/
def exec (l : TransportLedger) : TransportCall → TransportLedger
  | .setEnabled n enabled => { l with transport := l.transport.setEnabled n enabled }
  | .send m => { l with transport := l.transport.send m, sent := l.sent ++ [m] }
  | .recvFor n =>
      let (transport, messages) := l.transport.recvFor n
      { l with
        transport := transport
        received := Function.update l.received n (l.received n ++ messages) }
  | .submitClientCommand n c =>
      { l with transport := (l.transport.submitClientCommand n c).getD l.transport }
  | .recvClientCommands n => { l with transport := (l.transport.recvClientCommands n).1 }

/-- Some calls. -/
def run (l : TransportLedger) (calls : List TransportCall) : TransportLedger := calls.foldl exec l

/-- A new transport. -/
def start : TransportLedger :=
  { transport := MemoryTransport.init, sent := [], received := fun _ => [] }

/-- The messages sent to a node. -/
def sentTo (l : TransportLedger) (n : Str) : List Message :=
  l.sent.filter fun m => decide (m.target = n)

/-- The account of a node's messages. -/
def inbox (l : TransportLedger) (n : Str) : Mailbox Message :=
  { accepted := l.sentTo n, handed := l.received n, held := l.transport.messages n }

end TransportLedger

/-- A call that loses no message of a node. -/
def TransportCall.Keeps (n : Str) (t : MemoryTransport) : TransportCall → Prop
  | .setEnabled m enabled => m = n → enabled = false → t.messages n = []
  | .send m => m.target = n → t.enabled n = true
  | _ => True

section Calls

variable {l : TransportLedger} {n : Str}

/-- The queue of a node is cleared when it is disabled. -/
lemma outcome_setEnabled (l : TransportLedger) (n m : Str) (enabled : Bool) :
    Outcome ((TransportCall.setEnabled m enabled).Keeps n l.transport) (l.inbox n)
      ((l.exec (.setEnabled m enabled)).inbox n) := by
  cases enabled with
  | true => exact outcome_of_eq (fun _ h => absurd h (by simp)) rfl
  | false =>
      by_cases hm : m = n
      · subst hm
        have hlose : (l.exec (.setEnabled m false)).inbox m =
            (l.inbox m).lose (l.transport.messages m).length := by
          simp only [TransportLedger.exec, TransportLedger.inbox, MemoryTransport.setEnabled,
            Mailbox.lose, TransportLedger.sentTo, Function.update_self, List.drop_length,
            Bool.false_eq_true, if_false]
        by_cases hnil : l.transport.messages m = []
        · refine outcome_of_eq (fun _ _ => hnil) ?_
          rw [hlose, hnil]
          rfl
        · refine Or.inr ⟨fun hkeeps => hnil (hkeeps rfl rfl), ?_⟩
          rw [hlose]
          exact Drops.lose _ (List.length_pos_iff.mpr hnil) hnil
      · refine outcome_of_eq (fun h => absurd h hm) ?_
        have hne : n ≠ m := fun h => hm h.symm
        simp only [TransportLedger.exec, TransportLedger.inbox, MemoryTransport.setEnabled,
          TransportLedger.sentTo, Function.update_of_ne hne, Bool.false_eq_true, if_false]

/-- A message is queued for its target, or turned away. -/
lemma outcome_send (l : TransportLedger) (n : Str) (m : Message) :
    Outcome ((TransportCall.send m).Keeps n l.transport) (l.inbox n)
      ((l.exec (.send m)).inbox n) := by
  by_cases hm : m.target = n
  · subst hm
    have hsent : (l.exec (.send m)).sentTo m.target = l.sentTo m.target ++ [m] := by
      simp [TransportLedger.exec, TransportLedger.sentTo, List.filter_append]
    cases hon : l.transport.enabled m.target with
    | true =>
        refine Or.inl ⟨fun _ => hon, ?_⟩
        have hpost : (l.exec (.send m)).inbox m.target = (l.inbox m.target).post m := by
          rw [TransportLedger.inbox, hsent]
          simp only [TransportLedger.exec, MemoryTransport.send, hon, if_true,
            Function.update_self, TransportLedger.inbox, Mailbox.post]
        rw [hpost]
        exact Passes.post m
    | false =>
        refine Or.inr ⟨fun hkeeps => absurd (hkeeps rfl) (by simp [hon]), ?_⟩
        have haway : (l.exec (.send m)).inbox m.target = (l.inbox m.target).turnAway m := by
          rw [TransportLedger.inbox, hsent]
          simp only [TransportLedger.exec, MemoryTransport.send, hon, Bool.false_eq_true, if_false,
            TransportLedger.inbox, Mailbox.turnAway]
        rw [haway]
        exact Drops.turnAway m
  · refine outcome_of_eq (fun h => absurd h hm) ?_
    have hne : n ≠ m.target := fun h => hm h.symm
    have hsent : (l.exec (.send m)).sentTo n = l.sentTo n := by
      simp [TransportLedger.exec, TransportLedger.sentTo, List.filter_append, hm]
    rw [TransportLedger.inbox, hsent, TransportLedger.inbox]
    simp only [TransportLedger.exec, MemoryTransport.send]
    split
    · simp only [Function.update_of_ne hne]
    · rfl

/-- A node that receives takes all that is queued for it. -/
lemma outcome_recvFor (l : TransportLedger) (n m : Str) :
    Outcome ((TransportCall.recvFor m).Keeps n l.transport) (l.inbox n)
      ((l.exec (.recvFor m)).inbox n) := by
  by_cases hm : m = n
  · subst hm
    cases hon : l.transport.enabled m with
    | true =>
        refine Or.inl ⟨trivial, ?_⟩
        have hover : (l.exec (.recvFor m)).inbox m =
            (l.inbox m).handOver (l.transport.messages m).length := by
          simp only [TransportLedger.exec, TransportLedger.inbox, MemoryTransport.recvFor, hon,
            if_true, Mailbox.handOver, TransportLedger.sentTo, Function.update_self,
            List.take_length, List.drop_length]
        rw [hover]
        exact Passes.handOver _
    | false =>
        refine outcome_of_eq trivial ?_
        simp only [TransportLedger.exec, TransportLedger.inbox, MemoryTransport.recvFor, hon,
          Bool.false_eq_true, if_false, TransportLedger.sentTo, Function.update_self,
          List.append_nil]
  · refine outcome_of_eq trivial ?_
    have hne : n ≠ m := fun h => hm h.symm
    simp only [TransportLedger.exec, TransportLedger.inbox, MemoryTransport.recvFor,
      TransportLedger.sentTo, Function.update_of_ne hne]
    split
    · simp only [Function.update_of_ne hne]
    · rfl

/-- **What a call does** to the account of a node's messages. -/
lemma outcome_exec (n : Str) (l : TransportLedger) (call : TransportCall) :
    Outcome (call.Keeps n l.transport) (l.inbox n) ((l.exec call).inbox n) := by
  cases call with
  | setEnabled m enabled => exact outcome_setEnabled l n m enabled
  | send m => exact outcome_send l n m
  | recvFor m => exact outcome_recvFor l n m
  | submitClientCommand m c =>
      refine outcome_of_eq trivial ?_
      have hsame : (l.exec (.submitClientCommand m c)).transport.messages =
          l.transport.messages := by
        simp only [TransportLedger.exec, MemoryTransport.submitClientCommand]
        split <;> rfl
      rw [TransportLedger.inbox, hsame]
      rfl
  | recvClientCommands m =>
      refine outcome_of_eq trivial ?_
      have hsame : (l.exec (.recvClientCommands m)).transport.messages =
          l.transport.messages := by
        simp only [TransportLedger.exec, MemoryTransport.recvClientCommands]
        split <;> rfl
      rw [TransportLedger.inbox, hsame]
      rfl

/-- Only `set_enabled` enables or disables a node. -/
lemma enabled_exec {call : TransportCall} (hcall : call ≠ .setEnabled n false)
    (hon : l.transport.enabled n = true) : (l.exec call).transport.enabled n = true := by
  cases call with
  | setEnabled m enabled =>
      simp only [TransportLedger.exec, MemoryTransport.setEnabled]
      by_cases hm : n = m
      · subst hm
        cases enabled with
        | true => simp only [if_true, Function.update_self]
        | false => exact absurd rfl hcall
      · split <;> simp only [Function.update_of_ne hm, hon]
  | send m =>
      simp only [TransportLedger.exec, MemoryTransport.send]
      split <;> exact hon
  | recvFor m =>
      simp only [TransportLedger.exec, MemoryTransport.recvFor]
      split <;> exact hon
  | submitClientCommand m c =>
      simp only [TransportLedger.exec, MemoryTransport.submitClientCommand]
      split <;> exact hon
  | recvClientCommands m =>
      simp only [TransportLedger.exec, MemoryTransport.recvClientCommands]
      split <;> exact hon

/-- Calls that do not disable a node keep all its messages. -/
lemma allKeep_of_enabled (calls : List TransportCall) : ∀ {l : TransportLedger},
    (∀ call ∈ calls, call ≠ .setEnabled n false) → l.transport.enabled n = true →
      AllKeep TransportLedger.exec (fun l call => call.Keeps n l.transport) l calls ∧
        (l.run calls).transport.enabled n = true := by
  induction calls with
  | nil => exact fun _ hon => ⟨trivial, hon⟩
  | cons call calls ih =>
      intro l hcalls hon
      obtain ⟨hcall, hcalls⟩ := List.forall_mem_cons.mp hcalls
      obtain ⟨hkeep, hon'⟩ := ih hcalls (enabled_exec hcall hon)
      refine ⟨⟨?_, hkeep⟩, hon'⟩
      cases call with
      | setEnabled m enabled =>
          rintro rfl rfl
          exact absurd rfl hcall
      | send m => exact fun _ => hon
      | recvFor m | submitClientCommand m c | recvClientCommands m => trivial

/-- What some calls hand to the transport. -/
lemma sent_run (calls : List TransportCall) : ∀ {l : TransportLedger},
    (l.run calls).sent = l.sent ++ calls.filterMap TransportCall.message? := by
  induction calls with
  | nil => exact fun {l} => (List.append_nil l.sent).symm
  | cons call calls ih =>
      intro l
      have hrun : l.run (call :: calls) = (l.exec call).run calls := rfl
      rw [hrun, ih]
      cases call with
      | send m =>
          change (l.sent ++ [m]) ++ _ = l.sent ++ (m :: _)
          rw [List.append_assoc, List.singleton_append]
      | setEnabled m enabled | recvFor m | submitClientCommand m c | recvClientCommands m => rfl

end Calls

/-! ### The cluster -/

/-- `RaftCluster`, with the account of its transport. -/
structure RaftCluster (σ ν : Type) where
  clockMs : ℤ
  ledger : TransportLedger
  hosts : Str → Host σ ν

/-- What can happen in the process. -/
inductive ProcessAct where
  /-- The clock moves, by `tick` or by itself. -/
  | advance (ms : ℤ)
  | submit (node : Str) (command : Command)
  | latch (node : Str)
  | transition (node : Str)
  | dump (node : Str)
  | compaction (node : Str)
  | membership (node : Str)
  | request (node : Str) (members : List Str)
  | stop (node : Str)
  | start (node : Str)

namespace RaftCluster

/-- What `_latch_inputs` receives; a stopped node receives nothing. -/
def receive (l : RaftCluster σ ν) (n : Str) : List Message × List Command :=
  if (l.hosts n).node.running then
    ((l.ledger.transport.recvFor n).2, (l.ledger.transport.recvClientCommands n).2)
  else ([], [])

/-- The act of a host that an act is, if it is one. -/
def hostAct (l : RaftCluster σ ν) : ProcessAct → Option (ClusterAct σ)
  | .advance _ => none
  | .submit _ _ => none
  | .latch n => some ⟨n, .latch l.clockMs (l.receive n).1 (l.receive n).2⟩
  | .transition n => some ⟨n, .transition l.clockMs⟩
  | .dump n => some ⟨n, .dump⟩
  | .compaction n => some ⟨n, .compaction⟩
  | .membership n => some ⟨n, .membership⟩
  | .request n members => some ⟨n, .request members⟩
  | .stop n => some ⟨n, .stop⟩
  | .start n => some ⟨n, .start l.clockMs⟩

/-- The calls of the transport in an act of a host, before its messages are sent.  `_dump_outputs`
stops a node that leaves the configuration. -/
def opening (x : Node σ ν) (act : ProcessAct) (y : Node σ ν) : List TransportCall :=
  match act with
  | .latch n => if x.running then [.recvFor n, .recvClientCommands n] else []
  | .dump n => if x.running && !y.running then [.setEnabled n false] else []
  | .stop n => [.setEnabled n false]
  | .start n => [.setEnabled n true]
  | _ => []

/-- An act of a host. -/
def perform (E : Str → Env σ ν) (l : RaftCluster σ ν) (act : ProcessAct) (a : ClusterAct σ) :
    Option (RaftCluster σ ν) :=
  ((l.hosts a.host).exec (E a.host) a.act).map fun (h, sends) =>
    { l with
      ledger := l.ledger.run
        (opening (l.hosts a.host).node act h.node ++ sends.map TransportCall.send)
      hosts := Function.update l.hosts a.host h }

/-- An act of no host: the clock, and `submit_command`; an error of the transport goes to the
caller. -/
def outside (l : RaftCluster σ ν) : ProcessAct → RaftCluster σ ν
  | .advance ms => { l with clockMs := l.clockMs + ms }
  | .submit n command => { l with ledger := l.ledger.run [.submitClientCommand n command] }
  | _ => l

/-- One act. -/
def exec (E : Str → Env σ ν) (l : RaftCluster σ ν) (act : ProcessAct) : Option (RaftCluster σ ν) :=
  match l.hostAct act with
  | some a => l.perform E act a
  | none => some (l.outside act)

/-- `__init__`, and `add_node` for each of the nodes, on empty directories. -/
def boot (E : Str → Env σ ν) (config : Str → NodeConfig) (user : Str → σ) (clockMs : ℤ) :
    RaftCluster σ ν :=
  { clockMs := clockMs, ledger := TransportLedger.start
    hosts := fun n => Host.boot (E n) (config n) (user n) clockMs }

/-- **The cluster it is**: what was handed to the transport is on the network. -/
def cluster (l : RaftCluster σ ν) : Cluster σ ν := { hosts := l.hosts, network := l.ledger.sent }

/-- A condition on the acts of a cluster, for the acts of the process. -/
def Lifts (P : Cluster σ ν → ClusterAct σ → Prop) (l : RaftCluster σ ν) (act : ProcessAct) : Prop :=
  ∀ a ∈ l.hostAct act, P l.cluster a

instance (P : Cluster σ ν → ClusterAct σ → Prop) [∀ c a, Decidable (P c a)] (l : RaftCluster σ ν)
    (act : ProcessAct) : Decidable (Lifts P l act) :=
  inferInstanceAs (Decidable (∀ a ∈ _, _))

/-- The act stops the node, or ends its membership. -/
def Silences (E : Str → Env σ ν) (n : Str) (l : RaftCluster σ ν) : ProcessAct → Prop
  | .stop m => m = n
  | .dump m => m = n ∧ (l.hosts n).node.running = true ∧
      ∃ y ∈ ((l.hosts n).node.dumpOutputs (E n)).node, y.running = false
  | _ => False

instance (E : Str → Env σ ν) (n : Str) (l : RaftCluster σ ν) (act : ProcessAct) :
    Decidable (Silences E n l act) := by
  unfold Silences
  split <;> infer_instance

/-! ### Acts -/

variable {E : Str → Env σ ν} {l l' : RaftCluster σ ν} {act : ProcessAct}

/-- What an act does to the account. -/
lemma exec_ledger (hexec : l.exec E act = some l') :
    ∃ calls, l'.ledger = l.ledger.run calls ∧
      ∀ n, ¬Silences E n l act → ∀ call ∈ calls, call ≠ .setEnabled n false := by
  rw [exec] at hexec
  cases hact : l.hostAct act with
  | none =>
      rw [hact, Option.some.injEq] at hexec
      subst hexec
      cases act with
      | submit m c =>
          refine ⟨[.submitClientCommand m c], rfl, fun n _ call hcall => ?_⟩
          rw [List.mem_singleton.mp hcall]
          exact TransportCall.noConfusion
      | advance ms => exact ⟨[], rfl, fun n _ call hcall => absurd hcall List.not_mem_nil⟩
      | latch m | transition m | dump m | compaction m | membership m | request m ms | stop m
      | start m => exact absurd hact (by simp [hostAct])
  | some a =>
      rw [hact] at hexec
      obtain ⟨⟨h', sends⟩, hhost, rfl⟩ := Option.map_eq_some_iff.mp hexec
      refine ⟨_, rfl, fun n hloud call hcall => ?_⟩
      rcases List.mem_append.mp hcall with hcall | hcall
      · rintro rfl
        cases act with
        | stop m =>
            obtain rfl : n = m := by simpa [opening] using hcall
            exact hloud rfl
        | dump m =>
            rw [hostAct, Option.some.injEq] at hact
            subst hact
            rw [opening] at hcall
            split at hcall
            · rename_i hleft
              obtain rfl : n = m := by simpa using hcall
              rw [Bool.and_eq_true, Bool.not_eq_true'] at hleft
              rw [Host.exec, Option.ite_none_right_eq_some] at hhost
              obtain ⟨y, hy, heq⟩ := Option.map_eq_some_iff.mp hhost.2
              rw [Prod.mk.injEq] at heq
              obtain ⟨rfl, rfl⟩ := heq
              exact hloud ⟨rfl, hleft.1, y, hy, hleft.2⟩
            · exact absurd hcall List.not_mem_nil
        | latch m =>
            rw [opening] at hcall
            split at hcall
            · simp at hcall
            · exact absurd hcall List.not_mem_nil
        | start m => simp [opening] at hcall
        | advance ms | submit m c | transition m | compaction m | membership m | request m ms =>
            exact absurd hcall List.not_mem_nil
      · obtain ⟨m, -, rfl⟩ := List.mem_map.mp hcall
        exact TransportCall.noConfusion

/-- An act invents, duplicates and reorders nothing. -/
lemma faithful_exec (hf : ∀ n, (l.ledger.inbox n).Faithful) (hexec : l.exec E act = some l')
    (n : Str) : (l'.ledger.inbox n).Faithful := by
  obtain ⟨calls, hledger, -⟩ := exec_ledger hexec
  rw [hledger]
  exact Mailbox.faithful_run (outcome_exec n) calls (hf n)

/-- What an act of a host hands to the transport. -/
lemma sent_opening (x y : Node σ ν) (act : ProcessAct) (sends : List Message)
    (ledger : TransportLedger) :
    (ledger.run (opening x act y ++ sends.map TransportCall.send)).sent = ledger.sent ++ sends := by
  have hopening : (opening x act y).filterMap TransportCall.message? = [] := by
    cases act with
    | latch n | dump n =>
        rw [opening]
        split <;> rfl
    | stop n | start n | advance ms | submit n c | transition n | compaction n | membership n
    | request n ms => rfl
  have hsends : (sends.map TransportCall.send).filterMap TransportCall.message? = sends := by
    rw [List.filterMap_map]
    exact List.filterMap_some
  rw [sent_run, List.filterMap_append, hopening, hsends, List.nil_append]

/-- What a host hears was sent to it. -/
lemma heard_of_faithful (hf : ∀ n, (l.ledger.inbox n).Faithful) {a : ClusterAct σ}
    (ha : l.hostAct act = some a) : l.cluster.Deliverable a := by
  cases act with
  | latch n =>
      rw [hostAct, Option.some.injEq] at ha
      subst ha
      intro m hm
      have hheld : m ∈ l.ledger.transport.messages n := by
        change m ∈ (l.receive n).1 at hm
        rw [receive] at hm
        split at hm
        · rw [MemoryTransport.recvFor] at hm
          split at hm
          · exact hm
          · exact absurd hm List.not_mem_nil
        · exact absurd hm List.not_mem_nil
      have hsent : m ∈ l.ledger.sentTo n := (hf n).subset (List.mem_append_right _ hheld)
      obtain ⟨hmem, htarget⟩ := List.mem_filter.mp hsent
      exact ⟨hmem, of_decide_eq_true htarget⟩
  | advance ms => exact absurd ha (by simp [hostAct])
  | submit n c => exact absurd ha (by simp [hostAct])
  | transition n | dump n | compaction n | membership n | request n ms | stop n | start n =>
      rw [hostAct, Option.some.injEq] at ha
      subst ha
      exact fun m hm => absurd hm List.not_mem_nil

/-- **An act of the process** is an act of the cluster, or leaves it as it is. -/
theorem exec_refines (hf : ∀ n, (l.ledger.inbox n).Faithful) (hexec : l.exec E act = some l') :
    (l.hostAct act = none ∧ l'.cluster = l.cluster) ∨
      ∃ a, l.hostAct act = some a ∧ l.cluster.exec E a = some l'.cluster := by
  rw [exec] at hexec
  cases hact : l.hostAct act with
  | none =>
      rw [hact, Option.some.injEq] at hexec
      subst hexec
      refine Or.inl ⟨rfl, ?_⟩
      cases act with
      | advance ms | submit n c => rfl
      | latch n | transition n | dump n | compaction n | membership n | request n ms | stop n
      | start n => exact absurd hact (by simp [hostAct])
  | some a =>
      rw [hact] at hexec
      obtain ⟨⟨h', sends⟩, hhost, rfl⟩ := Option.map_eq_some_iff.mp hexec
      refine Or.inr ⟨a, rfl, ?_⟩
      rw [Cluster.exec, if_pos (heard_of_faithful hf hact)]
      have hsent := sent_opening (l.hosts a.host).node h'.node act sends l.ledger
      refine Option.map_eq_some_iff.mpr ⟨_, hhost, ?_⟩
      exact congrArg (Cluster.mk (Function.update l.hosts a.host h')) hsent.symm

/-! ### Runs -/

/-- A new transport has lost nothing. -/
lemma balanced_boot (E : Str → Env σ ν) (config : Str → NodeConfig) (user : Str → σ) (clockMs : ℤ)
    (n : Str) : ((boot E config user clockMs).ledger.inbox n).Balanced := rfl

lemma faithful_boot (E : Str → Env σ ν) (config : Str → NodeConfig) (user : Str → σ) (clockMs : ℤ)
    (n : Str) : ((boot E config user clockMs).ledger.inbox n).Faithful := List.Sublist.refl []

/-- **A run in one process is a run of the cluster.** -/
theorem refines_run {P : Cluster σ ν → ClusterAct σ → Prop}
    (hf : ∀ n, (l.ledger.inbox n).Faithful) (hrun : Run (RaftCluster.exec E) (Lifts P) l l') :
    (∀ n, (l'.ledger.inbox n).Faithful) ∧ Run (Cluster.exec E) P l.cluster l'.cluster := by
  induction hrun with
  | refl => exact ⟨hf, Run.refl _⟩
  | tail _ hstep ih =>
      obtain ⟨act, hP, hexec⟩ := hstep
      refine ⟨faithful_exec ih.1 hexec, ?_⟩
      rcases exec_refines ih.1 hexec with ⟨-, heq⟩ | ⟨a, ha, hcluster⟩
      · rw [heq]
        exact ih.2
      · exact ih.2.tail (hP a ha) hcluster

/-- The node is enabled and nothing for it is lost, as long as nothing silences it. -/
lemma balanced_run {P : RaftCluster σ ν → ProcessAct → Prop} {n : Str}
    (hloud : ∀ l act, P l act → ¬Silences E n l act) (hb : (l.ledger.inbox n).Balanced)
    (hon : l.ledger.transport.enabled n = true) (hrun : Run (RaftCluster.exec E) P l l') :
    (l'.ledger.inbox n).Balanced ∧ l'.ledger.transport.enabled n = true := by
  induction hrun with
  | refl => exact ⟨hb, hon⟩
  | tail _ hstep ih =>
      obtain ⟨act, hP, hexec⟩ := hstep
      obtain ⟨calls, hledger, hcalls⟩ := exec_ledger hexec
      obtain ⟨hkeep, hon'⟩ := allKeep_of_enabled calls (hcalls n (hloud _ _ hP)) ih.2
      rw [hledger]
      exact ⟨(Mailbox.balanced_run_iff (outcome_exec n) calls ih.1).mpr hkeep, hon'⟩

/-- **What a node hears**: the messages a node received, followed by those queued for it, are
messages that were sent to it, in the order in which they were sent and none of them twice; in a run
that does not silence the node they are all of them. -/
theorem heard_in_order (E : Str → Env σ ν) (P : RaftCluster σ ν → ProcessAct → Prop)
    (config : Str → NodeConfig) (user : Str → σ) (clockMs : ℤ)
    (hrun : Run (RaftCluster.exec E) P (boot E config user clockMs) l) (n : Str) :
    ((l.ledger.received n ++ l.ledger.transport.messages n).Sublist (l.ledger.sentTo n)) ∧
      ((∀ l act, P l act → ¬Silences E n l act) →
        l.ledger.received n ++ l.ledger.transport.messages n = l.ledger.sentTo n) := by
  refine ⟨?_, fun hloud => ?_⟩
  · exact hrun.invariant (I := fun l => ∀ n, (l.ledger.inbox n).Faithful)
      (fun _ _ _ hf _ hexec => faithful_exec hf hexec) (faithful_boot E config user clockMs) n
  · exact (balanced_run hloud (balanced_boot E config user clockMs n) rfl hrun).1

/-- A whole tick of a node. -/
def processTick (n : Str) : List ProcessAct := [.latch n, .transition n, .dump n]

/-- `n1` is elected by `n2`, takes a command and commits it. -/
def processCommand : List ProcessAct :=
  .advance 1 :: (processTick n1 ++ processTick n2 ++ processTick n1 ++ processTick n1) ++
    .submit n1 (putCommand "x") :: (processTick n1 ++ processTick n2) ++
    .advance 60 :: (processTick n1 ++ processTick n2 ++ processTick n1)

/-- `n2` learns that the command is committed. -/
def processHeartbeat : List ProcessAct :=
  .advance 60 :: (processTick n1 ++ processTick n2 ++ processTick n2 ++ processTick n2)

/-- Three nodes of which only `n1` is impatient. -/
def processConfig (n : Str) : NodeConfig :=
  { impatient [n1, n2, n3] n with electionTimeoutMs := if n = n1 then 1 else 1000 }

/-- They start in one process. -/
def processThree : RaftCluster Unit Unit :=
  boot (fun _ => quiet) processConfig (fun _ => ()) 0

/-- `n2` is never stopped and receives the five messages sent to it. -/
theorem heard_in_order_three : ∃ l,
    Run (RaftCluster.exec fun _ => quiet) (fun l act => ¬Silences (fun _ => quiet) n2 l act)
      processThree l ∧
    (l.ledger.sentTo n2).length = 5 ∧
    l.ledger.received n2 ++ l.ledger.transport.messages n2 = l.ledger.sentTo n2 := by
  have hexec : (execAll (RaftCluster.exec fun _ => quiet)
      (fun l act => decide (¬Silences (fun _ => quiet) n2 l act)) processThree
      (processCommand ++ processHeartbeat)).any
        (fun l => decide ((l.ledger.sentTo n2).length = 5)) = true := by
    decide +kernel
  obtain ⟨l, hrun, hl⟩ := Run.exists_of_execAll hexec
  have hrun' := hrun.mono (fun _ _ => of_decide_eq_true)
  exact ⟨l, hrun', of_decide_eq_true hl, (heard_in_order (fun _ => quiet) _ processConfig
    (fun _ => ()) 0 hrun' n2).2 fun _ _ => id⟩

/-- **Committed prefixes in one process**: the run is one of the cluster of hosts, and of what two
nodes had committed, at two moments of it, one continues the other. -/
theorem process_committed_agree {members : List Str} (E : Str → Env σ ν) {config : Str → NodeConfig}
    (hboot : ∀ n, Bootstrapped members n (config n)) (user : Str → σ) (clockMs : ℤ)
    (hrun : Run (RaftCluster.exec E) (Lifts (CoveredAct E)) (boot E config user clockMs) l)
    (hrun' : Run (RaftCluster.exec E) (Lifts (CoveredAct E)) l l') :
    (Run (Cluster.exec E) (CoveredAct E) (Cluster.boot E config user clockMs) l.cluster ∧
      Run (Cluster.exec E) (CoveredAct E) l.cluster l'.cluster) ∧
      ∀ p q : Str, (l.hosts p).node.committed <+: (l'.hosts q).node.committed ∨
        (l'.hosts q).node.committed <+: (l.hosts p).node.committed := by
  obtain ⟨hf, hcluster⟩ := refines_run (faithful_boot E config user clockMs) hrun
  obtain ⟨-, hcluster'⟩ := refines_run hf hrun'
  obtain ⟨a, hat, hon⟩ := clusterAt_coveredBoot hboot hcluster
  exact ⟨⟨hcluster, hcluster'⟩, hat.comparable hon hcluster'⟩

/-- What `n1` committed, before `n2` learns of it and after. -/
theorem process_committed_agree_three : ∃ l l' : RaftCluster Unit Unit,
    Run (RaftCluster.exec fun _ => quiet) (Lifts (CoveredAct fun _ => quiet)) processThree l ∧
    Run (RaftCluster.exec fun _ => quiet) (Lifts (CoveredAct fun _ => quiet)) l l' ∧
    (l.hosts n1).node.committed ≠ [] ∧ (l'.hosts n2).node.committed ≠ [] ∧
    ((l.hosts n1).node.committed <+: (l'.hosts n2).node.committed ∨
      (l'.hosts n2).node.committed <+: (l.hosts n1).node.committed) := by
  have hexec : (execAll (RaftCluster.exec fun _ => quiet)
      (fun l act => decide (Lifts (CoveredAct fun _ => quiet) l act)) processThree
      processCommand).any (fun l => hasCommitted l.cluster n1 &&
        (execAll (RaftCluster.exec fun _ => quiet)
          (fun l act => decide (Lifts (CoveredAct fun _ => quiet) l act)) l processHeartbeat).any
            fun l' => hasCommitted l'.cluster n2) = true := by
    decide +kernel
  obtain ⟨l, l', hrun, hl, hrun', hl'⟩ := Run.exists_two_of_execAll hexec
  rw [hasCommitted, decide_eq_true_eq] at hl hl'
  have hstart : ClusterConfiguration.normalizeMembers (processConfig n1).startMembers =
      [n1, n2, n3] := by
    decide +kernel
  have hboot : ∀ n, Bootstrapped [n1, n2, n3] n (processConfig n) := fun _ => ⟨rfl, hstart⟩
  have hagree := process_committed_agree (fun _ => quiet) hboot (fun _ => ()) 0
    (hrun.mono fun _ _ => of_decide_eq_true) (hrun'.mono fun _ _ => of_decide_eq_true)
  exact ⟨l, l', hrun.mono fun _ _ => of_decide_eq_true, hrun'.mono fun _ _ => of_decide_eq_true,
    hl, hl', hagree.2 n1 n2⟩

end RaftCluster

end RaftRx.Python
