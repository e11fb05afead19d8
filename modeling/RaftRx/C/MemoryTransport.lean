import RaftRx.C.Node
import RaftRx.Library.Mailbox

/-!
The memory transport (`raft_transport.c`).

Every registered node has a queue of messages and a queue of client commands.  A receive copies as
much as the caller has room for and then sets the count of the queue to zero.

* `MemoryTransport` and its functions;
* `TransportCall`, `TransportLedger`: a run of calls, with what was accepted and what was received;
* `TransportCall.Drains`: the receive has room for the whole queue;
* `transport_delivers_iff`: exactly the runs of such calls deliver what was accepted.
-/

namespace RaftRx.C

/-! ### The transport -/

/-- `raft_memory_transport_t`: the ids, and of each queue the part that its count says is in use. -/
structure MemoryTransport where
  nodeIds : List CString
  queues : ℕ → List Message
  clientQueues : ℕ → List Command

namespace MemoryTransport

/-- `raft_memory_transport_init` -/
def init : MemoryTransport := { nodeIds := [], queues := fun _ => [], clientQueues := fun _ => [] }

/-- `transport_find_node`; `none` is `-1`. -/
def findNode (transport : MemoryTransport) (nodeId : CString) : Option ℕ :=
  transport.nodeIds.findIdx? (· == nodeId)

/-- `raft_memory_transport_register_node`, and whether it returned `0`. -/
def registerNode (transport : MemoryTransport) (nodeId : CString) : MemoryTransport × Bool :=
  if maxNodes ≤ transport.nodeIds.length then (transport, false)
  else ({ transport with nodeIds := transport.nodeIds ++ [strncpy maxId nodeId] }, true)

/-- An item for a queue that has room, and whether it was taken. -/
def enqueue {α : Type*} (queues : ℕ → List α) (idx : Option ℕ) (item : α) : (ℕ → List α) × Bool :=
  match idx with
  | none => (queues, false)
  | some i =>
      if maxQueue ≤ (queues i).length then (queues, false)
      else (Function.update queues i (queues i ++ [item]), true)

/-- What a receive copies, and the queues after it: the count of the queue is set to zero. -/
def dequeue {α : Type*} (queues : ℕ → List α) (idx : Option ℕ) (capacity : ℕ) :
    (ℕ → List α) × List α :=
  match idx with
  | none => (queues, [])
  | some i => (Function.update queues i [], (queues i).take capacity)

/-- `raft_memory_transport_send`, and whether it returned `0`. -/
def send (transport : MemoryTransport) (message : Message) : MemoryTransport × Bool :=
  let (queues, sent) := enqueue transport.queues (transport.findNode message.target) message
  ({ transport with queues := queues }, sent)

/-- `raft_memory_transport_recv_for` -/
def recvFor (transport : MemoryTransport) (nodeId : CString) (capacity : ℕ) :
    MemoryTransport × List Message :=
  let (queues, out) := dequeue transport.queues (transport.findNode nodeId) capacity
  ({ transport with queues := queues }, out)

/-- `raft_memory_transport_submit_client_command`, and whether it returned `0`. -/
def submitClientCommand (transport : MemoryTransport) (nodeId : CString) (command : Command) :
    MemoryTransport × Bool :=
  let (queues, taken) := enqueue transport.clientQueues (transport.findNode nodeId) command
  ({ transport with clientQueues := queues }, taken)

/-- `raft_memory_transport_recv_client_commands` -/
def recvClientCommands (transport : MemoryTransport) (nodeId : CString) (capacity : ℕ) :
    MemoryTransport × List Command :=
  let (queues, out) := dequeue transport.clientQueues (transport.findNode nodeId) capacity
  ({ transport with clientQueues := queues }, out)

/-- The transport with some nodes registered. -/
def withNodes (ids : List CString) : MemoryTransport :=
  ids.foldl (fun transport id => (transport.registerNode id).1) init

/-- What is queued at an index, if there is one. -/
def queuedAt {α : Type*} (queues : ℕ → List α) (idx : Option ℕ) : List α :=
  match idx with
  | none => []
  | some i => queues i

/-- The messages queued for a node. -/
def queued (transport : MemoryTransport) (nodeId : CString) : List Message :=
  queuedAt transport.queues (transport.findNode nodeId)

/-- The commands queued for a node. -/
def queuedCommands (transport : MemoryTransport) (nodeId : CString) : List Command :=
  queuedAt transport.clientQueues (transport.findNode nodeId)

end MemoryTransport

/-! ### Runs of calls -/

/-- A call of one of the four functions. -/
inductive TransportCall where
  | send (message : Message)
  | recvFor (nodeId : CString) (capacity : ℕ)
  | submit (nodeId : CString) (command : Command)
  | recvCommands (nodeId : CString) (capacity : ℕ)

/-- The transport, with the messages and commands each node has been sent (the calls that returned
`0`) and those it has received. -/
structure TransportLedger where
  transport : MemoryTransport
  sent : CString → List Message
  received : CString → List Message
  submitted : CString → List Command
  taken : CString → List Command

/-- Items added for one node. -/
def note {α : Type*} (book : CString → List α) (nodeId : CString) (items : List α) :
    CString → List α :=
  Function.update book nodeId (book nodeId ++ items)

namespace TransportLedger

/-- Nothing sent yet. -/
def start (ids : List CString) : TransportLedger :=
  { transport := MemoryTransport.withNodes ids, sent := fun _ => [], received := fun _ => []
    submitted := fun _ => [], taken := fun _ => [] }

/-- One call. -/
def exec (l : TransportLedger) : TransportCall → TransportLedger
  | .send m =>
      let (transport, ok) := l.transport.send m
      { l with transport := transport, sent := note l.sent m.target (if ok then [m] else []) }
  | .recvFor n capacity =>
      let (transport, out) := l.transport.recvFor n capacity
      { l with transport := transport, received := note l.received n out }
  | .submit n c =>
      let (transport, ok) := l.transport.submitClientCommand n c
      { l with transport := transport, submitted := note l.submitted n (if ok then [c] else []) }
  | .recvCommands n capacity =>
      let (transport, out) := l.transport.recvClientCommands n capacity
      { l with transport := transport, taken := note l.taken n out }

/-- A run of calls. -/
def run (l : TransportLedger) (calls : List TransportCall) : TransportLedger := calls.foldl exec l

/-- **The law of the transport**: of each node, what it received followed by what is queued for it
is what was sent to it, and the same of its commands. -/
def Delivers (l : TransportLedger) : Prop :=
  ∀ n, l.received n ++ l.transport.queued n = l.sent n ∧
    l.taken n ++ l.transport.queuedCommands n = l.submitted n

end TransportLedger

/-- A receive has room for everything that is queued. -/
def TransportCall.Drains (transport : MemoryTransport) : TransportCall → Prop
  | .recvFor n capacity => (transport.queued n).length ≤ capacity
  | .recvCommands n capacity => (transport.queuedCommands n).length ≤ capacity
  | _ => True

/-- Every receive of a run has room for everything that is queued. -/
def AllDrain : TransportLedger → List TransportCall → Prop
  | _, [] => True
  | l, call :: calls => call.Drains l.transport ∧ AllDrain (l.exec call) calls

/-! ### One call -/

open MemoryTransport

section Books

variable {α : Type*} {find : CString → Option ℕ} {queues : ℕ → List α}
  {accepted handed : CString → List α}

/-- The account of a node. -/
def account (find : CString → Option ℕ) (queues : ℕ → List α) (accepted handed : CString → List α)
    (n : CString) : Mailbox α :=
  { accepted := accepted n, handed := handed n, held := queuedAt queues (find n) }

lemma note_of_ne {book : CString → List α} {n n' : CString} (h : n ≠ n') (items : List α) :
    note book n' items n = book n :=
  Function.update_of_ne h _ _

lemma note_self (book : CString → List α) (n : CString) (items : List α) :
    note book n items n = book n ++ items :=
  Function.update_self _ _ _

/-- Nodes with different queues: what is put into the queue of one is not seen by another. -/
lemma queuedAt_update (hfind : ∀ n n' i, find n = some i → find n' = some i → n = n')
    {n n' : CString} {i : ℕ} (hi : find n' = some i) (hne : n ≠ n') (items : List α) :
    queuedAt (Function.update queues i items) (find n) = queuedAt queues (find n) := by
  cases hn : find n with
  | none => rfl
  | some j =>
      have hji : j ≠ i := fun h => hne (hfind n n' i (h ▸ hn) hi)
      exact Function.update_of_ne hji _ _

/-- **A send or a submission** leaves every account as it is, or posts the item to it. -/
lemma account_enqueue (hfind : ∀ n n' i, find n = some i → find n' = some i → n = n')
    (target n : CString) (x : α) :
    account find (enqueue queues (find target) x).1
        (note accepted target (if (enqueue queues (find target) x).2 then [x] else [])) handed n =
      account find queues accepted handed n ∨
    account find (enqueue queues (find target) x).1
        (note accepted target (if (enqueue queues (find target) x).2 then [x] else [])) handed n =
      (account find queues accepted handed n).post x := by
  have hrefused : note accepted target [] = accepted := by
    rw [note, List.append_nil, Function.update_eq_self]
  cases htarget : find target with
  | none =>
      left
      simp only [enqueue, Bool.false_eq_true, if_false, hrefused]
  | some i =>
      by_cases hfull : maxQueue ≤ (queues i).length
      · left
        simp only [enqueue, if_pos hfull, Bool.false_eq_true, if_false, hrefused]
      · simp only [enqueue, if_neg hfull, if_true]
        by_cases hn : n = target
        · right
          rw [hn]
          simp only [account, Mailbox.post, note_self, htarget, queuedAt, Function.update_self]
        · left
          simp only [account, note_of_ne hn, queuedAt_update hfind htarget hn]

/-- **A receive** empties the mailbox of its node and leaves the others as they are. -/
lemma account_dequeue (hfind : ∀ n n' i, find n = some i → find n' = some i → n = n')
    (node n : CString) (capacity : ℕ) :
    account find (dequeue queues (find node) capacity).1 accepted
        (note handed node (dequeue queues (find node) capacity).2) n =
      if n = node then (account find queues accepted handed n).empty capacity
      else account find queues accepted handed n := by
  by_cases hn : n = node
  · rw [if_pos hn, hn]
    cases hnode : find node with
    | none => simp only [account, dequeue, Mailbox.empty, note_self, hnode, queuedAt, List.take_nil]
    | some i =>
        simp only [account, dequeue, Mailbox.empty, note_self, hnode, queuedAt, Function.update_self]
  · rw [if_neg hn]
    cases hnode : find node with
    | none => simp only [account, dequeue, note_of_ne hn]
    | some i => simp only [account, dequeue, note_of_ne hn, queuedAt_update hfind hnode hn]

end Books

/-- A node has one queue, and a queue has one node. -/
lemma MemoryTransport.findNode_inj (transport : MemoryTransport) (n n' : CString) (i : ℕ)
    (h : transport.findNode n = some i) (h' : transport.findNode n' = some i) : n = n' := by
  obtain ⟨hi, hn, -⟩ := List.findIdx?_eq_some_iff_getElem.mp h
  obtain ⟨_, hn', -⟩ := List.findIdx?_eq_some_iff_getElem.mp h'
  rw [← eq_of_beq hn, eq_of_beq hn']

namespace TransportLedger

variable {l : TransportLedger}

/-- The account of the messages for a node. -/
def messages (l : TransportLedger) (n : CString) : Mailbox Message :=
  account l.transport.findNode l.transport.queues l.sent l.received n

/-- The account of the commands for a node. -/
def commands (l : TransportLedger) (n : CString) : Mailbox Command :=
  account l.transport.findNode l.transport.clientQueues l.submitted l.taken n

lemma delivers_iff :
    l.Delivers ↔ ∀ n, (l.messages n).Balanced ∧ (l.commands n).Balanced := Iff.rfl

/-- Something is missing from an account. -/
def Loses (l : TransportLedger) : Prop := ∃ n, (l.messages n).Short ∨ (l.commands n).Short

lemma Loses.not_delivers (h : l.Loses) : ¬l.Delivers := by
  obtain ⟨n, hn⟩ := h
  intro hd
  cases hn with
  | inl hn => exact hn.not_balanced (hd n).1
  | inr hn => exact hn.not_balanced (hd n).2

lemma messages_send (l : TransportLedger) (m : Message) (n : CString) :
    (l.exec (.send m)).messages n = l.messages n ∨
      (l.exec (.send m)).messages n = (l.messages n).post m :=
  account_enqueue l.transport.findNode_inj m.target n m

lemma commands_submit (l : TransportLedger) (node : CString) (c : Command) (n : CString) :
    (l.exec (.submit node c)).commands n = l.commands n ∨
      (l.exec (.submit node c)).commands n = (l.commands n).post c :=
  account_enqueue l.transport.findNode_inj node n c

lemma messages_recvFor (l : TransportLedger) (node : CString) (capacity : ℕ) (n : CString) :
    (l.exec (.recvFor node capacity)).messages n =
      if n = node then (l.messages n).empty capacity else l.messages n :=
  account_dequeue l.transport.findNode_inj node n capacity

lemma commands_recvCommands (l : TransportLedger) (node : CString) (capacity : ℕ) (n : CString) :
    (l.exec (.recvCommands node capacity)).commands n =
      if n = node then (l.commands n).empty capacity else l.commands n :=
  account_dequeue l.transport.findNode_inj node n capacity

/-- A call that has room for what is queued keeps the law. -/
lemma Delivers.exec (h : l.Delivers) {call : TransportCall} (hdrains : call.Drains l.transport) :
    (l.exec call).Delivers := by
  rw [delivers_iff] at h ⊢
  intro n
  obtain ⟨hm, hc⟩ := h n
  cases call with
  | send m =>
      refine ⟨?_, hc⟩
      cases messages_send l m n with
      | inl heq => exact heq ▸ hm
      | inr heq => exact heq ▸ hm.post m
  | submit node c =>
      refine ⟨hm, ?_⟩
      cases commands_submit l node c n with
      | inl heq => exact heq ▸ hc
      | inr heq => exact heq ▸ hc.post c
  | recvFor node capacity =>
      refine ⟨?_, hc⟩
      rw [messages_recvFor]
      split
      · rename_i hn
        exact hm.empty (hn ▸ hdrains)
      · exact hm
  | recvCommands node capacity =>
      refine ⟨hm, ?_⟩
      rw [commands_recvCommands]
      split
      · rename_i hn
        exact hc.empty (hn ▸ hdrains)
      · exact hc

/-- What is missing stays missing. -/
lemma Loses.exec (h : l.Loses) (call : TransportCall) : (l.exec call).Loses := by
  obtain ⟨n, h⟩ := h
  refine ⟨n, ?_⟩
  cases call with
  | send m =>
      refine h.imp (fun hm => ?_) id
      cases messages_send l m n with
      | inl heq => exact heq ▸ hm
      | inr heq => exact heq ▸ hm.post m
  | submit node c =>
      refine h.imp id fun hc => ?_
      cases commands_submit l node c n with
      | inl heq => exact heq ▸ hc
      | inr heq => exact heq ▸ hc.post c
  | recvFor node capacity =>
      refine h.imp (fun hm => ?_) id
      rw [messages_recvFor]
      split
      · exact hm.empty capacity
      · exact hm
  | recvCommands node capacity =>
      refine h.imp id fun hc => ?_
      rw [commands_recvCommands]
      split
      · exact hc.empty capacity
      · exact hc

/-- A receive without room for what is queued loses something. -/
lemma Delivers.loses_exec (h : l.Delivers) {call : TransportCall}
    (hdrains : ¬call.Drains l.transport) : (l.exec call).Loses := by
  rw [delivers_iff] at h
  cases call with
  | send m => exact absurd trivial hdrains
  | submit node c => exact absurd trivial hdrains
  | recvFor node capacity =>
      refine ⟨node, Or.inl ?_⟩
      rw [messages_recvFor, if_pos rfl]
      exact (h node).1.short_empty (not_le.mp hdrains)
  | recvCommands node capacity =>
      refine ⟨node, Or.inr ?_⟩
      rw [commands_recvCommands, if_pos rfl]
      exact (h node).2.short_empty (not_le.mp hdrains)

/-! ### Runs -/

lemma run_cons (l : TransportLedger) (call : TransportCall) (calls : List TransportCall) :
    l.run (call :: calls) = (l.exec call).run calls := rfl

lemma Loses.run (calls : List TransportCall) : ∀ {l : TransportLedger}, l.Loses →
    (l.run calls).Loses := by
  induction calls with
  | nil => exact fun h => h
  | cons call calls ih => exact fun h => ih (h.exec call)

lemma delivers_run_iff (calls : List TransportCall) : ∀ {l : TransportLedger}, l.Delivers →
    ((l.run calls).Delivers ↔ AllDrain l calls) := by
  induction calls with
  | nil => exact fun h => iff_of_true h trivial
  | cons call calls ih =>
      intro l h
      rw [run_cons, AllDrain]
      by_cases hdrains : call.Drains l.transport
      · rw [ih (h.exec hdrains)]
        exact (and_iff_right hdrains).symm
      · have hloses : ((l.exec call).run calls).Loses := (h.loses_exec hdrains).run calls
        exact iff_of_false hloses.not_delivers fun hall => hdrains hall.1

/-- Registering puts nothing into a queue. -/
lemma queues_withNodes (ids : List CString) : ∀ transport : MemoryTransport,
    (ids.foldl (fun transport id => (transport.registerNode id).1) transport).queues =
      transport.queues ∧
    (ids.foldl (fun transport id => (transport.registerNode id).1) transport).clientQueues =
      transport.clientQueues := by
  induction ids with
  | nil => exact fun _ => ⟨rfl, rfl⟩
  | cons id ids ih =>
      intro transport
      obtain ⟨h1, h2⟩ := ih (transport.registerNode id).1
      rw [List.foldl_cons, h1, h2, MemoryTransport.registerNode]
      split <;> exact ⟨rfl, rfl⟩

lemma delivers_start (ids : List CString) : (start ids).Delivers := by
  obtain ⟨h1, h2⟩ := queues_withNodes ids MemoryTransport.init
  have hempty : ∀ {α : Type} (idx : Option ℕ), queuedAt (fun _ => ([] : List α)) idx = [] := by
    intro α idx
    cases idx with
    | none => rfl
    | some i => rfl
  intro n
  constructor
  · change [] ++ queuedAt (MemoryTransport.withNodes ids).queues _ = []
    rw [MemoryTransport.withNodes, h1]
    exact hempty _
  · change [] ++ queuedAt (MemoryTransport.withNodes ids).clientQueues _ = []
    rw [MemoryTransport.withNodes, h2]
    exact hempty _

end TransportLedger

/-- **The memory transport delivers exactly what it accepted** in the runs whose receives have room
for everything that is queued, and in no others: of any registered nodes and any calls, for each
node what it received followed by what is still queued for it is what was accepted for it. -/
theorem transport_delivers_iff (ids : List CString) (calls : List TransportCall) :
    ((TransportLedger.start ids).run calls).Delivers ↔
      AllDrain (TransportLedger.start ids) calls :=
  TransportLedger.delivers_run_iff calls (TransportLedger.delivers_start ids)

/-- A message of a term. -/
def heartbeatOf (term : ℤ) : Message :=
  { kind := .appendEntries, term := term, source := ['b'], target := ['a'] }

/-- Two messages are accepted and one is received with room for one: the other is gone. -/
theorem transport_drops :
    ¬((TransportLedger.start [['a'], ['b']]).run
      [.send (heartbeatOf 1), .send (heartbeatOf 2), .recvFor ['a'] 1]).Delivers := by
  intro h
  have hlen := congrArg List.length (h ['a']).1
  exact absurd hlen (by decide)

end RaftRx.C
