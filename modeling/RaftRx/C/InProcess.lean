import RaftRx.C.CommandIntake
import RaftRx.C.CatchUp

/-!
Nodes of one process (`raft_cluster_t`).

The nodes share a clock and the memory transport.  A tick of the runtime latches a node's inputs
from the transport, takes a transition and dumps the outputs into the transport; the phases of the
nodes may interleave in any way.

* `LocalCluster`, `LocalAct`, `LocalCluster.exec`: the clock, the transport with its account, the
  nodes and the messages handed to the transport so far;
* `LocalCluster.cluster`: the cluster of `Cluster.exec` it is;
* `Sound`: the account of the transport is in order, and what was accepted was handed to it;
* `exec_refines`, `refines_run`: a run of nodes in one process is a run of that cluster;
* `local_delivers`: `raft_node_latch_inputs` has room for whatever is queued, so nothing is lost;
* `local_applied_agree`: the safety of clusters is theirs.
-/

namespace RaftRx.C

open Protocol (applied_unique CommitInv)

variable {σ : Type*}

/-! ### The cluster -/

/-- `raft_cluster_t`, with the machines of its runtime, the account of its transport, the messages
its nodes handed to the transport and the entries they applied. -/
structure LocalCluster (σ : Type*) where
  clockMs : ℤ
  ledger : TransportLedger
  hosts : CString → Host σ
  sent : List Message
  applied : List (CString × ℤ × LogEntry)

/-- What can happen in the process. -/
inductive LocalAct (σ : Type*) where
  /-- The clock moves, by `raft_cluster_tick` or by itself. -/
  | advance (ms : ℤ)
  | submit (node : CString) (command : Command)
  | latch (node : CString) (slots : ℤ → LogEntry)
  | transition (node : CString)
  | dump (node : CString)
  | stop (node : CString)
  | start (node : CString)
  | request (node : CString) (members : List CString)
  | resetForJoin (node : CString) (user : σ)

namespace LocalCluster

/-- What `raft_node_latch_inputs` receives; a stopped node receives nothing. -/
def receive (l : LocalCluster σ) (n : CString) : List Message × List Command :=
  if (l.hosts n).node.running = false then ([], [])
  else
    ((l.ledger.transport.recvFor n maxQueue).2,
      (l.ledger.transport.recvClientCommands n maxQueue).2)

/-- The act of a host that an act is, if it is one. -/
def hostAct (l : LocalCluster σ) : LocalAct σ → Option (ClusterAct σ)
  | .advance _ => none
  | .submit _ _ => none
  | .latch n slots => some ⟨n, .latch l.clockMs slots (l.receive n).1 (l.receive n).2⟩
  | .transition n => some ⟨n, .transition l.clockMs⟩
  | .dump n => some ⟨n, .dump⟩
  | .stop n => some ⟨n, .stop⟩
  | .start n => some ⟨n, .start l.clockMs⟩
  | .request n members => some ⟨n, .request members⟩
  | .resetForJoin n user => some ⟨n, .resetForJoin l.clockMs user⟩

/-- The calls of the transport in an act of a host: its inputs, and the loop over the outbox in
`raft_node_dump_outputs`, where a message that is refused is lost. -/
def calls (l : LocalCluster σ) (act : LocalAct σ) (sends : List Message) : List TransportCall :=
  (match act with
    | .latch n _ =>
        if (l.hosts n).node.running = false then []
        else [.recvFor n maxQueue, .recvCommands n maxQueue]
    | _ => []) ++ sends.map TransportCall.send

/-- An act of a host whose id fits its buffer. -/
def perform (A : CString → Application σ) (l : LocalCluster σ) (act : LocalAct σ)
    (a : ClusterAct σ) : Option (LocalCluster σ) :=
  if FitsBuffer maxId a.host then
    ((l.hosts a.host).exec (A a.host) a.act).map fun (h, effect) =>
      { l with
        ledger := l.ledger.run (l.calls act effect.sends)
        hosts := Function.update l.hosts a.host h
        sent := l.sent ++ effect.sends
        applied := l.applied ++ effect.applied.map fun (i, e) => (a.host, i, e) }
  else none

/-- `raft_node_submit_command`, which hands only the command of a running member to the
transport. -/
def submitCalls (x : Node σ) (command : Command) : List TransportCall :=
  if x.running = false ∨ x.selfIsMember = false then [] else [.submit x.config.nodeId command]

/-- An act of no host: the clock of `raft_cluster_tick`, and `raft_node_submit_command`. -/
def outside (l : LocalCluster σ) : LocalAct σ → LocalCluster σ
  | .advance ms => { l with clockMs := l.clockMs + ms }
  | .submit n command => { l with ledger := l.ledger.run (submitCalls (l.hosts n).node command) }
  | _ => l

/-- One act. -/
def exec (A : CString → Application σ) (l : LocalCluster σ) (act : LocalAct σ) :
    Option (LocalCluster σ) :=
  match l.hostAct act with
  | some a => l.perform A act a
  | none => some (l.outside act)

/-- `raft_cluster_init`, and `raft_cluster_add_node` for each of the nodes. -/
def boot (A : CString → Application σ) (ids : List CString) (config : CString → NodeConfig)
    (user : CString → σ) (clockMs : ℤ) : LocalCluster σ :=
  { clockMs := clockMs, ledger := TransportLedger.start ids
    hosts := fun n => Host.boot (A n) (config n) (user n) clockMs, sent := [], applied := [] }

/-- **The cluster it is**: what was handed to the transport is on the network. -/
def cluster (l : LocalCluster σ) : Cluster σ :=
  { hosts := l.hosts, network := l.sent, applied := l.applied }

/-- A condition on the acts of a cluster, for the acts of the process. -/
def Lifts (P : Cluster σ → ClusterAct σ → Prop) (l : LocalCluster σ) (act : LocalAct σ) : Prop :=
  ∀ a ∈ l.hostAct act, P l.cluster a

instance (P : Cluster σ → ClusterAct σ → Prop) [∀ c a, Decidable (P c a)] (l : LocalCluster σ)
    (act : LocalAct σ) : Decidable (Lifts P l act) :=
  inferInstanceAs (Decidable (∀ a ∈ _, _))

end LocalCluster

/-! ### The transport -/

open MemoryTransport

/-- No queue is longer than its array. -/
def MemoryTransport.Roomy (t : MemoryTransport) : Prop :=
  (∀ i, (t.queues i).length ≤ maxQueue) ∧ ∀ i, (t.clientQueues i).length ≤ maxQueue

/-- A receive with room for a whole array, or no receive. -/
def TransportCall.Whole : TransportCall → Prop
  | .recvFor _ capacity => capacity = maxQueue
  | .recvCommands _ capacity => capacity = maxQueue
  | _ => True

section Queues

variable {α : Type*} {queues : ℕ → List α}

lemma length_queuedAt (h : ∀ i, (queues i).length ≤ maxQueue) (idx : Option ℕ) :
    (queuedAt queues idx).length ≤ maxQueue := by
  cases idx with
  | none => exact Nat.zero_le _
  | some i => exact h i

lemma length_enqueue (h : ∀ i, (queues i).length ≤ maxQueue) (idx : Option ℕ) (x : α) (j : ℕ) :
    ((enqueue queues idx x).1 j).length ≤ maxQueue := by
  cases idx with
  | none => exact h j
  | some i =>
      by_cases hfull : maxQueue ≤ (queues i).length
      · simp only [enqueue, if_pos hfull]
        exact h j
      · simp only [enqueue, if_neg hfull]
        by_cases hj : j = i
        · subst hj
          rw [Function.update_self, List.length_append, List.length_singleton]
          omega
        · rw [Function.update_of_ne hj]
          exact h j

lemma length_dequeue (h : ∀ i, (queues i).length ≤ maxQueue) (idx : Option ℕ) (capacity j : ℕ) :
    ((dequeue queues idx capacity).1 j).length ≤ maxQueue := by
  cases idx with
  | none => exact h j
  | some i =>
      simp only [dequeue]
      by_cases hj : j = i
      · subst hj
        rw [Function.update_self]
        exact Nat.zero_le _
      · rw [Function.update_of_ne hj]
        exact h j

end Queues

/-- A receive hands out what is queued for its node. -/
lemma mem_recvFor {t : MemoryTransport} {n : CString} {capacity : ℕ} {m : Message}
    (h : m ∈ (t.recvFor n capacity).2) : m ∈ t.queued n := by
  change m ∈ (dequeue t.queues (t.findNode n) capacity).2 at h
  change m ∈ queuedAt t.queues (t.findNode n)
  cases hn : t.findNode n with
  | none =>
      rw [hn] at h
      exact absurd h List.not_mem_nil
  | some i =>
      rw [hn] at h
      exact List.mem_of_mem_take h

namespace TransportLedger

variable {l : TransportLedger} {call : TransportCall}

lemma roomy_exec (h : l.transport.Roomy) (call : TransportCall) :
    (l.exec call).transport.Roomy := by
  cases call with
  | send m => exact ⟨length_enqueue h.1 _ m, h.2⟩
  | recvFor n capacity => exact ⟨length_dequeue h.1 _ capacity, h.2⟩
  | submit n c => exact ⟨h.1, length_enqueue h.2 _ c⟩
  | recvCommands n capacity => exact ⟨h.1, length_dequeue h.2 _ capacity⟩

/-- A receive with room for a whole array has room for what is queued. -/
lemma drains_of_roomy (h : l.transport.Roomy) (hwhole : call.Whole) : call.Drains l.transport := by
  cases call with
  | send m | submit n c => trivial
  | recvFor n capacity => exact hwhole ▸ length_queuedAt h.1 _
  | recvCommands n capacity => exact hwhole ▸ length_queuedAt h.2 _

/-- What was accepted for a node is new only if it was sent to it now. -/
lemma mem_sent_exec {n : CString} {m : Message} (h : m ∈ (l.exec call).sent n) :
    m ∈ l.sent n ∨ (call = .send m ∧ m.target = n) := by
  cases call with
  | recvFor n' capacity | submit n' c | recvCommands n' capacity => exact Or.inl h
  | send m' =>
      change m ∈ note l.sent m'.target (if (l.transport.send m').2 then [m'] else []) n at h
      by_cases hn : n = m'.target
      · subst hn
        rw [note_self, List.mem_append] at h
        refine h.imp id fun hnew => ?_
        split at hnew
        · rw [List.mem_singleton.mp hnew]
          exact ⟨rfl, rfl⟩
        · exact absurd hnew List.not_mem_nil
      · rw [note_of_ne hn] at h
        exact Or.inl h

/-- **Calls with room** keep the transport in order. -/
lemma run_whole (calls : List TransportCall) : ∀ {l : TransportLedger},
    (∀ call ∈ calls, call.Whole) → l.Delivers → l.transport.Roomy →
      (l.run calls).Delivers ∧ (l.run calls).transport.Roomy ∧
        ∀ n, ∀ m ∈ (l.run calls).sent n,
          m ∈ l.sent n ∨ (TransportCall.send m ∈ calls ∧ m.target = n) := by
  induction calls with
  | nil => exact fun _ hd hr => ⟨hd, hr, fun _ _ => Or.inl⟩
  | cons call calls ih =>
      intro l hwhole hd hr
      obtain ⟨hcall, hcalls⟩ := List.forall_mem_cons.mp hwhole
      obtain ⟨hd', hr', hsent⟩ :=
        ih hcalls (hd.exec (drains_of_roomy hr hcall)) (roomy_exec hr call)
      refine ⟨hd', hr', fun n m hm => ?_⟩
      rcases hsent n m hm with hm | ⟨hm, htarget⟩
      · rcases mem_sent_exec hm with hm | ⟨rfl, htarget⟩
        · exact Or.inl hm
        · exact Or.inr ⟨List.mem_cons_self, htarget⟩
      · exact Or.inr ⟨List.mem_cons_of_mem _ hm, htarget⟩

end TransportLedger

/-! ### Acts -/

namespace LocalCluster

/-- **The transport in order**: it delivers what it accepted, no queue is longer than its array, and
what it accepted for a node was handed to it for that node. -/
structure Sound (l : LocalCluster σ) : Prop where
  delivers : l.ledger.Delivers
  roomy : l.ledger.transport.Roomy
  accepted : ∀ n, ∀ m ∈ l.ledger.sent n, m ∈ l.sent ∧ m.target = n

variable {A : CString → Application σ} {l l' : LocalCluster σ} {act : LocalAct σ}

/-- A submission is `raft_node_submit_command`. -/
lemma transport_submitCalls (x : Node σ) (ledger : TransportLedger) (command : Command) :
    (ledger.run (submitCalls x command)).transport =
      (x.submitCommand ledger.transport command).1 := by
  rw [submitCalls, Node.submitCommand]
  split <;> rfl

/-- The receives of `raft_node_latch_inputs` have room for a whole array. -/
lemma whole_calls (l : LocalCluster σ) (act : LocalAct σ) (sends : List Message) :
    ∀ call ∈ l.calls act sends, call.Whole := by
  intro call hcall
  rcases List.mem_append.mp hcall with hcall | hcall
  · cases act with
    | latch n slots =>
        dsimp only at hcall
        split at hcall
        · exact absurd hcall List.not_mem_nil
        · simp only [List.mem_cons, List.not_mem_nil, or_false] at hcall
          rcases hcall with rfl | rfl <;> rfl
    | advance ms | submit n c | transition n | dump n | stop n | start n | request n ms
    | resetForJoin n user => exact absurd hcall List.not_mem_nil
  · obtain ⟨m, -, rfl⟩ := List.mem_map.mp hcall
    trivial

/-- The messages an act hands to the transport. -/
lemma mem_calls {sends : List Message} {m : Message}
    (h : TransportCall.send m ∈ l.calls act sends) : m ∈ sends := by
  rcases List.mem_append.mp h with h | h
  · cases act with
    | latch n slots =>
        dsimp only at h
        split at h <;> simp at h
    | advance ms | submit n c | transition n | dump n | stop n | start n | request n ms
    | resetForJoin n user => exact absurd h List.not_mem_nil
  · obtain ⟨m', hm', heq⟩ := List.mem_map.mp h
    exact TransportCall.send.inj heq ▸ hm'

/-- A submission hands over no message. -/
lemma sound_submit (h : l.Sound) (x : Node σ) (command : Command) :
    ({ l with ledger := l.ledger.run (submitCalls x command) } : LocalCluster σ).Sound := by
  have hcalls : ∀ call ∈ submitCalls x command,
      call.Whole ∧ ∀ m, call ≠ TransportCall.send m := by
    intro call hcall
    rw [submitCalls] at hcall
    split at hcall
    · exact absurd hcall List.not_mem_nil
    · rw [List.mem_singleton.mp hcall]
      exact ⟨trivial, fun m => TransportCall.noConfusion⟩
  obtain ⟨hd, hr, hsent⟩ :=
    TransportLedger.run_whole _ (fun call hcall => (hcalls call hcall).1) h.delivers h.roomy
  refine ⟨hd, hr, fun n m hm => ?_⟩
  rcases hsent n m hm with hm | ⟨hm, -⟩
  · exact h.accepted n m hm
  · exact absurd rfl ((hcalls _ hm).2 m)

/-- What a host hears was sent to it. -/
lemma heard_of_sound (h : l.Sound) {a : ClusterAct σ} (ha : l.hostAct act = some a) :
    ∀ m ∈ a.act.heard, m ∈ l.cluster.network ∧ m.target = a.host := by
  cases act with
  | latch n slots =>
      rw [hostAct, Option.some.injEq] at ha
      subst ha
      intro m hm
      change m ∈ (l.receive n).1 at hm
      rw [receive] at hm
      split at hm
      · exact absurd hm List.not_mem_nil
      · refine h.accepted n m ?_
        rw [← (h.delivers n).1]
        exact List.mem_append_right _ (mem_recvFor hm)
  | advance ms => exact absurd ha (by simp [hostAct])
  | submit n command => exact absurd ha (by simp [hostAct])
  | transition n | dump n | stop n | start n | request n members | resetForJoin n user =>
      rw [hostAct, Option.some.injEq] at ha
      subst ha
      exact fun m hm => absurd hm List.not_mem_nil

/-- **An act of the process** is an act of the cluster, or leaves it as it is, and keeps the
transport in order. -/
theorem exec_refines (h : l.Sound) (hexec : l.exec A act = some l') :
    l'.Sound ∧
      ((l.hostAct act = none ∧ l'.cluster = l.cluster) ∨
        ∃ a, l.hostAct act = some a ∧ l.cluster.exec A a = some l'.cluster) := by
  rw [exec] at hexec
  cases hact : l.hostAct act with
  | none =>
      rw [hact, Option.some.injEq] at hexec
      subst hexec
      cases act with
      | advance ms => exact ⟨⟨h.delivers, h.roomy, h.accepted⟩, Or.inl ⟨rfl, rfl⟩⟩
      | submit n command => exact ⟨sound_submit h _ command, Or.inl ⟨rfl, rfl⟩⟩
      | latch n slots | transition n | dump n | stop n | start n | request n members
      | resetForJoin n user => exact absurd hact (by simp [hostAct])
  | some a =>
      rw [hact] at hexec
      change l.perform A act a = some l' at hexec
      rw [perform, Option.ite_none_right_eq_some] at hexec
      obtain ⟨hfits, hmap⟩ := hexec
      obtain ⟨⟨h', effect⟩, hhost, rfl⟩ := Option.map_eq_some_iff.mp hmap
      obtain ⟨hd, hr, hsent⟩ :=
        TransportLedger.run_whole _ (whole_calls l act effect.sends) h.delivers h.roomy
      refine ⟨⟨hd, hr, fun n m hm => ?_⟩, Or.inr ⟨a, rfl, ?_⟩⟩
      · rcases hsent n m hm with hm | ⟨hm, htarget⟩
        · obtain ⟨hmem, htarget⟩ := h.accepted n m hm
          exact ⟨List.mem_append_left _ hmem, htarget⟩
        · exact ⟨List.mem_append_right _ (mem_calls hm), htarget⟩
      · rw [Cluster.exec, if_pos ⟨hfits, heard_of_sound h hact⟩]
        exact Option.map_eq_some_iff.mpr ⟨_, hhost, rfl⟩

/-! ### Runs -/

/-- Registering queues nothing. -/
lemma sound_boot (ids : List CString) (config : CString → NodeConfig) (user : CString → σ)
    (clockMs : ℤ) : (boot A ids config user clockMs).Sound := by
  refine ⟨TransportLedger.delivers_start ids, ?_, fun n m hm => absurd hm List.not_mem_nil⟩
  obtain ⟨h1, h2⟩ := TransportLedger.queues_withNodes ids MemoryTransport.init
  constructor
  · intro i
    change ((MemoryTransport.withNodes ids).queues i).length ≤ maxQueue
    rw [MemoryTransport.withNodes, h1]
    exact Nat.zero_le _
  · intro i
    change ((MemoryTransport.withNodes ids).clientQueues i).length ≤ maxQueue
    rw [MemoryTransport.withNodes, h2]
    exact Nat.zero_le _

/-- **A run of nodes in one process is a run of the cluster.** -/
theorem refines_run {P : Cluster σ → ClusterAct σ → Prop} (h : l.Sound)
    (hrun : Run (LocalCluster.exec A) (Lifts P) l l') :
    Run (Cluster.exec A) P l.cluster l'.cluster := by
  have hboth : l'.Sound ∧ Run (Cluster.exec A) P l.cluster l'.cluster := by
    induction hrun with
    | refl => exact ⟨h, Run.refl _⟩
    | tail _ hstep ih =>
        obtain ⟨act, hP, hexec⟩ := hstep
        obtain ⟨hsound, ⟨-, heq⟩ | ⟨a, ha, hcluster⟩⟩ := exec_refines ih.1 hexec
        · rw [heq]
          exact ⟨hsound, ih.2⟩
        · exact ⟨hsound, ih.2.tail (hP a ha) hcluster⟩
  exact hboth.2

/-- Three nodes in one process. -/
def startThree : LocalCluster Unit :=
  boot (fun _ => silent) [n1, n2, n3] threeConfig (fun _ => ()) 0

/-- A whole tick of a node. -/
def localTick (n : CString) : List (LocalAct Unit) :=
  [.latch n fun _ => ⟨0, 0, [], ⟨[], [], []⟩⟩, .transition n, .dump n]

/-- `n1` is elected by `n2`, takes a command, and both apply it. -/
def localCommand : List (LocalAct Unit) :=
  .advance 1 :: (localTick n1 ++ localTick n2 ++ localTick n1 ++ localTick n1) ++
    .submit n1 (putCommand "x") :: (localTick n1 ++ localTick n2) ++
    .advance 10 :: (localTick n1 ++ localTick n2 ++ localTick n1) ++
    .advance 10 :: (localTick n1 ++ localTick n2)

/-- **Nothing is lost in one process**: in every run of nodes that share the memory transport, what
each node received followed by what is queued for it is exactly what the transport accepted for it,
messages as well as commands. -/
theorem local_delivers (A : CString → Application σ) (P : LocalCluster σ → LocalAct σ → Prop)
    (ids : List CString) (config : CString → NodeConfig) (user : CString → σ) (clockMs : ℤ)
    (hrun : Run (LocalCluster.exec A) P (boot A ids config user clockMs) l) :
    l.ledger.Delivers :=
  (hrun.invariant (I := Sound) (fun _ _ _ h _ hexec => (exec_refines h hexec).1)
    (sound_boot ids config user clockMs)).delivers

/-- `n2` was sent five messages. -/
theorem local_delivers_three : ∃ l, Run (LocalCluster.exec fun _ => silent) (fun _ _ => True)
      startThree l ∧ (l.ledger.sent n2).length = 5 ∧ l.ledger.Delivers := by
  have hexec : (execAll (LocalCluster.exec fun _ => silent) (fun _ _ => true) startThree
      localCommand).any (fun l => decide ((l.ledger.sent n2).length = 5)) = true := by
    decide +kernel
  obtain ⟨l, hrun, hl⟩ := Run.exists_of_execAll hexec
  have hrun' := hrun.mono (fun _ _ _ => trivial)
  exact ⟨l, hrun', of_decide_eq_true hl, local_delivers (fun _ => silent) (fun _ _ => True)
    [n1, n2, n3] threeConfig (fun _ => ()) 0 hrun'⟩

/-- **State machine safety in one process**: the run is one of the cluster of hosts, and entries
applied at one index by two nodes carry one command. -/
theorem local_applied_agree {initial : List CString} {config : CString → NodeConfig}
    (hboot : ∀ n, Bootstrapped initial n (config n)) (hids : ∀ m ∈ initial, IdOk m)
    (ids : List CString) (user : CString → σ) (clockMs : ℤ)
    (hrun : Run (LocalCluster.exec A) (Lifts (SafeTick A)) (boot A ids config user clockMs) l) :
    Run (Cluster.exec A) (SafeTick A) (Cluster.boot A config user clockMs) l.cluster ∧
      ∀ (p q : CString) (i : ℤ) (e e' : LogEntry), (p, i, e) ∈ l.applied →
        (q, i, e') ∈ l.applied → e.command = e'.command := by
  have hcluster := refines_run (sound_boot ids config user clockMs) hrun
  refine ⟨hcluster, fun p q i e e' hp hq => ?_⟩
  obtain ⟨a, hinv, hat⟩ := clusterAt_safeTicks hboot hids hcluster
  have happlied : ∀ n i e, (n, i, e) ∈ l.applied → (n, (i - 1).toNat, e) ∈ a.applied := by
    intro n i e hmem
    rw [hat.applied rfl]
    exact ⟨(n, i, e), hmem, rfl⟩
  rw [applied_unique hinv (happlied p i e hp) (happlied q i e' hq)]

/-- The command of `n1`, applied by `n1` and `n2`. -/
theorem local_applied_agree_three : ∃ (l : LocalCluster Unit) (e e' : LogEntry),
    Run (LocalCluster.exec fun _ => silent) (Lifts (SafeTick fun _ => silent)) startThree l ∧
    (n1, 1, e) ∈ l.applied ∧ (n2, 1, e') ∈ l.applied ∧ e.command = e'.command := by
  have hexec : (execAll (LocalCluster.exec fun _ => silent)
      (fun l act => decide (Lifts (SafeTick fun _ => silent) l act)) startThree localCommand).any
        (fun l => hasApplied l.cluster n1 1 (putCommand "x") &&
          hasApplied l.cluster n2 1 (putCommand "x")) = true := by
    decide +kernel
  obtain ⟨l, hrun, hl⟩ := Run.exists_of_execAll hexec
  rw [Bool.and_eq_true] at hl
  obtain ⟨e, he, -⟩ := hasApplied_spec hl.1
  obtain ⟨e', he', -⟩ := hasApplied_spec hl.2
  have hrun' := hrun.mono (fun _ _ => of_decide_eq_true)
  have hagree :=
    local_applied_agree bootstrapped_three idOk_three [n1, n2, n3] (fun _ => ()) 0 hrun'
  exact ⟨l, e, e', hrun', he, he', hagree.2 n1 n2 1 e e' he he'⟩

end LocalCluster

end RaftRx.C
