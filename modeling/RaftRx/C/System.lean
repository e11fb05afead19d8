import RaftRx.C.Tick
import RaftRx.Library.Runs

/-!
Hosts and clusters of C nodes.

A host is a node with its disk and the phase of its tick.  rxnet runs a tick as latch, transition
and dump; the phases of different hosts may interleave.  A crash loses the node at any moment,
also inside the dump after some of its file replacements and some of its sends, or inside
`raft_node_reset_for_join`, and the node is initialised again from the disk.

Stops, starts, requests and resets come between the ticks of a node.  A machine of the same runtime
that calls these functions between the action of a node and its dump is not modelled.

* `Host.exec`: one act of one host, with what it writes, sends and applies;
* `Cluster.exec`: one act of one host of a cluster; it hears only messages that were handed to the
  transport for it, each any number of times or never;
* `Node.Fits`: the data fits its C types.  An act after which it does not has no defined result.
-/

namespace RaftRx.C

open Protocol (Role)

variable {σ : Type*}

/-! ### Values and their C types -/

/-- The range of `int`. -/
def FitsInt (z : ℤ) : Prop := -2147483648 ≤ z ∧ z ≤ 2147483647

instance (z : ℤ) : Decidable (FitsInt z) := inferInstanceAs (Decidable (_ ∧ _))

/-- The string fits in a buffer of `size` bytes. -/
def FitsBuffer (size : ℕ) (s : CString) : Prop := s.length < size

instance (size : ℕ) (s : CString) : Decidable (FitsBuffer size s) :=
  inferInstanceAs (Decidable (_ < _))

/-- A log entry fits in `raft_log_entry_t`. -/
def LogEntry.Fits (e : LogEntry) : Prop :=
  FitsInt e.index ∧ FitsInt e.term ∧ FitsBuffer maxId e.leaderId ∧ FitsBuffer maxOp e.command.op ∧
    FitsBuffer maxKey e.command.key ∧ FitsBuffer maxValue e.command.value

instance (e : LogEntry) : Decidable e.Fits := inferInstanceAs (Decidable (_ ∧ _))

/-- What a node stores fits in `raft_node_t`. -/
def Node.Fits (node : Node σ) : Prop :=
  FitsBuffer maxId node.config.nodeId ∧ FitsInt node.currentTerm ∧
    FitsBuffer maxId node.votedFor ∧ FitsInt node.compactionThreshold ∧
    FitsInt node.commitIndex ∧ FitsInt node.snapshotLastIncludedIndex ∧
    FitsInt node.snapshotLastIncludedTerm ∧ FitsInt node.configState.index ∧
    ∀ e ∈ node.log, e.Fits

instance (node : Node σ) : Decidable node.Fits := inferInstanceAs (Decidable (_ ∧ _))

/-! ### Hosts -/

/-- How far the current tick has got. -/
inductive Phase where
  | idle | latched | acted
  deriving DecidableEq, Repr

/-- A node with the configuration its program passes to `raft_node_init` and its disk. -/
structure Host (σ : Type*) where
  config : NodeConfig
  node : Node σ
  disk : Disk
  phase : Phase

/-- What can happen to a host. -/
inductive HostAct (σ : Type*) where
  /-- `raft_node_latch_inputs` at some clock value, with the messages and commands it receives. -/
  | latch (clockMs : ℤ) (slots : ℤ → LogEntry) (messages : List Message) (commands : List Command)
  | transition (clockMs : ℤ)
  | dump
  | stop
  | start (clockMs : ℤ)
  | request (members : List CString)
  /-- `raft_node_reset_for_join`, around which its caller leaves `user` in the application. -/
  | resetForJoin (clockMs : ℤ) (user : σ)
  /-- The process dies and is started again. -/
  | crash (user : σ) (clockMs : ℤ)
  /-- The process dies inside the dump, after that many file replacements and sends. -/
  | crashInDump (writes sends : ℕ) (user : σ) (clockMs : ℤ)
  /-- The process dies inside `raft_node_reset_for_join`, after that many file replacements. -/
  | crashInReset (writes : ℕ) (user : σ) (clockMs : ℤ)

/-- What an act does outside the node. -/
structure Effect where
  writes : List Write := []
  sends : List Message := []
  applied : List (ℤ × LogEntry) := []

/-- The replacement of files. -/
def Disk.writeAll (disk : Disk) (writes : List Write) : Disk :=
  writes.foldl Disk.write disk

namespace Host

variable (A : Application σ)

/-- A host right after the first `raft_node_init` on an empty data directory. -/
def boot (config : NodeConfig) (user : σ) (clockMs : ℤ) : Host σ :=
  { config := config, node := Node.init A config Disk.empty user clockMs, disk := Disk.empty
    phase := .idle }

/-- One act of a host. -/
def act (h : Host σ) : HostAct σ → Option (Host σ × Effect)
  | .latch clockMs slots messages commands =>
      if h.phase = .idle then
        let node := { h.node with clockMs := clockMs, slots := slots }
        some ({ h with node := node.latchInputs messages commands, phase := .latched }, {})
      else none
  | .transition clockMs =>
      if h.phase = .latched then
        some ({ h with
          node := Node.transition A { h.node with clockMs := clockMs }, phase := .acted }, {})
      else none
  | .dump =>
      if h.phase = .acted then
        let d := h.node.dumpOutputs A
        some ({ h with node := d.node, disk := h.disk.writeAll d.writes, phase := .idle },
          { writes := d.writes, sends := d.sends, applied := d.applied })
      else none
  | .stop => if h.phase = .idle then some ({ h with node := h.node.stop }, {}) else none
  | .start clockMs =>
      if h.phase = .idle then
        some ({ h with node := Node.start A { h.node with clockMs := clockMs } h.disk }, {})
      else none
  | .request members =>
      if h.phase = .idle then
        some ({ h with node := (h.node.requestMembershipChange members).1 }, {})
      else none
  | .resetForJoin clockMs user =>
      if h.phase = .idle then
        let r := Node.resetForJoin { h.node with clockMs := clockMs, user := user }
        some ({ h with node := r.1, disk := h.disk.writeAll r.2 }, { writes := r.2 })
      else none
  | .crash user clockMs =>
      some ({ h with node := Node.init A h.config h.disk user clockMs, phase := .idle }, {})
  | .crashInDump writes sends user clockMs =>
      let d := h.node.dumpOutputs A
      if h.phase = .acted ∧ d.node.Fits then
        let disk := h.disk.writeAll (d.writes.take writes)
        some ({ h with
            node := Node.init A h.config disk user clockMs, disk := disk, phase := .idle },
          { writes := d.writes.take writes
            sends := if d.writes.length ≤ writes then d.sends.take sends else []
            applied := d.applied })
      else none
  | .crashInReset writes user clockMs =>
      let r := h.node.resetForJoin
      if h.phase = .idle ∧ r.1.Fits then
        let disk := h.disk.writeAll (r.2.take writes)
        some ({ h with
            node := Node.init A h.config disk user clockMs, disk := disk, phase := .idle },
          { writes := r.2.take writes })
      else none

/-- An act whose result fits its C types. -/
def exec (h : Host σ) (a : HostAct σ) : Option (Host σ × Effect) :=
  (h.act A a).filter fun r => decide r.1.node.Fits

end Host

/-! ### Clusters -/

/-- Hosts by their id, the messages handed to the transport so far and the entries applied. -/
structure Cluster (σ : Type*) where
  hosts : CString → Host σ
  network : List Message
  applied : List (CString × ℤ × LogEntry)

/-- An act of one host. -/
structure ClusterAct (σ : Type*) where
  host : CString
  act : HostAct σ

/-- The messages an act hears. -/
def HostAct.heard : HostAct σ → List Message
  | .latch _ _ messages _ => messages
  | _ => []

namespace Cluster

variable (A : CString → Application σ)

/-- A cluster whose nodes all start on empty data directories. -/
def boot (config : CString → NodeConfig) (user : CString → σ) (clockMs : ℤ) : Cluster σ :=
  { hosts := fun n => Host.boot (A n) (config n) (user n) clockMs, network := [], applied := [] }

/-- One act of a cluster, by a host whose id fits its buffer. -/
def exec (c : Cluster σ) (a : ClusterAct σ) : Option (Cluster σ) :=
  if FitsBuffer maxId a.host ∧ ∀ m ∈ a.act.heard, m ∈ c.network ∧ m.target = a.host then
    ((c.hosts a.host).exec (A a.host) a.act).map fun (h, effect) =>
      { hosts := Function.update c.hosts a.host h
        network := c.network ++ effect.sends
        applied := c.applied ++ effect.applied.map fun (i, e) => (a.host, i, e) }
  else none

end Cluster

end RaftRx.C
