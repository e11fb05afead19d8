import RaftRx.Python.Machines
import RaftRx.Library.Runs

/-!
Hosts and clusters of Python nodes.

A host is a node with its files and the phase of its tick.  The phases of different hosts may
interleave, and the compaction and the membership machine of a host may move at any moment.  A crash
loses the node at any moment, also inside the dump after some of its file replacements and some of
its sends, and a new node is constructed on the same files.  A tick that raises is no act: what
happens to its host is a crash.

Stops and starts come between the ticks of the role machine.  A machine of the same runtime that
calls `stop` or `start` between the action of a node and its dump is not modelled.

* `Host.run`: one act of one host, `none` when it raises;
* `Host.exec`: the act, if its phase has come;
* `Cluster.exec`: one act of one host of a cluster; it hears only messages that were handed to the
  transport for it, each any number of times or never.
-/

namespace RaftRx.Python

variable {σ ν : Type}

/-! ### Hosts -/

/-- How far the current tick of the role machine has got. -/
inductive Phase where
  | idle | latched | acted
  deriving DecidableEq, Repr

/-- A node with the configuration its program gives it and its files. -/
structure Host (σ ν : Type) where
  config : NodeConfig
  node : Node σ ν
  disk : Disk ν
  phase : Phase

/-- What can happen to a host.  `clockMs` is the value of the clock. -/
inductive HostAct (σ : Type) where
  | latch (clockMs : ℤ) (messages : List Message) (commands : List Command)
  | transition (clockMs : ℤ)
  | dump
  | compaction
  | membership
  | request (members : List Str)
  | stop
  | start (clockMs : ℤ)
  /-- The process dies and is started again. -/
  | crash (user : σ) (clockMs : ℤ)
  /-- The process dies inside the dump, after that many file replacements and sends. -/
  | crashInDump (writes sends : ℕ) (user : σ) (clockMs : ℤ)

/-- The messages an act hears. -/
def HostAct.heard : HostAct σ → List Message
  | .latch _ messages _ => messages
  | _ => []

/-- The commands an act receives. -/
def HostAct.commands : HostAct σ → List Command
  | .latch _ _ commands => commands
  | _ => []

namespace Host

variable (E : Env σ ν)

/-- A host right after its first node was constructed on an empty directory. -/
def boot (config : NodeConfig) (user : σ) (clockMs : ℤ) : Host σ ν :=
  { config := config, node := Node.init E config Disk.empty user clockMs, disk := Disk.empty
    phase := .idle }

/-- The phase an act belongs to. -/
def enabled (h : Host σ ν) : HostAct σ → Bool
  | .latch _ _ _ => decide (h.phase = .idle)
  | .transition _ => decide (h.phase = .latched)
  | .dump => decide (h.phase = .acted)
  | .stop => decide (h.phase = .idle)
  | .start _ => decide (h.phase = .idle)
  | .crashInDump _ _ _ _ => decide (h.phase = .acted)
  | _ => true

/-- The messages that leave before the process dies in the dump: some of those the dump sends, once
its files are written. -/
def lateSends (h : Host σ ν) (writes sends : ℕ) : List Message :=
  let d := h.node.dumpOutputs E
  if d.writes.length ≤ writes then d.sends.take sends else []

/-- One act of a host, with the messages it sends. -/
def run (h : Host σ ν) : HostAct σ → Option (Host σ ν × List Message)
  | .latch clockMs messages commands =>
      (Node.latchInputs { h.node with clockMs := clockMs } messages commands).map fun x =>
        ({ h with node := x, phase := .latched }, [])
  | .transition clockMs =>
      (Node.transition E h.disk { h.node with clockMs := clockMs }).map fun x =>
        ({ h with node := x, phase := .acted }, [])
  | .dump =>
      let d := h.node.dumpOutputs E
      d.node.map fun x =>
        ({ h with node := x, disk := h.disk.writeAll d.writes, phase := .idle }, d.sends)
  | .compaction =>
      (h.node.compactionTransition E).map fun (x, writes) =>
        ({ h with node := x, disk := h.disk.writeAll writes }, [])
  | .membership => (h.node.membershipTransition E).map fun x => ({ h with node := x }, [])
  | .request members => some ({ h with node := h.node.requestMembershipChange members }, [])
  | .stop => some ({ h with node := h.node.stop }, [])
  | .start clockMs =>
      some ({ h with node := Node.start E h.disk { h.node with clockMs := clockMs } }, [])
  | .crash user clockMs =>
      some ({ h with node := Node.init E h.config h.disk user clockMs, phase := .idle }, [])
  | .crashInDump writes sends user clockMs =>
      let disk := h.disk.writeAll ((h.node.dumpOutputs E).writes.take writes)
      some ({ h with
          node := Node.init E h.config disk user clockMs, disk := disk, phase := .idle },
        h.lateSends E writes sends)

/-- An act in its phase. -/
def exec (h : Host σ ν) (a : HostAct σ) : Option (Host σ ν × List Message) :=
  if h.enabled a then h.run E a else none

end Host

/-! ### Clusters -/

/-- Hosts by their id and the messages handed to the transport so far. -/
structure Cluster (σ ν : Type) where
  hosts : Str → Host σ ν
  network : List Message

/-- An act of one host. -/
structure ClusterAct (σ : Type) where
  host : Str
  act : HostAct σ

namespace Cluster

variable (E : Str → Env σ ν)

/-- A cluster whose nodes all start on empty directories. -/
def boot (config : Str → NodeConfig) (user : Str → σ) (clockMs : ℤ) : Cluster σ ν :=
  { hosts := fun n => Host.boot (E n) (config n) (user n) clockMs, network := [] }

/-- The messages an act hears were sent to its host. -/
def Deliverable (c : Cluster σ ν) (a : ClusterAct σ) : Prop :=
  ∀ m ∈ a.act.heard, m ∈ c.network ∧ m.target = a.host

instance (c : Cluster σ ν) (a : ClusterAct σ) : Decidable (c.Deliverable a) :=
  inferInstanceAs (Decidable (∀ m ∈ _, _))

/-- One act of a cluster. -/
def exec (c : Cluster σ ν) (a : ClusterAct σ) : Option (Cluster σ ν) :=
  if c.Deliverable a then
    ((c.hosts a.host).exec (E a.host) a.act).map fun (h, sends) =>
      { hosts := Function.update c.hosts a.host h, network := c.network ++ sends }
  else none

end Cluster

/-! ### Three nodes -/

/-- The ids of a cluster of three. -/
def n1 : Str := "n1".toList
/-- The second id. -/
def n2 : Str := "n2".toList
/-- The third id. -/
def n3 : Str := "n3".toList

/-- `int` of a text of ASCII digits, which is short in what follows. -/
def decimalInt (s : Str) : Option ℤ :=
  if s ≠ [] ∧ s.all Char.isDigit = true then
    some (s.foldl (fun n c => 10 * n + (c.toNat - 48)) 0)
  else none

/-- An application without a state. -/
def quiet : Env Unit Unit :=
  { apply := fun _ _ => some (), reload := id, snapshot := fun _ => ()
    restoreSnapshot := fun u _ => u, emptyObject := (), dumps := fun _ => []
    loads := fun _ => some [], int := decimalInt }

/-- Nodes that time out after one millisecond. -/
def impatient (members : List Str) (n : Str) : NodeConfig :=
  { nodeId := n, peers := [], electionTimeoutMs := 1, initialMembers := some members }

/-- Three nodes on empty directories. -/
def threeNodes : Cluster Unit Unit :=
  Cluster.boot (fun _ => quiet) (impatient [n1, n2, n3]) (fun _ => ()) 0

/-- A whole tick of the role machine. -/
def hostTick (clockMs : ℤ) (ms : List Message) (cs : List Command) : List (HostAct Unit) :=
  [.latch clockMs ms cs, .transition clockMs, .dump]

/-- A whole tick of a host of a cluster. -/
def tick (n : Str) (clockMs : ℤ) (ms : List Message) (cs : List Command) :
    List (ClusterAct Unit) :=
  (hostTick clockMs ms cs).map fun a => ⟨n, a⟩

/-- A vote request. -/
def voteRequest (a b : Str) (term lastIndex lastTerm : ℤ) : Message :=
  { kind := .requestVote, term := term, source := a, target := b
    lastLogIndex := lastIndex, lastLogTerm := lastTerm }

/-- A granted vote. -/
def voteGrant (a b : Str) (term : ℤ) : Message :=
  { kind := .requestVoteResponse, term := term, source := a, target := b, granted := true }

/-- A batch of entries. -/
def batch (a b : Str) (term prev prevTerm : ℤ) (prevLeader : Str) (es : List LogEntry)
    (commit : ℤ) : Message :=
  { kind := .appendEntries, term := term, source := a, target := b, prevLogIndex := prev
    prevLogTerm := prevTerm, prevLogLeaderId := prevLeader, entries := es, leaderCommit := commit }

/-- An answer to a batch. -/
def appendAnswer (a b : Str) (term : ℤ) (success : Bool) (index : ℤ) : Message :=
  { kind := .appendEntriesResponse, term := term, source := a, target := b, success := success
    matchIndex := index }

/-- A client command. -/
def putCommand (key : String) : Command := { op := "put".toList, key := key.toList }

end RaftRx.Python
