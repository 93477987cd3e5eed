import ToyRaft.Framework.Machine
import ToyRaft.Runtime.Host

/-!
# A cluster and its network

`Cluster` is a set of nodes that share one duplicate-free `Peers` list, each with a
configuration `New` accepts.  A `World` is the state of all hosts together with the network.

The network is the list of all messages ever handed to a transport.  Delivering a message
does not remove it, so loss, duplication, reordering and delay are all schedules: a lost
message is one never delivered, a duplicated one is delivered twice.  The transport delivers
a message only to the node its `To` field names.

In a cluster run no storage call fails (`Act.faultless`).  An event that is not enabled
leaves the world as it is.
-/

namespace ToyRaft

/-- The nodes of one cluster. -/
structure Cluster where
  peers : List NodeID
  nodup : peers.Nodup
  cfg : NodeID → Config
  cfg_nodeID : ∀ i ∈ peers, (cfg i).nodeID = i
  cfg_peers : ∀ i ∈ peers, (cfg i).peers = peers
  valid : ∀ i ∈ peers, (cfg i).applyDefaults.validate = .ok ()
  /-- The first random draw of every node. -/
  draw : NodeID → ℕ

/-- The hosts and every message handed to a transport so far. -/
structure World (ρ : Type) where
  hosts : NodeID → Host ρ
  net : List Message

/-- One act of one node. -/
structure Event (ρ : Type) where
  node : NodeID
  act : Act ρ

namespace Cluster

variable {ρ : Type} (C : Cluster)

/-- Every node freshly started on an empty store, nothing sent. -/
def init : World ρ where
  hosts i := Host.start (C.cfg i) {} (C.draw i)
  net := []

/-- The event is one of a member, meets no storage fault, and what it delivers was sent to
that member. -/
def Enabled (w : World ρ) (e : Event ρ) : Prop :=
  e.node ∈ C.peers ∧ e.act.faultless = true ∧
    ∀ m ∈ e.act.inbound, m ∈ w.net ∧ m.toNode = e.node

instance (w : World ρ) (e : Event ρ) : Decidable (C.Enabled w e) :=
  inferInstanceAs (Decidable (_ ∧ _ ∧ _))

/-- Execute one event. -/
def exec (w : World ρ) (e : Event ρ) : World ρ :=
  if C.Enabled w e then
    let (h, out) := (w.hosts e.node).act (C.cfg e.node) e.act
    { hosts := Function.update w.hosts e.node h
      net := w.net ++ out }
  else w

/-- The cluster as a machine over events. -/
def machine (ρ : Type) : Machine (World ρ) (Event ρ) where
  init := C.init
  step := C.exec

/-- The world after the first `t` events of a schedule. -/
def world (ev : ℕ → Event ρ) (t : ℕ) : World ρ := (C.machine ρ).run ev t

/-- The host of node `i` after the first `t` events. -/
def host (ev : ℕ → Event ρ) (t : ℕ) (i : NodeID) : Host ρ := (C.world ev t).hosts i

/-- The core of node `i` after the first `t` events. -/
def node (ev : ℕ → Event ρ) (t : ℕ) (i : NodeID) : Node := (C.host ev t i).node

end Cluster

/-! ## Schedules

The vocabulary in which concrete runs are written down: a cluster of three with the default
timing, and the events of the usual exchanges. -/

namespace Cluster

/-- Three nodes with default timing, every random draw being the smallest. -/
def trio : Cluster where
  peers := ["a", "b", "c"]
  nodup := by decide
  cfg i := { nodeID := i, peers := ["a", "b", "c"] }
  cfg_nodeID := by decide
  cfg_peers := by decide
  valid := by decide
  draw _ := 0

/-- A single node with default timing. -/
def solo : Cluster where
  peers := ["a"]
  nodup := by decide
  cfg i := { nodeID := i, peers := ["a"] }
  cfg_nodeID := by decide
  cfg_peers := by decide
  valid := by decide
  draw _ := 0

/-- An event that never happens: its node is not a member. -/
def idle : Event Unit := ⟨"", .stop⟩

/-- Enough ticks for an election timeout. -/
def timeout (i : NodeID) : List (Event Unit) := List.replicate 3 ⟨i, .tick {}⟩

/-- One `flush` of `i` that sends `k` messages and hands `d` entries to the applier. -/
def flush (i : NodeID) (k : ℕ) (d : ℕ := 0) : List (Event Unit) :=
  [⟨i, .ready⟩, ⟨i, .save false⟩] ++ List.replicate k ⟨i, .send⟩ ++
    ⟨i, .drainBegin⟩ :: List.replicate (d + 1) ⟨i, .drain false⟩

/-- Deliver `m`. -/
def deliver (m : Message) : List (Event Unit) := [⟨m.toNode, .step m {}⟩]

/-- A client proposes `data` to `i`. -/
def propose (i : NodeID) (data : Data) : List (Event Unit) := [⟨i, .propose data {}⟩]

/-- The vote request of `i` to `j` in term `T`. -/
def voteRequest (T : ℕ) (i j : NodeID) (lastTerm lastIndex : ℕ) : Message :=
  { type := .requestVote, term := T, fromNode := i, toNode := j, lastLogIndex := lastIndex,
    lastLogTerm := lastTerm }

/-- The vote of `i` for `j` in term `T`. -/
def voteGrant (T : ℕ) (i j : NodeID) : Message :=
  { type := .requestVoteResponse, term := T, fromNode := i, toNode := j, voteGranted := true }

/-- The `AppendEntries` of `i` to `j` in term `T`. -/
def appendRequest (T : ℕ) (i j : NodeID) (prevTerm prevIndex : ℕ) (entries : List Entry)
    (commit : ℕ) : Message :=
  { type := .appendEntries, term := T, fromNode := i, toNode := j, prevLogIndex := prevIndex,
    prevLogTerm := prevTerm, entries := entries, leaderCommit := commit }

/-- The answer of `i` to `j` in term `T`. -/
def appendResponse (T : ℕ) (i j : NodeID) (success : Bool) (matchIndex : ℕ) : Message :=
  { type := .appendEntriesResp, term := T, fromNode := i, toNode := j, success := success,
    matchIndex := matchIndex }

/-- Node `i`, whose last entry is `lastTerm` at `lastIndex`, times out in a cluster of three
and is elected to term `T` by the vote of `j`. -/
def elect (T : ℕ) (i j : NodeID) (lastTerm lastIndex : ℕ) : List (Event Unit) :=
  timeout i ++ flush i 2 ++ deliver (voteRequest T i j lastTerm lastIndex) ++ flush j 1 ++
    deliver (voteGrant T j i)

end Cluster

end ToyRaft
