import ToyRaft.Runtime.Cluster
import ToyRaft.Runtime.Seam
import ToyRaft.Transport.Hub

/-!
# The deterministic test cluster (`internal/raftest`, `driver_testseam.go`)

The harness runs real nodes without their goroutines.  A `Tick` moves the clock, and then makes
two passes over the nodes: each drains its channel into `Step`, ticks, flushes and applies; the hub
delivers what is due; and each drains its channel and flushes once more.  Between two ticks a test
turns the knobs of the hub, proposes, and calls the assertions, which read the nodes through
`Status` and through the storage.

What a node draws from its random source in its `k`-th call of `Step` is an argument of the
harness.  The state machine records what it applies, never fails, and takes no snapshots.  A
proposal is made by a goroutine of its own, which has appended its entry, or has been refused, when
`ProposeIntoForTest` returns; it may then wait for a result that never comes.

A test ends with the first violation an assertion finds.  A panic ends it too, wherever it happens,
and so does a put on a full channel, which blocks: nothing is done after that.
-/

namespace ToyRaft

namespace Seam

variable {ρ : Type}

/-- Some steps in a row, and what they hand to the transport. -/
def driveAll (cfg : Config) : List (Drive ρ) → Seam ρ → Seam ρ × List Message
  | [], s => (s, [])
  | d :: ds, s =>
      let (s', sent) := s.drive cfg d
      let (s'', sent') := driveAll cfg ds s'
      (s'', sent ++ sent')

/-- The steps of `applyOne`, for a state machine that answers `out`. -/
def applyOneForTest (out : ApplyOutcome ρ) : List (Drive ρ) :=
  [.applyNext out false, .act .applyDone, .act (.checkpoint .unsupported false)]

/-- `applyCommittedForTest`: its loop ends with the iteration that finds nothing to apply. -/
def applyCommittedForTest (cfg : Config) (out : ApplyOutcome ρ) (s : Seam ρ) : Seam ρ :=
  let s := (s.drive cfg .applyBegin).1
  let rounds := s.host.node.commitIndex - s.host.appliedIdx
  let ds := (List.replicate rounds (applyOneForTest out)).flatten ++ [.applyNext out false]
  (driveAll cfg ds s).1

/-- `drainAndApplyForTest`. -/
def drainAndApplyForTest (cfg : Config) (out : ApplyOutcome ρ) (s : Seam ρ) :
    Seam ρ × List Message :=
  let (s, _) := driveAll cfg [.act .ready, .act (.save false)] s
  let (s, sent) := driveAll cfg (List.replicate s.host.flush.msgs.length (.act .send)) s
  (applyCommittedForTest cfg out s, sent)

/-- `TickForTest`. -/
def tickForTest (cfg : Config) (out : ApplyOutcome ρ) (env : Env) (s : Seam ρ) :
    Seam ρ × List Message :=
  drainAndApplyForTest cfg out (s.drive cfg (.act (.tick env))).1

/-- `DrainForTest`. -/
def drainForTest (cfg : Config) (out : ApplyOutcome ρ) (s : Seam ρ) : Seam ρ × List Message :=
  drainAndApplyForTest cfg out s

end Seam

namespace Raftest

open Inproc

/-- What can end a test. -/
inductive Violation
  /-- "ELEC-10 violation: term %d has %d leaders: %v" -/
  | leaders (term : ℕ) (ids : List NodeID)
  /-- "REPL-11 log-matching violation": two nodes agree at the one index and diverge at the
  other. -/
  | logs (a b : NodeID) (agree diverge : ℕ)
  /-- "REPL-10 committed-entry-lost violation". -/
  | committed (id : NodeID) (index : ℕ) (prev got : Entry)
  /-- A read of the storage has failed, which panics. -/
  | storage (id : NodeID)
  /-- `Step` has panicked. -/
  | panic (id : NodeID)
  /-- The draw of a delay has panicked. -/
  | delay
  /-- The channel of a node is full, and the test waits for ever. -/
  | hang (id : NodeID)
  deriving DecidableEq

/-- What stays the same in a test. -/
structure Harness (σ : Type) where
  cluster : Cluster
  /-- The generator behind the streams of the hub. -/
  rand : Rand σ
  /-- What the source of a node yields in its `k`-th call of `Step`. -/
  draws : NodeID → ℕ → ℕ

/-- The state of a test cluster. -/
structure Rig (σ : Type) where
  nodes : NodeID → Seam Unit
  /-- The channel of each endpoint. -/
  inbound : NodeID → List Message := fun _ => []
  hub : Hub σ
  /-- The calls of `Step` each node has had. -/
  steps : NodeID → ℕ := fun _ => 0
  /-- The record of `AssertNoCommittedEntryLost`. -/
  committed : AList (fun _ : ℕ => Entry) := ∅
  /-- Every message handed to a node so far, with the node as it was: what can be said about a
  test once it is over. -/
  handled : List (Node × Message) := []
  /-- What has ended the test in the middle of an operation. -/
  ended : Option Violation := none

/-- The capacity of the channel of an endpoint. -/
def defaultInboundCap : ℕ := 256

/-- The answer of `recordingSM`. -/
def applied : ApplyOutcome Unit := .returned (some ()) none

/-! ## Driving the nodes -/

namespace Harness

variable {σ : Type} (H : Harness σ)

/-- `NewCluster`, for some setting of the knobs. -/
def newCluster (chaos : Chaos σ) : Rig σ where
  nodes i := { host := Host.start (H.cluster.cfg i) {} (H.cluster.draw i) }
  hub := H.cluster.peers.foldl Hub.connect { chaos := chaos }

def env (r : Rig σ) (i : NodeID) : Env := { draw := H.draws i (r.steps i) }

/-- A message that node `i` has handed to its transport goes to the hub. -/
def send (i : NodeID) (r : Rig σ) (m : Message) : Rig σ :=
  if r.ended.isSome then r
  else
    { r with
      hub := (r.hub.send H.rand i m).1
      ended :=
        if (r.hub.chaos.decide H.rand i m.toNode).1 = .panicked then some .delay else none }

/-- Node `i` has gone on to `s`. -/
def put (i : NodeID) (r : Rig σ) (s : Seam Unit) : Rig σ :=
  { r with
    nodes := Function.update r.nodes i s
    ended := if s.host.crashed then some (.panic i) else none }

/-- `Step`, on a message from the channel. -/
def stepInbound (i : NodeID) (r : Rig σ) (m : Message) : Rig σ :=
  if r.ended.isSome then r
  else
    put i
      { r with
        steps := Function.update r.steps i (r.steps i + 1)
        handled := r.handled ++ [((r.nodes i).host.node, m)] }
      ((r.nodes i).drive (H.cluster.cfg i) (.act (.step m (H.env r i)))).1

/-- `drainInbound`. -/
def drainInbound (r : Rig σ) (i : NodeID) : Rig σ :=
  (r.inbound i).foldl (H.stepInbound i) { r with inbound := Function.update r.inbound i [] }

/-- `TickForTest`, on node `i`. -/
def tickNode (r : Rig σ) (i : NodeID) : Rig σ :=
  if r.ended.isSome then r
  else
    let (s, sent) := (r.nodes i).tickForTest (H.cluster.cfg i) applied (H.env r i)
    sent.foldl (H.send i) (put i { r with steps := Function.update r.steps i (r.steps i + 1) } s)

/-- `DrainForTest`, on node `i`. -/
def drainNode (r : Rig σ) (i : NodeID) : Rig σ :=
  if r.ended.isSome then r
  else
    let (s, sent) := (r.nodes i).drainForTest (H.cluster.cfg i) applied
    sent.foldl (H.send i) (put i r s)

/-- `deliveryQuiesce`: a put on a full channel would wait for ever. -/
def deliveryQuiesce (r : Rig σ) : Rig σ :=
  if r.ended.isSome then r
  else
    let (hub, _, puts) := r.hub.drainDueSync H.rand
    let inbound : NodeID → List Message := puts.foldl
      (fun ch p => Function.update ch p.toNode (ch p.toNode ++ [p.msg])) r.inbound
    { r with
      hub := hub
      inbound := inbound
      ended := (H.cluster.peers.find? fun i => defaultInboundCap < (inbound i).length).map .hang }

/-- `Tick`. -/
def tick (d : ℕ) (r : Rig σ) : Rig σ :=
  let r := { r with hub := { r.hub with now := r.hub.now + d } }
  let r := H.cluster.peers.foldl (fun r i => H.tickNode (H.drainInbound r i) i) r
  let r := H.deliveryQuiesce r
  H.cluster.peers.foldl (fun r i => H.drainNode (H.drainInbound r i) i) r

def isLeader (r : Rig σ) (i : NodeID) : Bool := (r.nodes i).host.node.role = .leader

/-- `ProposeIntoForTest`. -/
def proposeInto (id : NodeID) (op : Data) (r : Rig σ) : Rig σ :=
  if id ∈ H.cluster.peers ∧ isLeader r id then
    put id r ((r.nodes id).drive (H.cluster.cfg id) (.act (.propose op {}))).1
  else r

/-- `Leader`: the first node that leads. -/
def leader (r : Rig σ) : Option NodeID := H.cluster.peers.find? (isLeader r)

/-- `ProposeToLeader`. -/
def proposeToLeader (op : Data) (r : Rig σ) : Rig σ :=
  match H.leader r with
  | none => r
  | some id => H.proposeInto id op r

end Harness

/-! ## The assertions -/

/-- `logFromStorage`. -/
def logFromStorage (s : Storage) : Except StorageError (List Entry) :=
  if s.lastIndex = 0 then .ok [] else s.getEntries 1 (s.lastIndex + 1)

/-- Two entries differ in term or data. -/
def differ (a b : Entry) : Bool := a.term ≠ b.term ∨ a.data ≠ b.data

/-- The inner loop of `assertPairLogMatch`: the first place up to `k` at which the logs differ. -/
def divergence (aLog bLog : List Entry) (k : ℕ) : Option ℕ :=
  (List.range (k + 1)).find? fun m =>
    match aLog[m]?, bLog[m]? with
    | some x, some y => differ x y
    | _, _ => false

/-- `assertPairLogMatch`, from the places below `k` downwards. -/
def assertPairLogMatch (a b : NodeID) (aLog bLog : List Entry) : ℕ → Option Violation
  | 0 => none
  | k + 1 =>
      match aLog[k]?, bLog[k]? with
      | some x, some y =>
          if x.term ≠ y.term then assertPairLogMatch a b aLog bLog k
          else (divergence aLog bLog k).map fun m => .logs a b (k + 1) (m + 1)
      | _, _ => none

namespace Harness

variable {σ : Type} (H : Harness σ)

/-- `leadersByTerm`, at one term. -/
def leadersByTerm (r : Rig σ) (term : ℕ) : List NodeID :=
  H.cluster.peers.filter fun i => isLeader r i && (r.nodes i).host.node.currentTerm = term

def assertAtMostOneLeaderPerTerm (r : Rig σ) : Option Violation :=
  (H.cluster.peers.filter (isLeader r)).findSome? fun i =>
    let term := (r.nodes i).host.node.currentTerm
    if 1 < (H.leadersByTerm r term).length then some (.leaders term (H.leadersByTerm r term))
    else none

/-- The log of one node. -/
def logOf (r : Rig σ) (i : NodeID) : Except Violation (NodeID × List Entry) :=
  match logFromStorage (r.nodes i).host.node.storage with
  | .ok l => .ok (i, l)
  | .error _ => .error (.storage i)

/-- The logs of all nodes. -/
def logs (r : Rig σ) : Except Violation (List (NodeID × List Entry)) :=
  H.cluster.peers.mapM (logOf r)

def assertLogMatching (r : Rig σ) : Option Violation :=
  match H.logs r with
  | .error v => some v
  | .ok logs =>
      logs.findSome? fun a =>
        logs.findSome? fun b =>
          if a.1 = b.1 then none
          else assertPairLogMatch a.1 b.1 a.2 b.2 (min a.2.length b.2.length)

/-- One index of one node, in `AssertNoCommittedEntryLost`. -/
def recordCommitted (id : NodeID) (committed : AList (fun _ : ℕ => Entry)) (idx : ℕ)
    (got : Entry) : Except Violation (AList (fun _ : ℕ => Entry)) :=
  match committed.lookup idx with
  | none => .ok (committed.insert idx got)
  | some prev => if differ prev got then .error (.committed id idx prev got) else .ok committed

/-- One node, in `AssertNoCommittedEntryLost`: the committed entries it has. -/
def recordNode (r : Rig σ) (committed : AList (fun _ : ℕ => Entry)) (id : NodeID) :
    Except Violation (AList (fun _ : ℕ => Entry)) :=
  match logFromStorage (r.nodes id).host.node.storage with
  | .error _ => .error (.storage id)
  | .ok entries =>
      ((entries.take (r.nodes id).host.node.commitIndex).zipIdx 1).foldlM
        (fun committed x => recordCommitted id committed x.2 x.1) committed

def assertNoCommittedEntryLost (r : Rig σ) : Except Violation (Rig σ) :=
  (H.cluster.peers.foldlM (recordNode r) r.committed).map fun c => { r with committed := c }

end Harness

/-! ## A test -/

/-- What a test does with its cluster. -/
inductive Op
  | tick (d : ℕ)
  | proposeInto (id : NodeID) (op : Data)
  | proposeToLeader (op : Data)
  | partition (a b : NodeID)
  | heal (a b : NodeID)
  | dropRate (id : NodeID) (p : Rate)
  | delay (minDelay maxDelay : ℤ)
  | reorder (enabled : Bool) (queueDepth : ℤ)
  | duplicate (p : Rate)
  | assertAtMostOneLeaderPerTerm
  | assertLogMatching
  | assertNoCommittedEntryLost

namespace Harness

variable {σ : Type} (H : Harness σ)

/-- Turn a knob of the hub. -/
def turn (r : Rig σ) (e : Inproc.Event) : Rig σ := { r with hub := (r.hub.step H.rand e).1 }

/-- One operation that makes no assertion. -/
def perform (r : Rig σ) : Op → Rig σ
  | .tick d => H.tick d r
  | .proposeInto id op => H.proposeInto id op r
  | .proposeToLeader op => H.proposeToLeader op r
  | .partition a b => H.turn r (.partition a b)
  | .heal a b => H.turn r (.heal a b)
  | .dropRate id p => H.turn r (.dropRate id p)
  | .delay minDelay maxDelay => H.turn r (.delay minDelay maxDelay)
  | .reorder enabled queueDepth => H.turn r (.reorder enabled queueDepth)
  | .duplicate p => H.turn r (.duplicate p)
  | _ => r

/-- One operation, and what ends the test in it. -/
def exec (r : Rig σ) (op : Op) : Rig σ × Option Violation :=
  match op with
  | .assertAtMostOneLeaderPerTerm => (r, H.assertAtMostOneLeaderPerTerm r)
  | .assertLogMatching => (r, H.assertLogMatching r)
  | .assertNoCommittedEntryLost =>
      match H.assertNoCommittedEntryLost r with
      | .ok r => (r, none)
      | .error v => (r, some v)
  | op => (H.perform r op, (H.perform r op).ended)

/-- A test: it runs to its end or to the first violation. -/
def run : List Op → Rig σ → Rig σ × Option Violation
  | [], r => (r, none)
  | op :: ops, r =>
      match H.exec r op with
      | (r, none) => run ops r
      | (r, some v) => (r, some v)

end Harness

end Raftest

end ToyRaft
