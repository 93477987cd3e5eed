import Mathlib.Data.List.Sort
import Mathlib.Data.Rat.Defs
import Mathlib.Data.String.Basic
import ToyRaft.Core.Config
import ToyRaft.Framework.Rand
import ToyRaft.Framework.Sha256

/-!
# The in-process hub

The hub takes messages from its nodes and holds them until they are due.  A send asks the chaos
layer first: a cut link and a drop discard the message, a delay sets the time at which it is due,
and a duplicate is a second copy, due a nanosecond later.  Each knob draws from a stream of its
own, which `newChaos` splits off the seed.  In `SyncDelivery` mode the caller drains the hub: the
due messages leave the queue in the order of their time and number, are shuffled in windows for
each receiver if `Reorder` is on, and are put on the channels of the nodes that are connected.

The queue is `container/heap` as a priority queue: the list of what it holds in the order in which
it is popped.  A channel never fills, since its receiver drains it.  Times are nanoseconds.
-/

namespace ToyRaft

namespace Inproc

/-! ## The chaos layer -/

/-- A `float64` that is used as a probability. -/
inductive Rate
  | number (q : ℚ)
  | posInf
  | negInf
  | nan

/-- `p <= 0`. -/
def Rate.off : Rate → Bool
  | .number q => q ≤ 0
  | .negInf => true
  | .posInf => false
  | .nan => false

/-- `x < p` for the fraction `x` of `k` in `2 ^ 53`. -/
def Rate.above (k : ℕ) : Rate → Bool
  | .number q => (k : ℚ) < q * 2 ^ 53
  | .posInf => true
  | .negInf => false
  | .nan => false

/-- `chaos`: the four streams and the knobs. -/
structure Chaos (ρ : Type) where
  dropRNG : ρ
  delayRNG : ρ
  reorderRNG : ρ
  dupRNG : ρ
  partitions : List (NodeID × NodeID) := []
  dropPerNode : NodeID → Rate := fun _ => .number 0
  delayMin : ℤ := 0
  delayMax : ℤ := 0
  reorderOn : Bool := false
  reorderQD : ℤ := 0
  dupRate : Rate := .number 0

/-- `splitSeed`, as an unsigned number. -/
def splitSeed (seed : UInt64) (tag : String) : ℕ :=
  let be := (List.range 8).map fun i => (seed.toNat / 2 ^ (8 * (7 - i))).toUInt8
  ((Sha256.sum (be ++ tag.toList.map fun c => c.toNat.toUInt8)).take 8).foldl
    (fun n b => n * 256 + b.toNat) 0

def newChaos (seed : UInt64) : Chaos ℕ :=
  let mk tag :=
    let s := splitSeed seed tag
    s * 2 ^ 64 + (s ^^^ 0x9E3779B97F4A7C15)
  { dropRNG := mk "drop", delayRNG := mk "delay", reorderRNG := mk "reorder",
    dupRNG := mk "duplicate" }

/-- What becomes of a send.  A range of delays that is too wide for its type panics. -/
inductive Decision
  | partitioned
  | dropped
  | panicked
  | sent (delay : ℤ) (dup : Bool)
  deriving DecidableEq

namespace Chaos

variable {ρ : Type} (g : Rand ρ) (c : Chaos ρ)

def isPartitioned (a b : NodeID) : Bool := (a, b) ∈ c.partitions

/-- `dropDecision`: a rate that is not positive draws nothing. -/
def dropDecision (fromNode : NodeID) : Bool × Chaos ρ :=
  let p := c.dropPerNode fromNode
  if p.off then (false, c)
  else
    let draw := g.float53 c.dropRNG
    (p.above draw.1, { c with dropRNG := draw.2 })

/-- `sampleDelay`: a degenerate range draws nothing. -/
def sampleDelay : Option (ℤ × Chaos ρ) :=
  if c.delayMax ≤ c.delayMin then some (c.delayMin, c)
  else
    let span := wrap64 (c.delayMax - c.delayMin)
    if span ≤ 0 then none
    else
      let draw := g.uint64n c.delayRNG span.toNat
      some (c.delayMin + draw.1, { c with delayRNG := draw.2 })

def dupDecision : Bool × Chaos ρ :=
  if c.dupRate.off then (false, c)
  else
    let draw := g.float53 c.dupRNG
    (c.dupRate.above draw.1, { c with dupRNG := draw.2 })

/-- The draws of a message that is not dropped. -/
def timing : Decision × Chaos ρ :=
  match c.sampleDelay g with
  | none => (.panicked, c)
  | some (delay, c) => (.sent delay (c.dupDecision g).1, (c.dupDecision g).2)

/-- The part of `send` that asks the knobs. -/
def decide (fromNode toNode : NodeID) : Decision × Chaos ρ :=
  if c.isPartitioned fromNode toNode then (.partitioned, c)
  else
    let drop := c.dropDecision g fromNode
    if drop.1 then (.dropped, drop.2) else drop.2.timing g

end Chaos

/-! ## The queue -/

/-- `pending`. -/
structure Pending where
  deliverAt : ℤ
  seq : ℕ
  fromNode : NodeID
  toNode : NodeID
  msg : Message
  deriving DecidableEq

/-- The order in which the heap pops. -/
def Pending.Le (p q : Pending) : Prop :=
  p.deliverAt < q.deliverAt ∨ (p.deliverAt = q.deliverAt ∧ p.seq ≤ q.seq)

instance : DecidableRel Pending.Le := fun _ _ => inferInstanceAs (Decidable (_ ∨ _))

structure Hub (ρ : Type) where
  now : ℤ := 0
  sortedNodes : List NodeID := []
  queue : List Pending := []
  seq : ℕ := 0
  chaos : Chaos ρ

/-- `drainDueLocked`: what is due, and what is left. -/
def drainDueLocked (now : ℤ) : List Pending → List Pending × List Pending
  | [] => ([], [])
  | p :: queue =>
      if now < p.deliverAt then ([], p :: queue)
      else (p :: (drainDueLocked now queue).1, (drainDueLocked now queue).2)

/-! ## The order of a batch -/

/-- A slice: some places of its array are in use. -/
structure Slice (α : Type) where
  backing : List α
  len : ℕ

/-- `append`: into the array if it has room. -/
def Slice.append {α : Type} (s : Slice α) (x : α) : Slice α :=
  if s.len < s.backing.length then { backing := s.backing.set s.len x, len := s.len + 1 }
  else { backing := s.backing.take s.len ++ [x], len := s.len + 1 }

def Slice.toList {α : Type} (s : Slice α) : List α := s.backing.take s.len

section Order

variable {ρ : Type} (g : Rand ρ)

/-- `byTo`: the batch by receiver. -/
def byTo (due : List Pending) : NodeID → List Pending :=
  due.foldl (fun m p => Function.update m p.toNode (m p.toNode ++ [p])) fun _ => []

/-- `emit`: the bucket in windows of `qd`, each one shuffled; `n` bounds the number of windows. -/
def emit (qd : ℕ) : ℕ → List Pending → Slice Pending × ρ → Slice Pending × ρ
  | 0, _, st => st
  | n + 1, bucket, (out, r) =>
      if bucket = [] then (out, r)
      else
        let chunk := bucket.take qd
        let shuffled := if 1 < chunk.length then g.shuffle chunk r else (chunk, r)
        emit qd n (bucket.drop qd) (shuffled.1.foldl Slice.append out, shuffled.2)

/-- The buckets of some nodes, each one removed when it has been emitted. -/
def emitNodes (qd : ℕ) : List NodeID → (NodeID → List Pending) × Slice Pending × ρ →
    (NodeID → List Pending) × Slice Pending × ρ
  | [], st => st
  | id :: ids, (buckets, st) =>
      emitNodes qd ids
        (Function.update buckets id [], emit g qd (buckets id).length (buckets id) st)

/-- `orderLocked`.  `out` starts on the array of the batch, whose buckets are copies. -/
def orderLocked (sortedNodes : List NodeID) (c : Chaos ρ) (due : List Pending) :
    List Pending × Chaos ρ :=
  if c.reorderOn = false ∨ due.length < 2 ∨ c.reorderQD < 2 then (due, c)
  else
    let qd := c.reorderQD.toNat
    let st := emitNodes g qd sortedNodes (byTo due, { backing := due, len := 0 }, c.reorderRNG)
    let remainder := ((due.map (·.toNode)).dedup.filter fun id => st.1 id ≠ []).mergeSort
    let st := emitNodes g qd remainder st
    (st.2.1.toList, { c with reorderRNG := st.2.2 })

variable {g}

/-- A shuffle draws from its own stream. -/
lemma orderLocked_chaos (sortedNodes : List NodeID) (c : Chaos ρ) (due : List Pending) :
    ∃ r, (orderLocked g sortedNodes c due).2 = { c with reorderRNG := r } := by
  unfold orderLocked
  split_ifs
  · exact ⟨c.reorderRNG, rfl⟩
  · exact ⟨_, rfl⟩

end Order

/-! ## The hub -/

inductive Event
  | connect (id : NodeID)
  | send (fromNode : NodeID) (msg : Message)
  | partition (a b : NodeID)
  | heal (a b : NodeID)
  | dropRate (id : NodeID) (p : Rate)
  | delay (minDelay maxDelay : ℤ)
  | reorder (enabled : Bool) (queueDepth : ℤ)
  | duplicate (p : Rate)
  | advance (d : ℕ)
  | drain

/-- What a step does that can be seen: the messages a send has put in the queue, or the batch a
drain has taken out of it and those of them it has put on channels. -/
inductive Outcome
  | sent (decision : Decision) (pushed : List Pending)
  | drained (due puts : List Pending)
  | quiet
  deriving DecidableEq

namespace Hub

variable {ρ : Type} (g : Rand ρ) (h : Hub ρ)

/-- `Connect`: a new node is put in its place in the order. -/
def connect (id : NodeID) : Hub ρ :=
  if id ∈ h.sortedNodes then h
  else
    { h with
      sortedNodes := (h.sortedNodes.takeWhile fun i => i < id) ++
        id :: h.sortedNodes.dropWhile fun i => i < id }

/-- The messages a send puts in the queue. -/
def copies (fromNode : NodeID) (msg : Message) : Decision → List Pending
  | .sent delay dup =>
      let p : Pending :=
        { deliverAt := h.now + delay, seq := h.seq + 1, fromNode := fromNode,
          toNode := msg.toNode, msg := msg }
      p :: if dup then [{ p with deliverAt := p.deliverAt + 1, seq := h.seq + 2 }] else []
  | _ => []

/-- `send`. -/
def send (fromNode : NodeID) (msg : Message) : Hub ρ × Outcome :=
  let d := h.chaos.decide g fromNode msg.toNode
  let pushed := h.copies fromNode msg d.1
  ({ h with
      queue := pushed.foldl (fun q p => q.orderedInsert Pending.Le p) h.queue,
      seq := h.seq + pushed.length,
      chaos := d.2 },
    .sent d.1 pushed)

/-- The loop of `DrainDueSync`, for as many rounds as there can be. -/
def drainLoop : ℕ → Hub ρ → Hub ρ × List Pending × List Pending
  | 0, h => (h, [], [])
  | n + 1, h =>
      let batch := drainDueLocked h.now h.queue
      if batch.1 = [] then (h, [], [])
      else
        let ordered := orderLocked g h.sortedNodes h.chaos batch.1
        let rest := drainLoop n { h with queue := batch.2, chaos := ordered.2 }
        (rest.1, batch.1 ++ rest.2.1,
          (ordered.1.filter fun p => p.toNode ∈ h.sortedNodes) ++ rest.2.2)

def drainDueSync : Hub ρ × List Pending × List Pending := drainLoop g (h.queue.length + 1) h

def step : Event → Hub ρ × Outcome
  | .connect id => (h.connect id, .quiet)
  | .send fromNode msg => h.send g fromNode msg
  | .partition a b =>
      ({ h with chaos := { h.chaos with partitions := (a, b) :: (b, a) :: h.chaos.partitions } },
        .quiet)
  | .heal a b =>
      ({ h with chaos :=
          { h.chaos with
            partitions := h.chaos.partitions.filter fun k => k ≠ (a, b) ∧ k ≠ (b, a) } },
        .quiet)
  | .dropRate id p =>
      ({ h with chaos := { h.chaos with
          dropPerNode := Function.update h.chaos.dropPerNode id p } }, .quiet)
  | .delay minDelay maxDelay =>
      ({ h with chaos := { h.chaos with delayMin := minDelay, delayMax := maxDelay } }, .quiet)
  | .reorder enabled queueDepth =>
      ({ h with chaos := { h.chaos with reorderOn := enabled, reorderQD := queueDepth } }, .quiet)
  | .duplicate p => ({ h with chaos := { h.chaos with dupRate := p } }, .quiet)
  | .advance d => ({ h with now := h.now + d }, .quiet)
  | .drain => ((h.drainDueSync g).1, .drained (h.drainDueSync g).2.1 (h.drainDueSync g).2.2)

end Hub

/-- One step of a run: the hub before it, the event and what came of it. -/
structure Moment (ρ : Type) where
  before : Hub ρ
  event : Event
  outcome : Outcome

/-- The steps of a run; a panic ends it. -/
def trace {ρ : Type} (g : Rand ρ) : Hub ρ → List Event → List (Moment ρ)
  | _, [] => []
  | h, e :: es =>
      { before := h, event := e, outcome := (h.step g e).2 } ::
        match (h.step g e).2 with
        | .sent .panicked _ => []
        | _ => trace g (h.step g e).1 es

end Inproc

end ToyRaft
