import Mathlib.Data.List.AList
import ToyRaft.Transport.Client

/-!
# Sending off the tick loop (`asynctransport.go`)

`asyncTransport` gives every peer a queue of its own and a goroutine that drains it.  `Send` puts
a message on the queue of its peer, or drops it if the queue is full, and never waits.

The acts of a drain goroutine are to take a message, to go through the call of the inner `Send`,
and to exit once the wrapper is closed.  A goroutine that finds both a message and the closed
channel may take either, so messages can still be taken after `Close` has begun.
-/

namespace ToyRaft

namespace Daemon

open Http

/-- `asyncQueueDepth`. -/
def asyncQueueDepth : ℕ := 16

/-- Where the drain goroutine of a peer stands. -/
inductive Drainer
  | waiting
  | sending (s : Sending)
  | exited

/-- The channel of one peer, and the goroutine that drains it. -/
structure PeerQueue where
  queue : List Message := []
  drainer : Drainer := .waiting

/-- `asyncTransport`. -/
structure AsyncTransport where
  rpcSent : ℕ := 0
  rpcReceived : ℕ := 0
  queues : AList (fun _ : NodeID => PeerQueue) := ∅
  /-- `stopCh` is closed. -/
  stopped : Bool := false

namespace AsyncTransport

/-- The queue of a peer; one that does not exist yet is empty. -/
def peer (a : AsyncTransport) (p : NodeID) : PeerQueue := (a.queues.lookup p).getD {}

def setPeer (a : AsyncTransport) (p : NodeID) (q : PeerQueue) : AsyncTransport :=
  { a with queues := a.queues.insert p q }

@[simp] lemma peer_setPeer (a : AsyncTransport) (p : NodeID) (q : PeerQueue) :
    (a.setPeer p q).peer p = q := by
  simp [peer, setPeer]

lemma peer_setPeer_of_ne (a : AsyncTransport) {p p' : NodeID} (h : p' ≠ p) (q : PeerQueue) :
    (a.setPeer p q).peer p' = a.peer p' := by
  simp [peer, setPeer, AList.lookup_insert_ne h]

/-- `queueFor`: the queue of the peer, made if there is none, unless the wrapper is closed. -/
def queueFor (a : AsyncTransport) (p : NodeID) : Option (AsyncTransport × PeerQueue) :=
  if a.stopped then none else some (a.setPeer p (a.peer p), a.peer p)

/-- `Send`. -/
def send (a : AsyncTransport) (msg : Message) : AsyncTransport :=
  let a := { a with rpcSent := a.rpcSent + 1 }
  match a.queueFor msg.toNode with
  | none => a
  | some (a, q) =>
      if q.queue.length < asyncQueueDepth then
        a.setPeer msg.toNode { q with queue := q.queue ++ [msg] }
      else a

/-- `drain` takes the next message of the peer, and calls the inner `Send`; a call that fails at
once is over at once. -/
def take (peerURLs : NodeID → Option String) (a : AsyncTransport) (p : NodeID) : AsyncTransport :=
  match a.queues.lookup p with
  | some { queue := msg :: rest, drainer := .waiting } =>
      match beginSend peerURLs msg with
      | .error _ => a.setPeer p { queue := rest }
      | .ok s => a.setPeer p { queue := rest, drainer := .sending s }
  | _ => a

/-- The request the drain goroutine of the peer is about to post. -/
def posting (a : AsyncTransport) (p : NodeID) : Option Sending :=
  match (a.peer p).drainer with
  | .sending s => some s
  | _ => none

/-- The attempt is over: the call goes on or returns, and its error is dropped. -/
def posted (maxAttempts : ℤ) (a : AsyncTransport) (p : NodeID) (o : PostOutcome) :
    AsyncTransport :=
  match a.posting p with
  | none => a
  | some s =>
      match s.after maxAttempts o with
      | .inl s => a.setPeer p { a.peer p with drainer := .sending s }
      | .inr _ => a.setPeer p { a.peer p with drainer := .waiting }

/-- The call runs into its deadline. -/
def giveUp (a : AsyncTransport) (p : NodeID) : AsyncTransport :=
  match a.posting p with
  | none => a
  | some _ => a.setPeer p { a.peer p with drainer := .waiting }

/-- `Close`: the channel is closed. -/
def close (a : AsyncTransport) : AsyncTransport := { a with stopped := true }

/-- `drain` sees the closed channel and returns. -/
def exit (a : AsyncTransport) (p : NodeID) : AsyncTransport :=
  match a.queues.lookup p with
  | some { queue, drainer := .waiting } =>
      if a.stopped then a.setPeer p { queue, drainer := .exited } else a
  | _ => a

/-- The counting closure around the registered callback. -/
def received (a : AsyncTransport) (msg : Message) : AsyncTransport :=
  if msg.type ≠ .tick then { a with rpcReceived := a.rpcReceived + 1 } else a

end AsyncTransport

end Daemon

end ToyRaft
