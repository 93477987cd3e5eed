import Mathlib.Algebra.Group.Nat.Defs
import ToyRaft.Core.Types

/-!
# Construction-time parameters (`pkg/raft/config.go`)

`Config` keeps the fields the core reads.  Durations are the source's signed 64-bit
nanosecond counts, so the one product `Validate` forms wraps around.  The clock, transport,
state machine and logger handles carry no data the core computes with, and their nil checks
are left out.
-/

namespace ToyRaft

/-- Two's-complement wrap-around of a 64-bit signed result. -/
def wrap64 (x : ℤ) : ℤ := Int.bmod x (2 ^ 64)

/-- One millisecond, in nanoseconds. -/
def millisecond : ℤ := 1000000

/-- `defaultSnapshotInterval`: applied entries between two durable checkpoints. -/
def defaultSnapshotInterval : ℕ := 1024

/-- The construction-time parameters of one node. -/
structure Config where
  nodeID : NodeID
  peers : List NodeID
  electionTimeoutMin : ℤ := 0
  electionTimeoutMax : ℤ := 0
  heartbeatInterval : ℤ := 0
  snapshotInterval : ℕ := 0
  deriving DecidableEq, Repr

/-- What `Validate` can object to, in the order it checks. -/
inductive ConfigError
  /-- `NodeID is empty`. -/
  | emptyNodeID
  /-- `Peers does not contain NodeID`. -/
  | selfNotInPeers (nodeID : NodeID)
  /-- `Peers must be odd for a clean majority`. -/
  | evenPeers (count : ℕ)
  /-- `ElectionTimeoutMin must be < ElectionTimeoutMax`. -/
  | electionTimeoutRange (min max : ℤ)
  /-- `HeartbeatInterval*3 > ElectionTimeoutMin`. -/
  | heartbeatMargin (tripled min : ℤ)
  deriving DecidableEq, Repr

namespace Config

/-- `applyDefaults`: fill in the fields that are still zero. -/
def applyDefaults (c : Config) : Config :=
  { c with
    electionTimeoutMin :=
      if c.electionTimeoutMin = 0 then 150 * millisecond else c.electionTimeoutMin
    electionTimeoutMax :=
      if c.electionTimeoutMax = 0 then 300 * millisecond else c.electionTimeoutMax
    heartbeatInterval :=
      if c.heartbeatInterval = 0 then 50 * millisecond else c.heartbeatInterval
    snapshotInterval :=
      if c.snapshotInterval = 0 then defaultSnapshotInterval else c.snapshotInterval }

/-- `Validate`: the first violated invariant, if any. -/
def validate (c : Config) : Except ConfigError Unit :=
  if c.nodeID = "" then .error .emptyNodeID
  else if c.nodeID ∉ c.peers then .error (.selfNotInPeers c.nodeID)
  else if c.peers.length % 2 = 0 then .error (.evenPeers c.peers.length)
  else if c.electionTimeoutMax ≤ c.electionTimeoutMin then
    .error (.electionTimeoutRange c.electionTimeoutMin c.electionTimeoutMax)
  else if c.electionTimeoutMin < wrap64 (c.heartbeatInterval * 3) then
    .error (.heartbeatMargin (wrap64 (c.heartbeatInterval * 3)) c.electionTimeoutMin)
  else .ok ()

/-- `tickInterval`: one tick is one heartbeat. -/
def tickInterval (c : Config) : ℤ := c.heartbeatInterval

@[simp] lemma applyDefaults_nodeID (c : Config) : c.applyDefaults.nodeID = c.nodeID := rfl

@[simp] lemma applyDefaults_peers (c : Config) : c.applyDefaults.peers = c.peers := rfl

/-- An accepted configuration names its node. -/
lemma nodeID_ne_of_validate {c : Config} (h : c.validate = .ok ()) : c.nodeID ≠ "" := by
  intro h0
  rw [validate, if_pos h0] at h
  cases h

end Config

end ToyRaft
