import Mathlib.Data.Finset.Card
import Mathlib.Data.List.Sort
import Mathlib.Data.String.Basic
import ToyRaft.Core.Config
import ToyRaft.Core.Storage

/-!
# The state of one node (`pkg/raft/node.go`)

`Node` is the unexported state-machine record behind the single mutex.  Every `*Locked`
method of the source becomes a function on it: one call is one critical section.

What the environment decides during a critical section is an explicit argument, `Env`: the
raw random draw (a `Step` draws at most one election timeout) and whether the storage calls
it makes fail.  The logger, the progress channel and the mutex itself carry nothing the
functions compute with; the election-trigger hook is always `becomeCandidateLocked`.
-/

namespace ToyRaft

/-- What the environment decides during one critical section. -/
structure Env where
  /-- The raw value the node's random source yields. -/
  draw : ℕ := 0
  /-- `Storage.TruncateSuffix` fails. -/
  truncateErr : Bool := false
  /-- `Storage.Append` fails. -/
  appendErr : Bool := false
  deriving DecidableEq, Repr

/-- An outbound message with the step-down epoch it was queued under. -/
structure PendingMsg where
  epoch : ℕ
  msg : Message
  deriving DecidableEq, Repr

/-- The Raft state machine. -/
structure Node where
  id : NodeID
  /-- Sorted at construction; includes the node itself. -/
  peers : List NodeID
  currentTerm : ℕ := 0
  votedFor : NodeID := ""
  role : Role := .follower
  log : Log := []
  commitIndex : ℕ := 0
  leaderHint : NodeID := ""
  lastHeartbeat : ℕ := 0
  nextIndex : PeerMap := ∅
  matchIndex : PeerMap := ∅
  /-- The candidate's tally, a set keyed by voter. -/
  votesReceived : Finset NodeID := ∅
  electionTimeout : ℤ := 0
  electionElapsed : ℕ := 0
  heartbeatElapsed : ℕ := 0
  heartbeatTimeout : ℕ := 0
  stepDownEpoch : ℕ := 0
  pendingMsgs : List PendingMsg := []
  pendingHS : Option HardState := none
  storage : Storage := {}
  cfg : Config
  started : Bool := false

namespace Node

/-- `quorum`: a strict majority of the peers. -/
def quorum (n : Node) : ℕ := n.peers.length / 2 + 1

/-- `queueMsgLocked`: tag an outbound message with the current epoch and buffer it. -/
def queueMsgLocked (n : Node) (m : Message) : Node :=
  { n with pendingMsgs := n.pendingMsgs ++ [⟨n.stepDownEpoch, m⟩] }

/-- The hard state the node would persist now. -/
def hardState (n : Node) : HardState :=
  { currentTerm := n.currentTerm, votedFor := n.votedFor, commit := n.commitIndex }

/-- `queueHardStateLocked`: the last writer wins. -/
def queueHardStateLocked (n : Node) : Node :=
  { n with pendingHS := some n.hardState }

/-- `resetElectionTimeoutLocked`: a fresh randomised timeout, in ticks.  `IntN k` is the raw
draw modulo `k`. -/
def resetElectionTimeoutLocked (draw : ℕ) (n : Node) : Node :=
  let tick := n.cfg.tickInterval
  let minTicks := n.cfg.electionTimeoutMin.tdiv tick
  let maxTicks := n.cfg.electionTimeoutMax.tdiv tick
  let maxTicks := if maxTicks ≤ minTicks then minTicks + 1 else maxTicks
  { n with
    electionTimeout := minTicks + (draw : ℤ) % (maxTicks - minTicks)
    electionElapsed := 0 }

/-- `maybeStepDownLocked`: the one path through which a higher term is observed. -/
def maybeStepDownLocked (n : Node) (rpcTerm : ℕ) : Node :=
  if rpcTerm ≤ n.currentTerm then n
  else
    queueHardStateLocked
      { n with
        currentTerm := rpcTerm
        votedFor := ""
        role := .follower
        leaderHint := ""
        votesReceived := ∅
        stepDownEpoch := n.stepDownEpoch + 1 }

/-! ## The leader's send side (`leader.go`, `commit.go`) -/

/-- `nextIndex[peer] - 1`, which wraps around at zero. -/
def prevIndexOf (next : ℕ) : ℕ := if next = 0 then 2 ^ 64 - 1 else next - 1

/-- The `AppendEntries` built for `peer` from its `nextIndex`. -/
def appendEntriesFor (n : Node) (peer : NodeID) : Message :=
  let prevIndex := prevIndexOf (n.nextIndex.get peer)
  { type := .appendEntries
    term := n.currentTerm
    fromNode := n.id
    toNode := peer
    prevLogIndex := prevIndex
    prevLogTerm := (n.log.term prevIndex).1
    entries := n.log.entriesFrom (n.nextIndex.get peer)
    leaderCommit := n.commitIndex }

/-- `sendAppendEntriesLocked`. -/
def sendAppendEntriesLocked (n : Node) (peer : NodeID) : Node :=
  n.queueMsgLocked (n.appendEntriesFor peer)

/-- The fan-out loop: one `AppendEntries` for every peer but the node itself. -/
def fanOutAppendEntries (n : Node) : Node :=
  n.peers.foldl (fun n peer => if peer = n.id then n else n.sendAppendEntriesLocked peer) n

/-- The match values the commit rule sorts: the leader's own entry counts as its last
index. -/
def matchValues (n : Node) : List ℕ :=
  n.matchIndex.entries.map (fun p => if p.1 = n.id then n.log.lastIndex else p.2)

/-- `maybeAdvanceCommitLocked`: commit the largest index a quorum has reported, provided
its entry is of the current term. -/
def maybeAdvanceCommitLocked (n : Node) : Node :=
  let sorted := n.matchValues.insertionSort (· ≤ ·)
  if sorted.length < n.quorum then n
  else
    let quorumIndex := sorted.getD (sorted.length - n.quorum) 0
    if quorumIndex ≤ n.commitIndex then n
    else if (n.log.term quorumIndex).1 ≠ n.currentTerm then n
    else queueHardStateLocked { n with commitIndex := quorumIndex }

/-- `tickLeaderLocked`: heartbeat fan-out once per heartbeat timeout. -/
def tickLeaderLocked (n : Node) : Node :=
  let n := { n with heartbeatElapsed := n.heartbeatElapsed + 1 }
  if n.heartbeatElapsed < n.heartbeatTimeout then n
  else maybeAdvanceCommitLocked (fanOutAppendEntries { n with heartbeatElapsed := 0 })

/-- `broadcastAppendEntriesLocked`: the same fan-out, off tick. -/
def broadcastAppendEntriesLocked (n : Node) : Node :=
  maybeAdvanceCommitLocked (fanOutAppendEntries n)

/-- `proposeLocked`: append a client command and mirror it into storage; a failed mirror
undoes the append.  Returns the assigned index and whether the entry was accepted. -/
def proposeLocked (env : Env) (n : Node) (data : Data) : Node × ℕ × Bool :=
  if n.role ≠ .leader then (n, 0, false)
  else
    let idx := n.log.lastIndex + 1
    let entry : Entry := { term := n.currentTerm, index := idx, data := data }
    let n := { n with log := n.log.append [entry] }
    match faulty env.appendErr (n.storage.append [entry]) with
    | .error _ => ({ n with log := n.log.truncateSuffix idx }, 0, false)
    | .ok s => ({ n with storage := s, matchIndex := n.matchIndex.insert n.id idx }, idx, true)

/-- `handleAppendEntriesRespLocked`: record progress, or probe one entry lower. -/
def handleAppendEntriesRespLocked (n : Node) (m : Message) : Node :=
  if n.role ≠ .leader ∨ m.term ≠ n.currentTerm then n
  else if m.success then
    maybeAdvanceCommitLocked
      { n with
        matchIndex := n.matchIndex.insert m.fromNode m.matchIndex
        nextIndex := n.nextIndex.insert m.fromNode (m.matchIndex + 1) }
  else if 1 < n.nextIndex.get m.fromNode then
    { n with
      nextIndex := n.nextIndex.insert m.fromNode (n.nextIndex.get m.fromNode - 1) }
  else n

/-! ## Elections (`follower.go`, `candidate.go`, `leader_stub.go`) -/

/-- `becomeLeaderLocked`: reset the per-peer progress and assert authority at once. -/
def becomeLeaderLocked (n : Node) : Node :=
  let nextIdx := n.log.lastIndex + 1
  fanOutAppendEntries
    { n with
      role := .leader
      leaderHint := n.id
      nextIndex := n.peers.foldl (fun ix peer => ix.insert peer nextIdx) n.nextIndex
      matchIndex := n.peers.foldl (fun ix peer => ix.insert peer 0) n.matchIndex
      heartbeatElapsed := 0
      heartbeatTimeout := 1 }

/-- The `RequestVote` a candidate addresses to `peer`. -/
def requestVoteFor (n : Node) (peer : NodeID) : Message :=
  { type := .requestVote
    term := n.currentTerm
    fromNode := n.id
    toNode := peer
    lastLogIndex := n.log.lastIndex
    lastLogTerm := n.log.lastTerm }

/-- The fan-out loop of a candidacy. -/
def fanOutRequestVote (n : Node) : Node :=
  n.peers.foldl
    (fun n peer => if peer = n.id then n else n.queueMsgLocked (n.requestVoteFor peer)) n

/-- `becomeCandidateLocked`: a new term, a vote for oneself, and a round of requests; in a
cluster of one the self-vote already wins. -/
def becomeCandidateLocked (draw : ℕ) (n : Node) : Node :=
  let n :=
    { n with
      role := .candidate
      currentTerm := n.currentTerm + 1
      votedFor := n.id
      leaderHint := ""
      votesReceived := {n.id} }
  let n := fanOutRequestVote (queueHardStateLocked (resetElectionTimeoutLocked draw n))
  if n.quorum ≤ n.votesReceived.card then becomeLeaderLocked n else n

/-- `tickFollowerLocked`. -/
def tickFollowerLocked (draw : ℕ) (n : Node) : Node :=
  let n :=
    { n with
      electionElapsed := n.electionElapsed + 1
      lastHeartbeat := n.lastHeartbeat + 1 }
  if n.electionTimeout ≤ n.electionElapsed then becomeCandidateLocked draw n else n

/-- `tickCandidateLocked`: an election that does not finish in time is restarted. -/
def tickCandidateLocked (draw : ℕ) (n : Node) : Node :=
  let n := { n with electionElapsed := n.electionElapsed + 1 }
  if n.electionTimeout ≤ n.electionElapsed then becomeCandidateLocked draw n else n

/-- `handleRequestVoteResponseLocked`: count unique grants of the running election. -/
def handleRequestVoteResponseLocked (n : Node) (m : Message) : Node :=
  if n.role ≠ .candidate ∨ m.term ≠ n.currentTerm then n
  else if !m.voteGranted then n
  else
    let n := { n with votesReceived := insert m.fromNode n.votesReceived }
    if n.quorum ≤ n.votesReceived.card then becomeLeaderLocked n else n

/-- `isCandidateUpToDate`: the higher last term wins, a tie goes to the longer log. -/
def isCandidateUpToDate (candLastTerm candLastIndex voterLastTerm voterLastIndex : ℕ) : Bool :=
  if candLastTerm ≠ voterLastTerm then voterLastTerm < candLastTerm
  else voterLastIndex ≤ candLastIndex

/-- `canGrantVote`. -/
def canGrantVote (n : Node) (m : Message) : Bool :=
  if m.term < n.currentTerm then false
  else if n.votedFor ≠ "" ∧ n.votedFor ≠ m.fromNode then false
  else isCandidateUpToDate m.lastLogTerm m.lastLogIndex n.log.lastTerm n.log.lastIndex

/-- `handleRequestVoteLocked`: the hard state is queued before the response. -/
def handleRequestVoteLocked (draw : ℕ) (n : Node) (m : Message) : Node :=
  let grant := n.canGrantVote m
  let n :=
    if grant then
      queueHardStateLocked (resetElectionTimeoutLocked draw { n with votedFor := m.fromNode })
    else n
  n.queueMsgLocked
    { type := .requestVoteResponse
      term := n.currentTerm
      fromNode := n.id
      toNode := m.fromNode
      voteGranted := grant }

/-! ## The `AppendEntries` receiver (`append_entries.go`) -/

/-- `firstConflictIndex`: the first index at which the receiver must start writing, or `0`
when every entry is already present. -/
def firstConflictIndex (n : Node) : List Entry → ℕ
  | [] => 0
  | e :: rest =>
      if n.log.lastIndex < e.index then e.index
      else if (n.log.term e.index).1 ≠ e.term then e.index
      else firstConflictIndex n rest

/-- `entriesFrom`: the tail of the batch starting at the first entry with index at least
`start`. -/
def entriesFrom (start : ℕ) : List Entry → List Entry
  | [] => []
  | e :: rest => if start ≤ e.index then e :: rest else entriesFrom start rest

/-- `replyAppendEntriesLocked`. -/
def replyAppendEntriesLocked (n : Node) (dest : NodeID) (success : Bool) (matchIndex : ℕ) :
    Node :=
  n.queueMsgLocked
    { type := .appendEntriesResp
      term := n.currentTerm
      fromNode := n.id
      toNode := dest
      success := success
      matchIndex := matchIndex }

/-- `mirrorLogWriteLocked`: truncate, then append, stopping at the first error.  The store
keeps whatever the calls before the error did. -/
def mirrorLogWriteLocked (env : Env) (n : Node) (start : ℕ) (suffix : List Entry) :
    Node × Option StorageError :=
  match faulty env.truncateErr (n.storage.truncateSuffix start) with
  | .error e => (n, some e)
  | .ok s =>
      match faulty env.appendErr (s.append suffix) with
      | .error e => ({ n with storage := s }, some e)
      | .ok s' => ({ n with storage := s' }, none)

/-- The tail of the receiver: advance the commit index to the smaller of the leader's and the
last new entry, then acknowledge with the receiver's own last index. -/
def acknowledgeAppendEntries (n : Node) (m : Message) : Node :=
  let n :=
    if n.commitIndex < m.leaderCommit then
      queueHardStateLocked
        { n with commitIndex := min m.leaderCommit (m.prevLogIndex + m.entries.length) }
    else n
  n.replyAppendEntriesLocked m.fromNode true n.log.lastIndex

/-- `handleAppendEntriesLocked`.  The result `none` is the panic of
`assertTruncateAboveCommit`, which is raised before anything is written. -/
def handleAppendEntriesLocked (env : Env) (n : Node) (m : Message) : Option Node :=
  if m.term < n.currentTerm then
    some (n.replyAppendEntriesLocked m.fromNode false 0)
  else
    let n := { n with electionElapsed := 0, lastHeartbeat := 0, leaderHint := m.fromNode }
    if !n.log.hasEntry m.prevLogIndex m.prevLogTerm then
      some (n.replyAppendEntriesLocked m.fromNode false 0)
    else
      let firstConflict := n.firstConflictIndex m.entries
      if firstConflict ≠ 0 then
        -- a pure append past the end is not a truncation and never trips the guard
        if firstConflict ≤ n.log.lastIndex ∧ firstConflict ≤ n.commitIndex then none
        else
          let suffix := entriesFrom firstConflict m.entries
          let n := { n with log := (n.log.truncateSuffix firstConflict).append suffix }
          match n.mirrorLogWriteLocked env firstConflict suffix with
          -- the in-memory copy is kept although the mirror failed
          | (n, some _) => some (n.replyAppendEntriesLocked m.fromNode false 0)
          | (n, none) => some (n.acknowledgeAppendEntries m)
      else some (n.acknowledgeAppendEntries m)

/-! ## Dispatch, drain and start (`step.go`, `ready.go`, `node.go`) -/

/-- Errors of `Step`; the driver only logs them. -/
inductive StepError
  /-- `ErrStopped`: the start sequence has not finished. -/
  | stopped
  /-- `unknown MessageType`. -/
  | unknownType (code : UInt8)
  deriving DecidableEq, Repr

/-- The per-type dispatch of `stepLocked`, after the term funnel. -/
def dispatch (env : Env) (n : Node) (m : Message) : Option (Node × Option StepError) :=
  match m.type with
  | .tick =>
      match n.role with
      | .follower => some (n.tickFollowerLocked env.draw, none)
      | .candidate => some (n.tickCandidateLocked env.draw, none)
      | .leader => some (n.tickLeaderLocked, none)
  | .requestVote => some (n.handleRequestVoteLocked env.draw m, none)
  | .requestVoteResponse => some (n.handleRequestVoteResponseLocked m, none)
  | .appendEntries => (n.handleAppendEntriesLocked env m).map fun n => (n, none)
  | .appendEntriesResp => some (n.handleAppendEntriesRespLocked m, none)
  | .unknown code => some (n, some (.unknownType code))

/-- `stepLocked`: a higher term is observed before anything else. -/
def stepLocked (env : Env) (n : Node) (m : Message) : Option (Node × Option StepError) :=
  (if n.currentTerm < m.term then n.maybeStepDownLocked m.term else n).dispatch env m

/-- `Step`.  The result `none` is a panic. -/
def step (env : Env) (n : Node) (m : Message) : Option (Node × Option StepError) :=
  if !n.started then some (n, some .stopped) else n.stepLocked env m

/-- `Ready`: hand out the messages of the current epoch and the pending hard state, and clear
both buffers. -/
def ready (n : Node) : Node × List Message × Option HardState :=
  ({ n with pendingMsgs := [], pendingHS := none },
    (n.pendingMsgs.filter (fun pm => pm.epoch = n.stepDownEpoch)).map PendingMsg.msg,
    n.pendingHS)

/-- Errors of the constructors. -/
inductive NewError
  /-- `ErrInvalidConfig`. -/
  | config (err : ConfigError)
  /-- A storage read failed during the start sequence. -/
  | storage (err : StorageError)
  /-- The state machine refused the stored snapshot. -/
  | restore
  deriving DecidableEq, Repr

/-- `restoreLogFromStorage`: an empty store leaves the log empty. -/
def restoreLogFromStorage (s : Storage) : Except StorageError Log :=
  if s.lastIndex = 0 then .ok []
  else (s.getEntries s.firstIndex (s.lastIndex + 1)).map (Log.append [])

/-- `newNode`: defaults, validation, the hard state, the log, and the first timeout. -/
def newNode (cfg : Config) (s : Storage) (draw : ℕ) : Except NewError Node :=
  let cfg := cfg.applyDefaults
  match cfg.validate with
  | .error e => .error (.config e)
  | .ok () =>
      match restoreLogFromStorage s with
      | .error e => .error (.storage e)
      | .ok log =>
          let n : Node :=
            { id := cfg.nodeID
              peers := cfg.peers.insertionSort (· ≤ ·)
              currentTerm := s.hs.currentTerm
              votedFor := s.hs.votedFor
              commitIndex := s.hs.commit
              log := log
              storage := s
              cfg := cfg }
          .ok { resetElectionTimeoutLocked draw n with started := true }

end Node

end ToyRaft
