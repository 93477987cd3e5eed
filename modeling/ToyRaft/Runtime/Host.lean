import ToyRaft.Core.Node
import ToyRaft.Framework.Machine

/-!
# One running node (`node_public.go`, `driver.go`, `apply.go`)

`Host` is `nodeImpl`: the core, the local variables of a `flush` in progress, the apply
channel, the applier, and the registry of proposals waiting for their entry to be applied.
`Act` lists the atomic steps of its goroutines; `Host.act` executes one.

* A `flush` is split at every point where the source holds no lock: `ready` (the drain under
  the lock), `save` (the hard state), one `send` per message, `drainBegin` (the commit index
  under the lock) and one `drain` per entry handed to the apply channel.
* The applier is split into the call of `StateMachine.Apply` (`applyCall`), what follows its
  return (`applyDone`), and the durable `checkpoint`.
* A `Propose` is split into its critical section (`propose`) and its return, either with the
  applier's result (`receive`) or on the caller's context (`cancel`).

What the state machine answers is an argument of the act, so every state machine is covered.
The apply channel has no bound here: a full channel is a `drain` that is not scheduled.

A crash is followed by `New` on the storage that is left.  The time a crashed node is down
is time in which no act of it is scheduled, so `restart` is one act; `restartMidMirror` is a
crash between the two storage calls of `mirrorLogWriteLocked`.  A panic of the core sets
`crashed`, after which only a restart does anything.
-/

namespace ToyRaft

/-- The error a waiting proposal is handed by the applier. -/
inductive ApplyError
  /-- The error `Apply` returned. -/
  | returned (msg : String)
  /-- `apply panic at index …`. -/
  | panicked (index : ℕ) (msg : String)
  deriving DecidableEq, Repr

/-- What one call of `StateMachine.Apply` does. -/
inductive ApplyOutcome (ρ : Type)
  | returned (res : Option ρ) (err : Option String)
  | panicked (msg : String)
  deriving DecidableEq

/-- What one call of `StateMachine.Snapshot` does. -/
inductive SnapshotOutcome
  | taken (data : Data) (index : ℕ)
  | unsupported
  | failed
  deriving DecidableEq

/-- What `StateMachine.Restore` answers on the stored snapshot. -/
inductive RestoreOutcome
  | restored
  | unsupported
  | failed
  deriving DecidableEq

/-- `proposeResult`: what the applier sends to a waiter. -/
structure ProposeResult (ρ : Type) where
  res : Option ρ := none
  err : Option ApplyError := none
  deriving DecidableEq

/-- The errors `Propose` returns. -/
inductive ProposeError
  /-- `ErrStopped`. -/
  | stopped
  /-- `ErrNotLeader`. -/
  | notLeader (hint : NodeID)
  /-- `ErrProposalDropped`. -/
  | proposalDropped
  /-- The applier's error. -/
  | apply (err : ApplyError)
  /-- `ctx.Err()`. -/
  | ctx
  deriving DecidableEq, Repr

/-- The four return values of `Propose`. -/
structure ProposeReturn (ρ : Type) where
  idx : ℕ := 0
  term : ℕ := 0
  res : Option ρ := none
  err : Option ProposeError := none
  deriving DecidableEq

/-- One `Propose` call: its locals, its result channel of capacity one, and what it
returned. -/
structure ProposeCall (ρ : Type) where
  data : Data
  idx : ℕ := 0
  term : ℕ := 0
  result : Option (ProposeResult ρ) := none
  ret : Option (ProposeReturn ρ) := none
  deriving DecidableEq

/-- Where the driver goroutine stands in `flush`. -/
inductive Flush
  | idle
  /-- `Ready` has returned, the hard state is not saved yet. -/
  | ready (hs : Option HardState) (msgs : List Message)
  /-- The messages still to be handed to the transport. -/
  | sending (msgs : List Message)
  /-- `drainCommitsToApply` has read this commit index. -/
  | draining (ci : ℕ)
  deriving DecidableEq, Repr

/-- Where the applier goroutine stands in `applyOne`. -/
inductive Applier (ρ : Type)
  | idle
  /-- `Apply` has returned or panicked on this entry. -/
  | applied (e : Entry) (out : ApplyOutcome ρ)
  /-- The snapshot cadence has been reached. -/
  | checkpointing
  deriving DecidableEq

/-- One running node. -/
structure Host (ρ : Type) where
  node : Node
  flush : Flush := .idle
  applyCh : List Entry := []
  enqueuedIdx : ℕ := 0
  appliedIdx : ℕ := 0
  snapshotIdx : ℕ := 0
  applier : Applier ρ := .idle
  /-- The waiter registry: log index to the position of the call in `calls`. -/
  waiters : AList (fun _ : ℕ => ℕ) := ∅
  /-- Every `Propose` call of this lifetime, in order. -/
  calls : List (ProposeCall ρ) := []
  fatal : Option ApplyError := none
  stopped : Bool := false
  crashed : Bool := false

/-- The atomic steps of the goroutines of one node. -/
inductive Act (ρ : Type)
  /-- The transport's callback: `Step` on an inbound message. -/
  | step (m : Message) (env : Env)
  /-- The driver's ticker: `Step` on `MsgTick`. -/
  | tick (env : Env)
  /-- The critical section of `Propose`. -/
  | propose (data : Data) (env : Env)
  /-- `flush`: the call of `Ready`. -/
  | ready
  /-- `flush`: the call of `SaveHardState`, whose error is dropped. -/
  | save (err : Bool)
  /-- `flush`: one call of `Transport.Send`. -/
  | send
  /-- `drainCommitsToApply`: read the commit index. -/
  | drainBegin
  /-- `drainCommitsToApply`: one iteration of its loop. -/
  | drain (err : Bool)
  /-- `applyOne`: the call of `StateMachine.Apply`. -/
  | applyCall (out : ApplyOutcome ρ)
  /-- `applyOne`: what follows the call. -/
  | applyDone
  /-- `checkpoint`. -/
  | checkpoint (out : SnapshotOutcome) (err : Bool)
  /-- `Propose` returns with the applier's result. -/
  | receive (ticket : ℕ)
  /-- `Propose` returns on the caller's context. -/
  | cancel (ticket : ℕ)
  /-- `Stop`. -/
  | stop
  /-- A crash, and `New` on the storage left behind. -/
  | restart (draw : ℕ) (restore : RestoreOutcome)
  /-- The same, the crash falling between the two storage calls that mirror `m`. -/
  | restartMidMirror (m : Message) (draw : ℕ) (restore : RestoreOutcome)

/-- No storage call made by this act fails. -/
def Act.faultless {ρ : Type} : Act ρ → Bool
  | .step _ env | .tick env | .propose _ env => !env.truncateErr && !env.appendErr
  | .save err | .drain err | .checkpoint _ err => !err
  | _ => true

/-- No write to the log fails in this act.  The hard state or a snapshot may still fail to be
saved, and a read may fail. -/
def Act.logFaultless {ρ : Type} : Act ρ → Bool
  | .step _ env | .tick env | .propose _ env => !env.truncateErr && !env.appendErr
  | _ => true

/-- The act ends the node's lifetime and begins another. -/
def Act.restarts {ρ : Type} : Act ρ → Bool
  | .restart _ _ | .restartMidMirror _ _ _ => true
  | _ => false

/-- A call of `SaveHardState` that fails. -/
def Act.losesHardState {ρ : Type} : Act ρ → Bool
  | .save err => err
  | _ => false

/-- The message this act takes from the network. -/
def Act.inbound {ρ : Type} : Act ρ → Option Message
  | .step m _ | .restartMidMirror m _ _ => some m
  | _ => none

namespace Node

/-- The receiver is about to mirror a write: the index it writes from, for a message that
passes every check and does not trip the truncation guard. -/
def mirrorStart (n : Node) (m : Message) : Option ℕ :=
  if m.type = .appendEntries ∧ n.currentTerm ≤ m.term ∧
      n.log.hasEntry m.prevLogIndex m.prevLogTerm = true ∧
      n.firstConflictIndex m.entries ≠ 0 ∧
      ¬ (n.firstConflictIndex m.entries ≤ n.log.lastIndex ∧
        n.firstConflictIndex m.entries ≤ n.commitIndex) then
    some (n.firstConflictIndex m.entries)
  else none

end Node

namespace Host

variable {ρ : Type}

/-- `New`: the core, then the applied floor of the stored snapshot. -/
def new (cfg : Config) (s : Storage) (draw : ℕ) (restore : RestoreOutcome) :
    Except Node.NewError (Host ρ) :=
  match Node.newNode cfg s draw with
  | .error e => .error e
  | .ok n =>
      if 0 < s.snap.index then
        if restore = .failed then .error .restore
        else
          .ok
            { node := n
              enqueuedIdx := s.snap.index
              appliedIdx := s.snap.index
              snapshotIdx := s.snap.index }
      else .ok { node := n }

/-- The host after the first `New`.  A node whose `New` failed is not running. -/
def start (cfg : Config) (s : Storage) (draw : ℕ) : Host ρ :=
  match new cfg s draw .restored with
  | .ok h => h
  | .error _ => { node := { id := cfg.nodeID, peers := cfg.peers, cfg := cfg }, crashed := true }

/-- A crash that leaves `s` behind, and the restart from it.  A `New` that fails leaves the
node down, and the attempt does not count. -/
def restartFrom (cfg : Config) (h : Host ρ) (s : Storage) (draw : ℕ)
    (restore : RestoreOutcome) : Host ρ :=
  match new cfg s draw restore with
  | .error _ => h
  | .ok h' => h'

/-- The core has returned from `Step`, or panicked. -/
def afterStep (h : Host ρ) : Option (Node × Option Node.StepError) → Host ρ
  | none => { h with crashed := true }
  | some (n, _) => { h with node := n }

/-- Append a finished call to the record. -/
def failCall (h : Host ρ) (data : Data) (err : ProposeError) : Host ρ :=
  { h with calls := h.calls ++ [{ data := data, ret := some { err := some err } }] }

/-- The critical section of `Propose`. -/
def propose (env : Env) (h : Host ρ) (data : Data) : Host ρ :=
  if h.stopped then h.failCall data .stopped
  else if h.node.role ≠ .leader then h.failCall data (.notLeader h.node.leaderHint)
  else
    match h.node.proposeLocked env data with
    | (n, _, false) => { h with node := n }.failCall data .proposalDropped
    | (n, idx, true) =>
        -- the waiter is registered before the broadcast can commit anything
        { h with
          waiters := h.waiters.insert idx h.calls.length
          calls := h.calls ++ [{ data := data, idx := idx, term := n.currentTerm }]
          node := n.broadcastAppendEntriesLocked }

/-- `waiters.LoadAndDelete` on the applied index, and the send to the waiter found. -/
def resolve (h : Host ρ) (idx : ℕ) (r : ProposeResult ρ) : Host ρ :=
  match h.waiters.lookup idx with
  | none => h
  | some ticket =>
      { h with
        waiters := h.waiters.erase idx
        calls := h.calls.modify ticket (fun c => { c with result := some r }) }

/-- `applyOne` after the call of `Apply`. -/
def applyDone (h : Host ρ) (e : Entry) : ApplyOutcome ρ → Host ρ
  | .returned res err =>
      let h := { h with appliedIdx := e.index }.resolve e.index ⟨res, err.map .returned⟩
      { h with
        applier :=
          if h.snapshotIdx + h.node.cfg.snapshotInterval ≤ e.index then .checkpointing
          else .idle }
  | .panicked msg =>
      let err := ApplyError.panicked e.index msg
      { h with fatal := some err, appliedIdx := e.index, applier := .idle }.resolve e.index
        { err := some err }

/-- `checkpoint`. -/
def checkpoint (h : Host ρ) (out : SnapshotOutcome) (err : Bool) : Host ρ :=
  let h := { h with applier := .idle }
  match out with
  | .taken data idx =>
      if idx = 0 ∨ err then h
      else
        let snap : Snapshot := { index := idx, term := (h.node.log.term idx).1, data := data }
        { h with
          node := { h.node with storage := h.node.storage.saveSnapshot snap }
          snapshotIdx := idx }
  | _ => h

/-- One iteration of the loop of `drainCommitsToApply`. -/
def drain (h : Host ρ) (ci : ℕ) (err : Bool) : Host ρ :=
  let i := h.enqueuedIdx + 1
  if ci < i then { h with flush := .idle }
  else
    match faulty err (h.node.storage.getEntries i (i + 1)) with
    | .ok (e :: _) => { h with applyCh := h.applyCh ++ [e], enqueuedIdx := i }
    | _ => { h with flush := .idle }

/-- The message a running node takes from the transport in this act. -/
def delivered (h : Host ρ) : Act ρ → Option Message
  | .step m _ => if h.crashed || h.stopped then none else some m
  | _ => none

/-- The entry a running node hands to `StateMachine.Apply` in this act. -/
def applies (h : Host ρ) : Act ρ → Option Entry
  | .applyCall _ =>
      match h.crashed, h.applier with
      | false, .idle => h.applyCh.head?
      | _, _ => none
  | _ => none

/-- The entry `drainCommitsToApply` hands to the apply channel in this act. -/
def enqueues (h : Host ρ) : Act ρ → Option Entry
  | .drain err =>
      match h.crashed, h.flush with
      | false, .draining ci =>
          if ci < h.enqueuedIdx + 1 then none
          else
            match faulty err
              (h.node.storage.getEntries (h.enqueuedIdx + 1) (h.enqueuedIdx + 1 + 1)) with
            | .ok (e :: _) => some e
            | _ => none
      | _, _ => none
  | _ => none

/-- The act is a crash from which `New` comes back. -/
def reboots (cfg : Config) (h : Host ρ) : Act ρ → Bool
  | .restart draw restore =>
      (new cfg h.node.storage draw restore : Except Node.NewError (Host ρ)).isOk
  | .restartMidMirror m draw restore =>
      match h.node.mirrorStart m with
      | none => false
      | some start =>
          match h.node.storage.truncateSuffix start with
          | .error _ => false
          | .ok s => (new cfg s draw restore : Except Node.NewError (Host ρ)).isOk
  | _ => false

/-- Execute one act: the new state and the messages handed to the transport.  An act that
is not enabled changes nothing. -/
def act (cfg : Config) (h : Host ρ) (a : Act ρ) : Host ρ × List Message :=
  match a with
  | .restart draw restore => (h.restartFrom cfg h.node.storage draw restore, [])
  | .restartMidMirror m draw restore =>
      match h.node.mirrorStart m with
      | none => (h, [])
      | some start =>
          match h.node.storage.truncateSuffix start with
          | .error _ => (h, [])
          | .ok s => (h.restartFrom cfg s draw restore, [])
  | a =>
    if h.crashed then (h, [])
    else
      match a with
      | .step m env => if h.stopped then (h, []) else (h.afterStep (h.node.step env m), [])
      | .tick env => (h.afterStep (h.node.step env { type := .tick }), [])
      | .propose data env => (h.propose env data, [])
      | .ready =>
          match h.flush with
          | .idle =>
              let (n, msgs, hs) := h.node.ready
              ({ h with node := n, flush := .ready hs msgs }, [])
          | _ => (h, [])
      | .save err =>
          match h.flush with
          | .ready none msgs => ({ h with flush := .sending msgs }, [])
          | .ready (some hs) msgs =>
              if err then ({ h with flush := .sending msgs }, [])
              else
                ({ h with
                  node := { h.node with storage := h.node.storage.saveHardState hs }
                  flush := .sending msgs }, [])
          | _ => (h, [])
      | .send =>
          match h.flush with
          | .sending (m :: msgs) => ({ h with flush := .sending msgs }, [m])
          | _ => (h, [])
      | .drainBegin =>
          match h.flush with
          | .sending [] => ({ h with flush := .draining h.node.commitIndex }, [])
          | _ => (h, [])
      | .drain err =>
          match h.flush with
          | .draining ci => (h.drain ci err, [])
          | _ => (h, [])
      | .applyCall out =>
          match h.applier, h.applyCh with
          | .idle, e :: rest => ({ h with applyCh := rest, applier := .applied e out }, [])
          | _, _ => (h, [])
      | .applyDone =>
          match h.applier with
          | .applied e out => (h.applyDone e out, [])
          | _ => (h, [])
      | .checkpoint out err =>
          match h.applier, h.stopped with
          | .checkpointing, _ => (h.checkpoint out err, [])
          | .idle, true => (h.checkpoint out err, [])
          | _, _ => (h, [])
      | .receive ticket =>
          match h.calls[ticket]? with
          | some { idx, term, result := some r, ret := none, .. } =>
              let ret := some { idx, term, res := r.res, err := r.err.map .apply }
              ({ h with calls := h.calls.modify ticket (fun c => { c with ret := ret }) }, [])
          | _ => (h, [])
      | .cancel ticket =>
          match h.calls[ticket]? with
          | some { idx, ret := none, .. } =>
              let ret := some { err := some .ctx }
              ({ h with
                waiters := h.waiters.erase idx
                calls := h.calls.modify ticket (fun c => { c with ret := ret }) }, [])
          | _ => (h, [])
      | .stop => ({ h with stopped := true }, [])
      | _ => (h, [])

/-! ## One node on its own

The machine of a single node whose environment is arbitrary: any message may be delivered to
it and any storage call may fail.  Its state is the host together with the messages it has
handed to the transport. -/

/-- The runs of one node from the host `h₀`, under an arbitrary environment. -/
def alone (cfg : Config) (h₀ : Host ρ) : Machine (Host ρ × List Message) (Act ρ) where
  init := (h₀, [])
  step st a := ((st.1.act cfg a).1, st.2 ++ (st.1.act cfg a).2)

/-- The host after the first `t` acts. -/
def after (cfg : Config) (h₀ : Host ρ) (ev : ℕ → Act ρ) (t : ℕ) : Host ρ :=
  ((alone cfg h₀).run ev t).1

end Host

end ToyRaft
