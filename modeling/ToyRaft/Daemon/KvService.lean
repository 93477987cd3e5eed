import ToyRaft.Daemon.KvHandler
import ToyRaft.Runtime.Clients
import ToyRaft.Runtime.Cluster

/-!
# The key-value service (`cmd/toyraftd`)

Every daemon of a cluster has a key-value machine behind its node, and serves clients from both.
What the node asks of its state machine is answered by this machine: `Apply`, `Snapshot` and, when
the daemon is started again, `Restore`.  A daemon whose `Restore` fails does not come up.

A handler does not answer a request in one step.  It asks `leaderGate`, and later reads the machine
or calls `Propose`, which comes back later still.  The steps of the handlers, of the node and of
the network interleave, so a `GET` can be read on a node that does not lead any more.  A crash of
the daemon ends every request it is working on.
-/

namespace ToyRaft

namespace Kv

open Json Kvsm

deriving instance DecidableEq for Request

/-- The methods of `/kv/{key}`. -/
inductive Method
  | get
  | put
  | delete
  deriving DecidableEq

/-- What a request proposes; a `GET` proposes nothing. -/
def Method.op : Method → Request → Option (Op Data)
  | .get, _ => none
  | .put, r => some { kind := "set", key := r.key, value := some r.body }
  | .delete, r => some { kind := "del", key := r.key }

namespace Handler

variable (h : Handler)

/-- The handler of each method. -/
def handle : Method → Request → Response × KV
  | .get, r => (h.handleGet r, h.sm)
  | .put, r => h.handlePut r
  | .delete, r => h.handleDelete r

/-- The first part of a handler: the answer to a request that is turned away. -/
def refusal (m : Method) (r : Request) : Option Response :=
  match h.leaderGate r with
  | some resp => some resp
  | none =>
      if m = .put ∧ maxValueBytes < r.body.length then
        some (jsonError 413 "\x7b\"error\":\"payload_too_large\"\x7d")
      else none

/-- The answer to a `GET` that is not turned away. -/
def read (r : Request) : Response :=
  match h.get r.key with
  | none => { status := 404 }
  | some v => { status := 200, contentType := "application/octet-stream", body := v.getD [] }

/-- The second part. -/
def serve (m : Method) (r : Request) : Response × KV :=
  match m.op r with
  | none => (h.read r, h.sm)
  | some op => h.proposeOp r op

/-- The two parts together are the handler. -/
theorem handle_eq (m : Method) (r : Request) :
    h.handle m r = (h.refusal m r).elim (h.serve m r) fun resp => (resp, h.sm) := by
  cases m with
  | get =>
      cases hgate : h.leaderGate r with
      | some resp => simp [handle, handleGet, refusal, hgate]
      | none =>
          cases hget : h.get r.key with
          | none => simp [handle, handleGet, refusal, hgate, hget, serve, Method.op, read]
          | some v => simp [handle, handleGet, refusal, hgate, hget, serve, Method.op, read]
  | put =>
      cases hgate : h.leaderGate r with
      | some resp => simp [handle, handlePut, refusal, hgate]
      | none =>
          by_cases hbody : maxValueBytes < r.body.length
          · simp [handle, handlePut, refusal, hgate, hbody]
          · simp [handle, handlePut, refusal, hgate, hbody, serve, Method.op]
  | delete =>
      cases hgate : h.leaderGate r with
      | some resp => simp [handle, handleDelete, refusal, hgate]
      | none => simp [handle, handleDelete, refusal, hgate, serve, Method.op]

end Handler

/-- How `propose` sees the error of `Propose`. -/
def ProposeError.of : ToyRaft.ProposeError → ProposeError
  | .notLeader hint => .notLeader hint
  | _ => .other

/-- How far a handler has come with a request. -/
inductive Stage
  /-- Not turned away. -/
  | admitted
  /-- In `Propose`; the call is at this place among those of the node. -/
  | proposing (ticket : ℕ)
  | answered (resp : Response)
  deriving DecidableEq

/-- A request that has reached a daemon. -/
structure Exchange where
  method : Method
  req : Request
  stage : Stage
  deriving DecidableEq

/-- What stays the same in a service. -/
structure Service (ε : Type) where
  cluster : Cluster
  /-- The scanner of `encoding/json`. -/
  parse : Data → Except ε Json
  errorText : Kvsm.ApplyError ε → String
  clientURLs : NodeID → Data

/-- The nodes, and for each daemon its machine and the requests of its present lifetime. -/
structure ServiceWorld where
  raft : World (Option Data)
  sm : NodeID → KV := fun _ => {}
  requests : NodeID → List Exchange := fun _ => []

/-- The steps of a daemon. -/
inductive ServiceAct
  /-- An act of the node other than `Propose`.  What it says about the state machine is not
  used. -/
  | run (a : Act (Option Data))
  /-- A request reaches its handler, and is turned away or admitted. -/
  | request (m : Method) (r : Request)
  /-- The handler of the request at this place reads the machine or calls `Propose`. -/
  | serve (k : ℕ) (env : Env)
  /-- The call of `Propose` is back, and the request is answered. -/
  | respond (k : ℕ)

/-- One step of one daemon. -/
structure ServiceEvent where
  node : NodeID
  act : ServiceAct

namespace Service

variable {ε : Type} (S : Service ε)

/-- What `Apply` answers on an entry. -/
def applyOutcome (k : KV) (e : Entry) : ApplyOutcome (Option Data) :=
  match (k.apply S.parse e).1 with
  | .ok v => .returned (some v) none
  | .error err => .returned none (some (S.errorText err))

/-- What becomes of `Restore`. -/
def restoreOutcome (snap : Snapshot) : RestoreOutcome :=
  match restore S.parse snap.data with
  | .ok _ => .restored
  | .error _ => .failed

/-- The machine of a daemon that comes up: `kvsm.New`, and `Restore` if there is a snapshot. -/
def loaded (snap : Snapshot) : KV :=
  if 0 < snap.index then
    match restore S.parse snap.data with
    | .ok k => k
    | .error _ => {}
  else {}

/-- An act of the node, with the answers of the machine. -/
def answered (h : Host (Option Data)) (k : KV) : Act (Option Data) → Act (Option Data)
  | .applyCall out =>
      match h.applyCh with
      | [] => .applyCall out
      | e :: _ => .applyCall (S.applyOutcome k e)
  | .checkpoint _ err => .checkpoint (.taken k.snapshot.1 k.snapshot.2) err
  | .restart draw _ => .restart draw (S.restoreOutcome h.node.storage.snap)
  | .restartMidMirror m draw _ =>
      .restartMidMirror m draw (S.restoreOutcome h.node.storage.snap)
  | a => a

/-- The machine after an act of its node. -/
def after (i : NodeID) (h : Host (Option Data)) (k : KV) (a : Act (Option Data)) : KV :=
  if h.reboots (S.cluster.cfg i) a then S.loaded h.node.storage.snap
  else
    match h.applies a with
    | some e => (k.apply S.parse e).2
    | none => k

/-- The handler of a daemon, with the error of a `Propose` that is back. -/
def handler (w : ServiceWorld) (i : NodeID) (back : Option ToyRaft.ProposeError) : Handler where
  role := (w.raft.hosts i).node.role
  leaderHint := (w.raft.hosts i).node.leaderHint
  propose _ := (back.map .of, w.sm i)
  sm := w.sm i
  clientURLs := S.clientURLs

/-- What the node does in this step.  `Propose` is called by the handlers only. -/
def event (w : ServiceWorld) (e : ServiceEvent) : Option (Event (Option Data)) :=
  match e.act with
  | .run (.propose _ _) => none
  | .run a => some ⟨e.node, S.answered (w.raft.hosts e.node) (w.sm e.node) a⟩
  | .serve k env =>
      match (w.raft.hosts e.node).crashed, (w.requests e.node)[k]? with
      | false, some ⟨m, r, .admitted⟩ =>
          (m.op r).map fun op => ⟨e.node, .propose op.marshal env⟩
      | _, _ => none
  | _ => none

/-- Where an admitted request stands after its handler has gone on with it. -/
def served (w : ServiceWorld) (i : NodeID) (m : Method) (r : Request) : Stage :=
  match m.op r with
  | none => .answered ((S.handler w i none).read r)
  | some _ => .proposing (w.raft.hosts i).calls.length

/-- The requests of a daemon after this step. -/
def handled (w : ServiceWorld) (e : ServiceEvent) : List Exchange :=
  let h := w.raft.hosts e.node
  let xs := w.requests e.node
  match e.act with
  | .run a =>
      if h.reboots (S.cluster.cfg e.node) (S.answered h (w.sm e.node) a) then [] else xs
  | .request m r =>
      if h.crashed then xs
      else
        match (S.handler w e.node none).refusal m r with
        | some resp => xs ++ [⟨m, r, .answered resp⟩]
        | none => xs ++ [⟨m, r, .admitted⟩]
  | .serve k _ =>
      match h.crashed, xs[k]? with
      | false, some ⟨m, r, .admitted⟩ => xs.set k ⟨m, r, S.served w e.node m r⟩
      | _, _ => xs
  | .respond k =>
      match h.crashed, xs[k]? with
      | false, some ⟨m, r, .proposing ticket⟩ =>
          match h.calls[ticket]? with
          | some { ret := some ret, .. } =>
              xs.set k ⟨m, r, .answered ((S.handler w e.node ret.err).serve m r).1⟩
          | _ => xs
      | _, _ => xs

/-- The step is one of a member, and the node can do its part of it. -/
def Enabled (w : ServiceWorld) (e : ServiceEvent) : Prop :=
  e.node ∈ S.cluster.peers ∧ ∀ c ∈ S.event w e, S.cluster.Enabled w.raft c

instance (w : ServiceWorld) (e : ServiceEvent) : Decidable (S.Enabled w e) :=
  inferInstanceAs (Decidable (_ ∧ _))

/-- Execute one event. -/
def exec (w : ServiceWorld) (e : ServiceEvent) : ServiceWorld :=
  if S.Enabled w e then
    let requests := Function.update w.requests e.node (S.handled w e)
    match S.event w e with
    | some c =>
        { raft := S.cluster.exec w.raft c
          sm := Function.update w.sm e.node
            (S.after e.node (w.raft.hosts e.node) (w.sm e.node) c.act)
          requests := requests }
    | none => { w with requests := requests }
  else w

/-- The service as a machine over events. -/
def machine : Machine ServiceWorld ServiceEvent where
  init := { raft := S.cluster.init }
  step := S.exec

/-- The service after the first `t` events of a schedule. -/
def world (ev : ℕ → ServiceEvent) (t : ℕ) : ServiceWorld := S.machine.run ev t

/-- The machine of daemon `i` after the first `t` events. -/
def sm (ev : ℕ → ServiceEvent) (t : ℕ) (i : NodeID) : KV := (S.world ev t).sm i

/-- The requests of daemon `i` after the first `t` events. -/
def requests (ev : ℕ → ServiceEvent) (t : ℕ) (i : NodeID) : List Exchange :=
  (S.world ev t).requests i

end Service

end Kv

end ToyRaft
