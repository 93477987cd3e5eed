import ToyRaft.Daemon.AsyncTransport
import ToyRaft.Runtime.Clients
import ToyRaft.Runtime.Cluster

/-!
# The daemons of a cluster, connected by HTTP (`cmd/toyraftd`)

A `Daemon` is a node behind its `asyncTransport`; the daemons of a `Fleet` reach each other by
`POST`s to the addresses of the `-peers` flag, which is the same for all of them.  The steps are
those of the goroutines of a daemon: the local acts of its node, one `Send` of its driver, the acts
of the drain goroutine of each peer, and one run of `handleMessage` for a request.

The wire holds every request that has been posted.  A request is handled any number of times, or
never, at any later moment, and an attempt may end in any outcome whatever becomes of its request,
so that loss, delay, and a retry of a request that was handled after all are schedules.

`net/http` recovers a panic of a handler.  The deferred unlock of `Step` has run by then and the
daemon goes on with what `Step` had written before it (`Node.afterPanic`), where a node that is
called by a goroutine of its own would be gone.

A crash takes the queues and the requests in progress with it, and so does a restart after `Stop`.
-/

namespace ToyRaft

/-- What `Step` has written when `assertTruncateAboveCommit` panics. -/
def Node.afterPanic (n : Node) (m : Message) : Node :=
  let n := if n.currentTerm < m.term then n.maybeStepDownLocked m.term else n
  { n with electionElapsed := 0, lastHeartbeat := 0, leaderHint := m.fromNode }

/-- One process. -/
structure Daemon (ρ : Type) where
  host : Host ρ
  transport : Daemon.AsyncTransport := {}

namespace Daemon

open Http

/-- The daemons of a cluster. -/
structure Fleet where
  cluster : Cluster
  /-- The address of every member in `-peers`. -/
  peerAddr : NodeID → String
  /-- No two members listen at one address.  `parsePeers` does not check this. -/
  apart : ∀ i ∈ cluster.peers, ∀ j ∈ cluster.peers, peerAddr i = peerAddr j → i = j
  /-- `Backoff.MaxAttempts`. -/
  maxAttempts : ℤ := 1
  maxBodyBytes : ℕ := Wire.defaultMaxBodyBytes

/-- All processes, and the requests posted so far: url and body. -/
structure FleetWorld (ρ : Type) where
  daemons : NodeID → Daemon ρ
  wire : List (String × Json) := []

/-- The steps of the goroutines of a daemon. -/
inductive DaemonAct (ρ : Type)
  /-- An act of the node that neither hands anything to the transport nor takes anything
  from it. -/
  | run (a : Act ρ)
  /-- `flush`: one call of `Transport.Send`. -/
  | send
  /-- The drain goroutine of the peer takes a message. -/
  | take (peer : NodeID)
  /-- It posts its request. -/
  | post (peer : NodeID)
  /-- It learns what became of the attempt. -/
  | posted (peer : NodeID) (o : PostOutcome)
  /-- It runs into the deadline of the call. -/
  | giveUp (peer : NodeID)
  /-- It exits. -/
  | exit (peer : NodeID)
  /-- `Stop` closes the transport. -/
  | close
  /-- The server handles the request at this place of the wire.  A request whose caller has gone
  is not handed to the core any more. -/
  | handle (k : ℕ) (cancelled : Bool) (env : Env)
  /-- The process dies in the course of handling it, between the two storage calls that mirror
  the message, and is started again. -/
  | handleCrash (k : ℕ) (draw : ℕ) (restore : RestoreOutcome)

/-- One step of one daemon. -/
structure FleetEvent (ρ : Type) where
  node : NodeID
  act : DaemonAct ρ

/-- The act is of the node alone. -/
def isLocal {ρ : Type} : Act ρ → Bool
  | .send | .step _ _ | .restartMidMirror _ _ _ => false
  | _ => true

namespace Fleet

variable {ρ : Type} (F : Fleet)

/-- The base URL of a member. -/
def peerURL (i : NodeID) : String := "http://" ++ F.peerAddr i

/-- The book of `deriveAddressBooks` that `Send` resolves its peers in. -/
def peerURLs (self peer : NodeID) : Option String :=
  if peer ∈ F.cluster.peers ∧ peer ≠ self then some (F.peerURL peer) else none

/-- Every daemon freshly started on an empty directory. -/
def init : FleetWorld ρ where
  daemons i := { host := Host.start (F.cluster.cfg i) {} (F.cluster.draw i) }

/-- What the server of a member reads off a request: nothing if the request is for another
address, is refused with 413, or does not decode. -/
def request (w : FleetWorld ρ) (i : NodeID) (k : ℕ) : Option Message :=
  match w.wire[k]? with
  | none => none
  | some (url, body) =>
      if url ≠ F.peerURL i ++ raftMessagePath then none
      else if F.maxBodyBytes < body.size then none
      else
        match Wire.decodeMessage body with
        | .error _ => none
        | .ok r => some (Wire.toCore r)

/-- The registered callback panics on the message, and the server recovers. -/
def recovers (d : Daemon ρ) (m : Message) (env : Env) : Bool :=
  !d.host.crashed && !d.host.stopped && (d.host.node.step env m).isNone

/-- The counting closure, then `Step`. -/
def callback (cfg : Config) (d : Daemon ρ) (m : Message) (cancelled : Bool) (env : Env) :
    Daemon ρ where
  host :=
    if cancelled then d.host
    else if recovers d m env then { d.host with node := d.host.node.afterPanic m }
    else (d.host.act cfg (.step m env)).1
  transport := d.transport.received m

/-- An act of the node; a new lifetime has a new transport. -/
def runAct (cfg : Config) (d : Daemon ρ) (a : Act ρ) : Daemon ρ where
  host := (d.host.act cfg a).1
  transport := if d.host.reboots cfg a then {} else d.transport

/-- One step of a daemon, and what it puts on the wire. -/
def step (w : FleetWorld ρ) (i : NodeID) : DaemonAct ρ → Daemon ρ × List (String × Json)
  | .run a =>
      if isLocal a && a.faultless then (runAct (F.cluster.cfg i) (w.daemons i) a, [])
      else (w.daemons i, [])
  | .send =>
      let (h, msgs) := (w.daemons i).host.act (F.cluster.cfg i) .send
      ({ host := h, transport := msgs.foldl AsyncTransport.send (w.daemons i).transport }, [])
  | .take p =>
      let d := w.daemons i
      ({ d with transport := d.transport.take (F.peerURLs i) p }, [])
  | .post p =>
      (w.daemons i, ((w.daemons i).transport.posting p).toList.map fun s => (s.url, s.body))
  | .posted p o =>
      let d := w.daemons i
      ({ d with transport := d.transport.posted F.maxAttempts p o }, [])
  | .giveUp p =>
      let d := w.daemons i
      ({ d with transport := d.transport.giveUp p }, [])
  | .exit p =>
      let d := w.daemons i
      ({ d with transport := d.transport.exit p }, [])
  | .close =>
      let d := w.daemons i
      if d.host.stopped then ({ d with transport := d.transport.close }, []) else (d, [])
  | .handle k cancelled env =>
      match F.request w i k with
      | none => (w.daemons i, [])
      | some m =>
          if env.truncateErr || env.appendErr then (w.daemons i, [])
          else (callback (F.cluster.cfg i) (w.daemons i) m cancelled env, [])
  | .handleCrash k draw restore =>
      match F.request w i k with
      | none => (w.daemons i, [])
      | some m =>
          (runAct (F.cluster.cfg i) (w.daemons i) (.restartMidMirror m draw restore), [])

/-- Execute one event; what is no member does nothing. -/
def exec (w : FleetWorld ρ) (e : FleetEvent ρ) : FleetWorld ρ :=
  if e.node ∈ F.cluster.peers then
    let (d, posted) := F.step w e.node e.act
    { daemons := Function.update w.daemons e.node d
      wire := w.wire ++ posted }
  else w

/-- The fleet as a machine over events. -/
def machine (ρ : Type) : Machine (FleetWorld ρ) (FleetEvent ρ) where
  init := F.init
  step := F.exec

/-- The fleet after the first `t` events of a schedule. -/
def world (ev : ℕ → FleetEvent ρ) (t : ℕ) : FleetWorld ρ := (F.machine ρ).run ev t

/-- The daemon of member `i` after the first `t` events. -/
def daemon (ev : ℕ → FleetEvent ρ) (t : ℕ) (i : NodeID) : Daemon ρ := (F.world ev t).daemons i

end Fleet

end Daemon

end ToyRaft
