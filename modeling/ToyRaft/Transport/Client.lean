import ToyRaft.Transport.Server

/-!
# The HTTP client of the transport (`client.go`)

`Send` resolves the peer, marshals the message and posts it, again and again as long as the
failures are transient and attempts are left.  Between two attempts it waits, which is time in
which nothing of it is scheduled; the length of the wait is not modelled.

On the other side a body is read back as a message of the core (`Wire.toCore`).
-/

namespace ToyRaft

/-- The message type of a byte. -/
def MessageType.ofCode (code : UInt8) : MessageType :=
  if code = 0 then .requestVote
  else if code = 1 then .requestVoteResponse
  else if code = 2 then .appendEntries
  else if code = 3 then .appendEntriesResp
  else if code = 255 then .tick
  else .unknown code

namespace Wire

/-- An entry record as an entry of the core model. -/
def entryToCore (e : RaftEntry) : Entry where
  term := e.term.toNat
  index := e.index.toNat
  data := e.data.getD []

/-- A message record as a message of the core model. -/
def toCore (r : RaftMessage) : Message where
  type := .ofCode r.type
  term := r.term.toNat
  fromNode := r.fromNode
  toNode := r.toNode
  lastLogIndex := r.lastLogIndex.toNat
  lastLogTerm := r.lastLogTerm.toNat
  voteGranted := r.voteGranted
  prevLogIndex := r.prevLogIndex.toNat
  prevLogTerm := r.prevLogTerm.toNat
  entries := r.entries.map entryToCore
  leaderCommit := r.leaderCommit.toNat
  success := r.success
  matchIndex := r.matchIndex.toNat
  conflictTerm := r.conflictTerm.toNat
  conflictIndex := r.conflictIndex.toNat

end Wire

namespace Http

def raftMessagePath : String := "/raft/message"

/-- What one `POST` ends in: the status of a response, or no response. -/
inductive PostOutcome
  | status (code : ℕ)
  | network
  deriving DecidableEq

/-- `postOnce` returns nil. -/
def PostOutcome.ok : PostOutcome → Bool
  | .status code => code / 100 = 2
  | .network => false

def isTransient : PostOutcome → Bool
  | .status code => code / 100 = 5
  | .network => true

/-- The errors of `Send`. -/
inductive SendError
  /-- "unknown peer %q (not in PeerURLs)" -/
  | unknownPeer (peer : NodeID)
  /-- The deadline of the call, or its caller's. -/
  | ctx (peer : NodeID)
  | terminal (peer : NodeID) (o : PostOutcome)
  /-- "exhausted %d attempts" -/
  | exhausted (peer : NodeID) (attempts : ℕ) (o : PostOutcome)
  deriving DecidableEq

/-- A call of `Send` that is about to make its next attempt. -/
structure Sending where
  msg : Message
  url : String
  body : Json
  attempt : ℕ := 0

/-- `Send`, up to its first attempt. -/
def beginSend (peerURLs : NodeID → Option String) (msg : Message) : Except SendError Sending :=
  match peerURLs msg.toNode with
  | none => .error (.unknownPeer msg.toNode)
  | some base => .ok { msg := msg, url := base ++ raftMessagePath, body := Wire.bodyOf msg }

/-- `Send`, after an attempt: it goes on, or returns. -/
def Sending.after (maxAttempts : ℤ) (s : Sending) (o : PostOutcome) :
    Sending ⊕ Except SendError Unit :=
  let attempts := (max maxAttempts 1).toNat
  if o.ok then .inr (.ok ())
  else if !isTransient o then .inr (.error (.terminal s.msg.toNode o))
  else if s.attempt + 1 < attempts then .inl { s with attempt := s.attempt + 1 }
  else .inr (.error (.exhausted s.msg.toNode attempts o))

end Http

end ToyRaft
