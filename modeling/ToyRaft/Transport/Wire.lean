import ToyRaft.Framework.Json

/-!
# The wire format

`wireMessage` is what a `raft.Message` looks like on the wire: the fields of the record under
their snake_case names, all but four of them left out when they are zero, and the data of an
entry in base64.  `decodeMessage` reads a body back in the lenient way of `json.Unmarshal` and
then refuses every type that is not one of the four wire-visible ones.

The messages of the core model have natural numbers for the integers and do not tell nil data
from empty data.  The wire does, so the records here are those of the source, with its widths.
A body that is not JSON at all is refused before any of this, and is not modelled.
-/

namespace ToyRaft

namespace Wire

open Json

/-- `raft.Entry`, with nil data told from empty data. -/
structure RaftEntry where
  term : UInt64 := 0
  index : UInt64 := 0
  data : Option (List UInt8) := none
  deriving DecidableEq

/-- `raft.Message`; nil entries are not told from empty ones. -/
structure RaftMessage where
  type : UInt8 := 0
  term : UInt64 := 0
  fromNode : String := ""
  toNode : String := ""
  lastLogIndex : UInt64 := 0
  lastLogTerm : UInt64 := 0
  voteGranted : Bool := false
  prevLogIndex : UInt64 := 0
  prevLogTerm : UInt64 := 0
  entries : List RaftEntry := []
  leaderCommit : UInt64 := 0
  success : Bool := false
  matchIndex : UInt64 := 0
  conflictTerm : UInt64 := 0
  conflictIndex : UInt64 := 0
  deriving DecidableEq

/-- `wireEntry`. -/
structure WireEntry where
  term : UInt64 := 0
  index : UInt64 := 0
  data : Option (List UInt8) := none
  deriving DecidableEq

/-- `wireMessage`. -/
structure WireMessage where
  type : UInt8 := 0
  term : UInt64 := 0
  fromNode : String := ""
  toNode : String := ""
  lastLogIndex : UInt64 := 0
  lastLogTerm : UInt64 := 0
  voteGranted : Bool := false
  prevLogIndex : UInt64 := 0
  prevLogTerm : UInt64 := 0
  entries : List WireEntry := []
  leaderCommit : UInt64 := 0
  success : Bool := false
  matchIndex : UInt64 := 0
  conflictTerm : UInt64 := 0
  conflictIndex : UInt64 := 0

def fromMessage (m : RaftMessage) : WireMessage where
  type := m.type
  term := m.term
  fromNode := m.fromNode
  toNode := m.toNode
  lastLogIndex := m.lastLogIndex
  lastLogTerm := m.lastLogTerm
  voteGranted := m.voteGranted
  prevLogIndex := m.prevLogIndex
  prevLogTerm := m.prevLogTerm
  leaderCommit := m.leaderCommit
  success := m.success
  matchIndex := m.matchIndex
  conflictTerm := m.conflictTerm
  conflictIndex := m.conflictIndex
  entries := m.entries.map fun e => { term := e.term, index := e.index, data := e.data }

def toMessage (w : WireMessage) : RaftMessage where
  type := w.type
  term := w.term
  fromNode := w.fromNode
  toNode := w.toNode
  lastLogIndex := w.lastLogIndex
  lastLogTerm := w.lastLogTerm
  voteGranted := w.voteGranted
  prevLogIndex := w.prevLogIndex
  prevLogTerm := w.prevLogTerm
  leaderCommit := w.leaderCommit
  success := w.success
  matchIndex := w.matchIndex
  conflictTerm := w.conflictTerm
  conflictIndex := w.conflictIndex
  entries := w.entries.map fun e => { term := e.term, index := e.index, data := e.data }

/-! ## `wireEntry` as JSON -/

def entryFields : List (RecordField WireEntry) :=
  [uint64.field "term" (·.term) (fun e v => { e with term := v }),
   uint64.field "index" (·.index) (fun e v => { e with index := v }),
   bytes.field "data" (·.data) (fun e v => { e with data := v })]

def marshalEntry (e : WireEntry) : Json :=
  .object ([("term", uint64.encode e.term)] ++ [("index", uint64.encode e.index)] ++
    [("data", bytes.encode e.data)])

lemma entryFields_names : (entryFields.map fun f => foldName f.name).Nodup := by decide

lemma storeRecord_marshalEntry (old e : WireEntry) :
    storeRecord entryFields old (marshalEntry e) = .ok e := by
  simp only [marshalEntry, storeRecord, storeAll_append]
  rw [storeAll_member entryFields_names 0 rfl, Except.bind,
    storeAll_member entryFields_names 1 rfl, Except.bind,
    storeAll_member entryFields_names 2 rfl]

/-- A `wireEntry` is written with all its fields. -/
def entry : Codec WireEntry where
  encode := marshalEntry
  decode := storeRecord entryFields
  faithful := storeRecord_marshalEntry

/-! ## `wireMessage` as JSON -/

def messageFields : List (RecordField WireMessage) :=
  [uint8.field "type" (·.type) (fun w v => { w with type := v }),
   uint64.field "term" (·.term) (fun w v => { w with term := v }),
   text.field "from" (·.fromNode) (fun w v => { w with fromNode := v }),
   text.field "to" (·.toNode) (fun w v => { w with toNode := v }),
   uint64.field "last_log_index" (·.lastLogIndex) (fun w v => { w with lastLogIndex := v }),
   uint64.field "last_log_term" (·.lastLogTerm) (fun w v => { w with lastLogTerm := v }),
   boolean.field "vote_granted" (·.voteGranted) (fun w v => { w with voteGranted := v }),
   uint64.field "prev_log_index" (·.prevLogIndex) (fun w v => { w with prevLogIndex := v }),
   uint64.field "prev_log_term" (·.prevLogTerm) (fun w v => { w with prevLogTerm := v }),
   (slice entry {}).field "entries" (·.entries) (fun w v => { w with entries := v }),
   uint64.field "leader_commit" (·.leaderCommit) (fun w v => { w with leaderCommit := v }),
   boolean.field "success" (·.success) (fun w v => { w with success := v }),
   uint64.field "match_index" (·.matchIndex) (fun w v => { w with matchIndex := v }),
   uint64.field "conflict_term" (·.conflictTerm) (fun w v => { w with conflictTerm := v }),
   uint64.field "conflict_index" (·.conflictIndex) (fun w v => { w with conflictIndex := v })]

lemma messageFields_names : (messageFields.map fun f => foldName f.name).Nodup := by
  decide

/-- The members of a `wireMessage`, in the order of its fields. -/
def marshalMembers (w : WireMessage) : List (String × Json) :=
  [("type", uint8.encode w.type)] ++
  [("term", uint64.encode w.term)] ++
  [("from", text.encode w.fromNode)] ++
  [("to", text.encode w.toNode)] ++
  omitempty uint64 0 "last_log_index" w.lastLogIndex ++
  omitempty uint64 0 "last_log_term" w.lastLogTerm ++
  omitempty boolean false "vote_granted" w.voteGranted ++
  omitempty uint64 0 "prev_log_index" w.prevLogIndex ++
  omitempty uint64 0 "prev_log_term" w.prevLogTerm ++
  omitempty (slice entry {}) [] "entries" w.entries ++
  omitempty uint64 0 "leader_commit" w.leaderCommit ++
  omitempty boolean false "success" w.success ++
  omitempty uint64 0 "match_index" w.matchIndex ++
  omitempty uint64 0 "conflict_term" w.conflictTerm ++
  omitempty uint64 0 "conflict_index" w.conflictIndex

def marshal (w : WireMessage) : Json := .object (marshalMembers w)

/-! ## `decodeMessage` -/

/-- The kinds of `wireError` that decoding can end in, with what they wrap. -/
inductive DecodeError
  /-- `json.Unmarshal` has failed. -/
  | decode (err : UnmarshalError)
  /-- "type=255 (MsgTick) is internal-only and not wire-visible" -/
  | tick
  /-- "unknown MessageType %d" -/
  | unknownType (type : UInt8)
  deriving DecidableEq

/-- `errKind`. -/
inductive ErrKind
  | badRequest
  | notLeader
  | stopped
  | proposalDropped
  | payloadTooLarge
  | unsupportedMedia
  deriving DecidableEq

/-- The kind of the `wireError`: all of them are bad requests. -/
def DecodeError.kind : DecodeError → ErrKind
  | _ => .badRequest

def ErrKind.httpStatus : ErrKind → ℕ
  | .notLeader => 409
  | .stopped | .proposalDropped => 503
  | .payloadTooLarge => 413
  | .unsupportedMedia => 415
  | .badRequest => 400

def validateWireType (t : UInt8) : Except DecodeError Unit :=
  if t = 0 ∨ t = 1 ∨ t = 2 ∨ t = 3 then .ok ()
  else if t = 255 then .error .tick
  else .error (.unknownType t)

def decodeMessage (body : Json) : Except DecodeError RaftMessage :=
  match storeRecord messageFields {} body with
  | .error err => .error (.decode err)
  | .ok w =>
      match validateWireType w.type with
      | .error err => .error err
      | .ok () => .ok (toMessage w)

end Wire

end ToyRaft
