import ToyRaft.Daemon.Kvsm
import ToyRaft.Framework.ServeMux
import ToyRaft.Framework.Utf8

/-!
# The handlers of the client API

A request reaches a handler with the path of its URL and with the key, which is the path value of
`/kv/{key}`.  Both are percent-decoded, so both are any bytes.  Every handler asks `leaderGate`
first: a node that does not lead sends the client to the one it knows to lead, and so does
`propose` when the node steps down in between.

What the node answers is part of the handler's state here: its role and hint when it is asked for
its status, and for each proposal the error and the state machine after it.
-/

namespace ToyRaft

namespace Kvsm

open Json

/-- A string of any bytes in JSON: what is not UTF-8 is replaced, by the escape of U+FFFD. -/
def quoteRaw (bs : Data) : List Char :=
  '"' :: ((runes bs).flatMap fun
    | some c => escapeRune c
    | none => ['\\', 'u', 'f', 'f', 'f', 'd']) ++ ['"']

/-- `json.Marshal` of an operation. -/
def Op.marshal (op : Op Data) : Data :=
  utf8 ('\x7b' :: (quote "op" ++ ':' :: (quote op.kind ++ ',' :: (quote "key" ++ ':' ::
    (quoteRaw op.key ++
      ((if op.value.getD [] = [] then []
        else ',' :: (quote "value" ++ ':' :: render (bytes.encode op.value))) ++
      ['\x7d']))))))

/-- For a key in UTF-8 the text is that of the operation itself. -/
lemma Op.marshal_of_utf8 {op : Op Data} {s : String} (h : op.key = utf8 s.toList) :
    op.marshal = (marshalOp { kind := op.kind, key := s, value := op.value }).toBytes := by
  have hquote : quoteRaw op.key = quote s := by
    rw [quoteRaw, h, runes_utf8, quote, List.flatMap_map]
    rfl
  rw [Op.marshal, hquote, marshalOp]
  by_cases hv : op.value.getD [] = []
  · rw [if_pos hv, if_pos hv]
    rfl
  · rw [if_neg hv, if_neg hv]
    simp [toBytes, render, renderMembers, text]

end Kvsm

namespace Kv

open Json Kvsm

/-- `maxValueBytes`: 1 MiB. -/
def maxValueBytes : ℕ := 2 ^ 20

structure Request where
  path : Data
  key : Data
  body : Data := []

structure Response where
  status : ℕ
  contentType : String := ""
  location : Option Data := none
  leaderHint : Option NodeID := none
  body : Data := []
  deriving DecidableEq

/-- What `Propose` can fail with, as far as `propose` asks. -/
inductive ProposeError
  | notLeader (leaderHint : NodeID)
  | other
  deriving DecidableEq

/-- `kvHandler`, with the answers of its node; a node without a URL has the empty one. -/
structure Handler where
  role : Role
  leaderHint : NodeID
  propose : Data → Option ProposeError × KV
  sm : KV
  clientURLs : NodeID → Data

/-- A JSON error body. -/
def jsonError (status : ℕ) (text : String) : Response where
  status := status
  contentType := "application/json"
  body := utf8 text.toList

def noLeaderKnown : Response :=
  jsonError 503 "\x7b\"error\":\"no_leader_known\",\"leader_hint\":\"\"\x7d"

namespace Handler

variable (h : Handler)

/-- The answer of a node that takes `hint` to lead. -/
def redirect (hint : NodeID) (r : Request) : Response :=
  if hint = "" then noLeaderKnown
  else { status := 307, location := some (h.clientURLs hint ++ r.path), leaderHint := some hint }

/-- `leaderGate`: nothing on the leader. -/
def leaderGate (r : Request) : Option Response :=
  if h.role = .leader then none else some (h.redirect h.leaderHint r)

/-- `propose`: the response, and the state machine afterwards. -/
def proposeOp (r : Request) (op : Op Data) : Response × KV :=
  match h.propose op.marshal with
  | (some (.notLeader hint), sm) => (h.redirect hint r, sm)
  | (some .other, sm) => (jsonError 503 "\x7b\"error\":\"proposal_dropped\"\x7d", sm)
  | (none, sm) => ({ status := 200 }, sm)

def handlePut (r : Request) : Response × KV :=
  match h.leaderGate r with
  | some resp => (resp, h.sm)
  | none =>
      if maxValueBytes < r.body.length then
        (jsonError 413 "\x7b\"error\":\"payload_too_large\"\x7d", h.sm)
      else h.proposeOp r { kind := "set", key := r.key, value := some r.body }

def handleDelete (r : Request) : Response × KV :=
  match h.leaderGate r with
  | some resp => (resp, h.sm)
  | none => h.proposeOp r { kind := "del", key := r.key }

/-- `KV.Get` for any bytes: the keys of the map are strings. -/
def get (key : Data) : Option (Option Data) :=
  (h.sm.m.pairs.find? fun p => decide (utf8 p.1.toList = key)).map (·.2)

def handleGet (r : Request) : Response :=
  match h.leaderGate r with
  | some resp => resp
  | none =>
      match h.get r.key with
      | none => { status := 404 }
      | some v => { status := 200, contentType := "application/octet-stream", body := v.getD [] }

end Handler

/-! ## The routes -/

/-- `/kv/{key}`, for each of the three methods. -/
def kvPattern : List ServeMux.Segment := [.literal (NetUrl.ascii "kv"), .wildcard]

/-- `PathValue("key")` of a request that is routed to `/kv/{key}`. -/
def pathValue (u : NetUrl.Url) : Option Data := (ServeMux.route kvPattern u).bind List.head?

end Kv

end ToyRaft
