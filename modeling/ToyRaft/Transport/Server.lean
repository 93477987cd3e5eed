import ToyRaft.Core.Types
import ToyRaft.Framework.JsonText
import ToyRaft.Transport.Wire

/-!
# Messages as request bodies

`Send` posts the JSON text of a message, and `handleMessage` answers it with a status.  The body
is bounded: one that is longer than the limit is refused before it is looked at.
-/

namespace ToyRaft

/-- The byte of a message type. -/
def MessageType.code : MessageType → UInt8
  | .requestVote => 0
  | .requestVoteResponse => 1
  | .appendEntries => 2
  | .appendEntriesResp => 3
  | .tick => 255
  | .unknown code => code

namespace Wire

/-- An entry of the core model as the record of the source.  What is proposed is the text of a
command, which is never nil. -/
def ofEntry (e : Entry) : RaftEntry where
  term := .ofNat e.term
  index := .ofNat e.index
  data := some e.data

/-- A message of the core model as the record of the source. -/
def ofMessage (m : Message) : RaftMessage where
  type := m.type.code
  term := .ofNat m.term
  fromNode := m.fromNode
  toNode := m.toNode
  lastLogIndex := .ofNat m.lastLogIndex
  lastLogTerm := .ofNat m.lastLogTerm
  voteGranted := m.voteGranted
  prevLogIndex := .ofNat m.prevLogIndex
  prevLogTerm := .ofNat m.prevLogTerm
  entries := m.entries.map ofEntry
  leaderCommit := .ofNat m.leaderCommit
  success := m.success
  matchIndex := .ofNat m.matchIndex
  conflictTerm := .ofNat m.conflictTerm
  conflictIndex := .ofNat m.conflictIndex

/-- What `Send` posts for a message. -/
def bodyOf (m : Message) : Json := marshal (fromMessage (ofMessage m))

/-- `defaultMaxBodyBytes`: 8 MiB. -/
def defaultMaxBodyBytes : ℕ := 8 * 2 ^ 20

/-- The errors of `Node.Step` that `statusForError` tells apart. -/
inductive StepFailure
  | notLeader
  | stopped
  | proposalDropped
  | other

def StepFailure.kind : StepFailure → ErrKind
  | .notLeader => .notLeader
  | .stopped => .stopped
  | .proposalDropped => .proposalDropped
  | .other => .badRequest

/-- `handleMessage`, for a body that is JSON: the status it answers with.  `step` is the
registered callback, if there is one. -/
def handleMessage (maxBodyBytes : ℕ) (jsonContentType : Bool)
    (step : Option (RaftMessage → Except StepFailure Unit)) (body : Json) : ℕ :=
  if !jsonContentType then ErrKind.unsupportedMedia.httpStatus
  else if maxBodyBytes < body.size then ErrKind.payloadTooLarge.httpStatus
  else
    match decodeMessage body with
    | .error err => err.kind.httpStatus
    | .ok msg =>
        match step with
        | none => 204
        | some step =>
            match step msg with
            | .error err => err.kind.httpStatus
            | .ok () => 204

/-- A posted body is refused as too large exactly if it is longer than the limit. -/
lemma handleMessage_eq_413_iff (maxBodyBytes : ℕ)
    (step : Option (RaftMessage → Except StepFailure Unit)) (body : Json) :
    handleMessage maxBodyBytes true step body = 413 ↔ maxBodyBytes < body.size := by
  unfold handleMessage
  rw [if_neg (by decide)]
  split_ifs with hlt
  · exact ⟨fun _ => hlt, fun _ => rfl⟩
  · refine ⟨fun h => ?_, fun h => (hlt h).elim⟩
    split at h
    · cases h
    · split at h
      · cases h
      · split at h
        · rename_i err _
          cases err <;> cases h
        · cases h

end Wire

end ToyRaft
