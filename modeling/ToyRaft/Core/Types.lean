import Mathlib.Data.List.AList
import Mathlib.Data.List.Induction

/-!
# The data model of the consensus core (`pkg/raft/types.go`)

Every exported record of `types.go` is rendered field by field: `Entry`, `Message`,
`HardState` and `Snapshot`.  The scalar types are the source's own up to width: a `NodeID`
is a string, with `""` playing the part of "nobody" exactly as in the source, and the two
counters are natural numbers: a term is Raft's logical clock, an index a 1-based position in
the log with `0` for the sentinel before the first entry.

`MessageType` is an inductive type rather than a byte.  The source dispatches on the byte
and answers an unknown value with an error after the term funnel has already run, so the
unknown values are kept as one constructor carrying the byte.
-/

namespace ToyRaft

/-- A stable, human-readable identifier of a cluster member; `""` is nobody. -/
abbrev NodeID := String

/-- The opaque payload of an entry (`[]byte`). -/
abbrev Data := List UInt8

/-- A Raft server state. -/
inductive Role
  | follower
  | candidate
  | leader
  deriving DecidableEq, Repr

/-- One replicated log record. -/
structure Entry where
  term : ℕ
  index : ℕ
  data : Data
  deriving DecidableEq, Repr

/-- The discriminator of a `Message`.  Wire values `0..3` are the first four constructors,
`tick` is the internal value `255`, and `unknown` is every other byte. -/
inductive MessageType
  | requestVote
  | requestVoteResponse
  | appendEntries
  | appendEntriesResp
  | tick
  | unknown (code : UInt8)
  deriving DecidableEq, Repr

/-- The Raft RPC envelope.  As in the source it is one flat record whose unused fields stay
at their zero value.  `From` and `To` are `fromNode` and `toNode`, `from` being reserved. -/
structure Message where
  type : MessageType
  term : ℕ := 0
  fromNode : NodeID := ""
  toNode : NodeID := ""
  lastLogIndex : ℕ := 0
  lastLogTerm : ℕ := 0
  voteGranted : Bool := false
  prevLogIndex : ℕ := 0
  prevLogTerm : ℕ := 0
  entries : List Entry := []
  leaderCommit : ℕ := 0
  success : Bool := false
  matchIndex : ℕ := 0
  conflictTerm : ℕ := 0
  conflictIndex : ℕ := 0
  deriving DecidableEq, Repr

/-- The durably persisted slice of Raft state. -/
structure HardState where
  currentTerm : ℕ := 0
  votedFor : NodeID := ""
  commit : ℕ := 0
  deriving DecidableEq, Repr

/-- A durable checkpoint of the state machine; index `0` means "no snapshot yet". -/
structure Snapshot where
  index : ℕ := 0
  term : ℕ := 0
  data : Data := []
  deriving DecidableEq, Repr

/-- A Go map from peers to log positions.  Reading an absent key yields the zero value. -/
abbrev PeerMap := AList (fun _ : NodeID => ℕ)

/-- `m[k]`, with Go's zero value for an absent key. -/
def PeerMap.get (m : PeerMap) (k : NodeID) : ℕ := (m.lookup k).getD 0

@[simp] lemma PeerMap.get_insert (m : PeerMap) (k : NodeID) (v : ℕ) :
    PeerMap.get (AList.insert k v m) k = v := by
  simp [PeerMap.get]

lemma PeerMap.get_insert_ne (m : PeerMap) {k k' : NodeID} (v : ℕ) (h : k' ≠ k) :
    PeerMap.get (AList.insert k v m) k' = PeerMap.get m k' := by
  simp [PeerMap.get, AList.lookup_insert_ne h]

/-- Setting the same value for a list of keys. -/
lemma PeerMap.get_foldl_insert (ps : List NodeID) (v : ℕ) (m : PeerMap) {p : NodeID}
    (hp : p ∈ ps) : PeerMap.get (ps.foldl (fun ix q => AList.insert q v ix) m) p = v := by
  induction ps using List.reverseRecOn with
  | nil => cases hp
  | append_singleton ps q ih =>
      rw [List.foldl_append, List.foldl_cons, List.foldl_nil]
      by_cases hpq : p = q
      · rw [hpq, PeerMap.get_insert]
      · rw [PeerMap.get_insert_ne _ _ hpq]
        refine ih ?_
        rcases List.mem_append.mp hp with hp | hp
        · exact hp
        · exact (hpq (List.mem_singleton.mp hp)).elim

lemma PeerMap.mem_foldl_insert (ps : List NodeID) (v : ℕ) (m : PeerMap) {p : NodeID}
    (hp : p ∈ ps.foldl (fun ix q => AList.insert q v ix) m) : p ∈ ps ∨ p ∈ m := by
  induction ps using List.reverseRecOn with
  | nil => exact .inr hp
  | append_singleton ps q ih =>
      rw [List.foldl_append, List.foldl_cons, List.foldl_nil, AList.mem_insert] at hp
      rcases hp with rfl | hp
      · exact .inl (List.mem_append_right _ (List.mem_singleton_self _))
      · exact (ih hp).imp_left (List.mem_append_left _)

end ToyRaft
