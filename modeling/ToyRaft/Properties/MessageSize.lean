import Mathlib.Algebra.Order.BigOperators.Group.List
import ToyRaft.Daemon.KvHandler
import ToyRaft.Properties.LogShape
import ToyRaft.Transport.Server

/-!
# The length of an `AppendEntries`

`sendAppendEntriesLocked` sends all of the log from the peer's `nextIndex` on, and nothing bounds
how much that is.  The length of the body is told by the state it is built from
(`size_appendEntriesFor`): a fixed part, and for each outstanding entry its numbers in decimal and
four bytes for every three of its data.  The peers take a message exactly if this is within the
limit (`appendEntries_accepted`), so the limit bounds how far a peer may be behind
(`not_413_of_lag`).  Five values of the largest size that the service takes are
enough to pass it (`appendEntries_too_large`), and as the peer refuses the message its `nextIndex`
stays where it is.
-/

namespace ToyRaft

namespace Wire

open Json

/-- The decimal digits of a 64-bit number. -/
def uintSize (n : ℕ) : ℕ := (Nat.toDigits 10 (n % 2 ^ 64)).length

/-- What a number takes that is left out when it is zero. -/
def omitSize (name : String) (n : ℕ) : ℕ :=
  if n % 2 ^ 64 = 0 then 0 else nameSize name + 2 + uintSize n

/-- What an entry takes in the list. -/
def entrySize (e : Entry) : ℕ :=
  28 + uintSize e.term + uintSize e.index + 4 * ((e.data.length + 2) / 3)

/-- What a list of entries takes; it is left out when it is empty. -/
def entriesSize (es : List Entry) : ℕ :=
  if es = [] then 0 else 12 + (es.map fun e => entrySize e + 1).sum

lemma size_uint64 (n : ℕ) : size (uint64.encode (.ofNat n)) = uintSize n := by
  show size (nat (UInt64.ofNat n).toNat) = _
  rw [size_nat, UInt64.toNat_ofNat', uintSize]

lemma membersSize_omitempty (name : String) (n : ℕ) :
    membersSize (omitempty uint64 0 name (.ofNat n)) = omitSize name n := by
  have hzero : UInt64.ofNat n = 0 ↔ n % 2 ^ 64 = 0 := by
    rw [← UInt64.toNat_inj, UInt64.toNat_ofNat']
    rfl
  unfold omitempty omitSize
  by_cases h : n % 2 ^ 64 = 0
  · rw [if_pos (hzero.mpr h), if_pos h]
    rfl
  · rw [if_neg fun h' => h (hzero.mp h'), if_neg h, membersSize_singleton, size_uint64]

lemma nameSizes : nameSize "type" = 6 ∧ nameSize "term" = 6 ∧ nameSize "from" = 6 ∧
    nameSize "to" = 4 ∧ nameSize "index" = 7 ∧ nameSize "data" = 6 ∧ nameSize "entries" = 9 ∧
    nameSize "k" = 3 ∧ size (uint8.encode MessageType.appendEntries.code) = 1 ∧
    ∀ index ∈ List.range' 1 5, uintSize index = 1 := by
  decide

/-- An entry of the core model on the wire. -/
def wireEntryOf (e : Entry) : WireEntry where
  term := .ofNat e.term
  index := .ofNat e.index
  data := some e.data

lemma size_marshalEntry (e : Entry) : size (marshalEntry (wireEntryOf e)) = entrySize e := by
  obtain ⟨-, hterm, -, -, hindex, hdata, -⟩ := nameSizes
  rw [marshalEntry, wireEntryOf, size_object (by simp)]
  rw [membersSize_append, membersSize_append, membersSize_singleton, membersSize_singleton,
    membersSize_singleton, size_uint64, size_uint64, size_bytes, entrySize, hterm, hindex, hdata]
  omega

lemma membersSize_entries (es : List Entry) :
    membersSize (omitempty (slice entry {}) [] "entries" (es.map wireEntryOf)) =
      entriesSize es := by
  unfold omitempty entriesSize
  by_cases h : es = []
  · subst h
    rfl
  · have hmap : es.map wireEntryOf ≠ [] := by simpa using h
    rw [if_neg hmap, if_neg h, membersSize_singleton]
    show nameSize "entries" + 2 + size (.array ((es.map wireEntryOf).map marshalEntry)) = _
    have hsum : es.map (((fun x => size x + 1) ∘ marshalEntry) ∘ wireEntryOf) =
        es.map fun e => entrySize e + 1 :=
      List.map_congr_left fun e _ => congrArg (· + 1) (size_marshalEntry e)
    obtain ⟨-, -, -, -, -, -, hname, -⟩ := nameSizes
    rw [size_array (by simpa using h), List.map_map, List.map_map, hsum, hname]
    omega

/-- What the `AppendEntries` takes that is built for `peer` in this state: the numbers and names
of the envelope, and the entries from `nextIndex` on. -/
def appendSize (n : Node) (peer : NodeID) : ℕ :=
  let next := n.nextIndex.get peer
  let prevIndex := Node.prevIndexOf next
  32 + uintSize n.currentTerm + nameSize n.id + nameSize peer +
    omitSize "prev_log_index" prevIndex + omitSize "prev_log_term" (n.log.term prevIndex).1 +
    entriesSize (n.log.entriesFrom next) + omitSize "leader_commit" n.commitIndex

/-- The body of an `AppendEntries` is as long as its state says. -/
theorem size_appendEntriesFor (n : Node) (peer : NodeID) :
    size (bodyOf (n.appendEntriesFor peer)) = appendSize n peer := by
  have hentries : ∀ es : List Entry, (es.map ofEntry).map
      (fun e => ({ term := e.term, index := e.index, data := e.data } : WireEntry)) =
      es.map wireEntryOf := fun es => List.map_map
  rw [bodyOf, marshal, size_object (by simp [marshalMembers])]
  obtain ⟨hnameType, hnameTerm, hnameFrom, hnameTo, -, -, -, -, htype, -⟩ := nameSizes
  have hzero : ∀ name, omitSize name 0 = 0 := fun _ => rfl
  have hfalse : ∀ name, membersSize (omitempty boolean false name false) = 0 := fun _ => rfl
  have hid : size (text.encode n.id) = nameSize n.id := rfl
  have hpeer : size (text.encode peer) = nameSize peer := rfl
  simp only [marshalMembers, membersSize_append, membersSize_singleton, hentries,
    membersSize_entries, fromMessage, ofMessage, Node.appendEntriesFor, membersSize_omitempty,
    size_uint64, htype, hzero, hfalse, hid, hpeer, hnameType, hnameTerm, hnameFrom, hnameTo,
    appendSize]
  omega

lemma entriesSize_le (n : Node) (peer : NodeID) :
    entriesSize (n.appendEntriesFor peer).entries ≤ size (bodyOf (n.appendEntriesFor peer)) := by
  rw [size_appendEntriesFor, appendSize]
  show entriesSize (n.log.entriesFrom (n.nextIndex.get peer)) ≤ _
  omega

lemma size_queued {ρ : Type} (C : Cluster) (ev : ℕ → Event ρ) {t : ℕ} {i : NodeID} {x : Message}
    (hx : x ∈ C.queued ev t i) (ht : x.type = .appendEntries) :
    ∃ n : Node, n = { C.node ev (t + 1) i with commitIndex := x.leaderCommit } ∧
      x = n.appendEntriesFor x.toNode ∧ size (bodyOf x) = appendSize n x.toNode := by
  obtain ⟨-, m, -, hsp⟩ := Cluster.spokenAt_of_queued hx
  obtain ⟨p, -, c, -, -, heq⟩ := hsp.of_appendEntries ht
  have hbuilt : x = ({ C.node ev (t + 1) i with commitIndex := c } : Node).appendEntriesFor p :=
    heq
  rw [hbuilt]
  exact ⟨_, rfl, rfl, size_appendEntriesFor _ p⟩

/-- **What the leader sends is accepted as long as it fits.**  In every run, on every node, an
`AppendEntries` that is queued at moment `t` is within the default limit, and `handleMessage`
does not answer it with 413, exactly if `appendSize` is within the limit in the state it is built
from: that of the leader at the end of the step, with the commit index that it had by then. -/
theorem appendEntries_accepted {ρ : Type} (C : Cluster) (ev : ℕ → Event ρ) {t : ℕ} {i : NodeID}
    {x : Message} (hx : x ∈ C.queued ev t i) (ht : x.type = .appendEntries) :
    (size (bodyOf x) ≤ defaultMaxBodyBytes ∧
        ∀ step, handleMessage defaultMaxBodyBytes true step (bodyOf x) ≠ 413) ↔
      appendSize { C.node ev (t + 1) i with commitIndex := x.leaderCommit } x.toNode ≤
        defaultMaxBodyBytes := by
  obtain ⟨n, hn, -, hsize⟩ := size_queued C ev hx ht
  rw [← hn]
  constructor
  · rintro ⟨hle, -⟩
    rwa [← hsize]
  · intro hle
    rw [← hsize] at hle
    refine ⟨hle, fun step h => ?_⟩
    exact absurd ((handleMessage_eq_413_iff _ step _).mp h) (Nat.not_lt.mpr hle)

/-- What a `PUT` of a single byte proposes. -/
def onePut : Data := Kvsm.Op.marshal { kind := "set", key := [107], value := some [1] }

/-- The message that carries the first `PUT` a leader takes. -/
def firstPut : Message :=
  { type := .appendEntries
    term := 1
    fromNode := "a"
    toNode := "b"
    entries := [⟨1, 1, onePut⟩] }

theorem appendEntries_accepted_firstPut :
    handleMessage defaultMaxBodyBytes true none (bodyOf firstPut) ≠ 413 := by
  have hiff := appendEntries_accepted Cluster.trio (Machine.schedule Cluster.idle
    (Cluster.elect 1 "a" "b" 0 0 ++ Cluster.propose "a" onePut))
    (t := 16) (i := "a") (x := firstPut) (by decide +kernel) rfl
  exact (hiff.mpr (by decide +kernel)).2 none

/-! ## How far a peer may be behind -/

lemma uintSize_le (n : ℕ) : uintSize n ≤ 20 := by
  rw [uintSize, Nat.length_toDigits_le_iff (by decide) (by decide)]
  exact (Nat.mod_lt _ (by decide)).trans (by decide)

lemma omitSize_le (name : String) (n : ℕ) : omitSize name n ≤ nameSize name + 22 := by
  have hle := uintSize_le n
  unfold omitSize
  split_ifs <;> omega

lemma entriesSize_le_of_lag {es : List Entry} {lag len : ℕ} (hlag : es.length ≤ lag)
    (hlen : ∀ e ∈ es, e.data.length ≤ len) :
    entriesSize es ≤ 12 + lag * (69 + 4 * ((len + 2) / 3)) := by
  have hentry : ∀ e ∈ es, entrySize e + 1 ≤ 69 + 4 * ((len + 2) / 3) := by
    intro e he
    have hdata := Nat.div_le_div_right (c := 3) (Nat.add_le_add_right (hlen e he) 2)
    have hterm := uintSize_le e.term
    have hindex := uintSize_le e.index
    unfold entrySize
    omega
  have hsum : (es.map fun e => entrySize e + 1).sum ≤ es.length * (69 + 4 * ((len + 2) / 3)) := by
    have hle := List.sum_le_card_nsmul (es.map fun e => entrySize e + 1) _
      (by simpa using hentry)
    rwa [List.length_map, Nat.nsmul_eq_mul] at hle
  unfold entriesSize
  split_ifs
  · exact Nat.zero_le _
  · exact Nat.add_le_add_left (hsum.trans (Nat.mul_le_mul_right _ hlag)) 12

/-- A peer that is at most `lag` entries behind, of at most `len` bytes each, is sent a message
that it takes if `lag` times the length of such an entry is within the limit. -/
theorem not_413_of_lag {ρ : Type} (C : Cluster) (ev : ℕ → Event ρ) {t : ℕ} {i : NodeID}
    (hi : i ∈ C.peers) {x : Message} (hx : x ∈ C.queued ev t i) (ht : x.type = .appendEntries)
    {lag len : ℕ} (hlag : x.entries.length ≤ lag) (hlen : ∀ e ∈ x.entries, e.data.length ≤ len)
    (hfit : 176 + nameSize i + nameSize x.toNode + lag * (69 + 4 * ((len + 2) / 3)) ≤
      defaultMaxBodyBytes) :
    ∀ step, handleMessage defaultMaxBodyBytes true step (bodyOf x) ≠ 413 := by
  obtain ⟨n, hn, hbuilt, hsize⟩ := size_queued C ev hx ht
  have hid : n.id = i := by
    rw [hn]
    exact C.node_id ev hi (t + 1)
  have hentries : entriesSize (n.log.entriesFrom (n.nextIndex.get x.toNode)) ≤
      12 + lag * (69 + 4 * ((len + 2) / 3)) := by
    rw [hbuilt] at hlag hlen
    exact entriesSize_le_of_lag hlag hlen
  have hnames : nameSize "prev_log_index" = 16 ∧ nameSize "prev_log_term" = 15 ∧
      nameSize "leader_commit" = 15 := by
    decide
  intro step h
  have hlong := (handleMessage_eq_413_iff _ step _).mp h
  rw [hsize, appendSize, hid] at hlong
  have hterm := uintSize_le n.currentTerm
  have hprev := omitSize_le "prev_log_index" (Node.prevIndexOf (n.nextIndex.get x.toNode))
  have hprevTerm := omitSize_le "prev_log_term"
    (n.log.term (Node.prevIndexOf (n.nextIndex.get x.toNode))).1
  have hcommit := omitSize_le "leader_commit" n.commitIndex
  rw [hnames.1] at hprev
  rw [hnames.2.1] at hprevTerm
  rw [hnames.2.2] at hcommit
  omega

-- four commands of the largest size that a `PUT` of key "k" proposes
example : 176 + 3 + 3 + 4 * (69 + 4 * ((1398137 + 2) / 3)) ≤ defaultMaxBodyBytes := by decide

/-! ## Five large values -/

/-- A `PUT /kv/k` with a value of the largest size. -/
def largestPut : Kv.Request where
  path := utf8 "/kv/k".toList
  key := [107]
  body := List.replicate Kv.maxValueBytes 0

/-- What it proposes. -/
def largestOp : Kvsm.Op Data where
  kind := "set"
  key := [107]
  value := some (List.replicate Kv.maxValueBytes 0)

def largestCommand : Data := largestOp.marshal

lemma handlePut_largest (h : Kv.Handler) (hrole : h.role = .leader) :
    h.handlePut largestPut = h.proposeOp largestPut largestOp := by
  have hlen : largestPut.body.length = Kv.maxValueBytes := List.length_replicate
  rw [Kv.Handler.handlePut, Kv.Handler.leaderGate, if_pos hrole]
  dsimp only
  rw [hlen, if_neg (lt_irrefl _)]
  rfl

/-- The length of the command of a `PUT`: its key, and four bytes for every three of its value. -/
lemma length_marshal_put (key : String) {body : List UInt8} (hbody : body ≠ []) :
    (Kvsm.Op.marshal { kind := "set", key := utf8 key.toList, value := some body }).length =
      30 + nameSize key + 4 * ((body.length + 2) / 3) := by
  obtain ⟨hop, hkey, hvalue, hset⟩ : nameSize "op" = 4 ∧ nameSize "key" = 5 ∧
      nameSize "value" = 7 ∧ size (text.encode "set") = 5 := by
    decide
  have hsome : (some body).getD [] ≠ [] := hbody
  rw [Kvsm.Op.marshal_of_utf8 rfl]
  show size (Kvsm.marshalOp _) = _
  rw [Kvsm.marshalOp]
  dsimp only
  rw [if_neg hsome, size_object (by simp), membersSize_append, membersSize_append,
    membersSize_singleton, membersSize_singleton, membersSize_singleton, size_bytes, hset, hop,
    hkey, hvalue, show size (text.encode key) = nameSize key from rfl]
  omega

lemma length_largestCommand : largestCommand.length = 1398137 := by
  have hbody : List.replicate Kv.maxValueBytes (0 : UInt8) ≠ [] := by
    rw [Ne, List.replicate_eq_nil_iff]
    decide
  obtain ⟨-, -, -, -, -, -, -, hkey, -⟩ := nameSizes
  have hlen := length_marshal_put "k" hbody
  rw [List.length_replicate, Kv.maxValueBytes, hkey] at hlen
  exact hlen

lemma entrySize_largest (index : ℕ) (h : uintSize index = 1) :
    entrySize ⟨1, index, largestCommand⟩ = 1864214 := by
  obtain ⟨-, -, -, -, -, -, -, -, -, hdigits⟩ := nameSizes
  rw [entrySize, h, length_largestCommand, hdigits 1 (by decide)]

/-- Node "a" is elected by "b" and takes five such values; nothing of them reaches "b". -/
def fiveValues : List (Event Unit) :=
  Cluster.elect 1 "a" "b" 0 0 ++ List.replicate 5 ⟨"a", .propose largestCommand {}⟩

/-- The message that carries all five. -/
def fiveAtOnce : Message :=
  { type := .appendEntries
    term := 1
    fromNode := "a"
    toNode := "b"
    entries := (List.range' 1 5).map fun index => ⟨1, index, largestCommand⟩ }

lemma fiveAtOnce_built :
    (Cluster.node Cluster.trio (Machine.schedule Cluster.idle fiveValues) 21 "a").appendEntriesFor
      "b" = fiveAtOnce := by
  rfl

lemma fiveAtOnce_queued :
    fiveAtOnce ∈ Cluster.queued Cluster.trio (Machine.schedule Cluster.idle fiveValues) 20 "a" := by
  have h : Cluster.queued Cluster.trio (Machine.schedule Cluster.idle fiveValues) 20 "a" =
      [fiveAtOnce, { fiveAtOnce with toNode := "c" }] := by
    rfl
  rw [h]
  exact List.mem_cons_self

lemma entriesSize_five : entriesSize fiveAtOnce.entries = 9321087 := by
  obtain ⟨-, -, -, -, -, -, -, -, -, hdigits⟩ := nameSizes
  have hall : ∀ e ∈ fiveAtOnce.entries, entrySize e + 1 = 1864215 := by
    intro e he
    obtain ⟨index, hindex, rfl⟩ := List.mem_map.mp he
    rw [entrySize_largest index (hdigits index hindex)]
  have hlen : fiveAtOnce.entries.length = 5 := rfl
  have hne : fiveAtOnce.entries ≠ [] := List.ne_nil_of_length_eq_add_one hlen
  rw [entriesSize, if_neg hne, List.map_congr_left hall, List.map_const', hlen,
    List.sum_replicate]
  rfl

/-- Each of the five values is one that the service takes, and the entry of one of them fits
easily; the message with all five is queued, is too long, and is refused. -/
theorem appendEntries_too_large :
    (∀ h : Kv.Handler, h.role = .leader →
        h.handlePut largestPut = h.proposeOp largestPut largestOp) ∧
      4 * entrySize ⟨1, 1, largestCommand⟩ ≤ defaultMaxBodyBytes ∧
      fiveAtOnce ∈ Cluster.queued Cluster.trio (Machine.schedule Cluster.idle fiveValues) 20 "a" ∧
      defaultMaxBodyBytes < size (bodyOf fiveAtOnce) ∧
      handleMessage defaultMaxBodyBytes true none (bodyOf fiveAtOnce) = 413 := by
  have hlong : defaultMaxBodyBytes < size (bodyOf fiveAtOnce) := by
    have hle := entriesSize_le
      (Cluster.node Cluster.trio (Machine.schedule Cluster.idle fiveValues) 21 "a") "b"
    rw [fiveAtOnce_built, entriesSize_five] at hle
    exact lt_of_lt_of_le (by decide) hle
  refine ⟨handlePut_largest, ?_, fiveAtOnce_queued, hlong, ?_⟩
  · rw [entrySize_largest 1 (by decide), defaultMaxBodyBytes]
    decide
  · exact (handleMessage_eq_413_iff _ _ _).mpr hlong

end Wire

end ToyRaft
