import ToyRaft.FileStore.Codec

/-!
# The codecs of the file store

What is read back from an encoding is the value that was written, as long as its variable part
fits the length field.  And nothing else is accepted: bytes that a decoder takes are the encoding
of the value it returns, so it never takes two different byte strings for one value.  Nothing is
used of the checksum but that it is a function of what it covers.
-/

namespace ToyRaft

namespace FileStore

/-- On the byte strings of `domain`, `decode` accepts encodings only, and it reads back every
value for which `fits` holds. -/
structure Exact {α ε : Type} (encode : α → List UInt8) (decode : List UInt8 → Except ε α)
    (fits : α → Prop) (domain : List UInt8 → Prop) : Prop where
  reads : ∀ v, fits v → decode (encode v) = .ok v
  writes : ∀ bs v, domain bs → decode bs = .ok v → bs = encode v
  injective : ∀ bs bs' v, domain bs → domain bs' → decode bs = .ok v → decode bs' = .ok v → bs = bs'

/-- It is enough that accepted byte strings are encodings. -/
lemma exact_of_writes {α ε : Type} {encode : α → List UInt8} {decode : List UInt8 → Except ε α}
    {fits : α → Prop} {domain : List UInt8 → Prop} (reads : ∀ v, fits v → decode (encode v) = .ok v)
    (writes : ∀ bs v, domain bs → decode bs = .ok v → bs = encode v) :
    Exact encode decode fits domain where
  reads := reads
  writes := writes
  injective bs bs' v hbs hbs' h h' := (writes bs v hbs h).trans (writes bs' v hbs' h').symm

/-- `decodeRecord` on the header and the payload of one byte string. -/
def decodeWhole (bs : List UInt8) : Except RecordError Entry :=
  decodeRecord (bs.take recHeaderLen) (bs.drop recHeaderLen)

/-- The numbers are `uint64` values, and the vote has a length of 32 bits. -/
def RawHardState.Fits (hs : RawHardState) : Prop :=
  hs.currentTerm < 2 ^ 64 ∧ hs.commit < 2 ^ 64 ∧ hs.votedFor.length < 2 ^ 32

/-- The numbers are `uint64` values, and the data has a length of 32 bits. -/
def SnapshotFits (snap : Snapshot) : Prop :=
  snap.index < 2 ^ 64 ∧ snap.term < 2 ^ 64 ∧ snap.data.length < 2 ^ 32

lemma exact_record :
    Exact record decodeWhole Fits fun bs => (bs.drop recHeaderLen).length < 2 ^ 32 := by
  refine exact_of_writes (fun e he => ?_) fun bs e hbs h => ?_
  · rw [decodeWhole, record, List.take_left' (length_recHeader _),
      List.drop_left' (length_recHeader _)]
    exact decodeRecord_encode he
  · have hlong : recHeaderLen ≤ bs.length := by
      by_contra hshort
      rw [decodeWhole, decodeRecord, if_pos (by rw [List.length_take]; omega)] at h
      cases h
    have hhdr : (bs.take recHeaderLen).length = recHeaderLen := by
      rw [List.length_take, min_eq_left hlong]
    obtain ⟨hhdr', hpay⟩ := decodeRecord_eq_ok hhdr hbs h
    rw [record, ← hhdr', ← hpay, List.take_append_drop]

lemma exact_hardState : Exact encodeHardState decodeHardState RawHardState.Fits fun _ => True := by
  refine exact_of_writes (fun hs hfits => ?_) fun bs hs _ h => ?_
  · obtain ⟨hterm, hcommit, hvote⟩ := hfits
    rw [decodeHardState, encodeHardState, decodeFrame_encodeFrame, if_pos hvote,
      Nat.mod_eq_of_lt hterm, Nat.mod_eq_of_lt hcommit]
    rfl
  · rw [decodeHardState] at h
    cases hframe : decodeFrame bs with
    | error err =>
        rw [hframe] at h
        cases h
    | ok r =>
        rw [hframe] at h
        cases h
        exact decodeFrame_eq_ok hframe

lemma exact_snapshot : Exact encodeSnapshot decodeSnapshot SnapshotFits fun _ => True := by
  refine exact_of_writes (fun snap hfits => ?_) fun bs snap _ h => ?_
  · obtain ⟨hindex, hterm, hdata⟩ := hfits
    rw [decodeSnapshot, encodeSnapshot, decodeFrame_encodeFrame, if_pos hdata,
      Nat.mod_eq_of_lt hindex, Nat.mod_eq_of_lt hterm]
    rfl
  · rw [decodeSnapshot] at h
    cases hframe : decodeFrame bs with
    | error err =>
        rw [hframe] at h
        cases h
    | ok r =>
        rw [hframe] at h
        cases h
        exact decodeFrame_eq_ok hframe

/-- Records, hard states and snapshots are read back as they were written, and nothing but what
was written is accepted. -/
theorem codecs_exact :
    (Exact record decodeWhole Fits fun bs => (bs.drop recHeaderLen).length < 2 ^ 32) ∧
      (Exact encodeHardState decodeHardState RawHardState.Fits fun _ => True) ∧
      Exact encodeSnapshot decodeSnapshot SnapshotFits fun _ => True :=
  ⟨exact_record, exact_hardState, exact_snapshot⟩

end FileStore

end ToyRaft
