import Mathlib.Logic.Function.Iterate
import ToyRaft.Core.Types
import ToyRaft.Framework.LittleEndian

/-!
# What the file store writes (`segment.go`, `hardstate.go`, `snapshot.go`)

A log entry is a record: the length and the checksum of its payload, then the payload, which is
the term, the index and the data.  The hard state and the snapshot are each one frame: a
checksum, two numbers, the length of the rest, and the rest.  All integers are little-endian,
and lengths have 32 bits, so a longer text is written with a length that is not its own.

Reading back what was written gives it again as long as it fits (`decodeRecord_encode`,
`decodeFrame_encode`).
-/

namespace ToyRaft

namespace FileStore

/-! ## The checksum -/

/-- The Castagnoli polynomial, reversed. -/
def castagnoli : UInt32 := 0x82f63b78

def crcShift (c : UInt32) : UInt32 :=
  if c &&& 1 = 1 then (c >>> 1) ^^^ castagnoli else c >>> 1

/-- One entry of `crc32.MakeTable`. -/
def crcTable (b : UInt8) : UInt32 := Nat.iterate crcShift 8 b.toUInt32

/-- `crc32.Checksum`. -/
def checksum (p : List UInt8) : UInt32 :=
  let crc : UInt32 := p.foldl (fun crc v => crcTable (crc.toUInt8 ^^^ v) ^^^ (crc >>> 8)) 0xffffffff
  crc ^^^ 0xffffffff

example : checksum [0x31, 0x32, 0x33, 0x34, 0x35, 0x36, 0x37, 0x38, 0x39] = 0xe3069283 := by
  decide +kernel

lemma leNat_checksum (p : List UInt8) :
    leNat (leBytes 4 (checksum p).toNat) = (checksum p).toNat := by
  rw [leNat_leBytes]
  exact Nat.mod_eq_of_lt (checksum p).toNat_lt

/-! ## Records -/

def recHeaderLen : ℕ := 8

def payloadFixedLen : ℕ := 16

inductive RecordError
  /-- `errShortRecord`. -/
  | shortRecord
  /-- `errShortPayload`. -/
  | shortPayload
  /-- `errBadCRC`. -/
  | badCRC
  deriving DecidableEq, Repr

/-- The payload of a record. -/
def payload (e : Entry) : List UInt8 := leBytes 8 e.term ++ leBytes 8 e.index ++ e.data

/-- The header of a record. -/
def recHeader (p : List UInt8) : List UInt8 :=
  leBytes 4 p.length ++ leBytes 4 (checksum p).toNat

/-- What `encodeRecord` writes, in two calls. -/
def record (e : Entry) : List UInt8 := recHeader (payload e) ++ payload e

/-- `decodeRecord`. -/
def decodeRecord (hdr p : List UInt8) : Except RecordError Entry :=
  if hdr.length < recHeaderLen then .error .shortRecord
  else if p.length % 2 ^ 32 ≠ leNat (hdr.take 4) then .error .shortRecord
  else if p.length < payloadFixedLen then .error .shortPayload
  else if (checksum p).toNat ≠ leNat ((hdr.drop 4).take 4) then .error .badCRC
  else
    .ok
      { term := leNat (p.take 8)
        index := leNat ((p.drop 8).take 8)
        data := p.drop payloadFixedLen }

/-- The entry is a value of the source's types, and its payload has a length of 32 bits. -/
structure Fits (e : Entry) : Prop where
  term : e.term < 2 ^ 64
  index : e.index < 2 ^ 64
  data : payloadFixedLen + e.data.length < 2 ^ 32

instance (e : Entry) : Decidable (Fits e) :=
  decidable_of_iff
    (e.term < 2 ^ 64 ∧ e.index < 2 ^ 64 ∧ payloadFixedLen + e.data.length < 2 ^ 32)
    ⟨fun h => ⟨h.1, h.2.1, h.2.2⟩, fun h => ⟨h.term, h.index, h.data⟩⟩

@[simp] lemma length_payload (e : Entry) :
    (payload e).length = payloadFixedLen + e.data.length := by
  simp only [payload, payloadFixedLen, List.length_append, length_leBytes]

@[simp] lemma length_recHeader (p : List UInt8) : (recHeader p).length = recHeaderLen := by
  simp [recHeader, recHeaderLen]

@[simp] lemma length_record (e : Entry) :
    (record e).length = recHeaderLen + (payloadFixedLen + e.data.length) := by
  rw [record, List.length_append, length_recHeader, length_payload]

lemma take_recHeader (p : List UInt8) : (recHeader p).take 4 = leBytes 4 p.length :=
  List.take_left' (length_leBytes _ _)

lemma drop_recHeader (p : List UInt8) :
    ((recHeader p).drop 4).take 4 = leBytes 4 (checksum p).toNat := by
  rw [recHeader, List.drop_left' (length_leBytes _ _), List.take_of_length_le (by simp)]

lemma leNat_take_recHeader (p : List UInt8) :
    leNat ((recHeader p).take 4) = p.length % 2 ^ 32 := by
  rw [take_recHeader, leNat_leBytes]
  rfl

/-- The length of the payload is compared after it is cut down to 32 bits, so a record is read back
as the entry it was written for, whatever its length is. -/
lemma decodeRecord_payload {e : Entry} (hterm : e.term < 2 ^ 64) (hindex : e.index < 2 ^ 64) :
    decodeRecord (recHeader (payload e)) (payload e) = .ok e := by
  have hterm' : (payload e).take 8 = leBytes 8 e.term := by
    rw [payload, List.append_assoc]
    exact List.take_left' (length_leBytes _ _)
  have hindex' : ((payload e).drop 8).take 8 = leBytes 8 e.index := by
    rw [payload, List.append_assoc, List.drop_left' (length_leBytes _ _)]
    exact List.take_left' (length_leBytes _ _)
  have hdata : (payload e).drop payloadFixedLen = e.data := by
    rw [payload]
    exact List.drop_left' (by simp [payloadFixedLen])
  rw [decodeRecord, if_neg (by simp), leNat_take_recHeader, if_neg (not_not_intro rfl),
    if_neg (by simp), drop_recHeader, leNat_checksum, if_neg (not_not_intro rfl), hterm', hindex',
    hdata, leNat_leBytes, leNat_leBytes]
  have hpow : 256 ^ 8 = 2 ^ 64 := by decide
  rw [hpow, Nat.mod_eq_of_lt hterm, Nat.mod_eq_of_lt hindex]

/-- A record is read back as the entry it was written for. -/
lemma decodeRecord_encode {e : Entry} (h : Fits e) :
    decodeRecord (recHeader (payload e)) (payload e) = .ok e :=
  decodeRecord_payload h.term h.index

/-- The data of an entry is what follows the fixed part of the payload. -/
lemma length_of_decodeRecord {hdr p : List UInt8} {e : Entry} (h : decodeRecord hdr p = .ok e) :
    payloadFixedLen + e.data.length = p.length := by
  unfold decodeRecord at h
  split_ifs at h with _ _ hfixed
  obtain rfl := Except.ok.inj h
  rw [List.length_drop]
  omega

lemma append_take_drop {bs : List UInt8} {m n : ℕ} :
    bs.take m ++ ((bs.drop m).take n ++ bs.drop (m + n)) = bs := by
  rw [← List.drop_drop, List.take_append_drop, List.take_append_drop]

/-- Only records are accepted. -/
lemma decodeRecord_eq_ok {hdr p : List UInt8} {e : Entry} (hhdr : hdr.length = recHeaderLen)
    (hp : p.length < 2 ^ 32) (h : decodeRecord hdr p = .ok e) :
    hdr = recHeader (payload e) ∧ p = payload e := by
  unfold decodeRecord at h
  split_ifs at h with _ hlen hfixed hcrc
  obtain rfl := Except.ok.inj h
  rw [not_not, Nat.mod_eq_of_lt hp] at hlen
  rw [not_not] at hcrc
  rw [recHeaderLen] at hhdr
  rw [not_lt, payloadFixedLen] at hfixed
  have hpay : payload ⟨leNat (p.take 8), leNat ((p.drop 8).take 8), p.drop payloadFixedLen⟩ =
      p := by
    rw [payload, leBytes_leNat (by rw [List.length_take]; omega),
      leBytes_leNat (by rw [List.length_take, List.length_drop]; omega), List.append_assoc]
    exact append_take_drop
  refine ⟨?_, hpay.symm⟩
  rw [hpay, recHeader, hlen, hcrc, leBytes_leNat (by rw [List.length_take]; omega),
    leBytes_leNat (by rw [List.length_take, List.length_drop]; omega)]
  have hwhole : (hdr.drop 4).take 4 = hdr.drop 4 :=
    List.take_of_length_le (by rw [List.length_drop]; omega)
  rw [hwhole, List.take_append_drop]

/-! ## Frames -/

inductive FrameError
  | tooShort
  | crcMismatch
  | badLength
  deriving DecidableEq, Repr

/-- The frame of the hard state and of the snapshot: two numbers and a text, behind their
checksum. -/
def encodeFrame (a b : ℕ) (text : List UInt8) : List UInt8 :=
  let body := leBytes 8 a ++ (leBytes 8 b ++ (leBytes 4 text.length ++ text))
  leBytes 4 (checksum body).toNat ++ body

def decodeFrame (bs : List UInt8) : Except FrameError (ℕ × ℕ × List UInt8) :=
  if bs.length < 4 + 20 then .error .tooShort
  else
    let body := bs.drop 4
    if (checksum body).toNat ≠ leNat (bs.take 4) then .error .crcMismatch
    else if leNat ((body.drop 16).take 4) ≠ body.length - 20 then .error .badLength
    else .ok (leNat (body.take 8), leNat ((body.drop 8).take 8), body.drop 20)

/-- What a frame is read back as: a text that is too long is written with a wrong length. -/
lemma decodeFrame_encodeFrame (a b : ℕ) (text : List UInt8) :
    decodeFrame (encodeFrame a b text) =
      if text.length < 2 ^ 32 then .ok (a % 2 ^ 64, b % 2 ^ 64, text) else .error .badLength := by
  have hbody : (encodeFrame a b text).drop 4 =
      leBytes 8 a ++ (leBytes 8 b ++ (leBytes 4 text.length ++ text)) :=
    List.drop_left' (length_leBytes _ _)
  have hcrc : (encodeFrame a b text).take 4 =
      leBytes 4
        (checksum (leBytes 8 a ++ (leBytes 8 b ++ (leBytes 4 text.length ++ text)))).toNat :=
    List.take_left' (length_leBytes _ _)
  have hlen : ((leBytes 8 a ++ (leBytes 8 b ++ (leBytes 4 text.length ++ text))).drop 16).take 4 =
      leBytes 4 text.length := by
    rw [← List.append_assoc, List.drop_left' (by simp), List.take_left' (by simp)]
  have hlong : ¬ (encodeFrame a b text).length < 4 + 20 := by
    simp only [encodeFrame, List.length_append, length_leBytes]
    omega
  rw [decodeFrame, if_neg hlong, hbody, hcrc, leNat_checksum]
  dsimp only
  rw [if_neg (not_not_intro rfl), hlen, leNat_leBytes]
  have h32 : 256 ^ 4 = 2 ^ 32 := by decide
  have h64 : 256 ^ 8 = 2 ^ 64 := by decide
  have hrest : (leBytes 8 a ++ (leBytes 8 b ++ (leBytes 4 text.length ++ text))).length - 20 =
      text.length := by
    simp only [List.length_append, length_leBytes]
    omega
  rw [h32, hrest]
  by_cases ht : text.length < 2 ^ 32
  · rw [if_pos ht, if_neg (not_not_intro (Nat.mod_eq_of_lt ht)), List.take_left' (by simp),
      List.drop_left' (by simp), List.take_left' (by simp), leNat_leBytes, leNat_leBytes, h64,
      ← List.append_assoc, ← List.append_assoc, List.drop_left' (by simp)]
  · rw [if_neg ht, if_pos]
    intro heq
    have := Nat.mod_lt text.length (show 0 < 2 ^ 32 by decide)
    omega

/-- Only frames are accepted. -/
lemma decodeFrame_eq_ok {bs text : List UInt8} {a b : ℕ} (h : decodeFrame bs = .ok (a, b, text)) :
    bs = encodeFrame a b text := by
  unfold decodeFrame at h
  dsimp only at h
  split_ifs at h with hlong hcrc hlen
  obtain ⟨rfl, rfl, rfl⟩ : leNat ((bs.drop 4).take 8) = a ∧
      leNat (((bs.drop 4).drop 8).take 8) = b ∧ (bs.drop 4).drop 20 = text := by
    simpa only [Except.ok.injEq, Prod.mk.injEq] using h
  rw [not_lt] at hlong
  rw [not_not] at hcrc hlen
  have hbody : leBytes 8 (leNat ((bs.drop 4).take 8)) ++
      (leBytes 8 (leNat (((bs.drop 4).drop 8).take 8)) ++
        (leBytes 4 ((bs.drop 4).drop 20).length ++ (bs.drop 4).drop 20)) = bs.drop 4 := by
    have hrest : ((bs.drop 4).drop 20).length = leNat (((bs.drop 4).drop 16).take 4) := by
      rw [hlen, List.length_drop]
    have hsize : 20 ≤ (bs.drop 4).length := by
      rw [List.length_drop]
      omega
    rw [hrest, leBytes_leNat (by rw [List.length_take]; omega),
      leBytes_leNat (by rw [List.length_take, List.length_drop]; omega),
      leBytes_leNat (by rw [List.length_take, List.length_drop]; omega)]
    have hinner : (((bs.drop 4).drop 16).take 4) ++ (bs.drop 4).drop 20 =
        (bs.drop 4).drop (8 + 8) := by
      rw [show 20 = 16 + 4 from rfl, ← List.drop_drop, List.take_append_drop]
    rw [hinner]
    exact append_take_drop
  rw [encodeFrame, hbody, hcrc, leBytes_leNat (by rw [List.length_take]; omega),
    List.take_append_drop]

/-- A hard state as it is stored.  An identifier is any string of bytes. -/
structure RawHardState where
  currentTerm : ℕ := 0
  votedFor : List UInt8 := []
  commit : ℕ := 0
  deriving DecidableEq, Repr

/-- `encodeHardState`. -/
def encodeHardState (hs : RawHardState) : List UInt8 :=
  encodeFrame hs.currentTerm hs.commit hs.votedFor

/-- `decodeHardState`. -/
def decodeHardState (bs : List UInt8) : Except FrameError RawHardState :=
  (decodeFrame bs).map fun r => { currentTerm := r.1, votedFor := r.2.2, commit := r.2.1 }

/-- `encodeSnapshot`. -/
def encodeSnapshot (snap : Snapshot) : List UInt8 := encodeFrame snap.index snap.term snap.data

/-- `decodeSnapshot`. -/
def decodeSnapshot (bs : List UInt8) : Except FrameError Snapshot :=
  (decodeFrame bs).map fun r => { index := r.1, term := r.2.1, data := r.2.2 }

end FileStore

end ToyRaft
