import ToyRaft.Core.Types
import ToyRaft.Framework.JsonText
import ToyRaft.Framework.SortedMap

/-!
# The key-value state machine

`KV` is the map and the index of the last entry that changed it.  `apply` reads an operation from
the data of an entry; data that cannot be read leaves the machine as it is, the index included.
`snapshot` writes the map and the index as JSON, and `restore` reads them back.

The step from bytes to JSON values, `json.Unmarshal`'s scanner, is the parameter `parse`.  What
is modelled is how a value is stored in a record and how a record is written.
-/

namespace ToyRaft

namespace Kvsm

open Json

/-- `kvsm.Op`.  A Go string holds any bytes: the type of the key is `Data` where it comes from a
request, and `String` where it has been through JSON.  A nil value is told from an empty one. -/
structure Op (κ : Type) where
  kind : String := ""
  key : κ
  value : Option (List UInt8) := none
  deriving DecidableEq

def opFields : List (RecordField (Op String)) :=
  [text.field "op" (·.kind) (fun o v => { o with kind := v }),
   text.field "key" (·.key) (fun o v => { o with key := v }),
   bytes.field "value" (·.value) (fun o v => { o with value := v })]

lemma opFields_names : (opFields.map fun f => foldName f.name).Nodup := by decide

/-- The JSON of an operation; an empty value is left out. -/
def marshalOp (op : Op String) : Json :=
  .object ([("op", text.encode op.kind)] ++ [("key", text.encode op.key)] ++
    if op.value.getD [] = [] then [] else [("value", bytes.encode op.value)])

/-- An operation is read back as it was written; no value is nil. -/
lemma storeRecord_marshalOp (op : Op String) :
    storeRecord opFields { key := "" } (marshalOp op) =
      .ok { op with value := if op.value.getD [] = [] then none else op.value } := by
  rw [marshalOp, storeRecord, storeAll_append, storeAll_append,
    storeAll_member opFields_names 0 rfl, Except.bind, storeAll_member opFields_names 1 rfl,
    Except.bind]
  split_ifs
  · rfl
  · rw [storeAll_member opFields_names 2 rfl]

/-- Why `json.Unmarshal` fails: the bytes are not JSON, or the value does not fit the record. -/
inductive DecodeError (ε : Type)
  | text (e : ε)
  | value (e : UnmarshalError)
  deriving DecidableEq

/-- The errors of `Apply`: `kvsm: decode op: %w` and `kvsm: unknown op %q`. -/
inductive ApplyError (ε : Type)
  | decodeOp (e : DecodeError ε)
  | unknownOp (kind : String)
  deriving DecidableEq

structure KV where
  m : SortedMap String (Option (List UInt8)) := .empty
  lastIndex : ℕ := 0
  deriving DecidableEq

/-- `kvSnapshot`; its map can be nil. -/
structure KvSnapshot where
  m : Option (SortedMap String (Option (List UInt8))) := none
  lastIndex : UInt64 := 0

def snapshotFields : List (RecordField KvSnapshot) :=
  [{ name := "m", store := fun s j => (decodeMap bytes none s.m j).map fun m => { s with m := m } },
   uint64.field "last_index" (·.lastIndex) (fun s v => { s with lastIndex := v })]

lemma snapshotFields_names : (snapshotFields.map fun f => foldName f.name).Nodup := by
  decide

def marshalSnapshot (k : KV) : Json :=
  .object ([("m", encodeMap bytes k.m)] ++ [("last_index", nat k.lastIndex)])

/-- `Snapshot`: the blob, and the index it stands for. -/
def KV.snapshot (k : KV) : Data × ℕ := ((marshalSnapshot k).toBytes, k.lastIndex)

section Parser

variable {ε : Type} (parse : Data → Except ε Json)

/-- `json.Unmarshal` into a record that holds `zero`. -/
def unmarshal {σ : Type} (fields : List (RecordField σ)) (zero : σ) (data : Data) :
    Except (DecodeError ε) σ :=
  match parse data with
  | .error e => .error (.text e)
  | .ok j => (storeRecord fields zero j).mapError .value

/-- `Apply`: the result for the proposer, and the machine afterwards. -/
def KV.apply (k : KV) (entry : Entry) :
    Except (ApplyError ε) (Option (List UInt8)) × KV :=
  match unmarshal parse opFields { key := "" } entry.data with
  | .error e => (.error (.decodeOp e), k)
  | .ok op =>
      if op.kind = "set" then
        (.ok op.value, { m := k.m.insert op.key op.value, lastIndex := entry.index })
      else if op.kind = "del" then
        (.ok none, { m := k.m.erase op.key, lastIndex := entry.index })
      else (.error (.unknownOp op.kind), { k with lastIndex := entry.index })

/-- The entries are applied in order: the machine after the last one. -/
def KV.applyAll (k : KV) (es : List Entry) : KV := es.foldl (fun k e => (k.apply parse e).2) k

/-- The results of the entries, one for each. -/
def KV.results : KV → List Entry → List (Except (ApplyError ε) (Option (List UInt8)))
  | _, [] => []
  | k, e :: es => (k.apply parse e).1 :: KV.results (k.apply parse e).2 es

/-- `Restore`, into any machine: no blob is the empty state, and a nil map an empty one. -/
def restore (data : Data) : Except (DecodeError ε) KV :=
  if data = [] then .ok {}
  else (unmarshal parse snapshotFields {} data).map fun snap =>
    { m := snap.m.getD .empty, lastIndex := snap.lastIndex.toNat }

variable {parse}

lemma KV.applyAll_append (k : KV) (es₁ es₂ : List Entry) :
    k.applyAll parse (es₁ ++ es₂) = (k.applyAll parse es₁).applyAll parse es₂ :=
  List.foldl_append

lemma KV.results_append (k : KV) (es₁ es₂ : List Entry) :
    k.results parse (es₁ ++ es₂) =
      k.results parse es₁ ++ (k.applyAll parse es₁).results parse es₂ := by
  induction es₁ generalizing k with
  | nil => rfl
  | cons e es₁ ih => rw [List.cons_append, results, ih]; rfl

lemma KV.length_results (k : KV) (es : List Entry) : (k.results parse es).length = es.length := by
  induction es generalizing k with
  | nil => rfl
  | cons e es ih => rw [results, List.length_cons, ih, List.length_cons]

variable (parse) in
/-- Either the data cannot be read and nothing changes, or the index of the entry is taken. -/
lemma KV.apply_cases (k : KV) (e : Entry) :
    (∃ err, unmarshal parse opFields { key := "" } e.data = .error err ∧ (k.apply parse e).2 = k) ∨
      (k.apply parse e).2.lastIndex = e.index := by
  unfold KV.apply
  split
  · rename_i err herr
    exact .inl ⟨err, herr, rfl⟩
  · right
    split_ifs <;> rfl

/-- Data that cannot be read changes nothing, in any state. -/
lemma KV.apply_of_unreadable (k : KV) {e : Entry} {err : DecodeError ε}
    (h : unmarshal parse opFields { key := "" } e.data = .error err) : (k.apply parse e).2 = k := by
  unfold KV.apply
  rw [h]

end Parser

/-! ## The snapshot and back -/

lemma storeRecord_marshalSnapshot {k : KV} (hk : k.lastIndex < 2 ^ 64) :
    storeRecord snapshotFields {} (marshalSnapshot k) =
      .ok { m := some k.m, lastIndex := .ofNat k.lastIndex } := by
  have hm : fieldFor snapshotFields "m" = some _ :=
    (fieldFor_eq_some_iff snapshotFields_names).mpr ⟨List.mem_cons_self, rfl⟩
  have hnat : nat k.lastIndex = uint64.encode (.ofNat k.lastIndex) := by
    show nat _ = nat _
    rw [UInt64.toNat_ofNat_of_lt' hk]
  rw [marshalSnapshot, storeRecord, storeAll_append, storeAll_cons hm]
  dsimp only
  rw [decodeMap_encodeMap, hnat]
  exact storeAll_member snapshotFields_names 1 rfl _ _

/-- A snapshot is restored, if its text is read as the value it was written from. -/
lemma restore_snapshot {ε : Type} {parse : Data → Except ε Json} {k : KV}
    (hk : k.lastIndex < 2 ^ 64) (hparse : parse k.snapshot.1 = .ok (marshalSnapshot k)) :
    restore parse k.snapshot.1 = .ok k := by
  have hne : k.snapshot.1 ≠ [] := by
    have hsize : 0 < (marshalSnapshot k).size := by
      rw [marshalSnapshot, size_object (by simp)]
      omega
    exact List.ne_nil_of_length_pos hsize
  rw [restore, if_neg hne, unmarshal, hparse]
  dsimp only
  rw [storeRecord_marshalSnapshot hk]
  show Except.ok (KV.mk k.m (UInt64.ofNat k.lastIndex).toNat) = _
  rw [UInt64.toNat_ofNat_of_lt' hk]

end Kvsm

end ToyRaft
