import Mathlib.Data.List.AList
import ToyRaft.Daemon.Kvsm
import ToyRaft.Framework.Linearizability

/-!
# The model of the linearizability suite

`kvModel` is the register the recorded operations of one key are checked against, and `partition`
cuts a history into the histories of its keys.  `decodeOpEnvelope` is how the adapter reads an
operation from the data a client has proposed.

A Go string holds bytes, so the values are lists of bytes here; keys have been through JSON.
-/

namespace ToyRaft

namespace Kvsm

/-- `kvInput`: `"get"`, `"set"` or `"del"`, and its arguments. -/
structure KvInput where
  op : String
  key : String
  value : List UInt8 := []
  deriving DecidableEq

/-- `kvOutput`. -/
structure KvOutput where
  value : List UInt8 := []
  found : Bool := false
  deriving DecidableEq

abbrev KvOperation := Operation KvInput KvOutput

/-- `Init` and `Step` of `kvModel`: the value of the key, nothing if it is absent. -/
def kvModel : Model (List UInt8) KvInput KvOutput where
  init := []
  step st input output :=
    if input.op = "set" then (true, input.value)
    else if input.op = "del" then (true, [])
    else if input.op = "get" then (decide (output.value = st), st)
    else (false, st)

/-- One turn of the loop of `Partition`: `byKey`, and the keys in the order they were seen in. -/
def partitionOne (acc : AList (fun _ : String => List KvOperation) × List String)
    (op : KvOperation) : AList (fun _ : String => List KvOperation) × List String :=
  let key := op.input.key
  let order := if (acc.1.lookup key).isNone then acc.2 ++ [key] else acc.2
  (acc.1.insert key ((acc.1.lookup key).getD [] ++ [op]), order)

/-- `Partition` of `kvModel`. -/
def partition (history : List KvOperation) : List (List KvOperation) :=
  let acc := history.foldl partitionOne (∅, [])
  acc.2.map fun key => (acc.1.lookup key).getD []

/-- The errors of `decodeOpEnvelope`. -/
inductive EnvelopeError (ε : Type)
  | decode (e : DecodeError ε)
  | missing
  deriving DecidableEq

section Parser

variable {ε : Type} (parse : Data → Except ε Json)

/-- `decodeOpEnvelope`; `opEnvelope` has the fields and tags of `Op`. -/
def decodeOpEnvelope (data : Data) : Except (EnvelopeError ε) KvInput :=
  match unmarshal parse opFields { key := "" } data with
  | .error e => .error (.decode e)
  | .ok env =>
      if env.kind = "" ∨ env.key = "" then .error .missing
      else .ok { op := env.kind, key := env.key, value := env.value.getD [] }

end Parser

/-- `Get`: the value, and whether there is one. -/
def KV.get (k : KV) (key : String) : Option (List UInt8) × Bool :=
  match k.m.lookup key with
  | some v => (v, true)
  | none => (none, false)

end Kvsm

end ToyRaft
