import ToyRaft.Testing.KvModel

/-!
# The oracle of the linearizability suite is the store itself

The suite cuts a history by key and gives each part to a checker, with a register as the model.
What a part has to be is that some order of it respects real time and is one the register allows.
`parts_linearizable_iff_explained` says what that amounts to: some order of all operations, over
all keys, respects real time and is one in which the key-value state machine gives the recorded
answers, executing each write through `Apply` from the data that was proposed and each read
through `Get`.

The register does not tell an absent key from an empty value, and does not look at the `Found` bit
of a read.  That is enough because of the rule the suite sets itself, that no scenario sets an
empty value (`Recorded`).
-/

namespace ToyRaft

namespace Kvsm

/-! ## The parts of a history -/

/-- What the loop of `Partition` has collected from `h`. -/
structure Collects (h : List KvOperation)
    (acc : AList (fun _ : String => List KvOperation) × List String) : Prop where
  byKey : ∀ key, (acc.1.lookup key).getD [] = h.filter (·.input.key = key)
  seen : ∀ key, (acc.1.lookup key).isNone ↔ ∀ o ∈ h, o.input.key ≠ key
  order : ∀ key, key ∈ acc.2 ↔ ∃ o ∈ h, o.input.key = key

lemma Collects.one {h : List KvOperation}
    {acc : AList (fun _ : String => List KvOperation) × List String} (hc : Collects h acc)
    (o : KvOperation) : Collects (h ++ [o]) (partitionOne acc o) := by
  refine ⟨fun key => ?_, fun key => ?_, fun key => ?_⟩
  · rw [List.filter_append, ← hc.byKey key]
    by_cases hkey : o.input.key = key
    · subst hkey
      simp [partitionOne]
    · simp [partitionOne, AList.lookup_insert_ne (Ne.symm hkey), hkey]
  · by_cases hkey : o.input.key = key
    · subst hkey
      simp [partitionOne]
    · have hold := hc.seen key
      simp only [partitionOne, AList.lookup_insert_ne (Ne.symm hkey), hold, List.mem_append,
        List.mem_singleton]
      constructor
      · rintro hall p (hp | rfl)
        · exact hall p hp
        · exact hkey
      · exact fun hall p hp => hall p (.inl hp)
  · have hold := hc.order key
    have hseen := hc.seen o.input.key
    unfold partitionOne
    dsimp only
    split_ifs with hnew
    · simp only [List.mem_append, List.mem_singleton, hold]
      constructor
      · rintro (⟨p, hp, hpk⟩ | rfl)
        · exact ⟨p, .inl hp, hpk⟩
        · exact ⟨o, .inr rfl, rfl⟩
      · rintro ⟨p, hp | rfl, hpk⟩
        · exact .inl ⟨p, hp, hpk⟩
        · exact .inr hpk.symm
    · simp only [List.mem_append, List.mem_singleton, hold]
      rw [hseen] at hnew
      push Not at hnew
      obtain ⟨q, hq, hqk⟩ := hnew
      constructor
      · exact fun ⟨p, hp, hpk⟩ => ⟨p, .inl hp, hpk⟩
      · rintro ⟨p, hp | rfl, hpk⟩
        · exact ⟨p, hp, hpk⟩
        · exact ⟨q, hq, hqk.trans hpk⟩

lemma collects_partition (h : List KvOperation) : Collects h (h.foldl partitionOne (∅, [])) := by
  induction h using List.reverseRecOn with
  | nil => exact ⟨fun _ => rfl, fun _ => by simp, fun _ => by simp⟩
  | append_singleton h o ih =>
      rw [List.foldl_append]
      exact ih.one o

lemma mem_partition (h part : List KvOperation) :
    part ∈ partition h ↔ part ≠ [] ∧ ∃ key, part = h.filter (·.input.key = key) := by
  have hc := collects_partition h
  unfold partition
  simp only [List.mem_map, hc.order, hc.byKey]
  constructor
  · rintro ⟨key, ⟨o, ho, hkey⟩, rfl⟩
    refine ⟨List.ne_nil_of_mem (List.mem_filter.mpr ⟨ho, ?_⟩), key, rfl⟩
    exact decide_eq_true hkey
  · rintro ⟨hne, key, rfl⟩
    obtain ⟨o, ho⟩ := List.exists_mem_of_ne_nil _ hne
    obtain ⟨ho, hkey⟩ := List.mem_filter.mp ho
    exact ⟨key, ⟨o, ho, of_decide_eq_true hkey⟩, rfl⟩

/-! ## The store -/

/-- What a recorded read says that `Get` has returned. -/
def KvOutput.answer (o : KvOutput) : Option (List UInt8) × Bool :=
  (if o.found then some o.value else none, o.found)

section Parser

variable {ε : Type} (parse : Data → Except ε Json)

/-- From the machine `k` the operations get the recorded answers in this order: each write
succeeds, and each read returns the recorded value and bit.  `entry` is the log entry of a
write. -/
def Explains (entry : KvOperation → Entry) : KV → List KvOperation → Prop
  | _, [] => True
  | k, o :: l =>
      if o.input.op = "get" then
        k.get o.input.key = o.output.answer ∧ Explains entry k l
      else (∃ r, (k.apply parse (entry o)).1 = .ok r) ∧
        Explains entry (k.apply parse (entry o)).2 l

/-- A history as the suite records it. -/
structure Recorded (entry : KvOperation → Entry) (ops : List KvOperation) : Prop where
  /-- Operations return after they are called. -/
  time : ∀ o ∈ ops, o.call ≤ o.ret
  /-- The adapter reads the data proposed for a write as the operation that is recorded. -/
  data : ∀ o ∈ ops, o.input.op ≠ "get" → decodeOpEnvelope parse (entry o).data = .ok o.input
  /-- No empty value is set. -/
  filled : ∀ o ∈ ops, o.input.op = "set" → o.input.value ≠ []
  /-- A read has a value just if it has found one. -/
  found : ∀ o ∈ ops, o.input.op = "get" → (o.output.found = true ↔ o.output.value ≠ [])

variable {parse}

lemma Recorded.of_mem {entry : KvOperation → Entry} {ops l : List KvOperation}
    (h : Recorded parse entry ops) (hl : ∀ o ∈ l, o ∈ ops) : Recorded parse entry l where
  time o ho := h.time o (hl o ho)
  data o ho := h.data o (hl o ho)
  filled o ho := h.filled o (hl o ho)
  found o ho := h.found o (hl o ho)

/-- The register of a key. -/
def KV.register (k : KV) (key : String) : List UInt8 := (k.get key).1.getD []

lemma KV.register_eq (k : KV) (key : String) :
    k.register key = ((k.m.lookup key).getD none).getD [] := by
  unfold KV.register KV.get
  cases k.m.lookup key <;> rfl

/-- The values in the map are not empty. -/
def KV.Filled (k : KV) : Prop := ∀ key v, k.m.lookup key = some v → v.getD [] ≠ []

/-- Without empty values the register of a key tells what `Get` returns. -/
lemma KV.Filled.get_eq_iff {k : KV} (hk : k.Filled) (key : String) {o : KvOutput}
    (hfound : o.found = true ↔ o.value ≠ []) :
    k.get key = o.answer ↔ o.value = k.register key := by
  have hempty : o.found = false → o.value = [] := by
    intro hf
    by_contra hne
    rw [hfound.mpr hne] at hf
    cases hf
  rw [KV.register_eq, KV.get, KvOutput.answer]
  cases hl : k.m.lookup key with
  | none =>
      cases hf : o.found with
      | true => simp [hfound.mp hf]
      | false => simp [hempty hf]
  | some v =>
      have hne := hk key v hl
      cases v with
      | none => exact absurd rfl hne
      | some b =>
          cases hf : o.found with
          | true => simp [eq_comm]
          | false =>
              rw [hempty hf]
              simpa [eq_comm] using hne

/-- What the adapter reads from an entry is what `Apply` executes. -/
lemma decodeOpEnvelope_eq_ok {data : Data} {input : KvInput}
    (h : decodeOpEnvelope parse data = .ok input) :
    ∃ op : Op String, unmarshal parse opFields { key := "" } data = .ok op ∧
      input = { op := op.kind, key := op.key, value := op.value.getD [] } := by
  unfold decodeOpEnvelope at h
  cases hun : unmarshal parse opFields { key := "" } data with
  | error err =>
      rw [hun] at h
      cases h
  | ok op =>
      rw [hun] at h
      dsimp only at h
      split_ifs at h
      exact ⟨op, rfl, (Except.ok.inj h).symm⟩

/-- An entry that the adapter reads as a write: `Apply` succeeds exactly where the register
allows it, and changes the register of that key only. -/
lemma KV.apply_register (k : KV) {e : Entry} {input : KvInput} (output : KvOutput)
    (hop : input.op ≠ "get") (hdec : decodeOpEnvelope parse e.data = .ok input) :
    ((∃ r, (k.apply parse e).1 = .ok r) ↔
        (kvModel.step (k.register input.key) input output).1 = true) ∧
      ((k.apply parse e).2.register input.key =
        (kvModel.step (k.register input.key) input output).2) ∧
      ∀ key, key ≠ input.key → (k.apply parse e).2.register key = k.register key := by
  obtain ⟨op, hun, rfl⟩ := decodeOpEnvelope_eq_ok hdec
  dsimp only at hop ⊢
  simp only [KV.apply, hun, kvModel, KV.register_eq]
  by_cases hset : op.kind = "set"
  · refine ⟨by simp [hset], by simp [hset, SortedMap.lookup_insert], fun key hkey => ?_⟩
    simp [hset, SortedMap.lookup_insert, hkey]
  · by_cases hdel : op.kind = "del"
    · refine ⟨by simp [hdel], ?_, fun key hkey => ?_⟩
      · simp [hdel, SortedMap.lookup_erase]
      · simp [hdel, SortedMap.lookup_erase, hkey]
    · refine ⟨by simp [hset, hdel, hop], by simp [hset, hdel, hop], fun key hkey => ?_⟩
      simp [hset, hdel]

lemma KV.Filled.apply {k : KV} (hk : k.Filled) {e : Entry} {input : KvInput}
    (hdec : decodeOpEnvelope parse e.data = .ok input)
    (hvalue : input.op = "set" → input.value ≠ []) : (k.apply parse e).2.Filled := by
  obtain ⟨op, hun, rfl⟩ := decodeOpEnvelope_eq_ok hdec
  intro key v hv
  simp only [KV.apply, hun] at hv
  split_ifs at hv with hset hdel
  · rw [SortedMap.lookup_insert] at hv
    split_ifs at hv
    · obtain rfl := Option.some.inj hv
      exact hvalue hset
    · exact hk key v hv
  · rw [SortedMap.lookup_erase] at hv
    split_ifs at hv
    exact hk key v hv
  · exact hk key v hv

/-- The store explains an order if the register of each key explains what is left of it. -/
lemma explains_iff {entry : KvOperation → Entry} {l : List KvOperation}
    (hrec : Recorded parse entry l) {k : KV} (hk : k.Filled) :
    Explains parse entry k l ↔
      ∀ key, kvModel.Legal (k.register key) (l.filter (·.input.key = key)) := by
  induction l generalizing k with
  | nil => exact ⟨fun _ _ => trivial, fun _ => trivial⟩
  | cons o l ih =>
      have hrest := hrec.of_mem fun p (hp : p ∈ l) => List.mem_cons_of_mem _ hp
      -- the first operation takes the machine to `k'`
      have key_step : ∀ {k' : KV} {P : Prop}, k'.Filled →
          (P ↔ (kvModel.step (k.register o.input.key) o.input o.output).1 = true) →
          k'.register o.input.key =
            (kvModel.step (k.register o.input.key) o.input o.output).2 →
          (∀ key, key ≠ o.input.key → k'.register key = k.register key) →
          (P ∧ Explains parse entry k' l ↔ ∀ key,
            kvModel.Legal (k.register key) ((o :: l).filter (·.input.key = key))) := by
        intro k' P hk' hP hmine hother
        rw [hP, ih hrest hk']
        constructor
        · rintro ⟨hlegal, hl⟩ key
          have hkl := hl key
          by_cases hkey : o.input.key = key
          · subst hkey
            rw [List.filter_cons_of_pos (by simp)]
            rw [hmine] at hkl
            exact ⟨hlegal, hkl⟩
          · rw [List.filter_cons_of_neg (by simpa using hkey)]
            rwa [hother key (Ne.symm hkey)] at hkl
        · intro hall
          have hfirst := hall o.input.key
          rw [List.filter_cons_of_pos (by simp)] at hfirst
          refine ⟨hfirst.1, fun key => ?_⟩
          by_cases hkey : o.input.key = key
          · subst hkey
            rw [hmine]
            exact hfirst.2
          · have hkl := hall key
            rw [List.filter_cons_of_neg (by simpa using hkey)] at hkl
            rwa [hother key (Ne.symm hkey)]
      unfold Explains
      split_ifs with hget
      · refine key_step hk ?_ ?_ fun _ _ => rfl
        · rw [hk.get_eq_iff _ (hrec.found o List.mem_cons_self hget)]
          simp [kvModel, hget]
        · simp [kvModel, hget]
      · have hdec := hrec.data o List.mem_cons_self hget
        obtain ⟨hok, hmine, hother⟩ := k.apply_register o.output hget hdec
        exact key_step (hk.apply hdec (hrec.filled o List.mem_cons_self)) hok hmine hother

/-- **The oracle is exact.**  For a recorded history: each part that `Partition` cuts it into has
an order that respects real time and that the register allows, if and only if some order of all
operations respects real time and is one in which the key-value state machine gives every
recorded answer. -/
theorem parts_linearizable_iff_explained {entry : KvOperation → Entry} {ops : List KvOperation}
    (hrec : Recorded parse entry ops) :
    (∀ part ∈ partition ops, kvModel.Linearizable part) ↔
      ∃ l : List KvOperation, l.Perm ops ∧ RealTime Operation.call Operation.ret l ∧
        Explains parse entry {} l := by
  rw [kvModel.linearizable_parts_iff (fun o => o.input.key) (mem_partition ops) hrec.time]
  refine exists_congr fun l => and_congr_right fun hl => and_congr_right fun _ => ?_
  have hempty : ({} : KV).Filled := fun key v hv => by cases hv
  exact (explains_iff (hrec.of_mem fun o ho => hl.mem_iff.mp ho) hempty).symm

end Parser

/-- A write of `x` that takes its time, a read of `x` meanwhile, and then a write and a read
of `y`. -/
def steadyState : List KvOperation :=
  [⟨1, ⟨"set", "x", [1]⟩, 10, {}, 40⟩, ⟨2, ⟨"get", "x", []⟩, 20, ⟨[1], true⟩, 30⟩,
    ⟨2, ⟨"set", "y", [2]⟩, 50, {}, 60⟩, ⟨1, ⟨"get", "y", []⟩, 65, ⟨[2], true⟩, 75⟩]

/-- The JSON of a write. -/
def steadyOp (o : KvOperation) : Json :=
  marshalOp { kind := o.input.op, key := o.input.key, value := some o.input.value }

/-- A write as it is proposed. -/
def steadyEntry (o : KvOperation) : Entry := ⟨1, 1, (steadyOp o).toBytes⟩

/-- A reader that knows the texts of these writes, and fails on everything else. -/
def steadyParse (data : Data) : Except Unit Json :=
  ((steadyState.map steadyOp).find? fun j => decide (j.toBytes = data)).elim (.error ()) .ok

theorem parts_linearizable_iff_explained_steadyState :
    (partition steadyState).length = 2 ∧
      ∀ part ∈ partition steadyState, kvModel.Linearizable part := by
  have hrec : Recorded steadyParse steadyEntry steadyState :=
    ⟨by decide, by decide +kernel, by decide, by decide⟩
  refine ⟨rfl, (parts_linearizable_iff_explained hrec).mpr ⟨steadyState, .refl _, ?_, ?_⟩⟩
  · unfold RealTime
    decide
  · simp only [steadyState, Explains, reduceIte, String.reduceEq]
    exact ⟨⟨some [1], by decide +kernel⟩, by decide +kernel, ⟨some [2], by decide +kernel⟩,
      by decide +kernel, trivial⟩

end Kvsm

end ToyRaft
