import ToyRaft.Transport.Wire

/-!
# The wire round trip

What a message is written as is read back as that message (`decodeMessage_marshal`), members of
no known field change nothing (`decodeMessage_extends`), and a body whose type is not one of the
four wire-visible ones is refused (`decodeMessage_type`).

The type of a body is the last member, other than `null`, that goes to the field `type`; its name
may differ from `type` in case.  An earlier member counts for nothing, so that a body may show a
`type` that is out of range and still be accepted (`earlier_type_accepted`).
-/

namespace ToyRaft

namespace Wire

open Json

/-! ## Reading back what was written -/

lemma toMessage_fromMessage (m : RaftMessage) : toMessage (fromMessage m) = m := by
  simp only [toMessage, fromMessage, List.map_map]
  congr
  exact List.map_id _

/-- Member after member, each field is set to what was written; a field that was left out is zero
in the record so far. -/
lemma storeRecord_marshal (w : WireMessage) :
    storeRecord messageFields {} (marshal w) = .ok w := by
  obtain ⟨t, tm, f, g, li, lt, vg, pi, pt, es, lc, su, mi, ct, ci⟩ := w
  simp only [marshal, marshalMembers, storeRecord, storeAll_append, Except.bind,
    storeAll_member messageFields_names 0 rfl,
    storeAll_member messageFields_names 1 rfl,
    storeAll_member messageFields_names 2 rfl,
    storeAll_member messageFields_names 3 rfl,
    storeAll_omitempty (c := uint64) messageFields_names 4 rfl,
    storeAll_omitempty (c := uint64) messageFields_names 5 rfl,
    storeAll_omitempty (c := boolean) messageFields_names 6 rfl,
    storeAll_omitempty (c := uint64) messageFields_names 7 rfl,
    storeAll_omitempty (c := uint64) messageFields_names 8 rfl,
    storeAll_omitempty (c := slice entry {}) messageFields_names 9 rfl,
    storeAll_omitempty (c := uint64) messageFields_names 10 rfl,
    storeAll_omitempty (c := boolean) messageFields_names 11 rfl,
    storeAll_omitempty (c := uint64) messageFields_names 12 rfl,
    storeAll_omitempty (c := uint64) messageFields_names 13 rfl,
    storeAll_omitempty (c := uint64) messageFields_names 14 rfl]

lemma validateWireType_eq_ok_iff (t : UInt8) : validateWireType t = .ok () ↔ t ≤ 3 := by
  have hcases : t = 0 ∨ t = 1 ∨ t = 2 ∨ t = 3 ↔ t ≤ 3 := by
    simp only [← UInt8.toNat_inj, UInt8.le_iff_toNat_le]
    show t.toNat = 0 ∨ t.toNat = 1 ∨ t.toNat = 2 ∨ t.toNat = 3 ↔ t.toNat ≤ 3
    omega
  unfold validateWireType
  rw [← hcases]
  split_ifs with h h'
  · simp [h]
  · simp [h]
  · simp [h]

lemma decodeMessage_marshal {m : RaftMessage} (hm : m.type ≤ 3) :
    decodeMessage (marshal (fromMessage m)) = .ok m := by
  have htype : validateWireType (fromMessage m).type = .ok () :=
    (validateWireType_eq_ok_iff m.type).mpr hm
  simp only [decodeMessage, storeRecord_marshal, htype, toMessage_fromMessage]

/-! ## Members of no known field -/

/-- The second value is the first one; or both are entries, the second with members of no known
field added. -/
inductive EntryExtends : Json → Json → Prop
  | same (j : Json) : EntryExtends j j
  | added {ms ms' : List (String × Json)} (h : Extends entryFields Eq ms ms') :
      EntryExtends (.object ms) (.object ms')

/-- The same for the value of a member of a message: a list of entries may have members added in
each of them. -/
inductive ValueExtends : Json → Json → Prop
  | same (j : Json) : ValueExtends j j
  | entries {js js' : List Json} (h : List.Forall₂ EntryExtends js js') :
      ValueExtends (.array js) (.array js')

lemma EntryExtends.decode {j j' : Json} (h : EntryExtends j j') (old : WireEntry) :
    entry.decode old j' = entry.decode old j := by
  cases h with
  | same => rfl
  | added h =>
      refine storeAll_extends (fun key f _ j j' hj s => ?_) h old
      rw [hj]

lemma mapM_decode_extends {js js' : List Json} (h : List.Forall₂ EntryExtends js js') :
    js'.mapM (entry.decode {}) = js.mapM (entry.decode {}) := by
  induction h with
  | nil => rfl
  | cons hj _ ih => rw [List.mapM_cons, List.mapM_cons, hj.decode, ih]

/-- Only the field `entries` looks into a list. -/
lemma ValueExtends.store {f : RecordField WireMessage} (hf : f ∈ messageFields) {j j' : Json}
    (h : ValueExtends j j') (w : WireMessage) : f.store w j' = f.store w j := by
  cases h with
  | same => rfl
  | entries h =>
      simp only [messageFields, List.mem_cons, List.not_mem_nil, or_false] at hf
      rcases hf with rfl | rfl | rfl | rfl | rfl | rfl | rfl | rfl | rfl | rfl | rfl | rfl | rfl |
        rfl | rfl
      case inr.inr.inr.inr.inr.inr.inr.inr.inr.inl =>
        exact congrArg (Except.map _) (mapM_decode_extends h)
      all_goals rfl

/-- Members of no known field do not change what a body is read as. -/
lemma decodeMessage_extends {ms ms' : List (String × Json)}
    (h : Extends messageFields ValueExtends ms ms') :
    decodeMessage (.object ms') = decodeMessage (.object ms) := by
  have hstore : storeAll messageFields ms' {} = storeAll messageFields ms {} := by
    refine storeAll_extends (fun key f hf j j' hj s => ?_) h {}
    exact hj.store ((fieldFor_eq_some_iff messageFields_names).mp hf).1 s
  simp only [decodeMessage, storeRecord, hstore]

/-! ## The type of a body -/

/-- The name is `type`, but for case. -/
def namesType (key : String) : Bool := foldName key == foldName "type"

/-- The field `type`. -/
def typeField : RecordField WireMessage :=
  uint8.field "type" (·.type) (fun w v => { w with type := v })

lemma fieldFor_type {key : String} (h : namesType key = true) :
    fieldFor messageFields key = some typeField := by
  refine (fieldFor_eq_some_iff messageFields_names).mpr ⟨List.mem_cons_self, ?_⟩
  exact (beq_iff_eq.mp h).symm

lemma store_keeps_type {m : String × Json} (hm : namesType m.1 = true → m.2 = .null)
    {f : RecordField WireMessage} (hf : fieldFor messageFields m.1 = some f) {w w' : WireMessage}
    (h : f.store w m.2 = .ok w') : w'.type = w.type := by
  obtain ⟨hmem, hname⟩ := (fieldFor_eq_some_iff messageFields_names).mp hf
  simp only [messageFields, List.mem_cons, List.not_mem_nil, or_false] at hmem
  rcases hmem with rfl | hmem
  · rw [hm (beq_iff_eq.mpr hname.symm)] at h
    cases h
    rfl
  · rcases hmem with rfl | rfl | rfl | rfl | rfl | rfl | rfl | rfl | rfl | rfl | rfl | rfl | rfl |
      rfl <;> exact Codec.field_store_keeps (p := WireMessage.type) h fun _ _ => rfl

/-- The type of a body that could be stored: the last member, other than `null`, that names it. -/
lemma type_of_storeAll {before after : List (String × Json)} {key : String} {n : Numeral}
    (hkey : namesType key = true) (hlast : ∀ m ∈ after, namesType m.1 = true → m.2 = .null)
    {w : WireMessage}
    (h : storeAll messageFields (before ++ (key, .number n) :: after) {} = .ok w) :
    n = { whole := w.type.toNat } := by
  rw [storeAll_append] at h
  obtain ⟨w₀, -, h⟩ := bind_eq_ok h
  rw [storeAll_cons (fieldFor_type hkey)] at h
  obtain ⟨w₁, hstore, h⟩ := bind_eq_ok h
  have htype : w.type = w₁.type :=
    storeAll_keeps (p := WireMessage.type)
      (fun m hm f hf s s' => store_keeps_type (hlast m hm) hf) h
  have hstore : ((parseUint 8 n).map UInt8.ofNat).map (fun v => { w₀ with type := v }) = .ok w₁ :=
    hstore
  cases hnum : parseUint 8 n with
  | error err =>
      rw [hnum] at hstore
      cases hstore
  | ok k =>
      rw [hnum] at hstore
      cases hstore
      obtain ⟨hwhole, hlt⟩ := parseUint_eq_ok hnum
      rw [htype, hwhole, UInt8.toNat_ofNat_of_lt' hlt]

/-- A body is refused if the last member, other than `null`, that names the type is no integer
from 0 to 3. -/
lemma decodeMessage_type {before after : List (String × Json)} {key : String} {n : Numeral}
    (hkey : namesType key = true) (hlast : ∀ m ∈ after, namesType m.1 = true → m.2 = .null)
    (hn : ∀ k ≤ 3, n ≠ { whole := k }) :
    ∃ err, decodeMessage (.object (before ++ (key, .number n) :: after)) = .error err := by
  unfold decodeMessage
  cases hall : storeRecord messageFields {} (.object (before ++ (key, .number n) :: after)) with
  | error err => exact ⟨_, rfl⟩
  | ok w =>
      cases hvalid : validateWireType w.type with
      | error err => exact ⟨err, by simp only [hvalid]⟩
      | ok _ =>
          have hle := UInt8.le_iff_toNat_le.mp ((validateWireType_eq_ok_iff _).mp hvalid)
          exact (hn _ hle (type_of_storeAll hkey hlast hall)).elim

/-! ## The wire format as a whole -/

/-- **Wire round trip.**  A message of one of the four wire-visible types, whatever its other
fields and entries, is read back from what it was written as.  Members whose names match no field
of their object, even ignoring case, do not change what a body is read as, be they added to the
message or to its entries.  And a body is refused with a bad request if the last member, other
than `null`, whose name is `type` ignoring case is an integer outside 0..3, or any number that
is not written as an integer. -/
theorem wire_roundtrip :
    (∀ m : RaftMessage, m.type ≤ 3 → decodeMessage (marshal (fromMessage m)) = .ok m) ∧
    (∀ ms ms' : List (String × Json), Extends messageFields ValueExtends ms ms' →
      decodeMessage (.object ms') = decodeMessage (.object ms)) ∧
    ∀ (before after : List (String × Json)) (key : String) (n : Numeral),
      namesType key = true → (∀ m ∈ after, namesType m.1 = true → m.2 = .null) →
      (∀ k ≤ 3, n ≠ { whole := k }) →
      ∃ err : DecodeError,
        decodeMessage (.object (before ++ (key, .number n) :: after)) = .error err ∧
          err.kind = .badRequest := by
  refine ⟨fun m hm => decodeMessage_marshal hm, fun ms ms' h => decodeMessage_extends h, ?_⟩
  intro before after key n hkey hlast hn
  obtain ⟨err, herr⟩ := decodeMessage_type hkey hlast hn
  exact ⟨err, herr, rfl⟩

/-- A heartbeat with a member of a later version is read back; the tick is refused. -/
theorem wire_roundtrip_heartbeat :
    decodeMessage (.object (("Epoch", .null) ::
      marshalMembers (fromMessage { type := 2, term := 7, fromNode := "node-1" }))) =
      .ok { type := 2, term := 7, fromNode := "node-1" } ∧
    ∃ err : DecodeError, decodeMessage (.object ([("term", nat 7)] ++ [("TYPE", nat 255)])) =
      .error err ∧ err.kind = .badRequest := by
  have hsame : ∀ ms : List (String × Json), Extends messageFields ValueExtends ms ms := by
    intro ms
    induction ms with
    | nil => exact .nil
    | cons m ms ih => exact .kept (.same _) ih
  refine ⟨?_, wire_roundtrip.2.2 [("term", nat 7)] [] "TYPE" _ (by decide +kernel) (by simp) ?_⟩
  · rw [wire_roundtrip.2.1 _ _ (.added (by rfl) (hsame _))]
    exact wire_roundtrip.1 _ (by decide)
  · intro k hk h
    cases h
    omega

/-- A body with a `type` out of range that is accepted: a later member that differs from it in
case is stored in its place. -/
theorem earlier_type_accepted :
    decodeMessage (.object [("type", nat 7), ("Type", nat 1)]) = .ok { type := 1 } := by
  rfl

end Wire

end ToyRaft
