import Mathlib.Data.List.Nodup
import ToyRaft.Framework.Base64

/-!
# JSON values and records

A JSON value, and how a record is written to one and read back by a decoder that is driven by a
table of fields: a member goes to the field of its name, or else to the field whose name is the
same but for case; a member of no field is skipped; of two members for one field the later one
counts; `null` leaves a plain field as it was; and a value of the wrong kind is an error.

A `Codec` carries the proof that decoding undoes encoding.  `storeAll_omitempty` is the step from
one field to a record that leaves its zero values out, and `storeAll_extends` says that members
of no field do not matter.
-/

namespace ToyRaft

/-- A number as it is written: the sign, the digits before the point, and the text of the
fraction and the exponent. -/
structure Numeral where
  neg : Bool := false
  whole : ℕ
  tail : String := ""
  deriving DecidableEq

inductive Json
  | null
  | bool (b : Bool)
  | number (n : Numeral)
  | string (s : String)
  | array (xs : List Json)
  | object (ms : List (String × Json))

/-- Why a value cannot be stored: its kind or its range, or a text that is not base64. -/
inductive UnmarshalError
  | type
  | base64
  deriving DecidableEq

namespace Json

/-- An integer that is not negative. -/
def nat (n : ℕ) : Json := .number { whole := n }

/-- `strconv.ParseUint`: digits only, and in range. -/
def parseUint (bits : ℕ) (n : Numeral) : Except UnmarshalError ℕ :=
  if n.neg = false ∧ n.tail = "" ∧ n.whole < 2 ^ bits then .ok n.whole else .error .type

lemma parseUint_eq_ok {bits : ℕ} {n : Numeral} {k : ℕ} (h : parseUint bits n = .ok k) :
    n = { whole := k } ∧ k < 2 ^ bits := by
  unfold parseUint at h
  split_ifs at h with hn
  obtain ⟨hneg, htail, hlt⟩ := hn
  obtain ⟨neg, whole, tail⟩ := n
  obtain rfl : neg = false := hneg
  obtain rfl : tail = "" := htail
  cases h
  exact ⟨rfl, hlt⟩

/-! ## Codecs -/

/-- How the values of a type are written, and how one is stored where `old` was. -/
structure Codec (α : Type) where
  encode : α → Json
  decode : (old : α) → Json → Except UnmarshalError α
  faithful : ∀ old v, decode old (encode v) = .ok v

def uint8 : Codec UInt8 where
  encode v := nat v.toNat
  decode
    | old, .null => .ok old
    | _, .number n => (parseUint 8 n).map .ofNat
    | _, _ => .error .type
  faithful old v := by
    show (parseUint 8 { whole := v.toNat }).map UInt8.ofNat = _
    rw [parseUint, if_pos ⟨rfl, rfl, v.toNat_lt⟩, Except.map, UInt8.ofNat_toNat]

def uint64 : Codec UInt64 where
  encode v := nat v.toNat
  decode
    | old, .null => .ok old
    | _, .number n => (parseUint 64 n).map .ofNat
    | _, _ => .error .type
  faithful old v := by
    show (parseUint 64 { whole := v.toNat }).map UInt64.ofNat = _
    rw [parseUint, if_pos ⟨rfl, rfl, v.toNat_lt⟩, Except.map, UInt64.ofNat_toNat]

def boolean : Codec Bool where
  encode := .bool
  decode
    | old, .null => .ok old
    | _, .bool b => .ok b
    | _, _ => .error .type
  faithful _ _ := rfl

def text : Codec String where
  encode := .string
  decode
    | old, .null => .ok old
    | _, .string s => .ok s
    | _, _ => .error .type
  faithful _ _ := rfl

lemma mapM_decode {α : Type} (c : Codec α) (zero : α) (vs : List α) :
    (vs.map c.encode).mapM (c.decode zero) = .ok vs := by
  induction vs with
  | nil => rfl
  | cons v vs ih =>
      rw [List.map_cons, List.mapM_cons, c.faithful, ih]
      rfl

/-- A list that may be nil, which is written like an empty one.  Its elements are stored into
fresh zero values. -/
def slice {α : Type} (c : Codec α) (zero : α) : Codec (List α) where
  encode vs := .array (vs.map c.encode)
  decode
    | _, .null => .ok []
    | _, .array js => js.mapM (c.decode zero)
    | _, _ => .error .type
  faithful _ vs := mapM_decode c zero vs

/-- Bytes, with nil told from no bytes: `null`, or base64.  An array of numbers can be stored
too. -/
def bytes : Codec (Option (List UInt8)) where
  encode
    | none => .null
    | some bs => .string (String.ofList (Base64.encode bs))
  decode
    | _, .null => .ok none
    | _, .string s =>
        match Base64.decode s.toList with
        | some bs => .ok (some bs)
        | none => .error .base64
    | _, .array js => (js.mapM (uint8.decode 0)).map some
    | _, _ => .error .type
  faithful _ v := by
    cases v with
    | none => rfl
    | some bs => simp only [String.toList_ofList, Base64.decode_encode]

/-! ## Records -/

/-- A field of a record: its name, and how a value is stored in it. -/
structure RecordField (σ : Type) where
  name : String
  store : σ → Json → Except UnmarshalError σ

/-- The field that `get` reads and `set` writes. -/
def Codec.field {α σ : Type} (c : Codec α) (name : String) (get : σ → α) (set : σ → α → σ) :
    RecordField σ where
  name
  store s j := (c.decode (get s) j).map (set s)

/-- One rune for all that differ in case only, as far as it is an ASCII letter or folds to one:
the long s and the Kelvin sign do. -/
def foldRune (c : Char) : Char :=
  if c = '\u017f' then 's' else if c = '\u212a' then 'k' else c.toLower

def foldName (name : String) : List Char := name.toList.map foldRune

section Records

variable {σ : Type} (fields : List (RecordField σ))

/-- The field for a member: the one of that name, or else the one of that name but for case. -/
def fieldFor (key : String) : Option (RecordField σ) :=
  (fields.find? fun f => f.name == key).or
    (fields.find? fun f => foldName f.name == foldName key)

/-- The members are stored one after the other. -/
def storeAll : List (String × Json) → σ → Except UnmarshalError σ
  | [], s => .ok s
  | (key, j) :: ms, s =>
      match fieldFor fields key with
      | none => storeAll ms s
      | some f => (f.store s j).bind (storeAll ms)

/-- A value is stored in a record. -/
def storeRecord (s : σ) : Json → Except UnmarshalError σ
  | .null => .ok s
  | .object ms => storeAll fields ms s
  | _ => .error .type

variable {fields}

lemma bind_eq_ok {x : Except UnmarshalError σ} {f : σ → Except UnmarshalError σ} {s : σ}
    (h : x.bind f = .ok s) : ∃ s₁, x = .ok s₁ ∧ f s₁ = .ok s := by
  cases x with
  | error e => cases h
  | ok s₁ => exact ⟨s₁, rfl, h⟩

lemma storeAll_cons {key : String} {f : RecordField σ} (hf : fieldFor fields key = some f)
    (j : Json) (ms : List (String × Json)) (s : σ) :
    storeAll fields ((key, j) :: ms) s = (f.store s j).bind (storeAll fields ms) := by
  rw [storeAll, hf]

lemma storeAll_append (ms₁ ms₂ : List (String × Json)) (s : σ) :
    storeAll fields (ms₁ ++ ms₂) s = (storeAll fields ms₁ s).bind (storeAll fields ms₂) := by
  induction ms₁ generalizing s with
  | nil => rfl
  | cons m ms₁ ih =>
      obtain ⟨key, j⟩ := m
      simp only [List.cons_append, storeAll]
      split
      · exact ih s
      · rename_i f _
        cases f.store s j with
        | error e => rfl
        | ok s' => exact ih s'

/-- Of fields whose names differ in more than case, the one that is found is the one whose name
is the key but for case. -/
lemma fieldFor_eq_some_iff (hnames : (fields.map fun f => foldName f.name).Nodup) {key : String}
    {f : RecordField σ} :
    fieldFor fields key = some f ↔ f ∈ fields ∧ foldName f.name = foldName key := by
  have hfold : ∀ g, fields.find? (fun f => foldName f.name == foldName key) = some g →
      g ∈ fields ∧ foldName g.name = foldName key := by
    intro g hg
    exact ⟨List.mem_of_find?_eq_some hg, by simpa using List.find?_some hg⟩
  have hexact : ∀ g, fields.find? (fun f => f.name == key) = some g →
      g ∈ fields ∧ foldName g.name = foldName key := by
    intro g hg
    have hname : g.name = key := by simpa using List.find?_some hg
    exact ⟨List.mem_of_find?_eq_some hg, by rw [hname]⟩
  have honly : ∀ g, g ∈ fields ∧ foldName g.name = foldName key →
      f ∈ fields ∧ foldName f.name = foldName key → g = f := by
    rintro g ⟨hg, hgk⟩ ⟨hf, hfk⟩
    exact List.inj_on_of_nodup_map hnames hg hf (hgk.trans hfk.symm)
  unfold fieldFor
  constructor
  · intro h
    rcases Option.or_eq_some_iff.mp h with h | ⟨-, h⟩
    · exact hexact f h
    · exact hfold f h
  · intro hf
    cases hfind : fields.find? (fun f => f.name == key) with
    | some g => rw [Option.some_or, honly g (hexact g hfind) hf]
    | none =>
        rw [Option.none_or]
        cases hfind' : fields.find? (fun f => foldName f.name == foldName key) with
        | some g => rw [honly g (hfold g hfind') hf]
        | none => exact absurd (by simpa using hf.2) (List.find?_eq_none.mp hfind' f hf.1)

/-- A field that is written is stored. -/
lemma storeAll_member (hnames : (fields.map fun f => foldName f.name).Nodup) (k : ℕ) {α : Type}
    {c : Codec α} {name : String} {get : σ → α} {set : σ → α → σ}
    (hf : fields[k]? = some (c.field name get set)) (v : α) (s : σ) :
    storeAll fields [(name, c.encode v)] s = .ok (set s v) := by
  have hfor : fieldFor fields name = some (c.field name get set) :=
    (fieldFor_eq_some_iff hnames).mpr ⟨List.mem_of_getElem? hf, rfl⟩
  rw [storeAll_cons hfor]
  show ((c.decode (get s) (c.encode v)).map (set s)).bind _ = _
  rw [c.faithful]
  rfl

/-- The member of a field, unless its value is zero. -/
def omitempty {α : Type} [DecidableEq α] (c : Codec α) (zero : α) (name : String) (v : α) :
    List (String × Json) :=
  if v = zero then [] else [(name, c.encode v)]

/-- A field that is left out when it is zero is stored in a record in which it is zero. -/
lemma storeAll_omitempty (hnames : (fields.map fun f => foldName f.name).Nodup) (k : ℕ)
    {α : Type} [DecidableEq α] {c : Codec α} {zero : α} {name : String} {get : σ → α}
    {set : σ → α → σ}
    (hf : fields[k]? = some (c.field name get set)) (v : α) {s : σ} (hs : set s zero = s) :
    storeAll fields (omitempty c zero name v) s = .ok (set s v) := by
  unfold omitempty
  split_ifs with hv
  · rw [hv, hs]
    rfl
  · exact storeAll_member hnames k hf v s

/-- Storing a field keeps what its setter keeps. -/
lemma Codec.field_store_keeps {α β : Type} {c : Codec α} {name : String} {get : σ → α}
    {set : σ → α → σ} {p : σ → β} {s s' : σ} {j : Json}
    (h : (c.field name get set).store s j = .ok s') (hset : ∀ s v, p (set s v) = p s) :
    p s' = p s := by
  have h : (c.decode (get s) j).map (set s) = .ok s' := h
  cases hd : c.decode (get s) j with
  | error e =>
      rw [hd] at h
      cases h
  | ok v =>
      rw [hd] at h
      cases h
      exact hset s v

/-- What no member of a record's text touches stays as it was. -/
lemma storeAll_keeps {β : Type} {p : σ → β} {ms : List (String × Json)} {s s' : σ}
    (hms : ∀ m ∈ ms, ∀ f, fieldFor fields m.1 = some f →
      ∀ s s', f.store s m.2 = .ok s' → p s' = p s)
    (h : storeAll fields ms s = .ok s') : p s' = p s := by
  induction ms generalizing s with
  | nil =>
      cases h
      rfl
  | cons m ms ih =>
      obtain ⟨key, j⟩ := m
      have hrest := fun m hm => hms m (List.mem_cons_of_mem _ hm)
      unfold storeAll at h
      split at h
      · exact ih hrest h
      · rename_i f hf
        obtain ⟨s₁, hst, h⟩ := bind_eq_ok h
        exact (ih hrest h).trans (hms _ List.mem_cons_self f hf s s₁ hst)

variable (fields) in
/-- The second list of members is the first one with members of no field added, and with values
in the relation `V`. -/
inductive Extends (V : Json → Json → Prop) :
    List (String × Json) → List (String × Json) → Prop
  | nil : Extends V [] []
  | kept {key : String} {j j' : Json} {ms ms' : List (String × Json)} (hv : V j j')
      (h : Extends V ms ms') : Extends V ((key, j) :: ms) ((key, j') :: ms')
  | added {key : String} {j : Json} {ms ms' : List (String × Json)}
      (hkey : fieldFor fields key = none) (h : Extends V ms ms') : Extends V ms ((key, j) :: ms')

/-- Members of no field do not matter. -/
lemma storeAll_extends {V : Json → Json → Prop}
    (hV : ∀ key f, fieldFor fields key = some f → ∀ j j', V j j' → ∀ s, f.store s j' = f.store s j)
    {ms ms' : List (String × Json)} (h : Extends fields V ms ms') (s : σ) :
    storeAll fields ms' s = storeAll fields ms s := by
  induction h generalizing s with
  | nil => rfl
  | @kept key j j' ms ms' hv _ ih =>
      unfold storeAll
      cases hf : fieldFor fields key with
      | none => exact ih s
      | some f =>
          simp only [hV key f hf j j' hv]
          cases f.store s j with
          | error e => rfl
          | ok s' => exact ih s'
  | added hkey _ ih =>
      rw [storeAll, hkey]
      exact ih s

end Records

end Json

end ToyRaft
