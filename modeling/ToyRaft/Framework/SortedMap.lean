import Mathlib.Data.List.Sort
import Mathlib.Data.String.Basic
import ToyRaft.Framework.Json

/-!
# Finite maps, and the JSON objects they are written as

A finite map over an ordered type of keys is its list of pairs, in the order of the keys.  That
is the order in which the members of its JSON object are written, and two maps with the same
values are the same list.  An object is read back member by member, each one into a fresh zero
value, and `decodeMap_encodeMap` says that this gives the map that was written.
-/

namespace ToyRaft

/-- A finite map: pairs in the strict order of their keys. -/
@[ext]
structure SortedMap (κ α : Type) [LinearOrder κ] where
  pairs : List (κ × α)
  sorted : pairs.Pairwise fun p q => p.1 < q.1

namespace SortedMap

variable {κ α : Type} [LinearOrder κ]

instance [DecidableEq α] : DecidableEq (SortedMap κ α) :=
  fun _ _ => decidable_of_iff _ SortedMap.ext_iff.symm

def empty : SortedMap κ α where
  pairs := []
  sorted := .nil

def lookup (m : SortedMap κ α) (k : κ) : Option α :=
  (m.pairs.find? fun p => decide (p.1 = k)).map (·.2)

def insert (m : SortedMap κ α) (k : κ) (v : α) : SortedMap κ α where
  pairs := (m.pairs.filter fun p => decide (p.1 < k)) ++
    (k, v) :: m.pairs.filter fun p => decide (k < p.1)
  sorted := by
    refine List.pairwise_append.mpr ⟨m.sorted.filter _, ?_, ?_⟩
    · refine List.pairwise_cons.mpr ⟨?_, m.sorted.filter _⟩
      intro q hq
      simpa using (List.mem_filter.mp hq).2
    · intro p hp q hq
      have hpk : p.1 < k := by simpa using (List.mem_filter.mp hp).2
      rcases List.mem_cons.mp hq with rfl | hq
      · exact hpk
      · exact hpk.trans (by simpa using (List.mem_filter.mp hq).2)

def erase (m : SortedMap κ α) (k : κ) : SortedMap κ α where
  pairs := m.pairs.filter fun p => decide (p.1 ≠ k)
  sorted := m.sorted.filter _

variable {m : SortedMap κ α} {j k : κ} {v w : α}

lemma mem_insert :
    (j, w) ∈ (m.insert k v).pairs ↔ (j = k ∧ w = v) ∨ (j ≠ k ∧ (j, w) ∈ m.pairs) := by
  simp only [insert, List.mem_append, List.mem_cons, List.mem_filter, decide_eq_true_eq,
    Prod.mk.injEq]
  constructor
  · rintro (⟨hmem, hlt⟩ | heq | ⟨hmem, hlt⟩)
    · exact .inr ⟨hlt.ne, hmem⟩
    · exact .inl heq
    · exact .inr ⟨hlt.ne', hmem⟩
  · rintro (heq | ⟨hne, hmem⟩)
    · exact .inr (.inl heq)
    · rcases lt_or_gt_of_ne hne with hlt | hlt
      · exact .inl ⟨hmem, hlt⟩
      · exact .inr (.inr ⟨hmem, hlt⟩)

/-- A key has one value at most. -/
lemma eq_of_mem (hv : (k, v) ∈ m.pairs) (hw : (k, w) ∈ m.pairs) : v = w := by
  have hkeys : (m.pairs.map Prod.fst).Nodup :=
    List.pairwise_map.mpr (m.sorted.imp fun hlt => hlt.ne)
  have heq : (k, v) = (k, w) := List.inj_on_of_nodup_map hkeys hv hw rfl
  exact (Prod.mk.inj heq).2

lemma lookup_eq_some_iff : m.lookup k = some v ↔ (k, v) ∈ m.pairs := by
  have hfound : ∀ p, m.pairs.find? (fun p => decide (p.1 = k)) = some p →
      (k, p.2) ∈ m.pairs := by
    intro p hp
    have hk : p.1 = k := by simpa using List.find?_some hp
    have hmem := List.mem_of_find?_eq_some hp
    rw [← hk]
    exact hmem
  unfold lookup
  constructor
  · intro h
    obtain ⟨p, hp, rfl⟩ := Option.map_eq_some_iff.mp h
    exact hfound p hp
  · intro hmem
    cases hfind : m.pairs.find? (fun p => decide (p.1 = k)) with
    | none => simpa using List.find?_eq_none.mp hfind _ hmem
    | some p => rw [Option.map_some, eq_of_mem hmem (hfound p hfind)]

lemma lookup_insert : (m.insert k v).lookup j = if j = k then some v else m.lookup j := by
  ext w
  rw [lookup_eq_some_iff, mem_insert]
  split_ifs with hjk
  · simp [hjk, eq_comm]
  · simp [hjk, lookup_eq_some_iff]

lemma lookup_erase : (m.erase k).lookup j = if j = k then none else m.lookup j := by
  ext w
  rw [lookup_eq_some_iff]
  split_ifs with hjk
  · simp [erase, hjk]
  · simp [erase, hjk, lookup_eq_some_iff]

/-- A pair past all keys goes to the end. -/
lemma pairs_insert_of_lt (h : ∀ p ∈ m.pairs, p.1 < k) :
    (m.insert k v).pairs = m.pairs ++ [(k, v)] := by
  have hbefore : (m.pairs.filter fun p => decide (p.1 < k)) = m.pairs :=
    List.filter_eq_self.mpr fun p hp => decide_eq_true (h p hp)
  have hafter : (m.pairs.filter fun p => decide (k < p.1)) = [] :=
    List.filter_eq_nil_iff.mpr fun p hp => by simpa using (h p hp).le
  dsimp only [insert]
  rw [hbefore, hafter]

end SortedMap

namespace Json

variable {α : Type} (c : Codec α)

/-- The object of a map, its members in the order of the keys. -/
def encodeMap (m : SortedMap String α) : Json :=
  .object (m.pairs.map fun p => (p.1, c.encode p.2))

/-- The members are added one after the other, each value stored into a fresh `zero`. -/
def storeMembers (zero : α) :
    List (String × Json) → SortedMap String α → Except UnmarshalError (SortedMap String α)
  | [], m => .ok m
  | (key, j) :: ms, m => (c.decode zero j).bind fun v => storeMembers zero ms (m.insert key v)

/-- A map that may be nil: `null` makes it nil, and an object is added to what it holds. -/
def decodeMap (zero : α) (old : Option (SortedMap String α)) :
    Json → Except UnmarshalError (Option (SortedMap String α))
  | .null => .ok none
  | .object ms => (storeMembers c zero ms (old.getD .empty)).map some
  | _ => .error .type

/-- The pairs of a map go back one by one behind those before them. -/
lemma storeMembers_pairs (zero : α) {m m' : SortedMap String α} (rest : List (String × α))
    (h : m'.pairs = m.pairs ++ rest) :
    storeMembers c zero (rest.map fun p => (p.1, c.encode p.2)) m = .ok m' := by
  induction rest generalizing m with
  | nil =>
      have hm : m' = m := SortedMap.ext (by rw [h, List.append_nil])
      rw [hm]
      rfl
  | cons p rest ih =>
      have hpast : ∀ q ∈ m.pairs, q.1 < p.1 := by
        have hsorted := m'.sorted
        rw [h] at hsorted
        intro q hq
        exact (List.pairwise_append.mp hsorted).2.2 q hq p List.mem_cons_self
      rw [List.map_cons, storeMembers, c.faithful]
      refine ih ?_
      rw [SortedMap.pairs_insert_of_lt hpast, h, List.append_assoc]
      rfl

/-- A map that is written is read back. -/
lemma decodeMap_encodeMap (zero : α) (m : SortedMap String α) :
    decodeMap c zero none (encodeMap c m) = .ok (some m) := by
  have hall : storeMembers c zero (m.pairs.map fun p => (p.1, c.encode p.2)) .empty = .ok m :=
    storeMembers_pairs c zero m.pairs rfl
  rw [encodeMap, decodeMap, Option.getD_none, hall]
  rfl

end Json

end ToyRaft
