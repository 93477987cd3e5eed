import Mathlib.Data.Finset.Card
import Mathlib.Data.List.Sort
import Mathlib.Tactic.Linarith

/-!
# Majorities

Two facts about majorities that every quorum argument uses.  `exists_mem_of_majorities`: two
majorities of one set meet.  `le_countP_of_sorted`: in an ascending list, the element
`q` places from the top is a lower bound of `q` elements, which is what picking it as "the
value a quorum has reached" means.  It is the greatest such value (`le_getD_iff_of_sorted`).
-/

namespace ToyRaft

/-- `Q` is a strict majority of `P`. -/
def IsMajority {ν : Type} (P Q : Finset ν) : Prop := Q ⊆ P ∧ P.card < 2 * Q.card

/-- Two majorities of one set have a common member. -/
theorem exists_mem_of_majorities {ν : Type} {P Q R : Finset ν}
    (hQ : IsMajority P Q) (hR : IsMajority P R) : ∃ v, v ∈ Q ∧ v ∈ R := by
  classical
  by_contra hcon
  push Not at hcon
  have hdisj : Disjoint Q R := Finset.disjoint_left.mpr hcon
  have hsub : Q ∪ R ⊆ P := Finset.union_subset hQ.1 hR.1
  have hcard : (Q ∪ R).card = Q.card + R.card := Finset.card_union_of_disjoint hdisj
  have hle := Finset.card_le_card hsub
  have h1 := hQ.2
  have h2 := hR.2
  omega

/-- In an ascending list the element `q` places from the end is at most `q` of the
elements. -/
theorem le_countP_of_sorted {l : List ℕ} (hl : l.Pairwise (· ≤ ·)) {q : ℕ} (hq : 0 < q)
    (hlen : q ≤ l.length) :
    q ≤ l.countP (fun x => decide (l.getD (l.length - q) 0 ≤ x)) := by
  set k := l.length - q with hk
  have hklt : k < l.length := by omega
  have hall : ∀ x ∈ l.drop k, decide (l.getD k 0 ≤ x) = true := by
    intro x hx
    obtain ⟨p, hp, rfl⟩ := List.mem_iff_getElem.mp hx
    rw [List.getElem_drop, List.getD_eq_getElem?_getD, List.getElem?_eq_getElem hklt,
      Option.getD_some, decide_eq_true_eq]
    rcases Nat.eq_zero_or_pos p with rfl | hpos
    · exact le_refl _
    · exact List.pairwise_iff_getElem.mp hl _ _ _ _ (by omega)
  calc q = (l.drop k).length := by rw [List.length_drop]; omega
    _ = (l.drop k).countP (fun x => decide (l.getD k 0 ≤ x)) :=
        (List.countP_eq_length.mpr hall).symm
    _ ≤ l.countP (fun x => decide (l.getD k 0 ≤ x)) :=
        (List.drop_sublist k l).countP_le

/-- The element `q` places from the end of an ascending list is the greatest value that `q` of
the elements reach. -/
theorem le_getD_iff_of_sorted {l : List ℕ} (hl : l.Pairwise (· ≤ ·)) {q : ℕ} (hq : 0 < q)
    (hlen : q ≤ l.length) (y : ℕ) :
    y ≤ l.getD (l.length - q) 0 ↔ q ≤ l.countP (fun x => decide (y ≤ x)) := by
  constructor
  · intro hy
    refine (le_countP_of_sorted hl hq hlen).trans (List.countP_mono_left fun x _ hx => ?_)
    simp only [decide_eq_true_eq] at hx ⊢
    exact hy.trans hx
  · intro hcount
    by_contra hlt
    set k := l.length - q with hk
    have hklt : k < l.length := by omega
    -- nothing up to the element in question reaches `y`
    have hnone : (l.take (k + 1)).countP (fun x => decide (y ≤ x)) = 0 := by
      refine List.countP_eq_zero.mpr fun x hx => ?_
      obtain ⟨p, hp, rfl⟩ := List.mem_iff_getElem.mp hx
      rw [List.length_take] at hp
      rw [List.getElem_take, decide_eq_true_eq]
      rw [List.getD_eq_getElem?_getD, List.getElem?_eq_getElem hklt, Option.getD_some] at hlt
      rcases Nat.lt_or_ge p k with hpk | hpk
      · have hle := List.pairwise_iff_getElem.mp hl p k (by omega) hklt hpk
        omega
      · obtain rfl : p = k := by omega
        omega
    have hsplit : l.countP (fun x => decide (y ≤ x)) =
        (l.drop (k + 1)).countP (fun x => decide (y ≤ x)) := by
      conv_lhs => rw [← List.take_append_drop (k + 1) l, List.countP_append, hnone, Nat.zero_add]
    have hle := List.countP_le_length (p := fun x => decide (y ≤ x)) (l := l.drop (k + 1))
    rw [List.length_drop] at hle
    omega

end ToyRaft
