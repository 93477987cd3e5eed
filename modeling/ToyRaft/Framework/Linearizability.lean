import Mathlib.Algebra.Order.Ring.Int
import Mathlib.Data.List.Dedup
import Mathlib.Data.List.Perm.Basic

/-!
# Linearizability, and that it is local

A recorded operation has the time of its call and of its return.  A history is linearizable for
a sequential model if its operations can be put in an order that respects real time and that the
model accepts.

Operations often go to one of several objects, such as the keys of a store, and a history can
then be checked object by object: orders for the objects that respect real time can be merged
into one that does (`exists_merge`, `exists_order`).  Of two heads, the one that must not come
first would have to wait for an operation of the other list, and both cannot wait.
-/

namespace ToyRaft

section RealTime

variable {α κ τ : Type} [LinearOrder τ] (call ret : α → τ)

/-- Nothing stands before an operation that had returned before it was called. -/
def RealTime (l : List α) : Prop := l.Pairwise fun a b => call a ≤ ret b

variable {call ret}

/-- Two orders that respect real time, of operations told apart by `p`, can be merged. -/
lemma exists_merge (p : α → Bool) {l₁ l₂ : List α} (hp₁ : ∀ a ∈ l₁, p a = true)
    (hp₂ : ∀ a ∈ l₂, p a = false) (hr₁ : RealTime call ret l₁) (hr₂ : RealTime call ret l₂)
    (hc₁ : ∀ a ∈ l₁, call a ≤ ret a) (hc₂ : ∀ a ∈ l₂, call a ≤ ret a) :
    ∃ l, RealTime call ret l ∧ l.filter p = l₁ ∧ l.filter (fun a => !p a) = l₂ := by
  have hall : ∀ {l : List α} {b : Bool}, (∀ a ∈ l, p a = b) →
      l.filter p = (if b then l else []) ∧ l.filter (fun a => !p a) = (if b then [] else l) := by
    intro l b hl
    cases b with
    | true =>
        refine ⟨List.filter_eq_self.mpr hl, List.filter_eq_nil_iff.mpr fun a ha => ?_⟩
        simp [hl a ha]
    | false =>
        refine ⟨List.filter_eq_nil_iff.mpr fun a ha => ?_, List.filter_eq_self.mpr fun a ha => ?_⟩
        · simp [hl a ha]
        · simp [hl a ha]
  induction l₁ generalizing l₂ with
  | nil => exact ⟨l₂, hr₂, hall hp₂⟩
  | cons a l₁ ih₁ =>
      induction l₂ with
      | nil => exact ⟨a :: l₁, hr₁, hall hp₁⟩
      | cons b l₂ ih₂ =>
          have ha := hp₁ a List.mem_cons_self
          have hb := hp₂ b List.mem_cons_self
          obtain ⟨hra, hr₁'⟩ := List.pairwise_cons.mp hr₁
          obtain ⟨hrb, hr₂'⟩ := List.pairwise_cons.mp hr₂
          by_cases hfirst : ∀ x ∈ b :: l₂, call a ≤ ret x
          · -- `a` need not wait
            obtain ⟨l, hl, hl₁, hl₂⟩ := ih₁ (fun x hx => hp₁ x (List.mem_cons_of_mem _ hx)) hp₂
              hr₁' hr₂ (fun x hx => hc₁ x (List.mem_cons_of_mem _ hx)) hc₂
            refine ⟨a :: l, List.pairwise_cons.mpr ⟨fun x hx => ?_, hl⟩, ?_, ?_⟩
            · cases hpx : p x with
              | true => exact hra x (by rw [← hl₁]; exact List.mem_filter.mpr ⟨hx, hpx⟩)
              | false =>
                  exact hfirst x (by rw [← hl₂]; exact List.mem_filter.mpr ⟨hx, by simp [hpx]⟩)
            · rw [List.filter_cons_of_pos ha, hl₁]
            · rw [List.filter_cons_of_neg (by simp [ha]), hl₂]
          · -- then `b` need not
            push Not at hfirst
            obtain ⟨x, hx, hlt⟩ := hfirst
            have hbx : call b ≤ ret x := by
              rcases List.mem_cons.mp hx with rfl | hx
              · exact hc₂ x List.mem_cons_self
              · exact hrb x hx
            have hsecond : ∀ y ∈ a :: l₁, call b ≤ ret y := by
              intro y hy
              have hay : call a ≤ ret y := by
                rcases List.mem_cons.mp hy with rfl | hy
                · exact hc₁ y List.mem_cons_self
                · exact hra y hy
              exact le_trans hbx (le_trans (le_of_lt hlt) hay)
            obtain ⟨l, hl, hl₁, hl₂⟩ := ih₂ (fun y hy => hp₂ y (List.mem_cons_of_mem _ hy))
              hr₂' (fun y hy => hc₂ y (List.mem_cons_of_mem _ hy))
            refine ⟨b :: l, List.pairwise_cons.mpr ⟨fun y hy => ?_, hl⟩, ?_, ?_⟩
            · cases hpy : p y with
              | true => exact hsecond y (by rw [← hl₁]; exact List.mem_filter.mpr ⟨hy, hpy⟩)
              | false =>
                  exact hrb y (by rw [← hl₂]; exact List.mem_filter.mpr ⟨hy, by simp [hpy]⟩)
            · rw [List.filter_cons_of_neg (by simp [hb]), hl₁]
            · rw [List.filter_cons_of_pos (by simp [hb]), hl₂]

/-- Orders of the operations on each object can be merged into one of all operations. -/
theorem exists_order [DecidableEq κ] (key : α → κ) {H : List α}
    (hc : ∀ a ∈ H, call a ≤ ret a) {order : κ → List α}
    (hperm : ∀ k, (order k).Perm (H.filter fun a => key a = k))
    (hreal : ∀ k, RealTime call ret (order k)) :
    ∃ l, l.Perm H ∧ RealTime call ret l ∧ ∀ k, (l.filter fun a => key a = k) = order k := by
  -- one object after the other; `ks` are those still to come
  have main : ∀ (ks : List κ) (H : List α), ks.Nodup → (∀ a ∈ H, key a ∈ ks) →
      (∀ a ∈ H, call a ≤ ret a) → (∀ k ∈ ks, (order k).Perm (H.filter fun a => key a = k)) →
      ∃ l, l.Perm H ∧ RealTime call ret l ∧
        ∀ k ∈ ks, (l.filter fun a => key a = k) = order k := by
    intro ks
    induction ks with
    | nil =>
        intro H _ hkeys _ _
        have hH : H = [] := List.eq_nil_iff_forall_not_mem.mpr fun a ha => by simpa using hkeys a ha
        exact ⟨[], by rw [hH], .nil, fun k hk => by cases hk⟩
    | cons k ks ih =>
        intro H hnd hkeys hc hperm
        obtain ⟨hk, hnd⟩ := List.nodup_cons.mp hnd
        have hrest : ∀ {l : List α} {j : κ}, j ∈ ks →
            (l.filter fun a => !decide (key a = k)).filter (fun a => key a = j) =
              l.filter fun a => key a = j := by
          intro l j hj
          rw [List.filter_filter]
          refine List.filter_congr fun a _ => ?_
          by_cases haj : key a = j
          · have hjk : j ≠ k := fun hjk => hk (hjk ▸ hj)
            simp [haj, hjk]
          · simp [haj]
        obtain ⟨l', hl', hreal', hkeys'⟩ := ih (H.filter fun a => !decide (key a = k)) hnd
          (fun a ha => by
            obtain ⟨ha, hne⟩ := List.mem_filter.mp ha
            exact (List.mem_cons.mp (hkeys a ha)).resolve_left (by simpa using hne))
          (fun a ha => hc a (List.mem_of_mem_filter ha))
          (fun j hj => by rw [hrest hj]; exact hperm j (List.mem_cons_of_mem _ hj))
        have hone : ∀ a ∈ order k, a ∈ H ∧ key a = k := fun a ha => by
          simpa using (hperm k List.mem_cons_self).mem_iff.mp ha
        have hothers : ∀ a ∈ l', a ∈ H ∧ key a ≠ k := fun a ha => by
          simpa using hl'.mem_iff.mp ha
        have htrue : ∀ a ∈ order k, decide (key a = k) = true :=
          fun a ha => decide_eq_true (hone a ha).2
        obtain ⟨l, hl, hl₁, hl₂⟩ := exists_merge (fun a => decide (key a = k)) htrue
          (fun a ha => decide_eq_false (hothers a ha).2) (hreal k) hreal'
          (fun a ha => hc a (hone a ha).1) (fun a ha => hc a (hothers a ha).1)
        refine ⟨l, ?_, hl, fun j hj => ?_⟩
        · refine (List.filter_append_perm (fun a => decide (key a = k)) l).symm.trans ?_
          refine List.Perm.trans ?_ (List.filter_append_perm (fun a => decide (key a = k)) H)
          rw [hl₁, hl₂]
          exact (hperm k List.mem_cons_self).append hl'
        · rcases List.mem_cons.mp hj with rfl | hj
          · exact hl₁
          · rw [← hkeys' j hj, ← hl₂, hrest hj]
  obtain ⟨l, hl, hreal', hkeys⟩ := main (H.map key).dedup H (List.nodup_dedup _)
    (fun a ha => List.mem_dedup.mpr (List.mem_map_of_mem ha)) hc fun k _ => hperm k
  refine ⟨l, hl, hreal', fun k => ?_⟩
  by_cases hk : k ∈ H.map key
  · exact hkeys k (List.mem_dedup.mpr hk)
  · -- nothing goes to this object
    have hnone : ∀ {l : List α}, l.Perm H → (l.filter fun a => key a = k) = [] := by
      intro l hl
      refine List.filter_eq_nil_iff.mpr fun a ha => ?_
      have hne : key a ≠ k := fun hak => hk (List.mem_map.mpr ⟨a, hl.mem_iff.mp ha, hak⟩)
      simpa using hne
    have hempty := hperm k
    rw [hnone (.refl H)] at hempty
    rw [hnone hl, hempty.eq_nil]

end RealTime

/-! ## Sequential models -/

/-- A recorded operation: who made it, what was asked and when, what was answered and when. -/
structure Operation (ι ο : Type) where
  clientId : ℤ
  input : ι
  call : ℤ
  output : ο
  ret : ℤ
  deriving DecidableEq

/-- A sequential model: whether it allows an answer in a state, and its next state. -/
structure Model (σ ι ο : Type) where
  init : σ
  step : σ → ι → ο → Bool × σ

namespace Model

variable {σ ι ο : Type} (M : Model σ ι ο)

/-- The model allows the operations one after the other. -/
def Legal : σ → List (Operation ι ο) → Prop
  | _, [] => True
  | s, o :: l => (M.step s o.input o.output).1 = true ∧ Legal (M.step s o.input o.output).2 l

/-- Some order of the operations respects real time and is legal. -/
def Linearizable (ops : List (Operation ι ο)) : Prop :=
  ∃ l : List (Operation ι ο), l.Perm ops ∧ RealTime Operation.call Operation.ret l ∧
    M.Legal M.init l

/-- A model of one object, and a history cut into the operations on each object: the parts are
linearizable just if all operations have one order in which each object sees a legal sequence. -/
theorem linearizable_parts_iff {κ : Type} [DecidableEq κ] (key : Operation ι ο → κ)
    {ops : List (Operation ι ο)} {parts : List (List (Operation ι ο))}
    (hparts : ∀ part, part ∈ parts ↔ part ≠ [] ∧ ∃ k, part = ops.filter (key · = k))
    (htime : ∀ o ∈ ops, o.call ≤ o.ret) :
    (∀ part ∈ parts, M.Linearizable part) ↔ ∃ l : List (Operation ι ο), l.Perm ops ∧
      RealTime Operation.call Operation.ret l ∧
      ∀ k, M.Legal M.init (l.filter (key · = k)) := by
  constructor
  · intro h
    have hkey : ∀ k, M.Linearizable (ops.filter (key · = k)) := by
      intro k
      by_cases hnil : ops.filter (key · = k) = []
      · rw [hnil]
        exact ⟨[], .refl _, .nil, trivial⟩
      · exact h _ ((hparts _).mpr ⟨hnil, k, rfl⟩)
    choose order hperm hreal hlegal using hkey
    obtain ⟨l, hl, hr, hkeys⟩ := exists_order key htime hperm hreal
    exact ⟨l, hl, hr, fun k => by rw [hkeys k]; exact hlegal k⟩
  · rintro ⟨l, hl, hreal, hlegal⟩ part hpart
    obtain ⟨-, k, rfl⟩ := (hparts part).mp hpart
    exact ⟨l.filter (key · = k), hl.filter _, hreal.filter _, hlegal k⟩

end Model

end ToyRaft
