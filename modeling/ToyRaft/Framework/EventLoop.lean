import Mathlib.Data.List.Sort

/-!
# Event loops

A `PriorityQueue` holds its elements in the order in which they are popped.  A loop repeats a step
until the step stops, and collects what the steps put out.  `Loop.Runs` is that as a relation, and
`Loop.run` as a function that gives up after a number of rounds; a measure that every step brings
down is enough of them (`Loop.run_eq_some_iff`).

If a step stops later than another one and is the same otherwise, then its loop is that of the
other one and its own from there on (`Loop.Runs.trans`).
-/

namespace ToyRaft

/-- A priority queue for the order `r`. -/
structure PriorityQueue {α : Type} (r : α → α → Prop) where
  items : List α
  sorted : items.Pairwise r

namespace PriorityQueue

variable {α : Type} {r : α → α → Prop}

lemma sorted_insert [DecidableRel r] (htrans : ∀ x y z, r x y → r y z → r x z) {l : List α}
    (hl : l.Pairwise r) {x : α} (hx : ∀ y ∈ l, r x y ∨ r y x) :
    (l.orderedInsert r x).Pairwise r := by
  induction l with
  | nil => exact List.pairwise_singleton r x
  | cons y l ih =>
      obtain ⟨hy, hl'⟩ := List.pairwise_cons.mp hl
      rw [List.orderedInsert_cons]
      split_ifs with hxy
      · refine List.pairwise_cons.mpr ⟨fun z hz => ?_, hl⟩
        rcases List.mem_cons.mp hz with rfl | hz
        · exact hxy
        · exact htrans x y z hxy (hy z hz)
      · refine List.pairwise_cons.mpr ⟨fun z hz => ?_, ih hl' fun z hz => hx z (.tail _ hz)⟩
        rcases List.mem_cons.mp ((List.perm_orderedInsert r x l).subset hz) with rfl | hz
        · exact (hx y List.mem_cons_self).resolve_left hxy
        · exact hy z hz

def empty : PriorityQueue r := ⟨[], List.Pairwise.nil⟩

/-- A new element, which is comparable with all that are there. -/
def push [DecidableRel r] (htrans : ∀ x y z, r x y → r y z → r x z) (q : PriorityQueue r) (x : α)
    (hx : ∀ y ∈ q.items, r x y ∨ r y x) : PriorityQueue r :=
  ⟨q.items.orderedInsert r x, sorted_insert htrans q.sorted hx⟩

/-- What is left without the first element. -/
def pop (q : PriorityQueue r) : PriorityQueue r := ⟨q.items.tail, q.sorted.tail⟩

/-- What is left without the elements that satisfy `p`. -/
def remove (p : α → Bool) (q : PriorityQueue r) : PriorityQueue r :=
  ⟨q.items.filter fun x => !p x, q.sorted.filter _⟩

lemma mem_push [DecidableRel r] {htrans : ∀ x y z, r x y → r y z → r x z} {q : PriorityQueue r}
    {x : α} {hx : ∀ y ∈ q.items, r x y ∨ r y x} {y : α} :
    y ∈ (q.push htrans x hx).items ↔ y = x ∨ y ∈ q.items :=
  (List.perm_orderedInsert r x q.items).mem_iff.trans List.mem_cons

end PriorityQueue

/-! ## Loops -/

namespace Loop

variable {σ ε : Type} {step step' : σ → Option (List ε × σ)} {s s' s'' : σ} {out out' : List ε}

/-- The loop of `step` puts out `out` and stops in `s'`. -/
inductive Runs (step : σ → Option (List ε × σ)) : σ → List ε → σ → Prop
  | stop {s : σ} : step s = none → Runs step s [] s
  | step {s s' s'' : σ} {out out' : List ε} :
      step s = some (out, s') → Runs step s' out' s'' → Runs step s (out ++ out') s''

namespace Runs

lemma stopped (h : Runs step s out s') : step s' = none := by
  induction h with
  | stop hs => exact hs
  | step _ _ ih => exact ih

lemma unique (h : Runs step s out s') (h' : Runs step s out' s'') : out = out' ∧ s' = s'' := by
  induction h generalizing out' with
  | stop hs =>
      cases h' with
      | stop _ => exact ⟨rfl, rfl⟩
      | step hs' _ =>
          rw [hs] at hs'
          cases hs'
  | step hs _ ih =>
      cases h' with
      | stop hs' =>
          rw [hs] at hs'
          cases hs'
      | step hs' hrest =>
          rw [hs] at hs'
          cases hs'
          obtain ⟨rfl, rfl⟩ := ih hrest
          exact ⟨rfl, rfl⟩

/-- A loop may be interrupted by that of a step that stops earlier. -/
lemma trans (hext : ∀ t r, step t = some r → step' t = some r) (h : Runs step s out s')
    (h' : Runs step' s' out' s'') : Runs step' s (out ++ out') s'' := by
  induction h with
  | stop _ => exact h'
  | step hs _ ih =>
      rw [List.append_assoc]
      exact .step (hext _ _ hs) (ih h')

/-- Loops from related states are related, if their steps are. -/
lemma simulate {σ' : Type} {step' : σ' → Option (List ε × σ')} (rel : σ → σ' → Prop)
    (hstop : ∀ {t t'}, rel t t' → step t = none → step' t' = none)
    (hstep : ∀ {t t' o u}, rel t t' → step t = some (o, u) →
      ∃ u', step' t' = some (o, u') ∧ rel u u')
    (h : Runs step s out s') {t : σ'} (hrel : rel s t) : ∃ t', Runs step' t out t' ∧ rel s' t' := by
  induction h generalizing t with
  | stop hs => exact ⟨t, .stop (hstop hrel hs), hrel⟩
  | step hs _ ih =>
      obtain ⟨u, hu, hrel'⟩ := hstep hrel hs
      obtain ⟨t', hruns, hend⟩ := ih hrel'
      exact ⟨t', .step hu hruns, hend⟩

/-- What is put out is in the order `R` if every step keeps behind what has been put out.
`Behind x s` says that the loop from `s` on is behind `x`. -/
lemma pairwise {R : ε → ε → Prop} (Behind : ε → σ → Prop)
    (hkeep : ∀ {t o t' x}, step t = some (o, t') → Behind x t → Behind x t' ∧ ∀ y ∈ o, R x y)
    (hnew : ∀ {t o t'}, step t = some (o, t') → o.Pairwise R ∧ ∀ x ∈ o, Behind x t')
    (h : Runs step s out s') : out.Pairwise R ∧ ∀ x, Behind x s → ∀ y ∈ out, R x y := by
  induction h with
  | stop _ => exact ⟨List.Pairwise.nil, fun x _ y hy => (by cases hy)⟩
  | step hs _ ih =>
      obtain ⟨ho, hbehind⟩ := hnew hs
      refine ⟨List.pairwise_append.mpr ⟨ho, ih.1, fun x hx => ih.2 x (hbehind x hx)⟩, ?_⟩
      intro x hx y hy
      obtain ⟨hx', hout⟩ := hkeep hs hx
      rcases List.mem_append.mp hy with hy | hy
      · exact hout y hy
      · exact ih.2 x hx' y hy

end Runs

/-- The loop, if it stops in fewer than `n` steps. -/
def run (step : σ → Option (List ε × σ)) : ℕ → σ → Option (List ε × σ)
  | 0, _ => none
  | n + 1, s =>
      match step s with
      | none => some ([], s)
      | some (out, s') => (run step n s').map fun r => (out ++ r.1, r.2)

lemma runs_of_run {n : ℕ} (h : run step n s = some (out, s')) : Runs step s out s' := by
  induction n generalizing s out with
  | zero => cases h
  | succ n ih =>
      rw [run] at h
      cases hstep : step s with
      | none =>
          rw [hstep] at h
          cases h
          exact .stop hstep
      | some r =>
          rw [hstep] at h
          obtain ⟨rest, hrest, heq⟩ := Option.map_eq_some_iff.mp h
          cases heq
          exact .step hstep (ih hrest)

/-- A loop whose step brings a measure down stops. -/
lemma exists_run {m : σ → ℕ} (hm : ∀ {t o t'}, step t = some (o, t') → m t' < m t) {n : ℕ}
    (hn : m s < n) : ∃ out s', run step n s = some (out, s') := by
  induction n generalizing s with
  | zero => exact absurd hn (Nat.not_lt_zero _)
  | succ n ih =>
      rw [run]
      cases hstep : step s with
      | none => exact ⟨[], s, rfl⟩
      | some r =>
          obtain ⟨o, t⟩ := r
          have hlt := hm hstep
          obtain ⟨out, s', hrun⟩ := ih (s := t) (by omega)
          dsimp only
          rw [hrun]
          exact ⟨o ++ out, s', rfl⟩

/-- Rounds in the number of the measure are enough, and more of them change nothing. -/
lemma run_eq_some_iff {m : σ → ℕ} (hm : ∀ {t o t'}, step t = some (o, t') → m t' < m t) {n : ℕ}
    (hn : m s < n) : run step n s = some (out, s') ↔ Runs step s out s' := by
  refine ⟨runs_of_run, fun h => ?_⟩
  obtain ⟨o, t, hrun⟩ := exists_run hm hn
  obtain ⟨rfl, rfl⟩ := h.unique (runs_of_run hrun)
  exact hrun

end Loop

end ToyRaft
