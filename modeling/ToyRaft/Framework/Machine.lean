import Mathlib.Logic.Function.Basic
import Mathlib.Logic.Relation
import Mathlib.Order.Basic
import Mathlib.Order.Monotone.Basic

/-!
# Deterministic machines and their runs

A `Machine` is a deterministic labelled transition system: a start state and a total step
function.  Nondeterminism lives in the labels, so a run is determined by its schedule of
labels `ev : ℕ → E`, and a statement about every schedule is a statement about every run.
A finite run is a prefix of a schedule.

The induction over a run is packaged once: `run_invariant_of` for a property that the steps
meeting a side condition keep, `run_rel_of_le` for a reflexive and transitive relation between
the states of a run.

`Reaches` is the other direction: what some continuation of a run can lead to, by steps that
meet a condition (`run_of_reaches`).
-/

namespace ToyRaft

/-- A deterministic labelled transition system. -/
structure Machine (S E : Type) where
  init : S
  step : S → E → S

namespace Machine

variable {S E : Type} (M : Machine S E)

/-- The state after the first `t` labels of the schedule. -/
def run (ev : ℕ → E) : ℕ → S
  | 0 => M.init
  | t + 1 => M.step (run ev t) (ev t)

@[simp] lemma run_zero (ev : ℕ → E) : M.run ev 0 = M.init := rfl

/-- A property that holds initially and that every step meeting a side condition keeps holds
as long as the steps of the run meet it. -/
theorem run_invariant_of {P : S → Prop} {A : S → E → Prop} (h0 : P M.init)
    (hstep : ∀ s e, A s e → P s → P (M.step s e)) {ev : ℕ → E} {t : ℕ}
    (hA : ∀ s < t, A (M.run ev s) (ev s)) : P (M.run ev t) := by
  induction t with
  | zero => exact h0
  | succ t ih =>
      exact hstep _ _ (hA t (Nat.lt_succ_self t)) (ih fun s hs => hA s (Nat.lt_succ_of_lt hs))

/-- A reflexive and transitive relation every step respects relates any two moments of a
run. -/
theorem run_rel_of_le {R : S → S → Prop} (hrefl : ∀ s, R s s)
    (htrans : ∀ a b c, R a b → R b c → R a c) (hstep : ∀ s e, R s (M.step s e))
    (ev : ℕ → E) {s t : ℕ} (h : s ≤ t) : R (M.run ev s) (M.run ev t) := by
  induction t, h using Nat.le_induction with
  | base => exact hrefl _
  | succ t _ ih => exact htrans _ _ _ ih (hstep _ _)

/-! ## Continuations -/

/-- A run depends on the labels it has consumed only. -/
lemma run_congr {ev ev' : ℕ → E} {t : ℕ} (h : ∀ u < t, ev' u = ev u) :
    M.run ev' t = M.run ev t := by
  induction t with
  | zero => rfl
  | succ t ih =>
      rw [run, run, ih fun u hu => h u (Nat.lt_succ_of_lt hu), h t (Nat.lt_succ_self t)]

/-- The state `s'` can be reached from `s` by steps that meet the condition `A`. -/
def Reaches (A : S → E → Prop) : S → S → Prop :=
  Relation.ReflTransGen fun s s' => ∃ e, A s e ∧ s' = M.step s e

variable {M}

lemma Reaches.refl {A : S → E → Prop} (s : S) : M.Reaches A s s := Relation.ReflTransGen.refl

lemma Reaches.step {A : S → E → Prop} {s : S} {e : E} (h : A s e) :
    M.Reaches A s (M.step s e) := .single ⟨e, h, rfl⟩

lemma Reaches.trans {A : S → E → Prop} {a b c : S} (h : M.Reaches A a b)
    (h' : M.Reaches A b c) : M.Reaches A a c := Relation.ReflTransGen.trans h h'

/-- What can be reached from a state of a run is a state of a run that begins the same way. -/
theorem run_of_reaches {A : S → E → Prop} {ev : ℕ → E} {t : ℕ} {s : S}
    (h : M.Reaches A (M.run ev t) s) :
    ∃ ev' n, (∀ u < t, ev' u = ev u) ∧ M.run ev' (t + n) = s ∧
      ∀ u, t ≤ u → u < t + n → A (M.run ev' u) (ev' u) := by
  induction h with
  | refl => exact ⟨ev, 0, fun _ _ => rfl, rfl, fun u hu hlt => by omega⟩
  | tail _ hstep ih =>
      obtain ⟨ev', n, hev, hrun, hA⟩ := ih
      obtain ⟨e, he, rfl⟩ := hstep
      have hsame : ∀ u < t + n, Function.update ev' (t + n) e u = ev' u :=
        fun u hu => Function.update_of_ne hu.ne _ _
      refine ⟨Function.update ev' (t + n) e, n + 1, fun u hu => ?_, ?_, fun u hu hlt => ?_⟩
      · rw [hsame u (by omega), hev u hu]
      · rw [← Nat.add_assoc, run, M.run_congr hsame, Function.update_self, hrun]
      · rcases Nat.lt_or_ge u (t + n) with hlt' | hge
        · rw [hsame u hlt', M.run_congr fun v hv => hsame v (by omega)]
          exact hA u hu hlt'
        · obtain rfl : u = t + n := by omega
          rw [Function.update_self, M.run_congr hsame, hrun]
          exact he

variable (M)

/-- The schedule that plays a finite list of labels and then idles. -/
def schedule (idle : E) (es : List E) (t : ℕ) : E := es.getD t idle

end Machine

end ToyRaft
