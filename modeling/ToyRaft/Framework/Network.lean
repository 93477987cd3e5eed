import Mathlib.Logic.Function.Basic
import ToyRaft.Framework.Machine

/-!
# Parties that exchange messages

A `Network` is a family of parties, each a deterministic automaton whose acts may take a
message from the network and hand messages to it.  Every message handed over stays there, so
loss, duplication, reordering and delay are all schedules.

`invariant` is the assume-guarantee rule: if a party that only ever takes good messages stays
in order and hands over good messages only, then all parties are in order and all messages
are good, at every moment of every run.  What one party goes through in a run is its `course`.
A party may begin a new lifetime, and what every other step respects is respected throughout a
lifetime (`SameLife.rel`).
-/

namespace ToyRaft

/-! ## One party -/

/-- What one party goes through: its state at every moment, and what it does there, if anything.
It starts in a state that is `fresh`, and what it does is `allowed`. -/
structure Course {H A : Type} (step : H → A → H) (fresh : H → Prop) (allowed : A → Prop) where
  states : ℕ → H
  does : ℕ → Option A
  starts : fresh (states 0)
  stays : ∀ t, does t = none → states (t + 1) = states t
  moves : ∀ t a, does t = some a → states (t + 1) = step (states t) a
  permitted : ∀ t a, does t = some a → allowed a

namespace Course

variable {H A : Type} {step : H → A → H} {fresh : H → Prop} {allowed : A → Prop}
  (γ : Course step fresh allowed)

theorem invariant {P : H → Prop} (h0 : ∀ h, fresh h → P h)
    (hstep : ∀ h a, allowed a → P h → P (step h a)) (t : ℕ) : P (γ.states t) := by
  induction t with
  | zero => exact h0 _ γ.starts
  | succ t ih =>
      cases ha : γ.does t with
      | none =>
          rw [γ.stays t ha]
          exact ih
      | some a =>
          rw [γ.moves t a ha]
          exact hstep _ a (γ.permitted t a ha) ih

/-- A new lifetime begins at moment `t`. -/
def RebootsAt (reboots : H → A → Bool) (t : ℕ) : Prop :=
  ∃ a, γ.does t = some a ∧ reboots (γ.states t) a = true

/-- Moments `s ≤ t` belong to one lifetime. -/
def SameLife (reboots : H → A → Bool) (s t : ℕ) : Prop :=
  s ≤ t ∧ ∀ u, s ≤ u → u < t → ¬ γ.RebootsAt reboots u

variable {γ} {reboots : H → A → Bool} {s t : ℕ}

lemma SameLife.succ (h : γ.SameLife reboots s t) (hre : ¬ γ.RebootsAt reboots t) :
    γ.SameLife reboots s (t + 1) := by
  refine ⟨Nat.le_succ_of_le h.1, fun u hsu hut => ?_⟩
  rcases Nat.lt_succ_iff_lt_or_eq.mp hut with hlt | rfl
  · exact h.2 u hsu hlt
  · exact hre

lemma sameLife_self (t : ℕ) : γ.SameLife reboots t t :=
  ⟨le_rfl, fun _ hle hlt => (Nat.not_lt_of_le hle hlt).elim⟩

/-- A lifetime as a whole. -/
theorem SameLife.rel (h : γ.SameLife reboots s t) {R : ℕ → ℕ → Prop} (hrefl : ∀ u, R u u)
    (htrans : ∀ a b c, R a b → R b c → R a c)
    (hstep : ∀ u, ¬ γ.RebootsAt reboots u → R u (u + 1)) : R s t := by
  obtain ⟨hst, hlife⟩ := h
  induction t, hst using Nat.le_induction with
  | base => exact hrefl s
  | succ t hst ih =>
      exact htrans _ _ _ (ih fun u hsu hut => hlife u hsu (Nat.lt_succ_of_lt hut))
        (hstep t (hlife t hst (Nat.lt_succ_self t)))

end Course

/-! ## All parties -/

/-- Parties named by `I` with states in `H` and acts in `A`, exchanging messages of `M`. -/
structure Network (I H A M : Type) where
  start : I → H
  act : I → H → A → H × List M
  /-- Who takes part, and which acts are possible for them. -/
  permits : I → A → Bool
  /-- The message an act takes from the network. -/
  inbound : A → Option M
  addressee : M → I

namespace Network

variable {I H A M : Type} [DecidableEq I] [DecidableEq M] (N : Network I H A M)

/-- The states of all parties and the messages handed over so far. -/
structure State (I H M : Type) where
  parties : I → H
  sent : List M

/-- The act is possible for the party, and what it takes was sent to that party. -/
def Enabled (s : State I H M) (e : I × A) : Prop :=
  N.permits e.1 e.2 = true ∧ ∀ m ∈ N.inbound e.2, m ∈ s.sent ∧ N.addressee m = e.1

instance (s : State I H M) (e : I × A) : Decidable (N.Enabled s e) :=
  inferInstanceAs (Decidable (_ ∧ _))

/-- Execute one act of one party; an act that is not enabled changes nothing. -/
def exec (s : State I H M) (e : I × A) : State I H M :=
  if N.Enabled s e then
    { parties := Function.update s.parties e.1 (N.act e.1 (s.parties e.1) e.2).1
      sent := s.sent ++ (N.act e.1 (s.parties e.1) e.2).2 }
  else s

/-- The network as a machine. -/
def machine : Machine (State I H M) (I × A) where
  init := { parties := N.start, sent := [] }
  step := N.exec

/-- The state of party `i` after the first `t` events. -/
def party (ev : ℕ → I × A) (t : ℕ) (i : I) : H := (N.machine.run ev t).parties i

/-- What party `i` does at moment `t`, if anything. -/
def does (ev : ℕ → I × A) (t : ℕ) (i : I) : Option A :=
  if N.Enabled (N.machine.run ev t) (ev t) ∧ (ev t).1 = i then some (ev t).2 else none

variable {N} {ev : ℕ → I × A} {t : ℕ} {i : I}

lemma does_eq_some {a : A} (h : N.does ev t i = some a) :
    N.Enabled (N.machine.run ev t) (ev t) ∧ ev t = (i, a) := by
  unfold does at h
  split_ifs at h with hen
  obtain ⟨hen, rfl⟩ := hen
  exact ⟨hen, by rw [← Option.some.inj h]⟩

/-- A party that does nothing stays as it is. -/
lemma party_of_does_none (h : N.does ev t i = none) : N.party ev (t + 1) i = N.party ev t i := by
  show (N.exec _ _).parties i = _
  unfold does at h
  unfold exec
  split_ifs at h with hdoes
  split_ifs with hen
  · exact Function.update_of_ne (fun heq => hdoes ⟨hen, heq.symm⟩) _ _
  · rfl

lemma party_of_does_some {a : A} (h : N.does ev t i = some a) :
    N.party ev (t + 1) i = (N.act i (N.party ev t i) a).1 := by
  obtain ⟨hen, hev⟩ := does_eq_some h
  show (N.exec (N.machine.run ev t) (ev t)).parties i = _
  rw [hev] at hen ⊢
  rw [exec, if_pos hen]
  exact Function.update_self _ _ _

lemma permits_of_does {a : A} (h : N.does ev t i = some a) : N.permits i a = true := by
  obtain ⟨hen, hev⟩ := does_eq_some h
  rw [hev] at hen
  exact hen.1

/-- **Assume-guarantee.**  If every party starts in order and, as long as it takes good
messages only, stays in order and hands over good messages only, then at every moment all
parties that take part are in order and all messages are good. -/
theorem invariant {part : I → Prop} {P : I → H → Prop} {Q : M → Prop}
    (hpart : ∀ i a, N.permits i a = true → part i) (h0 : ∀ i, part i → P i (N.start i))
    (hstep : ∀ i h a, N.permits i a = true → (∀ m ∈ N.inbound a, Q m) → P i h →
      P i (N.act i h a).1 ∧ ∀ m ∈ (N.act i h a).2, Q m)
    (ev : ℕ → I × A) (t : ℕ) :
    (∀ i, part i → P i (N.party ev t i)) ∧ ∀ m ∈ (N.machine.run ev t).sent, Q m := by
  refine N.machine.run_invariant_of (A := fun _ _ => True) (t := t)
    (P := fun s => (∀ i, part i → P i (s.parties i)) ∧ ∀ m ∈ s.sent, Q m) ?_ ?_
    (fun _ _ => trivial)
  · exact ⟨h0, fun m hm => by cases hm⟩
  · rintro s ⟨j, a⟩ - ⟨hP, hQ⟩
    have hexec : N.machine.step s (j, a) = N.exec s (j, a) := rfl
    rw [hexec, exec]
    split_ifs with hen
    · have hin : ∀ m ∈ N.inbound a, Q m := fun m hm => hQ m (hen.2 m hm).1
      obtain ⟨hP', hQ'⟩ := hstep j (s.parties j) a hen.1 hin (hP j (hpart j a hen.1))
      refine ⟨fun i hi => ?_, fun m hm => ?_⟩
      · dsimp only
        by_cases hij : i = j
        · rw [hij, Function.update_self]
          exact hP'
        · rw [Function.update_of_ne hij]
          exact hP i hi
      · rcases List.mem_append.mp hm with hm | hm
        · exact hQ m hm
        · exact hQ' m hm
    · exact ⟨hP, hQ⟩

/-- What a party takes from the network is good, if all messages are. -/
lemma inbound_of_does {Q : M → Prop} (hQ : ∀ m ∈ (N.machine.run ev t).sent, Q m) {a : A}
    (h : N.does ev t i = some a) : ∀ m ∈ N.inbound a, Q m := by
  obtain ⟨hen, hev⟩ := does_eq_some h
  rw [hev] at hen
  exact fun m hm => hQ m (hen.2 m hm).1

/-- What party `i` goes through. -/
def course (N : Network I H A M) (ev : ℕ → I × A) (i : I) {fresh : H → Prop} {allowed : A → Prop}
    (hfresh : fresh (N.start i)) (hallowed : ∀ t a, N.does ev t i = some a → allowed a) :
    Course (fun h a => (N.act i h a).1) fresh allowed where
  states t := N.party ev t i
  does t := N.does ev t i
  starts := hfresh
  stays _ h := party_of_does_none h
  moves _ _ h := party_of_does_some h
  permitted := hallowed

end Network

end ToyRaft
