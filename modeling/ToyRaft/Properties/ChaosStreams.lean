import ToyRaft.Transport.Hub

/-!
# The drop rate of one node and the other knobs

Two runs of a hub that differ only in the drop rates of one node.  The streams of the two runs
stay in step (`Aligned`) as long as each send by that node draws the same number of times in both:
a rate that is not positive draws nothing from the drop stream, and a message that is dropped draws
nothing for its delay and its duplicate.
-/

namespace ToyRaft

namespace Inproc

variable {ρ : Type} {g : Rand ρ}

/-- The same streams and knobs, but for the drop rate of `x` and the stream of the shuffles. -/
structure Aligned (x : NodeID) (c₁ c₂ : Chaos ρ) : Prop where
  dropRNG : c₁.dropRNG = c₂.dropRNG
  delayRNG : c₁.delayRNG = c₂.delayRNG
  dupRNG : c₁.dupRNG = c₂.dupRNG
  partitions : c₁.partitions = c₂.partitions
  dropPerNode : ∀ id, id ≠ x → c₁.dropPerNode id = c₂.dropPerNode id
  delayMin : c₁.delayMin = c₂.delayMin
  delayMax : c₁.delayMax = c₂.delayMax
  dupRate : c₁.dupRate = c₂.dupRate

namespace Aligned

variable {x : NodeID} {c₁ c₂ : Chaos ρ}

lemma dropDecision (h : Aligned x c₁ c₂) {id : NodeID}
    (hoff : id = x → (c₁.dropPerNode x).off = (c₂.dropPerNode x).off) :
    Aligned x (c₁.dropDecision g id).2 (c₂.dropDecision g id).2 ∧
      (id ≠ x → (c₁.dropDecision g id).1 = (c₂.dropDecision g id).1) := by
  have hsign : (c₁.dropPerNode id).off = (c₂.dropPerNode id).off := by
    by_cases hid : id = x
    · rw [hid]
      exact hoff hid
    · rw [h.dropPerNode id hid]
  unfold Chaos.dropDecision
  dsimp only
  rw [hsign]
  split_ifs
  · exact ⟨h, fun _ => rfl⟩
  · rw [h.dropRNG]
    exact ⟨{ h with dropRNG := rfl }, fun hid => by rw [h.dropPerNode id hid]⟩

lemma sampleDelay (h : Aligned x c₁ c₂) :
    (c₁.sampleDelay g = none ∧ c₂.sampleDelay g = none) ∨
      ∃ d c₁' c₂', c₁.sampleDelay g = some (d, c₁') ∧ c₂.sampleDelay g = some (d, c₂') ∧
        Aligned x c₁' c₂' := by
  have hspan : c₁.delayMax - c₁.delayMin = c₂.delayMax - c₂.delayMin := by
    rw [h.delayMax, h.delayMin]
  have hle : c₁.delayMax ≤ c₁.delayMin ↔ c₂.delayMax ≤ c₂.delayMin := by
    rw [h.delayMax, h.delayMin]
  by_cases hdeg : c₂.delayMax ≤ c₂.delayMin
  · refine .inr ⟨c₂.delayMin, c₁, c₂, ?_, ?_, h⟩
    · rw [Chaos.sampleDelay, if_pos (hle.mpr hdeg), h.delayMin]
    · rw [Chaos.sampleDelay, if_pos hdeg]
  · rw [Chaos.sampleDelay, Chaos.sampleDelay, if_neg (mt hle.mp hdeg), if_neg hdeg]
    dsimp only
    rw [hspan]
    split_ifs
    · exact .inl ⟨rfl, rfl⟩
    · have hdraw : ∀ n, g.uint64n c₁.delayRNG n = g.uint64n c₂.delayRNG n := fun n => by
        rw [h.delayRNG]
      rw [hdraw]
      generalize g.uint64n c₂.delayRNG _ = draw
      refine .inr ⟨_, _, { c₂ with delayRNG := draw.2 }, rfl, ?_, ?_⟩
      · rw [h.delayMin]
      · exact { h with delayRNG := rfl }

lemma dupDecision (h : Aligned x c₁ c₂) :
    (c₁.dupDecision g).1 = (c₂.dupDecision g).1 ∧
      Aligned x (c₁.dupDecision g).2 (c₂.dupDecision g).2 := by
  have hoff : c₁.dupRate.off = c₂.dupRate.off := by rw [h.dupRate]
  rw [Chaos.dupDecision, Chaos.dupDecision, hoff]
  split_ifs
  · exact ⟨rfl, h⟩
  · dsimp only
    exact ⟨by rw [h.dupRate, h.dupRNG], { h with dupRNG := by rw [h.dupRNG] }⟩

/-- A message that is dropped in neither run draws the same. -/
lemma timing (h : Aligned x c₁ c₂) :
    (c₁.timing g).1 = (c₂.timing g).1 ∧ Aligned x (c₁.timing g).2 (c₂.timing g).2 := by
  unfold Chaos.timing
  rcases h.sampleDelay (g := g) with ⟨h₁, h₂⟩ | ⟨d, c₁', c₂', h₁, h₂, h'⟩
  · rw [h₁, h₂]
    exact ⟨rfl, h⟩
  · rw [h₁, h₂]
    dsimp only
    rw [h'.dupDecision.1]
    exact ⟨rfl, h'.dupDecision.2⟩

end Aligned

/-- With one delay for all and no duplicates nothing is drawn. -/
lemma Chaos.timing_of_calm {c : Chaos ρ} (hdelay : c.delayMax ≤ c.delayMin)
    (hdup : c.dupRate.off = true) : c.timing g = (.sent c.delayMin false, c) := by
  rw [Chaos.timing, Chaos.sampleDelay, if_pos hdelay]
  dsimp only
  rw [Chaos.dupDecision, if_pos hdup]

/-- A drop changes its own stream only. -/
lemma Chaos.timing_dropDecision_of_calm {c : Chaos ρ} (hdelay : c.delayMax ≤ c.delayMin)
    (hdup : c.dupRate.off = true) (id : NodeID) :
    (c.dropDecision g id).2.timing g = (.sent c.delayMin false, (c.dropDecision g id).2) := by
  unfold Chaos.dropDecision
  dsimp only
  split_ifs
  · exact Chaos.timing_of_calm hdelay hdup
  · exact Chaos.timing_of_calm hdelay hdup

/-- A send by `x` in two runs that does not bring the streams out of step: it draws in both or in
neither, and it is dropped in both or in neither, unless there is nothing else to draw. -/
def Harmless (g : Rand ρ) (x toNode : NodeID) (c₁ c₂ : Chaos ρ) : Prop :=
  c₁.isPartitioned x toNode = false →
    (c₁.dropPerNode x).off = (c₂.dropPerNode x).off ∧
      ((c₁.dropDecision g x).1 = (c₂.dropDecision g x).1 ∨
        (c₁.delayMax ≤ c₁.delayMin ∧ c₁.dupRate.off = true))

instance (g : Rand ρ) (x toNode : NodeID) (c₁ c₂ : Chaos ρ) :
    Decidable (Harmless g x toNode c₁ c₂) := inferInstanceAs (Decidable (_ → _))

lemma Aligned.decide {x fromNode toNode : NodeID} {c₁ c₂ : Chaos ρ} (h : Aligned x c₁ c₂)
    (hx : fromNode = x → Harmless g x toNode c₁ c₂) :
    Aligned x (c₁.decide g fromNode toNode).2 (c₂.decide g fromNode toNode).2 ∧
      (fromNode ≠ x → (c₁.decide g fromNode toNode).1 = (c₂.decide g fromNode toNode).1) ∧
      ((c₁.decide g fromNode toNode).1 ≠ .dropped → (c₂.decide g fromNode toNode).1 ≠ .dropped →
        (c₁.decide g fromNode toNode).1 = (c₂.decide g fromNode toNode).1) ∧
      ((c₁.decide g fromNode toNode).1 = .panicked ↔
        (c₂.decide g fromNode toNode).1 = .panicked) := by
  have hcut : c₁.isPartitioned fromNode toNode = c₂.isPartitioned fromNode toNode := by
    rw [Chaos.isPartitioned, Chaos.isPartitioned, h.partitions]
  unfold Chaos.decide
  rw [hcut]
  by_cases hpart : c₂.isPartitioned fromNode toNode = true
  · rw [if_pos hpart, if_pos hpart]
    exact ⟨h, fun _ => rfl, fun _ _ => rfl, .rfl⟩
  rw [if_neg hpart, if_neg hpart]
  dsimp only
  have hharm : fromNode = x → (c₁.dropPerNode x).off = (c₂.dropPerNode x).off ∧
      ((c₁.dropDecision g x).1 = (c₂.dropDecision g x).1 ∨
        (c₁.delayMax ≤ c₁.delayMin ∧ c₁.dupRate.off = true)) := by
    rintro rfl
    exact hx rfl (by rw [hcut]; simpa using hpart)
  obtain ⟨hdrop, hother⟩ := h.dropDecision (g := g) fun hid => (hharm hid).1
  by_cases hsame : (c₁.dropDecision g fromNode).1 = (c₂.dropDecision g fromNode).1
  · rw [hsame]
    split_ifs
    · exact ⟨hdrop, fun _ => rfl, fun _ _ => rfl, .rfl⟩
    · obtain ⟨heq, hrest⟩ := hdrop.timing (g := g)
      exact ⟨hrest, fun _ => heq, fun _ _ => heq, by rw [heq]⟩
  · -- The two runs disagree, so the sender is `x`, and there is nothing else to draw.
    obtain rfl : fromNode = x := by
      by_contra hne
      exact hsame (hother hne)
    obtain ⟨hdelay, hdup⟩ := (hharm rfl).2.resolve_left hsame
    rw [Chaos.timing_dropDecision_of_calm hdelay hdup, Chaos.timing_dropDecision_of_calm
      (h.delayMin ▸ h.delayMax ▸ hdelay) (h.dupRate ▸ hdup)]
    refine ⟨?_, fun hne => absurd rfl hne, ?_, ?_⟩
    · split_ifs <;> exact hdrop
    · split_ifs with h₁ h₂ h₂
      · exact absurd (h₁.trans h₂.symm) hsame
      · exact fun hne => absurd rfl hne
      · exact fun _ hne => absurd rfl hne
      · exact fun _ _ => by rw [h.delayMin]
    · split_ifs <;> simp

/-! ## Runs -/

/-- The event sets the drop rate of `x`. -/
def Event.rates (x : NodeID) : Event → Bool
  | .dropRate id _ => id = x
  | _ => false

/-- A list of events without those. -/
def withoutRates (x : NodeID) (es : List Event) : List Event := es.filter fun e => !e.rates x

lemma withoutRates_cons_of_rates {x : NodeID} {e : Event} (he : e.rates x = true)
    (es : List Event) : withoutRates x (e :: es) = withoutRates x es := by
  simp [withoutRates, he]

lemma withoutRates_cons {x : NodeID} {e : Event} (he : ¬ e.rates x = true) (es : List Event) :
    withoutRates x (e :: es) = e :: withoutRates x es := by
  simp [withoutRates, he]

/-- The sender and the message of a send. -/
def Event.sendOf : Event → Option (NodeID × Message)
  | .send fromNode msg => some (fromNode, msg)
  | _ => none

/-- The sends of a run. -/
def sends (g : Rand ρ) (h : Hub ρ) (es : List Event) : List (Moment ρ) :=
  (trace g h es).filter fun m => m.event.sendOf.isSome

lemma Hub.drainLoop_chaos (n : ℕ) (h : Hub ρ) :
    ∃ r, (Hub.drainLoop g n h).1.chaos = { h.chaos with reorderRNG := r } := by
  induction n generalizing h with
  | zero => exact ⟨h.chaos.reorderRNG, rfl⟩
  | succ n ih =>
      rw [Hub.drainLoop]
      dsimp only
      split_ifs
      · exact ⟨h.chaos.reorderRNG, rfl⟩
      · obtain ⟨r, hr⟩ := orderLocked_chaos (g := g) h.sortedNodes h.chaos
          (drainDueLocked h.now h.queue).1
        obtain ⟨r', hr'⟩ := ih { h with
          queue := (drainDueLocked h.now h.queue).2,
          chaos := (orderLocked g h.sortedNodes h.chaos (drainDueLocked h.now h.queue).1).2 }
        refine ⟨r', ?_⟩
        rw [hr']
        dsimp only
        rw [hr]

lemma Aligned.step {x : NodeID} {h₁ h₂ : Hub ρ} (h : Aligned x h₁.chaos h₂.chaos) {e : Event}
    (he : ∀ fromNode msg, e ≠ .send fromNode msg) :
    Aligned x (h₁.step g e).1.chaos (h₂.step g e).1.chaos := by
  cases e with
  | connect id =>
      have hchaos : ∀ h : Hub ρ, (h.connect id).chaos = h.chaos := by
        intro h
        unfold Hub.connect
        split_ifs <;> rfl
      show Aligned x (h₁.connect id).chaos (h₂.connect id).chaos
      rw [hchaos, hchaos]
      exact h
  | send fromNode msg => exact absurd rfl (he fromNode msg)
  | partition a b => exact { h with partitions := by dsimp only [Hub.step]; rw [h.partitions] }
  | heal a b => exact { h with partitions := by dsimp only [Hub.step]; rw [h.partitions] }
  | dropRate id p =>
      refine { h with dropPerNode := fun id' hid' => ?_ }
      dsimp only [Hub.step]
      rw [Function.update_apply, Function.update_apply, h.dropPerNode id' hid']
  | delay lo hi => exact { h with delayMin := rfl, delayMax := rfl }
  | reorder enabled qd => exact { h with }
  | duplicate p => exact { h with dupRate := rfl }
  | advance d => exact h
  | drain =>
      obtain ⟨r₁, hr₁⟩ := Hub.drainLoop_chaos (g := g) (h₁.queue.length + 1) h₁
      obtain ⟨r₂, hr₂⟩ := Hub.drainLoop_chaos (g := g) (h₂.queue.length + 1) h₂
      show Aligned x (Hub.drainLoop g _ h₁).1.chaos (Hub.drainLoop g _ h₂).1.chaos
      rw [hr₁, hr₂]
      exact { h with }

lemma Aligned.of_rates {x : NodeID} {h₁ : Hub ρ} {c : Chaos ρ} (h : Aligned x h₁.chaos c)
    {e : Event} (he : e.rates x = true) : Aligned x (h₁.step g e).1.chaos c := by
  cases e with
  | dropRate id p =>
      obtain rfl : id = x := by simpa [Event.rates] using he
      refine { h with dropPerNode := fun id' hid' => ?_ }
      dsimp only [Hub.step]
      rw [Function.update_of_ne hid', h.dropPerNode id' hid']
  | _ => cases he

lemma Aligned.symm {x : NodeID} {c₁ c₂ : Chaos ρ} (h : Aligned x c₁ c₂) : Aligned x c₂ c₁ where
  dropRNG := h.dropRNG.symm
  delayRNG := h.delayRNG.symm
  dupRNG := h.dupRNG.symm
  partitions := h.partitions.symm
  dropPerNode id hid := (h.dropPerNode id hid).symm
  delayMin := h.delayMin.symm
  delayMax := h.delayMax.symm
  dupRate := h.dupRate.symm

lemma sends_cons_of_ne {e : Event} (he : ∀ fromNode msg, e ≠ .send fromNode msg) (h : Hub ρ)
    (es : List Event) : sends g h (e :: es) = sends g (h.step g e).1 es := by
  cases e with
  | send fromNode msg => exact absurd rfl (he fromNode msg)
  | _ => rfl

lemma sends_cons_send (fromNode : NodeID) (msg : Message) (h : Hub ρ) (es : List Event) :
    sends g h (.send fromNode msg :: es) =
      { before := h, event := .send fromNode msg,
        outcome := (h.step g (.send fromNode msg)).2 } ::
      if (h.chaos.decide g fromNode msg.toNode).1 = .panicked then []
      else sends g (h.step g (.send fromNode msg)).1 es := by
  have hout : (h.step g (.send fromNode msg)).2 =
      .sent (h.chaos.decide g fromNode msg.toNode).1
        (h.copies fromNode msg (h.chaos.decide g fromNode msg.toNode).1) := rfl
  rw [sends, trace, List.filter_cons_of_pos rfl, hout]
  cases (h.chaos.decide g fromNode msg.toNode).1 <;> rfl

/-- What was decided at a send. -/
def Moment.fate (m : Moment ρ) : Option Decision :=
  match m.outcome with
  | .sent decision _ => some decision
  | _ => none

/-- What the two runs agree on at a send: the event, and the fate of the message if it is not by
`x` or is dropped in neither. -/
def SameFate (x : NodeID) (m₁ m₂ : Moment ρ) : Prop :=
  ∃ fromNode msg, m₁.event = .send fromNode msg ∧ m₂.event = .send fromNode msg ∧
    (fromNode ≠ x → m₁.fate = m₂.fate) ∧
    (m₁.fate ≠ some .dropped → m₂.fate ≠ some .dropped → m₁.fate = m₂.fate)

/-- The sends of two runs whose streams are in step at the start. -/
lemma Aligned.sends {x : NodeID} {h₁ h₂ : Hub ρ} (h : Aligned x h₁.chaos h₂.chaos)
    {es₁ es₂ : List Event}
    (hsame : withoutRates x es₁ = withoutRates x es₂)
    (hx : ∀ p ∈ (sends g h₁ es₁).zip (sends g h₂ es₂), ∀ s ∈ p.1.event.sendOf, s.1 = x →
      Harmless g x s.2.toNode p.1.before.chaos p.2.before.chaos) :
    List.Forall₂ (SameFate x) (Inproc.sends g h₁ es₁) (Inproc.sends g h₂ es₂) := by
  induction hn : es₁.length + es₂.length using Nat.strong_induction_on
    generalizing h₁ h₂ es₁ es₂ with
  | _ n ih =>
      have hquiet : ∀ e : Event, e.rates x = true → ∀ f m, e ≠ .send f m := by
        rintro e he f m rfl
        cases he
      by_cases hleft : ∃ e es, es₁ = e :: es ∧ e.rates x = true
      · obtain ⟨e, es, rfl, he⟩ := hleft
        rw [sends_cons_of_ne (hquiet e he)] at hx ⊢
        rw [withoutRates_cons_of_rates he] at hsame
        exact ih _ (by simp at hn; omega) (h.of_rates he) hsame hx rfl
      by_cases hright : ∃ e es, es₂ = e :: es ∧ e.rates x = true
      · obtain ⟨e, es, rfl, he⟩ := hright
        rw [sends_cons_of_ne (hquiet e he)] at hx ⊢
        rw [withoutRates_cons_of_rates he] at hsame
        exact ih _ (by simp at hn; omega) (h.symm.of_rates he).symm hsame hx rfl
      -- No rate is set next, so both runs go on with the same event.
      have hkept₁ : ∀ e es, es₁ = e :: es → ¬ e.rates x = true :=
        fun e es heq he => hleft ⟨e, es, heq, he⟩
      have hkept₂ : ∀ e es, es₂ = e :: es → ¬ e.rates x = true :=
        fun e es heq he => hright ⟨e, es, heq, he⟩
      match es₁, es₂ with
      | [], [] => exact .nil
      | [], e :: es =>
          rw [withoutRates_cons (hkept₂ e es rfl)] at hsame
          cases hsame
      | e :: es, [] =>
          rw [withoutRates_cons (hkept₁ e es rfl)] at hsame
          cases hsame
      | e :: es₁, e' :: es₂ =>
          rw [withoutRates_cons (hkept₁ e es₁ rfl), withoutRates_cons (hkept₂ e' es₂ rfl)]
            at hsame
          obtain ⟨rfl, hrest⟩ := List.cons.inj hsame
          simp only [List.length_cons] at hn
          by_cases hsend : ∃ f m, e = .send f m
          · obtain ⟨f, m, rfl⟩ := hsend
            rw [sends_cons_send, sends_cons_send] at hx ⊢
            have hharm : f = x → Harmless g x m.toNode h₁.chaos h₂.chaos := by
              rintro rfl
              exact hx _ List.mem_cons_self (f, m) rfl rfl
            obtain ⟨hnext, hother, hboth, hpanic⟩ := h.decide hharm
            refine .cons ⟨f, m, rfl, rfl, fun hne => congrArg some (hother hne), fun h₁ h₂ =>
              congrArg some (hboth (fun heq => h₁ (congrArg some heq))
                fun heq => h₂ (congrArg some heq))⟩ ?_
            by_cases hp : (h₁.chaos.decide g f m.toNode).1 = .panicked
            · rw [if_pos hp, if_pos (hpanic.mp hp)]
              exact .nil
            · rw [if_neg hp, if_neg (mt hpanic.mpr hp)] at hx ⊢
              exact ih _ (by omega) hnext hrest
                (fun p hp => hx p (List.mem_cons_of_mem _ hp)) rfl
          · have hne : ∀ f m, e ≠ .send f m := fun f m heq => hsend ⟨f, m, heq⟩
            rw [sends_cons_of_ne hne, sends_cons_of_ne hne] at hx ⊢
            exact ih _ (by omega) (h.step hne) hrest hx rfl

lemma Aligned.refl (x : NodeID) (c : Chaos ρ) : Aligned x c c where
  dropRNG := rfl
  delayRNG := rfl
  dupRNG := rfl
  partitions := rfl
  dropPerNode _ _ := rfl
  delayMin := rfl
  delayMax := rfl
  dupRate := rfl

/-- Two runs of one hub whose events differ in the drop rates of `x` only.  If the sends by `x`
bring the streams out of step in no place, every other send has the same fate in both runs, and
so has every send by `x` that is dropped in neither. -/
theorem drop_rate_isolated {h : Hub ρ} {x : NodeID} {es₁ es₂ : List Event}
    (hsame : withoutRates x es₁ = withoutRates x es₂)
    (hx : ∀ p ∈ (sends g h es₁).zip (sends g h es₂), ∀ s ∈ p.1.event.sendOf, s.1 = x →
      Harmless g x s.2.toNode p.1.before.chaos p.2.before.chaos) :
    List.Forall₂ (SameFate x) (sends g h es₁) (sends g h es₂) :=
  (Aligned.refl x h.chaos).sends hsame hx

/-- With the seed 1, the rates 1/4 and 1/8 of `x` drop the same of its messages. -/
theorem drop_rate_isolated_lower :
    let h : Hub ℕ := { chaos := newChaos 1 }
    let x : Message := { type := .appendEntries, toNode := "y" }
    let y : Message := { type := .appendEntries, toNode := "x" }
    let es : Rate → List Event := fun p =>
      [.duplicate (.number (11 / 16)), .dropRate "x" p, .send "x" x, .send "y" y]
    List.Forall₂ (SameFate "x") (sends Pcg.source h (es (.number (1 / 4))))
      (sends Pcg.source h (es (.number (1 / 8)))) := by
  intro h x y es
  exact drop_rate_isolated rfl (by decide +kernel)

/-- With the seed 1: the rate 1 of `x` draws from the stream of drops, and a message of `y` that
was dropped at the rate 0 is not.  And what `x` loses at that rate does not draw for a duplicate,
so that a message of `y` is not duplicated that was. -/
theorem drop_rate_shifts_streams :
    let h : Hub ℕ := { chaos := newChaos 1 }
    let x : Message := { type := .appendEntries, toNode := "y" }
    let y : Message := { type := .appendEntries, toNode := "x" }
    let fates : List Event → List (Option Decision) := fun es =>
      (sends Pcg.source h (es ++ [.send "x" x, .send "y" y])).map Moment.fate
    fates [.dropRate "y" (.number (1 / 2))] = [some (.sent 0 false), some .dropped] ∧
    fates [.dropRate "y" (.number (1 / 2)), .dropRate "x" (.number 1)] =
      [some .dropped, some (.sent 0 false)] ∧
    fates [.duplicate (.number (11 / 16))] = [some (.sent 0 false), some (.sent 0 true)] ∧
    fates [.duplicate (.number (11 / 16)), .dropRate "x" (.number 1)] =
      [some .dropped, some (.sent 0 false)] := by
  decide +kernel

end Inproc

end ToyRaft
