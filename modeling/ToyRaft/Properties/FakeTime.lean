import Mathlib.Algebra.BigOperators.Group.List.Basic
import ToyRaft.Clock.Fake

/-!
# Fake time is additive

`Advance` returns, since every round of its loop uses up one of the fires the timers in the heap
are good for.  Within one call the fires are in the order of their expiry and, at one instant, of
their registration: the timer that is popped is the first of the heap, and a ticker comes back at a
later instant.  A round does not look at the deadline but to stop, so advancing by `a` and then by
`b` makes the same rounds as advancing by `a + b`.
-/

namespace ToyRaft

namespace Clock

/-- The order of fires: by instant, and at one instant by registration. -/
def Fire.Before (x y : Fire) : Prop := x.fireAt < y.fireAt ∨ x.fireAt = y.fireAt ∧ x.seq < y.seq

namespace Fake

variable {f f' : Fake} {deadline : ℤ} {out : List Fire}

/-! ## One round -/

/-- What a round does: the timer is done with, or it comes back one period later. -/
lemma fireTop_cases (f : Fake) (t : FakeTimer) :
    t.stopped = true ∧ f.fireTop t = ([], f.pop.park t) ∨
      t.period ≤ 0 ∧ f.fireTop t = ([t.fire], park { f.pop with now := t.expiry } t) ∨
      0 < t.period ∧ f.fireTop t =
        ([t.fire], register { f.pop with now := t.expiry } t (t.expiry + t.period)) := by
  unfold fireTop
  cases hstopped : t.stopped with
  | true => exact .inl ⟨rfl, rfl⟩
  | false =>
      rcases Int.lt_or_le 0 t.period with hperiod | hperiod
      · exact .inr (.inr ⟨hperiod, by simp [hperiod]⟩)
      · exact .inr (.inl ⟨hperiod, by simp [Int.not_lt.mpr hperiod]⟩)

lemma fireNext_eq_some :
    fireNext deadline f = some (out, f') ↔ ∃ t rest, f.timers.items = t :: rest ∧
      t.expiry ≤ deadline ∧ (f.fireTop t).1 = out ∧ (f.fireTop t).2 = f' := by
  unfold fireNext
  cases f.timers.items with
  | nil => simp
  | cons t rest => grind

lemma fireNext_eq_none :
    fireNext deadline f = none ↔ ∀ t ∈ f.timers.items, deadline < t.expiry := by
  have hsorted := f.timers.sorted
  unfold fireNext
  cases hitems : f.timers.items with
  | nil => simp
  | cons top rest =>
      rw [hitems] at hsorted
      have hrest := (List.pairwise_cons.mp hsorted).1
      constructor
      · intro h t ht
        dsimp only at h
        split_ifs at h with hlt
        rcases List.mem_cons.mp ht with rfl | ht
        · exact hlt
        · have := FakeTimer.less_iff.mp (hrest t ht)
          omega
      · intro h
        exact if_pos (h top List.mem_cons_self)

lemma fireNext_mono {deadline' : ℤ} (hle : deadline ≤ deadline') (g : Fake) (r : List Fire × Fake)
    (h : fireNext deadline g = some r) : fireNext deadline' g = some r := by
  obtain ⟨t, rest, hitems, hdue, hr⟩ := fireNext_eq_some.mp h
  exact fireNext_eq_some.mpr ⟨t, rest, hitems, Int.le_trans hdue hle, hr⟩

/-- A timer one period later, under a new number. -/
def again (f : Fake) (t : FakeTimer) : FakeTimer :=
  { t with expiry := t.expiry + t.period, seq := f.seq + 1 }

/-- The heap after a round: the first timer is gone, or it is there again one period later. -/
lemma fireTop_items {t : FakeTimer} {rest : List FakeTimer} (h : f.timers.items = t :: rest) :
    (t.stopped = true ∨ t.period ≤ 0) ∧ (f.fireTop t).2.timers.items = rest ∨
      0 < t.period ∧ (f.fireTop t).2.timers.items.Perm (f.again t :: rest) := by
  have hpop : f.pop.timers.items = rest := by
    show f.timers.items.tail = rest
    rw [h, List.tail_cons]
  rcases fireTop_cases f t with ⟨hstopped, heq⟩ | ⟨hperiod, heq⟩ | ⟨hperiod, heq⟩
  · rw [heq]
    exact .inl ⟨.inl hstopped, hpop⟩
  · rw [heq]
    exact .inl ⟨.inr hperiod, hpop⟩
  · rw [heq]
    have hperm := register_items { f.pop with now := t.expiry } t (t.expiry + t.period)
    rw [hpop] at hperm
    exact .inr ⟨hperiod, hperm⟩

/-! ## The loop ends -/

lemma rounds_of_due {t : FakeTimer} (hdue : t.expiry ≤ deadline) (hperiod : 0 < t.period) :
    rounds deadline t = ((deadline - t.expiry) / t.period).toNat + 1 := by
  rw [rounds, if_neg (Int.not_lt.mpr hdue), if_pos hperiod]

lemma rounds_again (f : Fake) {t : FakeTimer} (hdue : t.expiry ≤ deadline)
    (hperiod : 0 < t.period) : rounds deadline t = rounds deadline (f.again t) + 1 := by
  have hnonneg : 0 ≤ deadline - t.expiry := by omega
  have hnow := rounds_of_due hdue hperiod
  rcases Int.lt_or_le deadline (t.expiry + t.period) with hlater | hlater
  · have hagain : rounds deadline (f.again t) = 0 := if_pos hlater
    rw [hnow, hagain, Int.ediv_eq_zero_of_lt hnonneg (by omega)]
    rfl
  · have hagain : rounds deadline (f.again t) =
        ((deadline - (t.expiry + t.period)) / t.period).toNat + 1 :=
      rounds_of_due (t := f.again t) hlater hperiod
    have hsub : deadline - (t.expiry + t.period) = deadline - t.expiry + -1 * t.period := by omega
    have hpos : 1 ≤ (deadline - t.expiry) / t.period := by
      rw [Int.le_ediv_iff_mul_le hperiod]
      omega
    rw [hnow, hagain, hsub, Int.add_mul_ediv_right _ _ (by omega)]
    omega

/-- A round uses up one fire of the timers in the heap. -/
lemma remaining_lt (h : fireNext deadline f = some (out, f')) :
    f'.remaining deadline < f.remaining deadline := by
  obtain ⟨t, rest, hitems, hdue, -, rfl⟩ := fireNext_eq_some.mp h
  rw [remaining, remaining, hitems, List.map_cons, List.sum_cons]
  rcases fireTop_items hitems with ⟨-, hrest⟩ | ⟨hperiod, hperm⟩
  · have hpos : 0 < rounds deadline t := by
      unfold rounds
      split_ifs <;> omega
    rw [hrest]
    omega
  · rw [(hperm.map _).sum_eq, List.map_cons, List.sum_cons, rounds_again f hdue hperiod]
    omega

/-! ## The order of the fires -/

/-- Whatever is still in the heap is behind the fire `x`. -/
def Behind (x : Fire) (f : Fake) : Prop := ∀ t ∈ f.timers.items, x.Before t.fire

lemma fire_before_fire {s t : FakeTimer} : s.fire.Before t.fire ↔ s.Less t :=
  FakeTimer.less_iff.symm

/-- What is behind a fire that is no later than the first timer stays there. -/
lemma behind_fireTop {t : FakeTimer} {rest : List FakeTimer} (h : f.timers.items = t :: rest)
    {x : Fire} (hx : x.fireAt ≤ t.expiry) (hrest : ∀ u ∈ rest, x.Before u.fire) :
    Behind x (f.fireTop t).2 := by
  intro u hu
  rcases fireTop_items h with ⟨-, heq⟩ | ⟨hperiod, hperm⟩
  · rw [heq] at hu
    exact hrest u hu
  · rcases List.mem_cons.mp (hperm.subset hu) with rfl | hu
    · have hlater : x.fireAt < t.expiry + t.period := by omega
      exact .inl hlater
    · exact hrest u hu

lemma fires_of_fireTop (f : Fake) (t : FakeTimer) :
    (f.fireTop t).1 = [] ∨ (f.fireTop t).1 = [t.fire] := by
  rcases fireTop_cases f t with ⟨-, heq⟩ | ⟨-, heq⟩ | ⟨-, heq⟩
  · exact .inl (congrArg Prod.fst heq)
  · exact .inr (congrArg Prod.fst heq)
  · exact .inr (congrArg Prod.fst heq)

/-- Within one loop the fires are in order. -/
lemma pairwise_of_runs (h : Loop.Runs (fireNext deadline) f out f') : out.Pairwise Fire.Before := by
  refine (h.pairwise Behind (fun {g o g' x} hstep hx => ?_) fun {g o g'} hstep => ?_).1
  · obtain ⟨t, rest, hitems, -, rfl, rfl⟩ := fireNext_eq_some.mp hstep
    rw [Behind, hitems] at hx
    have htop : x.Before t.fire := hx t List.mem_cons_self
    refine ⟨behind_fireTop hitems ?_ fun u hu => hx u (List.mem_cons_of_mem _ hu), fun y hy => ?_⟩
    · rcases htop with hlt | ⟨heq, -⟩
      · exact Int.le_of_lt hlt
      · exact Int.le_of_eq heq
    · rcases fires_of_fireTop g t with hnil | hone
      · rw [hnil] at hy
        cases hy
      · rw [hone, List.mem_singleton] at hy
        rw [hy]
        exact htop
  · obtain ⟨t, rest, hitems, -, rfl, rfl⟩ := fireNext_eq_some.mp hstep
    have hsorted := g.timers.sorted
    rw [hitems] at hsorted
    have hbehind : Behind t.fire (g.fireTop t).2 :=
      behind_fireTop hitems (Int.le_refl _) fun u hu =>
        fire_before_fire.mpr ((List.pairwise_cons.mp hsorted).1 u hu)
    rcases fires_of_fireTop g t with hnil | hone
    · rw [hnil]
      exact ⟨List.Pairwise.nil, fun x hx => (by cases hx)⟩
    · rw [hone]
      refine ⟨List.pairwise_singleton _ _, fun x hx => ?_⟩
      rw [List.mem_singleton.mp hx]
      exact hbehind

/-! ## Advancing -/

/-- `Advance` is its loop, and then the clock is at the deadline. -/
lemma advance_eq_some {d : ℤ} :
    f.advance d = some (out, f') ↔
      ∃ g, Loop.Runs (fireNext (f.now + d)) f out g ∧ f' = { g with now := f.now + d } := by
  have hrun : ∀ o g, Loop.run (fireNext (f.now + d)) (f.remaining (f.now + d) + 1) f = some (o, g) ↔
      Loop.Runs (fireNext (f.now + d)) f o g :=
    fun _ _ => Loop.run_eq_some_iff remaining_lt (Nat.lt_succ_self _)
  unfold advance
  rw [Option.map_eq_some_iff]
  constructor
  · rintro ⟨⟨o, g⟩, hr, heq⟩
    cases heq
    exact ⟨g, (hrun o g).mp hr, rfl⟩
  · rintro ⟨g, hr, rfl⟩
    exact ⟨(out, g), (hrun out g).mpr hr, rfl⟩

lemma exists_advance (f : Fake) (d : ℤ) : ∃ out f', f.advance d = some (out, f') := by
  obtain ⟨out, g, hrun⟩ : ∃ out g,
      Loop.run (fireNext (f.now + d)) (f.remaining (f.now + d) + 1) f = some (out, g) :=
    Loop.exists_run remaining_lt (Nat.lt_succ_self _)
  exact ⟨out, _, advance_eq_some.mpr ⟨g, Loop.runs_of_run hrun, rfl⟩⟩

lemma fireTop_now (f : Fake) (t : FakeTimer) (x : ℤ) :
    ∃ y, fireTop { f with now := x } t = ((f.fireTop t).1, { (f.fireTop t).2 with now := y }) := by
  unfold fireTop
  split_ifs
  · exact ⟨x, rfl⟩
  · exact ⟨t.expiry, rfl⟩
  · exact ⟨t.expiry, rfl⟩

lemma runs_of_now {g : Fake} (x : ℤ) (h : Loop.Runs (fireNext deadline) f out g) :
    ∃ y, Loop.Runs (fireNext deadline) { f with now := x } out { g with now := y } := by
  have hstop : ∀ {s t : Fake}, (∃ y, t = { s with now := y }) → fireNext deadline s = none →
      fireNext deadline t = none := by
    rintro s t ⟨y, rfl⟩ hs
    have hlate := fireNext_eq_none.mp hs
    exact fireNext_eq_none.mpr hlate
  have hstep : ∀ {s t : Fake} {o : List Fire} {u : Fake}, (∃ y, t = { s with now := y }) →
      fireNext deadline s = some (o, u) →
      ∃ u', fireNext deadline t = some (o, u') ∧ ∃ y, u' = { u with now := y } := by
    rintro s t o u ⟨y, rfl⟩ hs
    obtain ⟨top, rest, hitems, hdue, rfl, rfl⟩ := fireNext_eq_some.mp hs
    obtain ⟨z, hz⟩ := s.fireTop_now top y
    refine ⟨_, fireNext_eq_some.mpr ⟨top, rest, hitems, hdue, ?_, rfl⟩, z, ?_⟩
    · rw [hz]
    · rw [hz]
  obtain ⟨g', hruns, y, rfl⟩ := h.simulate (fun s t => ∃ y, t = { s with now := y }) hstop hstep
    ⟨x, rfl⟩
  exact ⟨y, hruns⟩

/-- Advancing in two parts makes the rounds of advancing at once. -/
lemma advance_add {a b : ℤ} (hb : 0 ≤ b) {fires₁ fires₂ : List Fire} {f₁ f₂ : Fake}
    (h₁ : f.advance a = some (fires₁, f₁)) (h₂ : f₁.advance b = some (fires₂, f₂)) :
    f.advance (a + b) = some (fires₁ ++ fires₂, f₂) := by
  obtain ⟨g₁, hruns₁, rfl⟩ := advance_eq_some.mp h₁
  obtain ⟨g₂, hruns₂, rfl⟩ := advance_eq_some.mp h₂
  have hdeadline : f.now + a + b = f.now + (a + b) := Int.add_assoc _ _ _
  dsimp only at hruns₂ ⊢
  rw [hdeadline] at hruns₂ ⊢
  -- from where the first loop has stopped, the second one does the same at any time
  obtain ⟨y, hrest⟩ := runs_of_now g₁.now hruns₂
  refine advance_eq_some.mpr ⟨{ g₂ with now := y }, ?_, rfl⟩
  exact hruns₁.trans (fireNext_mono (by omega)) hrest

/-! ## What fires

A pending timer stands for its schedule: once at its expiry, and a ticker also at every period
after it.  `Advance` fires the schedules of what is in the heap up to the deadline, no more and no
less. -/

/-- The fires of a timer up to `deadline`. -/
def schedule (deadline : ℤ) (t : FakeTimer) : List (ℕ × ℤ) :=
  (List.range (rounds deadline t)).map fun k : ℕ => (t.id, t.expiry + (k : ℤ) * t.period)

/-- No timer in the heap is stopped: `Stop` takes it out first. -/
def Live (f : Fake) : Prop := ∀ t ∈ f.timers.items, t.stopped = false

lemma schedule_of_late {t : FakeTimer} (h : deadline < t.expiry) : schedule deadline t = [] := by
  rw [schedule, rounds, if_pos h, List.range_zero, List.map_nil]

lemma schedule_once {t : FakeTimer} (hdue : t.expiry ≤ deadline) (hperiod : t.period ≤ 0) :
    schedule deadline t = [(t.id, t.expiry)] := by
  rw [schedule, rounds, if_neg (by omega), if_neg (by omega)]
  simp

lemma schedule_again (f : Fake) {t : FakeTimer} (hdue : t.expiry ≤ deadline)
    (hperiod : 0 < t.period) :
    schedule deadline t = (t.id, t.expiry) :: schedule deadline (f.again t) := by
  rw [schedule, schedule, rounds_again f hdue hperiod, List.range_succ_eq_map, List.map_cons,
    List.map_map]
  congr 1
  · simp
  · refine List.map_congr_left fun k _ => ?_
    simp only [Function.comp_apply, again, Nat.succ_eq_add_one, Int.natCast_add, Int.add_mul]
    congr 1
    omega

/-- A round takes the first fire off the schedules. -/
lemma schedule_round (hlive : f.Live) (h : fireNext deadline f = some (out, f')) :
    (f.timers.items.flatMap (schedule deadline)).Perm
        (out.map (fun x => (x.id, x.fireAt)) ++ f'.timers.items.flatMap (schedule deadline)) ∧
      f'.Live := by
  obtain ⟨t, rest, hitems, hdue, rfl, rfl⟩ := fireNext_eq_some.mp h
  rw [Live, hitems] at hlive
  have hrun : t.stopped = false := hlive t List.mem_cons_self
  have hrest : ∀ u ∈ rest, u.stopped = false := fun u hu => hlive u (List.mem_cons_of_mem _ hu)
  have hfire : (f.fireTop t).1 = [t.fire] := by
    rcases fireTop_cases f t with ⟨hstopped, -⟩ | ⟨-, heq⟩ | ⟨-, heq⟩
    · rw [hrun] at hstopped
      cases hstopped
    · exact congrArg Prod.fst heq
    · exact congrArg Prod.fst heq
  rw [hitems, List.flatMap_cons, hfire]
  rcases fireTop_items hitems with ⟨hdone, heq⟩ | ⟨hperiod, hperm⟩
  · have hperiod : t.period ≤ 0 := hdone.resolve_left (by simp [hrun])
    rw [Live, heq, schedule_once hdue hperiod]
    exact ⟨.refl _, hrest⟩
  · refine ⟨?_, fun u hu => ?_⟩
    · rw [schedule_again f hdue hperiod]
      exact ((hperm.flatMap_right _).symm.cons _)
    · rcases List.mem_cons.mp (hperm.subset hu) with rfl | hu
      · exact hrun
      · exact hrest u hu

/-- A loop fires the schedules up to its deadline. -/
lemma schedule_of_runs (h : Loop.Runs (fireNext deadline) f out f') (hlive : f.Live) :
    (out.map fun x => (x.id, x.fireAt)).Perm (f.timers.items.flatMap (schedule deadline)) ∧
      f'.Live := by
  induction h with
  | stop hstop =>
      have hlate := fireNext_eq_none.mp hstop
      refine ⟨?_, hlive⟩
      rw [List.flatMap_eq_nil_iff.mpr fun t ht => schedule_of_late (hlate t ht)]
      exact .refl _
  | step hstep _ ih =>
      obtain ⟨hround, hlive'⟩ := schedule_round hlive hstep
      obtain ⟨hperm, hend⟩ := ih hlive'
      refine ⟨?_, hend⟩
      rw [List.map_append]
      exact (hperm.append_left _).trans hround.symm

lemma Live.register (h : f.Live) {t : FakeTimer} (ht : t.stopped = false) (expiry : ℤ) :
    (f.register t expiry).Live := by
  intro u hu
  rcases List.mem_cons.mp ((f.register_items t expiry).subset hu) with rfl | hu
  · exact ht
  · exact h u hu

lemma Live.detach (h : f.Live) (id : ℕ) : (f.detach id).Live :=
  fun u hu => h u (List.mem_of_mem_filter hu)

/-- Every call leaves only running timers in the heap. -/
lemma Live.exec (h : f.Live) (c : Call) : (f.exec c).Live := by
  cases c with
  | newTimer d => exact register (f := { f with created := f.created + 1 }) h rfl _
  | newTicker d =>
      dsimp only [Fake.exec, newTicker]
      split_ifs
      · exact h
      · exact register (f := { f with created := f.created + 1 }) h rfl _
  | timerStop id =>
      dsimp only [Fake.exec, timerStop]
      cases f.lookup id with
      | none => exact h
      | some found =>
          dsimp only
          split_ifs
          · exact h
          · exact h.detach id
          · exact h.detach id
  | timerReset id d =>
      dsimp only [Fake.exec, timerReset]
      cases f.lookup id with
      | none => exact h
      | some found => exact (h.detach id).register rfl _
  | tickerStop id =>
      dsimp only [Fake.exec, tickerStop]
      cases f.lookup id with
      | none => exact h
      | some found =>
          dsimp only
          split_ifs
          · exact h
          · exact h.detach id
  | advance d =>
      obtain ⟨fires, f', hf'⟩ := f.exists_advance d
      obtain ⟨g, hruns, rfl⟩ := advance_eq_some.mp hf'
      dsimp only [Fake.exec]
      rw [hf']
      exact (schedule_of_runs hruns h).2

end Fake

lemma live_after (calls : List Call) : (after calls).Live := by
  have hrun : ∀ (f : Fake), f.Live → (calls.foldl Fake.exec f).Live := by
    induction calls with
    | nil => exact fun f hf => hf
    | cons c calls ih => exact fun f hf => ih (f.exec c) (hf.exec c)
  exact hrun newFake fun t ht => by cases ht

/-- After any calls, `Advance` fires what the timers in the heap have on their schedules up to the
deadline, and then nothing in the heap is due. -/
theorem advance_fires_schedules (calls : List Call) (d : ℤ) :
    ∃ fires f, (after calls).advance d = some (fires, f) ∧ f.now = (after calls).now + d ∧
      (fires.map fun x => (x.id, x.fireAt)).Perm
        ((after calls).timers.items.flatMap (Fake.schedule f.now)) ∧
      ∀ t ∈ f.timers.items, f.now < t.expiry := by
  obtain ⟨fires, f, h⟩ := (after calls).exists_advance d
  obtain ⟨g, hruns, rfl⟩ := Fake.advance_eq_some.mp h
  have hlate := Fake.fireNext_eq_none.mp hruns.stopped
  exact ⟨fires, _, h, rfl, (Fake.schedule_of_runs hruns (live_after calls)).1, hlate⟩

/-- After any calls: `Advance` returns, with its fires in the order of instant and registration,
and advancing by `a` and then by `b` fires the same in the same order as advancing by `a + b`, and
leaves the same clock. -/
theorem fake_time_additive (calls : List Call) :
    (∀ d, ∃ fires f, (after calls).advance d = some (fires, f) ∧ fires.Pairwise Fire.Before) ∧
      ∀ a b, 0 ≤ a → 0 ≤ b → ∃ fires₁ f₁ fires₂ f₂,
        (after calls).advance a = some (fires₁, f₁) ∧ f₁.advance b = some (fires₂, f₂) ∧
          (after calls).advance (a + b) = some (fires₁ ++ fires₂, f₂) := by
  refine ⟨fun d => ?_, fun a b _ hb => ?_⟩
  · obtain ⟨fires, f, h⟩ := (after calls).exists_advance d
    obtain ⟨g, hruns, -⟩ := Fake.advance_eq_some.mp h
    exact ⟨fires, f, h, Fake.pairwise_of_runs hruns⟩
  · obtain ⟨fires₁, f₁, h₁⟩ := (after calls).exists_advance a
    obtain ⟨fires₂, f₂, h₂⟩ := f₁.exists_advance b
    exact ⟨fires₁, f₁, fires₂, f₂, h₁, h₂, Fake.advance_add hb h₁ h₂⟩

/-- A ticker of 3 and a timer of 6: at 6 the timer was registered first. -/
theorem fake_time_additive_ticker :
    ∃ fires₁ f₁ fires₂ f₂,
      (after [.newTicker 3, .newTimer 6]).advance 4 = some (fires₁, f₁) ∧
        f₁.advance 2 = some (fires₂, f₂) ∧
        fires₁ ++ fires₂ = [⟨0, 3, 1⟩, ⟨1, 6, 2⟩, ⟨0, 6, 3⟩] := by
  obtain ⟨fires₁, f₁, fires₂, f₂, h₁, h₂, h⟩ :=
    (fake_time_additive [.newTicker 3, .newTimer 6]).2 4 2 (by decide) (by decide)
  have hfires : ((after [.newTicker 3, .newTimer 6]).advance (4 + 2)).map Prod.fst =
      some [⟨0, 3, 1⟩, ⟨1, 6, 2⟩, ⟨0, 6, 3⟩] := by decide +kernel
  rw [h] at hfires
  exact ⟨fires₁, f₁, fires₂, f₂, h₁, h₂, Option.some.inj hfires⟩

end Clock

end ToyRaft
