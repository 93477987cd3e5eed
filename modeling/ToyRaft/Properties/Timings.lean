import Mathlib.Tactic.Linarith
import ToyRaft.Core.Node

/-!
# Timings that `Validate` accepts

A tick is one heartbeat interval, and an election timeout is drawn in ticks.  `Validate` compares
the bounds of the timeout with each other and with three heartbeat intervals, but it does not ask
that the interval is positive, and its product wraps around.  So it accepts an interval that is
negative, and one so long that a timeout is less than three ticks (`validate_accepts_unusable`).
These are the only accepted timings that do not work (`timings_usable_iff`).
-/

namespace ToyRaft

/-- A value of the source's `int64`. -/
def IsInt64 (x : ℤ) : Prop := -2 ^ 63 ≤ x ∧ x < 2 ^ 63

instance (x : ℤ) : Decidable (IsInt64 x) := inferInstanceAs (Decidable (_ ∧ _))

lemma wrap64_of_isInt64 {x : ℤ} (h : IsInt64 x) : wrap64 x = x :=
  Int.bmod_eq_of_le (by have := h.1; omega) (by have := h.2; omega)

namespace Config

/-- The three durations are `int64` values. -/
structure Typed (c : Config) : Prop where
  min : IsInt64 c.electionTimeoutMin
  max : IsInt64 c.electionTimeoutMax
  heartbeat : IsInt64 c.heartbeatInterval

instance (c : Config) : Decidable c.Typed :=
  decidable_of_iff
    (IsInt64 c.electionTimeoutMin ∧ IsInt64 c.electionTimeoutMax ∧ IsInt64 c.heartbeatInterval)
    ⟨fun h => ⟨h.1, h.2.1, h.2.2⟩, fun h => ⟨h.min, h.max, h.heartbeat⟩⟩

/-- `minTicks` of `resetElectionTimeoutLocked`. -/
def minTicks (c : Config) : ℤ := wrap64 (c.electionTimeoutMin.tdiv c.tickInterval)

/-- `maxTicks` of `resetElectionTimeoutLocked`. -/
def maxTicks (c : Config) : ℤ :=
  let maxTicks := wrap64 (c.electionTimeoutMax.tdiv c.tickInterval)
  if maxTicks ≤ c.minTicks then wrap64 (c.minTicks + 1) else maxTicks

/-- What `resetElectionTimeoutLocked` calls `IntN` with. -/
def tickSpan (c : Config) : ℤ := wrap64 (c.maxTicks - c.minTicks)

/-- The timings work: ticks take time, a timeout can be drawn, and every timeout is at least three
ticks and no longer than the upper bound. -/
structure Usable (c : Config) : Prop where
  tick : 0 < c.tickInterval
  span : 0 < c.tickSpan
  timeout : ∀ (n : Node) (draw : ℕ), n.cfg = c →
    3 ≤ (n.resetElectionTimeoutLocked draw).electionTimeout ∧
      (n.resetElectionTimeoutLocked draw).electionTimeout ≤
        c.electionTimeoutMax.tdiv c.tickInterval

lemma applyDefaults_typed {c : Config} (h : c.Typed) : c.applyDefaults.Typed := by
  have hdefault : ∀ (x d : ℤ), IsInt64 x → IsInt64 d → IsInt64 (if x = 0 then d else x) := by
    intro x d hx hd
    split_ifs
    · exact hd
    · exact hx
  exact ⟨hdefault _ _ h.min (by decide), hdefault _ _ h.max (by decide),
    hdefault _ _ h.heartbeat (by decide)⟩

lemma timings_of_validate {c : Config} (h : c.validate = .ok ()) :
    c.electionTimeoutMin < c.electionTimeoutMax ∧
      wrap64 (c.heartbeatInterval * 3) ≤ c.electionTimeoutMin := by
  unfold validate at h
  split_ifs at h with _ _ _ hrange hmargin
  exact ⟨not_le.mp hrange, not_lt.mp hmargin⟩

section Ticks

variable {c : Config}

lemma three_le_ticks (htick : 0 < c.tickInterval)
    (hmin : c.tickInterval * 3 ≤ c.electionTimeoutMin)
    (hlt : c.electionTimeoutMin < c.electionTimeoutMax) :
    3 ≤ c.electionTimeoutMin.tdiv c.tickInterval ∧
      c.electionTimeoutMin.tdiv c.tickInterval ≤ c.electionTimeoutMax.tdiv c.tickInterval ∧
      c.electionTimeoutMax.tdiv c.tickInterval ≤ c.electionTimeoutMax := by
  have hmin₀ : 0 ≤ c.electionTimeoutMin := by omega
  have hmax₀ : 0 ≤ c.electionTimeoutMax := by omega
  rw [Int.tdiv_eq_ediv_of_nonneg hmin₀, Int.tdiv_eq_ediv_of_nonneg hmax₀]
  refine ⟨?_, Int.ediv_le_ediv htick hlt.le, Int.ediv_le_self _ hmax₀⟩
  rw [Int.le_ediv_iff_mul_le htick]
  linarith

lemma tickSpan_eq (hc : c.Typed) (htick : 0 < c.tickInterval)
    (hmin : c.tickInterval * 3 ≤ c.electionTimeoutMin)
    (hlt : c.electionTimeoutMin < c.electionTimeoutMax) :
    c.tickSpan =
      (if c.electionTimeoutMax.tdiv c.tickInterval ≤ c.electionTimeoutMin.tdiv c.tickInterval
        then c.electionTimeoutMin.tdiv c.tickInterval + 1
        else c.electionTimeoutMax.tdiv c.tickInterval) -
      c.electionTimeoutMin.tdiv c.tickInterval := by
  obtain ⟨h3, hle, hself⟩ := three_le_ticks htick hmin hlt
  have hmin64 : c.electionTimeoutMin.tdiv c.tickInterval + 1 < 2 ^ 63 := by
    have hself' : c.electionTimeoutMin.tdiv c.tickInterval ≤ c.electionTimeoutMin := by
      rw [Int.tdiv_eq_ediv_of_nonneg (by omega)]
      exact Int.ediv_le_self _ (by omega)
    have := hc.max.2
    omega
  have hmax64 := hc.max.2
  have hm : c.minTicks = c.electionTimeoutMin.tdiv c.tickInterval :=
    wrap64_of_isInt64 ⟨by omega, by omega⟩
  have hM : wrap64 (c.electionTimeoutMax.tdiv c.tickInterval) =
      c.electionTimeoutMax.tdiv c.tickInterval := wrap64_of_isInt64 ⟨by omega, by omega⟩
  have h1 : wrap64 (c.electionTimeoutMin.tdiv c.tickInterval + 1) =
      c.electionTimeoutMin.tdiv c.tickInterval + 1 := wrap64_of_isInt64 ⟨by omega, hmin64⟩
  rw [tickSpan, maxTicks, hm, hM, h1]
  refine wrap64_of_isInt64 ⟨?_, ?_⟩ <;> split_ifs <;> omega

/-- Timings whose margin is kept without a wrap-around. -/
lemma usable_of_margin (hc : c.Typed) (htick : 0 < c.tickInterval)
    (hmin : c.tickInterval * 3 ≤ c.electionTimeoutMin)
    (hlt : c.electionTimeoutMin < c.electionTimeoutMax) : c.Usable := by
  obtain ⟨h3, hle, -⟩ := three_le_ticks htick hmin hlt
  refine ⟨htick, ?_, fun n draw hn => ?_⟩
  · rw [tickSpan_eq hc htick hmin hlt]
    split_ifs with hcollapsed <;> omega
  · subst hn
    unfold Node.resetElectionTimeoutLocked
    dsimp only
    split_ifs with hcollapsed
    · rw [add_sub_cancel_left, Int.emod_one]
      omega
    · have hpos : 0 < n.cfg.electionTimeoutMax.tdiv n.cfg.tickInterval -
          n.cfg.electionTimeoutMin.tdiv n.cfg.tickInterval := by omega
      have hnonneg := Int.emod_nonneg (draw : ℤ) hpos.ne'
      have hbound := Int.emod_lt_of_pos (draw : ℤ) hpos
      omega

lemma Usable.no_overflow (h : c.Usable) (hc : c.Typed) : c.tickInterval * 3 < 2 ^ 63 := by
  by_contra hover
  have htick := h.tick
  have hmin := hc.min.2
  obtain ⟨h3, -⟩ := h.timeout { id := "", peers := [], cfg := c } 0 rfl
  unfold Node.resetElectionTimeoutLocked at h3
  dsimp only at h3
  rw [Nat.cast_zero, Int.zero_emod, add_zero] at h3
  -- a timeout of three ticks would be longer than any duration
  have hmul : 3 * c.tickInterval ≤
      c.electionTimeoutMin.tdiv c.tickInterval * c.tickInterval :=
    mul_le_mul_of_nonneg_right h3 htick.le
  have hnonneg : 0 ≤ c.electionTimeoutMin := by
    by_contra hneg
    have hle : 0 ≤ (-c.electionTimeoutMin).tdiv c.tickInterval :=
      Int.tdiv_nonneg (by omega) htick.le
    rw [Int.neg_tdiv] at hle
    omega
  rw [Int.tdiv_eq_ediv_of_nonneg hnonneg] at hmul
  have hle := Int.ediv_mul_le c.electionTimeoutMin htick.ne'
  omega

end Ticks

/-- Of the timings that are accepted, exactly those work whose heartbeat interval is left out, or
is positive and can be tripled. -/
theorem timings_usable_iff (c : Config) (hc : c.Typed) (h : c.applyDefaults.validate = .ok ()) :
    c.applyDefaults.Usable ↔
      c.heartbeatInterval = 0 ∨ 0 < c.heartbeatInterval ∧ c.heartbeatInterval * 3 < 2 ^ 63 := by
  have hc' := applyDefaults_typed hc
  obtain ⟨hlt, hmargin⟩ := timings_of_validate h
  have htick : c.applyDefaults.tickInterval =
      if c.heartbeatInterval = 0 then 50 * millisecond else c.heartbeatInterval := rfl
  constructor
  · intro hu
    have hpos := hu.tick
    have hover := hu.no_overflow hc'
    rw [htick] at hpos hover
    split_ifs at hpos hover with h0
    · exact .inl h0
    · exact .inr ⟨hpos, hover⟩
  · intro hH
    have hrange : 0 < c.applyDefaults.tickInterval ∧ c.applyDefaults.tickInterval * 3 < 2 ^ 63 := by
      rw [htick]
      split_ifs with h0
      · decide
      · exact hH.resolve_left h0
    have hwrap : wrap64 (c.applyDefaults.heartbeatInterval * 3) =
        c.applyDefaults.tickInterval * 3 :=
      wrap64_of_isInt64 ⟨by have hpos : 0 < c.applyDefaults.heartbeatInterval := hrange.1; omega,
        hrange.2⟩
    rw [hwrap] at hmargin
    exact usable_of_margin hc' hrange.1 hmargin hlt

/-- The timings that are used when none are given. -/
theorem timings_usable_default :
    (applyDefaults { nodeID := "a", peers := ["a"] }).Usable ∧
      (applyDefaults { nodeID := "a", peers := ["a"] }).electionTimeoutMin =
        150 * millisecond :=
  ⟨(timings_usable_iff { nodeID := "a", peers := ["a"] } (by decide) rfl).mpr (.inl rfl), rfl⟩

/-- A heartbeat interval of one nanosecond less than nothing, and one of 146 years, are accepted.
Ticks take negative time with the first one; with the second every timeout is shorter than a
tick. -/
theorem validate_accepts_unusable :
    (∃ c : Config, c.Typed ∧ c.applyDefaults.validate = .ok () ∧
        c.applyDefaults.tickInterval = -1) ∧
      ∃ c : Config, c.Typed ∧ c.applyDefaults.validate = .ok () ∧ 0 < c.applyDefaults.tickInterval ∧
        ∀ (n : Node) (draw : ℕ), n.cfg = c.applyDefaults →
          (n.resetElectionTimeoutLocked draw).electionTimeout = 0 := by
  refine ⟨⟨{ nodeID := "a", peers := ["a"], heartbeatInterval := -1 }, by decide, rfl, rfl⟩,
    ⟨{ nodeID := "a", peers := ["a"], heartbeatInterval := 2 ^ 62 }, by decide, rfl, by decide,
      fun n draw hn => ?_⟩⟩
  have hspan : (n.resetElectionTimeoutLocked draw).electionTimeout = 0 + (draw : ℤ) % 1 := by
    unfold Node.resetElectionTimeoutLocked
    rw [hn]
    rfl
  rw [hspan, Int.emod_one, add_zero]

end Config

end ToyRaft
