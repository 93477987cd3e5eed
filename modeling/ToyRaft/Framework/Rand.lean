import Mathlib.Algebra.Group.Nat.Defs
import Mathlib.Tactic.SplitIfs

/-!
# Random numbers

A source of random numbers is a state and the draws from it.  `Rand` has the two draws that are
asked for here, a fraction and a number below a bound; `shuffle` is the exchange of each place with
one not behind it, from the last place down.  `pcg` is the generator with 128 bits of state.
-/

namespace ToyRaft

/-- The draws from a source with states in `ρ`. -/
structure Rand (ρ : Type) where
  /-- `Float64`, as a number of 53 bits. -/
  float53 : ρ → ℕ × ρ
  /-- A number below the bound. -/
  uint64n : ρ → ℕ → ℕ × ρ

/-- Two places of a list are exchanged, if the list has both. -/
def swapAt {α : Type} (xs : List α) (i j : ℕ) : List α :=
  if h : i < xs.length ∧ j < xs.length then (xs.set i xs[j]).set j xs[i] else xs

lemma swapAt_perm {α : Type} (xs : List α) (i j : ℕ) : (swapAt xs i j).Perm xs := by
  unfold swapAt
  split_ifs with h
  · exact List.set_set_perm h.1 h.2
  · exact .refl xs

namespace Rand

variable {ρ α : Type} (g : Rand ρ)

/-- The places from `i` down to the second one. -/
def shuffleFrom : ℕ → List α → ρ → List α × ρ
  | 0, xs, r => (xs, r)
  | i + 1, xs, r =>
      let draw := g.uint64n r (i + 2)
      shuffleFrom i (swapAt xs (i + 1) draw.1) draw.2

def shuffle (xs : List α) (r : ρ) : List α × ρ := g.shuffleFrom (xs.length - 1) xs r

lemma shuffleFrom_perm (i : ℕ) (xs : List α) (r : ρ) : (g.shuffleFrom i xs r).1.Perm xs := by
  induction i generalizing xs r with
  | zero => exact .refl xs
  | succ i ih => exact (ih _ _).trans (swapAt_perm xs _ _)

lemma shuffle_perm (xs : List α) (r : ρ) : (g.shuffle xs r).1.Perm xs :=
  g.shuffleFrom_perm _ xs r

end Rand

/-! ## The generator -/

namespace Pcg

/-- `NewPCG`: the state with the high half `seed1` and the low half `seed2`. -/
def newPCG (seed1 seed2 : UInt64) : ℕ := seed1.toNat * 2 ^ 64 + seed2.toNat

lemma newPCG_inj {a b c d : UInt64} : newPCG a b = newPCG c d ↔ a = c ∧ b = d := by
  have hb := b.toNat_lt
  have hd := d.toNat_lt
  rw [newPCG, newPCG, ← UInt64.toNat_inj, ← UInt64.toNat_inj]
  omega

def next (s : ℕ) : ℕ :=
  (s * (2549297995355413924 * 2 ^ 64 + 4865540595714422341) +
    (6364136223846793005 * 2 ^ 64 + 1442695040888963407)) % 2 ^ 128

/-- The output of a state. -/
def output (s : ℕ) : UInt64 :=
  let hi : UInt64 := .ofNat (s / 2 ^ 64)
  let lo : UInt64 := .ofNat s
  let hi := (hi ^^^ (hi >>> 32)) * 0xda942042e4dd58b5
  (hi ^^^ (hi >>> 48)) * (lo ||| 1)

/-- A number below `n` from the high half of a product; a low half below `(2 ^ 64 - n) % n` is
drawn again, here no more than `fuel` times. -/
def below (n : ℕ) : ℕ → ℕ → ℕ × ℕ
  | 0, s => ((output (next s)).toNat * n / 2 ^ 64, next s)
  | fuel + 1, s =>
      let product := (output (next s)).toNat * n
      if product % 2 ^ 64 < (2 ^ 64 - n) % n then below n fuel (next s)
      else (product / 2 ^ 64, next s)

/-- The source; a bound that is a power of two is a mask. -/
def source : Rand ℕ where
  float53 s := ((output (next s)).toNat % 2 ^ 53, next s)
  uint64n s n :=
    if n &&& (n - 1) = 0 then ((output (next s)).toNat &&& (n - 1), next s) else below n 64 s

/-- The first draw of the state `(1, 2)`. -/
example : output (next (newPCG 1 2)) = 0xc4f5a58656eef510 := by decide

end Pcg

end ToyRaft
