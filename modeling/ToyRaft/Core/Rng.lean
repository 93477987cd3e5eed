import ToyRaft.Framework.Mix
import ToyRaft.Framework.Rand

/-!
# The random numbers of a node (`pkg/raft/rng.go`)

A node draws its election timeouts from a generator of its own.  The seed of the generator is the
configured one, or the time if that is zero, mixed with a hash of the node's id and expanded to
two words by `splitmix64`.  The id is given by its bytes and the time in nanoseconds.

No step of the mixing but the hash forgets anything: both words of `splitmix64` are injective, so
nodes with one configured seed have the same generator only if the hashes of their ids are equal.
-/

namespace ToyRaft

namespace Rng

/-! ## The seed -/

/-- One call of `next` in `splitmix64`: the word it returns and the new `x`. -/
def next (x : UInt64) : UInt64 × UInt64 :=
  let x := x + 0x9E3779B97F4A7C15
  let z := x
  let z := (z ^^^ (z >>> 30)) * 0xBF58476D1CE4E5B9
  let z := (z ^^^ (z >>> 27)) * 0x94D049BB133111EB
  (z ^^^ (z >>> 31), x)

def splitmix64 (x : UInt64) : UInt64 × UInt64 :=
  let first := next x
  let second := next first.2
  (first.1, second.1)

/-- The words of the seed 0. -/
example : splitmix64 0 = (0xe220a8397b1dcdaf, 0x6e789e6aa1b965f4) := by decide

/-- The word that is expanded in `newNodeRNG`. -/
def nodeSeed (cfgSeed : Int64) (id : List UInt8) (now : Int64) : UInt64 :=
  let nodeHash := Mix.fnv64a id
  if cfgSeed = 0 then nodeHash ^^^ now.toUInt64 else nodeHash ^^^ cfgSeed.toUInt64

/-- `newNodeRNG`: the state the generator starts in. -/
def newNodeRNG (cfgSeed : Int64) (id : List UInt8) (now : Int64) : ℕ :=
  let words := splitmix64 (nodeSeed cfgSeed id now)
  let lo := words.1
  let hi := words.2
  Pcg.newPCG hi lo

/-! ## Nothing is lost -/

/-- The two multipliers are odd, and these are their inverses. -/
lemma mixer_injective : Function.Injective fun z : UInt64 =>
    let z := (z ^^^ (z >>> 30)) * 0xBF58476D1CE4E5B9
    let z := (z ^^^ (z >>> 27)) * 0x94D049BB133111EB
    z ^^^ (z >>> 31) := by
  have hmul₁ := Mix.mul_right_injective (c := 0xBF58476D1CE4E5B9) (d := 10871156337175269513)
    (by decide)
  have hmul₂ := Mix.mul_right_injective (c := 0x94D049BB133111EB) (d := 3573116690164977347)
    (by decide)
  have hshift₁ := Mix.xorShift64_injective (k := 30) (by decide)
  have hshift₂ := Mix.xorShift64_injective (k := 27) (by decide)
  have hshift₃ := Mix.xorShift64_injective (k := 31) (by decide)
  exact hshift₃.comp (hmul₂.comp (hshift₂.comp (hmul₁.comp hshift₁)))

/-- A call of `next` returns different words for different `x`. -/
lemma next_injective : Function.Injective fun x => (next x).1 :=
  fun _ _ h => (UInt64.add_left_inj _).mp (mixer_injective h)

/-- The second call starts from the first `x` plus a constant. -/
lemma splitmix64_snd_injective : Function.Injective fun x => (splitmix64 x).2 :=
  fun _ _ h => (UInt64.add_left_inj _).mp (next_injective h)

lemma nodeSeed_inj {cfgSeed : Int64} (hseed : cfgSeed ≠ 0) {id id' : List UInt8}
    {now now' : Int64} :
    nodeSeed cfgSeed id now = nodeSeed cfgSeed id' now' ↔ Mix.fnv64a id = Mix.fnv64a id' := by
  rw [nodeSeed, nodeSeed, if_neg hseed, if_neg hseed, UInt64.xor_left_inj]

/-- Nodes with one configured seed have the same generator exactly if the hashes of their ids are
equal, at whatever time each of them starts. -/
lemma newNodeRNG_inj {cfgSeed : Int64} (hseed : cfgSeed ≠ 0) {id id' : List UInt8}
    {now now' : Int64} :
    newNodeRNG cfgSeed id now = newNodeRNG cfgSeed id' now' ↔ Mix.fnv64a id = Mix.fnv64a id' := by
  rw [← nodeSeed_inj hseed]
  constructor
  · intro h
    obtain ⟨hhi, -⟩ := Pcg.newPCG_inj.mp h
    exact splitmix64_snd_injective hhi
  · intro h
    rw [newNodeRNG, newNodeRNG, h]

/-- Nodes whose ids differ in one byte, as `n1` and `n2` do, draw from different generators. -/
theorem newNodeRNG_ne_of_byte {cfgSeed : Int64} (hseed : cfgSeed ≠ 0) {p s : List UInt8}
    {b c : UInt8} (hbc : b ≠ c) (now now' : Int64) :
    newNodeRNG cfgSeed (p ++ b :: s) now ≠ newNodeRNG cfgSeed (p ++ c :: s) now' := fun h =>
  hbc (Mix.fnv64a_byte ((newNodeRNG_inj hseed).mp h))

/-- `splitmix64` is injective in its seed already on each of its words, and a configured seed
gives two nodes the same seed of the generator only if the hashes of their ids are equal. -/
theorem seed_mixing_injective :
    (∀ x y, (splitmix64 x).1 = (splitmix64 y).1 → x = y) ∧
      (∀ x y, (splitmix64 x).2 = (splitmix64 y).2 → x = y) ∧
      ∀ cfgSeed : Int64, cfgSeed ≠ 0 → ∀ (id id' : List UInt8) (now now' : Int64),
        newNodeRNG cfgSeed id now = newNodeRNG cfgSeed id' now' ↔
          Mix.fnv64a id = Mix.fnv64a id' :=
  ⟨fun _ _ h => next_injective h, fun _ _ h => splitmix64_snd_injective h,
    fun _ hseed _ _ _ _ => newNodeRNG_inj hseed⟩

/-- The nodes `a` and `b` with the seed 42. -/
theorem seed_mixing_injective_two :
    Mix.fnv64a [97] ≠ Mix.fnv64a [98] ∧ newNodeRNG 42 [97] 0 ≠ newNodeRNG 42 [98] 0 := by
  have hhash : Mix.fnv64a [97] ≠ Mix.fnv64a [98] := by decide
  have hseed := seed_mixing_injective.2.2 42 (by decide) [97] [98] 0 0
  exact ⟨hhash, fun h => hhash (hseed.mp h)⟩

end Rng

end ToyRaft
