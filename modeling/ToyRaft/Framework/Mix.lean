import Mathlib.Data.Nat.Notation
import Mathlib.Logic.Function.Basic

/-!
# Mixing of 64-bit words

The steps that mixers and multiplicative hashes are made of: a word times a constant that has an
inverse, and a word with its own high bits shifted down and added without carry.  Each step is
injective, and so is what is composed of them.  `fnv64a` is the hash FNV-1a; of two texts that
differ in one byte it tells which is which.
-/

namespace ToyRaft

namespace Mix

/-- A shift of a word down onto itself can be undone: from the top bit down, the bit that is
added is known already. -/
lemma xorShift_injective {w k : ℕ} (hk : 0 < k) :
    Function.Injective fun z : BitVec w => z ^^^ (z >>> k) := by
  intro y z h
  have hbits : ∀ n i, w ≤ i + n → y.getLsbD i = z.getLsbD i := by
    intro n
    induction n with
    | zero =>
        intro i hi
        rw [BitVec.getLsbD_of_ge y i hi, BitVec.getLsbD_of_ge z i hi]
    | succ n ih =>
        intro i hi
        have hhigh := ih (k + i) (by omega)
        have hbit := congrArg (fun v => v.getLsbD i) h
        simp only [BitVec.getLsbD_xor, BitVec.getLsbD_ushiftRight, hhigh] at hbit
        exact Bool.xor_left_inj.mp hbit
  exact BitVec.eq_of_getLsbD_eq fun i _ => hbits w i (Nat.le_add_left w i)

/-- The same of machine words; a shift by more than 63 is not one. -/
lemma xorShift64_injective {k : UInt64} (hk : 0 < k.toNat % 64) :
    Function.Injective fun z : UInt64 => z ^^^ (z >>> k) := by
  intro y z h
  have hbits := congrArg UInt64.toBitVec h
  simp only [UInt64.toBitVec_xor, UInt64.toBitVec_shiftRight] at hbits
  exact UInt64.toBitVec_inj.mp (xorShift_injective hk hbits)

lemma mul_right_injective {c d : UInt64} (hd : c * d = 1) :
    Function.Injective fun z : UInt64 => z * c := by
  have hinv : Function.LeftInverse (fun z => z * d) fun z : UInt64 => z * c := fun z => by
    simp only [UInt64.mul_assoc, hd, UInt64.mul_one]
  exact hinv.injective

/-! ## FNV-1a -/

/-- One byte is added to a hash. -/
def fnvAbsorb (h : UInt64) (b : UInt8) : UInt64 := (h ^^^ b.toUInt64) * 1099511628211

/-- `fnv.New64a`, `Write` and `Sum64`. -/
def fnv64a (bs : List UInt8) : UInt64 := bs.foldl fnvAbsorb 14695981039346656037

/-- The hash of the byte `a`. -/
example : fnv64a [97] = 0xaf63dc4c8601ec8c := by decide

lemma fnvPrime_injective : Function.Injective fun z : UInt64 => z * 1099511628211 :=
  mul_right_injective (c := 1099511628211) (d := 14886173955864302971) (by decide)

lemma fnvAbsorb_injective (b : UInt8) : Function.Injective fun h => fnvAbsorb h b :=
  fun _ _ heq => (UInt64.xor_left_inj _).mp (fnvPrime_injective heq)

lemma foldl_fnvAbsorb_injective (bs : List UInt8) :
    Function.Injective fun h => bs.foldl fnvAbsorb h := by
  induction bs with
  | nil => exact Function.injective_id
  | cons b bs ih => exact ih.comp (fnvAbsorb_injective b)

/-- One byte of a text is determined by the hash and the other bytes. -/
lemma fnv64a_byte {p s : List UInt8} {b c : UInt8}
    (h : fnv64a (p ++ b :: s) = fnv64a (p ++ c :: s)) : b = c := by
  simp only [fnv64a, List.foldl_append, List.foldl_cons] at h
  have hword := (UInt64.xor_right_inj _).mp (fnvPrime_injective (foldl_fnvAbsorb_injective s h))
  exact UInt8.toUInt64_inj.mp hword

end Mix

end ToyRaft
