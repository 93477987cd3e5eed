import Mathlib.Data.List.Basic
import Mathlib.Algebra.Group.Nat.Defs
import Mathlib.Tactic.Positivity

/-!
# Little-endian integers

The `k` lowest bytes of a number, lowest first, and the number a list of bytes denotes.
-/

namespace ToyRaft

/-- `n` on `k` bytes; what does not fit is cut off. -/
def leBytes : ℕ → ℕ → List UInt8
  | 0, _ => []
  | k + 1, n => UInt8.ofNat n :: leBytes k (n / 256)

def leNat : List UInt8 → ℕ
  | [] => 0
  | b :: bs => b.toNat + 256 * leNat bs

@[simp] lemma length_leBytes (k n : ℕ) : (leBytes k n).length = k := by
  induction k generalizing n with
  | zero => rfl
  | succ k ih => rw [leBytes, List.length_cons, ih]

lemma leNat_leBytes (k n : ℕ) : leNat (leBytes k n) = n % 256 ^ k := by
  induction k generalizing n with
  | zero => rw [leBytes, leNat, Nat.pow_zero, Nat.mod_one]
  | succ k ih =>
      rw [leBytes, leNat, ih, UInt8.toNat_ofNat', show 256 ^ (k + 1) = 256 * 256 ^ k from
        Nat.pow_succ', Nat.mod_mul]

/-- The bytes of the number that a list of bytes denotes. -/
lemma leBytes_leNat {k : ℕ} {bs : List UInt8} (h : bs.length = k) : leBytes k (leNat bs) = bs := by
  induction bs generalizing k with
  | nil =>
      subst h
      rfl
  | cons b bs ih =>
      subst h
      have hlow : UInt8.ofNat (b.toNat + 256 * leNat bs) = b := by
        apply UInt8.toNat.inj
        rw [UInt8.toNat_ofNat', Nat.add_mul_mod_self_left]
        exact Nat.mod_eq_of_lt b.toNat_lt
      have hhigh : (b.toNat + 256 * leNat bs) / 256 = leNat bs := by
        have hlt := b.toNat_lt
        omega
      rw [List.length_cons, leNat, leBytes, hlow, hhigh, ih rfl]

lemma leNat_lt {k : ℕ} {bs : List UInt8} (h : bs.length = k) : leNat bs < 256 ^ k := by
  have heq := leNat_leBytes k (leNat bs)
  rw [leBytes_leNat h] at heq
  rw [heq]
  exact Nat.mod_lt _ (by positivity)

end ToyRaft
