import Mathlib.Data.List.Basic
import Mathlib.Algebra.Group.Nat.Defs

/-!
# Standard base64

Three bytes on four digits of six bits, with the last group filled up by `=`.  The decoder skips
line breaks, wants the padding, and does not look at the bits of the last digit that no byte
needs.  Decoding undoes encoding (`decode_encode`), and the length of a text is told by the
number of bytes alone (`length_encode`).
-/

namespace ToyRaft

namespace Base64

def alphabet : List Char :=
  "ABCDEFGHIJKLMNOPQRSTUVWXYZabcdefghijklmnopqrstuvwxyz0123456789+/".toList

def digit (n : ℕ) : Char := alphabet.getD n 'A'

def value (c : Char) : Option ℕ := alphabet.idxOf? c

def encode : List UInt8 → List Char
  | [] => []
  | [a] => [digit (a.toNat / 4), digit (a.toNat % 4 * 16), '=', '=']
  | [a, b] =>
      [digit (a.toNat / 4), digit (a.toNat % 4 * 16 + b.toNat / 16), digit (b.toNat % 16 * 4), '=']
  | a :: b :: c :: bs =>
      digit (a.toNat / 4) :: digit (a.toNat % 4 * 16 + b.toNat / 16) ::
        digit (b.toNat % 16 * 4 + c.toNat / 64) :: digit (c.toNat % 64) :: encode bs

/-- The bytes of a text without line breaks. -/
def decodeGroups : List Char → Option (List UInt8)
  | [] => some []
  | [p, q, '=', '='] => do
      let x ← value p
      let y ← value q
      some [.ofNat (x * 4 + y / 16)]
  | [p, q, r, '='] => do
      let x ← value p
      let y ← value q
      let z ← value r
      some [.ofNat (x * 4 + y / 16), .ofNat (y % 16 * 16 + z / 4)]
  | p :: q :: r :: s :: cs => do
      let x ← value p
      let y ← value q
      let z ← value r
      let w ← value s
      let bs ← decodeGroups cs
      some (.ofNat (x * 4 + y / 16) :: .ofNat (y % 16 * 16 + z / 4) :: .ofNat (z % 4 * 64 + w) ::
        bs)
  | _ => none

def decode (cs : List Char) : Option (List UInt8) :=
  decodeGroups (cs.filter fun c => c != '\r' && c != '\n')

/-! ## Digits -/

lemma value_digit {n : ℕ} (hn : n < 64) : value (digit n) = some n := by
  have hall : ∀ k < 64, value (digit k) = some k := by decide +kernel
  exact hall n hn

/-- A digit is neither the padding nor a line break. -/
lemma digit_ne {n : ℕ} (hn : n < 64) : digit n ≠ '=' ∧ digit n ≠ '\r' ∧ digit n ≠ '\n' := by
  have hall : ∀ k < 64, digit k ≠ '=' ∧ digit k ≠ '\r' ∧ digit k ≠ '\n' := by decide +kernel
  exact hall n hn

/-- What the digits of a text are made of. -/
lemma mem_encode {bs : List UInt8} {ch : Char} (h : ch ∈ encode bs) :
    ch = '=' ∨ ∃ n < 64, ch = digit n := by
  induction bs using encode.induct with
  | case1 => cases h
  | case2 a =>
      have ha := a.toNat_lt
      simp only [encode, List.mem_cons, List.not_mem_nil, or_false] at h
      rcases h with h | h | h | h
      · exact .inr ⟨_, by omega, h⟩
      · exact .inr ⟨_, by omega, h⟩
      · exact .inl h
      · exact .inl h
  | case3 a b =>
      have ha := a.toNat_lt
      have hb := b.toNat_lt
      simp only [encode, List.mem_cons, List.not_mem_nil, or_false] at h
      rcases h with h | h | h | h
      · exact .inr ⟨_, by omega, h⟩
      · exact .inr ⟨_, by omega, h⟩
      · exact .inr ⟨_, by omega, h⟩
      · exact .inl h
  | case4 a b c bs ih =>
      have ha := a.toNat_lt
      have hb := b.toNat_lt
      have hc := c.toNat_lt
      simp only [encode, List.mem_cons] at h
      rcases h with h | h | h | h | h
      · exact .inr ⟨_, by omega, h⟩
      · exact .inr ⟨_, by omega, h⟩
      · exact .inr ⟨_, by omega, h⟩
      · exact .inr ⟨_, by omega, h⟩
      · exact ih h

/-! ## Round trip and length -/

lemma length_encode (bs : List UInt8) : (encode bs).length = 4 * ((bs.length + 2) / 3) := by
  induction bs using encode.induct with
  | case1 => rfl
  | case2 => simp [encode]
  | case3 => simp [encode]
  | case4 a b c bs ih =>
      simp only [encode, List.length_cons, ih]
      omega

/-- Splitting a byte into digits loses nothing. -/
lemma ofNat_eq {a : UInt8} {n : ℕ} (h : n = a.toNat) : UInt8.ofNat n = a := by
  rw [h, UInt8.ofNat_toNat]

lemma decodeGroups_encode (bs : List UInt8) : decodeGroups (encode bs) = some bs := by
  induction bs using encode.induct with
  | case1 => rfl
  | case2 a =>
      have ha := a.toNat_lt
      rw [encode, decodeGroups, value_digit (by omega), value_digit (by omega)]
      simp only [Option.bind_eq_bind, Option.bind_some]
      rw [ofNat_eq (a := a) (by omega)]
  | case3 a b =>
      have ha := a.toNat_lt
      have hb := b.toNat_lt
      have hr := (digit_ne (n := b.toNat % 16 * 4) (by omega)).1
      rw [encode, decodeGroups]
      · rw [value_digit (by omega), value_digit (by omega), value_digit (by omega)]
        simp only [Option.bind_eq_bind, Option.bind_some]
        rw [ofNat_eq (a := a) (by omega), ofNat_eq (a := b) (by omega)]
      · exact hr
  | case4 a b c bs ih =>
      have ha := a.toNat_lt
      have hb := b.toNat_lt
      have hc := c.toNat_lt
      have hs := (digit_ne (n := c.toNat % 64) (by omega)).1
      rw [encode, decodeGroups]
      · rw [value_digit (by omega), value_digit (by omega), value_digit (by omega),
          value_digit (by omega), ih]
        simp only [Option.bind_eq_bind, Option.bind_some]
        rw [ofNat_eq (a := a) (by omega), ofNat_eq (a := b) (by omega),
          ofNat_eq (a := c) (by omega)]
      · intro _ h
        exact (hs h).elim
      · intro h
        exact (hs h).elim

/-- Decoding undoes encoding. -/
theorem decode_encode (bs : List UInt8) : decode (encode bs) = some bs := by
  have hplain : (encode bs).filter (fun c => c != '\r' && c != '\n') = encode bs := by
    refine List.filter_eq_self.mpr fun c hc => ?_
    rcases mem_encode hc with h | ⟨n, hn, h⟩
    · rw [h]
      decide
    · rw [h]
      simp [(digit_ne hn).2.1, (digit_ne hn).2.2]
  rw [decode, hplain, decodeGroups_encode]

end Base64

end ToyRaft
