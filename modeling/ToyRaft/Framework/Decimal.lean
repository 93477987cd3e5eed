import Mathlib.Algebra.Group.Nat.Defs
import Mathlib.Data.List.Basic
import Mathlib.Data.Nat.Basic
import Mathlib.Data.List.Lex
import Mathlib.Data.Char

/-!
# Decimal numerals of a fixed width

`padded k n` is `n` in decimal, filled with zeros up to `k` digits.  Different numbers have
different numerals, and the order of numerals as texts is the order of the numbers as long as
they fit into the width.
-/

namespace ToyRaft

/-- `n` in decimal, on at least `k` digits. -/
def padded (k n : ℕ) : List Char := (Nat.toDigits 10 n).leftpad k '0'

lemma ofDigitChars_padded (k n : ℕ) : Nat.ofDigitChars 10 (padded k n) 0 = n := by
  rw [padded, List.leftpad, Nat.ofDigitChars_append, Nat.ofDigitChars_replicate_zero, Nat.mul_zero,
    Nat.ofDigitChars_toDigits (by decide) (by decide)]

lemma padded_injective (k : ℕ) : Function.Injective (padded k) := fun m n h => by
  rw [← ofDigitChars_padded k m, h, ofDigitChars_padded]

lemma length_padded {k n : ℕ} (hk : 0 < k) (hn : n < 10 ^ k) : (padded k n).length = k := by
  have hlen := (Nat.length_toDigits_le_iff (by decide) hk).mpr hn
  rw [padded, List.length_leftpad]
  exact max_eq_left hlen

lemma isDigit_of_mem_padded {k n : ℕ} {c : Char} (h : c ∈ padded k n) : c.isDigit = true := by
  rcases List.mem_append.mp h with h | h
  · rw [List.eq_of_mem_replicate h]
    rfl
  · exact Nat.isDigit_of_mem_toDigits (by decide) (by decide) h

/-- A numeral with the prior value `a` denotes a number between `a * 10 ^ k` and
`(a + 1) * 10 ^ k`. -/
lemma ofDigitChars_bounds {cs : List Char} (hcs : ∀ c ∈ cs, c.isDigit = true) (a : ℕ) :
    a * 10 ^ cs.length ≤ Nat.ofDigitChars 10 cs a ∧
      Nat.ofDigitChars 10 cs a < (a + 1) * 10 ^ cs.length := by
  induction cs generalizing a with
  | nil => simp
  | cons c cs ih =>
      obtain ⟨hlo, hhi⟩ := ih (fun x hx => hcs x (List.mem_cons_of_mem _ hx))
        (10 * a + (c.toNat - '0'.toNat))
      have hc := Char.isDigit_iff_toNat.mp (hcs c List.mem_cons_self)
      have h0 : '0'.toNat = 48 := rfl
      have h9 : '9'.toNat = 57 := rfl
      rw [Nat.ofDigitChars_cons, List.length_cons, Nat.pow_succ']
      constructor
      · refine le_trans ?_ hlo
        rw [← Nat.mul_assoc]
        exact Nat.mul_le_mul_right _ (by omega)
      · refine lt_of_lt_of_le hhi ?_
        rw [← Nat.mul_assoc]
        exact Nat.mul_le_mul_right _ (by omega)

/-- Of two numerals of one length the lower text denotes the lower number. -/
lemma ofDigitChars_lt_of_lt {cs ds : List Char} (hcs : ∀ c ∈ cs, c.isDigit = true)
    (hds : ∀ c ∈ ds, c.isDigit = true) (hlen : cs.length = ds.length) (h : cs < ds) (a : ℕ) :
    Nat.ofDigitChars 10 cs a < Nat.ofDigitChars 10 ds a := by
  induction cs generalizing ds a with
  | nil =>
      rw [List.eq_nil_of_length_eq_zero hlen.symm] at h
      exact (List.lt_irrefl _ h).elim
  | cons c cs ih =>
      cases ds with
      | nil => cases hlen
      | cons d ds =>
          have hcs' : ∀ x ∈ cs, x.isDigit = true := fun x hx => hcs x (List.mem_cons_of_mem _ hx)
          have hds' : ∀ x ∈ ds, x.isDigit = true := fun x hx => hds x (List.mem_cons_of_mem _ hx)
          rw [Nat.ofDigitChars_cons, Nat.ofDigitChars_cons]
          rcases List.cons_lt_cons_iff.mp h with hlt | ⟨rfl, hlt⟩
          · -- the leading digit decides
            have hc := Char.isDigit_iff_toNat.mp (hcs c List.mem_cons_self)
            have hcd : c.toNat < d.toNat := Char.lt_def.mp hlt
            refine lt_of_lt_of_le (ofDigitChars_bounds hcs' _).2
              (le_trans ?_ (ofDigitChars_bounds hds' _).1)
            rw [Nat.succ.inj hlen]
            exact Nat.mul_le_mul_right _ (by omega)
          · exact ih hcs' hds' (Nat.succ.inj hlen) hlt _

/-- Numbers that fit into the width are ordered as their numerals. -/
lemma padded_lt_padded {k m n : ℕ} (hk : 0 < k) (hn : n < 10 ^ k) (h : m < n) :
    padded k m < padded k n := by
  have hlen : (padded k n).length = (padded k m).length :=
    (length_padded hk hn).trans (length_padded hk (h.trans hn)).symm
  rcases lt_trichotomy (padded k m) (padded k n) with hlt | heq | hgt
  · exact hlt
  · exact absurd (padded_injective k heq) h.ne
  · have hvalue := ofDigitChars_lt_of_lt (fun _ => isDigit_of_mem_padded)
      (fun _ => isDigit_of_mem_padded) hlen hgt 0
    rw [ofDigitChars_padded, ofDigitChars_padded] at hvalue
    omega

/-- Texts of one length keep their order when the same is written behind them. -/
lemma append_lt_append_right {cs ds : List Char} (hlen : cs.length = ds.length) (h : cs < ds)
    (es : List Char) : cs ++ es < ds ++ es := by
  induction cs generalizing ds with
  | nil =>
      rw [List.eq_nil_of_length_eq_zero hlen.symm] at h
      exact (List.lt_irrefl _ h).elim
  | cons c cs ih =>
      cases ds with
      | nil => cases hlen
      | cons d ds =>
          rcases List.cons_lt_cons_iff.mp h with hlt | ⟨rfl, hlt⟩
          · exact List.cons_lt_cons_iff.mpr (.inl hlt)
          · exact List.cons_lt_cons_iff.mpr (.inr ⟨rfl, ih (Nat.succ.inj hlen) hlt⟩)

end ToyRaft
