import Mathlib.Data.String.Basic
import Mathlib.Tactic.SplitIfs
import ToyRaft.Framework.JsonText

/-!
# Bytes as runes

A string of bytes is read rune by rune; where no rune starts, one byte is taken and stands for
itself.  Bytes with no such place are the UTF-8 of their runes (`notMem_runes_iff`), and the JSON
text of any others has the replacement character there.  The order of texts by their runes is the
order by their bytes (`utf8_lt_utf8`).
-/

namespace ToyRaft

namespace Json

/-- The rune the bytes start with. -/
def decodeRune (bs : List UInt8) : Option Char := bs.toByteArray.utf8DecodeChar? 0

/-- The runes of at most `n` places, `none` for a byte that starts none. -/
def runesUpTo : ℕ → List UInt8 → List (Option Char)
  | 0, _ => []
  | _, [] => []
  | n + 1, b :: bs =>
      match decodeRune (b :: bs) with
      | some c => some c :: runesUpTo n ((b :: bs).drop c.utf8Size)
      | none => none :: runesUpTo n bs

/-- The runes of some bytes. -/
def runes (bs : List UInt8) : List (Option Char) := runesUpTo bs.length bs

/-- The string that JSON carries for some bytes. -/
def replaced (bs : List UInt8) : String :=
  String.ofList ((runes bs).map fun r => r.getD '\ufffd')

lemma utf8_cons (c : Char) (cs : List Char) :
    utf8 (c :: cs) = String.utf8EncodeChar c ++ utf8 cs := by
  rw [utf8, List.flatMap_cons, utf8]

lemma decodeRune_utf8EncodeChar (c : Char) (bs : List UInt8) :
    decodeRune (String.utf8EncodeChar c ++ bs) = some c := by
  rw [decodeRune, List.toByteArray_append, ByteArray.utf8DecodeChar?_utf8EncodeChar_append]

/-- Bytes that start with a rune start with its UTF-8. -/
lemma eq_append_of_decodeRune {bs : List UInt8} {c : Char} (h : decodeRune bs = some c) :
    bs = String.utf8EncodeChar c ++ bs.drop c.utf8Size := by
  obtain ⟨l, hl⟩ := ByteArray.exists_of_utf8DecodeChar?_eq_some h
  have hdata : bs = String.utf8EncodeChar c ++ l.data.toList := by
    have := congrArg (fun b : ByteArray => b.data.toList) hl
    simpa using this
  have hlen : (String.utf8EncodeChar c).length = c.utf8Size := String.length_utf8EncodeChar c
  nth_rewrite 2 [hdata]
  rw [List.drop_left' hlen]
  exact hdata

lemma runesUpTo_utf8 (cs : List Char) (n : ℕ) (hn : (utf8 cs).length ≤ n) :
    runesUpTo n (utf8 cs) = cs.map some := by
  induction cs generalizing n with
  | nil => cases n <;> rfl
  | cons c cs ih =>
      have hlen : (String.utf8EncodeChar c).length = c.utf8Size := String.length_utf8EncodeChar c
      have hpos := c.utf8Size_pos
      obtain ⟨b, bs, hb⟩ := List.exists_cons_of_length_pos (hpos.trans_eq hlen.symm)
      rw [length_utf8_cons] at hn
      obtain ⟨n, rfl⟩ : ∃ k, n = k + 1 := ⟨n - 1, by omega⟩
      have hrune := decodeRune_utf8EncodeChar c (utf8 cs)
      have hdrop : (String.utf8EncodeChar c ++ utf8 cs).drop c.utf8Size = utf8 cs :=
        List.drop_left' hlen
      rw [utf8_cons]
      rw [hb, List.cons_append] at hrune hdrop ⊢
      rw [runesUpTo, hrune]
      dsimp only
      rw [hdrop, ih n (by omega), List.map_cons]

lemma runes_utf8 (cs : List Char) : runes (utf8 cs) = cs.map some :=
  runesUpTo_utf8 cs _ (Nat.le_refl _)

lemma replaced_utf8 (s : String) : replaced (utf8 s.toList) = s := by
  rw [replaced, runes_utf8, List.map_map]
  simp [Function.comp_def]

lemma exists_of_notMem_runesUpTo {n : ℕ} {bs : List UInt8} (hn : bs.length ≤ n)
    (h : none ∉ runesUpTo n bs) : ∃ cs, bs = utf8 cs := by
  induction n generalizing bs with
  | zero => exact ⟨[], List.length_eq_zero_iff.mp (Nat.le_zero.mp hn)⟩
  | succ n ih =>
      cases bs with
      | nil => exact ⟨[], rfl⟩
      | cons b bs =>
          rw [runesUpTo] at h
          cases hrune : decodeRune (b :: bs) with
          | none =>
              rw [hrune] at h
              exact absurd List.mem_cons_self h
          | some c =>
              rw [hrune] at h
              have hpos := c.utf8Size_pos
              have hlen : ((b :: bs).drop c.utf8Size).length ≤ n := by
                rw [List.length_drop]
                omega
              obtain ⟨cs, hcs⟩ := ih hlen fun hmem => h (List.mem_cons_of_mem _ hmem)
              exact ⟨c :: cs, by rw [utf8_cons, ← hcs, ← eq_append_of_decodeRune hrune]⟩

/-- Every place of some bytes has a rune just if they are the UTF-8 of a string. -/
lemma notMem_runes_iff {bs : List UInt8} : none ∉ runes bs ↔ ∃ s : String, bs = utf8 s.toList := by
  constructor
  · intro h
    obtain ⟨cs, hcs⟩ := exists_of_notMem_runesUpTo (Nat.le_refl _) h
    exact ⟨String.ofList cs, by rw [String.toList_ofList, hcs]⟩
  · rintro ⟨s, rfl⟩
    simp [runes_utf8]

lemma utf8_injective {s t : String} (h : utf8 s.toList = utf8 t.toList) : s = t := by
  rw [← replaced_utf8 s, h, replaced_utf8]

/-! ## The order of texts -/

lemma ofNat_cons_lt {a b : ℕ} (hb : b < 256) (h : a < b) (x y : List UInt8) :
    UInt8.ofNat a :: x < UInt8.ofNat b :: y := by
  refine List.cons_lt_cons_iff.mpr (.inl ?_)
  rwa [UInt8.lt_iff_toNat_lt, UInt8.toNat_ofNat', UInt8.toNat_ofNat', Nat.mod_eq_of_lt hb,
    Nat.mod_eq_of_lt (h.trans hb)]

/-- The bytes of a rune after the first: its last `k` digits to base 64. -/
def trail : ℕ → ℕ → List UInt8
  | 0, _ => []
  | k + 1, n => UInt8.ofNat (n / 64 ^ k % 64 + 128) :: trail k n

lemma trail_lt {k m n : ℕ} (h : m % 64 ^ k < n % 64 ^ k) (x y : List UInt8) :
    trail k m ++ x < trail k n ++ y := by
  induction k with
  | zero =>
      rw [pow_zero, Nat.mod_one, Nat.mod_one] at h
      cases h
  | succ k ih =>
      have hn : n / 64 ^ k % 64 < 64 := Nat.mod_lt _ (by decide)
      rw [Nat.mod_pow_succ, Nat.mod_pow_succ] at h
      rw [trail, trail, List.cons_append, List.cons_append]
      rcases lt_trichotomy (m / 64 ^ k % 64) (n / 64 ^ k % 64) with hlt | heq | hgt
      · exact ofNat_cons_lt (by omega) (by omega) _ _
      · rw [heq] at h ⊢
        exact List.cons_lt_cons_iff.mpr (.inr ⟨rfl, ih (Nat.lt_of_add_lt_add_right h)⟩)
      · -- a higher digit is worth more than all that follow it
        have hstep : 64 ^ k * (n / 64 ^ k % 64 + 1) ≤ 64 ^ k * (m / 64 ^ k % 64) :=
          Nat.mul_le_mul_left _ hgt
        have hrest : n % 64 ^ k < 64 ^ k := Nat.mod_lt _ (Nat.pow_pos (by decide))
        rw [Nat.mul_succ] at hstep
        omega

/-- What is added to the first byte of a rune with `k` others. -/
def mark : ℕ → ℕ
  | 0 => 0
  | 1 => 192
  | 2 => 224
  | 3 => 240
  | _ => 248

/-- The first rune with `k` bytes after the first. -/
def firstRune : ℕ → ℕ
  | 0 => 0
  | 1 => 0x80
  | 2 => 0x800
  | 3 => 0x10000
  | _ => 0x110000

lemma mark_mono : Monotone mark := by
  refine monotone_nat_of_le_succ fun k => ?_
  match k with
  | 0 | 1 | 2 | 3 => decide
  | k + 4 => exact Nat.le_refl _

lemma firstRune_mono : Monotone firstRune := by
  refine monotone_nat_of_le_succ fun k => ?_
  match k with
  | 0 | 1 | 2 | 3 => decide
  | k + 4 => exact Nat.le_refl _

/-- The UTF-8 of a rune is a marked first digit and the others. -/
lemma utf8EncodeChar_eq (c : Char) : ∃ k ≤ 3,
    firstRune k ≤ c.val.toNat ∧ c.val.toNat < firstRune (k + 1) ∧
      c.val.toNat / 64 ^ k + mark k < mark (k + 1) ∧
      String.utf8EncodeChar c =
        UInt8.ofNat (c.val.toNat / 64 ^ k + mark k) :: trail k c.val.toNat := by
  have hc : c.val.toNat < 0x110000 := by
    rcases c.valid with hv | hv
    · exact hv.trans (by decide)
    · exact hv.2
  unfold String.utf8EncodeChar
  dsimp only
  generalize c.val.toNat = n at hc ⊢
  split_ifs with h₁ h₂ h₃
  · refine ⟨0, by decide, ?_⟩
    simp only [firstRune, mark, trail, pow_zero, Nat.div_one]
    exact ⟨by omega, by omega, by omega, rfl⟩
  · refine ⟨1, by decide, ?_⟩
    simp only [firstRune, mark, trail, pow_zero, Nat.reducePow, Nat.div_one]
    exact ⟨by omega, by omega, by omega, by rw [Nat.mod_eq_of_lt (by omega)]⟩
  · refine ⟨2, by decide, ?_⟩
    simp only [firstRune, mark, trail, pow_zero, Nat.reducePow, Nat.div_one]
    exact ⟨by omega, by omega, by omega, by rw [Nat.mod_eq_of_lt (by omega)]⟩
  · refine ⟨3, by decide, ?_⟩
    simp only [firstRune, mark, trail, pow_zero, Nat.reducePow, Nat.div_one]
    exact ⟨by omega, by omega, by omega, by rw [Nat.mod_eq_of_lt (by omega)]⟩

/-- The lower of two runes has the lower bytes, whatever follows: a longer encoding starts with a
higher byte, and within one length the bytes are the digits of the rune. -/
lemma utf8EncodeChar_lt {c d : Char} (h : c < d) (x y : List UInt8) :
    String.utf8EncodeChar c ++ x < String.utf8EncodeChar d ++ y := by
  have hlt : c.val.toNat < d.val.toNat := h
  obtain ⟨j, -, hj, -, hjmark, hc⟩ := utf8EncodeChar_eq c
  obtain ⟨k, hk3, -, hk, hkmark, hd⟩ := utf8EncodeChar_eq d
  have hbyte : d.val.toNat / 64 ^ k + mark k < 256 :=
    hkmark.trans_le ((mark_mono (Nat.succ_le_succ hk3)).trans (by decide))
  rw [hc, hd, List.cons_append, List.cons_append]
  rcases lt_trichotomy j k with hjk | rfl | hjk
  · have hmark : mark (j + 1) ≤ mark k := mark_mono hjk
    exact ofNat_cons_lt hbyte (hjmark.trans_le (hmark.trans (Nat.le_add_left _ _))) _ _
  · have hdigit := Nat.div_le_div_right (c := 64 ^ j) hlt.le
    rcases Nat.lt_or_eq_of_le hdigit with hdigit | hdigit
    · exact ofNat_cons_lt hbyte (Nat.add_lt_add_right hdigit _) _ _
    · rw [hdigit]
      refine List.cons_lt_cons_iff.mpr (.inr ⟨rfl, trail_lt ?_ x y⟩)
      have hm := Nat.div_add_mod c.val.toNat (64 ^ j)
      have hn := Nat.div_add_mod d.val.toNat (64 ^ j)
      rw [hdigit] at hm
      omega
  · have hfirst : firstRune (k + 1) ≤ firstRune j := firstRune_mono hjk
    omega

lemma utf8_lt_of_lt {cs ds : List Char} (h : cs < ds) : utf8 cs < utf8 ds := by
  induction cs generalizing ds with
  | nil =>
      cases ds with
      | nil => exact (List.lt_irrefl _ h).elim
      | cons d ds =>
          rw [utf8_cons]
          obtain ⟨b, bs, hb⟩ := List.exists_cons_of_ne_nil (String.utf8EncodeChar_ne_nil (c := d))
          rw [hb]
          exact List.nil_lt_cons _ _
  | cons c cs ih =>
      cases ds with
      | nil => exact (List.not_lt_nil _ h).elim
      | cons d ds =>
          rw [utf8_cons, utf8_cons]
          rcases List.cons_lt_cons_iff.mp h with hlt | ⟨rfl, hlt⟩
          · exact utf8EncodeChar_lt hlt _ _
          · exact List.append_left_lt (ih hlt)

/-- The order of texts is that of their bytes. -/
lemma utf8_lt_utf8 {s t : String} : utf8 s.toList < utf8 t.toList ↔ s < t := by
  rw [String.lt_iff_toList_lt]
  constructor
  · intro h
    rcases lt_trichotomy s.toList t.toList with hlt | heq | hgt
    · exact hlt
    · rw [heq] at h
      exact (List.lt_irrefl _ h).elim
    · exact (List.lt_asymm h (utf8_lt_of_lt hgt)).elim
  · exact utf8_lt_of_lt

end Json

end ToyRaft
