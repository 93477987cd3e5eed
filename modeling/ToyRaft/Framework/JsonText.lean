import Mathlib.Algebra.BigOperators.Group.List.Basic
import Mathlib.Algebra.GroupWithZero.Nat
import ToyRaft.Framework.Json

/-!
# The text of a JSON value

A value is written without white space, and its text is sent in UTF-8.  In a string the quote, the
backslash and the control characters are escaped, and so are `<`, `>`, `&` and the two line
separators.  The length of a text is told piece by piece: a list or an object costs one byte for
each separator, the opening one included, and one for the closing one (`size_array`,
`size_object`).
-/

namespace ToyRaft

namespace Json

def utf8 (cs : List Char) : List UInt8 := cs.flatMap String.utf8EncodeChar

def escapeRune (c : Char) : List Char :=
  if c = '"' then ['\\', '"']
  else if c = '\\' then ['\\', '\\']
  else if c = '\x08' then ['\\', 'b']
  else if c = '\x0c' then ['\\', 'f']
  else if c = '\n' then ['\\', 'n']
  else if c = '\r' then ['\\', 'r']
  else if c = '\t' then ['\\', 't']
  else if c.toNat < 32 ∨ c ∈ ['<', '>', '&', '\u2028', '\u2029'] then
    '\\' :: 'u' :: (Nat.toDigits 16 c.toNat).leftpad 4 '0'
  else [c]

def quote (s : String) : List Char := '"' :: (s.toList.flatMap escapeRune ++ ['"'])

def renderNumeral (n : Numeral) : List Char :=
  (if n.neg then ['-'] else []) ++ Nat.toDigits 10 n.whole ++ n.tail.toList

mutual

def render : Json → List Char
  | .null => ['n', 'u', 'l', 'l']
  | .bool true => ['t', 'r', 'u', 'e']
  | .bool false => ['f', 'a', 'l', 's', 'e']
  | .number n => renderNumeral n
  | .string s => quote s
  | .array [] => ['[', ']']
  | .array (x :: xs) => '[' :: (render x ++ renderElements xs)
  | .object [] => ['\x7b', '\x7d']
  | .object ((key, j) :: ms) => '\x7b' :: (quote key ++ ':' :: (render j ++ renderMembers ms))

/-- The rest of a list, with its closing bracket. -/
def renderElements : List Json → List Char
  | [] => [']']
  | x :: xs => ',' :: (render x ++ renderElements xs)

/-- The rest of an object, with its closing brace. -/
def renderMembers : List (String × Json) → List Char
  | [] => ['\x7d']
  | (key, j) :: ms => ',' :: (quote key ++ ':' :: (render j ++ renderMembers ms))

end

/-- The body that carries a value. -/
def toBytes (j : Json) : List UInt8 := utf8 (render j)

/-- The length of that body. -/
def size (j : Json) : ℕ := (toBytes j).length

/-! ## Lengths -/

@[simp] lemma length_utf8_append (cs ds : List Char) :
    (utf8 (cs ++ ds)).length = (utf8 cs).length + (utf8 ds).length := by
  rw [utf8, List.flatMap_append, List.length_append, utf8, utf8]

@[simp] lemma length_utf8_cons (c : Char) (cs : List Char) :
    (utf8 (c :: cs)).length = c.utf8Size + (utf8 cs).length := by
  rw [utf8, List.flatMap_cons, List.length_append, String.length_utf8EncodeChar, utf8]

/-- An ASCII text has a byte for each character. -/
lemma length_utf8_ascii {cs : List Char} (h : ∀ c ∈ cs, c.toNat < 128) :
    (utf8 cs).length = cs.length := by
  induction cs with
  | nil => rfl
  | cons c cs ih =>
      have hc : c.utf8Size = 1 := by
        have hlt := h c List.mem_cons_self
        exact Char.utf8Size_eq_one_iff.mpr (by
          rw [UInt32.le_iff_toNat_le]
          exact Nat.le_of_lt_succ hlt)
      rw [length_utf8_cons, hc, ih fun c hc => h c (List.mem_cons_of_mem _ hc), List.length_cons]
      omega

/-- What the name of a member takes, with its quotes. -/
def nameSize (key : String) : ℕ := (utf8 (quote key)).length

/-- What the members of an object take, each with the separator before it. -/
def membersSize (ms : List (String × Json)) : ℕ :=
  (ms.map fun m => nameSize m.1 + 2 + size m.2).sum

lemma membersSize_append (ms₁ ms₂ : List (String × Json)) :
    membersSize (ms₁ ++ ms₂) = membersSize ms₁ + membersSize ms₂ := by
  rw [membersSize, List.map_append, List.sum_append, membersSize, membersSize]

lemma membersSize_cons (name : String) (j : Json) (ms : List (String × Json)) :
    membersSize ((name, j) :: ms) = nameSize name + 2 + size j + membersSize ms := by
  rw [membersSize, List.map_cons, List.sum_cons, membersSize]

lemma membersSize_singleton (name : String) (j : Json) :
    membersSize [(name, j)] = nameSize name + 2 + size j := by
  rw [membersSize, List.map_singleton, List.sum_singleton]

lemma length_renderElements (xs : List Json) :
    (utf8 (renderElements xs)).length = 1 + (xs.map fun x => size x + 1).sum := by
  induction xs with
  | nil => rfl
  | cons x xs ih =>
      rw [renderElements, length_utf8_cons, length_utf8_append, ih, List.map_cons, List.sum_cons,
        size, toBytes, show ','.utf8Size = 1 from rfl]
      omega

lemma length_renderMembers (ms : List (String × Json)) :
    (utf8 (renderMembers ms)).length = 1 + membersSize ms := by
  induction ms with
  | nil => rfl
  | cons m ms ih =>
      obtain ⟨key, j⟩ := m
      rw [renderMembers, length_utf8_cons, length_utf8_append, length_utf8_cons,
        length_utf8_append, ih, membersSize_cons, size, toBytes, nameSize,
        show ','.utf8Size = 1 from rfl, show ':'.utf8Size = 1 from rfl]
      omega

/-- A list takes a byte for each separator and one to close it. -/
lemma size_array {xs : List Json} (hxs : xs ≠ []) :
    size (.array xs) = 1 + (xs.map fun x => size x + 1).sum := by
  obtain ⟨x, xs, rfl⟩ := List.exists_cons_of_ne_nil hxs
  rw [size, toBytes, render, length_utf8_cons, length_utf8_append, length_renderElements,
    List.map_cons, List.sum_cons, size, toBytes, show '['.utf8Size = 1 from rfl]
  omega

/-- An object takes a byte for each separator and each colon, and one to close it. -/
lemma size_object {ms : List (String × Json)} (hms : ms ≠ []) :
    size (.object ms) = 1 + membersSize ms := by
  obtain ⟨m, ms, rfl⟩ := List.exists_cons_of_ne_nil hms
  obtain ⟨key, j⟩ := m
  rw [size, toBytes, render, length_utf8_cons, length_utf8_append, length_utf8_cons,
    length_utf8_append, length_renderMembers, membersSize_cons, size, toBytes, nameSize,
    show ':'.utf8Size = 1 from rfl, show '\x7b'.utf8Size = 1 from rfl]
  omega

lemma size_nat (n : ℕ) : size (nat n) = (Nat.toDigits 10 n).length := by
  have hascii : ∀ c ∈ Nat.toDigits 10 n, c.toNat < 128 := by
    intro c hc
    have hd := Char.isDigit_iff_toNat.mp (Nat.isDigit_of_mem_toDigits (by decide) (by decide) hc)
    have hnine : '9'.toNat = 57 := rfl
    omega
  rw [size, toBytes, nat, render, renderNumeral]
  simp [length_utf8_ascii hascii]

/-- The bytes of a base64 text, quotes included. -/
lemma size_bytes (bs : List UInt8) :
    size (bytes.encode (some bs)) = 2 + 4 * ((bs.length + 2) / 3) := by
  have hplain : ∀ c ∈ Base64.encode bs, escapeRune c = [c] ∧ c.toNat < 128 := by
    have hall : ∀ n < 64, escapeRune (Base64.digit n) = [Base64.digit n] ∧
        (Base64.digit n).toNat < 128 := by
      decide +kernel
    intro c hc
    rcases Base64.mem_encode hc with rfl | ⟨n, hn, rfl⟩
    · exact ⟨by decide +kernel, by decide⟩
    · exact hall n hn
  have hflat : (Base64.encode bs).flatMap escapeRune = Base64.encode bs := by
    rw [List.flatMap_congr fun c hc => (hplain c hc).1, List.flatMap_singleton']
  rw [size, toBytes, bytes, render, quote, String.toList_ofList, hflat, length_utf8_cons,
    length_utf8_append, length_utf8_ascii fun c hc => (hplain c hc).2, Base64.length_encode]
  rw [show '"'.utf8Size = 1 from rfl, show (utf8 ['"']).length = 1 from rfl]
  omega

end Json

end ToyRaft
