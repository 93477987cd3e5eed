import Mathlib.Data.FinEnum
import Mathlib.Data.List.DropRight

/-!
# URLs

The part of a URL library that decides where a reference leads: percent-encoding of paths, the
parser, and the path a request is sent with.  A URL has its path twice, decoded and, when the
encoding is not the one `escape` would choose, as it was written.  `unescape_escapedPath` says that
the path that is sent decodes to the path that is kept, and `escapedPath_setPath` that reading it
again changes nothing.

The authority of a URL is checked by a function that is a parameter of the parser.
-/

namespace ToyRaft

namespace NetUrl

abbrev Octets := List UInt8

/-- The bytes of an ASCII text. -/
def ascii (s : String) : Octets := s.toList.map fun c => c.toNat.toUInt8

def isCtl (c : UInt8) : Bool := c < 32 || c = 127

/-! ## Percent-encoding -/

def hexValue (c : UInt8) : Option UInt8 :=
  if 48 ≤ c ∧ c ≤ 57 then some (c - 48)
  else if 97 ≤ c ∧ c ≤ 102 then some (c - 97 + 10)
  else if 65 ≤ c ∧ c ≤ 70 then some (c - 65 + 10)
  else none

def upperHex (n : UInt8) : UInt8 := if n < 10 then 48 + n else 55 + n

/-- `%` and two hexadecimal digits are a byte; any other `%` is an error. -/
def unescape : Octets → Option Octets
  | [] => some []
  | c :: s =>
      if c = 37 then
        match s with
        | a :: b :: s =>
            match hexValue a, hexValue b with
            | some x, some y => (unescape s).map ((x <<< 4 ||| y) :: ·)
            | _, _ => none
        | _ => none
      else (unescape s).map (c :: ·)

/-- Whether a byte of a path is written in hexadecimal. -/
def shouldEscape (c : UInt8) : Bool :=
  !((97 ≤ c && c ≤ 122) || (65 ≤ c && c ≤ 90) || (48 ≤ c && c ≤ 57) ||
    c ∈ ascii "-_.~$&+,/:;=@")

def escapeByte (c : UInt8) : Octets :=
  if shouldEscape c then [37, upperHex (c >>> 4), upperHex (c &&& 15)] else [c]

def escape (s : Octets) : Octets := s.flatMap escapeByte

/-- Whether a byte can stand in an encoded path. -/
def encodedByte (c : UInt8) : Bool := c ∈ ascii "!$&'()*+,;=:@[]%" || !shouldEscape c

def validEncoded (s : Octets) : Bool := s.all encodedByte

/-! ## The parser -/

/-- What the later parts of the parser and the sender of a request look at. -/
structure Url where
  scheme : Octets := []
  rootless : Octets := []
  host : Octets := []
  path : Octets := []
  rawPath : Octets := []
  forceQuery : Bool := false
  rawQuery : Octets := []
  deriving DecidableEq

def setPath (u : Url) (p : Octets) : Option Url :=
  (unescape p).map fun path =>
    { u with path := path, rawPath := if p = escape path then [] else p }

/-- The path as it is sent. -/
def escapedPath (u : Url) : Octets :=
  if u.rawPath ≠ [] ∧ validEncoded u.rawPath ∧ unescape u.rawPath = some u.path then u.rawPath
  else if u.path = [42] then ascii "%2A"
  else escape u.path

/-- The parts before and after the first `sep`. -/
def cut (sep : UInt8) (s : Octets) : Octets × Octets :=
  (s.takeWhile (· != sep), (s.dropWhile (· != sep)).tail)

def isLetter (c : UInt8) : Bool := (97 ≤ c && c ≤ 122) || (65 ≤ c && c ≤ 90)

def schemeByte (c : UInt8) : Bool := isLetter c || (48 ≤ c && c ≤ 57) || c ∈ ascii "+-."

/-- The scheme, without its colon, and the rest.  A colon without a scheme is an error. -/
def getScheme (raw : Octets) : Option (Octets × Octets) :=
  match raw.takeWhile schemeByte, raw.dropWhile schemeByte with
  | [], 58 :: _ => none
  | c :: s, 58 :: rest => if isLetter c then some (c :: s, rest) else some ([], raw)
  | _, _ => some ([], raw)

section Parser

variable (authority : Octets → Option Octets)

/-- The parser behind the fragment; `viaRequest` for the target of a request. -/
def parseTarget (viaRequest : Bool) (raw : Octets) : Option Url :=
  if raw.any isCtl then none
  else if raw = [] ∧ viaRequest then none
  else if raw = [42] then some { path := [42] }
  else
    match getScheme raw with
    | none => none
    | some (scheme, rest) =>
        let query := cut 63 rest
        let u : Url :=
          { scheme := scheme, forceQuery := rest.getLast? = some 63 && rest.count 63 = 1,
            rawQuery := query.2 }
        let rest := query.1
        if rest.head? ≠ some 47 then
          if scheme ≠ [] then some { u with rootless := rest }
          else if viaRequest ∨ 58 ∈ (cut 47 rest).1 then none
          else setPath u rest
        else if (scheme ≠ [] ∨ (viaRequest = false ∧ rest.take 3 ≠ [47, 47, 47])) ∧
            rest.take 2 = [47, 47] then
          let s := rest.drop 2
          match authority (s.takeWhile (· != 47)) with
          | none => none
          | some host => setPath { u with host := host } (s.dropWhile (· != 47))
        else setPath u rest

/-- `Parse`: a reference, with its fragment. -/
def parse (raw : Octets) : Option Url :=
  let parts := cut 35 raw
  match parseTarget authority false parts.1 with
  | none => none
  | some u => if unescape parts.2 = none then none else some u

/-- `ParseRequestURI`. -/
def parseRequestURI (raw : Octets) : Option Url := parseTarget authority true raw

end Parser

/-- `RequestURI`: what the request line has for a URL. -/
def requestURI (u : Url) : Octets :=
  (if u.rootless = [] then
    if escapedPath u = [] then [47] else escapedPath u
  else if u.rootless.take 2 = [47, 47] then u.scheme ++ 58 :: u.rootless
  else u.rootless) ++
  if u.forceQuery ∨ u.rawQuery ≠ [] then 63 :: u.rawQuery else []

/-! ## Decoding -/

lemma unescape_cons_of_ne {c : UInt8} (hc : c ≠ 37) (s : Octets) :
    unescape (c :: s) = (unescape s).map (c :: ·) := by
  rw [unescape.eq_def]
  dsimp only
  rw [if_neg hc]

lemma unescape_percent {a b x y : UInt8} (ha : hexValue a = some x) (hb : hexValue b = some y)
    (s : Octets) : unescape (37 :: a :: b :: s) = (unescape s).map ((x <<< 4 ||| y) :: ·) := by
  rw [unescape, if_pos rfl]
  simp only [ha, hb]

/-- What a decoded text starts from: nothing, a plain byte, or a percent and two digits. -/
lemma unescape_cases {s t : Octets} (h : unescape s = some t) :
    (s = [] ∧ t = []) ∨
    (∃ c s' t', c ≠ 37 ∧ s = c :: s' ∧ unescape s' = some t' ∧ t = c :: t') ∨
    (∃ a b x y s' t', hexValue a = some x ∧ hexValue b = some y ∧ s = 37 :: a :: b :: s' ∧
      unescape s' = some t' ∧ t = (x <<< 4 ||| y) :: t') := by
  cases s with
  | nil =>
      cases h
      exact .inl ⟨rfl, rfl⟩
  | cons c s =>
      by_cases hc : c = 37
      · rw [unescape.eq_def] at h
        dsimp only at h
        rw [if_pos hc] at h
        split at h
        · rename_i a b s'
          split at h
          · rename_i x y hx hy
            obtain ⟨t', ht', rfl⟩ := Option.map_eq_some_iff.mp h
            exact .inr (.inr ⟨a, b, x, y, s', t', hx, hy, by rw [hc], ht', rfl⟩)
          · cases h
        · cases h
      · rw [unescape_cons_of_ne hc] at h
        obtain ⟨t', ht', rfl⟩ := Option.map_eq_some_iff.mp h
        exact .inr (.inl ⟨c, s, t', hc, rfl, ht', rfl⟩)

lemma ne_nil_of_unescape {s t : Octets} (h : unescape s = some t) (hs : s ≠ []) : t ≠ [] := by
  rcases unescape_cases h with ⟨hnil, -⟩ | ⟨c, s', t', -, -, -, rfl⟩ |
    ⟨a, b, x, y, s', t', -, -, -, -, rfl⟩
  · exact absurd hnil hs
  · exact List.cons_ne_nil _ _
  · exact List.cons_ne_nil _ _

/-- Text without a percent is its own decoding. -/
lemma unescape_of_notMem {s : Octets} (h : 37 ∉ s) : unescape s = some s := by
  induction s with
  | nil => rfl
  | cons c s ih =>
      rw [List.mem_cons, not_or] at h
      rw [unescape_cons_of_ne (Ne.symm h.1), ih h.2, Option.map_some]

/-- Decoding never makes a text longer, and what it leaves at the same length it leaves alone. -/
lemma length_unescape {s t : Octets} (h : unescape s = some t) :
    t.length ≤ s.length ∧ (t.length = s.length → 37 ∉ s) := by
  induction hn : s.length using Nat.strong_induction_on generalizing s t with
  | _ n ih =>
      rcases unescape_cases h with ⟨rfl, rfl⟩ | ⟨c, s', t', hc, rfl, ht', rfl⟩ |
        ⟨a, b, x, y, s', t', -, -, rfl, ht', rfl⟩
      · exact ⟨hn.le, fun _ => by simp⟩
      · rw [List.length_cons] at hn
        obtain ⟨hle, heq⟩ := ih s'.length (by omega) ht' rfl
        refine ⟨by rw [List.length_cons]; omega, fun hlen => ?_⟩
        rw [List.length_cons] at hlen
        simp only [List.mem_cons, not_or]
        exact ⟨Ne.symm hc, heq (by omega)⟩
      · simp only [List.length_cons] at hn
        obtain ⟨hle, -⟩ := ih s'.length (by omega) ht' rfl
        simp only [List.length_cons]
        exact ⟨by omega, fun hlen => by omega⟩

/-- A slash is not part of an encoded byte, so both sides of it are decoded alone. -/
lemma unescape_slash {s₁ s₂ t : Octets} (h : unescape (s₁ ++ 47 :: s₂) = some t) :
    ∃ t₁ t₂, unescape s₁ = some t₁ ∧ unescape s₂ = some t₂ ∧ t = t₁ ++ 47 :: t₂ := by
  have hslash : ∀ x, hexValue 47 ≠ some x := by
    simp [show hexValue 47 = none from by decide]
  induction hn : s₁.length using Nat.strong_induction_on generalizing s₁ t with
  | _ n ih =>
      rcases unescape_cases h with ⟨hs, -⟩ | ⟨c, s', t', hc, hs, ht', rfl⟩ |
        ⟨a, b, x, y, s', t', hx, hy, hs, ht', rfl⟩
      · cases s₁ <;> cases hs
      · match s₁, hs with
        | [], hs =>
            obtain ⟨rfl, rfl⟩ := List.cons.inj hs
            exact ⟨[], t', rfl, ht', rfl⟩
        | d :: s₁, hs =>
            obtain ⟨rfl, rfl⟩ := List.cons.inj hs
            obtain ⟨t₁, t₂, h₁, h₂, rfl⟩ := ih s₁.length (by simp at hn; omega) ht' rfl
            exact ⟨d :: t₁, t₂, by rw [unescape_cons_of_ne hc, h₁]; rfl, h₂, rfl⟩
      · match s₁, hs with
        | [], hs => cases hs
        | [_], hs =>
            cases hs
            exact absurd hx (hslash x)
        | [_, _], hs =>
            cases hs
            exact absurd hy (hslash y)
        | _ :: _ :: _ :: s₁, hs =>
            cases hs
            obtain ⟨t₁, t₂, h₁, h₂, rfl⟩ := ih s₁.length (by simp at hn; omega) ht' rfl
            exact ⟨(x <<< 4 ||| y) :: t₁, t₂, by rw [unescape_percent hx hy, h₁]; rfl, h₂, rfl⟩

/-! ## Encoding -/

/-- One byte and its encoding: what it decodes to, that it can stand in a path, and that it has a
slash just if the byte is one. -/
lemma escapeByte_spec (c : UInt8) :
    (escapeByte c).all encodedByte = true ∧ (escapeByte c).count 47 = [c].count 47 ∧
      ∀ s, unescape (escapeByte c ++ s) = (unescape s).map (c :: ·) := by
  have hdigits : ∀ c : UInt8, hexValue (upperHex (c >>> 4)) = some (c >>> 4) ∧
      hexValue (upperHex (c &&& 15)) = some (c &&& 15) ∧ (c >>> 4) <<< 4 ||| (c &&& 15) = c := by
    decide +kernel
  have hbytes : ∀ c : UInt8, (escapeByte c).all encodedByte = true ∧
      (escapeByte c).count 47 = [c].count 47 ∧ (shouldEscape c = false → c ≠ 37) := by
    decide +kernel
  obtain ⟨hall, hcount, hplain⟩ := hbytes c
  refine ⟨hall, hcount, fun s => ?_⟩
  unfold escapeByte
  split_ifs with hc
  · obtain ⟨hx, hy, hxy⟩ := hdigits c
    show unescape (37 :: _ :: _ :: s) = _
    rw [unescape_percent hx hy, hxy]
  · exact unescape_cons_of_ne (hplain (by simpa using hc)) s

lemma escape_cons (c : UInt8) (s : Octets) : escape (c :: s) = escapeByte c ++ escape s := by
  rw [escape, List.flatMap_cons, escape]

lemma unescape_escape (s : Octets) : unescape (escape s) = some s := by
  induction s with
  | nil => rfl
  | cons c s ih => rw [escape_cons, (escapeByte_spec c).2.2, ih, Option.map_some]

lemma validEncoded_escape (s : Octets) : validEncoded (escape s) = true := by
  induction s with
  | nil => rfl
  | cons c s ih =>
      rw [escape_cons, validEncoded, List.all_append, (escapeByte_spec c).1, Bool.true_and]
      exact ih

lemma count_slash_escape (s : Octets) : (escape s).count 47 = s.count 47 := by
  induction s with
  | nil => rfl
  | cons c s ih =>
      rw [escape_cons, List.count_append, (escapeByte_spec c).2.1, ih, ← List.count_append,
        List.singleton_append]

/-- An encoded path has no control byte, no question mark and no hash. -/
lemma notMem_of_validEncoded {s : Octets} (h : validEncoded s = true) :
    s.any isCtl = false ∧ 63 ∉ s := by
  have hbytes : ∀ c, encodedByte c = true → isCtl c = false ∧ c ≠ 63 := by decide +kernel
  have hall := List.all_eq_true.mp h
  refine ⟨?_, fun hmem => (hbytes 63 (hall 63 hmem)).2 rfl⟩
  rw [List.any_eq_false]
  intro c hc
  rw [(hbytes c (hall c hc)).1]
  exact Bool.false_ne_true

/-! ## The path that is kept and the path that is sent -/

/-- What is sent is encoded and decodes to what is kept. -/
lemma escapedPath_spec (u : Url) :
    validEncoded (escapedPath u) = true ∧ unescape (escapedPath u) = some u.path := by
  unfold escapedPath
  split_ifs with hraw hstar
  · exact hraw.2
  · rw [hstar]
    decide
  · exact ⟨validEncoded_escape _, unescape_escape _⟩

/-- What is sent is the path as it was written, or the encoding of its decoding. -/
lemma escapedPath_of_setPath {u v : Url} {p : Octets} (h : setPath u p = some v)
    (hstar : v.path ≠ [42]) : escapedPath v = p ∨ escapedPath v = escape v.path := by
  obtain ⟨path, hpath, rfl⟩ := Option.map_eq_some_iff.mp h
  unfold escapedPath
  dsimp only at hstar ⊢
  rw [if_neg hstar]
  by_cases heq : p = escape path
  · rw [if_pos heq, if_neg fun hraw => hraw.1 rfl]
    exact .inr rfl
  · rw [if_neg heq]
    split_ifs
    · exact .inl rfl
    · exact .inr rfl

/-- An encoded path is sent as it was written. -/
lemma escapedPath_of_validEncoded {u v : Url} {p : Octets} (h : setPath u p = some v)
    (hstar : v.path ≠ [42]) (hp : validEncoded p = true) (hne : p ≠ []) : escapedPath v = p := by
  obtain ⟨path, hpath, rfl⟩ := Option.map_eq_some_iff.mp h
  unfold escapedPath
  dsimp only at hstar ⊢
  by_cases heq : p = escape path
  · rw [if_pos heq, if_neg fun hraw => hraw.1 rfl, if_neg hstar, heq]
  · rw [if_neg heq, if_pos ⟨hne, hp, hpath⟩]

/-! ## What the parser makes of a text -/

lemma cut_append {sep : UInt8} {s : Octets} (h : sep ∉ s) (t : Octets) :
    cut sep (s ++ t) = (s ++ (cut sep t).1, (cut sep t).2) := by
  have hall : ∀ c ∈ s, (c != sep) = true := by
    intro c hc
    rw [bne_iff_ne]
    exact fun heq => h (heq ▸ hc)
  rw [cut, cut, List.takeWhile_append_of_pos hall, List.dropWhile_append_of_pos hall]

/-- A text without the separator is not cut. -/
lemma cut_of_notMem {sep : UInt8} {s : Octets} (h : sep ∉ s) : cut sep s = (s, []) := by
  have hcut := cut_append h []
  rwa [List.append_nil, show cut sep [] = ([], []) from rfl, List.append_nil] at hcut

/-- What is left of a text is shorter, unless the separator is not in it. -/
lemma length_cut (sep : UInt8) (s : Octets) :
    (cut sep s).1.length ≤ s.length ∧ (s.length ≤ (cut sep s).1.length → sep ∉ s) := by
  have hpre : s.takeWhile (· != sep) <+: s := List.takeWhile_prefix _
  refine ⟨hpre.length_le, fun hle hmem => ?_⟩
  have heq := hpre.eq_of_length_le hle
  have hne := List.takeWhile_eq_self_iff.mp heq sep hmem
  rw [bne_self_eq_false] at hne
  exact Bool.false_ne_true hne

lemma any_cut_eq_false {p : UInt8 → Bool} {s : Octets} (h : s.any p = false) (sep : UInt8) :
    (cut sep s).2.any p = false := by
  rw [List.any_eq_false] at h ⊢
  intro c hc
  exact h c ((List.dropWhile_sublist _).subset (List.mem_of_mem_tail hc))

/-- A target that starts with a slash is a path and a query. -/
lemma parseRequestURI_slash (authority : Octets → Option Octets) {e q : Octets}
    (he : validEncoded (47 :: e) = true) (hq : q.any isCtl = false)
    (hsep : q = [] ∨ q.head? = some 63) :
    ∃ u, parseRequestURI authority (47 :: e ++ q) = setPath u (47 :: e) := by
  obtain ⟨hctl, hquest⟩ := notMem_of_validEncoded he
  have hcut : (cut 63 (47 :: e ++ q)).1 = 47 :: e := by
    rw [cut_append hquest]
    rcases hsep with rfl | hsep
    · simp [cut]
    · obtain ⟨q', rfl⟩ : ∃ q', q = 63 :: q' := ⟨q.tail, List.eq_cons_of_mem_head? hsep⟩
      simp [cut]
  have hscheme : getScheme (47 :: e ++ q) = some ([], 47 :: e ++ q) := by
    simp [getScheme, show schemeByte 47 = false from by decide]
  rw [parseRequestURI, parseTarget, if_neg (by rw [List.any_append, hctl, hq]; decide),
    if_neg (by simp), if_neg (by simp), hscheme]
  dsimp only
  rw [hcut, if_neg (by simp), if_neg (by simp)]
  exact ⟨_, rfl⟩

/-- A request for a parsed path arrives with that path, and it is sent on as it was sent. -/
lemma parseRequestURI_requestURI (authority : Octets → Option Octets) {u v : Url} {p : Octets}
    (h : setPath u (47 :: p) = some v) (hroot : u.rootless = [])
    (hquery : u.rawQuery.any isCtl = false) :
    ∃ w, parseRequestURI authority (requestURI v) = some w ∧ escapedPath w = escapedPath v := by
  obtain ⟨hvalid, hpath⟩ := escapedPath_spec v
  obtain ⟨path, hun, hv⟩ := Option.map_eq_some_iff.mp h
  have hvpath : v.path = path := by rw [← hv]
  obtain ⟨path', rfl⟩ : ∃ path', path = 47 :: path' := by
    rw [unescape_cons_of_ne (by decide)] at hun
    obtain ⟨path', -, hp⟩ := Option.map_eq_some_iff.mp hun
    exact ⟨path', hp.symm⟩
  have hstar : v.path ≠ [42] := by
    rw [hvpath]
    exact fun heq => absurd (List.cons.inj heq).1 (by decide)
  obtain ⟨e, he⟩ : ∃ e, escapedPath v = 47 :: e := by
    rcases escapedPath_of_setPath h hstar with heq | heq
    · exact ⟨p, heq⟩
    · rw [hvpath, escape_cons, show escapeByte 47 = [47] from by decide] at heq
      exact ⟨_, heq⟩
  rw [he] at hvalid hpath ⊢
  obtain ⟨q, hq, hsep, huri⟩ : ∃ q : Octets, q.any isCtl = false ∧ (q = [] ∨ q.head? = some 63) ∧
      requestURI v = 47 :: e ++ q := by
    have hvroot : v.rootless = [] := by rw [← hv]; exact hroot
    have hvquery : v.rawQuery.any isCtl = false := by rw [← hv]; exact hquery
    rw [requestURI, if_pos hvroot, he, if_neg (List.cons_ne_nil 47 e)]
    split_ifs
    · refine ⟨63 :: v.rawQuery, ?_, .inr rfl, rfl⟩
      rw [List.any_cons, hvquery]
      decide
    · exact ⟨[], rfl, .inl rfl, rfl⟩
  obtain ⟨u', hu'⟩ := parseRequestURI_slash authority hvalid hq hsep
  obtain ⟨w, hset, hwpath⟩ : ∃ w, setPath u' (47 :: e) = some w ∧ w.path = v.path := by
    rw [setPath, hpath, Option.map_some]
    exact ⟨_, rfl, rfl⟩
  refine ⟨w, by rw [huri, hu', hset], ?_⟩
  exact escapedPath_of_validEncoded hset (hwpath ▸ hstar) hvalid (List.cons_ne_nil 47 e)

section Http

variable {authority : Octets → Option Octets} {host a : Octets}

/-- The bytes of an authority that ends where the path starts. -/
def Plain (host : Octets) : Prop := ∀ c ∈ host, isCtl c = false ∧ c ≠ 47 ∧ c ≠ 63 ∧ c ≠ 35

lemma ascii_http : ascii "http://" = [104, 116, 116, 112, 58, 47, 47] := by decide

/-- A separator that is not in the authority is looked for in what follows. -/
lemma cut_http {sep : UInt8} (hsep : sep ≠ 47) (hhost : sep ∉ host) (q : Octets) :
    cut sep (47 :: 47 :: (host ++ 47 :: q)) =
      (47 :: 47 :: (host ++ 47 :: (cut sep q).1), (cut sep q).2) := by
  have hmem : sep ∉ 47 :: 47 :: (host ++ [47]) := by simp [hsep, hhost]
  have hcut := cut_append hmem q
  simpa only [List.cons_append, List.append_assoc, List.nil_append] using hcut

/-- A reference with scheme and authority and no fragment. -/
lemma parseTarget_http (hauth : authority host = some a) (hhost : Plain host) {q : Octets}
    (hq : q.any isCtl = false) :
    ∃ u : Url, u.rootless = [] ∧ u.rawQuery = (cut 63 q).2 ∧
      parseTarget authority false (ascii "http://" ++ (host ++ 47 :: q)) =
        setPath u (47 :: (cut 63 q).1) := by
  have hctl : (ascii "http://" ++ (host ++ 47 :: q)).any isCtl = false := by
    have hnone : host.any isCtl = false :=
      List.any_eq_false.mpr fun c hc => by rw [(hhost c hc).1]; exact Bool.false_ne_true
    rw [List.any_append, List.any_append, hnone, List.any_cons, hq]
    decide
  have hscheme : getScheme (ascii "http://" ++ (host ++ 47 :: q)) =
      some (ascii "http", 47 :: 47 :: (host ++ 47 :: q)) := by
    rw [ascii_http, show ascii "http" = [104, 116, 116, 112] from by decide]
    rfl
  have hquery := cut_http (by decide) (fun hmem => (hhost 63 hmem).2.2.1 rfl) q
  have hslash : ∀ c ∈ host, (c != 47) = true := fun c hc => bne_iff_ne.mpr (hhost c hc).2.1
  have hhostPart : (host ++ 47 :: (cut 63 q).1).takeWhile (· != 47) = host := by
    rw [List.takeWhile_append_of_pos hslash]
    simp
  have hpathPart : (host ++ 47 :: (cut 63 q).1).dropWhile (· != 47) = 47 :: (cut 63 q).1 := by
    rw [List.dropWhile_append_of_pos hslash]
    simp
  rw [parseTarget, hctl, if_neg Bool.false_ne_true, if_neg (by simp),
    if_neg (by rw [ascii_http]; simp), hscheme]
  dsimp only
  rw [hquery, if_neg (by simp), if_pos ⟨.inl (by decide), rfl⟩]
  dsimp only [List.drop]
  rw [hhostPart, hpathPart, hauth]
  exact ⟨_, rfl, rfl, rfl⟩

/-- A reference with scheme and authority: the fragment is cut off, then the query, and the rest
is the path. -/
lemma parse_http (hauth : authority host = some a) (hhost : Plain host) (p : Octets) :
    ∃ u : Url, u.rootless = [] ∧ u.rawQuery = (cut 63 (cut 35 p).1).2 ∧
      parse authority (ascii "http://" ++ (host ++ 47 :: p)) =
        (if (cut 35 p).1.any isCtl ∨ unescape (cut 35 p).2 = none then none
        else setPath u (47 :: (cut 63 (cut 35 p).1).1)) := by
  have hfragment : cut 35 (ascii "http://" ++ (host ++ 47 :: p)) =
      (ascii "http://" ++ (host ++ 47 :: (cut 35 p).1), (cut 35 p).2) := by
    have hcut := cut_http (by decide) (fun hmem => (hhost 35 hmem).2.2.2 rfl) p
    have hscheme : (35 : UInt8) ∉ ascii "http:" := by decide
    have hall := cut_append hscheme (47 :: 47 :: (host ++ 47 :: p))
    rw [hcut] at hall
    exact hall
  rw [parse, hfragment]
  dsimp only
  by_cases hctl : (cut 35 p).1.any isCtl = true
  · have hall : (ascii "http://" ++ (host ++ 47 :: (cut 35 p).1)).any isCtl = true := by
      rw [List.any_append, List.any_append, List.any_cons, hctl]
      simp
    rw [parseTarget, if_pos hall]
    exact ⟨{ rawQuery := _ }, rfl, rfl, by rw [if_pos (.inl hctl)]⟩
  · obtain ⟨u, hroot, hraw, hu⟩ := parseTarget_http hauth hhost (Bool.not_eq_true _ ▸ hctl)
    refine ⟨u, hroot, hraw, ?_⟩
    rw [hu]
    by_cases hfrag : unescape (cut 35 p).2 = none
    · rw [if_pos (.inr hfrag)]
      split <;> simp [hfrag]
    · rw [if_neg (not_or.mpr ⟨hctl, hfrag⟩)]
      simp only [if_neg hfrag]
      cases setPath u (47 :: (cut 63 (cut 35 p).1).1) <;> rfl

end Http

end NetUrl

end ToyRaft
