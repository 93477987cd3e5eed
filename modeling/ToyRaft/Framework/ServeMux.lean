import ToyRaft.Framework.NetUrl

/-!
# Routing by path

A request is routed by the path it was sent with, still encoded.  A path that is not clean (an
empty segment, `.` or `..`) is answered with a redirect and reaches no handler.  The segments of a
clean path are decoded one by one and compared with those of a pattern, in which a wildcard takes
one segment.
-/

namespace ToyRaft

namespace ServeMux

open NetUrl

/-! ## Clean paths -/

/-- One more segment on the stack of `path.Clean`. -/
def pushSegment (stack : List Octets) (seg : Octets) : List Octets :=
  if seg = [] ∨ seg = [46] then stack
  else if seg = [46, 46] then stack.tail
  else seg :: stack

/-- `path.Clean`, for a path that starts with a slash. -/
def clean (p : Octets) : Octets :=
  47 :: [47].intercalate ((p.splitOn 47).foldl pushSegment []).reverse

/-- `cleanPath`: a trailing slash is kept. -/
def cleanPath (p : Octets) : Octets :=
  if p = [] then [47]
  else
    let p := if p.head? = some 47 then p else 47 :: p
    let np := clean p
    if p.getLast? = some 47 ∧ np ≠ [47] then np ++ [47] else np

lemma cleanPath_eq_cons (p : Octets) : ∃ q, cleanPath p = 47 :: q := by
  unfold cleanPath
  by_cases hp : p = []
  · rw [if_pos hp]
    exact ⟨[], rfl⟩
  · rw [if_neg hp]
    dsimp only
    generalize (if p.head? = some 47 then p else 47 :: p) = p'
    split_ifs <;> exact ⟨_, rfl⟩

/-! ## Patterns -/

inductive Segment
  | literal (s : Octets)
  | wildcard

/-- A segment is decoded if it can be. -/
def pathUnescape (s : Octets) : Octets := (unescape s).getD s

/-- The first segment of a path, decoded, and the rest; a trailing slash is a segment. -/
def firstSegment (path : Octets) : Octets × Octets :=
  if path = [47] then ([47], [])
  else (pathUnescape (path.tail.takeWhile (· != 47)), path.tail.dropWhile (· != 47))

/-- The segments the wildcards took. -/
def matchPath : List Segment → Octets → Option (List Octets)
  | [], path => if path = [] then some [] else none
  | seg :: segs, path =>
      if path = [] then none
      else
        match seg with
        | .literal s =>
            if (firstSegment path).1 = s then matchPath segs (firstSegment path).2 else none
        | .wildcard =>
            if (firstSegment path).1 = [47] then none
            else (matchPath segs (firstSegment path).2).map ((firstSegment path).1 :: ·)

/-- The handler of a pattern gets a request just if its path is clean and matches. -/
def route (pattern : List Segment) (u : Url) : Option (List Octets) :=
  if cleanPath (escapedPath u) = escapedPath u then matchPath pattern (escapedPath u) else none

/-! ## A literal and a wildcard -/

section TwoSegments

variable {name s₁ s₂ : Octets}

lemma splitOn_of_notMem (h : 47 ∉ s₁) : s₁.splitOn 47 = [s₁] := by
  refine List.splitOnP_eq_singleton fun c hc => ?_
  rw [beq_eq_false_iff_ne]
  exact fun heq => h (heq ▸ hc)

/-- A path of two segments is clean if neither is empty or made of dots. -/
lemma cleanPath_two (h₁ : 47 ∉ s₁) (h₂ : 47 ∉ s₂) (hs₁ : s₁ ∉ [[], [46], [46, 46]])
    (hs₂ : s₂ ∉ [[], [46], [46, 46]]) :
    cleanPath (47 :: (s₁ ++ 47 :: s₂)) = 47 :: (s₁ ++ 47 :: s₂) := by
  have hpush : ∀ stack s, s ∉ [[], [46], [46, 46]] → pushSegment stack s = s :: stack := by
    intro stack s hs
    simp only [List.mem_cons, List.not_mem_nil, or_false, not_or] at hs
    rw [pushSegment, if_neg (not_or.mpr ⟨hs.1, hs.2.1⟩), if_neg hs.2.2]
  have hsplit : (47 :: (s₁ ++ 47 :: s₂)).splitOn 47 = [[], s₁, s₂] := by
    have hslash : ((47 : UInt8) == 47) = true := rfl
    have hparts : ∀ p q : Octets, (p ++ 47 :: q).splitOn 47 = p.splitOn 47 ++ q.splitOn 47 :=
      fun p q => List.splitOnP_append_cons p q hslash
    calc (47 :: (s₁ ++ 47 :: s₂)).splitOn 47
        = ([] : Octets).splitOn 47 ++ (s₁ ++ 47 :: s₂).splitOn 47 := hparts [] _
      _ = [[]] ++ ([s₁] ++ [s₂]) := by
          rw [hparts, splitOn_of_notMem h₁, splitOn_of_notMem h₂]
          rfl
  have hclean : clean (47 :: (s₁ ++ 47 :: s₂)) = 47 :: (s₁ ++ 47 :: s₂) := by
    rw [clean, hsplit]
    simp only [List.foldl_cons, List.foldl_nil]
    rw [show pushSegment [] [] = [] from rfl, hpush _ _ hs₁, hpush _ _ hs₂]
    simp [List.intercalate]
  have hlast : (47 :: (s₁ ++ 47 :: s₂)).getLast? ≠ some 47 := by
    have hne : s₂ ≠ [] := fun h => hs₂ (h ▸ List.mem_cons_self)
    have happ : 47 :: (s₁ ++ 47 :: s₂) = (47 :: (s₁ ++ [47])) ++ s₂ := by simp
    rw [happ, List.getLast?_append, List.getLast?_eq_some_getLast hne, Option.some_or]
    exact fun h => h₂ (Option.some.inj h ▸ List.getLast_mem hne)
  rw [cleanPath, if_neg (by simp)]
  simp only [List.head?_cons, if_true]
  rw [hclean, if_neg fun h => hlast h.1]

/-- Any path but a single slash starts with a byte and a segment that has no slash. -/
lemma firstSegment_spec {path : Octets} (hne : path ≠ []) (hslash : path ≠ [47]) :
    ∃ c s rest, path = c :: (s ++ rest) ∧ 47 ∉ s ∧ (rest = [] ∨ ∃ r, rest = 47 :: r) ∧
      firstSegment path = (pathUnescape s, rest) := by
  obtain ⟨c, p, rfl⟩ := List.exists_cons_of_ne_nil hne
  refine ⟨c, p.takeWhile (· != 47), p.dropWhile (· != 47), ?_, ?_, ?_, ?_⟩
  · rw [List.takeWhile_append_dropWhile]
  · intro hmem
    simpa using List.mem_takeWhile_imp hmem
  · cases hdrop : p.dropWhile (· != 47) with
    | nil => exact .inl rfl
    | cons d r =>
        have hd := List.head?_dropWhile_not (· != 47) p
        rw [hdrop] at hd
        obtain rfl : d = 47 := by simpa using hd
        exact .inr ⟨r, rfl⟩
  · rw [firstSegment, if_neg hslash, List.tail_cons]

lemma firstSegment_append {c : UInt8} {rest : Octets} (h₁ : 47 ∉ s₁)
    (hrest : rest = [] ∨ ∃ r, rest = 47 :: r) (hne : c :: (s₁ ++ rest) ≠ [47]) :
    firstSegment (c :: (s₁ ++ rest)) = (pathUnescape s₁, rest) := by
  have hall : ∀ d ∈ s₁, (d != 47) = true := by
    intro d hd
    rw [bne_iff_ne]
    exact fun heq => h₁ (heq ▸ hd)
  rw [firstSegment, if_neg hne, List.tail_cons, List.takeWhile_append_of_pos hall,
    List.dropWhile_append_of_pos hall]
  rcases hrest with rfl | ⟨r, rfl⟩ <;> simp

/-- The path of two segments matches if the first is the literal; the wildcard takes the other. -/
lemma matchPath_two (h₁ : 47 ∉ s₁) (h₂ : 47 ∉ s₂) (hname : pathUnescape s₁ = name)
    (hne : s₂ ≠ []) (hslash : pathUnescape s₂ ≠ [47]) :
    matchPath [.literal name, .wildcard] (47 :: (s₁ ++ 47 :: s₂)) = some [pathUnescape s₂] := by
  have hfirst : firstSegment (47 :: (s₁ ++ 47 :: s₂)) = (pathUnescape s₁, 47 :: s₂) :=
    firstSegment_append h₁ (.inr ⟨s₂, rfl⟩) (by simp)
  have hsecond : firstSegment (47 :: (s₂ ++ [])) = (pathUnescape s₂, []) :=
    firstSegment_append h₂ (.inl rfl) (by simpa using hne)
  rw [List.append_nil] at hsecond
  rw [matchPath, if_neg (by simp), hfirst, if_pos hname, matchPath, if_neg (by simp), hsecond,
    if_neg hslash, matchPath, if_pos rfl]
  rfl

/-- A path that matches a literal and a wildcard has two segments. -/
lemma eq_of_matchPath {e : Octets} {vs : List Octets}
    (h : matchPath [.literal name, .wildcard] e = some vs) :
    ∃ c s₁ s₂, e = c :: (s₁ ++ 47 :: s₂) ∧ 47 ∉ s₁ ∧ 47 ∉ s₂ ∧ s₂ ≠ [] ∧
      pathUnescape s₁ = name ∧ vs = [pathUnescape s₂] := by
  rw [matchPath] at h
  split_ifs at h with he hname
  by_cases hslash : e = [47]
  · rw [hslash, firstSegment, if_pos rfl, matchPath, if_pos rfl] at h
    cases h
  obtain ⟨c, s₁, rest, rfl, h₁, hrest, hfirst⟩ := firstSegment_spec he hslash
  rw [hfirst] at h hname
  rw [matchPath] at h
  split_ifs at h with hrne hvalue
  obtain ⟨r, rfl⟩ := hrest.resolve_left hrne
  by_cases hslash' : 47 :: r = [47]
  · rw [hslash', firstSegment, if_pos rfl] at hvalue
    exact absurd rfl hvalue
  obtain ⟨d, s₂, rest', hr, h₂, -, hsecond⟩ := firstSegment_spec hrne hslash'
  obtain ⟨vs', hvs', rfl⟩ := Option.map_eq_some_iff.mp h
  rw [hsecond, matchPath] at hvs'
  split_ifs at hvs' with hend
  dsimp only at hend
  cases hvs'
  rw [hend, List.append_nil] at hr
  obtain ⟨-, rfl⟩ := List.cons.inj hr
  exact ⟨c, s₁, r, rfl, h₁, h₂, fun hr => hslash' (by rw [hr]), hname, by rw [hsecond]⟩

end TwoSegments

end ServeMux

end ToyRaft
