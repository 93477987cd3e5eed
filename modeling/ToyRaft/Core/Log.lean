import ToyRaft.Core.Types

/-!
# The in-memory replicated log (`pkg/raft/log.go`)

`Log` is the slice of entries the core works on.  All operations are total here: where the
source indexes the slice, it does so behind a comparison with `lastIndex`, and on a log
whose entry at position `p` carries index `p + 1` (`Contiguous`) that comparison keeps the
access in range.

The second half of the file is the small theory of contiguous logs the later proofs use:
there `lastIndex` is the length, `term` and `hasEntry` read the entry at the position, and
`truncateSuffix` and `entriesFrom` are `take` and `drop`.
-/

namespace ToyRaft

/-- The in-memory log: the entries in order. -/
abbrev Log := List Entry

/-- Errors of the log accessors. -/
inductive LogError
  /-- `io.ErrUnexpectedEOF`: the index lies beyond the last entry. -/
  | unexpectedEOF (idx : ℕ)
  deriving DecidableEq, Repr

namespace Log

/-- The largest index present, read off the last entry; `0` if the log is empty. -/
def lastIndex (l : Log) : ℕ :=
  match l.getLast? with
  | none => 0
  | some e => e.index

/-- The term of the last entry; `0` if the log is empty. -/
def lastTerm (l : Log) : ℕ :=
  match l.getLast? with
  | none => 0
  | some e => e.term

/-- `Append`: entries go to the end; an empty batch is a no-op. -/
def append (l : Log) (es : List Entry) : Log := l ++ es

/-- `TruncateSuffix`: discard the entries with index at least `start`. -/
def truncateSuffix (l : Log) (start : ℕ) : Log :=
  if start = 0 then []
  else if lastIndex l < start then l
  else l.take (start - 1)

/-- `Term`: the term of the entry at `idx`, `0` for the sentinel, and `0` together with an
error beyond the end. -/
def term (l : Log) (idx : ℕ) : ℕ × Option LogError :=
  if idx = 0 then (0, none)
  else if lastIndex l < idx then (0, some (.unexpectedEOF idx))
  else ((l[idx - 1]?.map Entry.term).getD 0, none)

/-- `Match`: does the log hold an entry at `prevIdx` with term `prevTerm`? -/
def hasEntry (l : Log) (prevIdx : ℕ) (prevTerm : ℕ) : Bool :=
  if prevIdx = 0 then prevTerm = 0
  else if lastIndex l < prevIdx then false
  else (l[prevIdx - 1]?.map Entry.term).getD 0 = prevTerm

/-- `Log.entriesFrom`: a copy of the entries with index at least `lo`, and nothing when
`lo` is `0` or lies beyond the end. -/
def entriesFrom (l : Log) (lo : ℕ) : List Entry :=
  if lo = 0 ∨ lastIndex l < lo then [] else l.drop (lo - 1)

/-! ## Contiguous entry lists -/

/-- The entries carry the indexes `base + 1, base + 2, …` in order. -/
def ContiguousFrom (base : ℕ) (l : List Entry) : Prop :=
  ∀ p e, l[p]? = some e → e.index = base + p + 1

/-- The entry at position `p` carries index `p + 1`: the log has no gaps. -/
def Contiguous (l : Log) : Prop := ContiguousFrom 0 l

lemma contiguousFrom_nil (base : ℕ) : ContiguousFrom base [] := by
  intro p e h
  simp at h

lemma contiguous_nil : Contiguous [] := contiguousFrom_nil 0

lemma ContiguousFrom.take {base : ℕ} {l : List Entry} (h : ContiguousFrom base l) (k : ℕ) :
    ContiguousFrom base (l.take k) := by
  intro p e hp
  rw [List.getElem?_take] at hp
  split at hp
  · exact h p e hp
  · cases hp

lemma ContiguousFrom.drop {base : ℕ} {l : List Entry} (h : ContiguousFrom base l) (k : ℕ) :
    ContiguousFrom (base + k) (l.drop k) := by
  intro p e hp
  rw [List.getElem?_drop] at hp
  have := h _ _ hp
  omega

lemma ContiguousFrom.append {base : ℕ} {l es : List Entry} (h : ContiguousFrom base l)
    (hes : ContiguousFrom (base + l.length) es) : ContiguousFrom base (l ++ es) := by
  intro p e hp
  rcases lt_or_ge p l.length with hlt | hge
  · rw [List.getElem?_append_left hlt] at hp
    exact h p e hp
  · rw [List.getElem?_append_right hge] at hp
    have := hes _ _ hp
    omega

lemma contiguousFrom_singleton {base : ℕ} {e : Entry} (h : e.index = base + 1) :
    ContiguousFrom base [e] := by
  intro p e' hp
  cases p with
  | zero => simp at hp; subst hp; omega
  | succ p => simp at hp

lemma contiguousFrom_cons {base : ℕ} {e : Entry} {l : List Entry} :
    ContiguousFrom base (e :: l) ↔ e.index = base + 1 ∧ ContiguousFrom (base + 1) l := by
  constructor
  · intro h
    refine ⟨h 0 e rfl, fun p e' hp => ?_⟩
    have := h (p + 1) e' (by simpa using hp)
    omega
  · rintro ⟨he, hl⟩ p e' hp
    cases p with
    | zero => simp at hp; subst hp; omega
    | succ p =>
        have := hl p e' (by simpa using hp)
        omega

/-! ## The accessors of a contiguous log -/

lemma lastIndex_eq_length {l : Log} (h : Contiguous l) : lastIndex l = l.length := by
  rw [lastIndex, List.getLast?_eq_getElem?]
  cases hl : l[l.length - 1]? with
  | none =>
      rw [List.getElem?_eq_none_iff] at hl
      dsimp only
      omega
  | some e =>
      have hidx := h _ _ hl
      obtain ⟨hlt, -⟩ := List.getElem?_eq_some_iff.mp hl
      dsimp only
      omega

lemma term_of_getElem? {l : Log} (h : Contiguous l) {idx : ℕ} {e : Entry} (hidx : idx ≠ 0)
    (he : l[idx - 1]? = some e) : term l idx = (e.term, none) := by
  have hlt := (List.getElem?_eq_some_iff.mp he).1
  rw [term, if_neg hidx, lastIndex_eq_length h, if_neg (by omega), he]
  rfl

/-- `term` reports `0` both for the sentinel and beyond the end. -/
lemma term_fst_eq {l : Log} (h : Contiguous l) (idx : ℕ) :
    (term l idx).1 = if idx = 0 then 0 else (l[idx - 1]?.map Entry.term).getD 0 := by
  rw [term, lastIndex_eq_length h]
  split_ifs with h0 hlt
  · rfl
  · rw [List.getElem?_eq_none (by omega)]
    rfl
  · rfl

lemma truncateSuffix_eq_take {l : Log} (h : Contiguous l) {start : ℕ} (hs : start ≠ 0) :
    truncateSuffix l start = l.take (start - 1) := by
  rw [truncateSuffix, if_neg hs, lastIndex_eq_length h]
  split_ifs with hlt
  · rw [List.take_of_length_le (by omega)]
  · rfl

lemma entriesFrom_eq_drop {l : Log} (h : Contiguous l) {lo : ℕ} (hlo : lo ≠ 0) :
    entriesFrom l lo = l.drop (lo - 1) := by
  rw [entriesFrom, lastIndex_eq_length h]
  split_ifs with hcond
  · rcases hcond with h0 | hlt
    · exact (hlo h0).elim
    · rw [List.drop_of_length_le (by omega)]
  · rfl

/-- A successful consistency check says the log reaches `prevIdx` and holds `prevTerm`
there. -/
lemma hasEntry_iff {l : Log} (h : Contiguous l) (prevIdx : ℕ) (prevTerm : ℕ) :
    hasEntry l prevIdx prevTerm = true ↔
      (prevIdx = 0 ∧ prevTerm = 0) ∨
        (prevIdx ≠ 0 ∧ ∃ e, l[prevIdx - 1]? = some e ∧ e.term = prevTerm) := by
  rw [hasEntry, lastIndex_eq_length h]
  split_ifs with h0 hlt
  · simp [h0]
  · rw [List.getElem?_eq_none (by omega)]
    simp [h0]
  · have hget : l[prevIdx - 1]? = some l[prevIdx - 1] := List.getElem?_eq_getElem (by omega)
    simp [h0, hget]

end Log

end ToyRaft
