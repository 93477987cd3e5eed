import ToyRaft.Core.Log

/-!
# Durable storage (`pkg/storage/memory/memory.go`)

The core talks to a `Storage` interface; the in-RAM implementation is its reference
semantics, and is what is modelled here: the log, the hard state and the applied snapshot,
with the contiguity check of `Append` and the range checks of `TruncateSuffix` and
`Entries`.  Deep copies of the payload are invisible, values being immutable here.

Every call of the interface may also report an error of the backend.  `faulty` adds that
outcome: an injected fault returns the error and leaves the store as it was.
-/

namespace ToyRaft

/-- Errors a storage call can return. -/
inductive StorageError
  /-- `ErrNonContiguous`: an append does not continue the log. -/
  | nonContiguous (expected got : ℕ)
  /-- `io.ErrUnexpectedEOF`: a read reaches beyond the last entry. -/
  | unexpectedEOF (hi last : ℕ)
  /-- A malformed range. -/
  | invalidRange (lo hi : ℕ)
  /-- A truncation below the first index. -/
  | invalidIndex (start : ℕ)
  /-- A failure of the backend itself. -/
  | io
  deriving DecidableEq, Repr

/-- A storage call under fault injection: when `fail` is set the backend's error is returned
and the call has no effect. -/
def faulty {α : Type} (fail : Bool) (r : Except StorageError α) : Except StorageError α :=
  if fail then .error .io else r

/-- The in-RAM store. -/
structure Storage where
  entries : List Entry := []
  hs : HardState := {}
  snap : Snapshot := {}
  deriving DecidableEq, Repr

namespace Storage

/-- The first place where consecutive entries do not have consecutive indexes, as the
expected and the actual index. -/
def firstGap : List Entry → Option (ℕ × ℕ)
  | a :: b :: rest =>
      if b.index ≠ a.index + 1 then some (a.index + 1, b.index) else firstGap (b :: rest)
  | _ => none

/-- `Append`: the batch must start right after the last entry and have no gaps. -/
def append (s : Storage) (es : List Entry) : Except StorageError Storage :=
  match es with
  | [] => .ok s
  | e :: rest =>
      if e.index ≠ s.entries.length + 1 then
        .error (.nonContiguous (s.entries.length + 1) e.index)
      else
        match firstGap (e :: rest) with
        | some (expected, got) => .error (.nonContiguous expected got)
        | none => .ok { s with entries := s.entries ++ e :: rest }

/-- `TruncateSuffix`: discard the entries with index at least `start`. -/
def truncateSuffix (s : Storage) (start : ℕ) : Except StorageError Storage :=
  if s.entries.length < start then .ok s
  else if start < 1 then .error (.invalidIndex start)
  else .ok { s with entries := s.entries.take (start - 1) }

/-- `Entries`: the half-open range `[lo, hi)`. -/
def getEntries (s : Storage) (lo hi : ℕ) : Except StorageError (List Entry) :=
  if lo < 1 ∨ hi < lo then .error (.invalidRange lo hi)
  else if s.entries.length + 1 < hi then .error (.unexpectedEOF hi s.entries.length)
  else .ok ((s.entries.drop (lo - 1)).take (hi - lo))

/-- `FirstIndex`: always `1`, there being no compaction. -/
def firstIndex (_ : Storage) : ℕ := 1

/-- `LastIndex`. -/
def lastIndex (s : Storage) : ℕ := s.entries.length

/-- `Term`. -/
def term (s : Storage) (index : ℕ) : Except StorageError ℕ :=
  if index = 0 then .ok 0
  else if s.entries.length < index then .error (.unexpectedEOF index s.entries.length)
  else .ok ((s.entries[index - 1]?.map Entry.term).getD 0)

/-- `SaveHardState`. -/
def saveHardState (s : Storage) (hs : HardState) : Storage := { s with hs := hs }

/-- `SaveSnapshot`. -/
def saveSnapshot (s : Storage) (snap : Snapshot) : Storage := { s with snap := snap }

/-! ## Specifications -/

lemma faulty_eq_ok {α : Type} {fail : Bool} {r : Except StorageError α} {a : α}
    (h : faulty fail r = .ok a) : fail = false ∧ r = .ok a := by
  cases fail with
  | false => exact ⟨rfl, h⟩
  | true => cases h

/-- A batch has no gap exactly when its indexes count up from its first one. -/
lemma firstGap_eq_none_iff (e : Entry) (rest : List Entry) :
    firstGap (e :: rest) = none ↔ Log.ContiguousFrom e.index rest := by
  induction rest generalizing e with
  | nil => simp [firstGap, Log.contiguousFrom_nil]
  | cons b rest ih =>
      rw [firstGap, Log.contiguousFrom_cons]
      by_cases hb : b.index = e.index + 1
      · rw [if_neg (by simpa using hb), ih b, hb]
        simp
      · rw [if_pos hb]
        simp [hb]

/-- `append` succeeds exactly on batches that continue the stored log. -/
lemma append_eq_ok_iff (s s' : Storage) (es : List Entry) :
    s.append es = .ok s' ↔
      Log.ContiguousFrom s.entries.length es ∧ s' = { s with entries := s.entries ++ es } := by
  cases es with
  | nil =>
      simp only [append, Except.ok.injEq, List.append_nil]
      exact ⟨fun h => ⟨Log.contiguousFrom_nil _, h.symm⟩, fun h => h.2.symm⟩
  | cons e rest =>
      rw [append, Log.contiguousFrom_cons]
      by_cases he : e.index = s.entries.length + 1
      · rw [if_neg (by simpa using he), ← he]
        cases hg : firstGap (e :: rest) with
        | none =>
            have hc := (firstGap_eq_none_iff e rest).mp hg
            simp only [Except.ok.injEq, hc, true_and]
            exact eq_comm
        | some g =>
            have hc : ¬ Log.ContiguousFrom e.index rest := by
              rw [← firstGap_eq_none_iff, hg]
              simp
            simp [hc]
      · rw [if_pos he]
        simp [he]

lemma append_ok {s : Storage} {es : List Entry}
    (h : Log.ContiguousFrom s.entries.length es) :
    s.append es = .ok { s with entries := s.entries ++ es } :=
  (append_eq_ok_iff _ _ _).mpr ⟨h, rfl⟩

lemma truncateSuffix_ok {s : Storage} {start : ℕ} (h : start ≠ 0) :
    s.truncateSuffix start = .ok { s with entries := s.entries.take (start - 1) } := by
  rw [truncateSuffix]
  split_ifs with hlt h1
  · rw [List.take_of_length_le (by omega)]
  · omega
  · rfl

/-- Reading one committed index back. -/
lemma getEntries_single {s : Storage} {i : ℕ} (hi : i ≠ 0) :
    s.getEntries i (i + 1) =
      match s.entries[i - 1]? with
      | some e => .ok [e]
      | none => .error (.unexpectedEOF (i + 1) s.entries.length) := by
  rw [getEntries, if_neg (by omega)]
  rcases lt_or_ge s.entries.length i with hlt | hge
  · rw [if_pos (by omega), List.getElem?_eq_none (by omega)]
  · have hlt : i - 1 < s.entries.length := by omega
    rw [if_neg (by omega), List.getElem?_eq_getElem hlt, List.drop_eq_getElem_cons hlt,
      show i + 1 - i = 1 by omega]
    rfl

/-- Reading the whole log back, as the restart path does. -/
lemma getEntries_all (s : Storage) :
    s.getEntries s.firstIndex (s.lastIndex + 1) = .ok s.entries := by
  rw [getEntries, firstIndex, lastIndex, if_neg (by omega), if_neg (by omega)]
  simp

end Storage

end ToyRaft
