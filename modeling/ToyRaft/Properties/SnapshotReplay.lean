import ToyRaft.Core.Log
import ToyRaft.Daemon.Kvsm

/-!
# A snapshot and the entries after it

The index of a snapshot is that of the last entry whose data could be read, so it can be behind
the last entry that was applied.  The entries in between are applied again after a restart; their
data cannot be read, so that does nothing (`Covers`), and from there on the restored machine and
the one that applied every entry go through the same states.
-/

namespace ToyRaft

namespace Kvsm

open Json

variable {ε : Type} {parse : Data → Except ε Json}

/-- The index of the machine is one of the entries `es`, or 0, and the data of those past it
cannot be read. -/
structure Covers (parse : Data → Except ε Json) (k : KV) (es : List Entry) : Prop where
  le : k.lastIndex ≤ es.length
  unreadable : ∀ e ∈ es.drop k.lastIndex,
    ∃ err, unmarshal parse opFields { key := "" } e.data = .error err

lemma Covers.apply {k : KV} {es : List Entry} {e : Entry} (h : Covers parse k es)
    (he : e.index = es.length + 1) : Covers parse (k.apply parse e).2 (es ++ [e]) := by
  rcases k.apply_cases parse e with ⟨err, herr, hk⟩ | hlast
  · rw [hk]
    refine ⟨?_, ?_⟩
    · rw [List.length_append]
      exact h.le.trans (Nat.le_add_right _ _)
    · intro e' he'
      rw [List.drop_append_of_le_length h.le] at he'
      rcases List.mem_append.mp he' with he' | he'
      · exact h.unreadable e' he'
      · rw [List.mem_singleton.mp he']
        exact ⟨err, herr⟩
  · have hlen : (k.apply parse e).2.lastIndex = (es ++ [e]).length := by
      rw [hlast, he, List.length_append, List.length_singleton]
    refine ⟨hlen.le, ?_⟩
    intro e' he'
    rw [hlen, List.drop_length] at he'
    cases he'

/-- The new machine, after any entries with the indexes `1, 2, …`. -/
lemma covers_applyAll {es : List Entry} (hes : Log.Contiguous es) :
    Covers parse (({} : KV).applyAll parse es) es := by
  induction es using List.reverseRecOn with
  | nil => exact ⟨Nat.le_refl 0, fun e he => by cases he⟩
  | append_singleton es e ih =>
      have hes' : Log.Contiguous es := by
        have htake := hes.take es.length
        rw [List.take_left' rfl] at htake
        exact htake
      have he : e.index = es.length + 1 := by
        have := hes es.length e (by simp)
        omega
      rw [KV.applyAll_append]
      exact (ih hes').apply he

lemma KV.applyAll_of_unreadable {k : KV} {es : List Entry}
    (h : ∀ e ∈ es, ∃ err, unmarshal parse opFields { key := "" } e.data = .error err) :
    k.applyAll parse es = k := by
  induction es with
  | nil => rfl
  | cons e es ih =>
      obtain ⟨err, herr⟩ := h e List.mem_cons_self
      have hrest := ih fun e' he' => h e' (List.mem_cons_of_mem _ he')
      show (k.apply parse e).2.applyAll parse es = k
      rw [k.apply_of_unreadable herr, hrest]

/-- For entries with the indexes `1, 2, …` and any data: a snapshot that is taken after the first
`c` of them is restored, and with the entries past its index applied the restored machine is the
one that applied them all, and gives the same results and errors for the entries past `c`. -/
theorem snapshot_replay_agrees {es : List Entry} (hes : Log.Contiguous es)
    (hlen : es.length < 2 ^ 64) {c : ℕ} (hc : c ≤ es.length)
    (hparse : parse (({} : KV).applyAll parse (es.take c)).snapshot.1 =
      .ok (marshalSnapshot (({} : KV).applyAll parse (es.take c)))) :
    let snap := (({} : KV).applyAll parse (es.take c)).snapshot
    ∃ k, restore parse snap.1 = .ok k ∧ snap.2 ≤ c ∧
      k.applyAll parse (es.drop snap.2) = ({} : KV).applyAll parse es ∧
      (k.results parse (es.drop snap.2)).drop (c - snap.2) =
        (({} : KV).results parse es).drop c := by
  intro snap
  set k := ({} : KV).applyAll parse (es.take c) with hk
  have hcov : Covers parse k (es.take c) := covers_applyAll (hes.take c)
  have htake : (es.take c).length = c := List.length_take_of_le hc
  have hle : k.lastIndex ≤ c := htake ▸ hcov.le
  -- The overlap, then the entries past the cut.
  have hsplit : es.drop k.lastIndex = (es.take c).drop k.lastIndex ++ es.drop c := by
    nth_rewrite 1 [← List.take_append_drop c es]
    rw [List.drop_append_of_le_length hcov.le]
  have hoverlap : k.applyAll parse ((es.take c).drop k.lastIndex) = k :=
    KV.applyAll_of_unreadable hcov.unreadable
  refine ⟨k, restore_snapshot (hle.trans_lt (hc.trans_lt hlen)) hparse, hle, ?_, ?_⟩
  · show k.applyAll parse (es.drop k.lastIndex) = _
    rw [hsplit, KV.applyAll_append, hoverlap, hk, ← KV.applyAll_append, List.take_append_drop]
  · show (k.results parse (es.drop k.lastIndex)).drop (c - k.lastIndex) = _
    have hover : c - k.lastIndex =
        (k.results parse ((es.take c).drop k.lastIndex)).length := by
      rw [KV.length_results, List.length_drop, htake]
    have hbefore : (({} : KV).results parse (es.take c)).length = c := by
      rw [KV.length_results, htake]
    have hall : ({} : KV).results parse es =
        ({} : KV).results parse (es.take c) ++ k.results parse (es.drop c) := by
      nth_rewrite 1 [← List.take_append_drop c es]
      rw [KV.results_append]
    rw [hsplit, KV.results_append, hoverlap, hover, List.drop_left, hall,
      List.drop_left' hbefore]

/-- A reader that knows the texts of one operation and of one snapshot, and fails on everything
else. -/
def readsOne (op : Json) (k : KV) (data : Data) : Except Unit Json :=
  if data = op.toBytes then .ok op
  else if data = k.snapshot.1 then .ok (marshalSnapshot k)
  else .error ()

/-- Two writes with an entry between them that cannot be read: the snapshot after it has index 1,
and the entry is applied again. -/
theorem snapshot_replay_agrees_overlap :
    let op : Json := .object [("op", .string "set"), ("key", .string "a")]
    let k : KV := { m := SortedMap.empty.insert "a" none, lastIndex := 1 }
    let es : List Entry := [⟨1, 1, op.toBytes⟩, ⟨1, 2, [2]⟩, ⟨1, 3, op.toBytes⟩]
    ({} : KV).applyAll (readsOne op k) (es.take 2) = k ∧ k.snapshot.2 = 1 ∧
      ∃ k', restore (readsOne op k) k.snapshot.1 = .ok k' ∧
        k'.applyAll (readsOne op k) (es.drop 1) = ({} : KV).applyAll (readsOne op k) es ∧
        (k'.results (readsOne op k) (es.drop 1)).drop 1 =
          (({} : KV).results (readsOne op k) es).drop 2 := by
  intro op k es
  have hk : ({} : KV).applyAll (readsOne op k) (es.take 2) = k := by decide +kernel
  have hparse : readsOne op k (({} : KV).applyAll (readsOne op k) (es.take 2)).snapshot.1 =
      .ok (marshalSnapshot (({} : KV).applyAll (readsOne op k) (es.take 2))) := by
    have hne : k.snapshot.1 ≠ op.toBytes := by decide +kernel
    rw [hk, readsOne, if_neg hne, if_pos rfl]
  have hes : Log.Contiguous es :=
    Log.contiguousFrom_cons.mpr ⟨rfl, Log.contiguousFrom_cons.mpr
      ⟨rfl, Log.contiguousFrom_singleton rfl⟩⟩
  have h := snapshot_replay_agrees hes (by decide) (by decide : 2 ≤ es.length) hparse
  rw [hk] at h
  obtain ⟨k', hrestore, -, hall, hresults⟩ := h
  exact ⟨hk, rfl, k', hrestore, hall, hresults⟩

end Kvsm

end ToyRaft
