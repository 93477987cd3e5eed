import ToyRaft.Properties.Solo

/-!
# Log Matching

Every log of a run carries the indexes `1, 2, …` and terms that are positive and do not
decrease, and two logs that agree in the term at one index are identical up to it.  The
second half holds across moments, not only between the logs of one moment.
-/

namespace ToyRaft

namespace Cluster

variable {ρ : Type} (C : Cluster) (ev : ℕ → Event ρ)

lemma mem_of_log {t p : ℕ} {i : NodeID} {e : Entry} (h : (C.node ev t i).log[p]? = some e) :
    i ∈ C.peers := by
  by_contra hi
  rw [(C.log_of_not_mem ev hi t).1] at h
  cases h

lemma indexes_eq {i : NodeID} (hi : i ∈ C.peers) (t : ℕ) :
    (C.node ev t i).log.map Entry.index =
      List.range' 1 (C.node ev t i).log.lastIndex := by
  have h := (C.shaped ev hi t).contiguous
  rw [Log.lastIndex_eq_length h]
  refine List.ext_getElem? fun p => ?_
  rw [List.getElem?_map]
  rcases Nat.lt_or_ge p (C.node ev t i).log.length with hlt | hge
  · rw [List.getElem?_range' hlt, List.getElem?_eq_getElem hlt, Option.map_some]
    have := h p _ (List.getElem?_eq_getElem hlt)
    congr 1
    omega
  · rw [List.getElem?_eq_none hge, List.getElem?_eq_none (by simpa using hge)]
    rfl

lemma terms_sorted {i : NodeID} (hi : i ∈ C.peers) (t : ℕ) :
    (C.node ev t i).log.Pairwise (fun a b => a.term ≤ b.term) := by
  rcases Nat.lt_or_ge 1 C.peers.toFinset.card with hcard | hsolo
  · refine List.pairwise_iff_getElem.mpr fun p q hp hq hpq => ?_
    exact (C.execution ev hcard).termOf_mono (t := t) (i := i) hpq.le
      (List.getElem?_eq_getElem hp) (List.getElem?_eq_getElem hq)
  · exact (solo_terms ev hsolo hi t).1

/-- Two logs with the same term at a position share everything up to it. -/
lemma take_eq_of_term_eq {s t : ℕ} {i j : NodeID} {p : ℕ} {a b : Entry}
    (ha : (C.node ev s i).log[p]? = some a) (hb : (C.node ev t j).log[p]? = some b)
    (hab : a.term = b.term) :
    (C.node ev s i).log.take (p + 1) = (C.node ev t j).log.take (p + 1) := by
  rcases Nat.lt_or_ge 1 C.peers.toFinset.card with hcard | hsolo
  · exact (C.execution ev hcard).log_matching ⟨a, b, ha, hb, hab⟩
  · -- both are logs of the one member, and its log only grows
    obtain rfl := eq_of_solo hsolo (C.mem_of_log ev ha) (C.mem_of_log ev hb)
    have hcomp : (C.node ev s i).log <+: (C.node ev t i).log ∨
        (C.node ev t i).log <+: (C.node ev s i).log :=
      (le_total s t).imp (fun h => solo_log_grows ev hsolo h i)
        (fun h => solo_log_grows ev hsolo h i)
    exact Execution.take_eq_of_prefix_comparable (List.getElem?_eq_some_iff.mp ha).1
      (List.getElem?_eq_some_iff.mp hb).1 (List.take_prefix _ _) (List.take_prefix _ _) hcomp

/-- **Log Matching.**  In every state of every run each log has exactly the indexes `1` to
its last index, its terms are not zero and do not decrease, and if it has the same term at an
index as another log of the run, at that or another moment, the two are identical up to that
index. -/
theorem logs_match (t : ℕ) (i : NodeID) :
    (C.node ev t i).log.map Entry.index = List.range' 1 (C.node ev t i).log.lastIndex ∧
    (∀ e ∈ (C.node ev t i).log, e.term ≠ 0) ∧
    (C.node ev t i).log.Pairwise (fun a b => a.term ≤ b.term) ∧
    ∀ s j k a b, 1 ≤ k → (C.node ev t i).log[k - 1]? = some a →
      (C.node ev s j).log[k - 1]? = some b → a.term = b.term →
      (C.node ev t i).log.take k = (C.node ev s j).log.take k := by
  by_cases hi : i ∈ C.peers
  · refine ⟨C.indexes_eq ev hi t, fun e he => ?_, C.terms_sorted ev hi t, ?_⟩
    · exact ((C.shaped ev hi t).pos e he).ne'
    · intro s j k a b hk ha hb hab
      have h := C.take_eq_of_term_eq ev ha hb hab
      rwa [Nat.sub_add_cancel hk] at h
  · rw [(C.log_of_not_mem ev hi t).1]
    exact ⟨rfl, by simp, List.Pairwise.nil, by simp⟩

end Cluster

end ToyRaft
