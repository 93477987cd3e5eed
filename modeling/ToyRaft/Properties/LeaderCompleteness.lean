import ToyRaft.Properties.Solo

/-!
# Leader Completeness for replicated entries

An entry the leader of its own term holds, and which a majority has acknowledged while
holding it, is in the log of every later leader.  An acknowledgement counts once it has been
handed to the transport: by then the term it was queued in is stored, so the node can no
longer vote in a lower one.
-/

namespace ToyRaft

namespace Cluster

variable {ρ : Type} (C : Cluster) (ev : ℕ → Event ρ)

/-- Node `v` has handed over a success response of term `T` that it queued while its log
held `e`. -/
structure Acknowledges (T : ℕ) (e : Entry) (v : NodeID) (x : Message) (s u : ℕ) : Prop where
  handsOver : C.HandsOver ev v x s u
  type : x.type = .appendEntriesResp
  success : x.success = true
  term : x.term = T
  holds : (C.node ev (s + 1) v).log[e.index - 1]? = some e

variable {C ev}

/-- Whoever acknowledges an entry held it in that term, and never falls back below it. -/
lemma Acknowledges.holder {T : ℕ} {e : Entry} {v : NodeID} {x : Message} {s u : ℕ}
    (h : C.Acknowledges ev T e v x s u) :
    ∃ t, (C.node ev t v).currentTerm = T ∧ (∀ w, t ≤ w → T ≤ (C.node ev w v).currentTerm) ∧
      (C.node ev t v).log[e.index - 1]? = some e := by
  obtain ⟨-, m, -, hsp⟩ := spokenAt_of_queued h.handsOver.queued
  obtain ⟨-, -, hterm, -⟩ := hsp.of_ack h.type h.success
  refine ⟨s + 1, hterm.symm.trans h.term, fun w hw => ?_, h.holds⟩
  rw [← h.term]
  exact h.handsOver.term_le hw

variable (C ev)

/-- The premises say that `e` is replicated, in a cluster of more than one. -/
lemma replicatedIn_of_acknowledged (hcard : 1 < C.peers.toFinset.card) {T t : ℕ} {L : NodeID}
    {e : Entry} {A : Finset NodeID} (hL : C.LeaderAt ev t L T)
    (he : (C.node ev t L).log[e.index - 1]? = some e) (hterm : e.term = T)
    (hA : A ⊆ C.peers.toFinset) (hquorum : C.peers.length / 2 + 1 ≤ (insert L A).card)
    (hacks : ∀ v ∈ A, ∃ x s u, C.Acknowledges ev T e v x s u) :
    (C.history ev).ReplicatedIn T (e.index - 1) e (C.node ev t L).log := by
  refine ⟨⟨t, L, hL, rfl⟩, he, hterm, insert L A, ⟨?_, ?_⟩, fun v hv => ?_⟩
  · exact Finset.insert_subset (List.mem_toFinset.mpr hL.mem) hA
  · show C.peers.toFinset.card < _
    rw [List.toFinset_card_of_nodup C.nodup]
    omega
  · rcases Finset.mem_insert.mp hv with rfl | hv
    · exact ⟨t, hL.2, fun w hw => hL.term_le hcard hw, he⟩
    · obtain ⟨x, s, u, hack⟩ := hacks v hv
      exact hack.holder

/-- **Leader Completeness.**  If the leader of term `T` holds the entry `e` of that term, and
together with the nodes that have acknowledged `e` in `T` it is a majority, then every leader
of every later term holds `e`. -/
theorem later_leader_holds_acknowledged {T t : ℕ} {L : NodeID} {e : Entry}
    {A : Finset NodeID} (hL : C.LeaderAt ev t L T)
    (he : (C.node ev t L).log[e.index - 1]? = some e) (hterm : e.term = T)
    (hA : A ⊆ C.peers.toFinset) (hquorum : C.peers.length / 2 + 1 ≤ (insert L A).card)
    (hacks : ∀ v ∈ A, ∃ x s u, C.Acknowledges ev T e v x s u)
    {t' T' : ℕ} {i : NodeID} (hi : C.LeaderAt ev t' i T') (hlt : T < T') :
    (C.node ev t' i).log[e.index - 1]? = some e := by
  rcases Nat.lt_or_ge 1 C.peers.toFinset.card with hcard | hsolo
  · have hrep := C.replicatedIn_of_acknowledged ev hcard hL he hterm hA hquorum hacks
    exact (C.execution ev hcard).leader_completeness hrep hi hlt
  · obtain rfl := eq_of_solo hsolo hL.mem hi.mem
    have hle := solo_leader_le ev hsolo hL hi hlt
    have hlen := (List.getElem?_eq_some_iff.mp he).1
    rw [List.prefix_iff_getElem?.mp (solo_log_grows ev hsolo hle L) _ hlen,
      ← List.getElem?_eq_getElem, he]

/-- The first command of the leader of term 1. -/
def firstEntry : Entry := ⟨1, 1, [1]⟩

/-- Node `a` leads term 1 and replicates one command to `b`, which is then elected to
term 2 by `c`. -/
def replicateThenElect : List (Event Unit) :=
  elect 1 "a" "b" 0 0 ++ propose "a" [1] ++ flush "a" 4 ++
    deliver (appendRequest 1 "a" "b" 0 0 [firstEntry] 0) ++ flush "b" 1 ++ elect 2 "b" "c" 1 1

theorem later_leader_holds_acknowledged_trio :
    trio.LeaderAt (Machine.schedule idle replicateThenElect) 47 "b" 2 ∧
      (trio.node (Machine.schedule idle replicateThenElect) 47 "b").log[firstEntry.index - 1]? =
        some firstEntry := by
  have hlead : trio.LeaderAt (Machine.schedule idle replicateThenElect) 47 "b" 2 := by
    decide +kernel
  refine ⟨hlead, trio.later_leader_holds_acknowledged _ (T := 1) (t := 17) (L := "a")
    (A := {"b"}) (by decide +kernel) (by decide +kernel) rfl (by decide) (by decide) ?_ hlead
    (by decide)⟩
  intro v hv
  rw [Finset.mem_singleton.mp hv]
  exact ⟨appendResponse 1 "b" "a" true 1, 25, 29,
    ⟨by decide +kernel, by decide, by decide +kernel, by decide +kernel⟩, rfl, rfl, rfl,
    by decide +kernel⟩

end Cluster

end ToyRaft
