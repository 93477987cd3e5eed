import ToyRaft.Properties.LogMatching
import ToyRaft.Properties.MatchIndex

/-!
# Committed prefixes

As long as no `AppendEntries` is accepted over a stale tail, whatever a node counts as
committed is a committed prefix in the sense of `History.Committed`: a majority held it in
the term of the leader that counted.  The invariant (`SafeCommits`) speaks of the hard state
in memory, of the one a flush is about to save and of the stored one, because a crash falls
back to the last.
-/

namespace ToyRaft

namespace Node

/-- The nodes a leader counts for index `c`. -/
lemma exists_reporters (n : Node) (c : ℕ) :
    ∃ A : Finset NodeID, A.card = n.matchValues.countP (fun x => decide (c ≤ x)) ∧
      ∀ v ∈ A, v ∈ n.matchIndex ∧ (v ≠ n.id → c ≤ n.matchIndex.get v) := by
  classical
  set counted := n.matchIndex.entries.filter
    (fun p => decide (c ≤ if p.1 = n.id then n.log.lastIndex else p.2)) with hcounted
  have hnodup : (counted.map Sigma.fst).Nodup :=
    List.Nodup.sublist (List.Sublist.map _ List.filter_sublist) n.matchIndex.nodupKeys
  refine ⟨(counted.map Sigma.fst).toFinset, ?_, fun v hv => ?_⟩
  · rw [List.toFinset_card_of_nodup hnodup, List.length_map, hcounted,
      ← List.countP_eq_length_filter, matchValues, List.countP_map]
    rfl
  · obtain ⟨⟨p, k⟩, hp, rfl⟩ := List.mem_map.mp (List.mem_toFinset.mp hv)
    obtain ⟨hmem, hle⟩ := List.mem_filter.mp hp
    have hlookup : n.matchIndex.lookup p = some k := AList.mem_lookup_iff.mpr hmem
    refine ⟨AList.lookup_isSome.mp (by rw [hlookup]; rfl), fun hne => ?_⟩
    rw [PeerMap.get, hlookup]
    simpa [hne] using hle

end Node

namespace Cluster

variable {ρ : Type} (C : Cluster) (ev : ℕ → Event ρ)

section Committed

variable (hcard : 1 < C.peers.toFinset.card)
include hcard

lemma replicatedIn_of_count {t c : ℕ} {L : NodeID} {T : ℕ}
    (hgood : ∀ s < t, ¬ C.AcceptsStaleTail ev s) (hL : C.LeaderAt ev t L T)
    (hterm : ((C.node ev t L).log.term c).1 = T)
    (hcount : (C.node ev t L).quorum ≤
      (C.node ev t L).matchValues.countP (fun x => decide (c ≤ x))) :
    ∃ e, 0 < c ∧ (C.history ev).ReplicatedIn T (c - 1) e (C.node ev t L).log := by
  have hT := (C.execution ev hcard).leader_term_pos hL
  have hshape := C.shaped ev hL.mem t
  rw [Log.term_fst_eq hshape.contiguous] at hterm
  have h0 : c ≠ 0 := by
    rintro rfl
    simp at hterm
    omega
  rw [if_neg h0] at hterm
  obtain ⟨e, he⟩ : ∃ e, (C.node ev t L).log[c - 1]? = some e := by
    cases hget : (C.node ev t L).log[c - 1]? with
    | none =>
        rw [hget] at hterm
        simp at hterm
        omega
    | some e => exact ⟨e, rfl⟩
  rw [he] at hterm
  obtain ⟨A, hA, hmem⟩ := (C.node ev t L).exists_reporters c
  have hrec := C.recorded ev hL.mem t
  refine ⟨e, Nat.pos_of_ne_zero h0, ⟨t, L, hL, rfl⟩, he, hterm, A, ⟨fun v hv => ?_, ?_⟩,
    fun v hv => ?_⟩
  · exact List.mem_toFinset.mpr (hrec.keys v (hmem v hv).1)
  · rw [← hA, C.node_quorum ev hL.mem] at hcount
    show C.peers.toFinset.card < _
    rw [List.toFinset_card_of_nodup C.nodup]
    omega
  · by_cases hvL : v = L
    · subst hvL
      exact ⟨t, hL.2, fun w hw => hL.term_le hcard hw, he⟩
    · -- a follower: its log was a prefix of the leader's when it answered
      have hle := (hmem v hv).2 (by rw [C.node_id ev hL.mem t]; exact hvL)
      obtain ⟨x, hx, hrep⟩ := (hrec.reported hL.1 v (hrec.keys v (hmem v hv).1) hvL).resolve_left
        (by omega)
      rw [hL.2] at hrep
      obtain ⟨s, hs, hq, hstay⟩ := provenance_net hx
      rw [hrep.sender] at hq hstay
      obtain ⟨-, hcur, -⟩ := C.ack_sound ev hcard hq hrep.type hrep.success (hgood s hs)
      obtain ⟨hm, hlead, hpre⟩ := hrep.sound C ev hcard hq hs (hgood s hs) hL
      have hgrow := hpre.trans ((C.execution ev hcard).leader_log_grows hlead hL hs)
      refine ⟨s + 1, hcur.symm.trans hrep.term, fun w hw => hrep.term ▸ hstay w hw, ?_⟩
      have hlt : c - 1 < (C.node ev (s + 1) v).log.length := by omega
      show (C.node ev (s + 1) v).log[c - 1]? = some e
      rw [List.getElem?_eq_getElem hlt, ← List.prefix_iff_getElem?.mp hgrow _ hlt]
      exact he

lemma take_kept {t c : ℕ} {i : NodeID} {T : ℕ}
    (h : (C.history ev).Committed T ((C.node ev t i).log.take c))
    (hT : T ≤ (C.node ev t i).currentTerm) (hc : c ≤ (C.node ev t i).log.length) :
    (C.node ev (t + 1) i).log.take c = (C.node ev t i).log.take c := by
  have hpre := (C.execution ev hcard).committed_kept (t := t) (i := i) h (List.take_prefix _ _) hT
  have hlen : ((C.node ev t i).log.take c).length = c := by
    rw [List.length_take]
    omega
  have := List.prefix_iff_eq_take.mp hpre
  rw [hlen] at this
  exact this.symm

omit hcard in
/-- The hard state `hs` of node `i` speaks of a committed prefix of its log. -/
def SafeAt (t : ℕ) (i : NodeID) (hs : HardState) : Prop :=
  (C.history ev).Committed hs.currentTerm ((C.node ev t i).log.take hs.commit)

omit hcard in
/-- All hard states of node `i` do: the stored one, the one about to be stored, and the
current one. -/
structure SafeCommits (t : ℕ) (i : NodeID) : Prop where
  stored : C.SafeAt ev t i (C.node ev t i).storage.hs
  middle : C.SafeAt ev t i ((C.host ev t i).flush.unsaved.getD (C.node ev t i).storage.hs)
  current : C.SafeAt ev t i (C.node ev t i).hardState

/-- The commit index a node takes over from a leader's message is the leader's. -/
lemma safeAt_of_follow {t : ℕ} {i : NodeID} {m : Message} (hi : i ∈ C.peers)
    (hnet : m ∈ C.net ev t) (hp : ((C.node ev t i).maybeStepDownLocked m.term).Passes m)
    (hc : (C.node ev (t + 1) i).commitIndex =
      min m.leaderCommit (m.prevLogIndex + m.entries.length))
    (hlog : ((C.node ev t i).maybeStepDownLocked m.term).firstConflictIndex m.entries = 0 ∧
        (C.node ev (t + 1) i).log = ((C.node ev t i).maybeStepDownLocked m.term).log ∨
      ((C.node ev t i).maybeStepDownLocked m.term).firstConflictIndex m.entries ≠ 0 ∧
        (C.node ev (t + 1) i).log =
          ((C.node ev t i).maybeStepDownLocked m.term).writtenLog m)
    (hcur : (C.node ev (t + 1) i).currentTerm =
      ((C.node ev t i).maybeStepDownLocked m.term).currentTerm)
    (ih : ∀ s ≤ t, ∀ j ∈ C.peers, C.SafeAt ev s j (C.node ev s j).hardState) :
    C.SafeAt ev (t + 1) i (C.node ev (t + 1) i).hardState := by
  obtain ⟨s, hs, hb, htake, -⟩ := C.accepted_take_eq ev hcard hi hnet hp hlog
  have hsafe : (C.history ev).Committed (C.node ev s m.fromNode).currentTerm
      ((C.node ev s m.fromNode).log.take (C.node ev s m.fromNode).commitIndex) :=
    ih s hs _ hb.leader.mem
  rw [hb.leader.2, hp.term, ← hcur] at hsafe
  refine hsafe.of_prefix ?_
  show (C.node ev (t + 1) i).log.take (C.node ev (t + 1) i).commitIndex <+: _
  have hcommit := hb.commit
  have heq : (C.node ev (t + 1) i).log.take (C.node ev (t + 1) i).commitIndex =
      (C.node ev s m.fromNode).log.take (C.node ev (t + 1) i).commitIndex := by
    have := congrArg (List.take (C.node ev (t + 1) i).commitIndex) htake
    rwa [List.take_take, List.take_take, Nat.min_eq_left (by omega)] at this
  rw [heq]
  exact List.take_prefix_take_left (by omega)

/-- A safe hard state stays safe while the node's term has reached it. -/
lemma SafeAt.succ {t : ℕ} {i : NodeID} {hs : HardState} (hi : i ∈ C.peers)
    (h : C.SafeAt ev t i hs) (hT : hs.currentTerm ≤ (C.node ev t i).currentTerm)
    (hc : hs.commit ≤ (C.node ev t i).commitIndex) : C.SafeAt ev (t + 1) i hs := by
  unfold SafeAt
  rw [C.take_kept ev hcard h hT (hc.trans (C.shaped ev hi t).commit_le)]
  exact h

/-- Everything safe at `t` is safe at `t + 1`. -/
lemma SafeCommits.succ {t : ℕ} {i : NodeID} (hi : i ∈ C.peers) (h : C.SafeCommits ev t i) :
    C.SafeAt ev (t + 1) i (C.node ev t i).storage.hs ∧
    C.SafeAt ev (t + 1) i ((C.host ev t i).flush.unsaved.getD (C.node ev t i).storage.hs) ∧
    C.SafeAt ev (t + 1) i (C.node ev t i).hardState := by
  have hb := ((C.balanced ev t).1 i hi).1
  have hchain := (C.shaped_chain ev t i hi).2
  have hmid : ((C.host ev t i).flush.unsaved.getD (C.node ev t i).storage.hs).currentTerm ≤
      (C.node ev t i).currentTerm := (hb.mid_top.trans hb.top_cur).term_le
  refine ⟨?_, ?_, ?_⟩
  · exact SafeAt.succ C ev hcard hi h.stored (C.stored_term_le ev hi t)
      (hchain.stored_mid.trans hchain.mid_cur)
  · exact SafeAt.succ C ev hcard hi h.middle hmid hchain.mid_cur
  · exact SafeAt.succ C ev hcard hi h.current le_rfl le_rfl

/-- As long as no stale tail is kept, every commit is safe. -/
theorem safeCommits (t : ℕ) (hgood : ∀ s < t, ¬ C.AcceptsStaleTail ev s) :
    ∀ i ∈ C.peers, C.SafeCommits ev t i := by
  induction t using Nat.strong_induction_on with
  | _ t ih =>
      intro i hi
      cases t with
      | zero =>
          have hn := C.started_zero ev hi
          have hst : (C.node ev 0 i).storage = {} := hn.storage
          refine ⟨.inl ?_, .inl ?_, .inl ?_⟩
          · rw [hst]
            rfl
          · rw [C.flush_zero ev hi, hst]
            rfl
          · rw [hn.hardState]
            rfl
      | succ t =>
          have hpast : ∀ s ≤ t, ∀ j ∈ C.peers, C.SafeCommits ev s j := fun s hs =>
            ih s (by omega) (fun u hu => hgood u (by omega))
          have hold := hpast t le_rfl i hi
          obtain ⟨hstored, hmiddle, hcurrent⟩ := hold.succ C ev hcard hi
          rcases C.step_cases ev t i with ⟨sent, hm⟩ | ⟨heq, -⟩
          · obtain ⟨hst, hmid⟩ := hm.move.stored_cases hm.faultless
              ((C.balanced ev t).1 i hi).2.top_eq
            refine ⟨?_, ?_, ?_⟩
            · rcases hst with h | h <;> rw [h] <;> assumption
            · rcases hmid with h | h | h <;> rw [h] <;> assumption
            · cases hm.move.commitIndex with
              | same hc hcur =>
                  have hsafe := hcurrent.mono hcur
                  unfold SafeAt Node.hardState
                  rw [hc]
                  exact hsafe
              | restart h =>
                  rw [h]
                  exact hstored
              | advance hrole hterm hcount =>
                  obtain ⟨e, hpos, hrep⟩ :=
                    C.replicatedIn_of_count ev hcard hgood ⟨hrole, rfl⟩ hterm hcount
                  refine .inr ⟨_, _, e, _, le_rfl, hrep, ?_, List.take_prefix _ _⟩
                  rw [List.length_take, Nat.sub_add_cancel hpos]
                  exact Nat.min_le_left _ _
              | follow m hin hp hc hlog hcur =>
                  exact C.safeAt_of_follow ev hcard hi (hm.inbound m hin).1 hp hc hlog hcur
                    fun s hs j hj => (hpast s hs j hj).current
          · have hnode : C.node ev (t + 1) i = C.node ev t i := by rw [node, heq]; rfl
            refine ⟨?_, ?_, ?_⟩
            · rw [hnode]
              exact hstored
            · rw [heq, hnode]
              exact hmiddle
            · rw [hnode]
              exact hcurrent

end Committed

end Cluster

end ToyRaft
