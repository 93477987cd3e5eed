import Mathlib.Order.Lattice.Nat
import ToyRaft.Core.Section
import ToyRaft.Framework.Quorum

/-!
# The commit rule is that of Figure 2

`maybeAdvanceCommitLocked` sorts the match values, picks the one that a quorum has reached, and
compares one term.  Figure 2 asks for the greatest index of the current term that a quorum has
reached (`Committable`).  The two agree: terms do not decrease along the log, so if the index
the quorum has reached is not of the current term, no index below it is (`commit_rule`).
-/

namespace ToyRaft

namespace Node

/-- What the commit rule takes a peer to have: its match index, or for the leader itself the last
index of the log. -/
def reachOf (n : Node) (p : NodeID) : ℕ :=
  if p = n.id then n.log.lastIndex else n.matchIndex.get p

/-- The condition of Figure 2 on an index: it is in the log, with an entry of the current term,
and a quorum of peers has reached it. -/
structure Committable (n : Node) (N : ℕ) : Prop where
  le_last : N ≤ n.log.lastIndex
  entry : ∃ e, 1 ≤ N ∧ n.log[N - 1]? = some e ∧ e.term = n.currentTerm
  reached : n.quorum ≤ n.peers.countP (fun p => decide (N ≤ n.reachOf p))

/-- A leader with one match value for each peer. -/
structure Tracks (n : Node) : Prop where
  nodup : n.peers.Nodup
  self : n.id ∈ n.peers
  keys : n.matchIndex.keys.Perm n.peers

lemma Tracks.matchValues_perm {n : Node} (h : n.Tracks) :
    n.matchValues.Perm (n.peers.map n.reachOf) := by
  have heq : n.matchValues = n.matchIndex.keys.map n.reachOf := by
    rw [matchValues, AList.keys, List.keys, List.map_map]
    refine List.map_congr_left fun p hp => ?_
    have hlookup : n.matchIndex.lookup p.1 = some p.2 := AList.mem_lookup_iff.mpr hp
    rw [Function.comp_apply, reachOf, PeerMap.get, hlookup, Option.getD_some]
  rw [heq]
  exact h.keys.map _

lemma Tracks.quorum_le {n : Node} (h : n.Tracks) : n.quorum ≤ n.peers.length := by
  have hpos := List.length_pos_of_mem h.self
  rw [quorum]
  omega

/-- The index picked is the greatest one that a quorum of peers has reached. -/
lemma Tracks.le_quorumIndex_iff {n : Node} (h : n.Tracks) (N : ℕ) :
    N ≤ (n.matchValues.insertionSort (· ≤ ·)).getD
        ((n.matchValues.insertionSort (· ≤ ·)).length - n.quorum) 0 ↔
      n.quorum ≤ n.peers.countP (fun p => decide (N ≤ n.reachOf p)) := by
  have hperm := (List.perm_insertionSort (· ≤ ·) n.matchValues).trans h.matchValues_perm
  have hlen : n.quorum ≤ (n.matchValues.insertionSort (· ≤ ·)).length := by
    rw [hperm.length_eq, List.length_map]
    exact h.quorum_le
  have hpos : 0 < n.quorum := Nat.succ_pos _
  rw [le_getD_iff_of_sorted (List.pairwise_insertionSort (· ≤ ·) n.matchValues) hpos hlen,
    hperm.countP_eq, List.countP_map]
  rfl

/-- If too few of the others claim more than the leader has, a quorum has not reached beyond the
leader's log. -/
lemma not_reached_beyond {n : Node}
    (hfew : n.others.countP (fun p => decide (n.log.lastIndex < n.matchIndex.get p)) <
      n.quorum) :
    ¬ n.quorum ≤ n.peers.countP (fun p => decide (n.log.lastIndex + 1 ≤ n.reachOf p)) := by
  rw [not_le]
  refine lt_of_le_of_lt ?_ hfew
  rw [others, List.countP_filter]
  refine List.countP_mono_left fun p _ hp => ?_
  rw [decide_eq_true_eq, reachOf] at hp
  by_cases hid : p = n.id
  · rw [if_pos hid] at hp
    omega
  · rw [if_neg hid] at hp
    simp only [hid, decide_not, decide_false, Bool.not_false, Bool.and_true, decide_eq_true_eq]
    exact hp

lemma term_eq_of_le {n : Node} (hlog : n.log.Contiguous)
    (hsorted : n.log.Pairwise (fun a b => a.term ≤ b.term))
    (hcur : ∀ e ∈ n.log, e.term ≤ n.currentTerm) {N M : ℕ} {e : Entry} (hN : 1 ≤ N)
    (he : n.log[N - 1]? = some e) (hterm : e.term = n.currentTerm) (hNM : N ≤ M)
    (hM : M ≤ n.log.lastIndex) : (n.log.term M).1 = n.currentTerm := by
  rw [Log.lastIndex_eq_length hlog] at hM
  have hlt : M - 1 < n.log.length := by omega
  have hget : n.log[M - 1]? = some n.log[M - 1] := List.getElem?_eq_getElem hlt
  rw [Log.term_of_getElem? hlog (by omega) hget]
  refine le_antisymm (hcur _ (List.getElem_mem hlt)) ?_
  obtain ⟨hltN, rfl⟩ := List.getElem?_eq_some_iff.mp he
  rw [← hterm]
  rcases Nat.eq_or_lt_of_le hNM with rfl | hlt'
  · exact le_refl _
  · exact List.pairwise_iff_getElem.mp hsorted _ _ hltN hlt (by omega)

lemma exists_greatest {n : Node} (h : {N | n.Committable N}.Nonempty) :
    ∃ N, IsGreatest {N | n.Committable N} N := by
  have hbdd : BddAbove {N | n.Committable N} := ⟨n.log.lastIndex, fun N hN => hN.le_last⟩
  exact ⟨_, Nat.sSup_mem h hbdd, fun N hN => le_csSup hbdd hN⟩

lemma Tracks.commit_cases {n : Node} (htracks : n.Tracks) (hlog : n.log.Contiguous)
    (hsorted : n.log.Pairwise (fun a b => a.term ≤ b.term))
    (hcur : ∀ e ∈ n.log, e.term ≤ n.currentTerm)
    (hfew : n.others.countP (fun p => decide (n.log.lastIndex < n.matchIndex.get p)) <
      n.quorum) :
    (∃ N, IsGreatest {N | n.Committable N} N ∧
        n.maybeAdvanceCommitLocked.commitIndex = max n.commitIndex N) ∨
      {N | n.Committable N} = ∅ ∧ n.maybeAdvanceCommitLocked = n := by
  have hlen : n.quorum ≤ (n.matchValues.insertionSort (· ≤ ·)).length := by
    rw [List.length_insertionSort, htracks.matchValues_perm.length_eq, List.length_map]
    exact htracks.quorum_le
  unfold maybeAdvanceCommitLocked
  extract_lets sorted quorumIndex
  have hiff : ∀ N, N ≤ quorumIndex ↔ _ := htracks.le_quorumIndex_iff
  rw [if_neg (not_lt.mpr hlen)]
  -- the index picked lies in the leader's log
  have hlast : quorumIndex ≤ n.log.lastIndex := by
    by_contra hlt
    exact not_reached_beyond hfew ((hiff _).mp (not_le.mp hlt))
  have hbelow : ∀ N, n.Committable N → N ≤ quorumIndex := fun N hN => (hiff N).mpr hN.reached
  split_ifs with hle hterm
  · -- nothing above the old commit index is committable
    rcases Set.eq_empty_or_nonempty {N | n.Committable N} with hempty | hne
    · exact .inr ⟨hempty, rfl⟩
    · obtain ⟨N, hN⟩ := exists_greatest hne
      have hNle := (hbelow N hN.1).trans hle
      exact .inl ⟨N, hN, (max_eq_left hNle).symm⟩
  · -- an index of the current term would put that term at the index picked
    refine .inr ⟨Set.eq_empty_of_forall_notMem fun N hN => hterm ?_, rfl⟩
    obtain ⟨e, hpos, he, hcur'⟩ := hN.entry
    exact term_eq_of_le hlog hsorted hcur hpos he hcur' (hbelow N hN) hlast
  · refine .inl ⟨quorumIndex, ⟨⟨hlast, ?_, (hiff _).mp le_rfl⟩, hbelow⟩, ?_⟩
    · rw [Log.lastIndex_eq_length hlog] at hlast
      have hlt : quorumIndex - 1 < n.log.length := by omega
      have hget : n.log[quorumIndex - 1]? = some n.log[quorumIndex - 1] :=
        List.getElem?_eq_getElem hlt
      rw [Log.term_of_getElem? hlog (by omega) hget] at hterm
      exact ⟨_, by omega, hget, not_not.mp hterm⟩
    · exact (max_eq_right (not_le.mp hle).le).symm

/-- The order in which the match values are collected does not matter. -/
lemma maybeAdvanceCommitLocked_perm (n : Node) {matchIndex : PeerMap}
    (h : matchIndex.entries.Perm n.matchIndex.entries) :
    maybeAdvanceCommitLocked { n with matchIndex } =
      { n.maybeAdvanceCommitLocked with matchIndex } := by
  have hperm : (matchValues { n with matchIndex }).Perm n.matchValues := h.map _
  have hsort : (matchValues { n with matchIndex }).insertionSort (· ≤ ·) =
      n.matchValues.insertionSort (· ≤ ·) :=
    List.Perm.eq_of_pairwise' (List.pairwise_insertionSort _ _) (List.pairwise_insertionSort _ _)
      ((List.perm_insertionSort _ _).trans (hperm.trans (List.perm_insertionSort _ _).symm))
  have hquorum : quorum { n with matchIndex } = n.quorum := rfl
  unfold maybeAdvanceCommitLocked
  rw [hsort, hquorum]
  dsimp only
  split_ifs <;> rfl

/-- The commit rule moves the commit index to the greatest index that Figure 2 lets a leader
commit, if that is above the old one, and does so for every order of the match values. -/
theorem commit_rule {n : Node} (htracks : n.Tracks) (hlog : n.log.Contiguous)
    (hsorted : n.log.Pairwise (fun a b => a.term ≤ b.term))
    (hcur : ∀ e ∈ n.log, e.term ≤ n.currentTerm)
    (hfew : n.others.countP (fun p => decide (n.log.lastIndex < n.matchIndex.get p)) <
      n.quorum) :
    ((∃ N, IsGreatest {N | n.Committable N} N ∧
        n.maybeAdvanceCommitLocked.commitIndex = max n.commitIndex N) ∨
      {N | n.Committable N} = ∅ ∧ n.maybeAdvanceCommitLocked = n) ∧
    ∀ matchIndex : PeerMap, matchIndex.entries.Perm n.matchIndex.entries →
      maybeAdvanceCommitLocked { n with matchIndex } =
        { n.maybeAdvanceCommitLocked with matchIndex } :=
  ⟨htracks.commit_cases hlog hsorted hcur hfew, fun _ h => n.maybeAdvanceCommitLocked_perm h⟩

/-- A leader of term 2 in a cluster of five, three entries long, with one peer that claims more
than there is. -/
def fiveWay : Node where
  id := "a"
  peers := ["a", "b", "c", "d", "e"]
  currentTerm := 2
  role := .leader
  log := [⟨1, 1, []⟩, ⟨2, 2, []⟩, ⟨2, 3, []⟩]
  commitIndex := 1
  matchIndex := [("a", 0), ("b", 7), ("c", 2), ("d", 0), ("e", 1)].foldl
    (fun ix p => ix.insert p.1 p.2) ∅
  cfg := { nodeID := "a", peers := ["a", "b", "c", "d", "e"] }

theorem commit_rule_fiveWay :
    (∃ N, IsGreatest {N | fiveWay.Committable N} N ∧
        fiveWay.maybeAdvanceCommitLocked.commitIndex = max fiveWay.commitIndex N) ∧
      fiveWay.maybeAdvanceCommitLocked.commitIndex = 2 := by
  have hcommit : fiveWay.maybeAdvanceCommitLocked.commitIndex = 2 := by decide +kernel
  refine ⟨?_, hcommit⟩
  have htracks : fiveWay.Tracks :=
    { nodup := by decide, self := by decide, keys := by decide +kernel }
  have hlog : fiveWay.log.Contiguous :=
    Log.contiguousFrom_cons.mpr ⟨rfl, Log.contiguousFrom_cons.mpr
      ⟨rfl, Log.contiguousFrom_singleton rfl⟩⟩
  rcases (commit_rule htracks hlog (by decide) (by decide) (by decide +kernel)).1 with h | ⟨-, h⟩
  · exact h
  · rw [h] at hcommit
    cases hcommit

end Node

end ToyRaft
