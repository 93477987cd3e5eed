import ToyRaft.Properties.Refinement

/-!
# A cluster of one

A cluster of one is not an execution in the sense of `Execution`: its node wins an election
on its own vote before that vote is saved, so after a crash it may lead the same term again.
What saves it is that nobody else writes to its log.  The log only grows (`solo_log_grows`),
also across crashes, and the term in memory is at most one ahead of the stored one
(`SoloTerm`), so that terms along the log and terms of office over time do not decrease.
-/

namespace ToyRaft

/-- The term of the node of a cluster of one: a follower's is stored, a leader's is at most
one ahead. -/
structure Node.SoloTerm (n : Node) : Prop where
  role : n.role ≠ .candidate
  follower : n.role = .follower → n.currentTerm = n.storage.hs.currentTerm
  ahead : n.currentTerm ≤ n.storage.hs.currentTerm + 1

namespace Host

variable {ρ : Type}

/-- A move keeps `SoloTerm` and does not lower the stored term, if a single vote wins and no
message of a later term is delivered. -/
lemma soloTerm_move {cfg : Config} {h : Host ρ} {a : Act ρ} {n' : Node} {f' : Flush}
    {out net : List Message} {i : NodeID} (hmove : Move cfg h a n' f' out)
    (hb : h.Balanced i net) (hq : h.node.quorum ≤ 1)
    (hm : ∀ m ∈ a.inbound, m.term ≤ h.node.currentTerm) (hs : h.node.SoloTerm) :
    n'.SoloTerm ∧ h.node.storage.hs.currentTerm ≤ n'.storage.hs.currentTerm := by
  cases hmove with
  | @step m env _ _ hn hdel =>
      have hterm : m.term ≤ h.node.currentTerm := by
        rcases hdel with rfl | hdel
        · exact Nat.zero_le _
        · exact hm m (inbound_of_delivered hdel)
      have hst := (Node.follows_of_step (fun _ _ => rfl) hn).stored
      rcases h.node.maybeStepDownLocked_cases m.term with ⟨-, heq⟩ | ⟨hlt, -⟩
      · rw [heq] at hn
        cases Node.roleStep_of_handled hn with
        | same hrole hcur _ =>
            refine ⟨⟨?_, ?_, ?_⟩, by rw [hst]⟩
            · rw [hrole]
              exact hs.role
            · rw [hrole, hcur, hst]
              exact hs.follower
            · rw [hcur, hst]
              exact hs.ahead
        | campaign _ hcur _ _ _ hlead hfrom =>
            have hrole := hlead.mpr hq
            have hfollower : h.node.role = .follower := by
              have := hs.role
              cases hr : h.node.role <;> simp_all
            refine ⟨⟨by simp [hrole], by simp [hrole], ?_⟩, by rw [hst]⟩
            rw [hcur, hst, hs.follower hfollower]
        | tally _ _ _ hrole => exact (hs.role hrole).elim
      · omega
  | @propose data _ s _ _ happ =>
      obtain ⟨hrole, -, -, hcur, -, hst, -⟩ := (h.node.proposed data s).broadcast_frame
      have hhs : (h.node.proposed data s).broadcastAppendEntriesLocked.storage.hs =
          h.node.storage.hs := by
        rw [hst]
        exact (Node.storage_append_hs happ).1
      refine ⟨⟨?_, ?_, ?_⟩, by rw [hhs]⟩
      · rw [hrole]
        exact hs.role
      · rw [hrole, hcur, hhs]
        exact hs.follower
      · rw [hcur, hhs]
        exact hs.ahead
  | save hf =>
      have hmid := hb.stored_mid.term_le
      have hcur := (hb.mid_top.trans hb.top_cur).term_le
      rw [hf] at hmid hcur
      refine ⟨⟨hs.role, fun hr => ?_, ?_⟩, hmid⟩
      · exact le_antisymm ((hs.follower hr).le.trans hmid) hcur
      · exact hs.ahead.trans (Nat.succ_le_succ hmid)
  | restart _ hn hst =>
      have hcur : n'.currentTerm = n'.storage.hs.currentTerm := by
        rw [hn.storage]
        exact congrArg HardState.currentTerm hn.hardState
      refine ⟨⟨by simp [hn.role], fun _ => hcur, by omega⟩, ?_⟩
      rw [hn.storage, (restart_hs hst).1]
  | _ => exact ⟨{ hs with }, le_rfl⟩

end Host

namespace Cluster

variable {ρ : Type} (C : Cluster) (ev : ℕ → Event ρ)

section Solo

variable {C} (hsolo : C.peers.toFinset.card ≤ 1)
include hsolo

lemma eq_of_solo {i j : NodeID} (hi : i ∈ C.peers) (hj : j ∈ C.peers) : i = j :=
  Finset.card_le_one.mp hsolo i (List.mem_toFinset.mpr hi) j (List.mem_toFinset.mpr hj)

lemma log_cases_of_solo (t : ℕ) (i : NodeID) :
    (C.node ev (t + 1) i).log = (C.node ev t i).log ∨
    ∃ e, (C.node ev t i).role = .leader ∧
      (C.node ev (t + 1) i).currentTerm = (C.node ev t i).currentTerm ∧
      e.term = (C.node ev t i).currentTerm ∧
      (C.node ev (t + 1) i).log = (C.node ev t i).log ++ [e] := by
  rcases C.log_cases ev t i with heq | ⟨e, hrole, -, hcur, he, heq⟩ | ⟨m, k, hg⟩
  · exact .inl heq
  · exact .inr ⟨e, hrole, hcur, he, heq⟩
  · obtain ⟨_, _, _, hne, _⟩ := hg.source
    exact (hne (eq_of_solo hsolo (C.net_from ev hg.net) hg.mem)).elim

/-- The log only grows. -/
lemma solo_log_grows {s t : ℕ} (hst : s ≤ t) (i : NodeID) :
    (C.node ev s i).log <+: (C.node ev t i).log := by
  induction t, hst using Nat.le_induction with
  | base => exact List.prefix_refl _
  | succ t _ ih =>
      rcases log_cases_of_solo ev hsolo t i with heq | ⟨e, -, -, -, heq⟩
      · rwa [heq]
      · rw [heq]
        exact ih.trans (List.prefix_append _ _)

lemma soloTerm {i : NodeID} (hi : i ∈ C.peers) (t : ℕ) :
    (C.node ev t i).SoloTerm ∧
      ∀ s ≤ t, (C.node ev s i).storage.hs.currentTerm ≤
        (C.node ev t i).storage.hs.currentTerm := by
  induction t with
  | zero =>
      have hn := C.started_zero ev hi
      have hcur : (C.node ev 0 i).currentTerm = (C.node ev 0 i).storage.hs.currentTerm := by
        rw [hn.storage]
        exact congrArg HardState.currentTerm hn.hardState
      refine ⟨⟨by simp [hn.role], fun _ => hcur, by omega⟩, fun s hs => ?_⟩
      rw [Nat.le_zero.mp hs]
  | succ t ih =>
      obtain ⟨hold, hmono⟩ := ih
      have hstep : (C.node ev (t + 1) i).SoloTerm ∧
          (C.node ev t i).storage.hs.currentTerm ≤
            (C.node ev (t + 1) i).storage.hs.currentTerm := by
        rcases C.step_cases ev t i with ⟨sent, hm⟩ | ⟨heq, -⟩
        · refine Host.soloTerm_move hm.move ((C.balanced ev t).1 i hi).1 ?_ ?_ hold
          · show (C.node ev t i).quorum ≤ 1
            rw [C.node_quorum ev hi, ← List.toFinset_card_of_nodup C.nodup]
            omega
          · -- whatever is delivered, the node has sent itself
            intro m hin
            have hnet := (hm.inbound m hin).1
            have hc : C.Carries ev t i m :=
              .inr ⟨hnet, eq_of_solo hsolo (C.net_from ev hnet) hi⟩
            exact hc.term_le hi
        · rw [node, heq]
          exact ⟨hold, le_rfl⟩
      refine ⟨hstep.1, fun s hs => ?_⟩
      rcases Nat.lt_or_ge t s with hlt | hge
      · obtain rfl : s = t + 1 := by omega
        exact le_rfl
      · exact (hmono s hge).trans hstep.2

/-- Of two terms of office, the later in time is not the lower. -/
lemma solo_leader_le {i : NodeID} {s t T T' : ℕ} (hs : C.LeaderAt ev s i T)
    (ht : C.LeaderAt ev t i T') (hT : T < T') : s ≤ t := by
  have hi := ht.mem
  obtain ⟨tc, htc, hlt, -, hall⟩ :=
    C.candidate_since ev (t := s) (i := i) (by simp [hs.1])
  rw [hs.2] at hlt hall
  by_contra hcon
  rcases Nat.lt_or_ge tc t with htct | htct
  · have := (hall t htct (by omega)).2
    have := ht.2
    omega
  · have h₁ := (soloTerm ev hsolo hi t).1.ahead
    have h₂ := (soloTerm ev hsolo hi tc).2 t htct
    have h₃ := C.stored_term_le ev hi tc
    have := ht.2
    omega

/-- Terms along the log are sorted, none is more than one ahead of the stored term, and none
is ahead of a leader's own. -/
lemma solo_terms {i : NodeID} (hi : i ∈ C.peers) (t : ℕ) :
    (C.node ev t i).log.Pairwise (fun a b => a.term ≤ b.term) ∧
    (∀ e ∈ (C.node ev t i).log, e.term ≤ (C.node ev t i).storage.hs.currentTerm + 1) ∧
    ((C.node ev t i).role = .leader →
      ∀ e ∈ (C.node ev t i).log, e.term ≤ (C.node ev t i).currentTerm) := by
  induction t with
  | zero =>
      rw [show (C.node ev 0 i).log = [] from (C.started_zero ev hi).log]
      simp
  | succ t ih =>
      obtain ⟨hsorted, hstored, hlead⟩ := ih
      have hmono := (soloTerm ev hsolo hi (t + 1)).2 t (Nat.le_succ t)
      rcases log_cases_of_solo ev hsolo t i with heq | ⟨e, hrole, hcur, he, heq⟩
      · rw [heq]
        refine ⟨hsorted, fun e he => (hstored e he).trans (Nat.succ_le_succ hmono), ?_⟩
        intro hl e he
        rcases C.step_cases ev t i with ⟨sent, hm⟩ | ⟨hsame, -⟩
        · cases hm.move.role with
          | follower hf =>
              rw [hf] at hl
              cases hl
          | kept _ hr hc _ _ =>
              rw [hc]
              exact hlead (hr.symm.trans hl) e he
          | campaign _ hc _ _ _ _ =>
              have := hstored e he
              have := C.stored_term_le ev hi t
              have hc' : (C.node ev t i).currentTerm < (C.node ev (t + 1) i).currentTerm := hc
              omega
          | tally _ _ _ _ _ hr => exact ((soloTerm ev hsolo hi t).1.role hr).elim
        · rw [node, hsame] at hl ⊢
          exact hlead hl e he
      · have hbound : ∀ a ∈ (C.node ev t i).log ++ [e],
            a.term ≤ (C.node ev t i).currentTerm := by
          intro a ha
          rcases List.mem_append.mp ha with ha | ha
          · exact hlead hrole a ha
          · rw [List.mem_singleton.mp ha, he]
        rw [heq]
        refine ⟨?_, fun a ha => ?_, fun _ a ha => ?_⟩
        · refine List.pairwise_append.mpr ⟨hsorted, List.pairwise_singleton _ _, ?_⟩
          intro a ha b hb
          rw [List.mem_singleton.mp hb, he]
          exact hlead hrole a ha
        · have := hbound a ha
          have := (soloTerm ev hsolo hi t).1.ahead
          omega
        · rw [hcur]
          exact hbound a ha

end Solo

end Cluster

end ToyRaft
