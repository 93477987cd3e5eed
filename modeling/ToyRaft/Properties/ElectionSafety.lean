import ToyRaft.Framework.Quorum
import ToyRaft.Runtime.Runs

/-!
# Election Safety

At most one node ever leads a term, over all moments of a run and all lifetimes of all nodes.

The evidence of a victory outlives the winner: every vote a candidate has counted, other
than its own, is a message in the network (`Candidacy`), and the network only grows.  Two
winners of one term would therefore have two majorities of votes on record at once.  They
share a voter, and the books of a node (`Host.VoteLedger.once`) say that all votes it ever
sent in a term name one candidate.
-/

namespace ToyRaft

namespace Cluster

variable {ρ : Type} (C : Cluster) (ev : ℕ → Event ρ)

/-- Node `i` leads term `T` at moment `t`. -/
def LeaderAt (t : ℕ) (i : NodeID) (T : ℕ) : Prop :=
  (C.node ev t i).role = .leader ∧ (C.node ev t i).currentTerm = T

instance (t : ℕ) (i : NodeID) (T : ℕ) : Decidable (C.LeaderAt ev t i T) :=
  inferInstanceAs (Decidable (_ ∧ _))

/-- A vote of `v` for `i` in term `T` is on record at moment `t`: it is `i`'s own, or a
granted response in the network. -/
def VoteOnRecord (t : ℕ) (v i : NodeID) (T : ℕ) : Prop :=
  v = i ∨ ∃ x ∈ C.net ev t, x.type = .requestVoteResponse ∧ x.voteGranted = true ∧
    x.fromNode = v ∧ x.toNode = i ∧ x.term = T

/-- The votes a candidate or leader has counted are on record. -/
structure Candidacy (t : ℕ) (i : NodeID) : Prop where
  self : (C.node ev t i).votedFor = i
  mine : i ∈ (C.node ev t i).votesReceived
  votes : ∀ v ∈ (C.node ev t i).votesReceived,
    C.VoteOnRecord ev t v i (C.node ev t i).currentTerm
  quorum : (C.node ev t i).role = .leader →
    (C.node ev t i).quorum ≤ (C.node ev t i).votesReceived.card

variable {C ev}

lemma VoteOnRecord.mono {s t : ℕ} (hst : s ≤ t) {v i : NodeID} {T : ℕ}
    (h : C.VoteOnRecord ev s v i T) : C.VoteOnRecord ev t v i T :=
  h.imp_right fun ⟨x, hx, hrest⟩ => ⟨x, C.net_mono ev hst hx, hrest⟩

lemma VoteOnRecord.mem {t : ℕ} {v i : NodeID} {T : ℕ} (hi : i ∈ C.peers)
    (h : C.VoteOnRecord ev t v i T) : v ∈ C.peers := by
  rcases h with rfl | ⟨x, hx, -, -, rfl, -⟩
  · exact hi
  · exact C.net_from ev hx

variable (C ev)

lemma role_of_not_mem {i : NodeID} (hi : i ∉ C.peers) (t : ℕ) :
    (C.node ev t i).role = .follower := by
  have hstart : (Host.start (C.cfg i) {} (C.draw i) : Host ρ).node.role = .follower := by
    unfold Host.start
    split
    · rename_i h hnew
      exact (Host.new_cases hnew).1.role
    · rfl
  refine C.host_invariant ev (P := fun h => h.node.role = .follower) hstart ?_ t
  intro t sent hm
  exact (hi hm.mem).elim

lemma mem_of_role {t : ℕ} {i : NodeID} (h : (C.node ev t i).role ≠ .follower) :
    i ∈ C.peers := by
  by_contra hi
  exact h (C.role_of_not_mem ev hi t)

variable {C ev} in
lemma LeaderAt.mem {t : ℕ} {i : NodeID} {T : ℕ} (h : C.LeaderAt ev t i T) : i ∈ C.peers :=
  C.mem_of_role ev (by rw [h.1]; simp)

theorem candidacy {t : ℕ} {i : NodeID} (h : (C.node ev t i).role ≠ .follower) :
    C.Candidacy ev t i := by
  have hi := C.mem_of_role ev h
  induction t with
  | zero => exact (h (C.started_zero ev hi).role).elim
  | succ t ih =>
      rcases C.step_cases ev t i with ⟨sent, hm⟩ | ⟨heq, -⟩
      · have hid := C.node_id ev hi t
        have hq : (C.node ev (t + 1) i).quorum = (C.node ev t i).quorum := by
          rw [C.node_quorum ev hi, C.node_quorum ev hi]
        cases hm.move.role with
        | follower hf => exact (h hf).elim
        | kept hne hrole hcur hvotes hvote =>
            have hold := ih hne
            refine ⟨?_, ?_, fun v hv => ?_, fun hl => ?_⟩
            · rcases hvote with hblank | hvote
              · exact (C.member_ne hi (hold.self.symm.trans hblank)).elim
              · exact hvote.trans hold.self
            · rw [hvotes]
              exact hold.mine
            · rw [hcur]
              exact (hold.votes v (hvotes ▸ hv)).mono (Nat.le_succ t)
            · rw [hq, hvotes]
              exact hold.quorum (hrole.symm.trans hl)
        | campaign _ _ hvotes hvote _ hlead =>
            refine ⟨hvote.trans hid, ?_, fun v hv => ?_, fun hl => ?_⟩
            · rw [hvotes]
              exact Finset.mem_singleton.mpr hid.symm
            · rw [hvotes] at hv
              exact .inl ((Finset.mem_singleton.mp hv).trans hid)
            · rw [hq, hvotes, Finset.card_singleton]
              exact hlead.mp hl
        | tally m hin ht hg hterm hrole _ hcur hvotes hvote _ hlead =>
            have hold := ih (by rw [show (C.node ev t i).role = _ from hrole]; simp)
            obtain ⟨hnet, hto⟩ := hm.inbound m hin
            refine ⟨hvote.trans hold.self, ?_, fun v hv => ?_, fun hl => ?_⟩
            · rw [hvotes]
              exact Finset.mem_insert_of_mem hold.mine
            · rw [hcur]
              rw [hvotes] at hv
              rcases Finset.mem_insert.mp hv with rfl | hv
              · exact .inr ⟨m, C.net_mono ev (Nat.le_succ t) hnet, ht, hg, rfl, hto, hterm⟩
              · exact (hold.votes v hv).mono (Nat.le_succ t)
            · rw [hq]
              exact hlead hl
      · have hold : C.Candidacy ev t i := ih (by rw [node, heq] at h; exact h)
        have hnode : C.node ev (t + 1) i = C.node ev t i := by rw [node, heq]; rfl
        refine ⟨?_, ?_, fun v hv => ?_, ?_⟩
        · rw [hnode]; exact hold.self
        · rw [hnode]; exact hold.mine
        · rw [hnode] at hv ⊢
          exact (hold.votes v hv).mono (Nat.le_succ t)
        · rw [hnode]; exact hold.quorum

lemma majority_of_leader {t : ℕ} {i : NodeID} (h : (C.node ev t i).role = .leader) :
    IsMajority C.peers.toFinset (C.node ev t i).votesReceived := by
  have hi := C.mem_of_role ev (t := t) (i := i) (by simp [h])
  have hcand := C.candidacy ev (t := t) (i := i) (by simp [h])
  refine ⟨fun v hv => List.mem_toFinset.mpr ((hcand.votes v hv).mem hi), ?_⟩
  have hq := hcand.quorum h
  rw [C.node_quorum ev hi] at hq
  rw [List.toFinset_card_of_nodup C.nodup]
  omega

/-- A granted vote answers a request the candidate has sent. -/
lemma request_of_grant {t : ℕ} {x : Message} (hx : x ∈ C.net ev t)
    (ht : x.type = .requestVoteResponse) (hg : x.voteGranted = true) :
    ∃ y ∈ C.net ev t, y.type = .requestVote ∧ y.fromNode = x.toNode ∧ y.term = x.term := by
  obtain ⟨s, hs, hq, -⟩ := provenance_net hx
  obtain ⟨-, m, hm, hsp⟩ := spokenAt_of_queued hq
  obtain ⟨hmt, hterm, hcur, -, hxt, hto, -⟩ := hsp.of_grant ht hg
  rcases hm with rfl | ⟨hm, -⟩
  · cases hmt
  · exact ⟨m, C.net_mono ev hs.le hm, hmt, hto.symm, by omega⟩

/-- All votes a member has sent in a term name one candidate. -/
lemma vote_unique {t : ℕ} {x y : Message} (hx : x ∈ C.net ev t) (hy : y ∈ C.net ev t)
    (hfrom : x.fromNode = y.fromNode) (hterm : x.term = y.term) {c d : NodeID}
    (hc : x.voteOf = some c) (hd : y.voteOf = some d) : c = d := by
  have hb := ((C.balanced ev t).1 _ (C.net_from ev hx)).1
  exact hb.once x y (.inr (.inr ⟨hx, hb.id.symm⟩))
    (.inr (.inr ⟨hy, hfrom.symm.trans hb.id.symm⟩)) hterm c d hc hd

/-- In a cluster of more than one, a candidate with a majority of votes has sent its
request. -/
lemma request_on_record {t : ℕ} {i : NodeID} {T : ℕ} {Q : Finset NodeID}
    (hQ : IsMajority C.peers.toFinset Q) (hQv : ∀ v ∈ Q, C.VoteOnRecord ev t v i T)
    (hcard : 1 < C.peers.toFinset.card) :
    ∃ y ∈ C.net ev t, y.type = .requestVote ∧ y.fromNode = i ∧ y.term = T := by
  have hlt := hQ.2
  obtain ⟨w, hw, hwi⟩ := Finset.exists_mem_ne (s := Q) (by omega) i
  rcases hQv w hw with rfl | ⟨x, hx, ht, hg, -, hto, hterm⟩
  · exact (hwi rfl).elim
  · obtain ⟨y, hy, hyt, hyf, hyterm⟩ := C.request_of_grant ev hx ht hg
    exact ⟨y, hy, hyt, hyf.trans hto, hyterm.trans hterm⟩

/-- A candidate with a majority of votes has not voted for another. -/
lemma no_vote_for_other {t : ℕ} {i j : NodeID} {T : ℕ} {Q : Finset NodeID}
    (hQ : IsMajority C.peers.toFinset Q) (hQv : ∀ v ∈ Q, C.VoteOnRecord ev t v i T)
    (hcard : 1 < C.peers.toFinset.card) (hv : C.VoteOnRecord ev t i j T) : i = j := by
  rcases hv with rfl | ⟨x, hx, ht, hg, hfrom, hto, hterm⟩
  · rfl
  · obtain ⟨y, hy, hyt, hyf, hyterm⟩ := C.request_on_record ev hQ hQv hcard
    refine C.vote_unique ev hy hx (hyf.trans hfrom.symm) (hyterm.trans hterm.symm) ?_ ?_
    · simp [Message.voteOf, hyt, hyf]
    · simp [Message.voteOf, ht, hg, hto]

lemma candidate_unique {t : ℕ} {i j : NodeID} {T : ℕ} {Q R : Finset NodeID}
    (hQ : IsMajority C.peers.toFinset Q) (hR : IsMajority C.peers.toFinset R)
    (hi : i ∈ Q) (hj : j ∈ R)
    (hQv : ∀ v ∈ Q, C.VoteOnRecord ev t v i T) (hRv : ∀ v ∈ R, C.VoteOnRecord ev t v j T) :
    i = j := by
  by_contra hij
  have hcard : 1 < C.peers.toFinset.card :=
    Finset.one_lt_card.mpr ⟨i, hQ.1 hi, j, hR.1 hj, hij⟩
  obtain ⟨v, hvQ, hvR⟩ := exists_mem_of_majorities hQ hR
  have hvj := hRv v hvR
  rcases hQv v hvQ with rfl | ⟨x, hx, ht, hg, hfrom, hto, hterm⟩
  · exact hij (C.no_vote_for_other ev hQ hQv hcard hvj)
  · rcases hvj with rfl | ⟨y, hy, ht', hg', hfrom', hto', hterm'⟩
    · exact hij (C.no_vote_for_other ev hR hRv hcard
        (.inr ⟨x, hx, ht, hg, hfrom, hto, hterm⟩)).symm
    · refine hij (C.vote_unique ev hx hy (hfrom.trans hfrom'.symm) (hterm.trans hterm'.symm)
        ?_ ?_)
      · simp [Message.voteOf, ht, hg, hto]
      · simp [Message.voteOf, ht', hg', hto']

lemma leader_unique_of_le {s t : ℕ} (hst : s ≤ t) {i j : NodeID} {T : ℕ}
    (hi : C.LeaderAt ev s i T) (hj : C.LeaderAt ev t j T) : i = j := by
  have hci := C.candidacy ev (t := s) (i := i) (by simp [hi.1])
  have hcj := C.candidacy ev (t := t) (i := j) (by simp [hj.1])
  refine C.candidate_unique ev (t := t) (T := T) (C.majority_of_leader ev hi.1)
    (C.majority_of_leader ev hj.1) hci.mine hcj.mine (fun v hv => ?_) (fun v hv => ?_)
  · have := (hci.votes v hv).mono hst
    rwa [hi.2] at this
  · have := hcj.votes v hv
    rwa [hj.2] at this

lemma leader_unique {s t : ℕ} {i j : NodeID} {T : ℕ} (hi : C.LeaderAt ev s i T)
    (hj : C.LeaderAt ev t j T) : i = j := by
  rcases le_total s t with hst | hts
  · exact C.leader_unique_of_le ev hst hi hj
  · exact (C.leader_unique_of_le ev hts hj hi).symm

/-- **Election Safety.**  In every run, whatever is lost, duplicated, reordered or delayed
and whoever crashes when, at most one node is ever leader with a given current term. -/
theorem election_safety (T : ℕ) : {i | ∃ t, C.LeaderAt ev t i T}.Subsingleton := by
  rintro i ⟨s, hi⟩ j ⟨t, hj⟩
  exact C.leader_unique ev hi hj

/-- Node `a` is elected in term 1, and leads at two moments of the run. -/
theorem election_safety_trio :
    trio.LeaderAt (Machine.schedule idle (elect 1 "a" "b" 0 0)) 16 "a" 1 ∧
      trio.LeaderAt (Machine.schedule idle (elect 1 "a" "b" 0 0)) 40 "a" 1 ∧ "a" = "a" := by
  refine ⟨by decide +kernel, by decide +kernel, ?_⟩
  exact trio.election_safety (Machine.schedule idle (elect 1 "a" "b" 0 0)) 1
    ⟨16, by decide +kernel⟩ ⟨40, by decide +kernel⟩

end Cluster

end ToyRaft
