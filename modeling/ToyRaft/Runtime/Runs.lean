import ToyRaft.Core.Effects
import ToyRaft.Runtime.Cluster
import ToyRaft.Runtime.Ledger

/-!
# The runs of a cluster

What one event does to a cluster, seen from one node: nothing, or one of its moves
(`step_cases`).  From it follow the facts every later proof starts from: who the members are
(`node_id`, `node_peers`), that the books of every member balance (`balanced`), and where a
message comes from (`provenance`): whatever a member has queued, has in its batch or has sent
was queued by one of its sections, and has been on its way ever since.
-/

namespace ToyRaft

namespace Cluster

variable {ρ : Type} (C : Cluster) (ev : ℕ → Event ρ)

/-- The messages handed to a transport before moment `t`. -/
def net (t : ℕ) : List Message := (C.world ev t).net

/-- The event at moment `t` is a move of node `i` that hands `sent` to the transport. -/
structure MovesAt (t : ℕ) (i : NodeID) (sent : List Message) : Prop where
  node : (ev t).node = i
  mem : i ∈ C.peers
  faultless : (ev t).act.faultless = true
  inbound : ∀ m ∈ (ev t).act.inbound, m ∈ C.net ev t ∧ m.toNode = i
  host : C.host ev (t + 1) i = ((C.host ev t i).act (C.cfg i) (ev t).act).1
  out : sent = ((C.host ev t i).act (C.cfg i) (ev t).act).2
  net : C.net ev (t + 1) = C.net ev t ++ sent
  others : ∀ j, j ≠ i → C.host ev (t + 1) j = C.host ev t j

variable {C ev}

lemma MovesAt.move {t : ℕ} {i : NodeID} {out : List Message} (h : C.MovesAt ev t i out) :
    Host.Move (C.cfg i) (C.host ev t i) (ev t).act (C.node ev (t + 1) i)
      (C.host ev (t + 1) i).flush out := by
  have := Host.move_of_act (C.cfg i) (C.host ev t i) (ev t).act
  rwa [← h.host, ← h.out] at this

lemma MovesAt.enabled {t : ℕ} {i : NodeID} {sent : List Message} (h : C.MovesAt ev t i sent) :
    C.Enabled (C.world ev t) (ev t) := by
  obtain ⟨rfl, hmem, hfault, hin, -⟩ := h
  exact ⟨hmem, hfault, hin⟩

variable (C ev)

variable {C ev} in
/-- An enabled event is a move of its node. -/
lemma movesAt_of_enabled {t : ℕ} (hen : C.Enabled (C.world ev t) (ev t)) :
    ∃ sent, C.MovesAt ev t (ev t).node sent := by
  have hsucc : C.world ev (t + 1) = C.exec (C.world ev t) (ev t) := rfl
  rw [exec, if_pos hen] at hsucc
  refine ⟨_, rfl, hen.1, hen.2.1, hen.2.2, ?_, rfl, ?_, fun j hj => ?_⟩
  · rw [host, hsucc]
    exact Function.update_self _ _ _
  · rw [net, hsucc]
    rfl
  · rw [host, hsucc]
    exact Function.update_of_ne hj _ _

/-- An event is a move of some member, or it changes nothing. -/
lemma world_cases (t : ℕ) :
    C.world ev (t + 1) = C.world ev t ∨ ∃ i sent, C.MovesAt ev t i sent := by
  by_cases hen : C.Enabled (C.world ev t) (ev t)
  · exact .inr ⟨_, movesAt_of_enabled hen⟩
  · exact .inl (if_neg hen)

/-- Seen from node `i`, an event is a move of `i`, or it leaves the host alone and sends at
most messages of another member. -/
theorem step_cases (t : ℕ) (i : NodeID) :
    (∃ sent, C.MovesAt ev t i sent) ∨
    C.host ev (t + 1) i = C.host ev t i ∧
      (C.net ev (t + 1) = C.net ev t ∨ ∃ j sent, j ≠ i ∧ C.MovesAt ev t j sent) := by
  rcases C.world_cases ev t with heq | ⟨j, sent, hm⟩
  · right
    exact ⟨by rw [host, heq]; rfl, .inl (by rw [net, heq]; rfl)⟩
  · by_cases hj : j = i
    · subst hj
      exact .inl ⟨sent, hm⟩
    · exact .inr ⟨hm.others i (Ne.symm hj), .inr ⟨j, sent, hj, hm⟩⟩

lemma net_mono {s t : ℕ} (h : s ≤ t) {x : Message} (hx : x ∈ C.net ev s) :
    x ∈ C.net ev t := by
  refine (C.machine ρ).run_rel_of_le (R := fun w w' => ∀ x ∈ w.net, x ∈ w'.net)
    (fun _ _ hx => hx) (fun _ _ _ hab hbc x hx => hbc x (hab x hx)) ?_ ev h x hx
  intro w e x hx
  show x ∈ (C.exec w e).net
  unfold exec
  split_ifs
  · exact List.mem_append_left _ hx
  · exact hx

/-! ## The start -/

/-- The first `New` of a member succeeds. -/
lemma new_start (ρ : Type) {i : NodeID} (hi : i ∈ C.peers) :
    Host.new (C.cfg i) {} (C.draw i) .restored =
      .ok (Host.start (C.cfg i) {} (C.draw i) : Host ρ) := by
  have hvalid := C.valid i hi
  unfold Host.start Host.new Node.newNode
  simp [hvalid, Node.restoreLogFromStorage, Storage.lastIndex]

lemma started_zero {i : NodeID} (hi : i ∈ C.peers) :
    Node.Started (C.cfg i) {} (C.node ev 0 i) :=
  (Host.new_cases (C.new_start ρ hi)).1

lemma flush_zero {i : NodeID} (hi : i ∈ C.peers) : (C.host ev 0 i).flush = .idle :=
  (Host.new_cases (C.new_start ρ hi)).2.1

/-! ## Members -/

/-- A property of a member's host that its start and each of its moves establish holds at
every moment. -/
theorem host_invariant {i : NodeID} {P : Host ρ → Prop} (h0 : P (C.host ev 0 i))
    (hstep : ∀ t sent, C.MovesAt ev t i sent → P (C.host ev t i) → P (C.host ev (t + 1) i))
    (t : ℕ) : P (C.host ev t i) := by
  induction t with
  | zero => exact h0
  | succ t ih =>
      rcases C.step_cases ev t i with ⟨sent, hm⟩ | ⟨heq, -⟩
      · exact hstep t sent hm ih
      · rwa [heq]

lemma identity {i : NodeID} (hi : i ∈ C.peers) (t : ℕ) :
    (C.node ev t i).id = i ∧
      (C.node ev t i).peers = C.peers.insertionSort (· ≤ ·) := by
  have hstarted : ∀ {s n}, Node.Started (C.cfg i) s n →
      n.id = i ∧ n.peers = C.peers.insertionSort (· ≤ ·) := by
    intro s n hn
    rw [hn.id, hn.peers, C.cfg_nodeID i hi, C.cfg_peers i hi]
    exact ⟨rfl, rfl⟩
  refine C.host_invariant ev (P := fun h => h.node.id = i ∧
    h.node.peers = C.peers.insertionSort (· ≤ ·)) (hstarted (C.started_zero ev hi)) ?_ t
  intro t sent hm hold
  rcases hm.move.identity with ⟨hid, hpeers⟩ | ⟨s, hn⟩
  · exact ⟨hid.trans hold.1, hpeers.trans hold.2⟩
  · exact hstarted hn

lemma node_id {i : NodeID} (hi : i ∈ C.peers) (t : ℕ) : (C.node ev t i).id = i :=
  (C.identity ev hi t).1

lemma mem_node_peers {i : NodeID} (hi : i ∈ C.peers) (t : ℕ) {p : NodeID} :
    p ∈ (C.node ev t i).peers ↔ p ∈ C.peers := by
  rw [(C.identity ev hi t).2]
  exact (List.perm_insertionSort _ _).mem_iff

lemma node_quorum {i : NodeID} (hi : i ∈ C.peers) (t : ℕ) :
    (C.node ev t i).quorum = C.peers.length / 2 + 1 := by
  rw [Node.quorum, (C.identity ev hi t).2, (List.perm_insertionSort _ _).length_eq]

lemma member_ne {i : NodeID} (hi : i ∈ C.peers) : i ≠ "" := by
  have := Config.nodeID_ne_of_validate (C.valid i hi)
  rwa [Config.applyDefaults_nodeID, C.cfg_nodeID i hi] at this

/-! ## Balanced books -/

/-- The books of every member balance, no message overtakes its term, and only members
send. -/
theorem balanced (t : ℕ) :
    (∀ i ∈ C.peers, (C.host ev t i).Balanced i (C.net ev t) ∧
      Host.TermLedger (C.node ev t i) (C.host ev t i).flush.unsaved (C.host ev t i).flush.msgs
        (C.net ev t)) ∧
    ∀ x ∈ C.net ev t, x.fromNode ∈ C.peers := by
  induction t with
  | zero =>
      refine ⟨fun i hi => ?_, by simp [net, world, machine, init]⟩
      have hb := Host.balanced_new (C.new_start ρ hi)
      rw [C.cfg_nodeID i hi] at hb
      exact ⟨hb, Host.termLedger_new (C.new_start ρ hi)⟩
  | succ t ih =>
      obtain ⟨hall, hnet⟩ := ih
      rcases C.world_cases ev t with heq | ⟨j, sent, hm⟩
      · unfold node host net
        rw [heq]
        exact ⟨hall, hnet⟩
      · obtain ⟨hbj, htj⟩ := hall j hm.mem
        have hfrom : ∀ x ∈ sent, x.fromNode = j := by
          intro x hx
          obtain ⟨msgs, hf⟩ := hm.move.sends hx
          unfold Host.Balanced at hbj
          rw [hf] at hbj
          exact hbj.batch_from x List.mem_cons_self
        refine ⟨fun i hi => ?_, fun x hx => ?_⟩
        · rw [hm.net]
          by_cases hij : i = j
          · subst hij
            have hsafe : Host.SaveSafe (C.host ev t i) (ev t).act :=
              Host.saveSafe_of_faultless hm.faultless
            have hnames : Host.NamesSender (C.host ev t i) (ev t).act := fun m hin _ _ =>
              C.member_ne (hnet m (hm.inbound m hin).1)
            exact ⟨Host.voteLedger_move hm.move (C.cfg_nodeID i hi) hsafe hnames hbj,
              Host.termLedger_move hm.move (C.cfg_nodeID i hi) hm.faultless hbj htj⟩
          · obtain ⟨hb, ht⟩ := hall i hi
            have hother : ∀ x ∈ sent, x.fromNode ≠ i := fun x hx heq =>
              hij (heq.symm.trans (hfrom x hx))
            unfold node Host.Balanced
            rw [hm.others i hij]
            refine ⟨hb.others hother, ht.others fun x hx => ?_⟩
            rw [C.node_id ev hi t]
            exact hother x hx
        · rw [hm.net] at hx
          rcases List.mem_append.mp hx with hx | hx
          · exact hnet x hx
          · rw [hfrom x hx]
            exact hm.mem

lemma net_from {t : ℕ} {x : Message} (hx : x ∈ C.net ev t) : x.fromNode ∈ C.peers :=
  (C.balanced ev t).2 x hx

/-- A member's term is never below the one it has stored. -/
lemma stored_term_le {i : NodeID} (hi : i ∈ C.peers) (t : ℕ) :
    (C.node ev t i).storage.hs.currentTerm ≤ (C.node ev t i).currentTerm := by
  have hb := ((C.balanced ev t).1 i hi).1
  exact ((hb.stored_mid.trans hb.mid_top).trans hb.top_cur).term_le

/-! ## Provenance -/

/-- Member `i` has queued `x`, has it in its batch, or has sent it. -/
def Carries (t : ℕ) (i : NodeID) (x : Message) : Prop :=
  x ∈ Host.outgoing (C.node ev t i) (C.host ev t i).flush ∨ x ∈ C.net ev t ∧ x.fromNode = i

/-- At moment `t` a section of `i` speaks `x` while handling a tick, a proposal or a message
sent to it. -/
def SpokenAt (t : ℕ) (i : NodeID) (x : Message) : Prop :=
  (∃ sent, C.MovesAt ev t i sent) ∧
    ∃ m, (m = { type := .tick } ∨
        m ∈ C.net ev t ∧ m.toNode = i ∧ m ∈ (C.host ev t i).delivered (ev t).act) ∧
      Node.Spoken m ((C.node ev t i).maybeStepDownLocked m.term) (C.node ev (t + 1) i) x

instance (t : ℕ) (i : NodeID) (x : Message) : Decidable (C.Carries ev t i x) :=
  inferInstanceAs (Decidable (_ ∨ _))

/-- The messages node `i` queues at moment `t`. -/
def queued (t : ℕ) (i : NodeID) : List Message :=
  (C.node ev t i).queuedSince (C.node ev (t + 1) i)

/-- Node `i` queues `x` at moment `s`, and by moment `u` it has handed it to the transport,
not having lost it in between. -/
structure HandsOver (i : NodeID) (x : Message) (s u : ℕ) : Prop where
  queued : x ∈ C.queued ev s i
  lt : s < u
  onItsWay : ∀ w ≤ u, s < w → C.Carries ev w i x
  sent : x ∈ C.net ev u

variable {C ev}

lemma spokenAt_of_queued {t : ℕ} {i : NodeID} {x : Message} (hx : x ∈ C.queued ev t i) :
    C.SpokenAt ev t i x := by
  rcases C.step_cases ev t i with ⟨sent, hm⟩ | ⟨heq, -⟩
  · obtain ⟨m, hdel, hsp⟩ := hm.move.queued_cases hx
    refine ⟨⟨sent, hm⟩, m, hdel.imp_right fun hdel => ?_, hsp⟩
    obtain ⟨hnet, hto⟩ := hm.inbound m (Host.inbound_of_delivered hdel)
    exact ⟨hnet, hto, hdel⟩
  · rw [queued, node, node, heq, Node.queuedSince_self] at hx
    cases hx

lemma Carries.from_eq {t : ℕ} {i : NodeID} {x : Message} (hi : i ∈ C.peers)
    (h : C.Carries ev t i x) : x.fromNode = i := by
  have hb := ((C.balanced ev t).1 i hi).1
  rcases h with h | h
  · rcases Host.mem_outgoing.mp h with ⟨pm, hpm, rfl⟩ | h
    · exact hb.pending_from pm hpm
    · exact hb.batch_from x h
  · exact h.2

/-- A message on its way carries at most the current term. -/
lemma Carries.term_le {t : ℕ} {i : NodeID} {x : Message} (hi : i ∈ C.peers)
    (h : C.Carries ev t i x) : x.term ≤ (C.node ev t i).currentTerm := by
  obtain ⟨hb, ht⟩ := (C.balanced ev t).1 i hi
  rcases h with h | ⟨h, hfrom⟩
  · rcases Host.mem_outgoing.mp h with ⟨pm, hpm, rfl⟩ | h
    · exact ht.pending pm hpm
    · exact (ht.batch_mid x h).trans (hb.mid_top.trans hb.top_cur).term_le
  · exact (ht.sent x h (hfrom.trans hb.id.symm)).trans (C.stored_term_le ev hi t)

lemma carries_succ {t : ℕ} {i : NodeID} {x : Message} (h : C.Carries ev (t + 1) i x) :
    C.Carries ev t i x ∨ x ∈ C.queued ev t i := by
  rcases C.step_cases ev t i with ⟨sent, hm⟩ | ⟨heq, hnet⟩
  · have hcases : x ∈ Host.outgoing (C.node ev (t + 1) i) (C.host ev (t + 1) i).flush ∨
        x ∈ sent → C.Carries ev t i x ∨ x ∈ C.queued ev t i :=
      fun hx => (hm.move.outgoing_cases hx).imp_left .inl
    rcases h with h | ⟨h, hfrom⟩
    · exact hcases (.inl h)
    · rw [hm.net] at h
      rcases List.mem_append.mp h with h | h
      · exact .inl (.inr ⟨h, hfrom⟩)
      · exact hcases (.inr h)
  · left
    rcases h with h | ⟨h, hfrom⟩
    · rw [node, heq] at h
      exact .inl h
    · rcases hnet with hnet | ⟨j, sent, hj, hm⟩
      · rw [hnet] at h
        exact .inr ⟨h, hfrom⟩
      · rw [hm.net] at h
        rcases List.mem_append.mp h with h | h
        · exact .inr ⟨h, hfrom⟩
        · obtain ⟨msgs, hf⟩ := hm.move.sends h
          have hout : C.Carries ev t j x :=
            .inl (Host.mem_outgoing.mpr (.inr (by rw [hf]; exact List.mem_cons_self)))
          exact (hj ((hout.from_eq hm.mem).symm.trans hfrom)).elim

/-- Every message on its way was queued at some moment, and has been on its way since. -/
theorem provenance {t : ℕ} {i : NodeID} (hi : i ∈ C.peers) {x : Message}
    (h : C.Carries ev t i x) :
    ∃ s < t, x ∈ C.queued ev s i ∧ ∀ u, s < u → u ≤ t → C.Carries ev u i x := by
  induction t with
  | zero =>
      have hn := C.started_zero ev hi
      rcases h with h | ⟨h, -⟩
      · rcases Host.mem_outgoing.mp h with ⟨pm, hpm, -⟩ | h
        · rw [hn.pendingMsgs] at hpm
          cases hpm
        · rw [C.flush_zero ev hi] at h
          cases h
      · cases h
  | succ t ih =>
      rcases carries_succ h with hold | hsp
      · obtain ⟨s, hs, hsp, hall⟩ := ih hold
        refine ⟨s, by omega, hsp, fun u hu hut => ?_⟩
        rcases Nat.lt_or_ge t u with hlt | hge
        · obtain rfl : u = t + 1 := by omega
          exact h
        · exact hall u hu hge
      · refine ⟨t, by omega, hsp, fun u hu hut => ?_⟩
        obtain rfl : u = t + 1 := by omega
        exact h

/-- A node that has handed over a message never falls below the term it queued it in. -/
lemma HandsOver.term_le {i : NodeID} {x : Message} {s u : ℕ} (h : C.HandsOver ev i x s u)
    {w : ℕ} (hw : s < w) : x.term ≤ (C.node ev w i).currentTerm := by
  obtain ⟨⟨_, hm⟩, -⟩ := spokenAt_of_queued h.queued
  rcases Nat.lt_or_ge u w with hlt | hge
  · have hfrom := (h.onItsWay u le_rfl h.lt).from_eq hm.mem
    have hc : C.Carries ev w i x := .inr ⟨C.net_mono ev hlt.le h.sent, hfrom⟩
    exact hc.term_le hm.mem
  · exact (h.onItsWay w hge hw).term_le hm.mem

/-- A message in the network was queued by the member it names, whose term has never since
been lower than the message's. -/
theorem provenance_net {t : ℕ} {x : Message} (hx : x ∈ C.net ev t) :
    ∃ s < t, x ∈ C.queued ev s x.fromNode ∧
      ∀ u, s < u → x.term ≤ (C.node ev u x.fromNode).currentTerm := by
  have hi := C.net_from ev hx
  obtain ⟨s, hs, hsp, hall⟩ := provenance hi (.inr ⟨hx, rfl⟩)
  refine ⟨s, hs, hsp, fun u hu => ?_⟩
  rcases Nat.lt_or_ge t u with hlt | hge
  · have hc : C.Carries ev u x.fromNode x := .inr ⟨C.net_mono ev hlt.le hx, rfl⟩
    exact hc.term_le hi
  · exact (hall u hu hge).term_le hi

end Cluster

end ToyRaft
