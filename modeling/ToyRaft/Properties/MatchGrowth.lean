import ToyRaft.Properties.MatchIndex

/-!
# When `matchIndex` grows

A leader overwrites `matchIndex[p]` with whatever the latest success response of `p` reports.
That value is the length of the log of `p` at the moment the response was queued, so it goes
back when responses are handled out of order (`Overtaken`), and it goes back as well when the
log of `p` has become shorter in between.  Within one term the leader itself never makes it
shorter: what `p` reports is a prefix of the leader's log, unless it was a stale tail
(`AcceptsStaleTail`).  A leader of a later term may, and if `p` then forgets that term in a crash
(`ForgetsWrite`) it answers to the old leader again.

`matchIndex_grows` says that these are the only ways.
-/

namespace ToyRaft

namespace Host

variable {ρ : Type}

/-- How a move treats the `matchIndex` of a node that leads the same term before and after. -/
inductive LeaderMatch (h : Host ρ) (a : Act ρ) (n' : Node) : Prop
  | same (hmatch : n'.matchIndex = h.node.matchIndex)
  | reported (m : Message) (hdel : m ∈ h.delivered a) (ht : m.type = .appendEntriesResp)
      (hs : m.success = true) (hterm : m.term = h.node.currentTerm)
      (hmatch : n'.matchIndex = h.node.matchIndex.insert m.fromNode m.matchIndex)
  | proposed (hmatch : n'.matchIndex =
        h.node.matchIndex.insert h.node.id (h.node.log.lastIndex + 1))
      (hlast : n'.log.lastIndex = h.node.log.lastIndex + 1)

lemma Move.leaderMatch {cfg : Config} {h : Host ρ} {a : Act ρ} {n' : Node} {f' : Flush}
    {out : List Message} (hmove : Move cfg h a n' f' out) (hl : h.node.role = .leader)
    (hl' : n'.role = .leader) (hcur : n'.currentTerm = h.node.currentTerm) :
    LeaderMatch h a n' := by
  cases hmove with
  | @step m env n' ha hn hdel =>
      -- a leader that steps down does not come back to its term
      have heq : h.node.maybeStepDownLocked m.term = h.node := by
        rcases h.node.maybeStepDownLocked_cases m.term with ⟨-, heq⟩ | ⟨hlt, hr⟩
        · exact heq
        · have hle := (Node.follows_of_handled (fun _ _ => rfl) hn).precedes.term_le
          generalize h.node.maybeStepDownLocked m.term = n₀ at hr hle
          obtain ⟨_, _, _, _, _, _, rfl⟩ := hr
          have hle' : m.term ≤ n'.currentTerm := hle
          omega
      rw [heq] at hn
      cases Node.progressStep_of_handled hn with
      | same _ hmatch _ => exact .same hmatch
      | elected _ _ _ hrole => exact (hrole hl).elim
      | progress ht hs _ hterm _ hmatch =>
          rcases hdel with rfl | hdel
          · cases ht
          · exact .reported m hdel ht hs hterm hmatch
      | backoff _ _ _ hmatch => exact .same hmatch
  | @propose data env s =>
      obtain ⟨-, -, -, -, hlog, -, -, -, -, hmatch⟩ := (h.node.proposed data s).broadcast_frame
      refine .proposed hmatch ?_
      rw [hlog]
      simp [Node.proposed, Log.lastIndex, Log.append, Node.newEntry]
  | restart _ hn =>
      rw [hn.role] at hl'
      cases hl'
  | _ => exact .same rfl

/-- The term grows, or a restart takes it back to the one stored. -/
lemma Move.term {cfg : Config} {h : Host ρ} {a : Act ρ} {n' : Node} {f' : Flush}
    {out : List Message} (hmove : Move cfg h a n' f' out) :
    h.node.currentTerm ≤ n'.currentTerm ∨
      a.restarts = true ∧ n'.currentTerm = h.node.storage.hs.currentTerm := by
  cases hmove with
  | step _ hn => exact .inl (Node.follows_of_step (fun _ _ => rfl) hn).precedes.term_le
  | propose _ _ hs => exact .inl (Node.follows_of_proposed "" hs).precedes.term_le
  | restart ha hn hs =>
      refine .inr ⟨ha, ?_⟩
      rw [← (restart_hs hs).1, ← hn.hardState]
      rfl
  | _ => exact .inl le_rfl

/-- A move that changes the log and has an `AppendEntries` to handle handles it, and then has its
term; or it is a restart. -/
lemma Move.term_of_write {cfg : Config} {h : Host ρ} {a : Act ρ} {n' : Node} {f' : Flush}
    {out : List Message} (hmove : Move cfg h a n' f' out) {x : Message} (hx : x ∈ a.inbound)
    (ht : x.type = .appendEntries) (hne : n'.log ≠ h.node.log) :
    x ∈ h.delivered a ∧ x.term ≤ n'.currentTerm ∨
      a.restarts = true ∧ n'.currentTerm = h.node.storage.hs.currentTerm := by
  cases hmove with
  | @step m env n' ha hn hdel =>
      rcases ha with rfl | ⟨rfl, -⟩
      · obtain rfl : m = x := Option.some.inj hx
        rcases hdel with rfl | hdel
        · cases ht
        · have hle := (Node.follows_of_handled (fun _ _ => rfl) hn).precedes.term_le
          exact .inl ⟨hdel, (h.node.term_le_maybeStepDownLocked m.term).trans hle⟩
      · cases hx
  | propose ha =>
      subst ha
      cases hx
  | proposeFailed ha =>
      subst ha
      cases hx
  | restart ha hn hs =>
      refine .inr ⟨ha, ?_⟩
      rw [← (restart_hs hs).1, ← hn.hardState]
      rfl
  | _ => exact (hne rfl).elim

end Host

namespace Cluster

variable {ρ : Type} (C : Cluster) (ev : ℕ → Event ρ)

/-- At moment `t` node `L` leads and handles the success response `x` of its own term. -/
def HandlesAck (t : ℕ) (L : NodeID) (x : Message) : Prop :=
  C.Enabled (C.world ev t) (ev t) ∧ (ev t).node = L ∧
    x ∈ (C.host ev t L).delivered (ev t).act ∧ x.type = .appendEntriesResp ∧
    x.success = true ∧ (C.node ev t L).role = .leader ∧ x.term = (C.node ev t L).currentTerm

/-- At moment `t` a leader handles a success response although it has handled one of the same
peer and term that was queued later: no way to trace the two messages back to where they were
queued has them in order. -/
def Overtaken (t : ℕ) : Prop :=
  ∃ x ∈ (ev t).act.inbound, C.HandlesAck ev t (ev t).node x ∧
    ∃ t' < t, ∃ y ∈ (ev t').act.inbound, C.HandlesAck ev t' (ev t).node y ∧
      y.fromNode = x.fromNode ∧ y.term = x.term ∧
      ∀ s < t, C.HandsOver ev x.fromNode x s t →
        ∀ s' < t', C.HandsOver ev y.fromNode y s' t' → s < s'

/-- At moment `t` node `i` writes the entries of `x` to its log, or dies while it does. -/
def WritesAt (t : ℕ) (i : NodeID) (x : Message) : Prop :=
  C.Enabled (C.world ev t) (ev t) ∧ (ev t).node = i ∧ x ∈ (ev t).act.inbound ∧
    ((ev t).act.restarts = true ∨ x ∈ (C.host ev t i).delivered (ev t).act) ∧
    (C.node ev t i).Writes x

/-- At moment `t` a node restarts with a stored term below that of an `AppendEntries` that has
written to its log. -/
def ForgetsWrite (t : ℕ) : Prop :=
  C.Enabled (C.world ev t) (ev t) ∧ (ev t).act.restarts = true ∧
    ∃ w ≤ t, ∃ x ∈ (ev w).act.inbound, C.WritesAt ev w (ev t).node x ∧
      (C.node ev t (ev t).node).storage.hs.currentTerm < x.term

instance (t : ℕ) (L : NodeID) (x : Message) : Decidable (C.HandlesAck ev t L x) :=
  inferInstanceAs (Decidable (_ ∧ _))

instance (i : NodeID) (x : Message) (s u : ℕ) : Decidable (C.HandsOver ev i x s u) :=
  decidable_of_iff (x ∈ C.queued ev s i ∧ s < u ∧ (∀ w ≤ u, s < w → C.Carries ev w i x) ∧
      x ∈ C.net ev u)
    ⟨fun h => ⟨h.1, h.2.1, h.2.2.1, h.2.2.2⟩, fun h => ⟨h.queued, h.lt, h.onItsWay, h.sent⟩⟩

instance (t : ℕ) : Decidable (C.Overtaken ev t) :=
  inferInstanceAs (Decidable (∃ x ∈ (ev t).act.inbound, _ ∧ ∃ t' < t, ∃ y ∈ (ev t').act.inbound,
    _ ∧ _ ∧ _ ∧ ∀ s < t, _ → ∀ s' < t', _ → s < s'))

instance (t : ℕ) (i : NodeID) (x : Message) : Decidable (C.WritesAt ev t i x) :=
  inferInstanceAs (Decidable (_ ∧ _))

instance (t : ℕ) : Decidable (C.ForgetsWrite ev t) :=
  inferInstanceAs (Decidable (_ ∧ _ ∧ ∃ w ≤ t, ∃ x ∈ (ev w).act.inbound, _))

/-! ## What a peer has reported it keeps -/

/-- A log grows, or an `AppendEntries` is grafted on it, whose term the node then has unless it
restarts. -/
lemma written_cases (t : ℕ) (i : NodeID) :
    (C.node ev t i).log <+: (C.node ev (t + 1) i).log ∨
    ∃ x k, C.WritesAt ev t i x ∧ C.GraftsAt ev t i x k ∧
      (x.term ≤ (C.node ev (t + 1) i).currentTerm ∨ (ev t).act.restarts = true ∧
        (C.node ev (t + 1) i).currentTerm = (C.node ev t i).storage.hs.currentTerm) := by
  rcases C.step_cases ev t i with ⟨sent, hm⟩ | ⟨heq, -⟩
  · have hwf : ∀ m ∈ (ev t).act.inbound, m.type = .appendEntries → m.WellFormedAppend :=
      fun m hin => C.wellFormed ev (hm.inbound m hin).1
    have hshape := C.shaped ev hm.mem t
    by_cases hsame : (C.node ev (t + 1) i).log = (C.node ev t i).log
    · exact .inl (by rw [hsame])
    cases hm.move.log (Host.logFaultless_of_faultless hm.faultless) hwf hshape with
    | same h => exact (hsame h).elim
    | appended e _ _ _ _ h =>
        left
        rw [h]
        exact List.prefix_append _ _
    | grafted x k hin ht hterm hoffice hprev hw h =>
        obtain ⟨hnet, hto⟩ := hm.inbound x hin
        have hwhen := hm.move.term_of_write hin ht hsame
        refine .inr ⟨x, k, ⟨hm.enabled, hm.node, hin, ?_, ht, hterm, hprev, ?_⟩,
          ⟨hm.mem, hnet, ht, hto, hterm, hoffice, hprev, hw, h⟩,
          hwhen.imp_left And.right⟩
        · rcases hwhen with hdel | hres
          · exact .inr hdel.1
          · exact .inl hres.1
        · exact Node.firstConflictIndex_ne_zero hshape.contiguous (hwf x hin ht) hprev hw
  · rw [node, node, heq]
    exact .inl List.prefix_rfl

variable {C ev} in
/-- As long as nobody forgets a write, the term of a write is never fallen below again. -/
lemma WritesAt.term_le {w v : ℕ} {i : NodeID} {x : Message} (h : C.WritesAt ev w i x)
    (hafter : x.term ≤ (C.node ev (w + 1) i).currentTerm ∨ (ev w).act.restarts = true ∧
      (C.node ev (w + 1) i).currentTerm = (C.node ev w i).storage.hs.currentTerm)
    (hgood : ∀ u < v, ¬ C.ForgetsWrite ev u) (hwv : w < v) :
    x.term ≤ (C.node ev v i).currentTerm := by
  -- a restart at `u` comes back to a term that is not below `x.term`
  have hrestart : ∀ {u}, w ≤ u → u < v → C.Enabled (C.world ev u) (ev u) → (ev u).node = i →
      (ev u).act.restarts = true → x.term ≤ (C.node ev u i).storage.hs.currentTerm := by
    intro u hwu huv hen hnode hres
    by_contra hlt
    refine hgood u huv ⟨hen, hres, w, hwu, x, h.2.2.1, ?_⟩
    rw [hnode]
    exact ⟨h, not_le.mp hlt⟩
  induction v, hwv using Nat.le_induction with
  | base =>
      rcases hafter with hle | ⟨hres, heq⟩
      · exact hle
      · rw [heq]
        exact hrestart le_rfl (Nat.lt_succ_self w) h.1 h.2.1 hres
  | succ v hv ih =>
      have ih' := ih (fun u hu => hgood u (by omega)) fun hwu huv =>
        hrestart hwu (by omega)
      rcases C.step_cases ev v i with ⟨sent, hm⟩ | ⟨heq, -⟩
      · rcases hm.move.term with hle | ⟨hres, heq⟩
        · exact ih'.trans hle
        · have hstored := hrestart (by omega) (Nat.lt_succ_self v) hm.enabled hm.node hres
          exact hstored.trans heq.ge
      · rwa [node, heq]

section Kept

variable (hcard : 1 < C.peers.toFinset.card)
include hcard

/-- The log that a handed-over response reports is still there whenever the node is back in, or
still in, the term of the response. -/
lemma reported_kept {F : NodeID} {y : Message} {s v u : ℕ} (hy : C.HandsOver ev F y s u)
    (ht : y.type = .appendEntriesResp) (hs : y.success = true)
    (hstale : ¬ C.AcceptsStaleTail ev s) (hgood : ∀ w < v, ¬ C.ForgetsWrite ev w)
    (hsv : s < v) (hcur : (C.node ev v F).currentTerm = y.term) :
    (C.node ev (s + 1) F).log <+: (C.node ev v F).log := by
  obtain ⟨-, -, u₀, -, hlead, hshared⟩ := C.ack_sound ev hcard hy.queued ht hs hstale
  have hkept : ∀ w, s + 1 ≤ w → w ≤ v → (C.node ev (s + 1) F).log <+: (C.node ev w F).log := by
    intro w hw
    induction w, hw using Nat.le_induction with
    | base => exact fun _ => List.prefix_rfl
    | succ w hw ih =>
        intro hwv
        have hpre := ih (by omega)
        rcases C.written_cases ev w F with hgrow | ⟨x, k, hwrite, hgraft, hafter⟩
        · exact hpre.trans hgrow
        · have hT : y.term ≤ x.term := (hy.term_le (by omega)).trans hgraft.term_le
          have hx : x.term ≤ y.term := by
            rw [← hcur]
            exact hwrite.term_le hafter (fun u hu => hgood u hu) (by omega)
          -- the graft comes from the leader the response was for
          obtain ⟨t', -, hl, -, hg, -⟩ := hgraft.source
          rw [le_antisymm hx hT] at hl
          have hk := (C.execution ev hcard).shared_length_le_graft hlead hshared hpre hl hg
          have htake : (C.node ev (s + 1) F).log <+: (C.node ev w F).log.take k := by
            rw [List.prefix_iff_eq_take.mp hpre]
            exact List.take_prefix_take_left hk
          rcases hgraft.log with hlog | hlog
          · rw [hlog]
            exact htake.trans (List.prefix_append _ _)
          · rw [hlog]
            exact htake
  exact hkept v hsv le_rfl

/-- Responses of one peer and term that are handled in order report more and more. -/
lemma matchIndex_le_of_inOrder {F : NodeID} {x y : Message} {s s' t t' : ℕ}
    (hx : C.HandsOver ev F x s t) (hy : C.HandsOver ev F y s' t')
    (htx : x.type = .appendEntriesResp) (hsx : x.success = true)
    (hty : y.type = .appendEntriesResp) (hsy : y.success = true) (hterm : y.term = x.term)
    (hgood : ∀ u ≤ s, ¬ C.AcceptsStaleTail ev u ∧ ¬ C.ForgetsWrite ev u) (hle : s' ≤ s) :
    y.matchIndex ≤ x.matchIndex := by
  obtain ⟨hxm, hxt, -⟩ := C.ack_sound ev hcard hx.queued htx hsx (hgood s le_rfl).1
  obtain ⟨hym, -⟩ := C.ack_sound ev hcard hy.queued hty hsy (hgood s' hle).1
  rw [hxm, hym]
  refine (C.reported_kept ev hcard hy hty hsy (hgood s' hle).1 (v := s + 1)
    (fun w hw => (hgood w (by omega)).2) (by omega) ?_).length_le
  rw [← hxt, hterm]

end Kept

/-! ## The leader's side -/

lemma ack_dest_ne {t : ℕ} {x : Message} (hx : x ∈ C.net ev t) (ht : x.type = .appendEntriesResp)
    (hs : x.success = true) : x.fromNode ≠ x.toNode := by
  obtain ⟨s, -, hq, -⟩ := provenance_net hx
  obtain ⟨-, m, hm, hsp⟩ := spokenAt_of_queued hq
  obtain ⟨hp, -, -, hdest, -⟩ := hsp.of_ack ht hs
  rcases hm with rfl | ⟨hnet, hto, -⟩
  · cases hp.type
  · obtain ⟨u, -, hb⟩ := C.builtAt ev hnet hp.type
    intro heq
    exact hb.dest (by rw [hto, heq, hdest])

variable {C ev} in
lemma HandlesAck.inbound {t : ℕ} {L : NodeID} {x : Message} (h : C.HandlesAck ev t L x) :
    x ∈ C.net ev t ∧ x.toNode = L ∧ x ∈ (ev t).act.inbound := by
  obtain ⟨hen, rfl, hdel, -⟩ := h
  have hin := Host.inbound_of_delivered hdel
  exact ⟨(hen.2.2 x hin).1, (hen.2.2 x hin).2, hin⟩

lemma leaderMatch_cases {t : ℕ} {L : NodeID} {T : ℕ} (hL : C.LeaderAt ev t L T)
    (hL' : C.LeaderAt ev (t + 1) L T) :
    (C.node ev (t + 1) L).matchIndex = (C.node ev t L).matchIndex ∨
    (∃ x, C.HandlesAck ev t L x ∧ x.term = T ∧ (C.node ev (t + 1) L).matchIndex =
      (C.node ev t L).matchIndex.insert x.fromNode x.matchIndex) ∨
    (C.node ev (t + 1) L).matchIndex =
        (C.node ev t L).matchIndex.insert L ((C.node ev t L).log.lastIndex + 1) ∧
      (C.node ev (t + 1) L).log.lastIndex = (C.node ev t L).log.lastIndex + 1 := by
  rcases C.step_cases ev t L with ⟨sent, hm⟩ | ⟨heq, -⟩
  · cases hm.move.leaderMatch hL.1 hL'.1 (hL'.2.trans hL.2.symm) with
    | same hmatch => exact .inl hmatch
    | reported x hdel ht hs hterm hmatch =>
        exact .inr (.inl ⟨x, ⟨hm.enabled, hm.node, hdel, ht, hs, hL.1, hterm⟩,
          hterm.trans hL.2, hmatch⟩)
    | proposed hmatch hlast =>
        rw [show (C.host ev t L).node.id = L from C.node_id ev hm.mem t] at hmatch
        exact .inr (.inr ⟨hmatch, hlast⟩)
  · left
    rw [node, heq]
    rfl

lemma Tenure.matchIndex_zero {L : NodeID} {T tc t₀ t : ℕ} (h : C.Tenure ev L T tc t₀ t)
    {p : NodeID} (hp : p ∈ C.peers) : (C.node ev t₀ L).matchIndex.get p = 0 := by
  have hlead := h.leader t₀ le_rfl h.le
  obtain ⟨t₁, rfl⟩ : ∃ t₁, t₀ = t₁ + 1 := ⟨t₀ - 1, by have := h.tc_lt; omega⟩
  have hbefore : ¬ C.LeaderAt ev t₁ L T := by
    rintro ⟨hrole, hcur⟩
    rcases Nat.lt_or_ge tc t₁ with hlt | hge
    · exact h.candidate t₁ hlt (Nat.lt_succ_self t₁) hrole
    · have hfresh := h.fresh
      have := h.tc_lt
      rw [show tc = t₁ by omega, hcur] at hfresh
      exact lt_irrefl _ hfresh
  have hL := hlead.mem
  rcases C.step_cases ev t₁ L with ⟨sent, hm⟩ | ⟨heq, -⟩
  · cases hm.move.matchIndex with
    | same _ hrole =>
        obtain ⟨hl, hcur⟩ := hrole hlead.1
        exact (hbefore ⟨hl, hcur.symm.trans hlead.2⟩).elim
    | restart _ hrole =>
        rw [hlead.1] at hrole
        cases hrole
    | elected hmatch =>
        rw [hmatch]
        exact PeerMap.get_foldl_insert _ _ _ ((C.mem_node_peers ev hL t₁).mpr hp)
    | reported m _ _ _ _ hl hcur => exact (hbefore ⟨hl, hcur.symm.trans hlead.2⟩).elim
    | proposed k hl hcur => exact (hbefore ⟨hl, hcur.symm.trans hlead.2⟩).elim
  · refine (hbefore ?_).elim
    rw [LeaderAt, node, heq] at hlead
    exact hlead

/-- What a leader has recorded for another member it has been told in a response it handled. -/
lemma recorded_by {t : ℕ} {L F : NodeID} {T : ℕ} (hL : C.LeaderAt ev t L T) (hF : F ∈ C.peers)
    (hne : F ≠ L) :
    (C.node ev t L).matchIndex.get F = 0 ∨
      ∃ t' < t, ∃ y, C.HandlesAck ev t' L y ∧ y.fromNode = F ∧ y.term = T ∧
        y.matchIndex = (C.node ev t L).matchIndex.get F := by
  obtain ⟨tc, t₀, hten⟩ := C.tenure ev hL
  have hall : ∀ u, t₀ ≤ u → u ≤ t → (C.node ev u L).matchIndex.get F = 0 ∨
      ∃ t' < u, ∃ y, C.HandlesAck ev t' L y ∧ y.fromNode = F ∧ y.term = T ∧
        y.matchIndex = (C.node ev u L).matchIndex.get F := by
    intro u hu
    induction u, hu using Nat.le_induction with
    | base => exact fun _ => .inl (hten.matchIndex_zero C ev hF)
    | succ u hu ih =>
        intro hut
        have hkept : (C.node ev (u + 1) L).matchIndex.get F =
            (C.node ev u L).matchIndex.get F →
            (C.node ev (u + 1) L).matchIndex.get F = 0 ∨
              ∃ t' < u + 1, ∃ y, C.HandlesAck ev t' L y ∧ y.fromNode = F ∧ y.term = T ∧
                y.matchIndex = (C.node ev (u + 1) L).matchIndex.get F := by
          intro hget
          rw [hget]
          refine (ih (by omega)).imp_right fun ⟨t', ht', hy⟩ => ⟨t', by omega, hy⟩
        rcases C.leaderMatch_cases ev (hten.leader u hu (by omega))
          (hten.leader (u + 1) (by omega) hut) with hmatch | ⟨x, hx, hterm, hmatch⟩ | ⟨hmatch, -⟩
        · exact hkept (by rw [hmatch])
        · by_cases hFx : F = x.fromNode
          · refine .inr ⟨u, Nat.lt_succ_self u, x, hx, hFx.symm, hterm, ?_⟩
            rw [hmatch, hFx, PeerMap.get_insert]
          · exact hkept (by rw [hmatch, PeerMap.get_insert_ne _ _ hFx])
        · exact hkept (by rw [hmatch, PeerMap.get_insert_ne _ _ hne])
  exact hall t hten.le le_rfl

/-- A leader only appends to its log. -/
lemma leader_log_succ {t : ℕ} {L : NodeID} {T : ℕ} (hL' : C.LeaderAt ev (t + 1) L T) :
    (C.node ev t L).log <+: (C.node ev (t + 1) L).log := by
  rcases C.written_cases ev t L with hgrow | ⟨x, k, -, hgraft, -⟩
  · exact hgrow
  · -- nobody else leads the term in which it stays in office
    obtain ⟨u, -, hl, hne, -⟩ := hgraft.source
    have hterm : x.term = T := by
      rw [← hgraft.office (by rw [hL'.1]; decide)]
      exact hL'.2
    rw [hterm] at hl
    exact (hne (C.leader_unique ev hl hL')).elim

lemma own_matchIndex_le {t : ℕ} {L : NodeID} {T : ℕ} (hL : C.LeaderAt ev t L T) :
    (C.node ev t L).matchIndex.get L ≤ (C.node ev t L).log.lastIndex := by
  obtain ⟨tc, t₀, hten⟩ := C.tenure ev hL
  have hmem := hL.mem
  have hall : ∀ u, t₀ ≤ u → u ≤ t →
      (C.node ev u L).matchIndex.get L ≤ (C.node ev u L).log.lastIndex := by
    intro u hu
    induction u, hu using Nat.le_induction with
    | base =>
        intro _
        rw [hten.matchIndex_zero C ev hmem]
        exact Nat.zero_le _
    | succ u hu ih =>
        intro hut
        have hL₁ := hten.leader (u + 1) (by omega) hut
        have hgrow : (C.node ev u L).log.lastIndex ≤ (C.node ev (u + 1) L).log.lastIndex := by
          rw [Log.lastIndex_eq_length (C.shaped ev hmem u).contiguous,
            Log.lastIndex_eq_length (C.shaped ev hmem (u + 1)).contiguous]
          exact (C.leader_log_succ ev hL₁).length_le
        have ih' := (ih (by omega)).trans hgrow
        rcases C.leaderMatch_cases ev (hten.leader u hu (by omega)) hL₁ with
          hmatch | ⟨x, hx, -, hmatch⟩ | ⟨hmatch, hlast⟩
        · rwa [hmatch]
        · obtain ⟨hnet, hto, -⟩ := hx.inbound
          have hne := C.ack_dest_ne ev hnet hx.2.2.2.1 hx.2.2.2.2.1
          rw [hto] at hne
          rwa [hmatch, PeerMap.get_insert_ne _ _ hne.symm]
        · rw [hmatch, PeerMap.get_insert, hlast]
  exact hall t hten.le le_rfl

variable {C ev} in
/-- A response that is not overtaken was queued no earlier than any other the leader has handled
from the same peer in the same term. -/
lemma HandlesAck.inOrder {t t' : ℕ} {L : NodeID} {x y : Message} (hx : C.HandlesAck ev t L x)
    (hy : C.HandlesAck ev t' L y) (ht : t' < t) (hfrom : y.fromNode = x.fromNode)
    (hterm : y.term = x.term) (hgood : ¬ C.Overtaken ev t) :
    ∃ s < t, ∃ s' ≤ s, C.HandsOver ev x.fromNode x s t ∧ C.HandsOver ev x.fromNode y s' t' := by
  by_contra hno
  refine hgood ⟨x, hx.inbound.2.2, ?_, t', ht, y, hy.inbound.2.2, ?_, hfrom, hterm, ?_⟩
  · rw [hx.2.1]
    exact hx
  · rw [hx.2.1]
    exact hy
  · intro s hs hxs s' _ hys
    rw [hfrom] at hys
    by_contra hlt
    exact hno ⟨s, hs, s', not_lt.mp hlt, hxs, hys⟩

lemma matchIndex_le_succ {t : ℕ} {L p : NodeID} {T : ℕ} (hL : C.LeaderAt ev t L T)
    (hL' : C.LeaderAt ev (t + 1) L T) (hp : p ∈ C.peers)
    (hgood : ∀ u < t, ¬ C.AcceptsStaleTail ev u ∧ ¬ C.ForgetsWrite ev u)
    (horder : ¬ C.Overtaken ev t) :
    (C.node ev t L).matchIndex.get p ≤ (C.node ev (t + 1) L).matchIndex.get p := by
  rcases C.leaderMatch_cases ev hL hL' with hmatch | ⟨x, hx, hxT, hmatch⟩ | ⟨hmatch, -⟩
  · rw [hmatch]
  · obtain ⟨hnet, hto, -⟩ := hx.inbound
    have hne := C.ack_dest_ne ev hnet hx.2.2.2.1 hx.2.2.2.2.1
    rw [hto] at hne
    by_cases hpx : p = x.fromNode
    · rw [hmatch, hpx, PeerMap.get_insert]
      rcases C.recorded_by ev hL (hpx ▸ hp) hne with hzero | ⟨t', ht', y, hy, hfrom, hyT, hval⟩
      · rw [hzero]
        exact Nat.zero_le _
      · have hcard : 1 < C.peers.toFinset.card := Finset.one_lt_card.mpr
          ⟨x.fromNode, List.mem_toFinset.mpr (hpx ▸ hp), L, List.mem_toFinset.mpr hL.mem, hne⟩
        obtain ⟨s, hs, s', hs', hxs, hys⟩ :=
          hx.inOrder hy ht' hfrom (hyT.trans hxT.symm) horder
        rw [← hval]
        exact C.matchIndex_le_of_inOrder ev hcard hxs hys hx.2.2.2.1 hx.2.2.2.2.1 hy.2.2.2.1
          hy.2.2.2.2.1 (hyT.trans hxT.symm) (fun u hu => hgood u (by omega)) hs'
    · rw [hmatch, PeerMap.get_insert_ne _ _ hpx]
  · by_cases hpL : p = L
    · rw [hmatch, hpL, PeerMap.get_insert]
      exact (C.own_matchIndex_le ev hL).trans (Nat.le_succ _)
    · rw [hmatch, PeerMap.get_insert_ne _ _ hpL]

/-- **`matchIndex` grows.**  During one uninterrupted leadership no recorded value decreases,
as long as responses are not overtaken, no peer acknowledges a stale tail, and none forgets in a
crash the term of a leader that has written to its log. -/
theorem matchIndex_grows {s t : ℕ} {L p : NodeID} {T : ℕ} (hp : p ∈ C.peers) (hst : s ≤ t)
    (hL : ∀ u, s ≤ u → u ≤ t → C.LeaderAt ev u L T)
    (hgood : ∀ u < t, ¬ C.Overtaken ev u ∧ ¬ C.AcceptsStaleTail ev u ∧ ¬ C.ForgetsWrite ev u) :
    (C.node ev s L).matchIndex.get p ≤ (C.node ev t L).matchIndex.get p := by
  induction t, hst using Nat.le_induction with
  | base => exact le_rfl
  | succ t hst ih =>
      refine (ih (fun u hsu hut => hL u hsu (by omega)) fun u hu => hgood u (by omega)).trans ?_
      exact C.matchIndex_le_succ ev (hL t hst (Nat.le_succ t)) (hL (t + 1) (by omega) le_rfl) hp
        (fun u hu => (hgood u (by omega)).2) (hgood t (Nat.lt_succ_self t)).1

/-- Node `a` has replicated one entry to `b` and then another one, and the two responses arrive
in the order given. -/
def twoAcks (first second : ℕ) : List (Event Unit) :=
  elect 1 "a" "b" 0 0 ++ propose "a" [1] ++ propose "a" [2] ++ flush "a" 8 ++
    deliver (appendRequest 1 "a" "b" 0 0 [⟨1, 1, [1]⟩] 0) ++ flush "b" 1 ++
    deliver (appendRequest 1 "a" "b" 0 0 [⟨1, 1, [1]⟩, ⟨1, 2, [2]⟩] 0) ++ flush "b" 1 ++
    deliver (appendResponse 1 "b" "a" true first) ++
    deliver (appendResponse 1 "b" "a" true second)

theorem matchIndex_grows_twoAcks :
    (trio.node (Machine.schedule idle (twoAcks 1 2)) 43 "a").matchIndex.get "b" = 1 ∧
      (trio.node (Machine.schedule idle (twoAcks 1 2)) 43 "a").matchIndex.get "b" ≤
        (trio.node (Machine.schedule idle (twoAcks 1 2)) 44 "a").matchIndex.get "b" :=
  ⟨by decide +kernel, trio.matchIndex_grows (Machine.schedule idle (twoAcks 1 2)) (T := 1)
    (by decide) (by decide)
    (fun u hu hut => by
      obtain rfl | rfl : u = 43 ∨ u = 44 := by omega
      all_goals decide +kernel)
    (by decide +kernel)⟩

/-- The later response arrives first, and `matchIndex` goes back from two to one while the leader
stays in office. -/
theorem matchIndex_goes_back :
    trio.LeaderAt (Machine.schedule idle (twoAcks 2 1)) 43 "a" 1 ∧
      trio.LeaderAt (Machine.schedule idle (twoAcks 2 1)) 44 "a" 1 ∧
      (trio.node (Machine.schedule idle (twoAcks 2 1)) 43 "a").matchIndex.get "b" = 2 ∧
      (trio.node (Machine.schedule idle (twoAcks 2 1)) 44 "a").matchIndex.get "b" = 1 := by
  decide +kernel

end Cluster

end ToyRaft
