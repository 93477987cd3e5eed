import ToyRaft.Properties.Redelivery

/-!
# Slow probing converges

A leader and a follower of one term exchange `AppendEntries` and responses in lockstep
(`exchange`).  Each refusal moves the leader's probe one index down, and the probe in front of
the first entry is never refused, so from `nextIndex = k` the follower has adopted the leader's
log after `k` rounds.  What a round preserves is in `exchange_spec`: either the follower's log
begins with the leader's, or the follower is as receptive as before and the probe went down.
-/

namespace ToyRaft

namespace Node

/-- One round: the leader sends, the follower handles what was sent, and the leader handles what
the follower answers. -/
def exchange (env : Env) (c : Node × Node) : Option (Node × Node) :=
  let n := c.1.sendAppendEntriesLocked c.2.id
  (c.2.deliverAll ((c.1.queuedSince n).map fun m => (env, m))).bind fun F =>
    (n.deliverAll ((c.2.queuedSince F).map fun m => (env, m))).map fun n => (n, F)

/-- The pair after a number of rounds. -/
def rounds (env : ℕ → Env) (c : Node × Node) : ℕ → Option (Node × Node)
  | 0 => some c
  | r + 1 => (rounds env c r).bind (exchange (env r))

/-- A running leader of term `T` with log `L` whose probe of `peer` has not run off the front. -/
structure Leads (n : Node) (T : ℕ) (L : Log) (peer : NodeID) : Prop where
  started : n.started = true
  role : n.role = .leader
  term : n.currentTerm = T
  log : n.log = L
  next_pos : 1 ≤ n.nextIndex.get peer

/-- What is left to do for a follower: nothing, or to bring a receptive one in line. -/
def Approaches (F : Node) (T : ℕ) (L : Log) : Prop :=
  F.Attends T ∧ (L <+: F.log ∨ F.Receptive T L)

/-! ## The leader's side -/

lemma queuedSince_sendAppendEntriesLocked (n : Node) (peer : NodeID) :
    n.queuedSince (n.sendAppendEntriesLocked peer) = [n.appendEntriesFor peer] := by
  rw [queuedSince, sendAppendEntriesLocked, queueMsgLocked, List.drop_left]
  rfl

lemma Leads.send {n : Node} {T : ℕ} {L : Log} {peer : NodeID} (h : n.Leads T L peer) :
    (n.sendAppendEntriesLocked peer).Leads T L peer :=
  ⟨h.started, h.role, h.term, h.log, h.next_pos⟩

/-- A response of the leader's term keeps the leader and its log, and a refusal moves the probe
down unless it stands in front of the first entry. -/
lemma Leads.step_response {n : Node} {T : ℕ} {L : Log} {x : Message}
    (h : n.Leads T L x.fromNode) (htype : x.type = .appendEntriesResp) (hterm : x.term = T)
    (env : Env) :
    ∃ n', n.step env x = some (n', none) ∧ n'.Leads T L x.fromNode ∧
      (x.success = false → 1 < n.nextIndex.get x.fromNode →
        n'.nextIndex.get x.fromNode + 1 = n.nextIndex.get x.fromNode) := by
  have hlt : ¬ n.currentTerm < x.term := by rw [hterm, h.term]; exact lt_irrefl T
  have hstep : n.step env x = some (n.handleAppendEntriesRespLocked x, none) := by
    rw [step, h.started, stepLocked, if_neg hlt, dispatch, htype]
    rfl
  have hmine : ¬ (n.role ≠ .leader ∨ x.term ≠ n.currentTerm) := by
    simp [h.role, hterm, h.term]
  refine ⟨_, hstep, ?_⟩
  rw [handleAppendEntriesRespLocked, if_neg hmine]
  cases hsucc : x.success with
  | true =>
      obtain ⟨c, hs, -, heq⟩ := (n.progressed x).maybeAdvanceCommitLocked_eq
      rw [progressed] at heq
      rw [if_pos rfl, heq]
      refine ⟨⟨h.started, h.role, h.term, h.log, ?_⟩, fun hno => by cases hno⟩
      show 1 ≤ PeerMap.get (AList.insert x.fromNode (x.matchIndex + 1) n.nextIndex) x.fromNode
      rw [PeerMap.get_insert]
      omega
  | false =>
      rw [if_neg (by simp)]
      by_cases hnext : 1 < n.nextIndex.get x.fromNode
      · rw [if_pos hnext]
        have hget : PeerMap.get (AList.insert x.fromNode (n.nextIndex.get x.fromNode - 1)
            n.nextIndex) x.fromNode = n.nextIndex.get x.fromNode - 1 := PeerMap.get_insert _ _ _
        refine ⟨⟨h.started, h.role, h.term, h.log, ?_⟩, fun _ _ => ?_⟩
        · show 1 ≤ PeerMap.get _ _
          rw [hget]
          omega
        · show PeerMap.get _ _ + 1 = _
          rw [hget]
          omega
      · rw [if_neg hnext]
        exact ⟨h, fun _ hlt' => (hnext hlt').elim⟩

/-! ## The follower's side -/

/-- A follower's answer to a probe: one response of its term, and a log that begins with `L`
unless the probe was refused and nothing has changed. -/
lemma Approaches.step_probe {F : Node} {T : ℕ} {L : Log} {m : Message} {env : Env}
    (h : F.Approaches T L) (hL : L.Contiguous) (hm : m.Replicates T L)
    (hfault : env.truncateErr = false ∧ env.appendErr = false) :
    ∃ F' x, F.step env m = some (F', none) ∧ F.queuedSince F' = [x] ∧
      x.type = .appendEntriesResp ∧ x.term = T ∧ x.fromNode = F.id ∧ F'.id = F.id ∧
      F'.Approaches T L ∧ (L <+: F.log → L <+: F'.log) ∧
      (L <+: F'.log ∨ x.success = false ∧
        F.log.hasEntry m.prevLogIndex m.prevLogTerm = false) := by
  obtain ⟨hF, htodo⟩ := h
  cases hprev : F.log.hasEntry m.prevLogIndex m.prevLogTerm with
  | false =>
      refine ⟨_, _, hF.step_refused hm hprev, queuedSince_reply (by rfl) .., rfl, hF.term, rfl,
        rfl, ⟨⟨hF.started, hF.term, hF.contiguous⟩, ?_⟩, fun hpre => hpre, .inr ⟨rfl, rfl⟩⟩
      exact htodo.imp_right fun hR => ⟨⟨hF.started, hF.term, hF.contiguous⟩, hR.mirrored, hR.pos,
        hR.matching, hR.agrees⟩
  | true =>
      obtain ⟨l, s, hpre, hl, hstep⟩ : ∃ l s, L <+: l ∧ Log.Contiguous l ∧ F.step env m =
          some (acknowledgeAppendEntries { F.heard m with log := l, storage := s } m, none) := by
        rcases htodo with hpre | hR
        · exact ⟨F.log, F.storage, hpre, hF.contiguous,
            hF.step_accepted hm hprev (firstConflictIndex_eq_zero hF.contiguous hm hpre)⟩
        · obtain ⟨l, s, hadopts, hstep⟩ := hR.step_adopts hL hm hfault hprev
          exact ⟨l, s, hadopts.isPrefix, hadopts.contiguous hF.contiguous hL, hstep⟩
      obtain ⟨c, hs, heq, -⟩ :=
        acknowledgeAppendEntries_eq { F.heard m with log := l, storage := s } m
      rw [heq] at hstep
      exact ⟨_, _, hstep, queuedSince_reply (by rfl) .., rfl, hF.term, rfl, rfl,
        ⟨⟨hF.started, hF.term, hl⟩, .inl hpre⟩, fun _ => hpre, .inl hpre⟩

/-! ## Rounds -/

section Rounds

variable {T : ℕ} {L : Log}

lemma exchange_spec {n F : Node} {env : Env} (hn : n.Leads T L F.id) (hF : F.Approaches T L)
    (hL : L.Contiguous) (hfault : env.truncateErr = false ∧ env.appendErr = false) :
    ∃ n' F', exchange env (n, F) = some (n', F') ∧ F'.id = F.id ∧ n'.Leads T L F.id ∧
      F'.Approaches T L ∧ (L <+: F.log → L <+: F'.log) ∧
      (L <+: F'.log ∨ n'.nextIndex.get F.id + 1 = n.nextIndex.get F.id) := by
  have hnext := hn.next_pos
  have hm : (n.appendEntriesFor F.id).Replicates T L := by
    have hm := appendEntriesFor_replicates (n := n) (hn.log ▸ hL) (p := F.id)
      (.inl (by omega))
    rwa [hn.term, hn.log] at hm
  obtain ⟨F', x, hstep, hx, htype, hterm, hfrom, hid, hF', hstays, hdone⟩ :=
    hF.step_probe hL hm hfault
  have hsent : (n.sendAppendEntriesLocked F.id).Leads T L x.fromNode := by
    rw [hfrom]
    exact hn.send
  obtain ⟨n', hresp, hn', hback⟩ := hsent.step_response htype hterm env
  rw [hfrom] at hn' hback
  refine ⟨n', F', ?_, hid, hn', hF', hstays, ?_⟩
  · simp only [exchange, queuedSince_sendAppendEntriesLocked, List.map_cons, List.map_nil,
      deliverAll, hstep, hx, hresp, Option.bind_some, Option.map_some]
  · rcases hdone with hpre | ⟨hfail, hprev⟩
    · exact .inl hpre
    · refine .inr (hback hfail ?_)
      -- the probe in front of the first entry is not refused
      by_contra hone
      have hone' : n.nextIndex.get F.id = 1 := by
        have : ¬ 1 < n.nextIndex.get F.id := hone
        omega
      have hzero : (n.appendEntriesFor F.id).prevLogIndex = 0 := by
        show prevIndexOf (n.nextIndex.get F.id) = 0
        rw [hone', prevIndexOf, if_neg one_ne_zero]
      rw [hm.prevTerm, hzero] at hprev
      cases hprev

/-- What a number of rounds does: the follower's log begins with `L`, or every round has moved
the probe down. -/
lemma rounds_spec {n F : Node} {env : ℕ → Env} (hn : n.Leads T L F.id) (hF : F.Approaches T L)
    (hL : L.Contiguous)
    (hfault : ∀ r, (env r).truncateErr = false ∧ (env r).appendErr = false) (r : ℕ) :
    ∃ n' F', rounds env (n, F) r = some (n', F') ∧ F'.id = F.id ∧ n'.Leads T L F.id ∧
      F'.Approaches T L ∧
      (L <+: F'.log ∨ n'.nextIndex.get F.id + r = n.nextIndex.get F.id) := by
  induction r with
  | zero => exact ⟨n, F, rfl, rfl, hn, hF, .inr rfl⟩
  | succ r ih =>
      obtain ⟨n₁, F₁, hrun, hid, hn₁, hF₁, hprog⟩ := ih
      obtain ⟨n₂, F₂, hex, hid', hn₂, hF₂, hstays, hround⟩ :=
        exchange_spec (hid ▸ hn₁) hF₁ hL (hfault r)
      rw [hid] at hid' hn₂ hround
      refine ⟨n₂, F₂, by rw [rounds, hrun]; exact hex, hid', hn₂, hF₂, ?_⟩
      rcases hprog with hpre | hnext
      · exact .inl (hstays hpre)
      · exact hround.imp_right fun hdown => by omega

lemma rounds_stays {n F n₀ F₀ : Node} {env : ℕ → Env} (hn : n.Leads T L F.id)
    (hF : F.Approaches T L) (hL : L.Contiguous)
    (hfault : ∀ r, (env r).truncateErr = false ∧ (env r).appendErr = false) {r₀ : ℕ}
    (h₀ : rounds env (n, F) r₀ = some (n₀, F₀)) (hpre : L <+: F₀.log) {r : ℕ} (hr : r₀ ≤ r) :
    ∃ n' F', rounds env (n, F) r = some (n', F') ∧ L <+: F'.log := by
  induction r, hr using Nat.le_induction with
  | base => exact ⟨n₀, F₀, h₀, hpre⟩
  | succ r hr ih =>
      obtain ⟨n₁, F₁, hrun, hpre₁⟩ := ih
      obtain ⟨n₁', F₁', hrun', hid, hn₁, hF₁, -⟩ := rounds_spec hn hF hL hfault r
      obtain ⟨rfl, rfl⟩ := Prod.mk.inj (Option.some.inj (hrun.symm.trans hrun'))
      obtain ⟨n₂, F₂, hex, -, -, -, hstays, -⟩ := exchange_spec (hid ▸ hn₁) hF₁ hL (hfault r)
      exact ⟨n₂, F₂, by rw [rounds, hrun]; exact hex, hstays hpre₁⟩

end Rounds

/-- **Slow probing converges.**  In lockstep without loss, from any `nextIndex` `k ≥ 1`, the
follower's log begins with the leader's after at most `k` rounds and ever after, and the leader's
`nextIndex` for the follower is at least one throughout. -/
theorem probing_converges {n F : Node} {env : ℕ → Env} (hstarted : n.started = true)
    (hrole : n.role = .leader) (hlog : n.log.Contiguous)
    (hnext : 1 ≤ n.nextIndex.get F.id) (hF : F.Receptive n.currentTerm n.log)
    (hfault : ∀ r, (env r).truncateErr = false ∧ (env r).appendErr = false) :
    (∀ r, ∃ n' F', rounds env (n, F) r = some (n', F') ∧ n'.log = n.log ∧
      1 ≤ n'.nextIndex.get F.id ∧ (n.nextIndex.get F.id ≤ r → n.log <+: F'.log)) ∧
    ∀ r₀ n₀ F₀, rounds env (n, F) r₀ = some (n₀, F₀) → n.log <+: F₀.log → ∀ r, r₀ ≤ r →
      ∃ n' F', rounds env (n, F) r = some (n', F') ∧ n.log <+: F'.log := by
  have hn : n.Leads n.currentTerm n.log F.id := ⟨hstarted, hrole, rfl, rfl, hnext⟩
  have hF' : F.Approaches n.currentTerm n.log := ⟨hF.toAttends, .inr hF⟩
  refine ⟨fun r => ?_, fun r₀ n₀ F₀ h₀ hpre r hr =>
    rounds_stays hn hF' hlog hfault h₀ hpre hr⟩
  obtain ⟨n', F', hrun, -, hn', -, hprog⟩ := rounds_spec hn hF' hlog hfault r
  have hpos := hn'.next_pos
  refine ⟨n', F', hrun, hn'.log, hpos, fun hk => ?_⟩
  rcases hprog with hpre | hdown
  · exact hpre
  · omega

theorem probing_converges_diverged :
    ∃ n' F', rounds (fun _ => {})
        ({ replicating [⟨1, 1, []⟩, ⟨2, 2, [7]⟩] with
          nextIndex := (∅ : PeerMap).insert "b" 3, started := true }, diverged) 3 =
        some (n', F') ∧
      [⟨1, 1, []⟩, ⟨2, 2, [7]⟩] <+: F'.log := by
  have hlog : Log.Contiguous [⟨1, 1, []⟩, ⟨2, 2, [7]⟩] :=
    Log.contiguousFrom_cons.mpr ⟨rfl, Log.contiguousFrom_singleton rfl⟩
  have hnext : PeerMap.get ((∅ : PeerMap).insert "b" 3) "b" = 3 := PeerMap.get_insert _ _ _
  have hpos : 1 ≤ PeerMap.get ((∅ : PeerMap).insert "b" 3) "b" := by rw [hnext]; omega
  have hfault : ∀ _ : ℕ, ({} : Env).truncateErr = false ∧ ({} : Env).appendErr = false :=
    fun _ => ⟨rfl, rfl⟩
  obtain ⟨n', F', hrun, -, -, hpre⟩ := (probing_converges
    (n := { replicating [⟨1, 1, []⟩, ⟨2, 2, [7]⟩] with
      nextIndex := (∅ : PeerMap).insert "b" 3, started := true })
    rfl rfl hlog hpos diverged_receptive hfault).1 3
  exact ⟨n', F', hrun, hpre hnext.le⟩

end Node

end ToyRaft
