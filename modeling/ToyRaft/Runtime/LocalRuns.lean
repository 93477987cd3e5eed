import ToyRaft.Runtime.Moves

/-!
# What a node can do on its own

A node that is up and whose driver stands between two flushes (`Rests`) can flush what it has
queued (`flush_goes`), and, unless it leads, let its election timer run out (`campaign_goes`).
Neither takes a message from the network.
-/

namespace ToyRaft

/-- The act meets no storage fault and takes no message from the network. -/
def Act.Local {ρ : Type} (a : Act ρ) : Prop := a.faultless = true ∧ a.inbound = none

namespace Node

/-- What the next flush hands to the transport. -/
def outbox (n : Node) : List Message :=
  (n.pendingMsgs.filter fun pm => pm.epoch = n.stepDownEpoch).map PendingMsg.msg

/-- The node after a flush. -/
def flushed (n : Node) : Node :=
  { n with
    pendingMsgs := []
    pendingHS := none
    storage := n.pendingHS.elim n.storage n.storage.saveHardState }

/-- A message that is not of a later term goes straight to its handler. -/
lemma step_eq_dispatch {n : Node} {m : Message} {env : Env} (hs : n.started = true)
    (hle : m.term ≤ n.currentTerm) : n.step env m = n.dispatch env m := by
  have hlt : ¬ n.currentTerm < m.term := by omega
  simp [step, hs, stepLocked, hlt]

end Node

namespace Host

variable {ρ : Type} {cfg : Config}

/-- The node is up, and its driver is between two flushes. -/
structure Rests (h : Host ρ) : Prop where
  crashed : h.crashed = false
  stopped : h.stopped = false
  flush : h.flush = .idle
  started : h.node.started = true

/-- A node fresh from `New` is at rest. -/
lemma rests_of_new {s : Storage} {draw : ℕ} {restore : RestoreOutcome} {h : Host ρ}
    (hnew : new cfg s draw restore = .ok h) : h.Rests ∧ h.applier = .idle := by
  have hstarted := (new_cases hnew).1.started
  unfold new at hnew
  split at hnew
  · cases hnew
  · split_ifs at hnew <;> cases hnew <;> exact ⟨⟨rfl, rfl, rfl, hstarted⟩, rfl⟩

/-- On its own the host can go from `h` to `h'`, sending `sent`. -/
def Goes (cfg : Config) (h h' : Host ρ) (sent : List Message) : Prop :=
  ∀ out, (alone cfg h).Reaches (fun _ a => a.Local) (h, out) (h', out ++ sent)

lemma Goes.refl (h : Host ρ) : Goes cfg h h [] := by
  intro out
  rw [List.append_nil]
  exact Machine.Reaches.refl _

lemma Goes.trans {h h' h'' : Host ρ} {sent sent' : List Message} (hg : Goes cfg h h' sent)
    (hg' : Goes cfg h' h'' sent') : Goes cfg h h'' (sent ++ sent') := by
  intro out
  rw [← List.append_assoc]
  exact (hg out).trans (hg' (out ++ sent))

lemma Goes.act {h h' : Host ρ} {sent : List Message} {a : Act ρ} (ha : a.Local)
    (heq : h.act cfg a = (h', sent)) : Goes cfg h h' sent := by
  intro out
  have hstep := Machine.Reaches.step (M := alone cfg h) (A := fun _ a => a.Local)
    (s := (h, out)) (e := a) ha
  simpa only [alone, heq] using hstep

/-! ## A flush -/

variable (cfg)

lemma send_goes {h : Host ρ} (hrun : h.crashed = false) (msgs : List Message) :
    Goes cfg { h with flush := .sending msgs } { h with flush := .sending [] } msgs := by
  induction msgs with
  | nil => exact .refl _
  | cons m msgs ih =>
      have hact : Goes cfg { h with flush := .sending (m :: msgs) }
          { h with flush := .sending msgs } [m] := .act (a := .send) ⟨rfl, rfl⟩ (by
        simp [Host.act, hrun])
      exact hact.trans ih

/-- The loop of `drainCommitsToApply` ends. -/
lemma drain_goes (k : ℕ) : ∀ {h : Host ρ} {ci : ℕ}, h.crashed = false →
    h.flush = .draining ci → ci - h.enqueuedIdx ≤ k →
    ∃ h', Goes cfg h h' [] ∧ h'.flush = .idle ∧ h'.node = h.node ∧ h'.crashed = h.crashed ∧
      h'.stopped = h.stopped := by
  induction k with
  | zero =>
      intro h ci hrun hf hk
      refine ⟨{ h with flush := .idle }, .act (a := .drain false) ⟨rfl, rfl⟩ ?_, rfl, rfl, rfl,
        rfl⟩
      simp [Host.act, hrun, hf, Host.drain, show ci < h.enqueuedIdx + 1 by omega]
  | succ k ih =>
      intro h ci hrun hf hk
      have hstep : Goes cfg h (h.drain ci false) [] :=
        .act (a := .drain false) ⟨rfl, rfl⟩ (by simp [Host.act, hrun, hf])
      unfold Host.drain at hstep
      dsimp only at hstep
      split_ifs at hstep with hlt
      · exact ⟨_, hstep, rfl, rfl, rfl, rfl⟩
      · split at hstep
        · rename_i e rest _
          obtain ⟨h', hg, hidle, hnode, hcr, hst⟩ := ih
            (h := { h with applyCh := h.applyCh ++ [e], enqueuedIdx := h.enqueuedIdx + 1 })
            hrun hf (by show _ - (h.enqueuedIdx + 1) ≤ k; omega)
          exact ⟨h', hstep.trans hg, hidle, hnode, hcr, hst⟩
        · exact ⟨_, hstep, rfl, rfl, rfl, rfl⟩

/-- A node at rest can flush. -/
theorem flush_goes {h : Host ρ} (hr : h.Rests) :
    ∃ h', Goes cfg h h' h.node.outbox ∧ h'.Rests ∧ h'.node = h.node.flushed := by
  have hrun := hr.crashed
  have hready : Goes cfg h
      { h with
        node := { h.node with pendingMsgs := [], pendingHS := none }
        flush := .ready h.node.pendingHS h.node.outbox } [] :=
    .act (a := .ready) ⟨rfl, rfl⟩ (by
      simp [Host.act, hrun, hr.flush, Node.ready, Node.outbox])
  have hsave : Goes cfg
      { h with
        node := { h.node with pendingMsgs := [], pendingHS := none }
        flush := .ready h.node.pendingHS h.node.outbox }
      { h with node := h.node.flushed, flush := .sending h.node.outbox } [] :=
    .act (a := .save false) ⟨rfl, rfl⟩ (by
      cases hhs : h.node.pendingHS <;> simp [Host.act, hrun, Node.flushed, hhs])
  have hsend := send_goes cfg (h := { h with node := h.node.flushed }) hrun
    h.node.outbox
  have hbegin : Goes cfg { h with node := h.node.flushed, flush := .sending [] }
      { h with node := h.node.flushed, flush := .draining h.node.commitIndex } [] :=
    .act (a := .drainBegin) ⟨rfl, rfl⟩ (by simp [Host.act, hrun]; rfl)
  obtain ⟨h', hdrain, hidle, hnode, hcr, hst⟩ := drain_goes cfg
    (h := { h with node := h.node.flushed, flush := .draining h.node.commitIndex }) _ hrun rfl
    le_rfl
  refine ⟨h', ?_, ⟨hcr.trans hrun, hst.trans hr.stopped, hidle, ?_⟩, hnode⟩
  · have hall := (((hready.trans hsave).trans hsend).trans hbegin).trans hdrain
    simpa only [List.nil_append, List.append_nil] using hall
  · rw [hnode]
    exact hr.started

/-! ## A candidacy -/

/-- A tick is a `Step` that cannot fail. -/
lemma tick_goes {h : Host ρ} (hr : h.Rests) {n : Node}
    (hn : h.node.step {} { type := .tick } = some (n, none)) :
    Goes cfg h { h with node := n } [] :=
  .act (a := .tick {}) ⟨rfl, rfl⟩ (by simp [Host.act, hr.crashed, hn, afterStep])

/-- The timer of a node that does not lead runs on, or runs out. -/
lemma tick_cases {n : Node} (hs : n.started = true) (hrole : n.role ≠ .leader) :
    ∃ n₀, Node.Retimed n n₀ ∧ n₀.electionTimeout = n.electionTimeout ∧
      n₀.electionElapsed = n.electionElapsed + 1 ∧
      n.step {} { type := .tick } =
        some (if n.electionTimeout ≤ (n.electionElapsed + 1 : ℕ) then
          Node.becomeCandidateLocked 0 n₀ else n₀, none) := by
  rw [Node.step_eq_dispatch hs (Nat.zero_le _), Node.dispatch]
  cases hr : n.role with
  | leader => exact (hrole hr).elim
  | follower =>
      refine ⟨{ n with
        electionElapsed := n.electionElapsed + 1, lastHeartbeat := n.lastHeartbeat + 1 },
        ⟨_, _, _, _, _, _, by rfl⟩, rfl, rfl, rfl⟩
  | candidate =>
      exact ⟨{ n with electionElapsed := n.electionElapsed + 1 }, ⟨_, _, _, _, _, _, by rfl⟩,
        rfl, rfl, rfl⟩

/-- The tick on which the timer runs out begins a candidacy. -/
lemma timeout_now {h : Host ρ} (hr : h.Rests) (hrole : h.node.role ≠ .leader)
    (hout : h.node.electionTimeout ≤ (h.node.electionElapsed + 1 : ℕ)) :
    ∃ n₁, Node.Retimed h.node.campaigned n₁ ∧
      Goes cfg h
        { h with node := if h.node.quorum ≤ 1 then n₁.becomeLeaderLocked else n₁ } [] := by
  obtain ⟨n₀, hr₀, -, -, hstep⟩ := tick_cases hr.started hrole
  obtain ⟨n₁, hr₁, heq⟩ := Node.becomeCandidateLocked_eq 0 n₀
  have hq : n₀.quorum = h.node.quorum := by
    obtain ⟨_, _, _, _, _, _, rfl⟩ := hr₀
    rfl
  rw [if_pos hout, heq, hq] at hstep
  exact ⟨n₁, hr₀.campaigned hr₁, tick_goes cfg hr hstep⟩

/-- A node at rest that does not lead can let its election timer run out. -/
lemma timeout_goes (k : ℕ) : ∀ {h : Host ρ}, h.Rests → h.node.role ≠ .leader →
    (h.node.electionTimeout - h.node.electionElapsed).toNat ≤ k →
    ∃ n₁, Node.Retimed h.node.campaigned n₁ ∧
      Goes cfg h
        { h with node := if h.node.quorum ≤ 1 then n₁.becomeLeaderLocked else n₁ } [] := by
  induction k with
  | zero =>
      intro h hr hrole hk
      exact timeout_now cfg hr hrole (by omega)
  | succ k ih =>
      intro h hr hrole hk
      by_cases hout : h.node.electionTimeout ≤ (h.node.electionElapsed + 1 : ℕ)
      · exact timeout_now cfg hr hrole hout
      · obtain ⟨n₀, hr₀, htime, helapsed, hstep⟩ := tick_cases hr.started hrole
        have hkeep : n₀.quorum = h.node.quorum ∧ n₀.role = h.node.role ∧
            n₀.started = h.node.started := by
          obtain ⟨_, _, _, _, _, _, rfl⟩ := hr₀
          exact ⟨rfl, rfl, rfl⟩
        rw [if_neg hout] at hstep
        obtain ⟨n₁, hr₁, hg⟩ := ih (h := { h with node := n₀ })
          ⟨hr.crashed, hr.stopped, hr.flush, hkeep.2.2.trans hr.started⟩
          (by rw [hkeep.2.1]; exact hrole) (by rw [htime, helapsed]; omega)
        rw [hkeep.1] at hg
        exact ⟨n₁, hr₀.campaigned hr₁, (tick_goes cfg hr hstep).trans hg⟩

end Host

namespace Node

/-- The two nodes agree in who they are and in what they hold. -/
structure Alike (n n' : Node) : Prop where
  id : n'.id = n.id
  peers : n'.peers = n.peers
  log : n'.log = n.log
  entries : n'.storage.entries = n.storage.entries
  commitIndex : n'.commitIndex = n.commitIndex
  matchIndex : n'.matchIndex = n.matchIndex

lemma Alike.trans {n n' n'' : Node} (h : Alike n n') (h' : Alike n' n'') : Alike n n'' :=
  ⟨h'.id.trans h.id, h'.peers.trans h.peers, h'.log.trans h.log, h'.entries.trans h.entries,
    h'.commitIndex.trans h.commitIndex, h'.matchIndex.trans h.matchIndex⟩

lemma alike_flushed (n : Node) : Alike n n.flushed := by
  refine ⟨rfl, rfl, rfl, ?_, rfl, rfl⟩
  show (n.pendingHS.elim n.storage n.storage.saveHardState).entries = _
  cases n.pendingHS <;> rfl

/-- The node stands for election to term `T`, and has asked everybody else. -/
structure Stands (n : Node) (T : ℕ) : Prop where
  started : n.started = true
  role : n.role = .candidate
  term : n.currentTerm = T
  votes : n.votesReceived = {n.id}
  asks : ∀ p ∈ n.peers, p ≠ n.id → n.requestVoteFor p ∈ n.outbox

/-- What a candidacy leaves. -/
lemma stands_of_campaigned {n n₁ : Node} (hs : n.started = true) (hr : Retimed n.campaigned n₁) :
    n₁.Stands (n.currentTerm + 1) ∧ Alike n n₁ := by
  rw [campaigned, fanOutRequestVote_eq] at hr
  obtain ⟨_, _, _, _, _, _, rfl⟩ := hr
  refine ⟨⟨hs, rfl, rfl, rfl, fun p hp hne => ?_⟩, ⟨rfl, rfl, rfl, rfl, rfl, rfl⟩⟩
  refine List.mem_map.mpr ⟨⟨n.stepDownEpoch, _⟩, List.mem_filter.mpr ⟨?_, ?_⟩, rfl⟩
  · refine List.mem_append_right _ (List.mem_map.mpr ⟨p, ?_, rfl⟩)
    exact List.mem_filter.mpr ⟨hp, by simpa using hne⟩
  · exact decide_eq_true rfl

end Node

namespace Host

variable {ρ : Type} (cfg : Config)

/-- A node at rest that does not lead, and is not alone, can stand for a term as high as one
likes. -/
theorem stand_goes {h : Host ρ} (hr : h.Rests) (hrole : h.node.role ≠ .leader)
    (hq : 1 < h.node.quorum) (M : ℕ) :
    ∃ h' T, Goes cfg h h' [] ∧ h'.Rests ∧ M < T ∧ h'.node.Stands T ∧ h.node.Alike h'.node := by
  -- one candidacy raises the term by one
  have hone : ∀ {h : Host ρ}, h.Rests → h.node.role ≠ .leader → 1 < h.node.quorum →
      ∃ h', Goes cfg h h' [] ∧ h'.Rests ∧ h'.node.Stands (h.node.currentTerm + 1) ∧
        h.node.Alike h'.node := by
    intro h hr hrole hq
    obtain ⟨n₁, hr₁, hg⟩ := timeout_goes cfg _ hr hrole le_rfl
    rw [if_neg (by omega)] at hg
    obtain ⟨hst, halike⟩ := Node.stands_of_campaigned hr.started hr₁
    exact ⟨_, hg, ⟨hr.crashed, hr.stopped, hr.flush, hst.started⟩, hst, halike⟩
  induction M with
  | zero =>
      obtain ⟨h', hg, hr', hst, halike⟩ := hone hr hrole hq
      exact ⟨h', _, hg, hr', Nat.succ_pos _, hst, halike⟩
  | succ M ih =>
      obtain ⟨h₁, T, hg₁, hr₁, hT, hst₁, halike₁⟩ := ih
      obtain ⟨h₂, hg₂, hr₂, hst₂, halike₂⟩ := hone hr₁ (by simp [hst₁.role])
        (by rw [Node.quorum, halike₁.peers]; exact hq)
      rw [hst₁.term] at hst₂
      exact ⟨h₂, T + 1, hg₁.trans hg₂, hr₂, by omega, hst₂, halike₁.trans halike₂⟩

end Host

end ToyRaft
