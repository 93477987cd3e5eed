import ToyRaft.Properties.Refinement

/-!
# Who a node believes to lead

A node learns of a leader in one place: `handleAppendEntriesLocked` stores the sender of every
`AppendEntries` of the current term in `leaderHint`.  It does not touch the role.  For a
follower that is right, and a leader never gets such a message by Election Safety.  But a
candidate that has lost the election of its own term stays a candidate, with the hint of a
leader it does not follow (`candidate_names_leader`).

`leaderHint_consistent` is what holds: a leader names itself in every run, and until a candidate
hears from the leader of its term, every node that names another one is a follower.
-/

namespace ToyRaft

namespace Node

/-! ## What one critical section does to the hint -/

/-- The role and the hint after a message is handled. -/
inductive HintStep (m : Message) (n n' : Node) : Prop
  | same (hrole : n'.role = n.role) (hhint : n'.leaderHint = n.leaderHint)
  | none (hrole : n'.role ≠ .leader) (hhint : n'.leaderHint = "")
  | own (hhint : n'.leaderHint = n'.id)
  | told (ht : m.type = .appendEntries) (hterm : m.term = n.currentTerm)
      (hrole : n'.role = n.role) (hhint : n'.leaderHint = m.fromNode)

lemma maybeAdvanceCommitLocked_hint (n : Node) :
    n.maybeAdvanceCommitLocked.role = n.role ∧
      n.maybeAdvanceCommitLocked.leaderHint = n.leaderHint := by
  obtain ⟨c, hs, -, heq⟩ := n.maybeAdvanceCommitLocked_eq
  rw [heq]
  exact ⟨rfl, rfl⟩

lemma broadcastAppendEntriesLocked_hint (n : Node) :
    n.broadcastAppendEntriesLocked.role = n.role ∧
      n.broadcastAppendEntriesLocked.leaderHint = n.leaderHint := by
  have h := n.fanOutAppendEntries.maybeAdvanceCommitLocked_hint
  rw [fanOutAppendEntries_eq] at h
  rw [broadcastAppendEntriesLocked, fanOutAppendEntries_eq]
  exact h

lemma becomeLeaderLocked_hint (n : Node) :
    n.becomeLeaderLocked.leaderHint = n.becomeLeaderLocked.id := by
  rw [becomeLeaderLocked_eq, fanOutAppendEntries_eq]

lemma hintStep_becomeCandidate {m : Message} {n : Node} (draw : ℕ) (n₀ : Node) :
    HintStep m n (becomeCandidateLocked draw n₀) := by
  unfold becomeCandidateLocked
  extract_lets n₁ n₂
  split_ifs
  · exact .own (becomeLeaderLocked_hint _)
  · have heq : n₂ = _ := fanOutRequestVote_eq _
    rw [heq]
    exact .none (fun hrole => by cases hrole) rfl

lemma acknowledgeAppendEntries_hint (n : Node) (m : Message) :
    (n.acknowledgeAppendEntries m).role = n.role ∧
      (n.acknowledgeAppendEntries m).leaderHint = n.leaderHint := by
  obtain ⟨c, hs, heq, -⟩ := n.acknowledgeAppendEntries_eq m
  rw [heq]
  exact ⟨rfl, rfl⟩

lemma mirrorLogWriteLocked_hint (env : Env) (n : Node) (start : ℕ) (suffix : List Entry) :
    (n.mirrorLogWriteLocked env start suffix).1.role = n.role ∧
      (n.mirrorLogWriteLocked env start suffix).1.leaderHint = n.leaderHint := by
  unfold mirrorLogWriteLocked
  split
  · exact ⟨rfl, rfl⟩
  · split <;> exact ⟨rfl, rfl⟩

lemma hintStep_appendEntries {env : Env} {m : Message} {n n' : Node}
    (ht : m.type = .appendEntries) (hle : m.term ≤ n.currentTerm)
    (h : n.handleAppendEntriesLocked env m = some n') : HintStep m n n' := by
  unfold handleAppendEntriesLocked at h
  extract_lets n₁ firstConflict suffix n₂ at h
  split_ifs at h with hterm hprev hfc hguard
  · cases h
    exact .same rfl rfl
  · cases h
    exact .told ht (by omega) rfl rfl
  · have hmirror := n₂.mirrorLogWriteLocked_hint env firstConflict suffix
    split at h
    · rename_i n₃ err heq
      rw [heq] at hmirror
      cases h
      exact .told ht (by omega) hmirror.1 hmirror.2
    · rename_i n₃ heq
      rw [heq] at hmirror
      cases h
      have hack := n₃.acknowledgeAppendEntries_hint m
      exact .told ht (by omega) (hack.1.trans hmirror.1) (hack.2.trans hmirror.2)
  · cases h
    have hack := n₁.acknowledgeAppendEntries_hint m
    exact .told ht (by omega) hack.1 hack.2

theorem hintStep_of_dispatch {env : Env} {m : Message} {n n' : Node} {r : Option StepError}
    (hle : m.term ≤ n.currentTerm) (h : n.dispatch env m = some (n', r)) : HintStep m n n' := by
  unfold dispatch at h
  split at h
  · -- a tick
    split at h <;> cases h
    · unfold tickFollowerLocked
      extract_lets n₁
      split_ifs
      · exact hintStep_becomeCandidate _ _
      · exact .same rfl rfl
    · unfold tickCandidateLocked
      extract_lets n₁
      split_ifs
      · exact hintStep_becomeCandidate _ _
      · exact .same rfl rfl
    · unfold tickLeaderLocked
      extract_lets n₁
      split_ifs
      · exact .same rfl rfl
      · have hb := broadcastAppendEntriesLocked_hint { n₁ with heartbeatElapsed := 0 }
        exact .same hb.1 hb.2
  · cases h
    unfold handleRequestVoteLocked
    extract_lets grant n₁
    cases hgrant : grant with
    | true => exact .same (by simp [n₁, hgrant]; rfl) (by simp [n₁, hgrant]; rfl)
    | false => exact .same (by simp [n₁, hgrant]; rfl) (by simp [n₁, hgrant]; rfl)
  · cases h
    unfold handleRequestVoteResponseLocked
    extract_lets n₁
    split_ifs
    · exact .same rfl rfl
    · exact .same rfl rfl
    · exact .own (becomeLeaderLocked_hint _)
    · exact .same rfl rfl
  · rename_i ht
    obtain ⟨n₁, hn₁, heq⟩ := Option.map_eq_some_iff.mp h
    cases heq
    exact hintStep_appendEntries ht hle hn₁
  · cases h
    unfold handleAppendEntriesRespLocked
    split_ifs
    · exact .same rfl rfl
    · have hc := maybeAdvanceCommitLocked_hint (n.progressed m)
      exact .same hc.1 hc.2
    · exact .same rfl rfl
    · exact .same rfl rfl
  · cases h
    exact .same rfl rfl

lemma maybeStepDownLocked_hint (n : Node) (T : ℕ) :
    T ≤ n.currentTerm ∧ n.maybeStepDownLocked T = n ∨
      (n.maybeStepDownLocked T).role = .follower ∧ (n.maybeStepDownLocked T).leaderHint = "" := by
  unfold maybeStepDownLocked
  split_ifs with hle
  · exact .inl ⟨hle, rfl⟩
  · exact .inr ⟨rfl, rfl⟩

lemma leaderHint_of_newNode {cfg : Config} {s : Storage} {draw : ℕ} {n : Node}
    (h : newNode cfg s draw = .ok n) : n.leaderHint = "" := by
  unfold newNode at h
  extract_lets cfg' at h
  split at h
  · cases h
  · split at h <;> cases h
    rfl

end Node

namespace Host

variable {ρ : Type}

/-- The role and the hint after an act. -/
inductive HintMove (h : Host ρ) (a : Act ρ) (n' : Node) : Prop
  | same (hrole : n'.role = h.node.role) (hhint : n'.leaderHint = h.node.leaderHint)
  | none (hrole : n'.role ≠ .leader) (hhint : n'.leaderHint = "")
  | own (hhint : n'.leaderHint = n'.id)
  | told (m : Message) (hm : m ∈ h.delivered a) (ht : m.type = .appendEntries)
      (hterm : h.node.currentTerm ≤ m.term)
      (hrole : n'.role = (h.node.maybeStepDownLocked m.term).role)
      (hhint : n'.leaderHint = m.fromNode)

lemma hintMove_of_new {cfg : Config} {h h' : Host ρ} {a : Act ρ} {s : Storage} {draw : ℕ}
    {restore : RestoreOutcome} (hnew : new cfg s draw restore = .ok h') : HintMove h a h'.node := by
  have hrole := (new_cases hnew).1.role
  refine .none (by rw [hrole]; decide) ?_
  unfold new at hnew
  split at hnew
  · cases hnew
  · rename_i hn
    split_ifs at hnew <;> cases hnew <;> exact Node.leaderHint_of_newNode hn

lemma hintMove_step {h : Host ρ} {a : Act ρ} {m : Message} {env : Env}
    (hdel : m = { type := .tick } ∨ m ∈ h.delivered a) :
    HintMove h a (h.afterStep (h.node.step env m)).node := by
  cases hstep : h.node.step env m with
  | none => exact .same rfl rfl
  | some r =>
      obtain ⟨n', e⟩ := r
      cases hst : h.node.started with
      | false =>
          rw [Node.step, hst] at hstep
          cases hstep
          exact .same rfl rfl
      | true =>
          rw [Node.step, hst, Bool.not_true, if_neg Bool.false_ne_true,
            Node.stepLocked_eq] at hstep
          have hle := h.node.term_le_maybeStepDownLocked m.term
          have hcur := (h.node.maybeStepDownLocked_frame m.term).2.2.2.2.2.2.2.1
          cases Node.hintStep_of_dispatch hle hstep with
          | same hrole hhint =>
              rcases h.node.maybeStepDownLocked_hint m.term with ⟨-, heq⟩ | ⟨hfol, hnone⟩
              · rw [heq] at hrole hhint
                exact .same hrole hhint
              · have hfollower : n'.role = .follower := hrole.trans hfol
                exact .none (fun hlead => by cases hfollower.symm.trans hlead) (hhint.trans hnone)
          | none hrole hhint => exact .none hrole hhint
          | own hhint => exact .own hhint
          | told ht hterm hrole hhint =>
              refine .told m (hdel.resolve_left ?_) ht (by omega) hrole hhint
              rintro rfl
              cases ht

/-- The acts that do not call `Step` leave the hint alone. -/
lemma Move.hint {cfg : Config} {h : Host ρ} {a : Act ρ} {n' : Node} {f' : Flush}
    {out : List Message} (hmove : Move cfg h a n' f' out) (hstep : ∀ m env, a ≠ .step m env)
    (htick : ∀ env, a ≠ .tick env) (hrestart : a.restarts = false) : HintMove h a n' := by
  cases hmove with
  | quiet => exact .same rfl rfl
  | step ha =>
      rcases ha with ha | ⟨ha, -⟩
      · exact (hstep _ _ ha).elim
      · exact (htick _ ha).elim
  | @propose data env s =>
      have hb := (h.node.proposed data s).broadcastAppendEntriesLocked_hint
      exact .same hb.1 hb.2
  | proposeFailed => exact .same rfl rfl
  | ready => exact .same rfl rfl
  | save => exact .same rfl rfl
  | saveNone => exact .same rfl rfl
  | saveFailed => exact .same rfl rfl
  | send => exact .same rfl rfl
  | restart ha =>
      rw [ha] at hrestart
      cases hrestart

theorem hintMove_of_act (cfg : Config) (h : Host ρ) (a : Act ρ) :
    HintMove h a (h.act cfg a).1.node := by
  have hfires := fires_of_act cfg h a
  have hmove := hfires.move
  generalize (h.act cfg a).1 = h', (h.act cfg a).2 = out at hfires hmove ⊢
  cases hfires with
  | idle => exact .same rfl rfl
  | restart _ _ _ _ hnew => exact hintMove_of_new hnew
  | step hrun hstop => exact hintMove_step (.inr (by simp [delivered, hrun, hstop]))
  | tick => exact hintMove_step (.inl rfl)
  | _ => exact hmove.hint (by simp) (by simp) rfl

end Host

namespace Cluster

variable {ρ : Type} (C : Cluster) (ev : ℕ → Event ρ)

/-- At moment `t` a running candidate is delivered an `AppendEntries` of its own term. -/
def CandidateHearsLeader (t : ℕ) : Prop :=
  C.Enabled (C.world ev t) (ev t) ∧ (C.node ev t (ev t).node).role = .candidate ∧
    ∃ m ∈ (C.host ev t (ev t).node).delivered (ev t).act,
      m.type = .appendEntries ∧ m.term = (C.node ev t (ev t).node).currentTerm

instance (t : ℕ) : Decidable (C.CandidateHearsLeader ev t) :=
  inferInstanceAs (Decidable (_ ∧ _ ∧ _))

/-- A leader is sent no `AppendEntries` of its own term. -/
lemma leader_hears_none {t : ℕ} {i : NodeID} {m : Message} (hnet : m ∈ C.net ev t)
    (hto : m.toNode = i) (ht : m.type = .appendEntries) : ¬ C.LeaderAt ev t i m.term := by
  intro hlead
  obtain ⟨s, -, hbuilt⟩ := C.builtAt ev hnet ht
  exact hbuilt.dest (hto.trans (C.leader_unique ev hlead hbuilt.leader))

lemma hint_of_leader {i : NodeID} (hi : i ∈ C.peers) (t : ℕ) :
    (C.node ev t i).role = .leader → (C.node ev t i).leaderHint = i := by
  induction t with
  | zero =>
      intro hrole
      rw [(C.started_zero ev hi).role] at hrole
      cases hrole
  | succ t ih =>
      rcases C.step_cases ev t i with ⟨sent, hm⟩ | ⟨heq, -⟩
      · intro hrole
        have hmove := Host.hintMove_of_act (C.cfg i) (C.host ev t i) (ev t).act
        rw [← hm.host] at hmove
        cases hmove with
        | same hrole' hhint => exact hhint.trans (ih (hrole'.symm.trans hrole))
        | none hne => exact (hne hrole).elim
        | own hhint => exact hhint.trans (C.node_id ev hi (t + 1))
        | told m hdel ht hterm hrole' hhint =>
            -- the leader would have been sent a message of its own term
            obtain ⟨hnet, hto⟩ := hm.inbound m (Host.inbound_of_delivered hdel)
            rcases (C.node ev t i).maybeStepDownLocked_hint m.term with ⟨hle, heq⟩ | ⟨hfol, -⟩
            · rw [show (C.host ev t i).node = C.node ev t i from rfl, heq] at hrole'
              refine (C.leader_hears_none ev hnet hto ht ⟨hrole'.symm.trans hrole, ?_⟩).elim
              exact le_antisymm hterm hle
            · cases hrole.symm.trans (hrole'.trans hfol)
      · rw [node, heq]
        exact ih

lemma role_of_hint {i : NodeID} (hi : i ∈ C.peers) {t : ℕ}
    (hgood : ∀ s < t, ¬ C.CandidateHearsLeader ev s) :
    (C.node ev t i).leaderHint ≠ "" → (C.node ev t i).leaderHint ≠ i →
      (C.node ev t i).role = .follower := by
  induction t with
  | zero => exact fun _ _ => (C.started_zero ev hi).role
  | succ t ih =>
      have ih' := ih fun s hs => hgood s (Nat.lt_succ_of_lt hs)
      rcases C.step_cases ev t i with ⟨sent, hm⟩ | ⟨heq, -⟩
      · intro hsome hother
        have hmove := Host.hintMove_of_act (C.cfg i) (C.host ev t i) (ev t).act
        rw [← hm.host] at hmove
        cases hmove with
        | same hrole hhint =>
            exact hrole.trans (ih' (fun h => hsome (hhint.trans h)) fun h => hother (hhint.trans h))
        | none _ hhint => exact (hsome hhint).elim
        | own hhint => exact (hother (hhint.trans (C.node_id ev hi (t + 1)))).elim
        | told m hdel ht hterm hrole hhint =>
            obtain ⟨hnet, hto⟩ := hm.inbound m (Host.inbound_of_delivered hdel)
            rcases (C.node ev t i).maybeStepDownLocked_hint m.term with ⟨hle, heq⟩ | ⟨hfol, -⟩
            · rw [show (C.host ev t i).node = C.node ev t i from rfl, heq] at hrole
              have hcur : (C.node ev t i).currentTerm = m.term := le_antisymm hterm hle
              cases hrole' : (C.node ev t i).role with
              | follower => exact hrole.trans hrole'
              | candidate =>
                  refine (hgood t (Nat.lt_succ_self t) ⟨hm.enabled, ?_⟩).elim
                  rw [hm.node]
                  exact ⟨hrole', m, hdel, ht, hcur.symm⟩
              | leader => exact (C.leader_hears_none ev hnet hto ht ⟨hrole', hcur⟩).elim
            · exact hrole.trans hfol
      · rw [node, heq]
        exact ih'

/-- A leader names itself.  Until a candidate hears from the leader of its own term, a node that
names another one is a follower. -/
theorem leaderHint_consistent :
    (∀ t i, (C.node ev t i).role = .leader → (C.node ev t i).leaderHint = i) ∧
    ∀ t, (∀ s < t, ¬ C.CandidateHearsLeader ev s) → ∀ i,
      (C.node ev t i).leaderHint ≠ "" → (C.node ev t i).leaderHint ≠ i →
        (C.node ev t i).role = .follower := by
  constructor
  · intro t i hrole
    exact C.hint_of_leader ev (C.mem_of_role ev (by rw [hrole]; decide)) t hrole
  · intro t hgood i
    by_cases hi : i ∈ C.peers
    · exact C.role_of_hint ev hi hgood
    · exact fun _ _ => C.role_of_not_mem ev hi t

/-- Node `a` is elected, and its first heartbeat reaches `b`. -/
def heartbeatHeard : List (Event Unit) :=
  elect 1 "a" "c" 0 0 ++ flush "a" 4 ++ deliver (appendRequest 1 "a" "b" 0 0 [] 0)

theorem leaderHint_consistent_heartbeatHeard :
    (trio.node (Machine.schedule idle heartbeatHeard) 40 "b").leaderHint = "a" ∧
      (trio.node (Machine.schedule idle heartbeatHeard) 40 "b").role = .follower := by
  have hhint : (trio.node (Machine.schedule idle heartbeatHeard) 40 "b").leaderHint = "a" := by
    decide +kernel
  refine ⟨hhint, (trio.leaderHint_consistent _).2 40 (by decide +kernel) "b" ?_ ?_⟩ <;>
    rw [hhint] <;> decide

/-- Nodes `a` and `b` both campaign in term 1.  Node `a` wins with the vote of `c`, and its first
heartbeat reaches `b`. -/
def lostElection : List (Event Unit) :=
  timeout "b" ++ elect 1 "a" "c" 0 0 ++ flush "a" 4 ++
    deliver (appendRequest 1 "a" "b" 0 0 [] 0)

/-- The loser names the leader of its term, and is still a candidate. -/
theorem candidate_names_leader :
    (trio.node (Machine.schedule idle lostElection) 40 "b").leaderHint = "a" ∧
      (trio.node (Machine.schedule idle lostElection) 40 "b").role = .candidate := by
  decide +kernel

end Cluster

end ToyRaft
