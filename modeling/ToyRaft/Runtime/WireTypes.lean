import ToyRaft.Runtime.Runs
import ToyRaft.Transport.Server

/-!
# What a node sends is visible on the wire

The wire refuses a message of any type but the four of the protocol.  No section of the core
queues any other (`visible_of_step`), so none is ever handed to a transport (`visible_of_mem_net`).
-/

namespace ToyRaft

/-- One of the four types of the protocol. -/
def MessageType.visible : MessageType → Bool
  | .requestVote | .requestVoteResponse | .appendEntries | .appendEntriesResp => true
  | .tick | .unknown _ => false

lemma MessageType.code_le {t : MessageType} (h : t.visible = true) : t.code ≤ 3 := by
  cases t <;> first | decide | cases h

/-- The type of the message is one of the four. -/
def Message.Visible (m : Message) : Prop := m.type.visible = true

namespace Node

/-- Everything in the outbox may go over the wire. -/
def Visible (n : Node) : Prop := ∀ pm ∈ n.pendingMsgs, pm.msg.Visible

namespace Visible

variable {n : Node}

lemma queued (h : n.Visible) {new : List PendingMsg} (hnew : ∀ pm ∈ new, pm.msg.Visible) :
    Visible { n with pendingMsgs := n.pendingMsgs ++ new } := by
  intro pm hpm
  rcases List.mem_append.mp hpm with hpm | hpm
  · exact h pm hpm
  · exact hnew pm hpm

lemma queueMsg (h : n.Visible) {x : Message} (hx : x.Visible) : (n.queueMsgLocked x).Visible := by
  refine h.queued fun pm hpm => ?_
  rw [List.mem_singleton.mp hpm]
  exact hx

lemma fanOutAppendEntries (h : n.Visible) : n.fanOutAppendEntries.Visible := by
  rw [fanOutAppendEntries_eq]
  refine h.queued fun pm hpm => ?_
  obtain ⟨p, -, rfl⟩ := List.mem_map.mp hpm
  rfl

lemma fanOutRequestVote (h : n.Visible) : n.fanOutRequestVote.Visible := by
  rw [fanOutRequestVote_eq]
  refine h.queued fun pm hpm => ?_
  obtain ⟨p, -, rfl⟩ := List.mem_map.mp hpm
  rfl

lemma maybeAdvanceCommit (h : n.Visible) : n.maybeAdvanceCommitLocked.Visible := by
  rcases n.maybeAdvanceCommitLocked_cases with heq | ⟨q, -, -, -, heq⟩
  · rwa [heq]
  · rw [heq]
    exact h

lemma broadcast (h : n.Visible) : n.broadcastAppendEntriesLocked.Visible :=
  h.fanOutAppendEntries.maybeAdvanceCommit

lemma becomeLeader (h : n.Visible) : n.becomeLeaderLocked.Visible :=
  fanOutAppendEntries h

lemma becomeCandidate (h : n.Visible) (draw : ℕ) : (n.becomeCandidateLocked draw).Visible := by
  unfold becomeCandidateLocked
  extract_lets n₁ n₂
  have hn₂ : n₂.Visible := fanOutRequestVote h
  split_ifs
  · exact hn₂.becomeLeader
  · exact hn₂

lemma tickFollower (h : n.Visible) (draw : ℕ) : (n.tickFollowerLocked draw).Visible := by
  unfold tickFollowerLocked
  extract_lets n₁
  have hn₁ : n₁.Visible := h
  split_ifs
  · exact hn₁.becomeCandidate draw
  · exact hn₁

lemma tickCandidate (h : n.Visible) (draw : ℕ) : (n.tickCandidateLocked draw).Visible := by
  unfold tickCandidateLocked
  extract_lets n₁
  have hn₁ : n₁.Visible := h
  split_ifs
  · exact hn₁.becomeCandidate draw
  · exact hn₁

lemma tickLeader (h : n.Visible) : n.tickLeaderLocked.Visible := by
  unfold tickLeaderLocked
  extract_lets n₁
  have hn₁ : n₁.Visible := h
  split_ifs
  · exact hn₁
  · exact maybeAdvanceCommit (fanOutAppendEntries hn₁)

lemma requestVote (h : n.Visible) (draw : ℕ) (m : Message) :
    (n.handleRequestVoteLocked draw m).Visible := by
  unfold handleRequestVoteLocked
  extract_lets grant n₁
  have hn₁ : n₁.Visible := by
    dsimp only [n₁]
    split_ifs <;> exact h
  exact hn₁.queueMsg rfl

lemma requestVoteResponse (h : n.Visible) (m : Message) :
    (n.handleRequestVoteResponseLocked m).Visible := by
  unfold handleRequestVoteResponseLocked
  split_ifs
  · exact h
  · exact h
  · extract_lets n₁
    have hn₁ : n₁.Visible := h
    split_ifs
    · exact hn₁.becomeLeader
    · exact hn₁

lemma reply (h : n.Visible) (dest : NodeID) (success : Bool) (matchIndex : ℕ) :
    (n.replyAppendEntriesLocked dest success matchIndex).Visible :=
  h.queueMsg rfl

lemma acknowledge (h : n.Visible) (m : Message) : (n.acknowledgeAppendEntries m).Visible := by
  unfold acknowledgeAppendEntries
  extract_lets n₁
  have hn₁ : n₁.Visible := by
    dsimp only [n₁]
    split_ifs <;> exact h
  exact hn₁.reply _ _ _

/-- The mirror touches the store only. -/
lemma mirrorLogWriteLocked_pendingMsgs (env : Env) (n : Node) (start : ℕ) (suffix : List Entry) :
    (n.mirrorLogWriteLocked env start suffix).1.pendingMsgs = n.pendingMsgs := by
  unfold mirrorLogWriteLocked
  split
  · rfl
  · split <;> rfl

lemma appendEntries (h : n.Visible) {env : Env} {m : Message} {n' : Node}
    (hn : n.handleAppendEntriesLocked env m = some n') : n'.Visible := by
  unfold handleAppendEntriesLocked at hn
  split_ifs at hn with hterm
  · obtain rfl := Option.some.inj hn
    exact h.reply _ _ _
  · extract_lets n₁ fc suffix n₂ at hn
    have hn₁ : n₁.Visible := h
    have hn₂ : n₂.Visible := h
    split_ifs at hn
    · obtain rfl := Option.some.inj hn
      exact hn₁.reply _ _ _
    · have hmirror : (n₂.mirrorLogWriteLocked env fc suffix).1.Visible := by
        unfold Visible
        rwa [mirrorLogWriteLocked_pendingMsgs]
      split at hn
      · rename_i n₃ err heq
        rw [heq] at hmirror
        obtain rfl := Option.some.inj hn
        exact hmirror.reply _ _ _
      · rename_i n₃ heq
        rw [heq] at hmirror
        obtain rfl := Option.some.inj hn
        exact hmirror.acknowledge m
    · obtain rfl := Option.some.inj hn
      exact hn₁.acknowledge m

lemma appendEntriesResp (h : n.Visible) (m : Message) :
    (n.handleAppendEntriesRespLocked m).Visible := by
  unfold handleAppendEntriesRespLocked
  split_ifs
  · exact h
  · exact maybeAdvanceCommit h
  · exact h
  · exact h

lemma dispatch (h : n.Visible) {env : Env} {m : Message} {n' : Node} {err : Option StepError}
    (hn : n.dispatch env m = some (n', err)) : n'.Visible := by
  unfold Node.dispatch at hn
  split at hn
  · split at hn <;> cases hn
    · exact h.tickFollower _
    · exact h.tickCandidate _
    · exact h.tickLeader
  · cases hn
    exact h.requestVote _ _
  · cases hn
    exact h.requestVoteResponse _
  · obtain ⟨n₁, hn₁, heq⟩ := Option.map_eq_some_iff.mp hn
    cases heq
    exact h.appendEntries hn₁
  · cases hn
    exact h.appendEntriesResp _
  · cases hn
    exact h

end Visible

theorem visible_of_step {n n' : Node} (h : n.Visible) {env : Env} {m : Message}
    {err : Option StepError} (hn : n.step env m = some (n', err)) : n'.Visible := by
  unfold step at hn
  split_ifs at hn
  · cases hn
    exact h
  · refine Visible.dispatch ?_ hn
    split_ifs
    · unfold Visible
      rwa [maybeStepDownLocked_pending]
    · exact h

end Node

namespace Host

variable {ρ : Type}

/-- Nothing on its way to the transport is refused by the wire. -/
def Visible (h : Host ρ) : Prop := ∀ x ∈ outgoing h.node h.flush, x.Visible

lemma visible_iff {h : Host ρ} :
    h.Visible ↔ h.node.Visible ∧ ∀ x ∈ h.flush.msgs, x.Visible := by
  simp only [Visible, Node.Visible, mem_outgoing]
  constructor
  · exact fun hv => ⟨fun pm hpm => hv _ (.inl ⟨pm, hpm, rfl⟩), fun x hx => hv x (.inr hx)⟩
  · rintro ⟨hn, hf⟩ x (⟨pm, hpm, rfl⟩ | hx)
    · exact hn pm hpm
    · exact hf x hx

/-- The sections of the core are the acts that queue messages. -/
lemma visible_section {h : Host ρ} (hv : h.Visible) {n' : Node} (hn : n'.Visible) :
    Visible { h with node := n' } :=
  visible_iff.mpr ⟨hn, (visible_iff.mp hv).2⟩

lemma visible_afterStep {h : Host ρ} (hv : h.Visible) (env : Env) (m : Message) :
    (h.afterStep (h.node.step env m)).Visible := by
  unfold afterStep
  split
  · exact hv
  · rename_i n' err hn
    exact visible_section hv (Node.visible_of_step (visible_iff.mp hv).1 hn)

lemma visible_propose {h : Host ρ} (hv : h.Visible) (env : Env) (data : Data) :
    (h.propose env data).Visible := by
  have hprop : (h.node.proposeLocked env data).1.Visible := by
    have hn := (visible_iff.mp hv).1
    unfold Node.proposeLocked
    split_ifs
    · exact hn
    · extract_lets
      split <;> exact hn
  unfold propose
  split_ifs
  · exact hv
  · exact hv
  · split
    · rename_i n' idx heq
      rw [heq] at hprop
      exact visible_section hv hprop
    · rename_i n' idx heq
      rw [heq] at hprop
      exact visible_section hv hprop.broadcast

/-- The act runs a section of the core that may queue messages. -/
def speaks : Act ρ → Bool
  | .step _ _ | .tick _ | .propose _ _ => true
  | _ => false

/-- The other acts pass messages on. -/
lemma Move.queuedSince_eq_nil {cfg : Config} {h : Host ρ} {a : Act ρ} {n' : Node} {f' : Flush}
    {out : List Message} (hmove : Move cfg h a n' f' out) (ha : speaks a = false) :
    h.node.queuedSince n' = [] := by
  cases hmove with
  | step hstep => rcases hstep with rfl | ⟨rfl, -⟩ <;> cases ha
  | propose hprop => subst hprop; cases ha
  | restart _ hn => simp [Node.queuedSince, hn.pendingMsgs]
  | _ => simp [Node.queuedSince]

/-- One act. -/
theorem visible_act (cfg : Config) {h : Host ρ} (hv : h.Visible) (a : Act ρ) :
    (h.act cfg a).1.Visible ∧ ∀ x ∈ (h.act cfg a).2, x.Visible := by
  have hmove := h.move_of_act cfg a
  cases ha : speaks a with
  | false =>
      have hold : ∀ x, x ∈ outgoing (h.act cfg a).1.node (h.act cfg a).1.flush ∨
          x ∈ (h.act cfg a).2 → x.Visible := by
        intro x hx
        rcases hmove.outgoing_cases hx with hx | hx
        · exact hv x hx
        · rw [hmove.queuedSince_eq_nil ha] at hx
          cases hx
      exact ⟨fun x hx => hold x (.inl hx), fun x hx => hold x (.inr hx)⟩
  | true =>
      have hfires := fires_of_act cfg h a
      generalize (h.act cfg a).1 = h', (h.act cfg a).2 = out at hfires ⊢
      cases hfires with
      | step | tick => exact ⟨visible_afterStep hv _ _, by simp⟩
      | propose => exact ⟨visible_propose hv _ _, by simp⟩
      | idle => exact ⟨hv, by simp⟩
      | restart _ _ _ harestart => rcases harestart with ⟨rfl, -⟩ | ⟨_, _, rfl, -⟩ <;> cases ha
      | _ => cases ha

lemma visible_start (cfg : Config) (draw : ℕ) : (start cfg {} draw : Host ρ).Visible := by
  unfold start
  split
  · rename_i h hnew
    obtain ⟨hn, hf, -⟩ := new_cases hnew
    intro x hx
    rw [mem_outgoing, hn.pendingMsgs, hf] at hx
    rcases hx with ⟨pm, hpm, -⟩ | hx
    · cases hpm
    · cases hx
  · intro x hx
    cases hx

end Host

/-- Every host passes on, and the network holds, what the wire lets pass. -/
def World.Visible {ρ : Type} (w : World ρ) : Prop :=
  (∀ i, (w.hosts i).Visible) ∧ ∀ m ∈ w.net, m.Visible

namespace Cluster

variable {ρ : Type} (C : Cluster)

lemma visible_exec {w : World ρ} (h : w.Visible) (e : Event ρ) : (C.exec w e).Visible := by
  unfold exec
  split_ifs
  · obtain ⟨hhost, hout⟩ := Host.visible_act (C.cfg e.node) (h.1 e.node) e.act
    refine ⟨fun i => ?_, fun m hm => ?_⟩
    · show (Function.update w.hosts e.node _ i).Visible
      by_cases hi : i = e.node
      · subst hi
        rw [Function.update_self]
        exact hhost
      · rw [Function.update_of_ne hi]
        exact h.1 i
    · rcases List.mem_append.mp hm with hm | hm
      · exact h.2 m hm
      · exact hout m hm
  · exact h

theorem visible_world (ev : ℕ → Event ρ) (t : ℕ) : (C.world ev t).Visible := by
  have h0 : (C.init : World ρ).Visible :=
    ⟨fun i => Host.visible_start _ _, fun m hm => (List.not_mem_nil hm).elim⟩
  exact (C.machine ρ).run_invariant_of (P := World.Visible) (A := fun _ _ => True) h0
    (fun w e _ hw => C.visible_exec hw e) fun _ _ => trivial

end Cluster

end ToyRaft
