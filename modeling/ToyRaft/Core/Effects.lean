import ToyRaft.Core.HardState

/-!
# Messages, roles, progress, log and commit index across a section

`Handled` lists the outcomes of a handler; the later proofs each look at one aspect of them.
This file reads the aspects off: what is queued (`Spoken`), how a role is gained or kept
(`RoleStep`), how the leader's book-keeping moves (`ProgressStep`), what is written
(`LogEffect`) and how the commit index moves (`CommitEffect`).
-/

namespace ToyRaft

namespace Node

/-- The commit rule leaves everything but the commit index and the pending hard state. -/
lemma maybeAdvanceCommitLocked_eq (n : Node) :
    ∃ c hs, n.commitIndex ≤ c ∧
      n.maybeAdvanceCommitLocked = { n with commitIndex := c, pendingHS := hs } := by
  rcases n.maybeAdvanceCommitLocked_cases with heq | ⟨q, hlt, -, -, heq⟩
  · exact ⟨n.commitIndex, n.pendingHS, le_rfl, heq⟩
  · exact ⟨q, _, hlt.le, heq⟩

/-- The tail of the receiver queues one success response, with or without a commit. -/
lemma acknowledgeAppendEntries_eq (n : Node) (m : Message) :
    ∃ c hs, n.acknowledgeAppendEntries m =
        replyAppendEntriesLocked { n with commitIndex := c, pendingHS := hs }
          m.fromNode true n.log.lastIndex ∧
      (c = n.commitIndex ∨ n.commitIndex < m.leaderCommit ∧
        c = min m.leaderCommit (m.prevLogIndex + m.entries.length)) := by
  unfold acknowledgeAppendEntries
  split_ifs with hlt
  · exact ⟨_, _, rfl, .inr ⟨hlt, rfl⟩⟩
  · exact ⟨n.commitIndex, n.pendingHS, rfl, .inl rfl⟩

/-! ## What is queued -/

/-- A message queued by the section that takes `n`, its term caught up, to `n'` while
handling `m`. -/
inductive Spoken (m : Message) (n n' : Node) : Message → Prop
  | requestVote (p : NodeID) (hp : p ∈ n'.others) (hrole : n'.role ≠ .follower)
      (hterm : n'.currentTerm = n.currentTerm + 1) (hlog : n'.log = n.log) :
      Spoken m n n' (n'.requestVoteFor p)
  | grant (ht : m.type = .requestVote) (hterm : m.term = n.currentTerm)
      (hcur : n'.currentTerm = n.currentTerm) (hlog : n'.log = n.log)
      (hup : isCandidateUpToDate m.lastLogTerm m.lastLogIndex n.log.lastTerm n.log.lastIndex) :
      Spoken m n n'
        { type := .requestVoteResponse
          term := n'.currentTerm
          fromNode := n'.id
          toNode := m.fromNode
          voteGranted := true }
  /-- The commit index of the message is read before the section's own commit. -/
  | appendEntries (p : NodeID) (hp : p ∈ n'.others) (c : ℕ) (hc : c ≤ n'.commitIndex)
      (hrole : n'.role = .leader) :
      Spoken m n n' { n'.appendEntriesFor p with leaderCommit := c }
  | ack (hp : n.Passes m) (hcur : n'.currentTerm = n.currentTerm)
      (hlog : n.firstConflictIndex m.entries = 0 ∧ n'.log = n.log ∨
        n.firstConflictIndex m.entries ≠ 0 ∧ n'.log = n.writtenLog m) :
      Spoken m n n'
        { type := .appendEntriesResp
          term := n'.currentTerm
          fromNode := n'.id
          toNode := m.fromNode
          success := true
          matchIndex := n'.log.lastIndex }
  | refusal (x : Message) (hterm : x.term = n'.currentTerm) (hfrom : x.fromNode = n'.id)
      (hvote : x.voteOf = none) (htype : x.type ≠ .appendEntries) (hsucc : x.success = false) :
      Spoken m n n' x

lemma Spoken.of_requestVote {m x : Message} {n n' : Node} (h : Spoken m n n' x)
    (hx : x.type = .requestVote) :
    (∃ p ∈ n'.others, x = n'.requestVoteFor p) ∧ n'.role ≠ .follower ∧
      n'.currentTerm = n.currentTerm + 1 ∧ n'.log = n.log := by
  cases h with
  | requestVote p hp hrole hterm hlog => exact ⟨⟨p, hp, rfl⟩, hrole, hterm, hlog⟩
  | refusal _ _ _ hvote => simp [Message.voteOf, hx] at hvote
  | grant => cases hx
  | appendEntries => cases hx
  | ack => cases hx

lemma Spoken.of_grant {m x : Message} {n n' : Node} (h : Spoken m n n' x)
    (hx : x.type = .requestVoteResponse) (hg : x.voteGranted = true) :
    m.type = .requestVote ∧ m.term = n.currentTerm ∧ n'.currentTerm = n.currentTerm ∧
      n'.log = n.log ∧ x.term = n'.currentTerm ∧ x.toNode = m.fromNode ∧
      isCandidateUpToDate m.lastLogTerm m.lastLogIndex n.log.lastTerm n.log.lastIndex := by
  cases h with
  | grant ht hterm hcur hlog hup => exact ⟨ht, hterm, hcur, hlog, rfl, rfl, hup⟩
  | refusal _ _ _ hvote => simp [Message.voteOf, hx, hg] at hvote
  | requestVote => cases hx
  | appendEntries => cases hx
  | ack => cases hx

lemma Spoken.of_appendEntries {m x : Message} {n n' : Node} (h : Spoken m n n' x)
    (hx : x.type = .appendEntries) :
    ∃ p ∈ n'.others, ∃ c ≤ n'.commitIndex, n'.role = .leader ∧
      x = { n'.appendEntriesFor p with leaderCommit := c } := by
  cases h with
  | appendEntries p hp c hc hrole => exact ⟨p, hp, c, hc, hrole, rfl⟩
  | refusal _ _ _ _ htype => exact (htype hx).elim
  | requestVote => cases hx
  | grant => cases hx
  | ack => cases hx

lemma Spoken.of_ack {m x : Message} {n n' : Node} (h : Spoken m n n' x)
    (hx : x.type = .appendEntriesResp) (hs : x.success = true) :
    n.Passes m ∧ n'.currentTerm = n.currentTerm ∧ x.term = n'.currentTerm ∧
      x.toNode = m.fromNode ∧ x.matchIndex = n'.log.lastIndex ∧
      (n.firstConflictIndex m.entries = 0 ∧ n'.log = n.log ∨
        n.firstConflictIndex m.entries ≠ 0 ∧ n'.log = n.writtenLog m) := by
  cases h with
  | ack hp hcur hlog => exact ⟨hp, hcur, rfl, rfl, rfl, hlog⟩
  | refusal _ _ _ _ _ hsucc => rw [hs] at hsucc; cases hsucc
  | requestVote => cases hx
  | grant => cases hx
  | appendEntries => cases hx

/-- The section queues `Spoken` messages only. -/
def Speaks (m : Message) (n n' : Node) : Prop :=
  ∃ new, n'.pendingMsgs = n.pendingMsgs ++ new ∧ ∀ pm ∈ new, Spoken m n n' pm.msg

/-- The messages a section that took `n` to `n'` has queued. -/
def queuedSince (n n' : Node) : List Message :=
  (n'.pendingMsgs.drop n.pendingMsgs.length).map PendingMsg.msg

lemma queuedSince_self (n : Node) : n.queuedSince n = [] := by
  rw [queuedSince, List.drop_length]
  rfl

lemma Speaks.spoken {m x : Message} {n n' : Node} (h : Speaks m n n')
    (hx : x ∈ n.queuedSince n') : Spoken m n n' x := by
  obtain ⟨new, heq, hnew⟩ := h
  rw [queuedSince, heq, List.drop_left] at hx
  obtain ⟨pm, hpm, rfl⟩ := List.mem_map.mp hx
  exact hnew pm hpm

lemma speaks_of_eq {m : Message} {n n' : Node} (h : n'.pendingMsgs = n.pendingMsgs) :
    Speaks m n n' := ⟨[], by rw [h, List.append_nil], by simp⟩

/-- A candidacy queues its requests and leaves the log alone. -/
lemma campaigned_cases {n n₁ : Node} (hr : Retimed n.campaigned n₁) :
    n₁.pendingMsgs = n.pendingMsgs ++
        n.others.map (fun p => ⟨n.stepDownEpoch, n₁.requestVoteFor p⟩) ∧
      n₁.id = n.id ∧ n₁.peers = n.peers ∧ n₁.currentTerm = n.currentTerm + 1 ∧
      n₁.log = n.log ∧ n₁.storage = n.storage ∧ n₁.commitIndex = n.commitIndex ∧
      n₁.role = .candidate ∧ n₁.votesReceived = {n.id} ∧ n₁.votedFor = n.id := by
  obtain ⟨_, _, _, _, _, _, rfl⟩ := hr
  rw [campaigned, fanOutRequestVote_eq]
  exact ⟨rfl, rfl, rfl, rfl, rfl, rfl, rfl, rfl, rfl, rfl⟩

lemma appendEntriesFor_congr {n₁ n' : Node} (hid : n'.id = n₁.id)
    (hcur : n'.currentTerm = n₁.currentTerm) (hlog : n'.log = n₁.log)
    (hnext : n'.nextIndex = n₁.nextIndex) (p : NodeID) :
    n₁.appendEntriesFor p = { n'.appendEntriesFor p with leaderCommit := n₁.commitIndex } := by
  simp only [appendEntriesFor, hid, hcur, hlog, hnext]

/-- A fan-out by the leader `n₁`, after which only its commit index may still move. -/
lemma speaks_fanOut {m : Message} {n n₁ n' : Node} {old : List PendingMsg} {c : ℕ}
    (hs : Option HardState) (hmsgs : n₁.pendingMsgs = n.pendingMsgs ++ old)
    (hold : ∀ pm ∈ old, Spoken m n n' pm.msg) (hrole : n₁.role = .leader)
    (hc : n₁.commitIndex ≤ c)
    (h : n' = { n₁.fanOutAppendEntries with commitIndex := c, pendingHS := hs }) :
    Speaks m n n' := by
  rw [fanOutAppendEntries_eq] at h
  have hpend : n'.pendingMsgs = n.pendingMsgs ++ (old ++
      n₁.others.map (fun p => ⟨n₁.stepDownEpoch, n₁.appendEntriesFor p⟩)) := by
    rw [h, ← List.append_assoc, ← hmsgs]
  refine ⟨_, hpend, fun pm hpm => ?_⟩
  rcases List.mem_append.mp hpm with hpm | hpm
  · exact hold pm hpm
  · obtain ⟨p, hp, rfl⟩ := List.mem_map.mp hpm
    have hx : n₁.appendEntriesFor p =
        { n'.appendEntriesFor p with leaderCommit := n₁.commitIndex } :=
      appendEntriesFor_congr (by rw [h]) (by rw [h]) (by rw [h]) (by rw [h]) p
    rw [hx]
    exact .appendEntries p (by rw [h]; exact hp) _ (by rw [h]; exact hc) (by rw [h]; exact hrole)

lemma speaks_broadcast {m : Message} {n n₁ : Node} (hmsgs : n₁.pendingMsgs = n.pendingMsgs)
    (hrole : n₁.role = .leader) : Speaks m n n₁.broadcastAppendEntriesLocked := by
  obtain ⟨c, hs, hc, heq⟩ := n₁.fanOutAppendEntries.maybeAdvanceCommitLocked_eq
  rw [fanOutAppendEntries_eq] at hc
  exact speaks_fanOut hs (by rw [hmsgs, List.append_nil]) (by simp) hrole hc heq

/-- Taking the lead touches the role, the book-keeping and the outbox. -/
lemma becomeLeaderLocked_frame (n : Node) :
    n.becomeLeaderLocked.role = .leader ∧ n.becomeLeaderLocked.id = n.id ∧
      n.becomeLeaderLocked.peers = n.peers ∧ n.becomeLeaderLocked.currentTerm = n.currentTerm ∧
      n.becomeLeaderLocked.log = n.log ∧ n.becomeLeaderLocked.storage = n.storage ∧
      n.becomeLeaderLocked.commitIndex = n.commitIndex ∧
      n.becomeLeaderLocked.votesReceived = n.votesReceived ∧
      n.becomeLeaderLocked.votedFor = n.votedFor := by
  rw [becomeLeaderLocked_eq, fanOutAppendEntries_eq]
  exact ⟨rfl, rfl, rfl, rfl, rfl, rfl, rfl, rfl, rfl⟩

lemma speaks_becomeLeader {m : Message} {n n₁ : Node} {old : List PendingMsg}
    (hmsgs : n₁.pendingMsgs = n.pendingMsgs ++ old)
    (hold : ∀ pm ∈ old, Spoken m n n₁.becomeLeaderLocked pm.msg) :
    Speaks m n n₁.becomeLeaderLocked := by
  obtain ⟨n₂, heq, hn₂, hrole⟩ : ∃ n₂ : Node, n₁.becomeLeaderLocked = n₂.fanOutAppendEntries ∧
      n₂.pendingMsgs = n₁.pendingMsgs ∧ n₂.role = .leader :=
    ⟨_, n₁.becomeLeaderLocked_eq, rfl, rfl⟩
  refine speaks_fanOut n₂.pendingHS (hn₂.trans hmsgs) hold hrole le_rfl ?_
  rw [heq, fanOutAppendEntries_eq]

/-- The requests of a candidacy, on the way to a possible immediate win. -/
lemma spoken_requestVote {m : Message} {n n₁ n' : Node} (hr : Retimed n.campaigned n₁)
    (hid : n'.id = n₁.id) (hpeers : n'.peers = n₁.peers)
    (hcur : n'.currentTerm = n₁.currentTerm) (hlog : n'.log = n₁.log)
    (hrole : n'.role ≠ .follower) {p : NodeID} (hp : p ∈ n.others) :
    Spoken m n n' (n₁.requestVoteFor p) := by
  obtain ⟨-, hid₁, hpeers₁, hcur₁, hlog₁, -⟩ := campaigned_cases hr
  have hx : n₁.requestVoteFor p = n'.requestVoteFor p := by
    simp only [requestVoteFor, hid, hcur, hlog]
  rw [hx]
  refine .requestVote p ?_ hrole (hcur.trans hcur₁) (hlog.trans hlog₁)
  rw [others, hid, hpeers, hid₁, hpeers₁]
  exact hp

lemma speaks_acknowledge {m : Message} {n n₁ : Node} (hp : n.Passes m)
    (hmsgs : n₁.pendingMsgs = n.pendingMsgs) (hcur : n₁.currentTerm = n.currentTerm)
    (hlog : n.firstConflictIndex m.entries = 0 ∧ n₁.log = n.log ∨
      n.firstConflictIndex m.entries ≠ 0 ∧ n₁.log = n.writtenLog m) :
    Speaks m n (n₁.acknowledgeAppendEntries m) := by
  obtain ⟨c, hs, heq, -⟩ := n₁.acknowledgeAppendEntries_eq m
  rw [heq]
  refine ⟨_, by rw [← hmsgs]; rfl, fun pm hpm => ?_⟩
  rw [List.mem_singleton.mp hpm]
  exact .ack hp hcur hlog

theorem speaks_of_handled {env : Env} {m : Message} {n n' : Node} (h : Handled env m n n') :
    Speaks m n n' := by
  cases h with
  | quiet hr =>
      obtain ⟨_, _, _, _, _, _, rfl⟩ := hr
      exact speaks_of_eq rfl
  | campaign _ _ _ hr =>
      obtain ⟨hmsgs, -, -, -, -, -, -, hrole, -⟩ := campaigned_cases hr
      refine ⟨_, hmsgs, fun pm hpm => ?_⟩
      obtain ⟨p, hp, rfl⟩ := List.mem_map.mp hpm
      exact spoken_requestVote hr rfl rfl rfl rfl (by simp [hrole]) hp
  | @campaignWon n₁ _ _ _ hr =>
      obtain ⟨hrole, hid, hpeers, hcur, hlog, -⟩ := n₁.becomeLeaderLocked_frame
      refine speaks_becomeLeader (campaigned_cases hr).1 fun pm hpm => ?_
      obtain ⟨p, hp, rfl⟩ := List.mem_map.mp hpm
      exact spoken_requestVote hr hid hpeers hcur hlog (by simp [hrole]) hp
  | heartbeat _ hrole hr =>
      obtain ⟨_, _, _, _, _, _, rfl⟩ := hr
      exact speaks_broadcast rfl hrole
  | grant ht hterm _ hup hr =>
      obtain ⟨_, _, _, _, _, _, rfl⟩ := hr
      refine ⟨_, by rfl, fun pm hpm => ?_⟩
      rw [List.mem_singleton.mp hpm]
      exact .grant ht hterm rfl rfl hup
  | refuse x hterm hfrom hvote htype hsucc hr =>
      obtain ⟨_, _, _, _, _, _, rfl⟩ := hr
      refine ⟨_, by rfl, fun pm hpm => ?_⟩
      rw [List.mem_singleton.mp hpm]
      exact .refusal x hterm hfrom hvote htype hsucc
  | tally => exact speaks_of_eq rfl
  | win => exact speaks_becomeLeader (List.append_nil _).symm (by simp)
  | accept hp hfc hr =>
      obtain ⟨_, _, _, _, _, _, rfl⟩ := hr
      exact speaks_acknowledge hp rfl rfl (.inl ⟨hfc, rfl⟩)
  | write hp hfc _ _ _ hr =>
      obtain ⟨_, _, _, _, _, _, rfl⟩ := hr
      exact speaks_acknowledge hp rfl rfl (.inr ⟨hfc, rfl⟩)
  | mirrorFailed _ _ _ _ _ hr =>
      obtain ⟨_, _, _, _, _, _, rfl⟩ := hr
      refine ⟨_, by rfl, fun pm hpm => ?_⟩
      rw [List.mem_singleton.mp hpm]
      exact .refusal _ rfl rfl rfl (by simp) rfl
  | progress =>
      obtain ⟨c, hs, -, heq⟩ := (n.progressed m).maybeAdvanceCommitLocked_eq
      rw [heq]
      exact speaks_of_eq rfl
  | backoff => exact speaks_of_eq rfl

/-! ## Frames of the composite outcomes -/

/-- A broadcast touches the outbox, the commit index and the pending hard state. -/
lemma broadcast_frame (n : Node) :
    n.broadcastAppendEntriesLocked.role = n.role ∧ n.broadcastAppendEntriesLocked.id = n.id ∧
      n.broadcastAppendEntriesLocked.peers = n.peers ∧
      n.broadcastAppendEntriesLocked.currentTerm = n.currentTerm ∧
      n.broadcastAppendEntriesLocked.log = n.log ∧
      n.broadcastAppendEntriesLocked.storage = n.storage ∧
      n.broadcastAppendEntriesLocked.votesReceived = n.votesReceived ∧
      n.broadcastAppendEntriesLocked.votedFor = n.votedFor ∧
      n.broadcastAppendEntriesLocked.nextIndex = n.nextIndex ∧
      n.broadcastAppendEntriesLocked.matchIndex = n.matchIndex := by
  obtain ⟨c, hs, -, heq⟩ := n.fanOutAppendEntries.maybeAdvanceCommitLocked_eq
  rw [broadcastAppendEntriesLocked, heq, fanOutAppendEntries_eq]
  exact ⟨rfl, rfl, rfl, rfl, rfl, rfl, rfl, rfl, rfl, rfl⟩

/-- So does an acknowledgement. -/
lemma acknowledge_frame (n : Node) (m : Message) :
    (n.acknowledgeAppendEntries m).role = n.role ∧ (n.acknowledgeAppendEntries m).id = n.id ∧
      (n.acknowledgeAppendEntries m).peers = n.peers ∧
      (n.acknowledgeAppendEntries m).currentTerm = n.currentTerm ∧
      (n.acknowledgeAppendEntries m).log = n.log ∧
      (n.acknowledgeAppendEntries m).storage = n.storage ∧
      (n.acknowledgeAppendEntries m).votesReceived = n.votesReceived ∧
      (n.acknowledgeAppendEntries m).votedFor = n.votedFor ∧
      (n.acknowledgeAppendEntries m).nextIndex = n.nextIndex ∧
      (n.acknowledgeAppendEntries m).matchIndex = n.matchIndex := by
  obtain ⟨c, hs, heq, -⟩ := n.acknowledgeAppendEntries_eq m
  rw [heq]
  exact ⟨rfl, rfl, rfl, rfl, rfl, rfl, rfl, rfl, rfl, rfl⟩

/-! ## Roles and votes -/

/-- How a section treats the role and the tally. -/
inductive RoleStep (m : Message) (n n' : Node) : Prop
  | same (hrole : n'.role = n.role) (hcur : n'.currentTerm = n.currentTerm)
      (hvotes : n'.votesReceived = n.votesReceived)
  | campaign (hrole : n'.role ≠ .follower) (hcur : n'.currentTerm = n.currentTerm + 1)
      (hvotes : n'.votesReceived = {n.id}) (hvote : n'.votedFor = n.id)
      (hlog : n'.log = n.log) (hlead : n'.role = .leader ↔ n.quorum ≤ 1)
      (hfrom : n.role ≠ .leader)
  | tally (ht : m.type = .requestVoteResponse) (hg : m.voteGranted = true)
      (hterm : m.term = n.currentTerm) (hrole : n.role = .candidate)
      (hrole' : n'.role ≠ .follower) (hcur : n'.currentTerm = n.currentTerm)
      (hvotes : n'.votesReceived = insert m.fromNode n.votesReceived)
      (hvote : n'.votedFor = n.votedFor) (hlog : n'.log = n.log)
      (hlead : n'.role = .leader → n.quorum ≤ n'.votesReceived.card)

theorem roleStep_of_handled {env : Env} {m : Message} {n n' : Node} (h : Handled env m n n') :
    RoleStep m n n' := by
  cases h with
  | quiet hr =>
      obtain ⟨_, _, _, _, _, _, rfl⟩ := hr
      exact .same rfl rfl rfl
  | campaign _ hfrom hq hr =>
      obtain ⟨-, -, -, hcur, hlog, -, -, hrole, hvotes, hvote⟩ := campaigned_cases hr
      exact .campaign (by simp [hrole]) hcur hvotes hvote hlog (by simp [hrole, hq]) hfrom
  | @campaignWon n₁ _ hfrom hq hr =>
      obtain ⟨-, -, -, hcur, hlog, -, -, -, hvotes, hvote⟩ := campaigned_cases hr
      obtain ⟨hrole', -, -, hcur', hlog', -, -, hvotes', hvote'⟩ := n₁.becomeLeaderLocked_frame
      exact .campaign (by simp [hrole']) (hcur'.trans hcur) (hvotes'.trans hvotes)
        (hvote'.trans hvote) (hlog'.trans hlog) (iff_of_true hrole' hq) hfrom
  | @heartbeat n₁ _ _ hr =>
      obtain ⟨hrole, -, -, hcur, -, -, hvotes, -⟩ := n₁.broadcast_frame
      obtain ⟨_, _, _, _, _, _, rfl⟩ := hr
      exact .same hrole hcur hvotes
  | grant _ _ _ _ hr =>
      obtain ⟨_, _, _, _, _, _, rfl⟩ := hr
      exact .same rfl rfl rfl
  | refuse x _ _ _ _ _ hr =>
      obtain ⟨_, _, _, _, _, _, rfl⟩ := hr
      exact .same rfl rfl rfl
  | tally ht hg hrole hterm =>
      exact .tally ht hg hterm hrole (by simp [tallied, hrole]) rfl rfl rfl rfl
        (by simp [tallied, hrole])
  | win ht hg hrole hterm hq =>
      obtain ⟨hrole', -, -, hcur', hlog', -, -, hvotes', hvote'⟩ :=
        (n.tallied m.fromNode).becomeLeaderLocked_frame
      exact .tally ht hg hterm hrole (by simp [hrole']) hcur' hvotes' hvote' hlog'
        (fun _ => by rw [hvotes']; exact hq)
  | @accept n₁ _ _ hr =>
      obtain ⟨hrole, -, -, hcur, -, -, hvotes, -⟩ := n₁.acknowledge_frame m
      obtain ⟨_, _, _, _, _, _, rfl⟩ := hr
      exact .same hrole hcur hvotes
  | @write n₁ _ _ _ _ _ _ _ hr =>
      obtain ⟨hrole, -, -, hcur, -, -, hvotes, -⟩ := n₁.acknowledge_frame m
      obtain ⟨_, _, _, _, _, _, rfl⟩ := hr
      exact .same hrole hcur hvotes
  | mirrorFailed _ _ _ _ _ hr =>
      obtain ⟨_, _, _, _, _, _, rfl⟩ := hr
      exact .same rfl rfl rfl
  | progress =>
      obtain ⟨c, hs, -, heq⟩ := (n.progressed m).maybeAdvanceCommitLocked_eq
      rw [heq]
      exact .same rfl rfl rfl
  | backoff => exact .same rfl rfl rfl

/-- No handler removes a leader whose term has caught up. -/
lemma leader_handled {env : Env} {m : Message} {n n' : Node} (h : Handled env m n n')
    (hl : n.role = .leader) : n'.role = .leader ∧ n'.currentTerm = n.currentTerm := by
  cases roleStep_of_handled h with
  | same hrole hcur _ => exact ⟨hrole.trans hl, hcur⟩
  | campaign _ _ _ _ _ _ hfrom => exact (hfrom hl).elim
  | tally _ _ _ hrole =>
      rw [hrole] at hl
      cases hl

/-! ## The log and its mirror -/

/-- What a section writes. -/
inductive LogEffect (env : Env) (m : Message) (n n' : Node) : Prop
  | same (hlog : n'.log = n.log) (hst : n'.storage = n.storage)
  | write {s : Storage} (hp : n.Passes m) (hfc : n.firstConflictIndex m.entries ≠ 0)
      (hguard : ¬ (n.firstConflictIndex m.entries ≤ n.log.lastIndex ∧
        n.firstConflictIndex m.entries ≤ n.commitIndex))
      (htrunc : n.storage.truncateSuffix (n.firstConflictIndex m.entries) = .ok s)
      (happ : s.append (entriesFrom (n.firstConflictIndex m.entries) m.entries) =
        .ok n'.storage)
      (hlog : n'.log = n.writtenLog m) (hcur : n'.currentTerm = n.currentTerm)
      (hrole : n'.role = n.role)
  | mirrorFailed
      (hfail : (n.mirrorLogWriteLocked env (n.firstConflictIndex m.entries)
        (entriesFrom (n.firstConflictIndex m.entries) m.entries)).2 ≠ none)
      (hp : n.Passes m) (hfc : n.firstConflictIndex m.entries ≠ 0)
      (hguard : ¬ (n.firstConflictIndex m.entries ≤ n.log.lastIndex ∧
        n.firstConflictIndex m.entries ≤ n.commitIndex))

theorem logEffect_of_handled {env : Env} {m : Message} {n n' : Node} (h : Handled env m n n') :
    LogEffect env m n n' := by
  cases h with
  | quiet hr =>
      obtain ⟨_, _, _, _, _, _, rfl⟩ := hr
      exact .same rfl rfl
  | campaign _ _ _ hr =>
      obtain ⟨-, -, -, -, hlog, hst, -⟩ := campaigned_cases hr
      exact .same hlog hst
  | @campaignWon n₁ _ _ _ hr =>
      obtain ⟨-, -, -, -, hlog, hst, -⟩ := campaigned_cases hr
      obtain ⟨-, -, -, -, hlog', hst', -⟩ := n₁.becomeLeaderLocked_frame
      exact .same (hlog'.trans hlog) (hst'.trans hst)
  | @heartbeat n₁ _ _ hr =>
      obtain ⟨-, -, -, -, hlog, hst, -⟩ := n₁.broadcast_frame
      obtain ⟨_, _, _, _, _, _, rfl⟩ := hr
      exact .same hlog hst
  | grant _ _ _ _ hr =>
      obtain ⟨_, _, _, _, _, _, rfl⟩ := hr
      exact .same rfl rfl
  | refuse x _ _ _ _ _ hr =>
      obtain ⟨_, _, _, _, _, _, rfl⟩ := hr
      exact .same rfl rfl
  | tally => exact .same rfl rfl
  | win =>
      obtain ⟨-, -, -, -, hlog', hst', -⟩ := (n.tallied m.fromNode).becomeLeaderLocked_frame
      exact .same hlog' hst'
  | @accept n₁ _ _ hr =>
      obtain ⟨-, -, -, -, hlog, hst, -⟩ := n₁.acknowledge_frame m
      obtain ⟨_, _, _, _, _, _, rfl⟩ := hr
      exact .same hlog hst
  | @write n₁ s s' hp hfc hguard htrunc happ hr =>
      obtain ⟨hrole, -, -, hcur, hlog, hst, -⟩ := n₁.acknowledge_frame m
      obtain ⟨_, _, _, _, _, _, rfl⟩ := hr
      exact .write hp hfc hguard htrunc (by rw [hst]; exact happ) hlog hcur hrole
  | mirrorFailed hp hfc hguard hfail _ _ => exact .mirrorFailed hfail hp hfc hguard
  | progress =>
      obtain ⟨c, hs, -, heq⟩ := (n.progressed m).maybeAdvanceCommitLocked_eq
      rw [heq]
      exact .same rfl rfl
  | backoff => exact .same rfl rfl

/-! ## The leader's book-keeping -/

/-- How a section treats `nextIndex` and `matchIndex`. -/
inductive ProgressStep (m : Message) (n n' : Node) : Prop
  | same (hnext : n'.nextIndex = n.nextIndex) (hmatch : n'.matchIndex = n.matchIndex)
      (hrole : n'.role = .leader → n.role = .leader)
  | elected (hrole : n'.role = .leader)
      (hnext : n'.nextIndex =
        n.peers.foldl (fun ix p => ix.insert p (n'.log.lastIndex + 1)) n.nextIndex)
      (hmatch : n'.matchIndex = n.peers.foldl (fun ix p => ix.insert p 0) n.matchIndex)
      (hrole' : n.role ≠ .leader)
  | progress (ht : m.type = .appendEntriesResp) (hs : m.success = true)
      (hrole : n.role = .leader) (hterm : m.term = n.currentTerm)
      (hnext : n'.nextIndex = n.nextIndex.insert m.fromNode (m.matchIndex + 1))
      (hmatch : n'.matchIndex = n.matchIndex.insert m.fromNode m.matchIndex)
  | backoff (hrole : n.role = .leader) (hgt : 1 < n.nextIndex.get m.fromNode)
      (hnext : n'.nextIndex =
        n.nextIndex.insert m.fromNode (n.nextIndex.get m.fromNode - 1))
      (hmatch : n'.matchIndex = n.matchIndex)

lemma campaigned_progress {n n₁ : Node} (hr : Retimed n.campaigned n₁) :
    n₁.nextIndex = n.nextIndex ∧ n₁.matchIndex = n.matchIndex := by
  obtain ⟨_, _, _, _, _, _, rfl⟩ := hr
  rw [campaigned, fanOutRequestVote_eq]
  exact ⟨rfl, rfl⟩

lemma becomeLeaderLocked_progress (n : Node) :
    n.becomeLeaderLocked.nextIndex =
        n.peers.foldl (fun ix p => ix.insert p (n.log.lastIndex + 1)) n.nextIndex ∧
      n.becomeLeaderLocked.matchIndex =
        n.peers.foldl (fun ix p => ix.insert p 0) n.matchIndex := by
  rw [becomeLeaderLocked_eq, fanOutAppendEntries_eq]
  exact ⟨rfl, rfl⟩

theorem progressStep_of_handled {env : Env} {m : Message} {n n' : Node}
    (h : Handled env m n n') : ProgressStep m n n' := by
  cases h with
  | quiet hr =>
      obtain ⟨_, _, _, _, _, _, rfl⟩ := hr
      exact .same rfl rfl (fun h => h)
  | campaign _ _ _ hr =>
      obtain ⟨hnext, hmatch⟩ := campaigned_progress hr
      obtain ⟨-, -, -, -, -, -, -, hrole, -⟩ := campaigned_cases hr
      exact .same hnext hmatch (by simp [hrole])
  | @campaignWon n₁ _ hrole _ hr =>
      obtain ⟨hnext, hmatch⟩ := campaigned_progress hr
      obtain ⟨-, -, hpeers, -⟩ := campaigned_cases hr
      obtain ⟨hlead, -, -, -, hlog, -⟩ := n₁.becomeLeaderLocked_frame
      obtain ⟨hnext', hmatch'⟩ := n₁.becomeLeaderLocked_progress
      refine .elected hlead ?_ ?_ hrole
      · rw [hnext', hlog, hpeers, hnext]
      · rw [hmatch', hpeers, hmatch]
  | @heartbeat n₁ _ hrole hr =>
      obtain ⟨-, -, -, -, -, -, -, -, hnext, hmatch⟩ := n₁.broadcast_frame
      obtain ⟨_, _, _, _, _, _, rfl⟩ := hr
      exact .same hnext hmatch (fun _ => hrole)
  | grant _ _ _ _ hr =>
      obtain ⟨_, _, _, _, _, _, rfl⟩ := hr
      exact .same rfl rfl (fun h => h)
  | refuse x _ _ _ _ _ hr =>
      obtain ⟨_, _, _, _, _, _, rfl⟩ := hr
      exact .same rfl rfl (fun h => h)
  | tally => exact .same rfl rfl (fun h => h)
  | win _ _ hrole _ _ =>
      obtain ⟨hlead, -, -, -, hlog, -⟩ := (n.tallied m.fromNode).becomeLeaderLocked_frame
      obtain ⟨hnext, hmatch⟩ := (n.tallied m.fromNode).becomeLeaderLocked_progress
      exact .elected hlead (by rw [hnext, hlog]; rfl) hmatch (by simp [hrole])
  | @accept n₁ _ _ hr =>
      obtain ⟨hrole, -, -, -, -, -, -, -, hnext, hmatch⟩ := n₁.acknowledge_frame m
      obtain ⟨_, _, _, _, _, _, rfl⟩ := hr
      exact .same hnext hmatch (fun h => hrole.symm.trans h)
  | @write n₁ _ _ _ _ _ _ _ hr =>
      obtain ⟨hrole, -, -, -, -, -, -, -, hnext, hmatch⟩ := n₁.acknowledge_frame m
      obtain ⟨_, _, _, _, _, _, rfl⟩ := hr
      exact .same hnext hmatch (fun h => hrole.symm.trans h)
  | mirrorFailed _ _ _ _ _ hr =>
      obtain ⟨_, _, _, _, _, _, rfl⟩ := hr
      exact .same rfl rfl (fun h => h)
  | progress ht hs hrole hterm =>
      obtain ⟨c, hs', -, heq⟩ := (n.progressed m).maybeAdvanceCommitLocked_eq
      rw [heq]
      exact .progress ht hs hrole hterm rfl rfl
  | backoff _ hrole _ hnext => exact .backoff hrole hnext rfl rfl

/-! ## The commit index -/

/-- How a section moves the commit index. -/
inductive CommitEffect (m : Message) (n n' : Node) : Prop
  | same (h : n'.commitIndex = n.commitIndex)
  | advance (hrole : n'.role = .leader) (hlt : n.commitIndex < n'.commitIndex)
      (hterm : (n'.log.term n'.commitIndex).1 = n'.currentTerm)
      (hcount : n'.quorum ≤ n'.matchValues.countP (fun x => decide (n'.commitIndex ≤ x)))
  | follow (hp : n.Passes m) (hlt : n.commitIndex < m.leaderCommit)
      (hc : n'.commitIndex = min m.leaderCommit (m.prevLogIndex + m.entries.length))
      (hlog : n.firstConflictIndex m.entries = 0 ∧ n'.log = n.log ∨
        n.firstConflictIndex m.entries ≠ 0 ∧ n'.log = n.writtenLog m)
      (hcur : n'.currentTerm = n.currentTerm)

lemma commitEffect_advance {m : Message} {n n₁ : Node} (hc : n₁.commitIndex = n.commitIndex)
    (hrole : n₁.role = .leader) : CommitEffect m n n₁.maybeAdvanceCommitLocked := by
  rcases n₁.maybeAdvanceCommitLocked_cases with heq | ⟨q, hlt, hterm, hcount, heq⟩
  · rw [heq]
    exact .same hc
  · rw [heq]
    exact .advance hrole (by rw [← hc]; exact hlt) hterm hcount

lemma commitEffect_broadcast {m : Message} {n n₁ : Node} (hc : n₁.commitIndex = n.commitIndex)
    (hrole : n₁.role = .leader) : CommitEffect m n n₁.broadcastAppendEntriesLocked := by
  refine commitEffect_advance ?_ ?_
  · rw [fanOutAppendEntries_eq]
    exact hc
  · rw [fanOutAppendEntries_eq]
    exact hrole

lemma commitEffect_acknowledge {m : Message} {n n₁ : Node} (hp : n.Passes m)
    (hc : n₁.commitIndex = n.commitIndex) (hcur : n₁.currentTerm = n.currentTerm)
    (hlog : n.firstConflictIndex m.entries = 0 ∧ n₁.log = n.log ∨
      n.firstConflictIndex m.entries ≠ 0 ∧ n₁.log = n.writtenLog m) :
    CommitEffect m n (n₁.acknowledgeAppendEntries m) := by
  obtain ⟨c, hs, heq, hcases⟩ := n₁.acknowledgeAppendEntries_eq m
  rw [heq]
  rcases hcases with rfl | ⟨hlt, rfl⟩
  · exact .same hc
  · exact .follow hp (by rw [← hc]; exact hlt) rfl hlog hcur

theorem commitEffect_of_handled {env : Env} {m : Message} {n n' : Node}
    (h : Handled env m n n') : CommitEffect m n n' := by
  cases h with
  | quiet hr =>
      obtain ⟨_, _, _, _, _, _, rfl⟩ := hr
      exact .same rfl
  | campaign _ _ _ hr =>
      obtain ⟨-, -, -, -, -, -, hc, -⟩ := campaigned_cases hr
      exact .same hc
  | @campaignWon n₁ _ _ _ hr =>
      obtain ⟨-, -, -, -, -, -, hc, -⟩ := campaigned_cases hr
      obtain ⟨-, -, -, -, -, -, hc', -⟩ := n₁.becomeLeaderLocked_frame
      exact .same (hc'.trans hc)
  | heartbeat _ hrole hr =>
      obtain ⟨_, _, _, _, _, _, rfl⟩ := hr
      exact commitEffect_broadcast rfl hrole
  | grant _ _ _ _ hr =>
      obtain ⟨_, _, _, _, _, _, rfl⟩ := hr
      exact .same rfl
  | refuse x _ _ _ _ _ hr =>
      obtain ⟨_, _, _, _, _, _, rfl⟩ := hr
      exact .same rfl
  | tally => exact .same rfl
  | win =>
      obtain ⟨-, -, -, -, -, -, hc, -⟩ := (n.tallied m.fromNode).becomeLeaderLocked_frame
      exact .same hc
  | accept hp hfc hr =>
      obtain ⟨_, _, _, _, _, _, rfl⟩ := hr
      exact commitEffect_acknowledge hp rfl rfl (.inl ⟨hfc, rfl⟩)
  | write hp hfc _ _ _ hr =>
      obtain ⟨_, _, _, _, _, _, rfl⟩ := hr
      exact commitEffect_acknowledge hp rfl rfl (.inr ⟨hfc, rfl⟩)
  | mirrorFailed _ _ _ _ _ hr =>
      obtain ⟨_, _, _, _, _, _, rfl⟩ := hr
      exact .same rfl
  | progress _ _ hrole _ => exact commitEffect_advance rfl hrole
  | backoff => exact .same rfl

/-! ## The aspects of `Step` and of a proposal -/

/-- The term funnel queues nothing. -/
lemma maybeStepDownLocked_pending (n : Node) (T : ℕ) :
    (n.maybeStepDownLocked T).pendingMsgs = n.pendingMsgs := by
  rcases n.maybeStepDownLocked_cases T with ⟨-, heq⟩ | ⟨-, hr⟩
  · rw [heq]
  · generalize n.maybeStepDownLocked T = n₀ at hr
    obtain ⟨_, _, _, _, _, _, rfl⟩ := hr
    rfl

/-- The funnel leaves the node alone, or makes it a follower of a later term. -/
lemma maybeStepDownLocked_frame (n : Node) (T : ℕ) :
    (n.maybeStepDownLocked T).id = n.id ∧ (n.maybeStepDownLocked T).peers = n.peers ∧
      (n.maybeStepDownLocked T).log = n.log ∧ (n.maybeStepDownLocked T).storage = n.storage ∧
      (n.maybeStepDownLocked T).commitIndex = n.commitIndex ∧
      (n.maybeStepDownLocked T).nextIndex = n.nextIndex ∧
      (n.maybeStepDownLocked T).matchIndex = n.matchIndex ∧
      n.currentTerm ≤ (n.maybeStepDownLocked T).currentTerm ∧
      ((n.maybeStepDownLocked T).role ≠ .follower → n.maybeStepDownLocked T = n) := by
  rcases n.maybeStepDownLocked_cases T with ⟨-, heq⟩ | ⟨hlt, hr⟩
  · rw [heq]
    exact ⟨rfl, rfl, rfl, rfl, rfl, rfl, rfl, le_rfl, fun _ => rfl⟩
  · generalize n.maybeStepDownLocked T = n₀ at hr
    obtain ⟨_, _, _, _, _, _, rfl⟩ := hr
    exact ⟨rfl, rfl, rfl, rfl, rfl, rfl, rfl, hlt.le, fun h => (h rfl).elim⟩

/-- `Step` panics only on an `AppendEntries` that would truncate a committed entry. -/
lemma step_eq_none {env : Env} {m : Message} {n : Node} (h : n.step env m = none) :
    m.type = .appendEntries ∧ n.currentTerm ≤ m.term ∧
      n.log.hasEntry m.prevLogIndex m.prevLogTerm = true ∧
      n.firstConflictIndex m.entries ≠ 0 ∧
      n.firstConflictIndex m.entries ≤ n.log.lastIndex ∧
      n.firstConflictIndex m.entries ≤ n.commitIndex := by
  obtain ⟨-, -, hlog, -, hcommit, -, -, hcur, -⟩ := n.maybeStepDownLocked_frame m.term
  have hhandle : m.type = .appendEntries ∧
      (n.maybeStepDownLocked m.term).handleAppendEntriesLocked env m = none := by
    unfold step at h
    split_ifs at h
    rw [stepLocked_eq, dispatch] at h
    split at h
    · split at h <;> cases h
    · cases h
    · cases h
    · rename_i ht
      exact ⟨ht, Option.map_eq_none_iff.mp h⟩
    · cases h
    · cases h
  obtain ⟨hle, hrest⟩ := handleAppendEntriesLocked_eq_none hhandle.2
  rw [hlog, hcommit, firstConflictIndex_congr hlog] at hrest
  exact ⟨hhandle.1, hcur.trans hle, hrest⟩

end Node

end ToyRaft
