import ToyRaft.Core.Section
import ToyRaft.Framework.Quorum

/-!
# What a critical section does to the hard state and the outbox

`Follows` is the part of a critical section that elections rest on: terms grow, a vote
is given at most once a term, every change of the hard state is queued for saving, and what
is queued for sending carries the term and the vote the node has when the section ends.
`follows_of_handled` reads it off `Handled`, one outcome at a time.
-/

namespace ToyRaft

/-- `b` may be the hard state of a node some time after it was `a`: the term has grown, or it
is the same and a vote given has not been changed. -/
def HardState.Precedes (a b : HardState) : Prop :=
  a.currentTerm < b.currentTerm ∨
    a.currentTerm = b.currentTerm ∧ (a.votedFor = "" ∨ a.votedFor = b.votedFor)

namespace HardState

lemma Precedes.refl (a : HardState) : a.Precedes a := .inr ⟨rfl, .inr rfl⟩

lemma Precedes.trans {a b c : HardState} (hab : a.Precedes b) (hbc : b.Precedes c) :
    a.Precedes c := by
  unfold Precedes at *
  rcases hab with hab | ⟨hab, hv⟩
  · rcases hbc with hbc | ⟨hbc, -⟩ <;> left <;> omega
  · rcases hbc with hbc | ⟨hbc, hv'⟩
    · left
      omega
    · right
      refine ⟨hab.trans hbc, ?_⟩
      rcases hv with hv | hv
      · exact .inl hv
      · rw [hv]
        exact hv'

lemma Precedes.term_le {a b : HardState} (h : a.Precedes b) :
    a.currentTerm ≤ b.currentTerm := by
  rcases h with h | ⟨h, -⟩ <;> omega

/-- The hard state accounts for the vote a message carries: it has moved past the message's
term, or it records exactly that vote. -/
def Covers (hs : HardState) (x : Message) : Prop :=
  x.term < hs.currentTerm ∨ x.term = hs.currentTerm ∧ x.voteOf = some hs.votedFor

lemma Covers.mono {a b : HardState} {x : Message} (h : a.Covers x) (hab : a.Precedes b)
    (hx : ∀ c, x.voteOf = some c → c ≠ "") : b.Covers x := by
  unfold Covers at *
  rcases hab with hab | ⟨hab, hvote⟩
  · left
    rcases h with h | ⟨h, -⟩ <;> omega
  · rw [← hab]
    refine h.imp_right fun ⟨hterm, hv⟩ => ⟨hterm, ?_⟩
    rcases hvote with hvote | hvote
    · exact (hx _ hv hvote).elim
    · rwa [← hvote]

end HardState

namespace Node

/-! ## Closed forms of the composite outcomes -/

/-- The commit rule: nothing happens, or the commit index moves up to an index of the current
term that a quorum of match values has reached. -/
lemma maybeAdvanceCommitLocked_cases (n : Node) :
    n.maybeAdvanceCommitLocked = n ∨
    ∃ q, n.commitIndex < q ∧ (n.log.term q).1 = n.currentTerm ∧
      n.quorum ≤ n.matchValues.countP (fun x => decide (q ≤ x)) ∧
      n.maybeAdvanceCommitLocked = queueHardStateLocked { n with commitIndex := q } := by
  unfold maybeAdvanceCommitLocked
  extract_lets sorted q
  split_ifs with hlen hq hterm
  · exact .inl rfl
  · exact .inl rfl
  · exact .inl rfl
  · refine .inr ⟨q, by omega, not_not.mp hterm, ?_, rfl⟩
    have hperm : sorted.Perm n.matchValues := List.perm_insertionSort _ _
    rw [← hperm.countP_eq]
    exact le_countP_of_sorted (List.pairwise_insertionSort (· ≤ ·) n.matchValues)
      (by unfold quorum; omega) (not_lt.mp hlen)

lemma becomeLeaderLocked_eq (n : Node) :
    n.becomeLeaderLocked = fanOutAppendEntries
      { n with
        role := .leader
        leaderHint := n.id
        nextIndex := n.peers.foldl (fun ix p => ix.insert p (n.log.lastIndex + 1)) n.nextIndex
        matchIndex := n.peers.foldl (fun ix p => ix.insert p 0) n.matchIndex
        heartbeatElapsed := 0
        heartbeatTimeout := 1 } := rfl

/-! ## The election part of a section -/

/-- A message that a section of the node `i` has queued, `who` being the sender of the message it
handles and `n'` the node when it ends.  A vote is queued behind the hard state that records it. -/
structure Queued (i who : NodeID) (n' : Node) (pm : PendingMsg) : Prop where
  epoch : pm.epoch = n'.stepDownEpoch
  fromNode : pm.msg.fromNode = i
  term : pm.msg.term = n'.currentTerm
  vote : ∀ c, pm.msg.voteOf = some c → n'.votedFor = c ∧ (c = i ∨ c = who)
  behind : pm.msg.voteOf ≠ none → n'.pendingHS = some n'.hardState

/-- What elections need to know about a critical section, `who` being the sender of the
message it handles. -/
structure Follows (who : NodeID) (n n' : Node) : Prop where
  id : n'.id = n.id
  peers : n'.peers = n.peers
  cfg : n'.cfg = n.cfg
  started : n'.started = n.started
  stored : n'.storage.hs = n.storage.hs
  snap : n'.storage.snap = n.storage.snap
  precedes : n.hardState.Precedes n'.hardState
  pendingHS : n'.pendingHS = some n'.hardState ∨
    n'.pendingHS = n.pendingHS ∧ n'.hardState = n.hardState
  epoch : n.stepDownEpoch < n'.stepDownEpoch ∨
    n'.stepDownEpoch = n.stepDownEpoch ∧
      (n'.currentTerm = n.currentTerm ∨ n'.votedFor = n.id)
  outbox : ∃ new, n'.pendingMsgs = n.pendingMsgs ++ new ∧ ∀ pm ∈ new, Queued n.id who n' pm

/-- A section that queues nothing meets every condition on what it queues. -/
lemma outbox_of_eq {who : NodeID} {n n' : Node} (h : n'.pendingMsgs = n.pendingMsgs) :
    ∃ new, n'.pendingMsgs = n.pendingMsgs ++ new ∧ ∀ pm ∈ new, Queued n.id who n' pm :=
  ⟨[], by rw [h, List.append_nil], by simp⟩

lemma Follows.refl (who : NodeID) (n : Node) : Follows who n n where
  id := rfl
  peers := rfl
  cfg := rfl
  started := rfl
  stored := rfl
  snap := rfl
  precedes := .refl _
  pendingHS := .inr ⟨rfl, rfl⟩
  epoch := .inr ⟨rfl, .inl rfl⟩
  outbox := outbox_of_eq rfl

namespace Follows

variable {who : NodeID} {n n₁ n₂ : Node}

lemma retimed (h : Follows who n n₁) (hr : Retimed n₁ n₂) : Follows who n n₂ := by
  obtain ⟨new, heq, hnew⟩ := h.outbox
  obtain ⟨_, _, _, _, _, _, rfl⟩ := hr
  exact { h with outbox := ⟨new, heq, fun pm hpm => { hnew pm hpm with }⟩ }

/-- Queueing messages of the current term and vote. -/
lemma queued (h : Follows who n n₁) {new : List PendingMsg}
    (hnew : ∀ pm ∈ new, Queued n₁.id who n₁ pm) :
    Follows who n { n₁ with pendingMsgs := n₁.pendingMsgs ++ new } := by
  obtain ⟨old, heq, hold⟩ := h.outbox
  refine { h with outbox := ⟨old ++ new, by rw [heq, List.append_assoc], fun pm hpm => ?_⟩ }
  rcases List.mem_append.mp hpm with hpm | hpm
  · exact { hold pm hpm with }
  · have hq := hnew pm hpm
    rw [h.id] at hq
    exact { hq with }

lemma queueMsg (h : Follows who n n₁) {x : Message} (hfrom : x.fromNode = n₁.id)
    (hterm : x.term = n₁.currentTerm)
    (hvote : ∀ c, x.voteOf = some c → n₁.votedFor = c ∧ (c = n₁.id ∨ c = who))
    (hbehind : x.voteOf ≠ none → n₁.pendingHS = some n₁.hardState) :
    Follows who n (n₁.queueMsgLocked x) := by
  show Follows who n { n₁ with pendingMsgs := n₁.pendingMsgs ++ [⟨n₁.stepDownEpoch, x⟩] }
  refine h.queued fun pm hpm => ?_
  rw [List.mem_singleton.mp hpm]
  exact ⟨rfl, hfrom, hterm, hvote, hbehind⟩

lemma fanOutAppendEntries (h : Follows who n n₁) : Follows who n n₁.fanOutAppendEntries := by
  rw [fanOutAppendEntries_eq]
  refine h.queued fun pm hpm => ?_
  obtain ⟨p, -, rfl⟩ := List.mem_map.mp hpm
  exact ⟨rfl, rfl, rfl, fun c hc => by simp [Message.voteOf, appendEntriesFor] at hc,
    fun hc => by simp [Message.voteOf, appendEntriesFor] at hc⟩

/-- A later commit index does not disturb anything elections look at. -/
lemma commitTo (h : Follows who n n₁) (q : ℕ) :
    Follows who n (queueHardStateLocked { n₁ with commitIndex := q }) := by
  obtain ⟨new, heq, hnew⟩ := h.outbox
  exact
    { h with
      pendingHS := .inl rfl
      outbox := ⟨new, heq, fun pm hpm => { hnew pm hpm with behind := fun _ => rfl }⟩ }

lemma maybeAdvanceCommit (h : Follows who n n₁) : Follows who n n₁.maybeAdvanceCommitLocked := by
  rcases n₁.maybeAdvanceCommitLocked_cases with heq | ⟨q, -, -, -, heq⟩
  · rwa [heq]
  · rw [heq]
    exact h.commitTo q

lemma broadcast (h : Follows who n n₁) : Follows who n n₁.broadcastAppendEntriesLocked :=
  h.fanOutAppendEntries.maybeAdvanceCommit

lemma becomeLeader (h : Follows who n n₁) : Follows who n n₁.becomeLeaderLocked := by
  obtain ⟨new, heq, hnew⟩ := h.outbox
  refine fanOutAppendEntries ?_
  exact { h with outbox := ⟨new, heq, fun pm hpm => { hnew pm hpm with }⟩ }

lemma campaigned (who : NodeID) (n : Node) : Follows who n n.campaigned := by
  have hbase : Follows who n (queueHardStateLocked
      { n with
        role := .candidate, currentTerm := n.currentTerm + 1, votedFor := n.id,
        votesReceived := {n.id} }) :=
    { Follows.refl who n with
      precedes := .inl (Nat.lt_succ_self _)
      pendingHS := .inl rfl
      epoch := .inr ⟨rfl, .inr rfl⟩
      outbox := outbox_of_eq rfl }
  rw [Node.campaigned, fanOutRequestVote_eq]
  refine hbase.queued fun pm hpm => ?_
  obtain ⟨p, -, rfl⟩ := List.mem_map.mp hpm
  exact ⟨rfl, rfl, rfl, fun c hc => ⟨Option.some.inj hc, .inl (Option.some.inj hc).symm⟩,
    fun _ => rfl⟩

lemma granted (hvote : n.votedFor = "" ∨ n.votedFor = who) :
    Follows who n (n.granted who) := by
  have hbase : Follows who n (queueHardStateLocked { n with votedFor := who }) :=
    { Follows.refl who n with
      precedes := .inr ⟨rfl, hvote⟩
      pendingHS := .inl rfl
      epoch := .inr ⟨rfl, .inl rfl⟩
      outbox := outbox_of_eq rfl }
  exact hbase.queueMsg rfl rfl
    (fun c hc => ⟨Option.some.inj hc, .inr (Option.some.inj hc).symm⟩) fun _ => rfl

lemma acknowledge (h : Follows who n n₁) (m : Message) :
    Follows who n (n₁.acknowledgeAppendEntries m) := by
  unfold acknowledgeAppendEntries
  extract_lets n₂
  have hn₂ : Follows who n n₂ := by
    dsimp only [n₂]
    split_ifs
    · exact h.commitTo _
    · exact h
  exact hn₂.queueMsg rfl rfl (by simp [Message.voteOf]) (by simp [Message.voteOf])

/-- A section after the term funnel, which queues nothing and opens a new epoch. -/
lemma of_stepDown (h : Follows who n n₁) (hmsgs : n₁.pendingMsgs = n.pendingMsgs)
    (hepoch : n.stepDownEpoch < n₁.stepDownEpoch) (h' : Follows who n₁ n₂) : Follows who n n₂ where
  id := h'.id.trans h.id
  peers := h'.peers.trans h.peers
  cfg := h'.cfg.trans h.cfg
  started := h'.started.trans h.started
  stored := h'.stored.trans h.stored
  snap := h'.snap.trans h.snap
  precedes := h.precedes.trans h'.precedes
  pendingHS := by
    rcases h'.pendingHS with hhs | ⟨hhs, heq⟩
    · exact .inl hhs
    · rw [hhs, heq]
      exact h.pendingHS
  epoch := by
    left
    rcases h'.epoch with hlt | ⟨heq, -⟩ <;> omega
  outbox := by
    rw [← hmsgs, ← h.id]
    exact h'.outbox

end Follows

/-- A write replaces log and storage entries, nothing else. -/
lemma storage_append_hs {s s' : Storage} {es : List Entry} (h : s.append es = .ok s') :
    s'.hs = s.hs ∧ s'.snap = s.snap := by
  obtain ⟨-, rfl⟩ := (Storage.append_eq_ok_iff _ _ _).mp h
  exact ⟨rfl, rfl⟩

lemma storage_truncateSuffix_hs {s s' : Storage} {start : ℕ}
    (h : s.truncateSuffix start = .ok s') : s'.hs = s.hs ∧ s'.snap = s.snap := by
  unfold Storage.truncateSuffix at h
  split_ifs at h <;> cases h <;> exact ⟨rfl, rfl⟩

lemma canGrantVote_of_grant {n : Node} {m : Message} (hterm : m.term = n.currentTerm)
    (hvote : n.votedFor = "" ∨ n.votedFor = m.fromNode)
    (hup : isCandidateUpToDate m.lastLogTerm m.lastLogIndex n.log.lastTerm n.log.lastIndex) :
    n.canGrantVote m = true := by
  rw [canGrantVote, if_neg (by omega), if_neg fun hother => hvote.elim hother.1 hother.2]
  exact hup

theorem follows_of_handled {env : Env} {m : Message} {n n' : Node} {who : NodeID}
    (hwho : m.type = .requestVote → n.canGrantVote m = true → m.fromNode = who)
    (h : Handled env m n n') : Follows who n n' := by
  cases h with
  | quiet hr => exact (Follows.refl _ n).retimed hr
  | campaign _ _ _ hr => exact (Follows.campaigned _ n).retimed hr
  | campaignWon _ _ _ hr => exact ((Follows.campaigned _ n).retimed hr).becomeLeader
  | heartbeat _ _ hr => exact ((Follows.refl _ n).retimed hr).broadcast
  | grant ht hterm hvote hup hr =>
      obtain rfl := hwho ht (canGrantVote_of_grant hterm hvote hup)
      exact (Follows.granted hvote).retimed hr
  | refuse x hterm hfrom hvote _ _ hr =>
      exact ((Follows.refl _ n).queueMsg hfrom hterm (by simp [hvote]) (by simp [hvote])).retimed hr
  | tally => exact { Follows.refl who n with outbox := outbox_of_eq rfl }
  | win =>
      refine Follows.becomeLeader ?_
      exact { Follows.refl who n with outbox := outbox_of_eq rfl }
  | accept _ _ hr => exact ((Follows.refl _ n).retimed hr).acknowledge m
  | write _ _ _ htrunc happ hr =>
      refine Follows.acknowledge (Follows.retimed ?_ hr) m
      obtain ⟨hhs, hsnap⟩ := storage_truncateSuffix_hs htrunc
      obtain ⟨hhs', hsnap'⟩ := storage_append_hs happ
      exact
        { Follows.refl who n with
          stored := hhs'.trans hhs
          snap := hsnap'.trans hsnap
          outbox := outbox_of_eq rfl }
  | mirrorFailed _ _ _ _ hs hr =>
      refine Follows.retimed (Follows.queueMsg ?_ rfl rfl (by simp [Message.voteOf])
        (by simp [Message.voteOf])) hr
      rcases hs with rfl | hs
      · exact { Follows.refl who n with outbox := outbox_of_eq rfl }
      · obtain ⟨hhs, hsnap⟩ := storage_truncateSuffix_hs hs
        exact
          { Follows.refl who n with stored := hhs, snap := hsnap, outbox := outbox_of_eq rfl }
  | progress =>
      refine Follows.maybeAdvanceCommit ?_
      exact { Follows.refl who n with outbox := outbox_of_eq rfl }
  | backoff => exact { Follows.refl who n with outbox := outbox_of_eq rfl }

/-- The term funnel keeps all messages queued so far, and retires them if it steps down. -/
lemma maybeStepDownLocked_cases (n : Node) (T : ℕ) :
    T ≤ n.currentTerm ∧ n.maybeStepDownLocked T = n ∨
    n.currentTerm < T ∧ Retimed
      { n with
        currentTerm := T, votedFor := "", role := .follower, votesReceived := ∅,
        stepDownEpoch := n.stepDownEpoch + 1, pendingHS := some ⟨T, "", n.commitIndex⟩ }
      (n.maybeStepDownLocked T) := by
  unfold maybeStepDownLocked
  split_ifs with hle
  · exact .inl ⟨hle, rfl⟩
  · exact .inr ⟨by omega, _, _, _, _, _, _, by rfl⟩

theorem follows_of_step {env : Env} {m : Message} {n n' : Node} {who : NodeID}
    (hwho : m.type = .requestVote →
      (n.maybeStepDownLocked m.term).canGrantVote m = true → m.fromNode = who)
    (h : Handled env m (n.maybeStepDownLocked m.term) n') : Follows who n n' := by
  rcases n.maybeStepDownLocked_cases m.term with ⟨-, heq⟩ | ⟨hlt, hr⟩
  · rw [heq] at h hwho
    exact follows_of_handled hwho h
  · generalize n.maybeStepDownLocked m.term = n₀ at h hr hwho
    obtain ⟨_, _, _, _, _, _, rfl⟩ := hr
    refine Follows.of_stepDown ?_ (by rfl) (by simp) (follows_of_handled hwho h)
    exact
      { Follows.refl who n with
        precedes := .inl hlt
        pendingHS := .inl rfl
        epoch := .inl (by simp)
        outbox := outbox_of_eq rfl }

/-- If a request that is granted names its sender, the section can be taken to be for a node with
a name. -/
lemma exists_who {i : NodeID} {n : Node} {m : Message}
    (hm : m.type = .requestVote → n.canGrantVote m = true → m.fromNode ≠ "") (hi : i ≠ "") :
    ∃ who, (m.type = .requestVote → n.canGrantVote m = true → m.fromNode = who) ∧ who ≠ "" := by
  by_cases hgrant : m.type = .requestVote ∧ n.canGrantVote m = true
  · exact ⟨m.fromNode, fun _ _ => rfl, hm hgrant.1 hgrant.2⟩
  · exact ⟨i, fun ht hg => (hgrant ⟨ht, hg⟩).elim, hi⟩

theorem follows_of_proposed (who : NodeID) {n : Node} {data : Data} {s : Storage}
    (h : n.storage.append [n.newEntry data] = .ok s) :
    Follows who n (n.proposed data s).broadcastAppendEntriesLocked := by
  refine Follows.broadcast ?_
  obtain ⟨hhs, hsnap⟩ := storage_append_hs h
  exact { Follows.refl who n with stored := hhs, snap := hsnap, outbox := outbox_of_eq rfl }

end Node

end ToyRaft
