import ToyRaft.Core.Node

/-!
# What one critical section does to a node

Every `Step` is a term funnel followed by one handler.  `Handled` says once and for all what
the handlers can do: each constructor is one outcome of one handler, with the checks that led
to it, and the resulting node is given up to the timers and the leader hint (`Retimed`).
`handled_of_dispatch` is the only place where the handlers are unfolded; every invariant is
derived from `Handled`.
-/

namespace ToyRaft

/-- The vote a message commits its sender to: a `RequestVote` is a vote for oneself, a
granted response one for its addressee. -/
def Message.voteOf (x : Message) : Option NodeID :=
  match x.type with
  | .requestVote => some x.fromNode
  | .requestVoteResponse => if x.voteGranted then some x.toNode else none
  | _ => none

namespace Node

/-- The peers other than the node itself. -/
def others (n : Node) : List NodeID := n.peers.filter (fun p => p ≠ n.id)

/-- Two nodes that differ at most in timers and leader hint. -/
def Retimed (n n' : Node) : Prop :=
  ∃ (et : ℤ) (ee lh he ht : ℕ) (hint : NodeID),
    n' = { n with
      electionTimeout := et, electionElapsed := ee, lastHeartbeat := lh,
      heartbeatElapsed := he, heartbeatTimeout := ht, leaderHint := hint }

lemma Retimed.rfl {n : Node} : Retimed n n := ⟨_, _, _, _, _, _, by rfl⟩

/-! ## Closed forms of the loops -/

/-- A fan-out loop queues one message per other peer. -/
lemma foldl_queueMsg (mk : Node → NodeID → Message)
    (hmk : ∀ n m p, mk (queueMsgLocked n m) p = mk n p) (ps : List NodeID) (n : Node) :
    ps.foldl (fun n p => if p = n.id then n else n.queueMsgLocked (mk n p)) n =
      { n with
        pendingMsgs := n.pendingMsgs ++
          (ps.filter (fun p => p ≠ n.id)).map (fun p => ⟨n.stepDownEpoch, mk n p⟩) } := by
  induction ps generalizing n with
  | nil => simp
  | cons p ps ih =>
      rw [List.foldl_cons]
      by_cases hp : p = n.id
      · rw [if_pos hp, ih, List.filter_cons_of_neg (by simpa using hp)]
      · rw [if_neg hp, ih, List.filter_cons_of_pos (by simpa using hp)]
        simp only [hmk]
        simp only [queueMsgLocked, List.map_cons, List.append_assoc, List.singleton_append]
        rfl

lemma fanOutAppendEntries_eq (n : Node) :
    n.fanOutAppendEntries =
      { n with
        pendingMsgs := n.pendingMsgs ++
          n.others.map (fun p => ⟨n.stepDownEpoch, n.appendEntriesFor p⟩) } :=
  foldl_queueMsg appendEntriesFor (fun _ _ _ => by rfl) n.peers n

lemma fanOutRequestVote_eq (n : Node) :
    n.fanOutRequestVote =
      { n with
        pendingMsgs := n.pendingMsgs ++
          n.others.map (fun p => ⟨n.stepDownEpoch, n.requestVoteFor p⟩) } :=
  foldl_queueMsg requestVoteFor (fun _ _ _ => by rfl) n.peers n

/-! ## Named outcomes -/

/-- The node after a candidacy, before a possible immediate win. -/
def campaigned (n : Node) : Node :=
  let n :=
    { n with
      role := .candidate
      currentTerm := n.currentTerm + 1
      votedFor := n.id
      votesReceived := {n.id} }
  fanOutRequestVote n.queueHardStateLocked

/-- The node after granting its vote to `c`. -/
def granted (n : Node) (c : NodeID) : Node :=
  let n := queueHardStateLocked { n with votedFor := c }
  n.queueMsgLocked
    { type := .requestVoteResponse
      term := n.currentTerm
      fromNode := n.id
      toNode := c
      voteGranted := true }

/-- The node after counting the vote of `v`. -/
def tallied (n : Node) (v : NodeID) : Node :=
  { n with votesReceived := insert v n.votesReceived }

/-- The leader after recording the progress `m` reports. -/
def progressed (n : Node) (m : Message) : Node :=
  { n with
    matchIndex := n.matchIndex.insert m.fromNode m.matchIndex
    nextIndex := n.nextIndex.insert m.fromNode (m.matchIndex + 1) }

/-- The log after the receiver writes the entries of `m`. -/
def writtenLog (n : Node) (m : Message) : Log :=
  (n.log.truncateSuffix (n.firstConflictIndex m.entries)).append
    (entriesFrom (n.firstConflictIndex m.entries) m.entries)

/-- The checks an `AppendEntries` passes before anything is written. -/
structure Passes (n : Node) (m : Message) : Prop where
  type : m.type = .appendEntries
  term : m.term = n.currentTerm
  prev : n.log.hasEntry m.prevLogIndex m.prevLogTerm = true

/-- The outcomes of a handler, on a node whose term has caught up with the message. -/
inductive Handled (env : Env) (m : Message) (n : Node) : Node → Prop
  | quiet {n' : Node} (hr : Retimed n n') : Handled env m n n'
  /-- An election timeout. -/
  | campaign {n' : Node} (ht : m.type = .tick) (hrole : n.role ≠ .leader) (hq : 1 < n.quorum)
      (hr : Retimed n.campaigned n') : Handled env m n n'
  /-- An election timeout in a cluster of one. -/
  | campaignWon {n₁ : Node} (ht : m.type = .tick) (hrole : n.role ≠ .leader)
      (hq : n.quorum ≤ 1) (hr : Retimed n.campaigned n₁) :
      Handled env m n n₁.becomeLeaderLocked
  /-- A heartbeat round. -/
  | heartbeat {n₁ : Node} (ht : m.type = .tick) (hrole : n.role = .leader)
      (hr : Retimed n n₁) : Handled env m n n₁.broadcastAppendEntriesLocked
  | grant {n' : Node} (ht : m.type = .requestVote) (hterm : m.term = n.currentTerm)
      (hvote : n.votedFor = "" ∨ n.votedFor = m.fromNode)
      (hup : isCandidateUpToDate m.lastLogTerm m.lastLogIndex n.log.lastTerm n.log.lastIndex)
      (hr : Retimed (n.granted m.fromNode) n') : Handled env m n n'
  /-- A refusal: a message that promises nothing. -/
  | refuse {n' : Node} (x : Message) (hterm : x.term = n.currentTerm) (hfrom : x.fromNode = n.id)
      (hvote : x.voteOf = none) (htype : x.type ≠ .appendEntries) (hsucc : x.success = false)
      (hr : Retimed (n.queueMsgLocked x) n') : Handled env m n n'
  | tally (ht : m.type = .requestVoteResponse) (hg : m.voteGranted = true)
      (hrole : n.role = .candidate) (hterm : m.term = n.currentTerm) :
      Handled env m n (n.tallied m.fromNode)
  | win (ht : m.type = .requestVoteResponse) (hg : m.voteGranted = true)
      (hrole : n.role = .candidate) (hterm : m.term = n.currentTerm)
      (hq : n.quorum ≤ (n.tallied m.fromNode).votesReceived.card) :
      Handled env m n (n.tallied m.fromNode).becomeLeaderLocked
  /-- An accepted `AppendEntries` all of whose entries are already there. -/
  | accept {n₁ : Node} (hp : n.Passes m) (hfc : n.firstConflictIndex m.entries = 0)
      (hr : Retimed n n₁) : Handled env m n (n₁.acknowledgeAppendEntries m)
  /-- An accepted `AppendEntries` that writes. -/
  | write {n₁ : Node} {s s' : Storage} (hp : n.Passes m)
      (hfc : n.firstConflictIndex m.entries ≠ 0)
      (hguard : ¬ (n.firstConflictIndex m.entries ≤ n.log.lastIndex ∧
        n.firstConflictIndex m.entries ≤ n.commitIndex))
      (htrunc : n.storage.truncateSuffix (n.firstConflictIndex m.entries) = .ok s)
      (happ : s.append (entriesFrom (n.firstConflictIndex m.entries) m.entries) = .ok s')
      (hr : Retimed { n with log := n.writtenLog m, storage := s' } n₁) :
      Handled env m n (n₁.acknowledgeAppendEntries m)
  /-- The mirror of a write failed: the in-memory log has it, the storage does not. -/
  | mirrorFailed {n' : Node} {s : Storage} (hp : n.Passes m)
      (hfc : n.firstConflictIndex m.entries ≠ 0)
      (hguard : ¬ (n.firstConflictIndex m.entries ≤ n.log.lastIndex ∧
        n.firstConflictIndex m.entries ≤ n.commitIndex))
      (hfail : (n.mirrorLogWriteLocked env (n.firstConflictIndex m.entries)
        (entriesFrom (n.firstConflictIndex m.entries) m.entries)).2 ≠ none)
      (hs : s = n.storage ∨ n.storage.truncateSuffix (n.firstConflictIndex m.entries) = .ok s)
      (hr : Retimed (replyAppendEntriesLocked
        { n with log := n.writtenLog m, storage := s } m.fromNode false 0) n') :
      Handled env m n n'
  | progress (ht : m.type = .appendEntriesResp) (hs : m.success = true)
      (hrole : n.role = .leader) (hterm : m.term = n.currentTerm) :
      Handled env m n (n.progressed m).maybeAdvanceCommitLocked
  | backoff (ht : m.type = .appendEntriesResp) (hrole : n.role = .leader)
      (hterm : m.term = n.currentTerm) (hnext : 1 < n.nextIndex.get m.fromNode) :
      Handled env m n
        { n with
          nextIndex := n.nextIndex.insert m.fromNode (n.nextIndex.get m.fromNode - 1) }

/-! ## The handlers, case by case -/

/-- A candidacy is `campaigned` followed by the check for an immediate win. -/
lemma becomeCandidateLocked_eq (draw : ℕ) (n : Node) :
    ∃ n₁, Retimed n.campaigned n₁ ∧
      becomeCandidateLocked draw n = if n.quorum ≤ 1 then n₁.becomeLeaderLocked else n₁ := by
  refine ⟨fanOutRequestVote (queueHardStateLocked (resetElectionTimeoutLocked draw
    { n with
      role := .candidate
      currentTerm := n.currentTerm + 1
      votedFor := n.id
      leaderHint := ""
      votesReceived := {n.id} })), ?_, ?_⟩
  · rw [campaigned, fanOutRequestVote_eq, fanOutRequestVote_eq]
    exact ⟨_, _, _, _, _, _, by rfl⟩
  · rw [becomeCandidateLocked, fanOutRequestVote_eq]
    rfl

lemma Retimed.campaigned {n n₀ n₁ : Node} (h₀ : Retimed n n₀)
    (h₁ : Retimed n₀.campaigned n₁) : Retimed n.campaigned n₁ := by
  obtain ⟨_, _, _, _, _, _, rfl⟩ := h₀
  obtain ⟨_, _, _, _, _, _, rfl⟩ := h₁
  rw [Node.campaigned, Node.campaigned, fanOutRequestVote_eq, fanOutRequestVote_eq]
  exact ⟨_, _, _, _, _, _, by rfl⟩

lemma handled_becomeCandidate {env : Env} {m : Message} {n n₀ : Node} (ht : m.type = .tick)
    (hrole : n.role ≠ .leader) (hr : Retimed n n₀) (draw : ℕ) :
    Handled env m n (becomeCandidateLocked draw n₀) := by
  obtain ⟨n₁, hr₁, heq⟩ := becomeCandidateLocked_eq draw n₀
  have hquorum : n₀.quorum = n.quorum := by
    obtain ⟨_, _, _, _, _, _, rfl⟩ := hr
    rfl
  rw [heq, hquorum]
  split_ifs with hq
  · exact .campaignWon ht hrole hq (hr.campaigned hr₁)
  · exact .campaign ht hrole (by omega) (hr.campaigned hr₁)

lemma handled_tickFollower {env : Env} {m : Message} {n : Node} (ht : m.type = .tick)
    (hrole : n.role = .follower) (draw : ℕ) :
    Handled env m n (n.tickFollowerLocked draw) := by
  dsimp only [tickFollowerLocked]
  split_ifs
  · exact handled_becomeCandidate ht (by simp [hrole]) ⟨_, _, _, _, _, _, by rfl⟩ draw
  · exact .quiet ⟨_, _, _, _, _, _, by rfl⟩

lemma handled_tickCandidate {env : Env} {m : Message} {n : Node} (ht : m.type = .tick)
    (hrole : n.role = .candidate) (draw : ℕ) :
    Handled env m n (n.tickCandidateLocked draw) := by
  dsimp only [tickCandidateLocked]
  split_ifs
  · exact handled_becomeCandidate ht (by simp [hrole]) ⟨_, _, _, _, _, _, by rfl⟩ draw
  · exact .quiet ⟨_, _, _, _, _, _, by rfl⟩

lemma handled_tickLeader {env : Env} {m : Message} {n : Node} (ht : m.type = .tick)
    (hrole : n.role = .leader) : Handled env m n n.tickLeaderLocked := by
  dsimp only [tickLeaderLocked]
  split_ifs
  · exact .quiet ⟨_, _, _, _, _, _, by rfl⟩
  · exact .heartbeat ht hrole ⟨_, _, _, _, _, _, by rfl⟩

lemma handled_requestVote {env : Env} {m : Message} {n : Node} (ht : m.type = .requestVote)
    (hle : m.term ≤ n.currentTerm) (draw : ℕ) :
    Handled env m n (n.handleRequestVoteLocked draw m) := by
  unfold handleRequestVoteLocked
  cases hg : n.canGrantVote m with
  | false =>
      exact .refuse _ (by rfl) (by rfl) (by simp [Message.voteOf]) (by simp) (by rfl) .rfl
  | true =>
      unfold canGrantVote at hg
      split_ifs at hg with hlt hvote
      refine .grant ht (by omega) ?_ hg ⟨_, _, _, _, _, _, by rfl⟩
      by_contra hcon
      rw [not_or] at hcon
      exact hvote hcon

lemma handled_requestVoteResponse {env : Env} {m : Message} {n : Node}
    (ht : m.type = .requestVoteResponse) :
    Handled env m n (n.handleRequestVoteResponseLocked m) := by
  dsimp only [handleRequestVoteResponseLocked]
  split_ifs with hskip hgrant hq
  · exact .quiet .rfl
  · exact .quiet .rfl
  · rw [not_or, not_not, not_not] at hskip
    exact .win ht (by simpa using hgrant) hskip.1 hskip.2 hq
  · rw [not_or, not_not, not_not] at hskip
    exact .tally ht (by simpa using hgrant) hskip.1 hskip.2

lemma handled_appendEntriesResp {env : Env} {m : Message} {n : Node}
    (ht : m.type = .appendEntriesResp) :
    Handled env m n (n.handleAppendEntriesRespLocked m) := by
  unfold handleAppendEntriesRespLocked
  split_ifs with hskip hsucc hnext
  · exact .quiet .rfl
  · rw [not_or, not_not, not_not] at hskip
    exact .progress ht hsucc hskip.1 hskip.2
  · rw [not_or, not_not, not_not] at hskip
    exact .backoff ht hskip.1 hskip.2 hnext
  · exact .quiet .rfl

/-- The mirror call only touches the storage. -/
lemma mirrorLogWriteLocked_cases (env : Env) (n : Node) (start : ℕ) (suffix : List Entry) :
    (∃ s s', n.storage.truncateSuffix start = .ok s ∧ s.append suffix = .ok s' ∧
      n.mirrorLogWriteLocked env start suffix = ({ n with storage := s' }, none)) ∨
    (∃ s err, (s = n.storage ∨ n.storage.truncateSuffix start = .ok s) ∧
      n.mirrorLogWriteLocked env start suffix = ({ n with storage := s }, some err)) := by
  cases htr : faulty env.truncateErr (n.storage.truncateSuffix start) with
  | error err =>
      exact .inr ⟨n.storage, err, .inl rfl, by simp only [mirrorLogWriteLocked, htr]⟩
  | ok s =>
      cases hap : faulty env.appendErr (s.append suffix) with
      | error err =>
          exact .inr ⟨s, err, .inr (Storage.faulty_eq_ok htr).2,
            by simp only [mirrorLogWriteLocked, htr, hap]⟩
      | ok s' =>
          exact .inl ⟨s, s', (Storage.faulty_eq_ok htr).2, (Storage.faulty_eq_ok hap).2,
            by simp only [mirrorLogWriteLocked, htr, hap]⟩

lemma mirrorLogWriteLocked_snd_congr (env : Env) {n n₀ : Node} (h : n₀.storage = n.storage)
    (start : ℕ) (suffix : List Entry) :
    (n₀.mirrorLogWriteLocked env start suffix).2 =
      (n.mirrorLogWriteLocked env start suffix).2 := by
  unfold mirrorLogWriteLocked
  rw [h]
  split
  · rfl
  · split <;> rfl

lemma firstConflictIndex_congr {n n₀ : Node} (h : n₀.log = n.log) (es : List Entry) :
    n₀.firstConflictIndex es = n.firstConflictIndex es := by
  induction es with
  | nil => rfl
  | cons e es ih => rw [firstConflictIndex, firstConflictIndex, h, ih]

lemma handled_refuseAppend {env : Env} {m : Message} {n n₀ : Node} (hr : Retimed n n₀)
    (dest : NodeID) : Handled env m n (n₀.replyAppendEntriesLocked dest false 0) := by
  obtain ⟨_, _, _, _, _, _, rfl⟩ := hr
  exact .refuse
    { type := .appendEntriesResp
      term := n.currentTerm
      fromNode := n.id
      toNode := dest }
    rfl rfl rfl (by simp) rfl ⟨_, _, _, _, _, _, by rfl⟩

lemma handled_writeEntries {env : Env} {m : Message} {n n₀ n' : Node} (hr : Retimed n n₀)
    (hp : n.Passes m) (hfc : n.firstConflictIndex m.entries ≠ 0)
    (hguard : ¬ (n.firstConflictIndex m.entries ≤ n.log.lastIndex ∧
      n.firstConflictIndex m.entries ≤ n.commitIndex))
    (h : (match mirrorLogWriteLocked env { n₀ with log := n.writtenLog m }
        (n.firstConflictIndex m.entries)
        (entriesFrom (n.firstConflictIndex m.entries) m.entries) with
      | (n, some _) => some (n.replyAppendEntriesLocked m.fromNode false 0)
      | (n, none) => some (n.acknowledgeAppendEntries m)) = some n') :
    Handled env m n n' := by
  obtain ⟨n₁, hn₁⟩ : ∃ n₁ : Node, n₁ = { n₀ with log := n.writtenLog m } := ⟨_, rfl⟩
  obtain ⟨_, _, _, _, _, _, rfl⟩ := hr
  have hst : n₁.storage = n.storage := by rw [hn₁]
  rw [← hn₁] at h
  rcases mirrorLogWriteLocked_cases env n₁ (n.firstConflictIndex m.entries)
      (entriesFrom (n.firstConflictIndex m.entries) m.entries)
    with ⟨s, s', hs, hs', heq⟩ | ⟨s, err, hs, heq⟩
  · rw [heq] at h
    rw [hst] at hs
    obtain rfl := Option.some.inj h
    exact .write hp hfc hguard hs hs' ⟨_, _, _, _, _, _, by rw [hn₁]⟩
  · have hsnd := (mirrorLogWriteLocked_snd_congr env hst _ _).symm.trans
      (congrArg Prod.snd heq)
    rw [heq] at h
    rw [hst] at hs
    obtain rfl := Option.some.inj h
    refine .mirrorFailed hp hfc hguard ?_ hs ⟨_, _, _, _, _, _, by rw [hn₁]; rfl⟩
    rw [hsnd]
    exact Option.some_ne_none err

lemma handled_appendEntries {env : Env} {m : Message} {n n' : Node}
    (ht : m.type = .appendEntries) (hle : m.term ≤ n.currentTerm)
    (h : n.handleAppendEntriesLocked env m = some n') : Handled env m n n' := by
  by_cases hlt : m.term < n.currentTerm
  · rw [handleAppendEntriesLocked, if_pos hlt] at h
    obtain rfl := Option.some.inj h
    exact handled_refuseAppend .rfl _
  · rw [handleAppendEntriesLocked, if_neg hlt] at h
    extract_lets n₀ fc suffix n₁ at h
    have hr : Retimed n n₀ := ⟨_, _, _, _, _, _, by rfl⟩
    have hlog : n₀.log = n.log := rfl
    have hfc : fc = n.firstConflictIndex m.entries := firstConflictIndex_congr hlog _
    have hn₁ : n₁ = { n₀ with log := n.writtenLog m } := by
      rw [writtenLog, ← hfc]
    have hcommit : n₀.commitIndex = n.commitIndex := rfl
    have hsuffix : suffix = entriesFrom fc m.entries := rfl
    clear_value n₁ suffix fc n₀
    subst hsuffix hfc
    rw [hlog, hcommit] at h
    subst hn₁
    by_cases hprev : n.log.hasEntry m.prevLogIndex m.prevLogTerm = true
    · have hp : n.Passes m := ⟨ht, by omega, hprev⟩
      rw [if_neg (by simpa using hprev)] at h
      by_cases hfc : n.firstConflictIndex m.entries ≠ 0
      · rw [if_pos hfc] at h
        split_ifs at h with hguard
        exact handled_writeEntries hr hp hfc hguard h
      · rw [if_neg hfc] at h
        obtain rfl := Option.some.inj h
        exact .accept hp (not_not.mp hfc) hr
    · rw [if_pos (by simpa using hprev)] at h
      obtain rfl := Option.some.inj h
      exact handled_refuseAppend hr _

/-! ## Proposals -/

/-- The entry a leader creates for a command. -/
def newEntry (n : Node) (data : Data) : Entry :=
  { term := n.currentTerm, index := n.log.lastIndex + 1, data := data }

/-- The leader after appending a command it has mirrored into the storage `s`. -/
def proposed (n : Node) (data : Data) (s : Storage) : Node :=
  { n with
    log := n.log.append [n.newEntry data]
    storage := s
    matchIndex := n.matchIndex.insert n.id (n.log.lastIndex + 1) }

/-- `proposeLocked` on a leader: the entry is mirrored, or the append is undone. -/
lemma proposeLocked_cases (env : Env) (n : Node) (data : Data) (hrole : n.role = .leader) :
    (∃ s, env.appendErr = false ∧ n.storage.append [n.newEntry data] = .ok s ∧
      n.proposeLocked env data = (n.proposed data s, n.log.lastIndex + 1, true)) ∨
    (∃ err, faulty env.appendErr (n.storage.append [n.newEntry data]) = .error err ∧
      n.proposeLocked env data =
        ({ n with
          log := (n.log.append [n.newEntry data]).truncateSuffix (n.log.lastIndex + 1) },
          0, false)) := by
  unfold proposeLocked
  rw [if_neg (by simp [hrole])]
  dsimp only
  cases happ : faulty env.appendErr (n.storage.append [n.newEntry data]) with
  | error err => exact .inr ⟨err, rfl, by rw [newEntry] at happ; rw [happ]; rfl⟩
  | ok s =>
      obtain ⟨hfail, hok⟩ := Storage.faulty_eq_ok happ
      exact .inl ⟨s, hfail, hok, by rw [newEntry] at happ; rw [happ]; rfl⟩

/-! ## The panic -/

/-- The conditions under which `assertTruncateAboveCommit` panics. -/
lemma handleAppendEntriesLocked_eq_none {env : Env} {m : Message} {n : Node}
    (h : n.handleAppendEntriesLocked env m = none) :
    n.currentTerm ≤ m.term ∧ n.log.hasEntry m.prevLogIndex m.prevLogTerm = true ∧
      n.firstConflictIndex m.entries ≠ 0 ∧
      n.firstConflictIndex m.entries ≤ n.log.lastIndex ∧
      n.firstConflictIndex m.entries ≤ n.commitIndex := by
  rw [handleAppendEntriesLocked] at h
  extract_lets n₀ fc suffix n₁ at h
  have hlog : n₀.log = n.log := rfl
  have hfc : fc = n.firstConflictIndex m.entries := firstConflictIndex_congr hlog _
  have hcommit : n₀.commitIndex = n.commitIndex := rfl
  clear_value n₁ suffix fc n₀
  subst hfc
  rw [hlog, hcommit] at h
  split_ifs at h with hlt hprev hne hguard
  · exact ⟨by omega, by simpa using hprev, hne, hguard⟩
  · split at h <;> cases h

/-! ## The whole of `Step` -/

/-- The term funnel is harmless when the term is not higher. -/
lemma stepLocked_eq (env : Env) (n : Node) (m : Message) :
    n.stepLocked env m = (n.maybeStepDownLocked m.term).dispatch env m := by
  rw [stepLocked]
  split_ifs with hlt
  · rfl
  · rw [maybeStepDownLocked, if_pos (by omega)]

/-- The term funnel catches up with the message. -/
lemma term_le_maybeStepDownLocked (n : Node) (T : ℕ) :
    T ≤ (n.maybeStepDownLocked T).currentTerm := by
  rw [maybeStepDownLocked]
  split_ifs with hle
  · exact hle
  · exact le_refl _

/-- What `Step` does: the term funnel, then one handler. -/
theorem handled_of_step {env : Env} {m : Message} {n n' : Node} {r : Option StepError}
    (hstarted : n.started = true) (h : n.step env m = some (n', r)) :
    Handled env m (n.maybeStepDownLocked m.term) n' := by
  have hle := n.term_le_maybeStepDownLocked m.term
  rw [step, hstarted, stepLocked_eq] at h
  generalize n.maybeStepDownLocked m.term = n₀ at h hle
  simp only [Bool.not_true, Bool.false_eq_true, if_false, dispatch] at h
  split at h
  next ht =>
    split at h <;> (rename_i hrole; cases h)
    · exact handled_tickFollower ht hrole _
    · exact handled_tickCandidate ht hrole _
    · exact handled_tickLeader ht hrole
  next ht => cases h; exact handled_requestVote ht hle _
  next ht => cases h; exact handled_requestVoteResponse ht
  next ht =>
    obtain ⟨n₁, hn₁, heq⟩ := Option.map_eq_some_iff.mp h
    cases heq
    exact handled_appendEntries ht hle hn₁
  next ht => cases h; exact handled_appendEntriesResp ht
  next => cases h; exact .quiet .rfl

end Node

end ToyRaft
