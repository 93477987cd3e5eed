import ToyRaft.Properties.CommitRule
import ToyRaft.Properties.Electable
import ToyRaft.Properties.LogTerms
import ToyRaft.Properties.Redelivery
import ToyRaft.Properties.StateMachineSafety

/-!
# A command can always be committed everywhere

After an election as in `install` the new leader accepts a command and brings everybody in line,
one follower after the other and one exchange after the other (`Turn.round`).  Each exchange
ends with the follower holding the leader's log, or moves the leader's probe one index down.  Once
all hold it a heartbeat commits the command, and another exchange tells the followers.

The followers can be brought in line because no committed entry of theirs contradicts the
leader's log, which is where `command_possible` needs that no stale tail has been accepted so
far; a cluster in which one has been may be stuck for good.
-/

namespace ToyRaft

namespace Node

lemma mem_outbox_queueMsgLocked (n : Node) (m : Message) : m ∈ (n.queueMsgLocked m).outbox := by
  refine List.mem_map.mpr ⟨⟨n.stepDownEpoch, m⟩, List.mem_filter.mpr ⟨?_, ?_⟩, rfl⟩
  · exact List.mem_append_right _ (List.mem_singleton.mpr rfl)
  · exact decide_eq_true rfl

/-! ## The leader's side -/

/-- If all peers have reached the end of the log, and its last entry is of the current term, the
whole log is committed. -/
lemma Tracks.commit_all {n : Node} (h : n.Tracks) (hall : ∀ p ∈ n.peers, n.reachOf p = n.log.length)
    (hlast : (n.log.term n.log.length).1 = n.currentTerm) :
    n.log.length ≤ n.maybeAdvanceCommitLocked.commitIndex := by
  have hcount : ∀ N, n.quorum ≤ n.peers.countP (fun p => decide (N ≤ n.reachOf p)) ↔
      N ≤ n.log.length := by
    intro N
    have heq : n.peers.countP (fun p => decide (N ≤ n.reachOf p)) =
        if N ≤ n.log.length then n.peers.length else 0 := by
      split_ifs with hN
      · exact List.countP_eq_length.mpr fun p hp => decide_eq_true (by rw [hall p hp]; exact hN)
      · exact List.countP_eq_zero.mpr fun p hp => by rw [hall p hp]; simpa using hN
    rw [heq]
    split_ifs with hN
    · exact ⟨fun _ => hN, fun _ => h.quorum_le⟩
    · refine ⟨fun hq => ?_, fun hN' => (hN hN').elim⟩
      rw [quorum] at hq
      omega
  have hqi := fun N => (h.le_quorumIndex_iff N).trans (hcount N)
  have hlen : ¬ (n.matchValues.insertionSort (· ≤ ·)).length < n.quorum := by
    rw [List.length_insertionSort, h.matchValues_perm.length_eq, List.length_map, not_lt]
    exact h.quorum_le
  have hindex : (n.matchValues.insertionSort (· ≤ ·)).getD
      ((n.matchValues.insertionSort (· ≤ ·)).length - n.quorum) 0 = n.log.length :=
    le_antisymm ((hqi _).mp le_rfl) ((hqi _).mpr le_rfl)
  unfold maybeAdvanceCommitLocked
  dsimp only
  rw [if_neg hlen, hindex]
  split_ifs with hle hterm
  · exact hle
  · exact (hterm hlast).elim
  · exact le_rfl

/-- What the leader's books say is the same, and its commit index has not gone back. -/
structure SameBooks (n n' : Node) : Prop where
  id : n'.id = n.id
  peers : n'.peers = n.peers
  nextIndex : n'.nextIndex = n.nextIndex
  matchIndex : n'.matchIndex = n.matchIndex
  commitIndex : n.commitIndex ≤ n'.commitIndex

lemma Heads.tick {n : Node} {T : ℕ} {l : Log} (h : n.Heads T l) :
    ∃ n', n.step {} { type := .tick } = some (n', none) ∧ n'.Heads T l ∧ n.SameBooks n' ∧
      (∀ p ∈ n.peers, p ≠ n.id → n.appendEntriesFor p ∈ n'.outbox) ∧
      (n.peers.Nodup → n.id ∈ n.peers → (l.term l.length).1 = T →
        (∀ p ∈ n.peers, n.reachOf p = l.length) → l.length ≤ n'.commitIndex) := by
  have hbeat : ¬ n.heartbeatElapsed + 1 < n.heartbeatTimeout := by
    rw [h.heartbeat]
    omega
  have hstep : n.step {} { type := .tick } =
      some (broadcastAppendEntriesLocked { n with heartbeatElapsed := 0 }, none) := by
    have htick : n.tickLeaderLocked =
        broadcastAppendEntriesLocked { n with heartbeatElapsed := 0 } := if_neg hbeat
    rw [step_eq_dispatch h.started (Nat.zero_le _), ← htick]
    simp [dispatch, h.role]
  obtain ⟨c, hs, hc, heq⟩ :=
    (fanOutAppendEntries { n with heartbeatElapsed := 0 }).maybeAdvanceCommitLocked_eq
  have hform : broadcastAppendEntriesLocked { n with heartbeatElapsed := 0 } =
      { n with
        heartbeatElapsed := 0
        commitIndex := c
        pendingHS := hs
        pendingMsgs := n.pendingMsgs ++
          n.others.map (fun p => ⟨n.stepDownEpoch, n.appendEntriesFor p⟩) } := by
    rw [broadcastAppendEntriesLocked, heq, fanOutAppendEntries_eq]
    rfl
  have hc' : n.commitIndex ≤ c := by
    rw [fanOutAppendEntries_eq] at hc
    exact hc
  refine ⟨_, hstep, ?_, ?_, fun p hp hne => ?_, fun hnd hid hlast hall => ?_⟩
  · rw [hform]
    exact ⟨h.started, h.role, h.term, h.log, h.heartbeat, h.next, h.keys⟩
  · rw [hform]
    exact ⟨rfl, rfl, rfl, rfl, hc'⟩
  · rw [hform]
    refine List.mem_map.mpr ⟨⟨n.stepDownEpoch, n.appendEntriesFor p⟩,
      List.mem_filter.mpr ⟨?_, decide_eq_true rfl⟩, rfl⟩
    refine List.mem_append_right _ (List.mem_map.mpr ⟨p, ?_, rfl⟩)
    exact List.mem_filter.mpr ⟨hp, by simpa using hne⟩
  · have htracks : (fanOutAppendEntries { n with heartbeatElapsed := 0 }).Tracks := by
      rw [fanOutAppendEntries_eq]
      exact ⟨hnd, hid, h.keys⟩
    have hcommit := htracks.commit_all (by
        rw [fanOutAppendEntries_eq]
        intro p hp
        show n.reachOf p = n.log.length
        rw [hall p hp, h.log]) (by
        rw [fanOutAppendEntries_eq]
        show (n.log.term n.log.length).1 = n.currentTerm
        rw [h.log, h.term, hlast])
    rw [fanOutAppendEntries_eq] at hcommit
    rw [broadcastAppendEntriesLocked, fanOutAppendEntries_eq, ← h.log]
    exact hcommit

lemma Heads.flushed {n : Node} {T : ℕ} {l : Log} (h : n.Heads T l) : n.flushed.Heads T l :=
  ⟨h.started, h.role, h.term, h.log, h.heartbeat, h.next, h.keys⟩

lemma sameBooks_flushed (n : Node) : n.SameBooks n.flushed := ⟨rfl, rfl, rfl, rfl, le_rfl⟩

lemma SameBooks.trans {n n' n'' : Node} (h : n.SameBooks n') (h' : n'.SameBooks n'') :
    n.SameBooks n'' :=
  ⟨h'.id.trans h.id, h'.peers.trans h.peers, h'.nextIndex.trans h.nextIndex,
    h'.matchIndex.trans h.matchIndex, h.commitIndex.trans h'.commitIndex⟩

/-- Writing to the book of a peer adds no other. -/
lemma keys_insert_perm {m : PeerMap} {ps : List NodeID} (h : m.keys.Perm ps) {p : NodeID}
    (hp : p ∈ ps) (v : ℕ) : (m.insert p v).keys.Perm ps := by
  rw [AList.keys_insert]
  exact (List.perm_cons_erase (h.mem_iff.mpr hp)).symm.trans h

/-- What a response of `p` does to the books: those of the others stay. -/
structure Records (n n' : Node) (p : NodeID) : Prop where
  id : n'.id = n.id
  peers : n'.peers = n.peers
  nextIndex : ∀ q, q ≠ p → n'.nextIndex.get q = n.nextIndex.get q
  matchIndex : ∀ q, q ≠ p → n'.matchIndex.get q = n.matchIndex.get q
  commitIndex : n.commitIndex ≤ n'.commitIndex

lemma Records.trans {n n' n'' : Node} {p : NodeID} (h : n.Records n' p) (h' : n'.Records n'' p) :
    n.Records n'' p :=
  ⟨h'.id.trans h.id, h'.peers.trans h.peers,
    fun q hq => (h'.nextIndex q hq).trans (h.nextIndex q hq),
    fun q hq => (h'.matchIndex q hq).trans (h.matchIndex q hq),
    h.commitIndex.trans h'.commitIndex⟩

lemma Heads.step_success {n : Node} {T : ℕ} {l : Log} (h : n.Heads T l) {x : Message}
    (ht : x.type = .appendEntriesResp) (hterm : x.term = T) (hs : x.success = true)
    (hm : x.matchIndex = l.length) (hp : x.fromNode ∈ n.peers) :
    ∃ n', n.step {} x = some (n', none) ∧ n'.Heads T l ∧ n.Records n' x.fromNode ∧
      n'.matchIndex.get x.fromNode = l.length := by
  have hmine : ¬ (n.role ≠ .leader ∨ x.term ≠ n.currentTerm) := by
    simp [h.role, hterm, h.term]
  have hstep : n.step {} x = some ((n.progressed x).maybeAdvanceCommitLocked, none) := by
    rw [step_eq_dispatch h.started (by rw [hterm, h.term]), dispatch, ht]
    show some (n.handleAppendEntriesRespLocked x, none) = _
    rw [handleAppendEntriesRespLocked, if_neg hmine, if_pos hs]
    rfl
  obtain ⟨c, hs', hc, heq⟩ := (n.progressed x).maybeAdvanceCommitLocked_eq
  rw [heq] at hstep
  refine ⟨_, hstep, ⟨h.started, h.role, h.term, h.log, h.heartbeat, fun p hp' => ?_, ?_⟩,
    ⟨rfl, rfl, fun q hq => PeerMap.get_insert_ne _ _ hq, fun q hq => PeerMap.get_insert_ne _ _ hq,
      hc⟩, ?_⟩
  · show 1 ≤ PeerMap.get (n.nextIndex.insert x.fromNode (x.matchIndex + 1)) p ∧
      PeerMap.get (n.nextIndex.insert x.fromNode (x.matchIndex + 1)) p ≤ l.length + 1
    by_cases hpx : p = x.fromNode
    · rw [hpx, PeerMap.get_insert, hm]
      omega
    · rw [PeerMap.get_insert_ne _ _ hpx]
      exact h.next p hp'
  · exact keys_insert_perm h.keys hp _
  · exact (PeerMap.get_insert _ _ _).trans hm

lemma Heads.step_refusal {n : Node} {T : ℕ} {l : Log} (h : n.Heads T l) {x : Message}
    (ht : x.type = .appendEntriesResp) (hterm : x.term = T) (hs : x.success = false)
    (hnext : 1 < n.nextIndex.get x.fromNode) :
    ∃ n', n.step {} x = some (n', none) ∧ n'.Heads T l ∧ n.Records n' x.fromNode ∧
      n'.nextIndex.get x.fromNode + 1 = n.nextIndex.get x.fromNode := by
  have hmine : ¬ (n.role ≠ .leader ∨ x.term ≠ n.currentTerm) := by
    simp [h.role, hterm, h.term]
  have hstep : n.step {} x = some ({ n with
      nextIndex := n.nextIndex.insert x.fromNode (n.nextIndex.get x.fromNode - 1) }, none) := by
    rw [step_eq_dispatch h.started (by rw [hterm, h.term]), dispatch, ht]
    show some (n.handleAppendEntriesRespLocked x, none) = _
    rw [handleAppendEntriesRespLocked, if_neg hmine, if_neg (by simp [hs]), if_pos hnext]
  have hget : PeerMap.get (n.nextIndex.insert x.fromNode (n.nextIndex.get x.fromNode - 1))
      x.fromNode = n.nextIndex.get x.fromNode - 1 := PeerMap.get_insert _ _ _
  refine ⟨_, hstep, ⟨h.started, h.role, h.term, h.log, h.heartbeat, fun p hp => ?_, h.keys⟩,
    ⟨rfl, rfl, fun q hq => PeerMap.get_insert_ne _ _ hq, fun _ _ => rfl, le_rfl⟩, ?_⟩
  · show 1 ≤ PeerMap.get (n.nextIndex.insert x.fromNode (n.nextIndex.get x.fromNode - 1)) p ∧
      PeerMap.get (n.nextIndex.insert x.fromNode (n.nextIndex.get x.fromNode - 1)) p ≤ _
    have hold := h.next p hp
    by_cases hpx : p = x.fromNode
    · subst hpx
      rw [hget]
      omega
    · rw [PeerMap.get_insert_ne _ _ hpx]
      exact hold
  · show PeerMap.get _ _ + 1 = _
    rw [hget]
    omega

/-! ## The follower's side -/

/-- A follower in term `T` that holds `l`, or can be brought to: then it has nothing of that
term yet. -/
structure Catches (F : Node) (T : ℕ) (l : Log) : Prop where
  attends : F.Attends T
  todo : F.log = l ∨ F.Receptive T l ∧ ∀ e ∈ F.log, e.term < T

lemma Catches.flushed {F : Node} {T : ℕ} {l : Log} (h : F.Catches T l) :
    F.flushed.Catches T l := by
  refine ⟨⟨h.attends.started, h.attends.term, h.attends.contiguous⟩, ?_⟩
  refine h.todo.imp_right fun ⟨hr, hlt⟩ => ⟨?_, hlt⟩
  exact ⟨⟨hr.started, hr.term, hr.contiguous⟩, (alike_flushed F).entries.trans hr.mirrored, hr.pos,
    hr.matching, hr.agrees⟩

/-- What the tail of the receiver queues, and how far it commits. -/
lemma acknowledge_spec (n : Node) (m : Message) :
    (n.acknowledgeAppendEntries m).started = n.started ∧
      min m.leaderCommit (m.prevLogIndex + m.entries.length) ≤
        (n.acknowledgeAppendEntries m).commitIndex ∧
      ({ type := .appendEntriesResp, term := n.currentTerm, fromNode := n.id,
         toNode := m.fromNode, success := true, matchIndex := n.log.lastIndex } : Message) ∈
        (n.acknowledgeAppendEntries m).outbox := by
  unfold acknowledgeAppendEntries
  dsimp only
  split_ifs with hlt
  · exact ⟨rfl, le_rfl, mem_outbox_queueMsgLocked _ _⟩
  · exact ⟨rfl, (min_le_left _ _).trans (not_lt.mp hlt), mem_outbox_queueMsgLocked _ _⟩

/-- A receiver that holds exactly the leader's log accepts every probe within it. -/
lemma hasEntry_self {l : Log} (hl : l.Contiguous) {q : ℕ} (hq : q ≤ l.length) :
    l.hasEntry q (l.term q).1 = true := by
  rw [Log.hasEntry_iff hl, Log.term_fst_eq hl]
  by_cases h0 : q = 0
  · exact .inl ⟨h0, by rw [if_pos h0]⟩
  · have hget : l[q - 1]? = some l[q - 1] := List.getElem?_eq_getElem (by omega)
    exact .inr ⟨h0, l[q - 1], hget, by rw [if_neg h0, hget]; rfl⟩

/-- What the leader's `AppendEntries` does to a follower: it is refused, or the follower holds
the leader's log, and in neither case a stale tail is kept. -/
lemma Catches.step {F : Node} {T : ℕ} {l : Log} {m : Message} (h : F.Catches T l)
    (hl : l.Contiguous) (hnew : ∃ e ∈ l, e.term = T) (hm : m.Replicates T l)
    (hq : m.prevLogIndex ≤ l.length) :
    ∃ F', F.step {} m = some (F', none) ∧ F'.Catches T l ∧ F'.id = F.id ∧
      ¬ F.KeepsStaleTail m ∧
      (F.log ≠ l ∧ m.prevLogIndex ≠ 0 ∧
        ({ type := .appendEntriesResp, term := T, fromNode := F.id, toNode := m.fromNode,
           success := false, matchIndex := 0 } : Message) ∈ F'.outbox ∨
      F'.log = l ∧ min m.leaderCommit l.length ≤ F'.commitIndex ∧
        ({ type := .appendEntriesResp, term := T, fromNode := F.id, toNode := m.fromNode,
           success := true, matchIndex := l.length } : Message) ∈ F'.outbox) := by
  have hF := h.attends
  have hend : m.prevLogIndex + m.entries.length = l.length := by
    rw [hm.entries, List.length_drop]
    omega
  -- an acknowledgement with the leader's log
  have hack : ∀ s : Storage, F.step {} m =
        some (acknowledgeAppendEntries { F.heard m with log := l, storage := s } m, none) →
      ∃ F', F.step {} m = some (F', none) ∧ F'.Catches T l ∧ F'.id = F.id ∧ F'.log = l ∧
        min m.leaderCommit l.length ≤ F'.commitIndex ∧
        ({ type := .appendEntriesResp, term := T, fromNode := F.id, toNode := m.fromNode,
           success := true, matchIndex := l.length } : Message) ∈ F'.outbox := by
    intro s hstep
    obtain ⟨-, hid, -, hcur, hlog, -⟩ :=
      acknowledge_frame { F.heard m with log := l, storage := s } m
    obtain ⟨hst, hcommit, hout⟩ := acknowledge_spec { F.heard m with log := l, storage := s } m
    rw [hend] at hcommit
    refine ⟨_, hstep, ⟨⟨hst.trans hF.started, hcur.trans hF.term, by rw [hlog]; exact hl⟩,
      .inl hlog⟩, hid, hlog, hcommit, ?_⟩
    rw [← Log.lastIndex_eq_length hl, ← hF.term]
    exact hout
  rcases h.todo with heq | ⟨hR, hlt⟩
  · have hprev : F.log.hasEntry m.prevLogIndex m.prevLogTerm = true := by
      rw [heq, hm.prevTerm]
      exact hasEntry_self hl hq
    have hfc := firstConflictIndex_eq_zero hF.contiguous hm (by rw [heq])
    have hstep : F.step {} m = some ((F.heard m).acknowledgeAppendEntries m, none) :=
      hF.step_accepted hm hprev hfc
    have hform : F.heard m = { F.heard m with log := l, storage := F.storage } := by
      rw [← heq]
      rfl
    rw [hform] at hstep
    obtain ⟨F', hF', hcatch, hid, hdone⟩ := hack F.storage hstep
    refine ⟨F', hF', hcatch, hid, ?_, .inr hdone⟩
    rintro ⟨-, -, -, -, e, he, hbeyond, -⟩
    rw [heq] at he
    obtain ⟨p, hp⟩ := List.mem_iff_getElem?.mp he
    have hidx := hl p e hp
    have hlen := (List.getElem?_eq_some_iff.mp hp).1
    omega
  · have hnot : ¬ l <+: F.log := by
      intro hpre
      obtain ⟨e, he, hterm⟩ := hnew
      have := hlt e (hpre.subset he)
      omega
    cases hprev : F.log.hasEntry m.prevLogIndex m.prevLogTerm with
    | false =>
        refine ⟨_, hF.step_refused hm hprev, ⟨⟨hF.started, hF.term, hF.contiguous⟩, .inr ⟨?_, hlt⟩⟩,
          rfl, ?_, .inl ⟨?_, ?_, ?_⟩⟩
        · exact ⟨⟨hF.started, hF.term, hF.contiguous⟩, hR.mirrored, hR.pos, hR.matching, hR.agrees⟩
        · rintro ⟨-, -, htrue, -⟩
          rw [hprev] at htrue
          cases htrue
        · rintro rfl
          exact hnot List.prefix_rfl
        · intro h0
          rw [hm.prevTerm, h0] at hprev
          cases hprev
        · rw [← hF.term]
          exact mem_outbox_queueMsgLocked (F.heard m) _
    | true =>
        obtain ⟨l', s, hadopts, hstep⟩ :=
          hR.step_adopts hl hm (show ({} : Env).truncateErr = false ∧ _ from ⟨rfl, rfl⟩) hprev
        cases hadopts with
        | kept hpre => exact (hnot hpre).elim
        | cut k htake hconf =>
            obtain ⟨F', hF', hcatch, hid, hdone⟩ := hack s hstep
            refine ⟨F', hF', hcatch, hid, ?_, .inr hdone⟩
            rintro ⟨-, -, -, hfc, -⟩
            -- nothing to write would mean that the log is there already
            rw [hF.step_accepted hm hprev hfc] at hF'
            obtain ⟨rfl, -⟩ := Prod.mk.inj (Option.some.inj hF')
            have hlog := (acknowledge_frame (F.heard m) m).2.2.2.2.1.symm.trans hdone.1
            exact hnot (by rw [show F.log = l from hlog])

end Node

namespace Cluster

variable {ρ : Type} {C : Cluster}

/-- Host `h` of member `i` is at rest, and its node leads term `T` with the log `l`. -/
structure Heading (i : NodeID) (h : Host ρ) (T : ℕ) (l : Log) : Prop where
  rests : h.Rests
  id : h.node.id = i
  heads : h.node.Heads T l

/-- Host `h` of member `p` is at rest, and its node follows a leader of term `T` with the
log `l`. -/
structure Catching (p : NodeID) (h : Host ρ) (T : ℕ) (l : Log) : Prop where
  rests : h.Rests
  id : h.node.id = p
  catches : h.node.Catches T l

lemma Turn.beat {w : World ρ} {L : NodeID} {T : ℕ} {l : Log} (hL : L ∈ C.peers)
    (h : Heading L (w.hosts L) T l) :
    ∃ w', C.Turn Node.Whole {L} w w' ∧ Heading L (w'.hosts L) T l ∧
      (w.hosts L).node.SameBooks (w'.hosts L).node ∧
      (∀ p ∈ (w.hosts L).node.peers, p ≠ L → (w.hosts L).node.appendEntriesFor p ∈ w'.net) ∧
      ((w.hosts L).node.peers.Nodup → L ∈ (w.hosts L).node.peers →
        (l.term l.length).1 = T → (∀ p ∈ (w.hosts L).node.peers,
          (w.hosts L).node.reachOf p = l.length) → l.length ≤ (w'.hosts L).node.commitIndex) := by
  obtain ⟨n₁, hstep, hheads₁, hbooks, hsends, hcommit⟩ := h.heads.tick
  obtain ⟨w₁, ht₁, hh₁, -⟩ := Turn.alone Node.Whole hL (Host.tick_goes (C.cfg L) h.rests hstep)
  have hr₁ : (w₁.hosts L).Rests := by
    rw [hh₁]
    exact ⟨h.rests.crashed, h.rests.stopped, h.rests.flush, hheads₁.started⟩
  obtain ⟨w₂, ht₂, hr₂, hnode₂, hnet₂⟩ := Turn.flush Node.Whole hL hr₁
  rw [show (w₁.hosts L).node = n₁ by rw [hh₁]] at hnode₂ hnet₂
  refine ⟨w₂, ht₁.trans ht₂, ⟨hr₂, ?_, ?_⟩, ?_, fun p hp hne => ?_, fun hnd hmem hlast hall => ?_⟩
  · rw [hnode₂]
    exact hbooks.id.trans h.id
  · rw [hnode₂]
    exact hheads₁.flushed
  · rw [hnode₂]
    exact hbooks.trans (Node.sameBooks_flushed n₁)
  · rw [hnet₂]
    exact List.mem_append_right _ (hsends p hp (by rw [h.id]; exact hne))
  · rw [hnode₂]
    exact hcommit hnd (by rw [h.id]; exact hmem) hlast hall

lemma Turn.round {w : World ρ} {L p : NodeID} {T : ℕ} {l : Log} (hL : L ∈ C.peers)
    (hp : p ∈ C.peers) (hne : p ≠ L) (hlead : Heading L (w.hosts L) T l)
    (hpeer : p ∈ (w.hosts L).node.peers) (hfollow : Catching p (w.hosts p) T l)
    (hl : l.Contiguous) (hnew : ∃ e ∈ l, e.term = T) :
    ∃ w', C.Turn Node.Whole {L, p} w w' ∧ Heading L (w'.hosts L) T l ∧
      (w.hosts L).node.Records (w'.hosts L).node p ∧ Catching p (w'.hosts p) T l ∧
      ((w'.hosts p).node.log = l ∧ (w'.hosts L).node.matchIndex.get p = l.length ∧
          min (w.hosts L).node.commitIndex l.length ≤ (w'.hosts p).node.commitIndex ∨
        (w.hosts p).node.log ≠ l ∧
          (w'.hosts L).node.nextIndex.get p + 1 = (w.hosts L).node.nextIndex.get p) := by
  obtain ⟨w₁, ht₁, hlead₁, hbooks, hsends, -⟩ := Turn.beat hL hlead
  have hp₁ : w₁.hosts p = w.hosts p := ht₁.others p hne
  -- the follower hears the leader
  obtain ⟨hnext, hnext'⟩ := hlead.heads.next p hpeer
  have hm : ((w.hosts L).node.appendEntriesFor p).Replicates T l := by
    have hm := Node.appendEntriesFor_replicates (n := (w.hosts L).node) (p := p)
      (by rw [hlead.heads.log]; exact hl) (.inl (by omega))
    rwa [hlead.heads.term, hlead.heads.log] at hm
  have hprev : ((w.hosts L).node.appendEntriesFor p).prevLogIndex =
      (w.hosts L).node.nextIndex.get p - 1 := by
    show Node.prevIndexOf _ = _
    rw [Node.prevIndexOf, if_neg (by omega)]
  obtain ⟨F, hstepF, hcatchF, hidF, htail, hcases⟩ :=
    hfollow.catches.step hl hnew hm (by rw [hprev]; omega)
  rw [← hp₁] at hstepF htail
  have hrp₁ : (w₁.hosts p).Rests := by rw [hp₁]; exact hfollow.rests
  obtain ⟨w₂, ht₂, hh₂, hnet₂⟩ := Turn.deliver hp hrp₁ (hsends p hpeer hne) rfl hstepF htail
  have hr₂ : (w₂.hosts p).Rests := by
    rw [hh₂]
    exact ⟨hrp₁.crashed, hrp₁.stopped, hrp₁.flush, hcatchF.attends.started⟩
  -- it answers
  obtain ⟨w₃, ht₃, hr₃, hnode₃, hnet₃⟩ := Turn.flush Node.Whole hp hr₂
  rw [show (w₂.hosts p).node = F by rw [hh₂]] at hnode₃ hnet₃
  have hL₃ : w₃.hosts L = w₁.hosts L := by
    rw [ht₃.others L (fun h => hne h.symm), ht₂.others L (fun h => hne h.symm)]
  have hlead₃ : Heading L (w₃.hosts L) T l := by rw [hL₃]; exact hlead₁
  have hpeer₃ : p ∈ (w₃.hosts L).node.peers := by rw [hL₃, hbooks.peers]; exact hpeer
  have hcatch₃ : Catching p (w₃.hosts p) T l := by
    refine ⟨hr₃, ?_, ?_⟩
    · rw [hnode₃]
      exact hidF.trans hfollow.id
    · rw [hnode₃]
      exact hcatchF.flushed
  rw [hfollow.id] at hcases
  -- the leader takes the answer
  have hfinish : ∀ {x : Message} {n : Node}, x ∈ F.outbox → x.toNode = L →
      x.type = .appendEntriesResp → (w₃.hosts L).node.step {} x = some (n, none) →
      n.Heads T l → (w₃.hosts L).node.Records n p →
      ∃ w', C.Turn Node.Whole {L, p} w w' ∧ Heading L (w'.hosts L) T l ∧ (w'.hosts L).node = n ∧
        (w.hosts L).node.Records (w'.hosts L).node p ∧ w'.hosts p = w₃.hosts p := by
    intro x n hx hto htype hstep hheads hrec
    obtain ⟨w₄, ht₄, hh₄, -⟩ := Turn.deliver hL hlead₃.rests
      (by rw [hnet₃]; exact List.mem_append_right _ hx) hto hstep
      (fun h => by cases htype.symm.trans h.1)
    refine ⟨w₄, ?_, ⟨?_, ?_, ?_⟩, by rw [hh₄], ?_, ht₄.others p hne⟩
    · exact (((ht₁.mono (by simp)).trans (ht₂.mono (by simp))).trans (ht₃.mono (by simp))).trans
        (ht₄.mono (by simp))
    · rw [hh₄]
      exact ⟨hlead₃.rests.crashed, hlead₃.rests.stopped, hlead₃.rests.flush, hheads.started⟩
    · rw [hh₄]
      exact hrec.id.trans hlead₃.id
    · rw [hh₄]
      exact hheads
    · rw [hh₄]
      rw [hL₃] at hrec
      exact ⟨hrec.id.trans hbooks.id, hrec.peers.trans hbooks.peers,
        fun q hq => (hrec.nextIndex q hq).trans (by rw [hbooks.nextIndex]),
        fun q hq => (hrec.matchIndex q hq).trans (by rw [hbooks.matchIndex]),
        hbooks.commitIndex.trans hrec.commitIndex⟩
  rcases hcases with ⟨hbehind, hzero, hx⟩ | ⟨hsame, hcommit, hx⟩
  · obtain ⟨n, hstep, hheads, hrec, hdown⟩ := hlead₃.heads.step_refusal
      (x := { type := .appendEntriesResp, term := T, fromNode := p,
              toNode := ((w.hosts L).node.appendEntriesFor p).fromNode, success := false,
              matchIndex := 0 }) rfl rfl rfl
      (by rw [hL₃, hbooks.nextIndex]; show 1 < (w.hosts L).node.nextIndex.get p; omega)
    obtain ⟨w₄, ht₄, hlead₄, hnode₄, hrec₄, hp₄⟩ :=
      hfinish hx hlead.id rfl hstep hheads hrec
    refine ⟨w₄, ht₄, hlead₄, hrec₄, by rw [hp₄]; exact hcatch₃, .inr ⟨hbehind, ?_⟩⟩
    rw [hnode₄]
    exact hdown.trans (by rw [hL₃, hbooks.nextIndex])
  · obtain ⟨n, hstep, hheads, hrec, hmatch⟩ := hlead₃.heads.step_success
      (x := { type := .appendEntriesResp, term := T, fromNode := p,
              toNode := ((w.hosts L).node.appendEntriesFor p).fromNode, success := true,
              matchIndex := l.length }) rfl rfl rfl rfl hpeer₃
    obtain ⟨w₄, ht₄, hlead₄, hnode₄, hrec₄, hp₄⟩ :=
      hfinish hx hlead.id rfl hstep hheads hrec
    refine ⟨w₄, ht₄, hlead₄, hrec₄, by rw [hp₄]; exact hcatch₃, .inl ⟨?_, ?_, ?_⟩⟩
    · rw [hp₄, hnode₃]
      exact hsame
    · rw [hnode₄]
      exact hmatch
    · rw [hp₄, hnode₃]
      exact hcommit

lemma Turn.propose {w : World ρ} {L : NodeID} {T : ℕ} {l : Log} (hL : L ∈ C.peers)
    (hlead : Heading L (w.hosts L) T l) (hshaped : (w.hosts L).node.Shaped)
    (hmem : L ∈ (w.hosts L).node.peers) (data : Data) :
    ∃ w', C.Turn Node.Whole {L} w w' ∧ Heading L (w'.hosts L) T (l ++ [⟨T, l.length + 1, data⟩]) ∧
      (w'.hosts L).node.peers = (w.hosts L).node.peers := by
  have hq : C.Quietly Node.Whole w ⟨L, .propose data {}⟩ := by
    refine ⟨⟨hL, rfl, fun m hm => ?_⟩, fun m hm => ?_⟩ <;> cases hm
  obtain ⟨w', ht, hh, -⟩ := Turn.act hq
  have hr := hlead.rests
  obtain ⟨s, -, -, heq⟩ | ⟨err, hfail, -⟩ :=
    (w.hosts L).node.proposeLocked_cases {} data hlead.heads.role
  · have hentry : (w.hosts L).node.newEntry data = ⟨T, l.length + 1, data⟩ := by
      rw [Node.newEntry, hlead.heads.term, Log.lastIndex_eq_length hshaped.contiguous,
        hlead.heads.log]
    obtain ⟨c, hs, -, hform⟩ :=
      ((w.hosts L).node.proposed data s).fanOutAppendEntries.maybeAdvanceCommitLocked_eq
    rw [Node.fanOutAppendEntries_eq] at hform
    have hact : ((w.hosts L).act (C.cfg L) (.propose data {})).1 =
        (w.hosts L).propose {} data := by
      simp [Host.act, hr.crashed]
    have hprop : (w.hosts L).propose {} data = { w.hosts L with
        waiters := (w.hosts L).waiters.insert ((w.hosts L).node.log.lastIndex + 1)
          (w.hosts L).calls.length
        calls := (w.hosts L).calls ++ [{ data := data, idx := (w.hosts L).node.log.lastIndex + 1,
                                         term := (w.hosts L).node.currentTerm }]
        node := ((w.hosts L).node.proposed data s).broadcastAppendEntriesLocked } := by
      rw [Host.propose, if_neg (by simp [hr.stopped]), if_neg (by simp [hlead.heads.role]), heq]
      rfl
    rw [Node.broadcastAppendEntriesLocked, Node.fanOutAppendEntries_eq, hform] at hprop
    rw [hact, hprop] at hh
    have hlog : (w.hosts L).node.log.append [(w.hosts L).node.newEntry data] =
        l ++ [⟨T, l.length + 1, data⟩] := by
      rw [hentry, hlead.heads.log]
      rfl
    refine ⟨w', ht, ⟨?_, ?_, ?_⟩, by rw [hh]; rfl⟩
    · rw [hh]
      exact ⟨hr.crashed, hr.stopped, hr.flush, hr.started⟩
    · rw [hh]
      exact hlead.id
    · rw [hh]
      refine ⟨hr.started, hlead.heads.role, hlead.heads.term, hlog, hlead.heads.heartbeat,
        fun p hp => ?_, ?_⟩
      · obtain ⟨h₁, h₂⟩ := hlead.heads.next p hp
        exact ⟨h₁, h₂.trans (by simp)⟩
      · exact Node.keys_insert_perm hlead.heads.keys (by rw [hlead.id]; exact hmem) _
  · exact (@Host.append_succeeds ρ _ hshaped _ _ _ rfl hfail).elim

variable (C) {ev : ℕ → Event ρ}

end Cluster

end ToyRaft
