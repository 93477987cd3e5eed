import Mathlib.Data.Finset.Max
import Mathlib.Data.Prod.Lex
import ToyRaft.Properties.MatchIndex
import ToyRaft.Runtime.Stretches

/-!
# A leader can always be elected

Whatever has happened in a cluster (crashes in the middle of anything, messages lost or
duplicated, panics, rival candidates), some continuation of the run elects a leader
(`leader_possible`): all members start again, the one with the most up to date log lets its
timer run out until its term is above every other, and everybody votes for it.

The stretches of the continuation accept nothing over a stale tail (`Node.Whole`).
-/

namespace ToyRaft

namespace Node

/-- The node does not accept `m` over a stale tail. -/
def Whole (n : Node) (m : Message) : Prop := ¬ n.KeepsStaleTail m

/-- A node below the candidate's term, and no more up to date, grants its vote. -/
lemma step_grants {n : Node} {m : Message} (hs : n.started = true) (ht : m.type = .requestVote)
    (hterm : n.currentTerm < m.term)
    (hup : isCandidateUpToDate m.lastLogTerm m.lastLogIndex n.log.lastTerm n.log.lastIndex =
      true) :
    ∃ n', n.step {} m = some (n', none) ∧ n'.started = true ∧ n'.role = .follower ∧
      n'.currentTerm = m.term ∧ n.Alike n' ∧
      ({ type := .requestVoteResponse, term := m.term, fromNode := n.id, toNode := m.fromNode,
         voteGranted := true } : Message) ∈ n'.outbox := by
  have hle : ¬ m.term ≤ n.currentTerm := by omega
  have hgrant : (n.maybeStepDownLocked m.term).canGrantVote m = true := by
    rw [maybeStepDownLocked, if_neg hle]
    simp only [canGrantVote, queueHardStateLocked, lt_irrefl, if_false, ne_eq, not_true,
      false_and]
    exact hup
  refine ⟨(n.maybeStepDownLocked m.term).handleRequestVoteLocked 0 m, ?_, ?_⟩
  · rw [step, hs, stepLocked, if_pos hterm, dispatch, ht]
    rfl
  · rw [handleRequestVoteLocked, hgrant, maybeStepDownLocked, if_neg hle]
    refine ⟨hs, rfl, rfl, ⟨rfl, rfl, rfl, rfl, rfl, rfl⟩, ?_⟩
    refine List.mem_map.mpr ⟨⟨n.stepDownEpoch + 1, _⟩, List.mem_filter.mpr ⟨?_, ?_⟩, rfl⟩
    · exact List.mem_append_right _ (List.mem_singleton.mpr rfl)
    · exact decide_eq_true rfl

lemma step_tallies {n : Node} {m : Message} (hs : n.started = true)
    (hrole : n.role = .candidate) (ht : m.type = .requestVoteResponse)
    (hterm : m.term = n.currentTerm) (hg : m.voteGranted = true) :
    n.step {} m = some (if n.quorum ≤ (insert m.fromNode n.votesReceived).card then
      (n.tallied m.fromNode).becomeLeaderLocked else n.tallied m.fromNode, none) := by
  have hmine : ¬ (n.role ≠ .candidate ∨ m.term ≠ n.currentTerm) := by simp [hrole, hterm]
  have hyes : ¬ (!m.voteGranted) = true := by simp [hg]
  rw [step_eq_dispatch hs hterm.le, dispatch, ht]
  show some (n.handleRequestVoteResponseLocked m, none) = _
  rw [handleRequestVoteResponseLocked, if_neg hmine, if_neg hyes]
  rfl

/-- A leader takes no notice of further votes of its term. -/
lemma step_ignores_vote {n : Node} {m : Message} (hs : n.started = true)
    (hrole : n.role = .leader) (ht : m.type = .requestVoteResponse)
    (hterm : m.term = n.currentTerm) : n.step {} m = some (n, none) := by
  rw [step_eq_dispatch hs hterm.le, dispatch, ht]
  simp [handleRequestVoteResponseLocked, hrole]

/-- A leader of term `T` with log `l` that sends heartbeats on every tick and keeps a book for
each peer. -/
structure Heads (n : Node) (T : ℕ) (l : Log) : Prop where
  started : n.started = true
  role : n.role = .leader
  term : n.currentTerm = T
  log : n.log = l
  heartbeat : n.heartbeatTimeout = 1
  next : ∀ p ∈ n.peers, 1 ≤ n.nextIndex.get p ∧ n.nextIndex.get p ≤ l.length + 1
  keys : n.matchIndex.keys.Perm n.peers

lemma keys_foldl_insert (v : ℕ) (ps : List NodeID) (hps : ps.Nodup) :
    (ps.foldl (fun (ix : PeerMap) p => ix.insert p v) ∅).keys.Perm ps := by
  induction ps using List.reverseRecOn with
  | nil => exact .refl _
  | append_singleton ps p ih =>
      rw [List.nodup_append] at hps
      obtain ⟨hnd, -, hdis⟩ := hps
      have hold := ih hnd
      rw [List.foldl_append, List.foldl_cons, List.foldl_nil, AList.keys_insert,
        List.erase_of_not_mem]
      · exact (hold.cons p).trans (List.perm_append_singleton p ps).symm
      · intro hp
        exact hdis p (hold.mem_iff.mp hp) p (List.mem_singleton.mpr rfl) rfl

/-- What a node that has kept no book before becomes when it wins. -/
lemma heads_becomeLeader {n : Node} (hs : n.started = true) (hlog : n.log.Contiguous)
    (hmatch : n.matchIndex = ∅) (hnd : n.peers.Nodup) :
    n.becomeLeaderLocked.Heads n.currentTerm n.log := by
  rw [becomeLeaderLocked, fanOutAppendEntries_eq]
  refine ⟨hs, rfl, rfl, rfl, rfl, fun p hp => ?_, ?_⟩
  · have hnext : PeerMap.get (n.peers.foldl (fun ix q => AList.insert q (n.log.lastIndex + 1) ix)
        n.nextIndex) p = n.log.lastIndex + 1 := PeerMap.get_foldl_insert _ _ _ hp
    show 1 ≤ PeerMap.get _ p ∧ PeerMap.get _ p ≤ _
    rw [hnext, Log.lastIndex_eq_length hlog]
    omega
  · show (n.peers.foldl (fun (ix : PeerMap) q => ix.insert q 0) n.matchIndex).keys.Perm n.peers
    rw [hmatch]
    exact keys_foldl_insert 0 n.peers hnd

/-- What has become of the candidate `n₀` once `V` have voted for it. -/
structure Polls (n₀ n : Node) (V : Finset NodeID) : Prop where
  started : n.started = true
  term : n.currentTerm = n₀.currentTerm
  id : n.id = n₀.id
  peers : n.peers = n₀.peers
  log : n.log = n₀.log
  entries : n.storage.entries = n₀.storage.entries
  commitIndex : n.commitIndex = n₀.commitIndex
  office : n.role = .candidate ∧ V ⊆ n.votesReceived ∧ n.votesReceived.card < n.quorum ∧
    n.matchIndex = ∅ ∨ n.Heads n₀.currentTerm n₀.log

lemma Polls.tally {n₀ n : Node} {V : Finset NodeID} (h : n₀.Polls n V)
    (hlog : n₀.log.Contiguous) (hnd : n₀.peers.Nodup) {m : Message}
    (ht : m.type = .requestVoteResponse) (hterm : m.term = n₀.currentTerm)
    (hg : m.voteGranted = true) :
    ∃ n', n.step {} m = some (n', none) ∧ n₀.Polls n' (insert m.fromNode V) := by
  rcases h.office with ⟨hrole, hV, -, hmatch⟩ | hheads
  · refine ⟨_, step_tallies h.started hrole ht (hterm.trans h.term.symm) hg, ?_⟩
    split_ifs with hq
    · have hheads := heads_becomeLeader (n := n.tallied m.fromNode) h.started
        (by rw [tallied, h.log]; exact hlog) hmatch (by rw [tallied, h.peers]; exact hnd)
      have hterm' : (n.tallied m.fromNode).currentTerm = n₀.currentTerm := h.term
      have hlog' : (n.tallied m.fromNode).log = n₀.log := h.log
      rw [hterm', hlog'] at hheads
      obtain ⟨hid, hpeers, hcur, hl, hst, hc⟩ :
          (n.tallied m.fromNode).becomeLeaderLocked.id = n.id ∧
          (n.tallied m.fromNode).becomeLeaderLocked.peers = n.peers ∧
          (n.tallied m.fromNode).becomeLeaderLocked.currentTerm = n.currentTerm ∧
          (n.tallied m.fromNode).becomeLeaderLocked.log = n.log ∧
          (n.tallied m.fromNode).becomeLeaderLocked.storage = n.storage ∧
          (n.tallied m.fromNode).becomeLeaderLocked.commitIndex = n.commitIndex := by
        rw [becomeLeaderLocked, fanOutAppendEntries_eq]
        exact ⟨rfl, rfl, rfl, rfl, rfl, rfl⟩
      exact ⟨hheads.started, hcur.trans h.term, hid.trans h.id, hpeers.trans h.peers,
        hl.trans h.log, by rw [hst, h.entries], hc.trans h.commitIndex, .inr hheads⟩
    · refine ⟨h.started, h.term, h.id, h.peers, h.log, h.entries, h.commitIndex,
        .inl ⟨hrole, Finset.insert_subset_insert _ hV, not_le.mp hq, hmatch⟩⟩
  · exact ⟨n, step_ignores_vote h.started hheads.role ht (hterm.trans h.term.symm),
      { h with office := .inr hheads }⟩

/-- With the votes of all peers the candidate leads. -/
lemma Polls.heads {n₀ n : Node} {V : Finset NodeID} (h : n₀.Polls n V)
    (hV : n₀.peers.toFinset ⊆ V) (hnd : n₀.peers.Nodup) (hne : n₀.peers ≠ []) :
    n.Heads n₀.currentTerm n₀.log := by
  rcases h.office with ⟨-, hsub, hlt, -⟩ | hheads
  · have hcard := Finset.card_le_card (hV.trans hsub)
    have hpos := List.length_pos_iff.mpr hne
    rw [List.toFinset_card_of_nodup hnd] at hcard
    rw [quorum, h.peers] at hlt
    omega
  · exact hheads

end Node

namespace Cluster

variable {ρ : Type} {C : Cluster}

/-! ## Stretches without a stale tail -/

lemma Turn.deliver {w : World ρ} {i : NodeID} (hi : i ∈ C.peers) (hr : (w.hosts i).Rests)
    {m : Message} (hm : m ∈ w.net) (hto : m.toNode = i) {n : Node}
    (hn : (w.hosts i).node.step {} m = some (n, none))
    (htail : ¬ (w.hosts i).node.KeepsStaleTail m) :
    ∃ w', C.Turn Node.Whole {i} w w' ∧ w'.hosts i = { w.hosts i with node := n } ∧
      w'.net = w.net := by
  have hq : C.Quietly Node.Whole w ⟨i, .step m {}⟩ := by
    refine ⟨⟨hi, rfl, fun x hx => ?_⟩, fun x hx => ?_⟩
    · obtain rfl := Option.some.inj hx
      exact ⟨hm, hto⟩
    · obtain rfl := Option.some.inj (Host.inbound_of_delivered hx)
      exact htail
  obtain ⟨w', ht, hh, hnet⟩ := Turn.act hq
  have hact : (w.hosts i).act (C.cfg i) (.step m {}) = ({ w.hosts i with node := n }, []) := by
    simp [Host.act, hr.crashed, hr.stopped, hn, Host.afterStep]
  rw [hact] at hh hnet
  exact ⟨w', ht, hh, by rw [hnet, List.append_nil]⟩

lemma Turn.restart {w : World ρ} {i : NodeID} (hi : i ∈ C.peers) :
    ∃ w', C.Turn Node.Whole {i} w w' ∧ (w'.hosts i).Rests ∧
      Node.Started (C.cfg i) (w.hosts i).node.storage (w'.hosts i).node := by
  obtain ⟨h', hnew⟩ : ∃ h' : Host ρ,
      Host.new (C.cfg i) (w.hosts i).node.storage 0 .restored = .ok h' := by
    obtain ⟨l, hl⟩ : ∃ l, Node.restoreLogFromStorage (w.hosts i).node.storage = .ok l := by
      unfold Node.restoreLogFromStorage
      split_ifs
      · exact ⟨_, rfl⟩
      · rw [Storage.getEntries_all]
        exact ⟨_, rfl⟩
    unfold Host.new Node.newNode
    dsimp only
    rw [C.valid i hi, hl]
    dsimp only
    split_ifs with _ hfail
    · cases hfail
    · exact ⟨_, rfl⟩
    · exact ⟨_, rfl⟩
  have hq : C.Quietly Node.Whole w ⟨i, .restart 0 .restored⟩ := by
    refine ⟨⟨hi, rfl, fun m hm => ?_⟩, fun m hm => ?_⟩ <;> cases hm
  obtain ⟨w', ht, hh, -⟩ := Turn.act hq
  have hact : ((w.hosts i).act (C.cfg i) (.restart 0 .restored)).1 = h' := by
    show (w.hosts i).restartFrom (C.cfg i) (w.hosts i).node.storage 0 .restored = h'
    rw [Host.restartFrom, hnew]
  rw [hact] at hh
  refine ⟨w', ht, ?_⟩
  rw [hh]
  exact ⟨(Host.rests_of_new hnew).1, (Host.new_cases hnew).1⟩

/-- What each of several members can do on its own they can do one after the other. -/
lemma Turn.each {P Q : NodeID → Host ρ → Prop} (ps : List NodeID) (hnd : ps.Nodup)
    (hdo : ∀ i ∈ ps, ∀ w : World ρ, P i (w.hosts i) →
      ∃ w', C.Turn Node.Whole {i} w w' ∧ Q i (w'.hosts i)) :
    ∀ w : World ρ, (∀ i ∈ ps, P i (w.hosts i)) →
      ∃ w', C.Turn Node.Whole {j | j ∈ ps} w w' ∧ ∀ i ∈ ps, Q i (w'.hosts i) := by
  induction ps with
  | nil =>
      intro w _
      exact ⟨w, .refl _ _, fun i hi => by cases hi⟩
  | cons i ps ih =>
      intro w hP
      obtain ⟨hi, hnd⟩ := List.nodup_cons.mp hnd
      obtain ⟨w₁, ht₁, hQ₁⟩ := hdo i List.mem_cons_self w (hP i List.mem_cons_self)
      obtain ⟨w₂, ht₂, hQ₂⟩ := ih hnd (fun j hj => hdo j (List.mem_cons_of_mem _ hj)) w₁ (by
        intro j hj
        rw [ht₁.others j fun hji => hi (by rwa [← Set.mem_singleton_iff.mp hji])]
        exact hP j (List.mem_cons_of_mem _ hj))
      refine ⟨w₂, ?_, fun j hj => ?_⟩
      · refine (ht₁.mono ?_).trans (ht₂.mono ?_)
        · rintro j rfl
          exact List.mem_cons_self
        · exact fun j hj => List.mem_cons_of_mem _ hj
      · rcases List.mem_cons.mp hj with rfl | hj
        · rw [ht₂.others j hi]
          exact hQ₁
        · exact hQ₂ j hj

/-! ## The election -/

/-- The member `p` can be asked for its vote, grant it, and have it counted. -/
lemma Turn.vote {w : World ρ} {L p : NodeID} (hL : L ∈ C.peers) (hp : p ∈ C.peers)
    (hne : p ≠ L) (hrL : (w.hosts L).Rests) (hrp : (w.hosts p).Rests)
    (hid : (w.hosts p).node.id = p) {n₀ : Node} {V : Finset NodeID}
    (hpolls : n₀.Polls (w.hosts L).node V) (hid₀ : n₀.id = L) (hlog : n₀.log.Contiguous)
    (hnd : n₀.peers.Nodup) (hask : n₀.requestVoteFor p ∈ w.net)
    (hterm : (w.hosts p).node.currentTerm < n₀.currentTerm)
    (hup : Node.isCandidateUpToDate n₀.log.lastTerm n₀.log.lastIndex
      (w.hosts p).node.log.lastTerm (w.hosts p).node.log.lastIndex = true) :
    ∃ w', C.Turn Node.Whole {L, p} w w' ∧ (w'.hosts L).Rests ∧
      n₀.Polls (w'.hosts L).node (insert p V) ∧ (w'.hosts p).Rests ∧
      (w'.hosts p).node.currentTerm = n₀.currentTerm ∧
      (w.hosts p).node.Alike (w'.hosts p).node := by
  -- `p` hears the request
  obtain ⟨n₁, hstep₁, hs₁, -, hterm₁, halike₁, hgrant⟩ :=
    Node.step_grants (m := n₀.requestVoteFor p) hrp.started rfl hterm hup
  obtain ⟨w₁, ht₁, hh₁, hnet₁⟩ := Turn.deliver hp hrp hask rfl hstep₁ (fun h => by cases h.1)
  have hnode₁ : (w₁.hosts p).node = n₁ := by rw [hh₁]
  have hr₁ : (w₁.hosts p).Rests := by
    rw [hh₁]
    exact ⟨hrp.crashed, hrp.stopped, hrp.flush, hs₁⟩
  -- it sends its vote
  obtain ⟨w₂, ht₂, hr₂, hnode₂, hnet₂⟩ := Turn.flush Node.Whole hp hr₁
  have hsame : w₂.hosts L = w.hosts L := by
    rw [ht₂.others L (fun h => hne h.symm), ht₁.others L (fun h => hne h.symm)]
  rw [hnode₁] at hnode₂ hnet₂
  -- `L` counts it
  have hvote : voteGrant n₀.currentTerm p n₀.id ∈ n₁.outbox := by
    rw [hid] at hgrant
    exact hgrant
  obtain ⟨n₃, hstep₃, hpolls₃⟩ :=
    hpolls.tally hlog hnd (m := voteGrant n₀.currentTerm p n₀.id) rfl rfl rfl
  rw [← hsame] at hstep₃ hrL
  obtain ⟨w₃, ht₃, hh₃, -⟩ := Turn.deliver hL hrL
    (by rw [hnet₂]; exact List.mem_append_right _ hvote) hid₀ hstep₃ (fun h => by cases h.1)
  have hp₃ : w₃.hosts p = w₂.hosts p := ht₃.others p hne
  refine ⟨w₃, ?_, ?_, ?_, by rwa [hp₃], ?_, ?_⟩
  · exact ((ht₁.mono (by simp)).trans (ht₂.mono (by simp))).trans (ht₃.mono (by simp))
  · rw [hh₃]
    exact ⟨hrL.crashed, hrL.stopped, hrL.flush, hpolls₃.started⟩
  · rw [hh₃]
    exact hpolls₃
  · rw [hp₃, hnode₂]
    exact hterm₁
  · rw [hp₃, hnode₂]
    exact halike₁.trans (Node.alike_flushed _)

lemma Turn.votes {L : NodeID} (hL : L ∈ C.peers) {n₀ : Node} (hid₀ : n₀.id = L)
    (hlog : n₀.log.Contiguous) (hnd₀ : n₀.peers.Nodup) (ps : List NodeID) (hnd : ps.Nodup)
    (hps : ∀ p ∈ ps, p ∈ C.peers ∧ p ≠ L) :
    ∀ {w : World ρ} {V : Finset NodeID}, (w.hosts L).Rests → n₀.Polls (w.hosts L).node V →
      (∀ p ∈ ps, (w.hosts p).Rests ∧ (w.hosts p).node.id = p ∧
        n₀.requestVoteFor p ∈ w.net ∧ (w.hosts p).node.currentTerm < n₀.currentTerm ∧
        Node.isCandidateUpToDate n₀.log.lastTerm n₀.log.lastIndex
          (w.hosts p).node.log.lastTerm (w.hosts p).node.log.lastIndex = true) →
      ∃ w', C.Turn Node.Whole ({L} ∪ {j | j ∈ ps}) w w' ∧ (w'.hosts L).Rests ∧
        n₀.Polls (w'.hosts L).node (V ∪ ps.toFinset) ∧
        ∀ p ∈ ps, (w'.hosts p).Rests ∧ (w'.hosts p).node.currentTerm = n₀.currentTerm ∧
          (w.hosts p).node.Alike (w'.hosts p).node := by
  induction ps with
  | nil =>
      intro w V hr hpolls _
      exact ⟨w, .refl _ _, hr, by simpa using hpolls, fun p hp => by cases hp⟩
  | cons p ps ih =>
      intro w V hr hpolls hready
      obtain ⟨hp, hnd⟩ := List.nodup_cons.mp hnd
      obtain ⟨hmem, hne⟩ := hps p List.mem_cons_self
      obtain ⟨hrp, hidp, hask, hterm, hup⟩ := hready p List.mem_cons_self
      obtain ⟨w₁, ht₁, hr₁, hpolls₁, hrp₁, hterm₁, halike₁⟩ :=
        Turn.vote hL hmem hne hr hrp hidp hpolls hid₀ hlog hnd₀ hask hterm hup
      -- the others have not been touched
      have hkeep : ∀ q ∈ ps, w₁.hosts q = w.hosts q := by
        intro q hq
        refine ht₁.others q ?_
        rintro (rfl | rfl)
        · exact (hps q (List.mem_cons_of_mem _ hq)).2 rfl
        · exact hp hq
      obtain ⟨w₂, ht₂, hr₂, hpolls₂, hdone⟩ := ih hnd
        (fun q hq => hps q (List.mem_cons_of_mem _ hq)) hr₁ hpolls₁ (by
          intro q hq
          rw [hkeep q hq]
          obtain ⟨h₁, h₂, h₃, h₄, h₅⟩ := hready q (List.mem_cons_of_mem _ hq)
          exact ⟨h₁, h₂, ht₁.net _ h₃, h₄, h₅⟩)
      refine ⟨w₂, ?_, hr₂, ?_, fun q hq => ?_⟩
      · refine (ht₁.mono ?_).trans (ht₂.mono ?_)
        · rintro j (rfl | rfl)
          · exact .inl rfl
          · exact .inr List.mem_cons_self
        · rintro j (hj | hj)
          · exact .inl hj
          · exact .inr (List.mem_cons_of_mem _ hj)
      · rwa [List.toFinset_cons, ← Finset.insert_union_comm]
      · rcases List.mem_cons.mp hq with rfl | hq
        · have hsame : w₂.hosts q = w₁.hosts q := ht₂.others q (by
            rintro (hqL | hq)
            · exact hne hqL
            · exact hp hq)
          rw [hsame]
          exact ⟨hrp₁, hterm₁, halike₁⟩
        · obtain ⟨h₁, h₂, h₃⟩ := hdone q hq
          rw [hkeep q hq] at h₃
          exact ⟨h₁, h₂, h₃⟩

variable (C)

/-- Some member's log is at least as up to date as everybody's. -/
lemma exists_upToDate (hne : C.peers ≠ []) (l : NodeID → Log) :
    ∃ L ∈ C.peers, ∀ p ∈ C.peers, Node.isCandidateUpToDate (l L).lastTerm (l L).lastIndex
      (l p).lastTerm (l p).lastIndex = true := by
  obtain ⟨L, hL, hmax⟩ := Finset.exists_max_image C.peers.toFinset
    (fun i => toLex ((l i).lastTerm, (l i).lastIndex)) (List.toFinset_nonempty_iff _ |>.mpr hne)
  refine ⟨L, List.mem_toFinset.mp hL, fun p hp => ?_⟩
  have hle := Prod.Lex.le_iff.mp (hmax p (List.mem_toFinset.mpr hp))
  simp only [ofLex_toLex] at hle
  unfold Node.isCandidateUpToDate
  split_ifs with hterm
  · exact decide_eq_true (by omega)
  · exact decide_eq_true (by omega)

/-- Node `L` leads term `T`, and everybody else is up and in that term. -/
structure Installed (w : World ρ) (L : NodeID) (T : ℕ) : Prop where
  mem : L ∈ C.peers
  rests : ∀ p ∈ C.peers, (w.hosts p).Rests
  heads : (w.hosts L).node.Heads T (w.hosts L).node.log
  followers : ∀ p ∈ C.peers, (w.hosts p).node.currentTerm = T

variable {ev : ℕ → Event ρ}

lemma restart_all (ev : ℕ → Event ρ) (t : ℕ) :
    ∃ w, C.Turn Node.Whole Set.univ (C.world ev t) w ∧ ∀ i ∈ C.peers, (w.hosts i).Rests ∧
      Node.Started (C.cfg i) (C.node ev t i).storage (w.hosts i).node ∧
      (w.hosts i).node.id = i ∧ (w.hosts i).node.peers.Perm C.peers ∧
      (w.hosts i).node.log = (C.node ev t i).log := by
  obtain ⟨w, ht, hall⟩ := Turn.each (C := C)
    (P := fun i h => h = C.host ev t i)
    (Q := fun i h => h.Rests ∧ Node.Started (C.cfg i) (C.node ev t i).storage h.node)
    C.peers C.nodup (fun i hi w hw => by
      obtain ⟨w', ht, hr, hstart⟩ := Turn.restart (w := w) hi
      rw [hw] at hstart
      exact ⟨w', ht, hr, hstart⟩) (C.world ev t) (fun i _ => rfl)
  refine ⟨w, ht.mono (Set.subset_univ _), fun i hi => ?_⟩
  obtain ⟨hr, hstart⟩ := hall i hi
  refine ⟨hr, hstart, ?_, ?_, ?_⟩
  · rw [hstart.id, C.cfg_nodeID i hi]
  · rw [hstart.peers, C.cfg_peers i hi]
    exact List.perm_insertionSort _ _
  · rw [hstart.log, (C.shaped ev hi t).mirrored]

/-- From every world of a run some member can be made the leader of a term, which may be as
high as one likes if there are others, with all logs as they are. -/
theorem install (ev : ℕ → Event ρ) (t : ℕ) (hne : C.peers ≠ []) (M : ℕ) :
    ∃ w L T, C.Turn Node.Whole Set.univ (C.world ev t) w ∧ C.Installed w L T ∧
      (1 < C.peers.length → M < T) ∧
      ∀ p ∈ C.peers, (w.hosts p).node.log = (C.node ev t p).log := by
  obtain ⟨w₁, ht₁, hall⟩ := C.restart_all ev t
  obtain ⟨L, hL, hup⟩ := C.exists_upToDate hne fun i => (w₁.hosts i).node.log
  obtain ⟨hr₁, hstart, hid, hpeers, hlog⟩ := hall L hL
  have hnd : (w₁.hosts L).node.peers.Nodup := hpeers.nodup_iff.mpr C.nodup
  have hcont : (w₁.hosts L).node.log.Contiguous := by
    rw [hlog]
    exact (C.shaped ev hL t).contiguous
  have hq : (w₁.hosts L).node.quorum = C.peers.length / 2 + 1 := by
    rw [Node.quorum, hpeers.length_eq]
  rcases Nat.lt_or_ge 1 C.peers.length with hmany | hsolo
  · -- `L` stands for a term above all others, and sends its requests
    obtain ⟨h₂, T, hg₂, hr₂, hT, hst, halike₂⟩ := Host.stand_goes (C.cfg L) hr₁
      (by simp [hstart.role]) (by omega)
      (max M (C.peers.toFinset.sup fun p => (w₁.hosts p).node.currentTerm))
    obtain ⟨w₂, ht₂, rfl, -⟩ := Turn.alone Node.Whole hL hg₂
    obtain ⟨w₃, ht₃, hr₃, hnode₃, hnet₃⟩ := Turn.flush Node.Whole hL hr₂
    have halike₃ : (w₁.hosts L).node.Alike (w₃.hosts L).node := by
      rw [hnode₃]
      exact halike₂.trans (Node.alike_flushed _)
    have hothers : ∀ p, p ≠ L → w₃.hosts p = w₁.hosts p := fun p hp =>
      (ht₃.others p hp).trans (ht₂.others p hp)
    have hterm₃ : (w₃.hosts L).node.currentTerm = T := by rw [hnode₃]; exact hst.term
    have hpolls : (w₃.hosts L).node.Polls (w₃.hosts L).node {L} := by
      refine ⟨hr₃.started, rfl, rfl, rfl, rfl, rfl, rfl, .inl ⟨?_, ?_, ?_, ?_⟩⟩
      · rw [hnode₃]
        exact hst.role
      · rw [hnode₃, show (w₂.hosts L).node.flushed.votesReceived = _ from hst.votes, halike₂.id,
          hid]
      · rw [Node.quorum, halike₃.peers, hnode₃,
          show (w₂.hosts L).node.flushed.votesReceived = _ from hst.votes,
          Finset.card_singleton, hpeers.length_eq]
        omega
      · rw [halike₃.matchIndex, hstart.matchIndex]
    -- everybody else votes
    obtain ⟨w₄, ht₄, hr₄, hpolls₄, hdone⟩ := Turn.votes hL
      (halike₃.id.trans hid) (by rw [halike₃.log]; exact hcont)
      (by rw [halike₃.peers]; exact hnd) (C.peers.filter (· ≠ L)) (C.nodup.filter _)
      (fun p hp => by simpa using hp) hr₃ hpolls (by
        intro p hp
        obtain ⟨hp, hpL⟩ : p ∈ C.peers ∧ p ≠ L := by simpa using hp
        obtain ⟨hrp, -, hidp, -, -⟩ := hall p hp
        rw [hothers p hpL]
        refine ⟨hrp, hidp, ?_, ?_, ?_⟩
        · rw [hnet₃]
          refine List.mem_append_right _ ?_
          have hask := hst.asks p (by rw [halike₂.peers]; exact hpeers.mem_iff.mpr hp)
            (by rw [halike₂.id, hid]; exact hpL)
          rw [hnode₃]
          exact hask
        · rw [hterm₃]
          exact (Finset.le_sup (f := fun p => (w₁.hosts p).node.currentTerm)
            (List.mem_toFinset.mpr hp)).trans_lt (lt_of_le_of_lt (le_max_right _ _) hT)
        · rw [halike₃.log]
          exact hup p hp)
    have hheads := hpolls₄.heads (by
        intro p hp
        rw [List.mem_toFinset, halike₃.peers, hpeers.mem_iff] at hp
        by_cases hpL : p = L
        · simp [hpL]
        · simp [hpL, hp]) (by rw [halike₃.peers]; exact hnd)
      (by rw [halike₃.peers]; exact fun hnil => hne (by simpa [hnil] using hpeers.symm))
    rw [hterm₃] at hheads
    refine ⟨w₄, L, T, ?_, ⟨hL, fun p hp => ?_, ?_, fun p hp => ?_⟩,
      fun _ => lt_of_le_of_lt (le_max_left _ _) hT, fun p hp => ?_⟩
    · exact ((ht₁.trans (ht₂.mono (Set.subset_univ _))).trans (ht₃.mono (Set.subset_univ _))).trans
        (ht₄.mono (Set.subset_univ _))
    · by_cases hpL : p = L
      · rwa [hpL]
      · exact (hdone p (by simp [hp, hpL])).1
    · rw [hpolls₄.log]
      exact hheads
    · by_cases hpL : p = L
      · rw [hpL]
        exact hheads.term
      · rw [(hdone p (by simp [hp, hpL])).2.1, hterm₃]
    · by_cases hpL : p = L
      · rw [hpL, hpolls₄.log, halike₃.log, hlog]
      · rw [(hdone p (by simp [hp, hpL])).2.2.log, hothers p hpL, (hall p hp).2.2.2.2]
  · -- alone, the node wins with its own vote
    obtain ⟨n, hn, hg⟩ := Host.timeout_goes (C.cfg L) _ hr₁ (by simp [hstart.role]) le_rfl
    rw [if_pos (by omega)] at hg
    obtain ⟨w₂, ht₂, hh₂, -⟩ := Turn.alone Node.Whole hL hg
    obtain ⟨hst, halike⟩ := Node.stands_of_campaigned hr₁.started hn
    have hheads := Node.heads_becomeLeader hst.started (by rw [halike.log]; exact hcont)
      (by rw [halike.matchIndex, hstart.matchIndex]) (by rw [halike.peers]; exact hnd)
    have hlog₂ : (w₂.hosts L).node.log = (w₁.hosts L).node.log := by
      rw [hh₂]
      exact hheads.log.trans halike.log
    have honly : ∀ p ∈ C.peers, p = L := by
      intro p hp
      obtain ⟨a, ha⟩ := List.length_eq_one_iff.mp
        (show C.peers.length = 1 by have := List.length_pos_of_mem hL; omega)
      rw [ha, List.mem_singleton] at hp hL
      rw [hp, hL]
    refine ⟨w₂, L, n.currentTerm, ht₁.trans (ht₂.mono (Set.subset_univ _)), ⟨hL, ?_, ?_, ?_⟩,
      fun h => by omega, ?_⟩
    · intro p hp
      rw [honly p hp, hh₂]
      exact ⟨hr₁.crashed, hr₁.stopped, hr₁.flush, hheads.started⟩
    · rw [hlog₂, ← halike.log, hh₂]
      exact hheads
    · intro p hp
      rw [honly p hp, hh₂]
      exact hheads.term
    · intro p hp
      rw [honly p hp, hlog₂, hlog]

/-- **A leader can always be elected.**  Every run, whatever has happened in it, can be continued
so that a member leads. -/
theorem leader_possible (ev : ℕ → Event ρ) (t : ℕ) (hne : C.peers ≠ []) :
    ∃ ev' n i T, (∀ u < t, ev' u = ev u) ∧ C.LeaderAt ev' (t + n) i T := by
  obtain ⟨w, L, T, hturn, hinst, -⟩ := C.install ev t hne 0
  obtain ⟨ev', n, hev, hrun, -⟩ := Machine.run_of_reaches hturn.reaches
  refine ⟨ev', n, L, T, hev, ?_, ?_⟩
  · show (((C.machine ρ).run ev' (t + n)).hosts L).node.role = .leader
    rw [hrun]
    exact hinst.heads.role
  · show (((C.machine ρ).run ev' (t + n)).hosts L).node.currentTerm = T
    rw [hrun]
    exact hinst.heads.term

/-- All three stand for election in the same term. -/
def splitVote : List (Event Unit) := timeout "a" ++ timeout "b" ++ timeout "c"

theorem leader_possible_splitVote :
    (∀ i ∈ trio.peers, (trio.node (Machine.schedule idle splitVote) 9 i).role = .candidate) ∧
      ∃ ev' n i T, (∀ u < 9, ev' u = Machine.schedule idle splitVote u) ∧
        trio.LeaderAt ev' (9 + n) i T :=
  ⟨by decide +kernel, trio.leader_possible (Machine.schedule idle splitVote) 9 (by decide)⟩

end Cluster

end ToyRaft
