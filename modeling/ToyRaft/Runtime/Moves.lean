import ToyRaft.Core.Effects
import ToyRaft.Runtime.Acts

/-!
# The moves of a host

The acts of a host differ in what they do to the core and to the `flush` in progress; the
applier and the proposal registry never feed back into either.  `Move` lists what an act can
do to the pair of them and what it hands to the transport.

`Started` is the state `New` leaves: the hard state and the log of the storage it was given,
and nothing else.
-/

namespace ToyRaft

/-- The messages a flush in progress has yet to hand to the transport. -/
def Flush.msgs : Flush → List Message
  | .ready _ msgs | .sending msgs => msgs
  | _ => []

/-- The hard state a flush in progress has yet to save. -/
def Flush.unsaved : Flush → Option HardState
  | .ready hs _ => hs
  | _ => none

namespace Node

/-! ## What `New` leaves -/

/-- The node `New` builds from a storage. -/
structure Started (cfg : Config) (s : Storage) (n : Node) : Prop where
  id : n.id = cfg.nodeID
  peers : n.peers = cfg.peers.insertionSort (· ≤ ·)
  hardState : n.hardState = s.hs
  log : n.log = s.entries
  storage : n.storage = s
  role : n.role = .follower
  pendingMsgs : n.pendingMsgs = []
  pendingHS : n.pendingHS = none
  matchIndex : n.matchIndex = ∅
  started : n.started = true
  config : cfg.applyDefaults.validate = .ok ()

lemma restoreLogFromStorage_eq {s : Storage} {l : Log} (h : restoreLogFromStorage s = .ok l) :
    l = s.entries := by
  unfold restoreLogFromStorage at h
  split_ifs at h with hlast
  · cases h
    exact (List.length_eq_zero_iff.mp hlast).symm
  · rw [Storage.getEntries_all] at h
    cases h
    rfl

lemma started_of_newNode {cfg : Config} {s : Storage} {draw : ℕ} {n : Node}
    (h : newNode cfg s draw = .ok n) : Started cfg s n := by
  unfold newNode at h
  dsimp only at h
  split at h
  · cases h
  · rename_i hvalid
    split at h
    · cases h
    · rename_i l hl
      cases h
      exact
        { id := cfg.applyDefaults_nodeID
          peers := by
            show List.insertionSort (· ≤ ·) cfg.applyDefaults.peers = _
            rw [Config.applyDefaults_peers]
          hardState := rfl
          log := restoreLogFromStorage_eq hl
          storage := rfl
          role := rfl
          pendingMsgs := rfl
          pendingHS := rfl
          matchIndex := rfl
          started := rfl
          config := hvalid }

end Node

namespace Host

variable {ρ : Type}

/-- What an act can do to the core and the flush, and what it sends. -/
inductive Move (cfg : Config) (h : Host ρ) (a : Act ρ) : Node → Flush → List Message → Prop
  /-- The core is left alone, but for a snapshot saved. -/
  | quiet {f : Flush} (snap : Snapshot) (hmsgs : f.msgs = h.flush.msgs)
      (hhs : f.unsaved = h.flush.unsaved)
      (hdrain : ∀ ci, f = .draining ci → h.flush = .draining ci ∨ ci = h.node.commitIndex) :
      Move cfg h a { h.node with storage := h.node.storage.saveSnapshot snap } f []
  /-- `Step`, on an inbound message or a tick. -/
  | step {m : Message} {env : Env} {n' : Node}
      (ha : a = .step m env ∨ a = .tick env ∧ m = { type := .tick })
      (hn : Node.Handled env m (h.node.maybeStepDownLocked m.term) n')
      (hdel : m = { type := .tick } ∨ m ∈ h.delivered a) : Move cfg h a n' h.flush []
  | propose {data : Data} {env : Env} {s : Storage} (ha : a = .propose data env)
      (hrole : h.node.role = .leader)
      (hs : h.node.storage.append [h.node.newEntry data] = .ok s) :
      Move cfg h a (h.node.proposed data s).broadcastAppendEntriesLocked h.flush []
  | proposeFailed {data : Data} {env : Env} {err : StorageError} (ha : a = .propose data env)
      (hrole : h.node.role = .leader)
      (hfail : faulty env.appendErr (h.node.storage.append [h.node.newEntry data]) =
        .error err) :
      Move cfg h a
        { h.node with
          log := (h.node.log.append [h.node.newEntry data]).truncateSuffix
            (h.node.log.lastIndex + 1) } h.flush []
  | ready (hf : h.flush = .idle) :
      Move cfg h a { h.node with pendingMsgs := [], pendingHS := none }
        (.ready h.node.pendingHS ((h.node.pendingMsgs.filter
          (fun pm => pm.epoch = h.node.stepDownEpoch)).map PendingMsg.msg)) []
  | save {hs : HardState} {msgs : List Message} (hf : h.flush = .ready (some hs) msgs) :
      Move cfg h a { h.node with storage := h.node.storage.saveHardState hs } (.sending msgs) []
  /-- There was nothing to save. -/
  | saveNone {msgs : List Message} (hf : h.flush = .ready none msgs) :
      Move cfg h a h.node (.sending msgs) []
  /-- `SaveHardState` failed, and `flush` goes on. -/
  | saveFailed {hs : HardState} {msgs : List Message} (ha : a = .save true)
      (hf : h.flush = .ready (some hs) msgs) : Move cfg h a h.node (.sending msgs) []
  | send {x : Message} {msgs : List Message} (hf : h.flush = .sending (x :: msgs)) :
      Move cfg h a h.node (.sending msgs) [x]
  | restart {s : Storage} {n' : Node} (ha : a.restarts = true) (hn : Node.Started cfg s n')
      (hs : s = h.node.storage ∨ ∃ m draw restore start, a = .restartMidMirror m draw restore ∧
        h.node.mirrorStart m = some start ∧ h.node.storage.truncateSuffix start = .ok s) :
      Move cfg h a n' .idle []

lemma Move.same {cfg : Config} {h : Host ρ} {a : Act ρ} : Move cfg h a h.node h.flush [] :=
  .quiet h.node.storage.snap rfl rfl fun _ hf => .inl hf

/-- What a step handles is the message from the network, unless it is a tick. -/
lemma inbound_of_step {a : Act ρ} {m : Message} {env : Env}
    (ha : a = .step m env ∨ a = .tick env ∧ m = { type := .tick }) (ht : m.type ≠ .tick) :
    m ∈ a.inbound := by
  rcases ha with rfl | ⟨-, rfl⟩
  · rfl
  · exact (ht rfl).elim

lemma env_of_logFaultless {a : Act ρ} {m : Message} {env : Env}
    (ha : a = .step m env ∨ a = .tick env ∧ m = { type := .tick }) (h : a.logFaultless = true) :
    env.truncateErr = false ∧ env.appendErr = false := by
  rcases ha with rfl | ⟨rfl, -⟩ <;> simpa [Act.logFaultless] using h

/-- A crash leaves the hard state and the snapshot as they were stored. -/
lemma restart_hs {h : Host ρ} {a : Act ρ} {s : Storage}
    (hs : s = h.node.storage ∨ ∃ m draw restore start, a = .restartMidMirror m draw restore ∧
      h.node.mirrorStart m = some start ∧ h.node.storage.truncateSuffix start = .ok s) :
    s.hs = h.node.storage.hs ∧ s.snap = h.node.storage.snap := by
  rcases hs with rfl | ⟨_, _, _, _, -, -, hs⟩
  · exact ⟨rfl, rfl⟩
  · exact Node.storage_truncateSuffix_hs hs

lemma new_cases {cfg : Config} {s : Storage} {draw : ℕ} {restore : RestoreOutcome}
    {h : Host ρ} (hnew : new cfg s draw restore = .ok h) :
    Node.Started cfg s h.node ∧ h.flush = .idle ∧ h.crashed = false := by
  unfold new at hnew
  split at hnew
  · cases hnew
  · rename_i n hn
    split_ifs at hnew <;> cases hnew <;> exact ⟨Node.started_of_newNode hn, rfl, rfl⟩

lemma move_step {cfg : Config} {h : Host ρ} {a : Act ρ} {m : Message} {env : Env}
    (ha : a = .step m env ∨ a = .tick env ∧ m = { type := .tick })
    (hdel : m = { type := .tick } ∨ m ∈ h.delivered a) :
    Move cfg h a (h.afterStep (h.node.step env m)).node
      (h.afterStep (h.node.step env m)).flush [] := by
  cases hstep : h.node.step env m with
  | none => exact .same
  | some r =>
      obtain ⟨n', e⟩ := r
      cases hst : h.node.started with
      | false =>
          rw [Node.step, hst] at hstep
          cases hstep
          exact .same
      | true => exact .step ha (Node.handled_of_step hst hstep) hdel

lemma move_propose {cfg : Config} {h : Host ρ} {data : Data} {env : Env} :
    Move cfg h (.propose data env) (h.propose env data).node (h.propose env data).flush [] := by
  unfold propose
  split_ifs with hstop hrole
  · exact .same
  · exact .same
  · have hleader := not_not.mp hrole
    rcases h.node.proposeLocked_cases env data hleader with
      ⟨s, -, happ, heq⟩ | ⟨err, hfail, heq⟩
    · rw [heq]
      exact .propose rfl hleader happ
    · rw [heq]
      exact .proposeFailed rfl hleader hfail

lemma resolve_core (h : Host ρ) (idx : ℕ) (r : ProposeResult ρ) :
    (h.resolve idx r).node = h.node ∧ (h.resolve idx r).flush = h.flush := by
  unfold resolve
  split <;> exact ⟨rfl, rfl⟩

lemma applyDone_core (h : Host ρ) (e : Entry) (out : ApplyOutcome ρ) :
    (h.applyDone e out).node = h.node ∧ (h.applyDone e out).flush = h.flush := by
  cases out with
  | returned res err => exact resolve_core { h with appliedIdx := e.index } _ _
  | panicked msg => exact resolve_core _ _ _

lemma move_checkpoint {cfg : Config} {h : Host ρ} {a : Act ρ} (out : SnapshotOutcome)
    (err : Bool) :
    Move cfg h a (h.checkpoint out err).node (h.checkpoint out err).flush [] := by
  unfold checkpoint
  cases out with
  | taken data idx =>
      dsimp only
      split_ifs
      · exact .same
      · exact .quiet _ rfl rfl fun _ hf => .inl hf
  | unsupported => exact .same
  | failed => exact .same

lemma drain_core (h : Host ρ) (ci : ℕ) (err : Bool) :
    (h.drain ci err).node = h.node ∧
      ((h.drain ci err).flush = h.flush ∨ (h.drain ci err).flush = .idle) := by
  unfold drain
  dsimp only
  split_ifs
  · exact ⟨rfl, .inr rfl⟩
  · split
    · exact ⟨rfl, .inl rfl⟩
    · exact ⟨rfl, .inr rfl⟩

lemma Fires.move {cfg : Config} {h h' : Host ρ} {a : Act ρ} {out : List Message}
    (hfires : Fires cfg h a h' out) : Move cfg h a h'.node h'.flush out := by
  cases hfires with
  | idle => exact .same
  | restart draw restore _ ha hnew =>
      obtain ⟨hn, hf, -⟩ := new_cases hnew
      rw [hf]
      rcases ha with ⟨rfl, rfl⟩ | ⟨m, start, rfl, hstart, hs⟩
      · exact .restart rfl hn (.inl rfl)
      · exact .restart rfl hn (.inr ⟨m, draw, restore, start, rfl, hstart, hs⟩)
  | step hrun hstop => exact move_step (.inl rfl) (.inr (by simp [delivered, hrun, hstop]))
  | tick => exact move_step (.inr ⟨rfl, rfl⟩) (.inl rfl)
  | propose => exact move_propose
  | ready _ hf => exact .ready hf
  | save _ hf => exact .save hf
  | saveNone _ hf => exact .saveNone hf
  | saveFailed _ hf => exact .saveFailed rfl hf
  | send _ hf => exact .send hf
  | drainBegin _ hf =>
      refine .quiet h.node.storage.snap (by rw [hf]; rfl) (by rw [hf]; rfl) fun ci hci => ?_
      cases hci
      exact .inr rfl
  | @drain err ci _ hf =>
      obtain ⟨hnode, hflush | hflush⟩ := h.drain_core ci err
      · rw [hnode, hflush]
        exact .same
      · rw [hnode, hflush]
        refine .quiet h.node.storage.snap (by rw [hf]; rfl) (by rw [hf]; rfl) fun ci hci => ?_
        cases hci
  | @applyDone e out =>
      obtain ⟨hnode, hflush⟩ := h.applyDone_core e out
      rw [hnode, hflush]
      exact .same
  | checkpoint => exact move_checkpoint _ _
  | applyCall | receive | cancel | stop => exact .same

/-- Every act is one of the moves. -/
theorem move_of_act (cfg : Config) (h : Host ρ) (a : Act ρ) :
    Move cfg h a (h.act cfg a).1.node (h.act cfg a).1.flush (h.act cfg a).2 :=
  (fires_of_act cfg h a).move

/-- What is handed to the transport is the head of the batch, its hard state dealt with. -/
lemma Move.sends {cfg : Config} {h : Host ρ} {a : Act ρ} {n' : Node} {f' : Flush}
    {out : List Message} (hmove : Move cfg h a n' f' out) {x : Message} (hx : x ∈ out) :
    ∃ msgs, h.flush = .sending (x :: msgs) := by
  cases hmove with
  | send hf =>
      rw [List.mem_singleton.mp hx]
      exact ⟨_, hf⟩
  | _ => cases hx

/-- The name and the peers of a node come from its configuration. -/
lemma Move.identity {cfg : Config} {h : Host ρ} {a : Act ρ} {n' : Node} {f' : Flush}
    {out : List Message} (hmove : Move cfg h a n' f' out) :
    (n'.id = h.node.id ∧ n'.peers = h.node.peers) ∨ ∃ s, Node.Started cfg s n' := by
  cases hmove with
  | step _ hn =>
      have hf := Node.follows_of_step (fun _ _ => rfl) hn
      exact .inl ⟨hf.id, hf.peers⟩
  | propose _ _ hs =>
      have hf := Node.follows_of_proposed "" hs
      exact .inl ⟨hf.id, hf.peers⟩
  | restart _ hn _ => exact .inr ⟨_, hn⟩
  | _ => exact .inl ⟨rfl, rfl⟩

/-- The commit index `drainCommitsToApply` has read is not beyond the current one. -/
lemma Move.draining_le {cfg : Config} {h : Host ρ} {a : Act ρ} {n' : Node} {f' : Flush}
    {out : List Message} (hmove : Move cfg h a n' f' out)
    (hmono : a.restarts = false → h.node.commitIndex ≤ n'.commitIndex)
    (hold : ∀ ci, h.flush = .draining ci → ci ≤ h.node.commitIndex) {ci : ℕ}
    (hf' : f' = .draining ci) : ci ≤ n'.commitIndex := by
  cases hmove with
  | quiet _ _ _ hdrain =>
      rcases hdrain ci hf' with hf | rfl
      · exact hold ci hf
      · exact le_rfl
  | step ha =>
      refine (hold ci hf').trans (hmono ?_)
      rcases ha with rfl | ⟨rfl, -⟩ <;> rfl
  | propose ha =>
      subst ha
      exact (hold ci hf').trans (hmono rfl)
  | proposeFailed => exact hold ci hf'
  | _ => cases hf'

/-! ## Messages on their way -/

/-- The messages queued in the core or waiting in the batch of the flush. -/
def outgoing (n : Node) (f : Flush) : List Message := n.pendingMsgs.map PendingMsg.msg ++ f.msgs

lemma mem_outgoing {n : Node} {f : Flush} {x : Message} :
    x ∈ outgoing n f ↔ (∃ pm ∈ n.pendingMsgs, pm.msg = x) ∨ x ∈ f.msgs := by
  rw [outgoing, List.mem_append, List.mem_map]

lemma inbound_of_delivered {h : Host ρ} {a : Act ρ} {m : Message} (hm : m ∈ h.delivered a) :
    m ∈ a.inbound := by
  cases a with
  | step m' env =>
      rw [delivered] at hm
      split_ifs at hm
      · cases hm
      · exact hm
  | _ => cases hm

/-- A message on its way after a move was so before, or was queued by the move. -/
theorem Move.outgoing_cases {cfg : Config} {h : Host ρ} {a : Act ρ} {n' : Node} {f' : Flush}
    {out : List Message} (hmove : Move cfg h a n' f' out) {x : Message}
    (hx : x ∈ outgoing n' f' ∨ x ∈ out) :
    x ∈ outgoing h.node h.flush ∨ x ∈ h.node.queuedSince n' := by
  have hpend : ∀ {n₀ : Node} {m : Message}, Node.Speaks m n₀ n' →
      n₀.pendingMsgs = h.node.pendingMsgs → x ∈ outgoing n' h.flush →
      x ∈ outgoing h.node h.flush ∨ x ∈ h.node.queuedSince n' := by
    rintro n₀ m ⟨new, heq, -⟩ hmsgs hx
    rw [hmsgs] at heq
    rw [mem_outgoing, heq] at hx
    rcases hx with ⟨pm, hpm, rfl⟩ | hx
    · rcases List.mem_append.mp hpm with hpm | hpm
      · exact .inl (mem_outgoing.mpr (.inl ⟨pm, hpm, rfl⟩))
      · rw [Node.queuedSince, heq, List.drop_left]
        exact .inr (List.mem_map_of_mem hpm)
    · exact .inl (mem_outgoing.mpr (.inr hx))
  cases hmove with
  | quiet snap hmsgs _ =>
      rcases hx with hx | hx
      · rw [mem_outgoing, hmsgs] at hx
        exact .inl (mem_outgoing.mpr hx)
      · cases hx
  | step _ hn _ =>
      rcases hx with hx | hx
      · exact hpend (Node.speaks_of_handled hn) (Node.maybeStepDownLocked_pending _ _) hx
      · cases hx
  | @propose data _ s _ hrole _ =>
      have hrole' : (h.node.proposed data s).role = .leader := hrole
      rcases hx with hx | hx
      · exact hpend (Node.speaks_broadcast (m := { type := .tick }) (n := h.node) rfl hrole') rfl
          hx
      · cases hx
  | proposeFailed =>
      rcases hx with hx | hx
      · exact .inl hx
      · cases hx
  | ready hf =>
      rcases hx with hx | hx
      · rw [mem_outgoing] at hx
        rcases hx with ⟨pm, hpm, -⟩ | hx
        · cases hpm
        · obtain ⟨pm, hpm, rfl⟩ := List.mem_map.mp hx
          exact .inl (mem_outgoing.mpr (.inl ⟨pm, (List.mem_filter.mp hpm).1, rfl⟩))
      · cases hx
  | save hf | saveNone hf | saveFailed _ hf =>
      rcases hx with hx | hx
      · left
        rw [mem_outgoing] at hx ⊢
        rw [hf]
        exact hx
      · cases hx
  | send hf =>
      left
      rw [mem_outgoing, hf]
      rcases hx with hx | hx
      · rcases mem_outgoing.mp hx with hx | hx
        · exact .inl hx
        · exact .inr (List.mem_cons_of_mem _ hx)
      · rw [List.mem_singleton.mp hx]
        exact .inr List.mem_cons_self
  | restart _ hn _ =>
      rcases hx with hx | hx
      · rw [mem_outgoing, hn.pendingMsgs] at hx
        rcases hx with ⟨pm, hpm, -⟩ | hx
        · cases hpm
        · cases hx
      · cases hx

/-- What a move queues was spoken by its section. -/
lemma Move.queued_cases {cfg : Config} {h : Host ρ} {a : Act ρ} {n' : Node} {f' : Flush}
    {out : List Message} (hmove : Move cfg h a n' f' out) {x : Message}
    (hx : x ∈ h.node.queuedSince n') :
    ∃ m, (m = { type := .tick } ∨ m ∈ h.delivered a) ∧
      Node.Spoken m (h.node.maybeStepDownLocked m.term) n' x := by
  have hfunnel : ∀ T, h.node.queuedSince n' =
      (h.node.maybeStepDownLocked T).queuedSince n' := by
    intro T
    rw [Node.queuedSince, Node.queuedSince, Node.maybeStepDownLocked_pending]
  have hnone : ∀ {n₁ : Node}, n₁.pendingMsgs = h.node.pendingMsgs ∨ n₁.pendingMsgs = [] →
      x ∉ h.node.queuedSince n₁ := by
    rintro n₁ (heq | heq) hx <;> simp [Node.queuedSince, heq] at hx
  cases hmove with
  | @step m _ _ _ hn hdel =>
      rw [hfunnel m.term] at hx
      exact ⟨m, hdel, (Node.speaks_of_handled hn).spoken hx⟩
  | @propose data _ s _ hrole _ =>
      have hrole' : (h.node.proposed data s).role = .leader := hrole
      rw [hfunnel 0] at hx
      refine ⟨{ type := .tick }, .inl rfl, (Node.speaks_broadcast ?_ hrole').spoken hx⟩
      rw [Node.maybeStepDownLocked_pending]
      rfl
  | ready => exact (hnone (.inr rfl) hx).elim
  | restart _ hn _ => exact (hnone (.inr hn.pendingMsgs) hx).elim
  | _ => exact (hnone (.inl rfl) hx).elim

/-! ## Roles -/

/-- How a move treats the role of the node. -/
inductive RoleMove (a : Act ρ) (n n' : Node) : Prop
  | follower (h : n'.role = .follower)
  | kept (hne : n.role ≠ .follower) (hrole : n'.role = n.role)
      (hcur : n'.currentTerm = n.currentTerm) (hvotes : n'.votesReceived = n.votesReceived)
      (hvote : n.votedFor = "" ∨ n'.votedFor = n.votedFor)
  | campaign (hrole : n'.role ≠ .follower) (hcur : n.currentTerm < n'.currentTerm)
      (hvotes : n'.votesReceived = {n.id}) (hvote : n'.votedFor = n.id)
      (hlog : n'.log = n.log) (hlead : n'.role = .leader ↔ n.quorum ≤ 1)
  | tally (m : Message) (hm : m ∈ a.inbound) (ht : m.type = .requestVoteResponse)
      (hg : m.voteGranted = true) (hterm : m.term = n.currentTerm)
      (hrole : n.role = .candidate) (hrole' : n'.role ≠ .follower)
      (hcur : n'.currentTerm = n.currentTerm)
      (hvotes : n'.votesReceived = insert m.fromNode n.votesReceived)
      (hvote : n'.votedFor = n.votedFor) (hlog : n'.log = n.log)
      (hlead : n'.role = .leader → n.quorum ≤ n'.votesReceived.card)

lemma roleMove_step {a : Act ρ} {m : Message} {env : Env} {n n' : Node}
    (hm : m = { type := .tick } ∨ m ∈ a.inbound)
    (hn : Node.Handled env m (n.maybeStepDownLocked m.term) n') : RoleMove a n n' := by
  obtain ⟨hid, hpeers, hlog₀, -, -, -, -, hle, hsame⟩ := n.maybeStepDownLocked_frame m.term
  cases Node.roleStep_of_handled hn with
  | same hrole hcur hvotes =>
      by_cases hf : n'.role = .follower
      · exact .follower hf
      · have heq := hsame (by rwa [← hrole])
        have hfol := Node.follows_of_step (fun _ _ => rfl) hn
        rw [heq] at hrole hcur hvotes
        refine .kept (by rwa [← hrole]) hrole hcur hvotes ?_
        rcases hfol.precedes with hlt | ⟨-, hblank | hvote⟩
        · exact absurd hcur.symm (Nat.ne_of_lt hlt)
        · exact .inl hblank
        · exact .inr hvote.symm
  | campaign hrole hcur hvotes hvote hlog hlead =>
      refine .campaign hrole (by omega) (by rw [hvotes, hid]) (by rw [hvote, hid])
        (hlog.trans hlog₀) ?_
      rwa [Node.quorum, hpeers] at hlead
  | tally ht hg hterm hrole hrole' hcur hvotes hvote hlog hlead =>
      have heq := hsame (by simp [hrole])
      rw [heq] at hrole hcur hvotes hvote hlog hlead hterm
      rcases hm with rfl | hm
      · cases ht
      · exact .tally m hm ht hg hterm hrole hrole' hcur hvotes hvote hlog hlead

theorem Move.role {cfg : Config} {h : Host ρ} {a : Act ρ} {n' : Node} {f' : Flush}
    {out : List Message} (hmove : Move cfg h a n' f' out) : RoleMove a h.node n' := by
  have hkeep : ∀ {n' : Node}, n'.role = h.node.role → n'.currentTerm = h.node.currentTerm →
      n'.votesReceived = h.node.votesReceived → n'.votedFor = h.node.votedFor →
      RoleMove a h.node n' := by
    intro n' hrole hcur hvotes hvote
    by_cases hf : h.node.role = .follower
    · exact .follower (hrole.trans hf)
    · exact .kept hf hrole hcur hvotes (.inr hvote)
  cases hmove with
  | step _ hn hdel => exact roleMove_step (hdel.imp_right inbound_of_delivered) hn
  | @propose data _ s _ _ _ =>
      obtain ⟨hrole, -, -, hcur, -, -, hvotes, hvote, -⟩ :=
        (h.node.proposed data s).broadcast_frame
      exact hkeep hrole hcur hvotes hvote
  | restart _ hn _ => exact .follower hn.role
  | _ => exact hkeep rfl rfl rfl rfl

/-! ## Reported progress -/

/-- How a move treats `matchIndex`. -/
inductive MatchMove (a : Act ρ) (n n' : Node) : Prop
  | same (h : n'.matchIndex = n.matchIndex)
      (hrole : n'.role = .leader → n.role = .leader ∧ n'.currentTerm = n.currentTerm)
  | restart (h : n'.matchIndex = ∅) (hrole : n'.role = .follower)
  | elected (h : n'.matchIndex = n.peers.foldl (fun ix p => ix.insert p 0) n.matchIndex)
  | reported (m : Message) (hm : m ∈ a.inbound) (ht : m.type = .appendEntriesResp)
      (hs : m.success = true) (hterm : m.term = n.currentTerm) (hrole : n.role = .leader)
      (hcur : n'.currentTerm = n.currentTerm)
      (h : n'.matchIndex = n.matchIndex.insert m.fromNode m.matchIndex)
  | proposed (k : ℕ) (hrole : n.role = .leader) (hcur : n'.currentTerm = n.currentTerm)
      (h : n'.matchIndex = n.matchIndex.insert n.id k)

lemma matchMove_step {h : Host ρ} {a : Act ρ} {m : Message} {env : Env} {n' : Node}
    (hn : Node.Handled env m (h.node.maybeStepDownLocked m.term) n')
    (hdel : m = { type := .tick } ∨ m ∈ h.delivered a) : MatchMove a h.node n' := by
  obtain ⟨-, hpeers, -, -, -, -, hmatch₀, -, hsame⟩ := h.node.maybeStepDownLocked_frame m.term
  have hleader : (h.node.maybeStepDownLocked m.term).role = .leader →
      h.node.maybeStepDownLocked m.term = h.node ∧
        n'.currentTerm = (h.node.maybeStepDownLocked m.term).currentTerm :=
    fun hl => ⟨hsame (by simp [hl]), (Node.leader_handled hn hl).2⟩
  cases Node.progressStep_of_handled hn with
  | same _ hmatch hrole =>
      refine .same (hmatch.trans hmatch₀) fun hl => ?_
      obtain ⟨heq, hcur⟩ := hleader (hrole hl)
      have hl' := hrole hl
      rw [heq] at hl' hcur
      exact ⟨hl', hcur⟩
  | elected _ _ hmatch _ =>
      rw [hpeers, hmatch₀] at hmatch
      exact .elected hmatch
  | progress ht hs hrole hterm _ hmatch =>
      obtain ⟨heq, hcur⟩ := hleader hrole
      rw [heq] at hrole hterm hmatch hcur
      rcases hdel with rfl | hdel
      · cases ht
      · exact .reported m (inbound_of_delivered hdel) ht hs hterm hrole hcur hmatch
  | backoff hrole _ _ hmatch =>
      obtain ⟨heq, hcur⟩ := hleader hrole
      rw [heq] at hrole hmatch hcur
      exact .same hmatch fun _ => ⟨hrole, hcur⟩

theorem Move.matchIndex {cfg : Config} {h : Host ρ} {a : Act ρ} {n' : Node} {f' : Flush}
    {out : List Message} (hmove : Move cfg h a n' f' out) : MatchMove a h.node n' := by
  cases hmove with
  | step _ hn hdel => exact matchMove_step hn hdel
  | @propose data _ s _ hrole _ =>
      obtain ⟨-, -, -, hcur, -, -, -, -, -, hmatch⟩ :=
        (h.node.proposed data s).broadcast_frame
      exact .proposed _ hrole hcur hmatch
  | restart _ hn _ => exact .restart hn.matchIndex hn.role
  | _ => exact .same rfl fun hl => ⟨hl, rfl⟩

/-! ## The commit index and what is saved of it -/

/-- How a move sets the commit index. -/
inductive CommitMove (h : Host ρ) (a : Act ρ) (n' : Node) : Prop
  | same (hc : n'.commitIndex = h.node.commitIndex)
      (hcur : h.node.currentTerm ≤ n'.currentTerm)
  | restart (h : n'.hardState = h.node.storage.hs)
  | advance (hrole : n'.role = .leader)
      (hterm : (n'.log.term n'.commitIndex).1 = n'.currentTerm)
      (hcount : n'.quorum ≤ n'.matchValues.countP (fun x => decide (n'.commitIndex ≤ x)))
  | follow (m : Message) (hm : m ∈ a.inbound)
      (hp : (h.node.maybeStepDownLocked m.term).Passes m)
      (hc : n'.commitIndex = min m.leaderCommit (m.prevLogIndex + m.entries.length))
      (hlog : (h.node.maybeStepDownLocked m.term).firstConflictIndex m.entries = 0 ∧
          n'.log = (h.node.maybeStepDownLocked m.term).log ∨
        (h.node.maybeStepDownLocked m.term).firstConflictIndex m.entries ≠ 0 ∧
          n'.log = (h.node.maybeStepDownLocked m.term).writtenLog m)
      (hcur : n'.currentTerm = (h.node.maybeStepDownLocked m.term).currentTerm)

theorem Move.commitIndex {cfg : Config} {h : Host ρ} {a : Act ρ} {n' : Node} {f' : Flush}
    {out : List Message} (hmove : Move cfg h a n' f' out) : CommitMove h a n' := by
  cases hmove with
  | @step m _ _ _ hn hdel =>
      obtain ⟨-, -, -, -, hc₀, -, -, -, -⟩ := h.node.maybeStepDownLocked_frame m.term
      have hcur := (Node.follows_of_step (fun _ _ => rfl) hn).precedes.term_le
      cases Node.commitEffect_of_handled hn with
      | same hc => exact .same (hc.trans hc₀) hcur
      | advance hrole _ hterm hcount => exact .advance hrole hterm hcount
      | follow hp _ hc hlog hcur' =>
          rcases hdel with rfl | hdel
          · cases hp.type
          · exact .follow m (inbound_of_delivered hdel) hp hc hlog hcur'
  | @propose data _ s _ hrole _ =>
      obtain ⟨-, -, -, hcur, -⟩ := (h.node.proposed data s).broadcast_frame
      have hrole' : (h.node.proposed data s).role = .leader := hrole
      have hc₀ : (h.node.proposed data s).commitIndex = h.node.commitIndex := rfl
      cases Node.commitEffect_broadcast (m := { type := .tick }) hc₀ hrole' with
      | same hc => exact .same hc hcur.ge
      | advance hrole _ hterm hcount => exact .advance hrole hterm hcount
      | follow hp => cases hp.type
  | restart _ hn hst =>
      refine .restart ?_
      rw [hn.hardState]
      exact (restart_hs hst).1
  | _ => exact .same rfl le_rfl

/-- What a move leaves stored was stored or about to be, and what it leaves about to be
stored is that or the current hard state. -/
lemma Move.stored_cases {cfg : Config} {h : Host ρ} {a : Act ρ} {n' : Node} {f' : Flush}
    {out : List Message} (hmove : Move cfg h a n' f' out) (hfault : a.faultless = true)
    (htop : h.node.pendingHS.getD (h.flush.unsaved.getD h.node.storage.hs) = h.node.hardState) :
    (n'.storage.hs = h.node.storage.hs ∨
      n'.storage.hs = h.flush.unsaved.getD h.node.storage.hs) ∧
    (f'.unsaved.getD n'.storage.hs = h.node.storage.hs ∨
      f'.unsaved.getD n'.storage.hs = h.flush.unsaved.getD h.node.storage.hs ∨
      f'.unsaved.getD n'.storage.hs = h.node.hardState) := by
  cases hmove with
  | quiet snap _ hhs =>
      rw [hhs]
      exact ⟨.inl rfl, .inr (.inl rfl)⟩
  | step _ hn _ =>
      have hst := (Node.follows_of_step (fun _ _ => rfl) hn).stored
      rw [hst]
      exact ⟨.inl rfl, .inr (.inl rfl)⟩
  | propose _ _ happ =>
      have hst := (Node.follows_of_proposed "" happ).stored
      rw [hst]
      exact ⟨.inl rfl, .inr (.inl rfl)⟩
  | ready hf =>
      rw [hf] at htop
      exact ⟨.inl rfl, .inr (.inr htop)⟩
  | save hf =>
      rw [hf]
      exact ⟨.inr rfl, .inr (.inl rfl)⟩
  | saveNone hf => exact ⟨.inl rfl, .inl rfl⟩
  | saveFailed ha =>
      subst ha
      cases hfault
  | restart _ hn hst =>
      rw [hn.storage, (restart_hs hst).1]
      exact ⟨.inl rfl, .inl rfl⟩
  | send hf => exact ⟨.inl rfl, .inl rfl⟩
  | _ => exact ⟨.inl rfl, .inr (.inl rfl)⟩

end Host

end ToyRaft
