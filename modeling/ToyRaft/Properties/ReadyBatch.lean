import ToyRaft.Runtime.Cluster
import ToyRaft.Runtime.Ledger

/-!
# The batches of `Ready`

`Session` is the contract between the core and whoever drives it: `Step`, `Propose` and
`Ready` are called in any order, and the hard state `Ready` returns is persisted whenever
there is one.  Between two calls of `Ready` the core may go through several terms, so the one
hard state it returns has to account for messages queued in different terms and roles, and a
batch without a hard state for messages relies on what an earlier batch persisted.

`owed` is what `Ready` should return, told from the outside: what the calls queued since the
last higher-term step-down and the last `Ready`.  `ready_batch_covered` says that `Ready`
returns exactly that, and that the hard state persisted last accounts for all of it.
-/

namespace ToyRaft

namespace Node

/-- The part of `Propose` that works on the core: append, and broadcast if that succeeded. -/
def propose (env : Env) (n : Node) (data : Data) : Node :=
  match n.proposeLocked env data with
  | (n, _, false) => n
  | (n, _, true) => n.broadcastAppendEntriesLocked

/-- The caller persists the hard state it was handed, if any. -/
def persist (n : Node) : Option HardState → Node
  | none => n
  | some hs => { n with storage := n.storage.saveHardState hs }

lemma maybeAdvanceCommitLocked_stepDownEpoch (n : Node) :
    n.maybeAdvanceCommitLocked.stepDownEpoch = n.stepDownEpoch := by
  rcases n.maybeAdvanceCommitLocked_cases with heq | ⟨q, -, -, -, heq⟩ <;> rw [heq]
  rfl

/-- No handler touches the epoch; only the term funnel does. -/
lemma Handled.stepDownEpoch {env : Env} {m : Message} {n n' : Node} (h : Handled env m n n') :
    n'.stepDownEpoch = n.stepDownEpoch := by
  have hretimed : ∀ {a b : Node}, Retimed a b → b.stepDownEpoch = a.stepDownEpoch := by
    rintro a b ⟨_, _, _, _, _, _, rfl⟩
    rfl
  have hfan : ∀ a : Node, a.fanOutAppendEntries.stepDownEpoch = a.stepDownEpoch := by
    intro a
    rw [fanOutAppendEntries_eq]
  have hcampaign : n.campaigned.stepDownEpoch = n.stepDownEpoch := by
    rw [campaigned, fanOutRequestVote_eq]
    rfl
  have hack : ∀ a : Node, (a.acknowledgeAppendEntries m).stepDownEpoch = a.stepDownEpoch := by
    intro a
    unfold acknowledgeAppendEntries
    dsimp only
    split_ifs <;> rfl
  cases h with
  | quiet hr => exact hretimed hr
  | campaign _ _ _ hr => exact (hretimed hr).trans hcampaign
  | campaignWon _ _ _ hr => exact (hfan _).trans ((hretimed hr).trans hcampaign)
  | heartbeat _ _ hr => 
      exact (maybeAdvanceCommitLocked_stepDownEpoch _).trans ((hfan _).trans (hretimed hr))
  | grant _ _ _ _ hr => exact (hretimed hr).trans rfl
  | refuse _ _ _ _ _ _ hr => exact (hretimed hr).trans rfl
  | tally => rfl
  | win => exact hfan _
  | accept _ _ hr => exact (hack _).trans (hretimed hr)
  | write _ _ _ _ _ hr => exact (hack _).trans ((hretimed hr).trans rfl)
  | mirrorFailed _ _ _ _ _ hr => exact (hretimed hr).trans rfl
  | progress => exact maybeAdvanceCommitLocked_stepDownEpoch _
  | backoff => rfl

lemma propose_cases (env : Env) (n : Node) (data : Data) :
    (∃ s, n.storage.append [n.newEntry data] = .ok s ∧
      n.propose env data = (n.proposed data s).broadcastAppendEntriesLocked) ∨
    (∃ l, n.propose env data = { n with log := l }) := by
  unfold propose
  by_cases hrole : n.role = .leader
  · rcases n.proposeLocked_cases env data hrole with ⟨s, -, happ, heq⟩ | ⟨err, -, heq⟩
    · rw [heq]
      exact .inl ⟨s, happ, rfl⟩
    · rw [heq]
      exact .inr ⟨_, rfl⟩
  · rw [proposeLocked, if_pos hrole]
    exact .inr ⟨n.log, rfl⟩

lemma follows_of_propose (who : NodeID) (env : Env) (n : Node) (data : Data) :
    Follows who n (n.propose env data) := by
  rcases n.propose_cases env data with ⟨s, happ, heq⟩ | ⟨l, heq⟩
  · rw [heq]
    exact follows_of_proposed who happ
  · rw [heq]
    exact { Follows.refl who n with outbox := outbox_of_eq rfl }

lemma propose_stepDownEpoch (env : Env) (n : Node) (data : Data) :
    (n.propose env data).stepDownEpoch = n.stepDownEpoch := by
  rcases n.propose_cases env data with ⟨s, -, heq⟩ | ⟨l, heq⟩
  · rw [heq]
    unfold broadcastAppendEntriesLocked
    rw [maybeAdvanceCommitLocked_stepDownEpoch, fanOutAppendEntries_eq]
    rfl
  · rw [heq]

/-! ## What a section adds to the next batch -/

/-- The batch `Ready` would return now. -/
def batch (n : Node) : List Message := n.ready.2.1

lemma batch_of_epoch_eq {who : NodeID} {n n' : Node} (hf : Follows who n n')
    (hepoch : n'.stepDownEpoch = n.stepDownEpoch) :
    n'.batch = n.batch ++ n.queuedSince n' := by
  obtain ⟨new, heq, hnew⟩ := hf.outbox
  have hkeep : new.filter (fun pm => pm.epoch = n'.stepDownEpoch) = new :=
    List.filter_eq_self.mpr fun pm hpm => decide_eq_true (hnew pm hpm).epoch
  rw [batch, ready, heq, List.filter_append, hkeep, List.map_append, queuedSince, heq,
    List.drop_left, hepoch]
  rfl

lemma batch_of_epoch_lt {who : NodeID} {n n' : Node} (hf : Follows who n n')
    (hepoch : n.stepDownEpoch < n'.stepDownEpoch)
    (hle : ∀ pm ∈ n.pendingMsgs, pm.epoch ≤ n.stepDownEpoch) :
    n'.batch = n.queuedSince n' := by
  obtain ⟨new, heq, hnew⟩ := hf.outbox
  have hkeep : new.filter (fun pm => pm.epoch = n'.stepDownEpoch) = new :=
    List.filter_eq_self.mpr fun pm hpm => decide_eq_true (hnew pm hpm).epoch
  have hdrop : n.pendingMsgs.filter (fun pm => pm.epoch = n'.stepDownEpoch) = [] := by
    refine List.filter_eq_nil_iff.mpr fun pm hpm hcur => ?_
    have hold := hle pm hpm
    have hcur := of_decide_eq_true hcur
    omega
  rw [batch, ready, heq, List.filter_append, hkeep, hdrop, List.nil_append, queuedSince, heq,
    List.drop_left]

end Node

/-- The calls a caller makes on the core. -/
inductive Call
  | step (m : Message) (env : Env)
  | propose (data : Data) (env : Env)
  | ready

/-- The message of a `RequestVote` names its sender. -/
def Call.NamesSender : Call → Prop
  | .step m _ => m.type = .requestVote → m.fromNode ≠ ""
  | _ => True

instance : (c : Call) → Decidable c.NamesSender
  | .step m _ => inferInstanceAs (Decidable (m.type = .requestVote → m.fromNode ≠ ""))
  | .propose _ _ | .ready => .isTrue trivial

/-- The core under its caller. -/
structure Session where
  node : Node
  /-- A `Step` has panicked, and the process is gone. -/
  panicked : Bool := false

namespace Session

/-- One call: the session after it and the messages it returns. -/
def call (s : Session) (c : Call) : Session × List Message :=
  if s.panicked then (s, [])
  else
    match c with
    | .step m env =>
        match s.node.step env m with
        | none => ({ s with panicked := true }, [])
        | some (n, _) => ({ s with node := n }, [])
    | .propose data env => ({ s with node := s.node.propose env data }, [])
    | .ready =>
        let (n, msgs, hs) := s.node.ready
        ({ s with node := n.persist hs }, msgs)

section

variable {s : Session}

lemma call_of_panicked (h : s.panicked = true) (c : Call) : s.call c = (s, []) := by
  rw [call.eq_def, if_pos h]

lemma call_step (h : s.panicked = false) {m : Message} {env : Env}
    {r : Node × Option Node.StepError} (hr : s.node.step env m = some r) :
    s.call (.step m env) = ({ s with node := r.1 }, []) := by
  simp [call, h, hr]

lemma call_step_panic (h : s.panicked = false) {m : Message} {env : Env}
    (hr : s.node.step env m = none) :
    s.call (.step m env) = ({ s with panicked := true }, []) := by
  simp [call, h, hr]

lemma call_propose (h : s.panicked = false) (data : Data) (env : Env) :
    s.call (.propose data env) = ({ s with node := s.node.propose env data }, []) := by
  simp [call, h]

lemma call_ready (h : s.panicked = false) :
    s.call .ready =
      ({ s with node := s.node.ready.1.persist s.node.ready.2.2 }, s.node.batch) := by
  simp [call, h, Node.batch]

end

/-- The sessions of a node, under arbitrary calls. -/
def machine (n₀ : Node) : Machine Session Call where
  init := { node := n₀ }
  step s c := (s.call c).1

/-- The session after the first `t` calls. -/
def after (n₀ : Node) (ev : ℕ → Call) (t : ℕ) : Session := (machine n₀).run ev t

/-- The messages call number `t` returns. -/
def returned (n₀ : Node) (ev : ℕ → Call) (t : ℕ) : List Message :=
  ((after n₀ ev t).call (ev t)).2

/-- What `Ready` owes its caller after `t` calls: everything queued since the last
higher-term step-down that no `Ready` has returned, in the order in which it was queued. -/
def owed (n₀ : Node) (ev : ℕ → Call) : ℕ → List Message
  | 0 => []
  | t + 1 =>
      let n := (after n₀ ev t).node
      let queued := n.queuedSince (after n₀ ev (t + 1)).node
      match ev t with
      | .step m _ => if n.currentTerm < m.term then queued else owed n₀ ev t ++ queued
      | .propose _ _ => owed n₀ ev t ++ queued
      | .ready => []

/-! ## The books of a session -/

/-- Between two calls nothing is unsaved, and no message has overtaken the hard state. -/
structure Booked (i : NodeID) (s : Session) : Prop where
  started : s.node.started = true
  votes : Host.VoteLedger i s.node none [] []
  terms : Host.TermLedger s.node none [] []

lemma Booked.follows {i who : NodeID} {s : Session} {n' : Node} (h : Booked i s)
    (hf : Node.Follows who s.node n') (hwho : who ≠ "") : Booked i { s with node := n' } where
  started := hf.started.trans h.started
  votes := h.votes.follows hf hwho
  terms := h.terms.follows hf

/-- After `Ready` and the persist, the stored hard state accounts for the batch. -/
lemma Booked.persisted {i : NodeID} {s : Session} (h : Booked i s) :
    Host.VoteLedger i (s.node.ready.1.persist s.node.ready.2.2) none s.node.batch [] ∧
      Host.TermLedger (s.node.ready.1.persist s.node.ready.2.2) none s.node.batch [] := by
  have hvotes := h.votes.ready
  have hterms := h.terms.ready
  unfold Node.batch Node.ready
  cases hhs : s.node.pendingHS with
  | none =>
      rw [hhs] at hvotes hterms
      exact ⟨hvotes, hterms⟩
  | some hs =>
      rw [hhs] at hvotes hterms
      exact ⟨hvotes.save, hterms.save hvotes.stored_mid.term_le⟩

lemma Booked.ready {i : NodeID} {s : Session} (h : Booked i s) :
    Booked i { s with node := s.node.ready.1.persist s.node.ready.2.2 } where
  started := by
    unfold Node.ready
    cases s.node.pendingHS <;> exact h.started
  votes := h.persisted.1.discard
  terms := ⟨h.persisted.2.top_eq, h.persisted.2.pending, by simp, by simp⟩

lemma Booked.call {i : NodeID} {s : Session} {c : Call} (hc : c.NamesSender)
    (h : Booked i s) : Booked i (s.call c).1 := by
  cases hp : s.panicked with
  | true =>
      rw [call_of_panicked hp]
      exact h
  | false =>
      cases c with
      | propose data env =>
          rw [call_propose hp]
          exact h.follows (Node.follows_of_propose i env _ data) h.votes.id_ne
      | ready =>
          rw [call_ready hp]
          exact h.ready
      | step m env =>
          cases hstep : s.node.step env m with
          | none =>
              rw [call_step_panic hp hstep]
              exact ⟨h.started, h.votes, h.terms⟩
          | some r =>
              rw [call_step hp hstep]
              have hn := Node.handled_of_step (r := r.2) h.started hstep
              obtain ⟨who, hwho, hne⟩ := Node.exists_who (fun ht _ => hc ht) h.votes.id_ne
              exact h.follows (Node.follows_of_step hwho hn) hne

theorem booked_after {cfg : Config} {s : Storage} {draw : ℕ} {n₀ : Node}
    (hnew : Node.newNode cfg s draw = .ok n₀) {ev : ℕ → Call} {t : ℕ}
    (hnames : ∀ u < t, (ev u).NamesSender) : Booked cfg.nodeID (after n₀ ev t) := by
  have hn := Node.started_of_newNode hnew
  refine (machine n₀).run_invariant_of (P := Booked cfg.nodeID)
    (A := fun _ c => c.NamesSender) ?_ ?_ hnames
  · exact ⟨hn.started, Host.voteLedger_started hn, Host.termLedger_started hn⟩
  · exact fun s c hc h => h.call hc

/-! ## The batch is what is owed -/

lemma after_succ (n₀ : Node) (ev : ℕ → Call) (t : ℕ) :
    after n₀ ev (t + 1) = ((after n₀ ev t).call (ev t)).1 := rfl

/-- As long as the process lives, `Ready` would return what it owes. -/
theorem batch_eq_owed {cfg : Config} {s : Storage} {draw : ℕ} {n₀ : Node}
    (hnew : Node.newNode cfg s draw = .ok n₀) {ev : ℕ → Call} {t : ℕ}
    (hnames : ∀ u < t, (ev u).NamesSender) (hlive : (after n₀ ev t).panicked = false) :
    (after n₀ ev t).node.batch = owed n₀ ev t := by
  induction t with
  | zero =>
      have hn := Node.started_of_newNode hnew
      show n₀.batch = []
      rw [Node.batch, Node.ready, hn.pendingMsgs]
      rfl
  | succ t ih =>
      have hb := booked_after hnew (fun u hu => hnames u (Nat.lt_succ_of_lt hu)) (t := t)
      have ih := ih fun u hu => hnames u (Nat.lt_succ_of_lt hu)
      rw [owed]
      rw [after_succ] at hlive ⊢
      generalize after n₀ ev t = s at hb ih hlive ⊢
      cases hp : s.panicked with
      | true =>
          rw [call_of_panicked hp] at hlive
          rw [hlive] at hp
          cases hp
      | false =>
          have ih := ih hp
          cases hc : ev t with
          | propose data env =>
              rw [call_propose hp, ← ih]
              exact Node.batch_of_epoch_eq (Node.follows_of_propose "" env s.node data)
                (Node.propose_stepDownEpoch env s.node data)
          | ready =>
              rw [call_ready hp]
              dsimp only [Node.ready]
              cases s.node.pendingHS <;> rfl
          | step m env =>
              cases hstep : s.node.step env m with
              | none =>
                  rw [hc, call_step_panic hp hstep] at hlive
                  cases hlive
              | some r =>
                  rw [call_step hp hstep]
                  have hn := Node.handled_of_step (r := r.2) hb.started hstep
                  have hf : Node.Follows m.fromNode s.node r.1 :=
                    Node.follows_of_step (fun _ _ => rfl) hn
                  have hepoch := hn.stepDownEpoch
                  dsimp only
                  split_ifs with hlt
                  · refine Node.batch_of_epoch_lt hf ?_ hb.votes.epoch_le
                    rw [hepoch, Node.maybeStepDownLocked, if_neg (by omega)]
                    exact Nat.lt_succ_self _
                  · rw [← ih]
                    refine Node.batch_of_epoch_eq hf ?_
                    rw [hepoch, Node.maybeStepDownLocked, if_pos (by omega)]

/-- **Every batch of `Ready` is covered by the hard state.**  Whatever calls a caller makes on
a node fresh from `New`, as long as vote requests name their sender and the hard state `Ready`
returns is persisted, each `Ready` returns exactly what is owed, and the hard state persisted
last accounts for every message of it. -/
theorem ready_batch_covered {cfg : Config} {s : Storage} {draw : ℕ} {n₀ : Node}
    (hnew : Node.newNode cfg s draw = .ok n₀) {ev : ℕ → Call} {t : ℕ}
    (hnames : ∀ u < t, (ev u).NamesSender) (hlive : (after n₀ ev t).panicked = false)
    (hready : ev t = .ready) :
    let persisted := (after n₀ ev (t + 1)).node.storage.hs
    returned n₀ ev t = owed n₀ ev t ∧
    ∀ x ∈ returned n₀ ev t,
      (x.type = .requestVoteResponse → x.voteGranted = true →
        x.term < persisted.currentTerm ∨
          x.term = persisted.currentTerm ∧ persisted.votedFor = x.toNode) ∧
      (x.type = .requestVote →
        x.term < persisted.currentTerm ∨
          x.term = persisted.currentTerm ∧ persisted.votedFor = n₀.id) ∧
      x.term ≤ persisted.currentTerm := by
  intro persisted
  obtain ⟨hvotes, hterms⟩ := (booked_after hnew hnames).persisted
  have hreturned : returned n₀ ev t = (after n₀ ev t).node.batch := by
    rw [returned, hready, call_ready hlive]
  have hpersisted : persisted = ((after n₀ ev t).node.ready.1.persist
      (after n₀ ev t).node.ready.2.2).storage.hs := by
    show (after n₀ ev (t + 1)).node.storage.hs = _
    rw [after_succ, hready, call_ready hlive]
  rw [hreturned, hpersisted]
  refine ⟨batch_eq_owed hnew hnames hlive, fun x hx => ?_⟩
  have hcov := hvotes.batch_mid x hx
  refine ⟨fun ht hg => ?_, fun ht => ?_, hterms.batch_mid x hx⟩
  · have hvote : x.voteOf = some x.toNode := by simp [Message.voteOf, ht, hg]
    refine (hcov _ hvote).1.imp_right fun hc => ⟨hc.1, ?_⟩
    exact Option.some.inj (hc.2.symm.trans hvote)
  · have hvote : x.voteOf = some x.fromNode := by simp [Message.voteOf, ht]
    refine (hcov _ hvote).1.imp_right fun hc => ⟨hc.1, ?_⟩
    rw [(Node.started_of_newNode hnew).id, ← hvotes.batch_from x hx]
    exact Option.some.inj (hc.2.symm.trans hvote)

/-- Node `a` of a cluster of three, fresh from `New` on an empty store. -/
def nodeA : Node := (Host.start (Cluster.trio.cfg "a") {} 0 : Host Unit).node

/-- Before the first `Ready` the node votes for `b` in term 1, times out and stands for
election in term 2; before the second it votes for `c` in term 3 and is then called to
order by a heartbeat of term 5, which retires the vote. -/
def threeTerms : List Call :=
  [.step (Cluster.voteRequest 1 "b" "a" 0 0) {}, .step { type := .tick } {},
    .step { type := .tick } {}, .step { type := .tick } {}, .ready,
    .step (Cluster.voteRequest 3 "c" "a" 0 0) {},
    .step (Cluster.appendRequest 5 "b" "a" 0 0 [] 0) {}, .ready]

theorem ready_batch_covered_threeTerms :
    let ev := Machine.schedule .ready threeTerms
    returned nodeA ev 4 = [Cluster.voteGrant 1 "a" "b", Cluster.voteRequest 2 "a" "b" 0 0,
      Cluster.voteRequest 2 "a" "c" 0 0] ∧
    returned nodeA ev 7 = [Cluster.appendResponse 5 "a" "b" true 0] ∧
    returned nodeA ev 7 = owed nodeA ev 7 ∧
    (1 < (after nodeA ev (4 + 1)).node.storage.hs.currentTerm ∨
      1 = (after nodeA ev (4 + 1)).node.storage.hs.currentTerm ∧
        (after nodeA ev (4 + 1)).node.storage.hs.votedFor = "b") := by
  have hnew : Node.newNode (Cluster.trio.cfg "a") {} 0 = .ok nodeA := rfl
  have hnames : ∀ u < 7, (Machine.schedule .ready threeTerms u).NamesSender := by
    decide +kernel
  have hfirst := ready_batch_covered (t := 4) hnew (fun u hu => hnames u (by omega))
    (by decide +kernel) rfl
  have hsecond := ready_batch_covered hnew hnames (by decide +kernel) rfl
  refine ⟨by decide +kernel, by decide +kernel, hsecond.1, ?_⟩
  exact (hfirst.2 (Cluster.voteGrant 1 "a" "b") (by decide +kernel)).1 rfl rfl

end Session

end ToyRaft
