import ToyRaft.Properties.LogShape

/-!
# The assertions of a debug build (`pkg/raft/ready_assert_debug.go`)

A debug build checks two things whenever `Ready` is called: every queued success response
reports an index the log reaches, and every queued grant of the pending hard state's term is for
the candidate that hard state records.  Both look at all queued messages, also at those of an
earlier epoch that `Ready` is about to drop.

The second assertion never fails (`grants_match`): a vote is not changed within a term.  The
first one fails when the log is cut between two calls of `Ready` below what a queued response
reports (`CutsAcked`), and only then (`ready_assertions_hold`).
-/

namespace ToyRaft

namespace Node

/-- The panics of the two assertions. -/
inductive ReadyPanic
  /-- `pendingHS.VotedFor=… but grant response.To=… at term …`. -/
  | grant (votedFor dest : NodeID) (term : ℕ)
  /-- `MsgAppendEntriesResp Success=true MatchIndex=… exceeds log.LastIndex()=…`. -/
  | beyondLog (matchIndex lastIndex : ℕ)
  deriving DecidableEq, Repr

/-- `assertAppendPrecedesAEResponseLocked`; the result `none` is no panic. -/
def assertAppendPrecedesAEResponseLocked (n : Node) : Option ReadyPanic :=
  let last := n.log.lastIndex
  n.pendingMsgs.findSome? fun pm =>
    let m := pm.msg
    if m.type ≠ .appendEntriesResp ∨ (!m.success) ∨ m.matchIndex = 0 then none
    else if last < m.matchIndex then some (.beyondLog m.matchIndex last)
    else none

/-- `assertReadyInvariantsLocked`. -/
def assertReadyInvariantsLocked (n : Node) : Option ReadyPanic :=
  match n.assertAppendPrecedesAEResponseLocked with
  | some p => some p
  | none =>
      match n.pendingHS with
      | none => none
      | some hs =>
          n.pendingMsgs.findSome? fun pm =>
            let m := pm.msg
            if m.type ≠ .requestVoteResponse then none
            else if !m.voteGranted then none
            else if m.term ≠ hs.currentTerm then none
            else if hs.votedFor ≠ m.toNode then
              some (.grant hs.votedFor m.toNode hs.currentTerm)
            else none

/-- The log reaches what the queued success responses report. -/
def AcksInLog (n : Node) : Prop :=
  ∀ pm ∈ n.pendingMsgs, pm.msg.type = .appendEntriesResp → pm.msg.success = true →
    pm.msg.matchIndex ≤ n.log.lastIndex

/-- The hard state accounts for the queued votes, whatever their epoch. -/
def VotesOnFile (n : Node) : Prop :=
  ∀ pm ∈ n.pendingMsgs, ∀ c, pm.msg.voteOf = some c → n.hardState.Covers pm.msg ∧ c ≠ ""

/-- Accepting `m` leaves the log shorter than a queued success response reports. -/
def CutsAcked (n : Node) (m : Message) : Prop :=
  n.Writes m ∧
    ∃ pm ∈ n.pendingMsgs, pm.msg.type = .appendEntriesResp ∧ pm.msg.success = true ∧
      m.prevLogIndex + m.entries.length < pm.msg.matchIndex

instance (n : Node) (m : Message) : Decidable (n.CutsAcked m) :=
  inferInstanceAs (Decidable (_ ∧ _))

/-! ## What the assertions say -/

lemma AcksInLog.no_panic {n : Node} (h : n.AcksInLog) :
    n.assertAppendPrecedesAEResponseLocked = none := by
  refine List.findSome?_eq_none_iff.mpr fun pm hpm => ?_
  dsimp only
  split_ifs with hskip hlt
  · rfl
  · have hsucc : pm.msg.success = true := by
      cases hs : pm.msg.success with
      | true => rfl
      | false => exact (hskip (.inr (.inl (by rw [hs]; rfl)))).elim
    have htype : pm.msg.type = .appendEntriesResp := by
      by_contra hne
      exact hskip (.inl hne)
    have := h pm hpm htype hsucc
    omega
  · rfl

/-- The grants never disagree with a pending hard state that is the current one. -/
lemma VotesOnFile.panic_cases {n : Node} (h : n.VotesOnFile)
    (hhs : ∀ hs, n.pendingHS = some hs → hs = n.hardState) :
    n.assertReadyInvariantsLocked = n.assertAppendPrecedesAEResponseLocked := by
  unfold assertReadyInvariantsLocked
  cases hack : n.assertAppendPrecedesAEResponseLocked with
  | some p => rfl
  | none =>
      cases hp : n.pendingHS with
      | none => rfl
      | some hs =>
          refine List.findSome?_eq_none_iff.mpr fun pm hpm => ?_
          dsimp only
          split_ifs with htype hgrant hterm hvote
          · rfl
          · rfl
          · rfl
          · have hvoteOf : pm.msg.voteOf = some pm.msg.toNode := by
              have hg : pm.msg.voteGranted = true := by simpa using hgrant
              rw [Message.voteOf, not_not.mp htype]
              exact if_pos hg
            have hterm' := not_not.mp hterm
            rw [hhs hs hp] at hterm' hvote
            rcases (h pm hpm _ hvoteOf).1 with hlt | ⟨-, hsame⟩
            · omega
            · rw [hvoteOf] at hsame
              exact (hvote (Option.some.inj hsame).symm).elim
          · rfl

/-! ## What a section preserves -/

lemma VotesOnFile.follows {n n' : Node} {who : NodeID} (h : n.VotesOnFile)
    (hf : Follows who n n') (hid : n.id ≠ "") (hwho : who ≠ "") : n'.VotesOnFile := by
  intro pm hpm c hc
  obtain ⟨new, heq, hnew⟩ := hf.outbox
  rw [heq] at hpm
  rcases List.mem_append.mp hpm with hpm | hpm
  · obtain ⟨hcov, hne⟩ := h pm hpm c hc
    refine ⟨hcov.mono hf.precedes fun d hd => ?_, hne⟩
    rw [hc] at hd
    rwa [← Option.some.inj hd]
  · obtain ⟨hvotedFor, hwhom⟩ := (hnew pm hpm).vote c hc
    refine ⟨.inr ⟨(hnew pm hpm).term, ?_⟩, ?_⟩
    · rw [hc, ← hvotedFor]
      rfl
    · rcases hwhom with rfl | rfl
      · exact hid
      · exact hwho

lemma CutsAcked.of_stepDown {n : Node} {m : Message}
    (h : (n.maybeStepDownLocked m.term).CutsAcked m) : n.CutsAcked m := by
  obtain ⟨-, -, hlog, -, -, -, -, hcur, -⟩ := n.maybeStepDownLocked_frame m.term
  obtain ⟨⟨htype, hterm, hprev, hfc⟩, pm, hpm, hack⟩ := h
  rw [hlog] at hprev
  rw [firstConflictIndex_congr hlog] at hfc
  rw [maybeStepDownLocked_pending] at hpm
  exact ⟨⟨htype, hcur.trans hterm, hprev, hfc⟩, pm, hpm, hack⟩

lemma Shaped.lastIndex_written {n : Node} {m : Message} (hs : n.Shaped)
    (hwf : m.WellFormedAppend) (hp : n.Passes m) (hfc : n.firstConflictIndex m.entries ≠ 0) :
    (n.writtenLog m).lastIndex = m.prevLogIndex + m.entries.length := by
  rcases receiver_cases hs.contiguous hwf hp.prev with ⟨h0, -⟩ | ⟨k, hk, hw, hsuf⟩
  · exact (hfc h0).elim
  · obtain ⟨hcont, hlen⟩ := written_contiguous hs.contiguous hwf.contiguous hw
    rw [writtenLog_eq hs.contiguous hk hsuf, Log.lastIndex_eq_length hcont, hlen]

lemma AcksInLog.handled {env : Env} {m : Message} {n n' : Node} (h : n.AcksInLog)
    (hs : n.Shaped) (hwf : m.type = .appendEntries → m.WellFormedAppend)
    (hfault : env.truncateErr = false ∧ env.appendErr = false) (hcut : ¬ n.CutsAcked m)
    (hn : Handled env m n n') : n'.AcksInLog := by
  intro pm hpm htype hsucc
  obtain ⟨new, heq, hnew⟩ := speaks_of_handled hn
  rw [heq] at hpm
  rcases List.mem_append.mp hpm with hpm | hpm
  · have hold := h pm hpm htype hsucc
    cases logEffect_of_handled hn with
    | same hlog => rwa [hlog]
    | write hp hfc _ _ _ hlog =>
        rw [hlog, hs.lastIndex_written (hwf hp.type) hp hfc]
        by_contra hlt
        exact hcut ⟨⟨hp.type, hp.term.ge, hp.prev, hfc⟩, pm, hpm, htype, hsucc, not_le.mp hlt⟩
    | mirrorFailed hfail hp hfc => exact (hfail (hs.mirror_none (hwf hp.type) hfault hp hfc)).elim
  · exact ((hnew pm hpm).of_ack htype hsucc).2.2.2.2.1.le

lemma AcksInLog.stepDown {n : Node} (h : n.AcksInLog) (T : ℕ) :
    (n.maybeStepDownLocked T).AcksInLog := by
  unfold AcksInLog
  rw [maybeStepDownLocked_pending, (n.maybeStepDownLocked_frame T).2.2.1]
  exact h

lemma AcksInLog.proposed {n : Node} (h : n.AcksInLog) (hrole : n.role = .leader) (data : Data)
    (s : Storage) : (n.proposed data s).broadcastAppendEntriesLocked.AcksInLog := by
  intro pm hpm htype hsucc
  have hspeaks : Speaks { type := .tick } n (n.proposed data s).broadcastAppendEntriesLocked :=
    speaks_broadcast rfl hrole
  obtain ⟨new, heq, hnew⟩ := hspeaks
  rw [heq] at hpm
  rcases List.mem_append.mp hpm with hpm | hpm
  · have hold := h pm hpm htype hsucc
    have hlast : (n.proposed data s).log.lastIndex = n.log.lastIndex + 1 := by
      simp [Node.proposed, Log.lastIndex, Log.append, newEntry]
    rw [(n.proposed data s).broadcast_frame.2.2.2.2.1, hlast]
    omega
  · cases ((hnew pm hpm).of_ack htype hsucc).1.type

end Node

namespace Host

variable {ρ : Type}

lemma Move.votesOnFile {cfg : Config} {h : Host ρ} {a : Act ρ} {n' : Node} {f' : Flush}
    {out : List Message} (hmove : Move cfg h a n' f' out) (hid : h.node.id ≠ "")
    (hnames : NamesSender h a) (hv : h.node.VotesOnFile) : n'.VotesOnFile := by
  cases hmove with
  | quiet => exact hv
  | @step m env n' ha hn hdel =>
      obtain ⟨who, hwho, hne⟩ := Node.exists_who
        (fun ht => hnames m (inbound_of_step ha (by simp [ht])) ht) hid
      exact hv.follows (Node.follows_of_step hwho hn) hid hne
  | propose _ _ hs => exact hv.follows (Node.follows_of_proposed h.node.id hs) hid hid
  | proposeFailed => exact hv
  | ready =>
      intro pm hpm
      cases hpm
  | save => exact hv
  | saveNone => exact hv
  | saveFailed => exact hv
  | send => exact hv
  | restart _ hn =>
      intro pm hpm
      rw [hn.pendingMsgs] at hpm
      cases hpm

/-- A move that cuts no acknowledged entry keeps the queued responses within the log. -/
lemma Move.acksInLog {cfg : Config} {h : Host ρ} {a : Act ρ} {n' : Node} {f' : Flush}
    {out : List Message} (hmove : Move cfg h a n' f' out) (hfault : a.logFaultless = true)
    (hm : ∀ m ∈ a.inbound, m.type = .appendEntries → m.WellFormedAppend)
    (hs : h.node.Shaped) (hcut : ∀ m ∈ h.delivered a, ¬ h.node.CutsAcked m)
    (hacks : h.node.AcksInLog) : n'.AcksInLog := by
  cases hmove with
  | quiet => exact hacks
  | @step m env n' ha hn hdel =>
      have hwf : m.type = .appendEntries → m.WellFormedAppend := fun ht =>
        hm m (inbound_of_step ha (by simp [ht])) ht
      have henv := env_of_logFaultless ha hfault
      have hcut' : ¬ (h.node.maybeStepDownLocked m.term).CutsAcked m := by
        intro hbad
        rcases hdel with rfl | hdel
        · cases hbad.1.1
        · exact hcut m hdel hbad.of_stepDown
      exact (hacks.stepDown m.term).handled (hs.stepDown m.term) hwf henv hcut' hn
  | @propose data env s ha hrole happ => exact hacks.proposed hrole data s
  | proposeFailed ha hrole hfail =>
      subst ha
      exact (append_succeeds hs hfault hfail).elim
  | ready =>
      intro pm hpm
      cases hpm
  | save => exact hacks
  | saveNone => exact hacks
  | saveFailed => exact hacks
  | send => exact hacks
  | restart _ hn =>
      intro pm hpm
      rw [hn.pendingMsgs] at hpm
      cases hpm

end Host

namespace Cluster

variable {ρ : Type} (C : Cluster) (ev : ℕ → Event ρ)

/-- At moment `t` a node is delivered an `AppendEntries` whose write leaves its log shorter than
a success response it has queued reports. -/
def CutsAckedLog (t : ℕ) : Prop :=
  C.Enabled (C.world ev t) (ev t) ∧
    ∃ m ∈ (C.host ev t (ev t).node).delivered (ev t).act,
      (C.node ev t (ev t).node).CutsAcked m

instance (t : ℕ) : Decidable (C.CutsAckedLog ev t) :=
  inferInstanceAs (Decidable (_ ∧ _))

lemma votesOnFile {i : NodeID} (hi : i ∈ C.peers) (t : ℕ) : (C.node ev t i).VotesOnFile := by
  refine C.host_invariant ev (P := fun h => h.node.VotesOnFile) ?_ ?_ t
  · intro pm hpm
    have hpm' : pm ∈ (C.node ev 0 i).pendingMsgs := hpm
    rw [(C.started_zero ev hi).pendingMsgs] at hpm'
    cases hpm'
  · intro t sent hm hv
    refine hm.move.votesOnFile ?_ (fun m hin _ _ => ?_) hv
    · exact (C.node_id ev hi t).trans_ne (C.member_ne hi)
    · exact C.member_ne (C.net_from ev (hm.inbound m hin).1)

lemma pendingHS_eq {i : NodeID} (hi : i ∈ C.peers) {t : ℕ} {hs : HardState}
    (h : (C.node ev t i).pendingHS = some hs) : hs = (C.node ev t i).hardState := by
  have htop := ((C.balanced ev t).1 i hi).2.top_eq
  rwa [h] at htop

lemma acksInLog {i : NodeID} (hi : i ∈ C.peers) {t : ℕ}
    (hgood : ∀ s < t, ¬ C.CutsAckedLog ev s) : (C.node ev t i).AcksInLog := by
  induction t with
  | zero =>
      intro pm hpm
      rw [(C.started_zero ev hi).pendingMsgs] at hpm
      cases hpm
  | succ t ih =>
      have ih' := ih fun s hs => hgood s (Nat.lt_succ_of_lt hs)
      rcases C.step_cases ev t i with ⟨sent, hm⟩ | ⟨heq, -⟩
      · refine hm.move.acksInLog (Host.logFaultless_of_faultless hm.faultless)
          (fun m hin ht => C.wellFormed ev (hm.inbound m hin).1 ht) (C.shaped ev hi t)
          (fun m hdel hcut => hgood t (Nat.lt_succ_self t) ⟨hm.enabled, m, ?_⟩) ih'
        rw [hm.node]
        exact ⟨hdel, hcut⟩
      · rwa [node, heq]

/-- The assertions of a debug build.  The one about grants holds in every state of every run;
the one about success responses holds as long as no log was cut below a response still
queued. -/
theorem ready_assertions_hold {i : NodeID} (hi : i ∈ C.peers) (t : ℕ) :
    (∀ p, (C.node ev t i).assertReadyInvariantsLocked = some p →
      (C.node ev t i).assertAppendPrecedesAEResponseLocked = some p) ∧
    ((∀ s < t, ¬ C.CutsAckedLog ev s) →
      (C.node ev t i).assertReadyInvariantsLocked = none) := by
  have hsame := (C.votesOnFile ev hi t).panic_cases fun hs => C.pendingHS_eq ev hi
  refine ⟨fun p hp => hsame ▸ hp, fun hgood => ?_⟩
  rw [hsame]
  exact (C.acksInLog ev hi hgood).no_panic

/-- Node `b` is elected in term 2 and its heartbeat is acknowledged by `a`, which still has an
entry of term 1. -/
def tailAcked : List (Event Unit) :=
  elect 1 "a" "b" 0 0 ++ propose "a" [1] ++ propose "a" [2] ++ elect 2 "b" "c" 0 0 ++
    propose "b" [3] ++ flush "b" 4 ++ deliver (appendRequest 2 "b" "a" 0 0 [] 0)

theorem ready_assertions_hold_tailAcked :
    (trio.node (Machine.schedule idle tailAcked) 60 "a").pendingMsgs ≠ [] ∧
      (trio.node (Machine.schedule idle tailAcked) 60 "a").assertReadyInvariantsLocked = none :=
  ⟨by decide +kernel, (trio.ready_assertions_hold _ (by decide) 60).2 (by decide +kernel)⟩

/-- Before `a` calls `Ready`, the first entry of term 2 reaches it and replaces its tail. -/
def tailCut : List (Event Unit) :=
  tailAcked ++ deliver (appendRequest 2 "b" "a" 0 0 [⟨2, 1, [3]⟩] 0)

/-- The response still queued reports two entries, and the log has one. -/
theorem ready_assertion_fails :
    (trio.node (Machine.schedule idle tailCut) 60 "a").assertReadyInvariantsLocked =
      some (.beyondLog 2 1) := by
  decide +kernel

end Cluster

end ToyRaft
