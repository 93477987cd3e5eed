import ToyRaft.Framework.Replication
import ToyRaft.Properties.ElectionSafety
import ToyRaft.Properties.LogShape

/-!
# The cluster is an execution of replicated logs

`Execution` states the laws of elections and log replication without messages, timers or
storage.  This file shows that every run of a cluster of more than one node obeys them:

* a term has one leader (`leader_unique`);
* a leader was elected by votes cast after its candidacy began, each on a log that the
  candidate's dominates, and no voter has fallen back below that term (`elected`);
* a log changes only by a leader's append, by a graft from an `AppendEntries`, or by the cut
  a crash in the middle of a graft leaves (`log_cases`).

A cluster of one is left out because its leader never persists the term it wins; its log only
grows, and it is treated on its own.
-/

namespace ToyRaft

namespace Cluster

variable {ρ : Type} (C : Cluster) (ev : ℕ → Event ρ)

/-! ## Candidacies in time -/

/-- Whoever is not a follower began its candidacy at some moment, with its log as it was, and
has held that term and office since. -/
lemma candidate_since {t : ℕ} {i : NodeID} (h : (C.node ev t i).role ≠ .follower) :
    ∃ tc < t, (C.node ev tc i).currentTerm < (C.node ev t i).currentTerm ∧
      (C.node ev (tc + 1) i).log = (C.node ev tc i).log ∧
      ∀ s, tc < s → s ≤ t → (C.node ev s i).role ≠ .follower ∧
        (C.node ev s i).currentTerm = (C.node ev t i).currentTerm := by
  have hi := C.mem_of_role ev h
  induction t with
  | zero => exact (h (C.started_zero ev hi).role).elim
  | succ t ih =>
      have hextend : (C.node ev t i).role ≠ .follower →
          (C.node ev (t + 1) i).currentTerm = (C.node ev t i).currentTerm →
          ∃ tc < t + 1, (C.node ev tc i).currentTerm < (C.node ev (t + 1) i).currentTerm ∧
            (C.node ev (tc + 1) i).log = (C.node ev tc i).log ∧
            ∀ s, tc < s → s ≤ t + 1 → (C.node ev s i).role ≠ .follower ∧
              (C.node ev s i).currentTerm = (C.node ev (t + 1) i).currentTerm := by
        intro hne hcur
        obtain ⟨tc, htc, hlt, hlog, hall⟩ := ih hne
        refine ⟨tc, by omega, by omega, hlog, fun s hs hst => ?_⟩
        rcases Nat.lt_or_ge t s with hts | hts
        · obtain rfl : s = t + 1 := by omega
          exact ⟨h, rfl⟩
        · rw [hcur]
          exact hall s hs hts
      rcases C.step_cases ev t i with ⟨sent, hm⟩ | ⟨heq, -⟩
      · cases hm.move.role with
        | follower hf => exact (h hf).elim
        | kept hne _ hcur _ _ => exact hextend hne hcur
        | campaign _ hcur _ _ hlog _ =>
            refine ⟨t, by omega, hcur, hlog, fun s hs hst => ?_⟩
            obtain rfl : s = t + 1 := by omega
            exact ⟨h, rfl⟩
        | tally m _ _ _ _ hrole _ hcur _ _ _ _ =>
            exact hextend (by rw [show (C.node ev t i).role = _ from hrole]; simp) hcur
      · have hnode : C.node ev (t + 1) i = C.node ev t i := by rw [node, heq]; rfl
        exact hextend (by rwa [hnode] at h) (by rw [hnode])

lemma leader_stays {t : ℕ} {i : NodeID} (hl : (C.node ev t i).role = .leader)
    (hne : (C.node ev (t + 1) i).role ≠ .follower)
    (hcur : (C.node ev (t + 1) i).currentTerm = (C.node ev t i).currentTerm) :
    (C.node ev (t + 1) i).role = .leader := by
  rcases C.step_cases ev t i with ⟨sent, hm⟩ | ⟨heq, -⟩
  · cases hm.move.role with
    | follower hf => exact (hne hf).elim
    | kept _ hrole _ _ _ => exact hrole.trans hl
    | campaign _ hlt _ _ _ _ => exact absurd hcur.symm (Nat.ne_of_lt hlt)
    | tally m _ _ _ _ hrole _ _ _ _ _ _ =>
        rw [show (C.node ev t i).role = _ from hrole] at hl
        cases hl
  · rw [node, heq]
    exact hl

/-- A leader's time in office: candidate from `tc`, leader from `t₀`. -/
structure Tenure (i : NodeID) (T tc t₀ t : ℕ) : Prop where
  tc_lt : tc < t₀
  le : t₀ ≤ t
  fresh : (C.node ev tc i).currentTerm < T
  campaign_log : (C.node ev (tc + 1) i).log = (C.node ev tc i).log
  office : ∀ s, tc < s → s ≤ t → (C.node ev s i).role ≠ .follower ∧
    (C.node ev s i).currentTerm = T
  candidate : ∀ s, tc < s → s < t₀ → (C.node ev s i).role ≠ .leader
  leader : ∀ s, t₀ ≤ s → s ≤ t → C.LeaderAt ev s i T

lemma tenure {t : ℕ} {i : NodeID} {T : ℕ} (h : C.LeaderAt ev t i T) :
    ∃ tc t₀, C.Tenure ev i T tc t₀ t := by
  classical
  obtain ⟨hrole, rfl⟩ := h
  obtain ⟨tc, htc, hlt, hlog, hall⟩ := C.candidate_since ev (t := t) (i := i) (by simp [hrole])
  have hex : ∃ s, tc < s ∧ (C.node ev s i).role = .leader := ⟨t, htc, hrole⟩
  obtain ⟨htc₀, hlead₀⟩ := Nat.find_spec hex
  have hle : Nat.find hex ≤ t := Nat.find_min' hex ⟨htc, hrole⟩
  refine ⟨tc, Nat.find hex, htc₀, hle, hlt, hlog, hall, fun s hs hst hl => ?_, ?_⟩
  · exact Nat.find_min hex hst ⟨hs, hl⟩
  · intro s hs
    induction s, hs using Nat.le_induction with
    | base => exact fun hst => ⟨hlead₀, (hall _ htc₀ hst).2⟩
    | succ s hs ih =>
        intro hst
        obtain ⟨hl, hcur⟩ := ih (by omega)
        obtain ⟨hne, hcur'⟩ := hall (s + 1) (by omega) hst
        exact ⟨C.leader_stays ev hl hne (hcur'.trans hcur.symm), hcur'⟩

lemma Tenure.request_at {i : NodeID} {T tc t₀ t u : ℕ} (h : C.Tenure ev i T tc t₀ t)
    (hu : u ≤ t₀) {y : Message} (hy : y ∈ C.net ev u) (ht : y.type = .requestVote)
    (hfrom : y.fromNode = i) (hterm : y.term = T) :
    tc < u ∧ (∀ s, tc < s → T ≤ (C.node ev s i).currentTerm) ∧
      ∃ p, y = (C.node ev (tc + 1) i).requestVoteFor p := by
  obtain ⟨s, hs, hq, hstay⟩ := provenance_net hy
  obtain ⟨-, m, -, hsp⟩ := spokenAt_of_queued hq
  rw [hfrom] at hsp hstay
  obtain ⟨⟨p, -, heq⟩, -, hcur, -⟩ := hsp.of_requestVote ht
  have hyt : y.term = (C.node ev (s + 1) i).currentTerm := by rw [heq]; rfl
  have hle := ((C.node ev s i).maybeStepDownLocked_frame m.term).2.2.2.2.2.2.2.1
  -- before it spoke the candidate was below `T`, so this is the moment `tc`
  have hsc : s = tc := by
    rcases Nat.lt_trichotomy s tc with hlt | heq | hgt
    · have := hstay tc hlt
      have := h.fresh
      omega
    · exact heq
    · have := (h.office s hgt (by have := h.le; omega)).2
      omega
  subst hsc
  exact ⟨hs, fun u hu => hterm ▸ hstay u hu, p, heq⟩

/-! ## Logs in time -/

/-- What an observer of the cluster sees. -/
def history : History NodeID Entry where
  peers := C.peers.toFinset
  termOf := Entry.term
  cur t i := (C.node ev t i).currentTerm
  leads t i := (C.node ev t i).role = .leader
  log t i := (C.node ev t i).log

/-- The message `m`, sent to `i` before moment `t`, is grafted onto the log of `i` at
position `k`. -/
structure GraftsAt (t : ℕ) (i : NodeID) (m : Message) (k : ℕ) : Prop where
  mem : i ∈ C.peers
  net : m ∈ C.net ev t
  type : m.type = .appendEntries
  dest : m.toNode = i
  term_le : (C.node ev t i).currentTerm ≤ m.term
  office : (C.node ev (t + 1) i).role ≠ .follower → (C.node ev (t + 1) i).currentTerm = m.term
  prev : (C.node ev t i).log.hasEntry m.prevLogIndex m.prevLogTerm = true
  writes : Node.WritesFrom (C.node ev t i).log m.prevLogIndex m.entries k
  log : (C.node ev (t + 1) i).log =
      (C.node ev t i).log.take k ++ m.entries.drop (k - m.prevLogIndex) ∨
    (C.node ev (t + 1) i).log = (C.node ev t i).log.take k

/-- What can happen to a log at one moment. -/
lemma log_cases (t : ℕ) (i : NodeID) :
    (C.node ev (t + 1) i).log = (C.node ev t i).log ∨
    (∃ e, (C.node ev t i).role = .leader ∧ (C.node ev (t + 1) i).role = .leader ∧
      (C.node ev (t + 1) i).currentTerm = (C.node ev t i).currentTerm ∧
      e.term = (C.node ev t i).currentTerm ∧
      (C.node ev (t + 1) i).log = (C.node ev t i).log ++ [e]) ∨
    ∃ m k, C.GraftsAt ev t i m k := by
  rcases C.step_cases ev t i with ⟨sent, hm⟩ | ⟨heq, -⟩
  · have hwf : ∀ m ∈ (ev t).act.inbound, m.type = .appendEntries → m.WellFormedAppend :=
      fun m hin => C.wellFormed ev (hm.inbound m hin).1
    cases hm.move.log (Host.logFaultless_of_faultless hm.faultless) hwf (C.shaped ev hm.mem t) with
    | same h => exact .inl h
    | appended e hrole hrole' hcur he h => exact .inr (.inl ⟨e, hrole, hrole', hcur, he, h⟩)
    | grafted m k hin ht hterm hoffice hprev hw h =>
        obtain ⟨hnet, hto⟩ := hm.inbound m hin
        exact .inr (.inr ⟨m, k, hm.mem, hnet, ht, hto, hterm, hoffice, hprev, hw, h⟩)
  · rw [node, heq]
    exact .inl rfl

/-- The message `m` is the `AppendEntries` its sender, leading its term, built at moment `s`:
the batch is the rest of its log, and the consistency check is about the same log. -/
structure BuiltAt (m : Message) (s : ℕ) : Prop where
  leader : C.LeaderAt ev s m.fromNode m.term
  dest : m.toNode ≠ m.fromNode
  commit : m.leaderCommit ≤ (C.node ev s m.fromNode).commitIndex
  entries : m.entries = (C.node ev s m.fromNode).log.drop m.prevLogIndex
  prevTerm : m.prevLogTerm = ((C.node ev s m.fromNode).log.term m.prevLogIndex).1

lemma builtAt {t : ℕ} {m : Message} (hm : m ∈ C.net ev t) (ht : m.type = .appendEntries) :
    ∃ s ≤ t, C.BuiltAt ev m s := by
  obtain ⟨s, hs, c, hc, hrole, ⟨p, hp, heq⟩, -⟩ := C.append_source ev hm ht
  have hi := C.net_from ev hm
  have hshape := C.shaped ev hi (s + 1)
  have hid := C.node_id ev hi (s + 1)
  have hpeer : p ∈ (C.node ev (s + 1) m.fromNode).peers ∧
      p ≠ (C.node ev (s + 1) m.fromNode).id := by
    simpa [Node.others] using hp
  have hnext := hshape.next_pos hrole p hpeer.1
  have hprev : m.prevLogIndex = (C.node ev (s + 1) m.fromNode).nextIndex.get p - 1 := by
    have : m.prevLogIndex = Node.prevIndexOf _ := congrArg Message.prevLogIndex heq
    rw [this, Node.prevIndexOf, if_neg (by omega)]
  refine ⟨s + 1, hs, ⟨hrole, (congrArg Message.term heq).symm⟩, ?_, ?_, ?_, ?_⟩
  · rw [show m.toNode = p from congrArg Message.toNode heq]
    exact fun h => hpeer.2 (h.trans hid.symm)
  · rw [show m.leaderCommit = c from congrArg Message.leaderCommit heq]
    exact hc
  · rw [hprev, ← Log.entriesFrom_eq_drop hshape.contiguous (by omega)]
    exact congrArg Message.entries heq
  · have hterm := congrArg Message.prevLogTerm heq
    rwa [show m.prevLogIndex = Node.prevIndexOf
      ((C.node ev (s + 1) m.fromNode).nextIndex.get p) from congrArg Message.prevLogIndex heq]

lemma agreesAt_drop {old l : Log} {base q : ℕ} (hq : base ≤ q) :
    Node.AgreesAt old base (l.drop base) q ↔ (C.history ev).TermAgree old l q := by
  unfold Node.AgreesAt History.TermAgree
  rw [List.getElem?_drop, Nat.add_sub_cancel' hq]
  rfl

/-- A consistency check on a log's own term agrees with that log. -/
lemma termAgree_of_hasEntry {old l : Log} (hold : old.Contiguous) (hl : l.Contiguous)
    (hpos : ∀ e ∈ old, 0 < e.term) {q : ℕ} (hq : q ≠ 0)
    (h : old.hasEntry q (l.term q).1 = true) : (C.history ev).TermAgree old l (q - 1) := by
  rcases (Log.hasEntry_iff hold _ _).mp h with ⟨h0, -⟩ | ⟨-, a, ha, hterm⟩
  · exact (hq h0).elim
  · rw [Log.term_fst_eq hl, if_neg hq] at hterm
    have hlt := hpos a (List.mem_of_getElem? ha)
    cases hb : l[q - 1]? with
    | none =>
        rw [hb] at hterm
        simp at hterm
        omega
    | some b =>
        rw [hb] at hterm
        exact ⟨a, b, ha, hb, hterm⟩

variable {C ev}

/-- A log that passes the consistency check of `m` and agrees with its batch below `q` agrees
with the sender's log just below `q`. -/
lemma BuiltAt.termAgree {m : Message} {s t : ℕ} {i : NodeID} (h : C.BuiltAt ev m s)
    (hi : i ∈ C.peers)
    (hprev : (C.node ev t i).log.hasEntry m.prevLogIndex m.prevLogTerm = true) {q : ℕ}
    (hq : m.prevLogIndex ≤ q) (h0 : q ≠ 0)
    (hbelow : ∀ p, m.prevLogIndex ≤ p → p < q →
      Node.AgreesAt (C.node ev t i).log m.prevLogIndex m.entries p) :
    (C.history ev).TermAgree (C.node ev t i).log (C.node ev s m.fromNode).log (q - 1) := by
  have hold := C.shaped ev hi t
  have hsrc := C.shaped ev h.leader.mem s
  rcases Nat.lt_or_ge m.prevLogIndex q with hgt | hge
  · have hagree := hbelow (q - 1) (by omega) (by omega)
    rw [h.entries] at hagree
    exact (C.agreesAt_drop ev (by omega)).mp hagree
  · obtain rfl : q = m.prevLogIndex := by omega
    rw [h.prevTerm] at hprev
    exact C.termAgree_of_hasEntry ev hold.contiguous hsrc.contiguous hold.pos h0 hprev

/-- What a message grafts is the log of the leader that built it, as it was when it did. -/
lemma BuiltAt.graft {m : Message} {s t : ℕ} {i : NodeID} (h : C.BuiltAt ev m s)
    (hi : i ∈ C.peers)
    (hprev : (C.node ev t i).log.hasEntry m.prevLogIndex m.prevLogTerm = true) {k : ℕ}
    (hw : Node.WritesFrom (C.node ev t i).log m.prevLogIndex m.entries k) :
    (C.history ev).Graft (C.node ev t i).log (C.node ev s m.fromNode).log k ∧
      m.entries.drop (k - m.prevLogIndex) = (C.node ev s m.fromNode).log.drop k := by
  have hlt := hw.lt_end
  have hconf := hw.conflict
  have hbase := hw.base_le
  rw [h.entries] at hlt hconf ⊢
  rw [List.length_drop] at hlt
  refine ⟨⟨?_, hw.le_length, by omega, ?_⟩, ?_⟩
  · by_cases h0 : k = 0
    · exact .inl h0
    · exact .inr (h.termAgree hi hprev hbase h0 hw.below)
  · exact hconf.imp_right fun hnot hagree => hnot ((C.agreesAt_drop ev hbase).mpr hagree)
  · rw [List.drop_drop, Nat.add_sub_cancel' hbase]

lemma GraftsAt.source {t : ℕ} {i : NodeID} {m : Message} {k : ℕ} (h : C.GraftsAt ev t i m k) :
    ∃ s ≤ t, C.LeaderAt ev s m.fromNode m.term ∧ m.fromNode ≠ i ∧
      (C.history ev).Graft (C.node ev t i).log (C.node ev s m.fromNode).log k ∧
      m.entries.drop (k - m.prevLogIndex) = (C.node ev s m.fromNode).log.drop k := by
  obtain ⟨s, hs, hb⟩ := C.builtAt ev h.net h.type
  obtain ⟨hgraft, hsuf⟩ := hb.graft h.mem h.prev h.writes
  refine ⟨s, hs, hb.leader, ?_, hgraft, hsuf⟩
  rw [← h.dest]
  exact hb.dest.symm

variable (C ev)

/-- The log of a node changes as the laws of replication allow. -/
lemma log_step (t : ℕ) (i : NodeID) : (C.history ev).LogStep t i := by
  rcases C.log_cases ev t i with h | ⟨e, hrole, hrole', hcur, he, h⟩ | ⟨m, k, hg⟩
  · exact .same h
  · exact .appended e hrole hrole' hcur he h
  · obtain ⟨s, hs, hlead, hne, hgraft, hsuf⟩ := hg.source
    have hlog := hg.log
    rw [hsuf] at hlog
    refine .grafted m.fromNode s k hs hne hlead.1 ?_ (fun hl => ?_) hgraft hlog
    · exact hg.term_le.trans hlead.2.ge
    · exact (hg.office (by rw [show (C.node ev (t + 1) i).role = _ from hl]; simp)).trans
        hlead.2.symm

/-! ## Elections -/

variable {C ev}

lemma Tenure.log_eq {i : NodeID} {T tc t₀ t : ℕ} (h : C.Tenure ev i T tc t₀ t) {s : ℕ}
    (hs : tc < s) (hst : s ≤ t₀) : (C.node ev s i).log = (C.node ev tc i).log := by
  induction s, hs using Nat.le_induction with
  | base => exact h.campaign_log
  | succ s hs ih =>
      rw [← ih (by omega)]
      have hle := h.le
      obtain ⟨hrole, hcur⟩ := h.office (s + 1) (by omega) (by omega)
      rcases C.log_cases ev s i with heq | ⟨e, hlead, -⟩ | ⟨m, k, hg⟩
      · exact heq
      · exact (h.candidate s hs (by omega) hlead).elim
      · -- the grafted log would be that of another leader of the same term
        obtain ⟨s', -, hlead, hne, -⟩ := hg.source
        rw [← hg.office hrole, hcur] at hlead
        exact (hne (C.leader_unique ev hlead (h.leader t₀ le_rfl hle))).elim

lemma lastTerm_eq (l : Log) : (C.history ev).lastTerm l = l.lastTerm := by
  rw [History.lastTerm, Log.lastTerm]
  cases l.getLast? <;> rfl

lemma upToDate_of_isCandidateUpToDate {l l' : Log} (hl : l.Contiguous) (hl' : l'.Contiguous)
    (h : Node.isCandidateUpToDate l'.lastTerm l'.lastIndex l.lastTerm l.lastIndex = true) :
    (C.history ev).UpToDate l' l := by
  rw [Log.lastIndex_eq_length hl, Log.lastIndex_eq_length hl', Node.isCandidateUpToDate] at h
  rw [History.UpToDate, lastTerm_eq, lastTerm_eq]
  split_ifs at h with hne
  · exact .inl (of_decide_eq_true h)
  · exact .inr ⟨(not_not.mp hne).symm, of_decide_eq_true h⟩

/-- In a cluster of more than one, a leader's time in office began with an election. -/
lemma Tenure.election (hcard : 1 < C.peers.toFinset.card) {i : NodeID} {T tc t₀ t : ℕ}
    (h : C.Tenure ev i T tc t₀ t) :
    (C.history ev).Election i T tc t₀ (C.node ev t₀ i).votesReceived := by
  obtain ⟨hrole, hcur⟩ := h.leader t₀ le_rfl h.le
  have hi := C.mem_of_role ev (t := t₀) (i := i) (by simp [hrole])
  have hmaj := C.majority_of_leader ev hrole
  have hvotes : ∀ v ∈ (C.node ev t₀ i).votesReceived, C.VoteOnRecord ev t₀ v i T := by
    rw [← hcur]
    exact (C.candidacy ev (by simp [hrole])).votes
  have hlog := h.log_eq h.tc_lt le_rfl
  have hstays : ∀ s, tc < s → T ≤ (C.node ev s i).currentTerm := by
    obtain ⟨y, hy, hyt, hyf, hyterm⟩ := C.request_on_record ev hmaj hvotes hcard
    exact (h.request_at C ev le_rfl hy hyt hyf hyterm).2.1
  refine ⟨h.tc_lt, h.fresh, hstays, h.candidate, hlog.symm, hmaj, fun v hv => ?_⟩
  rcases hvotes v hv with rfl | ⟨x, hx, hxt, hg, rfl, hto, hterm⟩
  · -- the candidate's own vote, cast when its candidacy began
    refine ⟨tc, le_rfl, h.tc_lt, ?_, hstays, .inr ⟨?_, ?_⟩⟩
    · exact (h.office (tc + 1) (by omega) (by have := h.tc_lt; have := h.le; omega)).2
    · show (C.history ev).lastTerm (C.node ev tc v).log = _
      rw [← hlog]
      rfl
    · show (C.node ev tc v).log.length ≤ (C.node ev t₀ v).log.length
      rw [hlog]
  · -- a granted response: the voter compared its log with the one in the request
    obtain ⟨s, hs, hq, hstay⟩ := provenance_net hx
    obtain ⟨-, m, hm, hsp⟩ := spokenAt_of_queued hq
    obtain ⟨hmt, hmterm, hncur, -, hxterm, hxto, hup⟩ := hsp.of_grant hxt hg
    obtain ⟨-, -, hlog₀, -⟩ := (C.node ev s x.fromNode).maybeStepDownLocked_frame m.term
    rcases hm with rfl | ⟨hm, -⟩
    · cases hmt
    · obtain ⟨htc, -, p, heq⟩ := h.request_at C ev hs.le hm hmt (hxto.symm.trans hto) (by omega)
      refine ⟨s, htc.le, hs, by rw [← hterm]; exact hxterm.symm, ?_, ?_⟩
      · rw [← hterm]
        exact hstay
      · show (C.history ev).UpToDate (C.node ev t₀ i).log (C.node ev s x.fromNode).log
        rw [hlog, ← h.campaign_log]
        rw [hlog₀, heq] at hup
        exact upToDate_of_isCandidateUpToDate
          (C.shaped ev (C.net_from ev hx) s).contiguous (C.shaped ev hi (tc + 1)).contiguous hup

/-- A leader never falls back below the term it led. -/
lemma LeaderAt.term_le (hcard : 1 < C.peers.toFinset.card) {t : ℕ} {i : NodeID} {T : ℕ}
    (h : C.LeaderAt ev t i T) {w : ℕ} (hw : t ≤ w) : T ≤ (C.node ev w i).currentTerm := by
  obtain ⟨tc, t₀, hten⟩ := C.tenure ev h
  exact (hten.election hcard).stays w (by have := hten.tc_lt; have := hten.le; omega)

variable (C ev)

/-- Every run of a cluster of more than one node is an execution of replicated logs. -/
def execution (hcard : 1 < C.peers.toFinset.card) : Execution NodeID Entry where
  toHistory := C.history ev
  log_zero i := by
    by_cases hi : i ∈ C.peers
    · exact (C.started_zero ev hi).log
    · exact (C.log_of_not_mem ev hi 0).1
  leader_unique := C.leader_unique ev
  elected := fun {t i T} hl => by
    obtain ⟨tc, t₀, h⟩ := C.tenure ev hl
    exact ⟨tc, t₀, _, h.election hcard, h.le, h.leader⟩
  log_step := C.log_step ev

end Cluster

end ToyRaft
