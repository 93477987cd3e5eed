import ToyRaft.Core.Receiver
import ToyRaft.Runtime.Runs

/-!
# The shape of a log, and the commit index inside it

Every log of a run is contiguous, equals its mirror in the storage, holds no entry of term
zero, and reaches at least to the commit index (`Shaped`).  Every `AppendEntries` in the
network carries a contiguous batch that reaches at least to the commit index it announces
(`WellFormedAppend`), whatever stale or oversized responses have done to the leader's
`nextIndex`.  The two feed each other, so they are proved together, by induction over the
run: a message was built from the log its sender had at an earlier moment.

The last theorem is the consequence for the commit index: within one lifetime it never
decreases, and it never points outside the log, not even right after a restart.
-/

namespace ToyRaft

/-- What every log of a run looks like. -/
structure Node.Shaped (n : Node) : Prop where
  contiguous : n.log.Contiguous
  mirrored : n.storage.entries = n.log
  pos : ∀ e ∈ n.log, 0 < e.term
  commit_le : n.commitIndex ≤ n.log.length
  term_pos : n.role ≠ .follower → 0 < n.currentTerm
  next_pos : n.role = .leader → ∀ p ∈ n.peers, 1 ≤ n.nextIndex.get p

/-- What every `AppendEntries` of a run looks like. -/
structure Message.WellFormedAppend (x : Message) : Prop where
  contiguous : Log.ContiguousFrom x.prevLogIndex x.entries
  pos : ∀ e ∈ x.entries, 0 < e.term
  commit_le : x.leaderCommit ≤ x.prevLogIndex + x.entries.length

namespace Node

lemma Shaped.wellFormedAppend {n : Node} (h : n.Shaped) (hrole : n.role = .leader)
    {p : NodeID} (hp : p ∈ n.peers) {c : ℕ} (hc : c ≤ n.commitIndex) :
    Message.WellFormedAppend { n.appendEntriesFor p with leaderCommit := c } := by
  have hnext := h.next_pos hrole p hp
  have hcommit := h.commit_le
  have hprev : prevIndexOf (n.nextIndex.get p) = n.nextIndex.get p - 1 := by
    rw [prevIndexOf, if_neg (by omega)]
  have hentries : n.log.entriesFrom (n.nextIndex.get p) =
      n.log.drop (n.nextIndex.get p - 1) :=
    Log.entriesFrom_eq_drop h.contiguous (by omega)
  refine ⟨?_, ?_, ?_⟩
  · show Log.ContiguousFrom (prevIndexOf (n.nextIndex.get p)) _
    rw [hprev]
    show Log.ContiguousFrom _ (n.log.entriesFrom (n.nextIndex.get p))
    rw [hentries]
    simpa using h.contiguous.drop (n.nextIndex.get p - 1)
  · intro e he
    have he' : e ∈ n.log.entriesFrom (n.nextIndex.get p) := he
    rw [hentries] at he'
    exact h.pos e (List.mem_of_mem_drop he')
  · show c ≤ prevIndexOf (n.nextIndex.get p) +
      (n.log.entriesFrom (n.nextIndex.get p)).length
    rw [hprev, hentries, List.length_drop]
    omega

/-- The receiver of a well-formed batch finds everything in place, or writes. -/
lemma receiver_cases {n : Node} {m : Message} (hn : n.log.Contiguous)
    (hm : m.WellFormedAppend)
    (hprev : n.log.hasEntry m.prevLogIndex m.prevLogTerm = true) :
    (n.firstConflictIndex m.entries = 0 ∧
      m.prevLogIndex + m.entries.length ≤ n.log.length ∧
      ∀ q, m.prevLogIndex ≤ q → q < m.prevLogIndex + m.entries.length →
        AgreesAt n.log m.prevLogIndex m.entries q) ∨
    ∃ k, n.firstConflictIndex m.entries = k + 1 ∧
      WritesFrom n.log m.prevLogIndex m.entries k ∧
      entriesFrom (k + 1) m.entries = m.entries.drop (k - m.prevLogIndex) := by
  refine firstConflictIndex_spec hn hm.contiguous ?_
  rcases (Log.hasEntry_iff hn _ _).mp hprev with ⟨h0, -⟩ | ⟨h0, e, he, -⟩
  · omega
  · have := (List.getElem?_eq_some_iff.mp he).1
    omega

lemma firstConflictIndex_ne_zero {n : Node} {m : Message} {k : ℕ} (hn : n.log.Contiguous)
    (hm : m.WellFormedAppend)
    (hprev : n.log.hasEntry m.prevLogIndex m.prevLogTerm = true)
    (hw : WritesFrom n.log m.prevLogIndex m.entries k) :
    n.firstConflictIndex m.entries ≠ 0 := by
  intro h0
  rcases receiver_cases hn hm hprev with ⟨-, hlen, hall⟩ | ⟨k', hk', -⟩
  · have hlt := hw.lt_end
    rcases hw.conflict with rfl | hdis
    · omega
    · exact hdis (hall k hw.base_le hlt)
  · rw [hk'] at h0
    cases h0

lemma Shaped.mirror_none {env : Env} {m : Message} {n : Node} (h : n.Shaped)
    (hwf : m.WellFormedAppend) (hfault : env.truncateErr = false ∧ env.appendErr = false)
    (hp : n.Passes m) (hfc : n.firstConflictIndex m.entries ≠ 0) :
    (n.mirrorLogWriteLocked env (n.firstConflictIndex m.entries)
      (entriesFrom (n.firstConflictIndex m.entries) m.entries)).2 = none := by
  rcases receiver_cases h.contiguous hwf hp.prev with ⟨h0, -⟩ | ⟨k, hk, hw, hsuf⟩
  · exact (hfc h0).elim
  · rw [hk, hsuf]
    exact mirrorLogWriteLocked_none hfault hwf.contiguous h.mirrored hw

/-- What a section without storage faults does to a shapely log. -/
lemma Shaped.log_handled {env : Env} {m : Message} {n n' : Node} (h : n.Shaped)
    (hm : m.type = .appendEntries → m.WellFormedAppend)
    (hfault : env.truncateErr = false ∧ env.appendErr = false) (hn : Handled env m n n') :
    n'.log.Contiguous ∧ n'.storage.entries = n'.log ∧ (∀ e ∈ n'.log, 0 < e.term) ∧
      n.commitIndex ≤ n'.log.length := by
  cases logEffect_of_handled hn with
  | same hlog hst =>
      rw [hlog, hst]
      exact ⟨h.contiguous, h.mirrored, h.pos, h.commit_le⟩
  | @write s hp hfc hguard htrunc happ hlog =>
      have hwf := hm hp.type
      rcases receiver_cases h.contiguous hwf hp.prev with ⟨h0, -⟩ | ⟨k, hk, hw, hsuf⟩
      · exact (hfc h0).elim
      · obtain ⟨htrunc', happ'⟩ := mirror_ok hwf.contiguous h.mirrored hw
        rw [hk, htrunc'] at htrunc
        cases htrunc
        rw [hk, hsuf, happ'] at happ
        rw [writtenLog_eq h.contiguous hk hsuf] at hlog
        obtain ⟨hcont, hlen⟩ := written_contiguous h.contiguous hwf.contiguous hw
        rw [hk, Log.lastIndex_eq_length h.contiguous] at hguard
        have hcommit := h.commit_le
        have hle := hw.le_length
        have hlt := hw.lt_end
        rw [hlog]
        refine ⟨hcont, ?_, fun e he => ?_, ?_⟩
        · rw [← Except.ok.inj happ]
        · rcases List.mem_append.mp he with he | he
          · exact h.pos e (List.mem_of_mem_take he)
          · exact hwf.pos e (List.mem_of_mem_drop he)
        · rw [hlen]
          omega
  | mirrorFailed hfail hp hfc _ => exact (hfail (h.mirror_none (hm hp.type) hfault hp hfc)).elim

lemma Shaped.batch_le {m : Message} {n n' : Node} (h : n.Shaped) (hwf : m.WellFormedAppend)
    (hp : n.Passes m)
    (hlog : n.firstConflictIndex m.entries = 0 ∧ n'.log = n.log ∨
      n.firstConflictIndex m.entries ≠ 0 ∧ n'.log = n.writtenLog m) :
    m.prevLogIndex + m.entries.length ≤ n'.log.length := by
  rcases receiver_cases h.contiguous hwf hp.prev with ⟨h0, hle, -⟩ | ⟨k, hk, hw, hsuf⟩
  · rcases hlog with ⟨-, hlog⟩ | ⟨hne, -⟩
    · rw [hlog]
      exact hle
    · exact (hne h0).elim
  · rcases hlog with ⟨h0, -⟩ | ⟨-, hlog⟩
    · omega
    · rw [hlog, writtenLog_eq h.contiguous hk hsuf,
        (written_contiguous h.contiguous hwf.contiguous hw).2]

lemma le_length_of_term {l : Log} (hl : l.Contiguous) {q T : ℕ} (hT : 0 < T)
    (hterm : (l.term q).1 = T) : q ≤ l.length := by
  rw [Log.term_fst_eq hl] at hterm
  split_ifs at hterm with h0
  · omega
  · by_contra hlt
    rw [List.getElem?_eq_none (by omega)] at hterm
    simp at hterm
    omega

/-- The commit index does not go back, and stays inside the log. -/
lemma Shaped.commit_handled {env : Env} {m : Message} {n n' : Node} (h : n.Shaped)
    (hm : m.type = .appendEntries → m.WellFormedAppend)
    (hcont : n'.log.Contiguous) (hlen : n.commitIndex ≤ n'.log.length)
    (hpos : n'.role ≠ .follower → 0 < n'.currentTerm) (hn : Handled env m n n') :
    n.commitIndex ≤ n'.commitIndex ∧ n'.commitIndex ≤ n'.log.length := by
  cases commitEffect_of_handled hn with
  | same hc =>
      rw [hc]
      exact ⟨le_rfl, hlen⟩
  | advance hrole hlt hterm _ =>
      exact ⟨hlt.le, le_length_of_term hcont (hpos (by simp [hrole])) hterm⟩
  | follow hp hlt hc hlog _ =>
      have hwf := hm hp.type
      have hle := h.batch_le hwf hp hlog
      have := hwf.commit_le
      rw [hc]
      omega

lemma Shaped.next_handled {env : Env} {m : Message} {n n' : Node} (h : n.Shaped)
    (hn : Handled env m n n') (hrole : n'.role = .leader) :
    ∀ p ∈ n'.peers, 1 ≤ n'.nextIndex.get p := by
  intro p hp
  rw [(follows_of_handled (fun _ _ => rfl) hn).peers] at hp
  cases progressStep_of_handled hn with
  | same hnext _ hlead =>
      rw [hnext]
      exact h.next_pos (hlead hrole) p hp
  | elected _ hnext _ _ =>
      rw [hnext, PeerMap.get_foldl_insert _ _ _ hp]
      omega
  | progress _ _ hlead _ hnext _ =>
      rw [hnext]
      by_cases hpm : p = m.fromNode
      · rw [hpm, PeerMap.get_insert]
        omega
      · rw [PeerMap.get_insert_ne _ _ hpm]
        exact h.next_pos hlead p hp
  | backoff hlead hgt hnext _ =>
      rw [hnext]
      by_cases hpm : p = m.fromNode
      · rw [hpm, PeerMap.get_insert]
        omega
      · rw [PeerMap.get_insert_ne _ _ hpm]
        exact h.next_pos hlead p hp

lemma Shaped.term_handled {env : Env} {m : Message} {n n' : Node} (h : n.Shaped)
    (hn : Handled env m n n') (hrole : n'.role ≠ .follower) : 0 < n'.currentTerm := by
  cases roleStep_of_handled hn with
  | same hr hcur _ =>
      rw [hcur]
      exact h.term_pos (by rwa [← hr])
  | campaign _ hcur _ _ _ _ => omega
  | tally _ _ _ hr _ hcur _ _ _ _ =>
      rw [hcur]
      exact h.term_pos (by simp [hr])

/-- A section without storage faults keeps the shape of the log, and the commit index does
not go back. -/
theorem Shaped.handled {env : Env} {m : Message} {n n' : Node} (h : n.Shaped)
    (hm : m.type = .appendEntries → m.WellFormedAppend)
    (hfault : env.truncateErr = false ∧ env.appendErr = false) (hn : Handled env m n n') :
    n'.Shaped ∧ n.commitIndex ≤ n'.commitIndex := by
  obtain ⟨hcont, hmir, hpos, hlen⟩ := h.log_handled hm hfault hn
  obtain ⟨hmono, hle⟩ := h.commit_handled hm hcont hlen (h.term_handled hn) hn
  exact ⟨⟨hcont, hmir, hpos, hle, h.term_handled hn, h.next_handled hn⟩, hmono⟩

lemma Shaped.stepDown {n : Node} (h : n.Shaped) (T : ℕ) : (n.maybeStepDownLocked T).Shaped := by
  rcases n.maybeStepDownLocked_cases T with ⟨-, heq⟩ | ⟨-, hr⟩
  · rwa [heq]
  · generalize n.maybeStepDownLocked T = n₀ at hr
    obtain ⟨_, _, _, _, _, _, rfl⟩ := hr
    exact { h with term_pos := fun hne => (hne rfl).elim, next_pos := fun hl => by cases hl }

lemma Shaped.append_newEntry {n : Node} (h : n.Shaped) (data : Data) :
    Log.ContiguousFrom n.log.length [n.newEntry data] := by
  refine Log.contiguousFrom_singleton ?_
  rw [newEntry, Log.lastIndex_eq_length h.contiguous]

lemma Shaped.proposed {n : Node} {data : Data} {s : Storage} (h : n.Shaped)
    (hrole : n.role = .leader) (hs : n.storage.append [n.newEntry data] = .ok s) :
    (n.proposed data s).Shaped := by
  obtain ⟨-, rfl⟩ := (Storage.append_eq_ok_iff _ _ _).mp hs
  refine ⟨?_, ?_, fun e he => ?_, ?_, h.term_pos, h.next_pos⟩
  · show Log.Contiguous (n.log ++ [n.newEntry data])
    refine Log.ContiguousFrom.append h.contiguous ?_
    rw [Nat.zero_add]
    exact h.append_newEntry data
  · show n.storage.entries ++ [n.newEntry data] = n.log ++ [n.newEntry data]
    rw [h.mirrored]
  · rcases List.mem_append.mp he with he | he
    · exact h.pos e he
    · rw [List.mem_singleton.mp he]
      exact h.term_pos (by simp [hrole])
  · have := h.commit_le
    show n.commitIndex ≤ (n.log ++ [n.newEntry data]).length
    rw [List.length_append]
    omega

lemma Shaped.broadcast {n : Node} (h : n.Shaped) (hrole : n.role = .leader) :
    n.broadcastAppendEntriesLocked.Shaped ∧
      n.commitIndex ≤ n.broadcastAppendEntriesLocked.commitIndex := by
  have hb : Handled {} { type := .tick } n n.broadcastAppendEntriesLocked :=
    .heartbeat rfl hrole .rfl
  exact h.handled (fun ht => by cases ht) ⟨rfl, rfl⟩ hb

end Node

namespace Host

variable {ρ : Type}

lemma logFaultless_of_faultless {a : Act ρ} (h : a.faultless = true) :
    a.logFaultless = true := by
  cases a with
  | step m env | tick env | propose data env => exact h
  | _ => rfl

/-- The mirror of a proposal fails only if the backend does. -/
lemma append_succeeds {n : Node} (h : n.Shaped) {data : Data} {env : Env} {err : StorageError}
    (hfault : (Act.propose data env : Act ρ).logFaultless = true)
    (hfail : faulty env.appendErr (n.storage.append [n.newEntry data]) = .error err) : False := by
  have henv : env.truncateErr = false ∧ env.appendErr = false := by
    simpa [Act.logFaultless] using hfault
  have hok : n.storage.append [n.newEntry data] = .ok _ :=
    Storage.append_ok (by rw [h.mirrored]; exact h.append_newEntry data)
  rw [henv.2, hok] at hfail
  cases hfail

/-- What is stored and what is about to be stored of the commit index does not run ahead. -/
structure CommitChain (n : Node) (unsaved : Option HardState) : Prop where
  stored_mid : n.storage.hs.commit ≤ (unsaved.getD n.storage.hs).commit
  mid_cur : (unsaved.getD n.storage.hs).commit ≤ n.commitIndex

lemma CommitChain.follows {n n' : Node} {unsaved : Option HardState} {who : NodeID}
    (h : CommitChain n unsaved) (hf : Node.Follows who n n')
    (hle : n.commitIndex ≤ n'.commitIndex) : CommitChain n' unsaved := by
  refine ⟨?_, ?_⟩
  · rw [hf.stored]
    exact h.stored_mid
  · rw [hf.stored]
    exact h.mid_cur.trans hle

lemma type_of_mirrorStart {n : Node} {m : Message} {start : ℕ}
    (hstart : n.mirrorStart m = some start) : m.type = .appendEntries := by
  unfold Node.mirrorStart at hstart
  split_ifs at hstart with hcond
  exact hcond.1

/-- The log a crash between the two calls of a mirror leaves behind. -/
lemma truncated_of_mirrorStart {n : Node} {m : Message} {start : ℕ} {s : Storage}
    (h : n.Shaped) (hm : m.WellFormedAppend) (hstart : n.mirrorStart m = some start)
    (hs : n.storage.truncateSuffix start = .ok s) :
    ∃ k, Node.WritesFrom n.log m.prevLogIndex m.entries k ∧ n.currentTerm ≤ m.term ∧
      n.commitIndex ≤ k ∧ s = { n.storage with entries := n.log.take k } ∧
      n.log.hasEntry m.prevLogIndex m.prevLogTerm = true := by
  unfold Node.mirrorStart at hstart
  split_ifs at hstart with hcond
  obtain rfl := Option.some.inj hstart
  obtain ⟨-, hterm, hprev, hfc, hguard⟩ := hcond
  rcases Node.receiver_cases h.contiguous hm hprev with ⟨h0, -⟩ | ⟨k, hk, hw, -⟩
  · exact (hfc h0).elim
  · rw [hk] at hguard hs
    rw [Log.lastIndex_eq_length h.contiguous] at hguard
    rw [(Node.mirror_ok hm.contiguous h.mirrored hw).1] at hs
    have hcommit := h.commit_le
    have hle := hw.le_length
    exact ⟨k, hw, hterm, by omega, (Except.ok.inj hs).symm, hprev⟩

lemma shaped_started {cfg : Config} {s : Storage} {n : Node} (hn : Node.Started cfg s n)
    (hcont : Log.Contiguous s.entries) (hpos : ∀ e ∈ s.entries, 0 < e.term)
    (hcommit : s.hs.commit ≤ s.entries.length) : n.Shaped := by
  have hc : n.commitIndex = s.hs.commit := congrArg HardState.commit hn.hardState
  refine ⟨?_, ?_, ?_, ?_, fun hne => (hne hn.role).elim, fun hl => ?_⟩
  · rwa [hn.log]
  · rw [hn.storage, hn.log]
  · rwa [hn.log]
  · rwa [hc, hn.log]
  · rw [hn.role] at hl
    cases hl

/-- A move whose log writes succeed keeps the shape of the log, and only a restart may lower
the commit index. -/
theorem Move.shaped {cfg : Config} {h : Host ρ} {a : Act ρ} {n' : Node} {f' : Flush}
    {out : List Message} (hmove : Move cfg h a n' f' out) (hfault : a.logFaultless = true)
    (hm : ∀ m ∈ a.inbound, m.type = .appendEntries → m.WellFormedAppend)
    (hs : h.node.Shaped) (hc : h.node.storage.hs.commit ≤ h.node.commitIndex) :
    n'.Shaped ∧ (a.restarts = false → h.node.commitIndex ≤ n'.commitIndex) := by
  cases hmove with
  | @step m env _ ha hn =>
      have hwf : m.type = .appendEntries → m.WellFormedAppend := fun ht =>
        hm m (inbound_of_step ha (by simp [ht])) ht
      have henv := env_of_logFaultless ha hfault
      obtain ⟨hshape, hle⟩ := (hs.stepDown m.term).handled hwf henv hn
      rw [(h.node.maybeStepDownLocked_frame m.term).2.2.2.2.1] at hle
      exact ⟨hshape, fun _ => hle⟩
  | propose _ hrole happ =>
      obtain ⟨hshape, hle⟩ := (hs.proposed hrole happ).broadcast hrole
      exact ⟨hshape, fun _ => hle⟩
  | proposeFailed ha _ hfail =>
      subst ha
      exact (append_succeeds hs hfault hfail).elim
  | restart ha hn hst =>
      refine ⟨?_, fun hr => by rw [ha] at hr; cases hr⟩
      rcases hst with rfl | ⟨m, _, _, start, rfl, hstart, htrunc⟩
      · refine shaped_started hn ?_ ?_ ?_
        · rw [hs.mirrored]
          exact hs.contiguous
        · rw [hs.mirrored]
          exact hs.pos
        · rw [hs.mirrored]
          exact hc.trans hs.commit_le
      · have htype := type_of_mirrorStart hstart
        obtain ⟨k, hw, -, hk, rfl, -⟩ :=
          truncated_of_mirrorStart hs (hm m rfl htype) hstart htrunc
        refine shaped_started hn (hs.contiguous.take k) (fun e he => ?_) ?_
        · exact hs.pos e (List.mem_of_mem_take he)
        · have := hw.le_length
          show h.node.storage.hs.commit ≤ (h.node.log.take k).length
          rw [List.length_take]
          omega
  | _ => exact ⟨{ hs with }, fun _ => le_rfl⟩

/-- A move without storage faults keeps the shape of the log and the chain of commit
indexes, and only a restart may lower the commit index. -/
theorem shaped_move {cfg : Config} {h : Host ρ} {a : Act ρ} {n' : Node} {f' : Flush}
    {out : List Message} (hmove : Move cfg h a n' f' out) (hfault : a.faultless = true)
    (hm : ∀ m ∈ a.inbound, m.type = .appendEntries → m.WellFormedAppend)
    (htop : h.node.pendingHS.getD (h.flush.unsaved.getD h.node.storage.hs) = h.node.hardState)
    (hs : h.node.Shaped) (hc : CommitChain h.node h.flush.unsaved) :
    n'.Shaped ∧ CommitChain n' f'.unsaved ∧
      (a.restarts = false → h.node.commitIndex ≤ n'.commitIndex) := by
  obtain ⟨hshape, hmono⟩ := hmove.shaped (logFaultless_of_faultless hfault) hm hs
    (hc.stored_mid.trans hc.mid_cur)
  refine ⟨hshape, ?_, hmono⟩
  cases hmove with
  | quiet snap _ hhs =>
      rw [hhs]
      exact { hc with }
  | step ha hn =>
      refine hc.follows (Node.follows_of_step (fun _ _ => rfl) hn) (hmono ?_)
      rcases ha with rfl | ⟨rfl, -⟩ <;> rfl
  | propose ha _ happ =>
      subst ha
      exact hc.follows (Node.follows_of_proposed "" happ) (hmono rfl)
  | proposeFailed => exact { hc with }
  | ready hf =>
      rw [hf] at htop hc
      have hcommit : (h.node.pendingHS.getD h.node.storage.hs).commit = h.node.commitIndex :=
        congrArg HardState.commit htop
      exact ⟨(hc.stored_mid.trans hc.mid_cur).trans hcommit.ge, hcommit.le⟩
  | save hf =>
      rw [hf] at hc
      exact ⟨le_rfl, hc.mid_cur⟩
  | saveNone hf =>
      rw [hf] at hc
      exact hc
  | saveFailed ha =>
      subst ha
      cases hfault
  | send hf =>
      rw [hf] at hc
      exact hc
  | restart _ hn hst =>
      have hcur : n'.commitIndex = n'.storage.hs.commit := by
        rw [hn.storage]
        exact congrArg HardState.commit hn.hardState
      exact ⟨le_rfl, hcur.ge⟩

/-- What a move without storage faults does to a log. -/
inductive LogMove (a : Act ρ) (n n' : Node) : Prop
  | same (h : n'.log = n.log)
  | appended (e : Entry) (hrole : n.role = .leader) (hrole' : n'.role = .leader)
      (hcur : n'.currentTerm = n.currentTerm) (he : e.term = n.currentTerm)
      (h : n'.log = n.log ++ [e])
  /-- The second form is a crash between truncation and append. -/
  | grafted (m : Message) (k : ℕ) (hm : m ∈ a.inbound) (ht : m.type = .appendEntries)
      (hterm : n.currentTerm ≤ m.term)
      (hoffice : n'.role ≠ .follower → n'.currentTerm = m.term)
      (hprev : n.log.hasEntry m.prevLogIndex m.prevLogTerm = true)
      (hw : Node.WritesFrom n.log m.prevLogIndex m.entries k)
      (h : n'.log = n.log.take k ++ m.entries.drop (k - m.prevLogIndex) ∨
        n'.log = n.log.take k)

theorem Move.log {cfg : Config} {h : Host ρ} {a : Act ρ} {n' : Node} {f' : Flush}
    {out : List Message} (hmove : Move cfg h a n' f' out) (hfault : a.logFaultless = true)
    (hm : ∀ m ∈ a.inbound, m.type = .appendEntries → m.WellFormedAppend)
    (hs : h.node.Shaped) : LogMove a h.node n' := by
  cases hmove with
  | @step m env _ ha hn =>
      obtain ⟨-, -, hlog, hst, -, -, -, hle, -⟩ := h.node.maybeStepDownLocked_frame m.term
      have hin : m.type = .appendEntries → m ∈ a.inbound := fun ht =>
        inbound_of_step ha (by simp [ht])
      have henv := env_of_logFaultless ha hfault
      have hfc := Node.firstConflictIndex_congr hlog m.entries
      cases Node.logEffect_of_handled hn with
      | same hlog' _ => exact .same (hlog'.trans hlog)
      | write hp hne _ _ _ hlog' hcur _ =>
          have hwf := hm m (hin hp.type) hp.type
          have hprev := hp.prev
          rw [hlog] at hprev
          rw [hfc] at hne
          rcases Node.receiver_cases hs.contiguous hwf hprev with ⟨h0, -⟩ | ⟨k, hk, hw, hsuf⟩
          · exact (hne h0).elim
          · refine .grafted m k (hin hp.type) hp.type (hle.trans hp.term.ge)
              (fun _ => hcur.trans hp.term.symm) hprev hw (.inl ?_)
            have hlog₀ := Node.writtenLog_eq (n := h.node.maybeStepDownLocked m.term)
              (by rw [hlog]; exact hs.contiguous) (hfc.trans hk) hsuf
            rw [hlog', hlog₀, hlog]
      | mirrorFailed hfail hp hne _ =>
          have hwf := hm m (hin hp.type) hp.type
          exact (hfail ((hs.stepDown m.term).mirror_none hwf henv hp hne)).elim
  | @propose data _ s ha hrole _ =>
      obtain ⟨hrole', -, -, hcur, hlog, -⟩ := (h.node.proposed data s).broadcast_frame
      exact .appended (h.node.newEntry data) hrole (hrole'.trans hrole) hcur rfl hlog
  | proposeFailed ha _ hfail =>
      subst ha
      exact (append_succeeds hs hfault hfail).elim
  | restart _ hn hst =>
      rcases hst with rfl | ⟨m, _, _, start, rfl, hstart, htrunc⟩
      · exact .same (by rw [hn.log, hs.mirrored])
      · have htype := type_of_mirrorStart hstart
        obtain ⟨k, hw, hterm, -, rfl, hprev⟩ :=
          truncated_of_mirrorStart hs (hm m rfl htype) hstart htrunc
        exact .grafted m k rfl htype hterm (fun hne => (hne hn.role).elim) hprev hw
          (.inr hn.log)
  | _ => exact .same rfl

end Host

namespace Cluster

variable {ρ : Type} (C : Cluster) (ev : ℕ → Event ρ)

/-- The `AppendEntries` in the network were built from a leader's log of an earlier
moment. -/
lemma append_source {t : ℕ} {x : Message} (hx : x ∈ C.net ev t) (ht : x.type = .appendEntries) :
    ∃ s < t, ∃ c ≤ (C.node ev (s + 1) x.fromNode).commitIndex,
      (C.node ev (s + 1) x.fromNode).role = .leader ∧
      (∃ p ∈ (C.node ev (s + 1) x.fromNode).others,
        x = { (C.node ev (s + 1) x.fromNode).appendEntriesFor p with leaderCommit := c }) ∧
      ∀ u, s < u → x.term ≤ (C.node ev u x.fromNode).currentTerm := by
  obtain ⟨s, hs, hq, hstay⟩ := provenance_net hx
  obtain ⟨-, m, -, hsp⟩ := spokenAt_of_queued hq
  obtain ⟨p, hp, c, hc, hrole, heq⟩ := hsp.of_appendEntries ht
  exact ⟨s, hs, c, hc, hrole, ⟨p, hp, heq⟩, hstay⟩

/-- Every log of a member is shapely at every moment. -/
theorem shaped_chain (t : ℕ) : ∀ i ∈ C.peers, (C.node ev t i).Shaped ∧
    Host.CommitChain (C.node ev t i) (C.host ev t i).flush.unsaved := by
  induction t using Nat.strong_induction_on with
  | _ t ih =>
      intro i hi
      cases t with
      | zero =>
          have hn := C.started_zero ev hi
          refine ⟨Host.shaped_started hn Log.contiguous_nil (by simp) le_rfl, ?_⟩
          have hcur : (C.node ev 0 i).commitIndex = 0 := congrArg HardState.commit hn.hardState
          have hst : (C.node ev 0 i).storage = {} := hn.storage
          rw [C.flush_zero ev hi]
          refine ⟨le_rfl, ?_⟩
          rw [hst, hcur]
          rfl
      | succ t =>
          obtain ⟨hshape, hchain⟩ := ih t (Nat.lt_succ_self t) i hi
          rcases C.step_cases ev t i with ⟨sent, hm⟩ | ⟨heq, -⟩
          · have hwf : ∀ m ∈ (ev t).act.inbound, m.type = .appendEntries →
                m.WellFormedAppend := by
              -- the message comes from a leader whose log had this shape already
              intro m hin ht
              obtain ⟨hnet, -⟩ := hm.inbound m hin
              obtain ⟨s, hs, c, hc, hrole, ⟨p, hp, heq⟩, -⟩ := C.append_source ev hnet ht
              have hshape' := (ih (s + 1) (by omega) _ (C.net_from ev hnet)).1
              rw [heq]
              exact hshape'.wellFormedAppend hrole (List.mem_of_mem_filter hp) hc
            obtain ⟨h₁, h₂, -⟩ := Host.shaped_move hm.move hm.faultless hwf
              ((C.balanced ev t).1 i hi).2.top_eq hshape hchain
            exact ⟨h₁, h₂⟩
          · rw [node, heq]
            exact ⟨hshape, hchain⟩

lemma shaped {i : NodeID} (hi : i ∈ C.peers) (t : ℕ) : (C.node ev t i).Shaped :=
  (C.shaped_chain ev t i hi).1

lemma wellFormed {t : ℕ} {x : Message} (hx : x ∈ C.net ev t) (ht : x.type = .appendEntries) :
    x.WellFormedAppend := by
  obtain ⟨s, -, c, hc, hrole, ⟨p, hp, heq⟩, -⟩ := C.append_source ev hx ht
  rw [heq]
  exact (C.shaped ev (C.net_from ev hx) (s + 1)).wellFormedAppend hrole
    (List.mem_of_mem_filter hp) hc

lemma commit_le_succ (t : ℕ) (i : NodeID)
    (h : (ev t).node = i → (ev t).act.restarts = false) :
    (C.node ev t i).commitIndex ≤ (C.node ev (t + 1) i).commitIndex := by
  rcases C.step_cases ev t i with ⟨sent, hm⟩ | ⟨heq, -⟩
  · obtain ⟨hshape, hchain⟩ := C.shaped_chain ev t i hm.mem
    refine (Host.shaped_move hm.move hm.faultless ?_
      ((C.balanced ev t).1 i hm.mem).2.top_eq hshape hchain).2.2 (h hm.node)
    intro m hin
    exact C.wellFormed ev (hm.inbound m hin).1
  · rw [node, node, heq]

lemma log_of_not_mem {i : NodeID} (hi : i ∉ C.peers) (t : ℕ) :
    (C.node ev t i).log = [] ∧ (C.node ev t i).commitIndex = 0 := by
  have hstart : (Host.start (C.cfg i) {} (C.draw i) : Host ρ).node.log = [] ∧
      (Host.start (C.cfg i) {} (C.draw i) : Host ρ).node.commitIndex = 0 := by
    unfold Host.start
    split
    · rename_i h hnew
      have hn := (Host.new_cases hnew).1
      exact ⟨hn.log, congrArg HardState.commit hn.hardState⟩
    · exact ⟨rfl, rfl⟩
  refine C.host_invariant ev (P := fun h => h.node.log = [] ∧ h.node.commitIndex = 0)
    hstart ?_ t
  intro t sent hm
  exact (hi hm.mem).elim

/-- **The commit index is monotone and inside the log.**  In every run, on every node, the
commit index does not decrease between two moments of one lifetime, and at every moment of
every lifetime it is at most the last index of the node's log. -/
theorem commitIndex_monotone_in_log (i : NodeID) :
    (∀ s t, s ≤ t →
      (∀ u, s ≤ u → u < t → (ev u).node = i → (ev u).act.restarts = false) →
      (C.node ev s i).commitIndex ≤ (C.node ev t i).commitIndex) ∧
    ∀ t, (C.node ev t i).commitIndex ≤ (C.node ev t i).log.lastIndex := by
  refine ⟨fun s t hst => ?_, fun t => ?_⟩
  · induction t, hst using Nat.le_induction with
    | base => exact fun _ => le_rfl
    | succ t hst ih =>
        intro hlife
        exact (ih fun u hsu hut => hlife u hsu (by omega)).trans
          (C.commit_le_succ ev t i (hlife t hst (Nat.lt_succ_self t)))
  · by_cases hi : i ∈ C.peers
    · have h := C.shaped ev hi t
      rw [Log.lastIndex_eq_length h.contiguous]
      exact h.commit_le
    · rw [(C.log_of_not_mem ev hi t).2]
      exact Nat.zero_le _

end Cluster

end ToyRaft
