import ToyRaft.Core.Receiver

/-!
# Reordered and repeated `AppendEntries`

A leader's `AppendEntries` carries everything of its log behind the position it probes
(`Message.Replicates`).  A follower that accepts one has the whole log of the leader as the
beginning of its own afterwards, and has given up entries only from the first disagreement on
(`Adopts`).  From then on every message built from that log, or from an earlier one of the same
leader, finds its entries in place: it can be refused or acknowledged, but it writes nothing
(`Attends.step_inPlace`).
-/

namespace ToyRaft

/-- An `AppendEntries` of term `T` built from the log `L`: the term of `L` at the position
probed, and all of `L` behind it. -/
structure Message.Replicates (m : Message) (T : ℕ) (L : Log) : Prop where
  type : m.type = .appendEntries
  term : m.term = T
  prevTerm : m.prevLogTerm = (L.term m.prevLogIndex).1
  entries : m.entries = L.drop m.prevLogIndex

/-- What a receiver with log `l` may hold after it accepted a message built from `L`. -/
inductive Log.Adopts (l L : Log) : Log → Prop
  /-- Everything is in place. -/
  | kept (h : L <+: l) : Adopts l L l
  /-- The logs agree below position `k`, and there `l` ends or has another term. -/
  | cut (k : ℕ) (htake : l.take k = L.take k)
      (hconf : k = l.length ∨ ∃ a b, l[k]? = some a ∧ L[k]? = some b ∧ a.term ≠ b.term) :
      Adopts l L L

lemma Log.Adopts.isPrefix {l L l' : Log} (h : Log.Adopts l L l') : L <+: l' := by
  cases h with
  | kept h => exact h
  | cut => exact List.prefix_rfl

lemma Log.Adopts.contiguous {l L l' : Log} (h : Log.Adopts l L l') (hl : l.Contiguous)
    (hL : L.Contiguous) : l'.Contiguous := by
  cases h with
  | kept => exact hl
  | cut => exact hL

/-- An entry survives unless the terms differ at its position or below. -/
lemma Log.Adopts.survives {l L l' : Log} (h : Log.Adopts l L l') {p : ℕ} {e : Entry}
    (he : l[p]? = some e)
    (hsame : ∀ q ≤ p, ∀ a b, l[q]? = some a → L[q]? = some b → a.term = b.term) :
    l'[p]? = some e := by
  cases h with
  | kept => exact he
  | cut k htake hconf =>
      have hpk : p < k := by
        by_contra hkp
        rcases hconf with rfl | ⟨a, b, ha, hb, hne⟩
        · have := (List.getElem?_eq_some_iff.mp he).1
          omega
        · exact hne (hsame k (not_lt.mp hkp) a b ha hb)
      rw [← List.getElem?_take_of_lt hpk, ← htake, List.getElem?_take_of_lt hpk]
      exact he

namespace Node

/-- What the leader builds for a peer replicates its log, unless `nextIndex` is zero and the log
so long that the position in front of it exists. -/
lemma appendEntriesFor_replicates {n : Node} (hlog : n.log.Contiguous) {p : NodeID}
    (hnext : n.nextIndex.get p ≠ 0 ∨ n.log.length < 2 ^ 64) :
    (n.appendEntriesFor p).Replicates n.currentTerm n.log where
  type := rfl
  term := rfl
  prevTerm := rfl
  entries := by
    show n.log.entriesFrom (n.nextIndex.get p) = n.log.drop (prevIndexOf (n.nextIndex.get p))
    by_cases h0 : n.nextIndex.get p = 0
    · have hlen := hnext.resolve_left (not_not.mpr h0)
      rw [Log.entriesFrom, if_pos (.inl h0), prevIndexOf, if_pos h0,
        List.drop_of_length_le (by omega)]
    · rw [Log.entriesFrom_eq_drop hlog h0, prevIndexOf, if_neg h0]

/-- The receiver with its timers reset and its hint set. -/
def heard (n : Node) (m : Message) : Node :=
  { n with electionElapsed := 0, lastHeartbeat := 0, leaderHint := m.fromNode }

/-- A running receiver in term `T`. -/
structure Attends (F : Node) (T : ℕ) : Prop where
  started : F.started = true
  term : F.currentTerm = T
  contiguous : F.log.Contiguous

/-- A receiver that may still have to be brought in line with `L`: its log is mirrored, has no
entry of term zero, matches `L`, and holds nothing committed that contradicts `L`. -/
structure Receptive (F : Node) (T : ℕ) (L : Log) : Prop extends F.Attends T where
  mirrored : F.storage.entries = F.log
  pos : ∀ e ∈ F.log, e.term ≠ 0
  matching : ∀ p a b, F.log[p]? = some a → L[p]? = some b → a.term = b.term →
    F.log.take (p + 1) = L.take (p + 1)
  agrees : ∀ p a b, p < F.commitIndex → F.log[p]? = some a → L[p]? = some b → a = b

/-! ## The receiver, branch by branch -/

section Branches

variable {F : Node} {T : ℕ} {L : Log} {m : Message} {env : Env}

lemma Attends.step_eq (h : F.Attends T) (hm : m.Replicates T L) :
    F.step env m = (F.handleAppendEntriesLocked env m).map fun n => (n, none) := by
  have hlt : ¬ F.currentTerm < m.term := by rw [hm.term, h.term]; exact lt_irrefl T
  rw [step, h.started, stepLocked, if_neg hlt, dispatch, hm.type]
  rfl

lemma Attends.step_refused (h : F.Attends T) (hm : m.Replicates T L)
    (hprev : F.log.hasEntry m.prevLogIndex m.prevLogTerm = false) :
    F.step env m = some ((F.heard m).replyAppendEntriesLocked m.fromNode false 0, none) := by
  have hlt : ¬ m.term < F.currentTerm := by rw [hm.term, h.term]; exact lt_irrefl T
  rw [h.step_eq hm, handleAppendEntriesLocked, if_neg hlt]
  dsimp only
  rw [hprev]
  rfl

lemma Attends.step_accepted (h : F.Attends T) (hm : m.Replicates T L)
    (hprev : F.log.hasEntry m.prevLogIndex m.prevLogTerm = true)
    (hfc : F.firstConflictIndex m.entries = 0) :
    F.step env m = some ((F.heard m).acknowledgeAppendEntries m, none) := by
  have hlt : ¬ m.term < F.currentTerm := by rw [hm.term, h.term]; exact lt_irrefl T
  have hfc' : (F.heard m).firstConflictIndex m.entries = 0 :=
    (firstConflictIndex_congr (by rfl) _).trans hfc
  rw [h.step_eq hm, handleAppendEntriesLocked, if_neg hlt]
  dsimp only
  rw [hprev]
  exact congrArg _ (if_neg (not_not.mpr hfc'))

/-- The write of the receiver, with its guard and the mirror of the write. -/
lemma Attends.step_written (h : F.Attends T) (hm : m.Replicates T L) {k : ℕ}
    (hprev : F.log.hasEntry m.prevLogIndex m.prevLogTerm = true)
    (hfc : F.firstConflictIndex m.entries = k + 1)
    (hguard : ¬ (k + 1 ≤ F.log.lastIndex ∧ k + 1 ≤ F.commitIndex))
    (hfault : env.truncateErr = false ∧ env.appendErr = false) {s s' : Storage}
    (htrunc : F.storage.truncateSuffix (k + 1) = .ok s)
    (happ : s.append (entriesFrom (k + 1) m.entries) = .ok s') :
    F.step env m = some (acknowledgeAppendEntries
      { F.heard m with log := F.writtenLog m, storage := s' } m, none) := by
  have hlt : ¬ m.term < F.currentTerm := by rw [hm.term, h.term]; exact lt_irrefl T
  have hfc' : firstConflictIndex { F with
      electionElapsed := 0, lastHeartbeat := 0, leaderHint := m.fromNode } m.entries = k + 1 :=
    (firstConflictIndex_congr (by rfl) _).trans hfc
  rw [h.step_eq hm, handleAppendEntriesLocked, if_neg hlt]
  dsimp only
  rw [hprev, hfc', if_neg (by simp), if_pos (Nat.succ_ne_zero k), if_neg hguard]
  simp only [mirrorLogWriteLocked, hfault.1, hfault.2, faulty, Bool.false_eq_true, if_false,
    htrunc, happ, writtenLog, hfc, Option.map_some, heard]

end Branches

lemma queuedSince_reply {n n' : Node} (h : n'.pendingMsgs = n.pendingMsgs) (dest : NodeID)
    (success : Bool) (matchIndex : ℕ) :
    n.queuedSince (n'.replyAppendEntriesLocked dest success matchIndex) =
      [{ type := .appendEntriesResp, term := n'.currentTerm, fromNode := n'.id, toNode := dest,
         success := success, matchIndex := matchIndex }] := by
  rw [queuedSince, replyAppendEntriesLocked, queueMsgLocked, h, List.drop_left]
  rfl

/-! ## Adoption -/

section Adoption

variable {F : Node} {T : ℕ} {L : Log} {m : Message} {env : Env}

/-- A probe that the receiver answers with yes hits an entry of `L`: the term zero that a leader
reports beyond its log matches nothing. -/
lemma Receptive.probe (h : F.Receptive T L) (hL : L.Contiguous) (hm : m.Replicates T L)
    (hprev : F.log.hasEntry m.prevLogIndex m.prevLogTerm = true) :
    m.prevLogIndex = 0 ∨
      ∃ a b, F.log[m.prevLogIndex - 1]? = some a ∧ L[m.prevLogIndex - 1]? = some b ∧
        a.term = b.term := by
  rcases (Log.hasEntry_iff h.contiguous _ _).mp hprev with ⟨h0, -⟩ | ⟨h0, a, ha, hterm⟩
  · exact .inl h0
  · rw [hm.prevTerm, Log.term_fst_eq hL, if_neg h0] at hterm
    have hpos := h.pos a (List.mem_of_getElem? ha)
    cases hb : L[m.prevLogIndex - 1]? with
    | none => rw [hb] at hterm; exact (hpos hterm).elim
    | some b => rw [hb] at hterm; exact .inr ⟨a, b, ha, rfl, hterm⟩

/-- The batch of a message built from `L` agrees with the receiver's log where `L` does. -/
lemma agreesAt_iff (hm : m.Replicates T L) {q : ℕ} (hq : m.prevLogIndex ≤ q) :
    AgreesAt F.log m.prevLogIndex m.entries q ↔
      ∃ a b, F.log[q]? = some a ∧ L[q]? = some b ∧ a.term = b.term := by
  unfold AgreesAt
  rw [hm.entries, List.getElem?_drop, Nat.add_sub_cancel' hq]

lemma Receptive.take_eq (h : F.Receptive T L) (hL : L.Contiguous) (hm : m.Replicates T L)
    (hprev : F.log.hasEntry m.prevLogIndex m.prevLogTerm = true) {k : ℕ}
    (hk : m.prevLogIndex ≤ k)
    (hbelow : ∀ q, m.prevLogIndex ≤ q → q < k → AgreesAt F.log m.prevLogIndex m.entries q) :
    F.log.take k = L.take k := by
  obtain ⟨a, b, ha, hb, hab⟩ | rfl : (∃ a b, F.log[k - 1]? = some a ∧ L[k - 1]? = some b ∧
      a.term = b.term) ∨ k = 0 := by
    rcases Nat.lt_or_ge m.prevLogIndex k with hlt | hge
    · have hlast : m.prevLogIndex ≤ k - 1 := by omega
      exact .inl ((agreesAt_iff hm hlast).mp (hbelow (k - 1) hlast (by omega)))
    · obtain rfl : m.prevLogIndex = k := by omega
      exact (h.probe hL hm hprev).symm
  · rcases Nat.eq_zero_or_pos k with rfl | hpos
    · rfl
    · have htake := h.matching (k - 1) a b ha hb hab
      rwa [Nat.sub_add_cancel hpos] at htake
  · rfl

lemma Receptive.prev_le (h : F.Receptive T L) (hL : L.Contiguous) (hm : m.Replicates T L)
    (hprev : F.log.hasEntry m.prevLogIndex m.prevLogTerm = true) :
    m.prevLogIndex ≤ L.length ∧ m.prevLogIndex ≤ F.log.length := by
  rcases h.probe hL hm hprev with h0 | ⟨a, b, ha, hb, -⟩
  · omega
  · have ha' := (List.getElem?_eq_some_iff.mp ha).1
    have hb' := (List.getElem?_eq_some_iff.mp hb).1
    omega

/-- A position at which the log contradicts the batch is not committed. -/
lemma Receptive.not_committed (h : F.Receptive T L) (hm : m.Replicates T L) {k : ℕ}
    (hw : WritesFrom F.log m.prevLogIndex m.entries k) :
    ¬ (k + 1 ≤ F.log.lastIndex ∧ k + 1 ≤ F.commitIndex) := by
  rintro ⟨hlast, hcommit⟩
  rw [Log.lastIndex_eq_length h.contiguous] at hlast
  have hbase := hw.base_le
  have hend := hw.lt_end
  rw [hm.entries, List.length_drop] at hend
  have ha : F.log[k]? = some F.log[k] := List.getElem?_eq_getElem (by omega)
  have hb : L[k]? = some L[k] := List.getElem?_eq_getElem (by omega)
  rcases hw.conflict with hlen | hdis
  · omega
  · exact hdis ((agreesAt_iff hm hbase).mpr
      ⟨_, _, ha, hb, congrArg Entry.term (h.agrees k _ _ hcommit ha hb)⟩)

/-- **Adoption.**  A receptive follower that passes the consistency check acknowledges, and its
log then begins with all of `L`. -/
theorem Receptive.step_adopts (h : F.Receptive T L) (hL : L.Contiguous) (hm : m.Replicates T L)
    (hfault : env.truncateErr = false ∧ env.appendErr = false)
    (hprev : F.log.hasEntry m.prevLogIndex m.prevLogTerm = true) :
    ∃ l s, F.log.Adopts L l ∧
      F.step env m =
        some (acknowledgeAppendEntries { F.heard m with log := l, storage := s } m, none) := by
  obtain ⟨hprevL, hprevF⟩ := h.prev_le hL hm hprev
  have hes : Log.ContiguousFrom m.prevLogIndex m.entries := by
    rw [hm.entries]
    simpa using hL.drop m.prevLogIndex
  have hend : m.prevLogIndex + m.entries.length = L.length := by
    rw [hm.entries, List.length_drop]
    omega
  rcases firstConflictIndex_spec h.contiguous hes hprevF with
    ⟨hfc, hlen, hall⟩ | ⟨k, hfc, hw, hsuf⟩
  · -- everything is in place
    have htake := h.take_eq hL hm hprev (k := L.length) hprevL fun q hq hlt =>
      hall q hq (by omega)
    rw [List.take_length] at htake
    refine ⟨F.log, F.storage, .kept ?_, h.step_accepted hm hprev hfc⟩
    rw [← htake]
    exact List.take_prefix _ _
  · -- the log is cut at the first conflict and continued by the rest of `L`
    have htake := h.take_eq hL hm hprev hw.base_le hw.below
    obtain ⟨htrunc, happ⟩ := mirror_ok hes h.mirrored hw
    have hwritten : F.writtenLog m = L := by
      rw [writtenLog_eq h.contiguous hfc hsuf, htake, hm.entries, List.drop_drop,
        Nat.add_sub_cancel' hw.base_le, List.take_append_drop]
    have hstep := h.step_written hm hprev hfc (h.not_committed hm hw) hfault htrunc
      (hsuf ▸ happ)
    rw [hwritten] at hstep
    refine ⟨L, _, .cut k htake ?_, hstep⟩
    rcases hw.conflict with hlen | hdis
    · exact .inl hlen
    · by_cases hlen : k = F.log.length
      · exact .inl hlen
      · have hle := hw.le_length
        have hlt := hw.lt_end
        have ha : F.log[k]? = some F.log[k] := List.getElem?_eq_getElem (by omega)
        have hb : L[k]? = some L[k] := List.getElem?_eq_getElem (by omega)
        exact .inr ⟨_, _, ha, hb, fun hterm =>
          hdis ((agreesAt_iff hm hw.base_le).mpr ⟨_, _, ha, hb, hterm⟩)⟩

lemma Receptive.accepted {F' : Node} {err : Option StepError} (h : F.Receptive T L)
    (hL : L.Contiguous) (hm : m.Replicates T L)
    (hfault : env.truncateErr = false ∧ env.appendErr = false)
    (hstep : F.step env m = some (F', err))
    (haccept : ∃ x ∈ F.queuedSince F', x.type = .appendEntriesResp ∧ x.success = true) :
    F.log.Adopts L F'.log ∧ F'.Attends T := by
  cases hprev : F.log.hasEntry m.prevLogIndex m.prevLogTerm with
  | false =>
      rw [h.step_refused hm hprev] at hstep
      obtain ⟨rfl, -⟩ := Prod.mk.inj (Option.some.inj hstep)
      obtain ⟨x, hx, -, hsucc⟩ := haccept
      rw [queuedSince_reply (by rfl), List.mem_singleton] at hx
      rw [hx] at hsucc
      cases hsucc
  | true =>
      obtain ⟨l, s, hadopts, heq⟩ := h.step_adopts hL hm hfault hprev
      rw [heq] at hstep
      obtain ⟨rfl, -⟩ := Prod.mk.inj (Option.some.inj hstep)
      obtain ⟨c, hs, hack, -⟩ :=
        acknowledgeAppendEntries_eq { F.heard m with log := l, storage := s } m
      rw [hack]
      exact ⟨hadopts, h.started, h.term, hadopts.contiguous h.contiguous hL⟩

end Adoption

/-! ## Redelivery -/

section Redelivery

variable {F : Node} {T : ℕ} {L : Log} {m : Message} {env : Env}

/-- A log that begins with `L` has nothing to write from a message built from `L`. -/
lemma firstConflictIndex_eq_zero (h : F.log.Contiguous) (hm : m.Replicates T L)
    (hpre : L <+: F.log) : F.firstConflictIndex m.entries = 0 := by
  have hL : L.Contiguous := by
    rw [List.prefix_iff_eq_take.mp hpre]
    exact h.take _
  have hlen := hpre.length_le
  rcases Nat.lt_or_ge L.length m.prevLogIndex with hlt | hge
  · rw [hm.entries, List.drop_of_length_le hlt.le]
    rfl
  · have hes : Log.ContiguousFrom m.prevLogIndex m.entries := by
      rw [hm.entries]
      simpa using hL.drop m.prevLogIndex
    rcases firstConflictIndex_spec h hes (hge.trans hlen) with ⟨hfc, -⟩ | ⟨k, -, hw, -⟩
    · exact hfc
    · have hend := hw.lt_end
      rw [hm.entries, List.length_drop] at hend
      rcases hw.conflict with rfl | hdis
      · omega
      · have hb : L[k]? = some L[k] := List.getElem?_eq_getElem (by omega)
        have ha : F.log[k]? = some L[k] := by
          obtain ⟨l, hl⟩ := hpre
          rw [← hl, List.getElem?_append_left (by omega)]
          exact hb
        exact (hdis ((agreesAt_iff hm hw.base_le).mpr ⟨_, _, ha, hb, rfl⟩)).elim

/-- A message built from the beginning of the receiver's log writes nothing and never takes the
commit index back. -/
lemma Attends.step_inPlace (h : F.Attends T) (hm : m.Replicates T L) (hpre : L <+: F.log)
    (hcommit : m.leaderCommit ≤ L.length) (env : Env) :
    ∃ F', F.step env m = some (F', none) ∧ F'.Attends T ∧ F'.log = F.log ∧
      F.commitIndex ≤ F'.commitIndex := by
  cases hprev : F.log.hasEntry m.prevLogIndex m.prevLogTerm with
  | false =>
      exact ⟨_, h.step_refused hm hprev, ⟨h.started, h.term, h.contiguous⟩, rfl, le_rfl⟩
  | true =>
      obtain ⟨c, hs, heq, hc⟩ := (F.heard m).acknowledgeAppendEntries_eq m
      refine ⟨_, h.step_accepted hm hprev (firstConflictIndex_eq_zero h.contiguous hm hpre), ?_⟩
      rw [heq]
      refine ⟨⟨h.started, h.term, h.contiguous⟩, rfl, ?_⟩
      show F.commitIndex ≤ c
      rcases hc with hc | ⟨hlt, hc⟩
      · exact hc.ge
      · -- the batch reaches to the end of `L`, so the minimum is the leader's commit index
        have hlt' : F.commitIndex < m.leaderCommit := hlt
        rw [hm.entries, List.length_drop] at hc
        omega

end Redelivery

/-- Handle a list of messages, each in its own environment. -/
def deliverAll (F : Node) : List (Env × Message) → Option Node
  | [] => some F
  | d :: ds => (F.step d.1 d.2).bind fun r => r.1.deliverAll ds

lemma Attends.deliverAll_inPlace {F : Node} {T : ℕ} (h : F.Attends T) (ds : List (Env × Message))
    (hds : ∀ d ∈ ds, ∃ L, d.2.Replicates T L ∧ L <+: F.log ∧ d.2.leaderCommit ≤ L.length) :
    ∃ F', F.deliverAll ds = some F' ∧ F'.Attends T ∧ F'.log = F.log ∧
      F.commitIndex ≤ F'.commitIndex := by
  induction ds generalizing F with
  | nil => exact ⟨F, rfl, h, rfl, le_rfl⟩
  | cons d ds ih =>
      obtain ⟨L, hm, hpre, hcommit⟩ := hds d (List.mem_cons_self ..)
      obtain ⟨F₁, hstep, h₁, hlog₁, hc₁⟩ := h.step_inPlace hm hpre hcommit d.1
      obtain ⟨F₂, hrest, h₂, hlog₂, hc₂⟩ := ih h₁ fun d' hd' => by
        rw [hlog₁]
        exact hds d' (List.mem_cons_of_mem _ hd')
      refine ⟨F₂, ?_, h₂, hlog₂.trans hlog₁, hc₁.trans hc₂⟩
      rw [deliverAll, hstep]
      exact hrest

/-- **Reordered and repeated `AppendEntries` are harmless.**  `n₁` and `n₂` are the leader at two
moments of its term.  Once `F` has accepted the later message its log begins with the later log,
no entry was removed before the first position whose term differs, and after any number of
further deliveries of either message the log is the same and the commit index has not gone
back. -/
theorem redelivery_harmless {n₁ n₂ F F' : Node} {env : Env} {err : Option StepError}
    (hterm : n₁.currentTerm = n₂.currentTerm) (hpre : n₁.log <+: n₂.log)
    (hlog : n₂.log.Contiguous) (hlen : n₂.log.lastIndex < 2 ^ 64)
    (hcommit₁ : n₁.commitIndex ≤ n₁.log.lastIndex)
    (hcommit₂ : n₂.commitIndex ≤ n₂.log.lastIndex)
    (hF : F.Receptive n₂.currentTerm n₂.log)
    (hfault : env.truncateErr = false ∧ env.appendErr = false)
    (hstep : F.step env (n₂.appendEntriesFor F.id) = some (F', err))
    (haccept : ∃ x ∈ F.queuedSince F', x.type = .appendEntriesResp ∧ x.success = true) :
    n₂.log <+: F'.log ∧
    (∀ (p : ℕ) (e : Entry), F.log[p]? = some e →
      (∀ q ≤ p, ∀ a b : Entry, F.log[q]? = some a → n₂.log[q]? = some b → a.term = b.term) →
      F'.log[p]? = some e) ∧
    ∀ ds ds' : List (Env × Message),
      (∀ d ∈ ds ++ ds', d.2 = n₁.appendEntriesFor F.id ∨ d.2 = n₂.appendEntriesFor F.id) →
      ∃ F₁ F₂, F'.deliverAll ds = some F₁ ∧ F₁.deliverAll ds' = some F₂ ∧
        F₁.log = F'.log ∧ F₂.log = F'.log ∧
        F'.commitIndex ≤ F₁.commitIndex ∧ F₁.commitIndex ≤ F₂.commitIndex := by
  have hlog₁ : n₁.log.Contiguous := by
    rw [List.prefix_iff_eq_take.mp hpre]
    exact hlog.take _
  rw [Log.lastIndex_eq_length hlog] at hlen hcommit₂
  rw [Log.lastIndex_eq_length hlog₁] at hcommit₁
  have hm₁ : (n₁.appendEntriesFor F.id).Replicates n₂.currentTerm n₁.log :=
    hterm ▸ appendEntriesFor_replicates hlog₁ (.inr (hpre.length_le.trans_lt hlen))
  have hm₂ : (n₂.appendEntriesFor F.id).Replicates n₂.currentTerm n₂.log :=
    appendEntriesFor_replicates hlog (.inr hlen)
  obtain ⟨hadopts, hF'⟩ := hF.accepted hlog hm₂ hfault hstep haccept
  refine ⟨hadopts.isPrefix, fun p e he hsame => hadopts.survives he hsame,
    fun ds ds' hds => ?_⟩
  have hharmless : ∀ d ∈ ds ++ ds', ∃ L, d.2.Replicates n₂.currentTerm L ∧ L <+: F'.log ∧
      d.2.leaderCommit ≤ L.length := by
    intro d hd
    rcases hds d hd with heq | heq
    · rw [heq]
      exact ⟨n₁.log, hm₁, hpre.trans hadopts.isPrefix, hcommit₁⟩
    · rw [heq]
      exact ⟨n₂.log, hm₂, hadopts.isPrefix, hcommit₂⟩
  obtain ⟨F₁, hrun₁, hF₁, hlogF₁, hc₁⟩ := hF'.deliverAll_inPlace ds fun d hd =>
    hharmless d (List.mem_append_left _ hd)
  obtain ⟨F₂, hrun₂, -, hlogF₂, hc₂⟩ := hF₁.deliverAll_inPlace ds' fun d hd => by
    rw [hlogF₁]
    exact hharmless d (List.mem_append_right _ hd)
  exact ⟨F₁, F₂, hrun₁, hrun₂, hlogF₁, hlogF₂.trans hlogF₁, hc₁, hc₂⟩

/-- A leader of term 2 with the given log, which has committed one entry and probes `b` at its
second index. -/
def replicating (log : Log) : Node where
  id := "a"
  peers := ["a", "b"]
  currentTerm := 2
  role := .leader
  log := log
  commitIndex := 1
  nextIndex := (∅ : PeerMap).insert "b" 2
  cfg := { nodeID := "a", peers := ["a", "b"] }

/-- A follower with two uncommitted entries that the leader of term 2 does not have. -/
def diverged : Node where
  id := "b"
  peers := ["a", "b"]
  currentTerm := 2
  log := [⟨1, 1, []⟩, ⟨1, 2, []⟩, ⟨1, 3, []⟩]
  commitIndex := 1
  storage := { entries := [⟨1, 1, []⟩, ⟨1, 2, []⟩, ⟨1, 3, []⟩] }
  cfg := { nodeID := "b", peers := ["a", "b"] }
  started := true

lemma diverged_receptive : diverged.Receptive 2 [⟨1, 1, []⟩, ⟨2, 2, [7]⟩] where
  started := rfl
  term := rfl
  contiguous := Log.contiguousFrom_cons.mpr ⟨rfl, Log.contiguousFrom_cons.mpr
    ⟨rfl, Log.contiguousFrom_singleton rfl⟩⟩
  mirrored := rfl
  pos := by decide
  matching := by
    rintro (_ | _ | p) a b ha hb hab
    · rfl
    · cases ha
      cases hb
      cases hab
    · simp at hb
  agrees := by
    rintro (_ | p) a b hp ha hb
    · exact Option.some.inj (ha.symm.trans hb)
    · simp [diverged] at hp

theorem redelivery_harmless_diverged :
    ∃ F', diverged.step {} ((replicating [⟨1, 1, []⟩, ⟨2, 2, [7]⟩]).appendEntriesFor "b") =
        some (F', none) ∧
      [⟨1, 1, []⟩, ⟨2, 2, [7]⟩] <+: F'.log ∧
      ∃ F₂, F'.deliverAll [({}, (replicating [⟨1, 1, []⟩]).appendEntriesFor "b")] = some F₂ ∧
        F₂.log = F'.log := by
  have hlog : (replicating [⟨1, 1, []⟩, ⟨2, 2, [7]⟩]).log.Contiguous :=
    Log.contiguousFrom_cons.mpr ⟨rfl, Log.contiguousFrom_singleton rfl⟩
  have hstep : diverged.step {}
      ((replicating [⟨1, 1, []⟩, ⟨2, 2, [7]⟩]).appendEntriesFor diverged.id) =
        some (_, none) := rfl
  have hearlier : (replicating [⟨1, 1, []⟩]).log <+:
      (replicating [⟨1, 1, []⟩, ⟨2, 2, [7]⟩]).log := ⟨[⟨2, 2, [7]⟩], rfl⟩
  obtain ⟨hpre, -, hagain⟩ := redelivery_harmless (by rfl) hearlier hlog (by decide) (by decide)
    (by decide) diverged_receptive ⟨rfl, rfl⟩ hstep (by decide +kernel)
  obtain ⟨F₁, F₂, hrun, -, hlog₁, -⟩ :=
    hagain [({}, (replicating [⟨1, 1, []⟩]).appendEntriesFor "b")] [] fun d hd => .inl (by
      rw [List.append_nil, List.mem_singleton] at hd
      exact congrArg Prod.snd hd)
  exact ⟨_, hstep, hpre, F₁, hrun, hlog₁⟩

end Node

end ToyRaft
