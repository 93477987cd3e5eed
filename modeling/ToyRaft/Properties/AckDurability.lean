import ToyRaft.Properties.VoteDurability
import ToyRaft.Runtime.Clients

/-!
# Acknowledged entries are durable

The in-memory log and its copy in the storage are written by separate calls.  A node whose
two copies are equal (`Mirrored`) keeps them equal, whatever messages it is sent, as long as
no mirror of an `AppendEntries` fails: a failed `Propose` takes its append back, and a crash
restores the log from the storage.  What it acknowledges is then durable, and what it hands
to the applier is what its log holds.

A mirror that fails leaves the entries in memory only.  The response is a refusal, but when
the leader repeats the message the receiver finds all entries in place, does not write, and
acknowledges them (`acknowledged_not_stored`).
-/

namespace ToyRaft

/-- The storage holds the in-memory log, and neither has gaps. -/
structure Node.Mirrored (n : Node) : Prop where
  entries : n.storage.entries = n.log
  contiguous : n.log.Contiguous

namespace Node

lemma Mirrored.written {m : Message} {n n' : Node} {s : Storage} (h : n.Mirrored)
    (hfc : n.firstConflictIndex m.entries ≠ 0)
    (htrunc : n.storage.truncateSuffix (n.firstConflictIndex m.entries) = .ok s)
    (happ : s.append (entriesFrom (n.firstConflictIndex m.entries) m.entries) = .ok n'.storage)
    (hlog : n'.log = n.writtenLog m) : n'.Mirrored := by
  rw [Storage.truncateSuffix_ok hfc, h.entries] at htrunc
  obtain rfl := Except.ok.inj htrunc
  obtain ⟨hcont, hst⟩ := (Storage.append_eq_ok_iff _ _ _).mp happ
  have hwritten : n'.log = n.log.take (n.firstConflictIndex m.entries - 1) ++
      entriesFrom (n.firstConflictIndex m.entries) m.entries := by
    rw [hlog, writtenLog, Log.truncateSuffix_eq_take h.contiguous hfc]
    rfl
  refine ⟨?_, ?_⟩
  · rw [hst, hwritten]
  · rw [hwritten]
    refine Log.ContiguousFrom.append (h.contiguous.take _) ?_
    rw [Nat.zero_add]
    exact hcont

lemma Mirrored.proposed {n : Node} {data : Data} {s : Storage} (h : n.Mirrored)
    (hs : n.storage.append [n.newEntry data] = .ok s) : (n.proposed data s).Mirrored := by
  obtain ⟨hcont, rfl⟩ := (Storage.append_eq_ok_iff _ _ _).mp hs
  rw [h.entries] at hcont
  refine ⟨?_, ?_⟩
  · show n.storage.entries ++ [n.newEntry data] = n.log ++ [n.newEntry data]
    rw [h.entries]
  · refine Log.ContiguousFrom.append h.contiguous ?_
    rw [Nat.zero_add]
    exact hcont

lemma Mirrored.undo {n : Node} (h : n.Mirrored) (data : Data) :
    (n.log.append [n.newEntry data]).truncateSuffix (n.log.lastIndex + 1) = n.log := by
  have hlen := Log.lastIndex_eq_length h.contiguous
  have hcont : Log.Contiguous (n.log.append [n.newEntry data]) := by
    refine Log.ContiguousFrom.append h.contiguous (Log.contiguousFrom_singleton ?_)
    rw [newEntry, hlen, Nat.zero_add]
  rw [Log.truncateSuffix_eq_take hcont (Nat.succ_ne_zero _), hlen]
  exact List.take_left

end Node

namespace Host

variable {ρ : Type}

/-- The act delivers an `AppendEntries` whose write is mirrored with an error. -/
def mirrorFails (h : Host ρ) : Act ρ → Bool
  | .step m env =>
      match h.delivered (.step m env), h.node.mirrorStart m with
      | some _, some start =>
          (h.node.mirrorLogWriteLocked env start (Node.entriesFrom start m.entries)).2.isSome
      | _, _ => false
  | _ => false

lemma mirrorFails_of_delivered {h : Host ρ} {m : Message} {env : Env} {start : ℕ}
    (hdel : m ∈ h.delivered (.step m env)) (hstart : h.node.mirrorStart m = some start)
    (hfail : (h.node.mirrorLogWriteLocked env start
      (Node.entriesFrom start m.entries)).2 ≠ none) :
    h.mirrorFails (.step m env) = true := by
  unfold mirrorFails
  dsimp only
  rw [Option.mem_def.mp hdel, hstart]
  exact Option.isSome_iff_ne_none.mpr hfail

/-- What the storage of a mirrored node holds after a crash has no gaps. -/
lemma contiguous_restart {h : Host ρ} {a : Act ρ} {s : Storage} (hm : h.node.Mirrored)
    (hs : s = h.node.storage ∨ ∃ m draw restore start, a = .restartMidMirror m draw restore ∧
      h.node.mirrorStart m = some start ∧ h.node.storage.truncateSuffix start = .ok s) :
    Log.Contiguous s.entries := by
  rcases hs with rfl | ⟨m, _, _, start, -, hstart, htrunc⟩
  · rw [hm.entries]
    exact hm.contiguous
  · have hne : start ≠ 0 := by
      unfold Node.mirrorStart at hstart
      split_ifs at hstart with hchecks
      obtain rfl := Option.some.inj hstart
      exact hchecks.2.2.2.1
    rw [Storage.truncateSuffix_ok hne, hm.entries] at htrunc
    obtain rfl := Except.ok.inj htrunc
    exact hm.contiguous.take _

/-- The log and the storage move together, unless a mirror fails. -/
lemma mirrored_move {cfg : Config} {h : Host ρ} {a : Act ρ} {n' : Node} {f' : Flush}
    {out : List Message} (hmove : Move cfg h a n' f' out) (hok : h.mirrorFails a = false)
    (hm : h.node.Mirrored) : n'.Mirrored := by
  cases hmove with
  | quiet | ready | save | saveNone | saveFailed | send => exact ⟨hm.entries, hm.contiguous⟩
  | @step m env _ ha hn hdel =>
      obtain ⟨-, -, hlog, hst, hc, -, -, hcur, -⟩ := h.node.maybeStepDownLocked_frame m.term
      have hm₀ : (h.node.maybeStepDownLocked m.term).Mirrored :=
        ⟨by rw [hst, hlog, hm.entries], by rw [hlog]; exact hm.contiguous⟩
      cases Node.logEffect_of_handled hn with
      | same hlog' hst' =>
          exact ⟨by rw [hst', hlog', hm₀.entries], by rw [hlog']; exact hm₀.contiguous⟩
      | write _ hfc _ htrunc happ hlog' => exact hm₀.written hfc htrunc happ hlog'
      | mirrorFailed hfail hp hfc hguard =>
          rcases ha with rfl | ⟨rfl, rfl⟩
          · rw [Node.firstConflictIndex_congr hlog] at hfail hfc hguard
            rw [hlog, hc] at hguard
            have hprev := hp.prev
            rw [hlog] at hprev
            have hstart : h.node.mirrorStart m =
                some (h.node.firstConflictIndex m.entries) :=
              if_pos ⟨hp.type, hp.term ▸ hcur, hprev, hfc, hguard⟩
            have hdel' : m ∈ h.delivered (.step m env) := by
              refine hdel.resolve_left fun htick => ?_
              have := hp.type
              rw [htick] at this
              cases this
            rw [Node.mirrorLogWriteLocked_snd_congr env hst] at hfail
            rw [mirrorFails_of_delivered hdel' hstart hfail] at hok
            cases hok
          · cases hp.type
  | @propose data _ s _ hrole hs =>
      have hm' := hm.proposed hs
      obtain ⟨-, -, -, -, hlog, hst, -⟩ := (h.node.proposed data s).broadcast_frame
      exact ⟨by rw [hst, hlog, hm'.entries], by rw [hlog]; exact hm'.contiguous⟩
  | @proposeFailed data =>
      have hundo := hm.undo data
      exact ⟨hm.entries.trans hundo.symm, hundo.symm ▸ hm.contiguous⟩
  | restart _ hn hs =>
      have hcont := contiguous_restart hm hs
      exact ⟨by rw [hn.storage, hn.log], by rw [hn.log]; exact hcont⟩

theorem mirrored_after {cfg : Config} {s : Storage} {draw : ℕ} {restore : RestoreOutcome}
    {h₀ : Host ρ} (hnew : new cfg s draw restore = .ok h₀) (hs : Log.Contiguous s.entries)
    {ev : ℕ → Act ρ} {t : ℕ} (hok : ∀ u < t, (after cfg h₀ ev u).mirrorFails (ev u) = false) :
    (after cfg h₀ ev t).node.Mirrored := by
  obtain ⟨hstarted, -⟩ := new_cases hnew
  have hinit : h₀.node.Mirrored :=
    ⟨by rw [hstarted.storage, hstarted.log], by rw [hstarted.log]; exact hs⟩
  refine (alone cfg h₀).run_invariant_of (P := fun st => st.1.node.Mirrored)
    (A := fun st a => st.1.mirrorFails a = false) hinit ?_ hok
  · intro st a hA hm
    exact mirrored_move (move_of_act cfg st.1 a) hA hm

/-- The entries `drainCommitsToApply` has put into the apply channel. -/
def handedOver (h h' : Host ρ) : List Entry := h'.applyCh.drop h.applyCh.length

/-- The loop of `drainCommitsToApply` hands over what the storage holds at the index it has
reached. -/
lemma ClientMove.handedOver_cases {h h' : Host ρ} {a : Act ρ} (hmove : ClientMove h a h')
    {e : Entry} (he : e ∈ h.handedOver h') :
    h'.node = h.node ∧ h.node.storage.entries[h.enqueuedIdx]? = some e := by
  have hkept : ∀ ch : List Entry, h'.applyCh = ch → ch.length ≤ h.applyCh.length →
      h'.node = h.node ∧ h.node.storage.entries[h.enqueuedIdx]? = some e := by
    intro ch hch hlen
    rw [handedOver, hch, List.drop_eq_nil_of_le hlen] at he
    cases he
  cases hmove with
  | same heq => exact hkept _ (client_eq_iff.mp heq).2.1 le_rfl
  | fed e' ci hf hle hget hnode heq =>
      rw [handedOver, (client_eq_iff.mp heq).2.1, List.drop_left] at he
      obtain rfl := List.mem_singleton.mp he
      exact ⟨hnode, hget⟩
  | applying e' rest out _ _ hch heq =>
      exact hkept _ (client_eq_iff.mp heq).2.1 (by rw [hch]; simp)
  | applied _ _ _ _ _ _ _ heq => exact hkept _ (client_eq_iff.mp heq).2.1 le_rfl
  | rejected _ _ _ heq => exact hkept _ (client_eq_iff.mp heq).2.1 le_rfl
  | registered _ _ _ heq => exact hkept _ (client_eq_iff.mp heq).2.1 le_rfl
  | received _ _ _ _ _ heq => exact hkept _ (client_eq_iff.mp heq).2.1 le_rfl
  | cancelled _ _ heq => exact hkept _ (client_eq_iff.mp heq).2.1 le_rfl
  | checkpointed heq => exact hkept _ (client_eq_iff.mp heq).2.1 le_rfl
  | restarted _ heq => exact hkept _ (client_eq_iff.mp heq).2.1 (Nat.zero_le _)

/-- **What is acknowledged is durable.**  In every run of one node, whatever is delivered to
it, in which no mirror of an `AppendEntries` fails: when it queues a successful response with
match index `M`, its storage and its log agree on the first `M` entries and both have them;
and each entry `drainCommitsToApply` hands over is the one the log holds at the loop's
index. -/
theorem acknowledged_durable {cfg : Config} {s : Storage} {draw : ℕ}
    {restore : RestoreOutcome} {h₀ : Host ρ} (hnew : new cfg s draw restore = .ok h₀)
    (hs : Log.Contiguous s.entries) {ev : ℕ → Act ρ} {t : ℕ}
    (hok : ∀ u ≤ t, (after cfg h₀ ev u).mirrorFails (ev u) = false) :
    let h := after cfg h₀ ev t
    let h' := after cfg h₀ ev (t + 1)
    (∀ x ∈ h.node.queuedSince h'.node, x.type = .appendEntriesResp → x.success = true →
      x.matchIndex ≤ h'.node.log.length ∧ x.matchIndex ≤ h'.node.storage.entries.length ∧
        h'.node.storage.entries.take x.matchIndex = h'.node.log.take x.matchIndex) ∧
    (∀ e ∈ h.handedOver h', h'.node.log[h.enqueuedIdx]? = some e) := by
  intro h h'
  have hm : h.node.Mirrored := mirrored_after hnew hs fun u hu => hok u hu.le
  have hm' : h'.node.Mirrored := mirrored_after hnew hs fun u hu => hok u (Nat.le_of_lt_succ hu)
  constructor
  · intro x hx ht hsucc
    obtain ⟨m, -, hspoken⟩ := (move_of_act cfg h (ev t)).queued_cases hx
    obtain ⟨-, -, -, -, hmatch, -⟩ := hspoken.of_ack ht hsucc
    have hlen : x.matchIndex = h'.node.log.length :=
      hmatch.trans (Log.lastIndex_eq_length hm'.contiguous)
    rw [hlen, hm'.entries]
    exact ⟨le_rfl, le_rfl, rfl⟩
  · intro e he
    obtain ⟨hnode, hget⟩ := (clientMove_of_act cfg h (ev t)).handedOver_cases he
    have hnode' : h'.node = h.node := hnode
    rw [hnode', ← hm.entries]
    exact hget

/-- The `AppendEntries` of `b` to `a` that carries the first entry of term 1. -/
def firstEntry : Message :=
  { type := .appendEntries, term := 1, fromNode := "b", toNode := "a",
    entries := [{ term := 1, index := 1, data := [1] }] }

/-- The response of `a` that acknowledges it. -/
def firstAck : Message :=
  { type := .appendEntriesResp, term := 1, fromNode := "a", toNode := "b", success := true,
    matchIndex := 1 }

/-- The message is repeated, the commit index follows, and the entry is drained. -/
def repeated : List (Act Unit) :=
  [.step firstEntry {}, .step { firstEntry with leaderCommit := 1 } {},
    .ready, .save false, .send, .send, .drainBegin, .drain false]

theorem acknowledged_durable_repeated :
    let h := after nodeA (start nodeA {} 0) (Machine.schedule .stop repeated)
    firstAck ∈ (h 1).node.queuedSince (h 2).node ∧ 1 ≤ (h 2).node.storage.entries.length ∧
      ⟨1, 1, [1]⟩ ∈ (h 7).handedOver (h 8) ∧ (h 8).node.log[0]? = some ⟨1, 1, [1]⟩ := by
  have hnew : new nodeA {} 0 .restored = .ok (start nodeA {} 0 : Host Unit) := rfl
  have hok : ∀ u ≤ 7, (after nodeA (start nodeA {} 0) (Machine.schedule .stop repeated)
      u).mirrorFails (Machine.schedule .stop repeated u) = false := by
    decide +kernel
  have hack := acknowledged_durable hnew Log.contiguous_nil (t := 1)
    fun u hu => hok u (hu.trans (by decide))
  have hdrain := acknowledged_durable hnew Log.contiguous_nil (t := 7) hok
  refine ⟨by decide +kernel, ?_, by decide +kernel, ?_⟩
  · exact (hack.1 firstAck (by decide +kernel) rfl rfl).2.1
  · exact hdrain.2 _ (by decide +kernel)

/-- The first mirror fails in `Append`, and the leader repeats the message. -/
def lostAppend : List (Act Unit) :=
  [.step firstEntry { appendErr := true }, .step firstEntry {}]

/-- The repeated message is acknowledged although the storage holds nothing. -/
theorem acknowledged_not_stored :
    let h := after nodeA (start nodeA {} 0) (Machine.schedule .stop lostAppend)
    firstAck ∈ (h 1).node.queuedSince (h 2).node ∧ (h 2).node.log[0]? = some ⟨1, 1, [1]⟩ ∧
      (h 2).node.storage.entries = [] := by
  decide +kernel

end Host

end ToyRaft
