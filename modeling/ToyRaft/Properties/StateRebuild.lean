import ToyRaft.Properties.ApplyOrder

/-!
# What a restart makes of the state machine

A `StateMachine` is what the node drives through `Apply`, `Snapshot` and `Restore`.  Its
state is not part of a host; `Trace.state` follows it through a run, and `Trace.Answers` says
that the snapshots it hands out are honest.

The state equals the effect of the log up to `appliedIdx` whenever the applier is not in the
middle of an entry (`restart_rebuilds_state`), as long as two things hold at every step: a
restart that finds a snapshot has `Restore` reload it, and no `AppendEntries` overwrites an
entry the state machine has consumed, through `Apply` or in the stored snapshot.

The first is what the code gets wrong.  `New` seeds `appliedIdx` with the index of the
snapshot also when `Restore` answers `ErrSnapshotUnsupported` and the state machine is still
in its initial state; the entries up to that index are then never applied
(`unsupported_restore_skips_applied`).
-/

namespace ToyRaft

/-- A state machine: its initial state, what `Apply` makes of an entry, and the state a
snapshot blob holds. -/
structure StateMachine (σ : Type) where
  init : σ
  apply : σ → Entry → σ
  load : Data → σ

namespace StateMachine

variable {σ : Type} (sm : StateMachine σ)

/-- The effect of a sequence of entries on the initial state. -/
def effect (es : List Entry) : σ := es.foldl sm.apply sm.init

lemma effect_take_succ {l : Log} {k : ℕ} {e : Entry} (he : l[k]? = some e) :
    sm.effect (l.take (k + 1)) = sm.apply (sm.effect (l.take k)) e := by
  rw [effect, effect, List.take_add_one, he, Option.toList_some, List.foldl_append]
  rfl

/-- The state `New` leaves: that of the snapshot, if there is one and `Restore` reloads it. -/
def started (snap : Snapshot) (restored : Bool) : σ :=
  if 0 < snap.index ∧ restored = true then sm.load snap.data else sm.init

end StateMachine

/-- The restart of this act has `Restore` reload the snapshot. -/
def Act.restored {ρ : Type} : Act ρ → Bool
  | .restart _ restore | .restartMidMirror _ _ restore => restore = .restored
  | _ => false

namespace Host

variable {ρ σ : Type}

/-- The snapshot a running node takes from the state machine in this act. -/
def snapshots (h : Host ρ) : Act ρ → Option (Data × ℕ)
  | .checkpoint (.taken data idx) _ =>
      match h.crashed, h.applier, h.stopped with
      | false, .checkpointing, _ => some (data, idx)
      | false, .idle, true => some (data, idx)
      | _, _, _ => none
  | _ => none

lemma snapshots_of_checkpoint {h : Host ρ} {data : Data} {idx : ℕ} {err : Bool}
    (hrun : h.crashed = false)
    (hrest : h.applier = .checkpointing ∨ h.applier = .idle ∧ h.stopped = true) :
    h.snapshots (.checkpoint (.taken data idx) err) = some (data, idx) := by
  rcases hrest with hap | ⟨hap, hstop⟩
  · simp [snapshots, hrun, hap]
  · simp [snapshots, hrun, hap, hstop]

/-- The last index the state machine has consumed, in this lifetime or in the stored
snapshot. -/
def consumed (h : Host ρ) : ℕ := max h.appliedIdx h.node.storage.snap.index

namespace Trace

variable {cfg : Config} (τ : Trace ρ cfg) (sm : StateMachine σ)

/-- The state of the state machine after the first `t` steps.  Each lifetime starts with a
state machine in its initial state. -/
def state : ℕ → σ
  | 0 => sm.init
  | t + 1 =>
      match τ.act t with
      | none => state t
      | some a =>
          if (τ.host t).reboots cfg a then
            sm.started (τ.host (t + 1)).node.storage.snap a.restored
          else
            match (τ.host t).applies a with
            | some e => sm.apply (state t) e
            | none => state t

/-- A snapshot taken at moment `t` is a blob of the state, with an index of the log up to which
the entries have that effect. -/
def Answers (t : ℕ) : Prop :=
  ∀ a ∈ τ.act t, ∀ p ∈ (τ.host t).snapshots a,
    sm.load p.1 = τ.state sm t ∧ p.2 ≤ (τ.host t).node.log.length ∧
      τ.state sm t = sm.effect ((τ.host t).node.log.take p.2)

instance [DecidableEq σ] (t : ℕ) : Decidable (τ.Answers sm t) :=
  inferInstanceAs (Decidable (∀ a ∈ τ.act t, ∀ p ∈ (τ.host t).snapshots a, _ ∧ _ ∧ _))

/-- Step `t` does not endanger what has been consumed: a restart that finds a snapshot has
`Restore` reload it, and no write reaches a consumed index. -/
structure Careful (t : ℕ) : Prop where
  restores : ∀ a ∈ τ.act t, (τ.host t).reboots cfg a = true →
    0 < (τ.host t).node.storage.snap.index → a.restored = true
  writesAbove : ∀ a ∈ τ.act t, ∀ start ∈ (τ.host t).writesFrom a, (τ.host t).consumed < start

instance (t : ℕ) : Decidable (τ.Careful t) :=
  decidable_of_iff
    ((∀ a ∈ τ.act t, (τ.host t).reboots cfg a = true →
        0 < (τ.host t).node.storage.snap.index → a.restored = true) ∧
      ∀ a ∈ τ.act t, ∀ start ∈ (τ.host t).writesFrom a, (τ.host t).consumed < start)
    ⟨fun h => ⟨h.1, h.2⟩, fun h => ⟨h.restores, h.writesAbove⟩⟩

end Trace

/-- The state `x` of the state machine, the stored snapshot and the log agree. -/
structure Rebuilt (sm : StateMachine σ) (h : Host ρ) (x : σ) : Prop where
  le_length : h.consumed ≤ h.node.log.length
  resting : ¬ Busy h.applier → x = sm.effect (h.node.log.take h.appliedIdx)
  busy : Busy h.applier → x = sm.effect (h.node.log.take (h.appliedIdx + 1))
  snap : 0 < h.node.storage.snap.index →
    sm.load h.node.storage.snap.data =
      sm.effect (h.node.log.take h.node.storage.snap.index)

lemma take_eq_of_le {l l' : Log} {j k : ℕ} (h : l'.take k = l.take k) (hj : j ≤ k) :
    l'.take j = l.take j := by
  have := congrArg (List.take j) h
  rwa [List.take_take, List.take_take, Nat.min_eq_left hj] at this

lemma applied_le_consumed (h : Host ρ) : h.appliedIdx ≤ h.consumed := le_max_left _ _

lemma snap_le_consumed (h : Host ρ) : h.node.storage.snap.index ≤ h.consumed := le_max_right _ _

lemma le_length_of_take_eq {l l' : Log} {k : ℕ} (h : l'.take k = l.take k)
    (hk : k ≤ l.length) : k ≤ l'.length := by
  have hlen := congrArg List.length h
  rw [List.length_take, List.length_take] at hlen
  omega

lemma Deeds.Kept.next {d : Deeds} {h : Host ρ} {e : Entry} {rest : List Entry}
    (hk : d.Kept h) (hidle : ¬ Busy h.applier) (hch : h.applyCh = e :: rest) :
    h.node.log[h.appliedIdx]? = some e := by
  obtain ⟨tail, htail⟩ := hk.inLog
  rw [hk.resting hidle, ← List.getElem?_drop, ← htail, hk.channel, hch, List.append_assoc,
    List.getElem?_append_right le_rfl, Nat.sub_self]
  rfl

lemma Deeds.Kept.busy_committed {d : Deeds} {h : Host ρ} (hk : d.Kept h)
    (hb : Busy h.applier) :
    h.appliedIdx + 1 ≤ h.node.commitIndex ∧ h.appliedIdx + 1 ≤ h.node.log.length := by
  obtain ⟨e, out, hap⟩ := hb
  obtain ⟨before, hbefore, hdone⟩ := hk.busy e out hap
  have hlen : d.applied.length = before.length + 1 := by
    rw [hbefore, List.length_append]
    rfl
  have henq : d.enqueued.length = d.applied.length + h.applyCh.length := by
    rw [hk.channel, List.length_append]
  have hne : d.enqueued ≠ [] := by
    intro hnil
    rw [hnil] at henq
    simp only [List.length_nil] at henq
    omega
  have hcommit := hk.committed hne
  have hfront := hk.frontier
  have hlog := hk.inLog.length_le
  rw [List.length_drop] at hlog
  exact ⟨by omega, by omega⟩

namespace Trace

variable {cfg : Config} (τ : Trace ρ cfg) (sm : StateMachine σ)

/-- A careful step keeps the log as far as it was consumed. -/
lemma take_consumed {t : ℕ} {a : Act ρ} (ha : τ.act t = some a) (hcare : τ.Careful t)
    (hle : (τ.host t).consumed ≤ (τ.host t).node.log.length) :
    (τ.host (t + 1)).node.log.take (τ.host t).consumed =
      (τ.host t).node.log.take (τ.host t).consumed := by
  rw [τ.acts t a ha]
  exact (move_of_act cfg (τ.host t) a).log_take (τ.permitted t a ha).1 (τ.permitted t a ha).2
    (τ.tidy t).shaped hle fun start hw => hcare.writesAbove a ha start hw

/-- A restart from a snapshot that is reloaded, or from none, rebuilds the state. -/
lemma rebuilt_reboot {t : ℕ} {a : Act ρ} (ha : τ.act t = some a) (hcare : τ.Careful t)
    (hre : (τ.host t).reboots cfg a = true) (hr : Rebuilt sm (τ.host t) (τ.state sm t)) :
    Rebuilt sm (τ.host (t + 1)) (sm.started (τ.host (t + 1)).node.storage.snap a.restored) := by
  have htake := τ.take_consumed ha hcare hr.le_length
  have hlen := le_length_of_take_eq htake hr.le_length
  have hmove := applyMove_of_act cfg (τ.host t) a
  rw [← τ.acts t a ha] at hmove
  cases hmove with
  | rebooted s draw restore _ hact hs hnew =>
      obtain ⟨hap, -, -, hdone⟩ := pipeline_eq_iff.mp (pipeline_of_new hnew)
      have hst : (τ.host (t + 1)).node.storage.snap = (τ.host t).node.storage.snap := by
        rw [(new_cases hnew).1.storage, hs]
      have hidx : (τ.host (t + 1)).appliedIdx = (τ.host t).node.storage.snap.index := by
        rw [hdone, hs]
      have hcut := take_eq_of_le htake (snap_le_consumed _)
      rw [hst]
      refine ⟨?_, fun _ => ?_, fun hb => ?_, fun hpos => ?_⟩
      · rw [consumed, hidx, hst, max_self]
        exact (snap_le_consumed _).trans hlen
      · rw [hidx, hcut, StateMachine.started]
        split_ifs with hload
        · exact hr.snap hload.1
        · have hzero : (τ.host t).node.storage.snap.index = 0 := by
            by_contra hne
            exact hload ⟨by omega, hcare.restores a ha hre (by omega)⟩
          rw [hzero]
          rfl
      · exact (not_busy_of_idle hap hb).elim
      · rw [hst] at hpos ⊢
        rw [hcut]
        exact hr.snap hpos
  | same hre' | enqueued _ _ hre' | applying _ _ _ hre' | finished _ _ _ hre'
  | checkpointed _ _ hre' =>
      rw [hre] at hre'
      cases hre'

lemma rebuilt_act {t : ℕ} {a : Act ρ} (ha : τ.act t = some a) (hcare : τ.Careful t)
    (hanswer : τ.Answers sm t) (hre : (τ.host t).reboots cfg a = false)
    (hr : Rebuilt sm (τ.host t) (τ.state sm t)) :
    Rebuilt sm (τ.host (t + 1))
      (match (τ.host t).applies a with
        | some e => sm.apply (τ.state sm t) e
        | none => τ.state sm t) := by
  have htake := τ.take_consumed ha hcare hr.le_length
  have hlen := le_length_of_take_eq htake hr.le_length
  have hkeeps := (τ.tidy t).committed (τ.permitted t a ha).1 (τ.permitted t a ha).2 hre
  have hkept := τ.kept t
  have hmove := applyMove_of_act cfg (τ.host t) a
  rw [← τ.acts t a ha] at hmove hkeeps
  have hlow := take_eq_of_le htake (applied_le_consumed _)
  -- what is being applied is committed, so it stays as well
  have hbusy : Busy (τ.host t).applier →
      (τ.host (t + 1)).node.log.take ((τ.host t).appliedIdx + 1) =
        (τ.host t).node.log.take ((τ.host t).appliedIdx + 1) := fun hb =>
    take_eq_of_le hkeeps.take (hkept.busy_committed hb).1
  have hold : ∀ {snap : Snapshot}, snap = (τ.host t).node.storage.snap → 0 < snap.index →
      sm.load snap.data = sm.effect ((τ.host (t + 1)).node.log.take snap.index) := by
    rintro snap rfl hpos
    rw [take_eq_of_le htake (snap_le_consumed _)]
    exact hr.snap hpos
  -- the applier does nothing, and the log stays as far as it has come
  have hstays : (τ.host (t + 1)).applier = (τ.host t).applier →
      (τ.host (t + 1)).appliedIdx = (τ.host t).appliedIdx →
      (τ.host (t + 1)).node.storage.snap = (τ.host t).node.storage.snap →
      Rebuilt sm (τ.host (t + 1)) (τ.state sm t) := by
    intro hap hdone hsnap
    refine ⟨by rw [consumed, hdone, hsnap]; exact hlen, fun hb => ?_, fun hb => ?_, hold hsnap⟩
    · rw [hap] at hb
      rw [hdone, hlow]
      exact hr.resting hb
    · rw [hap] at hb
      rw [hdone, hbusy hb]
      exact hr.busy hb
  cases hmove with
  | same _ _ happ heq hsnap =>
      obtain ⟨hap, -, -, hdone⟩ := pipeline_eq_iff.mp heq
      rw [happ]
      exact hstays hap hdone hsnap
  | enqueued e ci _ _ happ _ _ _ hnode heq =>
      obtain ⟨hap, -, -, hdone⟩ := pipeline_eq_iff.mp heq
      rw [happ]
      exact hstays hap hdone (by rw [hnode])
  | applying e rest out _ _ happ _ hidle hch hnode heq =>
      obtain ⟨hap, -, -, hdone⟩ := pipeline_eq_iff.mp heq
      have hrest := not_busy_of_idle hidle
      rw [happ]
      refine ⟨by rw [consumed, hdone, hnode]; exact hr.le_length, fun hb => ?_, fun _ => ?_,
        hold (by rw [hnode])⟩
      · exact (hb ⟨e, out, hap⟩).elim
      · show sm.apply (τ.state sm t) e = _
        rw [hdone, hnode, sm.effect_take_succ (hkept.next hrest hch), hr.resting hrest]
  | finished e out ap _ _ happ _ _ hb hap' hnode heq =>
      obtain ⟨hap, -, -, hdone⟩ := pipeline_eq_iff.mp heq
      have hbusy' : Busy (τ.host t).applier := ⟨e, out, hb⟩
      have hidx := hkept.busy_index (τ.tidy t).shaped.contiguous hb
      rw [happ]
      refine ⟨?_, fun _ => ?_, fun hb' => ?_, hold (by rw [hnode])⟩
      · rw [consumed, hdone, hnode, hidx]
        exact max_le (hkept.busy_committed hbusy').2 ((snap_le_consumed _).trans hr.le_length)
      · rw [hdone, hnode, hidx]
        exact hr.busy hbusy'
      · rw [hap] at hb'
        exact (hap' hb').elim
  | checkpointed out err _ _ happ hact hrun hrest hlog hsnap heq =>
      obtain ⟨hap, -, -, hdone⟩ := pipeline_eq_iff.mp heq
      have hsnaps : ∀ {data idx}, out = .taken data idx →
          sm.load data = τ.state sm t ∧ idx ≤ (τ.host t).node.log.length ∧
            τ.state sm t = sm.effect ((τ.host t).node.log.take idx) := by
        rintro data idx rfl
        subst hact
        exact hanswer _ ha (data, idx) (snapshots_of_checkpoint hrun hrest)
      rw [happ]
      refine ⟨?_, fun _ => ?_, fun hb => ?_, ?_⟩
      · rw [consumed, hdone, hlog]
        rcases hsnap with hsnap | ⟨data, idx, hout, -, hsnap⟩
        · rw [hsnap]
          exact hr.le_length
        · rw [hsnap]
          exact max_le ((applied_le_consumed _).trans hr.le_length) (hsnaps hout).2.1
      · rw [hdone, hlow]
        exact hr.resting (not_busy_of_checkpoint hrest)
      · exact (not_busy_of_idle hap hb).elim
      · rcases hsnap with hsnap | ⟨data, idx, hout, -, hsnap⟩
        · exact hold hsnap
        · intro _
          obtain ⟨hload, -, heffect⟩ := hsnaps hout
          rw [hsnap, hlog]
          exact hload.trans heffect
  | rebooted _ _ _ hre' =>
      rw [hre] at hre'
      cases hre'

/-- As long as every step is careful, the state stays in step with the log. -/
theorem rebuilt {t : ℕ} (hanswers : ∀ u < t, τ.Answers sm u) (hcare : ∀ u < t, τ.Careful u) :
    Rebuilt sm (τ.host t) (τ.state sm t) := by
  induction t with
  | zero =>
      obtain ⟨draw, hnew⟩ := τ.starts
      obtain ⟨hap, -, -, hdone⟩ := pipeline_eq_iff.mp (pipeline_of_new hnew)
      have hst := (new_cases hnew).1.storage
      have hidx : (τ.host 0).appliedIdx = 0 := hdone
      refine ⟨?_, fun _ => ?_, fun hb => ?_, fun hpos => ?_⟩
      · rw [consumed, hidx, hst]
        exact Nat.zero_le _
      · rw [hidx]
        rfl
      · exact (not_busy_of_idle hap hb).elim
      · rw [hst] at hpos
        cases hpos
  | succ t ih =>
      have hr := ih (fun u hu => hanswers u (by omega)) fun u hu => hcare u (by omega)
      rw [state]
      cases ha : τ.act t with
      | none =>
          rw [τ.idle t ha]
          exact hr
      | some a =>
          dsimp only
          split_ifs with hre
          · exact τ.rebuilt_reboot sm ha (hcare t (Nat.lt_succ_self t)) hre hr
          · exact τ.rebuilt_act sm ha (hcare t (Nat.lt_succ_self t))
              (hanswers t (Nat.lt_succ_self t)) (by simpa using hre) hr

end Trace

end Host

namespace Cluster

variable {ρ σ : Type} (C : Cluster)

/-- **A restart rebuilds the right state**, as long as every restart that finds a snapshot has
it reloaded and no write reaches a consumed index: in every run of a cluster whose log writes
succeed, with a state machine whose snapshots are honest, the state is the effect of the log
up to `appliedIdx` whenever the applier is between two entries, and so in particular directly
after `New` and after every entry. -/
theorem restart_rebuilds_state (sm : StateMachine σ) (ev : ℕ → NodeID × Act ρ) {i : NodeID}
    (hi : i ∈ C.peers) (t : ℕ) (hanswers : ∀ u < t, (C.logTrace ev hi).Answers sm u)
    (hcare : ∀ u < t, (C.logTrace ev hi).Careful u)
    (hrest : ¬ Host.Busy ((C.logTrace ev hi).host t).applier) :
    (C.logTrace ev hi).state sm t =
      sm.effect (((C.logTrace ev hi).host t).node.log.take
        ((C.logTrace ev hi).host t).appliedIdx) :=
  ((C.logTrace ev hi).rebuilt sm hanswers hcare).resting hrest

/-- A state machine that counts what it is given. -/
def counter : StateMachine ℕ where
  init := 0
  apply n _ := n + 1
  load data := data.length

/-- Two commands are applied, and the node is stopped, which takes a snapshot.  The node then
starts again with a state machine that answers `restore`. -/
def snapshotThenRestart (restore : RestoreOutcome) : List (Act Unit) :=
  twoCommands ++ [.drainBegin, .drain false, .drain false, .drain false,
    .applyCall (.returned none none), .applyDone, .applyCall (.returned none none), .applyDone,
    .stop, .checkpoint (.taken [0, 0] 2) false, .restart 0 restore]

theorem restart_rebuilds_state_counter :
    let hi : "a" ∈ solo.peers := by decide
    let τ := solo.logTrace
      (fun t => ("a", Machine.schedule .ready (snapshotThenRestart .restored) t)) hi
    τ.RebootsAt 17 ∧ (τ.host 18).appliedIdx = 2 ∧
      τ.state counter 18 = counter.effect ((τ.host 18).node.log.take 2) := by
  intro hi τ
  have hidle : (τ.host 18).applier = .idle := by decide +kernel
  have hanswers : ∀ u < 18, τ.Answers counter u := by decide +kernel
  have hcare : ∀ u < 18, τ.Careful u := by decide +kernel
  refine ⟨⟨.restart 0 .restored, by rfl, by decide +kernel⟩, by decide +kernel, ?_⟩
  exact solo.restart_rebuilds_state counter _ hi 18 hanswers hcare (Host.not_busy_of_idle hidle)

/-- A state machine that takes snapshots but does not reload them is left in its initial
state, with `appliedIdx` at the index of the snapshot: the two commands are never applied. -/
theorem unsupported_restore_skips_applied :
    let hi : "a" ∈ solo.peers := by decide
    let τ := solo.logTrace
      (fun t => ("a", Machine.schedule .ready (snapshotThenRestart .unsupported) t)) hi
    (∀ u < 18, τ.Answers counter u) ∧ τ.RebootsAt 17 ∧ (τ.host 18).applier = .idle ∧
      (τ.host 18).appliedIdx = 2 ∧ (τ.host 18).node.log.length = 2 ∧ τ.state counter 18 = 0 ∧
      counter.effect ((τ.host 18).node.log.take (τ.host 18).appliedIdx) = 2 := by
  intro hi τ
  exact ⟨by decide +kernel, ⟨.restart 0 .unsupported, by rfl, by decide +kernel⟩,
    by decide +kernel, by decide +kernel, by decide +kernel, by decide +kernel,
    by decide +kernel⟩

end Cluster

end ToyRaft
