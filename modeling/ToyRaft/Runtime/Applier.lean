import ToyRaft.Runtime.Clients

/-!
# The way of an entry to the state machine

Four pieces of state carry a committed entry to `StateMachine.Apply`: the enqueue frontier
and the apply channel, which the driver fills, and the applier and the applied index, which
the applier goroutine owns.  `ApplyMove` lists what an act can do to them and to the stored
snapshot.
-/

namespace ToyRaft

namespace Host

variable {ρ : Type}

/-- The applier, the apply channel and the two frontiers. -/
def pipeline (h : Host ρ) : Applier ρ × List Entry × ℕ × ℕ :=
  (h.applier, h.applyCh, h.enqueuedIdx, h.appliedIdx)

lemma pipeline_eq_iff {h : Host ρ} {ap : Applier ρ} {ch : List Entry} {enq done : ℕ} :
    h.pipeline = (ap, ch, enq, done) ↔
      h.applier = ap ∧ h.applyCh = ch ∧ h.enqueuedIdx = enq ∧ h.appliedIdx = done := by
  simp only [pipeline, Prod.mk.injEq]

/-- The applier is in the middle of an entry. -/
def Busy (ap : Applier ρ) : Prop := ∃ e out, ap = .applied e out

lemma not_busy_of_idle {ap : Applier ρ} (h : ap = .idle) : ¬ Busy ap := by
  rintro ⟨e, out, rfl⟩
  cases h

lemma not_busy_of_checkpoint {ap : Applier ρ} {stopped : Bool}
    (h : ap = .checkpointing ∨ ap = .idle ∧ stopped = true) : ¬ Busy ap := by
  rintro ⟨e, out, rfl⟩
  rcases h with h | ⟨h, -⟩ <;> cases h

/-- What an act can do to the way of the entries, and to the stored snapshot. -/
inductive ApplyMove (cfg : Config) (h : Host ρ) (a : Act ρ) (h' : Host ρ) : Prop
  | same (hre : h.reboots cfg a = false) (henq : h.enqueues a = none) (happ : h.applies a = none)
      (heq : h'.pipeline = h.pipeline) (hsnap : h'.node.storage.snap = h.node.storage.snap)
  /-- The next committed entry enters the apply channel. -/
  | enqueued (e : Entry) (ci : ℕ) (hre : h.reboots cfg a = false) (henq : h.enqueues a = some e)
      (happ : h.applies a = none) (hf : h.flush = .draining ci) (hle : h.enqueuedIdx + 1 ≤ ci)
      (he : h.node.storage.entries[h.enqueuedIdx]? = some e) (hnode : h'.node = h.node)
      (heq : h'.pipeline = (h.applier, h.applyCh ++ [e], h.enqueuedIdx + 1, h.appliedIdx))
  /-- `Apply` is called on the head of the channel. -/
  | applying (e : Entry) (rest : List Entry) (out : ApplyOutcome ρ)
      (hre : h.reboots cfg a = false) (henq : h.enqueues a = none) (happ : h.applies a = some e)
      (ha : a = .applyCall out) (hidle : h.applier = .idle) (hch : h.applyCh = e :: rest)
      (hnode : h'.node = h.node)
      (heq : h'.pipeline = (.applied e out, rest, h.enqueuedIdx, h.appliedIdx))
  /-- `applyOne` finishes an entry. -/
  | finished (e : Entry) (out : ApplyOutcome ρ) (ap : Applier ρ)
      (hre : h.reboots cfg a = false) (henq : h.enqueues a = none) (happ : h.applies a = none)
      (ha : a = .applyDone) (hrun : h.crashed = false) (hbusy : h.applier = .applied e out)
      (hap : ¬ Busy ap)
      (hnode : h'.node = h.node)
      (heq : h'.pipeline = (ap, h.applyCh, h.enqueuedIdx, e.index))
  | checkpointed (out : SnapshotOutcome) (err : Bool) (hre : h.reboots cfg a = false)
      (henq : h.enqueues a = none) (happ : h.applies a = none) (ha : a = .checkpoint out err)
      (hrun : h.crashed = false)
      (hrest : h.applier = .checkpointing ∨ h.applier = .idle ∧ h.stopped = true)
      (hlog : h'.node.log = h.node.log)
      (hsnap : h'.node.storage.snap = h.node.storage.snap ∨
        ∃ data idx, out = .taken data idx ∧ idx ≠ 0 ∧
          h'.node.storage.snap = ⟨idx, (h.node.log.term idx).1, data⟩)
      (heq : h'.pipeline = (.idle, h.applyCh, h.enqueuedIdx, h.appliedIdx))
  /-- `New` has come back on the storage the crash left. -/
  | rebooted (s : Storage) (draw : ℕ) (restore : RestoreOutcome)
      (hre : h.reboots cfg a = true)
      (ha : a = .restart draw restore ∨ ∃ m, a = .restartMidMirror m draw restore)
      (hs : s.snap = h.node.storage.snap) (hnew : new cfg s draw restore = .ok h')

lemma pipeline_of_new {cfg : Config} {s : Storage} {draw : ℕ} {restore : RestoreOutcome}
    {h : Host ρ} (hnew : new cfg s draw restore = .ok h) :
    h.pipeline = (.idle, [], s.snap.index, s.snap.index) := by
  unfold new at hnew
  split at hnew
  · cases hnew
  · split_ifs at hnew with hpos
    · cases hnew
      rfl
    · cases hnew
      rw [show s.snap.index = 0 by omega]
      rfl

lemma resolve_pipeline (h : Host ρ) (idx : ℕ) (r : ProposeResult ρ) :
    (h.resolve idx r).pipeline = h.pipeline := by
  unfold resolve
  split <;> rfl

/-- `applyOne` ends with the applied index at its entry and its hands free. -/
lemma applyDone_pipeline (h : Host ρ) (e : Entry) (out : ApplyOutcome ρ) :
    (h.applyDone e out).pipeline =
        ((h.applyDone e out).applier, h.applyCh, h.enqueuedIdx, e.index) ∧
      ¬ Busy (h.applyDone e out).applier := by
  cases out with
  | returned res err =>
      constructor
      · exact congrArg (fun p => ((h.applyDone e (.returned res err)).applier, p.2))
          (resolve_pipeline { h with appliedIdx := e.index } e.index ⟨res, err.map .returned⟩)
      · rintro ⟨e', out', heq⟩
        have heq : (if _ then Applier.checkpointing else Applier.idle) = _ := heq
        split_ifs at heq
  | panicked msg =>
      have heq : (h.applyDone e (.panicked msg)).pipeline =
          (.idle, h.applyCh, h.enqueuedIdx, e.index) := resolve_pipeline _ _ _
      have hidle := (pipeline_eq_iff.mp heq).1
      rw [heq, hidle]
      refine ⟨rfl, ?_⟩
      rintro ⟨e', out', hb⟩
      cases hb

lemma applyMove_checkpoint {cfg : Config} {h : Host ρ} {out : SnapshotOutcome} {err : Bool}
    (hrun : h.crashed = false)
    (hrest : h.applier = .checkpointing ∨ h.applier = .idle ∧ h.stopped = true) :
    ApplyMove cfg h (.checkpoint out err) (h.checkpoint out err) := by
  cases out with
  | taken data idx =>
      by_cases hskip : idx = 0 ∨ err = true
      · have heq : h.checkpoint (.taken data idx) err = { h with applier := .idle } := by
          rw [checkpoint]
          exact if_pos hskip
        rw [heq]
        exact .checkpointed _ _ rfl rfl rfl rfl hrun hrest rfl (.inl rfl) rfl
      · have heq : h.checkpoint (.taken data idx) err =
            { h with
              applier := .idle
              node := { h.node with
                storage := h.node.storage.saveSnapshot ⟨idx, (h.node.log.term idx).1, data⟩ }
              snapshotIdx := idx } := by
          rw [checkpoint]
          exact if_neg hskip
        rw [heq]
        rw [not_or] at hskip
        exact .checkpointed _ _ rfl rfl rfl rfl hrun hrest rfl
          (.inr ⟨data, idx, rfl, hskip.1, rfl⟩) rfl
  | unsupported | failed => exact .checkpointed _ _ rfl rfl rfl rfl hrun hrest rfl (.inl rfl) rfl

lemma applyMove_drain {cfg : Config} {h : Host ρ} {ci : ℕ} (hrun : h.crashed = false)
    (hf : h.flush = .draining ci) (err : Bool) :
    ApplyMove cfg h (.drain err) (h.drain ci err) := by
  by_cases hlt : ci < h.enqueuedIdx + 1
  · have heq : h.drain ci err = { h with flush := .idle } := by
      rw [drain]
      exact if_pos hlt
    rw [heq]
    exact .same rfl (by simp [enqueues, hrun, hf, hlt]) rfl rfl rfl
  · cases hget : faulty err
        (h.node.storage.getEntries (h.enqueuedIdx + 1) (h.enqueuedIdx + 1 + 1)) with
    | error e =>
        have heq : h.drain ci err = { h with flush := .idle } := by
          simp only [drain, if_neg hlt, hget]
        rw [heq]
        exact .same rfl (by simp [enqueues, hrun, hf, hget]) rfl rfl rfl
    | ok es =>
        obtain ⟨-, hread⟩ := Storage.faulty_eq_ok hget
        rw [Storage.getEntries_single (by omega), Nat.add_sub_cancel] at hread
        cases he : h.node.storage.entries[h.enqueuedIdx]? with
        | none =>
            rw [he] at hread
            cases hread
        | some e =>
            rw [he] at hread
            obtain rfl := Except.ok.inj hread
            have heq : h.drain ci err =
                { h with applyCh := h.applyCh ++ [e], enqueuedIdx := h.enqueuedIdx + 1 } := by
              simp only [drain, if_neg hlt, hget]
            rw [heq]
            exact .enqueued e ci rfl (by simp only [enqueues, hrun, hf, if_neg hlt, hget]) rfl hf
              (by omega) he rfl rfl

lemma afterStep_same {h : Host ρ} {m : Message} {env : Env} :
    (h.afterStep (h.node.step env m)).pipeline = h.pipeline ∧
      (h.afterStep (h.node.step env m)).node.storage.snap = h.node.storage.snap := by
  cases hstep : h.node.step env m with
  | none => exact ⟨rfl, rfl⟩
  | some r =>
      refine ⟨rfl, ?_⟩
      show r.1.storage.snap = _
      cases hst : h.node.started with
      | false =>
          rw [Node.step, hst] at hstep
          cases hstep
          rfl
      | true =>
          have hn := Node.handled_of_step (r := r.2) hst hstep
          exact (Node.follows_of_step (fun _ _ => rfl) hn).snap

lemma propose_same (h : Host ρ) (data : Data) (env : Env) :
    (h.propose env data).pipeline = h.pipeline ∧
      (h.propose env data).node.storage.snap = h.node.storage.snap := by
  unfold propose
  split_ifs with hstop hrole
  · exact ⟨rfl, rfl⟩
  · exact ⟨rfl, rfl⟩
  · rcases h.node.proposeLocked_cases env data (not_not.mp hrole) with
      ⟨s, -, happ, heq⟩ | ⟨err, -, heq⟩
    · rw [heq]
      exact ⟨rfl, (Node.follows_of_proposed "" happ).snap⟩
    · rw [heq]
      exact ⟨rfl, rfl⟩

lemma Fires.applyMove {cfg : Config} {h h' : Host ρ} {a : Act ρ} {out : List Message}
    (hfires : Fires cfg h a h' out) : ApplyMove cfg h a h' := by
  cases hfires with
  | idle hre henq happ => exact .same hre henq happ rfl rfl
  | restart draw restore hre ha hnew =>
      rcases ha with ⟨rfl, rfl⟩ | ⟨m, start, rfl, -, hs⟩
      · exact .rebooted _ draw restore hre (.inl rfl) rfl hnew
      · exact .rebooted _ draw restore hre (.inr ⟨m, rfl⟩) (Node.storage_truncateSuffix_hs hs).2
          hnew
  | step | tick => exact .same rfl rfl rfl afterStep_same.1 afterStep_same.2
  | @propose data env =>
      exact .same rfl rfl rfl (propose_same h data env).1 (propose_same h data env).2
  | drain hrun hf => exact applyMove_drain hrun hf _
  | applyCall hrun hidle hch =>
      exact .applying _ _ _ rfl rfl (by simp [applies, hrun, hidle, hch]) rfl hidle hch rfl rfl
  | @applyDone e out hrun hbusy =>
      obtain ⟨heq, hap⟩ := h.applyDone_pipeline e out
      exact .finished e out _ rfl rfl rfl rfl hrun hbusy hap (h.applyDone_core e out).1 heq
  | checkpoint hrun hrest => exact applyMove_checkpoint hrun hrest
  | ready | save | saveNone | saveFailed | send | drainBegin | receive | cancel | stop =>
      exact .same rfl rfl rfl rfl rfl

/-- Every act is one of these moves. -/
theorem applyMove_of_act (cfg : Config) (h : Host ρ) (a : Act ρ) :
    ApplyMove cfg h a (h.act cfg a).1 :=
  (fires_of_act cfg h a).applyMove

end Host

end ToyRaft
