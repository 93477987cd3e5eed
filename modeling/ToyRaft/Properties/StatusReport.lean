import ToyRaft.Properties.ApplyOrder

/-!
# What `Status` reports (`status.go`, `node_public.go`)

`Status` copies most of its fields under the lock of the core and reads `appliedIdx` after it
has released it.  `Host.status` therefore takes two hosts: the one that is copied, and the
same node at the later moment of the second read.

`LastLogIndex ≥ CommitIndex` always holds.  `CommitIndex ≥ ApplyIndex` holds exactly if the
snapshot the lifetime started from is not ahead of the commit index that is copied, and no
entry above that commit index is finished before the second read
(`Trace.applied_le_commit_iff`).  Neither is guaranteed.  The applier does not wait for a
`Status` in progress, and the snapshot of an entry can be stored before the hard state that
commits it: `flush` reads the commit index to drain after it has saved the hard state
(`status_inconsistent`).
-/

namespace ToyRaft

/-- `Status`. -/
structure Status where
  role : Role
  term : ℕ
  commitIndex : ℕ
  applyIndex : ℕ
  lastLogIndex : ℕ
  leaderHint : NodeID
  /-- `nil` on everyone but the leader. -/
  matchIndex : Option PeerMap

namespace Host

variable {ρ : Type}

/-- `Status`: `h` is copied under the lock, and `later` is the node when `appliedIdx` is read. -/
def status (h later : Host ρ) : Status where
  role := h.node.role
  term := h.node.currentTerm
  commitIndex := h.node.commitIndex
  lastLogIndex := h.node.log.lastIndex
  leaderHint := h.node.leaderHint
  matchIndex := if h.node.role = .leader then some h.node.matchIndex else none
  applyIndex := later.appliedIdx

/-- The entry `applyOne` is done with after this act. -/
def finishes (h : Host ρ) : Act ρ → Option Entry
  | .applyDone =>
      match h.crashed, h.applier with
      | false, .applied e _ => some e
      | _, _ => none
  | _ => none

lemma finishes_eq_some {h : Host ρ} {a : Act ρ} {e : Entry} (hf : h.finishes a = some e) :
    a = .applyDone ∧ h.crashed = false ∧ ∃ out, h.applier = .applied e out := by
  unfold finishes at hf
  split at hf
  · split at hf
    · rename_i out hrun hap
      cases hf
      exact ⟨rfl, hrun, out, hap⟩
    · cases hf
  · cases hf

/-- Nothing at or below the snapshot a lifetime started from is applied in it. -/
lemma Deeds.Kept.floor_le {d : Deeds} {h : Host ρ} (hk : d.Kept h) : d.floor ≤ h.appliedIdx := by
  by_cases hb : Busy h.applier
  · obtain ⟨e, out, hb⟩ := hb
    obtain ⟨before, -, hdone⟩ := hk.busy e out hb
    omega
  · have hdone := hk.resting hb
    omega

lemma Deeds.Kept.applied_le {d : Deeds} {h : Host ρ} (hk : d.Kept h) :
    h.appliedIdx ≤ max d.floor h.node.commitIndex := by
  have hle : h.appliedIdx ≤ d.floor + d.applied.length := by
    by_cases hb : Busy h.applier
    · obtain ⟨e, out, hb⟩ := hb
      obtain ⟨before, hbefore, hdone⟩ := hk.busy e out hb
      rw [hdone, hbefore, List.length_append]
      omega
    · exact (hk.resting hb).le
  have hlen : d.applied.length ≤ d.enqueued.length := by
    rw [hk.channel, List.length_append]
    exact Nat.le_add_right _ _
  by_cases hnil : d.enqueued = []
  · rw [hnil] at hlen
    exact le_max_of_le_left (hle.trans (by simpa using hlen))
  · have hfront := hk.frontier
    exact le_max_of_le_right (by have := hk.committed hnil; omega)

namespace Trace

variable {cfg : Config} (τ : Trace ρ cfg)

/-- Within a lifetime the applied index moves only when an entry is finished, and then by
one. -/
lemma applied_succ {t : ℕ} (h : ¬ τ.RebootsAt t) :
    (τ.host (t + 1)).appliedIdx = (τ.host t).appliedIdx ∨
      ∃ a ∈ τ.act t, ∃ e ∈ (τ.host t).finishes a,
        (τ.host (t + 1)).appliedIdx = e.index ∧ e.index = (τ.host t).appliedIdx + 1 := by
  cases ha : τ.act t with
  | none =>
      rw [τ.idle t ha]
      exact .inl rfl
  | some a =>
      have hmove := applyMove_of_act cfg (τ.host t) a
      rw [← τ.acts t a ha] at hmove
      cases hmove with
      | same _ _ _ heq => exact .inl (pipeline_eq_iff.mp heq).2.2.2
      | enqueued _ _ _ _ _ _ _ _ _ heq | applying _ _ _ _ _ _ _ _ _ _ heq
      | checkpointed _ _ _ _ _ _ _ _ _ _ heq => exact .inl (pipeline_eq_iff.mp heq).2.2.2
      | finished e out _ _ _ _ hdone hrun hbusy _ _ heq =>
          refine .inr ⟨a, rfl, e, ?_, (pipeline_eq_iff.mp heq).2.2.2,
            (τ.kept t).busy_index (τ.tidy t).shaped.contiguous hbusy⟩
          subst hdone
          simp [finishes, hrun, hbusy]
      | rebooted _ _ _ hre => exact (h ⟨a, ha, hre⟩).elim

lemma applied_mono {s t : ℕ} (h : τ.SameLife s t) :
    (τ.host s).appliedIdx ≤ (τ.host t).appliedIdx := by
  refine h.rel (R := fun u v => (τ.host u).appliedIdx ≤ (τ.host v).appliedIdx) (fun _ => le_rfl)
    (fun _ _ _ => le_trans) fun u hu => ?_
  rcases τ.applied_succ hu with heq | ⟨_, _, e, _, heq, hnext⟩ <;> omega

/-- No entry above index `c` is finished between moments `s` and `t`. -/
def AppliesUpTo (c s t : ℕ) : Prop :=
  ∀ u < t, s ≤ u → ∀ a ∈ τ.act u, ∀ e ∈ (τ.host u).finishes a, e.index ≤ c

instance (c s t : ℕ) : Decidable (τ.AppliesUpTo c s t) :=
  inferInstanceAs (Decidable (∀ u < t, s ≤ u → ∀ a ∈ τ.act u, ∀ e ∈ (τ.host u).finishes a, _))

/-- The applied index stays at or below `c` exactly if no entry above `c` is finished. -/
lemma applied_le_iff {s t c : ℕ} (h : τ.SameLife s t) :
    (τ.host t).appliedIdx ≤ c ↔ (τ.host s).appliedIdx ≤ c ∧ τ.AppliesUpTo c s t := by
  constructor
  · intro hle
    refine ⟨(τ.applied_mono h).trans hle, fun u hut hsu a ha e he => ?_⟩
    obtain ⟨rfl, hrun, out, hbusy⟩ := finishes_eq_some he
    have hnext := (τ.applyDone_index ha hrun hbusy).1
    have hrest : τ.SameLife (u + 1) t := ⟨hut, fun v huv hvt => h.2 v (by omega) hvt⟩
    have hmono := τ.applied_mono hrest
    omega
  · rintro ⟨hbase, hup⟩
    obtain ⟨hst, hlife⟩ := h
    induction t, hst using Nat.le_induction with
    | base => exact hbase
    | succ t hst ih =>
        have hold := ih (fun u hut => hup u (by omega)) fun u hsu hut => hlife u hsu (by omega)
        rcases τ.applied_succ (hlife t hst (Nat.lt_succ_self t)) with heq | ⟨a, ha, e, he, heq, -⟩
        · omega
        · rw [heq]
          exact hup t (Nat.lt_succ_self t) hst a ha e he

/-- When the commit index copied at `s` bounds the applied index read at `t`. -/
theorem applied_le_commit_iff {s t : ℕ} (h : τ.SameLife s t) :
    (τ.host t).appliedIdx ≤ (τ.host s).node.commitIndex ↔
      (τ.deeds s).floor ≤ (τ.host s).node.commitIndex ∧
        τ.AppliesUpTo (τ.host s).node.commitIndex s t := by
  rw [τ.applied_le_iff h]
  refine and_congr_left fun _ => ⟨(τ.kept s).floor_le.trans, fun hfloor => ?_⟩
  exact (τ.kept s).applied_le.trans (max_le hfloor le_rfl)

end Trace

end Host

namespace Cluster

variable {ρ : Type} (C : Cluster)

/-- **`Status` is self-consistent** if the commit index it copies has reached the snapshot the
lifetime started from, and no entry above that commit index is finished before `appliedIdx`
is read. -/
theorem status_selfConsistent (ev : ℕ → Event ρ) {i : NodeID} (hi : i ∈ C.peers) {s t : ℕ}
    (hlife : (C.trace ev hi).SameLife s t)
    (hfloor : ((C.trace ev hi).deeds s).floor ≤ ((C.trace ev hi).host s).node.commitIndex)
    (hup : (C.trace ev hi).AppliesUpTo ((C.trace ev hi).host s).node.commitIndex s t) :
    let st := ((C.trace ev hi).host s).status ((C.trace ev hi).host t)
    st.applyIndex ≤ st.commitIndex ∧ st.commitIndex ≤ st.lastLogIndex := by
  refine ⟨((C.trace ev hi).applied_le_commit_iff hlife).mpr ⟨hfloor, hup⟩, ?_⟩
  have hshape := ((C.trace ev hi).tidy s).shaped
  show _ ≤ ((C.trace ev hi).host s).node.log.lastIndex
  rw [Log.lastIndex_eq_length hshape.contiguous]
  exact hshape.commit_le

/-- One command is committed in the middle of a `flush`, after its hard state is saved, and
applied; the node is stopped, which takes a snapshot, and starts again. -/
def snapshotAheadOfCommit : List (Act Unit) :=
  [.tick {}, .tick {}, .tick {}, .ready, .save false, .propose [1] {}, .drainBegin, .drain false,
    .drain false, .applyCall (.returned none none), .applyDone, .stop,
    .checkpoint (.taken [1] 1) false, .restart 0 .restored]

/-- What a node on its own goes through then. -/
def aheadTrace : Host.Trace Unit (solo.cfg "a") :=
  solo.trace (fun t => ⟨"a", Machine.schedule .ready snapshotAheadOfCommit t⟩) (by decide)

lemma aheadTrace_sameLife : aheadTrace.SameLife 5 11 := by
  have hnone : ∀ u < 11, ∀ a ∈ aheadTrace.act u,
      (aheadTrace.host u).reboots (solo.cfg "a") a = false := by
    decide +kernel
  refine ⟨by decide, fun u _ hu => ?_⟩
  rintro ⟨a, ha, hre⟩
  rw [hnone u hu a ha] at hre
  cases hre

theorem status_selfConsistent_oneCommand :
    let st := (aheadTrace.host 6).status (aheadTrace.host 11)
    st.applyIndex = 1 ∧ st.applyIndex ≤ st.commitIndex ∧ st.commitIndex ≤ st.lastLogIndex := by
  have hlife : aheadTrace.SameLife 6 11 :=
    ⟨by decide, fun u hu => aheadTrace_sameLife.2 u (by omega)⟩
  exact ⟨by decide +kernel, solo.status_selfConsistent _ (by decide) hlife (by decide +kernel)
    (by decide +kernel)⟩

/-- Two ways to a `Status` whose `ApplyIndex` is above its `CommitIndex`: the command is
committed and applied between the two reads, and the node starts from a snapshot that is ahead
of the stored commit index. -/
theorem status_inconsistent :
    let torn := (aheadTrace.host 5).status (aheadTrace.host 11)
    let restarted := (aheadTrace.host 14).status (aheadTrace.host 14)
    (aheadTrace.SameLife 5 11 ∧ torn.commitIndex = 0 ∧ torn.applyIndex = 1) ∧
      aheadTrace.RebootsAt 13 ∧ restarted.commitIndex = 0 ∧ restarted.applyIndex = 1 := by
  intro torn restarted
  exact ⟨⟨aheadTrace_sameLife, by decide +kernel, by decide +kernel⟩,
    ⟨.restart 0 .restored, by rfl, by decide +kernel⟩, by decide +kernel, by decide +kernel⟩

end Cluster

end ToyRaft
