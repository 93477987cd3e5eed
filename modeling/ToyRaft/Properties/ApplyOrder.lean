import ToyRaft.Properties.HostTrace
import ToyRaft.Runtime.Seam

/-!
# Exactly-once, in-order apply

`Deeds` records what a lifetime of a host has done: the index of the snapshot `New` loaded,
the entries handed to the apply channel, and the entries on which `Apply` was called.  The
invariant (`Deeds.Kept`) ties the record to the four pieces of state the driver and the
applier advance independently: what has been enqueued stands in the log right above the
snapshot, what has been applied is what has been enqueued and is no longer in the channel,
and the two frontiers count them.

It holds in every run in which the log writes of the storage succeed, because a write never
reaches an index at or below the commit index: it panics instead, and the lifetime is over.
The synchronous test driver (`Seam`) has no channel, and keeps the same invariant without it.
-/

namespace ToyRaft

/-- Entries in a row, from position `floor` of the log on, stay there if the log keeps its
part up to their end. -/
lemma prefix_drop_of_take_eq {l l' : Log} {es : List Entry} {floor k : ℕ}
    (h : es <+: l.drop floor) (htake : l'.take k = l.take k) (hk : floor + es.length ≤ k) :
    es <+: l'.drop floor := by
  have hcut : l'.take (floor + es.length) = l.take (floor + es.length) := by
    have := congrArg (List.take (floor + es.length)) htake
    rwa [List.take_take, List.take_take, Nat.min_eq_left hk] at this
  rw [List.prefix_iff_eq_take, List.take_drop] at h ⊢
  rw [hcut]
  exact h

lemma prefix_drop_concat {l : Log} {es : List Entry} {e : Entry} {floor : ℕ}
    (h : es <+: l.drop floor) (he : l[floor + es.length]? = some e) :
    es ++ [e] <+: l.drop floor := by
  obtain ⟨rest, hrest⟩ := h
  have hhead : rest.head? = some e := by
    rw [← List.getElem?_drop, ← hrest, List.getElem?_append_right le_rfl, Nat.sub_self] at he
    rw [List.head?_eq_getElem?]
    exact he
  cases rest with
  | nil => cases hhead
  | cons e' rest =>
      obtain rfl := Option.some.inj hhead
      exact ⟨rest, by rw [← hrest, List.append_assoc]; rfl⟩

/-- The last of a row of entries carries the index of its place. -/
lemma index_of_prefix_drop {l : Log} {es : List Entry} {e : Entry} {floor : ℕ}
    (hl : l.Contiguous) (h : es ++ [e] <+: l.drop floor) : e.index = floor + es.length + 1 := by
  have hget : (l.drop floor)[es.length]? = some e := by
    obtain ⟨rest, hrest⟩ := h
    rw [← hrest, List.append_assoc, List.getElem?_append_right le_rfl, Nat.sub_self]
    rfl
  rw [List.getElem?_drop] at hget
  have := hl _ _ hget
  omega

/-- The commit index does not go back, and the log below it stays. -/
structure KeepsCommitted (n n' : Node) : Prop where
  mono : n.commitIndex ≤ n'.commitIndex
  take : n'.log.take n.commitIndex = n.log.take n.commitIndex

lemma KeepsCommitted.trans {n n' n'' : Node} (h : KeepsCommitted n n')
    (h' : KeepsCommitted n' n'') : KeepsCommitted n n'' where
  mono := h.mono.trans h'.mono
  take := by
    have hcut := congrArg (List.take n.commitIndex) h'.take
    rw [List.take_take, List.take_take, Nat.min_eq_left h.mono] at hcut
    rw [hcut, h.take]

namespace Host

variable {ρ : Type}

/-- A restart that does not come back leaves the host as it was. -/
lemma act_of_not_reboots {cfg : Config} {h : Host ρ} {a : Act ρ} (ha : a.restarts = true)
    (hre : h.reboots cfg a = false) : (h.act cfg a).1 = h := by
  have hfires := fires_of_act cfg h a
  generalize (h.act cfg a).1 = h', (h.act cfg a).2 = out at hfires ⊢
  cases hfires with
  | idle => rfl
  | restart _ _ hre' =>
      rw [hre] at hre'
      cases hre'
  | _ => cases ha

/-- Within a lifetime the commit index does not go back, and the log below it stays. -/
lemma Tidy.committed {cfg : Config} {h : Host ρ} {a : Act ρ} (ht : h.Tidy)
    (hfault : a.logFaultless = true)
    (hm : ∀ m ∈ a.inbound, m.type = .appendEntries → m.WellFormedAppend)
    (hre : h.reboots cfg a = false) : KeepsCommitted h.node (h.act cfg a).1.node := by
  cases ha : a.restarts with
  | true =>
      rw [act_of_not_reboots ha hre]
      exact ⟨le_rfl, rfl⟩
  | false =>
      have hmove := move_of_act cfg h a
      refine ⟨(hmove.shaped hfault hm ht.shaped ht.stored).2 ha, ?_⟩
      exact hmove.log_take hfault hm ht.shaped ht.shaped.commit_le
        fun _ hw => commit_lt_writesFrom ht.shaped hw

/-! ## What a lifetime has done -/

/-- What a lifetime of a host has done so far. -/
structure Deeds where
  /-- The index of the snapshot `New` loaded. -/
  floor : ℕ
  /-- The entries handed to the apply channel. -/
  enqueued : List Entry := []
  /-- The entries on which `Apply` was called. -/
  applied : List Entry := []

/-- What a lifetime has applied is not taken back. -/
structure Deeds.Grows (d d' : Deeds) : Prop where
  floor : d'.floor = d.floor
  applied : d.applied <+: d'.applied

lemma Deeds.Grows.trans {d d' d'' : Deeds} (h : d.Grows d') (h' : d'.Grows d'') : d.Grows d'' :=
  ⟨h'.floor.trans h.floor, h.applied.trans h'.applied⟩

/-- The record and the state of the host agree. -/
structure Deeds.Kept (d : Deeds) (h : Host ρ) : Prop where
  inLog : d.enqueued <+: h.node.log.drop d.floor
  frontier : h.enqueuedIdx = d.floor + d.enqueued.length
  committed : d.enqueued ≠ [] → h.enqueuedIdx ≤ h.node.commitIndex
  channel : d.enqueued = d.applied ++ h.applyCh
  resting : ¬ Busy h.applier → h.appliedIdx = d.floor + d.applied.length
  busy : ∀ e out, h.applier = .applied e out →
    ∃ before, d.applied = before ++ [e] ∧ h.appliedIdx = d.floor + before.length

lemma Deeds.Kept.busy_index {d : Deeds} {h : Host ρ} {e : Entry} {out : ApplyOutcome ρ}
    (hk : d.Kept h) (hc : Log.Contiguous h.node.log) (hb : h.applier = .applied e out) :
    e.index = h.appliedIdx + 1 := by
  obtain ⟨before, hbefore, hdone⟩ := hk.busy e out hb
  have hrow : before ++ [e] <+: h.node.log.drop d.floor := by
    rw [← hbefore]
    refine List.IsPrefix.trans ?_ hk.inLog
    rw [hk.channel]
    exact List.prefix_append _ _
  rw [index_of_prefix_drop hc hrow, hdone]

lemma Deeds.kept_of_new {cfg : Config} {s : Storage} {draw : ℕ} {restore : RestoreOutcome}
    {h : Host ρ} (hnew : new cfg s draw restore = .ok h) :
    Deeds.Kept { floor := h.node.storage.snap.index } h := by
  obtain ⟨hap, hch, henq, hdone⟩ := pipeline_eq_iff.mp (pipeline_of_new hnew)
  have hst := (new_cases hnew).1.storage
  refine ⟨List.nil_prefix, ?_, fun hne => (hne rfl).elim, ?_, fun _ => ?_, fun e out hb => ?_⟩
  · rw [henq, hst]
    rfl
  · rw [hch]
    rfl
  · rw [hdone, hst]
    rfl
  · rw [hap] at hb
    cases hb

/-- What a step that does not reboot the host adds to the record. -/
def Deeds.after (d : Deeds) (h : Host ρ) (a : Act ρ) : Deeds where
  floor := d.floor
  enqueued := d.enqueued ++ (h.enqueues a).toList
  applied := d.applied ++ (h.applies a).toList

/-- The record survives whatever happens to the log above the commit index. -/
lemma Deeds.Kept.inLog_of_take {d : Deeds} {h h' : Host ρ} (hk : d.Kept h)
    (htake : h'.node.log.take h.node.commitIndex = h.node.log.take h.node.commitIndex) :
    d.enqueued <+: h'.node.log.drop d.floor := by
  by_cases hne : d.enqueued = []
  · rw [hne]
    exact List.nil_prefix
  · have hle := hk.committed hne
    rw [hk.frontier] at hle
    exact prefix_drop_of_take_eq hk.inLog htake hle

/-- A step within a lifetime keeps the record. -/
theorem Deeds.Kept.act {cfg : Config} {d : Deeds} {h : Host ρ} {a : Act ρ} (hk : d.Kept h)
    (ht : h.Tidy) (hfault : a.logFaultless = true)
    (hm : ∀ m ∈ a.inbound, m.type = .appendEntries → m.WellFormedAppend)
    (hre : h.reboots cfg a = false) : (d.after h a).Kept (h.act cfg a).1 := by
  obtain ⟨hmono, htake⟩ := ht.committed hfault hm hre
  have hlog := hk.inLog_of_take htake
  have hmove := applyMove_of_act cfg h a
  generalize (h.act cfg a).1 = h' at hmono htake hlog hmove
  have hcommitted : h'.enqueuedIdx = h.enqueuedIdx → d.enqueued ≠ [] →
      h'.enqueuedIdx ≤ h'.node.commitIndex := by
    intro hfront hne
    rw [hfront]
    exact (hk.committed hne).trans hmono
  cases hmove with
  | same _ henq happ heq _ =>
      obtain ⟨hap, hch, hfront, hdone⟩ := pipeline_eq_iff.mp heq
      rw [after, henq, happ]
      simp only [Option.toList_none, List.append_nil]
      refine ⟨hlog, by rw [hfront, hk.frontier], hcommitted hfront, by rw [hch]; exact hk.channel,
        ?_, ?_⟩
      · rw [hap, hdone]
        exact hk.resting
      · rw [hap, hdone]
        exact hk.busy
  | enqueued e ci _ henq happ hf hle he hnode heq =>
      obtain ⟨hap, hch, hfront, hdone⟩ := pipeline_eq_iff.mp heq
      rw [after, henq, happ]
      simp only [Option.toList_none, Option.toList_some, List.append_nil]
      have hnext : h'.node.log[d.floor + d.enqueued.length]? = some e := by
        rw [hnode, ← hk.frontier, ← ht.shaped.mirrored]
        exact he
      refine ⟨prefix_drop_concat hlog hnext, ?_, fun _ => ?_, ?_, ?_, ?_⟩
      · rw [hfront, hk.frontier, List.length_append]
        rfl
      · rw [hfront]
        exact (hle.trans (ht.draining ci hf)).trans hmono
      · rw [hch, ← List.append_assoc, ← hk.channel]
      · rw [hap, hdone]
        exact hk.resting
      · rw [hap, hdone]
        exact hk.busy
  | applying e rest out _ henq happ _ hidle hchan hnode heq =>
      obtain ⟨hap, hch, hfront, hdone⟩ := pipeline_eq_iff.mp heq
      have hrest := hk.resting (not_busy_of_idle hidle)
      rw [after, henq, happ]
      simp only [Option.toList_none, Option.toList_some, List.append_nil]
      refine ⟨hlog, by rw [hfront, hk.frontier], hcommitted hfront, ?_, fun hb => ?_, ?_⟩
      · rw [hch, List.append_assoc, List.singleton_append, ← hchan]
        exact hk.channel
      · exact (hb ⟨e, out, hap⟩).elim
      · intro e' out' hb
        rw [hap] at hb
        cases hb
        exact ⟨d.applied, rfl, by rw [hdone, hrest]⟩
  | finished e out ap _ henq happ _ _ hbusy hap' hnode heq =>
      obtain ⟨hap, hch, hfront, hdone⟩ := pipeline_eq_iff.mp heq
      obtain ⟨before, hbefore, hdone'⟩ := hk.busy e out hbusy
      rw [after, henq, happ]
      simp only [Option.toList_none, List.append_nil]
      refine ⟨hlog, by rw [hfront, hk.frontier], hcommitted hfront, by rw [hch]; exact hk.channel,
        fun _ => ?_, fun e' out' hb => ?_⟩
      · -- the entry in the applier's hands is the last one of the record
        rw [hdone, hk.busy_index ht.shaped.contiguous hbusy, hdone', hbefore, List.length_append]
        rfl
      · rw [hap] at hb
        exact (hap' ⟨e', out', hb⟩).elim
  | checkpointed out err _ henq happ _ _ hrest _ _ heq =>
      obtain ⟨hap, hch, hfront, hdone⟩ := pipeline_eq_iff.mp heq
      have hrest := not_busy_of_checkpoint hrest
      rw [after, henq, happ]
      simp only [Option.toList_none, List.append_nil]
      refine ⟨hlog, by rw [hfront, hk.frontier], hcommitted hfront, by rw [hch]; exact hk.channel,
        fun _ => by rw [hdone]; exact hk.resting hrest, fun e' out' hb => ?_⟩
      rw [hap] at hb
      cases hb
  | rebooted _ _ _ hre' =>
      rw [hre] at hre'
      cases hre'

namespace Trace

variable {cfg : Config} (τ : Trace ρ cfg)

/-- What the lifetime of moment `t` has done so far. -/
def deeds : ℕ → Deeds
  | 0 => { floor := (τ.host 0).node.storage.snap.index }
  | t + 1 =>
      match τ.act t with
      | none => deeds t
      | some a =>
          if (τ.host t).reboots cfg a then { floor := (τ.host (t + 1)).node.storage.snap.index }
          else (deeds t).after (τ.host t) a

/-- The record agrees with the host at every moment. -/
theorem kept (t : ℕ) : (τ.deeds t).Kept (τ.host t) := by
  induction t with
  | zero =>
      obtain ⟨draw, hnew⟩ := τ.starts
      exact Deeds.kept_of_new hnew
  | succ t ih =>
      rw [deeds]
      cases ha : τ.act t with
      | none =>
          rw [τ.idle t ha]
          exact ih
      | some a =>
          have hhost := τ.acts t a ha
          dsimp only
          split_ifs with hre
          · have hmove := applyMove_of_act cfg (τ.host t) a
            rw [← hhost] at hmove
            cases hmove with
            | rebooted s draw restore _ _ _ hnew => exact Deeds.kept_of_new hnew
            | same hre' | enqueued _ _ hre' | applying _ _ _ hre' | finished _ _ _ hre'
            | checkpointed _ _ hre' =>
                rw [hre] at hre'
                cases hre'
          · rw [hhost]
            exact ih.act (τ.tidy t) (τ.permitted t a ha).1 (τ.permitted t a ha).2
              (by simpa using hre)

lemma deeds_succ {t : ℕ} (h : ¬ τ.RebootsAt t) :
    (τ.deeds t).Grows (τ.deeds (t + 1)) := by
  rw [deeds]
  cases ha : τ.act t with
  | none => exact ⟨rfl, List.prefix_refl _⟩
  | some a =>
      dsimp only
      rw [if_neg fun hre => h ⟨a, ha, hre⟩]
      exact ⟨rfl, List.prefix_append _ _⟩

lemma committed_succ {t : ℕ} (h : ¬ τ.RebootsAt t) :
    KeepsCommitted (τ.host t).node (τ.host (t + 1)).node := by
  cases ha : τ.act t with
  | none =>
      rw [τ.idle t ha]
      exact ⟨le_rfl, rfl⟩
  | some a =>
      have hre : (τ.host t).reboots cfg a = false := by
        cases hre : (τ.host t).reboots cfg a with
        | false => rfl
        | true => exact (h ⟨a, ha, hre⟩).elim
      rw [τ.acts t a ha]
      exact (τ.tidy t).committed (τ.permitted t a ha).1 (τ.permitted t a ha).2 hre

/-- Entries are applied exactly once and in order. -/
structure AppliesInOrder : Prop where
  /-- What a lifetime has enqueued are the entries of the log right above the snapshot, and
  they stay there for the rest of the lifetime. -/
  inLog : ∀ s t, τ.SameLife s t →
    (τ.deeds s).enqueued <+: (τ.host t).node.log.drop (τ.deeds s).floor
  /-- The entries on which `Apply` is called are the enqueued ones, in that order. -/
  inOrder : ∀ t, (τ.deeds t).applied <+: (τ.deeds t).enqueued
  /-- What has been applied is not taken back within the lifetime. -/
  grows : ∀ s t, τ.SameLife s t → (τ.deeds s).Grows (τ.deeds t)
  /-- An entry is committed when it is enqueued. -/
  committed : ∀ t a e, τ.act t = some a → (τ.host t).enqueues a = some e →
    e.index ≤ (τ.host t).node.commitIndex
  /-- `applyOne` leaves the index of its entry in `appliedIdx`, and that entry is the last one
  applied. -/
  appliedIdx : ∀ t e out, τ.act t = some .applyDone → (τ.host t).crashed = false →
    (τ.host t).applier = .applied e out →
    (τ.host (t + 1)).appliedIdx = e.index ∧ (τ.deeds (t + 1)).applied.getLast? = some e ∧
      e.index = (τ.deeds (t + 1)).floor + (τ.deeds (t + 1)).applied.length

/-- An entry that is enqueued continues the row, so it carries the next index. -/
lemma enqueues_index {t : ℕ} {a : Act ρ} {e : Entry} (ha : τ.act t = some a)
    (he : (τ.host t).enqueues a = some e) : e.index ≤ (τ.host t).node.commitIndex := by
  have hmove := applyMove_of_act cfg (τ.host t) a
  cases hmove with
  | enqueued e' ci _ henq _ hf hle hget _ _ =>
      obtain rfl := Option.some.inj (he.symm.trans henq)
      have hshape := (τ.tidy t).shaped
      rw [hshape.mirrored] at hget
      have hidx := hshape.contiguous _ _ hget
      have hci := (τ.tidy t).draining ci hf
      omega
  | same _ henq | applying _ _ _ _ henq | finished _ _ _ _ henq | checkpointed _ _ _ henq =>
      rw [he] at henq
      cases henq
  | rebooted s draw restore _ harestart =>
      rcases harestart with rfl | ⟨m, rfl⟩ <;> cases he

lemma applyDone_index {t : ℕ} {e : Entry} {out : ApplyOutcome ρ}
    (ha : τ.act t = some .applyDone) (hrun : (τ.host t).crashed = false)
    (hbusy : (τ.host t).applier = .applied e out) :
    (τ.host (t + 1)).appliedIdx = e.index ∧ (τ.deeds (t + 1)).applied.getLast? = some e ∧
      e.index = (τ.deeds (t + 1)).floor + (τ.deeds (t + 1)).applied.length := by
  have hhost : τ.host (t + 1) = (τ.host t).applyDone e out := by
    rw [τ.acts t _ ha]
    simp [Host.act, hrun, hbusy]
  obtain ⟨heq, hrest⟩ := (τ.host t).applyDone_pipeline e out
  obtain ⟨-, -, -, hdone⟩ := pipeline_eq_iff.mp heq
  rw [← hhost] at hdone hrest
  have hdeeds : τ.deeds (t + 1) = τ.deeds t := by
    rw [deeds, ha]
    show (τ.deeds t).after (τ.host t) .applyDone = _
    simp [Deeds.after, enqueues, applies]
  obtain ⟨before, hbefore, -⟩ := (τ.kept t).busy e out hbusy
  refine ⟨hdone, ?_, ?_⟩
  · rw [hdeeds, hbefore]
    exact List.getLast?_concat
  · rw [← hdone]
    exact (τ.kept (t + 1)).resting hrest

theorem appliesInOrder : τ.AppliesInOrder where
  inLog s t h := by
    have hkeeps := h.rel (R := fun u v => KeepsCommitted (τ.host u).node (τ.host v).node)
      (fun _ => ⟨le_rfl, rfl⟩) (fun _ _ _ => .trans) fun _ => τ.committed_succ
    exact (τ.kept s).inLog_of_take hkeeps.take
  inOrder t := by
    rw [(τ.kept t).channel]
    exact List.prefix_append _ _
  grows s t h := h.rel (R := fun u v => (τ.deeds u).Grows (τ.deeds v))
    (fun _ => ⟨rfl, List.prefix_refl _⟩) (fun _ _ _ => .trans) fun _ => τ.deeds_succ
  committed _ _ _ ha he := τ.enqueues_index ha he
  appliedIdx _ _ _ ha hrun hbusy := τ.applyDone_index ha hrun hbusy

end Trace

end Host

/-! ## The synchronous driver -/

namespace Seam

variable {ρ : Type}

/-- A step of the synchronous driver keeps the host tidy, and hands over well-formed messages
only. -/
theorem tidy_drive {cfg : Config} {s : Seam ρ} {d : Drive ρ} (ht : s.host.Tidy)
    (hfault : d.logFaultless = true)
    (hm : ∀ m ∈ d.inbound, m.type = .appendEntries → m.WellFormedAppend) :
    (s.drive cfg d).1.host.Tidy ∧
      ∀ x ∈ (s.drive cfg d).2, x.type = .appendEntries → x.WellFormedAppend := by
  have hmove := driveMove_of_drive cfg s d
  generalize (s.drive cfg d).1 = s' at hmove
  generalize (s.drive cfg d).2 = sent at hmove
  cases hmove with
  | same _ _ heq hsent =>
      rw [heq, hsent]
      exact ⟨ht, fun x hx => by cases hx⟩
  | shared a ha _ hhost _ hsent =>
      subst ha
      rw [hhost, hsent]
      exact ht.act hfault hm
  | begun _ _ hf _ hhost _ hsent =>
      rw [hhost, hsent]
      have hout := ht.outgoing
      unfold Host.outgoing at hout
      rw [hf] at hout
      refine ⟨⟨ht.shaped, ht.stored, ?_, ht.pending, ?_, hout⟩, fun x hx => by cases hx⟩
      · exact fun hs hhs => by cases hhs
      · exact fun ci hci => by cases hci
  | applying _ _ _ _ _ _ _ _ _ _ hhost _ hsent =>
      rw [hhost, hsent]
      exact ⟨{ ht with }, fun x hx => by cases hx⟩
  | ended _ _ _ hhost _ hsent =>
      rw [hhost, hsent]
      exact ⟨ht, fun x hx => by cases hx⟩

/-- The entries a lifetime has applied, and the state of the driver, agree. -/
structure Kept (floor : ℕ) (applied : List Entry) (s : Seam ρ) : Prop where
  inLog : applied <+: s.host.node.log.drop floor
  committed : applied ≠ [] → floor + applied.length ≤ s.host.node.commitIndex
  loop : ∀ i ci, s.loop = some (i, ci) →
    i = floor + applied.length + 1 ∧ ci ≤ s.host.node.commitIndex
  running : Host.Busy s.host.applier → s.loop ≠ none
  resting : ¬ Host.Busy s.host.applier → s.host.appliedIdx = floor + applied.length
  busy : ∀ e out, s.host.applier = .applied e out →
    ∃ before, applied = before ++ [e] ∧ s.host.appliedIdx = floor + before.length

lemma kept_of_new {cfg : Config} {st : Storage} {draw : ℕ} {restore : RestoreOutcome}
    {s : Seam ρ} (hnew : Host.new cfg st draw restore = .ok s.host) (hloop : s.loop = none) :
    Kept s.host.node.storage.snap.index [] s := by
  obtain ⟨hap, -, -, hdone⟩ := Host.pipeline_eq_iff.mp (Host.pipeline_of_new hnew)
  have hst := (Host.new_cases hnew).1.storage
  refine ⟨List.nil_prefix, fun hne => (hne rfl).elim, fun i ci hl => ?_, ?_, fun _ => ?_,
    fun e out hb => ?_⟩
  · rw [hloop] at hl
    cases hl
  · exact fun hb => (Host.not_busy_of_idle hap hb).elim
  · rw [hdone, hst]
    rfl
  · rw [hap] at hb
    cases hb

lemma Kept.inLog_of_take {floor : ℕ} {applied : List Entry} {s : Seam ρ} {n' : Node}
    (hk : Kept floor applied s)
    (htake : n'.log.take s.host.node.commitIndex =
      s.host.node.log.take s.host.node.commitIndex) : applied <+: n'.log.drop floor := by
  by_cases hne : applied = []
  · rw [hne]
    exact List.nil_prefix
  · exact prefix_drop_of_take_eq hk.inLog htake (hk.committed hne)

lemma admits_quiet {s : Seam ρ} {a : Act ρ} (h : s.admits a = true) (h' : Host ρ) :
    h'.enqueues a = none ∧ h'.applies a = none := by
  cases a with
  | drain _ | applyCall _ => cases h
  | _ => exact ⟨rfl, rfl⟩

/-- What the seam shares with a host on its goroutines keeps the record. -/
lemma Kept.shared {cfg : Config} {floor : ℕ} {applied : List Entry} {s s' : Seam ρ} {a : Act ρ}
    (hk : Kept floor applied s) (ht : s.host.Tidy) (hfault : a.logFaultless = true)
    (hm : ∀ m ∈ a.inbound, m.type = .appendEntries → m.WellFormedAppend)
    (hadm : s.admits a = true) (hre : s.host.reboots cfg a = false)
    (hhost : s'.host = (s.host.act cfg a).1) (hloop : s'.loop = s.loop) :
    Kept floor applied s' := by
  obtain ⟨hmono, htake⟩ := ht.committed hfault hm hre
  have hlog := hk.inLog_of_take htake
  have hmove := Host.applyMove_of_act cfg s.host a
  rw [← hhost] at hmono hlog hmove
  have hcommitted : applied ≠ [] → floor + applied.length ≤ s'.host.node.commitIndex :=
    fun hne => (hk.committed hne).trans hmono
  have hkeep : ∀ i ci, s'.loop = some (i, ci) →
      i = floor + applied.length + 1 ∧ ci ≤ s'.host.node.commitIndex := by
    intro i ci hl
    rw [hloop] at hl
    obtain ⟨hi, hci⟩ := hk.loop i ci hl
    exact ⟨hi, hci.trans hmono⟩
  cases hmove with
  | same _ _ _ heq _ =>
      obtain ⟨hap, -, -, hdone⟩ := Host.pipeline_eq_iff.mp heq
      refine ⟨hlog, hcommitted, hkeep, ?_, ?_, ?_⟩
      · rw [hap, hloop]
        exact hk.running
      · rw [hap, hdone]
        exact hk.resting
      · rw [hap, hdone]
        exact hk.busy
  | finished e out ap _ _ _ _ _ hbusy hap' _ heq =>
      obtain ⟨hap, -, -, hdone⟩ := Host.pipeline_eq_iff.mp heq
      obtain ⟨before, rfl, -⟩ := hk.busy e out hbusy
      refine ⟨hlog, hcommitted, hkeep, fun hb => ?_, fun _ => ?_, fun e' out' hb => ?_⟩
      · rw [hap] at hb
        exact (hap' hb).elim
      · rw [hdone, index_of_prefix_drop ht.shaped.contiguous hk.inLog, List.length_append]
        rfl
      · rw [hap] at hb
        exact (hap' ⟨e', out', hb⟩).elim
  | checkpointed _ _ _ _ _ _ _ hrest _ _ heq =>
      obtain ⟨hap, -, -, hdone⟩ := Host.pipeline_eq_iff.mp heq
      have hrest := Host.not_busy_of_checkpoint hrest
      refine ⟨hlog, hcommitted, hkeep, ?_, fun _ => ?_, fun e' out' hb => ?_⟩
      · exact fun hb => (Host.not_busy_of_idle hap hb).elim
      · rw [hdone]
        exact hk.resting hrest
      · rw [hap] at hb
        cases hb
  | enqueued _ _ _ henq =>
      rw [(admits_quiet hadm s.host).1] at henq
      cases henq
  | applying _ _ _ _ _ happ =>
      rw [(admits_quiet hadm s.host).2] at happ
      cases happ
  | rebooted _ _ _ hre' =>
      rw [hre] at hre'
      cases hre'

/-- A step within a lifetime keeps the record. -/
theorem Kept.drive {cfg : Config} {floor : ℕ} {applied : List Entry} {s : Seam ρ} {d : Drive ρ}
    (hk : Kept floor applied s) (ht : s.host.Tidy) (hfault : d.logFaultless = true)
    (hm : ∀ m ∈ d.inbound, m.type = .appendEntries → m.WellFormedAppend)
    (hre : s.reboots cfg d = false) :
    Kept floor (applied ++ (s.applies d).toList) (s.drive cfg d).1 := by
  have hmove := driveMove_of_drive cfg s d
  generalize (s.drive cfg d).1 = s' at hmove
  generalize (s.drive cfg d).2 = sent at hmove
  cases hmove with
  | same _ happ heq _ =>
      rw [happ, heq, Option.toList_none, List.append_nil]
      exact hk
  | shared a ha hadm hhost hloop _ =>
      subst ha
      have hre' : s.host.reboots cfg a = false := by
        rw [reboots, hadm, Bool.true_and] at hre
        exact hre
      rw [hre'] at hloop
      rw [show s.applies (.act a) = none from rfl, Option.toList_none, List.append_nil]
      exact hk.shared ht hfault hm hadm hre' hhost hloop
  | begun _ happ _ hold hhost hloop _ =>
      have hrest : ¬ Host.Busy s.host.applier := fun hb => hk.running hb hold
      rw [happ, Option.toList_none, List.append_nil]
      refine ⟨by rw [hhost]; exact hk.inLog, by rw [hhost]; exact hk.committed,
        fun i ci hl => ?_, fun _ => by rw [hloop]; simp, by rw [hhost]; exact hk.resting,
        by rw [hhost]; exact hk.busy⟩
      rw [hloop] at hl
      cases hl
      rw [hhost, hk.resting hrest]
      exact ⟨rfl, le_rfl⟩
  | applying e out i ci _ happ hidle hold hle he hhost hloop _ =>
      obtain ⟨hi, hci⟩ := hk.loop i ci hold
      have hrest := Host.not_busy_of_idle hidle
      have hnext : s.host.node.log[floor + applied.length]? = some e := by
        have hget := he (by omega)
        rw [hi, Nat.add_sub_cancel, ht.shaped.mirrored] at hget
        exact hget
      rw [happ, Option.toList_some]
      refine ⟨?_, fun _ => ?_, fun j cj hl => ?_, fun _ => by rw [hloop]; simp, fun hb => ?_,
        fun e' out' hb => ?_⟩
      · rw [hhost]
        exact prefix_drop_concat hk.inLog hnext
      · rw [hhost, List.length_append]
        show floor + (applied.length + 1) ≤ s.host.node.commitIndex
        omega
      · rw [hloop] at hl
        cases hl
        rw [hhost, List.length_append]
        exact ⟨by simp only [List.length_singleton]; omega, hci⟩
      · rw [hhost] at hb
        exact (hb ⟨e, out, rfl⟩).elim
      · rw [hhost] at hb ⊢
        cases hb
        exact ⟨applied, rfl, hk.resting hrest⟩
  | ended _ happ hidle hhost hloop _ =>
      rw [happ, Option.toList_none, List.append_nil]
      refine ⟨by rw [hhost]; exact hk.inLog, by rw [hhost]; exact hk.committed,
        fun i ci hl => ?_, ?_, by rw [hhost]; exact hk.resting, by rw [hhost]; exact hk.busy⟩
      · rw [hloop] at hl
        cases hl
      · rw [hhost]
        exact fun hb => (Host.not_busy_of_idle hidle hb).elim

/-! ### Whole runs -/

/-- The host of a new seam is new. -/
def Fresh (cfg : Config) (s : Seam ρ) : Prop := s.host.Fresh cfg ∧ s.loop = none

/-- Log writes succeed, and an `AppendEntries` that is received is well formed. -/
def Sound (d : Drive ρ) : Prop :=
  d.logFaultless = true ∧ ∀ m ∈ d.inbound, m.type = .appendEntries → m.WellFormedAppend

/-- A host under the synchronous driver through a run. -/
abbrev Trace (ρ : Type) (cfg : Config) :=
  Course (fun (s : Seam ρ) (d : Drive ρ) => (s.drive cfg d).1) (Fresh cfg) Sound

namespace Trace

variable {cfg : Config} (τ : Trace ρ cfg)

abbrev seam (t : ℕ) : Seam ρ := τ.states t

abbrev drive (t : ℕ) : Option (Drive ρ) := τ.does t

lemma idle (t : ℕ) (h : τ.drive t = none) : τ.seam (t + 1) = τ.seam t := τ.stays t h

lemma drives (t : ℕ) (d : Drive ρ) (h : τ.drive t = some d) :
    τ.seam (t + 1) = ((τ.seam t).drive cfg d).1 :=
  τ.moves t d h

theorem tidy (t : ℕ) : (τ.seam t).host.Tidy :=
  τ.invariant (P := fun s => s.host.Tidy)
    (fun _ ⟨⟨_, hnew⟩, _⟩ => Host.tidy_of_new hnew Log.contiguous_nil (by simp) le_rfl)
    (fun _ _ hd ht => (tidy_drive ht hd.1 hd.2).1) t

/-- The host begins a new lifetime at moment `t`. -/
def RebootsAt (t : ℕ) : Prop := Course.RebootsAt τ (reboots cfg) t

/-- Moments `s ≤ t` belong to one lifetime. -/
def SameLife (s t : ℕ) : Prop := Course.SameLife τ (reboots cfg) s t

/-- What the lifetime of moment `t` has done so far; nothing is ever enqueued. -/
def deeds : ℕ → Host.Deeds
  | 0 => { floor := (τ.seam 0).host.node.storage.snap.index }
  | t + 1 =>
      match τ.drive t with
      | none => deeds t
      | some d =>
          if (τ.seam t).reboots cfg d then
            { floor := (τ.seam (t + 1)).host.node.storage.snap.index }
          else { deeds t with applied := (deeds t).applied ++ ((τ.seam t).applies d).toList }

lemma new_of_reboots {t : ℕ} {d : Drive ρ} (hd : τ.drive t = some d)
    (hre : (τ.seam t).reboots cfg d = true) :
    (∃ s draw restore, Host.new cfg s draw restore = .ok (τ.seam (t + 1)).host) ∧
      (τ.seam (t + 1)).loop = none := by
  have hseam := τ.drives t d hd
  cases d with
  | act a =>
      rw [reboots, Bool.and_eq_true] at hre
      obtain ⟨hadm, hre⟩ := hre
      have heq : ((τ.seam t).drive cfg (.act a)).1 =
          { host := ((τ.seam t).host.act cfg a).1, loop := none } := by
        rw [Seam.drive, if_pos hadm, if_pos hre]
      rw [hseam, heq]
      refine ⟨?_, rfl⟩
      cases Host.applyMove_of_act cfg (τ.seam t).host a with
      | rebooted s draw restore _ _ _ hnew => exact ⟨s, draw, restore, hnew⟩
      | same hre' | enqueued _ _ hre' | applying _ _ _ hre' | finished _ _ _ hre'
      | checkpointed _ _ hre' =>
          rw [hre] at hre'
          cases hre'
  | applyBegin => cases hre
  | applyNext _ _ => cases hre

theorem kept (t : ℕ) : Kept (τ.deeds t).floor (τ.deeds t).applied (τ.seam t) := by
  induction t with
  | zero =>
      obtain ⟨⟨draw, hnew⟩, hloop⟩ := τ.starts
      exact kept_of_new hnew hloop
  | succ t ih =>
      rw [deeds]
      cases hd : τ.drive t with
      | none =>
          rw [τ.idle t hd]
          exact ih
      | some d =>
          dsimp only
          split_ifs with hre
          · obtain ⟨⟨s, draw, restore, hnew⟩, hloop⟩ := τ.new_of_reboots hd hre
            exact kept_of_new hnew hloop
          · rw [τ.drives t d hd]
            exact ih.drive (τ.tidy t) (τ.permitted t d hd).1 (τ.permitted t d hd).2
              (by simpa using hre)

lemma deeds_succ {t : ℕ} (h : ¬ τ.RebootsAt t) : (τ.deeds t).Grows (τ.deeds (t + 1)) := by
  rw [deeds]
  cases hd : τ.drive t with
  | none => exact ⟨rfl, List.prefix_refl _⟩
  | some d =>
      dsimp only
      rw [if_neg fun hre => h ⟨d, hd, hre⟩]
      exact ⟨rfl, List.prefix_append _ _⟩

lemma committed_succ {t : ℕ} (h : ¬ τ.RebootsAt t) :
    KeepsCommitted (τ.seam t).host.node (τ.seam (t + 1)).host.node := by
  cases hd : τ.drive t with
  | none =>
      rw [τ.idle t hd]
      exact ⟨le_rfl, rfl⟩
  | some d =>
      have hmove := driveMove_of_drive cfg (τ.seam t) d
      rw [← τ.drives t d hd] at hmove
      cases hmove with
      | same _ _ heq _ =>
          rw [heq]
          exact ⟨le_rfl, rfl⟩
      | shared a ha hadm hhost _ _ =>
          have hre : (τ.seam t).host.reboots cfg a = false := by
            cases hre : (τ.seam t).host.reboots cfg a with
            | false => rfl
            | true => exact (h ⟨d, hd, by rw [ha, reboots, hadm, hre]; rfl⟩).elim
          have hfault := (τ.permitted t d hd).1
          have hin := (τ.permitted t d hd).2
          rw [ha] at hfault hin
          rw [hhost]
          exact (τ.tidy t).committed hfault hin hre
      | begun _ _ _ _ hhost _ _ =>
          rw [hhost]
          exact ⟨le_rfl, rfl⟩
      | applying _ _ _ _ _ _ _ _ _ _ hhost _ _ =>
          rw [hhost]
          exact ⟨le_rfl, rfl⟩
      | ended _ _ _ hhost _ _ =>
          rw [hhost]
          exact ⟨le_rfl, rfl⟩

/-- Entries are applied exactly once and in order. -/
structure AppliesInOrder : Prop where
  /-- The entries on which a lifetime has called `Apply` are the entries of the log right
  above the snapshot, in order, and they stay there for the rest of the lifetime. -/
  inLog : ∀ s t, τ.SameLife s t →
    (τ.deeds s).applied <+: (τ.seam t).host.node.log.drop (τ.deeds s).floor
  /-- What has been applied is not taken back within the lifetime. -/
  grows : ∀ s t, τ.SameLife s t → (τ.deeds s).Grows (τ.deeds t)
  /-- An entry is committed when `Apply` is called on it. -/
  committed : ∀ t d e, τ.drive t = some d → (τ.seam t).applies d = some e →
    e.index ≤ (τ.seam t).host.node.commitIndex
  /-- `applyOne` leaves the index of its entry in `appliedIdx`, and that entry is the last one
  applied. -/
  appliedIdx : ∀ t e out, τ.drive t = some (.act .applyDone) →
    (τ.seam t).host.crashed = false → (τ.seam t).host.applier = .applied e out →
    (τ.seam (t + 1)).host.appliedIdx = e.index ∧
      (τ.deeds (t + 1)).applied.getLast? = some e ∧
      e.index = (τ.deeds (t + 1)).floor + (τ.deeds (t + 1)).applied.length

lemma applies_index {t : ℕ} {d : Drive ρ} {e : Entry} (hd : τ.drive t = some d)
    (he : (τ.seam t).applies d = some e) : e.index ≤ (τ.seam t).host.node.commitIndex := by
  have hmove := driveMove_of_drive cfg (τ.seam t) d
  cases hmove with
  | applying e' out i ci _ happ _ hold hle hget _ _ _ =>
      obtain rfl := Option.some.inj (he.symm.trans happ)
      obtain ⟨hi, hci⟩ := (τ.kept t).loop i ci hold
      have hshape := (τ.tidy t).shaped
      have hget := hget (by omega)
      rw [hshape.mirrored] at hget
      have hidx := hshape.contiguous _ _ hget
      omega
  | shared a ha _ _ _ _ =>
      subst ha
      cases he
  | same _ happ | begun _ happ | ended _ happ =>
      rw [he] at happ
      cases happ

lemma applyDone_index {t : ℕ} {e : Entry} {out : ApplyOutcome ρ}
    (hd : τ.drive t = some (.act .applyDone)) (hrun : (τ.seam t).host.crashed = false)
    (hbusy : (τ.seam t).host.applier = .applied e out) :
    (τ.seam (t + 1)).host.appliedIdx = e.index ∧
      (τ.deeds (t + 1)).applied.getLast? = some e ∧
      e.index = (τ.deeds (t + 1)).floor + (τ.deeds (t + 1)).applied.length := by
  have hhost : (τ.seam (t + 1)).host = (τ.seam t).host.applyDone e out := by
    rw [τ.drives t _ hd]
    simp [Seam.drive, admits, Host.act, hrun, hbusy]
  obtain ⟨heq, hrest⟩ := (τ.seam t).host.applyDone_pipeline e out
  obtain ⟨-, -, -, hdone⟩ := Host.pipeline_eq_iff.mp heq
  rw [← hhost] at hdone hrest
  have hdeeds : (τ.deeds (t + 1)).applied = (τ.deeds t).applied := by
    rw [deeds, hd]
    show (τ.deeds t).applied ++ [] = _
    rw [List.append_nil]
  obtain ⟨before, hbefore, -⟩ := (τ.kept t).busy e out hbusy
  refine ⟨hdone, ?_, ?_⟩
  · rw [hdeeds, hbefore]
    exact List.getLast?_concat
  · rw [← hdone]
    exact (τ.kept (t + 1)).resting hrest

theorem appliesInOrder : τ.AppliesInOrder where
  inLog s t h := by
    have hkeeps := h.rel (R := fun u v => KeepsCommitted (τ.seam u).host.node (τ.seam v).host.node)
      (fun _ => ⟨le_rfl, rfl⟩) (fun _ _ _ => .trans) fun _ => τ.committed_succ
    exact (τ.kept s).inLog_of_take hkeeps.take
  grows s t h := h.rel (R := fun u v => (τ.deeds u).Grows (τ.deeds v))
    (fun _ => ⟨rfl, List.prefix_refl _⟩) (fun _ _ _ => .trans) fun _ => τ.deeds_succ
  committed _ _ _ hd he := τ.applies_index hd he
  appliedIdx _ _ _ hd hrun hbusy := τ.applyDone_index hd hrun hbusy

end Trace

end Seam

namespace Cluster

variable {ρ : Type} (C : Cluster)

/-- The cluster under the synchronous driver. -/
def seamNetwork (ρ : Type) : Network NodeID (Seam ρ) (Drive ρ) Message where
  start i := { host := Host.start (C.cfg i) {} (C.draw i) }
  act i s d := s.drive (C.cfg i) d
  permits i d := decide (i ∈ C.peers) && d.logFaultless
  inbound := Drive.inbound
  addressee := Message.toNode

lemma seamNetwork_permits {i : NodeID} {d : Drive ρ}
    (h : (C.seamNetwork ρ).permits i d = true) : i ∈ C.peers ∧ d.logFaultless = true := by
  rw [seamNetwork, Bool.and_eq_true, decide_eq_true_eq] at h
  exact h

theorem seamNetwork_tidy (ev : ℕ → NodeID × Drive ρ) (t : ℕ) :
    (∀ i, i ∈ C.peers → ((C.seamNetwork ρ).party ev t i).host.Tidy) ∧
      ∀ x ∈ ((C.seamNetwork ρ).machine.run ev t).sent, x.type = .appendEntries →
        x.WellFormedAppend := by
  refine Network.invariant (P := fun _ s => s.host.Tidy)
    (fun i d h => (C.seamNetwork_permits h).1) (fun i hi => ?_) (fun i s d hp hin ht => ?_) ev t
  · exact Host.tidy_of_new (C.new_start ρ hi) Log.contiguous_nil (by simp) le_rfl
  · exact Seam.tidy_drive ht (C.seamNetwork_permits hp).2 hin

/-- What member `i` goes through in such a run. -/
def seamTrace (ev : ℕ → NodeID × Drive ρ) {i : NodeID} (hi : i ∈ C.peers) :
    Seam.Trace ρ (C.cfg i) :=
  (C.seamNetwork ρ).course ev i ⟨⟨C.draw i, C.new_start ρ hi⟩, rfl⟩ fun t _ h =>
    ⟨(C.seamNetwork_permits (Network.permits_of_does h)).2,
      Network.inbound_of_does (C.seamNetwork_tidy ev t).2 h⟩

/-- **Exactly-once, in-order apply.**  In every run of a cluster whose log writes succeed, be
its nodes on their own goroutines or under the synchronous test driver, every lifetime of
every member calls `Apply` on the entries of its log right above the snapshot it started from,
one after the other. -/
theorem applies_exactly_once {i : NodeID} (hi : i ∈ C.peers) :
    (∀ ev : ℕ → NodeID × Act ρ, (C.logTrace ev hi).AppliesInOrder) ∧
      ∀ ev : ℕ → NodeID × Drive ρ, (C.seamTrace ev hi).AppliesInOrder :=
  ⟨fun ev => (C.logTrace ev hi).appliesInOrder, fun ev => (C.seamTrace ev hi).appliesInOrder⟩

/-- A node that is elected on its own vote takes two commands. -/
def twoCommands : List (Act Unit) :=
  [.tick {}, .tick {}, .tick {}, .propose [1] {}, .propose [2] {}, .ready, .save false]

/-- `Apply` panics on the first command and returns on the second; in between a save of the
hard state fails. -/
def appliedInOrder : List (Act Unit) :=
  twoCommands ++ [.drainBegin, .drain false, .applyCall (.panicked "bad command"),
    .drain false, .applyDone, .drain false, .ready, .save true,
    .applyCall (.returned none none), .applyDone]

/-- The same under the synchronous driver. -/
def drivenInOrder : List (Drive Unit) :=
  twoCommands.map .act ++ [.applyBegin, .applyNext (.panicked "bad command") false,
    .act .applyDone, .applyNext (.returned none none) false, .act .applyDone]

theorem applies_exactly_once_twoCommands :
    let hi : "a" ∈ solo.peers := by decide
    let τ := solo.logTrace (fun t => ("a", Machine.schedule .stop appliedInOrder t)) hi
    let σ := solo.seamTrace (fun t => ("a", Machine.schedule .applyBegin drivenInOrder t)) hi
    ((τ.deeds 17).applied = [⟨1, 1, [1]⟩, ⟨1, 2, [2]⟩] ∧
      (τ.deeds 17).enqueued <+: (τ.host 17).node.log.drop (τ.deeds 17).floor ∧
      (τ.deeds 17).applied <+: (τ.deeds 17).enqueued) ∧
    (σ.deeds 12).applied = [⟨1, 1, [1]⟩, ⟨1, 2, [2]⟩] ∧
      (σ.deeds 12).applied <+: (σ.seam 12).host.node.log.drop (σ.deeds 12).floor := by
  intro hi τ σ
  obtain ⟨htrace, hseam⟩ := solo.applies_exactly_once hi
  have hτ : τ.AppliesInOrder := htrace _
  have hσ : σ.AppliesInOrder := hseam _
  refine ⟨⟨by decide +kernel, hτ.inLog 17 17 ⟨le_rfl, fun u hu hlt => by omega⟩,
    hτ.inOrder 17⟩, by decide +kernel, ?_⟩
  exact hσ.inLog 12 12 ⟨le_rfl, fun u hu hlt => by omega⟩

end Cluster

end ToyRaft
