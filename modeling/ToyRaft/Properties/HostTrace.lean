import ToyRaft.Framework.Network
import ToyRaft.Properties.LogShape
import ToyRaft.Runtime.Applier

/-!
# One host through a run

`Tidy` is what a host keeps as long as its log writes succeed and the `AppendEntries` it
receives are well formed: a shapely log, no hard state ahead of the commit index, and well
formed `AppendEntries` on their way out.  Saving the hard state or a snapshot may fail.  It is
an assume-guarantee property, so every host of a cluster is tidy at every moment
(`Cluster.logNetwork_tidy`).

`Trace` is what is left of a run when only one host is looked at.  The log below the commit
index, and in fact below the first index any write starts from, is the same before and after
a step (`Move.log_take`).
-/

namespace ToyRaft

namespace Node

lemma Shaped.commit_lt_mirrorStart {n : Node} {m : Message} {start : ℕ} (h : n.Shaped)
    (hstart : n.mirrorStart m = some start) : n.commitIndex < start := by
  unfold mirrorStart at hstart
  split_ifs at hstart with hcond
  obtain rfl := Option.some.inj hstart
  have hguard := hcond.2.2.2.2
  have hle := h.commit_le
  rw [Log.lastIndex_eq_length h.contiguous] at hguard
  omega

/-- The index a write starts from, told from the state before the term funnel. -/
lemma mirrorStart_of_passes {n : Node} {m : Message}
    (hp : (n.maybeStepDownLocked m.term).Passes m)
    (hfc : (n.maybeStepDownLocked m.term).firstConflictIndex m.entries ≠ 0)
    (hguard : ¬ ((n.maybeStepDownLocked m.term).firstConflictIndex m.entries ≤
        (n.maybeStepDownLocked m.term).log.lastIndex ∧
      (n.maybeStepDownLocked m.term).firstConflictIndex m.entries ≤
        (n.maybeStepDownLocked m.term).commitIndex)) :
    n.mirrorStart m = some ((n.maybeStepDownLocked m.term).firstConflictIndex m.entries) := by
  obtain ⟨-, -, hlog, -, hcommit, -, -, hle, -⟩ := n.maybeStepDownLocked_frame m.term
  have hprev := hp.prev
  rw [firstConflictIndex_congr hlog] at hfc hguard ⊢
  rw [hlog, hcommit] at hguard
  rw [hlog] at hprev
  exact if_pos ⟨hp.type, hle.trans hp.term.ge, hprev, hfc, hguard⟩

end Node

namespace Host

variable {ρ : Type}

/-- The index from which this act writes the log on behalf of an `AppendEntries`. -/
def writesFrom (h : Host ρ) : Act ρ → Option ℕ
  | .step m _ => if h.crashed || h.stopped then none else h.node.mirrorStart m
  | .restartMidMirror m _ _ => h.node.mirrorStart m
  | _ => none

lemma commit_lt_writesFrom {h : Host ρ} {a : Act ρ} {start : ℕ} (hs : h.node.Shaped)
    (hw : h.writesFrom a = some start) : h.node.commitIndex < start := by
  cases a with
  | step m env =>
      unfold writesFrom at hw
      split_ifs at hw
      exact hs.commit_lt_mirrorStart hw
  | restartMidMirror m draw restore => exact hs.commit_lt_mirrorStart hw
  | _ => cases hw

/-- A move keeps the part of the log that no write of it reaches. -/
theorem Move.log_take {cfg : Config} {h : Host ρ} {a : Act ρ} {n' : Node} {f' : Flush}
    {out : List Message} (hmove : Move cfg h a n' f' out) (hfault : a.logFaultless = true)
    (hm : ∀ m ∈ a.inbound, m.type = .appendEntries → m.WellFormedAppend)
    (hs : h.node.Shaped) {k : ℕ} (hk : k ≤ h.node.log.length)
    (habove : ∀ start, h.writesFrom a = some start → k < start) :
    n'.log.take k = h.node.log.take k := by
  cases hmove with
  | @step m env _ ha hn hdel =>
      obtain ⟨-, -, hlog, -⟩ := h.node.maybeStepDownLocked_frame m.term
      have hin : m.type = .appendEntries →
          m ∈ a.inbound ∧ h.writesFrom a = h.node.mirrorStart m := by
        intro ht
        rcases hdel with rfl | hdel
        · cases ht
        · rcases ha with rfl | ⟨rfl, -⟩
          · unfold delivered at hdel
            unfold writesFrom
            split_ifs at hdel ⊢
            · cases hdel
            · exact ⟨rfl, rfl⟩
          · cases hdel
      have henv := env_of_logFaultless ha hfault
      cases Node.logEffect_of_handled hn with
      | same hlog' _ => rw [hlog', hlog]
      | write hp hfc hguard _ _ hlog' _ _ =>
          have hlt := habove _ ((hin hp.type).2.trans (Node.mirrorStart_of_passes hp hfc hguard))
          rw [hlog', Node.writtenLog, hlog, Log.truncateSuffix_eq_take hs.contiguous hfc]
          show (h.node.log.take _ ++ _).take k = _
          rw [List.take_append_of_le_length (by rw [List.length_take]; omega), List.take_take,
            Nat.min_eq_left (by omega)]
      | mirrorFailed hfail hp hfc _ =>
          have hwf := hm m (hin hp.type).1 hp.type
          have hshape := hs.stepDown m.term
          rcases Node.receiver_cases hshape.contiguous hwf hp.prev with ⟨h0, -⟩ | ⟨j, hj, hw, hsuf⟩
          · exact (hfc h0).elim
          · rw [hj, hsuf] at hfail
            exact (hfail (Node.mirrorLogWriteLocked_none henv hwf.contiguous hshape.mirrored
              hw)).elim
  | @propose data _ s _ _ _ =>
      obtain ⟨-, -, -, -, hlog, -⟩ := (h.node.proposed data s).broadcast_frame
      rw [hlog]
      exact List.take_append_of_le_length hk
  | proposeFailed ha _ hfail =>
      subst ha
      exact (append_succeeds hs hfault hfail).elim
  | restart _ hn hst =>
      rw [hn.log]
      rcases hst with rfl | ⟨m, _, _, start, rfl, hstart, htrunc⟩
      · rw [hs.mirrored]
      · have hlt := habove start hstart
        rw [Storage.truncateSuffix_ok (by omega)] at htrunc
        obtain rfl := Except.ok.inj htrunc
        show (h.node.storage.entries.take (start - 1)).take k = _
        rw [hs.mirrored, List.take_take, Nat.min_eq_left (by omega)]
  | _ => rfl

/-! ## Tidy hosts -/

/-- A host in order. -/
structure Tidy (h : Host ρ) : Prop where
  shaped : h.node.Shaped
  stored : h.node.storage.hs.commit ≤ h.node.commitIndex
  unsaved : ∀ hs ∈ h.flush.unsaved, hs.commit ≤ h.node.commitIndex
  pending : ∀ hs ∈ h.node.pendingHS, hs.commit ≤ h.node.commitIndex
  draining : ∀ ci, h.flush = .draining ci → ci ≤ h.node.commitIndex
  outgoing : ∀ x ∈ outgoing h.node h.flush, x.type = .appendEntries → x.WellFormedAppend

/-- No hard state on its way runs ahead of the commit index. -/
lemma Tidy.hardStates {cfg : Config} {h : Host ρ} {a : Act ρ} {n' : Node} {f' : Flush}
    {out : List Message} (ht : h.Tidy) (hmove : Move cfg h a n' f' out)
    (hmono : a.restarts = false → h.node.commitIndex ≤ n'.commitIndex) :
    n'.storage.hs.commit ≤ n'.commitIndex ∧ (∀ hs ∈ f'.unsaved, hs.commit ≤ n'.commitIndex) ∧
      ∀ hs ∈ n'.pendingHS, hs.commit ≤ n'.commitIndex := by
  have hfollow : ∀ {who : NodeID}, Node.Follows who h.node n' →
      h.node.commitIndex ≤ n'.commitIndex →
      n'.storage.hs.commit ≤ n'.commitIndex ∧
        (∀ hs ∈ h.flush.unsaved, hs.commit ≤ n'.commitIndex) ∧
        ∀ hs ∈ n'.pendingHS, hs.commit ≤ n'.commitIndex := by
    intro who hf hle
    rw [hf.stored]
    refine ⟨ht.stored.trans hle, fun hs hhs => (ht.unsaved hs hhs).trans hle, fun hs hhs => ?_⟩
    rcases hf.pendingHS with heq | ⟨heq, -⟩
    · rw [heq] at hhs
      rw [← Option.some.inj hhs]
      exact le_rfl
    · rw [heq] at hhs
      exact (ht.pending hs hhs).trans hle
  have hnone : ∀ {c : ℕ}, ∀ hs ∈ (none : Option HardState), hs.commit ≤ c :=
    fun hs hhs => by cases hhs
  cases hmove with
  | quiet snap _ hhs =>
      rw [hhs]
      exact ⟨ht.stored, ht.unsaved, ht.pending⟩
  | step ha hn =>
      refine hfollow (Node.follows_of_step (fun _ _ => rfl) hn) (hmono ?_)
      rcases ha with rfl | ⟨rfl, -⟩ <;> rfl
  | propose ha _ happ =>
      subst ha
      exact hfollow (Node.follows_of_proposed "" happ) (hmono rfl)
  | proposeFailed => exact ⟨ht.stored, ht.unsaved, ht.pending⟩
  | ready hf => exact ⟨ht.stored, ht.pending, hnone⟩
  | save hf =>
      have hunsaved := ht.unsaved
      rw [hf] at hunsaved
      exact ⟨hunsaved _ rfl, hnone, ht.pending⟩
  | saveNone | saveFailed | send => exact ⟨ht.stored, hnone, ht.pending⟩
  | restart _ hn hst =>
      have hcur : n'.commitIndex = n'.storage.hs.commit := by
        rw [hn.storage]
        exact congrArg HardState.commit hn.hardState
      rw [hn.pendingHS]
      exact ⟨hcur.ge, hnone, hnone⟩

/-- What a tidy leader sends is well formed. -/
lemma wellFormed_of_queued {cfg : Config} {h : Host ρ} {a : Act ρ} {n' : Node} {f' : Flush}
    {out : List Message} (hmove : Move cfg h a n' f' out) (hs : n'.Shaped) {x : Message}
    (hx : x ∈ h.node.queuedSince n') (ht : x.type = .appendEntries) : x.WellFormedAppend := by
  obtain ⟨m, -, hsp⟩ := hmove.queued_cases hx
  obtain ⟨p, hp, c, hc, hrole, heq⟩ := hsp.of_appendEntries ht
  rw [heq]
  exact hs.wellFormedAppend hrole (List.mem_of_mem_filter hp) hc

/-- A tidy host stays tidy, and hands over well-formed messages only. -/
theorem Tidy.act {cfg : Config} {h : Host ρ} {a : Act ρ} (ht : h.Tidy)
    (hfault : a.logFaultless = true)
    (hm : ∀ m ∈ a.inbound, m.type = .appendEntries → m.WellFormedAppend) :
    (h.act cfg a).1.Tidy ∧
      ∀ x ∈ (h.act cfg a).2, x.type = .appendEntries → x.WellFormedAppend := by
  have hmove := move_of_act cfg h a
  obtain ⟨hshape, hmono⟩ := hmove.shaped hfault hm ht.shaped ht.stored
  obtain ⟨hstored, hunsaved, hpending⟩ := ht.hardStates hmove hmono
  have hwf : ∀ x, x ∈ Host.outgoing (h.act cfg a).1.node (h.act cfg a).1.flush ∨
      x ∈ (h.act cfg a).2 → x.type = .appendEntries → x.WellFormedAppend := by
    intro x hx htype
    rcases hmove.outgoing_cases hx with hold | hnew
    · exact ht.outgoing x hold htype
    · exact wellFormed_of_queued hmove hshape hnew htype
  refine ⟨⟨hshape, hstored, hunsaved, hpending, fun ci hf => ?_, fun x hx => hwf x (.inl hx)⟩,
    fun x hx => hwf x (.inr hx)⟩
  exact hmove.draining_le hmono ht.draining hf

lemma tidy_of_new {cfg : Config} {s : Storage} {draw : ℕ} {restore : RestoreOutcome}
    {h : Host ρ} (hnew : new cfg s draw restore = .ok h) (hcont : Log.Contiguous s.entries)
    (hpos : ∀ e ∈ s.entries, 0 < e.term) (hcommit : s.hs.commit ≤ s.entries.length) :
    h.Tidy := by
  obtain ⟨hn, hf, -⟩ := new_cases hnew
  have hcur : h.node.commitIndex = h.node.storage.hs.commit := by
    rw [hn.storage]
    exact congrArg HardState.commit hn.hardState
  refine ⟨shaped_started hn hcont hpos hcommit, hcur.ge, ?_, ?_, ?_, ?_⟩
  · rw [hf]
    exact fun hs hhs => by cases hhs
  · rw [hn.pendingHS]
    exact fun hs hhs => by cases hhs
  · rw [hf]
    exact fun ci hci => by cases hci
  · intro x hx
    rw [hf, mem_outgoing, hn.pendingMsgs] at hx
    rcases hx with ⟨pm, hpm, -⟩ | hx
    · cases hpm
    · cases hx

/-! ## Traces -/

/-- The node was just made, on an empty store. -/
def Fresh (cfg : Config) (h : Host ρ) : Prop := ∃ draw, new cfg {} draw .restored = .ok h

/-- Log writes succeed, and an `AppendEntries` that is received is well formed. -/
def Sound (a : Act ρ) : Prop :=
  a.logFaultless = true ∧ ∀ m ∈ a.inbound, m.type = .appendEntries → m.WellFormedAppend

/-- One host through a run. -/
abbrev Trace (ρ : Type) (cfg : Config) :=
  Course (fun (h : Host ρ) (a : Act ρ) => (h.act cfg a).1) (Fresh cfg) Sound

namespace Trace

variable {cfg : Config} (τ : Trace ρ cfg)

abbrev host (t : ℕ) : Host ρ := τ.states t

abbrev act (t : ℕ) : Option (Act ρ) := τ.does t

lemma idle (t : ℕ) (h : τ.act t = none) : τ.host (t + 1) = τ.host t := τ.stays t h

lemma acts (t : ℕ) (a : Act ρ) (h : τ.act t = some a) :
    τ.host (t + 1) = ((τ.host t).act cfg a).1 :=
  τ.moves t a h

theorem tidy (t : ℕ) : (τ.host t).Tidy :=
  τ.invariant (fun _ ⟨_, hnew⟩ => tidy_of_new hnew Log.contiguous_nil (by simp) le_rfl)
    (fun _ _ ha ht => (ht.act ha.1 ha.2).1) t

/-- The host begins a new lifetime at moment `t`. -/
def RebootsAt (t : ℕ) : Prop := Course.RebootsAt τ (reboots cfg) t

/-- Moments `s ≤ t` belong to one lifetime. -/
def SameLife (s t : ℕ) : Prop := Course.SameLife τ (reboots cfg) s t

end Trace

end Host

namespace Cluster

variable {ρ : Type} (C : Cluster)

/-- The cluster whose storages are sure of their log writes only. -/
def logNetwork (ρ : Type) : Network NodeID (Host ρ) (Act ρ) Message where
  start i := Host.start (C.cfg i) {} (C.draw i)
  act i h a := h.act (C.cfg i) a
  permits i a := decide (i ∈ C.peers) && a.logFaultless
  inbound := Act.inbound
  addressee := Message.toNode

lemma logNetwork_permits {i : NodeID} {a : Act ρ}
    (h : (C.logNetwork ρ).permits i a = true) : i ∈ C.peers ∧ a.logFaultless = true := by
  rw [logNetwork, Bool.and_eq_true, decide_eq_true_eq] at h
  exact h

theorem logNetwork_tidy (ev : ℕ → NodeID × Act ρ) (t : ℕ) :
    (∀ i, i ∈ C.peers → ((C.logNetwork ρ).party ev t i).Tidy) ∧
      ∀ x ∈ ((C.logNetwork ρ).machine.run ev t).sent, x.type = .appendEntries →
        x.WellFormedAppend := by
  refine Network.invariant (P := fun _ h => h.Tidy) (fun i a h => (C.logNetwork_permits h).1)
    (fun i hi => ?_) (fun i h a hp hin ht => ?_) ev t
  · exact Host.tidy_of_new (C.new_start ρ hi) Log.contiguous_nil (by simp) le_rfl
  · exact ht.act (C.logNetwork_permits hp).2 hin

/-- What member `i` goes through in such a run. -/
def logTrace (ev : ℕ → NodeID × Act ρ) {i : NodeID} (hi : i ∈ C.peers) :
    Host.Trace ρ (C.cfg i) :=
  (C.logNetwork ρ).course ev i ⟨C.draw i, C.new_start ρ hi⟩ fun t _ h =>
    ⟨(C.logNetwork_permits (Network.permits_of_does h)).2,
      Network.inbound_of_does (C.logNetwork_tidy ev t).2 h⟩

/-- What member `i` goes through in a run without storage faults. -/
def trace (ev : ℕ → Event ρ) {i : NodeID} (hi : i ∈ C.peers) : Host.Trace ρ (C.cfg i) where
  states t := C.host ev t i
  does t := if C.Enabled (C.world ev t) (ev t) ∧ (ev t).node = i then some (ev t).act else none
  starts := ⟨C.draw i, C.new_start ρ hi⟩
  stays t h := by
    rcases C.step_cases ev t i with ⟨sent, hm⟩ | ⟨heq, -⟩
    · rw [if_pos ⟨hm.enabled, hm.node⟩] at h
      cases h
    · exact heq
  moves t a h := by
    split_ifs at h with hen
    obtain ⟨hen, rfl⟩ := hen
    obtain ⟨sent, hm⟩ := movesAt_of_enabled hen
    rw [← Option.some.inj h]
    exact hm.host
  permitted t a h := by
    split_ifs at h with hen
    rw [← Option.some.inj h]
    exact ⟨Host.logFaultless_of_faultless hen.1.2.1,
      fun m hm => C.wellFormed ev (hen.1.2.2 m hm).1⟩

lemma trace_act {ev : ℕ → Event ρ} {t : ℕ} {e : Event ρ} (hev : ev t = e)
    (hen : C.Enabled (C.world ev t) e) (hi : e.node ∈ C.peers) :
    (C.trace ev hi).act t = some e.act := by
  subst hev
  exact if_pos ⟨hen, rfl⟩

end Cluster

end ToyRaft
