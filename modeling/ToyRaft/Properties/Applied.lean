import ToyRaft.Properties.LogShape
import ToyRaft.Runtime.Clients

/-!
# Entries on their way to the state machine

`drainCommitsToApply` reads committed entries back from the storage and puts them into the
apply channel, from which the applier takes them.  Whatever is there was, at the moment it
was put there, the entry of the node's log at its own index, and that index was committed.
-/

namespace ToyRaft

namespace Cluster

variable {ρ : Type} (C : Cluster) (ev : ℕ → Event ρ)

/-- At moment `t` node `i` calls `StateMachine.Apply` on the entry `e`. -/
def AppliesAt (t : ℕ) (i : NodeID) (e : Entry) : Prop :=
  C.Enabled (C.world ev t) (ev t) ∧ (ev t).node = i ∧ e ∈ (C.host ev t i).applies (ev t).act

instance (t : ℕ) (i : NodeID) (e : Entry) : Decidable (C.AppliesAt ev t i e) :=
  inferInstanceAs (Decidable (_ ∧ _ ∧ _))

/-- By moment `t` node `i` has counted its log entry `e` as committed. -/
def CountedBy (t : ℕ) (i : NodeID) (e : Entry) : Prop :=
  ∃ s ≤ t, 1 ≤ e.index ∧ e.index ≤ (C.node ev s i).commitIndex ∧
    (C.node ev s i).log[e.index - 1]? = some e

variable {C ev}

lemma MovesAt.client {t : ℕ} {i : NodeID} {sent : List Message} (h : C.MovesAt ev t i sent) :
    Host.ClientMove (C.host ev t i) (ev t).act (C.host ev (t + 1) i) := by
  rw [h.host]
  exact Host.clientMove_of_act _ _ _

lemma CountedBy.mono {s t : ℕ} (hst : s ≤ t) {i : NodeID} {e : Entry}
    (h : C.CountedBy ev s i e) : C.CountedBy ev t i e := by
  obtain ⟨u, hu, hrest⟩ := h
  exact ⟨u, hu.trans hst, hrest⟩

variable (C ev)

lemma draining_le {i : NodeID} (hi : i ∈ C.peers) (t : ℕ) :
    ∀ ci, (C.host ev t i).flush = .draining ci → ci ≤ (C.node ev t i).commitIndex := by
  induction t with
  | zero =>
      intro ci hf
      rw [C.flush_zero ev hi] at hf
      cases hf
  | succ t ih =>
      intro ci hf
      rcases C.step_cases ev t i with ⟨sent, hm⟩ | ⟨heq, -⟩
      · exact hm.move.draining_le (fun hr => C.commit_le_succ ev t i fun _ => hr) ih hf
      · rw [heq] at hf
        rw [node, heq]
        exact ih ci hf

/-- The applier or the apply channel holds `e`. -/
def InFlight (t : ℕ) (i : NodeID) (e : Entry) : Prop :=
  e ∈ (C.host ev t i).applyCh ∨ ∃ out, (C.host ev t i).applier = .applied e out

/-- `drainCommitsToApply` is about to read `e` back. -/
def ReadBack (t : ℕ) (i : NodeID) (e : Entry) : Prop :=
  ∃ ci, (C.host ev t i).flush = .draining ci ∧ (C.host ev t i).enqueuedIdx + 1 ≤ ci ∧
    (C.node ev t i).storage.entries[(C.host ev t i).enqueuedIdx]? = some e

lemma not_inFlight_zero {i : NodeID} (hi : i ∈ C.peers) (e : Entry) : ¬ C.InFlight ev 0 i e := by
  have hstart : (C.host ev 0 i).client = (.idle, [], ∅, []) :=
    Host.client_of_new (C.new_start ρ hi)
  obtain ⟨happ, hch, -⟩ := Host.client_eq_iff.mp hstart
  rintro (h | ⟨out, h⟩)
  · rw [hch] at h
    cases h
  · rw [happ] at h
    cases h

/-- What a step has in flight was so before, or has just been read back. -/
lemma inFlight_of_succ {t : ℕ} {i : NodeID} {e : Entry} (h : C.InFlight ev (t + 1) i e) :
    C.InFlight ev t i e ∨ C.ReadBack ev t i e := by
  -- An applier that holds nothing leaves only the channel.
  have hchannel : ∀ {ap ch w cs}, (C.host ev (t + 1) i).client = (ap, ch, w, cs) →
      (∀ e' out', ap ≠ .applied e' out') → e ∈ ch := by
    intro ap ch w cs heq hap
    obtain ⟨happ, hch, -⟩ := Host.client_eq_iff.mp heq
    rcases h with h | ⟨out, h⟩
    · rwa [hch] at h
    · rw [happ] at h
      exact (hap _ _ h).elim
  have hsame : ∀ {w cs}, (C.host ev (t + 1) i).client =
      ((C.host ev t i).applier, (C.host ev t i).applyCh, w, cs) →
      C.InFlight ev t i e ∨ C.ReadBack ev t i e := by
    intro w cs heq
    obtain ⟨happ, hch, -⟩ := Host.client_eq_iff.mp heq
    unfold InFlight at h
    rw [happ, hch] at h
    exact .inl h
  rcases C.step_cases ev t i with ⟨sent, hm⟩ | ⟨heq, -⟩
  · cases hm.client with
    | same heq => exact hsame heq
    | fed e' ci hf hle he hnode heq =>
        obtain ⟨happ, hch, -⟩ := Host.client_eq_iff.mp heq
        unfold InFlight at h
        rw [happ, hch, List.mem_append, List.mem_singleton] at h
        rcases h with (h | rfl) | h
        · exact .inl (.inl h)
        · exact .inr ⟨ci, hf, hle, he⟩
        · exact .inl (.inr h)
    | applying e' rest out _ _ hch heq =>
        obtain ⟨happ, hch', -⟩ := Host.client_eq_iff.mp heq
        refine .inl (.inl ?_)
        rw [hch]
        rcases h with h | ⟨out', h⟩
        · rw [hch'] at h
          exact List.mem_cons_of_mem _ h
        · rw [happ] at h
          cases h
          exact List.mem_cons_self
    | applied e' out ap _ _ _ hap heq => exact .inl (.inl (hchannel heq hap))
    | rejected _ _ _ heq => exact hsame heq
    | registered _ _ _ heq => exact hsame heq
    | received _ _ _ _ _ heq => exact hsame heq
    | cancelled _ _ heq => exact hsame heq
    | checkpointed heq => exact .inl (.inl (hchannel heq fun _ _ h => by cases h))
    | restarted _ heq => cases hchannel heq fun _ _ h => by cases h
  · exact hsame (by rw [heq]; rfl)

/-- What is read back has been counted as committed: the storage mirrors the log. -/
lemma counted_of_readBack {i : NodeID} (hi : i ∈ C.peers) {t : ℕ} {e : Entry}
    (h : C.ReadBack ev t i e) : C.CountedBy ev t i e := by
  obtain ⟨ci, hf, hle, he⟩ := h
  have hshape := C.shaped ev hi t
  have hlog : (C.node ev t i).log[(C.host ev t i).enqueuedIdx]? = some e := by
    rw [← hshape.mirrored]
    exact he
  have hidx := hshape.contiguous _ _ hlog
  have hci := C.draining_le ev hi t ci hf
  refine ⟨t, Nat.le_refl t, by omega, by omega, ?_⟩
  rw [hidx, Nat.add_sub_cancel, Nat.zero_add]
  exact hlog

theorem counted_of_inFlight {i : NodeID} (hi : i ∈ C.peers) {t : ℕ} {e : Entry}
    (h : C.InFlight ev t i e) : C.CountedBy ev t i e := by
  induction t with
  | zero => exact (C.not_inFlight_zero ev hi e h).elim
  | succ t ih =>
      rcases C.inFlight_of_succ ev h with h | h
      · exact (ih h).mono (Nat.le_succ t)
      · exact (C.counted_of_readBack ev hi h).mono (Nat.le_succ t)

lemma counted_of_applies {t : ℕ} {i : NodeID} {e : Entry} (h : C.AppliesAt ev t i e) :
    C.CountedBy ev t i e := by
  obtain ⟨⟨hmem, -⟩, rfl, happ⟩ := h
  refine C.counted_of_inFlight ev hmem (.inl ?_)
  unfold Host.applies at happ
  split at happ
  · split at happ
    · exact List.mem_of_head? happ
    · cases happ
  · cases happ

end Cluster

end ToyRaft
