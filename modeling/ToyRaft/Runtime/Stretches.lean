import ToyRaft.Runtime.LocalRuns
import ToyRaft.Runtime.Runs

/-!
# Stretches of a run

`Turn` is a stretch of a run in which only some nodes act, and in which every message that is
delivered meets a condition on it and its receiver.  What a member can do on its own it can do in
such a stretch (`Turn.alone`).
-/

namespace ToyRaft

namespace Cluster

variable {ρ : Type} (C : Cluster)

/-- The event is enabled, and what is delivered in it meets the condition `B`. -/
def Quietly (B : Node → Message → Prop) (w : World ρ) (e : Event ρ) : Prop :=
  C.Enabled w e ∧ ∀ m ∈ (w.hosts e.node).delivered e.act, B (w.hosts e.node).node m

/-- The world can go from `w` to `w'` while only nodes of `S` act, and deliveries meet `B`. -/
structure Turn (B : Node → Message → Prop) (S : Set NodeID) (w w' : World ρ) : Prop where
  reaches : (C.machine ρ).Reaches (C.Quietly B) w w'
  others : ∀ j, j ∉ S → w'.hosts j = w.hosts j
  net : ∀ m ∈ w.net, m ∈ w'.net

variable {C} {B : Node → Message → Prop}

lemma Turn.refl (S : Set NodeID) (w : World ρ) : C.Turn B S w w :=
  ⟨.refl _, fun _ _ => rfl, fun _ hm => hm⟩

lemma Turn.trans {S : Set NodeID} {w w' w'' : World ρ} (h : C.Turn B S w w')
    (h' : C.Turn B S w' w'') : C.Turn B S w w'' :=
  ⟨h.reaches.trans h'.reaches, fun j hj => (h'.others j hj).trans (h.others j hj),
    fun m hm => h'.net m (h.net m hm)⟩

lemma Turn.mono {S S' : Set NodeID} {w w' : World ρ} (h : C.Turn B S w w') (hS : S ⊆ S') :
    C.Turn B S' w w' :=
  ⟨h.reaches, fun j hj => h.others j fun hjS => hj (hS hjS), h.net⟩

/-- One act. -/
lemma Turn.act {w : World ρ} {i : NodeID} {a : Act ρ} (hq : C.Quietly B w ⟨i, a⟩) :
    ∃ w', C.Turn B {i} w w' ∧ w'.hosts i = ((w.hosts i).act (C.cfg i) a).1 ∧
      w'.net = w.net ++ ((w.hosts i).act (C.cfg i) a).2 := by
  have hexec : C.exec w ⟨i, a⟩ =
      { hosts := Function.update w.hosts i ((w.hosts i).act (C.cfg i) a).1
        net := w.net ++ ((w.hosts i).act (C.cfg i) a).2 } := by
    rw [exec, if_pos hq.1]
  refine ⟨C.exec w ⟨i, a⟩, ⟨.step hq, fun j hj => ?_, fun m hm => ?_⟩, ?_, ?_⟩
  · rw [hexec]
    exact Function.update_of_ne hj _ _
  · rw [hexec]
    exact List.mem_append_left _ hm
  · rw [hexec]
    exact Function.update_self _ _ _
  · rw [hexec]

variable (B) in
/-- What a member can do on its own it can do in the cluster. -/
lemma Turn.alone {w : World ρ} {i : NodeID} (hi : i ∈ C.peers) {h' : Host ρ}
    {sent : List Message} (hg : Host.Goes (C.cfg i) (w.hosts i) h' sent) :
    ∃ w', C.Turn B {i} w w' ∧ w'.hosts i = h' ∧ w'.net = w.net ++ sent := by
  have key : ∀ st, (Host.alone (C.cfg i) (w.hosts i)).Reaches (fun _ a => a.Local)
      (w.hosts i, []) st →
      ∃ w', C.Turn B {i} w w' ∧ w'.hosts i = st.1 ∧ w'.net = w.net ++ st.2 := by
    intro st hreach
    induction hreach with
    | refl => exact ⟨w, .refl _ _, rfl, (List.append_nil _).symm⟩
    | @tail st st' _ hstep ih =>
        obtain ⟨w₁, ht₁, hh₁, hn₁⟩ := ih
        obtain ⟨a, ⟨hfault, hin⟩, rfl⟩ := hstep
        have hq : C.Quietly B w₁ ⟨i, a⟩ := by
          refine ⟨⟨hi, hfault, fun m hm => ?_⟩, fun m hm => ?_⟩
          · rw [hin] at hm
            cases hm
          · have hin' := Host.inbound_of_delivered hm
            rw [hin] at hin'
            cases hin'
        obtain ⟨w₂, ht₂, hh₂, hn₂⟩ := Turn.act hq
        refine ⟨w₂, ht₁.trans ht₂, ?_, ?_⟩
        · rw [hh₂, hh₁]
          rfl
        · rw [hn₂, hn₁, hh₁, List.append_assoc]
          rfl
  exact key (h', sent) (hg [])

variable (B) in
/-- A member at rest can flush. -/
lemma Turn.flush {w : World ρ} {i : NodeID} (hi : i ∈ C.peers) (hr : (w.hosts i).Rests) :
    ∃ w', C.Turn B {i} w w' ∧ (w'.hosts i).Rests ∧
      (w'.hosts i).node = (w.hosts i).node.flushed ∧
      w'.net = w.net ++ (w.hosts i).node.outbox := by
  obtain ⟨h', hg, hr', hnode⟩ := Host.flush_goes (C.cfg i) hr
  obtain ⟨w', ht, hh, hnet⟩ := Turn.alone B hi hg
  rw [← hh] at hr' hnode
  exact ⟨w', ht, hr', hnode, hnet⟩

/-- A stretch that begins where a run is continues the run. -/
lemma Turn.continues {S : Set NodeID} {P : World ρ → Event ρ → Prop}
    (hP : ∀ w e, C.Quietly B w e → P w e) {ev : ℕ → Event ρ} {t : ℕ}
    (hrun : ∀ u < t, P (C.world ev u) (ev u)) {w : World ρ}
    (hturn : C.Turn B S (C.world ev t) w) :
    ∃ ev' n, (∀ u < t, ev' u = ev u) ∧ C.world ev' (t + n) = w ∧
      ∀ u < t + n, P (C.world ev' u) (ev' u) := by
  obtain ⟨ev', n, hev, hend, hquiet⟩ := Machine.run_of_reaches hturn.reaches
  refine ⟨ev', n, hev, hend, fun u hu => ?_⟩
  rcases Nat.lt_or_ge u t with hlt | hge
  · have hsame : C.world ev' u = C.world ev u :=
      (C.machine ρ).run_congr fun v hv => hev v (by omega)
    rw [hsame, hev u hlt]
    exact hrun u hlt
  · exact hP _ _ (hquiet u hge hu)

end Cluster

end ToyRaft
