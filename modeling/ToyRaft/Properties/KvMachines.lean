import ToyRaft.Daemon.KvService
import ToyRaft.Properties.CommandOrder
import ToyRaft.Properties.SnapshotReplay

/-!
# The machines of the key-value service

The nodes of a service are a cluster (`raft_world`), with acts that have the answers of the
machines in them.  So what holds of every cluster holds of the service, and what is left is to say
what the machines hold: each is the effect of decided entries, as many as its node has called
`Apply` on since the start, or since the snapshot (`sound`).

The log of the node itself does not carry this.  A node that crashes before its hard state is saved
comes back in a lower term, whose leader can cut its log below the snapshot.  The snapshot still is
the effect of what has been decided.
-/

namespace ToyRaft

/-! ## What a state machine has seen -/

namespace Host

variable {ρ : Type}

/-- The index of the last entry `Apply` has been called on, or that of the snapshot the lifetime
began with. -/
def seen (h : Host ρ) : ℕ :=
  match h.applier with
  | .applied _ _ => h.appliedIdx + 1
  | _ => h.appliedIdx

lemma seen_of_rest {h : Host ρ} (hrest : ¬ Busy h.applier) : h.seen = h.appliedIdx := by
  unfold seen
  split
  · rename_i e out hap
    exact (hrest ⟨e, out, hap⟩).elim
  · rfl

lemma seen_of_busy {h : Host ρ} {e : Entry} {out : ApplyOutcome ρ}
    (hap : h.applier = .applied e out) : h.seen = h.appliedIdx + 1 := by
  rw [seen, hap]

lemma seen_congr {h h' : Host ρ} (hap : h'.applier = h.applier)
    (hdone : h'.appliedIdx = h.appliedIdx) : h'.seen = h.seen := by
  rw [seen, seen, hap, hdone]

namespace Trace

variable {cfg : Config} (τ : Trace ρ cfg)

/-- A lifetime begins with the snapshot, `Apply` is called on the next entry, or nothing new is
seen. -/
lemma seen_succ {t : ℕ} {a : Act ρ} (ha : τ.act t = some a) :
    ((τ.host t).reboots cfg a = true ∧
      (τ.host (t + 1)).seen = (τ.host t).node.storage.snap.index) ∨
    ((τ.host t).reboots cfg a = false ∧ ∃ e, (τ.host t).applies a = some e ∧
      e.index = (τ.host t).seen + 1 ∧ (τ.host (t + 1)).seen = e.index) ∨
    ((τ.host t).reboots cfg a = false ∧ (τ.host t).applies a = none ∧
      (τ.host (t + 1)).seen = (τ.host t).seen) := by
  have hmove := applyMove_of_act cfg (τ.host t) a
  rw [← τ.acts t a ha] at hmove
  cases hmove with
  | same hre _ happ heq =>
      obtain ⟨hap, -, -, hdone⟩ := pipeline_eq_iff.mp heq
      exact .inr (.inr ⟨hre, happ, seen_congr hap hdone⟩)
  | enqueued e ci hre _ happ _ _ _ _ heq =>
      obtain ⟨hap, -, -, hdone⟩ := pipeline_eq_iff.mp heq
      exact .inr (.inr ⟨hre, happ, seen_congr hap hdone⟩)
  | applying e rest out hre _ happ _ hidle _ _ heq =>
      obtain ⟨hap, -, -, hdone⟩ := pipeline_eq_iff.mp heq
      obtain ⟨-, hidx, -⟩ := τ.applies_next ha happ
      have hseen := seen_of_rest (not_busy_of_idle hidle)
      refine .inr (.inl ⟨hre, e, happ, by rw [hseen, hidx], ?_⟩)
      rw [seen_of_busy hap, hdone, hidx]
  | finished e out ap hre _ happ _ _ hbusy hap' _ heq =>
      obtain ⟨hap, -, -, hdone⟩ := pipeline_eq_iff.mp heq
      have hidx := (τ.kept t).busy_index (τ.tidy t).shaped.contiguous hbusy
      refine .inr (.inr ⟨hre, happ, ?_⟩)
      rw [seen_of_rest (hap ▸ hap'), hdone, hidx, seen_of_busy hbusy]
  | checkpointed out err hre _ happ _ _ hrest _ _ heq =>
      obtain ⟨hap, -, -, hdone⟩ := pipeline_eq_iff.mp heq
      refine .inr (.inr ⟨hre, happ, ?_⟩)
      rw [seen_of_rest (not_busy_of_idle hap), hdone, seen_of_rest (not_busy_of_checkpoint hrest)]
  | rebooted s draw restore hre _ hs hnew =>
      obtain ⟨hap, -, -, hdone⟩ := pipeline_eq_iff.mp (pipeline_of_new hnew)
      refine .inl ⟨hre, ?_⟩
      rw [seen_of_rest (not_busy_of_idle hap), hdone, hs]

lemma snap_succ {t : ℕ} {a : Act ρ} (ha : τ.act t = some a) :
    (τ.host (t + 1)).node.storage.snap = (τ.host t).node.storage.snap ∨
    ∃ data idx err, a = .checkpoint (.taken data idx) err ∧
      (τ.host (t + 1)).node.storage.snap.index = idx ∧
      (τ.host (t + 1)).node.storage.snap.data = data := by
  have hmove := applyMove_of_act cfg (τ.host t) a
  rw [← τ.acts t a ha] at hmove
  cases hmove with
  | same _ _ _ _ hsnap => exact .inl hsnap
  | enqueued _ _ _ _ _ _ _ _ hnode | applying _ _ _ _ _ _ _ _ _ hnode
  | finished _ _ _ _ _ _ _ _ _ _ hnode => exact .inl (by rw [hnode])
  | checkpointed out err _ _ _ hact _ _ _ hsnap =>
      rcases hsnap with hsnap | ⟨data, idx, rfl, -, hsnap⟩
      · exact .inl hsnap
      · exact .inr ⟨data, idx, err, hact, by rw [hsnap], by rw [hsnap]⟩
  | rebooted s draw restore _ _ hs hnew => exact .inl (by rw [(new_cases hnew).1.storage, hs])

end Trace

end Host

namespace Cluster

variable {ρ : Type} {C : Cluster} {ev : ℕ → Event ρ}

lemma seen_cases (ev : ℕ → Event ρ) {i : NodeID} (hi : i ∈ C.peers) (t : ℕ) :
    (C.RebootsAt ev t i ∧ (C.host ev (t + 1) i).seen = (C.node ev t i).storage.snap.index) ∨
    (¬ C.RebootsAt ev t i ∧ ∃ e, C.AppliesAt ev t i e ∧ e.index = (C.host ev t i).seen + 1 ∧
      (C.host ev (t + 1) i).seen = e.index) ∨
    (¬ C.RebootsAt ev t i ∧ (∀ e, ¬ C.AppliesAt ev t i e) ∧
      (C.host ev (t + 1) i).seen = (C.host ev t i).seen) := by
  by_cases hact : C.Enabled (C.world ev t) (ev t) ∧ (ev t).node = i
  · have hlife : (C.host ev t i).reboots (C.cfg i) (ev t).act = false → ¬ C.RebootsAt ev t i := by
      rintro hre ⟨-, -, hre'⟩
      rw [hre] at hre'
      cases hre'
    rcases (C.trace ev hi).seen_succ (if_pos hact) with
      ⟨hre, hseen⟩ | ⟨hre, e, happ, hidx, hseen⟩ | ⟨hre, happ, hseen⟩
    · exact .inl ⟨⟨hact.1, hact.2, hre⟩, hseen⟩
    · exact .inr (.inl ⟨hlife hre, e, ⟨hact.1, hact.2, happ⟩, hidx, hseen⟩)
    · refine .inr (.inr ⟨hlife hre, ?_, hseen⟩)
      rintro e ⟨-, -, happ'⟩
      cases happ.symm.trans happ'
  · refine .inr (.inr ⟨fun h => hact ⟨h.1, h.2.1⟩, fun e h => hact ⟨h.1, h.2.1⟩, ?_⟩)
    have hidle := (C.trace ev hi).idle t (if_neg hact)
    exact congrArg Host.seen hidle

lemma AppliesAt.seen {t : ℕ} {i : NodeID} {e : Entry} (h : C.AppliesAt ev t i e) :
    e.index = (C.host ev t i).seen + 1 ∧ (C.host ev (t + 1) i).seen = e.index := by
  have hre : ¬ C.RebootsAt ev t i := by
    rintro ⟨-, -, hre⟩
    obtain ⟨-, -, happ⟩ := h
    cases hact : (ev t).act with
    | applyCall out =>
        rw [hact] at hre
        cases hre
    | _ =>
        rw [hact] at happ
        cases happ
  obtain ⟨hen, rfl, happ⟩ := h
  rcases seen_cases ev hen.1 t with ⟨hcon, -⟩ | ⟨-, e', happ', hseen⟩ | ⟨-, hcon, -⟩
  · exact (hre hcon).elim
  · obtain rfl := Option.some.inj (happ'.2.2.symm.trans happ)
    exact hseen
  · exact (hcon e ⟨hen, rfl, happ⟩).elim

lemma snap_cases (ev : ℕ → Event ρ) {i : NodeID} (hi : i ∈ C.peers) (t : ℕ) :
    (C.node ev (t + 1) i).storage.snap = (C.node ev t i).storage.snap ∨
    ∃ data idx err, C.Enabled (C.world ev t) (ev t) ∧ (ev t).node = i ∧
      (ev t).act = .checkpoint (.taken data idx) err ∧
      (C.node ev (t + 1) i).storage.snap.index = idx ∧
      (C.node ev (t + 1) i).storage.snap.data = data := by
  by_cases hact : C.Enabled (C.world ev t) (ev t) ∧ (ev t).node = i
  · rcases (C.trace ev hi).snap_succ (if_pos hact) with hsnap | ⟨data, idx, err, hrest⟩
    · exact .inl hsnap
    · exact .inr ⟨data, idx, err, hact.1, hact.2, hrest⟩
  · have hidle := (C.trace ev hi).idle t (if_neg hact)
    exact .inl (congrArg (fun h => h.node.storage.snap) hidle)

end Cluster

namespace Kv

open Json Kvsm

namespace Service

variable {ε : Type} (S : Service ε) (ev : ℕ → ServiceEvent)

/-! ## The cluster below -/

/-- The events of the cluster.  Where the node does nothing, it is one that is never enabled. -/
def events (t : ℕ) : Event (Option Data) :=
  (S.event (S.world ev t) (ev t)).getD ⟨(ev t).node, .save true⟩

variable {S} in
/-- The node acts for itself, or a handler calls `Propose`. -/
lemma event_cases {w : ServiceWorld} {e : ServiceEvent} {c : Event (Option Data)}
    (h : S.event w e = some c) :
    (∃ a, (∀ data env, a ≠ .propose data env) ∧ e.act = .run a ∧
      c = ⟨e.node, S.answered (w.raft.hosts e.node) (w.sm e.node) a⟩) ∨
    ∃ k env m r op, e.act = .serve k env ∧ (w.raft.hosts e.node).crashed = false ∧
      (w.requests e.node)[k]? = some ⟨m, r, .admitted⟩ ∧ m.op r = some op ∧
      c = ⟨e.node, .propose op.marshal env⟩ := by
  unfold event at h
  split at h
  · cases h
  · rename_i a hnot hact
    exact .inl ⟨a, fun data env ha => hnot data env ha, hact, (Option.some.inj h).symm⟩
  · rename_i k env hact
    split at h
    · rename_i m r hup hk
      obtain ⟨op, hop, rfl⟩ := Option.map_eq_some_iff.mp h
      exact .inr ⟨k, env, m, r, op, hact, hup, hk, hop, rfl⟩
    · cases h
  · cases h

variable {S} in
lemma event_node {w : ServiceWorld} {e : ServiceEvent} {c : Event (Option Data)}
    (h : S.event w e = some c) : c.node = e.node := by
  rcases event_cases h with ⟨a, -, -, rfl⟩ | ⟨k, env, m, r, op, -, -, -, -, rfl⟩
  · rfl
  · rfl

lemma events_node (t : ℕ) : (S.events ev t).node = (ev t).node := by
  unfold events
  cases h : S.event (S.world ev t) (ev t) with
  | none => rfl
  | some c => exact event_node h

lemma exec_raft (w : ServiceWorld) (e : ServiceEvent) :
    (S.exec w e).raft =
      S.cluster.exec w.raft ((S.event w e).getD ⟨e.node, .save true⟩) := by
  unfold exec
  split_ifs with hen
  · cases h : S.event w e with
    | none =>
        rw [Option.getD_none, Cluster.exec, if_neg fun hen => by cases hen.2.1]
    | some c => rfl
  · rw [Cluster.exec, if_neg]
    intro hen'
    cases h : S.event w e with
    | none =>
        rw [h] at hen'
        cases hen'.2.1
    | some c =>
        rw [h, Option.getD_some] at hen'
        refine hen ⟨event_node h ▸ hen'.1, fun c' hc' => ?_⟩
        rw [h] at hc'
        exact Option.some.inj hc' ▸ hen'

theorem raft_world (t : ℕ) : (S.world ev t).raft = S.cluster.world (S.events ev) t := by
  induction t with
  | zero => rfl
  | succ t ih =>
      show (S.exec (S.world ev t) (ev t)).raft = S.cluster.exec _ (S.events ev t)
      rw [exec_raft, ih]
      rfl

lemma raft_host (t : ℕ) (i : NodeID) :
    (S.world ev t).raft.hosts i = S.cluster.host (S.events ev) t i := by
  rw [raft_world]
  rfl

lemma event_of_enabled {t : ℕ}
    (hen : S.cluster.Enabled (S.cluster.world (S.events ev) t) (S.events ev t)) :
    S.event (S.world ev t) (ev t) = some (S.events ev t) := by
  unfold events at hen ⊢
  cases h : S.event (S.world ev t) (ev t) with
  | none =>
      rw [h] at hen
      cases hen.2.1
  | some c => rfl

lemma enabled_of_cluster {t : ℕ}
    (hen : S.cluster.Enabled (S.cluster.world (S.events ev) t) (S.events ev t)) :
    S.Enabled (S.world ev t) (ev t) := by
  refine ⟨S.events_node ev t ▸ hen.1, fun c hc => ?_⟩
  rw [S.event_of_enabled ev hen] at hc
  rw [← Option.some.inj hc, raft_world]
  exact hen

variable {S ev} in
lemma cluster_of_enabled {t : ℕ} {c : Event (Option Data)}
    (hen : S.Enabled (S.world ev t) (ev t)) (h : S.event (S.world ev t) (ev t) = some c) :
    S.events ev t = c ∧
      S.cluster.Enabled (S.cluster.world (S.events ev) t) (S.events ev t) := by
  have heq : S.events ev t = c := by rw [events, h, Option.getD_some]
  refine ⟨heq, ?_⟩
  rw [← raft_world, heq]
  exact hen.2 c h

/-- The machine of a daemon changes with the acts of its node only. -/
theorem sm_succ (t : ℕ) (i : NodeID) :
    S.sm ev (t + 1) i =
      if S.cluster.Enabled (S.cluster.world (S.events ev) t) (S.events ev t) ∧
          (S.events ev t).node = i then
        S.after i (S.cluster.host (S.events ev) t i) (S.sm ev t i) (S.events ev t).act
      else S.sm ev t i := by
  show (S.exec (S.world ev t) (ev t)).sm i = _
  split_ifs with hact
  · obtain ⟨hen, hi⟩ := hact
    rw [exec, if_pos (S.enabled_of_cluster ev hen), S.event_of_enabled ev hen]
    dsimp only
    rw [← hi, S.events_node ev t, Function.update_self, raft_host]
    rfl
  · unfold exec
    split_ifs with hen
    · cases h : S.event (S.world ev t) (ev t) with
      | none => rfl
      | some c =>
          have hne : i ≠ (ev t).node := by
            rintro rfl
            exact hact ⟨(cluster_of_enabled hen h).2, S.events_node ev t⟩
          exact Function.update_of_ne hne _ _
    · rfl

lemma sm_of_reboots {t : ℕ} {i : NodeID} (h : S.cluster.RebootsAt (S.events ev) t i) :
    S.sm ev (t + 1) i = S.loaded (S.cluster.node (S.events ev) t i).storage.snap := by
  rw [sm_succ, if_pos ⟨h.1, h.2.1⟩, after, if_pos h.2.2]
  rfl

lemma sm_of_applies {t : ℕ} {i : NodeID} {e : Entry}
    (hlife : ¬ S.cluster.RebootsAt (S.events ev) t i)
    (h : S.cluster.AppliesAt (S.events ev) t i e) :
    S.sm ev (t + 1) i = ((S.sm ev t i).apply S.parse e).2 := by
  obtain ⟨hen, hi, happ⟩ := h
  rw [sm_succ, if_pos ⟨hen, hi⟩, after, if_neg fun hre => hlife ⟨hen, hi, hre⟩,
    Option.mem_def.mp happ]

lemma sm_of_rest {t : ℕ} {i : NodeID} (hlife : ¬ S.cluster.RebootsAt (S.events ev) t i)
    (h : ∀ e, ¬ S.cluster.AppliesAt (S.events ev) t i e) :
    S.sm ev (t + 1) i = S.sm ev t i := by
  rw [sm_succ]
  split_ifs with hact
  · obtain ⟨hen, hi⟩ := hact
    rw [after, if_neg fun hre => hlife ⟨hen, hi, hre⟩]
    cases happ : (S.cluster.host (S.events ev) t i).applies (S.events ev t).act with
    | none => rfl
    | some e => exact (h e ⟨hen, hi, happ⟩).elim
  · rfl

lemma answered_answered (h : Host (Option Data)) (k : KV) (a : Act (Option Data)) :
    S.answered h k (S.answered h k a) = S.answered h k a := by
  cases a with
  | applyCall out => cases hch : h.applyCh <;> simp [answered, hch]
  | _ => rfl

/-- The acts of the nodes have the answers of the machines. -/
lemma answered_events {t : ℕ}
    (hen : S.cluster.Enabled (S.cluster.world (S.events ev) t) (S.events ev t)) :
    S.answered (S.cluster.host (S.events ev) t (S.events ev t).node)
      (S.sm ev t (S.events ev t).node) (S.events ev t).act = (S.events ev t).act := by
  rw [← raft_host]
  rcases event_cases (S.event_of_enabled ev hen) with
    ⟨a, -, -, heq⟩ | ⟨k, env, m, r, op, -, -, -, -, heq⟩
  · rw [heq]
    exact S.answered_answered _ _ a
  · rw [heq]
    rfl

lemma outcome_of_applies {t : ℕ} {i : NodeID} {e : Entry} {out : ApplyOutcome (Option Data)}
    (h : S.cluster.AppliesAt (S.events ev) t i e) (hact : (S.events ev t).act = .applyCall out) :
    S.applyOutcome (S.sm ev t i) e = out := by
  obtain ⟨hen, rfl, happ⟩ := h
  have hans := S.answered_events ev hen
  rw [hact] at happ hans
  have hhead : (S.cluster.host (S.events ev) t (S.events ev t).node).applyCh.head? = some e := by
    rw [Option.mem_def, Host.applies] at happ
    split at happ
    · exact happ
    · cases happ
  obtain ⟨rest, hch⟩ := List.head?_eq_some_iff.mp hhead
  rw [answered, hch] at hans
  exact Act.applyCall.inj hans

/-! ## What a machine holds -/

/-- The effect of entries on a new machine. -/
def effect (c : List Entry) : KV := ({} : KV).applyAll S.parse c

lemma effect_concat (c : List Entry) (e : Entry) :
    S.effect (c ++ [e]) = ((S.effect c).apply S.parse e).2 := by
  rw [effect, KV.applyAll_append]
  rfl

/-- The machine of daemon `i`, and the snapshot in its storage, are the effect of decided
entries. -/
structure Sound (t : ℕ) (i : NodeID) : Prop where
  state : ∃ c, S.cluster.Decided (S.events ev) t c ∧
    c.length = (S.cluster.host (S.events ev) t i).seen ∧ S.sm ev t i = S.effect c
  snap : 0 < (S.cluster.node (S.events ev) t i).storage.snap.index →
    ∃ c, S.cluster.Decided (S.events ev) t c ∧
      c.length = (S.cluster.node (S.events ev) t i).storage.snap.index ∧
      restore S.parse (S.cluster.node (S.events ev) t i).storage.snap.data = .ok (S.effect c)

/-- `json.Unmarshal` reads back what `Snapshot` writes of the machine of daemon `i`, whose index
fits its type. -/
structure ReadsBack (t : ℕ) (i : NodeID) : Prop where
  parse : S.parse (S.sm ev t i).snapshot.1 = .ok (marshalSnapshot (S.sm ev t i))
  index : (S.sm ev t i).lastIndex < 2 ^ 64

section Sound

variable {S ev}

lemma sound_zero {i : NodeID} (hi : i ∈ S.cluster.peers) : S.Sound ev 0 i := by
  have hnew := S.cluster.new_start (Option Data) hi
  obtain ⟨hap, -, -, hdone⟩ := Host.pipeline_eq_iff.mp (Host.pipeline_of_new hnew)
  refine ⟨⟨[], .nil 0, ?_, rfl⟩, fun hpos => ?_⟩
  · exact ((Host.seen_of_rest (Host.not_busy_of_idle hap)).trans hdone).symm
  · have hst : (S.cluster.node (S.events ev) 0 i).storage = {} := (Host.new_cases hnew).1.storage
    rw [hst] at hpos
    cases hpos

/-- What a snapshot of the machine restores is the effect of the entries up to its index. -/
lemma Sound.restore_snapshot {t : ℕ} {i : NodeID} (h : S.Sound ev t i)
    (hread : S.ReadsBack ev t i) :
    ∃ c, S.cluster.Decided (S.events ev) t c ∧ c.length = (S.sm ev t i).snapshot.2 ∧
      restore S.parse (S.sm ev t i).snapshot.1 = .ok (S.effect c) := by
  obtain ⟨c, hc, -, hsm⟩ := h.state
  have hcov : Covers S.parse (S.effect c) c := covers_applyAll hc.contiguous
  have hsplit : S.effect c = (S.effect (c.take (S.effect c).lastIndex)).applyAll S.parse
      (c.drop (S.effect c).lastIndex) := by
    rw [effect, effect, ← KV.applyAll_append, List.take_append_drop]
  rw [KV.applyAll_of_unreadable hcov.unreadable] at hsplit
  refine ⟨c.take (S.effect c).lastIndex, hc.of_prefix (List.take_prefix _ _), ?_, ?_⟩
  · rw [List.length_take_of_le hcov.le, hsm]
    rfl
  · rw [Kvsm.restore_snapshot hread.index hread.parse, hsm, ← hsplit]

variable {b : ℕ} (hgood : ∀ u < b, ¬ S.cluster.AcceptsStaleTail (S.events ev) u)
include hgood

/-- `Apply` is called after the effect of the decided entries before. -/
lemma Sound.applies {t : ℕ} (ht : t ≤ b) {i : NodeID} (h : S.Sound ev t i) {e : Entry}
    (happ : S.cluster.AppliesAt (S.events ev) t i e) :
    ∃ c, S.cluster.Decided (S.events ev) t (c ++ [e]) ∧ c.length + 1 = e.index ∧
      S.sm ev t i = S.effect c := by
  obtain ⟨c, hc, hlen, hsm⟩ := h.state
  obtain ⟨hdec, hsplit⟩ := happ.decided
  obtain ⟨hpos, hle, hlog⟩ := happ.next
  obtain ⟨hseen, -⟩ := happ.seen
  have hlt := (List.getElem?_eq_some_iff.mp hlog).1
  rw [hsplit] at hdec
  have hbefore := hdec.of_prefix (List.prefix_append _ _)
  have heq : c = (S.cluster.node (S.events ev) t i).log.take (e.index - 1) := by
    refine ((hc.mono ht).prefix_of_le hgood (hbefore.mono ht) ?_).eq_of_length ?_
    · rw [List.length_take_of_le hlt.le]
      omega
    · rw [List.length_take_of_le hlt.le]
      omega
  exact ⟨c, heq ▸ hdec, by omega, hsm⟩

lemma Sound.state_succ {t : ℕ} (ht : t ≤ b) {i : NodeID} (hi : i ∈ S.cluster.peers)
    (h : S.Sound ev t i) :
    ∃ c, S.cluster.Decided (S.events ev) (t + 1) c ∧
      c.length = (S.cluster.host (S.events ev) (t + 1) i).seen ∧
      S.sm ev (t + 1) i = S.effect c := by
  rcases Cluster.seen_cases (S.events ev) hi t with
    ⟨hre, hseen⟩ | ⟨hlife, e, happ, -, hseen⟩ | ⟨hlife, happ, hseen⟩
  · -- a new lifetime, with the machine of the snapshot
    rw [S.sm_of_reboots ev hre, loaded]
    split_ifs with hsnap
    · obtain ⟨c, hc, hlen, hrestore⟩ := h.snap hsnap
      rw [hrestore]
      exact ⟨c, hc.mono (Nat.le_succ t), hlen.trans hseen.symm, rfl⟩
    · refine ⟨[], .nil _, ?_, rfl⟩
      rw [hseen, List.length_nil]
      omega
  · obtain ⟨c, hc, hlen, hsm⟩ := h.applies hgood ht happ
    refine ⟨c ++ [e], hc.mono (Nat.le_succ t), ?_, ?_⟩
    · rw [List.length_append, List.length_singleton, hlen, hseen]
    · rw [S.sm_of_applies ev hlife happ, effect_concat, hsm]
  · obtain ⟨c, hc, hlen, hsm⟩ := h.state
    exact ⟨c, hc.mono (Nat.le_succ t), hlen.trans hseen.symm,
      (S.sm_of_rest ev hlife happ).trans hsm⟩

omit hgood in
lemma Sound.snap_succ {t : ℕ} {i : NodeID} (hi : i ∈ S.cluster.peers)
    (hread : S.ReadsBack ev t i) (h : S.Sound ev t i)
    (hpos : 0 < (S.cluster.node (S.events ev) (t + 1) i).storage.snap.index) :
    ∃ c, S.cluster.Decided (S.events ev) (t + 1) c ∧
      c.length = (S.cluster.node (S.events ev) (t + 1) i).storage.snap.index ∧
      restore S.parse (S.cluster.node (S.events ev) (t + 1) i).storage.snap.data =
        .ok (S.effect c) := by
  rcases Cluster.snap_cases (S.events ev) hi t with hsnap |
    ⟨data, idx, err, hen, rfl, ha, hidx, hdata⟩
  · rw [hsnap] at hpos ⊢
    obtain ⟨c, hc, hrest⟩ := h.snap hpos
    exact ⟨c, hc.mono (Nat.le_succ t), hrest⟩
  · -- the blob and the index are those the machine gives
    have hans := S.answered_events ev hen
    rw [ha] at hans
    cases hans
    rw [hidx, hdata]
    obtain ⟨c, hc, hrest⟩ := h.restore_snapshot hread
    exact ⟨c, hc.mono (Nat.le_succ t), hrest⟩

/-- Every machine is the effect of decided entries. -/
theorem sound (hread : ∀ t < b, ∀ i ∈ S.cluster.peers, S.ReadsBack ev t i) {i : NodeID}
    (hi : i ∈ S.cluster.peers) {t : ℕ} (ht : t ≤ b) : S.Sound ev t i := by
  induction t with
  | zero => exact sound_zero hi
  | succ t ih =>
      have h := ih (by omega)
      exact ⟨h.state_succ hgood (by omega) hi, h.snap_succ hi (hread t ht i hi)⟩

end Sound

end Service

end Kv

end ToyRaft
