import ToyRaft.Properties.HubDelivery
import ToyRaft.Properties.StateMachineSafety
import ToyRaft.Runtime.Stretches
import ToyRaft.Testing.Harness

/-!
# The assertions of the test cluster (`internal/raftest/cluster.go`)

A test drives its nodes through `TickForTest` and `DrainForTest`, and moves their messages through
the hub.  Every state it can bring about belongs to a run of the cluster (`Explained`): each of its
operations is a stretch of such a run, the core of every node is the core of a host
(`AtRest.drainAndApply`, `Shadows`), and whatever the hub or a channel holds has been sent
(`Mirrors`, `Advances`).

So what the assertions look for can be read off what holds in every run.  Two leaders of one term
and logs that break log matching are never found.  A changed committed entry can be: in
`staleAnswer` the assertion of the project finds one.
-/

namespace ToyRaft

/-! ## Panics -/

namespace Host

variable {ρ : Type} {cfg : Config}

lemma propose_frame (h : Host ρ) (env : Env) (data : Data) :
    (h.propose env data).flush = h.flush ∧ (h.propose env data).crashed = h.crashed ∧
      (h.propose env data).stopped = h.stopped ∧ (h.propose env data).applier = h.applier := by
  unfold Host.propose
  split_ifs
  · exact ⟨rfl, rfl, rfl, rfl⟩
  · exact ⟨rfl, rfl, rfl, rfl⟩
  · split <;> exact ⟨rfl, rfl, rfl, rfl⟩

lemma crashed_afterStep {h : Host ρ} (hrun : h.crashed = false) {env : Env} {m : Message}
    (hm : h.node.step env m ≠ none) : (h.afterStep (h.node.step env m)).crashed = false := by
  cases hstep : h.node.step env m with
  | none => exact (hm hstep).elim
  | some x => exact hrun

/-- A node goes down in `Step` only, on a message it has been sent. -/
lemma crashed_act {h : Host ρ} (hrun : h.crashed = false) {a : Act ρ}
    (hstep : ∀ m env, a = .step m env → h.node.step env m ≠ none) :
    (h.act cfg a).1.crashed = false := by
  have hfires := fires_of_act cfg h a
  generalize (h.act cfg a).1 = h', (h.act cfg a).2 = out at hfires ⊢
  cases hfires with
  | restart _ _ _ _ hnew => exact (new_cases hnew).2.2
  | step => exact crashed_afterStep hrun (hstep _ _ rfl)
  | tick =>
      refine crashed_afterStep hrun fun hnone => ?_
      cases (Node.step_eq_none hnone).1
  | propose => exact (h.propose_frame _ _).2.1.trans hrun
  | @applyDone e out =>
      unfold applyDone resolve
      cases out <;> dsimp only <;> split <;> exact hrun
  | checkpoint =>
      unfold checkpoint
      dsimp only
      split
      · split_ifs <;> exact hrun
      · exact hrun
  | drain =>
      unfold drain
      dsimp only
      split_ifs
      · exact hrun
      · split <;> exact hrun
  | _ => exact hrun

end Host

/-- Without a stale tail no node panics. -/
lemma Cluster.crashed_eq_false {ρ : Type} (C : Cluster) (ev : ℕ → Event ρ) {t : ℕ}
    (hgood : ∀ u < t, ¬ C.AcceptsStaleTail ev u) {i : NodeID} (hi : i ∈ C.peers) :
    (C.host ev t i).crashed = false := by
  induction t with
  | zero => exact (Host.new_cases (C.new_start ρ hi)).2.2
  | succ t ih =>
      have hgood' : ∀ u < t, ¬ C.AcceptsStaleTail ev u :=
        fun u hu => hgood u (Nat.lt_succ_of_lt hu)
      rcases C.step_cases ev t i with ⟨sent, hm⟩ | ⟨heq, -⟩
      · rw [hm.host]
        refine Host.crashed_act (ih hgood') fun m env ha hnone => ?_
        obtain ⟨hnet, hto⟩ := hm.inbound m (by rw [ha]; rfl)
        obtain ⟨htype, hterm, hprev, hfc, -, hle⟩ := Node.step_eq_none hnone
        have hlt := C.commitIndex_lt_firstConflict ev hgood' hi hnet hto htype hterm hprev hfc
        exact Nat.not_lt.mpr hle hlt
      · rw [heq]
        exact ih hgood'

namespace Seam

variable {ρ : Type} {cfg : Config}

/-! ## The synchronous driver -/

lemma driveAll_append (ds ds' : List (Drive ρ)) (s : Seam ρ) :
    driveAll cfg (ds ++ ds') s =
      ((driveAll cfg ds' (driveAll cfg ds s).1).1,
        (driveAll cfg ds s).2 ++ (driveAll cfg ds' (driveAll cfg ds s).1).2) := by
  induction ds generalizing s with
  | nil => simp [driveAll]
  | cons d ds ih => simp [driveAll, ih, List.append_assoc]

/-- The node is up, and neither its driver nor its state machine is at work. -/
structure AtRest (s : Seam ρ) : Prop where
  rests : s.host.Rests
  loop : s.loop = none
  applier : s.host.applier = .idle

/-- In the loop of `applyCommittedForTest`, with `k` rounds to go at most. -/
structure Applying (n : Node) (k : ℕ) (s : Seam ρ) : Prop where
  rests : s.host.Rests
  node : s.host.node = n
  applier : s.host.applier = .idle
  loop : ∀ i ci, s.loop = some (i, ci) → ci + 1 - i ≤ k

/-- `applyOne`, after the call of `Apply`: the core is left alone. -/
lemma Applying.finish {n : Node} {k : ℕ} {s : Seam ρ} (hr : s.host.Rests) (hn : s.host.node = n)
    (hk : ∀ i ci, s.loop = some (i, ci) → ci + 1 - i ≤ k)
    (happ : s.host.applier = .idle ∨
      ∃ e res err, s.host.applier = .applied e (.returned res err)) :
    Applying n k
        (driveAll cfg [.act .applyDone, .act (.checkpoint .unsupported false)] s).1 ∧
      (driveAll cfg [.act .applyDone, .act (.checkpoint .unsupported false)] s).2 = [] := by
  have hrun := hr.crashed
  have hstop := hr.stopped
  -- once the applier is idle or about to checkpoint, the last step leaves it idle
  have hlast : ∀ {s' : Seam ρ}, s'.host.Rests → s'.host.node = n → s'.loop = s.loop →
      s'.host.applier = .idle ∨ s'.host.applier = .checkpointing →
      Applying n k (s'.drive cfg (.act (.checkpoint .unsupported false))).1 ∧
        (s'.drive cfg (.act (.checkpoint .unsupported false))).2 = [] := by
    intro s' hr' hn' hloop' happ'
    rcases happ' with happ' | happ'
    · have hd : s'.drive cfg (.act (.checkpoint .unsupported false)) = (s', []) := by
        simp [drive, admits, Host.act, Host.reboots, hr'.crashed, hr'.stopped, happ']
      rw [hd]
      exact ⟨⟨hr', hn', happ', by rw [hloop']; exact hk⟩, rfl⟩
    · have hd : s'.drive cfg (.act (.checkpoint .unsupported false)) =
          ({ s' with host := { s'.host with applier := .idle } }, []) := by
        simp [drive, admits, Host.act, Host.reboots, Host.checkpoint, hr'.crashed, happ']
      rw [hd]
      exact ⟨⟨⟨hr'.crashed, hr'.stopped, hr'.flush, hr'.started⟩, hn', rfl,
        by rw [hloop']; exact hk⟩, rfl⟩
  rcases happ with happ | ⟨e, res, err, happ⟩
  · have hd : s.drive cfg (.act .applyDone) = (s, []) := by
      simp [drive, admits, Host.act, Host.reboots, hrun, happ]
    simp only [driveAll, hd, List.nil_append, List.append_nil]
    exact hlast hr hn rfl (.inl happ)
  · have hd : s.drive cfg (.act .applyDone) =
        ({ s with host := s.host.applyDone e (.returned res err) }, []) := by
      simp [drive, admits, Host.act, Host.reboots, hrun, happ]
    simp only [driveAll, hd, List.nil_append, List.append_nil]
    obtain ⟨hnode, hflush⟩ := s.host.applyDone_core e (.returned res err)
    have hrest : (s.host.applyDone e (.returned res err)).crashed = s.host.crashed ∧
        (s.host.applyDone e (.returned res err)).stopped = s.host.stopped ∧
        ((s.host.applyDone e (.returned res err)).applier = .idle ∨
          (s.host.applyDone e (.returned res err)).applier = .checkpointing) := by
      unfold Host.applyDone Host.resolve
      dsimp only
      split <;> refine ⟨rfl, rfl, ?_⟩ <;> split_ifs <;> simp
    obtain ⟨hcrashed, hstopped, happlier⟩ := hrest
    refine hlast ⟨hcrashed.trans hrun, hstopped.trans hstop, hflush.trans hr.flush, ?_⟩
      (hnode.trans hn) rfl happlier
    show (s.host.applyDone e (.returned res err)).node.started = true
    rw [hnode]
    exact hr.started

lemma Applying.round {n : Node} {k : ℕ} {s : Seam ρ} (h : Applying n (k + 1) s) (res : Option ρ)
    (err : Option String) :
    Applying n k (driveAll cfg (applyOneForTest (.returned res err)) s).1 := by
  have hrun := h.rests.crashed
  rw [applyOneForTest, ← List.singleton_append, driveAll_append]
  cases hloop : s.loop with
  | none =>
      have hd : driveAll cfg [.applyNext (.returned res err) false] s = (s, []) := by
        simp [driveAll, drive, hloop]
      rw [hd]
      exact (Applying.finish h.rests h.node (by simp [hloop]) (.inl h.applier)).1
  | some x =>
      obtain ⟨i, ci⟩ := x
      have hle := h.loop i ci hloop
      have hended : ∀ {s' : Seam ρ}, s' = { s with loop := none } →
          Applying n k (driveAll cfg [.act .applyDone, .act (.checkpoint .unsupported false)]
            s').1 := by
        rintro s' rfl
        exact (Applying.finish (s := { s with loop := none }) h.rests h.node (by simp)
          (.inl h.applier)).1
      by_cases hlt : ci < i
      · refine hended ?_
        simp [driveAll, drive, hrun, hloop, h.applier, hlt]
      · cases hget : faulty false (s.host.node.storage.getEntries i (i + 1)) with
        | error err' =>
            refine hended ?_
            simp [driveAll, drive, hrun, hloop, h.applier, hlt, hget]
        | ok es =>
            cases es with
            | nil =>
                refine hended ?_
                simp [driveAll, drive, hrun, hloop, h.applier, hlt, hget]
            | cons e es =>
                have hd : driveAll cfg [.applyNext (.returned res err) false] s =
                    ({ host := { s.host with applier := .applied e (.returned res err) }
                       loop := some (i + 1, ci) }, []) := by
                  simp [driveAll, drive, hrun, hloop, h.applier, hlt, hget]
                rw [hd]
                have hr : Host.Rests { s.host with applier := .applied e (.returned res err) } :=
                  ⟨hrun, h.rests.stopped, h.rests.flush, h.rests.started⟩
                refine (Applying.finish (s := ⟨_, some (i + 1, ci)⟩) hr h.node
                  (fun i' ci' heq => ?_) (.inr ⟨e, res, err, rfl⟩)).1
                cases heq
                omega

lemma Applying.rounds (cfg : Config) {n : Node} (k : ℕ) {s : Seam ρ} (h : Applying n k s)
    (res : Option ρ) (err : Option String) :
    AtRest (driveAll cfg ((List.replicate k (applyOneForTest (.returned res err))).flatten ++
        [.applyNext (.returned res err) false]) s).1 ∧
      (driveAll cfg ((List.replicate k (applyOneForTest (.returned res err))).flatten ++
        [.applyNext (.returned res err) false]) s).1.host.node = n := by
  induction k generalizing s with
  | zero =>
      cases hloop : s.loop with
      | none =>
          have hd : s.drive cfg (.applyNext (.returned res err) false) = (s, []) := by
            simp [drive, hloop]
          simp only [List.replicate_zero, List.flatten_nil, List.nil_append, driveAll, hd]
          exact ⟨⟨h.rests, hloop, h.applier⟩, h.node⟩
      | some x =>
          obtain ⟨i, ci⟩ := x
          have hlt : ci < i := by
            have := h.loop i ci hloop
            omega
          have hd : s.drive cfg (.applyNext (.returned res err) false) =
              ({ s with loop := none }, []) := by
            simp [drive, h.rests.crashed, hloop, h.applier, hlt]
          simp only [List.replicate_zero, List.flatten_nil, List.nil_append, driveAll, hd]
          exact ⟨⟨h.rests, rfl, h.applier⟩, h.node⟩
  | succ k ih =>
      rw [List.replicate_succ, List.flatten_cons, List.append_assoc, driveAll_append]
      exact ih (h.round res err)

lemma sends (cfg : Config) {s : Seam ρ} (hrun : s.host.crashed = false) (msgs : List Message)
    (hf : s.host.flush = .sending msgs) :
    driveAll cfg (List.replicate msgs.length (.act .send)) s =
      ({ s with host := { s.host with flush := .sending [] } }, msgs) := by
  induction msgs generalizing s with
  | nil =>
      obtain ⟨host, loop⟩ := s
      dsimp only at hf ⊢
      rw [← hf]
      rfl
  | cons m msgs ih =>
      have hd : s.drive cfg (.act .send) =
          ({ s with host := { s.host with flush := .sending msgs } }, [m]) := by
        simp [drive, admits, Host.act, Host.reboots, hrun, hf]
      have hrest := ih (s := { s with host := { s.host with flush := .sending msgs } }) hrun rfl
      simp only [List.length_cons, List.replicate_succ, driveAll, hd, hrest]
      rfl

/-- **`drainAndApplyForTest`** does to the core what a flush does, and sends the same. -/
theorem AtRest.drainAndApply (cfg : Config) {s : Seam ρ} (h : s.AtRest) (res : Option ρ)
    (err : Option String) :
    (s.drainAndApplyForTest cfg (.returned res err)).1.AtRest ∧
      (s.drainAndApplyForTest cfg (.returned res err)).1.host.node = s.host.node.flushed ∧
      (s.drainAndApplyForTest cfg (.returned res err)).2 = s.host.node.outbox := by
  have hrun := h.rests.crashed
  have hready : driveAll cfg [.act .ready, .act (.save false)] s =
      ({ s with host := { s.host with
          node := s.host.node.flushed, flush := .sending s.host.node.outbox } }, []) := by
    have hd : s.drive cfg (.act .ready) =
        ({ s with host := { s.host with
            node := { s.host.node with pendingMsgs := [], pendingHS := none }
            flush := .ready s.host.node.pendingHS s.host.node.outbox } }, []) := by
      simp [drive, admits, Host.act, Host.reboots, hrun, h.loop, h.rests.flush, Node.ready,
        Node.outbox]
    simp only [driveAll, hd]
    cases hhs : s.host.node.pendingHS <;>
      simp [drive, admits, Host.act, Host.reboots, hrun, Node.flushed, hhs]
  have hsends := sends cfg
    (s := { s with host := { s.host with
      node := s.host.node.flushed, flush := .sending s.host.node.outbox } }) hrun _ rfl
  unfold drainAndApplyForTest
  rw [hready]
  dsimp only [Flush.msgs]
  rw [hsends]
  unfold applyCommittedForTest
  have hbegin : drive cfg
      { s with host := { s.host with node := s.host.node.flushed, flush := .sending [] } }
      .applyBegin =
      ({ host := { s.host with node := s.host.node.flushed, flush := .idle }
         loop := some (s.host.appliedIdx + 1, s.host.node.commitIndex) }, []) := by
    simp only [drive, hrun, h.loop]
    rfl
  rw [hbegin]
  have happlying : Applying s.host.node.flushed (s.host.node.commitIndex - s.host.appliedIdx)
      ({ host := { s.host with node := s.host.node.flushed, flush := .idle }
         loop := some (s.host.appliedIdx + 1, s.host.node.commitIndex) } : Seam ρ) := by
    refine ⟨⟨hrun, h.rests.stopped, rfl, h.rests.started⟩, rfl, h.applier, fun i ci heq => ?_⟩
    cases heq
    omega
  obtain ⟨hrest, hnode⟩ := happlying.rounds cfg _ res err
  exact ⟨hrest, hnode, rfl⟩

end Seam

namespace Raftest

open Inproc

variable {σ : Type}

/-! ## The hub -/

lemma mem_queue_send {g : Rand σ} {h : Hub σ} {i : NodeID} {m : Message} {p : Pending}
    (hp : p ∈ (h.send g i m).1.queue) :
    p ∈ h.queue ∨ p.msg = m ∧ p.toNode = m.toNode := by
  have hcopy : ∀ d, ∀ q ∈ h.copies i m d, q.msg = m ∧ q.toNode = m.toNode := by
    intro d q hq
    cases d with
    | sent delay dup =>
        cases dup <;> simp only [Hub.copies, Bool.false_eq_true, if_false, if_true,
          List.mem_cons, List.not_mem_nil, or_false] at hq
        · subst hq
          exact ⟨rfl, rfl⟩
        · rcases hq with rfl | rfl <;> exact ⟨rfl, rfl⟩
    | _ => cases hq
  have hfold : ∀ (ps queue : List Pending),
      p ∈ ps.foldl (fun q x => q.orderedInsert Pending.Le x) queue → p ∈ queue ∨ p ∈ ps := by
    intro ps
    induction ps with
    | nil => exact fun queue hp => .inl hp
    | cons x ps ih =>
        intro queue hp
        rcases ih _ hp with hp | hp
        · rcases (List.mem_orderedInsert _).mp hp with rfl | hp
          · exact .inr List.mem_cons_self
          · exact .inl hp
        · exact .inr (List.mem_cons_of_mem _ hp)
  exact (hfold _ _ hp).imp_right (hcopy _ p)

lemma mem_drainDueSync {g : Rand σ} {h : Hub σ} {p : Pending}
    (hp : p ∈ (h.drainDueSync g).1.queue ∨ p ∈ (h.drainDueSync g).2.2) : p ∈ h.queue := by
  rw [Hub.drainDueSync_eq] at hp
  dsimp only at hp
  rw [← drainDueLocked_append h.now h.queue]
  rcases hp with hp | hp
  · exact List.mem_append_right _ hp
  · refine List.mem_append_left _ ?_
    exact (orderLocked_spec h.sortedNodes h.chaos _).1.mem_iff.mp (List.mem_of_mem_filter hp)

lemma mem_channels (puts : List Pending) {ch : NodeID → List Message} {i : NodeID} {m : Message}
    (hm : m ∈ (puts.foldl (fun (ch : NodeID → List Message) p =>
      Function.update ch p.toNode (ch p.toNode ++ [p.msg])) ch) i) :
    m ∈ ch i ∨ ∃ p ∈ puts, p.toNode = i ∧ p.msg = m := by
  induction puts generalizing ch with
  | nil => exact .inl hm
  | cons p puts ih =>
      rw [List.foldl_cons] at hm
      rcases ih hm with hm | ⟨q, hq, hqi⟩
      · by_cases hi : i = p.toNode
        · subst hi
          rw [Function.update_self] at hm
          rcases List.mem_append.mp hm with hm | hm
          · exact .inl hm
          · exact .inr ⟨p, List.mem_cons_self, rfl, (List.mem_singleton.mp hm).symm⟩
        · rw [Function.update_of_ne hi] at hm
          exact .inl hm
      · exact .inr ⟨q, List.mem_cons_of_mem _ hq, hqi⟩

/-! ## The simulation -/

/-- The host of the cluster has the core of the node under test, and both are at rest. -/
structure Shadows (s : Seam Unit) (h : Host Unit) : Prop where
  node : h.node = s.host.node
  atRest : s.AtRest
  rests : h.Rests

namespace Shadows

variable {cfg : Config} {s : Seam Unit} {h : Host Unit}

/-- `Step` has the same effect on both, or panics on both. -/
lemma afterStep (hs : Shadows s h) (env : Env) (m : Message) {s' : Seam Unit} {h' : Host Unit}
    (hs' : s' = { s with host := s.host.afterStep (s.host.node.step env m) })
    (hh' : h' = h.afterStep (h.node.step env m)) :
    (s'.host.crashed = false → Shadows s' h') ∧ (s'.host.crashed = true → h'.crashed = true) := by
  subst hs' hh'
  rw [hs.node]
  cases hstep : s.host.node.step env m with
  | none => exact ⟨fun hrun => absurd hrun (by simp [Host.afterStep]), fun _ => rfl⟩
  | some x =>
      obtain ⟨n, err⟩ := x
      have hn : n.started = true := by
        have hf := Node.follows_of_step (fun _ _ => rfl)
          (Node.handled_of_step hs.atRest.rests.started hstep)
        exact hf.started.trans hs.atRest.rests.started
      refine ⟨fun _ => ⟨rfl, ⟨?_, hs.atRest.loop, hs.atRest.applier⟩, ?_⟩,
        fun (hcr : s.host.crashed = true) => ?_⟩
      · exact ⟨hs.atRest.rests.crashed, hs.atRest.rests.stopped, hs.atRest.rests.flush, hn⟩
      · exact ⟨hs.rests.crashed, hs.rests.stopped, hs.rests.flush, hn⟩
      · exact absurd hcr (by simp [hs.atRest.rests.crashed])

lemma step (hs : Shadows s h) (m : Message) (env : Env) :
    ((s.drive cfg (.act (.step m env))).1.host.crashed = false →
      Shadows (s.drive cfg (.act (.step m env))).1 (h.act cfg (.step m env)).1) ∧
    ((s.drive cfg (.act (.step m env))).1.host.crashed = true →
      (h.act cfg (.step m env)).1.crashed = true) := by
  have hrest := hs.atRest.rests
  refine hs.afterStep env m ?_ ?_
  · simp [Seam.drive, Seam.admits, Host.act, Host.reboots, hrest.crashed, hrest.stopped]
  · simp [Host.act, hs.rests.crashed, hs.rests.stopped]

lemma tick (cfg : Config) (hs : Shadows s h) (env : Env) :
    Shadows (s.drive cfg (.act (.tick env))).1 (h.act cfg (.tick env)).1 := by
  have hrest := hs.atRest.rests
  have hdrive : (s.drive cfg (.act (.tick env))).1 =
      { s with host := s.host.afterStep (s.host.node.step env { type := .tick }) } := by
    simp [Seam.drive, Seam.admits, Host.act, Host.reboots, hrest.crashed]
  refine (hs.afterStep env { type := .tick } hdrive ?_).1 ?_
  · simp [Host.act, hs.rests.crashed]
  · rw [hdrive]
    refine Host.crashed_afterStep hrest.crashed fun hnone => ?_
    cases (Node.step_eq_none hnone).1

lemma propose (cfg : Config) (hs : Shadows s h) (data : Data) :
    Shadows (s.drive cfg (.act (.propose data {}))).1 (h.act cfg (.propose data {})).1 := by
  have hrest := hs.atRest.rests
  have hrest' := hs.rests
  have hact : (h.act cfg (.propose data {})).1 = h.propose {} data := by
    simp [Host.act, hrest'.crashed]
  have hdrive : (s.drive cfg (.act (.propose data {}))).1 =
      { s with host := s.host.propose {} data } := by
    simp [Seam.drive, Seam.admits, Host.act, Host.reboots, hrest.crashed]
  have hnode : (h.propose {} data).node = (s.host.propose {} data).node := by
    unfold Host.propose
    rw [hs.node, hrest'.stopped, hrest.stopped, if_neg Bool.false_ne_true,
      if_neg Bool.false_ne_true]
    split_ifs
    · exact hs.node
    · split <;> rfl
  have hstarted : (s.host.propose {} data).node.started = true := by
    unfold Host.propose
    split_ifs with _ hrole
    · exact hrest.started
    · exact hrest.started
    · rcases s.host.node.proposeLocked_cases {} data (not_not.mp hrole) with
        ⟨st, -, happ, heq⟩ | ⟨err, -, heq⟩
      · rw [heq]
        exact (Node.follows_of_proposed "" happ).started.trans hrest.started
      · rw [heq]
        exact hrest.started
  obtain ⟨hflush, hcrashed, hstopped, happlier⟩ := s.host.propose_frame {} data
  obtain ⟨hflush', hcrashed', hstopped', -⟩ := h.propose_frame {} data
  rw [hact, hdrive]
  refine ⟨hnode, ⟨?_, hs.atRest.loop, happlier.trans hs.atRest.applier⟩, ?_⟩
  · exact ⟨hcrashed.trans hrest.crashed, hstopped.trans hrest.stopped, hflush.trans hrest.flush,
      hstarted⟩
  · exact ⟨hcrashed'.trans hrest'.crashed, hstopped'.trans hrest'.stopped,
      hflush'.trans hrest'.flush, hnode ▸ hstarted⟩

end Shadows

namespace Harness

variable (H : Harness σ)

/-- The world of the cluster follows the test: as long as the test goes on its nodes are the same,
and everything on its way has been sent. -/
structure Mirrors (r : Rig σ) (w : World Unit) : Prop where
  nodes : r.ended = none → ∀ i ∈ H.cluster.peers, Shadows (r.nodes i) (w.hosts i)
  inbound : ∀ i, ∀ m ∈ r.inbound i, m ∈ w.net ∧ m.toNode = i
  queue : ∀ p ∈ r.hub.queue, p.msg ∈ w.net ∧ p.msg.toNode = p.toNode
  panic : ∀ v, r.ended = some v → v = .delay ∨ (∃ i, v = .hang i) ∨
    ∃ i ∈ H.cluster.peers, v = .panic i ∧ (w.hosts i).crashed = true

/-- What the test does from `r` to `r'` the cluster can follow, if every message that is handed to
a node meets `B`. -/
structure Advances (B : Node → Message → Prop) (r r' : Rig σ) : Prop where
  committed : r'.committed = r.committed
  handled : ∀ d ∈ r.handled, d ∈ r'.handled
  follows : (∀ d ∈ r'.handled, B d.1 d.2) → ∀ w, H.Mirrors r w →
    ∃ w', H.cluster.Turn B Set.univ w w' ∧ H.Mirrors r' w'

variable {H} {B : Node → Message → Prop}

lemma Advances.refl (r : Rig σ) : H.Advances B r r :=
  ⟨rfl, fun _ hd => hd, fun _ w hw => ⟨w, .refl _ _, hw⟩⟩

lemma Advances.trans {r r' r'' : Rig σ} (h : H.Advances B r r') (h' : H.Advances B r' r'') :
    H.Advances B r r'' := by
  refine ⟨h'.committed.trans h.committed, fun d hd => h'.handled d (h.handled d hd),
    fun hB w hw => ?_⟩
  obtain ⟨w', hturn, hw'⟩ := h.follows (fun d hd => hB d (h'.handled d hd)) w hw
  obtain ⟨w'', hturn', hw''⟩ := h'.follows hB w' hw'
  exact ⟨w'', hturn.trans hturn', hw''⟩

lemma Advances.foldl {α : Type} {f : Rig σ → α → Rig σ} {xs : List α}
    (hf : ∀ r, ∀ x ∈ xs, H.Advances B r (f r x)) (r : Rig σ) :
    H.Advances B r (xs.foldl f r) := by
  induction xs generalizing r with
  | nil => exact .refl r
  | cons x xs ih =>
      exact (hf r x List.mem_cons_self).trans
        (ih (fun r y hy => hf r y (List.mem_cons_of_mem _ hy)) _)

lemma Advances.guarded {r r' : Rig σ} (h : r.ended = none → H.Advances B r r') :
    H.Advances B r (if r.ended.isSome then r else r') := by
  split_ifs with hended
  · exact .refl r
  · exact h (Option.not_isSome_iff_eq_none.mp hended)

lemma Advances.of_same {r r' : Rig σ} (hnodes : r'.nodes = r.nodes)
    (hhandled : r'.handled = r.handled) (hcommitted : r'.committed = r.committed)
    (hinbound : ∀ i, ∀ m ∈ r'.inbound i, m ∈ r.inbound i ∨
      ∃ p ∈ r.hub.queue, p.toNode = i ∧ p.msg = m)
    (hqueue : ∀ p ∈ r'.hub.queue, p ∈ r.hub.queue)
    (hended : r'.ended = r.ended ∨
      r.ended = none ∧ ∀ v, r'.ended = some v → ∃ i, v = .hang i) : H.Advances B r r' := by
  refine ⟨hcommitted, fun d hd => hhandled ▸ hd,
    fun _ w hw => ⟨w, .refl _ _, fun hgo => ?_, fun i m hm => ?_, ?_, fun v hv => ?_⟩⟩
  · rw [hnodes]
    refine hw.nodes ?_
    rcases hended with heq | ⟨hnone, -⟩
    · exact heq.symm.trans hgo
    · exact hnone
  · rcases hinbound i m hm with hm | ⟨p, hp, hpi, rfl⟩
    · exact hw.inbound i m hm
    · obtain ⟨hnet, hto⟩ := hw.queue p hp
      exact ⟨hnet, hto.trans hpi⟩
  · exact fun p hp => hw.queue p (hqueue p hp)
  · rcases hended with heq | ⟨-, hhang⟩
    · exact hw.panic v (heq.symm.trans hv)
    · exact .inr (.inl (hhang v hv))

/-! ## The operations -/

/-- One node goes a step further, in the test and in the cluster. -/
lemma Mirrors.put {r : Rig σ} {w w' : World Unit} (hw : H.Mirrors r w) (hgo : r.ended = none)
    {i : NodeID} (hi : i ∈ H.cluster.peers) {s : Seam Unit} (hturn : H.cluster.Turn B {i} w w')
    (hs : s.host.crashed = false → Shadows s (w'.hosts i))
    (hpanic : s.host.crashed = true → (w'.hosts i).crashed = true) :
    H.Mirrors (put i r s) w' := by
  refine ⟨fun hgo' j hj => ?_, fun j m hm => ?_, fun p hp => ?_, fun v hv => ?_⟩
  · have hrun : s.host.crashed = false := by
      unfold Harness.put at hgo'
      simpa using hgo'
    show Shadows (Function.update r.nodes i s j) (w'.hosts j)
    by_cases hji : j = i
    · subst hji
      rw [Function.update_self]
      exact hs hrun
    · rw [Function.update_of_ne hji, hturn.others j hji]
      exact hw.nodes hgo j hj
  · obtain ⟨hnet, hto⟩ := hw.inbound j m hm
    exact ⟨hturn.net m hnet, hto⟩
  · obtain ⟨hnet, hto⟩ := hw.queue p hp
    exact ⟨hturn.net _ hnet, hto⟩
  · unfold Harness.put at hv
    dsimp only at hv
    split_ifs at hv with hcr
    obtain rfl := Option.some.inj hv
    exact .inr (.inr ⟨i, hi, rfl, hpanic hcr⟩)

/-- A message that has been sent to node `i` is handed to it. -/
lemma Mirrors.stepInbound {r : Rig σ} {w : World Unit} (hw : H.Mirrors r w) {i : NodeID}
    (hi : i ∈ H.cluster.peers) {m : Message} (hm : m ∈ w.net ∧ m.toNode = i)
    (hB : ∀ d ∈ (H.stepInbound i r m).handled, B d.1 d.2) :
    ∃ w', H.cluster.Turn B Set.univ w w' ∧ H.Mirrors (H.stepInbound i r m) w' := by
  unfold Harness.stepInbound at hB ⊢
  split_ifs at hB ⊢ with hended
  · exact ⟨w, .refl _ _, hw⟩
  have hgo := Option.not_isSome_iff_eq_none.mp hended
  have hs := hw.nodes hgo i hi
  have hq : H.cluster.Quietly B w ⟨i, .step m (H.env r i)⟩ := by
    refine ⟨⟨hi, rfl, fun x hx => ?_⟩, fun x hx => ?_⟩
    · obtain rfl := Option.some.inj hx
      exact hm
    · obtain rfl := Option.some.inj (Host.inbound_of_delivered hx)
      show B (w.hosts i).node m
      rw [hs.node]
      exact hB _ (List.mem_append_right _ (List.mem_singleton_self _))
  obtain ⟨w', hturn, hhost, -⟩ := Cluster.Turn.act hq
  refine ⟨w', hturn.mono (Set.subset_univ _), ?_⟩
  have hw₁ : H.Mirrors { r with
      steps := Function.update r.steps i (r.steps i + 1)
      handled := r.handled ++ [((r.nodes i).host.node, m)] } w :=
    ⟨hw.nodes, hw.inbound, hw.queue, hw.panic⟩
  refine hw₁.put hgo hi hturn ?_ ?_
  · rw [hhost]
    exact (hs.step m _).1
  · rw [hhost]
    exact (hs.step m _).2

lemma stepAll_frame (i : NodeID) (ms : List Message) (r : Rig σ) :
    (ms.foldl (H.stepInbound i) r).committed = r.committed ∧
      ∀ d ∈ r.handled, d ∈ (ms.foldl (H.stepInbound i) r).handled := by
  induction ms generalizing r with
  | nil => exact ⟨rfl, fun _ hd => hd⟩
  | cons m ms ih =>
      have hone : (H.stepInbound i r m).committed = r.committed ∧
          ∀ d ∈ r.handled, d ∈ (H.stepInbound i r m).handled := by
        unfold Harness.stepInbound
        split_ifs
        · exact ⟨rfl, fun _ hd => hd⟩
        · exact ⟨rfl, fun d hd => List.mem_append_left _ hd⟩
      obtain ⟨hcommitted, hhandled⟩ := ih (H.stepInbound i r m)
      exact ⟨hcommitted.trans hone.1, fun d hd => hhandled d (hone.2 d hd)⟩

lemma Mirrors.stepAll {i : NodeID} (hi : i ∈ H.cluster.peers) (ms : List Message) {r : Rig σ}
    {w : World Unit} (hw : H.Mirrors r w) (hms : ∀ m ∈ ms, m ∈ w.net ∧ m.toNode = i)
    (hB : ∀ d ∈ (ms.foldl (H.stepInbound i) r).handled, B d.1 d.2) :
    ∃ w', H.cluster.Turn B Set.univ w w' ∧ H.Mirrors (ms.foldl (H.stepInbound i) r) w' := by
  induction ms generalizing r w with
  | nil => exact ⟨w, .refl _ _, hw⟩
  | cons m ms ih =>
      obtain ⟨hm, hms⟩ := List.forall_mem_cons.mp hms
      obtain ⟨w', hturn, hw'⟩ := hw.stepInbound (B := B) hi hm fun d hd =>
        hB d ((stepAll_frame i ms (H.stepInbound i r m)).2 d hd)
      obtain ⟨w'', hturn', hw''⟩ := ih hw'
        (fun x hx => ⟨hturn.net x (hms x hx).1, (hms x hx).2⟩) hB
      exact ⟨w'', hturn.trans hturn', hw''⟩

lemma advances_drainInbound (r : Rig σ) {i : NodeID} (hi : i ∈ H.cluster.peers) :
    H.Advances B r (H.drainInbound r i) := by
  obtain ⟨hcommitted, hhandled⟩ := stepAll_frame (H := H) i (r.inbound i)
    { r with inbound := Function.update r.inbound i [] }
  refine ⟨hcommitted, hhandled, fun hB w hw => ?_⟩
  refine Mirrors.stepAll hi (r.inbound i) ⟨hw.nodes, fun j m hm => ?_, hw.queue, hw.panic⟩
    (fun m hm => hw.inbound i m hm) hB
  dsimp only at hm
  by_cases hj : j = i
  · subst hj
    rw [Function.update_self] at hm
    cases hm
  · rw [Function.update_of_ne hj] at hm
    exact hw.inbound j m hm

/-- A message that has been sent goes to the hub. -/
lemma Mirrors.send {r : Rig σ} {w : World Unit} (hw : H.Mirrors r w) (i : NodeID) {m : Message}
    (hm : m ∈ w.net) : H.Mirrors (H.send i r m) w := by
  unfold Harness.send
  by_cases hended : r.ended.isSome
  · rwa [if_pos hended]
  rw [if_neg hended]
  refine ⟨fun _ => hw.nodes (Option.not_isSome_iff_eq_none.mp hended), hw.inbound,
    fun p hp => ?_, fun v hv => .inl ?_⟩
  · rcases mem_queue_send hp with hp | ⟨rfl, hto⟩
    · exact hw.queue p hp
    · exact ⟨hm, hto.symm⟩
  · dsimp only at hv
    split_ifs at hv
    exact (Option.some.inj hv).symm

lemma sendAll_frame (i : NodeID) (sent : List Message) (r : Rig σ) :
    (sent.foldl (H.send i) r).committed = r.committed ∧
      (sent.foldl (H.send i) r).handled = r.handled := by
  induction sent generalizing r with
  | nil => exact ⟨rfl, rfl⟩
  | cons m sent ih =>
      have hone : (H.send i r m).committed = r.committed ∧
          (H.send i r m).handled = r.handled := by
        unfold Harness.send
        split_ifs <;> exact ⟨rfl, rfl⟩
      exact ⟨(ih _).1.trans hone.1, (ih _).2.trans hone.2⟩

lemma Mirrors.sendAll (i : NodeID) (sent : List Message) {r : Rig σ} {w : World Unit}
    (hw : H.Mirrors r w) (hsent : ∀ m ∈ sent, m ∈ w.net) :
    H.Mirrors (sent.foldl (H.send i) r) w := by
  induction sent generalizing r with
  | nil => exact hw
  | cons m sent ih =>
      obtain ⟨hm, hsent⟩ := List.forall_mem_cons.mp hsent
      exact ih (hw.send i hm) hsent

/-- After some step of its own, node `i` flushes. -/
lemma Mirrors.flush {r : Rig σ} {w w₁ : World Unit} (hw : H.Mirrors r w) (hgo : r.ended = none)
    {i : NodeID} (hi : i ∈ H.cluster.peers) (hturn : H.cluster.Turn B {i} w w₁) {s : Seam Unit}
    (hs : Shadows s (w₁.hosts i)) {s' : Seam Unit} {sent : List Message}
    (heq : s.drainAndApplyForTest (H.cluster.cfg i) applied = (s', sent)) :
    ∃ w', H.cluster.Turn B Set.univ w w' ∧
      H.Mirrors (sent.foldl (H.send i) (Harness.put i r s')) w' := by
  obtain ⟨hrest, hnode, hsent⟩ := hs.atRest.drainAndApply (H.cluster.cfg i) (some ()) none
  rw [show ApplyOutcome.returned (some ()) none = applied from rfl, heq] at hrest hnode hsent
  obtain ⟨w', hturn', hrest', hnode', hnet⟩ := Cluster.Turn.flush B hi hs.rests
  have hshadow : Shadows s' (w'.hosts i) := by
    refine ⟨?_, hrest, hrest'⟩
    rw [hnode', hs.node]
    exact hnode.symm
  have hput := hw.put hgo hi (hturn.trans hturn') (fun _ => hshadow) fun hcr => by
    cases hcr.symm.trans hrest.rests.crashed
  refine ⟨w', (hturn.trans hturn').mono (Set.subset_univ _), hput.sendAll i _ fun m hm => ?_⟩
  rw [hnet, hs.node, ← hsent]
  exact List.mem_append_right _ hm

lemma advances_drainNode (r : Rig σ) {i : NodeID} (hi : i ∈ H.cluster.peers) :
    H.Advances B r (H.drainNode r i) := by
  refine .guarded fun hgo => ?_
  unfold Seam.drainForTest
  cases heq : (r.nodes i).drainAndApplyForTest (H.cluster.cfg i) applied with
  | mk s' sent =>
      obtain ⟨hcommitted, hhandled⟩ := sendAll_frame (H := H) i sent (put i r s')
      refine ⟨hcommitted, fun d hd => hhandled.symm ▸ hd, fun _ w hw => ?_⟩
      exact hw.flush hgo hi (.refl _ _) (hw.nodes hgo i hi) heq

lemma advances_tickNode (r : Rig σ) {i : NodeID} (hi : i ∈ H.cluster.peers) :
    H.Advances B r (H.tickNode r i) := by
  refine .guarded fun hgo => ?_
  unfold Seam.tickForTest
  cases heq : Seam.drainAndApplyForTest (H.cluster.cfg i) applied
      ((r.nodes i).drive (H.cluster.cfg i) (.act (.tick (H.env r i)))).1 with
  | mk s' sent =>
      obtain ⟨hcommitted, hhandled⟩ := sendAll_frame (H := H) i sent
        (put i { r with steps := Function.update r.steps i (r.steps i + 1) } s')
      refine ⟨hcommitted, fun d hd => hhandled.symm ▸ hd, fun _ w hw => ?_⟩
      have hs := hw.nodes hgo i hi
      have hq : H.cluster.Quietly B w ⟨i, .tick (H.env r i)⟩ := by
        refine ⟨⟨hi, rfl, fun m hm => ?_⟩, fun m hm => ?_⟩
        · cases hm
        · cases Host.inbound_of_delivered hm
      obtain ⟨w₁, hturn, hhost, -⟩ := Cluster.Turn.act hq
      have hs₁ := hs.tick (H.cluster.cfg i) (H.env r i)
      rw [← hhost] at hs₁
      have hw' : H.Mirrors { r with steps := Function.update r.steps i (r.steps i + 1) } w :=
        ⟨hw.nodes, hw.inbound, hw.queue, hw.panic⟩
      exact hw'.flush hgo hi hturn hs₁ heq

lemma advances_deliveryQuiesce (r : Rig σ) : H.Advances B r (H.deliveryQuiesce r) := by
  refine .guarded fun hgo => .of_same rfl rfl rfl (fun i m hm => ?_)
    (fun p hp => mem_drainDueSync (.inl hp)) (.inr ⟨hgo, fun v hv => ?_⟩)
  · refine (mem_channels _ hm).imp_right fun ⟨p, hp, hpi, hpm⟩ => ?_
    exact ⟨p, mem_drainDueSync (.inr hp), hpi, hpm⟩
  · obtain ⟨i, -, rfl⟩ := Option.map_eq_some_iff.mp hv
    exact ⟨i, rfl⟩

lemma advances_tick (d : ℕ) (r : Rig σ) : H.Advances B r (H.tick d r) := by
  have hclock : H.Advances B r { r with hub := { r.hub with now := r.hub.now + d } } :=
    .of_same rfl rfl rfl (fun _ _ hm => .inl hm) (fun _ hp => hp) (.inl rfl)
  refine ((hclock.trans (.foldl (fun r i hi => ?_) _)).trans
    (advances_deliveryQuiesce _)).trans (.foldl (fun r i hi => ?_) _)
  · exact (advances_drainInbound r hi).trans (advances_tickNode _ hi)
  · exact (advances_drainInbound r hi).trans (advances_drainNode _ hi)

lemma advances_proposeInto (id : NodeID) (op : Data) {r : Rig σ} (hgo : r.ended = none) :
    H.Advances B r (H.proposeInto id op r) := by
  unfold proposeInto
  split_ifs with h
  · refine ⟨rfl, fun d hd => hd, fun _ w hw => ?_⟩
    have hq : H.cluster.Quietly B w ⟨id, .propose op {}⟩ := by
      refine ⟨⟨h.1, rfl, fun m hm => ?_⟩, fun m hm => ?_⟩
      · cases hm
      · cases Host.inbound_of_delivered hm
    obtain ⟨w', hturn, hhost, -⟩ := Cluster.Turn.act hq
    have hs := (hw.nodes hgo id h.1).propose (H.cluster.cfg id) op
    rw [← hhost] at hs
    refine ⟨w', hturn.mono (Set.subset_univ _), hw.put hgo h.1 hturn (fun _ => hs) fun hcr => ?_⟩
    cases hcr.symm.trans hs.atRest.rests.crashed
  · exact .refl r

lemma advances_turn (r : Rig σ) {e : Inproc.Event}
    (he : (r.hub.step H.rand e).1.queue = r.hub.queue) : H.Advances B r (H.turn r e) :=
  .of_same rfl rfl rfl (fun _ _ hm => .inl hm) (fun p hp => by rwa [turn, he] at hp) (.inl rfl)

/-- **One operation** of a test is a stretch of a run of the cluster. -/
lemma advances_perform {r : Rig σ} (hgo : r.ended = none) (op : Op) :
    H.Advances B r (H.perform r op) := by
  cases op with
  | tick d => exact advances_tick d r
  | proposeInto id op => exact advances_proposeInto id op hgo
  | proposeToLeader op =>
      show H.Advances B r (H.proposeToLeader op r)
      unfold proposeToLeader
      split
      · exact .refl r
      · exact advances_proposeInto _ op hgo
  | partition | heal | dropRate | delay | reorder | duplicate => exact advances_turn r rfl
  | assertAtMostOneLeaderPerTerm | assertLogMatching | assertNoCommittedEntryLost =>
      exact .refl r

lemma queue_connect (ids : List NodeID) (h : Hub σ) :
    (ids.foldl Hub.connect h).queue = h.queue := by
  induction ids generalizing h with
  | nil => rfl
  | cons id ids ih =>
      rw [List.foldl_cons, ih]
      unfold Hub.connect
      split_ifs <;> rfl

lemma mirrors_newCluster (H : Harness σ) (chaos : Chaos σ) :
    H.Mirrors (H.newCluster chaos) H.cluster.init := by
  refine ⟨fun _ i hi => ?_, fun i m hm => ?_, fun p hp => ?_, fun v hv => ?_⟩
  · obtain ⟨hrest, happlier⟩ := Host.rests_of_new (H.cluster.new_start Unit hi)
    exact ⟨rfl, ⟨hrest, rfl, happlier⟩, hrest⟩
  · cases hm
  · rw [newCluster, queue_connect] at hp
    cases hp
  · cases hv

end Harness

/-! ## The assertions -/

section Assertions

variable {l l' : List Entry}

lemma differ_self (e : Entry) : differ e e = false := by simp [differ]

/-- Logs that agree up to a common term pass the test of a pair. -/
lemma assertPairLogMatch_eq_none (a b : NodeID)
    (hmatch : ∀ p x y, l[p]? = some x → l'[p]? = some y → x.term = y.term →
      l.take (p + 1) = l'.take (p + 1)) (k : ℕ) : assertPairLogMatch a b l l' k = none := by
  induction k with
  | zero => rfl
  | succ k ih =>
      unfold assertPairLogMatch
      split
      · rename_i x y hx hy
        split_ifs with hterm
        · exact ih
        · have htake := hmatch k x y hx hy (not_not.mp hterm)
          have hsame : divergence l l' k = none := by
            refine List.find?_eq_none.mpr fun m hm => ?_
            have hm' : m < k + 1 := List.mem_range.mp hm
            have hget : l[m]? = l'[m]? := by
              rw [← List.getElem?_take_of_lt hm', htake, List.getElem?_take_of_lt hm']
            rw [hget]
            cases l'[m]? <;> simp [differ_self]
          rw [hsame]
          rfl
      · rfl

lemma length_le_one {ids : List NodeID} (hnd : ids.Nodup) (h : ∀ i ∈ ids, ∀ j ∈ ids, i = j) :
    ids.length ≤ 1 := by
  match ids with
  | [] => simp
  | [_] => simp
  | i :: j :: _ =>
      have hij := h i (by simp) j (by simp)
      simp [hij] at hnd

end Assertions

namespace Harness

variable {H : Harness σ} {B : Node → Message → Prop} {r : Rig σ} {ev : ℕ → Event Unit} {T : ℕ}

lemma Mirrors.node (hw : H.Mirrors r (H.cluster.world ev T)) (hgo : r.ended = none) {i : NodeID}
    (hi : i ∈ H.cluster.peers) : (r.nodes i).host.node = H.cluster.node ev T i :=
  (hw.nodes hgo i hi).node.symm

lemma Mirrors.leaders (hw : H.Mirrors r (H.cluster.world ev T)) (hgo : r.ended = none) :
    H.assertAtMostOneLeaderPerTerm r = none := by
  refine List.findSome?_eq_none_iff.mpr fun i _ => if_neg (Nat.not_lt.mpr ?_)
  have hleads : ∀ j ∈ H.leadersByTerm r (r.nodes i).host.node.currentTerm,
      H.cluster.LeaderAt ev T j (r.nodes i).host.node.currentTerm := by
    intro j hj
    obtain ⟨hj, hlead⟩ := List.mem_filter.mp hj
    obtain ⟨hrole, hterm⟩ := Bool.and_eq_true_iff.mp hlead
    rw [isLeader, hw.node hgo hj] at hrole
    rw [hw.node hgo hj] at hterm
    exact ⟨of_decide_eq_true hrole, of_decide_eq_true hterm⟩
  refine length_le_one (H.cluster.nodup.filter _) fun j hj k hk => ?_
  exact H.cluster.leader_unique ev (hleads j hj) (hleads k hk)

/-- The log a test reads off the storage is the log of the node. -/
lemma Mirrors.logFromStorage (hw : H.Mirrors r (H.cluster.world ev T)) (hgo : r.ended = none)
    {i : NodeID} (hi : i ∈ H.cluster.peers) :
    logFromStorage (r.nodes i).host.node.storage = .ok (H.cluster.node ev T i).log := by
  have hmirror := (H.cluster.shaped ev hi T).mirrored
  rw [hw.node hgo hi, Raftest.logFromStorage]
  split_ifs with hlast
  · rw [← hmirror, List.length_eq_zero_iff.mp hlast]
  · exact (Storage.getEntries_all _).trans (congrArg _ hmirror)

lemma Mirrors.logs (hw : H.Mirrors r (H.cluster.world ev T)) (hgo : r.ended = none) :
    H.logs r = .ok (H.cluster.peers.map fun i => (i, (H.cluster.node ev T i).log)) := by
  have key : ∀ ps : List NodeID, (∀ i ∈ ps, i ∈ H.cluster.peers) →
      ps.mapM (logOf r) = .ok (ps.map fun i => (i, (H.cluster.node ev T i).log)) := by
    intro ps hps
    induction ps with
    | nil => rfl
    | cons i ps ih =>
        rw [List.mapM_cons, logOf, hw.logFromStorage hgo (hps i List.mem_cons_self),
          ih fun j hj => hps j (List.mem_cons_of_mem _ hj)]
        rfl
  exact key _ fun _ hi => hi

lemma Mirrors.logMatching (hw : H.Mirrors r (H.cluster.world ev T)) (hgo : r.ended = none) :
    H.assertLogMatching r = none := by
  rw [assertLogMatching, hw.logs hgo]
  refine List.findSome?_eq_none_iff.mpr fun a ha => List.findSome?_eq_none_iff.mpr fun b hb => ?_
  obtain ⟨i, -, rfl⟩ := List.mem_map.mp ha
  obtain ⟨j, -, rfl⟩ := List.mem_map.mp hb
  split_ifs
  · rfl
  · refine assertPairLogMatch_eq_none i j (fun p x y hx hy hterm => ?_) _
    exact H.cluster.take_eq_of_term_eq ev hx hy hterm

/-! ## The record of committed entries -/

variable (H) in
/-- Every entry on record was committed at some node, at some moment up to `T`. -/
def Recorded (ev : ℕ → Event Unit) (T : ℕ) (c : AList (fun _ : ℕ => Entry)) : Prop :=
  ∀ idx e, c.lookup idx = some e → 1 ≤ idx ∧ ∃ s ≤ T, ∃ i,
    idx ≤ (H.cluster.node ev s i).commitIndex ∧ (H.cluster.node ev s i).log[idx - 1]? = some e

variable (H) in
/-- The assertion has put committed entries on record, or it has found one changed, which takes a
stale tail. -/
def Recording (ev : ℕ → Event Unit) (T : ℕ) (x : Except Violation (AList fun _ : ℕ => Entry)) :
    Prop :=
  (∃ c, x = .ok c ∧ H.Recorded ev T c) ∨
  ((∃ u < T, H.cluster.AcceptsStaleTail ev u) ∧
    ∃ id idx prev got, x = .error (.committed id idx prev got))

lemma Recording.foldlM {α : Type}
    {f : AList (fun _ : ℕ => Entry) → α → Except Violation (AList fun _ : ℕ => Entry)}
    {xs : List α} (hf : ∀ c, H.Recorded ev T c → ∀ x ∈ xs, H.Recording ev T (f c x))
    {c : AList (fun _ : ℕ => Entry)} (hc : H.Recorded ev T c) :
    H.Recording ev T (xs.foldlM f c) := by
  induction xs generalizing c with
  | nil => exact .inl ⟨c, rfl, hc⟩
  | cons x xs ih =>
      rw [List.foldlM_cons]
      rcases hf c hc x List.mem_cons_self with ⟨c', hc', hrec⟩ | ⟨hstale, id, idx, prev, got, he⟩
      · rw [hc']
        exact ih (fun c hc y hy => hf c hc y (List.mem_cons_of_mem _ hy)) hrec
      · rw [he]
        exact .inr ⟨hstale, id, idx, prev, got, rfl⟩

lemma recording_recordCommitted {c : AList (fun _ : ℕ => Entry)} (hc : H.Recorded ev T c)
    {id : NodeID} {idx : ℕ} {got : Entry} (hpos : 1 ≤ idx)
    (hidx : idx ≤ (H.cluster.node ev T id).commitIndex)
    (hgot : (H.cluster.node ev T id).log[idx - 1]? = some got) :
    H.Recording ev T (recordCommitted id c idx got) := by
  unfold recordCommitted
  cases hprev : c.lookup idx with
  | none =>
      refine .inl ⟨_, rfl, fun k e hk => ?_⟩
      by_cases hki : k = idx
      · subst hki
        rw [AList.lookup_insert] at hk
        obtain rfl := Option.some.inj hk
        exact ⟨hpos, T, le_rfl, id, hidx, hgot⟩
      · rw [AList.lookup_insert_ne hki] at hk
        exact hc k e hk
  | some prev =>
      dsimp only
      by_cases hgood : ∃ u < T, H.cluster.AcceptsStaleTail ev u
      · split_ifs
        · exact .inr ⟨hgood, id, idx, prev, got, rfl⟩
        · exact .inl ⟨c, rfl, hc⟩
      · push Not at hgood
        obtain ⟨-, s, hs, i, hcommit, hlog⟩ := hc idx prev hprev
        obtain ⟨e, he, he'⟩ :=
          H.cluster.committed_agree ev hgood hs le_rfl hpos hcommit hidx
        obtain rfl : e = prev := Option.some.inj (he.symm.trans hlog)
        obtain rfl : e = got := Option.some.inj (he'.symm.trans hgot)
        rw [differ_self, if_neg Bool.false_ne_true]
        exact .inl ⟨c, rfl, hc⟩

lemma Mirrors.recording_recordNode (hw : H.Mirrors r (H.cluster.world ev T))
    (hgo : r.ended = none) {c : AList (fun _ : ℕ => Entry)} (hc : H.Recorded ev T c) {id : NodeID}
    (hid : id ∈ H.cluster.peers) : H.Recording ev T (recordNode r c id) := by
  rw [recordNode, hw.logFromStorage hgo hid]
  refine Recording.foldlM (fun c hc x hx => ?_) hc
  obtain ⟨e, idx⟩ := x
  obtain ⟨hpos, hget⟩ := List.mem_zipIdx_iff_le_and_getElem?_sub.mp hx
  rw [hw.node hgo hid, List.getElem?_take] at hget
  split_ifs at hget with hlt
  exact recording_recordCommitted hc hpos (by omega) hget

/-! ## Whole tests -/

variable (H) in
/-- The state of the test belongs to a run of the cluster in which every delivery meets `B`. -/
def Explained (B : Node → Message → Prop) (r : Rig σ) : Prop :=
  ∃ (ev : ℕ → Event Unit) (T : ℕ),
    (∀ u < T, H.cluster.Quietly B (H.cluster.world ev u) (ev u)) ∧
    H.Mirrors r (H.cluster.world ev T) ∧ H.Recorded ev T r.committed

/-- What ends the test is no verdict on the nodes, or it is the work of a stale tail, accepted in a
delivery that meets `B`. -/
def Blamed (B : Node → Message → Prop) : Violation → Prop
  | .delay | .hang _ => True
  | .committed .. | .panic _ => ∃ n m, B n m ∧ n.KeepsStaleTail m
  | .leaders .. | .logs .. | .storage _ => False

lemma explained_newCluster (B : Node → Message → Prop) (H : Harness σ) (chaos : Chaos σ) :
    H.Explained B (H.newCluster chaos) := by
  refine ⟨fun _ => ⟨"", .stop⟩, 0, fun u hu => (Nat.not_lt_zero u hu).elim,
    mirrors_newCluster H chaos, fun idx e he => ?_⟩
  cases he

lemma Explained.advance {r' : Rig σ} (h : H.Explained B r) (ha : H.Advances B r r')
    (hB : ∀ d ∈ r'.handled, B d.1 d.2) : H.Explained B r' := by
  obtain ⟨ev, T, hrun, hw, hrec⟩ := h
  obtain ⟨w', hturn, hw'⟩ := ha.follows hB _ hw
  obtain ⟨ev', n, hev, hend, hrun'⟩ := hturn.continues (fun _ _ hq => hq) hrun
  refine ⟨ev', T + n, hrun', hend ▸ hw', fun idx e he => ?_⟩
  rw [ha.committed] at he
  obtain ⟨hpos, s, hs, i, hcommit, hlog⟩ := hrec idx e he
  have hsame : H.cluster.node ev' s i = H.cluster.node ev s i := by
    unfold Cluster.node Cluster.host Cluster.world
    rw [Machine.run_congr _ fun u hu => hev u (by omega)]
  exact ⟨hpos, s, by omega, i, hsame ▸ hcommit, hsame ▸ hlog⟩

/-- A stale tail in a run whose deliveries meet `B`. -/
lemma blamed_of_stale (hrun : ∀ u < T, H.cluster.Quietly B (H.cluster.world ev u) (ev u))
    (hstale : ∃ u < T, H.cluster.AcceptsStaleTail ev u) : ∃ n m, B n m ∧ n.KeepsStaleTail m := by
  obtain ⟨u, hu, -, m, hm, hkeeps⟩ := hstale
  exact ⟨_, m, (hrun u hu).2 m hm, hkeeps⟩

lemma Explained.ended (h : H.Explained B r) : ∀ v ∈ r.ended, Blamed B v := by
  obtain ⟨ev, T, hrun, hw, -⟩ := h
  intro v hv
  rcases hw.panic v hv with rfl | ⟨i, rfl⟩ | ⟨i, hi, rfl, hcrashed⟩
  · trivial
  · trivial
  · refine blamed_of_stale hrun ?_
    by_contra hgood
    push Not at hgood
    cases (H.cluster.crashed_eq_false ev hgood hi).symm.trans hcrashed

lemma Explained.assertNoCommittedEntryLost (h : H.Explained B r) (hgo : r.ended = none) :
    (∃ r', H.assertNoCommittedEntryLost r = .ok r' ∧ H.Explained B r' ∧ r'.ended = none) ∨
    ∃ v, H.assertNoCommittedEntryLost r = .error v ∧ Blamed B v := by
  obtain ⟨ev, T, hrun, hw, hrec⟩ := h
  have hfold := Recording.foldlM (f := recordNode r)
    (fun c hc id hid => hw.recording_recordNode hgo hc hid) hrec
  unfold Harness.assertNoCommittedEntryLost
  rcases hfold with ⟨c, hc, hrec'⟩ | ⟨hstale, id, idx, prev, got, he⟩
  · rw [hc]
    exact .inl ⟨_, rfl, ⟨ev, T, hrun, ⟨hw.nodes, hw.inbound, hw.queue, hw.panic⟩, hrec'⟩, hgo⟩
  · rw [he]
    exact .inr ⟨_, rfl, blamed_of_stale hrun hstale⟩

/-- One operation: what ends the test in it is to blame on a stale tail. -/
lemma Explained.exec (h : H.Explained B r) (hgo : r.ended = none) (op : Op)
    (hB : ∀ d ∈ (H.exec r op).1.handled, B d.1 d.2) :
    (∀ v ∈ (H.exec r op).2, Blamed B v) ∧
      ((H.exec r op).2 = none → H.Explained B (H.exec r op).1) := by
  have hperform : (∀ d ∈ (H.perform r op).handled, B d.1 d.2) →
      (∀ v ∈ (H.perform r op).ended, Blamed B v) ∧
        ((H.perform r op).ended = none → H.Explained B (H.perform r op)) := by
    intro hB
    have hex := h.advance (advances_perform hgo op) hB
    exact ⟨hex.ended, fun _ => hex⟩
  cases op with
  | assertAtMostOneLeaderPerTerm =>
      obtain ⟨ev, T, -, hw, -⟩ := id h
      refine ⟨fun v hv => ?_, fun _ => h⟩
      cases (hw.leaders hgo).symm.trans hv
  | assertLogMatching =>
      obtain ⟨ev, T, -, hw, -⟩ := id h
      refine ⟨fun v hv => ?_, fun _ => h⟩
      cases (hw.logMatching hgo).symm.trans hv
  | assertNoCommittedEntryLost =>
      unfold Harness.exec
      rcases h.assertNoCommittedEntryLost hgo with ⟨r', hr', hex, -⟩ | ⟨v, hv, hblamed⟩
      · simp only [hr']
        refine ⟨fun v hv => ?_, fun _ => hex⟩
        cases hv
      · simp only [hv]
        refine ⟨fun v' hv' => ?_, fun hnone => ?_⟩
        · obtain rfl := Option.some.inj hv'
          exact hblamed
        · cases hnone
  | _ => exact hperform hB

lemma exec_frame (H : Harness σ) {r : Rig σ} (hgo : r.ended = none) (op : Op) :
    (∀ d ∈ r.handled, d ∈ (H.exec r op).1.handled) ∧
      ((H.exec r op).2 = none → (H.exec r op).1.ended = none) := by
  have hperform : (∀ d ∈ r.handled, d ∈ (H.perform r op).handled) ∧
      ((H.perform r op).ended = none → (H.perform r op).ended = none) :=
    ⟨(advances_perform (B := fun _ _ => True) hgo op).handled, id⟩
  cases op with
  | assertAtMostOneLeaderPerTerm | assertLogMatching => exact ⟨fun _ hd => hd, fun _ => hgo⟩
  | assertNoCommittedEntryLost =>
      unfold Harness.exec Harness.assertNoCommittedEntryLost
      cases H.cluster.peers.foldlM (recordNode r) r.committed <;>
        exact ⟨fun _ hd => hd, fun _ => hgo⟩
  | _ => exact hperform

lemma handled_run (H : Harness σ) (ops : List Op) {r : Rig σ} (hgo : r.ended = none) :
    ∀ d ∈ r.handled, d ∈ (H.run ops r).1.handled := by
  induction ops generalizing r with
  | nil => exact fun _ hd => hd
  | cons op ops ih =>
      intro d hd
      obtain ⟨hhandled, hended⟩ := exec_frame H hgo op
      have hd' := hhandled d hd
      unfold Harness.run
      split
      · rename_i r' heq
        rw [heq] at hd' hended
        exact ih (hended rfl) d hd'
      · rename_i r' v heq
        rwa [heq] at hd'

/-- A whole test. -/
lemma Explained.run (ops : List Op) (h : H.Explained B r) (hgo : r.ended = none)
    (hB : ∀ d ∈ (H.run ops r).1.handled, B d.1 d.2) :
    ∀ v ∈ (H.run ops r).2, Blamed B v := by
  induction ops generalizing r with
  | nil =>
      intro v hv
      cases hv
  | cons op ops ih =>
      have hexec := h.exec hgo op
      have hended := (exec_frame H hgo op).2
      unfold Harness.run at hB ⊢
      split at hB
      · rename_i r' heq
        rw [heq] at hexec hended
        have hgo' := hended rfl
        exact ih ((hexec fun d hd => hB d (handled_run H ops hgo' d hd)).2 rfl) hgo' hB
      · rename_i r' v heq
        rw [heq] at hexec
        exact (hexec hB).1

/-- **What a test reports.**  Whatever a test does with its cluster, it never finds two leaders of
a term or two logs that break log matching, and no read of a storage fails.  It can find a changed
committed entry, and it can be ended by a panic of a node; but then some node has accepted an
`AppendEntries` over a stale tail of its log. -/
theorem violation_blames_stale_tail (H : Harness σ) (chaos : Chaos σ) (script : List Op)
    {v : Violation} (hv : (H.run script (H.newCluster chaos)).2 = some v) :
    v = .delay ∨ (∃ id, v = .hang id) ∨
      ((∃ id, v = .panic id) ∨ ∃ id idx prev got, v = .committed id idx prev got) ∧
        ∃ d ∈ (H.run script (H.newCluster chaos)).1.handled, d.1.KeepsStaleTail d.2 := by
  have hblamed : ∀ B : Node → Message → Prop,
      (∀ d ∈ (H.run script (H.newCluster chaos)).1.handled, B d.1 d.2) → Blamed B v :=
    fun B hB => (explained_newCluster B H chaos).run script rfl hB v hv
  -- a run without any stale tail has nothing to blame
  have hstale : (Blamed (fun n m => ¬ n.KeepsStaleTail m) v → False) →
      ∃ d ∈ (H.run script (H.newCluster chaos)).1.handled, d.1.KeepsStaleTail d.2 := by
    intro hclean
    by_contra hnone
    push Not at hnone
    exact hclean (hblamed _ hnone)
  cases v with
  | delay => exact .inl rfl
  | hang id => exact .inr (.inl ⟨id, rfl⟩)
  | panic id =>
      exact .inr (.inr ⟨.inl ⟨id, rfl⟩, hstale fun ⟨_, _, hB, hkeeps⟩ => hB hkeeps⟩)
  | committed id idx prev got =>
      exact .inr (.inr ⟨.inr ⟨id, idx, prev, got, rfl⟩,
        hstale fun ⟨_, _, hB, hkeeps⟩ => hB hkeeps⟩)
  | leaders | logs | storage => exact (hblamed (fun _ _ => True) fun _ _ => trivial).elim

/-- Election timeouts of three, four and five ticks. -/
def staggered (i : NodeID) : ℕ := if i = "a" then 0 else if i = "b" then 1 else 2

/-- Three nodes with staggered timeouts. -/
def three : Harness Unit where
  cluster := { Cluster.trio with draw := staggered }
  rand := { float53 := fun _ => (0, ()), uint64n := fun _ _ => (0, ()) }
  draws i _ := staggered i

/-- All knobs are off. -/
def calm : Chaos Unit := { dropRNG := (), delayRNG := (), reorderRNG := (), dupRNG := () }

def ticks (k : ℕ) : List Op := List.replicate k (.tick 50)

/-- Node `a` leads, and appends an entry nobody else gets.  Node `b` is elected by `c`; the answer
of `a` to its first heartbeat makes it commit an entry of its own, which the others never see.
Node `a` is elected by `c` and commits what it has. -/
def staleAnswer : List Op :=
  ticks 4 ++ [.partition "a" "b", .partition "a" "c", .proposeInto "a" [1]] ++
    ticks 6 ++ [.heal "a" "b"] ++ ticks 1 ++
    [.partition "a" "b", .partition "b" "c", .proposeInto "b" [2]] ++ ticks 1 ++
    [.assertNoCommittedEntryLost, .heal "a" "c"] ++ ticks 3 ++
    [.proposeToLeader [3]] ++ ticks 4 ++
    [.assertAtMostOneLeaderPerTerm, .assertLogMatching, .assertNoCommittedEntryLost]

theorem violation_blames_stale_tail_staleAnswer :
    (three.run staleAnswer (three.newCluster calm)).2 =
        some (.committed "a" 1 ⟨2, 1, [2]⟩ ⟨1, 1, [1]⟩) ∧
      ∃ d ∈ (three.run staleAnswer (three.newCluster calm)).1.handled,
        d.1.KeepsStaleTail d.2 := by
  have hv : (three.run staleAnswer (three.newCluster calm)).2 =
      some (.committed "a" 1 ⟨2, 1, [2]⟩ ⟨1, 1, [1]⟩) := by decide +kernel
  refine ⟨hv, ?_⟩
  rcases violation_blames_stale_tail three calm staleAnswer hv with h | ⟨id, h⟩ | ⟨-, h⟩
  · cases h
  · cases h
  · exact h

end Harness

end Raftest

end ToyRaft
