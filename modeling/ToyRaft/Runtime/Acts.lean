import ToyRaft.Runtime.Host

/-!
# What the acts do, one by one

`Fires` is `Host.act` as a relation: for every act the host it needs and the host it leaves, and
one case for all acts that are not enabled.  `fires_of_act` is where `Host.act` is taken apart, and
what is said about the acts elsewhere goes through its cases.
-/

namespace ToyRaft

/-- The call returns `r`. -/
def ProposeCall.finish {ρ : Type} (r : ProposeReturn ρ) (c : ProposeCall ρ) : ProposeCall ρ :=
  { c with ret := some r }

namespace Host

variable {ρ : Type}

/-- What an act leaves, and what it hands to the transport. -/
inductive Fires (cfg : Config) (h : Host ρ) : Act ρ → Host ρ → List Message → Prop
  /-- The act is not enabled, or it is a restart that fails. -/
  | idle {a : Act ρ} (hre : h.reboots cfg a = false) (henq : h.enqueues a = none)
      (happ : h.applies a = none) : Fires cfg h a h []
  /-- `New` comes back on the storage the crash has left. -/
  | restart {a : Act ρ} {s : Storage} {h' : Host ρ} (draw : ℕ) (restore : RestoreOutcome)
      (hre : h.reboots cfg a = true)
      (ha : a = .restart draw restore ∧ s = h.node.storage ∨
        ∃ m start, a = .restartMidMirror m draw restore ∧ h.node.mirrorStart m = some start ∧
          h.node.storage.truncateSuffix start = .ok s)
      (hnew : new cfg s draw restore = .ok h') : Fires cfg h a h' []
  | step {m : Message} {env : Env} (hrun : h.crashed = false) (hstop : h.stopped = false) :
      Fires cfg h (.step m env) (h.afterStep (h.node.step env m)) []
  | tick {env : Env} (hrun : h.crashed = false) :
      Fires cfg h (.tick env) (h.afterStep (h.node.step env { type := .tick })) []
  | propose {data : Data} {env : Env} (hrun : h.crashed = false) :
      Fires cfg h (.propose data env) (h.propose env data) []
  | ready (hrun : h.crashed = false) (hf : h.flush = .idle) :
      Fires cfg h .ready
        { h with node := h.node.ready.1, flush := .ready h.node.ready.2.2 h.node.ready.2.1 } []
  | save {hs : HardState} {msgs : List Message} (hrun : h.crashed = false)
      (hf : h.flush = .ready (some hs) msgs) :
      Fires cfg h (.save false)
        { h with
          node := { h.node with storage := h.node.storage.saveHardState hs }
          flush := .sending msgs } []
  /-- There was nothing to save. -/
  | saveNone {err : Bool} {msgs : List Message} (hrun : h.crashed = false)
      (hf : h.flush = .ready none msgs) :
      Fires cfg h (.save err) { h with flush := .sending msgs } []
  | saveFailed {hs : HardState} {msgs : List Message} (hrun : h.crashed = false)
      (hf : h.flush = .ready (some hs) msgs) :
      Fires cfg h (.save true) { h with flush := .sending msgs } []
  | send {m : Message} {msgs : List Message} (hrun : h.crashed = false)
      (hf : h.flush = .sending (m :: msgs)) :
      Fires cfg h .send { h with flush := .sending msgs } [m]
  | drainBegin (hrun : h.crashed = false) (hf : h.flush = .sending []) :
      Fires cfg h .drainBegin { h with flush := .draining h.node.commitIndex } []
  | drain {err : Bool} {ci : ℕ} (hrun : h.crashed = false) (hf : h.flush = .draining ci) :
      Fires cfg h (.drain err) (h.drain ci err) []
  | applyCall {out : ApplyOutcome ρ} {e : Entry} {rest : List Entry} (hrun : h.crashed = false)
      (hidle : h.applier = .idle) (hch : h.applyCh = e :: rest) :
      Fires cfg h (.applyCall out) { h with applyCh := rest, applier := .applied e out } []
  | applyDone {e : Entry} {out : ApplyOutcome ρ} (hrun : h.crashed = false)
      (hbusy : h.applier = .applied e out) : Fires cfg h .applyDone (h.applyDone e out) []
  | checkpoint {out : SnapshotOutcome} {err : Bool} (hrun : h.crashed = false)
      (hrest : h.applier = .checkpointing ∨ h.applier = .idle ∧ h.stopped = true) :
      Fires cfg h (.checkpoint out err) (h.checkpoint out err) []
  | receive {ticket : ℕ} {c : ProposeCall ρ} {r : ProposeResult ρ} (hrun : h.crashed = false)
      (hc : h.calls[ticket]? = some c) (hr : c.result = some r) (hret : c.ret = none) :
      Fires cfg h (.receive ticket)
        { h with
          calls := h.calls.modify ticket
            (ProposeCall.finish ⟨c.idx, c.term, r.res, r.err.map .apply⟩) } []
  | cancel {ticket : ℕ} {c : ProposeCall ρ} (hrun : h.crashed = false)
      (hc : h.calls[ticket]? = some c) (hret : c.ret = none) :
      Fires cfg h (.cancel ticket)
        { h with
          waiters := h.waiters.erase c.idx
          calls := h.calls.modify ticket (ProposeCall.finish { err := some .ctx }) } []
  | stop (hrun : h.crashed = false) : Fires cfg h .stop { h with stopped := true } []

variable {cfg : Config} {h : Host ρ}

/-- A restart that does not come back changes nothing. -/
lemma fires_restartFrom {a : Act ρ} {s : Storage} {draw : ℕ} {restore : RestoreOutcome}
    (hre : h.reboots cfg a = (new cfg s draw restore : Except Node.NewError (Host ρ)).isOk)
    (ha : a = .restart draw restore ∧ s = h.node.storage ∨
      ∃ m start, a = .restartMidMirror m draw restore ∧ h.node.mirrorStart m = some start ∧
        h.node.storage.truncateSuffix start = .ok s) :
    Fires cfg h a (h.restartFrom cfg s draw restore) [] := by
  unfold restartFrom
  cases hnew : (new cfg s draw restore : Except Node.NewError (Host ρ)) with
  | error err =>
      rw [hnew] at hre
      rcases ha with ⟨rfl, -⟩ | ⟨_, _, rfl, -⟩ <;> exact .idle hre rfl rfl
  | ok h' =>
      rw [hnew] at hre
      exact .restart draw restore hre ha hnew

/-- A node that is down does nothing but start again. -/
lemma fires_of_crashed {a : Act ρ} (hrun : h.crashed = true) (ha : a.restarts = false) :
    Fires cfg h a (h.act cfg a).1 (h.act cfg a).2 := by
  have hact : h.act cfg a = (h, []) := by
    cases a with
    | restart _ _ | restartMidMirror _ _ _ => cases ha
    | _ => exact if_pos hrun
  rw [hact]
  cases a with
  | restart _ _ | restartMidMirror _ _ _ => cases ha
  | drain err => exact .idle rfl (by simp [enqueues, hrun]) rfl
  | applyCall out => exact .idle rfl rfl (by simp [applies, hrun])
  | _ => exact .idle rfl rfl rfl

section Running

variable (hrun : h.crashed = false)
include hrun

lemma not_crashed : ¬ h.crashed = true := by simp [hrun]

lemma fires_step (m : Message) (env : Env) :
    Fires cfg h (.step m env) (h.act cfg (.step m env)).1 (h.act cfg (.step m env)).2 := by
  unfold act
  dsimp only
  rw [if_neg (not_crashed hrun)]
  split_ifs with hstop
  · exact .idle rfl rfl rfl
  · exact .step hrun (by simpa using hstop)

lemma fires_ready : Fires cfg h .ready (h.act cfg .ready).1 (h.act cfg .ready).2 := by
  unfold act
  dsimp only
  rw [if_neg (not_crashed hrun)]
  split
  · rename_i hf
    exact .ready hrun hf
  · exact .idle rfl rfl rfl

lemma fires_save (err : Bool) :
    Fires cfg h (.save err) (h.act cfg (.save err)).1 (h.act cfg (.save err)).2 := by
  unfold act
  dsimp only
  rw [if_neg (not_crashed hrun)]
  split
  · rename_i hf
    exact .saveNone hrun hf
  · rename_i hf
    cases err with
    | true => exact .saveFailed hrun hf
    | false => exact .save hrun hf
  · exact .idle rfl rfl rfl

lemma fires_send : Fires cfg h .send (h.act cfg .send).1 (h.act cfg .send).2 := by
  unfold act
  dsimp only
  rw [if_neg (not_crashed hrun)]
  split
  · rename_i hf
    exact .send hrun hf
  · exact .idle rfl rfl rfl

lemma fires_drainBegin :
    Fires cfg h .drainBegin (h.act cfg .drainBegin).1 (h.act cfg .drainBegin).2 := by
  unfold act
  dsimp only
  rw [if_neg (not_crashed hrun)]
  split
  · rename_i hf
    exact .drainBegin hrun hf
  · exact .idle rfl rfl rfl

lemma fires_drain (err : Bool) :
    Fires cfg h (.drain err) (h.act cfg (.drain err)).1 (h.act cfg (.drain err)).2 := by
  unfold act
  dsimp only
  rw [if_neg (not_crashed hrun)]
  split
  · rename_i hf
    exact .drain hrun hf
  · rename_i hf
    refine .idle rfl ?_ rfl
    rw [enqueues]
    split
    · rename_i ci _ hf'
      exact (hf ci hf').elim
    · rfl

lemma fires_applyCall (out : ApplyOutcome ρ) :
    Fires cfg h (.applyCall out) (h.act cfg (.applyCall out)).1 (h.act cfg (.applyCall out)).2 := by
  unfold act
  dsimp only
  rw [if_neg (not_crashed hrun)]
  split
  · rename_i hidle hch
    exact .applyCall hrun hidle hch
  · rename_i hnone
    refine .idle rfl rfl ?_
    rw [applies]
    split
    · rename_i _ hidle
      cases hch : h.applyCh with
      | nil => rfl
      | cons e rest => exact (hnone e rest hidle hch).elim
    · rfl

lemma fires_applyDone :
    Fires cfg h .applyDone (h.act cfg .applyDone).1 (h.act cfg .applyDone).2 := by
  unfold act
  dsimp only
  rw [if_neg (not_crashed hrun)]
  split
  · rename_i hbusy
    exact .applyDone hrun hbusy
  · exact .idle rfl rfl rfl

lemma fires_checkpoint (out : SnapshotOutcome) (err : Bool) :
    Fires cfg h (.checkpoint out err) (h.act cfg (.checkpoint out err)).1
      (h.act cfg (.checkpoint out err)).2 := by
  unfold act
  dsimp only
  rw [if_neg (not_crashed hrun)]
  split
  · rename_i hrest
    exact .checkpoint hrun (.inl hrest)
  · rename_i hrest hstop
    exact .checkpoint hrun (.inr ⟨hrest, hstop⟩)
  · exact .idle rfl rfl rfl

lemma fires_receive (ticket : ℕ) :
    Fires cfg h (.receive ticket) (h.act cfg (.receive ticket)).1
      (h.act cfg (.receive ticket)).2 := by
  unfold act
  dsimp only
  rw [if_neg (not_crashed hrun)]
  split
  · rename_i hc
    exact .receive hrun hc rfl rfl
  · exact .idle rfl rfl rfl

lemma fires_cancel (ticket : ℕ) :
    Fires cfg h (.cancel ticket) (h.act cfg (.cancel ticket)).1
      (h.act cfg (.cancel ticket)).2 := by
  unfold act
  dsimp only
  rw [if_neg (not_crashed hrun)]
  split
  · rename_i hc
    exact .cancel hrun hc rfl
  · exact .idle rfl rfl rfl

lemma fires_of_running {a : Act ρ} (ha : a.restarts = false) :
    Fires cfg h a (h.act cfg a).1 (h.act cfg a).2 := by
  cases a with
  | restart _ _ | restartMidMirror _ _ _ => cases ha
  | step m env => exact fires_step hrun m env
  | tick env =>
      unfold act
      dsimp only
      rw [if_neg (not_crashed hrun)]
      exact .tick hrun
  | propose data env =>
      unfold act
      dsimp only
      rw [if_neg (not_crashed hrun)]
      exact .propose hrun
  | ready => exact fires_ready hrun
  | save err => exact fires_save hrun err
  | send => exact fires_send hrun
  | drainBegin => exact fires_drainBegin hrun
  | drain err => exact fires_drain hrun err
  | applyCall out => exact fires_applyCall hrun out
  | applyDone => exact fires_applyDone hrun
  | checkpoint out err => exact fires_checkpoint hrun out err
  | receive ticket => exact fires_receive hrun ticket
  | cancel ticket => exact fires_cancel hrun ticket
  | stop =>
      unfold act
      dsimp only
      rw [if_neg (not_crashed hrun)]
      exact .stop hrun

end Running

/-- Every act is one of these cases. -/
theorem fires_of_act (cfg : Config) (h : Host ρ) (a : Act ρ) :
    Fires cfg h a (h.act cfg a).1 (h.act cfg a).2 := by
  cases ha : a.restarts with
  | false =>
      cases hrun : h.crashed with
      | false => exact fires_of_running hrun ha
      | true => exact fires_of_crashed hrun ha
  | true =>
      cases a with
      | restart draw restore => exact fires_restartFrom rfl (.inl ⟨rfl, rfl⟩)
      | restartMidMirror m draw restore =>
          unfold act
          dsimp only
          split
          · rename_i hstart
            exact .idle (by simp only [reboots, hstart]) rfl rfl
          · rename_i start hstart
            split
            · rename_i htrunc
              exact .idle (by simp only [reboots, hstart, htrunc]) rfl rfl
            · rename_i s htrunc
              exact fires_restartFrom (by simp only [reboots, hstart, htrunc])
                (.inr ⟨m, start, rfl, hstart, htrunc⟩)
      | _ => cases ha

end Host

end ToyRaft
