import ToyRaft.Runtime.Moves

/-!
# The client side of a host

The apply channel, the applier and the registry of waiting proposals are fed by the core and
never feed back into it.  `ClientMove` lists what an act can do to them, as `Move` does for
the core.
-/

namespace ToyRaft

/-- What the applier sends to a waiter after `Apply` on the entry `e`. -/
def ApplyOutcome.result {ρ : Type} (e : Entry) : ApplyOutcome ρ → ProposeResult ρ
  | .returned res err => { res := res, err := err.map .returned }
  | .panicked msg => { err := some (.panicked e.index msg) }

/-- The call that waits for the entry `e` to be applied. -/
def ProposeCall.waiting {ρ : Type} (e : Entry) : ProposeCall ρ :=
  { data := e.data, idx := e.index, term := e.term }

namespace Host

variable {ρ : Type}

/-- The client side of a host: the applier, the apply channel, the waiters and the calls. -/
def client (h : Host ρ) :
    Applier ρ × List Entry × AList (fun _ : ℕ => ℕ) × List (ProposeCall ρ) :=
  (h.applier, h.applyCh, h.waiters, h.calls)

lemma client_eq_iff {h : Host ρ} {ap : Applier ρ} {ch : List Entry}
    {w : AList (fun _ : ℕ => ℕ)} {cs : List (ProposeCall ρ)} :
    h.client = (ap, ch, w, cs) ↔
      h.applier = ap ∧ h.applyCh = ch ∧ h.waiters = w ∧ h.calls = cs := by
  simp only [client, Prod.mk.injEq]

/-- What an act can do to the client side. -/
inductive ClientMove (h : Host ρ) (a : Act ρ) (h' : Host ρ) : Prop
  | same (heq : h'.client = h.client)
  /-- `drainCommitsToApply` has read the next committed entry back. -/
  | fed (e : Entry) (ci : ℕ) (hf : h.flush = .draining ci) (hle : h.enqueuedIdx + 1 ≤ ci)
      (he : h.node.storage.entries[h.enqueuedIdx]? = some e) (hnode : h'.node = h.node)
      (heq : h'.client = (h.applier, h.applyCh ++ [e], h.waiters, h.calls))
  | applying (e : Entry) (rest : List Entry) (out : ApplyOutcome ρ) (ha : a = .applyCall out)
      (happ : e ∈ h.applies a) (hch : h.applyCh = e :: rest)
      (heq : h'.client = (.applied e out, rest, h.waiters, h.calls))
  /-- `applyOne` has taken the waiter of the entry's index, if there is one. -/
  | applied (e : Entry) (out : ApplyOutcome ρ) (ap : Applier ρ) (ha : a = .applyDone)
      (hrun : h.crashed = false) (happ : h.applier = .applied e out)
      (hap : ∀ e' out', ap ≠ .applied e' out')
      (heq : h'.client =
        (ap, h.applyCh, (h.resolve e.index (out.result e)).waiters,
          (h.resolve e.index (out.result e)).calls))
  /-- A proposal that fails at once. -/
  | rejected (c : ProposeCall ρ) (hres : c.result = none)
      (hret : ∀ r, c.ret = some r → r.err ≠ none)
      (heq : h'.client = (h.applier, h.applyCh, h.waiters, h.calls ++ [c]))
  /-- A proposal whose entry is in the log. -/
  | registered (data : Data) (s : Storage)
      (hnode : h'.node = (h.node.proposed data s).broadcastAppendEntriesLocked)
      (heq : h'.client =
        (h.applier, h.applyCh, h.waiters.insert (h.node.newEntry data).index h.calls.length,
          h.calls ++ [.waiting (h.node.newEntry data)]))
  | received (ticket : ℕ) (c : ProposeCall ρ) (r : ProposeResult ρ)
      (hc : h.calls[ticket]? = some c) (hr : c.result = some r)
      (heq : h'.client =
        (h.applier, h.applyCh, h.waiters,
          h.calls.modify ticket (ProposeCall.finish ⟨c.idx, c.term, r.res, r.err.map .apply⟩)))
  | cancelled (ticket idx : ℕ)
      (heq : h'.client =
        (h.applier, h.applyCh, h.waiters.erase idx,
          h.calls.modify ticket (ProposeCall.finish { err := some .ctx })))
  | checkpointed (heq : h'.client = (.idle, h.applyCh, h.waiters, h.calls))
  | restarted (ha : a.restarts = true) (heq : h'.client = (.idle, [], ∅, []))

/-- `New` starts without clients. -/
lemma client_of_new {cfg : Config} {s : Storage} {draw : ℕ} {restore : RestoreOutcome}
    {h : Host ρ} (hnew : new cfg s draw restore = .ok h) : h.client = (.idle, [], ∅, []) := by
  unfold new at hnew
  split at hnew
  · cases hnew
  · split_ifs at hnew <;> cases hnew <;> rfl

lemma clientMove_afterStep (h : Host ρ) (a : Act ρ)
    (r : Option (Node × Option Node.StepError)) : ClientMove h a (h.afterStep r) := by
  cases r with
  | none => exact .same rfl
  | some r => exact .same rfl

lemma clientMove_propose (h : Host ρ) (data : Data) (env : Env) :
    ClientMove h (.propose data env) (h.propose env data) := by
  have hfail : ∀ (h₁ : Host ρ) (err : ProposeError), h₁.client = h.client →
      ClientMove h (.propose data env) (h₁.failCall data err) := by
    intro h₁ err heq
    obtain ⟨h1, h2, h3, h4⟩ := client_eq_iff.mp heq
    refine .rejected { data := data, ret := some { err := some err } } rfl ?_ ?_
    · rintro r hr
      cases hr
      simp
    · rw [← h1, ← h2, ← h3, ← h4]
      rfl
  unfold propose
  split_ifs with hstop hrole
  · exact hfail h _ rfl
  · exact hfail h _ rfl
  · have hleader := not_not.mp hrole
    rcases h.node.proposeLocked_cases env data hleader with ⟨s, -, -, heq⟩ | ⟨err, -, heq⟩
    · rw [heq]
      exact .registered data s rfl rfl
    · rw [heq]
      exact hfail _ _ rfl

/-- Resolving a waiter touches the registry and the calls only. -/
lemma resolve_client (h h₁ : Host ρ) (idx : ℕ) (r : ProposeResult ρ)
    (hw : h₁.waiters = h.waiters) (hc : h₁.calls = h.calls) :
    (h₁.resolve idx r).client =
      (h₁.applier, h₁.applyCh, (h.resolve idx r).waiters, (h.resolve idx r).calls) := by
  unfold resolve
  rw [hw, hc]
  split
  · rw [client, hw, hc]
  · rfl

lemma clientMove_applyDone (h : Host ρ) (e : Entry) (out : ApplyOutcome ρ)
    (hrun : h.crashed = false) (happ : h.applier = .applied e out) :
    ClientMove h .applyDone (h.applyDone e out) := by
  cases out with
  | returned res err =>
      have hres := resolve_client h { h with appliedIdx := e.index } e.index
        ⟨res, err.map .returned⟩ rfl rfl
      refine .applied e _ (h.applyDone e (.returned res err)).applier rfl hrun happ ?_ ?_
      · intro e' out'
        show (if _ then Applier.checkpointing else Applier.idle) ≠ _
        split_ifs <;> simp
      · exact congrArg (fun p => ((h.applyDone e (.returned res err)).applier, p.2)) hres
  | panicked msg =>
      refine .applied e _ .idle rfl hrun happ (by simp) ?_
      exact resolve_client h { h with
        fatal := some (.panicked e.index msg), appliedIdx := e.index, applier := .idle }
        e.index _ rfl rfl

lemma clientMove_drain (h : Host ρ) (a : Act ρ) {ci : ℕ} (hf : h.flush = .draining ci)
    (err : Bool) : ClientMove h a (h.drain ci err) := by
  unfold drain
  dsimp only
  split_ifs with hlt
  · exact .same rfl
  · split
    · rename_i e _ hget
      obtain ⟨-, hget⟩ := Storage.faulty_eq_ok hget
      rw [Storage.getEntries_single (by omega), Nat.add_sub_cancel] at hget
      cases he : h.node.storage.entries[h.enqueuedIdx]? with
      | none =>
          rw [he] at hget
          cases hget
      | some e' =>
          rw [he] at hget
          cases hget
          exact .fed _ ci hf (by omega) he rfl rfl
    · exact .same rfl

lemma clientMove_checkpoint (h : Host ρ) (a : Act ρ) (out : SnapshotOutcome) (err : Bool) :
    ClientMove h a (h.checkpoint out err) := by
  refine .checkpointed ?_
  unfold checkpoint
  dsimp only
  split
  · split_ifs <;> rfl
  · rfl

lemma Fires.clientMove {cfg : Config} {h h' : Host ρ} {a : Act ρ} {out : List Message}
    (hfires : Fires cfg h a h' out) : ClientMove h a h' := by
  cases hfires with
  | restart draw restore _ ha hnew =>
      rcases ha with ⟨rfl, -⟩ | ⟨_, _, rfl, -⟩ <;> exact .restarted rfl (client_of_new hnew)
  | step | tick => exact clientMove_afterStep h _ _
  | propose => exact clientMove_propose h _ _
  | drain _ hf => exact clientMove_drain h _ hf _
  | applyCall hrun hidle hch =>
      exact .applying _ _ _ rfl (by simp [applies, hrun, hidle, hch]) hch rfl
  | applyDone hrun hbusy => exact clientMove_applyDone h _ _ hrun hbusy
  | checkpoint => exact clientMove_checkpoint h _ _ _
  | receive _ hc hr => exact .received _ _ _ hc hr rfl
  | cancel => exact .cancelled _ _ rfl
  | idle | ready | save | saveNone | saveFailed | send | drainBegin | stop => exact .same rfl

/-- Every act is one of the client moves. -/
theorem clientMove_of_act (cfg : Config) (h : Host ρ) (a : Act ρ) :
    ClientMove h a (h.act cfg a).1 :=
  (fires_of_act cfg h a).clientMove

/-! ## A new lifetime -/

/-- A new lifetime begins without clients. -/
lemma client_of_reboots {cfg : Config} {h : Host ρ} {a : Act ρ}
    (hre : h.reboots cfg a = true) : (h.act cfg a).1.client = (.idle, [], ∅, []) := by
  have hfires := fires_of_act cfg h a
  generalize (h.act cfg a).1 = h', (h.act cfg a).2 = out at hfires ⊢
  cases hfires with
  | idle hre' =>
      rw [hre] at hre'
      cases hre'
  | restart _ _ _ _ hnew => exact client_of_new hnew
  | _ => cases hre

end Host

end ToyRaft
