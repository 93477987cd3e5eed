import ToyRaft.Properties.ProposeResult
import ToyRaft.Properties.StatusReport

/-!
# Concurrent proposals

All the calls of `Propose` that are waiting on a node share one registry keyed by the index, and
the index of a proposal is handed out again when the node has lost its leadership, had its log
cut, and been elected once more.  A call loses its place in the registry in two ways
(`Host.disturbs`): a later proposal is registered at its index, or another call that was
registered there is cancelled, whose `waiters.Delete(idx)` does not look at what it deletes.

A call that has lost its place to nobody is sent the outcome of `Apply` when the entry at its
index is applied (`proposal_gets_result`).  Without that the outcome of its own entry goes to
nobody (`cancel_takes_waiter`).
-/

namespace ToyRaft

namespace Host

variable {ρ : Type}

/-- The act takes the place of call `ticket` in the registry: another proposal is registered at
its index, or another call waiting at its index is cancelled. -/
def disturbs (h : Host ρ) (ticket : ℕ) : Act ρ → Bool
  | .propose data env =>
      !h.crashed && !h.stopped && h.node.role == .leader && (h.calls[ticket]?).any fun c =>
        (h.node.proposeLocked env data).2 == (c.idx, true)
  | .cancel other =>
      !h.crashed && other != ticket && (h.calls[ticket]?).any fun c =>
        (h.calls[other]?).any fun c' => c'.ret.isNone && c'.idx == c.idx
  | _ => false

/-- Call `ticket`, as long as it has not returned, is registered at its index or the applier is
past that index. -/
def InPlace (h : Host ρ) (ticket : ℕ) : Prop :=
  ∀ c, h.calls[ticket]? = some c → c.ret = none →
    h.waiters.lookup c.idx = some ticket ∨ c.idx ≤ h.appliedIdx

lemma inPlace_of_no_calls {h : Host ρ} (hnone : h.calls = []) (ticket : ℕ) :
    h.InPlace ticket := by
  intro c hc
  rw [hnone] at hc
  cases hc

lemma InPlace.of_eq {h h' : Host ρ} {ticket : ℕ} (hp : h.InPlace ticket)
    (hw : h'.waiters = h.waiters) (hc : h'.calls = h.calls)
    (ha : h.appliedIdx ≤ h'.appliedIdx) : h'.InPlace ticket := by
  intro c hget hret
  rw [hc] at hget
  rw [hw]
  exact (hp c hget hret).imp_right fun hle => hle.trans ha

lemma getElem?_push_call {cs : List (ProposeCall ρ)} {c c' : ProposeCall ρ} {ticket : ℕ}
    (hget : (cs ++ [c'])[ticket]? = some c) :
    cs[ticket]? = some c ∨ ticket = cs.length ∧ c = c' := by
  rcases Nat.lt_or_ge ticket cs.length with hlt | hge
  · rw [List.getElem?_append_left hlt] at hget
    exact .inl hget
  · rw [List.getElem?_append_right hge, List.getElem?_singleton] at hget
    split_ifs at hget with hzero
    exact .inr ⟨by omega, (Option.some.inj hget).symm⟩

/-- A call that has returned is not waiting, so one added already returned takes no place. -/
lemma InPlace.failCall {h : Host ρ} {ticket : ℕ} (hp : h.InPlace ticket) (data : Data)
    (err : ProposeError) : (h.failCall data err).InPlace ticket := by
  intro c hget hret
  rcases getElem?_push_call hget with hold | ⟨-, rfl⟩
  · exact hp c hold hret
  · cases hret

/-- A new proposal takes its own place, and nobody else's unless it is given their index. -/
lemma InPlace.propose {h : Host ρ} {ticket : ℕ} (hp : h.InPlace ticket) {data : Data} {env : Env}
    (hrun : h.crashed = false) (hd : h.disturbs ticket (.propose data env) = false) :
    (h.propose env data).InPlace ticket := by
  unfold Host.propose
  split_ifs with hstop hrole
  · exact hp.failCall _ _
  · exact hp.failCall _ _
  have hleader := not_not.mp hrole
  rcases h.node.proposeLocked_cases env data hleader with ⟨s, -, -, heq⟩ | ⟨err, -, heq⟩
  · rw [heq]
    intro c hget hret
    show (h.waiters.insert (h.node.log.lastIndex + 1) h.calls.length).lookup c.idx =
      some ticket ∨ c.idx ≤ h.appliedIdx
    rcases getElem?_push_call hget with hold | ⟨rfl, rfl⟩
    · have hne : c.idx ≠ h.node.log.lastIndex + 1 := by
        intro hsame
        simp [disturbs, hrun, hstop, hleader, heq, hold, hsame] at hd
      rw [AList.lookup_insert_ne hne]
      exact hp c hold hret
    · exact .inl (AList.lookup_insert _)
  · rw [heq]
    exact InPlace.failCall (h := { h with node := _ }) (hp.of_eq rfl rfl le_rfl) _ _

lemma getElem?_modify_call {cs : List (ProposeCall ρ)} {f : ProposeCall ρ → ProposeCall ρ}
    {k ticket : ℕ} {c : ProposeCall ρ} (hget : (cs.modify k f)[ticket]? = some c) :
    k ≠ ticket ∧ cs[ticket]? = some c ∨ k = ticket ∧ ∃ c₀, cs[ticket]? = some c₀ ∧ f c₀ = c := by
  by_cases hk : k = ticket
  · subst hk
    rw [List.getElem?_modify_eq] at hget
    exact .inr ⟨rfl, Option.map_eq_some_iff.mp hget⟩
  · rw [List.getElem?_modify_ne _ _ hk] at hget
    exact .inl ⟨hk, hget⟩

/-- A cancelled call gives up the place at its index, whoever holds it. -/
lemma InPlace.cancel {h : Host ρ} {ticket other : ℕ} {call : ProposeCall ρ} (hp : h.InPlace ticket)
    (hrun : h.crashed = false) (hother : h.calls[other]? = some call) (hopen : call.ret = none)
    (hd : h.disturbs ticket (.cancel other) = false) :
    InPlace
      { h with
        waiters := h.waiters.erase call.idx
        calls := h.calls.modify other (ProposeCall.finish { err := some .ctx }) } ticket := by
  intro c hget hret
  rcases getElem?_modify_call hget with ⟨hk, hold⟩ | ⟨-, c₀, -, rfl⟩
  · have hne : c.idx ≠ call.idx := by
      intro heq
      simp [disturbs, hrun, hk, hold, hother, hopen, heq] at hd
    show (h.waiters.erase call.idx).lookup c.idx = some ticket ∨ c.idx ≤ h.appliedIdx
    rw [AList.lookup_erase_ne hne]
    exact hp c hold hret
  · cases hret

lemma applyDone_registry (h : Host ρ) (e : Entry) (out : ApplyOutcome ρ) :
    (h.applyDone e out).waiters = (h.resolve e.index (out.result e)).waiters ∧
      (h.applyDone e out).calls = (h.resolve e.index (out.result e)).calls ∧
      (h.applyDone e out).appliedIdx = e.index := by
  cases out with
  | returned res err =>
      unfold applyDone resolve
      dsimp only
      split <;> exact ⟨rfl, rfl, rfl⟩
  | panicked msg =>
      unfold applyDone resolve
      dsimp only
      split <;> exact ⟨rfl, rfl, rfl⟩

/-- The applier empties the place at the index of its entry, and is then past that index. -/
lemma InPlace.applyDone {h : Host ρ} {ticket : ℕ} {e : Entry} (hp : h.InPlace ticket)
    (out : ApplyOutcome ρ) (hnext : h.appliedIdx ≤ e.index) :
    (h.applyDone e out).InPlace ticket := by
  obtain ⟨hw, hc, ha⟩ := h.applyDone_registry e out
  intro c hget hret
  rw [hc] at hget
  rw [hw, ha]
  unfold resolve at hget ⊢
  split at hget
  · exact (hp c hget hret).imp_right fun hle => hle.trans hnext
  · obtain ⟨c₀, hold, hidx, hret₀⟩ :
        ∃ c₀, h.calls[ticket]? = some c₀ ∧ c₀.idx = c.idx ∧ c₀.ret = none := by
      rcases getElem?_modify_call hget with ⟨-, hold⟩ | ⟨-, c₀, hold, rfl⟩
      · exact ⟨c, hold, rfl, hret⟩
      · exact ⟨c₀, hold, rfl, hret⟩
    have hplace := hp c₀ hold hret₀
    rw [hidx] at hplace
    by_cases heq : c.idx = e.index
    · exact .inr heq.le
    · show (h.waiters.erase e.index).lookup c.idx = some ticket ∨ c.idx ≤ e.index
      rw [AList.lookup_erase_ne heq]
      exact hplace.imp_right fun hle => hle.trans hnext

lemma InPlace.receive {h : Host ρ} {ticket : ℕ} (hp : h.InPlace ticket) (other : ℕ)
    (r : ProposeReturn ρ) :
    InPlace { h with calls := h.calls.modify other (ProposeCall.finish r) } ticket := by
  intro c hget hret
  rcases getElem?_modify_call hget with ⟨-, hold⟩ | ⟨-, c₀, -, rfl⟩
  · exact hp c hold hret
  · cases hret

lemma InPlace.drain {h : Host ρ} {ticket : ℕ} (hp : h.InPlace ticket) (ci : ℕ) (err : Bool) :
    (h.drain ci err).InPlace ticket := by
  unfold Host.drain
  dsimp only
  split_ifs
  · exact hp.of_eq rfl rfl le_rfl
  · split <;> exact hp.of_eq rfl rfl le_rfl

lemma InPlace.checkpoint {h : Host ρ} {ticket : ℕ} (hp : h.InPlace ticket) (out : SnapshotOutcome)
    (err : Bool) : (h.checkpoint out err).InPlace ticket := by
  unfold Host.checkpoint
  dsimp only
  split
  · split_ifs <;> exact hp.of_eq rfl rfl le_rfl
  · exact hp.of_eq rfl rfl le_rfl

/-- **One act.**  An act that does not disturb a call and does not end the lifetime leaves the
call in place. -/
lemma InPlace.act {cfg : Config} {h : Host ρ} {ticket : ℕ} {a : Act ρ} (hp : h.InPlace ticket)
    (hbusy : ∀ e out, h.applier = .applied e out → h.appliedIdx ≤ e.index)
    (hlife : h.reboots cfg a = false) (hd : h.disturbs ticket a = false) :
    (h.act cfg a).1.InPlace ticket := by
  have hfires := fires_of_act cfg h a
  generalize (h.act cfg a).1 = h', (h.act cfg a).2 = out at hfires ⊢
  cases hfires with
  | idle => exact hp
  | restart _ _ hre =>
      rw [hlife] at hre
      cases hre
  | propose hrun => exact hp.propose hrun hd
  | cancel hrun hc hret => exact hp.cancel hrun hc hret hd
  | receive => exact hp.receive _ _
  | applyDone _ happ => exact hp.applyDone _ (hbusy _ _ happ)
  | @step m env => cases h.node.step env m <;> exact hp.of_eq rfl rfl le_rfl
  | @tick env => cases h.node.step env { type := .tick } <;> exact hp.of_eq rfl rfl le_rfl
  | drain => exact hp.drain _ _
  | checkpoint => exact hp.checkpoint _ _
  | _ => exact hp.of_eq rfl rfl le_rfl

namespace Trace

variable {cfg : Config} (τ : Trace ρ cfg)

/-- At moment `t` the place of call `ticket` in the registry is taken. -/
def DisturbsAt (t ticket : ℕ) : Prop :=
  ∃ a ∈ τ.act t, (τ.host t).disturbs ticket a = true

instance (t ticket : ℕ) : Decidable (τ.DisturbsAt t ticket) :=
  inferInstanceAs (Decidable (∃ a ∈ τ.act t, _))

/-- **A whole lifetime.**  A call whose place is never taken is in place. -/
theorem inPlace {t ticket : ℕ}
    (hgood : ∀ u < t, τ.SameLife u t → ¬ τ.DisturbsAt u ticket) :
    (τ.host t).InPlace ticket := by
  induction t with
  | zero =>
      obtain ⟨draw, hnew⟩ := τ.starts
      exact inPlace_of_no_calls (client_eq_iff.mp (client_of_new hnew)).2.2.2 ticket
  | succ t ih =>
      by_cases hlife : τ.RebootsAt t
      · obtain ⟨a, ha, hre⟩ := hlife
        rw [τ.acts t a ha]
        exact inPlace_of_no_calls (client_eq_iff.mp (client_of_reboots hre)).2.2.2 ticket
      have hp := ih fun u hu hsame => hgood u (Nat.lt_succ_of_lt hu) (hsame.succ hlife)
      cases ha : τ.act t with
      | none =>
          rw [τ.idle t ha]
          exact hp
      | some a =>
          rw [τ.acts t a ha]
          refine hp.act (fun e out hbusy => ?_) (Bool.eq_false_iff.mpr fun hre => ?_)
            (Bool.eq_false_iff.mpr fun hd => ?_)
          · have hnext := (τ.kept t).busy_index (τ.tidy t).shaped.contiguous hbusy
            omega
          · exact hlife ⟨a, ha, hre⟩
          · exact hgood t (Nat.lt_succ_self t) ((Course.sameLife_self t).succ hlife) ⟨a, ha, hd⟩

/-- **A proposal that nobody disturbs gets its result.**  Let call `ticket` of `Propose` still be
waiting when `applyOne` has called `Apply` on the entry at the index the call was assigned.  If in
this lifetime no other proposal was registered at that index after the call, and no other call
waiting at that index was cancelled, then the call is sent the outcome of that `Apply`. -/
theorem proposal_gets_result {t ticket : ℕ} {c : ProposeCall ρ} {e : Entry}
    {out : ApplyOutcome ρ} (hact : τ.act t = some .applyDone)
    (hrun : (τ.host t).crashed = false) (happ : (τ.host t).applier = .applied e out)
    (hc : (τ.host t).calls[ticket]? = some c) (hret : c.ret = none) (hown : c.idx = e.index)
    (hgood : ∀ u < t, τ.SameLife u t → ¬ τ.DisturbsAt u ticket) :
    (τ.host (t + 1)).calls[ticket]? = some { c with result := some (out.result e) } := by
  have hnext := (τ.kept t).busy_index (τ.tidy t).shaped.contiguous happ
  have hplace : (τ.host t).waiters.lookup e.index = some ticket := by
    rcases τ.inPlace hgood c hc hret with hreg | hpast
    · rw [← hown]
      exact hreg
    · omega
  have hdone : (τ.host (t + 1)).calls = ((τ.host t).applyDone e out).calls := by
    rw [τ.acts t _ hact, Host.act, if_neg (by simp [hrun]), happ]
  rw [hdone, ((τ.host t).applyDone_registry e out).2.1, resolve, hplace]
  show ((τ.host t).calls.modify ticket _)[ticket]? = _
  rw [List.getElem?_modify_eq, hc]
  rfl

end Trace

end Host

namespace Cluster

/-- Node "a" leads term 1 and takes two proposals; "b" is elected for term 2 and overwrites them
with a single entry, and "a", elected again, gives index 2 to a third proposal.  The second call
is then cancelled, before the third entry is committed and applied. -/
def cancelledEarlier : List (Event Unit) :=
  elect 1 "a" "b" 0 0 ++ propose "a" [1] ++ propose "a" [2] ++ elect 2 "b" "c" 0 0 ++
    propose "b" [9] ++ flush "b" 4 ++ deliver (appendRequest 2 "b" "a" 0 0 [⟨2, 1, [9]⟩] 0) ++
    flush "a" 1 ++ elect 3 "a" "b" 2 1 ++ propose "a" [3] ++ [⟨"a", .cancel 1⟩] ++ flush "a" 4 ++
    deliver (appendRequest 3 "a" "b" 2 1 [⟨3, 2, [3]⟩] 0) ++ flush "b" 1 ++
    deliver (appendResponse 3 "b" "a" true 2) ++ flush "a" 0 2 ++
    [⟨"a", .applyCall (.returned (some ()) none)⟩, ⟨"a", .applyDone⟩,
      ⟨"a", .applyCall (.returned (some ()) none)⟩, ⟨"a", .applyDone⟩]

/-- The entry of the third call is applied, with the term and the index the call was assigned,
and nobody has cancelled that call; yet it is sent nothing, and its place is gone. -/
theorem cancel_takes_waiter :
    let ev := Machine.schedule idle cancelledEarlier
    trio.AppliesAt ev 90 "a" ⟨3, 2, [3]⟩ ∧ (trio.host ev 92 "a").appliedIdx = 2 ∧
      (trio.host ev 92 "a").calls[2]? = some { data := [3], idx := 2, term := 3 } ∧
      (trio.host ev 92 "a").waiters.lookup 2 = none := by
  decide +kernel

/-- The same run without the cancellation, as node "a" goes through it. -/
def leftAlone : Host.Trace Unit (trio.cfg "a") :=
  trio.trace (Machine.schedule idle (cancelledEarlier.eraseIdx 66)) (by decide)

lemma leftAlone_undisturbed : ∀ u < 90, ¬ leftAlone.DisturbsAt u 2 := by
  decide +kernel

lemma leftAlone_applyDone : leftAlone.act 90 = some .applyDone :=
  trio.trace_act (e := ⟨"a", .applyDone⟩) (by rfl) (by decide +kernel) (by decide)

theorem proposal_gets_result_leftAlone :
    (leftAlone.host 91).calls[2]? =
      some { data := [3], idx := 2, term := 3, result := some ⟨some (), none⟩ } := by
  have happ : (leftAlone.host 90).applier = .applied ⟨3, 2, [3]⟩ (.returned (some ()) none) := by
    decide +kernel
  have hc : (leftAlone.host 90).calls[2]? = some { data := [3], idx := 2, term := 3 } := by
    decide +kernel
  exact leftAlone.proposal_gets_result leftAlone_applyDone (by decide +kernel) happ hc rfl rfl
    fun u hu _ => leftAlone_undisturbed u hu

end Cluster

end ToyRaft
