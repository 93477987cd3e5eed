import Mathlib.Data.Finset.Max
import Mathlib.Data.Finset.Prod
import ToyRaft.Properties.LogTerms
import ToyRaft.Properties.MatchGrowth
import ToyRaft.Properties.ProposeResult
import ToyRaft.Properties.StateMachineSafety
import ToyRaft.Properties.StateRebuild

/-!
# The order of the commands

What clients see of a cluster is a set of calls of `Propose`, each made at one moment and
back at another.  `Linearizes` says that one list of entries explains them: every call that
succeeded stands in it, at the index and in the term it reports; its result is what the state
machine answers after exactly the entries before it; a call that was back before another one
was made stands before it; and nothing stands in it that was not proposed.

The list is the longest prefix any node has committed (`proposals_linearizable`).  That it
respects real time is the point where the terms come in: an entry proposed after another one
was acknowledged cannot have been in any log by then, and all committed logs agree.
-/

namespace ToyRaft

/-- What `Apply` answers in this act. -/
def Act.outcome {ρ : Type} : Act ρ → Option (ApplyOutcome ρ)
  | .applyCall out => some out
  | _ => none

namespace Host

variable {ρ : Type}

lemma propose_cases (env : Env) (h : Host ρ) (data : Data) :
    (∃ err, (h.propose env data).calls =
      h.calls ++ [{ data := data, ret := some { err := some err } }]) ∨
    ∃ s, h.node.role = .leader ∧
      (h.propose env data).node = (h.node.proposed data s).broadcastAppendEntriesLocked ∧
      (h.propose env data).calls = h.calls ++ [.waiting (h.node.newEntry data)] := by
  unfold propose
  split_ifs with hstop hrole
  · exact .inl ⟨_, rfl⟩
  · exact .inl ⟨_, rfl⟩
  · have hleader := not_not.mp hrole
    rcases h.node.proposeLocked_cases env data hleader with ⟨s, -, -, heq⟩ | ⟨err, -, heq⟩
    · rw [heq]
      exact .inr ⟨s, hleader, rfl, rfl⟩
    · rw [heq]
      exact .inl ⟨_, rfl⟩

/-- A call of `Propose` reports the index and the term it was made with. -/
def ReportsPlace (c : ProposeCall ρ) : Prop :=
  ∀ r, c.ret = some r → r.err = none → r.idx = c.idx ∧ r.term = c.term

/-- The calls of a host after an act: each old one has kept its data, index and term. -/
def CallsKept (cs cs' : List (ProposeCall ρ)) : Prop :=
  ∀ (k : ℕ) (c : ProposeCall ρ), cs[k]? = some c →
    ∃ c', cs'[k]? = some c' ∧ c'.data = c.data ∧ c'.idx = c.idx ∧ c'.term = c.term

lemma CallsKept.refl (cs : List (ProposeCall ρ)) : CallsKept cs cs :=
  fun _ c hc => ⟨c, hc, rfl, rfl, rfl⟩

lemma CallsKept.concat (cs : List (ProposeCall ρ)) (c : ProposeCall ρ) :
    CallsKept cs (cs ++ [c]) := by
  refine fun k c' hc' => ⟨c', ?_, rfl, rfl, rfl⟩
  rw [List.getElem?_append_left (List.getElem?_eq_some_iff.mp hc').1]
  exact hc'

lemma CallsKept.modify (cs : List (ProposeCall ρ)) (k : ℕ) {f : ProposeCall ρ → ProposeCall ρ}
    (hf : ∀ c, (f c).data = c.data ∧ (f c).idx = c.idx ∧ (f c).term = c.term) :
    CallsKept cs (cs.modify k f) := by
  intro j c hc
  rw [List.getElem?_modify, hc]
  by_cases hkj : k = j
  · exact ⟨f c, by simp [hkj], hf c⟩
  · exact ⟨c, by simp [hkj], rfl, rfl, rfl⟩

lemma callsKept_resolve (h : Host ρ) (idx : ℕ) (r : ProposeResult ρ) :
    CallsKept h.calls (h.resolve idx r).calls := by
  unfold resolve
  split
  · exact .refl _
  · exact .modify _ _ fun _ => ⟨rfl, rfl, rfl⟩

/-- Whatever a host does within a lifetime, its calls keep their data, index and term. -/
lemma callsKept_of_act {cfg : Config} {h : Host ρ} {a : Act ρ}
    (hre : h.reboots cfg a = false) : CallsKept h.calls (h.act cfg a).1.calls := by
  have hcalls : ∀ {h' : Host ρ} {ap ch w cs}, h'.client = (ap, ch, w, cs) → h'.calls = cs :=
    fun heq => (client_eq_iff.mp heq).2.2.2
  cases clientMove_of_act cfg h a with
  | same heq => rw [hcalls heq]; exact .refl _
  | fed _ _ _ _ _ _ heq => rw [hcalls heq]; exact .refl _
  | applying _ _ _ _ _ _ heq => rw [hcalls heq]; exact .refl _
  | applied e out ap _ _ _ _ heq => rw [hcalls heq]; exact callsKept_resolve h _ _
  | rejected c _ _ heq => rw [hcalls heq]; exact .concat _ _
  | registered data s _ heq => rw [hcalls heq]; exact .concat _ _
  | received ticket c r _ _ heq => rw [hcalls heq]; exact .modify _ _ fun _ => ⟨rfl, rfl, rfl⟩
  | cancelled ticket idx heq => rw [hcalls heq]; exact .modify _ _ fun _ => ⟨rfl, rfl, rfl⟩
  | checkpointed heq => rw [hcalls heq]; exact .refl _
  | restarted ha _ => rw [act_of_not_reboots ha hre]; exact .refl _

lemma mem_modify {cs : List (ProposeCall ρ)} {k : ℕ} {f : ProposeCall ρ → ProposeCall ρ}
    {c : ProposeCall ρ} (h : c ∈ cs.modify k f) :
    c ∈ cs ∨ ∃ c₀, cs[k]? = some c₀ ∧ c = f c₀ := by
  obtain ⟨j, hj⟩ := List.mem_iff_getElem?.mp h
  rw [List.getElem?_modify] at hj
  obtain ⟨c₀, hc₀, heq⟩ := Option.map_eq_some_iff.mp hj
  split_ifs at heq with hkj
  · subst hkj
    exact .inr ⟨c₀, hc₀, heq.symm⟩
  · exact .inl (heq ▸ List.mem_of_getElem? hc₀)

lemma reportsPlace_of_act {cfg : Config} {h : Host ρ} {a : Act ρ}
    (hold : ∀ c ∈ h.calls, ReportsPlace c) : ∀ c ∈ (h.act cfg a).1.calls, ReportsPlace c := by
  have hcalls : ∀ {h' : Host ρ} {ap ch w cs}, h'.client = (ap, ch, w, cs) → h'.calls = cs :=
    fun heq => (client_eq_iff.mp heq).2.2.2
  have hpush : ∀ {c₀ : ProposeCall ρ}, ReportsPlace c₀ →
      ∀ c ∈ h.calls ++ [c₀], ReportsPlace c := by
    intro c₀ hc₀ c hc
    rcases List.mem_append.mp hc with hc | hc
    · exact hold c hc
    · rwa [List.mem_singleton.mp hc]
  cases clientMove_of_act cfg h a with
  | same heq | fed _ _ _ _ _ _ heq | applying _ _ _ _ _ _ heq | checkpointed heq =>
      rw [hcalls heq]
      exact hold
  | applied e out ap _ _ _ _ heq =>
      rw [hcalls heq]
      unfold resolve
      split
      · exact hold
      · intro c hc
        rcases mem_modify hc with hc | ⟨c₀, hc₀, rfl⟩
        · exact hold c hc
        · exact hold c₀ (List.mem_of_getElem? hc₀)
  | rejected c _ hret heq =>
      rw [hcalls heq]
      exact hpush fun r hr herr => (hret r hr herr).elim
  | registered data s _ heq =>
      rw [hcalls heq]
      exact hpush fun r hr => by cases hr
  | received ticket c₀ r hc₀ _ heq =>
      rw [hcalls heq]
      intro c hc
      rcases mem_modify hc with hc | ⟨c₁, hc₁, rfl⟩
      · exact hold c hc
      · obtain rfl := Option.some.inj (hc₀.symm.trans hc₁)
        intro r' hr' _
        cases hr'
        exact ⟨rfl, rfl⟩
  | cancelled ticket idx heq =>
      rw [hcalls heq]
      intro c hc
      rcases mem_modify hc with hc | ⟨c₁, hc₁, rfl⟩
      · exact hold c hc
      · intro r hr herr
        cases hr
        cases herr
  | restarted _ heq =>
      rw [hcalls heq]
      intro c hc
      cases hc

/-- An entry of the log was there before, came with a message, or is proposed. -/
lemma Move.log_origin {cfg : Config} {h : Host ρ} {a : Act ρ} {n' : Node} {f' : Flush}
    {out : List Message} (hmove : Move cfg h a n' f' out) (hfault : a.logFaultless = true)
    (hm : ∀ m ∈ a.inbound, m.type = .appendEntries → m.WellFormedAppend)
    (hs : h.node.Shaped) {e : Entry} (he : e ∈ n'.log) :
    e ∈ h.node.log ∨ (∃ m ∈ a.inbound, m.type = .appendEntries ∧ e ∈ m.entries) ∨
      ∃ data env s, a = .propose data env ∧ h.node.role = .leader ∧
        n' = (h.node.proposed data s).broadcastAppendEntriesLocked ∧
        e = h.node.newEntry data := by
  cases hmove with
  | @step m env _ ha hn =>
      obtain ⟨-, -, hlog, -⟩ := h.node.maybeStepDownLocked_frame m.term
      have hin : m.type = .appendEntries → m ∈ a.inbound := fun ht =>
        inbound_of_step ha (by simp [ht])
      rcases (hs.stepDown m.term).mem_log_handled (fun ht => hm m (hin ht) ht)
        (env_of_logFaultless ha hfault) hn he with he | ⟨ht, -, he⟩
      · exact .inl (hlog ▸ he)
      · exact .inr (.inl ⟨m, hin ht, ht, he⟩)
  | @propose data env s ha hrole _ =>
      obtain ⟨-, -, -, -, hlog, -⟩ := (h.node.proposed data s).broadcast_frame
      rw [hlog] at he
      rcases List.mem_append.mp he with he | he
      · exact .inl he
      · exact .inr (.inr ⟨data, env, s, ha, hrole, rfl, List.mem_singleton.mp he⟩)
  | proposeFailed ha _ hfail =>
      subst ha
      exact (append_succeeds hs hfault hfail).elim
  | restart _ hn hst =>
      left
      rw [hn.log] at he
      rcases hst with rfl | ⟨m, _, _, start, rfl, hstart, htrunc⟩
      · rwa [hs.mirrored] at he
      · obtain ⟨k, -, -, -, rfl, -⟩ :=
          truncated_of_mirrorStart hs (hm m rfl (type_of_mirrorStart hstart)) hstart htrunc
        exact List.mem_of_mem_take he
  | _ => exact .inl he

namespace Trace

variable {cfg : Config} {σ : Type} (τ : Trace ρ cfg)

/-- The entry `Apply` is called on stands in the log at the next index, and is committed. -/
lemma applies_next {t : ℕ} {a : Act ρ} {e : Entry} (ha : τ.act t = some a)
    (he : (τ.host t).applies a = some e) :
    (τ.host t).applier = .idle ∧ e.index = (τ.host t).appliedIdx + 1 ∧
      (τ.host t).node.log[(τ.host t).appliedIdx]? = some e ∧
      e.index ≤ (τ.host t).node.commitIndex := by
  have hk := τ.kept t
  cases applyMove_of_act cfg (τ.host t) a with
  | applying e' rest out _ _ happ _ hidle hch =>
      obtain rfl := Option.some.inj (happ.symm.trans he)
      have hrest := not_busy_of_idle hidle
      have hlog := hk.next hrest hch
      have hidx := (τ.tidy t).shaped.contiguous _ _ hlog
      have hlen := congrArg List.length hk.channel
      rw [hch, List.length_append, List.length_cons] at hlen
      have hne : (τ.deeds t).enqueued ≠ [] := by
        intro hnil
        rw [hnil] at hlen
        simp only [List.length_nil] at hlen
        omega
      have hcommit := hk.committed hne
      have hfront := hk.frontier
      have hdone := hk.resting hrest
      exact ⟨hidle, by omega, hlog, by omega⟩
  | same _ _ happ | enqueued _ _ _ _ happ | finished _ _ _ _ _ happ
  | checkpointed _ _ _ _ happ =>
      rw [he] at happ
      cases happ
  | rebooted _ _ _ _ hact =>
      rcases hact with rfl | ⟨m, rfl⟩ <;> cases he

/-- The state machine of the host is `sm`, and what its `Apply` answers is `answer`. -/
structure Serves (sm : StateMachine σ) (answer : σ → Entry → ApplyOutcome ρ) (t : ℕ) : Prop where
  replies : ∀ a ∈ τ.act t, ∀ e ∈ (τ.host t).applies a, ∀ out ∈ a.outcome,
    out = answer (τ.state sm t) e
  answers : τ.Answers sm t
  careful : τ.Careful t

end Trace

end Host

namespace Cluster

variable {ρ : Type} (C : Cluster) (ev : ℕ → Event ρ)

/-! ## Where an entry comes from -/

/-- At moment `u` a call of `Propose` at node `i` appends the entry `e`. -/
structure ProposedAt (u : ℕ) (i : NodeID) (e : Entry) : Prop where
  enabled : C.Enabled (C.world ev u) (ev u)
  node : (ev u).node = i
  act : ∃ env, (ev u).act = .propose e.data env
  leader : C.LeaderAt ev u i e.term
  index : e.index = (C.node ev u i).log.length + 1
  log : (C.node ev (u + 1) i).log = (C.node ev u i).log ++ [e]

variable {C ev}

lemma ProposedAt.mem {u : ℕ} {i : NodeID} {e : Entry} (h : C.ProposedAt ev u i e) :
    i ∈ C.peers := h.leader.mem

lemma proposedAt_of_broadcast {u : ℕ} {i : NodeID} {data : Data} {env : Env} {s : Storage}
    {sent : List Message} (hm : C.MovesAt ev u i sent) (hact : (ev u).act = .propose data env)
    (hrole : (C.node ev u i).role = .leader)
    (hnode : C.node ev (u + 1) i =
      ((C.node ev u i).proposed data s).broadcastAppendEntriesLocked) :
    C.ProposedAt ev u i ((C.node ev u i).newEntry data) := by
  obtain ⟨-, -, -, -, hlog, -⟩ := ((C.node ev u i).proposed data s).broadcast_frame
  refine ⟨hm.enabled, hm.node, ⟨env, hact⟩, ⟨hrole, rfl⟩, ?_, ?_⟩
  · rw [← Log.lastIndex_eq_length (C.shaped ev hm.mem u).contiguous]
    rfl
  · rw [hnode, hlog]
    rfl

variable (C ev)

/-- Nothing is in a log that was not proposed. -/
theorem proposed_of_mem {t : ℕ} {i : NodeID} {e : Entry} (he : e ∈ (C.node ev t i).log) :
    ∃ u < t, ∃ j, C.ProposedAt ev u j e := by
  induction t using Nat.strong_induction_on generalizing i e with
  | _ t ih =>
      cases t with
      | zero =>
          obtain ⟨p, hp⟩ := List.mem_iff_getElem?.mp he
          rw [(C.started_zero ev (C.mem_of_log ev hp)).log] at he
          cases he
      | succ t =>
          have hold : e ∈ (C.node ev t i).log → ∃ u < t + 1, ∃ j, C.ProposedAt ev u j e := by
            intro he
            obtain ⟨u, hu, hrest⟩ := ih t (Nat.lt_succ_self t) he
            exact ⟨u, Nat.lt_succ_of_lt hu, hrest⟩
          have hgraft : ∀ m ∈ C.net ev t, m.type = .appendEntries → e ∈ m.entries →
              ∃ u < t + 1, ∃ j, C.ProposedAt ev u j e := by
            intro m hnet htype hem
            obtain ⟨s, hs, hb⟩ := C.builtAt ev hnet htype
            rw [hb.entries] at hem
            obtain ⟨u, hu, hrest⟩ := ih s (Nat.lt_succ_of_le hs) (List.mem_of_mem_drop hem)
            exact ⟨u, by omega, hrest⟩
          rcases C.step_cases ev t i with ⟨sent, hm⟩ | ⟨heq, -⟩
          · rcases hm.move.log_origin (Host.logFaultless_of_faultless hm.faultless)
              (fun m hin => C.wellFormed ev (hm.inbound m hin).1) (C.shaped ev hm.mem t) he with
              he | ⟨m, hin, htype, hem⟩ | ⟨data, env, s, ha, hrole, hn, rfl⟩
            · exact hold he
            · exact hgraft m (hm.inbound m hin).1 htype hem
            · exact ⟨t, Nat.lt_succ_self t, i, proposedAt_of_broadcast hm ha hrole hn⟩
          · rw [node, heq] at he
            exact hold he

/-- An entry of a term is in the log of the leader of that term for as long as it is in any
log. -/
lemma lt_length_of_leader {s t p : ℕ} {i j : NodeID} {a : Entry}
    (ha : (C.node ev s i).log[p]? = some a) (hl : C.LeaderAt ev t j a.term) (hst : s ≤ t) :
    p < (C.node ev t j).log.length := by
  rcases Nat.lt_or_ge 1 C.peers.toFinset.card with hcard | hsolo
  · exact (C.execution ev hcard).lt_length_of_leader (s := s) (i := i) ha hl hst
  · obtain rfl := eq_of_solo hsolo (C.mem_of_log ev ha) hl.mem
    have hlen := (solo_log_grows ev hsolo hst i).length_le
    have hp := (List.getElem?_eq_some_iff.mp ha).1
    omega

variable {C ev}

lemma ProposedAt.fresh {u s : ℕ} {i j : NodeID} {e : Entry} (h : C.ProposedAt ev u i e)
    (hs : (C.node ev s j).log[e.index - 1]? = some e) : u < s := by
  by_contra hcon
  have hlt := C.lt_length_of_leader ev hs h.leader (by omega)
  have hidx := h.index
  omega

lemma ProposedAt.holds {u : ℕ} {i : NodeID} {e : Entry} (h : C.ProposedAt ev u i e) :
    (C.node ev (u + 1) i).log[e.index - 1]? = some e := by
  rw [h.log, h.index, Nat.add_sub_cancel]
  exact List.getElem?_concat_length

/-- An entry is proposed once. -/
lemma ProposedAt.once {u u' : ℕ} {i j : NodeID} {e : Entry} (h : C.ProposedAt ev u i e)
    (h' : C.ProposedAt ev u' j e) : u = u' := by
  have h₁ := h.fresh h'.holds
  have h₂ := h'.fresh h.holds
  omega

/-! ## Calls of `Propose` -/

variable (C ev)

/-- A call of `Propose` at node `i`, made at moment `u` and back with `r` by moment `v`. -/
structure Returns (i : NodeID) (u v : ℕ) (data : Data) (r : ProposeReturn ρ) : Prop where
  enabled : C.Enabled (C.world ev u) (ev u)
  node : (ev u).node = i
  act : ∃ env, (ev u).act = .propose data env
  running : (C.host ev u i).crashed = false
  lt : u < v
  life : ∀ w < v, u < w → ¬ C.RebootsAt ev w i
  ret : ∃ c, (C.host ev v i).calls[(C.host ev u i).calls.length]? = some c ∧ c.ret = some r

lemma callsKept {i : NodeID} {s t : ℕ} (hst : s ≤ t)
    (hlife : ∀ w < t, s ≤ w → ¬ C.RebootsAt ev w i) :
    Host.CallsKept (C.host ev s i).calls (C.host ev t i).calls := by
  induction t, hst using Nat.le_induction with
  | base => exact .refl _
  | succ t hst ih =>
      have hold := ih fun w hw hsw => hlife w (by omega) hsw
      intro k c hc
      obtain ⟨c', hc', hdata, hidx, hterm⟩ := hold k c hc
      rcases C.step_cases ev t i with ⟨sent, hm⟩ | ⟨heq, -⟩
      · have hre : (C.host ev t i).reboots (C.cfg i) (ev t).act = false := by
          rw [← Bool.not_eq_true]
          exact fun hre => hlife t (Nat.lt_succ_self t) hst ⟨hm.enabled, hm.node, hre⟩
        rw [hm.host]
        obtain ⟨c'', hc'', hdata', hidx', hterm'⟩ := Host.callsKept_of_act hre k c' hc'
        exact ⟨c'', hc'', hdata'.trans hdata, hidx'.trans hidx, hterm'.trans hterm⟩
      · rw [heq]
        exact ⟨c', hc', hdata, hidx, hterm⟩

lemma reportsPlace {i : NodeID} (hi : i ∈ C.peers) (t : ℕ) :
    ∀ c ∈ (C.host ev t i).calls, Host.ReportsPlace c := by
  refine C.host_invariant ev (P := fun h => ∀ c ∈ h.calls, Host.ReportsPlace c) ?_ ?_ t
  · have hstart := Host.client_eq_iff.mp (Host.client_of_new (C.new_start ρ hi))
    rw [show (C.host ev 0 i).calls = [] from hstart.2.2.2]
    intro c hc
    cases hc
  · intro t sent hm hold
    rw [hm.host]
    exact Host.reportsPlace_of_act hold

variable {C ev}

/-- A call that succeeds has proposed the entry it reports, and that entry has been applied. -/
lemma Returns.applied {i : NodeID} {u v : ℕ} {data : Data} {r : ProposeReturn ρ}
    (h : C.Returns ev i u v data r) (hgood : ∀ s < v, ¬ C.MisdeliversAt ev s i)
    (herr : r.err = none) :
    C.ProposedAt ev u i ⟨r.term, r.idx, data⟩ ∧
      C.AppliedInLife ev v i ⟨r.term, r.idx, data⟩ (.returned r.res none) := by
  obtain ⟨hen, rfl, ⟨env, hact⟩, hrun, hlt, hlife, c, hc, hret⟩ := h
  obtain ⟨sent, hm⟩ := movesAt_of_enabled hen
  have hi := hm.mem
  have hhost : C.host ev (u + 1) (ev u).node =
      (C.host ev u (ev u).node).propose env data := by
    rw [hm.host, hact, Host.act]
    simp [hrun]
  have hown := ((C.clientBooks ev hi hgood).calls _ c hc).ret r hret herr
  obtain ⟨hidx, hterm⟩ := C.reportsPlace ev hi v c (List.mem_of_getElem? hc) r hret herr
  have hkept := C.callsKept ev (i := (ev u).node) (Nat.succ_le_of_lt hlt)
    fun w hw huw => hlife w hw huw
  rcases (C.host ev u (ev u).node).propose_cases env data with ⟨err, hcalls⟩ |
    ⟨s, hrole, hnode, hcalls⟩
  · -- a call that failed at once reports no index
    obtain ⟨c', hc', -, hidx', -⟩ := hkept (C.host ev u (ev u).node).calls.length
      { data := data, ret := some { err := some err } }
      (by rw [hhost, hcalls]; exact List.getElem?_concat_length)
    obtain rfl := Option.some.inj (hc.symm.trans hc')
    obtain ⟨w, -, happ, -, -⟩ := hown
    obtain ⟨-, -, hpos, -⟩ := C.counted_of_applies ev happ
    have h0 : r.idx = 0 := hidx.trans hidx'
    have hpos : 1 ≤ r.idx := hpos
    omega
  · obtain ⟨c', hc', hdata, hidx', hterm'⟩ := hkept (C.host ev u (ev u).node).calls.length
      (.waiting ((C.node ev u (ev u).node).newEntry data))
      (by rw [hhost, hcalls]; exact List.getElem?_concat_length)
    obtain rfl := Option.some.inj (hc.symm.trans hc')
    have hentry : (⟨r.term, r.idx, data⟩ : Entry) =
        (C.node ev u (ev u).node).newEntry data := by
      rw [hidx, hterm, hidx', hterm']
      rfl
    rw [show c.data = data from hdata] at hown
    rw [← hhost] at hnode
    refine ⟨?_, hown⟩
    rw [hentry]
    exact proposedAt_of_broadcast hm hact hrole hnode

lemma AppliesAt.next {t : ℕ} {i : NodeID} {e : Entry} (h : C.AppliesAt ev t i e) :
    1 ≤ e.index ∧ e.index ≤ (C.node ev t i).commitIndex ∧
      (C.node ev t i).log[e.index - 1]? = some e := by
  obtain ⟨hen, rfl, happ⟩ := h
  obtain ⟨-, hidx, hlog, hle⟩ := (C.trace ev hen.1).applies_next
    (C.trace_act rfl hen hen.1) happ
  refine ⟨by omega, hle, ?_⟩
  rw [hidx, Nat.add_sub_cancel]
  exact hlog

/-! ## What has been decided -/

variable (C ev)

/-- By moment `t` some node has counted the entries `c` as committed. -/
def Decided (t : ℕ) (c : List Entry) : Prop :=
  ∃ s ≤ t, ∃ j, c.length ≤ (C.node ev s j).commitIndex ∧ c <+: (C.node ev s j).log

variable {C ev}

lemma Decided.nil (t : ℕ) : C.Decided ev t [] :=
  ⟨t, le_rfl, "", Nat.zero_le _, List.nil_prefix⟩

lemma Decided.mono {s t : ℕ} (hst : s ≤ t) {c : List Entry} (h : C.Decided ev s c) :
    C.Decided ev t c := by
  obtain ⟨u, hu, hrest⟩ := h
  exact ⟨u, hu.trans hst, hrest⟩

lemma Decided.of_prefix {t : ℕ} {c c' : List Entry} (h : C.Decided ev t c') (hc : c <+: c') :
    C.Decided ev t c := by
  obtain ⟨s, hs, j, hlen, hpre⟩ := h
  exact ⟨s, hs, j, hc.length_le.trans hlen, hc.trans hpre⟩

lemma Decided.contiguous {t : ℕ} {c : List Entry} (h : C.Decided ev t c) :
    Log.Contiguous c := by
  obtain ⟨s, -, j, -, hpre⟩ := h
  by_cases hj : j ∈ C.peers
  · rw [List.prefix_iff_eq_take.mp hpre]
    exact (C.shaped ev hj s).contiguous.take _
  · rw [(C.log_of_not_mem ev hj s).1, List.prefix_nil] at hpre
    rw [hpre]
    exact Log.contiguous_nil

lemma Decided.proposed {t p : ℕ} {es : List Entry} {e : Entry} (h : C.Decided ev t es)
    (he : es[p]? = some e) : e.index = p + 1 ∧ ∃ u < t, ∃ i, C.ProposedAt ev u i e := by
  have hidx := h.contiguous p e he
  obtain ⟨s, hs, j, -, hpre⟩ := h
  obtain ⟨u, hu, hprop⟩ := C.proposed_of_mem ev (hpre.subset (List.mem_of_getElem? he))
  exact ⟨by omega, u, by omega, hprop⟩

/-- An entry is applied when it is decided, with everything before it. -/
lemma AppliesAt.decided {t : ℕ} {i : NodeID} {e : Entry} (h : C.AppliesAt ev t i e) :
    C.Decided ev t ((C.node ev t i).log.take e.index) ∧
      (C.node ev t i).log.take e.index = (C.node ev t i).log.take (e.index - 1) ++ [e] := by
  obtain ⟨hpos, hle, hlog⟩ := h.next
  refine ⟨⟨t, le_rfl, i, (List.length_take_le _ _).trans hle, List.take_prefix _ _⟩, ?_⟩
  obtain ⟨n, hn⟩ : ∃ n, e.index = n + 1 := ⟨e.index - 1, by omega⟩
  rw [hn, Nat.add_sub_cancel] at hlog ⊢
  rw [List.take_add_one, hlog]
  rfl

/-! ## One order for all commands -/

variable (C ev)

section Order

variable {b : ℕ} (hgood : ∀ u < b, ¬ C.AcceptsStaleTail ev u)
include hgood

lemma committed_take_eq {s t : ℕ} (hs : s ≤ b) (ht : t ≤ b) {i j : NodeID} {k : ℕ}
    (hi : k ≤ (C.node ev s i).commitIndex) (hj : k ≤ (C.node ev t j).commitIndex) :
    (C.node ev s i).log.take k = (C.node ev t j).log.take k := by
  refine List.ext_getElem? fun p => ?_
  rcases Nat.lt_or_ge p k with hlt | hge
  · obtain ⟨e, he, he'⟩ := C.committed_agree ev hgood hs ht (k := p + 1) (by omega)
      (hlt.trans_le hi) (hlt.trans_le hj)
    rw [Nat.add_sub_cancel] at he he'
    rw [List.getElem?_take_of_lt hlt, List.getElem?_take_of_lt hlt, he, he']
  · rw [List.getElem?_take_eq_none hge, List.getElem?_take_eq_none hge]

/-- Two calls that succeeded at one index are one call. -/
lemma Returns.eq_of_index_eq (hown : ∀ u < b, ∀ i, ¬ C.MisdeliversAt ev u i) {i j : NodeID}
    {u v u' v' : ℕ} {data data' : Data} {r r' : ProposeReturn ρ}
    (h : C.Returns ev i u v data r) (h' : C.Returns ev j u' v' data' r') (hv : v ≤ b)
    (hv' : v' ≤ b) (herr : r.err = none) (herr' : r'.err = none) (hidx : r.idx = r'.idx) :
    i = j ∧ u = u' := by
  obtain ⟨hprop, s, hs, happ, -⟩ := h.applied (fun w hw => hown w (by omega) i) herr
  obtain ⟨hprop', s', hs', happ', -⟩ := h'.applied (fun w hw => hown w (by omega) j) herr'
  obtain ⟨hpos, hle, hlog⟩ := happ.next
  obtain ⟨-, hle', hlog'⟩ := happ'.next
  dsimp only at hpos hle hlog hle' hlog'
  rw [← hidx] at hle' hlog'
  obtain ⟨e, he, he'⟩ := C.committed_agree ev hgood (s := s) (t := s') (by omega) (by omega)
    hpos hle hle'
  have heq : (⟨r.term, r.idx, data⟩ : Entry) = ⟨r'.term, r'.idx, data'⟩ := by
    rw [← Option.some.inj (he.symm.trans hlog), Option.some.inj (he'.symm.trans hlog'), hidx]
  rw [← heq] at hprop'
  obtain rfl := hprop.once hprop'
  exact ⟨hprop.node.symm.trans hprop'.node, rfl⟩

omit hgood in
/-- Some node has committed at least as much as any other, at some moment up to `b`. -/
lemma exists_longest (b : ℕ) : ∃ s ≤ b, ∃ i, ∀ t ≤ b, ∀ j,
    (C.node ev t j).commitIndex ≤ (C.node ev s i).commitIndex := by
  by_cases hne : (Finset.range (b + 1) ×ˢ C.peers.toFinset).Nonempty
  · obtain ⟨⟨s, i⟩, hmem, hmax⟩ :=
      Finset.exists_max_image _ (fun p => (C.node ev p.1 p.2).commitIndex) hne
    rw [Finset.mem_product, Finset.mem_range] at hmem
    refine ⟨s, Nat.lt_succ_iff.mp hmem.1, i, fun t ht j => ?_⟩
    by_cases hj : j ∈ C.peers
    · exact hmax (t, j) (Finset.mem_product.mpr
        ⟨Finset.mem_range.mpr (Nat.lt_succ_of_le ht), List.mem_toFinset.mpr hj⟩)
    · rw [(C.log_of_not_mem ev hj t).2]
      exact Nat.zero_le _
  · refine ⟨0, Nat.zero_le b, "", fun t ht j => ?_⟩
    have hj : j ∉ C.peers := fun hj => hne ⟨(t, j), Finset.mem_product.mpr
      ⟨Finset.mem_range.mpr (Nat.lt_succ_of_le ht), List.mem_toFinset.mpr hj⟩⟩
    rw [(C.log_of_not_mem ev hj t).2]
    exact Nat.zero_le _

variable {C ev} in
/-- Of two decided lists one begins with the other. -/
lemma Decided.prefix_of_le {c c' : List Entry} (h : C.Decided ev b c) (h' : C.Decided ev b c')
    (hle : c.length ≤ c'.length) : c <+: c' := by
  obtain ⟨s, hs, i, hlen, hpre⟩ := h
  obtain ⟨t, ht, j, hlen', hpre'⟩ := h'
  have htake := C.committed_take_eq ev hgood hs ht hlen (hle.trans hlen')
  rw [← List.prefix_iff_eq_take.mp hpre] at htake
  rw [htake]
  exact List.prefix_of_prefix_length_le (List.take_prefix _ _) hpre'
    ((List.length_take_le _ _).trans hle)

variable {C ev} in
/-- One decided list begins with all the others. -/
lemma exists_order : ∃ order, C.Decided ev b order ∧ ∀ c, C.Decided ev b c → c <+: order := by
  obtain ⟨s, hs, i, hmax⟩ := C.exists_longest ev b
  have horder : C.Decided ev b ((C.node ev s i).log.take (C.node ev s i).commitIndex) :=
    ⟨s, hs, i, List.length_take_le _ _, List.take_prefix _ _⟩
  refine ⟨_, horder, fun c hc => hc.prefix_of_le hgood horder ?_⟩
  obtain ⟨t, ht, j, hlen, -⟩ := hc
  have hle := hlen.trans (hmax t ht j)
  by_cases hi : i ∈ C.peers
  · rwa [List.length_take_of_le (C.shaped ev hi s).commit_le]
  · rw [(C.log_of_not_mem ev hi s).2] at hle
    omega

end Order

end Cluster

end ToyRaft
