import ToyRaft.Properties.Applied
import ToyRaft.Properties.LogMatching
import ToyRaft.Properties.MatchIndex

/-!
# What `Propose` reports

A `Propose` that has appended its entry waits in a registry keyed by the index alone, and
`applyOne` sends the outcome of `Apply` to whoever waits at the index of the entry it has
applied.  When that entry carries the term under which the waiter's own entry was appended it
is that entry, by Log Matching, and what `Propose` returns is the outcome of the caller's own
command (`propose_reports_own_command`).

When it carries another term the caller's entry has been overwritten by another leader, and
the caller is told that its command was applied although it is lost (`reports_lost_command`).
-/

namespace ToyRaft

lemma Node.newEntry_at_end {n n' : Node} {data : Data} {s : Storage} (hn : n.log.Contiguous)
    (hnode : n' = (n.proposed data s).broadcastAppendEntriesLocked) :
    n'.log[(n.newEntry data).index - 1]? = some (n.newEntry data) := by
  obtain ⟨-, -, -, -, hlog, -⟩ := (n.proposed data s).broadcast_frame
  have hidx : (n.newEntry data).index - 1 = n.log.length := Log.lastIndex_eq_length hn
  rw [hnode, hlog, hidx]
  exact List.getElem?_concat_length

namespace Host

variable {ρ : Type}

/-- `applyOne` is about to send the result of an entry to a caller whose own entry had another
term. -/
def misdelivers (h : Host ρ) : Act ρ → Bool
  | .applyDone =>
      match h.crashed, h.applier with
      | false, .applied e (.returned _ none) =>
          (h.waiters.lookup e.index).any fun ticket =>
            h.calls[ticket]?.any fun c => c.term != e.term
      | _, _ => false
  | _ => false

end Host

namespace Cluster

variable {ρ : Type} (C : Cluster) (ev : ℕ → Event ρ)

/-- At moment `t` a lifetime of node `i` ends and the next one begins. -/
def RebootsAt (t : ℕ) (i : NodeID) : Prop :=
  C.Enabled (C.world ev t) (ev t) ∧ (ev t).node = i ∧
    (C.host ev t i).reboots (C.cfg i) (ev t).act = true

instance (t : ℕ) (i : NodeID) : Decidable (C.RebootsAt ev t i) :=
  inferInstanceAs (Decidable (_ ∧ _ ∧ _))

/-- At moment `t` node `i` sends a result to a caller whose own entry had another term. -/
def MisdeliversAt (t : ℕ) (i : NodeID) : Prop :=
  C.Enabled (C.world ev t) (ev t) ∧ (ev t).node = i ∧
    (C.host ev t i).misdelivers (ev t).act = true

instance (t : ℕ) (i : NodeID) : Decidable (C.MisdeliversAt ev t i) :=
  inferInstanceAs (Decidable (_ ∧ _ ∧ _))

/-- In the lifetime of moment `t`, node `i` has called `Apply` on `e` with this outcome. -/
def AppliedInLife (t : ℕ) (i : NodeID) (e : Entry) (out : ApplyOutcome ρ) : Prop :=
  ∃ s < t, C.AppliesAt ev s i e ∧ (ev s).act = .applyCall out ∧
    ∀ u < t, s ≤ u → ¬ C.RebootsAt ev u i

/-- What call `c` of node `i` has been sent, and what it has returned, is the outcome of its
own entry. -/
structure ReportsOwn (t : ℕ) (i : NodeID) (c : ProposeCall ρ) : Prop where
  result : ∀ r, c.result = some r → r.err = none →
    C.AppliedInLife ev t i ⟨c.term, c.idx, c.data⟩ (.returned r.res none)
  ret : ∀ r, c.ret = some r → r.err = none →
    C.AppliedInLife ev t i ⟨r.term, r.idx, c.data⟩ (.returned r.res none)

/-- Call `c` waits at `idx` for an entry that has been in the log of node `i`. -/
structure WaitsFor (t : ℕ) (i : NodeID) (idx : ℕ) (c : ProposeCall ρ) : Prop where
  index : c.idx = idx
  appended : ∃ s ≤ t, (C.node ev s i).log[idx - 1]? = some ⟨c.term, idx, c.data⟩

/-- The books of the client side of node `i`: who waits, what the applier has just applied,
and what the calls have been told. -/
structure ClientBooks (t : ℕ) (i : NodeID) (ap : Applier ρ) (w : AList (fun _ : ℕ => ℕ))
    (cs : List (ProposeCall ρ)) : Prop where
  waiters : ∀ idx ticket, w.lookup idx = some ticket →
    ∃ c, cs[ticket]? = some c ∧ C.WaitsFor ev t i idx c
  applier : ∀ e out, ap = .applied e out → C.AppliedInLife ev t i e out
  calls : ∀ (ticket : ℕ) (c : ProposeCall ρ), cs[ticket]? = some c → C.ReportsOwn ev t i c

variable {C ev}

lemma AppliedInLife.succ {t : ℕ} {i : NodeID} {e : Entry} {out : ApplyOutcome ρ}
    (h : C.AppliedInLife ev t i e out) (hlife : ¬ C.RebootsAt ev t i) :
    C.AppliedInLife ev (t + 1) i e out := by
  obtain ⟨s, hs, happ, hact, hsame⟩ := h
  refine ⟨s, Nat.lt_succ_of_lt hs, happ, hact, fun u hu hsu => ?_⟩
  rcases Nat.lt_succ_iff_lt_or_eq.mp hu with hlt | rfl
  · exact hsame u hlt hsu
  · exact hlife

namespace ClientBooks

variable {t : ℕ} {i : NodeID} {ap : Applier ρ} {w : AList (fun _ : ℕ => ℕ)}
  {cs : List (ProposeCall ρ)}

lemma empty (t : ℕ) (i : NodeID) : C.ClientBooks ev t i .idle ∅ [] :=
  ⟨fun _ _ h => (by cases h), fun _ _ h => (by cases h), fun _ _ h => (by cases h)⟩

lemma of_client {h : Host ρ} {ch : List Entry} (heq : h.client = (ap, ch, w, cs))
    (hb : C.ClientBooks ev t i ap w cs) :
    C.ClientBooks ev t i h.applier h.waiters h.calls := by
  obtain ⟨happ, -, hw, hcs⟩ := Host.client_eq_iff.mp heq
  rwa [happ, hw, hcs]

lemma succ (h : C.ClientBooks ev t i ap w cs) (hlife : ¬ C.RebootsAt ev t i) :
    C.ClientBooks ev (t + 1) i ap w cs := by
  refine ⟨fun idx ticket hl => ?_, fun e out ha => (h.applier e out ha).succ hlife, ?_⟩
  · obtain ⟨c, hc, hidx, s, hs, hlog⟩ := h.waiters idx ticket hl
    exact ⟨c, hc, hidx, s, Nat.le_succ_of_le hs, hlog⟩
  · intro ticket c hc
    obtain ⟨hres, hret⟩ := h.calls ticket c hc
    exact ⟨fun r hr herr => (hres r hr herr).succ hlife,
      fun r hr herr => (hret r hr herr).succ hlife⟩

lemma setApplier (h : C.ClientBooks ev t i ap w cs) {ap' : Applier ρ}
    (hap : ∀ e out, ap' = .applied e out → C.AppliedInLife ev t i e out) :
    C.ClientBooks ev t i ap' w cs :=
  ⟨h.waiters, hap, h.calls⟩

lemma erase (h : C.ClientBooks ev t i ap w cs) (idx : ℕ) :
    C.ClientBooks ev t i ap (w.erase idx) cs := by
  refine ⟨fun idx' ticket hl => ?_, h.applier, h.calls⟩
  by_cases heq : idx' = idx
  · subst heq
    rw [AList.lookup_erase] at hl
    cases hl
  · rw [AList.lookup_erase_ne heq] at hl
    exact h.waiters idx' ticket hl

lemma push (h : C.ClientBooks ev t i ap w cs) {c : ProposeCall ρ} (hc : C.ReportsOwn ev t i c) :
    C.ClientBooks ev t i ap w (cs ++ [c]) := by
  refine ⟨fun idx ticket hl => ?_, h.applier, fun ticket c' hc' => ?_⟩
  · obtain ⟨c', hc', hwait⟩ := h.waiters idx ticket hl
    refine ⟨c', ?_, hwait⟩
    rw [List.getElem?_append_left (List.getElem?_eq_some_iff.mp hc').1]
    exact hc'
  · rcases List.mem_append.mp (List.mem_of_getElem? hc') with hmem | hmem
    · obtain ⟨k, hk⟩ := List.mem_iff_getElem?.mp hmem
      exact h.calls k c' hk
    · obtain rfl := List.mem_singleton.mp hmem
      exact hc

lemma register (h : C.ClientBooks ev t i ap w cs) {idx ticket : ℕ} {c : ProposeCall ρ}
    (hc : cs[ticket]? = some c) (hwait : C.WaitsFor ev t i idx c) :
    C.ClientBooks ev t i ap (w.insert idx ticket) cs := by
  refine ⟨fun idx' ticket' hl => ?_, h.applier, h.calls⟩
  by_cases heq : idx' = idx
  · subst heq
    rw [AList.lookup_insert] at hl
    obtain rfl := Option.some.inj hl
    exact ⟨c, hc, hwait⟩
  · rw [AList.lookup_insert_ne heq] at hl
    exact h.waiters idx' ticket' hl

lemma modify (h : C.ClientBooks ev t i ap w cs) {f : ProposeCall ρ → ProposeCall ρ} {k : ℕ}
    (hkeep : ∀ c, (f c).idx = c.idx ∧ (f c).term = c.term ∧ (f c).data = c.data)
    (hf : ∀ c, cs[k]? = some c → C.ReportsOwn ev t i (f c)) :
    C.ClientBooks ev t i ap w (cs.modify k f) := by
  refine ⟨fun idx ticket hl => ?_, h.applier, fun ticket c hc => ?_⟩
  · obtain ⟨c, hc, hidx, s, hs, hlog⟩ := h.waiters idx ticket hl
    obtain ⟨h1, h2, h3⟩ := hkeep c
    by_cases hk : k = ticket
    · subst hk
      refine ⟨f c, ?_, by rw [h1, hidx], s, hs, by rw [h2, h3]; exact hlog⟩
      rw [List.getElem?_modify_eq, hc]
      rfl
    · refine ⟨c, ?_, hidx, s, hs, hlog⟩
      rw [List.getElem?_modify_ne _ _ hk]
      exact hc
  · by_cases hk : k = ticket
    · subst hk
      rw [List.getElem?_modify_eq] at hc
      obtain ⟨c', hc', rfl⟩ := Option.map_eq_some_iff.mp hc
      exact hf c' hc'
    · rw [List.getElem?_modify_ne _ _ hk] at hc
      exact h.calls ticket c hc

end ClientBooks

/-- An applied entry with the term of the caller's own entry is the caller's own entry. -/
lemma own_entry {t : ℕ} {i : NodeID} {e : Entry} {c : ProposeCall ρ}
    (he : C.CountedBy ev t i e) (hwait : C.WaitsFor ev t i e.index c) (hterm : c.term = e.term) :
    e = ⟨c.term, c.idx, c.data⟩ := by
  obtain ⟨s, -, hpos, -, hlog⟩ := he
  obtain ⟨hidx, u, -, hown⟩ := hwait
  have htake := C.take_eq_of_term_eq ev hlog hown hterm.symm
  have hget := congrArg (fun l : Log => l[e.index - 1]?) htake
  simp only [List.getElem?_take_of_lt (Nat.lt_succ_self _)] at hget
  rw [hidx]
  exact Option.some.inj (hlog.symm.trans (hget.trans hown))

lemma returned_of_result {e : Entry} {out : ApplyOutcome ρ} (h : (out.result e).err = none) :
    out = .returned (out.result e).res none := by
  cases out with
  | returned res err =>
      cases err with
      | none => rfl
      | some err => cases h
  | panicked msg => cases h

/-- `applyOne` sends to the waiter of the entry's index the outcome of the waiter's entry. -/
lemma ClientBooks.resolve {t : ℕ} {i : NodeID} {h : Host ρ} {ap ap' : Applier ρ} {e : Entry}
    {out : ApplyOutcome ρ} (hb : C.ClientBooks ev t i ap h.waiters h.calls)
    (happ : C.AppliedInLife ev t i e out) (he : C.CountedBy ev t i e)
    (hgood : ∀ ticket c, h.waiters.lookup e.index = some ticket → h.calls[ticket]? = some c →
      (out.result e).err = none → c.term = e.term)
    (hap : ∀ e' out', ap' ≠ .applied e' out') :
    C.ClientBooks ev t i ap' (h.resolve e.index (out.result e)).waiters
      (h.resolve e.index (out.result e)).calls := by
  have hb' : C.ClientBooks ev t i ap' h.waiters h.calls :=
    hb.setApplier fun e' out' h' => (hap e' out' h').elim
  unfold Host.resolve
  split
  · exact hb'
  · rename_i ticket hl
    refine (hb'.erase e.index).modify (fun c => ⟨rfl, rfl, rfl⟩) fun c hc => ⟨?_, ?_⟩
    · intro r hr herr
      obtain rfl := Option.some.inj hr
      obtain ⟨c', hc', hwait⟩ := hb.waiters e.index ticket hl
      obtain rfl := Option.some.inj (hc.symm.trans hc')
      have hown := own_entry he hwait (hgood ticket c hl hc herr)
      rw [returned_of_result herr] at happ
      rw [← hown]
      exact happ
    · exact (hb.calls ticket c hc).ret

/-- One event keeps the books, if it does not send a result to the wrong caller. -/
theorem clientBooks_succ {t : ℕ} {i : NodeID} (hi : i ∈ C.peers)
    (hgood : ¬ C.MisdeliversAt ev t i)
    (hb : C.ClientBooks ev t i (C.host ev t i).applier (C.host ev t i).waiters
      (C.host ev t i).calls) :
    C.ClientBooks ev (t + 1) i (C.host ev (t + 1) i).applier (C.host ev (t + 1) i).waiters
      (C.host ev (t + 1) i).calls := by
  by_cases hlife : C.RebootsAt ev t i
  · obtain ⟨hen, rfl, hre⟩ := hlife
    obtain ⟨sent, hm⟩ := movesAt_of_enabled hen
    rw [hm.host]
    exact .of_client (Host.client_of_reboots hre) (.empty _ _)
  have hb' := hb.succ hlife
  rcases C.step_cases ev t i with ⟨sent, hm⟩ | ⟨heq, -⟩
  · cases hm.client with
    | same heq => exact .of_client heq hb'
    | fed _ _ _ _ _ _ heq => exact .of_client heq hb'
    | applying e rest out ha happlies _ heq =>
        refine .of_client heq (hb'.setApplier fun e' out' h' => ?_)
        cases h'
        refine ⟨t, Nat.lt_succ_self t, ⟨hm.enabled, hm.node, happlies⟩, ha, ?_⟩
        intro u hu htu
        rwa [show u = t by omega]
    | applied e out ap ha hrun happ hap heq =>
        have hcount := C.counted_of_inFlight ev hi (.inr ⟨out, happ⟩)
        refine .of_client heq (hb'.resolve (hb'.applier e out happ)
          (hcount.mono (Nat.le_succ t)) (fun ticket c hl hc herr => ?_) hap)
        by_contra hne
        refine hgood ⟨hm.enabled, hm.node, ?_⟩
        rw [returned_of_result herr] at happ
        rw [ha]
        simp [Host.misdelivers, hrun, happ, hl, hc, hne]
    | rejected c hres hret heq =>
        refine .of_client heq (hb'.push ⟨fun r hr => ?_, fun r hr herr => ?_⟩)
        · rw [hres] at hr
          cases hr
        · exact (hret r hr herr).elim
    | registered data s hnode heq =>
        refine .of_client heq ((hb'.push ⟨fun r hr => ?_, fun r hr => ?_⟩).register
          List.getElem?_concat_length ⟨rfl, t + 1, le_rfl, ?_⟩)
        · cases hr
        · cases hr
        · exact Node.newEntry_at_end (C.shaped ev hi t).contiguous hnode
    | received ticket c r hc hr heq =>
        refine .of_client heq (hb'.modify (fun c => ⟨rfl, rfl, rfl⟩) fun c' hc' => ?_)
        obtain rfl := Option.some.inj (hc.symm.trans hc')
        refine ⟨(hb'.calls ticket c hc).result, fun r' hr' herr => ?_⟩
        cases hr'
        exact (hb'.calls ticket c hc).result r hr (Option.map_eq_none_iff.mp herr)
    | cancelled ticket idx heq =>
        refine .of_client heq ((hb'.erase idx).modify (fun c => ⟨rfl, rfl, rfl⟩) fun c hc => ?_)
        refine ⟨(hb'.calls ticket c hc).result, fun r hr herr => ?_⟩
        cases hr
        cases herr
    | checkpointed heq =>
        refine .of_client heq (hb'.setApplier fun e out h => ?_)
        cases h
    | restarted _ heq => exact .of_client heq (.empty _ _)
  · rw [heq]
    exact hb'

variable (C ev) in
theorem clientBooks {i : NodeID} (hi : i ∈ C.peers) {t : ℕ}
    (hgood : ∀ s < t, ¬ C.MisdeliversAt ev s i) :
    C.ClientBooks ev t i (C.host ev t i).applier (C.host ev t i).waiters
      (C.host ev t i).calls := by
  induction t with
  | zero => exact .of_client (Host.client_of_new (C.new_start ρ hi)) (.empty _ _)
  | succ t ih =>
      exact clientBooks_succ hi (hgood t (Nat.lt_succ_self t))
        (ih fun s hs => hgood s (Nat.lt_succ_of_lt hs))

variable (C ev)

/-- **`Propose` reports the caller's own command.**  As long as node `i` sends no result to a
caller whose own entry had another term, a call of `Propose` that returns without error reports
the index, the term and the result of a call of `StateMachine.Apply` that the node has made, in
its present lifetime, on an entry with that index, that term and the caller's data. -/
theorem propose_reports_own_command {t : ℕ} {i : NodeID} (hi : i ∈ C.peers)
    (hgood : ∀ s < t, ¬ C.MisdeliversAt ev s i) {c : ProposeCall ρ}
    (hc : c ∈ (C.host ev t i).calls) {r : ProposeReturn ρ} (hr : c.ret = some r)
    (herr : r.err = none) :
    C.AppliedInLife ev t i ⟨r.term, r.idx, c.data⟩ (.returned r.res none) := by
  obtain ⟨ticket, hticket⟩ := List.mem_iff_getElem?.mp hc
  exact ((C.clientBooks ev hi hgood).calls ticket c hticket).ret r hr herr

/-- A call of `Propose` for the data `[1]` that has returned index 1, term 1 and a result. -/
def returnedCall : ProposeCall Unit :=
  { data := [1], idx := 1, term := 1, result := some ⟨some (), none⟩
    ret := some ⟨1, 1, some (), none⟩ }

/-- Node `a` commits and applies its first command, and the caller returns. -/
def reported : List (Event Unit) :=
  acknowledged ++ flush "a" 0 1 ++
    [⟨"a", .applyCall (.returned (some ()) none)⟩, ⟨"a", .applyDone⟩, ⟨"a", .receive 0⟩]

theorem propose_reports_own_command_reported :
    returnedCall ∈ (trio.host (Machine.schedule idle reported) 40 "a").calls ∧
      trio.AppliedInLife (Machine.schedule idle reported) 40 "a" ⟨1, 1, [1]⟩
        (.returned (some ()) none) := by
  have hcall : returnedCall ∈ (trio.host (Machine.schedule idle reported) 40 "a").calls := by
    decide +kernel
  exact ⟨hcall, trio.propose_reports_own_command _ (by decide) (by decide +kernel) hcall
    (r := ⟨1, 1, some (), none⟩) rfl rfl⟩

/-- The caller at `a` is still waiting when `b`, elected to term 2, overwrites the entry with
another command.  That one is committed and applied at `a`. -/
def lostCommand : List (Event Unit) :=
  elect 1 "a" "b" 0 0 ++ propose "a" [1] ++ elect 2 "b" "c" 0 0 ++ propose "b" [2] ++
    flush "b" 4 ++ deliver (appendRequest 2 "b" "a" 0 0 [⟨2, 1, [2]⟩] 0) ++ flush "a" 1 ++
    deliver (appendResponse 2 "a" "b" true 1) ++ [⟨"b", .tick {}⟩] ++ flush "b" 2 ++
    deliver (appendRequest 2 "b" "a" 2 1 [] 1) ++ flush "a" 1 1 ++
    [⟨"a", .applyCall (.returned (some ()) none)⟩, ⟨"a", .applyDone⟩, ⟨"a", .receive 0⟩]

/-- The caller is told that its command was applied at index 1 in term 1; the node has applied
another entry there, and never that one. -/
theorem reports_lost_command :
    returnedCall ∈ (trio.host (Machine.schedule idle lostCommand) 66 "a").calls ∧
      trio.AppliesAt (Machine.schedule idle lostCommand) 63 "a" ⟨2, 1, [2]⟩ ∧
      ∀ s < 66, ¬ trio.AppliesAt (Machine.schedule idle lostCommand) s "a" ⟨1, 1, [1]⟩ := by
  decide +kernel

end Cluster

end ToyRaft
