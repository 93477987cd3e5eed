import ToyRaft.Properties.Refinement

/-!
# No log runs ahead of its term

A node writes entries to storage inside `Step`, and the term it has accepted them in only with
the next `flush`.  A crash between the two brings the node back with a log from a term it does
not know of (`log_ahead_of_term`).

`log_term_le` says that this is the only way: as long as no crash leaves an entry behind whose
term is above the stored one (`RestartsAhead`), every entry of every log has a term that its
node has reached.  Such a crash falls where the hard state is not saved yet
(`log_term_le_of_saved`).
-/

namespace ToyRaft

namespace Node

/-! ## Where the entries of a log come from -/

lemma mem_entriesFrom {start : ℕ} {es : List Entry} {e : Entry} (he : e ∈ entriesFrom start es) :
    e ∈ es := by
  induction es with
  | nil => exact he
  | cons a es ih =>
      unfold entriesFrom at he
      split_ifs at he
      · exact he
      · exact List.mem_cons_of_mem _ (ih he)

lemma mem_truncateSuffix {l : Log} {start : ℕ} {e : Entry} (he : e ∈ l.truncateSuffix start) :
    e ∈ l := by
  unfold Log.truncateSuffix at he
  split_ifs at he
  · cases he
  · exact he
  · exact List.mem_of_mem_take he

/-- An entry of the log after a section was there before, or came with an `AppendEntries` of the
term the node is in now. -/
lemma Shaped.mem_log_handled {env : Env} {m : Message} {n n' : Node} (h : n.Shaped)
    (hm : m.type = .appendEntries → m.WellFormedAppend)
    (hfault : env.truncateErr = false ∧ env.appendErr = false) (hn : Handled env m n n')
    {e : Entry} (he : e ∈ n'.log) :
    e ∈ n.log ∨ m.type = .appendEntries ∧ m.term = n'.currentTerm ∧ e ∈ m.entries := by
  cases logEffect_of_handled hn with
  | same hlog => exact .inl (hlog ▸ he)
  | write hp _ _ _ _ hlog hcur =>
      rw [hlog] at he
      rcases List.mem_append.mp he with he | he
      · exact .inl (mem_truncateSuffix he)
      · exact .inr ⟨hp.type, hp.term.trans hcur.symm, mem_entriesFrom he⟩
  | mirrorFailed hfail hp hfc => exact (hfail (h.mirror_none (hm hp.type) hfault hp hfc)).elim

end Node

namespace Host

variable {ρ : Type}

/-- The storage that a crash leaves behind. -/
def leaves (h : Host ρ) : Act ρ → Option Storage
  | .restart _ _ => some h.node.storage
  | .restartMidMirror m _ _ =>
      (h.node.mirrorStart m).bind fun start => (h.node.storage.truncateSuffix start).toOption
  | _ => none

lemma leaves_frame {h : Host ρ} {a : Act ρ} {s : Storage} (hs : s ∈ h.leaves a) :
    a.restarts = true ∧ s.hs = h.node.storage.hs ∧ ∀ e ∈ s.entries, e ∈ h.node.storage.entries := by
  cases a with
  | restart =>
      cases hs
      exact ⟨rfl, rfl, fun _ he => he⟩
  | restartMidMirror m seed via =>
      obtain ⟨start, -, hs⟩ := Option.bind_eq_some_iff.mp hs
      refine ⟨rfl, ?_⟩
      unfold Storage.truncateSuffix at hs
      split_ifs at hs
      · cases hs
        exact ⟨rfl, fun _ he => he⟩
      · cases hs
      · cases hs
        exact ⟨rfl, fun _ he => List.mem_of_mem_take he⟩
  | _ => cases hs

lemma act_of_restarts (cfg : Config) (h : Host ρ) {a : Act ρ} (ha : a.restarts = true) :
    (h.act cfg a).1 = h ∨ ∃ s ∈ h.leaves a, Node.Started cfg s (h.act cfg a).1.node := by
  have hfires := fires_of_act cfg h a
  generalize (h.act cfg a).1 = h', (h.act cfg a).2 = out at hfires ⊢
  cases hfires with
  | idle => exact .inl rfl
  | restart _ _ _ harestart hnew =>
      refine .inr ⟨_, ?_, (new_cases hnew).1⟩
      rcases harestart with ⟨rfl, rfl⟩ | ⟨m, start, rfl, hstart, hs⟩
      · rfl
      · rw [leaves, hstart, Option.bind_some, hs]
        rfl
  | _ => cases ha

/-- An entry of the log after a move that is no restart was there before, is of the term the node
is in now, or came with an `AppendEntries` of that term. -/
lemma Move.mem_log {cfg : Config} {h : Host ρ} {a : Act ρ} {n' : Node} {f' : Flush}
    {out : List Message} (hmove : Move cfg h a n' f' out) (hrestart : a.restarts = false)
    (hfault : a.logFaultless = true)
    (hm : ∀ m ∈ a.inbound, m.type = .appendEntries → m.WellFormedAppend)
    (hs : h.node.Shaped) {e : Entry} (he : e ∈ n'.log) :
    h.node.currentTerm ≤ n'.currentTerm ∧
      (e ∈ h.node.log ∨ e.term = n'.currentTerm ∨
        ∃ m ∈ a.inbound, m.type = .appendEntries ∧ m.term = n'.currentTerm ∧ e ∈ m.entries) := by
  cases hmove with
  | quiet => exact ⟨le_rfl, .inl he⟩
  | @step m env _ ha hn =>
      have hin : m.type = .appendEntries → m ∈ a.inbound := fun ht =>
        inbound_of_step ha (by simp [ht])
      have henv := env_of_logFaultless ha hfault
      have hlog := (h.node.maybeStepDownLocked_frame m.term).2.2.1
      refine ⟨(Node.follows_of_step (fun _ _ => rfl) hn).precedes.term_le, ?_⟩
      rcases (hs.stepDown m.term).mem_log_handled (fun ht => hm m (hin ht) ht) henv hn he with
        he | ⟨ht, hterm, he⟩
      · exact .inl (hlog ▸ he)
      · exact .inr (.inr ⟨m, hin ht, ht, hterm, he⟩)
  | @propose data env s =>
      obtain ⟨-, -, -, hcur, hlog, -⟩ := (h.node.proposed data s).broadcast_frame
      rw [hlog] at he
      rcases List.mem_append.mp he with he | he
      · exact ⟨hcur.ge, .inl he⟩
      · rw [List.mem_singleton.mp he]
        exact ⟨hcur.ge, .inr (.inl hcur.symm)⟩
  | @proposeFailed data =>
      have he' : e ∈ (h.node.log.append [h.node.newEntry data]).truncateSuffix
          (h.node.log.lastIndex + 1) := he
      rcases List.mem_append.mp (Node.mem_truncateSuffix he') with he | he
      · exact ⟨le_rfl, .inl he⟩
      · rw [List.mem_singleton.mp he]
        exact ⟨le_rfl, .inr (.inl rfl)⟩
  | ready => exact ⟨le_rfl, .inl he⟩
  | save => exact ⟨le_rfl, .inl he⟩
  | saveNone => exact ⟨le_rfl, .inl he⟩
  | saveFailed => exact ⟨le_rfl, .inl he⟩
  | send => exact ⟨le_rfl, .inl he⟩
  | restart ha =>
      rw [ha] at hrestart
      cases hrestart

end Host

namespace Cluster

variable {ρ : Type} (C : Cluster) (ev : ℕ → Event ρ)

/-- At moment `t` a crash leaves an entry behind whose term is above the stored one. -/
def RestartsAhead (t : ℕ) : Prop :=
  C.Enabled (C.world ev t) (ev t) ∧
    ∃ s ∈ (C.host ev t (ev t).node).leaves (ev t).act,
      ∃ e ∈ s.entries, s.hs.currentTerm < e.term

instance (t : ℕ) : Decidable (C.RestartsAhead ev t) :=
  inferInstanceAs (Decidable (_ ∧ _))

lemma log_term_le_succ {t : ℕ} {i : NodeID} (hi : i ∈ C.peers) (hgood : ¬ C.RestartsAhead ev t)
    (ih : ∀ s ≤ t, ∀ j ∈ C.peers, ∀ e ∈ (C.node ev s j).log,
      e.term ≤ (C.node ev s j).currentTerm) :
    ∀ e ∈ (C.node ev (t + 1) i).log, e.term ≤ (C.node ev (t + 1) i).currentTerm := by
  intro e he
  rcases C.step_cases ev t i with ⟨sent, hm⟩ | ⟨heq, -⟩
  · cases hrestart : (ev t).act.restarts with
    | true =>
        rcases Host.act_of_restarts (C.cfg i) (C.host ev t i) hrestart with heq | ⟨s, hs, hstarted⟩
        · rw [node, hm.host, heq] at he ⊢
          exact ih t le_rfl i hi e he
        · rw [node, hm.host] at he ⊢
          rw [hstarted.log] at he
          have hcur := congrArg HardState.currentTerm hstarted.hardState
          refine le_trans (not_lt.mp fun hlt => hgood ⟨hm.enabled, ?_⟩) hcur.ge
          rw [hm.node]
          exact ⟨s, hs, e, he, hlt⟩
    | false =>
        obtain ⟨hmono, hsource⟩ := hm.move.mem_log hrestart
          (Host.logFaultless_of_faultless hm.faultless)
          (fun m hin ht => C.wellFormed ev (hm.inbound m hin).1 ht) (C.shaped ev hi t) he
        rcases hsource with he | heq | ⟨m, hin, ht, hterm, he⟩
        · exact (ih t le_rfl i hi e he).trans hmono
        · exact heq.le
        · -- a message is built from the log that its sender had before
          obtain ⟨s, hs, hbuilt⟩ := C.builtAt ev (hm.inbound m hin).1 ht
          rw [hbuilt.entries] at he
          have hle := ih s hs _ hbuilt.leader.mem e (List.mem_of_mem_drop he)
          rw [hbuilt.leader.2, hterm] at hle
          exact hle
  · rw [node, heq] at he ⊢
    exact ih t le_rfl i hi e he

lemma log_term_le_of_mem {t : ℕ} (hgood : ∀ s < t, ¬ C.RestartsAhead ev s) {i : NodeID}
    (hi : i ∈ C.peers) : ∀ e ∈ (C.node ev t i).log, e.term ≤ (C.node ev t i).currentTerm := by
  induction t using Nat.strong_induction_on generalizing i with
  | _ t ih =>
      cases t with
      | zero =>
          intro e he
          rw [(C.started_zero ev hi).log] at he
          cases he
      | succ t =>
          refine C.log_term_le_succ ev hi (hgood t t.lt_succ_self) fun s hs j hj => ?_
          exact ih s (Nat.lt_succ_of_le hs) (fun u hu => hgood u (by omega)) hj

/-- Every entry of every log has a term that its node has reached. -/
theorem log_term_le {t : ℕ} (hgood : ∀ s < t, ¬ C.RestartsAhead ev s) (i : NodeID) :
    ∀ e ∈ (C.node ev t i).log, e.term ≤ (C.node ev t i).currentTerm := by
  by_cases hi : i ∈ C.peers
  · exact C.log_term_le_of_mem ev hgood hi
  · rw [(C.log_of_not_mem ev hi t).1]
    intro e he
    cases he

/-- Node `c` accepts an entry of term 1, saves its hard state, and crashes. -/
def savedBeforeCrash : List (Event Unit) :=
  elect 1 "a" "b" 0 0 ++ propose "a" [1] ++ flush "a" 4 ++
    deliver (appendRequest 1 "a" "c" 0 0 [⟨1, 1, [1]⟩] 0) ++ flush "c" 1 ++
    [⟨"c", .restart 0 .restored⟩]

theorem log_term_le_savedBeforeCrash :
    (trio.node (Machine.schedule idle savedBeforeCrash) 32 "c").log = [⟨1, 1, [1]⟩] ∧
      1 ≤ (trio.node (Machine.schedule idle savedBeforeCrash) 32 "c").currentTerm := by
  have hlog : (trio.node (Machine.schedule idle savedBeforeCrash) 32 "c").log =
      [⟨1, 1, [1]⟩] := by
    decide +kernel
  refine ⟨hlog, trio.log_term_le _ (by decide +kernel) "c" ⟨1, 1, [1]⟩ ?_⟩
  rw [hlog]
  exact List.mem_singleton_self _

/-- Node `c` accepts an entry of term 1, and crashes before it saves its hard state. -/
def crashBeforeSave : List (Event Unit) :=
  elect 1 "a" "b" 0 0 ++ propose "a" [1] ++ flush "a" 4 ++
    deliver (appendRequest 1 "a" "c" 0 0 [⟨1, 1, [1]⟩] 0) ++ [⟨"c", .restart 0 .restored⟩]

/-- It comes back in term 0, with an entry of term 1. -/
theorem log_ahead_of_term :
    (trio.node (Machine.schedule idle crashBeforeSave) 27 "c").log = [⟨1, 1, [1]⟩] ∧
      (trio.node (Machine.schedule idle crashBeforeSave) 27 "c").currentTerm = 0 := by
  decide +kernel

/-! ## Where the crash falls -/

/-- At moment `t` a node crashes that has a hard state which is not saved yet. -/
def RestartsUnsaved (t : ℕ) : Prop :=
  C.Enabled (C.world ev t) (ev t) ∧ (ev t).act.restarts = true ∧
    ((C.node ev t (ev t).node).pendingHS.isSome ∨
      (C.host ev t (ev t).node).flush.unsaved.isSome)

/-- The first crash that leaves an entry ahead of its term falls between the section that raised
the term and the save. -/
lemma restartsUnsaved_of_restartsAhead {t : ℕ} (hgood : ∀ s < t, ¬ C.RestartsAhead ev s)
    (hahead : C.RestartsAhead ev t) : C.RestartsUnsaved ev t := by
  obtain ⟨hen, s, hs, e, he, hlt⟩ := hahead
  have hmem := hen.1
  obtain ⟨hrestarts, hhs, hsub⟩ := Host.leaves_frame hs
  refine ⟨hen, hrestarts, ?_⟩
  by_contra hsaved
  obtain ⟨hpend, hflush⟩ := not_or.mp hsaved
  -- with nothing unsaved the storage has the term of the node, which its log is within
  have htop := ((C.balanced ev t).1 _ hmem).2.top_eq
  rw [Option.not_isSome_iff_eq_none.mp hpend, Option.not_isSome_iff_eq_none.mp hflush] at htop
  have hcur : (C.node ev t (ev t).node).storage.hs.currentTerm =
      (C.node ev t (ev t).node).currentTerm := congrArg HardState.currentTerm htop
  have hle := C.log_term_le_of_mem ev hgood hmem e
    ((C.shaped ev hmem t).mirrored ▸ hsub e he)
  rw [hhs] at hlt
  exact absurd hle (not_le.mpr (hcur.ge.trans_lt hlt))

/-- So it is enough that every crash finds the hard state saved. -/
theorem log_term_le_of_saved {t : ℕ} (hsaved : ∀ s < t, ¬ C.RestartsUnsaved ev s) {i : NodeID}
    (hi : i ∈ C.peers) : ∀ e ∈ (C.node ev t i).log, e.term ≤ (C.node ev t i).currentTerm := by
  have hgood : ∀ s < t, ¬ C.RestartsAhead ev s := by
    intro s
    induction s using Nat.strong_induction_on with
    | _ s ih =>
        intro hs hahead
        exact hsaved s hs (C.restartsUnsaved_of_restartsAhead ev
          (fun u hu => ih u hu (hu.trans hs)) hahead)
  exact C.log_term_le_of_mem ev hgood hi

end Cluster

end ToyRaft
