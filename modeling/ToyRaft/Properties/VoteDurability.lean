import ToyRaft.Runtime.Ledger

/-!
# Votes and candidacies are durable before they leave

`flush` saves the hard state before it sends, but drops the error of `SaveHardState`.  The
theorem of this file says when that order is enough: as long as every failing save is
harmless (`Host.SaveSafe`), the storage accounts for every granted vote and every candidacy
at the moment the message is handed to the transport, in every run of one node, whatever is
delivered to it and however often it restarts.

Terms are `uint64`s in the source.  An election in the last term wraps around to term 0, and the
books cannot balance there: the node would save that term and send what it has queued in the
last one.  `Host.TermFits` keeps the runs below it.

Without that proviso the property fails on the first candidacy:
`candidacy_sent_unsaved` is a node whose one `SaveHardState` fails and which
asks for votes all the same.
-/

namespace ToyRaft

namespace Host

variable {ρ : Type}

/-- No tick comes in the last term, in which `currentTerm++` would wrap around. -/
def TermFits (h : Host ρ) : Act ρ → Prop
  | .tick _ => h.node.currentTerm + 1 < 2 ^ 64
  | .step m _ => m.type = .tick → max h.node.currentTerm m.term + 1 < 2 ^ 64
  | _ => True

instance (h : Host ρ) : (a : Act ρ) → Decidable (TermFits h a)
  | .tick _ => inferInstanceAs (Decidable (_ < _))
  | .step _ _ => inferInstanceAs (Decidable (_ → _))
  | .propose _ _ | .ready | .save _ | .send | .drainBegin | .drain _ | .applyCall _ | .applyDone
  | .checkpoint _ _ | .receive _ | .cancel _ | .stop | .restart _ _ | .restartMidMirror _ _ _ =>
      .isTrue trivial

/-- An act that cannot overtake the books: a failing save is harmless, a vote is given to a node
with a name, and the next term is one. -/
structure KeepsBooks (h : Host ρ) (a : Act ρ) : Prop where
  save : SaveSafe h a
  names : NamesSender h a
  term : TermFits h a

instance (h : Host ρ) (a : Act ρ) : Decidable (KeepsBooks h a) :=
  decidable_of_iff (SaveSafe h a ∧ NamesSender h a ∧ TermFits h a)
    ⟨fun ⟨hsave, hnames, hterm⟩ => ⟨hsave, hnames, hterm⟩, fun h => ⟨h.save, h.names, h.term⟩⟩

/-- The books stay balanced along every run of one node with harmless saves only. -/
theorem balanced_after {cfg : Config} {s : Storage} {draw : ℕ} {restore : RestoreOutcome}
    {h₀ : Host ρ} (hnew : new cfg s draw restore = .ok h₀) {ev : ℕ → Act ρ} {t : ℕ}
    (hbooks : ∀ u < t, KeepsBooks (after cfg h₀ ev u) (ev u)) :
    Balanced cfg.nodeID (after cfg h₀ ev t) ((alone cfg h₀).run ev t).2 := by
  refine (alone cfg h₀).run_invariant_of
    (P := fun st => Balanced cfg.nodeID st.1 st.2)
    (A := fun st a => KeepsBooks st.1 a) (balanced_new hnew) ?_ hbooks
  intro st a hA hb
  exact voteLedger_move (move_of_act cfg st.1 a) rfl hA.save hA.names hb

/-- **Votes and candidacies are durable before they leave.**  In every run of one node in
which vote requests that are granted name their sender, every failing `SaveHardState` is harmless
and no election starts in the last term, the storage accounts for each granted vote and each
candidacy at the moment `flush` hands it over. -/
theorem vote_durable_when_sent {cfg : Config} {s : Storage} {draw : ℕ}
    {restore : RestoreOutcome} {h₀ : Host ρ} (hnew : new cfg s draw restore = .ok h₀)
    {ev : ℕ → Act ρ} {t : ℕ}
    (hbooks : ∀ u < t, KeepsBooks (after cfg h₀ ev u) (ev u))
    {x : Message} (hx : x ∈ ((after cfg h₀ ev t).act cfg (ev t)).2) :
    let stored := (after cfg h₀ ev t).node.storage.hs
    (x.type = .requestVoteResponse → x.voteGranted = true →
      x.term < stored.currentTerm ∨
        x.term = stored.currentTerm ∧ stored.votedFor = x.toNode) ∧
    (x.type = .requestVote →
      x.term < stored.currentTerm ∨
        x.term = stored.currentTerm ∧ stored.votedFor = (after cfg h₀ ev t).node.id) := by
  intro stored
  have hb := balanced_after hnew hbooks
  obtain ⟨msgs, hf⟩ := (move_of_act cfg _ _).sends hx
  unfold Balanced at hb
  rw [hf] at hb
  have hcov : ∀ c, x.voteOf = some c → stored.Covers x := fun c hc =>
    (hb.batch_mid x List.mem_cons_self c hc).1
  constructor
  · intro ht hg
    have hvote : x.voteOf = some x.toNode := by simp [Message.voteOf, ht, hg]
    refine (hcov _ hvote).imp_right fun hc => ⟨hc.1, ?_⟩
    exact Option.some.inj (hc.2.symm.trans hvote)
  · intro ht
    have hvote : x.voteOf = some x.fromNode := by simp [Message.voteOf, ht]
    refine (hcov _ hvote).imp_right fun hc => ⟨hc.1, ?_⟩
    rw [hb.id, ← hb.batch_from x List.mem_cons_self]
    exact Option.some.inj (hc.2.symm.trans hvote)

/-- Node `a` of a cluster of three. -/
def nodeA : Config := { nodeID := "a", peers := ["a", "b", "c"] }

/-- The `RequestVote` of `a` to `b` in term `T`, its log being empty. -/
def candidacy (T : ℕ) : Message :=
  { type := .requestVote, term := T, fromNode := "a", toNode := "b" }

/-- A heartbeat of term 5 reaches `a`, whose `SaveHardState` fails; `a` then stands for
election in term 6, saves that, and sends. -/
def harmlessFault : List (Act Unit) :=
  [.step { type := .appendEntries, term := 5, fromNode := "b", toNode := "a" } {},
    .ready, .save true, .send, .drainBegin, .drain false,
    .tick {}, .tick {}, .tick {}, .ready, .save false, .send]

theorem vote_durable_when_sent_harmlessFault :
    let h := after nodeA (start nodeA {} 0) (Machine.schedule .stop harmlessFault) 11
    candidacy 6 ∈ (h.act nodeA (Machine.schedule .stop harmlessFault 11)).2 ∧
      (6 < h.node.storage.hs.currentTerm ∨
        6 = h.node.storage.hs.currentTerm ∧ h.node.storage.hs.votedFor = h.node.id) := by
  have hnew : new nodeA {} 0 .restored = .ok (start nodeA {} 0 : Host Unit) := rfl
  refine ⟨by decide +kernel, ?_⟩
  exact (vote_durable_when_sent (x := candidacy 6) hnew (by decide +kernel)
    (by decide +kernel)).2 rfl

/-- The first candidacy of `a`, whose one `SaveHardState` fails. -/
def lostCandidacy : List (Act Unit) :=
  [.tick {}, .tick {}, .tick {}, .ready, .save true, .send]

/-- The candidacy leaves although the storage knows nothing of it. -/
theorem candidacy_sent_unsaved :
    let h := after nodeA (start nodeA {} 0) (Machine.schedule .stop lostCandidacy) 5
    candidacy 1 ∈ (h.act nodeA (Machine.schedule .stop lostCandidacy 5)).2 ∧
      ¬ (1 < h.node.storage.hs.currentTerm ∨
        1 = h.node.storage.hs.currentTerm ∧ h.node.storage.hs.votedFor = h.node.id) := by
  decide +kernel

end Host

end ToyRaft
