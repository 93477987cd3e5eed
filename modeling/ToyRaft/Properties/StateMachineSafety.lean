import ToyRaft.Properties.Applied
import ToyRaft.Properties.CommitSafety

/-!
# State Machine Safety

Two consequences of safe commits.  No two nodes ever count, or hand to their state machines,
different entries at one index (`committed_entries_agree`); and no node is ever asked to
truncate an entry it has committed, so that `assertTruncateAboveCommit` never panics
(`committed_never_truncated`).

Both need that no `AppendEntries` is accepted over a stale tail.  Without that the runs
`splitBrain` and `overwritten` show what happens: node `b` counts the stale entry of `a` as a
copy of its own, commits an entry only it has, and the next leader commits another one in its
place or tries to overwrite it.
-/

namespace ToyRaft

namespace Cluster

variable {ρ : Type} (C : Cluster) (ev : ℕ → Event ρ)

lemma mem_of_commit {t k : ℕ} {i : NodeID} (hk : 1 ≤ k)
    (h : k ≤ (C.node ev t i).commitIndex) : i ∈ C.peers := by
  by_contra hi
  rw [(C.log_of_not_mem ev hi t).2] at h
  omega

lemma exists_committed {t k : ℕ} {i : NodeID} (hi : i ∈ C.peers) (hk : 1 ≤ k)
    (h : k ≤ (C.node ev t i).commitIndex) :
    ∃ e, (C.node ev t i).log[k - 1]? = some e ∧
      ((C.node ev t i).log.take (C.node ev t i).commitIndex)[k - 1]? = some e := by
  have hle := (C.shaped ev hi t).commit_le
  have hlt : k - 1 < (C.node ev t i).log.length := by omega
  refine ⟨_, List.getElem?_eq_getElem hlt, ?_⟩
  rw [List.getElem?_take, if_pos (by omega), List.getElem?_eq_getElem hlt]

lemma getElem?_eq_of_comparable {l l' : List Entry} (h : l <+: l' ∨ l' <+: l) {p : ℕ}
    {a b : Entry} (ha : l[p]? = some a) (hb : l'[p]? = some b) : a = b := by
  have key : ∀ {l l' : List Entry} {a b : Entry}, l <+: l' → l[p]? = some a →
      l'[p]? = some b → a = b := by
    intro l l' a b hpre ha hb
    obtain ⟨hlt, rfl⟩ := List.getElem?_eq_some_iff.mp ha
    rw [List.prefix_iff_getElem?.mp hpre p hlt] at hb
    exact Option.some.inj hb
  rcases h with h | h
  · exact key h ha hb
  · exact (key h hb ha).symm

variable {b : ℕ} (hgood : ∀ u < b, ¬ C.AcceptsStaleTail ev u)
include hgood

lemma committed_agree {s t : ℕ} (hs : s ≤ b) (ht : t ≤ b) {i j : NodeID} {k : ℕ} (hk : 1 ≤ k)
    (hi : k ≤ (C.node ev s i).commitIndex) (hj : k ≤ (C.node ev t j).commitIndex) :
    ∃ e, (C.node ev s i).log[k - 1]? = some e ∧ (C.node ev t j).log[k - 1]? = some e := by
  have hmi := C.mem_of_commit ev hk hi
  have hmj := C.mem_of_commit ev hk hj
  obtain ⟨e, he, he'⟩ := C.exists_committed ev hmi hk hi
  obtain ⟨f, hf, hf'⟩ := C.exists_committed ev hmj hk hj
  suffices hef : e = f by
    subst hef
    exact ⟨e, he, hf⟩
  rcases Nat.lt_or_ge 1 C.peers.toFinset.card with hcard | hsolo
  · have hci := (C.safeCommits ev hcard s (fun u hu => hgood u (by omega)) i hmi).current
    have hcj := (C.safeCommits ev hcard t (fun u hu => hgood u (by omega)) j hmj).current
    exact getElem?_eq_of_comparable ((C.execution ev hcard).committed_comparable hci hcj) he' hf'
  · obtain rfl := eq_of_solo hsolo hmi hmj
    have hcomp : (C.node ev s i).log <+: (C.node ev t i).log ∨
        (C.node ev t i).log <+: (C.node ev s i).log :=
      (le_total s t).imp (fun h => solo_log_grows ev hsolo h i)
        (fun h => solo_log_grows ev hsolo h i)
    exact getElem?_eq_of_comparable hcomp he hf

/-- **State Machine Safety.**  As long as no `AppendEntries` is accepted over a stale tail,
the entries two nodes count as committed at one index, at any two moments, are the same, and
so are the entries they hand to `StateMachine.Apply`. -/
theorem committed_entries_agree :
    (∀ s ≤ b, ∀ t ≤ b, ∀ i j k, 1 ≤ k → k ≤ (C.node ev s i).commitIndex →
      k ≤ (C.node ev t j).commitIndex →
      ∃ e, (C.node ev s i).log[k - 1]? = some e ∧ (C.node ev t j).log[k - 1]? = some e) ∧
    ∀ s ≤ b, ∀ t ≤ b, ∀ i j e f, C.AppliesAt ev s i e → C.AppliesAt ev t j f →
      e.index = f.index → e = f := by
  refine ⟨fun s hs t ht i j k hk hi hj => C.committed_agree ev hgood hs ht hk hi hj, ?_⟩
  intro s hs t ht i j e f he hf hidx
  obtain ⟨s', hs', hpos, hle, hlog⟩ := C.counted_of_applies ev he
  obtain ⟨t', ht', -, hle', hlog'⟩ := C.counted_of_applies ev hf
  rw [← hidx] at hle' hlog'
  obtain ⟨g, hg, hg'⟩ :=
    C.committed_agree ev hgood (hs'.trans hs) (ht'.trans ht) hpos hle hle'
  rw [hlog] at hg
  rw [hlog'] at hg'
  exact (Option.some.inj hg).trans (Option.some.inj hg').symm

end Cluster

namespace Cluster

/-- Node `a` leads term 1, and it and `b` commit and apply its first command. -/
def bothApply : List (Event Unit) :=
  acknowledged ++ [⟨"a", .tick {}⟩] ++ flush "a" 2 1 ++
    deliver (appendRequest 1 "a" "b" 1 1 [] 1) ++ flush "b" 1 1 ++
    [⟨"a", .applyCall (.returned none none)⟩, ⟨"b", .applyCall (.returned none none)⟩]

theorem committed_entries_agree_bothApply :
    trio.AppliesAt (Machine.schedule idle bothApply) 47 "a" ⟨1, 1, [1]⟩ ∧
      trio.AppliesAt (Machine.schedule idle bothApply) 48 "b" ⟨1, 1, [1]⟩ ∧
      ∃ e, (trio.node (Machine.schedule idle bothApply) 48 "a").log[1 - 1]? = some e ∧
        (trio.node (Machine.schedule idle bothApply) 48 "b").log[1 - 1]? = some e := by
  refine ⟨by decide +kernel, by decide +kernel, ?_⟩
  exact (trio.committed_entries_agree (Machine.schedule idle bothApply) (b := 48)
    (by decide +kernel)).1 48 le_rfl 48 le_rfl "a" "b" 1 le_rfl (by decide +kernel)
    (by decide +kernel)

/-- The new leader `b` counts the stale entry of `a` as a copy of its own, commits its own
and applies it. -/
def staleCommit : List (Event Unit) :=
  staleAck ++ propose "b" [2] ++ flush "b" 2 1 ++ [⟨"b", .applyCall (.returned none none)⟩]

/-- Node `a` is then elected to term 3, replicates its stale entry and another one to `c`,
commits both and applies the first. -/
def splitBrain : List (Event Unit) :=
  staleCommit ++ elect 3 "a" "c" 1 1 ++ flush "a" 2 ++
    deliver (appendRequest 3 "a" "c" 1 1 [] 0) ++ flush "c" 1 ++
    deliver (appendResponse 3 "c" "a" false 0) ++ propose "a" [3] ++ flush "a" 2 ++
    deliver (appendRequest 3 "a" "c" 0 0 [⟨1, 1, [1]⟩, ⟨3, 2, [3]⟩] 0) ++ flush "c" 1 ++
    deliver (appendResponse 3 "c" "a" true 2) ++ flush "a" 0 2 ++
    [⟨"a", .applyCall (.returned none none)⟩]

/-- Nodes `a` and `b` have committed, and hand to their state machines, different entries at
index 1. -/
theorem different_entries_applied :
    1 ≤ (trio.node (Machine.schedule idle splitBrain) 105 "a").commitIndex ∧
      1 ≤ (trio.node (Machine.schedule idle splitBrain) 105 "b").commitIndex ∧
      (trio.node (Machine.schedule idle splitBrain) 105 "a").log[0]? = some ⟨1, 1, [1]⟩ ∧
      (trio.node (Machine.schedule idle splitBrain) 105 "b").log[0]? = some ⟨2, 1, [2]⟩ ∧
      trio.AppliesAt (Machine.schedule idle splitBrain) 104 "a" ⟨1, 1, [1]⟩ ∧
      trio.AppliesAt (Machine.schedule idle splitBrain) 54 "b" ⟨2, 1, [2]⟩ := by
  decide +kernel

end Cluster

/-! ## Truncation -/

namespace Cluster

variable {ρ : Type} (C : Cluster) (ev : ℕ → Event ρ)

lemma commitIndex_lt_firstConflict {t : ℕ} (hgood : ∀ s < t, ¬ C.AcceptsStaleTail ev s)
    {i : NodeID} (hi : i ∈ C.peers) {m : Message} (hm : m ∈ C.net ev t) (hto : m.toNode = i)
    (htype : m.type = .appendEntries) (hterm : (C.node ev t i).currentTerm ≤ m.term)
    (hprev : (C.node ev t i).log.hasEntry m.prevLogIndex m.prevLogTerm = true)
    (hfc : (C.node ev t i).firstConflictIndex m.entries ≠ 0) :
    (C.node ev t i).commitIndex < (C.node ev t i).firstConflictIndex m.entries := by
  obtain ⟨s, -, hb⟩ := C.builtAt ev hm htype
  have hcard : 1 < C.peers.toFinset.card := by
    refine Finset.one_lt_card.mpr ⟨i, List.mem_toFinset.mpr hi, m.fromNode,
      List.mem_toFinset.mpr (C.net_from ev hm), ?_⟩
    rw [← hto]
    exact hb.dest
  have hshape := C.shaped ev hi t
  rcases Node.receiver_cases hshape.contiguous (C.wellFormed ev hm htype) hprev with
    ⟨h0, -⟩ | ⟨k, hk, hw, -⟩
  · exact (hfc h0).elim
  · have hsafe := (C.safeCommits ev hcard t hgood i hi).current
    have hle := (C.execution ev hcard).committed_length_le_graft hsafe (List.take_prefix _ _)
      hb.leader.1 (hterm.trans hb.leader.2.ge) (hb.graft hi hprev hw).1
    have hlen : ((C.node ev t i).log.take (C.node ev t i).commitIndex).length =
        (C.node ev t i).commitIndex := by
      rw [List.length_take, Nat.min_eq_left hshape.commit_le]
    rw [hk, ← hlen]
    exact Nat.lt_succ_of_le hle

/-- **A committed entry is never truncated.**  As long as no `AppendEntries` is accepted over
a stale tail, the delivery of a message of the network to the node it is addressed to never
panics; and if that message passes the checks of its receiver and conflicts inside its log, it
conflicts above its commit index. -/
theorem committed_never_truncated {t : ℕ} (hgood : ∀ s < t, ¬ C.AcceptsStaleTail ev s)
    {i : NodeID} (hi : i ∈ C.peers) {m : Message} (hm : m ∈ C.net ev t) (hto : m.toNode = i) :
    (∀ env, (C.node ev t i).step env m ≠ none) ∧
    (m.type = .appendEntries → (C.node ev t i).currentTerm ≤ m.term →
      (C.node ev t i).log.hasEntry m.prevLogIndex m.prevLogTerm = true →
      (C.node ev t i).firstConflictIndex m.entries ≠ 0 →
      (C.node ev t i).firstConflictIndex m.entries ≤ (C.node ev t i).log.lastIndex →
      (C.node ev t i).commitIndex < (C.node ev t i).firstConflictIndex m.entries) := by
  constructor
  · intro env hnone
    obtain ⟨htype, hterm, hprev, hfc, -, hle⟩ := Node.step_eq_none hnone
    have hlt := C.commitIndex_lt_firstConflict ev hgood hi hm hto htype hterm hprev hfc
    omega
  · intro htype hterm hprev hfc _
    exact C.commitIndex_lt_firstConflict ev hgood hi hm hto htype hterm hprev hfc

/-- Node `a` keeps an entry of term 1; `b`, elected to term 2, sends it another one for the
same index. -/
def conflicting : List (Event Unit) :=
  elect 1 "a" "b" 0 0 ++ propose "a" [1] ++ elect 2 "b" "c" 0 0 ++ propose "b" [2] ++
    flush "b" 4

theorem committed_never_truncated_conflicting :
    (trio.node (Machine.schedule idle conflicting) 42 "a").firstConflictIndex [⟨2, 1, [2]⟩] = 1 ∧
      (trio.node (Machine.schedule idle conflicting) 42 "a").log.lastIndex = 1 ∧
      (trio.node (Machine.schedule idle conflicting) 42 "a").commitIndex <
        (trio.node (Machine.schedule idle conflicting) 42 "a").firstConflictIndex
          [⟨2, 1, [2]⟩] := by
  refine ⟨by decide +kernel, by decide +kernel, ?_⟩
  exact (trio.committed_never_truncated (Machine.schedule idle conflicting) (t := 42)
    (m := appendRequest 2 "b" "a" 0 0 [⟨2, 1, [2]⟩] 0) (by decide +kernel) (i := "a")
    (by decide) (by decide +kernel) rfl).2 rfl (by decide +kernel) (by decide +kernel)
    (by decide +kernel) (by decide +kernel)

/-- After the false commit of `b`, node `a` is elected to term 3 and probes `b` down to the
beginning of its log. -/
def overwritten : List (Event Unit) :=
  staleCommit ++ elect 3 "a" "c" 1 1 ++ flush "a" 2 ++
    deliver (appendRequest 3 "a" "b" 1 1 [] 0) ++ flush "b" 1 ++
    deliver (appendResponse 3 "b" "a" false 0) ++ [⟨"a", .tick {}⟩] ++ flush "a" 2 ++
    deliver (appendRequest 3 "a" "b" 0 0 [⟨1, 1, [1]⟩] 0)

/-- The delivery conflicts inside the log of `b`, at its commit index, and `b` panics. -/
theorem truncation_panics :
    appendRequest 3 "a" "b" 0 0 [⟨1, 1, [1]⟩] 0 ∈
        trio.net (Machine.schedule idle overwritten) 91 ∧
      (trio.node (Machine.schedule idle overwritten) 91 "b").firstConflictIndex
          [⟨1, 1, [1]⟩] ≤
        (trio.node (Machine.schedule idle overwritten) 91 "b").log.lastIndex ∧
      ¬ (trio.node (Machine.schedule idle overwritten) 91 "b").commitIndex <
        (trio.node (Machine.schedule idle overwritten) 91 "b").firstConflictIndex
          [⟨1, 1, [1]⟩] ∧
      (trio.host (Machine.schedule idle overwritten) 91 "b").crashed = false ∧
      (trio.host (Machine.schedule idle overwritten) 92 "b").crashed = true := by
  decide +kernel

end Cluster

end ToyRaft
