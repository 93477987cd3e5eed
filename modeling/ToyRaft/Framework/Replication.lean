import ToyRaft.Framework.Quorum

/-!
# Replicated logs with elected leaders

This file is the mathematics of leader-based log replication, over an arbitrary set of nodes
and an arbitrary type of entries that carry a term.  It names no message, no timer and no
storage.  A `History` is what an observer sees: at every moment each node has a current
term, leads or does not, and holds a log.  An `Execution` is a history that obeys three laws:

* `leader_unique`: a term has at most one leader, over all time;
* `elected`: whoever leads was elected by a majority, each voter casting its vote after the
  candidacy began, while holding a log the candidate's dominates, and never falling back
  below the term of its vote;
* `log_step`: a log changes only by the leader's own append, or by grafting the log of a
  leader onto it at the first position where the terms disagree, or by being cut there.

A node may lose its memory: `cur` may drop, as long as no vote or acknowledgement that
counted is forgotten, which is what the "never falls back" clauses say.

From these laws follow Log Matching across all moments (`log_matching`), Leader Completeness
(`leader_completeness`) and the comparability of any two committed prefixes
(`committed_comparable`).  The induction of Leader Completeness is over time, not over terms:
the first leader to lack a replicated entry is impossible.
-/

namespace ToyRaft

variable {ν ε : Type}

/-- What an observer sees of a replicated log at every moment. -/
structure History (ν ε : Type) where
  peers : Finset ν
  termOf : ε → ℕ
  cur : ℕ → ν → ℕ
  leads : ℕ → ν → Prop
  log : ℕ → ν → List ε

namespace History

variable (X : History ν ε)

/-- `i` leads term `T` at moment `t`. -/
def LeaderAt (t : ℕ) (i : ν) (T : ℕ) : Prop := X.leads t i ∧ X.cur t i = T

/-- The term of the last entry, `0` for an empty log. -/
def lastTerm (l : List ε) : ℕ := (l.getLast?.map X.termOf).getD 0

/-- The election restriction: `l'` is at least as up to date as `l`. -/
def UpToDate (l' l : List ε) : Prop :=
  X.lastTerm l < X.lastTerm l' ∨ (X.lastTerm l = X.lastTerm l' ∧ l.length ≤ l'.length)

/-- Both logs have an entry at position `p`, and of the same term. -/
def TermAgree (l l' : List ε) (p : ℕ) : Prop :=
  ∃ a b, l[p]? = some a ∧ l'[p]? = some b ∧ X.termOf a = X.termOf b

/-- Position `k` is where a receiver holding `old` starts writing the log `l`: the terms
agree just below, and at `k` the old log ends or disagrees. -/
structure Graft (old l : List ε) (k : ℕ) : Prop where
  below : k = 0 ∨ X.TermAgree old l (k - 1)
  le : k ≤ old.length
  lt : k < l.length
  conflict : k = old.length ∨ ¬ X.TermAgree old l k

/-- An election of `i` to term `T`: candidate from `tc`, leader from `t₀`, by the votes of
`Q`. -/
structure Election (i : ν) (T tc t₀ : ℕ) (Q : Finset ν) : Prop where
  lt : tc < t₀
  fresh : X.cur tc i < T
  stays : ∀ s, tc < s → T ≤ X.cur s i
  candidate : ∀ s, tc < s → s < t₀ → ¬ X.leads s i
  log_eq : X.log tc i = X.log t₀ i
  majority : IsMajority X.peers Q
  votes : ∀ v ∈ Q, ∃ tv, tc ≤ tv ∧ tv < t₀ ∧ X.cur (tv + 1) v = T ∧
    (∀ s, tv < s → T ≤ X.cur s v) ∧ X.UpToDate (X.log t₀ i) (X.log tv v)

/-- The ways the log of `i` may change at moment `t`. -/
inductive LogStep (t : ℕ) (i : ν) : Prop
  | same (h : X.log (t + 1) i = X.log t i)
  | appended (e : ε) (hl : X.leads t i) (hl' : X.leads (t + 1) i)
      (hc : X.cur (t + 1) i = X.cur t i) (he : X.termOf e = X.cur t i)
      (h : X.log (t + 1) i = X.log t i ++ [e])
  | grafted (j : ν) (t' k : ℕ) (ht : t' ≤ t) (hj : j ≠ i) (hl : X.leads t' j)
      (hcur : X.cur t i ≤ X.cur t' j)
      (hlead : X.leads (t + 1) i → X.cur (t + 1) i = X.cur t' j)
      (hg : X.Graft (X.log t i) (X.log t' j) k)
      (h : X.log (t + 1) i = (X.log t i).take k ++ (X.log t' j).drop k ∨
        X.log (t + 1) i = (X.log t i).take k)

/-- The entry `e` at position `p` is replicated in term `T`: the leader of `T`, whose log is
`l`, created it, and a majority held it while in term `T`, none of them ever falling back
below `T`. -/
structure ReplicatedIn (T p : ℕ) (e : ε) (l : List ε) : Prop where
  leader : ∃ t L, X.LeaderAt t L T ∧ X.log t L = l
  entry : l[p]? = some e
  term : X.termOf e = T
  holders : ∃ A, IsMajority X.peers A ∧ ∀ v ∈ A, ∃ t, X.cur t v = T ∧
    (∀ s, t ≤ s → T ≤ X.cur s v) ∧ (X.log t v)[p]? = some e

/-- The list `c` is a committed prefix, known to be so by term `T`: it is empty, or lies
within the log of a leader of a term `≤ T` up to a replicated entry. -/
def Committed (T : ℕ) (c : List ε) : Prop :=
  c = [] ∨ ∃ T₁ p e l, T₁ ≤ T ∧ X.ReplicatedIn T₁ p e l ∧ c.length ≤ p + 1 ∧ c <+: l

lemma Committed.mono {X : History ν ε} {T T' : ℕ} {c : List ε} (h : X.Committed T c)
    (hT : T ≤ T') : X.Committed T' c :=
  h.imp_right fun ⟨T₁, p, e, l, hT₁, hrest⟩ => ⟨T₁, p, e, l, hT₁.trans hT, hrest⟩

lemma Committed.of_prefix {X : History ν ε} {T : ℕ} {c c' : List ε} (h : X.Committed T c)
    (hpre : c' <+: c) : X.Committed T c' := by
  rcases h with rfl | ⟨T₁, p, e, l, hT₁, hrep, hlen, hcl⟩
  · exact .inl (List.prefix_nil.mp hpre)
  · exact .inr ⟨T₁, p, e, l, hT₁, hrep, hpre.length_le.trans hlen, hpre.trans hcl⟩

end History

/-- A history that obeys the laws of elections and of log replication. -/
structure Execution (ν ε : Type) extends History ν ε where
  log_zero : ∀ i, log 0 i = []
  leader_unique : ∀ {s t i j T}, toHistory.LeaderAt s i T → toHistory.LeaderAt t j T → i = j
  elected : ∀ {t i T}, toHistory.LeaderAt t i T → ∃ tc t₀ Q, toHistory.Election i T tc t₀ Q ∧
    t₀ ≤ t ∧ ∀ s, t₀ ≤ s → s ≤ t → toHistory.LeaderAt s i T
  log_step : ∀ t i, toHistory.LogStep t i

namespace Execution

variable (X : Execution ν ε)

/-! ## A leader only extends its log -/

/-- While a node leads one term its log only grows. -/
lemma log_prefix_of_leading {i : ν} {T a b : ℕ} (hab : a ≤ b)
    (h : ∀ s, a ≤ s → s ≤ b → X.LeaderAt s i T) : X.log a i <+: X.log b i := by
  induction b, hab using Nat.le_induction with
  | base => exact List.prefix_refl _
  | succ b hab ih =>
      have hpre := ih (fun s hs hsb => h s hs (by omega))
      obtain ⟨hlead, hcur⟩ := h (b + 1) (by omega) le_rfl
      refine hpre.trans ?_
      cases X.log_step b i with
      | same heq => rw [heq]
      | appended e _ _ _ _ heq => rw [heq]; exact List.prefix_append _ _
      | grafted j t' k _ hj hl _ hterm _ _ =>
          -- the grafted log belongs to a leader of the same term, hence to `i` itself
          have : X.LeaderAt t' j T := ⟨hl, by rw [← hterm hlead, hcur]⟩
          exact (hj (X.leader_unique this ⟨hlead, hcur⟩)).elim

/-- Between two moments at which a node leads a term it leads that term throughout. -/
lemma leaderAt_between {i : ν} {T t₁ t₂ s : ℕ} (h₁ : X.LeaderAt t₁ i T)
    (h₂ : X.LeaderAt t₂ i T) (hs₁ : t₁ ≤ s) (hs₂ : s ≤ t₂) : X.LeaderAt s i T := by
  obtain ⟨tc, t₀, Q, hel, -, hlead⟩ := X.elected h₂
  obtain ⟨tc₁, t₀₁, Q₁, hel₁, ht₁, -⟩ := X.elected h₁
  rcases le_or_gt t₀ t₁ with hle | hgt
  · exact hlead s (by omega) hs₂
  · -- a second election to the same term would start from a lower current term
    exfalso
    rcases le_or_gt t₁ tc with hle' | hgt'
    · have := hel₁.stays tc (by have := hel₁.lt; omega)
      have := hel.fresh
      omega
    · exact hel.candidate t₁ hgt' hgt h₁.1

/-- The logs of the leader of one term form a chain in time. -/
lemma leader_log_grows {i j : ν} {T t₁ t₂ : ℕ} (h₁ : X.LeaderAt t₁ i T)
    (h₂ : X.LeaderAt t₂ j T) (hle : t₁ ≤ t₂) : X.log t₁ i <+: X.log t₂ j := by
  obtain rfl := X.leader_unique h₁ h₂
  exact X.log_prefix_of_leading hle (fun s hs hs' => X.leaderAt_between h₁ h₂ hs hs')

/-- Any two logs of leaders of one term are comparable. -/
lemma leader_log_comparable {i j : ν} {T t₁ t₂ : ℕ} (h₁ : X.LeaderAt t₁ i T)
    (h₂ : X.LeaderAt t₂ j T) : X.log t₁ i <+: X.log t₂ j ∨ X.log t₂ j <+: X.log t₁ i := by
  rcases le_total t₁ t₂ with hle | hle
  · exact Or.inl (X.leader_log_grows h₁ h₂ hle)
  · exact Or.inr (X.leader_log_grows h₂ h₁ hle)

/-- A leader's term is positive. -/
lemma leader_term_pos {t : ℕ} {i : ν} {T : ℕ} (h : X.LeaderAt t i T) : 0 < T := by
  obtain ⟨tc, t₀, Q, hel, -⟩ := X.elected h
  exact lt_of_le_of_lt (Nat.zero_le _) hel.fresh

/-! ## Log Matching -/

/-- Every prefix of the log of `i` at `t` is a prefix of a log some leader held by then, in
the term of the prefix's last entry. -/
def Sourced (t : ℕ) (i : ν) : Prop :=
  ∀ p a, (X.log t i)[p]? = some a →
    ∃ t' j, t' ≤ t ∧ X.LeaderAt t' j (X.termOf a) ∧ (X.log t i).take (p + 1) <+: X.log t' j

/-- Two lists whose prefixes of length `p + 1` lie in comparable lists share that prefix. -/
lemma take_eq_of_prefix_comparable {l₁ l₂ m₁ m₂ : List ε} {p : ℕ} (hp₁ : p < l₁.length)
    (hp₂ : p < l₂.length) (h₁ : l₁.take (p + 1) <+: m₁) (h₂ : l₂.take (p + 1) <+: m₂)
    (hm : m₁ <+: m₂ ∨ m₂ <+: m₁) : l₁.take (p + 1) = l₂.take (p + 1) := by
  have hlen : (l₁.take (p + 1)).length = (l₂.take (p + 1)).length := by
    simp only [List.length_take]
    omega
  rcases hm with hm | hm
  · exact (List.prefix_of_prefix_length_le (h₁.trans hm) h₂ hlen.le).eq_of_length hlen
  · exact (List.prefix_of_prefix_length_le h₁ (h₂.trans hm) hlen.le).eq_of_length hlen

/-- Log Matching for two logs that are sourced. -/
lemma take_eq_of_sourced {s t : ℕ} {i j : ν} (hi : X.Sourced s i) (hj : X.Sourced t j)
    {p : ℕ} (h : X.TermAgree (X.log s i) (X.log t j) p) :
    (X.log s i).take (p + 1) = (X.log t j).take (p + 1) := by
  obtain ⟨a, b, ha, hb, hab⟩ := h
  obtain ⟨s', i', -, hlead, hpre⟩ := hi p a ha
  obtain ⟨t', j', -, hlead', hpre'⟩ := hj p b hb
  rw [← hab] at hlead'
  exact take_eq_of_prefix_comparable (List.getElem?_eq_some_iff.mp ha).1
    (List.getElem?_eq_some_iff.mp hb).1 hpre hpre' (X.leader_log_comparable hlead hlead')

/-- Below the position where it is grafted, the leader's log is already there. -/
lemma Graft.take_eq {s t : ℕ} {i j : ν} (hi : X.Sourced s i) (hj : X.Sourced t j) {k : ℕ}
    (hg : X.Graft (X.log s i) (X.log t j) k) :
    (X.log s i).take k = (X.log t j).take k := by
  rcases hg.below with rfl | hagree
  · simp
  · have hk : k - 1 + 1 = k ∨ k = 0 := by omega
    rcases hk with hk | rfl
    · have := X.take_eq_of_sourced hi hj hagree
      rwa [hk] at this
    · simp

/-- Grafting a leader's log yields that log, or leaves a prefix of what was there. -/
lemma grafted_log {s t : ℕ} {i j : ν} (hi : X.Sourced s i) (hj : X.Sourced t j) {k : ℕ}
    (hg : X.Graft (X.log s i) (X.log t j) k) :
    (X.log s i).take k ++ (X.log t j).drop k = X.log t j := by
  rw [Graft.take_eq X hi hj hg, List.take_append_drop]

/-- Every log of an execution is sourced. -/
theorem sourced (t : ℕ) (i : ν) : X.Sourced t i := by
  induction t using Nat.strong_induction_on generalizing i with
  | _ t ih =>
      cases t with
      | zero =>
          intro p a ha
          rw [X.log_zero] at ha
          simp at ha
      | succ t =>
          have hold := ih t (by omega)
          cases X.log_step t i with
          | same heq =>
              intro p a ha
              rw [heq] at ha ⊢
              obtain ⟨t', j, ht', hl, hpre⟩ := hold i p a ha
              exact ⟨t', j, by omega, hl, hpre⟩
          | appended e hlead hlead' hcur he heq =>
              intro p a ha
              rcases lt_or_ge p (X.log t i).length with hlt | hge
              · rw [heq, List.getElem?_append_left hlt] at ha
                obtain ⟨t', j, ht', hl, hpre⟩ := hold i p a ha
                refine ⟨t', j, by omega, hl, ?_⟩
                rwa [heq, List.take_append_of_le_length (by omega)]
              · -- the appended entry: the leader's own log is the source
                refine ⟨t + 1, i, le_rfl, ⟨hlead', ?_⟩, List.take_prefix _ _⟩
                rw [heq, List.getElem?_append_right hge] at ha
                have : a = e := by
                  rcases Nat.eq_zero_or_pos (p - (X.log t i).length) with h0 | h0
                  · rw [h0] at ha
                    simpa using ha.symm
                  · rw [List.getElem?_eq_none (by simp; omega)] at ha
                    cases ha
                rw [this, he, hcur]
          | grafted j t' k ht' hj hl hcur hterm hg heq =>
              have hsrc := ih t' (by omega) j
              intro p a ha
              rcases heq with heq | heq
              · rw [X.grafted_log (hold i) hsrc hg] at heq
                rw [heq] at ha ⊢
                obtain ⟨s, m, hs, hm, hpre⟩ := hsrc p a ha
                exact ⟨s, m, by omega, hm, hpre⟩
              · rw [heq] at ha ⊢
                rw [List.getElem?_take] at ha
                split at ha
                · obtain ⟨s, m, hs, hm, hpre⟩ := hold i p a ha
                  refine ⟨s, m, by omega, hm, ?_⟩
                  rwa [List.take_take, Nat.min_eq_left (by omega)]
                · cases ha

/-- **Log Matching**, across all moments: two logs that agree in the term at a position are
identical up to and including it. -/
theorem log_matching {s t : ℕ} {i j : ν} {p : ℕ}
    (h : X.TermAgree (X.log s i) (X.log t j) p) :
    (X.log s i).take (p + 1) = (X.log t j).take (p + 1) :=
  X.take_eq_of_sourced (X.sourced s i) (X.sourced t j) h

/-- The same, for an entry both logs hold. -/
lemma log_matching_of_eq {s t : ℕ} {i j : ν} {p : ℕ} {e : ε} (h : (X.log s i)[p]? = some e)
    (h' : (X.log t j)[p]? = some e) :
    (X.log s i).take (p + 1) = (X.log t j).take (p + 1) :=
  X.log_matching ⟨e, e, h, h', rfl⟩

/-- An entry is in the log of its term's leader for as long as it is in any log: the leader
had it first. -/
lemma lt_length_of_leader {s t : ℕ} {i j : ν} {p : ℕ} {a : ε} (ha : (X.log s i)[p]? = some a)
    (hl : X.LeaderAt t j (X.termOf a)) (hst : s ≤ t) : p < (X.log t j).length := by
  obtain ⟨s', i', hs', hl', hpre⟩ := X.sourced s i p a ha
  have hp := (List.getElem?_eq_some_iff.mp ha).1
  have hlen := (hpre.trans (X.leader_log_grows hl' hl (hs'.trans hst))).length_le
  rw [List.length_take] at hlen
  omega

/-! ## Terms along a log -/

/-- The log a candidate wins with holds no entry of a later term. -/
lemma election_term_le {i : ν} {T tc t₀ : ℕ} {Q : Finset ν} (hel : X.Election i T tc t₀ Q)
    {p : ℕ} {a : ε} (h : (X.log t₀ i)[p]? = some a) : X.termOf a ≤ T := by
  by_contra hcon
  rw [← hel.log_eq] at h
  -- a leader of the later term existed before the candidacy, and a common voter had voted
  -- for it, so that voter was beyond `T` when it voted for `i`
  obtain ⟨t', j, ht', hlead, -⟩ := X.sourced tc i p a h
  obtain ⟨tc', t₀', Q', hel', ht₀', -⟩ := X.elected hlead
  obtain ⟨v, hv, hv'⟩ := exists_mem_of_majorities hel.majority hel'.majority
  obtain ⟨tv, htc, -, hcur, -, -⟩ := hel.votes v hv
  obtain ⟨tv', -, htv', -, hstay', -⟩ := hel'.votes v hv'
  have := hstay' (tv + 1) (by omega)
  omega

/-- A leader's log holds no entry of a term above its own. -/
theorem leader_termOf_le {t : ℕ} {i : ν} {T : ℕ} (hl : X.LeaderAt t i T) {p : ℕ} {a : ε}
    (h : (X.log t i)[p]? = some a) : X.termOf a ≤ T := by
  obtain ⟨tc, t₀, Q, hel, ht₀, hlead⟩ := X.elected hl
  induction t, ht₀ using Nat.le_induction generalizing p a with
  | base => exact X.election_term_le hel h
  | succ t ht ih =>
      have hprev := hlead t ht (by omega)
      have hold : ∀ {q b}, (X.log t i)[q]? = some b → X.termOf b ≤ T :=
        fun hb => ih hprev hb (fun s hs hst => hlead s hs (by omega))
      cases X.log_step t i with
      | same heq =>
          rw [heq] at h
          exact hold h
      | appended e _ _ _ he heq =>
          rw [heq] at h
          rcases List.mem_append.mp (List.mem_of_getElem? h) with hmem | hmem
          · obtain ⟨q, hq⟩ := List.mem_iff_getElem?.mp hmem
            exact hold hq
          · rw [List.mem_singleton.mp hmem, he, hprev.2]
      | grafted j t' k _ hj hlj _ hterm _ _ =>
          have : X.LeaderAt t' j T := ⟨hlj, by rw [← hterm hl.1, hl.2]⟩
          exact (hj (X.leader_unique this hl)).elim

/-- Terms do not decrease along a log. -/
theorem termOf_mono {t : ℕ} {i : ν} {p q : ℕ} {a b : ε} (hpq : p ≤ q)
    (ha : (X.log t i)[p]? = some a) (hb : (X.log t i)[q]? = some b) :
    X.termOf a ≤ X.termOf b := by
  -- the prefix up to `q` lies in the log of a leader of `b`'s term
  obtain ⟨t', j, -, hl, hpre⟩ := X.sourced t i q b hb
  have hlt := (List.getElem?_eq_some_iff.mp ha).1
  have : (X.log t' j)[p]? = some a := by
    rw [List.prefix_iff_getElem?] at hpre
    have hp : p < ((X.log t i).take (q + 1)).length := by
      simp only [List.length_take]
      omega
    have hget := hpre p hp
    rw [hget, ← List.getElem?_eq_getElem hp, List.getElem?_take, if_pos (by omega), ha]
  exact X.leader_termOf_le hl this

lemma termOf_le_lastTerm {t : ℕ} {i : ν} {p : ℕ} {a : ε} (ha : (X.log t i)[p]? = some a) :
    X.termOf a ≤ X.lastTerm (X.log t i) := by
  have hlt := (List.getElem?_eq_some_iff.mp ha).1
  obtain ⟨b, hlast⟩ : ∃ b, (X.log t i)[(X.log t i).length - 1]? = some b :=
    ⟨_, List.getElem?_eq_getElem (by omega)⟩
  rw [History.lastTerm, List.getLast?_eq_getElem?, hlast]
  exact X.termOf_mono (by omega) ha hlast

/-! ## Leader Completeness -/

section Completeness

variable {T p : ℕ} {e : ε} {l : List ε}

/-- A log that holds the replicated entry agrees with the log of any later leader that holds
it, and with every log of the leader that created it, as far as that log goes. -/
lemma agree_of_replicated (hrep : X.ReplicatedIn T p e l) {s t' : ℕ} {v j : ν}
    (hv : (X.log s v)[p]? = some e) (hlead : X.leads t' j) (hT : T ≤ X.cur t' j)
    (hlater : T < X.cur t' j → (X.log t' j)[p]? = some e) (q : ℕ) (hqp : q ≤ p)
    (hq : q < (X.log t' j).length) : (X.log s v)[q]? = (X.log t' j)[q]? := by
  have key : ∀ {m : List ε}, (X.log s v).take (p + 1) = m.take (p + 1) →
      (X.log s v)[q]? = m[q]? := by
    intro m hm
    have := congrArg (fun x => x[q]?) hm
    simpa only [List.getElem?_take, if_pos (show q < p + 1 by omega)] using this
  rcases Nat.lt_or_ge T (X.cur t' j) with hgt | hle
  · exact key (X.log_matching_of_eq hv (hlater hgt))
  · -- the same term: compare with the leader's log in which the entry was recorded
    obtain ⟨tL, L, hL, rfl⟩ := hrep.leader
    have hvL := key (X.log_matching_of_eq hv hrep.entry)
    have hlen := (List.getElem?_eq_some_iff.mp hrep.entry).1
    rw [hvL]
    rcases X.leader_log_comparable hL ⟨hlead, le_antisymm hle hT⟩ with hpre | hpre
    · rw [List.prefix_iff_getElem?.mp hpre q (by omega), List.getElem?_eq_getElem]
    · rw [List.prefix_iff_getElem?.mp hpre q hq, List.getElem?_eq_getElem]

/-- A node that never falls back below `T` keeps a replicated entry, as long as the leaders
of later terms had it. -/
lemma replicated_kept (hrep : X.ReplicatedIn T p e l) {v : ν} {ta b : ℕ}
    (hstay : ∀ s, ta ≤ s → T ≤ X.cur s v) (hv : (X.log ta v)[p]? = some e)
    (hlater : ∀ t' j T', t' < b → X.LeaderAt t' j T' → T < T' → (X.log t' j)[p]? = some e)
    {s : ℕ} (hs : ta ≤ s) (hsb : s ≤ b) : (X.log s v)[p]? = some e := by
  induction s, hs using Nat.le_induction with
  | base => exact hv
  | succ s hs ih =>
      have hold := ih (by omega)
      have hlen := (List.getElem?_eq_some_iff.mp hold).1
      cases X.log_step s v with
      | same heq => rwa [heq]
      | appended a _ _ _ _ heq => rwa [heq, List.getElem?_append_left hlen]
      | grafted j t' k ht' _ hl hcur _ hg heq =>
          have hT : T ≤ X.cur t' j := (hstay s hs).trans hcur
          have hagree := X.agree_of_replicated hrep hold hl hT
            (fun hlt => hlater t' j _ (by omega) ⟨hl, rfl⟩ hlt)
          -- the entry lies below the conflict
          have hpk : p < k := by
            by_contra hcon
            rcases hg.conflict with hk | hk
            · omega
            · apply hk
              have hk' := hagree k (by omega) hg.lt
              rw [List.getElem?_eq_getElem hg.lt] at hk'
              exact ⟨_, _, hk', List.getElem?_eq_getElem hg.lt, rfl⟩
          have htake : ((X.log s v).take k)[p]? = some e := by
            rw [List.getElem?_take, if_pos hpk, hold]
          rcases heq with heq | heq
          · rw [heq, List.getElem?_append_left, htake]
            exact (List.getElem?_eq_some_iff.mp htake).1
          · rw [heq, htake]

/-- A log at least as up to date as one that holds the replicated entry holds it too, as
long as the leaders of later terms had it. -/
lemma replicated_of_upToDate (hrep : X.ReplicatedIn T p e l) {v i : ν} {s tc b : ℕ}
    (hv : (X.log s v)[p]? = some e) (hup : X.UpToDate (X.log tc i) (X.log s v))
    (hlater : ∀ t' j T', t' < b → X.LeaderAt t' j T' → T < T' → (X.log t' j)[p]? = some e)
    (htc : tc < b) : (X.log tc i)[p]? = some e := by
  obtain ⟨tL, L, hL, rfl⟩ := hrep.leader
  have hTv : T ≤ X.lastTerm (X.log s v) := hrep.term ▸ X.termOf_le_lastTerm hv
  have hpos := X.leader_term_pos hL
  have hplen := (List.getElem?_eq_some_iff.mp hv).1
  -- the candidate's log is not empty; let `a` be its last entry
  have hne : X.log tc i ≠ [] := by
    intro hnil
    have h0 : X.lastTerm (X.log tc i) = 0 := by simp [hnil, History.lastTerm]
    rcases hup with hlt | ⟨heq, -⟩ <;> omega
  have hlen : 0 < (X.log tc i).length := List.length_pos_iff.mpr hne
  obtain ⟨a, ha⟩ : ∃ a, (X.log tc i)[(X.log tc i).length - 1]? = some a :=
    ⟨_, List.getElem?_eq_getElem (by omega)⟩
  have hlast : X.lastTerm (X.log tc i) = X.termOf a := by
    rw [History.lastTerm, List.getLast?_eq_getElem?, ha]
    rfl
  obtain ⟨t', j, ht', hlead, hpre⟩ := X.sourced tc i _ a ha
  rw [Nat.sub_add_cancel (by omega), List.take_length] at hpre
  -- it suffices that the log is long enough and its source holds the entry
  have hfin : p < (X.log tc i).length → (X.log t' j)[p]? = some e →
      (X.log tc i)[p]? = some e := by
    intro hplt he
    rw [← he, List.prefix_iff_getElem?.mp hpre p hplt, List.getElem?_eq_getElem]
  rcases Nat.lt_or_ge T (X.termOf a) with hgt | hle
  · -- a later leader created the last entry: it already held `e`, below that entry
    have he := hlater t' j _ (by omega) hlead hgt
    apply hfin _ he
    by_contra hcon
    have hsrc : (X.log t' j)[(X.log tc i).length - 1]? = some a := by
      rw [List.prefix_iff_getElem?.mp hpre _ (by omega), ← List.getElem?_eq_getElem, ha]
    have := X.termOf_mono (by omega) hsrc he
    have := hrep.term
    omega
  · -- the same term: the candidate's log is at least as long as the voter's
    have hTa : X.termOf a = T := by
      rcases hup with hlt | ⟨heq, -⟩ <;> omega
    have hplt : p < (X.log tc i).length := by
      rcases hup with hlt | ⟨-, hle'⟩ <;> omega
    apply hfin hplt
    rw [hTa] at hlead
    rcases X.leader_log_comparable hlead hL with hcmp | hcmp
    · have hp' : p < (X.log t' j).length := lt_of_lt_of_le hplt hpre.length_le
      rw [← hrep.entry, List.prefix_iff_getElem?.mp hcmp p hp', List.getElem?_eq_getElem]
    · have hpL := (List.getElem?_eq_some_iff.mp hrep.entry).1
      rw [List.prefix_iff_getElem?.mp hcmp p hpL, ← List.getElem?_eq_getElem, hrep.entry]

/-- **Leader Completeness.**  An entry replicated in term `T` is in the log of every leader
of every later term, whenever that leader led. -/
theorem leader_completeness (hrep : X.ReplicatedIn T p e l) {t : ℕ} {i : ν} {T' : ℕ}
    (hl : X.LeaderAt t i T') (hT : T < T') : (X.log t i)[p]? = some e := by
  -- induction on the moment: every leader of a later term up to now had the entry
  induction t using Nat.strong_induction_on generalizing i T' with
  | _ t ih =>
      obtain ⟨tc, t₀, Q, hel, ht₀, hlead⟩ := X.elected hl
      rcases Nat.lt_or_ge t₀ t with hlt | hge
      · -- elected earlier: a leader only extends its log
        have h₀ := ih t₀ hlt (hlead t₀ le_rfl ht₀) hT
        have hpre := X.log_prefix_of_leading ht₀ hlead
        have hlen := (List.getElem?_eq_some_iff.mp h₀).1
        rw [List.prefix_iff_getElem?.mp hpre p hlen, ← List.getElem?_eq_getElem, h₀]
      · obtain rfl : t₀ = t := le_antisymm ht₀ hge
        obtain ⟨A, hA, hold⟩ := hrep.holders
        obtain ⟨v, hvQ, hvA⟩ := exists_mem_of_majorities hel.majority hA
        obtain ⟨tv, htc, htv, hcur, hstay, hup⟩ := hel.votes v hvQ
        obtain ⟨ta, hta, hstayA, hve⟩ := hold v hvA
        -- the common node held the entry before it voted
        have hord : ta ≤ tv := by
          by_contra hcon
          have := hstay ta (by omega)
          omega
        have hlater : ∀ t' j T'', t' < t₀ → X.LeaderAt t' j T'' → T < T'' →
            (X.log t' j)[p]? = some e := fun t' j T'' ht' hj hT'' => ih t' ht' hj hT''
        have hkept := X.replicated_kept hrep hstayA hve hlater hord (by omega)
        rw [← hel.log_eq] at hup ⊢
        exact X.replicated_of_upToDate hrep hkept hup hlater hel.lt

end Completeness

/-! ## Committed prefixes -/

/-- A prefix committed by term `T` is in the log of every leader of a later term. -/
theorem committed_prefix_leader {T : ℕ} {c : List ε} (hc : X.Committed T c) {t : ℕ} {i : ν}
    {T' : ℕ} (hl : X.LeaderAt t i T') (hT : T < T') : c <+: X.log t i := by
  rcases hc with rfl | ⟨T₁, p, e, l, hT₁, hrep, hlen, hpre⟩
  · exact List.nil_prefix
  · obtain ⟨tL, L, hL, rfl⟩ := hrep.leader
    -- the leader holds the replicated entry, hence everything below it
    have he := X.leader_completeness hrep hl (by omega)
    have htake := X.log_matching_of_eq he hrep.entry
    have hcp : c <+: (X.log tL L).take (p + 1) := List.prefix_take_iff.mpr ⟨hpre, hlen⟩
    rw [← htake] at hcp
    exact hcp.trans (List.take_prefix _ _)

/-- A prefix committed by term `T` is comparable with the log of any leader of a term that
is not below `T`. -/
theorem committed_comparable_leader {T : ℕ} {c : List ε} (hc : X.Committed T c) {t : ℕ} {i : ν}
    {T' : ℕ} (hl : X.LeaderAt t i T') (hT : T ≤ T') :
    c <+: X.log t i ∨ X.log t i <+: c := by
  rcases hc with rfl | ⟨T₁, p, e, l, hT₁, hrep, hlen, hpre⟩
  · exact Or.inl List.nil_prefix
  · obtain ⟨tL, L, hL, rfl⟩ := hrep.leader
    rcases Nat.lt_or_ge T₁ T' with hlt | hge
    · exact .inl (X.committed_prefix_leader (.inr ⟨T₁, p, e, _, le_rfl, hrep, hlen, hpre⟩) hl hlt)
    · obtain rfl : T₁ = T' := le_antisymm (hT₁.trans hT) hge
      rcases X.leader_log_comparable hL hl with hcmp | hcmp
      · exact Or.inl (hpre.trans hcmp)
      · exact List.prefix_or_prefix_of_prefix hpre hcmp

/-- Any two committed prefixes are comparable. -/
theorem committed_comparable {T T' : ℕ} {c c' : List ε} (hc : X.Committed T c)
    (hc' : X.Committed T' c') : c <+: c' ∨ c' <+: c := by
  -- the prefix committed in the lower term is comparable with the other one's leader log
  have key : ∀ {T₁ p e l T₂ q f m} {c c' : List ε}, X.ReplicatedIn T₁ p e l →
      c.length ≤ p + 1 → c <+: l → X.ReplicatedIn T₂ q f m → c'.length ≤ q + 1 → c' <+: m →
      T₁ ≤ T₂ → c <+: c' ∨ c' <+: c := by
    intro T₁ p e l T₂ q f m c c' hrep hlen hpre hrep' hlen' hpre' hle
    obtain ⟨t, L, hL, rfl⟩ := hrep'.leader
    have hcm : X.Committed T₁ c := Or.inr ⟨T₁, p, e, l, le_rfl, hrep, hlen, hpre⟩
    rcases X.committed_comparable_leader hcm hL hle with hcmp | hcmp
    · exact List.prefix_or_prefix_of_prefix hcmp hpre'
    · exact Or.inr (hpre'.trans hcmp)
  rcases hc with rfl | ⟨T₁, p, e, l, -, hrep, hlen, hpre⟩
  · exact Or.inl List.nil_prefix
  · rcases hc' with rfl | ⟨T₂, q, f, m, -, hrep', hlen', hpre'⟩
    · exact Or.inr List.nil_prefix
    · rcases le_total T₁ T₂ with hle | hle
      · exact key hrep hlen hpre hrep' hlen' hpre' hle
      · exact (key hrep' hlen' hpre' hrep hlen hpre hle).symm

/-- A prefix that is comparable with the log grafted from survives the graft. -/
lemma length_le_graft {c : List ε} {t t' k : ℕ} {i j : ν} (hpre : c <+: X.log t i)
    (hcmp : c <+: X.log t' j ∨ X.log t' j <+: c)
    (hg : X.Graft (X.log t i) (X.log t' j) k) : c.length ≤ k := by
  by_contra hcon
  have hkc : k < c.length := by omega
  rcases hg.conflict with hk | hk
  · have := hpre.length_le
    omega
  · apply hk
    have hi : (X.log t i)[k]? = (c : List ε)[k]? := by
      rw [List.prefix_iff_getElem?.mp hpre k hkc, List.getElem?_eq_getElem]
    have hj : (X.log t' j)[k]? = (c : List ε)[k]? := by
      rcases hcmp with hcmp | hcmp
      · rw [List.prefix_iff_getElem?.mp hcmp k hkc, List.getElem?_eq_getElem]
      · rw [List.prefix_iff_getElem?.mp hcmp k hg.lt, List.getElem?_eq_getElem]
    rw [List.getElem?_eq_getElem hkc] at hi hj
    exact ⟨_, _, hi, hj, rfl⟩

/-- What a log shares with the leader of a term survives a graft from that leader. -/
lemma shared_length_le_graft {T : ℕ} {c : List ε} {t t' u k : ℕ} {i j L : ν}
    (hL : X.LeaderAt u L T) (hcL : c <+: X.log u L) (hpre : c <+: X.log t i)
    (hl : X.LeaderAt t' j T) (hg : X.Graft (X.log t i) (X.log t' j) k) : c.length ≤ k := by
  refine X.length_le_graft hpre ?_ hg
  rcases X.leader_log_comparable hL hl with hle | hle
  · exact .inl (hcL.trans hle)
  · exact List.prefix_or_prefix_of_prefix hcL hle

/-- A receiver whose log starts with a committed prefix grafts only above it. -/
theorem committed_length_le_graft {T : ℕ} {c : List ε} (hc : X.Committed T c) {t t' k : ℕ}
    {i j : ν} (hpre : c <+: X.log t i) (hl : X.leads t' j) (hT : T ≤ X.cur t' j)
    (hg : X.Graft (X.log t i) (X.log t' j) k) : c.length ≤ k :=
  X.length_le_graft hpre (X.committed_comparable_leader hc ⟨hl, rfl⟩ hT) hg

/-- A committed prefix is never lost by a node whose term has reached it. -/
theorem committed_kept {T : ℕ} {c : List ε} (hc : X.Committed T c) {t : ℕ} {i : ν}
    (hpre : c <+: X.log t i) (hT : T ≤ X.cur t i) : c <+: X.log (t + 1) i := by
  cases X.log_step t i with
  | same heq => rwa [heq]
  | appended e _ _ _ _ heq => rw [heq]; exact hpre.trans (List.prefix_append _ _)
  | grafted j t' k _ _ hl hcur _ hg heq =>
      have hk := X.committed_length_le_graft hc hpre hl (hT.trans hcur) hg
      have htake : c <+: (X.log t i).take k := List.prefix_take_iff.mpr ⟨hpre, hk⟩
      rcases heq with heq | heq
      · rw [heq]
        exact htake.trans (List.prefix_append _ _)
      · rwa [heq]

end Execution

end ToyRaft
