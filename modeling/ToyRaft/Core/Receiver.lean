import ToyRaft.Core.Effects

/-!
# What the `AppendEntries` receiver writes

On a contiguous log and a batch that continues from `base`, the loop of
`firstConflictIndex` finds the first position at which the log ends or disagrees with the
batch in term (`firstConflictIndex_spec`).  What is then written is the log below that
position followed by the rest of the batch (`writtenLog_eq`), and the mirror of the write
cannot fail of itself (`mirror_ok`).
-/

namespace ToyRaft

namespace Node

/-- The node accepts `m`, and an entry of it is missing or conflicts. -/
def Writes (n : Node) (m : Message) : Prop :=
  m.type = .appendEntries ∧ n.currentTerm ≤ m.term ∧
    n.log.hasEntry m.prevLogIndex m.prevLogTerm = true ∧ n.firstConflictIndex m.entries ≠ 0

instance (n : Node) (m : Message) : Decidable (n.Writes m) :=
  inferInstanceAs (Decidable (_ ∧ _ ∧ _ ∧ _))

/-- Position `q` of the log holds an entry with the term of the batch's entry there. -/
def AgreesAt (l : Log) (base : ℕ) (es : List Entry) (q : ℕ) : Prop :=
  ∃ a b, l[q]? = some a ∧ es[q - base]? = some b ∧ a.term = b.term

/-- Position `k` is where the receiver starts writing. -/
structure WritesFrom (l : Log) (base : ℕ) (es : List Entry) (k : ℕ) : Prop where
  base_le : base ≤ k
  le_length : k ≤ l.length
  lt_end : k < base + es.length
  below : ∀ q, base ≤ q → q < k → AgreesAt l base es q
  conflict : k = l.length ∨ ¬ AgreesAt l base es k

lemma agreesAt_cons {l : Log} {base : ℕ} {e : Entry} {es : List Entry} {q : ℕ}
    (hq : base + 1 ≤ q) : AgreesAt l base (e :: es) q ↔ AgreesAt l (base + 1) es q := by
  unfold AgreesAt
  rw [show q - base = q - (base + 1) + 1 by omega, List.getElem?_cons_succ]

/-- The loop of `firstConflictIndex`: everything agrees, or it stops at the first position
where it does not. -/
theorem firstConflictIndex_spec {n : Node} (hn : n.log.Contiguous) {base : ℕ}
    {es : List Entry} (hes : Log.ContiguousFrom base es) (hbase : base ≤ n.log.length) :
    (n.firstConflictIndex es = 0 ∧ base + es.length ≤ n.log.length ∧
      ∀ q, base ≤ q → q < base + es.length → AgreesAt n.log base es q) ∨
    ∃ k, n.firstConflictIndex es = k + 1 ∧ WritesFrom n.log base es k ∧
      entriesFrom (k + 1) es = es.drop (k - base) := by
  induction es generalizing base with
  | nil => exact .inl ⟨rfl, by simpa using hbase, fun q hq hlt => by simp at hlt; omega⟩
  | cons e es ih =>
      obtain ⟨hidx, hrest⟩ := Log.contiguousFrom_cons.mp hes
      have hstop : n.firstConflictIndex (e :: es) = base + 1 →
          (base = n.log.length ∨ ¬ AgreesAt n.log base (e :: es) base) →
          ∃ k, n.firstConflictIndex (e :: es) = k + 1 ∧ WritesFrom n.log base (e :: es) k ∧
            entriesFrom (k + 1) (e :: es) = (e :: es).drop (k - base) := by
        intro hfc hconf
        refine ⟨base, hfc, ⟨le_rfl, hbase, by simp, fun q hq hlt => by omega, hconf⟩, ?_⟩
        rw [entriesFrom, if_pos (by omega), Nat.sub_self]
        rfl
      rw [firstConflictIndex, Log.lastIndex_eq_length hn, hidx] at hstop ⊢
      by_cases hend : n.log.length < base + 1
      · rw [if_pos hend] at hstop ⊢
        exact .inr (hstop rfl (.inl (by omega)))
      · obtain ⟨a, ha⟩ : ∃ a, n.log[base]? = some a :=
          ⟨_, List.getElem?_eq_getElem (by omega)⟩
        have hterm : (n.log.term (base + 1)).1 = a.term := by
          rw [Log.term_of_getElem? hn (Nat.succ_ne_zero base) ha]
        rw [if_neg hend, hterm] at hstop ⊢
        by_cases hne : a.term ≠ e.term
        · rw [if_pos hne] at hstop ⊢
          refine .inr (hstop rfl (.inr ?_))
          rintro ⟨a', b, ha', hb, hab⟩
          rw [ha] at ha'
          simp only [Nat.sub_self, List.getElem?_cons_zero] at hb
          cases ha'
          cases hb
          exact hne hab
        · rw [if_neg hne]
          have hagree : AgreesAt n.log base (e :: es) base :=
            ⟨a, e, ha, by simp, not_not.mp hne⟩
          have hstep : ∀ q, base ≤ q → AgreesAt n.log (base + 1) es q ∨ q = base →
              AgreesAt n.log base (e :: es) q := by
            rintro q hq (h | rfl)
            · rcases Nat.lt_or_ge base q with hlt | hge
              · exact (agreesAt_cons hlt).mpr h
              · rwa [show q = base by omega]
            · exact hagree
          rcases ih hrest (by omega) with ⟨hfc, hlen, hall⟩ | ⟨k, hfc, hw, hsuf⟩
          · refine .inl ⟨hfc, by simp only [List.length_cons]; omega, fun q hq hlt => ?_⟩
            simp only [List.length_cons] at hlt
            refine hstep q hq ?_
            rcases Nat.lt_or_ge base q with hbq | hqb
            · exact .inl (hall q hbq (by omega))
            · exact .inr (by omega)
          · have hk := hw.base_le
            refine .inr ⟨k, hfc, ⟨by omega, hw.le_length, ?_, fun q hq hlt => ?_, ?_⟩, ?_⟩
            · have := hw.lt_end
              simp only [List.length_cons]
              omega
            · refine hstep q hq ?_
              rcases Nat.lt_or_ge base q with hbq | hqb
              · exact .inl (hw.below q hbq hlt)
              · exact .inr (by omega)
            · exact hw.conflict.imp_right fun h h' => h ((agreesAt_cons hk).mp h')
            · rw [entriesFrom, if_neg (by omega), hsuf,
                show k - base = k - (base + 1) + 1 by omega, List.drop_succ_cons]

/-- What the receiver has written: the log below `k`, then the rest of the batch. -/
lemma writtenLog_eq {n : Node} {m : Message} {base k : ℕ} (hn : n.log.Contiguous)
    (hfc : n.firstConflictIndex m.entries = k + 1)
    (hsuf : entriesFrom (k + 1) m.entries = m.entries.drop (k - base)) :
    n.writtenLog m = n.log.take k ++ m.entries.drop (k - base) := by
  rw [writtenLog, hfc, hsuf, Log.truncateSuffix_eq_take hn (Nat.succ_ne_zero k)]
  rfl

/-- On a mirrored log the storage follows the write without an error of its own. -/
lemma mirror_ok {n : Node} {es : List Entry} {base k : ℕ} (hes : Log.ContiguousFrom base es)
    (hst : n.storage.entries = n.log) (hw : WritesFrom n.log base es k) :
    n.storage.truncateSuffix (k + 1) =
        .ok { n.storage with entries := n.log.take k } ∧
      Storage.append { n.storage with entries := n.log.take k } (es.drop (k - base)) =
        .ok { n.storage with entries := n.log.take k ++ es.drop (k - base) } := by
  constructor
  · rw [Storage.truncateSuffix_ok (Nat.succ_ne_zero k), hst]
    rfl
  · refine Storage.append_ok ?_
    have hdrop := hes.drop (k - base)
    have hb := hw.base_le
    have hl := hw.le_length
    rwa [show base + (k - base) = (n.log.take k).length by
      rw [List.length_take]; omega] at hdrop

/-- The log written is contiguous, and reaches exactly to the end of the batch. -/
lemma written_contiguous {l : Log} {es : List Entry} {base k : ℕ} (hl : l.Contiguous)
    (hes : Log.ContiguousFrom base es) (hw : WritesFrom l base es k) :
    Log.Contiguous (l.take k ++ es.drop (k - base)) ∧
      (l.take k ++ es.drop (k - base)).length = base + es.length := by
  have hb := hw.base_le
  have hlen := hw.le_length
  have hlt := hw.lt_end
  constructor
  · refine Log.ContiguousFrom.append (hl.take k) ?_
    have hdrop := hes.drop (k - base)
    rwa [show base + (k - base) = 0 + (l.take k).length by
      rw [List.length_take]; omega] at hdrop
  · rw [List.length_append, List.length_take, List.length_drop]
    omega

/-- Without faults the mirror of a write reports no error. -/
lemma mirrorLogWriteLocked_none {env : Env} {n : Node} {es : List Entry} {base k : ℕ}
    (hfault : env.truncateErr = false ∧ env.appendErr = false)
    (hes : Log.ContiguousFrom base es) (hst : n.storage.entries = n.log)
    (hw : WritesFrom n.log base es k) :
    (n.mirrorLogWriteLocked env (k + 1) (es.drop (k - base))).2 = none := by
  obtain ⟨htrunc, happ⟩ := mirror_ok hes hst hw
  simp only [mirrorLogWriteLocked, hfault.1, hfault.2, faulty, Bool.false_eq_true, if_false,
    htrunc, happ]

end Node

end ToyRaft
