import ToyRaft.FileStore.Segment

/-!
# The torn tail of a segment

`scanSegment` finds exactly the records that lie in front of an incomplete one, with their places
and the end of the last of them.  What it finds depends only on the bytes in front of that end
(`recordAt_take`): if the file is cut there, a second scan finds the same records and ends where
the file ends, whatever the bytes behind were.
-/

namespace ToyRaft

namespace FileStore

/-! ## What a scan finds in any bytes -/

/-- The record at `off` and where it ends, if there is a whole one. -/
def recordAt (b : Bytes) (off : ℕ) : Option (Entry × ℕ) :=
  if off + recHeaderLen ≤ b.length then
    let hdr := (b.drop off).take recHeaderLen
    let next := off + recHeaderLen + leNat (hdr.take 4)
    if b.length < next then none
    else
      match decodeRecord hdr ((b.drop (off + recHeaderLen)).take (leNat (hdr.take 4))) with
      | .error _ => none
      | .ok e => some (e, next)
  else none

/-- The records from `off` on, one after the other, and where they end. -/
def recordsFrom (b : Bytes) : ℕ → ℕ → List ScanRec → List ScanRec × ℕ
  | 0, off, recs => (recs, off)
  | fuel + 1, off, recs =>
      match recordAt b off with
      | none => (recs, off)
      | some (e, next) =>
          recordsFrom b fuel next
            (recs ++ [{ term := e.term, index := e.index, dataLen := e.data.length,
                        offset := off + recHeaderLen }])

/-- What is scanned in a segment that consists of the bytes `b`. -/
def scanned (b : Bytes) : List ScanRec × ℕ := recordsFrom b b.length segHeaderLen []

section

variable {ρ : Type} {b : Bytes} {w : Site ρ} {name : String} {off next k : ℕ} {e : Entry}

lemma recordAt_bounds (h : recordAt b off = some (e, next)) : off < next ∧ next ≤ b.length := by
  unfold recordAt at h
  dsimp only at h
  split_ifs at h with hhdr hend
  split at h
  · cases h
  · cases h
    rw [recHeaderLen] at hend ⊢
    omega

lemma recordAt_take (h : recordAt b off = some (e, next)) (hk : next ≤ k) :
    recordAt (b.take k) off = some (e, next) := by
  obtain ⟨-, hle⟩ := recordAt_bounds h
  unfold recordAt at h ⊢
  dsimp only at h ⊢
  split_ifs at h with hhdr hend
  have hnext : off + recHeaderLen + leNat (((b.drop off).take recHeaderLen).take 4) = next := by
    split at h
    · cases h
    · exact (Prod.ext_iff.mp (Option.some.inj h)).2
  have htake : ∀ m n, m + n ≤ k → ((b.take k).drop m).take n = (b.drop m).take n := by
    intro m n hmn
    rw [List.drop_take, List.take_take, min_eq_left (by omega)]
  have hlen : (b.take k).length = min k b.length := List.length_take
  rw [htake off recHeaderLen (by omega), htake (off + recHeaderLen) _ (by omega), if_pos (by omega),
    if_neg (by omega)]
  exact h

lemma recordAt_eq_none (h : b.length ≤ off) : recordAt b off = none := by
  unfold recordAt
  rw [if_neg (by rw [recHeaderLen]; omega)]

lemma recordsFrom_bounds {fuel : ℕ} {recs : List ScanRec} (hoff : off ≤ b.length) :
    off ≤ (recordsFrom b fuel off recs).2 ∧ (recordsFrom b fuel off recs).2 ≤ b.length := by
  induction fuel generalizing off recs with
  | zero => exact ⟨le_rfl, hoff⟩
  | succ fuel ih =>
      rw [recordsFrom]
      cases hrec : recordAt b off with
      | none => exact ⟨le_rfl, hoff⟩
      | some r =>
          obtain ⟨e, next⟩ := r
          obtain ⟨hlt, hle⟩ := recordAt_bounds hrec
          obtain ⟨hfrom, hto⟩ := ih hle
          exact ⟨hlt.le.trans hfrom, hto⟩

lemma recordsFrom_take {fuel fuel' : ℕ} {recs : List ScanRec} (hoff : off ≤ b.length)
    (hfuel : b.length ≤ off + fuel) (hfuel' : (recordsFrom b fuel off recs).2 ≤ off + fuel') :
    recordsFrom (b.take (recordsFrom b fuel off recs).2) fuel' off recs =
      recordsFrom b fuel off recs := by
  -- the scan stops where the bytes end
  have hstop : ∀ (off fuel' : ℕ) (recs : List ScanRec), off ≤ b.length →
      recordsFrom (b.take off) fuel' off recs = (recs, off) := by
    intro off fuel' recs hoff
    cases fuel' with
    | zero => rfl
    | succ fuel' =>
        rw [recordsFrom, recordAt_eq_none (by rw [List.length_take]; omega)]
  induction fuel generalizing off fuel' recs with
  | zero => exact hstop off fuel' recs hoff
  | succ fuel ih =>
      rw [recordsFrom] at hfuel' ⊢
      cases hrec : recordAt b off with
      | none => exact hstop off fuel' recs hoff
      | some r =>
          obtain ⟨e, next⟩ := r
          obtain ⟨hlt, hle⟩ := recordAt_bounds hrec
          rw [hrec] at hfuel'
          dsimp only at hfuel' ⊢
          have hend : ∀ recs', next ≤ (recordsFrom b fuel next recs').2 := fun recs' =>
            (recordsFrom_bounds hle).1
          cases fuel' with
          | zero => exact absurd ((hend _).trans hfuel') (by omega)
          | succ fuel' =>
              rw [recordsFrom, recordAt_take hrec (hend _)]
              exact ih hle (by omega) (by omega)

lemma length_of_readSegHeader (h : readSegHeader (b.take segHeaderLen) = .ok ()) :
    segHeaderLen ≤ b.length := by
  by_contra hshort
  rw [readSegHeader, if_pos (by rw [List.length_take]; omega)] at h
  cases h

lemma scanned_bounds (h : segHeaderLen ≤ b.length) :
    segHeaderLen ≤ (scanned b).2 ∧ (scanned b).2 ≤ b.length :=
  recordsFrom_bounds h

/-- The scan of a segment cut where its scan ends. -/
lemma scanned_take (h : segHeaderLen ≤ b.length) : scanned (b.take (scanned b).2) = scanned b := by
  have hlen : (b.take (scanned b).2).length = (scanned b).2 := by
    rw [List.length_take, min_eq_left (scanned_bounds h).2]
  rw [scanned, hlen]
  exact recordsFrom_take h (by omega) (Nat.le_add_left _ _)

/-! ## The calls of a scan -/

variable {F : Fate → Prop} {E : SegmentError → Site ρ → Prop} {R : Site ρ → Prop}

lemma wp_scanRecord {Q : Option (Entry × ℕ) → Site ρ → Prop} (hF : Faultless F)
    (hb : w.disk.content name = some b) (hQ : Q (recordAt b off) w) (hdie : F .die → R w) :
    (scanRecord name b.length off).wp F Q E R w := by
  unfold recordAt at hQ
  dsimp only at hQ
  refine Prog.wp_bind (Prog.wp_attempt (Vfs.wp_readAt hF hb (fun hhdr => ?_) (fun hhdr => ?_) hdie))
  · rw [if_pos hhdr] at hQ
    dsimp only
    split_ifs with hend
    · rw [if_pos hend] at hQ
      exact Prog.wp_pure hQ
    · rw [if_neg hend] at hQ
      refine Prog.wp_bind (Prog.wp_attempt (Vfs.wp_readAt hF hb (fun hpay => ?_) (fun hpay => ?_)
        hdie))
      · dsimp only
        split
        · rename_i herr
          rw [herr] at hQ
          exact Prog.wp_pure hQ
        · rename_i hok
          rw [hok] at hQ
          exact Prog.wp_pure hQ
      · omega
  · rw [if_neg (by omega)] at hQ
    exact Prog.wp_pure hQ

lemma wp_scanRecords_any {Q : List ScanRec × ℕ → Site ρ → Prop} (hF : Faultless F)
    (hb : w.disk.content name = some b) {fuel : ℕ} {recs : List ScanRec}
    (hQ : Q (recordsFrom b fuel off recs) w) (hdie : F .die → R w) :
    (scanRecords name b.length fuel off recs).wp F Q E R w := by
  induction fuel generalizing off recs with
  | zero => exact Prog.wp_pure hQ
  | succ fuel ih =>
      rw [scanRecords]
      rw [recordsFrom] at hQ
      split_ifs with hend
      · rw [recordAt_eq_none hend] at hQ
        exact Prog.wp_pure hQ
      · refine Prog.wp_bind (wp_scanRecord hF hb ?_ hdie)
        cases hrec : recordAt b off with
        | none =>
            rw [hrec] at hQ
            exact Prog.wp_pure hQ
        | some r =>
            rw [hrec] at hQ
            exact ih hQ

/-- The scan of any bytes with a segment header. -/
lemma scanSegment_any (hb : w.disk.content name = some b)
    (hheader : readSegHeader (b.take segHeaderLen) = .ok ()) :
    (scanSegment name).run w = (.ok (scanned b), w) := by
  have hlong := length_of_readSegHeader hheader
  have hwp : (scanSegment name).wp (· = .ok) (fun r w' => r = scanned b ∧ w' = w)
      (fun _ _ => False) (fun _ => True) w := by
    refine Prog.wp_bind (Prog.wp_orFail (Vfs.wp_size faultless_quiet hb ?_ fun _ => trivial))
    refine Prog.wp_bind (Prog.wp_orFail (Vfs.wp_readAt faultless_quiet hb (fun _ => ?_)
      (fun hlt => ?_) fun _ => trivial))
    · rw [List.drop_zero, hheader]
      exact wp_scanRecords_any faultless_quiet hb ⟨rfl, rfl⟩ fun _ => trivial
    · omega
  rcases Prog.run_of_wp hwp with ⟨r, w', hrun, rfl, rfl⟩ | ⟨_, _, _, hfalse⟩
  · exact hrun
  · exact hfalse.elim

end

/-! ## Exact and idempotent -/

/-- The scan of a segment that ends with a torn record. -/
lemma scanSegment_torn {ρ : Type} {w : Site ρ} {name : String} {es : List Entry} {p : Bytes}
    (hes : ∀ e ∈ es, Fits e) (hp : Torn p) (hb : w.disk.content name = some (segBytes es ++ p)) :
    (scanSegment name).run w = (.ok (located segHeaderLen es, (segBytes es).length), w) := by
  have hwp : (scanSegment name).wp (· = .ok)
      (fun r w' => r = (located segHeaderLen es, (segBytes es).length) ∧ w' = w)
      (fun _ _ => False) (fun _ => True) w :=
    wp_scanSegment faultless_quiet hes hp hb ⟨rfl, rfl⟩ fun _ => trivial
  rcases Prog.run_of_wp hwp with ⟨r, w', hrun, rfl, rfl⟩ | ⟨_, _, _, hfalse⟩
  · exact hrun
  · exact hfalse.elim

/-- Behind entries that were written as a whole, every part of a further record is left out of
the scan.  And whatever bytes follow the header of a segment, a scan of the file cut where the
first scan ended finds the same, and ends where the file does. -/
theorem torn_tail_exact {ρ : Type} (w : Site ρ) (name : String) :
    (∀ (es : List Entry) (e : Entry) (p : Bytes), (∀ x ∈ es, Fits x) → Fits e → p <+: record e →
        p ≠ record e → w.disk.content name = some (segBytes es ++ p) →
        (scanSegment name).run w = (.ok (located segHeaderLen es, (segBytes es).length), w)) ∧
      ∀ b : Bytes, w.disk.content name = some b →
        readSegHeader (b.take segHeaderLen) = .ok () →
        ∃ recs goodEnd, (scanSegment name).run w = (.ok (recs, goodEnd), w) ∧
          ∀ w' : Site ρ, w'.disk.content name = some (b.take goodEnd) →
            (scanSegment name).run w' = (.ok (recs, goodEnd), w') ∧
              (b.take goodEnd).length = goodEnd := by
  refine ⟨fun es e p hes he hp hne hb => scanSegment_torn hes ⟨e, he, hp, hne⟩ hb,
    fun b hb hheader => ⟨(scanned b).1, (scanned b).2, scanSegment_any hb hheader,
      fun w' hb' => ?_⟩⟩
  have hlong := length_of_readSegHeader hheader
  obtain ⟨hfrom, hto⟩ := scanned_bounds hlong
  have hheader' : readSegHeader ((b.take (scanned b).2).take segHeaderLen) = .ok () := by
    rw [List.take_take, min_eq_left hfrom]
    exact hheader
  refine ⟨?_, by rw [List.length_take, min_eq_left hto]⟩
  rw [scanSegment_any hb' hheader', scanned_take hlong]

/-- Two entries, and half of the header of a third. -/
def halfWritten : Site Unit where
  disk := Disk.empty.set "0000000000000001.seg"
    (.solid (segBytes [⟨1, 1, [7]⟩, ⟨1, 2, []⟩] ++ (record ⟨2, 3, [8, 9]⟩).take 5))
  ram := ()

theorem torn_tail_exact_halfWritten :
    (scanSegment "0000000000000001.seg").run halfWritten =
      (.ok ([⟨1, 1, 1, 13⟩, ⟨1, 2, 0, 38⟩], 54), halfWritten) :=
  (torn_tail_exact halfWritten "0000000000000001.seg").1 [⟨1, 1, [7]⟩, ⟨1, 2, []⟩] ⟨2, 3, [8, 9]⟩
    ((record ⟨2, 3, [8, 9]⟩).take 5) (by decide) (by decide) (List.take_prefix _ _)
    (by decide +kernel) rfl

end FileStore

end ToyRaft
