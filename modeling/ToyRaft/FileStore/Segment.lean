import ToyRaft.FileStore.Codec
import ToyRaft.Framework.Decimal
import ToyRaft.Framework.Disk

/-!
# Segment files (`segment.go`)

A segment is a header and then records.  `scanSegment` reads one from the front and stops
without an error where the records end: at the end of the file, at a record that is cut short,
or at one whose checksum is wrong.  `wp_scanSegment` says what it finds in a file that holds
the records of `es` and then less than one more record.

`segmentName` is the name of a segment by the index of its first entry.  The order of the names
is that of the indexes up to sixteen digits (`segmentName_lt`).
-/

namespace ToyRaft

namespace FileStore

/-! ## Names -/

def segSuffix : String := ".seg"

/-- `segmentName`: `%016d.seg`. -/
def segmentName (firstIndex : ℕ) : String :=
  .ofList (padded 16 firstIndex ++ segSuffix.toList)

/-- `strings.HasSuffix` with the extension of the segments. -/
def isSegment (name : String) : Bool := segSuffix.toList.isSuffixOf name.toList

example : segmentName 12 = "0000000000000012.seg" := by decide

lemma toList_segmentName (n : ℕ) : (segmentName n).toList = padded 16 n ++ segSuffix.toList :=
  String.toList_ofList

lemma segmentName_injective : Function.Injective segmentName := fun m n h => by
  have hlist := congrArg String.toList h
  rw [toList_segmentName, toList_segmentName] at hlist
  exact padded_injective 16 (List.append_cancel_right hlist)

lemma segmentName_lt {m n : ℕ} (hn : n < 10 ^ 16) (h : m < n) : segmentName m < segmentName n := by
  rw [String.lt_iff_toList_lt, toList_segmentName, toList_segmentName]
  refine append_lt_append_right ?_ (padded_lt_padded (by decide) hn h) _
  rw [length_padded (by decide) (h.trans hn), length_padded (by decide) hn]

lemma isSegment_segmentName (n : ℕ) : isSegment (segmentName n) = true := by
  rw [isSegment, toList_segmentName, List.isSuffixOf_iff_suffix]
  exact List.suffix_append _ _

/-! ## Contents -/

def segMagic : Bytes := [0x54, 0x52, 0x4c, 0x31]

def segVersion : UInt8 := 1

def segHeaderLen : ℕ := 5

/-- What `writeSegHeader` writes. -/
def segHeader : Bytes := segMagic ++ [segVersion]

/-- The records of `es`, one after the other. -/
def records (es : List Entry) : Bytes := es.flatMap record

/-- A segment that holds `es`. -/
def segBytes (es : List Entry) : Bytes := segHeader ++ records es

lemma records_append (es es' : List Entry) : records (es ++ es') = records es ++ records es' :=
  List.flatMap_append

lemma segBytes_concat (es : List Entry) (e : Entry) :
    segBytes (es ++ [e]) = segBytes es ++ record e := by
  rw [segBytes, segBytes, records_append, List.append_assoc]
  congr 2
  exact List.append_nil _

lemma segBytes_mono {es es' : List Entry} (h : es <+: es') : segBytes es <+: segBytes es' := by
  obtain ⟨more, rfl⟩ := h
  exact ⟨records more, by rw [segBytes, segBytes, records_append, List.append_assoc]⟩

lemma segBytes_split (es : List Entry) (k : ℕ) :
    segBytes es = segBytes (es.take k) ++ records (es.drop k) := by
  rw [segBytes, segBytes, List.append_assoc, ← records_append, List.take_append_drop]

/-- A segment that loses entries loses bytes. -/
lemma length_segBytes_take_lt {es : List Entry} {j : ℕ} (hj : j < es.length) :
    (segBytes (es.take j)).length < (segBytes es).length := by
  rw [segBytes_split es j, List.drop_eq_getElem_cons hj,
    show records (es[j] :: es.drop (j + 1)) = record es[j] ++ records (es.drop (j + 1)) from rfl,
    List.length_append, List.length_append, length_record, recHeaderLen]
  omega

/-! ## The scan -/

inductive SegmentError
  /-- A call on the file failed, or the header is not there. -/
  | io
  | truncatedHeader (have_ : ℕ)
  | badMagic (magic : Bytes)
  | unknownVersion (v : UInt8)
  deriving DecidableEq, Repr

/-- `readSegHeader`. -/
def readSegHeader (hdr : Bytes) : Except SegmentError Unit :=
  if hdr.length < segHeaderLen then .error (.truncatedHeader hdr.length)
  else if hdr.take 4 ≠ segMagic then .error (.badMagic (hdr.take 4))
  else if hdr.getD 4 0 ≠ segVersion then .error (.unknownVersion (hdr.getD 4 0))
  else .ok ()

/-- `scanRec`. -/
structure ScanRec where
  term : ℕ
  index : ℕ
  dataLen : ℕ
  /-- Where the payload starts. -/
  offset : ℕ
  deriving DecidableEq, Repr

variable {ρ : Type}

/-- One iteration of the loop of `scanSegment`: the record at `off` and where it ends, or
nothing at the torn tail. -/
def scanRecord (name : String) (size off : ℕ) :
    Prog (Site ρ) SegmentError (Option (Entry × ℕ)) := do
  match ← (Vfs.readAt name recHeaderLen off).attempt with
  | .error _ => pure none
  | .ok hdr =>
      let declared := leNat (hdr.take 4)
      if size < off + recHeaderLen + declared then pure none
      else
        match ← (Vfs.readAt name declared (off + recHeaderLen)).attempt with
        | .error _ => pure none
        | .ok p =>
            match decodeRecord hdr p with
            | .error _ => pure none
            | .ok e => pure (some (e, off + recHeaderLen + declared))

/-- The loop of `scanSegment`, with a bound on its iterations. -/
def scanRecords (name : String) (size : ℕ) :
    ℕ → ℕ → List ScanRec → Prog (Site ρ) SegmentError (List ScanRec × ℕ)
  | 0, off, recs => pure (recs, off)
  | fuel + 1, off, recs =>
      if size ≤ off then pure (recs, off)
      else do
        match ← scanRecord name size off with
        | none => pure (recs, off)
        | some (e, next) =>
            scanRecords name size fuel next
              (recs ++ [{ term := e.term, index := e.index, dataLen := e.data.length,
                          offset := off + recHeaderLen }])

/-- `scanSegment`: the records and where they end.  Every record takes more than one byte, so
the loop runs at most `size` times. -/
def scanSegment (name : String) : Prog (Site ρ) SegmentError (List ScanRec × ℕ) := do
  let size ← (Vfs.size name).orFail .io
  let shdr ← (Vfs.readAt name segHeaderLen 0).orFail .io
  match readSegHeader shdr with
  | .error e => Prog.throw e
  | .ok _ => scanRecords name size size segHeaderLen []

/-- The records of `es` when the first of them starts at `off`. -/
def located (off : ℕ) : List Entry → List ScanRec
  | [] => []
  | e :: es =>
      { term := e.term, index := e.index, dataLen := e.data.length,
        offset := off + recHeaderLen } :: located (off + (record e).length) es

/-- Less than one record. -/
def Torn (t : Bytes) : Prop := ∃ e, Fits e ∧ t <+: record e ∧ t ≠ record e

lemma torn_nil : Torn [] :=
  ⟨⟨0, 0, []⟩, by decide, List.nil_prefix, fun h => by cases h⟩

lemma exists_torn_of_prefix {es : List Entry} (hes : ∀ e ∈ es, Fits e) {b : Bytes}
    (h : b <+: records es) :
    ∃ j ≤ es.length, ∃ t, Torn t ∧ b = records (es.take j) ++ t := by
  induction es generalizing b with
  | nil => exact ⟨0, le_rfl, [], torn_nil, List.prefix_nil.mp h⟩
  | cons e es ih =>
      rcases List.prefix_or_prefix_of_prefix h (List.prefix_append (record e) (records es)) with
        hb | ⟨b', rfl⟩
      · by_cases heq : b = record e
        · exact ⟨1, by simp, [], torn_nil, by simp [records, heq]⟩
        · exact ⟨0, Nat.zero_le _, b, ⟨e, hes e List.mem_cons_self, hb, heq⟩, rfl⟩
      · obtain ⟨j, hj, t, ht, rfl⟩ := ih (fun x hx => hes x (List.mem_cons_of_mem _ hx))
          ((List.prefix_append_right_inj (record e)).mp h)
        refine ⟨j + 1, Nat.succ_le_succ hj, t, ht, ?_⟩
        rw [List.take_succ_cons,
          show records (e :: es.take j) = record e ++ records (es.take j) from rfl,
          List.append_assoc]

/-- What is left of a segment that has kept its first `k` entries. -/
lemma exists_torn_of_between {es : List Entry} (hes : ∀ e ∈ es, Fits e) {b : Bytes} {k : ℕ}
    (hk : k ≤ es.length) (hlo : segBytes (es.take k) <+: b) (hhi : b <+: segBytes es) :
    ∃ j, k ≤ j ∧ j ≤ es.length ∧ ∃ t, Torn t ∧ b = segBytes (es.take j) ++ t := by
  obtain ⟨b', rfl⟩ := hlo
  rw [segBytes_split es k] at hhi
  obtain ⟨i, hi, t, ht, rfl⟩ := exists_torn_of_prefix
    (fun e he => hes e (List.mem_of_mem_drop he)) ((List.prefix_append_right_inj _).mp hhi)
  rw [List.length_drop] at hi
  refine ⟨k + i, by omega, by omega, t, ht, ?_⟩
  rw [List.take_add, segBytes, segBytes, records_append, List.append_assoc, List.append_assoc,
    List.append_assoc]

section Spec

variable {F : Fate → Prop} {E : SegmentError → Site ρ → Prop} {R : Site ρ → Prop}
  {w : Site ρ} {name : String} {pre rest : Bytes}

lemma wp_scanRecord_record {Q : Option (Entry × ℕ) → Site ρ → Prop} {e : Entry}
    (hF : Faultless F) (hb : w.disk.content name = some (pre ++ (record e ++ rest)))
    (he : Fits e) (hQ : Q (some (e, pre.length + (record e).length)) w) (hdie : F .die → R w) :
    (scanRecord name (pre ++ (record e ++ rest)).length pre.length).wp F Q E R w := by
  have hhdr : ((pre ++ (record e ++ rest)).drop pre.length).take recHeaderLen =
      recHeader (payload e) := by
    rw [List.drop_left, record, List.append_assoc]
    exact List.take_left' (length_recHeader _)
  have hpay : ((pre ++ (record e ++ rest)).drop (pre.length + recHeaderLen)).take
      (payload e).length = payload e := by
    rw [← List.drop_drop, List.drop_left, record, List.append_assoc,
      List.drop_left' (length_recHeader _), List.take_left]
  have hlen : (payload e).length < 2 ^ 32 := by
    rw [length_payload]
    exact he.data
  have hsize : pre.length + recHeaderLen + (payload e).length ≤
      (pre ++ (record e ++ rest)).length := by
    simp only [List.length_append, length_record, length_payload]
    omega
  refine Prog.wp_bind (Prog.wp_attempt (Vfs.wp_readAt hF hb (fun _ => ?_) (fun h => ?_) hdie))
  · rw [hhdr]
    dsimp only
    rw [leNat_take_recHeader, Nat.mod_eq_of_lt hlen, if_neg (by omega)]
    refine Prog.wp_bind (Prog.wp_attempt (Vfs.wp_readAt hF hb (fun _ => ?_) (fun h => ?_) hdie))
    · rw [hpay]
      dsimp only
      rw [decodeRecord_encode he]
      refine Prog.wp_pure ?_
      rw [show pre.length + recHeaderLen + (payload e).length = pre.length + (record e).length by
        rw [length_record, length_payload, Nat.add_assoc]]
      exact hQ
    · omega
  · omega

lemma wp_scanRecord_torn {Q : Option (Entry × ℕ) → Site ρ → Prop} (hF : Faultless F)
    (hb : w.disk.content name = some (pre ++ rest)) (ht : Torn rest) (hQ : Q none w)
    (hdie : F .die → R w) :
    (scanRecord name (pre ++ rest).length pre.length).wp F Q E R w := by
  obtain ⟨e, he, ⟨more, hmore⟩, hne⟩ := ht
  have hshort : rest.length < (record e).length := by
    rw [← hmore, List.length_append]
    rcases more with _ | ⟨b, more⟩
    · exact (hne (by rw [← hmore, List.append_nil])).elim
    · rw [List.length_cons]
      omega
  refine Prog.wp_bind (Prog.wp_attempt (Vfs.wp_readAt hF hb (fun h => ?_) (fun h => ?_) hdie))
  · -- the header is whole, and declares more than there is
    have hlong : recHeaderLen ≤ rest.length := by
      rw [List.length_append] at h
      omega
    have hhdr : ((pre ++ rest).drop pre.length).take recHeaderLen = recHeader (payload e) := by
      rw [List.drop_left, ← List.take_append_of_le_length hlong, hmore, record]
      exact List.take_left' (length_recHeader _)
    have hlen : (payload e).length < 2 ^ 32 := by
      rw [length_payload]
      exact he.data
    rw [hhdr]
    dsimp only
    rw [leNat_take_recHeader, Nat.mod_eq_of_lt hlen, if_pos]
    · exact Prog.wp_pure hQ
    · rw [length_record, ← length_payload] at hshort
      rw [List.length_append]
      omega
  · exact Prog.wp_pure hQ

lemma wp_scanRecords {Q : List ScanRec × ℕ → Site ρ → Prop} {es : List Entry} {torn : Bytes}
    (hF : Faultless F) (hes : ∀ e ∈ es, Fits e) (ht : Torn torn) {fuel : ℕ}
    (hfuel : (records es ++ torn).length ≤ fuel) {recs : List ScanRec}
    (hb : w.disk.content name = some (pre ++ (records es ++ torn)))
    (hQ : Q (recs ++ located pre.length es, pre.length + (records es).length) w)
    (hdie : F .die → R w) :
    (scanRecords name (pre ++ (records es ++ torn)).length fuel pre.length recs).wp F Q E R w := by
  induction es generalizing pre fuel recs with
  | nil =>
      rw [located, List.append_nil] at hQ
      cases fuel with
      | zero => exact Prog.wp_pure hQ
      | succ fuel =>
          rw [scanRecords]
          split_ifs with hend
          · exact Prog.wp_pure hQ
          · exact Prog.wp_bind (wp_scanRecord_torn hF hb ht (Prog.wp_pure hQ) hdie)
  | cons e es ih =>
      have hsplit : records (e :: es) ++ torn = record e ++ (records es ++ torn) :=
        List.append_assoc _ _ _
      have hrec : 0 < (record e).length := by
        rw [length_record, recHeaderLen]
        omega
      rw [hsplit, List.length_append] at hfuel
      rw [hsplit] at hb ⊢
      cases fuel with
      | zero => omega
      | succ fuel =>
          rw [scanRecords, if_neg (by simp only [List.length_append]; omega)]
          refine Prog.wp_bind (wp_scanRecord_record hF hb (hes e List.mem_cons_self) ?_ hdie)
          have hassoc : pre ++ (record e ++ (records es ++ torn)) =
              (pre ++ record e) ++ (records es ++ torn) := (List.append_assoc _ _ _).symm
          dsimp only
          rw [hassoc] at hb ⊢
          rw [← List.length_append]
          refine ih (fun x hx => hes x (List.mem_cons_of_mem _ hx)) (by omega) hb ?_
          rw [List.length_append, List.append_assoc]
          have hend : pre.length + (record e).length + (records es).length =
              pre.length + (records (e :: es)).length := by
            rw [show records (e :: es) = record e ++ records es from rfl, List.length_append,
              Nat.add_assoc]
          rw [hend]
          exact hQ

/-- The scan of a segment that holds `es`, and then less than a record. -/
lemma wp_scanSegment {Q : List ScanRec × ℕ → Site ρ → Prop} {es : List Entry} {torn : Bytes}
    (hF : Faultless F) (hes : ∀ e ∈ es, Fits e) (ht : Torn torn)
    (hb : w.disk.content name = some (segBytes es ++ torn))
    (hQ : Q (located segHeaderLen es, (segBytes es).length) w) (hdie : F .die → R w) :
    (scanSegment name).wp F Q E R w := by
  rw [segBytes, List.append_assoc] at hb
  refine Prog.wp_bind (Prog.wp_orFail (Vfs.wp_size hF hb ?_ hdie))
  refine Prog.wp_bind (Prog.wp_orFail (Vfs.wp_readAt hF hb (fun _ => ?_) (fun h => ?_) hdie))
  · have hhdr : ((segHeader ++ (records es ++ torn)).drop 0).take segHeaderLen = segHeader := rfl
    rw [hhdr]
    have hok : readSegHeader segHeader = .ok () := rfl
    rw [hok]
    have hlen : (segBytes es).length = segHeader.length + (records es).length :=
      List.length_append
    rw [hlen] at hQ
    show (scanRecords name (segHeader ++ (records es ++ torn)).length
      (segHeader ++ (records es ++ torn)).length segHeader.length []).wp F Q E R w
    refine wp_scanRecords hF hes ht ?_ hb hQ hdie
    simp only [List.length_append]
    omega
  · simp only [List.length_append, segHeader, segMagic, segHeaderLen, List.length_cons,
      List.length_nil] at h
    omega

end Spec

end FileStore

end ToyRaft
