import Mathlib.Data.List.Forall2
import ToyRaft.FileStore.Store

/-!
# Reading through the index (`LastIndex`, `Term`, `Entries`)

`Seg` is a segment as the store sees it: the number in its name and the entries it holds.  The
index is right for a log if every entry of it is found where the index says (`Locates`); the
three reads then answer as on that log (`Readable`).
-/

namespace ToyRaft

/-- A segment. -/
structure Seg where
  number : ℕ
  entries : List Entry
  deriving DecidableEq, Repr

namespace Seg

def name (s : Seg) : String := FileStore.segmentName s.number

def bytes (s : Seg) : Bytes := FileStore.segBytes s.entries

/-- The segment is open. -/
def handle (s : Seg) : Vfs.Handle := { name := s.name }

lemma on_handle {ρ α : Type} (s : Seg) (m : String → Prog (Site ρ) VfsError α) :
    s.handle.on m = m s.name := rfl

/-- The index entries of a segment. -/
def idx (s : Seg) : List IdxEntry :=
  (FileStore.located FileStore.segHeaderLen s.entries).map (FileStore.idxEntry s.name)

end Seg

namespace FileStore

/-- The log in a row of segments. -/
def logOf (segs : List Seg) : List Entry := segs.flatMap Seg.entries

/-- The index of a row of segments. -/
def idxOf (segs : List Seg) : List IdxEntry := segs.flatMap Seg.idx

@[simp] lemma logOf_append (segs segs' : List Seg) :
    logOf (segs ++ segs') = logOf segs ++ logOf segs' := List.flatMap_append

@[simp] lemma idxOf_append (segs segs' : List Seg) :
    idxOf (segs ++ segs') = idxOf segs ++ idxOf segs' := List.flatMap_append

@[simp] lemma logOf_singleton (s : Seg) : logOf [s] = s.entries := List.append_nil _

@[simp] lemma idxOf_singleton (s : Seg) : idxOf [s] = s.idx := List.append_nil _

/-- `e` is found where `ie` says. -/
structure Locates (d : Disk) (ie : IdxEntry) (e : Entry) : Prop where
  index : ie.index = e.index
  term : ie.term = e.term
  length : ie.length = (payload e).length
  found : ∃ pre rest, d.content ie.segment = some (pre ++ (record e ++ rest)) ∧
    ie.offset = pre.length + recHeaderLen
  fits : Fits e

lemma locates_located {d : Disk} {name : String} {es : List Entry} (hes : ∀ e ∈ es, Fits e)
    {pre rest : Bytes} (hb : d.content name = some (pre ++ (records es ++ rest))) :
    List.Forall₂ (Locates d) ((located pre.length es).map (idxEntry name)) es := by
  induction es generalizing pre with
  | nil => exact .nil
  | cons e es ih =>
      have hsplit : pre ++ (records (e :: es) ++ rest) =
          (pre ++ record e) ++ (records es ++ rest) := by
        rw [show records (e :: es) = record e ++ records es from rfl, List.append_assoc,
          List.append_assoc]
      refine .cons ⟨rfl, rfl, (length_payload e).symm, ⟨pre, records es ++ rest, ?_, rfl⟩,
        hes e List.mem_cons_self⟩ ?_
      · rw [← List.append_assoc, ← hsplit]
        exact hb
      · rw [hsplit] at hb
        rw [← List.length_append]
        exact ih (fun x hx => hes x (List.mem_cons_of_mem _ hx)) hb

/-- A segment's own index is right. -/
lemma locates_seg {d : Disk} {s : Seg} (hs : ∀ e ∈ s.entries, Fits e) {t : Bytes}
    (hb : d.content s.name = some (s.bytes ++ t)) :
    List.Forall₂ (Locates d) s.idx s.entries := by
  have hb' : d.content s.name = some (segHeader ++ (records s.entries ++ t)) := by
    rw [hb, Seg.bytes, segBytes, List.append_assoc]
  exact locates_located hs hb'

/-- More may have been written behind the entries. -/
lemma locates_idxOf {d : Disk} {segs : List Seg} (hs : ∀ s ∈ segs, ∀ e ∈ s.entries, Fits e)
    (hb : ∀ s ∈ segs, ∃ t, d.content s.name = some (s.bytes ++ t)) :
    List.Forall₂ (Locates d) (idxOf segs) (logOf segs) := by
  induction segs with
  | nil => exact .nil
  | cons s segs ih =>
      obtain ⟨t, ht⟩ := hb s List.mem_cons_self
      exact List.rel_append (locates_seg (hs s List.mem_cons_self) ht)
        (ih (fun x hx => hs x (List.mem_cons_of_mem _ hx))
          fun x hx => hb x (List.mem_cons_of_mem _ hx))

lemma idx_segment {s : Seg} {ie : IdxEntry} (h : ie ∈ s.idx) : ie.segment = s.name := by
  obtain ⟨r, -, rfl⟩ := List.mem_map.mp h
  rfl

lemma length_located (off : ℕ) (es : List Entry) : (located off es).length = es.length := by
  induction es generalizing off with
  | nil => rfl
  | cons e es ih => rw [located, List.length_cons, List.length_cons, ih]

lemma located_append (off : ℕ) (es es' : List Entry) :
    located off (es ++ es') = located off es ++ located (off + (records es).length) es' := by
  induction es generalizing off with
  | nil => rfl
  | cons e es ih =>
      rw [List.cons_append, located, located, ih, List.cons_append,
        show records (e :: es) = record e ++ records es from rfl, List.length_append,
        Nat.add_assoc]

@[simp] lemma length_idx (s : Seg) : s.idx.length = s.entries.length := by
  rw [Seg.idx, List.length_map, length_located]

lemma length_idxOf (segs : List Seg) : (idxOf segs).length = (logOf segs).length := by
  induction segs with
  | nil => rfl
  | cons s segs ih =>
      rw [show idxOf (s :: segs) = s.idx ++ idxOf segs from rfl,
        show logOf (s :: segs) = s.entries ++ logOf segs from rfl, List.length_append,
        List.length_append, ih, length_idx]

/-- The index is right for the log `l`. -/
structure Readable (w : Site FileStore) (l : List Entry) : Prop where
  located : List.Forall₂ (Locates w.disk) w.ram.idx l
  contiguous : Log.Contiguous l

namespace Readable

variable {w : Site FileStore} {l : List Entry}

lemma length_eq (h : Readable w l) : w.ram.idx.length = l.length := h.located.length_eq

lemma locates (h : Readable w l) {j : ℕ} {e : Entry} (he : l[j]? = some e) :
    ∃ ie, w.ram.idx[j]? = some ie ∧ Locates w.disk ie e := by
  obtain ⟨hj, rfl⟩ := List.getElem?_eq_some_iff.mp he
  have hj' : j < w.ram.idx.length := by
    rw [h.length_eq]
    exact hj
  exact ⟨_, List.getElem?_eq_getElem hj', h.located.get hj' hj⟩

/-- `lastIndexLocked` is the length of the log. -/
lemma lastIndexLocked_eq (h : Readable w l) : w.ram.lastIndexLocked = l.length := by
  rw [lastIndexLocked, List.getLast?_eq_getElem?, h.length_eq]
  cases he : l[l.length - 1]? with
  | none =>
      have hlen := List.getElem?_eq_none_iff.mp he
      have hidx : w.ram.idx[l.length - 1]? = none :=
        List.getElem?_eq_none_iff.mpr (by rw [h.length_eq]; exact hlen)
      rw [hidx]
      dsimp only
      omega
  | some e =>
      obtain ⟨ie, hie, hloc⟩ := h.locates he
      have hlt := (List.getElem?_eq_some_iff.mp he).1
      rw [hie]
      dsimp only
      rw [hloc.index, h.contiguous _ _ he]
      omega

end Readable

/-! ## The reads -/

section Reads

variable {F : Fate → Prop} {E : FileError → Site FileStore → Prop} {R : Site FileStore → Prop}
  {w : Site FileStore}

/-- A record is read where it lies, whatever its length is. -/
lemma wp_readOpened {Q : Entry → Site FileStore → Prop} {ie : IdxEntry} {e : Entry}
    {pre rest : Bytes} (hF : Faultless F)
    (hb : w.disk.content ie.segment = some (pre ++ (record e ++ rest)))
    (hoff : ie.offset = pre.length + recHeaderLen) (hlength : ie.length = (payload e).length)
    (hterm : e.term < 2 ^ 64) (hindex : e.index < 2 ^ 64) (hQ : Q e w) (hdie : F .die → R w) :
    (readOpened ie).wp F Q E R w := by
  have hhdr : ((pre ++ (record e ++ rest)).drop (ie.offset - recHeaderLen)).take recHeaderLen =
      recHeader (payload e) := by
    rw [hoff, Nat.add_sub_cancel, List.drop_left, record, List.append_assoc]
    exact List.take_left' (length_recHeader _)
  have hpay : ((pre ++ (record e ++ rest)).drop ie.offset).take ie.length = payload e := by
    rw [hoff, hlength, ← List.drop_drop, List.drop_left, record, List.append_assoc,
      List.drop_left' (length_recHeader _), List.take_left]
  have hlen : (pre ++ (record e ++ rest)).length =
      pre.length + (recHeaderLen + (payload e).length + rest.length) := by
    rw [List.length_append, List.length_append, length_record, length_payload]
  refine Prog.wp_bind (Prog.wp_orFail (Vfs.wp_readAt hF hb (fun _ => ?_) (fun hlt => ?_) hdie))
  · refine Prog.wp_bind (Prog.wp_orFail (Vfs.wp_readAt hF hb (fun _ => ?_) (fun hlt => ?_) hdie))
    · rw [hhdr, hpay, decodeRecord_payload hterm hindex]
      exact Prog.wp_pure hQ
    · rw [hlen, hoff, hlength] at hlt
      omega
  · rw [hlen, hoff] at hlt
    omega

lemma current_of_content {d : Disk} {n : String} {b : Bytes} (h : d.content n = some b) :
    ∃ f, (d.slot n).current = some f ∧ f.bytes = b :=
  Option.map_eq_some_iff.mp h

lemma wp_readEntryLocked {Q : Entry → Site FileStore → Prop} {ie : IdxEntry} {e : Entry}
    {pre rest : Bytes} (hF : Faultless F)
    (hb : w.disk.content ie.segment = some (pre ++ (record e ++ rest)))
    (hoff : ie.offset = pre.length + recHeaderLen) (hlength : ie.length = (payload e).length)
    (hterm : e.term < 2 ^ 64) (hindex : e.index < 2 ^ 64) (hQ : Q e w) (hdie : F .die → R w) :
    (readEntryLocked ie).wp F Q E R w := by
  obtain ⟨f, hf, -⟩ := current_of_content hb
  refine Prog.wp_bind (Prog.wp_orFail (Vfs.wp_openFile hF hf ?_ hdie))
  refine Prog.wp_bind (Prog.wp_attempt
    (wp_readOpened hF hb hoff hlength hterm hindex ?_ hdie))
  exact Prog.wp_bind (Prog.wp_attempt (Vfs.wp_close hF (Prog.wp_pure hQ) hdie))

lemma wp_readEntries {Q : List Entry → Site FileStore → Prop} {ies : List IdxEntry}
    {es : List Entry} (hF : Faultless F) (h : List.Forall₂ (Locates w.disk) ies es) (hQ : Q es w)
    (hdie : F .die → R w) : (readEntries ies).wp F Q E R w := by
  induction h generalizing Q with
  | nil => exact Prog.wp_pure hQ
  | cons he _ ih =>
      obtain ⟨pre, rest, hb, hoff⟩ := he.found
      exact Prog.wp_bind (wp_readEntryLocked hF hb hoff he.length he.fits.term he.fits.index
        (Prog.wp_bind (ih (Prog.wp_pure hQ))) hdie)

namespace Readable

variable {l : List Entry}

lemma wp_lastIndex {Q : ℕ → Site FileStore → Prop} (h : Readable w l) (hQ : Q l.length w) :
    lastIndex.wp F Q E R w := by
  refine Prog.wp_bind (Vfs.wp_ram (Prog.wp_pure ?_))
  rw [h.lastIndexLocked_eq]
  exact hQ

lemma wp_term {Q : ℕ → Site FileStore → Prop} (h : Readable w l) {index : ℕ}
    (hzero : index = 0 → Q 0 w)
    (hQ : index ≠ 0 → ∀ e, l[index - 1]? = some e → Q e.term w)
    (hend : l.length < index → E (.unexpectedEOF index l.length) w) :
    (term index).wp F Q E R w := by
  refine Prog.wp_bind (Vfs.wp_ram ?_)
  rw [h.lastIndexLocked_eq]
  split_ifs with h0 hlt
  · exact Prog.wp_pure (hzero h0)
  · exact Prog.wp_throw (hend hlt)
  · have hj : index - 1 < l.length := by omega
    obtain ⟨ie, hie, hloc⟩ := h.locates (List.getElem?_eq_getElem hj)
    rw [hie]
    dsimp only
    rw [hloc.term]
    exact Prog.wp_pure (hQ h0 _ (List.getElem?_eq_getElem hj))

lemma wp_entries {Q : List Entry → Site FileStore → Prop} (hF : Faultless F)
    (h : Readable w l) {lo hi : ℕ} (hrange : lo < 1 ∨ hi < lo → E (.invalidRange lo hi) w)
    (hend : ¬ (lo < 1 ∨ hi < lo) → l.length + 1 < hi → E (.unexpectedEOF hi (l.length + 1)) w)
    (hQ : ¬ (lo < 1 ∨ hi < lo) → ¬ l.length + 1 < hi → Q ((l.drop (lo - 1)).take (hi - lo)) w)
    (hdie : F .die → R w) :
    (entries lo hi).wp F Q E R w := by
  refine Prog.wp_bind (Vfs.wp_ram ?_)
  rw [h.lastIndexLocked_eq]
  split_ifs with hlo hhi
  · exact Prog.wp_throw (hrange hlo)
  · exact Prog.wp_throw (hend hlo hhi)
  · dsimp only
    rw [if_neg]
    · exact wp_readEntries hF (List.forall₂_take _ (List.forall₂_drop _ h.located)) (hQ hlo hhi)
        hdie
    · rw [List.length_take, List.length_drop, h.length_eq]
      omega

end Readable

end Reads

end FileStore

end ToyRaft
