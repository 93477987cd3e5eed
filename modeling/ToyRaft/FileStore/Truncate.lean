import Mathlib.Data.List.Dedup
import ToyRaft.FileStore.Session

/-!
# A session of the store: `TruncateSuffix`

The entry to cut at lies in one segment of the row (`exists_split`).  That segment is cut and
becomes the active one; the later segments that hold an entry are removed, and the ones that
hold none stay behind as idle files.
-/

namespace ToyRaft

namespace FileStore

/-! ## Where the cut is -/

lemma exists_split {segs : List Seg} {pos : ℕ} (h : pos < (logOf segs).length) :
    ∃ pre t post j, segs = pre ++ t :: post ∧ pos = (logOf pre).length + j ∧
      j < t.entries.length := by
  induction segs generalizing pos with
  | nil => cases h
  | cons s segs ih =>
      have hlen : (logOf (s :: segs)).length = s.entries.length + (logOf segs).length :=
        List.length_append
      rcases lt_or_ge pos s.entries.length with hlt | hge
      · exact ⟨[], s, segs, pos, rfl, (Nat.zero_add _).symm, hlt⟩
      · obtain ⟨pre, t, post, j, rfl, hpos, hj⟩ := ih
          (show pos - s.entries.length < (logOf segs).length by omega)
        refine ⟨s :: pre, t, post, j, rfl, ?_, hj⟩
        rw [show (logOf (s :: pre)).length = s.entries.length + (logOf pre).length from
          List.length_append]
        omega

lemma located_take (off j : ℕ) (es : List Entry) :
    located off (es.take j) = (located off es).take j := by
  rcases le_or_gt j es.length with hj | hj
  · conv_rhs => rw [← List.take_append_drop j es, located_append]
    rw [List.take_left' (by rw [length_located, List.length_take, min_eq_left hj])]
  · rw [List.take_of_length_le hj.le, List.take_of_length_le (by rw [length_located]; exact hj.le)]

/-- The index of the first entries of a segment. -/
lemma idx_take (t : Seg) (j : ℕ) : Seg.idx ⟨t.number, t.entries.take j⟩ = t.idx.take j := by
  rw [Seg.idx, Seg.idx, ← List.map_take, located_take]
  rfl

/-- Where the index says that entry `j` of a segment is. -/
lemma idx_getElem? {t : Seg} {j : ℕ} (hj : j < t.entries.length) :
    ∃ ie, t.idx[j]? = some ie ∧ ie.segment = t.name ∧
      ie.offset = (segBytes (t.entries.take j)).length + recHeaderLen := by
  have hdrop : t.entries.drop j = t.entries[j] :: t.entries.drop (j + 1) :=
    List.drop_eq_getElem_cons hj
  have hidx : t.idx = Seg.idx ⟨t.number, t.entries.take j⟩ ++
      (located (segHeaderLen + (records (t.entries.take j)).length) (t.entries.drop j)).map
        (idxEntry t.name) := by
    rw [Seg.idx, Seg.idx]
    conv_lhs => rw [← List.take_append_drop j t.entries, located_append, List.map_append]
    rfl
  have hlen : (Seg.idx ⟨t.number, t.entries.take j⟩).length = j := by
    rw [length_idx, List.length_take, min_eq_left hj.le]
  rw [hidx, List.getElem?_append_right hlen.le, hlen, Nat.sub_self, hdrop]
  refine ⟨_, rfl, rfl, ?_⟩
  rw [segBytes, List.length_append]
  rfl

lemma mem_laterSegs {s : FileStore} {pos : ℕ} {target : IdxEntry} {n : String} :
    n ∈ s.laterSegs pos target ↔ n ≠ target.segment ∧ ∃ ie ∈ s.idx.drop pos, ie.segment = n := by
  simp only [laterSegs, List.mem_reverse, List.mem_dedup, List.mem_filter, List.mem_map,
    decide_eq_true_eq]
  exact and_comm

lemma nodup_laterSegs (s : FileStore) (pos : ℕ) (target : IdxEntry) :
    (s.laterSegs pos target).Nodup :=
  List.nodup_reverse.mpr (List.nodup_dedup _)

section Split

variable {pre post : List Seg} {t : Seg} {j : ℕ}

lemma idxOf_split (pre post : List Seg) (t : Seg) (j : ℕ) :
    idxOf (pre ++ t :: post) =
      idxOf (pre ++ [⟨t.number, t.entries.take j⟩]) ++ (t.idx.drop j ++ idxOf post) := by
  rw [idxOf_append, idxOf_append, idxOf_singleton, idx_take, List.append_assoc,
    ← List.append_assoc (t.idx.take j), List.take_append_drop]
  rfl

lemma length_idxOf_cut (hj : j < t.entries.length) :
    (idxOf (pre ++ [⟨t.number, t.entries.take j⟩])).length = (logOf pre).length + j := by
  rw [length_idxOf, logOf_append, logOf_singleton, List.length_append, List.length_take,
    min_eq_left hj.le]

/-- The segments that are removed: the later ones that hold an entry. -/
lemma mem_laterSegs_iff {s : FileStore} {target : IdxEntry} {n : String}
    (hj : j < t.entries.length) (hidx : s.idx = idxOf (pre ++ t :: post))
    (hnames : ((pre ++ t :: post).map Seg.name).Nodup) (htarget : target.segment = t.name) :
    n ∈ s.laterSegs ((logOf pre).length + j) target ↔ ∃ u ∈ post, u.entries ≠ [] ∧ n = u.name := by
  have hpost : ∀ u ∈ post, u.name ≠ t.name := by
    intro u hu heq
    rw [List.map_append, List.map_cons] at hnames
    refine (List.nodup_cons.mp (List.nodup_append.mp hnames).2.1).1 ?_
    exact heq ▸ List.mem_map_of_mem hu
  rw [mem_laterSegs, hidx, idxOf_split pre post t j, List.drop_left' (length_idxOf_cut hj), htarget]
  constructor
  · rintro ⟨hne, ie, hie, rfl⟩
    rcases List.mem_append.mp hie with hie | hie
    · exact (hne (idx_segment (List.mem_of_mem_drop hie))).elim
    · obtain ⟨u, hu, hiu⟩ := List.mem_flatMap.mp hie
      refine ⟨u, hu, fun hnil => ?_, idx_segment hiu⟩
      rw [List.eq_nil_of_length_eq_zero (by rw [length_idx, hnil]; rfl : u.idx.length = 0)] at hiu
      cases hiu
  · rintro ⟨u, hu, hne, rfl⟩
    refine ⟨hpost u hu, ?_⟩
    obtain ⟨ie, hie, hseg, -⟩ := idx_getElem? (t := u) (List.length_pos_iff.mpr hne)
    exact ⟨ie, List.mem_append_right _ (List.mem_flatMap.mpr ⟨u, hu, List.mem_of_getElem? hie⟩),
      hseg⟩

/-- How many entries the segment keeps. -/
lemma countP_segment (hj : j < t.entries.length)
    (hnames : ((pre ++ t :: post).map Seg.name).Nodup) :
    (idxOf (pre ++ [⟨t.number, t.entries.take j⟩])).countP (·.segment = t.name) = j := by
  have hpre : ∀ s ∈ pre, s.name ≠ t.name := by
    intro s hs heq
    rw [List.map_append, List.map_cons] at hnames
    exact (List.nodup_append.mp hnames).2.2 _ (List.mem_map_of_mem hs) _ List.mem_cons_self heq
  have hzero : (idxOf pre).countP (·.segment = t.name) = 0 := by
    refine List.countP_eq_zero.mpr fun ie hie hseg => ?_
    obtain ⟨s, hs, his⟩ := List.mem_flatMap.mp hie
    exact hpre s hs ((idx_segment his).symm.trans (of_decide_eq_true hseg))
  have hall : (t.idx.take j).countP (·.segment = t.name) = (t.idx.take j).length :=
    List.countP_eq_length.mpr fun ie hie =>
      decide_eq_true (idx_segment (List.mem_of_mem_take hie))
  rw [idxOf_append, idxOf_singleton, idx_take, List.countP_append, hzero, hall, List.length_take,
    length_idx, min_eq_left hj.le, Nat.zero_add]

end Split

/-- Position `pos` of the log is entry `j` of segment `t`, and the index knows where that is. -/
structure CutAt (r : FileStore) (segs : List Seg) (pos : ℕ) (target : IdxEntry) (pre : List Seg)
    (t : Seg) (post : List Seg) (j : ℕ) : Prop where
  split : segs = pre ++ t :: post
  pos_eq : pos = (logOf pre).length + j
  lt : j < t.entries.length
  segment : target.segment = t.name
  offset : target.offset - recHeaderLen = (segBytes (t.entries.take j)).length
  later : ∀ n, n ∈ r.laterSegs pos target ↔ ∃ u ∈ post, u.entries ≠ [] ∧ n = u.name
  keeps : r.idx.take pos = idxOf (pre ++ [⟨t.number, t.entries.take j⟩])
  count : (r.idx.take pos).countP (·.segment = t.name) = j

lemma exists_cutAt {r : FileStore} {segs : List Seg} {pos : ℕ} {target : IdxEntry}
    (hidx : r.idx = idxOf segs) (hnames : (segs.map Seg.name).Nodup)
    (hpos : pos < (logOf segs).length) (htarget : r.idx[pos]? = some target) :
    ∃ pre t post j, CutAt r segs pos target pre t post j := by
  obtain ⟨pre, t, post, j, rfl, rfl, hj⟩ := exists_split hpos
  obtain ⟨ie, hie, hseg, hoff⟩ := idx_getElem? hj
  obtain rfl : target = ie := by
    rw [hidx, idxOf_append, List.getElem?_append_right (by rw [length_idxOf]; omega),
      length_idxOf, Nat.add_sub_cancel_left, show idxOf (t :: post) = t.idx ++ idxOf post from rfl,
      List.getElem?_append_left (by rw [length_idx]; exact hj), hie] at htarget
    exact (Option.some.inj htarget).symm
  have hkeeps : r.idx.take ((logOf pre).length + j) =
      idxOf (pre ++ [⟨t.number, t.entries.take j⟩]) := by
    rw [hidx, idxOf_split pre post t j, List.take_left' (length_idxOf_cut hj)]
  refine ⟨pre, t, post, j, rfl, rfl, hj, hseg, ?_, fun n => ?_, hkeeps, ?_⟩
  · rw [hoff, Nat.add_sub_cancel]
  · exact mem_laterSegs_iff hj hidx hnames hseg
  · rw [hkeeps, countP_segment hj hnames]

/-! ## What is left on the disk -/

section Cut

variable {σ : Setting} {d d' : Disk} {full pre post : List Seg} {act : Option Seg} {t : Seg}
  {later : List String}

/-- The segment that is cut is numbered less than a segment's length ahead, unless it is the
active one. -/
lemma OnDisk.led_cut (h : OnDisk σ d full act) (hsplit : full ++ act.toList = pre ++ t :: post)
    (hne : t.entries ≠ []) (hback : ∀ n, d'.slot n ≠ {} → d.slot n ≠ {}) (es : List Entry) :
    Led σ d' pre ⟨t.number, es⟩ := by
  by_cases ht : t ∈ full
  · left
    obtain ⟨e, rest, hes⟩ := List.exists_cons_of_ne_nil hne
    have hlt := h.row.numbered t ht e (by rw [hes]; exact List.mem_cons_self)
    have hc := (h.row.upTo hsplit).contiguous
    rw [Option.toList_some, logOf_append, logOf_singleton, hes] at hc
    have hidx := hc (logOf pre).length e (by simp)
    show t.number ≤ (logOf pre).length + σ.max
    omega
  · have htact : t ∈ full ++ act.toList := by
      rw [hsplit]
      simp
    have hact : act = some t := by
      rcases List.mem_append.mp htact with hmem | hmem
      · exact (ht hmem).elim
      · exact Option.mem_toList.mp hmem
    obtain rfl : pre = full := by
      refine (Row.before_full hsplit).eq_of_length_le ?_
      by_contra hlt
      push Not at hlt
      refine ht (List.mem_of_getElem? (i := pre.length) ?_)
      rw [← List.getElem?_append_left hlt, hsplit]
      simp
    exact (h.led t hact).imp_right fun hled => ⟨hled.1, fun m hm => hled.2 m (hback _ hm)⟩

/-- The disk once segment `t` is cut, apart from its file and those that are removed. -/
lemma OnDisk.around_cut (h : OnDisk σ d full act)
    (hsynced : σ.reopens → ∀ a ∈ act, d.slot a.name = .solid a.bytes)
    (hsplit : full ++ act.toList = pre ++ t :: post) (hne : t.entries ≠ [])
    (hlater : ∀ n, n ∈ later ↔ ∃ u ∈ post, u.entries ≠ [] ∧ n = u.name)
    (hother : ∀ n, n ≠ t.name → n ∉ later → d'.slot n = d.slot n ∨ d'.slot n = (d.slot n).settle)
    (es : List Entry) : Around σ later d' pre (some ⟨t.number, es⟩) := by
  have hnames := h.row.nodup_names
  rw [hsplit, List.map_append, List.map_cons, List.nodup_append, List.nodup_cons] at hnames
  have hmem : ∀ u ∈ post, u ∈ full ++ act.toList := fun u hu => by
    rw [hsplit]
    simp [hu]
  have hsolid : ∀ u ∈ post, σ.reopens → d.slot u.name = .solid u.bytes := fun u hu hr => by
    rcases List.mem_append.mp (hmem u hu) with hfull | hact
    · exact h.solid u hfull
    · exact hsynced hr u (Option.mem_toList.mp hact)
  have hback : ∀ n, d'.slot n ≠ {} → d.slot n ≠ {} := by
    intro n hn
    by_cases hnt : n = t.name
    · rw [hnt]
      exact h.slot_ne (by rw [hsplit]; simp)
    · by_cases hnl : n ∈ later
      · obtain ⟨u, hu, -, rfl⟩ := (hlater n).mp hnl
        exact h.slot_ne (hmem u hu)
      · intro heq
        rcases hother n hnt hnl with hd | hd
        · exact hn (hd.trans heq)
        · exact hn (by rw [hd, heq]; rfl)
  refine ⟨fun s hs => ?_, fun n hn hnl hrest => ?_, fun n hn hn' => h.named n hn (hback n hn'),
    fun b hb => ?_⟩
  · have hst : s.name ≠ t.name :=
      hnames.2.2 _ (List.mem_map_of_mem hs) _ List.mem_cons_self
    have hsl : s.name ∉ later := fun hsl => by
      obtain ⟨u, hu, -, hname⟩ := (hlater _).mp hsl
      exact hnames.2.2 _ (List.mem_map_of_mem hs) _
        (List.mem_cons_of_mem _ (List.mem_map_of_mem hu)) hname
    have hs' := h.solid s ((Row.before_full hsplit).subset hs)
    rcases hother _ hst hsl with hd | hd
    · rw [hd, hs']
    · rw [hd, hs']
      rfl
  · have hnt : n ≠ t.name := hrest ⟨t.number, es⟩ (by simp)
    have hidle : Idle σ (d.slot n) := by
      by_cases hpost : ∃ u ∈ post, n = u.name
      · -- it was emptied before
        obtain ⟨u, hu, rfl⟩ := hpost
        have hnil : u.entries = [] := by
          by_contra hne'
          exact hnl ((hlater _).mpr ⟨u, hu, hne', rfl⟩)
        have hub : u.bytes = segHeader := by
          rw [Seg.bytes, hnil]
          rfl
        obtain ⟨f, hf, hb⟩ := h.exists_file (hmem u hu)
        rw [hf]
        refine idle_file (hb.trans hub) fun hr => ?_
        rw [← hf, hsolid u hu hr, hub]
      · push Not at hpost
        refine h.idle n hn List.not_mem_nil fun s hs => ?_
        rw [hsplit, List.mem_append, List.mem_cons] at hs
        rcases hs with hs | rfl | hs
        · exact hrest s (List.mem_append_left _ hs)
        · exact hnt
        · exact hpost s hs
    rcases hother n hnt hnl with hd | hd <;> rw [hd]
    · exact hidle
    · exact hidle.settle
  · obtain rfl := Option.mem_some.mp hb
    exact h.led_cut hsplit hne hback es

variable {w : Site FileStore} {pos j : ℕ} {target : IdxEntry}

/-- Segment `t` is cut, and some of the later ones may be gone. -/
structure CutDisk (w : Site FileStore) (pos : ℕ) (target : IdxEntry) (t : Seg) (j : ℕ)
    (d : Disk) : Prop where
  slot : d.slot t.name = .solid (segBytes (t.entries.take j))
  other : ∀ n, n ≠ t.name → n ∉ w.ram.laterSegs pos target → d.slot n = w.disk.slot n

/-- What a `TruncateSuffix` at position `pos` leaves if the process dies in it: the log as it
was, or cut, in which case some of the later segments may still be there. -/
def CutWreck (σ : Setting) (w : Site FileStore) (l : List Entry) (pos : ℕ) (d : Disk) : Prop :=
  Wreck σ [] d l l ∨ ∃ target ∈ w.ram.idx[pos]?,
    (∃ b, d.slot target.segment = .solid b ∧ w.disk.content target.segment ≠ some b) ∧
      Wreck σ (w.ram.laterSegs pos target) d (l.take pos) (l.take pos)

lemma CutAt.take_logOf {r : FileStore} {segs : List Seg}
    (h : CutAt r segs pos target pre t post j) :
    (logOf segs).take pos = logOf pre ++ t.entries.take j := by
  rw [h.pos_eq, h.split, logOf_append, List.take_length_add_append,
    show logOf (t :: post) = t.entries ++ logOf post from rfl,
    List.take_append_of_le_length h.lt.le]

lemma CutAt.entries_ne {r : FileStore} {segs : List Seg}
    (h : CutAt r segs pos target pre t post j) : t.entries ≠ [] :=
  List.length_pos_iff.mp (Nat.zero_lt_of_lt h.lt)

namespace Session

/-- The process dies after the segment was cut. -/
lemma cutWreck (h : Session σ w full act)
    (hcut : CutAt w.ram (full ++ act.toList) pos target pre t post j)
    (htarget : w.ram.idx[pos]? = some target) (hd : CutDisk w pos target t j d) :
    CutWreck σ w (logOf (full ++ act.toList)) pos d := by
  have hlen : (t.entries.take j).length = j := by rw [List.length_take, min_eq_left hcut.lt.le]
  have ht : t ∈ full ++ act.toList := by
    rw [hcut.split]
    simp
  refine .inr ⟨target, htarget, ⟨_, hcut.segment ▸ hd.slot, fun heq => ?_⟩, pre,
    some ⟨t.number, t.entries.take j⟩, j, ?_, ?_, ?_⟩
  · rw [hcut.segment, h.disk.content_eq ht] at heq
    exact (length_segBytes_take_lt hcut.lt).ne (congrArg List.length (Option.some.inj heq).symm)
  · refine (h.disk.around_cut h.synced hcut.split hcut.entries_ne hcut.later
      (fun n hn hnl => .inl (hd.other n hn hnl)) _).fallen (h.disk.row.cut hcut.split j) ?_
      fun b hb => ?_
    · rw [Option.toList_some, logOf_singleton, hlen]
    · obtain rfl := Option.mem_some.mp hb
      rw [show Seg.name ⟨t.number, t.entries.take j⟩ = t.name from rfl, hd.slot]
      refine (Slot.within_solid _).mono ?_ (List.prefix_refl _)
      rw [kept]
      split_ifs
      · exact List.nil_prefix
      · exact segBytes_mono (List.take_prefix _ _)
  · simp only [hcut.take_logOf, Option.toList_some, logOf_singleton,
      List.take_of_length_le hlen.le, List.prefix_refl]
  · rw [hcut.take_logOf]
    simp only [Option.toList_some, logOf_append, logOf_singleton, List.prefix_refl]

/-- The store once the segment is cut and the directory synced. -/
lemma cut (h : Session σ w full act)
    (hcut : CutAt w.ram (full ++ act.toList) pos target pre t post j)
    (hd : CutDisk w pos target t j d)
    (hgone : ∀ n ∈ w.ram.laterSegs pos target, (d.slot n).current = none) :
    Session σ
      { disk := d.settle
        ram := { w.ram with
          idx := w.ram.idx.take pos
          active := t.name
          activeFile := some { name := t.name }
          activeCount := (w.ram.idx.take pos).countP (·.segment = t.name) } }
      pre (some ⟨t.number, t.entries.take j⟩) := by
  have hslot : d.settle.slot t.name = .solid (segBytes (t.entries.take j)) := by
    rw [Disk.slot_settle, hd.slot]
    rfl
  have hother : ∀ n, n ≠ t.name → n ∉ w.ram.laterSegs pos target →
      d.settle.slot n = (w.disk.slot n).settle := fun n hn hnl => by
    rw [Disk.slot_settle, hd.other n hn hnl]
  have haround := h.disk.around_cut h.synced hcut.split hcut.entries_ne hcut.later
    (fun n hn hnl => .inr (hother n hn hnl)) (t.entries.take j)
  refine ⟨⟨⟨⟨haround.solid, fun n hn _ hrest => ?_, haround.named, haround.led⟩,
    h.disk.row.cut hcut.split j, fun b hb => ?_, fun hnone => by cases hnone⟩,
    h.ram.max, rfl, fun b hb => ?_, fun b hb => ?_⟩, hcut.keeps, fun _ b hb => ?_⟩
  · by_cases hnl : n ∈ w.ram.laterSegs pos target
    · rw [Disk.slot_settle, Slot.settle, hgone n hnl]
      exact idle_empty σ
    · exact haround.idle n hn hnl hrest
  · obtain rfl := Option.mem_some.mp hb
    exact ⟨_, hslot, List.append_nil _⟩
  · obtain rfl := Option.mem_some.mp hb
    rfl
  · obtain rfl := Option.mem_some.mp hb
    rw [hcut.count, List.length_take, min_eq_left hcut.lt.le]
  · obtain rfl := Option.mem_some.mp hb
    exact hslot

end Session

end Cut

/-! ## The calls of `TruncateSuffix` -/

section

variable {F : Fate → Prop} {E : FileError → Site FileStore → Prop} {R : Site FileStore → Prop}
  {w : Site FileStore}

/-- Files are removed one after the other. -/
lemma wp_removeSegs {Q : Unit → Site FileStore → Prop} (hF : Faultless F) {tf : String}
    {names : List String} (hnodup : names.Nodup)
    (hthere : ∀ n ∈ names, (w.disk.slot n).current ≠ none)
    (hQ : ∀ d : Disk, (∀ n ∉ names, d.slot n = w.disk.slot n) →
      (∀ n ∈ names, (d.slot n).current = none) → Q () { w with disk := d })
    (hR : F .die → ∀ d : Disk, (∀ n ∉ names, d.slot n = w.disk.slot n) → R { w with disk := d }) :
    (removeSegs tf names).wp F Q E R w := by
  induction names generalizing w with
  | nil => exact Prog.wp_pure (hQ w.disk (fun _ _ => rfl) fun n hn => by cases hn)
  | cons name rest ih =>
      obtain ⟨hname, hrest⟩ := List.nodup_cons.mp hnodup
      obtain ⟨x, hx⟩ := Option.ne_none_iff_exists'.mp (hthere name List.mem_cons_self)
      have hsame : ∀ d : Disk,
          (∀ n ∉ rest, d.slot n = (w.disk.set name ((w.disk.slot name).bind none)).slot n) →
          ∀ n ∉ name :: rest, d.slot n = w.disk.slot n := fun d hd n hn => by
        rw [List.mem_cons, not_or] at hn
        rw [hd n hn.2, Disk.slot_set_of_ne hn.1]
      refine Prog.wp_bind (Prog.wp_orClean (Vfs.wp_remove hF hx ?_ fun hd =>
        hR hd w.disk fun _ _ => rfl))
      refine ih hrest (fun n hn => ?_) (fun d hd hgone => hQ d (hsame d hd) fun n hn => ?_)
        fun hdie d hd => hR hdie d (hsame d hd)
      · have hne : n ≠ name := fun heq => hname (heq ▸ hn)
        rw [Site.disk_set, Disk.slot_set_of_ne hne]
        exact hthere n (List.mem_cons_of_mem _ hn)
      · rcases List.mem_cons.mp hn with rfl | hn
        · rw [hd _ hname, Site.disk_set, Disk.slot_set_self]
          rfl
        · exact hgone n hn

lemma wp_dropActive {Q : Unit → Site FileStore → Prop} (hF : Faultless F) {tf : String}
    (hopen : ∀ f ∈ w.ram.activeFile, f.closed = false)
    (hQ : ∀ r : FileStore, r = { w.ram with activeFile := none } → Q () { w with ram := r })
    (hR : F .die → ∀ r, R { w with ram := r }) : (dropActive tf).wp F Q E R w := by
  refine Prog.wp_bind (Vfs.wp_ram ?_)
  cases hfile : w.ram.activeFile with
  | none => exact Prog.wp_pure (hQ w.ram (by rw [← hfile]))
  | some f =>
      exact Prog.wp_bind (Prog.wp_orClean (wp_closeActive hF (hopen f hfile)
        (fun _ => Vfs.wp_setRam (hQ _ rfl)) fun hd _ => hR hd _))

namespace Session

variable {σ : Setting} {full : List Seg} {act : Option Seg}

/-- `TruncateSuffix`, once the entry to cut at is found. -/
lemma wp_truncateAt {Q : Unit → Site FileStore → Prop} (hF : Faultless F)
    (hdie : F .die → σ.reopens) (h : Session σ w full act) {pos : ℕ} {target : IdxEntry}
    (hpos : pos < (logOf (full ++ act.toList)).length) (htarget : w.ram.idx[pos]? = some target)
    (hok : ∀ w' full' act', Session σ w' full' act' →
      logOf (full' ++ act'.toList) = (logOf (full ++ act.toList)).take pos → Q () w') :
    (truncateAt (w.ram.laterSegs pos target) pos target).wp F Q E
      (fun w' => CutWreck σ w (logOf (full ++ act.toList)) pos w'.disk) w := by
  obtain ⟨pre, t, post, j, hcut⟩ := exists_cutAt h.idx h.disk.row.nodup_names hpos htarget
  have ht : t ∈ full ++ act.toList := by
    rw [hcut.split]
    simp
  obtain ⟨f, hf, hb⟩ := h.disk.exists_file ht
  have htrunc : (f.truncate (segBytes (t.entries.take j)).length).bytes =
      segBytes (t.entries.take j) := by
    rw [File.bytes_truncate, hb]
    exact (List.prefix_iff_eq_take.mp (segBytes_mono (List.take_prefix _ _))).symm
  have hsync : ({ current := some (f.truncate (segBytes (t.entries.take j)).length).sync } : Slot) =
      .solid (segBytes (t.entries.take j)) := by
    rw [File.sync, htrunc]
    rfl
  have hthere : ∀ n ∈ w.ram.laterSegs pos target,
      n ≠ t.name ∧ (w.disk.slot n).current ≠ none := by
    intro n hn
    refine ⟨hcut.segment ▸ (mem_laterSegs.mp hn).1, ?_⟩
    obtain ⟨u, hu, -, rfl⟩ := (hcut.later n).mp hn
    obtain ⟨g, hg, -⟩ := h.disk.exists_file (by rw [hcut.split]; simp [hu] : u ∈ full ++ act.toList)
    rw [hg]
    exact Option.some_ne_none g
  -- what the disk is like from the moment the segment is cut
  have hkept : ∀ d : Disk, (∀ n ∉ w.ram.laterSegs pos target, d.slot n =
      (w.disk.set t.name (.solid (segBytes (t.entries.take j)))).slot n) →
      CutDisk w pos target t j d := by
    refine fun d hd => ⟨?_, fun n hn hnl => ?_⟩
    · rw [hd _ fun hmem => (hthere _ hmem).1 rfl, Disk.slot_set_self]
    · rw [hd n hnl, Disk.slot_set_of_ne hn]
  have hbefore : F .die → CutWreck σ w (logOf (full ++ act.toList)) pos w.disk := fun hd =>
    .inl (h.disk.wreck (h.safe (hdie hd)) (List.prefix_refl _))
  have hx : (w.disk.slot t.name).current = some f := congrArg Slot.current hf
  rw [truncateAt, hcut.segment, hcut.offset]
  refine Prog.wp_bind (Prog.wp_orFail (Vfs.wp_openFile hF hx ?_ hbefore))
  refine Prog.wp_bind (Prog.wp_orClean (Vfs.wp_onFile hF hx ?_ hbefore))
  rw [hf]
  refine Prog.wp_bind (Prog.wp_orClean (Vfs.wp_onFile
    (x := f.truncate (segBytes (t.entries.take j)).length) hF ?_ ?_ fun hd => ?_))
  · rw [Site.disk_set, Disk.slot_set_self]
  · rw [Site.disk_set, Disk.slot_set_self, Site.set, Site.set, Disk.set_set, hsync]
    refine Prog.wp_bind (wp_dropActive hF h.ram.not_closed (fun r hr => ?_)
      fun _ _ => h.cutWreck hcut htarget (hkept _ fun _ _ => rfl))
    refine Prog.wp_bind (wp_removeSegs hF (nodup_laterSegs _ _ _) (fun n hn => ?_)
      (fun d hd hgone => ?_) fun _ d hd => h.cutWreck hcut htarget (hkept d hd))
    · rw [Disk.slot_set_of_ne (hthere n hn).1]
      exact (hthere n hn).2
    · refine Prog.wp_bind (Prog.wp_orClean (Vfs.wp_syncDir hF (Vfs.wp_setRam ?_)
        fun _ => h.cutWreck hcut htarget (hkept d hd)))
      subst hr
      refine hok _ _ _ (h.cut hcut (hkept d hd) hgone) ?_
      rw [Option.toList_some, logOf_append, logOf_singleton, hcut.take_logOf]
  · -- the bytes that are left were durable
    have hfull : f = { durable := t.bytes } := by
      have hsolid := h.slot_solid (hdie hd) ht
      rw [hf] at hsolid
      exact Option.some.inj (congrArg Slot.current hsolid)
    have hslot : ({ current := some (f.truncate (segBytes (t.entries.take j)).length) } : Slot) =
        .solid (segBytes (t.entries.take j)) := by
      rw [← htrunc, hfull]
      simp [Slot.solid, File.truncate, File.bytes]
    refine h.cutWreck hcut htarget (hkept _ fun n _ => ?_)
    rw [Site.disk_set, hslot]

/-- `TruncateSuffix` cuts the log, or changes nothing.  If the process dies in it, the log is as
it was or cut. -/
lemma wp_truncateSuffix {Q : Unit → Site FileStore → Prop} (hF : Faultless F)
    (hdie : F .die → σ.reopens) (h : Session σ w full act) {start : ℕ}
    (hskip : (logOf (full ++ act.toList)).length < start → Q () w)
    (hzero : start < 1 → E (.invalidIndex start) w)
    (hok : 1 ≤ start → start ≤ (logOf (full ++ act.toList)).length → ∀ w' full' act',
      Session σ w' full' act' →
      logOf (full' ++ act'.toList) = (logOf (full ++ act.toList)).take (start - 1) → Q () w') :
    (truncateSuffix start).wp F Q E
      (fun w' => CutWreck σ w (logOf (full ++ act.toList)) (start - 1) w'.disk) w := by
  refine Prog.wp_bind (Vfs.wp_ram ?_)
  rw [h.readable.lastIndexLocked_eq]
  split_ifs with hlt h1
  · exact Prog.wp_pure (hskip hlt)
  · exact Prog.wp_throw (hzero h1)
  · have hpos : start - 1 < (logOf (full ++ act.toList)).length := by omega
    obtain ⟨target, htarget, -⟩ := h.readable.locates (List.getElem?_eq_getElem hpos)
    rw [htarget]
    exact h.wp_truncateAt hF hdie hpos htarget (hok (by omega) (by omega))

end Session

end

end FileStore

end ToyRaft
