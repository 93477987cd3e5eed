import ToyRaft.FileStore.Index

/-!
# How the log lies on the disk

A log is kept in a row of segments: those that are full, and the active one.  `Row` is what
holds of the numbers and the entries of such a row, and `OnDisk` is how it lies on the disk.
Every other segment file is one that was emptied, and holds a header only (`Idle`).

The names of the row are in order.  A full segment is numbered less than a segment's length
ahead of its first entry, so the next segment that is created never takes the name of one in
use.  The same holds of the active segment (`Led`) unless it was taken up by `recover`, which
chooses it by its name alone; no segment file comes after it then.

`Wreck` is a disk at a moment when the process dies: the last segment may lose what was not
yet made durable.
-/

namespace ToyRaft

namespace FileStore

/-- What a group of results assumes of the runs it is about. -/
structure Setting where
  /-- `maxEntriesPerSegment`. -/
  max : ℕ
  pos : 0 < max
  /-- The numbers that segments may have. -/
  number : ℕ → Prop
  /-- The store may be opened again.  No call has failed then. -/
  reopens : Prop

/-! ## Rows -/

/-- The numbers and the entries of a row of segments. -/
structure Row (max : ℕ) (full : List Seg) (act : Option Seg) : Prop where
  sorted : (full ++ act.toList).Pairwise fun s t => s.number < t.number
  numbered : ∀ s ∈ full, ∀ e ∈ s.entries, s.number < e.index + max
  fits : ∀ e ∈ logOf (full ++ act.toList), Fits e
  contiguous : Log.Contiguous (logOf (full ++ act.toList))

lemma mem_logOf {segs : List Seg} {e : Entry} : e ∈ logOf segs ↔ ∃ s ∈ segs, e ∈ s.entries :=
  List.mem_flatMap

/-- The entries behind the first `l` of a contiguous log come after them. -/
lemma lt_index_of_contiguous {l es : List Entry} (h : Log.Contiguous (l ++ es)) {e : Entry}
    (he : e ∈ es) : l.length < e.index := by
  obtain ⟨p, hp⟩ := List.mem_iff_getElem?.mp he
  have hidx := h (l.length + p) e (by rw [List.getElem?_append_right (by omega)]; simpa using hp)
  omega

lemma nodup_names_of_sorted {segs : List Seg} (h : segs.Pairwise fun s t => s.number < t.number) :
    (segs.map Seg.name).Nodup :=
  List.pairwise_map.mpr (h.imp fun hlt hname => hlt.ne (segmentName_injective hname))

namespace Row

variable {max : ℕ} {full : List Seg} {act : Option Seg} {a : Seg}

lemma empty (max : ℕ) : Row max [] none where
  sorted := .nil
  numbered s hs := by cases hs
  fits e he := by cases he
  contiguous := Log.contiguous_nil

lemma name_ne (h : Row max full (some a)) {s : Seg} (hs : s ∈ full) : s.name ≠ a.name := by
  intro hname
  have hlt := (List.pairwise_append.mp h.sorted).2.2 s hs a (List.mem_singleton_self a)
  exact hlt.ne (segmentName_injective hname)

lemma nodup_names (h : Row max full act) : ((full ++ act.toList).map Seg.name).Nodup :=
  nodup_names_of_sorted h.sorted

/-- The active segment is given other entries. -/
lemma put (h : Row max full (some a)) {es : List Entry} (hfits : ∀ e ∈ es, Fits e)
    (hc : Log.Contiguous (logOf full ++ es)) : Row max full (some ⟨a.number, es⟩) where
  sorted := by
    obtain ⟨hfull, -, hlt⟩ := List.pairwise_append.mp h.sorted
    refine List.pairwise_append.mpr ⟨hfull, List.pairwise_singleton _ _, fun s hs t ht => ?_⟩
    rw [List.mem_singleton.mp ht]
    exact hlt s hs a (List.mem_singleton_self a)
  numbered := h.numbered
  fits e he := by
    rw [Option.toList_some, logOf_append, logOf_singleton, List.mem_append] at he
    rcases he with he | he
    · exact h.fits e (by rw [logOf_append]; exact List.mem_append_left _ he)
    · exact hfits e he
  contiguous := by
    rw [Option.toList_some, logOf_append, logOf_singleton]
    exact hc

/-- The active segment becomes a full one. -/
lemma retire (h : Row max full (some a)) (hled : a.number ≤ (logOf full).length + max) :
    Row max (full ++ [a]) none where
  sorted := by
    rw [Option.toList_none, List.append_nil]
    exact h.sorted
  numbered s hs e he := by
    rcases List.mem_append.mp hs with hs | hs
    · exact h.numbered s hs e he
    · rw [List.mem_singleton.mp hs] at he ⊢
      have hc := h.contiguous
      rw [Option.toList_some, logOf_append, logOf_singleton] at hc
      have hlt := lt_index_of_contiguous hc he
      omega
  fits := by
    rw [Option.toList_none, List.append_nil]
    exact h.fits
  contiguous := by
    rw [Option.toList_none, List.append_nil]
    exact h.contiguous

/-- A new segment is begun. -/
lemma start (h : Row max full none) {n : ℕ} (hn : ∀ s ∈ full, s.number < n) :
    Row max full (some ⟨n, []⟩) where
  sorted := by
    have hfull := h.sorted
    rw [Option.toList_none, List.append_nil] at hfull
    refine List.pairwise_append.mpr ⟨hfull, List.pairwise_singleton _ _, fun s hs t ht => ?_⟩
    rw [List.mem_singleton.mp ht]
    exact hn s hs
  numbered := h.numbered
  fits e he := h.fits e (by simpa using he)
  contiguous := by simpa using h.contiguous

/-- A row without its last segment. -/
lemma forget (h : Row max full act) : Row max full none := by
  have hsub : full ++ (none : Option Seg).toList <+: full ++ act.toList :=
    (List.prefix_append_right_inj _).mpr List.nil_prefix
  refine ⟨h.sorted.sublist hsub.sublist, h.numbered, fun e he => ?_, ?_⟩
  · obtain ⟨s, hs, hes⟩ := mem_logOf.mp he
    exact h.fits e (mem_logOf.mpr ⟨s, hsub.subset hs, hes⟩)
  · have hc := h.contiguous.take (logOf full).length
    rwa [logOf_append, List.take_left, ← List.append_nil full] at hc

/-- What comes before a segment of a row was full. -/
lemma before_full {pre post : List Seg} {t : Seg} (hsplit : full ++ act.toList = pre ++ t :: post) :
    pre <+: full := by
  refine List.prefix_of_prefix_length_le (List.prefix_append pre (t :: post))
    (hsplit ▸ List.prefix_append full act.toList) ?_
  have hlen := congrArg List.length hsplit
  have hact : act.toList.length ≤ 1 := Option.length_toList_le
  simp only [List.length_append, List.length_cons] at hlen
  omega

/-- A row may end with any of its segments. -/
lemma upTo (h : Row max full act) {pre post : List Seg} {t : Seg}
    (hsplit : full ++ act.toList = pre ++ t :: post) : Row max pre (some t) := by
  have hsub : pre ++ [t] <+: full ++ act.toList :=
    ⟨post, by rw [hsplit, List.append_assoc]; rfl⟩
  refine ⟨h.sorted.sublist hsub.sublist, fun s hs => ?_, fun e he => ?_, ?_⟩
  · exact h.numbered s ((before_full hsplit).subset hs)
  · obtain ⟨s, hs, hes⟩ := mem_logOf.mp he
    exact h.fits e (mem_logOf.mpr ⟨s, hsub.subset hs, hes⟩)
  · obtain ⟨more, hmore⟩ := hsub
    have hc := h.contiguous
    rw [← hmore, logOf_append] at hc
    have htake := hc.take (logOf (pre ++ [t])).length
    rwa [List.take_left] at htake

/-- A row may end with the first entries of any of its segments. -/
lemma cut (h : Row max full act) {pre post : List Seg} {t : Seg}
    (hsplit : full ++ act.toList = pre ++ t :: post) (j : ℕ) :
    Row max pre (some ⟨t.number, t.entries.take j⟩) := by
  have hrow := h.upTo hsplit
  have hc := hrow.contiguous
  rw [Option.toList_some, logOf_append, logOf_singleton] at hc
  refine hrow.put (fun e he => hrow.fits e ?_) ?_
  · exact mem_logOf.mpr ⟨t, by simp, List.mem_of_mem_take he⟩
  · have htake := hc.take ((logOf pre).length + j)
    rwa [List.take_length_add_append] at htake

end Row

/-! ## On the disk -/

/-- A segment file outside of the row: there is none, or it was emptied. -/
structure Idle (σ : Setting) (s : Slot) : Prop where
  content : s.content = none ∨ s.content = some segHeader
  within : s.Within [] segHeader
  settled : σ.reopens → s = {} ∨ s = .solid segHeader

/-- The name of the active segment is not too far ahead, or nothing comes after it. -/
def Led (σ : Setting) (d : Disk) (full : List Seg) (a : Seg) : Prop :=
  a.number ≤ (logOf full).length + σ.max ∨
    σ.reopens ∧ ∀ m, d.slot (segmentName m) ≠ {} → m ≤ a.number

/-- The files of a row of segments, apart from that of the active one.  Nothing is said of the
files `doomed`. -/
structure Around (σ : Setting) (doomed : List String) (d : Disk) (full : List Seg)
    (act : Option Seg) : Prop where
  solid : ∀ s ∈ full, d.slot s.name = .solid s.bytes
  idle : ∀ n, isSegment n → n ∉ doomed → (∀ s ∈ full ++ act.toList, n ≠ s.name) →
    Idle σ (d.slot n)
  named : ∀ n, isSegment n → d.slot n ≠ {} → ∃ m, σ.number m ∧ n = segmentName m
  led : ∀ a ∈ act, Led σ d full a

/-- A row of segments on a disk. -/
structure OnDisk (σ : Setting) (d : Disk) (full : List Seg) (act : Option Seg) : Prop
    extends Around σ [] d full act where
  row : Row σ.max full act
  file : ∀ a ∈ act, ∃ f, d.slot a.name = { current := some f } ∧ f.bytes = a.bytes
  clear : act = none → ∀ s ∈ full, s.number ≤ (logOf full).length

section

variable {σ : Setting} {d d' : Disk} {full : List Seg} {act : Option Seg} {a : Seg}

lemma idle_empty (σ : Setting) : Idle σ {} where
  content := .inl rfl
  within := Slot.within_empty _
  settled _ := .inl rfl

/-- A segment with a header only. -/
lemma idle_file {f : File} (hf : f.bytes = segHeader)
    (hs : σ.reopens → ({ current := some f } : Slot) = .solid segHeader) :
    Idle σ { current := some f } where
  content := .inr (congrArg some hf)
  within := Slot.within_file List.nil_prefix (hf ▸ List.prefix_refl _)
  settled h := .inr (hs h)

lemma Idle.settle {s : Slot} (h : Idle σ s) : Idle σ s.settle where
  content := h.content
  within := h.within.settle
  settled hr := by
    rcases h.settled hr with rfl | rfl
    · exact .inl rfl
    · exact .inr rfl

/-- The active segment is changed, and stays where it is. -/
lemma Around.put {doomed : List String} (h : Around σ doomed d full (some a))
    (hrow : Row σ.max full (some a)) (hne : d.slot a.name ≠ {}) (s : Slot) (es : List Entry) :
    Around σ doomed (d.set a.name s) full (some ⟨a.number, es⟩) where
  solid t ht := by
    rw [Disk.slot_set_of_ne (hrow.name_ne ht)]
    exact h.solid t ht
  idle n hn hd hrest := by
    have hna : n ≠ a.name := hrest ⟨a.number, es⟩ (by simp)
    rw [Disk.slot_set_of_ne hna]
    refine h.idle n hn hd fun t ht => ?_
    rcases List.mem_append.mp ht with ht | ht
    · exact hrest t (List.mem_append_left _ ht)
    · rw [List.mem_singleton.mp ht]
      exact hna
  named n hn hn' := by
    by_cases hna : n = a.name
    · exact h.named n hn (hna ▸ hne)
    · rw [Disk.slot_set_of_ne hna] at hn'
      exact h.named n hn hn'
  led b hb := by
    obtain rfl := Option.mem_some.mp hb
    refine (h.led a rfl).imp_right fun hled => ⟨hled.1, fun m hm => ?_⟩
    by_cases hna : segmentName m = a.name
    · exact (segmentName_injective hna).le
    · rw [Disk.slot_set_of_ne hna] at hm
      exact hled.2 m hm

namespace OnDisk

lemma exists_file (h : OnDisk σ d full act) {s : Seg} (hs : s ∈ full ++ act.toList) :
    ∃ f, d.slot s.name = { current := some f } ∧ f.bytes = s.bytes := by
  rcases List.mem_append.mp hs with hs | hs
  · exact ⟨_, h.solid s hs, List.append_nil _⟩
  · exact h.file s (Option.mem_toList.mp hs)

lemma slot_ne (h : OnDisk σ d full act) {s : Seg} (hs : s ∈ full ++ act.toList) :
    d.slot s.name ≠ {} := by
  obtain ⟨f, hf, -⟩ := h.exists_file hs
  rw [hf]
  exact fun heq => by cases heq

lemma content_eq (h : OnDisk σ d full act) {s : Seg} (hs : s ∈ full ++ act.toList) :
    d.content s.name = some s.bytes := by
  obtain ⟨f, hf, hb⟩ := h.exists_file hs
  rw [Disk.content, hf]
  exact congrArg some hb

/-- The file of the active segment is given other contents. -/
lemma put (h : OnDisk σ d full (some a)) {f : File} {es : List Entry}
    (hrow : Row σ.max full (some ⟨a.number, es⟩)) (hf : f.bytes = segBytes es) :
    OnDisk σ (d.set a.name { current := some f }) full (some ⟨a.number, es⟩) where
  toAround := h.toAround.put h.row (h.slot_ne (by simp)) _ _
  row := hrow
  file b hb := by
    obtain rfl := Option.mem_some.mp hb
    exact ⟨f, Disk.slot_set_self _ _ _, hf⟩
  clear hnone := by cases hnone

/-- The active segment is full and made durable. -/
lemma retire (h : OnDisk σ d full (some a)) (hsolid : d.slot a.name = .solid a.bytes)
    (hlen : σ.max ≤ a.entries.length) (hled : a.number ≤ (logOf full).length + σ.max) :
    OnDisk σ d (full ++ [a]) none where
  row := h.row.retire hled
  solid s hs := by
    rcases List.mem_append.mp hs with hs | hs
    · exact h.solid s hs
    · rw [List.mem_singleton.mp hs]
      exact hsolid
  file b hb := by cases hb
  idle n hn hd hrest := h.idle n hn hd fun s hs => hrest s (List.mem_append_left _ hs)
  named := h.named
  led b hb := by cases hb
  clear _ s hs := by
    rw [logOf_append, logOf_singleton, List.length_append]
    rcases List.mem_append.mp hs with hs | hs
    · have hlt := (List.pairwise_append.mp h.row.sorted).2.2 s hs a (List.mem_singleton_self a)
      omega
    · rw [List.mem_singleton.mp hs]
      omega

/-- A new segment is begun, and the directory synced. -/
lemma start (h : OnDisk σ d full none) {n : ℕ} (hn : n = (logOf full).length + 1)
    (hnum : σ.number n) {f : File} (hf : f.bytes = segHeader)
    (hnew : d'.slot (segmentName n) = { current := some f })
    (hother : ∀ m, m ≠ segmentName n → d'.slot m = (d.slot m).settle) :
    OnDisk σ d' full (some ⟨n, []⟩) := by
  have hlt : ∀ s ∈ full, s.number < n := fun s hs => by
    have hle := h.clear rfl s hs
    omega
  have hrow := h.row.start hlt
  refine ⟨⟨fun s hs => ?_, fun m hm hd hrest => ?_, fun m hm hne => ?_, fun b hb => ?_⟩, hrow,
    fun b hb => ?_, fun hnone => by cases hnone⟩
  · rw [hother _ (hrow.name_ne hs), h.solid s hs]
    rfl
  · rw [hother m (hrest ⟨n, []⟩ (by simp))]
    exact (h.idle m hm hd fun s hs => hrest s (by simpa using .inl (by simpa using hs))).settle
  · by_cases hname : m = segmentName n
    · exact ⟨n, hnum, hname⟩
    · rw [hother m hname] at hne
      exact h.named m hm fun heq => hne (by rw [heq]; rfl)
  · obtain rfl := Option.mem_some.mp hb
    refine .inl ?_
    have hpos := σ.pos
    show n ≤ (logOf full).length + σ.max
    omega
  · obtain rfl := Option.mem_some.mp hb
    exact ⟨f, hnew, hf⟩

end OnDisk

/-! ## When the process dies -/

/-- What a segment with the entries `es` keeps if its first `k` entries are durable.  With none
of them, not even the header needs to be. -/
def kept (k : ℕ) (es : List Entry) : Bytes := if k = 0 then [] else segBytes (es.take k)

/-- The entries `l` are durable. -/
def Safe (d : Disk) (full : List Seg) (act : Option Seg) (l : List Entry) : Prop :=
  ∃ k ≤ (logOf act.toList).length,
    (∀ a ∈ act, ∃ f, d.slot a.name = { current := some f } ∧ kept k a.entries <+: f.durable) ∧
    l <+: logOf full ++ (logOf act.toList).take k

/-- A row of segments of which the last may lose all but its first `k` entries.  Nothing is said
of the files `doomed`. -/
structure Fallen (σ : Setting) (doomed : List String) (d : Disk) (full : List Seg)
    (tail : Option Seg) (k : ℕ) : Prop where
  row : Row σ.max full tail
  le : k ≤ (logOf tail.toList).length
  solid : ∀ s ∈ full, d.slot s.name = .solid s.bytes
  last : ∀ t ∈ tail, (d.slot t.name).Within (kept k t.entries) t.bytes
  idle : ∀ n, isSegment n → n ∉ doomed → (∀ s ∈ full ++ tail.toList, n ≠ s.name) →
    (d.slot n).Within [] segHeader
  named : ∀ n, isSegment n → d.slot n ≠ {} → ∃ m, σ.number m ∧ n = segmentName m
  led : ∀ t ∈ tail, Led σ d full t

/-- What a crash leaves of the log is between `lo` and `hi`. -/
def Wreck (σ : Setting) (doomed : List String) (d : Disk) (lo hi : List Entry) : Prop :=
  ∃ full tail k, Fallen σ doomed d full tail k ∧
    lo <+: logOf full ++ (logOf tail.toList).take k ∧ logOf (full ++ tail.toList) <+: hi

lemma Wreck.mono {doomed : List String} {lo lo' hi hi' : List Entry} (h : Wreck σ doomed d lo hi)
    (hlo : lo' <+: lo) (hhi : hi <+: hi') : Wreck σ doomed d lo' hi' := by
  obtain ⟨full, tail, k, hfall, hlo₁, hhi₁⟩ := h
  exact ⟨full, tail, k, hfall, hlo.trans hlo₁, hhi₁.trans hhi⟩

lemma Around.fallen {doomed : List String} (h : Around σ doomed d full act)
    (hrow : Row σ.max full act) {k : ℕ} (hk : k ≤ (logOf act.toList).length)
    (hlast : ∀ a ∈ act, (d.slot a.name).Within (kept k a.entries) a.bytes) :
    Fallen σ doomed d full act k where
  row := hrow
  le := hk
  solid := h.solid
  last := hlast
  idle n hn hd hrest := (h.idle n hn hd hrest).within
  named := h.named
  led := h.led

lemma OnDisk.wreck (h : OnDisk σ d full act) {lo hi : List Entry} (hs : Safe d full act lo)
    (hhi : logOf (full ++ act.toList) <+: hi) : Wreck σ [] d lo hi := by
  obtain ⟨k, hk, hfile, hlo⟩ := hs
  refine ⟨full, act, k, h.toAround.fallen h.row hk fun a ha => ?_, hlo, hhi⟩
  obtain ⟨f, hf, hdur⟩ := hfile a ha
  obtain ⟨g, hg, hb⟩ := h.file a ha
  obtain rfl : f = g := by
    rw [hf] at hg
    cases hg
    rfl
  rw [hf]
  exact Slot.within_file hdur (hb ▸ List.prefix_refl _)

/-- A new segment is being created. -/
lemma OnDisk.wreck_create (h : OnDisk σ d full none) {n : ℕ} (hn : n = (logOf full).length + 1)
    (hnum : σ.number n) (hnew : (d'.slot (segmentName n)).Within [] segHeader)
    (hother : ∀ m, m ≠ segmentName n → d'.slot m = d.slot m) {lo hi : List Entry}
    (hlo : lo <+: logOf full) (hhi : logOf full <+: hi) : Wreck σ [] d' lo hi := by
  have hne : ∀ s ∈ full, s.name ≠ segmentName n := fun s hs hname => by
    have hle := h.clear rfl s hs
    have heq := segmentName_injective hname
    omega
  refine ⟨full, none, 0, ⟨h.row, Nat.zero_le _, fun s hs => ?_, fun t ht => (by cases ht),
    fun m hm hd hrest => ?_, fun m hm hm' => ?_, fun t ht => (by cases ht)⟩, by simpa using hlo,
    by simpa using hhi⟩
  · rw [hother _ (hne s hs)]
    exact h.solid s hs
  · by_cases hname : m = segmentName n
    · rw [hname]
      exact hnew
    · rw [hother m hname]
      exact (h.idle m hm hd hrest).within
  · by_cases hname : m = segmentName n
    · exact ⟨n, hnum, hname⟩
    · rw [hother m hname] at hm'
      exact h.named m hm hm'

end

end FileStore

end ToyRaft
