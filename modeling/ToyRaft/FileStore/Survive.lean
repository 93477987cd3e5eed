import ToyRaft.FileStore.Recover

/-!
# From one session to the next

A log that lies on the disk in a row of segments, with nothing but emptied segments beside it
(`Legible`), is what `recover` finds: the segments come in the order of their names, and emptied
ones add nothing.  If all of it is durable (`Survivors`) it can be recovered, and the process
may die while it is.  `Session.recoverable` says so of a store that is closed, and
`Wreck.recoverable` of one whose process died, for what is left of its log.
-/

namespace ToyRaft

namespace FileStore

/-- A row of segments, of which the last may end with a torn record, beside segments with a
header only. -/
structure Legible (σ : Setting) (d : Disk) (full : List Seg) (tail : Option Seg) (t : Bytes) :
    Prop where
  row : Row σ.max full tail
  content : ∀ s ∈ full, d.content s.name = some s.bytes
  last : ∀ a ∈ tail, d.content a.name = some (a.bytes ++ t)
  torn : Torn t
  idle : ∀ n, isSegment n → (∀ s ∈ full ++ tail.toList, n ≠ s.name) →
    d.content n = none ∨ d.content n = some segHeader
  named : ∀ n, isSegment n → d.content n ≠ none → ∃ m, σ.number m ∧ n = segmentName m

/-- The segment files in the order in which they are found: those of the row, and others that
hold no entry. -/
structure InOrder (σ : Setting) (d : Disk) (row segs : List Seg) : Prop where
  names : segs.map Seg.name = d.readDir.filter isSegment
  number : ∀ s ∈ segs, σ.number s.number
  kind : ∀ s ∈ segs, s ∈ row ∨ s.entries = [] ∧ ∀ u ∈ row, s.name ≠ u.name

/-- What comes after the records of a segment, when only the last one of the row is torn. -/
def tornTail (tail : Option Seg) (t : Bytes) (s : Seg) : Bytes := if tail = some s then t else []

lemma exists_segs {P : Seg → Prop} {names : List String} (h : ∀ n ∈ names, ∃ s, P s ∧ s.name = n) :
    ∃ segs : List Seg, segs.map Seg.name = names ∧ ∀ s ∈ segs, P s := by
  induction names with
  | nil => exact ⟨[], rfl, fun s hs => by cases hs⟩
  | cons n names ih =>
      obtain ⟨s, hs, rfl⟩ := h n List.mem_cons_self
      obtain ⟨segs, rfl, hsegs⟩ := ih fun m hm => h m (List.mem_cons_of_mem _ hm)
      exact ⟨s :: segs, rfl, List.forall_mem_cons.mpr ⟨hs, hsegs⟩⟩

/-- Names in order come from numbers in order. -/
lemma sorted_of_names {segs : List Seg} (hsmall : ∀ s ∈ segs, s.number < 10 ^ 16)
    (h : (segs.map Seg.name).Pairwise (· < ·)) :
    segs.Pairwise fun s t => s.number < t.number := by
  refine (List.pairwise_map.mp h).imp_of_mem fun {s t} hs ht hlt => ?_
  rcases lt_trichotomy s.number t.number with hnum | hnum | hnum
  · exact hnum
  · exact (hlt.ne (congrArg segmentName hnum)).elim
  · exact (lt_asymm hlt (segmentName_lt (hsmall s hs) hnum)).elim

section

variable {σ : Setting} {d : Disk} {full segs : List Seg} {tail : Option Seg} {t : Bytes}

lemma mem_readDir_filter {n : String} :
    n ∈ d.readDir.filter isSegment ↔ isSegment n ∧ d.content n ≠ none := by
  rw [List.mem_filter, Disk.mem_readDir, and_comm, Disk.content, Slot.content, ne_eq, ne_eq,
    Option.map_eq_none_iff]

lemma InOrder.sorted (hsmall : ∀ n, σ.number n → n < 10 ^ 16) {row : List Seg}
    (h : InOrder σ d row segs) : segs.Pairwise fun s t => s.number < t.number := by
  refine sorted_of_names (fun s hs => hsmall _ (h.number s hs)) ?_
  rw [h.names]
  exact d.readDir_sorted.filter _

namespace Legible

lemma exists_inOrder (h : Legible σ d full tail t) :
    ∃ segs, InOrder σ d (full ++ tail.toList) segs := by
  have hall : ∀ n ∈ d.readDir.filter isSegment, ∃ s : Seg, (σ.number s.number ∧
      (s ∈ full ++ tail.toList ∨
        s.entries = [] ∧ ∀ u ∈ full ++ tail.toList, s.name ≠ u.name)) ∧ s.name = n := by
    intro n hn
    obtain ⟨hseg, hc⟩ := mem_readDir_filter.mp hn
    obtain ⟨m, hm, rfl⟩ := h.named n hseg hc
    by_cases hrow : ∃ u ∈ full ++ tail.toList, u.name = segmentName m
    · obtain ⟨u, hu, hname⟩ := hrow
      refine ⟨u, ⟨?_, .inl hu⟩, hname⟩
      rw [segmentName_injective hname]
      exact hm
    · push Not at hrow
      exact ⟨⟨m, []⟩, ⟨hm, .inr ⟨rfl, fun u hu => (hrow u hu).symm⟩⟩, rfl⟩
  obtain ⟨segs, hnames, hsegs⟩ := exists_segs hall
  exact ⟨segs, hnames, fun s hs => (hsegs s hs).1, fun s hs => (hsegs s hs).2⟩

/-- The segments of the row are found. -/
lemma mem_of_mem_row (h : Legible σ d full tail t) (ho : InOrder σ d (full ++ tail.toList) segs)
    {s : Seg} (hs : s ∈ full ++ tail.toList) : s ∈ segs := by
  have hc : d.content s.name ≠ none := by
    rcases List.mem_append.mp hs with hs | hs
    · rw [h.content s hs]
      exact Option.some_ne_none _
    · rw [h.last s (Option.mem_toList.mp hs)]
      exact Option.some_ne_none _
  have hmem : s.name ∈ segs.map Seg.name := by
    rw [ho.names]
    exact mem_readDir_filter.mpr ⟨isSegment_name s, hc⟩
  obtain ⟨u, hu, hname⟩ := List.mem_map.mp hmem
  rcases ho.kind u hu with hrow | ⟨-, hne⟩
  · rwa [List.inj_on_of_nodup_map h.row.nodup_names hs hrow hname.symm]
  · exact (hne s hs hname).elim

/-- Emptied segments add nothing to the log. -/
lemma logOf_eq (hsmall : ∀ n, σ.number n → n < 10 ^ 16) (h : Legible σ d full tail t)
    (ho : InOrder σ d (full ++ tail.toList) segs) : logOf segs = logOf (full ++ tail.toList) := by
  have hsame : nonempty segs = nonempty (full ++ tail.toList) := by
    refine ((ho.sorted hsmall).filter _).eq_of_mem_iff (h.row.sorted.filter _) fun s => ?_
    refine mem_nonempty.trans (Iff.trans ?_ mem_nonempty.symm)
    refine ⟨fun ⟨hs, hne⟩ => ⟨?_, hne⟩, fun ⟨hs, hne⟩ => ⟨h.mem_of_mem_row ho hs, hne⟩⟩
    exact (ho.kind s hs).resolve_right fun hnil => hne hnil.1
  rw [← logOf_nonempty segs, hsame, logOf_nonempty]

lemma tornTail_full (h : Legible σ d full tail t) {s : Seg} (hs : s ∈ full) :
    tornTail tail t s = [] := by
  refine if_neg fun htail => ?_
  subst htail
  exact h.row.name_ne hs rfl

/-- What `recover` finds. -/
lemma found (hsmall : ∀ n, σ.number n → n < 10 ^ 16) (h : Legible σ d full tail t)
    (ho : InOrder σ d (full ++ tail.toList) segs) : Found d segs (tornTail tail t) where
  sorted := ho.sorted hsmall
  small s hs := hsmall _ (ho.number s hs)
  fits s hs e he := by
    rcases ho.kind s hs with hrow | ⟨hnil, -⟩
    · exact h.row.fits e (mem_logOf.mpr ⟨s, hrow, he⟩)
    · rw [hnil] at he
      cases he
  tail s _ := by
    rw [tornTail]
    split_ifs
    · exact h.torn
    · exact torn_nil
  content s hs := by
    rcases ho.kind s hs with hrow | ⟨hnil, hne⟩
    · rcases List.mem_append.mp hrow with hfull | hlast
      · rw [h.tornTail_full hfull, List.append_nil]
        exact h.content s hfull
      · have htail : tail = some s := Option.mem_toList.mp hlast
        rw [tornTail, if_pos htail]
        exact h.last s htail
    · have hmem : s.name ∈ d.readDir.filter isSegment := by
        rw [← ho.names]
        exact List.mem_map_of_mem hs
      have hnotTail : tornTail tail t s = [] := by
        refine if_neg fun htail => hne s ?_ rfl
        rw [htail]
        simp
      rw [hnotTail, List.append_nil, Seg.bytes, hnil]
      exact (h.idle s.name (isSegment_name s) hne).resolve_left (mem_readDir_filter.mp hmem).2
  covers n hn hc := by
    have hmem : n ∈ segs.map Seg.name := by
      rw [ho.names]
      exact mem_readDir_filter.mpr ⟨hn, hc⟩
    obtain ⟨s, hs, rfl⟩ := List.mem_map.mp hmem
    exact ⟨s, hs, rfl⟩

end Legible

/-- A row of segments that are all durable. -/
structure Survivors (σ : Setting) (d : Disk) (full : List Seg) (tail : Option Seg) (t : Bytes) :
    Prop extends Legible σ d full tail t where
  settled : ∀ n, isSegment n → d.slot n = {} ∨ ∃ b, d.slot n = .solid b
  led : ∀ a ∈ tail, Led σ d full a

/-- A name whose content is durable. -/
lemma Survivors.slot_eq (h : Survivors σ d full tail t) {n : String} (hn : isSegment n) {b : Bytes}
    (hc : d.content n = some b) : d.slot n = .solid b := by
  rcases h.settled n hn with hslot | ⟨b', hslot⟩
  · rw [Disk.content, hslot] at hc
    cases hc
  · rw [Disk.content, hslot] at hc
    rw [hslot, ← Option.some.inj hc]
    exact congrArg Slot.solid (List.append_nil b').symm

/-- The segments that are not the last by name are numbered less than a segment's length ahead. -/
lemma Survivors.numbered (hsmall : ∀ n, σ.number n → n < 10 ^ 16)
    (h : Survivors σ d full tail t) (ho : InOrder σ d (full ++ tail.toList) segs) {s : Seg}
    (hs : s ∈ segs.dropLast) {e : Entry} (he : e ∈ s.entries) : s.number < e.index + σ.max := by
  have hrow : s ∈ full ++ tail.toList :=
    (ho.kind s (List.dropLast_subset _ hs)).resolve_right fun hnil => by
      rw [hnil.1] at he
      cases he
  rcases List.mem_append.mp hrow with hfull | hlast
  · exact h.row.numbered s hfull e he
  · have htail : tail = some s := Option.mem_toList.mp hlast
    rcases h.led s htail with hle | ⟨-, htop⟩
    · have hc := h.row.contiguous
      rw [htail, Option.toList_some, logOf_append, logOf_singleton] at hc
      have hlt := lt_index_of_contiguous hc he
      omega
    · -- the last one by name comes after it
      rcases List.eq_nil_or_concat segs with rfl | ⟨init, b, rfl⟩
      · cases hs
      · have hfound := h.toLegible.found hsmall ho
        rw [List.concat_eq_append] at hfound hs
        rw [List.dropLast_concat] at hs
        have hlt := (List.pairwise_append.mp hfound.sorted).2.2 s hs b (List.mem_singleton_self b)
        have hle := htop b.number fun heq => by
          have hc := hfound.content b (by simp)
          rw [Disk.content, show d.slot b.name = {} from heq] at hc
          cases hc
        omega

/-- What is durable can be recovered. -/
lemma Survivors.recoverable (hsmall : ∀ n, σ.number n → n < 10 ^ 16)
    (h : Survivors σ d full tail t) : Recoverable σ d (logOf (full ++ tail.toList)) := by
  obtain ⟨segs, ho⟩ := h.toLegible.exists_inOrder
  have hfound := h.toLegible.found hsmall ho
  have hlog := h.toLegible.logOf_eq hsmall ho
  refine ⟨segs, tornTail tail t, ⟨hfound, fun s hs => h.slot_eq (isSegment_name s)
    (hfound.content s hs), fun n hn hrest => ?_, ho.number,
    fun s hs e he => h.numbered hsmall ho hs he, ?_⟩, hlog⟩
  · rcases h.settled n hn with hslot | ⟨b, hslot⟩
    · exact hslot
    · obtain ⟨s, hs, rfl⟩ := hfound.covers n hn (by
        rw [Disk.content, hslot]
        exact Option.some_ne_none _)
      exact (hrest s hs rfl).elim
  · rw [hlog]
    exact h.row.contiguous

/-! ## A store that is closed -/

variable {act : Option Seg}

lemma OnDisk.legible (h : OnDisk σ d full act) : Legible σ d full act [] where
  row := h.row
  content s hs := h.content_eq (List.mem_append_left _ hs)
  last a ha := by
    rw [List.append_nil]
    exact h.content_eq (List.mem_append_right _ (Option.mem_toList.mpr ha))
  torn := torn_nil
  idle n hn hrest := (h.idle n hn List.not_mem_nil hrest).content
  named n hn hc := h.named n hn fun heq => hc (by rw [Disk.content, heq]; rfl)

/-- A log that is durable can be recovered. -/
lemma OnDisk.recoverable (hsmall : ∀ n, σ.number n → n < 10 ^ 16) (hr : σ.reopens)
    (h : OnDisk σ d full act) (hact : ∀ a ∈ act, d.slot a.name = .solid a.bytes) :
    Recoverable σ d (logOf (full ++ act.toList)) := by
  refine Survivors.recoverable hsmall (t := []) ⟨h.legible, fun n hn => ?_, h.led⟩
  by_cases hmem : ∃ s ∈ full ++ act.toList, n = s.name
  · obtain ⟨s, hs, rfl⟩ := hmem
    rcases List.mem_append.mp hs with hs | hs
    · exact .inr ⟨_, h.solid s hs⟩
    · exact .inr ⟨_, hact s (Option.mem_toList.mp hs)⟩
  · push Not at hmem
    exact ((h.idle n hn List.not_mem_nil hmem).settled hr).imp_right fun hslot => ⟨_, hslot⟩

/-- `Close` makes the active segment durable. -/
lemma Layout.wp_close {F : Fate → Prop} {Q : Unit → Site FileStore → Prop}
    {E : FileError → Site FileStore → Prop} {R : Site FileStore → Prop} {w : Site FileStore}
    (hF : Faultless F) (h : Layout σ w full act)
    (hQ : ∀ w', OnDisk σ w'.disk full act → (∀ a ∈ act, w'.disk.slot a.name = .solid a.bytes) →
      Q () w')
    (hR : F .die → ∀ d r, OnDisk σ d full act → R { disk := d, ram := r }) :
    close.wp F Q E R w := by
  refine Prog.wp_bind (Vfs.wp_ram ?_)
  rw [h.ram.activeFile]
  cases act with
  | none => exact Prog.wp_pure (hQ w h.disk fun a ha => by cases ha)
  | some a =>
      obtain ⟨f, hf, hb⟩ := h.disk.file a rfl
      have hput := h.disk.put (f := f.sync) h.disk.row (by rw [File.bytes_sync, hb]; rfl)
      simp only [Option.map_some, Seg.on_handle]
      refine Prog.wp_bind (Prog.wp_attempt (Vfs.wp_onFile (x := f) hF (congrArg Slot.current hf) ?_
        fun hd => hR hd _ _ h.disk))
      rw [hf]
      refine Prog.wp_bind (Prog.wp_attempt (wp_closeActive hF rfl (fun _ => ?_)
        fun hd _ => hR hd _ _ hput))
      refine Prog.wp_bind (Vfs.wp_setRam (Prog.wp_pure (hQ _ hput fun b hb' => ?_)))
      obtain rfl := Option.mem_some.mp hb'
      rw [Site.disk_set, Disk.slot_set_self, File.sync, hb]
      rfl

/-! ## A store whose process died -/

/-- Every segment file has a whole header. -/
def Headed (d : Disk) : Prop :=
  ∀ n ∈ d.readDir, isSegment n → segHeaderLen ≤ ((d.content n).getD []).length

instance (d : Disk) : Decidable (Headed d) := inferInstanceAs (Decidable (∀ n ∈ d.readDir, _))

lemma Headed.length_le (h : Headed d) {n : String} (hn : isSegment n) {b : Bytes}
    (hslot : d.slot n = .solid b) : segHeaderLen ≤ b.length := by
  have hc : d.content n = some b := by
    rw [Disk.content, hslot]
    exact congrArg some (List.append_nil _)
  have hle := h n (List.mem_filter.mp (mem_readDir_filter.mpr ⟨hn, by rw [hc]; simp⟩)).1 hn
  rwa [hc] at hle

/-- The last segment after a crash: it is gone, or has kept at least its first `k` entries. -/
lemma exists_kept {s : Seg} {k : ℕ} (hfits : ∀ e ∈ s.entries, Fits e) (hk : k ≤ s.entries.length)
    {b : Bytes} (hlo : kept k s.entries <+: b) (hhi : b <+: s.bytes)
    (hlen : segHeaderLen ≤ b.length) :
    ∃ j, k ≤ j ∧ j ≤ s.entries.length ∧ ∃ t, Torn t ∧ b = segBytes (s.entries.take j) ++ t := by
  refine exists_torn_of_between hfits hk ?_ hhi
  rw [kept] at hlo
  split_ifs at hlo with hzero
  · subst hzero
    have hheader : segHeader <+: s.bytes := List.prefix_append _ _
    exact List.prefix_of_prefix_length_le hheader hhi hlen
  · exact hlo

namespace Fallen

variable {doomed : List String} {k : ℕ} {loss : String → ℕ × ℕ}

/-- The files beside the row after a crash. -/
lemma crash_idle (h : Fallen σ doomed d full tail k) (hheaded : Headed (d.crash loss))
    (hdoomed : ∀ n ∈ doomed, (d.crash loss).content n = none) {n : String} (hn : isSegment n)
    (hrest : ∀ s ∈ full ++ tail.toList, n ≠ s.name) :
    (d.crash loss).content n = none ∨ (d.crash loss).content n = some segHeader := by
  by_cases hd : n ∈ doomed
  · exact .inl (hdoomed n hd)
  · rcases (h.idle n hn hd hrest).crash (loss n).1 (loss n).2 with ⟨hgone, -⟩ | ⟨b, hb, -, hle⟩
    · exact .inl (by rw [Disk.content, Disk.slot_crash, hgone]; rfl)
    · have hlen := hheaded.length_le hn hb
      obtain rfl : b = segHeader := hle.eq_of_length_le hlen
      exact .inr (by rw [Disk.content, Disk.slot_crash, hb]; rfl)

/-- A row that survives a crash. -/
lemma survivors (h : Fallen σ doomed d full tail k) (hheaded : Headed (d.crash loss))
    (hdoomed : ∀ n ∈ doomed, (d.crash loss).content n = none) {tail' : Option Seg} {t : Bytes}
    (hrow : Row σ.max full tail') (ht : Torn t)
    (hlast : ∀ a ∈ tail', (d.crash loss).slot a.name = .solid (a.bytes ++ t))
    (hgone : ∀ s ∈ tail, (∀ a ∈ tail', s.name ≠ a.name) → (d.crash loss).slot s.name = {})
    (hsame : ∀ a ∈ tail', ∃ s ∈ tail, a.number = s.number) :
    Survivors σ (d.crash loss) full tail' t := by
  refine ⟨⟨hrow, fun s hs => ?_, fun a ha => ?_, ht, fun n hn hrest => ?_, fun n hn hc => ?_⟩,
    fun n _ => (d.slot n).crash_eq _ _, fun a ha => ?_⟩
  · rw [Disk.content, Disk.slot_crash, h.solid s hs, Slot.crash_solid]
    exact congrArg some (List.append_nil _)
  · rw [Disk.content, hlast a ha]
    exact congrArg some (List.append_nil _)
  · by_cases htail : ∃ s ∈ tail, n = s.name
    · obtain ⟨s, hs, rfl⟩ := htail
      left
      rw [Disk.content, hgone s hs fun a ha =>
        hrest a (List.mem_append_right _ (Option.mem_toList.mpr ha))]
      rfl
    · push Not at htail
      refine h.crash_idle hheaded hdoomed hn fun s hs => ?_
      rcases List.mem_append.mp hs with hs | hs
      · exact hrest s (List.mem_append_left _ hs)
      · exact htail s (Option.mem_toList.mp hs)
  · exact h.named n hn (Disk.slot_ne_of_crash fun heq => hc (by rw [Disk.content, heq]; rfl))
  · obtain ⟨s, hs, hnum⟩ := hsame a ha
    have hled := h.led s hs
    rw [Led, ← hnum] at hled
    exact hled.imp_right fun hled => ⟨hled.1, fun m hm => hled.2 m (Disk.slot_ne_of_crash hm)⟩

end Fallen

/-- What is left of a log whose process died is recovered. -/
lemma Wreck.recoverable (hsmall : ∀ n, σ.number n → n < 10 ^ 16) {doomed : List String}
    {lo hi : List Entry} (h : Wreck σ doomed d lo hi) (loss : String → ℕ × ℕ)
    (hheaded : Headed (d.crash loss))
    (hdoomed : ∀ n ∈ doomed, (d.crash loss).content n = none) :
    ∃ l, lo <+: l ∧ l <+: hi ∧ Recoverable σ (d.crash loss) l := by
  obtain ⟨full, tail, k, hfall, hlo, hhi⟩ := h
  rw [logOf_append] at hhi
  -- the last segment is gone
  have hlost : (logOf tail.toList).take k = [] →
      (∀ s ∈ tail, (d.crash loss).slot s.name = {}) →
      ∃ l, lo <+: l ∧ l <+: hi ∧ Recoverable σ (d.crash loss) l := by
    intro hk hgone
    have hs : Survivors σ (d.crash loss) full none [] :=
      hfall.survivors hheaded hdoomed hfall.row.forget torn_nil (fun a ha => by cases ha)
        (fun s hs _ => hgone s hs) (fun a ha => by cases ha)
    refine ⟨_, ?_, ?_, hs.recoverable hsmall⟩ <;> rw [Option.toList_none, List.append_nil]
    · rwa [hk, List.append_nil] at hlo
    · exact (List.prefix_append _ _).trans hhi
  cases tail with
  | none => exact hlost (by simp [logOf]) fun s hs => by cases hs
  | some s =>
      have hk := hfall.le
      rw [Option.toList_some, logOf_singleton] at hlo hhi hk
      rcases (hfall.last s rfl).crash (loss s.name).1 (loss s.name).2 with
        ⟨hgone, hkept⟩ | ⟨b, hb, hb₁, hb₂⟩
      · refine hlost ?_ fun u hu => ?_
        · have hzero : k = 0 := by
            by_contra hne
            rw [kept, if_neg hne] at hkept
            cases hkept
          rw [hzero, List.take_zero]
        · obtain rfl := Option.mem_some.mp hu
          exact hgone
      · have hfits : ∀ e ∈ s.entries, Fits e := fun e he =>
          hfall.row.fits e (mem_logOf.mpr ⟨s, by simp, he⟩)
        obtain ⟨j, hkj, hj, t, ht, rfl⟩ := exists_kept hfits hk hb₁ hb₂
          (hheaded.length_le (isSegment_name s) hb)
        have hs : Survivors σ (d.crash loss) full (some ⟨s.number, s.entries.take j⟩) t := by
          refine hfall.survivors hheaded hdoomed (hfall.row.cut rfl j) ht (fun a ha => ?_)
            (fun u hu hne => ?_) fun a ha => ⟨s, rfl, ?_⟩
          · obtain rfl := Option.mem_some.mp ha
            exact hb
          · obtain rfl := Option.mem_some.mp hu
            exact (hne _ rfl rfl).elim
          · obtain rfl := Option.mem_some.mp ha
            rfl
        refine ⟨_, ?_, ?_, hs.recoverable hsmall⟩ <;>
          rw [Option.toList_some, logOf_append, logOf_singleton]
        · refine hlo.trans ((List.prefix_append_right_inj _).mpr ?_)
          exact List.take_prefix_take_left hkj
        · exact ((List.prefix_append_right_inj _).mpr (List.take_prefix _ _)).trans hhi

/-- What can be recovered is durable. -/
lemma Recoverable.crash {l : List Entry} (h : Recoverable σ d l) (loss : String → ℕ × ℕ) :
    Recoverable σ (d.crash loss) l := by
  obtain ⟨segs, torn, hdebris, rfl⟩ := h
  refine ⟨segs, torn,
    hdebris.change (fun s hs => ⟨hdebris.tail s hs, ?_⟩) fun n hn hrest => ?_, rfl⟩
  · rw [Disk.slot_crash, hdebris.solid s hs, Slot.crash_solid]
  · rw [Disk.slot_crash, hdebris.gone n hn hrest, Slot.crash_empty]

end

end FileStore

end ToyRaft
