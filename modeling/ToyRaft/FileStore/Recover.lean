import ToyRaft.FileStore.Session

/-!
# Recovery (`openWith`, `recover`)

`Found` is a directory as `recover` finds it: every segment file holds the records of some
entries, and then less than one more record.  The files are read in the order of their names,
torn tails are cut off (`Repaired`), and the last file becomes the active segment.
`wp_openWith` is what comes of that, also when the process dies in the middle.
-/

namespace ToyRaft

namespace FileStore

/-- The segment files of a directory: what they hold, and what is left of one more record. -/
structure Found (d : Disk) (segs : List Seg) (torn : Seg → Bytes) : Prop where
  sorted : segs.Pairwise fun s t => s.number < t.number
  small : ∀ s ∈ segs, s.number < 10 ^ 16
  fits : ∀ s ∈ segs, ∀ e ∈ s.entries, Fits e
  tail : ∀ s ∈ segs, Torn (torn s)
  content : ∀ s ∈ segs, d.content s.name = some (s.bytes ++ torn s)
  covers : ∀ n, isSegment n → d.content n ≠ none → ∃ s ∈ segs, n = s.name

/-- Some of the torn tails are cut off. -/
def Repaired (segs : List Seg) (torn : Seg → Bytes) (d d' : Disk) : Prop :=
  ∀ n, isSegment n → d'.slot n = d.slot n ∨
    ∃ s ∈ segs, n = s.name ∧ torn s ≠ [] ∧ d'.slot n = .solid s.bytes

/-- The files with a torn tail are durable as they are, and so is the directory if there is
one. -/
structure Mendable (d : Disk) (segs : List Seg) (torn : Seg → Bytes) : Prop where
  solid : ∀ s ∈ segs, torn s ≠ [] → d.slot s.name = .solid (s.bytes ++ torn s)
  settled : (∃ s ∈ segs, torn s ≠ []) → ∀ n, isSegment n → (d.slot n).settle = d.slot n

/-- The memory once the segments `segs` are read. -/
def load (r : FileStore) (segs : List Seg) : FileStore :=
  segs.foldl (fun r s => { r with
    idx := r.idx ++ s.idx, active := s.name, activeCount := s.entries.length }) r

section

variable {segs : List Seg} {torn : Seg → Bytes} {d d' : Disk}

lemma isSegment_name (s : Seg) : isSegment s.name = true := isSegment_segmentName s.number

/-- `recover` goes through the segments in order. -/
lemma Found.readDir (h : Found d segs torn) : d.readDir.filter isSegment = segs.map Seg.name := by
  have hsorted : (segs.map Seg.name).Pairwise (· < ·) :=
    List.pairwise_map.mpr (h.sorted.imp_of_mem fun _ ht hlt => segmentName_lt (h.small _ ht) hlt)
  refine (d.readDir_sorted.filter _).eq_of_mem_iff hsorted fun n => ?_
  rw [List.mem_filter, Disk.mem_readDir, List.mem_map]
  constructor
  · rintro ⟨hcur, hn⟩
    obtain ⟨s, hs, rfl⟩ := h.covers n hn (by simpa [Disk.content, Slot.content] using hcur)
    exact ⟨s, hs, rfl⟩
  · rintro ⟨s, hs, rfl⟩
    refine ⟨fun hnone => ?_, isSegment_name s⟩
    have hc := h.content s hs
    rw [Disk.content, Slot.content, hnone] at hc
    cases hc

lemma load_cons (r : FileStore) (s : Seg) (segs : List Seg) :
    r.load (s :: segs) = load { r with
      idx := r.idx ++ s.idx, active := s.name, activeCount := s.entries.length } segs := rfl

lemma load_idx (r : FileStore) (segs : List Seg) : (r.load segs).idx = r.idx ++ idxOf segs := by
  induction segs generalizing r with
  | nil => exact (List.append_nil _).symm
  | cons s segs ih =>
      rw [load_cons, ih, List.append_assoc]
      rfl

lemma load_max (r : FileStore) (segs : List Seg) :
    (r.load segs).maxEntriesPerSegment = r.maxEntriesPerSegment := by
  induction segs generalizing r with
  | nil => rfl
  | cons s segs ih => rw [load_cons, ih]

lemma load_concat (r : FileStore) (segs : List Seg) (a : Seg) :
    r.load (segs ++ [a]) = { r.load segs with
      idx := (r.load segs).idx ++ a.idx, active := a.name, activeCount := a.entries.length } := by
  rw [load, List.foldl_append]
  rfl

lemma Repaired.refl (segs : List Seg) (torn : Seg → Bytes) (d : Disk) : Repaired segs torn d d :=
  fun _ _ => .inl rfl

lemma Repaired.trans {segs' : List Seg} {d'' : Disk} (h : Repaired segs torn d d')
    (h' : Repaired segs' torn d' d'') : Repaired (segs ++ segs') torn d d'' := by
  intro n hn
  rcases h' n hn with heq | ⟨s, hs, hname, hne, hslot⟩
  · rw [heq]
    exact (h n hn).imp_right fun ⟨s, hs, hrest⟩ => ⟨s, List.mem_append_left _ hs, hrest⟩
  · exact .inr ⟨s, List.mem_append_right _ hs, hname, hne, hslot⟩

lemma Repaired.slot_eq (h : Repaired segs torn d d') {n : String} (hn : isSegment n)
    (hrest : ∀ s ∈ segs, n ≠ s.name) : d'.slot n = d.slot n := by
  rcases h n hn with heq | ⟨s, hs, hname, -⟩
  · exact heq
  · exact (hrest s hs hname).elim

/-! ## The calls of `recover` -/

variable {F : Fate → Prop} {E : FileError → Site FileStore → Prop} {R : Site FileStore → Prop}
  {w : Site FileStore} {s : Seg}

/-- A torn tail is cut off. -/
lemma wp_trimTail {Q : Unit → Site FileStore → Prop} (hF : Faultless F)
    (hm : Mendable w.disk [s] torn) (hc : w.disk.content s.name = some (s.bytes ++ torn s))
    (hQ : ∀ d, Repaired [s] torn w.disk d → d.content s.name = some s.bytes →
      Q () { w with disk := d })
    (hR : F .die → ∀ d, Repaired [s] torn w.disk d → R { w with disk := d }) :
    (trimTail s.name (s.bytes ++ torn s).length s.bytes.length).wp F Q E R w := by
  rw [trimTail]
  split_ifs with hlt
  · have hne : torn s ≠ [] := fun heq => by
      rw [heq, List.append_nil] at hlt
      exact lt_irrefl _ hlt
    have hslot := hm.solid s (List.mem_singleton_self s) hne
    have htrunc : (⟨s.bytes ++ torn s, []⟩ : File).truncate s.bytes.length = ⟨s.bytes, []⟩ := by
      simp [File.truncate]
    have hcut : Repaired [s] torn w.disk (w.disk.set s.name (.solid s.bytes)) := by
      intro n hn
      by_cases hname : n = s.name
      · exact .inr ⟨s, List.mem_singleton_self s, hname, hne, by rw [hname, Disk.slot_set_self]⟩
      · exact .inl (Disk.slot_set_of_ne hname _ _)
    have hsettle : Repaired [s] torn w.disk (w.disk.set s.name (.solid s.bytes)).settle := by
      intro n hn
      refine (hcut n hn).imp (fun heq => ?_) fun ⟨u, hu, hname, hu', hsolid⟩ =>
        ⟨u, hu, hname, hu', ?_⟩
      · rw [Disk.slot_settle, heq]
        exact hm.settled ⟨s, List.mem_singleton_self s, hne⟩ n hn
      · rw [Disk.slot_settle, hsolid]
        rfl
    refine Prog.wp_bind (Prog.wp_orFail (Vfs.wp_onFile (x := ⟨s.bytes ++ torn s, []⟩) hF
      (congrArg Slot.current hslot) ?_ fun hd => hR hd _ (.refl _ _ _)))
    rw [hslot, htrunc]
    refine Prog.wp_bind (Prog.wp_orFail (Vfs.wp_onFile (x := ⟨s.bytes, []⟩) hF
      (by rw [Site.disk_set, Disk.slot_set_self]) ?_ fun hd => hR hd _ hcut))
    rw [Site.disk_set, Disk.slot_set_self, Site.set, Site.set, Disk.set_set,
      show File.sync ⟨s.bytes, []⟩ = ⟨s.bytes, []⟩ by simp [File.sync, File.bytes]]
    refine Prog.wp_orFail (Vfs.wp_syncDir hF (hQ _ hsettle ?_) fun hd => hR hd _ hcut)
    rw [Disk.content, Disk.slot_settle, Disk.slot_set_self]
    exact congrArg some (List.append_nil _)
  · have hnil : torn s = [] := by
      rw [List.length_append, Nat.lt_add_right_iff_pos, List.length_pos_iff, not_not] at hlt
      exact hlt
    rw [hnil, List.append_nil] at hc
    exact Prog.wp_pure (hQ w.disk (.refl _ _ _) hc)

lemma wp_scanOne {Q : List ScanRec → Site FileStore → Prop} (hF : Faultless F)
    (hfits : ∀ e ∈ s.entries, Fits e) (ht : Torn (torn s)) (hm : Mendable w.disk [s] torn)
    (hc : w.disk.content s.name = some (s.bytes ++ torn s))
    (hQ : ∀ d, Repaired [s] torn w.disk d → d.content s.name = some s.bytes →
      Q (located segHeaderLen s.entries) { w with disk := d })
    (hR : F .die → ∀ d, Repaired [s] torn w.disk d → R { w with disk := d }) :
    (scanOne s.name).wp F Q E R w := by
  obtain ⟨x, hx, -⟩ := current_of_content hc
  have hdie : F .die → R w := fun hd => hR hd w.disk (.refl _ _ _)
  refine Prog.wp_bind (Prog.wp_orFail (Vfs.wp_openFile hF hx ?_ hdie))
  refine Prog.wp_bind (Prog.wp_attempt ?_)
  refine Prog.wp_bind (Prog.wp_orFail (Vfs.wp_size hF hc ?_ hdie))
  refine Prog.wp_bind (Prog.wp_orFail (wp_scanSegment hF hfits ht hc ?_ hdie))
  refine Prog.wp_bind (wp_trimTail hF hm hc (fun d hd hb => Prog.wp_pure ?_) hR)
  exact Prog.wp_bind (Prog.wp_attempt (Vfs.wp_close hF (Prog.wp_pure (hQ d hd hb))
    fun hdie' => hR hdie' d hd))

/-- The loop of `recover`. -/
lemma wp_recoverSegs {Q : Unit → Site FileStore → Prop} (hF : Faultless F)
    (hnames : (segs.map Seg.name).Nodup) (hfits : ∀ s ∈ segs, ∀ e ∈ s.entries, Fits e)
    (ht : ∀ s ∈ segs, Torn (torn s)) (hm : Mendable w.disk segs torn)
    (hc : ∀ s ∈ segs, w.disk.content s.name = some (s.bytes ++ torn s))
    (hQ : ∀ d, Repaired segs torn w.disk d → (∀ s ∈ segs, d.content s.name = some s.bytes) →
      Q () { disk := d, ram := w.ram.load segs })
    (hR : F .die → ∀ d r, Repaired segs torn w.disk d → R { disk := d, ram := r }) :
    (recoverSegs (segs.map Seg.name)).wp F Q E R w := by
  induction segs generalizing w with
  | nil => exact Prog.wp_pure (hQ w.disk (.refl _ _ _) fun s hs => by cases hs)
  | cons s segs ih =>
      obtain ⟨hname, hnames'⟩ := List.nodup_cons.mp hnames
      have hne : ∀ u ∈ segs, u.name ≠ s.name := fun u hu heq =>
        hname (heq ▸ List.mem_map_of_mem hu)
      have hm₁ : Mendable w.disk [s] torn :=
        ⟨fun u hu => hm.solid u (by simpa using .inl (List.mem_singleton.mp hu)),
          fun ⟨u, hu, hu'⟩ => hm.settled ⟨u, by simpa using .inl (List.mem_singleton.mp hu), hu'⟩⟩
      refine Prog.wp_bind (wp_scanOne hF (hfits s List.mem_cons_self) (ht s List.mem_cons_self) hm₁
        (hc s List.mem_cons_self) (fun d hd hb => ?_) fun hdie d hd => hR hdie d _ ?_)
      · have hsame : ∀ u ∈ segs, d.slot u.name = w.disk.slot u.name := fun u hu =>
          hd.slot_eq (isSegment_name u) fun v hv => by
            rw [List.mem_singleton.mp hv]
            exact hne u hu
        refine Prog.wp_bind (Vfs.wp_setRam ?_)
        rw [length_located]
        refine ih hnames' (fun u hu => hfits u (List.mem_cons_of_mem _ hu))
          (fun u hu => ht u (List.mem_cons_of_mem _ hu))
          ⟨fun u hu hu' => ?_, fun ⟨u, hu, hu'⟩ n hn => ?_⟩
          (fun u hu => ?_) (fun d' hd' hall => hQ d' (hd.trans hd') fun u hu => ?_)
          fun hdie d' r hd' => hR hdie d' r (hd.trans hd')
        · rw [hsame u hu]
          exact hm.solid u (List.mem_cons_of_mem _ hu) hu'
        · rcases hd n hn with heq | ⟨v, -, -, -, hslot⟩
          · rw [heq]
            exact hm.settled ⟨u, List.mem_cons_of_mem _ hu, hu'⟩ n hn
          · rw [hslot]
            rfl
        · rw [Disk.content, hsame u hu]
          exact hc u (List.mem_cons_of_mem _ hu)
        · rcases List.mem_cons.mp hu with rfl | hu
          · rw [Disk.content, hd'.slot_eq (isSegment_name u) fun v hv => (hne v hv).symm]
            exact hb
          · exact hall u hu
      · exact hd.trans (.refl segs torn d)

lemma name_ne_empty (s : Seg) : s.name ≠ "" := by
  intro heq
  have hlist := congrArg String.toList heq
  rw [Seg.name, toList_segmentName] at hlist
  exact List.append_ne_nil_of_right_ne_nil _ (by decide) hlist

/-- The last segment is taken up. -/
lemma wp_reopenActive {Q : Unit → Site FileStore → Prop} (hF : Faultless F)
    (hactive : w.ram.active = s.name) {b : Bytes} (hc : w.disk.content s.name = some b)
    (hQ : Q () { w with ram := { w.ram with activeFile := some s.handle } }) (hR : F .die → R w) :
    reopenActive.wp F Q E R w := by
  obtain ⟨x, hx, -⟩ := current_of_content hc
  refine Prog.wp_bind (Vfs.wp_ram ?_)
  rw [hactive, if_neg (name_ne_empty s)]
  exact Prog.wp_bind (Prog.wp_orFail (Vfs.wp_openFile hF hx (Vfs.wp_setRam hQ) hR))

/-- `openWith` reads the segments, cuts off what is torn, and takes the last one up. -/
lemma wp_openWith {Q : Unit → Site FileStore → Prop} (hF : Faultless F) {max : ℕ}
    (h : Found w.disk segs torn) (hm : Mendable w.disk segs torn)
    (hQ : ∀ d, Repaired segs torn w.disk d → (∀ s ∈ segs, d.content s.name = some s.bytes) →
      Q () { disk := d
             ram := { load { maxEntriesPerSegment := max } segs with
               activeFile := segs.getLast?.map Seg.handle } })
    (hR : F .die → ∀ d r, Repaired segs torn w.disk d → R { disk := d, ram := r }) :
    (openWith max).wp F Q E R w := by
  have hnames := nodup_names_of_sorted h.sorted
  refine Prog.wp_bind (Vfs.wp_setRam ?_)
  refine Prog.wp_bind (Prog.wp_orFail (Vfs.wp_readDir hF ?_ fun hd => hR hd _ _ (.refl _ _ _)))
  rw [h.readDir]
  refine Prog.wp_bind (wp_recoverSegs hF hnames h.fits h.tail hm h.content (fun d hd hall => ?_) hR)
  rcases List.eq_nil_or_concat segs with rfl | ⟨init, a, hsegs⟩
  · exact Prog.wp_bind (Vfs.wp_ram (Prog.wp_pure (hQ d hd hall)))
  · rw [List.concat_eq_append] at hsegs
    subst hsegs
    refine wp_reopenActive hF ?_ (hall a (by simp)) ?_ fun hdie => hR hdie d _ hd
    · rw [load_concat]
    · have hq := hQ d hd hall
      rwa [List.getLast?_concat] at hq

end

/-! ## What a crash leaves -/

/-- A directory from which the log `l` can be recovered. -/
structure Debris (σ : Setting) (d : Disk) (segs : List Seg) (torn : Seg → Bytes) : Prop
    extends Found d segs torn where
  solid : ∀ s ∈ segs, d.slot s.name = .solid (s.bytes ++ torn s)
  gone : ∀ n, isSegment n → (∀ s ∈ segs, n ≠ s.name) → d.slot n = {}
  number : ∀ s ∈ segs, σ.number s.number
  numbered : ∀ s ∈ segs.dropLast, ∀ e ∈ s.entries, s.number < e.index + σ.max
  contiguous : Log.Contiguous (logOf segs)

section

variable {σ : Setting} {segs : List Seg} {torn : Seg → Bytes} {d d' : Disk}

lemma Debris.mendable (h : Debris σ d segs torn) : Mendable d segs torn where
  solid s hs _ := h.solid s hs
  settled _ n hn := by
    by_cases hmem : ∃ s ∈ segs, n = s.name
    · obtain ⟨s, hs, rfl⟩ := hmem
      rw [h.solid s hs]
      rfl
    · push Not at hmem
      rw [h.gone n hn hmem]
      rfl

/-- The files of the segments change behind their records. -/
lemma Debris.change (h : Debris σ d segs torn) {torn' : Seg → Bytes}
    (hslot : ∀ s ∈ segs, Torn (torn' s) ∧ d'.slot s.name = .solid (s.bytes ++ torn' s))
    (hother : ∀ n, isSegment n → (∀ s ∈ segs, n ≠ s.name) → d'.slot n = d.slot n) :
    Debris σ d' segs torn' where
  sorted := h.sorted
  small := h.small
  fits := h.fits
  tail s hs := (hslot s hs).1
  content s hs := by
    rw [Disk.content, (hslot s hs).2]
    exact congrArg some (List.append_nil _)
  covers n hn hc := by
    by_contra hmem
    push Not at hmem
    rw [Disk.content, hother n hn hmem, h.gone n hn hmem] at hc
    exact hc rfl
  solid s hs := (hslot s hs).2
  gone n hn hmem := by rw [hother n hn hmem, h.gone n hn hmem]
  number := h.number
  numbered := h.numbered
  contiguous := h.contiguous

/-- A directory that is partly repaired is as good as before. -/
lemma Debris.repaired (h : Debris σ d segs torn) (hd : Repaired segs torn d d') :
    ∃ torn', Debris σ d' segs torn' := by
  refine ⟨fun s => if d'.slot s.name = d.slot s.name then torn s else [],
    h.change (fun s hs => ?_) fun n hn hmem => hd.slot_eq hn hmem⟩
  split_ifs with hsame
  · exact ⟨h.tail s hs, by rw [hsame, h.solid s hs]⟩
  · rcases hd _ (isSegment_name s) with heq | ⟨u, hu, hname, -, hslot⟩
    · exact (hsame heq).elim
    · obtain rfl := List.inj_on_of_nodup_map (nodup_names_of_sorted h.sorted) hs hu hname
      rw [List.append_nil]
      exact ⟨torn_nil, hslot⟩

/-- A directory without torn tails. -/
lemma Debris.mended (h : Debris σ d segs torn) (hd : Repaired segs torn d d')
    (hall : ∀ s ∈ segs, d'.content s.name = some s.bytes) : Debris σ d' segs fun _ => [] := by
  refine h.change (fun s hs => ⟨torn_nil, ?_⟩) fun n hn hmem => hd.slot_eq hn hmem
  obtain ⟨torn', h'⟩ := h.repaired hd
  have hc := (h'.content s hs).symm.trans (hall s hs)
  rw [List.append_nil, h'.solid s hs, Option.some.inj hc]

/-- The segments that hold an entry. -/
def nonempty (segs : List Seg) : List Seg := segs.filter (!·.entries.isEmpty)

lemma mem_nonempty {s : Seg} : s ∈ nonempty segs ↔ s ∈ segs ∧ s.entries ≠ [] := by
  simp [nonempty]

lemma nonempty_cons (s : Seg) (segs : List Seg) :
    nonempty (s :: segs) = if s.entries = [] then nonempty segs else s :: nonempty segs := by
  rw [nonempty, List.filter_cons]
  split_ifs with h1 h2 h2 <;> simp_all [nonempty]

lemma logOf_nonempty (segs : List Seg) : logOf (nonempty segs) = logOf segs := by
  induction segs with
  | nil => rfl
  | cons s segs ih =>
      rw [nonempty_cons, show logOf (s :: segs) = s.entries ++ logOf segs from rfl, ← ih]
      split_ifs with h
      · rw [h, List.nil_append]
      · rfl

lemma idxOf_nonempty (segs : List Seg) : idxOf (nonempty segs) = idxOf segs := by
  induction segs with
  | nil => rfl
  | cons s segs ih =>
      rw [nonempty_cons, show idxOf (s :: segs) = s.idx ++ idxOf segs from rfl, ← ih]
      split_ifs with h
      · rw [List.eq_nil_of_length_eq_zero (by rw [length_idx, h]; rfl : s.idx.length = 0),
          List.nil_append]
      · rfl

section Last

variable {init : List Seg} {a : Seg}

lemma nonempty_sublist (init : List Seg) (a : Seg) :
    (nonempty init ++ [a]).Sublist (init ++ [a]) :=
  List.filter_sublist.append (List.Sublist.refl _)

lemma logOf_nonempty_concat (init : List Seg) (a : Seg) :
    logOf (nonempty init ++ [a]) = logOf (init ++ [a]) := by
  rw [logOf_append, logOf_append, logOf_nonempty]

lemma Debris.row (h : Debris σ d (init ++ [a]) torn) : Row σ.max (nonempty init) (some a) where
  sorted := h.sorted.sublist (nonempty_sublist init a)
  numbered s hs := h.numbered s (by
    rw [List.dropLast_concat]
    exact (mem_nonempty.mp hs).1)
  fits e he := by
    obtain ⟨s, hs, hes⟩ := mem_logOf.mp he
    exact h.fits s ((nonempty_sublist init a).subset hs) e hes
  contiguous := by
    rw [Option.toList_some, logOf_nonempty_concat]
    exact h.contiguous

lemma Debris.around (hr : σ.reopens) (h : Debris σ d (init ++ [a]) fun _ => []) :
    Around σ [] d (nonempty init) (some a) where
  solid s hs := by
    rw [h.solid s (by simp [(mem_nonempty.mp hs).1]), List.append_nil]
  idle n hn _ hrest := by
    by_cases hmem : ∃ s ∈ init ++ [a], n = s.name
    · -- a segment without entries
      obtain ⟨s, hs, rfl⟩ := hmem
      have hnil : s.entries = [] := by
        by_contra hne
        refine hrest s ?_ rfl
        rw [List.mem_append] at hs ⊢
        exact hs.imp_left fun hs => mem_nonempty.mpr ⟨hs, hne⟩
      have hslot : d.slot s.name = .solid segHeader := by
        rw [h.solid s hs, List.append_nil, Seg.bytes, hnil]
        rfl
      rw [hslot]
      exact idle_file (List.append_nil _) fun _ => rfl
    · push Not at hmem
      rw [h.gone n hn hmem]
      exact idle_empty σ
  named n hn hne := by
    by_cases hmem : ∃ s ∈ init ++ [a], n = s.name
    · obtain ⟨s, hs, rfl⟩ := hmem
      exact ⟨s.number, h.number s hs, rfl⟩
    · push Not at hmem
      exact (hne (h.gone n hn hmem)).elim
  led b hb := by
    obtain rfl := Option.mem_some.mp hb
    refine .inr ⟨hr, fun m hm => ?_⟩
    by_contra hlt
    refine hm (h.gone _ (isSegment_segmentName m) fun s hs hname => hlt ?_)
    rw [segmentName_injective hname]
    rcases List.mem_append.mp hs with hs | hs
    · exact ((List.pairwise_append.mp h.sorted).2.2 s hs a (List.mem_singleton_self a)).le
    · rw [List.mem_singleton.mp hs]

end Last

/-- The session that begins when the last segment is taken up. -/
lemma Debris.session (hr : σ.reopens) (h : Debris σ d segs fun _ => []) :
    Session σ
      { disk := d
        ram := { load { maxEntriesPerSegment := σ.max } segs with
          activeFile := segs.getLast?.map Seg.handle } }
      (nonempty segs.dropLast) segs.getLast? := by
  rcases List.eq_nil_or_concat segs with rfl | ⟨init, a, hsegs⟩
  · exact session_empty fun n hn => h.gone n hn fun s hs => by cases hs
  · rw [List.concat_eq_append] at hsegs
    subst hsegs
    have hslot : d.slot a.name = .solid a.bytes := by
      rw [h.solid a (by simp), List.append_nil]
    rw [List.dropLast_concat, List.getLast?_concat]
    refine ⟨⟨⟨h.around hr, h.row, fun b hb => ?_, fun hnone => by cases hnone⟩, load_max _ _, rfl,
      fun b hb => ?_, fun b hb => ?_⟩, ?_, fun _ b hb => ?_⟩
    · obtain rfl := Option.mem_some.mp hb
      exact ⟨_, hslot, List.append_nil _⟩
    · obtain rfl := Option.mem_some.mp hb
      rw [load_concat]
    · obtain rfl := Option.mem_some.mp hb
      rw [load_concat]
    · rw [load_idx, Option.toList_some, idxOf_append, idxOf_append, idxOf_nonempty]
      rfl
    · obtain rfl := Option.mem_some.mp hb
      exact hslot

/-- A log can be recovered from a directory. -/
def Recoverable (σ : Setting) (d : Disk) (l : List Entry) : Prop :=
  ∃ segs torn, Debris σ d segs torn ∧ logOf segs = l

/-- `openWith` begins a session with the log that is on the disk.  If the process dies in it, the
same log can still be recovered. -/
lemma Recoverable.wp_openWith {F : Fate → Prop} {Q : Unit → Site FileStore → Prop}
    {E : FileError → Site FileStore → Prop} (hF : Faultless F) (hr : σ.reopens)
    {w : Site FileStore} {l : List Entry} (h : Recoverable σ w.disk l)
    (hQ : ∀ w' full act, Session σ w' full act → logOf (full ++ act.toList) = l → Q () w') :
    (openWith σ.max).wp F Q E (fun w' => Recoverable σ w'.disk l) w := by
  obtain ⟨segs, torn, hdebris, rfl⟩ := h
  refine FileStore.wp_openWith hF hdebris.toFound hdebris.mendable (fun d hd hall => ?_)
    fun _ d r hd => ?_
  · refine hQ _ _ _ ((hdebris.mended hd hall).session hr) ?_
    rcases List.eq_nil_or_concat segs with rfl | ⟨init, a, rfl⟩
    · rfl
    · rw [List.concat_eq_append, List.dropLast_concat, List.getLast?_concat, Option.toList_some,
        logOf_nonempty_concat]
  · obtain ⟨torn', hdebris'⟩ := hdebris.repaired hd
    exact ⟨segs, torn', hdebris', rfl⟩

end

end FileStore

end ToyRaft
