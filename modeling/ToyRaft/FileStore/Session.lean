import ToyRaft.FileStore.Layout

/-!
# A session of the store: `Append`

`Layout` ties a row of segments to the memory of the store; `Session` is a store between two
calls, whose index is that of the row.  The specification of `Append` follows the calls it
makes: the active segment is made durable and closed, a new one is created, and the records are
written and synced.  Each step says what is left if the process dies in it.
-/

namespace ToyRaft

namespace FileStore

/-- The memory of a store whose active segment is `act`. -/
structure InRam (σ : Setting) (r : FileStore) (act : Option Seg) : Prop where
  max : r.maxEntriesPerSegment = σ.max
  activeFile : r.activeFile = act.map Seg.handle
  active : ∀ a ∈ act, r.active = a.name
  count : ∀ a ∈ act, r.activeCount = a.entries.length

lemma InRam.not_closed {σ : Setting} {r : FileStore} {act : Option Seg} (h : InRam σ r act) :
    ∀ f ∈ r.activeFile, f.closed = false := by
  intro f hf
  rw [h.activeFile] at hf
  obtain ⟨a, -, rfl⟩ := Option.mem_map.mp hf
  rfl

/-- A store in the middle of a call, the index of which may be behind. -/
structure Layout (σ : Setting) (w : Site FileStore) (full : List Seg) (act : Option Seg) :
    Prop where
  disk : OnDisk σ w.disk full act
  ram : InRam σ w.ram act

/-- A store between two calls. -/
structure Session (σ : Setting) (w : Site FileStore) (full : List Seg) (act : Option Seg) : Prop
    extends Layout σ w full act where
  idx : w.ram.idx = idxOf (full ++ act.toList)
  synced : σ.reopens → ∀ a ∈ act, w.disk.slot a.name = .solid a.bytes

section

variable {σ : Setting} {w : Site FileStore} {d : Disk} {full : List Seg} {act : Option Seg}
  {a : Seg} {lo hi : List Entry}

/-- A store without a segment file. -/
lemma session_empty (h : ∀ n, isSegment n → d.slot n = {}) :
    Session σ { disk := d, ram := { maxEntriesPerSegment := σ.max } } [] none where
  disk :=
    { solid := fun s hs => by cases hs
      idle := fun n hn _ _ => by
        rw [h n hn]
        exact idle_empty σ
      named := fun n hn hne => (hne (h n hn)).elim
      led := fun a ha => by cases ha
      row := Row.empty σ.max
      file := fun a ha => by cases ha
      clear := fun _ s hs => by cases hs }
  ram :=
    { max := rfl
      activeFile := rfl
      active := fun a ha => by cases ha
      count := fun a ha => by cases ha }
  idx := rfl
  synced _ a ha := by cases ha

/-! ## What is durable -/

lemma Safe.isPrefix (h : Safe d full act lo) : lo <+: logOf (full ++ act.toList) := by
  obtain ⟨k, -, -, hlo⟩ := h
  rw [logOf_append]
  exact hlo.trans ((List.prefix_append_right_inj _).mpr (List.take_prefix _ _))

lemma Safe.mono {l : List Entry} (h : Safe d full act l) (hlo : lo <+: l) :
    Safe d full act lo := by
  obtain ⟨k, hk, hfile, hl⟩ := h
  exact ⟨k, hk, hfile, hlo.trans hl⟩

lemma safe_of_full (hfile : ∀ a ∈ act, ∃ f, d.slot a.name = { current := some f })
    (hlo : lo <+: logOf full) : Safe d full act lo := by
  refine ⟨0, Nat.zero_le _, fun a ha => ?_, hlo.trans (List.prefix_append _ _)⟩
  obtain ⟨f, hf⟩ := hfile a ha
  exact ⟨f, hf, List.nil_prefix⟩

/-- A segment that is durable as a whole. -/
lemma safe_of_solid (hsolid : ∀ a ∈ act, d.slot a.name = .solid a.bytes) :
    Safe d full act (logOf (full ++ act.toList)) := by
  refine ⟨_, le_rfl, fun a ha => ⟨_, hsolid a ha, ?_⟩, ?_⟩
  · obtain rfl : act = some a := ha
    rw [kept]
    split_ifs
    · exact List.nil_prefix
    · rw [Option.toList_some, logOf_singleton, List.take_length]
      exact List.prefix_refl _
  · simp only [List.take_length, logOf_append, List.prefix_refl]

lemma kept_append {k : ℕ} {es : List Entry} (hk : k ≤ es.length) (more : List Entry) :
    kept k (es ++ more) = kept k es := by
  rw [kept, kept, List.take_append_of_le_length hk]

/-- More is written to the active segment. -/
lemma Safe.write (h : Safe d full (some a) lo) {f f' : File}
    (hf : d.slot a.name = { current := some f }) (hdur : f'.durable = f.durable)
    (more : List Entry) :
    Safe (d.set a.name { current := some f' }) full (some ⟨a.number, a.entries ++ more⟩) lo := by
  obtain ⟨k, hk, hfile, hlo⟩ := h
  rw [Option.toList_some, logOf_singleton] at hk hlo
  refine ⟨k, ?_, fun b hb => ?_, ?_⟩
  · rw [Option.toList_some, logOf_singleton, List.length_append]
    omega
  · obtain rfl := Option.mem_some.mp hb
    refine ⟨f', Disk.slot_set_self _ _ _, ?_⟩
    obtain ⟨g, hg, hkept⟩ := hfile a rfl
    obtain rfl : f = g := by
      rw [hf] at hg
      cases hg
      rfl
    rw [kept_append hk, hdur]
    exact hkept
  · rw [Option.toList_some, logOf_singleton, List.take_append_of_le_length hk]
    exact hlo

/-- A record of the active segment is being written. -/
lemma OnDisk.wreck_write (h : OnDisk σ d full (some a)) (hs : Safe d full (some a) lo) {e : Entry}
    (hrow : Row σ.max full (some ⟨a.number, a.entries ++ [e]⟩)) {f f' : File}
    (hf : d.slot a.name = { current := some f }) (hdur : f'.durable = f.durable)
    (hb : f'.bytes <+: segBytes (a.entries ++ [e]))
    (hhi : logOf full ++ (a.entries ++ [e]) <+: hi) :
    Wreck σ [] (d.set a.name { current := some f' }) lo hi := by
  obtain ⟨k, hk, hfile, hlo⟩ := hs.write hf hdur [e]
  refine ⟨full, _, k,
    (h.toAround.put h.row (h.slot_ne (by simp)) _ _).fallen hrow hk fun t ht => ?_, hlo,
    by simpa using hhi⟩
  obtain ⟨g, hg, hkept⟩ := hfile t ht
  obtain rfl := Option.mem_some.mp ht
  rw [show Seg.name ⟨a.number, a.entries ++ [e]⟩ = a.name from rfl, Disk.slot_set_self] at hg ⊢
  cases hg
  exact Slot.within_file hkept hb

end

/-! ## The calls of `Append` -/

section

variable {F : Fate → Prop} {E : FileError → Site FileStore → Prop} {σ : Setting}
  {w : Site FileStore} {full : List Seg} {act : Option Seg} {a : Seg} {lo hi : List Entry}

/-- The active segment becomes a full one. -/
lemma wp_closeFull {Q : Unit → Site FileStore → Prop} (hF : Faultless F)
    (h : Layout σ w full act) (hlen : ∀ a ∈ act, σ.max ≤ a.entries.length)
    (hled : ∀ a ∈ act, a.number ≤ (logOf full).length + σ.max)
    (hsafe : F .die → Safe w.disk full act lo) (hhi : logOf (full ++ act.toList) <+: hi)
    (hQ : ∀ w', Layout σ w' (full ++ act.toList) none → w'.ram.idx = w.ram.idx → Q () w') :
    closeFull.wp F Q E (fun w' => Wreck σ [] w'.disk lo hi) w := by
  have hdie : F .die → Wreck σ [] w.disk lo hi := fun hd => h.disk.wreck (hsafe hd) hhi
  refine Prog.wp_bind (Vfs.wp_ram ?_)
  rw [h.ram.activeFile]
  cases act with
  | none =>
      refine Prog.wp_pure (hQ w ?_ rfl)
      rw [Option.toList_none, List.append_nil]
      exact h
  | some a =>
      obtain ⟨f, hf, hb⟩ := h.disk.file a rfl
      have hput := h.disk.put (f := f.sync) h.disk.row (by rw [File.bytes_sync, hb]; rfl)
      have hsolid : (w.disk.set a.name { current := some f.sync }).slot a.name =
          .solid a.bytes := by
        rw [Disk.slot_set_self, File.sync, hb]
        rfl
      have hdie' : F .die → Wreck σ [] (w.disk.set a.name { current := some f.sync }) lo hi := by
        intro hd
        refine hput.wreck ((safe_of_solid fun b hb => ?_).mono (hsafe hd).isPrefix) hhi
        obtain rfl := Option.mem_some.mp hb
        exact hsolid
      simp only [Option.map_some, Seg.on_handle]
      refine Prog.wp_bind (Prog.wp_attempt (Vfs.wp_onFile (x := f) hF (by rw [hf]) ?_ hdie))
      rw [hf]
      refine Prog.wp_bind (Prog.wp_attempt (wp_closeActive hF rfl (fun _ => ?_)
        fun hd _ => hdie' hd))
      refine Vfs.wp_setRam (hQ _ ⟨?_, ?_⟩ rfl)
      · exact hput.retire hsolid (hlen a rfl) (hled a rfl)
      · exact ⟨h.ram.max, rfl, fun b hb => (by cases hb), fun b hb => by cases hb⟩

/-- A new segment is begun after the full ones. -/
lemma wp_rolloverLocked {Q : Unit → Site FileStore → Prop} (hF : Faultless F)
    (h : Layout σ w full act) (hlen : ∀ a ∈ act, σ.max ≤ a.entries.length)
    (hled : ∀ a ∈ act, a.number ≤ (logOf full).length + σ.max) {n : ℕ}
    (hn : n = (logOf (full ++ act.toList)).length + 1) (hnum : σ.number n)
    (hsafe : F .die → Safe w.disk full act lo) (hhi : logOf (full ++ act.toList) <+: hi)
    (hQ : ∀ w', Layout σ w' (full ++ act.toList) (some ⟨n, []⟩) → w'.ram.idx = w.ram.idx →
      Q () w') :
    (rolloverLocked n).wp F Q E (fun w' => Wreck σ [] w'.disk lo hi) w := by
  refine Prog.wp_bind (wp_closeFull hF h hlen hled hsafe hhi fun w₁ h₁ hidx => ?_)
  have hlo : F .die → lo <+: logOf (full ++ act.toList) := fun hd => (hsafe hd).isPrefix
  have hold : (w₁.disk.slot (segmentName n)).Within [] segHeader := by
    refine (h₁.disk.idle _ (isSegment_segmentName n) List.not_mem_nil fun s hs hname => ?_).within
    have hle := h₁.disk.clear rfl s (by simpa using hs)
    have heq := segmentName_injective hname
    omega
  have hdie : ∀ d : Disk, (d.slot (segmentName n)).Within [] segHeader →
      (∀ m, m ≠ segmentName n → d.slot m = w₁.disk.slot m) → F .die → Wreck σ [] d lo hi :=
    fun d hnew hother hd => h₁.disk.wreck_create hn hnum hnew hother (hlo hd) hhi
  have hmade : ((w₁.disk.slot (segmentName n)).bind (some {})).Within [] segHeader :=
    hold.bind ⟨List.nil_prefix, List.nil_prefix⟩
  have hheader : Slot.Between [] segHeader (some (File.write {} segHeader)) :=
    ⟨List.nil_prefix, List.prefix_refl _⟩
  refine Prog.wp_bind (Prog.wp_orFail (Vfs.wp_create hF ?_ (hdie _ hold fun _ _ => rfl)))
  refine Prog.wp_bind (Prog.wp_orClean (Vfs.wp_onFile (x := {}) hF ?_ ?_ (hdie _ ?_ ?_)))
  · exact congrArg Slot.current (Disk.slot_set_self _ _ _)
  · refine Prog.wp_bind (Prog.wp_orClean (Vfs.wp_syncDir hF ?_ (hdie _ ?_ ?_)))
    · refine Vfs.wp_setRam (hQ _ ⟨?_, ?_⟩ hidx)
      · refine h₁.disk.start hn hnum (f := File.write {} segHeader) rfl ?_ fun m hm => ?_
        · simp only [Site.disk_set, Disk.slot_settle, Disk.slot_set_self]
          rfl
        · simp only [Site.disk_set, Disk.slot_settle, Disk.slot_set_of_ne hm]
      · refine ⟨h₁.ram.max, rfl, fun b hb => ?_, fun b hb => ?_⟩ <;>
          obtain rfl := Option.mem_some.mp hb <;> rfl
    · simp only [Site.disk_set, Disk.slot_set_self]
      exact hmade.put hheader
    · intro m hm
      simp only [Site.disk_set, Disk.slot_set_of_ne hm]
  · rw [Site.disk_set, Disk.slot_set_self]
    exact hmade
  · exact fun m hm => Disk.slot_set_of_ne hm _ _

/-- The store after the records of `es` were written to it. -/
structure Wrote (σ : Setting) (w w' : Site FileStore) (segs full : List Seg) (act : Option Seg)
    (es : List Entry) (staged : List IdxEntry) : Prop where
  layout : Layout σ w' full act
  log : logOf (full ++ act.toList) = logOf segs ++ es
  index : idxOf (full ++ act.toList) = idxOf segs ++ staged
  idx : w'.ram.idx = w.ram.idx

/-- There is an active segment with room in it: the one there was, or a new one. -/
lemma wp_ensureActive {Q : Unit → Site FileStore → Prop} (hF : Faultless F)
    (h : Layout σ w full act)
    (hled : ∀ a ∈ act, σ.max ≤ a.entries.length → a.number ≤ (logOf full).length + σ.max) {n : ℕ}
    (hn : n = (logOf (full ++ act.toList)).length + 1) (hnum : σ.number n)
    (hsafe : F .die → Safe w.disk full act lo) (hhi : logOf (full ++ act.toList) <+: hi)
    (hQ : ∀ w' full' a, Wrote σ w w' (full ++ act.toList) full' (some a) [] [] →
      a.entries.length < σ.max →
      (full' = full ∧ act = some a ∨ a.number ≤ (logOf full').length + σ.max) →
      (F .die → Safe w'.disk full' (some a) lo) → Q () w') :
    (ensureActive n).wp F Q E (fun w' => Wreck σ [] w'.disk lo hi) w := by
  refine Prog.wp_bind (Vfs.wp_ram ?_)
  rw [h.ram.activeFile, h.ram.max]
  split_ifs with hfull
  · have hlen : ∀ a ∈ act, σ.max ≤ a.entries.length := by
      rintro a rfl
      rw [← h.ram.count a rfl]
      rcases hfull with hnone | hle
      · cases hnone
      · exact hle
    refine wp_rolloverLocked hF h hlen (fun a ha => hled a ha (hlen a ha)) hn hnum hsafe hhi
      fun w' h' hidx => hQ w' _ _ ⟨h', ?_, ?_, hidx⟩ σ.pos (.inr ?_) fun hd => ?_
    · rw [Option.toList_some, logOf_append, logOf_singleton]
    · rw [Option.toList_some, idxOf_append, idxOf_singleton]
      rfl
    · have hpos := σ.pos
      show n ≤ _
      omega
    · refine safe_of_full (fun b hb => ?_) (hsafe hd).isPrefix
      obtain ⟨f, hf, -⟩ := h'.disk.file b hb
      exact ⟨f, hf⟩
  · push Not at hfull
    cases act with
    | none => exact (hfull.1 rfl).elim
    | some a =>
        rw [h.ram.count a rfl] at hfull
        exact Prog.wp_pure (hQ w full a ⟨h, (List.append_nil _).symm, (List.append_nil _).symm, rfl⟩
          hfull.2 (.inl ⟨rfl, rfl⟩) hsafe)

lemma wp_writeRecordLocked {Q : ℕ → Site FileStore → Prop} (hF : Faultless F)
    (h : Layout σ w full (some a)) {e : Entry}
    (hrow : Row σ.max full (some ⟨a.number, a.entries ++ [e]⟩))
    (hsafe : F .die → Safe w.disk full (some a) lo) (hhi : logOf full ++ (a.entries ++ [e]) <+: hi)
    (hQ : ∀ d, OnDisk σ d full (some ⟨a.number, a.entries ++ [e]⟩) →
      (F .die → Safe d full (some ⟨a.number, a.entries ++ [e]⟩) lo) →
      Q (a.bytes.length + recHeaderLen) { w with disk := d }) :
    (writeRecordLocked e).wp F Q E (fun w' => Wreck σ [] w'.disk lo hi) w := by
  obtain ⟨f, hf, hb⟩ := h.disk.file a rfl
  have hdie : F .die → Wreck σ [] w.disk lo hi := by
    refine fun hd => h.disk.wreck (hsafe hd) (List.IsPrefix.trans ?_ hhi)
    rw [Option.toList_some, logOf_append, logOf_singleton, ← List.append_assoc]
    exact List.prefix_append _ _
  refine Prog.wp_bind (Vfs.wp_ram ?_)
  rw [h.ram.activeFile]
  simp only [Option.map_some, encodeRecord, Seg.on_handle]
  refine Prog.wp_bind (Prog.wp_orFail (Vfs.wp_size hF (h.disk.content_eq (by simp)) ?_ hdie))
  refine Prog.wp_bind (Prog.wp_orFail (Prog.wp_bind (Vfs.wp_onFile (x := f) hF ?_ ?_ hdie)))
  · exact congrArg Slot.current hf
  rw [hf]
  have hhdr : (f.write (recHeader (payload e))).bytes <+: segBytes (a.entries ++ [e]) := by
    rw [File.bytes_write, hb, segBytes_concat, record, ← List.append_assoc]
    exact List.prefix_append _ _
  have hrec : ((f.write (recHeader (payload e))).write (payload e)).bytes =
      segBytes (a.entries ++ [e]) := by
    rw [File.bytes_write, File.bytes_write, hb, segBytes_concat, record, List.append_assoc]
    rfl
  refine Vfs.wp_onFile (x := f.write (recHeader (payload e))) hF ?_ ?_ fun hd => ?_
  · rw [Site.disk_set, Disk.slot_set_self]
  · refine Prog.wp_pure ?_
    rw [Site.disk_set, Disk.slot_set_self, Site.set, Site.set, Disk.set_set]
    have hdur : ((f.write (recHeader (payload e))).write (payload e)).durable = f.durable := rfl
    exact hQ _ (h.disk.put hrow hrec) fun hd => (hsafe hd).write hf hdur [e]
  · exact h.disk.wreck_write (hsafe hd) hrow hf rfl hhdr hhi

lemma idx_concat (a : Seg) (e : Entry) :
    Seg.idx ⟨a.number, a.entries ++ [e]⟩ = a.idx ++
      [{ index := e.index, term := e.term, segment := a.name,
         offset := a.bytes.length + recHeaderLen, length := payloadFixedLen + e.data.length }] := by
  rw [Seg.idx, located_append, List.map_append, Seg.bytes, segBytes, List.length_append]
  rfl

/-- The loop of `Append`. -/
lemma wp_writeRecords {Q : List IdxEntry → Site FileStore → Prop} (hF : Faultless F)
    {es : List Entry} (h : Layout σ w full act) (hes : ∀ e ∈ es, Fits e)
    (hc : Log.Contiguous (logOf (full ++ act.toList) ++ es)) (hnum : ∀ e ∈ es, σ.number e.index)
    (hroll : ∀ a ∈ act, es.length ≤ σ.max - a.entries.length ∨
      a.number ≤ (logOf full).length + σ.max)
    (hsafe : F .die → Safe w.disk full act lo) (hhi : logOf (full ++ act.toList) ++ es <+: hi)
    (hQ : ∀ staged w' full' act', Wrote σ w w' (full ++ act.toList) full' act' es staged →
      (act ≠ none ∨ es ≠ [] → act' ≠ none) → (F .die → Safe w'.disk full' act' lo) → Q staged w') :
    (writeRecords es).wp F Q E (fun w' => Wreck σ [] w'.disk lo hi) w := by
  induction es generalizing w full act Q with
  | nil =>
      exact Prog.wp_pure (hQ [] w full act ⟨h, (List.append_nil _).symm, (List.append_nil _).symm,
        rfl⟩ (fun hne => hne.resolve_right fun h => h rfl) hsafe)
  | cons e rest ih =>
      have hn : e.index = (logOf (full ++ act.toList)).length + 1 := by
        have hidx := hc (logOf (full ++ act.toList)).length e (by simp)
        omega
      have hled : ∀ a ∈ act, σ.max ≤ a.entries.length →
          a.number ≤ (logOf full).length + σ.max := fun a ha hle => by
        rcases hroll a ha with hroom | hled
        · rw [List.length_cons] at hroom
          omega
        · exact hled
      refine Prog.wp_bind (wp_ensureActive hF h hled hn (hnum e List.mem_cons_self) hsafe
        ((List.prefix_append _ _).trans hhi) fun w₁ full₁ a hw₁ hroom hcase hsafe₁ => ?_)
      have hlog := hw₁.log
      rw [Option.toList_some, logOf_append, logOf_singleton, List.append_nil] at hlog
      have hc' : Log.Contiguous ((logOf full₁ ++ (a.entries ++ [e])) ++ rest) := by
        rw [← List.append_assoc, hlog, List.append_assoc]
        exact hc
      have hrow : Row σ.max full₁ (some ⟨a.number, a.entries ++ [e]⟩) := by
        refine hw₁.layout.disk.row.put (fun x hx => ?_) ?_
        · rcases List.mem_append.mp hx with hx | hx
          · exact hw₁.layout.disk.row.fits x (mem_logOf.mpr ⟨a, by simp, hx⟩)
          · exact hes x (by simpa using .inl (List.mem_singleton.mp hx))
        · have htake := hc'.take (logOf full₁ ++ (a.entries ++ [e])).length
          rwa [List.take_left] at htake
      have hhi' : (logOf full₁ ++ (a.entries ++ [e])) ++ rest <+: hi := by
        rw [← List.append_assoc, hlog, List.append_assoc]
        exact hhi
      refine Prog.wp_bind (wp_writeRecordLocked hF hw₁.layout hrow hsafe₁
        ((List.prefix_append _ _).trans hhi') fun d hd hsafe₂ => ?_)
      refine Prog.wp_bind (Vfs.wp_ram (Prog.wp_bind (Vfs.wp_setRam (Prog.wp_bind ?_))))
      have hlog' : logOf (full₁ ++ (some (⟨a.number, a.entries ++ [e]⟩ : Seg)).toList) =
          logOf full₁ ++ (a.entries ++ [e]) := by
        rw [Option.toList_some, logOf_append, logOf_singleton]
      refine ih ⟨hd, ?_⟩ (fun x hx => hes x (List.mem_cons_of_mem _ hx)) (hlog' ▸ hc')
        (fun x hx => hnum x (List.mem_cons_of_mem _ hx)) (fun b hb => ?_) hsafe₂ (hlog' ▸ hhi')
        fun staged w' full' act' hw' hact hsafe' => ?_
      · refine ⟨hw₁.layout.ram.max, hw₁.layout.ram.activeFile, fun b hb => ?_, fun b hb => ?_⟩
        · obtain rfl := Option.mem_some.mp hb
          exact hw₁.layout.ram.active a rfl
        · obtain rfl := Option.mem_some.mp hb
          rw [List.length_append, List.length_singleton, ← hw₁.layout.ram.count a rfl]
      · obtain rfl := Option.mem_some.mp hb
        rcases hcase with ⟨rfl, rfl⟩ | hled'
        · refine (hroll a rfl).imp_left fun hle => ?_
          rw [List.length_cons] at hle
          rw [List.length_append, List.length_singleton]
          omega
        · exact .inr hled'
      · refine Prog.wp_pure
          (hQ _ w' full' act' ⟨hw'.layout, ?_, ?_, hw'.idx.trans hw₁.idx⟩ ?_ hsafe')
        · rw [hw'.log, hlog', ← List.append_assoc, hlog, List.append_assoc]
          rfl
        · have hidx := hw₁.index
          rw [Option.toList_some, idxOf_append, idxOf_singleton, List.append_nil] at hidx
          rw [hw'.index, Option.toList_some, idxOf_append, idxOf_singleton, idx_concat,
            ← List.append_assoc, hidx, List.append_assoc, List.singleton_append,
            show w₁.ram.active = a.name from hw₁.layout.ram.active a rfl]
        · exact fun _ => hact (.inl fun hnone => by cases hnone)

/-- The active segment is made durable. -/
lemma wp_syncActive {Q : Unit → Site FileStore → Prop} (hF : Faultless F)
    (h : Layout σ w full (some a)) (hsafe : F .die → Safe w.disk full (some a) lo)
    (hhi : logOf (full ++ [a]) <+: hi)
    (hQ : ∀ d, OnDisk σ d full (some a) → d.slot a.name = .solid a.bytes →
      Q () { w with disk := d }) :
    syncActive.wp F Q E (fun w' => Wreck σ [] w'.disk lo hi) w := by
  obtain ⟨f, hf, hb⟩ := h.disk.file a rfl
  refine Prog.wp_bind (Vfs.wp_ram ?_)
  rw [h.ram.activeFile]
  simp only [Option.map_some, Seg.on_handle]
  refine Prog.wp_orFail (Vfs.wp_onFile (x := f) hF (congrArg Slot.current hf) ?_ fun hd => ?_)
  · rw [hf]
    refine hQ _ (h.disk.put h.disk.row ?_) ?_
    · rw [File.bytes_sync, hb]
      rfl
    · rw [Disk.slot_set_self, File.sync, hb]
      rfl
  · exact h.disk.wreck (hsafe hd) hhi

namespace Session

lemma readable (h : Session σ w full act) : Readable w (logOf (full ++ act.toList)) where
  located := by
    rw [h.idx]
    exact locates_idxOf (fun s hs e he => h.disk.row.fits e (mem_logOf.mpr ⟨s, hs, he⟩))
      fun s hs => ⟨[], by rw [List.append_nil]; exact h.disk.content_eq hs⟩
  contiguous := h.disk.row.contiguous

lemma slot_solid (h : Session σ w full act) (hr : σ.reopens) {s : Seg}
    (hs : s ∈ full ++ act.toList) : w.disk.slot s.name = .solid s.bytes := by
  rcases List.mem_append.mp hs with hs | hs
  · exact h.disk.solid s hs
  · exact h.synced hr s (Option.mem_toList.mp hs)

lemma safe (h : Session σ w full act) (hr : σ.reopens) :
    Safe w.disk full act (logOf (full ++ act.toList)) :=
  safe_of_solid (h.synced hr)

/-- `Append` extends the log by the batch, or changes nothing.  If the process dies in it, the
log keeps what it had and may have got some of the batch. -/
lemma wp_append {Q : Unit → Site FileStore → Prop} (hF : Faultless F)
    (hdie : F .die → σ.reopens) (h : Session σ w full act) {es : List Entry}
    (hes : ∀ e ∈ es, Fits e) (hnum : ∀ e ∈ es, σ.number e.index)
    (hroll : ∀ a ∈ act, es.length ≤ σ.max - a.entries.length ∨
      a.number ≤ (logOf full).length + σ.max)
    (hok : Log.ContiguousFrom (logOf (full ++ act.toList)).length es → ∀ w' full' act',
      Session σ w' full' act' → logOf (full' ++ act'.toList) = logOf (full ++ act.toList) ++ es →
      Q () w')
    (hstart : ∀ e ∈ es.head?, e.index ≠ (logOf (full ++ act.toList)).length + 1 →
      E (.nonContiguous ((logOf (full ++ act.toList)).length + 1) e.index) w)
    (hgap : ∀ e ∈ es.head?, e.index = (logOf (full ++ act.toList)).length + 1 →
      ∀ g ∈ Storage.firstGap es, E (.nonContiguous g.1 g.2) w) :
    (append es).wp F Q E (fun w' => Wreck σ [] w'.disk (logOf (full ++ act.toList))
      (logOf (full ++ act.toList) ++ es)) w := by
  cases es with
  | nil =>
      exact Prog.wp_pure (hok (Log.contiguousFrom_nil _) w full act h (List.append_nil _).symm)
  | cons e rest =>
      refine Prog.wp_bind (Vfs.wp_ram ?_)
      rw [h.readable.lastIndexLocked_eq]
      split_ifs with he
      · exact Prog.wp_throw (hstart e rfl he)
      · cases hg : Storage.firstGap (e :: rest) with
        | some g => exact Prog.wp_throw (hgap e rfl (not_not.mp he) g hg)
        | none =>
            have hc : Log.ContiguousFrom (logOf (full ++ act.toList)).length (e :: rest) := by
              rw [Log.contiguousFrom_cons, ← not_not.mp he]
              exact ⟨rfl, (Storage.firstGap_eq_none_iff e rest).mp hg⟩
            have hall : Log.Contiguous (logOf (full ++ act.toList) ++ e :: rest) :=
              h.disk.row.contiguous.append (by rwa [Nat.zero_add])
            refine Prog.wp_bind (wp_writeRecords hF h.toLayout hes hall hnum hroll
              (fun hd => h.safe (hdie hd)) (List.prefix_refl _)
              fun staged w' full' act' hw' hact hsafe => ?_)
            obtain ⟨a, rfl⟩ := Option.ne_none_iff_exists'.mp (hact (.inr (List.cons_ne_nil _ _)))
            refine Prog.wp_bind (wp_syncActive hF hw'.layout hsafe
              (hw'.log ▸ List.prefix_refl _) fun d hd hsolid => ?_)
            refine Vfs.wp_setRam (hok hc _ full' (some a) ⟨⟨hd, ?_⟩, ?_, fun _ b hb => ?_⟩ hw'.log)
            · exact ⟨hw'.layout.ram.max, hw'.layout.ram.activeFile, hw'.layout.ram.active,
                hw'.layout.ram.count⟩
            · rw [hw'.index, hw'.idx, h.idx]
            · obtain rfl := Option.mem_some.mp hb
              exact hsolid

end Session

end

end FileStore

end ToyRaft
