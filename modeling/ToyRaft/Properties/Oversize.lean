import ToyRaft.FileStore.StateFiles
import ToyRaft.Properties.ReopenIdentity

/-!
# Values that do not fit into 32 bits

The length of a snapshot, and that of the payload of a record, is written with 32 bits.  Neither
`SaveSnapshot` nor `Append` checks it.  A snapshot of four gibibytes cannot be loaded.  A record of
that size can be read through the index of the session that wrote it, since `decodeRecord` compares
lengths after cutting both down to 32 bits.  But `recover` takes the length from the record: no
store that was opened from files ever returns such an entry (`wp_openWith_short`).
-/

namespace ToyRaft

namespace FileStore

/-! ## What is opened from files -/

/-- No payload has a length of more than 32 bits. -/
def Short (w : Site FileStore) : Prop := ∀ ie ∈ w.ram.idx, ie.length < 2 ^ 32

lemma keeps_recoverSegs_short (names : List String) :
    Prog.Keeps Short (fun _ => True) (recoverSegs names) := by
  induction names with
  | nil => exact Prog.keeps_pure trivial
  | cons name rest ih =>
      refine (keeps_scanOne (fun _ _ => Vfs.keeps_change fun _ _ hw => hw)
        (Vfs.keeps_syncDir fun _ hw => hw)).bind fun recs hrecs => ?_
      refine Prog.Keeps.bind (Vfs.keeps_setRam ?_) fun _ _ => ih
      intro w hw ie hie
      rcases List.mem_append.mp hie with hie | hie
      · exact hw ie hie
      · obtain ⟨x, hx, rfl⟩ := List.mem_map.mp hie
        exact hrecs x hx

lemma wp_openWith_short (w : Site FileStore) (max : ℕ) :
    (openWith max).wp (fun _ => True) (fun _ => Short) (fun _ _ => True) (fun _ => True) w := by
  refine Prog.wp_bind (Vfs.wp_setRam ?_)
  have hkeeps : Prog.Keeps Short (fun _ => True) recover := by
    refine (Vfs.keeps_look.orFail _).bind fun names _ => ?_
    refine (keeps_recoverSegs_short _).bind fun _ _ => ?_
    refine (Vfs.keeps_ram (V := fun _ => True) fun _ _ => trivial).bind fun r _ => ?_
    split_ifs
    · exact Prog.keeps_pure trivial
    · exact (Vfs.keeps_look.orFail _).bind fun _ _ => Vfs.keeps_setRam fun _ hw => hw
  exact Prog.wp_mono (hkeeps _ fun ie hie => by cases hie) (fun _ _ h => h.2)
    (fun _ _ _ => trivial) fun _ _ => trivial

lemma Short.entries_fit {w : Site FileStore} (h : Short w) {lo hi : ℕ} {es : List Entry}
    (hread : (answer w (.entries lo hi)).1 = .entries es) :
    ∀ e ∈ es, payloadFixedLen + e.data.length < 2 ^ 32 := by
  have hwp : (serve (.entries lo hi)).wp (fun _ => True)
      (fun r _ => ∀ es, r = .entries es → ∀ e ∈ es, payloadFixedLen + e.data.length < 2 ^ 32)
      (fun _ _ => True) (fun _ => True) w := by
    refine Prog.wp_bind (Prog.wp_mono (keeps_entries (P := (· < 2 ^ 32)) (fun _ h => h) lo hi w h)
      (fun es w' hes => Prog.wp_pure fun es' heq => ?_) (fun _ _ _ => trivial) fun _ _ => trivial)
    cases heq
    exact hes.1
  obtain ⟨-, hend⟩ := hwp [] fun _ _ => trivial
  rw [answer, Prog.run] at hread
  rcases hrun : serve (.entries lo hi) w [] with ⟨r | e | _, w', fates⟩ <;>
    rw [hrun] at hread hend
  · exact hend es hread
  · cases hread
  · cases hread

/-! ## What is written -/

section

variable {σ : Setting} {w : Site FileStore} {full : List Seg} {act : Option Seg} {a : Seg}
  {e : Entry}

lemma wp_writeRecordLocked_any {Q : ℕ → Site FileStore → Prop}
    {E : FileError → Site FileStore → Prop} (h : Layout σ w full (some a))
    (hQ : ∀ d, d.content a.name = some (a.bytes ++ record e) →
      Q (a.bytes.length + recHeaderLen) { w with disk := d }) :
    (writeRecordLocked e).wp (· = .ok) Q E (fun _ => True) w := by
  obtain ⟨f, hf, hb⟩ := h.disk.file a rfl
  refine Prog.wp_bind (Vfs.wp_ram ?_)
  rw [h.ram.activeFile]
  simp only [Option.map_some, encodeRecord, Seg.on_handle]
  refine Prog.wp_bind (Prog.wp_orFail (Vfs.wp_size faultless_quiet (h.disk.content_eq (by simp)) ?_
    fun _ => trivial))
  refine Prog.wp_bind (Prog.wp_orFail (Prog.wp_bind (Vfs.wp_onFile (x := f) faultless_quiet
    (congrArg Slot.current hf) ?_ fun _ => trivial)))
  refine Vfs.wp_onFile (x := f.write (recHeader (payload e))) faultless_quiet
    (by rw [Site.disk_set, Disk.slot_set_self]) (Prog.wp_pure ?_) fun _ => trivial
  rw [Site.set, Site.set]
  refine hQ _ ?_
  rw [Disk.content, Disk.slot_set_self, Slot.content, Option.map_some, File.bytes_write,
    File.bytes_write, hb, List.append_assoc]
  rfl

lemma wp_entries_last {idx : List IdxEntry} {ie : IdxEntry} (pre rest : Bytes)
    (hidx : w.ram.idx = idx ++ [ie]) (hlen : e.index = idx.length + 1) (hie : ie.index = e.index)
    (hb : w.disk.content ie.segment = some (pre ++ (record e ++ rest)))
    (hoff : ie.offset = pre.length + recHeaderLen) (hlength : ie.length = (payload e).length)
    (hterm : e.term < 2 ^ 64) (hindex : e.index < 2 ^ 64) :
    (serve (.entries e.index (e.index + 1))).wp (· = .ok) (fun r _ => r = .entries [e])
      (fun _ _ => False) (fun _ => True) w := by
  have hlast : w.ram.lastIndexLocked = e.index := by
    rw [lastIndexLocked, hidx, List.getLast?_concat]
    exact hie
  have hdrop : (idx ++ [ie]).drop (e.index - 1) = [ie] := List.drop_left' (by omega)
  refine Prog.wp_bind (Prog.wp_bind (Vfs.wp_ram ?_))
  rw [hlast, hidx, if_neg (by omega), if_neg (by omega), hdrop, Nat.add_sub_cancel_left]
  exact Prog.wp_bind (wp_readEntryLocked faultless_quiet hb hoff hlength hterm hindex
    (Prog.wp_bind (Prog.wp_pure (Prog.wp_pure (Prog.wp_pure rfl)))) fun _ => trivial)

/-- An entry of any length can be read in the session that wrote it. -/
lemma Session.wp_append_any (h : Session σ w full act) (hterm : e.term < 2 ^ 64)
    (hindex : e.index < 2 ^ 64) (hnum : σ.number e.index)
    (hroll : ∀ a ∈ act, 1 ≤ σ.max - a.entries.length ∨ a.number ≤ (logOf full).length + σ.max) :
    (append [e]).wp (· = .ok)
      (fun _ w' => (serve (.entries e.index (e.index + 1))).wp (· = .ok)
        (fun r _ => r = .entries [e]) (fun _ _ => False) (fun _ => True) w')
      (fun _ _ => e.index ≠ (logOf (full ++ act.toList)).length + 1) (fun _ => True) w := by
  refine Prog.wp_bind (Vfs.wp_ram ?_)
  rw [h.readable.lastIndexLocked_eq]
  split_ifs with hne
  · exact Prog.wp_throw hne
  have hn := not_not.mp hne
  have hled : ∀ a ∈ act, σ.max ≤ a.entries.length →
      a.number ≤ (logOf full).length + σ.max := fun a ha hle =>
    (hroll a ha).resolve_left (by omega)
  have hsafe : Fate.die = .ok → Safe w.disk full act [] := nofun
  refine Prog.wp_bind (Prog.wp_bind (Prog.wp_mono (wp_ensureActive faultless_quiet
    h.toLayout hled hn hnum hsafe (List.prefix_refl _)
    fun w₁ full₁ a hw₁ _ _ _ => ?_) (fun _ _ hq => hq) (fun _ _ he => he) fun _ _ => trivial))
  refine Prog.wp_bind (wp_writeRecordLocked_any hw₁.layout fun d hd => ?_)
  refine Prog.wp_bind (Vfs.wp_ram (Prog.wp_bind (Vfs.wp_setRam (Prog.wp_bind (Prog.wp_pure
    (Prog.wp_pure ?_))))))
  refine Prog.wp_bind (Prog.wp_bind (Vfs.wp_ram ?_))
  obtain ⟨f, hf, hbytes⟩ := current_of_content hd
  rw [show w₁.ram.activeFile = some a.handle from hw₁.layout.ram.activeFile]
  simp only [Seg.on_handle]
  refine Prog.wp_orFail (Vfs.wp_onFile (x := f) faultless_quiet hf (Vfs.wp_setRam ?_)
    fun _ => trivial)
  refine wp_entries_last a.bytes []
    (congrArg (· ++ [_]) (hw₁.idx.trans h.idx)) ?_ rfl ?_ rfl (length_payload e).symm hterm hindex
  · rw [length_idxOf]
    exact hn
  · show (d.set a.name { d.slot a.name with current := some f.sync }).content w₁.ram.active = _
    rw [hw₁.layout.ram.active a rfl, Disk.content, Disk.slot_set_self, Slot.content,
      Option.map_some, File.bytes_sync, hbytes, List.append_nil]

lemma Readable.answer_last {l : List Entry} (h : Readable w (l ++ [e])) :
    (FileStore.answer w (.entries e.index (e.index + 1))).1 = .entries [e] := by
  have hlast : e.index = l.length + 1 := by
    have hidx := h.contiguous l.length e (by simp)
    omega
  have hlen : (l ++ [e]).length = e.index := by
    rw [List.length_append, hlast]
    rfl
  have hread := h.answer (c := .entries e.index (e.index + 1)) trivial
    (s := { entries := l ++ [e] }) rfl
  rw [hread, Storage.answer, Storage.getEntries, if_neg (by omega), hlen, if_neg (by omega)]
  dsimp only
  rw [List.drop_left' (by omega), Nat.add_sub_cancel_left]
  rfl

/-- An entry that was appended is read in the same session, and after the store was closed and
opened again if its length fits. -/
lemma append_reads_back (hsmall : ∀ n, σ.number n → n < 10 ^ 16)
    (h : Session σ w full act) (hterm : e.term < 2 ^ 64) (hnum : σ.number e.index)
    (hroll : ∀ a ∈ act, 1 ≤ σ.max - a.entries.length ∨ a.number ≤ (logOf full).length + σ.max)
    {w' : Site FileStore} (happend : (append [e]).run w = (.ok (), w')) (max : ℕ) :
    (answer w' (.entries e.index (e.index + 1))).1 = .entries [e] ∧
      ((∃ w'', (reopen max).run w' = (.ok (), w'') ∧
          (answer w'' (.entries e.index (e.index + 1))).1 = .entries [e]) ↔
        payloadFixedLen + e.data.length < 2 ^ 32) := by
  have hindex : e.index < 2 ^ 64 := (hsmall _ hnum).trans (by decide)
  refine ⟨?_, fun ⟨w'', hreopen, hread⟩ => ?_, fun hdata => ?_⟩
  · rcases Prog.run_of_wp (h.wp_append_any hterm hindex hnum hroll) with
      ⟨_, w₁, hrun, hread⟩ | ⟨_, _, hrun, -⟩
    · cases happend.symm.trans hrun
      rcases Prog.run_of_wp hread with ⟨r, w₂, hserve, rfl⟩ | ⟨_, _, -, hfalse⟩
      · rw [answer, hserve]
      · exact hfalse.elim
    · cases happend.symm.trans hrun
  · have hwp : (reopen max).wp (fun _ => True) (fun _ => Short) (fun _ _ => True) (fun _ => True)
        w' :=
      Prog.wp_bind (Prog.wp_mono Prog.wp_trivial (fun _ w₁ _ => wp_openWith_short w₁ max)
        (fun _ _ _ => trivial) fun _ _ => trivial)
    obtain ⟨-, hend⟩ := hwp [] fun _ _ => trivial
    obtain ⟨hok, rfl⟩ := Prod.ext_iff.mp hreopen
    rw [show (reopen max w' []).1 = .ok () from hok] at hend
    exact Short.entries_fit hend hread e (List.mem_singleton_self e)
  · have hfits : ∀ x ∈ [e], Fits x := fun x hx =>
      List.mem_singleton.mp hx ▸ ⟨hterm, hindex, hdata⟩
    have hwp := h.wp_append (Q := fun _ w₁ => ∃ full₁ act₁, Session σ w₁ full₁ act₁ ∧
        logOf (full₁ ++ act₁.toList) = logOf (full ++ act.toList) ++ [e])
      (E := fun _ _ => True) faultless_quiet (fun hd => by cases hd) hfits
      (fun x hx => List.mem_singleton.mp hx ▸ hnum) hroll
      (fun _ w₁ full₁ act₁ h₁ hlog => ⟨full₁, act₁, h₁, hlog⟩) (fun _ _ _ => trivial)
      fun _ _ _ _ _ => trivial
    rcases Prog.run_of_wp hwp with ⟨_, w₁, hrun, full₁, act₁, h₁, hlog⟩ | ⟨_, _, hrun, -⟩
    · cases happend.symm.trans hrun
      rcases Prog.run_of_wp (h₁.toLayout.wp_reopen hsmall max) with
        ⟨_, w₂, hreopen, hread⟩ | ⟨_, _, -, hfalse⟩
      · rw [hlog] at hread
        exact ⟨w₂, hreopen, hread.answer_last⟩
      · exact hfalse.elim
    · cases happend.symm.trans hrun

end

lemma load_saved {w w' : Site FileStore} {snap : Snapshot} (hindex : snap.index < 2 ^ 64)
    (hterm : snap.term < 2 ^ 64) (hsave : (saveSnapshot snap).run w = (.ok (), w')) :
    (loadSnapshot.run w').1 = .ok snap ↔ snap.data.length < 2 ^ 32 := by
  have hne : snapshotTmpFile ≠ snapshotFile := by decide
  obtain ⟨w₁, hrun, hcontent⟩ := run_replaceFile hne w (encodeSnapshot snap)
  cases hsave.symm.trans hrun
  rw [loadSnapshot, run_loadFile, hcontent, loaded, decodeSnapshot, encodeSnapshot,
    decodeFrame_encodeFrame]
  split_ifs with hdata
  · rw [Nat.mod_eq_of_lt hindex, Nat.mod_eq_of_lt hterm]
    exact iff_of_true rfl hdata
  · refine iff_of_false (fun h => ?_) hdata
    cases h

/-- A snapshot that was saved is loaded again if its length fits into 32 bits, and only then.  An
entry that was appended can be read in the same session; after the store was closed and opened
again it can be read if the length of its payload fits into 32 bits, and only then. -/
theorem saved_reads_back_iff (max : ℕ) (hmax : 1 ≤ max) (ops : List StoreStep)
    (hsize : ∀ op ∈ ops, ∀ x ∈ op.batch, Fits x ∧ x.index < 10 ^ 16) (w : Site FileStore)
    (hrun : StoreStep.execAll max (opened max) ops = some w) :
    (∀ (w₀ w₁ : Site FileStore) (snap : Snapshot), snap.index < 2 ^ 64 → snap.term < 2 ^ 64 →
        (saveSnapshot snap).run w₀ = (.ok (), w₁) →
        ((loadSnapshot.run w₁).1 = .ok snap ↔ snap.data.length < 2 ^ 32)) ∧
      ∀ (e : Entry) (w' : Site FileStore) (max' : ℕ), e.term < 2 ^ 64 → e.index < 10 ^ 16 →
        ((∀ op ∈ ops, op ≠ .reopen) ∨ AllClear max (opened max) ops ∧ RollsClear w.ram [e]) →
        (append [e]).run w = (.ok (), w') →
        (answer w' (.entries e.index (e.index + 1))).1 = .entries [e] ∧
          ((∃ w'', (reopen max').run w' = (.ok (), w'') ∧
              (answer w'' (.entries e.index (e.index + 1))).1 = .entries [e]) ↔
            payloadFixedLen + e.data.length < 2 ^ 32) := by
  refine ⟨fun w₀ w₁ snap hindex hterm hsave => load_saved hindex hterm hsave,
    fun e w' max' hterm hindex hclear happend => ?_⟩
  rcases hclear with hone | ⟨hclear, hroll⟩
  · obtain ⟨s, -, full, act, h, -⟩ :=
      (holds_opened (lastSession max hmax)).run_lastSession hone hsize hrun
    refine append_reads_back (fun _ hn => hn) h hterm hindex (fun a ha => ?_) happend max'
    exact .inr ((h.disk.led a ha).resolve_right fun hled => hled.1)
  · obtain ⟨s, -, full, act, h, -⟩ :=
      (holds_opened (reopening max hmax)).run hsize hclear hrun
    exact append_reads_back (fun _ hn => hn) h hterm hindex (h.rolls_of_rollsClear hroll) happend
      max'

/-- A second segment is begun, and the store closed and opened again. -/
theorem saved_reads_back_iff_secondSegment :
    ∃ w w', StoreStep.execAll 1 (opened 1) [.append [⟨1, 1, [7]⟩]] = some w ∧
      (append [⟨1, 2, [5]⟩]).run w = (.ok (), w') ∧
      ∃ w'', (reopen 1).run w' = (.ok (), w'') ∧
        (answer w'' (.entries 2 3)).1 = .entries [⟨1, 2, [5]⟩] := by
  obtain ⟨w, hw⟩ := Option.isSome_iff_exists.mp
    (by decide +kernel : (StoreStep.execAll 1 (opened 1) [.append [⟨1, 1, [7]⟩]]).isSome)
  have happend : ((append [⟨1, 2, [5]⟩]).run w).1 = .ok () := by
    have hall : ∀ w ∈ StoreStep.execAll 1 (opened 1) [.append [⟨1, 1, [7]⟩]],
        ((append [⟨1, 2, [5]⟩]).run w).1 = .ok () := by
      decide +kernel
    exact hall w hw
  refine ⟨w, ((append [⟨1, 2, [5]⟩]).run w).2, hw, Prod.ext happend rfl, ?_⟩
  exact ((saved_reads_back_iff 1 le_rfl [.append [⟨1, 1, [7]⟩]] (by decide) w hw).2 ⟨1, 2, [5]⟩ _ 1
    (by decide) (by decide) (.inl (by decide)) (Prod.ext happend rfl)).2.mpr (by decide)

lemma oversized_snapshot {text : Bytes} (h : text.length = 2 ^ 32) :
    ∃ w, (saveSnapshot { data := text }).run (opened 1024) = (.ok (), w) ∧
      (loadSnapshot.run w).1 ≠ .ok { data := text } := by
  have hne : snapshotTmpFile ≠ snapshotFile := by decide
  obtain ⟨w, hsave, -⟩ := run_replaceFile hne (opened 1024) (encodeSnapshot { data := text })
  refine ⟨w, hsave, fun hload => ?_⟩
  have hindex : ({ data := text } : Snapshot).index < 2 ^ 64 := Nat.two_pow_pos 64
  have hterm : ({ data := text } : Snapshot).term < 2 ^ 64 := Nat.two_pow_pos 64
  have hlt := (load_saved hindex hterm hsave).mp hload
  exact absurd h hlt.ne

lemma oversized_entry {data : Bytes} (hdata : data.length = 2 ^ 32 - 16) :
    ∃ w, (append [⟨1, 1, data⟩]).run (opened 1024) = (.ok (), w) ∧
      (answer w (.entries 1 2)).1 = .entries [⟨1, 1, data⟩] ∧
      ¬ ∃ w', (reopen 1024).run w = (.ok (), w') ∧
        (answer w' (.entries 1 2)).1 = .entries [⟨1, 1, data⟩] := by
  have h : Session (lastSession 1024 (by decide)) (opened 1024) [] none :=
    session_empty fun _ _ => rfl
  have hroll : ∀ a ∈ (none : Option Seg), 1 ≤ 1024 - a.entries.length ∨
      a.number ≤ (logOf []).length + 1024 := fun a ha => by cases ha
  have hnum : 1 < 10 ^ 16 := by decide
  have hone : 1 < 2 ^ 64 := by decide
  rcases Prog.run_of_wp (h.wp_append_any (e := ⟨1, 1, data⟩) hone hone hnum hroll) with
    ⟨_, w, hrun, -⟩ | ⟨_, _, -, hne⟩
  · obtain ⟨hread, hiff⟩ := append_reads_back (fun _ hn => hn) h (e := ⟨1, 1, data⟩) hone hnum
      hroll hrun 1024
    refine ⟨w, hrun, hread, fun hreopened => ?_⟩
    have hlt := hiff.mp hreopened
    rw [hdata] at hlt
    exact absurd hlt (by decide)
  · exact (hne rfl).elim

/-- A snapshot of four gibibytes, and an entry whose payload has that length: both are accepted by a
new store.  The snapshot cannot be loaded.  The entry can be read, but not once the store was closed
and opened again. -/
theorem oversized_not_read_back :
    (∃ w, (saveSnapshot { data := List.replicate (2 ^ 32) 0 }).run (opened 1024) = (.ok (), w) ∧
        (loadSnapshot.run w).1 ≠ .ok { data := List.replicate (2 ^ 32) 0 }) ∧
      ∃ w, (append [⟨1, 1, List.replicate (2 ^ 32 - 16) 0⟩]).run (opened 1024) = (.ok (), w) ∧
        (answer w (.entries 1 2)).1 = .entries [⟨1, 1, List.replicate (2 ^ 32 - 16) 0⟩] ∧
        ¬ ∃ w', (reopen 1024).run w = (.ok (), w') ∧
          (answer w' (.entries 1 2)).1 = .entries [⟨1, 1, List.replicate (2 ^ 32 - 16) 0⟩] :=
  ⟨oversized_snapshot List.length_replicate, oversized_entry List.length_replicate⟩

end FileStore

end ToyRaft
