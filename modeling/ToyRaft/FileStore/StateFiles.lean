import ToyRaft.FileStore.Store

/-!
# The files of the hard state and of the snapshot

The calls on the log leave the four files of the hard state and of the snapshot alone, whatever
becomes of the calls of the file system they make: they only use names that the memory of the
store holds (`Owned`) and names of segments.  At most they sync the directory (`Apart`).

`wp_replaceFile` is what saving does, and `run_loadFile` what loading does.
-/

namespace ToyRaft

namespace FileStore

/-- The files of the hard state and of the snapshot. -/
def stateFiles : List String := [hardStateFile, hardStateTmpFile, snapshotFile, snapshotTmpFile]

/-- The memory names no file of the state. -/
structure Owned (r : FileStore) : Prop where
  idx : ∀ ie ∈ r.idx, ie.segment ∉ stateFiles
  active : r.active ∉ stateFiles
  file : ∀ f ∈ r.activeFile, f.name ∉ stateFiles

/-- Since the disk was `d`, the files of the state have not changed. -/
structure Apart (d : Disk) (w : Site FileStore) : Prop where
  owned : Owned w.ram
  same : ∀ n ∈ stateFiles, w.disk.slot n = d.slot n ∨ w.disk.slot n = (d.slot n).settle

lemma isSegment_not_mem {n : String} (h : isSegment n) : n ∉ stateFiles := by
  intro hn
  rw [stateFiles, List.mem_cons, List.mem_cons, List.mem_cons, List.mem_singleton] at hn
  rcases hn with rfl | rfl | rfl | rfl <;> exact absurd h (by decide)

lemma owned_new (max : ℕ) : Owned { maxEntriesPerSegment := max } where
  idx ie hie := by cases hie
  active := show "" ∉ stateFiles by decide
  file f hf := by cases hf

lemma Apart.refl {w : Site FileStore} (h : Owned w.ram) : Apart w.disk w :=
  ⟨h, fun _ _ => .inl rfl⟩

/-! ## The calls on the log -/

section

open Prog

variable {d : Disk} {n : String}

lemma apart_set {w : Site FileStore} (h : Apart d w) (hn : n ∉ stateFiles) (s : Slot) :
    Apart d (w.set n s) where
  owned := h.owned
  same m hm := by
    have hne : m ≠ n := fun heq => hn (heq ▸ hm)
    rw [Site.disk_set, Disk.slot_set_of_ne hne]
    exact h.same m hm

/-- A change of another file. -/
lemma keeps_other (hn : n ∉ stateFiles) {f : Slot → Except VfsError Slot}
    {broken : ℕ → Slot → Slot} : Keeps (Apart d) (fun _ => True) (Vfs.change n f broken) :=
  Vfs.keeps_change fun _ s hw => apart_set hw hn s

lemma keeps_settle : Keeps (Apart d) (fun _ => True) Vfs.syncDir := by
  refine Vfs.keeps_syncDir fun w hw => ⟨hw.owned, fun m hm => .inr ?_⟩
  rw [Disk.slot_settle]
  rcases hw.same m hm with heq | heq <;> rw [heq]
  rfl

lemma keeps_memory {ε : Type} : Keeps (Apart d) Owned (Vfs.ram : Prog (Site FileStore) ε _) :=
  Vfs.keeps_ram fun _ hw => hw.owned

lemma keeps_remember {ε : Type} {f : FileStore → FileStore} (h : ∀ r, Owned r → Owned (f r)) :
    Keeps (Apart d) (fun _ => True) (Vfs.setRam f : Prog (Site FileStore) ε Unit) :=
  Vfs.keeps_setRam fun _ hw => ⟨h _ hw.owned, hw.same⟩

lemma owned_close {r : FileStore} (h : Owned r) : Owned { r with activeFile := none } :=
  ⟨h.idx, h.active, fun f hf => by cases hf⟩

lemma keeps_closeHandle {f : Vfs.Handle} (hf : f.name ∉ stateFiles) :
    Keeps (Apart d) (fun _ => True) (closeActive f) := by
  refine keeps_closeActive fun w hw => ⟨⟨hw.owned.idx, hw.owned.active, fun g hg => ?_⟩, hw.same⟩
  obtain rfl := Option.mem_some.mp hg
  exact hf

lemma keeps_closeFull : Keeps (Apart d) (fun _ => True) closeFull := by
  refine keeps_memory.bind fun r hr => ?_
  cases hfile : r.activeFile with
  | none => exact keeps_pure trivial
  | some f =>
      refine (Vfs.Handle.keeps_on (keeps_other (hr.file f hfile))).attempt.bind fun synced _ => ?_
      refine (keeps_closeHandle (hr.file f hfile)).attempt.bind fun closed _ => ?_
      cases synced with
      | error e => exact keeps_throw
      | ok u =>
          cases closed with
          | error e => exact keeps_throw
          | ok v => exact keeps_remember fun r hr => owned_close hr

lemma keeps_rolloverLocked (index : ℕ) :
    Keeps (Apart d) (fun _ => True) (rolloverLocked index) := by
  have hname := isSegment_not_mem (isSegment_segmentName index)
  refine keeps_closeFull.bind fun _ _ => ?_
  refine ((keeps_other hname).orFail _).bind fun _ _ => ?_
  refine ((keeps_other hname).orClean Vfs.keeps_look _).bind fun _ _ => ?_
  refine (keeps_settle.orClean Vfs.keeps_look _).bind fun _ _ => ?_
  refine keeps_remember fun r hr => ⟨hr.idx, hname, fun f hf => ?_⟩
  obtain rfl := Option.mem_some.mp hf
  exact hname

lemma keeps_ensureActive (index : ℕ) : Keeps (Apart d) (fun _ => True) (ensureActive index) := by
  refine keeps_memory.bind fun r _ => ?_
  split_ifs
  · exact keeps_rolloverLocked index
  · exact keeps_pure trivial

lemma keeps_writeRecordLocked (e : Entry) :
    Keeps (Apart d) (fun _ => True) (writeRecordLocked e) := by
  refine keeps_memory.bind fun r hr => ?_
  cases hfile : r.activeFile with
  | none => exact keeps_throw
  | some f =>
      refine ((Vfs.Handle.keeps_on Vfs.keeps_look).orFail _).bind fun size _ => ?_
      refine Keeps.bind (V := fun _ => True) (Keeps.orFail ?_ _) fun _ _ => keeps_pure trivial
      exact (Vfs.Handle.keeps_on (keeps_other (hr.file f hfile))).bind fun _ _ =>
        Vfs.Handle.keeps_on (keeps_other (hr.file f hfile))

lemma keeps_writeRecords (es : List Entry) :
    Keeps (Apart d) (fun staged => ∀ ie ∈ staged, ie.segment ∉ stateFiles) (writeRecords es) := by
  induction es with
  | nil => exact keeps_pure fun ie hie => by cases hie
  | cons e rest ih =>
      refine (keeps_ensureActive e.index).bind fun _ _ => ?_
      refine (keeps_writeRecordLocked e).bind fun off _ => ?_
      refine keeps_memory.bind fun r hr => ?_
      refine Keeps.bind (keeps_remember ?_) fun _ _ => ih.bind fun staged hstaged =>
        keeps_pure fun ie hie => ?_
      · exact fun r hr => ⟨hr.idx, hr.active, hr.file⟩
      · rcases List.mem_cons.mp hie with rfl | hie
        · exact hr.active
        · exact hstaged ie hie

lemma keeps_append (es : List Entry) : Keeps (Apart d) (fun _ => True) (append es) := by
  cases es with
  | nil => exact keeps_pure trivial
  | cons e rest =>
      refine keeps_memory.bind fun r hr => ?_
      split_ifs
      · exact keeps_throw
      · cases Storage.firstGap (e :: rest) with
        | some g => exact keeps_throw
        | none =>
            refine (keeps_writeRecords _).bind fun staged hstaged => ?_
            refine Keeps.bind (V := fun _ => True) (keeps_memory.bind fun r hr => ?_) fun _ _ => ?_
            · cases hfile : r.activeFile with
              | none => exact keeps_throw
              | some f => exact (Vfs.Handle.keeps_on (keeps_other (hr.file f hfile))).orFail _
            · refine keeps_remember fun r hr => ⟨fun ie hie => ?_, hr.active, hr.file⟩
              rcases List.mem_append.mp hie with hie | hie
              · exact hr.idx ie hie
              · exact hstaged ie hie

lemma keeps_dropActive (tf : String) : Keeps (Apart d) (fun _ => True) (dropActive tf) := by
  refine keeps_memory.bind fun r hr => ?_
  cases hfile : r.activeFile with
  | none => exact keeps_pure trivial
  | some f =>
      exact ((keeps_closeHandle (hr.file f hfile)).orClean Vfs.keeps_look _).bind fun _ _ =>
        keeps_remember fun r hr => owned_close hr

lemma keeps_removeSegs (tf : String) {names : List String} (h : ∀ n ∈ names, n ∉ stateFiles) :
    Keeps (Apart d) (fun _ => True) (removeSegs tf names) := by
  induction names with
  | nil => exact keeps_pure trivial
  | cons name rest ih =>
      exact ((keeps_other (h name List.mem_cons_self)).orClean Vfs.keeps_look _).bind fun _ _ =>
        ih fun n hn => h n (List.mem_cons_of_mem _ hn)

lemma keeps_truncateAt {later : List String} (hlater : ∀ n ∈ later, n ∉ stateFiles) (pos : ℕ)
    {target : IdxEntry} (htarget : target.segment ∉ stateFiles) :
    Keeps (Apart d) (fun _ => True) (truncateAt later pos target) := by
  refine (Vfs.keeps_look.orFail _).bind fun _ _ => ?_
  refine ((keeps_other htarget).orClean Vfs.keeps_look _).bind fun _ _ => ?_
  refine ((keeps_other htarget).orClean Vfs.keeps_look _).bind fun _ _ => ?_
  refine (keeps_dropActive _).bind fun _ _ => ?_
  refine (keeps_removeSegs _ hlater).bind fun _ _ => ?_
  refine (keeps_settle.orClean Vfs.keeps_look _).bind fun _ _ => ?_
  refine keeps_remember fun r hr => ⟨fun ie hie => ?_, htarget, fun f hf => ?_⟩
  · exact hr.idx ie (List.mem_of_mem_take hie)
  · obtain rfl := Option.mem_some.mp hf
    exact htarget

lemma keeps_truncateSuffix (start : ℕ) :
    Keeps (Apart d) (fun _ => True) (truncateSuffix start) := by
  refine keeps_memory.bind fun r hr => ?_
  split_ifs
  · exact keeps_pure trivial
  · exact keeps_throw
  · cases htarget : r.idx[start - 1]? with
    | none => exact keeps_throw
    | some target =>
        refine keeps_truncateAt (fun n hn => ?_) _ (hr.idx _ (List.mem_of_getElem? htarget))
        simp only [laterSegs, List.mem_reverse, List.mem_dedup, List.mem_filter,
          List.mem_map] at hn
        obtain ⟨⟨ie, hie, rfl⟩, -⟩ := hn
        exact hr.idx ie (List.mem_of_mem_drop hie)

end

/-! ## Reads, opening and closing -/

section

open Prog

variable {I : Site FileStore → Prop} {d : Disk}

/-- The data of an entry that is read is as long as the index says. -/
lemma keeps_readEntryLocked (ie : IdxEntry) :
    Keeps I (fun e => payloadFixedLen + e.data.length = ie.length) (readEntryLocked ie) := by
  refine (Vfs.keeps_look.orFail _).bind fun _ _ => ?_
  refine Keeps.bind (Keeps.attempt (V := fun e => payloadFixedLen + e.data.length = ie.length) ?_)
    fun r hr => ?_
  · refine (Vfs.keeps_look.orFail _).bind fun hdr _ => ?_
    refine (Vfs.keeps_readAt.orFail _).bind fun p hp => ?_
    cases hdec : decodeRecord hdr p with
    | error err => exact keeps_throw
    | ok e => exact keeps_pure ((length_of_decodeRecord hdec).trans hp)
  · refine Vfs.keeps_look.attempt.bind fun _ _ => ?_
    cases r with
    | error err => exact keeps_throw
    | ok e => exact keeps_pure (hr e rfl)

lemma keeps_readEntries {P : ℕ → Prop} {ies : List IdxEntry} (h : ∀ ie ∈ ies, P ie.length) :
    Keeps I (fun es => ∀ e ∈ es, P (payloadFixedLen + e.data.length)) (readEntries ies) := by
  induction ies with
  | nil => exact keeps_pure fun e he => by cases he
  | cons ie rest ih =>
      refine (keeps_readEntryLocked ie).bind fun e he => ?_
      refine (ih fun x hx => h x (List.mem_cons_of_mem _ hx)).bind fun es hes => ?_
      refine keeps_pure (List.forall_mem_cons.mpr ⟨?_, hes⟩)
      rw [he]
      exact h ie List.mem_cons_self

lemma keeps_entries {P : ℕ → Prop} (h : ∀ w, I w → ∀ ie ∈ w.ram.idx, P ie.length) (lo hi : ℕ) :
    Keeps I (fun es => ∀ e ∈ es, P (payloadFixedLen + e.data.length)) (entries lo hi) := by
  refine (Vfs.keeps_ram (V := fun r => ∀ ie ∈ r.idx, P ie.length) h).bind fun r hr => ?_
  split_ifs
  · exact keeps_throw
  · exact keeps_throw
  · dsimp only
    split_ifs
    · exact keeps_throw
    · exact keeps_readEntries fun ie hie =>
        hr ie (List.mem_of_mem_drop (List.mem_of_mem_take hie))

lemma keeps_term (index : ℕ) : Keeps I (fun _ => True) (term index) := by
  refine (Vfs.keeps_ram (V := fun _ => True) fun _ _ => trivial).bind fun r _ => ?_
  split_ifs
  · exact keeps_pure trivial
  · exact keeps_throw
  · cases r.idx[index - 1]? with
    | none => exact keeps_throw
    | some ie => exact keeps_pure trivial

lemma keeps_lastIndex : Keeps I (fun _ => True) lastIndex :=
  (Vfs.keeps_ram (V := fun _ => True) fun _ _ => trivial).bind fun _ _ => keeps_pure trivial

lemma keeps_loadFile {α : Type} (name : String) (decode : Bytes → Except FrameError α) (zero : α) :
    Keeps I (fun _ => True) (loadFile name decode zero) := by
  refine Keeps.bind (V := fun _ => True) ?_ fun r _ => ?_
  · refine Vfs.keeps_look.attempt.bind fun opened _ => ?_
    rcases opened with (_ | _ | _ | _) | _
    · exact keeps_pure trivial
    · exact keeps_throw
    · exact keeps_throw
    · exact keeps_throw
    · refine Keeps.bind (V := fun _ => True) (Keeps.weaken (Keeps.attempt (V := fun _ => True) ?_)
        fun _ _ => trivial) fun r _ => ?_
      · exact Vfs.keeps_look.bind fun size _ => Vfs.keeps_look
      · refine Vfs.keeps_look.attempt.bind fun _ _ => ?_
        cases r with
        | error err => exact keeps_throw
        | ok b => exact keeps_pure trivial
  · cases r with
    | none => exact keeps_pure trivial
    | some b =>
        dsimp only
        cases decode b with
        | error err => exact keeps_throw
        | ok a => exact keeps_pure trivial

/-- A record that is scanned has a length of 32 bits. -/
lemma keeps_scanRecord (name : String) (size off : ℕ) :
    Keeps I (fun r => ∀ x ∈ r, payloadFixedLen + x.1.data.length < 2 ^ 32)
      (scanRecord name size off) := by
  have hnone : ∀ x ∈ (none : Option (Entry × ℕ)), payloadFixedLen + x.1.data.length < 2 ^ 32 :=
    fun x hx => by cases hx
  refine Vfs.keeps_readAt.attempt.bind fun r hhdr => ?_
  cases r with
  | error err => exact keeps_pure hnone
  | ok hdr =>
      have hlt : leNat (hdr.take 4) < 256 ^ 4 := leNat_lt (by
        rw [List.length_take, hhdr hdr rfl]
        rfl)
      dsimp only
      split_ifs
      · exact keeps_pure hnone
      · refine Vfs.keeps_readAt.attempt.bind fun r hr => ?_
        cases r with
        | error err => exact keeps_pure hnone
        | ok p =>
            dsimp only
            cases hdec : decodeRecord hdr p with
            | error err => exact keeps_pure hnone
            | ok e =>
                refine keeps_pure fun x hx => ?_
                obtain rfl := Option.mem_some.mp hx
                rw [length_of_decodeRecord hdec, hr p rfl]
                exact hlt

lemma keeps_scanSegment (name : String) :
    Keeps I (fun found => ∀ x ∈ found.1, payloadFixedLen + x.dataLen < 2 ^ 32)
      (scanSegment name) := by
  have hloop : ∀ (size fuel off : ℕ) (recs : List ScanRec),
      (∀ x ∈ recs, payloadFixedLen + x.dataLen < 2 ^ 32) →
      Keeps I (fun found => ∀ x ∈ found.1, payloadFixedLen + x.dataLen < 2 ^ 32)
        (scanRecords name size fuel off recs) := by
    intro size fuel
    induction fuel with
    | zero => exact fun off recs hrecs => keeps_pure hrecs
    | succ fuel ih =>
        intro off recs hrecs
        rw [scanRecords]
        split_ifs
        · exact keeps_pure hrecs
        · refine (keeps_scanRecord name size off).bind fun r hr => ?_
          cases r with
          | none => exact keeps_pure hrecs
          | some r =>
              refine ih _ _ fun x hx => ?_
              rcases List.mem_append.mp hx with hx | hx
              · exact hrecs x hx
              · rw [List.mem_singleton.mp hx]
                exact hr r rfl
  refine (Vfs.keeps_look.orFail _).bind fun size _ => ?_
  refine (Vfs.keeps_look.orFail _).bind fun shdr _ => ?_
  cases readSegHeader shdr with
  | error err => exact keeps_throw
  | ok u => exact hloop _ _ _ _ fun x hx => by cases hx

lemma keeps_scanOne {name : String}
    (hchange : ∀ f broken, Keeps I (fun _ => True) (Vfs.change name f broken))
    (hsync : Keeps I (fun _ => True) Vfs.syncDir) :
    Keeps I (fun recs => ∀ x ∈ recs, payloadFixedLen + x.dataLen < 2 ^ 32) (scanOne name) := by
  refine (Vfs.keeps_look.orFail _).bind fun _ _ => ?_
  refine Keeps.bind (Keeps.attempt
    (V := fun recs => ∀ x ∈ recs, payloadFixedLen + x.dataLen < 2 ^ 32) ?_) fun r hr => ?_
  · refine (Vfs.keeps_look.orFail _).bind fun size _ => ?_
    refine ((keeps_scanSegment name).orFail _).bind fun found hfound => ?_
    refine Keeps.bind (V := fun _ => True) ?_ fun _ _ => keeps_pure hfound
    unfold trimTail
    split_ifs
    · refine ((hchange _ _).orFail _).bind fun _ _ => ?_
      exact ((hchange _ _).orFail _).bind fun _ _ => hsync.orFail _
    · exact keeps_pure trivial
  · refine Vfs.keeps_look.attempt.bind fun closed _ => ?_
    cases r with
    | error err => exact keeps_throw
    | ok recs =>
        cases closed with
        | error err => exact keeps_throw
        | ok u => exact keeps_pure (hr recs rfl)

lemma keeps_recoverSegs {names : List String} (h : ∀ n ∈ names, n ∉ stateFiles) :
    Keeps (Apart d) (fun _ => True) (recoverSegs names) := by
  induction names with
  | nil => exact keeps_pure trivial
  | cons name rest ih =>
      have hname := h name List.mem_cons_self
      refine (keeps_scanOne (fun _ _ => keeps_other hname) keeps_settle).bind fun recs _ => ?_
      refine Keeps.bind (keeps_remember ?_) fun _ _ =>
        ih fun n hn => h n (List.mem_cons_of_mem _ hn)
      refine fun r hr => ⟨fun ie hie => ?_, hname, hr.file⟩
      rcases List.mem_append.mp hie with hie | hie
      · exact hr.idx ie hie
      · obtain ⟨rec, -, rfl⟩ := List.mem_map.mp hie
        exact hname

/-- `openWith` forgets the memory there was. -/
lemma keeps_openWith (max : ℕ) : Keeps (Apart d) (fun _ => True) (openWith max) := by
  refine (keeps_remember fun _ _ => owned_new max).bind fun _ _ => ?_
  refine (Vfs.keeps_look.orFail _).bind fun names _ => ?_
  refine (keeps_recoverSegs fun n hn => ?_).bind fun _ _ => ?_
  · exact isSegment_not_mem (List.mem_filter.mp hn).2
  · refine keeps_memory.bind fun r hr => ?_
    split_ifs
    · exact keeps_pure trivial
    · refine (Vfs.keeps_look.orFail _).bind fun _ _ => keeps_remember fun r' hr' => ?_
      refine ⟨hr'.idx, hr'.active, fun f hf => ?_⟩
      obtain rfl := Option.mem_some.mp hf
      exact hr.active

lemma keeps_close : Keeps (Apart d) (fun _ => True) close := by
  refine keeps_memory.bind fun r hr => ?_
  cases hfile : r.activeFile with
  | none => exact keeps_pure trivial
  | some f =>
      refine (Vfs.Handle.keeps_on (keeps_other (hr.file f hfile))).attempt.bind fun synced _ => ?_
      refine (keeps_closeHandle (hr.file f hfile)).attempt.bind fun closed _ => ?_
      refine (keeps_remember fun r hr => owned_close hr).bind fun _ _ => ?_
      cases synced with
      | error e => exact keeps_throw
      | ok u =>
          cases closed with
          | error e => exact keeps_throw
          | ok v => exact keeps_pure trivial

end

/-! ## Saving and loading -/

section

variable {w : Site FileStore} {tmp final : String} {P : Option Bytes → Prop}

/-- Every version of the file `final` has the property `P`, and nothing else has changed but the
file `tmp`. -/
structure Swapped (tmp final : String) (w : Site FileStore) (P : Option Bytes → Prop)
    (w' : Site FileStore) : Prop where
  ram : w'.ram = w.ram
  versions : (w'.disk.slot final).Versions P
  other : ∀ n, n ≠ tmp → n ≠ final →
    w'.disk.slot n = w.disk.slot n ∨ w'.disk.slot n = (w.disk.slot n).settle

/-- Only the file `tmp` has changed. -/
lemma swapped_of_tmp (hne : tmp ≠ final) (h : (w.disk.slot final).Versions P)
    {w' : Site FileStore} (hram : w'.ram = w.ram)
    (hslot : ∀ n, n ≠ tmp → w'.disk.slot n = w.disk.slot n) : Swapped tmp final w P w' where
  ram := hram
  versions := by
    rw [hslot final hne.symm]
    exact h
  other n hn _ := .inl (hslot n hn)

/-- A file is replaced: as a whole if that succeeds, and as a whole or not at all if it does
not. -/
lemma wp_replaceFile (hne : tmp ≠ final) (h : (w.disk.slot final).Versions P) (b : Bytes) :
    (replaceFile tmp final b).wp (fun _ => True) (fun _ => Swapped tmp final w (· = some b))
      (fun _ => Swapped tmp final w fun c => P c ∨ c = some b)
      (Swapped tmp final w fun c => P c ∨ c = some b) w := by
  have hold : (w.disk.slot final).Versions fun c => P c ∨ c = some b := h.mono fun _ => .inl
  have hset : ∀ s, Swapped tmp final w (fun c => P c ∨ c = some b) (w.set tmp s) := fun s =>
    swapped_of_tmp hne hold rfl fun n hn => Disk.slot_set_of_ne hn _ _
  have hstart : Swapped tmp final w (fun c => P c ∨ c = some b) w :=
    swapped_of_tmp hne hold rfl fun _ _ => rfl
  -- closing the temporary file changes nothing
  have hclean : ∀ w', Swapped tmp final w (fun c => P c ∨ c = some b) w' →
      (Vfs.close tmp : Prog (Site FileStore) VfsError Unit).wp (fun _ => True)
        (fun _ => Swapped tmp final w fun c => P c ∨ c = some b)
        (fun _ => Swapped tmp final w fun c => P c ∨ c = some b)
        (Swapped tmp final w fun c => P c ∨ c = some b) w' := fun w' hw' =>
    Vfs.wp_look (fun _ _ => hw') (fun _ _ => hw') (fun _ _ => hw') fun _ => hw'
  refine Prog.wp_bind (Prog.wp_orFail (Vfs.wp_change (fun s hs => ?_) (fun _ he => by cases he)
    (fun _ _ => hset _) fun _ => hstart))
  cases hs
  refine Prog.wp_bind (Prog.wp_orClean (Vfs.wp_change (fun s hs => ?_)
    (fun _ _ => hclean _ (hset _)) (fun _ _ => ?_) fun _ => hset _))
  swap
  · rw [Site.set, Site.disk_set, Disk.set_set]
    exact hclean _ (hset _)
  rw [Site.disk_set, Disk.slot_set_self] at hs
  cases hs
  rw [Site.set, Site.disk_set, Disk.set_set]
  refine Prog.wp_bind (Prog.wp_orClean (Vfs.wp_change (fun s hs => ?_)
    (fun _ _ => hclean _ (hset _)) (fun _ _ => ?_) fun _ => hset _))
  swap
  · rw [Site.set, Disk.set_set]
    exact hclean _ (hset _)
  rw [Disk.slot_set_self] at hs
  cases hs
  rw [Site.set, Disk.set_set]
  refine Prog.wp_bind (Prog.wp_orFail (Vfs.wp_look (fun _ _ => ?_) (fun _ he => by cases he)
    (fun _ _ => hset _) fun _ => hset _))
  -- the new file is complete and durable, and takes the name of the old one
  refine Prog.wp_bind (Prog.wp_orFail (Vfs.wp_rename (x := { durable := b }) hne ?_
    (fun w' hram hnew hother => ?_) (fun _ _ => hset _) fun _ => hset _))
  · rw [Disk.slot_set_self]
    rfl
  have hkept : ∀ n, n ≠ tmp → n ≠ final → w'.disk.slot n = w.disk.slot n := fun n hn hn' =>
    (hother n hn hn').trans (Disk.slot_set_of_ne hn _ _)
  rw [Disk.slot_set_of_ne hne.symm] at hnew
  have hrenamed : Swapped tmp final w (fun c => P c ∨ c = some b) w' := by
    refine ⟨hram, ?_, fun n hn hn' => .inl (hkept n hn hn')⟩
    rw [hnew]
    exact hold.bind_solid (.inr rfl)
  refine Prog.wp_orFail (Prog.wp_call (fun u w'' hw'' => ?_) (fun _ he => by cases he)
    (fun _ _ => hrenamed) fun _ => hrenamed)
  cases hw''
  refine ⟨hram, ?_, fun n hn hn' => .inr ?_⟩
  · rw [Disk.slot_settle, hnew]
    intro v hv
    rw [List.mem_singleton.mp hv]
    refine ⟨fun f hf => ?_, rfl⟩
    obtain rfl := Option.mem_some.mp hf
    rfl
  · rw [Disk.slot_settle, hkept n hn hn']

/-- Without faults the file is replaced, whatever was there before. -/
lemma run_replaceFile (hne : tmp ≠ final) (w : Site FileStore) (b : Bytes) :
    ∃ w', (replaceFile tmp final b).run w = (.ok (), w') ∧ w'.disk.content final = some b := by
  have hwp : (replaceFile tmp final b).wp (· = .ok) (fun _ w' => w'.disk.content final = some b)
      (fun _ _ => False) (fun _ => True) w := by
    refine Prog.wp_bind (Prog.wp_orFail (Vfs.wp_create faultless_quiet ?_ fun _ => trivial))
    refine Prog.wp_bind (Prog.wp_orClean (Vfs.wp_onFile (x := {}) faultless_quiet ?_ ?_
      fun _ => trivial))
    · rw [Site.disk_set, Disk.slot_set_self]
      rfl
    refine Prog.wp_bind (Prog.wp_orClean (Vfs.wp_onFile (x := { unsynced := b }) faultless_quiet
      ?_ ?_ fun _ => trivial))
    · rw [Site.disk_set, Disk.slot_set_self]
      rfl
    refine Prog.wp_bind (Prog.wp_orFail (Vfs.wp_close faultless_quiet ?_ fun _ => trivial))
    refine Prog.wp_bind (Prog.wp_orFail (Vfs.wp_rename (x := { durable := b }) hne ?_
      (fun w' _ hnew _ => ?_) (fun _ hfail => by cases hfail) fun _ => trivial))
    · rw [Site.disk_set, Disk.slot_set_self]
      rfl
    refine Prog.wp_orFail (Vfs.wp_syncDir faultless_quiet ?_ fun _ => trivial)
    rw [Disk.content, Disk.slot_settle, hnew]
    exact congrArg some (List.append_nil b)
  rcases Prog.run_of_wp hwp with ⟨u, w', hrun, hcontent⟩ | ⟨e, w', hrun, hfalse⟩
  · exact ⟨w', hrun, hcontent⟩
  · exact hfalse.elim

lemma wp_readFile {name : String} :
    (readFile name).wp (· = .ok) (fun r w' => r = w.disk.content name ∧ w' = w)
      (fun _ _ => False) (fun _ => True) w := by
  refine Prog.wp_bind (Prog.wp_attempt ?_)
  cases hc : w.disk.content name with
  | none =>
      have hcur : (w.disk.slot name).current = none := Option.map_eq_none_iff.mp hc
      refine Vfs.wp_look (fun _ hok => ?_) (fun e he => ?_) (fun _ hfail => by cases hfail)
        fun _ => trivial
      · rw [hcur] at hok
        cases hok
      · rw [hcur] at he
        cases he
        exact Prog.wp_pure ⟨rfl, rfl⟩
  | some b =>
      obtain ⟨f, hf, -⟩ := Option.map_eq_some_iff.mp hc
      refine Vfs.wp_openFile faultless_quiet hf ?_ fun _ => trivial
      refine Prog.wp_bind (Prog.wp_attempt (Prog.wp_bind (Vfs.wp_size faultless_quiet hc ?_
        fun _ => trivial)))
      refine Vfs.wp_readAt faultless_quiet hc (fun _ => ?_) (fun hlt => by omega) fun _ => trivial
      refine Prog.wp_bind (Prog.wp_attempt (Vfs.wp_close faultless_quiet ?_ fun _ => trivial))
      rw [List.drop_zero, List.take_length]
      exact Prog.wp_pure ⟨rfl, rfl⟩

/-- What a file is loaded as. -/
def loaded {α : Type} (name : String) (decode : Bytes → Except FrameError α) (zero : α) :
    Option Bytes → Outcome FileError α
  | none => .ok zero
  | some b =>
      match decode b with
      | .error err => .error (.corrupt name err)
      | .ok a => .ok a

/-- Loading reads the file, if it is there. -/
lemma run_loadFile {α : Type} (name : String) (decode : Bytes → Except FrameError α) (zero : α) :
    (loadFile name decode zero).run w = (loaded name decode zero (w.disk.content name), w) := by
  have hwp : (loadFile name decode zero).wp (· = .ok)
      (fun a w' => loaded name decode zero (w.disk.content name) = .ok a ∧ w' = w)
      (fun e w' => loaded name decode zero (w.disk.content name) = .error e ∧ w' = w)
      (fun _ => True) w := by
    refine Prog.wp_bind (Prog.wp_mono wp_readFile ?_ (fun _ _ hfalse => hfalse.elim)
      fun _ hr => hr)
    rintro r w' ⟨rfl, rfl⟩
    cases w'.disk.content name with
    | none => exact Prog.wp_pure ⟨rfl, rfl⟩
    | some b =>
        rw [loaded]
        dsimp only
        cases decode b with
        | error err => exact Prog.wp_throw ⟨rfl, rfl⟩
        | ok a => exact Prog.wp_pure ⟨rfl, rfl⟩
  rcases Prog.run_of_wp hwp with ⟨a, w', hrun, hload, rfl⟩ | ⟨e, w', hrun, hload, rfl⟩
  · rw [hrun, hload]
  · rw [hrun, hload]

end

end FileStore

end ToyRaft
