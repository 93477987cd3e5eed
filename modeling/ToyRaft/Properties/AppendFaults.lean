import ToyRaft.Properties.TruncateFaults

/-!
# An append that fails

`Append` extends its index only when everything is written and synced, so whatever fails, the log
reads as before (`reads_after_fault`).  What was written by then stays in the files, though.  A part
of a record that is left in the active segment hides what is written behind it, and a whole record
is taken for an entry when the store is opened again.

A fault leaves nothing behind if no byte of a record was written by then, and the header of a new
segment was written as a whole or not at all (`Harmless`).  Later appends, and a store that is
closed and opened again, then see the log as if the failed append had not been made.

If the `Sync` or the `Close` of a full segment fails, the store keeps the closed file (`Jammed`).
It can be read, and a store opened on its directory has the log from before, but no entry can be
appended to it any more, and its own `Close` fails.
-/

namespace ToyRaft

namespace FileStore

/-! ## What is read after a fault -/

/-- The files of the row have at most been added to, and `P` holds of the memory. -/
structure Grown (row : List Seg) (P : FileStore → Prop) (w : Site FileStore) : Prop where
  content : ∀ s ∈ row, ∃ t, w.disk.content s.name = some (s.bytes ++ t)
  ram : P w.ram

section

open Prog

variable {row : List Seg} {P : FileStore → Prop} {w : Site FileStore} {n : String}

lemma Grown.set (h : Grown row P w) {s : Slot}
    (hs : ∀ b, w.disk.content n = some b → ∃ t, s.content = some (b ++ t)) :
    Grown row P (w.set n s) where
  content u hu := by
    obtain ⟨t, ht⟩ := h.content u hu
    by_cases hn : u.name = n
    · subst hn
      obtain ⟨t', ht'⟩ := hs _ ht
      refine ⟨t ++ t', ?_⟩
      rw [Site.disk_set, Disk.content_set_self, ht', List.append_assoc]
    · exact ⟨t, (Disk.content_set_of_ne hn _ _).trans ht⟩
  ram := h.ram

lemma Grown.mono {P' : FileStore → Prop} (h : Grown row P w) (hP : P w.ram → P' w.ram) :
    Grown row P' w :=
  ⟨h.content, hP h.ram⟩

lemma keeps_write_grown (p : Bytes) : Keeps (Grown row P) (fun _ => True) (Vfs.write n p) := by
  refine Vfs.keeps_onFile (fun w x hw hx => hw.set fun b hb => ⟨p, ?_⟩) fun w k hw =>
    hw.set fun b hb => ⟨p.take k, ?_⟩
  · rw [Disk.content, Slot.content, hx, Option.map_some, Option.some.injEq] at hb
    rw [Slot.content, Option.map_some, File.bytes_write, hb]
  · obtain ⟨x, hx, hxb⟩ := current_of_content hb
    rw [Slot.content, hx, Option.map_some, Option.map_some, File.bytes_write, hxb]

lemma keeps_sync_grown : Keeps (Grown row P) (fun _ => True) (Vfs.sync n) := by
  refine Vfs.keeps_onFile (fun w x hw hx => hw.set fun b hb => ⟨[], ?_⟩) fun w k hw =>
    hw.set fun b hb => ⟨[], ?_⟩
  · rw [Disk.content, Slot.content, hx, Option.map_some, Option.some.injEq] at hb
    rw [Slot.content, Option.map_some, File.bytes_sync, hb, List.append_nil]
  · rw [List.append_nil]
    exact hb

/-- A new file does not take the name of one of the row. -/
lemma keeps_create_grown (hn : ∀ s ∈ row, s.name ≠ n) :
    Keeps (Grown row P) (fun _ => True) (Vfs.create n) := by
  refine Vfs.keeps_change fun w s hw => ⟨fun u hu => ?_, hw.ram⟩
  obtain ⟨t, ht⟩ := hw.content u hu
  exact ⟨t, (Disk.content_set_of_ne (hn u hu) _ _).trans ht⟩

lemma keeps_syncDir_grown : Keeps (Grown row P) (fun _ => True) Vfs.syncDir :=
  Vfs.keeps_syncDir fun _ hw => ⟨hw.content, hw.ram⟩

lemma keeps_closeFull_grown (hP : ∀ r g, P r → P { r with activeFile := g }) :
    Keeps (Grown row P) (fun _ => True) closeFull := by
  refine (Vfs.keeps_ram (V := fun _ => True) fun _ _ => trivial).bind fun r _ => ?_
  cases r.activeFile with
  | none => exact keeps_pure trivial
  | some f =>
      refine (Vfs.Handle.keeps_on keeps_sync_grown).attempt.bind fun synced _ => ?_
      refine (keeps_closeActive fun w hw => ⟨hw.content, hP _ _ hw.ram⟩).attempt.bind
        fun closed _ => ?_
      cases synced with
      | error e => exact keeps_throw
      | ok u =>
          cases closed with
          | error e => exact keeps_throw
          | ok v => exact Vfs.keeps_setRam fun w hw => ⟨hw.content, hP _ _ hw.ram⟩

lemma keeps_writeRecordLocked_grown (e : Entry) :
    Keeps (Grown row P) (fun _ => True) (writeRecordLocked e) := by
  refine (Vfs.keeps_ram (V := fun _ => True) fun _ _ => trivial).bind fun r _ => ?_
  cases r.activeFile with
  | none => exact keeps_throw
  | some f =>
      refine ((Vfs.Handle.keeps_on Vfs.keeps_look).orFail _).bind fun size _ => ?_
      refine Keeps.bind (V := fun _ => True) (Keeps.orFail ?_ _) fun _ _ => keeps_pure trivial
      exact (Vfs.Handle.keeps_on (keeps_write_grown _)).bind fun _ _ =>
        Vfs.Handle.keeps_on (keeps_write_grown _)

lemma keeps_syncActive_grown : Keeps (Grown row P) (fun _ => True) syncActive := by
  refine (Vfs.keeps_ram (V := fun _ => True) fun _ _ => trivial).bind fun r _ => ?_
  cases r.activeFile with
  | none => exact keeps_throw
  | some f => exact (Vfs.Handle.keeps_on keeps_sync_grown).orFail _

/-! ### The loop -/

/-- How many more entries go into the active segment. -/
def roomLeft (r : FileStore) : ℕ :=
  if r.activeFile = none then 0 else r.maxEntriesPerSegment - r.activeCount

/-- The memory in the middle of an append, before the entry with index `i`.  A new segment is only
begun when there is no room left, so it does not take a name of the row. -/
structure Due (row : List Seg) (idx : List IdxEntry) (max i : ℕ) (r : FileStore) : Prop where
  idx_eq : r.idx = idx
  max_eq : r.maxEntriesPerSegment = max
  ahead : ∀ s ∈ row, s.number < i + roomLeft r

variable {idx : List IdxEntry} {max i : ℕ}

lemma wp_ensureActive_grown (hmax : 0 < max) (h : Grown row (Due row idx max i) w) :
    (ensureActive i).wp (fun _ => True)
      (fun _ => Grown row fun r => Due row idx max i r ∧ 0 < roomLeft r)
      (fun _ => Grown row (·.idx = idx)) (fun _ => True) w := by
  refine Prog.wp_bind (Vfs.wp_ram ?_)
  split_ifs with hfull
  · have hzero : roomLeft w.ram = 0 := by
      rw [roomLeft]
      split_ifs with hnone
      · rfl
      · exact Nat.sub_eq_zero_of_le (hfull.resolve_left hnone)
    have hahead : ∀ s ∈ row, s.number < i := fun s hs => by
      have hlt := h.ram.ahead s hs
      rwa [hzero] at hlt
    have hname : ∀ s ∈ row, s.name ≠ segmentName i := fun s hs heq =>
      (hahead s hs).ne (segmentName_injective heq)
    have hstart : Grown row (fun r => r.idx = idx ∧ r.maxEntriesPerSegment = max) w :=
      h.mono fun hdue => ⟨hdue.idx_eq, hdue.max_eq⟩
    refine Prog.wp_mono (E := fun _ => Grown row fun r => r.idx = idx ∧
      r.maxEntriesPerSegment = max) (R := fun _ => True) ?_ (fun _ _ hq => hq)
      (fun _ w' hw' => hw'.mono And.left) fun _ hr => hr
    refine (keeps_closeFull_grown fun _ _ hr => hr).wp_bind hstart fun _ w₁ _ h₁ => ?_
    refine ((keeps_create_grown hname).orFail _).wp_bind h₁ fun _ w₂ _ h₂ => ?_
    refine ((keeps_write_grown _).orClean Vfs.keeps_look _).wp_bind h₂ fun _ w₃ _ h₃ => ?_
    refine (keeps_syncDir_grown.orClean Vfs.keeps_look _).wp_bind h₃ fun _ w₄ _ h₄ => ?_
    refine Vfs.wp_setRam ⟨h₄.content, ⟨h₄.ram.1, h₄.ram.2, fun s hs => ?_⟩, ?_⟩
    · exact (hahead s hs).trans_le (Nat.le_add_right _ _)
    · show 0 < w₄.ram.maxEntriesPerSegment - 0
      rw [h₄.ram.2]
      exact hmax
  · push Not at hfull
    refine Prog.wp_pure ⟨h.content, h.ram, ?_⟩
    rw [roomLeft, if_neg hfull.1]
    exact Nat.sub_pos_of_lt hfull.2

lemma wp_writeRecords_grown (hmax : 0 < max) {base : ℕ} {es : List Entry}
    (hes : Log.ContiguousFrom base es) (h : Grown row (Due row idx max (base + 1)) w) :
    (writeRecords es).wp (fun _ => True) (fun _ => Grown row (·.idx = idx))
      (fun _ => Grown row (·.idx = idx)) (fun _ => True) w := by
  induction es generalizing w base with
  | nil => exact Prog.wp_pure (h.mono fun hdue => hdue.idx_eq)
  | cons e rest ih =>
      obtain ⟨hindex, hrest⟩ := Log.contiguousFrom_cons.mp hes
      rw [writeRecords, hindex]
      refine Prog.wp_bind (Prog.wp_mono (wp_ensureActive_grown hmax h) (fun _ w₁ h₁ => ?_)
        (fun _ _ he => he) fun _ hr => hr)
      refine Prog.wp_bind (Prog.wp_mono (keeps_writeRecordLocked_grown e w₁ h₁)
        (fun off w₂ h₂ => ?_) (fun _ _ he => he.mono fun hdue => hdue.1.idx_eq) fun _ _ => trivial)
      refine Prog.wp_bind (Vfs.wp_ram (Prog.wp_bind (Vfs.wp_setRam (Prog.wp_bind ?_))))
      obtain ⟨hdue, hroom⟩ := h₂.2.ram
      refine Prog.wp_mono (ih hrest ⟨h₂.2.content, hdue.idx_eq, hdue.max_eq, fun s hs => ?_⟩)
        (fun _ _ hq => Prog.wp_pure hq) (fun _ _ he => he) fun _ hr => hr
      have hlt := hdue.ahead s hs
      have hsome : w₂.ram.activeFile ≠ none := fun hnone => by
        rw [roomLeft, if_pos hnone] at hroom
        exact lt_irrefl _ hroom
      rw [roomLeft, if_neg hsome] at hlt hroom
      rw [roomLeft, if_neg hsome]
      dsimp only
      omega

lemma append_error_grown (hmax : 0 < max) {es : List Entry}
    (h : Grown row (Due row idx max (w.ram.lastIndexLocked + 1)) w) {fs rest : List Fate}
    {e : FileError} {w' : Site FileStore} (hrun : append es w fs = (.error e, w', rest)) :
    Grown row (·.idx = idx) w' := by
  refine Prog.error_of_wp (Q := fun _ _ => True) (R := fun _ => True)
    (E := fun _ => Grown row (·.idx = idx)) ?_ hrun
  have hstart : Grown row (·.idx = idx) w := h.mono fun hdue => hdue.idx_eq
  cases es with
  | nil => exact Prog.wp_pure trivial
  | cons e es =>
      refine Prog.wp_bind (Vfs.wp_ram ?_)
      split_ifs with he
      · exact Prog.wp_throw hstart
      · cases hgap : Storage.firstGap (e :: es) with
        | some g => exact Prog.wp_throw hstart
        | none =>
            have hc : Log.ContiguousFrom w.ram.lastIndexLocked (e :: es) := by
              rw [Log.contiguousFrom_cons, ← not_not.mp he]
              exact ⟨rfl, (Storage.firstGap_eq_none_iff e es).mp hgap⟩
            refine Prog.wp_bind (Prog.wp_mono (wp_writeRecords_grown hmax hc h) (fun _ w₁ h₁ => ?_)
              (fun _ _ he => he) fun _ hr => hr)
            exact keeps_syncActive_grown.wp_bind h₁ fun _ _ _ _ => Vfs.wp_setRam trivial

end

section

variable {max : ℕ} {hmax : 0 < max} {w w' : Site FileStore} {full : List Seg} {act : Option Seg}

/-- A session at the beginning of an append. -/
lemma Session.due (h : Session (lastSession max hmax) w full act) :
    Grown (full ++ act.toList)
      (Due (full ++ act.toList) w.ram.idx max (w.ram.lastIndexLocked + 1)) w where
  content s hs := ⟨[], by rw [List.append_nil]; exact h.disk.content_eq hs⟩
  ram := by
    refine ⟨rfl, h.ram.max, fun s hs => ?_⟩
    rw [h.readable.lastIndexLocked_eq, roomLeft, h.ram.activeFile]
    cases act with
    | none =>
        have hle := h.disk.clear rfl s (by simpa using hs)
        rw [Option.toList_none, List.append_nil]
        omega
    | some a =>
        have hled : a.number ≤ (logOf full).length + max :=
          (h.disk.led a rfl).resolve_right fun hled => hled.1
        have hle : s.number ≤ a.number := by
          rcases List.mem_append.mp hs with hs | hs
          · exact ((List.pairwise_append.mp h.disk.row.sorted).2.2 s hs a
              (List.mem_singleton_self a)).le
          · rw [List.mem_singleton.mp hs]
        rw [if_neg (by simp), h.ram.count a rfl, h.ram.max, Option.toList_some, logOf_append,
          logOf_singleton, List.length_append]
        show s.number < _ + (max - _)
        omega

lemma Session.reads_after_fault (h : Session (lastSession max hmax) w full act) {es : List Entry}
    {fs rest : List Fate} {e : FileError} (hrun : append es w fs = (.error e, w', rest)) :
    Readable w' (logOf (full ++ act.toList)) where
  located := by
    have hgrown := append_error_grown hmax h.due hrun
    rw [hgrown.ram, h.idx]
    exact locates_idxOf (fun s hs e he => h.disk.row.fits e (mem_logOf.mpr ⟨s, hs, he⟩))
      hgrown.content
  contiguous := h.disk.row.contiguous

/-! ## Faults that leave nothing behind -/

lemma ram_step {fs : List Fate} :
    (Vfs.ram : FileM FileStore) w fs = (.ok w.ram, w, fs) := rfl

/-- A program has failed and left a session with the log `l`. -/
def FailsWith {α : Type} (σ : Setting) (l : List Entry)
    (r : Outcome FileError α × Site FileStore × List Fate) : Prop :=
  ∃ err w' fs' full' act', r = (.error err, w', fs') ∧ Session σ w' full' act' ∧
    logOf (full' ++ act'.toList) = l

lemma FailsWith.bind {α β : Type} {σ : Setting} {l : List Entry} {m : FileM α} {f : α → FileM β}
    {fs : List Fate} (h : FailsWith σ l (m w fs)) : FailsWith σ l ((m >>= f) w fs) := by
  obtain ⟨err, w', fs', full', act', hm, hrest⟩ := h
  exact ⟨err, w', fs', full', act', Prog.bind_error hm, hrest⟩

lemma writeRecordLocked_clean {a : Seg} (h : Session (lastSession max hmax) w full (some a))
    (e : Entry) {k n : ℕ} (hk : k = 0 ∨ k = 1 ∧ n = 0) :
    FailsWith (lastSession max hmax) (logOf (full ++ [a]))
      (writeRecordLocked e w (List.replicate k Fate.ok ++ [Fate.fail n])) := by
  obtain ⟨f, hf, -⟩ := h.disk.file a rfl
  refine ⟨if k = 0 then .io .sizeBeforeWrite else .io (.writeRecord e.index), w, [], full, some a,
    ?_, h, rfl⟩
  rw [writeRecordLocked, Prog.bind_ok ram_step, h.ram.activeFile]
  simp only [Option.map_some, encodeRecord, Seg.on_handle]
  rcases hk with rfl | ⟨rfl, rfl⟩
  · have hsize : Vfs.size a.name w [.fail n] = (.error .fault, w, []) := rfl
    rw [List.replicate_zero, List.nil_append, Prog.bind_error (Prog.orFail_error hsize), if_pos rfl]
  · have hsize : Vfs.size a.name w [.ok, .fail 0] = (.ok a.bytes.length, w, [.fail 0]) :=
      Vfs.look_ok (by rw [h.disk.content_eq (by simp)])
    have hsame : { w.disk.slot a.name with
        current := (w.disk.slot a.name).current.map (·.write []) } = w.disk.slot a.name := by
      rw [hf, Option.map_some, File.write, List.append_nil]
    have hwrite : Vfs.write a.name (recHeader (payload e)) w [.fail 0] =
        (.error .fault, w, []) := by
      rw [Vfs.write_fail, List.take_zero, hsame, Site.set, Disk.set_slot (h.disk.slot_ne (by simp))]
    rw [List.replicate_one, List.singleton_append, Prog.bind_ok (Prog.orFail_ok hsize),
      Prog.bind_error (Prog.orFail_error (Prog.bind_error hwrite)), if_neg (by decide)]

lemma Session.touch (h : Session (lastSession max hmax) w full none) {m : ℕ} (hm : m < 10 ^ 16)
    (hrow : ∀ s ∈ full, s.name ≠ segmentName m)
    (hram : w'.ram = w.ram) (hidle : Idle (lastSession max hmax) (w'.disk.slot (segmentName m)))
    (hother : ∀ n, n ≠ segmentName m → w'.disk.slot n = w.disk.slot n) :
    Session (lastSession max hmax) w' full none where
  disk :=
    { solid := fun s hs => by
        rw [hother _ (hrow s hs)]
        exact h.disk.solid s hs
      idle := fun n hn hd hrest => by
        by_cases hname : n = segmentName m
        · rw [hname]
          exact hidle
        · rw [hother n hname]
          exact h.disk.idle n hn hd hrest
      named := fun n hn hne => by
        by_cases hname : n = segmentName m
        · exact ⟨m, hm, hname⟩
        · rw [hother n hname] at hne
          exact h.disk.named n hn hne
      led := fun a ha => by cases ha
      row := h.disk.row
      file := fun a ha => by cases ha
      clear := h.disk.clear }
  ram := by
    rw [hram]
    exact h.ram
  idx := by
    rw [hram]
    exact h.idx
  synced hr := hr.elim

/-- The header of a new segment is written as a whole, and no byte of a record. -/
def CleanStart (k n : ℕ) : Prop := k ≤ 4 ∧ (k = 1 → segHeaderLen ≤ n) ∧ (k = 4 → n = 0)

instance (k n : ℕ) : Decidable (CleanStart k n) := inferInstanceAs (Decidable (_ ∧ _ ∧ _))

/-- A header alone, in a file that was not of the row. -/
lemma idle_created {s : Slot} (h : Idle (lastSession max hmax) s) :
    Idle (lastSession max hmax)
      { s.bind (some {}) with current := some (File.write {} segHeader) } where
  content := .inr rfl
  within := Slot.Within.put (f := File.write {} segHeader)
    (h.within.bind (v := some {}) ⟨List.nil_prefix, List.nil_prefix⟩)
    ⟨List.nil_prefix, List.prefix_refl _⟩
  settled hr := hr.elim

/-- A new file has been made. -/
def created (w : Site FileStore) (name : String) : Site FileStore :=
  w.set name ((w.disk.slot name).bind (some {}))

/-- The header of a segment has been written to it. -/
def headed (w : Site FileStore) (name : String) : Site FileStore :=
  w.set name { (w.disk.slot name).bind (some {}) with current := some (File.write {} segHeader) }

lemma create_ok {name : String} {fs : List Fate} :
    Vfs.create name w (.ok :: fs) = (.ok (), created w name, fs) :=
  Vfs.change_ok rfl

lemma slot_created {name : String} :
    (created w name).disk.slot name = (w.disk.slot name).bind (some {}) :=
  Disk.slot_set_self _ _ _

lemma created_set {name : String} (s : Slot) : (created w name).set name s = w.set name s := by
  rw [created, Site.set, Site.set, Disk.set_set, Site.set]

lemma header_ok {name : String} {fs : List Fate} :
    Vfs.write name segHeader (created w name) (.ok :: fs) = (.ok (), headed w name, fs) := by
  have hf : Vfs.onFile (·.write segHeader) ((created w name).disk.slot name) =
      .ok { (w.disk.slot name).bind (some {}) with current := some (File.write {} segHeader) } := by
    rw [slot_created]
    rfl
  rw [headed, ← created_set]
  exact Vfs.change_ok hf

/-- The whole header is written, but the call fails. -/
lemma header_fail {name : String} {n : ℕ} (hn : segHeaderLen ≤ n) {fs : List Fate} :
    Vfs.write name segHeader (created w name) (.fail n :: fs) =
      (.error .fault, headed w name, fs) := by
  rw [Vfs.write_fail, List.take_of_length_le hn, slot_created, created_set]
  rfl

lemma headed_ram {name : String} : (headed w name).ram = w.ram := Site.ram_set _ _ _

lemma headed_other {name m : String} (hm : m ≠ name) :
    (headed w name).disk.slot m = w.disk.slot m :=
  Disk.slot_set_of_ne hm _ _

lemma headed_idle {name : String} (h : Idle (lastSession max hmax) (w.disk.slot name)) :
    Idle (lastSession max hmax) ((headed w name).disk.slot name) := by
  rw [headed, Site.disk_set, Disk.slot_set_self]
  exact idle_created h

lemma Session.begin (h : Session (lastSession max hmax) w full none) {m : ℕ}
    (hm : m = (logOf full).length + 1) (hsmall : m < 10 ^ 16) :
    Session (lastSession max hmax)
      { disk := (headed w (segmentName m)).disk.settle
        ram := { w.ram with
          active := segmentName m
          activeFile := some { name := segmentName m }
          activeCount := 0 } }
      full (some ⟨m, []⟩) where
  disk := by
    refine h.disk.start hm hsmall (f := File.write {} segHeader) rfl ?_ fun n hn => ?_
    · rw [Disk.slot_settle, headed, Site.disk_set, Disk.slot_set_self]
      rfl
    · rw [Disk.slot_settle, headed_other hn]
  ram := by
    refine ⟨h.ram.max, rfl, fun b hb => ?_, fun b hb => ?_⟩
    · obtain rfl := Option.mem_some.mp hb
      rfl
    · obtain rfl := Option.mem_some.mp hb
      rfl
  idx := by
    show w.ram.idx = _
    rw [h.idx, Option.toList_none, Option.toList_some, idxOf_append, idxOf_append]
    rfl
  synced hr := hr.elim

/-- The active segment is closed, and then the new one cannot be made or written. -/
lemma rollover_clean {w₁ : Site FileStore} {fs : List Fate} {e : Entry} {rest : List Entry}
    {k n : ℕ} (hfull : w.ram.activeFile = none ∨ w.ram.maxEntriesPerSegment ≤ w.ram.activeCount)
    (hclose : closeFull w fs = (.ok (), w₁, List.replicate k Fate.ok ++ [Fate.fail n]))
    (h : Session (lastSession max hmax) w₁ full none) (hindex : e.index = (logOf full).length + 1)
    (hsmall : e.index < 10 ^ 16) (hk : CleanStart k n) :
    FailsWith (lastSession max hmax) (logOf full) (writeRecords (e :: rest) w fs) := by
  have hrow : ∀ s ∈ full, s.name ≠ segmentName e.index := fun s hs heq => by
    have hle := h.disk.clear rfl s hs
    have hnum : s.number = e.index := segmentName_injective heq
    omega
  have hidle : Idle (lastSession max hmax) (w₁.disk.slot (segmentName e.index)) :=
    h.disk.idle _ (isSegment_segmentName _) List.not_mem_nil fun s hs heq =>
      hrow s (by simpa using hs) heq.symm
  have hensure : ensureActive e.index w fs = rolloverLocked e.index w fs := by
    rw [ensureActive, Prog.bind_ok ram_step, if_pos hfull]
  rw [rolloverLocked, Prog.bind_ok hclose] at hensure
  -- a session in which the file of the new segment is idle
  have hfail : ∀ {err : FileError} {w' : Site FileStore},
      ensureActive e.index w fs = (.error err, w', []) → w'.ram = w₁.ram →
      Idle (lastSession max hmax) (w'.disk.slot (segmentName e.index)) →
      (∀ m, m ≠ segmentName e.index → w'.disk.slot m = w₁.disk.slot m) →
      FailsWith (lastSession max hmax) (logOf full) (writeRecords (e :: rest) w fs) :=
    fun hr hram hidle' hother => FailsWith.bind ⟨_, _, [], full, none, hr,
      h.touch hsmall hrow hram hidle' hother, by simp⟩
  obtain ⟨hle, hheader, hrecord⟩ := hk
  have hcases : k = 0 ∨ k = 1 ∨ k = 2 ∨ ∃ j, k = j + 3 ∧ (j = 0 ∨ j = 1 ∧ n = 0) := by
    rcases Nat.lt_or_ge k 3 with hlt | hge
    · omega
    · refine .inr (.inr (.inr ⟨k - 3, by omega, ?_⟩))
      rcases Nat.lt_or_ge k 4 with hlt | hge'
      · exact .inl (by omega)
      · exact .inr ⟨by omega, hrecord (by omega)⟩
  rcases hcases with rfl | rfl | rfl | ⟨j, rfl, hj⟩
  · have hcreate : Vfs.create (segmentName e.index) w₁ [.fail n] = (.error .fault,
        w₁.set (segmentName e.index) (w₁.disk.slot (segmentName e.index)), []) := rfl
    rw [List.replicate_zero, List.nil_append,
      Prog.bind_error (Prog.orFail_error hcreate)] at hensure
    refine hfail hensure (Site.ram_set _ _ _) ?_ fun m hm => Disk.slot_set_of_ne hm _ _
    rw [Site.disk_set, Disk.slot_set_self]
    exact hidle
  · rw [List.replicate_one, List.singleton_append, Prog.bind_ok (Prog.orFail_ok create_ok),
      Prog.bind_error (Prog.orClean_error (header_fail (hheader rfl)) rfl)] at hensure
    exact hfail hensure headed_ram (headed_idle hidle) fun m hm => headed_other hm
  · have hsync : Vfs.syncDir (headed w₁ (segmentName e.index)) [.fail n] =
        (.error .fault, headed w₁ (segmentName e.index), []) := rfl
    rw [show List.replicate 2 Fate.ok ++ [Fate.fail n] = [.ok, .ok, .fail n] from rfl,
      Prog.bind_ok (Prog.orFail_ok create_ok), Prog.bind_ok (Prog.orClean_ok header_ok),
      Prog.bind_error (Prog.orClean_error hsync rfl)] at hensure
    exact hfail hensure headed_ram (headed_idle hidle) fun m hm => headed_other hm
  · have hsync : ∀ fs, Vfs.syncDir (headed w₁ (segmentName e.index)) (.ok :: fs) =
        (.ok (), { headed w₁ (segmentName e.index) with
          disk := (headed w₁ (segmentName e.index)).disk.settle }, fs) := fun fs => rfl
    rw [show List.replicate (j + 3) Fate.ok ++ [Fate.fail n] =
        .ok :: .ok :: .ok :: (List.replicate j Fate.ok ++ [Fate.fail n]) from rfl,
      Prog.bind_ok (Prog.orFail_ok create_ok), Prog.bind_ok (Prog.orClean_ok header_ok),
      Prog.bind_ok (Prog.orClean_ok (hsync _))] at hensure
    have hbegin := h.begin hindex hsmall
    rw [writeRecords, Prog.bind_ok hensure]
    refine FailsWith.bind ?_
    have hclean := writeRecordLocked_clean hbegin e hj
    rw [logOf_append, logOf_singleton, List.append_nil] at hclean
    exact hclean

/-- What `n` bytes of a call that fails after `k` others leave behind is nothing.  An active segment
with room takes a record at once; one that is full is first synced and closed, which succeeds. -/
def Harmless (r : FileStore) (k n : ℕ) : Prop :=
  if r.activeFile = none then CleanStart k n
  else if r.activeCount < r.maxEntriesPerSegment then k = 0 ∨ k = 1 ∧ n = 0
  else 2 ≤ k ∧ CleanStart (k - 2) n

instance (r : FileStore) (k n : ℕ) : Decidable (Harmless r k n) :=
  inferInstanceAs (Decidable (ite _ _ _))

lemma sync_ok {name : String} {f : File} (hf : w.disk.slot name = { current := some f })
    (fs : List Fate) :
    Vfs.sync name w (.ok :: fs) = (.ok (), w.set name { current := some f.sync }, fs) :=
  Vfs.change_ok (by rw [hf]; rfl)

lemma closeFull_ok {a : Seg} {f : File} (hactive : w.ram.activeFile = some a.handle)
    (hf : w.disk.slot a.name = { current := some f }) (fs : List Fate) :
    closeFull w (.ok :: .ok :: fs) = (.ok (),
      ⟨w.disk.set a.name { current := some f.sync }, { w.ram with activeFile := none }⟩, fs) := by
  rw [closeFull, Prog.bind_ok ram_step, hactive]
  simp only [Seg.on_handle]
  rw [Prog.bind_ok (Prog.attempt_ok (sync_ok hf _))]
  rfl

lemma Session.synced_active {a : Seg} {f : File}
    (h : Session (lastSession max hmax) w full (some a)) (hb : f.bytes = a.bytes) :
    Session (lastSession max hmax) (w.set a.name { current := some f.sync }) full (some a) := by
  refine ⟨⟨h.disk.put (f := f.sync) h.disk.row (by rw [File.bytes_sync, hb]; rfl), ?_⟩, ?_,
    fun hr => hr.elim⟩
  · rw [Site.ram_set]
    exact h.ram
  · rw [Site.ram_set]
    exact h.idx

/-- A full segment that is synced and closed joins the others. -/
lemma Session.retired {a : Seg} {f : File}
    (h : Session (lastSession max hmax) w full (some a)) (hb : f.bytes = a.bytes)
    (hlen : max ≤ a.entries.length) :
    Session (lastSession max hmax)
      ⟨w.disk.set a.name { current := some f.sync }, { w.ram with activeFile := none }⟩
      (full ++ [a]) none := by
  have hled : a.number ≤ (logOf full).length + max :=
    (h.disk.led a rfl).resolve_right fun hled => hled.1
  have hsolid : (w.disk.set a.name { current := some f.sync }).slot a.name = .solid a.bytes := by
    rw [Disk.slot_set_self, File.sync, hb]
    rfl
  refine ⟨⟨(h.synced_active hb).disk.retire hsolid hlen hled, h.ram.max, rfl,
    fun b hb => (by cases hb), fun b hb => by cases hb⟩, ?_, fun hr => hr.elim⟩
  rw [Option.toList_none, List.append_nil]
  exact h.idx

lemma Session.count_of_full {a : Seg} (h : Session (lastSession max hmax) w full (some a))
    (hlen : max ≤ a.entries.length) : w.ram.maxEntriesPerSegment ≤ w.ram.activeCount := by
  rw [h.ram.max, h.ram.count a rfl]
  exact hlen

/-- The full segment is closed, and only then the new one is not made. -/
lemma closeFull_clean {a : Seg} (h : Session (lastSession max hmax) w full (some a))
    (hlen : max ≤ a.entries.length) {e : Entry} {rest : List Entry}
    (hindex : e.index = (logOf (full ++ [a])).length + 1) (hsmall : e.index < 10 ^ 16) {k n : ℕ}
    (hk : 2 ≤ k ∧ CleanStart (k - 2) n) :
    FailsWith (lastSession max hmax) (logOf (full ++ [a]))
      (writeRecords (e :: rest) w (List.replicate k Fate.ok ++ [Fate.fail n])) := by
  obtain ⟨f, hf, hb⟩ := h.disk.file a rfl
  obtain ⟨hle, hclean⟩ := hk
  obtain ⟨j, rfl⟩ := Nat.exists_eq_add_of_le' hle
  have hfates : List.replicate (j + 2) Fate.ok ++ [Fate.fail n] =
      .ok :: .ok :: (List.replicate j Fate.ok ++ [Fate.fail n]) := rfl
  rw [hfates]
  exact rollover_clean (.inr (h.count_of_full hlen)) (closeFull_ok h.ram.activeFile hf _)
    (h.retired hb hlen) hindex hsmall hclean

/-- A harmless fault leaves a session with the same log. -/
lemma Session.harmless (h : Session (lastSession max hmax) w full act) {e : Entry}
    (rest : List Entry) (hindex : e.index = (logOf (full ++ act.toList)).length + 1)
    (hsmall : e.index < 10 ^ 16) {k n : ℕ} (hk : Harmless w.ram k n) :
    FailsWith (lastSession max hmax) (logOf (full ++ act.toList))
      (writeRecords (e :: rest) w (List.replicate k Fate.ok ++ [Fate.fail n])) := by
  rw [Harmless, h.ram.activeFile] at hk
  cases act with
  | none =>
      rw [if_pos (by rfl)] at hk
      rw [Option.toList_none, List.append_nil] at hindex ⊢
      have hclosed : closeFull w (List.replicate k Fate.ok ++ [Fate.fail n]) =
          (.ok (), w, List.replicate k Fate.ok ++ [Fate.fail n]) := by
        rw [closeFull, Prog.bind_ok ram_step, h.ram.activeFile]
        rfl
      exact rollover_clean (.inl h.ram.activeFile) hclosed h hindex hsmall hk
  | some a =>
      rw [if_neg (by simp), h.ram.count a rfl, h.ram.max] at hk
      split_ifs at hk with hroom
      · have hensure : ensureActive e.index w (List.replicate k Fate.ok ++ [Fate.fail n]) =
            (.ok (), w, List.replicate k Fate.ok ++ [Fate.fail n]) := by
          rw [ensureActive, Prog.bind_ok ram_step, if_neg]
          · rfl
          · rw [h.ram.activeFile, h.ram.count a rfl, h.ram.max, not_or]
            exact ⟨by simp, by simpa using hroom⟩
        rw [writeRecords, Prog.bind_ok hensure]
        exact FailsWith.bind (writeRecordLocked_clean h e hk)
      · exact closeFull_clean h (not_lt.mp hroom) hindex hsmall hk

/-! ## A full segment that cannot be closed -/

/-- The call that fails is the `Sync` or the `Close` of a full segment. -/
def Jams (r : FileStore) (k : ℕ) : Prop :=
  r.activeFile ≠ none ∧ r.maxEntriesPerSegment ≤ r.activeCount ∧ k < 2

/-- The active file is closed, and the segment is full. -/
structure Jammed (σ : Setting) (w : Site FileStore) (full : List Seg) (a : Seg) : Prop where
  disk : OnDisk σ w.disk full (some a)
  closed : ∃ f, w.ram.activeFile = some f ∧ f.closed = true
  count : w.ram.maxEntriesPerSegment ≤ w.ram.activeCount

/-- `Close` is called whether `Sync` succeeds or not. -/
lemma closeFull_jams {a : Seg} (h : Session (lastSession max hmax) w full (some a))
    (hlen : max ≤ a.entries.length) {k : ℕ} (hk : k < 2) (n : ℕ) :
    ∃ w', closeFull w (List.replicate k Fate.ok ++ [Fate.fail n]) =
      (.error (.io .closeOnRollover), w', []) ∧ Jammed (lastSession max hmax) w' full a := by
  obtain ⟨f, hf, hb⟩ := h.disk.file a rfl
  have hcount := h.count_of_full hlen
  have hcases : k = 0 ∨ k = 1 := by omega
  rcases hcases with rfl | rfl
  · refine ⟨⟨w.disk, { w.ram with activeFile := some { a.handle with closed := true } }⟩, ?_,
      h.disk, ⟨_, rfl, rfl⟩, hcount⟩
    have hsync : Vfs.sync a.name w [.fail n] = (.error .fault, w, []) := by
      show (Outcome.error VfsError.fault, w.set a.name (w.disk.slot a.name), _) = _
      rw [Site.set, Disk.set_slot (by rw [hf]; simp)]
    rw [closeFull, Prog.bind_ok ram_step, h.ram.activeFile]
    simp only [Option.map_some, Seg.on_handle]
    rw [List.replicate_zero, List.nil_append, Prog.bind_ok (Prog.attempt_error hsync)]
    rfl
  · refine ⟨⟨w.disk.set a.name { current := some f.sync },
      { w.ram with activeFile := some { a.handle with closed := true } }⟩, ?_,
      (h.synced_active hb).disk, ⟨_, rfl, rfl⟩, hcount⟩
    rw [closeFull, Prog.bind_ok ram_step, h.ram.activeFile]
    simp only [Option.map_some, Seg.on_handle]
    rw [List.replicate_one, List.singleton_append, Prog.bind_ok (Prog.attempt_ok (sync_ok hf _))]
    rfl

lemma closeActive_again {f : Vfs.Handle} (hfile : w.ram.activeFile = some f)
    (hclosed : f.closed = true) (fs : List Fate) :
    closeActive f w fs = (.error .closed, w, fs) := by
  have hram : { w.ram with activeFile := some { f with closed := true } } = w.ram := by
    rw [← hclosed, ← hfile]
  rw [closeActive, Prog.bind_ok (Vfs.setRam_self hram), Vfs.Handle.on_closed hclosed]

/-- No entry can be appended any more. -/
lemma Jammed.append_fails {a : Seg} (h : Jammed (lastSession max hmax) w full a) {es : List Entry}
    (hne : es ≠ []) (fs : List Fate) : ∃ err, append es w fs = (.error err, w, fs) := by
  obtain ⟨f, hfile, hclosed⟩ := h.closed
  have hclose : closeFull w fs = (.error (.io .closeOnRollover), w, fs) := by
    rw [closeFull, Prog.bind_ok ram_step, hfile]
    dsimp only
    rw [Prog.bind_ok (Prog.attempt_error (Vfs.Handle.on_closed hclosed _)),
      Prog.bind_ok (Prog.attempt_error (closeActive_again hfile hclosed fs))]
    rfl
  obtain ⟨e, rest, rfl⟩ := List.exists_cons_of_ne_nil hne
  rw [append, Prog.bind_ok ram_step]
  split_ifs with hindex
  · exact ⟨_, rfl⟩
  · cases Storage.firstGap (e :: rest) with
    | some g => exact ⟨_, rfl⟩
    | none =>
        refine ⟨.io .closeOnRollover, Prog.bind_error (Prog.bind_error ?_)⟩
        rw [ensureActive, Prog.bind_ok ram_step, if_pos (.inr h.count), rolloverLocked,
          Prog.bind_error hclose]

/-- `Close` fails, and the directory has the log. -/
lemma Jammed.reopens {a : Seg} (h : Jammed (lastSession max hmax) w full a) (max' : ℕ) :
    ∃ w₁ w₂, close.run w = (.error (.io .close), w₁) ∧
      (openWith max').run w₁ = (.ok (), w₂) ∧ wholeLog w₂ = .entries (logOf (full ++ [a])) := by
  obtain ⟨f, hfile, hclosed⟩ := h.closed
  have hclose : close.run w =
      (.error (.io .close), { w with ram := { w.ram with activeFile := none } }) := by
    rw [Prog.run, close, Prog.bind_ok ram_step, hfile]
    dsimp only
    rw [Prog.bind_ok (Prog.attempt_error (Vfs.Handle.on_closed hclosed _)),
      Prog.bind_ok (Prog.attempt_error (closeActive_again hfile hclosed []))]
    rfl
  rcases Prog.run_of_wp (OnDisk.wp_openWith
    (w := { w with ram := { w.ram with activeFile := none } }) (fun _ hn => hn) h.disk max') with
    ⟨_, w₂, hrun, hread⟩ | ⟨_, _, -, hfalse⟩
  · exact ⟨_, w₂, hclose, hrun, hread.wholeLog_eq⟩
  · exact hfalse.elim

/-! ## `Append` -/

/-- An append that fails with an error of the file system has begun to write. -/
lemma append_error {es : List Entry} {fs rest : List Fate} {step : FileStep}
    (h : append es w fs = (.error (.io step), w', rest)) :
    ∃ e es', es = e :: es' ∧ e.index = w.ram.lastIndexLocked + 1 ∧
      ∀ {err w₁ fs'}, writeRecords es w fs = (.error err, w₁, fs') → w' = w₁ := by
  cases es with
  | nil => cases h
  | cons e es =>
      rw [append, Prog.bind_ok ram_step] at h
      split_ifs at h with he
      · cases h
      · cases hgap : Storage.firstGap (e :: es) with
        | some g =>
            rw [hgap] at h
            cases h
        | none =>
            rw [hgap] at h
            refine ⟨e, es, rfl, not_not.mp he, fun hrun => ?_⟩
            dsimp only at h
            rw [Prog.bind_error hrun] at h
            cases h
            rfl

/-- The append fails while it closes the full segment. -/
lemma Session.jams {a : Seg} (h : Session (lastSession max hmax) w full (some a))
    (hlen : max ≤ a.entries.length) {k : ℕ} (hk : k < 2) (n : ℕ) (e : Entry) (rest : List Entry) :
    ∃ err w' fs', writeRecords (e :: rest) w (List.replicate k Fate.ok ++ [Fate.fail n]) =
      (.error err, w', fs') ∧ Jammed (lastSession max hmax) w' full a := by
  obtain ⟨w', hclose, hjam⟩ := closeFull_jams h hlen hk n
  refine ⟨.io .closeOnRollover, w', [], Prog.bind_error ?_, hjam⟩
  rw [ensureActive, Prog.bind_ok ram_step, if_pos (.inr (h.count_of_full hlen)), rolloverLocked,
    Prog.bind_error hclose]

end

lemma remember_appends {s s' : Storage} {batches : List (List Entry)}
    (h : StoreStep.rememberAll s (batches.map .append) = some s') :
    s'.entries = s.entries ++ batches.flatten := by
  induction batches generalizing s with
  | nil =>
      cases h
      exact (List.append_nil _).symm
  | cons batch batches ih =>
      rw [List.map_cons, StoreStep.rememberAll, List.foldlM_cons] at h
      obtain ⟨s₁, hs₁, hrest⟩ := Option.bind_eq_some_iff.mp h
      have hbatch : s₁.entries = s.entries ++ batch := by
        have hanswer := LogReply.accepted_eq_some.mp hs₁
        rw [Storage.answer] at hanswer
        cases happend : s.append batch with
        | error e =>
            rw [happend] at hanswer
            cases hanswer
        | ok s₂ =>
            rw [happend] at hanswer
            cases hanswer
            rw [((Storage.append_eq_ok_iff _ _ _).mp happend).2]
      rw [ih hrest, hbatch, List.flatten_cons, List.append_assoc]

/-- A single call of the file system fails in `Append`.  The log reads as before.  If the fault is
harmless, then after more appends the store can be closed and opened again, and has the log from
before and what was appended since.  If a full segment could not be synced or closed, nothing can
be appended since, and the directory still has the log from before. -/
theorem append_fault_no_trace (max : ℕ) (hmax : 1 ≤ max) (ops : List StoreStep)
    (hone : ∀ op ∈ ops, op ≠ .reopen)
    (hsize : ∀ op ∈ ops, ∀ x ∈ op.batch, Fits x ∧ x.index < 10 ^ 16) (w : Site FileStore)
    (hrun : StoreStep.execAll max (opened max) ops = some w) (s : Storage)
    (hmem : StoreStep.rememberAll {} ops = some s) (es : List Entry)
    (hes : ∀ x ∈ es, Fits x ∧ x.index < 10 ^ 16) (k n : ℕ) (step : FileStep) (w' : Site FileStore)
    (rest : List Fate)
    (hfault : append es w (List.replicate k .ok ++ [.fail n]) = (.error (.io step), w', rest)) :
    (∀ c : LogCall, c.IsRead → (answer w' c).1 = (answer w c).1) ∧
      (Harmless w.ram k n → ∀ batches : List (List Entry),
        (∀ batch ∈ batches, ∀ x ∈ batch, Fits x ∧ x.index < 10 ^ 16) → ∀ w₁,
        StoreStep.execAll max w' (batches.map .append) = some w₁ → ∀ max',
        ∃ w₂, (reopen max').run w₁ = (.ok (), w₂) ∧
          wholeLog w₂ = .entries (s.entries ++ batches.flatten)) ∧
      (Jams w.ram k → (∀ batch, batch ≠ [] → ∃ err, (append batch).run w' = (.error err, w')) ∧
        ∀ max', ∃ w₁ w₂, close.run w' = (.error (.io .close), w₁) ∧
          (openWith max').run w₁ = (.ok (), w₂) ∧ wholeLog w₂ = .entries s.entries) := by
  obtain ⟨full, act, h, hlog⟩ := holds_of_run hmax hone hsize hrun hmem
  refine ⟨fun c hc => ?_, fun hharmless batches hbatches w₁ hw₁ max' => ?_, fun hjams => ?_⟩
  · rw [(h.reads_after_fault hfault).answer hc (s := s) hlog.symm,
      h.readable.answer hc hlog.symm]
  · obtain ⟨e, es', rfl, hindex, hfails⟩ := append_error hfault
    rw [h.readable.lastIndexLocked_eq] at hindex
    obtain ⟨err, w₀, fs', full', act', hwrite, hsession, hlog'⟩ :=
      h.harmless es' hindex (hes e List.mem_cons_self).2 hharmless
    obtain rfl := hfails hwrite
    have hold : Holds (lastSession max hmax) w' s.entries :=
      ⟨full', act', hsession, hlog'.trans hlog⟩
    have hnone : ∀ op ∈ batches.map StoreStep.append, op ≠ .reopen := fun op hop => by
      obtain ⟨batch, -, rfl⟩ := List.mem_map.mp hop
      exact fun heq => by cases heq
    have hall : ∀ op ∈ batches.map StoreStep.append, ∀ x ∈ op.batch, Fits x ∧ x.index < 10 ^ 16 :=
      fun op hop => by
        obtain ⟨batch, hbatch, rfl⟩ := List.mem_map.mp hop
        exact hbatches batch hbatch
    obtain ⟨s₁, hs₁, full₁, act₁, h₁, hlog₁⟩ := hold.run_lastSession hnone hall hw₁
    rcases Prog.run_of_wp (h₁.toLayout.wp_reopen (fun _ hn => hn) max') with
      ⟨_, w₂, hreopen, hread⟩ | ⟨_, _, -, hfalse⟩
    · refine ⟨w₂, hreopen, ?_⟩
      rw [hread.wholeLog_eq, hlog₁, remember_appends hs₁]
    · exact hfalse.elim
  · obtain ⟨e, es', rfl, -, hfails⟩ := append_error hfault
    obtain ⟨hactive, hcount, hk⟩ := hjams
    cases act with
    | none => exact (hactive h.ram.activeFile).elim
    | some a =>
        rw [h.ram.max, h.ram.count a rfl] at hcount
        obtain ⟨err, w₀, fs', hwrite, hjam⟩ := h.jams hcount hk n e es'
        obtain rfl := hfails hwrite
        refine ⟨fun batch hne => ?_, fun max' => ?_⟩
        · obtain ⟨err', hfail⟩ := hjam.append_fails hne []
          exact ⟨err', by rw [Prog.run, hfail]⟩
        · rw [← hlog]
          exact hjam.reopens max'

/-- The record of a first entry is not written, a second append succeeds, and the store is closed
and opened again. -/
theorem append_fault_no_trace_notWritten :
    ∃ w w' rest, StoreStep.execAll 2 (opened 2) [.append [⟨1, 1, [7]⟩]] = some w ∧
      append [⟨1, 2, [8]⟩] w [.ok, .fail 0] = (.error (.io (.writeRecord 2)), w', rest) ∧
      ∃ w₁, StoreStep.execAll 2 w' [.append [⟨2, 2, [9]⟩]] = some w₁ ∧
        ∃ w₂, (reopen 2).run w₁ = (.ok (), w₂) ∧
          wholeLog w₂ = .entries [⟨1, 1, [7]⟩, ⟨2, 2, [9]⟩] := by
  obtain ⟨w, hw⟩ := Option.isSome_iff_exists.mp
    (by decide +kernel : (StoreStep.execAll 2 (opened 2) [.append [⟨1, 1, [7]⟩]]).isSome)
  have hall : ∀ w ∈ StoreStep.execAll 2 (opened 2) [.append [⟨1, 1, [7]⟩]],
      (append [⟨1, 2, [8]⟩] w [.ok, .fail 0]).1 = .error (.io (.writeRecord 2)) ∧
        Harmless w.ram 1 0 ∧
        (StoreStep.execAll 2 (append [⟨1, 2, [8]⟩] w [.ok, .fail 0]).2.1
          [.append [⟨2, 2, [9]⟩]]).isSome := by
    decide +kernel
  obtain ⟨herr, hharmless, hnext⟩ := hall w hw
  obtain ⟨w₁, hw₁⟩ := Option.isSome_iff_exists.mp hnext
  have hfault : append [⟨1, 2, [8]⟩] w [.ok, .fail 0] = (.error (.io (.writeRecord 2)),
      (append [⟨1, 2, [8]⟩] w [.ok, .fail 0]).2.1, (append [⟨1, 2, [8]⟩] w [.ok, .fail 0]).2.2) :=
    Prod.ext herr rfl
  exact ⟨w, _, _, hw, hfault, w₁, hw₁, (append_fault_no_trace 2 (by decide) [.append [⟨1, 1, [7]⟩]]
    (by decide) (by decide) w hw { entries := [⟨1, 1, [7]⟩] } rfl [⟨1, 2, [8]⟩] (by decide) 1 0
    _ _ _ hfault).2.1 hharmless [[⟨2, 2, [9]⟩]] (by decide) w₁ hw₁ 2⟩

/-- The last call of an append, the `Sync`, fails.  An entry that was not appended is there after
the store was closed and opened again, and hides another one that was appended in its place. -/
theorem append_fault_leaves_entry :
    (StoreStep.execAll 2 (opened 2) [.append [⟨1, 1, [7]⟩]]).map (fun w =>
        let r := append [⟨1, 2, [8]⟩] w [.ok, .ok, .ok, .fail 0]
        (r.1, wholeLog r.2.1, wholeLog ((reopen 2).run r.2.1).2,
          wholeLog ((reopen 2).run ((append [⟨2, 2, [9]⟩]).run r.2.1).2).2)) =
      some (.error (.io .syncOnAppend), .entries [⟨1, 1, [7]⟩],
        .entries [⟨1, 1, [7]⟩, ⟨1, 2, [8]⟩], .entries [⟨1, 1, [7]⟩, ⟨1, 2, [8]⟩]) := by
  decide +kernel

end FileStore

end ToyRaft
