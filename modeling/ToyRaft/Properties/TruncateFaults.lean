import ToyRaft.FileStore.Reopened
import ToyRaft.FileStore.StateFiles

/-!
# A truncation that fails

`TruncateSuffix` cuts the file of the entry it was asked for before anything else, and forgets the
entries behind only at its end.  If a call of the file system fails before the cut, nothing has
happened.  If one fails after it, the index still lists entries that are no longer in the file, and
reading the log fails from then on (`truncate_fault_usable_iff`).
-/

namespace ToyRaft

namespace FileStore

/-- `Entries` from the first to the last index. -/
def wholeLog (w : Site FileStore) : LogReply :=
  (answer w (.entries 1 (w.ram.lastIndexLocked + 1))).1

/-- The store holds the log `l`, and goes on with it: an entry that is appended next is there after
the store was closed and opened again. -/
def Serves (max : ℕ) (w : Site FileStore) (l : List Entry) : Prop :=
  wholeLog w = .entries l ∧
    ∀ e : Entry, Fits e → e.index = l.length + 1 → e.index < 10 ^ 16 →
      ∃ w₁ w₂, (append [e]).run w = (.ok (), w₁) ∧ (reopen max).run w₁ = (.ok (), w₂) ∧
        wholeLog w₂ = .entries (l ++ [e])

lemma Readable.wholeLog_eq {w : Site FileStore} {l : List Entry} (h : Readable w l) :
    wholeLog w = .entries l := by
  have hread := h.answer (c := .entries 1 (l.length + 1)) trivial (s := { entries := l }) rfl
  rw [wholeLog, h.lastIndexLocked_eq, hread, Storage.answer, Storage.getEntries, if_neg (by omega),
    if_neg (by dsimp only; omega)]
  dsimp only
  rw [Nat.sub_self, List.drop_zero, Nat.add_sub_cancel, List.take_length]

section

variable {max : ℕ} {hmax : 0 < max} {w : Site FileStore} {full : List Seg} {act : Option Seg}

lemma Session.serves (h : Session (lastSession max hmax) w full act) (max' : ℕ) :
    Serves max' w (logOf (full ++ act.toList)) := by
  refine ⟨h.readable.wholeLog_eq, fun e hfits hnext hsmall => ?_⟩
  have hadmits : Admits (lastSession max hmax) full act (.append [e]) :=
    h.admits_lastSession fun x hx => by
      rw [List.mem_singleton.mp hx]
      exact ⟨hfits, hsmall⟩
  have hwp := h.wp_append (Q := fun _ w₁ => ∃ full₁ act₁,
      Session (lastSession max hmax) w₁ full₁ act₁ ∧
        logOf (full₁ ++ act₁.toList) = logOf (full ++ act.toList) ++ [e])
    (E := fun _ _ => False) faultless_quiet (fun hd => by cases hd) hadmits.fits hadmits.number
    hadmits.rolls (fun _ w₁ full₁ act₁ h₁ hlog => ⟨full₁, act₁, h₁, hlog⟩)
    (fun x hx hne => hne (by rw [← Option.some.inj hx]; exact hnext)) fun _ _ _ g hg => by cases hg
  rcases Prog.run_of_wp hwp with ⟨_, w₁, hrun, full₁, act₁, h₁, hlog⟩ | ⟨_, _, -, hfalse⟩
  · rcases Prog.run_of_wp (h₁.toLayout.wp_reopen (fun _ hn => hn) max') with
      ⟨_, w₂, hreopen, hread⟩ | ⟨_, _, -, hfalse⟩
    · rw [hlog] at hread
      exact ⟨w₁, w₂, hrun, hreopen, hread.wholeLog_eq⟩
    · exact hfalse.elim
  · exact hfalse.elim

/-! ## Reading beyond the end of a file -/

/-- An entry behind the end of its file cannot be read. -/
lemma wp_readEntryLocked_behind {target : IdxEntry} {b : Bytes}
    (hb : w.disk.content target.segment = some b)
    (hshort : b.length < target.offset - recHeaderLen + recHeaderLen) :
    (readEntryLocked target).wp (fun _ => True) (fun _ _ => False) (fun _ _ => True)
      (fun _ => True) w := by
  have hlook : ∀ {α : Type} {f : Disk → Except VfsError α} {Q : α → Site FileStore → Prop},
      (∀ a, f w.disk = .ok a → Q a w) →
      (Vfs.look f).wp (fun _ => True) Q (fun _ _ => True) (fun _ => True) w := fun h =>
    Vfs.wp_look h (fun _ _ => trivial) (fun _ _ => trivial) fun _ => trivial
  refine Prog.wp_bind (Prog.wp_orFail (hlook fun _ _ => ?_))
  refine Prog.wp_bind (Prog.wp_attempt (Prog.wp_mono (Q := fun _ _ => False) (E := fun _ => (· = w))
    (R := fun _ => True) ?_ (fun _ _ hfalse => hfalse.elim) ?_ fun _ _ => trivial))
  · refine Prog.wp_bind (Prog.wp_orFail (Vfs.wp_look (fun hdr hhdr => ?_) (fun _ _ => rfl)
      (fun _ _ => rfl) fun _ => trivial))
    rw [hb] at hhdr
    dsimp only at hhdr
    rw [if_neg (by omega)] at hhdr
    cases hhdr
  · rintro e w' rfl
    exact Prog.wp_bind (Prog.wp_attempt (Vfs.wp_look (fun _ _ => Prog.wp_throw trivial)
      (fun _ _ => Prog.wp_throw trivial) (fun _ _ => Prog.wp_throw trivial) fun _ => trivial))

lemma wp_readEntries_behind {ies : List IdxEntry} {target : IdxEntry} (hmem : target ∈ ies)
    {b : Bytes} (hb : w.disk.content target.segment = some b)
    (hshort : b.length < target.offset - recHeaderLen + recHeaderLen) :
    (readEntries ies).wp (fun _ => True) (fun _ _ => False) (fun _ _ => True) (fun _ => True)
      w := by
  induction ies generalizing w with
  | nil => cases hmem
  | cons ie rest ih =>
      refine Prog.wp_bind ?_
      by_cases heq : target = ie
      · subst heq
        exact Prog.wp_mono (wp_readEntryLocked_behind hb hshort) (fun _ _ hfalse => hfalse.elim)
          (fun _ _ h => h) fun _ h => h
      · have hrest := (List.mem_cons.mp hmem).resolve_left heq
        refine Prog.wp_mono (keeps_readEntryLocked
            (I := fun w => w.disk.content target.segment = some b) ie w hb)
          (fun e w' hw' => Prog.wp_bind ?_) (fun _ _ _ => trivial) fun _ _ => trivial
        exact Prog.wp_mono (ih hrest hw'.2) (fun _ _ hfalse => hfalse.elim) (fun _ _ h => h)
          fun _ h => h

lemma wholeLog_ne {target : IdxEntry} (hmem : target ∈ w.ram.idx) {b : Bytes}
    (hb : w.disk.content target.segment = some b)
    (hshort : b.length < target.offset - recHeaderLen + recHeaderLen)
    (hlen : w.ram.idx.length = w.ram.lastIndexLocked) (l : List Entry) :
    wholeLog w ≠ .entries l := by
  have hwp : (serve (.entries 1 (w.ram.lastIndexLocked + 1))).wp (fun _ => True) (fun _ _ => False)
      (fun _ _ => True) (fun _ => True) w := by
    refine Prog.wp_bind (Prog.wp_bind (Vfs.wp_ram ?_))
    rw [if_neg (by omega), if_neg (by omega), Nat.sub_self, List.drop_zero, Nat.add_sub_cancel,
      ← hlen, List.take_length]
    dsimp only
    rw [if_neg (by omega)]
    exact Prog.wp_mono (wp_readEntries_behind hmem hb hshort) (fun _ _ hfalse => hfalse.elim)
      (fun _ _ h => h) fun _ h => h
  intro hread
  obtain ⟨-, hend⟩ := hwp [] fun _ _ => trivial
  rw [wholeLog, answer, Prog.run] at hread
  rcases hrun : serve (.entries 1 (w.ram.lastIndexLocked + 1)) w [] with ⟨r | e | _, w', fates⟩ <;>
    rw [hrun] at hread hend
  · exact hend
  · cases hread
  · cases hread

/-! ## After the cut -/

/-- The index is `idx`, and the file `seg` holds the bytes `b`. -/
def Cut (idx : List IdxEntry) (seg : String) (b : Bytes) (w : Site FileStore) : Prop :=
  w.ram.idx = idx ∧ w.disk.content seg = some b

lemma keeps_cut (idx : List IdxEntry) {seg : String} (b : Bytes) {later : List String}
    (hlater : seg ∉ later) :
    (Vfs.sync seg).Keeps (Cut idx seg b) (fun _ => True) ∧
      (dropActive seg).Keeps (Cut idx seg b) (fun _ => True) ∧
      (removeSegs seg later).Keeps (Cut idx seg b) (fun _ => True) ∧
      Vfs.syncDir.Keeps (Cut idx seg b) fun _ => True := by
  refine ⟨?_, ?_, ?_, Vfs.keeps_syncDir fun w hw => hw⟩
  · refine Vfs.keeps_onFile (fun w x hw hx => ⟨hw.1, ?_⟩) fun w k hw => ⟨hw.1, ?_⟩
    · exact (Disk.content_put hx (File.bytes_sync x) seg).trans hw.2
    · exact (Disk.content_set_self _ _ _).trans hw.2
  · refine (Vfs.keeps_ram (V := fun _ => True) fun _ _ => trivial).bind fun r _ => ?_
    cases r.activeFile with
    | none => exact Prog.keeps_pure trivial
    | some f =>
        exact ((keeps_closeActive fun _ hw => hw).orClean Vfs.keeps_look _).bind fun _ _ =>
          Vfs.keeps_setRam fun _ hw => hw
  · induction later with
    | nil => exact Prog.keeps_pure trivial
    | cons name rest ih =>
        rw [List.mem_cons, not_or] at hlater
        refine (Prog.Keeps.orClean (Vfs.keeps_change fun w s hw => ⟨hw.1, ?_⟩)
          Vfs.keeps_look _).bind fun _ _ => ih hlater.2
        exact (Disk.content_set_of_ne hlater.1 _ _).trans hw.2

/-- What a truncation does, once the file is cut, if it fails. -/
lemma truncateAt_error {later : List String} {pos : ℕ} {target : IdxEntry}
    (hlater : target.segment ∉ later) {f : File}
    (hf : (w.disk.slot target.segment).current = some f) {fs : List Fate} {e : FileError}
    {w' : Site FileStore} {rest : List Fate}
    (h : truncateAt later pos target w (.ok :: .ok :: fs) = (.error e, w', rest)) :
    Cut w.ram.idx target.segment (f.bytes.take (target.offset - recHeaderLen)) w' := by
  have hopen : Vfs.openFile target.segment w (.ok :: .ok :: fs) = (.ok (), w, .ok :: fs) :=
    Vfs.look_ok (by rw [hf]; rfl)
  have hcut : Vfs.truncate target.segment (target.offset - recHeaderLen) w (.ok :: fs) =
      (.ok (), w.set target.segment { w.disk.slot target.segment with
        current := some (f.truncate (target.offset - recHeaderLen)) }, fs) :=
    Vfs.change_ok (by rw [Vfs.onFile, hf])
  rw [truncateAt, Prog.bind_ok (Prog.orFail_ok hopen), Prog.bind_ok (Prog.orClean_ok hcut)] at h
  obtain ⟨hsync, hdrop, hremove, hdir⟩ := keeps_cut w.ram.idx
    (f.bytes.take (target.offset - recHeaderLen)) hlater
  have hstart : Cut w.ram.idx target.segment (f.bytes.take (target.offset - recHeaderLen))
      (w.set target.segment { w.disk.slot target.segment with
        current := some (f.truncate (target.offset - recHeaderLen)) }) := by
    refine ⟨rfl, ?_⟩
    rw [Site.disk_set, Disk.content_set_self, ← File.bytes_truncate]
    rfl
  refine Prog.error_of_wp (Q := fun _ _ => True) (R := fun _ => True)
    (E := fun _ => Cut w.ram.idx target.segment (f.bytes.take (target.offset - recHeaderLen))) ?_ h
  refine (hsync.orClean Vfs.keeps_look _).wp_bind hstart fun _ w₁ _ hw₁ => ?_
  refine hdrop.wp_bind hw₁ fun _ w₂ _ hw₂ => ?_
  refine hremove.wp_bind hw₂ fun _ w₃ _ hw₃ => ?_
  exact (hdir.orClean Vfs.keeps_look _).wp_bind hw₃ fun _ _ _ _ => Vfs.wp_setRam trivial

lemma truncateAt_early {later : List String} {pos : ℕ} {target : IdxEntry} {f : File}
    (hf : (w.disk.slot target.segment).current = some f) {k n : ℕ} (hk : k < 2) {e : FileError}
    {w' : Site FileStore} {rest : List Fate}
    (h : truncateAt later pos target w (List.replicate k .ok ++ [.fail n]) =
      (.error e, w', rest)) : w' = w := by
  have hne : w.disk.slot target.segment ≠ {} := fun hnone => by
    rw [hnone] at hf
    cases hf
  have hcases : k = 0 ∨ k = 1 := by omega
  rcases hcases with rfl | rfl
  · have hopen : Vfs.openFile target.segment w [.fail n] = (.error .fault, w, []) := rfl
    rw [truncateAt, List.replicate_zero, List.nil_append,
      Prog.bind_error (Prog.orFail_error hopen), Prod.mk.injEq, Prod.mk.injEq] at h
    exact h.2.1.symm
  · have hopen : Vfs.openFile target.segment w [.ok, .fail n] = (.ok (), w, [.fail n]) :=
      Vfs.look_ok (by rw [hf]; rfl)
    have hcut : Vfs.truncate target.segment (target.offset - recHeaderLen) w [.fail n] =
        (.error .fault, w.set target.segment (w.disk.slot target.segment), []) := rfl
    rw [truncateAt, List.replicate_one, List.singleton_append,
      Prog.bind_ok (Prog.orFail_ok hopen), Prog.bind_error (Prog.orClean_error hcut rfl),
      Prod.mk.injEq, Prod.mk.injEq] at h
    rw [← h.2.1, Site.set, Disk.set_slot hne]

/-- A truncation that fails with an error of the file system has found the entry to cut at. -/
lemma truncateSuffix_error {start : ℕ} {fs : List Fate} {step : FileStep} {w' : Site FileStore}
    {rest : List Fate} (h : truncateSuffix start w fs = (.error (.io step), w', rest)) :
    ∃ target, w.ram.idx[start - 1]? = some target ∧
      truncateAt (w.ram.laterSegs (start - 1) target) (start - 1) target w fs =
        (.error (.io step), w', rest) := by
  rw [truncateSuffix, Prog.bind_ok (show Vfs.ram w fs = (.ok w.ram, w, fs) from rfl)] at h
  split_ifs at h with hnone hzero
  · cases h
  · cases h
  · cases htarget : w.ram.idx[start - 1]? with
    | none =>
        rw [htarget] at h
        cases h
    | some target =>
        rw [htarget] at h
        exact ⟨target, rfl, h⟩

lemma not_mem_laterSegs (r : FileStore) (pos : ℕ) (target : IdxEntry) :
    target.segment ∉ r.laterSegs pos target :=
  fun hmem => (mem_laterSegs.mp hmem).1 rfl

end

/-- A single call of the file system fails in `TruncateSuffix`.  The store can be used afterwards,
with its log as it was or cut, if that call was one of the first two, `OpenAppend` and `Truncate`,
and only then. -/
theorem truncate_fault_usable_iff (max : ℕ) (hmax : 1 ≤ max) (ops : List StoreStep)
    (hone : ∀ op ∈ ops, op ≠ .reopen)
    (hsize : ∀ op ∈ ops, ∀ x ∈ op.batch, Fits x ∧ x.index < 10 ^ 16) (w : Site FileStore)
    (hrun : StoreStep.execAll max (opened max) ops = some w) (s : Storage)
    (hmem : StoreStep.rememberAll {} ops = some s) (start k n : ℕ) (step : FileStep)
    (w' : Site FileStore) (rest : List Fate)
    (hfault : truncateSuffix start w (List.replicate k .ok ++ [.fail n]) =
      (.error (.io step), w', rest)) (max' : ℕ) :
    (∃ l, (l = s.entries ∨ l = s.entries.take (start - 1)) ∧ Serves max' w' l) ↔ k < 2 := by
  obtain ⟨full, act, h, hlog⟩ := holds_of_run hmax hone hsize hrun hmem
  obtain ⟨target, htarget, hcut⟩ := truncateSuffix_error hfault
  have hlt := (List.getElem?_eq_some_iff.mp htarget).1
  rw [h.readable.length_eq] at hlt
  obtain ⟨ie, hie, hloc⟩ := h.readable.locates (List.getElem?_eq_getElem hlt)
  obtain rfl : ie = target := Option.some.inj (hie.symm.trans htarget)
  obtain ⟨pre, more, hcontent, hoff⟩ := hloc.found
  obtain ⟨f, hf, hbytes⟩ := current_of_content hcontent
  rcases lt_or_ge k 2 with hk | hk
  · refine iff_of_true ⟨s.entries, .inl rfl, ?_⟩ hk
    rw [truncateAt_early hf hk hcut, ← hlog]
    exact h.serves max'
  · refine iff_of_false (fun ⟨l, _, hserves, _⟩ => ?_) (by omega)
    obtain ⟨j, rfl⟩ := Nat.exists_eq_add_of_le' hk
    obtain ⟨hidx, hshort⟩ := truncateAt_error (not_mem_laterSegs _ _ _) hf hcut
    have hmem : ie ∈ w'.ram.idx := by
      rw [hidx]
      exact List.mem_of_getElem? htarget
    refine wholeLog_ne hmem hshort ?_ ?_ l hserves
    · rw [List.length_take, hoff, recHeaderLen]
      omega
    · rw [lastIndexLocked, hidx, h.readable.length_eq, ← h.readable.lastIndexLocked_eq]
      rfl

/-- `Truncate` fails. -/
theorem truncate_fault_usable_iff_notCut :
    ∃ w w' rest, StoreStep.execAll 2 (opened 2) [.append [⟨1, 1, [7]⟩, ⟨1, 2, []⟩]] = some w ∧
      truncateSuffix 2 w [.ok, .fail 0] =
        (.error (.io (.truncate "0000000000000001.seg" 30)), w', rest) ∧
      ∃ l, (l = [⟨1, 1, [7]⟩, ⟨1, 2, []⟩] ∨ l = [⟨1, 1, [7]⟩]) ∧ Serves 2 w' l := by
  obtain ⟨w, hw⟩ := Option.isSome_iff_exists.mp (by decide +kernel :
    (StoreStep.execAll 2 (opened 2) [.append [⟨1, 1, [7]⟩, ⟨1, 2, []⟩]]).isSome)
  have hall : ∀ w ∈ StoreStep.execAll 2 (opened 2) [.append [⟨1, 1, [7]⟩, ⟨1, 2, []⟩]],
      (truncateSuffix 2 w [.ok, .fail 0]).1 =
        .error (.io (.truncate "0000000000000001.seg" 30)) := by
    decide +kernel
  have hfault : truncateSuffix 2 w [.ok, .fail 0] =
      (.error (.io (.truncate "0000000000000001.seg" 30)),
        (truncateSuffix 2 w [.ok, .fail 0]).2.1, (truncateSuffix 2 w [.ok, .fail 0]).2.2) :=
    Prod.ext (hall w hw) rfl
  exact ⟨w, _, _, hw, hfault, (truncate_fault_usable_iff 2 (by decide)
    [.append [⟨1, 1, [7]⟩, ⟨1, 2, []⟩]] (by decide) (by decide) w hw
    { entries := [⟨1, 1, [7]⟩, ⟨1, 2, []⟩] } rfl 2 1 0 _ _ _ hfault 2).mpr (by decide)⟩

/-- The file is cut, and the `Sync` behind it fails: the log, which still has two entries, cannot be
read. -/
theorem truncate_sync_fault_unreadable :
    (StoreStep.execAll 2 (opened 2) [.append [⟨1, 1, [7]⟩, ⟨1, 2, []⟩]]).map (fun w =>
        let r := truncateSuffix 2 w [.ok, .ok, .fail 0]
        (r.1, (answer r.2.1 .lastIndex).1, wholeLog r.2.1)) =
      some (.error (.io (.syncTruncated "0000000000000001.seg")), .number 2, .failed .other) := by
  decide +kernel

end FileStore

end ToyRaft
