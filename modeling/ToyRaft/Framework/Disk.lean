import Mathlib.Data.List.Sort
import Mathlib.Data.String.Basic
import ToyRaft.Framework.Faults

/-!
# A directory of files that can lose what was not synced

A `File` keeps the bytes that are durable apart from those written since its last `Sync`.  A
name of the directory is a `Slot`: the file it denotes, if any, and what it denoted before each
change made to it since the last `SyncDir`.  A crash leaves every name with one of these
versions, and every file with its durable bytes and some of the others, from the front
(`Disk.crash`).  `Slot.Within lo hi` says that whatever is left of a name holds at least the
bytes `lo` and at most the bytes `hi` (`Slot.Within.crash`).

The calls of `Vfs` are programs over a `Site`, the disk and the memory of one process.  A file
is open under its name, and a `Handle` that is kept for later calls knows whether it was closed.
That is exact for a process that does not use a handle after its name was bound to another file,
and writes through one it got from `Create` only while the file was not cut through another one:
such a handle has a position of its own, which otherwise is the end of the file.
-/

namespace ToyRaft

abbrev Bytes := List UInt8

/-- The contents of a file. -/
structure File where
  durable : Bytes := []
  /-- Written since the last `Sync`. -/
  unsynced : Bytes := []
  deriving DecidableEq, Repr

namespace File

/-- What a reader sees. -/
def bytes (f : File) : Bytes := f.durable ++ f.unsynced

def write (f : File) (p : Bytes) : File := { f with unsynced := f.unsynced ++ p }

def sync (f : File) : File := { durable := f.bytes }

def truncate (f : File) (size : ℕ) : File :=
  { durable := f.durable.take size, unsynced := f.unsynced.take (size - f.durable.length) }

@[simp] lemma bytes_write (f : File) (p : Bytes) : (f.write p).bytes = f.bytes ++ p :=
  (List.append_assoc _ _ _).symm

@[simp] lemma bytes_sync (f : File) : f.sync.bytes = f.bytes := List.append_nil _

@[simp] lemma bytes_truncate (f : File) (size : ℕ) :
    (f.truncate size).bytes = f.bytes.take size :=
  List.take_append.symm

end File

/-- One name of the directory. -/
structure Slot where
  current : Option File := none
  /-- What the name denoted before the changes made since the last `SyncDir`. -/
  older : List (Option File) := []
  deriving DecidableEq, Repr

namespace Slot

/-- The name is bound to another file, or to none. -/
def bind (s : Slot) (f : Option File) : Slot := { current := f, older := s.current :: s.older }

/-- The directory is synced. -/
def settle (s : Slot) : Slot := { current := s.current }

/-- A crash brings back version `n`, with `k` of its unsynced bytes. -/
def crash (s : Slot) (n k : ℕ) : Slot :=
  { current := ((s.current :: s.older)[n]?.getD s.current).map fun f =>
      { durable := f.durable ++ f.unsynced.take k } }

/-- What a reader sees. -/
def content (s : Slot) : Option Bytes := s.current.map File.bytes

/-- The file under a name holds `b`, and that is durable. -/
def solid (b : Bytes) : Slot := { current := some { durable := b } }

/-- What a version can lose is behind `lo`, and what it holds ends before `hi`.  No file at all
counts as one that can lose everything. -/
def Between (lo hi : Bytes) : Option File → Prop
  | none => lo = []
  | some f => lo <+: f.durable ∧ f.bytes <+: hi

/-- Every version a crash can bring back is between `lo` and `hi`. -/
def Within (lo hi : Bytes) (s : Slot) : Prop := ∀ v ∈ s.current :: s.older, Between lo hi v

lemma within_empty (hi : Bytes) : Within [] hi {} := by
  simp [Within, Between]

lemma within_file {f : File} {lo hi : Bytes} (hlo : lo <+: f.durable) (hhi : f.bytes <+: hi) :
    Within lo hi { current := some f } := by
  intro v hv
  rw [List.mem_singleton.mp hv]
  exact ⟨hlo, hhi⟩

lemma within_solid (b : Bytes) : Within b b (solid b) :=
  within_file (List.prefix_refl _) (by simp [File.bytes])

lemma Within.mono {lo lo' hi hi' : Bytes} {s : Slot} (h : s.Within lo hi) (hlo : lo' <+: lo)
    (hhi : hi <+: hi') : s.Within lo' hi' := by
  intro v hv
  have hb := h v hv
  cases v with
  | none =>
      rw [show lo = [] from hb] at hlo
      exact List.prefix_nil.mp hlo
  | some f => exact ⟨hlo.trans hb.1, hb.2.trans hhi⟩

/-- A new version may be anything the others may be. -/
lemma Within.bind {lo hi : Bytes} {s : Slot} (h : s.Within lo hi) {v : Option File}
    (hv : Between lo hi v) : (s.bind v).Within lo hi := by
  intro u hu
  rcases List.mem_cons.mp hu with rfl | hu
  · exact hv
  · exact h u hu

lemma Within.put {lo hi : Bytes} {s : Slot} (h : s.Within lo hi) {f : File}
    (hf : Between lo hi (some f)) : Within lo hi { s with current := some f } := by
  intro v hv
  rcases List.mem_cons.mp hv with rfl | hv
  · exact hf
  · exact h v (List.mem_cons_of_mem _ hv)

lemma Within.settle {lo hi : Bytes} {s : Slot} (h : s.Within lo hi) : s.settle.Within lo hi := by
  intro v hv
  rw [List.mem_singleton.mp hv]
  exact h _ List.mem_cons_self

/-- What a crash brings back is one of the versions. -/
lemma getD_mem (s : Slot) (n : ℕ) :
    (s.current :: s.older)[n]?.getD s.current ∈ s.current :: s.older := by
  cases hv : (s.current :: s.older)[n]? with
  | none => exact List.mem_cons_self
  | some v => exact List.mem_of_getElem? hv

/-- What is left after a crash. -/
lemma Within.crash {lo hi : Bytes} {s : Slot} (h : s.Within lo hi) (n k : ℕ) :
    s.crash n k = {} ∧ lo = [] ∨ ∃ b, s.crash n k = solid b ∧ lo <+: b ∧ b <+: hi := by
  have hb := h _ (s.getD_mem n)
  rw [Slot.crash]
  generalize (s.current :: s.older)[n]?.getD s.current = v at hb
  cases v with
  | none => exact .inl ⟨rfl, hb⟩
  | some f =>
      refine .inr ⟨_, rfl, hb.1.trans (List.prefix_append _ _), List.IsPrefix.trans ?_ hb.2⟩
      exact (List.prefix_append_right_inj _).mpr (List.take_prefix _ _)

lemma crash_eq (s : Slot) (n k : ℕ) : s.crash n k = {} ∨ ∃ b, s.crash n k = solid b := by
  rw [Slot.crash]
  cases (s.current :: s.older)[n]?.getD s.current with
  | none => exact .inl rfl
  | some f => exact .inr ⟨_, rfl⟩

lemma crash_empty (n k : ℕ) : ({} : Slot).crash n k = {} := by
  cases n with
  | zero => rfl
  | succ n => rfl

lemma crash_solid (b : Bytes) (n k : ℕ) : (solid b).crash n k = solid b := by
  cases n with
  | zero => simp [Slot.crash, solid]
  | succ n => simp [Slot.crash, solid]

/-! ### What every version is

`Versions P s` says that every version of a name is durable as it is, and that `P` holds of it.  A
crash brings back one of them as it is (`Versions.crash`). -/

def Versions (P : Option Bytes → Prop) (s : Slot) : Prop :=
  ∀ v ∈ s.current :: s.older, (∀ f ∈ v, f.unsynced = []) ∧ P (v.map File.durable)

section Versions

variable {P P' : Option Bytes → Prop} {s : Slot}

lemma versions_empty (h : P none) : Versions P {} := by
  intro v hv
  rw [List.mem_singleton.mp hv]
  exact ⟨fun f hf => (by cases hf), h⟩

lemma Versions.mono (h : s.Versions P) (hP : ∀ c, P c → P' c) : s.Versions P' :=
  fun v hv => ⟨(h v hv).1, hP _ (h v hv).2⟩

lemma Versions.bind_solid (h : s.Versions P) {b : Bytes} (hb : P (some b)) :
    (s.bind (some { durable := b })).Versions P := by
  intro v hv
  rcases List.mem_cons.mp hv with rfl | hv
  · refine ⟨fun f hf => ?_, hb⟩
    obtain rfl := Option.mem_some.mp hf
    rfl
  · exact h v hv

lemma Versions.settle (h : s.Versions P) : s.settle.Versions P := by
  intro v hv
  rw [List.mem_singleton.mp hv]
  exact h _ List.mem_cons_self

lemma Versions.content (h : s.Versions P) : P s.content := by
  obtain ⟨hsync, hP⟩ := h _ List.mem_cons_self
  rw [Slot.content]
  cases hcur : s.current with
  | none =>
      rw [hcur] at hP
      exact hP
  | some f =>
      rw [hcur] at hP hsync
      rw [Option.map_some, File.bytes, hsync f rfl, List.append_nil]
      exact hP

lemma Versions.crash (h : s.Versions P) (n k : ℕ) : (s.crash n k).Versions P := by
  obtain ⟨hsync, hP⟩ := h _ (s.getD_mem n)
  rw [Slot.crash]
  generalize (s.current :: s.older)[n]?.getD s.current = u at hsync hP
  intro v hv
  rw [List.mem_singleton.mp hv]
  cases u with
  | none => exact ⟨fun f hf => (by cases hf), hP⟩
  | some f =>
      refine ⟨fun g hg => ?_, ?_⟩
      · obtain rfl := Option.mem_some.mp hg
        rfl
      · show P (some (f.durable ++ f.unsynced.take k))
        rw [hsync f rfl, List.take_nil, List.append_nil]
        exact hP

end Versions

end Slot

/-- A directory. -/
structure Disk where
  slot : String → Slot
  /-- The names that were ever used. -/
  names : List String
  nodup : names.Nodup
  covers : ∀ n, slot n ≠ {} → n ∈ names

namespace Disk

def empty : Disk where
  slot _ := {}
  names := []
  nodup := List.nodup_nil
  covers _ h := (h rfl).elim

/-- Change one name. -/
def set (d : Disk) (n : String) (s : Slot) : Disk where
  slot := Function.update d.slot n s
  names := d.names.insert n
  nodup := d.nodup.insert
  covers m h := by
    by_cases hm : m = n
    · exact List.mem_insert_iff.mpr (.inl hm)
    · rw [Function.update_of_ne hm] at h
      exact List.mem_insert_of_mem (d.covers m h)

/-- Change every name. -/
def map (d : Disk) (f : String → Slot → Slot) (hf : ∀ n, f n {} = {}) : Disk where
  slot n := f n (d.slot n)
  names := d.names
  nodup := d.nodup
  covers n h := d.covers n fun heq => h (by rw [heq, hf])

/-- The directory is synced. -/
def settle (d : Disk) : Disk := d.map (fun _ s => s.settle) fun _ => rfl

/-- The files a reader sees, by name. -/
def content (d : Disk) (n : String) : Option Bytes := (d.slot n).content

/-- The names in use, in order. -/
def readDir (d : Disk) : List String :=
  (d.names.filter fun n => (d.slot n).current.isSome).insertionSort (· ≤ ·)

/-- What a crash leaves: of each name the version and the number of unsynced bytes that
`loss` gives. -/
def crash (d : Disk) (loss : String → ℕ × ℕ) : Disk :=
  d.map (fun n s => s.crash (loss n).1 (loss n).2) fun _ => Slot.crash_empty _ _

@[simp] lemma slot_set_self (d : Disk) (n : String) (s : Slot) : (d.set n s).slot n = s := by
  simp [set]

lemma slot_set_of_ne {m n : String} (h : m ≠ n) (d : Disk) (s : Slot) :
    (d.set n s).slot m = d.slot m := by
  simp [set, h]

@[simp] lemma set_set (d : Disk) (n : String) (s t : Slot) : (d.set n s).set n t = d.set n t := by
  simp [set]

lemma set_slot {d : Disk} {n : String} (h : d.slot n ≠ {}) : d.set n (d.slot n) = d := by
  cases d with
  | mk slot names nodup covers =>
      simp only [set, Function.update_eq_self, List.insert_of_mem (covers n h)]

lemma content_set_of_ne {m n : String} (h : m ≠ n) (d : Disk) (s : Slot) :
    (d.set n s).content m = d.content m := by
  rw [content, slot_set_of_ne h, content]

lemma content_set_self (d : Disk) (n : String) (s : Slot) : (d.set n s).content n = s.content := by
  rw [content, slot_set_self]

/-- A file whose bytes are not changed. -/
lemma content_put {d : Disk} {n : String} {x y : File} (hx : (d.slot n).current = some x)
    (hy : y.bytes = x.bytes) (m : String) :
    (d.set n { d.slot n with current := some y }).content m = d.content m := by
  by_cases hm : m = n
  · subst hm
    rw [content_set_self, content, Slot.content, Slot.content, hx, Option.map_some, Option.map_some,
      hy]
  · exact content_set_of_ne hm _ _

@[simp] lemma slot_crash (d : Disk) (loss : String → ℕ × ℕ) (n : String) :
    (d.crash loss).slot n = (d.slot n).crash (loss n).1 (loss n).2 := rfl

lemma slot_ne_of_crash {d : Disk} {loss : String → ℕ × ℕ} {n : String}
    (h : (d.crash loss).slot n ≠ {}) : d.slot n ≠ {} := by
  intro heq
  rw [slot_crash, heq, Slot.crash_empty] at h
  exact h rfl

@[simp] lemma slot_settle (d : Disk) (n : String) : d.settle.slot n = (d.slot n).settle := rfl

lemma mem_readDir {d : Disk} {n : String} : n ∈ d.readDir ↔ (d.slot n).current ≠ none := by
  rw [readDir, List.mem_insertionSort, List.mem_filter, ← Option.isSome_iff_ne_none]
  refine ⟨fun h => h.2, fun h => ⟨d.covers n fun heq => ?_, h⟩⟩
  rw [heq] at h
  cases h

lemma readDir_sorted (d : Disk) : d.readDir.Pairwise (· < ·) := by
  have hle : d.readDir.Pairwise (· ≤ ·) := List.pairwise_insertionSort _ _
  have hne : d.readDir.Nodup :=
    (List.perm_insertionSort _ _).nodup_iff.mpr (d.nodup.filter _)
  exact (hle.and hne).imp fun h => lt_of_le_of_ne h.1 h.2

end Disk

/-- The disk, and the memory of the process. -/
structure Site (ρ : Type) where
  disk : Disk
  ram : ρ

namespace Site

variable {ρ : Type}

def set (w : Site ρ) (n : String) (s : Slot) : Site ρ := { w with disk := w.disk.set n s }

@[simp] lemma disk_set (w : Site ρ) (n : String) (s : Slot) : (w.set n s).disk = w.disk.set n s :=
  rfl

@[simp] lemma ram_set (w : Site ρ) (n : String) (s : Slot) : (w.set n s).ram = w.ram := rfl

end Site

/-- Errors of a call. -/
inductive VfsError
  | notExist
  | eof
  /-- `os.ErrClosed`. -/
  | closed
  | fault
  deriving DecidableEq, Repr

namespace Vfs

variable {ρ α : Type}

/-- A call that changes one name. -/
def change (n : String) (f : Slot → Except VfsError Slot) (broken : ℕ → Slot → Slot) :
    Prog (Site ρ) VfsError Unit :=
  .call (fun w => (f (w.disk.slot n)).map fun s => ((), w.set n s)) .fault
    fun k w => w.set n (broken k (w.disk.slot n))

/-- A call that changes nothing. -/
def look (f : Disk → Except VfsError α) : Prog (Site ρ) VfsError α :=
  .call (fun w => (f w.disk).map fun a => (a, w)) .fault fun _ w => w

/-- Apply `f` to the file a name denotes. -/
def onFile (f : File → File) (s : Slot) : Except VfsError Slot :=
  match s.current with
  | none => .error .notExist
  | some x => .ok { s with current := some (f x) }

/-- `Open`, and `OpenAppend`. -/
def openFile (n : String) : Prog (Site ρ) VfsError Unit :=
  look fun d => if (d.slot n).current.isSome then .ok () else .error .notExist

/-- `Create`, which starts with a new, empty file. -/
def create (n : String) : Prog (Site ρ) VfsError Unit :=
  change n (fun s => .ok (s.bind (some {}))) fun _ s => s

/-- `Remove`. -/
def remove (n : String) : Prog (Site ρ) VfsError Unit :=
  change n (fun s => if s.current.isSome then .ok (s.bind none) else .error .notExist)
    fun _ s => s

/-- `Rename`. -/
def rename (old new : String) : Prog (Site ρ) VfsError Unit :=
  .call
    (fun w =>
      if (w.disk.slot old).current.isSome then
        let w' := w.set new ((w.disk.slot new).bind (w.disk.slot old).current)
        .ok ((), w'.set old ((w'.disk.slot old).bind none))
      else .error .notExist)
    .fault fun _ w => w

/-- `SyncDir`. -/
def syncDir : Prog (Site ρ) VfsError Unit :=
  .call (fun w => .ok ((), { w with disk := w.disk.settle })) .fault fun _ w => w

/-- `ReadDir`. -/
def readDir : Prog (Site ρ) VfsError (List String) := look fun d => .ok d.readDir

/-- `Write`, at the end of the file. -/
def write (n : String) (p : Bytes) : Prog (Site ρ) VfsError Unit :=
  change n (onFile (·.write p)) fun k s => { s with current := s.current.map (·.write (p.take k)) }

/-- `ReadAt`: `len` bytes from offset `off` on. -/
def readAt (n : String) (len off : ℕ) : Prog (Site ρ) VfsError Bytes :=
  look fun d =>
    match d.content n with
    | none => .error .notExist
    | some b => if off + len ≤ b.length then .ok ((b.drop off).take len) else .error .eof

/-- `Sync`. -/
def sync (n : String) : Prog (Site ρ) VfsError Unit := change n (onFile File.sync) fun _ s => s

/-- `Truncate`. -/
def truncate (n : String) (size : ℕ) : Prog (Site ρ) VfsError Unit :=
  change n (onFile (·.truncate size)) fun _ s => s

/-- `Size`. -/
def size (n : String) : Prog (Site ρ) VfsError ℕ :=
  look fun d =>
    match d.content n with
    | none => .error .notExist
    | some b => .ok b.length

/-- `Close`, which makes nothing durable. -/
def close (_ : String) : Prog (Site ρ) VfsError Unit := look fun _ => .ok ()

/-- An open file that is kept. -/
structure Handle where
  name : String
  /-- `Close` was called, whether it succeeded or not. -/
  closed : Bool := false
  deriving DecidableEq, Repr

/-- A call on an open file.  One that is closed fails without asking the disk. -/
def Handle.on (h : Handle) (m : String → Prog (Site ρ) VfsError α) : Prog (Site ρ) VfsError α :=
  if h.closed then Prog.throw .closed else m h.name

/-- Read the memory. -/
def ram {ε : Type} : Prog (Site ρ) ε ρ := fun w fs => (.ok w.ram, w, fs)

/-- Change the memory. -/
def setRam {ε : Type} (f : ρ → ρ) : Prog (Site ρ) ε Unit :=
  .modify fun w => { w with ram := f w.ram }

/-! ## Rules -/

section Rules

variable {F : Fate → Prop} {Q : α → Site ρ → Prop} {E : VfsError → Site ρ → Prop}
  {R : Site ρ → Prop} {w : Site ρ} {n : String}

lemma wp_ram {ε : Type} {Q : ρ → Site ρ → Prop} {E : ε → Site ρ → Prop} (h : Q w.ram w) :
    (ram : Prog (Site ρ) ε ρ).wp F Q E R w :=
  fun _ hfs => ⟨hfs, h⟩

lemma wp_setRam {ε : Type} {Q : Unit → Site ρ → Prop} {E : ε → Site ρ → Prop} {f : ρ → ρ}
    (h : Q () { w with ram := f w.ram }) : (setRam f : Prog (Site ρ) ε Unit).wp F Q E R w :=
  Prog.wp_modify h

lemma wp_look {f : Disk → Except VfsError α} (hok : ∀ a, f w.disk = .ok a → Q a w)
    (herr : ∀ e, f w.disk = .error e → E e w) (hfail : ∀ k, F (.fail k) → E .fault w)
    (hdie : F .die → R w) : (look f : Prog (Site ρ) VfsError α).wp F Q E R w := by
  refine Prog.wp_call (fun a w' h => ?_) (fun e h => ?_) hfail hdie
  · cases hf : f w.disk with
    | error e =>
        rw [hf] at h
        cases h
    | ok b =>
        rw [hf] at h
        cases h
        exact hok _ hf
  · cases hf : f w.disk with
    | error e' =>
        rw [hf] at h
        cases h
        exact herr _ hf
    | ok b =>
        rw [hf] at h
        cases h

lemma wp_change {Q : Unit → Site ρ → Prop} {f : Slot → Except VfsError Slot}
    {broken : ℕ → Slot → Slot} (hok : ∀ s, f (w.disk.slot n) = .ok s → Q () (w.set n s))
    (herr : ∀ e, f (w.disk.slot n) = .error e → E e w)
    (hfail : ∀ k, F (.fail k) → E .fault (w.set n (broken k (w.disk.slot n))))
    (hdie : F .die → R w) :
    (change n f broken : Prog (Site ρ) VfsError Unit).wp F Q E R w := by
  refine Prog.wp_call (fun a w' h => ?_) (fun e h => ?_) hfail hdie
  · cases hf : f (w.disk.slot n) with
    | error e =>
        rw [hf] at h
        cases h
    | ok s =>
        rw [hf] at h
        cases h
        exact hok _ hf
  · cases hf : f (w.disk.slot n) with
    | error e' =>
        rw [hf] at h
        cases h
        exact herr _ hf
    | ok s =>
        rw [hf] at h
        cases h

lemma wp_rename {Q : Unit → Site ρ → Prop} {old new : String} {x : File} (hne : old ≠ new)
    (hx : (w.disk.slot old).current = some x)
    (hok : ∀ w' : Site ρ, w'.ram = w.ram → w'.disk.slot new = (w.disk.slot new).bind (some x) →
      (∀ m, m ≠ old → m ≠ new → w'.disk.slot m = w.disk.slot m) → Q () w')
    (hfail : ∀ k, F (.fail k) → E .fault w) (hdie : F .die → R w) :
    (rename old new : Prog (Site ρ) VfsError Unit).wp F Q E R w := by
  refine Prog.wp_call (fun a w' h => ?_) (fun e h => ?_) hfail hdie
  · rw [hx, Option.isSome_some, if_pos rfl] at h
    cases h
    refine hok _ rfl ?_ fun m hm hm' => ?_
    · simp only [Site.disk_set, Disk.slot_set_of_ne hne.symm, Disk.slot_set_self]
    · simp only [Site.disk_set, Disk.slot_set_of_ne hm, Disk.slot_set_of_ne hm']
  · rw [hx, Option.isSome_some, if_pos rfl] at h
    cases h

lemma Handle.wp_on {h : Handle} {m : String → Prog (Site ρ) VfsError α} (hopen : h.closed = false)
    (hm : (m h.name).wp F Q E R w) : (h.on m).wp F Q E R w := by
  rw [Handle.on, hopen]
  exact hm

end Rules

/-! ### Calls that succeed -/

section Steps

variable {w : Site ρ} {n : String} {fs : List Fate}

lemma look_ok {f : Disk → Except VfsError α} {a : α} (h : f w.disk = .ok a) :
    (look f : Prog (Site ρ) VfsError α) w (.ok :: fs) = (.ok a, w, fs) := by
  simp only [look, Prog.call, Prog.effect, h, Except.map]

lemma change_ok {f : Slot → Except VfsError Slot} {broken : ℕ → Slot → Slot} {s : Slot}
    (h : f (w.disk.slot n) = .ok s) :
    (change n f broken : Prog (Site ρ) VfsError Unit) w (.ok :: fs) = (.ok (), w.set n s, fs) := by
  simp only [change, Prog.call, Prog.effect, h, Except.map]

lemma write_fail {p : Bytes} {k : ℕ} :
    (write n p : Prog (Site ρ) VfsError Unit) w (.fail k :: fs) =
      (.error .fault, w.set n { w.disk.slot n with
        current := (w.disk.slot n).current.map (·.write (p.take k)) }, fs) :=
  rfl

/-- Nothing is changed. -/
lemma setRam_self {ε : Type} {f : ρ → ρ} (h : f w.ram = w.ram) :
    (setRam f : Prog (Site ρ) ε Unit) w fs = (.ok (), w, fs) := by
  show (Outcome.ok (), Site.mk w.disk (f w.ram), fs) = _
  rw [h]

lemma Handle.on_closed {h : Handle} (hclosed : h.closed = true)
    (m : String → Prog (Site ρ) VfsError α) : h.on m w fs = (.error .closed, w, fs) := by
  rw [Handle.on, if_pos hclosed]
  rfl

end Steps

/-! ### Calls that keep an invariant -/

section Keeps

variable {I : Site ρ → Prop} {n : String}

lemma keeps_look {f : Disk → Except VfsError α} :
    Prog.Keeps I (fun _ => True) (look f : Prog (Site ρ) VfsError α) := fun _ hw =>
  wp_look (fun _ _ => ⟨trivial, hw⟩) (fun _ _ => hw) (fun _ _ => hw) fun _ => hw

lemma keeps_readAt {len off : ℕ} :
    Prog.Keeps I (fun p => p.length = len) (readAt n len off : Prog (Site ρ) VfsError Bytes) := by
  refine fun w hw => wp_look (fun p hp => ⟨?_, hw⟩) (fun _ _ => hw) (fun _ _ => hw) fun _ => hw
  cases hb : w.disk.content n with
  | none =>
      rw [hb] at hp
      cases hp
  | some b =>
      rw [hb] at hp
      dsimp only at hp
      split_ifs at hp with hle
      obtain rfl := Except.ok.inj hp
      rw [List.length_take, List.length_drop]
      omega

lemma keeps_change {f : Slot → Except VfsError Slot} {broken : ℕ → Slot → Slot}
    (h : ∀ w s, I w → I (w.set n s)) :
    Prog.Keeps I (fun _ => True) (change n f broken : Prog (Site ρ) VfsError Unit) := fun w hw =>
  wp_change (fun s _ => ⟨trivial, h w s hw⟩) (fun _ _ => hw) (fun _ _ => h w _ hw) fun _ => hw

lemma keeps_onFile {f : File → File} {broken : ℕ → Slot → Slot}
    (hf : ∀ w x, I w → (w.disk.slot n).current = some x →
      I (w.set n { w.disk.slot n with current := some (f x) }))
    (hbroken : ∀ w k, I w → I (w.set n (broken k (w.disk.slot n)))) :
    Prog.Keeps I (fun _ => True) (change n (onFile f) broken : Prog (Site ρ) VfsError Unit) := by
  refine fun w hw => wp_change (fun s hs => ⟨trivial, ?_⟩) (fun _ _ => hw)
    (fun k _ => hbroken w k hw) fun _ => hw
  cases hx : (w.disk.slot n).current with
  | none =>
      rw [onFile, hx] at hs
      cases hs
  | some x =>
      rw [onFile, hx] at hs
      cases hs
      exact hf w x hw hx

lemma keeps_syncDir (h : ∀ w, I w → I { w with disk := w.disk.settle }) :
    Prog.Keeps I (fun _ => True) (syncDir : Prog (Site ρ) VfsError Unit) :=
  Prog.keeps_call (fun w a w' hw heq => by
    cases heq
    exact ⟨trivial, h w hw⟩) fun _ _ hw => hw

lemma keeps_ram {ε : Type} {V : ρ → Prop} (h : ∀ w, I w → V w.ram) :
    Prog.Keeps I V (ram : Prog (Site ρ) ε ρ) := fun w hw => wp_ram ⟨h w hw, hw⟩

lemma keeps_setRam {ε : Type} {f : ρ → ρ} (h : ∀ w, I w → I { w with ram := f w.ram }) :
    Prog.Keeps I (fun _ => True) (setRam f : Prog (Site ρ) ε Unit) :=
  Prog.keeps_modify h

lemma Handle.keeps_on {h : Handle} {V : α → Prop} {m : String → Prog (Site ρ) VfsError α}
    (hm : Prog.Keeps I V (m h.name)) : Prog.Keeps I V (h.on m) := by
  unfold Handle.on
  split_ifs
  · exact Prog.keeps_throw
  · exact hm

end Keeps

/-! ### Calls on a file that is there, without faults -/

section Faultless

variable {F : Fate → Prop} {E : VfsError → Site ρ → Prop} {R : Site ρ → Prop} {w : Site ρ}
  {n : String} {x : File} {b : Bytes}

lemma wp_onFile {Q : Unit → Site ρ → Prop} {f : File → File} {broken : ℕ → Slot → Slot}
    (hF : Faultless F) (hx : (w.disk.slot n).current = some x)
    (hQ : Q () (w.set n { w.disk.slot n with current := some (f x) })) (hdie : F .die → R w) :
    (change n (onFile f) broken : Prog (Site ρ) VfsError Unit).wp F Q E R w := by
  have hf : onFile f (w.disk.slot n) = .ok { w.disk.slot n with current := some (f x) } := by
    simp only [onFile, hx]
  refine wp_change (fun s h => ?_) (fun e h => ?_) (fun k h => (hF k h).elim) hdie
  · cases hf.symm.trans h
    exact hQ
  · cases hf.symm.trans h

lemma wp_openFile {Q : Unit → Site ρ → Prop} (hF : Faultless F)
    (hx : (w.disk.slot n).current = some x) (hQ : Q () w) (hdie : F .die → R w) :
    (openFile n : Prog (Site ρ) VfsError Unit).wp F Q E R w := by
  refine wp_look (fun _ _ => hQ) (fun e h => ?_) (fun k h => (hF k h).elim) hdie
  rw [hx] at h
  cases h

lemma wp_create {Q : Unit → Site ρ → Prop} (hF : Faultless F)
    (hQ : Q () (w.set n ((w.disk.slot n).bind (some {})))) (hdie : F .die → R w) :
    (create n : Prog (Site ρ) VfsError Unit).wp F Q E R w := by
  refine wp_change (fun s h => ?_) (fun e h => ?_) (fun k h => (hF k h).elim) hdie
  · cases h
    exact hQ
  · cases h

lemma wp_remove {Q : Unit → Site ρ → Prop} (hF : Faultless F)
    (hx : (w.disk.slot n).current = some x) (hQ : Q () (w.set n ((w.disk.slot n).bind none)))
    (hdie : F .die → R w) : (remove n : Prog (Site ρ) VfsError Unit).wp F Q E R w := by
  refine wp_change (fun s h => ?_) (fun e h => ?_) (fun k h => (hF k h).elim) hdie
  · rw [hx] at h
    cases h
    exact hQ
  · rw [hx] at h
    cases h

lemma wp_syncDir {Q : Unit → Site ρ → Prop} (hF : Faultless F)
    (hQ : Q () { w with disk := w.disk.settle }) (hdie : F .die → R w) :
    (syncDir : Prog (Site ρ) VfsError Unit).wp F Q E R w := by
  refine Prog.wp_call (fun a w' h => ?_) (fun e h => ?_) (fun k h => (hF k h).elim) hdie
  · cases h
    exact hQ
  · cases h

lemma wp_readDir {Q : List String → Site ρ → Prop} (hF : Faultless F)
    (hQ : Q w.disk.readDir w) (hdie : F .die → R w) :
    (readDir : Prog (Site ρ) VfsError (List String)).wp F Q E R w := by
  refine wp_look (fun a h => ?_) (fun e h => ?_) (fun k h => (hF k h).elim) hdie
  · cases h
    exact hQ
  · cases h

lemma wp_size {Q : ℕ → Site ρ → Prop} (hF : Faultless F) (hb : w.disk.content n = some b)
    (hQ : Q b.length w) (hdie : F .die → R w) :
    (size n : Prog (Site ρ) VfsError ℕ).wp F Q E R w := by
  refine wp_look (fun a h => ?_) (fun e h => ?_) (fun k h => (hF k h).elim) hdie
  · rw [hb] at h
    cases h
    exact hQ
  · rw [hb] at h
    cases h

lemma wp_readAt {Q : Bytes → Site ρ → Prop} {len off : ℕ} (hF : Faultless F)
    (hb : w.disk.content n = some b)
    (hok : off + len ≤ b.length → Q ((b.drop off).take len) w)
    (heof : b.length < off + len → E .eof w) (hdie : F .die → R w) :
    (readAt n len off : Prog (Site ρ) VfsError Bytes).wp F Q E R w := by
  refine wp_look (fun a h => ?_) (fun e h => ?_) (fun k h => (hF k h).elim) hdie
  · rw [hb] at h
    dsimp only at h
    split_ifs at h with hle
    cases h
    exact hok hle
  · rw [hb] at h
    dsimp only at h
    split_ifs at h with hle
    cases h
    exact heof (by omega)

lemma wp_close {Q : Unit → Site ρ → Prop} (hF : Faultless F) (hQ : Q () w)
    (hdie : F .die → R w) : (close n : Prog (Site ρ) VfsError Unit).wp F Q E R w :=
  wp_look (fun _ _ => hQ) (fun _ h => by cases h) (fun k h => (hF k h).elim) hdie

end Faultless

end Vfs

end ToyRaft
