import ToyRaft.Core.Storage
import ToyRaft.FileStore.Segment

/-!
# The file store (`file.go`, `hardstate.go`, `snapshot.go`)

The log is a row of segment files; the memory holds an index with the place of every entry, and
the segment that is open for append.  Every function is a program over the calls of the file
system.  Whatever the source stores in its fields before a call fails stays stored.

The directory of the store is the whole disk, so paths are names.  A program that would panic
on an index out of range returns `panicked`.
-/

namespace ToyRaft

/-- `idxEntry`: where an entry is. -/
structure IdxEntry where
  index : ℕ
  term : ℕ
  segment : String
  /-- Where the payload starts. -/
  offset : ℕ
  /-- The length of the payload. -/
  length : ℕ
  deriving DecidableEq, Repr

/-- The fields of `Storage`. -/
structure FileStore where
  idx : List IdxEntry := []
  active : String := ""
  activeFile : Option Vfs.Handle := none
  activeCount : ℕ := 0
  maxEntriesPerSegment : ℕ := 1024
  deriving DecidableEq, Repr

/-- What an error of the file system is wrapped in. -/
inductive FileStep
  | readDir
  | openSegment (name : String)
  | statSegment (name : String)
  | scanSegment (name : String)
  | truncateTail (name : String)
  | syncTail (name : String)
  | syncDirAfterTail
  | closeScanned (name : String)
  | reopenActive (name : String)
  | close
  | closeOnRollover
  | createSegment (name : String)
  | writeSegmentHeader (name : String)
  | syncDirAfterCreate (name : String)
  | sizeBeforeWrite
  | writeRecord (index : ℕ)
  | syncOnAppend
  | openForTruncate (name : String)
  | truncate (name : String) (cut : ℕ)
  | syncTruncated (name : String)
  | closeActiveOnTruncate
  | removeOnTruncate (name : String)
  | syncDirAfterTruncate
  | openForRead (name : String)
  | readHeader (index : ℕ) (name : String)
  | readEntry (index : ℕ) (name : String)
  | createTmp (name : String)
  | writeTmp (name : String)
  | syncTmp (name : String)
  | closeTmp (name : String)
  | rename (name : String)
  | syncDirAfterRename (name : String)
  | openState (name : String)
  | readState (name : String)
  deriving DecidableEq, Repr

inductive FileError
  /-- `errNonContiguous`. -/
  | nonContiguous (expected got : ℕ)
  /-- `io.ErrUnexpectedEOF`. -/
  | unexpectedEOF (index last : ℕ)
  | invalidRange (lo hi : ℕ)
  | invalidIndex (start : ℕ)
  | io (step : FileStep)
  /-- A record that cannot be decoded. -/
  | decode (index : ℕ) (err : FileStore.RecordError)
  /-- `errCorruptHardState`, `errCorruptSnapshot`. -/
  | corrupt (name : String) (err : FileStore.FrameError)
  | panicked
  deriving DecidableEq, Repr

/-- A method of the store. -/
abbrev FileM := Prog (Site FileStore) FileError

namespace FileStore

/-- `lastIndexLocked`. -/
def lastIndexLocked (s : FileStore) : ℕ :=
  match s.idx.getLast? with
  | none => 0
  | some ie => ie.index

/-! ## `Append` -/

/-- `Close` on the active file.  The field keeps the file, which is closed also if `Close` fails. -/
def closeActive (f : Vfs.Handle) : Prog (Site FileStore) VfsError Unit := do
  Vfs.setRam fun s => { s with activeFile := some { f with closed := true } }
  f.on Vfs.close

lemma wp_closeActive {F : Fate → Prop} {Q : Unit → Site FileStore → Prop}
    {E : VfsError → Site FileStore → Prop} {R : Site FileStore → Prop} {w : Site FileStore}
    {f : Vfs.Handle} (hF : Faultless F) (hopen : f.closed = false)
    (hQ : ∀ g, Q () { w with ram := { w.ram with activeFile := g } })
    (hR : F .die → ∀ g, R { w with ram := { w.ram with activeFile := g } }) :
    (closeActive f).wp F Q E R w :=
  Prog.wp_bind (Vfs.wp_setRam (Vfs.Handle.wp_on hopen (Vfs.wp_close hF (hQ _) fun hd => hR hd _)))

lemma keeps_closeActive {I : Site FileStore → Prop} {f : Vfs.Handle}
    (hI : ∀ w, I w →
      I { w with ram := { w.ram with activeFile := some { f with closed := true } } }) :
    (closeActive f).Keeps I fun _ => True :=
  (Vfs.keeps_setRam hI).bind fun _ _ => Vfs.Handle.keeps_on Vfs.keeps_look

/-- The active segment, if there is one, is synced and closed. -/
def closeFull : FileM Unit := do
  match (← Vfs.ram).activeFile with
  | none => pure ()
  | some f =>
      let synced ← (f.on Vfs.sync).attempt
      let closed ← (closeActive f).attempt
      match synced, closed with
      | .ok _, .ok _ => Vfs.setRam fun s => { s with activeFile := none }
      | _, _ => Prog.throw (.io .closeOnRollover)

/-- `rolloverLocked`. -/
def rolloverLocked (firstIndex : ℕ) : FileM Unit := do
  closeFull
  let name := segmentName firstIndex
  (Vfs.create name).orFail (.io (.createSegment name))
  (Vfs.write name segHeader).orClean (Vfs.close name) (.io (.writeSegmentHeader name))
  Vfs.syncDir.orClean (Vfs.close name) (.io (.syncDirAfterCreate name))
  Vfs.setRam fun s =>
    { s with active := name, activeFile := some { name }, activeCount := 0 }

/-- Roll over if there is no active segment, or it is full. -/
def ensureActive (index : ℕ) : FileM Unit := do
  let s ← Vfs.ram
  if s.activeFile = none ∨ s.maxEntriesPerSegment ≤ s.activeCount then rolloverLocked index
  else pure ()

/-- `encodeRecord`. -/
def encodeRecord (f : Vfs.Handle) (e : Entry) : Prog (Site FileStore) VfsError Unit := do
  f.on (Vfs.write · (recHeader (payload e)))
  f.on (Vfs.write · (payload e))

/-- `writeRecordLocked`: append a record, and return where its payload starts. -/
def writeRecordLocked (e : Entry) : FileM ℕ := do
  match (← Vfs.ram).activeFile with
  | none => Prog.throw .panicked
  | some f =>
      let size ← (f.on Vfs.size).orFail (.io .sizeBeforeWrite)
      (encodeRecord f e).orFail (.io (.writeRecord e.index))
      pure (size + recHeaderLen)

/-- The loop of `Append`, which returns the staged index entries. -/
def writeRecords : List Entry → FileM (List IdxEntry)
  | [] => pure []
  | e :: rest => do
      ensureActive e.index
      let off ← writeRecordLocked e
      let s ← Vfs.ram
      Vfs.setRam fun s => { s with activeCount := s.activeCount + 1 }
      let staged ← writeRecords rest
      pure
        ({ index := e.index, term := e.term, segment := s.active, offset := off,
           length := payloadFixedLen + e.data.length } :: staged)

/-- The final `Sync` of `Append`. -/
def syncActive : FileM Unit := do
  match (← Vfs.ram).activeFile with
  | none => Prog.throw .panicked
  | some f => (f.on Vfs.sync).orFail (.io .syncOnAppend)

/-- `Append`. -/
def append (entries : List Entry) : FileM Unit := do
  match entries with
  | [] => pure ()
  | e :: rest =>
      let s ← Vfs.ram
      if e.index ≠ s.lastIndexLocked + 1 then
        Prog.throw (.nonContiguous (s.lastIndexLocked + 1) e.index)
      else
        match Storage.firstGap (e :: rest) with
        | some (expected, got) => Prog.throw (.nonContiguous expected got)
        | none =>
            let staged ← writeRecords (e :: rest)
            syncActive
            Vfs.setRam fun s => { s with idx := s.idx ++ staged }

/-! ## `TruncateSuffix` -/

/-- The segments other than that of `target` that hold entries from position `pos` on, in the
order in which they are met. -/
def laterSegs (s : FileStore) (pos : ℕ) (target : IdxEntry) : List String :=
  (((s.idx.drop pos).map (·.segment)).filter (· ≠ target.segment)).reverse.dedup.reverse

/-- The active handle, whatever it points at, is closed. -/
def dropActive (tf : String) : FileM Unit := do
  match (← Vfs.ram).activeFile with
  | none => pure ()
  | some f =>
      (closeActive f).orClean (Vfs.close tf) (.io .closeActiveOnTruncate)
      Vfs.setRam fun s => { s with activeFile := none }

def removeSegs (tf : String) : List String → FileM Unit
  | [] => pure ()
  | name :: rest => do
      (Vfs.remove name).orClean (Vfs.close tf) (.io (.removeOnTruncate name))
      removeSegs tf rest

/-- `TruncateSuffix`, once the entry to cut at is found. -/
def truncateAt (later : List String) (pos : ℕ) (target : IdxEntry) : FileM Unit := do
  let tf := target.segment
  let cut := target.offset - recHeaderLen
  (Vfs.openFile tf).orFail (.io (.openForTruncate tf))
  (Vfs.truncate tf cut).orClean (Vfs.close tf) (.io (.truncate tf cut))
  (Vfs.sync tf).orClean (Vfs.close tf) (.io (.syncTruncated tf))
  dropActive tf
  removeSegs tf later
  Vfs.syncDir.orClean (Vfs.close tf) (.io .syncDirAfterTruncate)
  Vfs.setRam fun s =>
    { s with
      idx := s.idx.take pos
      active := tf
      activeFile := some { name := tf }
      activeCount := (s.idx.take pos).countP (·.segment = tf) }

/-- `TruncateSuffix`. -/
def truncateSuffix (start : ℕ) : FileM Unit := do
  let s ← Vfs.ram
  if s.lastIndexLocked < start then pure ()
  else if start < 1 then Prog.throw (.invalidIndex start)
  else
    match s.idx[start - 1]? with
    | none => Prog.throw .panicked
    | some target => truncateAt (s.laterSegs (start - 1) target) (start - 1) target

/-! ## Reads -/

/-- `LastIndex`. -/
def lastIndex : FileM ℕ := do
  return (← Vfs.ram).lastIndexLocked

/-- `Term`. -/
def term (index : ℕ) : FileM ℕ := do
  let s ← Vfs.ram
  if index = 0 then pure 0
  else if s.lastIndexLocked < index then Prog.throw (.unexpectedEOF index s.lastIndexLocked)
  else
    match s.idx[index - 1]? with
    | none => Prog.throw .panicked
    | some ie => pure ie.term

/-- Read and decode the record of an entry from its open segment. -/
def readOpened (ie : IdxEntry) : FileM Entry := do
  let hdr ← (Vfs.readAt ie.segment recHeaderLen (ie.offset - recHeaderLen)).orFail
    (.io (.readHeader ie.index ie.segment))
  let p ← (Vfs.readAt ie.segment ie.length ie.offset).orFail
    (.io (.readEntry ie.index ie.segment))
  match decodeRecord hdr p with
  | .error err => Prog.throw (.decode ie.index err)
  | .ok e => pure e

/-- `readEntryLocked`. -/
def readEntryLocked (ie : IdxEntry) : FileM Entry := do
  (Vfs.openFile ie.segment).orFail (.io (.openForRead ie.segment))
  let r ← (readOpened ie).attempt
  let _ ← (Vfs.close ie.segment).attempt
  match r with
  | .error err => Prog.throw err
  | .ok e => pure e

def readEntries : List IdxEntry → FileM (List Entry)
  | [] => pure []
  | ie :: rest => do
      let e ← readEntryLocked ie
      let es ← readEntries rest
      pure (e :: es)

/-- `Entries`. -/
def entries (lo hi : ℕ) : FileM (List Entry) := do
  let s ← Vfs.ram
  if lo < 1 ∨ hi < lo then Prog.throw (.invalidRange lo hi)
  else if s.lastIndexLocked + 1 < hi then Prog.throw (.unexpectedEOF hi (s.lastIndexLocked + 1))
  else
    let ies := (s.idx.drop (lo - 1)).take (hi - lo)
    if ies.length < hi - lo then Prog.throw .panicked else readEntries ies

/-! ## Recovery -/

/-- A torn tail is cut off, and the cut is made durable. -/
def trimTail (name : String) (size goodEnd : ℕ) : FileM Unit := do
  if goodEnd < size then
    (Vfs.truncate name goodEnd).orFail (.io (.truncateTail name))
    (Vfs.sync name).orFail (.io (.syncTail name))
    Vfs.syncDir.orFail (.io .syncDirAfterTail)
  else pure ()

/-- The body of `scanOne`, between its `OpenAppend` and its deferred `Close`. -/
def scanOpened (name : String) : FileM (List ScanRec) := do
  let size ← (Vfs.size name).orFail (.io (.statSegment name))
  let (recs, goodEnd) ← (scanSegment name).orFail (.io (.scanSegment name))
  trimTail name size goodEnd
  pure recs

/-- `scanOne`. -/
def scanOne (name : String) : FileM (List ScanRec) := do
  (Vfs.openFile name).orFail (.io (.openSegment name))
  let r ← (scanOpened name).attempt
  let closed ← (Vfs.close name).attempt
  match r, closed with
  | .ok recs, .ok _ => pure recs
  | .error err, _ => Prog.throw err
  | .ok _, .error _ => Prog.throw (.io (.closeScanned name))

def idxEntry (name : String) (r : ScanRec) : IdxEntry :=
  { index := r.index, term := r.term, segment := name, offset := r.offset,
    length := payloadFixedLen + r.dataLen }

/-- The loop of `recover`. -/
def recoverSegs : List String → FileM Unit
  | [] => pure ()
  | name :: rest => do
      let recs ← scanOne name
      Vfs.setRam fun s =>
        { s with idx := s.idx ++ recs.map (idxEntry name), active := name,
                 activeCount := recs.length }
      recoverSegs rest

/-- The last segment is opened again for append. -/
def reopenActive : FileM Unit := do
  let s ← Vfs.ram
  if s.active = "" then pure ()
  else
    (Vfs.openFile s.active).orFail (.io (.reopenActive s.active))
    Vfs.setRam fun t => { t with activeFile := some { name := s.active } }

/-- `recover`. -/
def recover : FileM Unit := do
  let names ← Vfs.readDir.orFail (.io .readDir)
  recoverSegs (names.filter isSegment)
  reopenActive

/-- `openWith`, on a directory that exists. -/
def openWith (maxEntriesPerSegment : ℕ) : FileM Unit := do
  Vfs.setRam fun _ => { maxEntriesPerSegment }
  recover

/-- `Close`. -/
def close : FileM Unit := do
  match (← Vfs.ram).activeFile with
  | none => pure ()
  | some f =>
      let synced ← (f.on Vfs.sync).attempt
      let closed ← (closeActive f).attempt
      Vfs.setRam fun s => { s with activeFile := none }
      match synced, closed with
      | .ok _, .ok _ => pure ()
      | _, _ => Prog.throw (.io .close)

/-! ## The hard state and the snapshot -/

def hardStateFile : String := "hardstate"

def hardStateTmpFile : String := "hardstate.tmp"

def snapshotFile : String := "snapshot"

def snapshotTmpFile : String := "snapshot.tmp"

/-- Write a file under a temporary name and move it into place. -/
def replaceFile (tmp final : String) (b : Bytes) : FileM Unit := do
  (Vfs.create tmp).orFail (.io (.createTmp tmp))
  (Vfs.write tmp b).orClean (Vfs.close tmp) (.io (.writeTmp tmp))
  (Vfs.sync tmp).orClean (Vfs.close tmp) (.io (.syncTmp tmp))
  (Vfs.close tmp).orFail (.io (.closeTmp tmp))
  (Vfs.rename tmp final).orFail (.io (.rename final))
  Vfs.syncDir.orFail (.io (.syncDirAfterRename final))

/-- `readAllAt`. -/
def readAllAt (name : String) : Prog (Site FileStore) VfsError Bytes := do
  let size ← Vfs.size name
  Vfs.readAt name size 0

/-- The content of a file, if it is there. -/
def readFile (name : String) : FileM (Option Bytes) := do
  match ← (Vfs.openFile name).attempt with
  | .error .notExist => pure none
  | .error _ => Prog.throw (.io (.openState name))
  | .ok _ =>
      let r ← (readAllAt name).attempt
      let _ ← (Vfs.close name).attempt
      match r with
      | .error _ => Prog.throw (.io (.readState name))
      | .ok b => pure (some b)

/-- A file that is missing stands for the zero value. -/
def loadFile {α : Type} (name : String) (decode : Bytes → Except FrameError α) (zero : α) :
    FileM α := do
  match ← readFile name with
  | none => pure zero
  | some b =>
      match decode b with
      | .error err => Prog.throw (.corrupt name err)
      | .ok a => pure a

/-- `SaveHardState`. -/
def saveHardState (hs : RawHardState) : FileM Unit :=
  replaceFile hardStateTmpFile hardStateFile (encodeHardState hs)

/-- `LoadHardState`. -/
def loadHardState : FileM RawHardState := loadFile hardStateFile decodeHardState {}

/-- `SaveSnapshot`. -/
def saveSnapshot (snap : Snapshot) : FileM Unit :=
  replaceFile snapshotTmpFile snapshotFile (encodeSnapshot snap)

/-- `LoadSnapshot`. -/
def loadSnapshot : FileM Snapshot := loadFile snapshotFile decodeSnapshot {}

end FileStore

end ToyRaft
