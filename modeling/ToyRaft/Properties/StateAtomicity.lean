import ToyRaft.FileStore.Calls
import ToyRaft.FileStore.StateFiles
import ToyRaft.Properties.DiskCodecs

/-!
# Saving the hard state and the snapshot

Both are written to a temporary file, which is synced and then renamed.  Whatever calls of the
file system fail, and wherever the process dies, the file under the final name is always a
complete one: that of the last save that succeeded, or of an attempt made since
(`saves_atomic`).

A save does not check that what it writes can be read back.  Text of four gibibytes or more is
written with a length that is not its own, and then cannot be loaded
(`oversized_snapshot_not_loaded`).
-/

namespace ToyRaft

/-- The last value that was saved, or the zero value, and what was attempted since. -/
structure Ledger (α : Type) where
  saved : α
  later : List α := []

namespace Ledger

variable {α : Type}

/-- What may be loaded. -/
def Allows (l : Ledger α) (a : α) : Prop := a = l.saved ∨ a ∈ l.later

/-- Saving `a` has ended. -/
def record (l : Ledger α) (a : α) : Outcome FileError Unit → Ledger α
  | .ok _ => { saved := a }
  | _ => { l with later := a :: l.later }

end Ledger

/-- The calls on a store. -/
inductive StoreCall
  | saveHardState (hs : FileStore.RawHardState)
  | saveSnapshot (snap : Snapshot)
  | loadHardState
  | loadSnapshot
  | log (c : LogCall)
  | close
  | openWith (maxEntriesPerSegment : ℕ)

inductive StoreEvent
  /-- A call, with the fates of the calls of the file system that it makes.  If the process dies
  in it, `loss` is what the disk loses. -/
  | call (c : StoreCall) (fates : List Fate) (loss : String → ℕ × ℕ)
  /-- The process dies between two calls. -/
  | crash (loss : String → ℕ × ℕ)

/-- A store, and what was saved in it. -/
structure SaveState where
  site : Site FileStore
  hardState : Ledger FileStore.RawHardState
  snapshot : Ledger Snapshot

namespace StoreCall

def exec : StoreCall → FileM Unit
  | .saveHardState hs => FileStore.saveHardState hs
  | .saveSnapshot snap => FileStore.saveSnapshot snap
  | .loadHardState => do
      let _ ← FileStore.loadHardState
  | .loadSnapshot => do
      let _ ← FileStore.loadSnapshot
  | .log c => do
      let _ ← FileStore.serve c
  | .close => FileStore.close
  | .openWith max => FileStore.openWith max

/-- What is saved is made of `uint64` numbers and a text with a length of 32 bits. -/
def Storable : StoreCall → Prop
  | .saveHardState hs => hs.Fits
  | .saveSnapshot snap => FileStore.SnapshotFits snap
  | _ => True

/-- What is known of the hard state after the call. -/
def recordHardState (c : StoreCall) (r : Outcome FileError Unit)
    (l : Ledger FileStore.RawHardState) : Ledger FileStore.RawHardState :=
  match c with
  | .saveHardState hs => l.record hs r
  | _ => l

/-- What is known of the snapshot after the call. -/
def recordSnapshot (c : StoreCall) (r : Outcome FileError Unit) (l : Ledger Snapshot) :
    Ledger Snapshot :=
  match c with
  | .saveSnapshot snap => l.record snap r
  | _ => l

end StoreCall

namespace StoreEvent

/-- What a call leaves: a disk after a crash if the process died, and the store if it did not. -/
def left (loss : String → ℕ × ℕ) (r : Outcome FileError Unit × Site FileStore × List Fate) :
    Site FileStore :=
  match r.1 with
  | .died => ⟨r.2.1.disk.crash loss, {}⟩
  | _ => r.2.1

/-- One event.  After a crash the memory is empty until the store is opened again; that calls are
made before that is not excluded. -/
def apply (m : SaveState) : StoreEvent → SaveState
  | .call c fates loss =>
      let r := c.exec m.site fates
      { site := left loss r
        hardState := c.recordHardState r.1 m.hardState
        snapshot := c.recordSnapshot r.1 m.snapshot }
  | .crash loss => { m with site := ⟨m.site.disk.crash loss, {}⟩ }

def Storable : StoreEvent → Prop
  | .call c _ _ => c.Storable
  | .crash _ => True

end StoreEvent

/-- An empty directory. -/
def SaveState.start : SaveState where
  site := { disk := .empty, ram := {} }
  hardState := { saved := {} }
  snapshot := { saved := {} }

/-- The state after a sequence of events. -/
def SaveState.run (events : List StoreEvent) : SaveState := events.foldl StoreEvent.apply .start

namespace FileStore

/-! ## What the files hold -/

section

variable {α : Type} {encode : α → Bytes} {zero : α} {fits : α → Prop} {l : Ledger α}

/-- A file that stands for a value that may be loaded. -/
def Recorded (encode : α → Bytes) (zero : α) (fits : α → Prop) (l : Ledger α) :
    Option Bytes → Prop
  | none => l.Allows zero
  | some b => ∃ a, l.Allows a ∧ fits a ∧ b = encode a

lemma recorded_saved {a : α} (ha : fits a) {c : Option Bytes} (hc : c = some (encode a)) :
    Recorded encode zero fits (l.record a (.ok ())) c := by
  rw [hc]
  exact ⟨a, .inl rfl, ha, rfl⟩

lemma recorded_attempt {a : α} (ha : fits a) {c : Option Bytes}
    (hc : Recorded encode zero fits l c ∨ c = some (encode a)) :
    Recorded encode zero fits { l with later := a :: l.later } c := by
  have hmono : ∀ x, l.Allows x → Ledger.Allows { l with later := a :: l.later } x := fun x hx =>
    hx.imp_right (List.mem_cons_of_mem _)
  rcases hc with hc | rfl
  · cases c with
    | none => exact hmono _ hc
    | some b =>
        obtain ⟨x, hx, hfits, rfl⟩ := hc
        exact ⟨x, hmono x hx, hfits, rfl⟩
  · exact ⟨a, .inr List.mem_cons_self, ha, rfl⟩

lemma load_recorded {decode : Bytes → Except FrameError α} {name : String} {w : Site FileStore}
    (hread : ∀ a, fits a → decode (encode a) = .ok a)
    (h : (w.disk.slot name).Versions (Recorded encode zero fits l)) :
    ∃ a, ((loadFile name decode zero).run w).1 = .ok a ∧ l.Allows a := by
  have hc := h.content
  rw [run_loadFile, Disk.content]
  cases hcontent : (w.disk.slot name).content with
  | none =>
      rw [hcontent] at hc
      exact ⟨zero, rfl, hc⟩
  | some b =>
      rw [hcontent] at hc
      obtain ⟨a, hallows, hfits, rfl⟩ := hc
      refine ⟨a, ?_, hallows⟩
      rw [loaded, hread a hfits]

end

/-- What the disk holds of a state. -/
structure Intact (m : SaveState) : Prop where
  owned : Owned m.site.ram
  hardState : (m.site.disk.slot hardStateFile).Versions
    (Recorded encodeHardState {} RawHardState.Fits m.hardState)
  snapshot : (m.site.disk.slot snapshotFile).Versions
    (Recorded encodeSnapshot {} SnapshotFits m.snapshot)

/-! ## One event -/

section

variable {m : SaveState} {loss : String → ℕ × ℕ} {P : Option Bytes → Prop} {n : String}

lemma left_versions {r : Outcome FileError Unit × Site FileStore × List Fate}
    (h : (r.2.1.disk.slot n).Versions P) : ((StoreEvent.left loss r).disk.slot n).Versions P := by
  unfold StoreEvent.left
  split
  · exact h.crash _ _
  · exact h

lemma left_owned {r : Outcome FileError Unit × Site FileStore × List Fate} (h : Owned r.2.1.ram) :
    Owned (StoreEvent.left loss r).ram := by
  unfold StoreEvent.left
  split
  · exact owned_new _
  · exact h

/-- The calls that save nothing leave the files of the state alone. -/
lemma keeps_exec {c : StoreCall} (hhs : ∀ hs, c ≠ .saveHardState hs)
    (hsnap : ∀ snap, c ≠ .saveSnapshot snap) (d : Disk) :
    c.exec.Keeps (Apart d) fun _ => True := by
  cases c with
  | saveHardState hs => exact (hhs hs rfl).elim
  | saveSnapshot snap => exact (hsnap snap rfl).elim
  | loadHardState => exact (keeps_loadFile _ _ _).bind fun _ _ => Prog.keeps_pure trivial
  | loadSnapshot => exact (keeps_loadFile _ _ _).bind fun _ _ => Prog.keeps_pure trivial
  | log c =>
      refine Prog.Keeps.bind (V := fun _ => True) ?_ fun _ _ => Prog.keeps_pure trivial
      cases c with
      | append es => exact (keeps_append es).bind fun _ _ => Prog.keeps_pure trivial
      | truncateSuffix start =>
          exact (keeps_truncateSuffix start).bind fun _ _ => Prog.keeps_pure trivial
      | entries lo hi =>
          exact (keeps_entries (P := fun _ => True) (fun _ _ _ _ => trivial) lo hi).bind fun _ _ =>
            Prog.keeps_pure trivial
      | term index => exact (keeps_term index).bind fun _ _ => Prog.keeps_pure trivial
      | lastIndex => exact keeps_lastIndex.bind fun _ _ => Prog.keeps_pure trivial
  | close => exact keeps_close
  | openWith max => exact keeps_openWith max

lemma replaceFile_records {α : Type} {encode : α → Bytes} {zero : α} {fits : α → Prop}
    {l : Ledger α} {w : Site FileStore} {tmp final : String} (hne : tmp ≠ final)
    (h : (w.disk.slot final).Versions (Recorded encode zero fits l)) {a : α} (ha : fits a)
    (fates : List Fate) :
    Swapped tmp final w
      (Recorded encode zero fits (l.record a (replaceFile tmp final (encode a) w fates).1))
      (replaceFile tmp final (encode a) w fates).2.1 := by
  obtain ⟨-, hend⟩ := wp_replaceFile hne h (encode a) fates fun _ _ => trivial
  rcases hr : replaceFile tmp final (encode a) w fates with ⟨_ | e | _, w', fates'⟩ <;>
    rw [hr] at hend
  · exact ⟨hend.ram, hend.versions.mono fun c hc => recorded_saved ha hc, hend.other⟩
  · exact ⟨hend.ram, hend.versions.mono fun c hc => recorded_attempt ha hc, hend.other⟩
  · exact ⟨hend.2.ram, hend.2.versions.mono fun c hc => recorded_attempt ha hc, hend.2.other⟩

lemma versions_of_same {d d' : Disk} (h : (d.slot n).Versions P)
    (hsame : d'.slot n = d.slot n ∨ d'.slot n = (d.slot n).settle) :
    (d'.slot n).Versions P := by
  rcases hsame with heq | heq <;> rw [heq]
  · exact h
  · exact h.settle

/-- One event. -/
lemma Intact.step (h : Intact m) {e : StoreEvent} (he : e.Storable) : Intact (e.apply m) := by
  cases e with
  | crash loss => exact ⟨owned_new _, h.hardState.crash _ _, h.snapshot.crash _ _⟩
  | call c fates loss =>
      by_cases hhs : ∃ hs, c = .saveHardState hs
      · obtain ⟨hs, rfl⟩ := hhs
        have hne : hardStateTmpFile ≠ hardStateFile := by decide
        have hs' := replaceFile_records hne h.hardState he fates
        refine ⟨left_owned ?_, left_versions hs'.versions, left_versions ?_⟩
        · rw [show (StoreCall.saveHardState hs).exec m.site fates = replaceFile hardStateTmpFile
            hardStateFile (encodeHardState hs) m.site fates from rfl, hs'.ram]
          exact h.owned
        · exact versions_of_same h.snapshot (hs'.other _ (by decide) (by decide))
      · by_cases hsnap : ∃ snap, c = .saveSnapshot snap
        · obtain ⟨snap, rfl⟩ := hsnap
          have hne : snapshotTmpFile ≠ snapshotFile := by decide
          have hs' := replaceFile_records hne h.snapshot he fates
          refine ⟨left_owned ?_, left_versions ?_, left_versions hs'.versions⟩
          · rw [show (StoreCall.saveSnapshot snap).exec m.site fates = replaceFile snapshotTmpFile
              snapshotFile (encodeSnapshot snap) m.site fates from rfl, hs'.ram]
            exact h.owned
          · exact versions_of_same h.hardState (hs'.other _ (by decide) (by decide))
        · push Not at hhs hsnap
          have hkeeps := (keeps_exec hhs hsnap m.site.disk).state (Apart.refl h.owned) fates
          have hsameHs : ∀ r, c.recordHardState r m.hardState = m.hardState := fun r => by
            cases c with
            | saveHardState hs => exact (hhs hs rfl).elim
            | _ => rfl
          have hsameSnap : ∀ r, c.recordSnapshot r m.snapshot = m.snapshot := fun r => by
            cases c with
            | saveSnapshot snap => exact (hsnap snap rfl).elim
            | _ => rfl
          refine ⟨left_owned hkeeps.owned, left_versions ?_, left_versions ?_⟩
          · dsimp only [StoreEvent.apply]
            rw [hsameHs]
            exact versions_of_same h.hardState (hkeeps.same _ (by decide))
          · dsimp only [StoreEvent.apply]
            rw [hsameSnap]
            exact versions_of_same h.snapshot (hkeeps.same _ (by decide))

lemma intact_run {events : List StoreEvent} (h : ∀ e ∈ events, e.Storable) :
    Intact (.run events) := by
  have hfold : ∀ (events : List StoreEvent) (m : SaveState), Intact m →
      (∀ e ∈ events, e.Storable) → Intact (events.foldl StoreEvent.apply m) := by
    intro events
    induction events with
    | nil => exact fun m hm _ => hm
    | cons e events ih =>
        intro m hm hall
        exact ih _ (hm.step (hall e List.mem_cons_self))
          fun x hx => hall x (List.mem_cons_of_mem _ hx)
  refine hfold events .start ⟨owned_new _, ?_, ?_⟩ h
  · exact Slot.versions_empty (.inl rfl)
  · exact Slot.versions_empty (.inl rfl)

end

/-- Whatever is called, whatever fails and wherever the process dies, loading the hard state and
loading the snapshot succeeds, with the value of the last save that succeeded, or with that of an
attempt made since. -/
theorem saves_atomic (events : List StoreEvent) (h : ∀ e ∈ events, e.Storable) :
    (∃ hs, (loadHardState.run (SaveState.run events).site).1 = .ok hs ∧
        (SaveState.run events).hardState.Allows hs) ∧
      ∃ snap, (loadSnapshot.run (SaveState.run events).site).1 = .ok snap ∧
        (SaveState.run events).snapshot.Allows snap := by
  have hintact := intact_run h
  exact ⟨load_recorded (fun _ hhs => exact_hardState.1 _ hhs) hintact.hardState,
    load_recorded (fun _ hsnap => exact_snapshot.1 _ hsnap) hintact.snapshot⟩

/-- A snapshot whose length does not fit into 32 bits is saved, but not loaded. -/
lemma load_oversized (snap : Snapshot) (h : 2 ^ 32 ≤ snap.data.length) :
    (SaveState.run [.call (.saveSnapshot snap) [] fun _ => (0, 0)]).snapshot.saved = snap ∧
      (loadSnapshot.run (SaveState.run [.call (.saveSnapshot snap) [] fun _ => (0, 0)]).site).1 =
        .error (.corrupt snapshotFile .badLength) := by
  have hne : snapshotTmpFile ≠ snapshotFile := by decide
  obtain ⟨w', hrun, hcontent⟩ := run_replaceFile hne SaveState.start.site (encodeSnapshot snap)
  have hok : ((StoreCall.saveSnapshot snap).exec SaveState.start.site []).1 = .ok () :=
    congrArg Prod.fst hrun
  have hsite : ((StoreCall.saveSnapshot snap).exec SaveState.start.site []).2.1 = w' :=
    congrArg Prod.snd hrun
  rw [SaveState.run, List.foldl_cons, List.foldl_nil]
  dsimp only [StoreEvent.apply, StoreCall.recordSnapshot]
  constructor
  · rw [hok, Ledger.record]
  · rw [StoreEvent.left, hok, hsite, loadSnapshot, run_loadFile, hcontent, loaded, decodeSnapshot,
      encodeSnapshot, decodeFrame_encodeFrame, if_neg (by omega)]
    rfl

/-- A vote for `n1` is saved, and the process dies between the write and the `Sync` of one for
`n2`. -/
theorem saves_atomic_halfWritten :
    ∃ hs, (loadHardState.run (SaveState.run
        [.call (.saveHardState { currentTerm := 1, votedFor := [0x6e, 0x31] }) [] fun _ => (0, 0),
          .call (.saveHardState { currentTerm := 2, votedFor := [0x6e, 0x32] }) [.ok, .ok, .die]
            fun _ => (0, 3)]).site).1 = .ok hs ∧
      (hs = { currentTerm := 1, votedFor := [0x6e, 0x31] } ∨
        hs = { currentTerm := 2, votedFor := [0x6e, 0x32] }) := by
  obtain ⟨hs, hload, hallows⟩ := (saves_atomic
    [.call (.saveHardState { currentTerm := 1, votedFor := [0x6e, 0x31] }) [] fun _ => (0, 0),
      .call (.saveHardState { currentTerm := 2, votedFor := [0x6e, 0x32] }) [.ok, .ok, .die]
        fun _ => (0, 3)] (by
      intro e he
      simp only [List.mem_cons, List.not_mem_nil, or_false] at he
      rcases he with rfl | rfl <;> exact ⟨by decide, by decide, by decide⟩)).1
  refine ⟨hs, hload, hallows.imp_right fun hmem => ?_⟩
  exact List.mem_singleton.mp hmem

/-- A snapshot of four gibibytes is saved, and cannot be loaded. -/
theorem oversized_snapshot_not_loaded :
    (SaveState.run
        [.call (.saveSnapshot { index := 1, term := 1, data := List.replicate (2 ^ 32) 0 })
          [] fun _ => (0, 0)]).snapshot.saved =
        { index := 1, term := 1, data := List.replicate (2 ^ 32) 0 } ∧
      (loadSnapshot.run (SaveState.run
        [.call (.saveSnapshot { index := 1, term := 1, data := List.replicate (2 ^ 32) 0 })
          [] fun _ => (0, 0)]).site).1 = .error (.corrupt snapshotFile .badLength) := by
  have hlen : 2 ^ 32 ≤ (List.replicate (2 ^ 32) (0 : UInt8)).length := by
    rw [List.length_replicate]
  generalize List.replicate (2 ^ 32) (0 : UInt8) = data at hlen
  exact load_oversized _ hlen

end FileStore

end ToyRaft
