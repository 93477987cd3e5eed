import ToyRaft.FileStore.Truncate

/-!
# The calls of `LogStorage`

A caller sees the log through five calls.  `FileStore.answer` and `Storage.answer` are what the
file store and the memory store answer to one of them; errors are told apart by their class
only.  In a session, and as long as no call of the file system fails, both give the same answer
and go on to the same log (`Session.answer`).
-/

namespace ToyRaft

inductive LogCall
  | append (entries : List Entry)
  | truncateSuffix (start : ℕ)
  | entries (lo hi : ℕ)
  | term (index : ℕ)
  | lastIndex
  deriving DecidableEq, Repr

/-- What a call appends. -/
def LogCall.batch : LogCall → List Entry
  | .append es => es
  | _ => []

/-- The calls that change nothing. -/
def LogCall.IsRead : LogCall → Prop
  | .append _ | .truncateSuffix _ => False
  | _ => True

/-- What a caller can tell errors apart by. -/
inductive ErrorClass
  | nonContiguous
  | unexpectedEOF
  | invalidArgument
  | other
  deriving DecidableEq, Repr

inductive LogReply
  | done
  | entries (es : List Entry)
  | number (n : ℕ)
  | failed (c : ErrorClass)
  deriving DecidableEq, Repr

def StorageError.kind : StorageError → ErrorClass
  | .nonContiguous _ _ => .nonContiguous
  | .unexpectedEOF _ _ => .unexpectedEOF
  | .invalidRange _ _ => .invalidArgument
  | .invalidIndex _ => .invalidArgument
  | .io => .other

def FileError.kind : FileError → ErrorClass
  | .nonContiguous _ _ => .nonContiguous
  | .unexpectedEOF _ _ => .unexpectedEOF
  | .invalidRange _ _ => .invalidArgument
  | .invalidIndex _ => .invalidArgument
  | _ => .other

/-- The answer of the memory store. -/
def Storage.answer (s : Storage) : LogCall → LogReply × Storage
  | .append es =>
      match s.append es with
      | .ok s' => (.done, s')
      | .error e => (.failed e.kind, s)
  | .truncateSuffix start =>
      match s.truncateSuffix start with
      | .ok s' => (.done, s')
      | .error e => (.failed e.kind, s)
  | .entries lo hi =>
      match s.getEntries lo hi with
      | .ok es => (.entries es, s)
      | .error e => (.failed e.kind, s)
  | .term index =>
      match s.term index with
      | .ok t => (.number t, s)
      | .error e => (.failed e.kind, s)
  | .lastIndex => (.number s.lastIndex, s)

namespace FileStore

def serve : LogCall → FileM LogReply
  | .append es => do
      append es
      pure .done
  | .truncateSuffix start => do
      truncateSuffix start
      pure .done
  | .entries lo hi => do
      let es ← entries lo hi
      pure (.entries es)
  | .term index => do
      let t ← term index
      pure (.number t)
  | .lastIndex => do
      let n ← lastIndex
      pure (.number n)

/-- The answer of the file store when no call of the file system fails. -/
def answer (w : Site FileStore) (c : LogCall) : LogReply × Site FileStore :=
  match (serve c).run w with
  | (.ok r, w') => (r, w')
  | (.error e, w') => (.failed e.kind, w')
  | (.died, w') => (.failed .other, w')

/-- What a call asks of the store: its entries can be encoded, their indexes are numbers that
segments may have, and the segment after the active one has a later name. -/
structure Admits (σ : Setting) (full : List Seg) (act : Option Seg) (c : LogCall) : Prop where
  fits : ∀ e ∈ c.batch, Fits e
  number : ∀ e ∈ c.batch, σ.number e.index
  rolls : ∀ a ∈ act, c.batch.length ≤ σ.max - a.entries.length ∨
    a.number ≤ (logOf full).length + σ.max

section

variable {σ : Setting} {w : Site FileStore} {full : List Seg} {act : Option Seg}

/-- The reads of a store whose index is right. -/
lemma Readable.wp_serve {F : Fate → Prop} (hF : Faultless F) {l : List Entry} (h : Readable w l)
    {c : LogCall} (hc : c.IsRead) {s : Storage} (hs : s.entries = l) :
    (serve c).wp F (fun r w' => w' = w ∧ s.answer c = (r, s))
      (fun e w' => w' = w ∧ s.answer c = (.failed e.kind, s)) (fun w' => w' = w) w := by
  subst hs
  cases c with
  | append es => exact hc.elim
  | truncateSuffix start => exact hc.elim
  | entries lo hi =>
      refine Prog.wp_bind (h.wp_entries hF (fun hrange => ⟨rfl, ?_⟩) (fun hrange hend => ⟨rfl, ?_⟩)
        (fun hrange hend => Prog.wp_pure ⟨rfl, ?_⟩) fun _ => rfl)
      · rw [Storage.answer, Storage.getEntries, if_pos hrange]
        rfl
      · rw [Storage.answer, Storage.getEntries, if_neg hrange, if_pos hend]
        rfl
      · rw [Storage.answer, Storage.getEntries, if_neg hrange, if_neg hend]
  | term index =>
      refine Prog.wp_bind (h.wp_term (fun h0 => Prog.wp_pure ⟨rfl, ?_⟩)
        (fun h0 e he => Prog.wp_pure ⟨rfl, ?_⟩) fun hend => ⟨rfl, ?_⟩)
      · rw [Storage.answer, Storage.term, if_pos h0]
      · have hlt := (List.getElem?_eq_some_iff.mp he).1
        rw [Storage.answer, Storage.term, if_neg h0, if_neg (by omega), he]
        rfl
      · rw [Storage.answer, Storage.term, if_neg (by omega), if_pos hend]
        rfl
  | lastIndex => exact Prog.wp_bind (h.wp_lastIndex (Prog.wp_pure ⟨rfl, rfl⟩))

lemma Readable.answer {l : List Entry} (h : Readable w l) {c : LogCall} (hc : c.IsRead)
    {s : Storage} (hs : s.entries = l) : FileStore.answer w c = ((s.answer c).1, w) := by
  rcases Prog.run_of_wp (h.wp_serve faultless_quiet hc hs) with
    ⟨r, w', hrun, rfl, heq⟩ | ⟨e, w', hrun, rfl, heq⟩
  · rw [FileStore.answer, hrun, heq]
  · rw [FileStore.answer, hrun, heq]

/-- The file store is in a session that holds the log `l`. -/
def Holds (σ : Setting) (w : Site FileStore) (l : List Entry) : Prop :=
  ∃ full act, Session σ w full act ∧ logOf (full ++ act.toList) = l

/-- The file store has given the answer `r` of the memory store to `c`, and holds its log. -/
def Agrees (σ : Setting) (s : Storage) (c : LogCall) (r : LogReply) (w : Site FileStore) : Prop :=
  r = (s.answer c).1 ∧ Holds σ w (s.answer c).2.entries

lemma Session.wp_serve (h : Session σ w full act) {c : LogCall} (hc : Admits σ full act c)
    {s : Storage} (hs : s.entries = logOf (full ++ act.toList)) :
    (serve c).wp (· = .ok) (Agrees σ s c) (fun e w' => Agrees σ s c (.failed e.kind) w')
      (fun _ => True) w := by
  have hold : Holds σ w s.entries := ⟨full, act, h, hs.symm⟩
  have hread : c.IsRead → (serve c).wp (· = .ok) (Agrees σ s c)
      (fun e w' => Agrees σ s c (.failed e.kind) w') (fun _ => True) w := fun hc' => by
    refine Prog.wp_mono (h.readable.wp_serve faultless_quiet hc' hs) ?_ ?_ fun _ _ => trivial
    · rintro r w' ⟨rfl, heq⟩
      rw [Agrees, heq]
      exact ⟨rfl, hold⟩
    · rintro e w' ⟨rfl, heq⟩
      rw [Agrees, heq]
      exact ⟨rfl, hold⟩
  cases c with
  | append es =>
      refine Prog.wp_bind (Prog.wp_mono (h.wp_append faultless_quiet (fun hd => by cases hd) hc.fits
        hc.number hc.rolls ?_ ?_ ?_) (fun _ _ hq => hq) (fun _ _ he => he) fun _ _ => trivial)
      · intro hcont w' full' act' h' hlog
        have hmem : s.append es = .ok { s with entries := s.entries ++ es } :=
          Storage.append_ok (by rw [hs]; exact hcont)
        refine Prog.wp_pure ?_
        rw [Agrees, Storage.answer, hmem]
        exact ⟨rfl, full', act', h', by rw [hlog, ← hs]⟩
      · intro e he hne
        obtain ⟨rest, rfl⟩ := List.head?_eq_some_iff.mp he
        rw [← hs] at hne
        rw [Agrees, Storage.answer, Storage.append, if_pos hne]
        exact ⟨rfl, hold⟩
      · intro e he hidx g hg
        obtain ⟨rest, rfl⟩ := List.head?_eq_some_iff.mp he
        rw [← hs] at hidx
        rw [Agrees, Storage.answer, Storage.append, if_neg (not_not.mpr hidx),
          Option.mem_def.mp hg]
        exact ⟨rfl, hold⟩
  | truncateSuffix start =>
      refine Prog.wp_bind (Prog.wp_mono (h.wp_truncateSuffix faultless_quiet (fun hd => by cases hd)
        ?_ ?_ ?_) (fun _ _ hq => hq) (fun _ _ he => he) fun _ _ => trivial)
      · intro hlt
        rw [← hs] at hlt
        refine Prog.wp_pure ?_
        rw [Agrees, Storage.answer, Storage.truncateSuffix, if_pos hlt]
        exact ⟨rfl, hold⟩
      · intro h1
        rw [Agrees, Storage.answer, Storage.truncateSuffix, if_neg (by omega), if_pos h1]
        exact ⟨rfl, hold⟩
      · intro h1 hle w' full' act' h' hlog
        rw [← hs] at hle hlog
        refine Prog.wp_pure ?_
        rw [Agrees, Storage.answer, Storage.truncateSuffix_ok (by omega)]
        exact ⟨rfl, full', act', h', hlog⟩
  | entries lo hi => exact hread trivial
  | term index => exact hread trivial
  | lastIndex => exact hread trivial

/-- In a session the two stores give the same answers. -/
lemma Session.answer (h : Session σ w full act) {c : LogCall} (hc : Admits σ full act c)
    {s : Storage} (hs : s.entries = logOf (full ++ act.toList)) :
    Agrees σ s c (FileStore.answer w c).1 (FileStore.answer w c).2 := by
  rcases Prog.run_of_wp (h.wp_serve hc hs) with ⟨r, w', hrun, hr⟩ | ⟨e, w', hrun, he⟩
  · rw [FileStore.answer, hrun]
    exact hr
  · rw [FileStore.answer, hrun]
    exact he

end

/-! ## A store that is opened again -/

/-- The batch fits into the active segment, or the segment that follows it has a later name. -/
def RollsClear (r : FileStore) (es : List Entry) : Prop :=
  r.activeFile = none ∨ es.length ≤ r.maxEntriesPerSegment - r.activeCount ∨
    r.active <
      segmentName (r.lastIndexLocked - r.activeCount + r.maxEntriesPerSegment + 1)

instance (r : FileStore) (es : List Entry) : Decidable (RollsClear r es) :=
  inferInstanceAs (Decidable (_ ∨ _ ∨ _))

/-- A store that is opened again, with indexes of at most sixteen digits. -/
def reopening (max : ℕ) (hmax : 0 < max) : Setting where
  max
  pos := hmax
  number n := n < 10 ^ 16
  reopens := True

/-- Where the next segment goes, in terms of the memory of the store. -/
lemma Session.rolls_of_rollsClear {max : ℕ} {hmax : 0 < max} {w : Site FileStore}
    {full : List Seg} {act : Option Seg} (h : Session (reopening max hmax) w full act)
    {es : List Entry} (hroll : RollsClear w.ram es) :
    ∀ a ∈ act, es.length ≤ max - a.entries.length ∨ a.number ≤ (logOf full).length + max := by
  rintro a rfl
  have hlast := h.readable.lastIndexLocked_eq
  rw [Option.toList_some, logOf_append, logOf_singleton, List.length_append] at hlast
  rw [RollsClear, h.ram.activeFile, h.ram.active a rfl, h.ram.count a rfl, h.ram.max, hlast,
    Nat.add_sub_cancel] at hroll
  rcases hroll with hnone | hroom | hname
  · cases hnone
  · exact .inl hroom
  · right
    obtain ⟨m, hm, hname'⟩ :=
      h.disk.named a.name (isSegment_segmentName _) (h.disk.slot_ne (by simp))
    obtain rfl : a.number = m := segmentName_injective hname'
    by_contra hlt
    push Not at hlt
    rcases eq_or_lt_of_le (Nat.succ_le_of_lt hlt) with heq | hlt'
    · exact hname.ne (congrArg segmentName heq.symm)
    · exact lt_asymm hname (segmentName_lt hm hlt')

/-- What the store is asked for before a call, in terms of its memory. -/
lemma Session.admits_of_rollsClear {max : ℕ} {hmax : 0 < max} {w : Site FileStore}
    {full : List Seg} {act : Option Seg} (h : Session (reopening max hmax) w full act) {c : LogCall}
    (hsize : ∀ e ∈ c.batch, Fits e ∧ e.index < 10 ^ 16) (hroll : RollsClear w.ram c.batch) :
    Admits (reopening max hmax) full act c where
  fits e he := (hsize e he).1
  number e he := (hsize e he).2
  rolls := h.rolls_of_rollsClear hroll

end FileStore

end ToyRaft
