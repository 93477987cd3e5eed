import ToyRaft.FileStore.Calls
import ToyRaft.FileStore.Survive

/-!
# Crash consistency of the segmented log

A store is opened, used, and dies between any two calls of the file system; what was not synced
may be lost.  The next `openWith` should succeed, with the log the store had before the
interrupted call and, at most, a part of the effect of that call (`CrashEvent.Permits`).

That fails in two ways (`crash_breaks_log`).  A rollover makes the name of the new segment
durable before its header, and `openWith` rejects a segment with a short header.  And a
truncation across segments cuts the first of them before it removes the later ones, which leaves
a gap.  It also fails where the active segment is overwritten after the store was opened again.

`crash_consistent` is what holds if none of that happens (`Benign`).
-/

namespace ToyRaft

/-- The call in which the process dies. -/
inductive Interrupted
  /-- Between two calls. -/
  | idle
  | append (entries : List Entry)
  | truncateSuffix (start : ℕ)
  deriving DecidableEq, Repr

inductive CrashEvent
  | append (entries : List Entry)
  | truncateSuffix (start : ℕ)
  /-- The process dies in a call, after `k` calls of the file system or when it has returned. -/
  | crash (op : Interrupted) (k : ℕ) (loss : String → ℕ × ℕ)
  | openWith
  /-- The process dies in `openWith`. -/
  | crashOpen (k : ℕ) (loss : String → ℕ × ℕ)

inductive Phase
  | running
  | down
  /-- `openWith` has returned an error. -/
  | failed
  deriving DecidableEq, Repr

structure CrashState where
  site : Site FileStore
  phase : Phase

def Interrupted.batch : Interrupted → List Entry
  | .append es => es
  | _ => []

def CrashEvent.batch : CrashEvent → List Entry
  | .append es => es
  | .crash op _ _ => op.batch
  | _ => []

namespace FileStore

/-- Run a program until it has made `k` calls; it dies before the next one. -/
def upTo (k : ℕ) (m : FileM Unit) (w : Site FileStore) :
    Outcome FileError Unit × Site FileStore :=
  let r := m w (List.replicate k .ok ++ [.die])
  (r.1, r.2.1)

def interrupted : Interrupted → FileM Unit
  | .idle => pure ()
  | .append es => append es
  | .truncateSuffix start => truncateSuffix start

/-- The disk after a crash. -/
def crashDisk (op : Interrupted) (k : ℕ) (loss : String → ℕ × ℕ) (w : Site FileStore) : Disk :=
  (upTo k (interrupted op) w).2.disk.crash loss

end FileStore

namespace CrashEvent

open FileStore

/-- One event.  There is none for a store that is not in the right phase. -/
def apply (max : ℕ) : CrashEvent → CrashState → Option CrashState
  | .append es, ⟨w, .running⟩ => some ⟨(answer w (.append es)).2, .running⟩
  | .truncateSuffix start, ⟨w, .running⟩ => some ⟨(answer w (.truncateSuffix start)).2, .running⟩
  | .crash op k loss, ⟨w, .running⟩ => some ⟨⟨crashDisk op k loss w, {}⟩, .down⟩
  | .openWith, ⟨w, .down⟩ =>
      match (FileStore.openWith max).run w with
      | (.ok _, w') => some ⟨w', .running⟩
      | (_, w') => some ⟨w', .failed⟩
  | .crashOpen k loss, ⟨w, .down⟩ =>
      match upTo k (FileStore.openWith max) w with
      | (.error _, w') => some ⟨w', .failed⟩
      | (_, w') => some ⟨⟨w'.disk.crash loss, {}⟩, .down⟩
  | _, _ => none

/-- What an event may do to the log. -/
def Permits : CrashEvent → List Entry → List Entry → Prop
  | .append es, l, l' => l' = (Storage.answer { entries := l } (.append es)).2.entries
  | .truncateSuffix start, l, l' =>
      l' = (Storage.answer { entries := l } (.truncateSuffix start)).2.entries
  | .crash .idle _ _, l, l' => l' = l
  | .crash (.append es) _ _, l, l' => ∃ n, l' = l ++ es.take n
  | .crash (.truncateSuffix start) _ _, l, l' => ∃ n, start - 1 ≤ n ∧ l' = l.take n
  | .openWith, l, l' => l' = l
  | .crashOpen _ _, l, l' => l' = l

/-- A truncation that is interrupted has not cut its segment yet, or none of the segments that it
removes is left. -/
def Spared (r : FileStore) (d d' : Disk) : Interrupted → Prop
  | .truncateSuffix start => ∀ target ∈ r.idx[start - 1]?,
      d'.content target.segment = d.content target.segment ∨
        ∀ n ∈ r.laterSegs (start - 1) target, d'.content n = none
  | _ => True

/-- Every rollover goes on to a later name, and a crash leaves every segment file with a whole
header and no later segment behind one that is cut. -/
def Benign (w : Site FileStore) : CrashEvent → Prop
  | .append es => RollsClear w.ram es
  | .crash op k loss => RollsClear w.ram op.batch ∧ Headed (crashDisk op k loss w) ∧
      Spared w.ram w.disk (crashDisk op k loss w) op
  | _ => True

instance decidableSpared (r : FileStore) (d d' : Disk) : ∀ op, Decidable (Spared r d d' op)
  | .idle => isTrue trivial
  | .append _ => isTrue trivial
  | .truncateSuffix start => inferInstanceAs (Decidable (∀ target ∈ r.idx[start - 1]?, _))

instance decidableBenign (w : Site FileStore) : ∀ e : CrashEvent, Decidable (e.Benign w)
  | .append es => inferInstanceAs (Decidable (RollsClear w.ram es))
  | .truncateSuffix _ => isTrue trivial
  | .crash _ _ _ => inferInstanceAs (Decidable (_ ∧ _ ∧ _))
  | .openWith => isTrue trivial
  | .crashOpen _ _ => isTrue trivial

end CrashEvent

/-- A directory in which nothing was ever stored. -/
def CrashState.start : CrashState := ⟨{ disk := .empty, ram := {} }, .down⟩

/-- `openWith` has not failed, and if the store is open it reads the log `l`. -/
structure CrashState.Shows (m : CrashState) (l : List Entry) : Prop where
  phase : m.phase ≠ .failed
  contiguous : Log.Contiguous l
  reads : m.phase = .running → ∀ c : LogCall, c.IsRead →
    (FileStore.answer m.site c).1 = (Storage.answer { entries := l } c).1

/-- Every event of a run from a state with the log `l` does to the log what it may do. -/
def Consistent (max : ℕ) : CrashState → List Entry → List CrashEvent → Prop
  | m, l, [] => m.Shows l
  | m, l, e :: events => m.Shows l ∧
      ∀ m' ∈ e.apply max m, ∃ l', e.Permits l l' ∧ Consistent max m' l' events

/-- Every event of a run is benign. -/
def AllBenign (max : ℕ) : CrashState → List CrashEvent → Prop
  | _, [] => True
  | m, e :: events => e.Benign m.site ∧ ∀ m' ∈ e.apply max m, AllBenign max m' events

instance decidableAllBenign (max : ℕ) : ∀ (m : CrashState) (events : List CrashEvent),
    Decidable (AllBenign max m events)
  | _, [] => isTrue trivial
  | m, e :: events =>
      match he : e.apply max m with
      | none => decidable_of_iff (e.Benign m.site) (by simp [AllBenign, he])
      | some m' =>
          have := decidableAllBenign max m' events
          decidable_of_iff (e.Benign m.site ∧ AllBenign max m' events) (by simp [AllBenign, he])

/-! ## What a crash leaves -/

namespace FileStore

section

variable {max : ℕ} {hmax : 0 < max} {w : Site FileStore} {l : List Entry}

lemma upTo_cases {m : FileM Unit} {E : FileError → Site FileStore → Prop}
    {P : Site FileStore → Prop} (h : m.wp Fate.Mortal (fun _ => P) E P w) (k : ℕ) :
    (∃ e w', upTo k m w = (.error e, w') ∧ E e w') ∨
      (∀ e, (upTo k m w).1 ≠ .error e) ∧ P (upTo k m w).2 := by
  obtain ⟨-, hm⟩ := h (List.replicate k .ok ++ [.die]) (by
    intro f hf
    rcases List.mem_append.mp hf with hf | hf
    · exact .inl (List.eq_of_mem_replicate hf)
    · exact .inr (List.mem_singleton.mp hf))
  rw [upTo]
  rcases hr : m w (List.replicate k .ok ++ [.die]) with ⟨_ | e | _, w', fs⟩ <;> rw [hr] at hm ⊢
  · exact .inr ⟨fun _ he => (by cases he), hm⟩
  · exact .inl ⟨e, w', rfl, hm⟩
  · exact .inr ⟨fun _ he => (by cases he), hm.2⟩

lemma upTo_of_wp {m : FileM Unit} {P : Site FileStore → Prop}
    (h : m.wp Fate.Mortal (fun _ => P) (fun _ => P) P w) (k : ℕ) : P (upTo k m w).2 := by
  rcases upTo_cases h k with ⟨e, w', hrun, hw'⟩ | ⟨-, hw'⟩
  · rw [hrun]
    exact hw'
  · exact hw'

lemma Session.wreck {full : List Seg} {act : Option Seg}
    (h : Session (reopening max hmax) w full act) :
    Wreck (reopening max hmax) [] w.disk (logOf (full ++ act.toList))
      (logOf (full ++ act.toList)) :=
  h.disk.wreck (h.safe trivial) (List.prefix_refl _)

/-- The process dies in `Append`. -/
lemma Session.crash_append {full : List Seg} {act : Option Seg}
    (h : Session (reopening max hmax) w full act) {es : List Entry}
    (hadmits : Admits (reopening max hmax) full act (.append es)) (k : ℕ) :
    Wreck (reopening max hmax) [] (upTo k (append es) w).2.disk (logOf (full ++ act.toList))
      (logOf (full ++ act.toList) ++ es) := by
  refine upTo_of_wp (P := fun w' => Wreck (reopening max hmax) [] w'.disk _ _)
    (h.wp_append faultless_mortal (fun _ => trivial) hadmits.fits hadmits.number hadmits.rolls
      (fun _ w' full' act' h' hlog => ?_) (fun _ _ _ => ?_) fun _ _ _ _ _ => ?_) k
  · have hwreck := h'.wreck
    rw [hlog] at hwreck
    exact hwreck.mono (List.prefix_append _ _) (List.prefix_refl _)
  · exact h.wreck.mono (List.prefix_refl _) (List.prefix_append _ _)
  · exact h.wreck.mono (List.prefix_refl _) (List.prefix_append _ _)

lemma Session.crash_truncateSuffix {full : List Seg} {act : Option Seg}
    (h : Session (reopening max hmax) w full act) (start k : ℕ) :
    Wreck (reopening max hmax) [] (upTo k (truncateSuffix start) w).2.disk
        ((logOf (full ++ act.toList)).take (start - 1)) (logOf (full ++ act.toList)) ∨
      CutWreck (reopening max hmax) w (logOf (full ++ act.toList)) (start - 1)
        (upTo k (truncateSuffix start) w).2.disk := by
  refine upTo_of_wp (P := fun w' => Wreck (reopening max hmax) [] w'.disk _ _ ∨
    CutWreck (reopening max hmax) w _ _ w'.disk)
    (Prog.wp_mono (h.wp_truncateSuffix faultless_mortal (fun _ => trivial) (fun _ => ?_)
      (fun _ => ?_) fun _ _ w' full' act' h' hlog => ?_) (fun _ _ hq => hq) (fun _ _ he => he)
      fun _ hr => .inr hr) k
  · exact .inl (h.wreck.mono (List.take_prefix _ _) (List.prefix_refl _))
  · exact .inl (h.wreck.mono (List.take_prefix _ _) (List.prefix_refl _))
  · have hwreck := h'.wreck
    rw [hlog] at hwreck
    exact .inl (hwreck.mono (List.prefix_refl _) (List.take_prefix _ _))

end

end FileStore

/-! ## Whole runs -/

open FileStore

/-- What holds of a state with the log `l`. -/
def CrashState.Inv (σ : Setting) (m : CrashState) (l : List Entry) : Prop :=
  match m.phase with
  | .running => Holds σ m.site l
  | .down => Recoverable σ m.site.disk l
  | .failed => False

section

variable {max : ℕ} {hmax : 0 < max} {w : Site FileStore} {l : List Entry}

lemma CrashState.Inv.shows {m : CrashState} (h : m.Inv (reopening max hmax) l) : m.Shows l := by
  obtain ⟨w, phase⟩ := m
  cases phase with
  | running =>
      obtain ⟨full, act, hs, rfl⟩ := h
      refine ⟨fun hf => (by cases hf), hs.disk.row.contiguous, fun _ c hc => ?_⟩
      exact congrArg Prod.fst (hs.readable.answer hc (s := { entries := _ }) rfl)
  | down =>
      obtain ⟨segs, torn, hdebris, rfl⟩ := h
      exact ⟨fun hf => (by cases hf), hdebris.contiguous, fun hf => (by cases hf)⟩
  | failed => exact h.elim

lemma inv_answer {c : LogCall} (h : Holds (reopening max hmax) w l)
    (hsize : ∀ e ∈ c.batch, Fits e ∧ e.index < 10 ^ 16) (hroll : RollsClear w.ram c.batch) :
    Holds (reopening max hmax) (answer w c).2 (Storage.answer { entries := l } c).2.entries := by
  obtain ⟨full, act, hs, hlog⟩ := h
  exact (hs.answer (hs.admits_of_rollsClear hsize hroll) (s := { entries := l }) hlog.symm).2

/-- The process dies, and what is left can be recovered. -/
lemma inv_crash {op : Interrupted} {k : ℕ} {loss : String → ℕ × ℕ}
    (h : Holds (reopening max hmax) w l) (hsize : ∀ e ∈ op.batch, Fits e ∧ e.index < 10 ^ 16)
    (hb : (CrashEvent.crash op k loss).Benign w) :
    ∃ l', (CrashEvent.crash op k loss).Permits l l' ∧
      Recoverable (reopening max hmax) (crashDisk op k loss w) l' := by
  obtain ⟨full, act, hs, rfl⟩ := h
  obtain ⟨hroll, hheaded, hspared⟩ := hb
  cases op with
  | idle =>
      exact ⟨_, rfl, (hs.disk.recoverable (fun _ hn => hn) trivial (hs.synced trivial)).crash loss⟩
  | append es =>
      have hwreck := hs.crash_append (hs.admits_of_rollsClear (c := .append es) hsize hroll) k
      obtain ⟨l', hlo, hhi, hrec⟩ := hwreck.recoverable (fun _ hn => hn) loss hheaded
        fun n hn => by cases hn
      refine ⟨l', ?_, hrec⟩
      obtain ⟨t, rfl⟩ := hlo
      have ht := (List.prefix_append_right_inj _).mp hhi
      exact ⟨t.length, by rw [← List.prefix_iff_eq_take.mp ht]⟩
  | truncateSuffix start =>
      have hrec : ∃ l', (logOf (full ++ act.toList)).take (start - 1) <+: l' ∧
          l' <+: logOf (full ++ act.toList) ∧
          Recoverable (reopening max hmax) (crashDisk (.truncateSuffix start) k loss w) l' := by
        rcases hs.crash_truncateSuffix start k with
          hwreck | hwreck | ⟨target, htarget, hcut, hwreck⟩
        · exact hwreck.recoverable (fun _ hn => hn) loss hheaded fun n hn => by cases hn
        · obtain ⟨l', hlo, hhi, hrec⟩ := hwreck.recoverable (fun _ hn => hn) loss hheaded
            fun n hn => by cases hn
          exact ⟨l', (List.take_prefix _ _).trans hlo, hhi, hrec⟩
        · -- the target is cut, so no later segment is left
          have hlater := (hspared target htarget).resolve_left (by
            obtain ⟨b, hb, hne⟩ := hcut
            intro heq
            apply hne
            rw [← heq, crashDisk, Disk.content, Disk.slot_crash, interrupted, hb, Slot.crash_solid]
            exact congrArg some (List.append_nil _))
          obtain ⟨l', hlo, hhi, hrec⟩ := hwreck.recoverable (fun _ hn => hn) loss hheaded hlater
          exact ⟨l', hlo, hhi.trans (List.take_prefix _ _), hrec⟩
      obtain ⟨l', hlo, hhi, hrec⟩ := hrec
      refine ⟨l', ⟨Max.max (start - 1) l'.length, le_max_left _ _, ?_⟩, hrec⟩
      rcases le_total (start - 1) l'.length with hle | hle
      · rw [max_eq_right hle]
        exact List.prefix_iff_eq_take.mp hhi
      · rw [max_eq_left hle]
        have hlen := hhi.length_le
        exact (hlo.eq_of_length_le (by rw [List.length_take]; omega)).symm

lemma inv_openWith (h : Recoverable (reopening max hmax) w.disk l) :
    ∃ w', (openWith max).run w = (.ok (), w') ∧ Holds (reopening max hmax) w' l := by
  have hwp := h.wp_openWith (E := fun _ _ => False) faultless_quiet trivial
    (Q := fun _ w' => Holds (reopening max hmax) w' l)
    fun w' full act hs hlog => ⟨full, act, hs, hlog⟩
  rcases Prog.run_of_wp hwp with ⟨_, w', hrun, hw'⟩ | ⟨_, _, _, hfalse⟩
  · exact ⟨w', hrun, hw'⟩
  · exact hfalse.elim

/-- The process dies in `openWith`. -/
lemma inv_crashOpen (h : Recoverable (reopening max hmax) w.disk l) (k : ℕ) :
    (∀ e, (upTo k (openWith max) w).1 ≠ .error e) ∧
      Recoverable (reopening max hmax) (upTo k (openWith max) w).2.disk l := by
  have hwp := h.wp_openWith (E := fun _ _ => False) faultless_mortal trivial
    (Q := fun _ w' => Recoverable (reopening max hmax) w'.disk l) fun w' full act hs hlog => by
      have hrec := hs.disk.recoverable (fun _ hn => hn) trivial (hs.synced trivial)
      rwa [hlog] at hrec
  exact (upTo_cases hwp k).resolve_left fun ⟨_, _, _, hfalse⟩ => hfalse

lemma CrashState.Inv.step {m m' : CrashState} {e : CrashEvent} (h : m.Inv (reopening max hmax) l)
    (hsize : ∀ x ∈ e.batch, Fits x ∧ x.index < 10 ^ 16) (hb : e.Benign m.site)
    (hm : e.apply max m = some m') :
    ∃ l', e.Permits l l' ∧ m'.Inv (reopening max hmax) l' := by
  obtain ⟨w, phase⟩ := m
  cases phase with
  | failed => exact h.elim
  | running =>
      cases e with
      | append es =>
          cases hm
          exact ⟨_, rfl, inv_answer (c := .append es) h hsize hb⟩
      | truncateSuffix start =>
          cases hm
          exact ⟨_, rfl,
            inv_answer (c := .truncateSuffix start) h hsize (.inr (.inl (Nat.zero_le _)))⟩
      | crash op k loss =>
          cases hm
          exact inv_crash h hsize hb
      | openWith => cases hm
      | crashOpen k loss => cases hm
  | down =>
      cases e with
      | openWith =>
          obtain ⟨w', hrun, hw'⟩ := inv_openWith h
          rw [CrashEvent.apply, hrun] at hm
          cases hm
          exact ⟨l, rfl, hw'⟩
      | crashOpen k loss =>
          obtain ⟨hno, hrec⟩ := inv_crashOpen h k
          rw [CrashEvent.apply] at hm
          split at hm
          · rename_i e w' hrun
            exact (hno e (congrArg Prod.fst hrun)).elim
          · rename_i hrun
            cases hm
            rw [hrun] at hrec
            exact ⟨l, rfl, hrec.crash loss⟩
      | append es => cases hm
      | truncateSuffix start => cases hm
      | crash op k loss => cases hm

lemma CrashState.Inv.consistent {m : CrashState} {events : List CrashEvent}
    (h : m.Inv (reopening max hmax) l)
    (hsize : ∀ e ∈ events, ∀ x ∈ e.batch, Fits x ∧ x.index < 10 ^ 16)
    (hb : AllBenign max m events) : Consistent max m l events := by
  induction events generalizing m l with
  | nil => exact h.shows
  | cons e events ih =>
      refine ⟨h.shows, fun m' hm' => ?_⟩
      obtain ⟨l', hl', h'⟩ := h.step (hsize e List.mem_cons_self) hb.1 hm'
      exact ⟨l', hl', ih h' (fun x hx => hsize x (List.mem_cons_of_mem _ hx)) (hb.2 m' hm')⟩

end

/-- On a fresh directory, every `openWith` succeeds, and finds the log that was there before the
crash with a part of the effect of the interrupted call. -/
theorem crash_consistent (max : ℕ) (hmax : 1 ≤ max) (events : List CrashEvent)
    (hsize : ∀ e ∈ events, ∀ x ∈ e.batch, Fits x ∧ x.index < 10 ^ 16)
    (hb : AllBenign max .start events) : Consistent max .start [] events := by
  have hstart : CrashState.start.Inv (reopening max hmax) [] := by
    have hd : OnDisk (reopening max hmax) .empty [] none := (session_empty fun _ _ => rfl).disk
    exact hd.recoverable (fun _ hn => hn) trivial fun a ha => by cases ha
  exact hstart.consistent hsize hb

/-- A crash in a rollover that loses the new name, one behind half a record, one in the middle of
the removal of segments, and one in the recovery from it. -/
def crashedFourTimes : List CrashEvent :=
  [.openWith, .append [⟨1, 1, [7]⟩, ⟨1, 2, []⟩], .crash (.append [⟨1, 3, [8]⟩]) 4 fun _ => (1, 0),
    .openWith, .crash (.append [⟨1, 3, [9, 9]⟩, ⟨1, 4, []⟩]) 7 fun _ => (0, 20),
    .crashOpen 9 fun _ => (0, 0), .openWith, .append [⟨2, 4, []⟩, ⟨2, 5, []⟩],
    .crash (.truncateSuffix 4) 6 fun _ => (0, 0), .openWith, .append [⟨3, 4, []⟩]]

theorem crash_consistent_crashedFourTimes : Consistent 2 .start [] crashedFourTimes :=
  crash_consistent 2 (by decide) crashedFourTimes (by decide) (by decide +kernel)

/-! ## What a crash can break -/

/-- The state after a run. -/
def CrashEvent.applyAll (max : ℕ) : CrashState → List CrashEvent → Option CrashState
  | m, [] => some m
  | m, e :: events => (e.apply max m).bind fun m' => applyAll max m' events

lemma Consistent.shows {max : ℕ} {m m' : CrashState} {l : List Entry} {events : List CrashEvent}
    (h : Consistent max m l events) (hm : CrashEvent.applyAll max m events = some m') :
    ∃ l', m'.Shows l' := by
  induction events generalizing m l with
  | nil =>
      cases hm
      exact ⟨l, h⟩
  | cons e events ih =>
      obtain ⟨m₁, hm₁, hrest⟩ := Option.bind_eq_some_iff.mp hm
      obtain ⟨l₁, -, h₁⟩ := h.2 m₁ hm₁
      exact ih h₁ hrest

/-- What is read from a log without gaps has none. -/
lemma CrashState.Shows.contiguousFrom {m : CrashState} {l : List Entry} (h : m.Shows l)
    (hphase : m.phase = .running) {lo hi : ℕ} {es : List Entry}
    (hread : (answer m.site (.entries lo hi)).1 = .entries es) :
    Log.ContiguousFrom (lo - 1) es := by
  rw [h.reads hphase (.entries lo hi) trivial, Storage.answer, Storage.getEntries] at hread
  split_ifs at hread
  cases hread
  have hdrop := (h.contiguous.drop (lo - 1)).take (hi - lo)
  rwa [Nat.zero_add] at hdrop

/-- The process dies when it has created its first segment and synced the directory, but not the
header. -/
def headerLost : List CrashEvent :=
  [.openWith, .crash (.append [⟨1, 1, []⟩]) 3 fun _ => (0, 0), .openWith]

/-- The process dies when it has cut the second of three segments, and before it removes the
third. -/
def gapLeft : List CrashEvent :=
  [.openWith, .append [⟨1, 1, []⟩, ⟨1, 2, []⟩, ⟨1, 3, []⟩],
    .crash (.truncateSuffix 2) 4 fun _ => (0, 0), .openWith]

/-- A crash during a rollover can leave a directory that does not open, and one during a truncation
a log with a gap. -/
theorem crash_breaks_log :
    ¬ Consistent 1 .start [] headerLost ∧ ¬ Consistent 1 .start [] gapLeft := by
  constructor
  · intro h
    obtain ⟨m, hm⟩ := Option.isSome_iff_exists.mp
      (by decide +kernel : (CrashEvent.applyAll 1 .start headerLost).isSome)
    have hphase : (CrashEvent.applyAll 1 .start headerLost).map (·.phase) = some .failed := by
      decide +kernel
    obtain ⟨l, hl⟩ := h.shows hm
    rw [hm] at hphase
    exact hl.phase (Option.some.inj hphase)
  · intro h
    obtain ⟨m, hm⟩ := Option.isSome_iff_exists.mp
      (by decide +kernel : (CrashEvent.applyAll 1 .start gapLeft).isSome)
    have hphase : (CrashEvent.applyAll 1 .start gapLeft).map (·.phase) = some .running := by
      decide +kernel
    have hread : (CrashEvent.applyAll 1 .start gapLeft).map
        (fun m => (answer m.site (.entries 1 3)).1) =
          some (.entries [⟨1, 1, []⟩, ⟨1, 3, []⟩]) := by
      decide +kernel
    obtain ⟨l, hl⟩ := h.shows hm
    rw [hm] at hphase hread
    have hgap := hl.contiguousFrom (Option.some.inj hphase) (Option.some.inj hread) 1 _ rfl
    cases hgap

end ToyRaft
