import ToyRaft.FileStore.Reopened

/-!
# Close and reopen

Closing and reopening the file store should not change its log.  `recover` takes the last
segment by name as the active one, and `TruncateSuffix` leaves emptied segments behind.  So the
active segment can be named far ahead of the entries that are then written to it, and the next
rollover may take a name that comes before it, or its own (`reopen_overwrites_active`).

As long as every rollover goes on to a later name (`RollsClear`), the store answers as a memory
store on which the same calls were made (`reopen_preserves_log`).
-/

namespace ToyRaft

namespace FileStore

/-- Every rollover goes on to a later name. -/
def AllClear (max : ℕ) : Site FileStore → List StoreStep → Prop
  | _, [] => True
  | w, op :: ops => RollsClear w.ram op.batch ∧ ∀ w' ∈ op.exec max w, AllClear max w' ops

instance decidableAllClear (max : ℕ) : ∀ (w : Site FileStore) (ops : List StoreStep),
    Decidable (AllClear max w ops)
  | _, [] => isTrue trivial
  | w, op :: ops =>
      match hop : op.exec max w with
      | none => decidable_of_iff (RollsClear w.ram op.batch) (by simp [AllClear, hop])
      | some w' =>
          have := decidableAllClear max w' ops
          decidable_of_iff (RollsClear w.ram op.batch ∧ AllClear max w' ops)
            (by simp [AllClear, hop])

section

variable {max : ℕ} {hmax : 0 < max} {w : Site FileStore}

/-- Closing and opening again begins a new session with the same log. -/
lemma Session.wp_reopen {full : List Seg} {act : Option Seg}
    (h : Session (reopening max hmax) w full act) :
    (reopen max).wp (· = .ok)
      (fun _ w' => Holds (reopening max hmax) w' (logOf (full ++ act.toList))) (fun _ _ => False)
      (fun _ => True) w := by
  refine Prog.wp_bind (h.toLayout.wp_close faultless_quiet (fun w₁ h₁ hsolid => ?_)
    fun _ _ _ _ => trivial)
  have hrec := h₁.recoverable (fun _ hn => hn) trivial hsolid
  exact Prog.wp_mono (hrec.wp_openWith faultless_quiet trivial
    fun w₂ full₂ act₂ h₂ hlog => ⟨full₂, act₂, h₂, hlog⟩) (fun _ _ hq => hq)
    (fun _ _ he => he) fun _ _ => trivial

lemma Holds.step {s : Storage} (h : Holds (reopening max hmax) w s.entries) {op : StoreStep}
    (hsize : ∀ e ∈ op.batch, Fits e ∧ e.index < 10 ^ 16) (hroll : RollsClear w.ram op.batch)
    {w' : Site FileStore} (hw : op.exec max w = some w') :
    ∃ s', op.remember s = some s' ∧ Holds (reopening max hmax) w' s'.entries := by
  have hadmits : ∀ c : LogCall, c.batch = op.batch → ∀ full act,
      Session (reopening max hmax) w full act → Admits (reopening max hmax) full act c :=
    fun c hc full act hs => hs.admits_of_rollsClear (hc ▸ hsize) (hc ▸ hroll)
  cases op with
  | append es => exact h.accept (hadmits _ rfl) hw
  | truncateSuffix start => exact h.accept (hadmits _ rfl) hw
  | reopen =>
      obtain ⟨full, act, hs, hlog⟩ := h
      refine ⟨s, rfl, ?_⟩
      rcases Prog.run_of_wp hs.wp_reopen with ⟨_, w₂, hrun, hold⟩ | ⟨_, _, -, hfalse⟩
      · rw [StoreStep.exec, hrun] at hw
        rw [← Option.some.inj hw, ← hlog]
        exact hold
      · exact hfalse.elim

lemma Holds.run {s : Storage} (h : Holds (reopening max hmax) w s.entries) {ops : List StoreStep}
    (hsize : ∀ op ∈ ops, ∀ e ∈ op.batch, Fits e ∧ e.index < 10 ^ 16) (hclear : AllClear max w ops)
    {w' : Site FileStore} (hw : StoreStep.execAll max w ops = some w') :
    ∃ s', StoreStep.rememberAll s ops = some s' ∧ Holds (reopening max hmax) w' s'.entries := by
  refine h.run_of_step (fun w ops => (∀ op ∈ ops, ∀ e ∈ op.batch, Fits e ∧ e.index < 10 ^ 16) ∧
    AllClear max w ops) ?_ ⟨hsize, hclear⟩ hw
  intro w s op ops w' hfine h hw
  obtain ⟨hsize, hroll, hclear⟩ := hfine
  exact ⟨⟨fun x hx => hsize x (List.mem_cons_of_mem _ hx), hclear w' hw⟩,
    h.step (hsize op List.mem_cons_self) hroll hw⟩

end

/-- Whatever is appended, truncated, closed and opened again, the file store answers every read
as a memory store on which the same calls were made. -/
theorem reopen_preserves_log (max : ℕ) (hmax : 1 ≤ max) (ops : List StoreStep)
    (hsize : ∀ op ∈ ops, ∀ e ∈ op.batch, Fits e ∧ e.index < 10 ^ 16)
    (hclear : AllClear max (opened max) ops) (w : Site FileStore)
    (hrun : StoreStep.execAll max (opened max) ops = some w) :
    ∃ s, StoreStep.rememberAll {} ops = some s ∧
      ∀ c : LogCall, c.IsRead → (answer w c).1 = (s.answer c).1 := by
  obtain ⟨s, hs, full, act, h, hlog⟩ := (holds_opened (reopening max hmax)).run hsize hclear hrun
  exact ⟨s, hs, fun c hc => congrArg Prod.fst (h.readable.answer hc hlog.symm)⟩

/-- Three segments, cut back to the second one, with the store opened again in between. -/
def cutAndReopened : List StoreStep :=
  [.append [⟨1, 1, [7]⟩, ⟨1, 2, []⟩, ⟨1, 3, [8]⟩, ⟨1, 4, []⟩, ⟨1, 5, []⟩], .truncateSuffix 3,
    .reopen, .append [⟨2, 3, [5]⟩], .reopen, .append [⟨2, 4, []⟩, ⟨2, 5, [6]⟩]]

theorem reopen_preserves_log_cutAndReopened :
    ∃ w, StoreStep.execAll 2 (opened 2) cutAndReopened = some w ∧
      ∃ s, StoreStep.rememberAll {} cutAndReopened = some s ∧
        ∀ c : LogCall, c.IsRead → (answer w c).1 = (s.answer c).1 := by
  obtain ⟨w, hw⟩ := Option.isSome_iff_exists.mp
    (by decide +kernel : (StoreStep.execAll 2 (opened 2) cutAndReopened).isSome)
  exact ⟨w, hw,
    reopen_preserves_log 2 (by decide) cutAndReopened (by decide) (by decide +kernel) w hw⟩

/-- Two segments that are emptied from the end; the store is closed, opened again and filled. -/
def emptiedAndReopened : List StoreStep :=
  [.append [⟨1, 1, []⟩, ⟨1, 2, []⟩], .truncateSuffix 2, .truncateSuffix 1, .reopen,
    .append [⟨2, 1, []⟩], .append [⟨2, 2, []⟩]]

/-- With one entry in a segment, the emptied segment that is taken up again is overwritten by the
next one: the log `1, 2` reads `2, 2`. -/
theorem reopen_overwrites_active :
    (StoreStep.execAll 1 (opened 1) emptiedAndReopened).map
        (fun w => (answer w (.entries 1 3)).1) = some (.entries [⟨2, 2, []⟩, ⟨2, 2, []⟩]) ∧
      (StoreStep.rememberAll {} emptiedAndReopened).map (fun s => (s.answer (.entries 1 3)).1) =
        some (.entries [⟨2, 1, []⟩, ⟨2, 2, []⟩]) := by
  decide +kernel

end FileStore

end ToyRaft
