import ToyRaft.FileStore.Calls
import ToyRaft.FileStore.Survive

/-!
# Reading a log after the store is opened again

What `Survive` says of a store that is opened again asks that the disk is durable, since the
process may die in the middle.  Without that, a store that is closed and opened again can still be
read, whatever calls of the file system have failed before (`Layout.wp_reopen`).
-/

namespace ToyRaft

/-! ## Steps -/

/-- `Close`, and then `openWith`. -/
def FileStore.reopen (max : ℕ) : FileM Unit := do
  FileStore.close
  FileStore.openWith max

/-- A step of a store that is closed and opened again in between. -/
inductive StoreStep
  | append (entries : List Entry)
  | truncateSuffix (start : ℕ)
  | reopen
  deriving DecidableEq, Repr

/-- What a call leaves if it returns no error. -/
def LogReply.accepted {α : Type} : LogReply × α → Option α
  | (.done, a) => some a
  | _ => none

namespace StoreStep

def batch : StoreStep → List Entry
  | .append es => es
  | _ => []

/-- The step on a file store, if it returns no error. -/
def exec (max : ℕ) (w : Site FileStore) : StoreStep → Option (Site FileStore)
  | .append es => LogReply.accepted (FileStore.answer w (.append es))
  | .truncateSuffix start => LogReply.accepted (FileStore.answer w (.truncateSuffix start))
  | .reopen =>
      match (FileStore.reopen max).run w with
      | (.ok _, w') => some w'
      | _ => none

/-- The step on a memory store, if it returns no error. -/
def remember (s : Storage) : StoreStep → Option Storage
  | .append es => LogReply.accepted (s.answer (.append es))
  | .truncateSuffix start => LogReply.accepted (s.answer (.truncateSuffix start))
  | .reopen => some s

/-- Steps on a file store that all return no error. -/
def execAll (max : ℕ) (w : Site FileStore) (ops : List StoreStep) : Option (Site FileStore) :=
  ops.foldlM (fun w op => op.exec max w) w

/-- Steps on a memory store that all return no error. -/
def rememberAll (s : Storage) (ops : List StoreStep) : Option Storage :=
  ops.foldlM (fun s op => op.remember s) s

end StoreStep

namespace FileStore

/-- A new file store on an empty directory. -/
def opened (max : ℕ) : Site FileStore := ((openWith max).run { disk := .empty, ram := {} }).2

lemma LogReply.accepted_eq_some {α : Type} {r : LogReply × α} {a : α} :
    LogReply.accepted r = some a ↔ r = (.done, a) := by
  obtain ⟨r, b⟩ := r
  cases r <;> simp [LogReply.accepted]

/-- A store that is opened again only to be read, with indexes of at most sixteen digits. -/
def lastSession (max : ℕ) (hmax : 0 < max) : Setting where
  max
  pos := hmax
  number n := n < 10 ^ 16
  reopens := False

section

variable {σ : Setting} {w : Site FileStore} {full : List Seg} {act : Option Seg}

/-- The log of a row of segments is read again. -/
lemma OnDisk.wp_openWith (hsmall : ∀ n, σ.number n → n < 10 ^ 16) (h : OnDisk σ w.disk full act)
    (max : ℕ) :
    (openWith max).wp (· = .ok) (fun _ w' => Readable w' (logOf (full ++ act.toList)))
      (fun _ _ => False) (fun _ => True) w := by
  obtain ⟨segs, ho⟩ := h.legible.exists_inOrder
  have hfound := h.legible.found hsmall ho
  have hnone : ∀ s, tornTail act [] s = [] := fun s => by
    rw [tornTail, ite_self]
  have hwhole : ¬ ∃ s ∈ segs, tornTail act [] s ≠ [] := by
    rintro ⟨s, -, hs⟩
    exact hs (hnone s)
  refine FileStore.wp_openWith faultless_quiet hfound ⟨fun s _ hs => (hs (hnone s)).elim,
    fun htorn => (hwhole htorn).elim⟩ (fun d hd hall => ?_) fun hdie => by cases hdie
  refine ⟨?_, h.row.contiguous⟩
  rw [← h.legible.logOf_eq hsmall ho]
  show List.Forall₂ (Locates d) (load _ segs).idx (logOf segs)
  rw [load_idx, List.nil_append]
  exact locates_idxOf hfound.fits fun s hs => ⟨[], by rw [List.append_nil]; exact hall s hs⟩

/-- A store is closed, opened again, and read. -/
lemma Layout.wp_reopen (hsmall : ∀ n, σ.number n → n < 10 ^ 16) (h : Layout σ w full act)
    (max : ℕ) :
    (reopen max).wp (· = .ok) (fun _ w' => Readable w' (logOf (full ++ act.toList)))
      (fun _ _ => False) (fun _ => True) w :=
  Prog.wp_bind (h.wp_close faultless_quiet (fun _ h₁ _ => h₁.wp_openWith hsmall max)
    fun _ _ _ _ => trivial)

lemma Session.admits_lastSession {max : ℕ} {hmax : 0 < max}
    (h : Session (lastSession max hmax) w full act) {c : LogCall}
    (hc : ∀ e ∈ c.batch, Fits e ∧ e.index < 10 ^ 16) :
    Admits (lastSession max hmax) full act c where
  fits e he := (hc e he).1
  number e he := (hc e he).2
  rolls a ha := by
    rcases h.disk.led a ha with hled | hreopens
    · exact .inr hled
    · exact hreopens.1.elim

/-- A call that is accepted keeps the file store and the memory store together. -/
lemma Holds.accept {s : Storage} (h : Holds σ w s.entries) {c : LogCall}
    (hadmits : ∀ full act, Session σ w full act → Admits σ full act c) {w' : Site FileStore}
    (hw : LogReply.accepted (answer w c) = some w') :
    ∃ s', LogReply.accepted (s.answer c) = some s' ∧ Holds σ w' s'.entries := by
  obtain ⟨full, act, hs, hlog⟩ := h
  have hanswer := LogReply.accepted_eq_some.mp hw
  obtain ⟨hreply, hnext⟩ := hs.answer (hadmits full act hs) hlog.symm
  rw [hanswer] at hreply hnext
  exact ⟨(s.answer c).2, LogReply.accepted_eq_some.mpr (Prod.ext hreply.symm rfl), hnext⟩

/-- A run keeps the file store and the memory store together if every step of it does.  `Fine w ops`
is what the steps `ops` on the store `w` are known to satisfy. -/
lemma Holds.run_of_step {max : ℕ} (Fine : Site FileStore → List StoreStep → Prop)
    (hstep : ∀ {w s op ops w'}, Fine w (op :: ops) → Holds σ w s.entries →
      op.exec max w = some w' →
        Fine w' ops ∧ ∃ s', op.remember s = some s' ∧ Holds σ w' s'.entries)
    {s : Storage} (h : Holds σ w s.entries) {ops : List StoreStep} (hfine : Fine w ops)
    {w' : Site FileStore} (hw : StoreStep.execAll max w ops = some w') :
    ∃ s', StoreStep.rememberAll s ops = some s' ∧ Holds σ w' s'.entries := by
  induction ops generalizing w s with
  | nil =>
      cases hw
      exact ⟨s, rfl, h⟩
  | cons op ops ih =>
      rw [StoreStep.execAll, List.foldlM_cons] at hw
      rw [StoreStep.rememberAll, List.foldlM_cons]
      obtain ⟨w₁, hw₁, hrest⟩ := Option.bind_eq_some_iff.mp hw
      obtain ⟨hfine', s₁, hs₁, h₁⟩ := hstep hfine h hw₁
      rw [hs₁]
      exact ih h₁ hfine' hrest

lemma Holds.step_lastSession {max : ℕ} {hmax : 0 < max} {s : Storage}
    (h : Holds (lastSession max hmax) w s.entries) {op : StoreStep} (hop : op ≠ .reopen)
    (hsize : ∀ e ∈ op.batch, Fits e ∧ e.index < 10 ^ 16) {w' : Site FileStore}
    (hw : op.exec max w = some w') :
    ∃ s', op.remember s = some s' ∧ Holds (lastSession max hmax) w' s'.entries := by
  cases op with
  | append es => exact h.accept (c := .append es) (fun _ _ hs => hs.admits_lastSession hsize) hw
  | truncateSuffix start =>
      exact h.accept (c := .truncateSuffix start) (fun _ _ hs => hs.admits_lastSession hsize) hw
  | reopen => exact (hop rfl).elim

/-- A run without reopening keeps the file store and the memory store together. -/
lemma Holds.run_lastSession {max : ℕ} {hmax : 0 < max} {s : Storage}
    (h : Holds (lastSession max hmax) w s.entries) {ops : List StoreStep}
    (hone : ∀ op ∈ ops, op ≠ .reopen)
    (hsize : ∀ op ∈ ops, ∀ e ∈ op.batch, Fits e ∧ e.index < 10 ^ 16) {w' : Site FileStore}
    (hw : StoreStep.execAll max w ops = some w') :
    ∃ s', StoreStep.rememberAll s ops = some s' ∧ Holds (lastSession max hmax) w' s'.entries := by
  refine h.run_of_step (fun _ ops => ∀ op ∈ ops, op ≠ .reopen ∧
    ∀ e ∈ op.batch, Fits e ∧ e.index < 10 ^ 16) ?_ (fun op hop => ⟨hone op hop, hsize op hop⟩) hw
  intro w s op ops w' hfine h hw
  obtain ⟨hop, hbatch⟩ := hfine op List.mem_cons_self
  exact ⟨fun x hx => hfine x (List.mem_cons_of_mem _ hx), h.step_lastSession hop hbatch hw⟩

/-- A new file store holds what a new memory store does. -/
lemma holds_opened (σ : Setting) : Holds σ (opened σ.max) ({} : Storage).entries :=
  ⟨[], none, session_empty fun _ _ => rfl, rfl⟩

/-- After the same calls, without reopening, the file store holds what the memory store does. -/
lemma holds_of_run {max : ℕ} (hmax : 0 < max) {ops : List StoreStep}
    (hone : ∀ op ∈ ops, op ≠ .reopen)
    (hsize : ∀ op ∈ ops, ∀ e ∈ op.batch, Fits e ∧ e.index < 10 ^ 16)
    (hrun : StoreStep.execAll max (opened max) ops = some w) {s : Storage}
    (hmem : StoreStep.rememberAll {} ops = some s) : Holds (lastSession max hmax) w s.entries := by
  obtain ⟨s', hmem', h⟩ := (holds_opened (lastSession max hmax)).run_lastSession hone hsize hrun
  rw [hmem] at hmem'
  cases hmem'
  exact h

end

end FileStore

end ToyRaft
