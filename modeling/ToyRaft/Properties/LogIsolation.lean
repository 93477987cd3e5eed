import ToyRaft.Properties.HostTrace
import ToyRaft.Properties.AckDurability
import ToyRaft.Properties.ReadyBatch

/-!
# The log and the buffers of its clients

`Propose` takes a `[]byte` and puts it in the in-memory log as it is, and `entriesFrom` copies the
entries of a message with their slices.  `Storage.Append` copies the bytes.  So a client that
writes into its buffer after `Propose` has returned changes the entry in `n.log`, and the messages
built from it, but not what is stored.

`Shared` is a node together with the memory of its clients: `logRefs` and `msgRefs` say which
entries of the log and of the outbox have their `Data` in a client's buffer, and `node` shows the
bytes that are there.  The node's own steps are those of `Node`.
-/

namespace ToyRaft

/-! ## Buffers -/

/-- The memory of the clients, by address. -/
abbrev Memory := ℕ → UInt8

/-- A `[]byte` of a client. -/
structure Buffer where
  ptr : ℕ
  len : ℕ

def Buffer.read (mem : Memory) (b : Buffer) : Data :=
  (List.range b.len).map fun i => mem (b.ptr + i)

/-- A client writes `bytes` at the address `addr`. -/
def Memory.write (mem : Memory) (addr : ℕ) (bytes : Data) : Memory := fun a =>
  if addr ≤ a ∧ a < addr + bytes.length then bytes.getD (a - addr) 0 else mem a

/-- Where the `Data` of the entries of a list is, by position: in a buffer of a client, or in
memory that nobody writes to. -/
abbrev Refs := ℕ → Option Buffer

/-- The entries as they are in memory. -/
def seen (mem : Memory) (refs : Refs) (es : List Entry) : List Entry :=
  es.mapIdx fun i e =>
    match refs i with
    | none => e
    | some b => { e with data := b.read mem }

def Message.seen (mem : Memory) (refs : Refs) (m : Message) : Message :=
  { m with entries := ToyRaft.seen mem refs m.entries }

/-- The bytes in memory are those of the entries. -/
def Shown (mem : Memory) (refs : Refs) (es : List Entry) : Prop :=
  ∀ i e b, es[i]? = some e → refs i = some b → e.data = b.read mem

lemma getElem?_seen (mem : Memory) (refs : Refs) (es : List Entry) (i : ℕ) :
    (seen mem refs es)[i]? = es[i]?.map fun e =>
      match refs i with
      | none => e
      | some b => { e with data := b.read mem } := List.getElem?_mapIdx

lemma shown_seen (mem : Memory) (refs : Refs) (es : List Entry) :
    Shown mem refs (seen mem refs es) := by
  intro i e b he hb
  rw [getElem?_seen, hb] at he
  obtain ⟨e₀, -, rfl⟩ := Option.map_eq_some_iff.mp he
  rfl

lemma mapIdx_eq_self_iff {α : Type} {f : ℕ → α → α} {l : List α} :
    l.mapIdx f = l ↔ ∀ i x, l[i]? = some x → f i x = x := by
  constructor
  · intro heq i x hx
    have hi : (l.mapIdx f)[i]? = l[i]? := by rw [heq]
    rw [List.getElem?_mapIdx, hx] at hi
    exact Option.some.inj hi
  · intro hall
    refine List.ext_getElem? fun i => ?_
    rw [List.getElem?_mapIdx]
    cases hx : l[i]? with
    | none => rfl
    | some x => rw [Option.map_some, hall i x hx]

lemma seen_eq_iff {mem : Memory} {refs : Refs} {es : List Entry} (h : Shown mem refs es)
    (mem' : Memory) :
    seen mem' refs es = es ↔
      ∀ i b, i < es.length → refs i = some b → b.read mem' = b.read mem := by
  rw [seen, mapIdx_eq_self_iff]
  constructor
  · intro hseen i b hi hb
    have he : es[i]? = some es[i] := List.getElem?_eq_getElem hi
    have hdata := congrArg Entry.data (hseen i _ he)
    rw [hb] at hdata
    exact hdata.trans (h i _ b he hb)
  · intro hread i e he
    cases hb : refs i with
    | none => rfl
    | some b =>
        dsimp only
        rw [hread i b (List.getElem?_eq_some_iff.mp he).1 hb, ← h i e b he hb]

lemma Shown.append {mem : Memory} {refs : Refs} {l es : List Entry} {refs' : Refs}
    (h : Shown mem refs l) (h' : Shown mem refs' es) :
    Shown mem (fun i => if i < l.length then refs i else refs' (i - l.length)) (l ++ es) := by
  intro i e b he hb
  dsimp only at hb
  split_ifs at hb with hi
  · rw [List.getElem?_append_left hi] at he
    exact h i e b he hb
  · rw [List.getElem?_append_right (by omega)] at he
    exact h' _ e b he hb

lemma Shown.take {mem : Memory} {refs : Refs} {l : List Entry} (h : Shown mem refs l) (k : ℕ) :
    Shown mem refs (l.take k) := by
  intro i e b he hb
  rw [List.getElem?_take] at he
  split_ifs at he
  exact h i e b he hb

lemma Shown.suffix {mem : Memory} {refs : Refs} {l es : List Entry} (h : Shown mem refs l)
    (hes : es <:+ l) : Shown mem (fun i => refs (l.length - es.length + i)) es := by
  intro i e b he hb
  rw [List.suffix_iff_eq_drop.mp hes, List.getElem?_drop] at he
  exact h _ e b he hb

/-- A reference beyond the end shows nothing. -/
lemma Shown.update {mem : Memory} {refs : Refs} {l : List Entry} (h : Shown mem refs l)
    (b : Option Buffer) : Shown mem (Function.update refs l.length b) l := by
  intro i e b' he hb'
  have hi := (List.getElem?_eq_some_iff.mp he).1
  rw [Function.update_of_ne (by omega)] at hb'
  exact h i e b' he hb'

lemma Shown.snoc {mem : Memory} {refs : Refs} {l : List Entry} (h : Shown mem refs l)
    {e : Entry} {b : Buffer} (he : e.data = b.read mem) :
    Shown mem (Function.update refs l.length (some b)) (l ++ [e]) := by
  intro i e' b' he' hb'
  rcases Nat.lt_or_ge i l.length with hi | hi
  · rw [List.getElem?_append_left hi] at he'
    exact h.update (some b) i e' b' he' hb'
  · rw [List.getElem?_append_right hi] at he'
    obtain ⟨hlt, rfl⟩ := List.getElem?_eq_some_iff.mp he'
    obtain rfl : i = l.length := by
      rw [List.length_singleton] at hlt
      omega
    rw [Function.update_self] at hb'
    obtain rfl := Option.some.inj hb'
    simpa using he

/-! ## A node and its clients -/

/-- The calls on a node, and what its clients do to their memory.  The entries of a message may
be in buffers too: within a process they are passed by reference. -/
inductive BufferEvent
  | step (m : Message) (refs : Refs) (env : Env)
  | propose (b : Buffer) (env : Env)
  | ready
  | overwrite (addr : ℕ) (bytes : Data)

structure Shared where
  node : Node
  mem : Memory
  logRefs : Refs := fun _ => none
  msgRefs : ℕ → Refs := fun _ _ => none

/-- The slices of the log after `Step`: the entries kept have theirs, those written have the ones
of the message. -/
def Node.writtenRefs (n : Node) (m : Message) (refs logRefs : Refs) : Refs :=
  match n.mirrorStart m with
  | none => logRefs
  | some start => fun i =>
      let kept := n.log.truncateSuffix start
      if i < kept.length then logRefs i
      else refs (m.entries.length - (Node.entriesFrom start m.entries).length + (i - kept.length))

/-- The slices of the outbox after a section that took `n` to `n'`: an `AppendEntries` has the
entries at the end of the log, with their slices. -/
def Node.queuedRefs (n n' : Node) (logRefs : Refs) (msgRefs : ℕ → Refs) : ℕ → Refs := fun k j =>
  if k < n.pendingMsgs.length then msgRefs k j
  else
    match n'.pendingMsgs[k]? with
    | some pm =>
        if pm.msg.type = .appendEntries then
          logRefs (n'.log.length - pm.msg.entries.length + j)
        else none
    | none => none

namespace Shared

/-- A node after a section. -/
def after (s : Shared) (n : Node) (logRefs : Refs) : Shared :=
  { s with node := n, logRefs := logRefs, msgRefs := s.node.queuedRefs n logRefs s.msgRefs }

/-- One event; `none` is a panic. -/
def step (s : Shared) : BufferEvent → Option Shared
  | .step m refs env =>
      let m := m.seen s.mem refs
      (s.node.step env m).map fun r => s.after r.1 (s.node.writtenRefs m refs s.logRefs)
  | .propose b env =>
      -- a proposal that is refused leaves nothing at this position
      some (s.after (s.node.propose env (b.read s.mem))
        (Function.update s.logRefs s.node.log.length (some b)))
  | .ready => some { s with node := s.node.ready.1.persist s.node.ready.2.2 }
  | .overwrite addr bytes =>
      let mem := s.mem.write addr bytes
      some { s with
        mem := mem
        node := { s.node with
          log := seen mem s.logRefs s.node.log
          pendingMsgs := s.node.pendingMsgs.mapIdx fun k pm =>
            { pm with msg := pm.msg.seen mem (s.msgRefs k) } } }

/-- One step of a run. -/
structure Moment where
  before : Shared
  event : BufferEvent
  after : Shared

/-- The steps of a run; a panic ends it. -/
def trace : Shared → List BufferEvent → List Moment
  | _, [] => []
  | s, e :: es =>
      match s.step e with
      | none => []
      | some s' => { before := s, event := e, after := s' } :: trace s' es

/-- The log has the bytes that are stored, so have the `AppendEntries` built by this step, and
those in the outbox are left as they are by the clients. -/
def Moment.Isolated (t : Moment) : Prop :=
  t.after.node.log = t.after.node.storage.entries ∧
  (∀ x ∈ t.before.node.queuedSince t.after.node, x.type = .appendEntries →
    ∀ e ∈ x.entries, t.after.node.storage.entries[e.index - 1]? = some e) ∧
  (∀ addr bytes, t.event = .overwrite addr bytes →
    t.after.node.pendingMsgs = t.before.node.pendingMsgs)

/-- The mirror of an `AppendEntries` fails. -/
def Moment.mirrorFails (t : Moment) : Bool :=
  match t.event with
  | .step m refs env =>
      let m := m.seen t.before.mem refs
      match t.before.node.mirrorStart m with
      | some start =>
          (t.before.node.mirrorLogWriteLocked env start (Node.entriesFrom start m.entries)).2.isSome
      | none => false
  | _ => false

/-- A write to memory does not change a byte that the log or the outbox refers to. -/
def Moment.Harmless (t : Moment) : Prop :=
  match t.event with
  | .overwrite addr bytes =>
      let mem := t.before.mem.write addr bytes
      (∀ i b, i < t.before.node.log.length → t.before.logRefs i = some b →
        b.read mem = b.read t.before.mem) ∧
      ∀ k pm, t.before.node.pendingMsgs[k]? = some pm →
        ∀ j b, j < pm.msg.entries.length → t.before.msgRefs k j = some b →
          b.read mem = b.read t.before.mem
  | _ => True

end Shared

/-! ## What a section does to the log and the outbox -/

namespace Node

lemma entriesFrom_suffix (start : ℕ) (es : List Entry) : entriesFrom start es <:+ es := by
  induction es with
  | nil => exact List.suffix_rfl
  | cons e es ih =>
      rw [entriesFrom]
      split_ifs
      · exact List.suffix_rfl
      · exact ih.trans (List.suffix_cons e es)

/-- What is written is in the log, whether the mirror fails or not. -/
lemma step_written {env : Env} {m : Message} {n n' : Node} {r : Option StepError} {start : ℕ}
    (hstarted : n.started = true) (h : n.step env m = some (n', r))
    (hm : n.mirrorStart m = some start) :
    n'.log = n.log.truncateSuffix start ++ entriesFrom start m.entries := by
  unfold mirrorStart at hm
  split_ifs at hm with hchecks
  obtain ⟨htype, hterm, hprev, hfc, hguard⟩ := hchecks
  obtain rfl := Option.some.inj hm
  obtain ⟨-, -, hlog, -, hcommit, -⟩ := n.maybeStepDownLocked_frame m.term
  have hcur : ¬ m.term < (n.maybeStepDownLocked m.term).currentTerm := by
    rcases n.maybeStepDownLocked_cases m.term with ⟨-, heq⟩ | ⟨-, hr⟩
    · rw [heq]
      omega
    · generalize n.maybeStepDownLocked m.term = n₀ at hr
      obtain ⟨_, _, _, _, _, _, rfl⟩ := hr
      exact Nat.lt_irrefl _
  rw [step, hstarted, stepLocked_eq, dispatch, htype] at h
  generalize n.maybeStepDownLocked m.term = n₀ at h hlog hcommit hcur
  obtain ⟨n₁, hn₁, heq⟩ := Option.map_eq_some_iff.mp h
  cases heq
  rw [handleAppendEntriesLocked, if_neg hcur] at hn₁
  extract_lets n₂ fc suffix n₃ at hn₁
  have hlog₂ : n₂.log = n.log := hlog
  have hfc' : fc = n.firstConflictIndex m.entries := firstConflictIndex_congr hlog₂ m.entries
  rw [if_neg (by simpa [n₂, hlog] using hprev), hfc', if_pos hfc,
    if_neg (by simpa [n₂, hlog, hcommit] using hguard)] at hn₁
  have hlog₃ : n₃.log = n.log.truncateSuffix (n.firstConflictIndex m.entries) ++
      entriesFrom (n.firstConflictIndex m.entries) m.entries := by
    rw [← hfc', ← hlog]
    rfl
  rcases mirrorLogWriteLocked_cases env n₃ (n.firstConflictIndex m.entries) suffix
    with ⟨s, s', -, -, heq⟩ | ⟨s, err, -, heq⟩
  · rw [heq] at hn₁
    obtain rfl := Option.some.inj hn₁
    obtain ⟨-, -, -, -, hack, -⟩ := acknowledge_frame { n₃ with storage := s' } m
    exact hack.trans hlog₃
  · rw [heq] at hn₁
    obtain rfl := Option.some.inj hn₁
    exact hlog₃

/-- A section that took `n` to `n'` has queued messages; the entries of an `AppendEntries` are
those at the end of the log. -/
def Builds (n n' : Node) : Prop :=
  ∃ new, n'.pendingMsgs = n.pendingMsgs ++ new ∧
    ∀ pm ∈ new, pm.msg.type = .appendEntries → pm.msg.entries <:+ n'.log

lemma Speaks.builds {m : Message} {n n' : Node} (h : Speaks m n n') : Builds n n' := by
  obtain ⟨new, heq, hnew⟩ := h
  refine ⟨new, heq, fun pm hpm htype => ?_⟩
  obtain ⟨p, -, c, -, -, hx⟩ := (hnew pm hpm).of_appendEntries htype
  rw [hx]
  show Log.entriesFrom n'.log _ <:+ n'.log
  unfold Log.entriesFrom
  split_ifs
  · exact List.nil_suffix
  · exact List.drop_suffix _ _

/-- What is built from a mirrored log has the bytes that are stored. -/
lemma Builds.stored {n n' : Node} (h : Builds n n') (hm : n'.Mirrored) {x : Message}
    (hx : x ∈ n.queuedSince n') (htype : x.type = .appendEntries) {e : Entry}
    (he : e ∈ x.entries) : n'.storage.entries[e.index - 1]? = some e := by
  obtain ⟨new, heq, hnew⟩ := h
  rw [queuedSince, heq, List.drop_left] at hx
  obtain ⟨pm, hpm, rfl⟩ := List.mem_map.mp hx
  obtain ⟨p, hp⟩ := List.mem_iff_getElem?.mp ((hnew pm hpm htype).subset he)
  have hidx := hm.contiguous p e hp
  rw [hm.entries, hidx, Nat.zero_add, Nat.add_sub_cancel]
  exact hp

lemma Mirrored.step {env : Env} {m : Message} {n n' : Node} {r : Option StepError}
    (hn : n.Mirrored) (hstarted : n.started = true) (h : n.step env m = some (n', r))
    (hok : ∀ start, n.mirrorStart m = some start →
      (n.mirrorLogWriteLocked env start (entriesFrom start m.entries)).2 = none) :
    n'.Mirrored ∧ (n.mirrorStart m = none → n'.log = n.log) := by
  obtain ⟨-, -, hlog, hst, -⟩ := n.maybeStepDownLocked_frame m.term
  have hn₀ : (n.maybeStepDownLocked m.term).Mirrored :=
    ⟨by rw [hst, hlog, hn.entries], by rw [hlog]; exact hn.contiguous⟩
  cases logEffect_of_handled (handled_of_step hstarted h) with
  | same hlog' hst' =>
      exact ⟨⟨by rw [hst', hlog', hn₀.entries], by rw [hlog']; exact hn₀.contiguous⟩,
        fun _ => hlog'.trans hlog⟩
  | write hp hfc hguard htrunc happ hlog' =>
      refine ⟨hn₀.written hfc htrunc happ hlog', fun hnone => ?_⟩
      rw [mirrorStart_of_passes hp hfc hguard] at hnone
      cases hnone
  | mirrorFailed hfail hp hfc hguard =>
      have hnone := hok _ (mirrorStart_of_passes hp hfc hguard)
      rw [mirrorLogWriteLocked_snd_congr env hst] at hfail
      exact absurd hnone hfail

lemma Mirrored.propose {n : Node} (hn : n.Mirrored) (env : Env) (data : Data) :
    (n.propose env data).Mirrored ∧
      ((n.propose env data).log = n.log ∨ (n.propose env data).log = n.log ++ [n.newEntry data]) ∧
      Builds n (n.propose env data) := by
  unfold Node.propose
  by_cases hrole : n.role = .leader
  · rcases n.proposeLocked_cases env data hrole with ⟨s, -, happ, heq⟩ | ⟨err, -, heq⟩
    · rw [heq]
      dsimp only
      obtain ⟨-, -, -, -, hlog, hst, -⟩ := (n.proposed data s).broadcast_frame
      have hn' := hn.proposed happ
      refine ⟨⟨by rw [hst, hlog, hn'.entries], by rw [hlog]; exact hn'.contiguous⟩,
        .inr hlog, ?_⟩
      have hspeaks : Speaks { type := .tick } n (n.proposed data s).broadcastAppendEntriesLocked :=
        speaks_broadcast rfl hrole
      exact hspeaks.builds
    · rw [heq]
      dsimp only
      rw [hn.undo data]
      exact ⟨⟨hn.entries, hn.contiguous⟩, .inl rfl, [], (List.append_nil _).symm, by simp⟩
  · rw [proposeLocked, if_pos hrole]
    exact ⟨hn, .inl rfl, [], (List.append_nil _).symm, by simp⟩

end Node

namespace Shared

/-- The node is running, its storage holds its log, and what it shows is what is in memory. -/
structure WF (s : Shared) : Prop where
  started : s.node.started = true
  mirrored : s.node.Mirrored
  log : Shown s.mem s.logRefs s.node.log
  msgs : ∀ k pm, s.node.pendingMsgs[k]? = some pm → Shown s.mem (s.msgRefs k) pm.msg.entries

lemma WF.after {s : Shared} (h : s.WF) {n : Node} {logRefs : Refs} (hstarted : n.started = true)
    (hmirrored : n.Mirrored) (hlog : Shown s.mem logRefs n.log) (hbuilds : s.node.Builds n) :
    (s.after n logRefs).WF := by
  refine ⟨hstarted, hmirrored, hlog, fun k pm hpm => ?_⟩
  obtain ⟨new, heq, hnew⟩ := hbuilds
  have hpm' : (s.node.pendingMsgs ++ new)[k]? = some pm := by
    rw [← heq]
    exact hpm
  show Shown s.mem (s.node.queuedRefs n logRefs s.msgRefs k) pm.msg.entries
  intro j e b he hb
  rw [Node.queuedRefs] at hb
  split_ifs at hb with hk
  · rw [List.getElem?_append_left hk] at hpm'
    exact h.msgs k pm hpm' j e b he hb
  · rw [show n.pendingMsgs[k]? = some pm from hpm] at hb
    dsimp only at hb
    split_ifs at hb with htype
    rw [List.getElem?_append_right (by omega)] at hpm'
    exact hlog.suffix (hnew pm (List.mem_of_getElem? hpm') htype) j e b he hb

/-- The log after `Step` shows what is in memory. -/
lemma WF.shown_written {s : Shared} (h : s.WF) {m : Message} {refs : Refs} {env : Env} {n : Node}
    {r : Option Node.StepError} (hm : Shown s.mem refs m.entries)
    (hstep : s.node.step env m = some (n, r))
    (hsame : s.node.mirrorStart m = none → n.log = s.node.log) :
    Shown s.mem (s.node.writtenRefs m refs s.logRefs) n.log := by
  unfold Node.writtenRefs
  cases hstart : s.node.mirrorStart m with
  | none =>
      rw [hsame hstart]
      exact h.log
  | some start =>
      rw [Node.step_written h.started hstep hstart]
      have hkept : Shown s.mem s.logRefs (s.node.log.truncateSuffix start) := by
        unfold Log.truncateSuffix
        split_ifs
        · intro i e b he
          cases he
        · exact h.log
        · exact h.log.take _
      exact hkept.append (hm.suffix (Node.entriesFrom_suffix start m.entries))

/-! ## Isolation -/

/-- A section of the node keeps the log and the storage equal, and builds its messages from
them. -/
lemma WF.isolated_after {s : Shared} (h : s.WF) {e : BufferEvent} {n : Node} {logRefs : Refs}
    (he : ∀ addr bytes, e ≠ .overwrite addr bytes) (hstarted : n.started = true)
    (hmirrored : n.Mirrored) (hlog : Shown s.mem logRefs n.log) (hbuilds : s.node.Builds n) :
    Moment.Isolated { before := s, event := e, after := s.after n logRefs } ∧
      (s.after n logRefs).WF := by
  refine ⟨⟨hmirrored.entries.symm, fun x hx htype e he => ?_, fun addr bytes h => ?_⟩,
    h.after hstarted hmirrored hlog hbuilds⟩
  · exact hbuilds.stored hmirrored hx htype he
  · exact absurd h (he addr bytes)

/-- A write to memory is not seen exactly if it is harmless. -/
lemma WF.overwrite {s s' : Shared} (h : s.WF) {addr : ℕ} {bytes : Data}
    (hstep : s.step (.overwrite addr bytes) = some s') :
    let t : Moment := { before := s, event := .overwrite addr bytes, after := s' }
    (t.Isolated ↔ t.Harmless) ∧ (t.Isolated → s'.WF) := by
  obtain rfl := Option.some.inj hstep
  intro t
  have hlog := seen_eq_iff h.log (s.mem.write addr bytes)
  have hmsgs : t.after.node.pendingMsgs = s.node.pendingMsgs ↔
      ∀ k pm, s.node.pendingMsgs[k]? = some pm →
        ∀ j b, j < pm.msg.entries.length → s.msgRefs k j = some b →
          b.read (s.mem.write addr bytes) = b.read s.mem := by
    show (s.node.pendingMsgs.mapIdx _ = s.node.pendingMsgs ↔ _)
    rw [mapIdx_eq_self_iff]
    refine forall_congr' fun k => forall_congr' fun pm => imp_congr_right fun hpm => ?_
    rw [← seen_eq_iff (h.msgs k pm hpm) (s.mem.write addr bytes)]
    constructor
    · intro heq
      exact congrArg (·.msg.entries) heq
    · intro heq
      rw [Message.seen, heq]
  have hnone : s.node.queuedSince t.after.node = [] := by
    show ((s.node.pendingMsgs.mapIdx _).drop s.node.pendingMsgs.length).map _ = []
    rw [List.drop_eq_nil_of_le (by rw [List.length_mapIdx]), List.map_nil]
  have hisolated : t.Isolated ↔ t.after.node.log = s.node.log ∧
      t.after.node.pendingMsgs = s.node.pendingMsgs := by
    show (_ = s.node.storage.entries ∧ _ ∧ _ ↔ _)
    rw [h.mirrored.entries]
    refine and_congr_right fun _ => ⟨fun hrest => hrest.2 addr bytes rfl, fun heq => ⟨?_, ?_⟩⟩
    · intro x hx
      have hx' : x ∈ s.node.queuedSince t.after.node := hx
      rw [hnone] at hx'
      cases hx'
    · exact fun _ _ _ => heq
  refine ⟨hisolated.trans (and_congr hlog hmsgs), fun hiso => ?_⟩
  obtain ⟨hlog', -⟩ := hisolated.mp hiso
  refine ⟨h.started, ⟨?_, ?_⟩, shown_seen _ _ _, fun k pm hpm => ?_⟩
  · exact h.mirrored.entries.trans hlog'.symm
  · show Log.Contiguous t.after.node.log
    rw [hlog']
    exact h.mirrored.contiguous
  · have hpm' : (s.node.pendingMsgs.mapIdx _)[k]? = some pm := hpm
    rw [List.getElem?_mapIdx] at hpm'
    obtain ⟨pm₀, -, rfl⟩ := Option.map_eq_some_iff.mp hpm'
    exact shown_seen _ _ _

lemma WF.stepped {s s' : Shared} (h : s.WF) {m : Message} {refs : Refs} {env : Env}
    (hstep : s.step (.step m refs env) = some s')
    (hok : Moment.mirrorFails { before := s, event := .step m refs env, after := s' } = false) :
    Moment.Isolated { before := s, event := .step m refs env, after := s' } ∧ s'.WF := by
  obtain ⟨⟨n, r⟩, hr, rfl⟩ := Option.map_eq_some_iff.mp hstep
  have hmirror : ∀ start, s.node.mirrorStart (m.seen s.mem refs) = some start →
      (s.node.mirrorLogWriteLocked env start
        (Node.entriesFrom start (m.seen s.mem refs).entries)).2 = none := by
    intro start hstart
    simpa [Moment.mirrorFails, hstart] using hok
  obtain ⟨hmirrored, hsame⟩ := h.mirrored.step h.started hr hmirror
  have hhandled := Node.handled_of_step h.started hr
  have hstarted : n.started = true :=
    (Node.follows_of_step (fun _ _ => rfl) hhandled).started.trans h.started
  have hbuilds : s.node.Builds n := by
    have hb := (Node.speaks_of_handled hhandled).builds
    rwa [Node.Builds, Node.maybeStepDownLocked_pending] at hb
  refine h.isolated_after (by simp) hstarted hmirrored ?_ hbuilds
  exact h.shown_written (shown_seen s.mem refs m.entries) hr hsame

lemma WF.proposed {s s' : Shared} (h : s.WF) {b : Buffer} {env : Env}
    (hstep : s.step (.propose b env) = some s') :
    Moment.Isolated { before := s, event := .propose b env, after := s' } ∧ s'.WF := by
  obtain rfl := Option.some.inj hstep
  obtain ⟨hmirrored, hlog, hbuilds⟩ := h.mirrored.propose env (b.read s.mem)
  have hstarted := (Node.follows_of_propose "" env s.node (b.read s.mem)).started
  refine h.isolated_after (by simp) (hstarted.trans h.started) hmirrored ?_ hbuilds
  rcases hlog with hlog | hlog
  · rw [hlog]
    exact h.log.update _
  · rw [hlog]
    exact h.log.snoc rfl

lemma WF.readied {s s' : Shared} (h : s.WF) (hstep : s.step .ready = some s') :
    Moment.Isolated { before := s, event := .ready, after := s' } ∧ s'.WF := by
  obtain rfl := Option.some.inj hstep
  have hframe : ∀ hs : Option HardState, (s.node.ready.1.persist hs).log = s.node.log ∧
      (s.node.ready.1.persist hs).storage.entries = s.node.storage.entries ∧
      (s.node.ready.1.persist hs).pendingMsgs = [] ∧
      (s.node.ready.1.persist hs).started = s.node.started := by
    intro hs
    cases hs <;> exact ⟨rfl, rfl, rfl, rfl⟩
  obtain ⟨hlog, hst, hmsgs, hstarted⟩ := hframe s.node.ready.2.2
  have hmirrored : (s.node.ready.1.persist s.node.ready.2.2).Mirrored :=
    ⟨by rw [hst, hlog, h.mirrored.entries], by rw [hlog]; exact h.mirrored.contiguous⟩
  refine ⟨⟨hmirrored.entries.symm, fun x hx => ?_, fun _ _ h => by cases h⟩,
    hstarted.trans h.started, hmirrored, ?_, fun k pm hpm => ?_⟩
  · rw [Node.queuedSince, hmsgs, List.drop_nil] at hx
    cases hx
  · rw [hlog]
    exact h.log
  · rw [hmsgs] at hpm
    cases hpm

lemma WF.moment {t : Moment} (h : t.before.WF) (hstep : t.before.step t.event = some t.after)
    (hok : t.mirrorFails = false) : (t.Isolated ↔ t.Harmless) ∧ (t.Isolated → t.after.WF) := by
  obtain ⟨s, e, s'⟩ := t
  dsimp only at h hstep
  -- Everything but a write to memory keeps the log and the storage equal.
  have hkeeps : Moment.Isolated { before := s, event := e, after := s' } ∧ s'.WF →
      Moment.Harmless { before := s, event := e, after := s' } →
      (Moment.Isolated { before := s, event := e, after := s' } ↔
        Moment.Harmless { before := s, event := e, after := s' }) ∧
      (Moment.Isolated { before := s, event := e, after := s' } → s'.WF) :=
    fun hboth hharmless => ⟨iff_of_true hboth.1 hharmless, fun _ => hboth.2⟩
  cases e with
  | step m refs env => exact hkeeps (h.stepped hstep hok) trivial
  | propose b env => exact hkeeps (h.proposed hstep) trivial
  | ready => exact hkeeps (h.readied hstep) trivial
  | overwrite addr bytes => exact h.overwrite hstep

lemma WF.isolated_iff {s : Shared} (h : s.WF) (es : List BufferEvent)
    (hok : ∀ t ∈ trace s es, t.mirrorFails = false) :
    (∀ t ∈ trace s es, t.Isolated) ↔ ∀ t ∈ trace s es, t.Harmless := by
  induction es generalizing s with
  | nil => exact iff_of_true (by simp [trace]) (by simp [trace])
  | cons e es ih =>
      rw [trace] at hok ⊢
      cases hstep : s.step e with
      | none => exact iff_of_true (by simp) (by simp)
      | some s' =>
          rw [hstep] at hok
          dsimp only at hok ⊢
          obtain ⟨hhead, hrest⟩ := List.forall_mem_cons.mp hok
          obtain ⟨hiff, hnext⟩ :=
            WF.moment (t := { before := s, event := e, after := s' }) h hstep hhead
          rw [List.forall_mem_cons, List.forall_mem_cons, ← hiff]
          exact and_congr_right fun hiso => ih (hnext hiso) hrest

/-- Along every run of a node, started on any storage without gaps, in which no mirror of an
`AppendEntries` fails: the log and the messages built from it have the bytes that are stored
exactly if no client changes a byte that the log or the outbox refers to. -/
theorem log_isolated_iff {cfg : Config} {st : Storage} {draw : ℕ} {n₀ : Node}
    (hst : Log.Contiguous st.entries) (hnew : Node.newNode cfg st draw = .ok n₀) (mem : Memory)
    (es : List BufferEvent)
    (hok : ∀ t ∈ trace { node := n₀, mem := mem } es, t.mirrorFails = false) :
    (∀ t ∈ trace { node := n₀, mem := mem } es, t.Isolated) ↔
      ∀ t ∈ trace { node := n₀, mem := mem } es, t.Harmless := by
  have hn := Node.started_of_newNode hnew
  refine WF.isolated_iff ⟨hn.started, ⟨?_, ?_⟩, ?_, ?_⟩ es hok
  · rw [hn.storage, hn.log]
  · rw [hn.log]
    exact hst
  · intro i e b he hb
    cases hb
  · intro k pm hpm j e b he hb
    cases hb

/-- A node is elected, and a client proposes a byte and then overwrites it. -/
def reusedBuffer : List BufferEvent :=
  [.step { type := .tick } (fun _ => none) {}, .step { type := .tick } (fun _ => none) {},
    .step { type := .tick } (fun _ => none) {},
    .step (Cluster.voteGrant 1 "b" "a") (fun _ => none) {}, .propose { ptr := 0, len := 1 } {},
    .overwrite 0 [9], .step { type := .tick } (fun _ => none) {}]

theorem log_isolated_iff_reused :
    let t := trace { node := Session.nodeA, mem := fun _ => 7 } reusedBuffer
    t.length = 7 ∧ ((∀ m ∈ t, m.Isolated) ↔ ∀ m ∈ t, m.Harmless) := by
  have hnew : Node.newNode (Cluster.trio.cfg "a") {} 0 = .ok Session.nodeA := rfl
  refine ⟨by decide +kernel, ?_⟩
  exact log_isolated_iff Log.contiguous_nil hnew _ _ (by decide +kernel)

/-- The log has the new byte and sends it; the storage has the old one. -/
theorem overwritten_after_propose :
    ((trace { node := Session.nodeA, mem := fun _ => 7 } reusedBuffer).getLast?.map fun t =>
      (t.after.node.log, t.after.node.storage.entries,
        (t.before.node.queuedSince t.after.node).map (·.entries))) =
      some ([⟨1, 1, [9]⟩], [⟨1, 1, [7]⟩], [[⟨1, 1, [9]⟩], [⟨1, 1, [9]⟩]]) := by
  decide +kernel

end Shared

end ToyRaft
