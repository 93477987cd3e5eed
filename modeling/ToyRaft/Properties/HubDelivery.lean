import Mathlib.Data.List.Dedup
import Mathlib.Data.List.TakeWhile
import ToyRaft.Transport.Hub

/-!
# Every message of the hub is delivered once

What a send puts in the queue stays there until the first drain that finds it due, and that drain
takes it out and puts it on the channel of its receiver, if the receiver is connected
(`Waiting`).  A duplicate is a second message, due a nanosecond after the first, so a drain at
exactly the time of the first delivers only one of the two.

`orderLocked` rebuilds the batch in place.  For each receiver it is the bucket of that receiver cut
into windows, each one permuted (`Windowed`); that the windows are put over the array of the batch
does not matter, since the buckets are copies.
-/

namespace ToyRaft

namespace Inproc

variable {ρ : Type} {g : Rand ρ}

/-! ## The windows of a bucket -/

lemma Slice.toList_append {α : Type} (s : Slice α) (x : α) :
    (s.append x).toList = s.toList ++ [x] := by
  unfold Slice.append Slice.toList
  split_ifs with hlen
  · dsimp only
    rw [List.take_add_one, List.take_set_of_le (Nat.le_refl _), List.getElem?_set_self hlen]
    rfl
  · dsimp only
    rw [List.take_of_length_le]
    rw [List.length_append, List.length_take, List.length_singleton]
    omega

lemma Slice.toList_foldl_append {α : Type} (xs : List α) (s : Slice α) :
    (xs.foldl Slice.append s).toList = s.toList ++ xs := by
  induction xs generalizing s with
  | nil => rw [List.foldl_nil, List.append_nil]
  | cons x xs ih => rw [List.foldl_cons, ih, Slice.toList_append, List.append_assoc]; rfl

/-- The second list is the first one, permuted within windows of `qd` places. -/
inductive Windowed {α : Type} (qd : ℕ) : List α → List α → Prop
  | nil : Windowed qd [] []
  | window {xs chunk ys : List α} (hchunk : chunk.Perm (xs.take qd))
      (hrest : Windowed qd (xs.drop qd) ys) : Windowed qd xs (chunk ++ ys)

lemma Windowed.perm {α : Type} {qd : ℕ} {xs ys : List α} (h : Windowed qd xs ys) :
    ys.Perm xs := by
  induction h with
  | nil => exact .refl []
  | @window xs chunk ys hchunk _ ih =>
      exact (hchunk.append ih).trans (.of_eq (List.take_append_drop qd xs))

lemma Windowed.block {α : Type} {qd : ℕ} {xs ys : List α} (h : Windowed qd xs ys) (b : ℕ) :
    ((ys.drop (b * qd)).take qd).Perm ((xs.drop (b * qd)).take qd) := by
  induction h generalizing b with
  | nil => simp
  | @window xs chunk ys hchunk hrest ih =>
      have hlen : chunk.length = min qd xs.length := by rw [hchunk.length_eq, List.length_take]
      rcases Nat.lt_or_ge xs.length qd with hshort | hfull
      · -- A short bucket is its only window.
        have hys : ys = [] := by
          have hperm := hrest.perm
          rw [List.drop_eq_nil_of_le hshort.le] at hperm
          exact hperm.eq_nil
        rw [hys, List.append_nil]
        cases b with
        | zero =>
            rw [Nat.zero_mul, List.drop_zero, List.drop_zero, List.take_of_length_le (by omega)]
            exact hchunk
        | succ b =>
            have hwide : qd ≤ (b + 1) * qd := Nat.le_mul_of_pos_left qd (Nat.succ_pos b)
            rw [List.drop_eq_nil_of_le (by omega), List.drop_eq_nil_of_le (by omega)]
      · rw [Nat.min_eq_left hfull] at hlen
        cases b with
        | zero =>
            rw [Nat.zero_mul, List.drop_zero, List.drop_zero, List.take_left' hlen]
            exact hchunk
        | succ b =>
            have hdrop : (chunk ++ ys).drop ((b + 1) * qd) = ys.drop (b * qd) := by
              rw [Nat.succ_mul, Nat.add_comm, ← List.drop_drop, List.drop_left' hlen]
            rw [hdrop, Nat.succ_mul, Nat.add_comm, ← List.drop_drop]
            exact ih b

/-- A bucket is emitted in windows, if there can be enough of them. -/
lemma emit_windowed {qd : ℕ} (hqd : 0 < qd) (n : ℕ) (bucket : List Pending)
    (hn : bucket.length ≤ n) (out : Slice Pending) (r : ρ) :
    ∃ ys, Windowed qd bucket ys ∧ (emit g qd n bucket (out, r)).1.toList = out.toList ++ ys := by
  induction n generalizing bucket out r with
  | zero =>
      obtain rfl : bucket = [] := List.length_eq_zero_iff.mp (Nat.le_zero.mp hn)
      exact ⟨[], .nil, by rw [List.append_nil]; rfl⟩
  | succ n ih =>
      by_cases hnil : bucket = []
      · refine ⟨[], by rw [hnil]; exact .nil, ?_⟩
        rw [emit, if_pos hnil, List.append_nil]
      · have hpos := List.length_pos_of_ne_nil hnil
        set shuffled := if 1 < (bucket.take qd).length then g.shuffle (bucket.take qd) r
          else (bucket.take qd, r) with hshuffled
        have hperm : shuffled.1.Perm (bucket.take qd) := by
          rw [hshuffled]
          split_ifs
          · exact g.shuffle_perm _ r
          · exact .refl _
        obtain ⟨ys, hys, hout⟩ := ih (bucket.drop qd) (by rw [List.length_drop]; omega)
          (shuffled.1.foldl Slice.append out) shuffled.2
        refine ⟨shuffled.1 ++ ys, .window hperm hys, ?_⟩
        rw [emit, if_neg hnil]
        dsimp only
        rw [← hshuffled, hout, Slice.toList_foldl_append, List.append_assoc]

/-! ## The batch by receiver -/

/-- The messages to a node. -/
def toReceiver (id : NodeID) (ps : List Pending) : List Pending :=
  ps.filter fun p => p.toNode = id

lemma toReceiver_append (id : NodeID) (ps qs : List Pending) :
    toReceiver id (ps ++ qs) = toReceiver id ps ++ toReceiver id qs := List.filter_append ..

lemma byTo_eq (due : List Pending) (id : NodeID) : byTo due id = toReceiver id due := by
  induction due using List.reverseRecOn with
  | nil => rfl
  | append_singleton due p ih =>
      rw [toReceiver_append, ← ih, byTo, List.foldl_append, List.foldl_cons, List.foldl_nil,
        Function.update_apply]
      by_cases hid : id = p.toNode
      · rw [if_pos hid, hid]
        simp [toReceiver, byTo]
      · rw [if_neg hid]
        simp [toReceiver, byTo, Ne.symm hid]

/-- Buckets with the messages to their own node. -/
def Sorted (buckets : NodeID → List Pending) : Prop := ∀ id, ∀ p ∈ buckets id, p.toNode = id

/-- The buckets of some nodes are emitted: for each receiver its bucket, in windows, if it is one
of them, and nothing otherwise. -/
lemma emitNodes_spec {qd : ℕ} (hqd : 0 < qd) (ids : List NodeID)
    {buckets : NodeID → List Pending} (hbuckets : Sorted buckets) (out : Slice Pending) (r : ρ) :
    let st := emitNodes g qd ids (buckets, out, r)
    Sorted st.1 ∧ ∀ id, ∃ ys,
      toReceiver id st.2.1.toList = toReceiver id out.toList ++ ys ∧
      ((Windowed qd (buckets id) ys ∧ st.1 id = []) ∨
        (ys = [] ∧ st.1 id = buckets id ∧ id ∉ ids)) := by
  induction ids generalizing buckets out r with
  | nil =>
      refine ⟨hbuckets, fun id => ⟨[], ?_, .inr ⟨rfl, rfl, by simp⟩⟩⟩
      rw [List.append_nil]
      rfl
  | cons i ids ih =>
      obtain ⟨ys, hys, hout⟩ := emit_windowed (g := g) hqd (buckets i).length (buckets i)
        (Nat.le_refl _) out r
      have hto : ∀ p ∈ ys, p.toNode = i := fun p hp => hbuckets i p (hys.perm.mem_iff.mp hp)
      have hnext : Sorted (Function.update buckets i []) := by
        intro id p hp
        rw [Function.update_apply] at hp
        split_ifs at hp
        · cases hp
        · exact hbuckets id p hp
      obtain ⟨hsorted, hrest⟩ := ih hnext (emit g qd (buckets i).length (buckets i) (out, r)).1
        (emit g qd (buckets i).length (buckets i) (out, r)).2
      refine ⟨hsorted, fun id => ?_⟩
      obtain ⟨zs, hzs, hcases⟩ := hrest id
      rw [hout, toReceiver_append, List.append_assoc] at hzs
      by_cases hid : id = i
      · subst hid
        have hall : toReceiver id ys = ys :=
          List.filter_eq_self.mpr fun p hp => decide_eq_true (hto p hp)
        rw [Function.update_self] at hcases
        -- The bucket is empty now, so nothing more of it is emitted.
        obtain ⟨rfl, hempty⟩ :
            zs = [] ∧ (emitNodes g qd (id :: ids) (buckets, out, r)).1 id = [] := by
          rcases hcases with ⟨hw, he⟩ | ⟨hz, he, -⟩
          · exact ⟨hw.perm.eq_nil, he⟩
          · exact ⟨hz, he⟩
        rw [hall, List.append_nil] at hzs
        exact ⟨ys, hzs, .inl ⟨hys, hempty⟩⟩
      · have hnone : toReceiver id ys = [] :=
          List.filter_eq_nil_iff.mpr fun p hp => by
            simpa [hto p hp] using Ne.symm hid
        rw [hnone, List.nil_append] at hzs
        rw [Function.update_of_ne hid] at hcases
        refine ⟨zs, hzs, hcases.imp_right fun hz => ⟨hz.1, hz.2.1, ?_⟩⟩
        rw [List.mem_cons, not_or]
        exact ⟨hid, hz.2.2⟩

lemma orderLocked_windowed (sortedNodes : List NodeID) {c : Chaos ρ} {due : List Pending}
    (hqd : 2 ≤ c.reorderQD) (hlen : 2 ≤ due.length) (hon : c.reorderOn = true) (id : NodeID) :
    Windowed c.reorderQD.toNat (toReceiver id due)
      (toReceiver id (orderLocked g sortedNodes c due).1) := by
  have hpos : 0 < c.reorderQD.toNat := by omega
  have hbuckets : Sorted (byTo due) := by
    intro id p hp
    rw [byTo_eq] at hp
    simpa using (List.mem_filter.mp hp).2
  rw [orderLocked, if_neg (not_or.mpr ⟨by simp [hon], by omega⟩)]
  dsimp only
  obtain ⟨hsorted, hfirst⟩ := emitNodes_spec (g := g) hpos sortedNodes hbuckets
    { backing := due, len := 0 } c.reorderRNG
  set st := emitNodes g c.reorderQD.toNat sortedNodes
    (byTo due, { backing := due, len := 0 }, c.reorderRNG)
  set remainder := ((due.map (·.toNode)).dedup.filter fun id => st.1 id ≠ []).mergeSort
    with hremainder
  obtain ⟨-, hsecond⟩ := emitNodes_spec (g := g) hpos remainder hsorted st.2.1 st.2.2
  obtain ⟨ys, hys, hcases⟩ := hfirst id
  obtain ⟨zs, hzs, hcases'⟩ := hsecond id
  have hempty : toReceiver id (Slice.toList { backing := due, len := 0 }) = [] := rfl
  rw [hempty, List.nil_append] at hys
  rw [hys] at hzs
  rw [← byTo_eq due id]
  show Windowed _ _ (toReceiver id (emitNodes g _ remainder (st.1, st.2.1, st.2.2)).2.1.toList)
  rw [hzs]
  rcases hcases with ⟨hw, hst⟩ | ⟨rfl, hst, -⟩
  · -- The receiver is connected; its bucket is empty when the rest is emitted.
    obtain rfl : zs = [] := by
      rcases hcases' with ⟨hw', -⟩ | ⟨hz, -, -⟩
      · rw [hst] at hw'
        exact hw'.perm.eq_nil
      · exact hz
    rwa [List.append_nil]
  · rw [List.nil_append]
    rcases hcases' with ⟨hw', -⟩ | ⟨rfl, -, hnot⟩
    · rwa [hst] at hw'
    · have hnone : byTo due id = [] := by
        by_contra hne
        obtain ⟨p, hp⟩ := List.exists_mem_of_ne_nil _ hne
        have hpto := hbuckets id p hp
        rw [byTo_eq] at hp
        refine hnot ?_
        rw [hremainder, List.mem_mergeSort, List.mem_filter, List.mem_dedup, List.mem_map]
        exact ⟨⟨p, List.mem_of_mem_filter hp, hpto⟩, by simpa [hst] using hne⟩
      rw [hnone]
      exact .nil

/-- A batch keeps its messages, and for each receiver those of each window. -/
lemma orderLocked_spec (sortedNodes : List NodeID) (c : Chaos ρ) (due : List Pending) :
    (orderLocked g sortedNodes c due).1.Perm due ∧
      (c.reorderOn = false ∨ c.reorderQD < 2 → (orderLocked g sortedNodes c due).1 = due) ∧
      ∀ id b, (((toReceiver id (orderLocked g sortedNodes c due).1).drop
          (b * c.reorderQD.toNat)).take c.reorderQD.toNat).Perm
        (((toReceiver id due).drop (b * c.reorderQD.toNat)).take c.reorderQD.toNat) := by
  by_cases hfifo : c.reorderOn = false ∨ due.length < 2 ∨ c.reorderQD < 2
  · rw [orderLocked, if_pos hfifo]
    exact ⟨.refl due, fun _ => rfl, fun _ _ => .refl _⟩
  · rw [not_or, not_or, Bool.not_eq_false, not_lt, not_lt] at hfifo
    obtain ⟨hon, hlen, hqd⟩ := hfifo
    have hwin := orderLocked_windowed (g := g) sortedNodes hqd hlen hon
    refine ⟨?_, fun hoff => absurd hoff (not_or.mpr ⟨by simp [hon], by omega⟩),
      fun id b => (hwin id).block b⟩
    -- A message is counted among those to its receiver.
    rw [List.perm_iff_count]
    intro p
    have hcount : ∀ ps : List Pending, ps.count p = (toReceiver p.toNode ps).count p := by
      intro ps
      rw [toReceiver, List.count_filter (by simp)]
    rw [hcount, hcount due, (hwin p.toNode).perm.count_eq]

/-! ## The queue -/

lemma drainDueLocked_rest (now : ℤ) (queue : List Pending) :
    drainDueLocked now (drainDueLocked now queue).2 = ([], (drainDueLocked now queue).2) := by
  induction queue with
  | nil => rfl
  | cons p queue ih =>
      by_cases hp : now < p.deliverAt
      · rw [drainDueLocked, if_pos hp, drainDueLocked, if_pos hp]
      · rw [drainDueLocked, if_neg hp]
        exact ih

lemma drainDueLocked_append (now : ℤ) (queue : List Pending) :
    (drainDueLocked now queue).1 ++ (drainDueLocked now queue).2 = queue := by
  induction queue with
  | nil => rfl
  | cons p queue ih =>
      by_cases hp : now < p.deliverAt
      · rw [drainDueLocked, if_pos hp]
        rfl
      · rw [drainDueLocked, if_neg hp, List.cons_append, ih]

lemma drainDueLocked_eq {now : ℤ} {queue : List Pending}
    (hsorted : queue.Pairwise Pending.Le) :
    drainDueLocked now queue =
      (queue.filter fun p => p.deliverAt ≤ now, queue.filter fun p => now < p.deliverAt) := by
  induction queue with
  | nil => rfl
  | cons p queue ih =>
      obtain ⟨hp, hqueue⟩ := List.pairwise_cons.mp hsorted
      by_cases hdue : now < p.deliverAt
      · have hlater : ∀ q ∈ p :: queue, now < q.deliverAt := by
          intro q hq
          rcases List.mem_cons.mp hq with rfl | hq
          · exact hdue
          · rcases hp q hq with hlt | ⟨heq, -⟩ <;> omega
        rw [drainDueLocked, if_pos hdue, List.filter_eq_nil_iff.mpr, List.filter_eq_self.mpr]
        · exact fun q hq => decide_eq_true (hlater q hq)
        · intro q hq
          simpa using hlater q hq
      · rw [drainDueLocked, if_neg hdue, ih hqueue,
          List.filter_cons_of_pos (by simpa using hdue),
          List.filter_cons_of_neg (by simpa using hdue)]

/-- What `DrainDueSync` does, which is one pass. -/
lemma Hub.drainDueSync_eq (h : Hub ρ) :
    h.drainDueSync g =
      (let batch := drainDueLocked h.now h.queue
      let ordered := orderLocked g h.sortedNodes h.chaos batch.1
      ({ h with queue := batch.2, chaos := ordered.2 }, batch.1,
        ordered.1.filter fun p => p.toNode ∈ h.sortedNodes)) := by
  rw [Hub.drainDueSync, Hub.drainLoop]
  dsimp only
  split_ifs with hnone
  · have hqueue := drainDueLocked_append h.now h.queue
    rw [hnone, List.nil_append] at hqueue
    have horder : orderLocked g h.sortedNodes h.chaos [] = ([], h.chaos) := by
      rw [orderLocked, if_pos (.inr (.inl (by decide)))]
    rw [hnone, horder, hqueue]
    rfl
  · -- Nothing is due in the second round.
    have hrest : ∀ (n : ℕ) (c : Chaos ρ),
        Hub.drainLoop g n { h with queue := (drainDueLocked h.now h.queue).2, chaos := c } =
          ({ h with queue := (drainDueLocked h.now h.queue).2, chaos := c }, [], []) := by
      intro n c
      cases n with
      | zero => rfl
      | succ n =>
          rw [Hub.drainLoop]
          dsimp only
          rw [drainDueLocked_rest, if_pos rfl]
    rw [hrest, List.append_nil, List.append_nil]

/-! ## What a step does to the queue -/

def Outcome.pushed : Outcome → List Pending
  | .sent _ pushed => pushed
  | _ => []

def Outcome.due : Outcome → List Pending
  | .drained due _ => due
  | _ => []

def Outcome.puts : Outcome → List Pending
  | .drained _ puts => puts
  | _ => []

/-- Messages with consecutive numbers from `seq + 1` on. -/
def Numbered (seq : ℕ) (ps : List Pending) : Prop :=
  ps.map (·.seq) = List.range' (seq + 1) ps.length

/-- The queue is in order and its numbers are distinct and given out. -/
structure Hub.WF (h : Hub ρ) : Prop where
  sorted : h.queue.Pairwise Pending.Le
  seqs : (h.queue.map (·.seq)).Nodup
  le : ∀ p ∈ h.queue, p.seq ≤ h.seq

instance : Std.Total Pending.Le where
  total p q := by
    unfold Pending.Le
    omega

instance : IsTrans Pending Pending.Le where
  trans p q r hpq hqr := by
    unfold Pending.Le at *
    omega

lemma Hub.WF.pushAll {queue : List Pending} {seq : ℕ} {pushed : List Pending}
    (hsorted : queue.Pairwise Pending.Le) (hseqs : (queue.map (·.seq)).Nodup)
    (hle : ∀ p ∈ queue, p.seq ≤ seq) (hpushed : Numbered seq pushed) :
    let queue' := pushed.foldl (fun q p => q.orderedInsert Pending.Le p) queue
    queue'.Pairwise Pending.Le ∧ (queue'.map (·.seq)).Nodup ∧
      (∀ p ∈ queue', p.seq ≤ seq + pushed.length) ∧ queue'.Perm (pushed ++ queue) := by
  induction pushed generalizing queue seq with
  | nil => exact ⟨hsorted, hseqs, hle, .refl _⟩
  | cons p pushed ih =>
      rw [Numbered, List.map_cons, List.length_cons, List.range'_succ] at hpushed
      obtain ⟨hp, hrest⟩ := List.cons.inj hpushed
      have hperm := List.perm_orderedInsert Pending.Le p queue
      have hnew : p.seq ∉ queue.map (·.seq) := by
        intro hmem
        obtain ⟨q, hq, hqp⟩ := List.mem_map.mp hmem
        have := hle q hq
        omega
      have hseqs' : ((queue.orderedInsert Pending.Le p).map (·.seq)).Nodup :=
        (hperm.map _).nodup_iff.mpr (List.nodup_cons.mpr ⟨hnew, hseqs⟩)
      have hle' : ∀ q ∈ queue.orderedInsert Pending.Le p, q.seq ≤ seq + 1 := by
        intro q hq
        rcases List.mem_cons.mp (hperm.mem_iff.mp hq) with rfl | hq
        · omega
        · exact (hle q hq).trans (Nat.le_succ seq)
      obtain ⟨h₁, h₂, h₃, h₄⟩ := ih (hsorted.orderedInsert p queue) hseqs' hle' hrest
      refine ⟨h₁, h₂, fun q hq => (h₃ q hq).trans ?_, h₄.trans ?_⟩
      · rw [List.length_cons]
        omega
      · exact (hperm.append_left pushed).trans List.perm_middle

lemma Hub.numbered_copies (h : Hub ρ) (fromNode : NodeID) (msg : Message) (d : Decision) :
    Numbered h.seq (h.copies fromNode msg d) := by
  cases d with
  | sent delay dup => cases dup <;> rfl
  | _ => rfl

/-- What a step does to the queue: a drain takes out what is due, a send adds its messages, with
the next numbers, and nothing else changes it. -/
structure QueueStep (h : Hub ρ) (e : Event) (h' : Hub ρ) (o : Outcome) : Prop where
  wf : h'.WF
  mem : ∀ p, p ∈ h'.queue ↔ (p ∈ h.queue ∧ (e = .drain → h.now < p.deliverAt)) ∨ p ∈ o.pushed
  seq : h'.seq = h.seq + o.pushed.length
  numbered : Numbered h.seq o.pushed
  perm : (h.queue ++ o.pushed).Perm (o.due ++ h'.queue)

lemma QueueStep.of_same {h h' : Hub ρ} {e : Event} (hwf : h.WF) (he : e ≠ .drain)
    (hqueue : h'.queue = h.queue) (hseq : h'.seq = h.seq) : QueueStep h e h' .quiet where
  wf := ⟨hqueue ▸ hwf.sorted, hqueue ▸ hwf.seqs, hqueue ▸ hseq ▸ hwf.le⟩
  mem p := by simp [hqueue, he, Outcome.pushed]
  seq := hseq
  numbered := rfl
  perm := by
    rw [hqueue]
    exact .of_eq (List.append_nil _)

/-- A drain takes out what is due, and puts what it takes out on the channels of the nodes that
are connected. -/
lemma Hub.WF.drain {h : Hub ρ} (hwf : h.WF) :
    (h.step g .drain).1.queue = (h.queue.filter fun p => h.now < p.deliverAt) ∧
      (h.step g .drain).1.seq = h.seq ∧
      (h.step g .drain).2 = .drained (h.queue.filter fun p => p.deliverAt ≤ h.now)
        ((orderLocked g h.sortedNodes h.chaos
          (h.queue.filter fun p => p.deliverAt ≤ h.now)).1.filter
            fun p => p.toNode ∈ h.sortedNodes) := by
  rw [Hub.step, Hub.drainDueSync_eq]
  dsimp only
  rw [drainDueLocked_eq hwf.sorted]
  exact ⟨rfl, rfl, rfl⟩

lemma Hub.WF.step {h : Hub ρ} (hwf : h.WF) (e : Event) :
    QueueStep h e (h.step g e).1 (h.step g e).2 := by
  cases e with
  | send fromNode msg =>
      obtain ⟨h₁, h₂, h₃, h₄⟩ := Hub.WF.pushAll hwf.sorted hwf.seqs hwf.le
        (h.numbered_copies fromNode msg (h.chaos.decide g fromNode msg.toNode).1)
      refine ⟨⟨h₁, h₂, h₃⟩, fun p => ?_, rfl, h.numbered_copies fromNode msg _,
        List.perm_append_comm.trans h₄.symm⟩
      rw [show (p ∈ (h.step g (.send fromNode msg)).1.queue ↔ _) from h₄.mem_iff,
        List.mem_append, or_comm]
      simp [Hub.step, Hub.send, Outcome.pushed]
  | drain =>
      obtain ⟨hqueue, hseq, hout⟩ := hwf.drain (g := g)
      have hsub : (h.step g .drain).1.queue.Sublist h.queue := by
        rw [hqueue]
        exact List.filter_sublist
      refine ⟨⟨hwf.sorted.sublist hsub, hwf.seqs.sublist (hsub.map _), fun p hp => ?_⟩,
        fun p => ?_, ?_, ?_, ?_⟩
      · rw [hseq]
        exact hwf.le p (hsub.subset hp)
      · rw [hqueue, hout, List.mem_filter]
        simp [Outcome.pushed]
      · rw [hseq, hout]
        rfl
      · rw [hout]
        rfl
      · rw [hout, hqueue]
        have hnot : (fun p : Pending => decide (h.now < p.deliverAt)) =
            fun p => !decide (p.deliverAt ≤ h.now) := by
          funext p
          rw [← decide_not, decide_eq_decide, not_le]
        rw [hnot]
        exact (List.append_nil _ ▸ (List.filter_append_perm _ h.queue).symm)
  | connect id =>
      refine .of_same hwf (by simp) ?_ ?_ <;>
      · dsimp only [Hub.step, Hub.connect]
        split_ifs <;> rfl
  | _ => exact .of_same hwf (by simp) rfl rfl

/-! ## Runs -/

lemma trace_cons (h : Hub ρ) (e : Event) (es : List Event) :
    ∃ rest, trace g h (e :: es) =
        { before := h, event := e, outcome := (h.step g e).2 } :: rest ∧
      (rest = [] ∨ rest = trace g (h.step g e).1 es) := by
  rw [trace]
  split
  · exact ⟨[], rfl, .inl rfl⟩
  · exact ⟨_, rfl, .inr rfl⟩

/-- No drain from step `a` to step `b` has found the message due. -/
def NotYet (t : List (Moment ρ)) (a b : ℕ) (p : Pending) : Prop :=
  ∀ k m, a ≤ k → k < b → t[k]? = some m → m.event = .drain → m.before.now < p.deliverAt

/-- The message was pushed before step `j`, and no drain since has found it due. -/
def Waiting (t : List (Moment ρ)) (j : ℕ) (p : Pending) : Prop :=
  ∃ i m, i < j ∧ t[i]? = some m ∧ p ∈ m.outcome.pushed ∧ NotYet t (i + 1) j p

lemma notYet_succ {m : Moment ρ} {t : List (Moment ρ)} {a b : ℕ} {p : Pending} :
    NotYet (m :: t) (a + 1) (b + 1) p ↔ NotYet t a b p := by
  constructor
  · intro h k m' ha hb hm
    exact h (k + 1) m' (by omega) (by omega) (by simpa using hm)
  · intro h k m' ha hb hm
    obtain ⟨k, rfl⟩ : ∃ i, k = i + 1 := ⟨k - 1, by omega⟩
    exact h k m' (by omega) (by omega) (by simpa using hm)

lemma notYet_zero {m : Moment ρ} {t : List (Moment ρ)} {b : ℕ} {p : Pending} :
    NotYet (m :: t) 0 (b + 1) p ↔
      (m.event = .drain → m.before.now < p.deliverAt) ∧ NotYet t 0 b p := by
  rw [← notYet_succ (m := m) (t := t)]
  constructor
  · intro h
    exact ⟨h 0 m (Nat.le_refl 0) (Nat.succ_pos b) rfl,
      fun k m' _ hb => h k m' (Nat.zero_le k) hb⟩
  · rintro ⟨hzero, hrest⟩ k m' - hb hm
    cases k with
    | zero =>
        obtain rfl : m = m' := by simpa using hm
        exact hzero
    | succ k => exact hrest (k + 1) m' (by omega) hb hm

lemma waiting_succ {m : Moment ρ} {t : List (Moment ρ)} {j : ℕ} {p : Pending} :
    Waiting (m :: t) (j + 1) p ↔
      (p ∈ m.outcome.pushed ∧ NotYet t 0 j p) ∨ Waiting t j p := by
  constructor
  · rintro ⟨i, m', hi, hm', hp, hnot⟩
    cases i with
    | zero =>
        obtain rfl : m = m' := by simpa using hm'
        exact .inl ⟨hp, notYet_succ.mp hnot⟩
    | succ i => exact .inr ⟨i, m', by omega, by simpa using hm', hp, notYet_succ.mp hnot⟩
  · rintro (⟨hp, hnot⟩ | ⟨i, m', hi, hm', hp, hnot⟩)
    · exact ⟨0, m, Nat.succ_pos j, rfl, hp, notYet_succ.mpr hnot⟩
    · exact ⟨i + 1, m', by omega, by simpa using hm', hp, notYet_succ.mpr hnot⟩

/-- The queue before a step: what was in it at the start or has been pushed since, and has not
been found due. -/
lemma queue_at {h : Hub ρ} (hwf : h.WF) {es : List Event} {j : ℕ} {m : Moment ρ}
    (hm : (trace g h es)[j]? = some m) :
    m.before.WF ∧ m.outcome = (m.before.step g m.event).2 ∧
      ∀ p, p ∈ m.before.queue ↔
        (p ∈ h.queue ∧ NotYet (trace g h es) 0 j p) ∨ Waiting (trace g h es) j p := by
  induction es generalizing h j with
  | nil => cases hm
  | cons e es ih =>
      obtain ⟨rest, htrace, hrest⟩ := trace_cons (g := g) h e es
      rw [htrace] at hm ⊢
      cases j with
      | zero =>
          obtain rfl : _ = m := by simpa using hm
          refine ⟨hwf, rfl, fun p => ?_⟩
          have hnone : ¬ Waiting ({ before := h, event := e, outcome := (h.step g e).2 } :: rest)
              0 p := fun ⟨i, _, hi, _⟩ => Nat.not_lt_zero i hi
          have hall : NotYet ({ before := h, event := e, outcome := (h.step g e).2 } :: rest)
              0 0 p := fun k _ _ hk => absurd hk (Nat.not_lt_zero k)
          simp [hnone, hall]
      | succ j =>
          have hm' : rest[j]? = some m := by simpa using hm
          obtain rfl : rest = trace g (h.step g e).1 es := by
            rcases hrest with rfl | hrest
            · cases hm'
            · exact hrest
          obtain ⟨hbefore, hout, hqueue⟩ := ih (hwf.step e).wf hm'
          refine ⟨hbefore, hout, fun p => ?_⟩
          rw [hqueue, (hwf.step e).mem, notYet_zero, waiting_succ, or_and_right, and_assoc,
            or_assoc]

/-- Over a run, the numbers of the messages pushed are consecutive. -/
lemma numbered_pushed {h : Hub ρ} (hwf : h.WF) (es : List Event) :
    Numbered h.seq ((trace g h es).flatMap (·.outcome.pushed)) := by
  induction es generalizing h with
  | nil => rfl
  | cons e es ih =>
      obtain ⟨rest, htrace, hrest⟩ := trace_cons (g := g) h e es
      have hstep := hwf.step (g := g) e
      have hlater : Numbered (h.step g e).1.seq (rest.flatMap (·.outcome.pushed)) := by
        rcases hrest with rfl | rfl
        · rfl
        · exact ih hstep.wf
      have hfirst := hstep.numbered
      rw [hstep.seq] at hlater
      rw [Numbered] at hfirst hlater
      rw [htrace, Numbered, List.flatMap_cons, List.map_append, hfirst, hlater, List.length_append,
        Nat.add_right_comm, List.range'_append_1]

lemma Numbered.nodup {seq : ℕ} {ps : List Pending} (h : Numbered seq ps) : ps.Nodup := by
  rw [Numbered] at h
  refine List.Nodup.of_map (·.seq) ?_
  rw [h]
  exact List.nodup_range'

/-- Over a run, what is taken out of the queue was in it or has been pushed, once. -/
lemma due_conserved {h : Hub ρ} (hwf : h.WF) (es : List Event) :
    ∃ left, (h.queue ++ (trace g h es).flatMap (·.outcome.pushed)).Perm
      ((trace g h es).flatMap (·.outcome.due) ++ left) := by
  induction es generalizing h with
  | nil => exact ⟨h.queue, .of_eq (List.append_nil _)⟩
  | cons e es ih =>
      obtain ⟨rest, htrace, hrest⟩ := trace_cons (g := g) h e es
      have hstep := hwf.step (g := g) e
      obtain ⟨left, hleft⟩ : ∃ left, ((h.step g e).1.queue ++
          rest.flatMap (·.outcome.pushed)).Perm (rest.flatMap (·.outcome.due) ++ left) := by
        rcases hrest with rfl | rfl
        · exact ⟨_, .of_eq (List.append_nil _)⟩
        · exact ih hstep.wf
      refine ⟨left, ?_⟩
      rw [htrace, List.flatMap_cons, List.flatMap_cons, ← List.append_assoc,
        List.append_assoc _ _ left]
      refine (hstep.perm.append_right _).trans ?_
      rw [List.append_assoc]
      exact hleft.append_left _

/-! ## In order -/

/-- A send with the delay `d` and no duplicate, or one that is not sent. -/
def Outcome.Plain (d : ℤ) : Outcome → Prop
  | .sent (.sent delay dup) _ => delay = d ∧ dup = false
  | _ => True

/-- With one delay and no duplicates the queue is first in, first out. -/
lemma fifo_step {h : Hub ρ} (hwf : h.WF) {d : ℤ} (hqueue : ∀ p ∈ h.queue, p.deliverAt ≤ h.now + d)
    {e : Event} (hplain : (h.step g e).2.Plain d) :
    h.queue ++ (h.step g e).2.pushed = (h.step g e).2.due ++ (h.step g e).1.queue ∧
      ∀ p ∈ (h.step g e).1.queue, p.deliverAt ≤ (h.step g e).1.now + d := by
  cases e with
  | send fromNode msg =>
      rw [Hub.step, Hub.send] at hplain ⊢
      dsimp only at hplain ⊢
      cases hd : (h.chaos.decide g fromNode msg.toNode).1 with
      | sent delay dup =>
          rw [hd] at hplain
          obtain ⟨rfl, rfl⟩ := hplain
          -- The new message is due last and has the highest number.
          have hlast : ∀ p : Pending, p.deliverAt = h.now + delay → p.seq = h.seq + 1 →
              h.queue.orderedInsert Pending.Le p = h.queue ++ [p] := by
            intro p hat hseq
            have hbefore : ∀ q ∈ h.queue, ¬ Pending.Le p q := by
              intro q hq hle
              have := hqueue q hq
              have := hwf.le q hq
              unfold Pending.Le at hle
              omega
            rw [List.orderedInsert_eq_take_drop, List.takeWhile_eq_self_iff.mpr,
              List.dropWhile_eq_nil_iff.mpr]
            · exact fun q hq => decide_eq_true (hbefore q hq)
            · exact fun q hq => decide_eq_true (hbefore q hq)
          simp only [Hub.copies, Bool.false_eq_true, if_false, List.foldl_cons, List.foldl_nil]
          rw [hlast _ rfl rfl]
          refine ⟨rfl, fun p hp => ?_⟩
          rcases List.mem_append.mp hp with hp | hp
          · exact hqueue p hp
          · rw [List.mem_singleton.mp hp]
      | partitioned => exact ⟨List.append_nil _, hqueue⟩
      | dropped => exact ⟨List.append_nil _, hqueue⟩
      | panicked => exact ⟨List.append_nil _, hqueue⟩
  | drain =>
      rw [Hub.step, Hub.drainDueSync_eq]
      dsimp only [Outcome.pushed, Outcome.due]
      have happend := drainDueLocked_append h.now h.queue
      refine ⟨by rw [happend, List.append_nil], fun p hp => hqueue p ?_⟩
      rw [← happend]
      exact List.mem_append_right _ hp
  | advance n =>
      refine ⟨List.append_nil _, fun p hp => ?_⟩
      have := hqueue p hp
      show p.deliverAt ≤ h.now + n + d
      omega
  | connect id =>
      have hnow : (h.connect id).now = h.now ∧ (h.connect id).queue = h.queue := by
        unfold Hub.connect
        split_ifs <;> exact ⟨rfl, rfl⟩
      rw [Hub.step]
      dsimp only
      rw [hnow.1, hnow.2]
      exact ⟨List.append_nil _, hqueue⟩
  | _ => exact ⟨List.append_nil _, hqueue⟩

/-- What a drain puts on channels, of what it takes out. -/
lemma Hub.WF.puts_sublist {h : Hub ρ} (hwf : h.WF) {e : Event}
    (hoff : e = .drain → h.chaos.reorderOn = false) :
    (h.step g e).2.puts.Sublist (h.step g e).2.due := by
  cases e with
  | drain =>
      obtain ⟨-, -, hout⟩ := hwf.drain (g := g)
      rw [hout, (orderLocked_spec (g := g) h.sortedNodes h.chaos _).2.1 (.inl (hoff rfl))]
      exact List.filter_sublist
  | _ => exact List.Sublist.refl []

lemma fifo_run {h : Hub ρ} (hwf : h.WF) {d : ℤ} (hqueue : ∀ p ∈ h.queue, p.deliverAt ≤ h.now + d)
    {es : List Event}
    (hall : ∀ m ∈ trace g h es,
      (m.event = .drain → m.before.chaos.reorderOn = false) ∧ m.outcome.Plain d) :
    ((trace g h es).flatMap (·.outcome.puts)).Sublist
      (h.queue ++ (trace g h es).flatMap (·.outcome.pushed)) := by
  induction es generalizing h with
  | nil => exact List.nil_sublist _
  | cons e es ih =>
      obtain ⟨rest, htrace, hrest⟩ := trace_cons (g := g) h e es
      rw [htrace] at hall ⊢
      obtain ⟨hoff, hplain⟩ := hall _ List.mem_cons_self
      obtain ⟨hmove, hnext⟩ := fifo_step hwf hqueue hplain
      have hlater : (rest.flatMap (·.outcome.puts)).Sublist
          ((h.step g e).1.queue ++ rest.flatMap (·.outcome.pushed)) := by
        rcases hrest with rfl | rfl
        · exact List.nil_sublist _
        · exact ih (hwf.step e).wf hnext fun m hm => hall m (List.mem_cons_of_mem _ hm)
      rw [List.flatMap_cons, List.flatMap_cons, ← List.append_assoc, hmove, List.append_assoc]
      exact (hwf.puts_sublist hoff).append hlater

/-! ## Delivery -/

/-- A drain, from a queue in order: what it takes out is what is due, and for each connected
receiver it puts that on its channel, moved only within windows. -/
lemma Hub.WF.drain_delivers {h : Hub ρ} (hwf : h.WF) :
    let o := (h.step g .drain).2
    o.due = (h.queue.filter fun p => p.deliverAt ≤ h.now) ∧
      o.puts.Perm (o.due.filter fun p => p.toNode ∈ h.sortedNodes) ∧
      (h.chaos.reorderOn = false ∨ h.chaos.reorderQD < 2 →
        o.puts = o.due.filter fun p => p.toNode ∈ h.sortedNodes) ∧
      ∀ id ∈ h.sortedNodes, (toReceiver id o.puts).Perm (toReceiver id o.due) ∧
        ∀ b, (((toReceiver id o.puts).drop
            (b * h.chaos.reorderQD.toNat)).take h.chaos.reorderQD.toNat).Perm
          (((toReceiver id o.due).drop
            (b * h.chaos.reorderQD.toNat)).take h.chaos.reorderQD.toNat) := by
  obtain ⟨-, -, hout⟩ := hwf.drain (g := g)
  dsimp only
  rw [hout]
  dsimp only [Outcome.due, Outcome.puts]
  obtain ⟨hperm, hfifo, hblock⟩ := orderLocked_spec (g := g) h.sortedNodes h.chaos
    (h.queue.filter fun p => p.deliverAt ≤ h.now)
  refine ⟨rfl, hperm.filter _, fun hoff => by rw [hfifo hoff], fun id hid => ?_⟩
  -- The messages to a connected node are not filtered.
  have hall : ∀ ps : List Pending,
      toReceiver id (ps.filter fun p => p.toNode ∈ h.sortedNodes) = toReceiver id ps := by
    intro ps
    rw [toReceiver, toReceiver, List.filter_filter]
    refine List.filter_congr fun p _ => ?_
    by_cases hp : p.toNode = id
    · simp [hp, hid]
    · simp [hp]
  rw [hall]
  exact ⟨hperm.filter _, hblock id⟩

lemma Hub.WF.puts_subperm {h : Hub ρ} (hwf : h.WF) (e : Event) :
    (h.step g e).2.puts.Subperm (h.step g e).2.due := by
  cases e with
  | drain => exact hwf.drain_delivers.2.1.subperm.trans List.filter_sublist.subperm
  | _ => exact List.Subperm.refl []

lemma Hub.step_puts {h : Hub ρ} {e : Event} (he : e ≠ .drain) : (h.step g e).2.puts = [] := by
  cases e with
  | drain => exact absurd rfl he
  | _ => rfl

lemma Hub.step_pushed (h : Hub ρ) {e : Event} (he : ∀ fromNode msg, e ≠ .send fromNode msg) :
    (h.step g e).2.pushed = [] := by
  cases e with
  | send fromNode msg => exact absurd rfl (he fromNode msg)
  | _ => rfl

lemma Hub.send_outcome (h : Hub ρ) (fromNode : NodeID) (msg : Message) :
    let cut := h.chaos.isPartitioned fromNode msg.toNode
    let drop := h.chaos.dropDecision g fromNode
    (cut = true → (h.send g fromNode msg).2 = .sent .partitioned []) ∧
    (cut = false → drop.1 = true → (h.send g fromNode msg).2 = .sent .dropped []) ∧
    (cut = false → drop.1 = false → drop.2.sampleDelay g = none →
      (h.send g fromNode msg).2 = .sent .panicked []) ∧
    ∀ delay rest, cut = false → drop.1 = false → drop.2.sampleDelay g = some (delay, rest) →
      let dup := (rest.dupDecision g).1
      let p : Pending :=
        { deliverAt := h.now + delay, seq := h.seq + 1, fromNode := fromNode,
          toNode := msg.toNode, msg := msg }
      (h.send g fromNode msg).2 = .sent (.sent delay dup)
        (if dup then [p, { p with deliverAt := h.now + delay + 1, seq := p.seq + 1 }]
        else [p]) := by
  have hsend : ∀ {d : Decision}, (h.chaos.decide g fromNode msg.toNode).1 = d →
      (h.send g fromNode msg).2 = .sent d (h.copies fromNode msg d) := by
    rintro d rfl
    rfl
  refine ⟨fun hcut => ?_, fun hcut hdrop => ?_, fun hcut hdrop hdelay => ?_,
    fun delay rest hcut hdrop hdelay => ?_⟩
  · exact hsend (by rw [Chaos.decide, if_pos hcut])
  · exact hsend (by simp only [Chaos.decide, hcut, hdrop, if_true, Bool.false_eq_true, if_false])
  · exact hsend (by
      simp only [Chaos.decide, Chaos.timing, hcut, hdrop, hdelay, Bool.false_eq_true, if_false])
  · intro dup p
    rw [hsend (d := .sent delay dup) (by
      simp only [Chaos.decide, Chaos.timing, hcut, hdrop, hdelay, Bool.false_eq_true, if_false,
        dup])]
    cases hdup : dup <;> rfl

lemma before_of_mem {h : Hub ρ} (hwf : h.WF) {es : List Event} {m : Moment ρ}
    (hm : m ∈ trace g h es) : m.before.WF ∧ m.outcome = (m.before.step g m.event).2 := by
  obtain ⟨j, hj⟩ := List.mem_iff_getElem?.mp hm
  obtain ⟨hbefore, hout, -⟩ := queue_at hwf hj
  exact ⟨hbefore, hout⟩

/-- From an empty queue, no message is delivered twice. -/
lemma nodup_puts {h : Hub ρ} (hwf : h.WF) (hempty : h.queue = []) (es : List Event) :
    ((trace g h es).flatMap (·.outcome.puts)).Nodup := by
  obtain ⟨left, hleft⟩ := due_conserved (g := g) hwf es
  rw [hempty, List.nil_append] at hleft
  obtain ⟨heach, hdisjoint⟩ := List.nodup_flatMap.mp
    (List.nodup_append.mp (hleft.nodup_iff.mp (numbered_pushed hwf es).nodup)).1
  have hsub : ∀ m ∈ trace g h es, m.outcome.puts.Subperm m.outcome.due := by
    intro m hm
    obtain ⟨hbefore, hout⟩ := before_of_mem hwf hm
    rw [hout]
    exact hbefore.puts_subperm m.event
  refine List.nodup_flatMap.mpr ⟨fun m hm => ?_, hdisjoint.imp_of_mem ?_⟩
  · obtain ⟨due, hperm, hdue⟩ := hsub m hm
    exact hperm.nodup_iff.mp ((heach m hm).sublist hdue)
  · intro m₁ m₂ h₁ h₂ hd
    exact List.disjoint_of_subset_left (hsub m₁ h₁).subset
      (List.disjoint_of_subset_right (hsub m₂ h₂).subset hd)

/-- From an empty queue, a drain takes out what is waiting and due. -/
lemma mem_due_at {h : Hub ρ} (hwf : h.WF) (hempty : h.queue = []) {es : List Event} {j : ℕ}
    {m : Moment ρ} (hm : (trace g h es)[j]? = some m) (he : m.event = .drain) (p : Pending) :
    p ∈ m.outcome.due ↔ Waiting (trace g h es) j p ∧ p.deliverAt ≤ m.before.now := by
  obtain ⟨hbefore, hout, hqueue⟩ := queue_at hwf hm
  have hnone : ¬ (p ∈ h.queue ∧ NotYet (trace g h es) 0 j p) := by
    rintro ⟨hp, -⟩
    rw [hempty] at hp
    cases hp
  rw [hout, he, hbefore.drain_delivers.1, List.mem_filter, hqueue, or_iff_right hnone,
    decide_eq_true_iff]

/-- From an empty queue, what a step puts on channels is what a drain takes out for the nodes
that are connected. -/
lemma mem_puts_at {h : Hub ρ} (hwf : h.WF) (hempty : h.queue = []) {es : List Event} {j : ℕ}
    {m : Moment ρ} (hm : (trace g h es)[j]? = some m) (p : Pending) :
    p ∈ m.outcome.puts ↔ m.event = .drain ∧ Waiting (trace g h es) j p ∧
      p.deliverAt ≤ m.before.now ∧ p.toNode ∈ m.before.sortedNodes := by
  obtain ⟨hbefore, hout, -⟩ := queue_at hwf hm
  by_cases he : m.event = .drain
  · have hmem := mem_due_at hwf hempty hm he p
    rw [hout, he] at hmem ⊢
    rw [hbefore.drain_delivers.2.1.mem_iff, List.mem_filter, hmem, decide_eq_true_iff, and_assoc]
    exact (and_iff_right rfl).symm
  · rw [hout, Hub.step_puts he]
    simp [he]

/-- A run of a new hub.

A send that is neither cut off nor dropped is one message in the queue, due after its delay, and
if the duplicate decision fires a second one, due a nanosecond later.  Each of them is delivered
once, by the first drain at or after the time it is due, if its receiver is connected then, and
nothing else is delivered.  A drain takes its messages in the order of time and number; for each
receiver, reordering moves a message only within its block of `reorderQD` places.  With one delay,
no duplicates and no reordering, the deliveries are in the order of the sends. -/
theorem hub_conserves (g : Rand ρ) (now : ℤ) (c : Chaos ρ) (es : List Event) :
    let t := trace g { now := now, chaos := c } es
    (∀ m ∈ t, (∀ fromNode msg, m.event ≠ .send fromNode msg) → m.outcome.pushed = []) ∧
    (∀ m ∈ t, ∀ fromNode msg, m.event = .send fromNode msg →
      let cut := m.before.chaos.isPartitioned fromNode msg.toNode
      let drop := m.before.chaos.dropDecision g fromNode
      (cut = true → m.outcome = .sent .partitioned []) ∧
      (cut = false → drop.1 = true → m.outcome = .sent .dropped []) ∧
      (cut = false → drop.1 = false → drop.2.sampleDelay g = none →
        m.outcome = .sent .panicked []) ∧
      ∀ delay rest, cut = false → drop.1 = false → drop.2.sampleDelay g = some (delay, rest) →
        let dup := (rest.dupDecision g).1
        let p : Pending :=
          { deliverAt := m.before.now + delay, seq := m.before.seq + 1, fromNode := fromNode,
            toNode := msg.toNode, msg := msg }
        m.outcome = .sent (.sent delay dup)
          (if dup then [p, { p with deliverAt := m.before.now + delay + 1, seq := p.seq + 1 }]
          else [p])) ∧
    (t.flatMap (·.outcome.pushed)).Nodup ∧
    (t.flatMap (·.outcome.puts)).Nodup ∧
    (∀ j m, t[j]? = some m → ∀ p, p ∈ m.outcome.puts ↔
      m.event = .drain ∧ Waiting t j p ∧ p.deliverAt ≤ m.before.now ∧
        p.toNode ∈ m.before.sortedNodes) ∧
    (∀ j m, t[j]? = some m → m.event = .drain →
      m.outcome.due.Pairwise Pending.Le ∧
      (∀ p, p ∈ m.outcome.due ↔ Waiting t j p ∧ p.deliverAt ≤ m.before.now) ∧
      (m.before.chaos.reorderOn = false ∨ m.before.chaos.reorderQD < 2 →
        m.outcome.puts = m.outcome.due.filter fun p => p.toNode ∈ m.before.sortedNodes) ∧
      ∀ id ∈ m.before.sortedNodes,
        (toReceiver id m.outcome.puts).Perm (toReceiver id m.outcome.due) ∧
        ∀ b, (((toReceiver id m.outcome.puts).drop
            (b * m.before.chaos.reorderQD.toNat)).take m.before.chaos.reorderQD.toNat).Perm
          (((toReceiver id m.outcome.due).drop
            (b * m.before.chaos.reorderQD.toNat)).take m.before.chaos.reorderQD.toNat)) ∧
    (∀ d, (∀ m ∈ t,
        (m.event = .drain → m.before.chaos.reorderOn = false) ∧ m.outcome.Plain d) →
      (t.flatMap (·.outcome.puts)).Sublist (t.flatMap (·.outcome.pushed))) := by
  intro t
  have hwf : Hub.WF { now := now, chaos := c } := ⟨.nil, .nil, fun _ hp => by cases hp⟩
  refine ⟨fun m hm hno => ?_, fun m hm fromNode msg he => ?_, (numbered_pushed hwf es).nodup,
    nodup_puts hwf rfl es, fun j m hm => mem_puts_at hwf rfl hm, fun j m hm he => ?_,
    fun d hall => ?_⟩
  · rw [(before_of_mem hwf hm).2]
    exact m.before.step_pushed hno
  · rw [(before_of_mem hwf hm).2, he]
    exact m.before.send_outcome fromNode msg
  · obtain ⟨hbefore, hout, -⟩ := queue_at hwf hm
    obtain ⟨htaken, -, hfifo, hreceiver⟩ := hbefore.drain_delivers (g := g)
    refine ⟨?_, mem_due_at hwf rfl hm he, ?_⟩
    · rw [hout, he, htaken]
      exact hbefore.sorted.filter _
    · rw [hout, he]
      exact ⟨hfifo, hreceiver⟩
  · exact fifo_run hwf (fun _ hp => by cases hp) hall

/-- The duplicate of a send is not due yet when a drain delivers the send. -/
theorem duplicate_not_with_original :
    let msg : Message := { type := .appendEntries, fromNode := "a", toNode := "b" }
    let p : Pending := { deliverAt := 0, seq := 1, fromNode := "a", toNode := "b", msg := msg }
    (trace Pcg.source { chaos := newChaos 1 }
        [.connect "b", .duplicate (.number 1), .send "a" msg, .drain]).map (·.outcome) =
      [.quiet, .quiet, .sent (.sent 0 true) [p, { p with deliverAt := 1, seq := 2 }],
        .drained [p] [p]] := by
  decide +kernel

end Inproc

end ToyRaft
