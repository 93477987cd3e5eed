import Mathlib.Algebra.GroupWithZero.Nat
import ToyRaft.Framework.EventLoop

/-!
# The test clock (`internal/clock/fake.go`)

Time moves only in `Advance`, which fires the timers that are due, one after the other, in the order
of their expiry and then of their registration.  A ticker that has fired is registered again.

The heap is `container/heap` as a priority queue.  A timer is either in the heap or `idle`, and it
is known by the number `id` of its creation, which stands for the pointer that its handle keeps.
Times are nanoseconds, and neither they nor the registration numbers overflow.  A fire is the send
on the timer's channel: the consumer takes it, and does not call back into the clock.
-/

namespace ToyRaft

namespace Clock

/-- `fakeTimer`. -/
structure FakeTimer where
  id : ℕ
  expiry : ℤ := 0
  seq : ℕ := 0
  period : ℤ := 0
  stopped : Bool := false
  deriving DecidableEq, Repr

namespace FakeTimer

/-- `Less` of the heap. -/
def Less (s t : FakeTimer) : Prop :=
  if s.expiry = t.expiry then s.seq < t.seq else s.expiry < t.expiry

instance : DecidableRel Less := fun s t =>
  inferInstanceAs (Decidable (if s.expiry = t.expiry then s.seq < t.seq else s.expiry < t.expiry))

lemma less_iff {s t : FakeTimer} :
    s.Less t ↔ s.expiry < t.expiry ∨ s.expiry = t.expiry ∧ s.seq < t.seq := by
  unfold Less
  split_ifs with h <;> omega

lemma less_trans (s t u : FakeTimer) (hst : s.Less t) (htu : t.Less u) : s.Less u := by
  rw [less_iff] at *
  omega

end FakeTimer

/-- `Fake`. -/
structure Fake where
  now : ℤ := 0
  seq : ℕ := 0
  timers : PriorityQueue FakeTimer.Less := .empty
  /-- The timers that are not in the heap. -/
  idle : List FakeTimer := []
  /-- The number of timers there are. -/
  created : ℕ := 0
  /-- Every timer in the heap has a number that was given out. -/
  numbered : ∀ t ∈ timers.items, t.seq ≤ seq := by exact fun _ ht => by cases ht

/-- The send on the channel of a timer: when, and under which registration. -/
structure Fire where
  id : ℕ
  fireAt : ℤ
  seq : ℕ
  deriving DecidableEq, Repr

/-- What a timer in the heap will send. -/
def FakeTimer.fire (t : FakeTimer) : Fire := { id := t.id, fireAt := t.expiry, seq := t.seq }

/-- `NewFake`. -/
def newFake : Fake := {}

namespace Fake

/-! ## The heap -/

lemma comparable (f : Fake) {t : FakeTimer} (ht : t.seq = f.seq + 1) :
    ∀ y ∈ f.timers.items, t.Less y ∨ y.Less t := by
  intro y hy
  have hseq := f.numbered y hy
  rw [FakeTimer.less_iff, FakeTimer.less_iff]
  omega

/-- A timer gets its expiry and the next number, and is pushed on the heap. -/
def register (f : Fake) (t : FakeTimer) (expiry : ℤ) : Fake :=
  let t' := { t with expiry := expiry, seq := f.seq + 1 }
  { f with
    seq := f.seq + 1
    timers := f.timers.push FakeTimer.less_trans t' (f.comparable rfl)
    numbered := fun y hy => by
      rcases PriorityQueue.mem_push.mp hy with rfl | hy
      · exact Nat.le_refl _
      · exact (f.numbered y hy).trans (Nat.le_succ _) }

lemma register_items (f : Fake) (t : FakeTimer) (expiry : ℤ) :
    (f.register t expiry).timers.items.Perm
      ({ t with expiry := expiry, seq := f.seq + 1 } :: f.timers.items) :=
  List.perm_orderedInsert _ _ _

/-- `heap.Pop`. -/
def pop (f : Fake) : Fake :=
  { f with
    timers := f.timers.pop
    numbered := fun t ht => f.numbered t (List.mem_of_mem_tail ht) }

/-- `heap.Remove`, and the timer is nowhere until it is put somewhere again. -/
def detach (f : Fake) (id : ℕ) : Fake :=
  { f with
    timers := f.timers.remove fun t => t.id == id
    idle := f.idle.filter fun t => !(t.id == id)
    numbered := fun t ht => f.numbered t (List.mem_of_mem_filter ht) }

def park (f : Fake) (t : FakeTimer) : Fake := { f with idle := t :: f.idle }

/-- The timer of a handle, and whether it is in the heap; `none` if no such handle was given
out. -/
def lookup (f : Fake) (id : ℕ) : Option (FakeTimer × Bool) :=
  match f.timers.items.find? fun t => t.id == id with
  | some t => some (t, true)
  | none => (f.idle.find? fun t => t.id == id).map fun t => (t, false)

/-! ## The calls -/

/-- `NewTimer`, and `After`. -/
def newTimer (f : Fake) (d : ℤ) : Fake :=
  register { f with created := f.created + 1 } { id := f.created } (f.now + d)

/-- `NewTicker`; `none` is the panic on an interval that is not positive. -/
def newTicker (f : Fake) (d : ℤ) : Option Fake :=
  if d ≤ 0 then none
  else
    some (register { f with created := f.created + 1 } { id := f.created, period := d } (f.now + d))

/-- `Stop` of a timer. -/
def timerStop (f : Fake) (id : ℕ) : Bool × Fake :=
  match f.lookup id with
  | none => (false, f)
  | some (t, inHeap) =>
      if t.stopped then (false, f)
      else if inHeap then (true, (f.detach id).park { t with stopped := true })
      else (false, (f.detach id).park { t with stopped := true })

/-- `Reset` of a timer. -/
def timerReset (f : Fake) (id : ℕ) (d : ℤ) : Bool × Fake :=
  match f.lookup id with
  | none => (false, f)
  | some (t, wasActive) =>
      (wasActive, (f.detach id).register { t with stopped := false, period := 0 } (f.now + d))

/-- `Stop` of a ticker. -/
def tickerStop (f : Fake) (id : ℕ) : Fake :=
  match f.lookup id with
  | none => f
  | some (t, _) => if t.stopped then f else (f.detach id).park { t with stopped := true }

/-- The body of the loop in `Advance`, with the timer `t` that `heap.Pop` returns. -/
def fireTop (f : Fake) (t : FakeTimer) : List Fire × Fake :=
  if t.stopped then ([], f.pop.park t)
  else
    let fireAt := t.expiry
    let f := { f.pop with now := fireAt }
    if 0 < t.period ∧ t.stopped = false then ([t.fire], f.register t (fireAt + t.period))
    else ([t.fire], f.park t)

/-- One round of the loop; `none` is its end. -/
def fireNext (deadline : ℤ) (f : Fake) : Option (List Fire × Fake) :=
  match f.timers.items with
  | [] => none
  | top :: _ => if deadline < top.expiry then none else some (f.fireTop top)

/-- The rounds a timer is good for until `deadline`. -/
def rounds (deadline : ℤ) (t : FakeTimer) : ℕ :=
  if deadline < t.expiry then 0
  else if 0 < t.period then ((deadline - t.expiry) / t.period).toNat + 1
  else 1

def remaining (deadline : ℤ) (f : Fake) : ℕ := (f.timers.items.map (rounds deadline)).sum

/-- `Advance`: what it fires, and the clock after it.  `none` would be a loop that takes more
rounds than the timers in the heap are good for. -/
def advance (f : Fake) (d : ℤ) : Option (List Fire × Fake) :=
  let deadline := f.now + d
  (Loop.run (fireNext deadline) (f.remaining deadline + 1) f).map fun r =>
    (r.1, { r.2 with now := deadline })

end Fake

/-! ## Sequences of calls -/

inductive Call
  | newTimer (d : ℤ)
  | newTicker (d : ℤ)
  | timerStop (id : ℕ)
  | timerReset (id : ℕ) (d : ℤ)
  | tickerStop (id : ℕ)
  | advance (d : ℤ)
  deriving DecidableEq, Repr

/-- The clock after a call.  A panic of `NewTicker` leaves it as it is. -/
def Fake.exec (f : Fake) : Call → Fake
  | .newTimer d => f.newTimer d
  | .newTicker d => (f.newTicker d).getD f
  | .timerStop id => (f.timerStop id).2
  | .timerReset id d => (f.timerReset id d).2
  | .tickerStop id => f.tickerStop id
  | .advance d => ((f.advance d).map Prod.snd).getD f

/-- The clock after some calls. -/
def after (calls : List Call) : Fake := calls.foldl Fake.exec newFake

end Clock

end ToyRaft
