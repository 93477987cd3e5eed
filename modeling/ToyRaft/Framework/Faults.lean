import Mathlib.Data.List.Basic

/-!
# Programs whose calls can fail or never return

A `Prog σ ε α` transforms a state by calls into the outside world.  Each call has a `Fate`,
given from outside as a list: it succeeds, it fails, or the process dies before it is made.
A list that has run out lets every further call succeed, so a program is a total function
and a statement about every list of fates is a statement about every way it can go.

`wp F m Q E R s` is the weakest precondition of `m` at `s` when the fates are drawn from `F`:
`Q` holds if `m` returns, `E` if it returns an error, and `R` of the state it leaves behind
if it dies.  There is one rule for each way to build a program.
-/

namespace ToyRaft

/-- What becomes of one call. -/
inductive Fate
  | ok
  /-- The call fails.  A call that would have written something has written `n` bytes of it. -/
  | fail (n : ℕ)
  /-- The process dies before it makes the call. -/
  | die
  deriving DecidableEq, Repr

/-- Fates with which no call fails; the process may still die. -/
def Faultless (F : Fate → Prop) : Prop := ∀ n, ¬ F (.fail n)

/-- The process may die, but no call fails. -/
def Fate.Mortal (f : Fate) : Prop := f = .ok ∨ f = .die

lemma faultless_quiet : Faultless (· = .ok) := fun _ h => by cases h

lemma faultless_mortal : Faultless Fate.Mortal := fun _ h => by
  rcases h with h | h <;> cases h

/-- How a program ends. -/
inductive Outcome (ε α : Type)
  | ok (a : α)
  | error (e : ε)
  | died
  deriving DecidableEq, Repr

/-- A program with states in `σ`, errors in `ε` and results in `α`. -/
def Prog (σ ε α : Type) : Type := σ → List Fate → Outcome ε α × σ × List Fate

namespace Prog

variable {σ ε ε' α β : Type}

protected def pure (a : α) : Prog σ ε α := fun s fs => (.ok a, s, fs)

protected def bind (m : Prog σ ε α) (k : α → Prog σ ε β) : Prog σ ε β := fun s fs =>
  match m s fs with
  | (.ok a, s', fs') => k a s' fs'
  | (.error e, s', fs') => (.error e, s', fs')
  | (.died, s', fs') => (.died, s', fs')

instance : Monad (Prog σ ε) where
  pure := Prog.pure
  bind := Prog.bind

def throw (e : ε) : Prog σ ε α := fun s fs => (.error e, s, fs)

def get : Prog σ ε σ := fun s fs => (.ok s, s, fs)

def modify (f : σ → σ) : Prog σ ε Unit := fun s fs => (.ok (), f s, fs)

/-- The effect of a call that is made. -/
def effect (f : σ → Except ε (α × σ)) (s : σ) (fs : List Fate) : Outcome ε α × σ × List Fate :=
  match f s with
  | .ok (a, s') => (.ok a, s', fs)
  | .error e => (.error e, s, fs)

/-- One call.  `f` is its effect, and `broken n` what is left of it when it fails with
error `e`. -/
def call (f : σ → Except ε (α × σ)) (e : ε) (broken : ℕ → σ → σ) : Prog σ ε α := fun s fs =>
  match fs with
  | .die :: fs' => (.died, s, fs')
  | .fail n :: fs' => (.error e, broken n s, fs')
  | .ok :: fs' => effect f s fs'
  | [] => effect f s []

/-- Run a program and return its error as a value. -/
def attempt (m : Prog σ ε α) : Prog σ ε' (Except ε α) := fun s fs =>
  match m s fs with
  | (.ok a, s', fs') => (.ok (.ok a), s', fs')
  | (.error e, s', fs') => (.ok (.error e), s', fs')
  | (.died, s', fs') => (.died, s', fs')

/-- Return another error in the place of every error of `m`. -/
def orFail (m : Prog σ ε α) (e : ε') : Prog σ ε' α := fun s fs =>
  match m s fs with
  | (.ok a, s', fs') => (.ok a, s', fs')
  | (.error _, s', fs') => (.error e, s', fs')
  | (.died, s', fs') => (.died, s', fs')

/-- If `m` fails, clean up with `c`, whatever comes of it, and return error `e`. -/
def orClean (m : Prog σ ε α) (c : Prog σ ε Unit) (e : ε') : Prog σ ε' α := fun s fs =>
  match m s fs with
  | (.ok a, s', fs') => (.ok a, s', fs')
  | (.error _, s', fs') =>
      match c s' fs' with
      | (.died, s'', fs'') => (.died, s'', fs'')
      | (_, s'', fs'') => (.error e, s'', fs'')
  | (.died, s', fs') => (.died, s', fs')

/-- Run a program none of whose calls fails. -/
def run (m : Prog σ ε α) (s : σ) : Outcome ε α × σ := ((m s []).1, (m s []).2.1)

/-! ## The weakest precondition -/

/-- What is asked of the end of a run.  A program dies only where its fates allow it. -/
def Ends (F : Fate → Prop) (Q : α → σ → Prop) (E : ε → σ → Prop) (R : σ → Prop)
    (r : Outcome ε α × σ × List Fate) : Prop :=
  (∀ f ∈ r.2.2, F f) ∧
    match r.1 with
    | .ok a => Q a r.2.1
    | .error e => E e r.2.1
    | .died => F .die ∧ R r.2.1

/-- The weakest precondition for fates in `F`. -/
def wp (F : Fate → Prop) (m : Prog σ ε α) (Q : α → σ → Prop) (E : ε → σ → Prop) (R : σ → Prop)
    (s : σ) : Prop :=
  ∀ fs : List Fate, (∀ f ∈ fs, F f) → Ends F Q E R (m s fs)

section Rules

variable {F : Fate → Prop} {Q Q' : α → σ → Prop} {E E' : ε → σ → Prop} {R R' : σ → Prop} {s : σ}

lemma wp_pure {a : α} (h : Q a s) : wp F (pure a : Prog σ ε α) Q E R s :=
  fun _ hfs => ⟨hfs, h⟩

lemma wp_throw {e : ε} (h : E e s) : wp F (throw e : Prog σ ε α) Q E R s :=
  fun _ hfs => ⟨hfs, h⟩

lemma wp_modify {Q : Unit → σ → Prop} {f : σ → σ} (h : Q () (f s)) :
    wp F (modify f : Prog σ ε Unit) Q E R s :=
  fun _ hfs => ⟨hfs, h⟩

lemma wp_mono {m : Prog σ ε α} (h : wp F m Q E R s) (hQ : ∀ a s', Q a s' → Q' a s')
    (hE : ∀ e s', E e s' → E' e s') (hR : ∀ s', R s' → R' s') : wp F m Q' E' R' s := by
  intro fs hfs
  obtain ⟨hrest, hm⟩ := h fs hfs
  refine ⟨hrest, ?_⟩
  split at hm
  · exact hQ _ _ hm
  · exact hE _ _ hm
  · exact ⟨hm.1, hR _ hm.2⟩

lemma wp_bind {m : Prog σ ε α} {k : α → Prog σ ε β} {Q : β → σ → Prop}
    (h : wp F m (fun a s' => wp F (k a) Q E R s') E R s) : wp F (m >>= k) Q E R s := by
  intro fs hfs
  obtain ⟨hrest, hm⟩ := h fs hfs
  show Ends F Q E R (Prog.bind m k s fs)
  unfold Prog.bind
  rcases hms : m s fs with ⟨_ | _ | _, s', fs'⟩ <;> rw [hms] at hm hrest
  · exact hm fs' hrest
  · exact ⟨hrest, hm⟩
  · exact ⟨hrest, hm⟩

lemma wp_call {f : σ → Except ε (α × σ)} {e : ε} {broken : ℕ → σ → σ}
    (hok : ∀ a s', f s = .ok (a, s') → Q a s') (herr : ∀ e', f s = .error e' → E e' s)
    (hfail : ∀ n, F (.fail n) → E e (broken n s)) (hdie : F .die → R s) :
    wp F (call f e broken) Q E R s := by
  have hmade : ∀ fs : List Fate, (∀ x ∈ fs, F x) → Ends F Q E R (effect f s fs) := by
    intro fs hfs
    unfold effect
    split
    · exact ⟨hfs, hok _ _ (by assumption)⟩
    · exact ⟨hfs, herr _ (by assumption)⟩
  intro fs hfs
  match fs, hfs with
  | [], hfs => exact hmade [] hfs
  | .ok :: rest, hfs => exact hmade rest fun x hx => hfs x (List.mem_cons_of_mem _ hx)
  | .fail n :: rest, hfs =>
      exact ⟨fun x hx => hfs x (List.mem_cons_of_mem _ hx), hfail n (hfs _ List.mem_cons_self)⟩
  | .die :: rest, hfs =>
      have hmem : F .die := hfs _ List.mem_cons_self
      exact ⟨fun x hx => hfs x (List.mem_cons_of_mem _ hx), hmem, hdie hmem⟩

lemma wp_attempt {m : Prog σ ε α} {Q : Except ε α → σ → Prop} {E : ε' → σ → Prop}
    (h : wp F m (fun a s' => Q (.ok a) s') (fun e s' => Q (.error e) s') R s) :
    wp F (attempt m : Prog σ ε' _) Q E R s := by
  intro fs hfs
  obtain ⟨hrest, hm⟩ := h fs hfs
  unfold attempt
  rcases hms : m s fs with ⟨_ | _ | _, s', fs'⟩ <;> rw [hms] at hm hrest <;> exact ⟨hrest, hm⟩

lemma wp_orFail {m : Prog σ ε α} {e : ε'} {E : ε' → σ → Prop}
    (h : wp F m Q (fun _ s' => E e s') R s) : wp F (orFail m e) Q E R s := by
  intro fs hfs
  obtain ⟨hrest, hm⟩ := h fs hfs
  unfold orFail
  rcases hms : m s fs with ⟨_ | _ | _, s', fs'⟩ <;> rw [hms] at hm hrest <;> exact ⟨hrest, hm⟩

lemma wp_orClean {m : Prog σ ε α} {c : Prog σ ε Unit} {e : ε'} {E : ε' → σ → Prop}
    (h : wp F m Q (fun _ s' => wp F c (fun _ s'' => E e s'') (fun _ s'' => E e s'') R s') R s) :
    wp F (orClean m c e) Q E R s := by
  intro fs hfs
  obtain ⟨hrest, hm⟩ := h fs hfs
  unfold orClean
  rcases hms : m s fs with ⟨_ | _ | _, s', fs'⟩ <;> rw [hms] at hm hrest
  · exact ⟨hrest, hm⟩
  · obtain ⟨hrest', hc⟩ := hm fs' hrest
    dsimp only
    rcases hcs : c s' fs' with ⟨_ | _ | _, s'', fs''⟩ <;> rw [hcs] at hc hrest' <;>
      exact ⟨hrest', hc⟩
  · exact ⟨hrest, hm⟩

lemma wp_trivial {m : Prog σ ε α} :
    wp (fun _ => True) m (fun _ _ => True) (fun _ _ => True) (fun _ => True) s := by
  intro fs _
  refine ⟨fun _ _ => trivial, ?_⟩
  split
  · trivial
  · trivial
  · exact ⟨trivial, trivial⟩

/-- What holds when a program has failed. -/
lemma error_of_wp {m : Prog σ ε α} (h : wp (fun _ => True) m Q E R s) {fs fs' : List Fate} {e : ε}
    {s' : σ} (hrun : m s fs = (.error e, s', fs')) : E e s' := by
  obtain ⟨-, hend⟩ := h fs fun _ _ => trivial
  rw [hrun] at hend
  exact hend

/-- What a program gives when none of its calls fails and it does not die. -/
lemma run_of_wp {m : Prog σ ε α} (h : wp (· = .ok) m Q E R s) :
    (∃ a s', m.run s = (.ok a, s') ∧ Q a s') ∨ ∃ e s', m.run s = (.error e, s') ∧ E e s' := by
  obtain ⟨-, hm⟩ := h [] (by simp)
  unfold run
  rcases hms : m s [] with ⟨_ | _ | _, s', fs'⟩ <;> rw [hms] at hm
  · exact .inl ⟨_, _, rfl, hm⟩
  · exact .inr ⟨_, _, rfl, hm⟩
  · cases hm.1

end Rules

/-! ## Step by step

What a program does with given fates, one call after the other. -/

section Steps

variable {m : Prog σ ε α} {k : α → Prog σ ε β} {c : Prog σ ε Unit} {a : α} {e : ε} {e' : ε'}
  {s s' s'' : σ} {fs fs' fs'' : List Fate}

lemma bind_ok (h : m s fs = (.ok a, s', fs')) : (m >>= k) s fs = k a s' fs' := by
  show Prog.bind m k s fs = _
  rw [Prog.bind, h]

lemma bind_error (h : m s fs = (.error e, s', fs')) : (m >>= k) s fs = (.error e, s', fs') := by
  show Prog.bind m k s fs = _
  rw [Prog.bind, h]

lemma attempt_ok (h : m s fs = (.ok a, s', fs')) :
    (attempt m : Prog σ ε' _) s fs = (.ok (.ok a), s', fs') := by
  rw [attempt, h]

lemma attempt_error (h : m s fs = (.error e, s', fs')) :
    (attempt m : Prog σ ε' _) s fs = (.ok (.error e), s', fs') := by
  rw [attempt, h]

lemma orFail_ok (h : m s fs = (.ok a, s', fs')) : orFail m e' s fs = (.ok a, s', fs') := by
  rw [orFail, h]

lemma orFail_error (h : m s fs = (.error e, s', fs')) :
    orFail m e' s fs = (.error e', s', fs') := by
  rw [orFail, h]

lemma orClean_ok (h : m s fs = (.ok a, s', fs')) : orClean m c e' s fs = (.ok a, s', fs') := by
  rw [orClean, h]

lemma orClean_error (h : m s fs = (.error e, s', fs')) (hc : c s' fs' = (.ok (), s'', fs'')) :
    orClean m c e' s fs = (.error e', s'', fs'') := by
  rw [orClean, h]
  dsimp only
  rw [hc]

end Steps

/-! ## Invariants

A program keeps `I` if `I` holds wherever it stops, whatever becomes of its calls; what it returns
then has the property `V`. -/

def Keeps (I : σ → Prop) (V : α → Prop) (m : Prog σ ε α) : Prop :=
  ∀ s, I s → m.wp (fun _ => True) (fun a s' => V a ∧ I s') (fun _ => I) I s

section Keeps

variable {I : σ → Prop} {V : α → Prop} {m : Prog σ ε α}

lemma keeps_pure {a : α} (h : V a) : Keeps I V (pure a : Prog σ ε α) :=
  fun _ hs => wp_pure ⟨h, hs⟩

lemma keeps_throw {e : ε} : Keeps I V (throw e : Prog σ ε α) :=
  fun _ hs => wp_throw hs

lemma keeps_modify {f : σ → σ} (h : ∀ s, I s → I (f s)) :
    Keeps I (fun _ => True) (modify f : Prog σ ε Unit) :=
  fun s hs => wp_modify ⟨trivial, h s hs⟩

lemma Keeps.bind {V' : β → Prop} {k : α → Prog σ ε β} (hm : Keeps I V m)
    (hk : ∀ a, V a → Keeps I V' (k a)) : Keeps I V' (m >>= k) := fun s hs =>
  wp_bind (wp_mono (hm s hs) (fun a s' h => hk a h.1 s' h.2) (fun _ _ h => h) fun _ h => h)

lemma keeps_call {f : σ → Except ε (α × σ)} {e : ε} {broken : ℕ → σ → σ}
    (hok : ∀ s a s', I s → f s = .ok (a, s') → V a ∧ I s') (hbroken : ∀ n s, I s → I (broken n s)) :
    Keeps I V (call f e broken) := fun s hs =>
  wp_call (fun a s' h => hok s a s' hs h) (fun _ _ => hs) (fun n _ => hbroken n s hs) fun _ => hs

lemma Keeps.attempt (h : Keeps I V m) :
    Keeps I (fun r => ∀ a, r = .ok a → V a) (attempt m : Prog σ ε' (Except ε α)) := by
  intro s hs
  refine wp_attempt (wp_mono (h s hs) (fun a s' ha => ⟨fun b hb => ?_, ha.2⟩)
    (fun e s' he => ⟨fun b hb => (by cases hb), he⟩) fun _ h => h)
  cases hb
  exact ha.1

lemma Keeps.orFail (h : Keeps I V m) (e : ε') : Keeps I V (orFail m e) := fun s hs =>
  wp_orFail (h s hs)

lemma Keeps.orClean (h : Keeps I V m) {c : Prog σ ε Unit} (hc : Keeps I (fun _ => True) c)
    (e : ε') : Keeps I V (orClean m c e) := fun s hs =>
  wp_orClean (wp_mono (h s hs) (fun _ _ h => h)
    (fun _ s' hs' => wp_mono (hc s' hs') (fun _ _ h => h.2) (fun _ _ h => h) fun _ h => h)
    fun _ h => h)

lemma Keeps.weaken {V' : α → Prop} (h : Keeps I V m) (hV : ∀ a, V a → V' a) : Keeps I V' m :=
  fun s hs => wp_mono (h s hs) (fun a _ ha => ⟨hV a ha.1, ha.2⟩) (fun _ _ h => h) fun _ h => h

/-- A program that keeps `I`, before one that keeps it if it fails. -/
lemma Keeps.wp_bind {Q : β → σ → Prop} {k : α → Prog σ ε β} (hm : Keeps I V m) {s : σ} (hs : I s)
    (hk : ∀ a s', V a → I s' → wp (fun _ => True) (k a) Q (fun _ => I) (fun _ => True) s') :
    wp (fun _ => True) (m >>= k) Q (fun _ => I) (fun _ => True) s :=
  Prog.wp_bind (wp_mono (hm s hs) (fun a s' h => hk a s' h.1 h.2) (fun _ _ h => h)
    fun _ _ => trivial)

/-- The state a program leaves, however it ends. -/
lemma Keeps.state (h : Keeps I V m) {s : σ} (hs : I s) (fs : List Fate) : I (m s fs).2.1 := by
  obtain ⟨-, hm⟩ := h s hs fs fun _ _ => trivial
  rcases hms : m s fs with ⟨_ | _ | _, s', fs'⟩ <;> rw [hms] at hm
  · exact hm.2
  · exact hm
  · exact hm.2

end Keeps

end Prog

end ToyRaft
