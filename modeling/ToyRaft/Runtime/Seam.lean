import ToyRaft.Runtime.Applier

/-!
# The synchronous test driver (`driver_testseam.go`)

`TickForTest` and `DrainForTest` run the work of the driver and of the applier on the
caller's goroutine: `Ready`, `SaveHardState` and the sends as in `flush`, and then
`applyCommittedForTest`, which reads each committed entry back from the storage and calls
`applyOne` on it, without the apply channel between the two.

A `Seam` is a host under that driver.  It shares with `Host` everything but the two loops it
replaces: `applyBegin` is the head of the loop of `applyCommittedForTest`, `applyNext` one
iteration of it up to the return of `Apply`, and the rest of `applyOne` is the host's own.
Other goroutines may call `Step` and `Propose` meanwhile.
-/

namespace ToyRaft

/-- A host under the synchronous driver. -/
structure Seam (ρ : Type) where
  host : Host ρ
  /-- The loop of `applyCommittedForTest`: the next index, and the commit index it read. -/
  loop : Option (ℕ × ℕ) := none

/-- The atomic steps of a host under the synchronous driver. -/
inductive Drive (ρ : Type)
  /-- What it shares with a host on its own goroutines. -/
  | act (a : Act ρ)
  /-- `applyCommittedForTest`: read the commit index. -/
  | applyBegin
  /-- One iteration of its loop: read an entry back and call `Apply` on it. -/
  | applyNext (out : ApplyOutcome ρ) (err : Bool)

/-- No write to the log fails in this step. -/
def Drive.logFaultless {ρ : Type} : Drive ρ → Bool
  | .act a => a.logFaultless
  | _ => true

/-- The message this step takes from the network. -/
def Drive.inbound {ρ : Type} : Drive ρ → Option Message
  | .act a => a.inbound
  | _ => none

namespace Seam

variable {ρ : Type}

/-- The acts of the driver and applier goroutines do not exist here, and a new `Ready` waits
for the loop to end. -/
def admits (s : Seam ρ) : Act ρ → Bool
  | .drainBegin | .drain _ | .applyCall _ => false
  | .ready => s.loop.isNone
  | _ => true

/-- Execute one step: the new state and the messages handed to the transport. -/
def drive (cfg : Config) (s : Seam ρ) : Drive ρ → Seam ρ × List Message
  | .act a =>
      if s.admits a then
        ({ host := (s.host.act cfg a).1
           loop := if s.host.reboots cfg a then none else s.loop },
          (s.host.act cfg a).2)
      else (s, [])
  | .applyBegin =>
      match s.host.crashed, s.host.flush, s.loop with
      | false, .sending [], none =>
          ({ host := { s.host with flush := .idle }
             loop := some (s.host.appliedIdx + 1, s.host.node.commitIndex) }, [])
      | _, _, _ => (s, [])
  | .applyNext out err =>
      match s.host.crashed, s.loop, s.host.applier with
      | false, some (i, ci), .idle =>
          if ci < i then ({ s with loop := none }, [])
          else
            match faulty err (s.host.node.storage.getEntries i (i + 1)) with
            | .ok (e :: _) =>
                ({ host := { s.host with applier := .applied e out }, loop := some (i + 1, ci) },
                  [])
            | _ => ({ s with loop := none }, [])
      | _, _, _ => (s, [])

/-- The entry handed to `StateMachine.Apply` in this step. -/
def applies (s : Seam ρ) : Drive ρ → Option Entry
  | .applyNext _ err =>
      match s.host.crashed, s.loop, s.host.applier with
      | false, some (i, ci), .idle =>
          if ci < i then none
          else
            match faulty err (s.host.node.storage.getEntries i (i + 1)) with
            | .ok (e :: _) => some e
            | _ => none
      | _, _, _ => none
  | _ => none

/-- The step ends a lifetime and begins another. -/
def reboots (cfg : Config) (s : Seam ρ) : Drive ρ → Bool
  | .act a => s.admits a && s.host.reboots cfg a
  | _ => false

/-- What a step of the synchronous driver can do. -/
inductive DriveMove (cfg : Config) (s : Seam ρ) (d : Drive ρ) (s' : Seam ρ)
    (sent : List Message) : Prop
  | same (hre : s.reboots cfg d = false) (happ : s.applies d = none) (heq : s' = s)
      (hsent : sent = [])
  | shared (a : Act ρ) (ha : d = .act a) (hadm : s.admits a = true)
      (hhost : s'.host = (s.host.act cfg a).1)
      (hloop : s'.loop = if s.host.reboots cfg a then none else s.loop)
      (hsent : sent = (s.host.act cfg a).2)
  | begun (hre : s.reboots cfg d = false) (happ : s.applies d = none)
      (hf : s.host.flush = .sending []) (hold : s.loop = none)
      (hhost : s'.host = { s.host with flush := .idle })
      (hloop : s'.loop = some (s.host.appliedIdx + 1, s.host.node.commitIndex))
      (hsent : sent = [])
  | applying (e : Entry) (out : ApplyOutcome ρ) (i ci : ℕ) (hre : s.reboots cfg d = false)
      (happ : s.applies d = some e) (hidle : s.host.applier = .idle)
      (hold : s.loop = some (i, ci)) (hle : i ≤ ci)
      (he : i ≠ 0 → s.host.node.storage.entries[i - 1]? = some e)
      (hhost : s'.host = { s.host with applier := .applied e out })
      (hloop : s'.loop = some (i + 1, ci)) (hsent : sent = [])
  | ended (hre : s.reboots cfg d = false) (happ : s.applies d = none)
      (hidle : s.host.applier = .idle) (hhost : s'.host = s.host) (hloop : s'.loop = none)
      (hsent : sent = [])

lemma driveMove_applyNext (cfg : Config) (s : Seam ρ) (out : ApplyOutcome ρ) (err : Bool) :
    DriveMove cfg s (.applyNext out err) (s.drive cfg (.applyNext out err)).1
      (s.drive cfg (.applyNext out err)).2 := by
  unfold drive
  dsimp only
  split
  · rename_i i ci hrun hloop hidle
    split_ifs with hlt
    · exact .ended rfl (by simp [applies, hrun, hloop, hidle, hlt]) hidle rfl rfl rfl
    · cases hget : faulty err (s.host.node.storage.getEntries i (i + 1)) with
      | error err =>
          exact .ended rfl (by simp [applies, hrun, hloop, hidle, hget]) hidle rfl rfl rfl
      | ok es =>
          cases es with
          | nil =>
              exact .ended rfl (by simp [applies, hrun, hloop, hidle, hget]) hidle rfl rfl rfl
          | cons e es =>
              refine .applying e out i ci rfl ?_ hidle hloop (by omega) (fun hi => ?_) rfl rfl rfl
              · simp only [applies, hrun, hloop, hidle, if_neg hlt, hget]
              · obtain ⟨-, hread⟩ := Storage.faulty_eq_ok hget
                rw [Storage.getEntries_single hi] at hread
                cases he : s.host.node.storage.entries[i - 1]? with
                | none =>
                    rw [he] at hread
                    cases hread
                | some e' =>
                    rw [he] at hread
                    cases hread
                    rfl
  · rename_i hnone
    refine .same rfl ?_ rfl rfl
    rw [applies]
    split
    · rename_i i ci hrun hloop hidle
      exact (hnone i ci hrun hloop hidle).elim
    · rfl

/-- Every step is one of these moves. -/
theorem driveMove_of_drive (cfg : Config) (s : Seam ρ) (d : Drive ρ) :
    DriveMove cfg s d (s.drive cfg d).1 (s.drive cfg d).2 := by
  cases d with
  | act a =>
      unfold drive
      dsimp only
      split_ifs with hadm hre
      · exact .shared a rfl hadm rfl (by rw [if_pos hre]) rfl
      · exact .shared a rfl hadm rfl (by rw [if_neg hre]) rfl
      · exact .same (by simp [reboots, hadm]) rfl rfl rfl
  | applyBegin =>
      unfold drive
      dsimp only
      split
      · rename_i hf hloop
        exact .begun rfl rfl hf hloop rfl rfl rfl
      · exact .same rfl rfl rfl rfl
  | applyNext out err => exact driveMove_applyNext cfg s out err

end Seam

end ToyRaft
