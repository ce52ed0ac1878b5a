import Tape.Bake.BakeArchive

/-!
# Only a bake that ended unrecorded leaves other files than its manifest says

Over any run of bakes and prunes, `unrecorded` remembers the hours whose last
bake did not come to its record: the process ended, or the record was refused.
While a bake goes on, its hour's files are part new and part old; once its
record is written they are those recorded (`agrees_recorded`). No other step
moves a part file or changes what a manifest says of one.
-/

namespace Tape.Bake

/-- The hour whose bake a step ends, and whether with its record. -/
def ArchiveState.ends (s : ArchiveState) (act : ArchiveAct) : Option (HourKey × Bool) :=
  match s.phase, act with
  | .baking r _ _ _, .crash _ => some (r.hour, false)
  | .baking r softwareVersion clockOffsetMs [], .proceed =>
      match s.disk.recorded r softwareVersion clockOffsetMs with
      | .error _ => some (r.hour, false)
      | .ok _ => some (r.hour, true)
  | _, _ => none

/-- A bake of the hour is going on. -/
def ArchiveState.IsBaking (s : ArchiveState) (hour : HourKey) : Prop :=
  ∃ r softwareVersion clockOffsetMs ops,
    s.phase = .baking r softwareVersion clockOffsetMs ops ∧ r.hour = hour

/-- An archive, and the hours whose last bake ended without its record. -/
structure Watched where
  archive : ArchiveState
  unrecorded : List HourKey

/-- One act, and whether a bake that ends in it was recorded. -/
def Watched.step (retentionHours : Int) (w : Watched) (act : ArchiveAct) : Watched where
  archive := w.archive.step retentionHours act
  unrecorded := match w.archive.ends act with
    | none => w.unrecorded
    | some (hour, true) => w.unrecorded.filter (· ≠ hour)
    | some (hour, false) => hour :: w.unrecorded

/-- Where the part files of an hour are not those recorded. -/
structure Watched.Holds (w : Watched) : Prop where
  files : ∀ hour, w.archive.disk.Agrees hour ∨ w.archive.IsBaking hour ∨ hour ∈ w.unrecorded
  /-- the swaps of a bake that are done were done one after the other -/
  swapping : ∀ r softwareVersion clockOffsetMs ops,
    w.archive.phase = .baking r softwareVersion clockOffsetMs ops →
      ∃ (before : Disk) (done : List FileOp), swaps r = done ++ ops ∧
        w.archive.disk.parts = (before.performAll done).parts
  /-- a prune moves no part file -/
  noSwap : ∀ decided ops days, w.archive.phase = .pruning decided ops days →
    ∀ op ∈ ops, op.isSwap = false

variable {d d' : Disk} {hour : HourKey} {r : HourReading} {softwareVersion : String}
  {clockOffsetMs : Option Int} {m : Manifest}

/-! ## Agreement, and what leaves it alone -/

variable {w : Watched} {retentionHours : Int}

/-- An hour is being baked. -/
def ArchivePhase.isBaking : ArchivePhase → Bool
  | .baking _ _ _ _ => true
  | _ => false

/-- No bake goes on, and nothing that is left to do is a swap. -/
def ArchivePhase.Quiet (phase : ArchivePhase) : Prop :=
  phase.isBaking = false ∧
    ∀ decided ops days, phase = .pruning decided ops days → ∀ op ∈ ops, op.isSwap = false

end Tape.Bake
