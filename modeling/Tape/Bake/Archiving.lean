import Tape.Bake.Repair

/-!
# Runs of bakes and prunes

One archive, its lock held by one run at a time: a bake of an hour with the
record of it, or a survey with what `apply` does about it. In between and
meanwhile raw segments appear and are written to, and a run may stop between any
two file operations. What a survey is told need not have been true all at once:
each answer was true at some moment since it began.

`unlinked` is no part of the archive. It remembers each segment that was
deleted, with the file it was and the disk it was decided on.
-/

namespace Tape.Bake

/-! ## What a prune does -/

/-- The days of the prunable decisions, in order, each with its decisions. -/
def pruneDays (decisions : List PruneDecision) : List (Date × List PruneDecision) :=
  let chosen := decisions.filter fun decision => decision.prunable ∧ decision.segments ≠ []
  let dates := Sorted.sortOn Date.ordinal (chosen.map fun decision => decision.hour.date).dedup
  dates.map fun date => (date, chosen.filter fun decision => decision.hour.date = date)

/-- The record of one deletion; a segment without its hash was not verified. -/
def pruneRecord (prunedWallNs : Int) (segment : SegmentOnDisk) :
    Except String PrunedSegment :=
  match segment.sha256 with
  | none => .error segment.path
  | some sha256 => .ok ⟨segment.path, segment.bytes, sha256, prunedWallNs⟩

/-- A record of each segment that is to be deleted. -/
def pruneRecords (prunedWallNs : Int) (decisions : List PruneDecision) :
    Except String (List PrunedSegment) :=
  readEach (pruneRecord prunedWallNs) (decisions.flatMap PruneDecision.segments)

/-- What `_prune_day` does once the manifest is written. -/
def deletions (records : List PrunedSegment) (decisions : List PruneDecision) : List FileOp :=
  (records.map fun record => .unlink record.path) ++
    decisions.map fun decision => .removeHourDir decision.hour

/-- The manifest `_prune_day` writes, and the deletions that follow; `none` when
it raises. -/
def Disk.pruneDay (d : Disk) (date : Date) (decisions : List PruneDecision)
    (prunedWallNs : Int) : Option (Manifest × List FileOp) :=
  match d.manifest date with
  | none => none
  | some m =>
      match pruneRecords prunedWallNs decisions with
      | .error _ => none
      | .ok records =>
          match withPruned m records with
          | .error _ => none
          | .ok updated => some (updated, deletions records decisions)

/-! ## The archive and its runs -/

/-- What is left to do for the run that holds the lock. -/
inductive ArchivePhase where
  | idle
  | baking (r : HourReading) (softwareVersion : String) (clockOffsetMs : Option Int)
      (ops : List FileOp)
  | surveying (o : PruneOptions) (seen : List Disk)
  | pruning (decided : Disk) (ops : List FileOp) (days : List (Date × List PruneDecision))

/-- A segment that was deleted. -/
structure Unlinked where
  name : String
  file : File
  decided : Disk

/-- The disk, the clock and what is being done to the archive. -/
structure ArchiveState where
  disk : Disk
  clockNs : Int
  /-- The latest the clock ever showed. -/
  latestNs : Int
  phase : ArchivePhase
  unlinked : List Unlinked

/-- What can happen to the archive. -/
inductive ArchiveAct where
  | writeSegment (name : String) (file : File)
  | makeHourDir (hour : HourKey)
  | tick (ns : Int)
  | bake (r : HourReading) (softwareVersion : String) (clockOffsetMs : Option Int)
  | prune
  | decide (answers : Archive DiskError)
  | proceed
  /-- The process ends; of the files set aside some may be gone. -/
  | crash (aside : Dict String File)

namespace ArchiveState

/-- An archive to which nothing is being done. -/
def new (disk : Disk) (clockNs : Int) : ArchiveState :=
  ⟨disk, clockNs, clockNs, .idle, []⟩

/-- The disk changes while a survey may be looking. -/
def observe (s : ArchiveState) (disk : Disk) : ArchiveState :=
  { s with
    disk
    phase := match s.phase with
      | .surveying o seen => .surveying o (seen ++ [disk])
      | phase => phase }

/-- An operation of a prune; what it deletes is remembered. -/
def delete (s : ArchiveState) (decided : Disk) (op : FileOp) : ArchiveState :=
  { s with
    disk := s.disk.perform op
    unlinked := match op with
      | .unlink name =>
          s.unlinked ++ ((s.disk.segments.get? name).map fun file =>
            (⟨name, file, decided⟩ : Unlinked)).toList
      | _ => s.unlinked }

/-- The next step of the run. -/
def proceed (s : ArchiveState) : ArchiveState :=
  match s.phase with
  | .baking r softwareVersion clockOffsetMs (op :: ops) =>
      { s with
        disk := s.disk.perform op
        phase := .baking r softwareVersion clockOffsetMs ops }
  | .baking r softwareVersion clockOffsetMs [] =>
      match s.disk.recorded r softwareVersion clockOffsetMs with
      | .error _ => { s with phase := .idle }
      | .ok m => { s with disk := s.disk.writeManifest m, phase := .idle }
  | .pruning decided (op :: ops) days =>
      { s.delete decided op with phase := .pruning decided ops days }
  | .pruning decided [] ((date, decisions) :: days) =>
      match s.disk.pruneDay date decisions s.clockNs with
      | none => { s with phase := .idle }
      | some (m, ops) =>
          { s with disk := s.disk.writeManifest m, phase := .pruning decided ops days }
  | .pruning _ [] [] => { s with phase := .idle }
  | _ => s

/-- One act, or one step of what is being done. -/
def step (retentionHours : Int) (s : ArchiveState) : ArchiveAct → ArchiveState
  | .writeSegment name file =>
      s.observe { s.disk with segments := s.disk.segments.set name file }
  | .makeHourDir hour => s.observe { s.disk with hourDirs := (hour :: s.disk.hourDirs).dedup }
  | .tick ns => { s with clockNs := ns, latestNs := max s.latestNs ns }
  | .bake r softwareVersion clockOffsetMs =>
      match s.phase with
      | .idle =>
          if mayBake (s.disk.manifest r.hour.date) r.hour then
            { s with phase := .baking r softwareVersion clockOffsetMs (swaps r) }
          else s
      | _ => s
  | .prune =>
      match s.phase with
      | .idle =>
          { s with phase := .surveying ⟨s.clockNs, retentionHours, bakeVersion⟩ [s.disk] }
      | _ => s
  | .decide answers =>
      match s.phase with
      | .surveying o _ =>
          match answers.survey o with
          | .error _ => { s with phase := .idle }
          | .ok decisions => { s with phase := .pruning s.disk [] (pruneDays decisions) }
      | _ => s
  | .proceed => s.proceed
  | .crash aside => { s with disk := { s.disk with aside }, phase := .idle }

end ArchiveState

/-- Each answer was true of the disk at some moment, and a directory lists what
is in it once. -/
structure Archive.Seen (a : Archive DiskError) (seen : List Disk) : Prop where
  hoursOnce : a.rawHours.Nodup
  filesOnce : ∀ hour, (a.segmentFiles hour).Nodup
  segmentFiles : ∀ hour, ∀ name ∈ a.segmentFiles hour, ∃ d ∈ seen, name ∈ d.segmentFiles hour
  segmentSize : ∀ name, ∃ d ∈ seen, a.segmentSize name = d.archive.segmentSize name
  segmentSha256 : ∀ name, ∃ d ∈ seen, a.segmentSha256 name = d.archive.segmentSha256 name
  isPart : ∀ path, ∃ d ∈ seen, a.isPart path = d.archive.isPart path
  partSha256 : ∀ path, ∃ d ∈ seen, a.partSha256 path = d.archive.partSha256 path
  readManifest : ∀ date, ∃ d ∈ seen, a.readManifest date = d.archive.readManifest date

/-- The hour is past the retention window at an instant. -/
def PastWindow (retentionHours : Int) (hour : HourKey) (ns : Int) : Prop :=
  hour.endWallNs + retentionHours * nsPerHour < ns

/-- A segment is new, or its hour was never past the window; and a survey is
told what it saw. -/
def ArchiveState.Admissible (retentionHours : Int) (s : ArchiveState) : ArchiveAct → Prop
  | .writeSegment name _ =>
      s.disk.segments.get? name = none ∨
        ∀ hour, isSegmentOf hour name = true → ¬ PastWindow retentionHours hour s.latestNs
  | .decide answers => ∀ o seen, s.phase = .surveying o seen → answers.Seen seen
  | _ => True

end Tape.Bake
