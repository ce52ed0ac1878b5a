import Tape.Bake.Prune
import Tape.Bake.Readable
import Tape.Run

/-!
# The archive on disk, and the bake of an hour

A `Disk` is what the bake and the prune of an archive look at: the raw
segments, the part files of the baked tables, and the manifests. A run changes
it by file operations, each of which happens whole or not at all. The files of
a directory that is renamed aside are kept apart: no name in a manifest leads to
them, and whether an interrupted removal left some of them makes no difference.

`bake_hour` ends in the swaps of six directories, `record_bake` in the one
write of the manifest. Which hours need a bake is decided from the manifests
and from what is on disk (`hoursToBake`), whatever answers for the disk.
-/

namespace Tape.Bake

/-- A file, as far as the archive looks at it. -/
structure File where
  bytes : Int
  sha256 : String
  deriving DecidableEq, Repr

/-- What is on disk of an archive. -/
structure Disk where
  /-- The hours with a raw directory. -/
  hourDirs : List HourKey
  /-- Raw files, by their names below `raw/`. -/
  segments : Dict String File
  /-- Part files, by their names below `baked/`. -/
  parts : Dict String File
  /-- Part files in directories that were renamed aside, by the names they had. -/
  aside : Dict String File
  manifest : Date → Option Manifest
  /-- A day's manifest was written for that day. -/
  dated : ∀ date m, manifest date = some m → m.date = date

/-- `hour_dir`, below `raw/`. -/
def hourDir (hour : HourKey) : String :=
  hour.date.isoformat ++ "/" ++ hourText hour.hour ++ "/"

/-- `path` is in the directory. -/
def isUnder (directory path : String) : Bool := directory.toList.isPrefixOf path.toList

/-- A segment file directly inside the hour's raw directory. -/
def isSegmentOf (hour : HourKey) (name : String) : Bool :=
  let file := name.toList.drop (hourDir hour).toList.length
  isUnder (hourDir hour) name ∧ '/' ∉ file ∧ ".tape.zst".toList.isSuffixOf file

/-- `partition_dir`, below `baked/`. -/
def partitionDir (name : TableName) (hour : HourKey) : String :=
  partDirectory name hour.date hour.hour

/-- The file is one of the hour's parts. -/
def isPartOf (hour : HourKey) (path : String) : Prop :=
  ∃ name, isUnder (partitionDir name hour) path = true

namespace Disk

/-- `segment_files`, by their names in a manifest. -/
def segmentFiles (d : Disk) (hour : HourKey) : List String :=
  Sorted.sortOn id (d.segments.keys.filter (isSegmentOf hour))

/-- `raw_hours`. -/
def rawHours (d : Disk) : List HourKey :=
  Sorted.sortOn (fun hour => toLex (hour.date.ordinal, hour.hour)) d.hourDirs

end Disk

/-- What a file that is not there answers. -/
inductive DiskError where
  | missing (path : String)
  deriving DecidableEq, Repr

/-- A file that is asked for by its name. -/
def Disk.stat (files : Dict String File) (path : String) : Except DiskError File :=
  match files.get? path with
  | none => .error (.missing path)
  | some file => .ok file

/-- What the disk answers as it is now. -/
def Disk.archive (d : Disk) : Archive DiskError where
  rawHours := d.rawHours
  segmentFiles := d.segmentFiles
  segmentSize name := (stat d.segments name).map File.bytes
  segmentSha256 name := (stat d.segments name).map File.sha256
  isPart path := d.parts.contains path
  partSha256 path := (stat d.parts path).map File.sha256
  readManifest date := .ok (d.manifest date)

/-! ## File operations -/

/-- What a run does to the disk, one step at a time. -/
inductive FileOp where
  /-- `rmtree` of what was renamed aside -/
  | clearAside (directory : String)
  /-- the directory renamed aside -/
  | setAside (directory : String)
  /-- the finished directory renamed into its place -/
  | moveIn (files : List (String × File))
  | unlink (name : String)
  /-- `rmdir`, if nothing is left in it -/
  | removeHourDir (hour : HourKey)

namespace Disk

/-- The manifest of its day is replaced. -/
def writeManifest (d : Disk) (m : Manifest) : Disk where
  hourDirs := d.hourDirs
  segments := d.segments
  parts := d.parts
  aside := d.aside
  manifest := Function.update d.manifest m.date (some m)
  dated date m' h := by
    rw [Function.update_apply] at h
    split at h
    · next hdate => rw [hdate, Option.some.inj h]
    · exact d.dated date m' h

/-- Files put in place, one after the other. -/
def put (files : Dict String File) (new : List (String × File)) : Dict String File :=
  new.foldl (fun files e => files.set e.1 e.2) files

/-- One operation on files. -/
def perform (d : Disk) : FileOp → Disk
  | .clearAside directory =>
      { d with aside := d.aside.filter fun path _ => ¬ isUnder directory path }
  | .setAside directory =>
      { d with
        parts := d.parts.filter fun path _ => ¬ isUnder directory path
        aside := put d.aside (d.parts.filter fun path _ => isUnder directory path).entries }
  | .moveIn files => { d with parts := put d.parts files }
  | .unlink name => { d with segments := d.segments.erase name }
  | .removeHourDir hour =>
      if d.segments.keys.any (isUnder (hourDir hour)) then d
      else { d with hourDirs := d.hourDirs.filter (· ≠ hour) }

/-- Some operations, in order. -/
def performAll (d : Disk) (ops : List FileOp) : Disk := ops.foldl perform d

end Disk

/-! ## The bake of an hour -/

/-- `PartFile`: its name within the directory. -/
structure PartFile where
  name : String
  rows : Int
  file : File

/-- What reading every segment of an hour and writing its tables comes to. -/
structure HourReading where
  hour : HourKey
  segments : List SegmentEntry
  result : HourResult
  written : TableName → List PartFile
  ofHour : ∀ s ∈ segments, s.hour = hour.hour

namespace HourReading

variable (r : HourReading)

/-- The part entries of `bake_hour`'s report. -/
def parts (name : TableName) : List PartEntry :=
  (r.written name).map fun part =>
    { path := partitionDir name r.hour ++ part.name, hour := r.hour.hour, rows := part.rows
      bytes := part.file.bytes, sha256 := part.file.sha256 }

/-- The files of a table, by their names below `baked/`. -/
def files (name : TableName) : List (String × File) :=
  (r.written name).map fun part => (partitionDir name r.hour ++ part.name, part.file)

/-- `BakeReport`, as far as the manifest takes it over. -/
def report (softwareVersion : String) : BakedHour where
  bake := hourBake r.hour softwareVersion r.result
  segments := r.segments
  parts := r.parts

end HourReading

/-- `replace_dir`; with no files there is nothing to move in. -/
def replaceDir (directory : String) (files : List (String × File)) : List FileOp :=
  [.clearAside directory, .setAside directory] ++ (if files = [] then [] else [.moveIn files]) ++
    [.clearAside directory]

/-- The swaps `bake_hour` ends with, table after table. -/
def swaps (r : HourReading) : List FileOp :=
  TableName.all.flatMap fun name => replaceDir (partitionDir name r.hour) (r.files name)

/-- `_has_pruned`. The names are those of segments, so `segment_hour` reads them. -/
def hasPruned (m : Manifest) (hour : HourKey) : Bool :=
  m.pruned.any fun pruned =>
    match segmentHour pruned.path with
    | .ok (date, h) => date = hour.date ∧ h = hour.hour
    | .error _ => false

/-- `manifest is None or not _has_pruned(manifest, hour)`: `bake_hour` goes
ahead. -/
def mayBake (manifest : Option Manifest) (hour : HourKey) : Bool :=
  manifest.all fun m => ¬ hasPruned m hour

/-- The manifest `record_bake` writes. -/
def Disk.recorded (d : Disk) (r : HourReading) (softwareVersion : String)
    (clockOffsetMs : Option Int) : Except ManifestError Manifest :=
  match d.manifest r.hour.date with
  | some m => withHour m (r.report softwareVersion) softwareVersion clockOffsetMs
  | none =>
      match newManifest r.hour.date softwareVersion with
      | .error e => .error e
      | .ok m => withHour m (r.report softwareVersion) softwareVersion clockOffsetMs

/-! ## Which hours need a bake -/

/-- Two dictionaries of Python are equal. -/
def sameDict (d e : Dict String Int) : Bool :=
  (d.keys ++ e.keys).all fun k => d.get? k = e.get? k

/-- `bake_needed`. -/
def bakeNeeded (manifest : Option Manifest) (hour : HourKey) (segmentsOnDisk : Dict String Int)
    (partsPresent : Bool) : Bool :=
  match manifest with
  | none => ¬ segmentsOnDisk.isEmpty
  | some m =>
      if hasPruned m hour then false
      else
        match m.hourBake hour.hour with
        | none => ¬ segmentsOnDisk.isEmpty
        | some entry =>
            if entry.bakeVersion ≠ bakeVersion ∨ ¬ partsPresent then true
            else
              let baked := (byPath SegmentEntry.path (m.hourSegments hour.hour)).mapValues
                fun _ segment => segment.bytes
              ¬ sameDict baked segmentsOnDisk

/-- `closed_hours`; the grace period cannot be negative. -/
def closedHours (hours : List HourKey) (nowWallNs : Int) (graceNs : Nat) : List HourKey :=
  hours.filter fun hour => hour.endWallNs + graceNs < nowWallNs

namespace Archive

variable {ε : Type*} (archive : Archive ε)

/-- Sizes on disk, by name. -/
def sizes (segments : List SegmentOnDisk) : Dict String Int :=
  (byPath SegmentOnDisk.path segments).mapValues fun _ segment => segment.bytes

/-- `all(… .is_file() …)` over the parts the manifest lists for the hour. -/
def partsPresent (manifest : Option Manifest) (hour : HourKey) : Bool :=
  match manifest with
  | none => true
  | some m => (m.hourParts hour.hour).all fun part => archive.isPart part.path

/-- Whether an hour is included, its segments' sizes read. -/
def takesHour (force : Bool) (manifest : Option Manifest) (hour : HourKey)
    (segments : List SegmentOnDisk) : Bool :=
  if force then ¬ segments.isEmpty ∧ mayBake manifest hour
  else bakeNeeded manifest hour (sizes segments) (archive.partsPresent manifest hour)

/-- The loop of `hours_to_bake`. -/
def hoursToBakeFrom (force : Bool) :
    List HourKey → Dict Date (Option Manifest) → Except ε (List HourKey)
  | [], _ => .ok []
  | hour :: hours, manifests =>
      match archive.manifestFor manifests hour.date with
      | .error e => .error e
      | .ok (manifest, manifests) =>
          match readEach archive.sizedSegment (archive.segmentFiles hour) with
          | .error e => .error e
          | .ok segments =>
              if archive.takesHour force manifest hour segments then
                (hoursToBakeFrom force hours manifests).map (hour :: ·)
              else hoursToBakeFrom force hours manifests

/-- `hours_to_bake`; the candidates are considered in time order, each once. -/
def hoursToBake (nowWallNs : Int) (graceNs : Nat) (force : Bool)
    (candidates : Option (List HourKey)) : Except ε (List HourKey) :=
  let considered := match candidates with
    | none => archive.rawHours
    | some hours =>
        Sorted.sortOn (fun hour => toLex (hour.date.ordinal, hour.hour)) hours.dedup
  archive.hoursToBakeFrom force (closedHours considered nowWallNs graceNs) ∅

end Archive

end Tape.Bake
