import Mathlib
import Tape.Bake.Manifest

/-!
# Which hours may be pruned

An hour's raw segments may be deleted once a verified bake has made them safe
to lose. `HourFacts.decide` says whether they may and every reason they may
not, from what is on disk and what the day's manifest says. A hash that was not
computed is a check not made: the hour is refused, and `unverified` is the
reason given if there is no other.

`survey` decides every hour that has raw segments. It gathers the facts without
hashes first, and hashes the files of an hour only if that is all its decision
lacks. What the file system answers is the structure `Archive`; any answer
there may be an error, which ends the survey.
-/

namespace Tape.Bake

/-- Why an hour may not be pruned. -/
inductive PruneReason where
  | insideRetentionWindow
  | notBaked
  | bakeVersionStale
  | segmentAdded
  | segmentChanged
  | segmentMissing
  | decodeFailures
  | bakedFileMissing
  | bakedFileChanged
  | unverified
  deriving DecidableEq, Repr

/-- `PRUNE_REASONS`: every reason, in the order a decision lists them. -/
def pruneReasons : List PruneReason :=
  [.insideRetentionWindow, .notBaked, .bakeVersionStale, .segmentAdded, .segmentChanged,
    .segmentMissing, .decodeFailures, .bakedFileMissing, .bakedFileChanged, .unverified]

/-- A raw segment file present now; its hash may not have been computed. -/
structure SegmentOnDisk where
  path : String
  bytes : Int
  sha256 : Option String
  deriving DecidableEq, Repr

/-- A part file the manifest lists, as found on disk; `present` is `exists`. -/
structure PartOnDisk where
  path : String
  present : Bool
  sha256 : Option String
  deriving DecidableEq, Repr

/-- What is on disk for one hour. -/
structure HourFacts where
  hour : HourKey
  segments : List SegmentOnDisk
  parts : List PartOnDisk
  deriving DecidableEq, Repr

/-- What was decided of an hour. -/
structure PruneDecision where
  hour : HourKey
  prunable : Bool
  reasons : List PruneReason
  segments : List SegmentOnDisk
  deriving DecidableEq, Repr

/-- The instant, the retention and the bake version a decision is made for. -/
structure PruneOptions where
  nowWallNs : Int
  retentionHours : Int
  bakeVersion : Int
  deriving DecidableEq, Repr

/-- Decode failures plus corrupt segments. -/
def RecordAccounting.failures (a : RecordAccounting) : Nat :=
  a.decodeFailures.total + a.corruptSegments

namespace Manifest

/-- The record of an hour's bake. -/
def hourBake (m : Manifest) (hour : Int) : Option HourBake :=
  m.bake.hours.find? fun entry => entry.hour = hour

/-- The segments of an hour. -/
def hourSegments (m : Manifest) (hour : Int) : List SegmentEntry :=
  m.segments.filter fun segment => segment.hour = hour

/-- The parts of an hour, over all tables. -/
def hourParts (m : Manifest) (hour : Int) : List PartEntry :=
  TableName.all.flatMap fun name => (m.tables name).files.filter fun part => part.hour = hour

end Manifest

/-! ## The decision -/

/-- The reasons collected so far, and whether a hash was missing that some
comparison needed. -/
structure Findings where
  reasons : Finset PruneReason
  unverified : Bool

/-- One more reason. -/
def Findings.add (found : Findings) (reason : PruneReason) : Findings :=
  { found with reasons := insert reason found.reasons }

/-- How both checks of a file end: its hash against the one recorded. -/
def Findings.compare (found : Findings) (sha256 : Option String) (expected : String)
    (reason : PruneReason) : Findings :=
  match sha256 with
  | none => { found with unverified := true }
  | some sha256 => if sha256 ≠ expected then found.add reason else found

/-- `{x.path: x for x in …}`. -/
def byPath {α : Type*} (path : α → String) (l : List α) : Dict String α :=
  l.foldl (fun d a => d.set (path a) a) ∅

/-- One segment on disk against those baked. -/
def checkSegmentFile (baked : Dict String SegmentEntry) (found : Findings)
    (segment : SegmentOnDisk) : Findings :=
  match baked.get? segment.path with
  | none => found.add .segmentAdded
  | some expected =>
      if segment.bytes ≠ expected.bytes then found.add .segmentChanged
      else found.compare segment.sha256 expected.sha256 .segmentChanged

/-- `_check_segments`. -/
def checkSegments (facts : HourFacts) (m : Manifest) (found : Findings) : Findings :=
  let baked := byPath SegmentEntry.path (m.hourSegments facts.hour.hour)
  let pruned := m.pruned.map PrunedSegment.path
  let onDisk := facts.segments.map SegmentOnDisk.path
  let found := facts.segments.foldl (checkSegmentFile baked) found
  if ∃ path ∈ baked.keys, path ∉ onDisk ∧ path ∉ pruned then found.add .segmentMissing else found

/-- One part file of the bake against those on disk. -/
def checkPartFile (onDisk : Dict String PartOnDisk) (found : Findings) (expected : PartEntry) :
    Findings :=
  match onDisk.get? expected.path with
  | none => found.add .bakedFileMissing
  | some part =>
      if part.present = false then found.add .bakedFileMissing
      else found.compare part.sha256 expected.sha256 .bakedFileChanged

/-- `_check_parts`. -/
def checkParts (facts : HourFacts) (m : Manifest) (found : Findings) : Findings :=
  (m.hourParts facts.hour.hour).foldl (checkPartFile (byPath PartOnDisk.path facts.parts)) found

/-- The bake of the facts' hour. -/
def HourFacts.entry (facts : HourFacts) (m : Manifest) : Option HourBake :=
  if m.date ≠ facts.hour.date then none else m.hourBake facts.hour.hour

/-- What `decide` collects before it orders the reasons. -/
def HourFacts.findings (facts : HourFacts) (manifest : Option Manifest) (o : PruneOptions) :
    Findings :=
  let found : Findings := ⟨∅, false⟩
  let found :=
    if facts.hour.endWallNs + o.retentionHours * nsPerHour ≥ o.nowWallNs then
      found.add .insideRetentionWindow
    else found
  match manifest with
  | none => found.add .notBaked
  | some m =>
      match facts.entry m with
      | none => found.add .notBaked
      | some entry =>
          let found :=
            if entry.bakeVersion ≠ o.bakeVersion then found.add .bakeVersionStale else found
          let found := if entry.accounting.failures ≠ 0 then found.add .decodeFailures else found
          checkParts facts m (checkSegments facts m found)

/-- An hour is prunable if nothing was found against it. -/
def HourFacts.decide (facts : HourFacts) (manifest : Option Manifest) (o : PruneOptions) :
    PruneDecision :=
  let found := facts.findings manifest o
  let found := if found.unverified ∧ found.reasons = ∅ then found.add .unverified else found
  let ordered := pruneReasons.filter fun reason => reason ∈ found.reasons
  { hour := facts.hour
    prunable := ordered.isEmpty
    reasons := ordered
    segments := if ordered.isEmpty then facts.segments else [] }

/-! ## The survey -/

/-- What the file system answers: the hours that have a raw directory, the
names of an hour's segment files, their sizes and hashes, whether a part file
is there and its hash, and the manifest of a day. -/
structure Archive (ε : Type*) where
  rawHours : List HourKey
  segmentFiles : HourKey → List String
  segmentSize : String → Except ε Int
  segmentSha256 : String → Except ε String
  isPart : String → Bool
  partSha256 : String → Except ε String
  readManifest : Date → Except ε (Option Manifest)

/-- Read each of a list, up to the first error. -/
def readEach {α β ε : Type*} (read : α → Except ε β) : List α → Except ε (List β)
  | [] => .ok []
  | a :: l =>
      match read a with
      | .error e => .error e
      | .ok b => (readEach read l).map (b :: ·)

namespace Archive

variable {ε : Type*} (archive : Archive ε)

/-- A segment with its size, not hashed. -/
def sizedSegment (path : String) : Except ε SegmentOnDisk :=
  (archive.segmentSize path).map fun bytes => ⟨path, bytes, none⟩

/-- `replace(segment, sha256=…)`. -/
def hashedSegment (segment : SegmentOnDisk) : Except ε SegmentOnDisk :=
  (archive.segmentSha256 segment.path).map fun sha256 => { segment with sha256 := some sha256 }

/-- Whether a part is there, with its hash if it is to be hashed. -/
def partOnDisk (hashed : Bool) (part : PartEntry) : Except ε PartOnDisk :=
  if archive.isPart part.path = true ∧ hashed = true then
    (archive.partSha256 part.path).map fun sha256 => ⟨part.path, true, some sha256⟩
  else .ok ⟨part.path, archive.isPart part.path, none⟩

/-- `_parts_on_disk`. -/
def partsOnDisk (manifest : Option Manifest) (hour : HourKey) (hashed : Bool) :
    Except ε (List PartOnDisk) :=
  match manifest with
  | none => .ok []
  | some m =>
      if m.date ≠ hour.date then .ok []
      else readEach (archive.partOnDisk hashed) (m.hourParts hour.hour)

/-- The facts gathered without a hash. -/
def sizedFacts (manifest : Option Manifest) (hour : HourKey) : Except ε HourFacts :=
  match readEach archive.sizedSegment (archive.segmentFiles hour) with
  | .error e => .error e
  | .ok segments =>
      (archive.partsOnDisk manifest hour false).map fun parts => ⟨hour, segments, parts⟩

/-- The same facts, every file that is there hashed. -/
def hashedFacts (manifest : Option Manifest) (facts : HourFacts) : Except ε HourFacts :=
  match readEach archive.hashedSegment facts.segments with
  | .error e => .error e
  | .ok segments =>
      (archive.partsOnDisk manifest facts.hour true).map fun parts =>
        ⟨facts.hour, segments, parts⟩

/-- The decision on one hour, in two passes. -/
def decideHour (manifest : Option Manifest) (o : PruneOptions) (hour : HourKey) :
    Except ε PruneDecision :=
  match archive.sizedFacts manifest hour with
  | .error e => .error e
  | .ok facts =>
      if (facts.decide manifest o).reasons = [.unverified] then
        (archive.hashedFacts manifest facts).map fun hashed => hashed.decide manifest o
      else .ok (facts.decide manifest o)

/-- A day's manifest and the manifests read so far. -/
def manifestFor (manifests : Dict Date (Option Manifest)) (date : Date) :
    Except ε (Option Manifest × Dict Date (Option Manifest)) :=
  match manifests.get? date with
  | some manifest => .ok (manifest, manifests)
  | none => (archive.readManifest date).map fun manifest =>
      (manifest, manifests.set date manifest)

/-- `survey`'s loop. -/
def surveyFrom (o : PruneOptions) :
    List HourKey → Dict Date (Option Manifest) → Except ε (List PruneDecision)
  | [], _ => .ok []
  | hour :: hours, manifests =>
      if archive.segmentFiles hour = [] then surveyFrom o hours manifests
      else
        match archive.manifestFor manifests hour.date with
        | .error e => .error e
        | .ok (manifest, manifests) =>
            match archive.decideHour manifest o hour with
            | .error e => .error e
            | .ok decision => (surveyFrom o hours manifests).map (decision :: ·)

/-- A decision on every hour with a raw directory. -/
def survey (o : PruneOptions) : Except ε (List PruneDecision) :=
  archive.surveyFrom o archive.rawHours ∅

end Archive

end Tape.Bake
