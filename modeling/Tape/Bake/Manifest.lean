import Mathlib
import Tape.Bake.Tables
import Tape.Bake.Uptime
import Tape.Wire.Fixedpoint

/-!
# The daily manifest

What one day captured and baked. A manifest is built in one place, `assemble`,
which puts everything in order and derives the day's numbers from its hours,
and the constructor checks that the parts fit together: the checks are
`postInit`, and a `Manifest` carries that they pass. `with_hour` replaces what
is said of one hour, `with_pruned` records segments about to be deleted.

The dictionary of tables has exactly the six tables as keys; it is a function
here, so that the check of its keys has nothing to find. Reading and writing
the file are left out.
-/

namespace Tape.Bake

/-- A segment of the day, as its manifest lists it. -/
structure SegmentEntry where
  path : String
  hour : Int
  bytes : Int
  sha256 : String
  records : Int
  firstRecvWallNs : Option Int
  lastRecvWallNs : Option Int
  truncated : Bool
  deriving DecidableEq, Repr

/-- A part file of a table, as the manifest lists it. -/
structure PartEntry where
  path : String
  hour : Int
  rows : Int
  bytes : Int
  sha256 : String
  deriving DecidableEq, Repr

/-- One table's part files, with the rows across them. -/
structure TableEntry where
  rows : Int
  files : List PartEntry
  total : rows = (files.map PartEntry.rows).sum
  deriving DecidableEq, Repr

/-- A segment that was deleted, with what it was. -/
structure PrunedSegment where
  path : String
  bytes : Int
  sha256 : String
  prunedWallNs : Int
  deriving DecidableEq, Repr

/-- The gaps of a day, and the share of time its books were stale. -/
structure GapSummary where
  count : Int
  marketSecondsAffected : Int
  marketSecondsObserved : Int
  share : Int × Int
  deriving DecidableEq, Repr

/-- The audits of a day by outcome. -/
structure AuditSummary where
  booksSampled : Int
  booksExact : Int
  booksConsistent : Int
  booksInconsistent : Int
  booksUndecidable : Int
  levelsMismatched : Int
  exactRatio : Int × Int
  consistencyRatio : Int × Int
  deriving DecidableEq, Repr

/-- The errors a manifest is refused with, by what their texts name. -/
inductive ManifestError where
  /-- baked hours must be unique and in order, got … -/
  | hours (numbers : List Int)
  /-- … paths must be unique and in order -/
  | paths (what : String)
  /-- not a segment name: … -/
  | segmentName (name : String)
  /-- the date of a segment name is no real date -/
  | segmentDate (text : String)
  /-- segment … is not in hour … of the day -/
  | segmentHour (path : String) (hour : Int)
  /-- segment … belongs to hour …, not baked -/
  | segmentNotBaked (path : String) (hour : Int)
  /-- part … is not under … -/
  | partPrefix (path directory : String)
  /-- part … belongs to hour …, not baked -/
  | partNotBaked (path : String) (hour : Int)
  /-- pruned segment … does not match a baked segment -/
  | prunedMismatch (path : String)
  /-- hour … has pruned segments and cannot be baked again -/
  | prunedHour (hour : Int)
  /-- every segment and part file must belong to hour … -/
  | otherHour (hour : Int)
  deriving DecidableEq, Repr

/-- A list that is its own members, sorted. -/
def SortedUnique {α : Type*} [LinearOrder α] (l : List α) : Prop := l = l.toFinset.sort (· ≤ ·)

theorem sortedUnique_iff {α : Type*} [LinearOrder α] {l : List α} :
    SortedUnique l ↔ l.Pairwise (· < ·) := by
  constructor
  · intro h
    rw [SortedUnique] at h
    rw [h]
    exact (Finset.sortedLT_sort l.toFinset).pairwise
  · intro h
    have hn : l.Nodup := h.imp fun hlt => ne_of_lt hlt
    exact ((List.toFinset_sort (· ≤ ·) hn).mpr (h.imp fun hlt => hlt.le)).symm

instance {α : Type*} [LinearOrder α] (l : List α) : Decidable (SortedUnique l) :=
  decidable_of_iff _ sortedUnique_iff.symm

/-- Every baked hour of the day. -/
structure BakeSection where
  hours : List HourBake
  ordered : SortedUnique (hours.map HourBake.hour)

/-- `BakeSection(…)`, whose `__post_init__` may raise. -/
def BakeSection.build (hours : List HourBake) : Except ManifestError BakeSection :=
  if h : SortedUnique (hours.map HourBake.hour) then .ok ⟨hours, h⟩
  else .error (.hours (hours.map HourBake.hour))

/-! ## Names -/

/-- The characters of a segment file's name. -/
def isNameChar (c : Char) : Bool :=
  ('A' ≤ c ∧ c ≤ 'Z') ∨ ('a' ≤ c ∧ c ≤ 'z') ∨ ('0' ≤ c ∧ c ≤ '9') ∨ c ∈ ['.', '_', '-']

/-- A file name that a segment can have. -/
def isSegmentFile (file : List Char) : Bool :=
  let ending := ".tape.zst".toList
  ending.length < file.length ∧ ending <:+ file ∧ file.all isNameChar = true

/-- A run of characters that are ASCII digits, as a number. -/
def asciiNumber (digits : List Char) : Option Nat :=
  if digits.all (fun c => '0' ≤ c ∧ c ≤ '9') then
    some (digits.foldl (fun n c => 10 * n + (c.toNat - '0'.toNat)) 0)
  else none

/-- `date.fromisoformat` of a text of the form `dddd-dd-dd`: only ASCII digits
are read, and the day must be real. -/
def Date.fromIsoformat (year month day : List Char) : Option Date :=
  match asciiNumber year, asciiNumber month, asciiNumber day with
  | some year, some month, some day =>
      if h : (1 ≤ year ∧ year ≤ 9999) ∧ (1 ≤ month ∧ month ≤ 12) ∧
          (1 ≤ day ∧ day ≤ daysInMonth year month) then
        some ⟨year, month, day, h.1, h.2.1, h.2.2⟩
      else none
  | _, _, _ => none

/-- `segment_hour`. The pattern's digits are those of any script, `int` reads
them all. -/
def segmentHour (name : String) : Except ManifestError (Date × Nat) :=
  match name.toList with
  | y₁ :: y₂ :: y₃ :: y₄ :: '-' :: m₁ :: m₂ :: '-' :: d₁ :: d₂ :: '/' :: h₁ :: h₂ :: '/' :: file =>
      if [y₁, y₂, y₃, y₄, m₁, m₂, d₁, d₂].all (fun c => (Fixedpoint.digit? c).isSome) = true ∧
          isSegmentFile file = true then
        match Fixedpoint.digit? h₁, Fixedpoint.digit? h₂ with
        | some tens, some ones =>
            match Date.fromIsoformat [y₁, y₂, y₃, y₄] [m₁, m₂] [d₁, d₂] with
            | some date => .ok (date, 10 * tens + ones)
            | none => .error (.segmentDate name)
        | _, _ => .error (.segmentName name)
      else .error (.segmentName name)
  | _ => .error (.segmentName name)

namespace TableName

/-- `TABLE_NAMES`. -/
def all : List TableName := [.deltas, .snapshots, .trades, .lifecycle, .gaps, .audits]

/-- A table by its name. -/
def text : TableName → String
  | .deltas => "deltas"
  | .snapshots => "snapshots"
  | .trades => "trades"
  | .lifecycle => "lifecycle"
  | .gaps => "gaps"
  | .audits => "audits"

end TableName

/-- `f"{hour:02d}"`. -/
def hourText (hour : Int) : String :=
  if hour < 0 then "-" ++ Date.padded 1 hour.natAbs else Date.padded 2 hour.toNat

/-- The directory of a table's parts of one hour. -/
def partDirectory (name : TableName) (date : Date) (hour : Int) : String :=
  name.text ++ "/dt=" ++ date.isoformat ++ "/hour=" ++ hourText hour ++ "/"

/-! ## The checks -/

/-- The fields of a manifest. -/
structure ManifestData where
  date : Date
  softwareVersion : String
  segments : List SegmentEntry
  tables : TableName → TableEntry
  bake : BakeSection
  uptime : Uptime
  gaps : GapSummary
  audits : AuditSummary
  chronyOffsetMs : Option Int
  pruned : List PrunedSegment

/-- Check one value after the other, up to the first error. -/
def checkAll {α ε : Type*} (check : α → Except ε Unit) : List α → Except ε Unit
  | [] => .ok ()
  | a :: l =>
      match check a with
      | .error e => .error e
      | .ok () => checkAll check l

/-- `_check_sorted_unique`. -/
def checkSortedUnique (what : String) (paths : List String) : Except ManifestError Unit :=
  if SortedUnique paths then .ok () else .error (.paths what)

namespace ManifestData

/-- The hours that were baked. -/
def hours (m : ManifestData) : List Int := m.bake.hours.map HourBake.hour

/-- A segment lies in the directory of its hour. -/
def checkSegment (m : ManifestData) (segment : SegmentEntry) : Except ManifestError Unit :=
  match segmentHour segment.path with
  | .error e => .error e
  | .ok (date, hour) =>
      if date ≠ m.date ∨ (hour : Int) ≠ segment.hour then
        .error (.segmentHour segment.path segment.hour)
      else if segment.hour ∉ m.hours then .error (.segmentNotBaked segment.path segment.hour)
      else .ok ()

/-- A part lies in the directory of its table and hour, and that hour was
baked. -/
def checkPart (m : ManifestData) (name : TableName) (part : PartEntry) :
    Except ManifestError Unit :=
  let directory := partDirectory name m.date part.hour
  if ¬ directory.toList <+: part.path.toList then .error (.partPrefix part.path directory)
  else if part.hour ∉ m.hours then .error (.partNotBaked part.path part.hour)
  else .ok ()

/-- The parts of a table are sorted, without repeats, and each in its place. -/
def checkTable (m : ManifestData) (name : TableName) : Except ManifestError Unit :=
  match checkSortedUnique name.text ((m.tables name).files.map PartEntry.path) with
  | .error e => .error e
  | .ok () => checkAll (m.checkPart name) (m.tables name).files

/-- The segments by their paths. -/
def listed (m : ManifestData) : Dict String SegmentEntry :=
  m.segments.foldl (fun d segment => d.set segment.path segment) ∅

/-- What was pruned is listed, with the same bytes and hash. -/
def checkPruned (m : ManifestData) (pruned : PrunedSegment) : Except ManifestError Unit :=
  match m.listed.get? pruned.path with
  | none => .error (.prunedMismatch pruned.path)
  | some entry =>
      if entry.bytes = pruned.bytes ∧ entry.sha256 = pruned.sha256 then .ok ()
      else .error (.prunedMismatch pruned.path)

/-- `Manifest.__post_init__`. -/
def postInit (m : ManifestData) : Except ManifestError Unit :=
  match checkSortedUnique "segments" (m.segments.map SegmentEntry.path) with
  | .error e => .error e
  | .ok () =>
      match checkAll m.checkSegment m.segments with
      | .error e => .error e
      | .ok () =>
          match checkAll m.checkTable TableName.all with
          | .error e => .error e
          | .ok () =>
              match checkSortedUnique "pruned" (m.pruned.map PrunedSegment.path) with
              | .error e => .error e
              | .ok () => checkAll m.checkPruned m.pruned

end ManifestData

/-- A manifest whose checks pass. -/
structure Manifest extends ManifestData where
  checked : toManifestData.postInit = .ok ()

/-- `Manifest(…)`, whose `__post_init__` may raise. -/
def Manifest.build (m : ManifestData) : Except ManifestError Manifest :=
  match h : m.postInit with
  | .error e => .error e
  | .ok () => .ok ⟨m, h⟩

/-! ## The day's numbers -/

/-- The gaps of a day's hours, in whole seconds. -/
def summarizeGaps (hours : List HourBake) : GapSummary :=
  let count := (hours.map fun h => h.integrity.gaps.count).sum
  let affected := (hours.map fun h => h.integrity.gaps.staleMarketNs).sum / nsPerS
  let observed := (hours.map fun h => h.integrity.gaps.observedMarketNs).sum / nsPerS
  ⟨count, affected, observed, (affected, observed)⟩

/-- The audits of a day's hours; the ones that could not be decided are not
sampled. -/
def summarizeAudits (hours : List HourBake) : AuditSummary :=
  let exact := (hours.map fun h => h.integrity.audits.exact).sum
  let consistent := (hours.map fun h => h.integrity.audits.consistent).sum
  let inconsistent := (hours.map fun h => h.integrity.audits.inconsistent).sum
  let sampled := exact + consistent + inconsistent
  { booksSampled := sampled
    booksExact := exact
    booksConsistent := consistent
    booksInconsistent := inconsistent
    booksUndecidable := (hours.map fun h => h.integrity.audits.undecidable).sum
    levelsMismatched := (hours.map fun h => h.integrity.audits.levelsMismatched).sum
    exactRatio := (exact, sampled)
    consistencyRatio := (exact + consistent, sampled) }

/-! ## Building and changing a manifest -/

/-- A table's files in order, with their rows. -/
def tableEntry (files : List PartEntry) : TableEntry :=
  let files := Sorted.sortOn PartEntry.path files
  ⟨(files.map PartEntry.rows).sum, files, rfl⟩

/-- `_assemble`. -/
def assemble (date : Date) (softwareVersion : String) (segments : List SegmentEntry)
    (tables : TableName → List PartEntry) (hours : List HourBake) (chronyOffsetMs : Option Int)
    (pruned : List PrunedSegment) : Except ManifestError Manifest :=
  let orderedHours := Sorted.sortOn HourBake.hour hours
  match BakeSection.build orderedHours with
  | .error e => .error e
  | .ok bake =>
      Manifest.build
        { date, softwareVersion
          segments := Sorted.sortOn SegmentEntry.path segments
          tables := fun name => tableEntry (tables name)
          bake
          uptime := summarizeUptime date orderedHours
          gaps := summarizeGaps orderedHours
          audits := summarizeAudits orderedHours
          chronyOffsetMs
          pruned := Sorted.sortOn PrunedSegment.path pruned }

/-- A day of which nothing was baked. -/
def newManifest (date : Date) (softwareVersion : String) : Except ManifestError Manifest :=
  assemble date softwareVersion [] (fun _ => []) [] none []

/-- What a bake of one hour brings: the bake, every segment it read and every
part it wrote. -/
structure BakedHour where
  bake : HourBake
  segments : List SegmentEntry
  parts : TableName → List PartEntry

/-- `any(segment_hour(pruned.path)[1] == hour for …)`. -/
def anyPrunedIn (hour : Int) : List PrunedSegment → Except ManifestError Bool
  | [] => .ok false
  | pruned :: rest =>
      match segmentHour pruned.path with
      | .error e => .error e
      | .ok (_, h) => if (h : Int) = hour then .ok true else anyPrunedIn hour rest

/-- `with_hour`. -/
def withHour (m : Manifest) (new : BakedHour) (softwareVersion : String)
    (clockOffsetMs : Option Int) : Except ManifestError Manifest :=
  let hour := new.bake.hour
  match anyPrunedIn hour m.pruned with
  | .error e => .error e
  | .ok true => .error (.prunedHour hour)
  | .ok false =>
      if (∃ segment ∈ new.segments, segment.hour ≠ hour) ∨
          ∃ name ∈ TableName.all, ∃ part ∈ new.parts name, part.hour ≠ hour then
        .error (.otherHour hour)
      else
        assemble m.date softwareVersion
          (m.segments.filter (fun segment => segment.hour ≠ hour) ++ new.segments)
          (fun name =>
            (m.tables name).files.filter (fun part => part.hour ≠ hour) ++ new.parts name)
          (m.bake.hours.filter (fun entry => entry.hour ≠ hour) ++ [new.bake])
          clockOffsetMs m.pruned

/-- A segment recorded already keeps its first record. -/
def recordPruned (recorded : Dict String PrunedSegment) (entry : PrunedSegment) :
    Dict String PrunedSegment :=
  match recorded.get? entry.path with
  | some _ => recorded
  | none => recorded.set entry.path entry

/-- `with_pruned`. -/
def withPruned (m : Manifest) (pruned : List PrunedSegment) : Except ManifestError Manifest :=
  let recorded := m.pruned.foldl (fun d entry => d.set entry.path entry) ∅
  let recorded := pruned.foldl recordPruned recorded
  assemble m.date m.softwareVersion m.segments (fun name => (m.tables name).files) m.bake.hours
    m.chronyOffsetMs recorded.values

end Tape.Bake
