import Tape.Bake.Frozen

/-!
# A run of the bake

`bake_archive` asks once which hours to bake and bakes one after the other. An
hour that fails with one of three exceptions is left as it is and the next one
is still baked; any other exception ends the run. An hour that was baked has
exactly the part files its manifest records, and needs no other bake; nothing
the run does to one hour is seen at another, since the swaps change only the
hour's own directories and the record only the hour's own entries (`Beside`). So
the next run has only hours left that failed, or, where the run was ended, that
it ended in or did not come to.
-/

namespace Tape.Bake

/-! ## The run -/

/-- What the bake of an hour may raise: what `bake_archive` catches, and the rest
(`decimal.Overflow` of a numeral in a record is one). -/
inductive Raised where
  | archiveError
  | tapeCorruptionError
  | osError
  | other
  deriving DecidableEq, Repr

/-- How the bake of one hour went: it was read and written to its end, or an
exception cut it short after some file operations. -/
inductive Attempt where
  | whole (r : HourReading)
  | cut (r : HourReading) (done : Nat) (aside : Dict String File) (e : Raised)

/-- The hour that is baked. -/
def Attempt.hour : Attempt → HourKey
  | .whole r => r.hour
  | .cut r _ _ _ => r.hour

/-- Where the loop ended: the hours it baked, those it reports as failed, and the
one whose exception it did not catch. -/
structure BakeRun where
  disk : Disk
  baked : List HourKey
  failed : List HourKey
  ended : Option (HourKey × Raised)

namespace Disk

end Disk

/-- The bake read the segments that are on disk. -/
def HourReading.Reads (r : HourReading) (d : Disk) : Prop :=
  r.segments.map (fun s => (s.path, s.bytes)) =
    (d.onDisk r.hour).map fun s => (s.path, s.bytes)

/-- A bake that came to its end read what is on disk. -/
def Attempt.Reads (d : Disk) : Attempt → Prop
  | .whole r => r.Reads d
  | .cut _ _ _ _ => True

/-! ## Hours beside the one that is baked -/

/-- Two manifests of a day, or their absence, say the same of an hour. -/
def SameEntries (before after : Option Manifest) (hour : HourKey) : Prop :=
  before = after ∨ ∃ m', after = some m' ∧ match before with
    | some m => m.SameHour m' hour.hour ∧ hasPruned m' hour = hasPruned m hour
    | none => m'.hourBake hour.hour = none ∧ m'.hourParts hour.hour = [] ∧
        hasPruned m' hour = false

/-- What was done to the disk is not seen at the hour. -/
structure Disk.Beside (d d' : Disk) (hour : HourKey) : Prop where
  segments : d'.segments = d.segments
  hourDirs : d'.hourDirs = d.hourDirs
  parts : ∀ path, isPartOf hour path → d'.parts.get? path = d.parts.get? path
  entries : SameEntries (d.manifest hour.date) (d'.manifest hour.date) hour

variable {d d' : Disk} {hour : HourKey} {r : HourReading}

theorem recordedSha_congr {before after : Option Manifest} (h : SameEntries before after hour)
    (path : String) : recordedSha after hour path = recordedSha before hour path := by
  rcases h with rfl | ⟨m', rfl, hsame⟩
  · rfl
  · cases before with
    | some m => rw [recordedSha, Option.bind_some, hsame.1.parts, recordedSha, Option.bind_some]
    | none =>
        rw [recordedSha, Option.bind_some, hsame.2.1]
        rfl

theorem mayBake_congr {before after : Option Manifest} (h : SameEntries before after hour) :
    mayBake after hour = mayBake before hour := by
  rcases h with rfl | ⟨m', rfl, hsame⟩
  · rfl
  · cases before with
    | some m => simp [mayBake, hsame.2]
    | none => simp [mayBake, hsame.2.2]

theorem bakeNeeded_congr {before after : Option Manifest} (h : SameEntries before after hour)
    (sizes : Dict String Int) :
    bakeNeeded after hour sizes true = bakeNeeded before hour sizes true := by
  rcases h with rfl | ⟨m', rfl, hsame⟩
  · rfl
  · cases before with
    | some m =>
        rw [bakeNeeded, bakeNeeded]
        dsimp only
        rw [hsame.2, hsame.1.bake, hsame.1.segments]
    | none =>
        rw [bakeNeeded, bakeNeeded]
        dsimp only
        rw [hsame.2.2, hsame.1]
        rfl

/-- An hour that may not be baked is not taken. -/
theorem takes_of_not_mayBake (h : mayBake (d.manifest hour.date) hour = false) (force : Bool) :
    d.takes force hour = false := by
  rw [Disk.takes, Archive.takesHour]
  cases force with
  | true => simp [h]
  | false =>
      cases hm : d.manifest hour.date with
      | none =>
          rw [hm] at h
          cases h
      | some m =>
          rw [hm] at h
          have hpruned : hasPruned m hour = true := by simpa [mayBake] using h
          simp [bakeNeeded, hpruned]

namespace Disk.Beside

theorem agrees_iff (h : d.Beside d' hour) : d'.Agrees hour ↔ d.Agrees hour := by
  refine forall_congr' fun path => forall_congr' fun hpath => ?_
  rw [h.parts path hpath, recordedSha_congr h.entries]

theorem onDisk_eq (h : d.Beside d' hour) : d'.onDisk hour = d.onDisk hour := by
  rw [onDisk, onDisk, segmentFiles, segmentFiles, h.segments]

theorem lacks_iff (h : d.Beside d' hour) :
    Lacks d'.parts.get? (d'.manifest hour.date) hour ↔
      Lacks d.parts.get? (d.manifest hour.date) hour := by
  refine exists_congr fun path => ?_
  rw [recordedSha_congr h.entries]
  refine and_congr_right fun hrecorded => ?_
  rw [h.parts path (isPartOf_of_recorded hrecorded)]

/-- Whether the hour is taken is decided by what is seen at the hour. -/
theorem takes_eq (h : d.Beside d' hour) (force : Bool) :
    d'.takes force hour = d.takes force hour := by
  have hsame := mayBake_congr h.entries
  cases hmay : mayBake (d.manifest hour.date) hour with
  | false => rw [takes_of_not_mayBake hmay, takes_of_not_mayBake (hsame.trans hmay)]
  | true =>
      cases force with
      | true =>
          rw [takes, takes, Archive.takesHour, Archive.takesHour, h.onDisk_eq, hsame]
          rfl
      | false =>
          rw [Bool.eq_iff_iff, takes_iff (hsame.trans hmay), takes_iff hmay, h.lacks_iff, Outdated,
            Outdated, h.onDisk_eq, bakeNeeded_congr h.entries]

theorem refl (d : Disk) (hour : HourKey) : d.Beside d hour :=
  ⟨rfl, rfl, fun _ _ => rfl, .inl rfl⟩

theorem trans {d'' : Disk} (h : d.Beside d' hour) (h' : d'.Beside d'' hour) :
    d.Beside d'' hour where
  segments := h'.segments.trans h.segments
  hourDirs := h'.hourDirs.trans h.hourDirs
  parts path hpath := (h'.parts path hpath).trans (h.parts path hpath)
  entries := by
    rcases h'.entries with heq | ⟨m'', hm'', hsame'⟩
    · rw [← heq]
      exact h.entries
    · rcases h.entries with heq | ⟨m', hm', hsame⟩
      · rw [heq]
        exact .inr ⟨m'', hm'', hsame'⟩
      · rw [hm'] at hsame'
        refine .inr ⟨m'', hm'', ?_⟩
        cases hm : d.manifest hour.date with
        | some m =>
            rw [hm] at hsame
            exact ⟨⟨hsame'.1.bake.trans hsame.1.bake, hsame'.1.segments.trans hsame.1.segments,
              hsame'.1.parts.trans hsame.1.parts⟩, hsame'.2.trans hsame.2⟩
        | none =>
            rw [hm] at hsame
            exact ⟨hsame'.1.bake.trans hsame.1, hsame'.1.parts.trans hsame.2.1,
              hsame'.2.trans hsame.2.2⟩

end Disk.Beside

/-! ## What a bake does beside its hour -/

/-- The manifest that takes the hour over: the day's, or a new one. -/
structure Records (d : Disk) (r : HourReading) (softwareVersion : String)
    (clockOffsetMs : Option Int) (base m : Manifest) : Prop where
  date : base.date = r.hour.date
  made : withHour base (r.report softwareVersion) softwareVersion clockOffsetMs = .ok m
  from_day : d.manifest r.hour.date = some base ∨
    (d.manifest r.hour.date = none ∧ newManifest r.hour.date softwareVersion = .ok base)

variable {softwareVersion : String} {clockOffsetMs : Option Int} {m : Manifest}

/-- The hour's files are as recorded, and the hour needs no bake. -/
def Disk.Settled (d : Disk) (hour : HourKey) : Prop :=
  d.Agrees hour ∧ d.takes false hour = false

theorem Disk.Beside.settled (h : d.Beside d' hour) (hsettled : d.Settled hour) :
    d'.Settled hour :=
  ⟨h.agrees_iff.mpr hsettled.1, (h.takes_eq false).trans hsettled.2⟩

/-- The hours the run came to. -/
def BakeRun.touched (run : BakeRun) : List HourKey :=
  run.baked ++ run.failed ++ (run.ended.map Prod.fst).toList

end Tape.Bake
