import Mathlib
import Tape.Sorted
import Tape.Bake.Layout
import Tape.Book.Keyframe

/-!
# The keyframe files of a run

The recorder files an image of its books every interval, in a slot named by
the instant floored to the interval, and one more at shutdown, named by its
minute. The catalog looks for the image to start from by walking the names
backwards, hour by hour, to the first that was taken in time.

That finds the latest image as long as the names grow with the instants. A
periodic name is a boundary the loop slept past, so it is above everything
filed before. The name of the shutdown image is above them too, unless its
minute is the first of a slot: then it is the name of the periodic image of
that slot, and replaces it.
-/

namespace Tape

/-- Seconds of a minute. -/
def secondsPerMinute : Int := 60

/-- Seconds of an hour. -/
def secondsPerHour : Int := 3600

/-- Nanoseconds of a minute. -/
def nsPerMinute : Int := secondsPerMinute * Bake.nsPerS

/-- `check_keyframe_interval`. -/
def checkKeyframeInterval (intervalS : Int) : Except String Unit :=
  if intervalS ≤ 0 ∨ intervalS % secondsPerMinute ≠ 0 ∨ secondsPerHour % intervalS ≠ 0 then
    .error ("keyframe_interval_s must be a whole number of minutes that divides an hour, got "
      ++ toString intervalS)
  else .ok ()

/-- `keyframes/YYYY-MM-DD/HH/MM.parquet`. The date and the hour write down
which hour since the epoch it is. -/
structure KeyframePath where
  hour : Int
  minute : Fin 60
  deriving DecidableEq, Repr

namespace KeyframePath

/-- The file's name in the directory of its hour. -/
def name (p : KeyframePath) : String := Bake.Date.padded 2 p.minute ++ ".parquet"

/-- The instant a path names. -/
def startNs (p : KeyframePath) : Int := p.hour * Bake.nsPerHour + p.minute * nsPerMinute

end KeyframePath

theorem minute_lt (momentNs : Int) : (momentNs % Bake.nsPerHour / nsPerMinute).toNat < 60 := by
  have hlt := Int.emod_lt_of_pos momentNs (show 0 < Bake.nsPerHour by decide)
  have hnonneg := Int.emod_nonneg momentNs (show Bake.nsPerHour ≠ 0 by decide)
  simp only [Bake.nsPerHour, nsPerMinute, Bake.nsPerS, secondsPerMinute] at hlt hnonneg ⊢
  omega

/-- The hour and the minute of a moment. -/
def pathAt (momentNs : Int) : KeyframePath :=
  ⟨momentNs / Bake.nsPerHour, (momentNs % Bake.nsPerHour / nsPerMinute).toNat, minute_lt momentNs⟩

/-- `keyframe_path`, below the data directory. -/
def keyframePath (wallNs intervalS : Int) : Except String KeyframePath :=
  match checkKeyframeInterval intervalS with
  | .error e => .error e
  | .ok () =>
      if wallNs < 0 then .error ("wall_ns must be non-negative, got " ++ toString wallNs)
      else .ok (pathAt (wallNs - wallNs % (intervalS * Bake.nsPerS)))

/-- The keyframe files on disk, with their rows. -/
abbrev KeyframeFiles := Dict KeyframePath (List KeyframeRow)

/-- The order `_write_keyframe_file` writes rows in. -/
def canonicalRows (rows : List KeyframeRow) : List KeyframeRow :=
  Sorted.sortOn (fun r => toLex (r.ticker, toLex (r.side, r.priceE4))) rows

/-- One call of `_write_keyframe`, at the instant it reads the clock. -/
structure KeyframeWrite where
  intervalS : Int
  asOfNs : Int
  books : List Book

namespace KeyframeWrite

/-- The start of the slot it falls in. -/
def slotNs (w : KeyframeWrite) : Int := w.asOfNs - w.asOfNs % (w.intervalS * Bake.nsPerS)

/-- Where it is filed. -/
def path (w : KeyframeWrite) : KeyframePath := pathAt w.slotNs

/-- What is written. -/
def rows (w : KeyframeWrite) : List KeyframeRow :=
  canonicalRows (w.books.flatMap fun b => b.toKeyframe w.asOfNs)

/-- `_write_keyframe`. -/
def perform (w : KeyframeWrite) (files : KeyframeFiles) : Except String KeyframeFiles :=
  if w.books.isEmpty then .ok files
  else
    match keyframePath w.asOfNs w.intervalS with
    | .error e => .error e
    | .ok path => .ok (files.set path w.rows)

/-- Some writes, in order. -/
def performAll : List KeyframeWrite → KeyframeFiles → Except String KeyframeFiles
  | [], files => .ok files
  | w :: writes, files =>
      match w.perform files with
      | .error e => .error e
      | .ok files => performAll writes files

end KeyframeWrite

/-! ## The catalog -/

/-- `_keyframe_instant`. -/
def keyframeInstant (rows : List KeyframeRow) : Option Int := (rows.map (·.asOfRecvNs)).max?

/-- `sorted(directory.glob("*.parquet"), reverse=True)`, each with its rows. -/
def directoryBackwards (files : KeyframeFiles) (hour : Int) :
    List (KeyframePath × List KeyframeRow) :=
  (Sorted.sortOn (fun e => e.1.name) (files.entries.filter fun e => e.1.hour = hour)).reverse

/-- A file that was taken by an instant: when, and its rows. -/
def takenBy (atWallNs : Int) (e : KeyframePath × List KeyframeRow) :
    Option (Int × List KeyframeRow) :=
  match keyframeInstant e.2 with
  | none => none
  | some takenNs => if takenNs ≤ atWallNs then some (takenNs, e.2) else none

/-- The file `_keyframe_books` starts from. -/
def keyframeBefore (files : KeyframeFiles) (lookbackHours : Nat) (atWallNs : Int) :
    Option (Int × List KeyframeRow) :=
  (List.range (lookbackHours + 1)).findSome? fun back : Nat =>
    (directoryBackwards files (atWallNs / Bake.nsPerHour - back)).findSome? (takenBy atWallNs)

/-- `read_keyframe`. -/
def readKeyframe (tickers : Option (List Ticker)) (rows : List KeyframeRow) : List KeyframeRow :=
  match tickers with
  | none => rows
  | some wanted => rows.filter fun r => r.ticker ∈ wanted

/-- `Catalog._keyframe_books`. -/
def keyframeBooks (files : KeyframeFiles) (lookbackHours : Nat) (atWallNs : Int)
    (tickers : Option (List Ticker)) : Except BookInvariantError (Int × Dict Ticker Book) :=
  match keyframeBefore files lookbackHours atWallNs with
  | none => .ok ((atWallNs / Bake.nsPerHour - lookbackHours) * Bake.nsPerHour, ∅)
  | some (takenNs, rows) =>
      match booksFromKeyframeRows (readKeyframe tickers rows) with
      | .error e => .error e
      | .ok books => .ok (takenNs, books)

/-! ## A run of the recorder -/

/-- How long `_keyframe_loop` sleeps. -/
def keyframeDelayNs (intervalS wallNs : Int) : Int :=
  intervalS * Bake.nsPerS - wallNs % (intervalS * Bake.nsPerS)

/-- One pass of the loop: the reading it sleeps from, and what it then writes
and when. -/
structure KeyframePass where
  readNs : Int
  asOfNs : Int
  books : List Book

/-- Each pass reads the clock after the one before has written, and writes
after its sleep. -/
def Timely (intervalS : Int) : Int → List KeyframePass → Prop
  | _, [] => True
  | now, p :: passes =>
      now ≤ p.readNs ∧ p.readNs + keyframeDelayNs intervalS p.readNs ≤ p.asOfNs ∧
        Timely intervalS p.asOfNs passes

/-- When the last pass wrote. -/
def lastPassNs : Int → List KeyframePass → Int
  | now, [] => now
  | _, p :: passes => lastPassNs p.asOfNs passes

/-- The passes of the loop, and the shutdown if the run came to it. -/
structure KeyframeRun (intervalS startNs : Int) where
  passes : List KeyframePass
  shutdown : Option (Int × List Book)
  timely : Timely intervalS startNs passes
  last : ∀ s ∈ shutdown, lastPassNs startNs passes ≤ s.1

namespace KeyframeRun

variable {intervalS startNs : Int}

/-- The writes of its passes. -/
def periodicWrites (run : KeyframeRun intervalS startNs) : List KeyframeWrite :=
  run.passes.map fun p => ⟨intervalS, p.asOfNs, p.books⟩

/-- The write at its shutdown, if there is one. -/
def shutdownWrites (run : KeyframeRun intervalS startNs) : List KeyframeWrite :=
  run.shutdown.toList.map fun s => ⟨secondsPerMinute, s.1, s.2⟩

/-- All its writes, in order. -/
def writes (run : KeyframeRun intervalS startNs) : List KeyframeWrite :=
  run.periodicWrites ++ run.shutdownWrites

/-- The keyframes of the run, in the order they were taken. -/
def taken (run : KeyframeRun intervalS startNs) : List KeyframeWrite :=
  run.writes.filter fun w => !w.books.isEmpty

end KeyframeRun

/-- What earlier runs leave: files named by an instant no later than the one
they were taken at. -/
def FiledBy (now : Int) (files : KeyframeFiles) : Prop :=
  ∀ path rows, files.get? path = some rows → ∀ takenNs, keyframeInstant rows = some takenNs →
    path.startNs ≤ takenNs ∧ takenNs ≤ now

/-- Two keyframes taken one right after the other. -/
def Successive (keyframes : List KeyframeWrite) (k k' : KeyframeWrite) : Prop :=
  ∃ earlier later, keyframes = earlier ++ k :: k' :: later

/-- A path comes after another in the order the catalog reads names in. -/
def KeyframePath.Before (p q : KeyframePath) : Prop :=
  p.hour < q.hour ∨ (p.hour = q.hour ∧ p.name < q.name)

/-- Until the next keyframe is taken, the catalog starts from this one. None is
overwritten, and the names are in the order they were taken. -/
structure Selectable (files : KeyframeFiles) (lookbackHours : Nat)
    (keyframes : List KeyframeWrite) : Prop where
  selected : ∀ k k', Successive keyframes k k' → ∀ atWallNs, k.asOfNs ≤ atWallNs →
    atWallNs < k'.asOfNs →
      keyframeBefore files lookbackHours atWallNs = some (k.asOfNs, k.rows)
  kept : ∀ k ∈ keyframes, files.get? k.path = some k.rows
  ordered : keyframes.Pairwise fun k k' => k.path.Before k'.path

/-- The shutdown keyframe is not taken in the first minute of a slot whose
periodic keyframe was taken. -/
def KeyframeRun.ShutdownApart {intervalS startNs : Int} (run : KeyframeRun intervalS startNs) :
    Prop :=
  ∀ p ∈ run.periodicWrites, p.books ≠ [] → ∀ s ∈ run.shutdownWrites, s.books ≠ [] →
    ¬ (p.slotNs ≤ s.asOfNs ∧ s.asOfNs < p.slotNs + nsPerMinute)

/-- Every keyframe is followed by another before the catalog stops looking back
for it. -/
def WithinLookback (lookbackHours : Nat) (keyframes : List KeyframeWrite) : Prop :=
  ∀ k k', Successive keyframes k k' →
    (k'.asOfNs - 1) / Bake.nsPerHour ≤ k.asOfNs / Bake.nsPerHour + lookbackHours

/-! ## Names -/

theorem checkKeyframeInterval_iff {intervalS : Int} :
    checkKeyframeInterval intervalS = .ok () ↔
      0 < intervalS ∧ intervalS % secondsPerMinute = 0 ∧ secondsPerHour % intervalS = 0 := by
  rw [checkKeyframeInterval]
  split
  · next h =>
      constructor
      · intro hok
        cases hok
      · intro hall
        omega
  · next h =>
      constructor
      · intro _
        omega
      · intro _
        rfl

theorem KeyframePath.name_lt_iff {a b : Fin 60} (hour hour' : Int) :
    (KeyframePath.mk hour a).name < (KeyframePath.mk hour' b).name ↔ a < b := by
  have hall : ∀ a b : Fin 60,
      Bake.Date.padded 2 a ++ ".parquet" < Bake.Date.padded 2 b ++ ".parquet" ↔ a < b := by
    decide +kernel
  exact hall a b

theorem KeyframePath.before_iff {p q : KeyframePath} : p.Before q ↔ p.startNs < q.startNs := by
  obtain ⟨hour, minute⟩ := p
  obtain ⟨hour', minute'⟩ := q
  have hlt := minute.isLt
  have hlt' := minute'.isLt
  rw [Before, name_lt_iff, Fin.lt_def]
  simp only [startNs, Bake.nsPerHour, nsPerMinute, Bake.nsPerS, secondsPerMinute]
  omega

theorem mul_nsPerS_of_check {intervalS : Int} (hc : checkKeyframeInterval intervalS = .ok ()) :
    ∃ m k, 0 < m ∧ 0 < k ∧ intervalS * Bake.nsPerS = nsPerMinute * m ∧
      intervalS * Bake.nsPerS * k = Bake.nsPerHour := by
  obtain ⟨hpos, hmin, hhour⟩ := checkKeyframeInterval_iff.mp hc
  obtain ⟨m, hm⟩ := Int.dvd_of_emod_eq_zero hmin
  obtain ⟨k, hk⟩ := Int.dvd_of_emod_eq_zero hhour
  have hm0 : 0 < m := by
    rw [secondsPerMinute] at hm
    omega
  have hk0 : 0 < k := by
    rw [← mul_pos_iff_of_pos_left hpos, ← hk]
    decide
  refine ⟨m, k, hm0, hk0, ?_, ?_⟩
  · rw [hm, nsPerMinute, mul_right_comm]
  · rw [mul_right_comm, ← hk]
    rfl

theorem pathAt_startNs {c : Int} : (pathAt (nsPerMinute * c)).startNs = nsPerMinute * c := by
  simp only [pathAt, KeyframePath.startNs, Bake.nsPerHour, nsPerMinute, Bake.nsPerS,
    secondsPerMinute]
  omega

namespace KeyframeWrite

/-- A write the recorder can make: its interval was accepted and its clock
reads an instant after the epoch. -/
structure Sound (w : KeyframeWrite) : Prop where
  accepted : checkKeyframeInterval w.intervalS = .ok ()
  afterEpoch : 0 ≤ w.asOfNs

variable {w : KeyframeWrite}

theorem Sound.keyframePath (h : w.Sound) : keyframePath w.asOfNs w.intervalS = .ok w.path := by
  rw [Tape.keyframePath, h.accepted]
  exact if_neg (not_lt.mpr h.afterEpoch)

theorem slotNs_eq_mul :
    w.slotNs = w.intervalS * Bake.nsPerS * (w.asOfNs / (w.intervalS * Bake.nsPerS)) := by
  rw [slotNs, Int.emod_def, sub_sub_cancel]

theorem Sound.slotNs_le (h : w.Sound) : w.slotNs ≤ w.asOfNs := by
  have hpos := (checkKeyframeInterval_iff.mp h.accepted).1
  have hnonneg := Int.emod_nonneg w.asOfNs (mul_pos hpos (show 0 < Bake.nsPerS by decide)).ne'
  rw [slotNs]
  omega

/-- The slot of a path is the slot of the write. -/
theorem Sound.path_startNs (h : w.Sound) : w.path.startNs = w.slotNs := by
  obtain ⟨m, -, -, -, hm, -⟩ := mul_nsPerS_of_check h.accepted
  rw [path, slotNs_eq_mul, hm, mul_assoc]
  exact pathAt_startNs

/-- The slots of an hour lie in it, so an image is filed under the hour it was
taken in. -/
theorem Sound.path_hour (h : w.Sound) : w.path.hour = w.asOfNs / Bake.nsPerHour := by
  obtain ⟨m, k, -, hk, -, hhour⟩ := mul_nsPerS_of_check h.accepted
  have hpos := mul_pos (checkKeyframeInterval_iff.mp h.accepted).1 (show 0 < Bake.nsPerS by decide)
  show w.slotNs / Bake.nsPerHour = w.asOfNs / Bake.nsPerHour
  rw [slotNs_eq_mul, ← hhour, Int.mul_ediv_mul_of_pos _ _ hpos, Int.ediv_ediv_of_nonneg hpos.le]

theorem rows_asOfNs {r : KeyframeRow} (h : r ∈ w.rows) : r.asOfRecvNs = w.asOfNs := by
  obtain ⟨b, -, hr⟩ := List.mem_flatMap.mp ((Sorted.sortOn_perm _ _).mem_iff.mp h)
  exact toKeyframe_asOf hr

theorem rows_ne_nil (h : w.books ≠ []) : w.rows ≠ [] := by
  intro hnil
  have hperm := Sorted.sortOn_perm
    (fun r : KeyframeRow => toLex (r.ticker, toLex (r.side, r.priceE4)))
    (w.books.flatMap fun b => b.toKeyframe w.asOfNs)
  have hempty : (w.books.flatMap fun b => b.toKeyframe w.asOfNs) = [] := by
    rw [rows, canonicalRows] at hnil
    rw [hnil] at hperm
    exact hperm.symm.eq_nil
  obtain ⟨b, hb⟩ := List.exists_mem_of_ne_nil _ h
  exact toKeyframe_ne_nil b _ (List.flatMap_eq_nil_iff.mp hempty b hb)

theorem keyframeInstant_rows (h : w.books ≠ []) : keyframeInstant w.rows = some w.asOfNs := by
  rw [keyframeInstant, List.max?_eq_some_iff]
  constructor
  · obtain ⟨r, hr⟩ := List.exists_mem_of_ne_nil _ (rows_ne_nil h)
    exact List.mem_map.mpr ⟨r, hr, rows_asOfNs hr⟩
  · intro t ht
    obtain ⟨r, hr, rfl⟩ := List.mem_map.mp ht
    exact (rows_asOfNs hr).le

end KeyframeWrite

/-! ## What the catalog finds -/

section Lookup

variable {files : KeyframeFiles} {lookbackHours : Nat} {atWallNs : Int}

theorem mem_directoryBackwards {hour : Int} {e : KeyframePath × List KeyframeRow} :
    e ∈ directoryBackwards files hour ↔ files.get? e.1 = some e.2 ∧ e.1.hour = hour := by
  rw [directoryBackwards, List.mem_reverse, (Sorted.sortOn_perm _ _).mem_iff, List.mem_filter,
    decide_eq_true_iff, Dict.get?_eq_some_iff]

/-- The names of one directory, backwards. -/
theorem directoryBackwards_pairwise (files : KeyframeFiles) (hour : Int) :
    (directoryBackwards files hour).Pairwise fun e e' => e'.1.Before e.1 := by
  set inHour := files.entries.filter fun e => e.1.hour = hour with hin
  have hnodup : (inHour.map fun e => e.1.name).Nodup := by
    refine List.Nodup.map_on ?_ (files.nodup.of_map.filter _)
    intro e he e' he' hname
    have hhour := of_decide_eq_true (List.mem_filter.mp he).2
    have hhour' := of_decide_eq_true (List.mem_filter.mp he').2
    obtain ⟨⟨h, m⟩, rows⟩ := e
    obtain ⟨⟨h', m'⟩, rows'⟩ := e'
    obtain rfl : h = hour := hhour
    obtain rfl : h' = h := hhour'
    obtain rfl : m = m' := by
      refine le_antisymm (not_lt.mp fun hlt => ?_) (not_lt.mp fun hlt => ?_)
      · exact hname.not_gt ((KeyframePath.name_lt_iff _ _).mpr hlt)
      · exact hname.not_lt ((KeyframePath.name_lt_iff _ _).mpr hlt)
    have hrows := (Dict.get?_eq_some_iff.mpr (List.mem_filter.mp he).1).symm.trans
      (Dict.get?_eq_some_iff.mpr (List.mem_filter.mp he').1)
    rw [Option.some.inj hrows]
  have hstrict := Sorted.strict_of_nodup
    (Sorted.sortOn_pairwise (fun e : KeyframePath × List KeyframeRow => e.1.name) inHour)
    (((Sorted.sortOn_perm _ inHour).map _).nodup_iff.mpr hnodup)
  rw [directoryBackwards, List.pairwise_reverse]
  refine (List.pairwise_map.mp hstrict).imp_of_mem fun {e e'} he he' hlt => ?_
  have hhour : ∀ e ∈ Sorted.sortOn (fun e => e.1.name) inHour, e.1.hour = hour := fun e he =>
    of_decide_eq_true (List.mem_filter.mp ((Sorted.sortOn_perm _ _).mem_iff.mp he)).2
  exact Or.inr ⟨(hhour e he).trans (hhour e' he').symm, hlt⟩

theorem takenBy_eq_some_iff {e : KeyframePath × List KeyframeRow}
    {found : Int × List KeyframeRow} :
    takenBy atWallNs e = some found ↔
      keyframeInstant e.2 = some found.1 ∧ found.1 ≤ atWallNs ∧ found.2 = e.2 := by
  obtain ⟨takenNs, rows⟩ := found
  rw [takenBy]
  split
  · next h => simp [h]
  · next t h =>
      rw [h]
      split
      · next hle =>
          simp only [Option.some.injEq, Prod.mk.injEq]
          constructor
          · rintro ⟨rfl, rfl⟩
            exact ⟨rfl, hle, rfl⟩
          · rintro ⟨rfl, -, rfl⟩
            exact ⟨rfl, rfl⟩
      · next hgt =>
          constructor
          · intro hnone
            cases hnone
          · rintro ⟨ht, hle, -⟩
            rw [Option.some.inj ht] at hgt
            exact absurd hle hgt

/-- What the catalog starts from is a file of the hours it looks in. -/
theorem exists_of_keyframeBefore {found : Int × List KeyframeRow}
    (h : keyframeBefore files lookbackHours atWallNs = some found) :
    ∃ path, files.get? path = some found.2 ∧ keyframeInstant found.2 = some found.1 ∧
      atWallNs / Bake.nsPerHour ≤ path.hour + lookbackHours := by
  obtain ⟨back, hback, hfound⟩ := List.exists_of_findSome?_eq_some h
  obtain ⟨e, he, htaken⟩ := List.exists_of_findSome?_eq_some hfound
  obtain ⟨hget, hhour⟩ := mem_directoryBackwards.mp he
  obtain ⟨hinst, -, hrows⟩ := takenBy_eq_some_iff.mp htaken
  rw [← hrows] at hget hinst
  refine ⟨e.1, hget, hinst, ?_⟩
  have hlt := List.mem_range.mp hback
  omega

/-- The catalog starts from a file it can reach if every later name is of an
image taken later. -/
theorem keyframeBefore_eq {path : KeyframePath} {rows : List KeyframeRow} {takenNs : Int}
    (hget : files.get? path = some rows) (hinst : keyframeInstant rows = some takenNs)
    (hle : takenNs ≤ atWallNs) (hreach : atWallNs / Bake.nsPerHour ≤ path.hour + lookbackHours)
    (hhour : path.hour ≤ atWallNs / Bake.nsPerHour)
    (hlater : ∀ q rows', files.get? q = some rows' → path.Before q →
      ∀ t, keyframeInstant rows' = some t → atWallNs < t) :
    keyframeBefore files lookbackHours atWallNs = some (takenNs, rows) := by
  have hskip : ∀ e, files.get? e.1 = some e.2 → path.Before e.1 → takenBy atWallNs e = none := by
    intro e he hbefore
    refine Option.eq_none_iff_forall_ne_some.mpr fun found hfound => ?_
    obtain ⟨hinst', hle', -⟩ := takenBy_eq_some_iff.mp hfound
    exact absurd hle' (not_le.mpr (hlater e.1 e.2 he hbefore _ hinst'))
  have hdirectory : (directoryBackwards files path.hour).findSome? (takenBy atWallNs) =
      some (takenNs, rows) := by
    refine Sorted.findSome?_of_pairwise (directoryBackwards_pairwise files path.hour)
      (a := (path, rows)) (mem_directoryBackwards.mpr ⟨hget, rfl⟩)
      (takenBy_eq_some_iff.mpr ⟨hinst, hle, rfl⟩) ?_
    intro e he hbefore
    exact hskip e (mem_directoryBackwards.mp he).1 hbefore
  obtain ⟨back, hback⟩ :=
    Int.eq_ofNat_of_zero_le (show 0 ≤ atWallNs / Bake.nsPerHour - path.hour by omega)
  refine Sorted.findSome?_of_pairwise (a := back) List.pairwise_lt_range ?_ ?_ ?_
  · exact List.mem_range.mpr (by omega)
  · rw [← hback, sub_sub_cancel]
    exact hdirectory
  · intro b _ hb
    refine List.findSome?_eq_none_iff.mpr fun e he => ?_
    obtain ⟨hget', hhour'⟩ := mem_directoryBackwards.mp he
    exact hskip e hget' (Or.inl (by omega))

end Lookup

/-! ## The files a run leaves -/

namespace KeyframeWrite

variable {files after : KeyframeFiles} {writes : List KeyframeWrite}

theorem Sound.perform {w : KeyframeWrite} (h : w.Sound) (files : KeyframeFiles) :
    w.perform files = .ok (if w.books.isEmpty then files else files.set w.path w.rows) := by
  rw [KeyframeWrite.perform, h.keyframePath]
  split
  · rfl
  · rfl

theorem performAll_cons {w : KeyframeWrite} (h : w.Sound) :
    performAll (w :: writes) files =
      performAll writes (if w.books.isEmpty then files else files.set w.path w.rows) := by
  rw [performAll, h.perform]

theorem performAll_ok (h : ∀ w ∈ writes, w.Sound) (files : KeyframeFiles) :
    ∃ after, performAll writes files = .ok after := by
  induction writes generalizing files with
  | nil => exact ⟨files, rfl⟩
  | cons w writes ih =>
      rw [performAll_cons (h w List.mem_cons_self)]
      exact ih (fun w' hw => h w' (List.mem_cons_of_mem _ hw)) _

/-- A path that nothing is written to keeps its file. -/
theorem performAll_frame (h : ∀ w ∈ writes, w.Sound) (hrun : performAll writes files = .ok after)
    {path : KeyframePath} (hpath : ∀ w ∈ writes, w.books ≠ [] → w.path ≠ path) :
    after.get? path = files.get? path := by
  induction writes generalizing files with
  | nil =>
      cases hrun
      rfl
  | cons w writes ih =>
      rw [performAll_cons (h w List.mem_cons_self)] at hrun
      rw [ih (fun w' hw => h w' (List.mem_cons_of_mem _ hw)) hrun
        (fun w' hw => hpath w' (List.mem_cons_of_mem _ hw))]
      split
      · rfl
      · next hb =>
          refine Dict.get?_set_ne (hpath w List.mem_cons_self ?_)
          simpa using hb

/-- Every file was there before or is of a keyframe that was written. -/
theorem mem_performAll (h : ∀ w ∈ writes, w.Sound) (hrun : performAll writes files = .ok after)
    {path : KeyframePath} {rows : List KeyframeRow} (hget : after.get? path = some rows) :
    files.get? path = some rows ∨
      ∃ w ∈ writes, w.books ≠ [] ∧ w.path = path ∧ w.rows = rows := by
  induction writes generalizing files with
  | nil =>
      cases hrun
      exact Or.inl hget
  | cons w writes ih =>
      rw [performAll_cons (h w List.mem_cons_self)] at hrun
      rcases ih (fun w' hw => h w' (List.mem_cons_of_mem _ hw)) hrun with hold | hnew
      · split at hold
        · exact Or.inl hold
        · next hb =>
            rw [Dict.get?_set] at hold
            split at hold
            · next hpath =>
                exact Or.inr ⟨w, List.mem_cons_self, by simpa using hb, hpath, Option.some.inj hold⟩
            · exact Or.inl hold
      · obtain ⟨w', hw, hrest⟩ := hnew
        exact Or.inr ⟨w', List.mem_cons_of_mem _ hw, hrest⟩

/-- Keyframes of distinct paths are all there in the end. -/
theorem performAll_kept (h : ∀ w ∈ writes, w.Sound) (hrun : performAll writes files = .ok after)
    (hpaths : (writes.filter fun w => !w.books.isEmpty).Pairwise fun k k' => k.path ≠ k'.path)
    {k : KeyframeWrite} (hk : k ∈ writes) (hbooks : k.books ≠ []) :
    after.get? k.path = some k.rows := by
  induction writes generalizing files with
  | nil => cases hk
  | cons w writes ih =>
      have hsound := fun w' hw => h w' (List.mem_cons_of_mem w hw)
      rw [performAll_cons (h w List.mem_cons_self)] at hrun
      rw [List.filter_cons] at hpaths
      rcases List.mem_cons.mp hk with rfl | hk
      · have hfull : (!k.books.isEmpty) = true := by simpa using hbooks
        rw [if_pos hfull] at hpaths
        have hlater := (List.pairwise_cons.mp hpaths).1
        have hframe : after.get? k.path = Dict.get? _ k.path :=
          performAll_frame hsound hrun fun w' hw hb =>
            (hlater w' (List.mem_filter.mpr ⟨hw, by simpa using hb⟩)).symm
        rw [hframe, if_neg (by simpa using hbooks), Dict.get?_set_self]
      · refine ih hsound hrun ?_ hk
        split at hpaths
        · exact (List.pairwise_cons.mp hpaths).2
        · exact hpaths

end KeyframeWrite

/-! ## The instants of a run -/

/-- The loop wakes at a boundary it slept past. -/
theorem read_lt_slot {intervalS readNs asOfNs : Int} (hpos : 0 < intervalS * Bake.nsPerS)
    (h : readNs + keyframeDelayNs intervalS readNs ≤ asOfNs) :
    readNs < asOfNs - asOfNs % (intervalS * Bake.nsPerS) := by
  rw [keyframeDelayNs] at h
  set slot := intervalS * Bake.nsPerS
  have hread := Int.emod_lt_of_pos readNs hpos
  have hboundary : readNs + (slot - readNs % slot) = slot * (readNs / slot + 1) := by
    rw [Int.emod_def, mul_add, mul_one]
    omega
  rw [hboundary] at h
  have hdiv : readNs / slot + 1 ≤ asOfNs / slot := by
    rw [Int.le_ediv_iff_mul_le hpos, mul_comm]
    exact h
  calc readNs < readNs + (slot - readNs % slot) := by omega
    _ = slot * (readNs / slot + 1) := hboundary
    _ ≤ slot * (asOfNs / slot) := Int.mul_le_mul_of_nonneg_left hdiv hpos.le
    _ = asOfNs - asOfNs % slot := by rw [Int.emod_def, sub_sub_cancel]

/-- What the passes of the loop say of the writes they make. -/
structure InStep (now last : Int) (writes : List KeyframeWrite) : Prop where
  after : ∀ w ∈ writes, now < w.slotNs
  upTo : ∀ w ∈ writes, w.asOfNs ≤ last
  order : writes.Pairwise fun k k' => k.asOfNs < k'.slotNs
  grows : now ≤ last

theorem inStep_of_timely {intervalS now : Int} (hc : checkKeyframeInterval intervalS = .ok ())
    (hnow : 0 ≤ now) {passes : List KeyframePass} (h : Timely intervalS now passes) :
    InStep now (lastPassNs now passes) (passes.map fun p => ⟨intervalS, p.asOfNs, p.books⟩) := by
  have hpos := mul_pos (checkKeyframeInterval_iff.mp hc).1 (show 0 < Bake.nsPerS by decide)
  induction passes generalizing now with
  | nil => exact ⟨by simp, by simp, List.Pairwise.nil, le_rfl⟩
  | cons p passes ih =>
      obtain ⟨hread, hwake, hrest⟩ := h
      have hslot := read_lt_slot hpos hwake
      have hfloor : p.asOfNs - p.asOfNs % (intervalS * Bake.nsPerS) ≤ p.asOfNs := by
        have := Int.emod_nonneg p.asOfNs hpos.ne'
        omega
      have ih := ih (hnow.trans (hread.trans (hslot.le.trans hfloor))) hrest
      have hnext : now < p.asOfNs := by omega
      refine ⟨?_, ?_, ?_, hnext.le.trans ih.grows⟩
      · intro w hw
        rcases List.mem_cons.mp hw with rfl | hw
        · exact lt_of_le_of_lt hread hslot
        · exact hnext.trans (ih.after w hw)
      · intro w hw
        rcases List.mem_cons.mp hw with rfl | hw
        · exact ih.grows
        · exact ih.upTo w hw
      · exact List.pairwise_cons.mpr ⟨ih.after, ih.order⟩

namespace KeyframeRun

variable {intervalS startNs : Int} {run : KeyframeRun intervalS startNs}

theorem inStep (run : KeyframeRun intervalS startNs)
    (hc : checkKeyframeInterval intervalS = .ok ()) (hstart : 0 ≤ startNs) :
    InStep startNs (lastPassNs startNs run.passes) run.periodicWrites :=
  inStep_of_timely hc hstart run.timely

theorem shutdown_last (run : KeyframeRun intervalS startNs) {s : KeyframeWrite}
    (hs : s ∈ run.shutdownWrites) :
    s.intervalS = secondsPerMinute ∧ lastPassNs startNs run.passes ≤ s.asOfNs := by
  obtain ⟨e, he, rfl⟩ := List.mem_map.mp hs
  exact ⟨rfl, run.last e (Option.mem_toList.mp he)⟩

theorem sound (run : KeyframeRun intervalS startNs)
    (hc : checkKeyframeInterval intervalS = .ok ()) (hstart : 0 ≤ startNs) :
    ∀ w ∈ run.writes, w.Sound := by
  have hin := run.inStep hc hstart
  intro w hw
  rcases List.mem_append.mp hw with hp | hs
  · obtain ⟨p, -, rfl⟩ := List.mem_map.mp hp
    refine ⟨hc, ?_⟩
    have hafter := hin.after _ hp
    have hpos := mul_pos (checkKeyframeInterval_iff.mp hc).1 (show 0 < Bake.nsPerS by decide)
    have hmod := Int.emod_nonneg p.asOfNs hpos.ne'
    rw [KeyframeWrite.slotNs] at hafter
    show 0 ≤ p.asOfNs
    dsimp only at hafter
    omega
  · obtain ⟨hinterval, hlast⟩ := run.shutdown_last hs
    refine ⟨?_, hstart.trans (hin.grows.trans hlast)⟩
    rw [hinterval]
    decide

theorem shutdownWrites_pairwise (run : KeyframeRun intervalS startNs)
    (r : KeyframeWrite → KeyframeWrite → Prop) : run.shutdownWrites.Pairwise r := by
  rw [shutdownWrites]
  cases run.shutdown with
  | none => exact List.Pairwise.nil
  | some s => exact List.pairwise_singleton _ _

/-- Every keyframe with another after it is named by a boundary after the
start, and none was taken before it. -/
theorem writes_order (run : KeyframeRun intervalS startNs)
    (hc : checkKeyframeInterval intervalS = .ok ()) (hstart : 0 ≤ startNs) :
    run.writes.Pairwise fun k k' => startNs < k.slotNs ∧ k.asOfNs ≤ k'.asOfNs := by
  have hin := run.inStep hc hstart
  have hsound := run.sound hc hstart
  refine List.pairwise_append.mpr ⟨?_, run.shutdownWrites_pairwise _, ?_⟩
  · refine hin.order.imp_of_mem fun {k k'} hk hk' hlt => ⟨hin.after k hk, hlt.le.trans ?_⟩
    exact (hsound k' (List.mem_append_left _ hk')).slotNs_le
  · intro k hk s hs
    exact ⟨hin.after k hk, (hin.upTo k hk).trans (run.shutdown_last hs).2⟩

/-- The names are in the order of the instants exactly if the shutdown keyframe
does not take the name of a slot. -/
theorem slots_increase_iff (run : KeyframeRun intervalS startNs)
    (hc : checkKeyframeInterval intervalS = .ok ()) (hstart : 0 ≤ startNs) :
    (run.taken.Pairwise fun k k' => k.slotNs < k'.slotNs) ↔ run.ShutdownApart := by
  have hin := run.inStep hc hstart
  have hsound := run.sound hc hstart
  rw [taken, writes, List.filter_append, List.pairwise_append]
  have hperiodic : (run.periodicWrites.filter fun w => !w.books.isEmpty).Pairwise
      fun k k' => k.slotNs < k'.slotNs := by
    refine (hin.order.imp_of_mem fun {k k'} hk _ hlt => lt_of_le_of_lt ?_ hlt).filter _
    exact (hsound k (List.mem_append_left _ hk)).slotNs_le
  have hshutdown := (run.shutdownWrites_pairwise fun k k' => k.slotNs < k'.slotNs).filter
    fun w => !w.books.isEmpty
  have hsplit : ∀ k ∈ run.periodicWrites, ∀ s ∈ run.shutdownWrites,
      (k.slotNs < s.slotNs ↔ ¬ (k.slotNs ≤ s.asOfNs ∧ s.asOfNs < k.slotNs + nsPerMinute)) := by
    intro k hk s hs
    have hks := hsound k (List.mem_append_left _ hk)
    obtain ⟨m, -, -, -, hm, -⟩ := mul_nsPerS_of_check hks.accepted
    obtain ⟨hinterval, hlast⟩ := run.shutdown_last hs
    have hle := hks.slotNs_le.trans ((hin.upTo k hk).trans hlast)
    have hslot : k.slotNs = nsPerMinute * (m * (k.asOfNs / (k.intervalS * Bake.nsPerS))) := by
      rw [KeyframeWrite.slotNs_eq_mul, ← mul_assoc, ← hm]
    have hminute : s.slotNs = s.asOfNs - s.asOfNs % nsPerMinute := by
      rw [KeyframeWrite.slotNs, hinterval]
      rfl
    rw [hslot] at hle ⊢
    rw [hminute]
    simp only [nsPerMinute, Bake.nsPerS, secondsPerMinute] at hle ⊢
    omega
  constructor
  · rintro ⟨-, -, hcross⟩ k hk hkb s hs hsb
    refine (hsplit k hk s hs).mp (hcross k ?_ s ?_)
    · exact List.mem_filter.mpr ⟨hk, by simpa using hkb⟩
    · exact List.mem_filter.mpr ⟨hs, by simpa using hsb⟩
  · intro hapart
    refine ⟨hperiodic, hshutdown, fun k hk s hs => ?_⟩
    obtain ⟨hk, hkb⟩ := List.mem_filter.mp hk
    obtain ⟨hs, hsb⟩ := List.mem_filter.mp hs
    exact (hsplit k hk s hs).mpr (hapart k hk (by simpa using hkb) s hs (by simpa using hsb))

theorem mem_taken {w : KeyframeWrite} :
    w ∈ run.taken ↔ w ∈ run.writes ∧ w.books ≠ [] := by
  rw [taken, List.mem_filter]
  simp

variable {files after : KeyframeFiles}

/-- A run leaves its files named as it found them, so what it asks of the files
holds for the run after it. -/
theorem filedBy (run : KeyframeRun intervalS startNs)
    (hc : checkKeyframeInterval intervalS = .ok ()) (hstart : 0 ≤ startNs)
    (hfiled : FiledBy startNs files)
    (hrun : KeyframeWrite.performAll run.writes files = .ok after) {now : Int}
    (hnow : startNs ≤ now) (hlast : ∀ w ∈ run.writes, w.asOfNs ≤ now) : FiledBy now after := by
  have hsound := run.sound hc hstart
  intro path rows hget takenNs htaken
  rcases KeyframeWrite.mem_performAll hsound hrun hget with hold | ⟨w, hw, hbooks, rfl, rfl⟩
  · obtain ⟨hname, hby⟩ := hfiled path rows hold takenNs htaken
    exact ⟨hname, hby.trans hnow⟩
  · rw [KeyframeWrite.keyframeInstant_rows hbooks, Option.some.injEq] at htaken
    subst htaken
    exact ⟨(hsound w hw).path_startNs.trans_le (hsound w hw).slotNs_le, hlast w hw⟩

end KeyframeRun

theorem KeyframePath.hour_le {p : KeyframePath} {ns : Int} (h : p.startNs ≤ ns) :
    p.hour ≤ ns / Bake.nsPerHour := by
  simp only [startNs, Bake.nsPerHour, nsPerMinute, Bake.nsPerS, secondsPerMinute] at h ⊢
  omega

namespace KeyframeRun

variable {intervalS startNs : Int} {files after : KeyframeFiles} {lookbackHours : Nat}

theorem withinLookback_of_selectable (run : KeyframeRun intervalS startNs)
    (hc : checkKeyframeInterval intervalS = .ok ()) (hstart : 0 ≤ startNs)
    (hfiled : FiledBy startNs files)
    (hrun : KeyframeWrite.performAll run.writes files = .ok after)
    (h : Selectable after lookbackHours run.taken) : WithinLookback lookbackHours run.taken := by
  intro k k' hsucc
  by_cases hle : k.asOfNs ≤ k'.asOfNs - 1
  · have hfound := h.selected k k' hsucc (k'.asOfNs - 1) hle (by omega)
    obtain ⟨path, hget, hinst, hreach⟩ := exists_of_keyframeBefore hfound
    have hnamed : path.startNs ≤ k.asOfNs := by
      rcases KeyframeWrite.mem_performAll (run.sound hc hstart) hrun hget with hold | hnew
      · exact (hfiled path _ hold _ hinst).1
      · obtain ⟨w, hw, hbooks, rfl, hrows⟩ := hnew
        have hsound := run.sound hc hstart w hw
        rw [← hrows, KeyframeWrite.keyframeInstant_rows hbooks, Option.some.injEq] at hinst
        rw [hsound.path_startNs]
        exact hsound.slotNs_le.trans_eq hinst
    have hhour := KeyframePath.hour_le hnamed
    omega
  · have hmono := Int.ediv_le_ediv (show 0 < Bake.nsPerHour by decide)
      (show k'.asOfNs - 1 ≤ k.asOfNs by omega)
    omega

theorem selectable_of_apart (run : KeyframeRun intervalS startNs)
    (hc : checkKeyframeInterval intervalS = .ok ()) (hstart : 0 ≤ startNs)
    (hfiled : FiledBy startNs files)
    (hrun : KeyframeWrite.performAll run.writes files = .ok after) (hapart : run.ShutdownApart)
    (hwithin : WithinLookback lookbackHours run.taken) :
    Selectable after lookbackHours run.taken := by
  have hsound := run.sound hc hstart
  have htaken : ∀ k ∈ run.taken, k.Sound ∧ k.books ≠ [] := fun k hk =>
    ⟨hsound k (mem_taken.mp hk).1, (mem_taken.mp hk).2⟩
  have hslots := (run.slots_increase_iff hc hstart).mpr hapart
  have horder := (run.writes_order hc hstart).filter fun w => !w.books.isEmpty
  have hkept : ∀ k ∈ run.taken, after.get? k.path = some k.rows := by
    intro k hk
    refine KeyframeWrite.performAll_kept hsound hrun ?_ (mem_taken.mp hk).1 (mem_taken.mp hk).2
    refine hslots.imp_of_mem fun {k k'} hk hk' hlt heq => ?_
    rw [← (htaken k hk).1.path_startNs, ← (htaken k' hk').1.path_startNs, heq] at hlt
    exact lt_irrefl _ hlt
  refine ⟨?_, hkept, ?_⟩
  · intro k k' hsucc atWallNs hle hlt
    have hwindow := hwithin k k' hsucc
    obtain ⟨earlier, later, hsplit⟩ := hsucc
    have hk : k ∈ run.taken := by
      rw [hsplit]
      exact List.mem_append_right _ List.mem_cons_self
    obtain ⟨hks, hkb⟩ := htaken k hk
    have hhour := hks.path_hour
    refine keyframeBefore_eq (hkept k hk) (KeyframeWrite.keyframeInstant_rows hkb) hle ?_ ?_ ?_
    · have hle' : atWallNs ≤ k'.asOfNs - 1 := by omega
      have := Int.ediv_le_ediv (show 0 < Bake.nsPerHour by decide) hle'
      omega
    · have := Int.ediv_le_ediv (show 0 < Bake.nsPerHour by decide) hle
      omega
    · intro q rows hq hbefore t ht
      rw [KeyframePath.before_iff, hks.path_startNs] at hbefore
      rw [taken] at hsplit
      rw [hsplit] at horder
      have hfront := List.pairwise_cons.mp (List.pairwise_append.mp horder).2.1
      rcases KeyframeWrite.mem_performAll hsound hrun hq with hold | ⟨w, hw, hwb, rfl, rfl⟩
      · -- the files of earlier runs have names before any boundary of this one
        obtain ⟨hname, hby⟩ := hfiled q rows hold t ht
        have hafter := (hfront.1 k' List.mem_cons_self).1
        omega
      · rw [KeyframeWrite.keyframeInstant_rows hwb, Option.some.injEq] at ht
        rw [(hsound w hw).path_startNs] at hbefore
        have hmem : w ∈ run.taken := mem_taken.mpr ⟨hw, hwb⟩
        rw [taken, hsplit] at hslots hmem
        rcases List.mem_append.mp hmem with hearlier | hfrom
        · have := (List.pairwise_append.mp hslots).2.2 w hearlier k List.mem_cons_self
          omega
        · rcases List.mem_cons.mp hfrom with rfl | hlater
          · exact absurd hbefore (lt_irrefl _)
          · have hk' : k'.asOfNs ≤ w.asOfNs := by
              rcases List.mem_cons.mp hlater with rfl | hlater
              · exact le_rfl
              · exact ((List.pairwise_cons.mp hfront.2).1 w hlater).2
            omega
  · refine hslots.imp_of_mem fun {k k'} hk hk' hlt => ?_
    rw [KeyframePath.before_iff, (htaken k hk).1.path_startNs, (htaken k' hk').1.path_startNs]
    exact hlt

/-- The keyframes of a run stay selectable exactly if the shutdown keyframe is
not taken in the first minute of a slot that has its periodic keyframe, and the
catalog looks back as far as the keyframes are apart. -/
theorem selectable_iff (run : KeyframeRun intervalS startNs)
    (hc : checkKeyframeInterval intervalS = .ok ()) (hstart : 0 ≤ startNs)
    (hfiled : FiledBy startNs files) (lookbackHours : Nat) :
    ∃ after, KeyframeWrite.performAll run.writes files = .ok after ∧
      (Selectable after lookbackHours run.taken ↔
        run.ShutdownApart ∧ WithinLookback lookbackHours run.taken) := by
  obtain ⟨after, hrun⟩ := KeyframeWrite.performAll_ok (run.sound hc hstart) files
  refine ⟨after, hrun, ?_, ?_⟩
  · intro h
    refine ⟨(run.slots_increase_iff hc hstart).mp ?_,
      run.withinLookback_of_selectable hc hstart hfiled hrun h⟩
    refine h.ordered.imp_of_mem fun {k k'} hk hk' hbefore => ?_
    rw [KeyframePath.before_iff, (run.sound hc hstart k (mem_taken.mp hk).1).path_startNs,
      (run.sound hc hstart k' (mem_taken.mp hk').1).path_startNs] at hbefore
    exact hbefore
  · rintro ⟨hapart, hwithin⟩
    exact run.selectable_of_apart hc hstart hfiled hrun hapart hwithin

/-- A run of one periodic keyframe at five past, shut down a minute and a half
later. -/
def lateShutdown : KeyframeRun 300 0 where
  passes := [⟨0, 300100000000, [Book.new "KXHIGH"]⟩]
  shutdown := some (390000000000, [Book.new "KXHIGH"])
  timely := ⟨by decide, by decide, trivial⟩
  last := by decide

theorem selectable_lateShutdown :
    ∃ after, KeyframeWrite.performAll lateShutdown.writes ∅ = .ok after ∧
      Selectable after 24 lateShutdown.taken := by
  have hnothing : FiledBy 0 ∅ := fun _ _ h => absurd h (by simp)
  obtain ⟨after, hrun, hiff⟩ := lateShutdown.selectable_iff (by decide) (by decide) hnothing 24
  refine ⟨after, hrun, hiff.mpr ⟨?_, ?_⟩⟩
  · intro p hp _ s hs _
    obtain rfl := List.mem_singleton.mp hp
    obtain rfl := List.mem_singleton.mp hs
    decide
  · intro k k' hsucc
    obtain ⟨earlier, later, hsplit⟩ := hsucc
    have hk : k ∈ lateShutdown.writes := (mem_taken.mp (by rw [hsplit]; simp)).1
    have hk' : k' ∈ lateShutdown.writes := (mem_taken.mp (by rw [hsplit]; simp)).1
    rcases List.mem_cons.mp hk with rfl | hk
    · rcases List.mem_cons.mp hk' with rfl | hk'
      · decide
      · obtain rfl := List.mem_singleton.mp hk'
        decide
    · obtain rfl := List.mem_singleton.mp hk
      rcases List.mem_cons.mp hk' with rfl | hk'
      · decide
      · obtain rfl := List.mem_singleton.mp hk'
        decide

/-- The same run, shut down within its first minute. -/
def earlyShutdown : KeyframeRun 300 0 where
  passes := [⟨0, 300100000000, [Book.new "KXHIGH"]⟩]
  shutdown := some (330000000000, [Book.new "KXHIGH"])
  timely := ⟨by decide, by decide, trivial⟩
  last := by decide

/-- The files it leaves. -/
def earlyFiles : KeyframeFiles :=
  match KeyframeWrite.performAll earlyShutdown.writes ∅ with
  | .error _ => ∅
  | .ok files => files

/-- Its shutdown keyframe is filed as `00/05.parquet` too, and no keyframe is
left from before it. -/
theorem earlyShutdown_replaces :
    checkKeyframeInterval 300 = .ok () ∧
      KeyframeWrite.performAll earlyShutdown.writes ∅ = .ok earlyFiles ∧
      keyframeBefore earlyFiles 24 300200000000 = none ∧
      ¬ Selectable earlyFiles 24 earlyShutdown.taken := by
  have hnone : keyframeBefore earlyFiles 24 300200000000 = none := by decide +kernel
  refine ⟨by decide, rfl, hnone, fun h => ?_⟩
  have hfound := h.selected _ _ ⟨[], [], rfl⟩ 300200000000 (by decide) (by decide)
  rw [hnone] at hfound
  cases hfound

/-- A keyframe in every slot is within an hour's lookback of the next. -/
theorem withinLookback_of_adjacent (run : KeyframeRun intervalS startNs)
    (hc : checkKeyframeInterval intervalS = .ok ()) (hstart : 0 ≤ startNs)
    (hlookback : 1 ≤ lookbackHours)
    (hadjacent : ∀ k k', Successive run.taken k k' →
      k'.asOfNs < k.slotNs + 2 * (k.intervalS * Bake.nsPerS)) :
    WithinLookback lookbackHours run.taken := by
  intro k k' hsucc
  have hnext := hadjacent k k' hsucc
  obtain ⟨earlier, later, hsplit⟩ := hsucc
  have hk : k ∈ run.taken := by
    rw [hsplit]
    exact List.mem_append_right _ List.mem_cons_self
  have hsound := run.sound hc hstart k (mem_taken.mp hk).1
  obtain ⟨-, n, -, hn, -, hhour⟩ := mul_nsPerS_of_check hsound.accepted
  have hpos := mul_pos (checkKeyframeInterval_iff.mp hsound.accepted).1
    (show 0 < Bake.nsPerS by decide)
  have hfile : k.slotNs / Bake.nsPerHour = k.asOfNs / Bake.nsPerHour := hsound.path_hour
  have hlookback' : (1 : Int) ≤ lookbackHours := by exact_mod_cast hlookback
  rw [← hfile]
  have hbound : (k'.asOfNs - 1) / Bake.nsPerHour ≤ k.slotNs / Bake.nsPerHour + 1 := by
    rcases eq_or_lt_of_le (show 1 ≤ n by omega) with hone | htwo
    · -- a slot is an hour, and begins with it
      have hn1 : n = 1 := by omega
      rw [hn1, mul_one] at hhour
      have hmul : k.slotNs = Bake.nsPerHour * (k.asOfNs / Bake.nsPerHour) := by
        rw [KeyframeWrite.slotNs_eq_mul, hhour]
      rw [hhour] at hnext
      simp only [Bake.nsPerHour, Bake.nsPerS] at hmul hnext ⊢
      omega
    · have hhalf : 2 * (k.intervalS * Bake.nsPerS) ≤ Bake.nsPerHour := by
        rw [← hhour, mul_comm]
        exact Int.mul_le_mul_of_nonneg_left (by omega) hpos.le
      simp only [Bake.nsPerHour, Bake.nsPerS] at hhalf hnext ⊢
      omega
  omega

end KeyframeRun

/-- Until the next keyframe is taken, a state is computed from its books: of the
markets asked for, each is read as it was. -/
theorem Selectable.keyframeBooks {after : KeyframeFiles} {lookbackHours : Nat}
    {keyframes : List KeyframeWrite}
    (h : Selectable after lookbackHours keyframes) {k k' : KeyframeWrite}
    (hsucc : Successive keyframes k k') {atWallNs : Int} (hfrom : k.asOfNs ≤ atWallNs)
    (huntil : atWallNs < k'.asOfNs) (hdistinct : (k.books.map Book.ticker).Nodup)
    (hinv : ∀ b ∈ k.books, b.Inv) (hun : ∀ b ∈ k.books, ¬ b.Crossed)
    (tickers : Option (List Ticker)) :
    ∃ books, Tape.keyframeBooks after lookbackHours atWallNs tickers = .ok (k.asOfNs, books) ∧
      ∀ b ∈ k.books, (∀ wanted ∈ tickers, b.ticker ∈ wanted) →
        ∃ b', books.get? b.ticker = some b' ∧ b'.SameContents b := by
  have hrows : k.rows.Perm (keyframeRows k.books fun _ => k.asOfNs) := Sorted.sortOn_perm _ _
  rw [Tape.keyframeBooks, h.selected k k' hsucc atWallNs hfrom huntil]
  dsimp only
  obtain ⟨read, hsub, hin, hread⟩ : ∃ read : List Book, read.Sublist k.books ∧
      (∀ b ∈ k.books, (∀ wanted ∈ tickers, b.ticker ∈ wanted) → b ∈ read) ∧
      (readKeyframe tickers k.rows).Perm (keyframeRows read fun _ => k.asOfNs) := by
    cases tickers with
    | none => exact ⟨k.books, List.Sublist.refl _, fun b hb _ => hb, hrows⟩
    | some wanted =>
        refine ⟨_, List.filter_sublist, fun b hb hall => List.mem_filter.mpr
          ⟨hb, decide_eq_true (hall wanted rfl)⟩, ?_⟩
        rw [← keyframeRows_wanted]
        exact hrows.filter _
  have hnodup := hdistinct.sublist (hsub.map Book.ticker)
  have hsound : ∀ b ∈ read, b.Inv := fun b hb => hinv b (hsub.subset hb)
  obtain ⟨books, hbooks⟩ := rows_read hnodup hsound hread fun b hb => hun b (hsub.subset hb)
  rw [hbooks]
  refine ⟨books, rfl, fun b hb hall => ?_⟩
  obtain ⟨b', hget, -, hsame⟩ := books_of_rows hnodup hsound hread hbooks (hin b hb hall)
  exact ⟨b', hget, hsame⟩

end Tape
