import Mathlib
import Tape.Bake.Spill

/-!
# The parts hold the rows

The rows of a bucket, in the order they were added, are the same however often
the buffer was spilled: each spill sorts its rows by bucket without moving rows
of one bucket past each other (`Holds`). A part's pieces of the batches are
therefore its ranges of the buckets, up to the order in which batches of
different buckets lie in the spill file, and the sort by keys and ordinal
forgets that order. What is laid out are all buckets, each from its first row
to its last.
-/

namespace Tape.Bake

variable {maxPartRows : Nat}

/-! ## The layout -/

namespace BucketRange

/-- How many rows a range takes. -/
def size (r : BucketRange) : Nat := r.stop - r.first

end BucketRange

/-- How many rows a part takes. -/
def rowsOfPart (part : List BucketRange) : Nat := (part.map BucketRange.size).sum

/-- The ranges a bucket is laid out in. -/
def rangesOf (maxPartRows : Nat) (hmax : 0 < maxPartRows) (bucket rows : Nat) :
    List BucketRange :=
  if rows = 0 then []
  else
    (cutParts maxPartRows hmax bucket rows 0).1.flatten ++
      [⟨bucket, (cutParts maxPartRows hmax bucket rows 0).2, rows⟩]

/-- What is cut off: parts of exactly the bound, and a rest that fits and is not
empty. -/
theorem cutParts_spec (hmax : 0 < maxPartRows) (bucket : Nat) {rows first : Nat}
    (h : first < rows) :
    (∀ part ∈ (cutParts maxPartRows hmax bucket rows first).1, rowsOfPart part = maxPartRows) ∧
      (cutParts maxPartRows hmax bucket rows first).2 < rows ∧
      rows - (cutParts maxPartRows hmax bucket rows first).2 ≤ maxPartRows ∧
      (rows - first ≤ maxPartRows → cutParts maxPartRows hmax bucket rows first = ([], first)) := by
  induction hn : rows - first using Nat.strong_induction_on generalizing first with
  | _ n ih =>
      rw [cutParts]
      split
      · next hlong =>
          obtain ⟨hparts, hlt, hfits, -⟩ :=
            ih (rows - (first + maxPartRows)) (by omega) (by omega) rfl
          refine ⟨fun part hpart => ?_, hlt, hfits, fun hshort => by omega⟩
          rcases List.mem_cons.mp hpart with rfl | hpart
          · simp [rowsOfPart, BucketRange.size]
          · exact hparts part hpart
      · next hshort => exact ⟨nofun, h, by omega, fun _ => rfl⟩

/-- Where each range lies. -/
theorem cutParts_bounds (hmax : 0 < maxPartRows) (bucket : Nat) {rows first : Nat} :
    ∀ part ∈ (cutParts maxPartRows hmax bucket rows first).1, ∀ r ∈ part,
      r.bucket = bucket ∧ r.first < r.stop ∧ r.stop ≤ rows := by
  induction hn : rows - first using Nat.strong_induction_on generalizing first with
  | _ n ih =>
      rw [cutParts]
      split
      · next hlong =>
          intro part hpart r hr
          rcases List.mem_cons.mp hpart with rfl | hpart
          · obtain rfl := List.mem_singleton.mp hr
            refine ⟨rfl, ?_, ?_⟩
            · show first < first + maxPartRows
              omega
            · show first + maxPartRows ≤ rows
              omega
          · exact ih (rows - (first + maxPartRows)) (by omega) rfl part hpart r hr
      · exact nofun

/-- A part that may be written. -/
structure FitPart (maxPartRows : Nat) (part : List BucketRange) : Prop where
  nonempty : part ≠ []
  fits : rowsOfPart part ≤ maxPartRows

/-- The layout after some buckets: their ranges in order, in parts that fit. -/
structure Layout.Holds (maxPartRows : Nat) (hmax : 0 < maxPartRows) (l : Layout)
    (ranges : List BucketRange) : Prop where
  inOrder : l.parts.flatten ++ l.current = ranges
  fit : ∀ part ∈ l.parts, FitPart maxPartRows part
  count : l.currentRows = rowsOfPart l.current
  room : l.currentRows ≤ maxPartRows

theorem rowsOfPart_append (part part' : List BucketRange) :
    rowsOfPart (part ++ part') = rowsOfPart part + rowsOfPart part' := by
  rw [rowsOfPart, List.map_append, List.sum_append]
  rfl

theorem layBucket_holds (hmax : 0 < maxPartRows) {l : Layout} {ranges : List BucketRange}
    (h : l.Holds maxPartRows hmax ranges) (bucket rows : Nat) :
    (layBucket maxPartRows hmax l bucket rows).Holds maxPartRows hmax
      (ranges ++ rangesOf maxPartRows hmax bucket rows) := by
  rw [layBucket, rangesOf]
  split
  · rw [List.append_nil]
    exact h
  · next hrows =>
      obtain ⟨hparts, hlt, hfits, hshort⟩ :=
        cutParts_spec hmax bucket (Nat.pos_of_ne_zero hrows)
      have hcut : ∀ part ∈ (cutParts maxPartRows hmax bucket rows 0).1,
          FitPart maxPartRows part := by
        intro part hpart
        refine ⟨?_, (hparts part hpart).le⟩
        rintro rfl
        have hsize : rowsOfPart [] = maxPartRows := hparts [] hpart
        have hzero : rowsOfPart [] = 0 := rfl
        omega
      have hrange : rowsOfPart
          [⟨bucket, (cutParts maxPartRows hmax bucket rows 0).2, rows⟩] =
            rows - (cutParts maxPartRows hmax bucket rows 0).2 := by
        simp [rowsOfPart, BucketRange.size]
      dsimp only
      split
      · -- the part being filled is closed
        next hfull =>
          refine ⟨?_, ?_, ?_, ?_⟩
          · dsimp only
            rw [← h.inOrder, List.flatten_append, List.flatten_append, List.flatten_singleton,
              List.nil_append, List.append_assoc]
          · intro part hpart
            rcases List.mem_append.mp hpart with hpart | hpart
            · rcases List.mem_append.mp hpart with hpart | hpart
              · exact h.fit part hpart
              · obtain rfl := List.mem_singleton.mp hpart
                exact ⟨hfull.2, h.count ▸ h.room⟩
            · exact hcut part hpart
          · dsimp only
            rw [List.nil_append, hrange, Nat.zero_add]
          · dsimp only
            omega
      · next hopen =>
          -- what is being filled is empty if anything is cut off
          have hkept : (cutParts maxPartRows hmax bucket rows 0).1 = [] ∨ l.current = [] := by
            by_cases hcurrent : l.current = []
            · exact .inr hcurrent
            · refine .inl ?_
              have hroom : l.currentRows + rows ≤ maxPartRows := by
                by_contra hfull
                exact hopen ⟨not_le.mp hfull, hcurrent⟩
              rw [hshort (by omega)]
          have hroom : l.currentRows + (rows - (cutParts maxPartRows hmax bucket rows 0).2) ≤
              maxPartRows := by
            by_cases hcurrent : l.current = []
            · have hzero : l.currentRows = 0 := by
                rw [h.count, hcurrent]
                rfl
              omega
            · by_contra hfull
              exact hopen ⟨by omega, hcurrent⟩
          refine ⟨?_, ?_, ?_, hroom⟩
          · dsimp only
            rw [← h.inOrder, List.flatten_append]
            rcases hkept with hnone | hnone
            · rw [hnone]
              simp
            · rw [hnone]
              simp
          · intro part hpart
            rcases List.mem_append.mp hpart with hpart | hpart
            · exact h.fit part hpart
            · exact hcut part hpart
          · dsimp only
            rw [rowsOfPart_append, hrange, h.count]

/-- The ranges of some buckets, in order. -/
def rangesFrom (maxPartRows : Nat) (hmax : 0 < maxPartRows) (bucket : Nat) :
    List Nat → List BucketRange
  | [] => []
  | rows :: bucketRows =>
      rangesOf maxPartRows hmax bucket rows ++ rangesFrom maxPartRows hmax (bucket + 1) bucketRows

theorem layBuckets_holds (hmax : 0 < maxPartRows) {l : Layout} {ranges : List BucketRange}
    (h : l.Holds maxPartRows hmax ranges) (bucket : Nat) (bucketRows : List Nat) :
    (layBuckets maxPartRows hmax l bucket bucketRows).Holds maxPartRows hmax
      (ranges ++ rangesFrom maxPartRows hmax bucket bucketRows) := by
  induction bucketRows generalizing l ranges bucket with
  | nil =>
      rw [rangesFrom, List.append_nil]
      exact h
  | cons rows bucketRows ih =>
      rw [rangesFrom, ← List.append_assoc]
      exact ih (layBucket_holds hmax h bucket rows) (bucket + 1)

/-- The parts are the ranges of all buckets in order, cut where a part is
full. -/
theorem planParts_spec (hmax : 0 < maxPartRows) (bucketRows : List Nat) :
    ∃ parts, planParts bucketRows maxPartRows = .ok parts ∧
      parts.flatten = rangesFrom maxPartRows hmax 0 bucketRows ∧
      ∀ part ∈ parts, FitPart maxPartRows part := by
  have hempty : (⟨[], [], 0⟩ : Layout).Holds maxPartRows hmax [] :=
    ⟨rfl, nofun, rfl, Nat.zero_le _⟩
  have hall := layBuckets_holds hmax hempty 0 bucketRows
  rw [List.nil_append] at hall
  rw [planParts, dif_pos hmax]
  dsimp only
  split
  · next hrest =>
      refine ⟨_, rfl, ?_, fun part hpart => ?_⟩
      · rw [List.flatten_append, List.flatten_singleton]
        exact hall.inOrder
      · rcases List.mem_append.mp hpart with hpart | hpart
        · exact hall.fit part hpart
        · obtain rfl := List.mem_singleton.mp hpart
          exact ⟨hrest, hall.count ▸ hall.room⟩
  · next hnone =>
      refine ⟨_, rfl, ?_, hall.fit⟩
      have hcurrent := not_not.mp hnone
      rw [← hall.inOrder, hcurrent, List.append_nil]

theorem mem_rangesOf (hmax : 0 < maxPartRows) {bucket rows : Nat} {r : BucketRange}
    (hr : r ∈ rangesOf maxPartRows hmax bucket rows) :
    r.bucket = bucket ∧ r.first < r.stop ∧ r.stop ≤ rows := by
  rw [rangesOf] at hr
  split at hr
  · cases hr
  · next hrows =>
      rcases List.mem_append.mp hr with hr | hr
      · obtain ⟨part, hpart, hmem⟩ := List.mem_flatten.mp hr
        exact cutParts_bounds hmax bucket part hpart r hmem
      · obtain rfl := List.mem_singleton.mp hr
        obtain ⟨-, hlt, -⟩ := cutParts_spec hmax bucket (Nat.pos_of_ne_zero hrows)
        exact ⟨rfl, hlt, le_refl _⟩

theorem mem_rangesFrom (hmax : 0 < maxPartRows) {bucket : Nat} {bucketRows : List Nat}
    {r : BucketRange} (hr : r ∈ rangesFrom maxPartRows hmax bucket bucketRows) :
    bucket ≤ r.bucket ∧ r.first < r.stop ∧
      ∃ rows, bucketRows[r.bucket - bucket]? = some rows ∧ r.stop ≤ rows := by
  induction bucketRows generalizing bucket with
  | nil => cases hr
  | cons rows bucketRows ih =>
      rw [rangesFrom] at hr
      rcases List.mem_append.mp hr with hr | hr
      · obtain ⟨hbucket, hlt, hle⟩ := mem_rangesOf hmax hr
        refine ⟨hbucket.ge, hlt, rows, ?_, hle⟩
        rw [hbucket, Nat.sub_self]
        rfl
      · obtain ⟨hbucket, hlt, rows', hrows, hle⟩ := ih hr
        refine ⟨by omega, hlt, rows', ?_, hle⟩
        have hplace : r.bucket - bucket = r.bucket - (bucket + 1) + 1 := by omega
        rw [hplace]
        exact hrows

theorem rangesOf_subset (hmax : 0 < maxPartRows) {bucket n rows : Nat} {bucketRows : List Nat}
    (hrows : bucketRows[n]? = some rows) {r : BucketRange}
    (hr : r ∈ rangesOf maxPartRows hmax (bucket + n) rows) :
    r ∈ rangesFrom maxPartRows hmax bucket bucketRows := by
  induction bucketRows generalizing bucket n with
  | nil => cases hrows
  | cons rows' bucketRows ih =>
      rw [rangesFrom]
      cases n with
      | zero =>
          cases hrows
          exact List.mem_append_left _ hr
      | succ n =>
          refine List.mem_append_right _ (ih hrows ?_)
          rw [show bucket + 1 + n = bucket + (n + 1) by omega]
          exact hr

/-- A bucket that fits is laid out in one range. -/
theorem rangesOf_fits (hmax : 0 < maxPartRows) {bucket rows : Nat} (hrows : rows ≠ 0)
    (hfits : rows ≤ maxPartRows) :
    rangesOf maxPartRows hmax bucket rows = [⟨bucket, 0, rows⟩] := by
  obtain ⟨-, -, -, hshort⟩ := cutParts_spec hmax bucket (Nat.pos_of_ne_zero hrows)
  rw [rangesOf, if_neg hrows, hshort hfits]
  rfl

/-! ## Rows by their ranges -/

section Window

variable {α : Type*}

/-- The values of a list at the places from `first` to `stop`, where the list
begins at place `start`. -/
def window (l : List α) (start first stop : Nat) : List α :=
  (l.take (stop - start)).drop (first - start)

theorem window_append (l m : List α) (start first stop : Nat) :
    window (l ++ m) start first stop =
      window l start first stop ++ window m (start + l.length) first stop := by
  rw [window, window, window, List.take_append, List.drop_append, List.length_take]
  by_cases hin : l.length ≤ stop - start
  · have hdrop : first - start - min (stop - start) l.length = first - (start + l.length) := by
      omega
    have htake : stop - start - l.length = stop - (start + l.length) := by omega
    rw [hdrop, htake]
  · have hzero : stop - start - l.length = 0 := by omega
    have hzero' : stop - (start + l.length) = 0 := by omega
    rw [hzero, hzero', List.take_zero, List.drop_nil, List.drop_nil]

theorem window_nil (start first stop : Nat) : window ([] : List α) start first stop = [] := by
  rw [window, List.take_nil, List.drop_nil]

/-- A window is a slice of what it covers. -/
theorem window_eq_slice (l : List α) (start first stop : Nat) :
    window l start first stop =
      if max first start < min stop (start + l.length) then
        (l.drop (max first start - start)).take (min stop (start + l.length) - max first start)
      else [] := by
  have hplace : max first start - start = first - start := by omega
  rw [window, List.drop_take, hplace]
  split
  · next hin =>
      rw [List.take_eq_take_iff, List.length_drop]
      omega
  · next hout =>
      rw [List.take_eq_nil_iff, List.drop_eq_nil_iff]
      omega

theorem window_all (l : List α) : window l 0 0 l.length = l := by
  simp [window]

theorem window_length (l : List α) {first stop : Nat} (h : stop ≤ l.length) :
    (window l 0 first stop).length = stop - first := by
  rw [window, List.length_drop, List.length_take]
  omega

/-- The ranges of a bucket take its rows from first to last. -/
theorem windows_of_cutParts (hmax : 0 < maxPartRows) (bucket : Nat) (l : List α) (first : Nat) :
    ((cutParts maxPartRows hmax bucket l.length first).1.flatten.flatMap fun r =>
        window l 0 r.first r.stop) ++
        window l 0 (cutParts maxPartRows hmax bucket l.length first).2 l.length =
      l.drop first := by
  induction hn : l.length - first using Nat.strong_induction_on generalizing first with
  | _ n ih =>
      rw [cutParts]
      split
      · next hlong =>
          have hrest := ih (l.length - (first + maxPartRows)) (by omega) _ rfl
          dsimp only
          rw [List.flatten_cons, List.singleton_append, List.flatMap_cons, List.append_assoc,
            hrest, window]
          dsimp only
          rw [Nat.sub_zero, Nat.sub_zero, List.drop_take, Nat.add_sub_cancel_left,
            ← List.drop_drop, List.take_append_drop]
      · rw [List.flatten_nil, List.flatMap_nil, List.nil_append, window, Nat.sub_zero,
          Nat.sub_zero, List.take_length]

theorem windows_of_ranges (hmax : 0 < maxPartRows) (bucket : Nat) (l : List α) :
    ((rangesOf maxPartRows hmax bucket l.length).flatMap fun r => window l 0 r.first r.stop) =
      l := by
  rw [rangesOf]
  split
  · next hnone =>
      rw [List.length_eq_zero_iff.mp hnone]
      rfl
  · rw [List.flatMap_append, List.flatMap_singleton]
    exact windows_of_cutParts hmax bucket l 0

/-- All ranges of some buckets take the buckets' rows, bucket after bucket. -/
theorem windows_of_rangesFrom (hmax : 0 < maxPartRows) (rows : Nat → List α) (bucket n : Nat) :
    ((rangesFrom maxPartRows hmax bucket
        ((List.range' bucket n).map fun b => (rows b).length)).flatMap fun r =>
          window (rows r.bucket) 0 r.first r.stop) =
      (List.range' bucket n).flatMap rows := by
  induction n generalizing bucket with
  | zero => rfl
  | succ n ih =>
      rw [List.range'_succ, List.map_cons, rangesFrom, List.flatMap_append, List.flatMap_cons, ih]
      congr 1
      refine Eq.trans ?_ (windows_of_ranges hmax bucket (rows bucket))
      refine List.flatMap_congr fun r hr => ?_
      rw [(mem_rangesOf hmax hr).1]

end Window

/-! ## What a spill writes -/

/-- The rows of one bucket in some batches. -/
def ofBucket (batches : List Batch) (bucket : Nat) : List Numbered :=
  (batches.filter fun b => b.bucket = bucket).flatMap Batch.rows

theorem ofBucket_append (batches batches' : List Batch) (bucket : Nat) :
    ofBucket (batches ++ batches') bucket =
      ofBucket batches bucket ++ ofBucket batches' bucket := by
  rw [ofBucket, List.filter_append, List.flatMap_append]
  rfl

theorem ofBucket_cons (batch : Batch) (batches : List Batch) (bucket : Nat) :
    ofBucket (batch :: batches) bucket =
      (if batch.bucket = bucket then batch.rows else []) ++ ofBucket batches bucket := by
  rw [ofBucket, List.filter_cons]
  split
  · next h =>
      rw [if_pos (of_decide_eq_true h), List.flatMap_cons]
      rfl
  · next h =>
      rw [if_neg fun heq => h (decide_eq_true heq), List.nil_append]
      rfl

theorem bucket_lt (spec : TableSpec) (row : Row) : spec.bucket row < spillBuckets :=
  Nat.mod_lt _ (by decide)

theorem bucket_of_key {spec : TableSpec} {row row' : Row}
    (h : spec.value spec.partitionKey row = spec.value spec.partitionKey row') :
    spec.bucket row = spec.bucket row' := by
  rw [TableSpec.bucket, TableSpec.bucket, h]

namespace TableWriter

theorem countBuckets_eq {buckets : List Nat} :
    countBuckets buckets = (List.range spillBuckets).map fun b => buckets.count b := by
  have hloop : ∀ (l : List Nat) (counts : List Nat),
      l.foldl (fun counts bucket => counts.modify bucket (· + 1)) counts =
        counts.mapIdx fun b n => n + l.count b := by
    intro l
    induction l with
    | nil =>
        intro counts
        refine List.ext_getElem? fun i => ?_
        rw [List.foldl_nil, List.getElem?_mapIdx]
        cases counts[i]? <;> rfl
    | cons bucket l ih =>
        intro counts
        rw [List.foldl_cons, ih]
        refine List.ext_getElem? fun i => ?_
        rw [List.getElem?_mapIdx, List.getElem?_mapIdx, List.getElem?_modify, List.count_cons]
        cases counts[i]? with
        | none => rfl
        | some n =>
            by_cases hb : bucket = i
            · simp [hb]
              omega
            · simp [hb]
  rw [countBuckets, hloop]
  refine List.ext_getElem? fun i => ?_
  rw [List.getElem?_mapIdx, List.getElem?_map, List.getElem?_replicate]
  by_cases hi : i < spillBuckets
  · rw [if_pos hi, List.getElem?_range hi]
    simp
  · rw [if_neg hi, List.getElem?_eq_none (by rw [List.length_range]; omega)]
    rfl

/-- Rows that lie bucket after bucket are cut into their buckets. -/
theorem slices_eq {rows : List Numbered} (group : Nat → List Numbered) {offset bucket n : Nat}
    (h : rows.drop offset = (List.range' bucket n).flatMap group) :
    slices rows offset bucket ((List.range' bucket n).map fun b => (group b).length) =
      ((List.range' bucket n).filter fun b => group b ≠ []).map fun b => ⟨b, group b⟩ := by
  induction n generalizing offset bucket with
  | zero => rfl
  | succ n ih =>
      rw [List.range'_succ, List.flatMap_cons] at h
      rw [List.range'_succ, List.map_cons, slices]
      split
      · next hnone =>
          have hgroup := List.length_eq_zero_iff.mp hnone
          rw [hgroup, List.nil_append] at h
          rw [List.filter_cons_of_neg (by simp [hgroup])]
          exact ih h
      · next hsome =>
          have hgroup : group bucket ≠ [] := fun hnil => hsome (by rw [hnil]; rfl)
          have hrest : rows.drop (offset + (group bucket).length) =
              (List.range' (bucket + 1) n).flatMap group := by
            rw [← List.drop_drop, h, List.drop_left]
          rw [List.filter_cons_of_pos (by simpa using hgroup), List.map_cons, ih hrest, h,
            List.take_left]

theorem ofBucket_slices (group : Nat → List Numbered) {buckets : List Nat} (hn : buckets.Nodup)
    (bucket : Nat) :
    ofBucket ((buckets.filter fun b => group b ≠ []).map fun b => ⟨b, group b⟩) bucket =
      if bucket ∈ buckets then group bucket else [] := by
  induction buckets with
  | nil => rfl
  | cons b buckets ih =>
      obtain ⟨hb, hn⟩ := List.nodup_cons.mp hn
      have hcons : ofBucket (((b :: buckets).filter fun b => group b ≠ []).map
          fun b => (⟨b, group b⟩ : Batch)) bucket =
            (if b = bucket then group b else []) ++
              ofBucket ((buckets.filter fun b => group b ≠ []).map fun b => ⟨b, group b⟩)
                bucket := by
        by_cases hgroup : group b = []
        · rw [List.filter_cons_of_neg (by simp [hgroup]), hgroup, ite_self, List.nil_append]
        · rw [List.filter_cons_of_pos (by simpa using hgroup), List.map_cons, ofBucket_cons]
      rw [hcons, ih hn]
      by_cases heq : b = bucket
      · subst heq
        rw [if_pos rfl, if_neg hb, List.append_nil, if_pos List.mem_cons_self]
      · rw [if_neg heq, List.nil_append]
        simp [Ne.symm heq]

/-- The rows of a bucket among all that were added. -/
def addedTo (spec : TableSpec) (rows : List Row) (bucket : Nat) : List Numbered :=
  rows.zipIdx.filter fun row => spec.bucket row.1 = bucket

theorem mem_addedTo {spec : TableSpec} {rows : List Row} {bucket : Nat} {row : Numbered} :
    row ∈ addedTo spec rows bucket ↔ row ∈ rows.zipIdx ∧ spec.bucket row.1 = bucket := by
  rw [addedTo, List.mem_filter, decide_eq_true_eq]

/-- The rows that may be stored. -/
def Storable (spec : TableSpec) (row : Row) : Prop := List.Forall₂ Column.Takes spec.schema row

/-- A writer that has spilled these rows, every bucket's in the order they were
added. -/
structure Holds (w : TableWriter) (rows : List Row) : Prop where
  storable : ∀ row ∈ rows, Storable w.spec row
  added : w.added = rows.length
  bucketRows : w.bucketRows =
    (List.range spillBuckets).map fun b => (addedTo w.spec rows b).length
  batches : ∀ b < spillBuckets, ofBucket w.batches b = addedTo w.spec rows b
  unfinished : w.done = false

theorem addedTo_append (spec : TableSpec) (rows more : List Row) (bucket : Nat) :
    addedTo spec (rows ++ more) bucket =
      addedTo spec rows bucket ++
        (more.zipIdx rows.length).filter fun row => spec.bucket row.1 = bucket := by
  rw [addedTo, List.zipIdx_append, List.filter_append, Nat.zero_add]
  rfl

theorem spill_of_unstorable {w : TableWriter} (h : ¬ ∀ row ∈ w.buffer, Storable w.spec row) :
    w.spill = .error .unstorable := by
  have hbad : ∃ row ∈ w.buffer, ¬ List.Forall₂ Column.Takes w.spec.schema row := by
    by_contra hnone
    refine h fun row hrow => ?_
    by_contra hrow'
    exact hnone ⟨row, hrow, hrow'⟩
  have hne : w.buffer ≠ [] := by
    intro hnil
    obtain ⟨row, hrow, -⟩ := hbad
    rw [hnil] at hrow
    cases hrow
  rw [spill, if_neg hne, if_pos hbad]

/-- What a spill writes of a buffer, and what it counts. -/
theorem spilled_batches (spec : TableSpec) (buffer : List Row) (added : Nat) :
    (∀ b < spillBuckets,
      ofBucket
        (slices
          (Sorted.sortOn (fun row : Numbered => spec.bucket row.1) (buffer.zipIdx added)) 0 0
          (countBuckets (buffer.map spec.bucket))) b =
        (buffer.zipIdx added).filter fun row => spec.bucket row.1 = b) ∧
      countBuckets (buffer.map spec.bucket) = (List.range spillBuckets).map fun b =>
        ((buffer.zipIdx added).filter fun row => spec.bucket row.1 = b).length := by
  have hcounts : countBuckets (buffer.map spec.bucket) = (List.range spillBuckets).map fun b =>
      ((buffer.zipIdx added).filter fun row => spec.bucket row.1 = b).length := by
    rw [countBuckets_eq]
    refine List.map_congr_left fun b _ => ?_
    have hrows : buffer.map spec.bucket =
        (buffer.zipIdx added).map fun row => spec.bucket row.1 := by
      conv_lhs => rw [← List.zipIdx_map_fst added buffer]
      rw [List.map_map]
      rfl
    rw [hrows, List.count_eq_countP, List.countP_map, List.countP_eq_length_filter]
    refine congrArg List.length (List.filter_congr fun row _ => ?_)
    exact beq_eq_decide _ _
  have hstrict : (List.range spillBuckets).Pairwise (· < ·) := List.pairwise_lt_range
  have hsorted : Sorted.sortOn (fun row : Numbered => spec.bucket row.1) (buffer.zipIdx added) =
      (List.range spillBuckets).flatMap fun b =>
        (buffer.zipIdx added).filter fun row => spec.bucket row.1 = b :=
    Sorted.sortOn_eq_flatMap hstrict fun row _ => List.mem_range.mpr (bucket_lt _ _)
  refine ⟨fun b hb => ?_, hcounts⟩
  rw [hcounts, hsorted, List.range_eq_range', slices_eq _ List.drop_zero, ← List.range_eq_range',
    ofBucket_slices _ List.nodup_range, if_pos (List.mem_range.mpr hb)]

/-- A spill moves the buffer into the buckets. -/
theorem spill_spec {w : TableWriter} {rows : List Row} (h : w.Holds rows)
    (hstorable : ∀ row ∈ w.buffer, Storable w.spec row) :
    ∃ w', w.spill = .ok w' ∧ w'.Holds (rows ++ w.buffer) ∧ w'.buffer = [] ∧ w'.spec = w.spec ∧
      w'.maxPartRows = w.maxPartRows ∧ w'.flushRows = w.flushRows := by
  rw [spill]
  split
  · next hnil =>
      refine ⟨w, rfl, ?_, hnil, rfl, rfl, rfl⟩
      rw [hnil, List.append_nil]
      exact h
  · have hgood : ¬ ∃ row ∈ w.buffer, ¬ List.Forall₂ Column.Takes w.spec.schema row := by
      rintro ⟨row, hrow, hbad⟩
      exact hbad (hstorable row hrow)
    rw [if_neg hgood]
    obtain ⟨hbatches, hcounts⟩ := spilled_batches w.spec w.buffer w.added
    refine ⟨_, rfl, ⟨?_, ?_, ?_, ?_, h.unfinished⟩, rfl, rfl, rfl, rfl⟩
    · intro row hrow
      rcases List.mem_append.mp hrow with hrow | hrow
      · exact h.storable row hrow
      · exact hstorable row hrow
    · rw [List.length_append]
      exact congrArg (· + w.buffer.length) h.added
    · dsimp only
      rw [h.bucketRows, hcounts, List.zipWith_map, List.zipWith_self]
      refine List.map_congr_left fun b _ => ?_
      rw [addedTo_append, List.length_append, h.added]
    · intro b hb
      dsimp only
      rw [ofBucket_append, h.batches b hb, hbatches b hb, addedTo_append, h.added]

/-! ## What a part reads -/

/-- What one batch holds of a range. -/
def taken (batch : Batch) (batchFirst : Nat) (r : BucketRange) : List Numbered :=
  if r.bucket = batch.bucket then window batch.rows batchFirst r.first r.stop else []

theorem flatten_pieces_cons (ranges : List BucketRange) (seen : Nat → Nat) (batch : Batch)
    (batches : List Batch) :
    (pieces ranges seen (batch :: batches)).flatten =
      ranges.flatMap (taken batch (seen batch.bucket)) ++
        (pieces ranges (Function.update seen batch.bucket
          (seen batch.bucket + batch.rows.length)) batches).flatten := by
  rw [pieces, List.flatten_append]
  congr 1
  induction ranges with
  | nil => rfl
  | cons r ranges ih =>
      rw [List.flatMap_cons, ← ih, taken]
      by_cases hb : r.bucket = batch.bucket
      · rw [if_pos hb, List.filter_cons_of_pos (by simpa using hb), List.filterMap_cons,
          window_eq_slice]
        dsimp only
        split
        · next heq =>
            split at heq
            · cases heq
            · next hout => rw [if_neg hout, List.nil_append]
        · next slice heq =>
            split at heq
            · next hin =>
                obtain rfl := Option.some.inj heq
                rw [if_pos hin, List.flatten_cons]
            · cases heq
      · rw [if_neg hb, List.filter_cons_of_neg (by simpa using hb), List.nil_append]

/-- The pieces of some batches are the windows of their buckets, the batches'
order apart. -/
theorem pieces_perm (ranges : List BucketRange) (seen : Nat → Nat) (batches : List Batch) :
    (pieces ranges seen batches).flatten.Perm
      (ranges.flatMap fun r =>
        window (ofBucket batches r.bucket) (seen r.bucket) r.first r.stop) := by
  induction batches generalizing seen with
  | nil =>
      have hnone : (ranges.flatMap fun r =>
          window (ofBucket [] r.bucket) (seen r.bucket) r.first r.stop) = [] :=
        List.flatMap_eq_nil_iff.mpr fun r _ => window_nil _ _ _
      rw [hnone]
      exact List.Perm.refl _
  | cons batch batches ih =>
      rw [flatten_pieces_cons]
      refine ((ih _).append_left _).trans ?_
      refine (List.flatMap_append_perm ranges _ _).trans (List.Perm.of_eq ?_)
      refine List.flatMap_congr fun r _ => ?_
      rw [taken, ofBucket_cons]
      by_cases hb : r.bucket = batch.bucket
      · rw [if_pos hb, if_pos hb.symm, window_append, hb, Function.update_self]
      · rw [if_neg hb, if_neg (Ne.symm hb), List.nil_append, List.nil_append,
          Function.update_of_ne hb]

theorem rowGroups_flatten (rows : List Row) : (rowGroups rows).flatten = rows := by
  have hgroups : ∀ n, ((List.range n).map fun i =>
      (rows.drop (i * rowGroupRows)).take rowGroupRows).flatten = rows.take (n * rowGroupRows) := by
    intro n
    induction n with
    | zero =>
        rw [Nat.zero_mul, List.take_zero]
        rfl
    | succ n ih =>
        rw [List.range_succ, List.map_append, List.flatten_append, ih, Nat.succ_mul, List.take_add,
          List.map_singleton, List.flatten_singleton]
  rw [rowGroups, hgroups]
  refine List.take_of_length_le ?_
  rw [rowGroupRows]
  omega

/-- The rows a part is made of, with their numbers. -/
def partRows (spec : TableSpec) (rows : List Row) (ranges : List BucketRange) : List Numbered :=
  ranges.flatMap fun r => window (addedTo spec rows r.bucket) 0 r.first r.stop

/-- The rows of a part as they are written. -/
def sortedPart (spec : TableSpec) (rows : List Row) (ranges : List BucketRange) : List Numbered :=
  Sorted.sortOn spec.order (partRows spec rows ranges)

/-- What a part holds is what its ranges hold, sorted, whatever the batches
were. -/
theorem writePart_eq {w : TableWriter} {rows : List Row} (h : w.Holds rows)
    {ranges : List BucketRange} (hbuckets : ∀ r ∈ ranges, r.bucket < spillBuckets)
    (hdistinct : ((partRows w.spec rows ranges).map Prod.snd).Nodup) :
    w.writePart ranges = rowGroups ((sortedPart w.spec rows ranges).map Prod.fst) := by
  have hrows : (ranges.flatMap fun r =>
      window (ofBucket w.batches r.bucket) 0 r.first r.stop) = partRows w.spec rows ranges :=
    List.flatMap_congr fun r hr => by rw [h.batches r.bucket (hbuckets r hr)]
  have hperm := pieces_perm ranges (fun _ => 0) w.batches
  rw [hrows] at hperm
  have hkeys : ((pieces ranges (fun _ => 0) w.batches).flatten.map w.spec.order).Nodup := by
    refine List.Nodup.of_map (fun key => (ofLex key).2) ?_
    rw [List.map_map]
    exact (hperm.map Prod.snd).nodup_iff.mpr hdistinct
  rw [writePart, sortedPart, Sorted.sortOn_eq_of_perm hperm hkeys]

/-! ## A whole run -/

/-- A writer to which these rows were added. -/
def Took (w₀ : TableWriter) (rows : List Row) (w : TableWriter) : Prop :=
  ∃ spilled, w.Holds spilled ∧ spilled ++ w.buffer = rows ∧ w.spec = w₀.spec ∧
    w.maxPartRows = w₀.maxPartRows

theorem Holds.buffering {w : TableWriter} {rows : List Row} (h : w.Holds rows) (row : Row) :
    (w.buffering row).Holds rows :=
  ⟨h.storable, h.added, h.bucketRows, h.batches, h.unfinished⟩

theorem Took.add {w₀ w w' : TableWriter} {rows : List Row} {row : Row} (h : Took w₀ rows w)
    (hadd : w.add row = .ok w') : Took w₀ (rows ++ [row]) w' := by
  obtain ⟨spilled, hholds, rfl, hspec, hmax⟩ := h
  rw [TableWriter.add, hholds.unfinished, if_neg nofun] at hadd
  split at hadd
  · cases hadd
  · split at hadd
    · by_cases hgood : ∀ r ∈ (w.buffering row).buffer, Storable w.spec r
      · obtain ⟨w'', hspill, hafter, hbuffer, hspec', hmax', -⟩ :=
          spill_spec (hholds.buffering row) hgood
        rw [hspill] at hadd
        obtain rfl := Except.ok.inj hadd
        refine ⟨_, hafter, ?_, hspec'.trans hspec, hmax'.trans hmax⟩
        rw [hbuffer, List.append_nil, List.append_assoc]
        rfl
      · rw [spill_of_unstorable hgood] at hadd
        cases hadd
    · obtain rfl := Except.ok.inj hadd
      exact ⟨spilled, hholds.buffering row, (List.append_assoc _ _ _).symm, hspec, hmax⟩

/-- Rows that may be stored are taken. -/
theorem Took.exists_add {w₀ w : TableWriter} {rows : List Row} {row : Row} (h : Took w₀ rows w)
    (hgood : ∀ r ∈ rows ++ [row], Storable w₀.spec r) : ∃ w', w.add row = .ok w' := by
  obtain ⟨spilled, hholds, rfl, hspec, -⟩ := h
  have hrow : Storable w.spec row := hspec ▸ hgood row (List.mem_append_right _ List.mem_cons_self)
  rw [TableWriter.add, hholds.unfinished, if_neg nofun,
    if_neg (not_not.mpr hrow.length_eq.symm)]
  split
  · have hbuffer : ∀ r ∈ (w.buffering row).buffer, Storable w.spec r := by
      intro r hr
      rw [hspec]
      refine hgood r ?_
      rw [List.append_assoc]
      exact List.mem_append_right _ hr
    obtain ⟨w', hspill, -⟩ := spill_spec (hholds.buffering row) hbuffer
    exact ⟨w', hspill⟩
  · exact ⟨_, rfl⟩

theorem Took.foldlM {w₀ w : TableWriter} {rows more : List Row} (h : Took w₀ rows w) :
    (∀ w', more.foldlM TableWriter.add w = .ok w' → Took w₀ (rows ++ more) w') ∧
      ((∀ r ∈ rows ++ more, Storable w₀.spec r) →
        ∃ w', more.foldlM TableWriter.add w = .ok w') := by
  induction more generalizing rows w with
  | nil =>
      rw [List.append_nil]
      exact ⟨fun w' hw' => Except.ok.inj hw' ▸ h, fun _ => ⟨w, rfl⟩⟩
  | cons row more ih =>
      rw [List.append_cons]
      constructor
      · intro w' hw'
        rw [List.foldlM_cons] at hw'
        cases hadd : w.add row with
        | error e =>
            rw [hadd] at hw'
            cases hw'
        | ok next =>
            rw [hadd] at hw'
            exact (ih (h.add hadd)).1 w' hw'
      · intro hgood
        obtain ⟨next, hadd⟩ := h.exists_add fun r hr => hgood r (List.mem_append_left _ hr)
        rw [List.foldlM_cons, hadd]
        exact (ih (h.add hadd)).2 hgood

/-- The parts a table's rows are laid out in. -/
theorem layout_spec (spec : TableSpec) (hmax : 0 < maxPartRows) (rows : List Row) :
    ∃ parts, planParts ((List.range spillBuckets).map fun b => (addedTo spec rows b).length)
        maxPartRows = .ok parts ∧
      ((parts.map (partRows spec rows)).flatten =
        (List.range spillBuckets).flatMap (addedTo spec rows)) ∧
      (∀ part ∈ parts, FitPart maxPartRows part ∧ ∀ r ∈ part, r.bucket < spillBuckets ∧
        r.first < r.stop ∧ r.stop ≤ (addedTo spec rows r.bucket).length) ∧
      ∀ b < spillBuckets, addedTo spec rows b ≠ [] → (addedTo spec rows b).length ≤ maxPartRows →
        ∃ part ∈ parts, ⟨b, 0, (addedTo spec rows b).length⟩ ∈ part := by
  obtain ⟨parts, hparts, hflatten, hfit⟩ := planParts_spec hmax
    ((List.range spillBuckets).map fun b => (addedTo spec rows b).length)
  have hrange : ∀ b < spillBuckets,
      ((List.range spillBuckets).map fun b => (addedTo spec rows b).length)[b]? =
        some (addedTo spec rows b).length := by
    intro b hb
    rw [List.getElem?_map, List.getElem?_range hb, Option.map_some]
  refine ⟨parts, hparts, ?_, fun part hpart => ⟨hfit part hpart, fun r hr => ?_⟩,
    fun b hb hsome hfits => ?_⟩
  · have hrows : (parts.map (partRows spec rows)).flatten = parts.flatten.flatMap fun r =>
        window (addedTo spec rows r.bucket) 0 r.first r.stop := by
      rw [List.flatMap_def, List.map_flatten, List.flatten_flatten, List.map_map]
      rfl
    rw [hrows, hflatten, List.range_eq_range', windows_of_rangesFrom]
  · have hmem : r ∈ parts.flatten := List.mem_flatten.mpr ⟨part, hpart, hr⟩
    rw [hflatten] at hmem
    obtain ⟨-, hlt, n, hn, hle⟩ := mem_rangesFrom hmax hmem
    rw [Nat.sub_zero] at hn
    obtain ⟨hb, -⟩ := List.getElem?_eq_some_iff.mp hn
    rw [List.length_map, List.length_range] at hb
    rw [hrange r.bucket hb] at hn
    exact ⟨hb, hlt, Option.some.inj hn ▸ hle⟩
  · have hmem : (⟨b, 0, (addedTo spec rows b).length⟩ : BucketRange) ∈ parts.flatten := by
      rw [hflatten]
      refine rangesOf_subset hmax (hrange b hb) ?_
      rw [Nat.zero_add, rangesOf_fits hmax (fun h => hsome (List.length_eq_zero_iff.mp h)) hfits]
      exact List.mem_cons_self
    exact List.mem_flatten.mp hmem

/-- Every row is in its bucket, once. -/
theorem buckets_perm (spec : TableSpec) (rows : List Row) :
    ((List.range spillBuckets).flatMap (addedTo spec rows)).Perm rows.zipIdx := by
  have hsorted : Sorted.sortOn (fun row : Numbered => spec.bucket row.1) rows.zipIdx =
      (List.range spillBuckets).flatMap (addedTo spec rows) :=
    Sorted.sortOn_eq_flatMap List.pairwise_lt_range
      fun row _ => List.mem_range.mpr (bucket_lt _ _)
  rw [← hsorted]
  exact Sorted.sortOn_perm _ _

theorem nodup_ordinals (rows : List Row) : (rows.zipIdx.map Prod.snd).Nodup := by
  rw [List.zipIdx_map_snd]
  exact List.nodup_range'

theorem distinct_of_layout {spec : TableSpec} {rows : List Row} {parts : List (List BucketRange)}
    (hall : (parts.map (partRows spec rows)).flatten =
      (List.range spillBuckets).flatMap (addedTo spec rows))
    {part : List BucketRange} (hpart : part ∈ parts) :
    ((partRows spec rows part).map Prod.snd).Nodup := by
  have hsub : (partRows spec rows part).Sublist
      (parts.map (partRows spec rows)).flatten :=
    List.sublist_flatten_of_mem (List.mem_map_of_mem hpart)
  rw [hall] at hsub
  refine (((buckets_perm spec rows).map Prod.snd).nodup_iff.mpr ?_).sublist (hsub.map Prod.snd)
  exact nodup_ordinals rows

theorem sortedPart_perm (spec : TableSpec) (rows : List Row) (part : List BucketRange) :
    (sortedPart spec rows part).Perm (partRows spec rows part) :=
  Sorted.sortOn_perm _ _

theorem length_partRows {spec : TableSpec} {rows : List Row} {part : List BucketRange}
    (h : ∀ r ∈ part, r.stop ≤ (addedTo spec rows r.bucket).length) :
    (partRows spec rows part).length = rowsOfPart part := by
  rw [partRows, List.length_flatMap, rowsOfPart]
  exact congrArg List.sum (List.map_congr_left fun r hr => window_length _ (h r hr))

theorem Took.finish {w₀ w : TableWriter} {rows : List Row} (h : Took w₀ rows w) :
    ((∀ row ∈ rows, Storable w₀.spec row) →
      ∃ parts, planParts ((List.range spillBuckets).map fun b => (addedTo w₀.spec rows b).length)
          w₀.maxPartRows = .ok parts ∧
        w.finish = .ok (parts.map fun part =>
          rowGroups ((sortedPart w₀.spec rows part).map Prod.fst))) ∧
      ∀ written, w.finish = .ok written → ∀ row ∈ rows, Storable w₀.spec row := by
  obtain ⟨spilled, hholds, rfl, hspec, hmax⟩ := h
  rw [TableWriter.finish, hholds.unfinished, if_neg nofun]
  constructor
  · intro hgood
    have hbuffer : ∀ row ∈ w.buffer, Storable w.spec row := fun row hrow =>
      hspec ▸ hgood row (List.mem_append_right _ hrow)
    obtain ⟨w', hspill, hafter, -, hspec', hmax', -⟩ := spill_spec hholds hbuffer
    obtain ⟨parts, hparts, hall, hfit, -⟩ :=
      layout_spec w₀.spec w₀.maxPositive (spilled ++ w.buffer)
    have hrows : w'.bucketRows = (List.range spillBuckets).map fun b =>
        (addedTo w₀.spec (spilled ++ w.buffer) b).length := by
      rw [hafter.bucketRows, hspec', hspec]
    refine ⟨parts, hparts, ?_⟩
    rw [hspill]
    dsimp only
    rw [hrows, hmax', hmax, hparts]
    refine congrArg Except.ok (List.map_congr_left fun part hpart => ?_)
    rw [← hspec, ← hspec']
    refine writePart_eq hafter (fun r hr => ((hfit part hpart).2 r hr).1) ?_
    rw [hspec', hspec]
    exact distinct_of_layout hall hpart
  · intro written hwritten row hrow
    by_cases hgood : ∀ row ∈ w.buffer, Storable w.spec row
    · rcases List.mem_append.mp hrow with hrow | hrow
      · exact hspec ▸ hholds.storable row hrow
      · exact hspec ▸ hgood row hrow
    · rw [spill_of_unstorable hgood] at hwritten
      cases hwritten

end TableWriter

open TableWriter

instance (name : TableName) : DecidablePred (Stores name) := fun row =>
  inferInstanceAs (Decidable (List.Forall₂ Column.Takes (tables name) row))

theorem stores_iff (name : TableName) (row : Row) :
    Stores name row ↔ Storable (tableSpec name) row := by
  cases name <;> exact Iff.rfl

theorem writeTable_eq {name : TableName} {max flush : Int} (hmax : 0 < max) (hflush : 0 < flush)
    (rows : List Row) :
    ((∀ row ∈ rows, Stores name row) →
      ∃ parts,
        planParts ((List.range spillBuckets).map fun b =>
          (addedTo (tableSpec name) rows b).length) max.toNat = .ok parts ∧
        writeTable name max flush rows = .ok (parts.map fun part =>
          rowGroups ((sortedPart (tableSpec name) rows part).map Prod.fst))) ∧
      ∀ written, writeTable name max flush rows = .ok written →
        ∀ row ∈ rows, Stores name row := by
  have hnot : ¬ (max ≤ 0 ∨ flush ≤ 0) := by omega
  rw [writeTable, TableWriter.new, dif_neg hnot]
  dsimp only
  generalize hnew : (TableWriter.mk _ _ _ _ _ _ _ _ _ _) = w₀
  have hstart : Took w₀ [] w₀ := by
    subst hnew
    refine ⟨[], ⟨nofun, rfl, ?_, fun b _ => rfl, rfl⟩, rfl, rfl, rfl⟩
    refine (List.eq_replicate_iff.mpr ⟨by rw [List.length_map, List.length_range], ?_⟩).symm
    intro n hn
    obtain ⟨b, -, rfl⟩ := List.mem_map.mp hn
    rfl
  have hspec : w₀.spec = tableSpec name := by
    subst hnew
    rfl
  have hmaxRows : w₀.maxPartRows = max.toNat := by
    subst hnew
    rfl
  obtain ⟨hafter, htotal⟩ := @Took.foldlM w₀ w₀ [] rows hstart
  rw [List.nil_append, hspec] at htotal
  have hstores : (∀ row ∈ rows, Stores name row) ↔
      ∀ row ∈ rows, Storable (tableSpec name) row :=
    forall₂_congr fun row _ => stores_iff name row
  rw [hstores]
  constructor
  · intro hgood
    obtain ⟨w, hw⟩ := htotal hgood
    have hfinish := (hafter w hw).finish.1
    rw [List.nil_append, hspec, hmaxRows] at hfinish
    obtain ⟨parts, hparts, hwritten⟩ := hfinish hgood
    rw [hw]
    exact ⟨parts, hparts, hwritten⟩
  · intro written hwritten
    cases hw : rows.foldlM TableWriter.add w₀ with
    | error e =>
        rw [hw] at hwritten
        cases hwritten
    | ok w =>
        rw [hw] at hwritten
        have hfinish := (hafter w hw).finish.2 written hwritten
        rw [List.nil_append, hspec] at hfinish
        exact hfinish

/-- The order of a part: by the sort keys, and rows with equal keys as they were
added. -/
def InOrder (spec : TableSpec) (a b : Numbered) : Prop :=
  spec.keys a.1 < spec.keys b.1 ∨ spec.keys a.1 = spec.keys b.1 ∧ a.2 < b.2

theorem sortedPart_inOrder {spec : TableSpec} {rows : List Row} {part : List BucketRange}
    (hdistinct : ((partRows spec rows part).map Prod.snd).Nodup) :
    (sortedPart spec rows part).Pairwise (InOrder spec) := by
  have hnodup : ((sortedPart spec rows part).map Prod.snd).Nodup :=
    ((sortedPart_perm spec rows part).map Prod.snd).nodup_iff.mpr hdistinct
  have hsorted := Sorted.sortOn_pairwise spec.order (partRows spec rows part)
  refine (hsorted.and (List.pairwise_map.mp hnodup)).imp fun {a b} h => ?_
  rcases Prod.Lex.toLex_le_toLex.mp h.1 with hlt | ⟨heq, hle⟩
  · exact .inl hlt
  · exact .inr ⟨heq, lt_of_le_of_ne hle h.2⟩

theorem length_addedTo (spec : TableSpec) (rows : List Row) (bucket : Nat) :
    (addedTo spec rows bucket).length =
      (rows.filter fun row => spec.bucket row = bucket).length := by
  have hrows : (addedTo spec rows bucket).map Prod.fst =
      rows.filter fun row => spec.bucket row = bucket := by
    conv_rhs => rw [← List.zipIdx_map_fst 0 rows, List.filter_map]
    rfl
  rw [← hrows, List.length_map]

/-- The parts of a table hold the rows added to it, each once, in parts that
fit, in order and with the rows of a partition together unless their bucket is
too large, and they do not depend on when rows were spilled. -/
theorem writeTable_spec {name : TableName} {max flush : Int} (hmax : 0 < max)
    (hflush : 0 < flush) (rows : List Row) :
    ((∃ written, writeTable name max flush rows = .ok written) ↔
        ∀ row ∈ rows, Stores name row) ∧
      ∀ written, writeTable name max flush rows = .ok written →
        (∀ flush' > 0, writeTable name max flush' rows = .ok written) ∧
        ∃ parts : List (List Numbered),
          written.map List.flatten = parts.map (List.map Prod.fst) ∧
          parts.flatten.Perm rows.zipIdx ∧
          (∀ part ∈ parts, part ≠ [] ∧ (part.length : Int) ≤ max ∧
            part.Pairwise (InOrder (tableSpec name))) ∧
          ∀ a ∈ rows.zipIdx, ∀ b ∈ rows.zipIdx,
            (tableSpec name).value (tableSpec name).partitionKey a.1 =
              (tableSpec name).value (tableSpec name).partitionKey b.1 →
            ((rows.filter fun row =>
              (tableSpec name).bucket row = (tableSpec name).bucket a.1).length : Int) ≤ max →
            ∃ part ∈ parts, a ∈ part ∧ b ∈ part := by
  obtain ⟨htotal, hgood⟩ := @writeTable_eq name max flush hmax hflush rows
  refine ⟨⟨fun ⟨written, hwritten⟩ => hgood written hwritten, fun hrows => ?_⟩,
    fun written hwritten => ?_⟩
  · obtain ⟨parts, -, hwritten⟩ := htotal hrows
    exact ⟨_, hwritten⟩
  · have hrows := hgood written hwritten
    obtain ⟨parts, hparts, hwritten'⟩ := htotal hrows
    obtain rfl := Except.ok.inj (hwritten'.symm.trans hwritten)
    have hmax' : 0 < max.toNat := by omega
    obtain ⟨parts', hparts', hall, hfit, hshared⟩ := layout_spec (tableSpec name) hmax' rows
    obtain rfl := Except.ok.inj (hparts'.symm.trans hparts)
    refine ⟨fun flush' hflush' => ?_, parts'.map (sortedPart (tableSpec name) rows), ?_, ?_, ?_, ?_⟩
    · obtain ⟨parts, hparts'', hwritten''⟩ := (writeTable_eq hmax hflush' rows).1 hrows
      obtain rfl := Except.ok.inj (hparts''.symm.trans hparts')
      exact hwritten''
    · rw [List.map_map, List.map_map]
      refine List.map_congr_left fun part _ => ?_
      rw [Function.comp_apply, Function.comp_apply, rowGroups_flatten]
    · have hperm : (parts'.map (sortedPart (tableSpec name) rows)).flatten.Perm
          (parts'.map (partRows (tableSpec name) rows)).flatten := by
        refine List.Perm.flatten_congr ?_
        rw [List.forall₂_map_left_iff, List.forall₂_map_right_iff, List.forall₂_same]
        exact fun part _ => sortedPart_perm _ _ _
      rw [hall] at hperm
      exact hperm.trans (buckets_perm _ _)
    · intro part hpart
      obtain ⟨ranges, hranges, rfl⟩ := List.mem_map.mp hpart
      obtain ⟨hfits, hwithin⟩ := hfit ranges hranges
      have hlength : (sortedPart (tableSpec name) rows ranges).length = rowsOfPart ranges :=
        (sortedPart_perm _ _ _).length_eq.trans (length_partRows fun r hr => (hwithin r hr).2.2)
      refine ⟨fun hnil => ?_, ?_, sortedPart_inOrder (distinct_of_layout hall hranges)⟩
      · rw [hnil] at hlength
        obtain ⟨r, rest, rfl⟩ := List.exists_cons_of_ne_nil hfits.nonempty
        have hsize := (hwithin r List.mem_cons_self).2.1
        rw [rowsOfPart, List.map_cons, List.sum_cons, BucketRange.size, List.length_nil] at hlength
        omega
      · have hle := hfits.fits
        omega
    · intro a ha b hb hkey hbucket
      have hsame : (tableSpec name).bucket b.1 = (tableSpec name).bucket a.1 :=
        (bucket_of_key hkey).symm
      have hain : a ∈ addedTo (tableSpec name) rows ((tableSpec name).bucket a.1) :=
        mem_addedTo.mpr ⟨ha, rfl⟩
      have hbin : b ∈ addedTo (tableSpec name) rows ((tableSpec name).bucket a.1) :=
        mem_addedTo.mpr ⟨hb, hsame⟩
      rw [← length_addedTo] at hbucket
      obtain ⟨part, hpart, hrange⟩ := hshared ((tableSpec name).bucket a.1) (bucket_lt _ _)
        (List.ne_nil_of_mem hain) (by omega)
      have hholds : ∀ c ∈ addedTo (tableSpec name) rows ((tableSpec name).bucket a.1),
          c ∈ sortedPart (tableSpec name) rows part := by
        intro c hc
        refine (sortedPart_perm _ _ _).mem_iff.mpr (List.mem_flatMap.mpr ⟨_, hrange, ?_⟩)
        exact (window_all (addedTo (tableSpec name) rows ((tableSpec name).bucket a.1))).symm ▸ hc
      exact ⟨_, List.mem_map_of_mem hpart, hholds a hain, hholds b hbin⟩

/-- Two gaps of one connection, received in the other order. -/
def twoGaps : List Row :=
  [[.int 1, .int 7, .int 200, .int 20, .int 3, .int 5, .null],
    [.int 1, .int 7, .int 100, .int 10, .int 9, .int 12, .int 150]]

theorem writeTable_twoGaps :
    ∃ written, writeTable .gaps 1 1 twoGaps = .ok written ∧
      writeTable .gaps 1 50000 twoGaps = .ok written := by
  obtain ⟨htotal, hall⟩ := @writeTable_spec .gaps 1 1 (by decide) (by decide) twoGaps
  obtain ⟨written, hwritten⟩ := htotal.mpr (by decide)
  exact ⟨written, hwritten, (hall written hwritten).1 50000 (by decide)⟩

end Tape.Bake
