import Mathlib
import Tape.Bake.Tables
import Tape.Sorted

/-!
# A table's rows on their way to sorted parts

Rows are buffered, and a full buffer is spilled: sorted by bucket, and written
as one batch for each bucket it has rows of, every row with the number it was
added under. When the input ends the buckets are laid out into parts, a bucket
that is too large in several; each part reads the pieces of the batches it
covers, sorts them, and is written in row groups.

`sort_indices` is taken to be stable, and an array to hold what it was built
from. The bucket cache is left out: it remembers a function's values.
-/

namespace Tape.Bake

/-- A table, with its order and what its rows are spilled by. -/
structure TableSpec where
  name : TableName
  schema : List Column
  sortKeys : List String
  partitionKey : String
  deriving DecidableEq, Repr

/-- `TABLES`, as far as rows and their order go. -/
def tableSpec : TableName → TableSpec
  | .deltas => ⟨.deltas, deltas, ["ticker", "ts_ms", "seq", "recv_wall_ns"], "ticker"⟩
  | .snapshots =>
      ⟨.snapshots, snapshots, ["ticker", "recv_wall_ns", "seq", "side", "price_e4"], "ticker"⟩
  | .trades => ⟨.trades, trades, ["ticker", "ts_ms", "seq", "trade_id"], "ticker"⟩
  | .lifecycle => ⟨.lifecycle, lifecycle, ["ticker", "recv_wall_ns", "seq"], "ticker"⟩
  | .gaps => ⟨.gaps, gaps, ["conn_id", "recv_wall_ns", "sid"], "conn_id"⟩
  | .audits => ⟨.audits, audits, ["ticker", "recv_wall_ns"], "ticker"⟩

/-- The value of a named column in a row. -/
def TableSpec.value (spec : TableSpec) (column : String) (row : Row) : Cell :=
  row.getD (spec.schema.findIdx fun c => c.name = column) .null

/-! ## The order of a part -/

/-- Where a value stands among those of its column: ascending, nulls last. -/
def Cell.place : Cell → Nat ×ₗ Int ×ₗ String
  | .int v => toLex (0, toLex (v, ""))
  | .text s => toLex (0, toLex (0, s))
  | .bool b => toLex (0, toLex (if b then 1 else 0, ""))
  | .null => toLex (1, toLex (0, ""))

/-- The sort keys of a row, in their order. -/
def TableSpec.keys (spec : TableSpec) (row : Row) : List (Nat ×ₗ Int ×ₗ String) :=
  spec.sortKeys.map fun column => (spec.value column row).place

/-- A row with the number it was added under. -/
abbrev Numbered := Row × Nat

/-- The sort keys and then the ordinal. -/
def TableSpec.order (spec : TableSpec) (row : Numbered) : List (Nat ×ₗ Int ×ₗ String) ×ₗ Nat :=
  toLex (spec.keys row.1, row.2)

/-! ## Buckets -/

/-- One bit of a CRC-32 register. -/
def crcBit (crc : UInt32) : UInt32 :=
  if crc &&& 1 = 1 then (crc >>> 1) ^^^ 0xEDB88320 else crc >>> 1

/-- One byte of the checksum. -/
def crcByte (crc : UInt32) (byte : UInt8) : UInt32 :=
  (List.range 8).foldl (fun crc _ => crcBit crc) (crc ^^^ byte.toUInt32)

/-- `zlib.crc32`. -/
def crc32 (bytes : List UInt8) : UInt32 := bytes.foldl crcByte 0xFFFFFFFF ^^^ 0xFFFFFFFF

/-- The published check value, of the digits 1 to 9. -/
example : crc32 [0x31, 0x32, 0x33, 0x34, 0x35, 0x36, 0x37, 0x38, 0x39] = 0xCBF43926 := by
  decide +kernel

/-- The text of a partition key value, as `str` gives it. -/
def Cell.str : Cell → String
  | .text s => s
  | .int v => toString v
  | .bool true => "True"
  | .bool false => "False"
  | .null => "None"

/-- How many buckets a table is spilled to. -/
def spillBuckets : Nat := 64

/-- The bucket of a value. -/
def bucketOf (value : Cell) : Nat :=
  (crc32 value.str.toUTF8.data.toList).toNat % spillBuckets

/-- The bucket of a row. -/
def TableSpec.bucket (spec : TableSpec) (row : Row) : Nat :=
  bucketOf (spec.value spec.partitionKey row)

/-! ## Laying out parts -/

/-- `(bucket, first_row, end_row)`: rows of one bucket, in the order they were
added. -/
structure BucketRange where
  bucket : Nat
  first : Nat
  stop : Nat
  deriving DecidableEq, Repr

/-- `ValueError` of the writer, or of an array that cannot be built. -/
inductive SpillError where
  | notPositive
  | finished
  | width (got expected : Nat)
  | unstorable
  deriving DecidableEq, Repr

/-- The parts laid out so far, and the one being filled. -/
structure Layout where
  parts : List (List BucketRange)
  current : List BucketRange
  currentRows : Nat
  deriving DecidableEq, Repr

/-- Cut whole parts off a bucket until what is left fits: the parts, and where
the rest begins. -/
def cutParts (maxPartRows : Nat) (hmax : 0 < maxPartRows) (bucket rows first : Nat) :
    List (List BucketRange) × Nat :=
  if rows - first > maxPartRows then
    let rest := cutParts maxPartRows hmax bucket rows (first + maxPartRows)
    ([⟨bucket, first, first + maxPartRows⟩] :: rest.1, rest.2)
  else ([], first)
  termination_by rows - first

/-- One bucket. -/
def layBucket (maxPartRows : Nat) (hmax : 0 < maxPartRows) (l : Layout) (bucket rows : Nat) :
    Layout :=
  if rows = 0 then l
  else
    let l := if l.currentRows + rows > maxPartRows ∧ l.current ≠ [] then
        ⟨l.parts ++ [l.current], [], 0⟩
      else l
    let cut := cutParts maxPartRows hmax bucket rows 0
    ⟨l.parts ++ cut.1, l.current ++ [⟨bucket, cut.2, rows⟩], l.currentRows + (rows - cut.2)⟩

/-- The rows of all buckets, laid into parts in their order. -/
def layBuckets (maxPartRows : Nat) (hmax : 0 < maxPartRows) (l : Layout) (bucket : Nat) :
    List Nat → Layout
  | [] => l
  | rows :: bucketRows =>
      layBuckets maxPartRows hmax (layBucket maxPartRows hmax l bucket rows) (bucket + 1) bucketRows

/-- `plan_parts`. -/
def planParts (bucketRows : List Nat) (maxPartRows : Nat) :
    Except SpillError (List (List BucketRange)) :=
  if hmax : 0 < maxPartRows then
    let l := layBuckets maxPartRows hmax ⟨[], [], 0⟩ 0 bucketRows
    .ok (if l.current ≠ [] then l.parts ++ [l.current] else l.parts)
  else .error .notPositive

/-! ## The writer -/

/-- A batch of the spill file: rows of one bucket. -/
structure Batch where
  bucket : Nat
  rows : List Numbered
  deriving DecidableEq, Repr

/-- What is buffered and spilled of a table. -/
structure TableWriter where
  spec : TableSpec
  maxPartRows : Nat
  flushRows : Nat
  buffer : List Row
  added : Nat
  bucketRows : List Nat
  batches : List Batch
  done : Bool
  maxPositive : 0 < maxPartRows
  flushPositive : 0 < flushRows
  deriving DecidableEq, Repr

namespace TableWriter

/-- `TableWriter.__init__`. -/
def new (spec : TableSpec) (maxPartRows flushRows : Int) : Except SpillError TableWriter :=
  if h : maxPartRows ≤ 0 ∨ flushRows ≤ 0 then .error .notPositive
  else
    .ok { spec
          maxPartRows := maxPartRows.toNat
          flushRows := flushRows.toNat
          buffer := []
          added := 0
          bucketRows := List.replicate spillBuckets 0
          batches := []
          done := false
          maxPositive := by omega
          flushPositive := by omega }

/-- How many of these buckets are each. -/
def countBuckets (buckets : List Nat) : List Nat :=
  buckets.foldl (fun counts bucket => counts.modify bucket (· + 1))
    (List.replicate spillBuckets 0)

/-- The sorted rows, cut into a batch for each bucket that has rows. -/
def slices (rows : List Numbered) (offset bucket : Nat) : List Nat → List Batch
  | [] => []
  | count :: counts =>
      if count = 0 then slices rows offset (bucket + 1) counts
      else
        ⟨bucket, (rows.drop offset).take count⟩ ::
          slices rows (offset + count) (bucket + 1) counts

/-- `TableWriter._spill`. -/
def spill (w : TableWriter) : Except SpillError TableWriter :=
  if w.buffer = [] then .ok w
  else if ∃ row ∈ w.buffer, ¬ List.Forall₂ Column.Takes w.spec.schema row then .error .unstorable
  else
    let numbered := w.buffer.zipIdx w.added
    let batch := Sorted.sortOn (fun row : Numbered => w.spec.bucket row.1) numbered
    let counts := countBuckets (w.buffer.map w.spec.bucket)
    .ok { w with
      batches := w.batches ++ slices batch 0 0 counts
      bucketRows := List.zipWith (· + ·) w.bucketRows counts
      added := w.added + w.buffer.length
      buffer := [] }

/-- A row is buffered. -/
def buffering (w : TableWriter) (row : Row) : TableWriter :=
  { w with buffer := w.buffer ++ [row] }

/-- `TableWriter.add`. -/
def add (w : TableWriter) (row : Row) : Except SpillError TableWriter :=
  if w.done then .error .finished
  else if row.length ≠ w.spec.schema.length then .error (.width row.length w.spec.schema.length)
  else if (w.buffering row).buffer.length ≥ w.flushRows then (w.buffering row).spill
  else .ok (w.buffering row)

/-- `TableWriter._batches`: what each batch holds of the ranges, in spill
order. `seen` counts the rows of each bucket in the batches before. -/
def pieces (ranges : List BucketRange) (seen : Nat → Nat) : List Batch → List (List Numbered)
  | [] => []
  | batch :: batches =>
      let size := batch.rows.length
      let batchFirst := seen batch.bucket
      ((ranges.filter fun r => r.bucket = batch.bucket).filterMap fun r =>
          let low := max r.first batchFirst
          let high := min r.stop (batchFirst + size)
          if low < high then
            some ((batch.rows.drop (low - batchFirst)).take (high - low))
          else none) ++
        pieces ranges (Function.update seen batch.bucket (batchFirst + size)) batches

/-- How many rows a group of a part has at most. -/
def rowGroupRows : Nat := 65536

/-- The sorted rows, a row group at a time. -/
def rowGroups (rows : List Row) : List (List Row) :=
  (List.range ((rows.length + rowGroupRows - 1) / rowGroupRows)).map fun i =>
    (rows.drop (i * rowGroupRows)).take rowGroupRows

/-- `TableWriter._write_part`: the rows of the part's file, group after group. -/
def writePart (w : TableWriter) (ranges : List BucketRange) : List (List Row) :=
  let table := (pieces ranges (fun _ => 0) w.batches).flatten
  rowGroups ((Sorted.sortOn w.spec.order table).map Prod.fst)

/-- `TableWriter.finish`: the parts' row groups. -/
def finish (w : TableWriter) : Except SpillError (List (List (List Row))) :=
  if w.done then .error .finished
  else
    match w.spill with
    | .error e => .error e
    | .ok w =>
        match planParts w.bucketRows w.maxPartRows with
        | .error e => .error e
        | .ok parts => .ok (parts.map w.writePart)

end TableWriter

/-- Every row added in turn, and then the parts. -/
def writeTable (name : TableName) (maxPartRows flushRows : Int) (rows : List Row) :
    Except SpillError (List (List (List Row))) :=
  match TableWriter.new (tableSpec name) maxPartRows flushRows with
  | .error e => .error e
  | .ok w =>
      match rows.foldlM TableWriter.add w with
      | .error e => .error e
      | .ok w => w.finish

end Tape.Bake
