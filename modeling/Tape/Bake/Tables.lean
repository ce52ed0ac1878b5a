import Tape.Book.Basic

/-!
# The baked tables

The columns of each table with their types. A row is a tuple of values in its
table's column order; a value is of a column when an array of the column's type
can be built with it: an integer within the type's range, a text, a boolean, or
nothing where the column is nullable.

Sort orders, encodings and the files are left out: no row depends on them.
-/

namespace Tape.Bake

/-- The tables a bake writes. -/
inductive TableName where
  | deltas
  | snapshots
  | trades
  | lifecycle
  | gaps
  | audits
  deriving DecidableEq, Repr

/-- A value of a row. -/
inductive Cell where
  | text (s : String)
  | int (v : Int)
  | bool (b : Bool)
  | null
  deriving DecidableEq, Repr

/-- A row of a table, one cell for each column. -/
abbrev Row := List Cell

namespace Cell

/-- A value that may be `None`. -/
def text? : Option String → Cell
  | some s => .text s
  | none => .null

/-- An optional number. -/
def int? : Option Int → Cell
  | some v => .int v
  | none => .null

end Cell

/-- The types of columns. -/
inductive ColumnType where
  | string
  | bool
  | int8
  | int16
  | int32
  | int64
  deriving DecidableEq, Repr

namespace ColumnType

/-- The least integer beyond an integer type's range. -/
def bound : ColumnType → Int
  | .int8 => 2 ^ 7
  | .int16 => 2 ^ 15
  | .int32 => 2 ^ 31
  | .int64 => 2 ^ 63
  | _ => 0

/-- An integer of the type: two's complement of its width. -/
def Holds (t : ColumnType) (v : Int) : Prop := -t.bound ≤ v ∧ v < t.bound

instance (t : ColumnType) (v : Int) : Decidable (t.Holds v) :=
  inferInstanceAs (Decidable (_ ∧ _))

end ColumnType

/-- A column of a table. -/
structure Column where
  name : String
  type : ColumnType
  nullable : Bool
  deriving DecidableEq, Repr

/-- `_required`. -/
def required (name : String) (type : ColumnType) : Column := ⟨name, type, false⟩

/-- `_optional`. -/
def optional (name : String) (type : ColumnType) : Column := ⟨name, type, true⟩

namespace Column

/-- A value an array of the column can be built with. -/
def Takes (c : Column) : Cell → Prop
  | .null => c.nullable = true
  | .text _ => c.type = .string
  | .bool _ => c.type = .bool
  | .int v => c.type.Holds v

instance (c : Column) : DecidablePred c.Takes
  | .null => inferInstanceAs (Decidable (_ = _))
  | .text _ => inferInstanceAs (Decidable (_ = _))
  | .bool _ => inferInstanceAs (Decidable (_ = _))
  | .int _ => inferInstanceAs (Decidable (_ ∧ _))

end Column

/-- The columns of the deltas. -/
def deltas : List Column :=
  [required "ticker" .string, optional "ts_ms" .int64, required "recv_mono_ns" .int64,
    required "recv_wall_ns" .int64, required "conn_id" .int16, required "sid" .int32,
    optional "seq" .int64, required "side" .int8, required "price_e4" .int32,
    required "delta_e2" .int64, optional "own_client_order_id" .string]

/-- The columns of the snapshots. -/
def snapshots : List Column :=
  [required "ticker" .string, required "recv_wall_ns" .int64, required "recv_mono_ns" .int64,
    required "conn_id" .int16, required "sid" .int32, optional "seq" .int64,
    required "side" .int8, required "price_e4" .int32, required "count_e2" .int64,
    required "reason" .int8]

/-- The columns of the trades. -/
def trades : List Column :=
  [required "ticker" .string, required "trade_id" .string, required "ts_ms" .int64,
    required "recv_wall_ns" .int64, required "sid" .int32, optional "seq" .int64,
    required "price_e4" .int32, required "count_e2" .int64, required "taker_side" .int8,
    required "is_block" .bool]

/-- The columns of the lifecycle events. -/
def lifecycle : List Column :=
  [required "ticker" .string, required "msg_type" .string, optional "event_type" .string,
    optional "ts_s" .int64, required "recv_wall_ns" .int64, required "sid" .int32,
    optional "seq" .int64, required "payload_json" .string]

/-- The columns of the gaps. -/
def gaps : List Column :=
  [required "conn_id" .int16, required "sid" .int32, required "recv_wall_ns" .int64,
    required "recv_mono_ns" .int64, required "expected_seq" .int64, required "got_seq" .int64,
    optional "resolved_recv_wall_ns" .int64]

/-- The columns of the audits. -/
def audits : List Column :=
  [required "ticker" .string, required "recv_wall_ns" .int64, required "conn_id" .int16,
    required "outcome" .string, required "send_wall_ns" .int64, required "send_mono_ns" .int64,
    required "recv_mono_ns" .int64, required "window_open_mono_ns" .int64,
    required "window_close_mono_ns" .int64, required "window_events" .int32,
    optional "match_index" .int32, required "levels_rest" .int32,
    optional "levels_local" .int32, optional "mismatched_levels" .int32,
    optional "max_abs_diff_e2" .int64, optional "fault" .string,
    optional "rest_levels_json" .string, optional "local_levels_json" .string]

/-- `TABLES`, as far as the columns go. -/
def tables : TableName → List Column
  | .deltas => deltas
  | .snapshots => snapshots
  | .trades => trades
  | .lifecycle => lifecycle
  | .gaps => gaps
  | .audits => audits

/-- A row that can be stored: a value for each column, and of the column. -/
def Stores (table : TableName) (row : Row) : Prop :=
  List.Forall₂ Column.Takes (tables table) row

/-- Why a snapshot was sent. -/
def snapshotInitial : Int := 0
def snapshotResync : Int := 1
def snapshotReconnect : Int := 2

/-- `snapshots.side` of the one row of an empty book. -/
def emptyBookSide : Int := -1

end Tape.Bake
