import Tape.Book.Event
import Tape.Recorder.Record
import Tape.Recorder.Serving

/-!
# The baked tables of a recording

The bake turns each recorded book frame into rows: one for a delta, one for
each level of a snapshot, and one of side `-1` for a snapshot without levels. A
recorded gap becomes one row. The rows carry the columns the catalog reads;
what else a part file holds plays no role in a replay.

A frame that does not decode, or whose payload does not convert, has no rows.
-/

namespace Tape

/-- A row of the deltas, as the replay reads it. -/
structure DeltaRow where
  ticker : Ticker
  recvWallNs : Int
  recvMonoNs : Int
  connId : Int
  sid : Sid
  seq : Option Int
  side : Side
  priceE4 : Int
  deltaE2 : Int
  tsMs : Option Int
  deriving DecidableEq, Repr

/-- A level of a snapshot; `side` is `-1` in the row of an empty one. -/
structure SnapshotRow where
  ticker : Ticker
  recvWallNs : Int
  recvMonoNs : Int
  connId : Int
  sid : Sid
  seq : Option Int
  side : Int
  priceE4 : Int
  countE2 : Int
  deriving DecidableEq, Repr

/-- A row of the gaps, as the replay reads it. -/
structure GapRow where
  connId : Int
  sid : Sid
  recvWallNs : Int
  recvMonoNs : Int
  deriving DecidableEq, Repr

namespace DeltaRow

/-- The row of a delta. -/
def ofDelta (e : BookDelta) : DeltaRow :=
  { ticker := e.ticker, recvWallNs := e.receipt.recvWallNs,
    recvMonoNs := e.receipt.recvMonoNs, connId := e.receipt.connId, sid := e.sid, seq := e.seq,
    side := e.side, priceE4 := e.price, deltaE2 := e.delta, tsMs := e.tsMs }

end DeltaRow

namespace SnapshotRow

/-- The row of a level. -/
def ofLevel (e : BookSnapshot) (side : Int) (l : Level) : SnapshotRow :=
  { ticker := e.ticker, recvWallNs := e.receipt.recvWallNs,
    recvMonoNs := e.receipt.recvMonoNs, connId := e.receipt.connId, sid := e.sid, seq := e.seq,
    side, priceE4 := l.price, countE2 := l.count }

/-- The rows of a snapshot. -/
def ofSnapshot (e : BookSnapshot) : List SnapshotRow :=
  let rows := e.bids.map (ofLevel e Side.bid.toInt) ++ e.asks.map (ofLevel e Side.ask.toInt)
  if rows.isEmpty then [ofLevel e emptySide ⟨0, 0⟩] else rows

end SnapshotRow

/-- The book event of an envelope. -/
def bookEvent (useYesPrice : Bool) (env : Envelope) (receipt : Receipt) : Option BookEvent :=
  match env.body with
  | .orderbookSnapshot msg =>
      match readSnapshot msg env receipt useYesPrice with
      | .error _ => none
      | .ok e => some (.snapshot e)
  | .orderbookDelta msg =>
      match readDelta msg env receipt useYesPrice with
      | .error _ => none
      | .ok e => some (.delta e)
  | _ => none

theorem changeOf_eq (config : SupervisorConfig) (env : Envelope) (receipt : Receipt) :
    Supervisor.changeOf config env receipt =
      (bookEvent config.useYesPrice env receipt).map fun e => (e.ticker, e.change) := by
  rw [Supervisor.changeOf, bookEvent]
  cases env.body with
  | orderbookSnapshot msg =>
      simp only []
      cases readSnapshot msg env receipt config.useYesPrice <;> rfl
  | orderbookDelta msg =>
      simp only []
      cases readDelta msg env receipt config.useYesPrice <;> rfl
  | _ => rfl

/-- A book event is addressed and stamped as its frame is. -/
theorem bookEvent_address {useYesPrice : Bool} {env : Envelope} {receipt : Receipt}
    {e : BookEvent} (h : bookEvent useYesPrice env receipt = some e) :
    env.sid = some e.sid ∧ e.receipt = receipt := by
  rw [bookEvent] at h
  split at h
  · split at h
    · cases h
    · next hread =>
        obtain rfl := Option.some.inj h
        obtain ⟨hsid, -, hreceipt, -⟩ := readSnapshot_address hread
        exact ⟨hsid, hreceipt⟩
  · split at h
    · cases h
    · next hread =>
        obtain rfl := Option.some.inj h
        obtain ⟨hsid, -, hreceipt⟩ := readDelta_address hread
        exact ⟨hsid, hreceipt⟩
  · cases h

/-- The book event of a recorded frame. -/
def bakedEvent (config : SupervisorConfig) (f : RawFrame) : Option BookEvent :=
  match f.payload with
  | .error _ => none
  | .ok env => bookEvent config.useYesPrice env ⟨config.connId, f.recvMonoNs, f.recvWallNs⟩

namespace TapeRecord

variable (config : SupervisorConfig)

/-- The delta rows a record is baked to. -/
def deltaRows : TapeRecord → List DeltaRow
  | .frame f =>
      match bakedEvent config f with
      | some (.delta e) => [DeltaRow.ofDelta e]
      | _ => []
  | _ => []

/-- The snapshot rows a record is baked to. -/
def snapshotRows : TapeRecord → List SnapshotRow
  | .frame f =>
      match bakedEvent config f with
      | some (.snapshot e) => SnapshotRow.ofSnapshot e
      | _ => []
  | _ => []

/-- The gap row a record is baked to. -/
def gapRows : TapeRecord → List GapRow
  | .gap connId recvMonoNs recvWallNs sid _ _ => [⟨connId, sid, recvWallNs, recvMonoNs⟩]
  | _ => []

end TapeRecord

end Tape
