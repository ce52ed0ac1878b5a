import Tape.Sorted
import Tape.Store.Tables

/-!
# Historical replay

`replay` applies baked rows to the books of a keyframe. The rows of the three
tables become stamped events, the events are put in the order in which the
recorder is taken to have handled them, and each is applied to the book it
names. A gap stales the books whose last change since the keyframe came on its
subscription; a book that has not changed since then is not known to belong to
any subscription.
-/

namespace Tape

/-- What one event of a replay does. -/
inductive ReplayChange where
  | delta (ticker : Ticker) (connId : Int) (sid : Sid) (side : Side) (price delta : Int)
      (tsMs : Option Int)
  | snapshot (ticker : Ticker) (connId : Int) (sid : Sid) (bids asks : List Level)
  | gap (connId : Int) (sid : Sid)
  deriving DecidableEq

/-- A change with the receipt times that order it. -/
structure Stamped where
  recvWallNs : Int
  recvMonoNs : Int
  order : Int
  change : ReplayChange
  deriving DecidableEq

/-- A monotonic receipt this far below an earlier one: the host restarted. -/
def monoRestartNs : Int := 600 * 1000000000

/-- A gap comes before the changes received with it. -/
def gapOrder : Int := 0

def changeOrder : Int := 1

/-! ## Events -/

/-- The event of a delta row. -/
def DeltaRow.event (r : DeltaRow) : Stamped :=
  ⟨r.recvWallNs, r.recvMonoNs, changeOrder,
    .delta r.ticker r.connId r.sid r.side r.priceE4 r.deltaE2 r.tsMs⟩

/-- `_delta_events`. -/
def deltaEvents (rows : List DeltaRow) : List Stamped := rows.map DeltaRow.event

/-- What the rows of one snapshot share: ticker, receipt, subscription and
sequence. Rows without a sequence number sort last. -/
def SnapshotRow.key (r : SnapshotRow) : Ticker ×ₗ Int ×ₗ Int ×ₗ Int ×ₗ WithTop Int :=
  toLex (r.ticker, toLex (r.recvWallNs, toLex (r.connId, toLex (r.sid, r.seq))))

/-- `_levels`. -/
def snapshotLevels (rows : List SnapshotRow) (s : Side) : List Level :=
  (rows.filter fun r => r.side = s.toInt).map fun r => ⟨r.priceE4, r.countE2⟩

/-- The event of the rows of one snapshot. -/
def snapshotEvent (rows : SnapshotRow × List SnapshotRow) : Stamped :=
  let all := rows.1 :: rows.2
  ⟨rows.1.recvWallNs, rows.1.recvMonoNs, changeOrder,
    .snapshot rows.1.ticker rows.1.connId rows.1.sid (snapshotLevels all .bid)
      (snapshotLevels all .ask)⟩

/-- `_snapshot_events`. -/
def snapshotEvents (rows : List SnapshotRow) : List Stamped :=
  (Sorted.runs SnapshotRow.key (Sorted.sortOn SnapshotRow.key rows)).map snapshotEvent

/-- The event of a gap row. -/
def GapRow.event (r : GapRow) : Stamped :=
  ⟨r.recvWallNs, r.recvMonoNs, gapOrder, .gap r.connId r.sid⟩

/-- `_gap_events`. -/
def gapEvents (rows : List GapRow) : List Stamped := rows.map GapRow.event

/-! ## The order of application -/

/-- Restarts before the event, its monotonic time, gaps first, its position. -/
abbrev ReplayKey := Int ×ₗ Int ×ₗ Int ×ₗ Nat

/-- Where an event comes in the replay. -/
def replayKey (restarts : Int) (e : Stamped) (index : Nat) : ReplayKey :=
  toLex (restarts, toLex (e.recvMonoNs, toLex (e.order, index)))

/-- The keys of events taken in the order of their wall clocks. `highest` is
the highest monotonic reading since the last restart. -/
def keyed : Int → Option Int → List (Stamped × Nat) → List (ReplayKey × Stamped)
  | _, _, [] => []
  | restarts, highest, (e, index) :: later =>
      let mono := e.recvMonoNs
      match highest with
      | none => (replayKey restarts e index, e) :: keyed restarts (some mono) later
      | some high =>
          if mono < high - monoRestartNs then
            (replayKey (restarts + 1) e index, e) :: keyed (restarts + 1) (some mono) later
          else (replayKey restarts e index, e) :: keyed restarts (some (max high mono)) later

/-- An event's place in the order of the wall clocks. -/
def wallKey (e : Stamped × Nat) : Int ×ₗ Nat := toLex (e.1.recvWallNs, e.2)

/-- The events in the order they are replayed. -/
def inOrder (events : List Stamped) : List Stamped :=
  (Sorted.sortOn Prod.fst (keyed 0 none (Sorted.sortOn wallKey events.zipIdx))).map Prod.snd

/-! ## Application -/

/-- The books, and on which subscription each was changed last. -/
structure ReplayState where
  books : Dict Ticker Book
  lastSubscription : Dict Ticker (Int × Sid)

namespace ReplayState

/-- What `_apply` does with a change of a market: the book after it, whether
the change was applied or refused. -/
def change (r : ReplayState) (ticker : Ticker) (subscription : Int × Sid)
    (op : Book → Book) : ReplayState :=
  { books := r.books.set ticker (op (r.books.getD ticker (Book.new ticker)))
    lastSubscription := r.lastSubscription.set ticker subscription }

/-- `_apply`. -/
def apply (r : ReplayState) (e : Stamped) : ReplayState :=
  match e.change with
  | .gap connId sid =>
      { r with
        books := r.books.mapValues fun t b =>
          if r.lastSubscription.get? t = some (connId, sid) then b.markStale else b }
  | .delta ticker connId sid side price delta tsMs =>
      r.change ticker (connId, sid) fun b => (b.applyDelta side price delta tsMs).1
  | .snapshot ticker connId sid bids asks =>
      r.change ticker (connId, sid) fun b => (b.applySnapshot bids asks none).1

end ReplayState

/-- The books once all rows were replayed onto them. -/
def replay (books : Dict Ticker Book) (deltas : List DeltaRow) (snapshots : List SnapshotRow)
    (gaps : List GapRow) : Dict Ticker Book :=
  ((inOrder (deltaEvents deltas ++ snapshotEvents snapshots ++ gapEvents gaps)).foldl
    ReplayState.apply ⟨books, ∅⟩).books

end Tape
