import Mathlib
import Tape.Page.Stores
import Tape.Web.Book
import Tape.Web.DepthHistory

/-!
# The page's market, as its heatmap shows it

`PriceGrid` and `TapeStore` of the page's state: a market message changes the
book, and what the book then is is written into the head column of the depth
history, a time bin at a time. A row holds the counts of all prices nearest to
it; its total follows the deltas and is rebuilt when the whole book changes.

Two things of the page's numbers are parameters: how an exact value is rounded
to a double, and how a row's total is drawn. The trades, the ticker, the
counters, the largest row and the summary are left out.
-/

namespace Tape.Web

open Tape.Page (KnownBookState BookSide MarketMessage)

/-! ## The price grid -/

/-- The rows of the heatmap. -/
structure PriceGrid where
  tickE4 : Nat
  rowStepE4 : Nat
  rows : Nat
  assumed : Bool
  divides : rowStepE4 ∣ maxPriceE4
  spaced : rows = maxPriceE4 / rowStepE4 + 1

/-- Two grids lay out rows identically. -/
def sameRows (left right : PriceGrid) : Bool :=
  left.rowStepE4 = right.rowStepE4 ∧ left.rows = right.rows

/-- The row nearest a price, half rounded up, clamped to the grid. -/
def rowForPrice (grid : PriceGrid) (priceE4 : Nat) : Nat :=
  min (grid.rows - 1) ((2 * priceE4 + grid.rowStepE4) / (2 * grid.rowStepE4))

/-- A row for every cent. -/
def oneCentGrid : PriceGrid where
  tickE4 := 100
  rowStepE4 := 100
  rows := 101
  assumed := true
  divides := by decide
  spaced := by decide

/-! ## The store -/

/-- The page's arithmetic: the double nearest to a value, and the depth that is
drawn for a row's total, `log1p(total / 100)` as a 32-bit float. -/
structure Numbers (α : Type) where
  round : ℚ → ℚ
  encode : Int → α

/-- What a store is made with. -/
structure TapeStoreOptions where
  ticker : Ticker
  grid : PriceGrid
  originMs : ℚ
  binMs : ℚ
  historyColumns : Nat
  binPos : 0 < binMs
  columnsPos : 0 < historyColumns

/-- What the page holds of one market. -/
structure TapeStore (α : Type) where
  options : TapeStoreOptions
  book : Book
  grid : PriceGrid
  history : DepthHistory α
  /-- Resting counts by row, bids and asks together. -/
  rowTotals : List Int
  status : BookStatus
  /-- A known book was lost and no snapshot has restored it yet. -/
  gap : Bool

/-- The side of a book's side. -/
def side : BookSide → Side
  | .bid => .bid
  | .ask => .ask

namespace TapeStore

variable {α : Type}

/-- A store that knows no book, its first column begun. -/
def new [Zero α] (options : TapeStoreOptions) : TapeStore α where
  options := options
  book := .new
  grid := options.grid
  history := (DepthHistory.new options.historyColumns options.grid.rows).advanceTo 0
    ColumnStatus.unknown
  rowTotals := List.replicate options.grid.rows 0
  status := .unknown
  gap := false

/-- The fractional bin of a time; never below 0. -/
def binAt (n : Numbers α) (s : TapeStore α) (atMs : ℚ) : ℚ :=
  max 0 (n.round (n.round (atMs - s.options.originMs) / s.options.binMs))

/-- The bin of an instant. -/
def binIndex (n : Numbers α) (s : TapeStore α) (atMs : ℚ) : Int := ⌊s.binAt n atMs⌋

/-- The status of a column that is drawn now. -/
def statusCode (s : TapeStore α) : Nat :=
  match s.status with
  | .fresh => ColumnStatus.fresh
  | .stale => ColumnStatus.stale
  | .unknown => if s.gap then ColumnStatus.gap else ColumnStatus.unknown

section Writing

variable [Zero α] (n : Numbers α) (s : TapeStore α)

/-- `#advance`. -/
def advance (atMs : ℚ) : TapeStore α :=
  { s with history := s.history.advanceTo (s.binIndex n atMs) s.statusCode }

/-- `#rowTotals[row] = …` of one level. -/
def addLevel (grid : PriceGrid) (totals : List Int) (level : Side × Nat × Int) : List Int :=
  let row := rowForPrice grid level.2.1
  totals.set row (toDouble (totals.getD row 0 + level.2.2))

/-- `#rasterizeBook`: the row totals and the head column from the whole book. -/
def rasterizeBook : TapeStore α :=
  let totals := s.book.forEachLevel.foldl (addLevel s.grid) (s.rowTotals.map fun _ => 0)
  { s with
    rowTotals := totals
    history := ((s.history.setHeadProfile (totals.map n.encode)).setHeadQuotes s.book.bestBid
      s.book.bestAsk).raiseHeadStatus s.statusCode }

/-- `#discardBook`: the book is cleared and the head column marked a gap. -/
def discardBook : TapeStore α :=
  { s with
    book := s.book.clear
    status := .unknown
    gap := true
    rowTotals := s.rowTotals.map fun _ => 0
    history := ((s.history.setHeadProfile (List.replicate s.grid.rows 0)).setHeadQuotes none
      none).raiseHeadStatus ColumnStatus.gap }

/-- `#applyDelta`, after it advanced. -/
def changeLevel (side : Side) (priceE4 : Nat) (deltaE2 : Int) : TapeStore α :=
  if s.status ≠ .fresh then s
  else
    match s.book.applyDelta side priceE4 deltaE2 with
    | (_, .negative) => s.discardBook
    | (book, .applied) =>
        let row := rowForPrice s.grid priceE4
        let total := max 0 (toDouble (s.rowTotals.getD row 0 + deltaE2))
        { s with
          book
          rowTotals := s.rowTotals.set row total
          history := (s.history.setHeadRow row (n.encode total)).setHeadQuotes book.bestBid
            book.bestAsk }

/-- `#dispatch`. -/
def dispatch (message : MarketMessage) (atMs : ℚ) : TapeStore α :=
  match message with
  | .snapshot _ book bids asks =>
      let s := s.advance n atMs
      { s with
        book := s.book.replace bids asks
        status := book.status
        gap := false }.rasterizeBook n
  | .delta _ bookSide priceE4 deltaE2 =>
      (s.advance n atMs).changeLevel n (side bookSide) priceE4 deltaE2
  | .book _ book =>
      let s := s.advance n atMs
      if s.status = .unknown then s
      else
        let s := { s with status := book.status }
        { s with history := s.history.raiseHeadStatus s.statusCode }
  | .resync _ _ => (s.advance n atMs).discardBook
  | .trade _ => s
  | .ticker _ => s

/-- `#changed`. -/
def changed : TapeStore α := { s with history := s.history.setEdgeStatus s.statusCode }

/-- A message of the store's own market. -/
def apply (message : MarketMessage) (atMs : ℚ) : TapeStore α :=
  if message.market ≠ s.options.ticker then s else (s.dispatch n message atMs).changed

/-- The book is no longer known. -/
def markConnectionLost (atMs : ℚ) : TapeStore α :=
  if s.status = .unknown then s else (s.advance n atMs).discardBook.changed

/-- Another grid, and a new history if its rows differ. -/
def setGrid (grid : PriceGrid) (atMs : ℚ) : TapeStore α :=
  if sameRows grid s.grid then { s with grid }.changed
  else
    let s : TapeStore α :=
      { s with
        grid
        history := (DepthHistory.new s.options.historyColumns grid.rows).advanceTo
          (s.binIndex n atMs) s.statusCode
        rowTotals := List.replicate grid.rows 0 }
    (if s.status ≠ .unknown then s.rasterizeBook n else s).changed

end Writing

end TapeStore

/-- What is done to a store, and when. -/
inductive HeatmapAct where
  | message (message : MarketMessage) (atMs : ℚ)
  | connectionLost (atMs : ℚ)
  | setGrid (grid : PriceGrid) (atMs : ℚ)

/-- The instant of a call. -/
def HeatmapAct.atMs : HeatmapAct → ℚ
  | .message _ atMs => atMs
  | .connectionLost atMs => atMs
  | .setGrid _ atMs => atMs

/-- One call of the store. -/
def TapeStore.step {α : Type} [Zero α] (n : Numbers α) (s : TapeStore α) :
    HeatmapAct → TapeStore α
  | .message message atMs => s.apply n message atMs
  | .connectionLost atMs => s.markConnectionLost n atMs
  | .setGrid grid atMs => s.setGrid n grid atMs

end Tape.Web
