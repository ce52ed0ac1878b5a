import Mathlib
import Tape.Dict

/-!
# One market's order book

The book of `tape.book`, mutated as the source mutates it. A side is a
dictionary from price to resting count, and the best price of a side is cached
beside it. An operation may raise, and a raise does not undo what came before
it: `applySnapshot` and `applyDelta` therefore answer the book they leave
behind together with what they returned or raised.

The order of the statements in `applyDelta` is the source's. The level is
written first and the crossing is checked after, so a delta that crosses the
book leaves its level in place and only the stale flag set. The invariant
proved next door says what is still true of such a book.
-/

namespace Tape

/-- Markets go by their tickers. -/
abbrev Ticker := String

/-- The two sides of a book. -/
inductive Side where
  | bid
  | ask
  deriving DecidableEq, Repr

/-- `IntEnum` value, as keyframes and baked rows store it. -/
def Side.toInt : Side → Int
  | .bid => 0
  | .ask => 1

/-- A price in 1/10,000 dollar and a contract count in 1/100 contract. -/
structure Level where
  price : Int
  count : Int
  deriving DecidableEq, Repr

/-- A change that a book cannot take. -/
structure BookInvariantError where
  ticker : Ticker
  detail : String
  deriving DecidableEq, Repr

/-- Both ladders of a market, with their best prices. -/
structure Book where
  ticker : Ticker
  bids : Dict Int Int
  asks : Dict Int Int
  bestBid : Option Int
  bestAsk : Option Int
  stale : Bool
  lastTsMs : Option Int
  deriving DecidableEq

namespace Book

/-- `Book.__init__`: empty, and stale until the first snapshot. -/
def new (ticker : Ticker) : Book :=
  { ticker, bids := ∅, asks := ∅, bestBid := none, bestAsk := none, stale := true,
    lastTsMs := none }

/-- The book is no longer right. -/
def markStale (b : Book) : Book := { b with stale := true }

/-- The levels of one side, by price. -/
def side (b : Book) : Side → Dict Int Int
  | .bid => b.bids
  | .ask => b.asks

/-- The best bid and best ask of a crossed book. -/
def crossing (bestBid bestAsk : Option Int) : Option (Int × Int) :=
  match bestBid, bestAsk with
  | some bid, some ask => if bid ≥ ask then some (bid, ask) else none
  | _, _ => none

/-- `Book._collect`: the levels of one side as a dictionary. -/
def collect (ticker : Ticker) (sideName : String) :
    List Level → Dict Int Int → Except BookInvariantError (Dict Int Int)
  | [], out => .ok out
  | level :: rest, out =>
      if level.count ≤ 0 then
        .error ⟨ticker, s!"{sideName} level {level.price} has non-positive count"⟩
      else if out.contains level.price then
        .error ⟨ticker, s!"duplicate {sideName} price {level.price}"⟩
      else
        collect ticker sideName rest (out.set level.price level.count)

/-- Both ladders are replaced; a snapshot that is refused leaves the book
stale. -/
def applySnapshot (b : Book) (bids asks : List Level) (tsMs : Option Int) :
    Book × Except BookInvariantError Unit :=
  match collect b.ticker "bid" bids ∅ with
  | .error e => (b.markStale, .error e)
  | .ok newBids =>
      match collect b.ticker "ask" asks ∅ with
      | .error e => (b.markStale, .error e)
      | .ok newAsks =>
          match crossing newBids.keys.max? newAsks.keys.min? with
          | some (bid, ask) =>
              (b.markStale, .error ⟨b.ticker, s!"crossed snapshot: bid {bid} >= ask {ask}"⟩)
          | none =>
              ({ b with bids := newBids, asks := newAsks, bestBid := newBids.keys.max?,
                        bestAsk := newAsks.keys.min?, stale := false, lastTsMs := tsMs },
                .ok ())

/-- `Book._raise_best_if_better`. -/
def raiseBestIfBetter (b : Book) (side : Side) (price : Int) : Book :=
  match side with
  | .bid =>
      match b.bestBid with
      | none => { b with bestBid := some price }
      | some best => if price > best then { b with bestBid := some price } else b
  | .ask =>
      match b.bestAsk with
      | none => { b with bestAsk := some price }
      | some best => if price < best then { b with bestAsk := some price } else b

/-- `Book._drop_best_if_removed`. -/
def dropBestIfRemoved (b : Book) (side : Side) (price : Int) : Book :=
  match side with
  | .bid => if b.bestBid = some price then { b with bestBid := b.bids.keys.max? } else b
  | .ask => if b.bestAsk = some price then { b with bestAsk := b.asks.keys.min? } else b

/-- The levels of one side are replaced. -/
def setSide (b : Book) (side : Side) (levels : Dict Int Int) : Book :=
  match side with
  | .bid => { b with bids := levels }
  | .ask => { b with asks := levels }

/-- A side by its name. -/
def sideName : Side → String
  | .bid => "bid"
  | .ask => "ask"

/-- The level written and the best price kept up, before the crossing check. -/
def writeLevel (b : Book) (side : Side) (price : Int) (updated : Int) : Book :=
  if updated = 0 then
    (b.setSide side ((b.side side).erase price)).dropBestIfRemoved side price
  else
    (b.setSide side ((b.side side).set price updated)).raiseBestIfBetter side price

/-- One level is changed, on a book that is not stale; the answer is whether it
was. -/
def applyDelta (b : Book) (side : Side) (price : Int) (delta : Int) (tsMs : Option Int) :
    Book × Except BookInvariantError Bool :=
  if b.stale then (b, .ok false)
  else
    let current := (b.side side).getD price 0
    let updated := current + delta
    if updated < 0 then
      (b.markStale, .error ⟨b.ticker,
        s!"{sideName side} level {price} would go negative: {current} + {delta}"⟩)
    else
      let b' := b.writeLevel side price updated
      match crossing b'.bestBid b'.bestAsk with
      | some (bid, ask) =>
          (b'.markStale, .error ⟨b.ticker, s!"crossed after delta: bid {bid} >= ask {ask}"⟩)
      | none =>
          (match tsMs with
            | none => b'
            | some ts => { b' with lastTsMs := some ts }, .ok true)

/-- Resting count at a price; zero when the level does not exist. -/
def sizeAt (b : Book) (side : Side) (price : Int) : Int := (b.side side).getD price 0

/-- Tuple order on `(price, count)` pairs, which `sorted` goes by. -/
def pairLe (x y : Int × Int) : Prop := x.1 < y.1 ∨ x.1 = y.1 ∧ x.2 ≤ y.2

instance : DecidableRel pairLe := fun x y =>
  inferInstanceAs (Decidable (x.1 < y.1 ∨ x.1 = y.1 ∧ x.2 ≤ y.2))

/-- The levels of a side, best first. -/
def sortedItems (side : Side) (levels : Dict Int Int) : List (Int × Int) :=
  match side with
  | .bid => levels.entries.insertionSort (fun x y => pairLe y x)
  | .ask => levels.entries.insertionSort pairLe

/-- Every level of a side, best first: bids descending, asks ascending. -/
def levels (b : Book) (side : Side) : List Level :=
  (sortedItems side (b.side side)).map fun e => ⟨e.1, e.2⟩

/-- `Book.best_bid`, with the count resting there. -/
def bestBidLevel (b : Book) : Option Level :=
  b.bestBid.map fun price => ⟨price, b.bids.getD price 0⟩

/-- The lowest ask with its count. -/
def bestAskLevel (b : Book) : Option Level :=
  b.bestAsk.map fun price => ⟨price, b.asks.getD price 0⟩

@[simp] theorem markStale_stale (b : Book) : b.markStale.stale = true := rfl
@[simp] theorem markStale_ticker (b : Book) : b.markStale.ticker = b.ticker := rfl
@[simp] theorem markStale_bids (b : Book) : b.markStale.bids = b.bids := rfl
@[simp] theorem markStale_asks (b : Book) : b.markStale.asks = b.asks := rfl
@[simp] theorem markStale_bestBid (b : Book) : b.markStale.bestBid = b.bestBid := rfl
@[simp] theorem markStale_bestAsk (b : Book) : b.markStale.bestAsk = b.bestAsk := rfl
@[simp] theorem markStale_side (b : Book) (s : Side) : b.markStale.side s = b.side s := by
  cases s <;> rfl
@[simp] theorem markStale_sizeAt (b : Book) (s : Side) (p : Int) :
    b.markStale.sizeAt s p = b.sizeAt s p := by rw [sizeAt, markStale_side, sizeAt]

@[simp] theorem setSide_side (b : Book) (s s' : Side) (l : Dict Int Int) :
    (b.setSide s l).side s' = if s = s' then l else b.side s' := by
  cases s <;> cases s' <;> rfl

@[simp] theorem setSide_stale (b : Book) (s : Side) (l : Dict Int Int) :
    (b.setSide s l).stale = b.stale := by cases s <;> rfl
@[simp] theorem setSide_ticker (b : Book) (s : Side) (l : Dict Int Int) :
    (b.setSide s l).ticker = b.ticker := by cases s <;> rfl
@[simp] theorem setSide_bestBid (b : Book) (s : Side) (l : Dict Int Int) :
    (b.setSide s l).bestBid = b.bestBid := by cases s <;> rfl
@[simp] theorem setSide_bestAsk (b : Book) (s : Side) (l : Dict Int Int) :
    (b.setSide s l).bestAsk = b.bestAsk := by cases s <;> rfl

end Book

end Tape
