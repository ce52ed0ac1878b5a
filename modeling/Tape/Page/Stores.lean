import Tape.Bus.LiveBooks

/-!
# The page's stores

What the web page keeps about each market it watches: `Book`, `TapeStore` and
`MarketRouter` of the page's state, as far as the status of a book depends on
them. A store exists from `track` until `release`, and is `unknown` until a
snapshot. A delta that would drive a level negative shows the book to be wrong:
it is discarded, and the router says so.

The heatmap, the trades, the ticker and the counters are left out, and so is
the clock, which only they read. Counts are integers.
-/

namespace Tape.Page

/-- `KnownBookState`. -/
inductive KnownBookState where
  | fresh
  | stale
  deriving DecidableEq, Repr

/-- The status of a book that is known. -/
def KnownBookState.status : KnownBookState → BookStatus
  | .fresh => .fresh
  | .stale => .stale

/-- The sides of a page's book. -/
inductive BookSide where
  | bid
  | ask
  deriving DecidableEq, Repr

/-- `[price_e4, count_e2]`. -/
abbrev PriceLevel := Nat × Int

/-- The messages about one market. -/
inductive MarketMessage where
  | snapshot (ticker : Ticker) (book : KnownBookState) (bids asks : List PriceLevel)
  | delta (ticker : Ticker) (side : BookSide) (priceE4 : Nat) (deltaE2 : Int)
  | book (ticker : Ticker) (book : KnownBookState)
  | resync (ticker : Ticker) (reason : String)
  | trade (ticker : Ticker)
  | ticker (ticker : Ticker)
  deriving DecidableEq, Repr

/-- The market of a message. -/
def MarketMessage.market : MarketMessage → Ticker
  | .snapshot t _ _ _ => t
  | .delta t _ _ _ => t
  | .book t _ => t
  | .resync t _ => t
  | .trade t => t
  | .ticker t => t

/-- The page's copy of a book: the counts of the prices that were ever set. -/
structure Book where
  bids : Dict Nat Int
  asks : Dict Nat Int

namespace Book

/-- A book without levels. -/
def new : Book := ⟨∅, ∅⟩

/-- All levels are dropped. -/
def clear (_ : Book) : Book := new

/-- Both ladders are replaced. -/
def replace (b : Book) (bids asks : List PriceLevel) : Book :=
  let b := b.clear
  { bids := bids.foldl (fun levels level => levels.set level.1 level.2) b.bids
    asks := asks.foldl (fun levels level => levels.set level.1 level.2) b.asks }

/-- The count at a price of a side. -/
def count (b : Book) (side : BookSide) (priceE4 : Nat) : Int :=
  match side with
  | .bid => b.bids.getD priceE4 0
  | .ask => b.asks.getD priceE4 0

/-- `applyDelta`; `none` is `negative`, which leaves the book unchanged. -/
def applyDelta (b : Book) (side : BookSide) (priceE4 : Nat) (deltaE2 : Int) : Option Book :=
  let next := b.count side priceE4 + deltaE2
  if next < 0 then none
  else
    match side with
    | .bid => some { b with bids := b.bids.set priceE4 next }
    | .ask => some { b with asks := b.asks.set priceE4 next }

end Book

/-- What became of a message. -/
inductive ApplyOutcome where
  | applied
  | ignored
  | bookInvalid
  deriving DecidableEq, Repr

/-- What the page holds of one market, as far as its status depends on it. -/
structure TapeStore where
  ticker : Ticker
  book : Book
  status : BookStatus

namespace TapeStore

/-- A store that knows no book. -/
def new (ticker : Ticker) : TapeStore := ⟨ticker, Book.new, .unknown⟩

/-- The book is no longer known. -/
def discardBook (store : TapeStore) : TapeStore :=
  { store with book := store.book.clear, status := .unknown }

/-- A delta is applied to a fresh book, and shows one to be wrong if it does not
fit. -/
def applyDelta (store : TapeStore) (side : BookSide) (priceE4 : Nat) (deltaE2 : Int) :
    TapeStore × ApplyOutcome :=
  if store.status ≠ .fresh then (store, .ignored)
  else
    match store.book.applyDelta side priceE4 deltaE2 with
    | none => (store.discardBook, .bookInvalid)
    | some book => ({ store with book }, .applied)

/-- A message is applied. -/
def dispatch (store : TapeStore) : MarketMessage → TapeStore × ApplyOutcome
  | .snapshot _ book bids asks =>
      ({ store with book := store.book.replace bids asks, status := book.status }, .applied)
  | .delta _ side priceE4 deltaE2 => store.applyDelta side priceE4 deltaE2
  | .book _ book =>
      if store.status = .unknown then (store, .ignored)
      else ({ store with status := book.status }, .applied)
  | .resync _ _ => (store.discardBook, .applied)
  | .trade _ => (store, .applied)
  | .ticker _ => (store, .applied)

/-- A message of the store's own market. -/
def apply (store : TapeStore) (message : MarketMessage) : TapeStore × ApplyOutcome :=
  if message.market ≠ store.ticker then (store, .ignored) else store.dispatch message

/-- The book is no longer kept up to date. -/
def markConnectionLost (store : TapeStore) : TapeStore :=
  if store.status = .unknown then store else store.discardBook

end TapeStore

/-- The router: its stores, in the order they were tracked. -/
structure MarketRouter where
  stores : Dict Ticker TapeStore

namespace MarketRouter

/-- A router without stores. -/
def new : MarketRouter := ⟨∅⟩

/-- A market gets a store, unless it has one. -/
def track (r : MarketRouter) (ticker : Ticker) : MarketRouter :=
  match r.stores.get? ticker with
  | some _ => r
  | none => ⟨r.stores.set ticker (TapeStore.new ticker)⟩

/-- A market's store is dropped. -/
def release (r : MarketRouter) (ticker : Ticker) : MarketRouter := ⟨r.stores.erase ticker⟩

/-- The markets that have a store. -/
def tickers (r : MarketRouter) : List Ticker := r.stores.keys

/-- `dispatch`, and the market whose book it found invalid, if it did. -/
def dispatch (r : MarketRouter) (message : MarketMessage) : MarketRouter × Option Ticker :=
  match r.stores.get? message.market with
  | none => (r, none)
  | some store =>
      let (store, outcome) := store.apply message
      (⟨r.stores.set message.market store⟩,
        if outcome = .bookInvalid then some message.market else none)

/-- Every store is told that its connection is gone. -/
def connectionLost (r : MarketRouter) : MarketRouter :=
  ⟨r.stores.mapValues fun _ store => store.markConnectionLost⟩

end MarketRouter

/-! ## What messages make of a status -/

/-- The status a message leaves, if a delta does not show the book to be
wrong. -/
def MarketMessage.leaves (message : MarketMessage) (status : BookStatus) : BookStatus :=
  match message with
  | .snapshot _ state _ _ => state.status
  | .book _ state => if status = .unknown then status else state.status
  | .resync _ _ => .unknown
  | _ => status

theorem TapeStore.apply_status {store : TapeStore} {message : MarketMessage}
    (hm : message.market = store.ticker) (hv : (store.apply message).2 ≠ .bookInvalid) :
    (store.apply message).1.status = message.leaves store.status := by
  rw [apply, if_neg (not_not.mpr hm)] at hv ⊢
  cases message with
  | snapshot ticker book bids asks => rfl
  | delta ticker side priceE4 deltaE2 =>
      rw [dispatch, applyDelta] at hv ⊢
      split
      · rfl
      · next hfresh =>
          rw [if_neg hfresh] at hv
          split
          · next hinvalid =>
              rw [hinvalid] at hv
              exact absurd rfl hv
          · rfl
  | book ticker book =>
      rw [dispatch, MarketMessage.leaves]
      split <;> rfl
  | resync ticker reason => rfl
  | trade ticker => rfl
  | ticker ticker => rfl

/-- A book is found invalid by a delta. -/
theorem TapeStore.apply_invalid {store : TapeStore} {message : MarketMessage}
    (h : (store.apply message).2 = .bookInvalid) :
    ∃ ticker side priceE4 deltaE2, message = .delta ticker side priceE4 deltaE2 := by
  rw [apply] at h
  split at h
  · cases h
  · cases message with
    | delta ticker side priceE4 deltaE2 => exact ⟨ticker, side, priceE4, deltaE2, rfl⟩
    | book ticker book =>
        rw [dispatch] at h
        split at h <;> cases h
    | _ => cases h

theorem TapeStore.apply_ticker (store : TapeStore) (message : MarketMessage) :
    (store.apply message).1.ticker = store.ticker := by
  rw [apply]
  split
  · rfl
  · cases message with
    | delta ticker side priceE4 deltaE2 =>
        rw [dispatch, applyDelta]
        split
        · rfl
        · split <;> rfl
    | book ticker book =>
        rw [dispatch]
        split <;> rfl
    | _ => rfl

end Tape.Page
