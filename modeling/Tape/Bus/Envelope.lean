import Tape.Book.Event

/-!
# Bus messages and their numbers

Every event the publisher attempts is numbered, whether or not the transport
takes it: a message the transport refuses is lost like any other, its number
spent. The encoding is left out; an envelope on the bus is an envelope, and
what does not decode never becomes one.
-/

namespace Tape

/-- The recorder's image of one book it holds. -/
structure BookRefresh where
  ticker : Ticker
  tsMs : Option Int
  receipt : Receipt
  stale : Bool
  bids : List Level
  asks : List Level
  deriving DecidableEq, Repr

/-- One recorded market; of its fields, the one the hub looks markets up by. -/
structure CatalogEntry where
  ticker : Ticker
  deriving DecidableEq, Repr

/-- The markets that are recorded. -/
structure MarketCatalog where
  markets : List CatalogEntry
  deriving DecidableEq, Repr

/-- What is published. -/
inductive BusEvent where
  | book (e : BookEvent)
  | refresh (e : BookRefresh)
  | gap (e : GapEvent)
  | other (e : OtherEvent)
  | catalog (e : MarketCatalog)
  | status
  deriving DecidableEq

namespace BusEvent

/-- What a supervisor's event is on the bus. -/
def ofMarket : MarketEvent → BusEvent
  | .snapshot e => .book (.snapshot e)
  | .delta e => .book (.delta e)
  | .gap e => .gap e
  | .other e => .other e

/-- `isinstance(event, BookRefresh | BookSnapshot | BookDelta)`. -/
def isBook : BusEvent → Bool
  | .book _ => true
  | .refresh _ => true
  | _ => false

end BusEvent

/-- `FIRST_BUS_SEQ`: the number of an epoch's first message. -/
def firstBusSeq : Int := 1

/-- An event with its place in the sequence of its publisher. -/
structure BusEnvelope where
  busEpoch : Nat
  busSeq : Int
  event : BusEvent
  deriving DecidableEq

/-- The number published last, in the epoch of the publisher. -/
structure SequencedPublisher where
  epoch : Nat
  lastSeq : Int
  deriving DecidableEq, Repr

namespace SequencedPublisher

/-- A publisher that published nothing. -/
def new (epoch : Nat) : SequencedPublisher := ⟨epoch, firstBusSeq - 1⟩

/-- `publish`: the number is spent before the transport is tried. -/
def publish (p : SequencedPublisher) (event : BusEvent) : SequencedPublisher × BusEnvelope :=
  let p := { p with lastSeq := p.lastSeq + 1 }
  (p, { busEpoch := p.epoch, busSeq := p.lastSeq, event })

end SequencedPublisher

end Tape
