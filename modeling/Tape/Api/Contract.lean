import Tape.Api.Session
import Tape.Json
import Tape.Web.Book

/-!
# The messages of the live API

The types of `tape.api.contract`, with every field, and the JSON the server
writes of them: the tag first, then the fields in their order. A number is the
double its digits are read as.
-/

namespace Tape.Api.Contract

/-! ## The types -/

/-- A range of prices with one step. -/
structure PriceRange where
  startE4 : Int
  endE4 : Int
  stepE4 : Int
  deriving DecidableEq, Repr

/-- A market as the list shows it. -/
structure MarketRow where
  ticker : String
  eventTicker : String
  seriesTicker : String
  title : Option String
  subtitle : Option String
  category : Option String
  showcase : Bool
  volume24hE2 : Int
  closeTs : Option Int
  bidE4 : Option Int
  askE4 : Option Int
  lastE4 : Option Int
  book : BookStatus
  deriving DecidableEq, Repr

/-- The levels of a book, best first. -/
structure Depth where
  tsMs : Option Int
  bids : List Level
  asks : List Level
  deriving DecidableEq, Repr

/-- A market's row with its price ranges and depth. -/
structure MarketDetail extends MarketRow where
  priceRanges : Option (List PriceRange)
  depth : Option Depth
  deriving DecidableEq, Repr

/-- One connection, as the recorder last reported it. -/
structure ConnectionHealth where
  connId : Int
  taped : Bool
  frames : Int
  gaps : Int
  reconnects : Int
  staleBooks : Int
  sinkDropped : Int
  deriving DecidableEq, Repr

/-- What the recorder last reported of itself. -/
structure RecorderHealth where
  universeSize : Int
  subscribedMarkets : Int
  connections : List ConnectionHealth
  deriving DecidableEq, Repr

/-- What the follower of the bus has counted. -/
structure BusHealth where
  epoch : Option String
  lastSeq : Option Int
  messages : Int
  resets : Int
  missed : Int
  booksKnown : Int
  deriving DecidableEq, Repr

/-- The body of the status route. -/
structure ServiceStatus where
  recording : Bool
  recorderStatusAgeMs : Option Int
  recorder : Option RecorderHealth
  bus : BusHealth
  clients : Int
  deriving DecidableEq, Repr

/-- The code and text of an error. -/
structure ErrorBody where
  code : String
  message : String
  deriving DecidableEq, Repr

/-- A trade, as it is sent to clients. -/
structure TradeMessage where
  ticker : String
  tsMs : Int
  priceE4 : Int
  countE2 : Int
  takerSide : Side
  deriving DecidableEq, Repr

/-- The quotes of a market, as they are sent to clients. -/
structure TickerMessage where
  ticker : String
  tsMs : Int
  bidE4 : Option Int
  askE4 : Option Int
  lastE4 : Option Int
  volumeE2 : Int
  deriving DecidableEq, Repr

/-- The messages of the live feed, with all they carry. -/
inductive ServerMessage where
  | hello (protocol maxTickers busRefreshS : Int)
  | subscribed (tickers : List String) (rejected : List Rejection)
  | snapshot (ticker : String) (book : KnownBookState) (tsMs : Option Int)
      (bids asks : List Level)
  | delta (ticker : String) (tsMs : Option Int) (side : Side) (priceE4 deltaE2 : Int)
  | book (ticker : String) (book : KnownBookState)
  | resync (ticker : String) (reason : String)
  | trade (m : TradeMessage)
  | ticker (m : TickerMessage)
  | error (code message : String)
  deriving DecidableEq, Repr

/-! ## The JSON of a message -/

/-- A whole number in its digits, as a double reads them. -/
def int (n : Int) : Json := .number (Web.toDouble n)

/-- A value that may be `null`. -/
def nullable {α : Type} (encode : α → Json) : Option α → Json
  | none => .null
  | some a => encode a

/-- A side by its name. -/
def sideText : Side → String
  | .bid => "bid"
  | .ask => "ask"

/-- The state of a book that is known, by its name. -/
def knownBookStateText : KnownBookState → String
  | .fresh => "fresh"
  | .stale => "stale"

/-- The state of a book, by its name. -/
def bookStateText : BookStatus → String
  | .unknown => "unknown"
  | .fresh => "fresh"
  | .stale => "stale"

/-- `PriceLevel`. -/
def level (l : Level) : Json := .array [int l.price, int l.count]

/-- A ladder of levels. -/
def levels (l : List Level) : Json := .array (l.map level)

/-- A rejected ticker with its reason. -/
def rejection (r : Rejection) : Json :=
  .object [("ticker", .string r.ticker), ("code", .string r.code)]

namespace ServerMessage

/-- The tag of a message. -/
def tag : ServerMessage → String
  | .hello _ _ _ => "hello"
  | .subscribed _ _ => "subscribed"
  | .snapshot _ _ _ _ _ => "snapshot"
  | .delta _ _ _ _ _ => "delta"
  | .book _ _ => "book"
  | .resync _ _ => "resync"
  | .trade _ => "trade"
  | .ticker _ => "ticker"
  | .error _ _ => "error"

/-- The members of a message beside its tag. -/
def fields : ServerMessage → List (String × Json)
  | .hello protocol maxTickers busRefreshS =>
      [("protocol", int protocol), ("max_tickers", int maxTickers),
        ("bus_refresh_s", int busRefreshS)]
  | .subscribed tickers rejected =>
      [("tickers", .array (tickers.map .string)), ("rejected", .array (rejected.map rejection))]
  | .snapshot market state tsMs bids asks =>
      [("ticker", .string market), ("book", .string (knownBookStateText state)),
        ("ts_ms", nullable int tsMs), ("bids", levels bids), ("asks", levels asks)]
  | .delta market tsMs side priceE4 deltaE2 =>
      [("ticker", .string market), ("ts_ms", nullable int tsMs),
        ("side", .string (sideText side)), ("price_e4", int priceE4), ("delta_e2", int deltaE2)]
  | .book market state =>
      [("ticker", .string market), ("book", .string (knownBookStateText state))]
  | .resync market reason => [("ticker", .string market), ("reason", .string reason)]
  | .trade m =>
      [("ticker", .string m.ticker), ("ts_ms", int m.tsMs), ("price_e4", int m.priceE4),
        ("count_e2", int m.countE2), ("taker_side", .string (sideText m.takerSide))]
  | .ticker m =>
      [("ticker", .string m.ticker), ("ts_ms", int m.tsMs), ("bid_e4", nullable int m.bidE4),
        ("ask_e4", nullable int m.askE4), ("last_e4", nullable int m.lastE4),
        ("volume_e2", int m.volumeE2)]
  | .error code message => [("code", .string code), ("message", .string message)]

/-- A message, its tag first. -/
def encode (m : ServerMessage) : Json := .object (("t", .string m.tag) :: m.fields)

end ServerMessage

/-! ## The JSON of the REST bodies -/

/-- A price range. -/
def priceRange (r : PriceRange) : Json :=
  .object [("start_e4", int r.startE4), ("end_e4", int r.endE4), ("step_e4", int r.stepE4)]

/-- The members of a row. -/
def MarketRow.fields (r : MarketRow) : List (String × Json) :=
  [("ticker", .string r.ticker), ("event_ticker", .string r.eventTicker),
    ("series_ticker", .string r.seriesTicker), ("title", nullable .string r.title),
    ("subtitle", nullable .string r.subtitle), ("category", nullable .string r.category),
    ("showcase", .bool r.showcase), ("volume_24h_e2", int r.volume24hE2),
    ("close_ts", nullable int r.closeTs), ("bid_e4", nullable int r.bidE4),
    ("ask_e4", nullable int r.askE4), ("last_e4", nullable int r.lastE4),
    ("book", .string (bookStateText r.book))]

/-- Both ladders with their time. -/
def depth (d : Depth) : Json :=
  .object [("ts_ms", nullable int d.tsMs), ("bids", levels d.bids), ("asks", levels d.asks)]

/-- The body of the list of markets. -/
def marketsResponse (rows : List MarketRow) : Json :=
  .object [("markets", .array (rows.map fun row => .object row.fields))]

/-- The members of the row, and the two of the detail. -/
def MarketDetail.encode (m : MarketDetail) : Json :=
  .object (m.toMarketRow.fields ++
    [("price_ranges", nullable (fun ranges => .array (ranges.map priceRange)) m.priceRanges),
      ("depth", nullable Contract.depth m.depth)])

/-- One connection of the recorder's report. -/
def connectionHealth (c : ConnectionHealth) : Json :=
  .object [("conn_id", int c.connId), ("taped", .bool c.taped), ("frames", int c.frames),
    ("gaps", int c.gaps), ("reconnects", int c.reconnects), ("stale_books", int c.staleBooks),
    ("sink_dropped", int c.sinkDropped)]

/-- The recorder's report. -/
def recorderHealth (r : RecorderHealth) : Json :=
  .object [("universe_size", int r.universeSize),
    ("subscribed_markets", int r.subscribedMarkets),
    ("connections", .array (r.connections.map connectionHealth))]

/-- The counts of the bus. -/
def busHealth (b : BusHealth) : Json :=
  .object [("epoch", nullable .string b.epoch), ("last_seq", nullable int b.lastSeq),
    ("messages", int b.messages), ("resets", int b.resets), ("missed", int b.missed),
    ("books_known", int b.booksKnown)]

/-- The body of the status route. -/
def ServiceStatus.encode (s : ServiceStatus) : Json :=
  .object [("recording", .bool s.recording),
    ("recorder_status_age_ms", nullable int s.recorderStatusAgeMs),
    ("recorder", nullable recorderHealth s.recorder), ("bus", busHealth s.bus),
    ("clients", int s.clients)]

/-- The body of an error. -/
def errorResponse (e : ErrorBody) : Json :=
  .object [("error", .object [("code", .string e.code), ("message", .string e.message)])]

end Tape.Api.Contract
