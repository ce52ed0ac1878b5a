import Tape.Api.Contract

/-!
# What the page makes of what the API sends

The decoders of the page, one for each type of the contract. The first
violation is the error, and it names the path of the value it is about. A field
that is absent is `undefined`, which no decoder takes for a value. Unknown
fields are not looked at; a message of an unknown type is told apart from one
that is malformed.
-/

namespace Tape.Page.Decode

open Api.Contract

/-- `Number.MAX_SAFE_INTEGER`. -/
def maxSafeInteger : Int := 9007199254740991

/-- `Number.MIN_SAFE_INTEGER`. -/
def minSafeInteger : Int := -9007199254740991

/-- The highest price a page accepts. -/
def maxPriceE4 : Int := 10000

/-- The members of a JSON object. -/
abbrev Fields := List (String × Json)

/-- What was decoded, or why it was not. -/
abbrev Decoded (α : Type) := Except String α

/-- A value that is not as it was expected, by its path. -/
def fail {α : Type} (path expectation : String) : Decoded α :=
  .error s!"{path}: expected {expectation}"

/-- `record`; `none` is `undefined`. -/
def record (value : Option Json) (path : String) : Decoded Fields :=
  match value with
  | some (.object fields) => .ok fields
  | _ => fail path "an object"

/-- A value that is an array. -/
def array (value : Option Json) (path : String) : Decoded (List Json) :=
  match value with
  | some (.array items) => .ok items
  | _ => fail path "an array"

/-- A field that is a string. -/
def text (fields : Fields) (key path : String) : Decoded String :=
  match Json.field fields key with
  | some (.string s) => .ok s
  | _ => fail s!"{path}.{key}" "a string"

/-- A field that is a string, and not an empty one. -/
def nonEmptyText (fields : Fields) (key path : String) : Decoded String := do
  let value ← text fields key path
  if value = "" then fail s!"{path}.{key}" "a non-empty string" else pure value

/-- A field that may be `null`, read otherwise as it is read where it may not. -/
def nullable {α : Type} (read : Fields → String → String → Decoded α) (fields : Fields)
    (key path : String) : Decoded (Option α) :=
  match Json.field fields key with
  | some .null => .ok none
  | _ => (read fields key path).map some

/-- A field that is a string or `null`. -/
def nullableText (fields : Fields) (key path : String) : Decoded (Option String) :=
  nullable text fields key path

/-- A field that is a boolean. -/
def flag (fields : Fields) (key path : String) : Decoded Bool :=
  match Json.field fields key with
  | some (.bool b) => .ok b
  | _ => fail s!"{path}.{key}" "a boolean"

/-- The number, if `Number.isSafeInteger`. -/
def safeInteger : Option Json → Option Int
  | some (.number q) =>
      if q.den = 1 ∧ minSafeInteger ≤ q.num ∧ q.num ≤ maxSafeInteger then some q.num else none
  | _ => none

/-- A value that is an integer within bounds. -/
def integerValue (value : Option Json) (path : String) (min max : Int) : Decoded Int :=
  match safeInteger value with
  | some n => if n < min ∨ n > max then fail path s!"an integer in {min}..{max}" else .ok n
  | none => fail path s!"an integer in {min}..{max}"

/-- A field that is an integer within bounds. -/
def integer (min max : Int) (fields : Fields) (key path : String) : Decoded Int :=
  integerValue (Json.field fields key) s!"{path}.{key}" min max

/-- `integer` with its defaults. -/
def count (fields : Fields) (key path : String) : Decoded Int :=
  integer 0 maxSafeInteger fields key path

/-- A field that is a count or `null`. -/
def nullableInteger (fields : Fields) (key path : String) : Decoded (Option Int) :=
  nullable count fields key path

/-- `/^[0-9]+$/`. -/
def isDecimal (s : String) : Bool := s ≠ "" ∧ s.toList.all fun c => '0' ≤ c ∧ c ≤ '9'

/-- A field that is a number written as a string. -/
def decimalText (fields : Fields) (key path : String) : Decoded String := do
  let value ← text fields key path
  if isDecimal value then pure value else fail s!"{path}.{key}" "a decimal string or null"

/-- A field that is such a number or `null`. -/
def nullableDecimalText (fields : Fields) (key path : String) : Decoded (Option String) :=
  nullable decimalText fields key path

/-- A field that is a price. -/
def price (fields : Fields) (key path : String) : Decoded Int :=
  integer 0 maxPriceE4 fields key path

/-- A field that is a price or `null`. -/
def nullablePrice (fields : Fields) (key path : String) : Decoded (Option Int) :=
  nullable price fields key path

/-- `oneOf`; an allowed text stands for the value it names. -/
def oneOf {α : Type} (fields : Fields) (key path : String) (allowed : List (String × α)) :
    Decoded α :=
  let expectation := "one of " ++ ", ".intercalate (allowed.map Prod.fst)
  match Json.field fields key with
  | some (.string s) =>
      match allowed.find? fun entry => entry.1 = s with
      | some entry => .ok entry.2
      | none => fail s!"{path}.{key}" expectation
  | _ => fail s!"{path}.{key}" expectation

/-- The names of the states of a book, and of the other enumerations. -/
def bookStates : List (String × BookStatus) :=
  [("unknown", .unknown), ("fresh", .fresh), ("stale", .stale)]

def knownBookStates : List (String × Api.KnownBookState) := [("fresh", .fresh), ("stale", .stale)]

def sides : List (String × Side) := [("bid", .bid), ("ask", .ask)]

/-! ## Levels -/

/-- `b` may follow `a` on its side, best first. -/
def Follows (side : Side) (a b : Int) : Prop :=
  match side with
  | .bid => b < a
  | .ask => a < b

instance (side : Side) (a b : Int) : Decidable (Follows side a b) := by
  cases side
  · exact inferInstanceAs (Decidable (b < a))
  · exact inferInstanceAs (Decidable (a < b))

/-- The loop of `levels`. -/
def levelsFrom (side : Side) (path : String) :
    Nat → Option Int → List Json → Decoded (List Level)
  | _, _, [] => .ok []
  | index, previous, item :: rest => do
      let itemPath := s!"{path}[{index}]"
      let pair ← array (some item) itemPath
      match pair with
      | [first, second] =>
          let levelPrice ← integerValue (some first) s!"{itemPath}[0]" 0 maxPriceE4
          let levelCount ← integerValue (some second) s!"{itemPath}[1]" 0 maxSafeInteger
          if ∀ before ∈ previous, Follows side before levelPrice then
            let decoded ← levelsFrom side path (index + 1) (some levelPrice) rest
            pure (⟨levelPrice, levelCount⟩ :: decoded)
          else
            fail itemPath (match side with
              | .bid => "descending prices"
              | .ask => "ascending prices")
      | _ => fail itemPath "a [price_e4, count_e2] pair"

/-- A field that is a ladder of levels. -/
def levels (side : Side) (fields : Fields) (key path : String) : Decoded (List Level) := do
  let items ← array (Json.field fields key) s!"{path}.{key}"
  levelsFrom side s!"{path}.{key}" 0 none items

/-! ## Messages -/

/-- An item that is a ticker. -/
def ticker (path : String) (index : Nat) (item : Json) : Decoded String :=
  match item with
  | .string s => if s = "" then fail s!"{path}[{index}]" "a ticker" else .ok s
  | _ => fail s!"{path}[{index}]" "a ticker"

/-- A field that is a list of tickers. -/
def tickerList (fields : Fields) (key path : String) : Decoded (List String) := do
  let items ← array (Json.field fields key) s!"{path}.{key}"
  Json.decodeItems (ticker s!"{path}.{key}") 0 items

/-- An item that is a rejection. -/
def rejection (path : String) (index : Nat) (item : Json) : Decoded Api.Rejection := do
  let itemPath := s!"{path}.rejected[{index}]"
  let rejected ← record (some item) itemPath
  let ticker ← nonEmptyText rejected "ticker" itemPath
  let code ← text rejected "code" itemPath
  pure ⟨ticker, code⟩

/-- The fields of a `hello`. -/
def hello (fields : Fields) (path : String) : Decoded ServerMessage := do
  let protocol ← integer 1 maxSafeInteger fields "protocol" path
  let maxTickers ← integer 1 maxSafeInteger fields "max_tickers" path
  let busRefreshS ← integer 1 maxSafeInteger fields "bus_refresh_s" path
  pure (.hello protocol maxTickers busRefreshS)

/-- The fields of the reply to a subscribe. -/
def subscribed (fields : Fields) (path : String) : Decoded ServerMessage := do
  let tickers ← tickerList fields "tickers" path
  let items ← array (Json.field fields "rejected") s!"{path}.rejected"
  let rejected ← Json.decodeItems (rejection path) 0 items
  pure (.subscribed tickers rejected)

/-- The fields of a snapshot. -/
def snapshot (fields : Fields) (path : String) : Decoded ServerMessage := do
  let ticker ← nonEmptyText fields "ticker" path
  let book ← oneOf fields "book" path knownBookStates
  let tsMs ← nullableInteger fields "ts_ms" path
  let bids ← levels .bid fields "bids" path
  let asks ← levels .ask fields "asks" path
  pure (.snapshot ticker book tsMs bids asks)

/-- The fields of a delta. -/
def delta (fields : Fields) (path : String) : Decoded ServerMessage := do
  let ticker ← nonEmptyText fields "ticker" path
  let tsMs ← nullableInteger fields "ts_ms" path
  let side ← oneOf fields "side" path sides
  let priceE4 ← price fields "price_e4" path
  let deltaE2 ← integer minSafeInteger maxSafeInteger fields "delta_e2" path
  pure (.delta ticker tsMs side priceE4 deltaE2)

/-- The fields of a change of state. -/
def book (fields : Fields) (path : String) : Decoded ServerMessage := do
  let ticker ← nonEmptyText fields "ticker" path
  let book ← oneOf fields "book" path knownBookStates
  pure (.book ticker book)

/-- The fields of a resync. -/
def resync (fields : Fields) (path : String) : Decoded ServerMessage := do
  let ticker ← nonEmptyText fields "ticker" path
  let reason ← text fields "reason" path
  pure (.resync ticker reason)

/-- The fields of a trade. -/
def trade (fields : Fields) (path : String) : Decoded ServerMessage := do
  let ticker ← nonEmptyText fields "ticker" path
  let tsMs ← count fields "ts_ms" path
  let priceE4 ← price fields "price_e4" path
  let countE2 ← integer 1 maxSafeInteger fields "count_e2" path
  let takerSide ← oneOf fields "taker_side" path sides
  pure (.trade ⟨ticker, tsMs, priceE4, countE2, takerSide⟩)

/-- The fields of a quote. -/
def tickerUpdate (fields : Fields) (path : String) : Decoded ServerMessage := do
  let ticker ← nonEmptyText fields "ticker" path
  let tsMs ← count fields "ts_ms" path
  let bidE4 ← nullablePrice fields "bid_e4" path
  let askE4 ← nullablePrice fields "ask_e4" path
  let lastE4 ← nullablePrice fields "last_e4" path
  let volumeE2 ← count fields "volume_e2" path
  pure (.ticker ⟨ticker, tsMs, bidE4, askE4, lastE4, volumeE2⟩)

/-- The fields of an error. -/
def error (fields : Fields) (path : String) : Decoded ServerMessage := do
  let code ← text fields "code" path
  let message ← text fields "message" path
  pure (.error code message)

/-- `MESSAGE_DECODERS`. -/
def messageDecoders : List (String × (Fields → String → Decoded ServerMessage)) :=
  [("hello", hello), ("subscribed", subscribed), ("snapshot", snapshot), ("delta", delta),
    ("book", book), ("resync", resync), ("trade", trade), ("ticker", tickerUpdate),
    ("error", error)]

/-- `serverMessage`; `none` for a type that is not known. -/
def serverMessage (fields : Fields) (type : String) : Decoded (Option ServerMessage) :=
  match messageDecoders.find? fun entry => entry.1 = type with
  | none => .ok none
  | some entry => (entry.2 fields type).map some

/-- What a socket delivers: no text, a text that is no JSON, or a value. -/
inductive Frame where
  | notText
  | notJson
  | json (value : Json)

/-- What a page makes of a frame. -/
inductive FrameDecoding where
  | message (m : ServerMessage)
  | ignored (type : String)
  | malformed (error : String)
  deriving DecidableEq, Repr

/-- A frame is a message of a type the page knows, or to be ignored, or
malformed. -/
def decodeFrame : Frame → FrameDecoding
  | .notText => .malformed "frame: expected text"
  | .notJson => .malformed "frame: invalid JSON"
  | .json value =>
      let decoded : Decoded (String × Option ServerMessage) := do
        let fields ← record (some value) "message"
        let type ← text fields "t" "message"
        let message ← serverMessage fields type
        pure (type, message)
      match decoded with
      | .error e => .malformed e
      | .ok (type, none) => .ignored type
      | .ok (_, some message) => .message message

/-! ## The REST bodies -/

/-- The fields of a market's row. -/
def marketRowFields (fields : Fields) (path : String) : Decoded MarketRow := do
  let ticker ← nonEmptyText fields "ticker" path
  let eventTicker ← text fields "event_ticker" path
  let seriesTicker ← text fields "series_ticker" path
  let title ← nullableText fields "title" path
  let subtitle ← nullableText fields "subtitle" path
  let category ← nullableText fields "category" path
  let showcase ← flag fields "showcase" path
  let volume24hE2 ← count fields "volume_24h_e2" path
  let closeTs ← nullableInteger fields "close_ts" path
  let bidE4 ← nullablePrice fields "bid_e4" path
  let askE4 ← nullablePrice fields "ask_e4" path
  let lastE4 ← nullablePrice fields "last_e4" path
  let book ← oneOf fields "book" path bookStates
  pure ⟨ticker, eventTicker, seriesTicker, title, subtitle, category, showcase, volume24hE2,
    closeTs, bidE4, askE4, lastE4, book⟩

/-- An item that is a price range. -/
def priceRange (path : String) (index : Nat) (value : Json) : Decoded PriceRange := do
  let path := s!"{path}[{index}]"
  let fields ← record (some value) path
  let startE4 ← price fields "start_e4" path
  let endE4 ← price fields "end_e4" path
  let stepE4 ← integer 1 maxPriceE4 fields "step_e4" path
  if endE4 ≤ startE4 then fail path "end_e4 greater than start_e4"
  else pure ⟨startE4, endE4, stepE4⟩

/-- The `price_ranges` of `decodeMarketDetail`, where there are any. -/
def priceRanges (value : Option Json) (path : String) : Decoded (List PriceRange) := do
  let items ← array value path
  Json.decodeItems (priceRange path) 0 items

/-- A value that may be `null`. -/
def orNull {α : Type} (read : Option Json → String → Decoded α) (value : Option Json)
    (path : String) : Decoded (Option α) :=
  match value with
  | some .null => .ok none
  | _ => (read value path).map some

/-- A value that is both ladders with their time. -/
def depth (value : Option Json) (path : String) : Decoded Api.Contract.Depth := do
  let fields ← record value path
  let tsMs ← nullableInteger fields "ts_ms" path
  let bids ← levels .bid fields "bids" path
  let asks ← levels .ask fields "asks" path
  pure ⟨tsMs, bids, asks⟩

/-- An item that is a connection's report. -/
def connectionHealth (path : String) (index : Nat) (value : Json) : Decoded ConnectionHealth := do
  let path := s!"{path}.connections[{index}]"
  let fields ← record (some value) path
  let connId ← count fields "conn_id" path
  let taped ← flag fields "taped" path
  let frames ← count fields "frames" path
  let gaps ← count fields "gaps" path
  let reconnects ← count fields "reconnects" path
  let staleBooks ← count fields "stale_books" path
  let sinkDropped ← count fields "sink_dropped" path
  pure ⟨connId, taped, frames, gaps, reconnects, staleBooks, sinkDropped⟩

/-- A value that is a recorder's report. -/
def recorderHealth (value : Option Json) (path : String) : Decoded RecorderHealth := do
  let fields ← record value path
  let universeSize ← count fields "universe_size" path
  let subscribedMarkets ← count fields "subscribed_markets" path
  let items ← array (Json.field fields "connections") s!"{path}.connections"
  let connections ← Json.decodeItems (connectionHealth path) 0 items
  pure ⟨universeSize, subscribedMarkets, connections⟩

/-- A value that is the counts of the bus. -/
def busHealth (value : Option Json) (path : String) : Decoded BusHealth := do
  let fields ← record value path
  let epoch ← nullableDecimalText fields "epoch" path
  let lastSeq ← nullableInteger fields "last_seq" path
  let messages ← count fields "messages" path
  let resets ← count fields "resets" path
  let missed ← count fields "missed" path
  let booksKnown ← count fields "books_known" path
  pure ⟨epoch, lastSeq, messages, resets, missed, booksKnown⟩

/-- The rows that could be read, and how many could not. -/
structure MarketList where
  markets : List MarketRow
  invalidRows : Nat
  deriving DecidableEq, Repr

/-- A row of `decodeMarketList`. -/
def marketRow (index : Nat) (row : Json) : Decoded MarketRow := do
  let fields ← record (some row) s!"markets[{index}]"
  marketRowFields fields "row"

/-- The loop of `decodeMarketList`: the rows that decode. -/
def marketRows : Nat → List Json → List MarketRow
  | _, [] => []
  | index, row :: rest =>
      match marketRow index row with
      | .ok market => market :: marketRows (index + 1) rest
      | .error _ => marketRows (index + 1) rest

/-- The body of the list of markets. -/
def decodeMarketList (json : Json) : Decoded MarketList := do
  let fields ← record (some json) "response"
  let rows ← array (Json.field fields "markets") "response.markets"
  let markets := marketRows 0 rows
  pure ⟨markets, rows.length - markets.length⟩

/-- The body of a market's detail. -/
def decodeMarketDetail (json : Json) : Decoded MarketDetail := do
  let fields ← record (some json) "market"
  let row ← marketRowFields fields "market"
  let priceRanges ← orNull priceRanges (Json.field fields "price_ranges") "market.price_ranges"
  let depth ← orNull depth (Json.field fields "depth") "market.depth"
  pure ⟨row, priceRanges, depth⟩

/-- The body of the status. -/
def decodeServiceStatus (json : Json) : Decoded ServiceStatus := do
  let fields ← record (some json) "status"
  let recording ← flag fields "recording" "status"
  let recorderStatusAgeMs ← nullableInteger fields "recorder_status_age_ms" "status"
  let recorder ← orNull recorderHealth (Json.field fields "recorder") "status.recorder"
  let bus ← busHealth (Json.field fields "bus") "status.bus"
  let clients ← count fields "clients" "status"
  pure ⟨recording, recorderStatusAgeMs, recorder, bus, clients⟩

/-- The body of an error. -/
def decodeApiError (json : Json) : Decoded ErrorBody := do
  let body ← record (some json) "body"
  let error ← record (Json.field body "error") "body.error"
  let code ← text error "code" "body.error"
  let message ← text error "message" "body.error"
  pure ⟨code, message⟩

end Tape.Page.Decode
