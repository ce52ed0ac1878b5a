import Tape.Api.Contract
import Tape.Sorted
import Mathlib

/-!
# What the service knows about the recorded markets

`MarketDirectory`: the latest catalog, what lifecycle events have said of its
markets since, the latest ticker update of each, and the recorder's latest
report; and the REST views made of them, up to the answer of each route and the
route of each path. The metadata comes from the resolver and the books from the
hub.
-/

namespace Tape.Api.Directory

open Contract

/-- A market of a catalog. -/
structure CatalogEntry where
  ticker : Ticker
  seriesTicker : String
  eventTicker : String
  volume24h : Int
  closeTs : Option Int
  showcase : Bool
  deriving DecidableEq, Repr

/-- A ticker update, as far as a row shows it. -/
structure TickerUpdate where
  ticker : Ticker
  last : Option Int
  bid : Option Int
  ask : Option Int
  deriving DecidableEq, Repr

/-- A lifecycle event, as far as the directory reads it. -/
structure Lifecycle where
  ticker : Ticker
  eventType : String
  closeTs : Option Int
  deriving DecidableEq, Repr

/-- One connection in a report of the recorder. -/
structure ConnectionReport where
  connId : Int
  taped : Bool
  frames : Int
  gaps : Int
  reconnects : Int
  staleBooks : Int
  sinkDropped : Int
  deriving DecidableEq, Repr

/-- A report of the recorder. -/
structure StatusReport where
  intervalS : Int
  universeSize : Int
  subscribedMarkets : Int
  connections : List ConnectionReport
  deriving DecidableEq, Repr

/-- What is looked up of a market. -/
structure MarketMetadata where
  title : Option String
  subtitle : Option String
  category : Option String
  priceRanges : Option (List PriceRange)
  deriving DecidableEq, Repr

/-- The event types the directory knows. -/
def lifecycleCloseDateUpdated : String := "close_date_updated"
def lifecycleDetermined : String := "determined"
def lifecycleSettled : String := "settled"

/-- `_ENDED`. -/
def endedTypes : List String := [lifecycleDetermined, lifecycleSettled]

/-- The settings of the directory. -/
def recordingIntervals : Int := 2
def depthLevels : Nat := 20
def nsPerMs : Int := 1000000

/-- What the directory holds of catalogs, quotes, lifecycle events and
reports. -/
structure MarketDirectory where
  entries : Dict Ticker CatalogEntry
  ranked : List CatalogEntry
  hasCatalog : Bool
  tickers : Dict Ticker TickerUpdate
  /-- Dictionaries used as sets. -/
  ended : Dict Ticker Unit
  movedCloseTs : Dict Ticker Int
  report : Option (StatusReport × Int)

/-- What the ranking goes by: the volume, highest first, and then the ticker. -/
def rank (entry : CatalogEntry) : Lex (Int × Ticker) := toLex (-entry.volume24h, entry.ticker)

/-- A catalog by ticker. -/
def entriesOf (markets : List CatalogEntry) : Dict Ticker CatalogEntry :=
  markets.foldl (fun entries entry => entries.set entry.ticker entry) ∅

namespace MarketDirectory

/-- A directory that heard nothing yet. -/
def new : MarketDirectory where
  entries := ∅
  ranked := []
  hasCatalog := false
  tickers := ∅
  ended := ∅
  movedCloseTs := ∅
  report := none

/-- A catalog replaces the markets; what was told of markets that are no longer
in it is dropped. -/
def applyCatalog (d : MarketDirectory) (markets : List CatalogEntry) : MarketDirectory :=
  { d with
    entries := entriesOf markets
    ranked := Sorted.sortOn rank markets
    hasCatalog := true
    tickers := d.tickers.filter fun ticker _ => (entriesOf markets).contains ticker
    ended := ∅
    movedCloseTs := ∅ }

/-- Quotes of a market that no catalog has are ignored once there is one. -/
def applyTicker (d : MarketDirectory) (update : TickerUpdate) : MarketDirectory :=
  if d.hasCatalog ∧ ¬ d.entries.contains update.ticker then d
  else { d with tickers := d.tickers.set update.ticker update }

/-- A market ends, or its close moves. -/
def applyLifecycle (d : MarketDirectory) (event : Lifecycle) : MarketDirectory :=
  if ¬ d.entries.contains event.ticker then d
  else if event.eventType ∈ endedTypes then { d with ended := d.ended.set event.ticker () }
  else
    match event.closeTs with
    | some closeTs =>
        if event.eventType = lifecycleCloseDateUpdated then
          { d with movedCloseTs := d.movedCloseTs.set event.ticker closeTs }
        else d
    | none => d

/-- The last report, with its receipt. -/
def applyStatus (d : MarketDirectory) (report : StatusReport) (receivedMonoNs : Int) :
    MarketDirectory :=
  { d with report := some (report, receivedMonoNs) }

/-! ## Views -/

/-- The market's entry in the last catalog. -/
def entry (d : MarketDirectory) (ticker : Ticker) : Option CatalogEntry := d.entries.get? ticker

/-- When a market closes, by the last word on it. -/
def closeTs (d : MarketDirectory) (entry : CatalogEntry) : Option Int :=
  match d.movedCloseTs.get? entry.ticker with
  | some moved => some moved
  | none => entry.closeTs

/-- Whether a market is still traded. -/
def isOpen (d : MarketDirectory) (entry : CatalogEntry) (nowTs : Int) : Bool :=
  if d.ended.contains entry.ticker then false
  else
    match d.closeTs entry with
    | none => true
    | some closeTs => nowTs < closeTs

/-- The first open markets by rank. -/
def top (d : MarketDirectory) (limit : Int) (nowTs : Int) :
    Except String (List CatalogEntry) :=
  if limit < 1 then .error s!"limit must be positive, got {limit}"
  else .ok ((d.ranked.filter fun entry => d.isOpen entry nowTs).take limit.toNat)

/-- A market's row, with the quotes shown last. -/
def row (d : MarketDirectory) (entry : CatalogEntry) (metadata : MarketMetadata)
    (book : Option Book) : MarketRow :=
  let update := d.tickers.get? entry.ticker
  { ticker := entry.ticker
    eventTicker := entry.eventTicker
    seriesTicker := entry.seriesTicker
    title := metadata.title
    subtitle := metadata.subtitle
    category := metadata.category
    showcase := entry.showcase
    volume24hE2 := entry.volume24h
    closeTs := d.closeTs entry
    bidE4 := update.bind TickerUpdate.bid
    askE4 := update.bind TickerUpdate.ask
    lastE4 := update.bind TickerUpdate.last
    book := .of book }

/-- The row, with the price ranges and the top of the book. -/
def detail (d : MarketDirectory) (entry : CatalogEntry) (metadata : MarketMetadata)
    (book : Option Book) : MarketDetail :=
  { d.row entry metadata book with
    priceRanges := metadata.priceRanges
    depth := book.map fun book =>
      ⟨book.lastTsMs, (book.levels .bid).take depthLevels, (book.levels .ask).take depthLevels⟩ }

/-- A connection's report, as the status route shows it. -/
def connectionHealth (c : ConnectionReport) : ConnectionHealth :=
  ⟨c.connId, c.taped, c.frames, c.gaps, c.reconnects, c.staleBooks, c.sinkDropped⟩

/-- What the status route tells of the recorder and the bus. -/
def serviceStatus (d : MarketDirectory) (nowMonoNs : Int) (bus : BusHealth) (clients : Int) :
    ServiceStatus :=
  match d.report with
  | none => ⟨false, none, none, bus, clients⟩
  | some (report, receivedMonoNs) =>
      let ageNs := nowMonoNs - receivedMonoNs
      ⟨ageNs ≤ recordingIntervals * report.intervalS * nsPerS, some (ageNs / nsPerMs),
        some ⟨report.universeSize, report.subscribedMarkets,
          report.connections.map connectionHealth⟩,
        bus, clients⟩

end MarketDirectory

/-- What the bus brings of the directory's concern. -/
inductive Update where
  | catalog (markets : List CatalogEntry)
  | ticker (update : TickerUpdate)
  | lifecycle (event : Lifecycle)
  | status (report : StatusReport) (receivedMonoNs : Int)
  deriving DecidableEq, Repr

/-- `_update_directory`. -/
def MarketDirectory.step (d : MarketDirectory) : Update → MarketDirectory
  | .catalog markets => d.applyCatalog markets
  | .ticker update => d.applyTicker update
  | .lifecycle event => d.applyLifecycle event
  | .status report receivedMonoNs => d.applyStatus report receivedMonoNs

/-! ## The routes -/

/-- Limits and error codes of the routes. -/
def defaultMarketsLimit : Int := 50
def maxMarketsLimit : Int := 200
def errorBadRequest : String := "bad_request"
def errorUnknownTicker : String := "unknown_ticker"
def errorInternal : String := "internal_error"

/-- `[0-9]{1,4}`, in full. -/
def isLimit (text : String) : Bool :=
  1 ≤ text.length ∧ text.length ≤ 4 ∧ text.toList.all fun c => '0' ≤ c ∧ c ≤ '9'

/-- `_parse_limit`. -/
def parseLimit (text : String) : Option Int :=
  if ¬ isLimit text then none
  else
    let limit := Int.ofNat (text.toList.foldl (fun n c => 10 * n + (c.toNat - '0'.toNat)) 0)
    if 1 ≤ limit ∧ limit ≤ maxMarketsLimit then some limit else none

/-- What a route answers: a status code and a body. -/
structure Response where
  statusCode : Nat
  body : Json

/-- The answer to a limit that is none. -/
def badRequest (limit : String) : Response :=
  ⟨400, errorResponse ⟨errorBadRequest,
    s!"limit must be an integer from 1 to {maxMarketsLimit}, got {limit}"⟩⟩

/-- What the routes take from elsewhere: the metadata resolved, the books held,
and how Python writes a text in an error. -/
structure Views where
  metadata : CatalogEntry → MarketMetadata
  book : Ticker → Option Book
  repr : String → String

/-- `GET /markets`. -/
def markets (d : MarketDirectory) (views : Views) (limitText : Option String) (wallNs : Int) :
    Response :=
  let limit := match limitText with
    | none => some defaultMarketsLimit
    | some text => parseLimit text
  match limit with
  | none => badRequest (views.repr (limitText.getD ""))
  | some limit =>
      match d.top limit (wallNs / nsPerS) with
      | .error _ => ⟨500, errorResponse ⟨errorInternal, "internal error"⟩⟩
      | .ok entries => ⟨200, marketsResponse
          (entries.map fun entry => d.row entry (views.metadata entry) (views.book entry.ticker))⟩

/-- `GET /markets/{ticker}`. -/
def market (d : MarketDirectory) (views : Views) (ticker : Ticker) : Response :=
  match d.entry ticker with
  | none => ⟨404, errorResponse ⟨errorUnknownTicker,
      s!"market {views.repr ticker} is not recorded"⟩⟩
  | some entry => ⟨200, MarketDetail.encode
      (d.detail entry (views.metadata entry) (views.book ticker))⟩

/-- `GET /status`. -/
def status (d : MarketDirectory) (monoNs : Int) (bus : BusHealth) (clients : Int) : Response :=
  ⟨200, ServiceStatus.encode (d.serviceStatus monoNs bus clients)⟩

/-! ## The paths -/

/-- The code of an answer to a path without a route. -/
def errorNotFound : String := "not_found"

/-- The routes of a `GET`. -/
inductive Endpoint where
  | markets
  | market (ticker : Ticker)
  | status
  deriving DecidableEq, Repr

/-- The route whose path this is, below `API_PREFIX`. A `{ticker}` is one
segment, and not an empty one. -/
def endpoint (path : String) : Option Endpoint :=
  if path = "/markets" then some .markets
  else if path = "/status" then some .status
  else if "/markets/".toList.isPrefixOf path.toList then
    let ticker := path.toList.drop "/markets/".toList.length
    if ticker ≠ [] ∧ '/' ∉ ticker then some (.market (String.ofList ticker)) else none
  else none

/-- What the router makes of a path. -/
inductive Routing where
  | handled (e : Endpoint)
  | redirected (path : String)
  | notFound
  deriving DecidableEq, Repr

/-- A path that is no route's is redirected if it is one without the slashes at
its end, or with one there. -/
def routed (path : String) : Routing :=
  match endpoint path with
  | some e => .handled e
  | none =>
      let other :=
        if path.toList.getLast? = some '/' then
          String.ofList (path.toList.rdropWhile fun c => c = '/')
        else path ++ "/"
      if (endpoint other).isSome then .redirected other else .notFound

/-- `_http_error`, for a path that is no route's. -/
def notFound : Response := ⟨404, errorResponse ⟨errorNotFound, "Not Found"⟩⟩

/-- The answer to a path that leads to a market or nowhere. -/
def answered (d : MarketDirectory) (views : Views) (path : String) : Option Response :=
  match routed path with
  | .handled (.market ticker) => some (market d views ticker)
  | .notFound => some notFound
  | _ => none

theorem endpoint_market (t : Ticker) :
    endpoint ("/markets/" ++ t) =
      if t.toList ≠ [] ∧ '/' ∉ t.toList then some (.market t) else none := by
  have hlist : ("/markets/" ++ t).toList = "/markets/".toList ++ t.toList := String.toList_append
  have hne : ∀ s : String, s.toList.length < "/markets/".toList.length → "/markets/" ++ t ≠ s := by
    intro s hlength heq
    have hlengths := congrArg List.length hlist
    rw [heq, List.length_append] at hlengths
    omega
  have hmarkets : "/markets/" ++ t ≠ "/markets" := hne _ (by decide)
  have hstatus : "/markets/" ++ t ≠ "/status" := hne _ (by decide)
  have hprefix : "/markets/".toList.isPrefixOf ("/markets/" ++ t).toList = true := by
    rw [hlist, List.isPrefixOf_iff_prefix]
    exact List.prefix_append _ _
  have hrest : ("/markets/" ++ t).toList.drop "/markets/".toList.length = t.toList := by
    rw [hlist, List.drop_left]
  rw [endpoint, if_neg hmarkets, if_neg hstatus, if_pos hprefix, hrest]
  dsimp only
  rw [String.ofList_toList]

/-- A market of one segment is answered by its route; what has a slash inside is
no route's, with another slash at its end or without. -/
theorem answered_market (d : MarketDirectory) (views : Views) {t : Ticker} (hne : t ≠ "")
    (hlast : t.toList.getLast? ≠ some '/') :
    answered d views ("/markets/" ++ t) =
      some (if '/' ∈ t.toList then notFound else market d views t) := by
  have hlist : t.toList ≠ [] := fun h => hne (String.toList_eq_nil_iff.mp h)
  rw [answered, routed, endpoint_market]
  by_cases hslash : '/' ∈ t.toList
  · have hend : ("/markets/" ++ t).toList.getLast? ≠ some '/' := by
      rw [String.toList_append, List.getLast?_append_of_ne_nil _ hlist]
      exact hlast
    have hother : endpoint ("/markets/" ++ t ++ "/") = none := by
      rw [String.append_assoc, endpoint_market, String.toList_append, if_neg]
      exact fun h => h.2 (List.mem_append_left _ hslash)
    rw [if_neg (fun h => h.2 hslash), if_pos hslash]
    dsimp only
    rw [if_neg hend, hother]
    rfl
  · rw [if_pos ⟨hlist, hslash⟩, if_neg hslash]

example : routed "/markets/" = .redirected "/markets" := by decide

end Tape.Api.Directory
