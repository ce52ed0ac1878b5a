import Mathlib
import Tape.Bake.Facts
import Tape.Bake.Tables
import Tape.Segment.Format
import Tape.Wire.Convert

/-!
# One hour of records, interpreted

`HourInterpreter` and `_Segment` of `tape.bake.interpret`. A segment holds the
interpreter it adds to, as the source's holds a reference to it, and each
record takes it to the next. The rows the sink was given are kept in the order
they came.

A record that does not decode is counted as a failure, and the exceptions that
mean this are caught by name: `WireError` and `FixedPointError` of a frame,
`DecodeError` and `ValidationError` of the other kinds. Two others can be
raised on the way, `decimal.Overflow` by a numeral and `UnicodeDecodeError` by
a text. Nothing catches these: they leave `feed`, and `read_segment`, and the
hour has no result. `Escape` stands for them.
-/

namespace Tape.Bake

/-- An exception that leaves the interpreter. -/
inductive Escape where
  | overflow
  | unicode
  deriving DecidableEq, Repr

/-- What the error of a failed record says. -/
inductive FailureDetail where
  | text (s : String)
  | unknownType (type : String)
  | numeral (e : NumeralError)
  deriving DecidableEq, Repr

/-- `except (WireError, FixedPointError)`. -/
def caught : FrameError → Except Escape FailureDetail
  | .convert (.wire e) => .ok (.text e.detail)
  | .convert (.numeral .overflow) => .error .overflow
  | .convert (.numeral e) => .ok (.numeral e)
  | .unicode => .error .unicode

/-- The frame types that give rows. -/
def bakedFrameTypes : List String :=
  ["orderbook_delta", "orderbook_snapshot", "trade", "market_lifecycle_v2", "event_lifecycle",
    "event_fee_update"]

/-- The frame types that give none. -/
def notBakedFrameTypes : List String := ["subscribed", "ok", "unsubscribed", "error", "ticker"]

/-- The failures a record can meet. -/
def failureFrameEnvelope : String := "frame_envelope"
def failureFramePayload : String := "frame_payload"
def failureFrameUnknownType : String := "frame_unknown_type"
def failureGapPayload : String := "gap_payload"
def failureAuditPayload : String := "audit_payload"
def failureConnectionPayload : String := "connection_payload"
def failureCommandPayload : String := "command_payload"
def failureSegmentCorrupt : String := "segment_corrupt"

/-- How many failures of a kind are kept. -/
def maxFailureSamples : Nat := 5

/-- The detail of a connection that was stopped by its recorder. -/
def stoppedDetail : String := "stopped"

/-- `_TS_S_BY_EVENT_TYPE`, and the attribute it names. -/
def MarketLifecycleV2Msg.tsS (msg : MarketLifecycleV2Msg) : Option Int :=
  if msg.eventType = "settled" then msg.settledTs
  else if msg.eventType = "determined" then msg.determinationTs
  else none

/-- A record that could not be decoded. -/
structure DecodeFailure where
  failure : String
  segment : String
  recordIndex : Nat
  detail : FailureDetail
  deriving DecidableEq, Repr

/-- What is remembered of a segment that was read. -/
structure SegmentFacts where
  records : Nat
  firstRecvWallNs : Option Int
  lastRecvWallNs : Option Int
  deriving DecidableEq, Repr

/-- What reading an hour comes to, beside the rows. -/
structure HourResult where
  accounting : RecordAccounting
  integrity : HourIntegrity
  failures : List DecodeFailure

/-- The payload of a gap record. -/
structure GapPayload where
  sid : Sid
  expectedSeq : Int
  gotSeq : Int
  deriving DecidableEq, Repr

/-- The outcomes of an audit. -/
inductive AuditOutcome where
  | exact
  | consistent
  | inconsistent
  | undecidable
  deriving DecidableEq, Repr

/-- An outcome as it is written. -/
def AuditOutcome.name : AuditOutcome → String
  | .exact => "exact"
  | .consistent => "consistent"
  | .inconsistent => "inconsistent"
  | .undecidable => "undecidable"

/-- The payload of an audit record. -/
structure AuditPayload where
  ticker : Ticker
  outcome : AuditOutcome
  levelsRest : Int
  sendMonoNs : Int
  sendWallNs : Int
  windowOpenMonoNs : Int
  windowCloseMonoNs : Int
  windowEvents : Int
  levelsLocal : Option Int
  mismatchedLevels : Option Int
  maxAbsDiffE2 : Option Int
  matchIndex : Option Int
  fault : Option String
  restLevels : List UInt8
  localLevels : List UInt8
  deriving DecidableEq, Repr

/-- The payload of a connection record. -/
structure ConnectionPayload where
  event : String
  detail : Option String
  dropped : Option Int
  wallNsDelta : Option Int
  monoNsDelta : Option Int
  deriving DecidableEq, Repr

/-- The parameters of a command, as far as they are read. -/
structure CommandParams where
  sid : Option Sid
  sids : Option (List Sid)
  action : Option String
  marketTickers : Option (List Ticker)
  deriving DecidableEq, Repr

/-- The payload of a command record. -/
structure CommandPayload where
  cmd : String
  id : Option Int
  params : Option CommandParams
  deriving DecidableEq, Repr

/-- The JSON decoders, of the frames and of the recorder's own records. -/
structure Decoders extends WireDecoders where
  gap : List UInt8 → Except String GapPayload
  audit : List UInt8 → Except String AuditPayload
  connection : List UInt8 → Except String ConnectionPayload
  command : List UInt8 → Except String CommandPayload

/-- `_Market`. -/
structure Market where
  sid : Sid
  sinceWallNs : Int
  staleSinceWallNs : Option Int
  deriving DecidableEq, Repr

/-- `_PendingGap`. -/
structure PendingGap where
  row : Row
  sid : Sid
  waiting : Finset Ticker
  deriving DecidableEq

/-- `_Counters`. -/
structure Counters where
  records : Tally String
  baked : Tally String
  notBaked : Tally String
  decodeFailures : Tally String
  deriving DecidableEq

/-- The hour being baked, as far as it is read: its first instant. -/
structure HourInterpreter where
  startWallNs : Int
  /-- The rows the sink was given. -/
  rows : List (TableName × Row)
  counters : Counters
  corruptSegments : Nat
  failures : List DecodeFailure
  failureSamples : Tally String
  spans : List ConnectionSpan
  /-- The sleeps noticed, each once. -/
  sleeps : List Sleep
  gapCount : Int
  staleMarketNs : Int
  observedMarketNs : Int
  audits : Tally String
  levelsMismatched : Int
  overflowDropped : Int
  lostConnection : Dict Int Bool

namespace HourInterpreter

/-- An hour of which nothing was read. -/
def new (startWallNs : Int) : HourInterpreter :=
  { startWallNs, rows := [], counters := ⟨∅, ∅, ∅, ∅⟩, corruptSegments := 0, failures := [],
    failureSamples := ∅, spans := [], sleeps := [], gapCount := 0, staleMarketNs := 0,
    observedMarketNs := 0, audits := ∅, levelsMismatched := 0, overflowDropped := 0,
    lostConnection := ∅ }

/-- A record of some kind was read. -/
def countRecord (h : HourInterpreter) (kind : String) : HourInterpreter :=
  { h with counters := { h.counters with records := h.counters.records.bump kind } }

/-- A record gave what its source gives. -/
def countBaked (h : HourInterpreter) (source : String) : HourInterpreter :=
  { h with counters := { h.counters with baked := h.counters.baked.bump source } }

/-- A record gave no row, for a reason. -/
def countNotBaked (h : HourInterpreter) (reason : String) : HourInterpreter :=
  { h with counters := { h.counters with notBaked := h.counters.notBaked.bump reason } }

/-- A row for a table. -/
def emit (h : HourInterpreter) (table : TableName) (row : Row) : HourInterpreter :=
  { h with rows := h.rows ++ [(table, row)] }

/-- `fail`: a failure is kept as a sample while its class has room. -/
def fail (h : HourInterpreter) (failure : String) (segment : String) (recordIndex : Nat)
    (detail : FailureDetail) : HourInterpreter :=
  let h := { h with counters :=
    { h.counters with decodeFailures := h.counters.decodeFailures.bump failure } }
  if h.failureSamples.count failure < maxFailureSamples then
    { h with
      failureSamples := h.failureSamples.bump failure
      failures := h.failures ++ [⟨failure, segment, recordIndex, detail⟩] }
  else h

/-- A segment could not be read to its end. -/
def corruptSegment (h : HourInterpreter) (name detail : String) (recordIndex : Nat) :
    HourInterpreter :=
  { h with
    corruptSegments := h.corruptSegments + 1
    failures := h.failures ++ [⟨failureSegmentCorrupt, name, recordIndex, .text detail⟩] }

/-- A stretch of a connection is known. -/
def addSpan (h : HourInterpreter) (span : ConnectionSpan) : HourInterpreter :=
  { h with spans := h.spans ++ [span] }

/-- `add_sleep`: every taped sink records the same one, so duplicates collapse. -/
def addSleep (h : HourInterpreter) (sleep : Sleep) : HourInterpreter :=
  if sleep ∈ h.sleeps then h else { h with sleeps := h.sleeps ++ [sleep] }

/-- A gap was recorded. -/
def addGap (h : HourInterpreter) : HourInterpreter := { h with gapCount := h.gapCount + 1 }

/-- A market's book was observed so long, and stale so long. -/
def addBookTime (h : HourInterpreter) (observedNs staleNs : Int) : HourInterpreter :=
  { h with
    observedMarketNs := h.observedMarketNs + observedNs
    staleMarketNs := h.staleMarketNs + staleNs }

/-- An audit, with its mismatched levels if it was decided. -/
def addAudit (h : HourInterpreter) (outcome : AuditOutcome) (mismatchedLevels : Option Int) :
    HourInterpreter :=
  let h := { h with audits := h.audits.bump outcome.name }
  match mismatchedLevels with
  | none => h
  | some n =>
      if outcome ≠ .undecidable then { h with levelsMismatched := h.levelsMismatched + n } else h

/-- The writer's queue overflowed. -/
def addOverflow (h : HourInterpreter) (dropped : Int) : HourInterpreter :=
  { h with overflowDropped := h.overflowDropped + dropped }

end HourInterpreter

/-- `_Segment`. -/
structure Segment where
  hour : HourInterpreter
  name : String
  connId : Int
  useYesPrice : Bool
  afterLostConnection : Bool
  /-- `_index`, the records fed so far. -/
  records : Nat
  firstWallNs : Option Int
  lastWallNs : Option Int
  opensConnection : Bool
  spanStart : Option Int
  spanOpened : Bool
  lastEvent : Option String
  lastDetail : Option String
  bookSids : Finset Sid
  requested : Dict Sid (Finset Ticker)
  snapshotted : Finset (Sid × Ticker)
  markets : Dict Ticker Market
  pendingGaps : List PendingGap

namespace Segment

/-- A segment of which nothing was read. -/
def new (hour : HourInterpreter) (name : String) (header : SegmentHeader) : Segment :=
  { hour, name, connId := header.connId, useYesPrice := header.useYesPrice,
    afterLostConnection := hour.lostConnection.getD header.connId false, records := 0,
    firstWallNs := none, lastWallNs := none, opensConnection := false, spanStart := none,
    spanOpened := false, lastEvent := none, lastDetail := none, bookSids := ∅,
    requested := ∅, snapshotted := ∅, markets := ∅, pendingGaps := [] }

/-- A call on the interpreter the segment adds to. -/
def onHour (s : Segment) (f : HourInterpreter → HourInterpreter) : Segment :=
  { s with hour := f s.hour }

/-- A row for a table. -/
def emit (s : Segment) (table : TableName) (row : Row) : Segment :=
  s.onHour fun h => h.emit table row

/-- The last thing recorded is that the connection was lost. -/
def lostConnection (s : Segment) : Bool :=
  s.lastEvent = some "close" ∧ s.lastDetail ≠ some stoppedDetail

/-- `_fail`. -/
def fail (s : Segment) (failure : String) (detail : FailureDetail) : Segment :=
  s.onHour fun h => h.fail failure s.name s.records detail

/-! ## Book time -/

/-- A market begins to be observed. -/
def observe (s : Segment) (ticker : Ticker) (sid : Sid) (wallNs : Int) : Segment :=
  match s.markets.get? ticker with
  | some _ => s
  | none => { s with markets := s.markets.set ticker ⟨sid, wallNs, none⟩ }

/-- A market's times are counted up to an end. -/
def endMarket (s : Segment) (market : Market) (endWallNs : Int) : Segment :=
  let staleNs :=
    match market.staleSinceWallNs with
    | none => 0
    | some since => max 0 (endWallNs - since)
  s.onHour fun h => h.addBookTime (max 0 (endWallNs - market.sinceWallNs)) staleNs

/-- A market is observed no longer. -/
def leave (s : Segment) (ticker : Ticker) (wallNs : Int) : Segment :=
  match s.markets.get? ticker with
  | none => s
  | some market => { s with markets := s.markets.erase ticker }.endMarket market wallNs

/-- `_resolve_gaps`: the gaps still pending, and the rows of the others. -/
def resolved (sid : Sid) (ticker : Ticker) (wallNs : Int) :
    List PendingGap → List PendingGap × List Row
  | [] => ([], [])
  | p :: rest =>
      let (pending, rows) := resolved sid ticker wallNs rest
      if p.sid = sid then
        let waiting := p.waiting.erase ticker
        if waiting = ∅ then (pending, (p.row.dropLast ++ [.int wallNs]) :: rows)
        else ({ p with waiting } :: pending, rows)
      else (p :: pending, rows)

/-- Some rows for a table. -/
def emitAll (s : Segment) (table : TableName) (rows : List Row) : Segment :=
  rows.foldl (fun s row => s.emit table row) s

/-- A snapshot ends the wait of its market in the pending gaps. -/
def resolveGaps (s : Segment) (sid : Sid) (ticker : Ticker) (wallNs : Int) : Segment :=
  let (pending, rows) := resolved sid ticker wallNs s.pendingGaps
  { s.emitAll .gaps rows with pendingGaps := pending }

/-- The stretch of the connection ends. -/
def closeSpan (s : Segment) (endWallNs : Int) (closed : Bool) : Segment :=
  match s.spanStart with
  | none => s
  | some start =>
      { s.onHour fun h => h.addSpan
          ⟨s.connId, start, max start endWallNs, s.spanOpened, closed, le_max_left _ _⟩ with
        spanStart := none }

/-! ## Frames -/

/-- `_reply`. -/
def reply (d : Decoders) (s : Segment) (env : Raw.Envelope) : Segment :=
  if env.type = "subscribed" then
    match decodeMsg env d.subscribed with
    | .error e => s.fail failureFramePayload (.text e.detail)
    | .ok subscribed =>
        let s :=
          if subscribed.channel = "orderbook_delta" then
            { s with bookSids := insert subscribed.sid s.bookSids }
          else s
        s.onHour fun h => h.countNotBaked env.type
  else s.onHour fun h => h.countNotBaked env.type

/-- The row of a delta. -/
def deltaRow (delta : BookDelta) (receipt : Receipt) : Row :=
  [.text delta.ticker, .int? delta.tsMs, .int receipt.recvMonoNs, .int receipt.recvWallNs,
    .int receipt.connId, .int delta.sid, .int? delta.seq, .int delta.side.toInt,
    .int delta.price, .int delta.delta, .text? delta.ownClientOrderId]

/-- `_delta`. -/
def delta (d : Decoders) (s : Segment) (env : Raw.Envelope) (receipt : Receipt) :
    Except FrameError Segment :=
  match readDelta (decodeMsg env d.orderbookDelta) env.address receipt s.useYesPrice with
  | .error e => .error (.convert e)
  | .ok delta =>
      .ok (({ s with bookSids := insert delta.sid s.bookSids }.observe delta.ticker delta.sid
        receipt.recvWallNs).emit .deltas (deltaRow delta receipt))

/-- `_snapshot_reason`. -/
def snapshotReason (s : Segment) (sid : Sid) (ticker : Ticker) : Segment × Int :=
  let repeated := (sid, ticker) ∈ s.snapshotted
  let requested := s.requested.get? sid
  let s := { s with snapshotted := insert (sid, ticker) s.snapshotted }
  match requested with
  | some wanted =>
      if ticker ∈ wanted then
        ({ s with requested := s.requested.set sid (wanted.erase ticker) }, snapshotResync)
      else if repeated then (s, snapshotResync)
      else if s.opensConnection ∧ s.afterLostConnection then (s, snapshotReconnect)
      else (s, snapshotInitial)
  | none =>
      if repeated then (s, snapshotResync)
      else if s.opensConnection ∧ s.afterLostConnection then (s, snapshotReconnect)
      else (s, snapshotInitial)

/-- One row of an image: its receipt and address, then a level. -/
def levelRow (snapshot : BookSnapshot) (receipt : Receipt) (reason side : Int) (level : Level) :
    Row :=
  [.text snapshot.ticker, .int receipt.recvWallNs, .int receipt.recvMonoNs,
    .int receipt.connId, .int snapshot.sid, .int? snapshot.seq, .int side, .int level.price,
    .int level.count, .int reason]

/-- The rows of a snapshot: one for each level, or one that says it is empty. -/
def snapshotRows (snapshot : BookSnapshot) (receipt : Receipt) (reason : Int) : List Row :=
  let rows := snapshot.bids.map (levelRow snapshot receipt reason 0) ++
    snapshot.asks.map (levelRow snapshot receipt reason 1)
  if rows = [] then [levelRow snapshot receipt reason emptyBookSide ⟨0, 0⟩] else rows

/-- A snapshot of a stale market ends the stretch it was stale. -/
def freshen (s : Segment) (ticker : Ticker) (wallNs : Int) : Segment :=
  match s.markets.get? ticker with
  | none => s
  | some market =>
      match market.staleSinceWallNs with
      | none => s
      | some since =>
          { s.onHour fun h => h.addBookTime 0 (wallNs - since) with
            markets := s.markets.set ticker { market with staleSinceWallNs := none } }

/-- `_snapshot`. -/
def snapshot (d : Decoders) (s : Segment) (env : Raw.Envelope) (receipt : Receipt) :
    Except FrameError Segment :=
  match readSnapshot (decodeMsg env d.orderbookSnapshot) env.address receipt s.useYesPrice with
  | .error e => .error (.convert e)
  | .ok snapshot =>
      let wallNs := receipt.recvWallNs
      let (s, reason) := s.snapshotReason snapshot.sid snapshot.ticker
      let s := { s with bookSids := insert snapshot.sid s.bookSids }
      let s := (s.observe snapshot.ticker snapshot.sid wallNs).freshen snapshot.ticker wallNs
      .ok ((s.emitAll .snapshots (snapshotRows snapshot receipt reason)).resolveGaps
        snapshot.sid snapshot.ticker wallNs)

/-- The row of a trade. -/
def tradeRow (trade : Trade) (receipt : Receipt) : Row :=
  [.text trade.ticker, .text trade.tradeId, .int trade.tsMs, .int receipt.recvWallNs,
    .int trade.sid, .int? trade.seq, .int trade.price, .int trade.count,
    .int trade.takerSide.toInt, .bool trade.isBlock]

/-- `decode_msg` and `to_trade`. -/
def readTrade (d : Decoders) (env : Raw.Envelope) (receipt : Receipt) :
    Except FrameError Trade :=
  match decodeMsg env d.trade with
  | .error e => .error (.convert (.wire e))
  | .ok msg =>
      match toTrade msg env receipt with
      | .error e => .error (.convert e)
      | .ok trade => .ok trade

/-- `_trade`. -/
def trade (d : Decoders) (s : Segment) (env : Raw.Envelope) (receipt : Receipt) :
    Except FrameError Segment :=
  match readTrade d env receipt with
  | .error e => .error e
  | .ok trade => .ok (s.emit .trades (tradeRow trade receipt))

/-- The row of `_market_lifecycle`. -/
def readMarketLifecycle (d : Decoders) (env : Raw.Envelope) (receipt : Receipt) :
    Except FrameError Row :=
  match decodeMsg env d.marketLifecycleV2 with
  | .error e => .error (.convert (.wire e))
  | .ok msg =>
      match toLifecycle msg env receipt with
      | .error e => .error e
      | .ok event =>
          .ok [.text event.ticker, .text "market_lifecycle_v2", .text event.eventType,
            .int? (MarketLifecycleV2Msg.tsS msg), .int receipt.recvWallNs, .int event.sid,
            .int? event.seq, .text event.payloadJson]

/-- The row of `_event_message`. -/
def readEventMessage (d : Decoders) (env : Raw.Envelope) (receipt : Receipt) :
    Except FrameError Row :=
  let decode := if env.type = "event_lifecycle" then d.eventLifecycle else d.eventFeeUpdate
  match decodeMsg env decode with
  | .error e => .error (.convert (.wire e))
  | .ok msg =>
      match env.sid with
      | none => .error (.wire (env.type ++ " without sid"))
      | some sid =>
          match utf8 env.msg with
          | none => .error .unicode
          | some payloadJson =>
              .ok [.text msg.eventTicker, .text env.type, .null, .null, .int receipt.recvWallNs,
                .int sid, .int? env.seq, .text payloadJson]

/-- `_market_lifecycle` and `_event_message`. -/
def lifecycle (s : Segment) (row : Except FrameError Row) : Except FrameError Segment :=
  match row with
  | .error e => .error e
  | .ok row => .ok (s.emit .lifecycle row)

/-- `_data_frame`. -/
def dataFrame (d : Decoders) (s : Segment) (env : Raw.Envelope) (receipt : Receipt) :
    Except FrameError Segment :=
  match env.type with
  | "orderbook_delta" => s.delta d env receipt
  | "orderbook_snapshot" => s.snapshot d env receipt
  | "trade" => s.trade d env receipt
  | "market_lifecycle_v2" => s.lifecycle (readMarketLifecycle d env receipt)
  | _ => s.lifecycle (readEventMessage d env receipt)

/-- `_frame`. -/
def frame (d : Decoders) (s : Segment) (r : Record) : Except Escape Segment :=
  match decodeEnvelope d.toWireDecoders r.payload with
  | .error e => .ok (s.fail failureFrameEnvelope (.text e.detail))
  | .ok env =>
      if env.type ∈ notBakedFrameTypes then .ok (s.reply d env)
      else if env.type ∉ bakedFrameTypes then
        .ok (s.fail failureFrameUnknownType (.unknownType env.type))
      else
        match s.dataFrame d env ⟨r.connId, r.recvMonoNs, r.recvWallNs⟩ with
        | .error e =>
            match caught e with
            | .error escape => .error escape
            | .ok detail => .ok (s.fail failureFramePayload detail)
        | .ok s => .ok (s.onHour fun h => h.countBaked env.type)

/-! ## The recorder's own records -/

/-- A command asks for snapshots. -/
def request (s : Segment) (sid : Sid) (tickers : List Ticker) : Segment :=
  { s with requested := s.requested.set sid (s.requested.getD sid ∅ ∪ tickers.toFinset) }

/-- Some markets are observed no longer. -/
def leaveAll (s : Segment) (tickers : List Ticker) (wallNs : Int) : Segment :=
  tickers.foldl (fun s t => s.leave t wallNs) s

/-- The markets of some subscriptions. -/
def marketsOn (s : Segment) (sids : List Sid) : List Ticker :=
  (s.markets.entries.filter fun e => e.2.sid ∈ sids).map Prod.fst

/-- What a command tells of the subscriptions. -/
def commanded (s : Segment) (cmd : String) (params : CommandParams) (wallNs : Int) : Segment :=
  let tickers := params.marketTickers.getD []
  if cmd = "update_subscription" then
    match params.sid with
    | none => s
    | some sid =>
        if params.action = some "get_snapshot" then s.request sid tickers
        else if params.action = some "delete_markets" then s.leaveAll tickers wallNs
        else s
  else if cmd = "unsubscribe" then s.leaveAll (s.marketsOn (params.sids.getD [])) wallNs
  else s

/-- `_command`. -/
def command (d : Decoders) (s : Segment) (r : Record) : Segment :=
  match d.command r.payload with
  | .error e => s.fail failureCommandPayload (.text e)
  | .ok command =>
      let s := s.onHour fun h => h.countNotBaked "command"
      match command.params with
      | none => s
      | some params => s.commanded command.cmd params r.recvWallNs

/-- A gap on a book subscription stales every book it carries: the segment
then, and the markets the gap's row waits for. -/
def goStale (s : Segment) (sid : Sid) (wallNs : Int) : Segment × Finset Ticker :=
  if sid ∈ s.bookSids then
    ({ s with markets := s.markets.mapValues fun _ market =>
        if market.sid = sid ∧ market.staleSinceWallNs = none then
          { market with staleSinceWallNs := some wallNs }
        else market },
      (s.marketsOn [sid]).toFinset)
  else (s, ∅)

/-- The row of a gap that waits for its market. -/
def gapRow (gap : GapPayload) (r : Record) : Row :=
  [.int r.connId, .int gap.sid, .int r.recvWallNs, .int r.recvMonoNs, .int gap.expectedSeq,
    .int gap.gotSeq, .null]

/-- `_gap`. -/
def gap (d : Decoders) (s : Segment) (r : Record) : Segment :=
  match d.gap r.payload with
  | .error e => s.fail failureGapPayload (.text e)
  | .ok gap =>
      let s := s.onHour fun h => (h.countBaked "gap").addGap
      let (s, waiting) := s.goStale gap.sid r.recvWallNs
      if waiting = ∅ then s.emit .gaps (gapRow gap r)
      else { s with pendingGaps := s.pendingGaps ++ [⟨gapRow gap r, gap.sid, waiting⟩] }

/-- `_raw_text`: nothing for a payload that is absent. -/
def rawText (raw : List UInt8) : Except Escape (Option String) :=
  if raw = [] then .ok none
  else
    match utf8 raw with
    | none => .error .unicode
    | some text => .ok (some text)

/-- The row of an audit. -/
def auditRow (audit : AuditPayload) (r : Record) (restLevels localLevels : Option String) : Row :=
  [.text audit.ticker, .int r.recvWallNs, .int r.connId, .text audit.outcome.name,
    .int audit.sendWallNs, .int audit.sendMonoNs, .int r.recvMonoNs,
    .int audit.windowOpenMonoNs, .int audit.windowCloseMonoNs, .int audit.windowEvents,
    .int? audit.matchIndex, .int audit.levelsRest, .int? audit.levelsLocal,
    .int? audit.mismatchedLevels, .int? audit.maxAbsDiffE2, .text? audit.fault,
    .text? restLevels, .text? localLevels]

/-- `_audit`. -/
def audit (d : Decoders) (s : Segment) (r : Record) : Except Escape Segment :=
  match d.audit r.payload with
  | .error e => .ok (s.fail failureAuditPayload (.text e))
  | .ok audit =>
      let s := s.onHour fun h =>
        (h.countBaked "audit").addAudit audit.outcome audit.mismatchedLevels
      match rawText audit.restLevels with
      | .error e => .error e
      | .ok restLevels =>
          match rawText audit.localLevels with
          | .error e => .error e
          | .ok localLevels => .ok (s.emit .audits (auditRow audit r restLevels localLevels))

theorem sleep_ordered {wallNs wall mono : Int} (hjump : wall > mono) :
    wallNs - (wall - mono) ≤ wallNs := by
  omega

/-- The part of `_connection` after the count. -/
def connected (s : Segment) (connection : ConnectionPayload) (wallNs : Int) : Segment :=
  let event := connection.event
  let s :=
    if event = "open" then
      { s.closeSpan wallNs false with spanStart := some wallNs, spanOpened := true }
    else if event = "close" then s.closeSpan wallNs true
    else if event = "clock_jump" then
      match connection.wallNsDelta, connection.monoNsDelta with
      | some wall, some mono =>
          if hjump : wall > mono then
            s.onHour fun h => h.addSleep ⟨wallNs - (wall - mono), wallNs, sleep_ordered hjump⟩
          else s
      | _, _ => s
    else if event = "writer_overflow" then
      match connection.dropped with
      | some dropped => s.onHour fun h => h.addOverflow dropped
      | none => s
    else s
  if event = "open" ∨ event = "close" ∨ event = "error" then
    { s with lastEvent := some event, lastDetail := connection.detail }
  else s

/-- `_connection`. -/
def connection (d : Decoders) (s : Segment) (r : Record) : Segment :=
  match d.connection r.payload with
  | .error e => s.fail failureConnectionPayload (.text e)
  | .ok connection =>
      (s.onHour fun h => h.countNotBaked "connection").connected connection r.recvWallNs

/-! ## Records and segments -/

/-- `_begin`: whether the segment opens a connection. -/
def opens (d : Decoders) (r : Record) : Bool :=
  match r.kind with
  | .connection =>
      match d.connection r.payload with
      | .ok connection => connection.event = "open" ∨ connection.event = "error"
      | .error _ => false
  | _ => false

/-- The first record: it opens the connection, or the stretch goes back to the
start of the hour. -/
def begin (d : Decoders) (s : Segment) (r : Record) : Segment :=
  if opens d r then { s with opensConnection := true }
  else { s with spanStart := some s.hour.startWallNs, spanOpened := false }

/-- The kind of a record, by name. -/
def kindName : RecordKind → String
  | .frame => "frame"
  | .command => "command"
  | .gap => "gap"
  | .connection => "connection"
  | .audit => "audit"

/-- What `feed` does before it looks at the kind. -/
def arrive (d : Decoders) (s : Segment) (r : Record) : Segment :=
  let s :=
    match s.firstWallNs with
    | none => { s with firstWallNs := some r.recvWallNs }.begin d r
    | some _ => s
  { s with lastWallNs := some r.recvWallNs }.onHour fun h => h.countRecord (kindName r.kind)

/-- The record, by its kind. -/
def interpret (d : Decoders) (s : Segment) (r : Record) : Except Escape Segment :=
  match r.kind with
  | .frame => s.frame d r
  | .command => .ok (s.command d r)
  | .gap => .ok (s.gap d r)
  | .connection => .ok (s.connection d r)
  | .audit => s.audit d r

/-- A record is read, and counted unless an exception escapes. -/
def feed (d : Decoders) (s : Segment) (r : Record) : Except Escape Segment :=
  match (s.arrive d r).interpret d r with
  | .error e => .error e
  | .ok s => .ok { s with records := s.records + 1 }

/-- `feed`, for one record after another. -/
def feedAll (d : Decoders) (s : Segment) : List Record → Except Escape Segment
  | [] => .ok s
  | r :: rest =>
      match s.feed d r with
      | .error e => .error e
      | .ok s => s.feedAll d rest

/-- The times of all markets are counted up to an end. -/
def endMarkets (s : Segment) (endWallNs : Int) : Segment :=
  s.markets.values.foldl (fun s market => s.endMarket market endWallNs) s

/-- The segment's last record ends its markets and its span. -/
def ended (s : Segment) : Segment :=
  match s.lastWallNs with
  | none => s
  | some last => (s.endMarkets last).closeSpan last false

/-- What is remembered of the segment. -/
def facts (s : Segment) : SegmentFacts := ⟨s.records, s.firstWallNs, s.lastWallNs⟩

/-- `finish`. -/
def finish (s : Segment) : Segment × SegmentFacts :=
  let s' := s.ended
  ({ s'.emitAll .gaps (s'.pendingGaps.map PendingGap.row) with pendingGaps := [] }, s.facts)

end Segment

/-- A record source: its records, and what it raises after them if it is a
`TapeCorruptionError`. -/
structure RecordSource where
  records : List Record
  corruption : Option String
  deriving DecidableEq, Repr

/-- A call of the interpreter's. -/
inductive Reading where
  | segment (name : String) (header : SegmentHeader) (source : RecordSource)
  | corrupt (name detail : String) (recordIndex : Nat)
  deriving DecidableEq, Repr

namespace HourInterpreter

/-- A segment is read record by record, and ended. -/
def readSegment (d : Decoders) (h : HourInterpreter) (name : String) (header : SegmentHeader)
    (source : RecordSource) : Except Escape (HourInterpreter × SegmentFacts) :=
  match (Segment.new h name header).feedAll d source.records with
  | .error e => .error e
  | .ok s =>
      let s :=
        match source.corruption with
        | none => s
        | some detail => s.onHour fun h => h.corruptSegment name detail s.records
      let (s', facts) := s.finish
      .ok ({ s'.hour with
        lostConnection := s'.hour.lostConnection.set header.connId s.lostConnection }, facts)

/-- A segment, or the failure to open one. -/
def read (d : Decoders) (h : HourInterpreter) : Reading → Except Escape HourInterpreter
  | .segment name header source =>
      match h.readSegment d name header source with
      | .error e => .error e
      | .ok (h, _) => .ok h
  | .corrupt name detail recordIndex => .ok (h.corruptSegment name detail recordIndex)

/-- One reading after another. -/
def readAll (d : Decoders) (h : HourInterpreter) : List Reading → Except Escape HourInterpreter
  | [] => .ok h
  | reading :: rest =>
      match h.read d reading with
      | .error e => .error e
      | .ok h => h.readAll d rest

/-- What the hour tells of its completeness. -/
def integrity (h : HourInterpreter) : HourIntegrity :=
  { spans := h.spans
    sleeps := Sorted.sortOn (fun sleep => toLex (sleep.startWallNs, sleep.endWallNs)) h.sleeps
    gaps := ⟨h.gapCount, h.staleMarketNs, h.observedMarketNs⟩
    audits := ⟨h.audits.count "exact", h.audits.count "consistent", h.audits.count "inconsistent",
      h.audits.count "undecidable", h.levelsMismatched⟩
    writerOverflowDropped := h.overflowDropped }

/-- `finish`; the accounting checks itself. -/
def finish (h : HourInterpreter) : Except String HourResult :=
  match RecordAccounting.build h.counters.records.sorted h.counters.baked.sorted
      h.counters.notBaked.sorted h.counters.decodeFailures.sorted h.corruptSegments with
  | .error e => .error e
  | .ok accounting => .ok ⟨accounting, h.integrity, h.failures⟩

end HourInterpreter

end Tape.Bake
