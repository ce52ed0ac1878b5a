import Tape.Wire.Fixedpoint
import Tape.Book.Basic

/-!
# Frames, and the events they become

A frame is read in two stages, and the model keeps them apart because the
supervisor does: the envelope first, which is all the sequence check needs, and
the payload later, which may fail on its own. What the JSON decoder makes of
the bytes is taken as given: an `Envelope` holds either the decoded payload of
its type or the reason there is none. The conversion that follows, from strings
to integers on the YES price scale, is the source's and is written out.

Trades, ticker updates and lifecycle messages reach no book. They are carried
as the outcome of their conversion, with the fields later stages look at.
-/

namespace Tape

/-- A subscription id, scoped to one connection. -/
abbrev Sid := Int

/-- What is wrong with a message. -/
structure WireError where
  detail : String
  deriving DecidableEq, Repr

/-- What a conversion may raise. -/
inductive ConvertError where
  | wire (e : WireError)
  | numeral (e : NumeralError)
  deriving DecidableEq, Repr

/-- Where and when a frame was received. -/
structure Receipt where
  connId : Int
  recvMonoNs : Int
  recvWallNs : Int
  deriving DecidableEq, Repr

/-- All levels of a market. -/
structure BookSnapshot where
  ticker : Ticker
  tsMs : Option Int
  receipt : Receipt
  sid : Sid
  seq : Option Int
  bids : List Level
  asks : List Level
  deriving DecidableEq, Repr

/-- A change of one level. -/
structure BookDelta where
  ticker : Ticker
  tsMs : Option Int
  receipt : Receipt
  sid : Sid
  seq : Option Int
  side : Side
  price : Int
  delta : Int
  ownClientOrderId : Option String
  deriving DecidableEq, Repr

/-- Numbers of a subscription are missing. -/
structure GapEvent where
  receipt : Receipt
  sid : Sid
  expectedSeq : Int
  gotSeq : Int
  deriving DecidableEq, Repr

/-- The kinds of events that leave the books alone. -/
inductive EventKind where
  | trade
  | ticker
  | lifecycle
  deriving DecidableEq, Repr

/-- An event that touches no book. -/
structure OtherEvent where
  kind : EventKind
  ticker : Ticker
  receipt : Receipt
  sid : Sid
  deriving DecidableEq, Repr

/-- What the supervisor passes on. -/
inductive MarketEvent where
  | snapshot (e : BookSnapshot)
  | delta (e : BookDelta)
  | gap (e : GapEvent)
  | other (e : OtherEvent)
  deriving DecidableEq, Repr

/-- The message of a reply to a subscribe. -/
structure SubscribedMsg where
  channel : String
  sid : Sid
  deriving DecidableEq, Repr

/-- The message of a reply to an update. -/
structure OkMsg where
  marketTickers : Option (List Ticker)
  deriving DecidableEq, Repr

/-- The message of an error. -/
structure ErrorMsg where
  code : Int
  msg : String
  deriving DecidableEq, Repr

/-- The message of a snapshot. -/
structure OrderbookSnapshotMsg where
  marketTicker : Ticker
  yesDollarsFp : Option (List (String × String))
  noDollarsFp : Option (List (String × String))
  deriving DecidableEq, Repr

/-- The sides of a market, as they are sent. -/
inductive MarketSide where
  | yes
  | no
  deriving DecidableEq, Repr

/-- The message of a delta. -/
structure OrderbookDeltaMsg where
  marketTicker : Ticker
  priceDollars : String
  deltaFp : String
  side : MarketSide
  clientOrderId : Option String
  tsMs : Option Int
  deriving DecidableEq, Repr

/-- A payload, by the envelope's `type`, as `decode_msg` gives it. -/
inductive Body where
  | orderbookSnapshot (msg : Except WireError OrderbookSnapshotMsg)
  | orderbookDelta (msg : Except WireError OrderbookDeltaMsg)
  | market (event : Except ConvertError OtherEvent)
  | subscribed (msg : Except WireError SubscribedMsg)
  | ok (msg : Except WireError OkMsg)
  | unsubscribed
  | error (msg : Except WireError ErrorMsg)
  | uninterpreted (type : String)

/-- `orderbook_snapshot` by the envelope's type, whatever its payload. -/
def Body.isSnapshot : Body → Bool
  | .orderbookSnapshot _ => true
  | _ => false

/-- What a frame carries. -/
structure Envelope where
  sid : Option Sid
  seq : Option Int
  id : Option Int
  body : Body

/-- A received frame, with what `decode_envelope` makes of its bytes. -/
structure RawFrame where
  recvMonoNs : Int
  recvWallNs : Int
  payload : Except WireError Envelope

/-- `_levels`: string pairs as levels, those with a zero count left out. -/
def wireLevels (toYes : Bool) : List (String × String) → Except NumeralError (List Level)
  | [] => .ok []
  | (priceText, countText) :: rest =>
      match parsePrice priceText with
      | .error e => .error e
      | .ok price =>
          match parseCount countText with
          | .error e => .error e
          | .ok count =>
              match wireLevels toYes rest with
              | .error e => .error e
              | .ok levels =>
                  if count = 0 then .ok levels
                  else .ok (⟨if toYes then complement price else price, count⟩ :: levels)

/-- The snapshot of a message. -/
def toBookSnapshot (msg : OrderbookSnapshotMsg) (env : Envelope) (receipt : Receipt)
    (useYesPrice : Bool) : Except ConvertError BookSnapshot :=
  match env.sid with
  | none => .error (.wire ⟨"orderbook_snapshot without sid"⟩)
  | some sid =>
      match wireLevels false (msg.yesDollarsFp.getD []) with
      | .error e => .error (.numeral e)
      | .ok bids =>
          match wireLevels (!useYesPrice) (msg.noDollarsFp.getD []) with
          | .error e => .error (.numeral e)
          | .ok asks =>
              .ok { ticker := msg.marketTicker, tsMs := none, receipt, sid, seq := env.seq,
                    bids, asks }

/-- The delta of a message. -/
def toBookDelta (msg : OrderbookDeltaMsg) (env : Envelope) (receipt : Receipt)
    (useYesPrice : Bool) : Except ConvertError BookDelta :=
  match env.sid with
  | none => .error (.wire ⟨"orderbook_delta without sid"⟩)
  | some sid =>
      match parsePrice msg.priceDollars with
      | .error e => .error (.numeral e)
      | .ok price =>
          match parseSignedCount msg.deltaFp with
          | .error e => .error (.numeral e)
          | .ok delta =>
              .ok { ticker := msg.marketTicker, tsMs := msg.tsMs, receipt, sid,
                    seq := env.seq, side := if msg.side = .yes then .bid else .ask,
                    price :=
                      if msg.side = .no ∧ !useYesPrice then complement price else price,
                    delta, ownClientOrderId := msg.clientOrderId }

/-- `decode_msg` and the conversion, for a snapshot. -/
def readSnapshot (msg : Except WireError OrderbookSnapshotMsg) (env : Envelope)
    (receipt : Receipt) (useYesPrice : Bool) : Except ConvertError BookSnapshot :=
  match msg with
  | .error e => .error (.wire e)
  | .ok m => toBookSnapshot m env receipt useYesPrice

/-- `decode_msg` and the conversion, for a delta. -/
def readDelta (msg : Except WireError OrderbookDeltaMsg) (env : Envelope)
    (receipt : Receipt) (useYesPrice : Bool) : Except ConvertError BookDelta :=
  match msg with
  | .error e => .error (.wire e)
  | .ok m => toBookDelta m env receipt useYesPrice

/-- A converted snapshot is addressed as its envelope is. -/
theorem readSnapshot_address {msg : Except WireError OrderbookSnapshotMsg} {env : Envelope}
    {receipt : Receipt} {useYesPrice : Bool} {e : BookSnapshot}
    (h : readSnapshot msg env receipt useYesPrice = .ok e) :
    env.sid = some e.sid ∧ e.seq = env.seq ∧ e.receipt = receipt ∧ e.tsMs = none := by
  cases msg with
  | error e => cases h
  | ok m =>
      rw [readSnapshot, toBookSnapshot] at h
      split at h
      · cases h
      · next sid hsid =>
          split at h
          · cases h
          · split at h
            · cases h
            · obtain rfl := Except.ok.inj h
              exact ⟨hsid, rfl, rfl, rfl⟩

/-- A converted delta is addressed as its envelope is. -/
theorem readDelta_address {msg : Except WireError OrderbookDeltaMsg} {env : Envelope}
    {receipt : Receipt} {useYesPrice : Bool} {e : BookDelta}
    (h : readDelta msg env receipt useYesPrice = .ok e) :
    env.sid = some e.sid ∧ e.seq = env.seq ∧ e.receipt = receipt := by
  cases msg with
  | error e => cases h
  | ok m =>
      rw [readDelta, toBookDelta] at h
      split at h
      · cases h
      · next sid hsid =>
          split at h
          · cases h
          · split at h
            · cases h
            · obtain rfl := Except.ok.inj h
              exact ⟨hsid, rfl, rfl⟩

end Tape
