import Tape.Wire.Messages

/-!
# Frames as their bytes, and the messages that touch no book

Where `Messages` takes a frame with its payload decoded, a frame is read here
as the source reads it: the envelope with `msg` left as raw bytes, and the
payload decoded later into the struct its type asks for. The decoders are
parameters, one for each struct; each gives the struct or the decoder's
message.

A raw payload that is kept as text is decoded as UTF-8, and bytes that are not
UTF-8 raise `UnicodeDecodeError`, which is neither a `WireError` nor a
`FixedPointError`.
-/

namespace Tape

/-- `bytes(raw).decode("utf-8")`. -/
def utf8 (raw : List UInt8) : Option String := String.fromUTF8? ⟨raw.toArray⟩

/-- What reading a frame may raise. -/
inductive FrameError where
  | convert (e : ConvertError)
  | unicode
  deriving DecidableEq, Repr

/-- A frame that is not as it should be. -/
def FrameError.wire (detail : String) : FrameError := .convert (.wire ⟨detail⟩)

namespace Raw

/-- The outer frame, its `msg` undecoded. -/
structure Envelope where
  type : String
  sid : Option Sid
  seq : Option Int
  id : Option Int
  msg : List UInt8
  deriving DecidableEq, Repr

/-- The envelope as the conversions read it: only its `sid` and `seq`. -/
def Envelope.address (env : Envelope) : Tape.Envelope :=
  { sid := env.sid, seq := env.seq, id := env.id, body := .uninterpreted env.type }

end Raw

/-- The side of a taker, as it is sent. -/
inductive WireBookSide where
  | bid
  | ask
  deriving DecidableEq, Repr

/-- The message of a trade. -/
structure TradeMsg where
  tradeId : String
  marketTicker : Ticker
  yesPriceDollars : String
  countFp : String
  takerBookSide : WireBookSide
  tsMs : Int
  isBlockTrade : Bool
  deriving DecidableEq, Repr

/-- A trade. -/
structure Trade where
  ticker : Ticker
  tsMs : Int
  receipt : Receipt
  sid : Sid
  seq : Option Int
  tradeId : String
  price : Int
  count : Int
  takerSide : Side
  isBlock : Bool
  deriving DecidableEq, Repr

/-- The message of a market's lifecycle event. -/
structure MarketLifecycleV2Msg where
  eventType : String
  marketTicker : Ticker
  closeTs : Option Int
  determinationTs : Option Int
  settledTs : Option Int
  deriving DecidableEq, Repr

/-- A market's lifecycle event. -/
structure Lifecycle where
  ticker : Ticker
  receipt : Receipt
  sid : Sid
  seq : Option Int
  eventType : String
  payloadJson : String
  closeTs : Option Int
  deriving DecidableEq, Repr

/-- `EventLifecycleMsg` and `EventFeeUpdateMsg`, of which only the event's
ticker is read. -/
structure EventMsg where
  eventTicker : Ticker
  deriving DecidableEq, Repr

/-- The JSON decoders of the structs of a frame. -/
structure WireDecoders where
  envelope : List UInt8 → Except String Raw.Envelope
  subscribed : List UInt8 → Except String SubscribedMsg
  orderbookSnapshot : List UInt8 → Except String OrderbookSnapshotMsg
  orderbookDelta : List UInt8 → Except String OrderbookDeltaMsg
  trade : List UInt8 → Except String TradeMsg
  marketLifecycleV2 : List UInt8 → Except String MarketLifecycleV2Msg
  eventLifecycle : List UInt8 → Except String EventMsg
  eventFeeUpdate : List UInt8 → Except String EventMsg

/-- A frame's envelope. -/
def decodeEnvelope (d : WireDecoders) (raw : List UInt8) : Except WireError Raw.Envelope :=
  match d.envelope raw with
  | .error e => .error ⟨"bad envelope: " ++ e⟩
  | .ok env => .ok env

/-- `decode_msg`, for the struct of the decoder. -/
def decodeMsg {α : Type} (env : Raw.Envelope) (decode : List UInt8 → Except String α) :
    Except WireError α :=
  match decode env.msg with
  | .error e => .error ⟨"bad " ++ env.type ++ " payload: " ++ e⟩
  | .ok msg => .ok msg

/-- The trade of a message. -/
def toTrade (msg : TradeMsg) (env : Raw.Envelope) (receipt : Receipt) :
    Except ConvertError Trade :=
  match env.sid with
  | none => .error (.wire ⟨"trade without sid"⟩)
  | some sid =>
      match parsePrice msg.yesPriceDollars with
      | .error e => .error (.numeral e)
      | .ok price =>
          match parseCount msg.countFp with
          | .error e => .error (.numeral e)
          | .ok count =>
              .ok { ticker := msg.marketTicker, tsMs := msg.tsMs, receipt, sid, seq := env.seq,
                    tradeId := msg.tradeId, price, count,
                    takerSide := if msg.takerBookSide = .bid then .bid else .ask,
                    isBlock := msg.isBlockTrade }

/-- The lifecycle event of a message. -/
def toLifecycle (msg : MarketLifecycleV2Msg) (env : Raw.Envelope) (receipt : Receipt) :
    Except FrameError Lifecycle :=
  match env.sid with
  | none => .error (.wire "market_lifecycle_v2 without sid")
  | some sid =>
      match utf8 env.msg with
      | none => .error .unicode
      | some payloadJson =>
          .ok { ticker := msg.marketTicker, receipt, sid, seq := env.seq,
                eventType := msg.eventType, payloadJson, closeTs := msg.closeTs }

end Tape
