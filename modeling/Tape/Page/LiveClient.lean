import Tape.Page.Stores

/-!
# The page's connection to the live feed

`LiveClient` over one socket: the desired set, what the server was last told,
the coalescing of subscribe messages by a timer, the refresh of a market whose
book was found invalid, and the retry of markets rejected as unknown. A timer
is a flag: it may fire at any time while it is set. Each call takes the reading
of the clock.

Connecting again after a close, and the backoff, are left out: this is the
client of one connection, from its handshake on.
-/

namespace Tape.Page

/-- Where a connection is in its life. -/
inductive ConnectionPhase where
  | idle
  | connecting
  | handshaking
  | live
  | waiting
  | stopped
  | incompatible
  deriving DecidableEq, Repr

/-- The protocol the page speaks. -/
def protocolVersion : Int := 1

/-- The most bytes of a client message. -/
def maxClientMessageBytes : Nat := 4096

/-- What a server says of itself. -/
structure HelloMessage where
  protocol : Int
  busRefreshS : Int
  deriving DecidableEq, Repr

/-- A ticker that was named in vain, with the reason. -/
structure Rejection where
  ticker : Ticker
  code : String
  deriving DecidableEq, Repr

/-- What a frame decodes to. -/
inductive FrameDecoding where
  | malformed
  | ignored
  | hello (message : HelloMessage)
  | subscribed (tickers : List Ticker) (rejected : List Rejection)
  | error (code message : String)
  | market (message : MarketMessage)
  deriving DecidableEq, Repr

/-! ## The subscribe message -/

/-- A character inside a JSON string. -/
def jsonChar (c : Char) : String :=
  match c.toNat with
  | 8 => "\\b"
  | 9 => "\\t"
  | 10 => "\\n"
  | 12 => "\\f"
  | 13 => "\\r"
  | 34 => "\\\""
  | 92 => "\\\\"
  | n =>
      if n < 32 then "\\u00" ++ String.ofList [Nat.digitChar (n / 16), Nat.digitChar (n % 16)]
      else String.ofList [c]

/-- A string as JSON writes it. -/
def jsonString (s : String) : String := "\"" ++ String.join (s.toList.map jsonChar) ++ "\""

/-- `JSON.stringify` of a subscribe request. -/
def subscribePayload (tickers : List Ticker) : String :=
  "\x7b\"op\":\"subscribe\",\"tickers\":[" ++ ",".intercalate (tickers.map jsonString) ++ "]\x7d"

/-- `uniqueTickers`. -/
def uniqueTickers (tickers : List Ticker) : List Ticker :=
  (tickers.filter fun t => t ≠ "").reverse.dedup.reverse

/-- The pauses and retries of a client. -/
structure LiveClientOptions where
  minSubscribeIntervalMs : Int := 250
  unknownTickerRetries : Nat := 12
  deriving DecidableEq, Repr

/-- The page's client, and the subscribes on their way to the server. -/
structure LiveClient where
  options : LiveClientOptions
  phase : ConnectionPhase
  hello : Option HelloMessage
  subscribed : List Ticker
  rejected : List Rejection
  lastServerError : Option (String × String)
  malformedFrames : Nat
  ignoredFrames : Nat
  socket : Bool
  helloTimer : Bool
  subscribeTimer : Bool
  rejectionRetryTimer : Bool
  rejectionRetries : Nat
  resend : Bool
  desired : List Ticker
  sent : Option (List Ticker)
  /-- `none` is negative infinity. -/
  lastSubscribeAtMs : Option Int
  refresh : Finset Ticker
  /-- The subscribe messages the socket has taken and not yet delivered. -/
  outbox : List (List Ticker)

namespace LiveClient

/-- A client whose socket has opened: `#handleOpen`. -/
def opened (options : LiveClientOptions) : LiveClient :=
  { options, phase := .handshaking, hello := none, subscribed := [], rejected := [],
    lastServerError := none, malformedFrames := 0, ignoredFrames := 0, socket := true,
    helloTimer := true, subscribeTimer := false, rejectionRetryTimer := false,
    rejectionRetries := 0, resend := false, desired := [], sent := none,
    lastSubscribeAtMs := none, refresh := ∅, outbox := [] }

/-- Whether the spacing rule lets a message leave now. -/
def mayFlush (c : LiveClient) (now : Int) : Bool :=
  match c.lastSubscribeAtMs with
  | none => true
  | some last => last + c.options.minSubscribeIntervalMs - now ≤ 0

/-- What a flush would tell the server. -/
def flushed (c : LiveClient) : List Ticker :=
  if c.refresh = ∅ then c.desired else c.desired.filter fun t => t ∉ c.refresh

/-- A flush tells the server nothing new. -/
def suppressed (c : LiveClient) : Bool :=
  match c.sent with
  | some sent => !c.resend && sent == c.flushed
  | none => c.flushed == []

/-- `#flushSubscription` up to its last line; whether it sent a reduced set. -/
def flushOnce (c : LiveClient) (now : Int) : LiveClient × Bool :=
  if c.phase ≠ .live ∨ c.socket = false then (c, false)
  else
    let tickers := c.flushed
    let cleared := { c with refresh := ∅, resend := false }
    if c.suppressed then (cleared, false)
    else if (subscribePayload tickers).utf8ByteSize > maxClientMessageBytes then
      ({ cleared with
          lastServerError := some ("subscription_too_large", "Too many tickers to send.") }, false)
    else
      ({ cleared with
          outbox := c.outbox ++ [tickers]
          sent := some tickers
          lastSubscribeAtMs := some now },
        c.refresh ≠ ∅)

/-- `#scheduleSubscribe`, with `flush` for `#flushSubscription`. -/
def scheduleWith (flush : LiveClient → LiveClient) (c : LiveClient) (now : Int) : LiveClient :=
  if c.phase ≠ .live ∨ c.subscribeTimer then c
  else if c.mayFlush now then flush c
  else { c with subscribeTimer := true }

/-- `#flushSubscription`. After a reduced set the full one is scheduled; that
flush finds nothing to refresh, so it schedules nothing. -/
def flushSubscription (c : LiveClient) (now : Int) : LiveClient :=
  match c.flushOnce now with
  | (c, true) => c.scheduleWith (fun c => (c.flushOnce now).1) now
  | (c, false) => c

/-- Flush now if the spacing allows it, or set the timer. -/
def scheduleSubscribe (c : LiveClient) (now : Int) : LiveClient :=
  c.scheduleWith (fun c => c.flushSubscription now) now

/-- Other markets are wanted. -/
def setSubscription (c : LiveClient) (tickers : List Ticker) (now : Int) : LiveClient :=
  let desired := uniqueTickers tickers
  { c with
    rejectionRetries := if desired = c.desired then c.rejectionRetries else 0
    desired := desired
    refresh := c.refresh.filter fun t => t ∈ desired }.scheduleSubscribe now

/-- A market is to be left out and taken in again. -/
def requestSnapshot (c : LiveClient) (ticker : Ticker) (now : Int) : LiveClient :=
  if ticker ∈ c.desired then
    { c with refresh := insert ticker c.refresh }.scheduleSubscribe now
  else c

/-- `#retryUnknownTickers`. -/
def retryUnknownTickers (c : LiveClient) (rejected : List Rejection) : LiveClient :=
  let unknown := rejected.any fun entry => entry.code = "unknown_ticker" ∧ entry.ticker ∈ c.desired
  let c := if unknown then c else { c with rejectionRetries := 0 }
  if !unknown ∨ c.hello = none ∨ c.rejectionRetries ≥ c.options.unknownTickerRetries then
    { c with rejectionRetryTimer := false }
  else if c.rejectionRetryTimer then c
  else { c with rejectionRetries := c.rejectionRetries + 1, rejectionRetryTimer := true }

/-- `#handleHello`. A server of another protocol is left for good. -/
def handleHello (c : LiveClient) (hello : HelloMessage) (now : Int) : LiveClient :=
  let c := { c with helloTimer := false }
  if c.phase ≠ .handshaking then c
  else if hello.protocol ≠ protocolVersion then
    { c with
      socket := false, subscribeTimer := false, rejectionRetryTimer := false
      phase := .incompatible, hello := some hello }
  else
    { c with
      sent := none, lastSubscribeAtMs := none, refresh := ∅, rejectionRetries := 0
      resend := false, phase := .live, hello := some hello, subscribed := []
      rejected := [] }.scheduleSubscribe now

/-- `#handleFrame`, and what the listener is handed. Events of a socket that
was dropped are ignored. -/
def handleFrame (c : LiveClient) (frame : FrameDecoding) (now : Int) :
    LiveClient × Option MarketMessage :=
  if c.socket = false then (c, none)
  else
  match frame with
  | .malformed => ({ c with malformedFrames := c.malformedFrames + 1 }, none)
  | .ignored => ({ c with ignoredFrames := c.ignoredFrames + 1 }, none)
  | .hello message => (c.handleHello message now, none)
  | .subscribed tickers rejected =>
      ({ c with subscribed := tickers, rejected := rejected }.retryUnknownTickers rejected, none)
  | .error code message => ({ c with lastServerError := some (code, message) }, none)
  | .market message => (c, if c.phase = .live then some message else none)

/-- The subscribe timer fires. -/
def subscribeTimerFires (c : LiveClient) (now : Int) : LiveClient :=
  if c.subscribeTimer then { c with subscribeTimer := false }.flushSubscription now else c

/-- The timer of a rejection retry fires. -/
def retryTimerFires (c : LiveClient) (now : Int) : LiveClient :=
  if c.rejectionRetryTimer then
    { c with rejectionRetryTimer := false, resend := true }.scheduleSubscribe now
  else c

end LiveClient

end Tape.Page
