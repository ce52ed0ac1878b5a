import Tape.Bus.LiveBooks

/-!
# One live connection of the API

`ClientSession`: its subscriptions, its queue, and its limits. A call that
makes the session queue or discard messages is one step, as it is on the event
loop; the tasks that read and write the socket are the steps `receive`, `take`
and `lose`. What a subscription contains is the hub's business, next door.

An offer that does not fit replaces the backlog (`lag`). The queue's length is
not checked there.
-/

namespace Tape.Api

/-- The state of a book the hub holds. -/
inductive KnownBookState where
  | fresh
  | stale
  deriving DecidableEq, Repr

/-- A book is stale or fresh. -/
def KnownBookState.of (book : Book) : KnownBookState := if book.stale then .stale else .fresh

/-- A ticker that a subscribe named in vain, with the reason. -/
structure Rejection where
  ticker : Ticker
  code : String
  deriving DecidableEq, Repr

/-- The messages of the live feed. A trade and a ticker update are the event
they are made of. -/
inductive ServerMessage where
  | hello (protocol maxTickers busRefreshS : Nat)
  | subscribed (tickers : List Ticker) (rejected : List Rejection)
  | snapshot (ticker : Ticker) (book : KnownBookState) (tsMs : Option Int)
      (bids asks : List Level)
  | delta (ticker : Ticker) (tsMs : Option Int) (side : Side) (price delta : Int)
  | book (ticker : Ticker) (book : KnownBookState)
  | resync (ticker : Ticker) (reason : String)
  | trade (event : OtherEvent)
  | ticker (event : OtherEvent)
  | error (code message : String)
  deriving DecidableEq, Repr

/-- `isinstance(m, SubscribedMessage | ErrorMessage)`. -/
def ServerMessage.isReply : ServerMessage → Bool
  | .subscribed _ _ => true
  | .error _ _ => true
  | _ => false

/-- Reasons and codes of messages. -/
def resyncBusLoss : String := "bus_loss"
def resyncClientLag : String := "client_lag"
def rejectUnknownTicker : String := "unknown_ticker"
def rejectTooManyTickers : String := "too_many_tickers"
def errorMalformedJson : String := "malformed_json"
def errorUnknownOp : String := "unknown_op"
def errorInvalidMessage : String := "invalid_message"

/-- Limits and close codes of a session. -/
def protocolVersion : Nat := 1
def maxClientMessageBytes : Nat := 4096
def maxClientMessagesPerS : Nat := 10
def lagLimit : Nat := 3
def lagWindowS : Int := 60
def nsPerS : Int := 1000000000
def closePolicyViolation : Nat := 1008
def closeTooSlow : Nat := 4000

/-- What a frame of the client decodes to: an error of the JSON decoder, one of
a schema, another `op` (with its `repr`), or a subscribe. -/
inductive ClientFrame where
  | malformed (text : String)
  | invalid (text : String)
  | unknownOp (opRepr : String)
  | subscribe (tickers : List Ticker)
  deriving DecidableEq, Repr

/-- What the server keeps for one client. -/
structure ClientSession where
  queueMax : Nat
  queue : List ServerMessage := []
  subscriptions : List Ticker := []
  receivedNs : List Int := []
  lagsNs : List Int := []
  lags : Nat := 0
  closeCode : Option Nat := none
  gone : Bool := false
  deriving DecidableEq, Repr

namespace ClientSession

/-- The session follows these markets only. -/
def replaceSubscriptions (s : ClientSession) (tickers : List Ticker) : ClientSession :=
  { s with subscriptions := tickers }

/-- Discard what is queued and close. -/
def close (s : ClientSession) (code : Nat) : ClientSession :=
  match s.closeCode with
  | some _ => s
  | none => { s with closeCode := some code, queue := [] }

/-- The lags within the window, this one included. -/
def recentLags (s : ClientSession) (nowNs : Int) : List Int :=
  (s.lagsNs ++ [nowNs]).dropWhile fun lagNs => nowNs - lagNs ≥ lagWindowS * nsPerS

/-- What a recovery queues for the markets followed. -/
def recovery (snapshot : Ticker → Option ServerMessage) (tickers : List Ticker) :
    List ServerMessage :=
  tickers.flatMap fun ticker => .resync ticker resyncClientLag :: (snapshot ticker).toList

/-- `_lag`, with the feed's snapshots. -/
def lag (s : ClientSession) (snapshot : Ticker → Option ServerMessage) (nowNs : Int)
    (replies : List ServerMessage) : ClientSession :=
  let s := { s with lags := s.lags + 1, lagsNs := s.recentLags nowNs }
  if s.lagsNs.length ≥ lagLimit then s.close closeTooSlow
  else { s with queue := replies ++ recovery snapshot s.subscriptions }

/-- Queue all the messages, or resynchronize if they do not fit. -/
def offer (s : ClientSession) (snapshot : Ticker → Option ServerMessage) (nowNs : Int)
    (messages : List ServerMessage) : ClientSession :=
  if s.closeCode ≠ none ∨ s.gone ∨ messages = [] then s
  else if s.queue.length + messages.length ≤ s.queueMax then
    { s with queue := s.queue ++ messages }
  else s.lag snapshot nowNs (messages.filter ServerMessage.isReply)

/-- `_write` takes the next message to send. -/
def take (s : ClientSession) : ClientSession := { s with queue := s.queue.tail }

/-- The client is gone, as `_send` and `_read` find it. -/
def lose (s : ClientSession) : ClientSession := { s with gone := true }

/-- `_within_limits`: a client message counted against the limits, and whether
it is within them. -/
def withinLimits (s : ClientSession) (size : Nat) (nowNs : Int) : ClientSession × Bool :=
  let s := { s with
    receivedNs := (s.receivedNs ++ [nowNs]).dropWhile fun atNs => nowNs - atNs ≥ nsPerS }
  if size > maxClientMessageBytes ∨ s.receivedNs.length > maxClientMessagesPerS then
    (s.close closePolicyViolation, false)
  else (s, true)

end ClientSession

/-- The answer to a frame that is no subscribe, as `_handle` words it. -/
def ClientFrame.complaint : ClientFrame → Option ServerMessage
  | .malformed text => some (.error errorMalformedJson text)
  | .invalid text => some (.error errorInvalidMessage text)
  | .unknownOp opRepr =>
      some (.error errorUnknownOp s!"unknown op {opRepr}; the only op is 'subscribe'")
  | .subscribe _ => none

end Tape.Api
