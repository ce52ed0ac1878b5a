import Tape.Page.LiveClient
import Tape.Run

/-!
# The page and its server

`LiveFeed` wires the client to the router. `Live` is the feed on one
connection, with the messages in flight both ways and a server that answers
each subscribe with the reply and a snapshot of every book it holds that was
not followed before, and passes every change of a followed market on. What the
server holds of a book is its state here: the levels of a snapshot and the
deltas are the environment's, so that what is proved holds whatever they are.

`LiveEvent` is one call of the page, one firing of a timer, one frame handled
by the page, one message handled by the server, or one change on the server.
-/

namespace Tape.Page

/-- The page's stores and its client. -/
structure LiveFeed where
  router : MarketRouter
  client : LiveClient

namespace LiveFeed

/-- A feed whose first socket has opened. -/
def opened (options : LiveClientOptions) : LiveFeed :=
  ⟨MarketRouter.new, LiveClient.opened options⟩

/-- The set of watched markets, put to the client. -/
def setSubscription (feed : LiveFeed) (now : Int) : LiveFeed :=
  { feed with client := feed.client.setSubscription feed.router.tickers now }

/-- A market is wanted. -/
def watch (feed : LiveFeed) (ticker : Ticker) (now : Int) : LiveFeed :=
  { feed with router := feed.router.track ticker }.setSubscription now

/-- A market is wanted no longer. -/
def unwatch (feed : LiveFeed) (ticker : Ticker) (now : Int) : LiveFeed :=
  { feed with router := feed.router.release ticker }.setSubscription now

/-- A frame arrives: the client handles it, the router gets a message about a
market, and a book found invalid is asked for again. -/
def handleFrame (feed : LiveFeed) (frame : FrameDecoding) (now : Int) : LiveFeed :=
  match feed.client.handleFrame frame now with
  | (client, none) => { feed with client }
  | (client, some message) =>
      match feed.router.dispatch message with
      | (router, none) => ⟨router, client⟩
      | (router, some ticker) => ⟨router, client.requestSnapshot ticker now⟩

/-- `onConnectionLost`, as the client reports it when a live connection ends. -/
def connectionLost (feed : LiveFeed) : LiveFeed :=
  { feed with router := feed.router.connectionLost }

end LiveFeed

/-- What the server keeps for one session. -/
structure Server where
  followed : List Ticker
  held : Dict Ticker KnownBookState

/-- How the server answers a subscribe: which markets it rejects, and the
levels of its books. -/
structure Answer where
  reject : Ticker → Option String
  levels : Ticker → List PriceLevel × List PriceLevel

namespace Server

/-- The snapshot of a market, if its book is held. -/
def snapshot (s : Server) (answer : Answer) (ticker : Ticker) : Option FrameDecoding :=
  (s.held.get? ticker).map fun book =>
    .market (.snapshot ticker book (answer.levels ticker).1 (answer.levels ticker).2)

/-- The reply and the snapshots. -/
def subscribe (s : Server) (answer : Answer) (tickers : List Ticker) :
    Server × List FrameDecoding :=
  let accepted := tickers.filter fun t => answer.reject t = none
  let rejected := tickers.filterMap fun t => (answer.reject t).map (Rejection.mk t)
  ({ s with followed := accepted },
    .subscribed accepted rejected ::
      (accepted.filter fun t => t ∉ s.followed).filterMap (s.snapshot answer))

/-- Something happens to a market on the server. -/
def note (s : Server) : MarketMessage → Server
  | .snapshot t book _ _ => { s with held := s.held.set t book }
  | .book t book => if s.held.contains t then { s with held := s.held.set t book } else s
  | .resync t _ => { s with held := s.held.erase t }
  | _ => s

end Server

/-- A feed on one connection. -/
structure Live where
  feed : LiveFeed
  server : Server
  /-- The frames on their way to the page. -/
  inbox : List FrameDecoding

/-- What can happen on a connection. -/
inductive LiveEvent where
  | watch (ticker : Ticker) (now : Int)
  | unwatch (ticker : Ticker) (now : Int)
  | subscribeTimer (now : Int)
  | retryTimer (now : Int)
  /-- The page handles its next frame. -/
  | deliver (now : Int)
  /-- The server handles its next subscribe. -/
  | answer (answer : Answer)
  /-- A market changes on the server. -/
  | change (message : MarketMessage)
  /-- The server sends a frame about no market. -/
  | other (frame : FrameDecoding)

namespace Live

/-- One event. -/
def step (l : Live) : LiveEvent → Live
  | .watch ticker now => { l with feed := l.feed.watch ticker now }
  | .unwatch ticker now => { l with feed := l.feed.unwatch ticker now }
  | .subscribeTimer now =>
      { l with feed := { l.feed with client := l.feed.client.subscribeTimerFires now } }
  | .retryTimer now =>
      { l with feed := { l.feed with client := l.feed.client.retryTimerFires now } }
  | .deliver now =>
      match l.inbox with
      | [] => l
      | frame :: inbox => { l with feed := l.feed.handleFrame frame now, inbox }
  | .answer answer =>
      match l.feed.client.outbox with
      | [] => l
      | tickers :: outbox =>
          let (server, frames) := l.server.subscribe answer tickers
          { feed := { l.feed with client := { l.feed.client with outbox } }
            server, inbox := l.inbox ++ frames }
  | .change message =>
      { l with
        server := l.server.note message
        inbox :=
          if message.market ∈ l.server.followed then l.inbox ++ [.market message] else l.inbox }
  | .other frame =>
      match frame with
      | .market _ => l
      | frame => { l with inbox := l.inbox ++ [frame] }

/-- The start of a connection: its socket has opened, no book is known, and
the server's `hello` is on its way. -/
structure Starts (l : Live) : Prop where
  phase : l.feed.client.phase = .handshaking
  socket : l.feed.client.socket = true
  subscribeTimer : l.feed.client.subscribeTimer = false
  rejectionRetryTimer : l.feed.client.rejectionRetryTimer = false
  outbox : l.feed.client.outbox = []
  desired : l.feed.client.desired = uniqueTickers l.feed.router.tickers
  unknown : ∀ t store, l.feed.router.stores.get? t = some store →
    store.ticker = t ∧ store.status = .unknown
  followed : l.server.followed = []
  hello : ∃ message, l.inbox = [.hello message]

/-- Once nothing is under way, a watched market that the server follows and
whose book it holds has the server's state. -/
def Converged (l : Live) : Prop :=
  l.feed.client.phase = .live → l.feed.client.subscribeTimer = false →
    l.feed.client.outbox = [] → l.inbox = [] →
    ∀ t store, l.feed.router.stores.get? t = some store → t ∈ l.server.followed →
      ∀ book, l.server.held.get? t = some book → store.status = book.status

end Live

end Tape.Page
