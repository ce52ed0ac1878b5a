import Tape.Page.Convergence

/-!
# The client over all its connections

`LiveClient` again, from its construction on: it is started and stopped, its
sockets open, close, are given up on and are replaced, and between all that the
page sets the subscription and asks for snapshots. How long the pause before a
reconnect is does not matter here; its timer may fire at any time.

`ClientRun` adds what an observer of one connection writes down: every
subscribe message with the reading of the clock at which it was sent, and every
request for a snapshot that was accepted while the market was in the set sent
last. Both start over with each connection, and a request is struck out when
its market is no longer wanted. Times are whole milliseconds.
-/

namespace Tape.Page

namespace LiveClient

/-- `new LiveClient(options)`. -/
def new (options : LiveClientOptions) : LiveClient :=
  { opened options with phase := .idle, socket := false, helloTimer := false }

/-- `#dropSocket`. -/
def dropSocket (c : LiveClient) : LiveClient :=
  { c with
    socket := false, helloTimer := false, subscribeTimer := false, rejectionRetryTimer := false }

/-- `#handleClose`. The reconnect timer it sets is the caller's. -/
def handleClose (c : LiveClient) : LiveClient :=
  { c.dropSocket with phase := .waiting, subscribed := [], rejected := [] }

/-- `#connect`; the socket may fail to be created. -/
def connect (c : LiveClient) (created : Bool) : LiveClient :=
  let c := { c with phase := .connecting, hello := none, socket := created }
  if created then c else c.handleClose

/-- The socket is open: the server's `hello` is awaited. -/
def handleOpen (c : LiveClient) : LiveClient :=
  { c with phase := .handshaking, helloTimer := true }

end LiveClient

/-- The feed once its live connection was lost and the next socket opened: the
stores were told, and what was on its way is gone. -/
def LiveFeed.reopened (feed : LiveFeed) : LiveFeed :=
  { feed.connectionLost with
    client := { (feed.client.handleClose.connect true).handleOpen with outbox := [] } }

theorem TapeStore.markConnectionLost_status (store : TapeStore) :
    store.markConnectionLost.status = .unknown := by
  rw [markConnectionLost]
  split
  · next hunknown => exact hunknown
  · rfl

theorem TapeStore.markConnectionLost_ticker (store : TapeStore) :
    store.markConnectionLost.ticker = store.ticker := by
  rw [markConnectionLost]
  split
  · rfl
  · rfl

/-- A later connection starts as the first one did: the page knows no book, and
the server's new session follows nothing. -/
theorem Live.Sound.starts {l : Live} (h : l.Sound) (hello : HelloMessage) :
    Live.Starts ⟨l.feed.reopened, ⟨[], l.server.held⟩, [.hello hello]⟩ where
  phase := rfl
  socket := rfl
  subscribeTimer := rfl
  rejectionRetryTimer := rfl
  outbox := rfl
  desired := by
    show l.feed.client.desired = uniqueTickers (l.feed.router.stores.mapValues _).keys
    rw [Dict.keys_mapValues]
    exact h.desired
  unknown t store hstore := by
    have hmapped : (l.feed.router.stores.get? t).map TapeStore.markConnectionLost = some store :=
      (Dict.get?_mapValues _ _ t).symm.trans hstore
    obtain ⟨before, hbefore, rfl⟩ := Option.map_eq_some_iff.mp hmapped
    exact ⟨before.markConnectionLost_ticker.trans (h.stores t before hbefore),
      before.markConnectionLost_status⟩
  followed := rfl
  hello := ⟨hello, rfl⟩

/-- A subscribe message, with the reading at which it was sent. -/
structure SentMessage where
  atMs : Int
  tickers : List Ticker
  deriving DecidableEq, Repr

/-- A request for a snapshot, accepted when message `last` was the last sent. -/
structure SnapshotRequest where
  ticker : Ticker
  last : Nat
  deriving DecidableEq, Repr

/-- The client, and what an observer of one connection writes down. -/
structure ClientRun where
  client : LiveClient
  reconnectTimer : Bool
  /-- What was sent on this connection. -/
  log : List SentMessage
  /-- The requests accepted on this connection for markets still wanted. -/
  requests : List SnapshotRequest

/-- What the client can be called with. -/
inductive ClientCall where
  | start (created : Bool)
  | stop
  | setSubscription (tickers : List Ticker)
  | requestSnapshot (ticker : Ticker)
  | socketOpens
  | frame (frame : FrameDecoding)
  | socketCloses
  | helloTimer
  | subscribeTimer
  | retryTimer
  | reconnectTimer (created : Bool)
  deriving DecidableEq, Repr

/-- One call, event or timer, with the reading of the clock it sees. -/
structure ClientEvent where
  nowMs : Int
  call : ClientCall

namespace ClientRun

/-- A client that was not started. -/
def new (options : LiveClientOptions) : ClientRun :=
  { client := LiveClient.new options, reconnectTimer := false, log := [], requests := [] }

/-- The last set sent on this connection, empty when none was. -/
def lastSent (r : ClientRun) : List Ticker := (r.log.getLast?.map SentMessage.tickers).getD []

/-- Go on with a client, and note down what it sent. -/
def goOn (r : ClientRun) (nowMs : Int) (client : LiveClient) : ClientRun :=
  { r with
    client := { client with outbox := [] }
    log := r.log ++ client.outbox.map fun tickers => ⟨nowMs, tickers⟩ }

/-- A new connection, on which nothing was sent. -/
def connect (r : ClientRun) (created : Bool) : ClientRun :=
  { r with
    client := r.client.connect created
    reconnectTimer := !created
    log := []
    requests := [] }

/-- The connection ends and another is due. -/
def close (r : ClientRun) : ClientRun :=
  { r with client := r.client.handleClose, reconnectTimer := true }

/-- The request that is noted when a snapshot is asked for. -/
def requested (r : ClientRun) (ticker : Ticker) : List SnapshotRequest :=
  if ticker ∈ r.client.desired ∧ ticker ∈ r.lastSent then [⟨ticker, r.log.length - 1⟩] else []

/-- One call of the client. -/
def step (r : ClientRun) (event : ClientEvent) : ClientRun :=
  let now := event.nowMs
  match event.call with
  | .start created =>
      if r.client.phase = .idle ∨ r.client.phase = .stopped then r.connect created else r
  | .stop =>
      if r.client.phase = .idle ∨ r.client.phase = .stopped then r
      else
        { r with
          client := { r.client.dropSocket with phase := .stopped, subscribed := [], rejected := [] }
          reconnectTimer := false }
  | .setSubscription tickers =>
      { r with requests := r.requests.filter fun request => request.ticker ∈ uniqueTickers tickers
        }.goOn now (r.client.setSubscription tickers now)
  | .requestSnapshot ticker =>
      { r with requests := r.requests ++ r.requested ticker
        }.goOn now (r.client.requestSnapshot ticker now)
  | .socketOpens =>
      if r.client.phase = .connecting then { r with client := r.client.handleOpen } else r
  | .frame frame => r.goOn now (r.client.handleFrame frame now).1
  | .socketCloses => if r.client.socket then r.close else r
  | .helloTimer => if r.client.helloTimer then r.close else r
  | .subscribeTimer => r.goOn now (r.client.subscribeTimerFires now)
  | .retryTimer => r.goOn now (r.client.retryTimerFires now)
  | .reconnectTimer created => if r.reconnectTimer then r.connect created else r

/-- The subscribe timer does not fire before the time it was set for, which is
an interval after the last message. -/
def Legal (r : ClientRun) (event : ClientEvent) : Prop :=
  event.call = .subscribeTimer → ∀ last ∈ r.client.lastSubscribeAtMs,
    last + r.client.options.minSubscribeIntervalMs ≤ event.nowMs

/-- The request was answered: after the message that was the last one then, one
left the market out and a later one included it. -/
def Refreshed (r : ClientRun) (request : SnapshotRequest) : Prop :=
  ∃ i j without with', request.last < i ∧ i < j ∧ r.log[i]? = some without ∧
    r.log[j]? = some with' ∧ request.ticker ∉ without.tickers ∧ request.ticker ∈ with'.tickers

/-- The subscribe messages are spaced and bounded, and when the client has
nothing left to send the server was told what is wanted. -/
structure Settled (r : ClientRun) : Prop where
  spaced : r.log.IsChain fun a b =>
    a.atMs + r.client.options.minSubscribeIntervalMs ≤ b.atMs
  bounded : ∀ m ∈ r.log, (subscribePayload m.tickers).utf8ByteSize ≤ maxClientMessageBytes
  told : r.client.phase = .live → r.client.subscribeTimer = false → Sendable r.client.desired →
    r.lastSent = r.client.desired ∧ ∀ request ∈ r.requests, r.Refreshed request

/-- What the client holds when its call reaches a flush, if it does. -/
def flushes (r : ClientRun) (event : ClientEvent) : Option LiveClient :=
  if r.client.phase ≠ .live then none
  else
    match event.call with
    | .subscribeTimer => if r.client.subscribeTimer then some r.client else none
    | .requestSnapshot ticker =>
        if ticker ∈ r.client.desired ∧ r.client.subscribeTimer = false ∧
            r.client.mayFlush event.nowMs then
          some { r.client with refresh := insert ticker r.client.refresh }
        else none
    | _ => none

/-- A flush that leaves markets out is not the set sent last over again, unless
the whole set cannot be sent or a resend is due. -/
def Unsuppressed (r : ClientRun) (event : ClientEvent) : Prop :=
  ∀ c ∈ r.flushes event, c.refresh ≠ ∅ → Sendable c.desired → c.resend = false →
    c.flushed ≠ r.lastSent

/-- A flush that is to leave out a market of the set sent last fits a message. -/
def Sized (r : ClientRun) (event : ClientEvent) : Prop :=
  ∀ c ∈ r.flushes event, (∃ t ∈ c.refresh, t ∈ r.lastSent) → Sendable c.flushed

variable (r : ClientRun) (event : ClientEvent)

instance : Decidable (r.Legal event) := inferInstanceAs (Decidable (_ → ∀ last ∈ _, _))

instance (tickers : List Ticker) : Decidable (Sendable tickers) :=
  inferInstanceAs (Decidable (_ ≤ _))

instance : Decidable (r.Unsuppressed event) := inferInstanceAs (Decidable (∀ c ∈ _, _))

instance : Decidable (r.Sized event) := inferInstanceAs (Decidable (∀ c ∈ _, _))

end ClientRun

end Tape.Page
