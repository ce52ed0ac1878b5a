import Tape.Book.Keyframe
import Tape.Recorder.Gaps
import Tape.Recorder.Planner

/-!
# One supervised connection

The state of `ConnectionSupervisor` and the handlers that change it, in the
source's order and with the source's branches.

A handler of the source is a coroutine: it runs until it sends a command or
waits for the command lock, and other tasks may run before it goes on. Each
handler is therefore written as the pieces between two such points. A piece
answers the state it leaves and what the handler waits for next: a command to
send, or the lock. `onFrame` and `reconcileLocked` at the end of the file put
the pieces together for a run in which every send returns at once; the file on
reconciliation lets other tasks in between.

The sink is a list of the records handed to it, the event consumer a list of
the events, and the wire a list of the commands with their ids. Logs, clocks
and the backoff are left out, and so are the taps of the auditor.
-/

namespace Tape

/-- The channel of the books. -/
def orderbookChannel : String := "orderbook_delta"

/-- `group_id` of the subscription of the firehose channels. -/
def firehoseGroupId : String := "*"

/-- The settings of a connection. -/
structure SupervisorConfig where
  connId : Int
  groupChannels : List String := [orderbookChannel, "trade"]
  firehoseChannels : List String := []
  useYesPrice : Bool := true
  persist : Bool := true
  maxMarketsPerCommand : Nat := 500
  deriving DecidableEq, Repr

/-- What a subscription is for. -/
structure SubscriptionInfo where
  sid : Sid
  channel : String
  groupId : String
  deriving DecidableEq, Repr

/-- A subscribe some of whose channels have not answered yet. -/
structure PendingSubscribe where
  groupId : String
  channels : Finset String
  deriving DecidableEq

/-- The session, as far as a send depends on it. -/
structure Session where
  isOpen : Bool
  nextCommandId : Int
  deriving DecidableEq, Repr

/-- What ends a connection, or the run: a closed session, or an exception that
nothing catches. -/
inductive Failure where
  | closed
  | uncaught (what : String)
  deriving DecidableEq, Repr

/-- What the sink is handed. -/
inductive TapeRecord where
  | frame (f : RawFrame)
  | command (id : Int) (cmd : Command)
  | gap (connId recvMonoNs recvWallNs : Int) (sid : Sid) (expectedSeq gotSeq : Int)
  | connection (event detail : String)

/-- What a supervisor counts. -/
structure Stats where
  frames : Nat := 0
  decodeErrors : Nat := 0
  gaps : Nat := 0
  duplicates : Nat := 0
  snapshotsRequested : Nat := 0
  bookErrors : Nat := 0
  errorsByCode : Dict Int Nat := ∅

/-- What one connection knows of its group, its books and its subscriptions. -/
structure Supervisor where
  config : SupervisorConfig
  desired : Option Group
  books : Dict Ticker Book
  session : Option Session
  tracker : GapTracker
  applied : Option Group
  subscriptions : Dict Sid SubscriptionInfo
  channelOfSid : Dict Sid String
  pending : Dict Int PendingSubscribe
  resyncing : Dict Sid (Finset Ticker)
  reconcileDeferred : Bool
  firehoseRequested : Bool
  framesThisConnection : Nat
  stats : Stats
  tape : List TapeRecord
  sent : List (Int × Command)
  emitted : List MarketEvent

/-- `_tickers_of`. -/
def tickersOf : Option Group → Finset Ticker
  | none => ∅
  | some g => g.tickers

/-- `_plan_of`: the plan of at most one group. -/
def planOf : Option Group → Plan
  | none => ⟨[]⟩
  | some g => ⟨[g]⟩

namespace Supervisor

/-- `ConnectionSupervisor.__init__`. -/
def new (config : SupervisorConfig) : Supervisor :=
  { config, desired := none, books := ∅, session := none, tracker := GapTracker.new,
    applied := none, subscriptions := ∅, channelOfSid := ∅, pending := ∅, resyncing := ∅,
    reconcileDeferred := false, firehoseRequested := false, framesThisConnection := 0,
    stats := {}, tape := [], sent := [], emitted := [] }

/-! ## Outputs -/

/-- `_put`: a live-only connection writes nothing. -/
def put (s : Supervisor) (r : TapeRecord) : Supervisor :=
  { s with tape := if s.config.persist then s.tape ++ [r] else s.tape }

/-- An event is passed on. -/
def emit (s : Supervisor) (e : MarketEvent) : Supervisor :=
  { s with emitted := s.emitted ++ [e] }

/-- `_send`: the next command id, the command on the wire, its record. -/
def send (s : Supervisor) (cmd : Command) : Supervisor × Except Failure Int :=
  match s.session with
  | none => (s, .error .closed)
  | some session =>
      if session.isOpen then
        let id := session.nextCommandId
        let s := { s with session := some { session with nextCommandId := id + 1 },
                          sent := s.sent ++ [(id, cmd)] }
        (s.put (.command id cmd), .ok id)
      else (s, .error .closed)

/-- A frame could not be decoded. -/
def decodeError (s : Supervisor) : Supervisor :=
  { s with stats := { s.stats with decodeErrors := s.stats.decodeErrors + 1 } }

/-- A change was refused by its book. -/
def bookError (s : Supervisor) : Supervisor :=
  { s with stats := { s.stats with bookErrors := s.stats.bookErrors + 1 } }

/-! ## Books -/

/-- Whether a sid is a live orderbook subscription of this connection. -/
def isBookSid (s : Supervisor) (sid : Sid) : Bool :=
  match s.subscriptions.get? sid with
  | none => false
  | some info => info.channel = orderbookChannel

/-- The test of `_book_for`. -/
def mayTouch (s : Supervisor) (sid : Sid) (ticker : Ticker) : Bool :=
  s.isBookSid sid ∧ ticker ∈ tickersOf s.applied

/-- The books of some markets are no longer right. -/
def markStale (s : Supervisor) (tickers : Finset Ticker) : Supervisor :=
  { s with books := s.books.mapValues fun t b => if t ∈ tickers then b.markStale else b }

/-- `_request_snapshot`, up to its send: the command, if some market is not
awaiting a snapshot already. -/
def requestSnapshot (s : Supervisor) (sid : Sid) (tickers : Finset Ticker) :
    Supervisor × Option Command :=
  let awaiting := s.resyncing.getD sid ∅
  let wanted := tickers \ awaiting
  if wanted = ∅ then ({ s with resyncing := s.resyncing.set sid awaiting }, none)
  else
    ({ s with
        resyncing := s.resyncing.set sid (awaiting ∪ wanted)
        stats := { s.stats with snapshotsRequested := s.stats.snapshotsRequested + 1 } },
      some (.updateSubscription sid .getSnapshot (sortedTickers wanted)))

/-- A market's snapshot is awaited no longer. -/
def finishResync (s : Supervisor) (sid : Sid) (ticker : Ticker) : Supervisor :=
  { s with
    resyncing :=
      match s.resyncing.get? sid with
      | none => s.resyncing
      | some awaiting =>
          if awaiting.erase ticker = ∅ then s.resyncing.erase sid
          else s.resyncing.set sid (awaiting.erase ticker) }

/-- `self._resyncing.pop(sid, None)`. -/
def popResyncing (s : Supervisor) (sid : Sid) : Supervisor :=
  { s with resyncing := s.resyncing.erase sid }

/-- `_resync_connection`, up to its send. -/
def resyncConnection (s : Supervisor) (sid : Sid) (askAgain : Bool) :
    Supervisor × Option Command :=
  match s.applied with
  | none => (s, none)
  | some applied =>
      if s.isBookSid sid then
        let staled := s.markStale applied.tickers
        (if askAgain then staled.popResyncing sid else staled).requestSnapshot
          sid applied.tickers
      else (s, none)

/-- The counter, the record and the event of a gap. -/
def reportGap (s : Supervisor) (sid : Sid) (expected got : Int) (receipt : Receipt) :
    Supervisor :=
  { s with stats := { s.stats with gaps := s.stats.gaps + 1 } }
    |>.put (.gap receipt.connId receipt.recvMonoNs receipt.recvWallNs sid expected got)
    |>.emit (.gap { receipt, sid, expectedSeq := expected, gotSeq := got })

/-- `_on_gap`, up to its send. The hole may have swallowed a snapshot already
requested, so every market is asked for. -/
def onGap (s : Supervisor) (sid : Sid) (expected got : Int) (receipt : Receipt) :
    Supervisor × Option Command :=
  (s.reportGap sid expected got receipt).resyncConnection sid true

/-- A number did not advance. -/
def countDuplicate (s : Supervisor) : Supervisor :=
  { s with stats := { s.stats with duplicates := s.stats.duplicates + 1 } }

/-- `_on_duplicate`, up to its send. -/
def onDuplicate (s : Supervisor) (sid : Sid) : Supervisor × Option Command :=
  s.countDuplicate.resyncConnection sid false

/-- The book of a market is replaced. -/
def setBook (s : Supervisor) (ticker : Ticker) (book : Book) : Supervisor :=
  { s with books := s.books.set ticker book }

/-- `_on_snapshot`, after the conversion. -/
def onSnapshot (s : Supervisor) (snapshot : BookSnapshot) : Supervisor :=
  let s := s.finishResync snapshot.sid snapshot.ticker
  if s.mayTouch snapshot.sid snapshot.ticker then
    let book := s.books.getD snapshot.ticker (Book.new snapshot.ticker)
    match book.applySnapshot snapshot.bids snapshot.asks snapshot.tsMs with
    | (book, .error _) => (s.setBook snapshot.ticker book).bookError
    | (book, .ok ()) => (s.setBook snapshot.ticker book).emit (.snapshot snapshot)
  else s

/-- `_on_delta`, after the conversion and up to its send. -/
def onDelta (s : Supervisor) (delta : BookDelta) : Supervisor × Option Command :=
  if s.mayTouch delta.sid delta.ticker then
    match s.books.get? delta.ticker with
    | none => (s, none)
    | some book =>
        match book.applyDelta delta.side delta.price delta.delta delta.tsMs with
        | (book, .error _) =>
            (s.setBook delta.ticker book).bookError.requestSnapshot delta.sid {delta.ticker}
        | (book, .ok true) => ((s.setBook delta.ticker book).emit (.delta delta), none)
        | (book, .ok false) => (s.setBook delta.ticker book, none)
  else (s, none)

/-! ## Frames -/

/-- What a handler waits for; or the exception it ends with. -/
inductive Wait where
  | nothing
  | send (cmd : Command)
  | lock
  | raise (what : String)
  deriving DecidableEq

/-- What a handler waits for: its request, if it makes one. -/
def Wait.ofRequest : Option Command → Wait
  | none => .nothing
  | some cmd => .send cmd

/-- The verdict on a frame of a subscription. A snapshot that is awaited
becomes the new baseline, whatever its number. -/
def judgeFrame (s : Supervisor) (sid : Sid) (env : Envelope) : GapTracker × GapVerdict :=
  let awaited := env.body.isSnapshot && s.resyncing.contains sid
  (if awaited then s.tracker.reset sid else s.tracker).observe sid env.seq

/-- The sequence check of `_on_frame`, up to the send of a resynchronization. -/
def checkSequence (s : Supervisor) (env : Envelope) (receipt : Receipt) :
    Supervisor × Option Command :=
  match env.sid with
  | none => (s, none)
  | some sid =>
      let judged := { s with tracker := (s.judgeFrame sid env).1 }
      match (s.judgeFrame sid env).2 with
      | .gap expected got => judged.onGap sid expected got receipt
      | .duplicate _ _ => judged.onDuplicate sid
      | _ => (judged, none)

/-- The `except` around `_dispatch`, which names two exceptions: the overflow
of a number is neither. -/
def notDecoded (s : Supervisor) : ConvertError → Supervisor × Wait
  | .numeral .overflow => (s, .raise "decimal.Overflow")
  | _ => (s.decodeError, .nothing)

/-- What an error frame changes before the lock: its counter, and the requests
it may have refused. -/
def countErrorFrame (s : Supervisor) (code : Int) (sid : Option Sid) : Supervisor :=
  let codes := s.stats.errorsByCode
  { s with
    stats := { s.stats with errorsByCode := codes.set code (codes.getD code 0 + 1) }
    resyncing :=
      match sid with
      | none => s.resyncing
      | some sid => s.resyncing.erase sid }

/-- `_dispatch` and the `except` around it, up to the first send or the lock. -/
def dispatch (s : Supervisor) (env : Envelope) (receipt : Receipt) : Supervisor × Wait :=
  match env.body with
  | .orderbookSnapshot msg =>
      match readSnapshot msg env receipt s.config.useYesPrice with
      | .error e => s.notDecoded e
      | .ok snapshot => (s.onSnapshot snapshot, .nothing)
  | .orderbookDelta msg =>
      match readDelta msg env receipt s.config.useYesPrice with
      | .error e => s.notDecoded e
      | .ok delta =>
          let (s, request) := s.onDelta delta
          (s, Wait.ofRequest request)
  | .market event =>
      match event with
      | .error e => s.notDecoded e
      | .ok e => (s.emit (.other e), .nothing)
  | .subscribed msg =>
      match msg with
      | .error e => s.notDecoded (.wire e)
      | .ok _ => (s, .lock)
  | .ok _ => (s, .lock)
  | .unsubscribed =>
      match env.sid with
      | none => (s, .nothing)
      | some sid => ({ s with tracker := s.tracker.forget sid }, .nothing)
  | .error msg =>
      match msg with
      | .error e => s.notDecoded (.wire e)
      | .ok m =>
          let s := s.countErrorFrame m.code env.sid
          (s, if env.id = none then .nothing else .lock)
  | .uninterpreted _ => (s, .nothing)

/-- The counters and the record of a frame. -/
def countFrame (s : Supervisor) (f : RawFrame) : Supervisor :=
  { s with
    framesThisConnection := s.framesThisConnection + 1
    stats := { s.stats with frames := s.stats.frames + 1 } }.put (.frame f)

/-- The receipt of a frame. -/
def receiptOf (s : Supervisor) (f : RawFrame) : Receipt :=
  ⟨s.config.connId, f.recvMonoNs, f.recvWallNs⟩

/-- The start of `_on_frame`: the record, the envelope, the sequence check. -/
def receiveFrame (s : Supervisor) (f : RawFrame) :
    Supervisor × Option (Envelope × Option Command) :=
  match f.payload with
  | .error _ => ((s.countFrame f).decodeError, none)
  | .ok env =>
      let checked := (s.countFrame f).checkSequence env (s.receiptOf f)
      (checked.1, some (env, checked.2))

/-! ## Subscriptions -/

/-- `_answer`. -/
def answer (s : Supervisor) (commandId : Int) (pending : PendingSubscribe) (sid : Sid)
    (channel : String) : Supervisor :=
  let left := { pending with channels := pending.channels.erase channel }
  { s with
    subscriptions := s.subscriptions.set sid ⟨sid, channel, pending.groupId⟩
    pending :=
      if left.channels = ∅ then s.pending.erase commandId
      else s.pending.set commandId left }

/-- `_fresh`. -/
def fresh (s : Supervisor) (ticker : Ticker) : Bool :=
  match s.books.get? ticker with
  | none => false
  | some book => !book.stale

/-- `_adopt_membership`, up to its send. -/
def adoptMembership (s : Supervisor) (groupId : String) (sid : Sid) (channel : String)
    (marketTickers : Option (List Ticker)) : Supervisor × Option Command :=
  match marketTickers, s.applied with
  | some (t :: ts), some applied =>
      if applied.groupId ≠ groupId then (s, none)
      else
        let merged := (t :: ts).toFinset
        let s :=
          if merged ≠ applied.tickers then
            { s with applied := some { applied with tickers := merged }
                     reconcileDeferred := true }
          else s
        if channel ≠ orderbookChannel then (s, none)
        else
          s.requestSnapshot sid ((merged ∩ tickersOf s.desired).filter fun t => !s.fresh t)
  | _, _ => (s, none)

/-- What follows a handler's work under the lock: nothing, or
`_resume_reconcile` after the send of a request, if there is one. -/
inductive Locked where
  | release
  | resume (request : Option Command)
  deriving DecidableEq

/-- `_on_subscribed`, `_on_ok` and `_on_error` with the lock held. -/
def withLock (s : Supervisor) (env : Envelope) : Supervisor × Locked :=
  match env.body with
  | .subscribed (.ok msg) =>
      let s := { s with channelOfSid := s.channelOfSid.set msg.sid msg.channel }
      match env.id with
      | none => (s, .release)
      | some id =>
          match s.pending.get? id with
          | none => (s, .release)
          | some pending => (s.answer id pending msg.sid msg.channel, .resume none)
  | .ok msg =>
      match env.id with
      | none => (s, .release)
      | some id =>
          match s.pending.get? id, env.sid with
          | some pending, some sid =>
              match s.channelOfSid.get? sid with
              | none => (s, .release)
              | some channel =>
                  if channel ∉ pending.channels then (s, .release)
                  else
                    match msg with
                    | .error _ => (s.decodeError, .release)
                    | .ok m =>
                        let s := s.answer id pending sid channel
                        let (s, request) :=
                          s.adoptMembership pending.groupId sid channel m.marketTickers
                        (s, .resume request)
          | _, _ => (s, .release)
  | .error (.ok _) =>
      match env.id with
      | none => (s, .release)
      | some id =>
          match s.pending.get? id with
          | none => (s, .release)
          | some pending =>
              let s := { s with pending := s.pending.erase id }
              if pending.groupId = firehoseGroupId then
                ({ s with firehoseRequested := false }, .resume none)
              else if s.subscriptions.values.all fun info => info.groupId ≠ pending.groupId then
                ({ s with applied := none }, .resume none)
              else (s, .resume none)
  | _ => (s, .release)

/-- `_subscribing`. -/
def subscribing (s : Supervisor) (groupId : String) : Bool :=
  s.pending.values.any fun p => p.groupId = groupId

/-- `_sid_of`. -/
def sidOf (s : Supervisor) : Dict String (List Sid) :=
  (s.subscriptions.entries.insertionSort fun x y => x.1 ≤ y.1).foldl
    (fun d e => d.set e.2.groupId (d.getD e.2.groupId [] ++ [e.1])) ∅

/-- `_release_books`. -/
def releaseBooks (s : Supervisor) (tickers : Finset Ticker) : Supervisor :=
  let wanted := tickersOf s.desired
  { s with
    books :=
      (s.books.filter fun t _ => !(t ∈ tickers ∧ t ∉ wanted)).mapValues fun t b =>
        if t ∈ tickers then b.markStale else b }

/-- `_prune_books`. -/
def pruneBooks (s : Supervisor) : Supervisor :=
  { s with books := s.books.filter fun t _ => t ∈ tickersOf s.desired ∪ tickersOf s.applied }

/-- `_record_change`. -/
def recordChange (s : Supervisor) : PlanChange → Supervisor × Option Failure
  | .addGroup group => ({ s with applied := some group }, none)
  | .removeGroup groupId =>
      match s.applied with
      | none => (s, some (.uncaught "no applied group"))
      | some group =>
          if group.groupId ≠ groupId then (s, some (.uncaught "no applied group"))
          else
            let gone := (s.subscriptions.filter fun _ info => info.groupId = groupId).keys
            let s := { s with
              applied := none
              subscriptions := s.subscriptions.filter fun _ info => !(info.groupId = groupId)
              resyncing := s.resyncing.filter fun sid _ => !(sid ∈ gone) }
            (s.releaseBooks group.tickers, none)
  | .addMarkets groupId tickers =>
      match s.applied with
      | none => (s, some (.uncaught "no applied group"))
      | some group =>
          if group.groupId ≠ groupId then (s, some (.uncaught "no applied group"))
          else
            ({ s with applied := some { group with
                tickers := group.tickers ∪ tickers.toFinset } }, none)
  | .removeMarkets groupId tickers =>
      match s.applied with
      | none => (s, some (.uncaught "no applied group"))
      | some group =>
          if group.groupId ≠ groupId then (s, some (.uncaught "no applied group"))
          else
            let s := { s with applied := some { group with
              tickers := group.tickers \ tickers.toFinset } }
            (s.releaseBooks tickers.toFinset, none)

/-- `_await_replies`, without the deadline task. -/
def awaitReplies (s : Supervisor) (commandId : Int) (groupId : String)
    (channels : List String) : Supervisor :=
  { s with pending := s.pending.set commandId ⟨groupId, channels.toFinset⟩ }

/-- The pieces of the difference from the applied to the desired group. -/
def pieces (s : Supervisor) : List PlanChange :=
  (diff (planOf s.applied) (planOf s.desired)).flatMap
    (splitChange s.config.maxMarketsPerCommand)

/-- Whether a piece has to wait for the replies of a subscribe of its group. -/
def mustDefer (s : Supervisor) : PlanChange → Bool
  | .addMarkets groupId _ => s.subscribing groupId
  | .removeMarkets groupId _ => s.subscribing groupId
  | _ => false

/-- The commands of a piece, as the reconciliation asks the planner for them. -/
def pieceCommands (s : Supervisor) (piece : PlanChange) : Except PlanError (List Command) :=
  let channels := s.config.groupChannels
  toCommands [piece] channels
    (if orderbookChannel ∈ channels then some s.config.useYesPrice else none) s.sidOf

/-- What follows the send of a command of a piece. -/
def afterCommand (s : Supervisor) (piece : PlanChange) (commandId : Int) : Supervisor :=
  match piece with
  | .addGroup group => s.awaitReplies commandId group.groupId s.config.groupChannels
  | _ => s

/-- The guards of `_reconcile_locked`: closed, deferred, or on with it. -/
def reconcileGuard (s : Supervisor) : Supervisor × Bool :=
  match s.session with
  | none => (s, false)
  | some session =>
      if !session.isOpen then (s, false)
      else if !s.pending.isEmpty then ({ s with reconcileDeferred := true }, false)
      else (s, true)

/-! ## Runs in which every send returns at once -/

/-- Send a request, if there is one. -/
def sendRequest (s : Supervisor) : Option Command → Supervisor × Option Failure
  | none => (s, none)
  | some cmd =>
      match s.send cmd with
      | (s, .error e) => (s, some e)
      | (s, .ok _) => (s, none)

/-- The commands of a piece, then its record. -/
def sendPiece (s : Supervisor) (piece : PlanChange) : List Command → Supervisor × Option Failure
  | [] => s.recordChange piece
  | cmd :: rest =>
      match s.send cmd with
      | (s, .error e) => (s, some e)
      | (s, .ok id) => sendPiece (s.afterCommand piece id) piece rest

/-- The changes one after another, until one is deferred or fails. -/
def reconcilePieces (s : Supervisor) : List PlanChange → Supervisor × Option Failure
  | [] => (s, none)
  | piece :: later =>
      if s.mustDefer piece then ({ s with reconcileDeferred := true }, none)
      else
        match s.pieceCommands piece with
        | .error _ => (s, some (.uncaught "planner"))
        | .ok commands =>
            match s.sendPiece piece commands with
            | (s, some e) => (s, some e)
            | (s, none) => reconcilePieces s later

/-- What was wanted is subscribed to, under the lock. -/
def reconcileLocked (s : Supervisor) : Supervisor × Option Failure :=
  match s.reconcileGuard with
  | (s, false) => (s, none)
  | (s, true) =>
      if s.config.firehoseChannels ≠ [] ∧ !s.firehoseRequested then
        match { s with firehoseRequested := true }.send
            (.subscribe s.config.firehoseChannels none none) with
        | (s, .error e) => (s, some e)
        | (s, .ok id) =>
            let s := s.awaitReplies id firehoseGroupId s.config.firehoseChannels
            s.reconcilePieces s.pieces
      else s.reconcilePieces s.pieces

/-- `_resume_reconcile`. -/
def resumeReconcile (s : Supervisor) : Supervisor × Option Failure :=
  if s.reconcileDeferred ∧ s.pending.isEmpty then
    { s with reconcileDeferred := false }.reconcileLocked
  else (s, none)

/-- A handler's work under the lock, to its end. -/
def onReply (s : Supervisor) (env : Envelope) : Supervisor × Option Failure :=
  match s.withLock env with
  | (s, .release) => (s, none)
  | (s, .resume request) =>
      match s.sendRequest request with
      | (s, some e) => (s, some e)
      | (s, none) => s.resumeReconcile

/-- The dispatch of a frame, to its end. -/
def handle (s : Supervisor) (env : Envelope) (receipt : Receipt) :
    Supervisor × Option Failure :=
  match s.dispatch env receipt with
  | (s, .nothing) => (s, none)
  | (s, .send cmd) => s.sendRequest (some cmd)
  | (s, .lock) => s.onReply env
  | (s, .raise what) => (s, some (.uncaught what))

/-- `_on_frame`. -/
def onFrame (s : Supervisor) (f : RawFrame) : Supervisor × Option Failure :=
  match s.receiveFrame f with
  | (s, none) => (s, none)
  | (s, some (env, request)) =>
      match s.sendRequest request with
      | (s, some e) => (s, some e)
      | (s, none) => s.handle env (s.receiptOf f)

/-! ## The life of a connection -/

/-- What was known of the connection is forgotten; the books are kept. -/
def forgetConnection (s : Supervisor) : Supervisor :=
  { s with
    session := none, tracker := GapTracker.new, applied := none, subscriptions := ∅,
    channelOfSid := ∅, pending := ∅, resyncing := ∅, reconcileDeferred := false,
    firehoseRequested := false, framesThisConnection := 0 }

/-- `_begin_connection`, with a session that is open. -/
def beginConnection (s : Supervisor) : Supervisor :=
  { s.forgetConnection with session := some ⟨true, 1⟩ }

/-- `_end_connection` of a connection that was open. -/
def endConnection (s : Supervisor) (detail : String) : Supervisor :=
  let s := s.forgetConnection.put (.connection "close" detail)
  { s with books := s.books.mapValues fun _ b => b.markStale }

end Supervisor

end Tape
