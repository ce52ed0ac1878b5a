import Tape.Api.Session

/-!
# The bus follower and its sessions

`LiveHub` over the copies of `LiveBooks`: sessions come and go, name the
markets they follow, and are offered what each bus message means for these
markets. The sessions themselves are kept by the number of their admission, so
that a session that left is still there to be called.

An act is one stretch of the event loop. The readings of the clock come with
it, one for each session where several may read it.
-/

namespace Tape.Api

/-- Sessions are numbered as they are admitted. -/
abbrev SessionId := Nat

/-- What the hub takes from the settings. -/
structure ServeConfig where
  maxClients : Nat
  maxTickers : Nat
  clientQueueMax : Nat
  busRefreshS : Nat
  deriving DecidableEq, Repr

/-- `[serve]` and the refresh interval of `[recorder]`, within their ranges. -/
structure ServeSettings where
  maxClients : Nat
  maxTickersPerClient : Nat
  clientQueueMax : Nat
  busRefreshS : Nat
  clients : 1 ≤ maxClients ∧ maxClients ≤ 1000
  tickers : 1 ≤ maxTickersPerClient ∧ maxTickersPerClient ≤ 50
  queue : 100 ≤ clientQueueMax ∧ clientQueueMax ≤ 100000
  refresh : 1 ≤ busRefreshS ∧ busRefreshS ≤ 60

/-- The hub's part of settings that were accepted. -/
def serveConfig (settings : ServeSettings) : ServeConfig where
  maxClients := settings.maxClients
  maxTickers := settings.maxTickersPerClient
  clientQueueMax := settings.clientQueueMax
  busRefreshS := settings.busRefreshS

/-- The copies of the books, the markets, and the sessions with what each
follows. -/
structure LiveHub where
  config : ServeConfig
  live : LiveBooks
  /-- The directory's markets. -/
  entries : Dict Ticker CatalogEntry
  /-- Dictionaries used as ordered sets. -/
  sessions : Dict SessionId Unit
  followers : Dict Ticker (Dict SessionId Unit)
  malformed : Nat
  /-- Every session ever admitted, and how many these are. -/
  session : SessionId → ClientSession
  opened : Nat

/-- The loop of `subscribe` over the markets asked for: accepted and rejected. -/
def sortOut (entries : Dict Ticker CatalogEntry) (maxTickers : Nat) :
    List Ticker → List Ticker → List Rejection → List Ticker × List Rejection
  | [], accepted, rejected => (accepted, rejected)
  | ticker :: rest, accepted, rejected =>
      if ¬ entries.contains ticker then
        sortOut entries maxTickers rest accepted (rejected ++ [⟨ticker, rejectUnknownTicker⟩])
      else if accepted.length ≥ maxTickers then
        sortOut entries maxTickers rest accepted (rejected ++ [⟨ticker, rejectTooManyTickers⟩])
      else sortOut entries maxTickers rest (accepted ++ [ticker]) rejected

/-- `dict.fromkeys`: each once, where it comes first. -/
def fromKeys (tickers : List Ticker) : List Ticker := tickers.reverse.dedup.reverse

namespace LiveHub

/-- A hub without sessions. -/
def new (config : ServeConfig) : LiveHub where
  config := config
  live := .new
  entries := ∅
  sessions := ∅
  followers := ∅
  malformed := 0
  session _ := { queueMax := config.clientQueueMax }
  opened := 0

/-- One session is replaced. -/
def setSession (h : LiveHub) (id : SessionId) (s : ClientSession) : LiveHub :=
  { h with session := Function.update h.session id s }

/-- The whole book of a market as the hub holds it now. -/
def snapshot (h : LiveHub) (ticker : Ticker) : Option ServerMessage :=
  (h.live.books.get? ticker).map fun book =>
    .snapshot ticker (.of book) book.lastTsMs (book.levels .bid) (book.levels .ask)

/-- Messages are put in a session's queue. -/
def offer (h : LiveHub) (id : SessionId) (nowNs : Int) (messages : List ServerMessage) : LiveHub :=
  h.setSession id ((h.session id).offer h.snapshot nowNs messages)

/-- The first message of a session. -/
def hello (h : LiveHub) : ServerMessage :=
  .hello protocolVersion h.config.maxTickers h.config.busRefreshS

/-- `admit`. -/
def admitSession (h : LiveHub) (nowNs : Int) : LiveHub :=
  if h.sessions.size ≥ h.config.maxClients then h
  else
    let id := h.opened
    let h := { h with sessions := h.sessions.set id (), opened := h.opened + 1 }
    h.offer id nowNs [h.hello]

/-- `_unfollow`. -/
def unfollow (followers : Dict Ticker (Dict SessionId Unit)) (id : SessionId) (ticker : Ticker) :
    Dict Ticker (Dict SessionId Unit) :=
  match followers.get? ticker with
  | none => followers
  | some of =>
      if (of.erase id).isEmpty then followers.erase ticker else followers.set ticker (of.erase id)

/-- `self._followers.setdefault(ticker, {})[session] = None`. -/
def follow (followers : Dict Ticker (Dict SessionId Unit)) (id : SessionId) (ticker : Ticker) :
    Dict Ticker (Dict SessionId Unit) :=
  followers.set ticker ((followers.getD ticker ∅).set id ())

/-- A session ends: it is no longer a follower. -/
def detach (h : LiveHub) (id : SessionId) : LiveHub :=
  { h with
    sessions := h.sessions.erase id
    followers := (h.session id).subscriptions.foldl (fun f t => unfollow f id t) h.followers }

/-- `close_sessions`. -/
def closeSessions (h : LiveHub) (code : Nat) : LiveHub :=
  h.sessions.keys.foldl (fun h id => h.setSession id ((h.session id).close code)) h

/-- The markets accepted of those asked for. -/
def accepts (h : LiveHub) (tickers : List Ticker) : List Ticker :=
  (sortOut h.entries h.config.maxTickers (fromKeys tickers) [] []).1

/-- The markets a subscribe names in vain. -/
def rejects (h : LiveHub) (tickers : List Ticker) : List Rejection :=
  (sortOut h.entries h.config.maxTickers (fromKeys tickers) [] []).2

/-- The subscription set of a session replaced, and the index of followers. -/
def resubscribe (h : LiveHub) (id : SessionId) (accepted : List Ticker) : LiveHub :=
  let previous := (h.session id).subscriptions
  let followers := (previous.filter (· ∉ accepted)).foldl (fun f t => unfollow f id t) h.followers
  let followers := accepted.foldl (fun f t => follow f id t) followers
  { h with followers }.setSession id ((h.session id).replaceSubscriptions accepted)

/-- The reply to a subscribe, and the snapshots of the markets new to the session. -/
def subscribeMessages (h : LiveHub) (id : SessionId) (tickers : List Ticker) :
    List ServerMessage :=
  .subscribed (h.accepts tickers) (h.rejects tickers) ::
    (h.accepts tickers).filterMap fun ticker =>
      if ticker ∈ (h.session id).subscriptions then none else h.snapshot ticker

/-- The session follows the markets accepted, and is told what it needs to know
of them. -/
def subscribe (h : LiveHub) (id : SessionId) (tickers : List Ticker) (nowNs : Int) : LiveHub :=
  (h.resubscribe id (h.accepts tickers)).offer id nowNs (h.subscribeMessages id tickers)

/-! ## The bus -/

/-- `_update_directory`, as far as the hub asks the directory. -/
def updateDirectory (h : LiveHub) : BusEvent → LiveHub
  | .catalog catalog =>
      { h with entries := catalog.markets.foldl (fun d entry => d.set entry.ticker entry) ∅ }
  | _ => h

/-- The messages for each session. -/
abbrev Outbox := Dict SessionId (List ServerMessage)

/-- `send` of `_fan_out`. -/
def send (h : LiveHub) (outbox : Outbox) (ticker : Ticker) (message : ServerMessage) : Outbox :=
  (h.followers.getD ticker ∅).keys.foldl
    (fun outbox id => outbox.set id (outbox.getD id [] ++ [message])) outbox

/-- What a status change of a followed market is announced with. -/
def announcement (h : LiveHub) (change : StatusChange) : Option ServerMessage :=
  if change.after = .unknown then some (.resync change.ticker resyncBusLoss)
  else if change.before = .unknown ∨ change.after = .fresh then h.snapshot change.ticker
  else some (.book change.ticker .stale)

/-- A snapshot goes out with the change. -/
def snapshots (h : LiveHub) (change : StatusChange) : Bool :=
  change.after ≠ .unknown ∧ (change.before = .unknown ∨ change.after = .fresh) ∧
    (h.snapshot change.ticker).isSome

/-- The loop of `_fan_out` over the changes. -/
def announce (h : LiveHub) : List StatusChange → Outbox → List Ticker → Outbox × List Ticker
  | [], outbox, snapshotted => (outbox, snapshotted)
  | change :: rest, outbox, snapshotted =>
      if ¬ h.followers.contains change.ticker then h.announce rest outbox snapshotted
      else
        let snapshotted := if h.snapshots change then snapshotted ++ [change.ticker]
          else snapshotted
        match h.announcement change with
        | none => h.announce rest outbox snapshotted
        | some message => h.announce rest (h.send outbox change.ticker message) snapshotted

/-- `_book_message`. -/
def bookMessage (h : LiveHub) (snapshotted : List Ticker) : BookEvent → Option ServerMessage
  | .delta e => some (.delta e.ticker e.tsMs e.side e.price e.delta)
  | .snapshot e => if e.ticker ∈ snapshotted then none else h.snapshot e.ticker

/-- `_event_message`, with the market it is about. -/
def eventMessage (h : LiveHub) (applied : Bool) (snapshotted : List Ticker) :
    BusEvent → Option (Ticker × ServerMessage)
  | .other e =>
      if h.followers.contains e.ticker then
        match e.kind with
        | .trade => some (e.ticker, .trade e)
        | .ticker => some (e.ticker, .ticker e)
        | .lifecycle => none
      else none
  | .book e =>
      if applied ∧ h.followers.contains e.ticker then
        (h.bookMessage snapshotted e).map fun message => (e.ticker, message)
      else none
  | _ => none

/-- What each follower is offered for one bus message. -/
def outbox (h : LiveHub) (observation : Observation) (event : BusEvent) : Outbox :=
  let (outbox, snapshotted) := h.announce observation.changes ∅ []
  match h.eventMessage observation.applied snapshotted event with
  | none => outbox
  | some (ticker, message) => h.send outbox ticker message

/-- Every session is offered its messages. -/
def offerAll (h : LiveHub) (nowNs : SessionId → Int) (outbox : Outbox) : LiveHub :=
  outbox.entries.foldl (fun h e => h.offer e.1 (nowNs e.1) e.2) h

/-- `_fan_out`. -/
def fanOut (h : LiveHub) (nowNs : SessionId → Int) (observation : Observation)
    (event : BusEvent) : LiveHub :=
  h.offerAll nowNs (h.outbox observation event)

/-- The hub once a bus message is observed, before anything is offered. -/
def observed (h : LiveHub) (envelope : BusEnvelope) : LiveHub :=
  { h with live := (h.live.observe envelope).1 }.updateDirectory envelope.event

/-- A message of the bus; `none` does not decode. -/
def receive (h : LiveHub) (nowNs : SessionId → Int) : Option BusEnvelope → LiveHub
  | none => { h with malformed := h.malformed + 1 }
  | some envelope =>
      (h.observed envelope).fanOut nowNs (h.live.observe envelope).2 envelope.event

/-- `_read` and `_handle`: a frame of a client. -/
def handle (h : LiveHub) (id : SessionId) (size : Nat) (nowNs : Int) (frame : ClientFrame) :
    LiveHub :=
  let (s, within) := (h.session id).withinLimits size nowNs
  let h := h.setSession id s
  if ¬ within then h
  else
    match frame with
    | .subscribe tickers => h.subscribe id tickers nowNs
    | frame => h.offer id nowNs frame.complaint.toList

end LiveHub

/-- What may happen next. -/
inductive HubAct where
  | admitSession (nowNs : Int)
  | detach (id : SessionId)
  | closeSessions (code : Nat)
  | subscribe (id : SessionId) (tickers : List Ticker) (nowNs : Int)
  | handle (id : SessionId) (size : Nat) (nowNs : Int) (frame : ClientFrame)
  | take (id : SessionId)
  | lose (id : SessionId)
  | receive (message : Option BusEnvelope) (nowNs : SessionId → Int)

/-- The session a call is made on. -/
def HubAct.caller : HubAct → Option SessionId
  | .detach id => some id
  | .subscribe id _ _ => some id
  | .handle id _ _ _ => some id
  | .take id => some id
  | .lose id => some id
  | _ => none

namespace LiveHub

/-- One call of the hub. -/
def step (h : LiveHub) (act : HubAct) : LiveHub :=
  -- only sessions that were admitted can be called
  if act.caller.any (· ≥ h.opened) then h
  else
    match act with
    | .admitSession nowNs => h.admitSession nowNs
    | .detach id => h.detach id
    | .closeSessions code => h.closeSessions code
    | .subscribe id tickers nowNs => h.subscribe id tickers nowNs
    | .handle id size nowNs frame => h.handle id size nowNs frame
    | .take id => h.setSession id (h.session id).take
    | .lose id => h.setSession id (h.session id).lose
    | .receive message nowNs => h.receive nowNs message

/-! ## What a step leaves alone -/

section

variable (h : LiveHub) (id : SessionId) (nowNs : Int) (messages : List ServerMessage)

@[simp] theorem setSession_session (s : ClientSession) (j : SessionId) :
    (h.setSession id s).session j = if j = id then s else h.session j :=
  Function.update_apply _ _ _ _

@[simp] theorem offer_config : (h.offer id nowNs messages).config = h.config := rfl
@[simp] theorem offer_live : (h.offer id nowNs messages).live = h.live := rfl
@[simp] theorem offer_entries : (h.offer id nowNs messages).entries = h.entries := rfl
@[simp] theorem offer_sessions : (h.offer id nowNs messages).sessions = h.sessions := rfl
@[simp] theorem offer_followers : (h.offer id nowNs messages).followers = h.followers := rfl
@[simp] theorem offer_opened : (h.offer id nowNs messages).opened = h.opened := rfl
@[simp] theorem offer_snapshot : (h.offer id nowNs messages).snapshot = h.snapshot := rfl

theorem offer_session (j : SessionId) :
    (h.offer id nowNs messages).session j =
      if j = id then (h.session id).offer h.snapshot nowNs messages else h.session j :=
  h.setSession_session id _ j

end

/-- The offers of a fan-out: each session with messages gets its own. -/
structure OffersAll (h h' : LiveHub) (nowNs : SessionId → Int) (outbox : Outbox) : Prop where
  config : h'.config = h.config
  live : h'.live = h.live
  entries : h'.entries = h.entries
  sessions : h'.sessions = h.sessions
  followers : h'.followers = h.followers
  opened : h'.opened = h.opened
  session : ∀ id, h'.session id =
    match outbox.get? id with
    | none => h.session id
    | some messages => (h.session id).offer h.snapshot (nowNs id) messages

theorem offerAll_spec (h : LiveHub) (nowNs : SessionId → Int) (outbox : Outbox) :
    OffersAll h (h.offerAll nowNs outbox) nowNs outbox := by
  have hentries : ∀ (entries : List (SessionId × List ServerMessage)) (h : LiveHub)
      (hn : (entries.map Prod.fst).Nodup),
      OffersAll h (entries.foldl (fun h e => h.offer e.1 (nowNs e.1) e.2) h) nowNs
        ⟨entries, hn⟩ := by
    intro entries
    induction entries with
    | nil => exact fun h _ => ⟨rfl, rfl, rfl, rfl, rfl, rfl, fun _ => rfl⟩
    | cons e rest ih =>
        intro h hn
        obtain ⟨hout, hrest⟩ := List.nodup_cons.mp hn
        have hspec := ih (h.offer e.1 (nowNs e.1) e.2) hrest
        refine ⟨hspec.config, hspec.live, hspec.entries, hspec.sessions, hspec.followers,
          hspec.opened, fun id => ?_⟩
        have hsession := hspec.session id
        rw [offer_session, offer_snapshot] at hsession
        rw [List.foldl_cons, hsession]
        show _ = match Dict.lookup id (e :: rest) with
          | none => h.session id
          | some messages => (h.session id).offer h.snapshot (nowNs id) messages
        by_cases hid : id = e.1
        · subst hid
          have hnone : (⟨rest, hrest⟩ : Outbox).get? e.1 = none := Dict.get?_eq_none_iff.mpr hout
          rw [hnone, Dict.lookup]
          simp
        · rw [if_neg hid, Dict.lookup, if_neg fun heq => hid heq.symm]
          rfl
  exact hentries outbox.entries h outbox.nodup

@[simp] theorem updateDirectory_config (h : LiveHub) (event : BusEvent) :
    (h.updateDirectory event).config = h.config := by cases event <;> rfl
@[simp] theorem updateDirectory_sessions (h : LiveHub) (event : BusEvent) :
    (h.updateDirectory event).sessions = h.sessions := by cases event <;> rfl
@[simp] theorem updateDirectory_followers (h : LiveHub) (event : BusEvent) :
    (h.updateDirectory event).followers = h.followers := by cases event <;> rfl
@[simp] theorem updateDirectory_session (h : LiveHub) (event : BusEvent) :
    (h.updateDirectory event).session = h.session := by cases event <;> rfl
@[simp] theorem updateDirectory_opened (h : LiveHub) (event : BusEvent) :
    (h.updateDirectory event).opened = h.opened := by cases event <;> rfl
@[simp] theorem updateDirectory_live (h : LiveHub) (event : BusEvent) :
    (h.updateDirectory event).live = h.live := by cases event <;> rfl

/-- Closing the sessions closes each that is attached. -/
theorem closeSessions_spec (h : LiveHub) (code : Nat) :
    (h.closeSessions code).config = h.config ∧ (h.closeSessions code).sessions = h.sessions ∧
      (h.closeSessions code).followers = h.followers ∧
      (h.closeSessions code).opened = h.opened ∧ (h.closeSessions code).live = h.live ∧
      ∀ id, (h.closeSessions code).session id =
        if id ∈ h.sessions.keys then (h.session id).close code else h.session id := by
  have hkeys : ∀ (keys : List SessionId) (h : LiveHub), keys.Nodup →
      let h' := keys.foldl (fun h id => h.setSession id ((h.session id).close code)) h
      h'.config = h.config ∧ h'.sessions = h.sessions ∧ h'.followers = h.followers ∧
        h'.opened = h.opened ∧ h'.live = h.live ∧
        ∀ id, h'.session id = if id ∈ keys then (h.session id).close code else h.session id := by
    intro keys
    induction keys with
    | nil => exact fun h _ => ⟨rfl, rfl, rfl, rfl, rfl, fun _ => rfl⟩
    | cons key rest ih =>
        intro h hn
        obtain ⟨hout, hrest⟩ := List.nodup_cons.mp hn
        obtain ⟨hc, hs, hf, ho, hl, hsession⟩ :=
          ih (h.setSession key ((h.session key).close code)) hrest
        refine ⟨hc, hs, hf, ho, hl, fun id => ?_⟩
        rw [List.foldl_cons, hsession id, setSession_session]
        by_cases hid : id = key
        · subst hid
          rw [if_neg hout, if_pos rfl, if_pos List.mem_cons_self]
        · rw [if_neg hid]
          have hmem : id ∈ key :: rest ↔ id ∈ rest := by simp [hid]
          simp only [hmem]
  exact hkeys h.sessions.keys h h.sessions.nodup

end LiveHub

end Tape.Api
