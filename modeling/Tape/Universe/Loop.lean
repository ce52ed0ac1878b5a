import Tape.Recorder.Planning
import Tape.Universe.Select

/-!
# The universe loop

What `_universe_loop` of the recorder does with its state, between one await
and the next. A pass may refresh the whole universe, remove the markets that
closed, and list some groups again; a listing and the handing over of a plan
are awaited, and lifecycle events are noted while they are. So the state says
what is under way, and each action is one stretch without an await. The
readings of one stretch are one reading, except where the code compares two of
them.

What the exchange answers, when, and whether a retry comes soon or late, are
the actions' own: the loop is proved against all of them.
-/

namespace Tape.Universe

/-- Nanoseconds of a second. -/
def nsPerS : Int := 1000000000

/-- The delays and numbers of the loop. -/
def closeTickDelayS : Int := 3
def relistDebounceS : Int := 5
def relistMinIntervalS : Int := 30
def nearPriceFollowUps : Nat := 4
def firstBookConnId : Int := 2

/-- The recorder's configuration, as far as the loop reads it. -/
structure RecorderConfig where
  policy : UniversePolicy
  groupSize : Int
  bookConnections : Int
  universeRefreshS : Int
  sizes : 1 ≤ groupSize ∧ 1 ≤ bookConnections
  /-- `check_book_capacity`. -/
  capacity : (policy.maxL2Markets : Int) ≤ bookConnections * groupSize

/-- The series a group names, if it names some. -/
def UniverseGroup.series (group : UniverseGroup) : Option (List String) :=
  match group.selector with
  | .series names => some names
  | .category _ => none

/-- A lifecycle event, as far as the loop reads it. -/
structure LifecycleEvent where
  ticker : Ticker
  eventType : String
  closeTs : Option Int
  deriving DecidableEq, Repr

/-- `_ENDED`. -/
def endedTypes : List String := ["determined", "settled"]

/-- The lifecycle event that moves a close. -/
def closeDateUpdated : String := "close_date_updated"

/-- `_OPENED`. -/
def openedTypes : List String := ["created", "activated"]

/-- `series_of`. -/
def seriesOf (ticker : Ticker) : String := String.ofList (ticker.toList.takeWhile (· ≠ '-'))

/-- A listing that is asked for, and when it is due. -/
structure PendingRelist where
  dueNs : Int
  requestedNs : Int
  deriving DecidableEq, Repr

/-- How often an event was followed up. -/
structure FollowUp where
  attempts : Nat
  gaveUp : Bool
  deriving DecidableEq, Repr

/-- `MarketListing`, without what is only logged. -/
structure MarketListing where
  markets : List MarketSummary
  truncated : Bool
  deriving DecidableEq, Repr

/-- What a listing covers: every group, or some series groups, from the
decision the plan followed. -/
inductive Scope where
  | full
  | groups (names : List String) (previous : UniverseDecision)

/-- A listing that was started. -/
structure Listing where
  startedNs : Int
  scope : Scope

/-- What follows once a decision is applied. -/
inductive After where
  | listed (listing : Listing) (read : MarketListing)
  | removed

/-- What the loop is awaiting. -/
inductive Work where
  | idle
  | listing (listing : Listing)
  | applying (desired : Plan) (decision : UniverseDecision) (after : After)

/-- The plan, what it was decided from, and what the loop waits for. -/
structure UniverseLoop where
  plan : Plan
  /-- `_universe`. -/
  current : Option UniverseDecision
  connOf : Dict Ticker Int
  refreshDueNs : Int
  ended : Finset Ticker
  movedCloseTs : Dict Ticker Int
  relists : Dict String PendingRelist
  relistAllowedNs : Int
  followUps : Dict (String × String) FollowUp
  work : Work

/-- What the exchange and the clock do to the loop. -/
inductive Act where
  /-- The control connection's consumer. -/
  | lifecycle (event : LifecycleEvent) (monoNs : Int)
  /-- A step begins, and with it a listing, if it comes to one, at the second
  reading. -/
  | wake (monoNs wallNs startedNs : Int)
  /-- The listing arrived, and the categories of the series. -/
  | arrive (read : MarketListing) (categories : Dict String String) (wallNs : Int)
  | failed (monoNs retryInNs : Int)
  /-- Every connection has its group. -/
  | applied (monoNs startedNs : Int)

namespace UniverseLoop

/-- When `_start` refreshes the universe. -/
def start (startedNs : Int) : UniverseLoop where
  plan := ⟨[]⟩
  current := none
  connOf := ∅
  refreshDueNs := 0
  ended := ∅
  movedCloseTs := ∅
  relists := ∅
  relistAllowedNs := 0
  followUps := ∅
  work := .listing ⟨startedNs, .full⟩

/-! ## Markets as last reported -/

/-- `_as_last_reported`. -/
def asLastReported (s : UniverseLoop) (markets : List MarketSummary) : List MarketSummary :=
  (markets.filter fun m => m.ticker ∉ s.ended).map fun m =>
    match s.movedCloseTs.get? m.ticker with
    | none => m
    | some closeTs => { m with closeTs := some closeTs }

/-- The market has a connection. -/
def planned (s : UniverseLoop) (ticker : Ticker) : Bool := s.connOf.contains ticker

/-- An entry of the bus catalog. -/
structure CatalogEntry where
  ticker : Ticker
  seriesTicker : String
  eventTicker : String
  volume24h : Int
  closeTs : Option Int
  showcase : Bool
  deriving DecidableEq, Repr

/-- `_catalog`, of the latest decision. -/
def catalog (s : UniverseLoop) : Option (List CatalogEntry) :=
  s.current.map fun decision =>
    (decision.markets.filter fun m => m.ticker ∉ s.ended).map fun m =>
      { ticker := m.ticker, seriesTicker := m.seriesTicker, eventTicker := m.eventTicker,
        volume24h := m.volume24h,
        closeTs :=
          match s.movedCloseTs.get? m.ticker with
          | none => m.closeTs
          | some closeTs => some closeTs
        showcase := m.ticker ∈ decision.showcase }

/-! ## Requests -/

/-- `_request_relist`. -/
def requestRelist (s : UniverseLoop) (name : String) (dueNs nowNs : Int) : UniverseLoop :=
  let dueNs :=
    match s.relists.get? name with
    | none => dueNs
    | some pending => min pending.dueNs dueNs
  { s with relists := s.relists.set name ⟨dueNs, nowNs⟩ }

/-- The groups are to be listed again. -/
def requestRelists (s : UniverseLoop) (names : List String) (dueNs nowNs : Int) : UniverseLoop :=
  names.foldl (fun s name => s.requestRelist name dueNs nowNs) s

/-- `_forget_relists`: what was requested before the listing started. -/
def forgetRelists (s : UniverseLoop) (names : List String) (startedNs : Int) : UniverseLoop :=
  names.foldl (fun s name =>
    match s.relists.get? name with
    | none => s
    | some pending =>
        if pending.requestedNs ≤ startedNs then { s with relists := s.relists.erase name } else s) s

/-! ## Lifecycle events -/

/-- The series groups that name a series, in policy order. -/
def seriesGroups (policy : UniversePolicy) (series : String) : List String :=
  (policy.groups.filter fun group => series ∈ group.series.getD []).map UniverseGroup.name

/-- `_note_lifecycle`. -/
def noteLifecycle (c : RecorderConfig) (s : UniverseLoop) (event : LifecycleEvent)
    (monoNs : Int) : UniverseLoop :=
  if event.eventType ∈ endedTypes then
    if s.planned event.ticker then { s with ended := insert event.ticker s.ended } else s
  else if event.eventType = closeDateUpdated then
    match event.closeTs with
    | none => s
    | some closeTs =>
        if s.planned event.ticker then
          { s with movedCloseTs := s.movedCloseTs.set event.ticker closeTs }
        else s
  else if event.eventType ∈ openedTypes then
    s.requestRelists (seriesGroups c.policy (seriesOf event.ticker))
      (monoNs + relistDebounceS * nsPerS) monoNs
  else s

/-! ## Follow-ups of unpriced events -/

/-- `_admitted_events`. Every admitted market is among the decision's. -/
def admittedEvents (decision : UniverseDecision) : Dict (String × String) (List Ticker) :=
  let eventOf := decision.markets.foldl
    (fun d m => d.set m.ticker m.eventTicker) (∅ : Dict Ticker String)
  let admitted := decision.groups.flatMap fun selection =>
    selection.tickers.map fun ticker => (selection.name, ticker)
  (Dict.groupBy (fun e : String × Ticker => (e.1, eventOf.getD e.2 "")) admitted).mapValues
    fun _ group => (group.1 :: group.2).map Prod.snd

/-- `_follow_up_event`. -/
def followUpEvent (s : UniverseLoop) (key : String × String) (unpriced : List Ticker)
    (dueNs nowNs : Int) : UniverseLoop :=
  let held := s.followUps.get? key
  if unpriced = [] then { s with followUps := s.followUps.erase key }
  else if held.any FollowUp.gaveUp then s
  else
    let attempts := held.elim 0 FollowUp.attempts
    if attempts ≥ nearPriceFollowUps then
      { s with followUps := s.followUps.set key ⟨attempts, true⟩ }
    else
      { s with followUps := s.followUps.set key ⟨attempts + 1, false⟩ }.requestRelist key.1
        dueNs nowNs

/-- The near-price series groups among some groups. -/
def followedGroups (policy : UniversePolicy) (names : List String) : List String :=
  (policy.groups.filter fun group =>
    group.name ∈ names ∧ group.series.isSome ∧ group.marketOrder = .nearPrice).map
      UniverseGroup.name

/-- `_follow_up_unpriced`. -/
def followUpUnpriced (c : RecorderConfig) (s : UniverseLoop) (decision : UniverseDecision)
    (names : List String) (startedNs nowNs : Int) : UniverseLoop :=
  let followed := followedGroups c.policy names
  let summaries := byTicker decision.markets
  (admittedEvents decision).entries.foldl (fun s e =>
    if e.1.1 ∈ followed then
      s.followUpEvent e.1 (e.2.filter fun t => ((summaries.get? t).bind yesMid).isNone)
        (startedNs + relistMinIntervalS * nsPerS) nowNs
    else s) s

/-! ## Applying a decision -/

/-- The plan of `_apply_universe`; the sizes keep `plan` from raising. -/
def desiredPlan (c : RecorderConfig) (s : UniverseLoop) (decision : UniverseDecision) : Plan :=
  match Tape.plan (sortedTickers decision.l2Tickers) c.groupSize c.bookConnections
      (some s.plan) with
  | .error _ => s.plan
  | .ok desired => desired

/-- `_apply_universe`, up to its awaits. -/
def beginApply (c : RecorderConfig) (s : UniverseLoop) (decision : UniverseDecision)
    (after : After) : UniverseLoop :=
  { s with work := .applying (s.desiredPlan c decision) decision after }

/-- The connection of every market of a plan. -/
def connectionsOf (desired : Plan) : Dict Ticker Int :=
  desired.groups.foldl (fun d group =>
    (sortedTickers group.tickers).foldl (fun d t => d.set t (firstBookConnId + group.connId)) d) ∅

/-- `_apply_universe`, after its awaits. -/
def install (s : UniverseLoop) (desired : Plan) (decision : UniverseDecision) : UniverseLoop :=
  let connOf := connectionsOf desired
  let admitted := admittedEvents decision
  { s with
    plan := desired
    current := some decision
    connOf
    movedCloseTs := s.movedCloseTs.filter fun t _ => connOf.contains t
    followUps := s.followUps.filter fun key _ => admitted.contains key }

/-! ## Steps -/

/-- The markets of a decision that have not closed by a time. -/
def stillOpen (s : UniverseLoop) (previous : UniverseDecision) (nowTs : Int) : Finset Ticker :=
  ((s.asLastReported previous.markets).filter fun m =>
    match m.closeTs with
    | none => true
    | some closeTs => closeTs > nowTs).map MarketSummary.ticker |>.toFinset

/-- The series groups that lost one of some markets. -/
def emptiedGroups (c : RecorderConfig) (previous : UniverseDecision) (closed : List Ticker) :
    List String :=
  (c.policy.groups.filter fun group => group.series.isSome ∧
    ∃ t ∈ closed, previous.groupOf.get? t = some group.name).map UniverseGroup.name

/-- `_admitted_by_group`. -/
def admittedByGroup (decision : UniverseDecision) : Dict String (List Ticker) :=
  decision.groups.foldl (fun d selection => d.set selection.name selection.tickers) ∅

/-- The groups whose re-listing is due, in policy order. -/
def dueGroups (c : RecorderConfig) (s : UniverseLoop) (nowNs : Int) : List String :=
  (c.policy.groups.map UniverseGroup.name).filter fun name =>
    match s.relists.get? name with
    | none => false
    | some pending => pending.dueNs ≤ nowNs

/-- The rest of `_universe_step`, and the start of `_relist_or_log`. -/
def relistIfDue (c : RecorderConfig) (s : UniverseLoop) (current : UniverseDecision)
    (nowNs startedNs : Int) : UniverseLoop :=
  let due := s.dueGroups c nowNs
  if due ≠ [] ∧ nowNs ≥ s.relistAllowedNs then
    { s with
      relistAllowedNs := startedNs + relistMinIntervalS * nsPerS
      work := .listing ⟨startedNs, .groups due current⟩ }
  else { s with work := .idle }

/-- The decision of `_remove_closed_markets`. -/
def withoutClosed (c : RecorderConfig) (s : UniverseLoop) (previous : UniverseDecision)
    (nowTs : Int) : UniverseDecision :=
  select (s.asLastReported previous.markets)
    { policy := c.policy, nowTs, categories := ∅, pinned := admittedByGroup previous }

/-- `_universe_step`, up to its first await. -/
def wake (c : RecorderConfig) (s : UniverseLoop) (monoNs wallNs startedNs : Int) :
    UniverseLoop :=
  if monoNs ≥ s.refreshDueNs then { s with work := .listing ⟨startedNs, .full⟩ }
  else
    match s.current with
    | none => s
    | some previous =>
        let nowTs := wallNs / nsPerS
        let closed := sortedTickers (previous.l2Tickers \ s.stillOpen previous nowTs)
        if closed = [] then s.relistIfDue c previous monoNs startedNs
        else
          (s.requestRelists (emptiedGroups c previous closed) monoNs monoNs).beginApply c
            (s.withoutClosed c previous nowTs) .removed

/-- The series of some groups. -/
def listedSeries (c : RecorderConfig) (names : List String) : List String :=
  c.policy.groups.flatMap fun group =>
    if group.name ∈ names then group.series.getD [] else []

/-- The decision a listing comes to. -/
def decisionOf (c : RecorderConfig) (s : UniverseLoop) (scope : Scope) (read : MarketListing)
    (categories : Dict String String) (nowTs : Int) : UniverseDecision :=
  match scope with
  | .full =>
      select (s.asLastReported read.markets)
        { policy := c.policy, nowTs, categories, pinned := ∅ }
  | .groups names previous =>
      let series := listedSeries c names
      let unlisted := previous.markets.filter fun m => m.seriesTicker ∉ series
      select (s.asLastReported (read.markets ++ unlisted))
        { policy := c.policy, nowTs, categories := ∅
          pinned := (admittedByGroup previous).filter fun name _ => name ∉ names }

/-- The rest of `_refresh_universe_or_log` or `_relist_or_log`, once the
decision of a listing is applied. -/
def listed (c : RecorderConfig) (s : UniverseLoop) (decision : UniverseDecision)
    (listing : Listing) (read : MarketListing) (nowNs : Int) : UniverseLoop :=
  match listing.scope with
  | .full =>
      let s := { s with ended := s.ended.filter fun t => t ∈ tickersOf read.markets }
      let s := s.forgetRelists s.relists.keys listing.startedNs
      let s := s.followUpUnpriced c decision (c.policy.groups.map UniverseGroup.name)
        listing.startedNs nowNs
      { s with refreshDueNs := nowNs + c.universeRefreshS * nsPerS, work := .idle }
  | .groups names _ =>
      let s := s.forgetRelists names listing.startedNs
      let s := s.followUpUnpriced c decision names listing.startedNs nowNs
      { s with work := .idle }

/-- One stretch of the loop, or of the event consumer. What does not fit the
work under way does not happen. -/
def step (c : RecorderConfig) (s : UniverseLoop) : Act → UniverseLoop
  | .lifecycle event monoNs => s.noteLifecycle c event monoNs
  | .wake monoNs wallNs startedNs =>
      match s.work with
      | .idle => s.wake c monoNs wallNs startedNs
      | _ => s
  | .arrive read categories wallNs =>
      match s.work with
      | .listing listing =>
          s.beginApply c (s.decisionOf c listing.scope read categories (wallNs / nsPerS))
            (.listed listing read)
      | _ => s
  | .failed monoNs retryInNs =>
      match s.work with
      | .listing ⟨_, .full⟩ => { s with refreshDueNs := monoNs + retryInNs, work := .idle }
      | .listing ⟨_, .groups _ _⟩ => { s with work := .idle }
      | _ => s
  | .applied monoNs startedNs =>
      match s.work with
      | .applying desired decision .removed =>
          (s.install desired decision).relistIfDue c decision monoNs startedNs
      | .applying desired decision (.listed listing read) =>
          (s.install desired decision).listed c decision listing read monoNs
      | _ => s

/-- `_universe_delay_ns`. -/
def universeDelayNs (s : UniverseLoop) (monoNs wallNs : Int) : Int :=
  let refresh := s.refreshDueNs - monoNs
  let others :=
    match s.current with
    | none => []
    | some decision =>
        let ended : List Int := if s.ended.filter (fun t => s.planned t) = ∅ then [] else [0]
        let closing :=
          match ((s.asLastReported decision.markets).filterMap MarketSummary.closeTs).min? with
          | none => []
          | some closeTs => [(closeTs + closeTickDelayS) * nsPerS - wallNs]
        let relisting :=
          match (s.relists.values.map PendingRelist.dueNs).min? with
          | none => []
          | some dueNs => [max dueNs s.relistAllowedNs - monoNs]
        ended ++ closing ++ relisting
  max 0 (others.foldl min refresh)

end UniverseLoop

end Tape.Universe
