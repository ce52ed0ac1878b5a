import Mathlib
import Tape.Sorted
import Tape.Universe.Market

/-!
# Selecting markets

`tape.recorder.universe.select`. The groups apply in order to one shrinking
pool: each sorts its candidates into events, ranks the events and the markets
within them, takes what its limits allow, and records why it passed over the
rest. `chosenBy` is what a group takes, and does not look at the budget or at
what was recorded; `applyGroup` does the accounting.
-/

namespace Tape.Universe

/-! ## What is passed over -/

/-- Reasons by ticker. -/
abbrev Reasons := Dict Ticker Reason

/-- `_reject`: `setdefault`, so an earlier group's reason stays. -/
def reject (markets : List MarketSummary) (reason : Reason) (rejected : Reasons) : Reasons :=
  markets.foldl (fun d market =>
    if d.contains market.ticker then d else d.set market.ticker reason) rejected

/-- All markets of some events are rejected for a reason. -/
def rejectEvents (events : List ListedEvent) (reason : Reason) (rejected : Reasons) : Reasons :=
  events.foldl (fun d event => reject event.markets reason d) rejected

/-- Whether an event's earliest close is within a group's horizon. -/
def inHorizon (group : UniverseGroup) (nowTs : Int) (event : ListedEvent) : Bool :=
  match group.maxHoursToClose with
  | none => true
  | some hours =>
      match earliestClose event with
      | none => false
      | some closeTs => closeTs ≤ nowTs + hours * secondsPerHour

/-- `_within_horizon`. -/
def withinHorizon (events : List ListedEvent) (group : UniverseGroup) (nowTs : Int)
    (rejected : Reasons) : List ListedEvent × Reasons :=
  (events.filter (inHorizon group nowTs),
    rejectEvents (events.filter fun event => !inHorizon group nowTs event) .eventBeyondHorizon
      rejected)

/-- The events of one series, the nearest first. -/
def rankedNearest (events : List ListedEvent) (name : String) : List ListedEvent :=
  Sorted.sortOn nearestEventFirst (events.filter fun event => event.1.seriesTicker = name)

/-- `_nearest_events`. -/
def nearestEvents (events : List ListedEvent) (limit : Nat) (series : List String)
    (rejected : Reasons) : List ListedEvent × Reasons :=
  (series.flatMap fun name => (rankedNearest events name).take limit,
    series.foldl (fun d name =>
      rejectEvents ((rankedNearest events name).drop limit) .eventNotChosen d) rejected)

/-- The events whose volume reaches the floor, the busiest first. -/
def rankedBusiest (events : List ListedEvent) (floor : Nat) : List ListedEvent :=
  Sorted.sortOn busiestEventFirst (events.filter fun event => (floor : Int) ≤ eventVolume event)

/-- `_busiest_events`. -/
def busiestEvents (events : List ListedEvent) (limit floor : Nat) (rejected : Reasons) :
    List ListedEvent × Reasons :=
  ((rankedBusiest events floor).take limit,
    rejectEvents ((rankedBusiest events floor).drop limit) .eventNotChosen
      (rejectEvents (events.filter fun event => eventVolume event < floor) .belowVolume rejected))

/-- The events a group chooses from those within its horizon. -/
def chosenEvents (group : UniverseGroup) (events : List ListedEvent) (floor : Nat)
    (rejected : Reasons) : List ListedEvent × Reasons :=
  match group.selector with
  | .category _ => busiestEvents events group.events floor rejected
  | .series names => nearestEvents events group.events names rejected

/-- The markets of an event in the order of a group. -/
def rankedMarkets (group : UniverseGroup) (event : ListedEvent) : List MarketSummary :=
  Sorted.sortOn (marketRanking group.marketOrder event) event.markets

/-- `chosen[:max_markets]`, if the group has such a cap. -/
def capped (group : UniverseGroup) (chosen : List MarketSummary) : List MarketSummary :=
  match group.maxMarkets with
  | none => chosen
  | some n => chosen.take n

/-- `_choose`. -/
def choose (group : UniverseGroup) (candidates : List MarketSummary) (floor : Nat) (nowTs : Int)
    (rejected : Reasons) : List MarketSummary × Reasons :=
  let grouped := (Dict.groupBy eventKey candidates).values
  let (events, rejected) := withinHorizon grouped group nowTs rejected
  let (events, rejected) := chosenEvents group events floor rejected
  let chosen := events.flatMap fun event => (rankedMarkets group event).take group.marketsPerEvent
  let rejected := events.foldl (fun d event =>
    reject ((rankedMarkets group event).drop group.marketsPerEvent) .overEventCap d) rejected
  let rejected :=
    match group.maxMarkets with
    | none => rejected
    | some n => reject (chosen.drop n) .overGroupCap rejected
  (capped group chosen, rejected)

/-! ## Eligibility -/

/-- The counts by reason. -/
abbrev Counts := Reason → Nat

/-- More markets were rejected for a reason. -/
def Counts.bump (counts : Counts) (reason : Reason) (n : Nat) : Counts :=
  Function.update counts reason (counts reason + n)

/-- One more summary of the listing: the fresher copy of a ticker stays. -/
def noteCopy (st : Dict Ticker MarketSummary × Counts) (market : MarketSummary) :
    Dict Ticker MarketSummary × Counts :=
  match st.1.get? market.ticker with
  | none => (st.1.set market.ticker market, st.2)
  | some held =>
      (if freshness held < freshness market then st.1.set market.ticker market else st.1,
        st.2.bump .duplicate 1)

/-- A market of the listing, eligible or counted under its reason. -/
def sift (policy : UniversePolicy) (nowTs : Int) (st : List MarketSummary × Counts)
    (market : MarketSummary) : List MarketSummary × Counts :=
  match rejection market policy nowTs with
  | none => (st.1 ++ [market], st.2)
  | some reason => (st.1, st.2.bump reason 1)

/-- `_eligible`: the eligible markets in ticker order. -/
def eligible (markets : List MarketSummary) (policy : UniversePolicy) (nowTs : Int)
    (counts : Counts) : List MarketSummary × Counts :=
  let (newest, counts) := markets.foldl noteCopy (∅, counts)
  (Sorted.sortOn MarketSummary.ticker newest.values).foldl (sift policy nowTs) ([], counts)

/-! ## The group loop -/

/-- What was chosen for a group. -/
structure GroupSelection where
  name : String
  tickers : List Ticker
  events : Nat
  skippedForBudget : Nat
  deriving DecidableEq, Repr

/-- What is to be recorded. -/
structure UniverseDecision where
  l2Tickers : Finset Ticker
  showcase : Finset Ticker
  markets : List MarketSummary
  groups : List GroupSelection
  groupOf : Dict Ticker String
  droppedForCap : Nat
  reasonCounts : Counts

/-- What the loop over the groups carries. -/
structure Selecting where
  unchosen : Dict Ticker MarketSummary
  passedOver : Reasons
  groupOf : Dict Ticker String
  showcase : Finset Ticker
  selections : List GroupSelection
  budget : Nat
  counts : Counts

/-- What a selection is given besides the markets. -/
structure SelectInput where
  policy : UniversePolicy
  nowTs : Int
  categories : Dict String String
  pinned : Dict String (List Ticker)

/-- `_selects`. -/
def selects (group : UniverseGroup) (categories : Dict String String) (market : MarketSummary) :
    Bool :=
  match group.selector with
  | .series names => market.seriesTicker ∈ names
  | .category name => categories.get? market.seriesTicker = some name

/-- `dict.fromkeys(l)`, as the list of its keys. -/
def fromKeys (l : List Ticker) : List Ticker :=
  (l.foldl (fun d ticker => d.set ticker ()) (∅ : Dict Ticker Unit)).keys

/-- What a group sees of the markets that are left. -/
def candidates (input : SelectInput) (group : UniverseGroup)
    (unchosen : Dict Ticker MarketSummary) : List MarketSummary :=
  unchosen.values.filter (selects group input.categories)

/-- The markets a group chooses, pinned or not, and the reasons afterwards. -/
def chosenBy (input : SelectInput) (group : UniverseGroup) (unchosen : Dict Ticker MarketSummary)
    (passedOver : Reasons) : List MarketSummary × Reasons :=
  match input.pinned.get? group.name with
  | none =>
      choose group (candidates input group unchosen) input.policy.minVolume24h input.nowTs
        passedOver
  | some held => ((fromKeys held).filterMap unchosen.get?, passedOver)

/-- The tickers of some markets. -/
def tickersOf (markets : List MarketSummary) : List Ticker := markets.map MarketSummary.ticker

/-- The body of the loop over the groups. -/
def applyGroup (input : SelectInput) (st : Selecting) (group : UniverseGroup) : Selecting :=
  let (chosen, passedOver) := chosenBy input group st.unchosen st.passedOver
  let admitted := chosen.take st.budget
  let skipped := chosen.length - admitted.length
  { unchosen := (tickersOf chosen).foldl Dict.erase st.unchosen
    passedOver := passedOver
    groupOf := (tickersOf admitted).foldl (fun d ticker => d.set ticker group.name) st.groupOf
    showcase :=
      match group.selector with
      | .series _ => st.showcase ∪ (tickersOf admitted).toFinset
      | .category _ => st.showcase
    selections := st.selections ++
      [{ name := group.name
         tickers := tickersOf admitted
         events := (admitted.map eventKey).dedup.length
         skippedForBudget := skipped }]
    budget := st.budget - admitted.length
    counts := st.counts.bump .overCap skipped }

/-- `{market.ticker: market for market in markets}`. -/
def byTicker (markets : List MarketSummary) : Dict Ticker MarketSummary :=
  markets.foldl (fun d market => d.set market.ticker market) ∅

/-- Before the first group. -/
def selectionStart (markets : List MarketSummary) (input : SelectInput) : Selecting :=
  let (eligible, counts) := eligible markets input.policy input.nowTs fun _ => 0
  { unchosen := byTicker eligible
    passedOver := ∅
    groupOf := ∅
    showcase := ∅
    selections := []
    budget := input.policy.maxL2Markets
    counts := counts }

/-- The loop over some of the groups. -/
def applyGroups (input : SelectInput) (st : Selecting) (groups : List UniverseGroup) : Selecting :=
  groups.foldl (applyGroup input) st

/-- The reasons of the markets that no group chose. -/
def countPassedOver (st : Selecting) : Counts :=
  st.unchosen.keys.foldl (fun counts ticker =>
    counts.bump (st.passedOver.getD ticker .noGroup) 1) st.counts

/-- What is recorded of the listed markets. -/
def select (markets : List MarketSummary) (input : SelectInput) : UniverseDecision :=
  let listed := (eligible markets input.policy input.nowTs fun _ => 0).1
  let st := applyGroups input (selectionStart markets input) input.policy.groups
  let counts := countPassedOver st
  { l2Tickers := st.groupOf.keys.toFinset
    showcase := st.showcase
    markets := listed.filter fun market => st.groupOf.contains market.ticker
    groups := st.selections
    groupOf := st.groupOf
    droppedForCap := counts .overCap
    reasonCounts := counts }

end Tape.Universe
