import Mathlib
import Tape.Book.Basic
import Tape.Wire.Fixedpoint

/-!
# The markets and the policy of a selection

`tape.recorder.universe`: what the selector reads of a market, the policy with
the checks of its constructors as fields, and the keys that everything is
sorted by. A key is a tuple and compares as tuples do, first component first.
-/

namespace Tape.Universe

/-- `status` of a market worth an order-book subscription. -/
def activeStatus : String := "active"

/-- `strike_type` values of a threshold. -/
def thresholdStrikeTypes : List String := ["greater", "greater_or_equal", "less", "less_or_equal"]

/-- Seconds of an hour. -/
def secondsPerHour : Int := 3600

/-- Half a dollar. -/
def halfPrice : Int := Fixedpoint.priceScale / 2

/-- What the markets of an event are ordered by. -/
inductive MarketOrder where
  | volume
  | nearPrice
  deriving DecidableEq, Repr

/-- Why a listed market is not recorded, in the order selection applies them. -/
inductive Reason where
  | duplicate
  | notActive
  | mve
  | closed
  | beyondHorizon
  | noGroup
  | eventBeyondHorizon
  | belowVolume
  | eventNotChosen
  | overEventCap
  | overGroupCap
  | overCap
  deriving DecidableEq, Repr

/-- `REASONS`. -/
def Reason.all : List Reason :=
  [.duplicate, .notActive, .mve, .closed, .beyondHorizon, .noGroup, .eventBeyondHorizon,
    .belowVolume, .eventNotChosen, .overEventCap, .overGroupCap, .overCap]

/-- Exactly one of `series` and `category` is set. -/
inductive Selector where
  | series (names : List String)
  | category (name : String)
  deriving DecidableEq, Repr

/-- What a group's constructor checks of its selector. -/
def Selector.Valid : Selector → Prop
  | .series names => names ≠ [] ∧ (∀ name ∈ names, name ≠ "") ∧ names.Nodup
  | .category name => name ≠ ""

/-- A group of the policy, with its bounds. -/
structure UniverseGroup where
  name : String
  events : Nat
  marketsPerEvent : Nat
  selector : Selector
  maxMarkets : Option Nat
  maxHoursToClose : Option Nat
  marketOrder : MarketOrder
  named : name ≠ ""
  selects : selector.Valid
  positive : 0 < events ∧ 0 < marketsPerEvent ∧ maxMarkets ≠ some 0 ∧ maxHoursToClose ≠ some 0

/-- A group of one market an event, without caps, has nothing to refuse. -/
theorem UniverseGroup.positive_one : 0 < 1 ∧ 0 < 1 ∧
    (none : Option Nat) ≠ some 0 ∧ (none : Option Nat) ≠ some 0 := by
  decide

/-- What is recorded. -/
structure UniversePolicy where
  minVolume24h : Nat
  maxL2Markets : Nat
  groups : List UniverseGroup
  excludeMve : Bool
  maxSecondsToClose : Option Nat
  horizon : maxSecondsToClose ≠ some 0
  once : (groups.map UniverseGroup.name).Nodup

/-- A market as it is listed. -/
structure MarketSummary where
  ticker : Ticker
  seriesTicker : String
  eventTicker : String
  exchangeIndex : Int
  status : String
  volume24h : Int
  closeTs : Option Int
  isMve : Bool
  strikeType : Option String
  yesBid : Option Int
  yesAsk : Option Int
  lastPrice : Option Int
  deriving DecidableEq, Repr

/-- `yes_mid`, rounded down. -/
def yesMid (market : MarketSummary) : Option Int :=
  match market.yesBid, market.yesAsk with
  | some bid, some ask => some ((bid + ask) / 2)
  | _, _ => market.lastPrice

/-- `_rejection`. A market with no known close time passes both time filters. -/
def rejection (market : MarketSummary) (policy : UniversePolicy) (nowTs : Int) : Option Reason :=
  if market.status ≠ activeStatus then some .notActive
  else if policy.excludeMve ∧ market.isMve then some .mve
  else
    match market.closeTs with
    | none => none
    | some closeTs =>
        if closeTs ≤ nowTs then some .closed
        else
          match policy.maxSecondsToClose with
          | none => none
          | some seconds => if closeTs - nowTs > seconds then some .beyondHorizon else none

/-! ## Keys -/

/-- `_event_key`. -/
def eventKey (market : MarketSummary) : String × String := (market.seriesTicker, market.eventTicker)

/-- The markets of one event that a group can see. There is a first. -/
abbrev ListedEvent := MarketSummary × List MarketSummary

/-- The markets of an event. -/
def ListedEvent.markets (event : ListedEvent) : List MarketSummary := event.1 :: event.2

/-- `_event_volume`. -/
def eventVolume (event : ListedEvent) : Int := (event.markets.map MarketSummary.volume24h).sum

/-- `_close_order`: sooner first, unknown last. -/
def closeOrder : Option Int → ℤ ×ₗ ℤ
  | none => toLex (1, 0)
  | some closeTs => toLex (0, closeTs)

/-- `_earliest_close`. -/
def earliestClose (event : ListedEvent) : Option Int :=
  (event.markets.filterMap MarketSummary.closeTs).min?

/-- `_nearest_event_first`. -/
def nearestEventFirst (event : ListedEvent) : (ℤ ×ₗ ℤ) ×ₗ String :=
  toLex (closeOrder (earliestClose event), event.1.eventTicker)

/-- `_busiest_event_first`. -/
def busiestEventFirst (event : ListedEvent) : ℤ ×ₗ (ℤ ×ₗ ℤ) ×ₗ String ×ₗ String :=
  toLex (-eventVolume event, toLex (closeOrder (earliestClose event),
    toLex (event.1.eventTicker, event.1.seriesTicker)))

/-- `_MarketRank`. -/
abbrev MarketRank := ℤ ×ₗ ℤ ×ₗ ℤ ×ₗ (ℤ ×ₗ ℤ) ×ₗ String

/-- `_volume_order`, behind the two components of a rank. -/
def rankBy (priced distance : Int) (market : MarketSummary) : MarketRank :=
  toLex (priced, toLex (distance, toLex (-market.volume24h,
    toLex (closeOrder market.closeTs, market.ticker))))

/-- `_busiest_market_first`. -/
def busiestMarketFirst (market : MarketSummary) : MarketRank := rankBy 0 0 market

/-- `_market_ranking`. -/
def marketRanking (order : MarketOrder) (event : ListedEvent) : MarketSummary → MarketRank :=
  match order with
  | .volume => busiestMarketFirst
  | .nearPrice =>
      let thresholds := event.markets.all fun market =>
        match market.strikeType with
        | none => false
        | some strikeType => strikeType ∈ thresholdStrikeTypes
      fun market =>
        match yesMid market with
        | none => rankBy 1 0 market
        | some mid =>
            rankBy 0 (if thresholds then |mid - halfPrice| else Fixedpoint.priceScale - mid) market

/-- `_freshness`. -/
def freshness (market : MarketSummary) :
    ℤ ×ₗ ℤ ×ₗ String ×ₗ String ×ₗ String ×ₗ ℤ ×ₗ Bool ×ₗ String ×ₗ ℤ ×ₗ ℤ ×ₗ ℤ :=
  toLex (market.volume24h, toLex (market.closeTs.getD (-1), toLex (market.status,
    toLex (market.eventTicker, toLex (market.seriesTicker, toLex (market.exchangeIndex,
      toLex (market.isMve, toLex (market.strikeType.getD "", toLex (market.yesBid.getD (-1),
        toLex (market.yesAsk.getD (-1), market.lastPrice.getD (-1)))))))))))

end Tape.Universe
