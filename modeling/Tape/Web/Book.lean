import Tape.Book.Basic

/-!
# The page's order book

`Book` of the page's state. A side is a dense array of counts by price, and the
best price is kept beside it: a better level moves it, and a scan finds the
next one when the best level empties. Counts are numbers of JavaScript, whose
sums are rounded past 2^53.

A loop over prices is the list of the prices it visits, in its order.
-/

namespace Tape.Web

/-- The highest price of the page's grid. -/
def maxPriceE4 : Nat := 10000

/-- `[price_e4, count_e2]`. -/
abbrev PriceLevel := Nat × Int

/-- A `Float64Array` of the counts by price. -/
abbrev Levels := Vector Int (maxPriceE4 + 1)

/-- The double nearest to an integer, to even when two are: the integer itself
up to 2^53. -/
def toDouble (x : Int) : Int :=
  if x.natAbs ≤ 2 ^ 53 then x
  else
    let unit := 2 ^ (x.natAbs.log2 - 52)
    let quotient := x.natAbs / unit
    let rest := x.natAbs % unit
    let rounded := if 2 * rest > unit ∨ 2 * rest = unit ∧ quotient % 2 = 1 then quotient + 1
      else quotient
    x.sign * (rounded * unit : Nat)

/-- `levels[price] ?? 0`. -/
def countAt (levels : Levels) (price : Nat) : Int := levels[price]?.getD 0

/-- The prices of a loop down from one below a bound. -/
def below (bound : Nat) : List Nat := (List.range bound).reverse

/-- The prices of a loop up from a price. -/
def upFrom (price : Nat) : List Nat := List.range' price (maxPriceE4 + 1 - price)

/-- What became of a delta. -/
inductive DeltaOutcome where
  | applied
  | negative
  deriving DecidableEq, Repr

/-- Both ladders, by price, with their best prices. -/
structure Book where
  bids : Levels
  asks : Levels
  bestBid : Option Nat
  bestAsk : Option Nat

namespace Book

/-- A book without levels. -/
def new : Book where
  bids := Vector.replicate (maxPriceE4 + 1) 0
  asks := Vector.replicate (maxPriceE4 + 1) 0
  bestBid := none
  bestAsk := none

/-- All levels are dropped. -/
def clear (_ : Book) : Book := new

/-- `#scanBid`, from one below a bound. -/
def scanBid (bids : Levels) (bound : Nat) : Option Nat :=
  (below bound).find? fun price => countAt bids price > 0

/-- `#scanAsk`. -/
def scanAsk (asks : Levels) (price : Nat) : Option Nat :=
  (upFrom price).find? fun price => countAt asks price > 0

/-- The levels of an image are written. -/
def setLevels (levels : Levels) (image : List PriceLevel) : Levels :=
  image.foldl (fun levels level => levels.setIfInBounds level.1 level.2) levels

/-- Both ladders are replaced, and their best prices looked for. -/
def replace (b : Book) (bids asks : List PriceLevel) : Book :=
  let bids := setLevels b.clear.bids bids
  let asks := setLevels b.clear.asks asks
  { bids, asks, bestBid := scanBid bids (maxPriceE4 + 1), bestAsk := scanAsk asks 0 }

/-- The ladder of a side. -/
def levels (b : Book) : Side → Levels
  | .bid => b.bids
  | .ask => b.asks

/-- The best price of a side. -/
def best (b : Book) : Side → Option Nat
  | .bid => b.bestBid
  | .ask => b.bestAsk

/-- Resting count at one level. -/
def count (b : Book) (side : Side) (price : Nat) : Int := countAt (b.levels side) price

/-- `#afterBidChange`. -/
def afterBidChange (b : Book) (price : Nat) (count : Int) : Book :=
  if count > 0 ∧ b.bestBid.all (price > ·) then { b with bestBid := some price }
  else if count = 0 ∧ b.bestBid = some price then { b with bestBid := scanBid b.bids price }
  else b

/-- `#afterAskChange`. -/
def afterAskChange (b : Book) (price : Nat) (count : Int) : Book :=
  if count > 0 ∧ b.bestAsk.all (price < ·) then { b with bestAsk := some price }
  else if count = 0 ∧ b.bestAsk = some price then
    { b with bestAsk := scanAsk b.asks (price + 1) }
  else b

/-- One level is changed, unless its count would be negative. -/
def applyDelta (b : Book) (side : Side) (price : Nat) (delta : Int) : Book × DeltaOutcome :=
  let next := toDouble (b.count side price + delta)
  if next < 0 then (b, .negative)
  else
    match side with
    | .bid =>
        (afterBidChange { b with bids := b.bids.setIfInBounds price next } price next, .applied)
    | .ask =>
        (afterAskChange { b with asks := b.asks.setIfInBounds price next } price next, .applied)

/-- The loop of `topLevels`, over the prices it visits. -/
def collectTop (levels : Levels) (limit : Nat) : List Nat → List PriceLevel → List PriceLevel
  | [], out => out
  | price :: rest, out =>
      let out := if countAt levels price > 0 then out ++ [(price, countAt levels price)] else out
      if out.length ≥ limit then out else collectTop levels limit rest out

/-- The first levels from the best price on. -/
def topLevels (b : Book) (side : Side) (limit : Nat) : List PriceLevel :=
  match b.best side with
  | none => []
  | some best =>
      let prices :=
        match side with
        | .bid => below (best + 1)
        | .ask => upFrom best
      collectTop (b.levels side) limit prices []

/-- What `forEachLevel` visits, in its order. -/
def forEachLevel (b : Book) : List (Side × Nat × Int) :=
  (List.range (maxPriceE4 + 1)).flatMap fun price =>
    (if b.count .bid price > 0 then [(Side.bid, price, b.count .bid price)] else []) ++
      (if b.count .ask price > 0 then [(Side.ask, price, b.count .ask price)] else [])

end Book

/-! ## Scans -/

/-- All prices, from the best on. -/
def ladder : Side → List Nat
  | .bid => below (maxPriceE4 + 1)
  | .ask => upFrom 0

/-- The prices worse than one, from the best on. -/
def beyond : Side → Nat → List Nat
  | .bid, price => below price
  | .ask, price => upFrom (price + 1)

/-- The second price is better than the first on its side. -/
def Better : Side → Nat → Nat → Prop
  | .bid, p, q => q < p
  | .ask, p, q => p < q

theorem mem_below {bound price : Nat} : price ∈ below bound ↔ price < bound := by
  rw [below, List.mem_reverse, List.mem_range]

theorem mem_upFrom {bound price : Nat} :
    price ∈ upFrom bound ↔ bound ≤ price ∧ price ≤ maxPriceE4 := by
  rw [upFrom, List.mem_range'_1, maxPriceE4]
  omega

theorem mem_ladder {side : Side} {price : Nat} : price ∈ ladder side ↔ price ≤ maxPriceE4 := by
  cases side with
  | bid => exact mem_below.trans Nat.lt_succ_iff
  | ask => exact mem_upFrom.trans (and_iff_right (Nat.zero_le price))

theorem below_succ (bound : Nat) : below (bound + 1) = bound :: below bound := by
  rw [below, List.range_succ, List.reverse_append]
  rfl

theorem upFrom_cons {price : Nat} (h : price ≤ maxPriceE4) :
    upFrom price = price :: upFrom (price + 1) := by
  rw [upFrom, upFrom, show maxPriceE4 + 1 - price = maxPriceE4 + 1 - (price + 1) + 1 by omega,
    List.range'_succ]

theorem pairwise_ladder (side : Side) : (ladder side).Pairwise (Better side) := by
  cases side with
  | bid =>
      rw [ladder, below, List.pairwise_reverse]
      exact List.pairwise_lt_range
  | ask =>
      rw [ladder, upFrom]
      exact List.pairwise_lt_range'

/-- The ladder, cut at a price. -/
theorem ladder_cut (side : Side) {price : Nat} (h : price ≤ maxPriceE4) :
    ∃ ahead, ladder side = ahead ++ price :: beyond side price := by
  cases side with
  | bid =>
      have hcut : ∀ n, price < n → ∃ ahead, below n = ahead ++ price :: below price := by
        intro n hn
        induction n with
        | zero => omega
        | succ n ih =>
            rw [below_succ]
            rcases Nat.lt_succ_iff_lt_or_eq.mp hn with hlt | rfl
            · obtain ⟨ahead, hahead⟩ := ih hlt
              exact ⟨n :: ahead, by rw [hahead]; rfl⟩
            · exact ⟨[], rfl⟩
      exact hcut (maxPriceE4 + 1) (Nat.lt_succ_iff.mpr h)
  | ask =>
      refine ⟨List.range' 0 price, ?_⟩
      rw [ladder, beyond, ← upFrom_cons h, upFrom, upFrom]
      have hsplit := @List.range'_append_1 0 price (maxPriceE4 + 1 - price)
      rw [Nat.zero_add] at hsplit
      rw [hsplit, Nat.add_sub_cancel' (h.trans (Nat.le_succ _)), Nat.sub_zero]

theorem better_irrefl (side : Side) (p : Nat) : ¬ Better side p p := by
  cases side with
  | bid => exact lt_irrefl p
  | ask => exact lt_irrefl p

theorem nodup_ladder (side : Side) : (ladder side).Nodup :=
  (pairwise_ladder side).imp fun {p q} h => by
    rintro rfl
    exact better_irrefl side p h

theorem find?_same {α : Type*} {l : List α} {f g : α → Bool} (h : ∀ q ∈ l, g q = f q) :
    l.find? g = l.find? f := by
  induction l with
  | nil => rfl
  | cons q l ih =>
      rw [List.find?_cons, List.find?_cons, h q List.mem_cons_self,
        ih fun q' hq' => h q' (List.mem_cons_of_mem _ hq')]

/-- What a search finds after one element of the list changed. -/
theorem find?_changed {α : Type*} [DecidableEq α] {ahead rest : List α} {p : α} {f g : α → Bool}
    (hn : (ahead ++ p :: rest).Nodup) (hsame : ∀ q, q ≠ p → g q = f q) :
    (ahead ++ p :: rest).find? g =
      if g p then
        match (ahead ++ p :: rest).find? f with
        | none => some p
        | some q => if q ∈ ahead then some q else some p
      else if (ahead ++ p :: rest).find? f = some p then rest.find? f
      else (ahead ++ p :: rest).find? f := by
  obtain ⟨-, hcons, hdisjoint⟩ := List.nodup_append.mp hn
  have hahead : ahead.find? g = ahead.find? f :=
    find?_same fun q hq => hsame q (hdisjoint q hq p List.mem_cons_self)
  have hrest : rest.find? g = rest.find? f :=
    find?_same fun q hq => hsame q fun heq => (List.nodup_cons.mp hcons).1 (heq ▸ hq)
  rw [List.find?_append, List.find?_append, hahead, List.find?_cons, List.find?_cons, hrest]
  cases hfound : ahead.find? f with
  | some q =>
      -- the change is behind what is found
      have hq := List.mem_of_find?_eq_some hfound
      have hne : q ≠ p := hdisjoint q hq p List.mem_cons_self
      simp [hq, hne]
  | none =>
      have hnone : ∀ q ∈ ahead, ¬ f q := List.find?_eq_none.mp hfound
      rw [Option.none_or, Option.none_or]
      cases hg : g p with
      | true =>
          rw [if_pos rfl]
          cases hfp : f p with
          | true =>
              have hout : p ∉ ahead := fun hin => hnone p hin hfp
              show some p = if p ∈ ahead then some p else some p
              rw [if_neg hout]
          | false =>
              cases hr : rest.find? f with
              | none => rfl
              | some q =>
                  have hout : q ∉ ahead := fun hin => hnone q hin (List.find?_some hr)
                  show some p = if q ∈ ahead then some q else some p
                  rw [if_neg hout]
      | false =>
          rw [if_neg Bool.false_ne_true]
          cases hfp : f p with
          | true => rw [if_pos rfl]
          | false => rw [ite_self]

end Tape.Web
