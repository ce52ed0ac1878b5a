import Mathlib
import Tape.Book.Keyframe

/-!
# Comparing two books level by level

`diff` lists every price at which two books of one market hold different
counts. It finds none if and only if the books have the same depth, whatever
order their levels were written in. The checksum is a sum over the levels, so
books with the same levels have the same one.
-/

namespace Tape

/-- A level present or sized differently in two books. -/
structure LevelDiff where
  side : Side
  price : Int
  countA : Int
  countB : Int
  deriving DecidableEq, Repr

/-- The levels in which two books differ. -/
structure BookDiff where
  ticker : Ticker
  differences : List LevelDiff
  deriving DecidableEq, Repr

/-- `BookDiff.is_empty`. -/
def BookDiff.isEmpty (d : BookDiff) : Bool := d.differences.isEmpty

/-- `ValueError` of books of two markets, by the names its text quotes. -/
structure MarketMismatch where
  one : Ticker
  other : Ticker
  deriving DecidableEq, Repr

namespace Book

/-- `Book.level_count`. -/
def levelCount (b : Book) (side : Side) : Nat := (b.side side).size

/-- `{lvl.price: lvl.count for lvl in book.levels(side)}`. -/
def countsByPrice (b : Book) (side : Side) : Dict Int Int :=
  (b.levels side).foldl (fun d level => d.set level.price level.count) ∅

/-- The differences on one side, in order of price. -/
def sideDifferences (a b : Book) (side : Side) : List LevelDiff :=
  let levelsA := a.countsByPrice side
  let levelsB := b.countsByPrice side
  ((levelsA.keys.toFinset ∪ levelsB.keys.toFinset).sort (· ≤ ·)).filterMap fun price =>
    let countA := levelsA.getD price 0
    let countB := levelsB.getD price 0
    if countA ≠ countB then some ⟨side, price, countA, countB⟩ else none

/-- The levels of both sides in which two books of a market differ. -/
def diff (a b : Book) : Except MarketMismatch BookDiff :=
  if a.ticker ≠ b.ticker then
    .error ⟨a.ticker, b.ticker⟩
  else
    .ok ⟨a.ticker, a.sideDifferences b .bid ++ a.sideDifferences b .ask⟩

theorem nodup_levels (b : Book) (s : Side) : ((b.levels s).map Level.price).Nodup := by
  have hperm := (b.levels_perm s).map Prod.fst
  rw [map_entry_fst] at hperm
  exact hperm.nodup_iff.mpr (b.side s).nodup

theorem get?_countsByPrice (b : Book) (s : Side) (p : Int) :
    (b.countsByPrice s).get? p = (b.side s).get? p := by
  have hset : ∀ (d : Dict Int Int) (level : Level),
      d.set level.price level.count =
        (some level.count).elim d (d.set level.price) := fun d level => rfl
  have hmem : ∀ c, (b.countsByPrice s).get? p = some c ↔ (b.side s).get? p = some c := by
    intro c
    rw [countsByPrice, Dict.get?_foldl_set hset (b.nodup_levels s) fun _ _ => Dict.get?_empty _,
      Dict.get?_empty, Dict.get?_eq_some_iff, ← (b.levels_perm s).mem_iff]
    constructor
    · rintro (h | ⟨level, hlevel, rfl, hcount⟩)
      · cases h
      · obtain rfl := Option.some.inj hcount
        exact List.mem_map_of_mem hlevel
    · intro h
      obtain ⟨level, hlevel, hentry⟩ := List.mem_map.mp h
      obtain ⟨rfl, rfl⟩ := Prod.mk.inj hentry
      exact .inr ⟨level, hlevel, rfl, rfl⟩
  cases hside : (b.side s).get? p with
  | none =>
      rw [Option.eq_none_iff_forall_ne_some]
      intro c hc
      rw [hmem, hside] at hc
      cases hc
  | some c => exact (hmem c).mpr hside

theorem getD_countsByPrice (b : Book) (s : Side) (p : Int) :
    (b.countsByPrice s).getD p 0 = b.depth s p := by
  show ((b.countsByPrice s).get? p).getD 0 = _
  rw [get?_countsByPrice]
  rfl

theorem sideDifferences_eq_nil_iff (a b : Book) (s : Side) :
    a.sideDifferences b s = [] ↔ a.depth s = b.depth s := by
  rw [sideDifferences, List.filterMap_eq_nil_iff]
  constructor
  · intro h
    funext p
    by_cases hp : p ∈ (a.countsByPrice s).keys.toFinset ∪ (b.countsByPrice s).keys.toFinset
    · have hsame := h p ((Finset.mem_sort _).mpr hp)
      simp only [getD_countsByPrice, ite_eq_right_iff, reduceCtorEq, imp_false] at hsame
      exact not_not.mp hsame
    · -- a price neither book has
      rw [Finset.mem_union, List.mem_toFinset, List.mem_toFinset, not_or] at hp
      rw [← getD_countsByPrice, ← getD_countsByPrice, Dict.getD, Dict.getD,
        Dict.get?_eq_none_iff.mpr hp.1, Dict.get?_eq_none_iff.mpr hp.2]
  · intro h p hp
    simp [getD_countsByPrice, h]

/-- Two books of one market have no difference if and only if their depths
agree. -/
theorem diff_isEmpty {a b : Book} (ht : a.ticker = b.ticker) :
    ∃ d, a.diff b = .ok d ∧ (d.isEmpty = true ↔ a.depth = b.depth) := by
  refine ⟨_, by rw [diff, if_neg (not_not.mpr ht)], ?_⟩
  rw [BookDiff.isEmpty, List.isEmpty_iff, List.append_eq_nil_iff, sideDifferences_eq_nil_iff,
    sideDifferences_eq_nil_iff]
  constructor
  · rintro ⟨hbid, hask⟩
    funext s
    cases s with
    | bid => exact hbid
    | ask => exact hask
  · intro h
    rw [h]
    exact ⟨rfl, rfl⟩

theorem levelCount_of_depth {a b : Book} (ha : a.Inv) (hb : b.Inv) (h : a.depth = b.depth)
    (s : Side) : a.levelCount s = b.levelCount s :=
  (Dict.entries_perm_of_get?_eq (ha.get?_eq hb h s)).length_eq

/-! ## The checksum -/

/-- `_mix64`: the finalizer of splitmix64. -/
def mix64 (value : BitVec 64) : BitVec 64 :=
  let value := (value ^^^ (value >>> 30)) * 0xBF58476D1CE4E5B9
  let value := (value ^^^ (value >>> 27)) * 0x94D049BB133111EB
  value ^^^ (value >>> 31)

/-- `_level_key`: one bit of side, 19 of price, 44 of count. -/
def levelKey (side : Side) (price count : Int) : BitVec 64 :=
  (BitVec.ofInt 64 side.toInt <<< 63) ||| ((BitVec.ofInt 64 price &&& 0x7FFFF) <<< 44) |||
    (BitVec.ofInt 64 count &&& 0xFFFFFFFFFFF)

/-- A sum over all levels of both sides, whatever their order. -/
def checksum (b : Book) : Int :=
  let total := b.bids.entries.foldl (fun total e => total + mix64 (levelKey .bid e.1 e.2)) 0
  (b.asks.entries.foldl (fun total e => total + mix64 (levelKey .ask e.1 e.2)) total).toNat

theorem sum_perm {l l' : List (Int × Int)} (h : l.Perm l') (f : Int × Int → BitVec 64)
    (total : BitVec 64) :
    l.foldl (fun total e => total + f e) total = l'.foldl (fun total e => total + f e) total := by
  have : RightCommutative fun (total : BitVec 64) e => total + f e :=
    ⟨fun total e e' => by
      rw [BitVec.add_assoc, BitVec.add_comm (f e), ← BitVec.add_assoc]⟩
  exact h.foldl_eq total

/-- The checksum is a function of the levels. -/
theorem checksum_of_levels {a b : Book} (h : ∀ s, a.levels s = b.levels s) :
    a.checksum = b.checksum := by
  have hperm : ∀ s, (a.side s).entries.Perm (b.side s).entries := fun s =>
    (a.levels_perm s).symm.trans ((h s) ▸ b.levels_perm s)
  have hbids : a.bids.entries.Perm b.bids.entries := hperm .bid
  have hasks : a.asks.entries.Perm b.asks.entries := hperm .ask
  rw [checksum, checksum, sum_perm hbids, sum_perm hasks]

end Book

end Tape
