import Tape.Book.Diff
import Tape.Words

/-!
# What the checksum tells apart

The checksum is a sum modulo 2^64 of one word for each level. A level of a
price in range and of fewer than 2^44 hundredths of a contract has a word of
its own, which is not zero. So a single level more, less or of another size
changes the sum, with certainty.
-/

namespace Tape

namespace Book

/-! ## The word of a level -/

theorem mix64_injective : Function.Injective mix64 := by
  intro x y h
  have h₁ := Words.xor_ushiftRight_injective (n := 31) (by decide) h
  have h₂ := @Words.mul_injective 64 _ 0x319642b2d24d8ec3 (by decide) _ _ h₁
  have h₃ := Words.xor_ushiftRight_injective (n := 27) (by decide) h₂
  have h₄ := @Words.mul_injective 64 _ 0x96de1b173f119089 (by decide) _ _ h₃
  exact Words.xor_ushiftRight_injective (n := 30) (by decide) h₄

theorem mix64_eq_zero {x : BitVec 64} (h : mix64 x = 0) : x = 0 :=
  mix64_injective (h.trans (by decide))

/-- A level the recorder can hold. -/
def LevelFits (price count : Int) : Prop :=
  0 ≤ price ∧ price ≤ 10000 ∧ 1 ≤ count ∧ count ≤ 2 ^ 44 - 1

/-- The low bits of a number that fits them. -/
theorem toNat_ofInt_and {x : Int} {n : Nat} (h₀ : 0 ≤ x) (hx : x < 2 ^ n) (hn : n ≤ 64) :
    ((BitVec.ofInt 64 x).toNat &&& (2 ^ n - 1)) = x.toNat := by
  have hle : (2 : Int) ^ n ≤ 2 ^ 64 := pow_le_pow_right₀ (by decide) hn
  have hword : (BitVec.ofInt 64 x).toNat = x.toNat := by
    rw [BitVec.toNat_ofInt, Int.emod_eq_of_lt h₀ (by push_cast; omega)]
  have hlow : x.toNat < 2 ^ n := by
    zify
    rw [Int.toNat_of_nonneg h₀]
    exact hx
  rw [hword, Nat.and_two_pow_sub_one_eq_mod, Nat.mod_eq_of_lt hlow]

/-- The three fields of a key lie side by side. -/
theorem toNat_levelKey {s : Side} {price count : Int} (h : LevelFits price count) :
    (levelKey s price count).toNat =
      s.toInt.toNat * 2 ^ 63 + price.toNat * 2 ^ 44 + count.toNat := by
  obtain ⟨hp₀, hp₁, hc₀, hc₁⟩ := h
  have hside : ((BitVec.ofInt 64 s.toInt) <<< 63).toNat = s.toInt.toNat <<< 63 := by
    cases s <;> decide
  have hprice : ((BitVec.ofInt 64 price &&& 0x7FFFF) <<< 44).toNat = price.toNat <<< 44 := by
    rw [BitVec.toNat_shiftLeft, BitVec.toNat_and]
    have hlow := toNat_ofInt_and (n := 19) hp₀ (by omega) (by decide)
    rw [show (0x7FFFF : BitVec 64).toNat = 2 ^ 19 - 1 from rfl, hlow, Nat.shiftLeft_eq]
    exact Nat.mod_eq_of_lt (by omega)
  have hcount : (BitVec.ofInt 64 count &&& 0xFFFFFFFFFFF).toNat = count.toNat := by
    rw [BitVec.toNat_and]
    exact toNat_ofInt_and (n := 44) (by omega) (by omega) (by decide)
  rw [levelKey, BitVec.toNat_or, BitVec.toNat_or, hside, hprice, hcount, Nat.or_assoc,
    ← Nat.shiftLeft_add_eq_or_of_lt (show count.toNat < 2 ^ 44 by omega), Nat.shiftLeft_eq _ 44,
    ← Nat.shiftLeft_add_eq_or_of_lt (show price.toNat * 2 ^ 44 + count.toNat < 2 ^ 63 by omega),
    Nat.shiftLeft_eq, Nat.add_assoc]

theorem levelKey_injective {s s' : Side} {p p' c c' : Int} (h : LevelFits p c)
    (h' : LevelFits p' c') (heq : levelKey s p c = levelKey s' p' c') :
    s = s' ∧ p = p' ∧ c = c' := by
  have hnat := toNat_levelKey (s := s) h
  have hnat' := toNat_levelKey (s := s') h'
  rw [heq] at hnat
  obtain ⟨hp₀, hp₁, hc₀, hc₁⟩ := h
  obtain ⟨hp₀', hp₁', hc₀', hc₁'⟩ := h'
  cases s with
  | bid =>
      cases s' with
      | bid =>
          simp only [Side.toInt] at hnat hnat'
          exact ⟨rfl, by omega, by omega⟩
      | ask =>
          simp only [Side.toInt] at hnat hnat'
          omega
  | ask =>
      cases s' with
      | bid =>
          simp only [Side.toInt] at hnat hnat'
          omega
      | ask =>
          simp only [Side.toInt] at hnat hnat'
          exact ⟨rfl, by omega, by omega⟩

theorem levelKey_ne_zero {s : Side} {p c : Int} (h : LevelFits p c) : levelKey s p c ≠ 0 := by
  intro hzero
  have hnat := toNat_levelKey (s := s) h
  rw [hzero] at hnat
  obtain ⟨-, -, hc₀, -⟩ := h
  have hcount : 0 < c.toNat := by omega
  rw [show (0 : BitVec 64).toNat = 0 from rfl] at hnat
  omega

/-! ## The sum -/

/-- The words of a side, summed. -/
def sideSum (side : Side) (levels : Dict Int Int) : BitVec 64 :=
  levels.entries.foldl (fun total e => total + mix64 (levelKey side e.1 e.2)) 0

/-- What a place adds to the sum. -/
def placeWord (side : Side) (price : Int) : Option Int → BitVec 64
  | none => 0
  | some count => mix64 (levelKey side price count)

theorem foldl_words (f : Int × Int → BitVec 64) (l : List (Int × Int)) (total : BitVec 64) :
    l.foldl (fun total e => total + f e) total =
      total + l.foldl (fun total e => total + f e) 0 := by
  induction l generalizing total with
  | nil => exact (BitVec.add_zero total).symm
  | cons e l ih =>
      have hzero : (0 : BitVec 64) + f e = f e := BitVec.zero_add (f e)
      rw [List.foldl_cons, List.foldl_cons, ih, ih (0 + f e), hzero, BitVec.add_assoc]

theorem checksum_eq (b : Book) :
    b.checksum = (sideSum .bid b.bids + sideSum .ask b.asks).toNat := by
  rw [checksum, foldl_words]
  rfl

theorem sideSum_congr {side : Side} {d e : Dict Int Int} (h : ∀ p, d.get? p = e.get? p) :
    sideSum side d = sideSum side e :=
  sum_perm (Dict.entries_perm_of_get?_eq h) _ _

/-- A side is what it has at one place and the rest. -/
theorem sideSum_place (side : Side) (d : Dict Int Int) (p : Int) :
    sideSum side d = sideSum side (d.erase p) + placeWord side p (d.get? p) := by
  cases hp : d.get? p with
  | none =>
      have hsame : ∀ q, d.get? q = (d.erase p).get? q := by
        intro q
        rw [Dict.get?_erase]
        split
        · next heq => rw [← heq, hp]
        · rfl
      rw [sideSum_congr hsame]
      exact (BitVec.add_zero _).symm
  | some c =>
      have hback : ∀ q, d.get? q = ((d.erase p).set p c).get? q := by
        intro q
        rw [Dict.get?_set]
        split
        · next heq => rw [← heq, hp]
        · next hne => rw [Dict.get?_erase_ne hne]
      have hout : p ∉ (d.erase p).keys := fun hin => (Dict.mem_keys_erase.mp hin).2 rfl
      rw [sideSum_congr hback, sideSum, Dict.entries_set_of_not_mem hout, List.foldl_append]
      rfl

/-! ## One place -/

/-- Every level of the book is in range. -/
def LevelsFit (b : Book) : Prop :=
  ∀ side price count, (b.side side).get? price = some count → LevelFits price count

/-- The books have the same levels but at one place: there a level was added,
removed or resized. -/
def DifferOnlyAt (a b : Book) (side : Side) (price : Int) : Prop :=
  (a.side side).get? price ≠ (b.side side).get? price ∧
    ∀ side' price', (side', price') ≠ (side, price) →
      (a.side side').get? price' = (b.side side').get? price'

/-- Different levels at a place have different words. -/
theorem placeWord_injective {side : Side} {price : Int} {x y : Option Int}
    (hx : ∀ c, x = some c → LevelFits price c) (hy : ∀ c, y = some c → LevelFits price c)
    (h : placeWord side price x = placeWord side price y) : x = y := by
  cases x with
  | none =>
      cases y with
      | none => rfl
      | some c => exact absurd (mix64_eq_zero h.symm) (levelKey_ne_zero (hy c rfl))
  | some c =>
      cases y with
      | none => exact absurd (mix64_eq_zero h) (levelKey_ne_zero (hx c rfl))
      | some c' =>
          obtain ⟨-, -, rfl⟩ := levelKey_injective (hx c rfl) (hy c' rfl) (mix64_injective h)
          rfl

/-- A side with one place changed has another sum. -/
theorem sideSum_ne {side : Side} {d e : Dict Int Int} {price : Int}
    (hd : ∀ c, d.get? price = some c → LevelFits price c)
    (he : ∀ c, e.get? price = some c → LevelFits price c)
    (hne : d.get? price ≠ e.get? price) (hrest : ∀ p, p ≠ price → d.get? p = e.get? p) :
    sideSum side d ≠ sideSum side e := by
  intro hsum
  have herased : sideSum side (d.erase price) = sideSum side (e.erase price) := by
    refine sideSum_congr fun p => ?_
    rw [Dict.get?_erase, Dict.get?_erase]
    split
    · rfl
    · next hp => exact hrest p fun heq => hp heq.symm
  rw [sideSum_place side d price, sideSum_place side e price, herased, BitVec.add_right_inj] at hsum
  exact hne (placeWord_injective hd he hsum)

/-- The checksum is a function of the two maps from price to count, and tells
any two books apart whose levels differ in exactly one place. -/
theorem checksum_discriminates :
    (∀ a b : Book, (∀ side price, (a.side side).get? price = (b.side side).get? price) →
      a.checksum = b.checksum) ∧
    ∀ a b : Book, a.LevelsFit → b.LevelsFit → ∀ side price, DifferOnlyAt a b side price →
      a.checksum ≠ b.checksum := by
  constructor
  · intro a b h
    have hbids : sideSum .bid a.bids = sideSum .bid b.bids := sideSum_congr (h .bid)
    have hasks : sideSum .ask a.asks = sideSum .ask b.asks := sideSum_congr (h .ask)
    rw [checksum_eq, checksum_eq, hbids, hasks]
  · intro a b ha hb side price ⟨hne, hrest⟩ hsum
    rw [checksum_eq, checksum_eq, Int.natCast_inj] at hsum
    have hwords := BitVec.eq_of_toNat_eq hsum
    cases side with
    | bid =>
        have hasks : sideSum .ask a.asks = sideSum .ask b.asks :=
          sideSum_congr fun p => hrest .ask p (by simp)
        rw [hasks, BitVec.add_left_inj] at hwords
        exact sideSum_ne (ha .bid price) (hb .bid price) hne
          (fun p hp => hrest .bid p (by simpa using hp)) hwords
    | ask =>
        have hbids : sideSum .bid a.bids = sideSum .bid b.bids :=
          sideSum_congr fun p => hrest .bid p (by simp)
        rw [hbids, BitVec.add_right_inj] at hwords
        exact sideSum_ne (ha .ask price) (hb .ask price) hne
          (fun p hp => hrest .ask p (by simpa using hp)) hwords

/-- A book of one bid. -/
def oneBid (count : Int) : Book := { Book.new "KX" with bids := Dict.set ∅ 4500 count }

theorem oneBid_fits {count : Int} (h : 1 ≤ count ∧ count ≤ 2 ^ 44 - 1) :
    (oneBid count).LevelsFit := by
  intro side price count' hlevel
  cases side with
  | bid =>
      replace hlevel : (Dict.set (∅ : Dict Int Int) 4500 count).get? price = some count' := hlevel
      rw [Dict.get?_set] at hlevel
      split at hlevel
      · next heq =>
          obtain rfl := Option.some.inj hlevel
          obtain rfl := heq
          exact ⟨by decide, by decide, h⟩
      · cases hlevel
  | ask => cases hlevel

/-- A book of two bids, written in some order. -/
def twoBids (p q : Int) : Book :=
  { Book.new "KX" with bids := (Dict.set ∅ p 100).set q 100 }

theorem checksum_discriminates_resized :
    (twoBids 4500 4400).checksum = (twoBids 4400 4500).checksum ∧
      (oneBid 1).checksum ≠ (oneBid 2).checksum := by
  constructor
  · refine checksum_discriminates.1 _ _ fun side price => ?_
    cases side with
    | bid =>
        show ((Dict.set (∅ : Dict Int Int) 4500 100).set 4400 100).get? price =
          ((Dict.set (∅ : Dict Int Int) 4400 100).set 4500 100).get? price
        rw [Dict.get?_set, Dict.get?_set, Dict.get?_set, Dict.get?_set]
        split
        · split
          · rfl
          · rfl
        · rfl
    | ask => rfl
  · refine checksum_discriminates.2 _ _ (oneBid_fits (by decide)) (oneBid_fits (by decide)) .bid
      4500 ⟨by decide, ?_⟩
    intro side price hne
    cases side with
    | bid =>
        have hprice : (4500 : Int) ≠ price := fun heq => hne (by rw [heq])
        show (Dict.set (∅ : Dict Int Int) 4500 1).get? price =
          (Dict.set (∅ : Dict Int Int) 4500 2).get? price
        rw [Dict.get?_set_ne hprice, Dict.get?_set_ne hprice]
    | ask => rfl

end Book

end Tape
