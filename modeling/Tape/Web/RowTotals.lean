import Mathlib
import Tape.Web.BookAgreement
import Tape.Web.TapeStore

/-!
# What the rows of a grid hold

A row's sum is that of the book's counts over the prices nearest to the row.
The store keeps it in two ways: a pass over the whole book adds each level to
its row, and a delta moves one row by what it moved the book. Both are exact as
long as the sums are numbers that doubles hold, below 2^53; a sum that reaches
2^53 can be rounded, and stays that large.
-/

namespace Tape.Web

/-! ## Rounding -/

/-- Past 2^53 a double has the sign of its value, and stays past it. -/
theorem toDouble_far {x : Int} (h : 2 ^ 53 < x.natAbs) :
    ∃ m : Nat, 2 ^ 53 ≤ m ∧ toDouble x = x.sign * m := by
  rw [toDouble, if_neg (by omega)]
  dsimp only
  refine ⟨_, ?_, rfl⟩
  have hne : x.natAbs ≠ 0 := by omega
  have hlog : 53 ≤ x.natAbs.log2 := (Nat.le_log2 hne).mpr (le_of_lt h)
  have hpow : 2 ^ 52 * 2 ^ (x.natAbs.log2 - 52) = 2 ^ x.natAbs.log2 := by
    rw [← pow_add, Nat.add_sub_cancel' (by omega)]
  have hquotient : 2 ^ 52 ≤ x.natAbs / 2 ^ (x.natAbs.log2 - 52) := by
    rw [Nat.le_div_iff_mul_le (Nat.two_pow_pos _), hpow]
    exact Nat.log2_self_le hne
  have hbig : 2 ^ 53 ≤ x.natAbs / 2 ^ (x.natAbs.log2 - 52) * 2 ^ (x.natAbs.log2 - 52) :=
    calc 2 ^ 53 ≤ 2 ^ x.natAbs.log2 := Nat.pow_le_pow_right (by decide) hlog
      _ = 2 ^ 52 * 2 ^ (x.natAbs.log2 - 52) := hpow.symm
      _ ≤ _ := Nat.mul_le_mul_right _ hquotient
  split
  · exact hbig.trans (Nat.mul_le_mul_right _ (Nat.le_succ _))
  · exact hbig

theorem toDouble_neg {x : Int} (h : x < 0) : toDouble x < 0 := by
  by_cases hfar : 2 ^ 53 < x.natAbs
  · obtain ⟨m, hm, heq⟩ := toDouble_far hfar
    rw [heq, Int.sign_eq_neg_one_of_neg h]
    omega
  · rw [toDouble, if_pos (by omega)]
    exact h

/-- A double below 2^53 is its value, if that is not negative. -/
theorem toDouble_exact {x : Int} (h₀ : 0 ≤ x) (h : toDouble x < 2 ^ 53) : toDouble x = x := by
  by_cases hfar : 2 ^ 53 < x.natAbs
  · obtain ⟨m, hm, heq⟩ := toDouble_far hfar
    have hpos : 0 < x := by omega
    rw [heq, Int.sign_eq_one_of_pos hpos] at h
    omega
  · rw [toDouble, if_pos (by omega)]

/-! ## Rows -/

theorem PriceGrid.rows_pos (grid : PriceGrid) : 0 < grid.rows := by
  rw [grid.spaced]
  exact Nat.succ_pos _

theorem rowForPrice_lt (grid : PriceGrid) (priceE4 : Nat) :
    rowForPrice grid priceE4 < grid.rows := by
  have hpos := grid.rows_pos
  have hle : rowForPrice grid priceE4 ≤ grid.rows - 1 := min_le_left _ _
  omega

theorem sameRows_iff {left right : PriceGrid} :
    sameRows left right = true ↔ left.rowStepE4 = right.rowStepE4 ∧ left.rows = right.rows :=
  decide_eq_true_iff

/-- The prices nearest to a row. -/
def rowPrices (grid : PriceGrid) (row : Nat) : Finset Nat :=
  (Finset.range (maxPriceE4 + 1)).filter fun p => rowForPrice grid p = row

/-- What rests at a price, bids and asks together. -/
def Book.resting (w : Book) (p : Nat) : Int := w.count .bid p + w.count .ask p

/-- The count of all prices of a row. -/
def rowSum (w : Book) (grid : PriceGrid) (row : Nat) : Int :=
  ∑ p ∈ rowPrices grid row, w.resting p

/-- The sums of all rows. -/
def rowSums (w : Book) (grid : PriceGrid) : List Int := (List.range grid.rows).map (rowSum w grid)

@[simp] theorem length_rowSums (w : Book) (grid : PriceGrid) :
    (rowSums w grid).length = grid.rows := by
  rw [rowSums, List.length_map, List.length_range]

theorem getD_rowSums {w : Book} {grid : PriceGrid} {row : Nat} (h : row < grid.rows) :
    (rowSums w grid).getD row 0 = rowSum w grid row := by
  rw [rowSums, List.getD_eq_getElem _ _ (by simpa using h), List.getElem_map, List.getElem_range]

/-- Totals that are the sums row by row are the sums. -/
theorem eq_rowSums {totals : List Int} {w : Book} {grid : PriceGrid}
    (hlength : totals.length = grid.rows)
    (h : ∀ row, row < grid.rows → totals.getD row 0 = rowSum w grid row) :
    totals = rowSums w grid := by
  refine List.ext_getElem (by rw [hlength, length_rowSums]) fun row hrow hrow' => ?_
  have hat := h row (hlength ▸ hrow)
  rw [List.getD_eq_getElem _ _ hrow] at hat
  simp only [hat, rowSums, List.getElem_map, List.getElem_range]

theorem rowSums_congr {left right : PriceGrid} (h : sameRows left right = true) (w : Book) :
    rowSums w left = rowSums w right := by
  obtain ⟨hstep, hrows⟩ := sameRows_iff.mp h
  have hrow : ∀ p, rowForPrice left p = rowForPrice right p := by
    intro p
    rw [rowForPrice, rowForPrice, hstep, hrows]
  have hprices : rowPrices left = rowPrices right := by
    funext row
    rw [rowPrices, rowPrices]
    exact Finset.filter_congr fun p _ => by rw [hrow p]
  have hsum : rowSum w left = rowSum w right := by
    funext row
    rw [rowSum, rowSum, hprices]
  rw [rowSums, rowSums, hsum, hrows]

/-- No count is negative. -/
def Book.Nonneg (w : Book) : Prop := ∀ side p, 0 ≤ w.count side p

theorem Book.Nonneg.resting {w : Book} (h : w.Nonneg) (p : Nat) : 0 ≤ w.resting p :=
  Int.add_nonneg (h .bid p) (h .ask p)

theorem mem_rowPrices {grid : PriceGrid} {p : Nat} (h : p ≤ maxPriceE4) :
    p ∈ rowPrices grid (rowForPrice grid p) :=
  Finset.mem_filter.mpr ⟨Finset.mem_range.mpr (Nat.lt_succ_iff.mpr h), rfl⟩

/-- A count is no larger than its row. -/
theorem Book.Nonneg.count_le {w : Book} (h : w.Nonneg) (grid : PriceGrid) (side : Side) {p : Nat}
    (hp : p ≤ maxPriceE4) : w.count side p ≤ rowSum w grid (rowForPrice grid p) := by
  have hresting : w.resting p ≤ rowSum w grid (rowForPrice grid p) :=
    Finset.single_le_sum (fun q _ => h.resting q) (mem_rowPrices hp)
  refine le_trans ?_ hresting
  cases side with
  | bid => exact Int.le_add_of_nonneg_right (h .ask p)
  | ask => exact Int.le_add_of_nonneg_left (h .bid p)

theorem Book.Nonneg.rowSum {w : Book} (h : w.Nonneg) (grid : PriceGrid) (row : Nat) :
    0 ≤ Web.rowSum w grid row :=
  Finset.sum_nonneg fun p _ => h.resting p

/-! ## The empty book -/

theorem count_new (side : Side) (p : Nat) : Book.new.count side p = 0 := by
  cases side with
  | bid => exact Book.countAt_new p
  | ask => exact Book.countAt_new p

theorem nonneg_new : Book.new.Nonneg := fun side p => le_of_eq (count_new side p).symm

theorem rowSum_new (grid : PriceGrid) (row : Nat) : rowSum Book.new grid row = 0 := by
  refine Finset.sum_eq_zero fun p _ => ?_
  rw [Book.resting, count_new, count_new, Int.add_zero]

theorem rowSums_new (grid : PriceGrid) : rowSums Book.new grid = List.replicate grid.rows 0 := by
  refine (eq_rowSums List.length_replicate fun row hrow => ?_).symm
  rw [rowSum_new, List.getD_replicate _ hrow]

/-! ## A delta -/

theorem Book.count_changed (w : Book) (side s : Side) {p : Nat} (hp : p ≤ maxPriceE4) (x : Int)
    (q : Nat) : (w.changed side p x).count s q =
      if side = s ∧ p = q then x else w.count s q := by
  rw [count, changed_levels]
  by_cases hs : side = s
  · rw [if_pos hs, countAt_set hp]
    by_cases hq : p = q
    · rw [if_pos hq, if_pos ⟨hs, hq⟩]
    · rw [if_neg hq, if_neg fun hboth => hq hboth.2]
      rfl
  · rw [if_neg hs, if_neg fun hboth => hs hboth.1]
    rfl

theorem Book.Nonneg.changed {w : Book} (h : w.Nonneg) (side : Side) {p : Nat}
    (hp : p ≤ maxPriceE4) {x : Int} (hx : 0 ≤ x) : (w.changed side p x).Nonneg := by
  intro s q
  rw [count_changed w side s hp]
  split
  · exact hx
  · exact h s q

/-- A changed count moves its row by as much, and no other row. -/
theorem rowSum_changed (w : Book) (grid : PriceGrid) (side : Side) {p : Nat} (hp : p ≤ maxPriceE4)
    (x : Int) (row : Nat) : rowSum (w.changed side p x) grid row =
      rowSum w grid row + if rowForPrice grid p = row then x - w.count side p else 0 := by
  have hresting : ∀ q, (w.changed side p x).resting q =
      w.resting q + if p = q then x - w.count side p else 0 := by
    intro q
    rw [Book.resting, Book.resting, Book.count_changed w side .bid hp,
      Book.count_changed w side .ask hp]
    by_cases hq : p = q
    · subst hq
      cases side with
      | bid =>
          rw [if_pos ⟨rfl, rfl⟩, if_neg (by simp), if_pos rfl]
          omega
      | ask =>
          rw [if_neg (by simp), if_pos ⟨rfl, rfl⟩, if_pos rfl]
          omega
    · rw [if_neg fun hboth => hq hboth.2, if_neg fun hboth => hq hboth.2, if_neg hq, Int.add_zero]
  rw [rowSum, rowSum, Finset.sum_congr rfl fun q _ => hresting q, Finset.sum_add_distrib,
    Finset.sum_ite_eq]
  refine congrArg (_ + ·) (if_congr ?_ rfl rfl)
  rw [rowPrices, Finset.mem_filter, Finset.mem_range, Nat.lt_succ_iff]
  exact and_iff_right hp

theorem rowSums_changed (w : Book) (grid : PriceGrid) (side : Side) {p : Nat}
    (hp : p ≤ maxPriceE4) (x : Int) :
    (rowSums w grid).set (rowForPrice grid p)
      (rowSum (w.changed side p x) grid (rowForPrice grid p)) =
      rowSums (w.changed side p x) grid := by
  refine eq_rowSums (by rw [List.length_set, length_rowSums]) fun row hrow => ?_
  rw [List.getD_eq_getElem?_getD, List.getElem?_set, length_rowSums]
  split
  · next heq =>
      subst heq
      rw [if_pos hrow, Option.getD_some]
  · next hne =>
      rw [← List.getD_eq_getElem?_getD, getD_rowSums hrow, rowSum_changed w grid side hp,
        if_neg hne, Int.add_zero]

/-! ## A replaced book -/

theorem nonneg_setLevels {levels : Levels} {image : List PriceLevel}
    (hlevels : ∀ q, 0 ≤ countAt levels q)
    (himage : ∀ level ∈ image, level.1 ≤ maxPriceE4 ∧ 0 ≤ level.2) (q : Nat) :
    0 ≤ countAt (Book.setLevels levels image) q := by
  induction image generalizing levels with
  | nil => exact hlevels q
  | cons level image ih =>
      obtain ⟨hprice, hcount⟩ := himage level List.mem_cons_self
      refine ih (fun q => ?_) fun l hl => himage l (List.mem_cons_of_mem _ hl)
      rw [Book.countAt_set hprice]
      split
      · exact hcount
      · exact hlevels q

theorem nonneg_replace {w : Book} {bids asks : List PriceLevel}
    (h : ∀ level ∈ bids ++ asks, level.1 ≤ maxPriceE4 ∧ 0 ≤ level.2) :
    (w.replace bids asks).Nonneg := by
  have hzero : ∀ q, 0 ≤ countAt (Vector.replicate (maxPriceE4 + 1) 0) q :=
    fun q => le_of_eq (Book.countAt_new q).symm
  intro side q
  cases side with
  | bid => exact nonneg_setLevels hzero (fun l hl => h l (List.mem_append_left _ hl)) q
  | ask => exact nonneg_setLevels hzero (fun l hl => h l (List.mem_append_right _ hl)) q

/-! ## A pass over the whole book -/

/-- What levels add to a row. -/
def addedTo (grid : PriceGrid) (row : Nat) (levels : List (Side × Nat × Int)) : Int :=
  (levels.map fun level => if rowForPrice grid level.2.1 = row then level.2.2 else 0).sum

theorem addedTo_nonneg {grid : PriceGrid} {row : Nat} {levels : List (Side × Nat × Int)}
    (h : ∀ level ∈ levels, 0 ≤ level.2.2) : 0 ≤ addedTo grid row levels := by
  refine List.sum_nonneg fun x hx => ?_
  obtain ⟨level, hlevel, rfl⟩ := List.mem_map.mp hx
  split
  · exact h level hlevel
  · exact Int.le_refl 0

@[simp] theorem length_addLevel (grid : PriceGrid) (totals : List Int)
    (level : Side × Nat × Int) : (TapeStore.addLevel grid totals level).length = totals.length :=
  List.length_set

theorem getD_addLevel {grid : PriceGrid} {totals : List Int} (hlength : totals.length = grid.rows)
    (level : Side × Nat × Int) (row : Nat) :
    (TapeStore.addLevel grid totals level).getD row 0 =
      if rowForPrice grid level.2.1 = row then toDouble (totals.getD row 0 + level.2.2)
      else totals.getD row 0 := by
  have hin : rowForPrice grid level.2.1 < totals.length := hlength ▸ rowForPrice_lt grid _
  rw [TapeStore.addLevel, List.getD_eq_getElem?_getD, List.getElem?_set]
  split
  · next heq =>
      rw [heq]
      rfl
  · next hne => rw [List.getD_eq_getElem?_getD]

/-- A pass adds exactly what the levels hold, if no row reaches 2^53. -/
theorem foldl_addLevel {grid : PriceGrid} {levels : List (Side × Nat × Int)} {totals : List Int}
    (hlength : totals.length = grid.rows) (hcounts : ∀ level ∈ levels, 0 ≤ level.2.2)
    (htotals : ∀ row, 0 ≤ totals.getD row 0)
    (hsmall : ∀ row, row < grid.rows → totals.getD row 0 + addedTo grid row levels < 2 ^ 53) :
    (levels.foldl (TapeStore.addLevel grid) totals).length = grid.rows ∧
      ∀ row, row < grid.rows → (levels.foldl (TapeStore.addLevel grid) totals).getD row 0 =
        totals.getD row 0 + addedTo grid row levels := by
  induction levels generalizing totals with
  | nil => exact ⟨hlength, fun row _ => (Int.add_zero _).symm⟩
  | cons level levels ih =>
      have hcount := hcounts level List.mem_cons_self
      have hrest : ∀ l ∈ levels, 0 ≤ l.2.2 := fun l hl => hcounts l (List.mem_cons_of_mem _ hl)
      have hadded : ∀ row, addedTo grid row (level :: levels) =
          (if rowForPrice grid level.2.1 = row then level.2.2 else 0) + addedTo grid row levels :=
        fun row => List.sum_cons
      have hone : ∀ row, (TapeStore.addLevel grid totals level).getD row 0 =
          totals.getD row 0 + if rowForPrice grid level.2.1 = row then level.2.2 else 0 := by
        intro row
        rw [getD_addLevel hlength]
        split
        · next heq =>
            have hbound := hsmall row (heq ▸ rowForPrice_lt grid _)
            have hlater := @addedTo_nonneg grid row levels hrest
            have hold := htotals row
            rw [hadded row, if_pos heq] at hbound
            exact toDouble_of_small (by omega) (by omega)
        · rw [Int.add_zero]
      obtain ⟨hlen, hat⟩ := @ih (TapeStore.addLevel grid totals level)
        (by rw [length_addLevel, hlength]) hrest
        (fun row => by
          rw [hone]
          have hold := htotals row
          split
          · omega
          · omega)
        (fun row hrow => by
          have hbound := hsmall row hrow
          rw [hadded row] at hbound
          rw [hone]
          omega)
      refine ⟨hlen, fun row hrow => ?_⟩
      rw [List.foldl_cons, hat row hrow, hone, hadded row, Int.add_assoc]

/-- What a pass visits at one price. -/
theorem addedTo_price {w : Book} (h : w.Nonneg) (grid : PriceGrid) (row p : Nat) :
    addedTo grid row
      ((if w.count .bid p > 0 then [(Side.bid, p, w.count .bid p)] else []) ++
        (if w.count .ask p > 0 then [(Side.ask, p, w.count .ask p)] else [])) =
      if rowForPrice grid p = row then w.resting p else 0 := by
  have hside : ∀ side, addedTo grid row
      (if w.count side p > 0 then [(side, p, w.count side p)] else []) =
      if rowForPrice grid p = row then w.count side p else 0 := by
    intro side
    have hcount := h side p
    split
    · exact List.sum_singleton
    · next hnone =>
        have hzero : w.count side p = 0 := by omega
        rw [hzero, ite_self]
        rfl
  have happend : ∀ left right, addedTo grid row (left ++ right) =
      addedTo grid row left + addedTo grid row right := by
    intro left right
    rw [addedTo, List.map_append, List.sum_append]
    rfl
  rw [happend, hside, hside, Book.resting]
  split
  · rfl
  · rfl

theorem addedTo_forEachLevel {w : Book} (h : w.Nonneg) (grid : PriceGrid) (row : Nat) :
    addedTo grid row w.forEachLevel = rowSum w grid row := by
  rw [rowSum, rowPrices, Finset.sum_filter, Book.forEachLevel]
  generalize maxPriceE4 + 1 = n
  induction n with
  | zero => rfl
  | succ n ih =>
      rw [Finset.sum_range_succ, ← ih, ← addedTo_price h grid row n, List.range_succ,
        List.flatMap_append, List.flatMap_singleton, addedTo, List.map_append, List.sum_append]
      rfl

theorem forEachLevel_pos {w : Book} {level : Side × Nat × Int} (h : level ∈ w.forEachLevel) :
    0 ≤ level.2.2 := by
  obtain ⟨p, -, hin⟩ := List.mem_flatMap.mp h
  have hside : ∀ side, level ∈ (if w.count side p > 0 then [(side, p, w.count side p)] else []) →
      0 ≤ level.2.2 := by
    intro side hmem
    split at hmem
    · next hpos =>
        rw [List.mem_singleton.mp hmem]
        exact le_of_lt hpos
    · exact absurd hmem List.not_mem_nil
  rcases List.mem_append.mp hin with hbid | hask
  · exact hside .bid hbid
  · exact hside .ask hask

/-- A pass over the book gives the sums of its rows, if they are below 2^53. -/
theorem rasterized {w : Book} (h : w.Nonneg) {grid : PriceGrid} {totals : List Int}
    (hlength : totals.length = grid.rows)
    (hsmall : ∀ row, row < grid.rows → rowSum w grid row < 2 ^ 53) :
    w.forEachLevel.foldl (TapeStore.addLevel grid) (totals.map fun _ => 0) = rowSums w grid := by
  have hzero : ∀ row, (totals.map fun _ => (0 : Int)).getD row 0 = 0 := by
    intro row
    rw [List.map_const', List.getD_eq_getElem?_getD, List.getElem?_replicate]
    split
    · rfl
    · rfl
  obtain ⟨hlen, hat⟩ := @foldl_addLevel grid w.forEachLevel
    (totals.map fun _ => 0) (by rw [List.length_map, hlength])
    (fun level hlevel => forEachLevel_pos hlevel) (fun row => le_of_eq (hzero row).symm)
    (fun row hrow => by
      rw [hzero, Int.zero_add, addedTo_forEachLevel h]
      exact hsmall row hrow)
  refine eq_rowSums hlen fun row hrow => ?_
  rw [hat row hrow, hzero, Int.zero_add, addedTo_forEachLevel h]

end Tape.Web
