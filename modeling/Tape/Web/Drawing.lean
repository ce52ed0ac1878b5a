import Tape.Web.DepthRing
import Tape.Web.RowTotals

/-!
# What one act does to the store

A store is `Sound` if its row totals are the sums of its book's rows, and the
head column shows the book. From a sound store an act does one of three things
(`Effect`). It can leave the picture as it is. It can move the head to its bin
and draw the head column, so that the bins it passes show the book that was
there before and the head shows the book there is now; a status is only raised
while the head stays, and starts from that of the passing time when it moves.
Or it starts a new picture, on other rows.
-/

namespace Tape.Web

open Tape.Page (KnownBookState BookSide MarketMessage)

/-- What the decoder lets through: prices up to a dollar, and no negative
count. -/
def Decoded : MarketMessage → Prop
  | .snapshot _ _ bids asks => ∀ level ∈ bids ++ asks, level.1 ≤ maxPriceE4 ∧ 0 ≤ level.2
  | .delta _ _ priceE4 _ => priceE4 ≤ maxPriceE4
  | _ => True

/-- A message that the decoder can give. -/
def HeatmapAct.Decoded : HeatmapAct → Prop
  | .message m _ => Web.Decoded m
  | _ => True

namespace TapeStore

variable {α : Type} {n : Numbers α} {s s' : TapeStore α}

/-- No row's counts sum to 2^53 or more. -/
def Small (s : TapeStore α) : Prop :=
  ∀ row, row < s.grid.rows → rowSum s.book s.grid row < 2 ^ 53

theorem small_of_book {s : TapeStore α} {w : Book} (hbook : s.book = w)
    (h : ∀ grid row, rowSum w grid row < 2 ^ 53) : s.Small := fun row _ => hbook ▸ h s.grid row

/-- The column that shows a store's book, with a status. -/
def look (n : Numbers α) (s : TapeStore α) (status : Nat) : Column α where
  depth := (rowSums s.book s.grid).map n.encode
  bestBid := DepthHistory.quote s.book.bestBid
  bestAsk := DepthHistory.quote s.book.bestAsk
  status := status

/-- The same book on the same rows, in the same state. -/
structure Same (s s' : TapeStore α) : Prop where
  book : s'.book = s.book
  rows : sameRows s'.grid s.grid = true
  status : s'.statusCode = s.statusCode

theorem sameRows_refl (grid : PriceGrid) : sameRows grid grid = true :=
  sameRows_iff.mpr ⟨rfl, rfl⟩

theorem sameRows_trans {a b c : PriceGrid} (hab : sameRows a b = true)
    (hbc : sameRows b c = true) : sameRows a c = true := by
  obtain ⟨hstep, hrows⟩ := sameRows_iff.mp hab
  obtain ⟨hstep', hrows'⟩ := sameRows_iff.mp hbc
  exact sameRows_iff.mpr ⟨hstep.trans hstep', hrows.trans hrows'⟩

theorem sameRows_symm {a b : PriceGrid} (h : sameRows a b = true) : sameRows b a = true := by
  obtain ⟨hstep, hrows⟩ := sameRows_iff.mp h
  exact sameRows_iff.mpr ⟨hstep.symm, hrows.symm⟩

theorem Same.refl (s : TapeStore α) : Same s s := ⟨rfl, sameRows_refl _, rfl⟩

theorem Same.trans {s'' : TapeStore α} (h : Same s s') (h' : Same s' s'') : Same s s'' where
  book := h'.book.trans h.book
  rows := sameRows_trans h'.rows h.rows
  status := h'.status.trans h.status

theorem Same.look (h : Same s s') (status : Nat) : s'.look n status = s.look n status := by
  rw [TapeStore.look, TapeStore.look, h.book, rowSums_congr h.rows]

/-- The totals are those of the book, and an unknown book is empty. -/
structure Totalled (s : TapeStore α) : Prop where
  totals : s.rowTotals = rowSums s.book s.grid
  nonneg : s.book.Nonneg
  unknown : s.status = .unknown → s.book = Book.new

/-- The head column shows the book, with a status no better than the book's. -/
structure Sound (n : Numbers α) (s : TapeStore α) : Prop extends Totalled s where
  holds : s.history.Holds s.history.columnAt
  head : s.history.columnAt s.history.headBin =
    s.look n (s.history.columnAt s.history.headBin).status
  status : s.statusCode ≤ (s.history.columnAt s.history.headBin).status

/-- What the bins show when the head moves on and nothing is drawn. -/
def passed (s : TapeStore α) (bin : Int) : Column α :=
  if bin ≤ s.history.headBin then s.history.columnAt bin
  else { s.history.columnAt s.history.headBin with status := s.statusCode }

/-- The head moved to a bin, unless it was there, and drawn. -/
structure Moved (n : Numbers α) (s : TapeStore α) (bin : Int) (s' : TapeStore α) : Prop where
  rows : sameRows s'.grid s.grid = true
  capacity : s'.history.capacity = s.history.capacity
  headBin : s'.history.headBin = max s.history.headBin bin
  oldestBin : s'.history.oldestBin =
    max s.history.oldestBin (s'.history.headBin - s.history.capacity + 1)
  holds : s'.history.Holds (Function.update s.passed s'.history.headBin
    (s'.look n (max (s.passed s'.history.headBin).status s'.statusCode)))

/-- A new picture, whose first bin is the one given. -/
structure Restarted (n : Numbers α) (bin : Int) (s' : TapeStore α) : Prop where
  capacity : s'.history.capacity = s'.options.historyColumns
  headBin : s'.history.headBin = bin
  oldestBin : s'.history.oldestBin = bin
  holds : s'.history.Holds (fun _ => s'.look n s'.statusCode)

/-- What a call does to the history: nothing but the edge's status, or a
move. -/
inductive Effect (n : Numbers α) (s : TapeStore α) (bin : Int) (s' : TapeStore α) : Prop where
  | idle (status : Nat) (history : s'.history = s.history.setEdgeStatus status)
      (same : Same s s')
  | moved (h : Moved n s bin s')

/-! ## Soundness from what was drawn -/

theorem sound_of_holds {f : Int → Column α} (ht : Totalled s) (hh : s.history.Holds f)
    {status : Nat} (hhead : f s.history.headBin = s.look n status)
    (hstatus : s.statusCode ≤ status) : Sound n s := by
  have hcolumn : s.history.columnAt s.history.headBin = s.look n status :=
    hh.headColumn.trans hhead
  refine ⟨ht, hh.self, ?_, ?_⟩
  · rw [hcolumn]
    rfl
  · rw [hcolumn]
    exact hstatus

theorem Moved.sound {bin : Int} (h : Moved n s bin s') (ht : Totalled s') : Sound n s' :=
  sound_of_holds ht h.holds (Function.update_self _ _ _) (Nat.le_max_right _ _)

theorem Restarted.sound {bin : Int} (h : Restarted n bin s') (ht : Totalled s') : Sound n s' :=
  sound_of_holds ht h.holds rfl (Nat.le_refl _)

theorem Same.totalled (h : Same s s') (ht : Totalled s) (htotals : s'.rowTotals = s.rowTotals)
    (hunknown : s'.status = .unknown → s.status = .unknown) : Totalled s' where
  totals := by rw [htotals, ht.totals, h.book, rowSums_congr h.rows]
  nonneg := h.book.symm ▸ ht.nonneg
  unknown hs := h.book.trans (ht.unknown (hunknown hs))

/-- The picture left as it is. -/
theorem Sound.idle (hs : Sound n s) {status : Nat}
    (hhistory : s'.history = s.history.setEdgeStatus status) (hsame : Same s s')
    (ht : Totalled s') : Sound n s' := by
  have hholds : s'.history.Holds s.history.columnAt := by
    rw [hhistory]
    exact hs.holds.setEdgeStatus status
  have hbin : s'.history.headBin = s.history.headBin := by
    rw [hhistory]
    rfl
  refine sound_of_holds ht hholds ?_ (hsame.status.trans_le hs.status)
  rw [hbin, hsame.look]
  exact hs.head

/-- What passes of the head still shows the book. -/
theorem Sound.passed (hs : Sound n s) {bin : Int} (hbin : s.history.headBin ≤ bin) :
    s.passed bin = s.look n (s.passed bin).status ∧ s.statusCode ≤ (s.passed bin).status := by
  rw [TapeStore.passed]
  split
  · next hle =>
      obtain rfl : bin = s.history.headBin := by omega
      exact ⟨hs.head, hs.status⟩
  · rw [hs.head]
    exact ⟨rfl, Nat.le_refl _⟩

theorem Totalled.length (ht : Totalled s) : s.rowTotals.length = s.grid.rows := by
  rw [ht.totals, length_rowSums]

/-- The head moved to a bin and drawn, over totals that are right again. -/
structure Redrawn (n : Numbers α) (s : TapeStore α) (bin : Int) (s' : TapeStore α) : Prop where
  moved : Moved n s bin s'
  totalled : Totalled s'

theorem Moved.changed {bin : Int} (h : Moved n s bin s') : Moved n s bin s'.changed where
  rows := h.rows
  capacity := h.capacity
  headBin := h.headBin
  oldestBin := h.oldestBin
  holds := h.holds.setEdgeStatus _

theorem Redrawn.changed {bin : Int} (h : Redrawn n s bin s') : Redrawn n s bin s'.changed :=
  ⟨h.moved.changed, h.totalled.totals, h.totalled.nonneg, h.totalled.unknown⟩

/-! ## The writes of the book -/

theorem rasterizeBook_totals (s : TapeStore α) : (s.rasterizeBook n).changed.rowTotals =
    s.book.forEachLevel.foldl (addLevel s.grid) (s.rowTotals.map fun _ => 0) := by
  rw [rasterizeBook, changed]

theorem rasterizeBook_eq (hlength : s.rowTotals.length = s.grid.rows) (hnonneg : s.book.Nonneg)
    (hsmall : s.Small) : s.rasterizeBook n =
      { s with
        rowTotals := rowSums s.book s.grid
        history := s.history.draw ((rowSums s.book s.grid).map n.encode) s.book.bestBid
          s.book.bestAsk s.statusCode } := by
  rw [rasterizeBook, rasterized hnonneg hlength hsmall]
  rfl

/-- One row of a column drawn over shows the changed book. -/
theorem look_changed {side : Side} {p : Nat} (hp : p ≤ maxPriceE4) {x : Int}
    (hbook : s'.book = s.book.changed side p x) (hgrid : s'.grid = s.grid) (status : Nat) :
    { s.look n status with
      depth := (s.look n status).depth.set (rowForPrice s.grid p)
        (n.encode (rowSum (s.book.changed side p x) s.grid (rowForPrice s.grid p)))
      bestBid := DepthHistory.quote (s.book.changed side p x).bestBid
      bestAsk := DepthHistory.quote (s.book.changed side p x).bestAsk } = s'.look n status := by
  rw [look, look, ← List.map_set, rowSums_changed _ _ _ hp, hbook, hgrid]

theorem binIndex_nonneg (n : Numbers α) (s : TapeStore α) (atMs : ℚ) : 0 ≤ s.binIndex n atMs :=
  Int.floor_nonneg.mpr (le_max_left _ _)

/-- Later times have later bins. -/
theorem binIndex_mono (hround : Monotone n.round) (s : TapeStore α) :
    Monotone (s.binIndex n) := by
  intro atMs atMs' hle
  have hpos := s.options.binPos
  refine Int.floor_mono (max_le_max (le_refl 0) (hround ?_))
  exact div_le_div_of_nonneg_right (hround (sub_le_sub_right hle _)) (le_of_lt hpos)

/-- What starts a new picture: other rows. -/
def restarts (s : TapeStore α) : HeatmapAct → Bool
  | .setGrid grid _ => !sameRows grid s.grid
  | _ => false

/-- What one act leads to, if it starts no new picture. -/
structure Stepped (n : Numbers α) (s : TapeStore α) (bin : Int) (s' : TapeStore α) : Prop where
  effect : Effect n s bin s'
  totalled : Totalled s'

theorem Redrawn.stepped {bin : Int} (h : Redrawn n s bin s') : Stepped n s bin s' :=
  ⟨.moved h.moved, h.totalled⟩

theorem Sound.stepped_none (hs : Sound n s) (bin : Int) : Stepped n s bin s :=
  ⟨.idle s.history.edgeStatus rfl (.refl s), hs.toTotalled⟩

theorem Sound.stepped_changed (hs : Sound n s) (bin : Int) : Stepped n s bin s.changed :=
  ⟨.idle s.statusCode rfl ⟨rfl, sameRows_refl _, rfl⟩, hs.totals, hs.nonneg, hs.unknown⟩

variable [Zero α]

theorem Sound.advanced (hs : Sound n s) (atMs : ℚ) :
    (s.advance n atMs).history.Holds s.passed :=
  hs.holds.advanceTo _ _

/-- The head moved to the bin of a time, and drawn. -/
theorem Sound.moved (hs : Sound n s) {atMs : ℚ} (hrows : sameRows s'.grid s.grid = true)
    (hframe : DepthHistory.Framed (s.advance n atMs).history s'.history)
    (hholds : s'.history.Holds (Function.update s.passed (s.advance n atMs).history.headBin
      (s'.look n (max (s.passed (s.advance n atMs).history.headBin).status s'.statusCode)))) :
    Moved n s (s.binIndex n atMs) s' where
  rows := hrows
  capacity := hframe.capacity.trans (DepthHistory.advanceTo_capacity hs.holds _ _)
  headBin := hframe.headBin.trans (DepthHistory.advanceTo_headBin hs.holds _ _)
  oldestBin := by
    rw [hframe.oldestBin, hframe.headBin]
    have hhead := DepthHistory.advanceTo_headBin hs.holds (s.binIndex n atMs) s.statusCode
    refine (DepthHistory.advanceTo_oldestBin hs.holds _ _).trans ?_
    rw [← hhead]
    rfl
  holds := hframe.headBin ▸ hholds

/-- The head moved, over a book that is as it was. -/
theorem Sound.moved_same (hs : Sound n s) {atMs : ℚ} (hsame : Same s s')
    (hframe : DepthHistory.Framed (s.advance n atMs).history s'.history)
    (hholds : s'.history.Holds s.passed) : Moved n s (s.binIndex n atMs) s' := by
  refine hs.moved hsame.rows hframe ?_
  rw [← hframe.headBin]
  have hhead : s'.history.headBin = max s.history.headBin (s.binIndex n atMs) :=
    hframe.headBin.trans (DepthHistory.advanceTo_headBin hs.holds _ _)
  obtain ⟨hlook, hstatus⟩ := hs.passed (le_max_left s.history.headBin (s.binIndex n atMs))
  rw [← hhead] at hlook hstatus
  refine hholds.same ?_
  rw [hsame.status, Nat.max_eq_left hstatus, hsame.look]
  exact hlook

/-- The head column drawn from the book, once the head moved. -/
theorem Sound.drawn (hs : Sound n s) {atMs : ℚ} (hrows : sameRows s'.grid s.grid = true)
    (hhistory : s'.history = (s.advance n atMs).history.draw
      ((rowSums s'.book s'.grid).map n.encode) s'.book.bestBid s'.book.bestAsk s'.statusCode) :
    Moved n s (s.binIndex n atMs) s' := by
  refine hs.moved hrows ?_ ?_
  · rw [hhistory]
    exact DepthHistory.framed_draw _ _ _ _ _
  · rw [hhistory]
    exact (hs.advanced atMs).draw _ _ _ _

theorem discardBook_eq (hencode : n.encode 0 = 0) (hlength : s.rowTotals.length = s.grid.rows) :
    s.discardBook =
      { s with
        book := .new
        status := .unknown
        gap := true
        rowTotals := rowSums .new s.grid
        history := s.history.draw ((rowSums .new s.grid).map n.encode) none none
          ColumnStatus.gap } := by
  have hzeros : (s.rowTotals.map fun _ => (0 : Int)) = rowSums .new s.grid := by
    rw [List.map_const', hlength, rowSums_new]
  have hprofile : (rowSums .new s.grid).map n.encode = List.replicate s.grid.rows 0 := by
    rw [rowSums_new, List.map_replicate, hencode]
  rw [discardBook, hzeros, hprofile]
  rfl

/-! ## The acts -/

/-- Only the head moved. -/
theorem Sound.redrawn_advance (hs : Sound n s) (atMs : ℚ) :
    Redrawn n s (s.binIndex n atMs) (s.advance n atMs) where
  moved := hs.moved_same ⟨rfl, sameRows_refl _, rfl⟩ (.refl _) (hs.advanced atMs)
  totalled := ⟨hs.totals, hs.nonneg, hs.unknown⟩

theorem Sound.redrawn_discard (hs : Sound n s) (hencode : n.encode 0 = 0) (atMs : ℚ) :
    Redrawn n s (s.binIndex n atMs) (s.advance n atMs).discardBook := by
  have heq := @discardBook_eq _ n (s.advance n atMs) _ hencode hs.length
  rw [heq]
  exact ⟨hs.drawn (sameRows_refl _) rfl, rfl, nonneg_new, fun _ => rfl⟩

theorem Sound.redrawn_snapshot (hs : Sound n s) {ticker : Ticker} {book : KnownBookState}
    {bids asks : List PriceLevel} {atMs : ℚ} (hdecoded : Decoded (.snapshot ticker book bids asks))
    (hsmall : (s.dispatch n (.snapshot ticker book bids asks) atMs).Small) :
    Redrawn n s (s.binIndex n atMs) (s.dispatch n (.snapshot ticker book bids asks) atMs) := by
  have hnonneg : (s.book.replace bids asks).Nonneg := nonneg_replace hdecoded
  have hknown : book.status ≠ .unknown := by cases book <;> decide
  have heq := @rasterizeBook_eq _ n
    { s.advance n atMs with book := s.book.replace bids asks, status := book.status, gap := false }
    hs.length hnonneg hsmall
  have hdispatch : s.dispatch n (.snapshot ticker book bids asks) atMs = _ := heq
  rw [hdispatch]
  exact ⟨hs.drawn (sameRows_refl _) rfl, rfl, hnonneg, fun h => absurd h hknown⟩

/-- One row and the best prices drawn, once the head moved. -/
theorem Sound.drawn_row (hs : Sound n s) {atMs : ℚ} {side : Side} {p : Nat} (hp : p ≤ maxPriceE4)
    {x : Int} (hgrid : s'.grid = s.grid) (hbook : s'.book = s.book.changed side p x)
    (hfresh : s'.status = .fresh)
    (hhistory : s'.history = ((s.advance n atMs).history.setHeadRow (rowForPrice s.grid p)
      (n.encode (rowSum (s.book.changed side p x) s.grid (rowForPrice s.grid p)))).setHeadQuotes
        (s.book.changed side p x).bestBid (s.book.changed side p x).bestAsk) :
    Moved n s (s.binIndex n atMs) s' := by
  have hcode : s'.statusCode = 0 := by
    rw [statusCode, hfresh]
    rfl
  obtain ⟨hlook, -⟩ := hs.passed (le_max_left s.history.headBin (s.binIndex n atMs))
  rw [← DepthHistory.advanceTo_headBin hs.holds _ s.statusCode] at hlook
  refine hs.moved (hgrid ▸ sameRows_refl _) ?_ ?_
  · rw [hhistory]
    exact (DepthHistory.framed_setHeadRow _ _ _).trans (DepthHistory.framed_setHeadQuotes _ _ _)
  · have hholds := (hs.advanced atMs).redraw (rowForPrice s.grid p)
      (n.encode (rowSum (s.book.changed side p x) s.grid (rowForPrice s.grid p)))
      (s.book.changed side p x).bestBid (s.book.changed side p x).bestAsk
    rw [hhistory, hcode, Nat.max_zero, ← look_changed hp hbook hgrid]
    refine hholds.congr fun b _ _ => congrFun (congrArg (Function.update s.passed _) ?_) b
    exact congrArg (fun c : Column α =>
      { c with
        depth := c.depth.set (rowForPrice s.grid p)
          (n.encode (rowSum (s.book.changed side p x) s.grid (rowForPrice s.grid p)))
        bestBid := DepthHistory.quote (s.book.changed side p x).bestBid
        bestAsk := DepthHistory.quote (s.book.changed side p x).bestAsk }) hlook

/-- A delta that fits moves one row, by as much as it moved the book. -/
theorem Sound.redrawn_changed (hs : Sound n s) {atMs : ℚ} (hfresh : s.status = .fresh)
    {side : Side} {p : Nat} (hp : p ≤ maxPriceE4) {x delta : Int} (hx : 0 ≤ x)
    (hdelta : x = toDouble (s.book.count side p + delta))
    (hsmall : rowSum (s.book.changed side p x) s.grid (rowForPrice s.grid p) < 2 ^ 53) :
    Redrawn n s (s.binIndex n atMs)
      { s.advance n atMs with
        book := s.book.changed side p x
        rowTotals := s.rowTotals.set (rowForPrice s.grid p)
          (max 0 (toDouble (s.rowTotals.getD (rowForPrice s.grid p) 0 + delta)))
        history := (((s.advance n atMs).history.setHeadRow (rowForPrice s.grid p)
          (n.encode (max 0 (toDouble (s.rowTotals.getD (rowForPrice s.grid p) 0 + delta))))
          ).setHeadQuotes (s.book.changed side p x).bestBid
            (s.book.changed side p x).bestAsk) } := by
  have hnonneg := hs.nonneg.changed side hp hx
  -- the count is below its row, so neither was rounded
  have hcount : x = s.book.count side p + delta := by
    have hle := hnonneg.count_le s.grid side hp
    rw [Book.count_changed _ _ _ hp, if_pos ⟨rfl, rfl⟩] at hle
    have hnext : 0 ≤ s.book.count side p + delta := by
      by_contra hneg
      have := toDouble_neg (lt_of_not_ge hneg)
      omega
    rw [hdelta]
    exact toDouble_exact hnext (by omega)
  have hrow : rowSum (s.book.changed side p x) s.grid (rowForPrice s.grid p) =
      rowSum s.book s.grid (rowForPrice s.grid p) + delta := by
    rw [rowSum_changed _ _ _ hp, if_pos rfl]
    omega
  have htotal : max 0 (toDouble (s.rowTotals.getD (rowForPrice s.grid p) 0 + delta)) =
      rowSum (s.book.changed side p x) s.grid (rowForPrice s.grid p) := by
    have hsum := hnonneg.rowSum s.grid (rowForPrice s.grid p)
    rw [hs.totals, getD_rowSums (rowForPrice_lt _ _), ← hrow, toDouble_of_small hsum hsmall]
    exact max_eq_right hsum
  have htotals : s.rowTotals.set (rowForPrice s.grid p)
      (max 0 (toDouble (s.rowTotals.getD (rowForPrice s.grid p) 0 + delta))) =
      rowSums (s.book.changed side p x) s.grid := by
    rw [htotal, hs.totals, rowSums_changed _ _ _ hp]
  rw [htotals, htotal]
  exact ⟨hs.drawn_row hp rfl rfl hfresh rfl, rfl, hnonneg,
    fun h => absurd (hfresh.symm.trans h) (by decide)⟩

theorem Sound.redrawn_delta (hs : Sound n s) (hencode : n.encode 0 = 0) {ticker : Ticker}
    {bookSide : BookSide} {p : Nat} {delta : Int} {atMs : ℚ} (hp : p ≤ maxPriceE4)
    (hsmall : (s.dispatch n (.delta ticker bookSide p delta) atMs).Small) :
    Redrawn n s (s.binIndex n atMs) (s.dispatch n (.delta ticker bookSide p delta) atMs) := by
  have hdispatch : s.dispatch n (.delta ticker bookSide p delta) atMs =
      (s.advance n atMs).changeLevel n (side bookSide) p delta := rfl
  rw [hdispatch] at hsmall ⊢
  by_cases hfresh : s.status = .fresh
  · have hthen : (s.advance n atMs).changeLevel n (side bookSide) p delta = _ :=
      if_neg (not_not.mpr hfresh)
    have happly : (s.advance n atMs).book.applyDelta (side bookSide) p delta = _ :=
      Book.applyDelta_eq s.book (side bookSide) p delta
    by_cases hnegative : toDouble (s.book.count (side bookSide) p + delta) < 0
    · rw [if_pos hnegative] at happly
      rw [hthen, happly]
      exact hs.redrawn_discard hencode atMs
    · rw [if_neg hnegative] at happly
      rw [happly] at hthen
      rw [hthen] at hsmall ⊢
      exact hs.redrawn_changed hfresh hp (not_lt.mp hnegative) rfl
        (hsmall _ (rowForPrice_lt _ _))
  · have hthen : (s.advance n atMs).changeLevel n (side bookSide) p delta = s.advance n atMs :=
      if_pos hfresh
    rw [hthen]
    exact hs.redrawn_advance atMs

/-- Only the status drawn, once the head moved. -/
theorem Sound.raised (hs : Sound n s) {atMs : ℚ} (hbook : s'.book = s.book)
    (hgrid : s'.grid = s.grid)
    (hhistory : s'.history = (s.advance n atMs).history.raiseHeadStatus s'.statusCode) :
    Moved n s (s.binIndex n atMs) s' := by
  obtain ⟨hlook, -⟩ := hs.passed (le_max_left s.history.headBin (s.binIndex n atMs))
  rw [← DepthHistory.advanceTo_headBin hs.holds _ s.statusCode] at hlook
  have hsame : ∀ status, s'.look n status = s.look n status := by
    intro status
    rw [look, look, hbook, hgrid]
  refine hs.moved (hgrid ▸ sameRows_refl _) ?_ ?_
  · rw [hhistory]
    exact DepthHistory.framed_raiseHeadStatus _ _
  · have hholds := (hs.advanced atMs).raiseHeadStatus s'.statusCode
    rw [hhistory, hsame]
    refine hholds.congr fun b _ _ => congrFun (congrArg (Function.update s.passed _) ?_) b
    exact congrArg (fun c : Column α => { c with
      status := max (s.passed (s.advance n atMs).history.headBin).status s'.statusCode }) hlook

theorem Sound.redrawn_book (hs : Sound n s) {ticker : Ticker} {book : KnownBookState} {atMs : ℚ} :
    Redrawn n s (s.binIndex n atMs) (s.dispatch n (.book ticker book) atMs) := by
  by_cases hunknown : s.status = .unknown
  · have hthen : s.dispatch n (.book ticker book) atMs = s.advance n atMs := if_pos hunknown
    rw [hthen]
    exact hs.redrawn_advance atMs
  · have hthen : s.dispatch n (.book ticker book) atMs = _ := if_neg hunknown
    have hknown : book.status ≠ .unknown := by cases book <;> decide
    rw [hthen]
    exact ⟨hs.raised rfl rfl rfl, hs.totals, hs.nonneg, fun h => absurd h hknown⟩

/-! ## One act -/

theorem Sound.stepped_apply (hs : Sound n s) (hencode : n.encode 0 = 0) {message : MarketMessage}
    {atMs : ℚ} (hdecoded : Decoded message) (hsmall : (s.apply n message atMs).Small) :
    Stepped n s (s.binIndex n atMs) (s.apply n message atMs) := by
  rw [apply] at hsmall ⊢
  split
  · exact hs.stepped_none _
  · next hours =>
      rw [if_neg hours] at hsmall
      cases message with
      | snapshot ticker book bids asks =>
          exact (hs.redrawn_snapshot hdecoded hsmall).changed.stepped
      | delta ticker side p delta =>
          exact (hs.redrawn_delta hencode hdecoded hsmall).changed.stepped
      | book ticker book => exact hs.redrawn_book.changed.stepped
      | resync ticker reason => exact (hs.redrawn_discard hencode atMs).changed.stepped
      | trade ticker => exact hs.stepped_changed _
      | ticker ticker => exact hs.stepped_changed _

theorem Sound.stepped_connectionLost (hs : Sound n s) (hencode : n.encode 0 = 0) (atMs : ℚ) :
    Stepped n s (s.binIndex n atMs) (s.markConnectionLost n atMs) := by
  rw [markConnectionLost]
  split
  · exact hs.stepped_none _
  · exact (hs.redrawn_discard hencode atMs).changed.stepped

theorem Sound.stepped_setGrid (hs : Sound n s) {grid : PriceGrid} {atMs : ℚ}
    (hsame : sameRows grid s.grid = true) :
    Stepped n s (s.binIndex n atMs) (s.setGrid n grid atMs) := by
  have hthen : s.setGrid n grid atMs = { s with grid }.changed := if_pos hsame
  have hlook : Same s { s with grid }.changed := ⟨rfl, hsame, rfl⟩
  rw [hthen]
  exact ⟨.idle s.statusCode rfl hlook, hlook.totalled hs.toTotalled rfl id⟩

/-- One act leaves the picture, or moves the head and draws it. -/
theorem Sound.step (hs : Sound n s) (hencode : n.encode 0 = 0) {act : HeatmapAct}
    (hdecoded : act.Decoded) (hsmall : (s.step n act).Small) (hstays : s.restarts act = false) :
    Stepped n s (s.binIndex n act.atMs) (s.step n act) := by
  cases act with
  | message message atMs => exact hs.stepped_apply hencode hdecoded hsmall
  | connectionLost atMs => exact hs.stepped_connectionLost hencode atMs
  | setGrid grid atMs => exact hs.stepped_setGrid (by simpa [restarts] using hstays)

/-- A store whose picture starts anew on a grid, with nothing drawn. -/
def relaid (n : Numbers α) (s : TapeStore α) (grid : PriceGrid) (atMs : ℚ) : TapeStore α :=
  { s with
    grid
    history := (DepthHistory.new s.options.historyColumns grid.rows).advanceTo (s.binIndex n atMs)
      s.statusCode
    rowTotals := List.replicate grid.rows 0 }

theorem setGrid_of_other {grid : PriceGrid} {atMs : ℚ} (hother : sameRows grid s.grid = false) :
    s.setGrid n grid atMs =
      (if s.status ≠ .unknown then (s.relaid n grid atMs).rasterizeBook n
        else s.relaid n grid atMs).changed :=
  if_neg (by rw [hother]; exact Bool.false_ne_true)

theorem holds_relaid (n : Numbers α) (s : TapeStore α) (grid : PriceGrid) (atMs : ℚ) :
    (s.relaid n grid atMs).history.Holds fun _ =>
      { depth := List.replicate grid.rows 0, bestBid := noPrice, bestAsk := noPrice,
        status := s.statusCode } :=
  DepthHistory.holds_first s.options.columnsPos (binIndex_nonneg n s atMs) s.statusCode

theorem restarted_drawn {grid : PriceGrid} {atMs : ℚ} (hoptions : s'.options = s.options)
    (hcode : s'.statusCode = s.statusCode)
    (hhistory : s'.history = ((s.relaid n grid atMs).history.draw
      ((rowSums s'.book s'.grid).map n.encode) s'.book.bestBid s'.book.bestAsk
        s'.statusCode).setEdgeStatus s'.statusCode) :
    Restarted n (s.binIndex n atMs) s' := by
  have hframe : DepthHistory.Framed (s.relaid n grid atMs).history s'.history := by
    rw [hhistory]
    exact (DepthHistory.framed_draw _ _ _ _ _).trans (DepthHistory.framed_setEdgeStatus _ _)
  refine ⟨?_, hframe.headBin, hframe.oldestBin, ?_⟩
  · rw [hframe.capacity, hoptions]
    rfl
  · have hholds := ((holds_relaid n s grid atMs).draw ((rowSums s'.book s'.grid).map n.encode)
      s'.book.bestBid s'.book.bestAsk s'.statusCode).setEdgeStatus s'.statusCode
    rw [← hhistory] at hholds
    refine hholds.congr fun b hlow hhigh => ?_
    rw [hframe.oldestBin] at hlow
    rw [hframe.headBin] at hhigh
    obtain rfl : b = (s.relaid n grid atMs).history.headBin := le_antisymm hhigh hlow
    rw [Function.update_self, hcode, Nat.max_self]
    rfl

/-- Other rows: a new picture, whose first bin shows the book as it is. -/
theorem Sound.restarted (hs : Sound n s) (hencode : n.encode 0 = 0) {grid : PriceGrid} {atMs : ℚ}
    (hsmall : (s.setGrid n grid atMs).Small) (hother : sameRows grid s.grid = false) :
    Restarted n (s.binIndex n atMs) (s.setGrid n grid atMs) ∧
      Totalled (s.setGrid n grid atMs) := by
  rw [setGrid_of_other hother] at hsmall ⊢
  by_cases hunknown : s.status = .unknown
  · have hempty := hs.unknown hunknown
    have hzeros : rowSums s.book grid = List.replicate grid.rows 0 := by
      rw [hempty, rowSums_new]
    rw [if_neg (not_not.mpr hunknown)] at hsmall ⊢
    refine ⟨⟨rfl, rfl, rfl, ?_⟩, hzeros.symm, hs.nonneg, hs.unknown⟩
    refine ((holds_relaid n s grid atMs).setEdgeStatus _).congr fun b _ _ => ?_
    show _ = Column.mk ((rowSums s.book grid).map n.encode) (DepthHistory.quote s.book.bestBid)
      (DepthHistory.quote s.book.bestAsk) s.statusCode
    rw [hzeros, List.map_replicate, hencode, hempty]
    rfl
  · rw [if_pos hunknown] at hsmall ⊢
    have heq := @rasterizeBook_eq _ n (s.relaid n grid atMs) List.length_replicate hs.nonneg hsmall
    rw [heq]
    exact ⟨restarted_drawn rfl rfl rfl, rfl, hs.nonneg, hs.unknown⟩

/-! ## Options -/

theorem changeLevel_options (side : Side) (p : Nat) (delta : Int) :
    (s.changeLevel n side p delta).options = s.options := by
  rw [changeLevel]
  split
  · rfl
  · split
    · rfl
    · rfl

theorem dispatch_options (message : MarketMessage) (atMs : ℚ) :
    (s.dispatch n message atMs).options = s.options := by
  cases message with
  | snapshot ticker book bids asks => rfl
  | delta ticker side p delta => exact changeLevel_options _ _ _
  | book ticker book =>
      show (if s.status = .unknown then _ else _ : TapeStore α).options = s.options
      split
      · rfl
      · rfl
  | resync ticker reason => rfl
  | trade ticker => rfl
  | ticker ticker => rfl

theorem setGrid_options (grid : PriceGrid) (atMs : ℚ) :
    (s.setGrid n grid atMs).options = s.options := by
  rw [setGrid]
  split
  · rfl
  · dsimp only
    split
    · rfl
    · rfl

/-- A change of rows leaves the book and its state as they were. -/
theorem setGrid_book (grid : PriceGrid) (atMs : ℚ) :
    (s.setGrid n grid atMs).book = s.book ∧
      (s.setGrid n grid atMs).statusCode = s.statusCode := by
  rw [setGrid]
  split
  · exact ⟨rfl, rfl⟩
  · dsimp only
    split
    · exact ⟨rfl, rfl⟩
    · exact ⟨rfl, rfl⟩

theorem step_options (act : HeatmapAct) : (s.step n act).options = s.options := by
  cases act with
  | message message atMs =>
      show (s.apply n message atMs).options = s.options
      rw [apply]
      split
      · rfl
      · exact dispatch_options _ _
  | connectionLost atMs =>
      show (s.markConnectionLost n atMs).options = s.options
      rw [markConnectionLost]
      split
      · rfl
      · rfl
  | setGrid grid atMs => exact setGrid_options _ _

end TapeStore

end Tape.Web
