import Mathlib
import Tape.Web.DepthHistory

/-!
# The ring as a function of bins

What a depth history holds is a function from the bins of a window to columns
(`Holds`): the slots of the bins of a window differ, so a write of the head
column is an update of that function at the head, and moving the head copies
the head's value into the bins that are passed. Which slot a bin has, and which
bins were overwritten, matters to nothing beyond this module.
-/

namespace Tape.Web

namespace DepthHistory

variable {α : Type} {h : DepthHistory α} {f : Int → Column α}

/-- The column of a bin. -/
def columnAt (h : DepthHistory α) (bin : Int) : Column α := h.column (ringColumn bin h.capacity)

/-- A history holds `f` in the bins of its window. -/
structure Holds (h : DepthHistory α) (f : Int → Column α) : Prop where
  capacity : 0 < h.capacity
  start : 0 ≤ h.oldestBin
  ordered : h.oldestBin ≤ h.headBin
  window : h.headBin < h.oldestBin + h.capacity
  column : ∀ bin, h.oldestBin ≤ bin → bin ≤ h.headBin → h.columnAt bin = f bin

theorem ringColumn_eq {bin : Int} (hbin : 0 ≤ bin) (capacity : Nat) :
    (ringColumn bin capacity : Int) = bin % capacity := by
  rcases Nat.eq_zero_or_pos capacity with rfl | hpos
  · rw [ringColumn]
    simp [hbin]
  · have hcapacity : (capacity : Int) ≠ 0 := by omega
    rw [ringColumn, Int.tmod_eq_emod_of_nonneg hbin]
    have hnonneg := Int.emod_nonneg bin hcapacity
    rw [Int.tmod_eq_emod_of_nonneg (by omega), Int.add_emod_right,
      Int.emod_emod_of_dvd _ (Int.dvd_refl _), Int.toNat_of_nonneg hnonneg]

/-- The slots of the bins of a window differ. -/
theorem ringColumn_inj {b c : Int} {capacity : Nat} (hb : 0 ≤ b) (hc : 0 ≤ c)
    (hbc : b < c + capacity) (hcb : c < b + capacity)
    (h : ringColumn b capacity = ringColumn c capacity) : b = c := by
  have hmod : b % capacity = c % capacity := by
    rw [← ringColumn_eq hb, ← ringColumn_eq hc, h]
  obtain ⟨k, hk⟩ := Int.dvd_of_emod_eq_zero (Int.emod_eq_emod_iff_emod_sub_eq_zero.mp hmod)
  have hk0 : k = 0 := by
    rcases lt_trichotomy k 0 with hneg | hzero | hpos
    · have hle : (capacity : Int) * k ≤ (capacity : Int) * (-1) :=
        Int.mul_le_mul_of_nonneg_left (by omega) (by omega)
      omega
    · exact hzero
    · have hle : (capacity : Int) * 1 ≤ (capacity : Int) * k :=
        Int.mul_le_mul_of_nonneg_left (by omega) (by omega)
      omega
  rw [hk0, Int.mul_zero] at hk
  omega

theorem Holds.congr {g : Int → Column α} (hh : h.Holds f)
    (hfg : ∀ bin, h.oldestBin ≤ bin → bin ≤ h.headBin → f bin = g bin) : h.Holds g where
  capacity := hh.capacity
  start := hh.start
  ordered := hh.ordered
  window := hh.window
  column bin hlow hhigh := (hh.column bin hlow hhigh).trans (hfg bin hlow hhigh)

theorem Holds.self (hh : h.Holds f) : h.Holds h.columnAt :=
  hh.congr fun bin hlow hhigh => (hh.column bin hlow hhigh).symm

theorem Holds.headColumn (hh : h.Holds f) : h.columnAt h.headBin = f h.headBin :=
  hh.column h.headBin hh.ordered (Int.le_refl _)

theorem Holds.head (hh : h.Holds f) : h.head = some (ringColumn h.headBin h.capacity) := by
  have hstart := hh.start
  have hordered := hh.ordered
  exact if_neg (by omega)

theorem Holds.setEdgeStatus (hh : h.Holds f) (status : Nat) : (h.setEdgeStatus status).Holds f :=
  ⟨hh.capacity, hh.start, hh.ordered, hh.window, hh.column⟩

/-- A write of the head column. -/
theorem Holds.write (hh : h.Holds f) (x : Column α) :
    (h.write (ringColumn h.headBin h.capacity) x).Holds (Function.update f h.headBin x) where
  capacity := hh.capacity
  start := hh.start
  ordered := hh.ordered
  window := hh.window
  column bin hlow hhigh := by
    have hlow : h.oldestBin ≤ bin := hlow
    have hhigh : bin ≤ h.headBin := hhigh
    have hstart := hh.start
    have hwindow := hh.window
    rw [columnAt, write_capacity, write_column, Function.update_apply]
    split
    · next hslot =>
        have heq := ringColumn_inj (by omega) (by omega) (by omega) (by omega) hslot
        rw [if_pos heq]
    · next hslot =>
        rw [if_neg fun heq => hslot (congrArg (ringColumn · h.capacity) heq)]
        exact hh.column bin hlow hhigh

/-- A write that changes nothing need not be made. -/
theorem Holds.same (hh : h.Holds f) {x : Column α} (hx : f h.headBin = x) :
    h.Holds (Function.update f h.headBin x) :=
  hh.congr fun bin _ _ => by rw [← hx, Function.update_eq_self]

theorem Holds.setHeadRow (hh : h.Holds f) (row : Nat) (value : α) :
    (h.setHeadRow row value).Holds (Function.update f h.headBin
      { f h.headBin with depth := (f h.headBin).depth.set row value }) := by
  rw [DepthHistory.setHeadRow, hh.head]
  have hcolumn : h.column (ringColumn h.headBin h.capacity) = f h.headBin := hh.headColumn
  dsimp only
  rw [hcolumn]
  exact hh.write _

theorem Holds.setHeadProfile (hh : h.Holds f) (values : List α) :
    (h.setHeadProfile values).Holds (Function.update f h.headBin
      { f h.headBin with depth := values }) := by
  rw [DepthHistory.setHeadProfile, hh.head]
  have hcolumn : h.column (ringColumn h.headBin h.capacity) = f h.headBin := hh.headColumn
  dsimp only
  rw [hcolumn]
  exact hh.write _

/-- A best price as a column holds it. -/
def quote (best : Option Nat) : Int := (best.map Int.ofNat).getD noPrice

theorem Holds.setHeadQuotes (hh : h.Holds f) (bestBid bestAsk : Option Nat) :
    (h.setHeadQuotes bestBid bestAsk).Holds (Function.update f h.headBin
      { f h.headBin with bestBid := quote bestBid, bestAsk := quote bestAsk }) := by
  rw [DepthHistory.setHeadQuotes, hh.head]
  have hcolumn : h.column (ringColumn h.headBin h.capacity) = f h.headBin := hh.headColumn
  dsimp only
  rw [hcolumn]
  split
  · next hsame =>
      refine hh.same ?_
      rw [quote, quote, ← hsame.1, ← hsame.2]
  · exact hh.write _

theorem Holds.raiseHeadStatus (hh : h.Holds f) (status : Nat) :
    (h.raiseHeadStatus status).Holds (Function.update f h.headBin
      { f h.headBin with status := max (f h.headBin).status status }) := by
  rw [DepthHistory.raiseHeadStatus, hh.head]
  have hcolumn : h.column (ringColumn h.headBin h.capacity) = f h.headBin := hh.headColumn
  dsimp only
  rw [hcolumn]
  split
  · next hworse =>
      refine hh.same ?_
      rw [Nat.max_eq_left hworse]
  · next hworse =>
      rw [Nat.max_eq_right (Nat.le_of_lt (Nat.lt_of_not_le hworse))]
      exact hh.write _

/-! ## The window stays -/

/-- The bins held, and the room for them, are the same. -/
structure Framed (h h' : DepthHistory α) : Prop where
  capacity : h'.capacity = h.capacity
  headBin : h'.headBin = h.headBin
  oldestBin : h'.oldestBin = h.oldestBin

theorem Framed.refl (h : DepthHistory α) : Framed h h := ⟨rfl, rfl, rfl⟩

theorem Framed.trans {h h' h'' : DepthHistory α} (hf : Framed h h') (hf' : Framed h' h'') :
    Framed h h'' where
  capacity := hf'.capacity.trans hf.capacity
  headBin := hf'.headBin.trans hf.headBin
  oldestBin := hf'.oldestBin.trans hf.oldestBin

theorem framed_setEdgeStatus (h : DepthHistory α) (status : Nat) :
    Framed h (h.setEdgeStatus status) := ⟨rfl, rfl, rfl⟩

theorem framed_write (h : DepthHistory α) (c : Nat) (x : Column α) : Framed h (h.write c x) :=
  ⟨rfl, rfl, rfl⟩

theorem framed_setHeadRow (h : DepthHistory α) (row : Nat) (value : α) :
    Framed h (h.setHeadRow row value) := by
  rw [DepthHistory.setHeadRow]
  split
  · exact .refl h
  · exact framed_write _ _ _

theorem framed_setHeadProfile (h : DepthHistory α) (values : List α) :
    Framed h (h.setHeadProfile values) := by
  rw [DepthHistory.setHeadProfile]
  split
  · exact .refl h
  · exact framed_write _ _ _

theorem framed_setHeadQuotes (h : DepthHistory α) (bestBid bestAsk : Option Nat) :
    Framed h (h.setHeadQuotes bestBid bestAsk) := by
  rw [DepthHistory.setHeadQuotes]
  split
  · exact .refl h
  · dsimp only
    split
    · exact .refl h
    · exact framed_write _ _ _

theorem framed_raiseHeadStatus (h : DepthHistory α) (status : Nat) :
    Framed h (h.raiseHeadStatus status) := by
  rw [DepthHistory.raiseHeadStatus]
  split
  · exact .refl h
  · split
    · exact .refl h
    · exact framed_write _ _ _

/-- The head column drawn anew. -/
def draw (h : DepthHistory α) (values : List α) (bestBid bestAsk : Option Nat) (status : Nat) :
    DepthHistory α :=
  ((h.setHeadProfile values).setHeadQuotes bestBid bestAsk).raiseHeadStatus status

theorem framed_draw (h : DepthHistory α) (values : List α) (bestBid bestAsk : Option Nat)
    (status : Nat) : Framed h (h.draw values bestBid bestAsk status) :=
  ((framed_setHeadProfile h values).trans (framed_setHeadQuotes _ bestBid bestAsk)).trans
    (framed_raiseHeadStatus _ status)

theorem Holds.draw (hh : h.Holds f) (values : List α) (bestBid bestAsk : Option Nat)
    (status : Nat) :
    (h.draw values bestBid bestAsk status).Holds (Function.update f h.headBin
      { depth := values, bestBid := quote bestBid, bestAsk := quote bestAsk,
        status := max (f h.headBin).status status }) := by
  have hprofile := (framed_setHeadProfile h values).headBin
  have hquotes := (framed_setHeadQuotes (h.setHeadProfile values) bestBid bestAsk).headBin
  have hdrawn := ((hh.setHeadProfile values).setHeadQuotes bestBid bestAsk).raiseHeadStatus status
  rw [hquotes, hprofile] at hdrawn
  simp only [Function.update_self, Function.update_idem] at hdrawn
  exact hdrawn

/-- One row of the head column, and the best prices. -/
theorem Holds.redraw (hh : h.Holds f) (row : Nat) (value : α) (bestBid bestAsk : Option Nat) :
    ((h.setHeadRow row value).setHeadQuotes bestBid bestAsk).Holds (Function.update f h.headBin
      { f h.headBin with
        depth := (f h.headBin).depth.set row value
        bestBid := quote bestBid
        bestAsk := quote bestAsk }) := by
  have hrow := (framed_setHeadRow h row value).headBin
  have hdrawn := (hh.setHeadRow row value).setHeadQuotes bestBid bestAsk
  rw [hrow] at hdrawn
  simpa only [Function.update_self, Function.update_idem] using hdrawn

/-! ## Moving the head -/

theorem mem_binsTo {first last bin : Int} : bin ∈ binsTo first last ↔ first ≤ bin ∧ bin ≤ last := by
  rw [binsTo, List.mem_map]
  constructor
  · rintro ⟨k, hk, rfl⟩
    have hk := List.mem_range.mp hk
    omega
  · rintro ⟨hlow, hhigh⟩
    exact ⟨(bin - first).toNat, List.mem_range.mpr (by omega), by omega⟩

theorem fill_capacity (h : DepthHistory α) (source : Column α) (status : Nat) (bins : List Int) :
    (h.fill source status bins).capacity = h.capacity := by
  induction bins generalizing h with
  | nil => rfl
  | cons bin bins ih => exact ih _

theorem fill_column (h : DepthHistory α) (source : Column α) (status : Nat) (bins : List Int)
    (c : Nat) : (h.fill source status bins).column c =
      if c ∈ bins.map (fun bin => ringColumn bin h.capacity) then { source with status }
      else h.column c := by
  induction bins generalizing h with
  | nil => rfl
  | cons bin bins ih =>
      have hstep : (h.fill source status (bin :: bins)).column c =
          if c ∈ bins.map (fun bin => ringColumn bin h.capacity) then { source with status }
          else (h.write (ringColumn bin h.capacity) { source with status }).column c := ih _
      rw [hstep, write_column, List.map_cons]
      by_cases hc : c ∈ bins.map fun bin => ringColumn bin h.capacity
      · rw [if_pos hc, if_pos (List.mem_cons_of_mem _ hc)]
      · rw [if_neg hc]
        by_cases heq : c = ringColumn bin h.capacity
        · rw [if_pos heq, if_pos (heq ▸ List.mem_cons_self)]
        · rw [if_neg heq, if_neg]
          exact fun hin => (List.mem_cons.mp hin).elim heq hc

variable [Zero α]

/-- The first bin of a history. -/
theorem holds_first {capacity rows : Nat} (hcapacity : 0 < capacity) {bin : Int} (hbin : 0 ≤ bin)
    (status : Nat) :
    ((DepthHistory.new capacity rows : DepthHistory α).advanceTo bin status).Holds (fun _ =>
      { depth := List.replicate rows 0, bestBid := noPrice, bestAsk := noPrice, status }) where
  capacity := hcapacity
  start := hbin
  ordered := Int.le_refl bin
  window := by
    show bin < bin + (capacity : Int)
    omega
  column b hlow hhigh := by
    have hlow : bin ≤ b := hlow
    have hhigh : b ≤ bin := hhigh
    obtain rfl : b = bin := by omega
    exact (write_column _ _ _ _).trans (if_pos rfl)

/-- `advanceTo` of a history that has a head. -/
theorem advanceTo_of_held (hh : h.Holds f) (bin : Int) (status : Nat) :
    h.advanceTo bin status =
      if bin ≤ h.headBin then h.setEdgeStatus status
      else
        { (h.setEdgeStatus status).fill (f h.headBin) status
            (binsTo (max (h.headBin + 1) (bin - h.capacity + 1)) bin) with
          headBin := bin
          oldestBin := max h.oldestBin (bin - h.capacity + 1) } := by
  have hstart := hh.start
  have hordered := hh.ordered
  have hsource : h.column (ringColumn h.headBin h.capacity) = f h.headBin := hh.headColumn
  have hnone : ¬ (h.setEdgeStatus status).headBin < 0 := by
    show ¬ h.headBin < 0
    omega
  rw [advanceTo, ← hsource]
  exact if_neg hnone

theorem advanceTo_headBin (hh : h.Holds f) (bin : Int) (status : Nat) :
    (h.advanceTo bin status).headBin = max h.headBin bin := by
  rw [advanceTo_of_held hh]
  split
  · next hle => exact (max_eq_left hle).symm
  · next hlt =>
      show bin = _
      omega

theorem advanceTo_oldestBin (hh : h.Holds f) (bin : Int) (status : Nat) :
    (h.advanceTo bin status).oldestBin =
      max h.oldestBin (max h.headBin bin - h.capacity + 1) := by
  have hwindow := hh.window
  rw [advanceTo_of_held hh]
  split
  · next hle =>
      show h.oldestBin = _
      omega
  · next hlt =>
      show max h.oldestBin (bin - h.capacity + 1) = _
      omega

theorem advanceTo_capacity (hh : h.Holds f) (bin : Int) (status : Nat) :
    (h.advanceTo bin status).capacity = h.capacity := by
  rw [advanceTo_of_held hh]
  split
  · rfl
  · exact fill_capacity _ _ _ _

/-- The bins that are passed show the head, with the status given. -/
theorem Holds.advanceTo (hh : h.Holds f) (bin : Int) (status : Nat) :
    (h.advanceTo bin status).Holds (fun b =>
      if b ≤ h.headBin then f b else { f h.headBin with status }) := by
  have hpos := hh.capacity
  have hstart := hh.start
  have hordered := hh.ordered
  have hwindow := hh.window
  have hhead := advanceTo_headBin hh bin status
  have holdest := advanceTo_oldestBin hh bin status
  have hcapacity := advanceTo_capacity hh bin status
  refine ⟨by omega, by omega, by omega, by omega, fun b hlow hhigh => ?_⟩
  rw [holdest] at hlow
  rw [hhead] at hhigh
  rw [columnAt, hcapacity, advanceTo_of_held hh]
  by_cases hle : bin ≤ h.headBin
  · rw [if_pos hle, if_pos (by omega)]
    exact hh.column b (by omega) (by omega)
  · rw [if_neg hle]
    refine (fill_column _ _ _ _ _).trans ?_
    show (if ringColumn b h.capacity ∈ List.map (fun b => ringColumn b h.capacity) _ then _
      else h.columnAt b) = _
    by_cases hpast : b ≤ h.headBin
    · rw [if_pos hpast, if_neg]
      · exact hh.column b (by omega) hpast
      · intro hin
        -- the slots that are filled are those of later bins
        obtain ⟨b', hb', hslot⟩ := List.mem_map.mp hin
        have hb' := mem_binsTo.mp hb'
        have heq := ringColumn_inj (by omega) (by omega) (by omega) (by omega) hslot
        omega
    · rw [if_neg hpast, if_pos]
      exact List.mem_map.mpr ⟨b, mem_binsTo.mpr (by omega), rfl⟩

end DepthHistory

end Tape.Web
