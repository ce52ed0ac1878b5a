import Mathlib

/-!
# The page's depth history

`DepthHistory`: a ring of columns, one a time bin. A column is its profile, its
best prices and its status, and each write of a column increments its revision,
a 32-bit word. Moving the head forward copies the head column into the bins
that were skipped.

The arrays of the page are read by column here, and what a profile holds is a
parameter: it is written and copied, never computed with. The setters of the
head column throw before the first `advanceTo`, and change nothing then.
-/

namespace Tape.Web

/-- The statuses of a column, by what they hide. -/
def ColumnStatus.fresh : Nat := 0
def ColumnStatus.stale : Nat := 1
def ColumnStatus.unknown : Nat := 2
def ColumnStatus.gap : Nat := 3

/-- What stands for a price that is not there. -/
def noPrice : Int := -1

/-- The ring slot of a bin. -/
def ringColumn (bin : Int) (capacity : Nat) : Nat :=
  ((bin.tmod capacity + capacity).tmod capacity).toNat

/-- One column of `depth` and of `meta`. -/
structure Column (α : Type) where
  depth : List α
  bestBid : Int
  bestAsk : Int
  status : Nat
  deriving DecidableEq, Repr

/-- The columns of the heatmap, in a ring. -/
structure DepthHistory (α : Type) where
  capacity : Nat
  rows : Nat
  column : Nat → Column α
  revision : Nat → Nat
  headBin : Int
  oldestBin : Int
  edgeStatus : Nat

namespace DepthHistory

variable {α : Type}

/-- A history without columns. -/
def new [Zero α] (capacity rows : Nat) : DepthHistory α where
  capacity := capacity
  rows := rows
  column _ := { depth := List.replicate rows 0, bestBid := 0, bestAsk := 0, status := 0 }
  revision _ := 0
  headBin := -1
  oldestBin := 0
  edgeStatus := ColumnStatus.unknown

/-- `#touch`. -/
def touch (h : DepthHistory α) (column : Nat) : DepthHistory α :=
  { h with revision := Function.update h.revision column ((h.revision column + 1) % 2 ^ 32) }

/-- A column changed and touched. -/
def write (h : DepthHistory α) (column : Nat) (content : Column α) : DepthHistory α :=
  { h with column := Function.update h.column column content }.touch column

/-- `#writeEmpty`. -/
def writeEmpty [Zero α] (h : DepthHistory α) (column : Nat) (status : Nat) : DepthHistory α :=
  h.write column
    { depth := List.replicate h.rows 0, bestBid := noPrice, bestAsk := noPrice, status }

/-- The status of the columns to come. -/
def setEdgeStatus (h : DepthHistory α) (status : Nat) : DepthHistory α :=
  { h with edgeStatus := status }

/-- The bins from one to another, both included. -/
def binsTo (first last : Int) : List Int :=
  (List.range (last + 1 - first).toNat).map fun (n : Nat) => first + (n : Int)

/-- The loop of `advanceTo`: the head column copied into bins, with a status. -/
def fill (h : DepthHistory α) (source : Column α) (status : Nat) (bins : List Int) :
    DepthHistory α :=
  bins.foldl (fun h bin => h.write (ringColumn bin h.capacity) { source with status }) h

/-- The head moves to a bin; the columns between are empty. -/
def advanceTo [Zero α] (h : DepthHistory α) (bin : Int) (status : Nat) : DepthHistory α :=
  let h := h.setEdgeStatus status
  if h.headBin < 0 then
    { h with headBin := bin, oldestBin := bin }.writeEmpty (ringColumn bin h.capacity) status
  else if bin ≤ h.headBin then h
  else
    let source := h.column (ringColumn h.headBin h.capacity)
    let firstBin := max (h.headBin + 1) (bin - h.capacity + 1)
    { h.fill source status (binsTo firstBin bin) with
      headBin := bin
      oldestBin := max h.oldestBin (bin - h.capacity + 1) }

/-- `#head`. -/
def head (h : DepthHistory α) : Option Nat :=
  if h.headBin < 0 then none else some (ringColumn h.headBin h.capacity)

/-- Sets one row of the head column. -/
def setHeadRow (h : DepthHistory α) (row : Nat) (value : α) : DepthHistory α :=
  match h.head with
  | none => h
  | some c => h.write c { h.column c with depth := (h.column c).depth.set row value }

/-- Replaces the head column's profile; as many values as there are rows. -/
def setHeadProfile (h : DepthHistory α) (values : List α) : DepthHistory α :=
  match h.head with
  | none => h
  | some c => h.write c { h.column c with depth := values }

/-- The best prices of the head column. -/
def setHeadQuotes (h : DepthHistory α) (bestBid bestAsk : Option Nat) : DepthHistory α :=
  match h.head with
  | none => h
  | some c =>
      let bid := (bestBid.map Int.ofNat).getD noPrice
      let ask := (bestAsk.map Int.ofNat).getD noPrice
      if (h.column c).bestBid = bid ∧ (h.column c).bestAsk = ask then h
      else h.write c { h.column c with bestBid := bid, bestAsk := ask }

/-- The status of the head column, if it is a worse one. -/
def raiseHeadStatus (h : DepthHistory α) (status : Nat) : DepthHistory α :=
  match h.head with
  | none => h
  | some c =>
      if (h.column c).status ≥ status then h else h.write c { h.column c with status }

/-! ## What a write touches -/

@[simp] theorem write_capacity (h : DepthHistory α) (c : Nat) (x : Column α) :
    (h.write c x).capacity = h.capacity := rfl
@[simp] theorem write_rows (h : DepthHistory α) (c : Nat) (x : Column α) :
    (h.write c x).rows = h.rows := rfl
@[simp] theorem write_headBin (h : DepthHistory α) (c : Nat) (x : Column α) :
    (h.write c x).headBin = h.headBin := rfl
@[simp] theorem write_oldestBin (h : DepthHistory α) (c : Nat) (x : Column α) :
    (h.write c x).oldestBin = h.oldestBin := rfl

theorem write_column (h : DepthHistory α) (c : Nat) (x : Column α) (c' : Nat) :
    (h.write c x).column c' = if c' = c then x else h.column c' :=
  Function.update_apply _ _ _ _

theorem write_revision (h : DepthHistory α) (c : Nat) (x : Column α) (c' : Nat) :
    (h.write c x).revision c' = if c' = c then (h.revision c + 1) % 2 ^ 32 else h.revision c' :=
  Function.update_apply _ _ _ _

/-- From one history to another by writing columns, in this order. -/
structure Writes (h h' : DepthHistory α) (columns : List Nat) : Prop where
  capacity : h'.capacity = h.capacity
  rows : h'.rows = h.rows
  column : ∀ c, c ∉ columns → h'.column c = h.column c
  revision : ∀ c, h'.revision c = (h.revision c + columns.count c) % 2 ^ 32

/-- The revisions are 32-bit words. -/
def Words (h : DepthHistory α) : Prop := ∀ c, h.revision c < 2 ^ 32

theorem Writes.words {h h' : DepthHistory α} {columns : List Nat} (hw : Writes h h' columns) :
    h'.Words := fun c => by
  rw [hw.revision]
  exact Nat.mod_lt _ (Nat.two_pow_pos 32)

theorem writes_nil {h h' : DepthHistory α} (hwords : h.Words) (hcapacity : h'.capacity = h.capacity)
    (hrows : h'.rows = h.rows) (hcolumn : h'.column = h.column)
    (hrevision : h'.revision = h.revision) : Writes h h' [] where
  capacity := hcapacity
  rows := hrows
  column c _ := by rw [hcolumn]
  revision c := by
    rw [hrevision, List.count_nil, Nat.add_zero, Nat.mod_eq_of_lt (hwords c)]

theorem writes_write {h : DepthHistory α} (hwords : h.Words) (c : Nat) (x : Column α) :
    Writes h (h.write c x) [c] where
  capacity := rfl
  rows := rfl
  column c' hc' := by
    rw [write_column, if_neg (by simpa using hc')]
  revision c' := by
    rw [write_revision]
    split
    · next heq => rw [heq, List.count_singleton_self]
    · next hne =>
        rw [List.count_eq_zero_of_not_mem (by simpa using hne), Nat.add_zero,
          Nat.mod_eq_of_lt (hwords c')]

theorem Writes.trans {h h' h'' : DepthHistory α} {cs cs' : List Nat} (hw : Writes h h' cs)
    (hw' : Writes h' h'' cs') : Writes h h'' (cs ++ cs') where
  capacity := hw'.capacity.trans hw.capacity
  rows := hw'.rows.trans hw.rows
  column c hc := by
    rw [List.mem_append, not_or] at hc
    rw [hw'.column c hc.2, hw.column c hc.1]
  revision c := by
    rw [hw'.revision, hw.revision, List.count_append, Nat.mod_add_mod, Nat.add_assoc]

theorem writes_fill {h : DepthHistory α} (hwords : h.Words) (source : Column α) (status : Nat)
    (bins : List Int) :
    Writes h (h.fill source status bins) (bins.map fun bin => ringColumn bin h.capacity) := by
  induction bins generalizing h with
  | nil => exact writes_nil hwords rfl rfl rfl rfl
  | cons bin bins ih =>
      have hone := writes_write hwords (ringColumn bin h.capacity) { source with status }
      exact hone.trans (ih hone.words)

/-- The columns `advanceTo` writes, in its order. -/
def advanceColumns (h : DepthHistory α) (bin : Int) : List Nat :=
  if h.headBin < 0 then [ringColumn bin h.capacity]
  else if bin ≤ h.headBin then []
  else (binsTo (max (h.headBin + 1) (bin - h.capacity + 1)) bin).map
    fun bin => ringColumn bin h.capacity

theorem writes_advanceTo [Zero α] {h : DepthHistory α} (hwords : h.Words) (bin : Int)
    (status : Nat) :
    Writes h (h.advanceTo bin status) (h.advanceColumns bin) := by
  rw [advanceTo, advanceColumns]
  dsimp only
  have hedge : (h.setEdgeStatus status).headBin = h.headBin := rfl
  rw [hedge]
  split
  · have hfirst : Words { h.setEdgeStatus status with headBin := bin, oldestBin := bin } := hwords
    have hone := writes_write hfirst (ringColumn bin h.capacity)
      { depth := List.replicate h.rows 0, bestBid := noPrice, bestAsk := noPrice, status }
    exact ⟨hone.capacity, hone.rows, hone.column, hone.revision⟩
  · split
    · exact writes_nil hwords rfl rfl rfl rfl
    · have hedgeWords : (h.setEdgeStatus status).Words := hwords
      have hfill := writes_fill hedgeWords (h.column (ringColumn h.headBin h.capacity)) status
        (binsTo (max (h.headBin + 1) (bin - h.capacity + 1)) bin)
      exact ⟨hfill.capacity, hfill.rows, hfill.column, hfill.revision⟩

end DepthHistory

end Tape.Web
