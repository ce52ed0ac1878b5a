import Mathlib

/-!
# Upload ranges

`dirtyColumnRanges` and `ringWriteRanges` of the page's renderer: which slots
of a ring are copied to the graphics card. Both give ranges within the ring,
one after the other (`Ascending`). The first covers the columns whose revision
differs from the one uploaded, the second the slots written between two counts
of a write counter.
-/

namespace Tape.Web

/-- Columns next to each other. -/
structure UploadRange where
  start : Nat
  count : Nat
  deriving DecidableEq, Repr

/-- The column is one of the range. -/
def UploadRange.Covers (r : UploadRange) (slot : Nat) : Prop :=
  r.start ≤ slot ∧ slot < r.start + r.count

/-- A slot is in one of the ranges. -/
def Covered (ranges : List UploadRange) (slot : Nat) : Prop := ∃ r ∈ ranges, r.Covers slot

/-- Disjoint, in their order, and within the ring. -/
structure Ascending (capacity : Nat) (ranges : List UploadRange) : Prop where
  disjoint : ranges.Pairwise fun r r' => r.start + r.count ≤ r'.start
  inside : ∀ r ∈ ranges, r.start + r.count ≤ capacity

/-- The loop of `dirtyColumnRanges` over the columns still to come; the range
that has begun is `start`. -/
def collectDirty (dirty : Nat → Bool) (length : Nat) :
    List Nat → Option Nat → List UploadRange → List UploadRange
  | [], _, ranges => ranges
  | column :: rest, start, ranges =>
      let isDirty := column < length ∧ dirty column
      let start := if isDirty ∧ start = none then some column else start
      match start with
      | none => collectDirty dirty length rest none ranges
      | some first =>
          if ¬ isDirty then
            collectDirty dirty length rest none (ranges ++ [⟨first, column - first⟩])
          else collectDirty dirty length rest (some first) ranges

/-- The columns that changed since they were uploaded, or all if they are too
scattered. -/
def dirtyColumnRanges (length : Nat) (revisions uploaded : Nat → Nat) (maxRanges : Nat) :
    List UploadRange :=
  let ranges := collectDirty (fun column => revisions column ≠ uploaded column) length
    (List.range (length + 1)) none []
  if ranges.length > maxRanges then [⟨0, length⟩] else ranges

/-- The slots that were written since a count. -/
def ringWriteRanges (fromCount toCount capacity : Nat) : List UploadRange :=
  if toCount ≤ fromCount then []
  else
    let written := toCount - fromCount
    if written ≥ capacity then [⟨0, capacity⟩]
    else
      let start := fromCount % capacity
      if start + written ≤ capacity then [⟨start, written⟩]
      else [⟨0, start + written - capacity⟩, ⟨start, capacity - start⟩]

theorem ascending_full (capacity : Nat) : Ascending capacity [⟨0, capacity⟩] where
  disjoint := List.pairwise_singleton _ _
  inside r hr := by
    rw [List.mem_singleton.mp hr]
    exact Nat.le_of_eq (Nat.zero_add capacity)

theorem covered_full {capacity slot : Nat} : Covered [⟨0, capacity⟩] slot ↔ slot < capacity := by
  constructor
  · rintro ⟨r, hr, hcovers⟩
    obtain rfl := List.mem_singleton.mp hr
    simpa [UploadRange.Covers] using hcovers
  · intro h
    exact ⟨_, List.mem_singleton_self _, Nat.zero_le slot, by simpa using h⟩

/-! ## Dirty columns -/

/-- What the loop has found before a column: the ranges, and the one that has
begun, are the dirty columns so far. -/
structure Found (dirty : Nat → Bool) (column : Nat) (start : Option Nat)
    (ranges : List UploadRange) : Prop where
  disjoint : ranges.Pairwise fun r r' => r.start + r.count ≤ r'.start
  before : ∀ r ∈ ranges, r.start + r.count ≤ start.getD (column - 1)
  begun : ∀ first ∈ start, first < column
  covered : ∀ c < column, dirty c = true ↔ Covered ranges c ∨ ∃ first ∈ start, first ≤ c

theorem found_nil (dirty : Nat → Bool) : Found dirty 0 none [] where
  disjoint := List.Pairwise.nil
  before _ hr := nomatch hr
  begun _ hfirst := nomatch hfirst
  covered c hc := absurd hc (Nat.not_lt_zero c)

theorem covered_append {ranges : List UploadRange} {r : UploadRange} {slot : Nat} :
    Covered (ranges ++ [r]) slot ↔ Covered ranges slot ∨ r.Covers slot := by
  constructor
  · rintro ⟨r', hr', hcovers⟩
    rcases List.mem_append.mp hr' with hin | hlast
    · exact .inl ⟨r', hin, hcovers⟩
    · rw [List.mem_singleton.mp hlast] at hcovers
      exact .inr hcovers
  · rintro (⟨r', hin, hcovers⟩ | hcovers)
    · exact ⟨r', List.mem_append_left _ hin, hcovers⟩
    · exact ⟨r, List.mem_append_right _ (List.mem_singleton_self r), hcovers⟩

theorem Found.not_covered {dirty : Nat → Bool} {column : Nat} {start : Option Nat}
    {ranges : List UploadRange} (h : Found dirty column start ranges) {c : Nat}
    (hc : start.getD column ≤ c) : ¬ Covered ranges c := by
  rintro ⟨r, hr, -, hlt⟩
  have hbefore := h.before r hr
  cases start with
  | none =>
      have hend : r.start + r.count ≤ column - 1 := hbefore
      have hcolumn : column ≤ c := hc
      omega
  | some first =>
      have hend : r.start + r.count ≤ first := hbefore
      have hfirst : first ≤ c := hc
      omega

/-- A dirty column begins a range or goes on with one. -/
theorem Found.dirty {dirty : Nat → Bool} {column : Nat} {start : Option Nat}
    {ranges : List UploadRange} (h : Found dirty column start ranges) (hd : dirty column = true) :
    Found dirty (column + 1) (some (start.getD column)) ranges where
  disjoint := h.disjoint
  before r hr := by
    refine Nat.le_trans (h.before r hr) ?_
    cases start with
    | none => exact Nat.sub_le column 1
    | some first => exact Nat.le_refl first
  begun first hfirst := by
    obtain rfl := Option.some.inj hfirst
    cases hs : start with
    | none => exact Nat.lt_succ_self column
    | some first => exact Nat.lt_succ_of_lt (h.begun first hs)
  covered c hc := by
    rcases Nat.lt_succ_iff_lt_or_eq.mp hc with hlt | rfl
    · rw [h.covered c hlt]
      cases start with
      | none =>
          refine or_congr_right (iff_of_false (fun ⟨_, hno, _⟩ => nomatch hno) ?_)
          rintro ⟨first, hfirst, hle⟩
          obtain rfl := Option.some.inj hfirst
          exact absurd hlt (Nat.not_lt.mpr hle)
      | some first => rfl
    · refine iff_of_true hd (.inr ⟨start.getD c, rfl, ?_⟩)
      cases hs : start with
      | none => exact Nat.le_refl c
      | some first => exact Nat.le_of_lt (h.begun first hs)

/-- A clean column ends the range that has begun. -/
theorem Found.clean {dirty : Nat → Bool} {column first : Nat} {ranges : List UploadRange}
    (h : Found dirty column (some first) ranges) (hd : dirty column = false) :
    Found dirty (column + 1) none (ranges ++ [⟨first, column - first⟩]) := by
  have hlt := h.begun first rfl
  refine ⟨?_, fun r hr => ?_, ?_, fun c hc => ?_⟩
  · rw [List.pairwise_append]
    refine ⟨h.disjoint, List.pairwise_singleton _ _, fun r hr r' hr' => ?_⟩
    rw [List.mem_singleton.mp hr']
    exact h.before r hr
  · rcases List.mem_append.mp hr with hin | hlast
    · have hbefore : r.start + r.count ≤ first := h.before r hin
      show r.start + r.count ≤ column
      omega
    · rw [List.mem_singleton.mp hlast]
      show first + (column - first) ≤ column
      omega
  · intro f hf
    cases hf
  · rw [covered_append]
    have hnone : ¬ ∃ f ∈ (none : Option Nat), f ≤ c := fun ⟨_, hno, _⟩ => nomatch hno
    rw [or_iff_left hnone]
    rcases Nat.lt_succ_iff_lt_or_eq.mp hc with hlt' | rfl
    · rw [h.covered c hlt']
      refine or_congr_right ⟨?_, ?_⟩
      · rintro ⟨f, hf, hle⟩
        obtain rfl := Option.some.inj hf
        exact ⟨hle, by show c < first + (column - first); omega⟩
      · exact fun hcovers => ⟨first, rfl, hcovers.1⟩
    · refine iff_of_false (fun hyes => absurd (hyes.symm.trans hd) (by decide)) ?_
      rintro (hin | hcovers)
      · exact h.not_covered (Nat.le_of_lt hlt) hin
      · have hend : c < first + (c - first) := hcovers.2
        omega

/-- A clean column with no range begun. -/
theorem Found.idle {dirty : Nat → Bool} {column : Nat} {ranges : List UploadRange}
    (h : Found dirty column none ranges) (hd : dirty column = false) :
    Found dirty (column + 1) none ranges where
  disjoint := h.disjoint
  before r hr := Nat.le_trans (h.before r hr) (Nat.sub_le column 1)
  begun _ hno := nomatch hno
  covered c hc := by
    rcases Nat.lt_succ_iff_lt_or_eq.mp hc with hlt | rfl
    · exact h.covered c hlt
    · refine iff_of_false (fun hyes => absurd (hyes.symm.trans hd) (by decide)) ?_
      rintro (hin | ⟨_, hno, -⟩)
      · exact h.not_covered (Nat.le_refl c) hin
      · cases hno

/-- The loop ends with the dirty columns, one clean column past the last. -/
theorem collectDirty_found {dirty : Nat → Bool} {length : Nat} (n : Nat) {column : Nat}
    {start : Option Nat} {ranges : List UploadRange} (hn : column + n = length + 1)
    (hlength : n = 0 → start = none)
    (h : Found (fun c => c < length ∧ dirty c) column start ranges) :
    Found (fun c => c < length ∧ dirty c) (length + 1) none
      (collectDirty dirty length (List.range' column n) start ranges) := by
  induction n generalizing column start ranges with
  | zero =>
      rw [Nat.add_zero] at hn
      rw [hlength rfl, hn] at h
      exact h
  | succ n ih =>
      rw [List.range'_succ, collectDirty]
      by_cases hd : column < length ∧ dirty column
      · have hdirty := h.dirty (decide_eq_true hd)
        have hmore : n = 0 → some (start.getD column) = none := by
          intro hzero
          omega
        have hnext := ih (by omega) hmore hdirty
        cases hs : start with
        | none =>
            rw [hs] at hnext
            rw [if_pos ⟨hd, rfl⟩]
            dsimp only
            rw [if_neg (not_not.mpr hd)]
            exact hnext
        | some first =>
            rw [hs] at hnext
            rw [if_neg fun hboth => nomatch hboth.2]
            dsimp only
            rw [if_neg (not_not.mpr hd)]
            exact hnext
      · have hclean : decide (column < length ∧ dirty column) = false := decide_eq_false hd
        rw [if_neg fun hboth => hd hboth.1]
        cases hs : start with
        | none =>
            rw [hs] at h
            exact ih (by omega) (fun _ => rfl) (h.idle hclean)
        | some first =>
            rw [hs] at h
            dsimp only
            rw [if_pos hd]
            exact ih (by omega) (fun _ => rfl) (h.clean hclean)

/-- The ranges of the dirty columns lie in the ring, one after the other, and
hold every dirty column. -/
theorem dirtyColumnRanges_spec (length : Nat) (revisions uploaded : Nat → Nat) (maxRanges : Nat) :
    Ascending length (dirtyColumnRanges length revisions uploaded maxRanges) ∧
      ∀ c < length, revisions c ≠ uploaded c →
        Covered (dirtyColumnRanges length revisions uploaded maxRanges) c := by
  have hfound := collectDirty_found (length + 1) (Nat.zero_add (length + 1)) (fun h => nomatch h)
    (found_nil fun c => c < length ∧ (fun c => decide (revisions c ≠ uploaded c)) c)
  rw [← List.range_eq_range'] at hfound
  rw [dirtyColumnRanges]
  split
  · exact ⟨ascending_full length, fun c hc _ => covered_full.mpr hc⟩
  · refine ⟨⟨hfound.disjoint, fun r hr => ?_⟩, fun c hc hne => ?_⟩
    · have hend : r.start + r.count ≤ length + 1 - 1 := hfound.before r hr
      omega
    · have hdirty : decide (c < length ∧ decide (revisions c ≠ uploaded c) = true) = true :=
        decide_eq_true ⟨hc, decide_eq_true hne⟩
      exact ((hfound.covered c (Nat.lt_succ_of_lt hc)).mp hdirty).resolve_right
        fun ⟨_, hno, _⟩ => nomatch hno

/-! ## Ring writes -/

/-- The ranges of the slots written lie in the ring, one after the other, and
hold every slot written. -/
theorem ringWriteRanges_spec (fromCount toCount capacity : Nat) :
    Ascending capacity (ringWriteRanges fromCount toCount capacity) ∧
      ∀ n, fromCount ≤ n → n < toCount → 0 < capacity →
        Covered (ringWriteRanges fromCount toCount capacity) (n % capacity) := by
  rw [ringWriteRanges]
  split
  · refine ⟨⟨List.Pairwise.nil, fun r hr => nomatch hr⟩, fun n hfrom hto _ => ?_⟩
    omega
  · dsimp only
    split
    · exact ⟨ascending_full capacity, fun n _ _ hpos => covered_full.mpr (Nat.mod_lt n hpos)⟩
    · next hmore hlap =>
        have hpos : 0 < capacity := by omega
        have hstart : fromCount % capacity < capacity := Nat.mod_lt _ hpos
        -- a slot written is as far from the start as its write, the ring once gone round
        have hslot : ∀ n, fromCount ≤ n → n < toCount →
            n % capacity = fromCount % capacity + (n - fromCount) ∧
                fromCount % capacity + (n - fromCount) < capacity ∨
              n % capacity + capacity = fromCount % capacity + (n - fromCount) := by
          intro n hfrom hto
          have hn : n % capacity = (fromCount % capacity + (n - fromCount)) % capacity := by
            rw [Nat.mod_add_mod, Nat.add_sub_cancel' hfrom]
          by_cases hwraps : fromCount % capacity + (n - fromCount) < capacity
          · rw [Nat.mod_eq_of_lt hwraps] at hn
            exact .inl ⟨hn, hwraps⟩
          · have hle : capacity ≤ fromCount % capacity + (n - fromCount) := Nat.not_lt.mp hwraps
            have hlt : fromCount % capacity + (n - fromCount) - capacity < capacity := by omega
            have hback : (fromCount % capacity + (n - fromCount)) % capacity =
                fromCount % capacity + (n - fromCount) - capacity := by
              rw [Nat.mod_eq_sub_mod hle, Nat.mod_eq_of_lt hlt]
            rw [hback] at hn
            exact .inr (by omega)
        split
        · next hfits =>
            refine ⟨⟨List.pairwise_singleton _ _, fun r hr => ?_⟩, fun n hfrom hto _ => ?_⟩
            · rw [List.mem_singleton.mp hr]
              exact hfits
            · refine ⟨_, List.mem_singleton_self _, ?_⟩
              show fromCount % capacity ≤ n % capacity ∧
                n % capacity < fromCount % capacity + (toCount - fromCount)
              rcases hslot n hfrom hto with ⟨heq, -⟩ | heq
              · omega
              · omega
        · next hover =>
            refine ⟨⟨?_, fun r hr => ?_⟩, fun n hfrom hto _ => ?_⟩
            · rw [List.pairwise_pair]
              show 0 + (fromCount % capacity + (toCount - fromCount) - capacity) ≤
                fromCount % capacity
              omega
            · rcases List.mem_pair.mp hr with rfl | rfl
              · show 0 + (fromCount % capacity + (toCount - fromCount) - capacity) ≤ capacity
                omega
              · show fromCount % capacity + (capacity - fromCount % capacity) ≤ capacity
                omega
            · rcases hslot n hfrom hto with ⟨heq, hlt⟩ | heq
              · refine ⟨_, List.mem_cons_of_mem _ (List.mem_singleton_self _), ?_⟩
                show fromCount % capacity ≤ n % capacity ∧
                  n % capacity < fromCount % capacity + (capacity - fromCount % capacity)
                omega
              · refine ⟨_, List.mem_cons_self, ?_⟩
                show 0 ≤ n % capacity ∧
                  n % capacity < 0 + (fromCount % capacity + (toCount - fromCount) - capacity)
                omega

end Tape.Web
