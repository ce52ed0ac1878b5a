import Mathlib
import Tape.Sorted

/-!
# Lists of half-open intervals

An interval is a pair of bounds and holds what is at or above the first and
below the second. A list covers what its intervals hold. `union` merges a list
into one whose intervals are apart from each other and which covers the same;
`clip` cuts such a list to a range. Of lists whose intervals are apart the
total length, and the length that two of them share, is the number of integers
they cover, so both can be computed by walking the lists once.
-/

namespace Intervals

section Order

variable {α : Type*} [LinearOrder α]

/-- One of the intervals holds the point. -/
def Covers (l : List (α × α)) (t : α) : Prop := ∃ i ∈ l, i.1 ≤ t ∧ t < i.2

/-- No interval is inverted, and each ends before the next begins. -/
structure Separated (l : List (α × α)) : Prop where
  proper : ∀ i ∈ l, i.1 ≤ i.2
  apart : l.Pairwise fun i j => i.2 < j.1

/-- Merge the intervals that follow `(start, stop)` into it while they begin at
or below its end, and start over at the first that does not. -/
def merge (start stop : α) : List (α × α) → List (α × α)
  | [] => [(start, stop)]
  | i :: rest =>
      if i.1 ≤ stop then merge start (max stop i.2) rest
      else (start, stop) :: merge i.1 i.2 rest

/-- The intervals in order, with those that meet merged. -/
def union (l : List (α × α)) : List (α × α) :=
  match Sorted.sortOn toLex l with
  | [] => []
  | i :: rest => merge i.1 i.2 rest

/-- What lies between two bounds. -/
def clip (l : List (α × α)) (low high : α) : List (α × α) :=
  (l.filter fun i => i.2 > low ∧ i.1 < high).map fun i => (max i.1 low, min i.2 high)

theorem covers_nil (t : α) : ¬ Covers [] t := by
  rintro ⟨i, hi, -⟩
  cases hi

theorem covers_cons {i : α × α} {l : List (α × α)} {t : α} :
    Covers (i :: l) t ↔ (i.1 ≤ t ∧ t < i.2) ∨ Covers l t := by
  rw [Covers, List.exists_mem_cons_iff]
  rfl

theorem covers_perm {l l' : List (α × α)} (h : l.Perm l') (t : α) : Covers l t ↔ Covers l' t := by
  constructor
  · rintro ⟨i, hi, ht⟩
    exact ⟨i, h.mem_iff.mp hi, ht⟩
  · rintro ⟨i, hi, ht⟩
    exact ⟨i, h.mem_iff.mpr hi, ht⟩

/-- Nothing begins before the first interval. -/
theorem le_of_mem_merge {start stop : α} {l : List (α × α)}
    (hsorted : (start :: l.map Prod.fst).Pairwise (· ≤ ·)) :
    ∀ i ∈ merge start stop l, start ≤ i.1 := by
  induction l generalizing start stop with
  | nil =>
      intro i hi
      obtain rfl := List.mem_singleton.mp hi
      exact le_refl _
  | cons j l ih =>
      rw [List.map_cons, List.pairwise_cons, List.pairwise_cons] at hsorted
      obtain ⟨hstart, hj, hl⟩ := hsorted
      intro i hi
      rw [merge] at hi
      split at hi
      · refine ih (List.pairwise_cons.mpr ⟨fun s hs => ?_, hl⟩) i hi
        exact hstart s (List.mem_cons_of_mem _ hs)
      · rcases List.mem_cons.mp hi with rfl | hi
        · exact le_refl _
        · exact le_trans (hstart j.1 List.mem_cons_self)
            (ih (List.pairwise_cons.mpr ⟨hj, hl⟩) i hi)

theorem covers_merge {start stop : α} {l : List (α × α)}
    (hsorted : (start :: l.map Prod.fst).Pairwise (· ≤ ·)) (t : α) :
    Covers (merge start stop l) t ↔ (start ≤ t ∧ t < stop) ∨ Covers l t := by
  induction l generalizing start stop with
  | nil => rw [merge, covers_cons]
  | cons j l ih =>
      rw [List.map_cons, List.pairwise_cons, List.pairwise_cons] at hsorted
      obtain ⟨hstart, hj, hl⟩ := hsorted
      have hle : start ≤ j.1 := hstart j.1 List.mem_cons_self
      rw [merge, covers_cons, ← or_assoc]
      split
      · next hmeet =>
          have hrest : (start :: l.map Prod.fst).Pairwise (· ≤ ·) :=
            List.pairwise_cons.mpr ⟨fun s hs => hstart s (List.mem_cons_of_mem _ hs), hl⟩
          rw [ih hrest]
          refine or_congr_left ?_
          rw [lt_max_iff]
          constructor
          · rintro ⟨ht, hstop | hend⟩
            · exact .inl ⟨ht, hstop⟩
            · rcases lt_or_ge t stop with hlt | hge
              · exact .inl ⟨ht, hlt⟩
              · exact .inr ⟨le_trans hmeet hge, hend⟩
          · rintro (⟨ht, hstop⟩ | ⟨ht, hend⟩)
            · exact ⟨ht, .inl hstop⟩
            · exact ⟨le_trans hle ht, .inr hend⟩
      · rw [covers_cons, ih (List.pairwise_cons.mpr ⟨hj, hl⟩), or_assoc]

theorem separated_merge {start stop : α} {l : List (α × α)}
    (hsorted : (start :: l.map Prod.fst).Pairwise (· ≤ ·)) (hproper : start ≤ stop)
    (hl : ∀ i ∈ l, i.1 ≤ i.2) : Separated (merge start stop l) := by
  induction l generalizing start stop with
  | nil =>
      refine ⟨fun i hi => ?_, List.pairwise_singleton _ _⟩
      obtain rfl := List.mem_singleton.mp hi
      exact hproper
  | cons j l ih =>
      rw [List.map_cons, List.pairwise_cons, List.pairwise_cons] at hsorted
      obtain ⟨hstart, hj, hrest⟩ := hsorted
      have htail : ∀ i ∈ l, i.1 ≤ i.2 := fun i hi => hl i (List.mem_cons_of_mem _ hi)
      rw [merge]
      split
      · refine ih (List.pairwise_cons.mpr ⟨fun s hs => ?_, hrest⟩)
          (le_trans hproper (le_max_left _ _)) htail
        exact hstart s (List.mem_cons_of_mem _ hs)
      · next hgap =>
          have hfollow := List.pairwise_cons.mpr ⟨hj, hrest⟩
          have hsep := ih hfollow (hl j List.mem_cons_self) htail
          refine ⟨fun i hi => ?_, List.pairwise_cons.mpr ⟨fun i hi => ?_, hsep.apart⟩⟩
          · rcases List.mem_cons.mp hi with rfl | hi
            · exact hproper
            · exact hsep.proper i hi
          · exact lt_of_lt_of_le (not_le.mp hgap) (le_of_mem_merge hfollow i hi)

/-- Sorting by both bounds sorts the first ones. -/
theorem sortOn_toLex_pairwise (l : List (α × α)) :
    ((Sorted.sortOn toLex l).map Prod.fst).Pairwise (· ≤ ·) := by
  rw [List.pairwise_map]
  refine (Sorted.sortOn_pairwise toLex l).imp fun {i j} h => ?_
  rcases Prod.Lex.toLex_le_toLex.mp h with hlt | ⟨heq, -⟩
  · exact hlt.le
  · exact heq.le

theorem covers_union (l : List (α × α)) (t : α) : Covers (union l) t ↔ Covers l t := by
  have hsorted := sortOn_toLex_pairwise l
  rw [covers_perm (Sorted.sortOn_perm toLex l).symm, union]
  cases hsort : Sorted.sortOn toLex l with
  | nil => exact Iff.rfl
  | cons i rest =>
      rw [hsort, List.map_cons] at hsorted
      rw [covers_cons]
      exact covers_merge hsorted t

theorem separated_union {l : List (α × α)} (h : ∀ i ∈ l, i.1 ≤ i.2) : Separated (union l) := by
  have hsorted := sortOn_toLex_pairwise l
  have hproper : ∀ i ∈ Sorted.sortOn toLex l, i.1 ≤ i.2 := fun i hi =>
    h i ((Sorted.sortOn_perm toLex l).mem_iff.mp hi)
  rw [union]
  cases hsort : Sorted.sortOn toLex l with
  | nil => exact ⟨nofun, List.Pairwise.nil⟩
  | cons i rest =>
      rw [hsort, List.map_cons] at hsorted
      rw [hsort] at hproper
      exact separated_merge hsorted (hproper i List.mem_cons_self)
        fun j hj => hproper j (List.mem_cons_of_mem _ hj)

theorem covers_clip (l : List (α × α)) (low high t : α) :
    Covers (clip l low high) t ↔ Covers l t ∧ low ≤ t ∧ t < high := by
  constructor
  · rintro ⟨i, hi, hlow, hhigh⟩
    obtain ⟨j, hj, rfl⟩ := List.mem_map.mp hi
    rw [max_le_iff] at hlow
    rw [lt_min_iff] at hhigh
    exact ⟨⟨j, (List.mem_filter.mp hj).1, hlow.1, hhigh.1⟩, hlow.2, hhigh.2⟩
  · rintro ⟨⟨i, hi, hstart, hstop⟩, hlow, hhigh⟩
    refine ⟨(max i.1 low, min i.2 high), List.mem_map.mpr ⟨i, ?_, rfl⟩, max_le hstart hlow,
      lt_min hstop hhigh⟩
    refine List.mem_filter.mpr ⟨hi, decide_eq_true ⟨lt_of_le_of_lt hlow hstop, ?_⟩⟩
    exact lt_of_le_of_lt hstart hhigh

theorem Separated.clip {l : List (α × α)} (h : Separated l) {low high : α} (hle : low ≤ high) :
    Separated (clip l low high) where
  proper i hi := by
    obtain ⟨j, hj, rfl⟩ := List.mem_map.mp hi
    obtain ⟨hmem, hinside⟩ := List.mem_filter.mp hj
    obtain ⟨hlow, hhigh⟩ := of_decide_eq_true hinside
    exact max_le (le_min (h.proper j hmem) hhigh.le) (le_min hlow.le hle)
  apart := by
    rw [Intervals.clip, List.pairwise_map]
    refine (h.apart.filter _).imp fun {i j} hij => ?_
    exact lt_of_le_of_lt (min_le_left _ _) (lt_of_lt_of_le hij (le_max_left _ _))

end Order

/-! ## The integers covered -/

/-- The integers an interval list covers. -/
noncomputable def points (l : List (Int × Int)) : Finset Int :=
  l.toFinset.biUnion fun i => Finset.Ico i.1 i.2

/-- The total length. -/
def length (l : List (Int × Int)) : Int := (l.map fun i => i.2 - i.1).sum

/-- The length two lists share, walking both from the front: the interval that
ends first is done with. -/
def overlap : List (Int × Int) → List (Int × Int) → Int
  | [], _ => 0
  | _ :: _, [] => 0
  | i :: l, j :: m =>
      let low := max i.1 j.1
      let high := min i.2 j.2
      (if high > low then high - low else 0) +
        if i.2 < j.2 then overlap l (j :: m) else overlap (i :: l) m
  termination_by l m => l.length + m.length

@[simp] theorem mem_points {l : List (Int × Int)} {t : Int} : t ∈ points l ↔ Covers l t := by
  rw [points, Finset.mem_biUnion]
  simp only [List.mem_toFinset, Finset.mem_Ico]
  rfl

theorem Separated.of_cons {i : Int × Int} {l : List (Int × Int)} (h : Separated (i :: l)) :
    Separated l where
  proper j hj := h.proper j (List.mem_cons_of_mem _ hj)
  apart := (List.pairwise_cons.mp h.apart).2

theorem points_cons (i : Int × Int) (l : List (Int × Int)) :
    points (i :: l) = Finset.Ico i.1 i.2 ∪ points l := by
  ext t
  rw [Finset.mem_union, mem_points, mem_points, covers_cons, Finset.mem_Ico]

/-- What follows an interval of a separated list is past its end. -/
theorem Separated.lt_of_covers {i : Int × Int} {l : List (Int × Int)} (h : Separated (i :: l))
    {t : Int} (ht : Covers l t) : i.2 < t := by
  obtain ⟨j, hj, hstart, -⟩ := ht
  exact lt_of_lt_of_le ((List.pairwise_cons.mp h.apart).1 j hj) hstart

theorem Separated.disjoint {i : Int × Int} {l : List (Int × Int)} (h : Separated (i :: l)) :
    Disjoint (Finset.Ico i.1 i.2) (points l) := by
  rw [Finset.disjoint_left]
  intro t ht hl
  have hpast := h.lt_of_covers (mem_points.mp hl)
  have hbelow := (Finset.mem_Ico.mp ht).2
  omega

theorem length_eq_card {l : List (Int × Int)} (h : Separated l) :
    length l = (points l).card := by
  induction l with
  | nil => rfl
  | cons i l ih =>
      have hproper := h.proper i List.mem_cons_self
      rw [points_cons, Finset.card_union_of_disjoint h.disjoint, Int.card_Ico, Nat.cast_add,
        ← ih h.of_cons, length, List.map_cons, List.sum_cons, ← length]
      omega

/-- What two intervals share. -/
theorem card_shared (i j : Int × Int) :
    ((Finset.Ico i.1 i.2 ∩ Finset.Ico j.1 j.2).card : Int) =
      if min i.2 j.2 > max i.1 j.1 then min i.2 j.2 - max i.1 j.1 else 0 := by
  rw [Finset.Ico_inter_Ico, Int.card_Ico]
  split <;> omega

/-- The interval that ends first shares nothing with what follows the other. -/
theorem card_of_first {i j : Int × Int} {l m : List (Int × Int)} (hl : Separated (i :: l))
    (hm : Separated (j :: m)) (hfirst : i.2 ≤ j.2) :
    (points (i :: l) ∩ points (j :: m)).card =
      (Finset.Ico i.1 i.2 ∩ Finset.Ico j.1 j.2).card + (points l ∩ points (j :: m)).card := by
  have hpast : Finset.Ico i.1 i.2 ∩ points m = ∅ := by
    rw [← Finset.disjoint_iff_inter_eq_empty, Finset.disjoint_left]
    intro t ht hcovers
    have hlater := hm.lt_of_covers (mem_points.mp hcovers)
    have hbelow := (Finset.mem_Ico.mp ht).2
    omega
  have honly : Finset.Ico i.1 i.2 ∩ points (j :: m) =
      Finset.Ico i.1 i.2 ∩ Finset.Ico j.1 j.2 := by
    rw [points_cons, Finset.inter_union_distrib_left, hpast, Finset.union_empty]
  rw [points_cons i l, Finset.union_inter_distrib_right, honly, Finset.card_union_of_disjoint]
  exact hl.disjoint.mono Finset.inter_subset_left Finset.inter_subset_left

theorem overlap_eq_card {l m : List (Int × Int)} (hl : Separated l) (hm : Separated m) :
    overlap l m = (points l ∩ points m).card := by
  induction l, m using overlap.induct with
  | case1 m =>
      rw [overlap]
      rfl
  | case2 i l =>
      have hempty : points (i :: l) ∩ points [] = ∅ := Finset.inter_empty _
      rw [overlap, hempty]
      rfl
  | case3 i l j m ihfirst ihlast =>
      rw [overlap]
      rw [← card_shared]
      split
      · next hfirst =>
          rw [card_of_first hl hm hfirst.le, ihfirst hl.of_cons hm, Nat.cast_add]
      · next hlast =>
          rw [Finset.inter_comm (points (i :: l)), card_of_first hm hl (not_lt.mp hlast),
            ihlast hl hm.of_cons, Nat.cast_add, Finset.inter_comm (points m),
            Finset.inter_comm (Finset.Ico i.1 i.2)]

end Intervals
