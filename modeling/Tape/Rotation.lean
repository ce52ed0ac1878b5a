import Mathlib

/-!
# Turns around a circle

A list taken as a circle is gone around in arcs. One arc after the other, each
from where the one before it ended, is one long arc (`arc_add`), so what holds
of an arc of any length holds after any number of them. An arc meets each place
of the circle once in a full turn, and the places it meets once more are those
of its last, partial turn: no place is ahead of another by more than one
(`count_arc_le`).
-/

namespace Rotation

variable {α : Type*} (l : List α) (h : 0 < l.length)

/-- The elements of a circle from an index on: `take` of them. -/
def arc (start take : Nat) : List α :=
  (List.range take).map fun i => l.get ⟨(start + i) % l.length, Nat.mod_lt _ h⟩

variable {l h}

@[simp] theorem arc_zero (start : Nat) : arc l h start 0 = [] := rfl

@[simp] theorem length_arc (start take : Nat) : (arc l h start take).length = take := by
  rw [arc, List.length_map, List.length_range]

theorem mem_of_mem_arc {start take : Nat} {a : α} (ha : a ∈ arc l h start take) : a ∈ l := by
  obtain ⟨i, -, rfl⟩ := List.mem_map.mp ha
  exact List.get_mem _ _

/-- Only the place on the circle matters. -/
theorem arc_mod (start take : Nat) : arc l h (start % l.length) take = arc l h start take := by
  refine List.map_congr_left fun i _ => congrArg l.get (Fin.ext ?_)
  exact Nat.mod_add_mod _ _ _

/-- An arc goes on where another ended. -/
theorem arc_add (start take more : Nat) :
    arc l h start (take + more) = arc l h start take ++ arc l h (start + take) more := by
  rw [arc, List.range_add, List.map_append, List.map_map]
  refine congrArg (arc l h start take ++ ·) (List.map_congr_left fun i _ => ?_)
  refine congrArg l.get (Fin.ext ?_)
  show (start + (take + i)) % l.length = (start + take + i) % l.length
  rw [Nat.add_assoc]

/-- No place is met twice in one turn. -/
theorem nodup_arc (hl : l.Nodup) (start : Nat) {take : Nat} (htake : take ≤ l.length) :
    (arc l h start take).Nodup := by
  refine List.Nodup.map_on (fun i hi j hj heq => ?_) List.nodup_range
  have hplace := Fin.val_eq_of_eq (List.nodup_iff_injective_get.mp hl heq)
  have hi := List.mem_range.mp hi
  have hj := List.mem_range.mp hj
  have hmod : i % l.length = j % l.length := Nat.ModEq.add_left_cancel' start hplace
  rwa [Nat.mod_eq_of_lt (by omega), Nat.mod_eq_of_lt (by omega)] at hmod

theorem countP_range (p : Nat → Prop) [DecidablePred p] (n : Nat) :
    (List.range n).countP (fun i => decide (p i)) = Nat.count p n := by
  induction n with
  | zero => rfl
  | succ n ih =>
      rw [List.range_succ, List.countP_append, ih, Nat.count_succ, List.countP_singleton]
      by_cases hp : p n
      · rw [if_pos hp, if_pos (decide_eq_true hp)]
      · rw [if_neg hp, if_neg (by rw [decide_eq_true_eq]; exact hp)]

variable [DecidableEq α]

/-- An arc meets each place as often as it has full turns, or once more. -/
theorem count_arc (hl : l.Nodup) (start take : Nat) {a : α} (ha : a ∈ l) :
    take / l.length ≤ (arc l h start take).count a ∧
      (arc l h start take).count a ≤ take / l.length + 1 := by
  obtain ⟨j, hj⟩ := List.mem_iff_get.mp ha
  -- the steps that meet the place are those of one residue
  have hstep : ∀ i, l.get ⟨(start + i) % l.length, Nat.mod_lt _ h⟩ = a ↔
      i ≡ j + (l.length - start % l.length) [MOD l.length] := by
    intro i
    have hstart : start % l.length < l.length := Nat.mod_lt _ h
    have hturn : start + (j + (l.length - start % l.length)) ≡ j [MOD l.length] := by
      have hsplit := Nat.div_add_mod start l.length
      have hwhole : start + (j + (l.length - start % l.length)) =
          j + l.length * (start / l.length + 1) := by
        rw [Nat.mul_add, Nat.mul_one]
        omega
      rw [hwhole]
      exact Nat.add_mul_mod_self_left _ _ _
    rw [← hj, List.Nodup.get_inj_iff hl, Fin.ext_iff]
    have hplace : (start + i) % l.length = j ↔ start + i ≡ j [MOD l.length] := by
      rw [Nat.ModEq, Nat.mod_eq_of_lt j.isLt]
    show (start + i) % l.length = j ↔ _
    rw [hplace]
    constructor
    · exact fun hmet => Nat.ModEq.add_left_cancel' start (hmet.trans hturn.symm)
    · exact fun hres => (Nat.ModEq.add_left start hres).trans hturn
  have hcount : (arc l h start take).count a =
      Nat.count (· ≡ j + (l.length - start % l.length) [MOD l.length]) take := by
    rw [arc, List.count, List.countP_map, ← countP_range]
    refine List.countP_congr fun i _ => ?_
    rw [Function.comp_apply, beq_iff_eq, decide_eq_true_iff]
    exact hstep i
  rw [hcount, Nat.count_modEq_card _ h]
  split
  · omega
  · omega

/-- No place is met more than once more than another. -/
theorem count_arc_le (hl : l.Nodup) (start take : Nat) {a b : α} (ha : a ∈ l) (hb : b ∈ l) :
    (arc l h start take).count a ≤ (arc l h start take).count b + 1 :=
  (count_arc hl start take ha).2.trans (Nat.add_le_add_right (count_arc hl start take hb).1 1)

end Rotation
