import Mathlib
import Tape.Dict
import Tape.Sorted

/-!
# Sums and tallies

What the entries of a dictionary come to when each is worth something, and how
that changes when one entry is written or dropped. A tally is a dictionary of
counts: how often each key was counted, and how often any key was. Counting a
key moves its own count and the total by one, and putting the keys in order
moves neither.
-/

namespace Dict

variable {κ ν μ M : Type*} [AddCommMonoid M]

/-- What the entries come to. -/
def sum (f : κ → ν → M) (d : Dict κ ν) : M := (d.entries.map fun e => f e.1 e.2).sum

@[simp] theorem sum_empty (f : κ → ν → M) : (∅ : Dict κ ν).sum f = 0 := rfl

theorem sum_values (f : ν → M) (d : Dict κ ν) : (d.values.map f).sum = d.sum fun _ => f := by
  rw [values, List.map_map]
  rfl

theorem sum_mapValues (f : κ → μ → M) (g : κ → ν → μ) (d : Dict κ ν) :
    (d.mapValues g).sum f = d.sum fun k x => f k (g k x) := by
  rw [sum, mapValues, List.map_map]
  rfl

theorem sum_add (f g : κ → ν → M) (d : Dict κ ν) :
    (d.sum fun k x => f k x + g k x) = d.sum f + d.sum g := List.sum_map_add

theorem sum_nonneg {f : κ → ν → Int} (h : ∀ k x, 0 ≤ f k x) (d : Dict κ ν) : 0 ≤ d.sum f := by
  refine List.sum_nonneg fun n hn => ?_
  obtain ⟨e, -, rfl⟩ := List.mem_map.mp hn
  exact h e.1 e.2

variable [DecidableEq κ]

theorem sum_le {f g : κ → ν → Int} {d : Dict κ ν}
    (h : ∀ k x, d.get? k = some x → f k x ≤ g k x) : d.sum f ≤ d.sum g :=
  List.sum_le_sum fun e he => h e.1 e.2 (get?_eq_some_iff.mpr he)

theorem sum_congr {f g : κ → ν → M} {d : Dict κ ν}
    (h : ∀ k x, d.get? k = some x → f k x = g k x) : d.sum f = d.sum g := by
  rw [sum, sum]
  congr 1
  exact List.map_congr_left fun e he => h e.1 e.2 (get?_eq_some_iff.mpr he)

theorem sum_of_perm {d e : Dict κ ν} {k : κ} {x : ν} (f : κ → ν → M)
    (h : ∀ k', d.get? k' = if k = k' then some x else e.get? k') :
    d.sum f = f k x + (e.erase k).sum f := by
  have hnodup : (((k, x) :: (e.erase k).entries).map Prod.fst).Nodup := by
    rw [List.map_cons, List.nodup_cons]
    exact ⟨fun hmem => (mem_keys_erase.mp hmem).2 rfl, (e.erase k).nodup⟩
  have hsame : ∀ k', d.get? k' = (Dict.mk ((k, x) :: (e.erase k).entries) hnodup).get? k' := by
    intro k'
    rw [h k']
    show _ = lookup k' ((k, x) :: (e.erase k).entries)
    rw [lookup]
    split
    · rfl
    · next hne => exact (get?_erase_ne hne).symm
  have hperm := entries_perm_of_get?_eq hsame
  rw [sum, (hperm.map fun e => f e.1 e.2).sum_eq, List.map_cons, List.sum_cons]
  rfl

/-- A key that is written is worth its new value, beside the others. -/
theorem sum_set (f : κ → ν → M) (d : Dict κ ν) (k : κ) (x : ν) :
    (d.set k x).sum f = f k x + (d.erase k).sum f := sum_of_perm f fun k' => get?_set d k k' x

theorem sum_of_get? (f : κ → ν → M) {d : Dict κ ν} {k : κ} {x : ν} (h : d.get? k = some x) :
    d.sum f = f k x + (d.erase k).sum f := by
  refine sum_of_perm f fun k' => ?_
  split
  · next heq => rw [← heq, h]
  · rfl

theorem erase_of_get?_eq_none {d : Dict κ ν} {k : κ} (h : d.get? k = none) : d.erase k = d := by
  refine ext (List.filter_eq_self.mpr fun e he => decide_eq_true ?_)
  rintro rfl
  exact get?_eq_none_iff.mp h (List.mem_map_of_mem he)

end Dict

/-- How often each key was counted. -/
abbrev Tally (κ : Type*) := Dict κ Nat

namespace Tally

variable {κ : Type*}

/-- How often any key was counted. -/
def total (counts : Tally κ) : Nat := counts.values.sum

@[simp] theorem total_empty : total (∅ : Tally κ) = 0 := rfl

theorem total_eq_sum (counts : Tally κ) : counts.total = Dict.sum (fun _ n => n) counts := by
  rw [← Dict.sum_values, List.map_id']
  rfl

variable [DecidableEq κ]

/-- Count a key. -/
def bump (counts : Tally κ) (k : κ) : Tally κ := counts.set k (counts.getD k 0 + 1)

/-- How often `k` was counted. -/
def count (counts : Tally κ) (k : κ) : Nat := counts.getD k 0

@[simp] theorem count_empty (k : κ) : count (∅ : Tally κ) k = 0 := rfl

theorem count_bump (counts : Tally κ) (k k' : κ) :
    (bump counts k).count k' = counts.count k' + if k = k' then 1 else 0 := by
  rw [count, bump, Dict.getD, Dict.get?_set]
  split
  · next heq =>
      subst heq
      rfl
  · rfl

@[simp] theorem count_bump_self (counts : Tally κ) (k : κ) :
    (bump counts k).count k = counts.count k + 1 := by
  rw [count_bump, if_pos rfl]

@[simp] theorem total_bump (counts : Tally κ) (k : κ) :
    (bump counts k).total = counts.total + 1 := by
  rw [total_eq_sum, bump, Dict.sum_set, Dict.getD, total_eq_sum]
  cases hget : counts.get? k with
  | none =>
      rw [Dict.erase_of_get?_eq_none hget, Option.getD_none]
      omega
  | some n =>
      rw [Dict.sum_of_get? _ hget, Option.getD_some]
      omega

/-- The keys of a tally that was bumped. -/
theorem mem_keys_bump {counts : Tally κ} {k k' : κ} :
    k' ∈ (bump counts k).keys ↔ k' = k ∨ k' ∈ counts.keys := by
  rw [bump, Dict.mem_keys_set]

end Tally

namespace Dict

variable {κ ν : Type*} [LinearOrder κ]

/-- The same dictionary with its keys in order. -/
def sorted (d : Dict κ ν) : Dict κ ν where
  entries := Sorted.sortOn Prod.fst d.entries
  nodup := (((Sorted.sortOn_perm Prod.fst d.entries).map Prod.fst).nodup_iff).mpr d.nodup

theorem sorted_perm (d : Dict κ ν) : d.sorted.entries.Perm d.entries :=
  Sorted.sortOn_perm Prod.fst d.entries

@[simp] theorem get?_sorted (d : Dict κ ν) (k : κ) : d.sorted.get? k = d.get? k :=
  get?_eq_of_entries_perm d.sorted_perm k

theorem mem_keys_sorted {d : Dict κ ν} {k : κ} : k ∈ d.sorted.keys ↔ k ∈ d.keys :=
  (d.sorted_perm.map Prod.fst).mem_iff

end Dict

namespace Tally

variable {κ : Type*} [LinearOrder κ]

@[simp] theorem count_sorted (counts : Tally κ) (k : κ) :
    count (Dict.sorted counts) k = counts.count k := by
  rw [count, Dict.getD, Dict.get?_sorted]
  rfl

@[simp] theorem total_sorted (counts : Tally κ) :
    total (Dict.sorted counts) = counts.total :=
  (counts.sorted_perm.map Prod.snd).sum_eq

end Tally
