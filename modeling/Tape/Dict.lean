import Mathlib

/-!
# Dictionaries that remember the order of insertion

A dictionary is a list of key and value pairs in which no key occurs twice,
and the absence of a second occurrence is a field: a list with a repeated key
is not a dictionary. Writing to a key that is present replaces its value where
it stands, writing to a new key appends, so a loop over a dictionary visits
the keys in the order in which they were first written.

Reading is the only observation the later modules make, so the file is the
usual table of read-after-write equations, and the two facts that connect
reading with the list underneath: a key reads as a value exactly when the pair
is an entry, and two dictionaries that read alike hold the same entries up to
their order.
-/

/-- A finite map with its entries in the order in which their keys were first
written. -/
structure Dict (κ : Type*) (ν : Type*) where
  entries : List (κ × ν)
  nodup : (entries.map Prod.fst).Nodup

namespace Dict

variable {κ : Type*} {ν : Type*} {μ : Type*}

instance [DecidableEq κ] [DecidableEq ν] : DecidableEq (Dict κ ν) := fun d e =>
  decidable_of_iff (d.entries = e.entries) (by
    cases d; cases e; simp)

@[ext] theorem ext {d e : Dict κ ν} (h : d.entries = e.entries) : d = e := by
  cases d; cases e; simp_all

/-- No entries. -/
def empty : Dict κ ν := ⟨[], List.nodup_nil⟩

instance : EmptyCollection (Dict κ ν) := ⟨empty⟩

instance : Inhabited (Dict κ ν) := ⟨∅⟩

/-- The keys, in the order they were added. -/
def keys (d : Dict κ ν) : List κ := d.entries.map Prod.fst

/-- The values, in that order. -/
def values (d : Dict κ ν) : List ν := d.entries.map Prod.snd

/-- How many entries there are. -/
def size (d : Dict κ ν) : Nat := d.entries.length

/-- There are no entries. -/
def isEmpty (d : Dict κ ν) : Bool := d.entries.isEmpty

section Read

variable [DecidableEq κ]

/-- The first value a list of pairs holds under a key. -/
def lookup (k : κ) : List (κ × ν) → Option ν
  | [] => none
  | (k', x) :: rest => if k' = k then some x else lookup k rest

/-- The value of a key, if it has one. -/
def get? (d : Dict κ ν) (k : κ) : Option ν := lookup k d.entries

/-- The key has a value. -/
def contains (d : Dict κ ν) (k : κ) : Bool := (d.get? k).isSome

/-- The value of a key, or another one. -/
def getD (d : Dict κ ν) (k : κ) (dflt : ν) : ν := (d.get? k).getD dflt

theorem mem_of_lookup {k : κ} {x : ν} {l : List (κ × ν)} (h : lookup k l = some x) :
    (k, x) ∈ l := by
  induction l with
  | nil => cases h
  | cons e rest ih =>
      obtain ⟨k', y⟩ := e
      rw [lookup] at h
      split at h
      · next hk =>
          obtain rfl := Option.some.inj h
          rw [hk]
          exact List.mem_cons_self
      · exact List.mem_cons_of_mem _ (ih h)

theorem lookup_eq_none_iff {k : κ} {l : List (κ × ν)} :
    lookup k l = none ↔ k ∉ l.map Prod.fst := by
  induction l with
  | nil => simp [lookup]
  | cons e rest ih =>
      obtain ⟨k', y⟩ := e
      rw [lookup]
      split
      · next hk => simp [hk]
      · next hk =>
          rw [ih]
          simp [Ne.symm hk]

theorem lookup_of_mem {k : κ} {x : ν} {l : List (κ × ν)} (hn : (l.map Prod.fst).Nodup)
    (h : (k, x) ∈ l) : lookup k l = some x := by
  induction l with
  | nil => cases h
  | cons e rest ih =>
      obtain ⟨k', y⟩ := e
      rw [List.map_cons, List.nodup_cons] at hn
      rw [lookup]
      rcases List.mem_cons.mp h with heq | hmem
      · obtain ⟨rfl, rfl⟩ := Prod.mk.inj heq
        rw [if_pos rfl]
      · have hk : k' ≠ k := by
          rintro rfl
          exact hn.1 (List.mem_map.mpr ⟨_, hmem, rfl⟩)
        rw [if_neg hk]
        exact ih hn.2 hmem

theorem get?_eq_some_iff {d : Dict κ ν} {k : κ} {x : ν} :
    d.get? k = some x ↔ (k, x) ∈ d.entries :=
  ⟨mem_of_lookup, lookup_of_mem d.nodup⟩

theorem get?_eq_none_iff {d : Dict κ ν} {k : κ} : d.get? k = none ↔ k ∉ d.keys :=
  lookup_eq_none_iff

theorem mem_keys_iff {d : Dict κ ν} {k : κ} : k ∈ d.keys ↔ ∃ x, d.get? k = some x := by
  rw [← not_iff_not, ← get?_eq_none_iff, Option.eq_none_iff_forall_ne_some]
  simp

theorem mem_keys_of_get? {d : Dict κ ν} {k : κ} {x : ν} (h : d.get? k = some x) :
    k ∈ d.keys := mem_keys_iff.mpr ⟨x, h⟩

@[simp] theorem get?_empty (k : κ) : (∅ : Dict κ ν).get? k = none := rfl

@[simp] theorem contains_iff {d : Dict κ ν} {k : κ} :
    d.contains k = true ↔ k ∈ d.keys := by
  rw [contains, Option.isSome_iff_exists, mem_keys_iff]

/-- Dictionaries that read alike hold the same entries, in some order. -/
theorem entries_perm_of_get?_eq {d e : Dict κ ν} (h : ∀ k, d.get? k = e.get? k) :
    d.entries.Perm e.entries := by
  refine (List.perm_ext_iff_of_nodup d.nodup.of_map e.nodup.of_map).mpr ?_
  rintro ⟨k, x⟩
  rw [← get?_eq_some_iff, ← get?_eq_some_iff, h k]

theorem get?_eq_of_entries_perm {d e : Dict κ ν} (h : d.entries.Perm e.entries) (k : κ) :
    d.get? k = e.get? k := by
  refine Option.ext fun x => ?_
  rw [get?_eq_some_iff, get?_eq_some_iff]
  exact h.mem_iff

end Read

section Write

variable [DecidableEq κ]

/-- Replace the value of a key where it stands, or append the pair. -/
def setEntry (k : κ) (x : ν) : List (κ × ν) → List (κ × ν)
  | [] => [(k, x)]
  | (k', y) :: rest => if k' = k then (k', x) :: rest else (k', y) :: setEntry k x rest

theorem setEntry_keys (k : κ) (x : ν) (l : List (κ × ν)) :
    (setEntry k x l).map Prod.fst =
      if k ∈ l.map Prod.fst then l.map Prod.fst else l.map Prod.fst ++ [k] := by
  induction l with
  | nil => simp [setEntry]
  | cons e rest ih =>
      obtain ⟨k', y⟩ := e
      rw [setEntry]
      split
      · next hk => simp [hk]
      · next hk =>
          rw [List.map_cons, ih]
          by_cases hmem : k ∈ rest.map Prod.fst
          · rw [if_pos hmem, if_pos (by simp [hmem]), List.map_cons]
          · rw [if_neg hmem, if_neg (by simpa [Ne.symm hk] using hmem), List.map_cons,
              List.cons_append]

theorem setEntry_nodup {k : κ} {x : ν} {l : List (κ × ν)} (h : (l.map Prod.fst).Nodup) :
    ((setEntry k x l).map Prod.fst).Nodup := by
  rw [setEntry_keys]
  split
  · exact h
  · next hk =>
      refine List.nodup_append.mpr ⟨h, List.nodup_singleton k, fun a ha b hb => ?_⟩
      obtain rfl := List.mem_singleton.mp hb
      rintro rfl
      exact hk ha

theorem lookup_setEntry (k k' : κ) (x : ν) (l : List (κ × ν)) :
    lookup k' (setEntry k x l) = if k = k' then some x else lookup k' l := by
  induction l with
  | nil => rfl
  | cons e rest ih =>
      obtain ⟨k₀, y⟩ := e
      rw [setEntry]
      by_cases h₀ : k₀ = k
      · subst h₀
        rw [if_pos rfl, lookup, lookup]
        split <;> rfl
      · rw [if_neg h₀, lookup, ih, lookup]
        by_cases hk : k = k'
        · subst hk
          rw [if_neg h₀, if_pos rfl, if_pos rfl]
        · rw [if_neg hk, if_neg hk]

/-- Write a key. -/
def set (d : Dict κ ν) (k : κ) (x : ν) : Dict κ ν :=
  ⟨setEntry k x d.entries, setEntry_nodup d.nodup⟩

theorem get?_set (d : Dict κ ν) (k k' : κ) (x : ν) :
    (d.set k x).get? k' = if k = k' then some x else d.get? k' :=
  lookup_setEntry k k' x d.entries

@[simp] theorem get?_set_self (d : Dict κ ν) (k : κ) (x : ν) :
    (d.set k x).get? k = some x := by rw [get?_set, if_pos rfl]

@[simp] theorem get?_set_ne {d : Dict κ ν} {k k' : κ} {x : ν} (h : k ≠ k') :
    (d.set k x).get? k' = d.get? k' := by rw [get?_set, if_neg h]

theorem keys_set (d : Dict κ ν) (k : κ) (x : ν) :
    (d.set k x).keys = if k ∈ d.keys then d.keys else d.keys ++ [k] :=
  setEntry_keys k x d.entries

theorem mem_keys_set {d : Dict κ ν} {k k' : κ} {x : ν} :
    k' ∈ (d.set k x).keys ↔ k' = k ∨ k' ∈ d.keys := by
  simp only [mem_keys_iff, get?_set]
  by_cases h : k = k'
  · simp [h]
  · simp [h, Ne.symm h]

theorem setEntry_of_not_mem {k : κ} {x : ν} {l : List (κ × ν)}
    (h : k ∉ l.map Prod.fst) : setEntry k x l = l ++ [(k, x)] := by
  induction l with
  | nil => rfl
  | cons e rest ih =>
      rw [List.map_cons, List.mem_cons, not_or] at h
      rw [setEntry, if_neg (Ne.symm h.1), ih h.2, List.cons_append]

theorem entries_set_of_not_mem {d : Dict κ ν} {k : κ} {x : ν} (h : k ∉ d.keys) :
    (d.set k x).entries = d.entries ++ [(k, x)] := setEntry_of_not_mem h

/-- Drop a key, if it is there. -/
def erase (d : Dict κ ν) (k : κ) : Dict κ ν :=
  ⟨d.entries.filter (fun e => e.1 ≠ k),
    d.nodup.sublist (List.filter_sublist.map Prod.fst)⟩

/-- A loop that writes at most one value for each of some items with distinct keys. -/
theorem get?_foldl_set {α : Type*} {f : Dict κ ν → α → Dict κ ν} {key : α → κ}
    {value : α → Option ν} (hf : ∀ d a, f d a = (value a).elim d (d.set (key a))) {l : List α}
    (hn : (l.map key).Nodup) {d : Dict κ ν} (hd : ∀ a ∈ l, d.get? (key a) = none) {k : κ} {x : ν} :
    (l.foldl f d).get? k = some x ↔
      d.get? k = some x ∨ ∃ a ∈ l, key a = k ∧ value a = some x := by
  induction l generalizing d with
  | nil => simp
  | cons a l ih =>
      rw [List.map_cons, List.nodup_cons] at hn
      have hother : ∀ b ∈ l, key a ≠ key b := fun b hb heq =>
        hn.1 (heq ▸ List.mem_map_of_mem hb)
      have hfresh : ∀ b ∈ l, (f d a).get? (key b) = none := by
        intro b hb
        have hb' := hd b (List.mem_cons_of_mem _ hb)
        rw [hf]
        cases value a with
        | none => exact hb'
        | some y => exact (get?_set_ne (hother b hb)).trans hb'
      rw [List.foldl_cons, ih hn.2 hfresh, hf]
      have hnone := hd a List.mem_cons_self
      have hsplit : (∃ b ∈ a :: l, key b = k ∧ value b = some x) ↔
          (key a = k ∧ value a = some x) ∨ ∃ b ∈ l, key b = k ∧ value b = some x := by
        simp
      rw [hsplit, ← or_assoc]
      refine or_congr_left ?_
      cases value a with
      | none => simp
      | some y =>
          rw [Option.elim_some, get?_set, Option.some.injEq]
          by_cases hk : key a = k
          · subst hk
            simp [hnone]
          · simp [hk]

theorem lookup_filter_ne (k k' : κ) (l : List (κ × ν)) :
    lookup k' (l.filter (fun e => e.1 ≠ k)) = if k = k' then none else lookup k' l := by
  induction l with
  | nil => simp [lookup]
  | cons e rest ih =>
      obtain ⟨k₀, y⟩ := e
      by_cases h₀ : k₀ = k
      · subst h₀
        rw [List.filter_cons_of_neg (by simp), ih, lookup]
        by_cases hk : k₀ = k'
        · rw [if_pos hk, if_pos hk]
        · rw [if_neg hk, if_neg hk, if_neg hk]
      · rw [List.filter_cons_of_pos (by simp [h₀]), lookup, ih, lookup]
        by_cases hk : k = k'
        · subst hk
          rw [if_neg h₀, if_pos rfl, if_pos rfl]
        · rw [if_neg hk, if_neg hk]

theorem get?_erase (d : Dict κ ν) (k k' : κ) :
    (d.erase k).get? k' = if k = k' then none else d.get? k' :=
  lookup_filter_ne k k' d.entries

@[simp] theorem get?_erase_self (d : Dict κ ν) (k : κ) : (d.erase k).get? k = none := by
  rw [get?_erase, if_pos rfl]

@[simp] theorem get?_erase_ne {d : Dict κ ν} {k k' : κ} (h : k ≠ k') :
    (d.erase k).get? k' = d.get? k' := by rw [get?_erase, if_neg h]

theorem mem_keys_erase {d : Dict κ ν} {k k' : κ} :
    k' ∈ (d.erase k).keys ↔ k' ∈ d.keys ∧ k' ≠ k := by
  simp only [mem_keys_iff, get?_erase]
  by_cases h : k = k'
  · simp [h]
  · simp [h, Ne.symm h]

end Write

section Map

/-- `{k: f(k) for k in l}`. -/
def tabulate (l : List κ) (h : l.Nodup) (f : κ → ν) : Dict κ ν :=
  ⟨l.map fun k => (k, f k), by
    rw [List.map_map]
    exact (List.map_id l).symm ▸ h⟩

theorem get?_tabulate [DecidableEq κ] {l : List κ} (h : l.Nodup) (f : κ → ν) (k : κ) :
    (tabulate l h f).get? k = if k ∈ l then some (f k) else none := by
  by_cases hk : k ∈ l
  · rw [if_pos hk]
    exact get?_eq_some_iff.mpr (List.mem_map.mpr ⟨k, hk, rfl⟩)
  · rw [if_neg hk, get?_eq_none_iff, keys, tabulate, List.map_map]
    exact fun hmem => hk (by simpa using hmem)

/-- Change every value, the key at hand; the keys and their order stay. -/
def mapValues (f : κ → ν → μ) (d : Dict κ ν) : Dict κ μ :=
  ⟨d.entries.map (fun e => (e.1, f e.1 e.2)), by
    rw [List.map_map]
    exact d.nodup⟩

@[simp] theorem keys_mapValues (f : κ → ν → μ) (d : Dict κ ν) :
    (d.mapValues f).keys = d.keys := by
  simp [keys, mapValues]

theorem lookup_map [DecidableEq κ] (f : κ → ν → μ) (k : κ) (l : List (κ × ν)) :
    lookup k (l.map (fun e => (e.1, f e.1 e.2))) = (lookup k l).map (f k) := by
  induction l with
  | nil => rfl
  | cons e rest ih =>
      obtain ⟨k₀, y⟩ := e
      rw [List.map_cons, lookup, lookup]
      split
      · next hk => rw [← hk]; rfl
      · exact ih

@[simp] theorem get?_mapValues [DecidableEq κ] (f : κ → ν → μ) (d : Dict κ ν) (k : κ) :
    (d.mapValues f).get? k = (d.get? k).map (f k) := lookup_map f k d.entries

/-- Keep the entries a test accepts. -/
def filter (p : κ → ν → Bool) (d : Dict κ ν) : Dict κ ν :=
  ⟨d.entries.filter (fun e => p e.1 e.2), d.nodup.sublist (List.filter_sublist.map Prod.fst)⟩

theorem ext_entries {d e : Dict κ ν} (h : d.entries = e.entries) : d = e := by
  cases d
  cases e
  congr

theorem mapValues_congr {f g : κ → ν → μ} {d : Dict κ ν}
    (h : ∀ e ∈ d.entries, f e.1 e.2 = g e.1 e.2) : d.mapValues f = d.mapValues g :=
  ext_entries (List.map_congr_left fun e he => by rw [h e he])

theorem filter_congr {p q : κ → ν → Bool} {d : Dict κ ν}
    (h : ∀ e ∈ d.entries, p e.1 e.2 = q e.1 e.2) : d.filter p = d.filter q :=
  ext_entries (List.filter_congr h)

theorem get?_filter [DecidableEq κ] (p : κ → ν → Bool) (d : Dict κ ν) (k : κ) :
    (d.filter p).get? k = (d.get? k).filter (p k) := by
  refine Option.ext fun x => ?_
  rw [get?_eq_some_iff, Option.filter_eq_some_iff, get?_eq_some_iff]
  simp [filter]

end Map

section Group

variable {α : Type*} [DecidableEq κ]

/-- Append a value to the group of its key, opening the group at the end if
there is none. -/
def addToGroup (key : α → κ) (d : Dict κ (α × List α)) (a : α) : Dict κ (α × List α) :=
  match d.get? (key a) with
  | none => d.set (key a) (a, [])
  | some (first, rest) => d.set (key a) (first, rest ++ [a])

/-- The values under each key, in the order they came. A group has a first
value: an empty one cannot be built. -/
def groupBy (key : α → κ) (l : List α) : Dict κ (α × List α) :=
  l.foldl (addToGroup key) ∅

/-- A group as it is read off the list. -/
def asGroup : List α → Option (α × List α)
  | [] => none
  | a :: rest => some (a, rest)

theorem asGroup_append_singleton (l : List α) (a : α) :
    asGroup (l ++ [a]) =
      match asGroup l with
      | none => some (a, [])
      | some (first, rest) => some (first, rest ++ [a]) := by
  cases l <;> rfl

theorem get?_addToGroup (key : α → κ) (d : Dict κ (α × List α)) (a : α) (k : κ) :
    (addToGroup key d a).get? k =
      if key a = k then
        match d.get? k with
        | none => some (a, [])
        | some (first, rest) => some (first, rest ++ [a])
      else d.get? k := by
  rw [addToGroup]
  by_cases hk : key a = k
  · subst hk
    rw [if_pos rfl]
    cases d.get? (key a) with
    | none => rw [get?_set_self]
    | some g => rw [get?_set_self]
  · rw [if_neg hk]
    cases d.get? (key a) with
    | none => rw [get?_set_ne hk]
    | some g => rw [get?_set_ne hk]

theorem get?_foldl_addToGroup (key : α → κ) (k : κ) (l pre : List α)
    (d : Dict κ (α × List α))
    (hd : d.get? k = asGroup (pre.filter (fun a => key a = k))) :
    (l.foldl (addToGroup key) d).get? k =
      asGroup ((pre ++ l).filter (fun a => key a = k)) := by
  induction l generalizing pre d with
  | nil => rw [List.append_nil]; exact hd
  | cons a l ih =>
      rw [List.foldl_cons, List.append_cons]
      refine ih (pre ++ [a]) _ ?_
      rw [get?_addToGroup, List.filter_append]
      by_cases hk : key a = k
      · rw [if_pos hk, hd, List.filter_cons_of_pos (by simp [hk]), List.filter_nil,
          asGroup_append_singleton]
      · rw [if_neg hk, hd, List.filter_cons_of_neg (by simp [hk]), List.filter_nil,
          List.append_nil]

/-- The group of a key is the values with that key, in their order. -/
theorem get?_groupBy (key : α → κ) (l : List α) (k : κ) :
    (groupBy key l).get? k = asGroup (l.filter (fun a => key a = k)) :=
  get?_foldl_addToGroup key k l [] ∅ rfl

theorem asGroup_eq_some_iff {l : List α} {first : α} {rest : List α} :
    asGroup l = some (first, rest) ↔ l = first :: rest := by
  cases l <;> simp [asGroup]

/-- Each group with the key it has, and no key twice. -/
theorem groupBy_values (key : α → κ) (l : List α) :
    ((groupBy key l).values.map fun g => key g.1).Nodup ∧
      ∀ g ∈ (groupBy key l).values, g.1 :: g.2 = l.filter fun a => key a = key g.1 := by
  have hkey : ∀ e ∈ (groupBy key l).entries,
      key e.2.1 = e.1 ∧ e.2.1 :: e.2.2 = l.filter fun a => key a = e.1 := by
    rintro ⟨k, first, rest⟩ hmem
    have hget := get?_eq_some_iff.mpr hmem
    rw [get?_groupBy, asGroup_eq_some_iff] at hget
    have hfirst : first ∈ l.filter fun a => key a = k := hget ▸ List.mem_cons_self
    exact ⟨of_decide_eq_true (List.mem_filter.mp hfirst).2, hget.symm⟩
  constructor
  · have heq : (groupBy key l).values.map (fun g => key g.1) = (groupBy key l).keys := by
      rw [values, keys, List.map_map]
      exact List.map_congr_left fun e he => (hkey e he).1
    rw [heq]
    exact (groupBy key l).nodup
  · intro g hg
    obtain ⟨e, he, rfl⟩ := List.mem_map.mp hg
    obtain ⟨hk, hfilter⟩ := hkey e he
    rw [hfilter, hk]

/-- Every value is in the group of its key. -/
theorem exists_groupBy (key : α → κ) {l : List α} {a : α} (ha : a ∈ l) :
    ∃ g ∈ (groupBy key l).values, key g.1 = key a := by
  have hne : a ∈ l.filter fun b => key b = key a :=
    List.mem_filter.mpr ⟨ha, decide_eq_true rfl⟩
  cases hl : l.filter fun b => key b = key a with
  | nil =>
      rw [hl] at hne
      cases hne
  | cons first rest =>
      have hget : (groupBy key l).get? (key a) = some (first, rest) := by
        rw [get?_groupBy, hl]
        rfl
      have hfirst : first ∈ l.filter fun b => key b = key a := hl ▸ List.mem_cons_self
      exact ⟨_, List.mem_map.mpr ⟨_, get?_eq_some_iff.mp hget, rfl⟩,
        of_decide_eq_true (List.mem_filter.mp hfirst).2⟩

end Group

section Loops

variable [DecidableEq κ]

/-- New keys are appended. -/
theorem keys_foldl_set {α : Type*} (key : α → κ) (value : α → ν) {l : List α} {d : Dict κ ν}
    (hn : (l.map key).Nodup) (hd : ∀ a ∈ l, key a ∉ d.keys) :
    (l.foldl (fun d a => d.set (key a) (value a)) d).keys = d.keys ++ l.map key := by
  induction l generalizing d with
  | nil => rw [List.foldl_nil, List.map_nil, List.append_nil]
  | cons a l ih =>
      rw [List.map_cons, List.nodup_cons] at hn
      have ha := hd a List.mem_cons_self
      have hset : (d.set (key a) (value a)).keys = d.keys ++ [key a] := by rw [keys_set, if_neg ha]
      rw [List.foldl_cons, ih hn.2, hset, List.append_assoc, List.singleton_append, List.map_cons]
      intro b hb hmem
      rw [hset, List.mem_append, List.mem_singleton] at hmem
      rcases hmem with hmem | heq
      · exact hd b (List.mem_cons_of_mem _ hb) hmem
      · exact hn.1 (heq ▸ List.mem_map_of_mem hb)

theorem entries_foldl_erase (l : List κ) (d : Dict κ ν) :
    (l.foldl erase d).entries = d.entries.filter fun e => e.1 ∉ l := by
  induction l generalizing d with
  | nil => simp
  | cons k l ih =>
      rw [List.foldl_cons, ih, erase, List.filter_filter]
      refine List.filter_congr fun e _ => ?_
      simp [Bool.and_comm]

theorem get?_foldl_erase (l : List κ) (d : Dict κ ν) (k : κ) :
    (l.foldl erase d).get? k = if k ∈ l then none else d.get? k := by
  refine Option.ext fun x => ?_
  rw [get?_eq_some_iff, entries_foldl_erase, List.mem_filter, ← get?_eq_some_iff]
  by_cases hk : k ∈ l
  · simp [hk]
  · simp [hk]

/-- The keys that are taken out, if all were there. -/
theorem length_foldl_erase {l : List κ} {d : Dict κ ν} (hn : l.Nodup) (hd : ∀ k ∈ l, k ∈ d.keys) :
    (l.foldl erase d).keys.length + l.length = d.keys.length := by
  induction l generalizing d with
  | nil => rfl
  | cons k l ih =>
      rw [List.nodup_cons] at hn
      have herase : (d.erase k).keys.length + 1 = d.keys.length := by
        have hkeys : (d.erase k).keys = d.keys.erase k := by
          have hfilter : d.keys.erase k = d.keys.filter (· ≠ k) := by
            have hnodup : d.keys.Nodup := d.nodup
            rw [hnodup.erase_eq_filter]
            exact List.filter_congr fun k' _ => by simp [bne, beq_eq_decide]
          rw [hfilter, keys, keys, erase, List.filter_map]
          rfl
        rw [hkeys, List.length_erase_add_one (hd k List.mem_cons_self)]
      have hrest : ∀ k' ∈ l, k' ∈ (d.erase k).keys := by
        intro k' hk'
        refine mem_keys_erase.mpr ⟨hd k' (List.mem_cons_of_mem _ hk'), ?_⟩
        rintro rfl
        exact hn.1 hk'
      have hall := ih hn.2 hrest
      rw [List.foldl_cons, List.length_cons]
      omega

end Loops

section Traverse

variable {ε : Type*}

/-- Work through entries in order; the first failure ends it. -/
def traverseEntries (f : κ → ν → Except ε μ) : List (κ × ν) → Except ε (List (κ × μ))
  | [] => .ok []
  | (k, x) :: rest =>
      match f k x with
      | .error e => .error e
      | .ok y =>
          match traverseEntries f rest with
          | .error e => .error e
          | .ok out => .ok ((k, y) :: out)

theorem traverseEntries_keys {f : κ → ν → Except ε μ} {l : List (κ × ν)}
    {out : List (κ × μ)} (h : traverseEntries f l = .ok out) :
    out.map Prod.fst = l.map Prod.fst := by
  induction l generalizing out with
  | nil => obtain rfl := Except.ok.inj h; rfl
  | cons e rest ih =>
      obtain ⟨k, x⟩ := e
      rw [traverseEntries] at h
      split at h
      · cases h
      · split at h
        · cases h
        · next y _ out' hout =>
            obtain rfl := Except.ok.inj h
            rw [List.map_cons, ih hout, List.map_cons]

/-- A dictionary built value by value from another, unless a value fails. -/
def traverse (f : κ → ν → Except ε μ) (d : Dict κ ν) : Except ε (Dict κ μ) :=
  match h : traverseEntries f d.entries with
  | .error e => .error e
  | .ok out => .ok ⟨out, by rw [traverseEntries_keys h]; exact d.nodup⟩

theorem traverseEntries_ok_iff {f : κ → ν → Except ε μ} {l : List (κ × ν)} :
    (∃ out, traverseEntries f l = .ok out) ↔ ∀ k x, (k, x) ∈ l → ∃ y, f k x = .ok y := by
  induction l with
  | nil => simp [traverseEntries]
  | cons e rest ih =>
      obtain ⟨k, x⟩ := e
      rw [traverseEntries]
      constructor
      · rintro ⟨out, h⟩ k' x' hmem
        split at h
        · cases h
        · next y hy =>
            split at h
            · cases h
            · next out' hout =>
                rcases List.mem_cons.mp hmem with heq | hmem
                · obtain ⟨rfl, rfl⟩ := Prod.mk.inj heq
                  exact ⟨y, hy⟩
                · exact ih.mp ⟨out', hout⟩ k' x' hmem
      · intro h
        obtain ⟨y, hy⟩ := h k x List.mem_cons_self
        obtain ⟨out, hout⟩ := ih.mpr fun k' x' hmem => h k' x' (List.mem_cons_of_mem _ hmem)
        exact ⟨(k, y) :: out, by rw [hy, hout]⟩

variable [DecidableEq κ]

theorem lookup_traverseEntries {f : κ → ν → Except ε μ} {l : List (κ × ν)}
    {out : List (κ × μ)} (h : traverseEntries f l = .ok out) (k : κ) :
    lookup k out = (lookup k l).bind fun x => (f k x).toOption := by
  induction l generalizing out with
  | nil => obtain rfl := Except.ok.inj h; rfl
  | cons e rest ih =>
      obtain ⟨k', x⟩ := e
      rw [traverseEntries] at h
      split at h
      · cases h
      · next y hy =>
          split at h
          · cases h
          · next out' hout =>
              obtain rfl := Except.ok.inj h
              rw [lookup, lookup]
              split
              · next hk => subst hk; rw [Option.bind_some, hy]; rfl
              · exact ih hout

theorem get?_traverse {f : κ → ν → Except ε μ} {d : Dict κ ν} {e : Dict κ μ}
    (h : traverse f d = .ok e) (k : κ) :
    e.get? k = (d.get? k).bind fun x => (f k x).toOption := by
  rw [traverse] at h
  split at h
  · cases h
  · next out hout =>
      obtain rfl := Except.ok.inj h
      exact lookup_traverseEntries hout k

theorem traverse_ok_iff {f : κ → ν → Except ε μ} {d : Dict κ ν} :
    (∃ e, traverse f d = .ok e) ↔ ∀ k x, d.get? k = some x → ∃ y, f k x = .ok y := by
  simp only [get?_eq_some_iff]
  rw [← traverseEntries_ok_iff, traverse]
  split
  · next e he => exact iff_of_false (by simp) (by rw [he]; simp)
  · next out hout => exact iff_of_true ⟨_, rfl⟩ ⟨out, hout⟩

end Traverse

end Dict
