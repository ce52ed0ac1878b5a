import Mathlib

/-!
# The match nearest a place

A sequence is searched for the match nearest some place in two passes: up to
the place for the last match, and after it for the first, but only as far as a
match would be nearer than the one found before. A tie goes to the earlier
match, so a later one at the same distance is not looked for.

The passes are stated by their indices, over any predicate, so that a search
which builds the elements on its way can be compared with them.
-/

namespace Nearest

variable (p : Nat → Bool)

/-- The last match among `n` places from `k` on; `acc` where there is none. -/
def lastFrom (k : Nat) : Nat → Option Nat → Option Nat
  | 0, acc => acc
  | n + 1, acc => lastFrom (k + 1) n (if p k then some k else acc)

/-- The first match among `n` places from `k` on. -/
def firstFrom (k : Nat) : Nat → Option Nat
  | 0 => none
  | n + 1 => if p k then some k else firstFrom (k + 1) n

/-- How far after the place a match would be nearer than the one found up to
it, among `last` places after the first. -/
def reach (place last : Nat) : Option Nat → Nat
  | none => last
  | some i => min last (2 * place - i - 1)

/-- The match nearest `place` among the places `0` to `last`. -/
def search (place last : Nat) : Option Nat :=
  let before := lastFrom p 0 (place + 1) none
  if before = some place then some place
  else
    match firstFrom p (place + 1) (reach place last before - place) with
    | some j => some j
    | none => before

theorem reach_le (place last : Nat) (before : Option Nat) : reach place last before ≤ last := by
  cases before with
  | none => exact le_refl _
  | some i => exact min_le_left _ _

variable {p}

theorem lastFrom_eq_some {k n i : Nat} {acc : Option Nat} :
    lastFrom p k n acc = some i ↔
      (k ≤ i ∧ i < k + n ∧ p i = true ∧ ∀ j, i < j → j < k + n → p j = false) ∨
        (acc = some i ∧ ∀ j, k ≤ j → j < k + n → p j = false) := by
  induction n generalizing k acc with
  | zero =>
      rw [lastFrom]
      constructor
      · exact fun h => .inr ⟨h, fun j hk hj => by omega⟩
      · rintro (⟨hk, hi, -⟩ | ⟨h, -⟩)
        · omega
        · exact h
  | succ n ih =>
      rw [lastFrom, ih]
      have hplaces : k + 1 + n = k + (n + 1) := by omega
      rw [hplaces]
      cases hp : p k with
      | true =>
          rw [if_pos rfl, Option.some.injEq]
          constructor
          · rintro (⟨hk, hrest⟩ | ⟨rfl, hnone⟩)
            · exact .inl ⟨by omega, hrest⟩
            · exact .inl ⟨le_refl _, by omega, hp, fun j hj hlt => hnone j hj hlt⟩
          · rintro (⟨hk, hi, hmatch, hlast⟩ | ⟨-, hnone⟩)
            · rcases eq_or_lt_of_le hk with rfl | hlt
              · exact .inr ⟨rfl, fun j hj hlt => hlast j hj hlt⟩
              · exact .inl ⟨hlt, hi, hmatch, hlast⟩
            · have hfirst := hnone k (le_refl _) (by omega)
              rw [hp] at hfirst
              cases hfirst
      | false =>
          rw [if_neg nofun]
          constructor
          · rintro (⟨hk, hrest⟩ | ⟨hacc, hnone⟩)
            · exact .inl ⟨by omega, hrest⟩
            · refine .inr ⟨hacc, fun j hj hlt => ?_⟩
              rcases eq_or_lt_of_le hj with rfl | hkj
              · exact hp
              · exact hnone j hkj hlt
          · rintro (⟨hk, hi, hmatch, hlast⟩ | ⟨hacc, hnone⟩)
            · rcases eq_or_lt_of_le hk with rfl | hlt
              · rw [hp] at hmatch
                cases hmatch
              · exact .inl ⟨hlt, hi, hmatch, hlast⟩
            · exact .inr ⟨hacc, fun j hj hlt => hnone j (by omega) hlt⟩

theorem lastFrom_eq_none {k n : Nat} :
    lastFrom p k n none = none ↔ ∀ j, k ≤ j → j < k + n → p j = false := by
  rw [Option.eq_none_iff_forall_ne_some]
  constructor
  · intro h
    by_contra hsome
    -- the last of the matches there are
    push Not at hsome
    obtain ⟨j, hk, hj, hmatch⟩ := hsome
    have hbound : ∃ i, k ≤ i ∧ i < k + n ∧ p i = true ∧
        ∀ j, i < j → j < k + n → p j = false := by
      have hmatch' : k ≤ j ∧ p j = true := ⟨hk, by simpa using hmatch⟩
      have hspec := @Nat.findGreatest_spec j (fun i => k ≤ i ∧ p i = true) _ (k + n - 1)
        (by omega) hmatch'
      refine ⟨Nat.findGreatest (fun i => k ≤ i ∧ p i = true) (k + n - 1), hspec.1, ?_, hspec.2,
        fun i hi hlt => ?_⟩
      · have hle := @Nat.findGreatest_le (fun i => k ≤ i ∧ p i = true) _ (k + n - 1)
        omega
      · have hnot := Nat.findGreatest_is_greatest hi (by omega)
        cases hp : p i with
        | true => exact absurd ⟨by omega, hp⟩ hnot
        | false => rfl
    obtain ⟨i, hi⟩ := hbound
    exact h i (lastFrom_eq_some.mpr (.inl hi))
  · intro h i hi
    rcases lastFrom_eq_some.mp hi with ⟨hk, hlt, hmatch, -⟩ | ⟨hnone, -⟩
    · rw [h i hk hlt] at hmatch
      cases hmatch
    · cases hnone

theorem firstFrom_eq_some {k n i : Nat} :
    firstFrom p k n = some i ↔
      k ≤ i ∧ i < k + n ∧ p i = true ∧ ∀ j, k ≤ j → j < i → p j = false := by
  induction n generalizing k with
  | zero =>
      rw [firstFrom]
      exact iff_of_false nofun (by omega)
  | succ n ih =>
      rw [firstFrom]
      cases hp : p k with
      | true =>
          rw [if_pos rfl, Option.some.injEq]
          constructor
          · rintro rfl
            exact ⟨le_refl _, by omega, hp, fun j hj hlt => by omega⟩
          · rintro ⟨hk, -, -, hfirst⟩
            rcases eq_or_lt_of_le hk with rfl | hlt
            · rfl
            · rw [hfirst k (le_refl _) hlt] at hp
              cases hp
      | false =>
          rw [if_neg nofun, ih]
          constructor
          · rintro ⟨hk, hi, hmatch, hfirst⟩
            refine ⟨by omega, by omega, hmatch, fun j hj hlt => ?_⟩
            rcases eq_or_lt_of_le hj with rfl | hkj
            · exact hp
            · exact hfirst j hkj hlt
          · rintro ⟨hk, hi, hmatch, hfirst⟩
            rcases eq_or_lt_of_le hk with rfl | hlt
            · rw [hp] at hmatch
              cases hmatch
            · exact ⟨hlt, by omega, hmatch, fun j hj hji => hfirst j (by omega) hji⟩

theorem firstFrom_eq_none {k n : Nat} :
    firstFrom p k n = none ↔ ∀ j, k ≤ j → j < k + n → p j = false := by
  induction n generalizing k with
  | zero =>
      rw [firstFrom]
      exact iff_of_true rfl fun j hk hj => by omega
  | succ n ih =>
      rw [firstFrom]
      cases hp : p k with
      | true =>
          rw [if_pos rfl]
          refine iff_of_false nofun fun h => ?_
          rw [h k (le_refl _) (by omega)] at hp
          cases hp
      | false =>
          rw [if_neg nofun, ih]
          constructor
          · intro h j hj hlt
            rcases eq_or_lt_of_le hj with rfl | hkj
            · exact hp
            · exact h j hkj (by omega)
          · exact fun h j hj hlt => h j (by omega) (by omega)

/-- `i` is a match, and none is nearer `place`, nor as near and earlier. -/
structure IsNearest (p : Nat → Bool) (place last i : Nat) : Prop where
  le : i ≤ last
  isMatch : p i = true
  nearest : ∀ j ≤ last, p j = true →
    Nat.dist place i < Nat.dist place j ∨ Nat.dist place i = Nat.dist place j ∧ i ≤ j

/-- What the search finds is nearest. -/
theorem search_eq_some {place last i : Nat} (hplace : place ≤ last)
    (h : search p place last = some i) : IsNearest p place last i := by
  rw [search] at h
  split at h
  · next hexact =>
      obtain rfl := Option.some.inj h
      rcases lastFrom_eq_some.mp hexact with ⟨-, -, hmatch, -⟩ | ⟨hnone, -⟩
      · refine ⟨hplace, hmatch, fun j _ _ => ?_⟩
        rw [Nat.dist_self]
        rcases Nat.eq_zero_or_pos (Nat.dist place j) with hzero | hpos
        · exact .inr ⟨hzero.symm, (Nat.eq_of_dist_eq_zero hzero).le⟩
        · exact .inl hpos
      · cases hnone
  · next hexact =>
      have hdist : ∀ j, Nat.dist place j = (place - j) + (j - place) := fun j => rfl
      split at h
      · next k hafter =>
          obtain rfl := Option.some.inj h
          obtain ⟨hk, hlt, hmatch, hfirst⟩ := firstFrom_eq_some.mp hafter
          cases hbefore : lastFrom p 0 (place + 1) none with
          | none =>
              rw [hbefore, reach] at hlt
              have hnone := lastFrom_eq_none.mp hbefore
              refine ⟨by omega, hmatch, fun j hj hpj => ?_⟩
              have hjk : k ≤ j := by
                by_contra hlow
                by_cases hjp : j ≤ place
                · rw [hnone j (Nat.zero_le _) (by omega)] at hpj
                  cases hpj
                · rw [hfirst j (by omega) (by omega)] at hpj
                  cases hpj
              rw [hdist, hdist]
              omega
          | some m =>
              rw [hbefore, reach] at hlt
              rcases lastFrom_eq_some.mp hbefore with ⟨-, hm, -, hlast⟩ | ⟨hnone, -⟩
              · refine ⟨by omega, hmatch, fun j hj hpj => ?_⟩
                have hwhere : j ≤ m ∨ k ≤ j := by
                  by_contra hbetween
                  by_cases hjp : j ≤ place
                  · rw [hlast j (by omega) (by omega)] at hpj
                    cases hpj
                  · rw [hfirst j (by omega) (by omega)] at hpj
                    cases hpj
                rw [hdist, hdist]
                omega
              · cases hnone
      · next hafter =>
          rcases lastFrom_eq_some.mp h with ⟨-, hi, hmatch, hlast⟩ | ⟨hnone, -⟩
          · refine ⟨by omega, hmatch, fun j hj hpj => ?_⟩
            have hne : i ≠ place := fun heq => hexact (by rw [h, heq])
            rw [h, reach] at hafter
            have hnone := firstFrom_eq_none.mp hafter
            have hwhere : j ≤ i ∨ 2 * place - i - 1 < j := by
              by_contra hbetween
              by_cases hjp : j ≤ place
              · rw [hlast j (by omega) (by omega)] at hpj
                cases hpj
              · rw [hnone j (by omega) (by omega)] at hpj
                cases hpj
            rw [hdist, hdist]
            omega
          · cases hnone

/-- The search finds the place itself if it matches, and only then. -/
theorem search_eq_place_iff {place last : Nat} (hplace : place ≤ last) :
    search p place last = some place ↔ p place = true := by
  constructor
  · exact fun h => (search_eq_some hplace h).isMatch
  · intro h
    have hexact : lastFrom p 0 (place + 1) none = some place :=
      lastFrom_eq_some.mpr (.inl ⟨Nat.zero_le _, by omega, h, fun j hj hlt => by omega⟩)
    rw [search]
    rw [if_pos hexact]

/-- The search finds nothing if nothing matches, and only then. -/
theorem search_eq_none_iff {place last : Nat} (hplace : place ≤ last) :
    search p place last = none ↔ ∀ j ≤ last, p j = false := by
  rw [search]
  split
  · next hexact =>
      refine iff_of_false nofun fun h => ?_
      rcases lastFrom_eq_some.mp hexact with ⟨-, -, hmatch, -⟩ | ⟨hnone, -⟩
      · rw [h place hplace] at hmatch
        cases hmatch
      · cases hnone
  · split
    · next k hafter =>
        refine iff_of_false nofun fun h => ?_
        obtain ⟨hk, hlt, hmatch, -⟩ := firstFrom_eq_some.mp hafter
        have hle : k ≤ last := by
          cases hbefore : lastFrom p 0 (place + 1) none with
          | none =>
              rw [hbefore, reach] at hlt
              omega
          | some m =>
              rw [hbefore, reach] at hlt
              omega
        rw [h k hle] at hmatch
        cases hmatch
    · next hafter =>
        constructor
        · intro hnone j hj
          rw [hnone, reach] at hafter
          by_cases hjp : j ≤ place
          · exact lastFrom_eq_none.mp hnone j (Nat.zero_le _) (by omega)
          · exact firstFrom_eq_none.mp hafter j (by omega) (by omega)
        · exact fun h => lastFrom_eq_none.mpr fun j _ hj => h j (by omega)

end Nearest
