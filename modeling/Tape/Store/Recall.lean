import Tape.Book.Change

/-!
# Two ways of losing a book to a gap

Between a keyframe and now a market goes through gaps of its subscription and
changes of its own. The recorder knows which markets a subscription carries, so
a gap makes the market unknown (`follow`). A replay learns it from the changes
it has seen since the keyframe, so a gap before the first of them makes no
difference to it (`recollect`).

The two end with the same knowledge unless the market was known at the
keyframe, then met gaps before anything else, and from then on has had nothing
but deltas that fit what the replay still holds (`recollect_eq_follow_iff`). Any
other history repairs the difference.
-/

namespace Tape

/-- What happens to a market. -/
inductive MarketStep where
  | gap
  | change (c : Change)
  deriving DecidableEq

/-- A delta, as a step. -/
def MarketStep.ofDelta (x : Side × Int × Int) : MarketStep :=
  .change (.delta x.1 x.2.1 x.2.2)

open MarketStep (ofDelta)

/-- What a follower knows that every gap stales. -/
noncomputable def follow (o : Option Depth) : MarketStep → Option Depth
  | .gap => none
  | .change c => c.follow o

/-- What a follower knows that a gap stales once it has seen a change; and
whether it has. -/
noncomputable def recollect : Option Depth × Bool → MarketStep → Option Depth × Bool
  | (o, seen), .gap => (if seen then none else o, seen)
  | (o, _), .change c => (c.follow o, true)

/-- Deltas that fit one after the other. -/
def FitAll : Depth → List (Side × Int × Int) → Prop
  | _, [] => True
  | d, (s, p, x) :: rest => Book.Fits d s p x ∧ FitAll (d.add s p x) rest

/-- Gaps, and then nothing but deltas that fit. -/
def Unrepaired (d : Depth) (history : List MarketStep) : Prop :=
  ∃ n deltas, history = List.replicate (n + 1) .gap ++ deltas.map ofDelta ∧ FitAll d deltas

/-- Once a change is seen, equal knowledge stays equal. -/
theorem recollect_seen (o : Option Depth) (history : List MarketStep) :
    (history.foldl recollect (o, true)).1 = history.foldl follow o := by
  induction history generalizing o with
  | nil => rfl
  | cons step history ih =>
      cases step with
      | gap => exact ih none
      | change c => exact ih (c.follow o)

/-- So does the knowledge of nothing. -/
theorem recollect_unknown (history : List MarketStep) :
    (history.foldl recollect (none, false)).1 = history.foldl follow none := by
  induction history with
  | nil => rfl
  | cons step history ih =>
      cases step with
      | gap => exact ih
      | change c => exact recollect_seen (c.follow none) history

theorem not_deltas_cons_gap {history : List MarketStep} {deltas : List (Side × Int × Int)} :
    ¬ MarketStep.gap :: history = deltas.map ofDelta := by
  intro h
  cases deltas with
  | nil => cases h
  | cons x deltas => cases (List.cons.inj h).1

theorem not_deltas_cons_snapshot {history : List MarketStep} {bids asks : List Level}
    {deltas : List (Side × Int × Int)} :
    ¬ MarketStep.change (.snapshot bids asks) :: history = deltas.map ofDelta := by
  intro h
  cases deltas with
  | nil => cases h
  | cons x deltas => cases (List.cons.inj h).1

/-- A change is where a book that is held and one that is lost meet again,
unless it is a delta that fits and nothing else follows. -/
theorem recollect_diverged_iff (d : Depth) (history : List MarketStep) :
    (history.foldl recollect (some d, true)).1 = history.foldl follow none ↔
      ¬ ∃ deltas, history = deltas.map ofDelta ∧ FitAll d deltas := by
  induction history generalizing d with
  | nil => exact iff_of_false (by simp) (fun h => h ⟨[], rfl, trivial⟩)
  | cons step history ih =>
      cases step with
      | gap =>
          refine iff_of_true (recollect_seen none history) ?_
          rintro ⟨deltas, h, -⟩
          exact not_deltas_cons_gap h
      | change c =>
          cases c with
          | snapshot bids asks =>
              refine iff_of_true (recollect_seen ((Change.snapshot bids asks).follow none) history)
                ?_
              rintro ⟨deltas, h, -⟩
              exact not_deltas_cons_snapshot h
          | delta s p x =>
              simp only [List.foldl_cons, recollect, follow, Change.follow_delta_none]
              by_cases hfit : Book.Fits d s p x
              · rw [Change.follow_delta_of_fits hfit, ih, not_iff_not]
                constructor
                · rintro ⟨deltas, rfl, hall⟩
                  exact ⟨(s, p, x) :: deltas, rfl, hfit, hall⟩
                · rintro ⟨deltas, h, hall⟩
                  cases deltas with
                  | nil => cases h
                  | cons y deltas =>
                      obtain ⟨hy, htail⟩ := List.cons.inj h
                      injection hy with hy
                      injection hy with h₁ h₂ h₃
                      subst h₁ h₂ h₃
                      exact ⟨deltas, htail, hall.2⟩
              · rw [Change.follow_delta_of_not_fits hfit]
                refine iff_of_true (recollect_seen none history) ?_
                rintro ⟨deltas, h, hall⟩
                cases deltas with
                | nil => cases h
                | cons y deltas =>
                    obtain ⟨hy, -⟩ := List.cons.inj h
                    injection hy with hy
                    injection hy with h₁ h₂ h₃
                    subst h₁ h₂ h₃
                    exact hfit hall.1

/-- After a gap that the replay does not notice. -/
theorem recollect_unnoticed_iff (d : Depth) (history : List MarketStep) :
    (history.foldl recollect (some d, false)).1 = history.foldl follow none ↔
      ¬ ∃ n deltas, history = List.replicate n .gap ++ deltas.map ofDelta ∧ FitAll d deltas := by
  induction history with
  | nil => exact iff_of_false (by simp) (fun h => h ⟨0, [], rfl, trivial⟩)
  | cons step history ih =>
      cases step with
      | gap =>
          refine ih.trans (not_congr ⟨?_, ?_⟩)
          · rintro ⟨n, deltas, rfl, hall⟩
            exact ⟨n + 1, deltas, rfl, hall⟩
          · rintro ⟨n, deltas, h, hall⟩
            cases n with
            | zero => exact absurd h not_deltas_cons_gap
            | succ n => exact ⟨n, deltas, (List.cons.inj h).2, hall⟩
      | change c =>
          refine (recollect_diverged_iff d (.change c :: history)).trans (not_congr ⟨?_, ?_⟩)
          · rintro ⟨deltas, h, hall⟩
            exact ⟨0, deltas, h, hall⟩
          · rintro ⟨n, deltas, h, hall⟩
            cases n with
            | zero => exact ⟨deltas, h, hall⟩
            | succ n => cases (List.cons.inj h).1

/-- The two followers agree unless the difference a gap made is never
repaired. -/
theorem recollect_eq_follow_iff (o : Option Depth) (history : List MarketStep) :
    (history.foldl recollect (o, false)).1 = history.foldl follow o ↔
      ∀ d, o = some d → ¬ Unrepaired d history := by
  cases o with
  | none => exact iff_of_true (recollect_unknown history) (fun _ h => by cases h)
  | some d =>
      simp only [Option.some.injEq, forall_eq']
      cases history with
      | nil =>
          refine iff_of_true rfl ?_
          rintro ⟨n, deltas, h, -⟩
          cases h
      | cons step history =>
          cases step with
          | gap =>
              refine (recollect_unnoticed_iff d history).trans (not_congr ⟨?_, ?_⟩)
              · rintro ⟨n, deltas, rfl, hall⟩
                exact ⟨n, deltas, rfl, hall⟩
              · rintro ⟨n, deltas, h, hall⟩
                exact ⟨n, deltas, (List.cons.inj h).2, hall⟩
          | change c =>
              refine iff_of_true (recollect_seen (c.follow (some d)) history) ?_
              rintro ⟨n, deltas, h, -⟩
              cases (List.cons.inj h).1

end Tape
