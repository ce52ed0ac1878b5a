import Mathlib

/-!
# Runs of a state machine, and what holds all along them

A machine is a step function, and a run is the list of its events. Two
judgments are made about a run. `Throughout P` says that the property `P`
holds in every state the run passes through, the first and the last included.
`Along C` says that every event is met in a state that satisfies the condition
`C`, which may speak about the event and the state before it but not about
what the step makes of them.

The induction over runs is done here, once. `throughout_of_step` is the
invariant rule. `throughout_iff_along` is the rule for a property that a step
keeps on some inputs only: if, from a good state, the step leads to a good
state exactly when the condition holds, then the whole run is good exactly
when the condition holds along it. Both rules take a domain of events `L` and
an auxiliary invariant `I`, since what is proved about a step usually leans on
facts that hold on every run, good or bad. Two orders of the same events are
compared by `final_related`.
-/

namespace Run

variable {σ ε : Type*} (step : σ → ε → σ)

/-- Where a run ends. -/
def final (s : σ) (es : List ε) : σ := es.foldl step s

/-- `P` holds in every state of the run. -/
def Throughout (P : σ → Prop) : σ → List ε → Prop
  | s, [] => P s
  | s, e :: es => P s ∧ Throughout P (step s e) es

/-- Every event of the run is met in a state that satisfies `C`. -/
def Along (C : σ → ε → Prop) : σ → List ε → Prop
  | _, [] => True
  | s, e :: es => C s e ∧ Along C (step s e) es

variable {step}
variable {P I : σ → Prop} {C L : σ → ε → Prop} {s : σ} {es : List ε}

@[simp] theorem final_nil (s : σ) : final step s [] = s := rfl

@[simp] theorem final_cons (s : σ) (e : ε) (es : List ε) :
    final step s (e :: es) = final step (step s e) es := rfl

theorem final_append (s : σ) (es fs : List ε) :
    final step s (es ++ fs) = final step (final step s es) fs :=
  List.foldl_append

theorem Throughout.head (h : Throughout step P s es) : P s := by
  cases es with
  | nil => exact h
  | cons e es => exact h.1

theorem Throughout.last (h : Throughout step P s es) : P (final step s es) := by
  induction es generalizing s with
  | nil => exact h
  | cons e es ih => exact ih h.2

theorem Throughout.mono {Q : σ → Prop} (himp : ∀ s, P s → Q s)
    (h : Throughout step P s es) : Throughout step Q s es := by
  induction es generalizing s with
  | nil => exact himp s h
  | cons e es ih => exact ⟨himp s h.1, ih h.2⟩

/-- `Throughout`, read as a statement about every prefix. -/
theorem throughout_iff_prefix :
    Throughout step P s es ↔ ∀ pre, pre <+: es → P (final step s pre) := by
  induction es generalizing s with
  | nil =>
      constructor
      · rintro h pre hpre
        rw [List.prefix_nil.mp hpre]
        exact h
      · exact fun h => h [] List.nil_prefix
  | cons e es ih =>
      rw [Throughout, ih]
      constructor
      · rintro ⟨h₀, h⟩ pre hpre
        cases pre with
        | nil => exact h₀
        | cons e' pre =>
            obtain ⟨rfl, htail⟩ := List.cons_prefix_cons.mp hpre
            exact h pre htail
      · exact fun h => ⟨h [] List.nil_prefix,
          fun pre hpre => h (e :: pre) (List.cons_prefix_cons.mpr ⟨rfl, hpre⟩)⟩

theorem Along.mono {D : σ → ε → Prop} (himp : ∀ s e, C s e → D s e)
    (h : Along step C s es) : Along step D s es := by
  induction es generalizing s with
  | nil => trivial
  | cons e es ih => exact ⟨himp s e h.1, ih h.2⟩

theorem Along.and {D : σ → ε → Prop} (h : Along step C s es) (h' : Along step D s es) :
    Along step (fun s e => C s e ∧ D s e) s es := by
  induction es generalizing s with
  | nil => trivial
  | cons e es ih => exact ⟨⟨h.1, h'.1⟩, ih h.2 h'.2⟩

theorem along_true (s : σ) (es : List ε) : Along step (fun _ _ => True) s es := by
  induction es generalizing s with
  | nil => trivial
  | cons e es ih => exact ⟨trivial, ih (step s e)⟩

theorem along_append {fs : List ε} :
    Along step C s (es ++ fs) ↔ Along step C s es ∧ Along step C (final step s es) fs := by
  induction es generalizing s with
  | nil => simp [Along]
  | cons e es ih => rw [List.cons_append, Along, Along, ih, final_cons, and_assoc]

/-- What holds of every event of the run. -/
theorem along_of_forall {D : ε → Prop} (h : ∀ e ∈ es, D e) (s : σ) :
    Along step (fun _ e => D e) s es := by
  induction es generalizing s with
  | nil => trivial
  | cons e es ih =>
      exact ⟨h e List.mem_cons_self, ih (fun f hf => h f (List.mem_cons_of_mem _ hf)) (step s e)⟩

/-- What holds throughout a run holds after each of its events. -/
theorem Throughout.along (h : Throughout step P s es) :
    Along step (fun s e => P (step s e)) s es := by
  induction es generalizing s with
  | nil => trivial
  | cons e es ih => exact ⟨h.2.head, ih h.2⟩

instance decidableAlong [∀ s e, Decidable (C s e)] :
    ∀ (s : σ) (es : List ε), Decidable (Along step C s es)
  | _, [] => isTrue trivial
  | s, e :: es => @instDecidableAnd _ _ _ (decidableAlong (step s e) es)

/-- The invariant rule: what every step keeps, the whole run keeps. -/
theorem throughout_of_step (hstep : ∀ s e, I s → L s e → I (step s e))
    (hs : I s) (hL : Along step L s es) : Throughout step I s es := by
  induction es generalizing s with
  | nil => exact hs
  | cons e es ih => exact ⟨hs, ih (hstep s e hs hL.1) hL.2⟩

/-- What holds of every event met in a good state holds all along the run. -/
theorem along_of_step (hstep : ∀ s e, I s → L s e → I (step s e))
    (hC : ∀ s e, I s → L s e → C s e) (hs : I s) (hL : Along step L s es) :
    Along step C s es := by
  induction es generalizing s with
  | nil => trivial
  | cons e es ih => exact ⟨hC s e hs hL.1, ih (hstep s e hs hL.1) hL.2⟩

/-- The exactness rule: if a step from a good state ends in a good state
exactly on the events that meet the condition, a run from a good state is good
throughout exactly when the condition is met all along it. -/
theorem throughout_iff_along (hinv : ∀ s e, I s → L s e → I (step s e))
    (hstep : ∀ s e, I s → P s → L s e → (P (step s e) ↔ C s e))
    (hI : I s) (hP : P s) (hL : Along step L s es) :
    Throughout step P s es ↔ Along step C s es := by
  induction es generalizing s with
  | nil => exact iff_of_true hP trivial
  | cons e es ih =>
      have hI' := hinv s e hI hL.1
      have hiff := hstep s e hI hP hL.1
      constructor
      · intro h
        exact ⟨hiff.mp h.2.head, (ih hI' h.2.head hL.2).mp h.2⟩
      · intro h
        have hP' := hiff.mpr h.1
        exact ⟨hP, (ih hI' hP' hL.2).mpr h.2⟩

/-! ## What a run passes through -/

/-- The states of a run, the first and the last included. -/
def states (step : σ → ε → σ) : σ → List ε → List σ
  | s, [] => [s]
  | s, e :: es => s :: states step (step s e) es

theorem states_concat (s : σ) (es : List ε) (e : ε) :
    states step s (es ++ [e]) = states step s es ++ [step (final step s es) e] := by
  induction es generalizing s with
  | nil => rfl
  | cons f es ih => rw [List.cons_append, states, ih, states, List.cons_append, final_cons]

/-- `Lasting phases moments`: the phases in order, each for one moment or
more. -/
inductive Lasting {α : Type*} : List α → List α → Prop where
  | start (a : α) : Lasting [a] [a]
  | stay {phases moments : List α} {a : α} (h : Lasting (phases ++ [a]) moments) :
      Lasting (phases ++ [a]) (moments ++ [a])
  | next {phases moments : List α} (a : α) (h : Lasting phases moments) :
      Lasting (phases ++ [a]) (moments ++ [a])

/-- What is met at some moment is one of the phases, and the other way round. -/
theorem Lasting.mem_iff {α : Type*} {phases moments : List α} (h : Lasting phases moments)
    (a : α) : a ∈ moments ↔ a ∈ phases := by
  induction h with
  | start b => exact Iff.rfl
  | stay _ ih => simp [ih]
  | next b _ ih => simp [ih]

/-! ## Runs in another order -/

section Reordered

variable {R : σ → σ → Prop}

/-- The event moved in front of those it may be swapped with. -/
theorem final_moved (hrefl : ∀ s, R s s) (htrans : ∀ s t u, R s t → R t u → R s u)
    (hcongr : ∀ s t e, R s t → R (step s e) (step t e)) {e : ε} {es : List ε}
    (hswap : ∀ f ∈ es, ∀ s, R (step (step s f) e) (step (step s e) f)) (fs : List ε) (s : σ) :
    R (final step s (es ++ e :: fs)) (final step s (e :: (es ++ fs))) := by
  have hfinal : ∀ l s t, R s t → R (final step s l) (final step t l) := by
    intro l
    induction l with
    | nil => exact fun s t h => h
    | cons f l ih => exact fun s t h => ih _ _ (hcongr s t f h)
  induction es generalizing s with
  | nil => exact hrefl _
  | cons f es ih =>
      obtain ⟨hf, hes⟩ := List.forall_mem_cons.mp hswap
      refine htrans _ _ _ (ih hes (step s f)) ?_
      rw [final_cons, final_cons, List.cons_append, final_cons]
      exact hfinal _ _ _ (hf s)

/-- Two orders of the same events end alike, if two events may be swapped
wherever either may come first. -/
theorem final_related (hrefl : ∀ s, R s s) (htrans : ∀ s t u, R s t → R t u → R s u)
    (hcongr : ∀ s t e, R s t → R (step s e) (step t e)) {T : ε → ε → Prop} {es fs : List ε}
    (hswap : ∀ e ∈ es, ∀ f ∈ es, T e f → T f e →
      ∀ s, R (step (step s f) e) (step (step s e) f))
    (hes : es.Pairwise T) (hfs : fs.Pairwise T) (hperm : es.Perm fs) (s : σ) :
    R (final step s fs) (final step s es) := by
  induction es generalizing fs s with
  | nil =>
      rw [hperm.nil_eq]
      exact hrefl _
  | cons e es ih =>
      obtain ⟨hfirst, hes⟩ := List.pairwise_cons.mp hes
      obtain ⟨before, after, rfl⟩ := List.append_of_mem (hperm.mem_iff.mp List.mem_cons_self)
      have hrest : es.Perm (before ++ after) :=
        (hperm.trans List.perm_middle).cons_inv
      obtain ⟨hbefore, hafter, hcross⟩ := List.pairwise_append.mp hfs
      refine htrans _ _ _ (final_moved hrefl htrans hcongr (fun f hf => ?_) after s) ?_
      · have hmem : f ∈ es := hrest.mem_iff.mpr (List.mem_append_left _ hf)
        exact hswap e List.mem_cons_self f (List.mem_cons_of_mem _ hmem) (hfirst f hmem)
          (hcross f hf e List.mem_cons_self)
      · refine ih (fun e' he' f hf => hswap e' (List.mem_cons_of_mem _ he') f
          (List.mem_cons_of_mem _ hf)) hes ?_ hrest _
        refine List.pairwise_append.mpr ⟨hbefore, (List.pairwise_cons.mp hafter).2, ?_⟩
        exact fun a ha b hb => hcross a ha b (List.mem_cons_of_mem _ hb)

end Reordered

end Run
