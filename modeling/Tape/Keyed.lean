import Mathlib
import Tape.Dict

/-!
# Steps that concern one key

A state is a dictionary, and each step reads and writes the value of one key:
`act` says what it makes of that value, with `none` for a key that is absent
and with no result where the step cannot be taken. Then a run of steps can be
followed key by key, since what it leaves under a key is what the steps of that
key leave, in their order (`run_of_keys`).

`Through P x steps y` says that the steps lead from `x` to `y` and that `P`
holds before the first and after each. `run_of_phases` puts two such paths of
each key together: if at first every key is as `P` asks and later every key is
as `Q` asks, then so is every state of the run, whichever keys' steps come
first within the two phases.
-/

namespace Keyed

variable {κ ν γ : Type*} [DecidableEq κ]

/-- The dictionary with a value in the place of a key's, or with the key taken out. -/
def put (d : Dict κ ν) (k : κ) : Option ν → Dict κ ν
  | none => d.erase k
  | some x => d.set k x

theorem get?_put (d : Dict κ ν) (k k' : κ) (x : Option ν) :
    (put d k x).get? k' = if k = k' then x else d.get? k' := by
  cases x with
  | none => exact Dict.get?_erase d k k'
  | some x => exact Dict.get?_set d k k' x

variable (keyOf : γ → κ) (act : γ → Option ν → Option (Option ν))

/-- A command acts on the value of its key. -/
def step (d : Dict κ ν) (c : γ) : Option (Dict κ ν) :=
  (act c (d.get? (keyOf c))).map (put d (keyOf c))

/-- Some commands, unless one of them is refused. -/
def run : Dict κ ν → List γ → Option (Dict κ ν)
  | d, [] => some d
  | d, c :: cs => (step keyOf act d c).bind fun d' => run d' cs

/-- The steps of one key, on its value. -/
def along : Option ν → List γ → Option (Option ν)
  | x, [] => some x
  | x, c :: cs => (act c x).bind fun y => along y cs

/-- The steps of a key. -/
def ofKey (k : κ) (cs : List γ) : List γ := cs.filter fun c => keyOf c = k

variable {keyOf act}

theorem ofKey_cons_self (c : γ) (cs : List γ) :
    ofKey keyOf (keyOf c) (c :: cs) = c :: ofKey keyOf (keyOf c) cs :=
  List.filter_cons_of_pos (by simp)

theorem ofKey_cons_of_ne {c : γ} {k : κ} (h : keyOf c ≠ k) (cs : List γ) :
    ofKey keyOf k (c :: cs) = ofKey keyOf k cs :=
  List.filter_cons_of_neg (by simpa using h)

theorem ofKey_append (k : κ) (cs cs' : List γ) :
    ofKey keyOf k (cs ++ cs') = ofKey keyOf k cs ++ ofKey keyOf k cs' :=
  List.filter_append ..

theorem ofKey_initial (k : κ) {cs cs' : List γ} (h : cs <+: cs') :
    ofKey keyOf k cs <+: ofKey keyOf k cs' :=
  h.filter _

/-- A run can be taken if each key's steps can, and leaves of each key what its
steps leave. -/
theorem run_of_keys {cs : List γ} {d : Dict κ ν} {fin : κ → Option ν}
    (h : ∀ k, along act (d.get? k) (ofKey keyOf k cs) = some (fin k)) :
    ∃ d', run keyOf act d cs = some d' ∧ ∀ k, d'.get? k = fin k := by
  induction cs generalizing d with
  | nil => exact ⟨d, rfl, fun k => Option.some.inj (h k)⟩
  | cons c cs ih =>
      have hc := h (keyOf c)
      rw [ofKey_cons_self, along] at hc
      obtain ⟨y, hy, hrest⟩ := Option.bind_eq_some_iff.mp hc
      have hstep : step keyOf act d c = some (put d (keyOf c) y) := by
        rw [step, hy, Option.map_some]
      obtain ⟨d', hrun, hget⟩ := ih (d := put d (keyOf c) y) fun k => by
        rw [get?_put]
        by_cases hk : keyOf c = k
        · rw [if_pos hk, ← hk]
          exact hrest
        · rw [if_neg hk, ← ofKey_cons_of_ne hk]
          exact h k
      exact ⟨d', by rw [run, hstep, Option.bind_some, hrun], hget⟩

/-! ## Paths -/

/-- The steps lead from `x` to `y`, through values as `P` asks. -/
def Through (act : γ → Option ν → Option (Option ν)) (P : Option ν → Prop) :
    Option ν → List γ → Option ν → Prop
  | x, [], y => P x ∧ x = y
  | x, c :: cs, y => P x ∧ ∃ z, act c x = some z ∧ Through act P z cs y

variable {P : Option ν → Prop} {x y : Option ν} {cs : List γ}

theorem Through.along_eq (h : Through act P x cs y) : along act x cs = some y := by
  induction cs generalizing x with
  | nil => exact congrArg some h.2
  | cons c cs ih =>
      obtain ⟨-, z, hz, hrest⟩ := h
      rw [along, hz, Option.bind_some]
      exact ih hrest

/-- A path is cut anywhere, and is at a value as asked there. -/
theorem Through.cut_at {pre : List γ} (h : Through act P x cs y) (hpre : pre <+: cs) :
    ∃ z, along act x pre = some z ∧ P z := by
  induction pre generalizing x cs with
  | nil =>
      cases cs with
      | nil => exact ⟨x, rfl, h.1⟩
      | cons c cs => exact ⟨x, rfl, h.1⟩
  | cons c pre ih =>
      obtain ⟨rest, rfl⟩ := hpre
      obtain ⟨-, z, hz, hrest⟩ := h
      obtain ⟨w, hw, hP⟩ := ih hrest ⟨rest, rfl⟩
      refine ⟨w, ?_, hP⟩
      rw [along, hz, Option.bind_some, hw]

theorem along_append (x : Option ν) (cs cs' : List γ) :
    along act x (cs ++ cs') = (along act x cs).bind fun y => along act y cs' := by
  induction cs generalizing x with
  | nil => rfl
  | cons c cs ih =>
      rw [List.cons_append, along, along, Option.bind_assoc]
      exact Option.bind_congr fun y _ => ih y

/-- A first phase through values as `P` asks and a second one through values as
`Q` asks, for each key. -/
theorem run_of_phases {P Q : κ → Option ν → Prop} {d : Dict κ ν} {mid fin : κ → Option ν}
    {first second : List γ}
    (hfirst : ∀ k, Through act (P k) (d.get? k) (ofKey keyOf k first) (mid k))
    (hsecond : ∀ k, Through act (Q k) (mid k) (ofKey keyOf k second) (fin k)) :
    (∃ d', run keyOf act d (first ++ second) = some d' ∧ ∀ k, d'.get? k = fin k) ∧
      ∀ pre, pre <+: first ++ second → ∃ d', run keyOf act d pre = some d' ∧
        ((∀ k, P k (d'.get? k)) ∨ ∀ k, Q k (d'.get? k)) := by
  constructor
  · refine run_of_keys fun k => ?_
    rw [ofKey_append, along_append, (hfirst k).along_eq, Option.bind_some]
    exact (hsecond k).along_eq
  · intro pre hpre
    obtain ⟨rest, heq⟩ := hpre
    rcases List.append_eq_append_iff.mp heq with ⟨left, hleft, -⟩ | ⟨more, rfl, hmore⟩
    · have hin : pre <+: first := ⟨left, hleft.symm⟩
      choose reached hreached hP using fun k => (hfirst k).cut_at (ofKey_initial k hin)
      obtain ⟨d', hrun, hget⟩ := run_of_keys hreached
      refine ⟨d', hrun, .inl fun k => ?_⟩
      rw [hget]
      exact hP k
    · have hin : more <+: second := ⟨rest, hmore.symm⟩
      choose reached hreached hQ using fun k => (hsecond k).cut_at (ofKey_initial k hin)
      have hall : ∀ k, along act (d.get? k) (ofKey keyOf k (first ++ more)) = some (reached k) := by
        intro k
        rw [ofKey_append, along_append, (hfirst k).along_eq, Option.bind_some]
        exact hreached k
      obtain ⟨d', hrun, hget⟩ := run_of_keys hall
      refine ⟨d', hrun, .inr fun k => ?_⟩
      rw [hget]
      exact hQ k

end Keyed
