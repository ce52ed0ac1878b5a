import Tape.Recorder.PlanDiff
import Tape.Rotation
import Tape.Run

/-!
# Which books an audit round samples

`round_robin_choice` of the auditor. The distinct tickers in order are a
circle, and a call takes the next arc of it, at most one turn long, from where
the cursor stands. The calls of a run are then one arc in pieces, whatever
their counts, and however each of them lists the tickers.
-/

namespace Tape

/-- The next markets from the cursor on, and where the cursor goes. -/
def roundRobinChoice (tickers : List Ticker) (count cursor : Int) :
    Except String (List Ticker × Int) :=
  if count < 0 then .error s!"count must be non-negative, got {count}"
  else
    let unique := sortedTickers tickers.toFinset
    let total := unique.length
    if h : total = 0 then .ok ([], 0)
    else
      let take := min count.toNat total
      let start := (cursor % total).toNat
      let chosen := Rotation.arc unique (Nat.pos_of_ne_zero h) start take
      .ok (chosen, ((start + take) % total : Nat))

/-- One call, over a set of tickers that may be listed in any order and more
than once. -/
structure AuditCall (set : Finset Ticker) where
  tickers : List Ticker
  count : Int
  same : tickers.toFinset = set

/-- The cursor a run of calls has come to, and all it chose. -/
structure AuditTurns where
  cursor : Int
  chosen : List Ticker

namespace AuditTurns

/-- A call goes on from the cursor; one that raises moves nothing. -/
def call {set : Finset Ticker} (r : AuditTurns) (c : AuditCall set) : AuditTurns :=
  match roundRobinChoice c.tickers c.count r.cursor with
  | .ok (chosen, cursor) => { cursor, chosen := r.chosen ++ chosen }
  | .error _ => r

end AuditTurns

/-- The call returns as many distinct tickers as it was asked for, or all. -/
def ChoosesDistinct (tickers : List Ticker) (count cursor : Int) : Prop :=
  ∃ chosen next, roundRobinChoice tickers count cursor = .ok (chosen, next) ∧
    chosen.length = min count.toNat tickers.toFinset.card ∧ chosen.Nodup ∧
    ∀ t ∈ chosen, t ∈ tickers

theorem roundRobinChoice_of_neg (tickers : List Ticker) {count : Int} (hcount : count < 0)
    (cursor : Int) : roundRobinChoice tickers count cursor =
      .error s!"count must be non-negative, got {count}" :=
  if_pos hcount

theorem roundRobinChoice_of_empty {tickers : List Ticker} (hempty : tickers.toFinset = ∅)
    {count : Int} (hcount : 0 ≤ count) (cursor : Int) :
    roundRobinChoice tickers count cursor = .ok ([], 0) := by
  have hnone : (sortedTickers tickers.toFinset).length = 0 := by
    rw [hempty]
    rfl
  rw [roundRobinChoice, if_neg (by omega)]
  exact dif_pos hnone

/-- A call takes an arc of the circle, and ends where it ends. -/
theorem roundRobinChoice_of_pos {tickers : List Ticker} {set : Finset Ticker}
    (hsame : tickers.toFinset = set) (h : 0 < (sortedTickers set).length) {count : Int}
    (hcount : 0 ≤ count) (cursor : Int) :
    roundRobinChoice tickers count cursor =
      .ok (Rotation.arc (sortedTickers set) h (cursor % (sortedTickers set).length).toNat
          (min count.toNat (sortedTickers set).length),
        (((cursor % (sortedTickers set).length).toNat +
          min count.toNat (sortedTickers set).length) % (sortedTickers set).length : Nat)) := by
  subst hsame
  rw [roundRobinChoice, if_neg (by omega)]
  exact dif_neg (Nat.ne_of_gt h)

example : roundRobinChoice ["C", "A", "B"] 2 2 = .ok (["C", "A"], 1) := by decide

theorem choosesDistinct (tickers : List Ticker) {count : Int} (hcount : 0 ≤ count)
    (cursor : Int) : ChoosesDistinct tickers count cursor := by
  have hlength := length_sortedTickers tickers.toFinset
  by_cases hempty : tickers.toFinset = ∅
  · refine ⟨[], 0, roundRobinChoice_of_empty hempty hcount cursor, ?_, List.nodup_nil, ?_⟩
    · rw [hempty, Finset.card_empty, Nat.min_zero]
      rfl
    · exact fun t ht => absurd ht List.not_mem_nil
  · have hpos : 0 < (sortedTickers tickers.toFinset).length := by
      rw [hlength]
      exact Finset.card_pos.mpr (Finset.nonempty_iff_ne_empty.mpr hempty)
    refine ⟨_, _, roundRobinChoice_of_pos rfl hpos hcount cursor, ?_, ?_, fun t ht => ?_⟩
    · rw [Rotation.length_arc, hlength]
    · exact Rotation.nodup_arc (nodup_sortedTickers _) _ (Nat.min_le_right _ _)
    · exact List.mem_toFinset.mp (mem_sortedTickers.mp (Rotation.mem_of_mem_arc ht))

/-! ## Runs of calls -/

namespace AuditTurns

variable {set : Finset Ticker}

/-- All that was chosen is one arc from where the run began, and the cursor
stands where it ends. -/
def Turned (h : 0 < (sortedTickers set).length) (start : Nat) (r : AuditTurns) : Prop :=
  ∃ taken, r.chosen = Rotation.arc (sortedTickers set) h start taken ∧
    r.cursor % (sortedTickers set).length = ((start + taken) % (sortedTickers set).length : Nat)

theorem turned_call {h : 0 < (sortedTickers set).length} {start : Nat} {r : AuditTurns}
    (hr : r.Turned h start) (c : AuditCall set) : (r.call c).Turned h start := by
  by_cases hcount : c.count < 0
  · rw [call, roundRobinChoice_of_neg _ hcount]
    exact hr
  · obtain ⟨taken, hchosen, hcursor⟩ := hr
    rw [call, roundRobinChoice_of_pos c.same h (not_lt.mp hcount), hcursor, Int.toNat_natCast]
    refine ⟨taken + min c.count.toNat (sortedTickers set).length, ?_, ?_⟩
    · rw [Rotation.arc_add, ← hchosen, ← Rotation.arc_mod (start + taken)]
    · show ((_ : Nat) : Int) % ((sortedTickers set).length : Int) = _
      rw [← Int.natCast_mod, Nat.mod_mod, Nat.mod_add_mod, Nat.add_assoc]

/-- No two tickers were chosen numbers of times that differ by more than one. -/
def Even (set : Finset Ticker) (r : AuditTurns) : Prop :=
  ∀ t ∈ set, ∀ u ∈ set, r.chosen.count t ≤ r.chosen.count u + 1

theorem Turned.even {h : 0 < (sortedTickers set).length} {start : Nat} {r : AuditTurns}
    (hr : r.Turned h start) : r.Even set := by
  obtain ⟨taken, hchosen, -⟩ := hr
  intro t ht u hu
  rw [hchosen]
  exact Rotation.count_arc_le (nodup_sortedTickers set) start taken (mem_sortedTickers.mpr ht)
    (mem_sortedTickers.mpr hu)

/-- A call with no negative count returns that many distinct tickers, or all; a
negative count raises. After each call of a run all tickers were chosen the
same number of times, or some once more. -/
theorem rotation_fair (set : Finset Ticker) (cursor : Int) (calls : List (AuditCall set)) :
    Run.Along call (fun r c => if c.count < 0 then
        ∃ text, roundRobinChoice c.tickers c.count r.cursor = .error text
      else ChoosesDistinct c.tickers c.count r.cursor) ⟨cursor, []⟩ calls ∧
    Run.Throughout call (Even set) ⟨cursor, []⟩ calls := by
  constructor
  · refine (Run.along_true _ _).mono fun r c _ => ?_
    split
    · next hneg => exact ⟨_, roundRobinChoice_of_neg _ hneg _⟩
    · next hcount => exact choosesDistinct _ (not_lt.mp hcount) _
  · by_cases hempty : set = ∅
    · subst hempty
      have hnone : ∀ r : AuditTurns, r.Even ∅ := fun r t ht => absurd ht (Finset.notMem_empty t)
      exact Run.throughout_of_step (fun r c _ _ => hnone _) (hnone _) (Run.along_true _ _)
    · have h : 0 < (sortedTickers set).length := by
        rw [length_sortedTickers]
        exact Finset.card_pos.mpr (Finset.nonempty_iff_ne_empty.mpr hempty)
      have hpos : ((sortedTickers set).length : Int) ≠ 0 := by omega
      have hstart : Turned h (cursor % (sortedTickers set).length).toNat ⟨cursor, []⟩ := by
        refine ⟨0, rfl, ?_⟩
        rw [Nat.add_zero, Int.natCast_mod, Int.toNat_of_nonneg (Int.emod_nonneg _ hpos),
          Int.emod_emod]
      have hturned : Run.Throughout call (Turned h (cursor % (sortedTickers set).length).toNat)
          ⟨cursor, []⟩ calls :=
        Run.throughout_of_step (fun r c hr _ => turned_call hr c) hstart (Run.along_true _ _)
      exact hturned.mono fun r hr => hr.even

/-- Asked for minus one ticker, a call raises. -/
theorem negative_count_raises : ¬ ChoosesDistinct ["A", "B"] (-1) 0 := by
  rintro ⟨chosen, next, heq, -⟩
  rw [roundRobinChoice_of_neg _ (by decide)] at heq
  cases heq

end AuditTurns

end Tape
