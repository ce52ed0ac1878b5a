import Tape.Book.Diff
import Tape.Book.Event

/-!
# Where the prices and the time of a book come from

A book has no price and no time that no event brought it. Its levels are in
their order, best first, each price once.
-/

namespace Tape.Book

variable {P T : Int → Prop} {b : Book}

/-- A book all of whose prices are such, and so is its time. -/
structure Within (P T : Int → Prop) (b : Book) : Prop where
  prices : ∀ s, ∀ p ∈ (b.side s).keys, P p
  time : ∀ ms ∈ b.lastTsMs, T ms

theorem within_new (P T : Int → Prop) (ticker : Ticker) : (new ticker).Within P T where
  prices s p hp := by
    cases s with
    | bid => cases hp
    | ask => cases hp
  time _ h := by cases h

theorem Within.markStale (hw : b.Within P T) : b.markStale.Within P T where
  prices s p hp := hw.prices s p (by rwa [markStale_side] at hp)
  time := hw.time

/-! ## Snapshots -/

theorem keys_of_entries {d : Dict Int Int} {l : List Level}
    (h : d.entries = l.map Level.entry) : d.keys = l.map Level.price := by
  rw [Dict.keys, h, map_entry_fst]

theorem Within.applySnapshot (hw : b.Within P T) {bids asks : List Level} {ts : Option Int}
    (hbids : ∀ l ∈ bids, P l.price) (hasks : ∀ l ∈ asks, P l.price) (hts : ∀ ms ∈ ts, T ms) :
    (b.applySnapshot bids asks ts).1.Within P T := by
  rcases b.applySnapshot_cases bids asks ts with
    ⟨b', heq, -, -, -, htime, hb, ha, -, -⟩ | ⟨e, heq⟩
  · rw [heq]
    constructor
    · intro s p hp
      cases s with
      | bid =>
          have hkey : p ∈ b'.bids.keys := hp
          rw [keys_of_entries hb] at hkey
          obtain ⟨l, hl, rfl⟩ := List.mem_map.mp hkey
          exact hbids l hl
      | ask =>
          have hkey : p ∈ b'.asks.keys := hp
          rw [keys_of_entries ha] at hkey
          obtain ⟨l, hl, rfl⟩ := List.mem_map.mp hkey
          exact hasks l hl
    · rw [htime]
      exact hts
  · rw [heq]
    exact hw.markStale

/-! ## Deltas -/

@[simp] theorem setSide_lastTsMs (b : Book) (s : Side) (levels : Dict Int Int) :
    (b.setSide s levels).lastTsMs = b.lastTsMs := by
  cases s with
  | bid => rfl
  | ask => rfl

theorem writeLevel_lastTsMs (b : Book) (s : Side) (p u : Int) :
    (b.writeLevel s p u).lastTsMs = b.lastTsMs := by
  rw [writeLevel]
  split
  · rw [dropBestIfRemoved.eq_def]
    split
    · split <;> exact setSide_lastTsMs b _ _
    · split <;> exact setSide_lastTsMs b _ _
  · rw [raiseBestIfBetter.eq_def]
    split
    · split
      · exact setSide_lastTsMs b _ _
      · split <;> exact setSide_lastTsMs b _ _
    · split
      · exact setSide_lastTsMs b _ _
      · split <;> exact setSide_lastTsMs b _ _

theorem Within.writeLevel (hw : b.Within P T) (s : Side) {p : Int} (hp : P p) (u : Int) :
    (b.writeLevel s p u).Within P T := by
  constructor
  · intro s' q hq
    rw [writeLevel_side] at hq
    split at hq
    · split at hq
      · exact hw.prices s q (Dict.mem_keys_erase.mp hq).1
      · rcases Dict.mem_keys_set.mp hq with rfl | hold
        · exact hp
        · exact hw.prices s q hold
    · exact hw.prices s' q hq
  · rw [writeLevel_lastTsMs]
    exact hw.time

theorem Within.withTs (hw : b.Within P T) {ts : Option Int} (hts : ∀ ms ∈ ts, T ms) :
    (b.withTs ts).Within P T where
  prices s p hp := hw.prices s p (by rwa [withTs_side] at hp)
  time := by
    cases ts with
    | none => exact hw.time
    | some ms => exact hts

theorem Within.applyDelta (hw : b.Within P T) (s : Side) {p : Int} (hp : P p) (delta : Int)
    {ts : Option Int} (hts : ∀ ms ∈ ts, T ms) : (b.applyDelta s p delta ts).1.Within P T := by
  rcases b.applyDelta_cases s p delta ts with
    ⟨-, heq⟩ | ⟨-, -, e, heq⟩ | ⟨-, -, ⟨e, heq⟩, -⟩ | ⟨-, -, heq, -⟩
  · rw [heq]
    exact hw
  · rw [heq]
    exact hw.markStale
  · rw [heq]
    exact (hw.writeLevel s hp _).markStale
  · rw [heq]
    exact (hw.writeLevel s hp _).withTs hts

/-! ## Levels -/

/-- `b` may stand after `a` on a side, best first. -/
def Precedes (s : Side) (a b : Int) : Prop :=
  match s with
  | .bid => b < a
  | .ask => a < b

theorem levels_pairwise (b : Book) (s : Side) :
    ((b.levels s).map Level.price).Pairwise (Precedes s) := by
  have hnodup := List.pairwise_map.mp (b.nodup_levels s)
  rw [List.pairwise_map]
  cases s with
  | bid =>
      have hsorted : (b.levels .bid).Pairwise fun x y => pairLe y.entry x.entry := by
        rw [levels, List.pairwise_map]
        have : Std.Total fun x y : Int × Int => pairLe y x := ⟨fun x y => pairLe_total y x⟩
        have : IsTrans (Int × Int) fun x y => pairLe y x := ⟨fun _ _ _ h h' => pairLe_trans h' h⟩
        exact List.pairwise_insertionSort (fun x y => pairLe y x) _
      refine hsorted.imp₂ ?_ hnodup
      intro x y hle hne
      rcases hle with hlt | ⟨heq, -⟩
      · exact hlt
      · exact absurd heq.symm hne
  | ask =>
      have hsorted : (b.levels .ask).Pairwise fun x y => pairLe x.entry y.entry := by
        rw [levels, List.pairwise_map]
        have : Std.Total pairLe := ⟨pairLe_total⟩
        have : IsTrans (Int × Int) pairLe := ⟨fun _ _ _ => pairLe_trans⟩
        exact List.pairwise_insertionSort pairLe _
      refine hsorted.imp₂ ?_ hnodup
      intro x y hle hne
      rcases hle with hlt | ⟨heq, -⟩
      · exact hlt
      · exact absurd heq hne

/-- A level of a book: its price is one of the book's, and its count is not
negative. -/
theorem Within.level (hw : b.Within P T) (hi : b.Inv) {s : Side} {l : Level}
    (hl : l ∈ b.levels s) : P l.price ∧ 0 ≤ l.count := by
  have hentry : l.entry ∈ (b.side s).entries :=
    (b.levels_perm s).mem_iff.mp (List.mem_map_of_mem hl)
  have hget : (b.side s).get? l.price = some l.count := Dict.get?_eq_some_iff.mpr hentry
  have hpositive := hi.positive s l.price l.count hget
  exact ⟨hw.prices s l.price (Dict.mem_keys_of_get? hget), by omega⟩

end Tape.Book
