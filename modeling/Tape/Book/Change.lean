import Tape.Book.Invariant

/-!
# Following a book from the outside

Whoever follows a book, the recorder, the replay or a client of the hub, knows
it or does not know it. `Book.live` is that reading of a book: its depth while
it is fresh, and nothing while it is stale. A change is a snapshot or a delta,
and it means two things. `apply` is what it does to the book it was sent for.
`follow` is what it does to a copy: a snapshot the copy can hold replaces it, a
delta that fits is added to a known copy, and anything else loses it.

The two agree wherever the copy survives: a copy that was right before a change
and is known after it is right after it (`follow_apply`).
-/

namespace Tape

/-- What happens to the depth of a market. -/
inductive Change where
  | snapshot (bids asks : List Level)
  | delta (side : Side) (price delta : Int)
  deriving DecidableEq, Repr

namespace Change

/-- The book a change was sent for, after it. -/
def apply : Change → Depth → Depth
  | .snapshot bids asks, _ => Depth.ofLevels bids asks
  | .delta side price x, d => d.add side price x

open Classical in
/-- A copy of the book, after the change. -/
noncomputable def follow : Change → Option Depth → Option Depth
  | .snapshot bids asks, _ =>
      if Book.ValidImage bids asks then some (Depth.ofLevels bids asks) else none
  | .delta _ _ _, none => none
  | .delta side price x, some d =>
      if Book.Fits d side price x then some (d.add side price x) else none

theorem follow_snapshot_of_valid {bids asks : List Level} (h : Book.ValidImage bids asks)
    (o : Option Depth) : (snapshot bids asks).follow o = some (Depth.ofLevels bids asks) :=
  if_pos h

theorem follow_snapshot_of_invalid {bids asks : List Level}
    (h : ¬ Book.ValidImage bids asks) (o : Option Depth) :
    (snapshot bids asks).follow o = none := if_neg h

theorem follow_snapshot_perm {bids bids' asks asks' : List Level} (hb : bids.Perm bids')
    (ha : asks.Perm asks') (o : Option Depth) :
    (snapshot bids asks).follow o = (snapshot bids' asks').follow o := by
  by_cases hv : Book.ValidImage bids asks
  · obtain ⟨hv', hdepth⟩ := hv.perm hb ha
    rw [follow_snapshot_of_valid hv, follow_snapshot_of_valid hv', hdepth]
  · have hv' : ¬ Book.ValidImage bids' asks' := fun h => hv (h.perm hb.symm ha.symm).1
    rw [follow_snapshot_of_invalid hv, follow_snapshot_of_invalid hv']

theorem follow_delta_none (s : Side) (p x : Int) : (delta s p x).follow none = none := rfl

theorem follow_delta_of_fits {d : Depth} {s : Side} {p x : Int} (h : Book.Fits d s p x) :
    (delta s p x).follow (some d) = some (d.add s p x) := if_pos h

theorem follow_delta_of_not_fits {d : Depth} {s : Side} {p x : Int}
    (h : ¬ Book.Fits d s p x) : (delta s p x).follow (some d) = none := if_neg h

/-- A copy that was right and is known stays right. -/
theorem follow_apply {c : Change} {o : Option Depth} {d d' : Depth}
    (hright : ∀ e, o = some e → e = d) (h : c.follow o = some d') : d' = c.apply d := by
  cases c with
  | snapshot bids asks =>
      rw [follow] at h
      split at h
      · exact (Option.some.inj h).symm
      · cases h
  | delta s p x =>
      cases o with
      | none => cases h
      | some e =>
          rw [follow] at h
          split at h
          · rw [← Option.some.inj h, hright e rfl]
            rfl
          · cases h

/-- A copy that knows what another one knows goes on knowing it. -/
theorem follow_mono {c : Change} {o o' : Option Depth} (h : ∀ d, o = some d → o' = some d)
    {d : Depth} (hd : c.follow o = some d) : c.follow o' = some d := by
  cases c with
  | snapshot bids asks => exact hd
  | delta s p x =>
      cases o with
      | none => cases hd
      | some e => rwa [h e rfl]

end Change

namespace Book

/-- What a follower knows of the book. -/
def live (b : Book) : Option Depth := if b.stale then none else some b.depth

@[simp] theorem live_new (t : Ticker) : (new t).live = none := rfl

@[simp] theorem live_markStale (b : Book) : b.markStale.live = none := rfl

theorem live_of_fresh {b : Book} (h : b.stale = false) : b.live = some b.depth := by
  rw [live, h]
  rfl

theorem live_of_stale {b : Book} (h : b.stale = true) : b.live = none := by
  rw [live, h]
  rfl

theorem live_eq_some_iff {b : Book} {d : Depth} :
    b.live = some d ↔ b.stale = false ∧ b.depth = d := by
  rw [live]
  cases b.stale <;> simp

theorem live_eq_none_iff {b : Book} : b.live = none ↔ b.stale = true := by
  rw [live]
  cases b.stale <;> simp

/-- What is known of a market, of some books. -/
def liveOf (books : Dict Ticker Book) (t : Ticker) : Option Depth :=
  (books.get? t).bind live

/-- A snapshot, seen from outside. -/
theorem live_applySnapshot (b : Book) (bids asks : List Level) (ts : Option Int) :
    (b.applySnapshot bids asks ts).1.live = (Change.snapshot bids asks).follow b.live := by
  by_cases hv : ValidImage bids asks
  · obtain ⟨-, hfresh, hdepth, -⟩ := applySnapshot_of_valid b ts hv
    rw [live_of_fresh hfresh, hdepth, Change.follow_snapshot_of_valid hv]
  · rw [applySnapshot_of_invalid b ts hv, live_markStale,
      Change.follow_snapshot_of_invalid hv]

/-- A delta, seen from outside. -/
theorem Inv.live_applyDelta {b : Book} (hi : b.Inv) (s : Side) (p x : Int)
    (ts : Option Int) :
    (b.applyDelta s p x ts).1.live = (Change.delta s p x).follow b.live := by
  cases hf : b.stale with
  | true => rw [applyDelta_of_stale hf, live_of_stale hf, Change.follow_delta_none]
  | false =>
      rw [live_of_fresh hf]
      by_cases hfit : Fits b.depth s p x
      · obtain ⟨b', heq, -, hfresh, hdepth, -⟩ := hi.applyDelta_of_fits hf hfit ts
        rw [heq, Change.follow_delta_of_fits hfit, live_of_fresh hfresh, hdepth]
      · obtain ⟨b', e, heq, -, hstale, -⟩ := hi.applyDelta_of_not_fits hf hfit ts
        rw [heq, Change.follow_delta_of_not_fits hfit, live_of_stale hstale]

end Book

end Tape
