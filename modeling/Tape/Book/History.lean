import Tape.Book.Keyframe

/-!
# A book is what it was told

Whatever operations a book has been through, with whatever arguments, its
counts are positive and its cached best prices are those of its levels, also
while it is stale. A book that is fresh is its last successful snapshot plus
every delta applied since (`history_of_ops`): `observe` runs the operations and
writes down what returned, and a fresh book has to agree with those notes.
-/

namespace Tape

/-- The last snapshot a book took, and the deltas it has applied since. -/
structure Since where
  bids : List Level
  asks : List Level
  deltas : List (Side × Int × Int)
  deriving DecidableEq

/-- The snapshot plus the deltas. -/
def Since.depth (h : Since) : Depth :=
  h.deltas.foldl (fun d x => d.add x.1 x.2.1 x.2.2) (Depth.ofLevels h.bids h.asks)

/-- One more delta. -/
def Since.add (h : Since) (x : Side × Int × Int) : Since :=
  { h with deltas := h.deltas ++ [x] }

theorem Since.depth_add (h : Since) (s : Side) (p x : Int) :
    (h.add (s, p, x)).depth = h.depth.add s p x := by
  rw [Since.depth, Since.add, List.foldl_append]
  rfl

namespace Book

/-- An operation, and what its return says about the book. -/
def observe (b : Book) (h : Option Since) : BookOp → Book × Option Since
  | .applySnapshot bids asks tsMs =>
      match b.applySnapshot bids asks tsMs with
      | (b', .ok ()) => (b', some ⟨bids, asks, []⟩)
      | (b', .error _) => (b', h)
  | .applyDelta side price delta tsMs =>
      match b.applyDelta side price delta tsMs with
      | (b', .ok true) => (b', h.map fun h => h.add (side, price, delta))
      | (b', .ok false) => (b', h)
      | (b', .error _) => (b', h)
  | .markStale => (b.markStale, h)

/-- What the returns of the operations say, from a new book on. -/
def observed (ticker : Ticker) (ops : List BookOp) : Book × Option Since :=
  Run.final (fun x op => observe x.1 x.2 op) (new ticker, none) ops

theorem observe_fst (b : Book) (h : Option Since) (op : BookOp) :
    (b.observe h op).1 = b.perform op := by
  cases op with
  | applySnapshot bids asks tsMs =>
      rw [observe, perform]
      rcases b.applySnapshot bids asks tsMs with ⟨b', err | ⟨⟩⟩
      · rfl
      · rfl
  | applyDelta side price delta tsMs =>
      rw [observe, perform]
      rcases b.applyDelta side price delta tsMs with ⟨b', err | applied⟩
      · rfl
      · cases applied with
        | true => rfl
        | false => rfl
  | markStale => rfl

theorem observed_fst (ticker : Ticker) (ops : List BookOp) :
    (observed ticker ops).1 = Run.final perform (new ticker) ops := by
  induction ops using List.reverseRecOn with
  | nil => rfl
  | append_singleton ops op ih =>
      rw [observed] at ih ⊢
      rw [Run.final_append, Run.final_append, Run.final_cons, Run.final_cons, Run.final_nil,
        observe_fst, ih]
      rfl

/-- The notes are right about a book that is fresh. -/
def NotesHold (b : Book) (h : Option Since) : Prop :=
  b.stale = false → ∃ notes, h = some notes ∧ b.depth = notes.depth

theorem NotesHold.observe {b : Book} {h : Option Since} (hi : b.Inv) (hn : b.NotesHold h)
    (op : BookOp) : NotesHold (b.observe h op).1 (b.observe h op).2 := by
  cases op with
  | applySnapshot bids asks tsMs =>
      rw [Book.observe]
      rcases applySnapshot_cases b bids asks tsMs with
        ⟨b', heq, -, -, -, -, hb, ha, -, -⟩ | ⟨e, heq⟩
      · rw [heq]
        exact fun _ => ⟨_, rfl, depth_of_entries hb ha⟩
      · rw [heq]
        exact fun hfresh => by cases hfresh
  | applyDelta s p x tsMs =>
      rw [Book.observe]
      cases hstale : b.stale with
      | true =>
          rw [applyDelta_of_stale hstale]
          exact hn
      | false =>
          obtain ⟨notes, rfl, hdepth⟩ := hn hstale
          by_cases hfit : Fits b.depth s p x
          · obtain ⟨b', heq, -, -, hadd, -⟩ := hi.applyDelta_of_fits hstale hfit tsMs
            rw [heq]
            refine fun _ => ⟨notes.add (s, p, x), rfl, ?_⟩
            rw [notes.depth_add, ← hdepth]
            exact hadd
          · obtain ⟨b', e, heq, -, hlost, -⟩ := hi.applyDelta_of_not_fits hstale hfit tsMs
            rw [heq]
            exact fun hfresh => by rw [hlost] at hfresh; cases hfresh
  | markStale => exact fun hfresh => by cases hfresh

theorem notesHold_observed (ticker : Ticker) (ops : List BookOp) :
    (observed ticker ops).1.Inv ∧ NotesHold (observed ticker ops).1 (observed ticker ops).2 := by
  let Good : Book × Option Since → Prop := fun x => x.1.Inv ∧ x.1.NotesHold x.2
  have hrun : Run.Throughout (fun x op => observe x.1 x.2 op) Good (new ticker, none) ops := by
    refine Run.throughout_of_step (L := fun _ _ => True) ?_ ?_ (Run.along_true _ ops)
    · intro x op hgood _
      refine ⟨?_, hgood.2.observe hgood.1 op⟩
      show ((x.1.observe x.2 op).1).Inv
      rw [observe_fst]
      exact hgood.1.perform op
    · exact ⟨inv_new ticker, fun hfresh => by cases hfresh⟩
  exact hrun.last

/-- The representation invariant, after any operations with any arguments. -/
theorem history_of_ops (ticker : Ticker) (ops : List BookOp) :
    (∀ s p c, ((Run.final perform (new ticker) ops).side s).get? p = some c → 0 < c) ∧
      (Run.final perform (new ticker) ops).bestBid =
        (Run.final perform (new ticker) ops).bids.keys.max? ∧
      (Run.final perform (new ticker) ops).bestAsk =
        (Run.final perform (new ticker) ops).asks.keys.min? ∧
      ((Run.final perform (new ticker) ops).stale = false →
        ¬ (Run.final perform (new ticker) ops).Crossed ∧
          ∃ notes, (observed ticker ops).2 = some notes ∧
            ∀ s p, (Run.final perform (new ticker) ops).sizeAt s p = notes.depth s p) ∧
      ((Run.final perform (new ticker) ops).stale = true → ∀ s p x ts,
        (Run.final perform (new ticker) ops).applyDelta s p x ts =
          (Run.final perform (new ticker) ops, .ok false)) ∧
      ∀ bids asks ts e,
        ((Run.final perform (new ticker) ops).applySnapshot bids asks ts).2 = .error e →
        ((Run.final perform (new ticker) ops).applySnapshot bids asks ts).1 =
          (Run.final perform (new ticker) ops).markStale := by
  obtain ⟨hi, hn⟩ := notesHold_observed ticker ops
  rw [observed_fst] at hi hn
  refine ⟨hi.positive, hi.bestBid, hi.bestAsk, fun hfresh => ⟨?_, ?_⟩,
    fun hstale s p x ts => applyDelta_of_stale hstale s p x ts, fun bids asks ts e he => ?_⟩
  · rw [crossed_iff, not_not]
    exact hi.uncrossed hfresh
  · obtain ⟨notes, hnotes, hdepth⟩ := hn hfresh
    exact ⟨notes, hnotes, fun s p => congrFun (congrFun hdepth s) p⟩
  · refine applySnapshot_of_invalid _ ts fun hv => ?_
    rw [(applySnapshot_ok_iff _ ts).mpr hv] at he
    cases he

end Book

end Tape
