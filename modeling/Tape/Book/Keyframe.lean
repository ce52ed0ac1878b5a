import Mathlib
import Tape.Run
import Tape.Book.Invariant

/-!
# Keyframes: every book as rows, and the rows as books again

A keyframe writes one row for each level of each book, and one row with side
`-1` for a book that has none. Reading it back groups the rows by ticker and
applies each group as a snapshot.

A snapshot refuses a crossed image, and a book can be crossed: a delta that
crosses it leaves its level in place and marks the book stale, and a keyframe
holds the stale books too. So the trip there and back does not succeed on
every reachable book. `keyframe_round_trip_iff` says exactly when it does. One
crossed book is enough to lose the whole keyframe, since the first group that
is refused ends the reading.
-/

namespace Tape

/-- The side of the one row that stands for a book without levels. -/
def emptySide : Int := -1

/-- A level of a book, with what its book was at the instant it was taken. -/
structure KeyframeRow where
  ticker : Ticker
  side : Int
  priceE4 : Int
  countE2 : Int
  asOfRecvNs : Int
  lastTsMs : Option Int
  stale : Bool
  deriving DecidableEq, Repr

namespace Book

/-- A row of a book. -/
def keyframeRow (b : Book) (asOfRecvNs side price count : Int) : KeyframeRow :=
  { ticker := b.ticker, side, priceE4 := price, countE2 := count, asOfRecvNs,
    lastTsMs := b.lastTsMs, stale := b.stale }

/-- The rows of the levels of one side. -/
def sideRows (b : Book) (asOfRecvNs : Int) (s : Side) : List KeyframeRow :=
  (b.side s).entries.map fun e => b.keyframeRow asOfRecvNs s.toInt e.1 e.2

/-- The rows of a book: its levels, or one row that says it has none. -/
def toKeyframe (b : Book) (asOfRecvNs : Int) : List KeyframeRow :=
  let rows := b.sideRows asOfRecvNs .bid ++ b.sideRows asOfRecvNs .ask
  if rows.isEmpty then [b.keyframeRow asOfRecvNs emptySide 0 0] else rows

end Book

/-- The levels of one side among the rows of a ticker. -/
def rowLevels (rows : List KeyframeRow) (s : Side) : List Level :=
  (rows.filter fun r => r.side = s.toInt).map fun r => ⟨r.priceE4, r.countE2⟩

/-- The body of the loop of `books_from_keyframe_rows`, on the rows of one
ticker. -/
def bookFromRows (ticker : Ticker) (rows : KeyframeRow × List KeyframeRow) :
    Except BookInvariantError Book :=
  let all := rows.1 :: rows.2
  match (Book.new ticker).applySnapshot (rowLevels all .bid) (rowLevels all .ask)
      rows.1.lastTsMs with
  | (_, .error e) => .error e
  | (book, .ok ()) => .ok (if rows.1.stale then book.markStale else book)

/-- The books of the rows, one for each ticker. -/
def booksFromKeyframeRows (rows : List KeyframeRow) :
    Except BookInvariantError (Dict Ticker Book) :=
  (Dict.groupBy KeyframeRow.ticker rows).traverse bookFromRows

/-! ## Reachable books -/

/-- What can be done to a book. -/
inductive BookOp where
  | applySnapshot (bids asks : List Level) (tsMs : Option Int)
  | applyDelta (side : Side) (price delta : Int) (tsMs : Option Int)
  | markStale
  deriving DecidableEq, Repr

namespace Book

/-- The book an operation leaves behind, whether it returned or raised. -/
def perform (b : Book) : BookOp → Book
  | .applySnapshot bids asks tsMs => (b.applySnapshot bids asks tsMs).1
  | .applyDelta side price delta tsMs => (b.applyDelta side price delta tsMs).1
  | .markStale => b.markStale

/-- What some operations make of a new book. -/
def Reachable (b : Book) : Prop :=
  ∃ ops, b = Run.final perform (Book.new b.ticker) ops

theorem Inv.perform {b : Book} (hi : b.Inv) (op : BookOp) : (b.perform op).Inv := by
  cases op with
  | applySnapshot bids asks ts => exact hi.applySnapshot bids asks ts
  | applyDelta s p delta ts => exact hi.applyDelta s p delta ts
  | markStale => exact hi.markStale

theorem Reachable.inv {b : Book} (h : b.Reachable) : b.Inv := by
  obtain ⟨ops, hb⟩ := h
  rw [hb]
  have hrun : Run.Throughout perform Inv (new b.ticker) ops :=
    Run.throughout_of_step (L := fun _ _ => True) (fun _ op hi _ => hi.perform op)
      (inv_new b.ticker) (Run.along_true _ ops)
  exact hrun.last

/-- The best bid is at or above the best ask. -/
def Crossed (b : Book) : Prop :=
  ∃ bid ask, b.bestBid = some bid ∧ b.bestAsk = some ask ∧ ask ≤ bid

theorem crossed_iff {b : Book} : b.Crossed ↔ crossing b.bestBid b.bestAsk ≠ none := by
  rw [Ne, crossing_eq_none_iff, Crossed]
  push Not
  rfl

theorem Inv.not_crossed_iff {b : Book} (hi : b.Inv) : ¬ b.Crossed ↔ b.depth.Uncrossed := by
  rw [crossed_iff, not_not, hi.crossing_iff]

/-! ## What two books with the same depth have in common -/

/-- Equal in everything a keyframe keeps. -/
structure SameContents (a b : Book) : Prop where
  ticker : a.ticker = b.ticker
  levels : ∀ s, a.levels s = b.levels s
  bestBid : a.bestBidLevel = b.bestBidLevel
  bestAsk : a.bestAskLevel = b.bestAskLevel
  stale : a.stale = b.stale
  lastTsMs : a.lastTsMs = b.lastTsMs

theorem pairLe_total (x y : Int × Int) : pairLe x y ∨ pairLe y x := by
  simp only [pairLe]
  omega

theorem pairLe_trans {x y z : Int × Int} (h : pairLe x y) (h' : pairLe y z) :
    pairLe x z := by
  simp only [pairLe] at h h' ⊢
  omega

theorem pairLe_antisymm {x y : Int × Int} (h : pairLe x y) (h' : pairLe y x) : x = y := by
  simp only [pairLe] at h h'
  exact Prod.ext (by omega) (by omega)

/-- Sorting forgets the order in which the levels were written. -/
theorem sortedItems_perm {d e : Dict Int Int} (h : d.entries.Perm e.entries) (s : Side) :
    sortedItems s d = sortedItems s e := by
  have hsorted : ∀ (r : Int × Int → Int × Int → Prop) [DecidableRel r],
      (∀ x y, r x y ∨ r y x) → (∀ x y z, r x y → r y z → r x z) →
      (∀ x y, r x y → r y x → x = y) →
      d.entries.insertionSort r = e.entries.insertionSort r := by
    intro r _ htotal htrans hanti
    have : Std.Total r := ⟨htotal⟩
    have : IsTrans (Int × Int) r := ⟨htrans⟩
    have : Std.Antisymm r := ⟨hanti⟩
    refine List.Perm.eq_of_pairwise' (List.pairwise_insertionSort r _)
      (List.pairwise_insertionSort r _) ?_
    exact (List.perm_insertionSort r _).trans (h.trans (List.perm_insertionSort r _).symm)
  cases s with
  | bid =>
      exact hsorted _ (fun x y => pairLe_total y x) (fun _ _ _ h h' => pairLe_trans h' h)
        (fun _ _ h h' => pairLe_antisymm h' h)
  | ask =>
      exact hsorted _ pairLe_total (fun _ _ _ => pairLe_trans) (fun _ _ => pairLe_antisymm)

/-- The levels of a book, best first, say what its depth is. -/
theorem Inv.levels_eq_iff {a b : Book} (ha : a.Inv) (hb : b.Inv) :
    (∀ s, a.levels s = b.levels s) ↔ a.depth = b.depth := by
  constructor
  · intro h
    funext s p
    have hinj : Function.Injective fun e : Int × Int => (⟨e.1, e.2⟩ : Level) := by
      rintro ⟨x, y⟩ ⟨x', y'⟩ he
      obtain ⟨rfl, rfl⟩ := Level.mk.inj he
      rfl
    have hsorted := List.map_injective_iff.mpr hinj (h s)
    have hperm : (a.side s).entries.Perm (b.side s).entries := by
      cases s with
      | bid =>
          exact (List.perm_insertionSort _ _).symm.trans
            ((List.Perm.of_eq hsorted).trans (List.perm_insertionSort _ _))
      | ask =>
          exact (List.perm_insertionSort _ _).symm.trans
            ((List.Perm.of_eq hsorted).trans (List.perm_insertionSort _ _))
    exact congrArg (fun o : Option Int => o.getD 0) (Dict.get?_eq_of_entries_perm hperm p)
  · intro h s
    rw [levels, levels, sortedItems_perm (Dict.entries_perm_of_get?_eq (ha.get?_eq hb h s))]

/-- Levels that list the entries of a side, in any order. -/
theorem Inv.levels_of_entries {b : Book} (hi : b.Inv) {s : Side} {l : List Level}
    (hperm : (l.map Level.entry).Perm (b.side s).entries) :
    ValidLevels l ∧ ∀ p, Depth.levelAt p l = b.depth s p := by
  have hnodup : ((l.map Level.entry).map Prod.fst).Nodup :=
    (hperm.map Prod.fst).nodup_iff.mpr (b.side s).nodup
  refine ⟨⟨fun level hl => ?_, ?_⟩, fun p => ?_⟩
  · have hmem : level.entry ∈ (b.side s).entries :=
      hperm.mem_iff.mp (List.mem_map_of_mem hl)
    exact hi.positive s level.price level.count (Dict.get?_eq_some_iff.mpr hmem)
  · rw [← map_entry_fst]
    exact hnodup
  · rw [← lookup_map_entry]
    have hget := Dict.get?_eq_of_entries_perm (d := ⟨_, hnodup⟩) (e := b.side s) hperm p
    exact congrArg (fun o : Option Int => o.getD 0) hget

theorem levels_perm (b : Book) (s : Side) :
    ((b.levels s).map Level.entry).Perm (b.side s).entries := by
  have hmap : (b.levels s).map Level.entry = sortedItems s (b.side s) := by
    rw [levels, List.map_map]
    exact List.map_id _
  rw [hmap]
  cases s with
  | bid => exact List.perm_insertionSort _ _
  | ask => exact List.perm_insertionSort _ _

/-- A book's levels make up its depth. -/
theorem Inv.ofLevels_levels {b : Book} (hi : b.Inv) :
    Depth.ofLevels (b.levels .bid) (b.levels .ask) = b.depth := by
  funext s p
  cases s with
  | bid => exact (hi.levels_of_entries (b.levels_perm .bid)).2 p
  | ask => exact (hi.levels_of_entries (b.levels_perm .ask)).2 p

/-- The image of a fresh book is one a book can hold. -/
theorem Inv.validImage_levels {b : Book} (hi : b.Inv) (hf : b.stale = false) :
    ValidImage (b.levels .bid) (b.levels .ask) where
  validBids := (hi.levels_of_entries (b.levels_perm .bid)).1
  validAsks := (hi.levels_of_entries (b.levels_perm .ask)).1
  uncrossed := by
    rw [hi.ofLevels_levels, ← hi.crossing_iff]
    exact hi.uncrossed hf

theorem max?_congr {l l' : List Int} (h : ∀ q, q ∈ l ↔ q ∈ l') : l.max? = l'.max? := by
  cases hm : l'.max? with
  | none =>
      rw [List.max?_eq_none_iff] at hm ⊢
      subst hm
      exact List.eq_nil_iff_forall_not_mem.mpr fun q hq => by cases (h q).mp hq
  | some m =>
      obtain ⟨hmem, hle⟩ := List.max?_eq_some_iff.mp hm
      exact List.max?_eq_some_iff.mpr ⟨(h m).mpr hmem, fun q hq => hle q ((h q).mp hq)⟩

theorem min?_congr {l l' : List Int} (h : ∀ q, q ∈ l ↔ q ∈ l') : l.min? = l'.min? := by
  cases hm : l'.min? with
  | none =>
      rw [List.min?_eq_none_iff] at hm ⊢
      subst hm
      exact List.eq_nil_iff_forall_not_mem.mpr fun q hq => by cases (h q).mp hq
  | some m =>
      obtain ⟨hmem, hle⟩ := List.min?_eq_some_iff.mp hm
      exact List.min?_eq_some_iff.mpr ⟨(h m).mpr hmem, fun q hq => hle q ((h q).mp hq)⟩

/-- Every reading of a book is determined by its depth. -/
theorem Inv.sameContents {a b : Book} (ha : a.Inv) (hb : b.Inv) (ht : a.ticker = b.ticker)
    (hd : a.depth = b.depth) (hs : a.stale = b.stale) (hts : a.lastTsMs = b.lastTsMs) :
    a.SameContents b := by
  have hperm : ∀ s, (a.side s).entries.Perm (b.side s).entries := fun s =>
    Dict.entries_perm_of_get?_eq (ha.get?_eq hb hd s)
  have hkeys : ∀ s q, q ∈ (a.side s).keys ↔ q ∈ (b.side s).keys := fun s q => by
    rw [ha.mem_keys_iff, hb.mem_keys_iff, hd]
  have hbid : a.bestBid = b.bestBid := by
    rw [ha.bestBid, hb.bestBid]
    exact max?_congr (hkeys .bid)
  have hask : a.bestAsk = b.bestAsk := by
    rw [ha.bestAsk, hb.bestAsk]
    exact min?_congr (hkeys .ask)
  refine ⟨ht, fun s => ?_, ?_, ?_, hs, hts⟩
  · rw [levels, levels, sortedItems_perm (hperm s)]
  · rw [bestBidLevel, bestBidLevel, hbid]
    exact congrArg (fun d : Depth => b.bestBid.map fun p => (⟨p, d .bid p⟩ : Level)) hd
  · rw [bestAskLevel, bestAskLevel, hask]
    exact congrArg (fun d : Depth => b.bestAsk.map fun p => (⟨p, d .ask p⟩ : Level)) hd

end Book

/-! ## The rows of one book, read back -/

theorem sideRows_ticker {b : Book} {asOf : Int} {s : Side} {r : KeyframeRow}
    (h : r ∈ b.sideRows asOf s) :
    r.ticker = b.ticker ∧ r.lastTsMs = b.lastTsMs ∧ r.stale = b.stale := by
  obtain ⟨e, -, rfl⟩ := List.mem_map.mp h
  exact ⟨rfl, rfl, rfl⟩

/-- Every row of a book carries its ticker, its last time and its flag. -/
theorem toKeyframe_common {b : Book} {asOf : Int} {r : KeyframeRow}
    (h : r ∈ b.toKeyframe asOf) :
    r.ticker = b.ticker ∧ r.lastTsMs = b.lastTsMs ∧ r.stale = b.stale := by
  rw [Book.toKeyframe] at h
  split at h
  · obtain rfl := List.mem_singleton.mp h
    exact ⟨rfl, rfl, rfl⟩
  · rcases List.mem_append.mp h with hb | ha
    · exact sideRows_ticker hb
    · exact sideRows_ticker ha

/-- Every row of a keyframe carries the instant it was taken at. -/
theorem toKeyframe_asOf {b : Book} {asOf : Int} {r : KeyframeRow} (h : r ∈ b.toKeyframe asOf) :
    r.asOfRecvNs = asOf := by
  have hside : ∀ {s : Side}, r ∈ b.sideRows asOf s → r.asOfRecvNs = asOf := by
    intro s hs
    obtain ⟨e, -, rfl⟩ := List.mem_map.mp hs
    rfl
  rw [Book.toKeyframe] at h
  split at h
  · obtain rfl := List.mem_singleton.mp h
    rfl
  · rcases List.mem_append.mp h with hb | ha
    · exact hside hb
    · exact hside ha

theorem toKeyframe_ne_nil (b : Book) (asOf : Int) : b.toKeyframe asOf ≠ [] := by
  rw [Book.toKeyframe]
  split
  · exact List.cons_ne_nil _ _
  · next h => simpa using h

theorem rowLevels_sideRows (b : Book) (asOf : Int) (s s' : Side) :
    (rowLevels (b.sideRows asOf s) s').map Level.entry =
      if s = s' then (b.side s).entries else [] := by
  rw [rowLevels, Book.sideRows]
  by_cases h : s = s'
  · subst h
    rw [if_pos rfl, List.filter_eq_self.mpr, List.map_map, List.map_map]
    · exact List.map_id _
    · intro r hr
      obtain ⟨e, -, rfl⟩ := List.mem_map.mp hr
      simp [Book.keyframeRow]
  · rw [if_neg h, List.filter_eq_nil_iff.mpr]
    · rfl
    · intro r hr
      obtain ⟨e, -, rfl⟩ := List.mem_map.mp hr
      cases s <;> cases s' <;> simp_all [Book.keyframeRow, Side.toInt]

theorem rowLevels_append (l l' : List KeyframeRow) (s : Side) :
    rowLevels (l ++ l') s = rowLevels l s ++ rowLevels l' s := by
  rw [rowLevels, List.filter_append, List.map_append]
  rfl

/-- Reading a book's rows gives back the entries of its sides. -/
theorem rowLevels_toKeyframe (b : Book) (asOf : Int) (s : Side) :
    (rowLevels (b.toKeyframe asOf) s).map Level.entry = (b.side s).entries := by
  have hrows : (rowLevels (b.sideRows asOf .bid ++ b.sideRows asOf .ask) s).map Level.entry =
      (b.side s).entries := by
    rw [rowLevels_append, List.map_append, rowLevels_sideRows, rowLevels_sideRows]
    cases s <;> simp
  rw [Book.toKeyframe]
  split
  · next hempty =>
      rw [List.isEmpty_iff.mp hempty] at hrows
      rw [← hrows]
      cases s <;> rfl
  · exact hrows

theorem rowLevels_perm {rows rows' : List KeyframeRow} (h : rows.Perm rows') (s : Side) :
    (rowLevels rows s).Perm (rowLevels rows' s) :=
  (h.filter _).map _

/-- The levels read back from a book's rows, in any order, are levels a
snapshot can hold, and they give the counts of the book. -/
theorem levels_of_rows {b : Book} (hi : b.Inv) {asOf : Int} {rows : List KeyframeRow}
    (h : rows.Perm (b.toKeyframe asOf)) (s : Side) :
    ValidLevels (rowLevels rows s) ∧
      ∀ p, Depth.levelAt p (rowLevels rows s) = b.depth s p := by
  refine hi.levels_of_entries ?_
  rw [← rowLevels_toKeyframe b asOf s]
  exact (rowLevels_perm h s).map _

/-! ## The round trip -/

theorem bookFromRows_spec {b : Book} (hi : b.Inv) {asOf : Int}
    {rows : KeyframeRow × List KeyframeRow}
    (h : (rows.1 :: rows.2).Perm (b.toKeyframe asOf)) :
    (b.Crossed → ∃ e, bookFromRows b.ticker rows = .error e) ∧
      (¬ b.Crossed → ∃ b', bookFromRows b.ticker rows = .ok b' ∧ b'.SameContents b) := by
  obtain ⟨first, rest⟩ := rows
  obtain ⟨hvb, hdb⟩ := levels_of_rows hi h .bid
  obtain ⟨hva, hda⟩ := levels_of_rows hi h .ask
  obtain ⟨-, hts, hstale⟩ := toKeyframe_common (h.mem_iff.mp List.mem_cons_self)
  have hdepth : Depth.ofLevels (rowLevels (first :: rest) .bid)
      (rowLevels (first :: rest) .ask) = b.depth := by
    funext s p
    cases s with
    | bid => exact hdb p
    | ask => exact hda p
  have himage : Book.ValidImage (rowLevels (first :: rest) .bid) (rowLevels (first :: rest) .ask) ↔
      ¬ b.Crossed := by
    rw [hi.not_crossed_iff, ← hdepth]
    exact ⟨fun hv => hv.uncrossed, fun hu => ⟨hvb, hva, hu⟩⟩
  rcases hs : (Book.new b.ticker).applySnapshot (rowLevels (first :: rest) .bid)
    (rowLevels (first :: rest) .ask) first.lastTsMs with ⟨b', e | ⟨⟩⟩
  · have hnv : ¬ Book.ValidImage (rowLevels (first :: rest) .bid)
        (rowLevels (first :: rest) .ask) := by
      rw [← Book.applySnapshot_ok_iff (Book.new b.ticker) first.lastTsMs, hs]
      simp
    refine ⟨fun _ => ⟨e, ?_⟩, fun hc => absurd (himage.mpr hc) hnv⟩
    rw [bookFromRows, hs]
  · have hv : Book.ValidImage (rowLevels (first :: rest) .bid)
        (rowLevels (first :: rest) .ask) := by
      rw [← Book.applySnapshot_ok_iff (Book.new b.ticker) first.lastTsMs, hs]
    refine ⟨fun hc => absurd hc (himage.mp hv), fun _ => ?_⟩
    obtain ⟨hi', hfresh, hd', ht', hts'⟩ :=
      Book.applySnapshot_of_valid (Book.new b.ticker) first.lastTsMs hv
    rw [hs] at hi' hfresh hd' ht' hts'
    refine ⟨_, by rw [bookFromRows, hs], ?_⟩
    cases hst : b.stale with
    | true =>
        rw [if_pos (hstale.trans hst)]
        exact hi'.markStale.sameContents hi ht'
          ((Book.depth_markStale b').trans (hd'.trans hdepth)) hst.symm (hts'.trans hts)
    | false =>
        rw [if_neg (by rw [hstale, hst]; simp)]
        exact hi'.sameContents hi ht' (hd'.trans hdepth) (hfresh.trans hst.symm)
          (hts'.trans hts)

theorem bookFromRows_inv {t : Ticker} {rows : KeyframeRow × List KeyframeRow} {b : Book}
    (h : bookFromRows t rows = .ok b) : b.Inv := by
  have hi := (Book.inv_new t).applySnapshot (rowLevels (rows.1 :: rows.2) .bid)
    (rowLevels (rows.1 :: rows.2) .ask) rows.1.lastTsMs
  rw [bookFromRows] at h
  split at h
  · cases h
  · next hs =>
      rw [hs] at hi
      obtain rfl := Except.ok.inj h
      split
      · exact hi.markStale
      · exact hi

/-- The rows of a set of books, one instant for each book. -/
def keyframeRows (books : List Book) (asOf : Ticker → Int) : List KeyframeRow :=
  books.flatMap fun b => b.toKeyframe (asOf b.ticker)

theorem keyframeRows_filter_of_not_mem {books : List Book} (asOf : Ticker → Int)
    {t : Ticker} (h : t ∉ books.map Book.ticker) :
    (keyframeRows books asOf).filter (fun r => r.ticker = t) = [] := by
  rw [List.filter_eq_nil_iff]
  intro r hr
  obtain ⟨b, hb, hrow⟩ := List.mem_flatMap.mp hr
  rw [decide_eq_true_eq, (toKeyframe_common hrow).1]
  rintro rfl
  exact h (List.mem_map_of_mem hb)

/-- With distinct tickers, the rows of a ticker are the rows of its book. -/
theorem keyframeRows_filter {books : List Book} {asOf : Ticker → Int}
    (hdistinct : (books.map Book.ticker).Nodup) {b : Book} (hb : b ∈ books) :
    (keyframeRows books asOf).filter (fun r => r.ticker = b.ticker) =
      b.toKeyframe (asOf b.ticker) := by
  induction books with
  | nil => cases hb
  | cons c rest ih =>
      rw [List.map_cons, List.nodup_cons] at hdistinct
      rw [keyframeRows, List.flatMap_cons, List.filter_append]
      rcases List.mem_cons.mp hb with rfl | hmem
      · have hown : (b.toKeyframe (asOf b.ticker)).filter (fun r => r.ticker = b.ticker) =
            b.toKeyframe (asOf b.ticker) :=
          List.filter_eq_self.mpr fun r hr => by simp [(toKeyframe_common hr).1]
        have hrest := keyframeRows_filter_of_not_mem asOf hdistinct.1
        rw [keyframeRows] at hrest
        rw [hown, hrest, List.append_nil]
      · have hother : (c.toKeyframe (asOf c.ticker)).filter (fun r => r.ticker = b.ticker) =
            [] := by
          rw [List.filter_eq_nil_iff]
          intro r hr
          rw [decide_eq_true_eq, (toKeyframe_common hr).1]
          intro heq
          exact hdistinct.1 (heq ▸ List.mem_map_of_mem hmem)
        have hrest := ih hdistinct.2 hmem
        rw [keyframeRows] at hrest
        rw [hother, List.nil_append, hrest]

/-- The rows of some markets are those of their books. -/
theorem keyframeRows_wanted (books : List Book) (asOf : Ticker → Int) (wanted : List Ticker) :
    (keyframeRows books asOf).filter (fun r => r.ticker ∈ wanted) =
      keyframeRows (books.filter fun b => b.ticker ∈ wanted) asOf := by
  induction books with
  | nil => rfl
  | cons b rest ih =>
      have hrows : ∀ r ∈ b.toKeyframe (asOf b.ticker), r.ticker = b.ticker := fun r hr =>
        (toKeyframe_common hr).1
      rw [keyframeRows, List.flatMap_cons, List.filter_append, ← keyframeRows, ih]
      by_cases hin : b.ticker ∈ wanted
      · have hall : (b.toKeyframe (asOf b.ticker)).filter (fun r => r.ticker ∈ wanted) =
            b.toKeyframe (asOf b.ticker) :=
          List.filter_eq_self.mpr fun r hr => by simp [hrows r hr, hin]
        rw [hall, List.filter_cons_of_pos (by simpa using hin)]
        rfl
      · have hnone : (b.toKeyframe (asOf b.ticker)).filter (fun r => r.ticker ∈ wanted) = [] :=
          List.filter_eq_nil_iff.mpr fun r hr => by simp [hrows r hr, hin]
        rw [hnone, List.filter_cons_of_neg (by simpa using hin), List.nil_append]

/-- The group of a ticker holds the rows of its book, in some order. -/
theorem group_of_book {books : List Book} {asOf : Ticker → Int} {rows : List KeyframeRow}
    (hdistinct : (books.map Book.ticker).Nodup)
    (hrows : rows.Perm (keyframeRows books asOf)) {b : Book} (hb : b ∈ books) :
    ∃ group, (Dict.groupBy KeyframeRow.ticker rows).get? b.ticker = some group ∧
      (group.1 :: group.2).Perm (b.toKeyframe (asOf b.ticker)) := by
  have hperm := hrows.filter (fun r => decide (r.ticker = b.ticker))
  rw [keyframeRows_filter hdistinct hb] at hperm
  rw [Dict.get?_groupBy]
  cases hf : rows.filter (fun r => decide (r.ticker = b.ticker)) with
  | nil =>
      rw [hf] at hperm
      exact absurd hperm.nil_eq.symm (toKeyframe_ne_nil b _)
  | cons first rest =>
      rw [hf] at hperm
      exact ⟨(first, rest), rfl, hperm⟩

theorem group_ticker {books : List Book} {asOf : Ticker → Int} {rows : List KeyframeRow}
    (hrows : rows.Perm (keyframeRows books asOf)) {t : Ticker}
    {group : KeyframeRow × List KeyframeRow}
    (h : (Dict.groupBy KeyframeRow.ticker rows).get? t = some group) :
    ∃ b ∈ books, b.ticker = t := by
  rw [Dict.get?_groupBy, Dict.asGroup_eq_some_iff] at h
  have hmem : group.1 ∈ rows.filter (fun r => decide (r.ticker = t)) := by
    rw [h]
    exact List.mem_cons_self
  obtain ⟨hrow, ht⟩ := List.mem_filter.mp hmem
  obtain ⟨b, hb, hbrow⟩ := List.mem_flatMap.mp (hrows.mem_iff.mp hrow)
  exact ⟨b, hb, (toKeyframe_common hbrow).1.symm.trans (of_decide_eq_true ht)⟩

/-- Where a keyframe is read at all, every book is read as it was. -/
theorem books_of_rows {books : List Book} {asOf : Ticker → Int} {rows : List KeyframeRow}
    (hdistinct : (books.map Book.ticker).Nodup) (hinv : ∀ b ∈ books, b.Inv)
    (hrows : rows.Perm (keyframeRows books asOf)) {d : Dict Ticker Book}
    (hd : booksFromKeyframeRows rows = .ok d) {b : Book} (hb : b ∈ books) :
    ∃ b', d.get? b.ticker = some b' ∧ b'.Inv ∧ b'.SameContents b := by
  obtain ⟨group, hgroup, hperm⟩ := group_of_book hdistinct hrows hb
  obtain ⟨b', hb'⟩ := Dict.traverse_ok_iff.mp ⟨d, hd⟩ b.ticker group hgroup
  obtain ⟨hcrossed, hread⟩ := bookFromRows_spec (hinv b hb) hperm
  have hun : ¬ b.Crossed := by
    intro hc
    obtain ⟨e, he⟩ := hcrossed hc
    rw [he] at hb'
    cases hb'
  obtain ⟨b'', hok, hsame⟩ := hread hun
  obtain rfl := Except.ok.inj (hb'.symm.trans hok)
  refine ⟨b', ?_, bookFromRows_inv hb', hsame⟩
  rw [Dict.get?_traverse hd, hgroup, Option.bind_some, hb']
  rfl

/-- A keyframe of books that are not crossed is read. -/
theorem rows_read {books : List Book} {asOf : Ticker → Int} {rows : List KeyframeRow}
    (hdistinct : (books.map Book.ticker).Nodup) (hinv : ∀ b ∈ books, b.Inv)
    (hrows : rows.Perm (keyframeRows books asOf)) (hun : ∀ b ∈ books, ¬ b.Crossed) :
    ∃ d, booksFromKeyframeRows rows = .ok d := by
  refine Dict.traverse_ok_iff.mpr fun t group hgroup => ?_
  obtain ⟨b, hb, rfl⟩ := group_ticker hrows hgroup
  obtain ⟨group', hgroup', hperm⟩ := group_of_book hdistinct hrows hb
  obtain rfl := Option.some.inj (hgroup.symm.trans hgroup')
  obtain ⟨b', hok, -⟩ := (bookFromRows_spec (hinv b hb) hperm).2 (hun b hb)
  exact ⟨b', hok⟩

/-- What is read are books of the keyframe's markets. -/
theorem ticker_of_rows {books : List Book} {asOf : Ticker → Int} {rows : List KeyframeRow}
    (hrows : rows.Perm (keyframeRows books asOf)) {d : Dict Ticker Book}
    (hd : booksFromKeyframeRows rows = .ok d) {t : Ticker} (ht : t ∈ d.keys) :
    t ∈ books.map Book.ticker := by
  obtain ⟨b', hb'⟩ := Dict.mem_keys_iff.mp ht
  rw [Dict.get?_traverse hd t] at hb'
  obtain ⟨group, hgroup, -⟩ := Option.bind_eq_some_iff.mp hb'
  obtain ⟨b, hb, rfl⟩ := group_ticker hrows hgroup
  exact List.mem_map_of_mem hb

/-- A keyframe is read back, every book as it was, exactly when none of its
books is crossed. -/
theorem keyframe_round_trip_iff (books : List Book) (asOf : Ticker → Int)
    (rows : List KeyframeRow) (hdistinct : (books.map Book.ticker).Nodup)
    (hreach : ∀ b ∈ books, b.Reachable) (hrows : rows.Perm (keyframeRows books asOf)) :
    (∃ d, booksFromKeyframeRows rows = .ok d ∧
        (∀ t, t ∈ d.keys ↔ t ∈ books.map Book.ticker) ∧
        ∀ b ∈ books, ∃ b', d.get? b.ticker = some b' ∧ b'.SameContents b) ↔
      ∀ b ∈ books, ¬ b.Crossed := by
  have hinv : ∀ b ∈ books, b.Inv := fun b hb => (hreach b hb).inv
  constructor
  · rintro ⟨d, hd, -, -⟩ b hb hcrossed
    obtain ⟨group, hgroup, hperm⟩ := group_of_book hdistinct hrows hb
    obtain ⟨e, he⟩ := (bookFromRows_spec (hinv b hb) hperm).1 hcrossed
    obtain ⟨b', hb'⟩ := Dict.traverse_ok_iff.mp ⟨d, hd⟩ b.ticker group hgroup
    rw [he] at hb'
    cases hb'
  · intro hun
    obtain ⟨d, hd⟩ := rows_read hdistinct hinv hrows hun
    have hread : ∀ b ∈ books, ∃ b', d.get? b.ticker = some b' ∧ b'.SameContents b := by
      intro b hb
      obtain ⟨b', hget, -, hsame⟩ := books_of_rows hdistinct hinv hrows hd hb
      exact ⟨b', hget, hsame⟩
    refine ⟨d, hd, fun t => ⟨ticker_of_rows hrows hd, fun ht => ?_⟩, hread⟩
    obtain ⟨b, hb, rfl⟩ := List.mem_map.mp ht
    obtain ⟨b', hget, -⟩ := hread b hb
    exact Dict.mem_keys_of_get? hget

/-- Two markets quoted normally, read back as they were. -/
def quotedBook (t : Ticker) : Book :=
  Run.final Book.perform (Book.new t) [.applySnapshot [⟨4000, 100⟩] [⟨5000, 100⟩] none]

theorem keyframe_round_trip_quoted :
    ∃ d, booksFromKeyframeRows
        (keyframeRows [quotedBook "KXA", quotedBook "KXB"] fun _ => 0) = .ok d ∧
      (∀ t, t ∈ d.keys ↔ t ∈ [quotedBook "KXA", quotedBook "KXB"].map Book.ticker) ∧
      ∀ b ∈ [quotedBook "KXA", quotedBook "KXB"],
        ∃ b', d.get? b.ticker = some b' ∧ b'.SameContents b := by
  refine (keyframe_round_trip_iff [quotedBook "KXA", quotedBook "KXB"] (fun _ => 0)
    (keyframeRows [quotedBook "KXA", quotedBook "KXB"] fun _ => 0)
    (by decide) ?_ (List.Perm.refl _)).mpr ?_
  · intro b hb
    rcases List.mem_cons.mp hb with rfl | hb
    · exact ⟨_, rfl⟩
    · obtain rfl := List.mem_singleton.mp hb
      exact ⟨_, rfl⟩
  · intro b hb
    rw [Book.crossed_iff, not_not]
    rcases List.mem_cons.mp hb with rfl | hb
    · rfl
    · obtain rfl := List.mem_singleton.mp hb
      rfl

/-- A bid arrives at the best ask: the delta raises, its level stays. -/
def crossedBook : Book :=
  Run.final Book.perform (Book.new "KXB")
    [.applySnapshot [⟨4000, 100⟩] [⟨5000, 100⟩] none, .applyDelta .bid 5000 100 none]

/-- The rows of the crossed book cost the other market its book as well. -/
theorem keyframe_lost_to_crossed_book :
    ([quotedBook "KXA", crossedBook].map Book.ticker).Nodup ∧
      (∀ b ∈ [quotedBook "KXA", crossedBook], b.Reachable) ∧
      ∃ e, booksFromKeyframeRows (keyframeRows [quotedBook "KXA", crossedBook] fun _ => 0) =
        .error e := by
  refine ⟨by decide, ?_, ⟨_, rfl⟩⟩
  intro b hb
  rcases List.mem_cons.mp hb with rfl | hb
  · exact ⟨_, rfl⟩
  · obtain rfl := List.mem_singleton.mp hb
    exact ⟨_, rfl⟩

end Tape
