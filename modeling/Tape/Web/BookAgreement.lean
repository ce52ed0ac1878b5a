import Tape.Book.Keyframe
import Tape.Web.Book

/-!
# The page's book and the server's

Two books of one market: dictionaries with the best prices kept beside them,
and dense arrays with the best prices found by scans. Fed the same snapshots
and deltas, they agree on every count (`Agrees`), and from this on everything
that is read of them: the best prices, and the first levels of a side.

The page's book is right about its best prices if they are what a scan of the
whole side would find (`Cached`). A change of one level moves what such a scan
finds as `find?_changed` says, which is what the book does.
-/

namespace Tape.Web

namespace Book

variable {w : Book} {side : Side}

instance (side : Side) (p q : Nat) : Decidable (Better side p q) :=
  match side with
  | .bid => inferInstanceAs (Decidable (q < p))
  | .ask => inferInstanceAs (Decidable (p < q))

/-- The first price of a side with a count, from the best on. -/
def scan (side : Side) (levels : Levels) : Option Nat :=
  (ladder side).find? fun price => countAt levels price > 0

/-- The best prices are what a scan of their sides finds. -/
def Cached (w : Book) : Prop := ∀ side, w.best side = scan side (w.levels side)

theorem countAt_set {levels : Levels} {p q : Nat} {x : Int} (hp : p ≤ maxPriceE4) :
    countAt (levels.setIfInBounds p x) q = if p = q then x else countAt levels q := by
  rw [countAt, Vector.getElem?_setIfInBounds, if_pos (Nat.lt_succ_iff.mpr hp)]
  split
  · rfl
  · rfl

theorem countAt_new (q : Nat) : countAt (Vector.replicate (maxPriceE4 + 1) 0) q = 0 := by
  rw [countAt, Vector.getElem?_replicate]
  split
  · rfl
  · rfl

/-! ## Changing a level -/

/-- The book with one count set, and the best price of its side kept up. -/
def changed (w : Book) (side : Side) (p : Nat) (x : Int) : Book :=
  match side with
  | .bid => afterBidChange { w with bids := w.bids.setIfInBounds p x } p x
  | .ask => afterAskChange { w with asks := w.asks.setIfInBounds p x } p x

theorem applyDelta_eq (w : Book) (side : Side) (p : Nat) (delta : Int) :
    w.applyDelta side p delta =
      if toDouble (w.count side p + delta) < 0 then (w, .negative)
      else (w.changed side p (toDouble (w.count side p + delta)), .applied) := by
  rw [applyDelta.eq_def]
  dsimp only
  split
  · rfl
  · cases side with
    | bid => rfl
    | ask => rfl

theorem changed_levels (w : Book) (side s : Side) (p : Nat) (x : Int) :
    (w.changed side p x).levels s =
      if side = s then (w.levels s).setIfInBounds p x else w.levels s := by
  cases side with
  | bid =>
      rw [changed, afterBidChange]
      cases s with
      | bid => split <;> [rfl; split <;> rfl]
      | ask => split <;> [rfl; split <;> rfl]
  | ask =>
      rw [changed, afterAskChange]
      cases s with
      | bid => split <;> [rfl; split <;> rfl]
      | ask => split <;> [rfl; split <;> rfl]

theorem changed_best_other (w : Book) {side s : Side} (h : s ≠ side) (p : Nat) (x : Int) :
    (w.changed side p x).best s = w.best s := by
  cases side with
  | bid =>
      rw [changed, afterBidChange]
      cases s with
      | bid => exact absurd rfl h
      | ask => split <;> [rfl; split <;> rfl]
  | ask =>
      rw [changed, afterAskChange]
      cases s with
      | bid => split <;> [rfl; split <;> rfl]
      | ask => exact absurd rfl h

/-- The best price after a change: moved to a better level, found below an
emptied one, or as it was. -/
theorem changed_best (w : Book) (side : Side) (p : Nat) (x : Int) :
    (w.changed side p x).best side =
      if x > 0 ∧ (w.best side).all (fun q => Better side p q) then some p
      else if x = 0 ∧ w.best side = some p then
        (beyond side p).find? fun q => countAt ((w.levels side).setIfInBounds p x) q > 0
      else w.best side := by
  cases side with
  | bid =>
      rw [changed, afterBidChange]
      show Book.bestBid _ = if x > 0 ∧ w.bestBid.all (p > ·) then some p
        else if x = 0 ∧ w.bestBid = some p then scanBid (w.bids.setIfInBounds p x) p else w.bestBid
      split
      · rfl
      · split
        · rfl
        · rfl
  | ask =>
      rw [changed, afterAskChange]
      show Book.bestAsk _ = if x > 0 ∧ w.bestAsk.all (p < ·) then some p
        else if x = 0 ∧ w.bestAsk = some p then scanAsk (w.asks.setIfInBounds p x) (p + 1)
          else w.bestAsk
      split
      · rfl
      · split
        · rfl
        · rfl

theorem better_asymm {side : Side} {p q : Nat} (h : Better side p q) : ¬ Better side q p := by
  cases side with
  | bid => exact not_lt.mpr (le_of_lt h)
  | ask => exact not_lt.mpr (le_of_lt h)

theorem Cached.changed (h : w.Cached) {p : Nat} (hp : p ≤ maxPriceE4) {x : Int} (hx : 0 ≤ x) :
    (w.changed side p x).Cached := by
  intro s
  by_cases hs : s = side
  · subst hs
    obtain ⟨ahead, hcut⟩ := ladder_cut s hp
    obtain ⟨-, hbehind, hahead⟩ := List.pairwise_append.mp (hcut ▸ pairwise_ladder s)
    have hworse : ∀ q ∈ beyond s p, Better s p q := (List.pairwise_cons.mp hbehind).1
    have hsame : ∀ q, q ≠ p → decide (countAt ((w.levels s).setIfInBounds p x) q > 0) =
        decide (countAt (w.levels s) q > 0) := by
      intro q hq
      rw [countAt_set hp, if_neg fun heq => hq heq.symm]
    have hscan := find?_changed (hcut ▸ nodup_ladder s) hsame
    rw [← hcut] at hscan
    have hself : countAt ((w.levels s).setIfInBounds p x) p = x := by
      rw [countAt_set hp, if_pos rfl]
    have hbelow : (beyond s p).find? (fun q => countAt ((w.levels s).setIfInBounds p x) q > 0) =
        (beyond s p).find? fun q => countAt (w.levels s) q > 0 := by
      refine find?_same fun q hq => hsame q ?_
      rintro rfl
      exact better_irrefl s q (hworse q hq)
    rw [changed_best, changed_levels, if_pos rfl, scan, hscan, hself, hbelow, h s]
    show (if x > 0 ∧ (scan s (w.levels s)).all (fun q => Better s p q) then some p
      else if x = 0 ∧ scan s (w.levels s) = some p then _ else scan s (w.levels s)) = _
    by_cases hpos : x > 0
    · rw [if_pos (decide_eq_true hpos)]
      cases hbest : scan s (w.levels s) with
      | none =>
          rw [if_pos ⟨hpos, rfl⟩]
          rw [scan] at hbest
          rw [hbest]
      | some q =>
          have hq : q ∈ ladder s := List.mem_of_find?_eq_some hbest
          rw [scan] at hbest
          rw [hbest, Option.all_some]
          by_cases hbetter : Better s p q
          · have hout : q ∉ ahead := fun hin =>
              better_asymm hbetter (hahead q hin p List.mem_cons_self)
            rw [if_pos ⟨hpos, decide_eq_true hbetter⟩]
            show _ = if q ∈ ahead then some q else some p
            rw [if_neg hout]
          · rw [if_neg fun hboth => hbetter (of_decide_eq_true hboth.2),
              if_neg fun hboth => absurd hboth.1 (ne_of_gt hpos)]
            show _ = if q ∈ ahead then some q else some p
            split
            · rfl
            · next hout =>
                rw [hcut] at hq
                rcases List.mem_cons.mp ((List.mem_append.mp hq).resolve_left hout) with rfl | hq
                · rfl
                · exact absurd (hworse q hq) hbetter
    · have hzero : x = 0 := by omega
      rw [if_neg fun hboth => hpos hboth.1, if_neg fun hyes => hpos (of_decide_eq_true hyes)]
      refine if_congr ?_ rfl rfl
      exact and_iff_right hzero
  · rw [changed_best_other w hs, changed_levels, if_neg fun heq => hs heq.symm]
    exact h s

/-! ## Replacing a book -/

/-- A level as the page receives it. -/
def wire (level : Level) : PriceLevel := (level.price.toNat, level.count)

theorem cached_replace (w : Book) (bids asks : List PriceLevel) : (w.replace bids asks).Cached := by
  intro side
  cases side with
  | bid =>
      simp only [replace, best, levels, scan, scanBid, ladder]
      exact find?_same fun _ _ => rfl
  | ask =>
      simp only [replace, best, levels, scan, scanAsk, ladder]
      exact find?_same fun _ _ => rfl

theorem countAt_setLevels {image : List Level} (hrange : ∀ level ∈ image, 0 ≤ level.price ∧
    level.price ≤ maxPriceE4) (hdistinct : (image.map Level.price).Nodup) (levels : Levels)
    (q : Nat) :
    countAt (setLevels levels (image.map wire)) q =
      if (q : Int) ∈ image.map Level.price then Depth.levelAt q image else countAt levels q := by
  induction image generalizing levels with
  | nil => rfl
  | cons level image ih =>
      obtain ⟨hout, hdistinct⟩ := List.nodup_cons.mp hdistinct
      obtain ⟨hnonneg, hle⟩ := hrange level List.mem_cons_self
      have hprice : (level.price.toNat : Int) = level.price := Int.toNat_of_nonneg hnonneg
      have hset : setLevels levels ((level :: image).map wire) =
          setLevels (levels.setIfInBounds level.price.toNat level.count) (image.map wire) := rfl
      rw [hset, ih (fun l hl => hrange l (List.mem_cons_of_mem _ hl)) hdistinct,
        countAt_set (by omega), List.map_cons, Depth.levelAt]
      by_cases heq : level.price = q
      · have hself : level.price.toNat = q := by omega
        rw [if_neg (heq ▸ hout), if_pos hself, if_pos heq,
          if_pos (List.mem_cons.mpr (.inl heq.symm))]
      · have hne : level.price.toNat ≠ q := fun h => heq (by omega)
        rw [if_neg hne, if_neg heq]
        by_cases hin : (q : Int) ∈ image.map Level.price
        · rw [if_pos hin, if_pos (List.mem_cons_of_mem _ hin)]
        · rw [if_neg hin, if_neg]
          rw [List.mem_cons, not_or]
          exact ⟨fun h => heq h.symm, hin⟩

/-- What one side of a replaced book holds. -/
theorem count_image {image : List Level} (hrange : ∀ level ∈ image, 0 ≤ level.price ∧
    level.price ≤ maxPriceE4) (hvalid : ValidLevels image) (q : Nat) :
    countAt (setLevels (Vector.replicate (maxPriceE4 + 1) 0) (image.map wire)) q =
      Depth.levelAt q image := by
  rw [countAt_setLevels hrange hvalid.distinct, countAt_new]
  split
  · rfl
  · next hout => exact (Depth.levelAt_of_not_mem hout).symm

/-! ## The first levels -/

/-- What a loop collects before it reaches its limit. -/
theorem collectTop_eq (levels : Levels) {limit : Nat} (prices : List Nat) {out : List PriceLevel}
    (h : out.length < limit) :
    collectTop levels limit prices out =
      out ++ ((prices.filter fun p => countAt levels p > 0).map fun p =>
        (p, countAt levels p)).take (limit - out.length) := by
  induction prices generalizing out with
  | nil => rw [collectTop, List.filter_nil, List.map_nil, List.take_nil, List.append_nil]
  | cons p prices ih =>
      rw [collectTop]
      by_cases hpos : countAt levels p > 0
      · rw [if_pos hpos, List.filter_cons_of_pos (by simpa using hpos), List.map_cons]
        have hlength : (out ++ [(p, countAt levels p)]).length = out.length + 1 := by simp
        rw [hlength]
        split
        · next hfull =>
            have hone : limit - out.length = 1 := by omega
            rw [hone]
            rfl
        · next hmore =>
            rw [ih (by omega), hlength, List.append_assoc,
              show limit - out.length = limit - (out.length + 1) + 1 by omega, List.take_succ_cons]
            rfl
      · rw [if_neg hpos, List.filter_cons_of_neg (by simpa using hpos), if_neg (by omega)]
        exact ih h

/-- The levels of a side, best first. -/
def ordered (w : Book) (side : Side) : List PriceLevel :=
  ((ladder side).filter fun p => w.count side p > 0).map fun p => (p, w.count side p)

/-- The prices the loop of `topLevels` visits. -/
theorem prices_from (side : Side) {best : Nat} (h : best ≤ maxPriceE4) :
    (match side with
      | .bid => below (best + 1)
      | .ask => upFrom best) = best :: beyond side best := by
  cases side with
  | bid => exact below_succ best
  | ask => exact upFrom_cons h

/-- The first levels are the first of all of them, if any are asked for; asked
for none, the best one comes. -/
theorem topLevels_eq (h : w.Cached) (side : Side) (limit : Nat) :
    w.topLevels side limit = (w.ordered side).take (max limit 1) := by
  rw [topLevels.eq_def, ordered]
  have hbest := h side
  cases hfound : w.best side with
  | none =>
      rw [hfound] at hbest
      have hnone : (ladder side).filter (fun p => w.count side p > 0) = [] :=
        List.filter_eq_nil_iff.mpr (List.find?_eq_none.mp hbest.symm)
      rw [hnone, List.map_nil, List.take_nil]
  | some best =>
      rw [hfound] at hbest
      have hin : best ∈ ladder side := List.mem_of_find?_eq_some hbest.symm
      have hfirst := List.find?_some hbest.symm
      have hpos : w.count side best > 0 := of_decide_eq_true hfirst
      obtain ⟨ahead, hcut⟩ := ladder_cut side (mem_ladder.mp hin)
      have hahead : ahead.filter (fun p => w.count side p > 0) = [] := by
        -- what is found first has nothing before it
        rw [List.filter_eq_nil_iff, ← List.find?_eq_none]
        cases hsearch : ahead.find? (fun p => w.count side p > 0) with
        | none => rfl
        | some q =>
            have hscan : scan side (w.levels side) = some q := by
              rw [scan, hcut, List.find?_append]
              exact congrArg (fun o => Option.or o _) hsearch
            have hq : best = q := Option.some.inj (hbest.trans hscan)
            have hn : (ahead ++ best :: beyond side best).Nodup := by
              rw [← hcut]
              exact nodup_ladder side
            obtain ⟨-, -, hdisjoint⟩ := List.nodup_append.mp hn
            have hne : q ≠ best :=
              hdisjoint q (List.mem_of_find?_eq_some hsearch) best List.mem_cons_self
            exact absurd hq.symm hne
      have hprices := prices_from side (mem_ladder.mp hin)
      refine (congrArg (fun l => collectTop (w.levels side) limit l []) hprices).trans ?_
      rw [hcut, List.filter_append, hahead, List.nil_append]
      cases limit with
      | zero =>
          have hcount : countAt (w.levels side) best > 0 := hpos
          rw [collectTop, List.filter_cons_of_pos (by simpa using hpos), if_pos hcount,
            if_pos (Nat.zero_le _)]
          rfl
      | succ limit =>
          rw [collectTop_eq _ _ (Nat.succ_pos limit), List.nil_append, List.length_nil,
            Nat.sub_zero, Nat.max_eq_left (Nat.succ_pos limit)]
          rfl

end Book

/-! ## The two books -/

open Web.Book

/-- A snapshot or a delta, as the server applies it. -/
inductive BookMessage where
  | snapshot (bids asks : List Level) (tsMs : Option Int)
  | delta (side : Side) (price delta : Int) (tsMs : Option Int)
  deriving DecidableEq, Repr

/-- The server's book after a message, if it did not raise. -/
def serve (b : Tape.Book) : BookMessage → Option Tape.Book
  | .snapshot bids asks tsMs =>
      match b.applySnapshot bids asks tsMs with
      | (b', .ok _) => some b'
      | (_, .error _) => none
  | .delta side price delta tsMs =>
      match b.applyDelta side price delta tsMs with
      | (b', .ok _) => some b'
      | (_, .error _) => none

/-- The page's book after the same message. -/
def view (w : Book) : BookMessage → Book × DeltaOutcome
  | .snapshot bids asks _ => (w.replace (bids.map wire) (asks.map wire), .applied)
  | .delta side price delta _ => w.applyDelta side price.toNat delta

/-- A price of the page's grid. -/
def InRange (price : Int) : Prop := 0 ≤ price ∧ price ≤ maxPriceE4

/-- The prices of a message are on the grid. -/
def BookMessage.InRange : BookMessage → Prop
  | .snapshot bids asks _ => ∀ level ∈ bids ++ asks, Web.InRange level.price
  | .delta _ price _ _ => Web.InRange price

instance (price : Int) : Decidable (InRange price) :=
  inferInstanceAs (Decidable (0 ≤ price ∧ price ≤ maxPriceE4))

instance : DecidablePred BookMessage.InRange
  | .snapshot bids asks _ =>
      inferInstanceAs (Decidable (∀ level ∈ bids ++ asks, Web.InRange level.price))
  | .delta _ price _ _ => inferInstanceAs (Decidable (Web.InRange price))

/-- The server applies the messages without raising; their prices are on the
grid, and no count reaches 2^53. -/
def Accepts (b : Tape.Book) : List BookMessage → Prop
  | [] => True
  | m :: rest => m.InRange ∧ ∃ b', serve b m = some b' ∧
    (∀ side price, b'.sizeAt side price < 2 ^ 53) ∧
      Accepts b' rest

/-- The server's book and the page's, and whether the page reported nothing
negative. -/
def feed (b : Tape.Book) (w : Book) : List BookMessage → Tape.Book × Book × Bool
  | [] => (b, w, true)
  | m :: rest =>
      let (b', w', fine) := feed ((serve b m).getD b) (view w m).1 rest
      (b', w', (view w m).2 = .applied && fine)

/-- The books hold the same counts. -/
structure Agrees (b : Tape.Book) (w : Book) : Prop where
  inv : b.Inv
  fresh : b.stale = false
  cached : w.Cached
  inside : ∀ side price, b.depth side price ≠ 0 → InRange price
  counts : ∀ side (price : Nat), price ≤ maxPriceE4 → w.count side price = b.depth side price

theorem toDouble_of_small {x : Int} (h₀ : 0 ≤ x) (h : x < 2 ^ 53) : toDouble x = x := by
  rw [toDouble, if_pos]
  omega

theorem inRange_of_levelAt {image : List Level} (h : ∀ level ∈ image, InRange level.price)
    {price : Int} (hne : Depth.levelAt price image ≠ 0) : InRange price := by
  by_contra hout
  refine hne (Depth.levelAt_of_not_mem fun hin => ?_)
  obtain ⟨level, hlevel, rfl⟩ := List.mem_map.mp hin
  exact hout (h level hlevel)

/-- After a snapshot the books agree, whatever they were. -/
theorem agrees_snapshot {b b' : Tape.Book} {w : Book} {bids asks : List Level}
    {tsMs : Option Int} (hrange : (BookMessage.snapshot bids asks tsMs).InRange)
    (hserve : serve b (.snapshot bids asks tsMs) = some b') :
    Agrees b' (view w (.snapshot bids asks tsMs)).1 := by
  have hbids : ∀ level ∈ bids, InRange level.price :=
    fun level hlevel => hrange level (List.mem_append_left _ hlevel)
  have hasks : ∀ level ∈ asks, InRange level.price :=
    fun level hlevel => hrange level (List.mem_append_right _ hlevel)
  rcases Tape.Book.applySnapshot_cases b bids asks tsMs with
    ⟨book, heq, hinv, hfresh, -, -, heb, hea, hvb, hva⟩ | ⟨e, heq⟩
  · rw [serve, heq] at hserve
    obtain rfl := Option.some.inj hserve
    have hdepth := Tape.Book.depth_of_entries heb hea
    refine ⟨hinv, hfresh, cached_replace _ _ _, ?_, ?_⟩
    · intro side price hne
      rw [hdepth] at hne
      cases side with
      | bid => exact inRange_of_levelAt hbids hne
      | ask => exact inRange_of_levelAt hasks hne
    · intro side price _
      rw [hdepth]
      cases side with
      | bid => exact count_image hbids hvb price
      | ask => exact count_image hasks hva price
  · rw [serve, heq] at hserve
    cases hserve

/-- A delta the server applies leaves the books in agreement, and the page
reports nothing. -/
theorem agrees_delta {b b' : Tape.Book} {w : Book} (h : Agrees b w) {side : Side}
    {price delta : Int} {tsMs : Option Int} (hrange : InRange price)
    (hserve : serve b (.delta side price delta tsMs) = some b')
    (hsmall : ∀ side price, b'.sizeAt side price < 2 ^ 53) :
    Agrees b' (view w (.delta side price delta tsMs)).1 ∧
      (view w (.delta side price delta tsMs)).2 = .applied := by
  have hprice : (price.toNat : Int) = price := Int.toNat_of_nonneg hrange.1
  have hle : price.toNat ≤ maxPriceE4 := by
    have hhigh := hrange.2
    omega
  by_cases hfits : Tape.Book.Fits b.depth side price delta
  · obtain ⟨book, heq, hinv, hfresh, hdepth, -⟩ := h.inv.applyDelta_of_fits h.fresh hfits tsMs
    rw [serve, heq] at hserve
    obtain rfl := Option.some.inj hserve
    have hcount : w.count side price.toNat = b.depth side price := by
      rw [h.counts side _ hle, hprice]
    have hnext : toDouble (w.count side price.toNat + delta) = b.depth side price + delta := by
      rw [hcount]
      refine toDouble_of_small hfits.nonneg ?_
      have hlt := hsmall side price
      have hat : book.sizeAt side price = b.depth side price + delta := by
        show book.depth side price = _
        rw [hdepth, Depth.add, if_pos ⟨rfl, rfl⟩]
      rw [← hat]
      exact hlt
    have hview : view w (.delta side price delta tsMs) =
        (w.changed side price.toNat (b.depth side price + delta), .applied) := by
      rw [view, applyDelta_eq, hnext, if_neg (not_lt.mpr hfits.nonneg)]
    rw [hview]
    refine ⟨⟨hinv, hfresh, h.cached.changed hle hfits.nonneg, ?_, ?_⟩, rfl⟩
    · intro s q hne
      rw [hdepth, Depth.add] at hne
      split at hne
      · next hself =>
          rw [← hself.2]
          exact hrange
      · exact h.inside s q hne
    · intro s q hq
      rw [hdepth, Depth.add, Book.count, changed_levels]
      by_cases hs : side = s
      · subst hs
        rw [if_pos rfl, countAt_set hle]
        by_cases heq : price = q
        · rw [if_pos (by omega), if_pos ⟨rfl, heq⟩, heq]
        · rw [if_neg (by omega), if_neg fun hboth => heq hboth.2]
          exact h.counts side q hq
      · rw [if_neg hs, if_neg fun hboth => hs hboth.1]
        exact h.counts s q hq
  · obtain ⟨book, e, heq, -⟩ := h.inv.applyDelta_of_not_fits h.fresh hfits tsMs
    rw [serve, heq] at hserve
    cases hserve

theorem agrees_feed {b : Tape.Book} {w : Book} (h : Agrees b w) {messages : List BookMessage}
    (haccepts : Accepts b messages) :
    Agrees (feed b w messages).1 (feed b w messages).2.1 ∧ (feed b w messages).2.2 = true := by
  induction messages generalizing b w with
  | nil => exact ⟨h, rfl⟩
  | cons m rest ih =>
      obtain ⟨hrange, b', hserve, hsmall, hrest⟩ := haccepts
      have hstep : Agrees b' (view w m).1 ∧ (view w m).2 = .applied := by
        cases m with
        | snapshot bids asks tsMs => exact ⟨agrees_snapshot hrange hserve, rfl⟩
        | delta side price delta tsMs => exact agrees_delta h hrange hserve hsmall
      obtain ⟨hagrees, hfine⟩ := ih hstep.1 hrest
      rw [feed, hserve, Option.getD_some]
      exact ⟨hagrees, Bool.and_eq_true_iff.mpr ⟨decide_eq_true hstep.2, hfine⟩⟩

/-! ## What is read of them -/

/-- A level of the page, as the server writes it. -/
def entryOf (level : PriceLevel) : Int × Int := (level.1, level.2)

theorem mem_ordered {w : Book} {side : Side} {level : PriceLevel} :
    level ∈ w.ordered side ↔
      level.1 ≤ maxPriceE4 ∧ level.2 = w.count side level.1 ∧ 0 < level.2 := by
  rw [ordered, List.mem_map]
  constructor
  · rintro ⟨p, hp, rfl⟩
    obtain ⟨hin, hpos⟩ := List.mem_filter.mp hp
    exact ⟨mem_ladder.mp hin, rfl, of_decide_eq_true hpos⟩
  · intro ⟨hle, hcount, hpos⟩
    refine ⟨level.1, List.mem_filter.mpr ⟨mem_ladder.mpr hle, decide_eq_true ?_⟩, ?_⟩
    · rw [← hcount]
      exact hpos
    · rw [← hcount]

theorem pairwise_ordered (w : Book) (side : Side) :
    (w.ordered side).Pairwise fun x y => Better side x.1 y.1 := by
  rw [ordered, List.pairwise_map]
  exact (pairwise_ladder side).filter _

/-- A side's dictionary holds the levels the page has. -/
theorem Agrees.entries_perm {b : Tape.Book} {w : Book} (h : Agrees b w) (side : Side) :
    ((w.ordered side).map entryOf).Perm (b.side side).entries := by
  have hordered : ((w.ordered side).map entryOf).Nodup := by
    refine List.Nodup.map_on ?_ ((pairwise_ordered w side).imp ?_)
    · intro x _ y _ heq
      obtain ⟨hfst, hsnd⟩ := Prod.mk.inj heq
      exact Prod.ext (Int.ofNat_inj.mp hfst) hsnd
    · intro x y hbetter heq
      rw [heq] at hbetter
      exact better_irrefl side y.1 hbetter
  refine (List.perm_ext_iff_of_nodup hordered (List.Nodup.of_map _ (b.side side).nodup)).mpr ?_
  rintro ⟨price, count⟩
  have hget : (price, count) ∈ (b.side side).entries ↔ (b.side side).get? price = some count :=
    Dict.get?_eq_some_iff.symm
  rw [hget, List.mem_map]
  constructor
  · rintro ⟨level, hin, heq⟩
    obtain ⟨hle, hcount, hpos⟩ := mem_ordered.mp hin
    obtain ⟨rfl, rfl⟩ := Prod.mk.inj heq
    have hdepth : b.depth side level.1 = level.2 := by
      rw [← h.counts side level.1 hle, hcount]
    have hkey : (level.1 : Int) ∈ (b.side side).keys := by
      rw [h.inv.mem_keys_iff, hdepth]
      exact ne_of_gt hpos
    obtain ⟨c, hc⟩ := Dict.mem_keys_iff.mp hkey
    have hread : b.depth side level.1 = c := congrArg (fun o => Option.getD o 0) hc
    rw [hc, ← hread, hdepth]
  · intro hsome
    have hpos := h.inv.positive side price count hsome
    have hdepth : b.depth side price = count := congrArg (fun o => Option.getD o 0) hsome
    obtain ⟨hnonneg, hhigh⟩ := h.inside side price (by rw [hdepth]; exact ne_of_gt hpos)
    have hcast : (price.toNat : Int) = price := Int.toNat_of_nonneg hnonneg
    have hle : price.toNat ≤ maxPriceE4 := by omega
    refine ⟨(price.toNat, count), mem_ordered.mpr ⟨hle, ?_, hpos⟩, ?_⟩
    · show count = w.count side price.toNat
      rw [h.counts side _ hle, hcast, hdepth]
    · rw [entryOf, hcast]

/-- The levels of a side, best first, are the same. -/
theorem Agrees.levels_eq {b : Tape.Book} {w : Book} (h : Agrees b w) (side : Side) :
    (b.levels side).map wire = w.ordered side := by
  have hsorted : Tape.Book.sortedItems side (b.side side) = (w.ordered side).map entryOf := by
    have hperm := h.entries_perm side
    have hlower : ∀ x y : PriceLevel, x.1 < y.1 → Tape.Book.pairLe (entryOf x) (entryOf y) :=
      fun x y hlt => Or.inl (Int.ofNat_lt.mpr hlt)
    cases side with
    | bid =>
        have : Std.Total fun x y : Int × Int => Tape.Book.pairLe y x :=
          ⟨fun x y => Tape.Book.pairLe_total y x⟩
        have : IsTrans (Int × Int) fun x y => Tape.Book.pairLe y x :=
          ⟨fun _ _ _ h₁ h₂ => Tape.Book.pairLe_trans h₂ h₁⟩
        have : Std.Antisymm fun x y : Int × Int => Tape.Book.pairLe y x :=
          ⟨fun _ _ h₁ h₂ => Tape.Book.pairLe_antisymm h₂ h₁⟩
        refine List.Perm.eq_of_pairwise' (List.pairwise_insertionSort _ _) ?_
          ((List.perm_insertionSort _ _).trans hperm.symm)
        exact List.pairwise_map.mpr ((pairwise_ordered w .bid).imp fun {x y} hlt => hlower y x hlt)
    | ask =>
        have : Std.Total Tape.Book.pairLe := ⟨Tape.Book.pairLe_total⟩
        have : IsTrans (Int × Int) Tape.Book.pairLe := ⟨fun _ _ _ => Tape.Book.pairLe_trans⟩
        have : Std.Antisymm Tape.Book.pairLe := ⟨fun _ _ => Tape.Book.pairLe_antisymm⟩
        refine List.Perm.eq_of_pairwise' (List.pairwise_insertionSort _ _) ?_
          ((List.perm_insertionSort _ _).trans hperm.symm)
        exact List.pairwise_map.mpr ((pairwise_ordered w .ask).imp fun {x y} hlt => hlower x y hlt)
  rw [Tape.Book.levels, hsorted, List.map_map, List.map_map]
  exact List.map_id _

/-- The best price of a side is the first of its levels. -/
theorem best_eq_head {w : Book} (h : w.Cached) (side : Side) :
    w.best side = (w.ordered side).head?.map Prod.fst := by
  rw [h side, scan, ordered, List.head?_map, List.head?_filter, Option.map_map]
  exact (congrFun Option.map_id _).symm

/-- Both sides' best prices are the same. -/
theorem Agrees.best_eq {b : Tape.Book} {w : Book} (h : Agrees b w) :
    b.bestBid = w.bestBid.map Int.ofNat ∧ b.bestAsk = w.bestAsk.map Int.ofNat := by
  have hkeys : ∀ side, ((w.ordered side).map fun level => (level.1 : Int)).Perm
      (b.side side).keys := by
    intro side
    have hperm := (h.entries_perm side).map Prod.fst
    rw [List.map_map] at hperm
    exact hperm
  constructor
  · have hbest : w.bestBid = (w.ordered .bid).head?.map Prod.fst := best_eq_head h.cached .bid
    rw [h.inv.bestBid, hbest]
    have hsorted := pairwise_ordered w .bid
    have hperm := hkeys .bid
    cases hcase : w.ordered .bid with
    | nil =>
        rw [hcase] at hperm
        have hnil : b.bids.keys = [] := List.nil_perm.mp hperm
        rw [hnil]
        rfl
    | cons level rest =>
        rw [hcase] at hperm hsorted
        refine List.max?_eq_some_iff.mpr ⟨hperm.mem_iff.mp List.mem_cons_self, ?_⟩
        intro price hprice
        obtain ⟨other, hother, rfl⟩ := List.mem_map.mp (hperm.mem_iff.mpr hprice)
        rcases List.mem_cons.mp hother with rfl | hrest
        · exact le_refl _
        · have hlt : other.1 < level.1 := List.rel_of_pairwise_cons hsorted hrest
          exact Int.ofNat_le.mpr (le_of_lt hlt)
  · have hbest : w.bestAsk = (w.ordered .ask).head?.map Prod.fst := best_eq_head h.cached .ask
    rw [h.inv.bestAsk, hbest]
    have hsorted := pairwise_ordered w .ask
    have hperm := hkeys .ask
    cases hcase : w.ordered .ask with
    | nil =>
        rw [hcase] at hperm
        have hnil : b.asks.keys = [] := List.nil_perm.mp hperm
        rw [hnil]
        rfl
    | cons level rest =>
        rw [hcase] at hperm hsorted
        refine List.min?_eq_some_iff.mpr ⟨hperm.mem_iff.mp List.mem_cons_self, ?_⟩
        intro price hprice
        obtain ⟨other, hother, rfl⟩ := List.mem_map.mp (hperm.mem_iff.mpr hprice)
        rcases List.mem_cons.mp hother with rfl | hrest
        · exact le_refl _
        · have hlt : level.1 < other.1 := List.rel_of_pairwise_cons hsorted hrest
          exact Int.ofNat_le.mpr (le_of_lt hlt)

/-- `Book.depth` of the server: up to `n` levels of a side, best first. -/
def depth (b : Tape.Book) (side : Side) (n : Nat) : List Level := (b.levels side).take n

/-- The page shows the first levels the server has, unless it is asked for none
of a side that has some: it then shows the best one. -/
theorem Agrees.topLevels_iff {b : Tape.Book} {w : Book} (h : Agrees b w) (side : Side) (n : Nat) :
    w.topLevels side n = (depth b side n).map wire ↔ 0 < n ∨ b.levels side = [] := by
  rw [topLevels_eq h.cached, depth, List.map_take, h.levels_eq]
  have hempty : b.levels side = [] ↔ w.ordered side = [] := by
    rw [← h.levels_eq side, List.map_eq_nil_iff]
  rw [hempty]
  constructor
  · intro heq
    rcases Nat.eq_zero_or_pos n with rfl | hpos
    · rw [List.take_zero, List.take_eq_nil_iff] at heq
      exact .inr (heq.resolve_left (by decide))
    · exact .inl hpos
  · rintro (hpos | hnil)
    · rw [Nat.max_eq_left hpos]
    · rw [hnil, List.take_nil, List.take_nil]

/-- What the page holds of a book the server has: its levels and its best
prices. -/
structure Shows (b : Tape.Book) (w : Book) : Prop where
  counts : ∀ side (price : Nat), price ≤ maxPriceE4 → w.count side price = b.sizeAt side price
  inside : ∀ side, ∀ level ∈ b.levels side, InRange level.price
  bestBid : b.bestBid = w.bestBid.map Int.ofNat
  bestAsk : b.bestAsk = w.bestAsk.map Int.ofNat

theorem Agrees.shows {b : Tape.Book} {w : Book} (h : Agrees b w) : Shows b w where
  counts := h.counts
  inside side level hlevel := by
    have hentry : level.entry ∈ (b.side side).entries :=
      (b.levels_perm side).mem_iff.mp (List.mem_map_of_mem hlevel)
    have hget : (b.side side).get? level.price = some level.count :=
      Dict.get?_eq_some_iff.mpr hentry
    refine h.inside side level.price ?_
    rw [← h.inv.mem_keys_iff]
    exact Dict.mem_keys_of_get? hget
  bestBid := h.best_eq.1
  bestAsk := h.best_eq.2

theorem Accepts.of_append {b : Tape.Book} {seen rest : List BookMessage}
    (h : Accepts b (seen ++ rest)) : Accepts b seen := by
  induction seen generalizing b with
  | nil => trivial
  | cons m seen ih =>
      obtain ⟨hrange, b', hserve, hsmall, hrest⟩ := h
      exact ⟨hrange, b', hserve, hsmall, ih hrest⟩

/-- From a snapshot on, the page never finds a count negative and shows the
server's book after each message; its first `n` levels are the server's unless
`n` is zero and the side has levels. -/
theorem page_shows_server (b : Tape.Book) (w : Book) (bids asks : List Level)
    (tsMs : Option Int) (seen rest : List BookMessage)
    (haccepts : Accepts b (.snapshot bids asks tsMs :: seen ++ rest)) :
    let after := feed b w (.snapshot bids asks tsMs :: seen)
    after.2.2 = true ∧ Shows after.1 after.2.1 ∧
      ∀ side n, after.2.1.topLevels side n = (depth after.1 side n).map wire ↔
        0 < n ∨ after.1.levels side = [] := by
  obtain ⟨hrange, b', hserve, -, hrest⟩ := haccepts
  have hfirst : Agrees b' (view w (.snapshot bids asks tsMs)).1 := agrees_snapshot hrange hserve
  obtain ⟨hagrees, hfine⟩ := agrees_feed hfirst (Accepts.of_append hrest)
  have hfeed : feed b w (.snapshot bids asks tsMs :: seen) =
      feed b' (view w (.snapshot bids asks tsMs)).1 seen := by
    rw [feed, hserve, Option.getD_some]
    rfl
  intro after
  have hafter : after = feed b' (view w (.snapshot bids asks tsMs)).1 seen := hfeed
  rw [hafter]
  exact ⟨hfine, hagrees.shows, hagrees.topLevels_iff⟩

theorem sizeAt_lt_of_entries {b : Tape.Book} {bound : Int} (hpos : 0 < bound)
    (h : ∀ e ∈ b.bids.entries ++ b.asks.entries, e.2 < bound) (side : Side) (price : Int) :
    b.sizeAt side price < bound := by
  show ((b.side side).get? price).getD 0 < bound
  cases hget : (b.side side).get? price with
  | none => exact hpos
  | some count =>
      have hmem := Dict.get?_eq_some_iff.mp hget
      cases side with
      | bid => exact h (price, count) (List.mem_append_left _ hmem)
      | ask => exact h (price, count) (List.mem_append_right _ hmem)

/-- A bid of 1 contract at 0.40 and two asks, of which the better one empties. -/
theorem page_shows_server_emptied :
    let after := feed (Tape.Book.new "M") new
      (.snapshot [⟨4000, 100⟩] [⟨6000, 50⟩, ⟨5500, 20⟩] none :: [.delta .ask 5500 (-20) none])
    after.2.2 = true ∧ Shows after.1 after.2.1 ∧
      ∀ side n, after.2.1.topLevels side n = (depth after.1 side n).map wire ↔
        0 < n ∨ after.1.levels side = [] := by
  refine page_shows_server _ _ _ _ _ _ [] ⟨by decide, _, rfl, ?_, by decide, _, rfl, ?_, trivial⟩
  · exact sizeAt_lt_of_entries (by decide) (by decide)
  · exact sizeAt_lt_of_entries (by decide) (by decide)

/-- Asked for no levels of a side with one bid, the page gives it; the server
gives none. -/
theorem page_shows_unasked :
    let after := feed (Tape.Book.new "M") new [.snapshot [⟨4000, 100⟩] [] none]
    Accepts (Tape.Book.new "M") [.snapshot [⟨4000, 100⟩] [] none] ∧
      after.2.1.topLevels .bid 0 ≠ (depth after.1 .bid 0).map wire := by
  intro after
  have hrange : (BookMessage.snapshot [⟨4000, 100⟩] [] none).InRange := by decide
  have haccepts : Accepts (Tape.Book.new "M") [.snapshot [⟨4000, 100⟩] [] none] :=
    ⟨hrange, _, rfl, sizeAt_lt_of_entries (by decide) (by decide), trivial⟩
  refine ⟨haccepts, fun heq => ?_⟩
  have hagrees : Agrees after.1 after.2.1 := agrees_snapshot hrange rfl
  rcases (hagrees.topLevels_iff .bid 0).mp heq with hpos | hnil
  · exact absurd hpos (lt_irrefl 0)
  · exact absurd hnil (by decide)

end Tape.Web
