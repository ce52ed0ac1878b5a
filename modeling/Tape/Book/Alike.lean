import Tape.Book.Keyframe

/-!
# Books that differ only in how they were written

A dictionary remembers the order in which its keys were set, and nothing that
can be read off a book depends on it. `Alike` is equality of books but for that
order. Every operation keeps it (`Alike.applySnapshot`, `Alike.applyDelta`), a
snapshot even when its levels are listed in another order, and it makes two
books the same for every reader (`Alike.sameContents`).
-/

namespace Tape

namespace Book

/-- Equal but for the order in which the levels were written. -/
structure Alike (a b : Book) : Prop where
  ticker : a.ticker = b.ticker
  side : ∀ s p, (a.side s).get? p = (b.side s).get? p
  bestBid : a.bestBid = b.bestBid
  bestAsk : a.bestAsk = b.bestAsk
  stale : a.stale = b.stale
  lastTsMs : a.lastTsMs = b.lastTsMs

theorem Alike.refl (a : Book) : a.Alike a :=
  ⟨rfl, fun _ _ => rfl, rfl, rfl, rfl, rfl⟩

theorem Alike.trans {a b c : Book} (h : a.Alike b) (h' : b.Alike c) : a.Alike c where
  ticker := h.ticker.trans h'.ticker
  side s p := (h.side s p).trans (h'.side s p)
  bestBid := h.bestBid.trans h'.bestBid
  bestAsk := h.bestAsk.trans h'.bestAsk
  stale := h.stale.trans h'.stale
  lastTsMs := h.lastTsMs.trans h'.lastTsMs

variable {a b : Book}

/-- Every reading of the two books is the same. -/
theorem Alike.sameContents (h : a.Alike b) : a.SameContents b where
  ticker := h.ticker
  levels s := by
    rw [levels, levels, sortedItems_perm (Dict.entries_perm_of_get?_eq (h.side s))]
  bestBid := by
    have hget : ∀ p, a.bids.getD p 0 = b.bids.getD p 0 := fun p =>
      congrArg (fun o : Option Int => o.getD 0) (h.side .bid p)
    simp only [bestBidLevel, h.bestBid, hget]
  bestAsk := by
    have hget : ∀ p, a.asks.getD p 0 = b.asks.getD p 0 := fun p =>
      congrArg (fun o : Option Int => o.getD 0) (h.side .ask p)
    simp only [bestAskLevel, h.bestAsk, hget]
  stale := h.stale
  lastTsMs := h.lastTsMs

theorem Alike.markStale (h : a.Alike b) : a.markStale.Alike b.markStale :=
  { h with stale := rfl }

theorem mem_keys_congr {d e : Dict Int Int} (h : ∀ p, d.get? p = e.get? p) (p : Int) :
    p ∈ d.keys ↔ p ∈ e.keys := by
  rw [Dict.mem_keys_iff, Dict.mem_keys_iff, h]

/-! ## Snapshots -/

/-- A snapshot with its levels in another order does the same. -/
theorem Alike.applySnapshot (h : a.Alike b) {bids bids' asks asks' : List Level}
    (hbids : bids.Perm bids') (hasks : asks.Perm asks') (ts : Option Int) :
    (a.applySnapshot bids asks ts).1.Alike (b.applySnapshot bids' asks' ts).1 := by
  by_cases hv : ValidImage bids asks
  · obtain ⟨hia, hsa, hda, hta, htsa⟩ := applySnapshot_of_valid a ts hv
    obtain ⟨hv', hdepth⟩ := hv.perm hbids hasks
    obtain ⟨hib, hsb, hdb, htb, htsb⟩ := applySnapshot_of_valid b ts hv'
    have hsame : (a.applySnapshot bids asks ts).1.depth =
        (b.applySnapshot bids' asks' ts).1.depth := by rw [hda, hdb, hdepth]
    have hside := fun s => hia.get?_eq hib hsame s
    exact
      { ticker := by rw [hta, htb, h.ticker]
        side := hside
        bestBid := by
          rw [hia.bestBid, hib.bestBid]
          exact max?_congr (mem_keys_congr (hside .bid))
        bestAsk := by
          rw [hia.bestAsk, hib.bestAsk]
          exact min?_congr (mem_keys_congr (hside .ask))
        stale := by rw [hsa, hsb]
        lastTsMs := by rw [htsa, htsb] }
  · have hv' : ¬ ValidImage bids' asks' := fun hv' =>
      hv (hv'.perm hbids.symm hasks.symm).1
    rw [applySnapshot_of_invalid a ts hv, applySnapshot_of_invalid b ts hv']
    exact h.markStale

/-! ## Deltas -/

theorem Alike.setSide (h : a.Alike b) (s : Side) {l l' : Dict Int Int}
    (hl : ∀ p, l.get? p = l'.get? p) : (a.setSide s l).Alike (b.setSide s l') where
  ticker := by rw [setSide_ticker, setSide_ticker, h.ticker]
  side s' p := by
    rw [setSide_side, setSide_side]
    split
    · exact hl p
    · exact h.side s' p
  bestBid := by rw [setSide_bestBid, setSide_bestBid, h.bestBid]
  bestAsk := by rw [setSide_bestAsk, setSide_bestAsk, h.bestAsk]
  stale := by rw [setSide_stale, setSide_stale, h.stale]
  lastTsMs := by
    cases s with
    | bid => exact h.lastTsMs
    | ask => exact h.lastTsMs

theorem Alike.dropBestIfRemoved (h : a.Alike b) (s : Side) (p : Int) :
    (a.dropBestIfRemoved s p).Alike (b.dropBestIfRemoved s p) := by
  cases s with
  | bid =>
      rw [Book.dropBestIfRemoved, Book.dropBestIfRemoved, h.bestBid]
      split
      · exact { h with bestBid := max?_congr (mem_keys_congr (h.side .bid)) }
      · exact h
  | ask =>
      rw [Book.dropBestIfRemoved, Book.dropBestIfRemoved, h.bestAsk]
      split
      · exact { h with bestAsk := min?_congr (mem_keys_congr (h.side .ask)) }
      · exact h

theorem Alike.raiseBestIfBetter (h : a.Alike b) (s : Side) (p : Int) :
    (a.raiseBestIfBetter s p).Alike (b.raiseBestIfBetter s p) := by
  cases s with
  | bid =>
      rw [Book.raiseBestIfBetter, Book.raiseBestIfBetter, h.bestBid]
      cases b.bestBid with
      | none => exact { h with bestBid := rfl }
      | some best =>
          simp only []
          split
          · exact { h with bestBid := rfl }
          · exact h
  | ask =>
      rw [Book.raiseBestIfBetter, Book.raiseBestIfBetter, h.bestAsk]
      cases b.bestAsk with
      | none => exact { h with bestAsk := rfl }
      | some best =>
          simp only []
          split
          · exact { h with bestAsk := rfl }
          · exact h

theorem Alike.writeLevel (h : a.Alike b) (s : Side) (p updated : Int) :
    (a.writeLevel s p updated).Alike (b.writeLevel s p updated) := by
  rw [Book.writeLevel, Book.writeLevel]
  split
  · refine Alike.dropBestIfRemoved (h.setSide s fun q => ?_) s p
    rw [Dict.get?_erase, Dict.get?_erase, h.side]
  · refine Alike.raiseBestIfBetter (h.setSide s fun q => ?_) s p
    rw [Dict.get?_set, Dict.get?_set, h.side]

theorem Alike.applyDelta (h : a.Alike b) (s : Side) (p x : Int) (ts : Option Int) :
    (a.applyDelta s p x ts).1.Alike (b.applyDelta s p x ts).1 := by
  have hcurrent : (a.side s).getD p 0 = (b.side s).getD p 0 :=
    congrArg (fun o : Option Int => o.getD 0) (h.side s p)
  have hwrite := h.writeLevel s p ((b.side s).getD p 0 + x)
  have hcross : crossing (a.writeLevel s p ((b.side s).getD p 0 + x)).bestBid
      (a.writeLevel s p ((b.side s).getD p 0 + x)).bestAsk =
      crossing (b.writeLevel s p ((b.side s).getD p 0 + x)).bestBid
        (b.writeLevel s p ((b.side s).getD p 0 + x)).bestAsk := by
    rw [hwrite.bestBid, hwrite.bestAsk]
  rw [Book.applyDelta, Book.applyDelta, h.stale]
  split
  · exact h
  · dsimp only
    rw [hcurrent]
    split
    · exact h.markStale
    · rw [hcross]
      split
      · exact hwrite.markStale
      · cases ts with
        | none => exact hwrite
        | some ts => exact { hwrite with lastTsMs := rfl }

end Book

end Tape
