import Mathlib
import Tape.Book.Basic

/-!
# What is true of every book

Two things are kept apart here. `Inv` is the representation invariant of a
`Book`: resting counts are positive, the cached best prices are the extremes
of the stored ones, and a book that is not stale is not crossed. It holds of a
new book and every operation keeps it, the raising ones included.

`Depth` is what a book means: the count resting at every price of either side,
zero where there is no level. On that reading a snapshot is the image of its
levels and a delta adds to one point, and under `Inv` the two operations
succeed exactly when the image they aim at is a book at all, which is
`applySnapshot_ok_iff` and `applyDelta_ok_iff`. Nothing after this file looks
at the dictionaries or the cached prices again.
-/

namespace Tape

/-- The count resting at each price of each side. -/
abbrev Depth := Side → Int → Int

namespace Depth

/-- No bid at or above an ask. -/
def Uncrossed (d : Depth) : Prop := ∀ p q, d .bid p ≠ 0 → d .ask q ≠ 0 → p < q

/-- A signed change at one level. -/
def add (d : Depth) (side : Side) (price : Int) (delta : Int) : Depth := fun s p =>
  if side = s ∧ price = p then d s p + delta else d s p

/-- The count the first level at a price gives. -/
def levelAt (price : Int) : List Level → Int
  | [] => 0
  | level :: rest => if level.price = price then level.count else levelAt price rest

/-- The image a snapshot describes. -/
def ofLevels (bids asks : List Level) : Depth := fun s p =>
  match s with
  | .bid => levelAt p bids
  | .ask => levelAt p asks

@[simp] theorem ofLevels_bid (bids asks : List Level) (p : Int) :
    ofLevels bids asks .bid p = levelAt p bids := rfl

@[simp] theorem ofLevels_ask (bids asks : List Level) (p : Int) :
    ofLevels bids asks .ask p = levelAt p asks := rfl

theorem add_zero (d : Depth) (s : Side) (p : Int) : d.add s p 0 = d := by
  funext s' p'
  simp [add]

/-- A change that is not zero shows. -/
theorem add_eq_self_iff {d : Depth} {s : Side} {p : Int} {delta : Int} :
    d.add s p delta = d ↔ delta = 0 := by
  constructor
  · intro h
    have hp := congrFun (congrFun h s) p
    simp only [add, and_self, if_true] at hp
    omega
  · rintro rfl
    exact add_zero d s p

theorem levelAt_of_not_mem {p : Int} {levels : List Level}
    (h : p ∉ levels.map Level.price) : levelAt p levels = 0 := by
  induction levels with
  | nil => rfl
  | cons level rest ih =>
      rw [List.map_cons, List.mem_cons, not_or] at h
      rw [levelAt, if_neg (Ne.symm h.1), ih h.2]

end Depth

/-- What `Book._collect` accepts: positive counts at distinct prices. -/
structure ValidLevels (levels : List Level) : Prop where
  positive : ∀ level ∈ levels, 0 < level.count
  distinct : (levels.map Level.price).Nodup

theorem ValidLevels.perm {levels levels' : List Level} (h : levels.Perm levels')
    (hv : ValidLevels levels) : ValidLevels levels' :=
  ⟨fun l hl => hv.positive l (h.mem_iff.mpr hl), (h.map Level.price).nodup_iff.mp hv.distinct⟩

/-- A level as a dictionary entry. -/
def Level.entry (level : Level) : Int × Int := (level.price, level.count)

theorem map_entry_fst (levels : List Level) :
    (levels.map Level.entry).map Prod.fst = levels.map Level.price := by
  rw [List.map_map]
  rfl

namespace Book

theorem collect_ok {ticker : Ticker} {name : String} {levels : List Level}
    {out d : Dict Int Int} (h : collect ticker name levels out = .ok d) :
    ValidLevels levels ∧ d.entries = out.entries ++ levels.map Level.entry := by
  induction levels generalizing out with
  | nil =>
      obtain rfl := Except.ok.inj h
      exact ⟨⟨by simp, by simp⟩, by simp⟩
  | cons level rest ih =>
      rw [collect] at h
      split at h
      · cases h
      · next hpos =>
          split at h
          · cases h
          · next hnew =>
              obtain ⟨hvalid, hd⟩ := ih h
              rw [Dict.contains_iff] at hnew
              rw [Dict.entries_set_of_not_mem hnew, List.append_assoc] at hd
              have hnodup := d.nodup
              rw [hd, List.map_append, List.singleton_append, List.map_cons, map_entry_fst]
                at hnodup
              have hcons := (List.nodup_append.mp hnodup).2.1
              refine ⟨⟨?_, hcons⟩, hd⟩
              intro l hl
              rcases List.mem_cons.mp hl with rfl | hmem
              · omega
              · exact hvalid.positive l hmem

theorem collect_of_valid (ticker : Ticker) (name : String) {levels : List Level}
    (out : Dict Int Int) (hv : ValidLevels levels)
    (hout : ∀ level ∈ levels, level.price ∉ out.keys) :
    ∃ d, collect ticker name levels out = .ok d := by
  induction levels generalizing out with
  | nil => exact ⟨out, rfl⟩
  | cons level rest ih =>
      have hpos := hv.positive level List.mem_cons_self
      have hnodup := List.nodup_cons.mp hv.distinct
      have hnew := hout level List.mem_cons_self
      rw [collect, if_neg (by omega), if_neg (by simpa using hnew)]
      refine ih _ ⟨fun l hl => hv.positive l (List.mem_cons_of_mem _ hl), hnodup.2⟩ ?_
      intro l hl hmem
      rcases Dict.mem_keys_set.mp hmem with heq | hkeys
      · exact hnodup.1 (heq ▸ List.mem_map_of_mem hl)
      · exact hout l (List.mem_cons_of_mem _ hl) hkeys

/-- The dictionary `Book._collect` builds from acceptable levels. -/
theorem collect_empty_ok_iff {ticker : Ticker} {name : String} {levels : List Level}
    {d : Dict Int Int} :
    collect ticker name levels ∅ = .ok d ↔
      ValidLevels levels ∧ d.entries = levels.map Level.entry := by
  constructor
  · intro h
    obtain ⟨hv, hd⟩ := collect_ok h
    exact ⟨hv, hd⟩
  · rintro ⟨hv, hd⟩
    obtain ⟨d', hd'⟩ := collect_of_valid ticker name ∅ hv
      (fun _ _ => by simp [Dict.keys, EmptyCollection.emptyCollection, Dict.empty])
    rw [hd']
    congr 1
    ext1
    rw [(collect_ok hd').2, hd]
    rfl

theorem lookup_map_entry (p : Int) (levels : List Level) :
    (Dict.lookup p (levels.map Level.entry)).getD 0 = Depth.levelAt p levels := by
  induction levels with
  | nil => rfl
  | cons level rest ih =>
      rw [List.map_cons, Level.entry, Dict.lookup, Depth.levelAt]
      split
      · rfl
      · exact ih

/-- The book as a depth. -/
def depth (b : Book) : Depth := b.sizeAt

@[simp] theorem depth_markStale (b : Book) : b.markStale.depth = b.depth := by
  funext s p
  exact markStale_sizeAt b s p

/-- The representation invariant. -/
structure Inv (b : Book) : Prop where
  positive : ∀ s p c, (b.side s).get? p = some c → 0 < c
  bestBid : b.bestBid = b.bids.keys.max?
  bestAsk : b.bestAsk = b.asks.keys.min?
  uncrossed : b.stale = false → crossing b.bestBid b.bestAsk = none

theorem inv_new (ticker : Ticker) : (new ticker).Inv where
  positive s p c h := by cases s <;> cases h
  bestBid := rfl
  bestAsk := rfl
  uncrossed h := by cases h

theorem Inv.markStale {b : Book} (hi : b.Inv) : b.markStale.Inv where
  positive s p c h := hi.positive s p c (by rwa [markStale_side] at h)
  bestBid := hi.bestBid
  bestAsk := hi.bestAsk
  uncrossed h := by cases h

theorem Inv.mem_keys_iff {b : Book} (hi : b.Inv) {s : Side} {p : Int} :
    p ∈ (b.side s).keys ↔ b.depth s p ≠ 0 := by
  rw [Dict.mem_keys_iff]
  show _ ↔ ((b.side s).get? p).getD 0 ≠ 0
  constructor
  · rintro ⟨c, hc⟩
    rw [hc]
    exact ne_of_gt (hi.positive s p c hc)
  · intro h
    cases hc : (b.side s).get? p with
    | none => rw [hc] at h; exact absurd rfl h
    | some c => exact ⟨c, rfl⟩

/-- Two sides with the same counts are the same dictionary, up to order. -/
theorem Inv.get?_eq {a b : Book} (ha : a.Inv) (hb : b.Inv) (h : a.depth = b.depth)
    (s : Side) (p : Int) : (a.side s).get? p = (b.side s).get? p := by
  have hsize : ((a.side s).get? p).getD 0 = ((b.side s).get? p).getD 0 :=
    congrFun (congrFun h s) p
  cases hca : (a.side s).get? p with
  | none =>
      cases hcb : (b.side s).get? p with
      | none => rfl
      | some c =>
          have := hb.positive s p c hcb
          rw [hca, hcb] at hsize
          simp only [Option.getD_none, Option.getD_some] at hsize
          omega
  | some c =>
      cases hcb : (b.side s).get? p with
      | none =>
          have := ha.positive s p c hca
          rw [hca, hcb] at hsize
          simp only [Option.getD_none, Option.getD_some] at hsize
          omega
      | some c' =>
          rw [hca, hcb] at hsize
          rw [show c = c' from hsize]

theorem crossing_eq_none_iff {bid ask : Option Int} :
    crossing bid ask = none ↔ ∀ p q, bid = some p → ask = some q → p < q := by
  cases bid with
  | none => simp [crossing]
  | some p =>
      cases ask with
      | none => simp [crossing]
      | some q => simp [crossing]

/-- The check on the cached best prices is the check on every pair of levels. -/
theorem crossing_keys_iff {bids asks : List Int} :
    crossing bids.max? asks.min? = none ↔ ∀ p ∈ bids, ∀ q ∈ asks, p < q := by
  rw [crossing_eq_none_iff]
  constructor
  · intro h p hp q hq
    obtain ⟨bid, hbid⟩ := Option.isSome_iff_exists.mp
      (List.isSome_max?_iff.mpr (List.ne_nil_of_mem hp))
    obtain ⟨ask, hask⟩ := Option.isSome_iff_exists.mp
      (List.isSome_min?_iff.mpr (List.ne_nil_of_mem hq))
    have hle := (List.max?_eq_some_iff.mp hbid).2 p hp
    have hge := (List.min?_eq_some_iff.mp hask).2 q hq
    have hlt := h bid ask hbid hask
    omega
  · intro h p q hp hq
    exact h p (List.max?_mem hp) q (List.min?_mem hq)

theorem Inv.crossing_iff {b : Book} (hi : b.Inv) :
    crossing b.bestBid b.bestAsk = none ↔ b.depth.Uncrossed := by
  rw [hi.bestBid, hi.bestAsk, crossing_keys_iff]
  constructor
  · exact fun h p q hp hq =>
      h p ((hi.mem_keys_iff (s := .bid)).mpr hp) q ((hi.mem_keys_iff (s := .ask)).mpr hq)
  · exact fun h p hp q hq =>
      h p q ((hi.mem_keys_iff (s := .bid)).mp hp) ((hi.mem_keys_iff (s := .ask)).mp hq)

/-! ## Snapshots -/

/-- Everything a snapshot can do: replace the book, or leave it stale. -/
theorem applySnapshot_cases (b : Book) (bids asks : List Level) (ts : Option Int) :
    (∃ b', b.applySnapshot bids asks ts = (b', .ok ()) ∧ b'.Inv ∧ b'.stale = false ∧
        b'.ticker = b.ticker ∧ b'.lastTsMs = ts ∧
        b'.bids.entries = bids.map Level.entry ∧ b'.asks.entries = asks.map Level.entry ∧
        ValidLevels bids ∧ ValidLevels asks) ∨
      (∃ e, b.applySnapshot bids asks ts = (b.markStale, .error e)) := by
  rw [applySnapshot]
  cases hbids : collect b.ticker "bid" bids ∅ with
  | error e => exact .inr ⟨e, rfl⟩
  | ok newBids =>
      cases hasks : collect b.ticker "ask" asks ∅ with
      | error e => exact .inr ⟨e, rfl⟩
      | ok newAsks =>
          obtain ⟨hvb, heb⟩ := collect_empty_ok_iff.mp hbids
          obtain ⟨hva, hea⟩ := collect_empty_ok_iff.mp hasks
          simp only []
          cases hcross : crossing newBids.keys.max? newAsks.keys.min? with
          | some pq => exact .inr ⟨_, rfl⟩
          | none =>
              refine .inl ⟨_, rfl, ⟨?_, rfl, rfl, fun _ => hcross⟩, rfl, rfl, rfl, heb, hea,
                hvb, hva⟩
              intro s p c h
              cases s with
              | bid =>
                  have hmem : (p, c) ∈ newBids.entries := Dict.get?_eq_some_iff.mp h
                  rw [heb] at hmem
                  obtain ⟨l, hl, he⟩ := List.mem_map.mp hmem
                  obtain ⟨rfl, rfl⟩ := Prod.mk.inj he
                  exact hvb.positive l hl
              | ask =>
                  have hmem : (p, c) ∈ newAsks.entries := Dict.get?_eq_some_iff.mp h
                  rw [hea] at hmem
                  obtain ⟨l, hl, he⟩ := List.mem_map.mp hmem
                  obtain ⟨rfl, rfl⟩ := Prod.mk.inj he
                  exact hva.positive l hl

theorem depth_of_entries {b : Book} {bids asks : List Level}
    (hb : b.bids.entries = bids.map Level.entry)
    (ha : b.asks.entries = asks.map Level.entry) : b.depth = Depth.ofLevels bids asks := by
  funext s p
  cases s with
  | bid =>
      show (Dict.lookup p b.bids.entries).getD 0 = _
      rw [hb]
      exact lookup_map_entry p bids
  | ask =>
      show (Dict.lookup p b.asks.entries).getD 0 = _
      rw [ha]
      exact lookup_map_entry p asks

/-- A snapshot a book can hold. -/
structure ValidImage (bids asks : List Level) : Prop where
  validBids : ValidLevels bids
  validAsks : ValidLevels asks
  uncrossed : (Depth.ofLevels bids asks).Uncrossed

theorem levelAt_perm {levels levels' : List Level} (h : levels.Perm levels')
    (hv : ValidLevels levels) (p : Int) :
    Depth.levelAt p levels = Depth.levelAt p levels' := by
  have hperm := h.map Level.entry
  have hnodup : ((levels.map Level.entry).map Prod.fst).Nodup := by
    rw [map_entry_fst]
    exact hv.distinct
  have hget := Dict.get?_eq_of_entries_perm (d := ⟨_, hnodup⟩)
    (e := ⟨_, (hperm.map Prod.fst).nodup_iff.mp hnodup⟩) hperm p
  rw [← lookup_map_entry, ← lookup_map_entry]
  exact congrArg (fun o : Option Int => o.getD 0) hget

/-- The order of the levels plays no role. -/
theorem ValidImage.perm {bids bids' asks asks' : List Level} (hb : bids.Perm bids')
    (ha : asks.Perm asks') (hv : ValidImage bids asks) :
    ValidImage bids' asks' ∧ Depth.ofLevels bids asks = Depth.ofLevels bids' asks' := by
  have hdepth : Depth.ofLevels bids asks = Depth.ofLevels bids' asks' := by
    funext s p
    cases s with
    | bid => exact levelAt_perm hb hv.validBids p
    | ask => exact levelAt_perm ha hv.validAsks p
  exact ⟨⟨hv.validBids.perm hb, hv.validAsks.perm ha, hdepth ▸ hv.uncrossed⟩, hdepth⟩

theorem applySnapshot_ok_iff (b : Book) {bids asks : List Level} (ts : Option Int) :
    (b.applySnapshot bids asks ts).2 = .ok () ↔ ValidImage bids asks := by
  constructor
  · intro h
    rcases applySnapshot_cases b bids asks ts with
      ⟨b', heq, hi, hfresh, -, -, hb, ha, hvb, hva⟩ | ⟨e, heq⟩
    · refine ⟨hvb, hva, ?_⟩
      rw [← depth_of_entries hb ha]
      exact hi.crossing_iff.mp (hi.uncrossed hfresh)
    · rw [heq] at h; cases h
  · rintro ⟨hvb, hva, hun⟩
    obtain ⟨newBids, hbids⟩ := collect_of_valid b.ticker "bid" ∅ hvb
      (by simp [Dict.keys, EmptyCollection.emptyCollection, Dict.empty])
    obtain ⟨newAsks, hasks⟩ := collect_of_valid b.ticker "ask" ∅ hva
      (by simp [Dict.keys, EmptyCollection.emptyCollection, Dict.empty])
    have heb := (collect_empty_ok_iff.mp hbids).2
    have hea := (collect_empty_ok_iff.mp hasks).2
    have hcross : crossing newBids.keys.max? newAsks.keys.min? = none := by
      rw [crossing_keys_iff]
      intro p hp q hq
      rw [Dict.keys, heb, map_entry_fst] at hp
      rw [Dict.keys, hea, map_entry_fst] at hq
      refine hun p q ?_ ?_
      · rw [Depth.ofLevels_bid]
        obtain ⟨l, hl, rfl⟩ := List.mem_map.mp hp
        exact levelAt_ne_zero hvb hl
      · rw [Depth.ofLevels_ask]
        obtain ⟨l, hl, rfl⟩ := List.mem_map.mp hq
        exact levelAt_ne_zero hva hl
    rw [applySnapshot, hbids]
    simp only []
    rw [hasks]
    simp only []
    rw [hcross]
where
  /-- A listed price has a count. -/
  levelAt_ne_zero {levels : List Level} (hv : ValidLevels levels) {l : Level}
      (hl : l ∈ levels) : Depth.levelAt l.price levels ≠ 0 := by
    have hlook : Dict.lookup l.price (levels.map Level.entry) = some l.count :=
      Dict.lookup_of_mem (by rw [map_entry_fst]; exact hv.distinct)
        (List.mem_map.mpr ⟨l, hl, rfl⟩)
    rw [← lookup_map_entry, hlook]
    exact ne_of_gt (hv.positive l hl)

/-- What the book is after a snapshot it can hold. -/
theorem applySnapshot_of_valid (b : Book) {bids asks : List Level} (ts : Option Int)
    (hv : ValidImage bids asks) :
    (b.applySnapshot bids asks ts).1.Inv ∧ (b.applySnapshot bids asks ts).1.stale = false ∧
      (b.applySnapshot bids asks ts).1.depth = Depth.ofLevels bids asks ∧
      (b.applySnapshot bids asks ts).1.ticker = b.ticker ∧
      (b.applySnapshot bids asks ts).1.lastTsMs = ts := by
  have hok := (applySnapshot_ok_iff b ts).mpr hv
  rcases applySnapshot_cases b bids asks ts with
    ⟨b', heq, hi, hfresh, ht, hts, hb, ha, -, -⟩ | ⟨e, heq⟩
  · rw [heq]
    exact ⟨hi, hfresh, depth_of_entries hb ha, ht, hts⟩
  · rw [heq] at hok; cases hok

/-- A snapshot the book refuses leaves it stale and otherwise as it was. -/
theorem applySnapshot_of_invalid (b : Book) {bids asks : List Level} (ts : Option Int)
    (hv : ¬ ValidImage bids asks) : (b.applySnapshot bids asks ts).1 = b.markStale := by
  rcases applySnapshot_cases b bids asks ts with ⟨b', heq, -⟩ | ⟨e, heq⟩
  · refine absurd ?_ hv
    rw [← applySnapshot_ok_iff b ts, heq]
  · rw [heq]

theorem Inv.applySnapshot {b : Book} (hi : b.Inv) (bids asks : List Level)
    (ts : Option Int) : (b.applySnapshot bids asks ts).1.Inv := by
  by_cases hv : ValidImage bids asks
  · exact (applySnapshot_of_valid b ts hv).1
  · rw [applySnapshot_of_invalid b ts hv]
    exact hi.markStale

/-! ## Deltas -/

@[simp] theorem dropBestIfRemoved_side (b : Book) (s s' : Side) (p : Int) :
    (b.dropBestIfRemoved s p).side s' = b.side s' := by
  cases s <;> rw [dropBestIfRemoved] <;> split <;> cases s' <;> rfl

@[simp] theorem raiseBestIfBetter_side (b : Book) (s s' : Side) (p : Int) :
    (b.raiseBestIfBetter s p).side s' = b.side s' := by
  cases s <;> rw [raiseBestIfBetter] <;> (try split) <;> (try split) <;> cases s' <;> rfl

@[simp] theorem dropBestIfRemoved_stale (b : Book) (s : Side) (p : Int) :
    (b.dropBestIfRemoved s p).stale = b.stale := by
  cases s <;> rw [dropBestIfRemoved] <;> split <;> rfl

@[simp] theorem raiseBestIfBetter_stale (b : Book) (s : Side) (p : Int) :
    (b.raiseBestIfBetter s p).stale = b.stale := by
  cases s <;> rw [raiseBestIfBetter] <;> (try split) <;> (try split) <;> rfl

@[simp] theorem dropBestIfRemoved_ticker (b : Book) (s : Side) (p : Int) :
    (b.dropBestIfRemoved s p).ticker = b.ticker := by
  cases s <;> rw [dropBestIfRemoved] <;> split <;> rfl

@[simp] theorem raiseBestIfBetter_ticker (b : Book) (s : Side) (p : Int) :
    (b.raiseBestIfBetter s p).ticker = b.ticker := by
  cases s <;> rw [raiseBestIfBetter] <;> (try split) <;> (try split) <;> rfl

theorem writeLevel_side (b : Book) (s s' : Side) (p : Int) (u : Int) :
    (b.writeLevel s p u).side s' =
      if s = s' then (if u = 0 then (b.side s).erase p else (b.side s).set p u)
      else b.side s' := by
  rw [writeLevel]
  split
  · rw [dropBestIfRemoved_side, setSide_side]
  · rw [raiseBestIfBetter_side, setSide_side]

@[simp] theorem writeLevel_stale (b : Book) (s : Side) (p : Int) (u : Int) :
    (b.writeLevel s p u).stale = b.stale := by
  rw [writeLevel]
  split <;> simp

@[simp] theorem writeLevel_ticker (b : Book) (s : Side) (p : Int) (u : Int) :
    (b.writeLevel s p u).ticker = b.ticker := by
  rw [writeLevel]
  split <;> simp

theorem writeLevel_get? (b : Book) (s s' : Side) (p p' : Int) (u : Int) :
    ((b.writeLevel s p u).side s').get? p' =
      if s = s' ∧ p = p' then (if u = 0 then none else some u) else (b.side s').get? p' := by
  rw [writeLevel_side]
  by_cases hs : s = s'
  · subst hs
    rw [if_pos rfl]
    by_cases hu : u = 0
    · rw [if_pos hu, Dict.get?_erase, if_pos hu]
      simp
    · rw [if_neg hu, Dict.get?_set, if_neg hu]
      simp
  · rw [if_neg hs, if_neg (fun h => hs h.1)]

theorem writeLevel_depth (b : Book) (s : Side) (p : Int) (delta : Int) :
    (b.writeLevel s p (b.depth s p + delta)).depth = b.depth.add s p delta := by
  funext s' p'
  show (((b.writeLevel s p (b.depth s p + delta)).side s').get? p').getD 0 = _
  rw [writeLevel_get?, Depth.add]
  by_cases h : s = s' ∧ p = p'
  · obtain ⟨rfl, rfl⟩ := h
    simp only [and_self, if_true]
    by_cases hz : b.depth s p + delta = 0
    · rw [if_pos hz, hz]
      rfl
    · rw [if_neg hz]
      rfl
  · rw [if_neg h, if_neg h]
    rfl

theorem max?_of_insert {keys keys' : List Int} {p : Int}
    (h : ∀ q, q ∈ keys' ↔ q = p ∨ q ∈ keys) :
    keys'.max? = some (match keys.max? with | none => p | some m => if p > m then p else m) := by
  rw [List.max?_eq_some_iff]
  cases hm : keys.max? with
  | none =>
      rw [List.max?_eq_none_iff] at hm
      subst hm
      refine ⟨(h p).mpr (.inl rfl), fun q hq => ?_⟩
      rcases (h q).mp hq with rfl | hmem
      · exact le_refl q
      · cases hmem
  | some m =>
      obtain ⟨hmem, hle⟩ := List.max?_eq_some_iff.mp hm
      simp only []
      split
      · refine ⟨(h p).mpr (.inl rfl), fun q hq => ?_⟩
        rcases (h q).mp hq with rfl | hq
        · exact le_refl q
        · have := hle q hq; omega
      · refine ⟨(h m).mpr (.inr hmem), fun q hq => ?_⟩
        rcases (h q).mp hq with rfl | hq
        · omega
        · exact hle q hq

theorem min?_of_insert {keys keys' : List Int} {p : Int}
    (h : ∀ q, q ∈ keys' ↔ q = p ∨ q ∈ keys) :
    keys'.min? = some (match keys.min? with | none => p | some m => if p < m then p else m) := by
  rw [List.min?_eq_some_iff]
  cases hm : keys.min? with
  | none =>
      rw [List.min?_eq_none_iff] at hm
      subst hm
      refine ⟨(h p).mpr (.inl rfl), fun q hq => ?_⟩
      rcases (h q).mp hq with rfl | hmem
      · exact le_refl q
      · cases hmem
  | some m =>
      obtain ⟨hmem, hle⟩ := List.min?_eq_some_iff.mp hm
      simp only []
      split
      · refine ⟨(h p).mpr (.inl rfl), fun q hq => ?_⟩
        rcases (h q).mp hq with rfl | hq
        · exact le_refl q
        · have := hle q hq; omega
      · refine ⟨(h m).mpr (.inr hmem), fun q hq => ?_⟩
        rcases (h q).mp hq with rfl | hq
        · omega
        · exact hle q hq

/-- A best price that is not the removed one survives the removal. -/
theorem max?_of_erase {keys keys' : List Int} {p : Int}
    (h : ∀ q, q ∈ keys' ↔ q ∈ keys ∧ q ≠ p) (hp : keys.max? ≠ some p) :
    keys'.max? = keys.max? := by
  cases hm : keys.max? with
  | none =>
      rw [List.max?_eq_none_iff] at hm
      subst hm
      rw [List.max?_eq_none_iff, List.eq_nil_iff_forall_not_mem]
      exact fun q hq => by cases ((h q).mp hq).1
  | some m =>
      obtain ⟨hmem, hle⟩ := List.max?_eq_some_iff.mp hm
      have hmp : m ≠ p := by rintro rfl; exact hp hm
      exact List.max?_eq_some_iff.mpr
        ⟨(h m).mpr ⟨hmem, hmp⟩, fun q hq => hle q ((h q).mp hq).1⟩

theorem min?_of_erase {keys keys' : List Int} {p : Int}
    (h : ∀ q, q ∈ keys' ↔ q ∈ keys ∧ q ≠ p) (hp : keys.min? ≠ some p) :
    keys'.min? = keys.min? := by
  cases hm : keys.min? with
  | none =>
      rw [List.min?_eq_none_iff] at hm
      subst hm
      rw [List.min?_eq_none_iff, List.eq_nil_iff_forall_not_mem]
      exact fun q hq => by cases ((h q).mp hq).1
  | some m =>
      obtain ⟨hmem, hle⟩ := List.min?_eq_some_iff.mp hm
      have hmp : m ≠ p := by rintro rfl; exact hp hm
      exact List.min?_eq_some_iff.mpr
        ⟨(h m).mpr ⟨hmem, hmp⟩, fun q hq => hle q ((h q).mp hq).1⟩

/-- Writing a level keeps the cached best prices true. -/
theorem writeLevel_best {b : Book} (hb : b.bestBid = b.bids.keys.max?)
    (ha : b.bestAsk = b.asks.keys.min?) (s : Side) (p : Int) (u : Int) :
    (b.writeLevel s p u).bestBid = (b.writeLevel s p u).bids.keys.max? ∧
      (b.writeLevel s p u).bestAsk = (b.writeLevel s p u).asks.keys.min? := by
  rw [writeLevel]
  by_cases hu : u = 0
  · rw [if_pos hu]
    cases s with
    | bid =>
        rw [dropBestIfRemoved]
        split
        · exact ⟨rfl, ha⟩
        · next hne =>
            refine ⟨?_, ha⟩
            rw [setSide_bestBid, hb] at hne
            rw [setSide_bestBid, hb]
            exact (max?_of_erase (fun q => Dict.mem_keys_erase) hne).symm
    | ask =>
        rw [dropBestIfRemoved]
        split
        · exact ⟨hb, rfl⟩
        · next hne =>
            refine ⟨hb, ?_⟩
            rw [setSide_bestAsk, ha] at hne
            rw [setSide_bestAsk, ha]
            exact (min?_of_erase (fun q => Dict.mem_keys_erase) hne).symm
  · rw [if_neg hu]
    cases s with
    | bid =>
        have hmax := max?_of_insert fun q =>
          (Dict.mem_keys_set : q ∈ (b.bids.set p u).keys ↔ q = p ∨ q ∈ b.bids.keys)
        rw [raiseBestIfBetter, setSide_bestBid]
        rw [← hb] at hmax
        cases hbest : b.bestBid with
        | none => rw [hbest] at hmax; exact ⟨hmax.symm, ha⟩
        | some m =>
            rw [hbest] at hmax
            simp only [] at hmax ⊢
            split
            · next hgt => rw [if_pos hgt] at hmax; exact ⟨hmax.symm, ha⟩
            · next hgt => rw [if_neg hgt] at hmax; exact ⟨hbest.trans hmax.symm, ha⟩
    | ask =>
        have hmin := min?_of_insert fun q =>
          (Dict.mem_keys_set : q ∈ (b.asks.set p u).keys ↔ q = p ∨ q ∈ b.asks.keys)
        rw [raiseBestIfBetter, setSide_bestAsk]
        rw [← ha] at hmin
        cases hbest : b.bestAsk with
        | none => rw [hbest] at hmin; exact ⟨hb, hmin.symm⟩
        | some m =>
            rw [hbest] at hmin
            simp only [] at hmin ⊢
            split
            · next hlt => rw [if_pos hlt] at hmin; exact ⟨hb, hmin.symm⟩
            · next hlt => rw [if_neg hlt] at hmin; exact ⟨hb, hbest.trans hmin.symm⟩

/-- What holds after the level is written, before the crossing check. -/
theorem Inv.writeLevel {b : Book} (hi : b.Inv) {s : Side} {p : Int} {u : Int}
    (hu : 0 ≤ u) : (b.writeLevel s p u).markStale.Inv := by
  obtain ⟨hbid, hask⟩ := writeLevel_best hi.bestBid hi.bestAsk s p u
  refine ⟨?_, hbid, hask, fun h => by cases h⟩
  intro s' p' c h
  rw [markStale_side, writeLevel_get?] at h
  split at h
  · split at h
    · cases h
    · obtain rfl := Option.some.inj h
      omega
  · exact hi.positive s' p' c h

/-- The last exchange time after a delta that was applied. -/
def withTs (b : Book) : Option Int → Book
  | none => b
  | some ts => { b with lastTsMs := some ts }

@[simp] theorem withTs_side (b : Book) (ts : Option Int) (s : Side) :
    (b.withTs ts).side s = b.side s := by cases ts <;> cases s <;> rfl
@[simp] theorem withTs_stale (b : Book) (ts : Option Int) : (b.withTs ts).stale = b.stale := by
  cases ts <;> rfl
@[simp] theorem withTs_ticker (b : Book) (ts : Option Int) :
    (b.withTs ts).ticker = b.ticker := by cases ts <;> rfl
@[simp] theorem withTs_depth (b : Book) (ts : Option Int) : (b.withTs ts).depth = b.depth := by
  cases ts <;> rfl

/-- Everything a delta can do. A book that crossed keeps the level that
crossed it; one that would go negative keeps the level it had. -/
theorem applyDelta_cases (b : Book) (s : Side) (p : Int) (delta : Int) (ts : Option Int) :
    (b.stale = true ∧ b.applyDelta s p delta ts = (b, .ok false)) ∨
      (b.stale = false ∧ b.depth s p + delta < 0 ∧
        ∃ e, b.applyDelta s p delta ts = (b.markStale, .error e)) ∨
      (b.stale = false ∧ 0 ≤ b.depth s p + delta ∧
        (∃ e, b.applyDelta s p delta ts =
          ((b.writeLevel s p (b.depth s p + delta)).markStale, .error e)) ∧
        crossing (b.writeLevel s p (b.depth s p + delta)).bestBid
          (b.writeLevel s p (b.depth s p + delta)).bestAsk ≠ none) ∨
      (b.stale = false ∧ 0 ≤ b.depth s p + delta ∧
        b.applyDelta s p delta ts =
          ((b.writeLevel s p (b.depth s p + delta)).withTs ts, .ok true) ∧
        crossing (b.writeLevel s p (b.depth s p + delta)).bestBid
          (b.writeLevel s p (b.depth s p + delta)).bestAsk = none) := by
  rw [applyDelta]
  show _ ∨ (_ ∧ (b.side s).getD p 0 + delta < 0 ∧ _) ∨ _
  cases hstale : b.stale with
  | true => exact .inl ⟨rfl, rfl⟩
  | false =>
      refine .inr ?_
      rw [if_neg (by simp)]
      show _ ∨ (_ ∧ 0 ≤ (b.side s).getD p 0 + delta ∧ _) ∨ _
      by_cases hneg : (b.side s).getD p 0 + delta < 0
      · exact .inl ⟨rfl, hneg, _, if_pos hneg⟩
      · refine .inr ?_
        simp only [if_neg hneg]
        cases hcross : crossing
            (b.writeLevel s p ((b.side s).getD p 0 + delta)).bestBid
            (b.writeLevel s p ((b.side s).getD p 0 + delta)).bestAsk with
        | some pq =>
            refine .inl ⟨trivial, Int.not_lt.mp hneg, ⟨_, rfl⟩, ?_⟩
            show crossing (b.writeLevel s p ((b.side s).getD p 0 + delta)).bestBid
              (b.writeLevel s p ((b.side s).getD p 0 + delta)).bestAsk ≠ none
            rw [hcross]
            exact Option.some_ne_none pq
        | none =>
            refine .inr ⟨trivial, Int.not_lt.mp hneg, ?_, hcross⟩
            cases ts <;> rfl

/-- The condition under which a delta is applied, on the depth alone. -/
structure Fits (d : Depth) (s : Side) (p : Int) (delta : Int) : Prop where
  nonneg : 0 ≤ d s p + delta
  uncrossed : (d.add s p delta).Uncrossed

theorem Inv.writeLevel_crossing_iff {b : Book} (hi : b.Inv) {s : Side} {p : Int}
    {delta : Int} (hn : 0 ≤ b.depth s p + delta) :
    crossing (b.writeLevel s p (b.depth s p + delta)).bestBid
        (b.writeLevel s p (b.depth s p + delta)).bestAsk = none ↔
      (b.depth.add s p delta).Uncrossed := by
  have h := (hi.writeLevel (s := s) (p := p) hn).crossing_iff
  rw [depth_markStale, writeLevel_depth] at h
  exact h

theorem applyDelta_of_stale {b : Book} (h : b.stale = true) (s : Side) (p : Int)
    (delta : Int) (ts : Option Int) : b.applyDelta s p delta ts = (b, .ok false) := by
  rw [applyDelta, if_pos h]

/-- A fresh book takes the deltas that fit, and adds them. -/
theorem Inv.applyDelta_of_fits {b : Book} (hi : b.Inv) (hf : b.stale = false)
    {s : Side} {p : Int} {delta : Int} (hfit : Fits b.depth s p delta) (ts : Option Int) :
    ∃ b', b.applyDelta s p delta ts = (b', .ok true) ∧ b'.Inv ∧ b'.stale = false ∧
      b'.depth = b.depth.add s p delta ∧ b'.ticker = b.ticker := by
  have hcross := (hi.writeLevel_crossing_iff hfit.nonneg).mpr hfit.uncrossed
  rcases applyDelta_cases b s p delta ts with
    ⟨hs, -⟩ | ⟨-, hneg, -⟩ | ⟨-, -, -, hc⟩ | ⟨-, -, heq, -⟩
  · rw [hf] at hs; cases hs
  · exact absurd hfit.nonneg (not_le.mpr hneg)
  · exact absurd hcross hc
  · refine ⟨_, heq, ⟨?_, ?_, ?_, ?_⟩, ?_, ?_, ?_⟩
    · intro s' p' c h
      rw [withTs_side] at h
      exact (hi.writeLevel (s := s) (p := p) hfit.nonneg).positive s' p' c
        (by rwa [markStale_side])
    · have h := (hi.writeLevel (s := s) (p := p) hfit.nonneg).bestBid
      cases ts <;> exact h
    · have h := (hi.writeLevel (s := s) (p := p) hfit.nonneg).bestAsk
      cases ts <;> exact h
    · intro _
      cases ts <;> exact hcross
    · rw [withTs_stale, writeLevel_stale, hf]
    · rw [withTs_depth, writeLevel_depth]
    · rw [withTs_ticker, writeLevel_ticker]

/-- A fresh book refuses every other delta, and is stale after it. -/
theorem Inv.applyDelta_of_not_fits {b : Book} (hi : b.Inv) (hf : b.stale = false)
    {s : Side} {p : Int} {delta : Int} (hfit : ¬ Fits b.depth s p delta) (ts : Option Int) :
    ∃ b' e, b.applyDelta s p delta ts = (b', .error e) ∧ b'.Inv ∧ b'.stale = true ∧
      (b'.depth = b.depth ∨
        0 ≤ b.depth s p + delta ∧ b'.depth = b.depth.add s p delta ∧ ¬ b'.depth.Uncrossed) ∧
      b'.ticker = b.ticker := by
  rcases applyDelta_cases b s p delta ts with
    ⟨hs, -⟩ | ⟨-, -, e, heq⟩ | ⟨-, hn, ⟨e, heq⟩, hc⟩ | ⟨-, hn, -, hc⟩
  · rw [hf] at hs; cases hs
  · exact ⟨_, e, heq, hi.markStale, rfl, .inl (depth_markStale b), rfl⟩
  · refine ⟨_, e, heq, hi.writeLevel hn, rfl, .inr ⟨hn, ?_, ?_⟩, writeLevel_ticker b s p _⟩
    · rw [depth_markStale, writeLevel_depth]
    · rw [depth_markStale, writeLevel_depth, ← hi.writeLevel_crossing_iff hn]
      exact hc
  · exact absurd ⟨hn, (hi.writeLevel_crossing_iff hn).mp hc⟩ hfit

theorem Inv.applyDelta_ok_iff {b : Book} (hi : b.Inv) {s : Side} {p : Int} {delta : Int}
    {ts : Option Int} : (b.applyDelta s p delta ts).2 = .ok true ↔
      b.stale = false ∧ Fits b.depth s p delta := by
  cases hf : b.stale with
  | true => rw [applyDelta_of_stale hf]; simp
  | false =>
      by_cases hfit : Fits b.depth s p delta
      · obtain ⟨b', heq, -⟩ := hi.applyDelta_of_fits hf hfit ts
        rw [heq]
        exact iff_of_true rfl ⟨rfl, hfit⟩
      · obtain ⟨b', e, heq, -⟩ := hi.applyDelta_of_not_fits hf hfit ts
        rw [heq]
        exact iff_of_false (by simp) (fun h => hfit h.2)

theorem Inv.applyDelta {b : Book} (hi : b.Inv) (s : Side) (p : Int) (delta : Int)
    (ts : Option Int) : (b.applyDelta s p delta ts).1.Inv := by
  cases hf : b.stale with
  | true => rw [applyDelta_of_stale hf]; exact hi
  | false =>
      by_cases hfit : Fits b.depth s p delta
      · obtain ⟨b', heq, hi', -⟩ := hi.applyDelta_of_fits hf hfit ts
        rw [heq]
        exact hi'
      · obtain ⟨b', e, heq, hi', -⟩ := hi.applyDelta_of_not_fits hf hfit ts
        rw [heq]
        exact hi'

end Book

end Tape
