import Tape.Api.Directory
import Mathlib

/-!
# The market list, read off what the bus brought

What the directory holds is a function of the updates it was given: of the last
catalog, of the lifecycle events since, and of the ticker updates of markets
that were recorded when they came and in every catalog after. So the list it
shows can be said without it (`listed_markets`).
-/

namespace Tape.Api.Directory

open Contract

/-! ## What was brought -/

/-- The markets of an update that is a catalog. -/
def Update.catalog? : Update → Option (List CatalogEntry)
  | .catalog markets => some markets
  | _ => none

/-- The last catalog of some updates. -/
def lastCatalog (us : List Update) : Option (List CatalogEntry) :=
  us.reverse.findSome? Update.catalog?

/-- The updates since the last catalog. -/
def sinceCatalog (us : List Update) : List Update := us.rtakeWhile fun u => u.catalog?.isNone

/-- The market is in the last catalog. -/
def Listed (us : List Update) (t : Ticker) : Prop :=
  ∃ markets, lastCatalog us = some markets ∧ ∃ e ∈ markets, e.ticker = t

/-- The market is in the last catalog, or there was none yet. -/
def Recorded (us : List Update) (t : Ticker) : Prop := lastCatalog us = none ∨ Listed us t

/-- The last update of its market, which was recorded when it came and ever since. -/
def Shown (us : List Update) (u : TickerUpdate) : Prop :=
  ∃ before after, us = before ++ .ticker u :: after ∧
    (∀ v, .ticker v ∈ after → v.ticker ≠ u.ticker) ∧
    ∀ rest, rest <+: after → Recorded (before ++ .ticker u :: rest) u.ticker

/-- The market was determined or settled since the last catalog. -/
def Ended (us : List Update) (t : Ticker) : Prop :=
  ∃ e, .lifecycle e ∈ sinceCatalog us ∧ e.ticker = t ∧ e.eventType ∈ endedTypes

/-- Where an update moves the close of the market to. -/
def Update.moves (t : Ticker) : Update → Option Int
  | .lifecycle e =>
      if e.ticker = t ∧ e.eventType = lifecycleCloseDateUpdated then e.closeTs else none
  | _ => none

/-- Where the close of the market was last moved to since the last catalog. -/
def moved (us : List Update) (t : Ticker) : Option Int :=
  (sinceCatalog us).reverse.findSome? (Update.moves t)

/-- When a market of the last catalog closes. -/
def closes (us : List Update) (e : CatalogEntry) : Option Int := (moved us e.ticker).or e.closeTs

/-- A market of the last catalog that has not ended and does not close by then. -/
def Open (us : List Update) (nowTs : Int) (e : CatalogEntry) : Prop :=
  e ∈ (lastCatalog us).getD [] ∧ ¬ Ended us e.ticker ∧ ∀ ts ∈ closes us e, nowTs < ts

/-! ## One more update -/

variable {us : List Update} {u : Update} {t : Ticker}

theorem lastCatalog_snoc (us : List Update) (u : Update) :
    lastCatalog (us ++ [u]) = u.catalog?.or (lastCatalog us) := by
  rw [lastCatalog, List.reverse_append, List.reverse_singleton, List.singleton_append,
    List.findSome?_cons]
  cases u.catalog? with
  | none => rfl
  | some markets => rfl

theorem lastCatalog_other (h : u.catalog? = none) :
    lastCatalog (us ++ [u]) = lastCatalog us := by
  rw [lastCatalog_snoc, h, Option.none_or]

theorem listed_other (h : u.catalog? = none) : Listed (us ++ [u]) t ↔ Listed us t := by
  rw [Listed, Listed, lastCatalog_other h]

theorem recorded_other (h : u.catalog? = none) : Recorded (us ++ [u]) t ↔ Recorded us t := by
  rw [Recorded, Recorded, lastCatalog_other h, listed_other h]

theorem sinceCatalog_other (h : u.catalog? = none) :
    sinceCatalog (us ++ [u]) = sinceCatalog us ++ [u] := by
  rw [sinceCatalog, List.rtakeWhile_concat, if_pos (by rw [h]; rfl)]
  rfl

theorem sinceCatalog_catalog (us : List Update) (markets : List CatalogEntry) :
    sinceCatalog (us ++ [.catalog markets]) = [] := by
  rw [sinceCatalog, List.rtakeWhile_concat, if_neg (by simp [Update.catalog?])]

theorem ended_other (h : u.catalog? = none) :
    Ended (us ++ [u]) t ↔ Ended us t ∨
      ∃ e, u = .lifecycle e ∧ e.ticker = t ∧ e.eventType ∈ endedTypes := by
  rw [Ended, sinceCatalog_other h, Ended]
  simp only [List.mem_append, List.mem_singleton, or_and_right, exists_or]
  refine or_congr_right (exists_congr fun e => ?_)
  rw [eq_comm]

theorem moved_other (h : u.catalog? = none) :
    moved (us ++ [u]) t = (u.moves t).or (moved us t) := by
  rw [moved, sinceCatalog_other h, List.reverse_append, List.reverse_singleton,
    List.singleton_append, List.findSome?_cons, moved]
  cases u.moves t with
  | none => rfl
  | some ts => rfl

theorem shown_snoc {w : TickerUpdate} : Shown (us ++ [u]) w ↔
    Recorded (us ++ [u]) w.ticker ∧
      (u = .ticker w ∨ Shown us w ∧ ∀ v, u = .ticker v → v.ticker ≠ w.ticker) := by
  constructor
  · rintro ⟨before, after, heq, hlast, hrecorded⟩
    have hnow := hrecorded after (List.prefix_refl after)
    rw [← heq] at hnow
    refine ⟨hnow, ?_⟩
    rcases List.eq_nil_or_concat' after with rfl | ⟨init, x, rfl⟩
    · obtain ⟨-, hsame⟩ := List.append_inj' heq rfl
      exact .inl (List.singleton_inj.mp hsame)
    · rw [← List.cons_append, ← List.append_assoc] at heq
      obtain ⟨hus, hx⟩ := List.append_inj' heq rfl
      obtain rfl := List.singleton_inj.mp hx
      refine .inr ⟨⟨before, init, hus, fun v hv => ?_, fun rest hrest => ?_⟩, fun v hv => ?_⟩
      · exact hlast v (List.mem_append_left _ hv)
      · exact hrecorded rest (hrest.trans (List.prefix_append init [u]))
      · exact hlast v (List.mem_append_right _ (List.mem_singleton.mpr hv.symm))
  · rintro ⟨hnow, rfl | ⟨⟨before, after, rfl, hlast, hrecorded⟩, hother⟩⟩
    · refine ⟨us, [], rfl, fun v hv => absurd hv List.not_mem_nil, fun rest hrest => ?_⟩
      rw [List.prefix_nil.mp hrest]
      exact hnow
    · refine ⟨before, after ++ [u], by simp, fun v hv => ?_, fun rest hrest => ?_⟩
      · rcases List.mem_append.mp hv with hold | hnew
        · exact hlast v hold
        · exact hother v (List.mem_singleton.mp hnew).symm
      · rcases List.prefix_concat_iff.mp hrest with rfl | hinit
        · have hnow' : Recorded (before ++ .ticker w :: (after ++ [u])) w.ticker := by
            simpa using hnow
          exact hnow'
        · exact hrecorded rest hinit

/-! ## What the directory holds -/

/-- The directory holds what the updates say. -/
structure Tells (us : List Update) (d : MarketDirectory) : Prop where
  entries : ∀ t, d.entries.get? t =
    ((lastCatalog us).getD []).reverse.find? fun e => e.ticker = t
  ranked : d.ranked = Sorted.sortOn rank ((lastCatalog us).getD [])
  hasCatalog : d.hasCatalog = (lastCatalog us).isSome
  tickers : ∀ t w, d.tickers.get? t = some w ↔ Shown us w ∧ w.ticker = t
  ended : ∀ t, d.ended.contains t = true ↔ Listed us t ∧ Ended us t
  movedCloseTs : ∀ t ts, d.movedCloseTs.get? t = some ts ↔ Listed us t ∧ moved us t = some ts

variable {d : MarketDirectory}

theorem get?_entriesOf (markets : List CatalogEntry) (t : Ticker) :
    (entriesOf markets).get? t = markets.reverse.find? fun e => e.ticker = t := by
  induction markets using List.reverseRecOn with
  | nil => rfl
  | append_singleton rest entry ih =>
      rw [entriesOf] at ih
      rw [entriesOf, List.foldl_append, List.foldl_cons, List.foldl_nil, Dict.get?_set, ih,
        List.reverse_append, List.reverse_singleton, List.singleton_append, List.find?_cons]
      by_cases ht : entry.ticker = t
      · simp [ht]
      · simp [ht]

theorem contains_entriesOf {markets : List CatalogEntry} {t : Ticker} :
    (entriesOf markets).contains t = true ↔ ∃ e ∈ markets, e.ticker = t := by
  rw [Dict.contains, get?_entriesOf, List.find?_isSome]
  simp

theorem listed_iff : Listed us t ↔ ∃ e ∈ (lastCatalog us).getD [], e.ticker = t := by
  rw [Listed]
  cases lastCatalog us with
  | none => simp
  | some markets => simp

theorem Tells.contains_iff (h : Tells us d) : d.entries.contains t = true ↔ Listed us t := by
  rw [Dict.contains, h.entries, List.find?_isSome, listed_iff]
  simp

theorem Tells.recorded_iff (h : Tells us d) :
    Recorded us t ↔ ¬ (d.hasCatalog = true ∧ ¬ d.entries.contains t = true) := by
  rw [Recorded, h.hasCatalog, h.contains_iff]
  cases lastCatalog us with
  | none => simp
  | some markets => simp

theorem tells_new : Tells [] .new where
  entries _ := rfl
  ranked := rfl
  hasCatalog := rfl
  tickers t w := by
    constructor
    · intro h
      cases h
    · rintro ⟨⟨before, after, heq, -⟩, -⟩
      cases before <;> cases heq
  ended t := by
    constructor
    · intro h
      cases h
    · rintro ⟨⟨markets, h, -⟩, -⟩
      cases h
  movedCloseTs t ts := by
    constructor
    · intro h
      cases h
    · rintro ⟨⟨markets, h, -⟩, -⟩
      cases h

theorem Tells.applyCatalog (h : Tells us d) (markets : List CatalogEntry) :
    Tells (us ++ [.catalog markets]) (d.applyCatalog markets) := by
  have hlast : lastCatalog (us ++ [.catalog markets]) = some markets := lastCatalog_snoc us _
  have hsince : sinceCatalog (us ++ [.catalog markets]) = [] := sinceCatalog_catalog us markets
  constructor
  · intro t
    rw [hlast]
    exact get?_entriesOf markets t
  · rw [hlast]
    rfl
  · rw [hlast]
    rfl
  · intro t w
    have hrecorded : Recorded (us ++ [.catalog markets]) w.ticker ↔
        ∃ e ∈ markets, e.ticker = w.ticker := by
      rw [Recorded, Listed, hlast]
      simp
    rw [MarketDirectory.applyCatalog, Dict.get?_filter, Option.filter_eq_some_iff, h.tickers,
      contains_entriesOf, shown_snoc, hrecorded]
    constructor
    · rintro ⟨⟨hshown, rfl⟩, hin⟩
      exact ⟨⟨hin, .inr ⟨hshown, nofun⟩⟩, rfl⟩
    · rintro ⟨⟨hin, hnew | ⟨hshown, -⟩⟩, rfl⟩
      · cases hnew
      · exact ⟨⟨hshown, rfl⟩, hin⟩
  · intro t
    constructor
    · intro hin
      cases hin
    · rintro ⟨-, e, he, -⟩
      rw [hsince] at he
      cases he
  · intro t ts
    constructor
    · intro hin
      cases hin
    · rintro ⟨-, hmoved⟩
      rw [moved, hsince] at hmoved
      cases hmoved

theorem Shown.recorded {w : TickerUpdate} (h : Shown us w) : Recorded us w.ticker := by
  obtain ⟨before, after, rfl, -, hrecorded⟩ := h
  exact hrecorded after (List.prefix_refl after)

/-- An update that is none of a ticker is not seen in the prices. -/
theorem shown_other {w : TickerUpdate} (hno : u.catalog? = none) (hu : ∀ v, u ≠ .ticker v) :
    Shown (us ++ [u]) w ↔ Shown us w := by
  rw [shown_snoc, recorded_other hno]
  constructor
  · rintro ⟨-, hnew | ⟨hshown, -⟩⟩
    · exact absurd hnew (hu w)
    · exact hshown
  · intro hshown
    exact ⟨hshown.recorded, .inr ⟨hshown, fun v hv => absurd hv (hu v)⟩⟩

/-- An update that is no lifecycle event is not seen in the closes. -/
theorem closes_other (hno : u.catalog? = none) (hu : ∀ e, u ≠ .lifecycle e) (t : Ticker) :
    (Ended (us ++ [u]) t ↔ Ended us t) ∧ moved (us ++ [u]) t = moved us t := by
  constructor
  · rw [ended_other hno]
    exact or_iff_left fun ⟨e, he, _⟩ => hu e he
  · rw [moved_other hno]
    have hnone : u.moves t = none := by
      cases u with
      | lifecycle e => exact absurd rfl (hu e)
      | _ => rfl
    rw [hnone, Option.none_or]

theorem Tells.applyTicker (h : Tells us d) (v : TickerUpdate) :
    Tells (us ++ [.ticker v]) (d.applyTicker v) := by
  have hno : (Update.ticker v).catalog? = none := rfl
  have hcloses : ∀ t, (Ended (us ++ [.ticker v]) t ↔ Ended us t) ∧
      moved (us ++ [.ticker v]) t = moved us t := fun t => closes_other hno (fun _ => nofun) t
  have hshown : ∀ w, Shown (us ++ [.ticker v]) w ↔
      Recorded us w.ticker ∧ (v = w ∨ Shown us w ∧ v.ticker ≠ w.ticker) := by
    intro w
    rw [shown_snoc, recorded_other hno]
    simp
  have hrest : ∀ d' : MarketDirectory, d'.entries = d.entries → d'.ranked = d.ranked →
      d'.hasCatalog = d.hasCatalog → d'.ended = d.ended → d'.movedCloseTs = d.movedCloseTs →
      (∀ t w, d'.tickers.get? t = some w ↔ Shown (us ++ [.ticker v]) w ∧ w.ticker = t) →
      Tells (us ++ [.ticker v]) d' := by
    intro d' hentries hranked hcatalog hended hmoved htickers
    refine ⟨?_, ?_, ?_, htickers, fun t => ?_, fun t ts => ?_⟩
    · rw [hentries, lastCatalog_other hno]
      exact h.entries
    · rw [hranked, lastCatalog_other hno]
      exact h.ranked
    · rw [hcatalog, lastCatalog_other hno]
      exact h.hasCatalog
    · rw [hended, listed_other hno, (hcloses t).1]
      exact h.ended t
    · rw [hmoved, listed_other hno, (hcloses t).2]
      exact h.movedCloseTs t ts
  rw [MarketDirectory.applyTicker]
  split
  · next hout =>
      have hunrecorded : ¬ Recorded us v.ticker := fun hin => (h.recorded_iff.mp hin) hout
      refine hrest d rfl rfl rfl rfl rfl fun t w => ?_
      rw [h.tickers, hshown]
      refine and_congr_left fun _ => ⟨fun hw => ⟨hw.recorded, .inr ⟨hw, ?_⟩⟩, ?_⟩
      · intro hsame
        rw [hsame] at hunrecorded
        exact hunrecorded hw.recorded
      · rintro ⟨hin, rfl | ⟨hw, -⟩⟩
        · exact absurd hin hunrecorded
        · exact hw
  · next hin =>
      have hrecorded : Recorded us v.ticker := h.recorded_iff.mpr hin
      refine hrest _ rfl rfl rfl rfl rfl fun t w => ?_
      show (d.tickers.set v.ticker v).get? t = some w ↔ _
      rw [Dict.get?_set, hshown]
      by_cases ht : v.ticker = t
      · rw [if_pos ht]
        constructor
        · intro hsame
          obtain rfl := Option.some.inj hsame
          exact ⟨⟨hrecorded, .inl rfl⟩, ht⟩
        · rintro ⟨⟨-, rfl | ⟨-, hne⟩⟩, hw⟩
          · rfl
          · exact absurd (ht.trans hw.symm) hne
      · rw [if_neg ht, h.tickers]
        constructor
        · rintro ⟨hw, rfl⟩
          exact ⟨⟨hw.recorded, .inr ⟨hw, ht⟩⟩, rfl⟩
        · rintro ⟨⟨-, rfl | ⟨hw, -⟩⟩, hwt⟩
          · exact absurd hwt ht
          · exact ⟨hw, hwt⟩

theorem Tells.applyLifecycle (h : Tells us d) (e : Lifecycle) :
    Tells (us ++ [.lifecycle e]) (d.applyLifecycle e) := by
  have hno : (Update.lifecycle e).catalog? = none := rfl
  have hended : ∀ t, Ended (us ++ [.lifecycle e]) t ↔
      Ended us t ∨ e.ticker = t ∧ e.eventType ∈ endedTypes := by
    intro t
    rw [ended_other hno]
    simp
  have hmoves : ∀ t, moved (us ++ [.lifecycle e]) t =
      (if e.ticker = t ∧ e.eventType = lifecycleCloseDateUpdated then e.closeTs else none).or
        (moved us t) := fun t => moved_other hno
  have hrest : ∀ d' : MarketDirectory, d'.entries = d.entries → d'.ranked = d.ranked →
      d'.hasCatalog = d.hasCatalog → d'.tickers = d.tickers →
      (∀ t, d'.ended.contains t = true ↔
        Listed us t ∧ (Ended us t ∨ e.ticker = t ∧ e.eventType ∈ endedTypes)) →
      (∀ t ts, d'.movedCloseTs.get? t = some ts ↔
        Listed us t ∧ moved (us ++ [.lifecycle e]) t = some ts) →
      Tells (us ++ [.lifecycle e]) d' := by
    intro d' hentries hranked hcatalog htickers hended' hmoved'
    refine ⟨?_, ?_, ?_, fun t w => ?_, fun t => ?_, fun t ts => ?_⟩
    · rw [hentries, lastCatalog_other hno]
      exact h.entries
    · rw [hranked, lastCatalog_other hno]
      exact h.ranked
    · rw [hcatalog, lastCatalog_other hno]
      exact h.hasCatalog
    · rw [htickers, shown_other hno fun _ => nofun]
      exact h.tickers t w
    · rw [listed_other hno, hended]
      exact hended' t
    · rw [listed_other hno]
      exact hmoved' t ts
  rw [MarketDirectory.applyLifecycle]
  split
  · next hout =>
      have hunlisted : ¬ Listed us e.ticker := fun hin => hout (h.contains_iff.mpr hin)
      refine hrest d rfl rfl rfl rfl (fun t => ?_) fun t ts => ?_
      · rw [h.ended]
        refine and_congr_right fun hin => (or_iff_left ?_).symm
        rintro ⟨rfl, -⟩
        exact hunlisted hin
      · rw [h.movedCloseTs, hmoves]
        refine and_congr_right fun hin => ?_
        have hother : ¬ (e.ticker = t ∧ e.eventType = lifecycleCloseDateUpdated) := by
          rintro ⟨rfl, -⟩
          exact hunlisted hin
        rw [if_neg hother, Option.none_or]
  · next hin =>
      have hlisted : Listed us e.ticker := h.contains_iff.mp (not_not.mp hin)
      split
      · next hends =>
          have hnot : e.eventType ≠ lifecycleCloseDateUpdated := by
            rintro heq
            rw [heq] at hends
            revert hends
            decide
          refine hrest _ rfl rfl rfl rfl (fun t => ?_) fun t ts => ?_
          · rw [Dict.contains, Dict.get?_set]
            by_cases ht : e.ticker = t
            · rw [if_pos ht]
              subst ht
              exact iff_of_true rfl ⟨hlisted, .inr ⟨rfl, hends⟩⟩
            · rw [if_neg ht]
              have hother : ¬ (e.ticker = t ∧ e.eventType ∈ endedTypes) := fun hsame => ht hsame.1
              rw [or_iff_left hother]
              exact h.ended t
          · rw [hmoves, if_neg fun hsame => hnot hsame.2, Option.none_or]
            exact h.movedCloseTs t ts
      · next hends =>
          have hstays : ∀ t, Ended us t ↔ Ended us t ∨ e.ticker = t ∧ e.eventType ∈ endedTypes :=
            fun t => (or_iff_left fun hsame => hends hsame.2).symm
          have hended' : ∀ t, d.ended.contains t = true ↔
              Listed us t ∧ (Ended us t ∨ e.ticker = t ∧ e.eventType ∈ endedTypes) := by
            intro t
            rw [h.ended, ← hstays t]
          split
          · next closeTs hclose =>
              split
              · next hupdated =>
                  refine hrest _ rfl rfl rfl rfl hended' fun t ts => ?_
                  rw [Dict.get?_set, hmoves, hclose]
                  by_cases ht : e.ticker = t
                  · subst ht
                    rw [if_pos rfl, if_pos ⟨rfl, hupdated⟩, Option.some_or]
                    exact (and_iff_right hlisted).symm
                  · rw [if_neg ht, if_neg fun hsame => ht hsame.1, Option.none_or]
                    exact h.movedCloseTs t ts
              · next hnot =>
                  refine hrest d rfl rfl rfl rfl hended' fun t ts => ?_
                  rw [hmoves, if_neg fun hsame => hnot hsame.2, Option.none_or]
                  exact h.movedCloseTs t ts
          · next hnone =>
              refine hrest d rfl rfl rfl rfl hended' fun t ts => ?_
              rw [hmoves, hnone, ite_self, Option.none_or]
              exact h.movedCloseTs t ts

theorem Tells.applyStatus (h : Tells us d) (report : StatusReport) (receivedMonoNs : Int) :
    Tells (us ++ [.status report receivedMonoNs]) (d.applyStatus report receivedMonoNs) := by
  have hno : (Update.status report receivedMonoNs).catalog? = none := rfl
  have hcloses : ∀ t, (Ended (us ++ [.status report receivedMonoNs]) t ↔ Ended us t) ∧
      moved (us ++ [.status report receivedMonoNs]) t = moved us t :=
    fun t => closes_other hno (fun _ => nofun) t
  refine ⟨?_, ?_, ?_, fun t w => ?_, fun t => ?_, fun t ts => ?_⟩
  · rw [lastCatalog_other hno]
    exact h.entries
  · rw [lastCatalog_other hno]
    exact h.ranked
  · rw [lastCatalog_other hno]
    exact h.hasCatalog
  · rw [shown_other hno fun _ => nofun]
    exact h.tickers t w
  · rw [listed_other hno, (hcloses t).1]
    exact h.ended t
  · rw [listed_other hno, (hcloses t).2]
    exact h.movedCloseTs t ts

theorem Tells.step (h : Tells us d) (u : Update) : Tells (us ++ [u]) (d.step u) := by
  cases u with
  | catalog markets => exact h.applyCatalog markets
  | ticker update => exact h.applyTicker update
  | lifecycle event => exact h.applyLifecycle event
  | status report receivedMonoNs => exact h.applyStatus report receivedMonoNs

/-- The directory after some updates. -/
def after (us : List Update) : MarketDirectory := us.foldl MarketDirectory.step .new

theorem tells_after (us : List Update) : Tells us (after us) := by
  induction us using List.reverseRecOn with
  | nil => exact tells_new
  | append_singleton rest u ih =>
      rw [after, List.foldl_append]
      exact ih.step u

/-! ## The list -/

theorem mem_of_lastCatalog {markets : List CatalogEntry} (h : lastCatalog us = some markets) :
    .catalog markets ∈ us := by
  obtain ⟨u, hu, hcatalog⟩ := List.exists_of_findSome?_eq_some h
  cases u with
  | catalog markets' =>
      obtain rfl := Option.some.inj hcatalog
      exact List.mem_reverse.mp hu
  | _ => cases hcatalog

/-- Markets with distinct tickers are ranked apart. -/
theorem nodup_rank {markets : List CatalogEntry}
    (h : (markets.map CatalogEntry.ticker).Nodup) : (markets.map rank).Nodup := by
  refine List.Nodup.of_map (fun r => (ofLex r).2) ?_
  rw [List.map_map]
  exact h

theorem Tells.closeTs (h : Tells us d) {e : CatalogEntry} (he : Listed us e.ticker) :
    d.closeTs e = closes us e := by
  have hmoved : d.movedCloseTs.get? e.ticker = moved us e.ticker := by
    refine Option.ext fun ts => ?_
    rw [h.movedCloseTs]
    exact and_iff_right he
  rw [MarketDirectory.closeTs, hmoved, closes]
  cases moved us e.ticker with
  | none => rfl
  | some ts => rfl

theorem Tells.isOpen_iff (h : Tells us d) {e : CatalogEntry} (he : Listed us e.ticker)
    (nowTs : Int) : d.isOpen e nowTs = true ↔
      ¬ Ended us e.ticker ∧ ∀ ts ∈ closes us e, nowTs < ts := by
  have hended : d.ended.contains e.ticker = true ↔ Ended us e.ticker := by
    rw [h.ended]
    exact and_iff_right he
  rw [MarketDirectory.isOpen, h.closeTs he]
  split
  · next hin => exact iff_of_false (by simp) fun hopen => hopen.1 (hended.mp hin)
  · next hnot =>
      rw [and_iff_right (hnot ∘ hended.mpr)]
      cases closes us e with
      | none => simp
      | some ts => simp

/-- The row of a market, from the last update of it that counts. -/
theorem Tells.row (h : Tells us d) {e : CatalogEntry} (he : Listed us e.ticker)
    (metadata : MarketMetadata) (book : Option Book) :
    ∃ update : Option TickerUpdate,
      (∀ w, update = some w ↔ Shown us w ∧ w.ticker = e.ticker) ∧
      d.row e metadata book =
        { ticker := e.ticker, eventTicker := e.eventTicker, seriesTicker := e.seriesTicker,
          title := metadata.title, subtitle := metadata.subtitle, category := metadata.category,
          showcase := e.showcase, volume24hE2 := e.volume24h, closeTs := closes us e,
          bidE4 := update.bind TickerUpdate.bid, askE4 := update.bind TickerUpdate.ask,
          lastE4 := update.bind TickerUpdate.last, book := .of book } := by
  refine ⟨d.tickers.get? e.ticker, fun w => h.tickers e.ticker w, ?_⟩
  rw [MarketDirectory.row, h.closeTs he]

/-- The list the directory shows, after any updates: the markets of the last
catalog that are open by then, strictly by rank and cut to the limit. A row has
the close last moved since that catalog, and the prices of the last update that
came while the market was recorded, if it has been in every catalog since. -/
theorem listed_markets (us : List Update)
    (hcatalogs : ∀ markets, .catalog markets ∈ us → (markets.map CatalogEntry.ticker).Nodup)
    (nowTs : Int) :
    (∃ all : List CatalogEntry, all.Pairwise (fun a b => rank a < rank b) ∧
      (∀ e, e ∈ all ↔ Open us nowTs e) ∧
      ∀ limit, 1 ≤ limit → (after us).top limit nowTs = .ok (all.take limit.toNat)) ∧
    ∀ e ∈ (lastCatalog us).getD [], ∀ metadata book, ∃ update : Option TickerUpdate,
      (∀ w, update = some w ↔ Shown us w ∧ w.ticker = e.ticker) ∧
      (after us).row e metadata book =
        { ticker := e.ticker, eventTicker := e.eventTicker, seriesTicker := e.seriesTicker,
          title := metadata.title, subtitle := metadata.subtitle, category := metadata.category,
          showcase := e.showcase, volume24hE2 := e.volume24h, closeTs := closes us e,
          bidE4 := update.bind TickerUpdate.bid, askE4 := update.bind TickerUpdate.ask,
          lastE4 := update.bind TickerUpdate.last, book := .of book } := by
  have htells := tells_after us
  have hlisted : ∀ e ∈ (lastCatalog us).getD [], Listed us e.ticker := fun e he =>
    listed_iff.mpr ⟨e, he, rfl⟩
  refine ⟨⟨(after us).ranked.filter fun e => (after us).isOpen e nowTs, ?_, fun e => ?_, ?_⟩,
    fun e he metadata book => htells.row (hlisted e he) metadata book⟩
  · have hnodup : (((lastCatalog us).getD []).map rank).Nodup := by
      cases hlast : lastCatalog us with
      | none => exact List.nodup_nil
      | some markets => exact nodup_rank (hcatalogs markets (mem_of_lastCatalog hlast))
    rw [htells.ranked]
    refine List.Pairwise.filter _ (List.pairwise_map.mp ?_)
    refine Sorted.strict_of_nodup (Sorted.sortOn_pairwise rank _) ?_
    exact ((Sorted.sortOn_perm rank _).map rank).nodup_iff.mpr hnodup
  · rw [List.mem_filter, htells.ranked, (Sorted.sortOn_perm rank _).mem_iff, Open]
    exact and_congr_right fun he => htells.isOpen_iff (hlisted e he) nowTs
  · intro limit hlimit
    rw [MarketDirectory.top, if_neg (by omega)]

/-- A market with little volume. -/
def quietMarket : CatalogEntry := ⟨"Q", "Q", "Q", 300, some 500, false⟩

/-- A market on show with more volume. -/
def busyMarket : CatalogEntry := ⟨"B", "B", "B", 900, some 90, true⟩

/-- Two markets, of which one closes later than it was to, and a third that is
determined. -/
def threeMarkets : List Update :=
  [.ticker ⟨"B", some 4000, some 3900, none⟩,
    .catalog [busyMarket, quietMarket, ⟨"D", "D", "D", 1000, none, false⟩],
    .lifecycle ⟨"B", lifecycleCloseDateUpdated, some 700⟩,
    .lifecycle ⟨"D", lifecycleDetermined, none⟩]

/-- The quote shown came before the catalog, and the close that is shown after. -/
theorem listed_markets_three :
    (after threeMarkets).top 5 100 = .ok [busyMarket, quietMarket] ∧
      (∃ all : List CatalogEntry, all.Pairwise (fun a b => rank a < rank b) ∧
        (∀ e, e ∈ all ↔ Open threeMarkets 100 e) ∧
        ∀ limit, 1 ≤ limit → (after threeMarkets).top limit 100 = .ok (all.take limit.toNat)) ∧
      ∀ metadata book, ∃ w, Shown threeMarkets w ∧ w.ticker = "B" ∧
        ((after threeMarkets).row busyMarket metadata book).bidE4 = w.bid ∧
        ((after threeMarkets).row busyMarket metadata book).closeTs = some 700 := by
  have hcatalogs : ∀ markets, .catalog markets ∈ threeMarkets →
      (markets.map CatalogEntry.ticker).Nodup := by
    intro markets hm
    simp only [threeMarkets, List.mem_cons, reduceCtorEq, Update.catalog.injEq, List.not_mem_nil,
      false_or, or_false] at hm
    rw [hm]
    decide
  obtain ⟨hall, hrows⟩ := listed_markets threeMarkets hcatalogs 100
  refine ⟨by decide +kernel, hall, fun metadata book => ?_⟩
  obtain ⟨update, hupdate, hrow⟩ := hrows busyMarket (by decide +kernel) metadata book
  have hbid : ((after threeMarkets).row busyMarket metadata book).bidE4 = some 3900 := by
    show ((after threeMarkets).tickers.get? "B").bind TickerUpdate.bid = some 3900
    decide +kernel
  rw [hrow] at hbid
  obtain ⟨w, rfl, -⟩ := Option.bind_eq_some_iff.mp hbid
  obtain ⟨hshown, hticker⟩ := (hupdate w).mp rfl
  refine ⟨w, hshown, hticker, ?_, ?_⟩
  · rw [hrow]
    rfl
  · rw [hrow]
    show closes threeMarkets busyMarket = some 700
    decide +kernel

end Tape.Api.Directory
