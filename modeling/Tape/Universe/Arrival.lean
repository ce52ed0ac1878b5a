import Tape.Universe.Accounting

/-!
# The order of arrival

A selection reads the listing only through the eligible markets and their
counts, and of each ticker one copy is kept: the first of those with the
greatest freshness. So the order of arrival matters only where two copies have
the greatest freshness and are not the same, which the freshness of a market
lets happen: an unknown close time counts as the one at -1, an omitted strike
type as the empty one, and an absent price as one of -1.
`arrival_independent` is exact: with such copies of an active market some
selection does differ.
-/

namespace Tape.Universe

/-! ## The copy that is kept -/

/-- The fresher of two copies, the one held in case of a tie. -/
def fresherOf (held : Option MarketSummary) (market : MarketSummary) : Option MarketSummary :=
  match held with
  | none => some market
  | some held => some (if freshness held < freshness market then market else held)

theorem get?_noteCopy (st : Dict Ticker MarketSummary × Counts) (market : MarketSummary)
    (t : Ticker) :
    (noteCopy st market).1.get? t =
      if market.ticker = t then fresherOf (st.1.get? t) market else st.1.get? t := by
  by_cases ht : market.ticker = t
  · subst ht
    rw [if_pos rfl]
    cases hget : st.1.get? market.ticker with
    | none =>
        rw [noteCopy, hget]
        exact Dict.get?_set_self _ _ _
    | some held =>
        rw [noteCopy, hget]
        dsimp only [fresherOf]
        split
        · exact Dict.get?_set_self _ _ _
        · exact hget
  · rw [if_neg ht]
    cases hget : st.1.get? market.ticker with
    | none =>
        rw [noteCopy, hget]
        exact Dict.get?_set_ne ht
    | some held =>
        rw [noteCopy, hget]
        dsimp only
        split
        · exact Dict.get?_set_ne ht
        · rfl

/-- The copy kept is one of the listed, and none is fresher. -/
def Freshest (markets : List MarketSummary) (m : MarketSummary) : Prop :=
  m ∈ markets ∧ ∀ other ∈ markets, other.ticker = m.ticker → freshness other ≤ freshness m

theorem freshest_noteCopy {listed : List MarketSummary} {st : Dict Ticker MarketSummary × Counts}
    (hpool : Pool listed st.1) (hfresh : ∀ t m, st.1.get? t = some m → Freshest listed m)
    (hall : ∀ m ∈ listed, m.ticker ∈ st.1.keys) (market : MarketSummary) :
    (∀ t m, (noteCopy st market).1.get? t = some m → Freshest (market :: listed) m) ∧
      ∀ m ∈ market :: listed, m.ticker ∈ (noteCopy st market).1.keys := by
  constructor
  · intro t m hm
    rw [get?_noteCopy] at hm
    split at hm
    · next ht =>
        cases hget : st.1.get? t with
        | none =>
            rw [hget] at hm
            obtain rfl := Option.some.inj hm
            refine ⟨List.mem_cons_self, fun other hother heq => ?_⟩
            rcases List.mem_cons.mp hother with rfl | hother
            · exact le_refl _
            · exact absurd (heq.trans ht ▸ hall other hother) (Dict.get?_eq_none_iff.mp hget)
        | some held =>
            rw [hget, fresherOf, Option.some.injEq] at hm
            have hheld := hfresh t held hget
            have hticker := (hpool t held hget).1
            split at hm
            · next hlt =>
                subst hm
                refine ⟨List.mem_cons_self, fun other hother heq => ?_⟩
                rcases List.mem_cons.mp hother with rfl | hother
                · exact le_refl _
                · exact (hheld.2 other hother (heq.trans (ht.trans hticker.symm))).trans hlt.le
            · next hle =>
                subst hm
                refine ⟨List.mem_cons_of_mem _ hheld.1, fun other hother heq => ?_⟩
                rcases List.mem_cons.mp hother with rfl | hother
                · exact not_lt.mp hle
                · exact hheld.2 other hother heq
    · next ht =>
        have hheld := hfresh t m hm
        have hticker := (hpool t m hm).1
        refine ⟨List.mem_cons_of_mem _ hheld.1, fun other hother heq => ?_⟩
        rcases List.mem_cons.mp hother with rfl | hother
        · exact absurd (heq.trans hticker) ht
        · exact hheld.2 other hother heq
  · intro m hm
    rw [Dict.mem_keys_iff]
    rcases List.mem_cons.mp hm with rfl | hm
    · rw [get?_noteCopy, if_pos rfl]
      cases st.1.get? m.ticker with
      | none => exact ⟨_, rfl⟩
      | some held => exact ⟨_, rfl⟩
    · obtain ⟨held, hheld⟩ := Dict.mem_keys_iff.mp (hall m hm)
      rw [get?_noteCopy]
      split
      · rw [hheld]
        exact ⟨_, rfl⟩
      · exact ⟨held, hheld⟩

/-- The copies kept of a listing. -/
def newest (markets : List MarketSummary) : Dict Ticker MarketSummary :=
  (markets.foldl noteCopy (∅, fun _ => 0)).1

theorem Freshest.of_perm {markets markets' : List MarketSummary} (h : markets.Perm markets')
    {m : MarketSummary} (hm : Freshest markets m) : Freshest markets' m :=
  ⟨h.mem_iff.mp hm.1, fun other hother => hm.2 other (h.mem_iff.mpr hother)⟩

theorem freshest_run {listed : List MarketSummary} {st : Dict Ticker MarketSummary × Counts}
    (hpool : Pool listed st.1) (hfresh : ∀ t m, st.1.get? t = some m → Freshest listed m)
    (hall : ∀ m ∈ listed, m.ticker ∈ st.1.keys) (markets : List MarketSummary) :
    (∀ t m, (markets.foldl noteCopy st).1.get? t = some m → Freshest (listed ++ markets) m) ∧
      ∀ m ∈ listed ++ markets, m.ticker ∈ (markets.foldl noteCopy st).1.keys := by
  induction markets generalizing listed st with
  | nil =>
      rw [List.append_nil]
      exact ⟨hfresh, hall⟩
  | cons market markets ih =>
      obtain ⟨hfresh', hall'⟩ := freshest_noteCopy hpool hfresh hall market
      obtain ⟨hlast, hkeys⟩ := ih (noteCopy_step st market hpool).1 hfresh' hall'
      have hperm : (market :: listed ++ markets).Perm (listed ++ market :: markets) :=
        List.perm_middle.symm
      rw [List.foldl_cons]
      exact ⟨fun t m hm => (hlast t m hm).of_perm hperm, fun m hm => hkeys m (hperm.mem_iff.mpr hm)⟩

theorem newest_spec (markets : List MarketSummary) :
    Pool markets (newest markets) ∧
      (∀ t m, (newest markets).get? t = some m → Freshest markets m) ∧
      ∀ t, t ∈ (newest markets).keys ↔ t ∈ tickersOf markets := by
  have hpool := (noteCopy_run markets (∅, fun _ => 0) (pool_empty [])).1
  obtain ⟨hfresh, hall⟩ := @freshest_run [] (∅, fun _ => 0) (pool_empty [])
    (fun t m hm => by
      rw [Dict.get?_empty] at hm
      cases hm)
    (fun m hm => absurd hm List.not_mem_nil) markets
  rw [List.nil_append] at hpool hfresh hall
  refine ⟨hpool, hfresh, fun t => ⟨fun ht => ?_, fun ht => ?_⟩⟩
  · obtain ⟨m, hm⟩ := Dict.mem_keys_iff.mp ht
    obtain ⟨rfl, hmem⟩ := hpool t m hm
    exact List.mem_map_of_mem hmem
  · obtain ⟨m, hm, rfl⟩ := List.mem_map.mp ht
    exact hall m hm

/-- The first copy stays if none is fresher. -/
theorem newest_cons {m : MarketSummary} {markets : List MarketSummary}
    (h : ∀ other ∈ markets, other.ticker = m.ticker → freshness other ≤ freshness m) :
    (newest (m :: markets)).get? m.ticker = some m := by
  have hrun : ∀ (st : Dict Ticker MarketSummary × Counts), st.1.get? m.ticker = some m →
      (markets.foldl noteCopy st).1.get? m.ticker = some m := by
    induction markets with
    | nil => exact fun st hst => hst
    | cons other markets ih =>
        intro st hst
        refine ih (fun o ho => h o (List.mem_cons_of_mem _ ho)) _ ?_
        rw [get?_noteCopy]
        split
        · next ht =>
            rw [hst, fresherOf, if_neg (not_lt.mpr (h other List.mem_cons_self ht))]
        · exact hst
  refine hrun _ ?_
  rw [get?_noteCopy, if_pos rfl, Dict.get?_empty]
  rfl

/-- Nothing but duplicates is counted so far. -/
theorem noteCopy_counts (markets : List MarketSummary)
    (st : Dict Ticker MarketSummary × Counts) :
    ∃ n, (markets.foldl noteCopy st).2 = st.2.bump .duplicate n := by
  induction markets generalizing st with
  | nil =>
      refine ⟨0, ?_⟩
      rw [List.foldl_nil, Counts.bump, Nat.add_zero, Function.update_eq_self]
  | cons market markets ih =>
      obtain ⟨n, hn⟩ := ih (noteCopy st market)
      rw [List.foldl_cons, hn]
      cases hget : st.1.get? market.ticker with
      | none =>
          refine ⟨n, ?_⟩
          rw [noteCopy, hget]
      | some held =>
          refine ⟨n + 1, ?_⟩
          rw [noteCopy, hget]
          dsimp only
          rw [Counts.bump, Counts.bump, Counts.bump, Function.update_self, Function.update_idem]
          congr 1
          omega

/-! ## Listings that are read alike -/

/-- Two copies that are the same, or neither of which is active. -/
def ReadAlike (m m' : MarketSummary) : Prop :=
  m = m' ∨ m.status ≠ activeStatus ∧ m'.status ≠ activeStatus

/-- The freshest copies of an active market are one copy. -/
def OneFreshest (markets : List MarketSummary) : Prop :=
  ∀ m m', Freshest markets m → Freshest markets m' → m.ticker = m'.ticker →
    m.status = activeStatus → m = m'

/-- Equal freshness means an equal status. -/
theorem status_of_freshness {m m' : MarketSummary} (h : freshness m = freshness m') :
    m.status = m'.status := by
  have hrest := (Prod.mk.inj (Prod.mk.inj (toLex_inj.mp h)).2)
  exact (Prod.mk.inj (toLex_inj.mp hrest.2)).1

theorem sift_alike (policy : UniversePolicy) (nowTs : Int) {l l' : List MarketSummary}
    (h : List.Forall₂ ReadAlike l l') (st : List MarketSummary × Counts) :
    l.foldl (sift policy nowTs) st = l'.foldl (sift policy nowTs) st := by
  induction h generalizing st with
  | nil => rfl
  | @cons m m' l l' hm _ ih =>
      have hstep : sift policy nowTs st m = sift policy nowTs st m' := by
        rcases hm with rfl | ⟨hidle, hidle'⟩
        · rfl
        · have hr : rejection m policy nowTs = some .notActive := if_pos hidle
          have hr' : rejection m' policy nowTs = some .notActive := if_pos hidle'
          rw [sift, sift, hr, hr']
      rw [List.foldl_cons, List.foldl_cons, hstep, ih]

/-- The markets kept, in ticker order. -/
def keptInOrder (markets : List MarketSummary) : List MarketSummary :=
  Sorted.sortOn MarketSummary.ticker (newest markets).values

theorem keptInOrder_tickers {markets markets' : List MarketSummary} (h : markets.Perm markets') :
    tickersOf (keptInOrder markets) = tickersOf (keptInOrder markets') := by
  obtain ⟨hpool, -, hkeys⟩ := newest_spec markets
  obtain ⟨hpool', -, hkeys'⟩ := newest_spec markets'
  have hperm : ∀ l, (tickersOf (keptInOrder l)).Perm (newest l).keys := fun l => by
    rw [← (newest_spec l).1.tickers_values]
    exact (Sorted.sortOn_perm _ _).map _
  have hstrict : ∀ l, (tickersOf (keptInOrder l)).Pairwise (· < ·) := by
    intro l
    have hsorted : (tickersOf (keptInOrder l)).Pairwise (· ≤ ·) :=
      List.pairwise_map.mpr (Sorted.sortOn_pairwise MarketSummary.ticker _)
    have hnodup : (tickersOf (keptInOrder l)).Nodup := (hperm l).nodup_iff.mpr (Dict.nodup _)
    exact (hsorted.and hnodup).imp fun h => lt_of_le_of_ne h.1 h.2
  refine Sorted.eq_of_strict (hstrict _) (hstrict _) fun t => ?_
  rw [(hperm _).mem_iff, (hperm _).mem_iff, hkeys, hkeys']
  exact (h.map _).mem_iff

theorem eligible_perm {markets markets' : List MarketSummary} (h : markets.Perm markets')
    (hone : OneFreshest markets) (policy : UniversePolicy) (nowTs : Int) :
    eligible markets policy nowTs (fun _ => 0) = eligible markets' policy nowTs fun _ => 0 := by
  obtain ⟨hpool, hfresh, -⟩ := newest_spec markets
  obtain ⟨hpool', hfresh', -⟩ := newest_spec markets'
  have htickers := keptInOrder_tickers h
  have hmem : ∀ l, ∀ m ∈ keptInOrder l, (newest l).get? m.ticker = some m := fun l m hm =>
    (newest_spec l).1.mem_values.mp ((Sorted.sortOn_perm _ _).mem_iff.mp hm)
  have halike : List.Forall₂ ReadAlike (keptInOrder markets) (keptInOrder markets') := by
    refine Sorted.forall₂_of_map_eq htickers fun m hm m' hm' heq => ?_
    have hm := hfresh _ m (hmem _ m hm)
    have hm' := (hfresh' _ m' (hmem _ m' hm')).of_perm h.symm
    by_cases hactive : m.status = activeStatus
    · exact .inl (hone m m' hm hm' heq hactive)
    · have hfreshness : freshness m = freshness m' :=
        le_antisymm (hm'.2 m hm.1 heq) (hm.2 m' hm'.1 heq.symm)
      exact .inr ⟨hactive, status_of_freshness hfreshness ▸ hactive⟩
  have hcounts : (markets.foldl noteCopy (∅, fun _ => 0)).2 =
      (markets'.foldl noteCopy (∅, fun _ => 0)).2 := by
    obtain ⟨n, hn⟩ := noteCopy_counts markets (∅, fun _ => 0)
    obtain ⟨n', hn'⟩ := noteCopy_counts markets' (∅, fun _ => 0)
    have htotal := (noteCopy_run markets (∅, fun _ => 0) (pool_empty [])).2
    have htotal' := (noteCopy_run markets' (∅, fun _ => 0) (pool_empty [])).2
    have hlength : (newest markets).keys.length = (newest markets').keys.length := by
      rw [← hpool.tickers_values, ← hpool'.tickers_values, length_tickersOf, length_tickersOf,
        ← (Sorted.sortOn_perm MarketSummary.ticker _).length_eq,
        ← (Sorted.sortOn_perm MarketSummary.ticker (newest markets').values).length_eq,
        ← length_tickersOf, ← length_tickersOf]
      exact congrArg List.length htickers
    rw [newest, newest] at hlength
    rw [hn, Counts.total_bump] at htotal
    rw [hn', Counts.total_bump] at htotal'
    have hlisted := h.length_eq
    obtain rfl : n = n' := by omega
    rw [hn, hn']
  have hsifted := sift_alike policy nowTs halike
    ([], (markets.foldl noteCopy (∅, fun _ => 0)).2)
  rw [keptInOrder, keptInOrder, newest, newest] at hsifted
  rw [eligible, eligible]
  dsimp only
  rw [hsifted, hcounts]

/-- A selection reads the eligible markets and their counts. -/
theorem select_congr {markets markets' : List MarketSummary} {input : SelectInput}
    (h : eligible markets input.policy input.nowTs (fun _ => 0) =
      eligible markets' input.policy input.nowTs fun _ => 0) :
    select markets input = select markets' input := by
  rw [select, select, selectionStart, selectionStart, h]

/-! ## A selection that tells two copies apart -/

/-- A group that is always pinned, so that what it selects by does not matter. -/
def probeGroup : UniverseGroup where
  name := "probe"
  events := 1
  marketsPerEvent := 1
  selector := .category "probe"
  maxMarkets := none
  maxHoursToClose := none
  marketOrder := .volume
  named := by decide
  selects := (by decide : "probe" ≠ "")
  positive := UniverseGroup.positive_one

/-- A budget of one for a ticker, before a given instant. -/
def probe (t : Ticker) (before : Int) : SelectInput where
  policy :=
    { minVolume24h := 0
      maxL2Markets := 1
      groups := [probeGroup]
      excludeMve := false
      maxSecondsToClose := none
      horizon := nofun
      once := by decide }
  nowTs := before - 1
  categories := ∅
  pinned := (∅ : Dict String (List Ticker)).set "probe" [t]

theorem listedOf_eq (markets : List MarketSummary) (input : SelectInput) :
    listedOf markets input = (keptInOrder markets).filter fun m =>
      rejection m input.policy input.nowTs = none := by
  rw [listedOf, eligible]
  exact ((sift_run input.policy input.nowTs _ _).1).trans (List.nil_append _)

/-- The probe keeps the freshest copy of its ticker, and one copy. -/
theorem probe_keeps {markets : List MarketSummary} {m : MarketSummary} (before : Int)
    (hget : (newest markets).get? m.ticker = some m) (hactive : m.status = activeStatus)
    (hclose : ∀ closeTs, m.closeTs = some closeTs → before ≤ closeTs) :
    m ∈ (select markets (probe m.ticker before)).markets := by
  have hrejection : rejection m (probe m.ticker before).policy (probe m.ticker before).nowTs =
      none := by
    rw [rejection, if_neg (by simp [hactive]), if_neg (by simp [probe])]
    cases hc : m.closeTs with
    | none => rfl
    | some closeTs =>
        have hopen : ¬ closeTs ≤ (probe m.ticker before).nowTs := by
          have hle := hclose closeTs hc
          show ¬ closeTs ≤ before - 1
          omega
        dsimp only
        rw [if_neg hopen]
        rfl
  have hlisted : m ∈ listedOf markets (probe m.ticker before) := by
    rw [listedOf_eq, List.mem_filter, keptInOrder, (Sorted.sortOn_perm _ _).mem_iff,
      (newest_spec markets).1.mem_values]
    exact ⟨hget, decide_eq_true hrejection⟩
  obtain ⟨-, hnodup, -⟩ := eligible_spec markets (probe m.ticker before).policy
    (probe m.ticker before).nowTs fun _ => 0
  obtain ⟨-, -, hpool⟩ := byTicker_spec hnodup
  have hchosen : chosen (probe m.ticker before) probeGroup
      (selectionStart markets (probe m.ticker before)).unchosen = [m] := by
    have hpinned : (probe m.ticker before).pinned.get? probeGroup.name = some [m.ticker] :=
      Dict.get?_set_self _ _ _
    rw [chosen_pinned hpinned]
    exact List.filterMap_cons_some (hpool m hlisted)
  have hentry : m.ticker ∈ (select markets (probe m.ticker before)).l2Tickers := by
    rw [(select_accounted markets (probe m.ticker before)).listed, select_groups]
    refine ⟨_, List.mem_singleton_self _, ?_⟩
    show m.ticker ∈ tickersOf ((chosen (probe m.ticker before) probeGroup
      (selectionStart markets (probe m.ticker before)).unchosen).take 1)
    rw [hchosen]
    exact List.mem_singleton_self _
  exact List.mem_filter.mpr ⟨hlisted, Dict.contains_iff.mpr (List.mem_toFinset.mp hentry)⟩

theorem markets_inj {markets : List MarketSummary} {input : SelectInput} {m m' : MarketSummary}
    (hm : m ∈ (select markets input).markets) (hm' : m' ∈ (select markets input).markets)
    (h : m.ticker = m'.ticker) : m = m' := by
  have hnodup := (eligible_spec markets input.policy input.nowTs fun _ => 0).2.1
  exact List.inj_on_of_nodup_map hnodup (List.mem_of_mem_filter hm) (List.mem_of_mem_filter hm') h

/-- A listing is selected from alike in every order of arrival exactly when the
freshest copies of each active market are one copy. -/
theorem arrival_independent (markets : List MarketSummary) :
    (∀ input markets', markets'.Perm markets → select markets' input = select markets input) ↔
      OneFreshest markets := by
  constructor
  · intro h m m' hm hm' hticker hactive
    have hfirst : ∀ a, Freshest markets a →
        (newest (a :: markets.erase a)).get? a.ticker = some a := fun a ha =>
      newest_cons fun other ho heq => ha.2 other (List.mem_of_mem_erase ho) heq
    have hperm : ∀ a, Freshest markets a → (a :: markets.erase a).Perm markets := fun a ha =>
      (List.perm_cons_erase ha.1).symm
    have hfreshness : freshness m = freshness m' :=
      le_antisymm (hm'.2 m hm.1 hticker) (hm.2 m' hm'.1 hticker.symm)
    have hactive' : m'.status = activeStatus := status_of_freshness hfreshness ▸ hactive
    have hkeep := probe_keeps (min (m.closeTs.getD 0) (m'.closeTs.getD 0))
      (hfirst m hm) hactive fun closeTs hc => by
        rw [hc]
        exact min_le_left _ _
    have hkeep' := probe_keeps (min (m.closeTs.getD 0) (m'.closeTs.getD 0))
      (hfirst m' hm') hactive' fun closeTs hc => by
        rw [hc]
        exact min_le_right _ _
    rw [h _ _ (hperm m hm)] at hkeep
    rw [h _ _ (hperm m' hm'), ← hticker] at hkeep'
    exact markets_inj hkeep hkeep' hticker
  · intro hone input markets' hperm
    exact (select_congr (eligible_perm hperm.symm hone _ _)).symm

/-- Two copies that differ in a strike type that is empty or omitted. -/
theorem arrival_matters :
    let m : MarketSummary := ⟨"KXA-1", "KXA", "KXA-1", 0, "active", 100, some 5000, false,
      some "", none, none, none⟩
    let m' : MarketSummary := { m with strikeType := none }
    [m', m].Perm [m, m'] ∧
      select [m', m] (probe "KXA-1" 5000) ≠ select [m, m'] (probe "KXA-1" 5000) := by
  intro m m'
  refine ⟨List.Perm.swap _ _ _, fun heq => ?_⟩
  have hmarkets := congrArg UniverseDecision.markets heq
  have hdiffer : (select [m', m] (probe "KXA-1" 5000)).markets ≠
      (select [m, m'] (probe "KXA-1" 5000)).markets := by decide +kernel
  exact hdiffer hmarkets

end Tape.Universe
