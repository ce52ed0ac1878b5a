import Mathlib
import Tape.Universe.Select

/-!
# What one group chooses

The events a group chooses are some of those it can see, each once, and no more
than its limit (`Picks`); the markets are the first of each. `choose_limits`
collects the limits of a group, stated of the markets it can see.
-/

namespace Tape.Universe

/-- The event of a list of markets that a market belongs to. -/
def eventOf (seen : List MarketSummary) (market : MarketSummary) : List MarketSummary :=
  seen.filter fun other => eventKey other = eventKey market

/-- How many events some markets are of. -/
def eventCount (markets : List MarketSummary) : Nat := (markets.map eventKey).toFinset.card

/-- The limits of a group on what it takes of the markets it can see. -/
structure Limits (input : SelectInput) (group : UniverseGroup) (seen taken : List MarketSummary) :
    Prop where
  among : ∀ m ∈ taken, m ∈ seen
  size : ∀ n, group.maxMarkets = some n → taken.length ≤ n
  perEvent : ∀ key, (taken.filter fun m => eventKey m = key).length ≤ group.marketsPerEvent
  categoryEvents : ∀ name, group.selector = .category name → eventCount taken ≤ group.events
  seriesEvents : ∀ names, group.selector = .series names → ∀ name ∈ names,
    eventCount (taken.filter fun m => m.seriesTicker = name) ≤ group.events
  horizon : ∀ hours, group.maxHoursToClose = some hours → ∀ m ∈ taken,
    ∃ closeTs, ((eventOf seen m).filterMap MarketSummary.closeTs).min? = some closeTs ∧
      closeTs ≤ input.nowTs + hours * secondsPerHour
  floor : ∀ name, group.selector = .category name → ∀ m ∈ taken,
    (input.policy.minVolume24h : Int) ≤ ((eventOf seen m).map MarketSummary.volume24h).sum

variable {input : SelectInput} {group : UniverseGroup} {seen taken : List MarketSummary}

theorem eventCount_le {l l' : List MarketSummary} (h : l ⊆ l') : eventCount l ≤ eventCount l' :=
  Finset.card_le_card fun _ hk =>
    List.mem_toFinset.mpr (List.map_subset _ h (List.mem_toFinset.mp hk))

/-- Whoever takes less keeps the limits. -/
theorem Limits.mono {fewer : List MarketSummary} (h : Limits input group seen taken)
    (hfewer : fewer.Sublist taken) : Limits input group seen fewer where
  among := fun m hm => h.among m (hfewer.subset hm)
  size := fun n hn => hfewer.length_le.trans (h.size n hn)
  perEvent := fun key => (hfewer.filter _).length_le.trans (h.perEvent key)
  categoryEvents := fun name hname =>
    (eventCount_le hfewer.subset).trans (h.categoryEvents name hname)
  seriesEvents := fun names hnames name hname =>
    (eventCount_le (hfewer.filter _).subset).trans (h.seriesEvents names hnames name hname)
  horizon := fun hours hhours m hm => h.horizon hours hhours m (hfewer.subset hm)
  floor := fun name hname m hm => h.floor name hname m (hfewer.subset hm)

/-! ## The events -/

/-- What events are ranked by. -/
def keyOf (event : ListedEvent) : String × String := eventKey event.1

/-- What a group may choose of some events. -/
structure Picks (group : UniverseGroup) (floor : Nat) (events picked : List ListedEvent) :
    Prop where
  among : ∀ e ∈ picked, e ∈ events
  once : (picked.map keyOf).Nodup
  category : ∀ name, group.selector = .category name →
    picked.length ≤ group.events ∧ ∀ e ∈ picked, (floor : Int) ≤ eventVolume e
  series : ∀ names, group.selector = .series names → ∀ name ∈ names,
    (picked.filter fun e => e.1.seriesTicker = name).length ≤ group.events

theorem mem_rankedNearest {events : List ListedEvent} {name : String} {e : ListedEvent} :
    e ∈ rankedNearest events name ↔ e ∈ events ∧ e.1.seriesTicker = name := by
  rw [rankedNearest, (Sorted.sortOn_perm _ _).mem_iff, List.mem_filter, decide_eq_true_eq]

theorem mem_rankedBusiest {events : List ListedEvent} {floor : Nat} {e : ListedEvent} :
    e ∈ rankedBusiest events floor ↔ e ∈ events ∧ (floor : Int) ≤ eventVolume e := by
  rw [rankedBusiest, (Sorted.sortOn_perm _ _).mem_iff, List.mem_filter, decide_eq_true_eq]

theorem nodup_ranked {κ : Type*} [LinearOrder κ] (key : ListedEvent → κ) (p : ListedEvent → Bool)
    {events : List ListedEvent} (h : (events.map keyOf).Nodup) (n : Nat) :
    (((Sorted.sortOn key (events.filter p)).take n).map keyOf).Nodup := by
  have hfilter : ((events.filter p).map keyOf).Nodup := h.sublist (List.filter_sublist.map keyOf)
  have hsorted := ((Sorted.sortOn_perm key (events.filter p)).map keyOf).nodup_iff.mpr hfilter
  exact hsorted.sublist ((List.take_sublist _ _).map keyOf)

theorem nearest_once {events : List ListedEvent} (h : (events.map keyOf).Nodup) (limit : Nat)
    {names : List String} (hnames : names.Nodup) :
    ((names.flatMap fun name => (rankedNearest events name).take limit).map keyOf).Nodup := by
  rw [List.map_flatMap, List.nodup_flatMap]
  refine ⟨fun name _ => nodup_ranked _ _ h limit, ?_⟩
  refine hnames.imp fun {a b} hne => List.disjoint_left.mpr fun k hk hk' => hne ?_
  obtain ⟨e, he, rfl⟩ := List.mem_map.mp hk
  obtain ⟨e', he', heq⟩ := List.mem_map.mp hk'
  rw [← (mem_rankedNearest.mp (List.mem_of_mem_take he)).2,
    ← (mem_rankedNearest.mp (List.mem_of_mem_take he')).2]
  exact (congrArg Prod.fst heq).symm

/-- The events of one series, of the nearest events of each. -/
theorem nearest_filter (events : List ListedEvent) (limit : Nat) {names : List String}
    (hnames : names.Nodup) {name : String} (hname : name ∈ names) :
    ((names.flatMap fun name => (rankedNearest events name).take limit).filter
      fun e => e.1.seriesTicker = name) = (rankedNearest events name).take limit := by
  have hid : (names.map id).Nodup := by rwa [List.map_id]
  have hkey : ∀ a ∈ names, ∀ e ∈ (rankedNearest events a).take limit, e.1.seriesTicker = id a :=
    fun a _ e he => (mem_rankedNearest.mp (List.mem_of_mem_take he)).2
  exact Sorted.filter_flatMap hkey hid hname

theorem picks_chosenEvents {events : List ListedEvent} (h : (events.map keyOf).Nodup)
    (floor : Nat) (rejected : Reasons) :
    Picks group floor events (chosenEvents group events floor rejected).1 := by
  rw [chosenEvents]
  split
  · next name hsel =>
      constructor
      · intro e he
        exact (mem_rankedBusiest.mp (List.mem_of_mem_take he)).1
      · exact nodup_ranked _ _ h _
      · intro _ _
        refine ⟨List.length_take_le _ _, fun e he => ?_⟩
        exact (mem_rankedBusiest.mp (List.mem_of_mem_take he)).2
      · intro names hnames
        rw [hsel] at hnames
        cases hnames
  · next names hsel =>
      have hvalid : names.Nodup := by
        have hselects := group.selects
        rw [hsel] at hselects
        exact hselects.2.2
      constructor
      · intro e he
        obtain ⟨name, -, he⟩ := List.mem_flatMap.mp he
        exact (mem_rankedNearest.mp (List.mem_of_mem_take he)).1
      · exact nearest_once h _ hvalid
      · intro name hname
        rw [hsel] at hname
        cases hname
      · intro names' hnames' name hname
        rw [hsel, Selector.series.injEq] at hnames'
        subst hnames'
        have hfilter := nearest_filter events group.events hvalid hname
        rw [nearestEvents, hfilter]
        exact List.length_take_le _ _

/-! ## The markets -/

theorem mem_rankedMarkets {event : ListedEvent} {m : MarketSummary} :
    m ∈ rankedMarkets group event ↔ m ∈ event.markets :=
  (Sorted.sortOn_perm _ _).mem_iff

/-- The events of what a group can see, as it sorts them. -/
def eventsOf (seen : List MarketSummary) : List ListedEvent :=
  (Dict.groupBy eventKey seen).values

theorem eventsOf_once (seen : List MarketSummary) : ((eventsOf seen).map keyOf).Nodup :=
  (Dict.groupBy_values eventKey seen).1

theorem markets_eq {seen : List MarketSummary} {event : ListedEvent} (h : event ∈ eventsOf seen) :
    event.markets = seen.filter fun m => eventKey m = keyOf event :=
  (Dict.groupBy_values eventKey seen).2 event h

/-- A market of one of the events belongs to that event. -/
theorem markets_eq_eventOf {seen : List MarketSummary} {event : ListedEvent}
    (h : event ∈ eventsOf seen) {m : MarketSummary} (hm : m ∈ event.markets) :
    m ∈ seen ∧ eventKey m = keyOf event ∧ event.markets = eventOf seen m := by
  have hevent := markets_eq h
  rw [hevent, List.mem_filter, decide_eq_true_eq] at hm
  refine ⟨hm.1, hm.2, ?_⟩
  rw [hevent, eventOf, hm.2]

/-- The events that `choose` takes markets from. -/
def picked (group : UniverseGroup) (seen : List MarketSummary) (floor : Nat) (nowTs : Int) :
    List ListedEvent :=
  (chosenEvents group ((eventsOf seen).filter (inHorizon group nowTs)) floor ∅).1

/-- The markets of some events, the first of each. -/
def firstMarkets (group : UniverseGroup) (events : List ListedEvent) : List MarketSummary :=
  events.flatMap fun event => (rankedMarkets group event).take group.marketsPerEvent

theorem chosenEvents_fst (group : UniverseGroup) (events : List ListedEvent) (floor : Nat)
    (rejected rejected' : Reasons) :
    (chosenEvents group events floor rejected).1 =
      (chosenEvents group events floor rejected').1 := by
  rw [chosenEvents, chosenEvents]
  cases group.selector <;> rfl

theorem choose_fst (group : UniverseGroup) (seen : List MarketSummary) (floor : Nat) (nowTs : Int)
    (rejected : Reasons) :
    (choose group seen floor nowTs rejected).1 =
      capped group (firstMarkets group (picked group seen floor nowTs)) := by
  rw [picked, chosenEvents_fst _ _ _ ∅ (withinHorizon (eventsOf seen) group nowTs rejected).2]
  rfl

theorem capped_sublist (group : UniverseGroup) (chosen : List MarketSummary) :
    (capped group chosen).Sublist chosen := by
  rw [capped]
  split
  · exact List.Sublist.refl _
  · exact List.take_sublist _ _

variable {floor : Nat} {nowTs : Int}

theorem picked_spec (group : UniverseGroup) (seen : List MarketSummary) (floor : Nat)
    (nowTs : Int) :
    Picks group floor ((eventsOf seen).filter (inHorizon group nowTs))
      (picked group seen floor nowTs) :=
  picks_chosenEvents ((eventsOf_once seen).sublist (List.filter_sublist.map keyOf)) floor ∅

theorem mem_firstMarkets {events : List ListedEvent} {m : MarketSummary}
    (h : m ∈ firstMarkets group events) : ∃ e ∈ events, m ∈ e.markets := by
  obtain ⟨e, he, hm⟩ := List.mem_flatMap.mp h
  exact ⟨e, he, mem_rankedMarkets.mp (List.mem_of_mem_take hm)⟩

/-- Of each event, no more than its share. -/
theorem firstMarkets_perEvent {events : List ListedEvent} (honce : (events.map keyOf).Nodup)
    (hkeys : ∀ e ∈ events, ∀ m ∈ e.markets, eventKey m = keyOf e) (key : String × String) :
    ((firstMarkets group events).filter fun m => eventKey m = key).length ≤
      group.marketsPerEvent := by
  have hrows : ∀ e ∈ events, ∀ m ∈ (rankedMarkets group e).take group.marketsPerEvent,
      eventKey m = keyOf e := fun e he m hm =>
    hkeys e he m (mem_rankedMarkets.mp (List.mem_of_mem_take hm))
  by_cases hin : ∃ e ∈ events, keyOf e = key
  · obtain ⟨e, he, rfl⟩ := hin
    rw [firstMarkets, Sorted.filter_flatMap hrows honce he]
    exact List.length_take_le _ _
  · rw [List.filter_eq_nil_iff.mpr]
    · exact Nat.zero_le _
    · intro m hm hk
      obtain ⟨e, he, hm⟩ := mem_firstMarkets hm
      exact hin ⟨e, he, (hkeys e he m hm).symm.trans (of_decide_eq_true hk)⟩

/-- No more events than there were to take from. -/
theorem eventCount_firstMarkets {events : List ListedEvent}
    (hkeys : ∀ e ∈ events, ∀ m ∈ e.markets, eventKey m = keyOf e) :
    eventCount (firstMarkets group events) ≤ events.length := by
  have hsub : ((firstMarkets group events).map eventKey).toFinset ⊆
      (events.map keyOf).toFinset := by
    intro k hk
    obtain ⟨m, hm, rfl⟩ := List.mem_map.mp (List.mem_toFinset.mp hk)
    obtain ⟨e, he, hm⟩ := mem_firstMarkets hm
    rw [hkeys e he m hm]
    exact List.mem_toFinset.mpr (List.mem_map_of_mem he)
  refine (Finset.card_le_card hsub).trans ?_
  refine (List.toFinset_card_le _).trans ?_
  rw [List.length_map]

/-- The markets of one series are those of its events. -/
theorem firstMarkets_series {events : List ListedEvent}
    (hkeys : ∀ e ∈ events, ∀ m ∈ e.markets, eventKey m = keyOf e) (name : String) :
    (firstMarkets group events).filter (fun m => m.seriesTicker = name) =
      firstMarkets group (events.filter fun e => e.1.seriesTicker = name) := by
  induction events with
  | nil => rfl
  | cons e events ih =>
      have hrest := ih fun e' he' => hkeys e' (List.mem_cons_of_mem _ he')
      have hmember : ∀ m ∈ (rankedMarkets group e).take group.marketsPerEvent,
          m.seriesTicker = e.1.seriesTicker := fun m hm =>
        congrArg Prod.fst
          (hkeys e List.mem_cons_self m (mem_rankedMarkets.mp (List.mem_of_mem_take hm)))
      rw [firstMarkets, List.flatMap_cons, List.filter_append, ← firstMarkets, hrest]
      by_cases hname : e.1.seriesTicker = name
      · rw [List.filter_cons_of_pos (by simpa using hname), firstMarkets, firstMarkets,
          List.flatMap_cons, List.filter_eq_self.mpr]
        intro m hm
        simp [hmember m hm, hname]
      · rw [List.filter_cons_of_neg (by simpa using hname), List.filter_eq_nil_iff.mpr,
          List.nil_append]
        intro m hm
        simp [hmember m hm, hname]

theorem choose_limits (input : SelectInput) (group : UniverseGroup) (seen : List MarketSummary)
    (rejected : Reasons) :
    Limits input group seen
      (choose group seen input.policy.minVolume24h input.nowTs rejected).1 := by
  rw [choose_fst]
  have hpicks := picked_spec group seen input.policy.minVolume24h input.nowTs
  generalize picked group seen input.policy.minVolume24h input.nowTs = events at hpicks ⊢
  have hin : ∀ e ∈ events, e ∈ eventsOf seen ∧ inHorizon group input.nowTs e = true :=
    fun e he => List.mem_filter.mp (hpicks.among e he)
  have hkeys : ∀ e ∈ events, ∀ m ∈ e.markets, eventKey m = keyOf e :=
    fun e he m hm => (markets_eq_eventOf (hin e he).1 hm).2.1
  have hmem : ∀ m ∈ firstMarkets group events, ∃ e ∈ events, m ∈ seen ∧ e.markets = eventOf seen m ∧
      inHorizon group input.nowTs e = true := by
    intro m hm
    obtain ⟨e, he, hm⟩ := mem_firstMarkets hm
    obtain ⟨hseen, -, heq⟩ := markets_eq_eventOf (hin e he).1 hm
    exact ⟨e, he, hseen, heq, (hin e he).2⟩
  have hsub := capped_sublist group (firstMarkets group events)
  constructor
  · intro m hm
    obtain ⟨-, -, hseen, -⟩ := hmem m (hsub.subset hm)
    exact hseen
  · intro n hn
    rw [capped, hn]
    exact List.length_take_le _ _
  · intro key
    exact ((hsub.filter _).length_le).trans (firstMarkets_perEvent hpicks.once hkeys key)
  · intro name hname
    refine (eventCount_le hsub.subset).trans ((eventCount_firstMarkets hkeys).trans ?_)
    exact (hpicks.category name hname).1
  · intro names hnames name hname
    refine (eventCount_le (hsub.filter _).subset).trans ?_
    rw [firstMarkets_series hkeys]
    refine (eventCount_firstMarkets fun e he => hkeys e (List.mem_of_mem_filter he)).trans ?_
    exact hpicks.series names hnames name hname
  · intro hours hhours m hm
    obtain ⟨e, -, -, heq, hhorizon⟩ := hmem m (hsub.subset hm)
    rw [inHorizon, hhours] at hhorizon
    rw [← heq]
    cases hclose : earliestClose e with
    | none =>
        rw [hclose] at hhorizon
        cases hhorizon
    | some closeTs =>
        rw [hclose] at hhorizon
        exact ⟨closeTs, hclose, of_decide_eq_true hhorizon⟩
  · intro name hname m hm
    obtain ⟨e, he, -, heq, -⟩ := hmem m (hsub.subset hm)
    rw [← heq]
    exact (hpicks.category name hname).2 e he

/-- Whatever is chosen is chosen once. -/
theorem choose_nodup (group : UniverseGroup) {seen : List MarketSummary} (hseen : seen.Nodup)
    (floor : Nat) (nowTs : Int) (rejected : Reasons) :
    (choose group seen floor nowTs rejected).1.Nodup := by
  rw [choose_fst]
  refine (capped_sublist _ _).nodup ?_
  have hpicks := picked_spec group seen floor nowTs
  generalize picked group seen floor nowTs = events at hpicks ⊢
  have hin : ∀ e ∈ events, e ∈ eventsOf seen := fun e he =>
    (List.mem_filter.mp (hpicks.among e he)).1
  rw [firstMarkets, List.nodup_flatMap]
  constructor
  · intro e he
    refine (List.take_sublist _ _).nodup ((Sorted.sortOn_perm _ _).nodup_iff.mpr ?_)
    rw [markets_eq (hin e he)]
    exact hseen.filter _
  · have honce := hpicks.once
    rw [List.nodup_iff_pairwise_ne, List.pairwise_map] at honce
    refine honce.imp_of_mem fun {e e'} he he' hne => List.disjoint_left.mpr fun m hm hm' => hne ?_
    have hm := mem_rankedMarkets.mp (List.mem_of_mem_take hm)
    have hm' := mem_rankedMarkets.mp (List.mem_of_mem_take hm')
    rw [← (markets_eq_eventOf (hin e he) hm).2.1, (markets_eq_eventOf (hin e' he') hm').2.1]

end Tape.Universe
