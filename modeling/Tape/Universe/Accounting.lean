import Tape.Universe.Choice

/-!
# Every market is accounted for

A summary that is handed in is a duplicate, or not eligible, or eligible; an
eligible market stays in the pool until a group chooses it, and then it is
admitted or skipped for budget. `Loop` says so of every state of the loop over
the groups: what is counted, what is in the pool and what is admitted are
together what was handed in. A group sees only what no earlier group chose, so
the first that chooses a market is the only one.
-/

namespace Tape.Universe

/-- The sum of the counts. -/
def Counts.total (counts : Counts) : Nat := (Reason.all.map counts).sum

theorem sum_bump (counts : Counts) (reason : Reason) (n : Nat) {l : List Reason} (hn : l.Nodup) :
    (l.map (counts.bump reason n)).sum = (l.map counts).sum + if reason ∈ l then n else 0 := by
  induction l with
  | nil => rfl
  | cons r l ih =>
      rw [List.nodup_cons] at hn
      rw [List.map_cons, List.map_cons, List.sum_cons, List.sum_cons, ih hn.2, Counts.bump]
      by_cases hr : r = reason
      · subst hr
        rw [Function.update_self, if_neg hn.1, if_pos List.mem_cons_self]
        omega
      · have hmem : (reason ∈ r :: l) ↔ reason ∈ l := by simp [Ne.symm hr]
        rw [Function.update_of_ne hr, ← Nat.add_assoc]
        simp only [hmem]

theorem Counts.total_bump (counts : Counts) (reason : Reason) (n : Nat) :
    (counts.bump reason n).total = counts.total + n := by
  have hall : reason ∈ Reason.all := by cases reason <;> decide
  rw [Counts.total, sum_bump counts reason n (by decide), if_pos hall]
  rfl

/-! ## Eligibility -/

/-- The markets held by ticker, each of which was listed. -/
def Pool (listed : List MarketSummary) (pool : Dict Ticker MarketSummary) : Prop :=
  ∀ t m, pool.get? t = some m → m.ticker = t ∧ m ∈ listed

theorem Pool.mono {listed more : List MarketSummary} {pool : Dict Ticker MarketSummary}
    (h : Pool listed pool) (hmore : listed ⊆ more) : Pool more pool :=
  fun t m hm => ⟨(h t m hm).1, hmore (h t m hm).2⟩

theorem Pool.mem_values {listed : List MarketSummary} {pool : Dict Ticker MarketSummary}
    (h : Pool listed pool) {m : MarketSummary} :
    m ∈ pool.values ↔ pool.get? m.ticker = some m := by
  rw [Dict.values, List.mem_map, Dict.get?_eq_some_iff]
  constructor
  · rintro ⟨⟨t, m'⟩, hmem, rfl⟩
    have ht := (h t m' (Dict.get?_eq_some_iff.mpr hmem)).1
    subst ht
    exact hmem
  · intro hmem
    exact ⟨_, hmem, rfl⟩

theorem Pool.tickers_values {listed : List MarketSummary} {pool : Dict Ticker MarketSummary}
    (h : Pool listed pool) : tickersOf pool.values = pool.keys := by
  rw [tickersOf, Dict.values, Dict.keys, List.map_map]
  refine List.map_congr_left fun e he => ?_
  exact (h e.1 e.2 (Dict.get?_eq_some_iff.mpr he)).1

theorem pool_empty (listed : List MarketSummary) : Pool listed ∅ := by
  intro t m hm
  rw [Dict.get?_empty] at hm
  cases hm

/-- Each copy is held or counted as a duplicate. -/
theorem noteCopy_step (st : Dict Ticker MarketSummary × Counts) (market : MarketSummary)
    {listed : List MarketSummary} (h : Pool listed st.1) :
    Pool (market :: listed) (noteCopy st market).1 ∧
      (noteCopy st market).2.total + (noteCopy st market).1.keys.length =
        st.2.total + st.1.keys.length + 1 := by
  have hset : Pool (market :: listed) (st.1.set market.ticker market) := by
    intro t m hm
    rw [Dict.get?_set] at hm
    split at hm
    · next ht =>
        obtain rfl := Option.some.inj hm
        exact ⟨ht, List.mem_cons_self⟩
    · exact ⟨(h t m hm).1, List.mem_cons_of_mem _ (h t m hm).2⟩
  cases hget : st.1.get? market.ticker with
  | none =>
      have hstep : noteCopy st market = (st.1.set market.ticker market, st.2) := by
        rw [noteCopy, hget]
      have hkeys : (st.1.set market.ticker market).keys = st.1.keys ++ [market.ticker] := by
        rw [Dict.keys_set, if_neg (Dict.get?_eq_none_iff.mp hget)]
      rw [hstep]
      dsimp only
      refine ⟨hset, ?_⟩
      rw [hkeys, List.length_append, List.length_singleton]
      omega
  | some held =>
      have hkeys : (st.1.set market.ticker market).keys = st.1.keys := by
        rw [Dict.keys_set, if_pos (Dict.mem_keys_of_get? hget)]
      have hstep : noteCopy st market =
          (if freshness held < freshness market then st.1.set market.ticker market else st.1,
            st.2.bump .duplicate 1) := by
        rw [noteCopy, hget]
      rw [hstep]
      dsimp only
      rw [Counts.total_bump]
      split
      · refine ⟨hset, ?_⟩
        rw [hkeys]
        omega
      · refine ⟨h.mono (List.subset_cons_self _ _), ?_⟩
        omega

theorem noteCopy_run (markets : List MarketSummary) (st : Dict Ticker MarketSummary × Counts)
    {listed : List MarketSummary} (h : Pool listed st.1) :
    Pool (listed ++ markets) (markets.foldl noteCopy st).1 ∧
      (markets.foldl noteCopy st).2.total + (markets.foldl noteCopy st).1.keys.length =
        st.2.total + st.1.keys.length + markets.length := by
  induction markets generalizing st listed with
  | nil =>
      rw [List.append_nil, List.foldl_nil, List.length_nil, Nat.add_zero]
      exact ⟨h, rfl⟩
  | cons market markets ih =>
      obtain ⟨hpool, htotal⟩ := noteCopy_step st market h
      obtain ⟨hrest, hall⟩ := ih _ hpool
      rw [List.foldl_cons, List.length_cons]
      refine ⟨hrest.mono fun m hm => ?_, by omega⟩
      simp only [List.mem_append, List.mem_cons] at hm ⊢
      tauto

/-- Each market is kept or counted under its reason. -/
theorem sift_run (policy : UniversePolicy) (nowTs : Int) (markets : List MarketSummary)
    (st : List MarketSummary × Counts) :
    (markets.foldl (sift policy nowTs) st).1 =
        st.1 ++ markets.filter (fun m => rejection m policy nowTs = none) ∧
      (markets.foldl (sift policy nowTs) st).2.total +
          (markets.filter fun m => rejection m policy nowTs = none).length =
        st.2.total + markets.length := by
  induction markets generalizing st with
  | nil =>
      rw [List.foldl_nil, List.filter_nil, List.append_nil]
      exact ⟨rfl, Eq.refl (st.2.total + 0)⟩
  | cons market markets ih =>
      obtain ⟨hlist, htotal⟩ := ih (sift policy nowTs st market)
      rw [List.foldl_cons, hlist, List.length_cons]
      rw [sift] at htotal ⊢
      cases hr : rejection market policy nowTs with
      | none =>
          rw [hr] at htotal
          rw [List.filter_cons_of_pos (by simpa using hr), List.length_cons]
          refine ⟨by simp, ?_⟩
          simp only at htotal ⊢
          omega
      | some reason =>
          rw [hr] at htotal
          simp only [Counts.total_bump] at htotal
          rw [List.filter_cons_of_neg (by simp [hr])]
          refine ⟨rfl, ?_⟩
          simp only at htotal ⊢
          omega

/-- The eligible markets: listed, not rejected, in ticker order, one of each. -/
theorem eligible_spec (markets : List MarketSummary) (policy : UniversePolicy) (nowTs : Int)
    (counts : Counts) :
    (∀ m ∈ (eligible markets policy nowTs counts).1,
      m ∈ markets ∧ rejection m policy nowTs = none) ∧
      (tickersOf (eligible markets policy nowTs counts).1).Nodup ∧
      (eligible markets policy nowTs counts).2.total +
          (eligible markets policy nowTs counts).1.length = counts.total + markets.length := by
  obtain ⟨hpool, htotal⟩ := noteCopy_run markets (∅, counts) (pool_empty [])
  rw [List.nil_append] at hpool
  rw [eligible]
  generalize markets.foldl noteCopy (∅, counts) = held at hpool htotal ⊢
  obtain ⟨newest, counted⟩ := held
  have hperm := Sorted.sortOn_perm MarketSummary.ticker newest.values
  obtain ⟨hlist, hsifted⟩ := sift_run policy nowTs
    (Sorted.sortOn MarketSummary.ticker newest.values) ([], counted)
  rw [List.nil_append] at hlist
  simp only at hlist hsifted htotal hpool ⊢
  refine ⟨?_, ?_, ?_⟩
  · intro m hm
    rw [hlist, List.mem_filter, decide_eq_true_eq, hperm.mem_iff, hpool.mem_values] at hm
    exact ⟨(hpool _ m hm.1).2, hm.2⟩
  · rw [hlist]
    refine List.Nodup.sublist (List.filter_sublist.map _) ?_
    rw [(hperm.map _).nodup_iff]
    have hkeys := hpool.tickers_values
    rw [tickersOf] at hkeys
    rw [hkeys]
    exact newest.nodup
  · have hlength : newest.values.length = newest.keys.length := by
      rw [Dict.values, Dict.keys, List.length_map, List.length_map]
    have hempty' : (∅ : Dict Ticker MarketSummary).keys.length = 0 := rfl
    rw [hlist]
    rw [hperm.length_eq] at hsifted
    omega

/-! ## What a group takes out of the pool -/

/-- The markets a group chooses. -/
def chosen (input : SelectInput) (group : UniverseGroup) (pool : Dict Ticker MarketSummary) :
    List MarketSummary :=
  (chosenBy input group pool ∅).1

/-- The reasons recorded so far do not matter to the choice. -/
theorem chosenBy_fst (input : SelectInput) (group : UniverseGroup)
    (pool : Dict Ticker MarketSummary) (passedOver : Reasons) :
    (chosenBy input group pool passedOver).1 = chosen input group pool := by
  rw [chosen, chosenBy, chosenBy]
  split
  · rw [choose_fst, choose_fst]
  · rfl

theorem length_tickersOf (markets : List MarketSummary) :
    (tickersOf markets).length = markets.length := List.length_map _

theorem fromKeys_nodup (l : List Ticker) : (fromKeys l).Nodup := Dict.nodup _

/-- The markets of some tickers, where the pool has them. -/
theorem tickersOf_filterMap {listed : List MarketSummary} {pool : Dict Ticker MarketSummary}
    (h : Pool listed pool) (l : List Ticker) :
    tickersOf (l.filterMap pool.get?) = l.filter fun t => pool.contains t := by
  induction l with
  | nil => rfl
  | cons t l ih =>
      cases hget : pool.get? t with
      | none =>
          rw [List.filterMap_cons_none hget,
            List.filter_cons_of_neg (by simp [Dict.contains, hget]),
            ih]
      | some m =>
          rw [List.filterMap_cons_some hget,
            List.filter_cons_of_pos (by simp [Dict.contains, hget]),
            tickersOf, List.map_cons, (h t m hget).1, ← tickersOf, ih]

section

variable {input : SelectInput} {group : UniverseGroup} {listed : List MarketSummary}
  {pool : Dict Ticker MarketSummary}

theorem chosen_pinned {held : List Ticker} (h : input.pinned.get? group.name = some held) :
    chosen input group pool = (fromKeys held).filterMap pool.get? := by
  rw [chosen, chosenBy, h]

theorem chosen_free (h : input.pinned.get? group.name = none) :
    chosen input group pool =
      (choose group (candidates input group pool) input.policy.minVolume24h input.nowTs ∅).1 := by
  rw [chosen, chosenBy, h]

/-- A group chooses from the pool. -/
theorem get?_of_mem_chosen (h : Pool listed pool) {m : MarketSummary}
    (hm : m ∈ chosen input group pool) : pool.get? m.ticker = some m := by
  cases hpin : input.pinned.get? group.name with
  | none =>
      rw [chosen_free hpin] at hm
      have hseen := (choose_limits input group _ _).among m hm
      exact h.mem_values.mp (List.mem_of_mem_filter hseen)
  | some held =>
      rw [chosen_pinned hpin, List.mem_filterMap] at hm
      obtain ⟨t, -, ht⟩ := hm
      exact (h t m ht).1.symm ▸ ht

/-- And each market once. -/
theorem chosen_nodup (h : Pool listed pool) : (tickersOf (chosen input group pool)).Nodup := by
  cases hpin : input.pinned.get? group.name with
  | none =>
      have hmem : ∀ m ∈ chosen input group pool, pool.get? m.ticker = some m := fun m hm =>
        get?_of_mem_chosen h hm
      have hvalues : pool.values.Nodup := by
        refine List.Nodup.of_map MarketSummary.ticker ?_
        have hkeys := h.tickers_values
        rw [tickersOf] at hkeys
        rw [hkeys]
        exact pool.nodup
      have hnodup : (chosen input group pool).Nodup := by
        rw [chosen_free hpin]
        exact choose_nodup group (hvalues.filter _) _ _ _
      refine hnodup.map_on fun m hm m' hm' heq => ?_
      have hget := hmem m hm
      rw [heq, hmem m' hm'] at hget
      exact (Option.some.inj hget).symm
  | some held =>
      rw [chosen_pinned hpin, tickersOf_filterMap h]
      exact (fromKeys_nodup held).filter _

end

/-! ## The loop -/

/-- What is counted, in the pool and admitted is what was handed in. -/
structure Loop (listed : List MarketSummary) (handed budget : Nat) (st : Selecting) : Prop where
  pool : Pool listed st.unchosen
  total : st.counts.total + st.unchosen.keys.length + st.groupOf.keys.length = handed
  budget : st.budget + st.groupOf.keys.length = budget
  apart : ∀ t ∈ st.groupOf.keys, t ∉ st.unchosen.keys
  inOrder : st.groupOf.keys = st.selections.flatMap GroupSelection.tickers
  listed : ∀ t ∈ st.groupOf.keys, ∃ m ∈ listed, m.ticker = t

/-- What a group admits of what it chooses. -/
def admitted (input : SelectInput) (st : Selecting) (group : UniverseGroup) : List MarketSummary :=
  (chosen input group st.unchosen).take st.budget

/-- A group's entry in the decision. -/
def selectionOf (input : SelectInput) (st : Selecting)
    (group : UniverseGroup) : GroupSelection where
  name := group.name
  tickers := tickersOf (admitted input st group)
  events := ((admitted input st group).map eventKey).dedup.length
  skippedForBudget := (chosen input group st.unchosen).length - (admitted input st group).length

theorem applyGroup_eq (input : SelectInput) (st : Selecting) (group : UniverseGroup) :
    applyGroup input st group =
      { unchosen := (tickersOf (chosen input group st.unchosen)).foldl Dict.erase st.unchosen
        passedOver := (chosenBy input group st.unchosen st.passedOver).2
        groupOf := (tickersOf (admitted input st group)).foldl
          (fun d ticker => d.set ticker group.name) st.groupOf
        showcase :=
          match group.selector with
          | .series _ => st.showcase ∪ (tickersOf (admitted input st group)).toFinset
          | .category _ => st.showcase
        selections := st.selections ++ [selectionOf input st group]
        budget := st.budget - (admitted input st group).length
        counts := st.counts.bump .overCap
          ((chosen input group st.unchosen).length - (admitted input st group).length) } := by
  have hfst := chosenBy_fst input group st.unchosen st.passedOver
  unfold applyGroup selectionOf admitted
  exact hfst ▸ rfl

variable {input : SelectInput} {listed : List MarketSummary} {handed budget : Nat} {st : Selecting}

theorem Loop.applyGroup (h : Loop listed handed budget st) (group : UniverseGroup) :
    Loop listed handed budget (applyGroup input st group) := by
  rw [applyGroup_eq]
  have hmem : ∀ m ∈ chosen input group st.unchosen, st.unchosen.get? m.ticker = some m :=
    fun m hm => get?_of_mem_chosen h.pool hm
  have hnodup := @chosen_nodup input group _ _ h.pool
  have hsub : (admitted input st group).Sublist (chosen input group st.unchosen) :=
    List.take_sublist _ _
  have hlength : (admitted input st group).length ≤ (chosen input group st.unchosen).length :=
    hsub.length_le
  have hin : ∀ t ∈ tickersOf (chosen input group st.unchosen), t ∈ st.unchosen.keys := by
    intro t ht
    obtain ⟨m, hm, rfl⟩ := List.mem_map.mp ht
    exact Dict.mem_keys_of_get? (hmem m hm)
  have hsubt : ∀ t ∈ tickersOf (admitted input st group),
      t ∈ tickersOf (chosen input group st.unchosen) := (hsub.map _).subset
  have hfresh : ∀ t ∈ tickersOf (admitted input st group), t ∉ st.groupOf.keys := fun t ht hmem =>
    h.apart t hmem (hin t (hsubt t ht))
  have hkeys : ((tickersOf (admitted input st group)).foldl
      (fun d ticker => d.set ticker group.name) st.groupOf).keys =
        st.groupOf.keys ++ tickersOf (admitted input st group) := by
    have hset := Dict.keys_foldl_set id (fun _ => group.name) (d := st.groupOf)
      (l := tickersOf (admitted input st group))
      (by rw [List.map_id]; exact hnodup.sublist (hsub.map _)) hfresh
    rwa [List.map_id] at hset
  have herased := Dict.length_foldl_erase hnodup hin
  rw [length_tickersOf] at herased
  have hbudget : (admitted input st group).length ≤ st.budget := List.length_take_le _ _
  constructor
  · intro t m hm
    rw [Dict.get?_foldl_erase] at hm
    split at hm
    · cases hm
    · exact h.pool t m hm
  · have htotal := h.total
    dsimp only
    rw [Counts.total_bump, hkeys, List.length_append, length_tickersOf]
    omega
  · have hb := h.budget
    dsimp only
    rw [hkeys, List.length_append, length_tickersOf]
    omega
  · intro t ht
    rw [hkeys] at ht
    rw [← Dict.get?_eq_none_iff, Dict.get?_foldl_erase]
    split
    · rfl
    · next hnot =>
        rcases List.mem_append.mp ht with ht | ht
        · exact Dict.get?_eq_none_iff.mpr (h.apart t ht)
        · exact absurd (hsubt t ht) hnot
  · dsimp only
    rw [hkeys, List.flatMap_append, ← h.inOrder, List.flatMap_singleton]
    rfl
  · intro t ht
    rw [hkeys] at ht
    rcases List.mem_append.mp ht with ht | ht
    · exact h.listed t ht
    · obtain ⟨m, hm, rfl⟩ := List.mem_map.mp ht
      exact ⟨m, (h.pool _ m (hmem m (hsub.subset hm))).2, rfl⟩

theorem Loop.run (h : Loop listed handed budget st) (groups : List UniverseGroup) :
    Loop listed handed budget (applyGroups input st groups) := by
  induction groups generalizing st with
  | nil => exact h
  | cons group groups ih => exact ih (h.applyGroup group)

theorem countPassedOver_total (st : Selecting) :
    (countPassedOver st).total = st.counts.total + st.unchosen.keys.length := by
  rw [countPassedOver]
  generalize st.unchosen.keys = keys
  generalize st.counts = counts
  induction keys generalizing counts with
  | nil => rw [List.foldl_nil, List.length_nil, Nat.add_zero]
  | cons t keys ih =>
      rw [List.foldl_cons, ih, Counts.total_bump, List.length_cons]
      omega

/-- The eligible markets by ticker. -/
theorem byTicker_spec {listed : List MarketSummary} (h : (tickersOf listed).Nodup) :
    Pool listed (byTicker listed) ∧ (byTicker listed).keys = tickersOf listed ∧
      ∀ m ∈ listed, (byTicker listed).get? m.ticker = some m := by
  have hset : ∀ (d : Dict Ticker MarketSummary) (m : MarketSummary),
      d.set m.ticker m = (some m).elim d (d.set m.ticker) := fun _ _ => rfl
  have hget : ∀ t m, (byTicker listed).get? t = some m ↔
      ∃ a ∈ listed, a.ticker = t ∧ some a = some m := by
    intro t m
    rw [byTicker, Dict.get?_foldl_set hset h fun _ _ => Dict.get?_empty _, Dict.get?_empty]
    simp
  refine ⟨?_, ?_, ?_⟩
  · intro t m hm
    obtain ⟨a, ha, hta, heq⟩ := (hget t m).mp hm
    obtain rfl := Option.some.inj heq
    exact ⟨hta, ha⟩
  · have hkeys := Dict.keys_foldl_set MarketSummary.ticker id (l := listed) (d := ∅) h
      fun _ _ => List.not_mem_nil
    exact hkeys
  · intro m hm
    exact (hget _ _).mpr ⟨m, hm, rfl, rfl⟩

/-- The eligible markets of a selection. -/
def listedOf (markets : List MarketSummary) (input : SelectInput) : List MarketSummary :=
  (eligible markets input.policy input.nowTs fun _ => 0).1

theorem loop_start (markets : List MarketSummary) (input : SelectInput) :
    Loop (listedOf markets input) markets.length input.policy.maxL2Markets
      (selectionStart markets input) := by
  obtain ⟨-, hnodup, htotal⟩ := eligible_spec markets input.policy input.nowTs fun _ => 0
  obtain ⟨hpool, hkeys, -⟩ := byTicker_spec hnodup
  have hzero : Counts.total (fun _ => 0) = 0 := by decide
  constructor
  · exact hpool
  · show (eligible markets input.policy input.nowTs fun _ => 0).2.total +
      (byTicker (listedOf markets input)).keys.length + 0 = _
    rw [listedOf, hkeys, length_tickersOf, htotal, hzero]
    omega
  · rfl
  · exact fun t ht => absurd ht List.not_mem_nil
  · rfl
  · exact fun t ht => absurd ht List.not_mem_nil

/-- The state of the loop before a group. -/
def stateBefore (markets : List MarketSummary) (input : SelectInput) (pre : List UniverseGroup) :
    Selecting :=
  applyGroups input (selectionStart markets input) pre

theorem loop_before (markets : List MarketSummary) (input : SelectInput)
    (pre : List UniverseGroup) :
    Loop (listedOf markets input) markets.length input.policy.maxL2Markets
      (stateBefore markets input pre) :=
  (loop_start markets input).run pre

theorem applyGroups_append (input : SelectInput) (st : Selecting) (pre post : List UniverseGroup) :
    applyGroups input st (pre ++ post) = applyGroups input (applyGroups input st pre) post :=
  List.foldl_append

/-- The entries of some groups, from a state of the loop on. -/
def selectionsFrom (input : SelectInput) : Selecting → List UniverseGroup → List GroupSelection
  | _, [] => []
  | st, group :: groups =>
      selectionOf input st group :: selectionsFrom input (applyGroup input st group) groups

/-- Each group adds its entry. -/
theorem selections_run (input : SelectInput) (st : Selecting) (groups : List UniverseGroup) :
    (applyGroups input st groups).selections = st.selections ++ selectionsFrom input st groups := by
  induction groups generalizing st with
  | nil => exact (List.append_nil _).symm
  | cons group groups ih =>
      have hstep : (applyGroup input st group).selections =
          st.selections ++ [selectionOf input st group] := by rw [applyGroup_eq]
      rw [applyGroups, List.foldl_cons, ← applyGroups, ih, hstep, List.append_assoc]
      rfl

theorem selectionsFrom_names (input : SelectInput) (st : Selecting) (groups : List UniverseGroup) :
    (selectionsFrom input st groups).map GroupSelection.name =
      groups.map UniverseGroup.name := by
  induction groups generalizing st with
  | nil => rfl
  | cons group groups ih =>
      rw [selectionsFrom, List.map_cons, List.map_cons, ih]
      rfl

theorem selectionsFrom_length (input : SelectInput) (st : Selecting)
    (groups : List UniverseGroup) : (selectionsFrom input st groups).length = groups.length := by
  have hnames := congrArg List.length (selectionsFrom_names input st groups)
  rwa [List.length_map, List.length_map] at hnames

theorem selectionsFrom_append (input : SelectInput) (st : Selecting)
    (pre post : List UniverseGroup) :
    selectionsFrom input st (pre ++ post) =
      selectionsFrom input st pre ++ selectionsFrom input (applyGroups input st pre) post := by
  induction pre generalizing st with
  | nil => rfl
  | cons group pre ih =>
      rw [List.cons_append, selectionsFrom, selectionsFrom, ih, List.cons_append]
      rfl

theorem select_groups (markets : List MarketSummary) (input : SelectInput) :
    (select markets input).groups =
      selectionsFrom input (selectionStart markets input) input.policy.groups :=
  (selections_run input (selectionStart markets input) input.policy.groups).trans
    (List.nil_append _)

/-- What was chosen before is not in the pool any more. -/
theorem chosen_gone (input : SelectInput) (st : Selecting) (group : UniverseGroup)
    (later : List UniverseGroup) {t : Ticker}
    (ht : t ∈ tickersOf (chosen input group st.unchosen)) :
    (applyGroups input st (group :: later)).unchosen.get? t = none := by
  have hstep : (applyGroup input st group).unchosen.get? t = none := by
    rw [applyGroup_eq]
    dsimp only
    rw [Dict.get?_foldl_erase, if_pos ht]
  rw [applyGroups, List.foldl_cons]
  generalize applyGroup input st group = st' at hstep ⊢
  induction later generalizing st' with
  | nil => exact hstep
  | cons group' later ih =>
      refine ih _ ?_
      rw [applyGroup_eq]
      dsimp only
      rw [Dict.get?_foldl_erase]
      split
      · rfl
      · exact hstep

/-! ## The decision -/

/-- What a decision says of one group: the markets it lists are the first of
those it chose, which no earlier group chose, and keep its limits if it was
applied. -/
structure GroupAccounted (markets : List MarketSummary) (input : SelectInput)
    (pre : List UniverseGroup) (group : UniverseGroup) (selection : GroupSelection) : Prop where
  name : selection.name = group.name
  first : selection.tickers <+: tickersOf
    (chosen input group (stateBefore markets input pre).unchosen)
  unseen : ∀ earlier group' later, pre = earlier ++ group' :: later →
    ∀ t ∈ tickersOf (chosen input group (stateBefore markets input pre).unchosen),
      t ∉ tickersOf (chosen input group' (stateBefore markets input earlier).unchosen)
  limits : input.pinned.get? group.name = none → ∃ taken,
    selection.tickers = tickersOf taken ∧
      Limits input group (candidates input group (stateBefore markets input pre).unchosen) taken

/-- What a decision accounts for. -/
structure Accounted (markets : List MarketSummary) (input : SelectInput)
    (decision : UniverseDecision) : Prop where
  counted : decision.reasonCounts.total + decision.l2Tickers.card = markets.length
  budget : decision.l2Tickers.card ≤ input.policy.maxL2Markets
  eligible : ∀ t ∈ decision.l2Tickers, ∃ m ∈ markets,
    m.ticker = t ∧ m ∈ decision.markets ∧ rejection m input.policy input.nowTs = none
  listed : ∀ t, t ∈ decision.l2Tickers ↔ ∃ selection ∈ decision.groups, t ∈ selection.tickers
  once : (decision.groups.flatMap GroupSelection.tickers).Nodup
  names : decision.groups.map GroupSelection.name = input.policy.groups.map UniverseGroup.name
  groups : ∀ pre group post, input.policy.groups = pre ++ group :: post →
    ∃ selection, decision.groups[pre.length]? = some selection ∧
      GroupAccounted markets input pre group selection

theorem groupAccounted (markets : List MarketSummary) (input : SelectInput)
    (pre : List UniverseGroup) (group : UniverseGroup) :
    GroupAccounted markets input pre group
      (selectionOf input (stateBefore markets input pre) group) := by
  have hloop := loop_before markets input pre
  constructor
  · rfl
  · exact (List.take_prefix _ _).map _
  · rintro earlier group' later rfl t ht ht'
    obtain ⟨m, hm, rfl⟩ := List.mem_map.mp ht
    have hget := get?_of_mem_chosen hloop.pool hm
    have hgone := chosen_gone input (stateBefore markets input earlier) group' later ht'
    rw [stateBefore, applyGroups_append] at hget
    rw [stateBefore] at hgone
    rw [hget] at hgone
    cases hgone
  · intro hfree
    refine ⟨_, rfl, ?_⟩
    have hlimits := choose_limits input group
      (candidates input group (stateBefore markets input pre).unchosen) ∅
    rw [← chosen_free hfree] at hlimits
    exact hlimits.mono (List.take_sublist _ _)

/-- Every summary handed in is admitted or counted under one reason, and what
is admitted keeps the limits. -/
theorem select_accounted (markets : List MarketSummary) (input : SelectInput) :
    Accounted markets input (select markets input) := by
  have hloop := loop_before markets input input.policy.groups
  obtain ⟨heligible, hnodup, -⟩ := eligible_spec markets input.policy input.nowTs fun _ => 0
  have hcard : (select markets input).l2Tickers.card =
      (stateBefore markets input input.policy.groups).groupOf.keys.length :=
    List.toFinset_card_of_nodup (Dict.nodup _)
  have hmem : ∀ t, t ∈ (select markets input).l2Tickers ↔
      t ∈ (stateBefore markets input input.policy.groups).groupOf.keys :=
    fun t => List.mem_toFinset
  constructor
  · have htotal := hloop.total
    have hcounts := countPassedOver_total (stateBefore markets input input.policy.groups)
    rw [hcard]
    show (countPassedOver (stateBefore markets input input.policy.groups)).total + _ = _
    omega
  · have hbudget := hloop.budget
    rw [hcard]
    omega
  · intro t ht
    rw [hmem] at ht
    obtain ⟨m, hm, rfl⟩ := hloop.listed t ht
    obtain ⟨hin, hrejection⟩ := heligible m hm
    exact ⟨m, hin, rfl, List.mem_filter.mpr ⟨hm, Dict.contains_iff.mpr ht⟩, hrejection⟩
  · intro t
    rw [hmem, hloop.inOrder, List.mem_flatMap]
    exact Iff.rfl
  · have hkeys : ((stateBefore markets input input.policy.groups).selections.flatMap
        GroupSelection.tickers).Nodup := hloop.inOrder ▸ Dict.nodup _
    exact hkeys
  · rw [select_groups]
    exact selectionsFrom_names _ _ _
  · intro pre group post hgroups
    refine ⟨selectionOf input (stateBefore markets input pre) group, ?_,
      groupAccounted markets input pre group⟩
    have hlength := selectionsFrom_length input (selectionStart markets input) pre
    rw [select_groups, hgroups, selectionsFrom_append, selectionsFrom, ← hlength]
    simp [stateBefore]

end Tape.Universe
