import Tape.Universe.Accounting

/-!
# Pinned groups and larger budgets

What a group chooses does not depend on the budget, so under any budget the
admitted markets of all groups, one after another, are the first of one list
(`choices`). And a group pinned to what it admitted admits that again: until
the budget is spent it chose no more than that, so the pool goes on as it was,
and afterwards no group admits anything, whatever is left in the pool.
-/

namespace Tape.Universe

/-! ## Budgets -/

/-- What the groups would admit without a budget, one after another. -/
def choices (input : SelectInput) : Dict Ticker MarketSummary → List UniverseGroup → List Ticker
  | _, [] => []
  | pool, group :: groups =>
      tickersOf (chosen input group pool) ++
        choices input ((tickersOf (chosen input group pool)).foldl Dict.erase pool) groups

/-- With a budget they admit the first of those. -/
theorem selectionsFrom_tickers (input : SelectInput) (st : Selecting)
    (groups : List UniverseGroup) :
    (selectionsFrom input st groups).flatMap GroupSelection.tickers =
      (choices input st.unchosen groups).take st.budget := by
  induction groups generalizing st with
  | nil => exact List.take_nil.symm
  | cons group groups ih =>
      have hbudget : (applyGroup input st group).budget =
          st.budget - (tickersOf (chosen input group st.unchosen)).length := by
        rw [applyGroup_eq, length_tickersOf]
        dsimp only
        rw [admitted, List.length_take]
        omega
      have hpool : (applyGroup input st group).unchosen =
          (tickersOf (chosen input group st.unchosen)).foldl Dict.erase st.unchosen := by
        rw [applyGroup_eq]
      have hhead : (selectionOf input st group).tickers =
          (tickersOf (chosen input group st.unchosen)).take st.budget := List.map_take
      rw [selectionsFrom, List.flatMap_cons, ih, hbudget, hpool, choices, List.take_append, hhead]

/-- The same input with another budget. -/
def SelectInput.withBudget (input : SelectInput) (budget : Nat) : SelectInput :=
  { input with policy := { input.policy with maxL2Markets := budget } }

/-- The groups choose alike under any budget. -/
theorem choices_withBudget (input : SelectInput) (budget : Nat) (pool : Dict Ticker MarketSummary)
    (groups : List UniverseGroup) :
    choices (input.withBudget budget) pool groups = choices input pool groups := by
  have hchosen : ∀ group pool, chosen (input.withBudget budget) group pool =
      chosen input group pool := fun _ _ => rfl
  induction groups generalizing pool with
  | nil => rfl
  | cons group groups ih => rw [choices, choices, hchosen, ih]

/-- The admitted markets of all groups, one after another. -/
def admittedInOrder (decision : UniverseDecision) : List Ticker :=
  decision.groups.flatMap GroupSelection.tickers

theorem admittedInOrder_eq (markets : List MarketSummary) (input : SelectInput) (budget : Nat) :
    admittedInOrder (select markets (input.withBudget budget)) =
      (choices input (byTicker (listedOf markets input)) input.policy.groups).take budget := by
  rw [admittedInOrder, select_groups, selectionsFrom_tickers, choices_withBudget]
  rfl

/-! ## Pins -/

section

variable {input : SelectInput} {group : UniverseGroup} {listed : List MarketSummary}
  {pool : Dict Ticker MarketSummary} {st st' : Selecting}

theorem fromKeys_of_nodup {l : List Ticker} (h : l.Nodup) : fromKeys l = l := by
  have hkeys := Dict.keys_foldl_set id (fun _ => ()) (l := l) (d := ∅) (by rwa [List.map_id])
    fun _ _ => List.not_mem_nil
  rw [List.map_id] at hkeys
  exact hkeys

/-- The pool gives back the markets of their tickers. -/
theorem filterMap_tickersOf {markets : List MarketSummary}
    (h : ∀ m ∈ markets, pool.get? m.ticker = some m) :
    (tickersOf markets).filterMap pool.get? = markets := by
  induction markets with
  | nil => rfl
  | cons m markets ih =>
      rw [tickersOf, List.map_cons, List.filterMap_cons_some (h m List.mem_cons_self), ← tickersOf,
        ih fun m' hm' => h m' (List.mem_cons_of_mem _ hm')]

/-- A group pinned to markets it chose chooses these. -/
theorem chosen_repinned {fewer : List MarketSummary} (h : Pool listed pool)
    (hfewer : fewer.Sublist (chosen input group pool)) {input' : SelectInput}
    (hpin : input'.pinned.get? group.name = some (tickersOf fewer)) :
    chosen input' group pool = fewer := by
  have hnodup : (tickersOf fewer).Nodup := (chosen_nodup h).sublist (hfewer.map _)
  rw [chosen_pinned hpin, fromKeys_of_nodup hnodup]
  exact filterMap_tickersOf fun m hm => get?_of_mem_chosen h (hfewer.subset hm)

/-- Two states in which the groups that follow admit the same. -/
def Abreast (st st' : Selecting) : Prop :=
  (st'.unchosen = st.unchosen ∧ st'.budget = st.budget) ∨ (st.budget = 0 ∧ st'.budget = 0)

/-- The selection with other pins. -/
def SelectInput.repin (input : SelectInput) (pins : Dict String (List Ticker)) : SelectInput :=
  { input with pinned := pins }

variable {pins : Dict String (List Ticker)}

/-- A group whose pins did not change, or that is pinned to what it admitted,
admits what it admitted, and leaves the states abreast. -/
theorem abreast_step (hpool : Pool listed st.unchosen) (h : Abreast st st')
    (hpins : pins.get? group.name = input.pinned.get? group.name ∨
      pins.get? group.name = some (selectionOf input st group).tickers) :
    (selectionOf (input.repin pins) st' group).tickers = (selectionOf input st group).tickers ∧
      Abreast (applyGroup input st group) (applyGroup (input.repin pins) st' group) := by
  rw [applyGroup_eq, applyGroup_eq]
  rcases h with ⟨hsame, hbudget⟩ | ⟨hspent, hspent'⟩
  · rcases hpins with hpins | hpins
    · have hchosen : chosen (input.repin pins) group st.unchosen =
          chosen input group st.unchosen := by
        have hpinned : (input.repin pins).pinned.get? group.name =
            input.pinned.get? group.name := hpins
        rw [chosen, chosen, chosenBy, chosenBy, hpinned]
        rfl
      have hadmitted : admitted (input.repin pins) st' group = admitted input st group := by
        rw [admitted, admitted, hsame, hbudget, hchosen]
      refine ⟨congrArg tickersOf hadmitted, .inl ⟨?_, ?_⟩⟩
      · dsimp only
        rw [hsame, hchosen]
      · dsimp only
        rw [hadmitted, hbudget]
    · have hsub : (admitted input st group).Sublist (chosen input group st.unchosen) :=
        List.take_sublist _ _
      have hchosen : chosen (input.repin pins) group st.unchosen = admitted input st group :=
        chosen_repinned hpool hsub hpins
      have hlength : (admitted input st group).length ≤ st.budget := List.length_take_le _ _
      have hadmitted : admitted (input.repin pins) st' group = admitted input st group := by
        rw [admitted, hsame, hbudget, hchosen, List.take_of_length_le hlength]
      refine ⟨congrArg tickersOf hadmitted, ?_⟩
      by_cases hall : (chosen input group st.unchosen).length ≤ st.budget
      · have heq : admitted input st group = chosen input group st.unchosen :=
          List.take_of_length_le hall
        refine .inl ⟨?_, ?_⟩
        · dsimp only
          rw [hsame, hchosen, heq]
        · dsimp only
          rw [hadmitted, hbudget]
      · -- The budget ends here, so the pool no longer matters.
        have hspent : (admitted input st group).length = st.budget := by
          rw [admitted, List.length_take]
          omega
        refine .inr ⟨?_, ?_⟩
        · dsimp only
          omega
        · dsimp only
          rw [hadmitted]
          omega
  · have hnone : admitted input st group = [] := by rw [admitted, hspent, List.take_zero]
    have hnone' : admitted (input.repin pins) st' group = [] := by
      rw [admitted, hspent', List.take_zero]
    refine ⟨congrArg tickersOf (hnone'.trans hnone.symm), .inr ⟨?_, ?_⟩⟩
    · dsimp only
      omega
    · dsimp only
      omega

/-- Group after group admits what it admitted. -/
theorem abreast_run {handed budget : Nat} (hloop : Loop listed handed budget st)
    (h : Abreast st st') {groups : List UniverseGroup}
    (hnames : (groups.map UniverseGroup.name).Nodup)
    (hpins : ∀ group ∈ groups, pins.get? group.name = input.pinned.get? group.name ∨
      ∃ selection ∈ selectionsFrom input st groups, selection.name = group.name ∧
        pins.get? group.name = some selection.tickers) :
    (selectionsFrom (input.repin pins) st' groups).map GroupSelection.tickers =
      (selectionsFrom input st groups).map GroupSelection.tickers := by
  induction groups generalizing st st' with
  | nil => rfl
  | cons group groups ih =>
      rw [List.map_cons, List.nodup_cons] at hnames
      have htail : ∀ selection ∈ selectionsFrom input (applyGroup input st group) groups,
          selection.name ≠ group.name := by
        intro selection hs heq
        have hmem := List.mem_map_of_mem (f := GroupSelection.name) hs
        rw [selectionsFrom_names, heq] at hmem
        exact hnames.1 hmem
      have hhead : pins.get? group.name = input.pinned.get? group.name ∨
          pins.get? group.name = some (selectionOf input st group).tickers := by
        refine (hpins group List.mem_cons_self).imp_right ?_
        rintro ⟨selection, hs, hname, hpin⟩
        rcases List.mem_cons.mp hs with rfl | hs
        · exact hpin
        · exact absurd hname (htail selection hs)
      obtain ⟨htickers, hnext⟩ := abreast_step hloop.pool h hhead
      have hrest := ih (hloop.applyGroup group) hnext hnames.2 fun group' hg' => by
        refine (hpins group' (List.mem_cons_of_mem _ hg')).imp_right ?_
        rintro ⟨selection, hs, hname, hpin⟩
        rcases List.mem_cons.mp hs with rfl | hs
        · refine absurd (List.mem_map.mpr ⟨group', hg', ?_⟩) hnames.1
          exact hname.symm
        · exact ⟨selection, hs, hname, hpin⟩
      rw [selectionsFrom, selectionsFrom, List.map_cons, List.map_cons, htickers, hrest]

end

/-- Some of the groups of a decision are pinned to what they admitted, the
others as they were. -/
def PinnedToAdmitted (input : SelectInput) (decision : UniverseDecision)
    (pins : Dict String (List Ticker)) : Prop :=
  ∀ group ∈ input.policy.groups, pins.get? group.name = input.pinned.get? group.name ∨
    ∃ selection ∈ decision.groups, selection.name = group.name ∧
      pins.get? group.name = some selection.tickers

/-- Selecting again with pins changes no list, and a larger budget only appends. -/
theorem select_stable (markets : List MarketSummary) (input : SelectInput) :
    (∀ pins, PinnedToAdmitted input (select markets input) pins →
      (select markets (input.repin pins)).groups.map (fun s => (s.name, s.tickers)) =
        (select markets input).groups.map fun s => (s.name, s.tickers)) ∧
      ∀ budget larger, budget ≤ larger →
        admittedInOrder (select markets (input.withBudget budget)) =
          (admittedInOrder (select markets (input.withBudget larger))).take budget := by
  constructor
  · intro pins hpins
    have hloop := loop_start markets input
    rw [PinnedToAdmitted, select_groups] at hpins
    have habreast : Abreast (selectionStart markets input)
        (selectionStart markets (input.repin pins)) := .inl ⟨rfl, rfl⟩
    have htickers := abreast_run hloop habreast input.policy.once hpins
    rw [select_groups, select_groups, ← List.zip_map', ← List.zip_map', selectionsFrom_names,
      selectionsFrom_names]
    exact congrArg _ htickers
  · intro budget larger hle
    rw [admittedInOrder_eq, admittedInOrder_eq, List.take_take, Nat.min_eq_left hle]

/-- Two groups, the first of which is pinned to the one market it admitted of
two; the budget ends there. -/
theorem select_repinned :
    let summary (ticker : Ticker) (volume24h : Int) : MarketSummary :=
      ⟨ticker, "KXA", ticker, 0, "active", volume24h, some 5000, false, none, none, none, none⟩
    let group (name : String) (h : name ≠ "") : UniverseGroup :=
      ⟨name, 2, 1, .series ["KXA"], none, none, .volume, h, by simp [Selector.Valid], by decide⟩
    let markets := [summary "KXA-1" 10, summary "KXA-2" 20]
    let input : SelectInput :=
      { policy := ⟨0, 1, [group "first" (by decide), group "second" (by decide)], true, none,
          nofun, by decide⟩
        nowTs := 0
        categories := ∅
        pinned := ∅ }
    let pins := (∅ : Dict String (List Ticker)).set "first" ["KXA-1"]
    (select markets (input.repin pins)).groups.map (fun s => (s.name, s.tickers)) =
        (select markets input).groups.map (fun s => (s.name, s.tickers)) ∧
      admittedInOrder (select markets (input.withBudget 1)) =
        (admittedInOrder (select markets (input.withBudget 2))).take 1 := by
  intro summary group markets input pins
  have hadmitted : ⟨"first", ["KXA-1"], 1, 1⟩ ∈ (select markets input).groups := by
    decide +kernel
  refine ⟨(select_stable markets input).1 pins ?_, (select_stable markets input).2 1 2 (by decide)⟩
  intro g hg
  rcases List.mem_cons.mp hg with rfl | hg
  · exact .inr ⟨_, hadmitted, rfl, rfl⟩
  · rw [List.mem_singleton.mp hg]
    exact .inl rfl

end Tape.Universe
