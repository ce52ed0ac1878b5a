import Tape.Run
import Tape.Universe.Accounting
import Tape.Universe.Loop

/-!
# What every stretch of the universe loop keeps

The plan, its connections and the decision name the same markets, and every
request is of a group of the policy (`Sound`). One lemma says what each part of
a stretch does to the requests: they only come and get earlier (`Requested`),
until a listing that covers them forgets those made no later than it started
(`listed_spec`).
-/

namespace Tape.Universe

open UniverseLoop

/-! ## What a selection records -/

/-- A decision's summaries are those of the markets it admits, one of each. -/
structure Recorded (d : UniverseDecision) : Prop where
  admitted : ∀ m ∈ d.markets, m.ticker ∈ d.l2Tickers
  summary : ∀ t ∈ d.l2Tickers, ∃ m ∈ d.markets, m.ticker = t
  once : (tickersOf d.markets).Nodup

theorem recorded_select (markets : List MarketSummary) (input : SelectInput) :
    Recorded (select markets input) where
  admitted m hm := List.mem_toFinset.mpr (Dict.contains_iff.mp (List.mem_filter.mp hm).2)
  summary t ht := by
    obtain ⟨m, -, heq, hm, -⟩ := (select_accounted markets input).eligible t ht
    exact ⟨m, hm, heq⟩
  once := by
    obtain ⟨-, hnodup, -⟩ := eligible_spec markets input.policy input.nowTs fun _ => 0
    exact hnodup.sublist (List.filter_sublist.map _)

/-- What a selection records was listed and not rejected. -/
theorem mem_select {markets : List MarketSummary} {input : SelectInput} {m : MarketSummary}
    (h : m ∈ (select markets input).markets) :
    m ∈ markets ∧ rejection m input.policy input.nowTs = none := by
  obtain ⟨heligible, -, -⟩ := eligible_spec markets input.policy input.nowTs fun _ => 0
  exact heligible m (List.mem_filter.mp h).1

theorem mem_connectionsOf {desired : Plan} {t : Ticker} :
    t ∈ (connectionsOf desired).keys ↔ t ∈ desired.tickers := by
  have hinner : ∀ (l : List Ticker) (v : Int) (d : Dict Ticker Int),
      t ∈ (l.foldl (fun d t => d.set t v) d).keys ↔ t ∈ d.keys ∨ t ∈ l := by
    intro l v
    induction l with
    | nil => simp
    | cons t' l ih =>
        intro d
        rw [List.foldl_cons, ih, Dict.mem_keys_set, List.mem_cons]
        tauto
  have houter : ∀ (groups : List Group) (d : Dict Ticker Int),
      t ∈ (groups.foldl (fun d group => (sortedTickers group.tickers).foldl
        (fun d t => d.set t (firstBookConnId + group.connId)) d) d).keys ↔
          t ∈ d.keys ∨ ∃ g ∈ groups, t ∈ g.tickers := by
    intro groups
    induction groups with
    | nil => simp
    | cons g groups ih =>
        intro d
        rw [List.foldl_cons, ih, hinner, mem_sortedTickers, List.exists_mem_cons_iff, or_assoc]
  rw [connectionsOf, houter, mem_planTickers]
  exact or_iff_right List.not_mem_nil

/-- The groups of the policy. -/
def groupNames (c : RecorderConfig) : List String := c.policy.groups.map UniverseGroup.name

/-- The groups a listing lists. -/
def Scope.names (c : RecorderConfig) : Scope → List String
  | .full => groupNames c
  | .groups names _ => names

/-- Whose requests a listing covers: a full one, everyone's. -/
def Scope.Covers : Scope → String → Prop
  | .full, _ => True
  | .groups names _, name => name ∈ names

namespace UniverseLoop

variable {c : RecorderConfig} {s : UniverseLoop}

/-- The listing that was started and has not ended. -/
def inFlight (s : UniverseLoop) : Option Listing :=
  match s.work with
  | .listing listing => some listing
  | .applying _ _ (.listed listing _) => some listing
  | _ => none

/-- A market as it was last reported. -/
def lastReported (s : UniverseLoop) (m : MarketSummary) : MarketSummary :=
  match s.movedCloseTs.get? m.ticker with
  | none => m
  | some closeTs => { m with closeTs := some closeTs }

theorem lastReported_ticker (m : MarketSummary) : (s.lastReported m).ticker = m.ticker := by
  rw [lastReported]
  split
  · rfl
  · rfl

theorem asLastReported_keeps {markets : List MarketSummary} {m : MarketSummary}
    (h : m ∈ s.asLastReported markets) :
    ∃ n ∈ markets, s.lastReported n = m ∧ m.ticker = n.ticker ∧ n.ticker ∉ s.ended := by
  obtain ⟨n, hn, rfl⟩ := List.mem_map.mp h
  obtain ⟨hin, hended⟩ := List.mem_filter.mp hn
  exact ⟨n, hin, rfl, lastReported_ticker n, of_decide_eq_true hended⟩

theorem mem_asLastReported {markets : List MarketSummary} {m : MarketSummary}
    (h : m ∈ s.asLastReported markets) :
    m.ticker ∉ s.ended ∧ ∃ m' ∈ markets, m'.ticker = m.ticker := by
  obtain ⟨n, hn, -, hticker, hended⟩ := asLastReported_keeps h
  exact ⟨hticker ▸ hended, n, hn, hticker.symm⟩

/-! ## Requests -/

/-- Every request is still there, and due no later. -/
def Kept (before after : Dict String PendingRelist) : Prop :=
  ∀ n p, before.get? n = some p → ∃ p', after.get? n = some p' ∧ p'.dueNs ≤ p.dueNs

theorem Kept.refl (relists : Dict String PendingRelist) : Kept relists relists :=
  fun _ p h => ⟨p, h, le_refl _⟩

theorem Kept.trans {a b d : Dict String PendingRelist} (h : Kept a b) (h' : Kept b d) :
    Kept a d := by
  intro n p hp
  obtain ⟨q, hq, hle⟩ := h n p hp
  obtain ⟨r, hr, hle'⟩ := h' n q hq
  exact ⟨r, hr, hle'.trans hle⟩

theorem Kept.keys {a b : Dict String PendingRelist} (h : Kept a b) {n : String}
    (hn : n ∈ a.keys) : n ∈ b.keys := by
  obtain ⟨p, hp⟩ := Dict.mem_keys_iff.mp hn
  obtain ⟨q, hq, -⟩ := h n p hp
  exact Dict.mem_keys_of_get? hq

/-- What some requests, at one reading and due at one time, make of the pending
ones. -/
structure Requested (before after : Dict String PendingRelist) (names : List String)
    (dueNs nowNs : Int) : Prop where
  kept : Kept before after
  made : ∀ n ∈ names, ∃ p, after.get? n = some p ∧ p.dueNs ≤ dueNs ∧ p.requestedNs = nowNs
  others : ∀ n, n ∉ names → after.get? n = before.get? n
  due : ∀ n p, after.get? n = some p →
    p.dueNs = dueNs ∨ ∃ q, before.get? n = some q ∧ p.dueNs = q.dueNs

theorem Requested.keys {before after : Dict String PendingRelist} {names : List String}
    {dueNs nowNs : Int} (h : Requested before after names dueNs nowNs) {n : String}
    (hn : n ∈ after.keys) : n ∈ before.keys ∨ n ∈ names := by
  by_cases hin : n ∈ names
  · exact .inr hin
  · obtain ⟨p, hp⟩ := Dict.mem_keys_iff.mp hn
    exact .inl (Dict.mem_keys_of_get? ((h.others n hin).symm.trans hp))

theorem requestRelist_spec (s : UniverseLoop) (name : String) (dueNs nowNs : Int) :
    ∃ relists, s.requestRelist name dueNs nowNs = { s with relists } ∧
      Requested s.relists relists [name] dueNs nowNs := by
  refine ⟨_, rfl, ?_, ?_, ?_, ?_⟩
  · intro n p hp
    by_cases hne : name = n
    · subst hne
      refine ⟨_, Dict.get?_set_self _ _ _, ?_⟩
      rw [hp]
      exact min_le_left _ _
    · exact ⟨p, (Dict.get?_set_ne hne).trans hp, le_refl _⟩
  · intro n hn
    obtain rfl := List.mem_singleton.mp hn
    refine ⟨_, Dict.get?_set_self _ _ _, ?_, rfl⟩
    split
    · exact le_refl _
    · exact min_le_right _ _
  · intro n hn
    exact Dict.get?_set_ne fun heq => hn (List.mem_singleton.mpr heq.symm)
  · intro n p hp
    rw [Dict.get?_set] at hp
    split at hp
    · next heq =>
        obtain rfl := Option.some.inj hp
        cases hheld : s.relists.get? name with
        | none => exact .inl rfl
        | some q =>
            rcases min_choice q.dueNs dueNs with hmin | hmin
            · exact .inr ⟨q, heq ▸ hheld, hmin⟩
            · exact .inl hmin
    · exact .inr ⟨p, hp, rfl⟩

/-- Requests one after the other are requests of all of the groups. -/
theorem Requested.append {a b d : Dict String PendingRelist} {names names' : List String}
    {dueNs nowNs : Int} (h : Requested a b names dueNs nowNs)
    (h' : Requested b d names' dueNs nowNs) : Requested a d (names ++ names') dueNs nowNs where
  kept := h.kept.trans h'.kept
  made n hn := by
    by_cases hin : n ∈ names'
    · exact h'.made n hin
    · rw [h'.others n hin]
      exact h.made n ((List.mem_append.mp hn).resolve_right hin)
  others n hn := by
    obtain ⟨hout, hout'⟩ := not_or.mp (List.mem_append.not.mp hn)
    rw [h'.others n hout', h.others n hout]
  due n p hp := by
    rcases h'.due n p hp with hdue | ⟨q, hq, heq⟩
    · exact .inl hdue
    · rcases h.due n q hq with hdue | ⟨r, hr, heq'⟩
      · exact .inl (heq.trans hdue)
      · exact .inr ⟨r, hr, heq.trans heq'⟩

theorem requested_nil (relists : Dict String PendingRelist) (dueNs nowNs : Int) :
    Requested relists relists [] dueNs nowNs :=
  ⟨.refl _, nofun, fun _ _ => rfl, fun _ p h => .inr ⟨p, h, rfl⟩⟩

theorem requestRelists_spec (s : UniverseLoop) (names : List String) (dueNs nowNs : Int) :
    ∃ relists, s.requestRelists names dueNs nowNs = { s with relists } ∧
      Requested s.relists relists names dueNs nowNs := by
  induction names generalizing s with
  | nil => exact ⟨s.relists, rfl, requested_nil _ _ _⟩
  | cons name names ih =>
      obtain ⟨first, hfirst, hone⟩ := requestRelist_spec s name dueNs nowNs
      obtain ⟨relists, hrest, hall⟩ := ih { s with relists := first }
      refine ⟨relists, ?_, hone.append hall⟩
      rw [requestRelists, List.foldl_cons, hfirst]
      exact hrest

/-- A listing forgets exactly the requests of its groups that were made no
later than it started. -/
theorem forgetRelists_spec (s : UniverseLoop) (names : List String) (startedNs : Int) :
    ∃ relists, s.forgetRelists names startedNs = { s with relists } ∧
      ∀ n p, relists.get? n = some p ↔
        s.relists.get? n = some p ∧ (n ∉ names ∨ startedNs < p.requestedNs) := by
  induction names generalizing s with
  | nil => exact ⟨s.relists, rfl, fun n p => by simp⟩
  | cons name names ih =>
      have hskip : ∀ {n : String} {p : PendingRelist},
          (n = name → startedNs < p.requestedNs) →
          ((n ∉ names ∨ startedNs < p.requestedNs) ↔
            (n ∉ name :: names ∨ startedNs < p.requestedNs)) := by
        intro n p hname
        rw [List.mem_cons]
        tauto
      rw [forgetRelists, List.foldl_cons]
      split
      · next hnone =>
          obtain ⟨relists, hrest, hget⟩ := ih s
          refine ⟨relists, hrest, fun n p => ?_⟩
          rw [hget, and_congr_right_iff]
          intro hp
          refine hskip fun heq => ?_
          rw [heq, hnone] at hp
          cases hp
      · next pending hpending =>
          split
          · next hcovered =>
              obtain ⟨relists, hrest, hget⟩ := ih { s with relists := s.relists.erase name }
              refine ⟨relists, hrest, fun n p => ?_⟩
              rw [hget]
              by_cases hne : name = n
              · subst hne
                rw [Dict.get?_erase_self, hpending]
                refine iff_of_false (fun h => by cases h.1) ?_
                rintro ⟨heq, hkept⟩
                obtain rfl := Option.some.inj heq
                rcases hkept with hout | hlater
                · exact hout List.mem_cons_self
                · exact absurd hcovered (not_le.mpr hlater)
              · rw [Dict.get?_erase_ne hne, hskip fun heq => absurd heq.symm hne]
          · next hlater =>
              obtain ⟨relists, hrest, hget⟩ := ih s
              refine ⟨relists, hrest, fun n p => ?_⟩
              rw [hget, and_congr_right_iff]
              intro hp
              refine hskip fun heq => ?_
              rw [heq, hpending] at hp
              obtain rfl := Option.some.inj hp
              exact not_le.mp hlater

/-- Whether an event is to be followed up again. -/
def asks (s : UniverseLoop) (key : String × String) (unpriced : List Ticker) : Bool :=
  unpriced ≠ [] ∧ ¬ (s.followUps.get? key).any FollowUp.gaveUp ∧
    (s.followUps.get? key).elim 0 FollowUp.attempts < nearPriceFollowUps

theorem followUpEvent_spec (s : UniverseLoop) (key : String × String) (unpriced : List Ticker)
    (dueNs nowNs : Int) :
    ∃ relists followUps, s.followUpEvent key unpriced dueNs nowNs =
        { s with relists, followUps } ∧
      Requested s.relists relists (if s.asks key unpriced then [key.1] else []) dueNs nowNs ∧
      ∀ k, k ≠ key → followUps.get? k = s.followUps.get? k := by
  have hnothing := requested_nil s.relists dueNs nowNs
  rw [followUpEvent]
  dsimp only
  split
  · next hpriced =>
      have hasks : s.asks key unpriced = false := by simp [asks, hpriced]
      rw [hasks]
      exact ⟨s.relists, _, rfl, hnothing, fun k hk => Dict.get?_erase_ne hk.symm⟩
  · next hunpriced =>
      split
      · next hgave =>
          have hasks : s.asks key unpriced = false := by simp [asks, hgave]
          rw [hasks]
          exact ⟨s.relists, s.followUps, rfl, hnothing, fun _ _ => rfl⟩
      · next hgave =>
          split
          · next hspent =>
              have hasks : s.asks key unpriced = false :=
                decide_eq_false fun h => absurd h.2.2 (not_lt.mpr hspent)
              rw [hasks]
              exact ⟨s.relists, _, rfl, hnothing, fun k hk => Dict.get?_set_ne hk.symm⟩
          · next hleft =>
              have hasks : s.asks key unpriced = true :=
                decide_eq_true ⟨hunpriced, hgave, not_le.mp hleft⟩
              let more : FollowUp := ⟨(s.followUps.get? key).elim 0 FollowUp.attempts + 1, false⟩
              obtain ⟨relists, heq, hrequested⟩ := requestRelist_spec
                { s with followUps := s.followUps.set key more } key.1 dueNs nowNs
              rw [hasks]
              exact ⟨relists, _, heq, hrequested, fun k hk => Dict.get?_set_ne hk.symm⟩

/-- The unpriced markets of an admitted event. -/
def unpricedOf (decision : UniverseDecision) (tickers : List Ticker) : List Ticker :=
  tickers.filter fun t => (((byTicker decision.markets).get? t).bind yesMid).isNone

/-- The groups a listing of some groups asks to list again, once its decision
is applied. -/
def followUpsAsked (c : RecorderConfig) (s : UniverseLoop) (decision : UniverseDecision)
    (names : List String) : List String :=
  ((admittedEvents decision).entries.filter fun e =>
    e.1.1 ∈ followedGroups c.policy names ∧ s.asks e.1 (unpricedOf decision e.2)).map
      fun e => e.1.1

theorem followUpUnpriced_spec (c : RecorderConfig) (s : UniverseLoop)
    (decision : UniverseDecision) (names : List String) (startedNs nowNs : Int) :
    ∃ relists followUps, s.followUpUnpriced c decision names startedNs nowNs =
        { s with relists, followUps } ∧
      Requested s.relists relists (s.followUpsAsked c decision names)
        (startedNs + relistMinIntervalS * nsPerS) nowNs := by
  let dueNs := startedNs + relistMinIntervalS * nsPerS
  have hrun : ∀ (entries : List ((String × String) × List Ticker)) (s : UniverseLoop),
      (entries.map Prod.fst).Nodup →
      ∃ relists followUps, entries.foldl (fun s e =>
          if e.1.1 ∈ followedGroups c.policy names then
            s.followUpEvent e.1 (unpricedOf decision e.2) dueNs nowNs
          else s) s = { s with relists, followUps } ∧
        Requested s.relists relists ((entries.filter fun e =>
          e.1.1 ∈ followedGroups c.policy names ∧ s.asks e.1 (unpricedOf decision e.2)).map
            fun e => e.1.1) dueNs nowNs := by
    intro entries
    induction entries with
    | nil =>
        intro s _
        exact ⟨s.relists, s.followUps, rfl, requested_nil _ _ _⟩
    | cons e entries ih =>
        intro s hn
        obtain ⟨hout, hn⟩ := List.nodup_cons.mp hn
        rw [List.foldl_cons]
        split
        · next hfollowed =>
            obtain ⟨first, followUps, hfirst, hone, hothers⟩ := followUpEvent_spec s e.1
              (unpricedOf decision e.2) dueNs nowNs
            rw [hfirst]
            obtain ⟨relists, followUps', hrest, hall⟩ :=
              ih { s with relists := first, followUps } hn
            refine ⟨relists, followUps', hrest, ?_⟩
            -- the later entries have other keys, so they ask as they would have before
            have hsame : ∀ e' ∈ entries, asks { s with relists := first, followUps } e'.1
                (unpricedOf decision e'.2) = s.asks e'.1 (unpricedOf decision e'.2) := by
              intro e' he'
              have hne : e'.1 ≠ e.1 := fun heq => hout (heq ▸ List.mem_map_of_mem he')
              rw [asks, asks, hothers e'.1 hne]
            have hfilter : (entries.filter fun e' => decide
                (e'.1.1 ∈ followedGroups c.policy names ∧
                  asks { s with relists := first, followUps }
                  e'.1 (unpricedOf decision e'.2) = true)) =
                entries.filter fun e' => decide (e'.1.1 ∈ followedGroups c.policy names ∧
                  s.asks e'.1 (unpricedOf decision e'.2) = true) :=
              List.filter_congr fun e' he' => by rw [hsame e' he']
            rw [hfilter] at hall
            by_cases hasks : s.asks e.1 (unpricedOf decision e.2) = true
            · rw [if_pos hasks] at hone
              rw [List.filter_cons_of_pos (by simp [hfollowed, hasks]), List.map_cons]
              exact hone.append hall
            · rw [if_neg hasks] at hone
              rw [List.filter_cons_of_neg (by simp [hasks])]
              exact hone.append hall
        · next hnot =>
            obtain ⟨relists, followUps, hrest, hall⟩ := ih s hn
            rw [List.filter_cons_of_neg (by simp [hnot])]
            exact ⟨relists, followUps, hrest, hall⟩
  exact hrun (admittedEvents decision).entries s (admittedEvents decision).nodup

/-- The groups a lifecycle event asks for. -/
def opened (c : RecorderConfig) (event : LifecycleEvent) : List String :=
  if event.eventType ∈ openedTypes then seriesGroups c.policy (seriesOf event.ticker) else []

/-- The markets reported ended, with the one of an event. -/
def endedWith (s : UniverseLoop) (event : LifecycleEvent) : Finset Ticker :=
  if event.eventType ∈ endedTypes ∧ s.planned event.ticker then insert event.ticker s.ended
  else s.ended

theorem opened_eq_nil {event : LifecycleEvent} (h : event.eventType ∉ openedTypes) :
    opened c event = [] :=
  if_neg h

/-- What a lifecycle event is noted as. -/
theorem noteLifecycle_spec (c : RecorderConfig) (s : UniverseLoop) (event : LifecycleEvent)
    (monoNs : Int) :
    ∃ relists movedCloseTs, s.noteLifecycle c event monoNs =
        { s with relists, ended := s.endedWith event, movedCloseTs } ∧
      Requested s.relists relists (opened c event) (monoNs + relistDebounceS * nsPerS) monoNs := by
  rw [noteLifecycle]
  by_cases hended : event.eventType ∈ endedTypes
  · have hnone : opened c event = [] := by
      refine opened_eq_nil fun hopened => ?_
      simp only [endedTypes, List.mem_cons, List.not_mem_nil, or_false] at hended
      rcases hended with h | h
      · rw [h] at hopened
        exact absurd hopened (by decide)
      · rw [h] at hopened
        exact absurd hopened (by decide)
    rw [if_pos hended, hnone, endedWith]
    by_cases hplanned : s.planned event.ticker = true
    · rw [if_pos hplanned, if_pos ⟨hended, hplanned⟩]
      exact ⟨_, _, rfl, requested_nil _ _ _⟩
    · rw [if_neg hplanned, if_neg fun h => hplanned h.2]
      exact ⟨_, _, rfl, requested_nil _ _ _⟩
  · have hsame : s.endedWith event = s.ended := if_neg fun h => hended h.1
    rw [if_neg hended, hsame]
    split
    · next hmoved =>
        have hnone : opened c event = [] := by
          refine opened_eq_nil fun hopened => ?_
          rw [hmoved] at hopened
          exact absurd hopened (by decide)
        rw [hnone]
        split
        · exact ⟨_, _, rfl, requested_nil _ _ _⟩
        · split
          · exact ⟨_, _, rfl, requested_nil _ _ _⟩
          · exact ⟨_, _, rfl, requested_nil _ _ _⟩
    · split
      · next hopened =>
          rw [opened, if_pos hopened]
          obtain ⟨relists, heq, hrequested⟩ := requestRelists_spec s
            (seriesGroups c.policy (seriesOf event.ticker)) (monoNs + relistDebounceS * nsPerS)
            monoNs
          exact ⟨relists, _, heq, hrequested⟩
      · next hopened =>
          rw [opened_eq_nil hopened]
          exact ⟨_, _, rfl, requested_nil _ _ _⟩

/-- The plan of a decision within the budget has exactly its markets. -/
theorem desiredPlan_spec {decision : UniverseDecision} (hv : s.plan.Valid)
    (hbudget : decision.l2Tickers.card ≤ c.policy.maxL2Markets) :
    (s.desiredPlan c decision).Valid ∧ (s.desiredPlan c decision).tickers = decision.l2Tickers := by
  obtain ⟨desired, hok, hplan⟩ := plan_plansFor (sortedTickers decision.l2Tickers) c.sizes.1
    c.sizes.2 (some s.plan) fun p hp => Option.some.inj hp ▸ hv
  have heq : s.desiredPlan c decision = desired := by rw [desiredPlan, hok]
  rw [heq]
  refine ⟨hplan.valid, ?_⟩
  have hwanted := hplan.wanted
  have hcard := hplan.card
  rw [toFinset_sortedTickers] at hwanted hcard
  refine Finset.eq_of_subset_of_card_le hwanted ?_
  have hfits : (decision.l2Tickers.card : Int) ≤ c.groupSize * c.bookConnections := by
    have hcapacity := c.capacity
    rw [mul_comm] at hcapacity
    have : (decision.l2Tickers.card : Int) ≤ c.policy.maxL2Markets := by exact_mod_cast hbudget
    omega
  rw [min_eq_left hfits] at hcard
  omega

/-! ## What every stretch keeps -/

/-- The plan, its connections and the decision it follows name the same
markets, what is being applied likewise, and every request is of a group of the
policy. -/
structure Sound (c : RecorderConfig) (s : UniverseLoop) : Prop where
  valid : s.plan.Valid
  connected : s.connOf = connectionsOf s.plan
  none : s.current = none → s.plan.tickers = ∅
  follows : ∀ d, s.current = some d → Recorded d ∧ s.plan.tickers = d.l2Tickers
  applying : ∀ desired decision after, s.work = .applying desired decision after →
    desired.Valid ∧ desired.tickers = decision.l2Tickers ∧ Recorded decision
  named : ∀ n ∈ s.relists.keys, n ∈ groupNames c

theorem sound_start (c : RecorderConfig) (startedNs : Int) : Sound c (start startedNs) where
  valid := ⟨nofun, List.Pairwise.nil, List.nodup_nil, List.Pairwise.nil⟩
  connected := rfl
  none _ := rfl
  follows _ h := nomatch h
  applying _ _ _ h := nomatch h
  named _ hn := absurd hn List.not_mem_nil

theorem Sound.planned_iff (h : Sound c s) {t : Ticker} :
    s.planned t = true ↔ t ∈ s.plan.tickers := by
  rw [planned, Dict.contains_iff, h.connected, mem_connectionsOf]

/-- Other fields may change. -/
theorem Sound.frame (h : Sound c s) {s' : UniverseLoop} (hplan : s'.plan = s.plan)
    (hconn : s'.connOf = s.connOf) (hcurrent : s'.current = s.current)
    (hwork : s'.work = s.work ∨
      ∀ desired decision after, s'.work ≠ .applying desired decision after)
    (hnamed : ∀ n ∈ s'.relists.keys, n ∈ groupNames c) : Sound c s' where
  valid := by
    rw [hplan]
    exact h.valid
  connected := by
    rw [hconn, hplan]
    exact h.connected
  none hn := by
    rw [hplan]
    exact h.none (hcurrent ▸ hn)
  follows d hd := by
    rw [hplan]
    exact h.follows d (hcurrent ▸ hd)
  applying desired decision after hw := by
    rcases hwork with heq | hno
    · exact h.applying desired decision after (heq ▸ hw)
    · exact absurd hw (hno desired decision after)
  named := hnamed

theorem Sound.requestRelists (h : Sound c s) {names : List String} {dueNs nowNs : Int}
    (hnames : ∀ n ∈ names, n ∈ groupNames c) : Sound c (s.requestRelists names dueNs nowNs) := by
  obtain ⟨relists, heq, hrequested⟩ := requestRelists_spec s names dueNs nowNs
  rw [heq]
  refine h.frame rfl rfl rfl (.inl rfl) fun n hn => ?_
  rcases hrequested.keys hn with hn | hn
  · exact h.named n hn
  · exact hnames n hn

theorem mem_groupNames_of_filter {p : UniverseGroup → Bool} {n : String}
    (h : n ∈ (c.policy.groups.filter p).map UniverseGroup.name) : n ∈ groupNames c := by
  obtain ⟨group, hgroup, rfl⟩ := List.mem_map.mp h
  exact List.mem_map_of_mem (List.mem_filter.mp hgroup).1

theorem mem_opened {event : LifecycleEvent} {n : String} (h : n ∈ opened c event) :
    n ∈ groupNames c := by
  rw [opened] at h
  split at h
  · exact mem_groupNames_of_filter h
  · cases h

theorem Sound.noteLifecycle (h : Sound c s) (event : LifecycleEvent) (monoNs : Int) :
    Sound c (s.noteLifecycle c event monoNs) := by
  obtain ⟨relists, movedCloseTs, heq, hrequested⟩ := noteLifecycle_spec c s event monoNs
  rw [heq]
  refine h.frame rfl rfl rfl (.inl rfl) fun n hn => ?_
  rcases hrequested.keys hn with hn | hn
  · exact h.named n hn
  · exact mem_opened hn

/-- A selection is applied. -/
theorem Sound.beginApply (h : Sound c s) (markets : List MarketSummary) {input : SelectInput}
    (hpolicy : input.policy = c.policy) (after : After) :
    Sound c (s.beginApply c (select markets input) after) where
  valid := h.valid
  connected := h.connected
  none := h.none
  follows := h.follows
  applying desired decision after' hw := by
    cases hw
    have hbudget := (select_accounted markets input).budget
    rw [hpolicy] at hbudget
    obtain ⟨hvalid, htickers⟩ := desiredPlan_spec h.valid hbudget
    exact ⟨hvalid, htickers, recorded_select markets input⟩
  named := h.named

theorem Sound.install (h : Sound c s) {desired : Plan} {decision : UniverseDecision} {after : After}
    (hw : s.work = .applying desired decision after) : Sound c (s.install desired decision) := by
  obtain ⟨hvalid, htickers, hrecorded⟩ := h.applying desired decision after hw
  constructor
  · exact hvalid
  · rfl
  · exact nofun
  · intro d hd
    obtain rfl := Option.some.inj hd
    exact ⟨hrecorded, htickers⟩
  · exact h.applying
  · exact h.named

theorem Sound.relistIfDue (h : Sound c s) (current : UniverseDecision) (nowNs startedNs : Int) :
    Sound c (s.relistIfDue c current nowNs startedNs) := by
  rw [UniverseLoop.relistIfDue]
  split
  · exact h.frame rfl rfl rfl (.inr nofun) h.named
  · exact h.frame rfl rfl rfl (.inr nofun) h.named

theorem Sound.wake (h : Sound c s) (monoNs wallNs startedNs : Int) :
    Sound c (s.wake c monoNs wallNs startedNs) := by
  rw [UniverseLoop.wake]
  split
  · exact h.frame rfl rfl rfl (.inr nofun) h.named
  · split
    · exact h
    · dsimp only
      split
      · exact h.relistIfDue _ _ _
      · refine Sound.beginApply (h.requestRelists fun n hn => mem_groupNames_of_filter hn) _ rfl _

theorem mem_followUpsAsked {decision : UniverseDecision} {names : List String} {n : String}
    (h : n ∈ s.followUpsAsked c decision names) : n ∈ groupNames c := by
  obtain ⟨e, he, rfl⟩ := List.mem_map.mp h
  exact mem_groupNames_of_filter (of_decide_eq_true (List.mem_filter.mp he).2).1

/-- What a listing does to the requests: it forgets those it covers, and may
ask again for a group to follow up. -/
theorem listed_spec (c : RecorderConfig) (s : UniverseLoop) (decision : UniverseDecision)
    (listing : Listing) (read : MarketListing) (nowNs : Int) :
    ∃ left relists followUps ended refreshDueNs,
      s.listed c decision listing read nowNs =
        { s with relists, followUps, ended, refreshDueNs, work := .idle } ∧
      (ended = match listing.scope with
        | .full => s.ended.filter fun t => t ∈ tickersOf read.markets
        | .groups _ _ => s.ended) ∧
      (∀ n p, left.get? n = some p ↔ s.relists.get? n = some p ∧
        (listing.scope.Covers n → listing.startedNs < p.requestedNs)) ∧
      Requested left relists (s.followUpsAsked c decision (listing.scope.names c))
        (listing.startedNs + relistMinIntervalS * nsPerS) nowNs := by
  rw [listed]
  split
  · next hscope =>
      rw [hscope]
      dsimp only
      obtain ⟨left, heq, hget⟩ := forgetRelists_spec
        { s with ended := s.ended.filter fun t => t ∈ tickersOf read.markets } s.relists.keys
        listing.startedNs
      rw [heq]
      obtain ⟨relists, followUps, heq', hrequested⟩ := followUpUnpriced_spec c
        { s with ended := s.ended.filter fun t => t ∈ tickersOf read.markets, relists := left }
        decision (groupNames c) listing.startedNs nowNs
      rw [groupNames] at heq'
      rw [heq']
      refine ⟨left, relists, followUps, _, _, rfl, rfl, fun n p => ?_, hrequested⟩
      rw [hget, and_congr_right_iff]
      intro hp
      rw [or_iff_right (not_not_intro (Dict.mem_keys_of_get? hp))]
      exact ⟨fun hlater _ => hlater, fun hlater => hlater trivial⟩
  · next names previous hscope =>
      rw [hscope]
      dsimp only
      obtain ⟨left, heq, hget⟩ := forgetRelists_spec s names listing.startedNs
      rw [heq]
      obtain ⟨relists, followUps, heq', hrequested⟩ := followUpUnpriced_spec c
        { s with relists := left } decision names listing.startedNs nowNs
      rw [heq']
      refine ⟨left, relists, followUps, s.ended, s.refreshDueNs, rfl, rfl, fun n p => ?_,
        hrequested⟩
      rw [hget, ← imp_iff_not_or]
      rfl

theorem Sound.listed (h : Sound c s) (decision : UniverseDecision) (listing : Listing)
    (read : MarketListing) (nowNs : Int) : Sound c (s.listed c decision listing read nowNs) := by
  obtain ⟨left, relists, followUps, ended, refreshDueNs, heq, -, hleft, hrequested⟩ :=
    listed_spec c s decision listing read nowNs
  rw [heq]
  refine h.frame rfl rfl rfl (.inr nofun) fun n hn => ?_
  rcases hrequested.keys hn with hn | hn
  · obtain ⟨p, hp⟩ := Dict.mem_keys_iff.mp hn
    exact h.named n (Dict.mem_keys_of_get? ((hleft n p).mp hp).1)
  · exact mem_followUpsAsked hn

theorem Sound.step (h : Sound c s) (act : Act) : Sound c (s.step c act) := by
  cases act with
  | lifecycle event monoNs => exact h.noteLifecycle event monoNs
  | wake monoNs wallNs startedNs =>
      rw [UniverseLoop.step]
      split
      · exact h.wake monoNs wallNs startedNs
      · exact h
  | arrive read categories wallNs =>
      rw [UniverseLoop.step]
      split
      · next listing _ =>
          rw [decisionOf.eq_def]
          split
          · exact h.beginApply _ rfl _
          · exact h.beginApply _ rfl _
      · exact h
  | failed monoNs retryInNs =>
      rw [UniverseLoop.step]
      split
      · exact h.frame rfl rfl rfl (.inr nofun) h.named
      · exact h.frame rfl rfl rfl (.inr nofun) h.named
      · exact h
  | applied monoNs startedNs =>
      rw [UniverseLoop.step]
      split
      · next desired decision hw => exact (h.install hw).relistIfDue _ _ _
      · next desired decision listing read hw => exact (h.install hw).listed _ _ _ _
      · exact h

theorem sound_run (c : RecorderConfig) (startedNs : Int) (acts : List Act) :
    Run.Throughout (step c) (Sound c) (start startedNs) acts :=
  Run.throughout_of_step (L := fun _ _ => True) (fun _ act h _ => h.step act)
    (sound_start c startedNs) (Run.along_true _ acts)

/-- One series group, refreshed every second. -/
def oneSeries : RecorderConfig where
  policy :=
    { minVolume24h := 0
      maxL2Markets := 1
      groups :=
        [{ name := "games"
           events := 1
           marketsPerEvent := 1
           selector := .series ["KXGAME"]
           maxMarkets := none
           maxHoursToClose := none
           marketOrder := .nearPrice
           named := by decide
           selects := ⟨by decide, by decide, by decide⟩
           positive := UniverseGroup.positive_one }]
      excludeMve := true
      maxSecondsToClose := none
      horizon := by decide
      once := by decide }
  groupSize := 1
  bookConnections := 1
  universeRefreshS := 1
  sizes := by decide
  capacity := by decide

end UniverseLoop

end Tape.Universe
