import Tape.Universe.Sound

/-!
# Markets that settled, and the listings that still show them

A market reported determined or settled is left out of what a listing shows,
as long as the report is kept. It is kept if the market was planned when it was
reported, and until a full listing is installed that does not show the market,
whether or not that listing was complete, or was begun after the report.

The promise is the other way round: the market stays out whatever the plan was,
until a complete full listing begun after the report omitted it and a later
listing shows it again. `settled_stays_out` says on which runs it holds.
-/

namespace Tape.Universe

open UniverseLoop

/-- Whether a listing shows the market, or is not one that would have to. -/
def Listing.shows (t : Ticker) (listing : Listing) (read : MarketListing) : Bool :=
  match listing.scope with
  | .full => t ∈ tickersOf read.markets
  | .groups _ _ => true

namespace UniverseLoop

variable {c : RecorderConfig} {s : UniverseLoop} {t : Ticker}

/-- What is followed of a market that was reported determined or settled. -/
structure Report where
  /-- It was planned when it was reported, and every full listing installed
  since has shown it. -/
  kept : Bool
  /-- A listing step has completed since. -/
  passed : Bool
  /-- A complete full listing begun since has omitted it. -/
  omitted : Bool

/-- A loop, and the latest report of one market. -/
structure Follow where
  loop : UniverseLoop
  report : Option Report
  /-- The listing in flight began after the latest report. -/
  began : Bool

/-- A loop that just started. -/
def Follow.start (startedNs : Int) : Follow := ⟨UniverseLoop.start startedNs, none, false⟩

/-- Whether a lifecycle event reports the market determined or settled. -/
def reportsEnd (t : Ticker) (event : LifecycleEvent) : Bool :=
  event.ticker = t ∧ event.eventType ∈ endedTypes

/-- What is known of the report after a stretch. -/
def Follow.reported (t : Ticker) (f : Follow) (act : Act) : Option Report :=
  match act, f.loop.work with
  | .lifecycle event _, _ =>
      if reportsEnd t event then
        some ⟨f.loop.planned t || f.report.any Report.kept, f.report.any Report.passed, false⟩
      else f.report
  | .arrive read _ _, .listing _ =>
      if f.report.any Report.omitted && t ∈ tickersOf read.markets then none else f.report
  | .applied _ _, .applying _ _ (.listed listing read) =>
      f.report.map fun r =>
        { kept := r.kept && listing.shows t read
          passed := true
          omitted := r.omitted || f.began && !listing.shows t read && !read.truncated }
  | _, _ => f.report

/-- One act, and what it reports of the market. -/
def Follow.step (c : RecorderConfig) (t : Ticker) (f : Follow) (act : Act) : Follow where
  loop := f.loop.step c act
  report := f.reported t act
  began :=
    match act with
    | .lifecycle event _ => !reportsEnd t event && f.began
    | _ => f.loop.inFlight.isNone || f.began

/-- Once reported, the market is out of the plan a listing step is applying;
and once such a step has completed, out of the plan and the catalog. -/
def Follow.LeavesOut (t : Ticker) (f : Follow) : Prop :=
  ∀ r, f.report = some r →
    (r.passed = true → f.loop.planned t = false ∧
      ∀ entries, f.loop.catalog = some entries → ∀ e ∈ entries, e.ticker ≠ t) ∧
    ∀ desired decision listing read,
      f.loop.work = .applying desired decision (.listed listing read) → t ∉ desired.tickers

/-- No report comes while a listing step applies a decision that admits the
market, and no listing arrives that would have the market admitted while its
report is not kept. -/
def Follow.Heeded (c : RecorderConfig) (t : Ticker) (f : Follow) : Act → Prop
  | .lifecycle event _ => reportsEnd t event = true → ∀ desired decision listing read,
      f.loop.work = .applying desired decision (.listed listing read) → t ∉ decision.l2Tickers
  | .arrive read categories wallNs => ∀ listing, f.loop.work = .listing listing →
      ∀ r, f.report = some r → r.kept = false →
        (r.omitted = true → t ∉ tickersOf read.markets) →
          t ∉ (f.loop.decisionOf c listing.scope read categories (wallNs / nsPerS)).l2Tickers
  | _ => True

/-! ## The market out of the plan -/

/-- In a sound state, what is out of the plan is out of the catalog. -/
theorem out_iff (h : Sound c s) : (s.planned t = false ∧
    ∀ entries, s.catalog = some entries → ∀ e ∈ entries, e.ticker ≠ t) ↔
      t ∉ s.plan.tickers := by
  rw [← h.planned_iff, Bool.not_eq_true, and_iff_left_iff_imp]
  intro hout entries hentries e he heq
  obtain ⟨decision, hcurrent, rfl⟩ := Option.map_eq_some_iff.mp hentries
  obtain ⟨m, hm, rfl⟩ := List.mem_map.mp he
  obtain ⟨hrecorded, htickers⟩ := h.follows decision hcurrent
  have hplanned : s.planned t = true := by
    rw [h.planned_iff, htickers, ← heq]
    exact hrecorded.admitted m (List.mem_filter.mp hm).1
  rw [hout] at hplanned
  cases hplanned

/-- Whether the market is out, of the plan if it has to be and of the plan a
listing step is applying. -/
theorem leavesOut_iff {f : Follow} (h : Sound c f.loop) : f.LeavesOut t ↔
    ∀ r, f.report = some r → (r.passed = true → t ∉ f.loop.plan.tickers) ∧
      ∀ desired decision listing read,
        f.loop.work = .applying desired decision (.listed listing read) →
          t ∉ decision.l2Tickers := by
  refine forall₂_congr fun r _ => and_congr (imp_congr_right fun _ => out_iff h) ?_
  refine forall₄_congr fun desired decision listing read => imp_congr_right fun hwork => ?_
  rw [(h.applying desired decision _ hwork).2.1]

/-- A removal admits no market that was not planned, and a report that is kept
is in force. -/
structure Follow.Good (c : RecorderConfig) (t : Ticker) (f : Follow) : Prop where
  sound : Sound c f.loop
  removing : ∀ desired decision, f.loop.work = .applying desired decision .removed →
    ∀ x ∈ decision.l2Tickers, x ∈ f.loop.plan.tickers
  inForce : ∀ r, f.report = some r → r.kept = true → t ∈ f.loop.ended

/-- What a listing comes to leaves out what was reported. -/
theorem decisionOf_ended {scope : Scope} {read : MarketListing}
    {categories : Dict String String} {nowTs : Int} (h : t ∈ s.ended) :
    t ∉ (s.decisionOf c scope read categories nowTs).l2Tickers := by
  have hselect : ∀ markets input,
      t ∉ (select (s.asLastReported markets) input).l2Tickers := by
    intro markets input hin
    obtain ⟨m, hm, rfl⟩ := (recorded_select _ input).summary t hin
    exact (mem_asLastReported (mem_select hm).1).1 h
  rw [decisionOf.eq_def]
  split
  · exact hselect _ _
  · exact hselect _ _

theorem Follow.good_start (startedNs : Int) : Follow.Good c t (.start startedNs) where
  sound := sound_start c startedNs
  removing := nofun
  inForce := nofun

@[simp] theorem Follow.step_loop (f : Follow) (act : Act) :
    (f.step c t act).loop = f.loop.step c act := rfl

@[simp] theorem Follow.step_report (f : Follow) (act : Act) :
    (f.step c t act).report = f.reported t act := rfl

/-- A stretch that installs no plan and leaves the report as it is: nothing is
asked of it. -/
theorem Follow.step_of_same {f : Follow} {act : Act} (h : f.Good c t) (hheeded : f.Heeded c t act)
    (hreport : f.reported t act = f.report)
    (hplan : (f.loop.step c act).plan = f.loop.plan)
    (hended : ∀ x ∈ f.loop.ended, x ∈ (f.loop.step c act).ended)
    (hlisted : ∀ desired decision listing read,
      (f.loop.step c act).work = .applying desired decision (.listed listing read) →
        f.loop.work = .applying desired decision (.listed listing read))
    (hremoved : ∀ desired decision, (f.loop.step c act).work = .applying desired decision .removed →
      ∀ x ∈ decision.l2Tickers, x ∈ f.loop.plan.tickers) :
    (f.step c t act).Good c t ∧
      (f.LeavesOut t → ((f.step c t act).LeavesOut t ↔ f.Heeded c t act)) := by
  have hsound : Sound c (f.step c t act).loop := h.sound.step act
  refine ⟨⟨hsound, ?_, ?_⟩, fun hout => iff_of_true ?_ hheeded⟩
  · rw [Follow.step_loop, hplan]
    exact hremoved
  · intro r hr hkept
    rw [Follow.step_report, hreport] at hr
    exact hended t (h.inForce r hr hkept)
  · rw [leavesOut_iff hsound]
    intro r hr
    rw [Follow.step_report, hreport] at hr
    rw [Follow.step_loop, hplan]
    obtain ⟨hpassed, happlying⟩ := (leavesOut_iff h.sound).mp hout r hr
    exact ⟨hpassed, fun desired decision listing read hwork =>
      happlying desired decision listing read (hlisted desired decision listing read hwork)⟩

/-- A stretch that does not fit the work under way. -/
theorem Follow.step_unfit {f : Follow} {act : Act} (h : f.Good c t) (hheeded : f.Heeded c t act)
    (hreport : f.reported t act = f.report)
    (hstep : f.loop.step c act = f.loop) :
    (f.step c t act).Good c t ∧
      (f.LeavesOut t → ((f.step c t act).LeavesOut t ↔ f.Heeded c t act)) := by
  refine Follow.step_of_same h hheeded hreport ?_ ?_ ?_ ?_
  · rw [hstep]
  · rw [hstep]
    exact fun _ hx => hx
  · rw [hstep]
    exact fun _ _ _ _ hwork => hwork
  · rw [hstep]
    exact h.removing

theorem Follow.step_lifecycle {f : Follow} (h : f.Good c t)
    (event : LifecycleEvent) (monoNs : Int) :
    (f.step c t (.lifecycle event monoNs)).Good c t ∧
      (f.LeavesOut t → ((f.step c t (.lifecycle event monoNs)).LeavesOut t ↔
        f.Heeded c t (.lifecycle event monoNs))) := by
  have hsound : Sound c (f.step c t (.lifecycle event monoNs)).loop :=
    h.sound.step (.lifecycle event monoNs)
  obtain ⟨relists, movedCloseTs, heq, -⟩ := noteLifecycle_spec c f.loop event monoNs
  have hstep : f.loop.step c (.lifecycle event monoNs) =
      { f.loop with relists, ended := f.loop.endedWith event, movedCloseTs } := heq
  have hmore : ∀ x ∈ f.loop.ended, x ∈ f.loop.endedWith event := by
    intro x hx
    rw [endedWith]
    split
    · exact Finset.mem_insert_of_mem hx
    · exact hx
  cases hends : reportsEnd t event with
  | false =>
      refine Follow.step_of_same h ?_ ?_ ?_ ?_ ?_ ?_
      · intro hyes
        rw [hends] at hyes
        cases hyes
      · rw [Follow.reported.eq_def]
        simp only [hends, Bool.false_eq_true, if_false]
      · rw [hstep]
      · rw [hstep]
        exact hmore
      · rw [hstep]
        exact fun _ _ _ _ hwork => hwork
      · rw [hstep]
        exact h.removing
  | true =>
      have hreport : f.reported t (.lifecycle event monoNs) =
          some ⟨f.loop.planned t || f.report.any Report.kept, f.report.any Report.passed,
            false⟩ := by
        rw [Follow.reported.eq_def]
        simp only [hends, if_true]
      obtain ⟨rfl, htype⟩ := of_decide_eq_true hends
      refine ⟨⟨hsound, ?_, ?_⟩, fun hout => ?_⟩
      · rw [Follow.step_loop, hstep]
        exact h.removing
      · intro r hr hkept
        rw [Follow.step_report, hreport] at hr
        obtain rfl := Option.some.inj hr
        rw [Follow.step_loop, hstep]
        rcases Bool.or_eq_true_iff.mp hkept with hplanned | hheld
        · show event.ticker ∈ f.loop.endedWith event
          rw [endedWith, if_pos ⟨htype, hplanned⟩]
          exact Finset.mem_insert_self _ _
        · obtain ⟨r, hr, hkept⟩ := Option.any_eq_true _ _ |>.mp hheld
          exact hmore _ (h.inForce r hr hkept)
      · rw [leavesOut_iff hsound, Follow.step_loop, Follow.step_report, hreport, hstep]
        constructor
        · intro hafter _
          exact (hafter _ rfl).2
        · intro hheeded r hr
          obtain rfl := Option.some.inj hr
          refine ⟨fun hpassed => ?_, hheeded hends⟩
          obtain ⟨r, hr, hpassed⟩ := Option.any_eq_true _ _ |>.mp hpassed
          exact ((leavesOut_iff h.sound).mp hout r hr).1 hpassed

/-- What a step begins with applies no listing's decision, and a removal only
removes. -/
theorem wake_spec (h : Sound c s) (monoNs wallNs startedNs : Int) :
    (s.wake c monoNs wallNs startedNs).plan = s.plan ∧
      (s.wake c monoNs wallNs startedNs).ended = s.ended ∧
      ∀ desired decision after,
        (s.wake c monoNs wallNs startedNs).work = .applying desired decision after →
          s.work = .applying desired decision after ∨
            after = .removed ∧ ∀ x ∈ decision.l2Tickers, x ∈ s.plan.tickers := by
  rw [wake]
  split
  · exact ⟨rfl, rfl, by rintro _ _ _ ⟨⟩⟩
  · split
    · exact ⟨rfl, rfl, fun _ _ _ hwork => .inl hwork⟩
    · next previous hcurrent =>
        dsimp only
        split
        · rw [relistIfDue]
          split
          · exact ⟨rfl, rfl, by rintro _ _ _ ⟨⟩⟩
          · exact ⟨rfl, rfl, by rintro _ _ _ ⟨⟩⟩
        · obtain ⟨relists, heq, -⟩ := requestRelists_spec s (emptiedGroups c previous
            (sortedTickers (previous.l2Tickers \ s.stillOpen previous (wallNs / nsPerS)))) monoNs
            monoNs
          rw [heq]
          refine ⟨rfl, rfl, fun desired decision after hwork => .inr ?_⟩
          cases hwork
          refine ⟨rfl, fun x hx => ?_⟩
          obtain ⟨hrecorded, htickers⟩ := h.follows previous hcurrent
          obtain ⟨m, hm, rfl⟩ := (recorded_select _ _).summary x hx
          obtain ⟨-, m', hm', hticker⟩ := mem_asLastReported (mem_select hm).1
          rw [htickers, ← hticker]
          exact hrecorded.admitted m' hm'

theorem Follow.step_wake {f : Follow} (h : f.Good c t)
    (monoNs wallNs startedNs : Int) :
    (f.step c t (.wake monoNs wallNs startedNs)).Good c t ∧
      (f.LeavesOut t → ((f.step c t (.wake monoNs wallNs startedNs)).LeavesOut t ↔
        f.Heeded c t (.wake monoNs wallNs startedNs))) := by
  cases hwork : f.loop.work with
  | idle =>
      have hstep : f.loop.step c (.wake monoNs wallNs startedNs) =
          f.loop.wake c monoNs wallNs startedNs := by
        rw [UniverseLoop.step, hwork]
      obtain ⟨hplan, hended, happly⟩ := wake_spec h.sound monoNs wallNs startedNs
      refine Follow.step_of_same h trivial rfl ?_ ?_ ?_ ?_
      · rw [hstep, hplan]
      · rw [hstep, hended]
        exact fun x hx => hx
      · intro desired decision listing read hafter
        rw [hstep] at hafter
        rcases happly desired decision _ hafter with hsame | ⟨hno, -⟩
        · exact hsame
        · cases hno
      · intro desired decision hafter
        rw [hstep] at hafter
        rcases happly desired decision _ hafter with hsame | ⟨-, hremoves⟩
        · exact h.removing desired decision hsame
        · exact hremoves
  | listing listing =>
      have hstep : f.loop.step c (.wake monoNs wallNs startedNs) = f.loop := by
        rw [UniverseLoop.step, hwork]
      exact Follow.step_unfit h trivial rfl hstep
  | applying desired decision after =>
      have hstep : f.loop.step c (.wake monoNs wallNs startedNs) = f.loop := by
        rw [UniverseLoop.step, hwork]
      exact Follow.step_unfit h trivial rfl hstep

theorem Follow.step_arrive {f : Follow} (h : f.Good c t)
    (read : MarketListing) (categories : Dict String String) (wallNs : Int) :
    (f.step c t (.arrive read categories wallNs)).Good c t ∧
      (f.LeavesOut t → ((f.step c t (.arrive read categories wallNs)).LeavesOut t ↔
        f.Heeded c t (.arrive read categories wallNs))) := by
  have hsound : Sound c (f.step c t (.arrive read categories wallNs)).loop :=
    h.sound.step (.arrive read categories wallNs)
  have hunfit : (∀ listing, f.loop.work ≠ .listing listing) →
      f.Heeded c t (.arrive read categories wallNs) :=
    fun hno listing hwork => absurd hwork (hno listing)
  cases hwork : f.loop.work with
  | idle =>
      refine Follow.step_unfit h (hunfit ?_) ?_ ?_
      · rw [hwork]
        simp
      · rw [Follow.reported.eq_def, hwork]
      · rw [UniverseLoop.step, hwork]
  | applying desired decision after =>
      refine Follow.step_unfit h (hunfit ?_) ?_ ?_
      · rw [hwork]
        simp
      · rw [Follow.reported.eq_def, hwork]
      · rw [UniverseLoop.step, hwork]
  | listing listing =>
      let decision := f.loop.decisionOf c listing.scope read categories (wallNs / nsPerS)
      have hstep : f.loop.step c (.arrive read categories wallNs) =
          f.loop.beginApply c decision (.listed listing read) := by
        rw [UniverseLoop.step, hwork]
      have hreport : f.reported t (.arrive read categories wallNs) =
          if f.report.any Report.omitted && t ∈ tickersOf read.markets then none
          else f.report := by
        rw [Follow.reported.eq_def, hwork]
      have hheld : ∀ r, f.reported t (.arrive read categories wallNs) = some r ↔
          f.report = some r ∧ (r.omitted = true → t ∉ tickersOf read.markets) := by
        intro r
        rw [hreport]
        cases f.report with
        | none => simp
        | some r' =>
            rw [Option.any_some]
            split
            · next hfreed =>
                obtain ⟨homitted, hshown⟩ := Bool.and_eq_true_iff.mp hfreed
                refine iff_of_false (by rintro ⟨⟩) ?_
                rintro ⟨heq, hnot⟩
                obtain rfl := Option.some.inj heq
                exact hnot homitted (of_decide_eq_true hshown)
            · next hnot =>
                rw [and_iff_left_of_imp]
                intro heq homitted hshown
                obtain rfl := Option.some.inj heq
                exact hnot (Bool.and_eq_true_iff.mpr ⟨homitted, decide_eq_true hshown⟩)
      refine ⟨⟨hsound, ?_, ?_⟩, fun hout => ?_⟩
      · rw [Follow.step_loop, hstep]
        intro desired' decision' hno
        cases hno
      · intro r hr hkept
        rw [Follow.step_loop, hstep]
        exact h.inForce r ((hheld r).mp hr).1 hkept
      · rw [leavesOut_iff hsound, Follow.step_loop, hstep]
        constructor
        · intro hafter listing' hwork' r hr _ hnot
          obtain rfl : listing = listing' := by
            rw [hwork] at hwork'
            cases hwork'
            rfl
          exact (hafter r ((hheld r).mpr ⟨hr, hnot⟩)).2 _ _ _ _ rfl
        · intro hheeded r hr
          obtain ⟨hr, hnot⟩ := (hheld r).mp hr
          refine ⟨((leavesOut_iff h.sound).mp hout r hr).1, ?_⟩
          intro desired' decision' listing' read' hwork'
          cases hwork'
          -- a report that is kept is in force, and the listing heeds it
          cases hkept : r.kept with
          | true => exact decisionOf_ended (h.inForce r hr hkept)
          | false => exact hheeded listing hwork r hr hkept hnot

theorem Follow.step_failed {f : Follow} (h : f.Good c t)
    (monoNs retryInNs : Int) :
    (f.step c t (.failed monoNs retryInNs)).Good c t ∧
      (f.LeavesOut t → ((f.step c t (.failed monoNs retryInNs)).LeavesOut t ↔
        f.Heeded c t (.failed monoNs retryInNs))) := by
  have hstep : f.loop.step c (.failed monoNs retryInNs) = f.loop ∨
      ∃ refreshDueNs, f.loop.step c (.failed monoNs retryInNs) =
        { f.loop with refreshDueNs, work := .idle } := by
    rw [UniverseLoop.step]
    split
    · exact .inr ⟨_, rfl⟩
    · exact .inr ⟨f.loop.refreshDueNs, rfl⟩
    · exact .inl rfl
  rcases hstep with hsame | ⟨refreshDueNs, hidle⟩
  · exact Follow.step_unfit h trivial rfl hsame
  · refine Follow.step_of_same h trivial rfl ?_ ?_ ?_ ?_
    · rw [hidle]
    · rw [hidle]
      exact fun _ hx => hx
    · rw [hidle]
      simp
    · rw [hidle]
      intro desired decision hno
      cases hno

theorem Follow.step_applied {f : Follow} (h : f.Good c t)
    (monoNs startedNs : Int) :
    (f.step c t (.applied monoNs startedNs)).Good c t ∧
      (f.LeavesOut t → ((f.step c t (.applied monoNs startedNs)).LeavesOut t ↔
        f.Heeded c t (.applied monoNs startedNs))) := by
  have hsound : Sound c (f.step c t (.applied monoNs startedNs)).loop :=
    h.sound.step (.applied monoNs startedNs)
  cases hwork : f.loop.work with
  | idle =>
      refine Follow.step_unfit h trivial ?_ ?_
      · rw [Follow.reported.eq_def, hwork]
      · rw [UniverseLoop.step, hwork]
  | listing listing =>
      refine Follow.step_unfit h trivial ?_ ?_
      · rw [Follow.reported.eq_def, hwork]
      · rw [UniverseLoop.step, hwork]
  | applying desired decision after =>
      obtain ⟨-, htickers, -⟩ := h.sound.applying desired decision after hwork
      cases after with
      | removed =>
          have hreport : f.reported t (.applied monoNs startedNs) = f.report := by
            rw [Follow.reported.eq_def, hwork]
          have hstep : f.loop.step c (.applied monoNs startedNs) =
              (f.loop.install desired decision).relistIfDue c decision monoNs startedNs := by
            rw [UniverseLoop.step, hwork]
          have hinstalled : (f.loop.step c (.applied monoNs startedNs)).plan = desired ∧
              (f.loop.step c (.applied monoNs startedNs)).ended = f.loop.ended ∧
              ∀ desired' decision' after', (f.loop.step c (.applied monoNs startedNs)).work ≠
                .applying desired' decision' after' := by
            rw [hstep, relistIfDue]
            split
            · exact ⟨rfl, rfl, by rintro _ _ _ ⟨⟩⟩
            · exact ⟨rfl, rfl, by rintro _ _ _ ⟨⟩⟩
          obtain ⟨hplan, hended, hnone⟩ := hinstalled
          refine ⟨⟨hsound, fun _ _ hno => absurd hno (hnone _ _ _), ?_⟩,
            fun hout => iff_of_true ?_ trivial⟩
          · intro r hr hkept
            rw [Follow.step_report, hreport] at hr
            rw [Follow.step_loop, hended]
            exact h.inForce r hr hkept
          · rw [leavesOut_iff hsound, Follow.step_loop, Follow.step_report, hreport, hplan]
            intro r hr
            refine ⟨fun hpassed hin => ?_, fun _ _ _ _ hno => absurd hno (hnone _ _ _)⟩
            rw [htickers] at hin
            exact ((leavesOut_iff h.sound).mp hout r hr).1 hpassed
              (h.removing desired decision hwork t hin)
      | listed listing read =>
          have hreport : f.reported t (.applied monoNs startedNs) = f.report.map fun r =>
              { kept := r.kept && listing.shows t read
                passed := true
                omitted := r.omitted || f.began && !listing.shows t read && !read.truncated } := by
            rw [Follow.reported.eq_def, hwork]
          obtain ⟨left, relists, followUps, ended, refreshDueNs, heq, hended, -⟩ :=
            listed_spec c (f.loop.install desired decision) decision listing read monoNs
          have hstep : f.loop.step c (.applied monoNs startedNs) =
              (f.loop.install desired decision).listed c decision listing read monoNs := by
            rw [UniverseLoop.step, hwork]
          rw [heq] at hstep
          refine ⟨⟨hsound, ?_, ?_⟩, fun hout => iff_of_true ?_ trivial⟩
          · rw [Follow.step_loop, hstep]
            simp
          · intro r hr hkept
            rw [Follow.step_report, hreport] at hr
            obtain ⟨r', hr', rfl⟩ := Option.map_eq_some_iff.mp hr
            obtain ⟨hkept, hshows⟩ := Bool.and_eq_true_iff.mp hkept
            have hin := h.inForce r' hr' hkept
            rw [Follow.step_loop, hstep]
            show t ∈ ended
            rw [hended]
            rw [Listing.shows] at hshows
            split
            · next hscope =>
                rw [hscope] at hshows
                exact Finset.mem_filter.mpr ⟨hin, of_decide_eq_true hshows⟩
            · exact hin
          · rw [leavesOut_iff hsound, Follow.step_loop, Follow.step_report, hreport, hstep]
            intro r hr
            obtain ⟨r', hr', rfl⟩ := Option.map_eq_some_iff.mp hr
            refine ⟨fun _ hin => ?_, by simp⟩
            replace hin : t ∈ desired.tickers := hin
            rw [htickers] at hin
            exact ((leavesOut_iff h.sound).mp hout r' hr').2 _ _ _ _ hwork hin

theorem Follow.step_spec {f : Follow} (h : f.Good c t) (act : Act) :
    (f.step c t act).Good c t ∧
      (f.LeavesOut t → ((f.step c t act).LeavesOut t ↔ f.Heeded c t act)) := by
  cases act with
  | lifecycle event monoNs => exact Follow.step_lifecycle h event monoNs
  | wake monoNs wallNs startedNs => exact Follow.step_wake h monoNs wallNs startedNs
  | arrive read categories wallNs => exact Follow.step_arrive h read categories wallNs
  | failed monoNs retryInNs => exact Follow.step_failed h monoNs retryInNs
  | applied monoNs startedNs => exact Follow.step_applied h monoNs startedNs

/-- A market that was reported stays out of what listing steps apply and of the
catalog, on exactly the runs on which every report is heeded. -/
theorem settled_stays_out (c : RecorderConfig) (startedNs : Int) (t : Ticker)
    (acts : List Act) :
    Run.Throughout (Follow.step c t) (Follow.LeavesOut t) (.start startedNs) acts ↔
      Run.Along (Follow.step c t) (Follow.Heeded c t) (.start startedNs) acts :=
  Run.throughout_iff_along (I := Follow.Good c t) (L := fun _ _ => True)
    (fun _ act h _ => (Follow.step_spec h act).1)
    (fun _ act h hout _ => (Follow.step_spec h act).2 hout)
    (Follow.good_start startedNs) nofun (Run.along_true _ acts)

/-- A market is settled while a refresh is listing it, and was not planned. -/
def settledDuring : List Act :=
  [.arrive ⟨[], false⟩ ∅ 0, .applied 0 0, .wake 1000000000 0 1000000000,
    .lifecycle ⟨"KXGAME-1", "determined", none⟩ 1500000000,
    .arrive ⟨[⟨"KXGAME-1", "KXGAME", "KXGAME-E", 0, "active", 0, none, false, none, none, none,
      none⟩], false⟩ ∅ 1600000000, .applied 1700000000 1700000000]

/-- The refresh's older view puts it into the plan. -/
theorem settled_comes_in :
    ¬ Run.Throughout (Follow.step oneSeries "KXGAME-1") (Follow.LeavesOut "KXGAME-1") (.start 0)
      settledDuring := by
  intro h
  have hpassed : ((Run.final (Follow.step oneSeries "KXGAME-1") (.start 0)
      settledDuring).report.any Report.passed) = true := by
    decide +kernel
  have hplanned : (Run.final (Follow.step oneSeries "KXGAME-1") (.start 0)
      settledDuring).loop.planned "KXGAME-1" = true := by
    decide +kernel
  obtain ⟨r, hr, hp⟩ := (Option.any_eq_true _ _).mp hpassed
  obtain ⟨hout, -⟩ := (h.last r hr).1 hp
  rw [hplanned] at hout
  cases hout

end UniverseLoop

end Tape.Universe
