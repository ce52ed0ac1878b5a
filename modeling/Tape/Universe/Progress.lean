import Tape.Universe.Sound

/-!
# The universe loop makes progress and keeps what is asked of it

The delay and the step look at the same state by different expressions, and
agree in every sound state.

A re-listing may start at the time the one before it set, and sets the next.
What is asked for while a listing runs is kept when it ends, if the clock read
later than at the start: a request at the very reading of the start is taken
for an earlier one, and forgotten with those.
-/

namespace Tape.Universe

open UniverseLoop

/-- The readings of one stretch are in order. -/
def Act.Forward : Act → Prop
  | .wake monoNs _ startedNs => monoNs ≤ startedNs
  | .applied monoNs startedNs => monoNs ≤ startedNs
  | _ => True

namespace UniverseLoop

variable {c : RecorderConfig} {s : UniverseLoop}

/-! ## A delay of zero means work -/

/-- A full refresh has begun, or a plan is being applied that lost a market, or
some groups are being listed again. -/
def Works (s s' : UniverseLoop) : Prop :=
  (∃ startedNs, s'.work = .listing ⟨startedNs, .full⟩) ∨
    (∃ desired decision, s'.work = .applying desired decision .removed ∧
      ∃ t, s.planned t = true ∧ t ∉ desired.tickers) ∨
    ∃ startedNs names previous, names ≠ [] ∧
      s'.work = .listing ⟨startedNs, .groups names previous⟩

theorem foldl_min_le {l : List Int} {a b : Int} :
    l.foldl min a ≤ b ↔ a ≤ b ∨ ∃ x ∈ l, x ≤ b := by
  induction l generalizing a with
  | nil => simp
  | cons x l ih => rw [List.foldl_cons, ih, min_le_iff, List.exists_mem_cons_iff, or_assoc]

/-- The markets that are left of a decision are still open. -/
theorem withoutClosed_open {previous : UniverseDecision} {nowTs : Int} {t : Ticker}
    (h : t ∈ (s.withoutClosed c previous nowTs).l2Tickers) : t ∈ s.stillOpen previous nowTs := by
  obtain ⟨m, hm, rfl, -, hrejection⟩ := (select_accounted _ _).eligible t h
  rw [stillOpen, List.mem_toFinset]
  refine List.mem_map.mpr ⟨m, List.mem_filter.mpr ⟨hm, ?_⟩, rfl⟩
  have hclose : ∀ closeTs, m.closeTs = some closeTs → nowTs < closeTs := by
    intro closeTs hts
    rw [rejection, hts] at hrejection
    split at hrejection
    · cases hrejection
    · split at hrejection
      · cases hrejection
      · dsimp only at hrejection
        split at hrejection
        · cases hrejection
        · next hlt => exact not_le.mp hlt
  cases hts : m.closeTs with
  | none => rfl
  | some closeTs => exact decide_eq_true (hclose closeTs hts)

/-- A market that closed is not among those still open. -/
theorem not_open_of_closed {previous : UniverseDecision} (hr : Recorded previous) {nowTs : Int}
    {m : MarketSummary} (hm : m ∈ s.asLastReported previous.markets) {closeTs : Int}
    (hts : m.closeTs = some closeTs) (hclosed : closeTs ≤ nowTs) :
    m.ticker ∉ s.stillOpen previous nowTs := by
  rw [stillOpen, List.mem_toFinset]
  intro hin
  obtain ⟨m', hm', hticker⟩ := List.mem_map.mp hin
  obtain ⟨hreported, hopen⟩ := List.mem_filter.mp hm'
  have hsame : m' = m := by
    obtain ⟨n, hn, rfl, hkeep, -⟩ := asLastReported_keeps hm
    obtain ⟨n', hn', rfl, hkeep', -⟩ := asLastReported_keeps hreported
    have heq := List.inj_on_of_nodup_map hr.once hn' hn (hkeep'.symm.trans (hticker.trans hkeep))
    rw [heq]
  rw [hsame, hts] at hopen
  exact absurd hclosed (not_le.mpr (of_decide_eq_true hopen))

/-- The step removes what closed, or goes on to the re-listings. -/
theorem works_of_closed (h : Sound c s) {previous : UniverseDecision}
    (hcurrent : s.current = some previous) {monoNs wallNs startedNs : Int}
    (hlater : monoNs < s.refreshDueNs) {t : Ticker} (ht : t ∈ previous.l2Tickers)
    (hclosed : t ∉ s.stillOpen previous (wallNs / nsPerS)) :
    Works s (s.wake c monoNs wallNs startedNs) := by
  have hmem : t ∈ sortedTickers (previous.l2Tickers \ s.stillOpen previous (wallNs / nsPerS)) :=
    mem_sortedTickers.mpr (Finset.mem_sdiff.mpr ⟨ht, hclosed⟩)
  have hsound := h.wake monoNs wallNs startedNs
  rw [UniverseLoop.wake, if_neg (not_le.mpr hlater), hcurrent] at hsound ⊢
  dsimp only at hsound ⊢
  rw [if_neg (List.ne_nil_of_mem hmem)] at hsound ⊢
  refine .inr (.inl ⟨_, _, rfl, t, ?_, ?_⟩)
  · rw [h.planned_iff, (h.follows previous hcurrent).2]
    exact ht
  · obtain ⟨-, htickers, -⟩ := hsound.applying _ _ _ rfl
    rw [htickers]
    exact fun hin => hclosed (withoutClosed_open hin)

/-- A request that is due is listed when the interval allows it. -/
theorem works_of_request (h : Sound c s) {previous : UniverseDecision}
    (hcurrent : s.current = some previous) {monoNs wallNs startedNs : Int}
    (hlater : monoNs < s.refreshDueNs) {name : String} {pending : PendingRelist}
    (hrequest : s.relists.get? name = some pending) (hdue : pending.dueNs ≤ monoNs)
    (hallowed : s.relistAllowedNs ≤ monoNs) : Works s (s.wake c monoNs wallNs startedNs) := by
  by_cases hclosed : ∃ t ∈ previous.l2Tickers, t ∉ s.stillOpen previous (wallNs / nsPerS)
  · obtain ⟨t, ht, hnot⟩ := hclosed
    exact works_of_closed h hcurrent hlater ht hnot
  · have hnil : sortedTickers (previous.l2Tickers \ s.stillOpen previous (wallNs / nsPerS)) =
      [] := by
      rw [sortedTickers_eq_nil_iff, Finset.sdiff_eq_empty_iff_subset]
      exact fun t ht => by_contra fun hnot => hclosed ⟨t, ht, hnot⟩
    have hnames : name ∈ s.dueGroups c monoNs := by
      refine List.mem_filter.mpr ⟨h.named name (Dict.mem_keys_of_get? hrequest), ?_⟩
      rw [hrequest]
      exact decide_eq_true hdue
    rw [UniverseLoop.wake, if_neg (not_le.mpr hlater), hcurrent]
    dsimp only
    rw [if_pos hnil, UniverseLoop.relistIfDue, if_pos ⟨List.ne_nil_of_mem hnames, hallowed⟩]
    exact .inr (.inr ⟨startedNs, _, previous, List.ne_nil_of_mem hnames, rfl⟩)

/-- Whenever the delay is zero, the step at the same readings does work. -/
theorem works_of_due (h : Sound c s) (hidle : s.work = .idle) {monoNs wallNs : Int}
    (hdelay : s.universeDelayNs monoNs wallNs = 0) (startedNs : Int) :
    Works s (s.step c (.wake monoNs wallNs startedNs)) := by
  have hwake : s.step c (.wake monoNs wallNs startedNs) = s.wake c monoNs wallNs startedNs := by
    rw [UniverseLoop.step, hidle]
  rw [hwake]
  by_cases hrefresh : s.refreshDueNs ≤ monoNs
  · rw [UniverseLoop.wake, if_pos hrefresh]
    exact .inl ⟨startedNs, rfl⟩
  · have hlater : monoNs < s.refreshDueNs := not_le.mp hrefresh
    have hmin : _ ≤ (0 : Int) := (le_max_right 0 _).trans_eq hdelay
    rw [foldl_min_le] at hmin
    rcases hmin with hmin | ⟨x, hx, hx0⟩
    · omega
    · cases hcurrent : s.current with
      | none =>
          rw [hcurrent] at hx
          cases hx
      | some previous =>
          obtain ⟨hrecorded, htickers⟩ := h.follows previous hcurrent
          rw [hcurrent] at hx
          dsimp only at hx
          rcases List.mem_append.mp hx with hx | hx
          · rcases List.mem_append.mp hx with hx | hx
            · -- a planned market was reported ended
              split at hx
              · cases hx
              · next hsome =>
                  obtain ⟨t, ht⟩ := Finset.nonempty_of_ne_empty hsome
                  obtain ⟨hended, hplanned⟩ := Finset.mem_filter.mp ht
                  rw [h.planned_iff, htickers] at hplanned
                  refine works_of_closed h hcurrent hlater hplanned fun hopen => ?_
                  rw [stillOpen, List.mem_toFinset] at hopen
                  obtain ⟨m, hm, rfl⟩ := List.mem_map.mp hopen
                  exact (mem_asLastReported (List.mem_filter.mp hm).1).1 hended
            · -- the close of a planned market has passed
              split at hx
              · cases hx
              · next closeTs hclose =>
                  obtain rfl := List.mem_singleton.mp hx
                  obtain ⟨m, hm, hts⟩ := List.mem_filterMap.mp (List.min?_mem hclose)
                  obtain ⟨-, m', hm', hticker⟩ := mem_asLastReported hm
                  have hclosed : closeTs ≤ wallNs / nsPerS := by
                    rw [nsPerS, Int.le_ediv_iff_mul_le (by decide)]
                    rw [nsPerS, closeTickDelayS] at hx0
                    omega
                  refine works_of_closed h hcurrent hlater (hticker ▸ hrecorded.admitted m' hm') ?_
                  exact not_open_of_closed hrecorded hm hts hclosed
          · split at hx
            · cases hx
            · -- the earliest request is due, and may be listed
              next dueNs hdue =>
                obtain rfl := List.mem_singleton.mp hx
                obtain ⟨pending, hpending, rfl⟩ := List.mem_map.mp (List.min?_mem hdue)
                obtain ⟨e, he, rfl⟩ := List.mem_map.mp hpending
                have hle : max e.2.dueNs s.relistAllowedNs ≤ monoNs := by omega
                obtain ⟨hdueNs, hallowed⟩ := max_le_iff.mp hle
                exact works_of_request h hcurrent hlater
                  (Dict.get?_eq_some_iff.mpr he) hdueNs hallowed

/-! ## The interval between re-listings -/

/-- When a re-listing starts in a stretch, if one does. -/
def relistStart (s s' : UniverseLoop) : Option Int :=
  match s.work, s'.work with
  | .listing _, _ => none
  | _, .listing ⟨startedNs, .groups _ _⟩ => some startedNs
  | _, _ => none

/-- When the re-listings of a run start. -/
def relistStarts (c : RecorderConfig) : UniverseLoop → List Act → List Int
  | _, [] => []
  | s, act :: acts =>
      (relistStart s (s.step c act)).toList ++ relistStarts c (s.step c act) acts

theorem relistStart_none {s s' : UniverseLoop} (h : s'.work = s.work ∨
    ∀ startedNs names previous, s'.work ≠ .listing ⟨startedNs, .groups names previous⟩) :
    relistStart s s' = none := by
  rw [relistStart]
  split
  · rfl
  · next startedNs names previous hwork hnot =>
      rcases h with heq | hno
      · exact absurd (heq.symm.trans hwork) (hnot _)
      · exact absurd hwork (hno startedNs names previous)
  · rfl

/-- A stretch starts no re-listing and leaves the earliest start of the next,
or starts one at that time or later and sets the next. -/
structure Spaced (s s' : UniverseLoop) : Prop where
  allowed : ∀ t, relistStart s s' = some t → s.relistAllowedNs ≤ t ∧
    s'.relistAllowedNs = t + relistMinIntervalS * nsPerS
  kept : relistStart s s' = none → s'.relistAllowedNs = s.relistAllowedNs

theorem spaced_of_none {s s' : UniverseLoop} (hallowed : s'.relistAllowedNs = s.relistAllowedNs)
    (h : s'.work = s.work ∨
      ∀ startedNs names previous, s'.work ≠ .listing ⟨startedNs, .groups names previous⟩) :
    Spaced s s' := by
  have hnone := relistStart_none h
  constructor
  · intro t ht
    rw [hnone] at ht
    cases ht
  · exact fun _ => hallowed

theorem spaced_relistIfDue {current : UniverseDecision} {nowNs startedNs : Int}
    (hforward : nowNs ≤ startedNs) {s₀ : UniverseLoop}
    (hallowed : s.relistAllowedNs = s₀.relistAllowedNs) (hnot : ∀ l, s₀.work ≠ .listing l) :
    Spaced s₀ (s.relistIfDue c current nowNs startedNs) := by
  rw [relistIfDue]
  split
  · next hdue =>
      have hstart : relistStart s₀ { s with
          relistAllowedNs := startedNs + relistMinIntervalS * nsPerS
          work := .listing ⟨startedNs, .groups (s.dueGroups c nowNs) current⟩ } =
            some startedNs := by
        rw [relistStart]
        cases hwork : s₀.work with
        | idle => rfl
        | listing l => exact absurd hwork (hnot l)
        | applying _ _ _ => rfl
      constructor
      · intro t ht
        obtain rfl := Option.some.inj (hstart.symm.trans ht)
        rw [← hallowed]
        exact ⟨hdue.2.trans hforward, rfl⟩
      · intro hnone
        rw [hstart] at hnone
        cases hnone
  · exact spaced_of_none hallowed (.inr (by rintro _ _ _ ⟨⟩))

theorem spaced_step (act : Act) (hforward : act.Forward) : Spaced s (s.step c act) := by
  cases act with
  | lifecycle event monoNs =>
      obtain ⟨relists, movedCloseTs, heq, -⟩ := noteLifecycle_spec c s event monoNs
      rw [step, heq]
      exact spaced_of_none rfl (.inl rfl)
  | wake monoNs wallNs startedNs =>
      rw [step]
      split
      · next hidle =>
          have hnot : ∀ l, s.work ≠ .listing l := fun l h => by cases hidle.symm.trans h
          rw [wake]
          split
          · exact spaced_of_none rfl (.inr (by rintro _ _ _ ⟨⟩))
          · split
            · exact spaced_of_none rfl (.inl rfl)
            · dsimp only
              split
              · exact spaced_relistIfDue hforward rfl hnot
              · next previous _ hclosed =>
                  obtain ⟨relists, heq, -⟩ := requestRelists_spec s (emptiedGroups c previous
                    (sortedTickers (previous.l2Tickers \ s.stillOpen previous (wallNs / nsPerS))))
                    monoNs monoNs
                  rw [heq]
                  exact spaced_of_none rfl (.inr (by rintro _ _ _ ⟨⟩))
      · exact spaced_of_none rfl (.inl rfl)
  | arrive read categories wallNs =>
      rw [step]
      split
      · exact spaced_of_none rfl (.inr (by rintro _ _ _ ⟨⟩))
      · exact spaced_of_none rfl (.inl rfl)
  | failed monoNs retryInNs =>
      rw [step]
      split
      · exact spaced_of_none rfl (.inr (by rintro _ _ _ ⟨⟩))
      · exact spaced_of_none rfl (.inr (by rintro _ _ _ ⟨⟩))
      · exact spaced_of_none rfl (.inl rfl)
  | applied monoNs startedNs =>
      rw [step]
      split
      · next hwork =>
          have hnot : ∀ l, s.work ≠ .listing l := fun l h => by cases hwork.symm.trans h
          exact spaced_relistIfDue hforward rfl hnot
      · next desired decision listing read hwork =>
          obtain ⟨left, relists, followUps, ended, refreshDueNs, heq, -⟩ :=
            listed_spec c (s.install desired decision) decision listing read monoNs
          rw [heq]
          exact spaced_of_none rfl (.inr (by rintro _ _ _ ⟨⟩))
      · exact spaced_of_none rfl (.inl rfl)

/-- Every re-listing of a run starts at the earliest time allowed or later, and
an interval after the one before it. -/
theorem spaced_run (acts : List Act) (hforward : ∀ act ∈ acts, act.Forward) :
    (∀ t ∈ relistStarts c s acts, s.relistAllowedNs ≤ t) ∧
      (relistStarts c s acts).Pairwise fun a b => a + relistMinIntervalS * nsPerS ≤ b := by
  induction acts generalizing s with
  | nil => exact ⟨nofun, List.Pairwise.nil⟩
  | cons act acts ih =>
      have hstep : Spaced s (s.step c act) := spaced_step act (hforward act List.mem_cons_self)
      obtain ⟨hlater, hpairs⟩ :=
        @ih (s.step c act) fun a ha => hforward a (List.mem_cons_of_mem _ ha)
      rw [relistStarts]
      cases hstart : relistStart s (s.step c act) with
      | none =>
          rw [hstep.kept hstart] at hlater
          exact ⟨hlater, hpairs⟩
      | some t =>
          obtain ⟨hallowed, hnext⟩ := hstep.allowed t hstart
          rw [hnext] at hlater
          constructor
          · intro t' ht'
            rcases List.mem_cons.mp ht' with rfl | ht'
            · exact hallowed
            · have hafter := hlater t' ht'
              have hpositive : 0 < relistMinIntervalS * nsPerS := by decide
              omega
          · exact List.pairwise_cons.mpr ⟨hlater, hpairs⟩

/-! ## What is asked for while a listing runs -/

/-- The re-listings a stretch asks for, and when each is to be due at the
latest. -/
def requests (c : RecorderConfig) (s : UniverseLoop) (act : Act) : List (String × Int) :=
  match act, s.work with
  | .lifecycle event monoNs, _ =>
      (opened c event).map fun name => (name, monoNs + relistDebounceS * nsPerS)
  | .applied _ _, .applying desired decision (.listed listing _) =>
      ((s.install desired decision).followUpsAsked c decision (listing.scope.names c)).map
        fun name => (name, listing.startedNs + relistMinIntervalS * nsPerS)
  | _, _ => []

/-- The loop, what was asked for since the listing in flight started, and, when
a listing has just ended, what was asked for while it ran. -/
structure Watch where
  loop : UniverseLoop
  asked : List (String × Int)
  owed : List (String × Int)

/-- A loop that just started. -/
def Watch.start (startedNs : Int) : Watch := ⟨UniverseLoop.start startedNs, [], []⟩

/-- One act, and what was asked for meanwhile. -/
def Watch.step (c : RecorderConfig) (w : Watch) (act : Act) : Watch :=
  let loop := w.loop.step c act
  let asked := w.asked ++ w.loop.requests c act
  match w.loop.inFlight, loop.inFlight with
  | some _, some _ => ⟨loop, asked, []⟩
  | some _, none => ⟨loop, [], asked⟩
  | none, _ => ⟨loop, [], []⟩

/-- What was asked for while the listing ran is still pending, and due no later
than it was asked for. -/
def Watch.Kept (w : Watch) : Prop :=
  ∀ e ∈ w.owed, ∃ p, w.loop.relists.get? e.1 = some p ∧ p.dueNs ≤ e.2

/-- No listing is installed while a request made since it started, for a group
it covers, carries a reading no later than its start. -/
def Watch.Later (w : Watch) : Act → Prop
  | .applied _ _ => ∀ desired decision listing read,
      w.loop.work = .applying desired decision (.listed listing read) →
      ∀ e ∈ w.asked, listing.scope.Covers e.1 →
        ∀ p, w.loop.relists.get? e.1 = some p → listing.startedNs < p.requestedNs
  | _ => True

theorem Watch.later_of_all {w : Watch} {act : Act}
    (h : (w.asked.all fun e => (w.loop.relists.get? e.1).all fun p =>
      w.loop.inFlight.all fun listing => listing.startedNs < p.requestedNs) = true) :
    w.Later act := by
  cases act with
  | applied monoNs startedNs =>
      intro desired decision listing read hwork e he _ p hp
      have hflight : w.loop.inFlight = some listing := by rw [inFlight, hwork]
      have hone := List.all_eq_true.mp h e he
      rw [hp, hflight] at hone
      exact of_decide_eq_true hone
  | lifecycle event monoNs => trivial
  | wake monoNs wallNs startedNs => trivial
  | arrive read categories wallNs => trivial
  | failed monoNs retryInNs => trivial

/-- What was asked for while a listing runs is pending, under the reading it was
last asked for at. -/
structure Watch.Held (w : Watch) : Prop where
  idle : w.loop.inFlight = none → w.asked = []
  asked : ∀ e ∈ w.asked, ∃ p, w.loop.relists.get? e.1 = some p ∧ p.dueNs ≤ e.2 ∧
    (e.1, p.requestedNs + relistDebounceS * nsPerS) ∈ w.asked

theorem Watch.held_start (startedNs : Int) : Watch.Held (.start startedNs) :=
  ⟨fun _ => rfl, nofun⟩

theorem Watch.step_idle {w : Watch} {act : Act} (h : w.loop.inFlight = none) :
    w.step c act = ⟨w.loop.step c act, [], []⟩ := by
  rw [Watch.step, h]

theorem Watch.step_running {w : Watch} {act : Act} {listing listing' : Listing}
    (h : w.loop.inFlight = some listing) (h' : (w.loop.step c act).inFlight = some listing') :
    w.step c act = ⟨w.loop.step c act, w.asked ++ w.loop.requests c act, []⟩ := by
  rw [Watch.step, h, h']

theorem Watch.step_ending {w : Watch} {act : Act} {listing : Listing}
    (h : w.loop.inFlight = some listing) (h' : (w.loop.step c act).inFlight = none) :
    w.step c act = ⟨w.loop.step c act, [], w.asked ++ w.loop.requests c act⟩ := by
  rw [Watch.step, h, h']

/-- What is asked for by a lifecycle event joins what is held. -/
theorem Watch.Held.requested {w : Watch} (h : w.Held) {relists : Dict String PendingRelist}
    {names : List String} {nowNs : Int}
    (hr : Requested w.loop.relists relists names (nowNs + relistDebounceS * nsPerS) nowNs) :
    ∀ e ∈ w.asked ++ names.map fun name => (name, nowNs + relistDebounceS * nsPerS),
      ∃ p, relists.get? e.1 = some p ∧ p.dueNs ≤ e.2 ∧
        (e.1, p.requestedNs + relistDebounceS * nsPerS) ∈
          w.asked ++ names.map fun name => (name, nowNs + relistDebounceS * nsPerS) := by
  intro e he
  by_cases hin : e.1 ∈ names
  · obtain ⟨p, hp, hdue, hnow⟩ := hr.made e.1 hin
    refine ⟨p, hp, ?_, ?_⟩
    · rcases List.mem_append.mp he with hold | hnew
      · obtain ⟨q, hq, hle, -⟩ := h.asked e hold
        obtain ⟨p', hp', hle'⟩ := hr.kept e.1 q hq
        obtain rfl := Option.some.inj (hp.symm.trans hp')
        exact hle'.trans hle
      · obtain ⟨name, -, rfl⟩ := List.mem_map.mp hnew
        exact hdue
    · rw [hnow]
      exact List.mem_append_right _ (List.mem_map_of_mem hin)
  · rcases List.mem_append.mp he with hold | hnew
    · obtain ⟨p, hp, hle, hlast⟩ := h.asked e hold
      exact ⟨p, (hr.others e.1 hin).trans hp, hle, List.mem_append_left _ hlast⟩
    · obtain ⟨name, hname, rfl⟩ := List.mem_map.mp hnew
      exact absurd hname hin

/-- A stretch that leaves the requests alone and ends no listing, or asks for
some by a lifecycle event. -/
theorem Watch.held_of_running {w : Watch} {act : Act} (h : w.Held) {listing : Listing}
    (hw : w.loop.inFlight = some listing) (hw' : (w.loop.step c act).inFlight = some listing)
    {names : List String} {nowNs : Int}
    (hasked : w.loop.requests c act = names.map fun name =>
      (name, nowNs + relistDebounceS * nsPerS))
    (hr : Requested w.loop.relists (w.loop.step c act).relists names
      (nowNs + relistDebounceS * nsPerS) nowNs) :
    (w.step c act).Held ∧ (w.step c act).Kept := by
  rw [Watch.step_running hw hw', hasked]
  refine ⟨⟨fun hnone => ?_, h.requested hr⟩, nofun⟩
  cases hw'.symm.trans hnone

/-- A stretch that does not fit the work under way changes nothing. -/
theorem Watch.held_of_same {w : Watch} {act : Act} (h : w.Held)
    (hsame : w.loop.step c act = w.loop) (hasked : w.loop.requests c act = [])
    (hlater : w.Later act) : (w.step c act).Held ∧ ((w.step c act).Kept ↔ w.Later act) := by
  cases hw : w.loop.inFlight with
  | none =>
      rw [Watch.step_idle hw]
      exact ⟨⟨fun _ => rfl, nofun⟩, iff_of_true nofun hlater⟩
  | some listing =>
      have hr : Requested w.loop.relists (w.loop.step c act).relists []
        (0 + relistDebounceS * nsPerS)
          0 := by
        rw [hsame]
        exact requested_nil _ _ _
      obtain ⟨hheld, hkept⟩ := Watch.held_of_running h hw (hsame.symm ▸ hw) hasked hr
      exact ⟨hheld, iff_of_true hkept hlater⟩

/-- When a listing is installed, all that was asked for while it ran is kept
exactly if the readings of those requests are later than its start: what is
forgotten may be asked for again, to follow up an event, but is due later then. -/
theorem Watch.kept_listed {w : Watch} (h : w.Held) {desired : Plan} {decision : UniverseDecision}
    {listing : Listing} {read : MarketListing}
    (hwork : w.loop.work = .applying desired decision (.listed listing read))
    (monoNs startedNs : Int) :
    (w.step c (.applied monoNs startedNs)).Held ∧
      ((w.step c (.applied monoNs startedNs)).Kept ↔ w.Later (.applied monoNs startedNs)) := by
  obtain ⟨left, relists, followUps, ended, refreshDueNs, heq, -, hleft, hr⟩ :=
    listed_spec c (w.loop.install desired decision) decision listing read monoNs
  have hstep : w.loop.step c (.applied monoNs startedNs) =
      (w.loop.install desired decision).listed c decision listing read monoNs := by
    rw [UniverseLoop.step, hwork]
  rw [heq] at hstep
  have hflight : w.loop.inFlight = some listing := by rw [inFlight, hwork]
  have hasked : w.loop.requests c (.applied monoNs startedNs) =
      ((w.loop.install desired decision).followUpsAsked c decision (listing.scope.names c)).map
        fun name => (name, listing.startedNs + relistMinIntervalS * nsPerS) := by
    rw [UniverseLoop.requests.eq_def, hwork]
  rw [Watch.step_ending hflight (by rw [hstep]; rfl), hstep, hasked]
  refine ⟨⟨fun _ => rfl, by rintro _ ⟨⟩⟩, ?_⟩
  constructor
  · intro hkept desired' decision' listing' read' hwork' e he hcovers p hp
    rw [hwork] at hwork'
    cases hwork'
    by_contra hearly
    have hgone : left.get? e.1 = none := by
      rw [Option.eq_none_iff_forall_ne_some]
      intro q hq
      obtain ⟨hheld, hlater⟩ := (hleft e.1 q).mp hq
      obtain rfl := Option.some.inj (hp.symm.trans hheld)
      exact hearly (hlater hcovers)
    obtain ⟨q, hq, -, hlast⟩ := h.asked e he
    obtain rfl := Option.some.inj (hp.symm.trans hq)
    obtain ⟨p', hp', hdue⟩ := hkept _ (List.mem_append_left _ hlast)
    rcases hr.due e.1 p' hp' with hlate | ⟨q, hq, -⟩
    · rw [relistMinIntervalS, nsPerS] at hlate
      rw [relistDebounceS, nsPerS] at hdue
      dsimp only at hdue
      omega
    · rw [hgone] at hq
      cases hq
  · intro hlater e he
    rcases List.mem_append.mp he with hold | hnew
    · obtain ⟨p, hp, hle, -⟩ := h.asked e hold
      have hstays : left.get? e.1 = some p := (hleft e.1 p).mpr
        ⟨hp, fun hcovers => hlater desired decision listing read hwork e hold hcovers p hp⟩
      obtain ⟨p', hp', hle'⟩ := hr.kept e.1 p hstays
      exact ⟨p', hp', hle'.trans hle⟩
    · obtain ⟨name, hname, rfl⟩ := List.mem_map.mp hnew
      obtain ⟨p, hp, hdue, -⟩ := hr.made name hname
      exact ⟨p, hp, hdue⟩

theorem Watch.kept_step {w : Watch} (h : w.Held) (act : Act) :
    (w.step c act).Held ∧ ((w.step c act).Kept ↔ w.Later act) := by
  cases act with
  | lifecycle event monoNs =>
      obtain ⟨relists, movedCloseTs, heq, hr⟩ := noteLifecycle_spec c w.loop event monoNs
      cases hw : w.loop.inFlight with
      | none =>
          rw [Watch.step_idle hw]
          exact ⟨⟨fun _ => rfl, by rintro _ ⟨⟩⟩, iff_of_true (by rintro _ ⟨⟩) trivial⟩
      | some listing =>
          have hstep : w.loop.step c (.lifecycle event monoNs) = _ := heq
          obtain ⟨hheld, hkept⟩ := @Watch.held_of_running c w (.lifecycle event monoNs) h listing hw
            (by rw [hstep]; exact hw) (opened c event) monoNs rfl (by rw [hstep]; exact hr)
          exact ⟨hheld, iff_of_true hkept trivial⟩
  | wake monoNs wallNs startedNs =>
      cases hwork : w.loop.work with
      | idle =>
          rw [Watch.step_idle (by rw [inFlight, hwork])]
          exact ⟨⟨fun _ => rfl, by rintro _ ⟨⟩⟩, iff_of_true (by rintro _ ⟨⟩) trivial⟩
      | listing listing =>
          exact Watch.held_of_same h (by rw [UniverseLoop.step, hwork]) rfl trivial
      | applying desired decision after =>
          exact Watch.held_of_same h (by rw [UniverseLoop.step, hwork]) rfl trivial
  | arrive read categories wallNs =>
      cases hwork : w.loop.work with
      | listing listing =>
          have hflight : w.loop.inFlight = some listing := by rw [inFlight, hwork]
          obtain ⟨hheld, hkept⟩ := @Watch.held_of_running c w (.arrive read categories wallNs) h
            listing hflight (by rw [UniverseLoop.step, hwork]; rfl) [] 0 rfl
            (by rw [UniverseLoop.step, hwork]; exact requested_nil _ _ _)
          exact ⟨hheld, iff_of_true hkept trivial⟩
      | idle =>
          exact Watch.held_of_same h (by rw [UniverseLoop.step, hwork]) rfl trivial
      | applying desired decision after =>
          exact Watch.held_of_same h (by rw [UniverseLoop.step, hwork]) rfl trivial
  | failed monoNs retryInNs =>
      cases hwork : w.loop.work with
      | listing listing =>
          have hflight : w.loop.inFlight = some listing := by rw [inFlight, hwork]
          obtain ⟨refreshDueNs, hstep⟩ : ∃ refreshDueNs, w.loop.step c (.failed monoNs retryInNs) =
              { w.loop with refreshDueNs, work := .idle } := by
            obtain ⟨startedNs, scope⟩ := listing
            rw [UniverseLoop.step, hwork]
            cases scope with
            | full => exact ⟨_, rfl⟩
            | groups names previous => exact ⟨w.loop.refreshDueNs, rfl⟩
          rw [Watch.step_ending hflight (by rw [hstep]; rfl), hstep]
          refine ⟨⟨fun _ => rfl, by rintro _ ⟨⟩⟩, iff_of_true (fun e he => ?_) trivial⟩
          rcases List.mem_append.mp he with hold | hnew
          · obtain ⟨p, hp, hle, -⟩ := h.asked e hold
            exact ⟨p, hp, hle⟩
          · cases hnew
      | idle =>
          exact Watch.held_of_same h (by rw [UniverseLoop.step, hwork]) rfl trivial
      | applying desired decision after =>
          exact Watch.held_of_same h (by rw [UniverseLoop.step, hwork]) rfl trivial
  | applied monoNs startedNs =>
      have hvacuous : (∀ desired decision listing read,
          w.loop.work ≠ .applying desired decision (.listed listing read)) →
          w.Later (.applied monoNs startedNs) :=
        fun hno desired decision listing read hwork => absurd hwork (hno _ _ _ _)
      cases hwork : w.loop.work with
      | applying desired decision after =>
          cases after with
          | listed listing read => exact Watch.kept_listed h hwork monoNs startedNs
          | removed =>
              rw [Watch.step_idle (by rw [inFlight, hwork])]
              refine ⟨⟨fun _ => rfl, by rintro _ ⟨⟩⟩, iff_of_true (by rintro _ ⟨⟩) (hvacuous ?_)⟩
              rw [hwork]
              simp
      | idle =>
          refine Watch.held_of_same h ?_ ?_ (hvacuous ?_)
          · rw [UniverseLoop.step, hwork]
          · rw [UniverseLoop.requests.eq_def, hwork]
          · rw [hwork]
            simp
      | listing listing =>
          refine Watch.held_of_same h ?_ ?_ (hvacuous ?_)
          · rw [UniverseLoop.step, hwork]
          · rw [UniverseLoop.requests.eq_def, hwork]
          · rw [hwork]
            simp

/-- In every state of every run, a delay of zero means that the step does work.
Re-listings start an interval apart. And what is asked for while a listing runs
is still pending when it ends, exactly if no listing is installed over a request
for one of its groups that was made since it started at a reading no later than
its start. -/
theorem universe_progresses (c : RecorderConfig) (startedNs : Int) (acts : List Act)
    (hforward : ∀ act ∈ acts, act.Forward) :
    Run.Throughout (step c)
        (fun s => s.work = .idle → ∀ monoNs wallNs, s.universeDelayNs monoNs wallNs = 0 →
          ∀ startedNs, Works s (s.step c (.wake monoNs wallNs startedNs)))
        (start startedNs) acts ∧
      ((relistStarts c (start startedNs) acts).Pairwise fun a b =>
        a + relistMinIntervalS * nsPerS ≤ b) ∧
      (Run.Throughout (Watch.step c) Watch.Kept (.start startedNs) acts ↔
        Run.Along (Watch.step c) Watch.Later (.start startedNs) acts) := by
  refine ⟨?_, (spaced_run acts hforward).2, ?_⟩
  · exact (sound_run c startedNs acts).mono fun s hsound hidle monoNs wallNs hdelay startedNs =>
      works_of_due hsound hidle hdelay startedNs
  · exact Run.throughout_iff_along (L := fun _ _ => True)
      (fun _ act hheld _ => (Watch.kept_step hheld act).1)
      (fun _ act hheld _ _ => (Watch.kept_step hheld act).2)
      (Watch.held_start startedNs) nofun (Run.along_true _ acts)

/-- A market opens while the second refresh runs, at some reading. -/
def openedDuring (monoNs : Int) : List Act :=
  [.arrive ⟨[], false⟩ ∅ 0, .applied 0 0, .wake 1000000000 0 1000000000,
    .lifecycle ⟨"KXGAME-1", "activated", none⟩ monoNs, .arrive ⟨[], false⟩ ∅ 0,
    .applied 2000000000 2000000000]

theorem universe_progresses_later :
    (relistStarts oneSeries (start 0) (openedDuring 1000000001)).Pairwise (fun a b =>
        a + relistMinIntervalS * nsPerS ≤ b) ∧
      Run.Throughout (Watch.step oneSeries) Watch.Kept (.start 0) (openedDuring 1000000001) := by
  obtain ⟨-, hspaced, hkept⟩ := universe_progresses oneSeries 0 (openedDuring 1000000001) (by
    intro act hact
    simp only [openedDuring, List.mem_cons, List.not_mem_nil, or_false] at hact
    rcases hact with rfl | rfl | rfl | rfl | rfl | rfl
    · trivial
    · exact le_refl _
    · exact le_refl _
    · trivial
    · trivial
    · exact le_refl _)
  exact ⟨hspaced, hkept.mpr ⟨trivial, Watch.later_of_all (by decide +kernel), trivial, trivial,
    trivial, Watch.later_of_all (by decide +kernel), trivial⟩⟩

/-- A request made at the very reading of the listing's start is forgotten. -/
theorem tied_request_forgotten :
    ¬ Run.Throughout (Watch.step oneSeries) Watch.Kept (.start 0) (openedDuring 1000000000) := by
  intro h
  have howed : ("games", 6000000000) ∈
      (Run.final (Watch.step oneSeries) (.start 0) (openedDuring 1000000000)).owed := by
    decide +kernel
  have hgone : (Run.final (Watch.step oneSeries) (.start 0)
      (openedDuring 1000000000)).loop.relists.get? "games" = none := by
    decide +kernel
  obtain ⟨p, hp, -⟩ := h.last _ howed
  cases hgone.symm.trans hp

end UniverseLoop

end Tape.Universe
