import Mathlib
import Tape.Bake.Facts
import Tape.Bake.Layout
import Tape.Dict
import Tape.Intervals

/-!
# Recording time over a day

`summarize_uptime` joins the spans of each connection, merges all of them, cuts
them to the day and takes off what the host slept. What it returns is a count
of nanoseconds in whole seconds: those of the day in which some connection was
open, or was between a span left open and its continuation, while the host was
awake (`summarizeUptime_eq`). Only the spans' order within a connection
matters, and their own bounds decide it.
-/

namespace Tape.Bake

/-- Seconds of a day. -/
def secondsPerDay : Int := 86400

/-- Seconds of the day with a taped connection open, excluding host sleep. -/
structure Uptime where
  secondsRecording : Int
  secondsInDay : Int
  ratio : Int × Int
  deriving DecidableEq, Repr

namespace ConnectionSpan

/-- The key the spans of a connection are sorted by. -/
def key (s : ConnectionSpan) : Int ×ₗ Int := toLex (s.startWallNs, s.endWallNs)

end ConnectionSpan

/-- The spans of one connection in order, the stretch so far at the front. -/
def joinFrom (start stop : Int) (closed : Bool) : List ConnectionSpan → List (Int × Int)
  | [] => [(start, stop)]
  | span :: spans =>
      if closed = false ∧ span.opened = false then
        joinFrom start (max stop span.endWallNs) span.closed spans
      else
        (start, stop) :: joinFrom span.startWallNs span.endWallNs span.closed spans

/-- The stretches of one connection, joined where one goes on from another. -/
def joinConnection (spans : List ConnectionSpan) : List (Int × Int) :=
  match Sorted.sortOn ConnectionSpan.key spans with
  | [] => []
  | span :: spans => joinFrom span.startWallNs span.endWallNs span.closed spans

/-- `_joined_spans`. -/
def joinedSpans (hours : List HourBake) : List (Int × Int) :=
  let byConn := Dict.groupBy ConnectionSpan.connId (hours.flatMap fun h => h.integrity.spans)
  byConn.values.flatMap fun group => joinConnection (group.1 :: group.2)

/-- The stretches in which the host slept. -/
def sleepsOf (hours : List HourBake) : List (Int × Int) :=
  hours.flatMap fun h => h.integrity.sleeps.map fun s => (s.startWallNs, s.endWallNs)

/-- How long the day was recorded, the host being awake. -/
def summarizeUptime (date : Date) (hours : List HourBake) : Uptime :=
  let dayStart := (HourKey.mk date 0 HourKey.first_lt).startWallNs
  let dayEnd := dayStart + secondsPerDay * nsPerS
  let covered := Intervals.clip (Intervals.union (joinedSpans hours)) dayStart dayEnd
  let asleep := Intervals.union (sleepsOf hours)
  let recordingNs := Intervals.length covered - Intervals.overlap covered asleep
  let seconds := recordingNs / nsPerS
  ⟨seconds, secondsPerDay, (seconds, secondsPerDay)⟩

/-! ## What is recorded -/

/-- The spans of one connection in the order of their bounds. -/
def spansOf (spans : List ConnectionSpan) (conn : Int) : List ConnectionSpan :=
  Sorted.sortOn ConnectionSpan.key (spans.filter fun s => s.connId = conn)

/-- A span left open is followed by one that continues it, and the instant is
between them. -/
def Continued (spans : List ConnectionSpan) (t : Int) : Prop :=
  ∃ conn earlier later, [earlier, later] <:+: spansOf spans conn ∧
    earlier.closed = false ∧ later.opened = false ∧
    earlier.endWallNs ≤ t ∧ t < later.startWallNs

/-- The instants at which a connection was open. -/
def Open (spans : List ConnectionSpan) (t : Int) : Prop :=
  (∃ s ∈ spans, s.startWallNs ≤ t ∧ t < s.endWallNs) ∨ Continued spans t

/-- The host slept at that instant. -/
def Asleep (sleeps : List Sleep) (t : Int) : Prop :=
  ∃ s ∈ sleeps, s.startWallNs ≤ t ∧ t < s.endWallNs

theorem pair_infix_cons {α : Type*} {a b c d : α} {l : List α} :
    [a, b] <:+: c :: d :: l ↔ (a = c ∧ b = d) ∨ [a, b] <:+: d :: l := by
  rw [List.infix_cons_iff, List.cons_prefix_cons, List.cons_prefix_cons]
  simp

/-- What the stretches of a connection cover: the one so far, the spans after
it, and what lies between a span left open and its continuation. The stretch so
far begins no later than its last span and ends no earlier. -/
theorem covers_joinFrom {p : ConnectionSpan} {start stop : Int} {l : List ConnectionSpan}
    (hsorted : (p :: l).Pairwise fun a b => a.startWallNs ≤ b.startWallNs)
    (hstart : start ≤ p.startWallNs) (hstop : p.endWallNs ≤ stop) (t : Int) :
    Intervals.Covers (joinFrom start stop p.closed l) t ↔
      (start ≤ t ∧ t < stop) ∨ (∃ s ∈ l, s.startWallNs ≤ t ∧ t < s.endWallNs) ∨
        ∃ a b, [a, b] <:+: p :: l ∧ a.closed = false ∧ b.opened = false ∧
          a.endWallNs ≤ t ∧ t < b.startWallNs := by
  induction l generalizing p start stop with
  | nil =>
      rw [joinFrom, Intervals.covers_cons]
      refine or_congr_right (iff_of_false (Intervals.covers_nil t) ?_)
      rintro (⟨s, hs, -⟩ | ⟨a, b, hinfix, -⟩)
      · cases hs
      · have hle := hinfix.length_le
        simp at hle
  | cons s l ih =>
      have hps : p.startWallNs ≤ s.startWallNs :=
        (List.pairwise_cons.mp hsorted).1 s List.mem_cons_self
      have htail := (List.pairwise_cons.mp hsorted).2
      have hp := p.ordered
      have hs := s.ordered
      have hgaps : (∃ a b, [a, b] <:+: p :: s :: l ∧ a.closed = false ∧ b.opened = false ∧
          a.endWallNs ≤ t ∧ t < b.startWallNs) ↔
          (p.closed = false ∧ s.opened = false ∧ p.endWallNs ≤ t ∧ t < s.startWallNs) ∨
            ∃ a b, [a, b] <:+: s :: l ∧ a.closed = false ∧ b.opened = false ∧
              a.endWallNs ≤ t ∧ t < b.startWallNs := by
        constructor
        · rintro ⟨a, b, hinfix, hgap⟩
          rcases pair_infix_cons.mp hinfix with ⟨rfl, rfl⟩ | hinfix
          · exact .inl hgap
          · exact .inr ⟨a, b, hinfix, hgap⟩
        · rintro (hgap | ⟨a, b, hinfix, hgap⟩)
          · exact ⟨p, s, pair_infix_cons.mpr (.inl ⟨rfl, rfl⟩), hgap⟩
          · exact ⟨a, b, pair_infix_cons.mpr (.inr hinfix), hgap⟩
      rw [hgaps, List.exists_mem_cons_iff, joinFrom]
      split
      · next hjoined =>
          rw [ih htail (le_trans hstart hps) (le_max_right _ _)]
          constructor
          · rintro (⟨hfrom, hto⟩ | hrest | hrest)
            · by_cases hold : t < stop
              · exact .inl ⟨hfrom, hold⟩
              · by_cases hin : s.startWallNs ≤ t
                · exact .inr (.inl (.inl ⟨hin, by omega⟩))
                · exact .inr (.inr (.inl ⟨hjoined.1, hjoined.2, by omega, by omega⟩))
            · exact .inr (.inl (.inr hrest))
            · exact .inr (.inr (.inr hrest))
          · rintro (⟨hfrom, hto⟩ | (⟨hfrom, hto⟩ | hrest) | ⟨-, -, hfrom, hto⟩ | hrest)
            · exact .inl ⟨hfrom, by omega⟩
            · exact .inl ⟨by omega, by omega⟩
            · exact .inr (.inl hrest)
            · exact .inl ⟨by omega, by omega⟩
            · exact .inr (.inr hrest)
      · next hapart =>
          rw [Intervals.covers_cons, ih htail (le_refl _) (le_refl _)]
          constructor
          · rintro (hfirst | hspan | hrest | hrest)
            · exact .inl hfirst
            · exact .inr (.inl (.inl hspan))
            · exact .inr (.inl (.inr hrest))
            · exact .inr (.inr (.inr hrest))
          · rintro (hfirst | (hspan | hrest) | ⟨hclosed, hopened, -⟩ | hrest)
            · exact .inl hfirst
            · exact .inr (.inl hspan)
            · exact .inr (.inr (.inl hrest))
            · exact absurd ⟨hclosed, hopened⟩ hapart
            · exact .inr (.inr (.inr hrest))

theorem sorted_starts (spans : List ConnectionSpan) :
    (Sorted.sortOn ConnectionSpan.key spans).Pairwise fun a b =>
      a.startWallNs ≤ b.startWallNs := by
  refine (Sorted.sortOn_pairwise ConnectionSpan.key spans).imp fun {a b} h => ?_
  rcases Prod.Lex.toLex_le_toLex.mp h with hlt | ⟨heq, -⟩
  · exact hlt.le
  · exact heq.le

theorem covers_joinConnection (spans : List ConnectionSpan) (t : Int) :
    Intervals.Covers (joinConnection spans) t ↔
      (∃ s ∈ spans, s.startWallNs ≤ t ∧ t < s.endWallNs) ∨
        ∃ a b, [a, b] <:+: Sorted.sortOn ConnectionSpan.key spans ∧ a.closed = false ∧
          b.opened = false ∧ a.endWallNs ≤ t ∧ t < b.startWallNs := by
  have hmem : ∀ s, s ∈ Sorted.sortOn ConnectionSpan.key spans ↔ s ∈ spans := fun s =>
    (Sorted.sortOn_perm ConnectionSpan.key spans).mem_iff
  have hsorted := sorted_starts spans
  simp only [← hmem]
  rw [joinConnection]
  cases hsort : Sorted.sortOn ConnectionSpan.key spans with
  | nil =>
      refine iff_of_false (Intervals.covers_nil t) ?_
      rintro (⟨s, hs, -⟩ | ⟨a, b, hinfix, -⟩)
      · cases hs
      · have hle := hinfix.length_le
        simp at hle
  | cons s l =>
      rw [hsort] at hsorted
      rw [List.exists_mem_cons_iff, or_assoc]
      exact covers_joinFrom hsorted (le_refl _) (le_refl _) t

/-- The stretches of all connections cover the instants at which one was
open. -/
theorem covers_joinedSpans (hours : List HourBake) (t : Int) :
    Intervals.Covers (joinedSpans hours) t ↔
      Open (hours.flatMap fun h => h.integrity.spans) t := by
  generalize hspans : (hours.flatMap fun h => h.integrity.spans) = spans
  have hgroups := (Dict.groupBy_values ConnectionSpan.connId spans).2
  have hcovers : Intervals.Covers (joinedSpans hours) t ↔
      ∃ g ∈ (Dict.groupBy ConnectionSpan.connId spans).values,
        Intervals.Covers (joinConnection (g.1 :: g.2)) t := by
    rw [joinedSpans, hspans]
    constructor
    · rintro ⟨i, hi, ht⟩
      obtain ⟨g, hg, hmem⟩ := List.mem_flatMap.mp hi
      exact ⟨g, hg, i, hmem, ht⟩
    · rintro ⟨g, hg, i, hmem, ht⟩
      exact ⟨i, List.mem_flatMap.mpr ⟨g, hg, hmem⟩, ht⟩
  rw [hcovers]
  constructor
  · rintro ⟨g, hg, ht⟩
    rw [hgroups g hg, covers_joinConnection] at ht
    rcases ht with ⟨s, hs, hbounds⟩ | ⟨a, b, hnext, hgap⟩
    · exact .inl ⟨s, (List.mem_filter.mp hs).1, hbounds⟩
    · exact .inr ⟨g.1.connId, a, b, hnext, hgap⟩
  · rintro (⟨s, hs, hbounds⟩ | ⟨conn, a, b, hnext, hgap⟩)
    · obtain ⟨g, hg, hconn⟩ := Dict.exists_groupBy ConnectionSpan.connId hs
      refine ⟨g, hg, ?_⟩
      rw [hgroups g hg, covers_joinConnection]
      exact .inl ⟨s, List.mem_filter.mpr ⟨hs, decide_eq_true hconn.symm⟩, hbounds⟩
    · have hsorted : a ∈ spansOf spans conn := hnext.subset List.mem_cons_self
      obtain ⟨ha, hof⟩ := List.mem_filter.mp ((Sorted.sortOn_perm _ _).mem_iff.mp hsorted)
      obtain ⟨g, hg, hconn⟩ := Dict.exists_groupBy ConnectionSpan.connId ha
      refine ⟨g, hg, ?_⟩
      rw [hgroups g hg, covers_joinConnection, hconn, of_decide_eq_true hof]
      exact .inr ⟨a, b, hnext, hgap⟩

theorem joinFrom_proper {start stop : Int} {closed : Bool} {l : List ConnectionSpan}
    (h : start ≤ stop) : ∀ i ∈ joinFrom start stop closed l, i.1 ≤ i.2 := by
  induction l generalizing start stop closed with
  | nil =>
      intro i hi
      obtain rfl := List.mem_singleton.mp hi
      exact h
  | cons s l ih =>
      intro i hi
      rw [joinFrom] at hi
      split at hi
      · exact ih (le_trans h (le_max_left _ _)) i hi
      · rcases List.mem_cons.mp hi with rfl | hi
        · exact h
        · exact ih s.ordered i hi

theorem joinedSpans_proper (hours : List HourBake) : ∀ i ∈ joinedSpans hours, i.1 ≤ i.2 := by
  intro i hi
  rw [joinedSpans] at hi
  obtain ⟨g, -, hmem⟩ := List.mem_flatMap.mp hi
  rw [joinConnection] at hmem
  split at hmem
  · cases hmem
  · next s _ _ => exact joinFrom_proper s.ordered i hmem

theorem sleepsOf_proper (hours : List HourBake) : ∀ i ∈ sleepsOf hours, i.1 ≤ i.2 := by
  intro i hi
  obtain ⟨h, -, hmem⟩ := List.mem_flatMap.mp hi
  obtain ⟨s, -, rfl⟩ := List.mem_map.mp hmem
  exact s.ordered

theorem covers_sleepsOf (hours : List HourBake) (t : Int) :
    Intervals.Covers (sleepsOf hours) t ↔
      Asleep (hours.flatMap fun h => h.integrity.sleeps) t := by
  constructor
  · rintro ⟨i, hi, ht⟩
    obtain ⟨h, hh, hmem⟩ := List.mem_flatMap.mp hi
    obtain ⟨s, hs, rfl⟩ := List.mem_map.mp hmem
    exact ⟨s, List.mem_flatMap.mpr ⟨h, hh, hs⟩, ht⟩
  · rintro ⟨s, hs, ht⟩
    obtain ⟨h, hh, hmem⟩ := List.mem_flatMap.mp hs
    exact ⟨_, List.mem_flatMap.mpr ⟨h, hh, List.mem_map_of_mem hmem⟩, ht⟩

/-- The nanoseconds of a day in which a connection was open and the host was
awake. -/
def recorded (date : Date) (spans : List ConnectionSpan) (sleeps : List Sleep) : Set Int :=
  {t | (HourKey.mk date 0 (by decide)).startWallNs ≤ t ∧
    t < (HourKey.mk date 0 (by decide)).startWallNs + secondsPerDay * nsPerS ∧
    Open spans t ∧ ¬ Asleep sleeps t}

theorem recordingNs_eq (date : Date) (hours : List HourBake) :
    let dayStart := (HourKey.mk date 0 (by decide)).startWallNs
    let covered := Intervals.clip (Intervals.union (joinedSpans hours)) dayStart
      (dayStart + secondsPerDay * nsPerS)
    Intervals.length covered - Intervals.overlap covered (Intervals.union (sleepsOf hours)) =
      (recorded date (hours.flatMap fun h => h.integrity.spans)
        (hours.flatMap fun h => h.integrity.sleeps)).ncard := by
  intro dayStart covered
  have hday : dayStart ≤ dayStart + secondsPerDay * nsPerS :=
    le_add_of_nonneg_right (by decide)
  have hcovered : Intervals.Separated covered :=
    (Intervals.separated_union (joinedSpans_proper hours)).clip hday
  have hasleep := Intervals.separated_union (sleepsOf_proper hours)
  have hset : recorded date (hours.flatMap fun h => h.integrity.spans)
      (hours.flatMap fun h => h.integrity.sleeps) =
        (Intervals.points covered \ Intervals.points (Intervals.union (sleepsOf hours)) :
          Finset Int) := by
    ext t
    rw [Finset.mem_coe, Finset.mem_sdiff, Intervals.mem_points, Intervals.mem_points,
      Intervals.covers_clip, Intervals.covers_union, Intervals.covers_union,
      covers_joinedSpans, covers_sleepsOf, and_comm (a := Open _ t), and_assoc, and_assoc]
    rfl
  have hcard := Finset.card_sdiff_add_card_inter (Intervals.points covered)
    (Intervals.points (Intervals.union (sleepsOf hours)))
  rw [hset, Set.ncard_coe_finset, Intervals.length_eq_card hcovered,
    Intervals.overlap_eq_card hcovered hasleep]
  omega

theorem recorded_subset (date : Date) (spans : List ConnectionSpan) (sleeps : List Sleep) :
    (recorded date spans sleeps).ncard ≤ 86400 * 1000000000 := by
  have hsub : recorded date spans sleeps ⊆
      (Finset.Ico (HourKey.mk date 0 (by decide)).startWallNs
        ((HourKey.mk date 0 (by decide)).startWallNs + secondsPerDay * nsPerS) : Finset Int) := by
    rintro t ⟨hlow, hhigh, -⟩
    exact Finset.mem_coe.mpr (Finset.mem_Ico.mpr ⟨hlow, hhigh⟩)
  have hle := Set.ncard_le_ncard hsub (Finset.finite_toSet _)
  rw [Set.ncard_coe_finset, Int.card_Ico] at hle
  have hlen : secondsPerDay * nsPerS = 86400 * 1000000000 := rfl
  omega

/-! ## The order does not matter -/

/-- No two spans of a connection start and end together. -/
def Apart (spans : List ConnectionSpan) : Prop :=
  spans.Pairwise fun a b => ¬ (a.connId = b.connId ∧ a.key = b.key)

theorem spansOf_perm {spans spans' : List ConnectionSpan} (h : spans.Perm spans')
    (hapart : Apart spans) (conn : Int) : spansOf spans conn = spansOf spans' conn := by
  refine Sorted.sortOn_eq_of_perm (h.filter _) ?_
  rw [List.Nodup, List.pairwise_map]
  refine (hapart.filter _).imp_of_mem fun {a b} ha hb hne heq => hne ⟨?_, heq⟩
  rw [of_decide_eq_true (List.mem_filter.mp ha).2, of_decide_eq_true (List.mem_filter.mp hb).2]

theorem recorded_perm {spans spans' : List ConnectionSpan} {sleeps sleeps' : List Sleep}
    (hspans : spans.Perm spans') (hsleeps : sleeps.Perm sleeps') (hapart : Apart spans)
    (date : Date) : recorded date spans sleeps = recorded date spans' sleeps' := by
  ext t
  have hcontinued : Continued spans t ↔ Continued spans' t := by
    rw [Continued, Continued]
    simp only [spansOf_perm hspans hapart]
  have hopen : Open spans t ↔ Open spans' t := by
    rw [Open, Open, hcontinued]
    simp only [hspans.mem_iff]
  have hasleep : Asleep sleeps t ↔ Asleep sleeps' t := by
    rw [Asleep, Asleep]
    simp only [hsleeps.mem_iff]
  rw [recorded, recorded, Set.mem_ofPred_eq, Set.mem_ofPred_eq, hopen, hasleep]

/-- The day's uptime is the measure of what was recorded, in whole seconds. -/
theorem summarizeUptime_spec (date : Date) (hours : List HourBake) :
    let spans := hours.flatMap fun h => h.integrity.spans
    let sleeps := hours.flatMap fun h => h.integrity.sleeps
    let uptime := summarizeUptime date hours
    uptime.secondsRecording = ((recorded date spans sleeps).ncard : Int) / nsPerS ∧
      0 ≤ uptime.secondsRecording ∧ uptime.secondsRecording ≤ 86400 ∧
      uptime.secondsInDay = 86400 ∧ uptime.ratio = (uptime.secondsRecording, 86400) ∧
      ∀ hours' : List HourBake,
        spans.Perm (hours'.flatMap fun h => h.integrity.spans) →
        sleeps.Perm (hours'.flatMap fun h => h.integrity.sleeps) →
        Apart spans → summarizeUptime date hours' = uptime := by
  intro spans sleeps uptime
  have hseconds : ∀ hours : List HourBake, (summarizeUptime date hours).secondsRecording =
      ((recorded date (hours.flatMap fun h => h.integrity.spans)
        (hours.flatMap fun h => h.integrity.sleeps)).ncard : Int) / nsPerS := fun hours =>
    congrArg (· / nsPerS) (recordingNs_eq date hours)
  have hns : nsPerS = 1000000000 := rfl
  have hbound := recorded_subset date spans sleeps
  have hvalue : uptime.secondsRecording = ((recorded date spans sleeps).ncard : Int) / nsPerS :=
    hseconds hours
  have hform : ∀ hours : List HourBake, summarizeUptime date hours =
      ⟨(summarizeUptime date hours).secondsRecording, secondsPerDay,
        ((summarizeUptime date hours).secondsRecording, secondsPerDay)⟩ := fun _ => rfl
  refine ⟨hvalue, ?_, ?_, rfl, rfl, fun hours' hspans hsleeps hapart => ?_⟩
  · rw [hvalue, hns]
    omega
  · rw [hvalue, hns]
    omega
  · have hsame : (summarizeUptime date hours').secondsRecording = uptime.secondsRecording := by
      rw [hseconds hours', hvalue, recorded_perm hspans hsleeps hapart date]
    rw [hform hours', hsame]
    exact (hform hours).symm

/-- An hour with one span of connection 1. -/
def spanHour (hour : Int) (span : ConnectionSpan) : HourBake :=
  let integrity : HourIntegrity :=
    { spans := [span]
      sleeps := [⟨4000000000, 6000000000, by decide⟩]
      gaps := ⟨0, 0, 0⟩
      audits := ⟨0, 0, 0, 0, 0⟩
      writerOverflowDropped := 0 }
  ⟨hour, 1, "1", ⟨∅, ∅, ∅, ∅, 0, nofun, rfl⟩, integrity⟩

/-- A connection left open in one hour and continued in the next, with the hours
in either order. -/
theorem summarizeUptime_swapped :
    summarizeUptime Date.epoch
        [spanHour 1 ⟨1, 5000000000, 9000000000, false, true, by decide⟩,
          spanHour 0 ⟨1, 0, 3000000000, true, false, by decide⟩] =
      summarizeUptime Date.epoch
        [spanHour 0 ⟨1, 0, 3000000000, true, false, by decide⟩,
          spanHour 1 ⟨1, 5000000000, 9000000000, false, true, by decide⟩] := by
  refine (summarizeUptime_spec Date.epoch
    [spanHour 0 ⟨1, 0, 3000000000, true, false, by decide⟩,
      spanHour 1 ⟨1, 5000000000, 9000000000, false, true, by decide⟩]).2.2.2.2.2 _ ?_ ?_ ?_
  · exact List.Perm.swap _ _ _
  · exact List.Perm.refl _
  · exact List.pairwise_pair.mpr (by decide)

end Tape.Bake
