import Tape.Bake.Retained

/-!
# An hour is settled once something of it was pruned

What the manifest says of such an hour's bake and the part files it lists are
the only record left of what was deleted. No later step of any run changes them,
no run of the bake includes the hour, forced or not, and a bake of it does not
start.
-/

namespace Tape.Bake

/-- What two moments of the archive have in common of an hour. -/
structure Disk.SameHour (d d' : Disk) (hour : HourKey) : Prop where
  manifest : ∃ m m', d.manifest hour.date = some m ∧ d'.manifest hour.date = some m' ∧
    m.SameHour m' hour.hour
  parts : ∀ path, isPartOf hour path → d'.parts.get? path = d.parts.get? path

/-- Something of the hour is recorded as pruned. -/
def Disk.HasPruned (d : Disk) (hour : HourKey) : Prop :=
  ∃ m, d.manifest hour.date = some m ∧ hasPruned m hour = true

theorem hasPruned_mono {m m' : Manifest} {hour : HourKey} (hfollows : m.Follows m')
    (h : hasPruned m hour = true) : hasPruned m' hour = true := by
  obtain ⟨p, hp, hplace⟩ := List.any_eq_true.mp h
  exact List.any_eq_true.mpr ⟨p, hfollows.pruned p hp, hplace⟩

namespace Disk

variable {d d' d'' : Disk} {hour : HourKey}

theorem HasPruned.mono (h : d.HasPruned hour) (hkeeps : d.Keeps d') : d'.HasPruned hour := by
  obtain ⟨m, hm, hpruned⟩ := h
  obtain ⟨m', hm', hfollows⟩ := hkeeps.manifest _ m hm
  exact ⟨m', hm', hasPruned_mono hfollows hpruned⟩

theorem HasPruned.same (h : d.HasPruned hour) (hkeeps : d.Keeps d') : d.SameHour d' hour := by
  obtain ⟨m, hm, hpruned⟩ := h
  obtain ⟨m', hm', hfollows⟩ := hkeeps.manifest _ m hm
  exact ⟨⟨m, m', hm, hm', hfollows.frozen hour hpruned⟩, hkeeps.parts hour m hm hpruned⟩

theorem SameHour.trans (h : d.SameHour d' hour) (h' : d'.SameHour d'' hour) :
    d.SameHour d'' hour := by
  obtain ⟨⟨m, m', hm, hm', hsame⟩, hparts⟩ := h
  obtain ⟨⟨other, m'', hother, hm'', hsame'⟩, hparts'⟩ := h'
  obtain rfl : other = m' := Option.some.inj (hother.symm.trans hm')
  refine ⟨⟨m, m'', hm, hm'', ?_⟩, fun path hpath => ?_⟩
  · exact ⟨hsame'.bake.trans hsame.bake, hsame'.segments.trans hsame.segments,
      hsame'.parts.trans hsame.parts⟩
  · rw [hparts' path hpath, hparts path hpath]

/-- No run of the bake includes the hour. -/
theorem HasPruned.not_takes (h : d.HasPruned hour) (force : Bool) :
    d.takes force hour = false := by
  obtain ⟨m, hm, hpruned⟩ := h
  rw [takes, Archive.takesHour, hm]
  cases force with
  | true => simp [mayBake, hpruned]
  | false => simp [bakeNeeded, hpruned]

/-- On a disk the hours are asked for one by one, each candidate once. -/
theorem hoursToBake_ok {nowWallNs : Int} {graceNs : Nat} {force : Bool}
    {candidates : Option (List HourKey)} {hours : List HourKey}
    (h : d.archive.hoursToBake nowWallNs graceNs force candidates = .ok hours) :
    ∃ considered, hours = (closedHours considered nowWallNs graceNs).filter (d.takes force) ∧
      (d.hourDirs.Nodup → considered.Nodup) := by
  have hnone : ∀ date manifest, (∅ : Dict Date (Option Manifest)).get? date = some manifest →
      manifest = d.manifest date := by
    intro date manifest hget
    rw [Dict.get?_empty] at hget
    cases hget
  rw [Archive.hoursToBake.eq_def] at h
  dsimp only at h
  rw [hoursToBakeFrom_eq d force _ ∅ hnone] at h
  refine ⟨_, (Except.ok.inj h).symm, fun honce => ?_⟩
  cases candidates with
  | none => exact (Sorted.sortOn_perm _ _).nodup_iff.mpr honce
  | some asked => exact (Sorted.sortOn_perm _ _).nodup_iff.mpr (List.nodup_dedup asked)

theorem HasPruned.not_mem (h : d.HasPruned hour) {nowWallNs : Int} {graceNs : Nat} {force : Bool}
    {candidates : Option (List HourKey)} {hours : List HourKey}
    (hok : d.archive.hoursToBake nowWallNs graceNs force candidates = .ok hours) :
    hour ∉ hours := by
  intro hin
  obtain ⟨considered, rfl, -⟩ := hoursToBake_ok hok
  have htakes := (List.mem_filter.mp hin).2
  rw [h.not_takes force] at htakes
  cases htakes

end Disk

/-- A state at which something of the hour is pruned, and what every later one
has in common with it. -/
theorem frozen_along {retentionHours : Int} {hour : HourKey} {s : ArchiveState}
    {acts : List ArchiveAct} (hs : s.Sound retentionHours) (hpruned : s.disk.HasPruned hour)
    (h : Run.Along (ArchiveState.step retentionHours) (ArchiveState.Admissible retentionHours)
      s acts) :
    let s' := Run.final (ArchiveState.step retentionHours) s acts
    s.disk.SameHour s'.disk hour ∧ s'.disk.HasPruned hour := by
  have hstep : ∀ (t : ArchiveState) act,
      (t.Sound retentionHours ∧ s.disk.SameHour t.disk hour ∧ t.disk.HasPruned hour) →
      t.Admissible retentionHours act →
      ((t.step retentionHours act).Sound retentionHours ∧
        s.disk.SameHour (t.step retentionHours act).disk hour ∧
        (t.step retentionHours act).disk.HasPruned hour) := by
    rintro t act ⟨ht, hsame, hhas⟩ hact
    obtain ⟨hkeeps, hsound⟩ := leads_step ht hact
    exact ⟨hsound, hsame.trans (hhas.same hkeeps), hhas.mono hkeeps⟩
  have hstart := hpruned.same (Disk.keeps_refl s.disk)
  exact (Run.throughout_of_step hstep ⟨hs, hstart, hpruned⟩ h).last.2

/-- Once a segment of an hour was deleted, what is recorded of the hour and its
part files stay as they are, and the hour is not baked again. -/
theorem pruned_hour_frozen (retentionHours : Int) (disk : Disk) (clockNs : Int)
    (acts later : List ArchiveAct)
    (h : Run.Along (ArchiveState.step retentionHours) (ArchiveState.Admissible retentionHours)
      (.new disk clockNs) (acts ++ later)) :
    let s := Run.final (ArchiveState.step retentionHours) (.new disk clockNs) acts
    let s' := Run.final (ArchiveState.step retentionHours) s later
    ∀ u ∈ s.unlinked, ∃ hour, isSegmentOf hour u.name = true ∧ s.disk.SameHour s'.disk hour ∧
      (∀ nowWallNs graceNs force candidates hours,
        s'.disk.archive.hoursToBake nowWallNs graceNs force candidates = .ok hours →
          hour ∉ hours) ∧
      ∀ r softwareVersion clockOffsetMs, r.hour = hour →
        s'.step retentionHours (.bake r softwareVersion clockOffsetMs) = s' := by
  intro s s' u hu
  obtain ⟨hacts, hlater⟩ := Run.along_append.mp h
  have hs : s.Sound retentionHours := (throughout_sound hacts).last
  obtain ⟨hour, hverified, hlisted, -⟩ := hs.retained u hu
  have hpruned : s.disk.HasPruned hour := by
    obtain ⟨m, hm, hrecord⟩ := hlisted
    exact ⟨m, hm, hasPruned_of_recorded hverified ⟨m, rfl, hrecord⟩⟩
  obtain ⟨hsame, hhas⟩ := frozen_along hs hpruned hlater
  refine ⟨hour, hverified.ofHour, hsame, fun _ _ _ _ _ hok => hhas.not_mem hok, ?_⟩
  rintro r softwareVersion clockOffsetMs rfl
  obtain ⟨m, hm, hpruned'⟩ := hhas
  have hrefused : mayBake (s'.disk.manifest r.hour.date) r.hour = false := by
    rw [hm]
    simp [mayBake, hpruned']
  rw [ArchiveState.step]
  split
  · rw [if_neg (Bool.eq_false_iff.mp hrefused)]
  · rfl

/-- The prune stops, and another bake of the hour is asked for. -/
theorem pruned_hour_frozen_once :
    let s := Run.final (ArchiveState.step 1) (.new bakedDisk 7200000000001) pruneOnce
    let s' := Run.final (ArchiveState.step 1) s [.crash ∅, .bake smallerParts "2" none]
    ∃ u ∈ s.unlinked, ∃ hour, isSegmentOf hour u.name = true ∧ s.disk.SameHour s'.disk hour ∧
      (∀ nowWallNs graceNs force candidates hours,
        s'.disk.archive.hoursToBake nowWallNs graceNs force candidates = .ok hours →
          hour ∉ hours) ∧
      ∀ r softwareVersion clockOffsetMs, r.hour = hour →
        s'.step 1 (.bake r softwareVersion clockOffsetMs) = s' := by
  have hrun := Run.along_append.mpr ⟨along_pruneOnce, show Run.Along (ArchiveState.step 1)
    (ArchiveState.Admissible 1) _ [.crash ∅, .bake smallerParts "2" none] from
      ⟨trivial, trivial, trivial⟩⟩
  obtain ⟨u, hu, -⟩ := List.mem_map.mp (names_pruneOnce ▸ List.mem_singleton_self
    "1970-01-01/00/conn-01.tape.zst")
  exact ⟨u, hu, pruned_hour_frozen 1 bakedDisk 7200000000001 _ _ hrun u hu⟩

end Tape.Bake
