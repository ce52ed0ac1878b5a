import Tape.Bake.Retained

/-!
# When an hour is ready to be pruned

The conditions on which a survey lets an hour's segments go, read off the disk
it looks at: `Disk.Ready`. A survey of a disk that holds still finds no error,
and its prunable decisions are those of the hours that are ready and have
segments left, each listed with its size and hash (`exists_survey`). What it
lists can be recorded (`withPruned_succeeds`).
-/

namespace Tape.Bake

/-- The conditions on which an hour's segments are deleted. -/
structure Disk.Ready (d : Disk) (o : PruneOptions) (hour : HourKey) (m : Manifest) : Prop where
  manifest : d.manifest hour.date = some m
  ended : PastWindow o.retentionHours hour o.nowWallNs
  baked : ∃ entry ∈ m.bake.hours, entry.hour = hour.hour ∧
    entry.bakeVersion = o.bakeVersion ∧ entry.accounting.failures = 0
  onDisk : ∀ name ∈ d.segmentFiles hour, ∃ e ∈ m.segments, e.hour = hour.hour ∧
    e.path = name ∧ d.segments.get? name = some ⟨e.bytes, e.sha256⟩
  listed : ∀ e ∈ m.segments, e.hour = hour.hour →
    e.path ∈ d.segmentFiles hour ∨ e.path ∈ m.pruned.map PrunedSegment.path
  parts : ∀ name, ∀ e ∈ (m.tables name).files, e.hour = hour.hour →
    ∃ file, d.parts.get? e.path = some file ∧ file.sha256 = e.sha256

/-- By its day's manifest the hour may be pruned. -/
def Disk.IsReady (d : Disk) (o : PruneOptions) (hour : HourKey) : Prop := ∃ m, d.Ready o hour m

section

variable {d : Disk} {o : PruneOptions} {hour : HourKey} {m : Manifest}

theorem readEach_pure {α β ε : Type*} {read : α → Except ε β} {f : α → β} {l : List α}
    (h : ∀ a ∈ l, read a = .ok (f a)) : readEach read l = .ok (l.map f) := by
  induction l with
  | nil => rfl
  | cons a rest ih =>
      obtain ⟨ha, hrest⟩ := List.forall_mem_cons.mp h
      rw [readEach, ha, ih hrest]
      rfl

/-- A part as it is found on the disk. -/
def Disk.foundPart (d : Disk) (hashed : Bool) (part : PartEntry) : PartOnDisk where
  path := part.path
  present := (d.parts.get? part.path).isSome
  sha256 := if hashed then (d.parts.get? part.path).map File.sha256 else none

theorem partOnDisk_disk (d : Disk) (hashed : Bool) (part : PartEntry) :
    d.archive.partOnDisk hashed part = .ok (d.foundPart hashed part) := by
  have hcontains : d.archive.isPart part.path = (d.parts.get? part.path).isSome := rfl
  rw [Archive.partOnDisk, hcontains, Disk.foundPart]
  cases hget : d.parts.get? part.path with
  | none => cases hashed <;> rfl
  | some file =>
      cases hashed with
      | false => rfl
      | true => simp [Disk.archive, Disk.stat, hget, Except.map]

theorem partsOnDisk_disk (d : Disk) (hm : d.manifest hour.date = some m) (hashed : Bool) :
    d.archive.partsOnDisk (d.manifest hour.date) hour hashed =
      .ok ((m.hourParts hour.hour).map (d.foundPart hashed)) := by
  rw [hm, Archive.partsOnDisk.eq_def]
  dsimp only
  rw [if_neg (not_not.mpr (d.dated _ _ hm)),
    readEach_pure fun part _ => partOnDisk_disk d hashed part]

theorem hashedSegment_disk {s : SegmentOnDisk} (h : s ∈ d.onDisk hour) :
    ∃ file, d.segments.get? s.path = some file ∧
      d.archive.hashedSegment s = .ok { s with sha256 := some file.sha256 } := by
  obtain ⟨name, -, hs⟩ := List.mem_filterMap.mp h
  obtain ⟨file, hfile, rfl⟩ := Option.map_eq_some_iff.mp hs
  refine ⟨file, hfile, ?_⟩
  simp [Archive.hashedSegment, Disk.archive, Disk.stat, hfile, Except.map]

/-- On a disk the facts of an hour can be gathered. -/
theorem exists_hashedFacts (d : Disk) (hour : HourKey) :
    ∃ sized hashed, d.archive.sizedFacts (d.manifest hour.date) hour = .ok sized ∧
      d.archive.hashedFacts (d.manifest hour.date) sized = .ok hashed := by
  have hparts : ∀ hashed, ∃ parts,
      d.archive.partsOnDisk (d.manifest hour.date) hour hashed = .ok parts := by
    intro hashed
    cases hm : d.manifest hour.date with
    | none => exact ⟨[], rfl⟩
    | some m =>
        rw [← hm]
        exact ⟨_, partsOnDisk_disk d hm hashed⟩
  obtain ⟨parts, hsizedParts⟩ := hparts false
  obtain ⟨parts', hhashedParts⟩ := hparts true
  have hsegments : ∃ segments, readEach d.archive.hashedSegment (d.onDisk hour) = .ok segments :=
    ⟨_, readEach_pure (f := fun s => { s with sha256 := (d.segments.get? s.path).map File.sha256 })
      fun s hs => by
        obtain ⟨file, hfile, hread⟩ := hashedSegment_disk hs
        rw [hread, hfile]
        rfl⟩
  obtain ⟨segments, hsegments⟩ := hsegments
  refine ⟨⟨hour, d.onDisk hour, parts⟩, ⟨hour, segments, parts'⟩, ?_, ?_⟩
  · rw [Archive.sizedFacts, d.readEach_sizedSegment, hsizedParts]
    rfl
  · rw [Archive.hashedFacts, hsegments]
    dsimp only
    rw [hhashedParts]
    rfl

/-- The segments of the hour, as a decision lists them. -/
def Disk.Lists (d : Disk) (hour : HourKey) (segments : List SegmentOnDisk) : Prop :=
  segments.map SegmentOnDisk.path = d.segmentFiles hour ∧
    ∀ s ∈ segments, ∃ sha256, s.sha256 = some sha256 ∧
      d.segments.get? s.path = some ⟨s.bytes, sha256⟩

theorem lists_hashedFacts {sized hashed : HourFacts}
    (hsized : d.archive.sizedFacts (d.manifest hour.date) hour = .ok sized)
    (hhashed : d.archive.hashedFacts (d.manifest hour.date) sized = .ok hashed) :
    d.Lists hour hashed.segments := by
  obtain ⟨-, hfiles, hread, -⟩ := hashedFacts_files hsized hhashed
  refine ⟨hfiles, fun s hs => ?_⟩
  obtain ⟨hsize, sha256, hsome, hsha⟩ := hread s hs
  obtain ⟨file, hfile, hbytes⟩ := stat_ok hsize
  obtain ⟨file', hfile', hsame⟩ := stat_ok hsha
  obtain rfl := Option.some.inj (hfile.symm.trans hfile')
  refine ⟨sha256, hsome, ?_⟩
  rw [hfile, ← hbytes, ← hsame]

/-- The hour is safe to prune, by its hashed facts, exactly if it is ready. -/
theorem safe_iff_ready {sized hashed : HourFacts} (hm : d.manifest hour.date = some m)
    (hsized : d.archive.sizedFacts (d.manifest hour.date) hour = .ok sized)
    (hhashed : d.archive.hashedFacts (d.manifest hour.date) sized = .ok hashed) :
    hashed.Safe true m o ↔ d.Ready o hour m := by
  obtain ⟨hhour, -, -, hparts⟩ := hashedFacts_files hsized hhashed
  obtain ⟨hfiles, hlists⟩ := lists_hashedFacts hsized hhashed
  rw [partsOnDisk_disk d hm true] at hparts
  have hfound : ∀ name, ∀ e ∈ (m.tables name).files, e.hour = hour.hour →
      (byPath PartOnDisk.path hashed.parts).get? e.path = some (d.foundPart true e) := by
    intro name e he hown
    rw [← Except.ok.inj hparts, get?_byPath]
    · exact ⟨List.mem_map_of_mem (mem_hourParts.mpr ⟨name, he, hown⟩), rfl⟩
    · rw [List.map_map]
      exact nodup_hourParts m hour.hour
  constructor
  · intro hsafe
    refine ⟨hm, ?_, ?_, fun name hname => ?_, fun e he hown => ?_, fun name e he hown => ?_⟩
    · have hended := hsafe.ended
      rw [hhour] at hended
      exact hended
    · have hbaked := hsafe.baked
      rw [hhour] at hbaked
      exact hbaked
    · have hname' : name ∈ hashed.segments.map SegmentOnDisk.path := hfiles ▸ hname
      obtain ⟨s, hs, rfl⟩ := List.mem_map.mp hname'
      obtain ⟨sha256, hsome, hget⟩ := hlists s hs
      obtain ⟨e, he, hown, hpath, hbytes, hfits⟩ := hsafe.onDisk s hs
      refine ⟨e, he, hhour ▸ hown, hpath, ?_⟩
      have hsame := (hashFits_strict hfits).symm.trans hsome
      rw [hget, hbytes, Option.some.inj hsame]
    · rw [← hfiles]
      exact hsafe.listed e he (hhour ▸ hown)
    · obtain ⟨part, hpart, hpresent, hfits⟩ := hsafe.parts name e he (hhour ▸ hown)
      obtain rfl := Option.some.inj ((hfound name e he hown).symm.trans hpart)
      exact Option.map_eq_some_iff.mp (hashFits_strict hfits)
  · intro hready
    refine ⟨?_, ?_, ?_, fun s hs => ?_, fun e he hown => ?_, fun name e he hown => ?_⟩
    · rw [hhour]
      exact hready.ended
    · rw [hhour]
      exact d.dated _ _ hm
    · rw [hhour]
      exact hready.baked
    · obtain ⟨sha256, hsome, hget⟩ := hlists s hs
      have hname : s.path ∈ d.segmentFiles hour := hfiles ▸ List.mem_map_of_mem hs
      obtain ⟨e, he, hown, hpath, hget'⟩ := hready.onDisk s.path hname
      obtain ⟨hbytes, hsha⟩ := File.mk.inj (Option.some.inj (hget'.symm.trans hget))
      refine ⟨e, he, hhour ▸ hown, hpath, hbytes, .inl ?_⟩
      rw [hsome, hsha]
    · rw [hfiles]
      exact hready.listed e he (hhour ▸ hown)
    · rw [hhour] at hown
      obtain ⟨file, hfile, hsha⟩ := hready.parts name e he hown
      refine ⟨_, hfound name e he hown, ?_, .inl ?_⟩
      · rw [Disk.foundPart, hfile]
        rfl
      · rw [Disk.foundPart, hfile, ← hsha]
        rfl

/-- What a survey decides on a disk. -/
structure Disk.Decides (d : Disk) (o : PruneOptions) (decisions : List PruneDecision) : Prop where
  ready : ∀ decision ∈ decisions, decision.prunable = true →
    decision.hour ∈ d.hourDirs ∧ d.IsReady o decision.hour ∧
      d.Lists decision.hour decision.segments
  taken : ∀ hour ∈ d.hourDirs, d.segmentFiles hour ≠ [] → d.IsReady o hour →
    ∃ decision ∈ decisions, decision.prunable = true ∧ decision.hour = hour

/-- The decision on one hour, its files hashed. -/
theorem exists_decideHashed (d : Disk) (o : PruneOptions) (hour : HourKey) :
    ∃ decision, d.archive.decideHashed o hour = .ok decision ∧ decision.hour = hour ∧
      (decision.prunable = true ↔ d.IsReady o hour) ∧
      (decision.prunable = true → d.Lists hour decision.segments) := by
  obtain ⟨sized, hashed, hsized, hhashed⟩ := exists_hashedFacts d hour
  refine ⟨hashed.decide (d.manifest hour.date) o, ?_, ?_, ?_, fun hprunable => ?_⟩
  · have hmanifest : d.archive.readManifest hour.date = .ok (d.manifest hour.date) := rfl
    rw [Archive.decideHashed, hmanifest]
    dsimp only
    rw [hsized]
    dsimp only
    rw [hhashed]
    rfl
  · exact (hashedFacts_files hsized hhashed).1
  · rw [prunable_iff]
    constructor
    · rintro ⟨m, hm, hsafe⟩
      exact ⟨m, (safe_iff_ready hm hsized hhashed).mp hsafe⟩
    · rintro ⟨m, hready⟩
      exact ⟨m, hready.manifest, (safe_iff_ready hready.manifest hsized hhashed).mpr hready⟩
  · rw [decide_segments hprunable]
    exact lists_hashedFacts hsized hhashed

theorem exists_survey (d : Disk) (o : PruneOptions) :
    ∃ decisions, d.archive.survey o = .ok decisions ∧ d.Decides o decisions := by
  choose f hread hhour hready hlists using exists_decideHashed d o
  have hes : d.archive.surveyHashed o = .ok (d.archive.surveyedHours.map f) :=
    readEach_pure fun hour _ => hread hour
  obtain ⟨decisions, hsurvey, -, hsame⟩ := Archive.survey_of_hashed hes
  have hmem : ∀ decision, decision ∈ decisions ∧ decision.prunable = true ↔
      ∃ hour ∈ d.archive.surveyedHours, f hour = decision ∧ decision.prunable = true := by
    intro decision
    have hiff : decision ∈ decisions.filter (fun e => e.prunable) ↔
        decision ∈ (d.archive.surveyedHours.map f).filter fun e => e.prunable := by rw [hsame]
    rw [List.mem_filter, List.mem_filter, List.mem_map] at hiff
    rw [hiff]
    exact ⟨fun ⟨⟨hour, hin, heq⟩, hp⟩ => ⟨hour, hin, heq, hp⟩,
      fun ⟨hour, hin, heq, hp⟩ => ⟨⟨hour, hin, heq⟩, hp⟩⟩
  have hdirs : ∀ hour, hour ∈ d.archive.surveyedHours ↔
      hour ∈ d.hourDirs ∧ d.segmentFiles hour ≠ [] := by
    intro hour
    rw [Archive.surveyedHours, List.mem_filter, decide_eq_true_iff]
    exact and_congr_left fun _ => mem_sortOn
  refine ⟨decisions, hsurvey, fun decision hdecision hprunable => ?_, fun hour hdir hfiles hr => ?_⟩
  · obtain ⟨hour, hin, rfl, -⟩ := (hmem decision).mp ⟨hdecision, hprunable⟩
    rw [hhour hour]
    exact ⟨((hdirs hour).mp hin).1, (hready hour).mp hprunable, hlists hour hprunable⟩
  · have hprunable := (hready hour).mpr hr
    obtain ⟨hin, -⟩ := (hmem (f hour)).mpr ⟨hour, (hdirs hour).mpr ⟨hdir, hfiles⟩, rfl, hprunable⟩
    exact ⟨f hour, hin, hprunable, hhour hour⟩

end

/-! ## The record of a day -/

theorem sortedUnique_sortOn {α κ : Type*} [LinearOrder κ] {key : α → κ} {l : List α}
    (h : (l.map key).Nodup) : SortedUnique ((Sorted.sortOn key l).map key) := by
  rw [sortedUnique_iff]
  refine Sorted.strict_of_nodup (Sorted.sortOn_pairwise key l) ?_
  exact ((Sorted.sortOn_perm key l).map key).nodup_iff.mpr h

theorem nodup_of_ordered {α κ : Type*} [LinearOrder κ] {key : α → κ} {l : List α}
    (h : SortedUnique (l.map key)) : (l.map key).Nodup :=
  (sortedUnique_iff.mp h).imp fun hlt => ne_of_lt hlt

theorem nodup_recorded {old new : List PrunedSegment}
    (hold : SortedUnique (old.map PrunedSegment.path)) :
    ((new.foldl recordPruned (recordedIn old)).values.map PrunedSegment.path).Nodup := by
  have hkey : ∀ e ∈ (new.foldl recordPruned (recordedIn old)).entries, e.2.path = e.1 := by
    intro e he
    have hget := Dict.get?_eq_some_iff.mpr he
    rw [get?_recorded, Option.or_eq_some_iff] at hget
    rcases hget with hin | ⟨-, hfind⟩
    · exact ((get?_recordedIn hold).mp hin).2
    · exact of_decide_eq_true (List.find?_eq_some_iff_append.mp hfind).1
  have hpaths : (new.foldl recordPruned (recordedIn old)).values.map PrunedSegment.path =
      (new.foldl recordPruned (recordedIn old)).keys := by
    rw [Dict.values, List.map_map]
    exact List.map_congr_left hkey
  rw [hpaths]
  exact Dict.nodup _

/-- Segments that the manifest lists can be recorded as pruned. -/
theorem withPruned_succeeds {m : Manifest} {new : List PrunedSegment}
    (h : ∀ p ∈ new, ∃ s ∈ m.segments,
      s.path = p.path ∧ s.bytes = p.bytes ∧ s.sha256 = p.sha256) :
    ∃ r, withPruned m new = .ok r := by
  have hold := m.consistent
  have hhours := sortedUnique_sortOn (nodup_of_ordered m.bake.ordered)
  have hin : ∀ hour, hour ∈ (Sorted.sortOn HourBake.hour m.bake.hours).map HourBake.hour ↔
      hour ∈ m.hours := fun hour => ((Sorted.sortOn_perm _ _).map _).mem_iff
  rw [withPruned, assemble, BakeSection.build, dif_pos hhours]
  dsimp only
  rw [Manifest.build]
  split
  · next e he =>
      rw [ManifestData.postInit_ok_iff.mpr] at he
      · cases he
      · refine ⟨?_, fun s hs => ?_, fun name => ?_, fun name part hpart => ?_, ?_, fun p hp => ?_⟩
        · exact sortedUnique_sortOn (nodup_of_ordered hold.segmentsSorted)
        · obtain ⟨hplaced, hbaked⟩ := hold.segmentsPlaced s (mem_sortOn.mp hs)
          exact ⟨hplaced, (hin _).mpr hbaked⟩
        · exact sortedUnique_sortOn (nodup_of_ordered (hold.filesSorted name))
        · obtain ⟨hplaced, hbaked⟩ := hold.filesPlaced name part (mem_sortOn.mp hpart)
          exact ⟨hplaced, (hin _).mpr hbaked⟩
        · exact sortedUnique_sortOn (nodup_recorded hold.prunedSorted)
        · have hlisted : ∃ s ∈ m.segments,
              s.path = p.path ∧ s.bytes = p.bytes ∧ s.sha256 = p.sha256 := by
            rcases (mem_recorded hold.prunedSorted).mp (mem_sortOn.mp hp) with hp | ⟨-, hfind⟩
            · exact hold.prunedListed p hp
            · exact h p (List.mem_of_find?_eq_some hfind)
          obtain ⟨s, hs, hsame⟩ := hlisted
          exact ⟨s, mem_sortOn.mpr hs, hsame⟩
  · exact ⟨_, rfl⟩

end Tape.Bake
