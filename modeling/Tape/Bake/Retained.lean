import Tape.Bake.Archiving
import Tape.Bake.Directories

/-!
# What was pruned is baked, and stays baked

A segment is deleted by a run that surveyed the archive first. What the survey
was told need not have been true at one moment, but a segment of an hour past
the window does not change, and under the lock neither do the manifests and the
part files, so all of it was true when the decisions were made (`Looking`).
From there on the only changes are the run's own: a day's manifest records what
will be deleted and only then are the segments deleted, each of them once
(`Pruning`).

What a step may change afterwards is said once (`Disk.Keeps`): records of
pruned segments stay, and the part files of an hour with such a record stay
where they are, since a bake of it does not start and the bakes of other hours
work in other directories.
-/

namespace Tape.Bake

/-! ## What a survey read -/

section Read

variable {ε : Type*} {archive : Archive ε} {o : PruneOptions}

theorem mem_of_get?_byPath {α : Type*} {path : α → String} {l : List α} {k : String} {a : α}
    (h : (byPath path l).get? k = some a) : a ∈ l := by
  induction l using List.reverseRecOn with
  | nil => cases h
  | append_singleton l b ih =>
      have hlast : byPath path (l ++ [b]) = (byPath path l).set (path b) b := List.foldl_append
      rw [hlast, Dict.get?_set] at h
      rw [List.mem_append, List.mem_singleton]
      split at h
      · exact .inr (Option.some.inj h).symm
      · exact .inl (ih h)

theorem map_of_readEach {α β γ : Type*} {read : α → Except ε β} {f : β → γ} {g : α → γ}
    (hread : ∀ a b, read a = .ok b → f b = g a) {l : List α} {bs : List β}
    (h : readEach read l = .ok bs) : bs.map f = l.map g := by
  have hrel := readEach_ok_iff.mp h
  induction hrel with
  | nil => rfl
  | cons hab hrest ih =>
      rw [List.map_cons, List.map_cons, hread _ _ hab, ih (readEach_ok_iff.mpr hrest)]

/-- What was read of an hour before it was let go. -/
structure Archive.LetGo (archive : Archive ε) (o : PruneOptions) (decision : PruneDecision)
    (m : Manifest) : Prop where
  manifest : archive.readManifest decision.hour.date = .ok (some m)
  ended : PastWindow o.retentionHours decision.hour o.nowWallNs
  baked : ∃ entry, m.hourBake decision.hour.hour = some entry ∧
    entry.bakeVersion = o.bakeVersion ∧ entry.accounting.failures = 0
  files : decision.segments.map SegmentOnDisk.path = archive.segmentFiles decision.hour
  segments : ∀ s ∈ decision.segments, archive.segmentSize s.path = .ok s.bytes ∧
    ∃ sha256, s.sha256 = some sha256 ∧ archive.segmentSha256 s.path = .ok sha256 ∧
      ∃ e ∈ m.hourSegments decision.hour.hour,
        e.path = s.path ∧ e.bytes = s.bytes ∧ e.sha256 = sha256
  parts : ∀ part ∈ m.hourParts decision.hour.hour,
    archive.partSha256 part.path = .ok part.sha256

theorem hashFits_strict {found : Option String} {expected : String}
    (h : HashFits true found expected) : found = some expected := by
  rcases h with h | ⟨hstrict, -⟩
  · exact h
  · cases hstrict

theorem decide_segments {facts : HourFacts} {manifest : Option Manifest}
    (h : (facts.decide manifest o).prunable = true) :
    (facts.decide manifest o).segments = facts.segments := by
  rcases decide_cases facts manifest o with ⟨-, heq⟩ | ⟨-, -, heq⟩ | ⟨-, reasons, -, -, heq⟩
  · exact congrArg PruneDecision.segments heq
  · rw [heq] at h
    cases h
  · rw [heq] at h
    cases h

theorem hashedSegment_ok {s s' : SegmentOnDisk} (h : archive.hashedSegment s = .ok s') :
    s'.path = s.path ∧ s'.bytes = s.bytes ∧
      ∃ sha256, s'.sha256 = some sha256 ∧ archive.segmentSha256 s.path = .ok sha256 := by
  obtain ⟨sha256, hsha, rfl⟩ := except_map_ok h
  exact ⟨rfl, rfl, sha256, rfl, hsha⟩

theorem sizedSegment_ok {name : String} {s : SegmentOnDisk}
    (h : archive.sizedSegment name = .ok s) :
    s.path = name ∧ archive.segmentSize name = .ok s.bytes := by
  obtain ⟨bytes, hbytes, rfl⟩ := except_map_ok h
  exact ⟨rfl, hbytes⟩

/-- The files of the second pass are those of the hour's directory. -/
theorem hashedFacts_files {manifest : Option Manifest} {hour : HourKey} {sized hashed : HourFacts}
    (hsized : archive.sizedFacts manifest hour = .ok sized)
    (hhashed : archive.hashedFacts manifest sized = .ok hashed) :
    hashed.hour = hour ∧ hashed.segments.map SegmentOnDisk.path = archive.segmentFiles hour ∧
      (∀ s ∈ hashed.segments, archive.segmentSize s.path = .ok s.bytes ∧
        ∃ sha256, s.sha256 = some sha256 ∧ archive.segmentSha256 s.path = .ok sha256) ∧
      archive.partsOnDisk manifest hour true = .ok hashed.parts := by
  have hhour := (Archive.sizedFacts_ok hsized).1
  rw [Archive.sizedFacts] at hsized
  rw [Archive.hashedFacts, hhour] at hhashed
  split at hsized
  · cases hsized
  · next sizes hsizes =>
      obtain ⟨sizedParts, -, rfl⟩ := except_map_ok hsized
      split at hhashed
      · cases hhashed
      · next hashes hhashes =>
          obtain ⟨parts, hparts, rfl⟩ := except_map_ok hhashed
          refine ⟨rfl, ?_, fun s hs => ?_, hparts⟩
          · rw [map_of_readEach (fun _ _ hread => (hashedSegment_ok hread).1) hhashes,
              map_of_readEach (fun _ _ hread => (sizedSegment_ok hread).1) hsizes, List.map_id']
          · obtain ⟨before, hbefore, hread⟩ := exists_of_forall₂ (readEach_ok_iff.mp hhashes) hs
            obtain ⟨name, -, hsize⟩ := exists_of_forall₂ (readEach_ok_iff.mp hsizes) hbefore
            obtain ⟨hpath, hbytes, sha256, hsome, hsha⟩ := hashedSegment_ok hread
            obtain ⟨rfl, hsize⟩ := sizedSegment_ok hsize
            rw [hpath, hbytes]
            exact ⟨hsize, sha256, hsome, hsha⟩

/-- A part that was found and hashed. -/
theorem partOnDisk_ok {part : PartEntry} {found : PartOnDisk} {sha256 : String}
    (h : archive.partOnDisk true part = .ok found) (hsha : found.sha256 = some sha256) :
    found.path = part.path ∧ archive.partSha256 found.path = .ok sha256 := by
  rw [Archive.partOnDisk] at h
  split at h
  · obtain ⟨read, hread, rfl⟩ := except_map_ok h
    obtain rfl := Option.some.inj hsha
    exact ⟨rfl, hread⟩
  · obtain rfl := Except.ok.inj h
    cases hsha

theorem letGo_of_decideHashed {hour : HourKey} {decision : PruneDecision}
    (h : archive.decideHashed o hour = .ok decision) (hprunable : decision.prunable = true) :
    decision.hour = hour ∧ ∃ m, archive.LetGo o decision m := by
  rw [Archive.decideHashed] at h
  split at h
  · cases h
  · next manifest hmanifest =>
      split at h
      · cases h
      · next sized hsized =>
          obtain ⟨hashed, hhashed, rfl⟩ := except_map_ok h
          obtain ⟨m, rfl, hsafe⟩ := prunable_iff.mp hprunable
          obtain ⟨rfl, hfiles, hread, hparts⟩ := hashedFacts_files hsized hhashed
          have hsegments := decide_segments hprunable
          refine ⟨rfl, m, ?_⟩
          exact
            { manifest := hmanifest
              ended := hsafe.ended
              baked := by
                obtain ⟨entry, hentry, hhour, hbaked⟩ := hsafe.baked
                exact ⟨entry, hourBake_eq_some_iff.mpr ⟨hentry, hhour⟩, hbaked⟩
              files := (congrArg _ hsegments).trans hfiles
              segments := by
                rw [hsegments]
                intro s hs
                obtain ⟨hsize, sha256, hsome, hsha⟩ := hread s hs
                obtain ⟨e, he, hhour, hpath, hbytes, hfits⟩ := hsafe.onDisk s hs
                have hsame := (hashFits_strict hfits).symm.trans hsome
                exact ⟨hsize, sha256, hsome, hsha, e, mem_hourSegments.mpr ⟨he, hhour⟩, hpath,
                  hbytes, Option.some.inj hsame⟩
              parts := by
                intro part hpart
                obtain ⟨name, hmem, hhour⟩ := mem_hourParts.mp hpart
                obtain ⟨found, hfound, -, hfits⟩ := hsafe.parts name part hmem hhour
                rw [Archive.partsOnDisk, if_neg (not_not.mpr hsafe.day)] at hparts
                obtain ⟨source, -, hsource⟩ :=
                  exists_of_forall₂ (readEach_ok_iff.mp hparts) (mem_of_get?_byPath hfound)
                rw [← path_of_get?_byPath hfound]
                exact (partOnDisk_ok hsource (hashFits_strict hfits)).2 }

/-- Every prunable decision of a survey was read; and no hour is decided twice. -/
theorem survey_letGo {decisions : List PruneDecision} (h : archive.survey o = .ok decisions) :
    (∀ decision ∈ decisions, decision.prunable = true → ∃ m, archive.LetGo o decision m) ∧
      decisions.map PruneDecision.hour = archive.surveyedHours := by
  rw [Archive.survey_eq] at h
  have hfiles : ∀ hour ∈ archive.surveyedHours, archive.segmentFiles hour ≠ [] := fun hour hin =>
    of_decide_eq_true (List.mem_filter.mp hin).2
  have hread := (List.forall₂_and_left _ _).mpr ⟨hfiles, readEach_ok_iff.mp h⟩
  constructor
  · intro decision hdecision hprunable
    obtain ⟨hour, -, hhour, hdecided⟩ := exists_of_forall₂ hread hdecision
    obtain ⟨-, hhashed, -⟩ := Archive.decideRead_agrees hhour hdecided
    exact (letGo_of_decideHashed (hhashed hprunable) hprunable).2
  · clear h
    generalize archive.surveyedHours = hours at hread
    induction hread with
    | nil => rfl
    | cons hfirst _ ih =>
        have hhour := (Archive.decideRead_agrees hfirst.1 hfirst.2).1
        rw [List.map_cons, hhour, ih]

end Read

/-! ## What a deletion leaves behind -/

/-- What a decision found of a segment, and of the bake of its hour. -/
structure Verified (decided : Disk) (hour : HourKey) (name : String) (file : File) : Prop where
  ofHour : isSegmentOf hour name = true
  baked : ∃ m, decided.manifest hour.date = some m ∧
    (∃ entry, m.hourBake hour.hour = some entry ∧
      entry.bakeVersion = bakeVersion ∧ entry.accounting.failures = 0) ∧
    (∃ s ∈ m.hourSegments hour.hour,
      s.path = name ∧ s.bytes = file.bytes ∧ s.sha256 = file.sha256) ∧
    ∀ part ∈ m.hourParts hour.hour,
      ∃ f, decided.parts.get? part.path = some f ∧ f.sha256 = part.sha256

/-- A manifest records the segment as pruned. -/
def ListsPruned (manifest : Option Manifest) (name : String) (file : File) : Prop :=
  ∃ m, manifest = some m ∧
    ∃ p ∈ m.pruned, p.path = name ∧ p.bytes = file.bytes ∧ p.sha256 = file.sha256

/-- What is promised of a segment that was deleted. -/
def Disk.Retains (d : Disk) (u : Unlinked) : Prop :=
  ∃ hour, Verified u.decided hour u.name u.file ∧
    ListsPruned (d.manifest hour.date) u.name u.file ∧
    ∀ path, isPartOf hour path → d.parts.get? path = u.decided.parts.get? path

/-- Two manifests say the same of an hour's bake. -/
structure Manifest.SameHour (m m' : Manifest) (hour : Int) : Prop where
  bake : m'.hourBake hour = m.hourBake hour
  segments : m'.hourSegments hour = m.hourSegments hour
  parts : m'.hourParts hour = m.hourParts hour

/-- A manifest undoes nothing that an earlier one of its day says of a pruned
hour. -/
structure Manifest.Follows (m m' : Manifest) : Prop where
  pruned : ∀ p ∈ m.pruned, p ∈ m'.pruned
  frozen : ∀ hour, hasPruned m hour = true → m.SameHour m' hour.hour

/-- What no step undoes. -/
structure Disk.Keeps (d d' : Disk) : Prop where
  manifest : ∀ date m, d.manifest date = some m →
    ∃ m', d'.manifest date = some m' ∧ m.Follows m'
  parts : ∀ (hour : HourKey) m, d.manifest hour.date = some m → hasPruned m hour = true →
    ∀ path, isPartOf hour path → d'.parts.get? path = d.parts.get? path

theorem Manifest.follows_refl (m : Manifest) : m.Follows m :=
  ⟨fun _ hp => hp, fun _ _ => ⟨rfl, rfl, rfl⟩⟩

theorem Disk.keeps_refl (d : Disk) : d.Keeps d :=
  ⟨fun _ m h => ⟨m, h, m.follows_refl⟩, fun _ _ _ _ _ _ => rfl⟩

theorem Disk.keeps_of_same {d d' : Disk} (hmanifest : d'.manifest = d.manifest)
    (hparts : d'.parts = d.parts) : d.Keeps d' := by
  refine ⟨fun date m h => ⟨m, ?_, m.follows_refl⟩, fun _ _ _ _ _ _ => by rw [hparts]⟩
  rw [hmanifest]
  exact h

/-- The name of a segment that was verified says which hour it is of. -/
theorem Verified.placed {decided : Disk} {hour : HourKey} {name : String} {file : File}
    (h : Verified decided hour name file) : segmentHour name = .ok (hour.date, hour.hour) := by
  obtain ⟨m, hm, -, ⟨s, hs, rfl, -⟩, -⟩ := h.baked
  obtain ⟨hs, hhour⟩ := mem_hourSegments.mp hs
  obtain ⟨⟨placed, hplaced, hsame⟩, -⟩ := m.consistent.segmentsPlaced s hs
  obtain rfl : placed = hour.hour := by
    rw [hhour] at hsame
    exact_mod_cast hsame
  rw [hplaced, decided.dated _ _ hm]

theorem hasPruned_of_recorded {decided : Disk} {hour : HourKey} {name : String} {file : File}
    (h : Verified decided hour name file) {m : Manifest}
    (hrecorded : ListsPruned (some m) name file) : hasPruned m hour = true := by
  obtain ⟨m', hm, p, hp, rfl, -⟩ := hrecorded
  obtain rfl := Option.some.inj hm
  refine List.any_eq_true.mpr ⟨p, hp, ?_⟩
  rw [h.placed]
  exact decide_eq_true ⟨rfl, rfl⟩

theorem Disk.Retains.mono {d d' : Disk} (hkeeps : d.Keeps d') {u : Unlinked}
    (h : d.Retains u) : d'.Retains u := by
  obtain ⟨hour, hverified, ⟨m, hm, p, hp, hrecord⟩, hparts⟩ := h
  obtain ⟨m', hm', hfollows⟩ := hkeeps.manifest _ m hm
  have hhas := hasPruned_of_recorded hverified ⟨m, rfl, p, hp, hrecord⟩
  refine ⟨hour, hverified, ⟨m', hm', p, hfollows.pruned p hp, hrecord⟩, fun path hpath => ?_⟩
  rw [hkeeps.parts hour m hm hhas path hpath, hparts path hpath]

/-! ## A bake keeps it -/

/-- A swap works in the directories of its own hour. -/
theorem get?_perform_swap {r : HourReading} {op : FileOp} (hop : op ∈ swaps r) (d : Disk)
    {path : String} (hpath : ∀ name, isUnder (partitionDir name r.hour) path = false) :
    (d.perform op).parts.get? path = d.parts.get? path := by
  obtain ⟨name, -, hop⟩ := List.mem_flatMap.mp hop
  rw [replaceDir] at hop
  have haside : ∀ directory, directory = partitionDir name r.hour →
      (d.perform (.setAside directory)).parts.get? path = d.parts.get? path := by
    rintro directory rfl
    rw [get?_setAside, without, hpath name, if_neg Bool.false_ne_true]
  have hmoved : (d.perform (.moveIn (r.files name))).parts.get? path = d.parts.get? path := by
    show (Disk.put d.parts (r.files name)).get? path = _
    rw [get?_put]
    cases hput : (Disk.put ∅ (r.files name)).get? path with
    | none => rfl
    | some file =>
        have hin := isUnder_files r name _ (mem_of_get?_put hput)
        rw [hpath name] at hin
        cases hin
  simp only [List.mem_append, List.mem_cons, List.not_mem_nil, or_false] at hop
  rcases hop with ((rfl | rfl) | hop) | rfl
  · rfl
  · exact haside _ rfl
  · split at hop
    · cases hop
    · rw [List.mem_singleton.mp hop]
      exact hmoved
  · rfl

theorem keeps_swap {r : HourReading} {op : FileOp} (hop : op ∈ swaps r) {d : Disk}
    (hmay : mayBake (d.manifest r.hour.date) r.hour = true) : d.Keeps (d.perform op) := by
  have hsame : Disk.SameRecords d (d.performAll [op]) :=
    sameRecords_performAll d fun op' hop' => isSwap_of_swaps (List.mem_singleton.mp hop' ▸ hop)
  refine ⟨fun date m h => ⟨m, ?_, m.follows_refl⟩, fun hour m hm hpruned path hpath => ?_⟩
  · exact (congrFun hsame.manifest date).trans h
  · refine get?_perform_swap hop d fun name => Bool.eq_false_iff.mpr fun hunder => ?_
    obtain ⟨other, hother⟩ := hpath
    obtain ⟨-, rfl⟩ := partitionDir_apart hunder hother
    rw [hm] at hmay
    simp only [mayBake, Option.all_some, hpruned] at hmay
    simp at hmay

theorem sameHour_of_members {m m' : Manifest} {hour : Int}
    (hhours : ∀ entry, entry.hour = hour → (entry ∈ m'.bake.hours ↔ entry ∈ m.bake.hours))
    (hsegments : ∀ s, s.hour = hour → (s ∈ m'.segments ↔ s ∈ m.segments))
    (hfiles : ∀ name part, part.hour = hour →
      (part ∈ (m'.tables name).files ↔ part ∈ (m.tables name).files)) :
    m.SameHour m' hour where
  bake := by
    refine Option.ext fun entry => ?_
    rw [hourBake_eq_some_iff, hourBake_eq_some_iff]
    exact and_congr_left (hhours entry)
  segments := by
    refine eq_of_members (m'.consistent.segmentsSorted.filter _)
      (m.consistent.segmentsSorted.filter _) fun s => ?_
    rw [mem_hourSegments, mem_hourSegments]
    exact and_congr_left (hsegments s)
  parts := by
    have hname : ∀ name, (m'.tables name).files.filter (fun part => part.hour = hour) =
        (m.tables name).files.filter fun part => part.hour = hour := by
      intro name
      refine eq_of_members ((m'.consistent.filesSorted name).filter _)
        ((m.consistent.filesSorted name).filter _) fun part => ?_
      rw [List.mem_filter, List.mem_filter, decide_eq_true_eq]
      exact and_congr_left (hfiles name part)
    rw [Manifest.hourParts, Manifest.hourParts]
    simp only [hname]

/-- The hours of the day that are not replaced. -/
theorem sameHour_withHour {m r : Manifest} {new : BakedHour} {version : String}
    {offset : Option Int} (h : withHour m new version offset = .ok r) {hour : Int}
    (hne : hour ≠ new.bake.hour) : m.SameHour r hour := by
  have hmembers := replaced_of_ok h
  refine sameHour_of_members (fun entry hentry => ?_) (fun s hs => ?_) fun name part hpart => ?_
  · rw [hmembers.hours, and_iff_left (hentry ▸ hne)]
    refine or_iff_left ?_
    rintro rfl
    exact hne hentry.symm
  · rw [hmembers.segments, and_iff_left (hs ▸ hne)]
    exact or_iff_left fun hnew => hne (hs.symm.trans (hmembers.segmentsOwn s hnew))
  · rw [hmembers.files, and_iff_left (hpart ▸ hne)]
    exact or_iff_left fun hnew => hne (hpart.symm.trans (hmembers.filesOwn name part hnew))

/-- Whatever was pruned, it was not of the hour that is replaced. -/
theorem follows_withHour {m r : Manifest} {new : BakedHour} {version : String}
    {offset : Option Int} (h : withHour m new version offset = .ok r) : m.Follows r := by
  obtain ⟨-, -, hnone, -⟩ := withHour_ok h
  refine ⟨fun p hp => ((replaced_of_ok h).pruned p).mpr hp, fun hour hpruned => ?_⟩
  refine sameHour_withHour h ?_
  obtain ⟨p, hp, hplace⟩ := List.any_eq_true.mp hpruned
  cases hname : segmentHour p.path with
  | error e =>
      rw [hname] at hplace
      cases hplace
  | ok place =>
      rw [hname] at hplace
      obtain ⟨-, hsame⟩ := of_decide_eq_true hplace
      rw [← hsame]
      exact anyPrunedIn_ok_false hnone p hp place.1 place.2 hname

theorem follows_withPruned {m r : Manifest} {new : List PrunedSegment}
    (h : withPruned m new = .ok r) : m.Follows r := by
  have hmembers := recorded_of_ok h
  exact ⟨fun p hp => (hmembers.pruned p).mpr (.inl hp), fun hour _ =>
    sameHour_of_members (fun entry _ => hmembers.hours entry) (fun s _ => hmembers.segments s)
      fun name part _ => hmembers.files name part⟩

/-- The record of a bake is a manifest of its day that keeps what was pruned. -/
theorem recorded_ok {d : Disk} {r : HourReading} {softwareVersion : String}
    {clockOffsetMs : Option Int} {m : Manifest}
    (h : d.recorded r softwareVersion clockOffsetMs = .ok m) :
    m.date = r.hour.date ∧
      ∀ before, d.manifest r.hour.date = some before → before.Follows m := by
  rw [Disk.recorded] at h
  cases hbefore : d.manifest r.hour.date with
  | some before =>
      rw [hbefore] at h
      obtain ⟨-, -, -, hmade⟩ := withHour_ok h
      refine ⟨hmade.date.trans (d.dated _ _ hbefore), fun m' hm' => ?_⟩
      obtain rfl := Option.some.inj hm'
      exact follows_withHour h
  | none =>
      rw [hbefore] at h
      dsimp only at h
      split at h
      · cases h
      · next fresh hfresh =>
          obtain ⟨-, -, -, hmade⟩ := withHour_ok h
          refine ⟨hmade.date.trans (assembled_of_ok hfresh).date, fun m' hm' => ?_⟩
          cases hm'

theorem keeps_writeManifest {d : Disk} {m : Manifest}
    (hfollows : ∀ before, d.manifest m.date = some before → before.Follows m) :
    d.Keeps (d.writeManifest m) := by
  refine ⟨fun date before h => ?_, fun _ _ _ _ _ _ => rfl⟩
  by_cases hdate : date = m.date
  · subst hdate
    exact ⟨m, Function.update_self _ _ _, hfollows before h⟩
  · exact ⟨before, (Function.update_of_ne hdate _ _).trans h, before.follows_refl⟩

/-! ## The phases of a run -/

variable {retentionHours : Int} {s s' : ArchiveState}

theorem PastWindow.mono {hour : HourKey} {ns ns' : Int} (h : PastWindow retentionHours hour ns)
    (hle : ns ≤ ns') : PastWindow retentionHours hour ns' :=
  lt_of_lt_of_le h hle

/-- What the survey that is going on has seen is still so. -/
structure Looking (retentionHours : Int) (s : ArchiveState) (o : PruneOptions)
    (seen : List Disk) : Prop where
  retention : o.retentionHours = retentionHours
  version : o.bakeVersion = bakeVersion
  now : o.nowWallNs ≤ s.latestNs
  same : ∀ d ∈ seen, d.parts = s.disk.parts ∧ d.manifest = s.disk.manifest
  files : ∀ d ∈ seen, ∀ hour name file, isSegmentOf hour name = true →
    PastWindow retentionHours hour o.nowWallNs → d.segments.get? name = some file →
      s.disk.segments.get? name = some file

/-- A segment that will be deleted is the one that was verified. -/
structure Awaits (retentionHours : Int) (s : ArchiveState) (decided : Disk) (hour : HourKey)
    (name : String) (file : File) : Prop where
  verified : Verified decided hour name file
  there : s.disk.segments.get? name = some file
  past : PastWindow retentionHours hour s.latestNs

/-- The segment an operation deletes. -/
def FileOp.target : FileOp → Option String
  | .unlink name => some name
  | _ => none

/-- The segments of the days that are still to come. -/
def awaitedNames (days : List (Date × List PruneDecision)) : List String :=
  days.flatMap fun day => (day.2.flatMap PruneDecision.segments).map SegmentOnDisk.path

/-- A day that is still to come is as it was decided. -/
structure DayAwaits (retentionHours : Int) (s : ArchiveState) (decided : Disk)
    (day : Date × List PruneDecision) : Prop where
  manifest : s.disk.manifest day.1 = decided.manifest day.1
  dated : ∀ decision ∈ day.2, decision.hour.date = day.1
  segments : ∀ decision ∈ day.2, ∀ segment ∈ decision.segments,
    ∃ sha256, segment.sha256 = some sha256 ∧
      Awaits retentionHours s decided decision.hour segment.path ⟨segment.bytes, sha256⟩

/-- What is left of a prune: recorded deletions, and days as they were decided. -/
structure Pruning (retentionHours : Int) (s : ArchiveState) (decided : Disk)
    (ops : List FileOp) (days : List (Date × List PruneDecision)) : Prop where
  parts : s.disk.parts = decided.parts
  noSwap : ∀ op ∈ ops, op.isSwap = false
  recorded : ∀ name, FileOp.unlink name ∈ ops → ∃ hour file,
    Awaits retentionHours s decided hour name file ∧
      ListsPruned (s.disk.manifest hour.date) name file
  awaited : ∀ day ∈ days, DayAwaits retentionHours s decided day
  dates : (days.map Prod.fst).Nodup
  once : (ops.filterMap FileOp.target ++ awaitedNames days).Nodup

/-- What holds between the steps of whatever run is going on. -/
def ArchivePhase.Fits (retentionHours : Int) (s : ArchiveState) : ArchivePhase → Prop
  | .idle => True
  | .baking r _ _ ops =>
      mayBake (s.disk.manifest r.hour.date) r.hour = true ∧ ∀ op ∈ ops, op ∈ swaps r
  | .surveying o seen => Looking retentionHours s o seen
  | .pruning decided ops days => Pruning retentionHours s decided ops days

/-- The run that is going on fits the disk, and what was deleted is retained. -/
structure ArchiveState.Sound (retentionHours : Int) (s : ArchiveState) : Prop where
  clock : s.clockNs ≤ s.latestNs
  phase : s.phase.Fits retentionHours s
  retained : ∀ u ∈ s.unlinked, s.disk.Retains u

/-! ## While segments are written and time passes -/

/-- Segments came, and old ones stayed. -/
structure Outlasts (retentionHours : Int) (s s' : ArchiveState) : Prop where
  parts : s'.disk.parts = s.disk.parts
  manifest : s'.disk.manifest = s.disk.manifest
  latest : s.latestNs ≤ s'.latestNs
  files : ∀ hour name file, isSegmentOf hour name = true →
    PastWindow retentionHours hour s.latestNs → s.disk.segments.get? name = some file →
      s'.disk.segments.get? name = some file

namespace Outlasts

variable (h : Outlasts retentionHours s s')

include h

theorem looking {o : PruneOptions} {seen : List Disk} (hlooking : Looking retentionHours s o seen) :
    Looking retentionHours s' o seen where
  retention := hlooking.retention
  version := hlooking.version
  now := hlooking.now.trans h.latest
  same d hd := by
    rw [h.parts, h.manifest]
    exact hlooking.same d hd
  files d hd hour name file hname hpast hfile :=
    h.files hour name file hname (hpast.mono hlooking.now)
      (hlooking.files d hd hour name file hname hpast hfile)

theorem awaits {decided : Disk} {hour : HourKey} {name : String} {file : File}
    (hawaits : Awaits retentionHours s decided hour name file) :
    Awaits retentionHours s' decided hour name file where
  verified := hawaits.verified
  there := h.files hour name file hawaits.verified.ofHour hawaits.past hawaits.there
  past := hawaits.past.mono h.latest

theorem pruning {decided : Disk} {ops : List FileOp} {days : List (Date × List PruneDecision)}
    (hpruning : Pruning retentionHours s decided ops days) :
    Pruning retentionHours s' decided ops days where
  parts := h.parts.trans hpruning.parts
  noSwap := hpruning.noSwap
  recorded name hname := by
    obtain ⟨hour, file, hawaits, hlisted⟩ := hpruning.recorded name hname
    rw [← h.manifest] at hlisted
    exact ⟨hour, file, h.awaits hawaits, hlisted⟩
  awaited day hday := by
    have hdays := hpruning.awaited day hday
    refine ⟨?_, hdays.dated, fun decision hdecision segment hsegment => ?_⟩
    · rw [h.manifest]
      exact hdays.manifest
    · obtain ⟨sha256, hsha, hawaits⟩ := hdays.segments decision hdecision segment hsegment
      exact ⟨sha256, hsha, h.awaits hawaits⟩
  dates := hpruning.dates
  once := hpruning.once

theorem fits {phase : ArchivePhase} (hfits : phase.Fits retentionHours s) :
    phase.Fits retentionHours s' := by
  cases phase with
  | idle => trivial
  | baking r softwareVersion clockOffsetMs ops =>
      obtain ⟨hmay, hops⟩ := hfits
      rw [← h.manifest] at hmay
      exact ⟨hmay, hops⟩
  | surveying o seen => exact h.looking hfits
  | pruning decided ops days => exact h.pruning hfits

theorem sound (hs : s.Sound retentionHours) (hclock : s'.clockNs ≤ s'.latestNs)
    (hphase : s'.phase = s.phase) (hunlinked : s'.unlinked = s.unlinked) :
    s'.Sound retentionHours where
  clock := hclock
  phase := hphase ▸ h.fits hs.phase
  retained u hu := by
    rw [hunlinked] at hu
    exact (hs.retained u hu).mono (Disk.keeps_of_same h.manifest h.parts)

end Outlasts

/-- What is left of a prune depends on the disk and the clock only. -/
theorem Pruning.of_same {decided : Disk} {ops : List FileOp}
    {days : List (Date × List PruneDecision)}
    (h : Pruning retentionHours s decided ops days) (hdisk : s'.disk = s.disk)
    (hlatest : s'.latestNs = s.latestNs) : Pruning retentionHours s' decided ops days := by
  have hlasts : Outlasts retentionHours s s' := by
    refine ⟨by rw [hdisk], by rw [hdisk], by rw [hlatest], fun _ _ _ _ _ hfile => ?_⟩
    rw [hdisk]
    exact hfile
  exact hlasts.pruning h

/-- A change that a survey may see. -/
theorem sound_observe {disk : Disk} (h : Outlasts retentionHours s (s.observe disk))
    (hs : s.Sound retentionHours) : (s.observe disk).Sound retentionHours := by
  cases hphase : s.phase with
  | surveying o seen =>
      have hobserve : (s.observe disk).phase = .surveying o (seen ++ [disk]) := by
        rw [ArchiveState.observe, hphase]
      have hlooking : Looking retentionHours s o seen := by
        have hfits := hs.phase
        rw [hphase] at hfits
        exact hfits
      have hthen := h.looking hlooking
      refine ⟨hs.clock, ?_, fun u hu =>
        (hs.retained u hu).mono (Disk.keeps_of_same h.manifest h.parts)⟩
      rw [hobserve]
      refine ⟨hthen.retention, hthen.version, hthen.now, fun d hd => ?_, fun d hd => ?_⟩
      · rcases List.mem_append.mp hd with hd | hd
        · exact hthen.same d hd
        · rw [List.mem_singleton.mp hd]
          exact ⟨rfl, rfl⟩
      · rcases List.mem_append.mp hd with hd | hd
        · exact hthen.files d hd
        · rw [List.mem_singleton.mp hd]
          exact fun _ _ _ _ _ hfile => hfile
  | _ =>
      refine h.sound hs hs.clock ?_ rfl
      rw [ArchiveState.observe, hphase]

/-! ## The decisions -/

theorem stat_ok {files : Dict String File} {path : String} {α : Type*} {f : File → α} {a : α}
    (h : (Disk.stat files path).map f = .ok a) :
    ∃ file, files.get? path = some file ∧ f file = a := by
  obtain ⟨file, hfile, rfl⟩ := except_map_ok h
  rw [Disk.stat] at hfile
  split at hfile
  · cases hfile
  · next other hother =>
      obtain rfl := Except.ok.inj hfile
      exact ⟨other, hother, rfl⟩

/-- Whatever was read of an hour, at whatever moments, is so when its decision
is made. -/
theorem Looking.awaits {o : PruneOptions} {seen : List Disk} {answers : Archive DiskError}
    {decision : PruneDecision} {m : Manifest} (h : Looking retentionHours s o seen)
    (hseen : answers.Seen seen) (hletGo : answers.LetGo o decision m) :
    ∀ segment ∈ decision.segments, ∃ sha256, segment.sha256 = some sha256 ∧
      Awaits retentionHours s s.disk decision.hour segment.path ⟨segment.bytes, sha256⟩ := by
  have hpast : PastWindow retentionHours decision.hour o.nowWallNs := h.retention ▸ hletGo.ended
  have hmanifest : s.disk.manifest decision.hour.date = some m := by
    obtain ⟨d, hd, hread⟩ := hseen.readManifest decision.hour.date
    rw [hletGo.manifest, ← h.same d hd |>.2] at *
    exact (Except.ok.inj hread).symm
  have hparts : ∀ part ∈ m.hourParts decision.hour.hour,
      ∃ f, s.disk.parts.get? part.path = some f ∧ f.sha256 = part.sha256 := by
    intro part hpart
    obtain ⟨d, hd, hread⟩ := hseen.partSha256 part.path
    rw [← (h.same d hd).1]
    exact stat_ok (hread.symm.trans (hletGo.parts part hpart))
  intro segment hsegment
  obtain ⟨hsize, sha256, hsome, hsha, e, he, hpath, hbytes, hsame⟩ :=
    hletGo.segments segment hsegment
  have hlisted : segment.path ∈ answers.segmentFiles decision.hour :=
    hletGo.files ▸ List.mem_map_of_mem hsegment
  obtain ⟨d, -, hname⟩ := hseen.segmentFiles decision.hour segment.path hlisted
  have hofHour : isSegmentOf decision.hour segment.path = true := (Disk.mem_segmentFiles.mp hname).2
  -- the size and the hash may have been read at different moments, of one file
  obtain ⟨dsize, hdsize, hreadSize⟩ := hseen.segmentSize segment.path
  obtain ⟨dsha, hdsha, hreadSha⟩ := hseen.segmentSha256 segment.path
  obtain ⟨file, hfile, hfileBytes⟩ := stat_ok (hreadSize.symm.trans hsize)
  obtain ⟨file', hfile', hfileSha⟩ := stat_ok (hreadSha.symm.trans hsha)
  have hnow := h.files dsize hdsize _ _ _ hofHour hpast hfile
  have hnow' := h.files dsha hdsha _ _ _ hofHour hpast hfile'
  obtain rfl : file' = file := Option.some.inj (hnow'.symm.trans hnow)
  obtain rfl : (⟨segment.bytes, sha256⟩ : File) = file' := by rw [← hfileBytes, ← hfileSha]
  refine ⟨sha256, hsome, ?_, hnow, hpast.mono h.now⟩
  refine ⟨hofHour, m, hmanifest, ?_, ⟨e, he, hpath, hbytes, hsame⟩, hparts⟩
  rw [← h.version]
  exact hletGo.baked

theorem isUnder_of_isSegmentOf {hour : HourKey} {name : String}
    (h : isSegmentOf hour name = true) : isUnder (hourDir hour) name = true := by
  rw [isSegmentOf] at h
  exact (of_decide_eq_true h).1

theorem mem_pruneDays {decisions : List PruneDecision} {day : Date × List PruneDecision}
    (h : day ∈ pruneDays decisions) : ∀ decision ∈ day.2,
      decision ∈ decisions ∧ decision.prunable = true ∧ decision.hour.date = day.1 := by
  obtain ⟨date, -, rfl⟩ := List.mem_map.mp h
  intro decision hdecision
  obtain ⟨hchosen, hdate⟩ := List.mem_filter.mp hdecision
  obtain ⟨hmem, hprunable⟩ := List.mem_filter.mp hchosen
  exact ⟨hmem, (of_decide_eq_true hprunable).1, of_decide_eq_true hdate⟩

theorem nodup_pruneDays (decisions : List PruneDecision) :
    ((pruneDays decisions).map Prod.fst).Nodup := by
  rw [pruneDays, List.map_map]
  show (List.map id _).Nodup
  rw [List.map_id]
  exact (Sorted.sortOn_perm _ _).nodup_iff.mpr (List.nodup_dedup _)

/-- Each segment is awaited once. -/
theorem nodup_awaitedNames {decisions : List PruneDecision}
    (hhours : (decisions.map PruneDecision.hour).Nodup)
    (hfiles : ∀ decision ∈ decisions, decision.prunable = true →
      (decision.segments.map SegmentOnDisk.path).Nodup)
    (hofHour : ∀ decision ∈ decisions, decision.prunable = true →
      ∀ segment ∈ decision.segments, isSegmentOf decision.hour segment.path = true) :
    (awaitedNames (pruneDays decisions)).Nodup := by
  have hapart : ∀ {hour hour' : HourKey} {name : String}, isSegmentOf hour name = true →
      isSegmentOf hour' name = true → hour = hour' := fun h h' =>
    hourDir_apart (isUnder_of_isSegmentOf h) (isUnder_of_isSegmentOf h')
  rw [awaitedNames, List.nodup_flatMap]
  constructor
  · intro day hday
    have hsub : day.2.Sublist decisions := by
      obtain ⟨date, -, rfl⟩ := List.mem_map.mp hday
      exact List.filter_sublist.trans List.filter_sublist
    rw [List.map_flatMap, List.nodup_flatMap]
    constructor
    · intro decision hdecision
      obtain ⟨hmem, hprunable, -⟩ := mem_pruneDays hday decision hdecision
      exact hfiles decision hmem hprunable
    · have hapartHours := (List.pairwise_map.mp hhours).sublist hsub
      refine hapartHours.imp_of_mem fun {a b} ha hb hne name hname hname' => hne ?_
      obtain ⟨segment, hsegment, rfl⟩ := List.mem_map.mp hname
      obtain ⟨segment', hsegment', hsame⟩ := List.mem_map.mp hname'
      obtain ⟨hmem, hprunable, -⟩ := mem_pruneDays hday a ha
      obtain ⟨hmem', hprunable', -⟩ := mem_pruneDays hday b hb
      refine hapart (hofHour a hmem hprunable segment hsegment) ?_
      rw [← hsame]
      exact hofHour b hmem' hprunable' segment' hsegment'
  · have hdates := List.pairwise_map.mp (nodup_pruneDays decisions)
    refine hdates.imp_of_mem fun {day day'} hday hday' hne name hname hname' => hne ?_
    obtain ⟨segment, hsegment, rfl⟩ := List.mem_map.mp hname
    obtain ⟨segment', hsegment', hsame⟩ := List.mem_map.mp hname'
    obtain ⟨a, ha, hsegment⟩ := List.mem_flatMap.mp hsegment
    obtain ⟨b, hb, hsegment'⟩ := List.mem_flatMap.mp hsegment'
    obtain ⟨hmem, hprunable, hdate⟩ := mem_pruneDays hday a ha
    obtain ⟨hmem', hprunable', hdate'⟩ := mem_pruneDays hday' b hb
    have hin := hofHour b hmem' hprunable' segment' hsegment'
    rw [hsame] at hin
    rw [← hdate, ← hdate', hapart (hofHour a hmem hprunable segment hsegment) hin]

theorem Looking.pruning {o : PruneOptions} {seen : List Disk} {answers : Archive DiskError}
    {decisions : List PruneDecision} (h : Looking retentionHours s o seen)
    (hseen : answers.Seen seen) (hsurvey : answers.survey o = .ok decisions) :
    Pruning retentionHours s s.disk [] (pruneDays decisions) := by
  obtain ⟨hletGo, hhours⟩ := survey_letGo hsurvey
  have hawaits := fun decision hdecision hprunable =>
    (hletGo decision hdecision hprunable).elim fun m hm => h.awaits hseen hm
  refine ⟨rfl, nofun, nofun, fun day hday => ⟨rfl, fun decision hdecision => ?_,
    fun decision hdecision => ?_⟩, nodup_pruneDays decisions, ?_⟩
  · exact (mem_pruneDays hday decision hdecision).2.2
  · obtain ⟨hmem, hprunable, -⟩ := mem_pruneDays hday decision hdecision
    exact hawaits decision hmem hprunable
  · refine nodup_awaitedNames ?_ (fun decision hdecision hprunable => ?_)
      fun decision hdecision hprunable segment hsegment => ?_
    · rw [hhours]
      exact hseen.hoursOnce.filter _
    · obtain ⟨m, hm⟩ := hletGo decision hdecision hprunable
      rw [hm.files]
      exact hseen.filesOnce decision.hour
    · obtain ⟨sha256, -, hthere⟩ := hawaits decision hdecision hprunable segment hsegment
      exact hthere.verified.ofHour

/-! ## The deletions -/

theorem perform_noSwap {op : FileOp} (hop : op.isSwap = false) (d : Disk) :
    (d.perform op).parts = d.parts ∧ (d.perform op).manifest = d.manifest := by
  cases op with
  | unlink name => exact ⟨rfl, rfl⟩
  | removeHourDir hour =>
      rw [Disk.perform]
      split
      · exact ⟨rfl, rfl⟩
      · exact ⟨rfl, rfl⟩
  | _ => cases hop

/-- The other segments stay. -/
theorem get?_perform_noSwap {op : FileOp} (hop : op.isSwap = false) (d : Disk) {name : String}
    (hname : op.target ≠ some name) :
    (d.perform op).segments.get? name = d.segments.get? name := by
  cases op with
  | unlink other =>
      show (d.segments.erase other).get? name = _
      rw [Dict.get?_erase, if_neg fun h => hname (congrArg some h)]
  | removeHourDir hour =>
      rw [Disk.perform]
      split
      · rfl
      · rfl
  | _ => cases hop

/-- One deletion: what remains of the prune is as it was. -/
theorem Pruning.delete {decided : Disk} {op : FileOp} {ops : List FileOp}
    {days : List (Date × List PruneDecision)}
    (h : Pruning retentionHours s decided (op :: ops) days) :
    Pruning retentionHours (s.delete decided op) decided ops days := by
  obtain ⟨hop, hops⟩ := List.forall_mem_cons.mp h.noSwap
  obtain ⟨hparts, hmanifest⟩ := perform_noSwap hop s.disk
  have honce : ∀ name ∈ ops.filterMap FileOp.target ++ awaitedNames days,
      op.target ≠ some name := by
    intro name hname heq
    have hnodup := h.once
    rw [List.filterMap_cons_some heq, List.cons_append, List.nodup_cons] at hnodup
    exact hnodup.1 hname
  have hawaits : ∀ {hour name file}, name ∈ ops.filterMap FileOp.target ++ awaitedNames days →
      Awaits retentionHours s decided hour name file →
        Awaits retentionHours (s.delete decided op) decided hour name file := by
    intro hour name file hname hawaits
    refine ⟨hawaits.verified, ?_, hawaits.past⟩
    exact (get?_perform_noSwap hop s.disk (honce name hname)).trans hawaits.there
  refine ⟨hparts.trans h.parts, hops, fun name hname => ?_, fun day hday => ?_, h.dates, ?_⟩
  · obtain ⟨hour, file, hthere, hlisted⟩ := h.recorded name (List.mem_cons_of_mem _ hname)
    have hpending : name ∈ ops.filterMap FileOp.target :=
      List.mem_filterMap.mpr ⟨_, hname, rfl⟩
    rw [← hmanifest] at hlisted
    exact ⟨hour, file, hawaits (List.mem_append_left _ hpending) hthere, hlisted⟩
  · have hawaited := h.awaited day hday
    refine ⟨(congrFun hmanifest day.1).trans hawaited.manifest, hawaited.dated,
      fun decision hdecision segment hsegment => ?_⟩
    obtain ⟨sha256, hsha, hthere⟩ := hawaited.segments decision hdecision segment hsegment
    have hname : segment.path ∈ awaitedNames days :=
      List.mem_flatMap.mpr ⟨day, hday, List.mem_map_of_mem
        (List.mem_flatMap.mpr ⟨decision, hdecision, hsegment⟩)⟩
    exact ⟨sha256, hsha, hawaits (List.mem_append_right _ hname) hthere⟩
  · have hnodup := h.once
    cases htarget : op.target with
    | none =>
        rw [List.filterMap_cons_none htarget] at hnodup
        exact hnodup
    | some name =>
        rw [List.filterMap_cons_some htarget, List.cons_append] at hnodup
        exact hnodup.tail

/-- What a deletion adds to what is remembered is retained. -/
theorem Pruning.retains_delete {decided : Disk} {op : FileOp} {ops : List FileOp}
    {days : List (Date × List PruneDecision)}
    (h : Pruning retentionHours s decided (op :: ops) days) {u : Unlinked}
    (hu : u ∈ (s.delete decided op).unlinked) :
    u ∈ s.unlinked ∨ (s.disk.perform op).Retains u := by
  obtain ⟨hparts, hmanifest⟩ := perform_noSwap (List.forall_mem_cons.mp h.noSwap).1 s.disk
  cases op with
  | unlink name =>
      obtain ⟨hour, file, hthere, hlisted⟩ := h.recorded name List.mem_cons_self
      rcases List.mem_append.mp hu with hu | hu
      · exact .inl hu
      · rw [hthere.there] at hu
        obtain rfl := List.mem_singleton.mp hu
        refine .inr ⟨hour, hthere.verified, hlisted, fun path _ => ?_⟩
        rw [hparts, h.parts]
  | _ => exact .inl hu

theorem pruneRecords_ok {prunedWallNs : Int} {decisions : List PruneDecision}
    {records : List PrunedSegment} (h : pruneRecords prunedWallNs decisions = .ok records) :
    records.map PrunedSegment.path =
      (decisions.flatMap PruneDecision.segments).map SegmentOnDisk.path ∧
    ∀ record ∈ records, ∃ decision ∈ decisions, ∃ segment ∈ decision.segments,
      segment.path = record.path ∧ segment.bytes = record.bytes ∧
        segment.sha256 = some record.sha256 := by
  have hrecord : ∀ {segment record}, pruneRecord prunedWallNs segment = .ok record →
      segment.path = record.path ∧ segment.bytes = record.bytes ∧
        segment.sha256 = some record.sha256 := by
    intro segment record hrecord
    rw [pruneRecord] at hrecord
    split at hrecord
    · cases hrecord
    · next sha256 hsha =>
        obtain rfl := Except.ok.inj hrecord
        exact ⟨rfl, rfl, hsha⟩
  refine ⟨map_of_readEach (fun _ _ hread => (hrecord hread).1.symm) h, fun record hmem => ?_⟩
  obtain ⟨segment, hsegment, hread⟩ := exists_of_forall₂ (readEach_ok_iff.mp h) hmem
  obtain ⟨decision, hdecision, hin⟩ := List.mem_flatMap.mp hsegment
  exact ⟨decision, hdecision, segment, hin, hrecord hread⟩

/-- What `_prune_day` writes: the day's manifest, with a record of every segment
of the decisions. -/
theorem pruneDay_eq_some {d : Disk} {date : Date} {decisions : List PruneDecision}
    {prunedWallNs : Int} {updated : Manifest} {ops : List FileOp}
    (h : d.pruneDay date decisions prunedWallNs = some (updated, ops)) :
    ∃ m records, d.manifest date = some m ∧ pruneRecords prunedWallNs decisions = .ok records ∧
      withPruned m records = .ok updated ∧ ops = deletions records decisions := by
  rw [Disk.pruneDay] at h
  split at h
  · cases h
  · next m hm =>
      split at h
      · cases h
      · next records hrecords =>
          split at h
          · cases h
          · next written hwritten =>
              obtain ⟨rfl, rfl⟩ := Prod.mk.inj (Option.some.inj h)
              exact ⟨m, records, hm, hrecords, hwritten, rfl⟩

theorem filterMap_target (records : List PrunedSegment) (decisions : List PruneDecision) :
    (deletions records decisions).filterMap FileOp.target = records.map PrunedSegment.path := by
  rw [deletions, List.filterMap_append, List.filterMap_map, List.filterMap_map]
  have hdirs : decisions.filterMap (FileOp.target ∘ fun decision : PruneDecision =>
      .removeHourDir decision.hour) = [] :=
    List.filterMap_eq_nil_iff.mpr fun _ _ => rfl
  have hfiles : records.filterMap (FileOp.target ∘ fun record : PrunedSegment =>
      .unlink record.path) = records.map PrunedSegment.path :=
    congrFun List.filterMap_eq_map _
  rw [hdirs, hfiles, List.append_nil]

/-- A record that is taken over is the one given, or an earlier one of the same
file. -/
theorem listsPruned_of_withPruned {m updated : Manifest} {records : List PrunedSegment}
    (h : withPruned m records = .ok updated) {record : PrunedSegment} (hmem : record ∈ records)
    {hour : Int} (hlisted : ∃ e ∈ m.hourSegments hour,
      e.path = record.path ∧ e.bytes = record.bytes ∧ e.sha256 = record.sha256) :
    ListsPruned (some updated) record.path ⟨record.bytes, record.sha256⟩ := by
  have hmembers := recorded_of_ok h
  obtain ⟨p, hp, hpath⟩ := List.mem_map.mp (hmembers.paths hmem)
  obtain ⟨e, he, hepath, hbytes, hsha⟩ := updated.consistent.prunedListed p hp
  obtain ⟨e', he', hepath', hbytes', hsha'⟩ := hlisted
  have hin := (hmembers.segments e).mp he
  have hin' := (mem_hourSegments.mp he').1
  obtain rfl := eq_of_key m.consistent.segmentsSorted hin hin'
    (hepath.trans (hpath.trans hepath'.symm))
  exact ⟨updated, rfl, p, hp, hpath, hbytes.symm.trans hbytes', hsha.symm.trans hsha'⟩

theorem manifest_writeManifest (d : Disk) (m : Manifest) {date : Date} (hdate : m.date = date) :
    (d.writeManifest m).manifest date = some m := by
  subst hdate
  exact Function.update_self _ _ _

theorem manifest_writeManifest_ne (d : Disk) {m : Manifest} {date : Date} (hne : date ≠ m.date) :
    (d.writeManifest m).manifest date = d.manifest date :=
  Function.update_of_ne hne _ _

/-- A day's manifest is written before any of its segments is deleted. -/
theorem Pruning.write {decided : Disk} {date : Date} {decisions : List PruneDecision}
    {days : List (Date × List PruneDecision)} {updated : Manifest} {ops : List FileOp}
    (h : Pruning retentionHours s decided [] ((date, decisions) :: days))
    (hday : s.disk.pruneDay date decisions s.clockNs = some (updated, ops)) :
    s.disk.Keeps (s.disk.writeManifest updated) ∧
      Pruning retentionHours { s with disk := s.disk.writeManifest updated } decided ops days := by
  obtain ⟨m, records, hm, hrecords, hwritten, rfl⟩ := pruneDay_eq_some hday
  obtain ⟨hawaited, hlater⟩ := List.forall_mem_cons.mp h.awaited
  obtain ⟨hpaths, hsources⟩ := pruneRecords_ok hrecords
  have hdate : updated.date = date := (withPruned_ok hwritten).date.trans (s.disk.dated _ _ hm)
  have hdates := List.nodup_cons.mp h.dates
  have hawaits : ∀ {hour name file}, Awaits retentionHours s decided hour name file →
      Awaits retentionHours { s with disk := s.disk.writeManifest updated } decided hour name
        file :=
    fun hthere => ⟨hthere.verified, hthere.there, hthere.past⟩
  constructor
  · refine keeps_writeManifest fun before hbefore => ?_
    rw [hdate, hm] at hbefore
    obtain rfl := Option.some.inj hbefore
    exact follows_withPruned hwritten
  · refine ⟨h.parts, fun op hop => ?_, fun name hname => ?_, fun day hday => ?_, hdates.2, ?_⟩
    · rcases List.mem_append.mp hop with hop | hop
      · obtain ⟨record, -, rfl⟩ := List.mem_map.mp hop
        rfl
      · obtain ⟨decision, -, rfl⟩ := List.mem_map.mp hop
        rfl
    · have hrecord : ∃ record ∈ records, record.path = name := by
        rcases List.mem_append.mp hname with hname | hname
        · obtain ⟨record, hrecord, heq⟩ := List.mem_map.mp hname
          exact ⟨record, hrecord, FileOp.unlink.inj heq⟩
        · obtain ⟨decision, -, heq⟩ := List.mem_map.mp hname
          cases heq
      obtain ⟨record, hmem, rfl⟩ := hrecord
      obtain ⟨decision, hdecision, segment, hsegment, hpath, hbytes, hsha⟩ := hsources record hmem
      obtain ⟨sha256, hsome, hthere⟩ := hawaited.segments decision hdecision segment hsegment
      obtain rfl : record.sha256 = sha256 := Option.some.inj (hsha.symm.trans hsome)
      rw [hpath, hbytes] at hthere
      have hhour := hawaited.dated decision hdecision
      refine ⟨decision.hour, _, hawaits hthere, ?_⟩
      -- the manifest of the day is the one that was read for the decision
      obtain ⟨m', hm', -, hlisted, -⟩ := hthere.verified.baked
      have hsame := hawaited.manifest
      dsimp only at hsame
      rw [hhour, ← hsame, hm] at hm'
      obtain rfl := Option.some.inj hm'
      rw [hhour, manifest_writeManifest _ _ hdate]
      exact listsPruned_of_withPruned hwritten hmem hlisted
    · have hthen := hlater day hday
      have hne : day.1 ≠ updated.date := by
        rintro heq
        exact hdates.1 (List.mem_map.mpr ⟨day, hday, heq.trans hdate⟩)
      refine ⟨(manifest_writeManifest_ne _ hne).trans hthen.manifest, hthen.dated,
        fun decision hdecision segment hsegment => ?_⟩
      obtain ⟨sha256, hsha, hthere⟩ := hthen.segments decision hdecision segment hsegment
      exact ⟨sha256, hsha, hawaits hthere⟩
    · have honce := h.once
      rw [List.filterMap_nil, List.nil_append, awaitedNames, List.flatMap_cons] at honce
      rw [filterMap_target, hpaths]
      exact honce

/-! ## Every step -/

/-- What a step does: it undoes nothing, and leads to a sound state. -/
def ArchiveState.Leads (retentionHours : Int) (s s' : ArchiveState) : Prop :=
  s.disk.Keeps s'.disk ∧ s'.Sound retentionHours

/-- A step of the run that leaves what was deleted alone. -/
theorem leads_of_keeps {disk : Disk} {phase : ArchivePhase} (hs : s.Sound retentionHours)
    (hkeeps : s.disk.Keeps disk) (hphase : phase.Fits retentionHours { s with disk, phase }) :
    s.Leads retentionHours { s with disk, phase } :=
  ⟨hkeeps, hs.clock, hphase, fun u hu => (hs.retained u hu).mono hkeeps⟩

theorem leads_idle (hs : s.Sound retentionHours) :
    s.Leads retentionHours { s with phase := .idle } :=
  leads_of_keeps hs (Disk.keeps_refl _) trivial

theorem leads_proceed (hs : s.Sound retentionHours) : s.Leads retentionHours s.proceed := by
  have hfits := hs.phase
  rw [ArchiveState.proceed]
  split
  · next r softwareVersion clockOffsetMs op ops hphase =>
      rw [hphase] at hfits
      obtain ⟨hmay, hops⟩ := hfits
      obtain ⟨hop, hrest⟩ := List.forall_mem_cons.mp hops
      refine leads_of_keeps hs (keeps_swap hop hmay) ⟨?_, hrest⟩
      have hsame : Disk.SameRecords s.disk (s.disk.performAll [op]) :=
        sameRecords_performAll s.disk fun op' hop' =>
          isSwap_of_swaps (List.mem_singleton.mp hop' ▸ hop)
      exact hsame.manifest ▸ hmay
  · next r softwareVersion clockOffsetMs hphase =>
      split
      · exact leads_idle hs
      · next m hrecorded =>
          obtain ⟨hdate, hfollows⟩ := recorded_ok hrecorded
          exact leads_of_keeps hs (keeps_writeManifest (hdate ▸ hfollows)) trivial
  · next decided op ops days hphase =>
      rw [hphase] at hfits
      have hpruning : Pruning retentionHours s decided (op :: ops) days := hfits
      obtain ⟨hparts, hmanifest⟩ :=
        perform_noSwap (List.forall_mem_cons.mp hpruning.noSwap).1 s.disk
      have hkeeps : s.disk.Keeps (s.disk.perform op) := Disk.keeps_of_same hmanifest hparts
      have hthen := hpruning.delete
      refine ⟨hkeeps, hs.clock, hthen.of_same rfl rfl, fun u hu => ?_⟩
      rcases hpruning.retains_delete hu with hu | hretains
      · exact (hs.retained u hu).mono hkeeps
      · exact hretains
  · next decided date decisions days hphase =>
      rw [hphase] at hfits
      have hpruning : Pruning retentionHours s decided [] ((date, decisions) :: days) := hfits
      split
      · exact leads_idle hs
      · next m ops hday =>
          obtain ⟨hkeeps, hthen⟩ := hpruning.write hday
          exact leads_of_keeps hs hkeeps (hthen.of_same rfl rfl)
  · exact leads_idle hs
  · exact ⟨Disk.keeps_refl _, hs⟩

theorem outlasts_write (name : String) (file : File)
    (hnew : s.Admissible retentionHours (.writeSegment name file)) :
    Outlasts retentionHours s
      (s.observe { s.disk with segments := s.disk.segments.set name file }) := by
  refine ⟨rfl, rfl, le_refl _, fun hour other file' hofHour hpast hfile => ?_⟩
  show (s.disk.segments.set name file).get? other = _
  rw [Dict.get?_set]
  split
  · next heq =>
      subst heq
      rcases hnew with hnone | hopen
      · rw [hnone] at hfile
        cases hfile
      · exact absurd hpast (hopen hour hofHour)
  · exact hfile

theorem leads_step {act : ArchiveAct} (hs : s.Sound retentionHours)
    (hact : s.Admissible retentionHours act) :
    s.Leads retentionHours (s.step retentionHours act) := by
  have hfits := hs.phase
  have hstays : s.Leads retentionHours s := ⟨Disk.keeps_refl _, hs⟩
  cases act with
  | writeSegment name file =>
      exact ⟨Disk.keeps_of_same rfl rfl, sound_observe (outlasts_write name file hact) hs⟩
  | makeHourDir hour =>
      exact ⟨Disk.keeps_of_same rfl rfl,
        sound_observe ⟨rfl, rfl, le_refl _, fun _ _ _ _ _ h => h⟩ hs⟩
  | tick ns =>
      have hlasts : Outlasts retentionHours s (s.step retentionHours (.tick ns)) :=
        ⟨rfl, rfl, le_max_left _ _, fun _ _ _ _ _ h => h⟩
      exact ⟨Disk.keeps_refl _, hlasts.sound hs (le_max_right _ _) rfl rfl⟩
  | bake r softwareVersion clockOffsetMs =>
      rw [ArchiveState.step]
      split
      · split
        · next hmay => exact leads_of_keeps hs (Disk.keeps_refl _) ⟨hmay, fun _ h => h⟩
        · exact hstays
      · exact hstays
  | prune =>
      rw [ArchiveState.step]
      split
      · refine leads_of_keeps hs (Disk.keeps_refl _) ?_
        refine ⟨rfl, rfl, hs.clock, fun d hd => ?_, fun d hd => ?_⟩
        · rw [List.mem_singleton.mp hd]
          exact ⟨rfl, rfl⟩
        · rw [List.mem_singleton.mp hd]
          exact fun _ _ _ _ _ hfile => hfile
      · exact hstays
  | decide answers =>
      rw [ArchiveState.step]
      split
      · next o seen hphase =>
          rw [hphase] at hfits
          split
          · exact leads_idle hs
          · next decisions hsurvey =>
              have hpruning := hfits.pruning (hact o seen hphase) hsurvey
              exact leads_of_keeps hs (Disk.keeps_refl _) (hpruning.of_same rfl rfl)
      · exact hstays
  | proceed => exact leads_proceed hs
  | crash aside => exact leads_of_keeps hs (Disk.keeps_of_same rfl rfl) trivial

/-- Nothing but a prune deletes a segment, and what it deletes is remembered. -/
theorem remembered_of_gone {act : ArchiveAct} {name : String} {file : File}
    (hs : s.Sound retentionHours) (hthere : s.disk.segments.get? name = some file)
    (hgone : (s.step retentionHours act).disk.segments.get? name = none) :
    ∃ decided, ⟨name, file, decided⟩ ∈ (s.step retentionHours act).unlinked := by
  have hsame : ∀ disk : Disk, disk.segments = s.disk.segments →
      disk.segments.get? name ≠ none := by
    intro disk heq hnone
    rw [heq, hthere] at hnone
    cases hnone
  cases act with
  | writeSegment other file' =>
      have hset : (s.disk.segments.set other file').get? name = none := hgone
      rw [Dict.get?_set] at hset
      split at hset
      · cases hset
      · rw [hthere] at hset
        cases hset
  | makeHourDir hour => exact absurd hgone (hsame _ rfl)
  | tick ns => exact absurd hgone (hsame _ rfl)
  | bake r softwareVersion clockOffsetMs =>
      rw [ArchiveState.step] at hgone
      split at hgone
      · split at hgone
        · exact absurd hgone (hsame _ rfl)
        · exact absurd hgone (hsame _ rfl)
      · exact absurd hgone (hsame _ rfl)
  | prune =>
      rw [ArchiveState.step] at hgone
      split at hgone
      · exact absurd hgone (hsame _ rfl)
      · exact absurd hgone (hsame _ rfl)
  | decide answers =>
      rw [ArchiveState.step] at hgone
      split at hgone
      · split at hgone
        · exact absurd hgone (hsame _ rfl)
        · exact absurd hgone (hsame _ rfl)
      · exact absurd hgone (hsame _ rfl)
  | crash aside => exact absurd hgone (hsame _ rfl)
  | proceed =>
      have hfits := hs.phase
      rw [ArchiveState.step, ArchiveState.proceed] at hgone ⊢
      split at hgone
      · next r softwareVersion clockOffsetMs op ops hphase =>
          rw [hphase] at hfits
          have hswap : Disk.SameRecords s.disk (s.disk.performAll [op]) :=
            sameRecords_performAll s.disk fun op' hop' =>
              isSwap_of_swaps (List.mem_singleton.mp hop' ▸ hfits.2 op List.mem_cons_self)
          exact absurd hgone (hsame _ hswap.segments)
      · split at hgone
        · exact absurd hgone (hsame _ rfl)
        · exact absurd hgone (hsame _ rfl)
      · next decided op ops days hphase =>
          rw [hphase] at hfits
          have hop := (List.forall_mem_cons.mp hfits.noSwap).1
          have hgone : (s.disk.perform op).segments.get? name = none := hgone
          by_cases htarget : op.target = some name
          · cases op with
            | unlink other =>
                obtain rfl := Option.some.inj htarget
                refine ⟨decided, List.mem_append_right _ ?_⟩
                rw [hthere]
                exact List.mem_singleton_self _
            | _ => cases htarget
          · rw [get?_perform_noSwap hop s.disk htarget, hthere] at hgone
            cases hgone
      · split at hgone
        · exact absurd hgone (hsame _ rfl)
        · exact absurd hgone (hsame _ rfl)
      · exact absurd hgone (hsame _ rfl)
      · exact absurd hgone (hsame _ rfl)

theorem throughout_sound {disk : Disk} {clockNs : Int} {acts : List ArchiveAct}
    (h : Run.Along (ArchiveState.step retentionHours) (ArchiveState.Admissible retentionHours)
      (.new disk clockNs) acts) :
    Run.Throughout (ArchiveState.step retentionHours) (ArchiveState.Sound retentionHours)
      (.new disk clockNs) acts := by
  have hnew : ArchiveState.Sound retentionHours (.new disk clockNs) :=
    ⟨le_refl _, trivial, nofun⟩
  exact Run.throughout_of_step (fun _ _ hs hact => (leads_step hs hact).2) hnew h

/-- In every run, what a prune deleted is recorded as it was, and was baked
whole by a bake whose part files stay; and nothing else deletes a segment. -/
theorem pruned_segments_retained (retentionHours : Int) (disk : Disk) (clockNs : Int)
    (acts : List ArchiveAct)
    (h : Run.Along (ArchiveState.step retentionHours) (ArchiveState.Admissible retentionHours)
      (.new disk clockNs) acts) :
    Run.Throughout (ArchiveState.step retentionHours)
      (fun s => ∀ u ∈ s.unlinked, s.disk.Retains u) (.new disk clockNs) acts ∧
    Run.Along (ArchiveState.step retentionHours)
      (fun s act => ∀ name file, s.disk.segments.get? name = some file →
        (s.step retentionHours act).disk.segments.get? name = none →
          ∃ decided, ⟨name, file, decided⟩ ∈ (s.step retentionHours act).unlinked)
      (.new disk clockNs) acts := by
  have hsound := throughout_sound h
  constructor
  · exact hsound.mono fun s hs => hs.retained
  · have hgone : ∀ (s : ArchiveState) act, s.Sound retentionHours →
        s.Admissible retentionHours act → ∀ name file, s.disk.segments.get? name = some file →
          (s.step retentionHours act).disk.segments.get? name = none →
            ∃ decided, ⟨name, file, decided⟩ ∈ (s.step retentionHours act).unlinked :=
      fun s act hs _ name file hthere hnone => remembered_of_gone hs hthere hnone
    exact Run.along_of_step (I := ArchiveState.Sound retentionHours)
      (fun _ _ hs hact => (leads_step hs hact).2) hgone hsound.head h

/-- What the disk of one moment answers was seen. -/
theorem seen_archive {d : Disk} {seen : List Disk} (hd : d ∈ seen) (honce : d.hourDirs.Nodup) :
    d.archive.Seen seen where
  hoursOnce := (Sorted.sortOn_perm _ _).nodup_iff.mpr honce
  filesOnce _ := (Sorted.sortOn_perm _ _).nodup_iff.mpr (d.segments.nodup.filter _)
  segmentFiles _ _ hname := ⟨d, hd, hname⟩
  segmentSize _ := ⟨d, hd, rfl⟩
  segmentSha256 _ := ⟨d, hd, rfl⟩
  isPart _ := ⟨d, hd, rfl⟩
  partSha256 _ := ⟨d, hd, rfl⟩
  readManifest _ := ⟨d, hd, rfl⟩

/-- A run on an archive with one hour, past its window: decided, recorded,
deleted. -/
def pruneOnce : List ArchiveAct :=
  [.prune, .decide bakedDisk.archive, .proceed, .proceed, .proceed]

theorem along_pruneOnce :
    Run.Along (ArchiveState.step 1) (ArchiveState.Admissible 1) (.new bakedDisk 7200000000001)
      pruneOnce := by
  have hseen : bakedDisk.archive.Seen [bakedDisk] :=
    seen_archive List.mem_cons_self (by decide)
  refine ⟨trivial, fun o seen hphase => ?_, trivial, trivial, trivial, trivial⟩
  obtain ⟨-, rfl⟩ := ArchivePhase.surveying.inj hphase
  exact hseen

theorem names_pruneOnce :
    (Run.final (ArchiveState.step 1) (.new bakedDisk 7200000000001)
      pruneOnce).unlinked.map Unlinked.name = ["1970-01-01/00/conn-01.tape.zst"] := by
  decide +kernel

theorem pruned_segments_retained_once :
    ∃ u, u.name = "1970-01-01/00/conn-01.tape.zst" ∧
      (Run.final (ArchiveState.step 1) (.new bakedDisk 7200000000001)
        pruneOnce).disk.Retains u := by
  obtain ⟨u, hu, hname⟩ := List.mem_map.mp (names_pruneOnce ▸ List.mem_singleton_self
    "1970-01-01/00/conn-01.tape.zst")
  exact ⟨u, hname,
    (pruned_segments_retained 1 bakedDisk 7200000000001 pruneOnce along_pruneOnce).1.last u hu⟩

end Tape.Bake
