import Tape.Bake.Manifest

/-!
# Merging into a manifest

Everything a manifest lists is in strict order of its key, and the rest of it
is derived from the hours, so two manifests built by `assemble` are equal as
soon as they list the same members (`eq_of_members`). `with_hour` and
`with_pruned` say which members those are, and the laws of merging follow from
that: hours commute, a bake taken twice is taken once, pruning keeps first
records and leaves the hours alone.
-/

namespace Tape.Bake

/-! ## Strict order -/

section Members

variable {α κ : Type*} [LinearOrder κ] {key : α → κ}

theorem nodup_of_sortedUnique {l : List α} (h : SortedUnique (l.map key)) : l.Nodup :=
  List.Nodup.of_map key ((sortedUnique_iff.mp h).imp fun hlt => ne_of_lt hlt)

/-- Lists in strict order of a key are determined by their members. -/
theorem eq_of_members {l l' : List α} (h : SortedUnique (l.map key))
    (h' : SortedUnique (l'.map key)) (hmem : ∀ a, a ∈ l ↔ a ∈ l') : l = l' := by
  have hperm : l.Perm l' :=
    (List.perm_ext_iff_of_nodup (nodup_of_sortedUnique h) (nodup_of_sortedUnique h')).mpr hmem
  exact hperm.eq_of_pairwise (fun _ _ _ _ hab hba => absurd hab (lt_asymm hba))
    (List.pairwise_map.mp (sortedUnique_iff.mp h)) (List.pairwise_map.mp (sortedUnique_iff.mp h'))

theorem eq_of_key {l : List α} (h : SortedUnique (l.map key)) {a b : α} (ha : a ∈ l) (hb : b ∈ l)
    (hkey : key a = key b) : a = b :=
  List.inj_on_of_nodup_map ((sortedUnique_iff.mp h).imp fun hlt => ne_of_lt hlt) ha hb hkey

theorem mem_sortOn {l : List α} {a : α} : a ∈ Sorted.sortOn key l ↔ a ∈ l :=
  (Sorted.sortOn_perm key l).mem_iff

end Members

theorem SortedUnique.filter {α κ : Type*} [LinearOrder κ] {key : α → κ} {l : List α}
    (h : SortedUnique (l.map key)) (p : α → Bool) : SortedUnique ((l.filter p).map key) := by
  rw [sortedUnique_iff, List.pairwise_map] at h ⊢
  exact h.filter p

/-- What is replaced by an hour: the entries of other hours stay, and those of
the hour are the new ones. -/
theorem kept_of_replaced {α κ : Type*} [LinearOrder κ] {key : α → κ} {hourOf : α → Int}
    {l l' new : List α} {hour : Int} (hl : SortedUnique (l.map key))
    (hl' : SortedUnique (l'.map key)) (hown : ∀ a ∈ new, hourOf a = hour)
    (hr : l' = Sorted.sortOn key (l.filter (fun a => hourOf a ≠ hour) ++ new)) :
    l'.filter (fun a => hourOf a ≠ hour) = l.filter (fun a => hourOf a ≠ hour) ∧
      (l'.filter fun a => hourOf a = hour).Perm new := by
  constructor
  · refine eq_of_members (hl'.filter _) (hl.filter _) fun a => ?_
    rw [List.mem_filter, List.mem_filter, hr, mem_sortOn, List.mem_append, List.mem_filter]
    constructor
    · rintro ⟨hmem | hmem, hother⟩
      · exact hmem
      · exact absurd (hown a hmem) (of_decide_eq_true hother)
    · exact fun h => ⟨.inl h, h.2⟩
  · rw [hr]
    refine ((Sorted.sortOn_perm key _).filter _).trans (List.Perm.of_eq ?_)
    rw [List.filter_append, List.filter_filter]
    have hnone : l.filter (fun a => decide (hourOf a = hour) && decide (hourOf a ≠ hour)) = [] :=
      List.filter_eq_nil_iff.mpr fun a _ => by simp
    have hall : new.filter (fun a => hourOf a = hour) = new :=
      List.filter_eq_self.mpr fun a ha => decide_eq_true (hown a ha)
    rw [hnone, hall, List.nil_append]

/-! ## The checks -/

theorem checkAll_ok_iff {α ε : Type*} {check : α → Except ε Unit} {l : List α} :
    checkAll check l = .ok () ↔ ∀ a ∈ l, check a = .ok () := by
  induction l with
  | nil => exact iff_of_true rfl nofun
  | cons a l ih =>
      rw [checkAll, List.forall_mem_cons]
      cases check a with
      | error e => exact iff_of_false nofun fun h => nomatch h.1
      | ok u => exact ih.trans (and_iff_right rfl).symm

theorem checkSortedUnique_ok_iff {what : String} {paths : List String} :
    checkSortedUnique what paths = .ok () ↔ SortedUnique paths := by
  rw [checkSortedUnique]
  split
  · next h => exact iff_of_true rfl h
  · next h => exact iff_of_false nofun h

theorem TableName.mem_all (name : TableName) : name ∈ TableName.all := by
  cases name <;> decide

/-- What the checks of a manifest ask for. -/
structure Consistent (m : ManifestData) : Prop where
  segmentsSorted : SortedUnique (m.segments.map SegmentEntry.path)
  segmentsPlaced : ∀ s ∈ m.segments,
    (∃ hour : Nat, segmentHour s.path = .ok (m.date, hour) ∧ (hour : Int) = s.hour) ∧
      s.hour ∈ m.hours
  filesSorted : ∀ name, SortedUnique ((m.tables name).files.map PartEntry.path)
  filesPlaced : ∀ name, ∀ part ∈ (m.tables name).files,
    (partDirectory name m.date part.hour).toList <+: part.path.toList ∧ part.hour ∈ m.hours
  prunedSorted : SortedUnique (m.pruned.map PrunedSegment.path)
  prunedListed : ∀ p ∈ m.pruned, ∃ s ∈ m.segments,
    s.path = p.path ∧ s.bytes = p.bytes ∧ s.sha256 = p.sha256

namespace ManifestData

theorem checkSegment_ok_iff {m : ManifestData} {s : SegmentEntry} :
    m.checkSegment s = .ok () ↔
      (∃ hour : Nat, segmentHour s.path = .ok (m.date, hour) ∧ (hour : Int) = s.hour) ∧
        s.hour ∈ m.hours := by
  rw [checkSegment]
  cases hname : segmentHour s.path with
  | error e =>
      refine iff_of_false nofun ?_
      rintro ⟨⟨hour, hhour, -⟩, -⟩
      cases hhour
  | ok place =>
      obtain ⟨date, hour⟩ := place
      dsimp only
      split
      · next hother =>
          refine iff_of_false nofun ?_
          rintro ⟨⟨hour', hplace, hsame⟩, -⟩
          obtain ⟨rfl, rfl⟩ := Prod.mk.inj (Except.ok.inj hplace)
          rcases hother with hdate | hhour
          · exact hdate rfl
          · exact hhour hsame
      · next hsame =>
          rw [not_or, not_not, not_not] at hsame
          obtain ⟨rfl, hhour⟩ := hsame
          split
          · next hout => exact iff_of_false nofun fun h => hout h.2
          · next hin => exact iff_of_true rfl ⟨⟨hour, rfl, hhour⟩, not_not.mp hin⟩

theorem checkPart_ok_iff {m : ManifestData} {name : TableName} {part : PartEntry} :
    m.checkPart name part = .ok () ↔
      (partDirectory name m.date part.hour).toList <+: part.path.toList ∧ part.hour ∈ m.hours := by
  rw [checkPart]
  split
  · next hout => exact iff_of_false nofun fun h => hout h.1
  · next hin =>
      split
      · next hhour => exact iff_of_false nofun fun h => hhour h.2
      · next hhour => exact iff_of_true rfl ⟨not_not.mp hin, not_not.mp hhour⟩

theorem checkTable_ok_iff {m : ManifestData} {name : TableName} :
    m.checkTable name = .ok () ↔
      SortedUnique ((m.tables name).files.map PartEntry.path) ∧
        ∀ part ∈ (m.tables name).files,
          (partDirectory name m.date part.hour).toList <+: part.path.toList ∧
            part.hour ∈ m.hours := by
  have hpaths := @checkSortedUnique_ok_iff name.text ((m.tables name).files.map PartEntry.path)
  rw [checkTable]
  cases hcheck : checkSortedUnique name.text ((m.tables name).files.map PartEntry.path) with
  | error e =>
      rw [hcheck] at hpaths
      exact iff_of_false nofun fun h => nomatch hpaths.mpr h.1
  | ok u =>
      rw [hcheck] at hpaths
      dsimp only
      rw [checkAll_ok_iff, and_iff_right (hpaths.mp rfl)]
      exact forall₂_congr fun part _ => checkPart_ok_iff

theorem get?_listed {m : ManifestData} (h : SortedUnique (m.segments.map SegmentEntry.path))
    {path : String} {s : SegmentEntry} :
    m.listed.get? path = some s ↔ s ∈ m.segments ∧ s.path = path := by
  have hset : ∀ (d : Dict String SegmentEntry) (s : SegmentEntry),
      d.set s.path s = (some s).elim d (d.set s.path) := fun d s => rfl
  have hn : (m.segments.map SegmentEntry.path).Nodup :=
    (sortedUnique_iff.mp h).imp fun hlt => ne_of_lt hlt
  rw [listed, Dict.get?_foldl_set hset hn fun _ _ => Dict.get?_empty _, Dict.get?_empty]
  constructor
  · rintro (h | ⟨a, ha, hpath, hsome⟩)
    · cases h
    · obtain rfl := Option.some.inj hsome
      exact ⟨ha, hpath⟩
  · exact fun h => .inr ⟨s, h.1, h.2, rfl⟩

theorem checkPruned_ok_iff {m : ManifestData} (h : SortedUnique (m.segments.map SegmentEntry.path))
    {p : PrunedSegment} :
    m.checkPruned p = .ok () ↔
      ∃ s ∈ m.segments, s.path = p.path ∧ s.bytes = p.bytes ∧ s.sha256 = p.sha256 := by
  rw [checkPruned]
  cases hlisted : m.listed.get? p.path with
  | none =>
      refine iff_of_false nofun ?_
      rintro ⟨s, hs, hpath, -⟩
      rw [(get?_listed h).mpr ⟨hs, hpath⟩] at hlisted
      cases hlisted
  | some entry =>
      obtain ⟨hentry, hpath⟩ := (get?_listed h).mp hlisted
      dsimp only
      split
      · next hsame => exact iff_of_true rfl ⟨entry, hentry, hpath, hsame.1, hsame.2⟩
      · next hdiffers =>
          refine iff_of_false nofun ?_
          rintro ⟨s, hs, hspath, hbytes, hsha⟩
          obtain rfl := eq_of_key h hs hentry (hspath.trans hpath.symm)
          exact hdiffers ⟨hbytes, hsha⟩

/-- The constructor's checks pass for consistent contents, and only then. -/
theorem postInit_ok_iff {m : ManifestData} : m.postInit = .ok () ↔ Consistent m := by
  constructor
  · intro h
    rw [postInit] at h
    split at h
    · cases h
    · next hsegments =>
        have hsorted := checkSortedUnique_ok_iff.mp hsegments
        split at h
        · cases h
        · next hplaced =>
            split at h
            · cases h
            · next htables =>
                split at h
                · cases h
                · next hpruned =>
                    have hfiles := fun name =>
                      checkTable_ok_iff.mp (checkAll_ok_iff.mp htables name name.mem_all)
                    exact
                      { segmentsSorted := hsorted
                        segmentsPlaced := fun s hs =>
                          checkSegment_ok_iff.mp (checkAll_ok_iff.mp hplaced s hs)
                        filesSorted := fun name => (hfiles name).1
                        filesPlaced := fun name => (hfiles name).2
                        prunedSorted := checkSortedUnique_ok_iff.mp hpruned
                        prunedListed := fun p hp =>
                          (checkPruned_ok_iff hsorted).mp (checkAll_ok_iff.mp h p hp) }
  · intro h
    have hplaced : checkAll m.checkSegment m.segments = .ok () :=
      checkAll_ok_iff.mpr fun s hs => checkSegment_ok_iff.mpr (h.segmentsPlaced s hs)
    have htables : checkAll m.checkTable TableName.all = .ok () :=
      checkAll_ok_iff.mpr fun name _ =>
        checkTable_ok_iff.mpr ⟨h.filesSorted name, h.filesPlaced name⟩
    rw [postInit, checkSortedUnique_ok_iff.mpr h.segmentsSorted, hplaced, htables,
      checkSortedUnique_ok_iff.mpr h.prunedSorted]
    exact checkAll_ok_iff.mpr fun p hp =>
      (checkPruned_ok_iff h.segmentsSorted).mpr (h.prunedListed p hp)

end ManifestData

theorem Manifest.consistent (m : Manifest) : Consistent m.toManifestData :=
  ManifestData.postInit_ok_iff.mp m.checked

/-! ## What `assemble` builds -/

/-- The numbers of the day are those of its hours. -/
structure Derived (m : ManifestData) : Prop where
  uptime : m.uptime = summarizeUptime m.date m.bake.hours
  gaps : m.gaps = summarizeGaps m.bake.hours
  audits : m.audits = summarizeAudits m.bake.hours

/-- A manifest with these contents, in order and with the day's numbers. -/
structure Assembled (r : ManifestData) (date : Date) (softwareVersion : String)
    (segments : List SegmentEntry) (tables : TableName → List PartEntry) (hours : List HourBake)
    (chronyOffsetMs : Option Int) (pruned : List PrunedSegment) : Prop where
  date : r.date = date
  softwareVersion : r.softwareVersion = softwareVersion
  segments : r.segments = Sorted.sortOn SegmentEntry.path segments
  tables : ∀ name, r.tables name = tableEntry (tables name)
  hours : r.bake.hours = Sorted.sortOn HourBake.hour hours
  chronyOffsetMs : r.chronyOffsetMs = chronyOffsetMs
  pruned : r.pruned = Sorted.sortOn PrunedSegment.path pruned
  derived : Derived r

theorem Manifest.build_ok {d : ManifestData} {r : Manifest} (h : Manifest.build d = .ok r) :
    r.toManifestData = d := by
  rw [Manifest.build] at h
  split at h
  · cases h
  · obtain rfl := Except.ok.inj h
    rfl

theorem assembled_of_ok {date : Date} {softwareVersion : String} {segments : List SegmentEntry}
    {tables : TableName → List PartEntry} {hours : List HourBake} {chronyOffsetMs : Option Int}
    {pruned : List PrunedSegment} {r : Manifest}
    (h : assemble date softwareVersion segments tables hours chronyOffsetMs pruned = .ok r) :
    Assembled r.toManifestData date softwareVersion segments tables hours chronyOffsetMs
      pruned := by
  rw [assemble] at h
  cases hbake : BakeSection.build (Sorted.sortOn HourBake.hour hours) with
  | error e =>
      rw [hbake] at h
      cases h
  | ok bake =>
      rw [hbake] at h
      have hhours : bake.hours = Sorted.sortOn HourBake.hour hours := by
        rw [BakeSection.build] at hbake
        split at hbake
        · obtain rfl := Except.ok.inj hbake
          rfl
        · cases hbake
      rw [Manifest.build_ok h]
      refine ⟨rfl, rfl, rfl, fun _ => rfl, hhours, rfl, rfl, ⟨?_, ?_, ?_⟩⟩
      · dsimp only
        rw [hhours]
      · dsimp only
        rw [hhours]
      · dsimp only
        rw [hhours]

/-- Manifests that list the same members, and whose numbers are derived from
them, are equal. -/
theorem eq_of_same {r r' : Manifest} (hd : Derived r.toManifestData)
    (hd' : Derived r'.toManifestData) (hdate : r.date = r'.date)
    (hversion : r.softwareVersion = r'.softwareVersion)
    (hclock : r.chronyOffsetMs = r'.chronyOffsetMs)
    (hsegments : ∀ s, s ∈ r.segments ↔ s ∈ r'.segments)
    (hfiles : ∀ name part, part ∈ (r.tables name).files ↔ part ∈ (r'.tables name).files)
    (hhours : ∀ h, h ∈ r.bake.hours ↔ h ∈ r'.bake.hours)
    (hpruned : ∀ p, p ∈ r.pruned ↔ p ∈ r'.pruned) : r = r' := by
  have hsegments := eq_of_members r.consistent.segmentsSorted r'.consistent.segmentsSorted
    hsegments
  have hpruned := eq_of_members r.consistent.prunedSorted r'.consistent.prunedSorted hpruned
  have hhours := eq_of_members r.bake.ordered r'.bake.ordered hhours
  have htables : r.tables = r'.tables := by
    funext name
    have hfiles := eq_of_members (r.consistent.filesSorted name) (r'.consistent.filesSorted name)
      (hfiles name)
    have hrows : (r.tables name).rows = (r'.tables name).rows := by
      rw [(r.tables name).total, (r'.tables name).total, hfiles]
    cases hr : r.tables name with
    | mk rows files total =>
        cases hr' : r'.tables name with
        | mk rows' files' total' =>
            rw [hr, hr'] at hfiles hrows
            dsimp only at hfiles hrows
            subst hfiles
            subst hrows
            rfl
  have hbake : r.bake = r'.bake := by
    cases hr : r.bake with
    | mk hours ordered =>
        cases hr' : r'.bake with
        | mk hours' ordered' =>
            rw [hr, hr'] at hhours
            dsimp only at hhours
            subst hhours
            rfl
  have huptime : r.uptime = r'.uptime := by rw [hd.uptime, hd'.uptime, hdate, hbake]
  have hgaps : r.gaps = r'.gaps := by rw [hd.gaps, hd'.gaps, hbake]
  have haudits : r.audits = r'.audits := by rw [hd.audits, hd'.audits, hbake]
  obtain ⟨d, hchecked⟩ := r
  obtain ⟨d', hchecked'⟩ := r'
  obtain rfl : d = d' := by
    cases d
    cases d'
    dsimp only at *
    subst hdate hversion hsegments htables hbake huptime hgaps haudits hclock hpruned
    rfl
  rfl

/-! ## Replacing an hour -/

theorem withHour_ok {m r : Manifest} {new : BakedHour} {version : String} {offset : Option Int}
    (h : withHour m new version offset = .ok r) :
    (∀ s ∈ new.segments, s.hour = new.bake.hour) ∧
      (∀ name, ∀ part ∈ new.parts name, part.hour = new.bake.hour) ∧
      anyPrunedIn new.bake.hour m.pruned = .ok false ∧
      Assembled r.toManifestData m.date version
        (m.segments.filter (fun s => s.hour ≠ new.bake.hour) ++ new.segments)
        (fun name =>
          (m.tables name).files.filter (fun part => part.hour ≠ new.bake.hour) ++ new.parts name)
        (m.bake.hours.filter (fun entry => entry.hour ≠ new.bake.hour) ++ [new.bake])
        offset m.pruned := by
  rw [withHour] at h
  split at h
  · cases h
  · cases h
  · next hpruned =>
      split at h
      · cases h
      · next hown =>
          rw [not_or] at hown
          refine ⟨fun s hs => ?_, fun name part hpart => ?_, hpruned, assembled_of_ok h⟩
          · by_contra hother
            exact hown.1 ⟨s, hs, hother⟩
          · by_contra hother
            exact hown.2 ⟨name, name.mem_all, part, hpart, hother⟩

/-- The members of a manifest after one hour was replaced. -/
structure Replaced (r m : ManifestData) (new : BakedHour) : Prop where
  segments : ∀ s, s ∈ r.segments ↔
    (s ∈ m.segments ∧ s.hour ≠ new.bake.hour) ∨ s ∈ new.segments
  files : ∀ name part, part ∈ (r.tables name).files ↔
    (part ∈ (m.tables name).files ∧ part.hour ≠ new.bake.hour) ∨ part ∈ new.parts name
  hours : ∀ h, h ∈ r.bake.hours ↔
    (h ∈ m.bake.hours ∧ h.hour ≠ new.bake.hour) ∨ h = new.bake
  pruned : ∀ p, p ∈ r.pruned ↔ p ∈ m.pruned
  segmentsOwn : ∀ s ∈ new.segments, s.hour = new.bake.hour
  filesOwn : ∀ name, ∀ part ∈ new.parts name, part.hour = new.bake.hour

theorem mem_tableEntry {files : List PartEntry} {part : PartEntry} :
    part ∈ (tableEntry files).files ↔ part ∈ files :=
  mem_sortOn

theorem replaced_of_ok {m r : Manifest} {new : BakedHour} {version : String} {offset : Option Int}
    (h : withHour m new version offset = .ok r) :
    Replaced r.toManifestData m.toManifestData new := by
  obtain ⟨hsegments, hparts, -, hr⟩ := withHour_ok h
  refine ⟨fun s => ?_, fun name part => ?_, fun entry => ?_, fun p => ?_, hsegments, hparts⟩
  · rw [hr.segments, mem_sortOn, List.mem_append, List.mem_filter, decide_eq_true_eq]
  · rw [hr.tables, mem_tableEntry, List.mem_append, List.mem_filter, decide_eq_true_eq]
  · rw [hr.hours, mem_sortOn, List.mem_append, List.mem_filter, decide_eq_true_eq,
      List.mem_singleton]
  · rw [hr.pruned, mem_sortOn]

/-- Membership after two hours were replaced, whichever came first. -/
theorem replaced_comm {old ofA ofB newA newB : Prop} (hA : newA → ofA) (hB : newB → ofB)
    (hapart : ofA → ¬ ofB) :
    (((old ∧ ¬ ofA) ∨ newA) ∧ ¬ ofB) ∨ newB ↔ (((old ∧ ¬ ofB) ∨ newB) ∧ ¬ ofA) ∨ newA := by
  have hapart' : ofB → ¬ ofA := fun hb ha => hapart ha hb
  constructor
  · rintro (⟨⟨hold, ha⟩ | hnew, hb⟩ | hnew)
    · exact .inl ⟨.inl ⟨hold, hb⟩, ha⟩
    · exact .inr hnew
    · exact .inl ⟨.inr hnew, hapart' (hB hnew)⟩
  · rintro (⟨⟨hold, hb⟩ | hnew, ha⟩ | hnew)
    · exact .inl ⟨.inl ⟨hold, ha⟩, hb⟩
    · exact .inr hnew
    · exact .inl ⟨.inr hnew, hapart (hA hnew)⟩

/-- Two hours replaced in either order. -/
theorem withHour_comm {m m₁ m₂ m₁₂ m₂₁ : Manifest} {a b : BakedHour} {version : String}
    {offset : Option Int} (hne : a.bake.hour ≠ b.bake.hour)
    (h₁ : withHour m a version offset = .ok m₁) (h₁₂ : withHour m₁ b version offset = .ok m₁₂)
    (h₂ : withHour m b version offset = .ok m₂) (h₂₁ : withHour m₂ a version offset = .ok m₂₁) :
    m₁₂ = m₂₁ := by
  have r₁ := replaced_of_ok h₁
  have r₂ := replaced_of_ok h₂
  have r₁₂ := replaced_of_ok h₁₂
  have r₂₁ := replaced_of_ok h₂₁
  obtain ⟨-, -, -, d₁⟩ := withHour_ok h₁
  obtain ⟨-, -, -, d₂⟩ := withHour_ok h₂
  obtain ⟨-, -, -, d₁₂⟩ := withHour_ok h₁₂
  obtain ⟨-, -, -, d₂₁⟩ := withHour_ok h₂₁
  -- an entry of one bake's hour is not of the other's
  have hapart : ∀ x : Int, x = a.bake.hour → ¬ x = b.bake.hour := fun x hx => hx ▸ hne
  refine eq_of_same d₁₂.derived d₂₁.derived ?_ ?_ ?_ (fun s => ?_) (fun name part => ?_)
    (fun entry => ?_) fun p => ?_
  · rw [d₁₂.date, d₂₁.date, d₁.date, d₂.date]
  · rw [d₁₂.softwareVersion, d₂₁.softwareVersion]
  · rw [d₁₂.chronyOffsetMs, d₂₁.chronyOffsetMs]
  · rw [r₁₂.segments, r₂₁.segments, r₁.segments, r₂.segments]
    exact replaced_comm (r₁.segmentsOwn s) (r₂.segmentsOwn s) (hapart s.hour)
  · rw [r₁₂.files, r₂₁.files, r₁.files, r₂.files]
    exact replaced_comm (r₁.filesOwn name part) (r₂.filesOwn name part) (hapart part.hour)
  · rw [r₁₂.hours, r₂₁.hours, r₁.hours, r₂.hours]
    exact replaced_comm (fun h => congrArg HourBake.hour h) (fun h => congrArg HourBake.hour h)
      (hapart entry.hour)
  · rw [r₁₂.pruned, r₂₁.pruned, r₁.pruned, r₂.pruned]

/-- One bake taken twice. -/
theorem withHour_twice {m m₁ m₂ : Manifest} {a : BakedHour} {version : String}
    {offset : Option Int} (h₁ : withHour m a version offset = .ok m₁)
    (h₂ : withHour m₁ a version offset = .ok m₂) : m₂ = m₁ := by
  have r₁ := replaced_of_ok h₁
  have r₂ := replaced_of_ok h₂
  obtain ⟨-, -, -, d₁⟩ := withHour_ok h₁
  obtain ⟨-, -, -, d₂⟩ := withHour_ok h₂
  refine eq_of_same d₂.derived d₁.derived ?_ ?_ ?_ (fun s => ?_) (fun name part => ?_)
    (fun entry => ?_) fun p => ?_
  · rw [d₂.date]
  · rw [d₂.softwareVersion, d₁.softwareVersion]
  · rw [d₂.chronyOffsetMs, d₁.chronyOffsetMs]
  · rw [r₂.segments, r₁.segments]
    tauto
  · rw [r₂.files, r₁.files]
    tauto
  · rw [r₂.hours, r₁.hours]
    tauto
  · rw [r₂.pruned]

/-! ## Pruning -/

theorem get?_recordPruned (d : Dict String PrunedSegment) (q : PrunedSegment) (path : String) :
    (recordPruned d q).get? path =
      (d.get? path).or (if q.path = path then some q else none) := by
  rw [recordPruned]
  split
  · next old hold =>
      split
      · next hpath =>
          rw [← hpath, hold]
          rfl
      · rw [Option.or_none]
  · next hnone =>
      rw [Dict.get?_set]
      split
      · next hpath =>
          rw [← hpath, hnone]
          rfl
      · rw [Option.or_none]

theorem get?_recorded (new : List PrunedSegment) (d : Dict String PrunedSegment)
    (path : String) :
    (new.foldl recordPruned d).get? path =
      (d.get? path).or (new.find? fun q => q.path = path) := by
  induction new generalizing d with
  | nil => rw [List.foldl_nil, List.find?_nil, Option.or_none]
  | cons q new ih =>
      rw [List.foldl_cons, ih, get?_recordPruned, Option.or_assoc, List.find?_cons]
      by_cases hpath : q.path = path
      · rw [if_pos hpath, decide_eq_true hpath]
        rfl
      · rw [if_neg hpath, decide_eq_false hpath]
        rfl

/-- The records of a manifest, by path. -/
def recordedIn (old : List PrunedSegment) : Dict String PrunedSegment :=
  old.foldl (fun d entry => d.set entry.path entry) ∅

theorem get?_recordedIn {old : List PrunedSegment}
    (h : SortedUnique (old.map PrunedSegment.path)) {path : String} {p : PrunedSegment} :
    (recordedIn old).get? path = some p ↔ p ∈ old ∧ p.path = path := by
  have hset : ∀ (d : Dict String PrunedSegment) (q : PrunedSegment),
      d.set q.path q = (some q).elim d (d.set q.path) := fun d q => rfl
  have hn : (old.map PrunedSegment.path).Nodup :=
    (sortedUnique_iff.mp h).imp fun hlt => ne_of_lt hlt
  rw [recordedIn, Dict.get?_foldl_set hset hn fun _ _ => Dict.get?_empty _, Dict.get?_empty]
  constructor
  · rintro (h | ⟨q, hq, hpath, hsome⟩)
    · cases h
    · obtain rfl := Option.some.inj hsome
      exact ⟨hq, hpath⟩
  · exact fun h => .inr ⟨p, h.1, h.2, rfl⟩

theorem get?_recordedIn_eq_none {old : List PrunedSegment}
    (h : SortedUnique (old.map PrunedSegment.path)) {path : String} :
    (recordedIn old).get? path = none ↔ path ∉ old.map PrunedSegment.path := by
  rw [Option.eq_none_iff_forall_ne_some, List.mem_map]
  constructor
  · rintro hnone ⟨p, hp, hpath⟩
    exact hnone p ((get?_recordedIn h).mpr ⟨hp, hpath⟩)
  · intro hnone p hp
    obtain ⟨hmem, hpath⟩ := (get?_recordedIn h).mp hp
    exact hnone ⟨p, hmem, hpath⟩

/-- The first record of each segment: one recorded already, or the first of the
new ones. -/
theorem mem_recorded {old new : List PrunedSegment}
    (hold : SortedUnique (old.map PrunedSegment.path)) {p : PrunedSegment} :
    p ∈ (new.foldl recordPruned (recordedIn old)).values ↔
      p ∈ old ∨ p.path ∉ old.map PrunedSegment.path ∧
        new.find? (fun q => q.path = p.path) = some p := by
  have hget : ∀ path, (new.foldl recordPruned (recordedIn old)).get? path = some p ↔
      (p ∈ old ∧ p.path = path) ∨
        path ∉ old.map PrunedSegment.path ∧ new.find? (fun q => q.path = path) = some p := by
    intro path
    rw [get?_recorded, Option.or_eq_some_iff, get?_recordedIn hold, get?_recordedIn_eq_none hold]
  have hkey : ∀ path, (new.foldl recordPruned (recordedIn old)).get? path = some p →
      p.path = path := by
    intro path h
    rcases (hget path).mp h with h | h
    · exact h.2
    · exact of_decide_eq_true (List.find?_eq_some_iff_append.mp h.2).1
  have hvalues : p ∈ (new.foldl recordPruned (recordedIn old)).values ↔
      (new.foldl recordPruned (recordedIn old)).get? p.path = some p := by
    constructor
    · intro h
      obtain ⟨e, he, rfl⟩ := List.mem_map.mp h
      have hsome := Dict.get?_eq_some_iff.mpr he
      rw [hkey e.1 hsome]
      exact hsome
    · exact fun h => List.mem_map.mpr ⟨_, Dict.get?_eq_some_iff.mp h, rfl⟩
  rw [hvalues, hget, and_iff_left rfl]

theorem withPruned_ok {m r : Manifest} {new : List PrunedSegment}
    (h : withPruned m new = .ok r) :
    Assembled r.toManifestData m.date m.softwareVersion m.segments
      (fun name => (m.tables name).files) m.bake.hours m.chronyOffsetMs
      (new.foldl recordPruned (recordedIn m.pruned)).values :=
  assembled_of_ok h

/-- The members of a manifest after segments were recorded as pruned. -/
structure Recorded (r m : ManifestData) (new : List PrunedSegment) : Prop where
  segments : ∀ s, s ∈ r.segments ↔ s ∈ m.segments
  files : ∀ name part, part ∈ (r.tables name).files ↔ part ∈ (m.tables name).files
  hours : ∀ h, h ∈ r.bake.hours ↔ h ∈ m.bake.hours
  pruned : ∀ p, p ∈ r.pruned ↔
    p ∈ m.pruned ∨ p.path ∉ m.pruned.map PrunedSegment.path ∧
      new.find? (fun q => q.path = p.path) = some p

theorem recorded_of_ok {m r : Manifest} {new : List PrunedSegment}
    (h : withPruned m new = .ok r) : Recorded r.toManifestData m.toManifestData new := by
  have hr := withPruned_ok h
  refine ⟨fun s => ?_, fun name part => ?_, fun entry => ?_, fun p => ?_⟩
  · rw [hr.segments, mem_sortOn]
  · rw [hr.tables, mem_tableEntry]
  · rw [hr.hours, mem_sortOn]
  · rw [hr.pruned, mem_sortOn, mem_recorded m.consistent.prunedSorted]

theorem Recorded.paths {r m : ManifestData} {new : List PrunedSegment} (h : Recorded r m new)
    {q : PrunedSegment} (hq : q ∈ new) : q.path ∈ r.pruned.map PrunedSegment.path := by
  by_cases hold : q.path ∈ m.pruned.map PrunedSegment.path
  · obtain ⟨p, hp, hpath⟩ := List.mem_map.mp hold
    exact List.mem_map.mpr ⟨p, (h.pruned p).mpr (.inl hp), hpath⟩
  · cases hfind : new.find? (fun q' => q'.path = q.path) with
    | none => exact absurd (decide_eq_true rfl) (List.find?_eq_none.mp hfind q hq)
    | some p =>
        have hpath : p.path = q.path :=
          of_decide_eq_true (List.find?_eq_some_iff_append.mp hfind).1
        refine List.mem_map.mpr ⟨p, (h.pruned p).mpr (.inr ⟨hpath ▸ hold, ?_⟩), hpath⟩
        rw [hpath]
        exact hfind

/-- Segments recorded twice. -/
theorem withPruned_twice {m m₁ m₂ : Manifest} {new : List PrunedSegment}
    (h₁ : withPruned m new = .ok m₁) (h₂ : withPruned m₁ new = .ok m₂) : m₂ = m₁ := by
  have r₁ := recorded_of_ok h₁
  have r₂ := recorded_of_ok h₂
  have d₁ := withPruned_ok h₁
  have d₂ := withPruned_ok h₂
  refine eq_of_same d₂.derived d₁.derived d₂.date d₂.softwareVersion d₂.chronyOffsetMs
    r₂.segments r₂.files r₂.hours fun p => ?_
  rw [r₂.pruned]
  constructor
  · rintro (h | ⟨hnew, hfind⟩)
    · exact h
    · exact absurd (r₁.paths (List.mem_of_find?_eq_some hfind)) hnew
  · exact .inl

/-- Pruning and the bake of an hour, in either order. -/
theorem withPruned_withHour_comm {m m₁ m₂ m₁₂ m₂₁ : Manifest} {a : BakedHour} {version : String}
    {offset : Option Int} {new : List PrunedSegment} (h₁ : withPruned m new = .ok m₁)
    (h₁₂ : withHour m₁ a version offset = .ok m₁₂) (h₂ : withHour m a version offset = .ok m₂)
    (h₂₁ : withPruned m₂ new = .ok m₂₁) : m₁₂ = m₂₁ := by
  have r₁ := recorded_of_ok h₁
  have r₁₂ := replaced_of_ok h₁₂
  have r₂ := replaced_of_ok h₂
  have r₂₁ := recorded_of_ok h₂₁
  have d₁ := withPruned_ok h₁
  obtain ⟨-, -, -, d₁₂⟩ := withHour_ok h₁₂
  obtain ⟨-, -, -, d₂⟩ := withHour_ok h₂
  have d₂₁ := withPruned_ok h₂₁
  have hpaths : ∀ path, path ∈ m₂.pruned.map PrunedSegment.path ↔
      path ∈ m.pruned.map PrunedSegment.path := by
    intro path
    rw [List.mem_map, List.mem_map]
    simp only [r₂.pruned]
  refine eq_of_same d₁₂.derived d₂₁.derived ?_ ?_ ?_ (fun s => ?_) (fun name part => ?_)
    (fun entry => ?_) fun p => ?_
  · rw [d₁₂.date, d₂₁.date, d₁.date, d₂.date]
  · rw [d₁₂.softwareVersion, d₂₁.softwareVersion, d₂.softwareVersion]
  · rw [d₁₂.chronyOffsetMs, d₂₁.chronyOffsetMs, d₂.chronyOffsetMs]
  · rw [r₁₂.segments, r₂₁.segments, r₁.segments, r₂.segments]
  · rw [r₁₂.files, r₂₁.files, r₁.files, r₂.files]
  · rw [r₁₂.hours, r₂₁.hours, r₁.hours, r₂.hours]
  · rw [r₁₂.pruned, r₂₁.pruned, r₁.pruned, r₂.pruned, hpaths]

/-! ## The laws -/

theorem anyPrunedIn_ok_false {hour : Int} {pruned : List PrunedSegment}
    (h : anyPrunedIn hour pruned = .ok false) :
    ∀ p ∈ pruned, ∀ date hour', segmentHour p.path = .ok (date, hour') → (hour' : Int) ≠ hour := by
  induction pruned with
  | nil => exact nofun
  | cons q rest ih =>
      rw [anyPrunedIn] at h
      split at h
      · cases h
      · next date hour' hq =>
          split at h
          · cases h
          · next hother =>
              intro p hp date' hour'' hplace
              rcases List.mem_cons.mp hp with rfl | hp
              · rw [hq] at hplace
                obtain ⟨-, rfl⟩ := Prod.mk.inj (Except.ok.inj hplace)
                exact hother
              · exact ih h p hp date' hour'' hplace

/-- An hour with a pruned segment is not baked again. -/
theorem withHour_of_pruned {m : Manifest} {new : BakedHour} (version : String)
    (offset : Option Int) {p : PrunedSegment} (hp : p ∈ m.pruned) {s : SegmentEntry}
    (hs : s ∈ m.segments) (hpath : s.path = p.path) (hhour : s.hour = new.bake.hour) :
    ∃ e, withHour m new version offset = .error e := by
  cases h : withHour m new version offset with
  | error e => exact ⟨e, rfl⟩
  | ok r =>
      obtain ⟨-, -, hnone, -⟩ := withHour_ok h
      obtain ⟨⟨hour, hplace, hsame⟩, -⟩ := m.consistent.segmentsPlaced s hs
      rw [hpath] at hplace
      exact absurd (hsame.trans hhour) (anyPrunedIn_ok_false hnone p hp _ hour hplace)

/-- What the bake of one hour leaves and what it brings. -/
structure KeepsOthers (r m : ManifestData) (new : BakedHour) : Prop where
  segmentsKept : r.segments.filter (fun s => s.hour ≠ new.bake.hour) =
    m.segments.filter fun s => s.hour ≠ new.bake.hour
  segmentsNew : (r.segments.filter fun s => s.hour = new.bake.hour).Perm new.segments
  filesKept : ∀ name, (r.tables name).files.filter (fun part => part.hour ≠ new.bake.hour) =
    (m.tables name).files.filter fun part => part.hour ≠ new.bake.hour
  filesNew : ∀ name,
    ((r.tables name).files.filter fun part => part.hour = new.bake.hour).Perm (new.parts name)
  hoursKept : r.bake.hours.filter (fun entry => entry.hour ≠ new.bake.hour) =
    m.bake.hours.filter fun entry => entry.hour ≠ new.bake.hour
  hoursNew : (r.bake.hours.filter fun entry => entry.hour = new.bake.hour).Perm [new.bake]

theorem keepsOthers_of_ok {m r : Manifest} {new : BakedHour} {version : String}
    {offset : Option Int} (h : withHour m new version offset = .ok r) :
    KeepsOthers r.toManifestData m.toManifestData new := by
  obtain ⟨hsegments, hparts, -, hr⟩ := withHour_ok h
  have hkeptSegments := kept_of_replaced m.consistent.segmentsSorted r.consistent.segmentsSorted
    hsegments hr.segments
  have hkeptFiles := fun name =>
    kept_of_replaced (m.consistent.filesSorted name) (r.consistent.filesSorted name)
      (hparts name) (congrArg TableEntry.files (hr.tables name))
  have hbake : ∀ entry ∈ [new.bake], entry.hour = new.bake.hour := by
    intro entry hentry
    rw [List.mem_singleton.mp hentry]
  have hkeptHours := kept_of_replaced m.bake.ordered r.bake.ordered hbake hr.hours
  exact ⟨hkeptSegments.1, hkeptSegments.2, fun name => (hkeptFiles name).1,
    fun name => (hkeptFiles name).2, hkeptHours.1, hkeptHours.2⟩

/-- The laws of merging: whatever none of the steps refuses. -/
theorem merging_laws (m : Manifest) :
    (∀ (a b : BakedHour) version offset m₁ m₁₂ m₂ m₂₁, a.bake.hour ≠ b.bake.hour →
      withHour m a version offset = .ok m₁ → withHour m₁ b version offset = .ok m₁₂ →
      withHour m b version offset = .ok m₂ → withHour m₂ a version offset = .ok m₂₁ →
      m₁₂ = m₂₁) ∧
    (∀ a version offset m₁ m₂, withHour m a version offset = .ok m₁ →
      withHour m₁ a version offset = .ok m₂ → m₂ = m₁) ∧
    (∀ a version offset r, withHour m a version offset = .ok r →
      KeepsOthers r.toManifestData m.toManifestData a ∧
        r.toManifestData.postInit = .ok () ∧ Derived r.toManifestData) ∧
    (∀ new m₁ m₂, withPruned m new = .ok m₁ → withPruned m₁ new = .ok m₂ → m₂ = m₁) ∧
    (∀ new r, withPruned m new = .ok r →
      (∀ p, p ∈ r.pruned ↔ p ∈ m.pruned ∨ p.path ∉ m.pruned.map PrunedSegment.path ∧
        new.find? (fun q => q.path = p.path) = some p) ∧
        r.toManifestData.postInit = .ok () ∧ Derived r.toManifestData) ∧
    (∀ a version offset new m₁ m₁₂ m₂ m₂₁, withPruned m new = .ok m₁ →
      withHour m₁ a version offset = .ok m₁₂ → withHour m a version offset = .ok m₂ →
      withPruned m₂ new = .ok m₂₁ → m₁₂ = m₂₁) ∧
    ∀ (a : BakedHour) version offset, ∀ p ∈ m.pruned, ∀ s ∈ m.segments, s.path = p.path →
      s.hour = a.bake.hour → ∃ e, withHour m a version offset = .error e := by
  refine ⟨fun _ _ _ _ _ _ _ _ hne h₁ h₁₂ h₂ h₂₁ => withHour_comm hne h₁ h₁₂ h₂ h₂₁,
    fun _ _ _ _ _ h₁ h₂ => withHour_twice h₁ h₂, fun a version offset r h => ?_,
    fun _ _ _ h₁ h₂ => withPruned_twice h₁ h₂, fun new r h => ?_,
    fun _ _ _ _ _ _ _ _ h₁ h₁₂ h₂ h₂₁ => withPruned_withHour_comm h₁ h₁₂ h₂ h₂₁,
    fun a version offset p hp s hs hpath hhour =>
      withHour_of_pruned version offset hp hs hpath hhour⟩
  · obtain ⟨-, -, -, hr⟩ := withHour_ok h
    exact ⟨keepsOthers_of_ok h, r.checked, hr.derived⟩
  · exact ⟨(recorded_of_ok h).pruned, r.checked, (withPruned_ok h).derived⟩

/-- A day with nothing baked. -/
def emptyDay : Manifest where
  date := Date.epoch
  softwareVersion := "1"
  segments := []
  tables := fun _ => tableEntry []
  bake := ⟨[], by decide⟩
  uptime := ⟨0, 86400, (0, 86400)⟩
  gaps := summarizeGaps []
  audits := summarizeAudits []
  chronyOffsetMs := none
  pruned := []
  checked := by decide

/-- A connection of three seconds from the epoch on. -/
def threeSeconds : ConnectionSpan := ⟨1, 0, 3000000000, true, false, by decide⟩

/-- An hour with one segment and one part of the deltas. -/
def bakedHour (hour : Int) (segment part : String) : BakedHour where
  bake := spanHour hour threeSeconds
  segments := [⟨segment, hour, 10, "aa", 1, none, none, false⟩]
  parts
    | .deltas => [⟨part, hour, 1, 5, "bb"⟩]
    | _ => []

theorem exists_two {m : Manifest} {a b : BakedHour}
    (h : ((withHour m a "1" none).bind fun m₁ => withHour m₁ b "1" none).isOk = true) :
    ∃ m₁ m₂, withHour m a "1" none = .ok m₁ ∧ withHour m₁ b "1" none = .ok m₂ := by
  cases h₁ : withHour m a "1" none with
  | error e =>
      rw [h₁] at h
      cases h
  | ok m₁ =>
      rw [h₁] at h
      cases h₂ : withHour m₁ b "1" none with
      | error e =>
          have hbind : (withHour m₁ b "1" none).isOk = true := h
          rw [h₂] at hbind
          cases hbind
      | ok m₂ => exact ⟨m₁, m₂, rfl, h₂⟩

theorem merging_emptyDay :
    ∃ m₁ m₁₂ m₂,
      withHour emptyDay (bakedHour 0 "1970-01-01/00/conn-01.tape.zst"
        "deltas/dt=1970-01-01/hour=00/part-0.parquet") "1" none = .ok m₁ ∧
      withHour m₁ (bakedHour 1 "1970-01-01/01/conn-01.tape.zst"
        "deltas/dt=1970-01-01/hour=01/part-0.parquet") "1" none = .ok m₁₂ ∧
      withHour m₂ (bakedHour 0 "1970-01-01/00/conn-01.tape.zst"
        "deltas/dt=1970-01-01/hour=00/part-0.parquet") "1" none = .ok m₁₂ := by
  obtain ⟨m₁, m₁₂, h₁, h₁₂⟩ := @exists_two emptyDay
    (bakedHour 0 "1970-01-01/00/conn-01.tape.zst" "deltas/dt=1970-01-01/hour=00/part-0.parquet")
    (bakedHour 1 "1970-01-01/01/conn-01.tape.zst" "deltas/dt=1970-01-01/hour=01/part-0.parquet")
    (by decide +kernel)
  obtain ⟨m₂, m₂₁, h₂, h₂₁⟩ := @exists_two emptyDay
    (bakedHour 1 "1970-01-01/01/conn-01.tape.zst" "deltas/dt=1970-01-01/hour=01/part-0.parquet")
    (bakedHour 0 "1970-01-01/00/conn-01.tape.zst" "deltas/dt=1970-01-01/hour=00/part-0.parquet")
    (by decide +kernel)
  have hsame := (merging_laws emptyDay).1 _ _ _ _ _ _ _ _ (by decide) h₁ h₁₂ h₂ h₂₁
  exact ⟨m₁, m₁₂, m₂, h₁, h₁₂, hsame ▸ h₂₁⟩

end Tape.Bake
