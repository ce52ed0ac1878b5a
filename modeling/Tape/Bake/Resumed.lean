import Tape.Bake.Ready

/-!
# A prune that was interrupted

`survey` and `apply` on an archive that nothing else changes meanwhile, step by
step: for each day the record of its deletions, and then these one by one. A run
may end after any of the steps.

What an interrupted run leaves is the disk before it, with some of the segments
of hours that are ready recorded as pruned, and some of those gone
(`PartlyPruned`). No step leaves that: an hour is ready on such a
disk exactly if it was ready on the whole one, since a recorded segment need not
be there any more. So the next run goes on where the last one stopped, and the
one that ends leaves what one uninterrupted run would have left.
-/

namespace Tape.Bake

open Run

/-! ## The steps -/

/-- What a prune does to the disk, one step at a time. -/
inductive ApplyStep where
  | record (m : Manifest)
  | perform (op : FileOp)

namespace Disk

/-- One step of a prune. -/
def applyStep (d : Disk) : ApplyStep → Disk
  | .record m => d.writeManifest m
  | .perform op => d.perform op

/-- The steps of `apply`, up to a day that raises; the clock is read once a day. -/
def applySteps (prunedWallNs : Date → Int) (d : Disk) :
    List (Date × List PruneDecision) → List ApplyStep
  | [] => []
  | (date, decisions) :: days =>
      match d.pruneDay date decisions (prunedWallNs date) with
      | none => []
      | some (m, ops) =>
          .record m :: ops.map .perform ++
            applySteps prunedWallNs ((d.writeManifest m).performAll ops) days

/-- The steps of `survey` and `apply`. -/
def pruneSteps (d : Disk) (o : PruneOptions) (prunedWallNs : Date → Int) : List ApplyStep :=
  match d.archive.survey o with
  | .error _ => []
  | .ok decisions => d.applySteps prunedWallNs (pruneDays decisions)

end Disk

/-- A run of the prune, which ends after some number of its steps. -/
structure PruneRun where
  o : PruneOptions
  prunedWallNs : Date → Int
  done : Nat

/-- The disk after a run of the prune, as far as it came. -/
def Disk.pruned (d : Disk) (run : PruneRun) : Disk :=
  final Disk.applyStep d ((d.pruneSteps run.o run.prunedWallNs).take run.done)

/-! ## What an interrupted run leaves -/

/-- A file of an hour that is ready. -/
structure Disk.Deletable (d : Disk) (o : PruneOptions) (hour : HourKey) (name : String)
    (file : File) : Prop where
  surveyed : hour ∈ d.hourDirs
  ready : d.IsReady o hour
  named : name ∈ d.segmentFiles hour
  file : d.segments.get? name = some file

/-- A manifest with more segments recorded as pruned. -/
structure Manifest.MorePruned (m m' : Manifest) : Prop where
  segments : ∀ s, s ∈ m'.segments ↔ s ∈ m.segments
  files : ∀ name part, part ∈ (m'.tables name).files ↔ part ∈ (m.tables name).files
  hours : ∀ h, h ∈ m'.bake.hours ↔ h ∈ m.bake.hours
  kept : ∀ p ∈ m.pruned, p ∈ m'.pruned

/-- Some segments of hours that are ready are recorded, and some of those gone. -/
structure Disk.PartlyPruned (o : PruneOptions) (d d' : Disk) : Prop where
  parts : d'.parts = d.parts
  dirs : ∀ hour ∈ d'.hourDirs, hour ∈ d.hourDirs
  emptied : ∀ hour ∈ d.hourDirs, hour ∉ d'.hourDirs → d'.segmentFiles hour = []
  segments : ∀ name, d'.segments.get? name = d.segments.get? name ∨
    d'.segments.get? name = none ∧ ∃ hour file, d.Deletable o hour name file ∧
      ListsPruned (d'.manifest hour.date) name file
  unbaked : ∀ date, d.manifest date = none → d'.manifest date = none
  manifest : ∀ date m, d.manifest date = some m → ∃ m', d'.manifest date = some m' ∧
    m.MorePruned m' ∧ ∀ p ∈ m'.pruned, p ∈ m.pruned ∨
      ∃ hour, hour.date = date ∧ d.Deletable o hour p.path ⟨p.bytes, p.sha256⟩

section

variable {d d' c : Disk} {o o' : PruneOptions} {hour : HourKey} {name : String} {file : File}
  {run : PruneRun}

/-- The clock has not gone back, and the settings are the same. -/
structure PruneOptions.Before (o o' : PruneOptions) : Prop where
  retention : o.retentionHours = o'.retentionHours
  version : o.bakeVersion = o'.bakeVersion
  now : o.nowWallNs ≤ o'.nowWallNs

theorem Disk.IsReady.mono (h : d.IsReady o hour) (hle : o.Before o') : d.IsReady o' hour := by
  obtain ⟨m, hm⟩ := h
  refine ⟨m, { hm with ended := ?_, baked := ?_ }⟩
  · rw [← hle.retention]
    exact hm.ended.mono hle.now
  · rw [← hle.version]
    exact hm.baked

/-- A file is a segment of one hour. -/
theorem hour_unique {hour' : HourKey} (h : isSegmentOf hour name = true)
    (h' : isSegmentOf hour' name = true) : hour = hour' :=
  hourDir_apart (isUnder_of_isSegmentOf h) (isUnder_of_isSegmentOf h')

namespace Disk.PartlyPruned

theorem refl (o : PruneOptions) (d : Disk) : d.PartlyPruned o d where
  parts := rfl
  dirs _ h := h
  emptied _ h hnot := absurd h hnot
  segments _ := .inl rfl
  unbaked _ h := h
  manifest _ m h := ⟨m, h, ⟨fun _ => .rfl, fun _ _ => .rfl, fun _ => .rfl, fun _ hp => hp⟩,
    fun _ hp => .inl hp⟩

/-- A segment that is still there is as it was. -/
theorem get?_eq (h : d.PartlyPruned o d') (hfile : d'.segments.get? name = some file) :
    d.segments.get? name = some file := by
  rcases h.segments name with hsame | ⟨hgone, -⟩
  · rw [← hsame]
    exact hfile
  · rw [hfile] at hgone
    cases hgone

theorem mem_segmentFiles (h : d.PartlyPruned o d') (hname : name ∈ d'.segmentFiles hour) :
    name ∈ d.segmentFiles hour := by
  obtain ⟨hkey, hown⟩ := Disk.mem_segmentFiles.mp hname
  obtain ⟨file, hfile⟩ := Dict.mem_keys_iff.mp hkey
  exact Disk.mem_segmentFiles.mpr ⟨Dict.mem_keys_of_get? (h.get?_eq hfile), hown⟩

/-- Hours ready before are ready still: what is gone was recorded. -/
theorem isReady_of_isReady (h : d.PartlyPruned o d') (hready : d.IsReady o hour) :
    d'.IsReady o hour := by
  obtain ⟨m, hm⟩ := hready
  obtain ⟨m', hm', hmore, -⟩ := h.manifest _ m hm.manifest
  refine ⟨m', hm', hm.ended, ?_, fun name hname => ?_, fun e he hown => ?_,
    fun name e he hown => ?_⟩
  · obtain ⟨entry, hentry, hbaked⟩ := hm.baked
    exact ⟨entry, (hmore.hours entry).mpr hentry, hbaked⟩
  · obtain ⟨e, he, hown, hpath, hget⟩ := hm.onDisk name (h.mem_segmentFiles hname)
    obtain ⟨file, hfile⟩ := Dict.mem_keys_iff.mp (Disk.mem_segmentFiles.mp hname).1
    refine ⟨e, (hmore.segments e).mpr he, hown, hpath, ?_⟩
    rw [hfile, ← h.get?_eq hfile]
    exact hget
  · rcases hm.listed e ((hmore.segments e).mp he) hown with hthere | hpruned
    · obtain ⟨hkey, hofHour⟩ := Disk.mem_segmentFiles.mp hthere
      rcases h.segments e.path with hsame | ⟨-, hour', file, hdel, m'', hm'', p, hp, hpath, -⟩
      · left
        refine Disk.mem_segmentFiles.mpr ⟨?_, hofHour⟩
        rw [Dict.mem_keys_iff, hsame]
        exact Dict.mem_keys_iff.mp hkey
      · right
        obtain rfl := hour_unique hofHour (Disk.mem_segmentFiles.mp hdel.named).2
        obtain rfl := Option.some.inj (hm'.symm.trans hm'')
        exact List.mem_map.mpr ⟨p, hp, hpath⟩
    · right
      obtain ⟨p, hp, hpath⟩ := List.mem_map.mp hpruned
      exact List.mem_map.mpr ⟨p, hmore.kept p hp, hpath⟩
  · rw [h.parts]
    exact hm.parts name e ((hmore.files name e).mp he) hown

/-- Hours that are ready now were ready before: either the hour is as it was, or
something of it was recorded, which is done for a ready hour only. -/
theorem isReady_before (h : d.PartlyPruned o d') (hready : d'.IsReady o hour) :
    d.IsReady o hour := by
  by_cases hdone : ∃ name file, d.Deletable o hour name file
  · obtain ⟨name, file, hdel⟩ := hdone
    exact hdel.ready
  · obtain ⟨m', hm'⟩ := hready
    cases hbefore : d.manifest hour.date with
    | none =>
        have hnone := h.unbaked _ hbefore
        rw [hm'.manifest] at hnone
        cases hnone
    | some m =>
        obtain ⟨m'', hm'', hmore, hpruned⟩ := h.manifest _ m hbefore
        obtain rfl := Option.some.inj (hm'.manifest.symm.trans hm'')
        refine ⟨m, hbefore, hm'.ended, ?_, fun name hname => ?_, fun e he hown => ?_,
          fun name e he hown => ?_⟩
        · obtain ⟨entry, hentry, hbaked⟩ := hm'.baked
          exact ⟨entry, (hmore.hours entry).mp hentry, hbaked⟩
        · obtain ⟨hkey, hofHour⟩ := Disk.mem_segmentFiles.mp hname
          rcases h.segments name with hsame | ⟨-, hour', file, hdel, -⟩
          · have hname' : name ∈ d'.segmentFiles hour := by
              refine Disk.mem_segmentFiles.mpr ⟨?_, hofHour⟩
              rw [Dict.mem_keys_iff, hsame]
              exact Dict.mem_keys_iff.mp hkey
            obtain ⟨e, he, hown, hpath, hget⟩ := hm'.onDisk name hname'
            exact ⟨e, (hmore.segments e).mp he, hown, hpath, hsame ▸ hget⟩
          · obtain rfl := hour_unique hofHour (Disk.mem_segmentFiles.mp hdel.named).2
            exact absurd ⟨name, file, hdel⟩ hdone
        · rcases hm'.listed e ((hmore.segments e).mpr he) hown with hthere | hin
          · exact .inl (h.mem_segmentFiles hthere)
          · obtain ⟨p, hp, hpath⟩ := List.mem_map.mp hin
            rcases hpruned p hp with hold | ⟨hour', hdate, hdel⟩
            · exact .inr (List.mem_map.mpr ⟨p, hold, hpath⟩)
            · obtain ⟨m₂, hm₂⟩ := hdel.ready
              obtain ⟨e', he', hown', hpath', -⟩ := hm₂.onDisk p.path hdel.named
              have hsome := hm₂.manifest
              rw [hdate, hbefore] at hsome
              obtain rfl := Option.some.inj hsome
              obtain rfl : e' = e := eq_of_key m.consistent.segmentsSorted he' he
                (hpath'.trans hpath)
              obtain rfl : hour' = hour := by
                have hsame : hour'.hour = hour.hour := Int.ofNat_inj.mp (hown'.symm.trans hown)
                cases hour'
                cases hour
                cases hdate
                cases hsame
                rfl
              exact absurd ⟨p.path, _, hdel⟩ hdone
        · rw [← h.parts]
          exact hm'.parts name e ((hmore.files name e).mpr he) hown

theorem isReady_iff (h : d.PartlyPruned o d') : d'.IsReady o hour ↔ d.IsReady o hour :=
  ⟨h.isReady_before, h.isReady_of_isReady⟩

/-- A deletion that may be recorded. -/
theorem record (h : d.PartlyPruned o c) {m m' : Manifest} {new : List PrunedSegment}
    (hm : c.manifest m'.date = some m) (hmade : withPruned m new = .ok m')
    (hnew : ∀ p ∈ new, ∃ hour, hour.date = m'.date ∧
      d.Deletable o hour p.path ⟨p.bytes, p.sha256⟩) :
    d.PartlyPruned o (c.writeManifest m') := by
  have hmembers := recorded_of_ok hmade
  have hkept : ∀ p ∈ m.pruned, p ∈ m'.pruned := fun p hp => (hmembers.pruned p).mpr (.inl hp)
  have hwritten : ∀ date, (c.writeManifest m').manifest date =
      if date = m'.date then some m' else c.manifest date :=
    fun date => Function.update_apply _ _ _ _
  refine ⟨h.parts, h.dirs, h.emptied, fun name => ?_, fun date hnone => ?_,
    fun date before hbefore => ?_⟩
  · refine (h.segments name).imp_right fun ⟨hgone, hour, file, hdel, m₁, hm₁, p, hp, hrecord⟩ => ?_
    refine ⟨hgone, hour, file, hdel, ?_⟩
    rw [hwritten]
    split
    · next hdate =>
        rw [hdate, hm] at hm₁
        obtain rfl := Option.some.inj hm₁
        exact ⟨m', rfl, p, hkept p hp, hrecord⟩
    · exact ⟨m₁, hm₁, p, hp, hrecord⟩
  · rw [hwritten, if_neg]
    · exact h.unbaked date hnone
    · rintro rfl
      rw [h.unbaked _ hnone] at hm
      cases hm
  · obtain ⟨m₁, hm₁, hmore, hpruned⟩ := h.manifest date before hbefore
    by_cases hdate : date = m'.date
    · subst hdate
      obtain rfl := Option.some.inj (hm₁.symm.trans hm)
      refine ⟨m', by rw [hwritten, if_pos rfl], ⟨fun s => ?_, fun name part => ?_, fun entry => ?_,
        fun p hp => hkept p (hmore.kept p hp)⟩, fun p hp => ?_⟩
      · exact (hmembers.segments s).trans (hmore.segments s)
      · exact (hmembers.files name part).trans (hmore.files name part)
      · exact (hmembers.hours entry).trans (hmore.hours entry)
      · rcases (hmembers.pruned p).mp hp with hold | ⟨-, hfind⟩
        · exact hpruned p hold
        · exact .inr (hnew p (List.mem_of_find?_eq_some hfind))
    · exact ⟨m₁, by rw [hwritten, if_neg hdate]; exact hm₁, hmore, hpruned⟩

/-- A deletion that was recorded. -/
theorem unlink (h : d.PartlyPruned o c) (hdel : d.Deletable o hour name file)
    (hrecorded : ListsPruned (c.manifest hour.date) name file) :
    d.PartlyPruned o (c.perform (.unlink name)) := by
  have herase : ∀ name', (c.perform (.unlink name)).segments.get? name' =
      if name = name' then none else c.segments.get? name' := fun name' => Dict.get?_erase _ _ _
  refine ⟨h.parts, h.dirs, fun hour' hin hout => ?_, fun name' => ?_, h.unbaked, h.manifest⟩
  · have hempty := h.emptied hour' hin hout
    rw [List.eq_nil_iff_forall_not_mem] at hempty ⊢
    intro name' hname'
    obtain ⟨hkey, hown⟩ := Disk.mem_segmentFiles.mp hname'
    obtain ⟨file', hfile'⟩ := Dict.mem_keys_iff.mp hkey
    rw [herase] at hfile'
    split at hfile'
    · cases hfile'
    · exact hempty name' (Disk.mem_segmentFiles.mpr ⟨Dict.mem_keys_of_get? hfile', hown⟩)
  · rw [herase]
    split
    · next hsame =>
        subst hsame
        exact .inr ⟨rfl, hour, file, hdel, hrecorded⟩
    · exact h.segments name'

theorem removeHourDir (h : d.PartlyPruned o c) (hour : HourKey) :
    d.PartlyPruned o (c.perform (.removeHourDir hour)) := by
  rw [Disk.perform]
  split
  · exact h
  · next hempty =>
      refine ⟨h.parts, fun hour' hin => h.dirs hour' (List.mem_filter.mp hin).1,
        fun hour' hin hout => ?_, h.segments, h.unbaked, h.manifest⟩
      by_cases hthere : hour' ∈ c.hourDirs
      · have hsame : hour' = hour := by
          by_contra hne
          exact hout (List.mem_filter.mpr ⟨hthere, decide_eq_true hne⟩)
        subst hsame
        rw [List.eq_nil_iff_forall_not_mem]
        intro name hname
        obtain ⟨hkey, hown⟩ := Disk.mem_segmentFiles.mp hname
        exact hempty (List.any_eq_true.mpr ⟨name, hkey, isUnder_of_isSegmentOf hown⟩)
      · exact h.emptied hour' hin hthere

end Disk.PartlyPruned

/-- What a run may do next: record segments of hours that are ready, and delete
what is recorded. -/
def Disk.Allows (d : Disk) (o : PruneOptions) (c : Disk) : ApplyStep → Prop
  | .record m' => ∃ m new, c.manifest m'.date = some m ∧ withPruned m new = .ok m' ∧
      ∀ p ∈ new, ∃ hour, hour.date = m'.date ∧ d.Deletable o hour p.path ⟨p.bytes, p.sha256⟩
  | .perform (.unlink name) => ∃ hour file, d.Deletable o hour name file ∧
      ListsPruned (c.manifest hour.date) name file
  | .perform (.removeHourDir _) => True
  | .perform _ => False

theorem Disk.PartlyPruned.applyStep (c : Disk) (step : ApplyStep) (h : d.PartlyPruned o c)
    (hallowed : d.Allows o c step) : d.PartlyPruned o (c.applyStep step) := by
  cases step with
  | record m' =>
      obtain ⟨m, new, hm, hmade, hnew⟩ := hallowed
      exact h.record hm hmade hnew
  | perform op =>
      cases op with
      | unlink name =>
          obtain ⟨hour, file, hdel, hrecorded⟩ := hallowed
          exact h.unlink hdel hrecorded
      | removeHourDir hour => exact h.removeHourDir hour
      | _ => exact hallowed.elim

/-! ## The days of a run -/

/-- A day of a run: hours that are ready, with their segments as they are. -/
structure Disk.Fits (d : Disk) (o : PruneOptions) (day : Date × List PruneDecision) : Prop where
  nonempty : day.2 ≠ []
  dated : ∀ decision ∈ day.2, decision.hour.date = day.1
  ready : ∀ decision ∈ day.2, d.IsReady o decision.hour
  segments : ∀ decision ∈ day.2, ∀ s ∈ decision.segments, ∃ sha256, s.sha256 = some sha256 ∧
    d.Deletable o decision.hour s.path ⟨s.bytes, sha256⟩

/-- The record of a segment that has its hash. -/
def pruneEntry (prunedWallNs : Int) (s : SegmentOnDisk) : PrunedSegment :=
  ⟨s.path, s.bytes, s.sha256.getD "", prunedWallNs⟩

theorem pruneRecords_of_fits {day : Date × List PruneDecision} (h : d.Fits o day) (ns : Int) :
    pruneRecords ns day.2 = .ok ((day.2.flatMap PruneDecision.segments).map (pruneEntry ns)) ∧
      ∀ p ∈ (day.2.flatMap PruneDecision.segments).map (pruneEntry ns),
        ∃ hour, hour.date = day.1 ∧ d.Deletable o hour p.path ⟨p.bytes, p.sha256⟩ := by
  have hread : ∀ s ∈ day.2.flatMap PruneDecision.segments,
      pruneRecord ns s = .ok (pruneEntry ns s) ∧
        ∃ hour, hour.date = day.1 ∧
          d.Deletable o hour (pruneEntry ns s).path
            ⟨(pruneEntry ns s).bytes, (pruneEntry ns s).sha256⟩ := by
    intro s hs
    obtain ⟨decision, hdecision, hs⟩ := List.mem_flatMap.mp hs
    obtain ⟨sha256, hsome, hdel⟩ := h.segments decision hdecision s hs
    rw [pruneRecord, pruneEntry, hsome]
    exact ⟨rfl, decision.hour, h.dated decision hdecision, hdel⟩
  refine ⟨readEach_pure fun s hs => (hread s hs).1, fun p hp => ?_⟩
  obtain ⟨s, hs, rfl⟩ := List.mem_map.mp hp
  exact (hread s hs).2

/-- A day that fits does not raise, and deletes what it lists. -/
theorem pruneDay_of_fits (h : d.PartlyPruned o c) {day : Date × List PruneDecision}
    (hday : d.Fits o day) (ns : Int) :
    ∃ m' ops, c.pruneDay day.1 day.2 ns = some (m', ops) ∧
      Along Disk.applyStep (d.Allows o) c (.record m' :: ops.map .perform) ∧
      ∀ decision ∈ day.2, ∀ s ∈ decision.segments, FileOp.unlink s.path ∈ ops := by
  obtain ⟨hrecords, hnew⟩ := pruneRecords_of_fits hday ns
  obtain ⟨first, hfirst⟩ := List.exists_mem_of_ne_nil _ hday.nonempty
  obtain ⟨before, hbefore⟩ := hday.ready first hfirst
  have hdated := hbefore.manifest
  rw [hday.dated first hfirst] at hdated
  obtain ⟨m, hm, hmore, -⟩ := h.manifest _ before hdated
  have hlisted : ∀ p ∈ (day.2.flatMap PruneDecision.segments).map (pruneEntry ns),
      ∃ s ∈ m.segments, s.path = p.path ∧ s.bytes = p.bytes ∧ s.sha256 = p.sha256 := by
    intro p hp
    obtain ⟨hour, hdate, hdel⟩ := hnew p hp
    obtain ⟨m₁, hm₁⟩ := hdel.ready
    have hsome := hm₁.manifest
    rw [hdate, hdated] at hsome
    obtain rfl := Option.some.inj hsome
    obtain ⟨e, he, -, hpath, hget⟩ := hm₁.onDisk p.path hdel.named
    obtain ⟨hbytes, hsha⟩ := File.mk.inj (Option.some.inj (hget.symm.trans hdel.file))
    exact ⟨e, (hmore.segments e).mpr he, hpath, hbytes, hsha⟩
  obtain ⟨m', hmade⟩ := withPruned_succeeds hlisted
  have hdate : m'.date = day.1 := (withPruned_ok hmade).date.trans (c.dated _ _ hm)
  refine ⟨m', deletions ((day.2.flatMap PruneDecision.segments).map (pruneEntry ns)) day.2, ?_,
    ⟨⟨m, _, ?_, hmade, ?_⟩, ?_⟩, fun decision hdecision s hs => ?_⟩
  · rw [Disk.pruneDay, hm]
    dsimp only
    rw [hrecords]
    dsimp only
    rw [hmade]
  · rw [hdate]
    exact hm
  · rw [hdate]
    exact hnew
  · -- every deletion of the day is in the manifest just written, which the others leave alone
    have hops : ∀ (ops : List FileOp), (∀ op ∈ ops, ∀ c' : Disk, c'.manifest m'.date = some m' →
        d.Allows o c' (.perform op) ∧ (c'.perform op).manifest = c'.manifest) →
        ∀ c' : Disk, c'.manifest m'.date = some m' →
          Along Disk.applyStep (d.Allows o) c' (ops.map .perform) := by
      intro ops
      induction ops with
      | nil => exact fun _ _ _ => trivial
      | cons op ops ih =>
          intro hall c' hc'
          obtain ⟨hop, hrest⟩ := List.forall_mem_cons.mp hall
          obtain ⟨hallowed, hsame⟩ := hop c' hc'
          exact ⟨hallowed, ih hrest _ (by rw [Disk.applyStep, hsame]; exact hc')⟩
    refine hops _ (fun op hop c' hc' => ?_) _ (Function.update_self _ _ _)
    rcases List.mem_append.mp hop with hop | hop
    · obtain ⟨p, hp, rfl⟩ := List.mem_map.mp hop
      obtain ⟨hour, hhour, hdel⟩ := hnew p hp
      refine ⟨⟨hour, _, hdel, ?_⟩, rfl⟩
      rw [hhour, ← hdate, hc']
      obtain ⟨q, hq, hpath⟩ := List.mem_map.mp ((recorded_of_ok hmade).paths hp)
      obtain ⟨e, he, hepath, hebytes, hesha⟩ := m'.consistent.prunedListed q hq
      obtain ⟨s, hs, hspath, hsbytes, hssha⟩ := hlisted p hp
      obtain rfl : s = e := eq_of_key m.consistent.segmentsSorted hs
        (((recorded_of_ok hmade).segments e).mp he) (hspath.trans (hpath.symm.trans hepath.symm))
      exact ⟨m', rfl, q, hq, hpath, hebytes.symm.trans hsbytes, hesha.symm.trans hssha⟩
    · obtain ⟨decision, -, rfl⟩ := List.mem_map.mp hop
      exact ⟨trivial, (perform_noSwap rfl c').2⟩
  · refine List.mem_append.mpr (.inl ?_)
    rw [List.map_map, List.mem_map]
    exact ⟨s, List.mem_flatMap.mpr ⟨decision, hdecision, hs⟩, rfl⟩

/-- The days of a run: every step is allowed, and each listed segment is deleted. -/
theorem applySteps_of_fits (h : d.PartlyPruned o c) (ns : Date → Int)
    {days : List (Date × List PruneDecision)} (hdays : ∀ day ∈ days, d.Fits o day) :
    Along Disk.applyStep (d.Allows o) c (c.applySteps ns days) ∧
      ∀ day ∈ days, ∀ decision ∈ day.2, ∀ s ∈ decision.segments,
        .perform (.unlink s.path) ∈ c.applySteps ns days := by
  induction days generalizing c with
  | nil => exact ⟨trivial, nofun⟩
  | cons day days ih =>
      obtain ⟨hday, hrest⟩ := List.forall_mem_cons.mp hdays
      obtain ⟨m', ops, hmade, halong, hdeletes⟩ := pruneDay_of_fits h hday (ns day.1)
      have hafter : d.PartlyPruned o ((c.writeManifest m').performAll ops) := by
        have hlast := (throughout_of_step Disk.PartlyPruned.applyStep h halong).last
        have hfold : ∀ c' : Disk, final Disk.applyStep c' (ops.map .perform) =
            c'.performAll ops := fun c' => List.foldl_map
        rw [final_cons, hfold] at hlast
        exact hlast
      obtain ⟨hlater, hdeletesLater⟩ := ih hafter hrest
      have hsteps : c.applySteps ns (day :: days) = .record m' :: ops.map .perform ++
          ((c.writeManifest m').performAll ops).applySteps ns days := by
        rw [Disk.applySteps, hmade]
      rw [hsteps, along_append]
      refine ⟨⟨halong, ?_⟩, fun day' hday' decision hdecision s hs => ?_⟩
      · have hfold : final Disk.applyStep c (.record m' :: ops.map .perform) =
            (c.writeManifest m').performAll ops := List.foldl_map
        rw [hfold]
        exact hlater
      · rcases List.mem_cons.mp hday' with rfl | hin
        · exact List.mem_append.mpr (.inl (List.mem_cons_of_mem _
            (List.mem_map_of_mem (hdeletes decision hdecision s hs))))
        · exact List.mem_append.mpr (.inr (hdeletesLater day' hin decision hdecision s hs))

/-! ## Whole runs -/

theorem pruneDays_nonempty {decisions : List PruneDecision} {day : Date × List PruneDecision}
    (h : day ∈ pruneDays decisions) : day.2 ≠ [] := by
  obtain ⟨date, hdate, rfl⟩ := List.mem_map.mp h
  obtain ⟨decision, hdecision, hsame⟩ := List.mem_map.mp (List.mem_dedup.mp (mem_sortOn.mp hdate))
  exact List.ne_nil_of_mem (List.mem_filter.mpr ⟨hdecision, decide_eq_true hsame⟩)

theorem exists_day {decisions : List PruneDecision} {decision : PruneDecision}
    (h : decision ∈ decisions) (hprunable : decision.prunable = true)
    (hsome : decision.segments ≠ []) : ∃ day ∈ pruneDays decisions, decision ∈ day.2 := by
  have hchosen : decision ∈ decisions.filter fun d => d.prunable ∧ d.segments ≠ [] :=
    List.mem_filter.mpr ⟨h, by simp [hprunable, hsome]⟩
  refine ⟨_, List.mem_map.mpr ⟨decision.hour.date, mem_sortOn.mpr (List.mem_dedup.mpr
    (List.mem_map_of_mem hchosen)), rfl⟩, List.mem_filter.mpr ⟨hchosen, decide_eq_true rfl⟩⟩

/-- What is decided on a partly pruned disk fits the disk it was. -/
theorem Disk.PartlyPruned.fits (h : d.PartlyPruned o' c) (hle : o.Before o')
    {decisions : List PruneDecision} (hdecides : c.Decides o decisions) :
    ∀ day ∈ pruneDays decisions, d.Fits o' day := by
  intro day hday
  have hready : ∀ decision ∈ day.2, decision.hour ∈ c.hourDirs ∧ d.IsReady o' decision.hour ∧
      c.Lists decision.hour decision.segments := by
    intro decision hdecision
    obtain ⟨hmem, hprunable, -⟩ := mem_pruneDays hday decision hdecision
    obtain ⟨hdir, hready, hlists⟩ := hdecides.ready decision hmem hprunable
    exact ⟨hdir, h.isReady_iff.mp (hready.mono hle), hlists⟩
  refine ⟨pruneDays_nonempty hday, fun decision hdecision => (mem_pruneDays hday _ hdecision).2.2,
    fun decision hdecision => (hready decision hdecision).2.1, fun decision hdecision s hs => ?_⟩
  obtain ⟨hdir, hisReady, hfiles, hlists⟩ := hready decision hdecision
  obtain ⟨sha256, hsome, hget⟩ := hlists s hs
  have hname : s.path ∈ c.segmentFiles decision.hour := by
    rw [← hfiles]
    exact List.mem_map_of_mem hs
  exact ⟨sha256, hsome, h.dirs _ hdir, hisReady, h.mem_segmentFiles hname, h.get?_eq hget⟩

theorem pruneSteps_eq (h : d.PartlyPruned o' c) (hle : o.Before o') (ns : Date → Int) :
    ∃ decisions, c.Decides o decisions ∧ (∀ day ∈ pruneDays decisions, d.Fits o' day) ∧
      c.pruneSteps o ns = c.applySteps ns (pruneDays decisions) := by
  obtain ⟨decisions, hsurvey, hdecides⟩ := exists_survey c o
  refine ⟨decisions, hdecides, h.fits hle hdecides, ?_⟩
  rw [Disk.pruneSteps, hsurvey]

/-- A run, wherever it stops, leaves a disk that is partly pruned. -/
theorem Disk.PartlyPruned.pruned (h : d.PartlyPruned o c) (run : PruneRun)
    (hle : run.o.Before o) : d.PartlyPruned o (c.pruned run) := by
  obtain ⟨decisions, -, hfits, hsteps⟩ := pruneSteps_eq h hle run.prunedWallNs
  obtain ⟨halong, -⟩ := applySteps_of_fits h run.prunedWallNs hfits
  rw [Disk.pruned, hsteps]
  exact throughout_iff_prefix.mp (throughout_of_step Disk.PartlyPruned.applyStep h halong) _
    (List.take_prefix _ _)

theorem gone_applyStep (step : ApplyStep) (h : c.segments.get? name = none) :
    (c.applyStep step).segments.get? name = none := by
  cases step with
  | record m => exact h
  | perform op =>
      cases op with
      | unlink name' =>
          show (c.segments.erase name').get? name = none
          rw [Dict.get?_erase, h, ite_self]
      | removeHourDir hour =>
          rw [Disk.applyStep, Disk.perform]
          split
          · exact h
          · exact h
      | _ => exact h

theorem gone_final (steps : List ApplyStep) (h : c.segments.get? name = none) :
    (final Disk.applyStep c steps).segments.get? name = none := by
  induction steps generalizing c with
  | nil => exact h
  | cons step steps ih => exact ih (gone_applyStep step h)

theorem gone_of_unlink {steps : List ApplyStep} (h : .perform (.unlink name) ∈ steps) (c : Disk) :
    (final Disk.applyStep c steps).segments.get? name = none := by
  obtain ⟨before, after, rfl⟩ := List.append_of_mem h
  rw [final_append, final_cons]
  exact gone_final after (Dict.get?_erase_self _ _)

/-- A run that ends has deleted every segment of the hours that are ready. -/
theorem gone_of_done (h : d.PartlyPruned run.o c)
    (hdone : (c.pruneSteps run.o run.prunedWallNs).length ≤ run.done) (hdir : hour ∈ d.hourDirs)
    (hready : d.IsReady run.o hour) (hname : name ∈ d.segmentFiles hour) :
    (c.pruned run).segments.get? name = none := by
  obtain ⟨decisions, hdecides, hfits, hsteps⟩ :=
    pruneSteps_eq h ⟨rfl, rfl, le_refl _⟩ run.prunedWallNs
  rw [Disk.pruned, List.take_of_length_le hdone, hsteps]
  have hown := (Disk.mem_segmentFiles.mp hname).2
  cases hthere : c.segments.get? name with
  | none => exact gone_final _ hthere
  | some file =>
      have hname' : name ∈ c.segmentFiles hour :=
        Disk.mem_segmentFiles.mpr ⟨Dict.mem_keys_of_get? hthere, hown⟩
      have hdir' : hour ∈ c.hourDirs := by
        by_contra hout
        rw [h.emptied hour hdir hout] at hname'
        cases hname'
      obtain ⟨decision, hdecision, hprunable, rfl⟩ := hdecides.taken hour hdir'
        (List.ne_nil_of_mem hname') (h.isReady_iff.mpr hready)
      obtain ⟨-, -, hfiles, -⟩ := hdecides.ready decision hdecision hprunable
      rw [← hfiles] at hname'
      obtain ⟨s, hs, rfl⟩ := List.mem_map.mp hname'
      obtain ⟨day, hday, hin⟩ := exists_day hdecision hprunable (List.ne_nil_of_mem hs)
      exact gone_of_unlink ((applySteps_of_fits h _ hfits).2 day hday decision hin s hs) c

/-- However many runs of the prune were interrupted, the one that ends leaves
what a single one would have left: the segments of every hour that was ready are
recorded and gone, everything else is there, and nothing more can be pruned. -/
theorem prune_resumes (d : Disk) (runs : List PruneRun) (last : PruneRun)
    (hruns : ∀ run ∈ runs, run.o.Before last.o)
    (hdone : ((runs.foldl Disk.pruned d).pruneSteps last.o last.prunedWallNs).length ≤
      last.done) :
    let d' := (runs.foldl Disk.pruned d).pruned last
    d.PartlyPruned last.o d' ∧
      (∀ hour ∈ d.hourDirs, d.IsReady last.o hour →
        ∀ name ∈ d.segmentFiles hour, d'.segments.get? name = none) ∧
      (∀ name, (∀ hour ∈ d.hourDirs, name ∈ d.segmentFiles hour → ¬ d.IsReady last.o hour) →
        d'.segments.get? name = d.segments.get? name) ∧
      ∀ decisions, d'.archive.survey last.o = .ok decisions →
        ∀ decision ∈ decisions, decision.prunable = false := by
  have hbefore : d.PartlyPruned last.o (runs.foldl Disk.pruned d) :=
    List.foldlRecOn runs Disk.pruned (.refl last.o d)
      fun _ h run hrun => h.pruned run (hruns run hrun)
  have hafter := hbefore.pruned last ⟨rfl, rfl, le_refl _⟩
  have hgone : ∀ hour ∈ d.hourDirs, d.IsReady last.o hour → ∀ name ∈ d.segmentFiles hour,
      ((runs.foldl Disk.pruned d).pruned last).segments.get? name = none :=
    fun hour hdir hready name hname => gone_of_done hbefore hdone hdir hready hname
  refine ⟨hafter, hgone, fun name hkept => ?_, fun decisions hsurvey decision hdecision => ?_⟩
  · rcases hafter.segments name with hsame | ⟨-, hour, file, hdel, -⟩
    · exact hsame
    · exact absurd hdel.ready (hkept hour hdel.surveyed hdel.named)
  · by_contra hprunable
    rw [Bool.not_eq_false] at hprunable
    obtain ⟨decisions', hsurvey', hdecides⟩ := exists_survey
      ((runs.foldl Disk.pruned d).pruned last) last.o
    obtain rfl := Except.ok.inj (hsurvey.symm.trans hsurvey')
    obtain ⟨hdir, hready, -⟩ := hdecides.ready decision hdecision hprunable
    have hfiles : ((runs.foldl Disk.pruned d).pruned last).segmentFiles decision.hour ≠ [] := by
      have hin : decision.hour ∈ decisions.map PruneDecision.hour := List.mem_map_of_mem hdecision
      rw [(survey_letGo hsurvey).2] at hin
      exact of_decide_eq_true (List.mem_filter.mp hin).2
    obtain ⟨name, hname⟩ := List.exists_mem_of_ne_nil _ hfiles
    obtain ⟨file, hfile⟩ := Dict.mem_keys_iff.mp (Disk.mem_segmentFiles.mp hname).1
    rw [hgone decision.hour (hafter.dirs _ hdir) (hafter.isReady_iff.mp hready) name
      (hafter.mem_segmentFiles hname)] at hfile
    cases hfile

end

/-- A run of a moment, with a retention of one hour. -/
def pruneAt (nowWallNs : Int) (done : Nat) : PruneRun :=
  ⟨⟨nowWallNs, 1, bakeVersion⟩, fun _ => nowWallNs, done⟩

/-- The first run stops before it deletes what it recorded. -/
theorem prune_resumes_recorded :
    let c := bakedDisk.pruned (pruneAt 7200000000001 1)
    let d' := c.pruned (pruneAt 7200000000002 9)
    c.segments.size = 1 ∧ d'.segments.size = 0 ∧
      bakedDisk.PartlyPruned (pruneAt 7200000000002 9).o d' ∧
      (∀ hour ∈ bakedDisk.hourDirs, bakedDisk.IsReady (pruneAt 7200000000002 9).o hour →
        ∀ name ∈ bakedDisk.segmentFiles hour, d'.segments.get? name = none) ∧
      (∀ name, (∀ hour ∈ bakedDisk.hourDirs, name ∈ bakedDisk.segmentFiles hour →
          ¬ bakedDisk.IsReady (pruneAt 7200000000002 9).o hour) →
        d'.segments.get? name = bakedDisk.segments.get? name) ∧
      ∀ decisions, d'.archive.survey (pruneAt 7200000000002 9).o = .ok decisions →
        ∀ decision ∈ decisions, decision.prunable = false := by
  have hruns : ∀ run ∈ [pruneAt 7200000000001 1],
      run.o.Before (pruneAt 7200000000002 9).o := by
    intro run hrun
    obtain rfl := List.mem_singleton.mp hrun
    exact ⟨rfl, rfl, by decide⟩
  exact ⟨by decide +kernel, by decide +kernel,
    prune_resumes bakedDisk [pruneAt 7200000000001 1] (pruneAt 7200000000002 9) hruns
      (by decide +kernel)⟩

end Tape.Bake
