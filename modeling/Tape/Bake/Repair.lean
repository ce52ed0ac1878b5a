import Tape.Bake.Directories

/-!
# What a bake that stopped leaves behind

A bake that stops between two file operations leaves the first tables swapped,
the last as they were, and perhaps one with no files at all. `mixture` reads
the part files of such a disk. Whether the next run notices is up to
`hours_to_bake`, which looks at the presence of the recorded parts and at
nothing else of them: a mixture that lacks a recorded part is noticed, one that
has them all, with other contents or with parts besides, is not.
-/

namespace Tape.Bake

/-! ## Which hours need a bake, on a disk -/

namespace Disk

/-- The hour's segments with their sizes. -/
def onDisk (d : Disk) (hour : HourKey) : List SegmentOnDisk :=
  (d.segmentFiles hour).filterMap fun name =>
    (d.segments.get? name).map fun file => ⟨name, file.bytes, none⟩

/-- The hour is included, as its files and its day's manifest are. -/
def takes (d : Disk) (force : Bool) (hour : HourKey) : Bool :=
  d.archive.takesHour force (d.manifest hour.date) hour (d.onDisk hour)

theorem mem_segmentFiles {d : Disk} {hour : HourKey} {name : String} :
    name ∈ d.segmentFiles hour ↔ name ∈ d.segments.keys ∧ isSegmentOf hour name = true := by
  rw [segmentFiles, mem_sortOn, List.mem_filter]

/-- Every segment that is listed can be inspected. -/
theorem readEach_sizedSegment (d : Disk) (hour : HourKey) :
    readEach d.archive.sizedSegment (d.archive.segmentFiles hour) = .ok (d.onDisk hour) := by
  have hlisted : ∀ l : List String, (∀ name ∈ l, name ∈ d.segments.keys) →
      readEach d.archive.sizedSegment l = .ok (l.filterMap fun name =>
        (d.segments.get? name).map fun file => ⟨name, file.bytes, none⟩) := by
    intro l
    induction l with
    | nil => exact fun _ => rfl
    | cons name rest ih =>
        intro hl
        obtain ⟨hname, hrest⟩ := List.forall_mem_cons.mp hl
        obtain ⟨file, hfile⟩ := Dict.mem_keys_iff.mp hname
        have hsized : d.archive.sizedSegment name = .ok ⟨name, file.bytes, none⟩ := by
          simp [Archive.sizedSegment, archive, stat, hfile, Except.map]
        rw [readEach, hsized, ih hrest, List.filterMap_cons, hfile]
        rfl
  exact hlisted _ fun name hname => (mem_segmentFiles.mp hname).1

/-- On a disk the loop ends well, and takes each hour by itself. -/
theorem hoursToBakeFrom_eq (d : Disk) (force : Bool) (hours : List HourKey)
    (manifests : Dict Date (Option Manifest))
    (hkept : ∀ date manifest, manifests.get? date = some manifest → manifest = d.manifest date) :
    d.archive.hoursToBakeFrom force hours manifests = .ok (hours.filter (d.takes force)) := by
  induction hours generalizing manifests with
  | nil => rfl
  | cons hour rest ih =>
      have hmanifest : ∃ manifests', d.archive.manifestFor manifests hour.date =
          .ok (d.manifest hour.date, manifests') ∧
          ∀ date manifest, manifests'.get? date = some manifest → manifest = d.manifest date := by
        rw [Archive.manifestFor]
        cases hget : manifests.get? hour.date with
        | some manifest => exact ⟨manifests, by rw [hkept _ _ hget], hkept⟩
        | none =>
            refine ⟨manifests.set hour.date (d.manifest hour.date), rfl, fun date manifest h => ?_⟩
            rw [Dict.get?_set] at h
            split at h
            · next heq => rw [← heq, Option.some.inj h]
            · exact hkept date manifest h
      obtain ⟨manifests', hread, hkept'⟩ := hmanifest
      rw [Archive.hoursToBakeFrom, hread]
      dsimp only
      rw [readEach_sizedSegment]
      dsimp only
      rw [ih _ hkept', List.filter_cons, takes]
      split
      · rfl
      · rfl

theorem hoursToBake_eq (d : Disk) (nowWallNs : Int) (graceNs : Nat) (force : Bool) :
    d.archive.hoursToBake nowWallNs graceNs force none =
      .ok ((closedHours d.rawHours nowWallNs graceNs).filter (d.takes force)) :=
  d.hoursToBakeFrom_eq force _ ∅ fun date manifest h => by
    rw [Dict.get?_empty] at h
    cases h

/-- Unforced, the next run includes the hour once its grace period is over. -/
def Included (d : Disk) (hour : HourKey) : Prop :=
  ∀ (nowWallNs : Int) (graceNs : Nat), hour.endWallNs + graceNs < nowWallNs →
    ∃ hours, d.archive.hoursToBake nowWallNs graceNs false none = .ok hours ∧ hour ∈ hours

theorem included_iff {d : Disk} {hour : HourKey} (hraw : hour ∈ d.rawHours) :
    d.Included hour ↔ d.takes false hour = true := by
  constructor
  · intro h
    obtain ⟨hours, hok, hin⟩ := h (hour.endWallNs + 1) 0 (by simp)
    rw [hoursToBake_eq] at hok
    rw [← Except.ok.inj hok] at hin
    exact (List.mem_filter.mp hin).2
  · intro htakes nowWallNs graceNs hclosed
    refine ⟨_, d.hoursToBake_eq _ _ _, List.mem_filter.mpr ⟨?_, htakes⟩⟩
    exact List.mem_filter.mpr ⟨hraw, decide_eq_true hclosed⟩

/-! ## What the manifest records of an hour -/

/-- The parts aside, the hour needs a bake: it has none, or one by another
version, or its segments are not those baked. -/
def Outdated (d : Disk) (hour : HourKey) : Prop :=
  bakeNeeded (d.manifest hour.date) hour (Archive.sizes (d.onDisk hour)) true = true

end Disk

/-- The hash of the hour's part, as recorded. -/
def recordedSha (manifest : Option Manifest) (hour : HourKey) (path : String) : Option String :=
  manifest.bind fun m =>
    ((byPath PartEntry.path (m.hourParts hour.hour)).get? path).map PartEntry.sha256

/-- The hour's part files are those recorded: none is missing, none is there
besides, and each has its hash. -/
def AgreesWith (files : String → Option File) (manifest : Option Manifest) (hour : HourKey) :
    Prop :=
  ∀ path, isPartOf hour path → (files path).map File.sha256 = recordedSha manifest hour path

/-- A part of the hour that is recorded is not there. -/
def Lacks (files : String → Option File) (manifest : Option Manifest) (hour : HourKey) : Prop :=
  ∃ path, recordedSha manifest hour path ≠ none ∧ files path = none

/-- The hour's part files are the ones its manifest records. -/
def Disk.Agrees (d : Disk) (hour : HourKey) : Prop :=
  AgreesWith d.parts.get? (d.manifest hour.date) hour

variable {d : Disk} {hour : HourKey} {r : HourReading}

theorem recordedSha_ne_none_iff {m : Manifest} {path : String} :
    recordedSha (some m) hour path ≠ none ↔ ∃ part ∈ m.hourParts hour.hour, part.path = path := by
  have hget := fun part => @get?_byPath _ PartEntry.path _ (nodup_hourParts m hour.hour) path part
  rw [recordedSha, Option.bind_some, Ne, Option.map_eq_none_iff]
  constructor
  · intro h
    obtain ⟨part, hpart⟩ := Option.ne_none_iff_exists'.mp h
    exact ⟨part, (hget part).mp hpart⟩
  · rintro ⟨part, hpart⟩ hnone
    rw [(hget part).mpr hpart] at hnone
    cases hnone

/-- What is recorded of the hour is in its directories. -/
theorem isPartOf_of_recorded {path : String}
    (h : recordedSha (d.manifest hour.date) hour path ≠ none) : isPartOf hour path := by
  cases hm : d.manifest hour.date with
  | none =>
      rw [hm] at h
      exact absurd rfl h
  | some m =>
      rw [hm] at h
      obtain ⟨part, hpart, rfl⟩ := recordedSha_ne_none_iff.mp h
      obtain ⟨name, hfile, hhour⟩ := mem_hourParts.mp hpart
      have hplaced := (m.consistent.filesPlaced name part hfile).1
      rw [d.dated _ m hm, hhour] at hplaced
      exact ⟨name, isUnder_iff.mpr hplaced⟩

theorem bakeNeeded_iff {ε : Type*} {archive : Archive ε} {manifest : Option Manifest}
    (hmay : mayBake manifest hour = true) (sizes : Dict String Int) :
    bakeNeeded manifest hour sizes (archive.partsPresent manifest hour) = true ↔
      bakeNeeded manifest hour sizes true = true ∨
        ∃ path, recordedSha manifest hour path ≠ none ∧ archive.isPart path = false := by
  cases manifest with
  | none => exact ⟨.inl, fun h => h.resolve_right fun ⟨_, hno, _⟩ => hno rfl⟩
  | some m =>
      have hunpruned : ¬ hasPruned m hour = true := by simpa [mayBake] using hmay
      have hmissing : (∃ path, recordedSha (some m) hour path ≠ none ∧
          archive.isPart path = false) ↔ archive.partsPresent (some m) hour = false := by
        rw [Archive.partsPresent, List.all_eq_false]
        constructor
        · rintro ⟨path, hrecorded, hno⟩
          obtain ⟨part, hpart, rfl⟩ := recordedSha_ne_none_iff.mp hrecorded
          exact ⟨part, hpart, Bool.eq_false_iff.mp hno⟩
        · rintro ⟨part, hpart, hno⟩
          exact ⟨part.path, recordedSha_ne_none_iff.mpr ⟨part, hpart, rfl⟩,
            Bool.eq_false_iff.mpr hno⟩
      rw [hmissing, bakeNeeded, bakeNeeded]
      dsimp only
      rw [if_neg hunpruned, if_neg hunpruned]
      cases hentry : m.hourBake hour.hour with
      | none =>
          -- no part is recorded of an hour that was not baked
          refine ⟨.inl, fun h => h.resolve_right fun hpresent => ?_⟩
          obtain ⟨path, hrecorded, -⟩ := hmissing.mpr hpresent
          obtain ⟨part, hpart, -⟩ := recordedSha_ne_none_iff.mp hrecorded
          obtain ⟨name, hfile, hhour⟩ := mem_hourParts.mp hpart
          obtain ⟨entry, hin, hsame⟩ :=
            List.mem_map.mp (m.consistent.filesPlaced name part hfile).2
          have hsome := hourBake_eq_some_iff.mpr ⟨hin, hsame.trans hhour⟩
          rw [hentry] at hsome
          cases hsome
      | some entry =>
          cases hpresent : archive.partsPresent (some m) hour with
          | true => simp
          | false => simp

/-- The next run includes the hour exactly if it is outdated, or lacks a part. -/
theorem takes_iff (hmay : mayBake (d.manifest hour.date) hour = true) :
    d.takes false hour = true ↔
      d.Outdated hour ∨ Lacks d.parts.get? (d.manifest hour.date) hour := by
  have hpart : ∀ path, d.archive.isPart path = false ↔ d.parts.get? path = none := by
    intro path
    show d.parts.contains path = false ↔ _
    rw [Dict.contains, Option.isSome_eq_false_iff, Option.isNone_iff_eq_none]
  rw [Disk.takes, Archive.takesHour, if_neg Bool.false_ne_true, bakeNeeded_iff hmay, Lacks]
  simp only [hpart]
  rfl

/-! ## The swaps, one after the other -/

theorem get?_put (files : Dict String File) (new : List (String × File)) (path : String) :
    (Disk.put files new).get? path = ((Disk.put ∅ new).get? path).or (files.get? path) := by
  induction new using List.reverseRecOn with
  | nil => rfl
  | append_singleton new e ih =>
      have hlast : ∀ files, Disk.put files (new ++ [e]) = (Disk.put files new).set e.1 e.2 :=
        fun files => List.foldl_append
      rw [hlast, hlast, Dict.get?_set, Dict.get?_set]
      split
      · rfl
      · exact ih

/-- A file that was put in place is one of those given. -/
theorem mem_of_get?_put {new : List (String × File)} {path : String} {file : File}
    (h : (Disk.put ∅ new).get? path = some file) : (path, file) ∈ new := by
  induction new using List.reverseRecOn with
  | nil => cases h
  | append_singleton new e ih =>
      have hlast : Disk.put ∅ (new ++ [e]) = (Disk.put ∅ new).set e.1 e.2 := List.foldl_append
      rw [hlast, Dict.get?_set] at h
      rw [List.mem_append, List.mem_singleton]
      split at h
      · next heq =>
          rw [← heq, ← Option.some.inj h]
          exact .inr rfl
      · exact .inl (ih h)

/-- The raw segments and the manifests are as they were. -/
structure Disk.SameRecords (d d' : Disk) : Prop where
  hourDirs : d'.hourDirs = d.hourDirs
  segments : d'.segments = d.segments
  manifest : d'.manifest = d.manifest

/-- An operation of a swap. -/
def FileOp.isSwap : FileOp → Bool
  | .clearAside _ => true
  | .setAside _ => true
  | .moveIn _ => true
  | _ => false

theorem sameRecords_performAll (d : Disk) {ops : List FileOp}
    (hops : ∀ op ∈ ops, op.isSwap = true) : Disk.SameRecords d (d.performAll ops) := by
  induction ops generalizing d with
  | nil => exact ⟨rfl, rfl, rfl⟩
  | cons op rest ih =>
      obtain ⟨hop, hrest⟩ := List.forall_mem_cons.mp hops
      have hfirst : Disk.SameRecords d (d.perform op) := by
        cases op with
        | clearAside directory => exact ⟨rfl, rfl, rfl⟩
        | setAside directory => exact ⟨rfl, rfl, rfl⟩
        | moveIn files => exact ⟨rfl, rfl, rfl⟩
        | _ => cases hop
      have hthen := ih (d.perform op) hrest
      exact ⟨hthen.hourDirs.trans hfirst.hourDirs, hthen.segments.trans hfirst.segments,
        hthen.manifest.trans hfirst.manifest⟩

theorem isSwap_of_swaps {op : FileOp} (h : op ∈ swaps r) : op.isSwap = true := by
  obtain ⟨name, -, hop⟩ := List.mem_flatMap.mp h
  rw [replaceDir, List.append_assoc] at hop
  rcases List.mem_append.mp hop with hop | hop
  · rcases List.mem_cons.mp hop with rfl | hop
    · rfl
    · rw [List.mem_singleton.mp hop]
      rfl
  · rcases List.mem_append.mp hop with hop | hop
    · split at hop
      · cases hop
      · rw [List.mem_singleton.mp hop]
        rfl
    · rw [List.mem_singleton.mp hop]
      rfl

/-- A directory without its files. -/
def without (directory : String) (files : String → Option File) (path : String) : Option File :=
  if isUnder directory path then none else files path

/-- A directory with other files in it. -/
def withFiles (directory : String) (new : List (String × File)) (files : String → Option File)
    (path : String) : Option File :=
  if isUnder directory path then (Disk.put ∅ new).get? path else files path

theorem get?_setAside (d : Disk) (directory : String) :
    (d.perform (.setAside directory)).parts.get? = without directory d.parts.get? := by
  funext path
  show (d.parts.filter fun path _ => ¬ isUnder directory path).get? path = _
  rw [Dict.get?_filter, without]
  cases h : isUnder directory path with
  | true => cases d.parts.get? path <;> simp
  | false => cases d.parts.get? path <;> simp

theorem get?_moveIn {d : Disk} {directory : String} {new : List (String × File)}
    (hnew : ∀ e ∈ new, isUnder directory e.1 = true) {files : String → Option File}
    (hparts : d.parts.get? = without directory files) :
    (d.perform (.moveIn new)).parts.get? = withFiles directory new files := by
  funext path
  show (Disk.put d.parts new).get? path = _
  rw [get?_put, hparts, without, withFiles]
  cases hput : (Disk.put ∅ new).get? path with
  | some file =>
      have hin : isUnder directory path = true := hnew _ (mem_of_get?_put hput)
      rw [if_pos hin, if_pos hin]
      rfl
  | none => rfl

/-- What a swap that may have stopped leaves of the part files. -/
theorem get?_take_replaceDir {d : Disk} {directory : String} {new : List (String × File)}
    (hnew : ∀ e ∈ new, isUnder directory e.1 = true) (n : Nat) :
    let d' := d.performAll ((replaceDir directory new).take n)
    (n < (replaceDir directory new).length → d'.parts.get? = d.parts.get? ∨
      d'.parts.get? = without directory d.parts.get? ∨
      d'.parts.get? = withFiles directory new d.parts.get?) ∧
    ((replaceDir directory new).length ≤ n →
      d'.parts.get? = withFiles directory new d.parts.get?) := by
  have haside := get?_setAside (d.perform (.clearAside directory)) directory
  by_cases hnone : new = []
  · -- with nothing to move in, the swap ends with the directory gone
    have hempty : withFiles directory new d.parts.get? = without directory d.parts.get? := by
      rw [hnone]
      rfl
    have hops : replaceDir directory new =
        [.clearAside directory, .setAside directory, .clearAside directory] := by
      rw [replaceDir, if_pos hnone]
      rfl
    rw [hops, hempty]
    match n with
    | 0 => exact ⟨fun _ => .inl rfl, fun hle => absurd hle (by simp)⟩
    | 1 => exact ⟨fun _ => .inl rfl, fun hle => absurd hle (by simp)⟩
    | 2 => exact ⟨fun _ => .inr (.inl haside), fun hle => absurd hle (by simp)⟩
    | n + 3 =>
        refine ⟨fun hlt => absurd hlt (by simp), fun hle => ?_⟩
        rw [List.take_of_length_le hle]
        exact haside
  · have hops : replaceDir directory new = [.clearAside directory, .setAside directory,
        .moveIn new, .clearAside directory] := by
      rw [replaceDir, if_neg hnone]
      rfl
    have hmoved := get?_moveIn hnew haside
    rw [hops]
    match n with
    | 0 => exact ⟨fun _ => .inl rfl, fun hle => absurd hle (by simp)⟩
    | 1 => exact ⟨fun _ => .inl rfl, fun hle => absurd hle (by simp)⟩
    | 2 => exact ⟨fun _ => .inr (.inl haside), fun hle => absurd hle (by simp)⟩
    | 3 => exact ⟨fun _ => .inr (.inr hmoved), fun hle => absurd hle (by simp)⟩
    | n + 4 =>
        refine ⟨fun hlt => absurd hlt (by simp), fun hle => ?_⟩
        rw [List.take_of_length_le hle]
        exact hmoved

/-- The part files once some tables were swapped. -/
def mixture (r : HourReading) (files : String → Option File) (tables : List TableName) :
    String → Option File :=
  tables.foldl (fun files name => withFiles (partitionDir name r.hour) (r.files name) files) files

theorem isUnder_files (r : HourReading) (name : TableName) :
    ∀ e ∈ r.files name, isUnder (partitionDir name r.hour) e.1 = true := by
  intro e he
  obtain ⟨part, -, rfl⟩ := List.mem_map.mp he
  exact isUnder_append _ _

/-- The swaps of some tables. -/
def swapsOf (r : HourReading) (tables : List TableName) : List FileOp :=
  tables.flatMap fun name => replaceDir (partitionDir name r.hour) (r.files name)

theorem performAll_append (d : Disk) (ops ops' : List FileOp) :
    d.performAll (ops ++ ops') = (d.performAll ops).performAll ops' := List.foldl_append

theorem get?_swapsOf (d : Disk) (r : HourReading) (tables : List TableName) :
    (d.performAll (swapsOf r tables)).parts.get? = mixture r d.parts.get? tables := by
  induction tables generalizing d with
  | nil => rfl
  | cons name rest ih =>
      have hfirst := (get?_take_replaceDir (d := d) (isUnder_files r name) _).2 (le_refl _)
      rw [List.take_length] at hfirst
      rw [swapsOf, List.flatMap_cons, performAll_append]
      refine (ih _).trans ?_
      rw [hfirst]
      rfl

/-- Swaps that stopped somewhere: some tables were swapped, and the next one may
have no files. -/
theorem get?_take_swapsOf (d : Disk) (r : HourReading) (tables : List TableName) (n : Nat) :
    let d' := d.performAll ((swapsOf r tables).take n)
    (∃ pre, pre <+: tables ∧ d'.parts.get? = mixture r d.parts.get? pre) ∨
      ∃ pre name, pre <+: tables ∧
        d'.parts.get? = without (partitionDir name r.hour) (mixture r d.parts.get? pre) := by
  induction tables generalizing d n with
  | nil =>
      refine .inl ⟨[], List.nil_prefix, ?_⟩
      rw [swapsOf, List.flatMap_nil, List.take_nil]
      rfl
  | cons name rest ih =>
      let swap := replaceDir (partitionDir name r.hour) (r.files name)
      have hops : swapsOf r (name :: rest) = swap ++ swapsOf r rest := List.flatMap_cons
      obtain ⟨hstopped, hdone⟩ := get?_take_replaceDir (d := d) (isUnder_files r name) n
      dsimp only
      rcases lt_or_ge n swap.length with hlt | hge
      · rw [hops, List.take_append_of_le_length hlt.le]
        rcases hstopped hlt with hsame | hgone | hswapped
        · exact .inl ⟨[], List.nil_prefix, hsame⟩
        · exact .inr ⟨[], name, List.nil_prefix, hgone⟩
        · exact .inl ⟨[name], List.prefix_append [name] rest, hswapped⟩
      · have htake : (swap ++ swapsOf r rest).take n =
            swap.take n ++ (swapsOf r rest).take (n - swap.length) := List.take_append
        rw [hops, htake, performAll_append]
        rcases ih (d.performAll (swap.take n)) (n - swap.length) with
          ⟨pre, hpre, hparts⟩ | ⟨pre, other, hpre, hparts⟩
        · refine .inl ⟨name :: pre, List.cons_prefix_cons.mpr ⟨rfl, hpre⟩, hparts.trans ?_⟩
          rw [hdone hge]
          rfl
        · refine .inr ⟨name :: pre, other, List.cons_prefix_cons.mpr ⟨rfl, hpre⟩,
            hparts.trans ?_⟩
          rw [hdone hge]
          rfl

/-! ## The repair -/

/-- A run of these operations that stopped somewhere. What an interrupted
removal left of the files set aside may be anything. -/
def StoppedAt (ops : List FileOp) (d d' : Disk) : Prop :=
  ∃ n aside, d' = { d.performAll (ops.take n) with aside }

/-- Either the part files a bake may leave agree with the manifest, or the next
run includes the hour. -/
def Repairable (d : Disk) (r : HourReading) : Prop :=
  ∀ d', StoppedAt (swaps r) d d' → d'.Agrees r.hour ∨ d'.Included r.hour

/-- After any number of swaps the part files are those recorded, or one that is
recorded is missing. -/
def Mends (d : Disk) (r : HourReading) : Prop :=
  ∀ pre, pre <+: TableName.all →
    AgreesWith (mixture r d.parts.get? pre) (d.manifest r.hour.date) r.hour ∨
      Lacks (mixture r d.parts.get? pre) (d.manifest r.hour.date) r.hour

/-- A directory that is gone is missed, unless nothing is recorded in it. -/
theorem without_agrees_or_lacks {files : String → Option File} {manifest : Option Manifest}
    {directory : String} (h : AgreesWith files manifest hour ∨ Lacks files manifest hour) :
    AgreesWith (without directory files) manifest hour ∨
      Lacks (without directory files) manifest hour := by
  by_cases hrecorded : ∃ path, isUnder directory path = true ∧
      recordedSha manifest hour path ≠ none
  · obtain ⟨path, hunder, hpath⟩ := hrecorded
    exact .inr ⟨path, hpath, if_pos hunder⟩
  · rcases h with hagrees | ⟨path, hpath, hgone⟩
    · refine .inl fun path hpart => ?_
      rw [without]
      split
      · next hunder =>
          have hnone : recordedSha manifest hour path = none := by
            by_contra hsome
            exact hrecorded ⟨path, hunder, hsome⟩
          rw [hnone]
          rfl
      · exact hagrees path hpart
    · refine .inr ⟨path, hpath, ?_⟩
      rw [without]
      split
      · rfl
      · exact hgone

theorem outdated_congr {d' : Disk} (hsame : Disk.SameRecords d d') :
    d'.Outdated hour ↔ d.Outdated hour := by
  rw [Disk.Outdated, Disk.Outdated, hsame.manifest, Disk.onDisk, Disk.onDisk, Disk.segmentFiles,
    Disk.segmentFiles, hsame.segments]

theorem included_of_sameRecords {d' : Disk} (hsame : Disk.SameRecords d d')
    (hraw : hour ∈ d.rawHours) (hmay : mayBake (d.manifest hour.date) hour = true) :
    d'.Included hour ↔ d.Outdated hour ∨ Lacks d'.parts.get? (d.manifest hour.date) hour := by
  have hraw' : hour ∈ d'.rawHours := by
    rw [Disk.rawHours, hsame.hourDirs]
    exact hraw
  rw [Disk.included_iff hraw', takes_iff (by rw [hsame.manifest]; exact hmay), outdated_congr hsame,
    hsame.manifest]

theorem repairable_iff (hraw : r.hour ∈ d.rawHours)
    (hmay : mayBake (d.manifest r.hour.date) r.hour = true) :
    Repairable d r ↔ d.Outdated r.hour ∨ Mends d r := by
  have hstopped : ∀ n, Disk.SameRecords d (d.performAll ((swaps r).take n)) := fun n =>
    sameRecords_performAll d fun op hop => isSwap_of_swaps (List.mem_of_mem_take hop)
  constructor
  · intro h
    by_cases hout : d.Outdated r.hour
    · exact .inl hout
    · refine .inr fun pre hpre => ?_
      obtain ⟨post, hall⟩ := hpre
      let n := (swapsOf r pre).length
      have htake : (swaps r).take n = swapsOf r pre := by
        have hsplit : swaps r = swapsOf r pre ++ swapsOf r post := by
          rw [swaps, ← hall, List.flatMap_append]
          rfl
        rw [hsplit]
        exact List.take_left
      have hparts : (d.performAll ((swaps r).take n)).parts.get? =
          mixture r d.parts.get? pre := by
        rw [htake]
        exact get?_swapsOf d r pre
      have hsame := hstopped n
      rw [← hparts]
      rcases h _ ⟨n, _, rfl⟩ with hagrees | hincluded
      · rw [Disk.Agrees, hsame.manifest] at hagrees
        exact .inl hagrees
      · exact .inr (((included_of_sameRecords hsame hraw hmay).mp hincluded).resolve_left hout)
  · rintro h d' ⟨n, aside, rfl⟩
    have hsame : Disk.SameRecords d { d.performAll ((swaps r).take n) with aside } :=
      ⟨(hstopped n).hourDirs, (hstopped n).segments, (hstopped n).manifest⟩
    rw [included_of_sameRecords hsame hraw hmay, Disk.Agrees, hsame.manifest]
    rcases h with hout | hmends
    · exact .inr (.inl hout)
    · have hfiles : AgreesWith (d.performAll ((swaps r).take n)).parts.get?
          (d.manifest r.hour.date) r.hour ∨ Lacks (d.performAll ((swaps r).take n)).parts.get?
            (d.manifest r.hour.date) r.hour := by
        rcases get?_take_swapsOf d r TableName.all n with
          ⟨pre, hpre, hparts⟩ | ⟨pre, name, hpre, hparts⟩
        · rw [swaps, ← swapsOf, hparts]
          exact hmends pre hpre
        · rw [swaps, ← swapsOf, hparts]
          exact without_agrees_or_lacks (hmends pre hpre)
      rcases hfiles with hagrees | hlacks
      · exact .inl hagrees
      · exact .inr (.inr hlacks)

/-! ## A bake over one that is complete -/

/-- The new parts of a table are those recorded. -/
def SameParts (r : HourReading) (manifest : Option Manifest) (name : TableName) : Prop :=
  ∀ path, isUnder (partitionDir name r.hour) path = true →
    ((Disk.put ∅ (r.files name)).get? path).map File.sha256 = recordedSha manifest r.hour path

/-- One of the recorded parts of a table is not among the new ones. -/
def DropsPart (r : HourReading) (manifest : Option Manifest) (name : TableName) : Prop :=
  ∃ path, isUnder (partitionDir name r.hour) path = true ∧
    recordedSha manifest r.hour path ≠ none ∧ (Disk.put ∅ (r.files name)).get? path = none

/-- The first table, in order, whose parts the bake changes loses one by name. -/
def DropsFirst (r : HourReading) (manifest : Option Manifest) : Prop :=
  ∀ pre name, pre ++ [name] <+: TableName.all → (∀ other ∈ pre, SameParts r manifest other) →
    SameParts r manifest name ∨ DropsPart r manifest name

/-- A mixture has the new parts of the tables swapped, and the old ones of the
others. -/
theorem mixture_of_isUnder {files : String → Option File} {tables : List TableName}
    {name : TableName} {path : String} (hunder : isUnder (partitionDir name r.hour) path = true) :
    mixture r files tables path =
      if name ∈ tables then (Disk.put ∅ (r.files name)).get? path else files path := by
  induction tables generalizing files with
  | nil => rfl
  | cons first rest ih =>
      have hstep : mixture r files (first :: rest) path = mixture r
          (withFiles (partitionDir first r.hour) (r.files first) files) rest path := rfl
      rw [hstep, ih]
      by_cases hrest : name ∈ rest
      · rw [if_pos hrest, if_pos (List.mem_cons_of_mem _ hrest)]
      · rw [if_neg hrest, withFiles]
        by_cases hfirst : name = first
        · subst hfirst
          rw [if_pos hunder, if_pos List.mem_cons_self]
        · have hout : name ∉ first :: rest := by simp [hfirst, hrest]
          have hapart : ¬ isUnder (partitionDir first r.hour) path = true := fun h =>
            hfirst (partitionDir_apart hunder h).1
          rw [if_neg hapart, if_neg hout]

theorem mends_iff (hagrees : d.Agrees r.hour) :
    Mends d r ↔ DropsFirst r (d.manifest r.hour.date) := by
  constructor
  · intro hmends pre name hpre hsame
    rcases hmends _ hpre with hall | ⟨path, hrecorded, hgone⟩
    · refine .inl fun path hunder => ?_
      have hpath := hall path ⟨name, hunder⟩
      rwa [mixture_of_isUnder hunder, if_pos (List.mem_append_right _ List.mem_cons_self)] at hpath
    · obtain ⟨other, hunder⟩ := isPartOf_of_recorded hrecorded
      rw [mixture_of_isUnder hunder] at hgone
      split at hgone
      · next hin =>
          rcases List.mem_append.mp hin with hin | hin
          · have hpath := hsame other hin path hunder
            rw [hgone] at hpath
            exact absurd hpath.symm hrecorded
          · obtain rfl := List.mem_singleton.mp hin
            exact .inr ⟨path, hunder, hrecorded, hgone⟩
      · have hpath := hagrees path ⟨other, hunder⟩
        rw [hgone] at hpath
        exact absurd hpath.symm hrecorded
  · intro hfirst pre hpre
    classical
    cases hfind : pre.find? fun name => ¬ SameParts r (d.manifest r.hour.date) name with
    | none =>
        -- no table that was swapped has changed
        refine .inl fun path hpart => ?_
        obtain ⟨name, hunder⟩ := hpart
        rw [mixture_of_isUnder hunder]
        split
        · next hin =>
            have hsame : SameParts r (d.manifest r.hour.date) name := by
              simpa using List.find?_eq_none.mp hfind name hin
            exact hsame path hunder
        · exact hagrees path ⟨name, hunder⟩
    | some name =>
        obtain ⟨hchanged, before, after, rfl, hbefore⟩ := List.find?_eq_some_iff_append.mp hfind
        have hpre' : before ++ [name] <+: TableName.all :=
          List.IsPrefix.trans ⟨after, List.append_assoc _ _ _⟩ hpre
        have hsame : ∀ other ∈ before, SameParts r (d.manifest r.hour.date) other := by
          intro other hother
          simpa using hbefore other hother
        obtain ⟨path, hunder, hrecorded, hgone⟩ := (hfirst before name hpre' hsame).resolve_left
          (of_decide_eq_true hchanged)
        refine .inr ⟨path, hrecorded, ?_⟩
        rw [mixture_of_isUnder hunder, if_pos (by simp)]
        exact hgone

/-- Wherever a bake of an hour with nothing pruned stops, its part files agree
with the manifest or the next run includes it: exactly if the hour is outdated
anyway, or if every number of swaps leaves such files. Over a bake that is
complete, that is if the first table to change loses a part by name. -/
theorem crash_repaired_iff (d : Disk) (r : HourReading) (hraw : r.hour ∈ d.rawHours)
    (hmay : mayBake (d.manifest r.hour.date) r.hour = true) :
    (Repairable d r ↔ d.Outdated r.hour ∨ Mends d r) ∧
      (d.Agrees r.hour →
        (Repairable d r ↔ d.Outdated r.hour ∨ DropsFirst r (d.manifest r.hour.date))) := by
  refine ⟨repairable_iff hraw hmay, fun hagrees => ?_⟩
  rw [repairable_iff hraw hmay, mends_iff hagrees]

/-! ## The same names with other contents -/

/-- The first hour of the first day. -/
def firstHour : HourKey := ⟨Date.epoch, 0, HourKey.first_lt⟩

/-- A day with one hour baked: one segment, and one part of the deltas. -/
def onceBaked : Manifest :=
  match withHour emptyDay (bakedHour 0 "1970-01-01/00/conn-01.tape.zst"
      "deltas/dt=1970-01-01/hour=00/part-0.parquet") "1" none with
  | .ok m => m
  | .error _ => emptyDay

theorem onceBaked_date : onceBaked.date = Date.epoch := by decide +kernel

/-- The archive of that day. -/
def bakedDisk : Disk where
  hourDirs := [firstHour]
  segments := Disk.put ∅ [("1970-01-01/00/conn-01.tape.zst", ⟨10, "aa"⟩)]
  parts := Disk.put ∅ [("deltas/dt=1970-01-01/hour=00/part-0.parquet", ⟨5, "bb"⟩)]
  aside := ∅
  manifest date := if date = Date.epoch then some onceBaked else none
  dated date m h := by
    split at h
    · next hdate => rw [hdate, ← Option.some.inj h, onceBaked_date]
    · cases h

/-- Bakes of the hour again, into these parts of the deltas. -/
def rebake (deltas : List PartFile) : HourReading where
  hour := firstHour
  segments := [⟨"1970-01-01/00/conn-01.tape.zst", 0, 10, "aa", 1, none, none, false⟩]
  result := ⟨(spanHour 0 threeSeconds).accounting, (spanHour 0 threeSeconds).integrity, []⟩
  written
    | .deltas => deltas
    | _ => []
  ofHour := by decide

/-- A smaller part size makes two parts of the one. -/
def smallerParts : HourReading :=
  rebake [⟨"part-0.parquet", 1, ⟨3, "cc"⟩⟩, ⟨"part-1.parquet", 1, ⟨3, "dd"⟩⟩]

theorem crash_repaired_smallerParts :
    (Repairable bakedDisk smallerParts ↔
      bakedDisk.Outdated firstHour ∨ Mends bakedDisk smallerParts) ∧
    (bakedDisk.Agrees firstHour → (Repairable bakedDisk smallerParts ↔
      bakedDisk.Outdated firstHour ∨
        DropsFirst smallerParts (bakedDisk.manifest Date.epoch))) :=
  crash_repaired_iff bakedDisk smallerParts (by decide +kernel) (by decide +kernel)

/-- The bake stops once the deltas are swapped: the part that is recorded has
another hash, there is one besides, and the next run takes the hour for baked. -/
theorem smallerParts_not_repaired : ¬ Repairable bakedDisk smallerParts := by
  intro h
  let d := bakedDisk.performAll ((swaps smallerParts).take 3)
  have hother : (d.parts.get? "deltas/dt=1970-01-01/hour=00/part-0.parquet").map File.sha256 ≠
      recordedSha (d.manifest Date.epoch) firstHour
        "deltas/dt=1970-01-01/hour=00/part-0.parquet" := by decide +kernel
  have hpart : isPartOf firstHour "deltas/dt=1970-01-01/hour=00/part-0.parquet" :=
    ⟨.deltas, by decide +kernel⟩
  have htaken : d.takes false firstHour = false := by decide +kernel
  rcases h d ⟨3, _, rfl⟩ with hagrees | hincluded
  · exact hother (hagrees _ hpart)
  · have hraw : firstHour ∈ d.rawHours := by decide +kernel
    rw [(Disk.included_iff hraw).mp hincluded] at htaken
    cases htaken

end Tape.Bake
