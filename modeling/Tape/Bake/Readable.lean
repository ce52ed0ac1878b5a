import Mathlib
import Tape.Bake.BookTime
import Tape.Bake.Merging

/-!
# Manifests that can be read back

A manifest is built from its parts without a look at the annotations of its
fields, and written; they are looked at when it is decoded. `Typed` says of a
manifest that they hold. The encoder and the decoder are parameters, of which
is known that what is encoded decodes to an equal manifest exactly if it is
typed (`ManifestCodec.Faithful`).

`with_hour` builds a typed manifest from a typed one exactly if the new hour is
typed (`withHour_typed_iff`), since the day's numbers are sums over the hours,
and the hour is typed if its records were forward. Without that it need not be:
one snapshot stamped before the gap it ends is enough.
-/

namespace Tape.Bake

/-! ## The patterns of the names -/

/-- A pattern's end also matches before a newline that ends the text. -/
def withoutNewline (text : List Char) : List Char :=
  if text.getLast? = some '\n' then text.dropLast else text

/-- A digit of a hash, as it is written. -/
def isHexDigit (c : Char) : Bool := ('0' ≤ c ∧ c ≤ '9') ∨ ('a' ≤ c ∧ c ≤ 'f')

/-- `Sha256`. -/
def isSha256 (text : String) : Bool :=
  let body := withoutNewline text.toList
  body.length = 64 ∧ body.all isHexDigit = true

/-- A decimal digit. -/
def isDigit (c : Char) : Bool := (Fixedpoint.digit? c).isSome

/-- The characters of a text, each matched by itself. -/
def literally (text : String) : List (Char → Bool) := text.toList.map fun c c' => c' = c

/-- What follows after one character of each class. -/
def afterClasses : List (Char → Bool) → List Char → Option (List Char)
  | [], text => some text
  | _ :: _, [] => none
  | p :: classes, c :: text => if p c = true then afterClasses classes text else none

/-- `\d{4}-\d{2}-\d{2}`. -/
def datePattern : List (Char → Bool) :=
  List.replicate 4 isDigit ++ literally "-" ++ List.replicate 2 isDigit ++ literally "-" ++
    List.replicate 2 isDigit

/-- `SegmentName`. -/
def isSegmentName (name : String) : Bool :=
  match afterClasses (datePattern ++ literally "/" ++ List.replicate 2 isDigit ++ literally "/")
      (withoutNewline name.toList) with
  | none => false
  | some file => isSegmentFile file

/-- `PartName`. -/
def isPartName (name : String) : Bool :=
  let table := (withoutNewline name.toList).span fun c => 'a' ≤ c ∧ c ≤ 'z'
  match afterClasses (literally "/dt=" ++ datePattern ++ literally "/hour=" ++
      List.replicate 2 isDigit ++ literally "/part-") table.2 with
  | none => false
  | some ordinal =>
      let number := ordinal.span isDigit
      table.1 ≠ [] ∧ number.1 ≠ [] ∧ number.2 = ".parquet".toList

/-! ## The annotations -/

/-- `HourOfDay`. -/
def IsHourOfDay (hour : Int) : Prop := 0 ≤ hour ∧ hour ≤ 23

/-- `Ratio`. -/
def IsRatio (ratio : Int × Int) : Prop := 0 ≤ ratio.1 ∧ 0 ≤ ratio.2

/-- The fields of a span are within their types. -/
@[mk_iff] structure ConnectionSpan.Typed (s : ConnectionSpan) : Prop where
  connId : 0 ≤ s.connId

/-- The fields of the gap facts are within their types. -/
@[mk_iff] structure GapFacts.Typed (g : GapFacts) : Prop where
  count : 0 ≤ g.count
  staleMarketNs : 0 ≤ g.staleMarketNs
  observedMarketNs : 0 ≤ g.observedMarketNs

/-- The fields of the audit facts are within their types. -/
@[mk_iff] structure AuditFacts.Typed (a : AuditFacts) : Prop where
  exact : 0 ≤ a.exact
  consistent : 0 ≤ a.consistent
  inconsistent : 0 ≤ a.inconsistent
  undecidable : 0 ≤ a.undecidable
  levelsMismatched : 0 ≤ a.levelsMismatched

/-- The fields of an hour's integrity are within their types. -/
@[mk_iff] structure HourIntegrity.Typed (i : HourIntegrity) : Prop where
  spans : ∀ span ∈ i.spans, span.Typed
  gaps : i.gaps.Typed
  audits : i.audits.Typed
  writerOverflowDropped : 0 ≤ i.writerOverflowDropped

/-- The counts of the accounting are numbers that cannot be negative. -/
@[mk_iff] structure HourBake.Typed (h : HourBake) : Prop where
  hour : IsHourOfDay h.hour
  bakeVersion : 1 ≤ h.bakeVersion
  integrity : h.integrity.Typed

/-- The fields of a segment entry are within their types. -/
@[mk_iff] structure SegmentEntry.Typed (e : SegmentEntry) : Prop where
  path : isSegmentName e.path = true
  hour : IsHourOfDay e.hour
  bytes : 0 ≤ e.bytes
  sha256 : isSha256 e.sha256 = true
  records : 0 ≤ e.records

/-- The fields of a part entry are within their types. -/
@[mk_iff] structure PartEntry.Typed (e : PartEntry) : Prop where
  path : isPartName e.path = true
  hour : IsHourOfDay e.hour
  rows : 0 ≤ e.rows
  bytes : 0 ≤ e.bytes
  sha256 : isSha256 e.sha256 = true

/-- The fields of a table entry are within their types. -/
@[mk_iff] structure TableEntry.Typed (t : TableEntry) : Prop where
  rows : 0 ≤ t.rows
  files : ∀ part ∈ t.files, part.Typed

/-- The fields of the uptime are within their types. -/
@[mk_iff] structure Uptime.Typed (u : Uptime) : Prop where
  secondsRecording : 0 ≤ u.secondsRecording
  secondsInDay : 0 ≤ u.secondsInDay
  ratio : IsRatio u.ratio

/-- The fields of the gap summary are within their types. -/
@[mk_iff] structure GapSummary.Typed (g : GapSummary) : Prop where
  count : 0 ≤ g.count
  marketSecondsAffected : 0 ≤ g.marketSecondsAffected
  marketSecondsObserved : 0 ≤ g.marketSecondsObserved
  share : IsRatio g.share

/-- The fields of the audit summary are within their types. -/
@[mk_iff] structure AuditSummary.Typed (a : AuditSummary) : Prop where
  booksSampled : 0 ≤ a.booksSampled
  booksExact : 0 ≤ a.booksExact
  booksConsistent : 0 ≤ a.booksConsistent
  booksInconsistent : 0 ≤ a.booksInconsistent
  booksUndecidable : 0 ≤ a.booksUndecidable
  levelsMismatched : 0 ≤ a.levelsMismatched
  exactRatio : IsRatio a.exactRatio
  consistencyRatio : IsRatio a.consistencyRatio

/-- The fields of a pruned segment are within their types. -/
@[mk_iff] structure PrunedSegment.Typed (p : PrunedSegment) : Prop where
  path : isSegmentName p.path = true
  bytes : 0 ≤ p.bytes
  sha256 : isSha256 p.sha256 = true

/-- All fields of a manifest are within their types. -/
@[mk_iff] structure ManifestData.Typed (m : ManifestData) : Prop where
  segments : ∀ e ∈ m.segments, e.Typed
  tables : ∀ name, (m.tables name).Typed
  hours : ∀ h ∈ m.bake.hours, h.Typed
  uptime : m.uptime.Typed
  gaps : m.gaps.Typed
  audits : m.audits.Typed
  pruned : ∀ p ∈ m.pruned, p.Typed

instance (hour : Int) : Decidable (IsHourOfDay hour) := inferInstanceAs (Decidable (_ ∧ _))

instance (ratio : Int × Int) : Decidable (IsRatio ratio) := inferInstanceAs (Decidable (_ ∧ _))

instance (s : ConnectionSpan) : Decidable s.Typed :=
  decidable_of_iff _ (ConnectionSpan.typed_iff s).symm

instance (g : GapFacts) : Decidable g.Typed := decidable_of_iff _ (GapFacts.typed_iff g).symm

instance (a : AuditFacts) : Decidable a.Typed := decidable_of_iff _ (AuditFacts.typed_iff a).symm

instance (i : HourIntegrity) : Decidable i.Typed :=
  decidable_of_iff _ (HourIntegrity.typed_iff i).symm

instance (h : HourBake) : Decidable h.Typed := decidable_of_iff _ (HourBake.typed_iff h).symm

instance (e : SegmentEntry) : Decidable e.Typed :=
  decidable_of_iff _ (SegmentEntry.typed_iff e).symm

instance (e : PartEntry) : Decidable e.Typed := decidable_of_iff _ (PartEntry.typed_iff e).symm

instance (t : TableEntry) : Decidable t.Typed := decidable_of_iff _ (TableEntry.typed_iff t).symm

instance (u : Uptime) : Decidable u.Typed := decidable_of_iff _ (Uptime.typed_iff u).symm

instance (g : GapSummary) : Decidable g.Typed := decidable_of_iff _ (GapSummary.typed_iff g).symm

instance (a : AuditSummary) : Decidable a.Typed :=
  decidable_of_iff _ (AuditSummary.typed_iff a).symm

instance (p : PrunedSegment) : Decidable p.Typed :=
  decidable_of_iff _ (PrunedSegment.typed_iff p).symm

instance (m : ManifestData) : Decidable m.Typed :=
  have : Decidable (∀ name, (m.tables name).Typed) :=
    decidable_of_iff (∀ name ∈ TableName.all, (m.tables name).Typed)
      ⟨fun h name => h name name.mem_all, fun h name _ => h name⟩
  decidable_of_iff _ (ManifestData.typed_iff m).symm

/-! ## The codec -/

/-- Counts that are equal, in whatever order the dictionaries list them. -/
structure RecordAccounting.Same (a b : RecordAccounting) : Prop where
  records : ∀ k, a.records.get? k = b.records.get? k
  baked : ∀ k, a.baked.get? k = b.baked.get? k
  notBaked : ∀ k, a.notBaked.get? k = b.notBaked.get? k
  decodeFailures : ∀ k, a.decodeFailures.get? k = b.decodeFailures.get? k
  corruptSegments : a.corruptSegments = b.corruptSegments

/-- Two bakes of an hour that are written the same way. -/
structure HourBake.Same (a b : HourBake) : Prop where
  hour : a.hour = b.hour
  bakeVersion : a.bakeVersion = b.bakeVersion
  softwareVersion : a.softwareVersion = b.softwareVersion
  accounting : a.accounting.Same b.accounting
  integrity : a.integrity = b.integrity

/-- `==` of two manifests. -/
structure Manifest.Same (m m' : Manifest) : Prop where
  date : m.date = m'.date
  softwareVersion : m.softwareVersion = m'.softwareVersion
  segments : m.segments = m'.segments
  tables : m.tables = m'.tables
  hours : List.Forall₂ HourBake.Same m.bake.hours m'.bake.hours
  uptime : m.uptime = m'.uptime
  gaps : m.gaps = m'.gaps
  audits : m.audits = m'.audits
  chronyOffsetMs : m.chronyOffsetMs = m'.chronyOffsetMs
  pruned : m.pruned = m'.pruned

theorem Manifest.Same.refl (m : Manifest) : m.Same m :=
  ⟨rfl, rfl, rfl, rfl, List.forall₂_same.mpr fun _ _ =>
    ⟨rfl, rfl, rfl, ⟨fun _ => rfl, fun _ => rfl, fun _ => rfl, fun _ => rfl, rfl⟩, rfl⟩,
    rfl, rfl, rfl, rfl, rfl⟩

/-- `encode_manifest` and `decode_manifest`. -/
structure ManifestCodec (Document : Type*) where
  encode : Manifest → Document
  decode : Document → Except String Manifest

namespace ManifestCodec

variable {Document : Type*}

/-- What is encoded decodes to an equal manifest. -/
def ReadsBack (codec : ManifestCodec Document) (m : Manifest) : Prop :=
  ∃ m', codec.decode (codec.encode m) = .ok m' ∧ m'.Same m

/-- A manifest is read back exactly if its fields are within their annotations. -/
def Faithful (codec : ManifestCodec Document) : Prop := ∀ m, codec.ReadsBack m ↔ m.Typed

end ManifestCodec

/-! ## The numbers of the day -/

theorem sum_hours_nonneg {hours : List HourBake} {f : HourBake → Int}
    (h : ∀ entry ∈ hours, 0 ≤ f entry) : 0 ≤ (hours.map f).sum := by
  refine List.sum_nonneg fun n hn => ?_
  obtain ⟨entry, hentry, rfl⟩ := List.mem_map.mp hn
  exact h entry hentry

theorem typed_summarizeUptime (date : Date) (hours : List HourBake) :
    (summarizeUptime date hours).Typed := by
  obtain ⟨-, hseconds, -, hday, hratio, -⟩ := summarizeUptime_spec date hours
  refine ⟨hseconds, ?_, ?_⟩
  · rw [hday]
    decide
  · rw [hratio]
    exact ⟨hseconds, by show (0 : Int) ≤ 86400; decide⟩

section Summaries

variable {hours : List HourBake} (h : ∀ entry ∈ hours, entry.Typed)
include h

theorem typed_summarizeGaps : (summarizeGaps hours).Typed := by
  have hns : 0 ≤ nsPerS := by decide
  have haffected : 0 ≤ (hours.map fun h => h.integrity.gaps.staleMarketNs).sum :=
    sum_hours_nonneg fun entry he => (h entry he).integrity.gaps.staleMarketNs
  have hobserved : 0 ≤ (hours.map fun h => h.integrity.gaps.observedMarketNs).sum :=
    sum_hours_nonneg fun entry he => (h entry he).integrity.gaps.observedMarketNs
  refine ⟨?_, Int.ediv_nonneg haffected hns, Int.ediv_nonneg hobserved hns,
    Int.ediv_nonneg haffected hns, Int.ediv_nonneg hobserved hns⟩
  exact sum_hours_nonneg fun entry he => (h entry he).integrity.gaps.count

theorem typed_summarizeAudits : (summarizeAudits hours).Typed := by
  have hexact : 0 ≤ (hours.map fun h => h.integrity.audits.exact).sum :=
    sum_hours_nonneg fun entry he => (h entry he).integrity.audits.exact
  have hconsistent : 0 ≤ (hours.map fun h => h.integrity.audits.consistent).sum :=
    sum_hours_nonneg fun entry he => (h entry he).integrity.audits.consistent
  have hinconsistent : 0 ≤ (hours.map fun h => h.integrity.audits.inconsistent).sum :=
    sum_hours_nonneg fun entry he => (h entry he).integrity.audits.inconsistent
  have hsampled := Int.add_nonneg (Int.add_nonneg hexact hconsistent) hinconsistent
  refine ⟨hsampled, hexact, hconsistent, hinconsistent, ?_, ?_, ⟨hexact, hsampled⟩,
    ⟨Int.add_nonneg hexact hconsistent, hsampled⟩⟩
  · exact sum_hours_nonneg fun entry he => (h entry he).integrity.audits.undecidable
  · exact sum_hours_nonneg fun entry he => (h entry he).integrity.audits.levelsMismatched

end Summaries

theorem TableEntry.typed_of_files {t : TableEntry} (h : ∀ part ∈ t.files, part.Typed) :
    t.Typed := by
  refine ⟨?_, h⟩
  rw [t.total]
  refine List.sum_nonneg fun n hn => ?_
  obtain ⟨part, hpart, rfl⟩ := List.mem_map.mp hn
  exact (h part hpart).rows

/-! ## A new hour -/

/-- What a bake brings besides the hour itself is typed: it is read from the
names, the sizes and the hashes of the files. -/
structure BakedHour.FilesTyped (new : BakedHour) : Prop where
  segments : ∀ e ∈ new.segments, e.Typed
  parts : ∀ name, ∀ part ∈ new.parts name, part.Typed

/-- Replacing an hour of a typed manifest gives a typed manifest exactly if the
hour is typed. -/
theorem withHour_typed_iff {m r : Manifest} {new : BakedHour} {version : String}
    {offset : Option Int} (hm : m.Typed) (hfiles : new.FilesTyped)
    (h : withHour m new version offset = .ok r) : r.Typed ↔ new.bake.Typed := by
  have hreplaced := replaced_of_ok h
  obtain ⟨-, -, -, hr⟩ := withHour_ok h
  constructor
  · intro htyped
    exact htyped.hours new.bake ((hreplaced.hours _).mpr (.inr rfl))
  · intro hbake
    have hhours : ∀ entry ∈ r.bake.hours, entry.Typed := by
      intro entry hentry
      rcases (hreplaced.hours entry).mp hentry with ⟨hold, -⟩ | rfl
      · exact hm.hours entry hold
      · exact hbake
    refine ⟨fun e he => ?_, fun name => ?_, hhours, ?_, ?_, ?_, fun p hp => ?_⟩
    · rcases (hreplaced.segments e).mp he with ⟨hold, -⟩ | hnew
      · exact hm.segments e hold
      · exact hfiles.segments e hnew
    · refine TableEntry.typed_of_files fun part hpart => ?_
      rcases (hreplaced.files name part).mp hpart with ⟨hold, -⟩ | hnew
      · exact (hm.tables name).files part hold
      · exact hfiles.parts name part hnew
    · rw [hr.derived.uptime]
      exact typed_summarizeUptime _ _
    · rw [hr.derived.gaps]
      exact typed_summarizeGaps hhours
    · rw [hr.derived.audits]
      exact typed_summarizeAudits hhours
    · exact hm.pruned p ((hreplaced.pruned p).mp hp)

/-- `BAKE_VERSION`. -/
def bakeVersion : Int := 1

/-- The entry of an hour that was interpreted, as `bake_hour` builds it. -/
def hourBake (hour : HourKey) (softwareVersion : String) (result : HourResult) : HourBake where
  hour := hour.hour
  bakeVersion := bakeVersion
  softwareVersion := softwareVersion
  accounting := result.accounting
  integrity := result.integrity

theorem typed_hourBake {hour : HourKey} {softwareVersion : String} {result : HourResult} :
    (hourBake hour softwareVersion result).Typed ↔ result.integrity.Typed := by
  refine ⟨fun h => h.integrity, fun h => ⟨⟨?_, ?_⟩, Int.le_refl 1, h⟩⟩
  · exact Int.natCast_nonneg _
  · have hin := hour.hourIn
    show (hour.hour : Int) ≤ 23
    omega

/-- What the interpreter counted is typed, if none of it is negative. -/
theorem HourInterpreter.Kept.typed {h : HourInterpreter} (hkept : h.Kept) :
    h.integrity.Typed where
  spans span hspan := ⟨hkept.spanned span hspan⟩
  gaps := ⟨hkept.gaps, hkept.stale, hkept.observed⟩
  audits := ⟨Int.natCast_nonneg _, Int.natCast_nonneg _, Int.natCast_nonneg _,
    Int.natCast_nonneg _, hkept.levels⟩
  writerOverflowDropped := hkept.dropped

theorem HourInterpreter.finish_integrity {h : HourInterpreter} {result : HourResult}
    (hfinish : h.finish = .ok result) : result.integrity = h.integrity := by
  rw [finish] at hfinish
  split at hfinish
  · cases hfinish
  · obtain rfl := Except.ok.inj hfinish
    rfl

/-- An hour of forward records leaves a manifest that reads back, with no
negative stale time; if they are steady besides, the stale time is within the
observed time. -/
theorem withHour_reads_back {Document : Type*} {codec : ManifestCodec Document}
    (hcodec : codec.Faithful) {d : Decoders} {hour : HourKey} {readings : List Reading}
    {h : HourInterpreter} {result : HourResult} {m r : Manifest} {new : BakedHour}
    {version : String} {offset : Option Int}
    (hread : (HourInterpreter.new hour.startWallNs).readAll d readings = .ok h)
    (hfinish : h.finish = .ok result) (hm : codec.ReadsBack m)
    (hbake : new.bake = hourBake hour version result) (hfiles : new.FilesTyped)
    (hwith : withHour m new version offset = .ok r)
    (hforward : (HourInterpreter.new hour.startWallNs).Forward d readings) :
    codec.ReadsBack r ∧ 0 ≤ result.integrity.gaps.staleMarketNs ∧
      ((HourInterpreter.new hour.startWallNs).Steady d readings →
        result.integrity.gaps.staleMarketNs ≤ result.integrity.gaps.observedMarketNs) := by
  have hkept := (HourInterpreter.kept_new hour.startWallNs).readAll hread hforward
  have hintegrity := HourInterpreter.finish_integrity hfinish
  have htyped : result.integrity.Typed := by
    rw [hintegrity]
    exact hkept.typed
  refine ⟨(hcodec r).mpr ?_, htyped.gaps.staleMarketNs, fun hsteady => ?_⟩
  · rw [withHour_typed_iff ((hcodec m).mp hm) hfiles hwith, hbake]
    exact typed_hourBake.mpr htyped
  · rw [hintegrity]
    exact HourInterpreter.timed_readAll (Int.le_refl 0) hread hforward hsteady

/-- Documents that are manifests, and are checked when they are read. -/
def plainCodec : ManifestCodec Manifest where
  encode m := m
  decode m := if m.Typed then .ok m else .error "a field is not within its annotation"

theorem plainCodec_faithful : plainCodec.Faithful := by
  intro m
  constructor
  · intro ⟨m', hdecode, _⟩
    by_contra htyped
    have hrefused : plainCodec.decode (plainCodec.encode m) =
        .error "a field is not within its annotation" := if_neg htyped
    rw [hrefused] at hdecode
    cases hdecode
  · exact fun htyped => ⟨m, if_pos htyped, Manifest.Same.refl m⟩

/-- The first hour of the first day. -/
def midnight : HourKey := ⟨Date.epoch, 0, HourKey.first_lt⟩

/-- A market is snapshotted at 100, a gap stales it at 300, and it is
snapshotted again. -/
def snapshottedAgain (recvWallNs : Int) : List Reading :=
  [.segment "1970-01-01/00/conn-00.tape.zst" plainHeader
    ⟨[⟨.frame, 0, 100, 100, [0]⟩, ⟨.gap, 0, 300, 300, [2]⟩, ⟨.frame, 0, 400, recvWallNs, [0]⟩],
      none⟩]

/-- Its one segment. -/
def snapshottedSegment : SegmentEntry :=
  ⟨"1970-01-01/00/conn-00.tape.zst", 0, 10,
    "ca978112ca1bbdcafac231b39a23dc4da786eff8147c4e72b9807785afee48bb", 3, some 100, some 500,
    false⟩

/-- Its part files: the rows of a snapshot and of a gap. -/
def snapshottedParts : TableName → List PartEntry
  | .snapshots => [⟨"snapshots/dt=1970-01-01/hour=00/part-0.parquet", 0, 2, 20,
      "3e23e8160039594a33894f6564e1b1348bbd7a0088d42c4acb73eeaed59c009d"⟩]
  | .gaps => [⟨"gaps/dt=1970-01-01/hour=00/part-0.parquet", 0, 1, 20,
      "2e7d2c03a9507ae265ecf5b5356885a53393a2029d241394997265a1a25aefc6"⟩]
  | _ => []

/-- The hour with the segment and the parts of its two tables. -/
def snapshottedHour (result : HourResult) : BakedHour :=
  ⟨hourBake midnight "1" result, [snapshottedSegment], snapshottedParts⟩

theorem filesTyped_snapshottedHour (result : HourResult) :
    (snapshottedHour result).FilesTyped := by
  refine ⟨?_, fun name => ?_⟩
  · show ∀ e ∈ [snapshottedSegment], e.Typed
    decide +kernel
  · show ∀ part ∈ snapshottedParts name, part.Typed
    cases name <;> decide +kernel

/-- The facts of the gaps an hour leaves, and whether it can be filed. -/
def filedGaps (readings : List Reading) : Option (GapFacts × Bool) :=
  match (HourInterpreter.new midnight.startWallNs).readAll twoMarkets readings with
  | .error _ => none
  | .ok h =>
      match h.finish with
      | .error _ => none
      | .ok result =>
          some (result.integrity.gaps,
            (withHour emptyDay (snapshottedHour result) "1" none).isOk)

theorem exists_filed {readings : List Reading} {gaps : GapFacts}
    (h : filedGaps readings = some (gaps, true)) :
    ∃ h result r, (HourInterpreter.new midnight.startWallNs).readAll twoMarkets readings = .ok h ∧
      h.finish = .ok result ∧ result.integrity.gaps = gaps ∧
      withHour emptyDay (snapshottedHour result) "1" none = .ok r := by
  rw [filedGaps] at h
  split at h
  · cases h
  · next h' hread =>
      split at h
      · cases h
      · next result hfinish =>
          obtain ⟨hgaps, hok⟩ := Prod.mk.inj (Option.some.inj h)
          cases hwith : withHour emptyDay (snapshottedHour result) "1" none with
          | error e =>
              rw [hwith] at hok
              cases hok
          | ok r => exact ⟨h', result, r, hread, hfinish, hgaps, hwith⟩

theorem typed_emptyDay : emptyDay.Typed := by decide +kernel

/-- The second snapshot is stamped after the gap: the market was stale for 200
of the 400 it was observed. -/
theorem withHour_reads_back_snapshotted :
    ∃ h result r, (HourInterpreter.new midnight.startWallNs).readAll twoMarkets
        (snapshottedAgain 500) = .ok h ∧ h.finish = .ok result ∧
      result.integrity.gaps = ⟨1, 200, 400⟩ ∧
      withHour emptyDay (snapshottedHour result) "1" none = .ok r ∧
      plainCodec.ReadsBack r ∧
      result.integrity.gaps.staleMarketNs ≤ result.integrity.gaps.observedMarketNs := by
  obtain ⟨h, result, r, hread, hfinish, hgaps, hwith⟩ :=
    @exists_filed (snapshottedAgain 500) ⟨1, 200, 400⟩ (by decide +kernel)
  obtain ⟨hback, -, hwithin⟩ := withHour_reads_back plainCodec_faithful hread hfinish
    ((plainCodec_faithful emptyDay).mpr typed_emptyDay) rfl (filesTyped_snapshottedHour result)
    hwith (by decide +kernel)
  exact ⟨h, result, r, hread, hfinish, hgaps, hwith, hback, hwithin (by decide +kernel)⟩

/-- It is stamped before the gap, at 200: the market was stale for -100, and
the manifest of the day cannot be read back. -/
theorem snapshot_before_gap :
    ∃ h result r, (HourInterpreter.new midnight.startWallNs).readAll twoMarkets
        (snapshottedAgain 200) = .ok h ∧ h.finish = .ok result ∧
      withHour emptyDay (snapshottedHour result) "1" none = .ok r ∧
      result.integrity.gaps = ⟨1, -100, 100⟩ ∧
      ∀ (Document : Type) (codec : ManifestCodec Document), codec.Faithful →
        codec.ReadsBack emptyDay ∧ ¬ codec.ReadsBack r := by
  obtain ⟨h, result, r, hread, hfinish, hgaps, hwith⟩ :=
    @exists_filed (snapshottedAgain 200) ⟨1, -100, 100⟩ (by decide +kernel)
  refine ⟨h, result, r, hread, hfinish, hwith, hgaps, fun Document codec hcodec => ?_⟩
  refine ⟨(hcodec emptyDay).mpr typed_emptyDay, fun hback => ?_⟩
  have hbake := (withHour_typed_iff typed_emptyDay (filesTyped_snapshottedHour result) hwith).mp
    ((hcodec r).mp hback)
  have hstale := (typed_hourBake.mp hbake).gaps.staleMarketNs
  rw [hgaps] at hstale
  exact absurd hstale (by decide)

end Tape.Bake
