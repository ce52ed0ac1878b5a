import Tape.Bake.Merging
import Tape.Bake.Prune

/-!
# Prunable means safe to lose

`Safe` lists what must hold of an hour before its segments may go. It is
stated for two readings of a hash that was not computed: strictly, where the
hash must be there, and leniently, where only a hash that is there must be the
right one. The checks find nothing exactly when the lenient reading holds, and
miss no hash exactly when the strict one does too (`clean_findings`).

From that: an hour is prunable exactly when it is strictly safe, and
`unverified` is given exactly when it is safe leniently only. Hashes only ever
help, so a survey that first looks without them loses nothing.
-/

namespace Tape.Bake

/-! ## What is asked of an hour -/

/-- The hash found is the one expected; unless `strict`, it may be missing. -/
def HashFits (strict : Bool) (found : Option String) (expected : String) : Prop :=
  found = some expected ∨ strict = false ∧ found = none

/-- What must hold of an hour's files and of its day's manifest. -/
structure HourFacts.Safe (strict : Bool) (facts : HourFacts) (m : Manifest) (o : PruneOptions) :
    Prop where
  ended : facts.hour.endWallNs + o.retentionHours * nsPerHour < o.nowWallNs
  day : m.date = facts.hour.date
  baked : ∃ entry ∈ m.bake.hours, entry.hour = facts.hour.hour ∧
    entry.bakeVersion = o.bakeVersion ∧ entry.accounting.failures = 0
  onDisk : ∀ s ∈ facts.segments, ∃ e ∈ m.segments, e.hour = facts.hour.hour ∧
    e.path = s.path ∧ e.bytes = s.bytes ∧ HashFits strict s.sha256 e.sha256
  listed : ∀ e ∈ m.segments, e.hour = facts.hour.hour →
    e.path ∈ facts.segments.map SegmentOnDisk.path ∨ e.path ∈ m.pruned.map PrunedSegment.path
  parts : ∀ name, ∀ e ∈ (m.tables name).files, e.hour = facts.hour.hour →
    ∃ part, (byPath PartOnDisk.path facts.parts).get? e.path = some part ∧
      part.present = true ∧ HashFits strict part.sha256 e.sha256

/-! ## What the checks find -/

/-- No reason was found; with `strict`, no hash was missing either. -/
def Findings.Clean (strict : Bool) (found : Findings) : Prop :=
  found.reasons = ∅ ∧ (strict = true → found.unverified = false)

theorem not_clean_add {strict : Bool} {found : Findings} {reason : PruneReason} :
    ¬ (found.add reason).Clean strict :=
  fun h => Finset.insert_ne_empty _ _ h.1

theorem clean_unverified {strict : Bool} {found : Findings} :
    ({ found with unverified := true } : Findings).Clean strict ↔
      found.Clean strict ∧ strict = false := by
  cases strict <;> simp [Findings.Clean]

/-- What a comparison of hashes asks for. -/
theorem clean_compare {strict : Bool} {found : Findings} {sha256 : Option String}
    {expected : String} {reason : PruneReason} :
    (found.compare sha256 expected reason).Clean strict ↔
      found.Clean strict ∧ HashFits strict sha256 expected := by
  cases sha256 with
  | none =>
      show ({ found with unverified := true } : Findings).Clean strict ↔ _
      simp [clean_unverified, HashFits]
  | some sha256 =>
      rw [Findings.compare]
      split
      · next hne =>
          refine iff_of_false not_clean_add fun h => ?_
          rcases h.2 with hsame | ⟨-, hnone⟩
          · exact hne (Option.some.inj hsame)
          · cases hnone
      · next heq => exact (and_iff_left (.inl (congrArg some (not_not.mp heq)))).symm

/-- A fold whose steps each ask for something more asks for all of it. -/
theorem foldl_iff {α β : Type*} {f : β → α → β} {P : β → Prop} {Q : α → Prop}
    (h : ∀ b a, P (f b a) ↔ P b ∧ Q a) (l : List α) (b : β) :
    P (l.foldl f b) ↔ P b ∧ ∀ a ∈ l, Q a := by
  induction l generalizing b with
  | nil => simp
  | cons a l ih => rw [List.foldl_cons, ih, h, List.forall_mem_cons, and_assoc]

theorem get?_byPath {α : Type*} {path : α → String} {l : List α} (hn : (l.map path).Nodup)
    {k : String} {a : α} : (byPath path l).get? k = some a ↔ a ∈ l ∧ path a = k := by
  have hset : ∀ (d : Dict String α) (a : α), d.set (path a) a = (some a).elim d (d.set (path a)) :=
    fun d a => rfl
  rw [byPath, Dict.get?_foldl_set hset hn fun _ _ => Dict.get?_empty _, Dict.get?_empty]
  constructor
  · rintro (h | ⟨b, hb, hpath, hsome⟩)
    · cases h
    · obtain rfl := Option.some.inj hsome
      exact ⟨hb, hpath⟩
  · exact fun h => .inr ⟨a, h.1, h.2, rfl⟩

theorem path_of_get?_byPath {α : Type*} {path : α → String} {l : List α} {k : String} {a : α}
    (h : (byPath path l).get? k = some a) : path a = k := by
  have hfold : ∀ (l : List α) (d : Dict String α), (∀ k a, d.get? k = some a → path a = k) →
      ∀ k a, (l.foldl (fun d a => d.set (path a) a) d).get? k = some a → path a = k := by
    intro l
    induction l with
    | nil => exact fun _ hd => hd
    | cons b l ih =>
        intro d hd
        refine ih _ fun k a hget => ?_
        rw [Dict.get?_set] at hget
        split at hget
        · next heq => exact Option.some.inj hget ▸ heq
        · exact hd k a hget
  exact hfold l ∅ (by rintro _ _ ⟨⟩) k a h

variable {facts : HourFacts} {m : Manifest} {o : PruneOptions} {strict : Bool}

theorem nodup_hourSegments (m : Manifest) (hour : Int) :
    ((m.hourSegments hour).map SegmentEntry.path).Nodup :=
  (sortedUnique_iff.mp (m.consistent.segmentsSorted.filter _)).imp fun hlt => ne_of_lt hlt

theorem mem_hourSegments {hour : Int} {e : SegmentEntry} :
    e ∈ m.hourSegments hour ↔ e ∈ m.segments ∧ e.hour = hour := by
  simp [Manifest.hourSegments]

theorem mem_hourParts {hour : Int} {e : PartEntry} :
    e ∈ m.hourParts hour ↔ ∃ name, e ∈ (m.tables name).files ∧ e.hour = hour := by
  simp [Manifest.hourParts, TableName.mem_all]

theorem hourBake_eq_some_iff {hour : Int} {entry : HourBake} :
    m.hourBake hour = some entry ↔ entry ∈ m.bake.hours ∧ entry.hour = hour := by
  have hfound : ∀ {e}, m.hourBake hour = some e → e ∈ m.bake.hours ∧ e.hour = hour := by
    intro e h
    have hhour := List.find?_some h
    exact ⟨List.mem_of_find?_eq_some h, of_decide_eq_true hhour⟩
  refine ⟨hfound, ?_⟩
  rintro ⟨hentry, hhour⟩
  cases h : m.hourBake hour with
  | none => exact absurd (decide_eq_true hhour) (List.find?_eq_none.mp h entry hentry)
  | some other =>
      obtain ⟨hother, hsame⟩ := hfound h
      rw [eq_of_key m.bake.ordered hother hentry (hsame.trans hhour.symm)]

theorem clean_checkSegmentFile (baked : Dict String SegmentEntry) (found : Findings)
    (s : SegmentOnDisk) :
    (checkSegmentFile baked found s).Clean strict ↔ found.Clean strict ∧
      ∃ e, baked.get? s.path = some e ∧ e.bytes = s.bytes ∧ HashFits strict s.sha256 e.sha256 := by
  rw [checkSegmentFile]
  cases hbaked : baked.get? s.path with
  | none =>
      refine iff_of_false not_clean_add ?_
      rintro ⟨-, e, he, -⟩
      cases he
  | some expected =>
      dsimp only
      split
      · next hbytes =>
          refine iff_of_false not_clean_add ?_
          rintro ⟨-, e, he, hsame, -⟩
          obtain rfl := Option.some.inj he
          exact hbytes hsame.symm
      · next hbytes =>
          rw [clean_compare]
          refine and_congr_right fun _ => ?_
          constructor
          · exact fun h => ⟨expected, rfl, (not_not.mp hbytes).symm, h⟩
          · rintro ⟨e, he, -, h⟩
            obtain rfl := Option.some.inj he
            exact h

theorem clean_checkPartFile (onDisk : Dict String PartOnDisk) (found : Findings) (e : PartEntry) :
    (checkPartFile onDisk found e).Clean strict ↔ found.Clean strict ∧
      ∃ part, onDisk.get? e.path = some part ∧ part.present = true ∧
        HashFits strict part.sha256 e.sha256 := by
  rw [checkPartFile]
  cases honDisk : onDisk.get? e.path with
  | none =>
      refine iff_of_false not_clean_add ?_
      rintro ⟨-, part, hpart, -⟩
      cases hpart
  | some part =>
      dsimp only
      split
      · next habsent =>
          refine iff_of_false not_clean_add ?_
          rintro ⟨-, other, hother, hpresent, -⟩
          obtain rfl := Option.some.inj hother
          rw [habsent] at hpresent
          cases hpresent
      · next hpresent =>
          rw [clean_compare]
          refine and_congr_right fun _ => ?_
          constructor
          · exact fun h => ⟨part, rfl, Bool.of_not_eq_false hpresent, h⟩
          · rintro ⟨other, hother, -, h⟩
            obtain rfl := Option.some.inj hother
            exact h

theorem clean_checkSegments (found : Findings) :
    (checkSegments facts m found).Clean strict ↔ found.Clean strict ∧
      (∀ s ∈ facts.segments, ∃ e ∈ m.segments, e.hour = facts.hour.hour ∧
        e.path = s.path ∧ e.bytes = s.bytes ∧ HashFits strict s.sha256 e.sha256) ∧
      ∀ e ∈ m.segments, e.hour = facts.hour.hour →
        e.path ∈ facts.segments.map SegmentOnDisk.path ∨
          e.path ∈ m.pruned.map PrunedSegment.path := by
  have hget : ∀ {k : String} {e : SegmentEntry},
      (byPath SegmentEntry.path (m.hourSegments facts.hour.hour)).get? k = some e ↔
        (e ∈ m.segments ∧ e.hour = facts.hour.hour) ∧ e.path = k := fun {k e} => by
    rw [get?_byPath (nodup_hourSegments m _), mem_hourSegments]
  have hdisk : (∀ s ∈ facts.segments, ∃ e,
      (byPath SegmentEntry.path (m.hourSegments facts.hour.hour)).get? s.path = some e ∧
        e.bytes = s.bytes ∧ HashFits strict s.sha256 e.sha256) ↔
      ∀ s ∈ facts.segments, ∃ e ∈ m.segments, e.hour = facts.hour.hour ∧
        e.path = s.path ∧ e.bytes = s.bytes ∧ HashFits strict s.sha256 e.sha256 := by
    simp only [hget, and_assoc]
  rw [checkSegments]
  split
  · next hmissing =>
      obtain ⟨path, hpath, hnot⟩ := hmissing
      obtain ⟨e, he⟩ := Dict.mem_keys_iff.mp hpath
      obtain ⟨⟨hmem, hhour⟩, rfl⟩ := hget.mp he
      refine iff_of_false not_clean_add fun h => ?_
      rcases h.2.2 e hmem hhour with hon | hpruned
      · exact hnot.1 hon
      · exact hnot.2 hpruned
  · next hnone =>
      rw [foldl_iff (clean_checkSegmentFile _), hdisk]
      refine and_congr_right fun _ => (and_iff_left fun e he hhour => ?_).symm
      by_contra hout
      exact hnone ⟨e.path, Dict.mem_keys_of_get? (hget.mpr ⟨⟨he, hhour⟩, rfl⟩),
        not_or.mp hout⟩

theorem clean_checkParts (found : Findings) :
    (checkParts facts m found).Clean strict ↔ found.Clean strict ∧
      ∀ name, ∀ e ∈ (m.tables name).files, e.hour = facts.hour.hour →
        ∃ part, (byPath PartOnDisk.path facts.parts).get? e.path = some part ∧
          part.present = true ∧ HashFits strict part.sha256 e.sha256 := by
  rw [checkParts, foldl_iff (clean_checkPartFile _)]
  refine and_congr_right fun _ => ?_
  constructor
  · exact fun h name e he hhour => h e (mem_hourParts.mpr ⟨name, he, hhour⟩)
  · intro h e he
    obtain ⟨name, hmem, hhour⟩ := mem_hourParts.mp he
    exact h name e hmem hhour

/-- What the checks find nothing against is safe, and the other way round. -/
theorem clean_findings {manifest : Option Manifest} :
    (facts.findings manifest o).Clean strict ↔ ∃ m, manifest = some m ∧ facts.Safe strict m o := by
  rw [HourFacts.findings.eq_def]
  cases manifest with
  | none =>
      refine iff_of_false not_clean_add ?_
      rintro ⟨m, hm, -⟩
      cases hm
  | some m =>
      dsimp only
      rw [HourFacts.entry]
      by_cases hday : m.date = facts.hour.date
      · rw [if_neg (not_not.mpr hday)]
        cases hentry : m.hourBake facts.hour.hour with
        | none =>
            refine iff_of_false not_clean_add ?_
            rintro ⟨other, hm, hsafe⟩
            obtain rfl := Option.some.inj hm
            obtain ⟨entry, hmem, hhour, -⟩ := hsafe.baked
            rw [hourBake_eq_some_iff.mpr ⟨hmem, hhour⟩] at hentry
            cases hentry
        | some entry =>
            obtain ⟨hmem, hhour⟩ := hourBake_eq_some_iff.mp hentry
            dsimp only
            rw [clean_checkParts, clean_checkSegments]
            constructor
            · rintro ⟨⟨hclean, hdisk, hlisted⟩, hparts⟩
              split at hclean
              · exact absurd hclean not_clean_add
              · next hfailures =>
                  split at hclean
                  · exact absurd hclean not_clean_add
                  · next hversion =>
                      split at hclean
                      · exact absurd hclean not_clean_add
                      · next hended =>
                          exact ⟨m, rfl,
                            { ended := Int.not_le.mp hended
                              day := hday
                              baked := ⟨entry, hmem, hhour, not_not.mp hversion,
                                not_not.mp hfailures⟩
                              onDisk := hdisk
                              listed := hlisted
                              parts := hparts }⟩
            · rintro ⟨other, hm, hsafe⟩
              obtain rfl := Option.some.inj hm
              obtain ⟨baked, hbaked, hsame, hversion, hfailures⟩ := hsafe.baked
              obtain rfl := eq_of_key m.bake.ordered hbaked hmem (hsame.trans hhour.symm)
              rw [if_neg (not_not.mpr hfailures), if_neg (not_not.mpr hversion),
                if_neg (Int.not_le.mpr hsafe.ended)]
              exact ⟨⟨⟨rfl, fun _ => rfl⟩, hsafe.onDisk, hsafe.listed⟩, hsafe.parts⟩
      · rw [if_pos hday]
        refine iff_of_false not_clean_add ?_
        rintro ⟨other, hm, hsafe⟩
        obtain rfl := Option.some.inj hm
        exact hday hsafe.day

/-! ## What the decision says -/

theorem mem_pruneReasons (reason : PruneReason) : reason ∈ pruneReasons := by
  cases reason <;> decide

/-- `unverified` was not given; a check never gives it. -/
def Findings.Definite (found : Findings) : Prop := PruneReason.unverified ∉ found.reasons

namespace Findings.Definite

variable {found : Findings}

theorem add (h : found.Definite) {reason : PruneReason} (hreason : reason ≠ .unverified) :
    (found.add reason).Definite := by
  intro hin
  rcases Finset.mem_insert.mp hin with heq | hin
  · exact hreason heq.symm
  · exact h hin

theorem compare (h : found.Definite) {sha256 : Option String} {expected : String}
    {reason : PruneReason} (hreason : reason ≠ .unverified) :
    (found.compare sha256 expected reason).Definite := by
  cases sha256 with
  | none => exact h
  | some sha256 =>
      rw [Findings.compare]
      split
      · exact h.add hreason
      · exact h

theorem checkSegmentFile (h : found.Definite) (baked : Dict String SegmentEntry)
    (s : SegmentOnDisk) : (checkSegmentFile baked found s).Definite := by
  rw [Bake.checkSegmentFile]
  split
  · exact h.add nofun
  · split
    · exact h.add nofun
    · exact h.compare nofun

theorem checkPartFile (h : found.Definite) (onDisk : Dict String PartOnDisk) (e : PartEntry) :
    (checkPartFile onDisk found e).Definite := by
  rw [Bake.checkPartFile]
  split
  · exact h.add nofun
  · split
    · exact h.add nofun
    · exact h.compare nofun

theorem checkSegments (h : found.Definite) : (checkSegments facts m found).Definite := by
  have hfold := List.foldlRecOn facts.segments (Bake.checkSegmentFile _) h
    fun _ hfound s _ => hfound.checkSegmentFile
      (byPath SegmentEntry.path (m.hourSegments facts.hour.hour)) s
  rw [Bake.checkSegments]
  split
  · exact hfold.add nofun
  · exact hfold

theorem checkParts (h : found.Definite) : (checkParts facts m found).Definite :=
  List.foldlRecOn _ _ h fun _ hfound e _ => hfound.checkPartFile _ e

/-- A reason given on a condition. -/
theorem addIf (h : found.Definite) (reason : PruneReason) (hreason : reason ≠ .unverified)
    (p : Prop) [Decidable p] : (if p then found.add reason else found).Definite := by
  split
  · exact h.add hreason
  · exact h

end Findings.Definite

theorem definite_findings (facts : HourFacts) (manifest : Option Manifest) (o : PruneOptions) :
    (facts.findings manifest o).Definite := by
  have hended := @Findings.Definite.addIf ⟨∅, false⟩ (Finset.notMem_empty _)
    .insideRetentionWindow nofun
    (facts.hour.endWallNs + o.retentionHours * nsPerHour ≥ o.nowWallNs)
  rw [HourFacts.findings.eq_def]
  cases manifest with
  | none => exact hended.add nofun
  | some m =>
      dsimp only
      cases facts.entry m with
      | none => exact hended.add nofun
      | some entry =>
          have hversion := hended.addIf .bakeVersionStale nofun (entry.bakeVersion ≠ o.bakeVersion)
          have hfailures := hversion.addIf .decodeFailures nofun (entry.accounting.failures ≠ 0)
          exact hfailures.checkSegments.checkParts

theorem filter_pruneReasons_eq_nil {reasons : Finset PruneReason} :
    pruneReasons.filter (fun reason => reason ∈ reasons) = [] ↔ reasons = ∅ := by
  rw [List.filter_eq_nil_iff, Finset.eq_empty_iff_forall_notMem]
  constructor
  · exact fun h reason hin => h reason (mem_pruneReasons reason) (decide_eq_true hin)
  · exact fun h reason _ hin => h reason (of_decide_eq_true hin)

theorem filter_unverified :
    pruneReasons.filter (fun reason => reason ∈ ({.unverified} : Finset PruneReason)) =
      [.unverified] := by decide

/-- An hour that is safe is prunable; one that lacks only hashes is refused for
that alone; any other is refused for other reasons. -/
theorem decide_cases (facts : HourFacts) (manifest : Option Manifest) (o : PruneOptions) :
    ((facts.findings manifest o).Clean true ∧
      facts.decide manifest o = ⟨facts.hour, true, [], facts.segments⟩) ∨
    ((facts.findings manifest o).Clean false ∧ ¬ (facts.findings manifest o).Clean true ∧
      facts.decide manifest o = ⟨facts.hour, false, [.unverified], []⟩) ∨
    (¬ (facts.findings manifest o).Clean false ∧ ∃ reasons, reasons ≠ [] ∧
      PruneReason.unverified ∉ reasons ∧
      facts.decide manifest o = ⟨facts.hour, false, reasons, []⟩) := by
  have hown := definite_findings facts manifest o
  rw [HourFacts.decide]
  generalize facts.findings manifest o = found at hown ⊢
  by_cases hnone : found.reasons = ∅
  · cases hun : found.unverified with
    | false =>
        refine .inl ⟨⟨hnone, fun _ => hun⟩, ?_⟩
        simp [filter_pruneReasons_eq_nil.mpr hnone]
    | true =>
        refine .inr (.inl ⟨⟨hnone, nofun⟩, fun h => ?_, ?_⟩)
        · rw [h.2 rfl] at hun
          cases hun
        · have hadd : (found.add .unverified).reasons = {.unverified} := by
            rw [Findings.add, hnone, insert_empty_eq]
          rw [if_pos ⟨rfl, hnone⟩, hadd, filter_unverified]
          rfl
  · have hne := mt filter_pruneReasons_eq_nil.mp hnone
    refine .inr (.inr ⟨fun h => hnone h.1, _, hne, fun hin => ?_, ?_⟩)
    · exact hown (of_decide_eq_true (List.mem_filter.mp hin).2)
    · rw [if_neg (fun h => hnone h.2), List.isEmpty_eq_false_iff.mpr hne]
      rfl

theorem prunable_iff {manifest : Option Manifest} :
    (facts.decide manifest o).prunable = true ↔
      ∃ m, manifest = some m ∧ facts.Safe true m o := by
  rw [← clean_findings]
  rcases decide_cases facts manifest o with ⟨hclean, heq⟩ | ⟨-, hnot, heq⟩ |
    ⟨hnot, reasons, -, -, heq⟩
  · exact iff_of_true (congrArg PruneDecision.prunable heq) hclean
  · rw [heq]
    exact iff_of_false nofun hnot
  · rw [heq]
    exact iff_of_false nofun fun h => hnot ⟨h.1, nofun⟩

theorem unverified_iff {manifest : Option Manifest} :
    PruneReason.unverified ∈ (facts.decide manifest o).reasons ↔
      (facts.decide manifest o).prunable = false ∧
        ∃ m, manifest = some m ∧ facts.Safe false m o := by
  rw [← clean_findings]
  rcases decide_cases facts manifest o with ⟨-, heq⟩ | ⟨hclean, -, heq⟩ |
    ⟨hnot, reasons, -, hun, heq⟩
  · rw [heq]
    exact iff_of_false List.not_mem_nil fun h => nomatch h.1
  · rw [heq]
    exact iff_of_true (List.mem_singleton_self _) ⟨rfl, hclean⟩
  · rw [heq]
    exact iff_of_false hun fun h => hnot h.2

/-- `unverified` stands alone. -/
theorem reasons_of_unverified {manifest : Option Manifest}
    (h : PruneReason.unverified ∈ (facts.decide manifest o).reasons) :
    (facts.decide manifest o).reasons = [.unverified] := by
  rcases decide_cases facts manifest o with ⟨-, heq⟩ | ⟨-, -, heq⟩ | ⟨-, reasons, -, hun, heq⟩
  · rw [heq] at h
    cases h
  · exact congrArg PruneDecision.reasons heq
  · rw [heq] at h
    exact absurd h hun

/-! ## Hashes only help -/

/-- The same files found, their hashes related path by path. -/
structure HourFacts.Alike (R S : String → Option String → Option String → Prop)
    (facts facts' : HourFacts) : Prop where
  hour : facts'.hour = facts.hour
  segments : List.Forall₂
    (fun a b => b.path = a.path ∧ b.bytes = a.bytes ∧ R a.path a.sha256 b.sha256)
    facts.segments facts'.segments
  parts : List.Forall₂
    (fun a b => b.path = a.path ∧ b.present = a.present ∧ S a.path a.sha256 b.sha256)
    facts.parts facts'.parts

/-- `more` says what `fewer` says, and perhaps hashes that `fewer` leaves out. -/
def HourFacts.Extends (more fewer : HourFacts) : Prop :=
  fewer.Alike (fun _ a b => a = b ∨ a = none) (fun _ a b => a = b ∨ a = none) more

/-- Related lists give related dictionaries. -/
theorem byPath_rel {α : Type*} {path : α → String} {R : α → α → Prop}
    (hpath : ∀ a b, R a b → path b = path a) {l l' : List α} (h : List.Forall₂ R l l')
    (k : String) : Option.Rel R ((byPath path l).get? k) ((byPath path l').get? k) := by
  have hfold : ∀ {d d' : Dict String α}, (∀ k, Option.Rel R (d.get? k) (d'.get? k)) → ∀ k,
      Option.Rel R ((l.foldl (fun d a => d.set (path a) a) d).get? k)
        ((l'.foldl (fun d a => d.set (path a) a) d').get? k) := by
    induction h with
    | nil => exact fun hd => hd
    | @cons a b l l' hab _ ih =>
        intro d d' hd
        refine ih fun k => ?_
        rw [Dict.get?_set, Dict.get?_set, hpath a b hab]
        split
        · exact .some hab
        · exact hd k
  exact hfold (fun _ => .none) k

theorem map_eq_of_forall₂ {α β : Type*} {f : α → β} {R : α → α → Prop}
    (hf : ∀ a b, R a b → f b = f a) {l l' : List α} (h : List.Forall₂ R l l') :
    l'.map f = l.map f := by
  induction h with
  | nil => rfl
  | cons hab _ ih => rw [List.map_cons, List.map_cons, hf _ _ hab, ih]

theorem exists_of_forall₂ {α β : Type*} {R : α → β → Prop} {l : List α} {l' : List β}
    (h : List.Forall₂ R l l') {b : β} (hb : b ∈ l') : ∃ a ∈ l, R a b := by
  induction h with
  | nil => cases hb
  | @cons a c l l' hac _ ih =>
      rcases List.mem_cons.mp hb with rfl | hb
      · exact ⟨a, List.mem_cons_self, hac⟩
      · obtain ⟨a', ha', hab⟩ := ih hb
        exact ⟨a', List.mem_cons_of_mem a ha', hab⟩

/-- Safety passes from facts to like facts if the fit of the hashes does. -/
theorem HourFacts.Safe.transfer {R S : String → Option String → Option String → Prop}
    {strict' : Bool} {facts' : HourFacts} (h : facts.Safe strict m o)
    (halike : facts.Alike R S facts')
    (hR : ∀ e ∈ m.segments, e.hour = facts.hour.hour → ∀ a b, R e.path a b →
      HashFits strict a e.sha256 → HashFits strict' b e.sha256)
    (hS : ∀ name, ∀ e ∈ (m.tables name).files, e.hour = facts.hour.hour → ∀ a b, S e.path a b →
      HashFits strict a e.sha256 → HashFits strict' b e.sha256) :
    facts'.Safe strict' m o where
  ended := halike.hour ▸ h.ended
  day := halike.hour ▸ h.day
  baked := halike.hour ▸ h.baked
  onDisk s hs := by
    obtain ⟨a, ha, hpath, hbytes, hsha⟩ := exists_of_forall₂ halike.segments hs
    obtain ⟨e, he, hhour, hepath, hebytes, hfits⟩ := h.onDisk a ha
    rw [halike.hour, hpath, hbytes]
    rw [← hepath] at hsha
    exact ⟨e, he, hhour, hepath, hebytes, hR e he hhour _ _ hsha hfits⟩
  listed e he hhour := by
    rw [map_eq_of_forall₂ (fun a b hab => hab.1) halike.segments]
    exact h.listed e he (halike.hour ▸ hhour)
  parts name e he hhour := by
    rw [halike.hour] at hhour
    obtain ⟨a, ha, hpresent, hfits⟩ := h.parts name e he hhour
    have hrel := byPath_rel (fun a b hab => hab.1) halike.parts e.path
    rw [ha] at hrel
    cases hb : (byPath PartOnDisk.path facts'.parts).get? e.path with
    | none =>
        rw [hb] at hrel
        cases hrel
    | some b =>
        rw [hb] at hrel
        cases hrel with
        | some hab =>
            obtain ⟨-, hsame, hsha⟩ := hab
            have hpath : a.path = e.path := path_of_get?_byPath ha
            rw [hpath] at hsha
            exact ⟨b, rfl, hsame.trans hpresent, hS name e he hhour _ _ hsha hfits⟩

theorem HourFacts.Alike.flip {R S : String → Option String → Option String → Prop}
    {facts' : HourFacts} (h : facts.Alike R S facts') :
    facts'.Alike (fun path a b => R path b a) (fun path a b => S path b a) facts where
  hour := h.hour.symm
  segments := by
    refine (List.Forall₂.imp ?_ h.segments).flip
    rintro a b ⟨hpath, hbytes, hsha⟩
    exact ⟨hpath.symm, hbytes.symm, hpath ▸ hsha⟩
  parts := by
    refine (List.Forall₂.imp ?_ h.parts).flip
    rintro a b ⟨hpath, hpresent, hsha⟩
    exact ⟨hpath.symm, hpresent.symm, hpath ▸ hsha⟩

theorem HourFacts.Safe.extends {more : HourFacts} (h : facts.Safe true m o)
    (hmore : more.Extends facts) : more.Safe true m o := by
  have hkeep : ∀ {a b : Option String} {e : String}, a = b ∨ a = none → HashFits true a e →
      HashFits true b e := by
    intro a b e hab hfits
    rcases hab with rfl | rfl
    · exact hfits
    · rcases hfits with hsome | ⟨hstrict, -⟩
      · cases hsome
      · cases hstrict
  exact h.transfer hmore (fun _ _ _ _ _ => hkeep) fun _ _ _ _ _ _ => hkeep

theorem HourFacts.Safe.lenient (h : facts.Safe true m o) : facts.Safe false m o where
  ended := h.ended
  day := h.day
  baked := h.baked
  onDisk s hs := by
    obtain ⟨e, he, hhour, hpath, hbytes, hfits⟩ := h.onDisk s hs
    exact ⟨e, he, hhour, hpath, hbytes, hfits.imp id fun hstrict => nomatch hstrict.1⟩
  listed := h.listed
  parts name e he hhour := by
    obtain ⟨part, hpart, hpresent, hfits⟩ := h.parts name e he hhour
    exact ⟨part, hpart, hpresent, hfits.imp id fun hstrict => nomatch hstrict.1⟩

/-- What more hashes refute, fewer may not; what they leave standing, fewer do. -/
theorem HourFacts.Safe.of_extends {more : HourFacts} (h : more.Safe false m o)
    (hmore : more.Extends facts) : facts.Safe false m o := by
  have hkeep : ∀ {a b : Option String} {e : String}, b = a ∨ b = none → HashFits false a e →
      HashFits false b e := by
    intro a b e hab hfits
    rcases hab with rfl | rfl
    · exact hfits
    · exact .inr ⟨rfl, rfl⟩
  exact h.transfer hmore.flip (fun _ _ _ _ _ => hkeep) fun _ _ _ _ _ _ => hkeep

/-- The facts with every missing hash that is recorded taken to match. -/
def HourFacts.matched (facts : HourFacts) (m : Manifest) : HourFacts :=
  let segments := byPath SegmentEntry.path (m.hourSegments facts.hour.hour)
  let parts := byPath PartEntry.path (m.hourParts facts.hour.hour)
  { facts with
    segments := facts.segments.map fun s =>
      { s with sha256 := s.sha256.or ((segments.get? s.path).map SegmentEntry.sha256) }
    parts := facts.parts.map fun part =>
      { part with sha256 := part.sha256.or ((parts.get? part.path).map PartEntry.sha256) } }

theorem forall₂_map {α β : Type*} {f : α → β} {R : α → β → Prop} (h : ∀ a, R a (f a))
    (l : List α) : List.Forall₂ R l (l.map f) := by
  induction l with
  | nil => exact .nil
  | cons a l ih => exact .cons (h a) ih

theorem alike_matched (facts : HourFacts) (m : Manifest) :
    facts.Alike
      (fun path a b => b = a.or (((byPath SegmentEntry.path
        (m.hourSegments facts.hour.hour)).get? path).map SegmentEntry.sha256))
      (fun path a b => b = a.or (((byPath PartEntry.path
        (m.hourParts facts.hour.hour)).get? path).map PartEntry.sha256))
      (facts.matched m) where
  hour := rfl
  segments := forall₂_map (fun _ => ⟨rfl, rfl, rfl⟩) _
  parts := forall₂_map (fun _ => ⟨rfl, rfl, rfl⟩) _

theorem matched_extends (facts : HourFacts) (m : Manifest) :
    (facts.matched m).Extends facts := by
  have hor : ∀ {a b c : Option String}, b = a.or c → a = b ∨ a = none := by
    intro a b c h
    cases a with
    | none => exact .inr rfl
    | some a => exact .inl h.symm
  have halike := alike_matched facts m
  exact
    { hour := halike.hour
      segments := halike.segments.imp fun _ _ h => ⟨h.1, h.2.1, hor h.2.2⟩
      parts := halike.parts.imp fun _ _ h => ⟨h.1, h.2.1, hor h.2.2⟩ }

/-! ## The parts of different tables -/

theorem slash_not_mem_text (name : TableName) : '/' ∉ name.text.toList := by
  cases name <;> decide

theorem text_injective {name name' : TableName} (h : name.text.toList = name'.text.toList) :
    name = name' := by
  revert h
  cases name <;> cases name' <;> decide

/-- A part's path starts with the name of its table. -/
theorem takeWhile_of_partDirectory {name : TableName} {date : Date} {hour : Int} {path : String}
    (h : (partDirectory name date hour).toList <+: path.toList) :
    path.toList.takeWhile (fun c => c ≠ '/') = name.text.toList := by
  obtain ⟨rest, hrest⟩ := h
  have hpath : path.toList = name.text.toList ++ '/' ::
      ("dt=".toList ++ (date.isoformat ++ "/hour=" ++ hourText hour ++ "/").toList ++ rest) := by
    rw [← hrest, partDirectory]
    simp [String.toList_append]
  rw [hpath, List.takeWhile_append_of_pos]
  · simp
  · intro c hc
    exact decide_eq_true fun heq => slash_not_mem_text name (heq ▸ hc)

theorem nodup_hourParts (m : Manifest) (hour : Int) :
    ((m.hourParts hour).map PartEntry.path).Nodup := by
  have hsorted := fun name => (m.consistent.filesSorted name).filter fun part => part.hour = hour
  rw [Manifest.hourParts, List.map_flatMap, List.nodup_flatMap]
  refine ⟨fun name _ => (sortedUnique_iff.mp (hsorted name)).imp fun hlt => ne_of_lt hlt, ?_⟩
  have hall : TableName.all.Nodup := by decide
  refine hall.imp fun {name name'} hne path hpath hpath' => hne ?_
  obtain ⟨part, hpart, rfl⟩ := List.mem_map.mp hpath
  obtain ⟨part', hpart', hsame⟩ := List.mem_map.mp hpath'
  have hplaced := (m.consistent.filesPlaced name part (List.mem_filter.mp hpart).1).1
  have hplaced' := (m.consistent.filesPlaced name' part' (List.mem_filter.mp hpart').1).1
  refine text_injective ?_
  rw [← takeWhile_of_partDirectory hplaced, ← takeWhile_of_partDirectory hplaced', hsame]

/-- With the missing hashes taken to match, an hour is safe exactly when it
lacked nothing else. -/
theorem safe_matched_iff : (facts.matched m).Safe true m o ↔ facts.Safe false m o := by
  refine ⟨fun h => h.lenient.of_extends (matched_extends facts m), fun h => ?_⟩
  have hkeep : ∀ {a b recorded : Option String} {e : String}, recorded = some e →
      b = a.or recorded → HashFits false a e → HashFits true b e := by
    intro a b recorded e hrecorded hb hfits
    rcases hfits with rfl | ⟨-, rfl⟩
    · exact .inl hb
    · exact .inl (hb.trans hrecorded)
  refine h.transfer (alike_matched facts m) (fun e he hhour a b => hkeep ?_)
    fun name e he hhour a b => hkeep ?_
  · rw [(get?_byPath (nodup_hourSegments m _)).mpr ⟨mem_hourSegments.mpr ⟨he, hhour⟩, rfl⟩]
    rfl
  · rw [(get?_byPath (nodup_hourParts m _)).mpr ⟨mem_hourParts.mpr ⟨name, he, hhour⟩, rfl⟩]
    rfl

/-! ## The survey in two passes -/

section Survey

variable {ε : Type*}

theorem readEach_ok_iff {α β : Type*} {read : α → Except ε β} {l : List α} {bs : List β} :
    readEach read l = .ok bs ↔ List.Forall₂ (fun a b => read a = .ok b) l bs := by
  induction l generalizing bs with
  | nil =>
      rw [List.forall₂_nil_left_iff]
      exact ⟨fun h => (Except.ok.inj h).symm, fun h => h ▸ rfl⟩
  | cons a l ih =>
      rw [readEach, List.forall₂_cons_left_iff]
      cases hread : read a with
      | error e =>
          refine iff_of_false nofun ?_
          rintro ⟨b, bs, hb, -⟩
          cases hb
      | ok b =>
          dsimp only
          cases hrest : readEach read l with
          | error e =>
              refine iff_of_false nofun ?_
              rintro ⟨b', bs', -, hbs, -⟩
              rw [ih.mpr hbs] at hrest
              cases hrest
          | ok rest =>
              constructor
              · intro h
                exact ⟨b, rest, rfl, ih.mp hrest, (Except.ok.inj h).symm⟩
              · rintro ⟨b', bs', hb, hbs, rfl⟩
                obtain rfl := Except.ok.inj hb
                rw [ih.mpr hbs] at hrest
                obtain rfl := Except.ok.inj hrest
                rfl

theorem except_map_ok {α β : Type*} {x : Except ε α} {f : α → β} {b : β} (h : x.map f = .ok b) :
    ∃ a, x = .ok a ∧ f a = b := by
  cases x with
  | error e => cases h
  | ok a => exact ⟨a, rfl, Except.ok.inj h⟩

/-- Two lists read from one list are related member by member. -/
theorem forall₂_of_common {α β γ : Type*} {R : α → β → Prop} {S : α → γ → Prop}
    {T : β → γ → Prop} (hT : ∀ a b c, R a b → S a c → T b c) {l : List α} {bs : List β}
    {cs : List γ} (hb : List.Forall₂ R l bs) (hc : List.Forall₂ S l cs) :
    List.Forall₂ T bs cs := by
  induction hb generalizing cs with
  | nil =>
      cases hc
      exact .nil
  | cons hab _ ih =>
      cases hc with
      | cons hac hc => exact .cons (hT _ _ _ hab hac) (ih hc)

namespace Archive

/-- The decision on one hour, every file of it hashed at once. -/
def decideHashed (archive : Archive ε) (o : PruneOptions) (hour : HourKey) :
    Except ε PruneDecision :=
  match archive.readManifest hour.date with
  | .error e => .error e
  | .ok manifest =>
      match archive.sizedFacts manifest hour with
      | .error e => .error e
      | .ok facts =>
          (archive.hashedFacts manifest facts).map fun hashed => hashed.decide manifest o

/-- The hours a survey decides. -/
def surveyedHours (archive : Archive ε) : List HourKey :=
  archive.rawHours.filter fun hour => archive.segmentFiles hour ≠ []

/-- A survey that hashes everything. -/
def surveyHashed (archive : Archive ε) (o : PruneOptions) : Except ε (List PruneDecision) :=
  readEach (archive.decideHashed o) archive.surveyedHours

/-- The decision on one hour in two passes, its manifest read for it. -/
def decideRead (archive : Archive ε) (o : PruneOptions) (hour : HourKey) :
    Except ε PruneDecision :=
  match archive.readManifest hour.date with
  | .error e => .error e
  | .ok manifest => archive.decideHour manifest o hour

variable {archive : Archive ε} {manifest : Option Manifest} {hour : HourKey}
  {sized hashed : HourFacts}

/-- The manifests kept are those that would be read again. -/
theorem surveyFrom_eq {hours : List HourKey} {manifests : Dict Date (Option Manifest)}
    (hkept : ∀ date manifest, manifests.get? date = some manifest →
      archive.readManifest date = .ok manifest) :
    archive.surveyFrom o hours manifests =
      readEach (archive.decideRead o)
        (hours.filter fun hour => archive.segmentFiles hour ≠ []) := by
  induction hours generalizing manifests with
  | nil => rfl
  | cons hour hours ih =>
      rw [surveyFrom]
      split
      · next hfiles =>
          have hskip : ¬ decide (archive.segmentFiles hour ≠ []) = true := by simp [hfiles]
          rw [List.filter_cons, if_neg hskip]
          exact ih hkept
      · next hfiles =>
          have hkeep : decide (archive.segmentFiles hour ≠ []) = true := decide_eq_true hfiles
          rw [List.filter_cons, if_pos hkeep, readEach, decideRead, manifestFor]
          cases hget : manifests.get? hour.date with
          | some manifest =>
              rw [hkept _ _ hget]
              dsimp only
              rw [ih hkept]
              cases archive.decideHour manifest o hour <;> rfl
          | none =>
              cases hread : archive.readManifest hour.date with
              | error e => rfl
              | ok manifest =>
                  have hkept' : ∀ date other, (manifests.set hour.date manifest).get? date =
                      some other → archive.readManifest date = .ok other := by
                    intro date other hother
                    rw [Dict.get?_set] at hother
                    split at hother
                    · next heq => exact heq ▸ Option.some.inj hother ▸ hread
                    · exact hkept date other hother
                  dsimp only [Except.map]
                  rw [ih hkept']
                  cases archive.decideHour manifest o hour <;> rfl

theorem survey_eq (archive : Archive ε) (o : PruneOptions) :
    archive.survey o = readEach (archive.decideRead o) archive.surveyedHours := by
  have hnone : ∀ date manifest, (∅ : Dict Date (Option Manifest)).get? date = some manifest →
      archive.readManifest date = .ok manifest := by
    intro date manifest h
    rw [Dict.get?_empty] at h
    cases h
  rw [survey, surveyFrom_eq hnone, surveyedHours]

/-- The facts of the first pass: the hour's files, none of them hashed. -/
theorem sizedFacts_ok (h : archive.sizedFacts manifest hour = .ok sized) :
    sized.hour = hour ∧
      List.Forall₂ (fun _ s => s.sha256 = none) (archive.segmentFiles hour) sized.segments ∧
      archive.partsOnDisk manifest hour false = .ok sized.parts := by
  rw [sizedFacts] at h
  cases hsegments : readEach archive.sizedSegment (archive.segmentFiles hour) with
  | error e =>
      rw [hsegments] at h
      cases h
  | ok segments =>
      rw [hsegments] at h
      obtain ⟨parts, hparts, rfl⟩ := except_map_ok h
      refine ⟨rfl, (readEach_ok_iff.mp hsegments).imp fun path s hs => ?_, hparts⟩
      obtain ⟨bytes, -, rfl⟩ := except_map_ok hs
      rfl

/-- The second pass finds the same files and adds their hashes. -/
theorem hashedFacts_extends (hsized : archive.sizedFacts manifest hour = .ok sized)
    (hhashed : archive.hashedFacts manifest sized = .ok hashed) : hashed.Extends sized := by
  obtain ⟨hhour, hnone, hparts⟩ := sizedFacts_ok hsized
  rw [hashedFacts] at hhashed
  cases hsegments : readEach archive.hashedSegment sized.segments with
  | error e =>
      rw [hsegments] at hhashed
      cases hhashed
  | ok segments =>
      rw [hsegments] at hhashed
      obtain ⟨parts, hparts', rfl⟩ := except_map_ok hhashed
      have hfiles : ∀ s ∈ sized.segments, s.sha256 = none := fun s hs =>
        (exists_of_forall₂ hnone hs).elim fun _ h => h.2
      refine ⟨rfl, ?_, ?_⟩
      · have hread := readEach_ok_iff.mp hsegments
        have hmem : List.Forall₂ (fun s s' => s ∈ sized.segments ∧
            archive.hashedSegment s = .ok s') sized.segments segments :=
          (List.forall₂_and_left _ _).mpr ⟨fun _ hs => hs, hread⟩
        refine hmem.imp fun s s' hs => ?_
        obtain ⟨sha256, -, rfl⟩ := except_map_ok hs.2
        exact ⟨rfl, rfl, .inr (hfiles s hs.1)⟩
      · rw [hhour] at hparts'
        cases manifest with
        | none =>
            obtain rfl := Except.ok.inj hparts'
            rw [← Except.ok.inj hparts]
            exact .nil
        | some m =>
            rw [partsOnDisk] at hparts hparts'
            split at hparts
            · next hday =>
                rw [if_pos hday] at hparts'
                obtain rfl := Except.ok.inj hparts'
                rw [← Except.ok.inj hparts]
                exact .nil
            · next hday =>
                rw [if_neg hday] at hparts'
                refine forall₂_of_common ?_ (readEach_ok_iff.mp hparts)
                  (readEach_ok_iff.mp hparts')
                intro part before after hbefore hafter
                have hbefore : before = ⟨part.path, archive.isPart part.path, none⟩ := by
                  rw [partOnDisk, if_neg (by simp)] at hbefore
                  exact (Except.ok.inj hbefore).symm
                subst hbefore
                rw [partOnDisk] at hafter
                split at hafter
                · next hpresent =>
                    obtain ⟨sha256, -, rfl⟩ := except_map_ok hafter
                    exact ⟨rfl, hpresent.1.symm, .inr rfl⟩
                · obtain rfl := Except.ok.inj hafter
                  exact ⟨rfl, rfl, .inl rfl⟩

/-- A file that was not hashed is not verified. -/
theorem not_safe_of_unhashed {m : Manifest} (hfiles : archive.segmentFiles hour ≠ [])
    (hsized : archive.sizedFacts manifest hour = .ok sized) : ¬ sized.Safe true m o := by
  intro hsafe
  obtain ⟨-, hnone, -⟩ := sizedFacts_ok hsized
  cases hsegments : sized.segments with
  | nil =>
      rw [hsegments] at hnone
      cases hfound : archive.segmentFiles hour with
      | nil => exact hfiles hfound
      | cons path paths =>
          rw [hfound] at hnone
          cases hnone
  | cons s segments =>
      have hs : s ∈ sized.segments := hsegments ▸ List.mem_cons_self
      obtain ⟨-, -, hunhashed⟩ := exists_of_forall₂ hnone hs
      obtain ⟨e, -, -, -, -, hfits⟩ := hsafe.onDisk s hs
      rcases hfits with hsome | ⟨hstrict, -⟩
      · rw [hunhashed] at hsome
        cases hsome
      · cases hstrict

/-- The first pass settles an hour only if its hashes could not save it. -/
theorem decideHour_cases (hfiles : archive.segmentFiles hour ≠ [])
    (hsized : archive.sizedFacts manifest hour = .ok sized) :
    archive.decideHour manifest o hour =
      (archive.hashedFacts manifest sized).map (fun hashed => hashed.decide manifest o) ∨
    archive.decideHour manifest o hour = .ok (sized.decide manifest o) ∧
      (sized.decide manifest o).prunable = false ∧
      ∀ hashed, archive.hashedFacts manifest sized = .ok hashed →
        (hashed.decide manifest o).prunable = false := by
  have hunsafe : ¬ (sized.findings manifest o).Clean true := fun hclean =>
    (clean_findings.mp hclean).elim fun _ h => not_safe_of_unhashed hfiles hsized h.2
  rw [decideHour, hsized]
  rcases decide_cases sized manifest o with ⟨hclean, -⟩ | ⟨-, -, heq⟩ | ⟨hnot, reasons, -, hun, heq⟩
  · exact absurd hclean hunsafe
  · exact .inl (if_pos (congrArg PruneDecision.reasons heq))
  · refine .inr ⟨if_neg fun h => hun ?_, congrArg PruneDecision.prunable heq, ?_⟩
    · rw [heq] at h
      have hreasons : reasons = [.unverified] := h
      rw [hreasons]
      exact List.mem_singleton_self _
    · intro hashed hhashed
      refine Bool.eq_false_iff.mpr fun hprunable => hnot ?_
      obtain ⟨m, hm, hsafe⟩ := prunable_iff.mp hprunable
      exact clean_findings.mpr
        ⟨m, hm, hsafe.lenient.of_extends (hashedFacts_extends hsized hhashed)⟩

/-- Hashing a file only when nothing cheaper rules its hour out changes no
hour's fate. -/
theorem decideRead_agrees {decision : PruneDecision} (hfiles : archive.segmentFiles hour ≠ [])
    (h : archive.decideRead o hour = .ok decision) :
    decision.hour = hour ∧
      (decision.prunable = true → archive.decideHashed o hour = .ok decision) ∧
      ∀ e, archive.decideHashed o hour = .ok e →
        e.hour = hour ∧ (e.prunable = true → e = decision) := by
  rw [decideRead] at h
  rw [decideHashed]
  cases hread : archive.readManifest hour.date with
  | error e =>
      rw [hread] at h
      cases h
  | ok manifest =>
      rw [hread] at h
      dsimp only at h ⊢
      cases hsized : archive.sizedFacts manifest hour with
      | error e =>
          rw [decideHour, hsized] at h
          cases h
      | ok sized =>
          have hhour : sized.hour = hour := (sizedFacts_ok hsized).1
          rcases decideHour_cases hfiles hsized with heq | ⟨heq, hrefused, hall⟩
          · rw [heq] at h
            obtain ⟨hashed, hhashed, rfl⟩ := except_map_ok h
            have hsame := (hashedFacts_extends hsized hhashed).hour.trans hhour
            dsimp only
            rw [hhashed]
            refine ⟨hsame, fun _ => rfl, fun e he => ?_⟩
            obtain rfl := Except.ok.inj he
            exact ⟨hsame, fun _ => rfl⟩
          · rw [heq] at h
            obtain rfl := Except.ok.inj h
            refine ⟨hhour, fun hp => ?_, fun e he => ?_⟩
            · rw [hrefused] at hp
              cases hp
            · obtain ⟨hashed, hhashed, rfl⟩ := except_map_ok he
              refine ⟨(hashedFacts_extends hsized hhashed).hour.trans hhour, fun hp => ?_⟩
              rw [hall hashed hhashed] at hp
              cases hp

/-- Where the eager decision can be made, the lazy one can. -/
theorem decideRead_ok {decision : PruneDecision} (hfiles : archive.segmentFiles hour ≠ [])
    (h : archive.decideHashed o hour = .ok decision) :
    ∃ lazy, archive.decideRead o hour = .ok lazy := by
  rw [decideHashed] at h
  rw [decideRead]
  cases hread : archive.readManifest hour.date with
  | error e =>
      rw [hread] at h
      cases h
  | ok manifest =>
      rw [hread] at h
      dsimp only at h ⊢
      cases hsized : archive.sizedFacts manifest hour with
      | error e =>
          rw [hsized] at h
          cases h
      | ok sized =>
          rw [hsized] at h
          rcases decideHour_cases hfiles hsized with heq | ⟨heq, -⟩
          · exact ⟨decision, heq.trans h⟩
          · exact ⟨_, heq⟩

/-- The lazy survey and the eager one find the same hours prunable. -/
theorem survey_of_hashed {es : List PruneDecision} (h : archive.surveyHashed o = .ok es) :
    ∃ ds, archive.survey o = .ok ds ∧
      ds.map PruneDecision.hour = es.map PruneDecision.hour ∧
      ds.filter (fun d => d.prunable) = es.filter fun e => e.prunable := by
  have hfiles : ∀ hour ∈ archive.surveyedHours, archive.segmentFiles hour ≠ [] := fun hour hin =>
    of_decide_eq_true (List.mem_filter.mp hin).2
  rw [survey_eq]
  rw [surveyHashed] at h
  generalize archive.surveyedHours = hours at hfiles h ⊢
  induction hours generalizing es with
  | nil =>
      obtain rfl := Except.ok.inj h
      exact ⟨[], rfl, rfl, rfl⟩
  | cons hour hours ih =>
      obtain ⟨e, rest, he, hrest, rfl⟩ := List.forall₂_cons_left_iff.mp (readEach_ok_iff.mp h)
      have hhour := hfiles hour List.mem_cons_self
      obtain ⟨d, hd⟩ := decideRead_ok hhour he
      obtain ⟨hdhour, hlazy, hagree⟩ := decideRead_agrees hhour hd
      obtain ⟨hehour, heager⟩ := hagree e he
      obtain ⟨ds, hds, hhours, hfilter⟩ :=
        ih (fun hour hin => hfiles hour (List.mem_cons_of_mem _ hin)) (readEach_ok_iff.mpr hrest)
      refine ⟨d :: ds, readEach_ok_iff.mpr (.cons hd (readEach_ok_iff.mp hds)), ?_, ?_⟩
      · rw [List.map_cons, List.map_cons, hhours, hdhour, hehour]
      · cases hp : e.prunable with
        | true => rw [heager hp, List.filter_cons, List.filter_cons, hfilter]
        | false =>
            have hrefused : d.prunable = false := by
              refine Bool.eq_false_iff.mpr fun hprunable => ?_
              rw [he] at hlazy
              obtain rfl := Except.ok.inj (hlazy hprunable)
              rw [hp] at hprunable
              cases hprunable
            rw [List.filter_cons, List.filter_cons, if_neg (Bool.eq_false_iff.mp hrefused),
              if_neg (Bool.eq_false_iff.mp hp), hfilter]

end Archive

end Survey

/-- What makes an hour prunable, when `unverified` is the reason, that hashes
only help, and that hashing lazily changes nothing. -/
theorem prune_decisions :
    (∀ (facts : HourFacts) (manifest : Option Manifest) (o : PruneOptions),
      (facts.decide manifest o).prunable = true ↔
        ∃ m, manifest = some m ∧ facts.Safe true m o) ∧
    (∀ (facts : HourFacts) (manifest : Option Manifest) (o : PruneOptions),
      (PruneReason.unverified ∈ (facts.decide manifest o).reasons →
        (facts.decide manifest o).reasons = [.unverified]) ∧
      (PruneReason.unverified ∈ (facts.decide manifest o).reasons ↔
        (facts.decide manifest o).prunable = false ∧
          ∃ m, manifest = some m ∧ ((facts.matched m).decide manifest o).prunable = true)) ∧
    (∀ (more fewer : HourFacts) (manifest : Option Manifest) (o : PruneOptions),
      more.Extends fewer → (fewer.decide manifest o).prunable = true →
        (more.decide manifest o).prunable = true) ∧
    (∀ (ε : Type) (archive : Archive ε) (o : PruneOptions),
      (∀ ds, archive.survey o = .ok ds → List.Forall₂ (fun hour d => d.hour = hour ∧
        (d.prunable = true ↔ ∃ e, archive.decideHashed o hour = .ok e ∧ e.prunable = true))
          archive.surveyedHours ds) ∧
      ∀ es, archive.surveyHashed o = .ok es → ∃ ds, archive.survey o = .ok ds ∧
        ds.map PruneDecision.hour = es.map PruneDecision.hour ∧
        ds.filter (fun d => d.prunable) = es.filter fun e => e.prunable) := by
  refine ⟨fun _ _ _ => prunable_iff, fun facts manifest o => ⟨reasons_of_unverified, ?_⟩,
    fun more fewer manifest o hmore hp => ?_, fun ε archive o => ⟨fun ds h => ?_, fun es h =>
      Archive.survey_of_hashed h⟩⟩
  · rw [unverified_iff]
    refine and_congr_right fun _ => exists_congr fun m => and_congr_right fun hm => ?_
    rw [← safe_matched_iff, prunable_iff, hm]
    constructor
    · exact fun h => ⟨m, rfl, h⟩
    · rintro ⟨other, hother, h⟩
      obtain rfl := Option.some.inj hother
      exact h
  · obtain ⟨m, hm, hsafe⟩ := prunable_iff.mp hp
    exact prunable_iff.mpr ⟨m, hm, hsafe.extends hmore⟩
  · rw [Archive.survey_eq] at h
    have hread := (List.forall₂_and_left _ _).mpr ⟨fun _ hin => hin, readEach_ok_iff.mp h⟩
    refine hread.imp fun hour d hd => ?_
    have hfiles : archive.segmentFiles hour ≠ [] :=
      of_decide_eq_true (List.mem_filter.mp hd.1).2
    obtain ⟨hhour, hlazy, hagree⟩ := Archive.decideRead_agrees hfiles hd.2
    refine ⟨hhour, fun hp => ⟨d, hlazy hp, hp⟩, ?_⟩
    rintro ⟨e, he, hp⟩
    rw [← (hagree e he).2 hp]
    exact hp

/-- A day whose first hour has one segment and one part. -/
def bakedDay : Except ManifestError Manifest :=
  withHour emptyDay (bakedHour 0 "1970-01-01/00/conn-01.tape.zst"
    "deltas/dt=1970-01-01/hour=00/part-0.parquet") "1" none

/-- The files of that hour as they are found, the part hashed or not. -/
def bakedHourFacts (sha256 : Option String) : HourFacts where
  hour := ⟨Date.epoch, 0, HourKey.first_lt⟩
  segments := [⟨"1970-01-01/00/conn-01.tape.zst", 10, some "aa"⟩]
  parts := [⟨"deltas/dt=1970-01-01/hour=00/part-0.parquet", true, some "bb"⟩,
    ⟨"part-9.parquet", true, sha256⟩]

/-- The hash of a file no manifest lists makes no difference. -/
theorem prune_decisions_bakedDay :
    ∃ m, bakedDay = .ok m ∧
      ((bakedHourFacts (some "cc")).decide (some m) ⟨7200000000001, 1, 1⟩).prunable = true := by
  have hbare : (bakedDay.map fun m =>
      ((bakedHourFacts none).decide (some m) ⟨7200000000001, 1, 1⟩).prunable) = .ok true := by
    decide +kernel
  cases h : bakedDay with
  | error e =>
      rw [h] at hbare
      cases hbare
  | ok m =>
      rw [h] at hbare
      have hmore : (bakedHourFacts (some "cc")).Extends (bakedHourFacts none) :=
        { hour := rfl
          segments := .cons ⟨rfl, rfl, .inl rfl⟩ .nil
          parts := .cons ⟨rfl, rfl, .inl rfl⟩ (.cons ⟨rfl, rfl, .inr rfl⟩ .nil) }
      exact ⟨m, rfl, prune_decisions.2.2.1 _ _ _ _ hmore (Except.ok.inj hbare)⟩

end Tape.Bake
