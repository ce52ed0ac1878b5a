import Tape.Store.Boots

/-!
# Sequence numbers in a replay

The events of a replay carry no sequence numbers: what orders the changes of one
boot is the monotonic receipt, and behind it the position of a row. So the
changes of a subscription are applied by their numbers as far as the receipts
tell them apart, and those of one receipt as their rows lie: deltas before
snapshots, whichever came first (`rightly_iff`).
-/

namespace Sorted

variable {α κ : Type*} [LinearOrder κ] {key : α → κ}

/-- What holds of the pairs of a strictly sorted list holds of any two whose
keys are in order. -/
theorem pairwise_iff_of_strict {R : α → α → Prop} {l : List α}
    (hs : l.Pairwise fun a b => key a < key b) :
    l.Pairwise R ↔ ∀ a ∈ l, ∀ b ∈ l, key a < key b → R a b := by
  constructor
  · intro hR
    induction l with
    | nil => exact fun a ha => by cases ha
    | cons c l ih =>
        obtain ⟨hcs, hs⟩ := List.pairwise_cons.mp hs
        obtain ⟨hcR, hR⟩ := List.pairwise_cons.mp hR
        intro a ha b hb hab
        rcases List.mem_cons.mp ha with hac | ha
        · rcases List.mem_cons.mp hb with hbc | hb
          · rw [hac, hbc] at hab
            exact absurd hab (lt_irrefl _)
          · exact hac ▸ hcR b hb
        · rcases List.mem_cons.mp hb with hbc | hb
          · exact absurd (hbc ▸ hcs a ha) (lt_asymm hab)
          · exact ih hs hR a ha b hb hab
  · intro h
    exact hs.imp_of_mem fun ha hb hab => h _ ha _ hb hab

theorem mem_of_mem_runs {l : List α} (hs : l.Pairwise fun a b => key a ≤ key b)
    {r : α × List α} (hr : r ∈ runs key l) : r.1 ∈ l := by
  have hmem : r.1 ∈ r.1 :: r.2 := List.mem_cons_self
  rw [runs_filter hs r hr] at hmem
  exact (List.mem_filter.mp hmem).1

end Sorted

namespace Tape

/-! ## The rows behind the events -/

/-- The subscription of a change and its number in it. -/
abbrev SeqOf := (Int × Sid) × Option Int

/-- An event and what the row it was built from says of its sequence. -/
structure Sourced where
  event : Stamped
  seq : Option SeqOf

/-- A delta with its number. -/
def DeltaRow.sourced (r : DeltaRow) : Sourced := ⟨r.event, some ((r.connId, r.sid), r.seq)⟩

/-- A snapshot with its number. -/
def snapshotSourced (rows : SnapshotRow × List SnapshotRow) : Sourced :=
  ⟨snapshotEvent rows, some ((rows.1.connId, rows.1.sid), rows.1.seq)⟩

/-- A gap, which has no number. -/
def GapRow.sourced (r : GapRow) : Sourced := ⟨r.event, none⟩

/-- The events of the tables in the order `replay` lists them in. -/
def sources (deltas : List DeltaRow) (snapshots : List SnapshotRow) (gaps : List GapRow) :
    List Sourced :=
  deltas.map DeltaRow.sourced ++
    (Sorted.runs SnapshotRow.key (Sorted.sortOn SnapshotRow.key snapshots)).map snapshotSourced ++
    gaps.map GapRow.sourced

/-- The position of the row, the last component of its key. -/
def ReplayKey.position (key : ReplayKey) : Nat := (ofLex (ofLex (ofLex key).2).2).2

/-- The keys by which the events are sorted. -/
def replayKeys (events : List Stamped) : List (ReplayKey × Stamped) :=
  keyed 0 none (Sorted.sortOn wallKey events.zipIdx)

/-- The positions of the events, in the order of application. -/
def appliedAt (events : List Stamped) : List Nat :=
  (Sorted.sortOn Prod.fst (replayKeys events)).map fun k => ReplayKey.position k.1

/-- The sources in the order in which their events are applied. -/
def appliedSources (deltas : List DeltaRow) (snapshots : List SnapshotRow)
    (gaps : List GapRow) : List Sourced :=
  let all := sources deltas snapshots gaps
  (appliedAt (all.map Sourced.event)).filterMap fun i => all[i]?

theorem sources_event (deltas : List DeltaRow) (snapshots : List SnapshotRow)
    (gaps : List GapRow) :
    (sources deltas snapshots gaps).map Sourced.event =
      deltaEvents deltas ++ snapshotEvents snapshots ++ gapEvents gaps := by
  rw [sources, List.map_append, List.map_append, List.map_map, List.map_map, List.map_map]
  rfl

/-- A key says where its event is. -/
theorem mem_of_mem_keyed {l : List (Stamped × Nat)} :
    ∀ {restarts : Int} {highest : Option Int}, ∀ k ∈ keyed restarts highest l,
      (k.2, ReplayKey.position k.1) ∈ l := by
  induction l with
  | nil => exact fun k hk => by cases hk
  | cons first l ih =>
      intro restarts highest k hk
      obtain ⟨e, index⟩ := first
      have hsplit : ∃ r high, k = (replayKey r e index, e) ∨ k ∈ keyed r high l := by
        cases highest with
        | none =>
            rw [keyed] at hk
            exact ⟨_, _, List.mem_cons.mp hk⟩
        | some high =>
            rw [keyed] at hk
            split at hk
            · exact ⟨_, _, List.mem_cons.mp hk⟩
            · exact ⟨_, _, List.mem_cons.mp hk⟩
      obtain ⟨r, high, rfl | hk⟩ := hsplit
      · exact List.mem_cons_self
      · exact List.mem_cons_of_mem _ (ih k hk)

/-- Every event has its key. -/
theorem keyed_positions {l : List (Stamped × Nat)} :
    ∀ {restarts : Int} {highest : Option Int},
      (keyed restarts highest l).map (fun k => (k.2, ReplayKey.position k.1)) = l := by
  induction l with
  | nil => exact rfl
  | cons first l ih =>
      intro restarts highest
      obtain ⟨e, index⟩ := first
      cases highest with
      | none =>
          rw [keyed, List.map_cons, ih]
          rfl
      | some high =>
          rw [keyed]
          split
          · rw [List.map_cons, ih]
            rfl
          · rw [List.map_cons, ih]
            rfl

/-- The key of an event is in the order of the wall clocks. -/
theorem mem_replayKeys {events : List Stamped} {k : ReplayKey × Stamped}
    (h : k ∈ replayKeys events) : events[ReplayKey.position k.1]? = some k.2 :=
  List.mk_mem_zipIdx_iff_getElem?.mp
    ((Sorted.sortOn_perm _ _).mem_iff.mp (mem_of_mem_keyed k h))

theorem replayKeys_map (events : List Stamped) :
    (replayKeys events).map (fun k => (k.2, ReplayKey.position k.1)) =
      Sorted.sortOn wallKey events.zipIdx := keyed_positions

theorem replayKeys_perm (events : List Stamped) :
    ((replayKeys events).map fun k => (k.2, ReplayKey.position k.1)).Perm events.zipIdx := by
  rw [replayKeys_map]
  exact Sorted.sortOn_perm _ _

/-- Each position is applied once. -/
theorem appliedAt_perm (events : List Stamped) :
    (appliedAt events).Perm (List.range events.length) := by
  have hpositions := (replayKeys_perm events).map Prod.snd
  rw [List.map_map, List.zipIdx_map_snd, ← List.range_eq_range'] at hpositions
  exact ((Sorted.sortOn_perm Prod.fst (replayKeys events)).map _).trans hpositions

/-- The replay applies the events of the sources, in this order. -/
theorem appliedSources_event (deltas : List DeltaRow) (snapshots : List SnapshotRow)
    (gaps : List GapRow) :
    (appliedSources deltas snapshots gaps).map Sourced.event =
      inOrder (deltaEvents deltas ++ snapshotEvents snapshots ++ gapEvents gaps) := by
  rw [← sources_event, appliedSources]
  generalize sources deltas snapshots gaps = all
  rw [inOrder, appliedAt, List.filterMap_map, List.map_filterMap]
  refine (List.filterMap_congr (g := some ∘ Prod.snd) fun k hk => ?_).trans
    (congrFun List.filterMap_eq_map _)
  have hat := mem_replayKeys ((Sorted.sortOn_perm _ _).mem_iff.mp hk)
  rw [List.getElem?_map] at hat
  exact hat

theorem filterMap_getElem? {α : Type*} (l : List α) :
    (List.range l.length).filterMap (fun i => l[i]?) = l := by
  induction l with
  | nil => rfl
  | cons a l ih =>
      rw [List.length_cons, List.range_succ_eq_map, List.filterMap_cons, List.filterMap_map]
      exact congrArg (a :: ·) ih

/-- None is lost or doubled. -/
theorem appliedSources_perm (deltas : List DeltaRow) (snapshots : List SnapshotRow)
    (gaps : List GapRow) :
    (appliedSources deltas snapshots gaps).Perm (sources deltas snapshots gaps) := by
  rw [appliedSources]
  generalize sources deltas snapshots gaps = all
  refine ((appliedAt_perm (all.map Sourced.event)).filterMap _).trans (List.Perm.of_eq ?_)
  rw [List.length_map, filterMap_getElem?]

/-- The keys of two events tell which is applied first. -/
theorem appliedAt_pairwise (events : List Stamped) (R : Nat → Nat → Prop) :
    (appliedAt events).Pairwise R ↔ ∀ k ∈ replayKeys events, ∀ k' ∈ replayKeys events,
      k.1 < k'.1 → R (ReplayKey.position k.1) (ReplayKey.position k'.1) := by
  have hperm := Sorted.sortOn_perm Prod.fst (replayKeys events)
  have hnodup : ((replayKeys events).map Prod.fst).Nodup := by
    refine List.Nodup.of_map ReplayKey.position ?_
    rw [List.map_map]
    refine (hperm.map _).nodup_iff.mp ?_
    exact (appliedAt_perm events).nodup_iff.mpr List.nodup_range
  have hstrict := Sorted.strict_of_nodup (Sorted.sortOn_pairwise Prod.fst _)
    ((hperm.map Prod.fst).nodup_iff.mpr hnodup)
  rw [appliedAt, List.pairwise_map, Sorted.pairwise_iff_of_strict (List.pairwise_map.mp hstrict)]
  exact ⟨fun h k hk k' hk' => h k (hperm.mem_iff.mpr hk) k' (hperm.mem_iff.mpr hk'),
    fun h k hk k' hk' => h k (hperm.mem_iff.mp hk) k' (hperm.mem_iff.mp hk')⟩

/-! ## One boot -/

/-- The rows of one boot of the host: no wall receipt puts a reading after one
that is more than ten minutes later. -/
def OneBoot (events : List Stamped) : Prop :=
  ∀ a ∈ events, ∀ b ∈ events, a.recvWallNs ≤ b.recvWallNs →
    a.recvMonoNs ≤ b.recvMonoNs + monoRestartNs

instance (events : List Stamped) : Decidable (OneBoot events) :=
  inferInstanceAs (Decidable (∀ a ∈ events, ∀ b ∈ events, a.recvWallNs ≤ b.recvWallNs →
    a.recvMonoNs ≤ b.recvMonoNs + monoRestartNs))

/-- One boot is one stretch. -/
theorem keyed_one_boot {events : List Stamped} (h : OneBoot events) :
    keyed 0 none (Sorted.sortOn wallKey events.zipIdx) =
      (Sorted.sortOn wallKey events.zipIdx).map fun e => (replayKey 0 e.1 e.2, e.1) := by
  have hsteps : (Sorted.sortOn wallKey events.zipIdx).Pairwise
      fun a b => a.1.recvMonoNs ≤ b.1.recvMonoNs + monoRestartNs := by
    refine (Sorted.sortOn_pairwise wallKey events.zipIdx).imp_of_mem fun {a b} ha hb hab => ?_
    have hmem : ∀ e ∈ Sorted.sortOn wallKey events.zipIdx, e.1 ∈ events := fun e he =>
      List.mem_of_getElem? (List.mk_mem_zipIdx_iff_getElem?.mp
        ((Sorted.sortOn_perm wallKey events.zipIdx).mem_iff.mp he))
    refine h _ (hmem a ha) _ (hmem b hb) ?_
    rcases Prod.Lex.le_iff.mp hab with hlt | ⟨heq, -⟩
    · exact hlt.le
    · exact heq.le
  cases hwall : Sorted.sortOn wallKey events.zipIdx with
  | nil => rfl
  | cons first l =>
      rw [hwall] at hsteps
      obtain ⟨hfirst, hsteps⟩ := List.pairwise_cons.mp hsteps
      obtain ⟨high, -, -, hkeyed⟩ := keyed_stretch 0 [] hfirst hsteps
      obtain ⟨e, index⟩ := first
      rw [List.append_nil] at hkeyed
      rw [keyed, hkeyed, keyed, List.append_nil, List.map_cons]

theorem mem_replayKeys_iff {events : List Stamped} (h : OneBoot events)
    {k : ReplayKey × Stamped} :
    k ∈ replayKeys events ↔ ∃ a i, events[i]? = some a ∧ k = (replayKey 0 a i, a) := by
  rw [replayKeys, keyed_one_boot h, List.mem_map]
  have hperm := Sorted.sortOn_perm wallKey events.zipIdx
  constructor
  · rintro ⟨⟨a, i⟩, hai, rfl⟩
    exact ⟨a, i, List.mk_mem_zipIdx_iff_getElem?.mp (hperm.mem_iff.mp hai), rfl⟩
  · rintro ⟨a, i, hai, rfl⟩
    exact ⟨(a, i), hperm.mem_iff.mpr (List.mk_mem_zipIdx_iff_getElem?.mpr hai), rfl⟩

/-- The order of application over one boot, by the positions of the rows. -/
theorem appliedSources_pairwise {deltas : List DeltaRow} {snapshots : List SnapshotRow}
    {gaps : List GapRow} (h : OneBoot ((sources deltas snapshots gaps).map Sourced.event))
    (R : Sourced → Sourced → Prop) :
    (appliedSources deltas snapshots gaps).Pairwise R ↔
      ∀ i j x y, (sources deltas snapshots gaps)[i]? = some x →
        (sources deltas snapshots gaps)[j]? = some y →
          replayKey 0 x.event i < replayKey 0 y.event j → R x y := by
  rw [appliedSources]
  generalize sources deltas snapshots gaps = all at *
  rw [List.pairwise_filterMap, appliedAt_pairwise]
  constructor
  · intro hR i j x y hx hy hlt
    have hkey : ∀ i x, all[i]? = some x →
        (replayKey 0 x.event i, x.event) ∈ replayKeys (all.map Sourced.event) := by
      intro i x hx
      refine (mem_replayKeys_iff h).mpr ⟨_, i, ?_, rfl⟩
      rw [List.getElem?_map, hx, Option.map_some]
    exact hR _ (hkey i x hx) _ (hkey j y hy) hlt x hx y hy
  · intro hR k hk k' hk' hlt x hx y hy
    have hkey : ∀ k ∈ replayKeys (all.map Sourced.event), ∀ x,
        all[ReplayKey.position k.1]? = some x →
          k.1 = replayKey 0 x.event (ReplayKey.position k.1) := by
      intro k hk x hx
      obtain ⟨a, i, hi, rfl⟩ := (mem_replayKeys_iff h).mp hk
      rw [List.getElem?_map, show all[i]? = some x from hx, Option.map_some] at hi
      rw [← Option.some.inj hi]
      rfl
    rw [hkey k hk x hx, hkey k' hk' y hy] at hlt
    exact hR _ _ x y hx hy hlt

/-! ## Changes by their numbers -/

namespace Sourced

/-- Two changes of one subscription, the first with no higher number. -/
def InSeq (x y : Sourced) : Prop :=
  ∀ subscription m n, x.seq = some (subscription, some m) →
    y.seq = some (subscription, some n) → m ≤ n

/-- The receipts of a subscription do not fall along its numbers. -/
def MonoAlong (l : List Sourced) : Prop :=
  ∀ x ∈ l, ∀ y ∈ l, ∀ subscription m n, x.seq = some (subscription, some m) →
    y.seq = some (subscription, some n) → m < n →
      x.event.recvMonoNs ≤ y.event.recvMonoNs

instance (x y : Sourced) : Decidable (InSeq x y) :=
  match hx : x.seq, hy : y.seq with
  | some (subscription, some m), some (subscription', some n) =>
      decidable_of_iff (subscription = subscription' → m ≤ n) (by
        constructor
        · intro h s m' n' hm hn
          rw [hx] at hm
          rw [hy] at hn
          cases hm
          cases hn
          exact h rfl
        · intro h heq
          exact h subscription m n hx (heq ▸ hy))
  | none, _ => isTrue (by simp [InSeq, hx])
  | some (_, none), _ => isTrue (by simp [InSeq, hx])
  | some (_, some _), none => isTrue (by simp [InSeq, hy])
  | some (_, some _), some (_, none) => isTrue (by simp [InSeq, hy])

/-- Of two changes of a subscription the one received first has no higher
number. -/
theorem monoAlong_iff {l : List Sourced} :
    MonoAlong l ↔ ∀ x ∈ l, ∀ y ∈ l, x.event.recvMonoNs < y.event.recvMonoNs → InSeq x y := by
  constructor
  · intro h x hx y hy hlt subscription m n hm hn
    by_contra hnot
    have hle := h y hy x hx subscription n m hn hm (by omega)
    omega
  · intro h x hx y hy subscription m n hm hn hlt
    by_contra hnot
    have hle := h y hy x hx (by omega) subscription n m hn hm
    omega

instance (l : List Sourced) : Decidable (MonoAlong l) := decidable_of_iff _ monoAlong_iff.symm

end Sourced

open Sourced

/-! ## What tells the order -/

/-- The market a change is made to. -/
def ReplayChange.market : ReplayChange → Option Ticker
  | .delta ticker .. => some ticker
  | .snapshot ticker .. => some ticker
  | .gap .. => none

namespace Sourced

/-- The numbers of one subscription put the first change before the second. -/
def Earlier (x y : Sourced) : Prop :=
  ∃ subscription m n, x.seq = some (subscription, some m) ∧
    y.seq = some (subscription, some n) ∧ m < n

/-- Two changes of a market received at once, in this order: their numbers say
so, or there is nothing to tell apart. -/
def Told (x y : Sourced) : Prop :=
  x.event.recvMonoNs = y.event.recvMonoNs → ∀ t, x.event.change.market = some t →
    y.event.change.market = some t → Earlier x y ∨ x.event.change.Alike y.event.change

/-- In this order by their numbers, and not by where their rows lie. -/
def Rightly (x y : Sourced) : Prop := InSeq x y ∧ Told x y

/-- Of two that share their receipt, the one listed first is rightly first. -/
def TiesTold (l : List Sourced) : Prop :=
  l.Pairwise fun x y => x.event.recvMonoNs = y.event.recvMonoNs → Rightly x y

/-- A change of a market, or a gap, which has no number. -/
theorem change_or_gap {deltas : List DeltaRow} {snapshots : List SnapshotRow}
    {gaps : List GapRow} {x : Sourced} (hx : x ∈ sources deltas snapshots gaps) :
    (x.event.order = changeOrder ∧ ∃ t, x.event.change.market = some t) ∨
      (x.event.order = gapOrder ∧ (∃ connId sid, x.event.change = .gap connId sid) ∧
        x.seq = none) := by
  rw [sources, List.mem_append, List.mem_append] at hx
  rcases hx with (hx | hx) | hx
  · obtain ⟨r, -, rfl⟩ := List.mem_map.mp hx
    exact .inl ⟨rfl, _, rfl⟩
  · obtain ⟨rows, -, rfl⟩ := List.mem_map.mp hx
    exact .inl ⟨rfl, _, rfl⟩
  · obtain ⟨r, -, rfl⟩ := List.mem_map.mp hx
    exact .inr ⟨rfl, ⟨_, _, rfl⟩, rfl⟩

/-- A gap has no place among the changes of one market. -/
theorem rightly_of_gap {x y : Sourced} {connId : Int} {sid : Sid}
    (hchange : x.event.change = .gap connId sid ∨ y.event.change = .gap connId sid)
    (hseq : x.seq = none ∨ y.seq = none) : Rightly x y := by
  constructor
  · intro subscription m n hm hn
    rcases hseq with h | h
    · rw [h] at hm
      cases hm
    · rw [h] at hn
      cases hn
  · intro _ t hx hy
    rcases hchange with h | h
    · rw [h] at hx
      cases hx
    · rw [h] at hy
      cases hy

end Sourced

open Sourced

/-- Of two changes the earlier received is applied first, and of two received at
once the one listed first. -/
theorem replayKey_lt_iff {a b : Stamped} {i j : Nat} (h : a.order = b.order) :
    replayKey 0 a i < replayKey 0 b j ↔
      a.recvMonoNs < b.recvMonoNs ∨ a.recvMonoNs = b.recvMonoNs ∧ i < j := by
  simp only [replayKey, Prod.Lex.toLex_lt_toLex, lt_irrefl, false_or, true_and, h]

theorem mono_le_of_replayKey_lt {a b : Stamped} {i j : Nat}
    (h : replayKey 0 a i < replayKey 0 b j) :
    a.recvMonoNs < b.recvMonoNs ∨ a.recvMonoNs = b.recvMonoNs ∧ a.order ≤ b.order := by
  simp only [replayKey, Prod.Lex.toLex_lt_toLex, lt_irrefl, false_or, true_and] at h
  rcases h with h | ⟨h, h' | h'⟩
  · exact .inl h
  · exact .inr ⟨h, h'.le⟩
  · exact .inr ⟨h, h'.1.le⟩

/-- A replay of one boot applies all changes rightly exactly where the rows of
those that were received at once lie so. -/
theorem rightly_iff {deltas : List DeltaRow} {snapshots : List SnapshotRow} {gaps : List GapRow}
    (hboot : OneBoot ((sources deltas snapshots gaps).map Sourced.event))
    (hmono : MonoAlong (sources deltas snapshots gaps)) :
    (appliedSources deltas snapshots gaps).Pairwise Rightly ↔
      TiesTold (sources deltas snapshots gaps) := by
  have hkind : ∀ x ∈ sources deltas snapshots gaps, _ := fun x hx => change_or_gap hx
  rw [appliedSources_pairwise hboot]
  generalize sources deltas snapshots gaps = all at *
  rw [TiesTold, List.pairwise_iff_getElem]
  constructor
  · intro h i j hi hj hij htie
    rcases hkind _ (List.getElem_mem hi) with ⟨hx, -⟩ | ⟨-, ⟨_, _, hgap⟩, hnone⟩
    · rcases hkind _ (List.getElem_mem hj) with ⟨hy, -⟩ | ⟨-, ⟨_, _, hgap⟩, hnone⟩
      · refine h i j _ _ (List.getElem?_eq_getElem hi) (List.getElem?_eq_getElem hj) ?_
        exact (replayKey_lt_iff (hx.trans hy.symm)).mpr (.inr ⟨htie, hij⟩)
      · exact rightly_of_gap (.inr hgap) (.inr hnone)
    · exact rightly_of_gap (.inl hgap) (.inl hnone)
  · intro h i j x y hx hy hlt
    have hxmem := List.mem_of_getElem? hx
    have hymem := List.mem_of_getElem? hy
    rcases hkind x hxmem with ⟨hxorder, -⟩ | ⟨-, ⟨_, _, hgap⟩, hnone⟩
    · rcases hkind y hymem with ⟨hyorder, -⟩ | ⟨-, ⟨_, _, hgap⟩, hnone⟩
      · rcases (replayKey_lt_iff (hxorder.trans hyorder.symm)).mp hlt with hlt | ⟨heq, hij⟩
        · refine ⟨monoAlong_iff.mp hmono x hxmem y hymem hlt, fun heq => ?_⟩
          exact absurd heq hlt.ne
        · obtain ⟨hi, rfl⟩ := List.getElem?_eq_some_iff.mp hx
          obtain ⟨hj, rfl⟩ := List.getElem?_eq_some_iff.mp hy
          exact h i j hi hj hij heq
      · exact rightly_of_gap (.inr hgap) (.inr hnone)
    · exact rightly_of_gap (.inl hgap) (.inl hnone)

/-! ## Falls of the clock -/

/-- A reading far below the highest so far starts another stretch. -/
theorem restarted_of_mem_keyed {l : List (Stamped × Nat)} :
    ∀ {restarts high : Int}, ∀ k ∈ keyed restarts (some high) l,
      k.2.recvMonoNs + monoRestartNs < high → restarts < (ofLex k.1).1 := by
  induction l with
  | nil => exact fun k hk => by cases hk
  | cons first l ih =>
      intro restarts high k hk hfall
      obtain ⟨e, index⟩ := first
      rw [keyed] at hk
      split at hk
      · rcases List.mem_cons.mp hk with rfl | hk
        · exact Int.lt_succ restarts
        · exact lt_of_lt_of_le (Int.lt_succ restarts) (le_of_mem_keyed k hk)
      · next hkeep =>
          rcases List.mem_cons.mp hk with rfl | hk
          · dsimp only at hfall
            omega
          · exact ih k hk (lt_of_lt_of_le hfall (le_max_left _ _))

/-- Whatever is far below one before it on the wall clock is in a later stretch. -/
theorem restarts_lt {l : List (Stamped × Nat)} :
    ∀ {restarts : Int} {highest : Option Int}, (keyed restarts highest l).Pairwise fun k k' =>
      k'.2.recvMonoNs + monoRestartNs < k.2.recvMonoNs → (ofLex k.1).1 < (ofLex k'.1).1 := by
  induction l with
  | nil => exact List.Pairwise.nil
  | cons first l ih =>
      intro restarts highest
      obtain ⟨e, index⟩ := first
      cases highest with
      | none =>
          rw [keyed]
          exact List.pairwise_cons.mpr ⟨restarted_of_mem_keyed, ih⟩
      | some high =>
          rw [keyed]
          split
          · exact List.pairwise_cons.mpr ⟨restarted_of_mem_keyed, ih⟩
          · refine List.pairwise_cons.mpr ⟨fun k hk hfall => ?_, ih⟩
            exact restarted_of_mem_keyed k hk (lt_of_lt_of_le hfall (le_max_right _ _))

/-- A reading far below one of an earlier wall receipt is in a later stretch. -/
theorem restarts_lt_of_wall {events : List Stamped} {k k' : ReplayKey × Stamped}
    (hk : k ∈ replayKeys events) (hk' : k' ∈ replayKeys events)
    (hwall : k.2.recvWallNs < k'.2.recvWallNs)
    (hfall : k'.2.recvMonoNs + monoRestartNs < k.2.recvMonoNs) :
    (ofLex k.1).1 < (ofLex k'.1).1 := by
  have hsorted : (replayKeys events).Pairwise fun k k' => k.2.recvWallNs ≤ k'.2.recvWallNs := by
    have hwalls := Sorted.sortOn_pairwise wallKey events.zipIdx
    rw [← replayKeys_map, List.pairwise_map] at hwalls
    exact hwalls.imp fun {k k'} hle => by
      rcases Prod.Lex.le_iff.mp hle with hlt | ⟨heq, -⟩
      · exact hlt.le
      · exact heq.le
  let Later : ReplayKey × Stamped → ReplayKey × Stamped → Prop := fun k k' =>
    k.2.recvWallNs < k'.2.recvWallNs → k'.2.recvMonoNs + monoRestartNs < k.2.recvMonoNs →
      (ofLex k.1).1 < (ofLex k'.1).1
  have hfalls : (replayKeys events).Pairwise fun k k' =>
      k'.2.recvMonoNs + monoRestartNs < k.2.recvMonoNs → (ofLex k.1).1 < (ofLex k'.1).1 :=
    restarts_lt
  have hforth : (replayKeys events).Pairwise Later := by
    refine hfalls.imp ?_
    intro k k' hrestarted _
    exact hrestarted
  have hback : (replayKeys events).Pairwise (flip Later) :=
    hsorted.imp fun hle hlt => absurd hlt hle.not_gt
  exact hforth.forall_of_forall_of_flip (fun k _ hlt => absurd hlt (lt_irrefl _)) hback hk hk'
    hwall hfall

/-- Where the changes of each subscription are applied by their numbers, no
number is received long after a higher one that the wall clock puts later. -/
theorem no_fall_of_inSeq {deltas : List DeltaRow} {snapshots : List SnapshotRow}
    {gaps : List GapRow} (h : (appliedSources deltas snapshots gaps).Pairwise InSeq) :
    ∀ x ∈ sources deltas snapshots gaps, ∀ y ∈ sources deltas snapshots gaps, Earlier x y →
      y.event.recvWallNs < x.event.recvWallNs →
        y.event.recvMonoNs ≤ x.event.recvMonoNs + monoRestartNs := by
  rw [appliedSources] at h
  generalize sources deltas snapshots gaps = all at *
  rintro x hx y hy ⟨subscription, m, n, hm, hn, hlt⟩ hwall
  by_contra hfall
  obtain ⟨i, hi⟩ := List.mem_iff_getElem?.mp hx
  obtain ⟨j, hj⟩ := List.mem_iff_getElem?.mp hy
  have hkey : ∀ i x, all[i]? = some x → ∃ k ∈ replayKeys (all.map Sourced.event),
      k.2 = x.event ∧ ReplayKey.position k.1 = i := by
    intro i x hx
    have hmem : (x.event, i) ∈ (all.map Sourced.event).zipIdx := by
      rw [List.mk_mem_zipIdx_iff_getElem?, List.getElem?_map, hx, Option.map_some]
    obtain ⟨k, hk, heq⟩ := List.mem_map.mp ((replayKeys_perm _).mem_iff.mpr hmem)
    exact ⟨k, hk, Prod.mk.inj heq⟩
  obtain ⟨kx, hkx, hxevent, rfl⟩ := hkey i x hi
  obtain ⟨ky, hky, hyevent, rfl⟩ := hkey j y hj
  have hrestarts : (ofLex ky.1).1 < (ofLex kx.1).1 := by
    refine restarts_lt_of_wall hky hkx ?_ ?_
    · rw [hyevent, hxevent]
      exact hwall
    · rw [hyevent, hxevent]
      omega
  rw [List.pairwise_filterMap, appliedAt_pairwise] at h
  have hle := h ky hky kx hkx (Prod.Lex.lt_iff.mpr (.inl hrestarts)) y hj x hi subscription n m
    hn hm
  omega

end Tape
