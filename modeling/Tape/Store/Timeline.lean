import Tape.Store.Order

/-!
# From records to tables and back to events

The bake takes the records of a recording apart into three tables, and the
replay builds events from the tables. Up to the order of a snapshot's levels
the events are those of the records (`records_mixed`), and over a run of the
supervisor on increasing clocks they come out in the order in which the
recorder acted on them (`inOrder_tables`).
-/

namespace Tape

/-- The event of a book event: one delta, or one whole snapshot. -/
def BookEvent.stamped : BookEvent → Stamped
  | .delta e => (DeltaRow.ofDelta e).event
  | .snapshot e =>
      ⟨e.receipt.recvWallNs, e.receipt.recvMonoNs, changeOrder,
        .snapshot e.ticker e.receipt.connId e.sid e.bids e.asks⟩

theorem BookEvent.stamped_times (e : BookEvent) :
    e.stamped.recvWallNs = e.receipt.recvWallNs ∧ e.stamped.recvMonoNs = e.receipt.recvMonoNs ∧
      e.stamped.order = changeOrder := by
  cases e <;> exact ⟨rfl, rfl, rfl⟩

namespace TapeRecord

variable (config : SupervisorConfig)

/-- The event of a record. -/
def stamped : TapeRecord → List Stamped
  | .frame f => ((bakedEvent config f).map BookEvent.stamped).toList
  | .gap connId recvMonoNs recvWallNs sid _ _ =>
      [⟨recvWallNs, recvMonoNs, gapOrder, .gap connId sid⟩]
  | _ => []

/-- The snapshot of a record. -/
def images : TapeRecord → List BookSnapshot
  | .frame f =>
      match bakedEvent config f with
      | some (.snapshot e) => [e]
      | _ => []
  | _ => []

variable {config}

theorem snapshotRows_eq (r : TapeRecord) :
    r.snapshotRows config = (r.images config).flatMap SnapshotRow.ofSnapshot := by
  cases r with
  | frame f =>
      rw [snapshotRows, images]
      rcases bakedEvent config f with _ | ⟨e | e⟩
      · rfl
      · exact (List.append_nil _).symm
      · rfl
  | _ => rfl

theorem stamped_eq (config : SupervisorConfig) (r : TapeRecord) :
    r.stamped config = ((r.deltaRows config).map DeltaRow.event ++
      (r.images config).map fun e => (BookEvent.snapshot e).stamped) ++
      r.gapRows.map GapRow.event := by
  cases r with
  | frame f =>
      rw [stamped, deltaRows, images]
      rcases bakedEvent config f with _ | ⟨e | e⟩
      · rfl
      · rfl
      · rfl
  | _ => rfl

end TapeRecord

/-! ## The rows of a snapshot -/

/-- What the rows of a snapshot are put together by. -/
def imageKey (e : BookSnapshot) : Ticker ×ₗ Int ×ₗ Int ×ₗ Int ×ₗ WithTop Int :=
  (SnapshotRow.ofLevel e emptySide ⟨0, 0⟩).key

theorem mem_ofSnapshot {e : BookSnapshot} {r : SnapshotRow} (h : r ∈ SnapshotRow.ofSnapshot e) :
    ∃ side l, r = SnapshotRow.ofLevel e side l := by
  rw [SnapshotRow.ofSnapshot] at h
  split at h
  · exact ⟨_, _, List.mem_singleton.mp h⟩
  · rcases List.mem_append.mp h with hb | ha
    · obtain ⟨l, -, rfl⟩ := List.mem_map.mp hb
      exact ⟨_, _, rfl⟩
    · obtain ⟨l, -, rfl⟩ := List.mem_map.mp ha
      exact ⟨_, _, rfl⟩

theorem ofSnapshot_ne_nil (e : BookSnapshot) : SnapshotRow.ofSnapshot e ≠ [] := by
  rw [SnapshotRow.ofSnapshot]
  split
  · exact List.cons_ne_nil _ _
  · next h => simpa using h

theorem snapshotLevels_map (e : BookSnapshot) (levels : List Level) (s s' : Side) :
    snapshotLevels (levels.map (SnapshotRow.ofLevel e s.toInt)) s' =
      if s = s' then levels else [] := by
  rw [snapshotLevels]
  by_cases h : s = s'
  · subst h
    rw [if_pos rfl, List.filter_eq_self.mpr, List.map_map]
    · exact List.map_id _
    · intro r hr
      obtain ⟨l, -, rfl⟩ := List.mem_map.mp hr
      exact decide_eq_true rfl
  · rw [if_neg h, List.filter_eq_nil_iff.mpr]
    · rfl
    · intro r hr
      obtain ⟨l, -, rfl⟩ := List.mem_map.mp hr
      cases s <;> cases s' <;> simp_all [SnapshotRow.ofLevel, Side.toInt]

/-- Reading a snapshot's rows gives back its levels. -/
theorem snapshotLevels_ofSnapshot (e : BookSnapshot) (s : Side) :
    snapshotLevels (SnapshotRow.ofSnapshot e) s =
      match s with
      | .bid => e.bids
      | .ask => e.asks := by
  have hrows : snapshotLevels (e.bids.map (SnapshotRow.ofLevel e Side.bid.toInt) ++
      e.asks.map (SnapshotRow.ofLevel e Side.ask.toInt)) s =
      match s with
      | .bid => e.bids
      | .ask => e.asks := by
    have hb := snapshotLevels_map e e.bids .bid s
    have ha := snapshotLevels_map e e.asks .ask s
    rw [snapshotLevels] at ha hb ⊢
    rw [List.filter_append, List.map_append, hb, ha]
    cases s <;> simp
  rw [SnapshotRow.ofSnapshot]
  split
  · next hempty =>
      rw [List.isEmpty_iff.mp hempty] at hrows
      rw [← hrows]
      cases s <;> rfl
  · exact hrows

/-- The event of a snapshot's rows, in any order. -/
theorem snapshotEvent_alike {e : BookSnapshot} {rows : SnapshotRow × List SnapshotRow}
    (h : (rows.1 :: rows.2).Perm (SnapshotRow.ofSnapshot e)) :
    (snapshotEvent rows).Alike (BookEvent.snapshot e).stamped := by
  have hlevels : ∀ s, (snapshotLevels (rows.1 :: rows.2) s).Perm
      (snapshotLevels (SnapshotRow.ofSnapshot e) s) := fun s => (h.filter _).map _
  obtain ⟨side, l, hfirst⟩ := mem_ofSnapshot (h.mem_iff.mp List.mem_cons_self)
  have hb := hlevels .bid
  have ha := hlevels .ask
  rw [snapshotLevels_ofSnapshot] at hb ha
  refine ⟨by rw [snapshotEvent, hfirst]; rfl, by rw [snapshotEvent, hfirst]; rfl, rfl, ?_⟩
  rw [snapshotEvent, hfirst] at *
  exact .snapshot hb ha

/-- The runs of the sorted snapshot rows, one for each snapshot. -/
theorem snapshotEvents_alike {imgs : List BookSnapshot} {snapshots : List SnapshotRow}
    (hrows : snapshots.Perm (imgs.flatMap SnapshotRow.ofSnapshot))
    (hkeys : (imgs.map imageKey).Nodup) :
    ∃ imgs' : List BookSnapshot, imgs'.Perm imgs ∧
      List.Forall₂ Stamped.Alike (snapshotEvents snapshots)
        (imgs'.map fun e => (BookEvent.snapshot e).stamped) := by
  obtain ⟨imgs', himgs, hruns⟩ := Sorted.runs_of_images SnapshotRow.key
    (fun e _ r hr => by obtain ⟨side, l, rfl⟩ := mem_ofSnapshot hr; rfl)
    (fun e _ => ofSnapshot_ne_nil e) hkeys hrows
  refine ⟨imgs', himgs, ?_⟩
  rw [snapshotEvents, List.forall₂_map_left_iff, List.forall₂_map_right_iff]
  exact hruns.imp fun _ _ h => snapshotEvent_alike h

/-- As many events as snapshots: no two of them share their key. -/
theorem nodup_of_snapshotEvents {imgs : List BookSnapshot} {snapshots : List SnapshotRow}
    (hrows : snapshots.Perm (imgs.flatMap SnapshotRow.ofSnapshot))
    (hlength : (snapshotEvents snapshots).length = imgs.length) : (imgs.map imageKey).Nodup := by
  rw [snapshotEvents, List.length_map] at hlength
  exact Sorted.nodup_of_runs_length SnapshotRow.key
    (fun e _ r hr => by obtain ⟨side, l, rfl⟩ := mem_ofSnapshot hr; rfl)
    (fun e _ => ofSnapshot_ne_nil e) hrows hlength

/-- The events of the three tables, one table after the other. -/
def tableEvents (deltas : List DeltaRow) (imgs : List BookSnapshot) (gaps : List GapRow) :
    List Stamped :=
  deltas.map DeltaRow.event ++ imgs.map (fun e => (BookEvent.snapshot e).stamped) ++
    gaps.map GapRow.event

/-- The events of the tables are the events of what was taken apart into them. -/
theorem tables_mixed {deltas deltas' : List DeltaRow} {snapshots : List SnapshotRow}
    {imgs : List BookSnapshot} {gaps gaps' : List GapRow} {timeline : List Stamped}
    (htimeline : (tableEvents deltas' imgs gaps').Perm timeline)
    (hdeltas : deltas.Perm deltas') (hrows : snapshots.Perm (imgs.flatMap SnapshotRow.ofSnapshot))
    (hgaps : gaps.Perm gaps') (hkeys : (imgs.map imageKey).Nodup) :
    Mixed (deltaEvents deltas ++ snapshotEvents snapshots ++ gapEvents gaps) timeline := by
  obtain ⟨imgs', himgs, halike⟩ := snapshotEvents_alike hrows hkeys
  refine ⟨tableEvents deltas imgs' gaps, ?_, List.Perm.trans ?_ htimeline⟩
  · have hsame : ∀ l : List Stamped, List.Forall₂ Stamped.Alike l l := fun l =>
      List.forall₂_same.mpr fun a _ => Stamped.Alike.refl a
    exact List.rel_append (List.rel_append (hsame _) halike) (hsame _)
  · exact ((hdeltas.map _).append (himgs.map _)).append (hgaps.map _)

theorem tableEvents_records (config : SupervisorConfig) (records : List TapeRecord) :
    (tableEvents (records.flatMap (TapeRecord.deltaRows config))
      (records.flatMap (TapeRecord.images config)) (records.flatMap TapeRecord.gapRows)).Perm
      (records.flatMap (TapeRecord.stamped config)) := by
  have hstamped := List.flatMap_congr (l := records)
    fun r _ => TapeRecord.stamped_eq config r
  rw [hstamped, tableEvents, List.map_flatMap, List.map_flatMap, List.map_flatMap]
  refine List.Perm.trans ?_ (List.flatMap_append_perm records _ _)
  exact (List.flatMap_append_perm records _ _).append (List.Perm.refl _)

/-- The events of the tables are the events of the records. -/
theorem records_mixed {config : SupervisorConfig} {records : List TapeRecord}
    {deltas : List DeltaRow} {snapshots : List SnapshotRow} {gaps : List GapRow}
    (hdeltas : deltas.Perm (records.flatMap (TapeRecord.deltaRows config)))
    (hsnapshots : snapshots.Perm (records.flatMap (TapeRecord.snapshotRows config)))
    (hgaps : gaps.Perm (records.flatMap TapeRecord.gapRows))
    (hkeys : ((records.flatMap (TapeRecord.images config)).map imageKey).Nodup) :
    Mixed (deltaEvents deltas ++ snapshotEvents snapshots ++ gapEvents gaps)
      (records.flatMap (TapeRecord.stamped config)) := by
  have hrows : snapshots.Perm
      ((records.flatMap (TapeRecord.images config)).flatMap SnapshotRow.ofSnapshot) := by
    rw [List.flatMap_assoc]
    exact hsnapshots.trans (List.Perm.of_eq
      (List.flatMap_congr fun r _ => TapeRecord.snapshotRows_eq r))
  exact tables_mixed (tableEvents_records config records) hdeltas hrows hgaps hkeys

/-! ## Runs -/

/-- Receipts that increase on both clocks. -/
def Ticking (fs : List RawFrame) : Prop :=
  fs.Pairwise fun a b => a.recvMonoNs < b.recvMonoNs ∧ a.recvWallNs < b.recvWallNs

namespace Supervisor

/-- What a run did to the books, in the order in which it did it. -/
def timeline (s : Supervisor) (fs : List RawFrame) : List Stamped :=
  (s.tookEffect fs).flatMap (TapeRecord.stamped s.config)

variable {config : SupervisorConfig}

/-- A frame shows one gap at most. -/
theorem gapsOf_cases (s : Supervisor) (f : RawFrame) :
    s.gapsOf f = [] ∨ ∃ sid expected got,
      s.gapsOf f = [.gap s.config.connId f.recvMonoNs f.recvWallNs sid expected got] := by
  rw [gapsOf]
  cases f.payload with
  | error e => exact .inl rfl
  | ok env =>
      simp only [gapOf]
      cases env.sid with
      | none => exact .inl rfl
      | some sid =>
          simp only []
          cases (s.judgeFrame sid env).2 with
          | gap expected got => exact .inr ⟨sid, expected, got, rfl⟩
          | _ => exact .inl rfl

theorem bakedEvent_receipt {f : RawFrame} {e : BookEvent} (h : bakedEvent config f = some e) :
    e.receipt = ⟨config.connId, f.recvMonoNs, f.recvWallNs⟩ := by
  rw [bakedEvent] at h
  split at h
  · cases h
  · exact (bookEvent_address h).2

theorem stamped_frame {f : RawFrame} {e : Stamped}
    (h : e ∈ (TapeRecord.frame f).stamped config) :
    e.recvWallNs = f.recvWallNs ∧ e.recvMonoNs = f.recvMonoNs ∧ e.order = changeOrder := by
  rw [TapeRecord.stamped, Option.mem_toList, Option.map_eq_some_iff] at h
  obtain ⟨b, hb, rfl⟩ := h
  obtain ⟨hwall, hmono, horder⟩ := b.stamped_times
  rw [bakedEvent_receipt hb] at hwall hmono
  exact ⟨hwall, hmono, horder⟩

theorem stamped_gaps {s : Supervisor} {f : RawFrame} {e : Stamped}
    (h : e ∈ (s.gapsOf f).flatMap (TapeRecord.stamped config)) :
    e.recvWallNs = f.recvWallNs ∧ e.recvMonoNs = f.recvMonoNs ∧ e.order = gapOrder := by
  rcases s.gapsOf_cases f with hg | ⟨sid, expected, got, hg⟩
  · rw [hg] at h
    cases h
  · rw [hg] at h
    obtain rfl := List.mem_singleton.mp h
    exact ⟨rfl, rfl, rfl⟩

theorem pairwise_of_length_le_one {α : Type*} {R : α → α → Prop} {l : List α}
    (h : l.length ≤ 1) : l.Pairwise R := by
  match l, h with
  | [], _ => exact List.Pairwise.nil
  | [a], _ => exact List.pairwise_singleton R a

/-- The events of one frame: the gap, then the change. -/
theorem entry_before (s : Supervisor) (f : RawFrame) :
    ((s.gapsOf f ++ [TapeRecord.frame f]).flatMap (TapeRecord.stamped config)).Pairwise
      Stamped.Before := by
  rw [List.flatMap_append, List.flatMap_singleton, List.pairwise_append]
  refine ⟨pairwise_of_length_le_one ?_, pairwise_of_length_le_one ?_, fun a ha b hb => ?_⟩
  · rcases s.gapsOf_cases f with hg | ⟨sid, expected, got, hg⟩
    · rw [hg]
      exact Nat.zero_le _
    · rw [hg]
      exact le_refl _
  · rw [TapeRecord.stamped]
    cases (bakedEvent config f).map BookEvent.stamped with
    | none => exact Nat.zero_le _
    | some e => exact le_refl _
  · obtain ⟨-, hma, hoa⟩ := stamped_gaps ha
    obtain ⟨-, hmb, hob⟩ := stamped_frame hb
    refine .inr ⟨hma.trans hmb.symm, ?_⟩
    rw [hoa, hob]
    exact Int.zero_lt_one

/-- Every event of a run is stamped as a frame of it. -/
theorem timeline_times {s : Supervisor} {fs : List RawFrame} {e : Stamped}
    (h : e ∈ (s.tookEffect fs).flatMap (TapeRecord.stamped config)) :
    ∃ f ∈ fs, e.recvWallNs = f.recvWallNs ∧ e.recvMonoNs = f.recvMonoNs := by
  induction fs generalizing s with
  | nil => cases h
  | cons f fs ih =>
      rw [tookEffect, List.flatMap_append, List.flatMap_append, List.flatMap_singleton,
        List.mem_append, List.mem_append] at h
      rcases h with (h | h) | h
      · obtain ⟨hwall, hmono, -⟩ := stamped_gaps h
        exact ⟨f, List.mem_cons_self, hwall, hmono⟩
      · obtain ⟨hwall, hmono, -⟩ := stamped_frame h
        exact ⟨f, List.mem_cons_self, hwall, hmono⟩
      · obtain ⟨f', hf', htimes⟩ := ih h
        exact ⟨f', List.mem_cons_of_mem _ hf', htimes⟩

theorem timeline_before {s : Supervisor} {fs : List RawFrame} (ht : Ticking fs) :
    ((s.tookEffect fs).flatMap (TapeRecord.stamped config)).Pairwise Stamped.Before := by
  induction fs generalizing s with
  | nil => exact List.Pairwise.nil
  | cons f fs ih =>
      obtain ⟨hf, ht⟩ := List.pairwise_cons.mp ht
      rw [tookEffect, List.flatMap_append, List.pairwise_append]
      refine ⟨entry_before s f, ih ht, fun a ha b hb => .inl ?_⟩
      have hma : a.recvMonoNs = f.recvMonoNs := by
        rw [List.flatMap_append, List.flatMap_singleton, List.mem_append] at ha
        rcases ha with ha | ha
        · exact (stamped_gaps ha).2.1
        · exact (stamped_frame ha).2.1
      obtain ⟨f', hf', -, hmb⟩ := timeline_times hb
      rw [hma, hmb]
      exact (hf f' hf').1

/-- Clocks that increase together agree. -/
theorem timeline_clocks {s : Supervisor} {fs : List RawFrame} (ht : Ticking fs) :
    Stamped.ClocksAgree ((s.tookEffect fs).flatMap (TapeRecord.stamped config)) := by
  intro a ha b hb hab
  obtain ⟨f, hf, hwa, hma⟩ := timeline_times ha
  obtain ⟨f', hf', hwb, hmb⟩ := timeline_times hb
  rw [hwa, hwb] at hab
  rw [hma, hmb]
  let Agree : RawFrame → RawFrame → Prop := fun x y =>
    x.recvWallNs ≤ y.recvWallNs → x.recvMonoNs ≤ y.recvMonoNs
  have hforth : fs.Pairwise Agree := ht.imp fun h _ => h.1.le
  have hback : fs.Pairwise (flip Agree) := ht.imp fun h hle => absurd h.2 hle.not_gt
  exact hforth.forall_of_forall_of_flip (fun _ _ _ => le_refl _) hback hf hf' hab

theorem images_wall {f : RawFrame} {e : BookSnapshot}
    (h : e ∈ (TapeRecord.frame f).images config) : e.receipt.recvWallNs = f.recvWallNs := by
  rw [TapeRecord.images] at h
  split at h
  · next he =>
      obtain rfl := List.mem_singleton.mp h
      exact congrArg Receipt.recvWallNs (bakedEvent_receipt he)
  · cases h

theorem images_written {s : Supervisor} (fs : List RawFrame) :
    (s.written fs).flatMap (TapeRecord.images config) =
      fs.flatMap fun f => (TapeRecord.frame f).images config := by
  induction fs generalizing s with
  | nil => rfl
  | cons f fs ih =>
      have hgaps : (s.gapsOf f).flatMap (TapeRecord.images config) = [] := by
        rcases s.gapsOf_cases f with hg | ⟨sid, expected, got, hg⟩
        · rw [hg]
          rfl
        · rw [hg]
          rfl
      rw [written, List.flatMap_append, List.flatMap_cons, hgaps, List.append_nil, ih,
        List.flatMap_cons]

/-- No two snapshots of a run share their key. -/
theorem images_nodup {s : Supervisor} {fs : List RawFrame} (ht : Ticking fs) :
    (((s.written fs).flatMap (TapeRecord.images config)).map imageKey).Nodup := by
  rw [images_written, List.Nodup, List.pairwise_map, List.pairwise_flatMap]
  constructor
  · intro f _
    refine pairwise_of_length_le_one ?_
    rw [TapeRecord.images]
    split
    · exact le_refl _
    · exact Nat.zero_le _
  · refine ht.imp fun {f f'} h e he e' he' hkey => ?_
    have hwall := congrArg (fun k : Ticker ×ₗ Int ×ₗ Int ×ₗ Int ×ₗ WithTop Int =>
      (ofLex (ofLex k).2).1) hkey
    have hwall' : e.receipt.recvWallNs = e'.receipt.recvWallNs := hwall
    rw [images_wall he, images_wall he'] at hwall'
    exact absurd hwall' h.2.ne

/-- The replay takes up the baked events as the recorder handled them. -/
theorem inOrder_tables {s : Supervisor} {fs : List RawFrame} (ht : Ticking fs)
    {deltas : List DeltaRow} {snapshots : List SnapshotRow} {gaps : List GapRow}
    (hdeltas : deltas.Perm ((s.written fs).flatMap (TapeRecord.deltaRows s.config)))
    (hsnapshots : snapshots.Perm ((s.written fs).flatMap (TapeRecord.snapshotRows s.config)))
    (hgaps : gaps.Perm ((s.written fs).flatMap TapeRecord.gapRows)) :
    List.Forall₂ Stamped.Alike
      (inOrder (deltaEvents deltas ++ snapshotEvents snapshots ++ gapEvents gaps))
      (s.timeline fs) := by
  obtain ⟨recorded, halike, hperm⟩ := records_mixed hdeltas hsnapshots hgaps (images_nodup ht)
  exact inOrder_spec ⟨recorded, halike, hperm.trans ((s.written_perm fs).flatMap_right _)⟩
    (timeline_before ht) (timeline_clocks ht)

end Supervisor

end Tape
