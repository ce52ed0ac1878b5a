import Tape.Store.Sequence

/-!
# A replay of the rows in any order

The rows of a table come in no order, and nothing about a recording says that
those of one receipt lie as they were recorded. So that a replay depends on the
rows alone, the receipts and the sequence numbers must tell all there is to tell
(`ToldByRows`); then every order of the rows is replayed by the numbers, and all
of them leave the same books (`replay_in_sequence_iff`). Two orders of
application differ in pairs that nothing orders, and such a pair may be swapped:
two gaps, changes of two markets, or one change made twice.
-/

namespace Tape

open Sourced

/-! ## The same change, in rows of another order -/

namespace ReplayChange

variable {a b c : ReplayChange}

theorem Alike.symm (h : a.Alike b) : b.Alike a := by
  cases h with
  | refl => exact .refl _
  | snapshot hbids hasks => exact .snapshot hbids.symm hasks.symm

theorem Alike.trans (h : a.Alike b) (h' : b.Alike c) : a.Alike c := by
  cases h with
  | refl => exact h'
  | snapshot hbids hasks =>
      cases h' with
      | refl => exact .snapshot hbids hasks
      | snapshot hbids' hasks' => exact .snapshot (hbids.trans hbids') (hasks.trans hasks')

theorem Alike.market (h : a.Alike b) : a.market = b.market := by
  cases h with
  | refl => rfl
  | snapshot hbids hasks => rfl

/-- Two images of one market and subscription with the same levels. -/
def sameImage : ReplayChange → ReplayChange → Bool
  | .snapshot ticker connId sid bids asks, .snapshot ticker' connId' sid' bids' asks' =>
      decide ((ticker = ticker' ∧ connId = connId' ∧ sid = sid') ∧ bids.Perm bids' ∧
        asks.Perm asks')
  | _, _ => false

theorem alike_iff : a.Alike b ↔ a = b ∨ sameImage a b = true := by
  constructor
  · intro h
    cases h with
    | refl => exact .inl rfl
    | snapshot hbids hasks => exact .inr (decide_eq_true ⟨⟨rfl, rfl, rfl⟩, hbids, hasks⟩)
  · rintro (rfl | h)
    · exact .refl _
    · rw [sameImage.eq_def] at h
      split at h
      · obtain ⟨⟨rfl, rfl, rfl⟩, hbids, hasks⟩ := of_decide_eq_true h
        exact .snapshot hbids hasks
      · cases h

instance (a b : ReplayChange) : Decidable (a.Alike b) := decidable_of_iff _ alike_iff.symm

end ReplayChange

namespace Sourced

/-- Built from the same rows, in another order. -/
structure Alike (x y : Sourced) : Prop where
  event : x.event.Alike y.event
  seq : x.seq = y.seq

theorem Alike.refl (x : Sourced) : x.Alike x := ⟨.refl _, rfl⟩

variable {x x' y y' : Sourced}

theorem Alike.symm (h : x.Alike y) : y.Alike x where
  event := ⟨h.event.wall.symm, h.event.mono.symm, h.event.order.symm, h.event.change.symm⟩
  seq := h.seq.symm

theorem Alike.inSeq_iff (hx : x.Alike x') (hy : y.Alike y') : InSeq x y ↔ InSeq x' y' := by
  rw [InSeq, InSeq, hx.seq, hy.seq]

theorem Alike.told_iff (hx : x.Alike x') (hy : y.Alike y') : Told x y ↔ Told x' y' := by
  have hchange : x.event.change.Alike y.event.change ↔ x'.event.change.Alike y'.event.change :=
    ⟨fun h => hx.event.change.symm.trans (h.trans hy.event.change),
      fun h => hx.event.change.trans (h.trans hy.event.change.symm)⟩
  rw [Told, Told, Earlier, Earlier, hx.event.mono, hy.event.mono, hx.event.change.market,
    hy.event.change.market, hx.seq, hy.seq, hchange]

theorem Alike.rightly_iff (hx : x.Alike x') (hy : y.Alike y') : Rightly x y ↔ Rightly x' y' :=
  and_congr (hx.inSeq_iff hy) (hx.told_iff hy)

/-- The earlier is what the other may not be put before. -/
theorem earlier_iff : Earlier x y ↔ ¬ InSeq y x := by
  constructor
  · rintro ⟨subscription, m, n, hm, hn, hlt⟩ h
    have hle := h subscription n m hn hm
    omega
  · intro h
    by_contra hnot
    refine h fun subscription n m hn hm => ?_
    by_contra hlt
    exact hnot ⟨subscription, m, n, hm, hn, not_le.mp hlt⟩

instance (x y : Sourced) : Decidable (Earlier x y) := decidable_of_iff _ earlier_iff.symm

theorem told_iff : Told x y ↔ (x.event.recvMonoNs = y.event.recvMonoNs →
    x.event.change.market ≠ none → x.event.change.market = y.event.change.market →
      Earlier x y ∨ x.event.change.Alike y.event.change) := by
  constructor
  · intro h hmono hne hmarket
    obtain ⟨t, ht⟩ := Option.ne_none_iff_exists'.mp hne
    exact h hmono t ht (hmarket ▸ ht)
  · intro h hmono t ht ht'
    exact h hmono (by rw [ht]; exact Option.some_ne_none t) (ht.trans ht'.symm)

instance (x y : Sourced) : Decidable (Told x y) := decidable_of_iff _ told_iff.symm

instance (x y : Sourced) : Decidable (Rightly x y) :=
  inferInstanceAs (Decidable (InSeq x y ∧ Told x y))

instance (l : List Sourced) : Decidable (TiesTold l) :=
  inferInstanceAs (Decidable (l.Pairwise _))

/-- What holds of any two, for rows in another order. -/
theorem pairwise_alike {R : Sourced → Sourced → Prop}
    (hR : ∀ x x' y y' : Sourced, x.Alike x' → y.Alike y' → R x y → R x' y')
    {l l' : List Sourced} (h : List.Forall₂ Alike l l') (hl : l.Pairwise R) : l'.Pairwise R := by
  induction h with
  | nil => exact List.Pairwise.nil
  | @cons x x' l l' hx htail ih =>
      obtain ⟨hfirst, hl⟩ := List.pairwise_cons.mp hl
      refine List.pairwise_cons.mpr ⟨fun y' hy' => ?_, ih hl⟩
      obtain ⟨y, hy, hyy'⟩ := Sorted.exists_of_mem htail.flip y' hy'
      exact hR x x' y y' hx hyy' (hfirst y hy)

end Sourced

/-! ## The sources of permuted rows -/

/-- The rows of one snapshot were received at once. -/
def OneReceipt (snapshots : List SnapshotRow) : Prop :=
  ∀ r ∈ snapshots, ∀ r' ∈ snapshots, r.key = r'.key → r.recvMonoNs = r'.recvMonoNs

instance (snapshots : List SnapshotRow) : Decidable (OneReceipt snapshots) :=
  inferInstanceAs (Decidable (∀ r ∈ snapshots, ∀ r' ∈ snapshots, r.key = r'.key →
    r.recvMonoNs = r'.recvMonoNs))

/-- What two rows of one snapshot share. -/
theorem SnapshotRow.eq_of_key {r r' : SnapshotRow} (h : r.key = r'.key) :
    r.ticker = r'.ticker ∧ r.recvWallNs = r'.recvWallNs ∧ r.connId = r'.connId ∧
      r.sid = r'.sid ∧ r.seq = r'.seq := by
  obtain ⟨hticker, h⟩ := Prod.mk.inj (toLex.injective h)
  obtain ⟨hwall, h⟩ := Prod.mk.inj (toLex.injective h)
  obtain ⟨hconn, h⟩ := Prod.mk.inj (toLex.injective h)
  obtain ⟨hsid, hseq⟩ := Prod.mk.inj (toLex.injective h)
  exact ⟨hticker, hwall, hconn, hsid, hseq⟩

/-- The snapshots of rows in another order, each with its levels in some order. -/
theorem snapshotSources_alike {rows rows' : List SnapshotRow} (hone : OneReceipt rows)
    (hperm : rows'.Perm rows) :
    List.Forall₂ Sourced.Alike
      ((Sorted.runs SnapshotRow.key (Sorted.sortOn SnapshotRow.key rows')).map snapshotSourced)
      ((Sorted.runs SnapshotRow.key (Sorted.sortOn SnapshotRow.key rows)).map snapshotSourced) := by
  have hsorted := Sorted.sortOn_pairwise SnapshotRow.key rows
  have hsorted' := Sorted.sortOn_pairwise SnapshotRow.key rows'
  have hrows := Sorted.sortOn_perm SnapshotRow.key rows
  have hrows' := (Sorted.sortOn_perm SnapshotRow.key rows').trans hperm
  have hkeys := Sorted.eq_of_strict (Sorted.runs_strict hsorted') (Sorted.runs_strict hsorted)
    fun k => by
      rw [Sorted.runs_keys_mem, Sorted.runs_keys_mem, (hrows'.map _).mem_iff,
        (hrows.map _).mem_iff]
  rw [List.forall₂_map_left_iff, List.forall₂_map_right_iff]
  refine Sorted.forall₂_of_map_eq hkeys fun run hrun run' hrun' hkey => ?_
  have hsame : (run.1 :: run.2).Perm (run'.1 :: run'.2) := by
    rw [Sorted.runs_filter hsorted' run hrun, Sorted.runs_filter hsorted run' hrun', hkey]
    exact (hrows'.trans hrows.symm).filter _
  have hmono := hone _ (hrows'.mem_iff.mp (Sorted.mem_of_mem_runs hsorted' hrun)) _
    (hrows.mem_iff.mp (Sorted.mem_of_mem_runs hsorted hrun')) hkey
  obtain ⟨hticker, hwall, hconn, hsid, hseq⟩ := SnapshotRow.eq_of_key hkey
  refine ⟨⟨hwall, hmono, rfl, ?_⟩, ?_⟩
  · rw [snapshotSourced, snapshotSourced, snapshotEvent, snapshotEvent]
    dsimp only
    rw [hticker, hconn, hsid]
    exact .snapshot ((hsame.filter _).map _) ((hsame.filter _).map _)
  · rw [snapshotSourced, snapshotSourced, hconn, hsid, hseq]

variable {deltas deltas' : List DeltaRow} {snapshots snapshots' : List SnapshotRow}
  {gaps gaps' : List GapRow}

/-- The sources of permuted rows are those of the rows, but for the order. -/
theorem sources_alike (hone : OneReceipt snapshots) (hdeltas : deltas'.Perm deltas)
    (hsnapshots : snapshots'.Perm snapshots) (hgaps : gaps'.Perm gaps) :
    ∃ all, List.Forall₂ Sourced.Alike (sources deltas' snapshots' gaps') all ∧
      all.Perm (sources deltas snapshots gaps) := by
  have hsame : ∀ l : List Sourced, List.Forall₂ Sourced.Alike l l := fun l =>
    List.forall₂_same.mpr fun x _ => Sourced.Alike.refl x
  refine ⟨_, List.rel_append (List.rel_append (hsame (deltas'.map DeltaRow.sourced))
    (snapshotSources_alike hone hsnapshots)) (hsame (gaps'.map GapRow.sourced)), ?_⟩
  exact ((hdeltas.map _).append (.refl _)).append (hgaps.map _)

/-- Each has its like. -/
theorem exists_alike (hone : OneReceipt snapshots) (hdeltas : deltas'.Perm deltas)
    (hsnapshots : snapshots'.Perm snapshots) (hgaps : gaps'.Perm gaps) :
    ∀ x ∈ sources deltas' snapshots' gaps', ∃ y ∈ sources deltas snapshots gaps, x.Alike y := by
  obtain ⟨all, halike, hperm⟩ := sources_alike hone hdeltas hsnapshots hgaps
  intro x hx
  obtain ⟨y, hy, hxy⟩ := Sorted.exists_of_mem halike x hx
  exact ⟨y, hperm.mem_iff.mp hy, hxy⟩

theorem oneBoot_permuted (hone : OneReceipt snapshots) (hdeltas : deltas'.Perm deltas)
    (hsnapshots : snapshots'.Perm snapshots) (hgaps : gaps'.Perm gaps)
    (h : OneBoot ((sources deltas snapshots gaps).map Sourced.event)) :
    OneBoot ((sources deltas' snapshots' gaps').map Sourced.event) := by
  have hlike := exists_alike hone hdeltas hsnapshots hgaps
  intro a ha b hb
  obtain ⟨x, hx, rfl⟩ := List.mem_map.mp ha
  obtain ⟨y, hy, rfl⟩ := List.mem_map.mp hb
  obtain ⟨x', hx', hxx'⟩ := hlike x hx
  obtain ⟨y', hy', hyy'⟩ := hlike y hy
  rw [hxx'.event.wall, hyy'.event.wall, hxx'.event.mono, hyy'.event.mono]
  exact h _ (List.mem_map_of_mem hx') _ (List.mem_map_of_mem hy')

theorem monoAlong_permuted (hone : OneReceipt snapshots) (hdeltas : deltas'.Perm deltas)
    (hsnapshots : snapshots'.Perm snapshots) (hgaps : gaps'.Perm gaps)
    (h : MonoAlong (sources deltas snapshots gaps)) :
    MonoAlong (sources deltas' snapshots' gaps') := by
  have hlike := exists_alike hone hdeltas hsnapshots hgaps
  intro x hx y hy
  obtain ⟨x', hx', hxx'⟩ := hlike x hx
  obtain ⟨y', hy', hyy'⟩ := hlike y hy
  rw [hxx'.event.mono, hyy'.event.mono, hxx'.seq, hyy'.seq]
  exact h x' hx' y' hy'

/-! ## What the rows tell -/

/-- The receipts and the numbers of the rows tell the order of all changes of a
subscription or of a market: of two that share their receipt, one is rightly the
first, and two deltas may lie either way. -/
def ToldByRows (deltas : List DeltaRow) (snapshots : List SnapshotRow) : Prop :=
  (∀ x ∈ deltas, ∀ y ∈ deltas, x.recvMonoNs = y.recvMonoNs → Rightly x.sourced y.sourced) ∧
    TiesTold (sources deltas snapshots [])

instance (deltas : List DeltaRow) (snapshots : List SnapshotRow) :
    Decidable (ToldByRows deltas snapshots) :=
  inferInstanceAs (Decidable ((∀ x ∈ deltas, ∀ y ∈ deltas, x.recvMonoNs = y.recvMonoNs →
    Rightly x.sourced y.sourced) ∧ TiesTold (sources deltas snapshots [])))

/-- All changes are applied by receipt and number, in whatever order the rows
of the tables lie. -/
def InSequence (deltas : List DeltaRow) (snapshots : List SnapshotRow) (gaps : List GapRow) :
    Prop :=
  ∀ deltas' snapshots' gaps', deltas'.Perm deltas → snapshots'.Perm snapshots →
    gaps'.Perm gaps → (appliedSources deltas' snapshots' gaps').Pairwise Rightly

/-- What the replay leaves does not depend on the order of the rows. -/
def SameResult (deltas : List DeltaRow) (snapshots : List SnapshotRow) (gaps : List GapRow) :
    Prop :=
  ∀ deltas' snapshots' gaps', deltas'.Perm deltas → snapshots'.Perm snapshots →
    gaps'.Perm gaps → ∀ books t, Option.Rel Book.SameContents
      ((replay books deltas' snapshots' gaps').get? t)
      ((replay books deltas snapshots gaps).get? t)

/-- The gaps do not matter to what is told. -/
theorem tiesTold_gaps : TiesTold (sources deltas snapshots gaps) ↔
    TiesTold (sources deltas snapshots []) := by
  rw [TiesTold, TiesTold, sources, sources, List.map_nil, List.append_nil]
  refine ⟨fun h => (List.pairwise_append.mp h).1, fun h => ?_⟩
  refine List.pairwise_append.mpr ⟨h, ?_, fun x _ y hy _ => ?_⟩
  · refine List.pairwise_map.mpr (List.pairwise_of_forall_mem_list fun r _ r' _ _ => ?_)
    exact rightly_of_gap (.inl rfl) (.inl rfl)
  · obtain ⟨r, -, rfl⟩ := List.mem_map.mp hy
    exact rightly_of_gap (.inr rfl) (.inr rfl)

/-- What the rows tell, they tell in any order. -/
theorem ToldByRows.permuted (h : ToldByRows deltas snapshots) (hone : OneReceipt snapshots)
    (hdeltas : deltas'.Perm deltas) (hsnapshots : snapshots'.Perm snapshots)
    (gaps' : List GapRow) : TiesTold (sources deltas' snapshots' gaps') := by
  obtain ⟨hpairs, hlisted⟩ := h
  rw [tiesTold_gaps]
  have hsnaps := snapshotSources_alike hone hsnapshots
  have hties : ∀ x x' y y' : Sourced, x.Alike x' → y.Alike y' →
      (x.event.recvMonoNs = y.event.recvMonoNs → Rightly x y) →
        x'.event.recvMonoNs = y'.event.recvMonoNs → Rightly x' y' := by
    intro x x' y y' hx hy hxy htie
    rw [← hx.rightly_iff hy]
    refine hxy ?_
    rw [hx.event.mono, hy.event.mono, htie]
  rw [TiesTold, sources, List.map_nil, List.append_nil] at hlisted ⊢
  obtain ⟨-, hruns, hcross⟩ := List.pairwise_append.mp hlisted
  refine List.pairwise_append.mpr ⟨?_, ?_, fun x hx y hy => ?_⟩
  · refine List.pairwise_map.mpr (List.pairwise_of_forall_mem_list fun r hr r' hr' => ?_)
    exact hpairs r (hdeltas.mem_iff.mp hr) r' (hdeltas.mem_iff.mp hr')
  · exact pairwise_alike hties (hsnaps.flip.imp fun _ _ h => h.symm) hruns
  · obtain ⟨y', hy', hyy'⟩ := Sorted.exists_of_mem hsnaps y hy
    have hx' := ((hdeltas.map DeltaRow.sourced).mem_iff).mp hx
    exact hties x x y' y (.refl x) hyy'.symm (hcross x hx' y' hy')

/-- What is applied rightly in any order of the rows is told by the rows: two
deltas of one receipt may be listed either way. -/
theorem toldByRows_of_any (gaps : List GapRow)
    (h : ∀ deltas', deltas'.Perm deltas → TiesTold (sources deltas' snapshots gaps)) :
    ToldByRows deltas snapshots := by
  refine ⟨fun x hx y hy htie => ?_, tiesTold_gaps.mp (h deltas (.refl _))⟩
  by_cases hxy : x = y
  · subst hxy
    refine ⟨fun subscription m n hm hn => ?_, fun _ t _ _ => .inr (.refl _)⟩
    rw [hm] at hn
    exact (Option.some.inj (Prod.mk.inj (Option.some.inj hn)).2).le
  · have hperm : (x :: y :: (deltas.erase x).erase y).Perm deltas := by
      refine ((List.perm_cons_erase ?_).symm.cons x).trans (List.perm_cons_erase hx).symm
      exact (List.mem_erase_of_ne (Ne.symm hxy)).mpr hy
    have hfirst := List.pairwise_cons.mp (h _ hperm)
    exact hfirst.1 y.sourced List.mem_cons_self htie

/-! ## Changes that may be swapped -/

/-- Where either may be applied first. -/
def MayPrecede (x y : Sourced) : Prop :=
  x.event.recvMonoNs < y.event.recvMonoNs ∨ x.event.recvMonoNs = y.event.recvMonoNs ∧
    (x.event.order < y.event.order ∨ x.event.order = y.event.order ∧ Told x y)

namespace ReplayState

theorem Alike.trans {r r' r'' : ReplayState} (h : r.Alike r') (h' : r'.Alike r'') :
    r.Alike r'' where
  books t := by
    have hbooks := h.books t
    have hbooks' := h'.books t
    generalize r.books.get? t = o at hbooks
    generalize r'.books.get? t = o' at hbooks hbooks'
    generalize r''.books.get? t = o'' at hbooks'
    cases hbooks with
    | none => exact hbooks'
    | some hab =>
        cases hbooks' with
        | some hbc => exact .some (hab.trans hbc)
  last t := (h.last t).trans (h'.last t)

/-- States of the same books and subscriptions. -/
theorem alike_of_get?_eq {r r' : ReplayState} (hbooks : ∀ t, r.books.get? t = r'.books.get? t)
    (hlast : ∀ t, r.lastSubscription.get? t = r'.lastSubscription.get? t) : r.Alike r' where
  books t := by
    rw [hbooks]
    exact (Alike.refl r').books t
  last := hlast

/-- An event is applied, wherever its row was. -/
def take (r : ReplayState) (x : Sourced) : ReplayState := r.apply x.event

theorem Alike.take {r r' : ReplayState} (h : r.Alike r') {x y : Sourced} (hxy : x.Alike y) :
    (r.take x).Alike (r'.take y) := h.apply hxy.event.change

theorem final_alike {l l' : List Sourced} (h : List.Forall₂ Sourced.Alike l l')
    (r : ReplayState) : (Run.final take r l).Alike (Run.final take r l') := by
  have hevents : List.Forall₂ Stamped.Alike (l.map Sourced.event) (l'.map Sourced.event) := by
    rw [List.forall₂_map_left_iff, List.forall₂_map_right_iff]
    exact h.imp fun _ _ hxy => hxy.event
  have hrun := Alike.run hevents (.refl r)
  rw [List.foldl_map, List.foldl_map] at hrun
  exact hrun

/-- What a change of a market comes to. -/
theorem apply_of_market {e : Stamped} {t : Ticker} (h : e.change.market = some t) :
    ∃ subscription op, ∀ r : ReplayState, r.apply e = r.change t subscription op := by
  rcases e with ⟨wall, mono, order, change⟩
  cases change with
  | delta ticker connId sid side price delta tsMs =>
      obtain rfl := Option.some.inj h
      exact ⟨(connId, sid), fun b => (b.applyDelta side price delta tsMs).1, fun r => rfl⟩
  | snapshot ticker connId sid bids asks =>
      obtain rfl := Option.some.inj h
      exact ⟨(connId, sid), fun b => (b.applySnapshot bids asks none).1, fun r => rfl⟩
  | gap connId sid => cases h

/-- Changes of two markets. -/
theorem change_swap (r : ReplayState) {t t' : Ticker} (hne : t ≠ t') (s s' : Int × Sid)
    (op op' : Book → Book) :
    ((r.change t s op).change t' s' op').Alike ((r.change t' s' op').change t s op) := by
  refine alike_of_get?_eq (fun u => ?_) fun u => ?_
  · simp only [change, Dict.getD, Dict.get?_set, if_neg hne, if_neg hne.symm]
    split
    · next h =>
        subst h
        rw [if_neg hne]
    · rfl
  · simp only [change, Dict.get?_set]
    split
    · next h =>
        subst h
        rw [if_neg hne]
    · rfl

/-- Two gaps. -/
theorem gap_swap (r : ReplayState) {e e' : Stamped} {connId connId' : Int} {sid sid' : Sid}
    (he : e.change = .gap connId sid) (he' : e'.change = .gap connId' sid') :
    ((r.apply e).apply e').Alike ((r.apply e').apply e) := by
  refine alike_of_get?_eq (fun t => ?_) fun t => ?_
  · simp only [apply, he, he', Dict.get?_mapValues]
    cases r.books.get? t with
    | none => rfl
    | some b =>
        simp only [Option.map_some]
        split
        · split
          · rfl
          · rfl
        · rfl
  · simp only [apply, he, he']

/-- Where either may come first, the order does not matter. -/
theorem take_swap {x y : Sourced} (hx : x ∈ sources deltas snapshots gaps)
    (hy : y ∈ sources deltas snapshots gaps) (hxy : MayPrecede x y) (hyx : MayPrecede y x)
    (r : ReplayState) : ((r.take y).take x).Alike ((r.take x).take y) := by
  obtain ⟨hmono, horder, htold, htold'⟩ : x.event.recvMonoNs = y.event.recvMonoNs ∧
      x.event.order = y.event.order ∧ Told x y ∧ Told y x := by
    rcases hxy with hlt | ⟨hmono, hlt | ⟨horder, htold⟩⟩
    · rcases hyx with hlt' | ⟨hmono', -⟩ <;> omega
    · rcases hyx with hlt' | ⟨hmono', hlt' | ⟨horder', -⟩⟩ <;> omega
    · rcases hyx with hlt' | ⟨hmono', hlt' | ⟨horder', htold'⟩⟩
      · omega
      · omega
      · exact ⟨hmono, horder, htold, htold'⟩
  rcases change_or_gap hx with ⟨hxorder, t, ht⟩ | ⟨hxorder, ⟨_, _, hxgap⟩, -⟩
  · rcases change_or_gap hy with ⟨-, t', ht'⟩ | ⟨hyorder, -⟩
    · by_cases hne : t = t'
      · subst hne
        rcases htold hmono t ht ht' with ⟨_, m, n, hm, hn, hlt⟩ | hsame
        · rcases htold' hmono.symm t ht' ht with ⟨_, m', n', hm', hn', hlt'⟩ | hsame
          · rw [hm] at hn'
            rw [hn] at hm'
            cases hn'
            cases hm'
            omega
          · exact ((Alike.refl r).apply hsame).apply hsame.symm
        · exact ((Alike.refl r).apply hsame.symm).apply hsame
      · obtain ⟨_, _, hxapply⟩ := apply_of_market ht
        obtain ⟨_, _, hyapply⟩ := apply_of_market ht'
        rw [take, take, take, take, hxapply, hyapply, hyapply, hxapply]
        exact change_swap r (Ne.symm hne) _ _ _ _
    · rw [hxorder, hyorder] at horder
      cases horder
  · rcases change_or_gap hy with ⟨hyorder, -⟩ | ⟨-, ⟨_, _, hygap⟩, -⟩
    · rw [hxorder, hyorder] at horder
      cases horder
    · exact gap_swap r hygap hxgap

end ReplayState

/-! ## Any order of the rows -/

/-- Of two in the order of application either the first had to come first, or
they are told. -/
theorem mayPrecede_of_rightly
    (hboot : OneBoot ((sources deltas snapshots gaps).map Sourced.event))
    (h : (appliedSources deltas snapshots gaps).Pairwise Rightly) :
    (appliedSources deltas snapshots gaps).Pairwise MayPrecede := by
  rw [appliedSources_pairwise hboot] at h ⊢
  intro i j x y hx hy hlt
  rcases mono_le_of_replayKey_lt hlt with hmono | ⟨hmono, horder⟩
  · exact .inl hmono
  · refine .inr ⟨hmono, ?_⟩
    rcases lt_or_eq_of_le horder with horder | horder
    · exact .inl horder
    · exact .inr ⟨horder, (h i j x y hx hy hlt).2⟩

/-- The replay over the sources. -/
theorem replay_eq (books : Dict Ticker Book) (deltas : List DeltaRow)
    (snapshots : List SnapshotRow) (gaps : List GapRow) :
    replay books deltas snapshots gaps =
      (Run.final ReplayState.take ⟨books, ∅⟩ (appliedSources deltas snapshots gaps)).books := by
  rw [replay, ← appliedSources_event, List.foldl_map]
  rfl

/-- Rows in another order leave the same books. -/
theorem same_result (hone : OneReceipt snapshots)
    (hboot : OneBoot ((sources deltas snapshots gaps).map Sourced.event))
    (h : InSequence deltas snapshots gaps) : SameResult deltas snapshots gaps := by
  intro deltas' snapshots' gaps' hdeltas hsnapshots hgaps books t
  obtain ⟨all, halike, hperm⟩ := sources_alike hone hdeltas hsnapshots hgaps
  obtain ⟨applied, happlied, hall⟩ := List.perm_comp_forall₂
    (appliedSources_perm deltas' snapshots' gaps') halike
  have hsources := appliedSources_perm deltas snapshots gaps
  have hmay := mayPrecede_of_rightly hboot (h _ _ _ (.refl _) (.refl _) (.refl _))
  have hmay' : applied.Pairwise MayPrecede := by
    refine pairwise_alike (fun x x' y y' hx hy hxy => ?_) happlied (mayPrecede_of_rightly
      (oneBoot_permuted hone hdeltas hsnapshots hgaps hboot) (h _ _ _ hdeltas hsnapshots hgaps))
    rw [MayPrecede, ← hx.told_iff hy, ← hx.event.mono, ← hy.event.mono, ← hx.event.order,
      ← hy.event.order]
    exact hxy
  -- the rows in their new order, and then the swaps back to the old one
  have halike := ReplayState.final_alike happlied ⟨books, ∅⟩
  have hswapped : (Run.final ReplayState.take ⟨books, ∅⟩ applied).Alike
      (Run.final ReplayState.take ⟨books, ∅⟩ (appliedSources deltas snapshots gaps)) :=
    Run.final_related ReplayState.Alike.refl (fun _ _ _ => ReplayState.Alike.trans)
      (fun _ _ x hr => hr.take (.refl x))
      (fun x hx y hy => ReplayState.take_swap (hsources.mem_iff.mp hx) (hsources.mem_iff.mp hy))
      hmay hmay' (hsources.trans (hperm.symm.trans hall.symm)) _
  rw [replay_eq, replay_eq]
  exact rel_imp (fun _ _ hab => hab.sameContents) ((halike.trans hswapped).books t)

/-! ## The theorem -/

/-- Where the receipts are those of one boot, the rows of a snapshot share
theirs and the numbers tell the ties, the changes of each subscription are
applied by their numbers and the books do not depend on where the rows lie.
Where the numbers do not tell the ties, some order of the rows decides them; and
a long fall of the clock along a subscription is always taken for a restart. -/
theorem replay_in_sequence_iff (deltas : List DeltaRow) (snapshots : List SnapshotRow)
    (gaps : List GapRow) (hmono : MonoAlong (sources deltas snapshots gaps)) :
    (∀ books, replay books deltas snapshots gaps =
      (((appliedSources deltas snapshots gaps).map Sourced.event).foldl ReplayState.apply
        ⟨books, ∅⟩).books) ∧
    (OneBoot ((sources deltas snapshots gaps).map Sourced.event) ∧ OneReceipt snapshots ∧
        ToldByRows deltas snapshots →
      InSequence deltas snapshots gaps ∧ SameResult deltas snapshots gaps) ∧
    (OneBoot ((sources deltas snapshots gaps).map Sourced.event) → OneReceipt snapshots →
      InSequence deltas snapshots gaps → ToldByRows deltas snapshots) ∧
    (InSequence deltas snapshots gaps → ∀ x ∈ sources deltas snapshots gaps,
      ∀ y ∈ sources deltas snapshots gaps, Earlier x y →
        y.event.recvWallNs < x.event.recvWallNs →
          y.event.recvMonoNs ≤ x.event.recvMonoNs + monoRestartNs) := by
  refine ⟨fun books => ?_, ?_, fun hboot hone h => ?_, fun h => ?_⟩
  · rw [appliedSources_event, replay]
  · rintro ⟨hboot, hone, htold⟩
    have hsequence : InSequence deltas snapshots gaps := by
      intro deltas' snapshots' gaps' hdeltas hsnapshots hgaps
      rw [rightly_iff (oneBoot_permuted hone hdeltas hsnapshots hgaps hboot)
        (monoAlong_permuted hone hdeltas hsnapshots hgaps hmono)]
      exact htold.permuted hone hdeltas hsnapshots gaps'
    exact ⟨hsequence, same_result hone hboot hsequence⟩
  · refine toldByRows_of_any gaps fun deltas' hdeltas => ?_
    rw [← rightly_iff (oneBoot_permuted hone hdeltas (.refl _) (.refl gaps) hboot)
      (monoAlong_permuted hone hdeltas (.refl _) (.refl gaps) hmono)]
    exact h _ _ _ hdeltas (.refl _) (.refl _)
  · exact no_fall_of_inSeq ((h _ _ _ (.refl _) (.refl _) (.refl _)).imp fun hxy => hxy.1)

/-! Snapshots and deltas of one market, received at once or not. -/

/-- A delta of the bids of KXA. -/
def bidDelta (receipt sid seq price delta : Int) : DeltaRow :=
  ⟨"KXA", receipt, receipt, 0, sid, some seq, .bid, price, delta, none⟩

/-- The one row of a snapshot. -/
def bidImage (receipt seq : Int) : SnapshotRow :=
  ⟨"KXA", receipt, receipt, 0, 1, some seq, Side.bid.toInt, 4000, 100⟩

/-- A delta and the snapshot after it, received at once. -/
theorem replay_in_sequence_tied :
    InSequence [bidDelta 10 1 2 4100 100] [bidImage 5 1, bidImage 10 3] [] ∧
      SameResult [bidDelta 10 1 2 4100 100] [bidImage 5 1, bidImage 10 3] [] := by
  exact (replay_in_sequence_iff _ _ _ (by decide +kernel)).2.1
    ⟨by decide +kernel, by decide +kernel, by decide +kernel⟩

theorem stale_of_sameResult {deltas : List DeltaRow} {snapshots : List SnapshotRow}
    (h : SameResult deltas snapshots []) {deltas' : List DeltaRow} (hdeltas : deltas'.Perm deltas)
    (t : Ticker) : ((replay ∅ deltas' snapshots []).get? t).map Book.stale =
      ((replay ∅ deltas snapshots []).get? t).map Book.stale := by
  have hsame := h deltas' snapshots [] hdeltas (.refl _) (.refl _) ∅ t
  generalize (replay ∅ deltas' snapshots []).get? t = o at hsame ⊢
  generalize (replay ∅ deltas snapshots []).get? t = o' at hsame ⊢
  cases hsame with
  | none => rfl
  | some hab => exact congrArg some hab.stale

/-- A snapshot and the delta after it are received at once: the delta is applied
first, to a book that is stale, and is lost. Two deltas received at once leave
the book stale if they are listed the other way round, and so do two deltas of
one market that came on two subscriptions, though each of these has one. -/
theorem replay_out_of_sequence :
    (OneBoot ((sources [bidDelta 10 1 2 4000 100] [bidImage 10 1] []).map Sourced.event) ∧
      MonoAlong (sources [bidDelta 10 1 2 4000 100] [bidImage 10 1] []) ∧
      ¬ (appliedSources [bidDelta 10 1 2 4000 100] [bidImage 10 1] []).Pairwise InSeq ∧
      ((replay ∅ [bidDelta 10 1 2 4000 100] [bidImage 10 1] []).get? "KXA").map
        (Book.levels · .bid) = some [⟨4000, 100⟩]) ∧
    ¬ SameResult [bidDelta 10 1 2 4100 100, bidDelta 10 1 3 4100 (-100)] [bidImage 5 1] [] ∧
    (MonoAlong (sources [bidDelta 10 1 2 4100 100, bidDelta 10 2 1 4100 (-100)] [bidImage 5 1] [])
      ∧ ¬ SameResult [bidDelta 10 1 2 4100 100, bidDelta 10 2 1 4100 (-100)] [bidImage 5 1] [])
      := by
  refine ⟨⟨?_, ?_, ?_, ?_⟩, fun h => ?_, ?_, fun h => ?_⟩
  · decide +kernel
  · decide +kernel
  · decide +kernel
  · decide +kernel
  · have hstale := stale_of_sameResult h (.swap _ _ _) "KXA"
    revert hstale
    decide +kernel
  · decide +kernel
  · have hstale := stale_of_sameResult h (.swap _ _ _) "KXA"
    revert hstale
    decide +kernel

end Tape
