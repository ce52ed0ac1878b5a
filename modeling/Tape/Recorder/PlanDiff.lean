import Mathlib
import Tape.Keyed
import Tape.Sorted
import Tape.Recorder.Planner

/-!
# The difference of two plans takes the one to the other

A change concerns one group, so the changes of a difference are followed group
by group (`Tape.Keyed`). Those of one group are at most a removal and then an
addition, of markets or of the whole group, and `diff` puts the removals of all
groups before the additions of any. During the removals every group is a part
of the group it was (`Below`), during the additions a part of the group it is
to become. A part of a valid plan is valid, whatever part of which group.

`Cut` says what `split_change` may do to a change. Neither the order of the
pieces of different groups nor where they are cut matters.
-/

namespace Tape

/-- What the constructors of `Group` and of `Plan` check. -/
structure Plan.Valid (p : Plan) : Prop where
  members : ∀ g ∈ p.groups, g.tickers ≠ ∅ ∧ 0 ≤ g.connId
  sorted : p.groups.Pairwise fun g h => g.connId < h.connId
  ids : (p.groups.map Group.groupId).Nodup
  owners : p.groups.Pairwise fun g h => Disjoint g.tickers h.tickers

/-- The group a change is about. -/
def PlanChange.groupId : PlanChange → String
  | .addGroup group => group.groupId
  | .removeGroup groupId => groupId
  | .addMarkets groupId _ => groupId
  | .removeMarkets groupId _ => groupId

/-- What a change makes of its group. A group is subscribed once, only a
subscribed group changes, markets join that were not in it, and those that
leave were in it and leave some. -/
def PlanChange.act : PlanChange → Option Group → Option (Option Group)
  | .addGroup group, none => some (some group)
  | .removeGroup _, some _ => some none
  | .addMarkets _ tickers, some old =>
      if Disjoint old.tickers tickers.toFinset then
        some (some { old with tickers := old.tickers ∪ tickers.toFinset })
      else none
  | .removeMarkets _ tickers, some old =>
      if tickers.toFinset ⊂ old.tickers then
        some (some { old with tickers := old.tickers \ tickers.toFinset })
      else none
  | _, _ => none

/-- `Plan(groups=tuple(sorted(groups, key=group_sort_key)))`. -/
def Plan.ofGroups (groups : Dict String Group) : Plan :=
  ⟨Sorted.sortOn Group.connId groups.values⟩

/-- The changes applied one after another. -/
def Plan.applyAll (p : Plan) (changes : List PlanChange) : Option Plan :=
  (Keyed.run PlanChange.groupId PlanChange.act p.byId changes).map Plan.ofGroups

/-- How many markets a plan has in a group. -/
def Plan.sizeOf (p : Plan) (groupId : String) : Nat :=
  ((p.byId.get? groupId).elim ∅ Group.tickers).card

/-! ## Groups by their ids -/

/-- With distinct ids, the groups by id are the groups. -/
theorem Plan.get?_byId {p : Plan} (hn : (p.groups.map Group.groupId).Nodup) {i : String}
    {g : Group} : p.byId.get? i = some g ↔ g ∈ p.groups ∧ g.groupId = i := by
  have hset : ∀ (d : Dict String Group) (g : Group),
      d.set g.groupId g = (some g).elim d (d.set g.groupId) := fun _ _ => rfl
  rw [Plan.byId, Dict.get?_foldl_set hset hn fun _ _ => Dict.get?_empty _, Dict.get?_empty]
  simp

theorem Plan.Valid.get? {p : Plan} (h : p.Valid) {i : String} {g : Group} :
    p.byId.get? i = some g ↔ g ∈ p.groups ∧ g.groupId = i :=
  Plan.get?_byId h.ids

/-- Groups that are kept under their own ids. -/
def Named (groups : Dict String Group) : Prop :=
  ∀ i g, groups.get? i = some g → g.groupId = i

theorem mem_values {groups : Dict String Group} {g : Group} (hnamed : Named groups) :
    g ∈ groups.values ↔ groups.get? g.groupId = some g := by
  rw [Dict.values, List.mem_map, Dict.get?_eq_some_iff]
  constructor
  · rintro ⟨⟨i, h⟩, hmem, rfl⟩
    have hid := hnamed i h (Dict.get?_eq_some_iff.mpr hmem)
    subst hid
    exact hmem
  · intro hmem
    exact ⟨_, hmem, rfl⟩

theorem values_ids {groups : Dict String Group} (hnamed : Named groups) :
    groups.values.map Group.groupId = groups.keys := by
  rw [Dict.values, Dict.keys, List.map_map]
  refine List.map_congr_left ?_
  rintro ⟨i, g⟩ hmem
  exact hnamed i g (Dict.get?_eq_some_iff.mpr hmem)

theorem ofGroups_perm (groups : Dict String Group) :
    (Plan.ofGroups groups).groups.Perm groups.values :=
  Sorted.sortOn_perm _ _

/-- A plan is valid if its groups are so one by one and two by two. -/
theorem ofGroups_valid {groups : Dict String Group} (hnamed : Named groups)
    (hmembers : ∀ i g, groups.get? i = some g → g.tickers ≠ ∅ ∧ 0 ≤ g.connId)
    (happart : ∀ i j g h, groups.get? i = some g → groups.get? j = some h → i ≠ j →
      g.connId ≠ h.connId ∧ Disjoint g.tickers h.tickers) :
    (Plan.ofGroups groups).Valid := by
  have hperm := ofGroups_perm groups
  have hids : ((Plan.ofGroups groups).groups.map Group.groupId).Nodup := by
    rw [(hperm.map _).nodup_iff, values_ids hnamed]
    exact groups.nodup
  have hget : ∀ g ∈ (Plan.ofGroups groups).groups, groups.get? g.groupId = some g :=
    fun g hg => (mem_values hnamed).mp (hperm.mem_iff.mp hg)
  have hpairs : (Plan.ofGroups groups).groups.Pairwise fun g h =>
      g.connId ≠ h.connId ∧ Disjoint g.tickers h.tickers := by
    rw [List.nodup_iff_pairwise_ne, List.pairwise_map] at hids
    refine hids.imp_of_mem fun {g h} hg hh hne => ?_
    exact happart _ _ _ _ (hget g hg) (hget h hh) hne
  refine ⟨fun g hg => hmembers _ _ (hget g hg), ?_, hids, hpairs.imp fun h => h.2⟩
  have hsorted : (Plan.ofGroups groups).groups.Pairwise fun g h => g.connId ≤ h.connId :=
    Sorted.sortOn_pairwise Group.connId groups.values
  exact (hsorted.and hpairs).imp fun h => lt_of_le_of_ne h.1 h.2.1

/-- Two valid plans with the same groups are one. -/
theorem Plan.Valid.ext {p q : Plan} (hp : p.Valid) (hq : q.Valid)
    (h : ∀ g, g ∈ p.groups ↔ g ∈ q.groups) : p = q := by
  have hperm : p.groups.Perm q.groups :=
    (List.perm_ext_iff_of_nodup (.of_map _ hp.ids) (.of_map _ hq.ids)).mpr h
  have heq : p.groups = q.groups :=
    List.Perm.eq_of_pairwise (fun g h _ _ hlt hgt => absurd hgt (lt_asymm hlt)) hp.sorted hq.sorted
      hperm
  cases p
  exact congrArg Plan.mk heq

/-! ## Parts of a group -/

/-- A group that is a part of another: some of its markets, or no group at all. -/
def Below (y x : Option Group) : Prop :=
  ∀ g, x = some g → ∃ h, y = some h ∧ g.groupId = h.groupId ∧ g.connId = h.connId ∧
    g.tickers ≠ ∅ ∧ g.tickers ⊆ h.tickers

theorem below_none (y : Option Group) : Below y none := nofun

theorem below_some {g h : Group} : Below (some h) (some g) ↔
    g.groupId = h.groupId ∧ g.connId = h.connId ∧ g.tickers ≠ ∅ ∧ g.tickers ⊆ h.tickers := by
  constructor
  · intro hb
    obtain ⟨h', heq, hrest⟩ := hb g rfl
    obtain rfl := Option.some.inj heq
    exact hrest
  · intro hrest g' heq
    obtain rfl := Option.some.inj heq
    exact ⟨h, rfl, hrest⟩

/-- Parts of a valid plan's groups are a valid plan, whose groups are no larger. -/
theorem Plan.Valid.of_below {p : Plan} (h : p.Valid) {groups : Dict String Group}
    (hbelow : ∀ i, Below (p.byId.get? i) (groups.get? i)) :
    Named groups ∧ (Plan.ofGroups groups).Valid ∧
      ∀ g ∈ (Plan.ofGroups groups).groups, g.tickers.card ≤ p.sizeOf g.groupId := by
  have hnamed : Named groups := by
    intro i g hg
    obtain ⟨old, hold, hid, -⟩ := hbelow i g hg
    exact hid.trans (h.get?.mp hold).2
  refine ⟨hnamed, ofGroups_valid hnamed ?_ ?_, ?_⟩
  · intro i g hg
    obtain ⟨old, hold, -, hconn, hne, -⟩ := hbelow i g hg
    exact ⟨hne, hconn ▸ (h.members old (h.get?.mp hold).1).2⟩
  · intro i j g g' hg hg' hij
    obtain ⟨old, hold, -, hconn, -, hsub⟩ := hbelow i g hg
    obtain ⟨old', hold', -, hconn', -, hsub'⟩ := hbelow j g' hg'
    obtain ⟨hmem, hid⟩ := h.get?.mp hold
    obtain ⟨hmem', hid'⟩ := h.get?.mp hold'
    have hne : old ≠ old' := by
      rintro rfl
      exact hij (hid.symm.trans hid')
    have hsymm : Std.Symm fun a b : Group => a.connId ≠ b.connId ∧ Disjoint a.tickers b.tickers :=
      ⟨fun _ _ hab => ⟨hab.1.symm, hab.2.symm⟩⟩
    obtain ⟨hconns, hdisj⟩ := ((h.sorted.imp ne_of_lt).and h.owners).forall hmem hmem' hne
    rw [hconn, hconn']
    exact ⟨hconns,
      Finset.disjoint_of_subset_left hsub (Finset.disjoint_of_subset_right hsub' hdisj)⟩
  · intro g hg
    have hget := (mem_values hnamed).mp ((ofGroups_perm groups).mem_iff.mp hg)
    obtain ⟨old, hold, -, -, -, hsub⟩ := hbelow _ g hget
    rw [Plan.sizeOf, hold]
    exact Finset.card_le_card hsub

theorem ofGroups_eq {groups : Dict String Group} {p : Plan} (h : p.Valid)
    (hget : ∀ i, groups.get? i = p.byId.get? i) : Plan.ofGroups groups = p := by
  have hbelow : ∀ i, Below (p.byId.get? i) (groups.get? i) := by
    intro i g hg
    rw [hget] at hg
    exact ⟨g, hg, rfl, rfl, (h.members g (h.get?.mp hg).1).1, subset_rfl⟩
  obtain ⟨hnamed, hvalid, -⟩ := h.of_below hbelow
  refine hvalid.ext h fun g => ?_
  rw [(ofGroups_perm groups).mem_iff, mem_values hnamed, hget, h.get?]
  simp

/-! ## Pieces of a change -/

/-- What a change may be cut into: a membership change into changes of
consecutive markets, a subscription into that of some markets and the addition
of the others. -/
inductive Cut : PlanChange → List PlanChange → Prop
  | removeGroup (groupId : String) : Cut (.removeGroup groupId) [.removeGroup groupId]
  | addMarkets (groupId : String) (chunks : List (List Ticker)) :
      Cut (.addMarkets groupId chunks.flatten) (chunks.map (.addMarkets groupId))
  | removeMarkets (groupId : String) (chunks : List (List Ticker)) :
      Cut (.removeMarkets groupId chunks.flatten) (chunks.map (.removeMarkets groupId))
  | addGroup (group : Group) (first : Finset Ticker) (chunks : List (List Ticker))
      (apart : Disjoint first chunks.flatten.toFinset) (once : chunks.flatten.Nodup)
      (all : first ∪ chunks.flatten.toFinset = group.tickers)
      (some : group.tickers ≠ ∅ → first ≠ ∅) :
      Cut (.addGroup group)
        (.addGroup { group with tickers := first } ::
          chunks.map (.addMarkets group.groupId))

theorem Cut.self (c : PlanChange) : Cut c [c] := by
  cases c with
  | addGroup group =>
      have hall : group.tickers ∪ ([] : List (List Ticker)).flatten.toFinset = group.tickers := by
        simp
      exact .addGroup group group.tickers [] (by simp) List.nodup_nil hall id
  | removeGroup groupId => exact .removeGroup groupId
  | addMarkets groupId tickers =>
      have h := Cut.addMarkets groupId [tickers]
      rwa [List.flatten_singleton] at h
  | removeMarkets groupId tickers =>
      have h := Cut.removeMarkets groupId [tickers]
      rwa [List.flatten_singleton] at h

/-- The pieces are all of the list, and none is empty or over the limit. -/
theorem chunksOf_spec {α : Type*} {n fuel : Nat} {l : List α} (hn : 1 ≤ n) (hf : l.length ≤ fuel) :
    (chunksOf n fuel l).flatten = l ∧
      ∀ chunk ∈ chunksOf n fuel l, 1 ≤ chunk.length ∧ chunk.length ≤ n := by
  induction fuel generalizing l with
  | zero =>
      obtain rfl := List.length_eq_zero_iff.mp (Nat.le_zero.mp hf)
      exact ⟨rfl, nofun⟩
  | succ fuel ih =>
      cases l with
      | nil => exact ⟨rfl, nofun⟩
      | cons a l =>
          rw [List.length_cons] at hf
          have hrest : ((a :: l).drop n).length ≤ fuel := by
            rw [List.length_drop, List.length_cons]
            omega
          obtain ⟨hflat, hsizes⟩ := ih hrest
          rw [chunksOf]
          refine ⟨?_, ?_⟩
          · rw [List.flatten_cons, hflat, List.take_append_drop]
          · intro chunk hc
            rcases List.mem_cons.mp hc with rfl | hc
            · rw [List.length_take, List.length_cons]
              omega
            · exact hsizes chunk hc

/-- How many markets a change names, where it names any. -/
def PlanChange.names : PlanChange → Option Nat
  | .addGroup group => some group.tickers.card
  | .removeGroup _ => none
  | .addMarkets _ tickers => some tickers.length
  | .removeMarkets _ tickers => some tickers.length

theorem length_sortedTickers (s : Finset Ticker) : (sortedTickers s).length = s.card := by
  rw [← List.toFinset_card_of_nodup (nodup_sortedTickers s)]
  congr 1
  ext t
  simp

/-- What `split_change` returns is a cut, and each piece names between one and
`max_markets` markets if the change names one. -/
theorem cut_splitChange {m : Nat} (hm : 1 ≤ m) (c : PlanChange) :
    Cut c (splitChange m c) ∧
      ((∀ k, c.names = some k → 1 ≤ k) →
        ∀ piece ∈ splitChange m c, ∀ k, piece.names = some k → 1 ≤ k ∧ k ≤ m) := by
  cases c with
  | removeGroup groupId =>
      refine ⟨.removeGroup groupId, fun _ piece hp k hk => ?_⟩
      obtain rfl := List.mem_singleton.mp hp
      cases hk
  | addMarkets groupId tickers =>
      rw [splitChange]
      split
      · next hle =>
          refine ⟨.self _, fun hnames piece hp k hk => ?_⟩
          obtain rfl := List.mem_singleton.mp hp
          obtain rfl := Option.some.inj hk
          exact ⟨hnames _ rfl, hle⟩
      · obtain ⟨hflat, hsizes⟩ := chunksOf_spec hm (le_refl tickers.length)
        have hcut := Cut.addMarkets groupId (chunksOf m tickers.length tickers)
        rw [hflat] at hcut
        refine ⟨hcut, fun _ piece hp k hk => ?_⟩
        obtain ⟨chunk, hc, rfl⟩ := List.mem_map.mp hp
        obtain rfl := Option.some.inj hk
        exact hsizes chunk hc
  | removeMarkets groupId tickers =>
      rw [splitChange]
      split
      · next hle =>
          refine ⟨.self _, fun hnames piece hp k hk => ?_⟩
          obtain rfl := List.mem_singleton.mp hp
          obtain rfl := Option.some.inj hk
          exact ⟨hnames _ rfl, hle⟩
      · obtain ⟨hflat, hsizes⟩ := chunksOf_spec hm (le_refl tickers.length)
        have hcut := Cut.removeMarkets groupId (chunksOf m tickers.length tickers)
        rw [hflat] at hcut
        refine ⟨hcut, fun _ piece hp k hk => ?_⟩
        obtain ⟨chunk, hc, rfl⟩ := List.mem_map.mp hp
        obtain rfl := Option.some.inj hk
        exact hsizes chunk hc
  | addGroup group =>
      have hlength := length_sortedTickers group.tickers
      have hnodup := nodup_sortedTickers group.tickers
      rw [splitChange]
      split
      · next hle =>
          refine ⟨.self _, fun hnames piece hp k hk => ?_⟩
          obtain rfl := List.mem_singleton.mp hp
          obtain rfl := Option.some.inj hk
          exact ⟨hnames _ rfl, hlength ▸ hle⟩
      · next hgt =>
          have hshort : ((sortedTickers group.tickers).drop m).length ≤
              (sortedTickers group.tickers).length := by
            rw [List.length_drop]
            omega
          obtain ⟨hflat, hsizes⟩ := chunksOf_spec hm hshort
          have hsplit : (sortedTickers group.tickers).take m ++
              (sortedTickers group.tickers).drop m = sortedTickers group.tickers :=
            List.take_append_drop ..
          rw [← hsplit, List.nodup_append] at hnodup
          obtain ⟨htake, hdrop, hapart⟩ := hnodup
          have hfirst : ((sortedTickers group.tickers).take m).toFinset.card = m := by
            rw [List.toFinset_card_of_nodup htake, List.length_take]
            omega
          refine ⟨?_, ?_⟩
          · refine .addGroup group _ _ ?_ ?_ ?_ ?_
            · rw [hflat, Finset.disjoint_left]
              intro t ht ht'
              exact hapart t (List.mem_toFinset.mp ht) t (List.mem_toFinset.mp ht') rfl
            · rw [hflat]
              exact hdrop
            · rw [hflat, ← List.toFinset_append, hsplit]
              ext t
              simp
            · intro _ hempty
              rw [hempty, Finset.card_empty] at hfirst
              omega
          · intro _ piece hp k hk
            rcases List.mem_cons.mp hp with rfl | hp
            · obtain rfl := Option.some.inj hk
              show 1 ≤ (List.toFinset _).card ∧ (List.toFinset _).card ≤ m
              omega
            · obtain ⟨chunk, hc, rfl⟩ := List.mem_map.mp hp
              obtain rfl := Option.some.inj hk
              exact hsizes chunk hc

theorem Cut.groupId_eq {c piece : PlanChange} {pieces : List PlanChange} (h : Cut c pieces)
    (hp : piece ∈ pieces) : piece.groupId = c.groupId := by
  cases h with
  | removeGroup groupId => rw [List.mem_singleton.mp hp]
  | addMarkets groupId chunks =>
      obtain ⟨chunk, -, rfl⟩ := List.mem_map.mp hp
      rfl
  | removeMarkets groupId chunks =>
      obtain ⟨chunk, -, rfl⟩ := List.mem_map.mp hp
      rfl
  | addGroup group first chunks _ _ _ _ =>
      rcases List.mem_cons.mp hp with rfl | hp
      · rfl
      · obtain ⟨chunk, -, rfl⟩ := List.mem_map.mp hp
        rfl

/-! ## The pieces of one group's change -/

open Keyed (Through)

/-- Markets that join a group, one list after another. -/
theorem through_addMarkets (groupId : String) {chunks : List (List Ticker)} {g h : Group}
    (hne : g.tickers ≠ ∅) (hapart : Disjoint g.tickers chunks.flatten.toFinset)
    (honce : chunks.flatten.Nodup)
    (hh : h = { g with tickers := g.tickers ∪ chunks.flatten.toFinset }) :
    Through PlanChange.act (Below (some h)) (some g) (chunks.map (.addMarkets groupId))
      (some h) := by
  induction chunks generalizing g with
  | nil =>
      have heq : h = g := by
        rw [hh, List.flatten_nil, List.toFinset_nil, Finset.union_empty]
      subst heq
      exact ⟨below_some.mpr ⟨rfl, rfl, hne, subset_rfl⟩, rfl⟩
  | cons chunk chunks ih =>
      rw [List.flatten_cons, List.nodup_append] at honce
      rw [List.flatten_cons, List.toFinset_append, Finset.disjoint_union_right] at hapart
      rw [List.flatten_cons, List.toFinset_append] at hh
      refine ⟨below_some.mpr ⟨by rw [hh], by rw [hh], hne, ?_⟩, ?_⟩
      · rw [hh]
        exact Finset.subset_union_left
      · refine ⟨some { g with tickers := g.tickers ∪ chunk.toFinset }, ?_, ih ?_ ?_ honce.2.1 ?_⟩
        · exact if_pos hapart.1
        · exact fun hempty => hne (Finset.union_eq_empty.mp hempty).1
        · rw [Finset.disjoint_union_left]
          refine ⟨hapart.2, Finset.disjoint_left.mpr fun t ht ht' => ?_⟩
          exact honce.2.2 t (List.mem_toFinset.mp ht) t (List.mem_toFinset.mp ht') rfl
        · rw [hh, Finset.union_assoc]

/-- Markets that leave a group in which others stay. -/
theorem through_removeMarkets (groupId : String) {chunks : List (List Ticker)} {old g h : Group}
    (hbelow : Below (some old) (some g)) (hin : chunks.flatten.toFinset ⊂ g.tickers)
    (honce : chunks.flatten.Nodup)
    (hh : h = { g with tickers := g.tickers \ chunks.flatten.toFinset }) :
    Through PlanChange.act (Below (some old)) (some g) (chunks.map (.removeMarkets groupId))
      (some h) := by
  induction chunks generalizing g with
  | nil =>
      have heq : h = g := by
        rw [hh, List.flatten_nil, List.toFinset_nil, Finset.sdiff_empty]
      exact ⟨hbelow, congrArg some heq.symm⟩
  | cons chunk chunks ih =>
      rw [List.flatten_cons, List.nodup_append] at honce
      rw [List.flatten_cons, List.toFinset_append] at hin hh
      obtain ⟨t, ht, hstays⟩ := Finset.exists_of_ssubset hin
      rw [Finset.mem_union, not_or] at hstays
      have hchunk : chunk.toFinset ⊂ g.tickers :=
        Finset.ssubset_of_subset_of_ssubset Finset.subset_union_left hin
      have hleft : t ∈ g.tickers \ chunk.toFinset := Finset.mem_sdiff.mpr ⟨ht, hstays.1⟩
      refine ⟨hbelow, some { g with tickers := g.tickers \ chunk.toFinset }, if_pos hchunk, ?_⟩
      refine ih ?_ ?_ honce.2.1 ?_
      · obtain ⟨hid, hconn, -, hold⟩ := below_some.mp hbelow
        exact below_some.mpr ⟨hid, hconn, Finset.ne_empty_of_mem hleft,
          Finset.sdiff_subset.trans hold⟩
      · refine Finset.ssubset_iff_subset_ne.mpr ⟨fun t' ht' => ?_, fun heq => ?_⟩
        · refine Finset.mem_sdiff.mpr ⟨hin.1 (Finset.mem_union_right _ ht'), fun hc => ?_⟩
          exact honce.2.2 t' (List.mem_toFinset.mp hc) t' (List.mem_toFinset.mp ht') rfl
        · exact hstays.2 (heq ▸ hleft)
      · rw [hh]
        exact congrArg (Group.mk _ _) sdiff_sdiff_left.symm

/-- A group that is subscribed, its first markets and then the others. -/
theorem through_addGroup {group : Group} {pieces : List PlanChange}
    (hcut : Cut (.addGroup group) pieces) (hne : group.tickers ≠ ∅) :
    Through PlanChange.act (Below (some group)) none pieces (some group) := by
  cases hcut with
  | addGroup _ first chunks apart once all some =>
      refine ⟨below_none _, _, rfl, through_addMarkets group.groupId (some hne) apart once ?_⟩
      rw [all]

theorem through_removeGroup {old : Group} {pieces : List PlanChange}
    (hcut : Cut (.removeGroup old.groupId) pieces) (hne : old.tickers ≠ ∅) :
    Through PlanChange.act (Below (some old)) (some old) pieces none := by
  cases hcut with
  | removeGroup =>
      exact ⟨below_some.mpr ⟨rfl, rfl, hne, subset_rfl⟩, _, rfl, below_none _, rfl⟩

/-! ## The two phases of a difference -/

section

variable (cut : PlanChange → List PlanChange) (current desired : Plan)

/-- The removals of a difference, cut into pieces. -/
def removals : List PlanChange :=
  (inIdOrder current.byId).flatMap (fun old => (diffRunning desired.byId old).1.flatMap cut) ++
    (inIdOrder current.byId).flatMap fun old => (diffRunning desired.byId old).2.1.flatMap cut

/-- The additions of a difference, cut into pieces. -/
def additions : List PlanChange :=
  (inIdOrder desired.byId).flatMap (fun new => (diffWanted current.byId new).flatMap cut) ++
    (inIdOrder current.byId).flatMap fun old => (diffRunning desired.byId old).2.2.flatMap cut

theorem diff_phases :
    (diff current desired).flatMap cut =
      removals cut current desired ++ additions cut current desired := by
  simp only [diff, removals, additions, List.flatMap_append, List.flatMap_map, List.flatMap_assoc,
    List.append_assoc]

variable {cut current desired}

theorem inIdOrder_perm (groups : Dict String Group) : (inIdOrder groups).Perm groups.values :=
  (List.perm_insertionSort _ groups.entries).map Prod.snd

/-- The pieces of one group, among the pieces of all groups. -/
theorem ofKey_inIdOrder {groups : Dict String Group} (hnamed : Named groups)
    {f : Group → List PlanChange} (hf : ∀ g, ∀ c ∈ f g, c.groupId = g.groupId) (i : String) :
    Keyed.ofKey PlanChange.groupId i ((inIdOrder groups).flatMap f) =
      (groups.get? i).elim [] f := by
  have hids : ((inIdOrder groups).map Group.groupId).Nodup := by
    rw [((inIdOrder_perm groups).map _).nodup_iff, values_ids hnamed]
    exact groups.nodup
  have hmem : ∀ g, groups.get? i = some g ↔ g ∈ inIdOrder groups ∧ g.groupId = i := by
    intro g
    rw [(inIdOrder_perm groups).mem_iff, mem_values hnamed]
    constructor
    · intro hg
      have hid := hnamed i g hg
      exact ⟨hid.symm ▸ hg, hid⟩
    · rintro ⟨hg, rfl⟩
      exact hg
  generalize groups.get? i = found at hmem ⊢
  generalize inIdOrder groups = l at hids hmem
  induction l generalizing found with
  | nil =>
      cases found with
      | none => rfl
      | some g => cases ((hmem g).mp rfl).1
  | cons h l ih =>
      rw [List.map_cons, List.nodup_cons] at hids
      rw [List.flatMap_cons, Keyed.ofKey_append]
      by_cases hid : h.groupId = i
      · obtain rfl : found = some h := ((hmem h).mpr ⟨List.mem_cons_self, hid⟩)
        have hhead : Keyed.ofKey PlanChange.groupId i (f h) = f h :=
          List.filter_eq_self.mpr fun c hc => by simp [hf h c hc, hid]
        have hrest : Keyed.ofKey PlanChange.groupId i (l.flatMap f) = [] := by
          refine List.filter_eq_nil_iff.mpr fun c hc => ?_
          obtain ⟨g, hg, hcg⟩ := List.mem_flatMap.mp hc
          have hne : g.groupId ≠ i := fun heq =>
            hids.1 (List.mem_map.mpr ⟨g, hg, heq.trans hid.symm⟩)
          simp [hf g c hcg, hne]
        rw [hhead, hrest, List.append_nil]
        rfl
      · have hhead : Keyed.ofKey PlanChange.groupId i (f h) = [] :=
          List.filter_eq_nil_iff.mpr fun c hc => by simp [hf h c hc, hid]
        rw [hhead, List.nil_append]
        refine ih found hids.2 fun g => ?_
        rw [hmem, List.mem_cons]
        refine and_congr_left fun hg => ⟨fun h' => ?_, .inr⟩
        rcases h' with rfl | h'
        · exact absurd hg hid
        · exact h'

/-- What a group is between the phases: what it keeps. -/
def kept (old new : Option Group) : Option Group :=
  match old, new with
  | some old, some new =>
      if mustRebuild old new then none else some { old with tickers := old.tickers ∩ new.tickers }
  | _, _ => none

/-- A running group is torn down, or its members change. -/
theorem diffRunning_cases (wanted : Dict String Group) (old : Group) :
    diffRunning wanted old = ([], [.removeGroup old.groupId], []) ∧
        kept (some old) (wanted.get? old.groupId) = none ∨
      ∃ new, wanted.get? old.groupId = some new ∧ mustRebuild old new = false ∧
        diffRunning wanted old =
          (if old.tickers \ new.tickers = ∅ then []
            else [.removeMarkets old.groupId (sortedTickers (old.tickers \ new.tickers))], [],
           if new.tickers \ old.tickers = ∅ then []
            else [.addMarkets old.groupId (sortedTickers (new.tickers \ old.tickers))]) := by
  rw [diffRunning]
  cases hnew : wanted.get? old.groupId with
  | none => exact .inl ⟨rfl, rfl⟩
  | some new =>
      cases hm : mustRebuild old new with
      | true => exact .inl ⟨if_pos hm, if_pos hm⟩
      | false => exact .inr ⟨new, rfl, hm, if_neg (by simp [hm])⟩

theorem mem_unless_empty {s : Finset Ticker} {c change : PlanChange}
    (h : c ∈ if s = ∅ then [] else [change]) : c = change := by
  split at h
  · cases h
  · exact List.mem_singleton.mp h

theorem diffRunning_groupId (wanted : Dict String Group) (old : Group) :
    (∀ c ∈ (diffRunning wanted old).1, c.groupId = old.groupId) ∧
      (∀ c ∈ (diffRunning wanted old).2.1, c.groupId = old.groupId) ∧
      ∀ c ∈ (diffRunning wanted old).2.2, c.groupId = old.groupId := by
  rcases diffRunning_cases wanted old with ⟨heq, -⟩ | ⟨new, -, -, heq⟩
  · rw [heq]
    simp [PlanChange.groupId]
  · rw [heq]
    refine ⟨fun c hc => ?_, nofun, fun c hc => ?_⟩
    · rw [mem_unless_empty hc]
      rfl
    · rw [mem_unless_empty hc]
      rfl

theorem diffWanted_groupId (running : Dict String Group) (new : Group) :
    ∀ c ∈ diffWanted running new, c.groupId = new.groupId := by
  intro c hc
  rw [diffWanted] at hc
  split at hc
  · rw [List.mem_singleton.mp hc]
    rfl
  · split at hc
    · rw [List.mem_singleton.mp hc]
      rfl
    · cases hc

theorem mustRebuild_eq_false {old new : Group} (h : mustRebuild old new = false) :
    new.connId = old.connId ∧ old.tickers ∩ new.tickers ≠ ∅ := by
  simpa [mustRebuild] using h

theorem toFinset_sortedTickers (s : Finset Ticker) : (sortedTickers s).toFinset = s := by
  ext t
  simp

/-- The markets a group loses, whether or not there are any. -/
theorem through_gone {old new : Group} (hcut : ∀ c, Cut c (cut c))
    (hkept : old.tickers ∩ new.tickers ≠ ∅) :
    Through PlanChange.act (Below (some old)) (some old)
      ((if old.tickers \ new.tickers = ∅ then []
        else [.removeMarkets old.groupId (sortedTickers (old.tickers \ new.tickers))] :
          List PlanChange).flatMap cut)
      (some { old with tickers := old.tickers ∩ new.tickers }) := by
  have hne : old.tickers ≠ ∅ := fun h => hkept (by rw [h, Finset.empty_inter])
  have hself : Below (some old) (some old) := below_some.mpr ⟨rfl, rfl, hne, subset_rfl⟩
  split
  · next hgone =>
      rw [Finset.inter_eq_left.mpr (Finset.sdiff_eq_empty_iff_subset.mp hgone)]
      exact ⟨hself, rfl⟩
  · have hpieces := hcut (.removeMarkets old.groupId (sortedTickers (old.tickers \ new.tickers)))
    have honce := nodup_sortedTickers (old.tickers \ new.tickers)
    have hset := toFinset_sortedTickers (old.tickers \ new.tickers)
    rw [List.flatMap_cons, List.flatMap_nil, List.append_nil]
    generalize sortedTickers (old.tickers \ new.tickers) = gone at hpieces honce hset
    generalize cut (.removeMarkets old.groupId gone) = pieces at hpieces ⊢
    cases hpieces with
    | removeMarkets _ chunks =>
        refine through_removeMarkets old.groupId hself ?_ honce ?_
        · rw [hset]
          refine Finset.ssubset_iff_subset_ne.mpr ⟨Finset.sdiff_subset, fun heq => hkept ?_⟩
          rw [Finset.sdiff_eq_self_iff_disjoint] at heq
          exact Finset.disjoint_iff_inter_eq_empty.mp heq
        · rw [hset, Finset.sdiff_sdiff_self_left]

/-- The markets a group gains, whether or not there are any. -/
theorem through_added {old new : Group} (hcut : ∀ c, Cut c (cut c))
    (hid : old.groupId = new.groupId) (hconn : new.connId = old.connId)
    (hkept : old.tickers ∩ new.tickers ≠ ∅) :
    Through PlanChange.act (Below (some new))
      (some { old with tickers := old.tickers ∩ new.tickers })
      ((if new.tickers \ old.tickers = ∅ then []
        else [.addMarkets old.groupId (sortedTickers (new.tickers \ old.tickers))] :
          List PlanChange).flatMap cut)
      (some new) := by
  split
  · next hadded =>
      have heq : { old with tickers := old.tickers ∩ new.tickers } = new := by
        rw [Finset.inter_eq_right.mpr (Finset.sdiff_eq_empty_iff_subset.mp hadded), hid, ← hconn]
      rw [heq]
      rw [Finset.inter_eq_right.mpr (Finset.sdiff_eq_empty_iff_subset.mp hadded)] at hkept
      exact ⟨below_some.mpr ⟨rfl, rfl, hkept, subset_rfl⟩, rfl⟩
  · have hpieces := hcut (.addMarkets old.groupId (sortedTickers (new.tickers \ old.tickers)))
    have honce := nodup_sortedTickers (new.tickers \ old.tickers)
    have hset := toFinset_sortedTickers (new.tickers \ old.tickers)
    rw [List.flatMap_cons, List.flatMap_nil, List.append_nil]
    generalize sortedTickers (new.tickers \ old.tickers) = added at hpieces honce hset
    generalize cut (.addMarkets old.groupId added) = pieces at hpieces ⊢
    cases hpieces with
    | addMarkets _ chunks =>
        refine through_addMarkets old.groupId hkept ?_ honce ?_
        · rw [hset]
          exact Finset.disjoint_sdiff.mono_left Finset.inter_subset_left
        · have hall : old.tickers ∩ new.tickers ∪ new.tickers \ old.tickers = new.tickers := by
            rw [Finset.inter_comm, Finset.union_comm, Finset.sdiff_union_inter]
          rw [hset, hall, hid, ← hconn]

variable (hcut : ∀ c, Cut c (cut c))
include hcut

theorem cut_groupId {l : List PlanChange} {i : String} (hl : ∀ c ∈ l, c.groupId = i) :
    ∀ c ∈ l.flatMap cut, c.groupId = i := by
  intro c hc
  obtain ⟨whole, hw, hc⟩ := List.mem_flatMap.mp hc
  rw [(hcut whole).groupId_eq hc, hl whole hw]

/-- The removals of a group lead to what it keeps, through parts of what it was. -/
theorem through_removals (desired : Plan) (hc : current.Valid) (i : String) :
    Through PlanChange.act (Below (current.byId.get? i)) (current.byId.get? i)
      (Keyed.ofKey PlanChange.groupId i (removals cut current desired))
      (kept (current.byId.get? i) (desired.byId.get? i)) := by
  have hnamed : Named current.byId := fun i g hg => (hc.get?.mp hg).2
  have hids := diffRunning_groupId desired.byId
  rw [removals, Keyed.ofKey_append,
    ofKey_inIdOrder hnamed fun g => cut_groupId hcut (hids g).1,
    ofKey_inIdOrder hnamed fun g => cut_groupId hcut (hids g).2.1]
  cases hold : current.byId.get? i with
  | none => exact ⟨below_none _, rfl⟩
  | some old =>
      obtain ⟨hmem, rfl⟩ := hc.get?.mp hold
      show Through _ _ _ ((diffRunning desired.byId old).1.flatMap cut ++
        (diffRunning desired.byId old).2.1.flatMap cut) _
      rcases diffRunning_cases desired.byId old with ⟨heq, hkept⟩ | ⟨new, hnew, hm, heq⟩
      · rw [heq, hkept, List.flatMap_nil, List.nil_append, List.flatMap_cons, List.flatMap_nil,
          List.append_nil]
        exact through_removeGroup (hcut _) (hc.members old hmem).1
      · have hkept : kept (some old) (some new) =
            some { old with tickers := old.tickers ∩ new.tickers } := if_neg (by simp [hm])
        rw [heq, hnew, hkept, List.flatMap_nil, List.append_nil]
        exact through_gone hcut (mustRebuild_eq_false hm).2

/-- The additions of a group lead from there to what it is to become, through
parts of that. -/
theorem through_additions (hc : current.Valid) (hd : desired.Valid) (i : String) :
    Through PlanChange.act (Below (desired.byId.get? i))
      (kept (current.byId.get? i) (desired.byId.get? i))
      (Keyed.ofKey PlanChange.groupId i (additions cut current desired)) (desired.byId.get? i) := by
  have hcurrent : Named current.byId := fun i g hg => (hc.get?.mp hg).2
  have hdesired : Named desired.byId := fun i g hg => (hd.get?.mp hg).2
  rw [additions, Keyed.ofKey_append,
    ofKey_inIdOrder hdesired fun g => cut_groupId hcut (diffWanted_groupId current.byId g),
    ofKey_inIdOrder hcurrent fun g => cut_groupId hcut (diffRunning_groupId desired.byId g).2.2]
  cases hold : current.byId.get? i with
  | none =>
      rw [Option.elim_none, List.append_nil]
      cases hnew : desired.byId.get? i with
      | none => exact ⟨below_none _, rfl⟩
      | some new =>
          obtain ⟨hmem, rfl⟩ := hd.get?.mp hnew
          show Through _ _ none ((diffWanted current.byId new).flatMap cut) _
          rw [diffWanted, hold]
          show Through _ _ none ([PlanChange.addGroup new].flatMap cut) _
          rw [List.flatMap_cons, List.flatMap_nil, List.append_nil]
          exact through_addGroup (hcut _) (hd.members new hmem).1
  | some old =>
      obtain ⟨-, rfl⟩ := hc.get?.mp hold
      rcases diffRunning_cases desired.byId old with ⟨heq, hkept⟩ | ⟨new, hnew, hm, heq⟩
      · rw [hkept]
        show Through _ _ none (_ ++ (diffRunning desired.byId old).2.2.flatMap cut) _
        rw [heq, List.flatMap_nil, List.append_nil]
        cases hnew : desired.byId.get? old.groupId with
        | none => exact ⟨below_none _, rfl⟩
        | some new =>
            obtain ⟨hmem, hid⟩ := hd.get?.mp hnew
            have hm : mustRebuild old new = true := by
              by_contra hm
              rw [hnew, kept, if_neg hm] at hkept
              cases hkept
            show Through _ _ none ((diffWanted current.byId new).flatMap cut) _
            rw [diffWanted, hid, hold]
            simp only [if_pos hm]
            rw [List.flatMap_cons, List.flatMap_nil, List.append_nil]
            exact through_addGroup (hcut _) (hd.members new hmem).1
      · obtain ⟨-, hid⟩ := hd.get?.mp hnew
        obtain ⟨hconn, hshared⟩ := mustRebuild_eq_false hm
        have hkept : kept (some old) (some new) =
            some { old with tickers := old.tickers ∩ new.tickers } := if_neg (by simp [hm])
        have hwanted : diffWanted current.byId new = [] := by
          rw [diffWanted, hid, hold]
          exact if_neg (by simp [hm])
        rw [hnew, hkept]
        show Through _ _ _ ((diffWanted current.byId new).flatMap cut ++
          (diffRunning desired.byId old).2.2.flatMap cut) _
        rw [hwanted, heq, List.flatMap_nil, List.nil_append]
        exact through_added hcut hid.symm hconn hshared

end

/-! ## Differences -/

/-- The changes, one after another, take one plan to another, by way of valid
plans whose groups are no larger than in the one or the other. -/
structure Turns (current desired : Plan) (changes : List PlanChange) : Prop where
  reaches : current.applyAll changes = some desired
  between : ∀ pre, pre <+: changes → ∃ p, current.applyAll pre = some p ∧ p.Valid ∧
    ∀ g ∈ p.groups, g.tickers.card ≤ max (current.sizeOf g.groupId) (desired.sizeOf g.groupId)

/-- The changes of a difference may be cut. -/
theorem turns_cut {current desired : Plan} {cut : PlanChange → List PlanChange}
    (hcut : ∀ c, Cut c (cut c)) (hc : current.Valid) (hd : desired.Valid) :
    Turns current desired ((diff current desired).flatMap cut) := by
  rw [diff_phases]
  obtain ⟨⟨last, hrun, hlast⟩, hbetween⟩ := Keyed.run_of_phases
    (through_removals hcut desired hc) (through_additions hcut hc hd)
  constructor
  · rw [Plan.applyAll, hrun, Option.map_some, ofGroups_eq hd hlast]
  · intro pre hpre
    obtain ⟨groups, hrun, hbelow⟩ := hbetween pre hpre
    refine ⟨Plan.ofGroups groups, by rw [Plan.applyAll, hrun, Option.map_some], ?_⟩
    rcases hbelow with hbelow | hbelow
    · obtain ⟨-, hvalid, hsizes⟩ := hc.of_below hbelow
      exact ⟨hvalid, fun g hg => le_max_of_le_left (hsizes g hg)⟩
    · obtain ⟨-, hvalid, hsizes⟩ := hd.of_below hbelow
      exact ⟨hvalid, fun g hg => le_max_of_le_right (hsizes g hg)⟩

/-- Every change that `diff` returns names a market, if it names markets. -/
theorem diff_names {current desired : Plan} (hd : desired.Valid) {c : PlanChange}
    (hmem : c ∈ diff current desired) {k : Nat} (hk : c.names = some k) : 1 ≤ k := by
  have hnamed : Named desired.byId := fun i g hg => (hd.get?.mp hg).2
  have hmembers : ∀ (s : Finset Ticker) (change : List Ticker → PlanChange),
      (∀ l, (change l).names = some l.length) →
        c ∈ (if s = ∅ then [] else [change (sortedTickers s)]) → 1 ≤ k := by
    intro s change hchange hc
    split at hc
    · cases hc
    · next hne =>
        rw [List.mem_singleton.mp hc, hchange, length_sortedTickers, Option.some.injEq] at hk
        rw [← hk]
        exact Finset.card_pos.mpr (Finset.nonempty_iff_ne_empty.mpr hne)
  simp only [diff, List.mem_append, List.mem_flatMap, List.mem_map] at hmem
  rcases hmem with ((⟨_, ⟨old, -, rfl⟩, hc⟩ | ⟨_, ⟨old, -, rfl⟩, hc⟩) | ⟨new, hnew, hc⟩) |
    ⟨_, ⟨old, -, rfl⟩, hc⟩
  · rcases diffRunning_cases desired.byId old with ⟨heq, -⟩ | ⟨new, -, -, heq⟩
    · rw [heq] at hc
      cases hc
    · rw [heq] at hc
      exact hmembers _ _ (fun _ => rfl) hc
  · rcases diffRunning_cases desired.byId old with ⟨heq, -⟩ | ⟨new, -, -, heq⟩
    · rw [heq] at hc
      rw [List.mem_singleton.mp hc] at hk
      cases hk
    · rw [heq] at hc
      cases hc
  · have hget := (mem_values hnamed).mp ((inIdOrder_perm desired.byId).mem_iff.mp hnew)
    have hadd : c = .addGroup new := by
      rw [diffWanted] at hc
      split at hc
      · exact List.mem_singleton.mp hc
      · split at hc
        · exact List.mem_singleton.mp hc
        · cases hc
    rw [hadd, PlanChange.names, Option.some.injEq] at hk
    rw [← hk]
    exact Finset.card_pos.mpr (Finset.nonempty_iff_ne_empty.mpr
      (hd.members new (hd.get?.mp hget).1).1)
  · rcases diffRunning_cases desired.byId old with ⟨heq, -⟩ | ⟨new, -, -, heq⟩
    · rw [heq] at hc
      cases hc
    · rw [heq] at hc
      exact hmembers _ _ (fun _ => rfl) hc

/-- The difference of two valid plans leads from the one to the other through
valid plans, whole or cut into commands of any size. -/
theorem diff_turns {current desired : Plan} (hc : current.Valid) (hd : desired.Valid) :
    Turns current desired (diff current desired) ∧
      ∀ m, 1 ≤ m →
        Turns current desired ((diff current desired).flatMap (splitChange m)) ∧
          ∀ piece ∈ (diff current desired).flatMap (splitChange m), ∀ k,
            piece.names = some k → 1 ≤ k ∧ k ≤ m := by
  constructor
  · have h := turns_cut Cut.self hc hd
    rwa [List.flatMap_singleton'] at h
  · intro m hm
    refine ⟨turns_cut (fun c => (cut_splitChange hm c).1) hc hd, ?_⟩
    intro piece hp k hk
    obtain ⟨c, hmem, hp⟩ := List.mem_flatMap.mp hp
    exact (cut_splitChange hm c).2 (fun _ => diff_names hd hmem) piece hp k hk

/-- Two markets change places, and a third group changes its connection. -/
theorem swapped_turns :
    let current : Plan := ⟨[⟨"g0000", 0, {"KXA", "KXB"}⟩, ⟨"g0001", 1, {"KXC", "KXD"}⟩,
      ⟨"g0002", 2, {"KXE"}⟩]⟩
    let desired : Plan := ⟨[⟨"g0000", 0, {"KXB", "KXC"}⟩, ⟨"g0001", 1, {"KXA", "KXD"}⟩,
      ⟨"g0002", 3, {"KXE", "KXF", "KXG"}⟩]⟩
    Turns current desired (diff current desired) ∧
      ∀ m, 1 ≤ m →
        Turns current desired ((diff current desired).flatMap (splitChange m)) ∧
          ∀ piece ∈ (diff current desired).flatMap (splitChange m), ∀ k,
            piece.names = some k → 1 ≤ k ∧ k ≤ m :=
  diff_turns ⟨by decide, by decide, by decide, by decide⟩
    ⟨by decide, by decide, by decide, by decide⟩

end Tape
