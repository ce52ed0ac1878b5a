import Tape.Book.Alike
import Tape.Store.Timeline

/-!
# Replay across restarts of the host

A monotonic clock starts over with its host, so `replay` takes the changes in
the order of the wall clock first and starts a new stretch wherever the
monotonic clock falls by more than ten minutes. `Boots` is what must be true of
the clocks for the stretches to be the boots: the wall clock puts the boots one
after the other, steps of it inside a boot stay under ten minutes, and the
first reading of a boot is more than ten minutes below what the boot before it
had reached. Then no step inside a boot is taken for a restart and no restart
is missed (`keyed_boots`).

Snapshots are put together again from rows that share ticker, wall receipt,
connection, subscription and sequence number. The monotonic receipt is not
among the columns compared, so two snapshots that agree in the others come back
as one. Where no two do, the replay is the true order of the changes and leaves
every book as it leaves them (`replay_across_boots`).
-/

namespace Tape

theorem rel_imp {α β : Type*} {R S : α → β → Prop} (himp : ∀ a b, R a b → S a b) {o : Option α}
    {o' : Option β} (h : Option.Rel R o o') : Option.Rel S o o' := by
  cases h with
  | none => exact .none
  | some hab => exact .some (himp _ _ hab)

/-! ## Replays of like events -/

namespace ReplayState

/-- Equal but for the order in which levels were written. -/
structure Alike (r r' : ReplayState) : Prop where
  books : ∀ t, Option.Rel Book.Alike (r.books.get? t) (r'.books.get? t)
  last : ∀ t, r.lastSubscription.get? t = r'.lastSubscription.get? t

theorem Alike.refl (r : ReplayState) : r.Alike r where
  books t := by
    cases r.books.get? t with
    | none => exact .none
    | some b => exact .some (.refl b)
  last _ := rfl

variable {r r' : ReplayState}

theorem Alike.change (h : r.Alike r') (ticker : Ticker) (subscription : Int × Sid)
    {op op' : Book → Book} (hop : ∀ a b : Book, a.Alike b → (op a).Alike (op' b)) :
    (r.change ticker subscription op).Alike (r'.change ticker subscription op') where
  books t := by
    have hheld : (r.books.getD ticker (Book.new ticker)).Alike
        (r'.books.getD ticker (Book.new ticker)) := by
      have hbooks := h.books ticker
      rw [Dict.getD, Dict.getD]
      generalize r.books.get? ticker = o at hbooks
      generalize r'.books.get? ticker = o' at hbooks
      cases hbooks with
      | none => exact .refl _
      | some hab => exact hab
    rw [ReplayState.change, ReplayState.change, Dict.get?_set, Dict.get?_set]
    split
    · exact .some (hop _ _ hheld)
    · exact h.books t
  last t := by
    rw [ReplayState.change, ReplayState.change, Dict.get?_set, Dict.get?_set, h.last]

theorem Alike.apply (h : r.Alike r') {e e' : Stamped} (he : e.change.Alike e'.change) :
    (r.apply e).Alike (r'.apply e') := by
  rw [ReplayState.apply, ReplayState.apply]
  generalize e.change = c at he
  generalize e'.change = c' at he
  cases he with
  | refl =>
      cases c with
      | gap connId sid =>
          refine ⟨fun t => ?_, h.last⟩
          have hbooks := h.books t
          simp only [Dict.get?_mapValues, h.last]
          generalize r.books.get? t = o at hbooks
          generalize r'.books.get? t = o' at hbooks
          cases hbooks with
          | none => exact .none
          | some hab =>
              refine .some ?_
              split
              · exact hab.markStale
              · exact hab
      | delta ticker connId sid side price x tsMs =>
          exact h.change ticker _ fun a b hab => hab.applyDelta side price x tsMs
      | snapshot ticker connId sid bids asks =>
          exact h.change ticker _ fun a b hab =>
            hab.applySnapshot (.refl bids) (.refl asks) none
  | @snapshot ticker connId sid bids bids' asks asks' hbids hasks =>
      exact h.change ticker _ fun a b hab => hab.applySnapshot hbids hasks none

theorem Alike.run {events timeline : List Stamped}
    (h : List.Forall₂ Stamped.Alike events timeline) (hr : r.Alike r') :
    (events.foldl ReplayState.apply r).Alike (timeline.foldl ReplayState.apply r') := by
  induction h generalizing r r' with
  | nil => exact hr
  | cons hab _ ih => exact ih (hr.apply hab.change)

end ReplayState

/-! ## What is recorded -/

/-- What the recorder handled with one frame: a change of a book, a gap in the
numbers of a subscription, or the gap and then the change. -/
inductive Handled where
  | change (e : BookEvent)
  | gap (receipt : Receipt) (sid : Sid)
  | gapAndChange (sid : Sid) (e : BookEvent)

namespace Handled

/-- When and where it was received. -/
def receipt : Handled → Receipt
  | .change e => e.receipt
  | .gap receipt _ => receipt
  | .gapAndChange _ e => e.receipt

/-- Its monotonic receipt. -/
def mono (x : Handled) : Int := x.receipt.recvMonoNs

/-- Its wall receipt. -/
def wall (x : Handled) : Int := x.receipt.recvWallNs

/-- The change it brought, if it did. -/
def event : Handled → Option BookEvent
  | .change e => some e
  | .gap _ _ => none
  | .gapAndChange _ e => some e

/-- The row of a gap; it shares the receipt of the frame that revealed it. -/
def gapRow (receipt : Receipt) (sid : Sid) : GapRow :=
  ⟨receipt.connId, sid, receipt.recvWallNs, receipt.recvMonoNs⟩

/-- The gap row it leaves. -/
def gapRows : Handled → List GapRow
  | .change _ => []
  | .gap receipt sid => [gapRow receipt sid]
  | .gapAndChange sid e => [gapRow e.receipt sid]

/-- The delta row it leaves. -/
def deltaRows (x : Handled) : List DeltaRow :=
  match x.event with
  | some (.delta e) => [DeltaRow.ofDelta e]
  | _ => []

/-- The snapshot it brought, if it did. -/
def images (x : Handled) : List BookSnapshot :=
  match x.event with
  | some (.snapshot e) => [e]
  | _ => []

/-- The snapshot rows it leaves. -/
def snapshotRows (x : Handled) : List SnapshotRow := x.images.flatMap SnapshotRow.ofSnapshot

/-- The gap, just before the change of its frame. -/
def stamped (x : Handled) : List Stamped :=
  x.gapRows.map GapRow.event ++ (x.event.map BookEvent.stamped).toList

theorem mem_stamped {x : Handled} {e : Stamped} (h : e ∈ x.stamped) :
    e.recvMonoNs = x.mono ∧ e.recvWallNs = x.wall := by
  rw [stamped, List.mem_append] at h
  rcases h with h | h
  · cases x with
    | change e => cases h
    | gap receipt sid =>
        obtain rfl := List.mem_singleton.mp h
        exact ⟨rfl, rfl⟩
    | gapAndChange sid e =>
        obtain rfl := List.mem_singleton.mp h
        exact ⟨rfl, rfl⟩
  · rw [Option.mem_toList, Option.map_eq_some_iff] at h
    obtain ⟨b, hb, rfl⟩ := h
    obtain ⟨hwall, hmono, -⟩ := b.stamped_times
    cases x with
    | change e =>
        obtain rfl := Option.some.inj hb
        exact ⟨hmono, hwall⟩
    | gap receipt sid => cases hb
    | gapAndChange sid e =>
        obtain rfl := Option.some.inj hb
        exact ⟨hmono, hwall⟩

theorem exists_stamped (x : Handled) : ∃ e, e ∈ x.stamped := by
  cases x with
  | change e => exact ⟨_, List.mem_singleton_self _⟩
  | gap receipt sid => exact ⟨_, List.mem_singleton_self _⟩
  | gapAndChange sid e => exact ⟨_, List.mem_cons_self⟩

theorem stamped_before (x : Handled) : x.stamped.Pairwise Stamped.Before := by
  cases x with
  | change e => exact List.pairwise_singleton _ _
  | gap receipt sid => exact List.pairwise_singleton _ _
  | gapAndChange sid e =>
      refine List.pairwise_pair.mpr (.inr ?_)
      obtain ⟨-, hmono, horder⟩ := e.stamped_times
      rw [hmono, horder]
      exact ⟨rfl, Int.zero_lt_one⟩

/-- The rows of what was handled, as events, one table after the other. -/
theorem tableEvents_handled (xs : List Handled) :
    (tableEvents (xs.flatMap deltaRows) (xs.flatMap images) (xs.flatMap gapRows)).Perm
      (xs.flatMap stamped) := by
  have hchange : ∀ x : Handled, x.deltaRows.map DeltaRow.event ++
      x.images.map (fun e => (BookEvent.snapshot e).stamped) =
        (x.event.map BookEvent.stamped).toList := by
    intro x
    rw [deltaRows, images]
    rcases x.event with _ | ⟨e | e⟩
    · rfl
    · rfl
    · rfl
  rw [tableEvents, List.map_flatMap, List.map_flatMap, List.map_flatMap]
  refine List.perm_append_comm.trans (List.Perm.trans ?_ (List.flatMap_append_perm xs _ _))
  refine (List.Perm.refl _).append ?_
  refine (List.flatMap_append_perm xs _ _).trans (List.Perm.of_eq ?_)
  exact List.flatMap_congr fun x _ => hchange x

end Handled

/-- A sequence of changes in the order in which they were handled, by boots of
the recording host. A boot that recorded nothing is not among them. -/
structure Boots (boots : List (List Handled)) : Prop where
  nonempty : ∀ b ∈ boots, b ≠ []
  mono : ∀ b ∈ boots, b.Pairwise fun x y => x.mono < y.mono
  /-- Every wall receipt is before every wall receipt of the next boot. -/
  wall : boots.IsChain fun b c => ∀ x ∈ b, ∀ y ∈ c, x.wall < y.wall
  /-- The wall clock puts no reading after one ten minutes later. -/
  steps : ∀ b ∈ boots, ∀ x ∈ b, ∀ y ∈ b, y.wall < x.wall → y.mono < x.mono + monoRestartNs
  /-- What comes first in wall order is more than ten minutes below the highest
  reading of the boot before. -/
  restarts : boots.IsChain fun b c => ∀ y ∈ c, (∀ z ∈ c, y.wall ≤ z.wall) →
    ∃ x ∈ b, y.mono + monoRestartNs < x.mono

/-- Where two readings of a boot share their wall receipt, either may be taken
first, and they are no more than ten minutes apart. -/
def TiesClose (boots : List (List Handled)) : Prop :=
  ∀ b ∈ boots, ∀ x ∈ b, ∀ y ∈ b, x.wall = y.wall → y.mono ≤ x.mono + monoRestartNs

instance (boots : List (List Handled)) : Decidable (TiesClose boots) :=
  inferInstanceAs (Decidable (∀ b ∈ boots, ∀ x ∈ b, ∀ y ∈ b,
    x.wall = y.wall → y.mono ≤ x.mono + monoRestartNs))

/-- No two snapshots share ticker, wall receipt, connection, subscription and
sequence number. -/
def ImagesDistinct (boots : List (List Handled)) : Prop :=
  ((boots.flatten.flatMap Handled.images).map imageKey).Nodup

instance (boots : List (List Handled)) : Decidable (ImagesDistinct boots) :=
  inferInstanceAs (Decidable ((boots.flatten.flatMap Handled.images).map imageKey).Nodup)

/-- The events in true order, each gap just before the change of its frame. -/
def trueOrder (boots : List (List Handled)) : List Stamped :=
  boots.flatten.flatMap Handled.stamped

namespace Boots

variable {b : List Handled} {rest : List (List Handled)}

theorem tail (h : Boots (b :: rest)) : Boots rest where
  nonempty c hc := h.nonempty c (List.mem_cons_of_mem _ hc)
  mono c hc := h.mono c (List.mem_cons_of_mem _ hc)
  wall := List.isChain_of_isChain_cons h.wall
  steps c hc := h.steps c (List.mem_cons_of_mem _ hc)
  restarts := List.isChain_of_isChain_cons h.restarts

/-- The first boot is before all the others on the wall clock. -/
theorem wall_lt (h : Boots (b :: rest)) :
    ∀ x ∈ b, ∀ c ∈ rest, ∀ y ∈ c, x.wall < y.wall := by
  induction rest generalizing b with
  | nil => exact fun x _ c hc => by cases hc
  | cons c rest ih =>
      intro x hx d hd y hy
      have hnext := (List.isChain_cons_cons.mp h.wall).1
      rcases List.mem_cons.mp hd with rfl | hd
      · exact hnext x hx y hy
      · obtain ⟨z, hz⟩ := List.exists_mem_of_ne_nil c (h.nonempty c (by simp))
        exact lt_trans (hnext x hx z hz) (ih h.tail z hz d hd y hy)

/-- The events of a boot, in the order of its monotonic clock. -/
theorem stamped_before (h : Boots (b :: rest)) :
    (b.flatMap Handled.stamped).Pairwise Stamped.Before := by
  rw [List.pairwise_flatMap]
  refine ⟨fun x _ => x.stamped_before, ?_⟩
  refine (h.mono b List.mem_cons_self).imp fun {x y} hxy e he e' he' => .inl ?_
  rw [(Handled.mem_stamped he).1, (Handled.mem_stamped he').1]
  exact hxy

end Boots

/-! ## Stretches -/

/-- As long as no reading is far below one before it, the stretch goes on. -/
theorem keyed_stretch (restarts : Int) (later : List (Stamped × Nat)) {l : List (Stamped × Nat)} :
    ∀ {high : Int}, (∀ e ∈ l, high ≤ e.1.recvMonoNs + monoRestartNs) →
      (l.Pairwise fun a b => a.1.recvMonoNs ≤ b.1.recvMonoNs + monoRestartNs) →
      ∃ high', high ≤ high' ∧ (∀ e ∈ l, e.1.recvMonoNs ≤ high') ∧
        keyed restarts (some high) (l ++ later) =
          l.map (fun e => (replayKey restarts e.1 e.2, e.1)) ++
            keyed restarts (some high') later := by
  induction l with
  | nil => exact fun {high} _ _ => ⟨high, le_refl _, (fun e he => by cases he), rfl⟩
  | cons first l ih =>
      intro high hhigh hsteps
      obtain ⟨e, index⟩ := first
      obtain ⟨hfirst, hsteps⟩ := List.pairwise_cons.mp hsteps
      have he : high ≤ e.recvMonoNs + monoRestartNs := hhigh _ List.mem_cons_self
      obtain ⟨high', hle, hall, hkeyed⟩ := @ih (max high e.recvMonoNs)
        (fun e' he' => max_le (hhigh e' (List.mem_cons_of_mem _ he')) (hfirst e' he')) hsteps
      refine ⟨high', le_trans (le_max_left _ _) hle, fun e' he' => ?_, ?_⟩
      · rcases List.mem_cons.mp he' with rfl | he'
        · exact le_trans (le_max_right _ _) hle
        · exact hall e' he'
      · rw [List.cons_append, keyed, if_neg (by omega), hkeyed]
        rfl

/-- Restarts are only ever added. -/
theorem le_of_mem_keyed {l : List (Stamped × Nat)} :
    ∀ {restarts : Int} {highest : Option Int}, ∀ k ∈ keyed restarts highest l,
      restarts ≤ (ofLex k.1).1 := by
  induction l with
  | nil => exact fun k hk => by cases hk
  | cons first l ih =>
      intro restarts highest k hk
      obtain ⟨e, index⟩ := first
      cases highest with
      | none =>
          rw [keyed] at hk
          rcases List.mem_cons.mp hk with rfl | hk
          · exact le_refl _
          · exact ih k hk
      | some high =>
          rw [keyed] at hk
          split at hk
          · rcases List.mem_cons.mp hk with rfl | hk
            · exact (Int.lt_succ _).le
            · exact le_trans (Int.lt_succ _).le (ih k hk)
          · rcases List.mem_cons.mp hk with rfl | hk
            · exact le_refl _
            · exact ih k hk

/-- The reading is far below the highest so far. -/
def Restarts (highest : Option Int) (e : Stamped) : Prop :=
  ∀ high, highest = some high → e.recvMonoNs + monoRestartNs < high

theorem lt_of_mem_keyed {restarts high : Int} {l : List (Stamped × Nat)}
    (hfirst : ∀ e ∈ l.head?, Restarts (some high) e.1) :
    ∀ k ∈ keyed restarts (some high) l, restarts < (ofLex k.1).1 := by
  cases l with
  | nil => exact fun k hk => by cases hk
  | cons first l =>
      intro k hk
      obtain ⟨e, index⟩ := first
      have he : e.recvMonoNs + monoRestartNs < high := hfirst _ rfl high rfl
      rw [keyed, if_pos (by omega)] at hk
      rcases List.mem_cons.mp hk with rfl | hk
      · exact Int.lt_succ _
      · exact lt_of_lt_of_le (Int.lt_succ _) (le_of_mem_keyed k hk)

/-- A boot is one stretch. -/
theorem keyed_boot (restarts : Int) {highest : Option Int} {l : List (Stamped × Nat)}
    (later : List (Stamped × Nat)) (hne : l ≠ []) (hfirst : ∀ e ∈ l.head?, Restarts highest e.1)
    (hsteps : l.Pairwise fun a b => a.1.recvMonoNs ≤ b.1.recvMonoNs + monoRestartNs) :
    ∃ restarts' high, (∀ e ∈ l, e.1.recvMonoNs ≤ high) ∧
      keyed restarts highest (l ++ later) =
        l.map (fun e => (replayKey restarts' e.1 e.2, e.1)) ++
          keyed restarts' (some high) later := by
  cases l with
  | nil => exact absurd rfl hne
  | cons first l =>
      obtain ⟨e, index⟩ := first
      obtain ⟨hfar, hsteps⟩ := List.pairwise_cons.mp hsteps
      have hrun : ∀ restarts', ∃ high, (∀ e' ∈ (e, index) :: l, e'.1.recvMonoNs ≤ high) ∧
          (replayKey restarts' e index, e) :: keyed restarts' (some e.recvMonoNs) (l ++ later) =
            ((e, index) :: l).map (fun e => (replayKey restarts' e.1 e.2, e.1)) ++
              keyed restarts' (some high) later := by
        intro restarts'
        obtain ⟨high, hle, hall, hkeyed⟩ := keyed_stretch restarts' later hfar hsteps
        refine ⟨high, fun e' he' => ?_, by rw [hkeyed]; rfl⟩
        rcases List.mem_cons.mp he' with rfl | he'
        · exact hle
        · exact hall e' he'
      cases highest with
      | none =>
          obtain ⟨high, hall, hkeyed⟩ := hrun restarts
          exact ⟨restarts, high, hall, hkeyed⟩
      | some high₀ =>
          have he : e.recvMonoNs + monoRestartNs < high₀ := hfirst _ rfl high₀ rfl
          obtain ⟨high, hall, hkeyed⟩ := hrun (restarts + 1)
          refine ⟨restarts + 1, high, hall, ?_⟩
          rw [List.cons_append, keyed, if_pos (by omega)]
          exact hkeyed

/-! ## Boots and stretches -/

theorem filter_append_filter {α : Type*} {p : α → Bool} {l : List α}
    (h : l.Pairwise fun a b => p b = true → p a = true) :
    l = l.filter p ++ l.filter fun a => !p a := by
  induction l with
  | nil => rfl
  | cons a l ih =>
      obtain ⟨ha, hl⟩ := List.pairwise_cons.mp h
      cases hp : p a with
      | true =>
          rw [List.filter_cons_of_pos hp, List.filter_cons_of_neg (by simp [hp]),
            List.cons_append, ← ih hl]
      | false =>
          have hnone : l.filter p = [] := List.filter_eq_nil_iff.mpr fun b hb hpb => by
            rw [ha b hb hpb] at hp
            cases hp
          rw [List.filter_cons_of_neg (by simp [hp]), List.filter_cons_of_pos (by simp [hp]),
            hnone, List.nil_append, List.filter_eq_self.mpr]
          intro b hb
          cases hpb : p b with
          | true => exact absurd hpb (List.filter_eq_nil_iff.mp hnone b hb)
          | false => rfl

theorem Mixed.filter {events timeline : List Stamped} (h : Mixed events timeline)
    {p : Stamped → Bool} (hp : ∀ a b : Stamped, a.Alike b → p a = p b) :
    Mixed (events.filter p) (timeline.filter p) := by
  obtain ⟨recorded, halike, hperm⟩ := h
  refine ⟨recorded.filter p, List.rel_filter ?_ halike, hperm.filter p⟩
  intro a b hab
  exact iff_of_eq (congrArg (· = true) (hp a b hab))

/-- Every event that was handled has come back. -/
theorem Mixed.exists_of_handled {events timeline : List Stamped} (h : Mixed events timeline) :
    ∀ e ∈ timeline, ∃ e' ∈ events, e'.Alike e := by
  obtain ⟨recorded, halike, hperm⟩ := h
  intro e he
  exact Sorted.exists_of_mem halike.flip e (hperm.mem_iff.mpr he)

theorem Mixed.of_nil {events : List Stamped} (h : Mixed events []) : events = [] := by
  obtain ⟨recorded, halike, hperm⟩ := h
  rw [List.perm_nil.mp hperm] at halike
  exact List.forall₂_nil_right_iff.mp halike

/-- Nothing is received later than in this boot. -/
def upTo (b : List Handled) (e : Stamped) : Bool := b.any fun x => e.recvWallNs ≤ x.wall

theorem upTo_iff {b : List Handled} {e : Stamped} :
    upTo b e = true ↔ ∃ x ∈ b, e.recvWallNs ≤ x.wall := by
  simp [upTo]

/-- The first boot's events, apart from those of the boots after it. -/
theorem Boots.split {b : List Handled} {rest : List (List Handled)} (h : Boots (b :: rest))
    {l : List (Stamped × Nat)} (hsorted : l.Pairwise fun x y => wallKey x ≤ wallKey y)
    (hmixed : Mixed (l.map Prod.fst) (trueOrder (b :: rest))) :
    ∃ l₁ l₂, l = l₁ ++ l₂ ∧ Mixed (l₁.map Prod.fst) (b.flatMap Handled.stamped) ∧
      Mixed (l₂.map Prod.fst) (trueOrder rest) := by
  have htrue : trueOrder (b :: rest) = b.flatMap Handled.stamped ++ trueOrder rest := by
    rw [trueOrder, List.flatten_cons, List.flatMap_append, trueOrder]
  have hfirst : ∀ e ∈ b.flatMap Handled.stamped, upTo b e = true := by
    intro e he
    obtain ⟨x, hx, hex⟩ := List.mem_flatMap.mp he
    exact upTo_iff.mpr ⟨x, hx, (Handled.mem_stamped hex).2.le⟩
  have hrest : ∀ e ∈ trueOrder rest, upTo b e = false := by
    intro e he
    obtain ⟨y, hy, hey⟩ := List.mem_flatMap.mp he
    obtain ⟨c, hc, hyc⟩ := List.mem_flatten.mp hy
    rw [Bool.eq_false_iff, Ne, upTo_iff]
    rintro ⟨x, hx, hle⟩
    rw [(Handled.mem_stamped hey).2] at hle
    exact absurd (h.wall_lt x hx c hc y hyc) hle.not_gt
  have hdown : l.Pairwise fun x y => upTo b y.1 = true → upTo b x.1 = true := by
    refine hsorted.imp fun {x y} hxy hy => ?_
    obtain ⟨z, hz, hle⟩ := upTo_iff.mp hy
    refine upTo_iff.mpr ⟨z, hz, le_trans ?_ hle⟩
    rcases Prod.Lex.le_iff.mp hxy with hlt | ⟨heq, -⟩
    · exact hlt.le
    · exact heq.le
  have hlike : ∀ x y : Stamped, x.Alike y → upTo b x = upTo b y := by
    intro x y hxy
    rw [upTo, upTo, hxy.wall]
  have hkept : (trueOrder (b :: rest)).filter (upTo b) = b.flatMap Handled.stamped := by
    have hnone : (trueOrder rest).filter (upTo b) = [] :=
      List.filter_eq_nil_iff.mpr fun e he => by simp [hrest e he]
    rw [htrue, List.filter_append, List.filter_eq_self.mpr hfirst, hnone, List.append_nil]
  have hleft : (trueOrder (b :: rest)).filter (fun e => !upTo b e) = trueOrder rest := by
    have hnone : (b.flatMap Handled.stamped).filter (fun e => !upTo b e) = [] :=
      List.filter_eq_nil_iff.mpr fun e he => by simp [hfirst e he]
    rw [htrue, List.filter_append, hnone, List.nil_append, List.filter_eq_self.mpr]
    exact fun e he => by rw [hrest e he]; rfl
  refine ⟨_, _, filter_append_filter hdown, ?_, ?_⟩
  · have hfilter := hmixed.filter (p := upTo b) hlike
    rw [hkept, List.filter_map] at hfilter
    exact hfilter
  · have hfilter := hmixed.filter (p := fun e => !upTo b e) fun x y hxy => by rw [hlike x y hxy]
    rw [hleft, List.filter_map] at hfilter
    exact hfilter

/-- The events of a boot, in wall order: steps of the clock are no restarts. -/
theorem Boots.within {b : List Handled} {rest : List (List Handled)} (h : Boots (b :: rest))
    (hties : TiesClose (b :: rest)) {l : List (Stamped × Nat)}
    (hsorted : l.Pairwise fun x y => wallKey x ≤ wallKey y)
    (hmixed : Mixed (l.map Prod.fst) (b.flatMap Handled.stamped)) :
    l.Pairwise fun x y => x.1.recvMonoNs ≤ y.1.recvMonoNs + monoRestartNs := by
  have hmem : ∀ e ∈ l, ∃ x ∈ b, e.1.recvMonoNs = x.mono ∧ e.1.recvWallNs = x.wall := by
    intro e he
    obtain ⟨e', he', hee⟩ := hmixed.exists_of_mem e.1 (List.mem_map_of_mem he)
    obtain ⟨x, hx, hex⟩ := List.mem_flatMap.mp he'
    obtain ⟨hmono, hwall⟩ := Handled.mem_stamped hex
    exact ⟨x, hx, hee.mono.trans hmono, hee.wall.trans hwall⟩
  refine hsorted.imp_of_mem fun {e e'} he he' hee => ?_
  obtain ⟨x, hx, hmono, hwall⟩ := hmem e he
  obtain ⟨y, hy, hmono', hwall'⟩ := hmem e' he'
  rw [hmono, hmono']
  rcases Prod.Lex.le_iff.mp hee with hlt | ⟨heq, -⟩
  · refine (h.steps b List.mem_cons_self y hy x hx ?_).le
    rw [← hwall, ← hwall']
    exact hlt
  · refine hties b List.mem_cons_self y hy x hx ?_
    rw [← hwall, ← hwall']
    exact heq.symm

/-- What comes first among a boot's events comes first in its wall order. -/
theorem first_in_wall {b : List Handled} {e : Stamped × Nat} {l : List (Stamped × Nat)}
    (hsorted : (e :: l).Pairwise fun x y => wallKey x ≤ wallKey y)
    (hmixed : Mixed ((e :: l).map Prod.fst) (b.flatMap Handled.stamped)) :
    ∃ x ∈ b, e.1.recvMonoNs = x.mono ∧ ∀ z ∈ b, x.wall ≤ z.wall := by
  obtain ⟨e', he', hee⟩ := hmixed.exists_of_mem e.1 List.mem_cons_self
  obtain ⟨x, hx, hex⟩ := List.mem_flatMap.mp he'
  obtain ⟨hmono, hwall⟩ := Handled.mem_stamped hex
  refine ⟨x, hx, hee.mono.trans hmono, fun z hz => ?_⟩
  obtain ⟨ez, hez⟩ := z.exists_stamped
  obtain ⟨e₁, he₁, hlike⟩ := hmixed.exists_of_handled ez (List.mem_flatMap.mpr ⟨z, hz, hez⟩)
  obtain ⟨⟨_, index⟩, hmem, rfl⟩ := List.mem_map.mp he₁
  rw [← hwall, ← (Handled.mem_stamped hez).2, ← hee.wall, ← hlike.wall]
  rcases List.mem_cons.mp hmem with rfl | hmem
  · exact le_refl _
  · rcases Prod.Lex.le_iff.mp ((List.pairwise_cons.mp hsorted).1 _ hmem) with hlt | ⟨heq, -⟩
    · exact hlt.le
    · exact heq.le

/-- What a first reading is below, and how far. -/
def FirstBelow (highest : Option Int) (boots : List (List Handled)) : Prop :=
  ∀ b ∈ boots.head?, ∀ y ∈ b, (∀ z ∈ b, y.wall ≤ z.wall) →
    ∀ high, highest = some high → y.mono + monoRestartNs < high

/-- Each boot is one stretch, so the stretches, each sorted by its monotonic
clock, are the changes as they were handled. The induction is on the boots; a
stretch hands on the highest reading of its boot. -/
theorem keyed_boots {boots : List (List Handled)} (h : Boots boots) (hties : TiesClose boots) :
    ∀ {restarts : Int} {highest : Option Int} {l : List (Stamped × Nat)},
      l.Pairwise (fun x y => wallKey x ≤ wallKey y) →
      Mixed (l.map Prod.fst) (trueOrder boots) → FirstBelow highest boots →
      List.Forall₂ Stamped.Alike
          ((Sorted.sortOn Prod.fst (keyed restarts highest l)).map Prod.snd)
          (trueOrder boots) ∧
        ∀ high, highest = some high → ∀ k ∈ keyed restarts highest l,
          restarts < (ofLex k.1).1 := by
  induction boots with
  | nil =>
      intro restarts highest l _ hmixed _
      rw [List.map_eq_nil_iff.mp hmixed.of_nil]
      exact ⟨.nil, fun _ _ k hk => by cases hk⟩
  | cons b rest ih =>
      intro restarts highest l hsorted hmixed hbelow
      obtain ⟨l₁, l₂, rfl, hmixed₁, hmixed₂⟩ := h.split hsorted hmixed
      obtain ⟨hsorted₁, hsorted₂, -⟩ := List.pairwise_append.mp hsorted
      have hne : l₁ ≠ [] := by
        rintro rfl
        obtain ⟨x, hx⟩ := List.exists_mem_of_ne_nil b (h.nonempty b List.mem_cons_self)
        obtain ⟨e, he⟩ := x.exists_stamped
        obtain ⟨e', he', -⟩ := hmixed₁.exists_of_handled e (List.mem_flatMap.mpr ⟨x, hx, he⟩)
        cases he'
      have hfirst : ∀ e ∈ l₁.head?, Restarts highest e.1 := by
        intro e he high hhigh
        obtain ⟨l', rfl⟩ : ∃ l', l₁ = e :: l' := List.head?_eq_some_iff.mp he
        obtain ⟨x, hx, hmono, hwall⟩ := first_in_wall hsorted₁ hmixed₁
        rw [hmono]
        exact hbelow b rfl x hx hwall high hhigh
      obtain ⟨restarts', high, hall, hkeyed⟩ :=
        keyed_boot restarts l₂ hne hfirst (h.within hties hsorted₁ hmixed₁)
      have hbelow' : FirstBelow (some high) rest := by
        intro c hc y hy hwall high' hhigh
        obtain rfl := Option.some.inj hhigh
        obtain ⟨rest', rfl⟩ : ∃ rest', rest = c :: rest' := List.head?_eq_some_iff.mp hc
        obtain ⟨x, hx, hlt⟩ := (List.isChain_cons_cons.mp h.restarts).1 y hy hwall
        obtain ⟨e, he⟩ := x.exists_stamped
        obtain ⟨e₁, he₁, hlike⟩ :=
          hmixed₁.exists_of_handled e (List.mem_flatMap.mpr ⟨x, hx, he⟩)
        obtain ⟨⟨_, index⟩, hmem, rfl⟩ := List.mem_map.mp he₁
        have hle := hall _ hmem
        rw [hlike.mono, (Handled.mem_stamped he).1] at hle
        exact lt_of_lt_of_le hlt hle
      obtain ⟨hrest, hrestarted⟩ := @ih h.tail (fun c hc => hties c (List.mem_cons_of_mem _ hc))
        restarts' _ _ hsorted₂ hmixed₂ hbelow'
      constructor
      · have hparted : ∀ k ∈ l₁.map (fun e => (replayKey restarts' e.1 e.2, e.1)),
            ∀ k' ∈ keyed restarts' (some high) l₂, k.1 ≤ k'.1 := by
          intro k hk k' hk'
          obtain ⟨e, -, rfl⟩ := List.mem_map.mp hk
          exact Prod.Lex.le_iff.mpr (.inl (hrestarted high rfl k' hk'))
        obtain ⟨hperm, hupto⟩ := sorted_stretch restarts' l₁
        rw [hkeyed, Sorted.sortOn_append hparted, List.map_append, trueOrder, List.flatten_cons,
          List.flatMap_append]
        exact List.rel_append ((hmixed₁.perm hperm).alike hupto h.stamped_before) hrest
      · rintro high₀ rfl
        refine lt_of_mem_keyed fun e he => hfirst e ?_
        rwa [List.head?_append_of_ne_nil _ hne] at he

/-- The replay takes up the changes of the tables as they were handled. -/
theorem inOrder_boots {boots : List (List Handled)} (h : Boots boots) (hties : TiesClose boots)
    {events : List Stamped} (hmixed : Mixed events (trueOrder boots)) :
    List.Forall₂ Stamped.Alike (inOrder events) (trueOrder boots) := by
  have hwall := Sorted.sortOn_perm wallKey events.zipIdx
  have hmap : events.zipIdx.map Prod.fst = events := List.zipIdx_map_fst 0 events
  have hperm := (hwall.map Prod.fst).trans (List.Perm.of_eq hmap)
  exact (keyed_boots h hties (Sorted.sortOn_pairwise wallKey events.zipIdx)
    (hmixed.perm hperm) (fun _ _ _ _ _ _ hnone => by cases hnone)).1

theorem keyed_length {l : List (Stamped × Nat)} : ∀ {restarts : Int} {highest : Option Int},
    (keyed restarts highest l).length = l.length := by
  induction l with
  | nil => exact rfl
  | cons first l ih =>
      intro restarts highest
      obtain ⟨e, index⟩ := first
      cases highest with
      | none => rw [keyed, List.length_cons, ih, List.length_cons]
      | some high =>
          rw [keyed]
          split
          · rw [List.length_cons, ih, List.length_cons]
          · rw [List.length_cons, ih, List.length_cons]

/-- No event is lost or doubled. -/
theorem inOrder_length (events : List Stamped) : (inOrder events).length = events.length := by
  rw [inOrder, List.length_map, (Sorted.sortOn_perm _ _).length_eq, keyed_length,
    (Sorted.sortOn_perm _ _).length_eq, List.length_zipIdx]

/-! ## The replay of the tables -/

/-- The books after the changes, applied in true order. -/
def appliedInOrder (books : Dict Ticker Book) (boots : List (List Handled)) :
    Dict Ticker Book :=
  ((trueOrder boots).foldl ReplayState.apply ⟨books, ∅⟩).books

/-- The replay takes up the changes exactly as they were handled if and only if
no two snapshots share the columns by which their rows are put together; and
then it leaves every book as they do in true order. -/
theorem replay_across_boots (boots : List (List Handled)) (h : Boots boots)
    (hties : TiesClose boots) (books : Dict Ticker Book) (deltas : List DeltaRow)
    (snapshots : List SnapshotRow) (gaps : List GapRow)
    (hdeltas : deltas.Perm (boots.flatten.flatMap Handled.deltaRows))
    (hsnapshots : snapshots.Perm (boots.flatten.flatMap Handled.snapshotRows))
    (hgaps : gaps.Perm (boots.flatten.flatMap Handled.gapRows)) :
    (List.Forall₂ Stamped.Alike
        (inOrder (deltaEvents deltas ++ snapshotEvents snapshots ++ gapEvents gaps))
        (trueOrder boots) ↔ ImagesDistinct boots) ∧
      (ImagesDistinct boots → ∀ t, Option.Rel Book.SameContents
        ((replay books deltas snapshots gaps).get? t) ((appliedInOrder books boots).get? t)) := by
  have htimeline := Handled.tableEvents_handled boots.flatten
  have hrows : snapshots.Perm
      ((boots.flatten.flatMap Handled.images).flatMap SnapshotRow.ofSnapshot) := by
    rw [List.flatMap_assoc]
    exact hsnapshots
  have horder : ImagesDistinct boots → List.Forall₂ Stamped.Alike
      (inOrder (deltaEvents deltas ++ snapshotEvents snapshots ++ gapEvents gaps))
      (trueOrder boots) := fun hkeys =>
    inOrder_boots h hties (tables_mixed htimeline hdeltas hrows hgaps hkeys)
  refine ⟨⟨fun halike => ?_, horder⟩, fun hkeys t => ?_⟩
  · -- As many events as there were changes, so as many as there were snapshots.
    refine nodup_of_snapshotEvents hrows ?_
    have hlength := halike.length_eq
    rw [inOrder_length, trueOrder, ← htimeline.length_eq, tableEvents] at hlength
    simp only [List.length_append, List.length_map, deltaEvents, gapEvents, hdeltas.length_eq,
      hgaps.length_eq] at hlength
    omega
  · have hbooks := (ReplayState.Alike.run (horder hkeys) (.refl ⟨books, ∅⟩)).books t
    exact rel_imp (fun _ _ hab => hab.sameContents) hbooks

/-! A market over a restart of the host, and one over a step of its clock. -/

/-- A snapshot of one bid, as the first message of a subscription. -/
def oneBid (monoNs wallNs price : Int) : Handled :=
  .change (.snapshot ⟨"KXA", none, ⟨0, monoNs, wallNs⟩, 1, some 1, [⟨price, 100⟩], []⟩)

/-- A frame that skips a number, with a delta. -/
def lateBid (monoNs wallNs price : Int) : Handled :=
  .gapAndChange 1
    (.delta ⟨"KXA", none, ⟨0, monoNs, wallNs⟩, 1, some 3, .bid, price, 100, none⟩)

/-- The second frame is stamped earlier than the first, and the third comes
after a restart. -/
def restartedBoots : List (List Handled) :=
  [[oneBid 700000000000 3000 4000, lateBid 700000000001 2000 4100], [oneBid 0 4000 4200]]

theorem restarted_replay : Boots restartedBoots ∧ ∀ t, Option.Rel Book.SameContents
    ((replay ∅ (restartedBoots.flatten.flatMap Handled.deltaRows)
      (restartedBoots.flatten.flatMap Handled.snapshotRows)
      (restartedBoots.flatten.flatMap Handled.gapRows)).get? t)
    ((appliedInOrder ∅ restartedBoots).get? t) := by
  have hboots : Boots restartedBoots := by
    constructor <;> decide
  exact ⟨hboots, (replay_across_boots restartedBoots hboots (by decide) ∅ _ _ _ (.refl _)
    (.refl _) (.refl _)).2 (by decide)⟩

/-- The wall clock steps back, the connection is made again, and its first
snapshot is stamped to the nanosecond like the first one before. -/
def repeatedBoots : List (List Handled) :=
  [[oneBid 1000000000 5000 4000, oneBid 2000000000 5000 4100]]

/-- The two snapshots come back as one, with the levels of both. -/
theorem repeated_receipt_merged : Boots repeatedBoots ∧ TiesClose repeatedBoots ∧
    ¬ ∀ t, Option.Rel Book.SameContents
      ((replay ∅ (repeatedBoots.flatten.flatMap Handled.deltaRows)
        (repeatedBoots.flatten.flatMap Handled.snapshotRows)
        (repeatedBoots.flatten.flatMap Handled.gapRows)).get? t)
      ((appliedInOrder ∅ repeatedBoots).get? t) := by
  refine ⟨by constructor <;> decide, by decide, fun h => ?_⟩
  have hdiffer : ((replay ∅ (repeatedBoots.flatten.flatMap Handled.deltaRows)
      (repeatedBoots.flatten.flatMap Handled.snapshotRows)
      (repeatedBoots.flatten.flatMap Handled.gapRows)).get? "KXA").map (Book.levels · .bid) ≠
      ((appliedInOrder ∅ repeatedBoots).get? "KXA").map (Book.levels · .bid) := by
    decide +kernel
  have hsame := h "KXA"
  generalize Dict.get? (replay _ _ _ _) "KXA" = o at hsame hdiffer
  generalize Dict.get? (appliedInOrder _ _) "KXA" = o' at hsame hdiffer
  cases hsame with
  | none => exact hdiffer rfl
  | some hab => exact hdiffer (congrArg some (hab.levels .bid))

end Tape
