import Mathlib
import Tape.Run
import Tape.Web.Drawing

/-!
# The heatmap and the history of the book

A film keeps what the store forgets: the moments it passed through, each with
its bin, newest first, and of them those since the picture was last started
anew. The ring is compared with the film. A held bin shows the book of the last
moment up to the bin's end, and its status is the worst of the moments that
lasted into the bin, from the picture's start on.

Only the head can be out of date, and it is not: after the head's bin nothing
that the picture shows has changed. So when the head moves on, copying it into
the bins that are passed is right, and so is the status of the passing time.
-/

namespace Tape.Web

open Tape.Page (MarketMessage)

variable {α : Type}

/-- A store as it was left by an act, and the bin of the act. -/
abbrev Moment (α : Type) := Int × TapeStore α

/-- The last moment whose bin is at most the one given; the newest comes first. -/
def upTo (bin : Int) (moments : List (Moment α)) : Option (Moment α) :=
  moments.find? fun m => m.1 ≤ bin

/-- The moments that lasted into a bin: the last one before it, and those in it. -/
def during (bin : Int) (moments : List (Moment α)) : List (Moment α) :=
  moments.filter (fun m => m.1 = bin) ++ (upTo (bin - 1) moments).toList

/-- The codes of the states the book had in a bin. -/
def codesIn (bin : Int) (moments : List (Moment α)) : Set Nat :=
  {code | ∃ m ∈ during bin moments, m.2.statusCode = code}

/-- The store, with every moment it was seen in. -/
structure Film (α : Type) where
  store : TapeStore α
  moments : List (Moment α)
  /-- The moments since the picture was started anew. -/
  since : List (Moment α)

namespace Film

/-- The picture goes on. -/
def goOn (film : Film α) (x : Moment α) : Film α where
  store := x.2
  moments := x :: film.moments
  since := x :: film.since

/-- The picture starts anew. -/
def startAnew (film : Film α) (x : Moment α) : Film α where
  store := x.2
  moments := x :: film.moments
  since := [x]

variable [Zero α]

/-- A store that was just made. -/
def new (options : TapeStoreOptions) : Film α where
  store := .new options
  moments := [(0, .new options)]
  since := [(0, .new options)]

/-- One call of the store. -/
def step (n : Numbers α) (film : Film α) (act : HeatmapAct) : Film α :=
  let moment := (film.store.binIndex n act.atMs, film.store.step n act)
  if film.store.restarts act then film.startAnew moment else film.goOn moment

end Film

/-! ## Moments -/

section Moments

variable {bin e : Int} {m x : Moment α} {l : List (Moment α)}

theorem upTo_cons_of_le (h : x.1 ≤ bin) : upTo bin (x :: l) = some x :=
  List.find?_cons_of_pos (decide_eq_true h)

theorem upTo_cons_of_lt (h : bin < x.1) : upTo bin (x :: l) = upTo bin l :=
  List.find?_cons_of_neg (by rw [decide_eq_true_eq]; omega)

theorem upTo_mem (h : upTo bin l = some m) : m ∈ l := List.mem_of_find?_eq_some h

theorem exists_upTo (hm : m ∈ l) (hle : m.1 ≤ bin) : ∃ m', upTo bin l = some m' := by
  rw [← Option.isSome_iff_exists, upTo, List.find?_isSome]
  exact ⟨m, hm, decide_eq_true hle⟩

/-- The last moment up to a bin is the last one up to any earlier bin it is not
after. -/
theorem upTo_narrow (h : upTo e l = some m) (hle : m.1 ≤ bin) (hbin : bin ≤ e) :
    upTo bin l = some m := by
  induction l with
  | nil => cases h
  | cons x l ih =>
      by_cases hx : x.1 ≤ e
      · rw [upTo_cons_of_le hx] at h
        obtain rfl := Option.some.inj h
        exact upTo_cons_of_le hle
      · rw [upTo_cons_of_lt (by omega)] at h ⊢
        exact ih h

theorem upTo_append {l' : List (Moment α)} (h : upTo bin l = some m) :
    upTo bin (l ++ l') = some m := by
  rw [upTo, List.find?_append]
  exact congrArg (fun o => Option.or o _) h

theorem codesIn_cons_of_lt (h : bin < x.1) : codesIn bin (x :: l) = codesIn bin l := by
  have hne : ¬ x.1 = bin := by omega
  rw [codesIn, codesIn, during, during, upTo_cons_of_lt (by omega), List.filter_cons,
    if_neg (by rw [decide_eq_true_eq]; exact hne)]

theorem codesIn_cons_self (h : x.1 = bin) :
    codesIn bin (x :: l) = insert x.2.statusCode (codesIn bin l) := by
  have hduring : during bin (x :: l) = x :: during bin l := by
    rw [during, upTo_cons_of_lt (by omega), List.filter_cons, if_pos (decide_eq_true h)]
    rfl
  ext code
  show (∃ m ∈ during bin (x :: l), m.2.statusCode = code) ↔
    code = x.2.statusCode ∨ ∃ m ∈ during bin l, m.2.statusCode = code
  rw [hduring]
  constructor
  · rintro ⟨m, hm, rfl⟩
    rcases List.mem_cons.mp hm with rfl | hm
    · exact .inl rfl
    · exact .inr ⟨m, hm, rfl⟩
  · rintro (rfl | ⟨m, hm, rfl⟩)
    · exact ⟨x, List.mem_cons_self, rfl⟩
    · exact ⟨m, List.mem_cons_of_mem _ hm, rfl⟩

end Moments

/-! ## The picture of a film -/

/-- A column shows the last moment up to its bin, with the worst status of the
bin. -/
structure Pictures (n : Numbers α) (since : List (Moment α)) (bin : Int) (c : Column α) :
    Prop where
  look : ∃ m, upTo bin since = some m ∧ c = m.2.look n c.status
  worst : IsGreatest (codesIn bin since) c.status

/-- The ring shows what the film holds, and nothing changed since its head. -/
structure Filmed (n : Numbers α) (film : Film α) : Prop where
  sound : film.store.Sound n
  capacity : film.store.history.capacity = film.store.options.historyColumns
  recent : film.since <+: film.moments
  rows : ∀ m ∈ film.since, sameRows m.2.grid film.store.grid = true
  first : ∃ m, film.since.getLast? = some m ∧ film.store.history.oldestBin =
    max m.1 (film.store.history.headBin - film.store.history.capacity + 1)
  reached : ∃ m ∈ film.since, film.store.history.headBin ≤ m.1
  settled : ∀ m, upTo film.store.history.headBin film.since = some m → m.2.Same film.store
  later : ∀ m ∈ film.since, film.store.history.headBin < m.1 → m.2.Same film.store
  pictures : ∀ bin, film.store.history.oldestBin ≤ bin → bin ≤ film.store.history.headBin →
    Pictures n film.since bin (film.store.history.columnAt bin)

namespace Filmed

variable {n : Numbers α} {film : Film α}

/-- From the head's bin on, the last moment shows what the store shows. -/
theorem settled_from (h : Filmed n film) {bin : Int} (hbin : film.store.history.headBin ≤ bin)
    {m : Moment α} (hm : upTo bin film.since = some m) : m.2.Same film.store := by
  by_cases hle : m.1 ≤ film.store.history.headBin
  · exact h.settled m (upTo_narrow hm hle hbin)
  · exact h.later m (upTo_mem hm) (not_le.mp hle)

theorem oldest_mem (h : Filmed n film) :
    ∃ m ∈ film.since, m.1 ≤ film.store.history.oldestBin := by
  obtain ⟨m, hm, holdest⟩ := h.first
  exact ⟨m, List.mem_of_getLast? hm, by omega⟩

/-- The bins the head would pass show the film too. -/
theorem passed (h : Filmed n film) {bin : Int} (hlow : film.store.history.oldestBin ≤ bin) :
    Pictures n film.since bin (film.store.passed bin) := by
  have hordered := h.sound.holds.ordered
  obtain ⟨first, hfirst, hold⟩ := h.oldest_mem
  rw [TapeStore.passed]
  split
  · next hle => exact h.pictures bin hlow hle
  · next hafter =>
      have hcode : ∀ code ∈ codesIn bin film.since, code = film.store.statusCode := by
        rintro code ⟨m, hm, rfl⟩
        rcases List.mem_append.mp hm with hin | hbefore
        · obtain ⟨hmem, heq⟩ := List.mem_filter.mp hin
          have heq := of_decide_eq_true heq
          exact (h.later m hmem (by omega)).status.symm
        · exact (h.settled_from (by omega) (Option.mem_toList.mp hbefore)).status.symm
      refine ⟨?_, ?_, fun code hcode' => le_of_eq (hcode code hcode')⟩
      · obtain ⟨m, hm⟩ := exists_upTo hfirst (hold.trans hlow)
        refine ⟨m, hm, ?_⟩
        rw [← (h.settled_from (by omega) hm).look, h.sound.head]
        rfl
      · obtain ⟨m, hm⟩ := exists_upTo hfirst (show first.1 ≤ bin - 1 by omega)
        exact ⟨m, List.mem_append_right _ (Option.mem_toList.mpr hm),
          (h.settled_from (by omega) hm).status.symm⟩

/-- The newest moment is put before the others. -/
theorem pictures_cons_of_lt {since : List (Moment α)} {x : Moment α} {bin : Int} {c : Column α}
    (h : Pictures n since bin c) (hbin : bin < x.1) : Pictures n (x :: since) bin c where
  look := by
    rw [upTo_cons_of_lt hbin]
    exact h.look
  worst := by
    rw [codesIn_cons_of_lt hbin]
    exact h.worst

theorem pictures_cons_self {since : List (Moment α)} {x : Moment α} {c : Column α} {status : Nat}
    (h : IsGreatest (codesIn x.1 since) status)
    (hc : c = x.2.look n (max status x.2.statusCode)) : Pictures n (x :: since) x.1 c := by
  have hstatus : c.status = max status x.2.statusCode := by
    rw [hc]
    rfl
  refine ⟨⟨x, upTo_cons_of_le (Int.le_refl _), ?_⟩, ?_⟩
  · rw [hstatus]
    exact hc
  · rw [codesIn_cons_self rfl, hstatus, max_comm]
    exact h.insert _

/-- The head's bin is no later than an act's. -/
theorem head_le (h : Filmed n film) {bin : Int} (hbin : ∀ m ∈ film.since, m.1 ≤ bin) :
    film.store.history.headBin ≤ bin := by
  obtain ⟨m, hm, hle⟩ := h.reached
  exact hle.trans (hbin m hm)

theorem getLast?_cons (h : Filmed n film) (x : Moment α) :
    (x :: film.since).getLast? = film.since.getLast? := by
  obtain ⟨m, hm, -⟩ := h.first
  cases hsince : film.since with
  | nil =>
      rw [hsince] at hm
      cases hm
  | cons y l => rw [List.getLast?_cons_cons]

variable {x : Moment α}

/-- An act that leaves the picture as it is. -/
theorem idle (h : Filmed n film) {status : Nat} (hbin : ∀ m ∈ film.since, m.1 ≤ x.1)
    (hoptions : x.2.options = film.store.options)
    (hhistory : x.2.history = film.store.history.setEdgeStatus status)
    (hsame : film.store.Same x.2) (ht : x.2.Totalled) : Filmed n (film.goOn x) := by
  have hframe : DepthHistory.Framed film.store.history x.2.history := by
    rw [hhistory]
    exact DepthHistory.framed_setEdgeStatus _ _
  have hhead := hframe.headBin
  have holdest := hframe.oldestBin
  have hcapacity := hframe.capacity
  have hcolumn : x.2.history.columnAt = film.store.history.columnAt := by
    rw [hhistory]
    rfl
  have hreached := h.head_le hbin
  refine ⟨h.sound.idle hhistory hsame ht, ?_, (List.prefix_cons_inj x).mpr h.recent, ?_, ?_, ?_, ?_,
    ?_, ?_⟩
  · show x.2.history.capacity = x.2.options.historyColumns
    rw [hcapacity, hoptions, h.capacity]
  · intro m hm
    rcases List.mem_cons.mp hm with rfl | hm
    · exact TapeStore.sameRows_refl _
    · exact TapeStore.sameRows_trans (h.rows m hm) (TapeStore.sameRows_symm hsame.rows)
  · show ∃ m, (x :: film.since).getLast? = some m ∧ x.2.history.oldestBin =
      max m.1 (x.2.history.headBin - x.2.history.capacity + 1)
    rw [h.getLast?_cons, hhead, holdest, hcapacity]
    exact h.first
  · show ∃ m ∈ x :: film.since, x.2.history.headBin ≤ m.1
    rw [hhead]
    exact ⟨x, List.mem_cons_self, hreached⟩
  · show ∀ m, upTo x.2.history.headBin (x :: film.since) = some m → m.2.Same x.2
    rw [hhead]
    intro m hm
    by_cases hle : x.1 ≤ film.store.history.headBin
    · rw [upTo_cons_of_le hle] at hm
      obtain rfl := Option.some.inj hm
      exact .refl _
    · rw [upTo_cons_of_lt (not_le.mp hle)] at hm
      exact (h.settled m hm).trans hsame
  · show ∀ m ∈ x :: film.since, x.2.history.headBin < m.1 → m.2.Same x.2
    rw [hhead]
    intro m hm hlater
    rcases List.mem_cons.mp hm with rfl | hm
    · exact .refl _
    · exact (h.later m hm hlater).trans hsame
  · show ∀ bin, x.2.history.oldestBin ≤ bin → bin ≤ x.2.history.headBin →
      Pictures n (x :: film.since) bin (x.2.history.columnAt bin)
    rw [hhead, holdest, hcolumn]
    intro bin hlow hhigh
    have hold := h.pictures bin hlow hhigh
    rcases lt_or_eq_of_le (hhigh.trans hreached) with hlt | rfl
    · exact pictures_cons_of_lt hold hlt
    · have heq : x.1 = film.store.history.headBin := le_antisymm hhigh hreached
      have hstatus := h.sound.status
      rw [← heq] at hstatus
      refine pictures_cons_self hold.worst ?_
      rw [hsame.status, Nat.max_eq_left hstatus, hsame.look, heq]
      exact h.sound.head

/-- An act that moves the head to its bin and draws it. -/
theorem moved (h : Filmed n film) (hbin : ∀ m ∈ film.since, m.1 ≤ x.1)
    (hoptions : x.2.options = film.store.options) (hmoved : film.store.Moved n x.1 x.2)
    (ht : x.2.Totalled) : Filmed n (film.goOn x) := by
  have hreached := h.head_le hbin
  have hwindow := h.sound.holds.window
  have hordered := h.sound.holds.ordered
  have hhead : x.2.history.headBin = x.1 := hmoved.headBin.trans (max_eq_right hreached)
  have holdest := hmoved.oldestBin
  rw [hhead] at holdest
  refine ⟨hmoved.sound ht, ?_, (List.prefix_cons_inj x).mpr h.recent, ?_, ?_, ?_, ?_, ?_, ?_⟩
  · show x.2.history.capacity = x.2.options.historyColumns
    rw [hmoved.capacity, hoptions, h.capacity]
  · intro m hm
    rcases List.mem_cons.mp hm with rfl | hm
    · exact TapeStore.sameRows_refl _
    · exact TapeStore.sameRows_trans (h.rows m hm) (TapeStore.sameRows_symm hmoved.rows)
  · show ∃ m, (x :: film.since).getLast? = some m ∧ x.2.history.oldestBin =
      max m.1 (x.2.history.headBin - x.2.history.capacity + 1)
    obtain ⟨m, hm, hfirst⟩ := h.first
    refine ⟨m, (h.getLast?_cons x).trans hm, ?_⟩
    rw [hhead, hmoved.capacity, holdest, hfirst]
    omega
  · exact ⟨x, List.mem_cons_self, le_of_eq hhead⟩
  · show ∀ m, upTo x.2.history.headBin (x :: film.since) = some m → m.2.Same x.2
    rw [hhead, upTo_cons_of_le (Int.le_refl _)]
    intro m hm
    obtain rfl := Option.some.inj hm
    exact .refl _
  · show ∀ m ∈ x :: film.since, x.2.history.headBin < m.1 → m.2.Same x.2
    rw [hhead]
    intro m hm hlater
    rcases List.mem_cons.mp hm with rfl | hm
    · exact .refl _
    · exact absurd hlater (not_lt.mpr (hbin m hm))
  · show ∀ bin, x.2.history.oldestBin ≤ bin → bin ≤ x.2.history.headBin →
      Pictures n (x :: film.since) bin (x.2.history.columnAt bin)
    intro bin hlow hhigh
    have hcolumn := hmoved.holds.column bin hlow hhigh
    have hbefore := h.passed (show film.store.history.oldestBin ≤ bin by omega)
    rw [hhead] at hcolumn hhigh
    rcases lt_or_eq_of_le hhigh with hlt | rfl
    · rw [hcolumn, Function.update_of_ne (ne_of_lt hlt)]
      exact pictures_cons_of_lt hbefore hlt
    · rw [hcolumn, Function.update_self]
      exact pictures_cons_self hbefore.worst rfl

theorem pictures_single (x : Moment α) {c : Column α} (hc : c = x.2.look n x.2.statusCode) :
    Pictures n [x] x.1 c := by
  have hstatus : c.status = x.2.statusCode := by
    rw [hc]
    rfl
  refine ⟨⟨x, upTo_cons_of_le (Int.le_refl _), ?_⟩, ?_⟩
  · rw [hstatus]
    exact hc
  · have hnone : codesIn x.1 ([] : List (Moment α)) = ∅ := by
      ext code
      constructor
      · rintro ⟨m, hm, -⟩
        exact absurd hm List.not_mem_nil
      · exact fun hin => hin.elim
    rw [codesIn_cons_self rfl, hnone, hstatus, insert_empty_eq]
    exact isGreatest_singleton

/-- A picture that starts with a moment shows it. -/
theorem started {moments : List (Moment α)} (hrecent : [x] <+: moments)
    (hrestarted : TapeStore.Restarted n x.1 x.2) (ht : x.2.Totalled) :
    Filmed n ⟨x.2, moments, [x]⟩ := by
  have hcapacity := hrestarted.holds.capacity
  refine ⟨hrestarted.sound ht, hrestarted.capacity, hrecent, ?_, ⟨x, rfl, ?_⟩,
    ⟨x, List.mem_cons_self, le_of_eq hrestarted.headBin⟩, ?_, ?_, ?_⟩
  · intro m hm
    rw [List.mem_singleton.mp hm]
    exact TapeStore.sameRows_refl _
  · show x.2.history.oldestBin = max x.1 (x.2.history.headBin - x.2.history.capacity + 1)
    rw [hrestarted.headBin, hrestarted.oldestBin]
    omega
  · intro m hm
    rw [List.mem_singleton.mp (upTo_mem hm)]
    exact .refl _
  · intro m hm _
    rw [List.mem_singleton.mp hm]
    exact .refl _
  · show ∀ bin, x.2.history.oldestBin ≤ bin → bin ≤ x.2.history.headBin →
      Pictures n [x] bin (x.2.history.columnAt bin)
    intro bin hlow hhigh
    have hcolumn := hrestarted.holds.column bin hlow hhigh
    rw [hrestarted.oldestBin] at hlow
    rw [hrestarted.headBin] at hhigh
    obtain rfl : bin = x.1 := le_antisymm hhigh hlow
    exact pictures_single x hcolumn

end Filmed

/-- The bins a store's ring holds. -/
def TapeStore.HoldsBin (s : TapeStore α) (bin : Int) : Prop :=
  s.history.oldestBin ≤ bin ∧ bin ≤ s.history.headBin

/-- The row totals are those of the book, and the ring shows the book's
history. -/
structure ShowsHistory (n : Numbers α) (film : Film α) : Prop where
  totals : film.store.rowTotals = rowSums film.store.book film.store.grid
  unknown : film.store.status = .unknown →
    film.store.rowTotals = List.replicate film.store.grid.rows 0
  look : ∀ bin, film.store.HoldsBin bin → ∃ m, upTo bin film.moments = some m ∧
    (film.store.history.columnAt bin).depth =
      (rowSums m.2.book film.store.grid).map n.encode ∧
    (film.store.history.columnAt bin).bestBid = DepthHistory.quote m.2.book.bestBid ∧
    (film.store.history.columnAt bin).bestAsk = DepthHistory.quote m.2.book.bestAsk
  /-- From the start of the bin, or from that of the picture if it is later. -/
  worst : ∀ bin, film.store.HoldsBin bin →
    IsGreatest (codesIn bin film.since) (film.store.history.columnAt bin).status
  /-- From the first bin of the picture on, as many as there is room for. -/
  recent : ∃ first, film.since.getLast? = some first ∧ film.store.history.oldestBin =
    max first.1 (film.store.history.headBin - film.store.options.historyColumns + 1)
  bounded : film.store.history.headBin <
    film.store.history.oldestBin + film.store.options.historyColumns
  /-- After the head nothing that is shown has changed. -/
  later : ∀ m ∈ film.since, film.store.history.headBin < m.1 → m.2.Same film.store

theorem Filmed.shows {film : Film α} (h : Filmed n film) : ShowsHistory n film where
  totals := h.sound.totals
  unknown hunknown := by
    rw [h.sound.totals, h.sound.unknown hunknown, rowSums_new]
  look bin hbin := by
    obtain ⟨m, hm, hc⟩ := (h.pictures bin hbin.1 hbin.2).look
    obtain ⟨earlier, hmoments⟩ := h.recent
    refine ⟨m, hmoments ▸ upTo_append hm, ?_, ?_, ?_⟩
    · rw [hc, ← rowSums_congr (h.rows m (upTo_mem hm))]
      rfl
    · rw [hc]
      rfl
    · rw [hc]
      rfl
  worst bin hbin := (h.pictures bin hbin.1 hbin.2).worst
  recent := by
    obtain ⟨first, hfirst, holdest⟩ := h.first
    exact ⟨first, hfirst, h.capacity ▸ holdest⟩
  bounded := h.capacity ▸ h.sound.holds.window
  later := h.later

theorem mem_of_mem_during {bin : Int} {m : Moment α} {l : List (Moment α)}
    (h : m ∈ during bin l) : m ∈ l := by
  rcases List.mem_append.mp h with hin | hbefore
  · exact List.mem_of_mem_filter hin
  · exact upTo_mem (Option.mem_toList.mp hbefore)

/-- A picture that has only started shows the state it started with. -/
theorem Filmed.status_of_started {film : Film α} {x : Moment α} (h : Filmed n film)
    (hsince : film.since = [x]) : film.store.HoldsBin x.1 ∧
      (film.store.history.columnAt x.1).status = x.2.statusCode := by
  have hordered := h.sound.holds.ordered
  have hwindow := h.sound.holds.window
  have hcapacity := h.sound.holds.capacity
  obtain ⟨first, hfirst, holdest⟩ := h.first
  obtain ⟨m, hm, hreached⟩ := h.reached
  rw [hsince] at hfirst hm
  have hfirst : some x = some first := hfirst
  obtain rfl := Option.some.inj hfirst
  rw [List.mem_singleton.mp hm] at hreached
  have hheld : film.store.HoldsBin x.1 := ⟨by omega, by omega⟩
  obtain ⟨m', hm', hcode⟩ := (h.pictures x.1 hheld.1 hheld.2).worst.1
  have hx := mem_of_mem_during hm'
  rw [hsince] at hx
  rw [List.mem_singleton.mp hx] at hcode
  exact ⟨hheld, hcode.symm⟩

/-! ## Runs -/

namespace Filmed

variable [Zero α] {n : Numbers α} {film : Film α}

theorem new (hencode : n.encode 0 = 0) (options : TapeStoreOptions) :
    Filmed n (.new options : Film α) := by
  have hholds := @DepthHistory.holds_first α _ options.historyColumns options.grid.rows
    options.columnsPos 0 (Int.le_refl 0) ColumnStatus.unknown
  have hsums := rowSums_new options.grid
  refine started (x := (0, .new options)) (List.prefix_rfl) ⟨rfl, rfl, rfl, ?_⟩
    ⟨hsums.symm, nonneg_new, fun _ => rfl⟩
  refine hholds.congr fun b _ _ => ?_
  show _ = Column.mk ((rowSums Book.new options.grid).map n.encode) noPrice noPrice
    ColumnStatus.unknown
  rw [hsums, List.map_replicate, hencode]

/-- What an act must be for the picture to stay true. -/
structure Allowed (n : Numbers α) (film : Film α) (act : HeatmapAct) : Prop where
  ordered : ∀ m ∈ film.moments, m.1 ≤ film.store.binIndex n act.atMs
  decoded : act.Decoded
  small : (film.store.step n act).Small

theorem step (h : Filmed n film) (hencode : n.encode 0 = 0) {act : HeatmapAct}
    (hallowed : Allowed n film act) : Filmed n (film.step n act) := by
  have hbin : ∀ m ∈ film.since, m.1 ≤ film.store.binIndex n act.atMs :=
    fun m hm => hallowed.ordered m (h.recent.subset hm)
  rw [Film.step]
  split
  · next hrestarts =>
      cases act with
      | message message atMs => exact absurd hrestarts Bool.false_ne_true
      | connectionLost atMs => exact absurd hrestarts Bool.false_ne_true
      | setGrid grid atMs =>
          have hother : sameRows grid film.store.grid = false := by
            simpa [TapeStore.restarts] using hrestarts
          obtain ⟨hrestarted, ht⟩ := h.sound.restarted hencode hallowed.small hother
          exact started ((List.prefix_cons_inj _).mpr List.nil_prefix) hrestarted ht
  · next hstays =>
      have hstepped := h.sound.step hencode hallowed.decoded hallowed.small
        (Bool.eq_false_iff.mpr hstays)
      have hoptions := @TapeStore.step_options α n film.store _ act
      cases hstepped.effect with
      | idle status hhistory hsame =>
          exact h.idle hbin hoptions hhistory hsame hstepped.totalled
      | moved hmoved => exact h.moved hbin hoptions hmoved hstepped.totalled

end Filmed

variable [Zero α] {n : Numbers α}

theorem step_store (film : Film α) (act : HeatmapAct) :
    (film.step n act).store = film.store.step n act := by
  rw [Film.step]
  split
  · rfl
  · rfl

theorem step_of_restarts {film : Film α} {act : HeatmapAct}
    (h : film.store.restarts act = true) : film.step n act =
      film.startAnew (film.store.binIndex n act.atMs, film.store.step n act) :=
  if_pos h

theorem step_moments (film : Film α) (act : HeatmapAct) :
    (film.step n act).moments =
      (film.store.binIndex n act.atMs, film.store.step n act) :: film.moments := by
  rw [Film.step]
  split
  · rfl
  · rfl

theorem binIndex_step (s : TapeStore α) (act : HeatmapAct) (atMs : ℚ) :
    (s.step n act).binIndex n atMs = s.binIndex n atMs := by
  rw [TapeStore.binIndex, TapeStore.binIndex, TapeStore.binAt, TapeStore.binAt,
    TapeStore.step_options]

/-- Times that do not go back give bins that do not. -/
theorem ordered_along (hround : Monotone n.round) {acts : List HeatmapAct}
    (htimes : acts.Pairwise fun a b => a.atMs ≤ b.atMs) {film : Film α}
    (hstart : ∀ m ∈ film.moments, ∀ act ∈ acts, m.1 ≤ film.store.binIndex n act.atMs) :
    Run.Along (Film.step n) (fun film act => ∀ m ∈ film.moments,
      m.1 ≤ film.store.binIndex n act.atMs) film acts := by
  induction acts generalizing film with
  | nil => trivial
  | cons act acts ih =>
      obtain ⟨hfirst, hrest⟩ := List.pairwise_cons.mp htimes
      refine ⟨fun m hm => hstart m hm act List.mem_cons_self, ih hrest fun m hm later hlater => ?_⟩
      rw [step_store, binIndex_step]
      rw [step_moments] at hm
      rcases List.mem_cons.mp hm with rfl | hm
      · exact TapeStore.binIndex_mono hround _ (hfirst later hlater)
      · exact hstart m hm later (List.mem_cons_of_mem _ hlater)

theorem filmed_run (hround : Monotone n.round) (hencode : n.encode 0 = 0)
    (options : TapeStoreOptions) (acts : List HeatmapAct)
    (htimes : acts.Pairwise fun a b => a.atMs ≤ b.atMs) (hdecoded : ∀ act ∈ acts, act.Decoded)
    (hsmall : Run.Throughout (Film.step n) (fun film => film.store.Small) (.new options) acts) :
    Filmed n (Run.final (Film.step n) (.new options) acts) := by
  have hordered := @ordered_along α _ n hround acts htimes (.new options) fun m hm act _ => by
    rw [List.mem_singleton.mp hm]
    exact TapeStore.binIndex_nonneg n _ _
  have hallowed : Run.Along (Film.step n) (Filmed.Allowed n) (.new options) acts := by
    refine ((hordered.and (Run.along_of_forall hdecoded _)).and hsmall.along).mono ?_
    rintro film act ⟨⟨hord, hdec⟩, hsml⟩
    rw [step_store] at hsml
    exact ⟨hord, hdec, hsml⟩
  have hrun : Run.Throughout (Film.step n) (Filmed n) (.new options) acts :=
    Run.throughout_of_step (fun film act h hact => h.step hencode hact)
      (Filmed.new hencode options) hallowed
  exact hrun.last

/-- Over every run whose times do not go back, while no row's counts sum to
2^53 or more, the heatmap shows the history of the book. -/
theorem heatmap_shows_history (n : Numbers α) (hround : Monotone n.round)
    (hencode : n.encode 0 = 0) (options : TapeStoreOptions) (acts : List HeatmapAct)
    (htimes : acts.Pairwise fun a b => a.atMs ≤ b.atMs) (hdecoded : ∀ act ∈ acts, act.Decoded)
    (hsmall : Run.Throughout (Film.step n) (fun film => film.store.Small) (.new options) acts) :
    ShowsHistory n (Run.final (Film.step n) (.new options) acts) :=
  (filmed_run hround hencode options acts htimes hdecoded hsmall).shows

/-! ## Some runs -/

/-- A market whose grid is not known yet, with the default bins and columns. -/
def defaults : TapeStoreOptions where
  ticker := "M"
  grid := oneCentGrid
  originMs := 0
  binMs := 250
  historyColumns := 2048
  binPos := by norm_num
  columnsPos := by decide

/-- Exact numbers, and what is drawn for no contract and for one. -/
def oneContract : Numbers ℚ where
  round := id
  encode total := if total = 100 then 11629080 / 2 ^ 24 else 0

theorem oneContract_zero : oneContract.encode 0 = 0 := by
  show (if (0 : Int) = 100 then 11629080 / 2 ^ 24 else 0) = (0 : ℚ)
  exact if_neg (by decide)

theorem count_replace_nil (w : Book) (side : Side) (p : Nat) :
    (w.replace [] []).count side p = 0 := by
  cases side with
  | bid => exact Book.countAt_new p
  | ask => exact Book.countAt_new p

theorem rowSum_replace_nil (w : Book) (grid : PriceGrid) (row : Nat) :
    rowSum (w.replace [] []) grid row = 0 := by
  refine Finset.sum_eq_zero fun p _ => ?_
  rw [Book.resting, count_replace_nil, count_replace_nil, Int.add_zero]

theorem TapeStore.apply_of_ours {s : TapeStore α} {message : MarketMessage}
    (h : message.market = s.options.ticker) (atMs : ℚ) :
    s.apply n message atMs = (s.dispatch n message atMs).changed :=
  if_neg (not_not.mpr h)

theorem TapeStore.book_changeLevel {s : TapeStore α} (hfresh : s.status = .fresh) {side : Side}
    {p : Nat} {delta : Int} {book : Book}
    (h : s.book.applyDelta side p delta = (book, .applied)) :
    (s.changeLevel n side p delta).book = book := by
  rw [changeLevel, if_neg (not_not.mpr hfresh), h]

/-- The store that was shown a fresh book. -/
theorem shown_fresh {s : TapeStore α} {ticker : Ticker} (h : ticker = s.options.ticker)
    (bids asks : List PriceLevel) (atMs : ℚ) :
    let s' := s.apply n (.snapshot ticker .fresh bids asks) atMs
    s'.book = s.book.replace bids asks ∧ s'.status = .fresh ∧ s'.grid = s.grid ∧
      s'.rowTotals = (s.book.replace bids asks).forEachLevel.foldl (TapeStore.addLevel s.grid)
        (s.rowTotals.map fun _ => 0) := by
  intro s'
  have hours : s' = _ := @TapeStore.apply_of_ours α _ n s (.snapshot ticker .fresh bids asks) h atMs
  have hdispatch : s.dispatch n (.snapshot ticker .fresh bids asks) atMs =
      TapeStore.rasterizeBook n { s.advance n atMs with
        book := s.book.replace bids asks, status := .fresh, gap := false } := rfl
  rw [hours, hdispatch]
  exact ⟨rfl, rfl, rfl, TapeStore.rasterizeBook_totals _⟩

/-- The store whose empty book got a bid. -/
theorem shown_bid {s : TapeStore α} {ticker : Ticker} (h : ticker = s.options.ticker)
    {w : Book} (hbook : s.book = w.replace [] []) (hfresh : s.status = .fresh) (p : Nat)
    {delta : Int} (hdelta : 0 ≤ delta) (hsmall : delta < 2 ^ 53) (atMs : ℚ) :
    (s.apply n (.delta ticker .bid p delta) atMs).book =
      (w.replace [] []).changed .bid p delta := by
  have hnext : toDouble (s.book.count .bid p + delta) = delta := by
    rw [hbook, count_replace_nil, Int.zero_add, toDouble_of_small hdelta hsmall]
  have happlied : s.book.applyDelta .bid p delta =
      ((w.replace [] []).changed .bid p delta, .applied) := by
    rw [Book.applyDelta_eq, hnext, if_neg (not_lt.mpr hdelta), hbook]
  have hours := @TapeStore.apply_of_ours α _ n s (.delta ticker .bid p delta) h atMs
  rw [hours]
  exact @TapeStore.book_changeLevel α _ n (s.advance n atMs) hfresh .bid p delta _ happlied

/-- An empty snapshot, and a bid of one contract two bins later. -/
theorem heatmap_shows_bid :
    ShowsHistory oneContract (Run.final (Film.step oneContract) (.new defaults)
      [.message (.snapshot "M" .fresh [] []) 0, .message (.delta "M" .bid 5000 100) 600]) := by
  have hprice : 5000 ≤ maxPriceE4 := by decide
  obtain ⟨hbook, hfresh, -⟩ := @shown_fresh ℚ _ oneContract (TapeStore.new defaults) "M" rfl [] []
    0
  have hoptions : ((TapeStore.new defaults : TapeStore ℚ).apply oneContract
      (.snapshot "M" .fresh [] []) 0).options = defaults :=
    TapeStore.step_options (.message (.snapshot "M" .fresh [] []) 0)
  have hticker : "M" = ((TapeStore.new defaults : TapeStore ℚ).apply oneContract
      (.snapshot "M" .fresh [] []) 0).options.ticker := by rw [hoptions]; rfl
  have hbid := @shown_bid ℚ _ oneContract _ _ hticker _ hbook hfresh 5000 100 (by decide)
    (by decide) 600
  refine heatmap_shows_history oneContract monotone_id oneContract_zero defaults _ ?_ ?_
    ⟨?_, ?_, ?_⟩
  · rw [List.pairwise_pair]
    show (0 : ℚ) ≤ 600
    norm_num
  · intro act hact
    rcases List.mem_cons.mp hact with rfl | hact
    · exact fun level hlevel => absurd hlevel List.not_mem_nil
    · rw [List.mem_singleton.mp hact]
      exact hprice
  · refine TapeStore.small_of_book rfl fun grid row => ?_
    show rowSum Book.new grid row < 2 ^ 53
    rw [rowSum_new]
    decide
  · show (Film.step oneContract (.new defaults) _).store.Small
    rw [step_store]
    refine TapeStore.small_of_book hbook fun grid row => ?_
    rw [rowSum_replace_nil]
    decide
  · show (Film.step oneContract (Film.step oneContract (.new defaults) _) _).store.Small
    rw [step_store, step_store]
    refine TapeStore.small_of_book hbid fun grid row => ?_
    rw [rowSum_changed _ _ _ hprice, rowSum_replace_nil, count_replace_nil]
    split
    · decide
    · decide

/-- One row each tenth of a cent. -/
def tenthCentGrid : PriceGrid where
  tickE4 := 10
  rowStepE4 := 10
  rows := 1001
  assumed := false
  divides := by decide
  spaced := by decide

theorem binIndex_zero {s : TapeStore ℚ} (h : s.options = defaults) :
    s.binIndex oneContract 0 = 0 := by
  rw [TapeStore.binIndex, TapeStore.binAt, h]
  show ⌊max 0 (((0 : ℚ) - 0) / 250)⌋ = 0
  norm_num

/-- The bin of a change of rows forgets that the book was unknown in it. -/
theorem restart_forgets :
    let film := Run.final (Film.step oneContract) (.new defaults)
      [.message (.snapshot "M" .fresh [] []) 0, .setGrid tenthCentGrid 0]
    film.store.HoldsBin 0 ∧
      ¬ IsGreatest (codesIn 0 film.moments) (film.store.history.columnAt 0).status := by
  let first : Film ℚ := (Film.new defaults).step oneContract
    (.message (.snapshot "M" .fresh [] []) 0)
  have hstore : first.store = (TapeStore.new defaults).apply oneContract
    (.snapshot "M" .fresh [] []) 0 := step_store _ _
  obtain ⟨hbook, hstatus, hgrid, -⟩ := @shown_fresh ℚ _ oneContract (TapeStore.new defaults) "M" rfl
    [] [] 0
  rw [← hstore] at hbook hstatus hgrid
  have hrestarts : first.store.restarts (.setGrid tenthCentGrid 0) = true := by
    show (!sameRows tenthCentGrid first.store.grid) = true
    rw [hgrid]
    decide
  have hoptions : first.store.options = defaults := by
    rw [hstore]
    exact TapeStore.step_options (.message (.snapshot "M" .fresh [] []) 0)
  have hbin : first.store.binIndex oneContract 0 = 0 := binIndex_zero hoptions
  have hlast := @step_of_restarts ℚ _ oneContract first (.setGrid tenthCentGrid 0) hrestarts
  have hfirst : Filmed oneContract first := by
    refine (Filmed.new oneContract_zero defaults).step oneContract_zero ⟨fun m hm => ?_, ?_, ?_⟩
    · rw [List.mem_singleton.mp hm]
      exact TapeStore.binIndex_nonneg _ _ _
    · exact fun level hlevel => absurd hlevel List.not_mem_nil
    · refine TapeStore.small_of_book (hstore ▸ hbook) fun grid row => ?_
      rw [rowSum_replace_nil]
      decide
  have hmoments : first.moments = [(0, first.store), (0, .new defaults)] := by
    have hmoved := step_moments (n := oneContract) (Film.new defaults)
      (.message (.snapshot "M" .fresh [] []) 0)
    have hzero : (TapeStore.new defaults : TapeStore ℚ).binIndex oneContract 0 = 0 :=
      binIndex_zero rfl
    refine hmoved.trans ?_
    show [((TapeStore.new defaults : TapeStore ℚ).binIndex oneContract 0, _), _] = _
    rw [hzero, hstore]
    rfl
  obtain ⟨hsame, hcode⟩ := @TapeStore.setGrid_book ℚ oneContract first.store _ tenthCentGrid 0
  have hlastFilmed : Filmed oneContract (first.step oneContract (.setGrid tenthCentGrid 0)) := by
    refine hfirst.step oneContract_zero ⟨fun m hm => ?_, trivial, ?_⟩
    · show m.1 ≤ first.store.binIndex oneContract 0
      rw [hbin]
      rw [hmoments] at hm
      rcases List.mem_cons.mp hm with rfl | hm
      · exact le_refl 0
      · exact le_of_eq (congrArg Prod.fst (List.mem_singleton.mp hm))
    · refine TapeStore.small_of_book (hsame.trans hbook) fun grid row => ?_
      rw [rowSum_replace_nil]
      decide
  show TapeStore.HoldsBin (first.step oneContract (.setGrid tenthCentGrid 0)).store 0 ∧
    ¬ IsGreatest (codesIn 0 (first.step oneContract (.setGrid tenthCentGrid 0)).moments)
      ((first.step oneContract (.setGrid tenthCentGrid 0)).store.history.columnAt 0).status
  have hsince : (first.step oneContract (.setGrid tenthCentGrid 0)).since =
      [(0, first.store.setGrid oneContract tenthCentGrid 0)] := by
    rw [hlast]
    show [(first.store.binIndex oneContract 0, _)] = _
    rw [hbin]
    rfl
  obtain ⟨hheld, hshown⟩ := hlastFilmed.status_of_started hsince
  refine ⟨hheld, fun hgreatest => ?_⟩
  have hunknown : ColumnStatus.unknown ∈
      codesIn 0 (first.step oneContract (.setGrid tenthCentGrid 0)).moments := by
    refine ⟨(0, .new defaults), List.mem_append_left _ (List.mem_filter.mpr ⟨?_, rfl⟩), rfl⟩
    rw [step_moments, hmoments]
    exact List.mem_cons_of_mem _ (List.mem_cons_of_mem _ List.mem_cons_self)
  have hworse := hgreatest.2 hunknown
  have hfresh : first.store.statusCode = ColumnStatus.fresh := by
    rw [TapeStore.statusCode, hstatus]
  rw [hshown, hcode, hfresh] at hworse
  exact absurd hworse (by decide)

/-- Two bids of one row, 2^53 + 1 together. -/
def hugeBids : List PriceLevel := [(100, 2 ^ 53 - 1), (101, 2)]

theorem forEachLevel_hugeBids (w : Book) :
    (w.replace hugeBids []).forEachLevel =
      [(.bid, 100, 2 ^ 53 - 1), (.bid, 101, 2)] := by
  have hcount : ∀ side p, (w.replace hugeBids []).count side p =
      if side = .bid then if 101 = p then 2 else if 100 = p then 2 ^ 53 - 1 else 0 else 0 := by
    intro side p
    cases side with
    | bid =>
        show countAt (Book.setLevels _ hugeBids) p = _
        have hset : ∀ levels, Book.setLevels levels hugeBids =
            (levels.setIfInBounds 100 (2 ^ 53 - 1)).setIfInBounds 101 2 := fun _ => rfl
        rw [hset, Book.countAt_set (by decide), Book.countAt_set (by decide)]
        show (if 101 = p then _ else if 100 = p then _ else countAt (Vector.replicate _ 0) p) = _
        rw [Book.countAt_new]
        rfl
    | ask => exact Book.countAt_new p
  let visit : Nat → List (Side × Nat × Int) := fun p =>
    (if (w.replace hugeBids []).count .bid p > 0 then
      [(Side.bid, p, (w.replace hugeBids []).count .bid p)] else []) ++
    (if (w.replace hugeBids []).count .ask p > 0 then
      [(Side.ask, p, (w.replace hugeBids []).count .ask p)] else [])
  have hnone : ∀ p, p ≠ 100 → p ≠ 101 → visit p = [] := by
    intro p h100 h101
    show (if (w.replace hugeBids []).count .bid p > 0 then _ else _) ++
      (if (w.replace hugeBids []).count .ask p > 0 then _ else _) = _
    rw [hcount, hcount, if_pos rfl, if_neg (Ne.symm h101), if_neg (Ne.symm h100)]
    rfl
  have hpair : List.range 102 = List.range 100 ++ [100, 101] := @List.range_add 100 2
  have hsplit : List.range (maxPriceE4 + 1) = List.range 102 ++ (List.range 9899).map (102 + ·) :=
    @List.range_add 102 9899
  have hlow : (List.range 100).flatMap visit = [] :=
    List.flatMap_eq_nil_iff.mpr fun p hp => by
      have hp := List.mem_range.mp hp
      exact hnone p (by omega) (by omega)
  have hhigh : ((List.range 9899).map (102 + ·)).flatMap visit = [] :=
    List.flatMap_eq_nil_iff.mpr fun p hp => by
      obtain ⟨i, -, rfl⟩ := List.mem_map.mp hp
      exact hnone (102 + i) (by omega) (by omega)
  have hvisit : [100, 101].flatMap visit = [(.bid, 100, 2 ^ 53 - 1), (.bid, 101, 2)] := by
    have hbid : (w.replace hugeBids []).count .bid 100 = 2 ^ 53 - 1 := hcount .bid 100
    have hnext : (w.replace hugeBids []).count .bid 101 = 2 := hcount .bid 101
    have hask : ∀ p, (w.replace hugeBids []).count .ask p = 0 := hcount .ask
    have hfirst : visit 100 = [(.bid, 100, 2 ^ 53 - 1)] := by
      show (if (w.replace hugeBids []).count .bid 100 > 0 then _ else _) ++
        (if (w.replace hugeBids []).count .ask 100 > 0 then _ else _) = _
      rw [hbid, hask, if_pos (by decide), if_neg (by decide), List.append_nil]
    have hsecond : visit 101 = [(.bid, 101, 2)] := by
      show (if (w.replace hugeBids []).count .bid 101 > 0 then _ else _) ++
        (if (w.replace hugeBids []).count .ask 101 > 0 then _ else _) = _
      rw [hnext, hask, if_pos (by decide), if_neg (by decide), List.append_nil]
    rw [List.flatMap_cons, List.flatMap_singleton, hfirst, hsecond]
    rfl
  show (List.range (maxPriceE4 + 1)).flatMap visit = _
  rw [hsplit, hpair, List.flatMap_append, List.flatMap_append, hlow, hhigh, hvisit]
  rfl

/-- Doubles do not hold the sum of the two. -/
theorem totals_rounded :
    let s := (TapeStore.new defaults : TapeStore ℚ).apply oneContract
      (.snapshot "M" .fresh hugeBids []) 0
    s.rowTotals.getD 1 0 = 2 ^ 53 ∧ rowSum s.book s.grid 1 = 2 ^ 53 + 1 := by
  intro s
  obtain ⟨hbook, -, hgrid, htotals⟩ := @shown_fresh ℚ _ oneContract (TapeStore.new defaults) "M" rfl
    hugeBids [] 0
  have hnonneg : (Book.new.replace hugeBids []).Nonneg := nonneg_replace (by decide)
  have hlevels := forEachLevel_hugeBids Book.new
  constructor
  · show (TapeStore.apply _ _ _ _).rowTotals.getD 1 0 = _
    rw [htotals]
    show (List.foldl (TapeStore.addLevel oneCentGrid) ((List.replicate 101 0).map fun _ => 0)
      (Book.new.replace hugeBids []).forEachLevel).getD 1 0 = _
    rw [hlevels]
    decide +kernel
  · show rowSum (TapeStore.apply _ _ _ _).book (TapeStore.apply _ _ _ _).grid 1 = _
    rw [hbook, hgrid]
    show rowSum (Book.new.replace hugeBids []) oneCentGrid 1 = _
    rw [← addedTo_forEachLevel hnonneg, hlevels]
    decide

/-- A bin in which the rows changed does not show that the book was unknown
before, and a total past 2^53 is not the sum of its row. -/
theorem heatmap_forgets_and_rounds :
    (let film := Run.final (Film.step oneContract) (.new defaults)
      [.message (.snapshot "M" .fresh [] []) 0, .setGrid tenthCentGrid 0]
    film.store.HoldsBin 0 ∧
      ¬ IsGreatest (codesIn 0 film.moments) (film.store.history.columnAt 0).status) ∧
    let s := (TapeStore.new defaults : TapeStore ℚ).apply oneContract
      (.snapshot "M" .fresh hugeBids []) 0
    s.rowTotals.getD 1 0 = 2 ^ 53 ∧ rowSum s.book s.grid 1 = 2 ^ 53 + 1 :=
  ⟨restart_forgets, totals_rounded⟩

end Tape.Web
