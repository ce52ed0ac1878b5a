import Tape.Recorder.Tapping

/-!
# A window without a fault is the book's history

While a tap is open, each of its recordings that has no fault yet pictures the
book it is about, as long as that book is fresh: replayed from its copy through
its events it ends at the levels the book has, and on the way it passes through
every level state the book has had since the opening (`Pictures`). An event that
took effect adds one state to both; everything else leaves the book as it is,
stale or gone. From stale the only way out is a snapshot, which faults the
recording, and from gone it is a new book, which is stale.

`audit_sound` reads this at the close, where a recording whose book is not the
one copied, or not fresh, is faulted. What a classification then says of the
window it says of the states of the book.
-/

namespace Tape

namespace Tapped

/-! ## The routes to a tap -/

theorem getD_routeTo {l : List Ticker} (hn : l.Nodup) (id : Nat) (routes : Dict Ticker (List Nat))
    (t : Ticker) :
    (l.foldl (routeTo id) routes).getD t [] =
      routes.getD t [] ++ if t ∈ l then [id] else [] := by
  induction l generalizing routes with
  | nil => simp
  | cons t' l ih =>
      rw [List.nodup_cons] at hn
      rw [List.foldl_cons, ih hn.2, routeTo]
      by_cases h : t' = t
      · subst h
        rw [Dict.getD, Dict.get?_set_self, Option.getD_some, if_neg hn.1,
          if_pos List.mem_cons_self, List.append_nil]
      · have hmem : t ∈ t' :: l ↔ t ∈ l := by simp [Ne.symm h]
        rw [Dict.getD, Dict.get?_set_ne h, Dict.getD]
        simp only [hmem]

theorem getD_unroute_one (id : Nat) (routes : Dict Ticker (List Nat)) (t' t : Ticker) :
    (unroute id routes t').getD t [] =
      if t' = t then (routes.getD t []).filter (fun open_ => open_ ≠ id) else routes.getD t [] := by
  rw [unroute]
  by_cases h : t' = t
  · subst h
    rw [if_pos rfl]
    split
    · next hnil => rw [hnil, Dict.getD, Dict.get?_erase_self, Option.getD_none]
    · rw [Dict.getD, Dict.get?_set_self, Option.getD_some]
  · rw [if_neg h]
    split
    · rw [Dict.getD, Dict.get?_erase_ne h, Dict.getD]
    · rw [Dict.getD, Dict.get?_set_ne h, Dict.getD]

theorem count_unroute {id id' : Nat} (hne : id' ≠ id) (l : List Ticker)
    (routes : Dict Ticker (List Nat)) (t : Ticker) :
    ((l.foldl (unroute id') routes).getD t []).count id = (routes.getD t []).count id := by
  induction l generalizing routes with
  | nil => rfl
  | cons t' l ih =>
      rw [List.foldl_cons, ih, getD_unroute_one]
      split
      · exact List.count_filter (by simpa using hne.symm)
      · rfl

theorem mem_unroute {id id' : Nat} (l : List Ticker) {routes : Dict Ticker (List Nat)}
    {t : Ticker} (h : id ∈ (l.foldl (unroute id') routes).getD t []) :
    id ∈ routes.getD t [] := by
  induction l generalizing routes with
  | nil => exact h
  | cons t' l ih =>
      have hmem := ih h
      rw [getD_unroute_one] at hmem
      split at hmem
      · exact List.mem_of_mem_filter hmem
      · exact hmem

/-- A tap that is routed to once records once. -/
theorem get?_recordTap {l : List Nat} {id : Nat} (h : l.count id ≤ 1) (e : BookEvent)
    (wasStale : Bool) (taps : Dict Nat LiveBookTap) :
    (l.foldl (recordTap e wasStale) taps).get? id =
      (taps.get? id).map fun tap => if l.count id = 1 then tap.record e wasStale else tap := by
  induction l generalizing taps with
  | nil => simp
  | cons id' l ih =>
      rw [List.foldl_cons]
      by_cases heq : id' = id
      · subst heq
        rw [List.count_cons_self] at h ⊢
        have hzero : l.count id' = 0 := by omega
        rw [ih (by omega), hzero, recordTap]
        cases htap : taps.get? id' with
        | none => simp [htap]
        | some tap => simp
      · rw [List.count_cons_of_ne heq] at h ⊢
        have hother : (recordTap e wasStale taps id').get? id = taps.get? id := by
          rw [recordTap]
          split
          · rfl
          · exact Dict.get?_set_ne heq
        rw [ih h, hother]

/-! ## What holds on every run -/

/-- Books keep their invariant, and no route leads to a tap yet to be opened. -/
structure Numbered (s : Tapped) : Prop where
  books : s.supervisor.SoundBooks
  routed : ∀ t, ∀ id ∈ s.routes.getD t [], id < s.opened

variable {s s' : Tapped}

theorem Took.sound {e : BookEvent} {b b' : Book} (h : Took s e b b' s')
    (hs : s.supervisor.SoundBooks) : s'.supervisor.SoundBooks := by
  intro t book hget
  rw [h.books] at hget
  split at hget
  · obtain rfl := Option.some.inj hget
    have hinv := e.inv_perform h.inv
    rw [h.perform] at hinv
    exact hinv
  · exact hs t book hget

/-- What opening a tap does, if it does not raise. -/
theorem openTap_spec (s : Tapped) (tickers : Finset Ticker) {maxEvents : Int}
    (hpos : 0 < maxEvents) :
    ∃ tap, (s.openTap tickers maxEvents).taps = s.taps.set s.opened tap ∧
      (s.openTap tickers maxEvents).supervisor = s.supervisor ∧
      (s.openTap tickers maxEvents).opened = s.opened + 1 ∧
      (∀ t, (s.openTap tickers maxEvents).routes.getD t [] =
        s.routes.getD t [] ++ if t ∈ tickers then [s.opened] else []) ∧
      tap.windows = none ∧ tap.tickers = tickers ∧
      ∀ t, tap.recordings.get? t =
        if t ∈ tickers then some (Recording.opening s.books t) else none := by
  rw [openTap, LiveBookTap.new, dif_neg (by omega)]
  refine ⟨_, rfl, rfl, rfl, fun t => ?_, rfl, rfl, fun t => ?_⟩
  · rw [getD_routeTo (nodup_sortedTickers tickers)]
    simp only [mem_sortedTickers]
  · rw [Dict.get?_tabulate]
    simp only [mem_sortedTickers]

theorem openTap_raises (s : Tapped) (tickers : Finset Ticker) {maxEvents : Int}
    (hpos : ¬ 0 < maxEvents) : s.openTap tickers maxEvents = s := by
  rw [openTap, LiveBookTap.new, dif_pos (by omega)]

/-- Closing a tap concerns no other tap and no book. -/
theorem closeTap_other (s : Tapped) (id' : Nat) :
    (s.closeTap id').supervisor = s.supervisor ∧ (s.closeTap id').opened = s.opened ∧
      (∀ id, id' ≠ id → (s.closeTap id').taps.get? id = s.taps.get? id) ∧
      (∀ id t, id' ≠ id →
        ((s.closeTap id').routes.getD t []).count id = (s.routes.getD t []).count id) ∧
      ∀ id t, id ∈ (s.closeTap id').routes.getD t [] → id ∈ s.routes.getD t [] := by
  rw [closeTap]
  split
  · exact ⟨rfl, rfl, fun _ _ => rfl, fun _ _ _ => rfl, fun _ _ h => h⟩
  · next tap _ =>
      dsimp only
      split
      · exact ⟨rfl, rfl, fun _ hne => Dict.get?_set_ne hne, fun _ _ _ => rfl, fun _ _ h => h⟩
      · exact ⟨rfl, rfl, fun _ hne => Dict.get?_set_ne hne,
          fun _ t hne => count_unroute hne _ _ t, fun _ _ h => mem_unroute _ h⟩

theorem Numbered.step (h : Numbered s) (a : Act) : Numbered (s.step a) := by
  by_cases hopen : ∃ tickers maxEvents, a = .openTap tickers maxEvents
  · obtain ⟨tickers, maxEvents, rfl⟩ := hopen
    show Numbered (s.openTap tickers maxEvents)
    by_cases hpos : 0 < maxEvents
    · obtain ⟨tap, -, hsupervisor, hopened, hroutes, -⟩ := s.openTap_spec tickers hpos
      refine ⟨hsupervisor ▸ h.books, fun t id hid => ?_⟩
      rw [hroutes, List.mem_append] at hid
      rw [hopened]
      rcases hid with hid | hid
      · exact Nat.lt_succ_of_lt (h.routed t id hid)
      · split at hid
        · rw [List.mem_singleton.mp hid]
          omega
        · cases hid
    · rw [s.openTap_raises tickers hpos]
      exact h
  by_cases hclose : ∃ id, a = .closeTap id
  · obtain ⟨id, rfl⟩ := hclose
    obtain ⟨hsupervisor, hopened, -, -, hmem⟩ := s.closeTap_other id
    show Numbered (s.closeTap id)
    refine ⟨hsupervisor ▸ h.books, fun t id' hid' => ?_⟩
    rw [hopened]
    exact h.routed t id' (hmem id' t hid')
  rcases step_cases h.books a (fun t m ha => hopen ⟨t, m, ha⟩) (fun id ha => hclose ⟨id, ha⟩) with
    hidle | ⟨e, b, b', htook⟩
  · refine ⟨hidle.worsens.sound h.books, ?_⟩
    rw [hidle.routes, hidle.opened]
    exact h.routed
  · refine ⟨htook.sound h.books, ?_⟩
    rw [htook.routes, htook.opened]
    exact h.routed

theorem numbered_new (config : SupervisorConfig) : Numbered (.new config) :=
  ⟨fun _ _ h => (nomatch h), fun _ _ h => (nomatch h)⟩

theorem numbered_run (h : Numbered s) (acts : List Act) :
    Numbered (Run.final Tapped.step s acts) :=
  (Run.throughout_of_step (L := fun _ _ => True) (fun _ a hs _ => hs.step a) h
    (Run.along_true s acts)).last

end Tapped

/-! ## A recording and its book -/

/-- Replayed from its copy, the recording ends at what is known of the book and
passes through what the book was at each of the moments. -/
def Recording.Pictures (r : Recording) (t : Ticker) (b : Book)
    (moments : List (Option BookImage)) : Prop :=
  ∃ start first passed last, r.start = some start ∧ start.toBook t = .ok first ∧
    r.events.foldlM passThrough ([BookImage.of first], first) =
      .ok (passed ++ [BookImage.of last], last) ∧
    last.Inv ∧ last.live = b.live ∧
    Run.Lasting ((passed ++ [BookImage.of last]).map some) moments

theorem BookImage.of_eq_of_live {a b : Book} (ha : a.Inv) (hb : b.Inv) (hf : b.stale = false)
    (h : a.live = b.live) : BookImage.of a = BookImage.of b := by
  rw [Book.live_of_fresh hf] at h
  obtain ⟨-, hdepth⟩ := Book.live_eq_some_iff.mp h
  exact (BookImage.of_eq_iff ha hb).mpr hdepth

namespace Recording

variable {r : Recording} {t : Ticker} {b b' : Book} {moments : List (Option BookImage)}

theorem opening_of_fresh {books : Dict Ticker HeldBook} {held : HeldBook}
    (hget : books.get? t = some held) (hf : held.book.stale = false) :
    (opening books t).start = some (BookImage.of held.book) ∧ (opening books t).events = [] := by
  rw [opening, hget]
  dsimp only
  rw [if_neg (by simp [hf])]
  exact ⟨rfl, rfl⟩

/-- The copy of a fresh book is a book with the same levels. -/
theorem pictures_opening {books : Dict Ticker HeldBook} {held : HeldBook}
    (hget : books.get? t = some held) (hinv : held.book.Inv) (hf : held.book.stale = false) :
    (opening books t).Pictures t held.book [some (BookImage.of held.book)] := by
  have hvalid := hinv.validImage_levels hf
  have hok := (Book.applySnapshot_ok_iff (Book.new t) none).mpr hvalid
  obtain ⟨hinv', hf', hdepth, -, -⟩ := Book.applySnapshot_of_valid (Book.new t) none hvalid
  rw [hinv.ofLevels_levels] at hdepth
  cases hcopy : (Book.new t).applySnapshot (held.book.levels .bid) (held.book.levels .ask) none with
  | mk first result =>
      rw [hcopy] at hok hinv' hf' hdepth
      dsimp only at hok hinv' hf' hdepth
      subst hok
      have hlive : first.live = held.book.live := by
        rw [Book.live_of_fresh hf', Book.live_of_fresh hf, hdepth]
      obtain ⟨hstart, hevents⟩ := opening_of_fresh hget hf
      refine ⟨BookImage.of held.book, first, [], first, hstart, ?_, ?_, hinv', hlive, ?_⟩
      · rw [BookImage.toBook, BookImage.of, hcopy]
      · rw [hevents]
        rfl
      · rw [← BookImage.of_eq_of_live hinv' hinv hf hlive]
        exact .start _

/-- The book has not changed. -/
theorem Pictures.stay (h : r.Pictures t b moments) (hinv : b.Inv) (hf : b.stale = false) :
    r.Pictures t b (moments ++ [some (BookImage.of b)]) := by
  obtain ⟨start, first, passed, last, hstart, hfirst, hfold, hlast, hlive, hlasting⟩ := h
  refine ⟨start, first, passed, last, hstart, hfirst, hfold, hlast, hlive, ?_⟩
  rw [← BookImage.of_eq_of_live hlast hinv hf hlive]
  rw [List.map_append] at hlasting ⊢
  exact .stay hlasting

/-- An event that took effect on the book takes effect in the replay. -/
theorem Pictures.next (h : r.Pictures t b moments) (hinv : b.Inv) {e : BookEvent}
    (hperform : e.perform b = (b', .ok true)) {r' : Recording} (hstart' : r'.start = r.start)
    (hevents : r'.events = r.events ++ [e]) :
    r'.Pictures t b' (moments ++ [some (BookImage.of b')]) := by
  obtain ⟨start, first, passed, last, hstart, hfirst, hfold, hlast, hlive, hlasting⟩ := h
  have hinv' := e.inv_perform hinv
  have hfollow := e.live_perform hinv
  have hknown := (e.perform_ok_iff hinv).mp (by rw [hperform])
  rw [hperform] at hinv' hfollow
  have hinv_last := e.inv_perform hlast
  have hfollow_last := e.live_perform hlast
  have hok : (e.perform last).2 = .ok true := by
    rw [e.perform_ok_iff hlast, hlive]
    exact hknown
  obtain ⟨d, hd⟩ := hknown
  have hf' : b'.stale = false := (Book.live_eq_some_iff.mp (hfollow.trans hd)).1
  cases hreplay : e.perform last with
  | mk last' result =>
      rw [hreplay] at hok hinv_last hfollow_last
      dsimp only at hok hinv_last hfollow_last hinv' hfollow
      subst hok
      have hlive' : last'.live = b'.live := by rw [hfollow_last, hfollow, hlive]
      refine ⟨start, first, passed ++ [BookImage.of last], last', hstart'.trans hstart, hfirst, ?_,
        hinv_last, hlive', ?_⟩
      · rw [hevents, List.foldlM_append, hfold]
        show passThrough _ e >>= pure = _
        rw [passThrough, replayChange, hreplay]
        rfl
      · rw [List.map_append, ← BookImage.of_eq_of_live hinv_last hinv' hf' hlive']
        exact .next _ hlasting

end Recording

namespace Tapped

variable {s s' : Tapped}

/-! ## A tap that is open -/

/-- A tap is open over the markets, and pictures those of their books that are
fresh. -/
structure Watching (s : Tapped) (id : Nat) (tickers : Finset Ticker)
    (moments : Ticker → List (Option BookImage)) : Prop where
  opened : id < s.opened
  routed : ∀ t, (s.routes.getD t []).count id = if t ∈ tickers then 1 else 0
  tap : ∃ tap, s.taps.get? id = some tap ∧ tap.windows = none ∧
    (∀ t, t ∈ tap.recordings.keys ↔ t ∈ tickers) ∧
    ∀ t r, tap.recordings.get? t = some r → r.fault = none →
      ∀ b, s.supervisor.books.get? t = some b → b.stale = false → r.Pictures t b (moments t)

theorem watching_opened (h : Numbered s) (tickers : Finset Ticker) {maxEvents : Int}
    (hpos : 0 < maxEvents) :
    (s.openTap tickers maxEvents).Watching s.opened tickers
      fun t => [imageOf t (s.openTap tickers maxEvents)] := by
  obtain ⟨tap, htaps, hsupervisor, hopened, hroutes, hwindows, -, hrecordings⟩ :=
    s.openTap_spec tickers hpos
  refine ⟨by omega, fun t => ?_, tap, ?_, hwindows, fun t => ?_, fun t r hr _ b hb hf => ?_⟩
  · have hzero : (s.routes.getD t []).count s.opened = 0 :=
      List.count_eq_zero.mpr fun hmem => Nat.lt_irrefl _ (h.routed t _ hmem)
    rw [hroutes, List.count_append, hzero]
    split <;> simp
  · rw [htaps, Dict.get?_set_self]
  · rw [Dict.mem_keys_iff, hrecordings]
    split <;> simp [*]
  · rw [hrecordings] at hr
    rw [hsupervisor] at hb
    split at hr
    · obtain rfl := Option.some.inj hr
      have hheld : s.books.get? t = some ⟨s.refs t, b⟩ := by
        rw [books, Dict.get?_mapValues, hb, Option.map_some]
      rw [imageOf, hsupervisor, hb, Option.map_some]
      exact Recording.pictures_opening hheld (h.books t b hb) hf
    · cases hr

/-- What tells the tap nothing leaves it a picture of what is still fresh. -/
theorem Watching.idle {id : Nat} {tickers : Finset Ticker}
    {moments : Ticker → List (Option BookImage)} (h : s.Watching id tickers moments)
    (hs : s.supervisor.SoundBooks) (hworsens : s.supervisor.Worsens s'.supervisor)
    (htap : s'.taps.get? id = s.taps.get? id) (hopened : s.opened ≤ s'.opened)
    (hrouted : ∀ t, (s'.routes.getD t []).count id = (s.routes.getD t []).count id) :
    s'.Watching id tickers fun t => moments t ++ [imageOf t s'] := by
  obtain ⟨tap, hget, hwindows, hkeys, hpictures⟩ := h.tap
  refine ⟨Nat.lt_of_lt_of_le h.opened hopened, fun t => (hrouted t).trans (h.routed t),
    tap, htap.trans hget, hwindows, hkeys, fun t r hr hfault b hb hf => ?_⟩
  rcases hworsens t b hb with hold | ⟨hstale, -⟩
  · rw [imageOf, hb, Option.map_some]
    exact (hpictures t r hr hfault b hold hf).stay (hs t b hold) hf
  · rw [hf] at hstale
    cases hstale

/-- An event that took effect is in the recording of its market, if the
recording still vouches for anything. -/
theorem Watching.took {id : Nat} {tickers : Finset Ticker}
    {moments : Ticker → List (Option BookImage)} (h : s.Watching id tickers moments)
    (hs : s.supervisor.SoundBooks) {e : BookEvent} {b b' : Book} (htook : Took s e b b' s') :
    s'.Watching id tickers fun t => moments t ++ [imageOf t s'] := by
  obtain ⟨tap, hget, hwindows, hkeys, hpictures⟩ := h.tap
  have hcount := h.routed e.ticker
  have hle : (s.routes.getD e.ticker []).count id ≤ 1 := by
    rw [hcount]
    split <;> omega
  have htap' := get?_recordTap hle e (s.routes.contains e.ticker && b.stale) s.taps
  rw [← htook.taps, hget, Option.map_some] at htap'
  refine ⟨htook.opened ▸ h.opened, fun t => htook.routes ▸ h.routed t, _, htap', ?_,
    fun t => ?_, fun t r hr hfault book hb hf => ?_⟩
  · split <;> exact hwindows
  · rw [← hkeys t]
    split
    · rw [LiveBookTap.record, Dict.keys_mapValues]
    · exact Iff.rfl
  · rw [imageOf, hb, Option.map_some]
    rw [htook.books] at hb
    by_cases ht : e.ticker = t
    · subst ht
      rw [if_pos rfl] at hb
      obtain rfl := Option.some.inj hb
      have hmem : e.ticker ∈ tickers := by
        by_contra hnot
        rw [if_neg (by rw [hcount, if_neg hnot]; omega)] at hr
        exact hnot ((hkeys e.ticker).mp (Dict.mem_keys_of_get? hr))
      rw [if_pos hmem] at hcount
      rw [if_pos hcount, LiveBookTap.record, Dict.get?_mapValues] at hr
      obtain ⟨r₀, hr₀, rfl⟩ := Option.map_eq_some_iff.mp hr
      rw [if_pos rfl] at hfault ⊢
      obtain ⟨hfault₀, hwasStale, hstart, hevents⟩ := Recording.record_faultless hfault
      -- The tap is routed to, so the flag it was given is the book's.
      have htapped : s.routes.contains e.ticker = true := by
        by_contra huntapped
        rw [Dict.contains, Bool.not_eq_true, Option.isSome_eq_false_iff,
          Option.isNone_iff_eq_none] at huntapped
        rw [Dict.getD, huntapped] at hcount
        cases hcount
      rw [htapped, Bool.true_and] at hwasStale
      have hold : s.supervisor.books.get? e.ticker = some b :=
        htook.before.resolve_right (by simp [hwasStale])
      exact (hpictures e.ticker r₀ hr₀ hfault₀ b hold hwasStale).next htook.inv htook.perform
        hstart hevents
    · rw [if_neg ht] at hb
      have hr' : tap.recordings.get? t = some r := by
        split at hr
        · rw [LiveBookTap.record, Dict.get?_mapValues] at hr
          obtain ⟨r₀, hr₀, rfl⟩ := Option.map_eq_some_iff.mp hr
          rw [if_neg (Ne.symm ht)]
          exact hr₀
        · exact hr
      exact (hpictures t r hr' hfault book hb hf).stay (hs t book hb) hf

theorem Watching.step {id : Nat} {tickers : Finset Ticker}
    {moments : Ticker → List (Option BookImage)} (h : s.Watching id tickers moments)
    (hs : Numbered s) (a : Act) (hopen : a ≠ .closeTap id) :
    (s.step a).Watching id tickers fun t => moments t ++ [imageOf t (s.step a)] := by
  by_cases hother : ∃ tickers' maxEvents, a = .openTap tickers' maxEvents
  · obtain ⟨tickers', maxEvents, rfl⟩ := hother
    show (s.openTap tickers' maxEvents).Watching id tickers _
    by_cases hpos : 0 < maxEvents
    · obtain ⟨tap, htaps, hsupervisor, hopened, hroutes, -⟩ := s.openTap_spec tickers' hpos
      have hne : s.opened ≠ id := Nat.ne_of_gt h.opened
      refine h.idle hs.books (Supervisor.worsens_of_books (by rw [hsupervisor])) ?_ (by omega)
        fun t => ?_
      · rw [htaps, Dict.get?_set_ne hne]
      · rw [hroutes, List.count_append]
        split <;> simp [hne]
    · rw [show s.step (.openTap tickers' maxEvents) = s from s.openTap_raises tickers' hpos,
        s.openTap_raises tickers' hpos]
      exact h.idle hs.books (Supervisor.worsens_of_books rfl) rfl (Nat.le_refl _) fun _ => rfl
  by_cases hclose : ∃ id', a = .closeTap id'
  · obtain ⟨id', rfl⟩ := hclose
    have hne : id' ≠ id := fun heq => hopen (heq ▸ rfl)
    obtain ⟨hsupervisor, hopened, htaps, hcount, -⟩ := s.closeTap_other id'
    have hworsens : s.supervisor.Worsens (s.closeTap id').supervisor :=
      Supervisor.worsens_of_books (by rw [hsupervisor])
    exact h.idle hs.books hworsens (htaps id hne) (Nat.le_of_eq hopened.symm)
      fun t => hcount id t hne
  rcases step_cases hs.books a (fun t m ha => hother ⟨t, m, ha⟩) (fun id ha => hclose ⟨id, ha⟩)
    with hidle | ⟨e, b, b', htook⟩
  · exact h.idle hs.books hidle.worsens (by rw [hidle.taps]) (by rw [hidle.opened])
      fun t => by rw [hidle.routes]
  · exact h.took hs.books htook

/-- The tap pictures what the books have been since it opened. -/
theorem watching_run {id : Nat} {tickers : Finset Ticker} (hs : Numbered s)
    (h : s.Watching id tickers fun t => [imageOf t s]) (during : List Act)
    (hopen : ∀ a ∈ during, a ≠ .closeTap id) :
    (Run.final Tapped.step s during).Watching id tickers
      fun t => (Run.states Tapped.step s during).map (imageOf t) := by
  induction during using List.reverseRecOn with
  | nil => exact h
  | append_singleton during a ih =>
      have hbefore := ih fun a' ha' => hopen a' (List.mem_append_left _ ha')
      rw [Run.final_append]
      have hnext := hbefore.step (numbered_run hs during) a
        (hopen a (List.mem_append_right _ List.mem_cons_self))
      simp only [Run.states_concat, List.map_append, List.map_cons, List.map_nil]
      exact hnext

/-! ## The close -/

/-- A window that closes without a fault replays to the states of its book. -/
theorem Watching.window {id : Nat} {tickers : Finset Ticker}
    {moments : Ticker → List (Option BookImage)} (h : s.Watching id tickers moments) :
    ∃ windows, (s.closeTap id).windowsOf id = some windows ∧
      (∀ t, t ∈ windows.keys ↔ t ∈ tickers) ∧
      ∀ t w, windows.get? t = some w → w.fault = none →
        w.ticker = t ∧ ∃ images, w.states = .ok images ∧
          Run.Lasting (images.map some) (moments t) := by
  obtain ⟨tap, hget, hwindows, hkeys, hpictures⟩ := h.tap
  have hclosed : (s.closeTap id).windowsOf id =
      some (tap.recordings.mapValues fun t r => r.finish s.books t) := by
    rw [closeTap, hget]
    dsimp only
    rw [hwindows, windowsOf, releaseTap, Dict.get?_set_self, LiveBookTap.close, hwindows]
    rfl
  refine ⟨_, hclosed, fun t => ?_, fun t w hw hfault => ?_⟩
  · rw [Dict.keys_mapValues]
    exact hkeys t
  · rw [Dict.get?_mapValues] at hw
    obtain ⟨r, hr, rfl⟩ := Option.map_eq_some_iff.mp hw
    obtain ⟨hnone, ⟨held, hheld, hf⟩, hstart, hevents⟩ := Recording.finish_faultless hfault
    rw [books, Dict.get?_mapValues] at hheld
    obtain ⟨b, hb, rfl⟩ := Option.map_eq_some_iff.mp hheld
    obtain ⟨start, first, passed, last, hcopy, hfirst, hfold, -, -, hlasting⟩ :=
      hpictures t r hr hnone b hb hf
    refine ⟨Recording.finish_ticker r s.books t, _, ?_, hlasting⟩
    rw [TapWindow.states, hstart, hcopy, Recording.finish_ticker]
    dsimp only
    rw [hfirst]
    dsimp only
    rw [hevents, hfold]

/-- A window without a fault is what its market's book was while the tap was
open, state by state; and if it is judged inconsistent with a REST book, that
book was none of these. -/
theorem audit_sound (config : SupervisorConfig) (before during : List Act)
    (tickers : Finset Ticker) {maxEvents : Int} (hpos : 0 < maxEvents)
    (hopen : ∀ a ∈ during,
      a ≠ .closeTap (Run.final Tapped.step (.new config) before).opened) :
    let s := Run.final Tapped.step (.new config) before
    let opened := s.step (.openTap tickers maxEvents)
    let closed := (Run.final Tapped.step opened during).step (.closeTap s.opened)
    ∃ windows, closed.windowsOf s.opened = some windows ∧
      (∀ t, t ∈ windows.keys ↔ t ∈ tickers) ∧
      ∀ t w, windows.get? t = some w → w.fault = none →
        (∃ images, w.states = .ok images ∧
          Run.Lasting (images.map some) ((Run.states Tapped.step opened during).map (imageOf t))) ∧
        ∀ restBook replyMonoNs verdict, restBook.Reachable → restBook.ticker = t →
          classifyWindow w restBook replyMonoNs Book.checksum = .ok verdict →
          verdict.outcome = .inconsistent →
          ∀ held ∈ Run.states Tapped.step opened during,
            imageOf t held ≠ some (BookImage.of restBook) := by
  intro s opened closed
  have hs : Numbered s := numbered_run (numbered_new config) before
  have hwatching := watching_run (hs.step (.openTap tickers maxEvents))
    (watching_opened hs tickers hpos) during hopen
  obtain ⟨windows, hclosed, hkeys, hsound⟩ := hwatching.window
  refine ⟨windows, hclosed, hkeys, fun t w hw hfault => ?_⟩
  obtain ⟨hticker, images, hstates, hlasting⟩ := hsound t w hw hfault
  refine ⟨⟨images, hstates, hlasting⟩, ?_⟩
  intro restBook replyMonoNs verdict hrest hrestTicker hverdict hinconsistent held hheld heq
  have hmem : some (BookImage.of restBook) ∈ images.map some :=
    (hlasting.mem_iff _).mp (heq ▸ List.mem_map_of_mem hheld)
  obtain ⟨image, himage, himageEq⟩ := List.mem_map.mp hmem
  obtain ⟨n, hn, hat⟩ := List.getElem_of_mem (Option.some.inj himageEq ▸ himage)
  obtain ⟨verdict', hverdict', -, hexact, -, hconsistent, -⟩ :=
    classifyWindow_spec replyMonoNs hfault hstates hrest (hrestTicker.trans hticker.symm)
      fun _ _ h => Book.checksum_of_levels h
  rw [hverdict] at hverdict'
  obtain rfl := Except.ok.inj hverdict'
  rw [hinconsistent] at hexact hconsistent
  have hmatch : ∃ i, decide (images[i]? = some (BookImage.of restBook)) = true :=
    ⟨n, decide_eq_true (by rw [List.getElem?_eq_getElem hn, hat])⟩
  have hnotReply := Bool.eq_false_iff.mpr fun h => nomatch hexact.mpr h
  exact nomatch (hconsistent hnotReply hmatch).1

/-- A connection that carries one market, up to the snapshot of its book. -/
def quotedMarket : List Act :=
  [.setGroup (some ⟨"g0000", 0, {"KXA"}⟩), .beginConnection,
    .recordChange (.addGroup ⟨"g0000", 0, {"KXA"}⟩),
    .awaitReplies 1 "g0000" [orderbookChannel],
    .reply ⟨none, none, some 1, .subscribed (.ok ⟨orderbookChannel, 7⟩)⟩,
    .dispatch ⟨some 7, some 1, none, .orderbookSnapshot
      (.ok ⟨"KXA", some [("0.4000", "2.00")], some [("0.6000", "1.00")]⟩)⟩ ⟨0, 10, 10⟩]

/-- A level is raised. -/
def raisedBid : Act :=
  .dispatch ⟨some 7, some 2, none, .orderbookDelta
    (.ok ⟨"KXA", "0.4000", "1.00", .yes, none, none⟩)⟩ ⟨0, 20, 20⟩

/-- The window of a tap open over one delta has no fault, and the book a REST
reply shows was not among the states. -/
theorem audit_sound_raised :
    let opened := (Run.final Tapped.step (.new ⟨0, [orderbookChannel], [], true, true, 500⟩)
      quotedMarket).step (.openTap {"KXA"} 10)
    ∃ windows w, (((opened.step raisedBid).step (.closeTap 0)).windowsOf 0 = some windows) ∧
      windows.get? "KXA" = some w ∧ w.fault = none ∧ w.events.length = 1 ∧
      ∀ held ∈ [opened, opened.step raisedBid],
        imageOf "KXA" held ≠ some (BookImage.of (quotedBook "KXA")) := by
  intro opened
  obtain ⟨windows, hwindows, -, hsound⟩ :=
    audit_sound ⟨0, [orderbookChannel], [], true, true, 500⟩ quotedMarket [raisedBid] {"KXA"}
      (by decide : (0 : Int) < 10) (by simp [raisedBid])
  have hfacts : ((((opened.step raisedBid).step (.closeTap 0)).windowsOf 0).bind
      fun windows => (windows.get? "KXA").map fun w =>
        (w.fault, w.events.length,
          (classifyWindow w (quotedBook "KXA") 15 Book.checksum).toOption.map
            WindowVerdict.outcome)) = some (none, 1, some .inconsistent) := by
    decide +kernel
  have hwindows : ((opened.step raisedBid).step (.closeTap 0)).windowsOf 0 = some windows :=
    hwindows
  rw [hwindows, Option.bind_some] at hfacts
  obtain ⟨w, hw, hfacts⟩ := Option.map_eq_some_iff.mp hfacts
  obtain ⟨hfault, hrest⟩ := Prod.mk.inj hfacts
  obtain ⟨hlength, hverdict⟩ := Prod.mk.inj hrest
  obtain ⟨verdict, hclassified, hinconsistent⟩ := Option.map_eq_some_iff.mp hverdict
  refine ⟨windows, w, hwindows, hw, hfault, hlength, ?_⟩
  refine (hsound "KXA" w hw hfault).2 (quotedBook "KXA") 15 verdict ⟨_, rfl⟩ rfl ?_ hinconsistent
  cases hw' : classifyWindow w (quotedBook "KXA") 15 Book.checksum with
  | error e =>
      rw [hw'] at hclassified
      cases hclassified
  | ok v =>
      rw [hw'] at hclassified
      exact congrArg Except.ok (Option.some.inj hclassified)

end Tapped

end Tape
