import Tape.Bus.Soundness

/-!
# The levels of a copy, stale or not

`Current` says what a copy is worth while it is fresh. The levels of a copy go
further: they are those of the publisher's book even while it is stale, since a
stale book takes no delta (`Mirrors`). There are two exceptions. A book that a
delta crossed keeps the level that crossed it, and no image of it is adopted. A
book that was let go may be opened again by an image no book can hold: it is
then stale and empty, while the copy has the levels it had. `Reopens` leaves
that one out.

What follows is that a refresh of a copy that is held keeps its levels.
-/

namespace Tape

/-- A copy has the levels of the book, unless the book is crossed. -/
def Mirrors (p : Publisher) (copies : Dict Ticker Book) : Prop :=
  ∀ t c b, copies.get? t = some c → p.books.get? t = some b →
    c.depth = b.depth ∨ ¬ b.depth.Uncrossed

/-- An image that opens a book for a market that was let go is one a book can
hold. -/
def Reopens (ops : List PublisherOp) (p : Publisher) : PublisherOp → Prop
  | .book (.snapshot e) =>
      Released ops e.ticker → p.books.get? e.ticker = none → Book.ValidImage e.bids e.asks
  | _ => True

/-- Every operation of a run does so. -/
def ReopensAll (start : Nat) (ops : List PublisherOp) : Prop :=
  ∀ pre o post, ops = pre ++ o :: post → Reopens pre ((Publisher.new start).after pre) o

variable {ops : List PublisherOp} {o : PublisherOp} {sent heard : List BusEnvelope}
  {p p' : Publisher} {m : BusEnvelope} {l : LiveBooks}

/-- The levels of a book after an event that did not take effect are those it
had, unless they are crossed. -/
theorem depth_perform_idle {e : BookEvent} {b : Book} (hb : b.Inv)
    (hidle : (e.perform b).2 ≠ .ok true) :
    (e.perform b).1.depth = b.depth ∨ ¬ (e.perform b).1.depth.Uncrossed := by
  cases e with
  | snapshot e =>
      have hinvalid : ¬ Book.ValidImage e.bids e.asks := by
        intro hv
        obtain ⟨-, hfresh, -⟩ := Book.applySnapshot_of_valid b e.tsMs hv
        refine hidle ((BookEvent.perform_ok_iff (.snapshot e) hb).mpr
          ⟨(b.applySnapshot e.bids e.asks e.tsMs).1.depth, ?_⟩)
        rw [← BookEvent.live_perform _ hb, BookEvent.perform_snapshot_fst]
        exact Book.live_of_fresh hfresh
      rw [BookEvent.perform_snapshot_fst, Book.applySnapshot_of_invalid b e.tsMs hinvalid]
      exact .inl b.depth_markStale
  | delta e =>
      rw [BookEvent.perform] at hidle ⊢
      rcases b.applyDelta_cases e.side e.price e.delta e.tsMs with
        ⟨-, heq⟩ | ⟨-, -, err, heq⟩ | ⟨-, hnonneg, ⟨err, heq⟩, hcross⟩ | ⟨-, -, heq, -⟩
      · rw [heq]
        exact .inl rfl
      · rw [heq]
        exact .inl b.depth_markStale
      · rw [heq, Book.depth_markStale, Book.writeLevel_depth]
        exact .inr fun hun => hcross ((hb.writeLevel_crossing_iff hnonneg).mpr hun)
      · rw [heq] at hidle
        exact absurd rfl hidle

/-- An operation that publishes nothing. -/
theorem Mirrors.silent (h : Mirrors p l.books) (hi : p.Inv)
    (hcurrent : Current ops sent heard p l.books) (hreopens : Reopens ops p o)
    (ho : p.perform o = (p', none)) (hsame : p'.bus = p.bus) : Mirrors p' l.books := by
  intro t c b hc hb
  cases o with
  | book e =>
      have htook := applyToBooks_took_iff (e := e) hi
      rw [Publisher.perform] at ho
      split at ho
      · cases ho
      · next books happly =>
          rw [happly] at htook
          obtain ⟨rfl, -⟩ := Prod.mk.inj ho
          cases hfor : bookFor p.books e with
          | none =>
              rw [applyToBooks_of_none hfor] at happly
              obtain ⟨rfl, -⟩ := Prod.mk.inj happly
              exact h t c b hc hb
          | some book =>
              obtain ⟨hinv, hlive⟩ := bookFor_of_some hi hfor
              have hidle : (e.perform book).2 ≠ .ok true := by
                intro hok
                rw [e.perform_ok_iff hinv, hlive, ← htook] at hok
                cases hok
              have hbooks := (applyToBooks_of_some hfor).1
              rw [happly] at hbooks
              obtain rfl : books = _ := hbooks
              rw [Dict.get?_set] at hb
              split at hb
              · next ht =>
                  subst ht
                  obtain rfl := Option.some.inj hb
                  cases hheld : p.books.get? e.ticker with
                  | some held =>
                      have hbook : book = held := by
                        cases e with
                        | snapshot e =>
                            obtain rfl := Option.some.inj hfor
                            rw [Dict.getD]
                            exact congrArg (Option.getD · _) hheld
                        | delta e => exact Option.some.inj (hfor.symm.trans hheld)
                      subst hbook
                      rcases depth_perform_idle hinv hidle with hdepth | hcrossed
                      · rw [hdepth]
                        exact h _ c book hc hheld
                      · exact .inr hcrossed
                  | none =>
                      -- the copy is of a book that was let go
                      have hreleased := (hcurrent.held _ c hc).resolve_left
                        (Dict.get?_eq_none_iff.mp hheld)
                      cases e with
                      | snapshot e =>
                          have hvalid := hreopens hreleased hheld
                          obtain ⟨-, hfresh, -⟩ := Book.applySnapshot_of_valid book e.tsMs hvalid
                          refine absurd ((BookEvent.perform_ok_iff (.snapshot e) hinv).mpr
                            ⟨(book.applySnapshot e.bids e.asks e.tsMs).1.depth, ?_⟩) hidle
                          rw [← BookEvent.live_perform _ hinv, BookEvent.perform_snapshot_fst]
                          exact Book.live_of_fresh hfresh
                      | delta e =>
                          have hnone : p.books.get? e.ticker = some book := hfor
                          exact absurd (hnone.symm.trans hheld) (by rintro ⟨⟩)
              · exact h t c b hc hb
  | markStale tickers =>
      obtain ⟨rfl, -⟩ := Prod.mk.inj ho
      rw [Dict.get?_mapValues, Option.map_eq_some_iff] at hb
      obtain ⟨held, hheld, rfl⟩ := hb
      have hdepth : (if t ∈ tickers then held.markStale else held).depth = held.depth := by
        split
        · exact held.depth_markStale
        · rfl
      rw [hdepth]
      exact h t c held hc hheld
  | release tickers =>
      obtain ⟨rfl, -⟩ := Prod.mk.inj ho
      rw [Dict.get?_filter, Option.filter_eq_some_iff] at hb
      exact h t c b hc hb.1
  | refresh ticker receipt =>
      rw [Publisher.perform] at ho
      split at ho
      · obtain ⟨rfl, -⟩ := Prod.mk.inj ho
        exact h t c b hc hb
      · cases ho
  | announce notice => cases ho
  | restart epoch =>
      obtain ⟨rfl, -⟩ := Prod.mk.inj ho
      cases hb

/-- A copy that adopts an image has its levels, and the image is one a book can
hold. -/
theorem adopt_levels {l : LiveBooks} {r : BookRefresh} {c : Book}
    (h : (l.adopt r).1.books.get? r.ticker = some c) :
    Book.ValidImage r.bids r.asks ∧ c.depth = Depth.ofLevels r.bids r.asks ∧
      c.stale = r.stale := by
  have hok : ((Book.new r.ticker).applySnapshot r.bids r.asks r.tsMs).2 = .ok () ↔
      Book.ValidImage r.bids r.asks := Book.applySnapshot_ok_iff (Book.new r.ticker) r.tsMs
  rw [LiveBooks.adopt] at h
  rcases ha : (Book.new r.ticker).applySnapshot r.bids r.asks r.tsMs with ⟨b, err | ⟨⟩⟩
  · simp only [ha] at h
    exact absurd ((Dict.get?_erase_self _ _).symm.trans h) (by rintro ⟨⟩)
  · simp only [ha] at h
    rw [ha] at hok
    have hv := hok.mp rfl
    obtain ⟨-, hfresh, hdepth, -⟩ := Book.applySnapshot_of_valid (Book.new r.ticker) r.tsMs hv
    rw [ha] at hfresh hdepth
    obtain rfl := Option.some.inj ((Dict.get?_set_self _ _ _).symm.trans h)
    refine ⟨hv, ?_, ?_⟩
    · split
      · exact (Book.depth_markStale b).trans hdepth
      · exact hdepth
    · cases hs : r.stale with
      | true => rfl
      | false => exact hfresh

/-- The copy that adopts the image of a book mirrors it. -/
theorem adopt_refreshOf {l : LiveBooks} {t : Ticker} {receipt : Receipt} {b c : Book}
    (hb : b.Inv) (h : (l.adopt (refreshOf t receipt b)).1.books.get? t = some c) :
    c.depth = b.depth ∧ b.depth.Uncrossed := by
  obtain ⟨hv, hdepth, -⟩ := @adopt_levels l (refreshOf t receipt b) c h
  have hlevels : Depth.ofLevels (b.levels .bid) (b.levels .ask) = b.depth := hb.ofLevels_levels
  exact ⟨hdepth.trans hlevels, hlevels ▸ hv.uncrossed⟩

/-- A message does to the levels of the copy what it did to the book. -/
theorem Mirrors.message (h : Mirrors p l.books) (hi : p.Inv)
    (hcurrent : Current (ops ++ [o]) sent heard p' (l.applyEvent m.event).1.books)
    (ho : p.perform o = (p', some m)) : Mirrors p' (l.applyEvent m.event).1.books := by
  obtain ⟨hi', -, -, -, -, hmeans, -⟩ := Publisher.perform_message hi ho
  intro t c b hc hb
  by_cases ht : LiveBooks.bookTicker m.event = some t
  · cases o with
    | book e =>
        have htook := applyToBooks_took_iff (e := e) hi
        rw [Publisher.perform] at ho
        split at ho
        · next books happly =>
            rw [happly] at htook
            obtain ⟨d, hd⟩ := htook.mp rfl
            obtain ⟨rfl, hm⟩ := Prod.mk.inj ho
            obtain rfl := Option.some.inj hm
            obtain rfl : e.ticker = t := Option.some.inj ht
            -- it is fresh, and a fresh copy is the book
            have hlive : Book.liveOf books e.ticker = some d := by
              have hfollow := hmeans e.ticker
              rw [if_pos rfl] at hfollow
              exact hfollow.trans hd
            have hcopy := hcurrent.agrees e.ticker c hc d hlive
            have hb' : books.get? e.ticker = some b := hb
            rw [Book.liveOf, hb'] at hlive
            exact .inl ((Book.live_eq_some_iff.mp hcopy).2.trans
              (Book.live_eq_some_iff.mp hlive).2.symm)
        · cases ho
    | refresh ticker receipt =>
        rw [Publisher.perform] at ho
        split at ho
        · cases ho
        · next book hbook =>
            obtain ⟨rfl, hm⟩ := Prod.mk.inj ho
            obtain rfl := Option.some.inj hm
            obtain rfl : ticker = t := Option.some.inj ht
            have hsame : book = b := Option.some.inj (hbook.symm.trans hb)
            subst hsame
            exact .inl (adopt_refreshOf (hi _ book hbook) hc).1
    | announce notice =>
        obtain ⟨-, hm⟩ := Prod.mk.inj ho
        obtain rfl := Option.some.inj hm
        obtain ⟨event, hnotice⟩ := notice
        cases event with
        | book e => cases hnotice
        | refresh r => cases hnotice
        | _ => cases ht
    | markStale tickers => cases ho
    | release tickers => cases ho
    | restart epoch => cases ho
  · rw [l.applyEvent_books_of_ne ht] at hc
    have hbefore : p.books.get? t = some b := by
      cases o with
      | book e =>
          rw [Publisher.perform] at ho
          split at ho
          · next books happly =>
              obtain ⟨rfl, hm⟩ := Prod.mk.inj ho
              obtain rfl := Option.some.inj hm
              have hb' : books.get? t = some b := hb
              have hne : e.ticker ≠ t := fun heq => ht (congrArg some heq)
              cases hfor : bookFor p.books e with
              | none =>
                  rw [applyToBooks_of_none hfor] at happly
                  cases happly
              | some book =>
                  have hbooks := (applyToBooks_of_some hfor).1
                  rw [happly] at hbooks
                  obtain rfl : books = _ := hbooks
                  rwa [Dict.get?_set_ne hne] at hb'
          · cases ho
      | refresh ticker receipt =>
          rw [Publisher.perform] at ho
          split at ho
          · cases ho
          · obtain ⟨rfl, -⟩ := Prod.mk.inj ho
            exact hb
      | announce notice =>
          obtain ⟨rfl, -⟩ := Prod.mk.inj ho
          exact hb
      | markStale tickers => cases ho
      | release tickers => cases ho
      | restart epoch => cases ho
    exact h t c b hc hbefore

/-! ## Runs -/

variable {start : Nat}

theorem ReopensAll.front (h : ReopensAll start (ops ++ [o])) : ReopensAll start ops := by
  intro pre o' post heq
  refine h pre o' (post ++ [o]) ?_
  rw [heq]
  simp

theorem ReopensAll.last (h : ReopensAll start (ops ++ [o])) :
    Reopens ops ((Publisher.new start).after ops) o := h ops o [] rfl

/-- A message that arrives finds the copies mirrored, those that are kept. -/
theorem mirrors_base (htracks : Tracks start ops heard p l) (ho : p.perform o = (p', some m))
    (hm : l.epoch = some p.bus.epoch → l.lastSeq = some p.bus.lastSeq → Mirrors p l.books)
    (hfollows : l.Follows m) : Mirrors p l.books := by
  obtain ⟨-, -, -, hepoch, hseq, -⟩ := Publisher.perform_message htracks.inv ho
  refine hm ?_ ?_
  · rw [hfollows.1, hepoch]
  · rw [hfollows.2, hseq]
    congr 1
    omega

/-- Whatever the bus loses, the copies of a consumer that is not behind mirror
the books. -/
theorem mirrors_of_sublist (hnew : (epochsOf start ops).Nodup) (hreopens : ReopensAll start ops)
    (hheard : heard.Sublist ((Publisher.new start).sent ops)) :
    (LiveBooks.new.observeAll heard).1.epoch = some ((Publisher.new start).after ops).bus.epoch →
      (LiveBooks.new.observeAll heard).1.lastSeq =
        some ((Publisher.new start).after ops).bus.lastSeq →
      Mirrors ((Publisher.new start).after ops) (LiveBooks.new.observeAll heard).1.books := by
  induction ops using List.reverseRecOn generalizing heard with
  | nil =>
      obtain rfl := List.sublist_nil.mp hheard
      intro hepoch
      cases hepoch
  | append_singleton ops o ih =>
      have hnew' : (epochsOf start ops).Nodup := by
        rw [epochsOf_snoc] at hnew
        exact (List.nodup_append.mp hnew).1
      rw [sent_snoc] at hheard
      rw [Publisher.after_append]
      change _ = some (((Publisher.new start).after ops).perform o).1.bus.epoch →
        _ = some (((Publisher.new start).after ops).perform o).1.bus.lastSeq →
        Mirrors (((Publisher.new start).after ops).perform o).1 _
      rcases ho : ((Publisher.new start).after ops).perform o with ⟨p', none | m⟩
      · rw [ho] at hheard
        have hsub : heard.Sublist ((Publisher.new start).sent ops) := by simpa using hheard
        have htracks := tracks_of_sublist hnew' hsub
        intro hepoch hseq
        obtain ⟨-, ⟨epoch, rfl, rfl⟩ | ⟨hbus, -⟩⟩ := Publisher.perform_silent htracks.inv ho
        · -- nothing of the new epoch has been heard
          have hsnoc : epochsOf start (ops ++ [.restart epoch]) = epochsOf start ops ++ [epoch] :=
            epochsOf_snoc start ops _
          rw [hsnoc] at hnew
          exact absurd rfl ((List.nodup_append.mp hnew).2.2 epoch
            (htracks.heardEpoch epoch hepoch) epoch List.mem_cons_self)
        · dsimp only at hepoch hseq
          rw [hbus] at hepoch hseq
          exact (ih hnew' hreopens.front hsub hepoch hseq).silent htracks.inv
            (htracks.current hepoch hseq) hreopens.last ho hbus
      · rw [ho] at hheard
        obtain ⟨before, now, rfl, hbefore, hnow⟩ := List.sublist_append_iff.mp hheard
        have htracks := tracks_of_sublist hnew' hbefore
        obtain ⟨-, -, hbus, -⟩ := Publisher.perform_message htracks.inv ho
        rcases List.sublist_singleton.mp hnow with rfl | rfl
        · -- the message was lost, so the consumer is behind
          rw [List.append_nil]
          intro hepoch hseq
          dsimp only at hepoch hseq
          rw [hbus] at hepoch hseq
          obtain ⟨n, hn, hle⟩ := htracks.behind hepoch
          have hlast : n = ((Publisher.new start).after ops).bus.lastSeq + 1 :=
            Option.some.inj (hn.symm.trans hseq)
          omega
        · intro _ _
          rw [LiveBooks.observeAll_snoc]
          have hcurrent := (htracks.arrived rfl ho).2
          obtain ⟨-, -, base, hbooks, hbase⟩ :=
            (LiveBooks.new.observeAll before).1.observe_spec m
          rw [hbooks] at hcurrent ⊢
          refine Mirrors.message ?_ htracks.inv hcurrent ho
          rcases hbase with ⟨hfollows, hsame⟩ | ⟨-, hempty⟩
          · rw [hsame]
            exact mirrors_base htracks ho (ih hnew' hreopens.front hbefore) hfollows
          · rw [hempty]
            exact nofun

/-- A refresh of a copy that is held, and stays held, leaves its levels as they
were. -/
def LiveBooks.KeepsLevels (l : LiveBooks) (envelope : BusEnvelope) : Prop :=
  ∀ r, envelope.event = .refresh r → l.Follows envelope → ∀ c c',
    l.books.get? r.ticker = some c → (l.observe envelope).1.books.get? r.ticker = some c' →
    c'.depth = c.depth

/-- Every refresh a consumer of the publisher hears keeps the levels. -/
theorem keepsLevels_of_sublist (hnew : (epochsOf start ops).Nodup)
    (hreopens : ReopensAll start ops)
    (hheard : (heard ++ [m]).Sublist ((Publisher.new start).sent ops)) :
    (LiveBooks.new.observeAll heard).1.KeepsLevels m := by
  induction ops using List.reverseRecOn with
  | nil => exact absurd (List.sublist_nil.mp hheard) (by simp)
  | append_singleton ops o ih =>
      have hnew' : (epochsOf start ops).Nodup := by
        rw [epochsOf_snoc] at hnew
        exact (List.nodup_append.mp hnew).1
      rw [sent_snoc] at hheard
      rcases ho : ((Publisher.new start).after ops).perform o with ⟨p', none | m'⟩
      · rw [ho] at hheard
        exact ih hnew' hreopens.front (by simpa using hheard)
      · rw [ho] at hheard
        obtain ⟨before, now, heq, hbefore, hnow⟩ := List.sublist_append_iff.mp hheard
        rcases List.sublist_singleton.mp hnow with rfl | rfl
        · rw [List.append_nil] at heq
          exact ih hnew' hreopens.front (heq ▸ hbefore)
        · obtain ⟨rfl, hm⟩ := List.append_inj' heq rfl
          obtain rfl : m = m' := (List.cons.inj hm).1
          have htracks := tracks_of_sublist hnew' hbefore
          intro r hevent hfollows c c' hc hc'
          have hmirrors := mirrors_base htracks ho
            (mirrors_of_sublist hnew' hreopens.front hbefore) hfollows
          obtain ⟨-, -, -, -, -, hmeans, -⟩ := Publisher.perform_message htracks.inv ho
          rw [hevent] at hmeans
          obtain ⟨-, b, receipt, hb, hr⟩ := hmeans
          obtain ⟨-, -, base, hbooks, -⟩ := (LiveBooks.new.observeAll heard).1.observe_spec m
          rw [hbooks, hevent] at hc'
          generalize r.ticker = t at hr hb hc hc'
          subst hr
          obtain ⟨hdepth, hun⟩ := adopt_refreshOf (htracks.inv _ b hb) hc'
          rw [hdepth]
          exact ((hmirrors t c b hc hb).resolve_right fun hcrossed => hcrossed hun).symm

end Tape
