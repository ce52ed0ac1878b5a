import Tape.Bus.LiveBooks
import Tape.Bus.Publisher

/-!
# A lossy bus, and what a consumer may trust

The publisher runs, the bus keeps the order of its messages and loses some, and
a consumer observes the rest. `live_books_sound` says what its copies are worth
after a message: a stale copy is stale at the publisher, a fresh copy of a fresh
book is that book, and every copy held goes back to a refresh image since which
no message was lost.

The proof goes by the publisher's operations. While the consumer is behind, its
next message finds a number that is not the next, or another epoch, and drops
everything, so nothing need be known about its copies. While it is not, three
facts hold of them (`Current`), and an operation keeps all three: a silent one
only makes books less known at the publisher, and a message does to the copy
what it did to the book.
-/

namespace Tape

/-- The consumer observed an image of the market and, since then, every message
the publisher attempted, all in one epoch. -/
def Refreshed (t : Ticker) (epoch : Nat) (sent heard : List BusEnvelope) : Prop :=
  ∃ m since r, m.event = .refresh r ∧ r.ticker = t ∧ m :: since <:+ sent ∧
    m :: since <:+ heard ∧ ∀ n ∈ m :: since, n.busEpoch = epoch

theorem Refreshed.snoc {t : Ticker} {epoch : Nat} {sent heard : List BusEnvelope}
    (h : Refreshed t epoch sent heard) {n : BusEnvelope} (hn : n.busEpoch = epoch) :
    Refreshed t epoch (sent ++ [n]) (heard ++ [n]) := by
  obtain ⟨m, since, r, hm, hr, ⟨before, hs⟩, ⟨before', hh⟩, he⟩ := h
  refine ⟨m, since ++ [n], r, hm, hr, ⟨before, ?_⟩, ⟨before', ?_⟩, ?_⟩
  · rw [← hs]
    simp
  · rw [← hh]
    simp
  · intro n' hn'
    rw [← List.cons_append] at hn'
    rcases List.mem_append.mp hn' with hold | hnew
    · exact he n' hold
    · rw [List.mem_singleton.mp hnew, hn]

theorem refreshed_now {m : BusEnvelope} {r : BookRefresh} (hm : m.event = .refresh r)
    (sent heard : List BusEnvelope) :
    Refreshed r.ticker m.busEpoch (sent ++ [m]) (heard ++ [m]) :=
  ⟨m, [], r, hm, rfl, List.suffix_append sent [m], List.suffix_append heard [m], by simp⟩

/-! ## The operations, seen from outside -/

namespace Publisher

/-- The books keep their invariant. -/
def Inv (p : Publisher) : Prop := ∀ t b, p.books.get? t = some b → b.Inv

theorem liveOf_markStale (books : Dict Ticker Book) (tickers : Finset Ticker) (t : Ticker) :
    Book.liveOf (books.mapValues fun t b => if t ∈ tickers then b.markStale else b) t =
      if t ∈ tickers then none else Book.liveOf books t := by
  rw [Book.liveOf, Dict.get?_mapValues, Book.liveOf]
  cases books.get? t with
  | none => simp
  | some b => by_cases ht : t ∈ tickers <;> simp [ht]

/-- What an operation that publishes nothing does: it restarts, or it leaves
the numbers alone and no market better known than before. -/
theorem perform_silent {p p' : Publisher} {o : PublisherOp} (hi : p.Inv)
    (h : p.perform o = (p', none)) :
    p'.Inv ∧ ((∃ epoch, o = .restart epoch ∧ p' = new epoch) ∨
      p'.bus = p.bus ∧ o.epochs = [] ∧
      (∀ t d, Book.liveOf p'.books t = some d → Book.liveOf p.books t = some d) ∧
      ∀ t ∈ p.books.keys, t ∈ p'.books.keys ∨ Released [o] t) := by
  cases o with
  | book e =>
      rw [perform] at h
      have hlive := fun t => liveOf_applyToBooks (e := e) hi t
      have htook := applyToBooks_took_iff (e := e) hi
      have hinv := inv_applyToBooks (e := e) hi
      have hkeys := fun t => @keys_applyToBooks p.books e t
      split at h
      · cases h
      · next books ha =>
          rw [ha] at hlive htook hinv hkeys
          obtain ⟨rfl, -⟩ := Prod.mk.inj h
          refine ⟨hinv, .inr ⟨rfl, rfl, ?_, fun t ht => .inl (hkeys t ht)⟩⟩
          intro t d hd
          rw [hlive] at hd
          split at hd
          · exact absurd (htook.mpr ⟨d, hd⟩) (by simp)
          · exact hd
  | markStale tickers =>
      obtain ⟨rfl, -⟩ := Prod.mk.inj h
      refine ⟨?_, .inr ⟨rfl, rfl, ?_, ?_⟩⟩
      · intro t b hget
        rw [Dict.get?_mapValues] at hget
        obtain ⟨b', hb', rfl⟩ := Option.map_eq_some_iff.mp hget
        split
        · exact (hi t b' hb').markStale
        · exact hi t b' hb'
      · intro t d hd
        rw [liveOf_markStale] at hd
        split at hd
        · cases hd
        · exact hd
      · intro t ht
        rw [Dict.keys_mapValues]
        exact .inl ht
  | release tickers =>
      obtain ⟨rfl, -⟩ := Prod.mk.inj h
      have hget : ∀ t, (p.books.filter fun t _ => t ∉ tickers).get? t =
          (p.books.get? t).bind fun b => if t ∈ tickers then none else some b := by
        intro t
        rw [Dict.get?_filter]
        cases p.books.get? t with
        | none => rfl
        | some b => by_cases ht : t ∈ tickers <;> simp [Option.filter, ht]
      refine ⟨?_, .inr ⟨rfl, rfl, ?_, ?_⟩⟩
      · intro t b hb
        obtain ⟨b', hb', hsome⟩ := Option.bind_eq_some_iff.mp ((hget t).symm.trans hb)
        split at hsome
        · cases hsome
        · exact hi t b (Option.some.inj hsome ▸ hb')
      · intro t d hd
        rw [Book.liveOf, hget] at hd
        rw [Book.liveOf]
        cases hb : p.books.get? t with
        | none => rw [hb] at hd; cases hd
        | some b =>
            rw [hb] at hd
            by_cases ht : t ∈ tickers
            · simp [ht] at hd
            · simpa [ht] using hd
      · intro t ht
        by_cases hmem : t ∈ tickers
        · exact .inr ⟨tickers, List.mem_singleton_self _, hmem⟩
        · obtain ⟨b, hb⟩ := Dict.mem_keys_iff.mp ht
          refine .inl (Dict.mem_keys_iff.mpr ⟨b, ?_⟩)
          rw [hget, hb]
          simp [hmem]
  | refresh ticker receipt =>
      rw [perform] at h
      split at h
      · obtain ⟨rfl, -⟩ := Prod.mk.inj h
        exact ⟨hi, .inr ⟨rfl, rfl, fun _ _ => id, fun t ht => .inl ht⟩⟩
      · cases h
  | announce notice => cases h
  | restart epoch =>
      obtain ⟨rfl, -⟩ := Prod.mk.inj h
      exact ⟨fun t b hb => (by cases hb), .inl ⟨epoch, rfl, rfl⟩⟩

/-- What a message says about the books, before and after it. -/
def Means (p p' : Publisher) : BusEvent → Prop
  | .book e => ∀ t, Book.liveOf p'.books t =
      if e.ticker = t then e.change.follow (Book.liveOf p.books e.ticker)
      else Book.liveOf p.books t
  | .refresh r => p'.books = p.books ∧
      ∃ b receipt, p.books.get? r.ticker = some b ∧ r = refreshOf r.ticker receipt b
  | _ => p'.books = p.books

/-- What an operation that publishes does. -/
theorem perform_message {p p' : Publisher} {o : PublisherOp} {m : BusEnvelope} (hi : p.Inv)
    (h : p.perform o = (p', some m)) :
    p'.Inv ∧ o.epochs = [] ∧ p'.bus = ⟨p.bus.epoch, p.bus.lastSeq + 1⟩ ∧
      m.busEpoch = p.bus.epoch ∧ m.busSeq = p.bus.lastSeq + 1 ∧ Means p p' m.event ∧
      ∀ t ∈ p.books.keys, t ∈ p'.books.keys := by
  cases o with
  | book e =>
      rw [perform] at h
      have hlive := fun t => liveOf_applyToBooks (e := e) hi t
      have hinv := inv_applyToBooks (e := e) hi
      have hkeys := fun t => @keys_applyToBooks p.books e t
      split at h
      · next books ha =>
          rw [ha] at hlive hinv hkeys
          obtain ⟨rfl, hm⟩ := Prod.mk.inj h
          obtain rfl := Option.some.inj hm
          exact ⟨hinv, rfl, rfl, rfl, rfl, hlive, hkeys⟩
      · cases h
  | refresh ticker receipt =>
      rw [perform] at h
      split at h
      · cases h
      · next b hb =>
          obtain ⟨rfl, hm⟩ := Prod.mk.inj h
          obtain rfl := Option.some.inj hm
          exact ⟨hi, rfl, rfl, rfl, rfl, ⟨rfl, b, receipt, hb, rfl⟩, fun _ => id⟩
  | announce notice =>
      obtain ⟨rfl, hm⟩ := Prod.mk.inj h
      obtain rfl := Option.some.inj hm
      refine ⟨hi, rfl, rfl, rfl, rfl, ?_, fun _ => id⟩
      obtain ⟨event, hnotice⟩ := notice
      cases event with
      | book e => cases hnotice
      | refresh r => cases hnotice
      | _ => rfl
  | markStale tickers => cases h
  | release tickers => cases h
  | restart epoch => cases h

end Publisher

/-! ## Following the publisher -/

/-- What the copies of a consumer that missed nothing are worth. -/
structure Current (ops : List PublisherOp) (sent heard : List BusEnvelope) (p : Publisher)
    (copies : Dict Ticker Book) : Prop where
  agrees : ∀ t c, copies.get? t = some c →
    ∀ d, Book.liveOf p.books t = some d → c.live = some d
  held : ∀ t c, copies.get? t = some c → t ∈ p.books.keys ∨ Released ops t
  refreshed : ∀ t c, copies.get? t = some c → Refreshed t p.bus.epoch sent heard

variable {ops : List PublisherOp} {o : PublisherOp} {sent heard : List BusEnvelope}
  {p p' : Publisher} {m : BusEnvelope} {l : LiveBooks}

theorem Released.mono {ops ops' : List PublisherOp} {t : Ticker} (h : Released ops t)
    (hsub : ∀ o ∈ ops, o ∈ ops') : Released ops' t := by
  obtain ⟨tickers, hmem, ht⟩ := h
  exact ⟨tickers, hsub _ hmem, ht⟩

theorem Current.silent {copies : Dict Ticker Book} (h : Current ops sent heard p copies)
    (hbus : p'.bus = p.bus)
    (hlive : ∀ t d, Book.liveOf p'.books t = some d → Book.liveOf p.books t = some d)
    (hkeys : ∀ t ∈ p.books.keys, t ∈ p'.books.keys ∨ Released [o] t) :
    Current (ops ++ [o]) sent heard p' copies where
  agrees t c hc d hd := h.agrees t c hc d (hlive t d hd)
  held t c hc := by
    rcases h.held t c hc with hk | hr
    · rcases hkeys t hk with hk' | hr
      · exact .inl hk'
      · exact .inr (hr.mono (by simp))
    · exact .inr (hr.mono fun o' ho' => List.mem_append_left _ ho')
  refreshed t c hc := by
    rw [hbus]
    exact h.refreshed t c hc

/-- What an image says of the book it was taken of. -/
theorem live_of_image {b c : Book} {r : BookRefresh} {receipt : Receipt} (hb : b.Inv)
    (hr : r = refreshOf r.ticker receipt b)
    (hc : c.live = if r.stale then none else some (Depth.ofLevels r.bids r.asks))
    {d : Depth} (hd : b.live = some d) : c.live = some d := by
  obtain ⟨hfresh, hdepth⟩ := Book.live_eq_some_iff.mp hd
  rw [hc, hr]
  change (if b.stale then none else some (Depth.ofLevels (b.levels .bid) (b.levels .ask))) = _
  rw [hfresh, hb.ofLevels_levels, hdepth]
  rfl

/-- A message does to the copies what it did to the books. -/
theorem Current.message (h : Current ops sent heard p l.books) (hp : p.Inv)
    (hl : ∀ t c, l.books.get? t = some c → c.Inv) (hm : p.perform o = (p', some m)) :
    (∀ t c, (l.applyEvent m.event).1.books.get? t = some c → c.Inv) ∧
      Current (ops ++ [o]) (sent ++ [m]) (heard ++ [m]) p' (l.applyEvent m.event).1.books := by
  obtain ⟨-, -, hbus, hepoch, -, hmeans, hkeys⟩ := Publisher.perform_message hp hm
  have hepoch' : m.busEpoch = p'.bus.epoch := by rw [hbus, hepoch]
  -- A copy is the one held before, or one that goes with the book of its market.
  have hcopy : ∀ t c', (l.applyEvent m.event).1.books.get? t = some c' →
      c'.Inv ∧ (∀ d, Book.liveOf p'.books t = some d → c'.live = some d) ∧
        (t ∈ p'.books.keys ∨ Released (ops ++ [o]) t) ∧
        Refreshed t p'.bus.epoch (sent ++ [m]) (heard ++ [m]) := by
    intro t c' hc'
    have hbefore : ∀ c, l.books.get? t = some c →
        (t ∈ p'.books.keys ∨ Released (ops ++ [o]) t) ∧
          Refreshed t p'.bus.epoch (sent ++ [m]) (heard ++ [m]) := by
      intro c hc
      refine ⟨?_, ?_⟩
      · rcases h.held t c hc with hk | hr
        · exact .inl (hkeys t hk)
        · exact .inr (hr.mono fun o' ho' => List.mem_append_left _ ho')
      · have hr := h.refreshed t c hc
        rw [hbus]
        exact hr.snoc hepoch
    by_cases ht : LiveBooks.bookTicker m.event = some t
    · cases hevent : m.event with
      | book e =>
          rw [hevent] at ht hc' hmeans
          obtain rfl : e.ticker = t := Option.some.inj ht
          obtain ⟨c, hc, hinv, hlive⟩ := l.change_copy hl hc'
          refine ⟨hinv, ?_, hbefore c hc⟩
          intro d hd
          rw [hmeans, if_pos rfl] at hd
          rw [hlive]
          exact Change.follow_mono (h.agrees _ c hc) hd
      | refresh r =>
          rw [hevent] at ht hc' hmeans
          obtain rfl : r.ticker = t := Option.some.inj ht
          obtain ⟨hbooks, b, receipt, hb, hr⟩ := hmeans
          obtain ⟨hinv, hlive⟩ := l.adopt_copy hc'
          refine ⟨hinv, ?_, .inl ?_, ?_⟩
          · intro d hd
            rw [Book.liveOf, hbooks, hb] at hd
            exact live_of_image (hp _ b hb) hr hlive hd
          · rw [hbooks]
            exact Dict.mem_keys_of_get? hb
          · rw [← hepoch']
            exact refreshed_now hevent sent heard
      | gap e => rw [hevent] at ht; cases ht
      | other e => rw [hevent] at ht; cases ht
      | catalog e => rw [hevent] at ht; cases ht
      | status => rw [hevent] at ht; cases ht
    · have hc : l.books.get? t = some c' := by rwa [l.applyEvent_books_of_ne ht] at hc'
      refine ⟨hl t c' hc, ?_, hbefore c' hc⟩
      have hlive : Book.liveOf p'.books t = Book.liveOf p.books t := by
        cases hevent : m.event with
        | book e =>
            rw [hevent] at hmeans ht
            exact (hmeans t).trans (if_neg fun he => ht (congrArg some he))
        | refresh r =>
            rw [hevent] at hmeans
            rw [Book.liveOf, hmeans.1, Book.liveOf]
        | _ =>
            rw [hevent] at hmeans
            rw [Book.liveOf, hmeans, Book.liveOf]
      intro d hd
      exact h.agrees t c' hc d (hlive ▸ hd)
  exact ⟨fun t c hc => (hcopy t c hc).1, fun t c hc => (hcopy t c hc).2.1,
    fun t c hc => (hcopy t c hc).2.2.1, fun t c hc => (hcopy t c hc).2.2.2⟩

/-- The epochs a run takes, the first included. -/
def epochsOf (start : Nat) (ops : List PublisherOp) : List Nat :=
  start :: ops.flatMap PublisherOp.epochs

theorem epochsOf_snoc (start : Nat) (ops : List PublisherOp) (o : PublisherOp) :
    epochsOf start (ops ++ [o]) = epochsOf start ops ++ o.epochs := by simp [epochsOf]

/-- A consumer of a run of the publisher that started in `start`. -/
structure Tracks (start : Nat) (ops : List PublisherOp) (heard : List BusEnvelope)
    (p : Publisher) (l : LiveBooks) : Prop where
  inv : p.Inv
  copies : ∀ t c, l.books.get? t = some c → c.Inv
  epoch : p.bus.epoch ∈ epochsOf start ops
  heardEpoch : ∀ e, l.epoch = some e → e ∈ epochsOf start ops
  behind : l.epoch = some p.bus.epoch → ∃ n, l.lastSeq = some n ∧ n ≤ p.bus.lastSeq
  current : l.epoch = some p.bus.epoch → l.lastSeq = some p.bus.lastSeq →
    Current ops ((Publisher.new start).sent ops) heard p l.books

variable {start : Nat}

theorem tracks_start (start : Nat) :
    Tracks start [] [] (Publisher.new start) LiveBooks.new where
  inv t b hb := by cases hb
  copies t c hc := by cases hc
  epoch := List.mem_cons_self
  heardEpoch e he := by cases he
  behind h := by cases h
  current h := by cases h

theorem sent_snoc (start : Nat) (ops : List PublisherOp) (o : PublisherOp) :
    (Publisher.new start).sent (ops ++ [o]) =
      (Publisher.new start).sent ops ++
        (((Publisher.new start).after ops).perform o).2.toList := by
  rw [Publisher.sent_append, Publisher.sent, Publisher.sent, List.append_nil]

/-- An operation that publishes nothing. -/
theorem Tracks.silent (h : Tracks start ops heard p l)
    (hp : p = (Publisher.new start).after ops) (ho : p.perform o = (p', none))
    (hnew : (epochsOf start (ops ++ [o])).Nodup) : Tracks start (ops ++ [o]) heard p' l := by
  have hsent : (Publisher.new start).sent (ops ++ [o]) = (Publisher.new start).sent ops := by
    rw [sent_snoc, ← hp, ho]
    exact List.append_nil _
  obtain ⟨hinv, ⟨epoch, rfl, rfl⟩ | ⟨hbus, hnone, hlive, hkeys⟩⟩ :=
    Publisher.perform_silent h.inv ho
  · have hsnoc : epochsOf start (ops ++ [.restart epoch]) = epochsOf start ops ++ [epoch] :=
      epochsOf_snoc start ops _
    -- The consumer has seen no message of the new epoch.
    have hunseen : l.epoch ≠ some epoch := by
      intro he
      rw [hsnoc] at hnew
      exact (List.nodup_append.mp hnew).2.2 epoch (h.heardEpoch epoch he) epoch (by simp) rfl
    exact {
      inv := hinv
      copies := h.copies
      epoch := by rw [hsnoc]; exact List.mem_append_right _ List.mem_cons_self
      heardEpoch e he := by rw [hsnoc]; exact List.mem_append_left _ (h.heardEpoch e he)
      behind he := absurd he hunseen
      current he := absurd he hunseen }
  · have hsnoc : epochsOf start (ops ++ [o]) = epochsOf start ops := by
      rw [epochsOf_snoc, hnone, List.append_nil]
    exact {
      inv := hinv
      copies := h.copies
      epoch := by rw [hsnoc, hbus]; exact h.epoch
      heardEpoch e he := by rw [hsnoc]; exact h.heardEpoch e he
      behind he := by rw [hbus] at he ⊢; exact h.behind he
      current he hs := by
        rw [hbus] at he hs
        rw [hsent]
        exact (h.current he hs).silent hbus hlive hkeys }

/-- A message the bus loses leaves the consumer behind. -/
theorem Tracks.lost (h : Tracks start ops heard p l) (ho : p.perform o = (p', some m)) :
    Tracks start (ops ++ [o]) heard p' l := by
  obtain ⟨hinv, hnone, hbus, -⟩ := Publisher.perform_message h.inv ho
  have hsnoc : epochsOf start (ops ++ [o]) = epochsOf start ops := by
    rw [epochsOf_snoc, hnone, List.append_nil]
  exact {
    inv := hinv
    copies := h.copies
    epoch := by rw [hsnoc, hbus]; exact h.epoch
    heardEpoch e he := by rw [hsnoc]; exact h.heardEpoch e he
    behind he := by
      rw [hbus] at he ⊢
      obtain ⟨n, hn, hle⟩ := h.behind he
      exact ⟨n, hn, by simp only; omega⟩
    current he hs := by
      rw [hbus] at he hs
      obtain ⟨n, hn, hle⟩ := h.behind he
      have hlast : n = p.bus.lastSeq + 1 := Option.some.inj (hn.symm.trans hs)
      omega }

/-- A message that arrives makes the consumer current. -/
theorem Tracks.arrived (h : Tracks start ops heard p l)
    (hp : p = (Publisher.new start).after ops) (ho : p.perform o = (p', some m)) :
    Tracks start (ops ++ [o]) (heard ++ [m]) p' (l.observe m).1 ∧
      Current (ops ++ [o]) ((Publisher.new start).sent (ops ++ [o])) (heard ++ [m]) p'
        (l.observe m).1.books := by
  obtain ⟨hinv, hnone, hbus, hepoch, hseq, -⟩ := Publisher.perform_message h.inv ho
  have hsnoc : epochsOf start (ops ++ [o]) = epochsOf start ops := by
    rw [epochsOf_snoc, hnone, List.append_nil]
  have hsent : (Publisher.new start).sent (ops ++ [o]) =
      (Publisher.new start).sent ops ++ [m] := by
    rw [sent_snoc, ← hp, ho]
    rfl
  obtain ⟨hobserved, hlast, base, hbooks, hbase⟩ := l.observe_spec m
  have hcopies : (∀ t c, base.books.get? t = some c → c.Inv) ∧
      Current ops ((Publisher.new start).sent ops) heard p base.books := by
    rcases hbase with ⟨⟨he, hs⟩, hsame⟩ | ⟨-, hempty⟩
    · rw [hsame]
      refine ⟨h.copies, h.current ?_ ?_⟩
      · rw [he, hepoch]
      · rw [hs, hseq]
        congr 1
        omega
    · rw [hempty]
      exact ⟨nofun, nofun, nofun, nofun⟩
  obtain ⟨hcopies', hcurrent⟩ := hcopies.2.message h.inv hcopies.1 ho
  rw [hsent, hbooks]
  refine ⟨?_, hcurrent⟩
  exact {
    inv := hinv
    copies := by rw [hbooks]; exact hcopies'
    epoch := by rw [hsnoc, hbus]; exact h.epoch
    heardEpoch e he := by
      rw [hsnoc]
      rw [hobserved, hepoch] at he
      rw [← Option.some.inj he]
      exact h.epoch
    behind _ := ⟨m.busSeq, hlast, by rw [hbus, hseq]⟩
    current _ _ := by rw [hsent, hbooks]; exact hcurrent }

/-- The run lemma: whatever the bus loses, the consumer tracks the publisher. -/
theorem tracks_of_sublist (hnew : (epochsOf start ops).Nodup)
    (hheard : heard.Sublist ((Publisher.new start).sent ops)) :
    Tracks start ops heard ((Publisher.new start).after ops)
      (LiveBooks.new.observeAll heard).1 := by
  induction ops using List.reverseRecOn generalizing heard with
  | nil =>
      obtain rfl := List.sublist_nil.mp hheard
      exact tracks_start start
  | append_singleton ops o ih =>
      have hnew' : (epochsOf start ops).Nodup := by
        rw [epochsOf_snoc] at hnew
        exact (List.nodup_append.mp hnew).1
      rw [sent_snoc] at hheard
      rw [Publisher.after_append]
      change Tracks start (ops ++ [o]) heard (((Publisher.new start).after ops).perform o).1 _
      rcases ho : ((Publisher.new start).after ops).perform o with ⟨p', none | m⟩
      · rw [ho] at hheard
        exact (ih hnew' (by simpa using hheard)).silent rfl ho hnew
      · rw [ho] at hheard
        obtain ⟨before, now, rfl, hbefore, hnow⟩ := List.sublist_append_iff.mp hheard
        rcases List.sublist_singleton.mp hnow with rfl | rfl
        · rw [List.append_nil]
          exact (ih hnew' hbefore).lost ho
        · rw [LiveBooks.observeAll_snoc]
          exact ((ih hnew' hbefore).arrived rfl ho).1

/-! ## Soundness -/

/-- What the copies of a consumer are worth, with the publisher as it was when
it sent the last message observed. -/
structure LiveBooks.Sound (ops : List PublisherOp) (sent heard : List BusEnvelope)
    (p : Publisher) (l : LiveBooks) : Prop where
  stale : ∀ t, l.status t = .stale →
    (∃ b, p.books.get? t = some b ∧ b.stale = true) ∨
      p.books.get? t = none ∧ Released ops t
  fresh : ∀ t c b, l.books.get? t = some c → c.stale = false →
    p.books.get? t = some b → b.stale = false → ∀ side, c.levels side = b.levels side
  refreshed : ∀ t, l.status t ≠ .unknown → Refreshed t p.bus.epoch sent heard

theorem Tracks.sound (h : Tracks start ops heard p l)
    (hc : Current ops ((Publisher.new start).sent ops) heard p l.books) :
    l.Sound ops ((Publisher.new start).sent ops) heard p where
  stale t ht := by
    obtain ⟨c, hget, hstale⟩ := l.status_eq_stale_iff.mp ht
    cases hb : p.books.get? t with
    | none =>
        refine .inr ⟨rfl, (hc.held t c hget).resolve_left fun hk => ?_⟩
        exact Dict.get?_eq_none_iff.mp hb hk
    | some b =>
        refine .inl ⟨b, rfl, ?_⟩
        by_contra hfresh
        -- A fresh book is known, and the copy would know it.
        have hlive : Book.liveOf p.books t = some b.depth := by
          rw [Book.liveOf, hb]
          exact Book.live_of_fresh (Bool.eq_false_iff.mpr hfresh)
        have hcopy := hc.agrees t c hget _ hlive
        rw [Book.live_of_stale hstale] at hcopy
        cases hcopy
  fresh t c b hget hcf hb hbf := by
    have hlive : Book.liveOf p.books t = some b.depth := by
      rw [Book.liveOf, hb]
      exact Book.live_of_fresh hbf
    have hcopy := hc.agrees t c hget _ hlive
    exact (Book.Inv.levels_eq_iff (h.copies t c hget) (h.inv t b hb)).mpr
      (Book.live_eq_some_iff.mp hcopy).2
  refreshed t ht := by
    rw [Ne, l.status_eq_unknown_iff] at ht
    obtain ⟨c, hget⟩ := Option.ne_none_iff_exists'.mp ht
    exact hc.refreshed t c hget

/-- After each message observed, whatever the bus lost before it: the copies are
sound, and the changes reported add up to the statuses. -/
theorem live_books_sound (start : Nat) (ops : List PublisherOp) (o : PublisherOp)
    (heard : List BusEnvelope) (m : BusEnvelope)
    (hnew : (epochsOf start (ops ++ [o])).Nodup)
    (hheard : heard.Sublist ((Publisher.new start).sent ops))
    (hm : (((Publisher.new start).after ops).perform o).2 = some m) :
    (LiveBooks.new.observeAll (heard ++ [m])).1.Sound (ops ++ [o])
        ((Publisher.new start).sent (ops ++ [o])) (heard ++ [m])
        ((Publisher.new start).after (ops ++ [o])) ∧
      foldChanges (fun _ => .unknown)
          ((LiveBooks.new.observeAll (heard ++ [m])).2.flatMap Observation.changes) =
        some (LiveBooks.new.observeAll (heard ++ [m])).1.status := by
  refine ⟨?_, LiveBooks.new.observeAll_changes (heard ++ [m])⟩
  have hnew' : (epochsOf start ops).Nodup := by
    rw [epochsOf_snoc] at hnew
    exact (List.nodup_append.mp hnew).1
  have ho : ((Publisher.new start).after ops).perform o =
      ((Publisher.new start).after (ops ++ [o]), some m) := by
    rw [Publisher.after_append]
    exact Prod.ext rfl hm
  obtain ⟨htracks, hcurrent⟩ := (tracks_of_sublist hnew' hheard).arrived rfl ho
  rw [LiveBooks.observeAll_snoc]
  exact htracks.sound hcurrent

/-! ## A run with a loss and a restart -/

/-- The receipt of all that follows. -/
def busReceipt : Receipt := ⟨1, 0, 0⟩

/-- A snapshot of the market M. -/
def busSnapshot : BookSnapshot :=
  { ticker := "M", tsMs := none, receipt := busReceipt, sid := 1, seq := some 1,
    bids := [⟨4000, 100⟩], asks := [⟨6000, 50⟩] }

/-- A delta of it. -/
def busDelta : BookDelta :=
  { ticker := "M", tsMs := none, receipt := busReceipt, sid := 1, seq := some 2, side := .bid,
    price := 4000, delta := 25, ownClientOrderId := none }

/-- A snapshot, its image, a connection that ends; then a restart, and the image
of a book that a delta changed. -/
def busRun : List PublisherOp :=
  [.book (.snapshot busSnapshot), .refresh "M" busReceipt, .book (.delta busDelta),
    .markStale {"M"}, .refresh "M" busReceipt, .restart 2, .book (.snapshot busSnapshot),
    .refresh "M" busReceipt]

/-- The image that is published of it. -/
def busImage : BusEvent :=
  .refresh (refreshOf "M" busReceipt
    ((Book.new "M").applySnapshot busSnapshot.bids busSnapshot.asks none).1)

/-- What is left of the run: the first delta is lost, and the first snapshot
after the restart. -/
def busHeard : List BusEnvelope := [⟨1, 2, busImage⟩, ⟨2, 2, busImage⟩]

theorem live_books_sound_busRun :
    (LiveBooks.new.observeAll (busHeard ++ [⟨2, 3, .book (.delta busDelta)⟩])).1.Sound
        (busRun ++ [.book (.delta busDelta)])
        ((Publisher.new 1).sent (busRun ++ [.book (.delta busDelta)]))
        (busHeard ++ [⟨2, 3, .book (.delta busDelta)⟩])
        ((Publisher.new 1).after (busRun ++ [.book (.delta busDelta)])) ∧
      foldChanges (fun _ => .unknown) ((LiveBooks.new.observeAll
          (busHeard ++ [⟨2, 3, .book (.delta busDelta)⟩])).2.flatMap Observation.changes) =
        some (LiveBooks.new.observeAll
          (busHeard ++ [⟨2, 3, .book (.delta busDelta)⟩])).1.status :=
  live_books_sound 1 busRun (.book (.delta busDelta)) busHeard ⟨2, 3, .book (.delta busDelta)⟩
    (by decide) (by decide) (by decide)

end Tape
