import Tape.Api.FanOut
import Tape.Api.Queues
import Tape.Book.Within
import Tape.Page.Decoded

/-!
# What the hub queues, the page reads

The hub makes its messages of three things: its settings, what the clients name
and what the bus brings. Where these are in range, every message in every queue
is read by the page as it was meant, at every moment of every run. The one
exception is in the counts of a whole book: deltas add up, and a sum past the
safe integers is refused.
-/

namespace Tape.Api

open Page.Decode (Good IsPrice IsCount IsPositive Ladder decodeFrame minSafeInteger
  maxSafeInteger)

/-- What a trade says beyond its market. -/
structure TradePayload where
  tsMs : Int
  priceE4 : Int
  countE2 : Int
  takerSide : Side
  deriving DecidableEq, Repr

/-- The quotes of a ticker event. -/
structure TickerPayload where
  tsMs : Int
  bidE4 : Option Int
  askE4 : Option Int
  lastE4 : Option Int
  volumeE2 : Int
  deriving DecidableEq, Repr

/-- What the trades and the ticker updates of the bus say. -/
structure Payloads where
  trade : OtherEvent → TradePayload
  ticker : OtherEvent → TickerPayload

/-- `_market_message` of a trade. -/
def Payloads.tradeMessage (p : Payloads) (e : OtherEvent) : Contract.TradeMessage :=
  ⟨e.ticker, (p.trade e).tsMs, (p.trade e).priceE4, (p.trade e).countE2, (p.trade e).takerSide⟩

/-- `_market_message` of a ticker update. -/
def Payloads.tickerMessage (p : Payloads) (e : OtherEvent) : Contract.TickerMessage :=
  ⟨e.ticker, (p.ticker e).tsMs, (p.ticker e).bidE4, (p.ticker e).askE4, (p.ticker e).lastE4,
    (p.ticker e).volumeE2⟩

/-- A queued message, with all that is sent of it. -/
def Payloads.wire (p : Payloads) : ServerMessage → Contract.ServerMessage
  | .hello protocol maxTickers busRefreshS => .hello protocol maxTickers busRefreshS
  | .subscribed tickers rejected => .subscribed tickers rejected
  | .snapshot t state tsMs bids asks => .snapshot t state tsMs bids asks
  | .delta t tsMs side price delta => .delta t tsMs side price delta
  | .book t state => .book t state
  | .resync t reason => .resync t reason
  | .trade e => .trade (p.tradeMessage e)
  | .ticker e => .ticker (p.tickerMessage e)
  | .error code message => .error code message

/-- The levels a message carries. -/
def ServerMessage.levels : ServerMessage → List Level
  | .snapshot _ _ _ bids asks => bids ++ asks
  | _ => []

/-- A client can count what the message carries. -/
def ServerMessage.Countable (m : ServerMessage) : Prop :=
  ∀ l ∈ m.levels, l.count ≤ maxSafeInteger

/-- The page reads the message as it is, if it can count what it carries. -/
def Payloads.Reads (p : Payloads) (m : ServerMessage) : Prop := m.Countable → Good (p.wire m)

/-! ## Acts in range -/

/-- An image of a book in range. -/
def ImageInRange (ticker : Ticker) (bids asks : List Level) (tsMs : Option Int) : Prop :=
  ticker ≠ "" ∧ (∀ l ∈ bids, IsPrice l.price) ∧ (∀ l ∈ asks, IsPrice l.price) ∧
    ∀ ms ∈ tsMs, IsCount ms

/-- What the bus brings is in range. -/
def Payloads.InRange (p : Payloads) : BusEvent → Prop
  | .book (.snapshot e) => ImageInRange e.ticker e.bids e.asks e.tsMs
  | .book (.delta e) =>
      e.ticker ≠ "" ∧ IsPrice e.price ∧ minSafeInteger ≤ e.delta ∧ e.delta ≤ maxSafeInteger ∧
        ∀ ms ∈ e.tsMs, IsCount ms
  | .refresh e => ImageInRange e.ticker e.bids e.asks e.tsMs
  | .other e =>
      match e.kind with
      | .trade => Good (.trade (p.tradeMessage e))
      | .ticker => Good (.ticker (p.tickerMessage e))
      | .lifecycle => True
  | _ => True

/-- What the clients name and the bus brings is in range. -/
def Payloads.Admissible (p : Payloads) : HubAct → Prop
  | .subscribe _ tickers _ => "" ∉ tickers
  | .handle _ _ _ (.subscribe tickers) => "" ∉ tickers
  | .receive (some envelope) _ => p.InRange envelope.event
  | _ => True

variable {p : Payloads}

/-! ## The copies of the books -/

/-- A copy of which a message in range can be made. -/
def Sendable (t : Ticker) (b : Book) : Prop := t ≠ "" ∧ b.Inv ∧ b.Within IsPrice IsCount

theorem sendable_perform {e : BookEvent} {b : Book} (he : p.InRange (.book e))
    (hb : Sendable e.ticker b) : Sendable e.ticker (e.perform b).1 := by
  obtain ⟨hne, hinv, hwithin⟩ := hb
  refine ⟨hne, e.inv_perform hinv, ?_⟩
  cases e with
  | snapshot e =>
      obtain ⟨-, hbids, hasks, hts⟩ := he
      rw [BookEvent.perform_snapshot_fst]
      exact hwithin.applySnapshot hbids hasks hts
  | delta e =>
      obtain ⟨-, hprice, -, -, hts⟩ := he
      exact hwithin.applyDelta e.side hprice e.delta hts

theorem sendable_applyEvent {l : LiveBooks} {event : BusEvent} (he : p.InRange event)
    (hl : ∀ t b, l.books.get? t = some b → Sendable t b) :
    ∀ t b, (l.applyEvent event).1.books.get? t = some b → Sendable t b := by
  intro t b hb
  by_cases ht : LiveBooks.bookTicker event = some t
  · cases event with
    | refresh r =>
        obtain rfl : r.ticker = t := Option.some.inj ht
        obtain ⟨hne, hbids, hasks, hts⟩ := he
        refine ⟨hne, (l.adopt_copy hb).1, ?_⟩
        have hwithin := (Book.within_new IsPrice IsCount r.ticker).applySnapshot hbids hasks hts
        have hadopt : (l.adopt r).1.books.get? r.ticker = some b := hb
        rw [LiveBooks.adopt] at hadopt
        split at hadopt
        · exact absurd ((Dict.get?_erase_self _ _).symm.trans hadopt) (by rintro ⟨⟩)
        · next held happlied =>
            rw [happlied] at hwithin
            obtain rfl := Option.some.inj ((Dict.get?_set_self _ _ _).symm.trans hadopt)
            split
            · exact hwithin.markStale
            · exact hwithin
    | book e =>
        obtain rfl : e.ticker = t := Option.some.inj ht
        have hchange : (l.change e).1.books.get? e.ticker = some b := hb
        rw [LiveBooks.change] at hchange
        split at hchange
        · exact hl e.ticker b hchange
        · next held hheld =>
            have hperformed := sendable_perform he (hl e.ticker held hheld)
            split at hchange
            · exact absurd ((Dict.get?_erase_self _ _).symm.trans hchange) (by rintro ⟨⟩)
            · next hdone =>
                rw [hdone] at hperformed
                obtain rfl := Option.some.inj ((Dict.get?_set_self _ _ _).symm.trans hchange)
                exact hperformed
            · next hdone =>
                rw [hdone] at hperformed
                obtain rfl := Option.some.inj ((Dict.get?_set_self _ _ _).symm.trans hchange)
                exact hperformed
    | _ => cases ht
  · rw [l.applyEvent_books_of_ne ht] at hb
    exact hl t b hb

theorem sendable_observe {l : LiveBooks} {envelope : BusEnvelope}
    (he : p.InRange envelope.event) (hl : ∀ t b, l.books.get? t = some b → Sendable t b) :
    ∀ t b, (l.observe envelope).1.books.get? t = some b → Sendable t b := by
  obtain ⟨-, -, base, hbooks, hbase⟩ := l.observe_spec envelope
  rw [hbooks]
  refine sendable_applyEvent he fun t b hb => ?_
  rcases hbase with ⟨-, hsame⟩ | ⟨-, hempty⟩
  · rw [hsame] at hb
    exact hl t b hb
  · rw [hempty, Dict.get?_empty] at hb
    cases hb

theorem named_of_bookTicker {event : BusEvent} {t : Ticker} (he : p.InRange event)
    (ht : LiveBooks.bookTicker event = some t) : t ≠ "" := by
  cases event with
  | book e =>
      obtain rfl : e.ticker = t := Option.some.inj ht
      cases e with
      | snapshot e => exact he.1
      | delta e => exact he.1
  | refresh r =>
      obtain rfl : r.ticker = t := Option.some.inj ht
      exact he.1
  | _ => cases ht

/-- The changes of an observation are of markets that were held, or brought. -/
theorem named_changes {l : LiveBooks} {envelope : BusEnvelope} (he : p.InRange envelope.event)
    (hl : ∀ t b, l.books.get? t = some b → Sendable t b) :
    ∀ change ∈ (l.observe envelope).2.changes, change.ticker ≠ "" := by
  have happly : ∀ (l : LiveBooks) (change : StatusChange),
      change ∈ (l.apply envelope.event).2.2 → change.ticker ≠ "" := by
    intro l change hchange
    rw [LiveBooks.apply] at hchange
    split at hchange
    · cases hchange
    · next t ht =>
        dsimp only at hchange
        split at hchange
        · obtain rfl := List.mem_singleton.mp hchange
          exact named_of_bookTicker he ht
        · cases hchange
  have hreset : ∀ l' : LiveBooks, l'.books = l.books → ∀ change ∈ l'.resetChanges,
      change.ticker ≠ "" := by
    intro l' hbooks change hchange
    obtain ⟨t, ht, rfl⟩ := List.mem_map.mp hchange
    have hheld := l'.mem_resetTickers.mp ht
    rw [Ne, LiveBooks.status_eq_unknown_iff, hbooks] at hheld
    obtain ⟨b, hb⟩ := Option.ne_none_iff_exists'.mp hheld
    exact (hl t b hb).1
  intro change hchange
  have hfollow : (l.countMessage.follow envelope).1.books = l.books := by
    rw [LiveBooks.follow_books]
    rfl
  rw [LiveBooks.observe] at hchange
  split at hchange
  · exact happly _ change hchange
  · next followed reason missed heq =>
      rw [heq] at hfollow
      rcases List.mem_append.mp hchange with hold | hnew
      · exact hreset followed hfollow change hold
      · exact happly _ change hnew

/-! ## The messages -/

theorem ladder_levels {b : Book} (hi : b.Inv) (hw : b.Within IsPrice IsCount) {s : Side}
    (hcount : ∀ l ∈ b.levels s, l.count ≤ maxSafeInteger) : Ladder s (b.levels s) where
  inRange l hl := by
    obtain ⟨hprice, hpositive⟩ := hw.level hi hl
    exact ⟨hprice, hpositive, hcount l hl⟩
  ordered := by
    cases s with
    | bid => exact b.levels_pairwise .bid
    | ask => exact b.levels_pairwise .ask

theorem reads_snapshot {h : LiveHub} (hbooks : ∀ t b, h.live.books.get? t = some b → Sendable t b)
    {t : Ticker} {m : ServerMessage} (hm : h.snapshot t = some m) : p.Reads m := by
  obtain ⟨b, hb, rfl⟩ := Option.map_eq_some_iff.mp hm
  obtain ⟨hne, hinv, hwithin⟩ := hbooks t b hb
  intro hcount
  have hbids : ∀ l ∈ b.levels .bid, l.count ≤ maxSafeInteger := fun l hl =>
    hcount l (List.mem_append_left _ hl)
  have hasks : ∀ l ∈ b.levels .ask, l.count ≤ maxSafeInteger := fun l hl =>
    hcount l (List.mem_append_right _ hl)
  exact ⟨hne, hwithin.time, ladder_levels hinv hwithin hbids, ladder_levels hinv hwithin hasks⟩

theorem reads_announcement {h : LiveHub}
    (hbooks : ∀ t b, h.live.books.get? t = some b → Sendable t b) {change : StatusChange}
    (hne : change.ticker ≠ "") {m : ServerMessage} (hm : h.announcement change = some m) :
    p.Reads m := by
  rw [LiveHub.announcement] at hm
  split at hm
  · obtain rfl := Option.some.inj hm
    exact fun _ => hne
  · split at hm
    · exact reads_snapshot hbooks hm
    · obtain rfl := Option.some.inj hm
      exact fun _ => hne

theorem reads_eventMessage {h : LiveHub}
    (hbooks : ∀ t b, h.live.books.get? t = some b → Sendable t b) {event : BusEvent}
    (he : p.InRange event) {applied : Bool} {snapshotted : List Ticker} {t : Ticker}
    {m : ServerMessage} (hm : h.eventMessage applied snapshotted event = some (t, m)) :
    p.Reads m := by
  cases event with
  | other e =>
      rw [LiveHub.eventMessage] at hm
      split at hm
      · simp only [Payloads.InRange] at he
        split at hm
        · next hkind =>
            obtain ⟨-, rfl⟩ := Prod.mk.inj (Option.some.inj hm)
            rw [hkind] at he
            exact fun _ => he
        · next hkind =>
            obtain ⟨-, rfl⟩ := Prod.mk.inj (Option.some.inj hm)
            rw [hkind] at he
            exact fun _ => he
        · cases hm
      · cases hm
  | book e =>
      rw [LiveHub.eventMessage] at hm
      split at hm
      · obtain ⟨m', hbook, heq⟩ := Option.map_eq_some_iff.mp hm
        obtain ⟨-, rfl⟩ := Prod.mk.inj heq
        cases e with
        | delta e =>
            obtain rfl := Option.some.inj hbook
            obtain ⟨hne, hprice, hlow, hhigh, hts⟩ := he
            exact fun _ => ⟨hne, hts, hprice, hlow, hhigh⟩
        | snapshot e =>
            rw [LiveHub.bookMessage] at hbook
            split at hbook
            · cases hbook
            · exact reads_snapshot hbooks hbook
      · cases hm
  | _ => cases hm

theorem reads_complaint {frame : ClientFrame} {m : ServerMessage}
    (hm : frame.complaint = some m) : p.Reads m := by
  cases frame with
  | subscribe tickers => cases hm
  | _ =>
      obtain rfl := Option.some.inj hm
      exact fun _ => trivial

theorem sortOut_mem {entries : Dict Ticker CatalogEntry} {maxTickers : Nat}
    {tickers accepted : List Ticker} {rejected : List Rejection} {t : Ticker} :
    (t ∈ (sortOut entries maxTickers tickers accepted rejected).1 → t ∈ accepted ∨ t ∈ tickers) ∧
      ∀ r ∈ (sortOut entries maxTickers tickers accepted rejected).2,
        r ∈ rejected ∨ r.ticker ∈ tickers := by
  induction tickers generalizing accepted rejected with
  | nil => exact ⟨.inl, fun _ => .inl⟩
  | cons first rest ih =>
      have hrefused : ∀ code, (t ∈ (sortOut entries maxTickers rest accepted
            (rejected ++ [⟨first, code⟩])).1 → t ∈ accepted ∨ t ∈ first :: rest) ∧
          ∀ r ∈ (sortOut entries maxTickers rest accepted (rejected ++ [⟨first, code⟩])).2,
            r ∈ rejected ∨ r.ticker ∈ first :: rest := by
        intro code
        refine ⟨fun ht => (ih.1 ht).imp_right (List.mem_cons_of_mem first), fun r hr => ?_⟩
        rcases ih.2 r hr with hold | hlater
        · rcases List.mem_append.mp hold with hbefore | hfirst
          · exact .inl hbefore
          · rw [List.mem_singleton.mp hfirst]
            exact .inr List.mem_cons_self
        · exact .inr (List.mem_cons_of_mem first hlater)
      rw [sortOut]
      split
      · exact hrefused rejectUnknownTicker
      · split
        · exact hrefused rejectTooManyTickers
        · refine ⟨fun ht => ?_, fun r hr =>
            (ih.2 r hr).imp_right (List.mem_cons_of_mem first)⟩
          rcases ih.1 ht with hold | hlater
          · rcases List.mem_append.mp hold with hbefore | hfirst
            · exact .inl hbefore
            · rw [List.mem_singleton.mp hfirst]
              exact .inr List.mem_cons_self
          · exact .inr (List.mem_cons_of_mem first hlater)

theorem mem_fromKeys {tickers : List Ticker} {t : Ticker} :
    t ∈ fromKeys tickers ↔ t ∈ tickers := by
  simp [fromKeys]

theorem named_accepts (h : LiveHub) {tickers : List Ticker} (hn : "" ∉ tickers) :
    ∀ t ∈ h.accepts tickers, t ≠ "" := by
  rintro t ht rfl
  rcases sortOut_mem.1 ht with hnone | hasked
  · cases hnone
  · exact hn (mem_fromKeys.mp hasked)

theorem named_rejects (h : LiveHub) {tickers : List Ticker} (hn : "" ∉ tickers) :
    ∀ r ∈ h.rejects tickers, r.ticker ≠ "" := by
  intro r hr hempty
  rcases (sortOut_mem (t := "")).2 r hr with hnone | hasked
  · cases hnone
  · rw [hempty] at hasked
    exact hn (mem_fromKeys.mp hasked)

/-! ## The queues -/

theorem reads_recovery {snapshot : Ticker → Option ServerMessage} {tickers : List Ticker}
    (hsnapshot : ∀ t m, snapshot t = some m → p.Reads m) (hn : ∀ t ∈ tickers, t ≠ "") :
    ∀ m ∈ ClientSession.recovery snapshot tickers, p.Reads m := by
  intro m hm
  obtain ⟨t, ht, hmt⟩ := List.mem_flatMap.mp hm
  rcases List.mem_cons.mp hmt with rfl | hheld
  · exact fun _ => hn t ht
  · exact hsnapshot t m (Option.mem_toList.mp hheld)

namespace ClientSession

variable {P : ServerMessage → Prop} {s : ClientSession}

theorem forall_close (hq : ∀ m ∈ s.queue, P m) (code : Nat) :
    ∀ m ∈ (s.close code).queue, P m := by
  rw [close]
  split
  · exact hq
  · exact fun _ hm => absurd hm List.not_mem_nil

/-- What is queued after an offer was queued before it, or offered, or is part
of a recovery. -/
theorem forall_offer {snapshot : Ticker → Option ServerMessage} {nowNs : Int}
    {messages : List ServerMessage} (hq : ∀ m ∈ s.queue, P m) (hm : ∀ m ∈ messages, P m)
    (hr : ∀ m ∈ recovery snapshot s.subscriptions, P m) :
    ∀ m ∈ (s.offer snapshot nowNs messages).queue, P m := by
  rw [offer]
  split
  · exact hq
  · split
    · exact List.forall_mem_append.mpr ⟨hq, hm⟩
    · rw [lag]
      split
      · refine forall_close ?_ closeTooSlow
        exact hq
      · have hreplies : ∀ m ∈ messages.filter ServerMessage.isReply, P m := fun m hin =>
          hm m (List.mem_filter.mp hin).1
        exact List.forall_mem_append.mpr ⟨hreplies, hr⟩

end ClientSession

/-- Every queued message is read, and what the next ones are made of is in
range. -/
structure Delivers (p : Payloads) (h : LiveHub) : Prop where
  books : ∀ t b, h.live.books.get? t = some b → Sendable t b
  named : ∀ id, ∀ t ∈ (h.session id).subscriptions, t ≠ ""
  queues : ∀ id, ∀ m ∈ (h.session id).queue, p.Reads m

variable {h h' : LiveHub}

theorem delivers_new (p : Payloads) (config : ServeConfig) : Delivers p (.new config) where
  books t b hb := by
    have hnone : (LiveHub.new config).live.books.get? t = none := Dict.get?_empty t
    rw [hnone] at hb
    cases hb
  named _ _ ht := absurd ht List.not_mem_nil
  queues _ _ hm := absurd hm List.not_mem_nil

theorem Delivers.offer (hd : Delivers p h) (id : SessionId) (nowNs : Int)
    {messages : List ServerMessage} (hm : ∀ m ∈ messages, p.Reads m) :
    Delivers p (h.offer id nowNs messages) := by
  refine ⟨hd.books, fun j => ?_, fun j => ?_⟩
  · rw [LiveHub.offer_session]
    split
    · rw [ClientSession.offer_subscriptions]
      exact hd.named id
    · exact hd.named j
  · rw [LiveHub.offer_session]
    split
    · exact ClientSession.forall_offer (hd.queues id) hm
        (reads_recovery (fun _ _ => reads_snapshot hd.books) (hd.named id))
    · exact hd.queues j

theorem Delivers.setSession (hd : Delivers p h) (id : SessionId) {s : ClientSession}
    (hn : ∀ t ∈ s.subscriptions, t ≠ "") (hq : ∀ m ∈ s.queue, p.Reads m) :
    Delivers p (h.setSession id s) := by
  refine ⟨hd.books, fun j => ?_, fun j => ?_⟩
  · rw [LiveHub.setSession_session]
    split
    · exact hn
    · exact hd.named j
  · rw [LiveHub.setSession_session]
    split
    · exact hq
    · exact hd.queues j

theorem Delivers.subscribe (hd : Delivers p h) (id : SessionId) {tickers : List Ticker}
    (hn : "" ∉ tickers) (nowNs : Int) : Delivers p (h.subscribe id tickers nowNs) := by
  have hindexed : Delivers p (h.resubscribe id (h.accepts tickers)) := by
    rw [LiveHub.resubscribe]
    refine Delivers.setSession ?_ id ?_ ?_
    · exact ⟨hd.books, hd.named, hd.queues⟩
    · exact named_accepts h hn
    · exact hd.queues id
  refine hindexed.offer id nowNs (List.forall_mem_cons.mpr ⟨?_, fun m hm => ?_⟩)
  · exact fun _ => ⟨named_accepts h hn, named_rejects h hn⟩
  · obtain ⟨t, -, hsnapshot⟩ := List.mem_filterMap.mp hm
    split at hsnapshot
    · cases hsnapshot
    · exact reads_snapshot hd.books hsnapshot

theorem Delivers.handle (hd : Delivers p h) (id : SessionId) (size : Nat) (nowNs : Int)
    {frame : ClientFrame} (hn : ∀ tickers, frame = .subscribe tickers → "" ∉ tickers) :
    Delivers p (h.handle id size nowNs frame) := by
  obtain ⟨-, hsubs, hwithin, hbeyond⟩ := LiveHub.withinLimits_spec (h.session id) size nowNs
  have hcounted : Delivers p (h.setSession id ((h.session id).withinLimits size nowNs).1) := by
    refine hd.setSession id ?_ ?_
    · rw [hsubs]
      exact hd.named id
    · cases hok : ((h.session id).withinLimits size nowNs).2 with
      | true =>
          obtain ⟨receivedNs, heq⟩ := hwithin hok
          rw [heq]
          exact hd.queues id
      | false =>
          obtain ⟨receivedNs, heq⟩ := hbeyond hok
          rw [heq]
          refine ClientSession.forall_close ?_ closePolicyViolation
          exact hd.queues id
  rw [LiveHub.handle.eq_def]
  dsimp only
  split
  · exact hcounted
  · split
    · next tickers => exact hcounted.subscribe id (hn tickers rfl) nowNs
    · refine hcounted.offer id nowNs fun m hm => ?_
      exact reads_complaint (Option.mem_toList.mp hm)

/-- What is offered for a bus message. -/
theorem reads_outbox (hbooks : ∀ t b, h.live.books.get? t = some b → Sendable t b)
    {observation : Observation} (hchanges : ∀ change ∈ observation.changes, change.ticker ≠ "")
    {event : BusEvent} (he : p.InRange event) (id : SessionId) :
    ∀ m ∈ (h.outbox observation event).getD id [], p.Reads m := by
  rw [LiveHub.getD_outbox]
  have hsent : ∀ {t : Ticker} {m m' : ServerMessage}, p.Reads m → m' ∈ h.sentTo id t m →
      p.Reads m' := by
    intro t m m' hreads hm'
    rw [LiveHub.sentTo] at hm'
    split at hm'
    · rw [List.mem_singleton.mp hm']
      exact hreads
    · cases hm'
  refine List.forall_mem_append.mpr ⟨fun m hm => ?_, fun m hm => ?_⟩
  · obtain ⟨change, hchange, htold⟩ := List.mem_flatMap.mp hm
    obtain ⟨announced, hannounced, hmine⟩ := List.mem_flatMap.mp htold
    exact hsent (reads_announcement hbooks (hchanges change hchange)
      (Option.mem_toList.mp hannounced)) hmine
  · obtain ⟨told, htold, hmine⟩ := List.mem_flatMap.mp hm
    exact hsent (reads_eventMessage hbooks he (Option.mem_toList.mp htold)) hmine

theorem Delivers.receive (hd : Delivers p h) (nowNs : SessionId → Int) {envelope : BusEnvelope}
    (he : p.InRange envelope.event) : Delivers p (h.receive nowNs (some envelope)) := by
  have hlive : (h.observed envelope).live = (h.live.observe envelope).1 :=
    LiveHub.updateDirectory_live _ _
  have hsession : (h.observed envelope).session = h.session :=
    LiveHub.updateDirectory_session _ _
  have hbooks : ∀ t b, (h.observed envelope).live.books.get? t = some b → Sendable t b := by
    rw [hlive]
    exact sendable_observe he hd.books
  have hspec := (h.observed envelope).offerAll_spec nowNs
    ((h.observed envelope).outbox (h.live.observe envelope).2 envelope.event)
  rw [LiveHub.receive, LiveHub.fanOut]
  refine ⟨?_, fun id => ?_, fun id => ?_⟩
  · rw [hspec.live]
    exact hbooks
  · rw [LiveHub.offerAll_session, ClientSession.offer_subscriptions, hsession]
    exact hd.named id
  · rw [LiveHub.offerAll_session, hsession]
    refine ClientSession.forall_offer (hd.queues id)
      (reads_outbox hbooks (named_changes he hd.books) he id) ?_
    exact reads_recovery (fun _ _ => reads_snapshot hbooks) (hd.named id)

/-! ## Every run -/

theorem reads_hello {settings : ServeSettings} (hl : LiveHub.Limited settings h) :
    p.Reads h.hello := by
  have htickers := settings.tickers
  have hrefresh := settings.refresh
  rw [LiveHub.hello, hl.config]
  intro _
  have hmax : maxSafeInteger = 9007199254740991 := rfl
  refine ⟨⟨?_, ?_⟩, ⟨?_, ?_⟩, ?_, ?_⟩
  all_goals
    simp only [serveConfig, protocolVersion, hmax]
    omega

theorem Delivers.step {settings : ServeSettings} (hl : LiveHub.Limited settings h)
    (hd : Delivers p h) {act : HubAct} (ha : p.Admissible act) : Delivers p (h.step act) := by
  rw [LiveHub.step.eq_def]
  split
  · exact hd
  · cases act with
    | admitSession nowNs =>
        show Delivers p (h.admitSession nowNs)
        rw [LiveHub.admitSession]
        split
        · exact hd
        · have hadmitted : Delivers p { h with
              sessions := h.sessions.set h.opened (), opened := h.opened + 1 } :=
            ⟨hd.books, hd.named, hd.queues⟩
          exact hadmitted.offer _ _ (List.forall_mem_singleton.mpr (reads_hello (h := h) hl))
    | detach id => exact ⟨hd.books, hd.named, hd.queues⟩
    | closeSessions code =>
        show Delivers p (h.closeSessions code)
        obtain ⟨-, -, -, -, hlive, hs⟩ := h.closeSessions_spec code
        refine ⟨?_, fun id => ?_, fun id => ?_⟩
        · rw [hlive]
          exact hd.books
        · rw [hs id]
          split
          · rw [ClientSession.close_subscriptions]
            exact hd.named id
          · exact hd.named id
        · rw [hs id]
          split
          · exact ClientSession.forall_close (hd.queues id) code
          · exact hd.queues id
    | subscribe id tickers nowNs => exact hd.subscribe id ha nowNs
    | handle id size nowNs frame =>
        refine hd.handle id size nowNs fun tickers hframe => ?_
        subst hframe
        exact ha
    | take id =>
        exact hd.setSession id (hd.named id) fun m hm => hd.queues id m (List.mem_of_mem_tail hm)
    | lose id => exact hd.setSession id (hd.named id) (hd.queues id)
    | receive message nowNs =>
        cases message with
        | none => exact ⟨hd.books, hd.named, hd.queues⟩
        | some envelope => exact hd.receive nowNs ha

/-- What the page reads of the levels of a message, it can count. -/
theorem countable_of_good {m : ServerMessage} (h : Good (p.wire m)) : m.Countable := by
  intro l hl
  cases m with
  | snapshot t state tsMs bids asks =>
      obtain ⟨-, -, hbids, hasks⟩ := h
      rcases List.mem_append.mp hl with hbid | hask
      · exact (hbids.inRange l hbid).2.2
      · exact (hasks.inRange l hask).2.2
  | _ => exact absurd hl List.not_mem_nil

/-- In every run whose clients name no empty ticker and whose bus brings nothing
out of range, each queued message is read by the page as it was meant, unless it
is a whole book with a count past the safe integers. -/
theorem deliveries_read (settings : ServeSettings) (p : Payloads) (acts : List HubAct)
    (hacts : ∀ act ∈ acts, p.Admissible act) :
    Run.Throughout LiveHub.step
      (fun h => ∀ id, ∀ m ∈ (h.session id).queue,
        decodeFrame (.json (p.wire m).encode) = .message (p.wire m) ↔ m.Countable)
      (.new (serveConfig settings)) acts := by
  have hrun := Run.throughout_of_step
    (I := fun h => LiveHub.Limited settings h ∧ Delivers p h) (L := fun _ act => p.Admissible act)
    (fun _ act hi ha => ⟨hi.1.step act, hi.2.step hi.1 ha⟩)
    ⟨LiveHub.limited_new settings, delivers_new p _⟩ (Run.along_of_forall hacts _)
  refine hrun.mono fun h hi id m hm => ?_
  rw [Page.Decode.decodeFrame_exact.1]
  exact ⟨countable_of_good, hi.2.queues id m hm⟩

/-- A trade of one contract, and a ticker update with no ask. -/
def samplePayloads : Payloads where
  trade _ := ⟨7, 4000, 100, .bid⟩
  ticker _ := ⟨7, some 4000, none, some 4000, 100⟩

/-- A market with a book, a client that follows it, a change and a trade. -/
def oneChange : List HubAct :=
  [.receive (some ⟨1, 1, .catalog ⟨[⟨"M"⟩]⟩⟩) fun _ => 0,
    .receive (some ⟨1, 2, .refresh ⟨"M", some 5, ⟨0, 0, 0⟩, false, [⟨4000, 700⟩],
      [⟨4100, 300⟩]⟩⟩) fun _ => 0,
    .admitSession 0, .subscribe 0 ["M"] 0,
    .receive (some ⟨1, 3, .book (.delta ⟨"M", some 6, ⟨0, 0, 0⟩, 1, some 1, .bid, 3900, 200,
      none⟩)⟩) fun _ => 0,
    .receive (some ⟨1, 4, .other ⟨.trade, "M", ⟨0, 0, 0⟩, 2⟩⟩) fun _ => 0]

theorem deliveries_read_one_change :
    Run.Throughout LiveHub.step
      (fun h => ∀ id, ∀ m ∈ (h.session id).queue,
        decodeFrame (.json (samplePayloads.wire m).encode) = .message (samplePayloads.wire m) ↔
          m.Countable)
      (.new (serveConfig LiveHub.tightest)) oneChange := by
  refine deliveries_read LiveHub.tightest samplePayloads oneChange fun act ha => ?_
  simp only [oneChange, List.mem_cons, List.not_mem_nil, or_false] at ha
  rcases ha with rfl | rfl | rfl | rfl | rfl | rfl
  · trivial
  · refine ⟨by decide, ?_, ?_, ?_⟩ <;> simp +decide
  · trivial
  · show "" ∉ ["M"]
    decide
  · refine ⟨by decide, by decide, by decide, by decide, ?_⟩
    simp +decide
  · exact ⟨by decide, by decide, by decide, by decide⟩

end Tape.Api
