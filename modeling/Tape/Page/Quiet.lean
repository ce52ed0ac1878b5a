import Tape.Page.Convergence

/-!
# Every run of a connection is sound

One lemma for what the client does on its own, one for the router, and one for
each of the server's moves; then the step, the run, and the two runs that show
when a market watched again is and is not heard of.
-/

namespace Tape.Page

theorem mem_uniqueTickers {tickers : List Ticker} {t : Ticker} :
    t ∈ uniqueTickers tickers ↔ t ∈ tickers ∧ t ≠ "" := by
  simp [uniqueTickers]

/-- Of distinct tickers only the empty one is left out. -/
theorem uniqueTickers_of_nodup {tickers : List Ticker} (h : tickers.Nodup) :
    uniqueTickers tickers = tickers.filter fun t => t ≠ "" := by
  have hnodup : (tickers.filter fun t => t ≠ "").reverse.Nodup :=
    List.nodup_reverse.mpr (h.filter _)
  rw [uniqueTickers, hnodup.dedup, List.reverse_reverse]

namespace Live

/-- A connection with another client. -/
def withClient (l : Live) (client : LiveClient) : Live :=
  { l with feed := { l.feed with client } }

variable {l : Live} {c' : LiveClient} {now : Int}

/-! ## The client on its own -/

theorem Kept.scheduled (h : l.Kept) (hlive : l.feed.client.phase = .live)
    (hs : Scheduled l.server.followed l.feed.client c') : (l.withClient c').Sound where
  socket _ := hs.advances.socket.trans (h.socket hlive)
  before hp := absurd (hs.advances.phase.trans hlive) hp
  stores := h.stores
  desired := hs.advances.desired.trans h.desired
  told := hs.advances.told
  followed := h.followed
  outbox tickers hin t ht := by
    obtain ⟨more, ho, hmore⟩ := hs.advances.outbox
    have hin' : tickers ∈ l.feed.client.outbox ++ more := ho ▸ hin
    rcases List.mem_append.mp hin' with hin' | hin'
    · exact h.outbox tickers hin' t ht
    · have hdesired := hmore tickers hin' t ht
      rw [h.desired] at hdesired
      exact (mem_uniqueTickers.mp hdesired).2
  sendable _ hne := by
    show Sendable c'.desired
    rw [hs.advances.desired]
    refine h.sendable hlive fun hnone => hne ?_
    exact Finset.subset_empty.mp (hnone ▸ hs.advances.refresh)
  status t store hstore ht := by
    rcases h.status t store hstore ht with hdrop | hrefresh | harrives
    · exact .inl (hdrop.of_outbox hs.advances.grows)
    · exact (hs.advances.kept t ht hrefresh).imp id .inl
    · exact .inr (.inr harrives)
  timed _ := hs.timed

/-- Before its `hello` a client only takes note. -/
theorem Kept.sound (h : l.Kept) (hp : l.feed.client.phase ≠ .live) : l.Sound where
  toKept := h
  timed hlive := absurd hlive hp

theorem Kept.scheduleSubscribe (h : l.Kept) :
    (l.withClient (l.feed.client.scheduleSubscribe now)).Sound := by
  by_cases hlive : l.feed.client.phase = .live
  · exact h.scheduled hlive
      (scheduleSubscribe_scheduled h.told hlive (h.socket hlive) (h.sendable hlive))
  · have hsame : l.feed.client.scheduleSubscribe now = l.feed.client := by
      rw [LiveClient.scheduleSubscribe, LiveClient.scheduleWith, if_pos (.inl hlive)]
    rw [hsame]
    exact h.sound hlive

theorem Kept.flushSubscription (h : l.Kept) :
    (l.withClient (l.feed.client.flushSubscription now)).Sound := by
  by_cases hlive : l.feed.client.phase = .live
  · exact h.scheduled hlive
      (flushSubscription_scheduled h.told hlive (h.socket hlive) (h.sendable hlive))
  · have hsame : l.feed.client.flushSubscription now = l.feed.client := by
      rw [LiveClient.flushSubscription, LiveClient.flushOnce, if_pos (.inl hlive)]
    rw [hsame]
    exact h.sound hlive

/-- The client changes only in what no store depends on. -/
theorem Kept.of_same (h : l.Kept) (hp : c'.phase = l.feed.client.phase)
    (hk : c'.socket = l.feed.client.socket) (hd : c'.desired = l.feed.client.desired)
    (hr : c'.refresh = l.feed.client.refresh) (ho : c'.outbox = l.feed.client.outbox)
    (hs : c'.sent = l.feed.client.sent) : (l.withClient c').Kept where
  socket hlive := hk.trans (h.socket (hp.symm.trans hlive))
  before hne := by
    have hbefore := h.before fun hlive => hne (hp.trans hlive)
    exact ⟨hbefore.1, ho.trans hbefore.2⟩
  stores := h.stores
  desired := hd.trans h.desired
  told := h.told.of_same ho hs
  followed := h.followed
  outbox := by
    show ∀ tickers ∈ c'.outbox, ∀ t ∈ tickers, t ≠ ""
    rw [ho]
    exact h.outbox
  sendable hlive hne := by
    show Sendable c'.desired
    rw [hd]
    exact h.sendable (hp.symm.trans hlive) fun hnone => hne (hr.trans hnone)
  status t store hstore ht := by
    have hstatus := h.status t store hstore ht
    rw [Recovers, Dropping] at hstatus ⊢
    show (∃ tickers ∈ c'.outbox, t ∉ tickers) ∨ t ∈ c'.refresh ∨ _
    rw [ho, hr]
    exact hstatus

theorem Sound.of_same (h : l.Sound) (hp : c'.phase = l.feed.client.phase)
    (hk : c'.socket = l.feed.client.socket) (hd : c'.desired = l.feed.client.desired)
    (hr : c'.refresh = l.feed.client.refresh) (ho : c'.outbox = l.feed.client.outbox)
    (hs : c'.sent = l.feed.client.sent) (ht : c'.subscribeTimer = l.feed.client.subscribeTimer) :
    (l.withClient c').Sound where
  toKept := h.toKept.of_same hp hk hd hr ho hs
  timed hlive hne :=
    ht.trans (h.timed (hp.symm.trans hlive) fun hnone => hne (hr.trans hnone))

theorem Sound.subscribeTimerFires (h : l.Sound) :
    (l.withClient (l.feed.client.subscribeTimerFires now)).Sound := by
  rw [LiveClient.subscribeTimerFires]
  split
  · have hkept := @Kept.of_same l { l.feed.client with subscribeTimer := false } h.toKept
      rfl rfl rfl rfl rfl rfl
    exact hkept.flushSubscription
  · exact h

theorem Sound.retryTimerFires (h : l.Sound) :
    (l.withClient (l.feed.client.retryTimerFires now)).Sound := by
  rw [LiveClient.retryTimerFires]
  split
  · have hkept :=
      @Kept.of_same l { l.feed.client with rejectionRetryTimer := false, resend := true }
      h.toKept rfl rfl rfl rfl rfl rfl
    exact hkept.scheduleSubscribe
  · exact h

/-- A reply moves the retry only. -/
theorem retryUnknownTickers_eq (c : LiveClient) (rejected : List Rejection) :
    ∃ retries timer, c.retryUnknownTickers rejected =
      { c with rejectionRetries := retries, rejectionRetryTimer := timer } := by
  rw [LiveClient.retryUnknownTickers]
  by_cases hunknown : (rejected.any fun entry =>
      entry.code = "unknown_ticker" ∧ entry.ticker ∈ c.desired) = true
  · simp only [hunknown, if_true]
    split
    · exact ⟨_, _, rfl⟩
    · split <;> exact ⟨_, _, rfl⟩
  · simp only [hunknown]
    exact ⟨_, _, rfl⟩

theorem Sound.retryUnknownTickers (h : l.Sound) (rejected : List Rejection) :
    (l.withClient (l.feed.client.retryUnknownTickers rejected)).Sound := by
  obtain ⟨retries, timer, heq⟩ := retryUnknownTickers_eq l.feed.client rejected
  rw [heq]
  exact h.of_same rfl rfl rfl rfl rfl rfl rfl

/-! ## The set of watched markets changes -/

/-- The client is told another set; the stores that are new must recover. -/
theorem Sound.setSubscription (h : l.Sound) (r' : MarketRouter)
    (hstores : ∀ t store, r'.stores.get? t = some store → store.ticker = t)
    (hsend : l.feed.client.phase = .live → l.feed.client.refresh ≠ ∅ →
      Sendable (uniqueTickers r'.tickers))
    (hstatus : ∀ t store, r'.stores.get? t = some store → t ∈ l.server.followed →
      l.Recovers t store.status) :
    ({ l with feed := { l.feed with router := r' }.setSubscription now } : Live).Sound := by
  have hkept : ({ l with feed := ⟨r', { l.feed.client with
      rejectionRetries := if uniqueTickers r'.tickers = l.feed.client.desired
        then l.feed.client.rejectionRetries else 0
      desired := uniqueTickers r'.tickers
      refresh := l.feed.client.refresh.filter fun t => t ∈ uniqueTickers r'.tickers }⟩ } :
        Live).Kept :=
    { socket := h.socket
      before := h.before
      stores := hstores
      desired := rfl
      told := h.told.of_same rfl rfl
      followed := h.followed
      outbox := h.outbox
      sendable := fun hlive hne => hsend hlive fun hnone => hne (by
        show l.feed.client.refresh.filter _ = ∅
        rw [hnone, Finset.filter_empty])
      status := fun t store hstore ht => by
        rcases hstatus t store hstore ht with hdrop | hrefresh | harrives
        · exact .inl hdrop
        · refine .inr (.inl (Finset.mem_filter.mpr ⟨hrefresh, mem_uniqueTickers.mpr ⟨?_, ?_⟩⟩))
          · exact Dict.mem_keys_of_get? hstore
          · exact h.followed t ht
        · exact .inr (.inr harrives) }
  exact hkept.scheduleSubscribe

/-- A market that was not watched has a new store. -/
theorem get?_track {r : MarketRouter} {t u : Ticker} {store : TapeStore}
    (h : (r.track t).stores.get? u = some store) :
    r.stores.get? u = some store ∨ (u = t ∧ t ∉ r.tickers ∧ store = TapeStore.new t) := by
  rw [MarketRouter.track] at h
  split at h
  · exact .inl h
  · next hnone =>
      by_cases hu : t = u
      · subst hu
        rw [Dict.get?_set_self] at h
        exact .inr ⟨rfl, Dict.get?_eq_none_iff.mp hnone, (Option.some.inj h).symm⟩
      · rw [Dict.get?_set_ne hu] at h
        exact .inl h

theorem Sound.watch {t : Ticker} (h : l.Sound) (hw : l.Watches (.watch t now)) :
    (l.step (.watch t now)).Sound := by
  obtain ⟨hnew, hsend⟩ := hw
  refine h.setSubscription _ (fun u store hstore => ?_) (fun _ => hsend)
    fun u store hstore hu => ?_
  · rcases get?_track hstore with hold | ⟨rfl, -, rfl⟩
    · exact h.stores u store hold
    · rfl
  · rcases get?_track hstore with hold | ⟨rfl, hunwatched, rfl⟩
    · exact h.status u store hold hu
    · exact (hnew hunwatched hu).imp id .inr

/-- Fewer watched markets are a part of the desired ones. -/
theorem uniqueTickers_release (r : MarketRouter) (t : Ticker) :
    (uniqueTickers (r.release t).tickers).Sublist (uniqueTickers r.tickers) := by
  have hsub : (r.release t).tickers.Sublist r.tickers := List.filter_sublist.map Prod.fst
  have hnodup : r.tickers.Nodup := r.stores.nodup
  rw [uniqueTickers_of_nodup hnodup, uniqueTickers_of_nodup (hnodup.sublist hsub)]
  exact hsub.filter _

theorem Sound.unwatch (h : l.Sound) (t : Ticker) :
    (l.step (.unwatch t now)).Sound := by
  have hold : ∀ u store, (l.feed.router.release t).stores.get? u = some store →
      l.feed.router.stores.get? u = some store := by
    intro u store hstore
    rw [MarketRouter.release, Dict.get?_erase] at hstore
    split at hstore
    · cases hstore
    · exact hstore
  refine h.setSubscription _ (fun u store hstore => h.stores u store (hold u store hstore))
    (fun hlive hne => ?_) fun u store hstore hu => h.status u store (hold u store hstore) hu
  exact (h.desired ▸ h.sendable hlive hne).sublist (uniqueTickers_release l.feed.router t)

/-! ## The frames -/

/-- The head of the inbox is taken off, and no store moves. -/
theorem Sound.popped {frame : FrameDecoding} {inbox : List FrameDecoding} (h : l.Sound)
    (hin : l.inbox = frame :: inbox)
    (hleaves : l.feed.client.phase = .live → ∀ t store,
      l.feed.router.stores.get? t = some store → t ∈ l.server.followed →
        frame.leaves t store.status = store.status) :
    ({ l with inbox } : Live).Sound where
  toKept := { h.toKept with
    status := fun t store hstore ht => by
      by_cases hlive : l.feed.client.phase = .live
      · rcases h.status t store hstore ht with hdrop | hrefresh | harrives
        · exact .inl hdrop
        · exact .inr (.inl hrefresh)
        · refine .inr (.inr fun book hbook => ?_)
          have harrived := harrives book hbook
          rw [hin] at harrived
          have hhead : arriving t store.status (frame :: inbox)
              = arriving t (frame.leaves t store.status) inbox := rfl
          rwa [hhead, hleaves hlive t store hstore ht] at harrived
      · rw [(h.before hlive).1] at ht
        cases ht }
  timed := h.timed

/-- The `hello` makes a client live, or leaves it for good. -/
theorem Sound.handleHello (h : l.Sound) (hsocket : l.feed.client.socket = true)
    (hello : HelloMessage) :
    (l.withClient (l.feed.client.handleHello hello now)).Sound := by
  rw [LiveClient.handleHello]
  dsimp only
  split
  · exact h.of_same rfl rfl rfl rfl rfl rfl rfl
  · next hp =>
      have hhandshaking : l.feed.client.phase = .handshaking := not_not.mp hp
      have hbefore := h.before (by rw [hhandshaking]; decide)
      have hnone : ∀ t, t ∉ l.server.followed := by
        intro t ht
        rw [hbefore.1] at ht
        cases ht
      have htold : ∀ c' : LiveClient, c'.outbox = l.feed.client.outbox →
          Told l.server.followed c' := by
        intro c' ho
        refine ⟨fun tickers hlast => ?_, fun t ht => absurd ht (hnone t)⟩
        rw [ho, hbefore.2] at hlast
        cases hlast
      split
      · exact {
          socket := nofun
          before := fun _ => hbefore
          stores := h.stores
          desired := h.desired
          told := htold _ rfl
          followed := h.followed
          outbox := h.outbox
          sendable := nofun
          status := fun t _ _ ht => absurd ht (hnone t)
          timed := nofun }
      · have hkept : (l.withClient { l.feed.client with
            helloTimer := false, sent := none, lastSubscribeAtMs := none, refresh := ∅
            rejectionRetries := 0, resend := false, phase := .live, hello := some hello
            subscribed := [], rejected := [] }).Kept :=
          { socket := fun _ => hsocket
            before := fun hne => absurd rfl hne
            stores := h.stores
            desired := h.desired
            told := htold _ rfl
            followed := h.followed
            outbox := h.outbox
            sendable := fun _ hne => absurd rfl hne
            status := fun t _ _ ht => absurd ht (hnone t) }
        exact hkept.scheduleSubscribe

/-- A message about a market leaves the other stores alone. -/
theorem get?_dispatched {r : MarketRouter} {m t : Ticker} {next store : TapeStore}
    (h : (r.stores.set m next).get? t = some store) :
    (t = m ∧ store = next) ∨ (t ≠ m ∧ r.stores.get? t = some store) := by
  by_cases ht : m = t
  · subst ht
    rw [Dict.get?_set_self] at h
    exact .inl ⟨rfl, (Option.some.inj h).symm⟩
  · rw [Dict.get?_set_ne ht] at h
    exact .inr ⟨fun heq => ht heq.symm, h⟩

/-- The store a message is about moves with the message, or its market is to be
refreshed. -/
theorem Kept.dispatched {message : MarketMessage} {inbox : List FrameDecoding}
    {store next : TapeStore} {refresh : Finset Ticker} (h : l.Kept)
    (hin : l.inbox = .market message :: inbox)
    (hstore : l.feed.router.stores.get? message.market = some store)
    (hticker : next.ticker = message.market) (hsub : l.feed.client.refresh ⊆ refresh)
    (hsend : l.feed.client.phase = .live → refresh ≠ ∅ → Sendable l.feed.client.desired)
    (hnext : message.market ∈ l.server.followed →
      message.market ∈ refresh ∨ next.status = message.leaves store.status) :
    ({ l with
      feed := ⟨⟨l.feed.router.stores.set message.market next⟩, { l.feed.client with refresh }⟩
      inbox } : Live).Kept where
  socket := h.socket
  before := h.before
  stores t store' hstore' := by
    rcases get?_dispatched hstore' with ⟨rfl, rfl⟩ | ⟨-, hold⟩
    · exact hticker
    · exact h.stores t store' hold
  desired := by
    have hkeys : (l.feed.router.stores.set message.market next).keys
        = l.feed.router.stores.keys := by
      rw [Dict.keys_set, if_pos (Dict.mem_keys_of_get? hstore)]
    show l.feed.client.desired = uniqueTickers (l.feed.router.stores.set message.market next).keys
    rw [hkeys]
    exact h.desired
  told := h.told.of_same rfl rfl
  followed := h.followed
  outbox := h.outbox
  sendable := hsend
  status t store' hstore' ht := by
    -- an old obligation loses its head frame
    have hpopped : ∀ status, l.Recovers t status → Dropping l.feed.client t ∨ t ∈ refresh ∨
        ∀ book, l.server.held.get? t = some book →
          arriving t ((FrameDecoding.market message).leaves t status) inbox = book.status := by
      rintro status (hdrop | hrefresh | harrives)
      · exact .inl hdrop
      · exact .inr (.inl (hsub hrefresh))
      · rw [hin] at harrives
        exact .inr (.inr harrives)
    rcases get?_dispatched hstore' with ⟨rfl, rfl⟩ | ⟨hne, hold⟩
    · rcases hnext ht with hrefresh | hleaves
      · exact .inr (.inl hrefresh)
      · have hstatus := hpopped store.status (h.status _ store hstore ht)
        have hframe : (FrameDecoding.market message).leaves message.market store.status
            = store'.status := (if_pos rfl).trans hleaves.symm
        rwa [hframe] at hstatus
    · have hstatus := hpopped store'.status (h.status t store' hold ht)
      have hframe : (FrameDecoding.market message).leaves t store'.status = store'.status :=
        if_neg fun heq => hne heq.symm
      rwa [hframe] at hstatus

/-- A watched market that the server follows is desired. -/
theorem Kept.mem_desired {t : Ticker} {store : TapeStore} (h : l.Kept)
    (hstore : l.feed.router.stores.get? t = some store) (ht : t ∈ l.server.followed) :
    t ∈ l.feed.client.desired := by
  rw [h.desired]
  exact mem_uniqueTickers.mpr ⟨Dict.mem_keys_of_get? hstore, h.followed t ht⟩

theorem Sound.dispatch {message : MarketMessage} {inbox : List FrameDecoding} (h : l.Sound)
    (hin : l.inbox = .market message :: inbox)
    (hsend : ∀ store, l.feed.router.stores.get? message.market = some store →
      (store.apply message).2 = .bookInvalid → Sendable l.feed.client.desired) :
    ({ l with
      feed := match l.feed.router.dispatch message with
        | (router, none) => ⟨router, l.feed.client⟩
        | (router, some ticker) => ⟨router, l.feed.client.requestSnapshot ticker now⟩
      inbox } : Live).Sound := by
  rw [MarketRouter.dispatch]
  cases hstore : l.feed.router.stores.get? message.market with
  | none =>
      refine h.popped hin fun _ t store hget _ => ?_
      refine if_neg fun heq => ?_
      rw [← heq, hstore] at hget
      cases hget
  | some store =>
      have hticker : (store.apply message).1.ticker = message.market :=
        (store.apply_ticker message).trans (h.stores _ store hstore)
      dsimp only
      by_cases hvalid : (store.apply message).2 = .bookInvalid
      · rw [if_pos hvalid]
        dsimp only
        rw [LiveClient.requestSnapshot]
        split
        · exact (h.dispatched hin hstore hticker (Finset.subset_insert _ _)
            (fun _ _ => hsend store hstore hvalid)
            fun _ => .inl (Finset.mem_insert_self _ _)).scheduleSubscribe
        · next hdesired =>
            exact {
              toKept := h.dispatched hin hstore hticker (Finset.Subset.refl _) h.sendable
                fun hfollowed => absurd (h.mem_desired hstore hfollowed) hdesired
              timed := h.timed }
      · rw [if_neg hvalid]
        exact {
          toKept := h.dispatched hin hstore hticker (Finset.Subset.refl _) h.sendable
            fun _ => .inr (TapeStore.apply_status (h.stores _ store hstore).symm hvalid)
          timed := h.timed }

theorem Sound.deliver (h : l.Sound) (hw : l.Watches (.deliver now)) :
    (l.step (.deliver now)).Sound := by
  rw [step]
  split
  · exact h
  · next frame inbox hin =>
      rw [LiveFeed.handleFrame, LiveClient.handleFrame.eq_def]
      have hquiet : (∀ message, frame ≠ .market message) → ({ l with inbox } : Live).Sound :=
        fun hframe => h.popped hin fun _ _ _ _ _ => FrameDecoding.leaves_of_not_market hframe
      by_cases hsocket : l.feed.client.socket = false
      · rw [if_pos hsocket]
        refine h.popped hin fun hlive => ?_
        rw [h.socket hlive] at hsocket
        cases hsocket
      · rw [if_neg hsocket]
        cases frame with
        | malformed => exact (hquiet nofun).of_same rfl rfl rfl rfl rfl rfl rfl
        | ignored => exact (hquiet nofun).of_same rfl rfl rfl rfl rfl rfl rfl
        | error code message => exact (hquiet nofun).of_same rfl rfl rfl rfl rfl rfl rfl
        | hello message => exact (hquiet nofun).handleHello (Bool.not_eq_false _ ▸ hsocket) message
        | subscribed tickers rejected =>
            have hreply : (({ l with inbox } : Live).withClient { l.feed.client with
                subscribed := tickers, rejected := rejected }).Sound :=
              (hquiet nofun).of_same rfl rfl rfl rfl rfl rfl rfl
            exact hreply.retryUnknownTickers rejected
        | market message =>
            by_cases hlive : l.feed.client.phase = .live
            · simp only [if_pos hlive]
              exact h.dispatch hin fun store hstore hinvalid =>
                hw message store (by rw [hin]; rfl) hstore hinvalid
            · simp only [if_neg hlive]
              exact h.popped hin fun hl => absurd hl hlive

/-! ## The server -/

theorem Sound.answer (h : l.Sound) (answer : Answer) : (l.step (.answer answer)).Sound := by
  rw [step]
  split
  · exact h
  · next tickers outbox hout =>
      have hlive : l.feed.client.phase = .live := by
        by_contra hp
        rw [(h.before hp).2] at hout
        cases hout
      have hsub : tickers.filter (fun t => answer.reject t = none) ⊆ tickers :=
        List.filter_subset_self _
      have hhead : tickers ∈ l.feed.client.outbox := by
        rw [hout]
        exact List.mem_cons_self
      exact {
        socket := h.socket
        before := fun hne => absurd hlive hne
        stores := h.stores
        desired := h.desired
        told := h.told.answered hout hsub
        followed := fun t ht => h.outbox tickers hhead t (hsub ht)
        outbox := fun later hin => h.outbox later (hout ▸ List.mem_cons_of_mem _ hin)
        sendable := h.sendable
        timed := h.timed
        status := fun t store hstore ht => by
          have hbrings : ∀ status, (t ∈ l.server.followed → ∀ book,
                l.server.held.get? t = some book → arriving t status l.inbox = book.status) →
              ∀ book, l.server.held.get? t = some book →
                arriving t status (l.inbox ++ (l.server.subscribe answer tickers).2)
                  = book.status := by
            intro status hknown book hbook
            rw [arriving_append]
            show arriving t (arriving t status l.inbox) (List.filterMap _ _) = book.status
            refine arriving_snapshots hbook ?_
            by_cases hfollowed : t ∈ l.server.followed
            · exact .inr (hknown hfollowed book hbook)
            · exact .inl (List.mem_filter.mpr ⟨ht, by simpa using hfollowed⟩)
          by_cases hfollowed : t ∈ l.server.followed
          · rcases h.status t store hstore hfollowed with ⟨later, hin, hnot⟩ | hrefresh | harrives
            · -- the subscribe that left `t` out is not this one
              rw [hout] at hin
              rcases List.mem_cons.mp hin with rfl | hin
              · exact absurd (hsub ht) hnot
              · exact .inl ⟨later, hin, hnot⟩
            · exact .inr (.inl hrefresh)
            · exact .inr (.inr (hbrings store.status fun _ => harrives))
          · exact .inr (.inr (hbrings store.status fun hin => absurd hin hfollowed)) }

/-- A message moves a store that is in the server's state as it moves the
server. -/
theorem leaves_noted {s : Server} {message : MarketMessage} {t : Ticker} {status : BookStatus}
    (hs : ∀ book, s.held.get? t = some book → status = book.status) {book : KnownBookState}
    (hbook : (s.note message).held.get? t = some book) :
    (FrameDecoding.market message).leaves t status = book.status := by
  have hother : ∀ u (held : Dict Ticker KnownBookState), u ≠ t →
      held.get? t = s.held.get? t → held.get? t = some book → status = book.status :=
    fun _ _ _ hsame hget => hs book (hsame.symm.trans hget)
  cases message with
  | snapshot u state bids asks =>
      by_cases hu : u = t
      · subst hu
        have hget : (s.held.set u state).get? u = some book := hbook
        rw [Dict.get?_set_self] at hget
        obtain rfl := Option.some.inj hget
        exact if_pos rfl
      · exact (if_neg hu).trans (hother u _ hu (Dict.get?_set_ne hu) hbook)
  | book u state =>
      rw [Server.note] at hbook
      by_cases hu : u = t
      · subst hu
        split at hbook
        · next hheld =>
            obtain ⟨held, hget⟩ := Dict.mem_keys_iff.mp (Dict.contains_iff.mp hheld)
            have hnext : (s.held.set u state).get? u = some book := hbook
            rw [Dict.get?_set_self] at hnext
            obtain rfl := Option.some.inj hnext
            have hknown : status ≠ .unknown := by
              rw [hs held hget]
              exact KnownBookState.status_ne held
            exact (if_pos rfl).trans (if_neg hknown)
        · next hheld =>
            exact absurd (Dict.contains_iff.mpr (Dict.mem_keys_of_get? hbook)) hheld
      · refine (if_neg hu).trans ?_
        split at hbook
        · exact hother u _ hu (Dict.get?_set_ne hu) hbook
        · exact hs book hbook
  | resync u reason =>
      by_cases hu : u = t
      · subst hu
        have hget : (s.held.erase u).get? u = some book := hbook
        rw [Dict.get?_erase_self] at hget
        cases hget
      · exact (if_neg hu).trans (hother u _ hu (Dict.get?_erase_ne hu) hbook)
  | delta u side priceE4 deltaE2 => exact (ite_self status).trans (hs book hbook)
  | trade u => exact (ite_self status).trans (hs book hbook)
  | ticker u => exact (ite_self status).trans (hs book hbook)

/-- What happens to one market leaves the others as they were. -/
theorem get?_noted {s : Server} {message : MarketMessage} {t : Ticker}
    (h : message.market ≠ t) : (s.note message).held.get? t = s.held.get? t := by
  cases message with
  | snapshot u state bids asks => exact Dict.get?_set_ne h
  | book u state =>
      rw [Server.note]
      split
      · exact Dict.get?_set_ne h
      · rfl
  | resync u reason => exact Dict.get?_erase_ne h
  | _ => rfl

theorem note_followed (s : Server) (message : MarketMessage) :
    (s.note message).followed = s.followed := by
  cases message with
  | book u state =>
      rw [Server.note]
      split <;> rfl
  | _ => rfl

theorem Sound.change (h : l.Sound) (message : MarketMessage) :
    (l.step (.change message)).Sound where
  socket := h.socket
  before hp := ⟨(note_followed _ _).trans (h.before hp).1, (h.before hp).2⟩
  stores := h.stores
  desired := h.desired
  told := by
    show Told (l.server.note message).followed l.feed.client
    rw [note_followed]
    exact h.told
  followed := by
    show ∀ t ∈ (l.server.note message).followed, t ≠ ""
    rw [note_followed]
    exact h.followed
  outbox := h.outbox
  sendable := h.sendable
  timed := h.timed
  status t store hstore ht := by
    have hfollowed : t ∈ l.server.followed := note_followed l.server message ▸ ht
    rcases h.status t store hstore hfollowed with hdrop | hrefresh | harrives
    · exact .inl hdrop
    · exact .inr (.inl hrefresh)
    · refine .inr (.inr fun book hbook => ?_)
      show arriving t store.status (if message.market ∈ l.server.followed then _ else _)
        = book.status
      by_cases hm : message.market = t
      · rw [if_pos (hm ▸ hfollowed), arriving_append]
        exact leaves_noted harrives hbook
      · have hheld : l.server.held.get? t = some book := (get?_noted hm).symm.trans hbook
        split
        · rw [arriving_append]
          exact (if_neg hm).trans (harrives book hheld)
        · exact harrives book hheld

theorem Sound.other (h : l.Sound) (frame : FrameDecoding) : (l.step (.other frame)).Sound := by
  have hsent : (∀ message, frame ≠ .market message) →
      ({ l with inbox := l.inbox ++ [frame] } : Live).Sound := fun hframe =>
    { toKept := { h.toKept with
        status := fun t store hstore ht => by
          rcases h.status t store hstore ht with hdrop | hrefresh | harrives
          · exact .inl hdrop
          · exact .inr (.inl hrefresh)
          · refine .inr (.inr fun book hbook => ?_)
            show arriving t store.status (l.inbox ++ [frame]) = book.status
            rw [arriving_append]
            exact (FrameDecoding.leaves_of_not_market hframe).trans (harrives book hbook) }
      timed := h.timed }
  cases frame with
  | market message => exact h
  | _ => exact hsent nofun

/-! ## The run -/

theorem Sound.step {e : LiveEvent} (h : l.Sound) (hw : l.Watches e) : (l.step e).Sound := by
  cases e with
  | watch t now => exact h.watch hw
  | unwatch t now => exact h.unwatch t
  | subscribeTimer now => exact h.subscribeTimerFires
  | retryTimer now => exact h.retryTimerFires
  | deliver now => exact h.deliver hw
  | answer answer => exact h.answer answer
  | change message => exact h.change message
  | other frame => exact h.other frame

theorem Starts.sound (h : l.Starts) : l.Sound where
  socket _ := h.socket
  before _ := ⟨h.followed, h.outbox⟩
  stores t store hstore := (h.unknown t store hstore).1
  desired := h.desired
  told := by
    refine ⟨fun tickers hlast => ?_, fun t ht => ?_⟩
    · rw [h.outbox] at hlast
      cases hlast
    · rw [h.followed] at ht
      cases ht
  followed t ht := by
    rw [h.followed] at ht
    cases ht
  outbox tickers hin := by
    rw [h.outbox] at hin
    cases hin
  sendable hlive := by
    rw [h.phase] at hlive
    cases hlive
  status t _ _ ht := by
    rw [h.followed] at ht
    cases ht
  timed hlive := by
    rw [h.phase] at hlive
    cases hlive

/-- On every connection whose page watches markets anew only as `Watches`
says, a market that is watched and followed has the server's state as soon as
nothing is under way. -/
theorem converged_of_watches {es : List LiveEvent} (h : l.Starts)
    (hw : Run.Along Live.step Live.Watches l es) :
    Run.Throughout Live.step Live.Converged l es :=
  (Run.throughout_of_step (fun _ _ => Sound.step) h.sound hw).mono fun _ => Sound.converged

/-- A page that watches nothing yet, and a server that holds one book. -/
def single : Live where
  feed := LiveFeed.opened {}
  server := ⟨[], (∅ : Dict Ticker KnownBookState).set "KXA" .fresh⟩
  inbox := [.hello ⟨protocolVersion, 30⟩]

theorem single_starts : single.Starts where
  phase := rfl
  socket := rfl
  subscribeTimer := rfl
  rejectionRetryTimer := rfl
  outbox := rfl
  desired := rfl
  unknown t store h := by cases h
  followed := rfl
  hello := ⟨_, rfl⟩

/-- The market is watched, accepted, and shown. -/
def watched : List LiveEvent :=
  [.deliver 0, .watch "KXA" 1000, .answer ⟨fun _ => none, fun _ => ([], [])⟩,
    .deliver 1010, .deliver 1020]

/-- The frame is a change of a level. -/
def isDelta : FrameDecoding → Bool
  | .market (.delta _ _ _ _) => true
  | _ => false

/-- A frame that is no delta finds no book invalid. -/
theorem watches_deliver {now : Int} (h : l.inbox.head?.any isDelta = false) :
    l.Watches (.deliver now) := by
  intro message store hhead _ hinvalid
  obtain ⟨u, side, priceE4, deltaE2, rfl⟩ := TapeStore.apply_invalid hinvalid
  rw [hhead] at h
  cases h

/-- The market is dropped, the timer tells the server so, and it is watched again
while that subscribe is still on its way. -/
def watchedAgain : List LiveEvent :=
  watched ++ [.unwatch "KXA" 1100, .subscribeTimer 1250, .watch "KXA" 1300,
    .answer ⟨fun _ => none, fun _ => ([], [])⟩, .deliver 1310, .subscribeTimer 1500,
    .answer ⟨fun _ => none, fun _ => ([], [])⟩, .deliver 1510, .deliver 1520]

theorem watchedAgain_along : Run.Along Live.step Live.Watches single watchedAgain := by
  refine ⟨watches_deliver rfl, ⟨fun _ ht => ?_, fun hne => absurd rfl hne⟩, trivial,
    watches_deliver rfl, watches_deliver rfl, trivial, trivial,
    ⟨fun _ _ => .inl ⟨[], ?_, List.not_mem_nil⟩, fun hne => absurd rfl hne⟩, trivial,
    watches_deliver rfl, trivial, trivial, watches_deliver rfl, watches_deliver rfl, trivial⟩
  · cases ht
  · decide +kernel

theorem watched_converged :
    ((Run.final Live.step single watchedAgain).feed.router.stores.get? "KXA").map
      TapeStore.status = some .fresh := by
  have hrun := (converged_of_watches single_starts watchedAgain_along).last
  have hstore :
      ((Run.final Live.step single watchedAgain).feed.router.stores.get? "KXA").isSome := by
    decide +kernel
  obtain ⟨store, hstore⟩ := Option.isSome_iff_exists.mp hstore
  rw [hstore]
  exact congrArg some (hrun (by decide +kernel) (by decide +kernel) (by decide +kernel)
    (by decide +kernel) "KXA" store hstore (by decide +kernel) .fresh (by decide +kernel))

/-- The market is dropped and watched again before the page may say so. -/
def rewatched : List LiveEvent :=
  watched ++ [.unwatch "KXA" 1100, .watch "KXA" 1200, .subscribeTimer 1250]

/-- Nothing is under way and the server's book is fresh, yet the page knows no
book. -/
theorem rewatched_unknown :
    ¬ ∀ l : Live, l.Starts → ∀ es, Run.Throughout Live.step Live.Converged l es := by
  intro h
  have hrun := (h single single_starts rewatched).last
  have hstore : ((Run.final Live.step single rewatched).feed.router.stores.get? "KXA").map
      TapeStore.status = some .unknown := by
    decide +kernel
  obtain ⟨store, hstore, hunknown⟩ := Option.map_eq_some_iff.mp hstore
  have hfresh := hrun (by decide +kernel) (by decide +kernel) (by decide +kernel)
    (by decide +kernel) "KXA" store hstore (by decide +kernel) .fresh (by decide +kernel)
  rw [hunknown] at hfresh
  cases hfresh

end Live

end Tape.Page
