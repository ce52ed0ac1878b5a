import Mathlib
import Tape.Page.LiveFeed

/-!
# What the page shows once it is quiet

A market that was watched, dropped and watched again has a new store, empty. If
the server never heard of it, because both changes fell between two subscribe
messages, nothing brings a snapshot: the flush finds the set it last sent and
sends nothing (`rewatched_unknown`).

`Sound` is what every run keeps to as long as this does not happen. Of a
watched market that the server follows, one of three things holds: a subscribe
that leaves it out is on its way, or the client is about to send one, or the
frames on their way bring its store to the server's state. When nothing is on
its way and no timer is set, only the last is left.
-/

namespace Tape.Page

/-! ## The size of a subscribe message -/

theorem intercalate_size_cons (sep a : String) (l : List String) :
    (sep.intercalate l).utf8ByteSize ≤ (sep.intercalate (a :: l)).utf8ByteSize ∧
      a.utf8ByteSize ≤ (sep.intercalate (a :: l)).utf8ByteSize := by
  cases l with
  | nil => simp
  | cons b l =>
      rw [String.intercalate_cons_cons, String.utf8ByteSize_append, String.utf8ByteSize_append]
      omega

/-- Fewer items make no longer a text. -/
theorem intercalate_size_mono (sep : String) {l l' : List String} (h : l'.Sublist l) :
    (sep.intercalate l').utf8ByteSize ≤ (sep.intercalate l).utf8ByteSize := by
  induction h with
  | slnil => exact le_refl _
  | cons a _ ih => exact ih.trans (intercalate_size_cons sep a _).1
  | @cons_cons l₁ l₂ a hsub ih =>
      cases l₁ with
      | nil =>
          rw [String.intercalate_singleton]
          exact (intercalate_size_cons sep a l₂).2
      | cons b l₁ =>
          cases l₂ with
          | nil => cases hsub
          | cons b' l₂ =>
              rw [String.intercalate_cons_cons, String.intercalate_cons_cons]
              simp only [String.utf8ByteSize_append]
              omega

/-- The subscribe of these markets may be sent. -/
def Sendable (tickers : List Ticker) : Prop :=
  (subscribePayload tickers).utf8ByteSize ≤ maxClientMessageBytes

theorem enclosed_size (before after : String) {s s' : String}
    (h : s.utf8ByteSize ≤ s'.utf8ByteSize) :
    (before ++ s ++ after).utf8ByteSize ≤ (before ++ s' ++ after).utf8ByteSize := by
  simp only [String.utf8ByteSize_append]
  omega

theorem Sendable.sublist {tickers fewer : List Ticker} (h : Sendable tickers)
    (hsub : fewer.Sublist tickers) : Sendable fewer :=
  (enclosed_size _ _ (intercalate_size_mono "," (hsub.map jsonString))).trans h

/-! ## What the client does to its outbox -/

/-- A subscribe on its way to the server leaves the market out. -/
def Dropping (c : LiveClient) (t : Ticker) : Prop := ∃ tickers ∈ c.outbox, t ∉ tickers

/-- What the client last sent, against what is on its way and what the server
follows. -/
structure Told (followed : List Ticker) (c : LiveClient) : Prop where
  last : ∀ tickers, c.outbox.getLast? = some tickers → c.sent = some tickers
  known : ∀ t ∈ followed, Dropping c t ∨ ∃ tickers, c.sent = some tickers ∧ t ∈ tickers

/-- A step of the client that may flush. -/
structure Advances (followed : List Ticker) (c c' : LiveClient) : Prop where
  phase : c'.phase = c.phase
  socket : c'.socket = c.socket
  desired : c'.desired = c.desired
  refresh : c'.refresh ⊆ c.refresh
  outbox : ∃ more, c'.outbox = c.outbox ++ more ∧ ∀ tickers ∈ more, ∀ t ∈ tickers, t ∈ c.desired
  told : Told followed c'
  /-- A market to be refreshed is left out of a message, or still to be. -/
  kept : ∀ t ∈ followed, t ∈ c.refresh → Dropping c' t ∨ t ∈ c'.refresh

variable {followed : List Ticker} {c c' c'' : LiveClient} {now : Int}

theorem Dropping.of_outbox {t : Ticker} (h : Dropping c t)
    (ho : ∃ more, c'.outbox = c.outbox ++ more) : Dropping c' t := by
  obtain ⟨tickers, hin, hnot⟩ := h
  obtain ⟨more, ho⟩ := ho
  exact ⟨tickers, by rw [ho]; exact List.mem_append_left _ hin, hnot⟩

theorem Advances.grows (h : Advances followed c c') : ∃ more, c'.outbox = c.outbox ++ more := by
  obtain ⟨more, ho, -⟩ := h.outbox
  exact ⟨more, ho⟩

theorem Advances.trans (h : Advances followed c c') (h' : Advances followed c' c'') :
    Advances followed c c'' where
  phase := h'.phase.trans h.phase
  socket := h'.socket.trans h.socket
  desired := h'.desired.trans h.desired
  refresh := h'.refresh.trans h.refresh
  outbox := by
    obtain ⟨more, ho, hin⟩ := h.outbox
    obtain ⟨more', ho', hin'⟩ := h'.outbox
    refine ⟨more ++ more', by rw [ho', ho, List.append_assoc], fun tickers htickers t ht => ?_⟩
    rcases List.mem_append.mp htickers with htickers | htickers
    · exact hin tickers htickers t ht
    · exact h.desired ▸ hin' tickers htickers t ht
  told := h'.told
  kept t ht hrefresh := by
    rcases h.kept t ht hrefresh with hdrop | hrefresh
    · exact .inl (hdrop.of_outbox h'.grows)
    · exact h'.kept t ht hrefresh

/-- Only flags and the refreshed markets change, and those stay. -/
theorem Advances.of_same (h : Told followed c) (hp : c'.phase = c.phase)
    (hk : c'.socket = c.socket) (hd : c'.desired = c.desired) (hr : c'.refresh = c.refresh)
    (ho : c'.outbox = c.outbox) (hs : c'.sent = c.sent) : Advances followed c c' where
  phase := hp
  socket := hk
  desired := hd
  refresh := by rw [hr]
  outbox := ⟨[], by rw [ho, List.append_nil], nofun⟩
  told := by
    refine ⟨fun tickers hlast => ?_, fun t ht => ?_⟩
    · rw [hs]
      exact h.last tickers (ho ▸ hlast)
    · rw [Dropping, ho, hs]
      exact h.known t ht
  kept t _ ht := .inr (hr ▸ ht)

theorem flushed_sublist (c : LiveClient) : c.flushed.Sublist c.desired := by
  rw [LiveClient.flushed]
  split
  · exact List.Sublist.refl _
  · exact List.filter_sublist

/-- A market to be refreshed is not in what is flushed. -/
theorem notMem_flushed {t : Ticker} (h : t ∈ c.refresh) : t ∉ c.flushed := by
  rw [LiveClient.flushed, if_neg (Finset.ne_empty_of_mem h), List.mem_filter]
  simp [h]

/-- A flush that is not suppressed, of what may be sent, is sent; one that is
suppressed drops nothing that is followed. -/
theorem flushOnce_advances (h : Told followed c) (hlive : c.phase = .live)
    (hsocket : c.socket = true) (hsend : c.refresh ≠ ∅ → Sendable c.desired) :
    Advances followed c (c.flushOnce now).1 ∧ (c.flushOnce now).1.refresh = ∅ := by
  have hguard : ¬ (c.phase ≠ .live ∨ c.socket = false) := by simp [hlive, hsocket]
  have hcleared : ∀ c' : LiveClient, c'.phase = c.phase → c'.socket = c.socket →
      c'.desired = c.desired → c'.refresh = ∅ → c'.outbox = c.outbox → c'.sent = c.sent →
      (∀ t ∈ followed, t ∈ c.refresh → Dropping c t) → Advances followed c c' := by
    intro c' hp hk hd hr ho hs hdrop
    refine ⟨hp, hk, hd, by rw [hr]; exact Finset.empty_subset _,
      ⟨[], by rw [ho, List.append_nil], nofun⟩, ⟨fun tickers hlast => ?_, fun t ht => ?_⟩,
        fun t ht hrefresh => .inl ?_⟩
    · rw [hs]
      exact h.last tickers (ho ▸ hlast)
    · rw [Dropping, ho, hs]
      exact h.known t ht
    · rw [Dropping, ho]
      exact hdrop t ht hrefresh
  rw [LiveClient.flushOnce, if_neg hguard]
  simp only
  split
  · next hsuppressed =>
      refine ⟨hcleared _ rfl rfl rfl rfl rfl rfl fun t ht hrefresh => ?_, rfl⟩
      rcases h.known t ht with hdrop | ⟨tickers, hs, hin⟩
      · exact hdrop
      · rw [LiveClient.suppressed, hs] at hsuppressed
        simp only [Bool.and_eq_true, beq_iff_eq] at hsuppressed
        exact absurd (hsuppressed.2 ▸ hin) (notMem_flushed hrefresh)
  · split
    · next hlarge =>
        refine ⟨hcleared _ rfl rfl rfl rfl rfl rfl fun t _ hrefresh => ?_, rfl⟩
        have hsmall : Sendable c.flushed :=
          (hsend (Finset.ne_empty_of_mem hrefresh)).sublist (flushed_sublist c)
        rw [Sendable] at hsmall
        omega
    · refine ⟨⟨rfl, rfl, rfl, Finset.empty_subset _,
        ⟨[c.flushed], rfl, fun tickers hin => ?_⟩, ⟨fun tickers hlast => ?_, fun t ht => ?_⟩,
        fun t _ hrefresh => .inl ?_⟩, rfl⟩
      · rw [List.mem_singleton.mp hin]
        exact (flushed_sublist c).subset
      · rw [List.getLast?_concat] at hlast
        exact hlast
      · by_cases hin : t ∈ c.flushed
        · exact .inr ⟨c.flushed, rfl, hin⟩
        · exact .inl ⟨c.flushed, List.mem_append_right _ (List.mem_singleton_self _), hin⟩
      · exact ⟨c.flushed, List.mem_append_right _ (List.mem_singleton_self _),
          notMem_flushed hrefresh⟩

/-- The state after a call that schedules: what is to be refreshed has its
timer. -/
structure Scheduled (followed : List Ticker) (c c' : LiveClient) : Prop where
  advances : Advances followed c c'
  timed : c'.refresh ≠ ∅ → c'.subscribeTimer = true

theorem scheduleWith_scheduled {flush : LiveClient → LiveClient} (h : Told followed c)
    (hlive : c.phase = .live) (hflush : Scheduled followed c (flush c)) :
    Scheduled followed c (c.scheduleWith flush now) := by
  rw [LiveClient.scheduleWith]
  split
  · next hc =>
      have htimer : c.subscribeTimer = true := hc.resolve_left fun hp => hp hlive
      exact ⟨.of_same h rfl rfl rfl rfl rfl rfl, fun _ => htimer⟩
  · split
    · exact hflush
    · exact ⟨.of_same h rfl rfl rfl rfl rfl rfl, fun _ => rfl⟩

theorem flushSubscription_scheduled (h : Told followed c) (hlive : c.phase = .live)
    (hsocket : c.socket = true) (hsend : c.refresh ≠ ∅ → Sendable c.desired) :
    Scheduled followed c (c.flushSubscription now) := by
  have hfirst := @flushOnce_advances followed c now h hlive hsocket hsend
  rw [LiveClient.flushSubscription]
  split
  · next c' heq =>
      rw [heq] at hfirst
      obtain ⟨hadv, hnone⟩ := hfirst
      have hlive' : c'.phase = .live := hadv.phase.trans hlive
      have hsecond := @flushOnce_advances followed c' now hadv.told hlive'
        (hadv.socket.trans hsocket) fun hne => absurd hnone hne
      have hsched := @scheduleWith_scheduled followed c' now (fun c => (c.flushOnce now).1)
        hadv.told hlive' ⟨hsecond.1, fun hne => absurd hsecond.2 hne⟩
      exact ⟨hadv.trans hsched.advances, hsched.timed⟩
  · next c' heq =>
      rw [heq] at hfirst
      exact ⟨hfirst.1, fun hne => absurd hfirst.2 hne⟩

theorem scheduleSubscribe_scheduled (h : Told followed c) (hlive : c.phase = .live)
    (hsocket : c.socket = true) (hsend : c.refresh ≠ ∅ → Sendable c.desired) :
    Scheduled followed c (c.scheduleSubscribe now) :=
  scheduleWith_scheduled h hlive (flushSubscription_scheduled h hlive hsocket hsend)

theorem Told.of_same (h : Told followed c) (ho : c'.outbox = c.outbox) (hs : c'.sent = c.sent) :
    Told followed c' where
  last tickers hlast := by
    rw [hs]
    exact h.last tickers (ho ▸ hlast)
  known t ht := by
    rw [Dropping, ho, hs]
    exact h.known t ht

/-- Once the server has read a subscribe, the client last sent what is still on
its way, or this. -/
theorem Told.answered {tickers : List Ticker} {outbox : List (List Ticker)} {accepted : List Ticker}
    (h : Told followed c) (hout : c.outbox = tickers :: outbox) (hsub : accepted ⊆ tickers) :
    Told accepted { c with outbox } where
  last later hlast := by
    refine h.last later ?_
    rw [hout, List.getLast?_cons]
    have hlast' : outbox.getLast? = some later := hlast
    rw [hlast']
    rfl
  known t ht := by
    cases hlast : outbox.getLast? with
    | none =>
        have hsent : c.sent = some tickers := by
          refine h.last tickers ?_
          rw [hout, List.getLast?_cons, hlast]
          rfl
        exact .inr ⟨tickers, hsent, hsub ht⟩
    | some later =>
        have hsent : c.sent = some later := by
          refine h.last later ?_
          rw [hout, List.getLast?_cons, hlast]
          rfl
        by_cases hin : t ∈ later
        · exact .inr ⟨later, hsent, hin⟩
        · exact .inl ⟨later, List.mem_of_getLast? hlast, hin⟩

/-! ## What is on its way to a store -/

/-- The status a frame leaves a store of `t` with. -/
def FrameDecoding.leaves (frame : FrameDecoding) (t : Ticker) (status : BookStatus) : BookStatus :=
  match frame with
  | .market message => if message.market = t then message.leaves status else status
  | _ => status

theorem FrameDecoding.leaves_of_not_market {frame : FrameDecoding} {t : Ticker}
    {status : BookStatus} (h : ∀ message, frame ≠ .market message) :
    frame.leaves t status = status := by
  cases frame with
  | market message => exact absurd rfl (h message)
  | _ => rfl

/-- The status a store of `t` comes to, once the frames have arrived. -/
def arriving (t : Ticker) (status : BookStatus) (inbox : List FrameDecoding) : BookStatus :=
  inbox.foldl (fun status frame => frame.leaves t status) status

theorem arriving_append (t : Ticker) (status : BookStatus) (inbox more : List FrameDecoding) :
    arriving t status (inbox ++ more) = arriving t (arriving t status inbox) more :=
  List.foldl_append

theorem KnownBookState.status_ne (book : KnownBookState) : book.status ≠ .unknown := by
  cases book <;> decide

/-- The snapshots that answer a subscribe. -/
theorem arriving_snapshots {s : Server} {answer : Answer} {t : Ticker} {book : KnownBookState}
    (hbook : s.held.get? t = some book) {tickers : List Ticker} {status : BookStatus}
    (h : t ∈ tickers ∨ status = book.status) :
    arriving t status (tickers.filterMap (s.snapshot answer)) = book.status := by
  induction tickers generalizing status with
  | nil => exact h.resolve_left List.not_mem_nil
  | cons u tickers ih =>
      cases hheld : s.held.get? u with
      | none =>
          have hnone : s.snapshot answer u = none := by rw [Server.snapshot, hheld]; rfl
          rw [List.filterMap_cons_none hnone]
          refine ih (h.imp (fun ht => ?_) id)
          refine (List.mem_cons.mp ht).resolve_left fun heq => ?_
          rw [heq, hheld] at hbook
          cases hbook
      | some held =>
          have hsome : s.snapshot answer u = some (.market
              (.snapshot u held (answer.levels u).1 (answer.levels u).2)) := by
            rw [Server.snapshot, hheld]
            rfl
          rw [List.filterMap_cons_some hsome]
          show arriving t (FrameDecoding.leaves _ t status) _ = book.status
          refine ih ?_
          by_cases hu : u = t
          · subst hu
            obtain rfl := Option.some.inj (hheld.symm.trans hbook)
            exact .inr (if_pos rfl)
          · refine h.imp (fun ht => ?_) fun hs => ?_
            · exact (List.mem_cons.mp ht).resolve_left fun heq => hu heq.symm
            · exact (if_neg hu).trans hs

/-! ## The invariant of a connection -/

namespace Live

/-- A store of `t` with this status comes to the server's state, or is about
to: the market will be left out of a message, and followed anew. -/
def Recovers (l : Live) (t : Ticker) (status : BookStatus) : Prop :=
  Dropping l.feed.client t ∨ t ∈ l.feed.client.refresh ∨
    ∀ book, l.server.held.get? t = some book → arriving t status l.inbox = book.status

/-- What a connection keeps to while its client is about to schedule. -/
structure Kept (l : Live) : Prop where
  socket : l.feed.client.phase = .live → l.feed.client.socket = true
  before : l.feed.client.phase ≠ .live → l.server.followed = [] ∧ l.feed.client.outbox = []
  stores : ∀ t store, l.feed.router.stores.get? t = some store → store.ticker = t
  desired : l.feed.client.desired = uniqueTickers l.feed.router.tickers
  told : Told l.server.followed l.feed.client
  followed : ∀ t ∈ l.server.followed, t ≠ ""
  outbox : ∀ tickers ∈ l.feed.client.outbox, ∀ t ∈ tickers, t ≠ ""
  sendable : l.feed.client.phase = .live → l.feed.client.refresh ≠ ∅ →
    Sendable l.feed.client.desired
  status : ∀ t store, l.feed.router.stores.get? t = some store → t ∈ l.server.followed →
    l.Recovers t store.status

/-- What every run keeps: `Kept`, and a timer where something is to be
refreshed. -/
structure Sound (l : Live) : Prop extends Kept l where
  timed : l.feed.client.phase = .live → l.feed.client.refresh ≠ ∅ →
    l.feed.client.subscribeTimer = true

/-- What the page may do so that every store recovers. A market is watched
anew only if the server does not follow it, or is about to be told to drop it,
or its snapshot is on its way; and while a book that was found invalid is
refreshed, the subscribe of the watched markets fits a message. -/
def Watches (l : Live) : LiveEvent → Prop
  | .watch t _ =>
      (t ∉ l.feed.router.tickers → t ∈ l.server.followed →
        Dropping l.feed.client t ∨ ∀ book, l.server.held.get? t = some book →
          arriving t .unknown l.inbox = book.status) ∧
      (l.feed.client.refresh ≠ ∅ →
        Sendable (uniqueTickers (l.feed.router.track t).tickers))
  | .deliver _ =>
      ∀ message store, l.inbox.head? = some (.market message) →
        l.feed.router.stores.get? message.market = some store →
        (store.apply message).2 = .bookInvalid → Sendable l.feed.client.desired
  | _ => True

theorem Sound.converged {l : Live} (h : l.Sound) : l.Converged := by
  intro hlive htimer hout hin t store hstore hfollowed book hbook
  rcases h.status t store hstore hfollowed with ⟨tickers, hmem, -⟩ | hrefresh | harrives
  · rw [hout] at hmem
    cases hmem
  · have htimed := h.timed hlive (Finset.ne_empty_of_mem hrefresh)
    rw [htimer] at htimed
    cases htimed
  · have harrived := harrives book hbook
    rwa [hin] at harrived

end Live

end Tape.Page
