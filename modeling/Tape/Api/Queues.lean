import Tape.Api.Hub
import Tape.Run

/-!
# What waits in a session's queue

An offer that fits leaves a queue within its bound. A recovery from lag queues
a resync and perhaps a snapshot for each market followed, and the offer's own
reply before them, without looking at the bound: with the ranges of the
settings, it passes the bound in one case, by one message (`Overfills`).
-/

namespace Tape.Api

namespace ClientSession

variable {s : ClientSession} {snapshot : Ticker → Option ServerMessage} {nowNs : Int}
  {messages : List ServerMessage}

/-- Messages offered to the session make it recover from lag. -/
structure Recovers (s : ClientSession) (nowNs : Int) (messages : List ServerMessage) : Prop where
  opened : s.closeCode = none
  present : s.gone = false
  some : messages ≠ []
  overflows : s.queueMax < s.queue.length + messages.length
  kept : (s.recentLags nowNs).length < lagLimit

theorem close_queue_le (code : Nat) {bound : Nat} (h : s.queue.length ≤ bound) :
    (s.close code).queue.length ≤ bound := by
  rw [close]
  split
  · exact h
  · exact Nat.zero_le bound

@[simp] theorem close_queueMax (code : Nat) : (s.close code).queueMax = s.queueMax := by
  rw [close]
  split <;> rfl

@[simp] theorem close_subscriptions (code : Nat) :
    (s.close code).subscriptions = s.subscriptions := by
  rw [close]
  split <;> rfl

theorem lag_queue (replies : List ServerMessage) (hopen : s.closeCode = none) :
    (s.lag snapshot nowNs replies).queue =
      if (s.recentLags nowNs).length ≥ lagLimit then []
      else replies ++ recovery snapshot s.subscriptions := by
  rw [lag]
  split
  · rw [close, hopen]
  · rfl

@[simp] theorem offer_queueMax (s : ClientSession) (snapshot : Ticker → Option ServerMessage)
    (nowNs : Int) (messages : List ServerMessage) :
    (s.offer snapshot nowNs messages).queueMax = s.queueMax := by
  rw [offer]
  split
  · rfl
  · split
    · rfl
    · rw [lag]
      split
      · exact close_queueMax _
      · rfl

@[simp] theorem offer_subscriptions (s : ClientSession)
    (snapshot : Ticker → Option ServerMessage) (nowNs : Int) (messages : List ServerMessage) :
    (s.offer snapshot nowNs messages).subscriptions = s.subscriptions := by
  rw [offer]
  split
  · rfl
  · split
    · rfl
    · rw [lag]
      split
      · exact close_subscriptions _
      · rfl

/-- An offer keeps the bound, unless it makes the session recover with more. -/
theorem offer_queue_le_iff (hq : s.queue.length ≤ s.queueMax) :
    (s.offer snapshot nowNs messages).queue.length ≤ s.queueMax ↔
      (s.Recovers nowNs messages →
        (messages.filter ServerMessage.isReply).length +
          (recovery snapshot s.subscriptions).length ≤ s.queueMax) := by
  rw [offer]
  split
  · next hclosed =>
      refine iff_of_true hq fun hrecovers => ?_
      rcases hclosed with hcode | hgone | hnone
      · exact absurd hrecovers.opened hcode
      · exact absurd (hgone.symm.trans hrecovers.present) (by decide)
      · exact absurd hnone hrecovers.some
  · next hclosed =>
      push Not at hclosed
      split
      · next hfits =>
          refine iff_of_true ?_ fun hrecovers => absurd hrecovers.overflows (not_lt.mpr hfits)
          rw [List.length_append]
          exact hfits
      · next hover =>
          have hopen : s.closeCode = none := hclosed.1
          rw [lag_queue _ hopen]
          split
          · next hthird =>
              exact iff_of_true (Nat.zero_le _)
                fun hrecovers => absurd hrecovers.kept (not_lt.mpr hthird)
          · next hkept =>
              rw [List.length_append]
              have hpresent : s.gone = false := Bool.eq_false_iff.mpr hclosed.2.1
              exact ⟨fun hle _ => hle, fun himp => himp
                ⟨hopen, hpresent, hclosed.2.2, not_le.mp hover, not_le.mp hkept⟩⟩

/-! ## The length of a recovery -/

theorem recovery_length_le (snapshot : Ticker → Option ServerMessage) (tickers : List Ticker) :
    (recovery snapshot tickers).length ≤ 2 * tickers.length := by
  induction tickers with
  | nil => exact le_refl 0
  | cons t tickers ih =>
      have hone : (snapshot t).toList.length ≤ 1 := by
        cases snapshot t with
        | none => exact Nat.zero_le 1
        | some _ => exact le_refl 1
      rw [recovery, List.flatMap_cons, List.length_append, List.length_cons, List.length_cons]
      rw [recovery] at ih
      omega

/-- A recovery is as long as it can be if every market has a snapshot. -/
theorem recovery_length_eq_iff (snapshot : Ticker → Option ServerMessage)
    (tickers : List Ticker) :
    (recovery snapshot tickers).length = 2 * tickers.length ↔
      ∀ t ∈ tickers, (snapshot t).isSome := by
  induction tickers with
  | nil => exact iff_of_true rfl nofun
  | cons t tickers ih =>
      have hle := recovery_length_le snapshot tickers
      rw [recovery] at ih hle
      rw [recovery, List.flatMap_cons, List.length_append, List.length_cons, List.length_cons,
        List.forall_mem_cons]
      cases hs : snapshot t with
      | none =>
          refine iff_of_false ?_ fun hall => absurd hall.1 (by decide)
          show 0 + 1 + _ ≠ _
          omega
      | some m =>
          rw [← ih]
          show 1 + 1 + _ = _ ↔ _
          constructor
          · intro heq
            exact ⟨rfl, by omega⟩
          · intro ⟨_, heq⟩
            omega

/-- An offer without a reply keeps the bound. -/
theorem offer_queue_le (hroom : 100 ≤ s.queueMax) (hsubs : s.subscriptions.length ≤ 50)
    (hq : s.queue.length ≤ s.queueMax) (hreplies : ∀ m ∈ messages, m.isReply = false) :
    (s.offer snapshot nowNs messages).queue.length ≤ s.queueMax := by
  rw [offer_queue_le_iff hq]
  intro _
  have hnone : messages.filter ServerMessage.isReply = [] := by
    rw [List.filter_eq_nil_iff]
    intro m hm
    rw [hreplies m hm]
    exact Bool.false_ne_true
  have hle := recovery_length_le snapshot s.subscriptions
  rw [hnone, List.length_nil]
  omega

/-- An offer with one reply keeps the bound, unless the session recovers with
the reply and all that 50 markets can take, and has room for 100 messages. -/
theorem offer_reply_le_iff (hroom : 100 ≤ s.queueMax) (hsubs : s.subscriptions.length ≤ 50)
    (hq : s.queue.length ≤ s.queueMax)
    (hreply : (messages.filter ServerMessage.isReply).length = 1) :
    (s.offer snapshot nowNs messages).queue.length ≤ s.queueMax ↔
      ¬ (s.Recovers nowNs messages ∧ s.queueMax = 100 ∧ s.subscriptions.length = 50 ∧
        ∀ t ∈ s.subscriptions, (snapshot t).isSome) := by
  rw [offer_queue_le_iff hq, hreply, ← recovery_length_eq_iff]
  have hle := recovery_length_le snapshot s.subscriptions
  constructor
  · rintro himp ⟨hrecovers, hmax, hlength, hall⟩
    have hfits := himp hrecovers
    omega
  · intro hnot hrecovers
    by_contra hover
    exact hnot ⟨hrecovers, by omega, by omega, by omega⟩

end ClientSession

/-! ## What the hub offers -/

theorem sortOut_length {entries : Dict Ticker CatalogEntry} {maxTickers : Nat}
    {tickers accepted : List Ticker} {rejected : List Rejection}
    (h : accepted.length ≤ maxTickers) :
    (sortOut entries maxTickers tickers accepted rejected).1.length ≤ maxTickers := by
  induction tickers generalizing accepted rejected with
  | nil => exact h
  | cons ticker rest ih =>
      rw [sortOut]
      split
      · exact ih h
      · split
        · exact ih h
        · next hroom =>
            refine ih ?_
            rw [List.length_append, List.length_singleton]
            omega

namespace LiveHub

theorem accepts_length (h : LiveHub) (tickers : List Ticker) :
    (h.accepts tickers).length ≤ h.config.maxTickers := sortOut_length (Nat.zero_le _)

theorem snapshot_isSome (h : LiveHub) (t : Ticker) :
    (h.snapshot t).isSome = (h.live.books.get? t).isSome := by
  rw [snapshot, Option.isSome_map]

theorem snapshot_not_reply {h : LiveHub} {t : Ticker} {m : ServerMessage}
    (hm : h.snapshot t = some m) : m.isReply = false := by
  obtain ⟨book, -, rfl⟩ := Option.map_eq_some_iff.mp hm
  rfl

/-- One reply, and then snapshots. -/
theorem subscribeMessages_replies (h : LiveHub) (id : SessionId) (tickers : List Ticker) :
    ((h.subscribeMessages id tickers).filter ServerMessage.isReply).length = 1 := by
  rw [subscribeMessages, List.filter_cons_of_pos rfl]
  have hnone : ∀ l : List Ticker, (l.filterMap fun ticker =>
      if ticker ∈ (h.session id).subscriptions then none else h.snapshot ticker).filter
        ServerMessage.isReply = [] := by
    intro l
    rw [List.filter_eq_nil_iff]
    intro m hm
    obtain ⟨t, -, hsome⟩ := List.mem_filterMap.mp hm
    split at hsome
    · cases hsome
    · rw [snapshot_not_reply hsome]
      exact Bool.false_ne_true
  rw [hnone]
  rfl

/-- No message of an outbox is a reply. -/
def Unprompted (outbox : Outbox) : Prop :=
  ∀ id messages, outbox.get? id = some messages → ∀ m ∈ messages, m.isReply = false

theorem unprompted_send (h : LiveHub) {outbox : Outbox} (ho : Unprompted outbox)
    {m : ServerMessage} (hm : m.isReply = false) (t : Ticker) :
    Unprompted (h.send outbox t m) := by
  have hkeys : ∀ (keys : List SessionId) (outbox : Outbox), Unprompted outbox →
      Unprompted (keys.foldl (fun outbox id => outbox.set id (outbox.getD id [] ++ [m]))
        outbox) := by
    intro keys
    induction keys with
    | nil => exact fun _ ho => ho
    | cons key keys ih =>
        intro outbox ho
        refine ih _ fun id messages hget => ?_
        rw [Dict.get?_set] at hget
        split at hget
        · obtain rfl := Option.some.inj hget
          intro m' hm'
          rcases List.mem_append.mp hm' with hin | hlast
          · rw [Dict.getD] at hin
            cases hold : outbox.get? key with
            | none => rw [hold] at hin; cases hin
            | some before =>
                rw [hold] at hin
                exact ho key before hold m' hin
          · rw [List.mem_singleton.mp hlast]
            exact hm
        · exact ho id messages hget
  exact hkeys _ outbox ho

theorem announcement_not_reply {h : LiveHub} {change : StatusChange} {m : ServerMessage}
    (hm : h.announcement change = some m) : m.isReply = false := by
  rw [announcement] at hm
  split at hm
  · cases hm
    rfl
  · split at hm
    · exact snapshot_not_reply hm
    · cases hm
      rfl

theorem unprompted_announce (h : LiveHub) (changes : List StatusChange) {outbox : Outbox}
    (ho : Unprompted outbox) (snapshotted : List Ticker) :
    Unprompted (h.announce changes outbox snapshotted).1 := by
  induction changes generalizing outbox snapshotted with
  | nil => exact ho
  | cons change rest ih =>
      rw [announce]
      split
      · exact ih ho snapshotted
      · dsimp only
        split
        · exact ih ho _
        · next m hm => exact ih (h.unprompted_send ho (announcement_not_reply hm) _) _

theorem eventMessage_not_reply {h : LiveHub} {applied : Bool} {snapshotted : List Ticker}
    {event : BusEvent} {t : Ticker} {m : ServerMessage}
    (hm : h.eventMessage applied snapshotted event = some (t, m)) : m.isReply = false := by
  cases event with
  | other e =>
      rw [eventMessage] at hm
      split at hm
      · split at hm
        · cases hm
          rfl
        · cases hm
          rfl
        · cases hm
      · cases hm
  | book e =>
      rw [eventMessage] at hm
      split at hm
      · obtain ⟨m', hbook, heq⟩ := Option.map_eq_some_iff.mp hm
        obtain ⟨-, rfl⟩ := Prod.mk.inj heq
        cases e with
        | delta e =>
            cases hbook
            rfl
        | snapshot e =>
            rw [bookMessage] at hbook
            split at hbook
            · cases hbook
            · exact snapshot_not_reply hbook
      · cases hm
  | refresh e => cases hm
  | gap e => cases hm
  | catalog e => cases hm
  | status => cases hm

theorem unprompted_outbox (h : LiveHub) (observation : Observation) (event : BusEvent) :
    Unprompted (h.outbox observation event) := by
  have hempty : Unprompted ∅ := fun _ _ hget => by cases hget
  have hfirst := h.unprompted_announce observation.changes hempty []
  rw [outbox]
  rcases hannounced : h.announce observation.changes ∅ [] with ⟨announced, snapshotted⟩
  rw [hannounced] at hfirst
  dsimp only
  split
  · exact hfirst
  · next t m hm => exact h.unprompted_send hfirst (eventMessage_not_reply hm) t

/-! ## Every run -/

/-- No queue is longer than its bound. -/
def Bounded (h : LiveHub) : Prop :=
  ∀ id, (h.session id).queue.length ≤ h.config.clientQueueMax

/-- A recovery of a session that follows these markets is as long as it can
be: 50 markets, all of whose books the hub holds, and a queue of 100. -/
def Full (h : LiveHub) (tickers : List Ticker) : Prop :=
  h.config.clientQueueMax = 100 ∧ tickers.length = 50 ∧
    ∀ t ∈ tickers, (h.live.books.get? t).isSome

/-- The act answers a client with a reply that makes its session recover, as
full as it can be. -/
def Overfills (h : LiveHub) : HubAct → Prop
  | .subscribe id tickers nowNs =>
      id < h.opened ∧ (h.session id).Recovers nowNs (h.subscribeMessages id tickers) ∧
        h.Full (h.accepts tickers)
  | .handle id size nowNs frame =>
      id < h.opened ∧ ((h.session id).withinLimits size nowNs).2 = true ∧
        match frame with
        | .subscribe tickers =>
            (h.session id).Recovers nowNs (h.subscribeMessages id tickers) ∧
              h.Full (h.accepts tickers)
        | frame =>
            (h.session id).Recovers nowNs frame.complaint.toList ∧
              h.Full (h.session id).subscriptions
  | _ => False

/-- What the settings say of the hub and its sessions. -/
structure Limited (settings : ServeSettings) (h : LiveHub) : Prop where
  config : h.config = serveConfig settings
  queueMax : ∀ id, (h.session id).queueMax = settings.clientQueueMax
  subscriptions : ∀ id, (h.session id).subscriptions.length ≤ settings.maxTickersPerClient

theorem limited_new (settings : ServeSettings) : Limited settings (new (serveConfig settings)) where
  config := rfl
  queueMax _ := rfl
  subscriptions _ := Nat.zero_le _

variable {settings : ServeSettings} {h h' : LiveHub}

/-- Nothing a limit is about has changed. -/
theorem Limited.of_same (hl : Limited settings h) (hc : h'.config = h.config)
    (hs : ∀ id, (h'.session id).queueMax = (h.session id).queueMax ∧
      ((h'.session id).subscriptions = (h.session id).subscriptions ∨
        (h'.session id).subscriptions.length ≤ settings.maxTickersPerClient)) :
    Limited settings h' where
  config := hc.trans hl.config
  queueMax id := (hs id).1.trans (hl.queueMax id)
  subscriptions id := by
    rcases (hs id).2 with heq | hle
    · rw [heq]
      exact hl.subscriptions id
    · exact hle

theorem Limited.offer (hl : Limited settings h) (id : SessionId) (nowNs : Int)
    (messages : List ServerMessage) : Limited settings (h.offer id nowNs messages) := by
  refine hl.of_same rfl fun j => ?_
  rw [offer_session]
  split
  · next hj =>
      subst hj
      exact ⟨ClientSession.offer_queueMax _ _ _ _,
        .inl (ClientSession.offer_subscriptions _ _ _ _)⟩
  · exact ⟨rfl, .inl rfl⟩

theorem Limited.setSession (hl : Limited settings h) {id : SessionId} {s : ClientSession}
    (hmax : s.queueMax = (h.session id).queueMax)
    (hsubs : s.subscriptions = (h.session id).subscriptions ∨
      s.subscriptions.length ≤ settings.maxTickersPerClient) :
    Limited settings (h.setSession id s) := by
  refine hl.of_same rfl fun j => ?_
  rw [setSession_session]
  split
  · next hj =>
      subst hj
      exact ⟨hmax, hsubs⟩
  · exact ⟨rfl, .inl rfl⟩

theorem Limited.resubscribe (hl : Limited settings h) (id : SessionId) (tickers : List Ticker) :
    Limited settings (h.resubscribe id (h.accepts tickers)) := by
  refine hl.of_same rfl fun j => ?_
  rw [LiveHub.resubscribe, setSession_session]
  split
  · next hj =>
      subst hj
      have hle := h.accepts_length tickers
      rw [hl.config] at hle
      exact ⟨rfl, .inr hle⟩
  · exact ⟨rfl, .inl rfl⟩

/-- Counting a client message against the limits leaves its session's
subscriptions alone, and within the limits also its queue. -/
theorem withinLimits_spec (s : ClientSession) (size : Nat) (nowNs : Int) :
    (s.withinLimits size nowNs).1.queueMax = s.queueMax ∧
      (s.withinLimits size nowNs).1.subscriptions = s.subscriptions ∧
      ((s.withinLimits size nowNs).2 = true →
        ∃ receivedNs, (s.withinLimits size nowNs).1 = { s with receivedNs }) ∧
      ((s.withinLimits size nowNs).2 = false →
        ∃ receivedNs, (s.withinLimits size nowNs).1 =
          ClientSession.close { s with receivedNs } closePolicyViolation) := by
  rw [ClientSession.withinLimits]
  dsimp only
  split
  · refine ⟨ClientSession.close_queueMax _, ClientSession.close_subscriptions _, ?_,
      fun _ => ⟨_, rfl⟩⟩
    intro hyes
    cases hyes
  · refine ⟨rfl, rfl, fun _ => ⟨_, rfl⟩, ?_⟩
    intro hno
    cases hno

theorem Limited.step (hl : Limited settings h) (act : HubAct) : Limited settings (h.step act) := by
  rw [LiveHub.step.eq_def]
  split
  · exact hl
  · cases act with
    | admitSession nowNs =>
        show Limited settings (h.admitSession nowNs)
        rw [admitSession]
        split
        · exact hl
        · have hadmitted : Limited settings { h with
              sessions := h.sessions.set h.opened (), opened := h.opened + 1 } :=
            hl.of_same rfl fun _ => ⟨rfl, .inl rfl⟩
          exact hadmitted.offer _ _ _
    | detach id => exact hl.of_same rfl fun _ => ⟨rfl, .inl rfl⟩
    | closeSessions code =>
        obtain ⟨hc, -, -, -, -, hs⟩ := h.closeSessions_spec code
        refine hl.of_same hc fun id => ?_
        rw [hs id]
        split
        · exact ⟨ClientSession.close_queueMax _, .inl (ClientSession.close_subscriptions _)⟩
        · exact ⟨rfl, .inl rfl⟩
    | subscribe id tickers nowNs => exact (hl.resubscribe id tickers).offer _ _ _
    | handle id size nowNs frame =>
        show Limited settings (h.handle id size nowNs frame)
        obtain ⟨hmax, hsubs, -, -⟩ := withinLimits_spec (h.session id) size nowNs
        rw [LiveHub.handle.eq_def]
        have hcounted : Limited settings
            (h.setSession id ((h.session id).withinLimits size nowNs).1) :=
          hl.setSession hmax (.inl hsubs)
        dsimp only
        split
        · exact hcounted
        · split
          · exact (hcounted.resubscribe id _).offer _ _ _
          · exact hcounted.offer _ _ _
    | take id => exact hl.setSession rfl (.inl rfl)
    | lose id => exact hl.setSession rfl (.inl rfl)
    | receive message nowNs =>
        show Limited settings (h.receive nowNs message)
        cases message with
        | none => exact hl.of_same rfl fun _ => ⟨rfl, .inl rfl⟩
        | some envelope =>
            have hspec := (h.observed envelope).offerAll_spec nowNs
              ((h.observed envelope).outbox (h.live.observe envelope).2 envelope.event)
            refine hl.of_same (hspec.config.trans (updateDirectory_config _ _)) fun id => ?_
            have hsame : (h.observed envelope).session = h.session := updateDirectory_session _ _
            have hsession := hspec.session id
            rw [hsame] at hsession
            rw [LiveHub.receive, fanOut, hsession]
            split
            · exact ⟨rfl, .inl rfl⟩
            · exact ⟨ClientSession.offer_queueMax _ _ _ _,
                .inl (ClientSession.offer_subscriptions _ _ _ _)⟩

theorem Bounded.of_queue (hb : Bounded h) (hc : h'.config = h.config)
    (hq : ∀ id, (h'.session id).queue.length ≤ (h.session id).queue.length) : Bounded h' := by
  intro id
  rw [hc]
  exact (hq id).trans (hb id)

theorem Limited.queueMax_eq (hl : Limited settings h) (id : SessionId) :
    (h.session id).queueMax = h.config.clientQueueMax := by
  rw [hl.queueMax, hl.config]
  rfl

/-- Only the session offered something may pass its bound. -/
theorem bounded_offer_iff (hl : Limited settings h) (hb : Bounded h) (id : SessionId) (nowNs : Int)
    (messages : List ServerMessage) :
    (h.offer id nowNs messages).Bounded ↔
      ((h.session id).offer h.snapshot nowNs messages).queue.length ≤ (h.session id).queueMax := by
  rw [hl.queueMax_eq id]
  constructor
  · intro hbounded
    have hself := hbounded id
    rw [offer_session, if_pos rfl] at hself
    exact hself
  · intro hle j
    rw [offer_session]
    split
    · exact hle
    · exact hb j

theorem Limited.room (hl : Limited settings h) (id : SessionId) :
    100 ≤ (h.session id).queueMax := by
  rw [hl.queueMax]
  exact settings.queue.1

theorem Limited.few (hl : Limited settings h) (id : SessionId) :
    (h.session id).subscriptions.length ≤ 50 :=
  (hl.subscriptions id).trans settings.tickers.2

theorem Bounded.le_queueMax (hb : Bounded h) (hl : Limited settings h) (id : SessionId) :
    (h.session id).queue.length ≤ (h.session id).queueMax := by
  rw [hl.queueMax_eq]
  exact hb id

/-- A reply keeps the bound, unless it makes the session recover as full as it
can be. -/
theorem bounded_reply_iff (hl : Limited settings h) (hb : Bounded h) (id : SessionId) (nowNs : Int)
    {messages : List ServerMessage}
    (hreply : (messages.filter ServerMessage.isReply).length = 1) :
    (h.offer id nowNs messages).Bounded ↔
      ¬ ((h.session id).Recovers nowNs messages ∧ h.Full (h.session id).subscriptions) := by
  rw [bounded_offer_iff hl hb,
    ClientSession.offer_reply_le_iff (hl.room id) (hl.few id) (hb.le_queueMax hl id) hreply]
  simp only [snapshot_isSome, hl.queueMax_eq id, Full]

theorem bounded_subscribe_iff (hl : Limited settings h) (hb : Bounded h) (id : SessionId)
    (tickers : List Ticker) (nowNs : Int) :
    (h.subscribe id tickers nowNs).Bounded ↔
      ¬ ((h.session id).Recovers nowNs (h.subscribeMessages id tickers) ∧
        h.Full (h.accepts tickers)) := by
  have hb' : (h.resubscribe id (h.accepts tickers)).Bounded := hb.of_queue rfl fun j => by
    rw [resubscribe, setSession_session]
    split
    · next hj => rw [hj]; rfl
    · exact le_refl _
  have hsession : (h.resubscribe id (h.accepts tickers)).session id =
      (h.session id).replaceSubscriptions (h.accepts tickers) := by
    rw [resubscribe, setSession_session, if_pos rfl]
  rw [LiveHub.subscribe, bounded_reply_iff (hl.resubscribe id tickers) hb' id nowNs
    (h.subscribeMessages_replies id tickers), hsession]
  refine not_congr (and_congr ?_ Iff.rfl)
  constructor
  · intro ⟨hopen, hpresent, hsome, hover, hkept⟩
    exact ⟨hopen, hpresent, hsome, hover, hkept⟩
  · intro ⟨hopen, hpresent, hsome, hover, hkept⟩
    exact ⟨hopen, hpresent, hsome, hover, hkept⟩

/-- Neither the subscriptions nor the count of messages decide on a recovery. -/
theorem recovers_with (s : ClientSession) (subscriptions : List Ticker) (receivedNs : List Int)
    (nowNs : Int) (messages : List ServerMessage) :
    ClientSession.Recovers { s with subscriptions, receivedNs } nowNs messages ↔
      s.Recovers nowNs messages := by
  constructor
  · intro ⟨hopen, hpresent, hsome, hover, hkept⟩
    exact ⟨hopen, hpresent, hsome, hover, hkept⟩
  · intro ⟨hopen, hpresent, hsome, hover, hkept⟩
    exact ⟨hopen, hpresent, hsome, hover, hkept⟩

theorem bounded_handle_iff (hl : Limited settings h) (hb : Bounded h) (id : SessionId)
    (size : Nat) (nowNs : Int) (frame : ClientFrame) :
    (h.handle id size nowNs frame).Bounded ↔
      ¬ (((h.session id).withinLimits size nowNs).2 = true ∧
        match frame with
        | .subscribe tickers =>
            (h.session id).Recovers nowNs (h.subscribeMessages id tickers) ∧
              h.Full (h.accepts tickers)
        | frame =>
            (h.session id).Recovers nowNs frame.complaint.toList ∧
              h.Full (h.session id).subscriptions) := by
  obtain ⟨hmax, hsubs, hin, hout⟩ := withinLimits_spec (h.session id) size nowNs
  rw [LiveHub.handle.eq_def]
  rcases hlimits : (h.session id).withinLimits size nowNs with ⟨s, within⟩
  rw [hlimits] at hmax hsubs hin hout
  dsimp only at hmax hsubs hin hout ⊢
  have hcounted : Limited settings (h.setSession id s) := hl.setSession hmax (.inl hsubs)
  have hqueue : s.queue.length ≤ (h.session id).queue.length := by
    cases within with
    | true =>
        obtain ⟨receivedNs, rfl⟩ := hin rfl
        exact le_refl _
    | false =>
        obtain ⟨receivedNs, rfl⟩ := hout rfl
        exact ClientSession.close_queue_le _ (le_refl _)
  have hfits : (h.setSession id s).Bounded := hb.of_queue rfl fun j => by
    rw [setSession_session]
    split
    · next hj => rw [hj]; exact hqueue
    · exact le_refl _
  cases within with
  | false =>
      rw [if_pos Bool.false_ne_true]
      exact iff_of_true hfits fun hboth => absurd hboth.1 Bool.false_ne_true
  | true =>
      obtain ⟨receivedNs, rfl⟩ := hin rfl
      rw [if_neg (not_not.mpr rfl)]
      have hself : (h.setSession id { h.session id with receivedNs }).session id =
          { h.session id with receivedNs } := by rw [setSession_session, if_pos rfl]
      have hreply : ∀ m : ServerMessage, m.isReply = true →
          (((h.setSession id { h.session id with receivedNs }).offer id nowNs [m]).Bounded ↔
            ¬ (true = true ∧ (h.session id).Recovers nowNs [m] ∧
              h.Full (h.session id).subscriptions)) := by
        intro m hm
        have hone : ([m].filter ServerMessage.isReply).length = 1 := by
          rw [List.filter_cons_of_pos hm]
          rfl
        rw [bounded_reply_iff hcounted hfits id nowNs hone, hself,
          recovers_with (h.session id) (h.session id).subscriptions receivedNs, and_iff_right rfl]
        rfl
      cases frame with
      | subscribe tickers =>
          have hmessages : (h.setSession id { h.session id with receivedNs }).subscribeMessages id
              tickers = h.subscribeMessages id tickers := by
            rw [subscribeMessages, hself]
            rfl
          rw [bounded_subscribe_iff hcounted hfits, hself, hmessages,
            recovers_with (h.session id) (h.session id).subscriptions receivedNs,
            and_iff_right rfl]
          rfl
      | malformed text => exact hreply _ rfl
      | invalid text => exact hreply _ rfl
      | unknownOp opRepr => exact hreply _ rfl

theorem bounded_step_iff (hl : Limited settings h) (hb : Bounded h) (act : HubAct) :
    (h.step act).Bounded ↔ ¬ h.Overfills act := by
  rw [LiveHub.step.eq_def]
  split
  · next hunknown =>
      -- a session that was never admitted
      refine iff_of_true hb fun hover => ?_
      cases act with
      | subscribe id tickers nowNs => exact absurd hover.1 (by simpa [HubAct.caller] using hunknown)
      | handle id size nowNs frame => exact absurd hover.1 (by simpa [HubAct.caller] using hunknown)
      | _ => exact hover
  · next hknown =>
      cases act with
      | admitSession nowNs =>
          refine iff_of_true ?_ not_false
          show (h.admitSession nowNs).Bounded
          rw [admitSession]
          split
          · exact hb
          · have hadmitted : Limited settings { h with
                sessions := h.sessions.set h.opened (), opened := h.opened + 1 } :=
              hl.of_same rfl fun _ => ⟨rfl, .inl rfl⟩
            refine (bounded_offer_iff hadmitted hb _ _ _).mpr ?_
            refine ClientSession.offer_queue_le (hl.room _) (hl.few _) (hb.le_queueMax hl _) ?_
            intro m hm
            rw [List.mem_singleton.mp hm]
            rfl
      | detach id => exact iff_of_true (hb.of_queue rfl fun _ => le_refl _) not_false
      | closeSessions code =>
          refine iff_of_true ?_ not_false
          obtain ⟨hc, -, -, -, -, hs⟩ := h.closeSessions_spec code
          refine hb.of_queue hc fun id => ?_
          rw [hs id]
          split
          · exact ClientSession.close_queue_le _ (le_refl _)
          · exact le_refl _
      | subscribe id tickers nowNs =>
          have hid : id < h.opened := by simpa [HubAct.caller] using hknown
          refine (bounded_subscribe_iff hl hb id tickers nowNs).trans (not_congr ?_)
          exact (and_iff_right hid).symm
      | handle id size nowNs frame =>
          have hid : id < h.opened := by simpa [HubAct.caller] using hknown
          refine (bounded_handle_iff hl hb id size nowNs frame).trans (not_congr ?_)
          exact (and_iff_right hid).symm
      | take id =>
          refine iff_of_true (hb.of_queue rfl fun j => ?_) not_false
          rw [setSession_session]
          split
          · next hj =>
              subst hj
              exact (List.length_tail ▸ Nat.sub_le _ _)
          · exact le_refl _
      | lose id =>
          refine iff_of_true (hb.of_queue rfl fun j => ?_) not_false
          rw [setSession_session]
          split
          · next hj =>
              subst hj
              exact le_refl _
          · exact le_refl _
      | receive message nowNs =>
          refine iff_of_true ?_ not_false
          cases message with
          | none => exact hb
          | some envelope =>
              have hspec := (h.observed envelope).offerAll_spec nowNs
                ((h.observed envelope).outbox (h.live.observe envelope).2 envelope.event)
              have hunprompted := (h.observed envelope).unprompted_outbox
                (h.live.observe envelope).2 envelope.event
              have hsame : (h.observed envelope).session = h.session :=
                updateDirectory_session _ _
              have hconfig : (h.observed envelope).config = h.config :=
                updateDirectory_config _ _
              intro id
              show ((LiveHub.fanOut _ _ _ _).session id).queue.length ≤
                (LiveHub.fanOut _ _ _ _).config.clientQueueMax
              rw [fanOut, hspec.config, hspec.session id, hsame, hconfig]
              split
              · exact hb id
              · next messages hmessages =>
                  rw [← hl.queueMax_eq id]
                  exact ClientSession.offer_queue_le (hl.room id) (hl.few id)
                    (hb.le_queueMax hl id) (hunprompted id messages hmessages)

/-- In every run, no queue is longer than its bound in any state exactly when
no reply makes a session recover as full as it can be. -/
theorem queues_bounded_iff (settings : ServeSettings) (acts : List HubAct) :
    Run.Throughout step Bounded (new (serveConfig settings)) acts ↔
      Run.Along step (fun h act => ¬ h.Overfills act) (new (serveConfig settings)) acts :=
  Run.throughout_iff_along (I := Limited settings) (L := fun _ _ => True)
    (fun _ act hl _ => hl.step act) (fun _ act hl hb _ => bounded_step_iff hl hb act)
    (limited_new settings) (fun _ => Nat.zero_le _) (Run.along_true _ acts)

/-- The most markets and the shortest queue of the ranges. -/
def tightest : ServeSettings where
  maxClients := 1
  maxTickersPerClient := 50
  clientQueueMax := 100
  busRefreshS := 5
  clients := by decide
  tickers := by decide
  queue := by decide
  refresh := by decide

/-- The most markets one session may hold here. -/
def fiftyTickers : List Ticker := (List.range 50).map fun n => s!"M{n}"

/-- A catalog of 50 markets and an image of each of their books. -/
def fiftyBooks : List HubAct :=
  .receive (some ⟨1, 1, .catalog ⟨fiftyTickers.map CatalogEntry.mk⟩⟩) (fun _ => 0) ::
    (fiftyTickers.zipIdx 2).map fun e =>
      .receive (some ⟨1, e.2, .refresh ⟨e.1, none, ⟨0, 0, 0⟩, false, [], []⟩⟩) fun _ => 0

/-- A viewer subscribes to all of them, to none, and to all of them again,
while nothing is sent. -/
def changesItsMind : List HubAct :=
  fiftyBooks ++ [.admitSession 0, .subscribe 0 fiftyTickers 0, .subscribe 0 [] 0,
    .subscribe 0 fiftyTickers 0]

set_option maxRecDepth 20000 in
theorem recovery_passes_bound :
    ¬ Run.Throughout step Bounded (new (serveConfig tightest)) changesItsMind := by
  intro h
  have hlast := h.last 0
  have hover : 100 < ((Run.final step (new (serveConfig tightest)) changesItsMind).session
      0).queue.length := by decide +kernel
  exact absurd hover (not_lt.mpr hlast)

end LiveHub

end Tape.Api
