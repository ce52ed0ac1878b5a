import Tape.Page.Flushes

/-!
# What the client wants is what it has told

Every call of the client changes what is wanted and then schedules a flush, or
flushes, or leaves all that is noted alone. So `Noted` is kept all along: the
client's own memory of what it sent is what was sent, a refresh waits only
behind a timer, and every request is owed or was answered in part. With that a
connection is settled unless a flush was suppressed although it had markets to
refresh, which only the timer's flush can be.
-/

namespace Tape.Page

variable {c c' : LiveClient} {now : Int}

namespace ClientRun

variable {r : ClientRun}

/-! ## Every call -/

theorem unsuppressed_of_none {event : ClientEvent} (h : r.flushes event = none) :
    r.Unsuppressed event := by
  intro c hc
  rw [h] at hc
  cases hc

/-- What a call is proved to do: it keeps the notes, and from a settled state it
ends in one exactly if no flush of it is suppressed. -/
structure Sound (r r' : ClientRun) (event : ClientEvent) : Prop where
  noted : r'.Noted
  settled : r.Settled → (r'.Settled ↔ r.Unsuppressed event)

theorem Sound.of_settled {r' : ClientRun} {event : ClientEvent} (hn : r'.Noted)
    (hs : r.Settled → r'.Settled) (h : r.flushes event = none) : Sound r r' event :=
  ⟨hn, fun hr => iff_of_true (hs hr) (unsuppressed_of_none h)⟩

theorem Sound.of_rests {r' : ClientRun} {event : ClientEvent} {p : Prop} (h : Rests r' p)
    (hreconnect : r'.reconnectTimer = false)
    (hp : r.Settled → (p ↔ r.Unsuppressed event)) : Sound r r' event :=
  ⟨h.noted hreconnect, fun hr => h.settled_iff.trans (hp hr)⟩

/-- The notes of a client that is not live. -/
theorem noted_of_not_live (hphase : r.client.phase ≠ .live) (hout : r.client.outbox = [])
    (hrefresh : ∀ t ∈ r.client.refresh, t ∈ r.client.desired) (hp : r.Paced)
    (hfresh : r.client.phase = .connecting ∨ r.client.phase = .handshaking →
      r.log = [] ∧ r.requests = [])
    (htimer : r.client.subscribeTimer = false)
    (hreconnect : r.reconnectTimer = true → r.client.phase = .waiting) : r.Noted where
  delivered := hout
  refresh := hrefresh
  connection hlive := absurd hlive hphase
  paced := hp
  fresh := hfresh
  timer htrue := by
    rw [htimer] at htrue
    cases htrue
  timed hlive := absurd hlive hphase
  reconnect := hreconnect

theorem Noted.noTimer (hn : r.Noted) (hphase : r.client.phase ≠ .live) :
    r.client.subscribeTimer = false :=
  Bool.eq_false_iff.mpr fun htrue => hphase (hn.timer htrue).1

theorem Noted.noReconnect (hn : r.Noted) (hlive : r.client.phase = .live) :
    r.reconnectTimer = false := by
  refine Bool.eq_false_iff.mpr fun htrue => ?_
  have hwaiting := hn.reconnect htrue
  rw [hlive] at hwaiting
  cases hwaiting

theorem goOn_self (hout : r.client.outbox = []) : r.goOn now r.client = r := by
  have hclient : { r.client with outbox := [] } = r.client := by rw [← hout]
  rw [goOn, hout, hclient, List.map_nil, List.append_nil]

theorem flushes_of_not_live {event : ClientEvent} (hphase : r.client.phase ≠ .live) :
    r.flushes event = none := by
  rw [flushes, if_pos hphase]

theorem scheduleSubscribe_of_not_live (hphase : c.phase ≠ .live) :
    c.scheduleSubscribe now = c := by
  rw [LiveClient.scheduleSubscribe, LiveClient.scheduleWith, if_pos (.inl hphase)]

theorem sound_connect (hn : r.Noted) (hphase : r.client.phase ≠ .live) (created : Bool)
    (event : ClientEvent) : Sound r (r.connect created) event := by
  have hp : (r.connect created).Paced := ⟨.nil, nofun⟩
  have hother : (r.connect created).client.phase ≠ .live := by
    cases created <;> exact nofun
  refine .of_settled (noted_of_not_live hother ?_ ?_ hp (fun _ => ⟨rfl, rfl⟩) ?_ ?_)
    (fun _ => hp.settled hother) (flushes_of_not_live hphase)
  · cases created <;> exact hn.delivered
  · cases created <;> exact hn.refresh
  · cases created
    · rfl
    · exact hn.noTimer hphase
  · cases created
    · exact fun _ => rfl
    · exact nofun

theorem sound_close (hn : r.Noted) {event : ClientEvent} (hnone : r.flushes event = none) :
    Sound r r.close event := by
  have hother : r.close.client.phase ≠ .live := nofun
  have hp : r.close.Paced := ⟨hn.paced.spaced, hn.paced.bounded⟩
  refine .of_settled (noted_of_not_live hother hn.delivered hn.refresh hp ?_ rfl fun _ => rfl)
    (fun _ => hp.settled hother) hnone
  intro hphase
  rcases hphase with hphase | hphase <;> cases hphase

/-- A call that leaves everything noted about the client as it was. -/
structure SameNotes (c c' : LiveClient) : Prop where
  options : c'.options = c.options
  phase : c'.phase = c.phase
  socket : c'.socket = c.socket
  desired : c'.desired = c.desired
  refresh : c'.refresh = c.refresh
  subscribeTimer : c'.subscribeTimer = c.subscribeTimer
  sent : c'.sent = c.sent
  last : c'.lastSubscribeAtMs = c.lastSubscribeAtMs
  outbox : c'.outbox = c.outbox

theorem SameNotes.sound (h : SameNotes r.client c') (hn : r.Noted) {event : ClientEvent}
    (hnone : r.flushes event = none) : Sound r (r.goOn now c') event := by
  have hlog : (r.goOn now c').log = r.log := by
    rw [goOn, h.outbox, hn.delivered, List.map_nil, List.append_nil]
  have hsame : (r.goOn now c').lastSent = r.lastSent := by rw [lastSent, hlog, lastSent]
  have hp : (r.goOn now c').Paced := by
    refine ⟨?_, ?_⟩
    · rw [hlog]
      exact h.options.symm ▸ hn.paced.spaced
    · rw [hlog]
      exact hn.paced.bounded
  refine .of_settled ?_ (fun hs => ⟨hp.spaced, hp.bounded, ?_⟩) hnone
  · refine
      { delivered := rfl
        refresh := fun t ht => ?_
        connection := fun hlive => ?_
        paced := hp
        fresh := fun hphase => ?_
        timer := fun htrue => ?_
        timed := fun hlive hne => ?_
        reconnect := fun htrue => h.phase.trans (hn.reconnect htrue) }
    · show t ∈ c'.desired
      rw [h.desired]
      exact hn.refresh t (h.refresh ▸ ht)
    · obtain ⟨hphase, hsocket, -, hsent, hlast, hrefresh, hrequests⟩ :=
        hn.connection (h.phase.symm.trans hlive)
      refine ⟨hlive, h.socket.trans hsocket, rfl, ?_, ?_, fun t ht => ?_, fun q hq => ?_⟩
      · rw [hlog]
        exact h.sent.trans hsent
      · rw [hlog]
        exact h.last.trans hlast
      · show t ∈ c'.desired
        rw [h.desired]
        exact hrefresh t (h.refresh ▸ ht)
      · obtain ⟨hin, hdesired, howed⟩ := hrequests q hq
        refine ⟨hlog ▸ hin, ?_, ?_⟩
        · show q.ticker ∈ c'.desired
          rw [h.desired]
          exact hdesired
        · rw [hlog]
          show q.ticker ∈ c'.refresh ∨ _
          rw [h.refresh]
          exact howed
    · rw [hlog]
      exact hn.fresh (h.phase ▸ hphase)
    · obtain ⟨hlive, hne⟩ := hn.timer (h.subscribeTimer.symm.trans htrue)
      exact ⟨h.phase.trans hlive, hlog ▸ hne⟩
    · exact h.subscribeTimer.trans
        (hn.timed (h.phase.symm.trans hlive) (h.refresh ▸ hne))
  · intro hlive htimer hsend
    have hsend : Sendable r.client.desired := h.desired ▸ hsend
    obtain ⟨htold, hall⟩ := hs.told (h.phase.symm.trans hlive)
      (h.subscribeTimer.symm.trans htimer) hsend
    refine ⟨hsame.trans (htold.trans h.desired.symm), fun q hq => ?_⟩
    rw [Refreshed, hlog]
    exact hall q hq

theorem sound_of_same (hn : r.Noted) {event : ClientEvent} (hnone : r.flushes event = none)
    (ho : c'.options = r.client.options) (hp : c'.phase = r.client.phase)
    (hk : c'.socket = r.client.socket) (hd : c'.desired = r.client.desired)
    (hr : c'.refresh = r.client.refresh) (ht : c'.subscribeTimer = r.client.subscribeTimer)
    (hs : c'.sent = r.client.sent) (hl : c'.lastSubscribeAtMs = r.client.lastSubscribeAtMs)
    (hout : c'.outbox = r.client.outbox) : Sound r (r.goOn now c') event :=
  SameNotes.sound ⟨ho, hp, hk, hd, hr, ht, hs, hl, hout⟩ hn hnone

theorem paced_of_nil (h : r.log = []) : r.Paced := by
  refine ⟨?_, fun m hm => ?_⟩
  · rw [h]
    exact .nil
  · rw [h] at hm
    cases hm

theorem sound_setSubscription (hn : r.Noted) (tickers : List Ticker) (now : Int) :
    Sound r (r.step ⟨now, .setSubscription tickers⟩) ⟨now, .setSubscription tickers⟩ := by
  have hnone : r.flushes ⟨now, .setSubscription tickers⟩ = none := by
    rw [flushes]
    split <;> rfl
  -- the run with what is wanted changed, before the flush is scheduled
  let r₁ : ClientRun :=
    { r with
      requests := r.requests.filter fun request => request.ticker ∈ uniqueTickers tickers
      client := { r.client with
        rejectionRetries :=
          if uniqueTickers tickers = r.client.desired then r.client.rejectionRetries else 0
        desired := uniqueTickers tickers
        refresh := r.client.refresh.filter fun t => t ∈ uniqueTickers tickers } }
  have hstep : r.step ⟨now, .setSubscription tickers⟩ =
      r₁.goOn now (r₁.client.scheduleSubscribe now) := rfl
  have hsub : ∀ t ∈ r₁.client.refresh, t ∈ r₁.client.desired := fun t ht =>
    (Finset.mem_filter.mp ht).2
  rw [hstep]
  by_cases hlive : r.client.phase = .live
  · obtain ⟨-, hsocket, hout, hsent, hlast, -, hrequests⟩ := hn.connection hlive
    have hopen : r₁.Open := by
      refine ⟨hlive, hsocket, hout, hsent, hlast, hsub, fun q hq => ?_⟩
      obtain ⟨hq, hkept⟩ := List.mem_filter.mp hq
      obtain ⟨hin, -, howed⟩ := hrequests q hq
      have hkept : q.ticker ∈ uniqueTickers tickers := of_decide_eq_true hkept
      exact ⟨hin, hkept, howed.imp (fun hrefresh => Finset.mem_filter.mpr ⟨hrefresh, hkept⟩) id⟩
    have hidle : r₁.client.subscribeTimer = false → r₁.client.refresh = ∅ := by
      intro htimer
      by_contra hne
      have hwas : r.client.refresh ≠ ∅ := fun hempty => hne (by
        show r.client.refresh.filter _ = ∅
        rw [hempty, Finset.filter_empty])
      have htrue := hn.timed hlive hwas
      rw [show r.client.subscribeTimer = false from htimer] at htrue
      cases htrue
    have hrests := @Open.schedule now r₁ hopen ⟨hn.paced.spaced, hn.paced.bounded⟩
      (fun htrue => (hn.timer htrue).2) (fun htimer _ howes => by
        obtain ⟨q, -, hq, -⟩ := howes
        rw [hidle htimer] at hq
        cases hq)
    refine .of_rests hrests (hn.noReconnect hlive) fun _ => ?_
    exact iff_of_true (fun htimer _ hstuck => hstuck.2.1 (hidle htimer))
      (unsuppressed_of_none hnone)
  · rw [scheduleSubscribe_of_not_live (c := r₁.client) hlive, goOn_self (r := r₁) hn.delivered]
    have hp : r₁.Paced := ⟨hn.paced.spaced, hn.paced.bounded⟩
    refine .of_settled (noted_of_not_live hlive hn.delivered hsub hp (fun hphase => ?_)
      (hn.noTimer hlive) hn.reconnect) (fun _ => hp.settled hlive) hnone
    obtain ⟨hlog, hrequests⟩ := hn.fresh hphase
    refine ⟨hlog, ?_⟩
    show r.requests.filter _ = []
    rw [hrequests, List.filter_nil]

/-- The connection once a snapshot was asked for, whether that is noted or not. -/
theorem Open.request (h : r.Open) {ticker : Ticker} (hin : ticker ∈ r.client.desired)
    {more : List SnapshotRequest} (hmore : ∀ q ∈ more, q ∈ r.requested ticker) :
    Open { r with
      requests := r.requests ++ more
      client := { r.client with refresh := insert ticker r.client.refresh } } := by
  refine ⟨h.live, h.socket, h.delivered, h.sent, h.last, fun t ht => ?_, fun q hq => ?_⟩
  · exact (Finset.mem_insert.mp ht).elim (fun heq => heq ▸ hin) (h.refresh t)
  · rcases List.mem_append.mp hq with hold | hnew
    · obtain ⟨hincluded, hdesired, howed⟩ := h.requests q hold
      exact ⟨hincluded, hdesired, howed.imp Finset.mem_insert_of_mem id⟩
    · have hnew := hmore q hnew
      rw [requested] at hnew
      split at hnew
      · next hboth =>
          obtain rfl := List.mem_singleton.mp hnew
          refine ⟨?_, hboth.1, .inl (Finset.mem_insert_self _ _)⟩
          cases hend : r.log.getLast? with
          | none =>
              rw [ClientRun.lastSent, hend] at hboth
              exact absurd hboth.2 List.not_mem_nil
          | some m =>
              rw [lastSent_eq hend] at hboth
              exact ⟨m, List.getLast?_eq_getElem?.symm.trans hend, hboth.2⟩
      · cases hnew

theorem sound_requestSnapshot (hn : r.Noted) (ticker : Ticker) (now : Int)
    (hsized : r.Sized ⟨now, .requestSnapshot ticker⟩) :
    Sound r (r.step ⟨now, .requestSnapshot ticker⟩) ⟨now, .requestSnapshot ticker⟩ := by
  have hrequest : r.step ⟨now, .requestSnapshot ticker⟩ =
      { r with requests := r.requests ++ r.requested ticker }.goOn now
        (r.client.requestSnapshot ticker now) := rfl
  rw [hrequest, LiveClient.requestSnapshot]
  by_cases hin : ticker ∈ r.client.desired
  · rw [if_pos hin]
    let r₁ : ClientRun :=
      { r with
        requests := r.requests ++ r.requested ticker
        client := { r.client with refresh := insert ticker r.client.refresh } }
    show Sound r (r₁.goOn now (r₁.client.scheduleSubscribe now)) _
    have hsub : ∀ t ∈ r₁.client.refresh, t ∈ r₁.client.desired := fun t ht =>
      (Finset.mem_insert.mp ht).elim (fun heq => heq ▸ hin) (hn.refresh t)
    by_cases hlive : r.client.phase = .live
    · have hopen : r₁.Open := (hn.connection hlive).request hin fun _ hq => hq
      have hflush : r.client.subscribeTimer = false → r.client.mayFlush now = true →
          r.flushes ⟨now, .requestSnapshot ticker⟩ = some r₁.client := by
        intro htimer hmay
        rw [flushes, if_neg (not_not.mpr hlive)]
        exact if_pos ⟨hin, htimer, hmay⟩
      have hrests := @Open.schedule now r₁ hopen ⟨hn.paced.spaced, hn.paced.bounded⟩
        (fun htrue => (hn.timer htrue).2)
        (fun htimer hmay howes => by
          obtain ⟨q, -, hrefresh, hlast⟩ := howes
          exact hsized r₁.client (hflush htimer hmay) ⟨q.ticker, hrefresh, hlast⟩)
      refine .of_rests hrests (hn.noReconnect hlive) fun hs => ?_
      -- a settled connection was told the whole set, and this flush leaves some of it out
      have hdiffers : r₁.client.subscribeTimer = false → Sendable r₁.client.desired →
          r₁.client.flushed ≠ r.lastSent := by
        intro htimer hsend
        rw [(hs.told hlive htimer hsend).1]
        exact flushed_ne_desired hsub (Finset.insert_ne_empty _ _)
      refine iff_of_true (fun htimer _ hstuck => ?_) fun c hc _ hsend _ => ?_
      · refine hdiffers htimer hstuck.2.2 ?_
        rw [← lastSent_of_suppressed hstuck.1]
        exact hopen.lastSent
      · rw [flushes, if_neg (not_not.mpr hlive)] at hc
        dsimp only at hc
        split at hc
        · next hflushes =>
            obtain rfl := Option.some.inj hc
            exact hdiffers hflushes.2.1 hsend
        · cases hc
    · rw [scheduleSubscribe_of_not_live (c := r₁.client) hlive, goOn_self (r := r₁) hn.delivered]
      have hp : r₁.Paced := ⟨hn.paced.spaced, hn.paced.bounded⟩
      refine .of_settled (noted_of_not_live hlive hn.delivered hsub hp (fun hphase => ?_)
        (hn.noTimer hlive) hn.reconnect) (fun _ => hp.settled hlive) (flushes_of_not_live hlive)
      obtain ⟨hlog, hrequests⟩ := hn.fresh hphase
      refine ⟨hlog, ?_⟩
      show r.requests ++ r.requested ticker = []
      rw [hrequests, requested, if_neg]
      · rfl
      · rw [lastSent, hlog]
        exact fun hboth => List.not_mem_nil hboth.2
  · rw [if_neg hin]
    have hsame : { r with requests := r.requests ++ r.requested ticker } = r := by
      rw [requested, if_neg fun hboth => hin hboth.1, List.append_nil]
    rw [hsame, goOn_self hn.delivered]
    refine .of_settled hn id ?_
    rw [flushes]
    split
    · rfl
    · exact if_neg fun hflushes => hin hflushes.1

theorem sameNotes_retryUnknownTickers (c : LiveClient) (rejected : List Rejection) :
    SameNotes c (c.retryUnknownTickers rejected) := by
  rw [LiveClient.retryUnknownTickers]
  split <;> split
  · exact ⟨rfl, rfl, rfl, rfl, rfl, rfl, rfl, rfl, rfl⟩
  · split <;> exact ⟨rfl, rfl, rfl, rfl, rfl, rfl, rfl, rfl, rfl⟩
  · exact ⟨rfl, rfl, rfl, rfl, rfl, rfl, rfl, rfl, rfl⟩
  · split <;> exact ⟨rfl, rfl, rfl, rfl, rfl, rfl, rfl, rfl, rfl⟩

theorem sound_handleHello (hn : r.Noted) (hsocket : r.client.socket = true) (hello : HelloMessage)
    {event : ClientEvent} (hnone : r.flushes event = none) :
    Sound r (r.goOn now (r.client.handleHello hello now)) event := by
  rw [LiveClient.handleHello]
  dsimp only
  split
  · exact sound_of_same hn hnone rfl rfl rfl rfl rfl rfl rfl rfl rfl
  · next hphase =>
      have hphase : r.client.phase = .handshaking := not_not.mp hphase
      obtain ⟨hlog, hrequests⟩ := hn.fresh (.inr hphase)
      split
      · -- a server of another protocol
        have hother : ConnectionPhase.incompatible ≠ .live := nofun
        have hp : Paced (r.goOn now { r.client with
            socket := false, helloTimer := false, subscribeTimer := false
            rejectionRetryTimer := false, phase := .incompatible, hello := some hello }) := by
          refine paced_of_nil ?_
          show r.log ++ r.client.outbox.map _ = []
          rw [hlog, hn.delivered]
          rfl
        refine .of_settled (noted_of_not_live hother rfl hn.refresh hp ?_ rfl ?_)
          (fun _ => hp.settled hother) hnone
        · intro hbefore
          rcases hbefore with hbefore | hbefore <;> cases hbefore
        · intro htrue
          have hwaiting := hn.reconnect htrue
          rw [hphase] at hwaiting
          cases hwaiting
      · let r₁ : ClientRun :=
          { r with
            client := { r.client with
              helloTimer := false
              sent := none, lastSubscribeAtMs := none, refresh := ∅, rejectionRetries := 0
              resend := false, phase := .live, hello := some hello, subscribed := []
              rejected := [] } }
        show Sound r (r₁.goOn now (r₁.client.scheduleSubscribe now)) event
        have hopen : r₁.Open := by
          refine ⟨rfl, hsocket, hn.delivered, ?_, ?_, nofun, fun q hq => ?_⟩
          · show none = r.log.getLast?.map _
            rw [hlog]
            rfl
          · show none = r.log.getLast?.map _
            rw [hlog]
            rfl
          · rw [show r₁.requests = [] from hrequests] at hq
            cases hq
        have hnotLive : r.client.phase ≠ .live := by
          rw [hphase]
          exact nofun
        have hrests := @Open.schedule now r₁ hopen ⟨hn.paced.spaced, hn.paced.bounded⟩
          (fun htrue => absurd (hn.noTimer hnotLive)
            (by rw [show r.client.subscribeTimer = true from htrue]; decide))
          (fun _ _ howes => by
            obtain ⟨q, -, hrefresh, -⟩ := howes
            cases hrefresh)
        refine .of_rests hrests (Bool.eq_false_iff.mpr fun htrue => ?_) fun _ => ?_
        · have hwaiting := hn.reconnect htrue
          rw [hphase] at hwaiting
          cases hwaiting
        · exact iff_of_true (fun _ _ hstuck => hstuck.2.1 rfl) (unsuppressed_of_none hnone)

theorem sound_frame (hn : r.Noted) (frame : FrameDecoding) (now : Int) :
    Sound r (r.step ⟨now, .frame frame⟩) ⟨now, .frame frame⟩ := by
  have hnone : r.flushes ⟨now, .frame frame⟩ = none := by
    rw [flushes]
    split <;> rfl
  show Sound r (r.goOn now (r.client.handleFrame frame now).1) _
  rw [LiveClient.handleFrame.eq_def]
  split
  · exact sound_of_same hn hnone rfl rfl rfl rfl rfl rfl rfl rfl rfl
  · next hsocket =>
      cases frame with
      | hello message => exact sound_handleHello hn (Bool.of_not_eq_false hsocket) message hnone
      | subscribed tickers rejected =>
          have hsame := sameNotes_retryUnknownTickers
            { r.client with subscribed := tickers, rejected := rejected } rejected
          exact SameNotes.sound ⟨hsame.options, hsame.phase, hsame.socket, hsame.desired,
            hsame.refresh, hsame.subscribeTimer, hsame.sent, hsame.last, hsame.outbox⟩ hn hnone
      | malformed => exact sound_of_same hn hnone rfl rfl rfl rfl rfl rfl rfl rfl rfl
      | ignored => exact sound_of_same hn hnone rfl rfl rfl rfl rfl rfl rfl rfl rfl
      | error code message =>
          exact sound_of_same hn hnone rfl rfl rfl rfl rfl rfl rfl rfl rfl
      | market message =>
          exact sound_of_same hn hnone rfl rfl rfl rfl rfl rfl rfl rfl rfl

theorem sound_retryTimer (hn : r.Noted) (now : Int) :
    Sound r (r.step ⟨now, .retryTimer⟩) ⟨now, .retryTimer⟩ := by
  have hnone : r.flushes ⟨now, .retryTimer⟩ = none := by
    rw [flushes]
    split <;> rfl
  show Sound r (r.goOn now (r.client.retryTimerFires now)) _
  rw [LiveClient.retryTimerFires]
  split
  · let r₁ : ClientRun :=
      { r with client := { r.client with rejectionRetryTimer := false, resend := true } }
    show Sound r (r₁.goOn now (r₁.client.scheduleSubscribe now)) _
    by_cases hlive : r.client.phase = .live
    · obtain ⟨-, hsocket, hout, hsent, hlast, hsub, hrequests⟩ := hn.connection hlive
      have hopen : r₁.Open := ⟨hlive, hsocket, hout, hsent, hlast, hsub, fun q hq =>
        ⟨(hrequests q hq).included, (hrequests q hq).desired, (hrequests q hq).owed⟩⟩
      have hidle : r.client.subscribeTimer = false → r.client.refresh = ∅ := by
        intro htimer
        by_contra hne
        rw [hn.timed hlive hne] at htimer
        cases htimer
      have hrests := @Open.schedule now r₁ hopen ⟨hn.paced.spaced, hn.paced.bounded⟩
        (fun htrue => (hn.timer htrue).2) (fun htimer _ howes => by
          obtain ⟨q, -, hq, -⟩ := howes
          rw [show r₁.client.refresh = ∅ from hidle htimer] at hq
          cases hq)
      refine .of_rests hrests (hn.noReconnect hlive) fun _ => ?_
      exact iff_of_true (fun htimer _ hstuck => hstuck.2.1 (hidle htimer))
        (unsuppressed_of_none hnone)
    · rw [scheduleSubscribe_of_not_live (c := r₁.client) hlive, goOn_self (r := r₁) hn.delivered]
      have hp : r₁.Paced := ⟨hn.paced.spaced, hn.paced.bounded⟩
      exact .of_settled (noted_of_not_live hlive hn.delivered hn.refresh hp hn.fresh
        (hn.noTimer hlive) hn.reconnect) (fun _ => hp.settled hlive) hnone
  · exact sound_of_same hn hnone rfl rfl rfl rfl rfl rfl rfl rfl rfl

theorem flushes_subscribeTimer (hn : r.Noted) (htimer : r.client.subscribeTimer = true) :
    r.flushes ⟨now, .subscribeTimer⟩ = some r.client := by
  rw [flushes, if_neg (not_not.mpr (hn.timer htimer).1)]
  exact if_pos htimer

/-- The one flush that can be stuck: the timer's, of markets to refresh that the
set sent last did not have. -/
theorem sound_subscribeTimer (hn : r.Noted) (now : Int) (hlegal : r.Legal ⟨now, .subscribeTimer⟩)
    (hsized : r.client.subscribeTimer = true → r.OwesLast → Sendable r.client.flushed) :
    Sound r (r.step ⟨now, .subscribeTimer⟩) ⟨now, .subscribeTimer⟩ := by
  show Sound r (r.goOn now (r.client.subscribeTimerFires now)) _
  rw [LiveClient.subscribeTimerFires]
  split
  · next htimer =>
      obtain ⟨hlive, hne⟩ := hn.timer htimer
      have hflush : r.flushes ⟨now, .subscribeTimer⟩ = some r.client :=
        flushes_subscribeTimer hn htimer
      obtain ⟨-, hsocket, hout, hsent, hlast, hsub, hrequests⟩ := hn.connection hlive
      let r₁ : ClientRun := { r with client := { r.client with subscribeTimer := false } }
      have hopen : r₁.Open := ⟨hlive, hsocket, hout, hsent, hlast, hsub, fun q hq =>
        ⟨(hrequests q hq).included, (hrequests q hq).desired, (hrequests q hq).owed⟩⟩
      have hdue : ∀ last ∈ r.log.getLast?,
          last.atMs + r.client.options.minSubscribeIntervalMs ≤ now := by
        intro last hin
        refine hlegal rfl last.atMs ?_
        rw [hlast, Option.mem_def.mp hin]
        rfl
      have hrests := @Open.flush now r₁ hopen rfl ⟨hn.paced.spaced, hn.paced.bounded⟩ hdue
        (hsized htimer)
      refine .of_rests hrests (hn.noReconnect hlive) fun _ => ?_
      obtain ⟨m, hend⟩ : ∃ m, r.log.getLast? = some m :=
        Option.ne_none_iff_exists'.mp (mt List.getLast?_eq_none_iff.mp hne)
      have hwas : r.client.sent = some r.lastSent := by
        rw [hsent, hend, lastSent_eq hend]
        rfl
      have hsuppressed : r.client.suppressed = true ↔
          r.client.resend = false ∧ r.client.flushed = r.lastSent := by
        rw [LiveClient.suppressed, hwas]
        simp only [Bool.and_eq_true, Bool.not_eq_true', beq_iff_eq]
        exact and_congr_right fun _ => eq_comm
      constructor
      · intro hnot c hc hrefresh hsend hresend heq
        rw [hflush] at hc
        obtain rfl := Option.some.inj hc
        exact hnot ⟨hsuppressed.mpr ⟨hresend, heq⟩, hrefresh, hsend⟩
      · rintro hun ⟨hsup, hrefresh, hsend⟩
        obtain ⟨hresend, heq⟩ := hsuppressed.mp hsup
        exact hun r.client hflush hrefresh hsend hresend heq
  · next htimer =>
      refine SameNotes.sound ⟨rfl, rfl, rfl, rfl, rfl, rfl, rfl, rfl, rfl⟩ hn ?_
      rw [flushes]
      split <;> rfl

/-- What a call does, if no flush of its own loses a request that is noted. -/
theorem sound_call (hn : r.Noted) (event : ClientEvent) (hlegal : r.Legal event)
    (hrequest : ∀ ticker, event.call = .requestSnapshot ticker → r.Sized event)
    (howes : event.call = .subscribeTimer → r.client.subscribeTimer = true → r.OwesLast →
      Sendable r.client.flushed) : Sound r (r.step event) event := by
  obtain ⟨now, call⟩ := event
  have hself : ∀ {event : ClientEvent}, r.flushes event = none → Sound r r event :=
    fun hnone => .of_settled hn id hnone
  have hother : ∀ {call : ClientCall}, (∀ ticker, call ≠ .requestSnapshot ticker) →
      call ≠ .subscribeTimer → r.flushes ⟨now, call⟩ = none := by
    intro call hrequest htimer
    rw [flushes]
    split
    · rfl
    · cases call with
      | requestSnapshot ticker => exact absurd rfl (hrequest ticker)
      | subscribeTimer => exact absurd rfl htimer
      | _ => rfl
  cases call with
  | start created =>
      rw [step]
      dsimp only
      split
      · next hphase =>
          refine sound_connect hn (fun hlive => ?_) created _
          rw [hlive] at hphase
          rcases hphase with hphase | hphase <;> cases hphase
      · exact hself (hother nofun nofun)
  | stop =>
      rw [step]
      dsimp only
      split
      · exact hself (hother nofun nofun)
      · have hstopped : ConnectionPhase.stopped ≠ .live := nofun
        refine .of_settled (noted_of_not_live hstopped hn.delivered hn.refresh
          ⟨hn.paced.spaced, hn.paced.bounded⟩ (fun hbefore => ?_) rfl nofun)
          (fun _ => Paced.settled ⟨hn.paced.spaced, hn.paced.bounded⟩ hstopped)
          (hother nofun nofun)
        rcases hbefore with hbefore | hbefore <;> cases hbefore
  | setSubscription tickers => exact sound_setSubscription hn tickers now
  | requestSnapshot ticker => exact sound_requestSnapshot hn ticker now (hrequest ticker rfl)
  | socketOpens =>
      rw [step]
      dsimp only
      split
      · next hphase =>
          have hhandshaking : ConnectionPhase.handshaking ≠ .live := nofun
          have hnotLive : r.client.phase ≠ .live := by
            rw [hphase]
            exact nofun
          refine .of_settled (noted_of_not_live hhandshaking hn.delivered hn.refresh
            ⟨hn.paced.spaced, hn.paced.bounded⟩ (fun _ => hn.fresh (.inl hphase))
            (hn.noTimer hnotLive) fun htrue => ?_)
            (fun _ => Paced.settled ⟨hn.paced.spaced, hn.paced.bounded⟩ hhandshaking)
            (hother nofun nofun)
          have hwaiting := hn.reconnect htrue
          rw [hphase] at hwaiting
          cases hwaiting
      · exact hself (hother nofun nofun)
  | frame frame => exact sound_frame hn frame now
  | socketCloses =>
      rw [step]
      dsimp only
      split
      · exact sound_close hn (hother nofun nofun)
      · exact hself (hother nofun nofun)
  | helloTimer =>
      rw [step]
      dsimp only
      split
      · exact sound_close hn (hother nofun nofun)
      · exact hself (hother nofun nofun)
  | subscribeTimer => exact sound_subscribeTimer hn now hlegal (howes rfl)
  | retryTimer => exact sound_retryTimer hn now
  | reconnectTimer created =>
      rw [step]
      dsimp only
      split
      · next htrue =>
          refine sound_connect hn (fun hlive => ?_) created _
          have hwaiting := hn.reconnect htrue
          rw [hlive] at hwaiting
          cases hwaiting
      · exact hself (hother nofun nofun)

theorem sound_step (hn : r.Noted) (event : ClientEvent) (hlegal : r.Legal event)
    (hsized : r.Sized event) : Sound r (r.step event) event := by
  refine sound_call hn event hlegal (fun _ _ => hsized) fun hcall htimer howes => ?_
  obtain ⟨q, -, hrefresh, hlast⟩ := howes
  obtain ⟨now, call⟩ := event
  obtain rfl : call = .subscribeTimer := hcall
  exact hsized r.client (flushes_subscribeTimer hn htimer) ⟨q.ticker, hrefresh, hlast⟩

/-! ## Pacing, whatever becomes of the requests -/

/-- The run with nothing noted of its requests. -/
def unnoted (r : ClientRun) : ClientRun := { r with requests := [] }

theorem Noted.unnoted (h : r.Noted) : r.unnoted.Noted where
  delivered := h.delivered
  refresh := h.refresh
  connection hlive := by
    obtain ⟨-, hsocket, hout, hsent, hlast, hrefresh, -⟩ := h.connection hlive
    exact ⟨hlive, hsocket, hout, hsent, hlast, hrefresh, fun q hq => by cases hq⟩
  paced := ⟨h.paced.spaced, h.paced.bounded⟩
  fresh hphase := ⟨(h.fresh hphase).1, rfl⟩
  timer := h.timer
  timed := h.timed
  reconnect := h.reconnect

theorem unnoted_ite {p : Prop} [Decidable p] {r₁ r₂ r₁' r₂' : ClientRun}
    (hpos : r₁.unnoted = r₁'.unnoted) (hneg : r₂.unnoted = r₂'.unnoted) :
    (if p then r₁ else r₂).unnoted = (if p then r₁' else r₂').unnoted := by
  split
  · exact hpos
  · exact hneg

/-- What is noted of the requests does not change the calls. -/
theorem unnoted_step (r : ClientRun) (event : ClientEvent) :
    (r.step event).unnoted = (r.unnoted.step event).unnoted := by
  obtain ⟨now, call⟩ := event
  cases call with
  | start created => exact unnoted_ite rfl rfl
  | stop => exact unnoted_ite rfl rfl
  | socketOpens => exact unnoted_ite rfl rfl
  | socketCloses => exact unnoted_ite rfl rfl
  | helloTimer => exact unnoted_ite rfl rfl
  | reconnectTimer created => exact unnoted_ite rfl rfl
  | _ => rfl

theorem unnoted_requestSnapshot (hn : r.unnoted.Noted) (ticker : Ticker) (now : Int) :
    (r.step ⟨now, .requestSnapshot ticker⟩).unnoted.Noted := by
  have hstep : (r.step ⟨now, .requestSnapshot ticker⟩).unnoted =
      r.unnoted.goOn now (r.unnoted.client.requestSnapshot ticker now) := rfl
  have hnone : ∀ q ∈ ([] : List SnapshotRequest), q ∈ r.unnoted.requested ticker := by
    intro q hq
    cases hq
  rw [hstep, LiveClient.requestSnapshot]
  by_cases hin : ticker ∈ r.unnoted.client.desired
  · rw [if_pos hin]
    let r₁ : ClientRun :=
      { r.unnoted with client := { r.client with refresh := insert ticker r.client.refresh } }
    show Noted (r₁.goOn now (r₁.client.scheduleSubscribe now))
    by_cases hlive : r.unnoted.client.phase = .live
    · have hopen : r₁.Open := (hn.connection hlive).request hin hnone
      have hrests := @Open.schedule now r₁ hopen ⟨hn.paced.spaced, hn.paced.bounded⟩
        (fun htrue => (hn.timer htrue).2) (fun _ _ howes => by
          obtain ⟨q, hq, -⟩ := howes
          cases hq)
      exact hrests.noted (hn.noReconnect hlive)
    · rw [scheduleSubscribe_of_not_live (c := r₁.client) hlive, goOn_self (r := r₁) hn.delivered]
      refine noted_of_not_live hlive hn.delivered (fun t ht => ?_)
        ⟨hn.paced.spaced, hn.paced.bounded⟩ hn.fresh (hn.noTimer hlive) hn.reconnect
      exact (Finset.mem_insert.mp ht).elim (fun heq => heq ▸ hin) (hn.refresh t)
  · rw [if_neg hin, goOn_self hn.delivered]
    exact hn

theorem unnoted_noted_step (hn : r.unnoted.Noted) (event : ClientEvent) (hlegal : r.Legal event) :
    (r.step event).unnoted.Noted := by
  by_cases hrequest : ∃ ticker, event.call = .requestSnapshot ticker
  · obtain ⟨ticker, hcall⟩ := hrequest
    obtain ⟨now, call⟩ := event
    obtain rfl : call = .requestSnapshot ticker := hcall
    exact unnoted_requestSnapshot hn ticker now
  · rw [unnoted_step]
    refine (sound_call hn event hlegal (fun ticker hcall => absurd ⟨ticker, hcall⟩ hrequest)
      fun _ _ howes => ?_).noted.unnoted
    obtain ⟨q, hq, -⟩ := howes
    cases hq

theorem noted_new (options : LiveClientOptions) : (new options).Noted :=
  noted_of_not_live nofun rfl nofun ⟨.nil, nofun⟩ (fun _ => ⟨rfl, rfl⟩) rfl nofun

/-- A client paces what it sends on every run; and one that is never about to
lose a refresh for its size settles on what the page wants exactly as long as no
refresh is suppressed. -/
theorem subscription_settles (options : LiveClientOptions) {events : List ClientEvent}
    (hlegal : Run.Along step Legal (new options) events) :
    Run.Throughout step Paced (new options) events ∧
      (Run.Along step Sized (new options) events →
        (Run.Throughout step Settled (new options) events ↔
          Run.Along step Unsuppressed (new options) events)) := by
  have hn := noted_new options
  refine ⟨?_, fun hsized => ?_⟩
  · have hpaced : Run.Throughout step (fun r => r.unnoted.Noted) (new options) events :=
      Run.throughout_of_step (fun r event hr hl => unnoted_noted_step hr event hl) hn.unnoted hlegal
    exact hpaced.mono fun r hr => ⟨hr.paced.spaced, hr.paced.bounded⟩
  · have hinv : ∀ (r : ClientRun) event, r.Noted → r.Legal event ∧ r.Sized event →
        (r.step event).Noted := fun r event hr hl => (sound_step hr event hl.1 hl.2).noted
    exact Run.throughout_iff_along hinv
      (fun r event hr hs hl => (sound_step hr event hl.1 hl.2).settled hs)
      hn (hn.paced.settled nofun) (hlegal.and hsized)

/-- A page that wants two markets and asks for a snapshot of one. -/
def oneRequest : List ClientEvent :=
  [⟨0, .setSubscription ["A", "B"]⟩, ⟨0, .start true⟩, ⟨0, .socketOpens⟩,
    ⟨0, .frame (.hello ⟨1, 10⟩)⟩, ⟨300, .requestSnapshot "B"⟩]

/-- Its market is left out of one message and included in the next. -/
theorem subscription_settles_once :
    Run.Throughout step Settled (new {}) (oneRequest ++ [⟨550, .subscribeTimer⟩]) :=
  ((subscription_settles {} (by decide +kernel)).2 (by decide +kernel)).mpr (by decide +kernel)

/-- Asked for again before it was included, it never is: the timer fires, the
set without it is the one sent last, and nothing is scheduled. -/
theorem subscription_stuck :
    let events := oneRequest ++ [⟨400, .requestSnapshot "B"⟩, ⟨550, .subscribeTimer⟩]
    Run.Along step Legal (new {}) events ∧ Run.Along step Sized (new {}) events ∧
      ¬ Run.Throughout step Settled (new {}) events := by
  refine ⟨by decide +kernel, by decide +kernel, fun h => ?_⟩
  have hsettled := h.last
  have htold := (hsettled.told (by decide +kernel) (by decide +kernel) (by decide +kernel)).1
  exact absurd htold (by decide +kernel)

end ClientRun

end Tape.Page
