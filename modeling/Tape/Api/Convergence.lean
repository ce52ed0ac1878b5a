import Tape.Api.FanOut

/-!
# The clients converge

A `Feed` is the hub with a client behind each session, which processes a message
when it leaves the queue. After any act, a client that goes on to process all
that is queued shows what the hub holds of the markets its session follows
(`Converged`), or the act was a subscribe whose reply is not enough: the client
goes by the replies it was sent, and an overflow may have dropped one that was
queued (`TellsAll`).

The hub sends no snapshot of a market the session follows already; a client that
was never told so makes it unknown at the next reply, and it stays unknown until
something else happens to the market.
-/

namespace Tape.Api

/-- The bus messages that an act brings. -/
def HubAct.heard : HubAct → List BusEnvelope
  | .receive (some envelope) _ => [envelope]
  | _ => []

theorem HubAct.heard_tail (act : HubAct) {m : BusEnvelope} {rest : List BusEnvelope}
    (h : act.heard = m :: rest) : rest = [] := by
  cases act with
  | receive message nowNs =>
      cases message with
      | none => cases h
      | some envelope => exact (List.cons.inj h).2.symm
  | _ => cases h

namespace LiveHub

/-- A frame is its own session's business. -/
theorem handle_other (h : LiveHub) (id : SessionId) (size : Nat) (nowNs : Int)
    (frame : ClientFrame) :
    (h.handle id size nowNs frame).sessions = h.sessions ∧
      (h.handle id size nowNs frame).live = h.live ∧
      ∀ j, j ≠ id → (h.handle id size nowNs frame).session j = h.session j := by
  rw [LiveHub.handle.eq_def]
  dsimp only
  split
  · exact ⟨rfl, rfl, fun j hj => (setSession_session _ _ _ _).trans (if_neg hj)⟩
  · split
    · refine ⟨rfl, rfl, fun j hj => ?_⟩
      rw [LiveHub.subscribe, offer_session, if_neg hj, resubscribe, setSession_session, if_neg hj]
      exact (setSession_session _ _ _ _).trans (if_neg hj)
    · refine ⟨rfl, rfl, fun j hj => ?_⟩
      rw [offer_session, if_neg hj, setSession_session, if_neg hj]

/-- The copies change with the bus messages only. -/
theorem step_live (h : LiveHub) (act : HubAct) :
    (h.step act).live = (h.live.observeAll act.heard).1 := by
  rw [LiveHub.step.eq_def]
  cases act with
  | receive message nowNs =>
      cases message with
      | none => rfl
      | some envelope =>
          have hspec := (h.observed envelope).offerAll_spec nowNs
            ((h.observed envelope).outbox (h.live.observe envelope).2 envelope.event)
          exact hspec.live.trans (updateDirectory_live _ _)
  | admitSession nowNs =>
      show (h.admitSession nowNs).live = h.live
      rw [admitSession]
      split
      · rfl
      · rfl
  | closeSessions code =>
      obtain ⟨-, -, -, -, hlive, -⟩ := h.closeSessions_spec code
      exact hlive
  | handle id size nowNs frame =>
      split
      · rfl
      · exact (h.handle_other id size nowNs frame).2.1
  | _ =>
      split
      · rfl
      · rfl

theorem opened_le_step (h : LiveHub) (act : HubAct) : h.opened ≤ (h.step act).opened := by
  rw [LiveHub.step.eq_def]
  split
  · exact le_refl _
  · cases act with
    | admitSession nowNs =>
        show h.opened ≤ (h.admitSession nowNs).opened
        rw [admitSession]
        split
        · exact le_refl _
        · exact Nat.le_succ _
    | closeSessions code => exact (h.sameIndex_closeSessions code).opened.ge
    | receive message nowNs => exact (h.sameIndex_receive nowNs message).opened.ge
    | handle id size nowNs frame =>
        show h.opened ≤ (h.handle id size nowNs frame).opened
        rw [LiveHub.handle.eq_def]
        dsimp only
        split
        · exact le_refl _
        · split
          · exact le_refl _
          · exact le_refl _
    | _ => exact le_refl _

end LiveHub

/-- A hub and the client behind each of its sessions. -/
structure Feed where
  hub : LiveHub
  client : SessionId → Client

namespace Feed

/-- No client is connected yet. -/
def new (config : ServeConfig) : Feed := ⟨.new config, fun _ => .new⟩

/-- The client once it has processed all that is queued for it. -/
def caughtUp (f : Feed) (id : SessionId) : Client :=
  (f.client id).receiveAll (f.hub.session id).queue

/-- What leaves a queue goes to the client. -/
def step (f : Feed) (act : HubAct) : Feed where
  hub := f.hub.step act
  client :=
    match act with
    | .take id =>
        if id ≥ f.hub.opened then f.client
        else Function.update f.client id
          ((f.client id).receiveAll ((f.hub.session id).queue.take 1))
    | _ => f.client

/-- The client, once it has processed what is queued for it, knows what the hub
holds of the markets its session follows, and could apply every delta. -/
def Sees (f : Feed) (id : SessionId) : Prop :=
  (f.hub.session id).Connected → (f.caughtUp id).Shows f.hub (f.hub.session id).subscriptions

/-- Every attached client will see what the hub holds. -/
def Converged (f : Feed) : Prop := ∀ id ∈ f.hub.sessions.keys, f.Sees id

/-- A subscribe whose reply fits leaves the client with what the hub holds: of a
market the session follows already there is no snapshot, so the client must know
that it follows it; of one it follows now, and of which nothing is held, the
client must know nothing. -/
def TellsAll (f : Feed) (id : SessionId) (tickers : List Ticker) : Prop :=
  (f.hub.session id).queue.length + (f.hub.subscribeMessages id tickers).length ≤
      (f.hub.session id).queueMax →
    ∀ t ∈ f.hub.accepts tickers,
      if t ∈ (f.hub.session id).subscriptions then
        f.hub.view t ≠ none → t ∈ (f.caughtUp id).followed
      else f.hub.view t = none → t ∈ (f.caughtUp id).followed → (f.caughtUp id).book t = none

/-- A subscribe of a session that is neither closed nor gone tells all. -/
def Heeds (f : Feed) : HubAct → Prop
  | .subscribe id tickers _ => (f.hub.session id).Connected → f.TellsAll id tickers
  | .handle id size nowNs (.subscribe tickers) =>
      (f.hub.session id).Connected → ((f.hub.session id).withinLimits size nowNs).2 = true →
        f.TellsAll id tickers
  | _ => True

instance (f : Feed) (id : SessionId) (tickers : List Ticker) : Decidable (f.TellsAll id tickers) :=
  inferInstanceAs (Decidable (_ → ∀ t ∈ f.hub.accepts tickers,
    if t ∈ (f.hub.session id).subscriptions then
      f.hub.view t ≠ none → t ∈ (f.caughtUp id).followed
    else f.hub.view t = none → t ∈ (f.caughtUp id).followed → (f.caughtUp id).book t = none))

/-- A refresh of a copy that is held keeps its levels. -/
def KeepsLevels (f : Feed) (act : HubAct) : Prop := ∀ m ∈ act.heard, f.hub.live.KeepsLevels m

/-! ## What always holds -/

/-- The hub's books and index are in order, and nothing has happened to the
sessions to come. -/
structure Orderly (f : Feed) : Prop where
  indexed : f.hub.Indexed
  numbered : f.hub.Numbered
  sane : f.hub.Sane
  blank : ∀ id, f.hub.opened ≤ id → (f.hub.session id).queue = [] ∧ f.client id = .new

theorem orderly_new (config : ServeConfig) : (new config).Orderly where
  indexed := LiveHub.indexed_new config
  numbered := LiveHub.numbered_new config
  sane := nofun
  blank _ _ := ⟨rfl, rfl⟩

variable {f : Feed} {act : HubAct} {id : SessionId}

/-- Only a call to a session's own `take` moves its client. -/
theorem step_client_of_ne (hne : act ≠ .take id) : (f.step act).client id = f.client id := by
  cases act with
  | take j =>
      have hj : id ≠ j := by
        rintro rfl
        exact hne rfl
      show (if j ≥ f.hub.opened then f.client else Function.update f.client j _) id = _
      split
      · rfl
      · exact Function.update_of_ne hj _ _
  | _ => rfl

theorem Orderly.step (ho : f.Orderly) (ha : f.hub.Attached act) : (f.step act).Orderly := by
  obtain ⟨hindexed, hnumbered⟩ := LiveHub.indexed_step ho.indexed ho.numbered ha
  refine ⟨hindexed, hnumbered, ?_, fun id hid => ?_⟩
  · show ∀ t b, (f.hub.step act).live.books.get? t = some b → b.Inv
    rw [LiveHub.step_live]
    cases hheard : act.heard with
    | nil => exact ho.sane
    | cons m rest =>
        obtain rfl : rest = [] := act.heard_tail hheard
        exact f.hub.live.inv_observe ho.sane m
  · have hopened : f.hub.opened ≤ id := (LiveHub.opened_le_step f.hub act).trans hid
    obtain ⟨hqueue, hclient⟩ := ho.blank id hopened
    have hout : id ∉ f.hub.sessions.keys := fun hin =>
      not_lt.mpr hopened (ho.numbered.attached id hin)
    by_cases hcaller : act.caller = some id
    · -- the call is not made
      have hguard : act.caller.any (· ≥ f.hub.opened) = true := by
        rw [hcaller]
        simpa using hopened
      have hstays : f.hub.step act = f.hub := if_pos hguard
      constructor
      · show ((f.hub.step act).session id).queue = []
        rw [hstays]
        exact hqueue
      · cases act with
        | take j =>
            obtain rfl : j = id := Option.some.inj hcaller
            exact (congrFun (if_pos hopened) j).trans hclient
        | _ => exact hclient
    · have hne : act ≠ .take id := by
        rintro rfl
        exact hcaller rfl
      rw [step_client_of_ne hne]
      refine ⟨?_, hclient⟩
      exact (congrArg ClientSession.queue (LiveHub.step_session_eq ho.indexed ha hout hcaller
        (.inr hid))).trans hqueue

/-! ## What one act makes of what a client sees -/

/-- What a client sees depends on the books, its session and what it processed. -/
theorem Sees.of_same {g : Feed} (hsees : f.Sees id) (hlive : g.hub.live = f.hub.live)
    (hsession : g.hub.session id = f.hub.session id) (hclient : g.client id = f.client id) :
    g.Sees id := by
  rw [Sees, caughtUp, hsession, hclient, Client.shows_congr hlive]
  exact hsees

/-- Who is no longer connected has nothing to see. -/
theorem sees_of_not_connected (h : ¬ (f.hub.session id).Connected) : f.Sees id :=
  fun hopen => absurd hopen h

/-- A reply that leaves the client's books alone. -/
theorem sees_offer_notice (hs : f.hub.Sane) (hsees : f.Sees id) {nowNs : Int} {m : ServerMessage}
    (hm : ∀ c : Client, c.receive m = c) :
    (Feed.mk (f.hub.offer id nowNs [m]) f.client).Sees id := by
  intro hopen
  have hsession : (f.hub.offer id nowNs [m]).session id =
      (f.hub.session id).offer f.hub.snapshot nowNs [m] := by
    rw [LiveHub.offer_session, if_pos rfl]
  have hlive : (f.hub.offer id nowNs [m]).live = f.hub.live := rfl
  rw [caughtUp]
  dsimp only at hopen ⊢
  rw [hsession] at hopen
  rw [hsession, ClientSession.offer_subscriptions, Client.shows_congr hlive]
  have hbefore := ClientSession.connected_of_offer hopen
  have hshows := hsees hbefore
  have hall : (((f.client id).receiveAll (f.hub.session id).queue).receiveAll [m]).Shows f.hub
      (f.hub.session id).subscriptions := by
    rw [Client.receiveAll_cons, hm]
    exact hshows
  exact Client.shows_offer hs hshows.applicable hbefore (fun _ => hall) hopen.1

/-- A subscribe, for its session's client. -/
theorem sees_subscribe_iff (hs : f.hub.Sane) (hsees : f.Sees id) (tickers : List Ticker)
    (nowNs : Int) :
    (Feed.mk (f.hub.subscribe id tickers nowNs) f.client).Sees id ↔
      ((f.hub.session id).Connected → f.TellsAll id tickers) := by
  let s := (f.hub.session id).replaceSubscriptions (f.hub.accepts tickers)
  have hsession : (f.hub.subscribe id tickers nowNs).session id =
      s.offer f.hub.snapshot nowNs (f.hub.subscribeMessages id tickers) := by
    rw [LiveHub.subscribe, LiveHub.offer_session, if_pos rfl, LiveHub.resubscribe,
      LiveHub.setSession_session, if_pos rfl]
    rfl
  have hlive : (f.hub.subscribe id tickers nowNs).live = f.hub.live := rfl
  rw [Sees, caughtUp]
  dsimp only
  rw [hsession, ClientSession.offer_subscriptions, Client.shows_congr hlive]
  by_cases hopen : (f.hub.session id).Connected
  · have hshows := hsees hopen
    have hfirst := Client.shows_subscribe_iff hs hshows (f.hub.accepts tickers)
      (f.hub.rejects tickers)
    by_cases hfits : (f.hub.session id).queue.length +
        (f.hub.subscribeMessages id tickers).length ≤ (f.hub.session id).queueMax
    · have hoffered : s.offer f.hub.snapshot nowNs (f.hub.subscribeMessages id tickers) =
          { s with queue := s.queue ++ f.hub.subscribeMessages id tickers } := by
        rw [ClientSession.offer, if_neg, if_pos]
        · exact hfits
        · rw [not_or, not_or]
          exact ⟨not_not.mpr hopen.1, Bool.eq_false_iff.mp hopen.2, by rintro ⟨⟩⟩
      rw [hoffered]
      dsimp only
      rw [Client.receiveAll_append]
      constructor
      · intro hafter _ _
        exact hfirst.mp (hafter hopen)
      · intro htells _
        exact hfirst.mpr (htells hopen hfits)
    · refine iff_of_true (fun hafter => ?_) fun _ hno => absurd hno hfits
      refine Client.shows_offer (s := s) hs hshows.applicable hopen ?_ hafter.1
      rintro (hnone | hyes)
      · cases hnone
      · exact absurd hyes hfits
  · exact iff_of_true (fun hafter => absurd (ClientSession.connected_of_offer hafter) hopen)
      fun hno => absurd hno hopen

/-- Counting a frame against the limits tells the client nothing. -/
theorem sees_setSession {s : ClientSession} (hsees : f.Sees id)
    (hconnected : s.Connected → (f.hub.session id).Connected)
    (hqueue : s.queue = (f.hub.session id).queue)
    (hsubscriptions : s.subscriptions = (f.hub.session id).subscriptions) :
    (Feed.mk (f.hub.setSession id s) f.client).Sees id := by
  have hlive : (f.hub.setSession id s).live = f.hub.live := rfl
  rw [Sees, caughtUp]
  dsimp only
  rw [LiveHub.setSession_session, if_pos rfl, hqueue, hsubscriptions, Client.shows_congr hlive]
  exact fun hopen => hsees (hconnected hopen)

/-- A frame, for its session's client. -/
theorem sees_handle_iff (hs : f.hub.Sane) (hsees : f.Sees id) (size : Nat) (nowNs : Int)
    (frame : ClientFrame) :
    (Feed.mk (f.hub.handle id size nowNs frame) f.client).Sees id ↔
      f.Heeds (.handle id size nowNs frame) := by
  obtain ⟨-, -, hwithin, houtside⟩ := LiveHub.withinLimits_spec (f.hub.session id) size nowNs
  rw [LiveHub.handle.eq_def]
  rcases h : (f.hub.session id).withinLimits size nowNs with ⟨s, _ | _⟩
  · -- the frame breaks a limit
    rw [h] at houtside
    obtain ⟨receivedNs, hs⟩ := houtside rfl
    dsimp only at hs
    dsimp only
    rw [if_pos Bool.false_ne_true]
    refine iff_of_true (sees_of_not_connected ?_) ?_
    · dsimp only
      rw [LiveHub.setSession_session, if_pos rfl, hs]
      exact ClientSession.not_connected_close _ _
    · cases frame with
      | subscribe tickers =>
          intro _ hno
          rw [h] at hno
          cases hno
      | _ => trivial
  · rw [h] at hwithin
    obtain ⟨receivedNs, rfl⟩ := hwithin rfl
    let g : Feed := ⟨f.hub.setSession id { f.hub.session id with receivedNs }, f.client⟩
    have hsession : g.hub.session id = { f.hub.session id with receivedNs } := by
      show (f.hub.setSession id _).session id = _
      rw [LiveHub.setSession_session, if_pos rfl]
    have hcounted : g.Sees id := sees_setSession hsees (fun hopen => hopen) rfl rfl
    have hnotice : ∀ code text,
        (Feed.mk (g.hub.offer id nowNs [.error code text]) g.client).Sees id :=
      fun _ _ => sees_offer_notice (f := g) hs hcounted fun _ => rfl
    dsimp only
    rw [if_neg (not_not.mpr rfl)]
    cases frame with
    | subscribe tickers =>
        have htells : g.TellsAll id tickers ↔ f.TellsAll id tickers := by
          rw [TellsAll, TellsAll, LiveHub.subscribeMessages, LiveHub.subscribeMessages, caughtUp,
            hsession]
          rfl
        have hopen : (g.hub.session id).Connected ↔ (f.hub.session id).Connected := by
          rw [hsession]
          rfl
        refine (sees_subscribe_iff (f := g) hs hcounted tickers nowNs).trans ?_
        rw [hopen, htells]
        constructor
        · exact fun htells hopen _ => htells hopen
        · intro htells hopen
          refine htells hopen ?_
          rw [h]
    | malformed text => exact iff_of_true (hnotice _ _) trivial
    | invalid text => exact iff_of_true (hnotice _ _) trivial
    | unknownOp opRepr => exact iff_of_true (hnotice _ _) trivial

/-- A bus message, for the client of an attached session. -/
theorem sees_receive (ho : f.Orderly) (hin : id ∈ f.hub.sessions.keys) (hsees : f.Sees id)
    {envelope : BusEnvelope} (hkeeps : f.hub.live.KeepsLevels envelope)
    (nowNs : SessionId → Int) :
    (Feed.mk (f.hub.receive nowNs (some envelope)) f.client).Sees id := by
  let h := f.hub.observed envelope
  let observation := (f.hub.live.observe envelope).2
  have hlive : h.live = (f.hub.live.observe envelope).1 := LiveHub.updateDirectory_live _ _
  have hfollowers : h.followers = f.hub.followers := LiveHub.updateDirectory_followers _ _
  have hsession : h.session = f.hub.session := LiveHub.updateDirectory_session _ _
  have hs : h.Sane := by
    rw [LiveHub.Sane, hlive]
    exact f.hub.live.inv_observe ho.sane envelope
  have hafter : (f.hub.receive nowNs (some envelope)).live = h.live :=
    (h.offerAll_spec nowNs (h.outbox observation envelope.event)).live
  have hoffered : (f.hub.receive nowNs (some envelope)).session id =
      (f.hub.session id).offer h.snapshot (nowNs id)
        ((h.outbox observation envelope.event).getD id []) := by
    rw [← hsession]
    exact h.offerAll_session nowNs _ id
  intro hopen
  rw [caughtUp]
  dsimp only at hopen ⊢
  rw [hoffered] at hopen
  rw [hoffered, ClientSession.offer_subscriptions, Client.shows_congr hafter]
  have hbefore := ClientSession.connected_of_offer hopen
  obtain ⟨happlicable, hbooks⟩ := hsees hbefore
  refine Client.shows_offer hs happlicable hbefore (fun _ => ?_) hopen.1
  have hknows : (f.caughtUp id).Knows f.hub.live.books h.followers id := by
    refine ⟨happlicable, fun t hfollows => hbooks t ?_⟩
    rw [hfollowers, ho.indexed.followers] at hfollows
    exact hfollows.2
  have htold := Client.knows_observed ho.sane hlive hs hknows hkeeps
  rw [← LiveHub.getD_outbox] at htold
  refine ⟨htold.applicable, fun t ht => htold.books t ?_⟩
  rw [hfollowers, ho.indexed.followers]
  exact ⟨hin, ht⟩

/-- A message that leaves the queue and is processed makes no difference to a
client that would process all. -/
theorem sees_take (hopened : id < f.hub.opened) (hsees : f.Sees id) :
    (f.step (.take id)).Sees id := by
  have hsession : (f.hub.step (.take id)).session id = (f.hub.session id).take := by
    have hguard : ¬ (HubAct.take id).caller.any (· ≥ f.hub.opened) = true := by
      simpa [HubAct.caller] using hopened
    rw [LiveHub.step.eq_def, if_neg hguard]
    exact (LiveHub.setSession_session _ _ _ _).trans (if_pos rfl)
  have hclient : (f.step (.take id)).client id =
      (f.client id).receiveAll ((f.hub.session id).queue.take 1) :=
    (congrFun (if_neg (not_le.mpr hopened)) id).trans (Function.update_self _ _ _)
  have hall : (f.step (.take id)).caughtUp id = f.caughtUp id := by
    show ((f.step (.take id)).client id).receiveAll ((f.hub.step (.take id)).session id).queue = _
    have hsplit : (f.hub.session id).queue.take 1 ++ (f.hub.session id).queue.tail =
        (f.hub.session id).queue := by
      rw [← List.drop_one]
      exact List.take_append_drop 1 _
    rw [hclient, hsession, ← Client.receiveAll_append, caughtUp]
    exact congrArg _ hsplit
  have hlive : (f.hub.step (.take id)).live = f.hub.live := f.hub.step_live _
  rw [Sees, hall]
  show ((f.hub.step (.take id)).session id).Connected →
    (f.caughtUp id).Shows (f.hub.step (.take id)) ((f.hub.step (.take id)).session id).subscriptions
  rw [hsession, Client.shows_congr hlive]
  exact hsees

/-- One session's client sees what it should, and nothing happened to the others. -/
theorem converged_iff_of_caller {g : Feed} (hc : f.Converged)
    (hkeys : g.hub.sessions = f.hub.sessions) (hlive : g.hub.live = f.hub.live)
    (hin : id ∈ f.hub.sessions.keys)
    (hsession : ∀ j, j ≠ id → g.hub.session j = f.hub.session j)
    (hclient : ∀ j, j ≠ id → g.client j = f.client j) : g.Converged ↔ g.Sees id := by
  rw [Converged, hkeys]
  constructor
  · exact fun hall => hall id hin
  · intro hsees j hj
    by_cases hid : j = id
    · rw [hid]
      exact hsees
    · exact (hc j hj).of_same hlive (hsession j hid) (hclient j hid)

/-- A new session follows nothing. -/
theorem converged_admitSession (ho : f.Orderly) (hc : f.Converged) (nowNs : Int) :
    (Feed.mk (f.hub.admitSession nowNs) f.client).Converged := by
  rw [LiveHub.admitSession]
  split
  · exact hc
  · dsimp only
    let g : Feed := ⟨{ f.hub with
      sessions := f.hub.sessions.set f.hub.opened (), opened := f.hub.opened + 1 }, f.client⟩
    obtain ⟨hqueue, hclient⟩ := ho.blank f.hub.opened (le_refl _)
    have hnew : g.Sees f.hub.opened := by
      intro _
      show (g.caughtUp f.hub.opened).Shows g.hub (f.hub.session f.hub.opened).subscriptions
      have hcaught : g.caughtUp f.hub.opened = Client.new := by
        show (f.client f.hub.opened).receiveAll (f.hub.session f.hub.opened).queue = _
        rw [hqueue, hclient, Client.receiveAll_nil]
      rw [ho.numbered.unopened _ (le_refl _), hcaught]
      exact ⟨rfl, by rintro _ ⟨⟩⟩
    intro id hin
    by_cases hid : id = f.hub.opened
    · rw [hid]
      exact sees_offer_notice (f := g) ho.sane hnew fun _ => rfl
    · have hold : id ∈ f.hub.sessions.keys := (Dict.mem_keys_set.mp hin).resolve_left hid
      exact (hc id hold).of_same rfl ((LiveHub.offer_session _ _ _ _ _).trans (if_neg hid)) rfl

/-- The session that a call is made on was admitted. -/
theorem not_ignored {h : LiveHub} (act : HubAct) (hcaller : act.caller = some id)
    (hid : id < h.opened) :
    ¬ act.caller.any (· ≥ h.opened) = true := by
  rw [hcaller]
  simpa using hid

/-- A call on one session leaves the others alone. -/
theorem step_session_of_ne {j : SessionId} (hact : act = .take id ∨ act = .lose id) (hj : j ≠ id) :
    (f.hub.step act).session j = f.hub.session j := by
  rw [LiveHub.step.eq_def]
  split
  · rfl
  · rcases hact with rfl | rfl
    · exact (LiveHub.setSession_session _ _ _ _).trans (if_neg hj)
    · exact (LiveHub.setSession_session _ _ _ _).trans (if_neg hj)

/-- From a state in which all see what they should, an act leads to such a state
exactly when a subscribe tells all. -/
theorem converged_step_iff (ho : f.Orderly) (hc : f.Converged) (ha : f.hub.Attached act)
    (hkeeps : f.KeepsLevels act) : (f.step act).Converged ↔ f.Heeds act := by
  cases act with
  | receive message nowNs =>
      refine iff_of_true (fun id hin => ?_) trivial
      have hin' : id ∈ (f.hub.receive nowNs message).sessions.keys := hin
      rw [(f.hub.sameIndex_receive nowNs message).sessions] at hin'
      cases message with
      | none => exact (hc id hin').of_same rfl rfl rfl
      | some envelope =>
          exact sees_receive ho hin' (hc id hin') (hkeeps envelope List.mem_cons_self) nowNs
  | admitSession nowNs => exact iff_of_true (converged_admitSession ho hc nowNs) trivial
  | detach id =>
      refine iff_of_true (fun j hj => ?_) trivial
      have hj' : j ∈ (f.hub.step (.detach id)).sessions.keys := hj
      have hsame : (f.hub.step (.detach id)).session = f.hub.session ∧
          j ∈ f.hub.sessions.keys := by
        rw [LiveHub.step.eq_def] at hj' ⊢
        split at hj'
        · next hignored => exact ⟨by rw [if_pos hignored], hj'⟩
        · next hcalled =>
            exact ⟨by rw [if_neg hcalled]; rfl, (Dict.mem_keys_erase.mp hj').1⟩
      exact (hc j hsame.2).of_same (f.hub.step_live _) (congrFun hsame.1 j) rfl
  | closeSessions code =>
      refine iff_of_true ?_ trivial
      obtain ⟨-, hsessions, -, -, -, hsession⟩ := f.hub.closeSessions_spec code
      intro id hin
      have hin' : id ∈ (f.hub.closeSessions code).sessions.keys := hin
      rw [hsessions] at hin'
      refine sees_of_not_connected ?_
      show ¬ ((f.hub.closeSessions code).session id).Connected
      rw [hsession, if_pos hin']
      exact ClientSession.not_connected_close _ _
  | subscribe id tickers nowNs =>
      have hcalled := not_ignored (.subscribe id tickers nowNs) rfl
        (ho.numbered.attached id ha)
      have hstep : f.step (.subscribe id tickers nowNs) =
          Feed.mk (f.hub.subscribe id tickers nowNs) f.client :=
        congrArg (Feed.mk · f.client) (if_neg hcalled)
      have hothers : ∀ j, j ≠ id →
          (f.hub.subscribe id tickers nowNs).session j = f.hub.session j := by
        intro j hj
        rw [LiveHub.subscribe, LiveHub.offer_session, if_neg hj, LiveHub.resubscribe,
          LiveHub.setSession_session, if_neg hj]
      let g : Feed := ⟨f.hub.subscribe id tickers nowNs, f.client⟩
      have hcaller : g.Converged ↔ g.Sees id :=
        converged_iff_of_caller hc rfl rfl ha hothers fun _ _ => rfl
      rw [hstep]
      exact hcaller.trans (sees_subscribe_iff ho.sane (hc id ha) tickers nowNs)
  | handle id size nowNs frame =>
      have hcalled := not_ignored (.handle id size nowNs frame) rfl
        (ho.numbered.attached id ha)
      have hstep : f.step (.handle id size nowNs frame) =
          Feed.mk (f.hub.handle id size nowNs frame) f.client :=
        congrArg (Feed.mk · f.client) (if_neg hcalled)
      obtain ⟨hsessions, hlive, hothers⟩ := f.hub.handle_other id size nowNs frame
      let g : Feed := ⟨f.hub.handle id size nowNs frame, f.client⟩
      have hcaller : g.Converged ↔ g.Sees id :=
        converged_iff_of_caller hc hsessions hlive ha hothers fun _ _ => rfl
      rw [hstep]
      exact hcaller.trans (sees_handle_iff ho.sane (hc id ha) size nowNs frame)
  | take id =>
      refine iff_of_true (fun j hj => ?_) trivial
      have hj' : j ∈ f.hub.sessions.keys := by
        have hsessions : (f.hub.step (.take id)).sessions = f.hub.sessions := by
          rw [LiveHub.step.eq_def]
          split
          · rfl
          · rfl
        rw [← hsessions]
        exact hj
      by_cases hid : j = id
      · subst hid
        exact sees_take (ho.numbered.attached j hj') (hc j hj')
      · have hne : HubAct.take id ≠ .take j := by
          rintro ⟨⟩
          exact hid rfl
        exact (hc j hj').of_same (f.hub.step_live _) (step_session_of_ne (.inl rfl) hid)
          (step_client_of_ne hne)
  | lose id =>
      refine iff_of_true (fun j hj => ?_) trivial
      have hj' : j ∈ f.hub.sessions.keys := by
        have hsessions : (f.hub.step (.lose id)).sessions = f.hub.sessions := by
          rw [LiveHub.step.eq_def]
          split
          · rfl
          · rfl
        rw [← hsessions]
        exact hj
      by_cases hid : j = id
      · subst hid
        refine sees_of_not_connected fun hopen => ?_
        have hcalled := not_ignored (.lose j) rfl (ho.numbered.attached j hj')
        have hgone : (f.hub.step (.lose j)).session j = (f.hub.session j).lose := by
          rw [LiveHub.step.eq_def, if_neg hcalled]
          exact (LiveHub.setSession_session _ _ _ _).trans (if_pos rfl)
        have hopen' : ((f.hub.step (.lose j)).session j).Connected := hopen
        rw [hgone] at hopen'
        cases hopen'.2
      · exact (hc j hj').of_same (f.hub.step_live _) (step_session_of_ne (.inr rfl) hid) rfl

/-! ## Runs -/

/-- The copies after a run are those after the bus messages it brought. -/
theorem final_live (f : Feed) (acts : List HubAct) :
    (Run.final step f acts).hub.live =
      (f.hub.live.observeAll (acts.flatMap HubAct.heard)).1 := by
  induction acts generalizing f with
  | nil => rfl
  | cons act rest ih =>
      have hlive : (f.step act).hub.live = (f.hub.live.observeAll act.heard).1 :=
        f.hub.step_live act
      rw [Run.final_cons, ih, hlive, List.flatMap_cons]
      cases hheard : act.heard with
      | nil => rfl
      | cons m others =>
          obtain rfl : others = [] := act.heard_tail hheard
          rfl

/-- In a run that hears some of what a publisher sends, every refresh of a copy
keeps its levels. -/
theorem along_keepsLevels {start : Nat} {ops : List PublisherOp}
    (hnew : (epochsOf start ops).Nodup) (hreopens : ReopensAll start ops) (config : ServeConfig)
    {acts : List HubAct}
    (hheard : (acts.flatMap HubAct.heard).Sublist ((Publisher.new start).sent ops)) :
    Run.Along step KeepsLevels (new config) acts := by
  induction acts using List.reverseRecOn with
  | nil => trivial
  | append_singleton acts act ih =>
      rw [List.flatMap_append, List.flatMap_singleton] at hheard
      rw [Run.along_append]
      refine ⟨ih ((List.sublist_append_left _ _).trans hheard), fun m hm => ?_, trivial⟩
      have hone : act.heard = [m] := by
        obtain ⟨first, rest, hfirst⟩ := List.exists_cons_of_ne_nil (List.ne_nil_of_mem hm)
        obtain rfl := act.heard_tail hfirst
        rw [hfirst] at hm ⊢
        rw [List.mem_singleton.mp hm]
      rw [hone] at hheard
      rw [final_live]
      exact keepsLevels_of_sublist hnew hreopens hheard

/-- In every run in which the hub hears some of what a publisher sends, and only
attached sessions subscribe, all clients converge in every state exactly when
every subscribe tells all. -/
theorem clients_converge_iff {start : Nat} {ops : List PublisherOp}
    (hnew : (epochsOf start ops).Nodup) (hreopens : ReopensAll start ops) (config : ServeConfig)
    (acts : List HubAct)
    (hheard : (acts.flatMap HubAct.heard).Sublist ((Publisher.new start).sent ops))
    (ha : Run.Along step (fun f act => f.hub.Attached act) (new config) acts) :
    Run.Throughout step Converged (new config) acts ↔
      Run.Along step Heeds (new config) acts :=
  Run.throughout_iff_along (I := Orderly)
    (L := fun f act => f.hub.Attached act ∧ f.KeepsLevels act)
    (fun _ _ ho hL => ho.step hL.1) (fun _ _ ho hc hL => converged_step_iff ho hc hL.1 hL.2)
    (orderly_new config) nofun (ha.and (along_keepsLevels hnew hreopens config hheard))

/-- One market: its catalog, its snapshot, its image, and a delta. -/
def oneMarket : List PublisherOp :=
  [.announce ⟨.catalog ⟨[⟨"M"⟩]⟩, rfl⟩, .book (.snapshot busSnapshot), .refresh "M" busReceipt,
    .book (.delta busDelta)]

theorem oneMarket_reopens : ReopensAll 1 oneMarket := by
  intro pre o post hops
  cases o with
  | book e =>
      cases e with
      | snapshot e =>
          rintro ⟨tickers, hin, -⟩ -
          have hrelease : PublisherOp.release tickers ∈ oneMarket := by
            rw [hops]
            exact List.mem_append_left _ hin
          simp [oneMarket] at hrelease
      | delta e => trivial
  | _ => trivial

/-- A viewer that hears all but the snapshot, processes the reply to its first
subscribe, and subscribes again. -/
def heeded : List HubAct :=
  [.receive (some ⟨1, 1, .catalog ⟨[⟨"M"⟩]⟩⟩) fun _ => 0,
    .receive (some ⟨1, 3, busImage⟩) fun _ => 0, .admitSession 0,
    .subscribe 0 ["M"] 0, .take 0, .take 0,
    .receive (some ⟨1, 4, .book (.delta busDelta)⟩) fun _ => 0, .subscribe 0 ["M"] 0]

/-- The second subscribe finds a client that was told that it follows the market. -/
theorem heeded_heeds : Run.Along step Heeds (new (serveConfig LiveHub.tightest)) heeded := by
  refine ⟨trivial, trivial, trivial, fun _ => ?_, trivial, trivial, trivial, fun _ => ?_, trivial⟩
  · decide +kernel
  · decide +kernel

theorem clients_converge_heeded :
    Run.Throughout step Converged (new (serveConfig LiveHub.tightest)) heeded :=
  (clients_converge_iff (by decide) oneMarket_reopens _ heeded (by decide +kernel)
    (by decide +kernel)).mpr heeded_heeds

/-! ## A reply that is never sent -/

/-- A viewer subscribes again and again while nothing is sent, until a delta no
longer fits; then once more. -/
def overflows : List HubAct :=
  [.receive (some ⟨1, 1, .catalog ⟨[⟨"M"⟩]⟩⟩) fun _ => 0,
    .receive (some ⟨1, 3, busImage⟩) fun _ => 0, .admitSession 0] ++
    List.replicate 98 (.subscribe 0 ["M"] 0) ++
    [.receive (some ⟨1, 4, .book (.delta busDelta)⟩) fun _ => 0, .subscribe 0 ["M"] 0]

set_option maxRecDepth 20000 in
theorem overflow_not_converged :
    (epochsOf 1 oneMarket).Nodup ∧
      (overflows.flatMap HubAct.heard).Sublist ((Publisher.new 1).sent oneMarket) ∧
      Run.Along step (fun f act => f.hub.Attached act) (new (serveConfig LiveHub.tightest))
        overflows ∧
      ¬ Run.Throughout step Converged (new (serveConfig LiveHub.tightest)) overflows := by
  refine ⟨by decide, by decide +kernel, by decide +kernel, fun hrun => ?_⟩
  have hlast := hrun.last 0 (by decide +kernel) (by decide +kernel)
  have hbook := hlast.books "M" (by decide +kernel)
  have hnone : ((Run.final step (new (serveConfig LiveHub.tightest)) overflows).caughtUp 0).book
      "M" = none := by decide +kernel
  have hview : ((Run.final step (new (serveConfig LiveHub.tightest)) overflows).hub.view
      "M").isSome = true := by decide +kernel
  rw [← hbook, hnone] at hview
  cases hview

/-! ## A market that is opened again by no book -/

/-- The market is let go, and opened again by an image that is crossed. -/
def reopened : List PublisherOp :=
  [.announce ⟨.catalog ⟨[⟨"M"⟩]⟩, rfl⟩, .book (.snapshot busSnapshot), .refresh "M" busReceipt,
    .release {"M"}, .book (.snapshot { busSnapshot with asks := [⟨4000, 50⟩] }),
    .refresh "M" busReceipt]

/-- The image that is published for a book that could not be opened. -/
def emptyImage : BusEvent := .refresh ⟨"M", none, busReceipt, true, [], []⟩

/-- A viewer follows the market while it is let go and opened again. -/
def followsReopened : List HubAct :=
  [.receive (some ⟨1, 1, .catalog ⟨[⟨"M"⟩]⟩⟩) fun _ => 0,
    .receive (some ⟨1, 3, busImage⟩) fun _ => 0, .admitSession 0,
    .subscribe 0 ["M"] 0, .receive (some ⟨1, 4, emptyImage⟩) fun _ => 0]

/-- The client is told that its levels are stale, and the hub holds none. -/
theorem reopened_not_converged :
    (followsReopened.flatMap HubAct.heard).Sublist ((Publisher.new 1).sent reopened) ∧
      ¬ Run.Throughout step Converged (new (serveConfig LiveHub.tightest)) followsReopened := by
  refine ⟨by decide +kernel, fun hrun => ?_⟩
  have hlast := hrun.last 0 (by decide +kernel) (by decide +kernel)
  have hbook := hlast.books "M" (by decide +kernel)
  have hclient : (((Run.final step (new (serveConfig LiveHub.tightest)) followsReopened).caughtUp
      0).book "M").map (fun b => b.depth .bid 4000) = some 100 := by decide +kernel
  have hview : ((Run.final step (new (serveConfig LiveHub.tightest)) followsReopened).hub.view
      "M").map (fun b => b.depth .bid 4000) = some 0 := by decide +kernel
  rw [hbook, hview] at hclient
  cases hclient

end Feed

end Tape.Api
