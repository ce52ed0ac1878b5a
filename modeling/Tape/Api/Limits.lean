import Tape.Api.FanOut
import Tape.Window

/-!
# Why a session is closed

What the hub does to a session is a list of calls on it (`calls`), and a
session's life is the calls of a whole run. A session is closed by the first
call that gives cause, and then for good: the server goes away, the client's
message is too large or the eleventh within a second, or an offer does not fit
for the third time within a minute.

The session keeps two short logs of moments for this, and cuts them down at
each new one. The causes are stated over the whole life instead, from which
nothing is dropped: the logs are windows over it (`Policed`), as long as the
clock does not go back.
-/

namespace Tape.Api

open Run Window

/-- A call on a session, with the clock's reading if it may read the clock. -/
inductive SessionAct where
  | replaceSubscriptions (tickers : List Ticker)
  | offer (snapshot : Ticker → Option ServerMessage) (nowNs : Int)
      (messages : List ServerMessage)
  | close (code : Nat)
  | withinLimits (size : Nat) (nowNs : Int)
  | take
  | lose

namespace SessionAct

/-- The clock a call is made with. -/
def reading : SessionAct → List Int
  | .offer _ nowNs _ => [nowNs]
  | .withinLimits _ nowNs => [nowNs]
  | _ => []

/-- When a client's message came. -/
def frameTime : SessionAct → List Int
  | .withinLimits _ nowNs => [nowNs]
  | _ => []

end SessionAct

/-- The clock does not go back. -/
def InOrder (life : List SessionAct) : Prop := (life.flatMap SessionAct.reading).Pairwise (· ≤ ·)

/-- The clock of every frame of a life. -/
def framesOf (life : List SessionAct) : List Int := life.flatMap SessionAct.frameTime

namespace ClientSession

/-- One call of a session. -/
def act (s : ClientSession) : SessionAct → ClientSession
  | .replaceSubscriptions tickers => s.replaceSubscriptions tickers
  | .offer snapshot nowNs messages => s.offer snapshot nowNs messages
  | .close code => s.close code
  | .withinLimits size nowNs => (s.withinLimits size nowNs).1
  | .take => s.take
  | .lose => s.lose

/-- Messages offered to an open session do not fit. -/
def Overflows (s : ClientSession) (messages : List ServerMessage) : Prop :=
  (s.closeCode = none ∧ s.gone = false ∧ messages ≠ []) ∧
    s.queueMax < s.queue.length + messages.length

instance (s : ClientSession) (messages : List ServerMessage) : Decidable (s.Overflows messages) :=
  inferInstanceAs (Decidable (_ ∧ _))

/-- When an offer did not fit. -/
def lagTime (s : ClientSession) : SessionAct → List Int
  | .offer _ nowNs messages => if s.Overflows messages then [nowNs] else []
  | _ => []

/-- The clock of every lag of a life. -/
def lagsOf : ClientSession → List SessionAct → List Int
  | _, [] => []
  | s, a :: rest => s.lagTime a ++ lagsOf (s.act a) rest

/-- A call closes an open session with a code, by the moments of its whole life. -/
def Cause (s : ClientSession) (frames lags : List Int) : SessionAct → Nat → Prop
  | .close code', code => code = code'
  | .withinLimits size nowNs, code =>
      code = closePolicyViolation ∧ (maxClientMessageBytes < size ∨
        maxClientMessagesPerS < (recent nsPerS nowNs (frames ++ [nowNs])).length)
  | .offer _ nowNs messages, code =>
      code = closeTooSlow ∧ s.Overflows messages ∧
        lagLimit ≤ (recent (lagWindowS * nsPerS) nowNs (lags ++ [nowNs])).length
  | _, _ => False

variable {s : ClientSession} {a : SessionAct} {frames lags : List Int} {code : Nat}

theorem lagsOf_append (s : ClientSession) (before after : List SessionAct) :
    s.lagsOf (before ++ after) = s.lagsOf before ++ (final act s before).lagsOf after := by
  induction before generalizing s with
  | nil => rfl
  | cons a before ih =>
      rw [List.cons_append, lagsOf, lagsOf, ih, List.append_assoc]
      rfl

theorem lagsOf_subset (s : ClientSession) (life : List SessionAct) :
    ∀ t ∈ s.lagsOf life, t ∈ life.flatMap SessionAct.reading := by
  induction life generalizing s with
  | nil => exact fun t ht => ht
  | cons a life ih =>
      intro t ht
      rw [List.flatMap_cons]
      rw [lagsOf] at ht
      refine List.mem_append.mpr ((List.mem_append.mp ht).imp (fun hfirst => ?_) (ih _ t))
      cases a with
      | offer snapshot nowNs messages =>
          rw [lagTime] at hfirst
          split at hfirst
          · exact hfirst
          · cases hfirst
      | _ => cases hfirst

theorem framesOf_subset (life : List SessionAct) :
    ∀ t ∈ framesOf life, t ∈ life.flatMap SessionAct.reading := by
  intro t ht
  obtain ⟨a, ha, hframe⟩ := List.mem_flatMap.mp ht
  refine List.mem_flatMap.mpr ⟨a, ha, ?_⟩
  cases a with
  | withinLimits size nowNs => exact hframe
  | _ => cases hframe

/-! ## What each call does to the logs and the code -/

theorem offer_of_fits (snapshot : Ticker → Option ServerMessage) (nowNs : Int)
    {messages : List ServerMessage} (h : ¬ s.Overflows messages) :
    ∃ queue, s.offer snapshot nowNs messages = { s with queue } := by
  rw [offer]
  split
  · exact ⟨s.queue, rfl⟩
  · next hopen =>
      push Not at hopen
      split
      · exact ⟨_, rfl⟩
      · next hover =>
          exact absurd ⟨⟨hopen.1, Bool.eq_false_iff.mpr hopen.2.1, hopen.2.2⟩,
            not_le.mp hover⟩ h

theorem offer_of_overflows (snapshot : Ticker → Option ServerMessage) (nowNs : Int)
    {messages : List ServerMessage} (h : s.Overflows messages) :
    s.offer snapshot nowNs messages =
      s.lag snapshot nowNs (messages.filter ServerMessage.isReply) := by
  obtain ⟨⟨hcode, hgone, hsome⟩, hover⟩ := h
  rw [offer, if_neg, if_neg (not_le.mpr hover)]
  rintro (hclosed | hlost | hnone)
  · exact hclosed hcode
  · rw [hgone] at hlost
    cases hlost
  · exact hsome hnone

theorem recentLags_eq (s : ClientSession) (nowNs : Int) :
    s.recentLags nowNs = push (lagWindowS * nsPerS) nowNs s.lagsNs := rfl

theorem close_logs (s : ClientSession) (code : Nat) :
    (s.close code).receivedNs = s.receivedNs ∧ (s.close code).lagsNs = s.lagsNs := by
  rw [close]
  split
  · exact ⟨rfl, rfl⟩
  · exact ⟨rfl, rfl⟩

theorem close_code_iff {code' : Nat} (h : s.closeCode = none) :
    (s.close code').closeCode = some code ↔ code = code' := by
  rw [close, h]
  exact Option.some_inj.trans eq_comm

theorem lag_logs (snapshot : Ticker → Option ServerMessage) (nowNs : Int)
    (replies : List ServerMessage) :
    (s.lag snapshot nowNs replies).receivedNs = s.receivedNs ∧
      (s.lag snapshot nowNs replies).lagsNs = push (lagWindowS * nsPerS) nowNs s.lagsNs := by
  rw [lag, recentLags_eq]
  split
  · exact close_logs _ _
  · exact ⟨rfl, rfl⟩

theorem withinLimits_logs (s : ClientSession) (size : Nat) (nowNs : Int) :
    (s.withinLimits size nowNs).1.receivedNs = push nsPerS nowNs s.receivedNs ∧
      (s.withinLimits size nowNs).1.lagsNs = s.lagsNs := by
  rw [withinLimits]
  dsimp only
  split
  · exact close_logs _ _
  · exact ⟨rfl, rfl⟩

/-- The logs answer for a whole life. -/
structure Policed (s : ClientSession) (frames lags : List Int) : Prop where
  received : Keeps nsPerS s.receivedNs frames
  lagged : Keeps (lagWindowS * nsPerS) s.lagsNs lags

theorem policed_new (queueMax : Nat) : Policed { queueMax := queueMax } [] [] where
  received := keeps_nil _
  lagged := keeps_nil _

theorem Policed.of_logs (hp : s.Policed frames lags) {s' : ClientSession}
    (hreceived : s'.receivedNs = s.receivedNs) (hlags : s'.lagsNs = s.lagsNs) :
    s'.Policed (frames ++ []) (lags ++ []) := by
  rw [List.append_nil, List.append_nil]
  constructor
  · rw [hreceived]
    exact hp.received
  · rw [hlags]
    exact hp.lagged

theorem Policed.act (hp : s.Policed frames lags)
    (hframes : ∀ now ∈ a.reading, ∀ t ∈ frames, t ≤ now)
    (hlags : ∀ now ∈ a.reading, ∀ t ∈ lags, t ≤ now) :
    (s.act a).Policed (frames ++ a.frameTime) (lags ++ s.lagTime a) := by
  cases a with
  | replaceSubscriptions tickers => exact hp.of_logs rfl rfl
  | take => exact hp.of_logs rfl rfl
  | lose => exact hp.of_logs rfl rfl
  | close code => exact hp.of_logs (s.close_logs code).1 (s.close_logs code).2
  | withinLimits size nowNs =>
      obtain ⟨hreceived, hlagged⟩ := s.withinLimits_logs size nowNs
      have hnow : ∀ t ∈ frames, t ≤ nowNs := hframes nowNs (List.mem_singleton.mpr rfl)
      show Policed (s.withinLimits size nowNs).1 (frames ++ [nowNs]) (lags ++ [])
      rw [List.append_nil]
      constructor
      · rw [hreceived]
        exact hp.received.push hnow
      · rw [hlagged]
        exact hp.lagged
  | offer snapshot nowNs messages =>
      have hnow : ∀ t ∈ lags, t ≤ nowNs := hlags nowNs (List.mem_singleton.mpr rfl)
      show Policed (s.offer snapshot nowNs messages) (frames ++ [])
        (lags ++ if s.Overflows messages then [nowNs] else [])
      by_cases hover : s.Overflows messages
      · obtain ⟨hreceived, hlagged⟩ :=
          s.lag_logs snapshot nowNs (messages.filter ServerMessage.isReply)
        rw [if_pos hover, offer_of_overflows snapshot nowNs hover, List.append_nil]
        constructor
        · rw [hreceived]
          exact hp.received
        · rw [hlagged]
          exact hp.lagged.push hnow
      · obtain ⟨queue, hqueue⟩ := s.offer_of_fits snapshot nowNs hover
        rw [if_neg hover, hqueue]
        exact hp.of_logs rfl rfl

/-- A closed session stays closed, and with its code. -/
theorem closeCode_act (h : s.closeCode = some code) : (s.act a).closeCode = some code := by
  have hclose : ∀ (s : ClientSession) (code' : Nat), s.closeCode = some code →
      (s.close code').closeCode = some code := by
    intro s code' h
    rw [close, h]
    exact h
  cases a with
  | replaceSubscriptions tickers => exact h
  | take => exact h
  | lose => exact h
  | close code' => exact hclose s code' h
  | withinLimits size nowNs =>
      show (s.withinLimits size nowNs).1.closeCode = some code
      rw [withinLimits]
      dsimp only
      split
      · exact hclose _ _ h
      · exact h
  | offer snapshot nowNs messages =>
      have hfits : ¬ s.Overflows messages := fun hover => by
        rw [hover.1.1] at h
        cases h
      obtain ⟨queue, hqueue⟩ := s.offer_of_fits snapshot nowNs hfits
      show (s.offer snapshot nowNs messages).closeCode = some code
      rw [hqueue]
      exact h

/-- A call closes an open session exactly if it gives cause. -/
theorem closeCode_act_iff (hp : s.Policed frames lags) (hopen : s.closeCode = none)
    (hframes : ∀ now ∈ a.reading, ∀ t ∈ frames, t ≤ now)
    (hlags : ∀ now ∈ a.reading, ∀ t ∈ lags, t ≤ now) :
    (s.act a).closeCode = some code ↔ s.Cause frames lags a code := by
  have hnot : s.closeCode ≠ some code := by
    rw [hopen]
    nofun
  cases a with
  | replaceSubscriptions tickers => exact iff_of_false hnot id
  | take => exact iff_of_false hnot id
  | lose => exact iff_of_false hnot id
  | close code' => exact close_code_iff hopen
  | withinLimits size nowNs =>
      have hlog := hp.received.push_eq (hframes nowNs (List.mem_singleton.mpr rfl))
      show (s.withinLimits size nowNs).1.closeCode = some code ↔ _ ∧ _
      rw [withinLimits, ← hlog]
      dsimp only
      split
      · next hbroken =>
          refine (close_code_iff ?_).trans (and_iff_left hbroken).symm
          exact hopen
      · next hkept => exact iff_of_false hnot fun hcause => hkept hcause.2
  | offer snapshot nowNs messages =>
      have hlog := hp.lagged.push_eq (hlags nowNs (List.mem_singleton.mpr rfl))
      show (s.offer snapshot nowNs messages).closeCode = some code ↔ _ ∧ _ ∧ _
      by_cases hover : s.Overflows messages
      · rw [offer_of_overflows snapshot nowNs hover, lag, recentLags_eq, hlog]
        split
        · next hthird =>
            refine (close_code_iff ?_).trans (and_iff_left ⟨hover, hthird⟩).symm
            exact hopen
        · next hkept => exact iff_of_false hnot fun hcause => hkept hcause.2.2
      · obtain ⟨queue, hqueue⟩ := s.offer_of_fits snapshot nowNs hover
        rw [hqueue]
        exact iff_of_false hnot fun hcause => hover hcause.2.1

/-! ## A whole life -/

theorem inOrder_concat {life : List SessionAct} (h : InOrder (life ++ [a])) :
    InOrder life ∧ ∀ now ∈ a.reading, ∀ t ∈ life.flatMap SessionAct.reading, t ≤ now := by
  rw [InOrder, List.flatMap_append, List.flatMap_singleton, List.pairwise_append] at h
  exact ⟨h.1, fun now hnow t ht => h.2.2 t ht now hnow⟩

theorem policed_life (queueMax : Nat) {life : List SessionAct} (h : InOrder life) :
    (final act { queueMax := queueMax } life).Policed (framesOf life)
      (lagsOf { queueMax := queueMax } life) := by
  induction life using List.reverseRecOn with
  | nil => exact policed_new queueMax
  | append_singleton life a ih =>
      obtain ⟨hlife, hnow⟩ := inOrder_concat h
      have hp := (ih hlife).act (fun now ha t ht => hnow now ha t (framesOf_subset life t ht))
        fun now ha t ht => hnow now ha t (lagsOf_subset _ life t ht)
      rw [final_append, lagsOf_append, framesOf, List.flatMap_append, List.flatMap_singleton,
        lagsOf, lagsOf, List.append_nil]
      exact hp

/-- A session is closed with a code exactly if its first cause is one for the code. -/
theorem closed_iff (queueMax : Nat) {life : List SessionAct} (h : InOrder life) (code : Nat) :
    (final act { queueMax := queueMax } life).closeCode = some code ↔
      ∃ before a after, life = before ++ a :: after ∧
        (final act { queueMax := queueMax } before).closeCode = none ∧
        (final act { queueMax := queueMax } before).Cause (framesOf before)
          (lagsOf { queueMax := queueMax } before) a code := by
  induction life using List.reverseRecOn with
  | nil =>
      refine iff_of_false nofun ?_
      rintro ⟨before, a, after, hnil, -⟩
      exact List.append_ne_nil_of_right_ne_nil _ (List.cons_ne_nil a after) hnil.symm
  | append_singleton life last ih =>
      obtain ⟨hlife, hnow⟩ := inOrder_concat h
      have hlast := fun hopen => @closeCode_act_iff _ last _ _ code (policed_life queueMax hlife)
        hopen (fun now ha t ht => hnow now ha t (framesOf_subset life t ht))
        fun now ha t ht => hnow now ha t (lagsOf_subset _ life t ht)
      rw [final_append]
      show ((final act { queueMax := queueMax } life).act last).closeCode = some code ↔ _
      constructor
      · intro hclosed
        cases hcode : (final act { queueMax := queueMax } life).closeCode with
        | none => exact ⟨life, last, [], rfl, hcode, (hlast hcode).mp hclosed⟩
        | some earlier =>
            rw [closeCode_act hcode] at hclosed
            obtain ⟨before, a, after, hsplit, hcause⟩ := (ih hlife).mp (hcode.trans hclosed)
            refine ⟨before, a, after ++ [last], ?_, hcause⟩
            rw [hsplit, List.append_assoc, List.cons_append]
      · rintro ⟨before, a, after, hsplit, hopen, hcause⟩
        rcases List.eq_nil_or_concat' after with rfl | ⟨rest, latest, rfl⟩
        · obtain ⟨rfl, hsame⟩ := List.append_inj' hsplit rfl
          obtain rfl := List.singleton_inj.mp hsame
          exact (hlast hopen).mpr hcause
        · rw [← List.cons_append, ← List.append_assoc] at hsplit
          obtain ⟨hrest, -⟩ := List.append_inj' hsplit rfl
          exact closeCode_act ((ih hlife).mpr ⟨before, a, rest, hrest, hopen, hcause⟩)

end ClientSession

/-! ## The calls of the hub -/

namespace LiveHub

/-- What a subscribe calls on its session. -/
def subscribeCalls (h : LiveHub) (id : SessionId) (tickers : List Ticker) (nowNs : Int) :
    List SessionAct :=
  [.replaceSubscriptions (h.accepts tickers),
    .offer h.snapshot nowNs (h.subscribeMessages id tickers)]

/-- What a client's frame within the limits is answered with. -/
def answerCalls (h : LiveHub) (id : SessionId) (nowNs : Int) : ClientFrame → List SessionAct
  | .subscribe tickers => h.subscribeCalls id tickers nowNs
  | frame => [.offer h.snapshot nowNs frame.complaint.toList]

/-- What a frame calls on its session. -/
def frameCalls (h : LiveHub) (id : SessionId) (size : Nat) (nowNs : Int) (frame : ClientFrame) :
    List SessionAct :=
  .withinLimits size nowNs ::
    if ((h.session id).withinLimits size nowNs).2 then h.answerCalls id nowNs frame else []

/-- What a bus message calls on a session. -/
def busCalls (h : LiveHub) (id : SessionId) (nowNs : SessionId → Int) (envelope : BusEnvelope) :
    List SessionAct :=
  match ((h.observed envelope).outbox (h.live.observe envelope).2 envelope.event).get? id with
  | none => []
  | some messages => [.offer (h.observed envelope).snapshot (nowNs id) messages]

/-- What an act does to one session. -/
def calls (h : LiveHub) (id : SessionId) (act : HubAct) : List SessionAct :=
  if act.caller.any (· ≥ h.opened) then []
  else
    match act with
    | .admitSession nowNs =>
        if h.sessions.size ≥ h.config.maxClients ∨ id ≠ h.opened then []
        else [.offer h.snapshot nowNs [h.hello]]
    | .detach _ => []
    | .closeSessions code => if id ∈ h.sessions.keys then [.close code] else []
    | .subscribe caller tickers nowNs =>
        if id = caller then h.subscribeCalls id tickers nowNs else []
    | .handle caller size nowNs frame =>
        if id = caller then h.frameCalls id size nowNs frame else []
    | .take caller => if id = caller then [.take] else []
    | .lose caller => if id = caller then [.lose] else []
    | .receive none _ => []
    | .receive (some envelope) nowNs => h.busCalls id nowNs envelope

/-- A session as the hub makes it. -/
def newSession (config : ServeConfig) : ClientSession := { queueMax := config.clientQueueMax }

/-- What a run does to one session. -/
def life (id : SessionId) : LiveHub → List HubAct → List SessionAct
  | _, [] => []
  | h, act :: rest => h.calls id act ++ life id (h.step act) rest

variable {h : LiveHub} {id : SessionId}

theorem subscribe_session (h : LiveHub) (caller : SessionId) (tickers : List Ticker)
    (nowNs : Int) (id : SessionId) :
    (h.subscribe caller tickers nowNs).session id =
      if id = caller then
        final ClientSession.act (h.session caller) (h.subscribeCalls caller tickers nowNs)
      else h.session id := by
  rw [subscribe, offer_session]
  by_cases hid : id = caller
  · rw [if_pos hid, if_pos hid, resubscribe, setSession_session, if_pos rfl]
    rfl
  · rw [if_neg hid, if_neg hid, resubscribe, setSession_session, if_neg hid]

theorem handle_session (h : LiveHub) (caller : SessionId) (size : Nat) (nowNs : Int)
    (frame : ClientFrame) (id : SessionId) :
    (h.handle caller size nowNs frame).session id =
      if id = caller then
        final ClientSession.act (h.session caller) (h.frameCalls caller size nowNs frame)
      else h.session id := by
  have hcounted : ∀ j, (h.setSession caller
      ((h.session caller).withinLimits size nowNs).1).session j =
        if j = caller then ((h.session caller).withinLimits size nowNs).1 else h.session j :=
    h.setSession_session caller _
  have hmessages : ∀ tickers, (h.setSession caller
      ((h.session caller).withinLimits size nowNs).1).subscribeMessages caller tickers =
        h.subscribeMessages caller tickers := by
    intro tickers
    rw [subscribeMessages, subscribeMessages, hcounted, if_pos rfl,
      (withinLimits_spec (h.session caller) size nowNs).2.1]
    rfl
  rw [LiveHub.handle.eq_def, frameCalls, final_cons]
  dsimp only
  cases hwithin : ((h.session caller).withinLimits size nowNs).2 with
  | false =>
      rw [if_pos Bool.false_ne_true, hcounted, if_neg Bool.false_ne_true]
      rfl
  | true =>
      rw [if_neg (not_not.mpr rfl), if_pos rfl]
      cases frame with
      | subscribe tickers =>
          show (subscribe _ caller tickers nowNs).session id = _
          rw [subscribe_session, hcounted, hcounted, if_pos rfl, subscribeCalls, hmessages]
          by_cases hid : id = caller
          · rw [if_pos hid, if_pos hid]
            rfl
          · rw [if_neg hid, if_neg hid, if_neg hid]
      | _ =>
          rw [offer_session, hcounted, hcounted, if_pos rfl]
          by_cases hid : id = caller
          · rw [if_pos hid, if_pos hid]
            rfl
          · rw [if_neg hid, if_neg hid, if_neg hid]

/-- The hub does to a session what its calls do. -/
theorem step_session (h : LiveHub) (id : SessionId) (act : HubAct) :
    (h.step act).session id = final ClientSession.act (h.session id) (h.calls id act) := by
  rw [LiveHub.step.eq_def, calls.eq_def]
  split
  · rfl
  · cases act with
    | admitSession nowNs =>
        show (h.admitSession nowNs).session id = _
        dsimp only
        rw [admitSession]
        by_cases hfull : h.sessions.size ≥ h.config.maxClients
        · rw [if_pos hfull, if_pos (.inl hfull)]
          rfl
        · rw [if_neg hfull, offer_session]
          by_cases hid : id = h.opened
          · rw [if_pos hid, if_neg (not_or.mpr ⟨hfull, not_not.mpr hid⟩), hid]
            rfl
          · rw [if_neg hid, if_pos (.inr hid)]
            rfl
    | detach caller => rfl
    | closeSessions code =>
        obtain ⟨-, -, -, -, -, hsession⟩ := h.closeSessions_spec code
        show (h.closeSessions code).session id = _
        dsimp only
        rw [hsession id]
        split
        · rfl
        · rfl
    | subscribe caller tickers nowNs =>
        show (h.subscribe caller tickers nowNs).session id = _
        dsimp only
        rw [subscribe_session]
        split
        · next hid => rw [hid]
        · rfl
    | handle caller size nowNs frame =>
        show (h.handle caller size nowNs frame).session id = _
        dsimp only
        rw [handle_session]
        split
        · next hid => rw [hid]
        · rfl
    | take caller =>
        show (h.setSession caller _).session id = _
        dsimp only
        rw [setSession_session]
        split
        · next hid =>
            rw [hid]
            rfl
        · rfl
    | lose caller =>
        show (h.setSession caller _).session id = _
        dsimp only
        rw [setSession_session]
        split
        · next hid =>
            rw [hid]
            rfl
        · rfl
    | receive message nowNs =>
        cases message with
        | none => rfl
        | some envelope =>
            have hspec := (h.observed envelope).offerAll_spec nowNs
              ((h.observed envelope).outbox (h.live.observe envelope).2 envelope.event)
            have hsame : (h.observed envelope).session = h.session := updateDirectory_session _ _
            have hsession := hspec.session id
            rw [hsame] at hsession
            show (h.receive nowNs (some envelope)).session id =
              final ClientSession.act (h.session id) (h.busCalls id nowNs envelope)
            rw [LiveHub.receive, fanOut, hsession, busCalls]
            cases ((h.observed envelope).outbox (h.live.observe envelope).2
                envelope.event).get? id with
            | none => rfl
            | some messages => rfl

theorem final_session (h : LiveHub) (id : SessionId) (acts : List HubAct) :
    (final step h acts).session id =
      final ClientSession.act (h.session id) (life id h acts) := by
  induction acts generalizing h with
  | nil => rfl
  | cons act acts ih => rw [final_cons, ih, life, final_append, step_session]

/-- A session is closed by the first call in its life that gives cause, and with
the code of that cause. -/
theorem closed_for_cause (config : ServeConfig) (acts : List HubAct) (id : SessionId)
    (hclock : InOrder (life id (new config) acts)) (code : Nat) :
    ((final step (new config) acts).session id).closeCode = some code ↔
      ∃ before a after, life id (new config) acts = before ++ a :: after ∧
        let s := final ClientSession.act (newSession config) before
        s.closeCode = none ∧
          s.Cause (framesOf before) ((newSession config).lagsOf before) a code := by
  rw [final_session]
  exact ClientSession.closed_iff config.clientQueueMax hclock code

/-- A client that sends eleven messages within a second. -/
def elevenMessages : List HubAct :=
  .admitSession 0 :: (List.range 11).map fun n => .handle 0 20 (n * 10) (.malformed "")

theorem closed_for_cause_eleven :
    ((final step (new (serveConfig tightest)) elevenMessages).session 0).closeCode = some 1008 ∧
      ∃ before a after, life 0 (new (serveConfig tightest)) elevenMessages = before ++ a :: after ∧
        let s := final ClientSession.act (newSession (serveConfig tightest)) before
        s.closeCode = none ∧
          s.Cause (framesOf before) ((newSession (serveConfig tightest)).lagsOf before) a 1008 := by
  have hclosed : ((final step (new (serveConfig tightest)) elevenMessages).session 0).closeCode =
      some 1008 := by decide +kernel
  have hclock : InOrder (life 0 (new (serveConfig tightest)) elevenMessages) := by
    unfold InOrder
    decide +kernel
  exact ⟨hclosed,
    (closed_for_cause (serveConfig tightest) elevenMessages 0 hclock 1008).mp hclosed⟩

end LiveHub

end Tape.Api
