import Mathlib
import Tape.Page.Reconnects

/-!
# What a flush leaves behind

A flush ends in one of three ways (`Flush`): it sends nothing, it sends what it
was to send, or, when no spacing is asked for, it sends a reduced set and the
whole one behind it. `Open.flush` takes the notes of a connection through a
flush, and `Open.schedule` through the scheduling of one.

What is noted of a request is that its market waits to be refreshed or was left
out of a message since. Once the last message is the whole set again, the
second answers the request (`LeftOut.refreshed`).
-/

namespace Tape.Page

variable {c c' : LiveClient} {now : Int}

/-! ## One flush -/

/-- How a flush ends. -/
inductive Flush (c : LiveClient) (now : Int) (c' : LiveClient) : Prop where
  | quiet (ho : c'.outbox = c.outbox) (hs : c'.sent = c.sent)
      (hl : c'.lastSubscribeAtMs = c.lastSubscribeAtMs) (ht : c'.subscribeTimer = false)
      (hwhy : c.suppressed = true ∨ ¬ Sendable c.flushed)
  | sent (ho : c'.outbox = c.outbox ++ [c.flushed]) (hs : c'.sent = some c.flushed)
      (hl : c'.lastSubscribeAtMs = some now) (hsend : Sendable c.flushed)
      (ht : c'.subscribeTimer = false → c.refresh = ∅ ∨ ¬ Sendable c.desired)
      (hwhy : c.suppressed = false)
  | both (ho : c'.outbox = c.outbox ++ [c.flushed, c.desired]) (hs : c'.sent = some c.desired)
      (hl : c'.lastSubscribeAtMs = some now) (hsend : Sendable c.desired)
      (hgap : c.options.minSubscribeIntervalMs ≤ 0) (hwhy : c.suppressed = false)

/-- What no flush changes. -/
structure Keeps (c c' : LiveClient) : Prop where
  options : c'.options = c.options
  phase : c'.phase = c.phase
  socket : c'.socket = c.socket
  desired : c'.desired = c.desired
  refresh : c'.refresh = ∅

/-- A client about to flush: live, and no timer set. -/
structure Ready (c : LiveClient) : Prop where
  live : c.phase = .live
  socket : c.socket = true
  timer : c.subscribeTimer = false

theorem flushed_ne_desired (hsub : ∀ t ∈ c.refresh, t ∈ c.desired) (hne : c.refresh ≠ ∅) :
    c.flushed ≠ c.desired := by
  intro heq
  obtain ⟨t, ht⟩ := Finset.nonempty_iff_ne_empty.mpr hne
  exact notMem_flushed ht (heq ▸ hsub t ht)

/-- The first flush, as far as it sends. -/
theorem flushOnce_spec (h : Ready c) :
    Keeps c (c.flushOnce now).1 ∧ (c.flushOnce now).1.resend = false ∧
      (c.flushOnce now).1.subscribeTimer = false ∧
      ((c.suppressed = true ∨ ¬ Sendable c.flushed) ∧ (c.flushOnce now).2 = false ∧
          (c.flushOnce now).1.outbox = c.outbox ∧ (c.flushOnce now).1.sent = c.sent ∧
          (c.flushOnce now).1.lastSubscribeAtMs = c.lastSubscribeAtMs ∨
        c.suppressed = false ∧ Sendable c.flushed ∧
          ((c.flushOnce now).2 = true ↔ c.refresh ≠ ∅) ∧
          (c.flushOnce now).1.outbox = c.outbox ++ [c.flushed] ∧
          (c.flushOnce now).1.sent = some c.flushed ∧
          (c.flushOnce now).1.lastSubscribeAtMs = some now) := by
  have hguard : ¬ (c.phase ≠ .live ∨ c.socket = false) := by simp [h.live, h.socket]
  rw [LiveClient.flushOnce, if_neg hguard]
  dsimp only
  split
  · next hsup =>
      exact ⟨⟨rfl, rfl, rfl, rfl, rfl⟩, rfl, h.timer, .inl ⟨.inl hsup, rfl, rfl, rfl, rfl⟩⟩
  · next hsup =>
      split
      · next hlarge =>
          exact ⟨⟨rfl, rfl, rfl, rfl, rfl⟩, rfl, h.timer,
            .inl ⟨.inr (Nat.not_le.mpr hlarge), rfl, rfl, rfl, rfl⟩⟩
      · next hfits =>
          exact ⟨⟨rfl, rfl, rfl, rfl, rfl⟩, rfl, h.timer,
            .inr ⟨Bool.eq_false_iff.mpr hsup, Nat.not_lt.mp hfits, decide_eq_true_iff, rfl, rfl,
              rfl⟩⟩

theorem flushSubscription_spec (h : Ready c) (hsub : ∀ t ∈ c.refresh, t ∈ c.desired) :
    Keeps c (c.flushSubscription now) ∧ Flush c now (c.flushSubscription now) := by
  obtain ⟨hkeeps, hresend, htimer, hcase⟩ := @flushOnce_spec c now h
  rw [LiveClient.flushSubscription]
  rcases hcase with ⟨hwhy, hflag, ho, hs, hl⟩ | ⟨hsup, hsend, hflag, ho, hs, hl⟩
  · split
    · next heq =>
        rw [heq] at hflag
        cases hflag
    · next c₁ heq =>
        rw [heq] at hkeeps htimer ho hs hl
        exact ⟨hkeeps, .quiet ho hs hl htimer hwhy⟩
  · split
    · next c₁ heq =>
        rw [heq] at hkeeps hresend htimer ho hs hl hflag
        dsimp only at hkeeps hresend htimer ho hs hl
        have hne : c.refresh ≠ ∅ := hflag.mp rfl
        have hready : Ready c₁ :=
          ⟨hkeeps.phase.trans h.live, hkeeps.socket.trans h.socket, htimer⟩
        have hguard : ¬ (c₁.phase ≠ .live ∨ c₁.subscribeTimer = true) := by
          simp [hready.live, htimer]
        rw [LiveClient.scheduleWith, if_neg hguard]
        split
        · next hmay =>
            -- no spacing is asked for, so the whole set follows at once
            have hgap : c.options.minSubscribeIntervalMs ≤ 0 := by
              rw [LiveClient.mayFlush, hl, hkeeps.options] at hmay
              have hmay := of_decide_eq_true hmay
              omega
            have hwhole : c₁.flushed = c.desired := by
              rw [LiveClient.flushed, if_pos hkeeps.refresh, hkeeps.desired]
            obtain ⟨hkeeps', -, htimer', hcase'⟩ := @flushOnce_spec c₁ now hready
            refine ⟨⟨hkeeps'.options.trans hkeeps.options, hkeeps'.phase.trans hkeeps.phase,
              hkeeps'.socket.trans hkeeps.socket, hkeeps'.desired.trans hkeeps.desired,
              hkeeps'.refresh⟩, ?_⟩
            rw [hwhole] at hcase'
            rcases hcase' with ⟨hwhy, -, ho', hs', hl'⟩ | ⟨-, hsend', -, ho', hs', hl'⟩
            · refine .sent (ho'.trans ho) (hs'.trans hs) (hl'.trans hl) hsend
                (fun _ => .inr (hwhy.resolve_left fun hsup' => ?_)) hsup
              rw [LiveClient.suppressed, hs, hresend, hwhole] at hsup'
              exact flushed_ne_desired hsub hne (by simpa using hsup')
            · refine .both ?_ hs' hl' hsend' hgap hsup
              rw [ho', ho, List.append_assoc]
              rfl
        · next hmay =>
            exact ⟨⟨hkeeps.options, hkeeps.phase, hkeeps.socket, hkeeps.desired, hkeeps.refresh⟩,
              .sent ho hs hl hsend (by rintro ⟨⟩) hsup⟩
    · next c₁ heq =>
        rw [heq] at hkeeps htimer ho hs hl hflag
        have hnone : c.refresh = ∅ := by
          by_contra hne
          cases hflag.mpr hne
        exact ⟨hkeeps, .sent ho hs hl hsend (fun _ => .inl hnone) hsup⟩

theorem lastSent_of_suppressed (hsup : c.suppressed = true) : c.sent.getD [] = c.flushed := by
  rw [LiveClient.suppressed] at hsup
  split at hsup
  · next sent hsent =>
      rw [hsent]
      simp only [Bool.and_eq_true, beq_iff_eq] at hsup
      exact hsup.2
  · next hnone =>
      rw [hnone]
      exact (beq_iff_eq.mp hsup).symm

/-! ## The notes of a connection -/

namespace ClientRun

variable {r : ClientRun}

/-- A later message left the market out. -/
def LeftOut (log : List SentMessage) (request : SnapshotRequest) : Prop :=
  ∃ i m, request.last < i ∧ log[i]? = some m ∧ request.ticker ∉ m.tickers

/-- A request that is noted: its market was in the last message then, is still
wanted, and waits to be refreshed or was left out since. -/
structure Owed (r : ClientRun) (request : SnapshotRequest) : Prop where
  included : ∃ m, r.log[request.last]? = some m ∧ request.ticker ∈ m.tickers
  desired : request.ticker ∈ r.client.desired
  owed : request.ticker ∈ r.client.refresh ∨ LeftOut r.log request

theorem LeftOut.append {log more : List SentMessage} {request : SnapshotRequest}
    (h : LeftOut log request) : LeftOut (log ++ more) request := by
  obtain ⟨i, m, hi, hm, hout⟩ := h
  have hlt : i < log.length := (List.getElem?_eq_some_iff.mp hm).1
  exact ⟨i, m, hi, by rw [List.getElem?_append_left hlt, hm], hout⟩

theorem lastSent_eq {m : SentMessage} (h : r.log.getLast? = some m) : r.lastSent = m.tickers := by
  rw [lastSent, h]
  rfl

/-- The last message includes a market of the log's, or it left it out since. -/
theorem Owed.leftOut {request : SnapshotRequest} (h : r.Owed request)
    (hout : request.ticker ∉ r.lastSent) : LeftOut r.log request := by
  obtain ⟨m, hm, hin⟩ := h.included
  have hlt : request.last < r.log.length := (List.getElem?_eq_some_iff.mp hm).1
  have hlast := @List.getLast?_eq_getElem? _ r.log
  cases hend : r.log.getLast? with
  | none =>
      rw [List.getLast?_eq_none_iff] at hend
      rw [hend] at hlt
      exact absurd hlt (Nat.not_lt_zero _)
  | some m' =>
      rw [hend] at hlast
      rw [lastSent_eq hend] at hout
      have hne : request.last ≠ r.log.length - 1 := by
        intro heq
        rw [heq, ← hlast] at hm
        obtain rfl := Option.some.inj hm
        exact hout hin
      exact ⟨r.log.length - 1, m', by omega, hlast.symm, hout⟩

/-- Once the last message includes what was left out, the request is answered. -/
theorem LeftOut.refreshed {request : SnapshotRequest} (h : LeftOut r.log request)
    (hin : request.ticker ∈ r.lastSent) : r.Refreshed request := by
  obtain ⟨i, m, hi, hm, hout⟩ := h
  have hlt : i < r.log.length := (List.getElem?_eq_some_iff.mp hm).1
  have hlast := @List.getLast?_eq_getElem? _ r.log
  cases hend : r.log.getLast? with
  | none =>
      rw [List.getLast?_eq_none_iff] at hend
      rw [hend] at hlt
      exact absurd hlt (Nat.not_lt_zero _)
  | some m' =>
      rw [hend] at hlast
      rw [lastSent_eq hend] at hin
      have hne : i ≠ r.log.length - 1 := by
        intro heq
        rw [heq, ← hlast] at hm
        obtain rfl := Option.some.inj hm
        exact hout hin
      exact ⟨i, r.log.length - 1, m, m', hi, by omega, hm, hlast.symm, hout, hin⟩

/-- A live connection, whatever is scheduled on it. -/
structure Open (r : ClientRun) : Prop where
  live : r.client.phase = .live
  socket : r.client.socket = true
  delivered : r.client.outbox = []
  sent : r.client.sent = r.log.getLast?.map SentMessage.tickers
  last : r.client.lastSubscribeAtMs = r.log.getLast?.map SentMessage.atMs
  refresh : ∀ t ∈ r.client.refresh, t ∈ r.client.desired
  requests : ∀ request ∈ r.requests, r.Owed request

/-- The messages of a connection are spaced and bounded. -/
structure Paced (r : ClientRun) : Prop where
  spaced : r.log.IsChain fun a b =>
    a.atMs + r.client.options.minSubscribeIntervalMs ≤ b.atMs
  bounded : ∀ m ∈ r.log, Sendable m.tickers

/-- What is kept all along. -/
structure Noted (r : ClientRun) : Prop where
  delivered : r.client.outbox = []
  refresh : ∀ t ∈ r.client.refresh, t ∈ r.client.desired
  connection : r.client.phase = .live → r.Open
  paced : r.Paced
  fresh : r.client.phase = .connecting ∨ r.client.phase = .handshaking →
    r.log = [] ∧ r.requests = []
  timer : r.client.subscribeTimer = true → r.client.phase = .live ∧ r.log ≠ []
  timed : r.client.phase = .live → r.client.refresh ≠ ∅ → r.client.subscribeTimer = true
  reconnect : r.reconnectTimer = true → r.client.phase = .waiting

theorem Open.lastSent (h : r.Open) : r.client.sent.getD [] = r.lastSent := by
  rw [h.sent]
  rfl

/-- The notes when a flush has sent `more`. -/
theorem Open.goOn (h : r.Open) (hk : Keeps r.client c') (more : List (List Ticker))
    (ho : c'.outbox = more)
    (hs : c'.sent = (r.log ++ more.map (SentMessage.mk now)).getLast?.map
      SentMessage.tickers)
    (hl : c'.lastSubscribeAtMs = (r.log ++ more.map (SentMessage.mk now)).getLast?.map
      SentMessage.atMs)
    (hleft : ∀ request ∈ r.requests, request.ticker ∈ r.client.refresh →
      LeftOut (r.log ++ more.map (SentMessage.mk now)) request) :
    (r.goOn now c').Open := by
  have hlog : (r.goOn now c').log = r.log ++ more.map (SentMessage.mk now) := by
    rw [ClientRun.goOn, ho]
  refine
    { live := hk.phase.trans h.live
      socket := hk.socket.trans h.socket
      delivered := rfl
      sent := hlog ▸ hs
      last := hlog ▸ hl
      refresh := fun t ht => ?_
      requests := fun request hrequest => ?_ }
  · have hnone : (r.goOn now c').client.refresh = ∅ := hk.refresh
    rw [hnone] at ht
    cases ht
  · obtain ⟨⟨m, hm, hin⟩, hdesired, howed⟩ := h.requests request hrequest
    have hlt : request.last < r.log.length := (List.getElem?_eq_some_iff.mp hm).1
    refine ⟨⟨m, ?_, hin⟩, ?_, .inr ?_⟩
    · rw [hlog, List.getElem?_append_left hlt, hm]
    · show request.ticker ∈ c'.desired
      rw [hk.desired]
      exact hdesired
    · rw [hlog]
      rcases howed with hrefresh | hleftOut
      · exact hleft request hrequest hrefresh
      · exact hleftOut.append

/-- What was noted of one message more. -/
theorem Paced.concat (h : r.Paced) {m : SentMessage}
    (hdue : ∀ last ∈ r.log.getLast?, last.atMs + r.client.options.minSubscribeIntervalMs ≤ m.atMs)
    (hsend : Sendable m.tickers) {r' : ClientRun} (hlog : r'.log = r.log ++ [m])
    (ho : r'.client.options = r.client.options) : r'.Paced where
  spaced := by
    rw [hlog, ho]
    refine List.isChain_append.mpr ⟨h.spaced, .singleton m, fun last hlast m' hm' => ?_⟩
    rw [List.head?_cons, Option.mem_some_iff] at hm'
    exact hm' ▸ hdue last hlast
  bounded m' hm' := by
    rw [hlog] at hm'
    rcases List.mem_append.mp hm' with hold | hnew
    · exact h.bounded m' hold
    · rw [List.mem_singleton.mp hnew]
      exact hsend

/-- A live connection that was told all that is wanted, if it can be told. -/
def Told (r : ClientRun) : Prop := Sendable r.client.desired → r.lastSent = r.client.desired

/-- A call of a live client is over, and left it told exactly if `p`. -/
structure Rests (r : ClientRun) (p : Prop) : Prop where
  connection : r.Open
  paced : r.Paced
  timed : r.client.refresh ≠ ∅ → r.client.subscribeTimer = true
  timer : r.client.subscribeTimer = true → r.log ≠ []
  told : (r.client.subscribeTimer = false → r.Told) ↔ p

/-- A request waits for a flush that leaves its market out of the set sent last. -/
def OwesLast (r : ClientRun) : Prop :=
  ∃ q ∈ r.requests, q.ticker ∈ r.client.refresh ∧ q.ticker ∈ r.lastSent

/-- The flush would be suppressed although it has markets to refresh and the
whole set can be sent. -/
def Stuck (c : LiveClient) : Prop := c.suppressed = true ∧ c.refresh ≠ ∅ ∧ Sendable c.desired

theorem flushed_of_no_refresh (hnone : c.refresh = ∅) : c.flushed = c.desired := by
  rw [LiveClient.flushed, if_pos hnone]

/-- A flush that sends nothing. -/
theorem Open.quiet (h : r.Open) (hp : r.Paced) (hk : Keeps r.client c') (ho : c'.outbox = [])
    (hs : c'.sent = r.client.sent) (hl : c'.lastSubscribeAtMs = r.client.lastSubscribeAtMs)
    (ht : c'.subscribeTimer = false)
    (hwhy : r.client.suppressed = true ∨ ¬ Sendable r.client.flushed)
    (hsized : r.OwesLast → Sendable r.client.flushed) :
    Rests (r.goOn now c') (¬ Stuck r.client) := by
  have hlog : (r.goOn now c').log = r.log := by
    rw [ClientRun.goOn, ho, List.map_nil, List.append_nil]
  have hsame : (r.goOn now c').lastSent = r.lastSent := by
    rw [ClientRun.lastSent, hlog, ClientRun.lastSent]
  have hout : ∀ q ∈ r.requests, q.ticker ∈ r.client.refresh → q.ticker ∉ r.lastSent := by
    intro q hq hrefresh hin
    rcases hwhy with hsup | hlarge
    · rw [← h.lastSent, lastSent_of_suppressed hsup] at hin
      exact notMem_flushed hrefresh hin
    · exact hlarge (hsized ⟨q, hq, hrefresh, hin⟩)
  refine ⟨h.goOn hk [] ho (by simpa using hs.trans h.sent) (by simpa using hl.trans h.last) ?_,
    ⟨?_, ?_⟩, fun hne => absurd hk.refresh hne, fun htrue => ?_, ?_⟩
  · intro request hrequest hrefresh
    rw [List.map_nil, List.append_nil]
    exact (h.requests request hrequest).leftOut (hout request hrequest hrefresh)
  · rw [hlog]
    exact hk.options.symm ▸ hp.spaced
  · rw [hlog]
    exact hp.bounded
  · exact absurd htrue (Bool.eq_false_iff.mp ht)
  · rw [Told, hsame]
    show (_ → Sendable c'.desired → r.lastSent = c'.desired) ↔ _
    rw [hk.desired]
    constructor
    · rintro htold ⟨hsup, hne, hsend⟩
      refine flushed_ne_desired h.refresh hne ?_
      rw [← lastSent_of_suppressed hsup, h.lastSent]
      exact htold ht hsend
    · intro hnot _ hsend
      have hsup : r.client.suppressed = true :=
        hwhy.resolve_right (not_not.mpr (hsend.sublist (flushed_sublist _)))
      have hnone : r.client.refresh = ∅ := by
        by_contra hne
        exact hnot ⟨hsup, hne, hsend⟩
      rw [← h.lastSent, lastSent_of_suppressed hsup, flushed_of_no_refresh hnone]

/-- The message that leaves the refreshed markets out. -/
theorem Open.leftOut (h : r.Open) (more : List SentMessage) :
    ∀ request ∈ r.requests, request.ticker ∈ r.client.refresh →
      LeftOut (r.log ++ ⟨now, r.client.flushed⟩ :: more) request := by
  intro request hrequest hrefresh
  obtain ⟨m, hm, -⟩ := (h.requests request hrequest).included
  exact ⟨r.log.length, ⟨now, r.client.flushed⟩, (List.getElem?_eq_some_iff.mp hm).1,
    by simp, notMem_flushed hrefresh⟩

/-- A flush that sends what it was to send. -/
theorem Open.told (h : r.Open) (hp : r.Paced) (hk : Keeps r.client c')
    (hdue : ∀ last ∈ r.log.getLast?,
      last.atMs + r.client.options.minSubscribeIntervalMs ≤ now)
    (ho : c'.outbox = [r.client.flushed]) (hs : c'.sent = some r.client.flushed)
    (hl : c'.lastSubscribeAtMs = some now) (hsend : Sendable r.client.flushed)
    (ht : c'.subscribeTimer = false → r.client.refresh = ∅ ∨ ¬ Sendable r.client.desired)
    (hwhy : r.client.suppressed = false) : Rests (r.goOn now c') (¬ Stuck r.client) := by
  have hlog : (r.goOn now c').log = r.log ++ [⟨now, r.client.flushed⟩] := by
    rw [ClientRun.goOn, ho]
    rfl
  have hlast : (r.goOn now c').lastSent = r.client.flushed := by
    rw [ClientRun.lastSent, hlog, List.getLast?_concat]
    rfl
  have hpaced : Paced (r.goOn now c') :=
    @Paced.concat r hp ⟨now, r.client.flushed⟩ hdue hsend _ hlog hk.options
  refine ⟨h.goOn hk [r.client.flushed] ho (by simpa using hs) (by simpa using hl) (h.leftOut []),
    hpaced, fun hne => absurd hk.refresh hne, fun _ => ?_,
    iff_of_true (fun htimer hfits => ?_) fun hsup => ?_⟩
  · rw [hlog]
    exact List.append_ne_nil_of_right_ne_nil _ (List.cons_ne_nil _ _)
  · have hall : Sendable r.client.desired := hk.desired ▸ hfits
    rw [hlast, flushed_of_no_refresh ((ht htimer).resolve_right (not_not.mpr hall))]
    exact hk.desired.symm
  · exact absurd hsup.1 (Bool.eq_false_iff.mp hwhy)

/-- A flush with no spacing to keep: the reduced set and the whole one. -/
theorem Open.both (h : r.Open) (hp : r.Paced) (hk : Keeps r.client c')
    (hdue : ∀ last ∈ r.log.getLast?,
      last.atMs + r.client.options.minSubscribeIntervalMs ≤ now)
    (ho : c'.outbox = [r.client.flushed, r.client.desired]) (hs : c'.sent = some r.client.desired)
    (hl : c'.lastSubscribeAtMs = some now) (hsend : Sendable r.client.desired)
    (hgap : r.client.options.minSubscribeIntervalMs ≤ 0)
    (hwhy : r.client.suppressed = false) : Rests (r.goOn now c') (¬ Stuck r.client) := by
  have hlog : (r.goOn now c').log =
      (r.log ++ [⟨now, r.client.flushed⟩]) ++ [⟨now, r.client.desired⟩] := by
    rw [ClientRun.goOn, ho, List.append_assoc]
    rfl
  have hlast : (r.goOn now c').lastSent = r.client.desired := by
    rw [ClientRun.lastSent, hlog, List.getLast?_concat]
    rfl
  have hfirst : Paced { r with log := r.log ++ [⟨now, r.client.flushed⟩] } :=
    @Paced.concat r hp ⟨now, r.client.flushed⟩ hdue (hsend.sublist (flushed_sublist _)) _ rfl rfl
  have hnext : ∀ last ∈ (r.log ++ [(⟨now, r.client.flushed⟩ : SentMessage)]).getLast?,
      last.atMs + r.client.options.minSubscribeIntervalMs ≤ now := by
    intro last hin
    rw [List.getLast?_concat, Option.mem_some_iff] at hin
    rw [← hin]
    exact (Int.add_le_add_left hgap now).trans_eq (Int.add_zero now)
  have hpaced : Paced (r.goOn now c') :=
    @Paced.concat _ hfirst ⟨now, r.client.desired⟩ hnext hsend _ hlog hk.options
  refine ⟨h.goOn hk [r.client.flushed, r.client.desired] ho (by simpa using hs)
    (by simpa using hl) (h.leftOut [⟨now, r.client.desired⟩]), hpaced,
    fun hne => absurd hk.refresh hne, fun _ => ?_,
    iff_of_true (fun _ _ => ?_) fun hsup => ?_⟩
  · rw [hlog]
    exact List.append_ne_nil_of_right_ne_nil _ (List.cons_ne_nil _ _)
  · exact hlast.trans hk.desired.symm
  · exact absurd hsup.1 (Bool.eq_false_iff.mp hwhy)

/-- A flush leaves a connection told unless it was suppressed although it had
markets to refresh and the whole set can be sent. -/
theorem Open.flush (h : r.Open) (htimer : r.client.subscribeTimer = false) (hp : r.Paced)
    (hdue : ∀ last ∈ r.log.getLast?,
      last.atMs + r.client.options.minSubscribeIntervalMs ≤ now)
    (hsized : r.OwesLast → Sendable r.client.flushed) :
    Rests (r.goOn now (r.client.flushSubscription now)) (¬ Stuck r.client) := by
  obtain ⟨hk, hflush⟩ := @flushSubscription_spec r.client now ⟨h.live, h.socket, htimer⟩ h.refresh
  cases hflush with
  | quiet ho hs hl ht hwhy => exact h.quiet hp hk (h.delivered ▸ ho) hs hl ht hwhy hsized
  | sent ho hs hl hsend ht hwhy =>
      rw [h.delivered, List.nil_append] at ho
      exact h.told hp hk hdue ho hs hl hsend ht hwhy
  | both ho hs hl hsend hgap hwhy =>
      rw [h.delivered, List.nil_append] at ho
      exact h.both hp hk hdue ho hs hl hsend hgap hwhy

theorem hdue_of_mayFlush (h : r.Open) (hmay : r.client.mayFlush now = true) :
    ∀ last ∈ r.log.getLast?, last.atMs + r.client.options.minSubscribeIntervalMs ≤ now := by
  intro last hlast
  rw [LiveClient.mayFlush, h.last, Option.mem_def.mp hlast] at hmay
  have hmay : last.atMs + r.client.options.minSubscribeIntervalMs - now ≤ 0 :=
    of_decide_eq_true hmay
  omega

/-- The notes when nothing is sent and only the timer may have been set. -/
theorem Open.wait (h : r.Open) (timer : Bool) :
    (r.goOn now { r.client with subscribeTimer := timer }).Open ∧
      (r.goOn now { r.client with subscribeTimer := timer }).log = r.log := by
  have hlog : (r.goOn now { r.client with subscribeTimer := timer }).log = r.log := by
    rw [ClientRun.goOn, h.delivered, List.map_nil, List.append_nil]
  refine ⟨⟨h.live, h.socket, rfl, hlog ▸ h.sent, hlog ▸ h.last, h.refresh, fun q hq => ?_⟩, hlog⟩
  obtain ⟨hin, hdesired, howed⟩ := h.requests q hq
  exact ⟨hlog ▸ hin, hdesired, hlog ▸ howed⟩

/-- To schedule a flush is to flush, or to wait behind a timer. -/
theorem Open.schedule (h : r.Open) (hp : r.Paced)
    (htimer : r.client.subscribeTimer = true → r.log ≠ [])
    (hsized : r.client.subscribeTimer = false → r.client.mayFlush now = true →
      r.OwesLast → Sendable r.client.flushed) :
    Rests (r.goOn now (r.client.scheduleSubscribe now))
      (r.client.subscribeTimer = false → r.client.mayFlush now = true → ¬ Stuck r.client) := by
  have hwaits : ∀ p : Prop, p → (r.log ≠ []) →
      Rests (r.goOn now { r.client with subscribeTimer := true }) p := by
    intro p hp' hlog
    obtain ⟨hopen, hsame⟩ := @Open.wait now r h true
    refine ⟨hopen, ⟨?_, ?_⟩, fun _ => rfl, fun _ => hsame ▸ hlog, iff_of_true (by rintro ⟨⟩) hp'⟩
    · rw [hsame]
      exact hp.spaced
    · rw [hsame]
      exact hp.bounded
  rw [LiveClient.scheduleSubscribe, LiveClient.scheduleWith]
  split
  · next hguard =>
      have htrue : r.client.subscribeTimer = true :=
        hguard.resolve_left (not_not.mpr h.live)
      have hsame : r.client = { r.client with subscribeTimer := true } := by
        rw [← htrue]
      rw [hsame]
      exact hwaits _ (by rintro ⟨⟩) (htimer htrue)
  · next hguard =>
      obtain ⟨-, hfalse⟩ := not_or.mp hguard
      have hfalse : r.client.subscribeTimer = false := Bool.eq_false_iff.mpr hfalse
      split
      · next hmay =>
          have hrests := h.flush hfalse hp (hdue_of_mayFlush h hmay) (hsized hfalse hmay)
          refine ⟨hrests.connection, hrests.paced, hrests.timed, hrests.timer,
            hrests.told.trans ⟨fun hnot _ _ => hnot, fun hnot => hnot hfalse hmay⟩⟩
      · next hmay =>
          refine hwaits _ (fun _ htrue => absurd htrue hmay) fun hnil => hmay ?_
          rw [LiveClient.mayFlush, h.last, hnil]
          rfl

/-- Where a call leaves a live client, the notes are kept, and the connection is
settled exactly if it was told. -/
theorem Rests.noted {p : Prop} (h : Rests r p) (hreconnect : r.reconnectTimer = false) :
    r.Noted where
  delivered := h.connection.delivered
  refresh := h.connection.refresh
  connection _ := h.connection
  paced := h.paced
  fresh hphase := by
    rw [h.connection.live] at hphase
    rcases hphase with hphase | hphase <;> cases hphase
  timer htrue := ⟨h.connection.live, h.timer htrue⟩
  timed _ := h.timed
  reconnect htrue := by
    rw [hreconnect] at htrue
    cases htrue

theorem Rests.settled_iff {p : Prop} (h : Rests r p) : r.Settled ↔ p := by
  rw [← h.told]
  refine ⟨fun hs htimer hsend => (hs.told h.connection.live htimer hsend).1, fun htold => ?_⟩
  refine ⟨h.paced.spaced, h.paced.bounded, fun _ htimer hsend => ?_⟩
  have hall := htold htimer hsend
  refine ⟨hall, fun request hrequest => ?_⟩
  obtain ⟨-, hdesired, hrefresh | hleft⟩ := h.connection.requests request hrequest
  · have htrue := h.timed (Finset.ne_empty_of_mem hrefresh)
    rw [htimer] at htrue
    cases htrue
  · exact hleft.refreshed (hall ▸ hdesired)

/-- A client that is not live owes nothing. -/
theorem Paced.settled (h : r.Paced) (hphase : r.client.phase ≠ .live) : r.Settled :=
  ⟨h.spaced, h.bounded, fun hlive => absurd hlive hphase⟩

end ClientRun

end Tape.Page
