import Tape.Book.Change
import Tape.Recorder.Supervisor

/-!
# What one frame does to a connection that is serving

A connection serves a group when it is open, has one live orderbook
subscription and the group applied. The file says, once for every kind of
frame, what is left of it afterwards in the three things the results about
frames are about: what is known of each market (`live`), the sequence baseline
of the subscription, and the control plane, which a frame that answers no
pending subscribe leaves alone (`Steady`).

`checked_spec` is the sequence check with its resynchronization, `handled_spec`
the dispatch, and `onFrame_spec` the two together. Everything that follows
about gaps, replays and undecodable frames is derived from `onFrame_spec`, and
looks at no handler again.
-/

namespace Tape

namespace Supervisor

/-- What is known of a market. -/
def live (s : Supervisor) (t : Ticker) : Option Depth := (s.books.get? t).bind Book.live

/-- Whether some market of a subscription awaits a snapshot. -/
def awaits (s : Supervisor) (sid : Sid) : Bool := s.resyncing.contains sid

/-- The control plane is the same. -/
structure Steady (s s' : Supervisor) : Prop where
  config : s'.config = s.config
  desired : s'.desired = s.desired
  applied : s'.applied = s.applied
  subscriptions : s'.subscriptions = s.subscriptions
  pending : s'.pending = s.pending
  session : (∃ n, s.session = some ⟨true, n⟩) → ∃ n, s'.session = some ⟨true, n⟩

theorem Steady.refl (s : Supervisor) : Steady s s := ⟨rfl, rfl, rfl, rfl, rfl, id⟩

theorem Steady.trans {s s' s'' : Supervisor} (h : Steady s s') (h' : Steady s' s'') :
    Steady s s'' where
  config := h'.config.trans h.config
  desired := h'.desired.trans h.desired
  applied := h'.applied.trans h.applied
  subscriptions := h'.subscriptions.trans h.subscriptions
  pending := h'.pending.trans h.pending
  session hs := h'.session (h.session hs)

theorem Steady.isBookSid {s s' : Supervisor} (h : Steady s s') (sid : Sid) :
    s'.isBookSid sid = s.isBookSid sid := by
  rw [Supervisor.isBookSid, h.subscriptions, Supervisor.isBookSid]

theorem Steady.mayTouch {s s' : Supervisor} (h : Steady s s') (sid : Sid) (t : Ticker) :
    s'.mayTouch sid t = s.mayTouch sid t := by
  rw [Supervisor.mayTouch, h.isBookSid, h.applied, Supervisor.mayTouch]

/-- No book is dropped. -/
def Keeps (s s' : Supervisor) : Prop := ∀ t, t ∈ s.books.keys → t ∈ s'.books.keys

theorem Keeps.of_books {s s' : Supervisor} (h : s'.books = s.books) : Keeps s s' :=
  fun _ ht => h ▸ ht

theorem Keeps.trans {s s' s'' : Supervisor} (h : Keeps s s') (h' : Keeps s' s'') :
    Keeps s s'' := fun t ht => h' t (h t ht)

theorem keeps_markStale (s : Supervisor) (tickers : Finset Ticker) :
    Keeps s (s.markStale tickers) := by
  intro t ht
  rw [markStale, Dict.keys_mapValues]
  exact ht

theorem keeps_setBook (s : Supervisor) (ticker : Ticker) (book : Book) :
    Keeps s (s.setBook ticker book) :=
  fun _ ht => Dict.mem_keys_set.mpr (.inr ht)

/-- An open connection with one live orderbook subscription. -/
structure Serving (s : Supervisor) (S : Sid) (g : Group) : Prop where
  session : ∃ n, s.session = some ⟨true, n⟩
  applied : s.applied = some g
  bookSid : ∀ sid, s.isBookSid sid = true ↔ sid = S
  books : ∀ t b, s.books.get? t = some b → b.Inv

variable {s : Supervisor} {S : Sid} {g : Group}

theorem Serving.of_steady {s' : Supervisor} (h : s.Serving S g) (hs : Steady s s')
    (hb : ∀ t b, s'.books.get? t = some b → b.Inv) : s'.Serving S g where
  session := hs.session h.session
  applied := hs.applied.trans h.applied
  bookSid sid := by rw [hs.isBookSid]; exact h.bookSid sid
  books := hb

theorem Serving.mayTouch_iff (h : s.Serving S g) {sid : Sid} {t : Ticker} :
    s.mayTouch sid t = true ↔ sid = S ∧ t ∈ g.tickers := by
  rw [mayTouch, h.applied, decide_eq_true_eq, h.bookSid]
  rfl

/-! ## Sends and requests -/

theorem send_of_open {n : Int} (hn : s.session = some ⟨true, n⟩) (cmd : Command) :
    s.send cmd =
      ({ s with session := some ⟨true, n + 1⟩, sent := s.sent ++ [(n, cmd)] }.put
        (.command n cmd), .ok n) := by
  rw [send, hn]
  rfl

theorem sendRequest_spec (h : s.Serving S g) (request : Option Command) :
    ∃ s', s.sendRequest request = (s', none) ∧ Steady s s' ∧ s'.books = s.books ∧
      s'.tracker = s.tracker ∧ s'.resyncing = s.resyncing := by
  cases request with
  | none => exact ⟨s, rfl, Steady.refl s, rfl, rfl, rfl⟩
  | some cmd =>
      obtain ⟨n, hn⟩ := h.session
      refine ⟨(s.send cmd).1, by rw [sendRequest, send_of_open hn], ?_⟩
      rw [send_of_open hn]
      exact ⟨⟨rfl, rfl, rfl, rfl, rfl, fun _ => ⟨n + 1, rfl⟩⟩, rfl, rfl, rfl⟩

theorem requestSnapshot_spec (s : Supervisor) (sid : Sid) (tickers : Finset Ticker) :
    Steady s (s.requestSnapshot sid tickers).1 ∧
      (s.requestSnapshot sid tickers).1.books = s.books ∧
      (s.requestSnapshot sid tickers).1.tracker = s.tracker := by
  rw [requestSnapshot]
  split
  · exact ⟨⟨rfl, rfl, rfl, rfl, rfl, id⟩, rfl, rfl⟩
  · exact ⟨⟨rfl, rfl, rfl, rfl, rfl, id⟩, rfl, rfl⟩

theorem live_markStale (s : Supervisor) (tickers : Finset Ticker) (t : Ticker) :
    (s.markStale tickers).live t = if t ∈ tickers then none else s.live t := by
  rw [live, markStale, Dict.get?_mapValues, live]
  cases s.books.get? t with
  | none => simp
  | some b =>
      by_cases ht : t ∈ tickers
      · simp [ht]
      · simp [ht]

theorem books_markStale (h : ∀ t b, s.books.get? t = some b → b.Inv)
    (tickers : Finset Ticker) :
    ∀ t b, (s.markStale tickers).books.get? t = some b → b.Inv := by
  intro t b hb
  rw [markStale, Dict.get?_mapValues] at hb
  obtain ⟨b₀, hb₀, rfl⟩ := Option.map_eq_some_iff.mp hb
  have hi := h t b₀ hb₀
  split
  · exact hi.markStale
  · exact hi

/-- A resynchronization of the orderbook subscription stales the group; one of
another subscription does nothing. -/
theorem resyncConnection_spec (h : s.Serving S g) (sid : Sid) (askAgain : Bool) :
    Steady s (s.resyncConnection sid askAgain).1 ∧
      (s.resyncConnection sid askAgain).1.tracker = s.tracker ∧
      Keeps s (s.resyncConnection sid askAgain).1 ∧
      (∀ t b, (s.resyncConnection sid askAgain).1.books.get? t = some b → b.Inv) ∧
      ∀ t, (s.resyncConnection sid askAgain).1.live t =
        if sid = S ∧ t ∈ g.tickers then none else s.live t := by
  rw [resyncConnection, h.applied]
  by_cases hsid : s.isBookSid sid = true
  · obtain rfl := (h.bookSid sid).mp hsid
    simp only [hsid, if_true, true_and]
    have hstaled : ∀ s₁ : Supervisor, s₁ = s.markStale g.tickers ∨
        s₁ = (s.markStale g.tickers).popResyncing sid →
        Steady s s₁ ∧ s₁.tracker = s.tracker ∧ s₁.books = (s.markStale g.tickers).books := by
      rintro s₁ (rfl | rfl)
      · exact ⟨⟨rfl, rfl, rfl, rfl, rfl, id⟩, rfl, rfl⟩
      · exact ⟨⟨rfl, rfl, rfl, rfl, rfl, id⟩, rfl, rfl⟩
    obtain ⟨hs₁, ht₁, hb₁⟩ := hstaled
      (if askAgain then (s.markStale g.tickers).popResyncing sid else s.markStale g.tickers)
      (by cases askAgain <;> simp)
    obtain ⟨hs, hb, ht⟩ := requestSnapshot_spec
      (if askAgain then (s.markStale g.tickers).popResyncing sid else s.markStale g.tickers)
      sid g.tickers
    have hbooks := hb.trans hb₁
    have hkeeps := (keeps_markStale s g.tickers).trans (Keeps.of_books hbooks)
    refine ⟨hs₁.trans hs, ht.trans ht₁, hkeeps, fun t b hget => ?_, fun t => ?_⟩
    · exact books_markStale h.books g.tickers t b (hbooks ▸ hget)
    · exact (congrArg (fun d : Dict Ticker Book => (d.get? t).bind Book.live) hbooks).trans
        (live_markStale s g.tickers t)
  · have hne : sid ≠ S := fun heq => hsid ((h.bookSid sid).mpr heq)
    simp only [hsid, hne, false_and, if_false]
    exact ⟨Steady.refl s, rfl, fun _ ht => ht, h.books, fun t => rfl⟩

/-! ## The sequence check -/

theorem live_of_books {s s' : Supervisor} (h : s'.books = s.books) (t : Ticker) :
    s'.live t = s.live t := by
  rw [live, h, live]

/-- A frame of the subscription, judged: the baseline after it, and whether
the books are staled for it. -/
def judged (s : Supervisor) (S : Sid) (env : Envelope) : Option Int × Bool :=
  GapTracker.judge (s.tracker.baseline S) (env.body.isSnapshot && s.awaits S) env.seq

/-- What the sequence check of a frame leaves. -/
structure Checked (s : Supervisor) (S : Sid) (g : Group) (env : Envelope)
    (s' : Supervisor) : Prop where
  steady : Steady s s'
  keeps : Keeps s s'
  serving : s'.Serving S g
  baseline : s'.tracker.baseline S =
    if env.sid = some S then (s.judged S env).1 else s.tracker.baseline S
  live : ∀ t, s'.live t =
    if (env.sid = some S ∧ (s.judged S env).2 = true) ∧ t ∈ g.tickers then none else s.live t

theorem judgeFrame_baseline (s : Supervisor) (sid : Sid) (env : Envelope) :
    (s.judgeFrame sid env).1.baseline S =
      if sid = S then (s.judged S env).1 else s.tracker.baseline S := by
  by_cases h : sid = S
  · subst h
    rw [if_pos rfl]
    exact (GapTracker.observe_judge s.tracker sid (env.body.isSnapshot && s.awaits sid)
      env.seq).1
  · rw [if_neg h]
    exact GapTracker.observe_judge_other s.tracker h (env.body.isSnapshot && s.awaits sid)
      env.seq

theorem judgeFrame_isFault (s : Supervisor) (sid : Sid) (env : Envelope) :
    (s.judgeFrame sid env).2.isFault = (s.judged sid env).2 :=
  (GapTracker.observe_judge s.tracker sid (env.body.isSnapshot && s.awaits sid) env.seq).2

/-- A check that stales nothing. -/
theorem checked_of_no_fault (h : s.Serving S g) {sid : Sid} {env : Envelope}
    (hsid : env.sid = some sid) (hv : (s.judgeFrame sid env).2.isFault = false) :
    Checked s S g env { s with tracker := (s.judgeFrame sid env).1 } := by
  have hsteady : Steady s { s with tracker := (s.judgeFrame sid env).1 } :=
    ⟨rfl, rfl, rfl, rfl, rfl, id⟩
  refine ⟨hsteady, fun _ ht => ht, h.of_steady hsteady h.books, ?_, fun t => ?_⟩
  · simp only [hsid, Option.some.injEq]
    exact judgeFrame_baseline s sid env
  · rw [if_neg]
    · rfl
    · rintro ⟨⟨hS, hfault⟩, -⟩
      obtain rfl := Option.some.inj (hsid.symm.trans hS)
      rw [← judgeFrame_isFault, hv] at hfault
      cases hfault

/-- A check that finds a fault, with the resynchronization it asks for; `s₁`
is the state the handler of the fault resynchronizes. -/
theorem checked_of_fault (h : s.Serving S g) {sid : Sid} {env : Envelope}
    (hsid : env.sid = some sid) (hv : (s.judgeFrame sid env).2.isFault = true)
    {s₁ : Supervisor} (hs₁ : Steady s s₁) (ht₁ : s₁.tracker = (s.judgeFrame sid env).1)
    (hb₁ : s₁.books = s.books) (askAgain : Bool) :
    ∃ s', (s₁.resyncConnection sid askAgain).1.sendRequest
        (s₁.resyncConnection sid askAgain).2 = (s', none) ∧ Checked s S g env s' := by
  have hserv := h.of_steady hs₁ (hb₁ ▸ h.books)
  obtain ⟨hs₂, ht₂, hk₂, hb₂, hl₂⟩ := resyncConnection_spec hserv sid askAgain
  have hserv₂ := hserv.of_steady hs₂ hb₂
  obtain ⟨s', hsend, hs', hbooks, htracker, -⟩ :=
    sendRequest_spec hserv₂ (s₁.resyncConnection sid askAgain).2
  have hkeeps := (Keeps.of_books hb₁).trans (hk₂.trans (Keeps.of_books hbooks))
  refine ⟨s', hsend, hs₁.trans (hs₂.trans hs'), hkeeps,
    hserv₂.of_steady hs' (hbooks ▸ hb₂), ?_, fun t => ?_⟩
  · simp only [htracker, ht₂, ht₁, hsid, Option.some.injEq]
    exact judgeFrame_baseline s sid env
  · simp only [live_of_books hbooks, hl₂, live_of_books hb₁, hsid, Option.some.injEq]
    by_cases hS : sid = S
    · subst hS
      rw [← judgeFrame_isFault, hv]
      simp
    · simp [hS]

/-- The sequence check, its resynchronization and the send of it. -/
theorem checked_spec (h : s.Serving S g) (env : Envelope) (receipt : Receipt) :
    ∃ s', (s.checkSequence env receipt).1.sendRequest (s.checkSequence env receipt).2 =
        (s', none) ∧ Checked s S g env s' := by
  rw [checkSequence]
  cases hsid : env.sid with
  | none =>
      refine ⟨s, rfl, Steady.refl s, fun _ ht => ht, h, ?_, fun t => ?_⟩
      · rw [if_neg (by rw [hsid]; simp)]
      · rw [if_neg (by rw [hsid]; simp)]
  | some sid =>
      simp only []
      generalize hs₀ : { s with tracker := (s.judgeFrame sid env).1 } = s₀
      have hs₀' : Steady s s₀ ∧ s₀.tracker = (s.judgeFrame sid env).1 ∧ s₀.books = s.books := by
        subst hs₀
        exact ⟨⟨rfl, rfl, rfl, rfl, rfl, id⟩, rfl, rfl⟩
      obtain ⟨hsteady, ht, hb⟩ := hs₀'
      have hkeep : (s.judgeFrame sid env).2.isFault = false → Checked s S g env s₀ := by
        subst hs₀
        exact checked_of_no_fault h hsid
      cases hv : (s.judgeFrame sid env).2 with
      | ok => exact ⟨s₀, rfl, hkeep (by rw [hv]; rfl)⟩
      | firstMessage => exact ⟨s₀, rfl, hkeep (by rw [hv]; rfl)⟩
      | gap expected got =>
          have hreport : Steady s₀ (s₀.reportGap sid expected got receipt) :=
            ⟨rfl, rfl, rfl, rfl, rfl, id⟩
          exact checked_of_fault h hsid (by rw [hv]; rfl) (hsteady.trans hreport) ht hb true
      | duplicate expected got =>
          have hcount : Steady s₀ s₀.countDuplicate := ⟨rfl, rfl, rfl, rfl, rfl, id⟩
          exact checked_of_fault h hsid (by rw [hv]; rfl) (hsteady.trans hcount) ht hb false

/-! ## The dispatch -/

theorem live_setBook (s : Supervisor) (ticker t : Ticker) (book : Book) :
    (s.setBook ticker book).live t = if ticker = t then book.live else s.live t := by
  rw [live, setBook, Dict.get?_set, live]
  split <;> rfl

theorem books_setBook (ticker : Ticker) (h : ∀ t b, s.books.get? t = some b → b.Inv)
    {book : Book} (hb : book.Inv) :
    ∀ t b, (s.setBook ticker book).books.get? t = some b → b.Inv := by
  intro t b hget
  rw [setBook, Dict.get?_set] at hget
  split at hget
  · obtain rfl := Option.some.inj hget
    exact hb
  · exact h t b hget

/-- What a handler of a book message leaves: the follower's step on the market
it names, if that is a market of the group and the message came on `S`. -/
structure Followed (s : Supervisor) (S : Sid) (g : Group) (sid : Sid) (ticker : Ticker)
    (c : Change) (s' : Supervisor) : Prop where
  steady : Steady s s'
  keeps : Keeps s s'
  tracker : s'.tracker = s.tracker
  books : ∀ t b, s'.books.get? t = some b → b.Inv
  live : ∀ t, s'.live t =
    if (sid = S ∧ ticker ∈ g.tickers) ∧ ticker = t then c.follow (s.live t) else s.live t

theorem onSnapshot_followed (h : s.Serving S g) (e : BookSnapshot) :
    Followed s S g e.sid e.ticker (.snapshot e.bids e.asks) (s.onSnapshot e) := by
  have hfin : Steady s (s.finishResync e.sid e.ticker) := ⟨rfl, rfl, rfl, rfl, rfl, id⟩
  rw [onSnapshot]
  simp only []
  by_cases hmay : (s.finishResync e.sid e.ticker).mayTouch e.sid e.ticker = true
  · rw [if_pos hmay]
    have htouch := hmay
    rw [hfin.mayTouch, h.mayTouch_iff] at htouch
    -- The book the snapshot is applied to, and what it makes of it.
    generalize hbook : (s.finishResync e.sid e.ticker).books.getD e.ticker
      (Book.new e.ticker) = book
    have hi : book.Inv := by
      rw [← hbook]
      show ((s.books.get? e.ticker).getD _).Inv
      cases hget : s.books.get? e.ticker with
      | none => exact Book.inv_new _
      | some b => exact h.books _ b hget
    have hi' := hi.applySnapshot e.bids e.asks e.tsMs
    have hlive' := Book.live_applySnapshot book e.bids e.asks e.tsMs
    rcases happly : book.applySnapshot e.bids e.asks e.tsMs with ⟨book', r⟩
    rw [happly] at hi' hlive'
    have hset : ∀ t, (s.setBook e.ticker book').live t =
        if (e.sid = S ∧ e.ticker ∈ g.tickers) ∧ e.ticker = t then
          (Change.snapshot e.bids e.asks).follow (s.live t) else s.live t := by
      intro t
      rw [live_setBook]
      by_cases ht : e.ticker = t
      · rw [if_pos ht, if_pos ⟨htouch, ht⟩, hlive']
        rfl
      · rw [if_neg ht, if_neg (fun hc => ht hc.2)]
    cases r with
    | error err =>
        exact ⟨⟨rfl, rfl, rfl, rfl, rfl, id⟩, keeps_setBook s e.ticker book', rfl,
          books_setBook e.ticker h.books hi', hset⟩
    | ok u =>
        exact ⟨⟨rfl, rfl, rfl, rfl, rfl, id⟩, keeps_setBook s e.ticker book', rfl,
          books_setBook e.ticker h.books hi', hset⟩
  · rw [if_neg hmay]
    rw [hfin.mayTouch, h.mayTouch_iff] at hmay
    exact ⟨hfin, fun _ ht => ht, rfl, h.books, fun t => (if_neg (fun hc => hmay hc.1)).symm⟩

theorem onDelta_followed (h : s.Serving S g) (e : BookDelta) :
    Followed s S g e.sid e.ticker (.delta e.side e.price e.delta) (s.onDelta e).1 := by
  rw [onDelta]
  by_cases hmay : s.mayTouch e.sid e.ticker = true
  · rw [if_pos hmay]
    have htouch := h.mayTouch_iff.mp hmay
    cases hget : s.books.get? e.ticker with
    | none =>
        refine ⟨Steady.refl s, fun _ ht => ht, rfl, h.books, fun t => ?_⟩
        by_cases ht : e.ticker = t
        · rw [if_pos ⟨htouch, ht⟩, live, ← ht, hget]
          rfl
        · rw [if_neg (fun hc => ht hc.2)]
    | some book =>
        simp only []
        have hi := h.books _ book hget
        have hi' := hi.applyDelta e.side e.price e.delta e.tsMs
        have hlive' := hi.live_applyDelta e.side e.price e.delta e.tsMs
        rcases happly : book.applyDelta e.side e.price e.delta e.tsMs with ⟨book', r⟩
        rw [happly] at hi' hlive'
        have hset : ∀ t, (s.setBook e.ticker book').live t =
            if (e.sid = S ∧ e.ticker ∈ g.tickers) ∧ e.ticker = t then
              (Change.delta e.side e.price e.delta).follow (s.live t) else s.live t := by
          intro t
          rw [live_setBook]
          by_cases ht : e.ticker = t
          · rw [if_pos ht, if_pos ⟨htouch, ht⟩, hlive', live, ← ht, hget]
            rfl
          · rw [if_neg ht, if_neg (fun hc => ht hc.2)]
        have hbooks' := books_setBook e.ticker h.books hi'
        have hkeeps := keeps_setBook s e.ticker book'
        cases r with
        | error err =>
            simp only []
            obtain ⟨hs, hb, ht⟩ := requestSnapshot_spec (s.setBook e.ticker book').bookError
              e.sid {e.ticker}
            have hset' : Steady s (s.setBook e.ticker book').bookError :=
              ⟨rfl, rfl, rfl, rfl, rfl, id⟩
            exact ⟨hset'.trans hs, hkeeps.trans (Keeps.of_books hb), ht, hb ▸ hbooks',
              fun t => (live_of_books hb t).trans (hset t)⟩
        | ok applied =>
            cases applied with
            | false => exact ⟨⟨rfl, rfl, rfl, rfl, rfl, id⟩, hkeeps, rfl, hbooks', hset⟩
            | true => exact ⟨⟨rfl, rfl, rfl, rfl, rfl, id⟩, hkeeps, rfl, hbooks', hset⟩
  · rw [if_neg hmay]
    rw [h.mayTouch_iff] at hmay
    exact ⟨Steady.refl s, fun _ ht => ht, rfl, h.books,
      fun t => (if_neg (fun hc => hmay hc.1)).symm⟩

/-- The change a frame carries, once its payload is decoded and converted. -/
def changeOf (config : SupervisorConfig) (env : Envelope) (receipt : Receipt) :
    Option (Ticker × Change) :=
  match env.body with
  | .orderbookSnapshot msg =>
      match readSnapshot msg env receipt config.useYesPrice with
      | .error _ => none
      | .ok e => some (e.ticker, .snapshot e.bids e.asks)
  | .orderbookDelta msg =>
      match readDelta msg env receipt config.useYesPrice with
      | .error _ => none
      | .ok e => some (e.ticker, .delta e.side e.price e.delta)
  | _ => none

/-- A frame whose handler neither waits for the lock to any effect, nor ends
the subscription `S`, nor raises what nothing catches. -/
def Quiet (s : Supervisor) (S : Sid) (env : Envelope) (receipt : Receipt) : Prop :=
  match env.body with
  | .orderbookSnapshot msg =>
      readSnapshot msg env receipt s.config.useYesPrice ≠ .error (.numeral .overflow)
  | .orderbookDelta msg =>
      readDelta msg env receipt s.config.useYesPrice ≠ .error (.numeral .overflow)
  | .market event => event ≠ .error (.numeral .overflow)
  | .subscribed _ => ∀ id, env.id = some id → s.pending.get? id = none
  | .ok _ => ∀ id, env.id = some id → s.pending.get? id = none
  | .error _ => ∀ id, env.id = some id → s.pending.get? id = none
  | .unsubscribed => env.sid ≠ some S
  | .uninterpreted _ => True

theorem Quiet.of_steady {s' : Supervisor} {env : Envelope} {receipt : Receipt}
    (hq : s.Quiet S env receipt) (h : Steady s s') : s'.Quiet S env receipt := by
  rw [Quiet] at hq ⊢
  rw [h.config, h.pending]
  exact hq

/-- What the market of a change is known as after it; the others stay. -/
noncomputable def followed (g : Group) (o : Option (Ticker × Change))
    (live : Ticker → Option Depth) (t : Ticker) : Option Depth :=
  match o with
  | none => live t
  | some (u, c) => if u ∈ g.tickers ∧ u = t then c.follow (live t) else live t

/-- What the dispatch of a frame leaves. -/
structure Handled (s : Supervisor) (S : Sid) (g : Group) (env : Envelope)
    (receipt : Receipt) (s' : Supervisor) : Prop where
  steady : Steady s s'
  keeps : Keeps s s'
  serving : s'.Serving S g
  baseline : s'.tracker.baseline S = s.tracker.baseline S
  live : ∀ t, s'.live t =
    if env.sid = some S then followed g (changeOf s.config env receipt) s.live t
    else s.live t

/-- A dispatch that leaves the books and the baseline alone. -/
theorem Handled.of_idle {s' : Supervisor} {env : Envelope} {receipt : Receipt}
    (h : s.Serving S g) (hs : Steady s s') (hb : s'.books = s.books)
    (ht : s'.tracker.baseline S = s.tracker.baseline S)
    (hc : changeOf s.config env receipt = none) : Handled s S g env receipt s' := by
  refine ⟨hs, Keeps.of_books hb, h.of_steady hs (hb ▸ h.books), ht, fun t => ?_⟩
  rw [live_of_books hb, hc]
  split <;> rfl

theorem Handled.of_steady_left {s₁ s' : Supervisor} {env : Envelope} {receipt : Receipt}
    (hs : Steady s s₁) (hb : s₁.books = s.books) (ht : s₁.tracker = s.tracker)
    (h : Handled s₁ S g env receipt s') : Handled s S g env receipt s' := by
  refine ⟨hs.trans h.steady, (Keeps.of_books hb).trans h.keeps, h.serving,
    h.baseline.trans (by rw [ht]), fun t => ?_⟩
  rw [h.live, hs.config, live_of_books hb, show s₁.live = s.live from funext (live_of_books hb)]

/-- A dispatch that hands a change to the book of its market. -/
theorem Handled.of_followed {s₁ s' : Supervisor} {env : Envelope} {receipt : Receipt}
    (h : s.Serving S g) {sid : Sid} {u : Ticker} {c : Change} (hsid : env.sid = some sid)
    (hc : changeOf s.config env receipt = some (u, c)) (hf : Followed s S g sid u c s₁)
    (hs : Steady s₁ s') (hb : s'.books = s₁.books) (ht : s'.tracker = s₁.tracker) :
    Handled s S g env receipt s' := by
  refine ⟨hf.steady.trans hs, hf.keeps.trans (Keeps.of_books hb),
    h.of_steady (hf.steady.trans hs) (hb ▸ hf.books), by rw [ht, hf.tracker], fun t => ?_⟩
  simp only [live_of_books hb, hf.live, hc, followed, hsid, Option.some.injEq]
  by_cases hS : sid = S
  · simp [hS]
  · simp [hS]

theorem notDecoded_handled (h : s.Serving S g) {env : Envelope} {receipt : Receipt}
    {e : ConvertError} (he : e ≠ .numeral .overflow)
    (hc : changeOf s.config env receipt = none) :
    ∃ s', s.notDecoded e = (s', .nothing) ∧ Handled s S g env receipt s' := by
  have hdec : s.notDecoded e = (s.decodeError, .nothing) := by
    cases e with
    | wire e => rfl
    | numeral e => cases e <;> first | rfl | exact absurd rfl he
  exact ⟨_, hdec, Handled.of_idle h ⟨rfl, rfl, rfl, rfl, rfl, id⟩ rfl rfl hc⟩

/-- A reply that answers no pending subscribe changes nothing but what is
remembered of channels. -/
theorem onReply_handled (h : s.Serving S g) {env : Envelope} (receipt : Receipt)
    (hid : ∀ id, env.id = some id → s.pending.get? id = none)
    (hc : changeOf s.config env receipt = none) :
    ∃ s', s.onReply env = (s', none) ∧ Handled s S g env receipt s' := by
  have hlock : ∃ s', s.withLock env = (s', .release) ∧ Steady s s' ∧ s'.books = s.books ∧
      s'.tracker = s.tracker := by
    rw [withLock]
    split
    · next msg _ =>
        cases henv : env.id with
        | none => exact ⟨_, rfl, ⟨rfl, rfl, rfl, rfl, rfl, id⟩, rfl, rfl⟩
        | some id =>
            simp only [hid id henv]
            exact ⟨_, rfl, ⟨rfl, rfl, rfl, rfl, rfl, fun hs => hs⟩, rfl, rfl⟩
    · cases henv : env.id with
      | none => exact ⟨s, rfl, Steady.refl s, rfl, rfl⟩
      | some id =>
          simp only [hid id henv]
          exact ⟨s, rfl, Steady.refl s, rfl, rfl⟩
    · cases henv : env.id with
      | none => exact ⟨s, rfl, Steady.refl s, rfl, rfl⟩
      | some id =>
          simp only [hid id henv]
          exact ⟨s, rfl, Steady.refl s, rfl, rfl⟩
    · exact ⟨s, rfl, Steady.refl s, rfl, rfl⟩
  obtain ⟨s', hlock, hs, hb, ht⟩ := hlock
  exact ⟨s', by rw [onReply, hlock], Handled.of_idle h hs hb (by rw [ht]) hc⟩

/-- The dispatch of a quiet frame, to its end. -/
theorem handled_spec (h : s.Serving S g) {env : Envelope} {receipt : Receipt}
    (hq : s.Quiet S env receipt) :
    ∃ s', s.handle env receipt = (s', none) ∧ Handled s S g env receipt s' := by
  rw [handle, dispatch]
  rw [Quiet] at hq
  cases hbody : env.body with
  | orderbookSnapshot msg =>
      simp only [hbody] at hq ⊢
      cases hread : readSnapshot msg env receipt s.config.useYesPrice with
      | error e =>
          have hc : changeOf s.config env receipt = none := by
            rw [changeOf, hbody]
            simp only [hread]
          obtain ⟨s', hs', hh⟩ := notDecoded_handled h (e := e)
            (fun he => hq (by rw [hread, he])) hc
          exact ⟨s', by simp only [hs'], hh⟩
      | ok e =>
          have hc : changeOf s.config env receipt =
              some (e.ticker, .snapshot e.bids e.asks) := by
            rw [changeOf, hbody]
            simp only [hread]
          exact ⟨_, rfl, Handled.of_followed h (readSnapshot_address hread).1 hc
            (onSnapshot_followed h e) (Steady.refl _) rfl rfl⟩
  | orderbookDelta msg =>
      simp only [hbody] at hq ⊢
      cases hread : readDelta msg env receipt s.config.useYesPrice with
      | error e =>
          have hc : changeOf s.config env receipt = none := by
            rw [changeOf, hbody]
            simp only [hread]
          obtain ⟨s', hs', hh⟩ := notDecoded_handled h (e := e)
            (fun he => hq (by rw [hread, he])) hc
          exact ⟨s', by simp only [hs'], hh⟩
      | ok e =>
          have hc : changeOf s.config env receipt =
              some (e.ticker, .delta e.side e.price e.delta) := by
            rw [changeOf, hbody]
            simp only [hread]
          have hf := onDelta_followed h e
          have hsid := (readDelta_address hread).1
          simp only []
          cases hreq : (s.onDelta e).2 with
          | none =>
              exact ⟨_, rfl, Handled.of_followed h hsid hc hf (Steady.refl _) rfl rfl⟩
          | some cmd =>
              obtain ⟨s', hsend, hs', hb', ht', -⟩ := sendRequest_spec
                (h.of_steady hf.steady hf.books) (some cmd)
              exact ⟨s', hsend, Handled.of_followed h hsid hc hf hs' hb' ht'⟩
  | market event =>
      simp only [hbody] at hq ⊢
      have hc : changeOf s.config env receipt = none := by rw [changeOf, hbody]
      cases event with
      | error e =>
          obtain ⟨s', hs', hh⟩ := notDecoded_handled h (e := e)
            (fun he => hq (by rw [he])) hc
          exact ⟨s', by simp only [hs'], hh⟩
      | ok e => exact ⟨_, rfl, Handled.of_idle h ⟨rfl, rfl, rfl, rfl, rfl, id⟩ rfl rfl hc⟩
  | subscribed msg =>
      simp only [hbody] at hq ⊢
      have hc : changeOf s.config env receipt = none := by rw [changeOf, hbody]
      cases msg with
      | error e =>
          obtain ⟨s', hs', hh⟩ := notDecoded_handled h (e := .wire e) (by simp) hc
          exact ⟨s', by simp only [hs'], hh⟩
      | ok m => exact onReply_handled h receipt hq hc
  | ok msg =>
      simp only [hbody] at hq ⊢
      exact onReply_handled h receipt hq (by rw [changeOf, hbody])
  | unsubscribed =>
      simp only [hbody] at hq ⊢
      have hc : changeOf s.config env receipt = none := by rw [changeOf, hbody]
      cases hsid : env.sid with
      | none => exact ⟨s, rfl, Handled.of_idle h (Steady.refl s) rfl rfl hc⟩
      | some sid =>
          have hne : sid ≠ S := fun heq => hq (by rw [hsid, heq])
          exact ⟨_, rfl, Handled.of_idle h ⟨rfl, rfl, rfl, rfl, rfl, id⟩ rfl
            (GapTracker.baseline_forget_ne _ hne) hc⟩
  | error msg =>
      simp only [hbody] at hq ⊢
      have hc : changeOf s.config env receipt = none := by rw [changeOf, hbody]
      cases msg with
      | error e =>
          obtain ⟨s', hs', hh⟩ := notDecoded_handled h (e := .wire e) (by simp) hc
          exact ⟨s', by simp only [hs'], hh⟩
      | ok m =>
          have hs₁ : Steady s (s.countErrorFrame m.code env.sid) :=
            ⟨rfl, rfl, rfl, rfl, rfl, id⟩
          by_cases hid : env.id = none
          · simp only [if_pos hid]
            exact ⟨_, rfl, Handled.of_idle h hs₁ rfl rfl hc⟩
          · simp only [if_neg hid]
            obtain ⟨s', hreply, hh⟩ := onReply_handled (h.of_steady hs₁ h.books)
              receipt hq hc
            exact ⟨s', hreply, Handled.of_steady_left hs₁ rfl rfl hh⟩
  | uninterpreted type =>
      exact ⟨s, rfl, Handled.of_idle h (Steady.refl s) rfl rfl (by rw [changeOf, hbody])⟩

/-! ## The whole frame -/

/-- What a frame leaves. `live` is the check and the dispatch one after the
other: the books a fault stales, and the change the frame carries. -/
structure Received (s : Supervisor) (S : Sid) (g : Group) (f : RawFrame) (env : Envelope)
    (s' : Supervisor) : Prop where
  steady : Steady s s'
  keeps : Keeps s s'
  serving : s'.Serving S g
  baseline : s'.tracker.baseline S =
    if env.sid = some S then (s.judged S env).1 else s.tracker.baseline S
  live : ∀ t, s'.live t =
    if env.sid = some S then
      followed g (changeOf s.config env (s.receiptOf f))
        (fun u => if (s.judged S env).2 = true ∧ u ∈ g.tickers then none else s.live u) t
    else s.live t

theorem onFrame_spec (h : s.Serving S g) {f : RawFrame} {env : Envelope}
    (hf : f.payload = .ok env) (hq : s.Quiet S env (s.receiptOf f)) :
    ∃ s', s.onFrame f = (s', none) ∧ Received s S g f env s' := by
  have hs₀ : Steady s (s.countFrame f) := ⟨rfl, rfl, rfl, rfl, rfl, id⟩
  obtain ⟨s₁, hsend, hcheck⟩ :=
    checked_spec (h.of_steady hs₀ h.books) env (s.receiptOf f)
  have hs₁ := hs₀.trans hcheck.steady
  have hreceipt : s₁.receiptOf f = s.receiptOf f := by
    rw [receiptOf, hs₁.config, receiptOf]
  obtain ⟨s', hhandle, hh⟩ := handled_spec hcheck.serving (hq.of_steady hs₁)
  refine ⟨s', ?_, hs₁.trans hh.steady, hcheck.keeps.trans hh.keeps, hh.serving,
    hh.baseline.trans hcheck.baseline, fun t => ?_⟩
  · rw [onFrame, receiveFrame, hf]
    simp only [hsend, hreceipt, hhandle]
  · rw [hh.live, hs₁.config]
    have hlive₁ := fun u => hcheck.live u
    by_cases hsid : env.sid = some S
    · simp only [hsid, if_true, true_and] at hlive₁ ⊢
      rw [show s₁.live = _ from funext hlive₁]
      rfl
    · simp only [hsid, if_false, false_and] at hlive₁ ⊢
      exact hlive₁ t

/-- A frame whose envelope does not decode is counted and recorded. -/
theorem onFrame_malformed (h : s.Serving S g) {f : RawFrame} {e : WireError}
    (hf : f.payload = .error e) :
    ∃ s', s.onFrame f = (s', none) ∧ Steady s s' ∧ Keeps s s' ∧ s'.Serving S g ∧
      s'.tracker = s.tracker ∧ ∀ t, s'.live t = s.live t := by
  have hs' : Steady s (s.countFrame f).decodeError := ⟨rfl, rfl, rfl, rfl, rfl, id⟩
  exact ⟨_, by rw [onFrame, receiveFrame, hf], hs', fun _ ht => ht,
    h.of_steady hs' h.books, rfl, fun _ => rfl⟩

end Supervisor

end Tape
