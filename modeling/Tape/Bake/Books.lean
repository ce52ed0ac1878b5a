import Tape.Bake.Gaps
import Tape.Tally

/-!
# What an hour counts with a sign

The numbers of a manifest are Python integers, and nothing in the interpreter
keeps them from going below zero: that they are counts, and stretches of time,
is said in annotations that only decoding looks at. The books of a segment are
those of its numbers that could go below zero, with what they are counted from.
Here is what each record does to them (`interpret_bookStep`): most leave them
alone, and the others are the ones that follow, stale, freshen or end markets,
open or close spans, or bring a number of their own.
-/

namespace Tape.Bake

/-- The numbers of a segment and its hour that could be negative, and what
they are counted from. -/
structure Books where
  lastWallNs : Option Int
  markets : Dict Ticker Market
  staleMarketNs : Int
  observedMarketNs : Int
  gapCount : Int
  levelsMismatched : Int
  overflowDropped : Int
  connId : Int
  spanOpen : Bool
  /-- The connections of the spans. -/
  spanned : List Int

namespace Books

/-- Time in which a market's book was observed, and in which it was stale. -/
def addBookTime (b : Books) (observedNs staleNs : Int) : Books :=
  { b with
    observedMarketNs := b.observedMarketNs + observedNs
    staleMarketNs := b.staleMarketNs + staleNs }

/-- A market begins to be observed. -/
def observe (b : Books) (ticker : Ticker) (sid : Sid) (wallNs : Int) : Books :=
  match b.markets.get? ticker with
  | some _ => b
  | none => { b with markets := b.markets.set ticker ⟨sid, wallNs, none⟩ }

/-- A market's book is fresh again: its stale time ends. -/
def freshen (b : Books) (ticker : Ticker) (wallNs : Int) : Books :=
  match b.markets.get? ticker with
  | none => b
  | some market =>
      match market.staleSinceWallNs with
      | none => b
      | some since =>
          { b.addBookTime 0 (wallNs - since) with
            markets := b.markets.set ticker { market with staleSinceWallNs := none } }

/-- How long a market was observed when it ends. -/
def observedAt (endWallNs : Int) (market : Market) : Int := max 0 (endWallNs - market.sinceWallNs)

/-- How long it was stale since the last gap, when it ends. -/
def staleAt (endWallNs : Int) (market : Market) : Int :=
  match market.staleSinceWallNs with
  | none => 0
  | some since => max 0 (endWallNs - since)

/-- A market is observed no longer, and its times are counted. -/
def leave (b : Books) (ticker : Ticker) (wallNs : Int) : Books :=
  match b.markets.get? ticker with
  | none => b
  | some market =>
      { b with markets := b.markets.erase ticker }.addBookTime (observedAt wallNs market)
        (staleAt wallNs market)

/-- Some markets are observed no longer. -/
def leaveAll (b : Books) (tickers : List Ticker) (wallNs : Int) : Books :=
  tickers.foldl (fun b t => b.leave t wallNs) b

/-- What a gap does to a market of its subscription. -/
def staled (sid : Sid) (wallNs : Int) (market : Market) : Market :=
  if market.sid = sid ∧ market.staleSinceWallNs = none then
    { market with staleSinceWallNs := some wallNs }
  else market

/-- A connection that is open ends. -/
def closeSpan (b : Books) : Books :=
  if b.spanOpen = true then { b with spanOpen := false, spanned := b.spanned ++ [b.connId] } else b

/-- The mismatched levels of a decided audit are counted. -/
def addAudit (b : Books) (audit : AuditPayload) : Books :=
  match audit.mismatchedLevels with
  | none => b
  | some n =>
      if audit.outcome ≠ .undecidable then
        { b with levelsMismatched := b.levelsMismatched + n }
      else b

/-- A connection opens or closes, or its writer overflowed. -/
def connected (b : Books) (connection : ConnectionPayload) : Books :=
  if connection.event = "open" then { b.closeSpan with spanOpen := true }
  else if connection.event = "close" then b.closeSpan
  else if connection.event = "writer_overflow" then
    { b with overflowDropped := b.overflowDropped + connection.dropped.getD 0 }
  else b

/-- The last record ends the markets and the span. -/
def ended (b : Books) : Books :=
  match b.lastWallNs with
  | none => b
  | some last =>
      (b.addBookTime (b.markets.sum fun _ => observedAt last)
        (b.markets.sum fun _ => staleAt last)).closeSpan

end Books

/-- The audit a record carries, if it is one that decodes. -/
def auditOf (d : Decoders) (r : Record) : Option AuditPayload :=
  match r.kind with
  | .audit => (d.audit r.payload).toOption
  | _ => none

/-- What the recorder told of its connection, if the record is one that decodes. -/
def connectionOf (d : Decoders) (r : Record) : Option ConnectionPayload :=
  match r.kind with
  | .connection => (d.connection r.payload).toOption
  | _ => none

/-- A command and its parameters, if the record is one that decodes. -/
def commandOf (d : Decoders) (r : Record) : Option (String × CommandParams) :=
  match r.kind with
  | .command =>
      match d.command r.payload with
      | .error _ => none
      | .ok command => command.params.map fun params => (command.cmd, params)
  | _ => none

namespace Segment

/-- What a segment knows of its books. -/
def books (s : Segment) : Books :=
  { lastWallNs := s.lastWallNs
    markets := s.markets
    staleMarketNs := s.hour.staleMarketNs
    observedMarketNs := s.hour.observedMarketNs
    gapCount := s.hour.gapCount
    levelsMismatched := s.hour.levelsMismatched
    overflowDropped := s.hour.overflowDropped
    connId := s.connId
    spanOpen := s.spanStart.isSome
    spanned := s.hour.spans.map ConnectionSpan.connId }

/-- The markets a command takes off their subscription. -/
def leaves (s : Segment) (cmd : String) (params : CommandParams) : List Ticker :=
  if cmd = "update_subscription" then
    if params.sid ≠ none ∧ params.action = some "delete_markets" then
      params.marketTickers.getD []
    else []
  else if cmd = "unsubscribe" then s.marketsOn (params.sids.getD [])
  else []

variable {d : Decoders} {s s' s'' : Segment} {r : Record}

/-! ## What one record does to the books -/

/-- A record leaves the books alone, or is one of those that move them. -/
inductive BookStep (d : Decoders) (s s' : Segment) (r : Record) : Prop where
  | same (hof : snapshotOf d s.useYesPrice r = none) (h : s'.books = s.books)
  | seen (ticker : Ticker) (sid : Sid) (hof : snapshotOf d s.useYesPrice r = none)
      (h : s'.books = s.books.observe ticker sid r.recvWallNs)
  | shown (image : BookSnapshot) (hof : snapshotOf d s.useYesPrice r = some image)
      (h : s'.books = (s.books.observe image.ticker image.sid r.recvWallNs).freshen image.ticker
        r.recvWallNs)
  | left (cmd : String) (params : CommandParams) (hof : commandOf d r = some (cmd, params))
      (h : s'.books = s.books.leaveAll (s.leaves cmd params) r.recvWallNs)
  | staled (gap : GapPayload) (hof : gapOf d r = some gap) (markets : Dict Ticker Market)
      (hmarkets : markets = s.markets ∨ gap.sid ∈ s.bookSids ∧
        markets = s.markets.mapValues fun _ market => Books.staled gap.sid r.recvWallNs market)
      (h : s'.books = { s.books with gapCount := s.books.gapCount + 1, markets })
  | audited (audit : AuditPayload) (hof : auditOf d r = some audit)
      (h : s'.books = s.books.addAudit audit)
  | connected (connection : ConnectionPayload) (hof : connectionOf d r = some connection)
      (h : s'.books = s.books.connected connection)

@[simp] theorem books_emitAll (s : Segment) (table : TableName) (rows : List Row) :
    (s.emitAll table rows).books = s.books := by
  rw [emitAll_eq]
  rfl

@[simp] theorem books_fail (s : Segment) (failure : String) (detail : FailureDetail) :
    (s.fail failure detail).books = s.books := by
  rw [fail, onHour, HourInterpreter.fail]
  dsimp only
  split
  · rfl
  · rfl

theorem books_resolveGaps (s : Segment) (sid : Sid) (t : Ticker) (w : Int) :
    (s.resolveGaps sid t w).books = s.books := by
  rw [resolveGaps]
  exact books_emitAll s _ _

theorem books_snapshotReason (s : Segment) (sid : Sid) (t : Ticker) :
    (s.snapshotReason sid t).1.books = s.books := by
  rw [snapshotReason]
  dsimp only
  repeat' split
  all_goals rfl

theorem books_reply (s : Segment) (env : Raw.Envelope) : (s.reply d env).books = s.books := by
  rw [reply]
  split
  · split
    · exact books_fail s _ _
    · split
      · rfl
      · rfl
  · rfl

theorem books_observe (s : Segment) (t : Ticker) (sid : Sid) (w : Int) :
    (s.observe t sid w).books = s.books.observe t sid w := by
  rw [observe, Books.observe]
  show _ = match s.markets.get? t with | some _ => _ | none => _
  cases s.markets.get? t with
  | some m => rfl
  | none => rfl

theorem books_freshen (s : Segment) (t : Ticker) (w : Int) :
    (s.freshen t w).books = s.books.freshen t w := by
  rw [freshen, Books.freshen]
  show _ = match s.markets.get? t with | none => _ | some market => _
  cases s.markets.get? t with
  | none => rfl
  | some m =>
      dsimp only
      cases m.staleSinceWallNs with
      | none => rfl
      | some since => rfl

theorem books_leave (s : Segment) (t : Ticker) (w : Int) :
    (s.leave t w).books = s.books.leave t w := by
  rw [leave, Books.leave]
  show _ = match s.markets.get? t with | none => _ | some market => _
  cases s.markets.get? t with
  | none => rfl
  | some m => rfl

theorem books_leaveAll (tickers : List Ticker) (s : Segment) (w : Int) :
    (s.leaveAll tickers w).books = s.books.leaveAll tickers w := by
  induction tickers generalizing s with
  | nil => rfl
  | cons t rest ih =>
      rw [leaveAll, List.foldl_cons, ← leaveAll, ih, books_leave]
      rfl

theorem books_closeSpan (s : Segment) (w : Int) (closed : Bool) :
    (s.closeSpan w closed).books = s.books.closeSpan := by
  rw [closeSpan, Books.closeSpan]
  show _ = if s.spanStart.isSome = true then _ else _
  cases s.spanStart with
  | none => rfl
  | some start =>
      rw [if_pos (Option.isSome_some)]
      simp [books, onHour, HourInterpreter.addSpan]

/-- A data frame other than a snapshot. -/
theorem bookStep_dataFrame {env : Raw.Envelope} (hof : snapshotOf d s.useYesPrice r = none)
    (htype : env.type ≠ "orderbook_snapshot")
    (h : s.dataFrame d env (receiptOf r) = .ok s') (source : String) :
    BookStep d s (s'.onHour fun h => h.countBaked source) r := by
  rw [dataFrame] at h
  split at h
  · rw [delta] at h
    split at h
    · cases h
    · next delta hread =>
        obtain rfl := Except.ok.inj h
        exact .seen delta.ticker delta.sid hof (books_observe _ _ _ _)
  · next heq => exact absurd heq htype
  · rw [trade] at h
    split at h
    · cases h
    · obtain rfl := Except.ok.inj h
      exact .same hof rfl
  all_goals
    rw [lifecycle.eq_def] at h
    split at h
    · cases h
    · obtain rfl := Except.ok.inj h
      exact .same hof rfl

theorem books_beforeRows (s : Segment) (image : BookSnapshot) (receipt : Receipt) :
    (s.beforeRows image receipt).books =
      (s.books.observe image.ticker image.sid receipt.recvWallNs).freshen image.ticker
        receipt.recvWallNs := by
  rw [beforeRows, books_freshen, books_observe]
  show ((s.snapshotReason image.sid image.ticker).1.books.observe _ _ _).freshen _ _ = _
  rw [books_snapshotReason]

/-- What a record does that carries a snapshot. -/
theorem frame_of_snapshotOf {image : BookSnapshot}
    (hof : snapshotOf d s.useYesPrice r = some image) :
    s.frame d r = .ok ((((s.beforeRows image (receiptOf r)).emitAll .snapshots
      (snapshotRows image (receiptOf r) (s.snapshotReason image.sid image.ticker).2)).resolveGaps
        image.sid image.ticker r.recvWallNs).onHour fun h =>
          h.countBaked "orderbook_snapshot") := by
  rw [snapshotOf] at hof
  split at hof
  · split at hof
    · cases hof
    · next env henv =>
        split at hof
        · next htype =>
            cases hread : readSnapshot (decodeMsg env d.orderbookSnapshot) env.address
                (receiptOf r) s.useYesPrice with
            | error e =>
                rw [hread] at hof
                cases hof
            | ok image' =>
                rw [hread] at hof
                obtain rfl := Option.some.inj hof
                rw [frame, decodeEnvelope, henv]
                dsimp only
                rw [htype, if_neg (by decide), if_neg (by decide), dataFrame, htype, ← receiptOf]
                rw [snapshot_eq hread]
                rfl
        · cases hof
  · cases hof

theorem bookStep_frame (hk : r.kind = .frame) (h : s.frame d r = .ok s') : BookStep d s s' r := by
  cases hof : snapshotOf d s.useYesPrice r with
  | some image =>
      rw [frame_of_snapshotOf hof] at h
      obtain rfl := Except.ok.inj h
      refine .shown image hof ((books_resolveGaps _ _ _ _).trans ?_)
      rw [books_emitAll, books_beforeRows]
      rfl
  | none =>
      rw [frame, decodeEnvelope] at h
      cases henv : d.envelope r.payload with
      | error e =>
          rw [henv] at h
          obtain rfl := Except.ok.inj h
          exact .same hof (books_fail s _ _)
      | ok env =>
          rw [henv] at h
          dsimp only at h
          split at h
          · obtain rfl := Except.ok.inj h
            exact .same hof (books_reply s env)
          · split at h
            · obtain rfl := Except.ok.inj h
              exact .same hof (books_fail s _ _)
            · split at h
              · split at h
                · cases h
                · obtain rfl := Except.ok.inj h
                  exact .same hof (books_fail s _ _)
              · next s₁ he =>
                  obtain rfl := Except.ok.inj h
                  refine bookStep_dataFrame hof (fun htype => ?_) he _
                  -- an image that converts is the snapshot of its record
                  rw [@snapshotOf_of_frame d r s.useYesPrice env hk henv, if_pos htype] at hof
                  rw [dataFrame, htype, ← receiptOf] at he
                  cases hread : readSnapshot (decodeMsg env d.orderbookSnapshot) env.address
                      (receiptOf r) s.useYesPrice with
                  | error e =>
                      rw [snapshot, hread] at he
                      cases he
                  | ok image =>
                      rw [hread] at hof
                      cases hof

theorem bookStep_command (hk : r.kind = .command) : BookStep d s (s.command d r) r := by
  have hnone : snapshotOf d s.useYesPrice r = none := snapshotOf_of_kind (by rw [hk]; decide)
  rw [command]
  cases hdecode : d.command r.payload with
  | error e => exact .same hnone (books_fail s _ _)
  | ok command =>
      dsimp only
      cases hparams : command.params with
      | none => exact .same hnone rfl
      | some params =>
          have hof : commandOf d r = some (command.cmd, params) := by
            rw [commandOf, hk]
            dsimp only
            rw [hdecode]
            dsimp only
            rw [hparams]
            rfl
          dsimp only
          rw [commanded]
          refine .left command.cmd params hof ?_
          rw [leaves]
          have hmarkets : (s.onHour fun h => h.countNotBaked "command").marketsOn
            (params.sids.getD []) = s.marketsOn (params.sids.getD []) := rfl
          split
          · cases hsid : params.sid with
            | none => rfl
            | some sid =>
                dsimp only
                split
                · next hsnapshot =>
                    rw [if_neg]
                    · rfl
                    · rintro ⟨-, hdelete⟩
                      rw [hsnapshot] at hdelete
                      exact absurd hdelete (by decide)
                · split
                  · next hdelete =>
                      rw [if_pos ⟨(by rintro ⟨⟩), hdelete⟩, books_leaveAll]
                      rfl
                  · next hdelete =>
                      rw [if_neg fun h => hdelete h.2]
                      rfl
          · split
            · rw [books_leaveAll, hmarkets]
              rfl
            · rfl

theorem bookStep_gap (hk : r.kind = .gap) : BookStep d s (s.gap d r) r := by
  have hnone : snapshotOf d s.useYesPrice r = none := snapshotOf_of_kind (by rw [hk]; decide)
  rw [gap]
  cases hdecode : d.gap r.payload with
  | error e => exact .same hnone (books_fail s _ _)
  | ok gap =>
      have hof : gapOf d r = some gap := by
        rw [gapOf, hk]
        dsimp only
        rw [hdecode]
        rfl
      dsimp only
      rw [goStale]
      split
      · next hbook =>
          refine .staled gap hof _ (.inr ⟨hbook, rfl⟩) ?_
          dsimp only
          split
          · rfl
          · rfl
      · refine .staled gap hof s.markets (.inl rfl) ?_
        rfl

theorem bookStep_audit (hk : r.kind = .audit) (h : s.audit d r = .ok s') : BookStep d s s' r := by
  have hnone : snapshotOf d s.useYesPrice r = none := snapshotOf_of_kind (by rw [hk]; decide)
  rw [audit] at h
  cases hdecode : d.audit r.payload with
  | error e =>
      rw [hdecode] at h
      obtain rfl := Except.ok.inj h
      exact .same hnone (books_fail s _ _)
  | ok audit =>
      have hof : auditOf d r = some audit := by
        rw [auditOf, hk]
        dsimp only
        rw [hdecode]
        rfl
      rw [hdecode] at h
      dsimp only at h
      split at h
      · cases h
      · split at h
        · cases h
        · obtain rfl := Except.ok.inj h
          refine .audited audit hof ?_
          rw [emit, onHour, onHour, HourInterpreter.addAudit.eq_def, Books.addAudit]
          cases audit.mismatchedLevels with
          | none => rfl
          | some n =>
              dsimp only
              split
              · rfl
              · rfl

theorem bookStep_connection (hk : r.kind = .connection) : BookStep d s (s.connection d r) r := by
  have hnone : snapshotOf d s.useYesPrice r = none := snapshotOf_of_kind (by rw [hk]; decide)
  rw [connection]
  cases hdecode : d.connection r.payload with
  | error e => exact .same hnone (books_fail s _ _)
  | ok connection =>
      have hof : connectionOf d r = some connection := by
        rw [connectionOf, hk]
        dsimp only
        rw [hdecode]
        rfl
      refine .connected connection hof ?_
      dsimp only
      have hlast : ∀ (s₁ : Segment) (p : Prop) [Decidable p],
          (if p then { s₁ with lastEvent := some connection.event, lastDetail := connection.detail }
            else s₁).books = s₁.books := by
        intro s₁ p _
        split
        · rfl
        · rfl
      rw [connected, hlast, Books.connected]
      by_cases hopen : connection.event = "open"
      · rw [if_pos hopen, if_pos hopen]
        have hclosed := books_closeSpan (s.onHour fun h => h.countNotBaked "connection")
          r.recvWallNs false
        exact congrArg (fun b => { b with spanOpen := true }) hclosed
      · rw [if_neg hopen, if_neg hopen]
        by_cases hclose : connection.event = "close"
        · rw [if_pos hclose, if_pos hclose]
          exact books_closeSpan _ _ _
        · rw [if_neg hclose, if_neg hclose]
          by_cases hjump : connection.event = "clock_jump"
          · rw [if_pos hjump, if_neg (by rw [hjump]; decide)]
            split
            · split
              · rw [onHour, HourInterpreter.addSleep]
                split
                · rfl
                · rfl
              · rfl
            · rfl
          · rw [if_neg hjump]
            by_cases hover : connection.event = "writer_overflow"
            · rw [if_pos hover, if_pos hover]
              cases connection.dropped with
              | none =>
                  show s.books = { s.books with overflowDropped := s.books.overflowDropped + 0 }
                  rw [Int.add_zero]
              | some n => rfl
            · rw [if_neg hover, if_neg hover]
              rfl

theorem interpret_bookStep (h : s.interpret d r = .ok s') : BookStep d s s' r := by
  rw [interpret.eq_def] at h
  cases hk : r.kind with
  | frame =>
      rw [hk] at h
      exact bookStep_frame hk h
  | command =>
      rw [hk] at h
      obtain rfl := Except.ok.inj h
      exact bookStep_command hk
  | gap =>
      rw [hk] at h
      obtain rfl := Except.ok.inj h
      exact bookStep_gap hk
  | connection =>
      rw [hk] at h
      obtain rfl := Except.ok.inj h
      exact bookStep_connection hk
  | audit =>
      rw [hk] at h
      exact bookStep_audit hk h

end Segment

end Tape.Bake
