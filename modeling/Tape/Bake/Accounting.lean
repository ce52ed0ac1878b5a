import Tape.Bake.Interpret

/-!
# Every record is accounted for, and every row has its record

What `interpret` does to the accounts is said once, by `Entered`: a record is
counted under one outcome, and the rows it gives are those of the outcome. Gap
rows may come later, so what a record owes is settled over the rows and the
pending gaps together.

Two things take a record out of the accounts, and both are exceptions that
nothing catches: a numeral of a million digits, and a text that is not UTF-8.
`hour_conserves_iff` says that there is nothing else.
-/

namespace Tape.Bake

/-- What a record is counted as. -/
inductive Outcome where
  | baked (source : String)
  | notBaked (reason : String)
  | failed (failure : String)
  deriving DecidableEq, Repr

namespace Outcome

/-- The counters with the outcome counted. -/
def count (c : Counters) : Outcome → Counters
  | .baked source => { c with baked := c.baked.bump source }
  | .notBaked reason => { c with notBaked := c.notBaked.bump reason }
  | .failed failure => { c with decodeFailures := c.decodeFailures.bump failure }

end Outcome

/-- The frame types of the lifecycle table. -/
def lifecycleTypes : List String := ["market_lifecycle_v2", "event_lifecycle", "event_fee_update"]

/-- The rows of a table among some rows. -/
def rowsOf (table : TableName) (rows : List (TableName × Row)) : List Row :=
  (rows.filter fun e => e.1 = table).map Prod.snd

@[simp] theorem rowsOf_nil (table : TableName) : rowsOf table [] = [] := rfl

@[simp] theorem rowsOf_append (table : TableName) (rows more : List (TableName × Row)) :
    rowsOf table (rows ++ more) = rowsOf table rows ++ rowsOf table more := by
  simp [rowsOf]

theorem rowsOf_map_self (table : TableName) (rows : List Row) :
    rowsOf table (rows.map fun row => (table, row)) = rows := by
  rw [rowsOf, List.filter_map, List.map_map]
  simp [Function.comp_def]

theorem rowsOf_map_ne {table table' : TableName} (h : table' ≠ table) (rows : List Row) :
    rowsOf table (rows.map fun row => (table', row)) = [] := by
  rw [rowsOf, List.filter_map]
  simp [Function.comp_def, h]

/-- How many rows an outcome puts into a table at once. -/
def Outcome.rowsIn : Outcome → TableName → Nat
  | .baked source, .deltas => if source = "orderbook_delta" then 1 else 0
  | .baked source, .trades => if source = "trade" then 1 else 0
  | .baked source, .audits => if source = "audit" then 1 else 0
  | .baked source, .lifecycle => if source ∈ lifecycleTypes then 1 else 0
  | _, _ => 0

/-! ## What a record is, whatever the state it is fed in -/

/-- The receipt a record carries. -/
def receiptOf (r : Record) : Receipt := ⟨r.connId, r.recvMonoNs, r.recvWallNs⟩

/-- The snapshot a record carries, if it is one that decodes. -/
def snapshotOf (d : Decoders) (useYesPrice : Bool) (r : Record) : Option BookSnapshot :=
  match r.kind with
  | .frame =>
      match d.envelope r.payload with
      | .error _ => none
      | .ok env =>
          if env.type = "orderbook_snapshot" then
            (readSnapshot (decodeMsg env d.orderbookSnapshot) env.address (receiptOf r)
              useYesPrice).toOption
          else none
  | _ => none

/-- The gap a record carries, if it is one that decodes. -/
def gapOf (d : Decoders) (r : Record) : Option GapPayload :=
  match r.kind with
  | .gap => (d.gap r.payload).toOption
  | _ => none

/-- A gap row without the receipt that resolves it. -/
def base (row : Row) : Row := row.dropLast

/-- What a record owes the gaps table. -/
def owes (d : Decoders) (r : Record) : List Row :=
  ((gapOf d r).map fun gap => base (Segment.gapRow gap r)).toList

/-- The reasons a snapshot may be given. -/
def reasons : List Int := [snapshotInitial, snapshotResync, snapshotReconnect]

/-- The rows a data frame gives at once, an image's with a reason. -/
def frameRows (d : Decoders) (useYesPrice : Bool) (reason : Int) (env : Raw.Envelope)
    (receipt : Receipt) : List (TableName × Row) :=
  match env.type with
  | "orderbook_delta" =>
      ((readDelta (decodeMsg env d.orderbookDelta) env.address receipt
        useYesPrice).toOption.map fun delta =>
          (TableName.deltas, Segment.deltaRow delta receipt)).toList
  | "orderbook_snapshot" =>
      ((readSnapshot (decodeMsg env d.orderbookSnapshot) env.address receipt
        useYesPrice).toOption.map fun image =>
          (Segment.snapshotRows image receipt reason).map fun row =>
            (TableName.snapshots, row)).getD []
  | "trade" =>
      ((Segment.readTrade d env receipt).toOption.map fun trade =>
        (TableName.trades, Segment.tradeRow trade receipt)).toList
  | "market_lifecycle_v2" =>
      ((Segment.readMarketLifecycle d env receipt).toOption.map fun row =>
        (TableName.lifecycle, row)).toList
  | type =>
      if type ∈ bakedFrameTypes then
        ((Segment.readEventMessage d env receipt).toOption.map fun row =>
          (TableName.lifecycle, row)).toList
      else []

/-- The rows a record gives at once, whatever the state it is fed in. -/
def rowsGiven (d : Decoders) (useYesPrice : Bool) (reason : Int) (r : Record) :
    List (TableName × Row) :=
  match r.kind with
  | .frame =>
      match d.envelope r.payload with
      | .error _ => []
      | .ok env => frameRows d useYesPrice reason env (receiptOf r)
  | .audit =>
      match d.audit r.payload with
      | .error _ => []
      | .ok audit =>
          match Segment.rawText audit.restLevels, Segment.rawText audit.localLevels with
          | .ok restLevels, .ok localLevels =>
              [(.audits, Segment.auditRow audit r restLevels localLevels)]
          | _, _ => []
  | _ => []

/-- How many rows an image has: one, at least. -/
def imageRows (snapshot : BookSnapshot) : Nat := max 1 (snapshot.bids.length + snapshot.asks.length)

namespace Segment

variable {s s' s'' : Segment}

/-! ## What leaves the accounts alone -/

/-- The rows, the counters and the pending gaps stay, and the header. -/
structure Quiet (s s' : Segment) : Prop where
  rows : s'.hour.rows = s.hour.rows
  counters : s'.hour.counters = s.hour.counters
  pending : s'.pendingGaps = s.pendingGaps
  price : s'.useYesPrice = s.useYesPrice

theorem Quiet.refl (s : Segment) : Quiet s s := ⟨rfl, rfl, rfl, rfl⟩

theorem Quiet.trans (h : Quiet s s') (h' : Quiet s' s'') : Quiet s s'' :=
  ⟨h'.rows.trans h.rows, h'.counters.trans h.counters, h'.pending.trans h.pending,
    h'.price.trans h.price⟩

theorem quiet_observe (s : Segment) (t : Ticker) (sid : Sid) (w : Int) :
    Quiet s (s.observe t sid w) := by
  rw [observe]
  split <;> exact ⟨rfl, rfl, rfl, rfl⟩

theorem quiet_endMarket (s : Segment) (m : Market) (w : Int) : Quiet s (s.endMarket m w) :=
  ⟨rfl, rfl, rfl, rfl⟩

theorem quiet_leave (s : Segment) (t : Ticker) (w : Int) : Quiet s (s.leave t w) := by
  rw [leave]
  split <;> exact ⟨rfl, rfl, rfl, rfl⟩

theorem quiet_leaveAll (s : Segment) (ts : List Ticker) (w : Int) : Quiet s (s.leaveAll ts w) := by
  induction ts generalizing s with
  | nil => exact .refl s
  | cons t ts ih => exact (quiet_leave s t w).trans (ih _)

theorem quiet_closeSpan (s : Segment) (w : Int) (closed : Bool) :
    Quiet s (s.closeSpan w closed) := by
  rw [closeSpan]
  split <;> exact ⟨rfl, rfl, rfl, rfl⟩

theorem quiet_freshen (s : Segment) (t : Ticker) (w : Int) : Quiet s (s.freshen t w) := by
  rw [freshen]
  split
  · exact .refl s
  · split <;> exact ⟨rfl, rfl, rfl, rfl⟩

theorem quiet_goStale (s : Segment) (sid : Sid) (w : Int) : Quiet s (s.goStale sid w).1 := by
  rw [goStale]
  split <;> exact ⟨rfl, rfl, rfl, rfl⟩

theorem quiet_snapshotReason (s : Segment) (sid : Sid) (t : Ticker) :
    Quiet s (s.snapshotReason sid t).1 := by
  rw [snapshotReason]
  dsimp only
  split
  · split
    · exact ⟨rfl, rfl, rfl, rfl⟩
    · split
      · exact ⟨rfl, rfl, rfl, rfl⟩
      · split <;> exact ⟨rfl, rfl, rfl, rfl⟩
  · split
    · exact ⟨rfl, rfl, rfl, rfl⟩
    · split <;> exact ⟨rfl, rfl, rfl, rfl⟩

theorem quiet_commanded (s : Segment) (cmd : String) (params : CommandParams) (w : Int) :
    Quiet s (s.commanded cmd params w) := by
  rw [commanded]
  split
  · split
    · exact .refl s
    · split
      · exact ⟨rfl, rfl, rfl, rfl⟩
      · split
        · exact quiet_leaveAll s _ w
        · exact .refl s
  · split
    · exact quiet_leaveAll s _ w
    · exact .refl s

theorem quiet_addSleep (s : Segment) (sleep : Sleep) :
    Quiet s (s.onHour fun h => h.addSleep sleep) := by
  rw [onHour, HourInterpreter.addSleep]
  split <;> exact ⟨rfl, rfl, rfl, rfl⟩

theorem quiet_connected (s : Segment) (c : ConnectionPayload) (w : Int) :
    Quiet s (s.connected c w) := by
  delta connected
  extract_lets event closed t
  have hfirst : Quiet s t := by
    dsimp only [t]
    split
    · exact (quiet_closeSpan s w false).trans ⟨rfl, rfl, rfl, rfl⟩
    · split
      · exact quiet_closeSpan s w true
      · split
        · split
          · split
            · exact quiet_addSleep s _
            · exact .refl s
          · exact .refl s
        · split
          · split
            · exact ⟨rfl, rfl, rfl, rfl⟩
            · exact .refl s
          · exact .refl s
  split
  · exact hfirst.trans ⟨rfl, rfl, rfl, rfl⟩
  · exact hfirst

/-! ## Rows -/

theorem emitAll_eq (s : Segment) (table : TableName) (rows : List Row) :
    s.emitAll table rows =
      s.onHour fun h => { h with rows := h.rows ++ rows.map fun row => (table, row) } := by
  induction rows generalizing s with
  | nil => simp [emitAll, onHour]
  | cons row rows ih =>
      rw [emitAll, List.foldl_cons]
      have hrest := ih (s.emit table row)
      rw [emitAll] at hrest
      rw [hrest]
      simp [emit, onHour, HourInterpreter.emit]

/-- Every pending gap is owed, and a resolved one is given. -/
theorem resolved_perm (sid : Sid) (t : Ticker) (w : Int) (gaps : List PendingGap) :
    ((resolved sid t w gaps).2.map base ++ (resolved sid t w gaps).1.map fun p => base p.row).Perm
      (gaps.map fun p => base p.row) := by
  induction gaps with
  | nil => exact List.Perm.refl _
  | cons p rest ih =>
      have hbase : base (p.row.dropLast ++ [.int w]) = base p.row := List.dropLast_concat
      rw [resolved]
      dsimp only
      split
      · split
        · rw [List.map_cons, List.map_cons, hbase]
          exact ih.cons _
        · rw [List.map_cons, List.map_cons]
          exact List.perm_middle.trans (ih.cons _)
      · rw [List.map_cons, List.map_cons]
        exact List.perm_middle.trans (ih.cons _)

/-- What is resolved ends with the receipt, and what stays pending is as it
was. -/
theorem resolved_rows (sid : Sid) (t : Ticker) (w : Int) (gaps : List PendingGap) :
    (∀ row ∈ (resolved sid t w gaps).2, row = base row ++ [.int w]) ∧
      ∀ p ∈ (resolved sid t w gaps).1, ∃ q ∈ gaps, p.row = q.row := by
  induction gaps with
  | nil => exact ⟨nofun, nofun⟩
  | cons p rest ih =>
      obtain ⟨hrows, hpending⟩ := ih
      have hrest : ∀ q ∈ (resolved sid t w rest).1, ∃ q' ∈ p :: rest, q.row = q'.row :=
        fun q hq => by
        obtain ⟨q', hin, heq⟩ := hpending q hq
        exact ⟨q', List.mem_cons_of_mem _ hin, heq⟩
      have hfirst : ∀ waiting, ∀ q ∈ { p with waiting } :: (resolved sid t w rest).1,
          ∃ q' ∈ p :: rest, q.row = q'.row := fun waiting q hq => by
        rcases List.mem_cons.mp hq with rfl | hq
        · exact ⟨p, List.mem_cons_self, rfl⟩
        · exact hrest q hq
      rw [resolved]
      dsimp only
      split
      · split
        · refine ⟨fun row hrow => ?_, hrest⟩
          rcases List.mem_cons.mp hrow with rfl | hrow
          · rw [base, List.dropLast_concat]
          · exact hrows row hrow
        · exact ⟨hrows, hfirst _⟩
      · exact ⟨hrows, hfirst p.waiting⟩

theorem snapshotReason_mem (s : Segment) (sid : Sid) (t : Ticker) :
    (s.snapshotReason sid t).2 ∈ reasons := by
  have hinitial : snapshotInitial ∈ reasons := by decide
  have hresync : snapshotResync ∈ reasons := by decide
  have hreconnect : snapshotReconnect ∈ reasons := by decide
  rw [snapshotReason]
  dsimp only
  split
  · split
    · exact hresync
    · split
      · exact hresync
      · split
        · exact hreconnect
        · exact hinitial
  · split
    · exact hresync
    · split
      · exact hreconnect
      · exact hinitial

/-! ## What a record adds to the accounts -/

/-- A record is counted under an outcome; its rows are the outcome's, and gap
rows are settled over the rows and the pending gaps. `owed` is what the record
itself owes the gaps table. -/
structure Entered (s s' : Segment) (outcome : Outcome) (owed : List Row)
    (more : List (TableName × Row)) : Prop where
  counters : s'.hour.counters = outcome.count s.hour.counters
  rows : s'.hour.rows = s.hour.rows ++ more
  given : ∀ table, table ≠ .snapshots → table ≠ .gaps →
    (rowsOf table more).length = outcome.rowsIn table
  gaps : ((rowsOf .gaps more).map base ++ s'.pendingGaps.map fun p => base p.row).Perm
    ((s.pendingGaps.map fun p => base p.row) ++ owed)
  price : s'.useYesPrice = s.useYesPrice

theorem Entered.after {outcome : Outcome} {owed : List Row} {rows : List (TableName × Row)}
    (h : Entered s s' outcome owed rows) (hq : Quiet s' s'') :
    Entered s s'' outcome owed rows where
  counters := hq.counters.trans h.counters
  rows := hq.rows.trans h.rows
  given := h.given
  gaps := by
    rw [hq.pending]
    exact h.gaps
  price := hq.price.trans h.price

theorem Entered.before {outcome : Outcome} {owed : List Row} {rows : List (TableName × Row)}
    (hq : Quiet s s') (h : Entered s' s'' outcome owed rows) :
    Entered s s'' outcome owed rows where
  counters := by
    rw [h.counters, hq.counters]
  rows := by
    rw [h.rows, hq.rows]
  given := h.given
  gaps := by
    rw [← hq.pending]
    exact h.gaps
  price := h.price.trans hq.price

/-- A record that gives no row. -/
theorem Entered.silent {outcome : Outcome} (hc : s'.hour.counters = outcome.count s.hour.counters)
    (hr : s'.hour.rows = s.hour.rows) (hp : s'.pendingGaps = s.pendingGaps)
    (hy : s'.useYesPrice = s.useYesPrice)
    (hnone : ∀ table, table ≠ .snapshots → table ≠ .gaps → outcome.rowsIn table = 0) :
    Entered s s' outcome [] [] where
  counters := hc
  rows := by rw [hr, List.append_nil]
  given table hs hg := (hnone table hs hg).symm
  gaps := by
    rw [hp, List.append_nil]
    exact List.Perm.refl _
  price := hy

theorem entered_fail (s : Segment) (failure : String) (detail : FailureDetail) :
    Entered s (s.fail failure detail) (.failed failure) [] [] := by
  have hfail : (s.hour.fail failure s.name s.records detail).counters =
      Outcome.count s.hour.counters (.failed failure) ∧
      (s.hour.fail failure s.name s.records detail).rows = s.hour.rows := by
    rw [HourInterpreter.fail]
    dsimp only
    split <;> exact ⟨rfl, rfl⟩
  exact .silent hfail.1 hfail.2 rfl rfl fun table _ _ => by cases table <;> rfl

theorem entered_notBaked (s : Segment) (reason : String) :
    Entered s (s.onHour fun h => h.countNotBaked reason) (.notBaked reason) [] [] :=
  .silent rfl rfl rfl rfl fun table _ _ => by cases table <;> rfl

/-- A frame gives one row of a table at once. -/
theorem entered_emit {table : TableName} {source : String} (s : Segment) (row : Row)
    (hs : table ≠ .snapshots) (hg : table ≠ .gaps)
    (hin : ∀ t, (Outcome.baked source).rowsIn t = if t = table then 1 else 0) :
    Entered s ((s.emit table row).onHour fun h => h.countBaked source) (.baked source) []
      [(table, row)] where
  counters := rfl
  rows := rfl
  given t _ _ := by
    rw [hin]
    by_cases ht : t = table
    · subst ht
      simp [rowsOf]
    · rw [if_neg ht]
      simp [rowsOf, Ne.symm ht]
  gaps := by
    have hnone : rowsOf .gaps [(table, row)] = [] := by simp [rowsOf, hg]
    rw [hnone, List.append_nil]
    exact List.Perm.refl _
  price := rfl

/-! ## Frames -/

/-- The rows of an image, and the gaps it settles. -/
theorem entered_snapshot (s : Segment) (rows : List Row) (sid : Sid) (t : Ticker) (w : Int) :
    Entered s (((s.emitAll .snapshots rows).resolveGaps sid t w).onHour fun h =>
      h.countBaked "orderbook_snapshot") (.baked "orderbook_snapshot") []
      (rows.map (fun row => (TableName.snapshots, row)) ++
        (resolved sid t w s.pendingGaps).2.map fun row => (TableName.gaps, row)) := by
  have hstep : (((s.emitAll .snapshots rows).resolveGaps sid t w).onHour fun h =>
      h.countBaked "orderbook_snapshot").hour.rows = s.hour.rows ++
        (rows.map (fun row => (TableName.snapshots, row)) ++
          (resolved sid t w s.pendingGaps).2.map fun row => (TableName.gaps, row)) := by
    rw [resolveGaps]
    simp only [emitAll_eq, onHour, HourInterpreter.countBaked, List.append_assoc]
  have hpending : (((s.emitAll .snapshots rows).resolveGaps sid t w).onHour fun h =>
      h.countBaked "orderbook_snapshot").pendingGaps = (resolved sid t w s.pendingGaps).1 := by
    rw [resolveGaps]
    simp only [emitAll_eq, onHour]
  refine ⟨?_, hstep, fun table hs hg => ?_, ?_, ?_⟩
  · rw [resolveGaps]
    simp only [emitAll_eq, onHour]
    rfl
  · rw [rowsOf_append, rowsOf_map_ne hs.symm, rowsOf_map_ne hg.symm]
    cases table <;> rfl
  · rw [hpending, rowsOf_append, @rowsOf_map_ne .gaps .snapshots nofun, rowsOf_map_self,
      List.nil_append, List.append_nil]
    exact resolved_perm sid t w s.pendingGaps
  · rw [resolveGaps]
    simp only [emitAll_eq, onHour]

theorem length_snapshotRows (snapshot : BookSnapshot) (receipt : Receipt) (reason : Int) :
    (snapshotRows snapshot receipt reason).length = imageRows snapshot := by
  have hrows : (snapshot.bids.map (levelRow snapshot receipt reason 0) ++
      snapshot.asks.map (levelRow snapshot receipt reason 1)).length =
      snapshot.bids.length + snapshot.asks.length := by
    rw [List.length_append, List.length_map, List.length_map]
  rw [snapshotRows, imageRows]
  split
  · next hnil =>
      rw [hnil, List.length_nil] at hrows
      rw [← hrows]
      rfl
  · next hne =>
      rw [hrows]
      have hpos := List.length_pos_iff.mpr hne
      omega

/-- The pending gaps are not resolved yet. -/
def Open (s : Segment) : Prop := ∀ p ∈ s.pendingGaps, p.row = base p.row ++ [.null]

theorem Open.of_same (h : Open s) (hp : s'.pendingGaps = s.pendingGaps) : Open s' := by
  rw [Open, hp]
  exact h

/-- What a record does to the accounts. -/
structure Accounts (d : Decoders) (s s' : Segment) (r : Record) (outcome : Outcome)
    (more : List (TableName × Row)) : Prop where
  entered : Entered s s' outcome (owes d r) more
  silent : ∀ failure, outcome = .failed failure → more = []
  image : (rowsOf .snapshots more).length =
    ((snapshotOf d s.useYesPrice r).map imageRows).getD 0
  snapshot : outcome = .baked "orderbook_snapshot" ↔ (snapshotOf d s.useYesPrice r).isSome
  gap : outcome = .baked "gap" ↔ (gapOf d r).isSome
  given : ∃ reason ∈ reasons,
    more.filter (fun e => e.1 ≠ .gaps) = rowsGiven d s.useYesPrice reason r
  /-- A gap row ends with nothing, or with the receipt of the image that
  resolves it. -/
  closed : Open s → Open s' ∧ ∀ row, (TableName.gaps, row) ∈ more →
    row = base row ++ [.null] ∨
      (snapshotOf d s.useYesPrice r).isSome ∧ row = base row ++ [.int r.recvWallNs]

variable {d : Decoders} {r : Record} {outcome : Outcome} {more : List (TableName × Row)}

/-- A record that is neither an image nor a gap. -/
theorem Accounts.plain (h : Entered s s' outcome [] more)
    (hsnapshot : snapshotOf d s.useYesPrice r = none) (hgap : gapOf d r = none)
    (hs : outcome ≠ .baked "orderbook_snapshot") (hg : outcome ≠ .baked "gap")
    (hsilent : ∀ failure, outcome = .failed failure → more = [])
    (hrows : rowsOf .snapshots more = []) (hpending : s'.pendingGaps = s.pendingGaps)
    (hgiven : rowsGiven d s.useYesPrice snapshotInitial r = more)
    (hnone : ∀ e ∈ more, e.1 ≠ .gaps) : Accounts d s s' r outcome more where
  entered := by
    rw [owes, hgap]
    exact h
  silent := hsilent
  image := by
    rw [hrows, hsnapshot]
    rfl
  snapshot := by simp [hs, hsnapshot]
  gap := by simp [hg, hgap]
  given := by
    refine ⟨snapshotInitial, List.mem_cons_self, ?_⟩
    rw [hgiven, List.filter_eq_self]
    exact fun e he => decide_eq_true (hnone e he)
  closed ho := ⟨ho.of_same hpending, fun row hrow => absurd rfl (hnone _ hrow)⟩

theorem Accounts.after (h : Accounts d s s' r outcome more) (hq : Quiet s' s'') :
    Accounts d s s'' r outcome more :=
  { h with
    entered := h.entered.after hq
    closed := fun ho => ⟨(h.closed ho).1.of_same hq.pending, (h.closed ho).2⟩ }

theorem accounts_fail {failure : String} {detail : FailureDetail}
    (hsnapshot : snapshotOf d s.useYesPrice r = none) (hgap : gapOf d r = none)
    (hgiven : rowsGiven d s.useYesPrice snapshotInitial r = []) :
    Accounts d s (s.fail failure detail) r (.failed failure) [] :=
  .plain (entered_fail s failure detail) hsnapshot hgap nofun nofun (fun _ _ => rfl) rfl rfl
    hgiven nofun

theorem gapOf_of_kind (h : r.kind ≠ .gap) : gapOf d r = none := by
  cases hk : r.kind with
  | gap => exact absurd hk h
  | _ => rw [gapOf, hk]

theorem snapshotOf_of_kind {useYesPrice : Bool} (h : r.kind ≠ .frame) :
    snapshotOf d useYesPrice r = none := by
  cases hk : r.kind with
  | frame => exact absurd hk h
  | _ => rw [snapshotOf, hk]

/-- A subscription reply. -/
theorem accounts_reply {env : Raw.Envelope}
    (hsnapshot : snapshotOf d s.useYesPrice r = none) (hgap : gapOf d r = none)
    (hgiven : rowsGiven d s.useYesPrice snapshotInitial r = []) :
    ∃ outcome more, Accounts d s (s.reply d env) r outcome more := by
  have hcount : ∀ s₀ : Segment, Quiet s s₀ →
      Accounts d s (s₀.onHour fun h => h.countNotBaked env.type) r (.notBaked env.type) [] :=
    fun s₀ hq => .plain (.before hq (entered_notBaked s₀ env.type)) hsnapshot hgap nofun nofun
      nofun rfl hq.pending hgiven nofun
  rw [reply]
  split
  · split
    · exact ⟨_, _, accounts_fail hsnapshot hgap hgiven⟩
    · refine ⟨_, _, hcount _ ?_⟩
      split <;> exact ⟨rfl, rfl, rfl, rfl⟩
  · exact ⟨_, _, hcount s (.refl s)⟩

/-- One row of a table that is neither snapshots nor gaps. -/
theorem accounts_emit {s₀ : Segment} {table : TableName} {source : String} {row : Row}
    (hq : Quiet s s₀) (hsnapshot : snapshotOf d s.useYesPrice r = none) (hgap : gapOf d r = none)
    (ht : table ≠ .snapshots) (ht' : table ≠ .gaps) (hs : source ≠ "orderbook_snapshot")
    (hg : source ≠ "gap")
    (hin : ∀ t, (Outcome.baked source).rowsIn t = if t = table then 1 else 0)
    (hgiven : rowsGiven d s.useYesPrice snapshotInitial r = [(table, row)]) :
    Accounts d s ((s₀.emit table row).onHour fun h => h.countBaked source) r (.baked source)
      [(table, row)] :=
  .plain (.before hq (entered_emit s₀ row ht ht' hin)) hsnapshot hgap
    (fun heq => hs (Outcome.baked.inj heq)) (fun heq => hg (Outcome.baked.inj heq)) nofun
    (by simp [rowsOf, ht]) hq.pending hgiven (by simp [ht'])

theorem mem_bakedFrameTypes {type : String} (h : type ∈ bakedFrameTypes)
    (hd : type ≠ "orderbook_delta") (hs : type ≠ "orderbook_snapshot") (ht : type ≠ "trade")
    (hm : type ≠ "market_lifecycle_v2") :
    type = "event_lifecycle" ∨ type = "event_fee_update" := by
  simpa [bakedFrameTypes, hd, hs, ht, hm] using h

/-- The state in which the rows of an image are emitted. -/
def beforeRows (s : Segment) (image : BookSnapshot) (receipt : Receipt) : Segment :=
  let s := (s.snapshotReason image.sid image.ticker).1
  ({ s with bookSids := insert image.sid s.bookSids }.observe image.ticker image.sid
    receipt.recvWallNs).freshen image.ticker receipt.recvWallNs

theorem snapshot_eq {env : Raw.Envelope} {receipt : Receipt} {image : BookSnapshot}
    (h : readSnapshot (decodeMsg env d.orderbookSnapshot) env.address receipt s.useYesPrice =
      .ok image) :
    s.snapshot d env receipt = .ok (((s.beforeRows image receipt).emitAll .snapshots
      (snapshotRows image receipt (s.snapshotReason image.sid image.ticker).2)).resolveGaps
        image.sid image.ticker receipt.recvWallNs) := by
  rw [snapshot, h]
  rfl

theorem quiet_beforeRows (s : Segment) (image : BookSnapshot) (receipt : Receipt) :
    Quiet s (s.beforeRows image receipt) := by
  have hreason := quiet_snapshotReason s image.sid image.ticker
  have hsids : Quiet (s.snapshotReason image.sid image.ticker).1
      { (s.snapshotReason image.sid image.ticker).1 with
        bookSids := insert image.sid (s.snapshotReason image.sid image.ticker).1.bookSids } :=
    ⟨rfl, rfl, rfl, rfl⟩
  have hobserve := (hreason.trans hsids).trans
    (quiet_observe _ image.ticker image.sid receipt.recvWallNs)
  exact hobserve.trans (quiet_freshen _ image.ticker receipt.recvWallNs)

theorem rowsGiven_frame {useYesPrice : Bool} {reason : Int} {env : Raw.Envelope}
    (hk : r.kind = .frame) (henv : d.envelope r.payload = .ok env) :
    rowsGiven d useYesPrice reason r = frameRows d useYesPrice reason env (receiptOf r) := by
  rw [rowsGiven, hk]
  dsimp only
  rw [henv]

theorem accounts_snapshot {image : BookSnapshot}
    (hof : snapshotOf d s.useYesPrice r = some image) (hgap : gapOf d r = none)
    (hgiven : rowsGiven d s.useYesPrice (s.snapshotReason image.sid image.ticker).2 r =
      (snapshotRows image (receiptOf r) (s.snapshotReason image.sid image.ticker).2).map
        fun row => (TableName.snapshots, row)) :
    ∃ more, Accounts d s ((((s.beforeRows image (receiptOf r)).emitAll .snapshots
      (snapshotRows image (receiptOf r) (s.snapshotReason image.sid image.ticker).2)).resolveGaps
        image.sid image.ticker (receiptOf r).recvWallNs).onHour fun h =>
          h.countBaked "orderbook_snapshot") r (.baked "orderbook_snapshot") more := by
  have hq := quiet_beforeRows s image (receiptOf r)
  have hentered := Entered.before hq
    (entered_snapshot (s.beforeRows image (receiptOf r))
      (snapshotRows image (receiptOf r) (s.snapshotReason image.sid image.ticker).2) image.sid
      image.ticker (receiptOf r).recvWallNs)
  have howes : owes d r = [] := by
    rw [owes, hgap]
    rfl
  obtain ⟨hrows, hpending⟩ := resolved_rows image.sid image.ticker (receiptOf r).recvWallNs
    (s.beforeRows image (receiptOf r)).pendingGaps
  rw [← howes] at hentered
  refine ⟨_, hentered, nofun, ?_, ?_, ?_, ?_, fun ho => ⟨?_, fun row hrow => .inr ?_⟩⟩
  · rw [rowsOf_append, rowsOf_map_self, @rowsOf_map_ne .snapshots .gaps nofun, List.append_nil,
      length_snapshotRows, hof]
    rfl
  · rw [hof]
    exact iff_of_true rfl rfl
  · rw [hgap]
    exact iff_of_false (by decide) nofun
  · refine ⟨_, snapshotReason_mem s image.sid image.ticker, ?_⟩
    rw [hgiven, List.filter_append, List.filter_map, List.filter_map]
    simp [Function.comp_def]
  · intro p hp
    rw [resolveGaps] at hp
    simp only [emitAll_eq, onHour] at hp
    obtain ⟨q, hin, heq⟩ := hpending p hp
    rw [heq]
    exact ho q (hq.pending ▸ hin)
  · refine ⟨by rw [hof]; rfl, ?_⟩
    rcases List.mem_append.mp hrow with hrow | hrow
    · obtain ⟨_, -, heq⟩ := List.mem_map.mp hrow
      cases heq
    · obtain ⟨row', hrow', heq⟩ := List.mem_map.mp hrow
      obtain ⟨-, rfl⟩ := Prod.mk.inj heq
      exact hrows row' hrow'

/-- A data frame that converts. -/
theorem accounts_dataFrame {env : Raw.Envelope} (hk : r.kind = .frame)
    (henv : d.envelope r.payload = .ok env) (hin : env.type ∈ bakedFrameTypes)
    (h : s.dataFrame d env (receiptOf r) = .ok s') :
    ∃ outcome more, Accounts d s (s'.onHour fun h => h.countBaked env.type) r outcome more := by
  have hgap : gapOf d r = none := gapOf_of_kind (by rw [hk]; nofun)
  have hsnapshot : env.type ≠ "orderbook_snapshot" → snapshotOf d s.useYesPrice r = none := by
    intro hne
    rw [snapshotOf, hk]
    dsimp only
    rw [henv]
    exact if_neg hne
  have hgiven : ∀ reason, rowsGiven d s.useYesPrice reason r =
      frameRows d s.useYesPrice reason env (receiptOf r) := fun _ => rowsGiven_frame hk henv
  rw [dataFrame] at h
  split at h
  · next htype =>
      rw [delta] at h
      split at h
      · cases h
      · next delta hread =>
          obtain rfl := Except.ok.inj h
          have hsids : Quiet s { s with bookSids := insert delta.sid s.bookSids } :=
            ⟨rfl, rfl, rfl, rfl⟩
          have hq := hsids.trans
            (quiet_observe _ delta.ticker delta.sid (receiptOf r).recvWallNs)
          have hrow := hgiven snapshotInitial
          rw [frameRows, htype, hread] at hrow
          rw [htype]
          exact ⟨_, _, accounts_emit hq (hsnapshot (by rw [htype]; decide)) hgap nofun nofun
            (by decide) (by decide) (fun t => by cases t <;> rfl) hrow⟩
  · next htype =>
      cases hread : readSnapshot (decodeMsg env d.orderbookSnapshot) env.address (receiptOf r)
          s.useYesPrice with
      | error e =>
          rw [snapshot, hread] at h
          cases h
      | ok image =>
          have hof : snapshotOf d s.useYesPrice r = some image := by
            rw [snapshotOf, hk]
            dsimp only
            rw [henv]
            dsimp only
            rw [if_pos htype, hread]
            rfl
          rw [snapshot_eq hread] at h
          obtain rfl := Except.ok.inj h
          have hrows := hgiven (s.snapshotReason image.sid image.ticker).2
          rw [frameRows, htype, hread] at hrows
          rw [htype]
          exact ⟨_, accounts_snapshot hof hgap hrows⟩
  · next htype =>
      rw [trade] at h
      split at h
      · cases h
      · next trade hread =>
          obtain rfl := Except.ok.inj h
          have hrow := hgiven snapshotInitial
          rw [frameRows, htype, hread] at hrow
          rw [htype]
          exact ⟨_, _, accounts_emit (.refl s) (hsnapshot (by rw [htype]; decide)) hgap nofun
            nofun (by decide) (by decide) (fun t => by cases t <;> rfl) hrow⟩
  · next htype =>
      rw [lifecycle.eq_def] at h
      split at h
      · cases h
      · next row hread =>
          obtain rfl := Except.ok.inj h
          have hrow := hgiven snapshotInitial
          rw [frameRows, htype, hread] at hrow
          rw [htype]
          exact ⟨_, _, accounts_emit (.refl s) (hsnapshot (by rw [htype]; decide)) hgap nofun
            nofun (by decide) (by decide) (fun t => by cases t <;> rfl) hrow⟩
  · next hd hs ht hm =>
      rw [lifecycle.eq_def] at h
      split at h
      · cases h
      · next row hread =>
          obtain rfl := Except.ok.inj h
          have hrow : rowsGiven d s.useYesPrice snapshotInitial r = [(.lifecycle, row)] := by
            rw [hgiven, frameRows]
            split
            · next htype => exact absurd htype hd
            · next htype => exact absurd htype hs
            · next htype => exact absurd htype ht
            · next htype => exact absurd htype hm
            · rw [if_pos hin, hread]
              rfl
          have hlifecycle : env.type ≠ "gap" ∧
              ∀ t, (Outcome.baked env.type).rowsIn t = if t = .lifecycle then 1 else 0 := by
            rcases mem_bakedFrameTypes hin hd hs ht hm with htype | htype <;> rw [htype]
            · exact ⟨by decide, fun t => by cases t <;> rfl⟩
            · exact ⟨by decide, fun t => by cases t <;> rfl⟩
          exact ⟨_, _, accounts_emit (.refl s) (hsnapshot hs) hgap nofun nofun hs hlifecycle.1
            hlifecycle.2 hrow⟩

theorem frameRows_notBaked {useYesPrice : Bool} {reason : Int} {env : Raw.Envelope}
    {receipt : Receipt} (h : env.type ∉ bakedFrameTypes) :
    frameRows d useYesPrice reason env receipt = [] := by
  rw [frameRows]
  split
  · next htype => exact absurd (show env.type ∈ bakedFrameTypes by rw [htype]; decide) h
  · next htype => exact absurd (show env.type ∈ bakedFrameTypes by rw [htype]; decide) h
  · next htype => exact absurd (show env.type ∈ bakedFrameTypes by rw [htype]; decide) h
  · next htype => exact absurd (show env.type ∈ bakedFrameTypes by rw [htype]; decide) h
  · exact if_neg h

/-- A data frame that does not convert gives no row. -/
theorem frameRows_error {env : Raw.Envelope} {receipt : Receipt} {reason : Int} {e : FrameError}
    (h : s.dataFrame d env receipt = .error e) :
    frameRows d s.useYesPrice reason env receipt = [] := by
  rw [dataFrame] at h
  split at h
  · next htype =>
      rw [frameRows, htype]
      cases hread : readDelta (decodeMsg env d.orderbookDelta) env.address receipt
          s.useYesPrice with
      | error e => rfl
      | ok _ =>
          rw [delta, hread] at h
          cases h
  · next htype =>
      rw [frameRows, htype]
      cases hread : readSnapshot (decodeMsg env d.orderbookSnapshot) env.address receipt
          s.useYesPrice with
      | error e => rfl
      | ok image =>
          rw [snapshot, hread] at h
          cases h
  · next htype =>
      rw [frameRows, htype]
      cases hread : readTrade d env receipt with
      | error e => rfl
      | ok _ =>
          rw [trade, hread] at h
          cases h
  · next htype =>
      rw [frameRows, htype]
      cases hread : readMarketLifecycle d env receipt with
      | error e => rfl
      | ok row =>
          rw [hread, lifecycle] at h
          cases h
  · next hd hs ht hm =>
      cases hread : readEventMessage d env receipt with
      | error e =>
          rw [frameRows]
          split
          · next htype => exact absurd htype hd
          · next htype => exact absurd htype hs
          · next htype => exact absurd htype ht
          · next htype => exact absurd htype hm
          · split
            · rw [hread]
              rfl
            · rfl
      | ok row =>
          rw [hread, lifecycle] at h
          cases h

theorem accounts_frame (hk : r.kind = .frame) (h : s.frame d r = .ok s') :
    ∃ outcome more, Accounts d s s' r outcome more := by
  have hgap : gapOf d r = none := gapOf_of_kind (by rw [hk]; nofun)
  rw [frame, decodeEnvelope] at h
  cases henv : d.envelope r.payload with
  | error e =>
      rw [henv] at h
      obtain rfl := Except.ok.inj h
      have hsnapshot : snapshotOf d s.useYesPrice r = none := by
        rw [snapshotOf, hk]
        dsimp only
        rw [henv]
      have hgiven : rowsGiven d s.useYesPrice snapshotInitial r = [] := by
        rw [rowsGiven, hk]
        dsimp only
        rw [henv]
      exact ⟨_, _, accounts_fail hsnapshot hgap hgiven⟩
  | ok env =>
      rw [henv] at h
      dsimp only at h
      have hsnapshot : env.type ≠ "orderbook_snapshot" → snapshotOf d s.useYesPrice r = none := by
        intro hne
        rw [snapshotOf, hk]
        dsimp only
        rw [henv]
        exact if_neg hne
      have hgiven : rowsGiven d s.useYesPrice snapshotInitial r =
          frameRows d s.useYesPrice snapshotInitial env (receiptOf r) := rowsGiven_frame hk henv
      split at h
      · next hin =>
          obtain rfl := Except.ok.inj h
          have hout : env.type ∉ bakedFrameTypes := by
            intro hbaked
            exact (show ∀ type ∈ notBakedFrameTypes, type ∉ bakedFrameTypes by decide)
              env.type hin hbaked
          exact accounts_reply (hsnapshot fun heq => absurd hin (by rw [heq]; decide)) hgap
            (hgiven.trans (frameRows_notBaked hout))
      · split at h
        · next hout =>
            obtain rfl := Except.ok.inj h
            exact ⟨_, _, accounts_fail (hsnapshot fun heq => hout (by rw [heq]; decide)) hgap
              (hgiven.trans (frameRows_notBaked hout))⟩
        · next hin =>
            split at h
            · next e he =>
                split at h
                · cases h
                · obtain rfl := Except.ok.inj h
                  refine ⟨_, _, accounts_fail ?_ hgap (hgiven.trans (frameRows_error he))⟩
                  by_cases htype : env.type = "orderbook_snapshot"
                  · -- an image that does not convert is no image
                    rw [snapshotOf, hk]
                    dsimp only
                    rw [henv]
                    dsimp only
                    rw [if_pos htype]
                    cases hread : readSnapshot (decodeMsg env d.orderbookSnapshot) env.address
                        (receiptOf r) s.useYesPrice with
                    | error e => rfl
                    | ok image =>
                        rw [dataFrame, htype] at he
                        rw [← receiptOf, snapshot_eq hread] at he
                        cases he
                  · exact hsnapshot htype
            · next he =>
                obtain rfl := Except.ok.inj h
                exact accounts_dataFrame hk henv (not_not.mp hin) he

theorem accounts_command (hk : r.kind = .command) :
    ∃ outcome more, Accounts d s (s.command d r) r outcome more := by
  have hgap : gapOf d r = none := gapOf_of_kind (by rw [hk]; nofun)
  have hsnapshot : snapshotOf d s.useYesPrice r = none := snapshotOf_of_kind (by rw [hk]; nofun)
  have hgiven : rowsGiven d s.useYesPrice snapshotInitial r = [] := by rw [rowsGiven, hk]
  rw [command]
  split
  · exact ⟨_, _, accounts_fail hsnapshot hgap hgiven⟩
  · have hcount : Accounts d s (s.onHour fun h => h.countNotBaked "command") r
        (.notBaked "command") [] :=
      .plain (entered_notBaked s "command") hsnapshot hgap nofun nofun nofun rfl rfl hgiven nofun
    refine ⟨.notBaked "command", [], ?_⟩
    split
    · exact hcount
    · exact hcount.after (quiet_commanded _ _ _ _)

theorem accounts_connection (hk : r.kind = .connection) :
    ∃ outcome more, Accounts d s (s.connection d r) r outcome more := by
  have hgap : gapOf d r = none := gapOf_of_kind (by rw [hk]; nofun)
  have hsnapshot : snapshotOf d s.useYesPrice r = none := snapshotOf_of_kind (by rw [hk]; nofun)
  have hgiven : rowsGiven d s.useYesPrice snapshotInitial r = [] := by rw [rowsGiven, hk]
  rw [connection]
  split
  · exact ⟨_, _, accounts_fail hsnapshot hgap hgiven⟩
  · have hcount : Accounts d s (s.onHour fun h => h.countNotBaked "connection") r
        (.notBaked "connection") [] :=
      .plain (entered_notBaked s "connection") hsnapshot hgap nofun nofun nofun rfl rfl hgiven
        nofun
    exact ⟨_, _, hcount.after (quiet_connected _ _ _)⟩

theorem addAudit_same (h : HourInterpreter) (outcome : AuditOutcome) (mismatched : Option Int) :
    (h.addAudit outcome mismatched).rows = h.rows ∧
      (h.addAudit outcome mismatched).counters = h.counters := by
  cases mismatched with
  | none => exact ⟨rfl, rfl⟩
  | some n =>
      rw [HourInterpreter.addAudit]
      split <;> exact ⟨rfl, rfl⟩

theorem accounts_audit (hk : r.kind = .audit) (h : s.audit d r = .ok s') :
    ∃ outcome more, Accounts d s s' r outcome more := by
  have hgap : gapOf d r = none := gapOf_of_kind (by rw [hk]; nofun)
  have hsnapshot : snapshotOf d s.useYesPrice r = none := snapshotOf_of_kind (by rw [hk]; nofun)
  rw [audit] at h
  split at h
  · next hdecode =>
      obtain rfl := Except.ok.inj h
      have hgiven : rowsGiven d s.useYesPrice snapshotInitial r = [] := by
        rw [rowsGiven, hk]
        dsimp only
        rw [hdecode]
      exact ⟨_, _, accounts_fail hsnapshot hgap hgiven⟩
  · next audit hdecode =>
      dsimp only at h
      split at h
      · cases h
      · split at h
        · cases h
        · next restLevels hrest _ localLevels hlocal =>
            obtain rfl := Except.ok.inj h
            have hsame := addAudit_same (s.hour.countBaked "audit") audit.outcome
              audit.mismatchedLevels
            have hrow := @entered_emit .audits "audit" s (auditRow audit r restLevels localLevels)
              nofun nofun fun t => by cases t <;> rfl
            have hgiven : rowsGiven d s.useYesPrice snapshotInitial r =
                [(.audits, auditRow audit r restLevels localLevels)] := by
              rw [rowsGiven, hk]
              dsimp only
              rw [hdecode]
              dsimp only
              rw [hrest, hlocal]
            refine ⟨_, _, .plain (hrow.after ⟨?_, hsame.2, rfl, rfl⟩) hsnapshot hgap (by decide)
              (by decide) nofun rfl rfl hgiven (by simp)⟩
            exact congrArg (· ++ _) hsame.1

/-- A decoded gap owes its row, given at once or when it is resolved. -/
theorem accounts_gap (hk : r.kind = .gap) :
    ∃ outcome more, Accounts d s (s.gap d r) r outcome more := by
  have hsnapshot : snapshotOf d s.useYesPrice r = none := snapshotOf_of_kind (by rw [hk]; nofun)
  have hgiven : rowsGiven d s.useYesPrice snapshotInitial r = [] := by rw [rowsGiven, hk]
  rw [gap]
  cases hdecode : d.gap r.payload with
  | error e =>
      have hgap : gapOf d r = none := by
        rw [gapOf, hk]
        dsimp only
        rw [hdecode]
        rfl
      exact ⟨_, _, accounts_fail hsnapshot hgap hgiven⟩
  | ok gap =>
      have hgap : gapOf d r = some gap := by
        rw [gapOf, hk]
        dsimp only
        rw [hdecode]
        rfl
      have howes : owes d r = [base (gapRow gap r)] := by
        rw [owes, hgap]
        rfl
      have hq := quiet_goStale (s.onHour fun h => (h.countBaked "gap").addGap) gap.sid r.recvWallNs
      dsimp only
      generalize (s.onHour fun h => (h.countBaked "gap").addGap).goStale gap.sid r.recvWallNs = p
        at hq
      obtain ⟨s₀, waiting⟩ := p
      have hp : s₀.pendingGaps = s.pendingGaps := hq.pending
      have hr : s₀.hour.rows = s.hour.rows := hq.rows
      have hy : s₀.useYesPrice = s.useYesPrice := hq.price
      have hc : s₀.hour.counters = Outcome.count s.hour.counters (.baked "gap") := hq.counters
      dsimp only
      have hclosing : gapRow gap r = base (gapRow gap r) ++ [.null] := rfl
      -- the row is the only one, or there is none
      have hsnaps : ∀ more : List (TableName × Row), (∀ e ∈ more, e = (.gaps, gapRow gap r)) →
          ∀ s' : Segment, Entered s s' (.baked "gap") (owes d r) more → (Open s → Open s') →
          Accounts d s s' r (.baked "gap") more := fun more hall s' hentered hopen =>
        { entered := hentered
          silent := nofun
          image := by
            have hnone : rowsOf .snapshots more = [] := by
              rw [rowsOf, List.map_eq_nil_iff, List.filter_eq_nil_iff]
              intro e he
              rw [hall e he]
              simp
            rw [hnone, hsnapshot]
            rfl
          snapshot := by
            rw [hsnapshot]
            exact iff_of_false (by decide) nofun
          gap := by
            rw [hgap]
            exact iff_of_true rfl rfl
          given := by
            refine ⟨snapshotInitial, List.mem_cons_self, ?_⟩
            rw [hgiven, List.filter_eq_nil_iff]
            intro e he
            rw [hall e he]
            simp
          closed := fun ho => ⟨hopen ho, fun row hrow => by
            obtain ⟨-, rfl⟩ := Prod.mk.inj (hall _ hrow)
            exact .inl hclosing⟩ }
      split
      · refine ⟨_, [(.gaps, gapRow gap r)], hsnaps _ (by simp) _
          ⟨hc, congrArg (· ++ _) hr, ?_, ?_, hy⟩ fun ho => ho.of_same hp⟩
        · intro table _ hg
          rw [rowsOf, List.filter_cons_of_neg (by simpa using hg.symm)]
          cases table <;> rfl
        · show ([base (gapRow gap r)] ++ s₀.pendingGaps.map fun p => base p.row).Perm _
          rw [hp, howes]
          exact List.perm_append_comm
      · refine ⟨_, [], hsnaps _ (by simp) _ ⟨hc, ?_, ?_, ?_, hy⟩ fun ho p hin => ?_⟩
        · rw [List.append_nil]
          exact hr
        · intro table _ _
          cases table <;> rfl
        · rw [hp, howes, List.map_append]
          exact List.Perm.refl _
        · rcases List.mem_append.mp hin with hin | hin
          · exact ho p (hp ▸ hin)
          · rw [List.mem_singleton.mp hin]
            exact hclosing

theorem interpret_accounts (h : s.interpret d r = .ok s') :
    ∃ outcome more, Accounts d s s' r outcome more := by
  cases hk : r.kind with
  | frame =>
      rw [interpret, hk] at h
      exact accounts_frame hk h
  | command =>
      rw [interpret, hk] at h
      obtain rfl := Except.ok.inj h
      exact accounts_command hk
  | gap =>
      rw [interpret, hk] at h
      obtain rfl := Except.ok.inj h
      exact accounts_gap hk
  | connection =>
      rw [interpret, hk] at h
      obtain rfl := Except.ok.inj h
      exact accounts_connection hk
  | audit =>
      rw [interpret, hk] at h
      exact accounts_audit hk h

end Segment

end Tape.Bake
