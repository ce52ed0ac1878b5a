import Tape.Bake.Conservation

/-!
# When a gap is resolved

A gap on a book subscription stales the markets it carries, and its row waits
for their snapshots on that subscription. It is given with the receipt of the
snapshot that was the last one missing, or without one when the segment ends.

Nothing but a snapshot ends the wait. A market that leaves its subscription is
waited for like the others: its gaps stay open until it is snapshotted on the
same subscription again, if it ever is.
-/

namespace Tape.Bake

/-- Each of some markets was snapshotted on the subscription. -/
def Answered (d : Decoders) (useYesPrice : Bool) (sid : Sid) (waiting : Finset Ticker)
    (records : List Record) : Prop :=
  ∀ t ∈ waiting, ∃ r ∈ records, ∃ image, snapshotOf d useYesPrice r = some image ∧
    image.sid = sid ∧ image.ticker = t

/-- What the gaps row of a gap that staled these markets says of the records
after it: the receipt of the one that answered the last of them, or nothing. -/
def Resolves (d : Decoders) (useYesPrice : Bool) (sid : Sid) (waiting : Finset Ticker)
    (after : List Record) (value : Cell) : Prop :=
  (∃ pre r post, after = pre ++ r :: post ∧ value = .int r.recvWallNs ∧
    ¬ Answered d useYesPrice sid waiting pre ∧
      Answered d useYesPrice sid waiting (pre ++ [r])) ∨
    (value = .null ∧ (waiting = ∅ ∨ ¬ Answered d useYesPrice sid waiting after))

/-- A gap among some records. -/
structure GapAt where
  before : List Record
  record : Record
  gap : GapPayload
  after : List Record

/-- The gaps among the records that follow `before`. -/
def gapsAt (d : Decoders) (before : List Record) : List Record → List GapAt
  | [] => []
  | r :: rest =>
      ((gapOf d r).map fun gap => ⟨before, r, gap, rest⟩).toList ++ gapsAt d (before ++ [r]) rest

namespace Segment

/-- The markets a gap on the subscription stales. -/
def staled (s : Segment) (sid : Sid) : Finset Ticker :=
  if sid ∈ s.bookSids then (s.marketsOn [sid]).toFinset else ∅

variable {d : Decoders} {s s' s'' : Segment} {r : Record}

/-- These are the markets that were received on it and have not left. -/
theorem mem_staled {sid : Sid} {t : Ticker} :
    t ∈ s.staled sid ↔ sid ∈ s.bookSids ∧ ∃ m, s.markets.get? t = some m ∧ m.sid = sid := by
  rw [staled]
  split
  · next hbook =>
      rw [List.mem_toFinset, marketsOn, List.mem_map]
      simp only [hbook, true_and]
      constructor
      · rintro ⟨⟨t', m⟩, hin, rfl⟩
        obtain ⟨hentry, hsid⟩ := List.mem_filter.mp hin
        exact ⟨m, Dict.get?_eq_some_iff.mpr hentry, by simpa using hsid⟩
      · rintro ⟨m, hget, hsid⟩
        exact ⟨(t, m), List.mem_filter.mpr ⟨Dict.get?_eq_some_iff.mp hget, by simpa using hsid⟩,
          rfl⟩
  · next hbook =>
      refine iff_of_false (Finset.notMem_empty t) ?_
      rintro ⟨hin, -⟩
      exact hbook hin

/-! ## What one record does to the gaps -/

/-- The gaps that wait and the gap rows stay. -/
structure Waits (s s' : Segment) : Prop where
  pending : s'.pendingGaps = s.pendingGaps
  rows : rowsOf .gaps s'.hour.rows = rowsOf .gaps s.hour.rows

theorem Quiet.waits (h : Quiet s s') : Waits s s' := ⟨h.pending, by rw [h.rows]⟩

theorem Waits.trans (h : Waits s s') (h' : Waits s' s'') : Waits s s'' :=
  ⟨h'.pending.trans h.pending, h'.rows.trans h.rows⟩

theorem waits_emit {table : TableName} (ht : table ≠ .gaps) (s : Segment) (row : Row) :
    Waits s (s.emit table row) := by
  refine ⟨rfl, ?_⟩
  show rowsOf .gaps (s.hour.rows ++ [(table, row)]) = _
  rw [rowsOf_append, show rowsOf .gaps [(table, row)] = [] from rowsOf_map_ne ht [row],
    List.append_nil]

theorem waits_fail (s : Segment) (failure : String) (detail : FailureDetail) :
    Waits s (s.fail failure detail) := by
  refine ⟨rfl, ?_⟩
  rw [(entered_fail s failure detail).rows, List.append_nil]

/-- A record leaves the gaps alone, is a snapshot that may resolve some, or is
a gap. -/
inductive GapStep (d : Decoders) (s s' : Segment) (r : Record) : Prop where
  | neither (hsnapshot : snapshotOf d s.useYesPrice r = none) (hgap : gapOf d r = none)
      (hwaits : Waits s s')
  | snapshot (image : BookSnapshot) (hsnapshot : snapshotOf d s.useYesPrice r = some image)
      (hgap : gapOf d r = none)
      (hpending : s'.pendingGaps =
        (resolved image.sid image.ticker r.recvWallNs s.pendingGaps).1)
      (hrows : rowsOf .gaps s'.hour.rows = rowsOf .gaps s.hour.rows ++
        (resolved image.sid image.ticker r.recvWallNs s.pendingGaps).2)
  | closed (gap : GapPayload) (hsnapshot : snapshotOf d s.useYesPrice r = none)
      (hgap : gapOf d r = some gap) (hnone : s.staled gap.sid = ∅)
      (hpending : s'.pendingGaps = s.pendingGaps)
      (hrows : rowsOf .gaps s'.hour.rows = rowsOf .gaps s.hour.rows ++ [gapRow gap r])
  | opened (gap : GapPayload) (hsnapshot : snapshotOf d s.useYesPrice r = none)
      (hgap : gapOf d r = some gap) (hsome : s.staled gap.sid ≠ ∅)
      (hpending : s'.pendingGaps =
        s.pendingGaps ++ [⟨gapRow gap r, gap.sid, s.staled gap.sid⟩])
      (hrows : rowsOf .gaps s'.hour.rows = rowsOf .gaps s.hour.rows)

theorem GapStep.before (hw : Waits s s') (hprice : s'.useYesPrice = s.useYesPrice)
    (hstaled : ∀ sid, s'.staled sid = s.staled sid) (h : GapStep d s' s'' r) :
    GapStep d s s'' r := by
  cases h with
  | neither hsnapshot hgap hwaits =>
      rw [hprice] at hsnapshot
      exact .neither hsnapshot hgap (hw.trans hwaits)
  | snapshot image hsnapshot hgap hpending hrows =>
      rw [hprice] at hsnapshot
      rw [hw.pending] at hpending hrows
      exact .snapshot image hsnapshot hgap hpending (hrows.trans (by rw [hw.rows]))
  | closed gap hsnapshot hgap hnone hpending hrows =>
      rw [hprice] at hsnapshot
      rw [hstaled] at hnone
      exact .closed gap hsnapshot hgap hnone (hpending.trans hw.pending)
        (hrows.trans (by rw [hw.rows]))
  | opened gap hsnapshot hgap hsome hpending hrows =>
      rw [hprice] at hsnapshot
      rw [hstaled] at hsome hpending
      exact .opened gap hsnapshot hgap hsome (hpending.trans (by rw [hw.pending]))
        (hrows.trans hw.rows)

theorem waits_reply (s : Segment) (env : Raw.Envelope) : Waits s (s.reply d env) := by
  rw [reply]
  split
  · split
    · exact waits_fail s _ _
    · split
      · exact ⟨rfl, rfl⟩
      · exact ⟨rfl, rfl⟩
  · exact ⟨rfl, rfl⟩

/-- A data frame other than a snapshot. -/
theorem waits_dataFrame {env : Raw.Envelope} {receipt : Receipt}
    (htype : env.type ≠ "orderbook_snapshot") (h : s.dataFrame d env receipt = .ok s') :
    Waits s s' := by
  rw [dataFrame] at h
  split at h
  · rw [delta] at h
    split at h
    · cases h
    · next image hread =>
        obtain rfl := Except.ok.inj h
        have hsids : Waits s { s with bookSids := insert image.sid s.bookSids } := ⟨rfl, rfl⟩
        exact (hsids.trans (quiet_observe _ _ _ _).waits).trans (waits_emit (by decide) _ _)
  · next heq => exact absurd heq htype
  · rw [trade] at h
    split at h
    · cases h
    · obtain rfl := Except.ok.inj h
      exact waits_emit (by decide) _ _
  all_goals
    rw [lifecycle.eq_def] at h
    split at h
    · cases h
    · obtain rfl := Except.ok.inj h
      exact waits_emit (by decide) _ _

theorem snapshotOf_of_frame {useYesPrice : Bool} {env : Raw.Envelope} (hk : r.kind = .frame)
    (henv : d.envelope r.payload = .ok env) :
    snapshotOf d useYesPrice r =
      if env.type = "orderbook_snapshot" then
        (readSnapshot (decodeMsg env d.orderbookSnapshot) env.address (receiptOf r)
          useYesPrice).toOption
      else none := by
  rw [snapshotOf, hk]
  dsimp only
  rw [henv]

theorem gapStep_frame (hk : r.kind = .frame) (h : s.frame d r = .ok s') : GapStep d s s' r := by
  have hgap : gapOf d r = none := gapOf_of_kind (by rw [hk]; rintro ⟨⟩)
  rw [frame, decodeEnvelope] at h
  cases henv : d.envelope r.payload with
  | error e =>
      rw [henv] at h
      obtain rfl := Except.ok.inj h
      refine .neither ?_ hgap (waits_fail s _ _)
      rw [snapshotOf, hk]
      dsimp only
      rw [henv]
  | ok env =>
      rw [henv] at h
      dsimp only at h
      have hof := @snapshotOf_of_frame d r s.useYesPrice env hk henv
      split at h
      · next hin =>
          obtain rfl := Except.ok.inj h
          refine .neither ?_ hgap (waits_reply s env)
          rw [hof, if_neg fun heq => absurd hin (by rw [heq]; decide)]
      · split at h
        · next hout =>
            obtain rfl := Except.ok.inj h
            refine .neither ?_ hgap (waits_fail s _ _)
            rw [hof, if_neg fun heq => hout (by rw [heq]; decide)]
        · split at h
          · next e he =>
              split at h
              · cases h
              · obtain rfl := Except.ok.inj h
                refine .neither ?_ hgap (waits_fail s _ _)
                rw [hof]
                split
                · next htype =>
                    -- an image that does not convert is no image
                    cases hread : readSnapshot (decodeMsg env d.orderbookSnapshot) env.address
                        (receiptOf r) s.useYesPrice with
                    | error e => rfl
                    | ok image =>
                        rw [dataFrame, htype] at he
                        rw [← receiptOf, snapshot_eq hread] at he
                        cases he
                · rfl
          · next s₁ he =>
              obtain rfl := Except.ok.inj h
              by_cases htype : env.type = "orderbook_snapshot"
              · rw [if_pos htype] at hof
                rw [dataFrame, htype] at he
                cases hread : readSnapshot (decodeMsg env d.orderbookSnapshot) env.address
                    (receiptOf r) s.useYesPrice with
                | error e =>
                    rw [snapshot, ← receiptOf, hread] at he
                    cases he
                | ok image =>
                    rw [← receiptOf, snapshot_eq hread] at he
                    obtain rfl := Except.ok.inj he
                    rw [hread] at hof
                    have hq := quiet_beforeRows s image (receiptOf r)
                    refine .snapshot image hof hgap ?_ ?_
                    · rw [resolveGaps]
                      simp only [emitAll_eq, onHour]
                      rw [hq.pending]
                      rfl
                    · rw [resolveGaps]
                      simp only [emitAll_eq, onHour, HourInterpreter.countBaked, rowsOf_append]
                      rw [@rowsOf_map_ne .gaps .snapshots (by rintro ⟨⟩), rowsOf_map_self,
                        List.append_nil, hq.rows, hq.pending]
                      rfl
              · refine .neither ?_ hgap ((waits_dataFrame htype he).trans ⟨rfl, rfl⟩)
                rw [hof, if_neg htype]

theorem goStale_eq (s : Segment) (sid : Sid) (w : Int) : (s.goStale sid w).2 = s.staled sid := by
  rw [goStale, staled]
  split
  · rfl
  · rfl

theorem gapStep_gap (hk : r.kind = .gap) : GapStep d s (s.gap d r) r := by
  have hsnapshot : snapshotOf d s.useYesPrice r = none := snapshotOf_of_kind (by rw [hk]; nofun)
  rw [gap]
  cases hdecode : d.gap r.payload with
  | error e =>
      refine .neither hsnapshot ?_ (waits_fail s _ _)
      rw [gapOf, hk]
      dsimp only
      rw [hdecode]
      rfl
  | ok gap =>
      have hgap : gapOf d r = some gap := by
        rw [gapOf, hk]
        dsimp only
        rw [hdecode]
        rfl
      have hq := quiet_goStale (s.onHour fun h => (h.countBaked "gap").addGap) gap.sid r.recvWallNs
      have hstaled := goStale_eq (s.onHour fun h => (h.countBaked "gap").addGap) gap.sid
        r.recvWallNs
      dsimp only
      generalize (s.onHour fun h => (h.countBaked "gap").addGap).goStale gap.sid r.recvWallNs = p
        at hq hstaled
      obtain ⟨s₀, waiting⟩ := p
      have hwaiting : waiting = s.staled gap.sid := hstaled
      have hp : s₀.pendingGaps = s.pendingGaps := hq.pending
      have hr : s₀.hour.rows = s.hour.rows := hq.rows
      subst hwaiting
      dsimp only
      split
      · next hnone =>
          refine .closed gap hsnapshot hgap hnone hp ?_
          show rowsOf .gaps (s₀.hour.rows ++ [(TableName.gaps, gapRow gap r)]) = _
          rw [rowsOf_append, hr]
          rfl
      · next hsome =>
          refine .opened gap hsnapshot hgap hsome ?_ (by rw [hr])
          rw [hp]

theorem waits_command (s : Segment) (r : Record) : Waits s (s.command d r) := by
  rw [command]
  split
  · exact waits_fail s _ _
  · have hcount : Waits s (s.onHour fun h => h.countNotBaked "command") := ⟨rfl, rfl⟩
    dsimp only
    split
    · exact hcount
    · exact hcount.trans (quiet_commanded _ _ _ _).waits

theorem waits_connection (s : Segment) (r : Record) : Waits s (s.connection d r) := by
  rw [connection]
  split
  · exact waits_fail s _ _
  · have hcount : Waits s (s.onHour fun h => h.countNotBaked "connection") := ⟨rfl, rfl⟩
    exact hcount.trans (quiet_connected _ _ _).waits

theorem waits_audit (h : s.audit d r = .ok s') : Waits s s' := by
  rw [audit] at h
  split at h
  · obtain rfl := Except.ok.inj h
    exact waits_fail s _ _
  · next payload _ =>
      dsimp only at h
      split at h
      · cases h
      · split at h
        · cases h
        · obtain rfl := Except.ok.inj h
          have hsame := addAudit_same (s.hour.countBaked "audit") payload.outcome
            payload.mismatchedLevels
          have hadd : Waits s (s.onHour fun h =>
              (h.countBaked "audit").addAudit payload.outcome payload.mismatchedLevels) :=
            ⟨rfl, congrArg (rowsOf .gaps) hsame.1⟩
          exact hadd.trans (waits_emit (by decide) _ _)

theorem interpret_gapStep (h : s.interpret d r = .ok s') : GapStep d s s' r := by
  have hother : ∀ {s'}, r.kind ≠ .frame → r.kind ≠ .gap → Waits s s' → GapStep d s s' r :=
    fun hf hg => .neither (snapshotOf_of_kind hf) (gapOf_of_kind hg)
  cases hk : r.kind with
  | frame =>
      rw [interpret, hk] at h
      exact gapStep_frame hk h
  | gap =>
      rw [interpret, hk] at h
      obtain rfl := Except.ok.inj h
      exact gapStep_gap hk
  | command =>
      rw [interpret, hk] at h
      obtain rfl := Except.ok.inj h
      exact hother (by rw [hk]; decide) (by rw [hk]; decide) (waits_command s r)
  | connection =>
      rw [interpret, hk] at h
      obtain rfl := Except.ok.inj h
      exact hother (by rw [hk]; decide) (by rw [hk]; decide) (waits_connection s r)
  | audit =>
      rw [interpret, hk] at h
      exact hother (by rw [hk]; decide) (by rw [hk]; decide) (waits_audit h)

theorem staled_arrive (s : Segment) (r : Record) (sid : Sid) :
    (s.arrive d r).staled sid = s.staled sid := by
  rw [arrive]
  cases s.firstWallNs with
  | some _ => rfl
  | none =>
      dsimp only
      rw [begin]
      split
      · rfl
      · rfl

theorem feed_gapStep (h : s.feed d r = .ok s') : GapStep d s s' r := by
  obtain ⟨hrows, hpending, hprice, -⟩ := arrive_accounts d s r
  rw [feed] at h
  split at h
  · cases h
  · next s₁ hstep =>
      obtain rfl := Except.ok.inj h
      have hgap : GapStep d s s₁ r :=
        (interpret_gapStep hstep).before ⟨hpending, by rw [hrows]⟩ hprice (staled_arrive s r)
      cases hgap with
      | neither hsnapshot hgap hwaits => exact .neither hsnapshot hgap ⟨hwaits.pending, hwaits.rows⟩
      | snapshot image hsnapshot hgap hpending hrows =>
          exact .snapshot image hsnapshot hgap hpending hrows
      | closed gap hsnapshot hgap hnone hpending hrows =>
          exact .closed gap hsnapshot hgap hnone hpending hrows
      | opened gap hsnapshot hgap hsome hpending hrows =>
          exact .opened gap hsnapshot hgap hsome hpending hrows

/-! ## What the records after it do to a gap -/

/-- What is still missing after a record. -/
def remaining (d : Decoders) (useYesPrice : Bool) (sid : Sid) (waiting : Finset Ticker)
    (r : Record) : Finset Ticker :=
  match snapshotOf d useYesPrice r with
  | none => waiting
  | some image => if image.sid = sid then waiting.erase image.ticker else waiting

/-- The receipt of the record that leaves nothing missing. -/
def resolvedIn (d : Decoders) (useYesPrice : Bool) (sid : Sid) :
    Finset Ticker → List Record → Option Int
  | _, [] => none
  | waiting, r :: rest =>
      if remaining d useYesPrice sid waiting r = ∅ then some r.recvWallNs
      else resolvedIn d useYesPrice sid (remaining d useYesPrice sid waiting r) rest

variable {useYesPrice : Bool} {sid : Sid} {waiting : Finset Ticker}

theorem answered_nil : Answered d useYesPrice sid waiting [] ↔ waiting = ∅ := by
  rw [Finset.eq_empty_iff_forall_notMem]
  constructor
  · intro h t ht
    obtain ⟨r, hr, -⟩ := h t ht
    cases hr
  · intro h t ht
    exact absurd ht (h t)

theorem mem_remaining {t : Ticker} :
    t ∈ remaining d useYesPrice sid waiting r ↔ t ∈ waiting ∧
      ¬ ∃ image, snapshotOf d useYesPrice r = some image ∧ image.sid = sid ∧ image.ticker = t := by
  rw [remaining]
  cases snapshotOf d useYesPrice r with
  | none => simp
  | some image =>
      dsimp only
      split
      · next hsid =>
          rw [Finset.mem_erase, and_comm]
          simp [hsid, eq_comm]
      · next hsid => simp [hsid]

theorem answered_cons {rest : List Record} :
    Answered d useYesPrice sid waiting (r :: rest) ↔
      Answered d useYesPrice sid (remaining d useYesPrice sid waiting r) rest := by
  constructor
  · intro h t ht
    obtain ⟨hmem, hnot⟩ := mem_remaining.mp ht
    obtain ⟨r', hr', hanswer⟩ := h t hmem
    rcases List.mem_cons.mp hr' with rfl | hrest
    · exact absurd hanswer hnot
    · exact ⟨r', hrest, hanswer⟩
  · intro h t ht
    by_cases hnow : ∃ image, snapshotOf d useYesPrice r = some image ∧ image.sid = sid ∧
        image.ticker = t
    · exact ⟨r, List.mem_cons_self, hnow⟩
    · obtain ⟨r', hr', hanswer⟩ := h t (mem_remaining.mpr ⟨ht, hnow⟩)
      exact ⟨r', List.mem_cons_of_mem _ hr', hanswer⟩

/-- The receipt found is the one of the record that answered the last market. -/
theorem resolves_resolvedIn (hne : waiting ≠ ∅) (records : List Record) :
    Resolves d useYesPrice sid waiting records
      (.int? (resolvedIn d useYesPrice sid waiting records)) := by
  induction records generalizing waiting with
  | nil => exact .inr ⟨rfl, .inr (answered_nil.not.mpr hne)⟩
  | cons r rest ih =>
      rw [resolvedIn]
      split
      · next hdone =>
          refine .inl ⟨[], r, rest, rfl, rfl, answered_nil.not.mpr hne, ?_⟩
          rw [List.nil_append, answered_cons, hdone]
          exact answered_nil.mpr rfl
      · next hmore =>
          rcases ih hmore with hfound | hnull
          · obtain ⟨pre, r', post, rfl, hvalue, hbefore, hafter⟩ := hfound
            refine .inl ⟨r :: pre, r', post, rfl, hvalue, ?_, ?_⟩
            · rw [answered_cons]
              exact hbefore
            · rw [List.cons_append, answered_cons]
              exact hafter
          · obtain ⟨hvalue, hopen⟩ := hnull
            refine .inr ⟨hvalue, .inr ?_⟩
            rw [answered_cons]
            exact hopen.resolve_left hmore

/-- The row a pending gap ends with. -/
def finalRow (d : Decoders) (useYesPrice : Bool) (records : List Record) (p : PendingGap) : Row :=
  base p.row ++ [.int? (resolvedIn d useYesPrice p.sid p.waiting records)]

/-- A snapshot gives the rows of the gaps it resolves, and the others go on. -/
theorem resolved_finalRow {image : BookSnapshot} {rest : List Record} {gaps : List PendingGap}
    (hof : snapshotOf d useYesPrice r = some image) (hne : ∀ p ∈ gaps, p.waiting ≠ ∅) :
    ((resolved image.sid image.ticker r.recvWallNs gaps).1.map (finalRow d useYesPrice rest) ++
      (resolved image.sid image.ticker r.recvWallNs gaps).2).Perm
        (gaps.map (finalRow d useYesPrice (r :: rest))) := by
  induction gaps with
  | nil => exact List.Perm.refl _
  | cons p gaps ih =>
      have ih := ih fun q hq => hne q (List.mem_cons_of_mem _ hq)
      have hleft : remaining d useYesPrice p.sid p.waiting r =
          if p.sid = image.sid then p.waiting.erase image.ticker else p.waiting := by
        rw [remaining, hof]
        simp only [eq_comm]
      rw [resolved, List.map_cons]
      dsimp only
      split
      · next hsid =>
          rw [if_pos hsid] at hleft
          split
          · next hdone =>
              have hrow : finalRow d useYesPrice (r :: rest) p =
                  p.row.dropLast ++ [.int r.recvWallNs] := by
                rw [finalRow, resolvedIn, hleft, if_pos hdone]
                rfl
              rw [hrow]
              exact List.perm_middle.trans (ih.cons _)
          · next hmore =>
              have hrow : finalRow d useYesPrice (r :: rest) p =
                  finalRow d useYesPrice rest
                    { p with waiting := p.waiting.erase image.ticker } := by
                rw [finalRow, resolvedIn, hleft, if_neg hmore]
                rfl
              rw [hrow]
              exact ih.cons _
      · next hsid =>
          rw [if_neg hsid] at hleft
          have hrow : finalRow d useYesPrice (r :: rest) p = finalRow d useYesPrice rest p := by
            rw [finalRow, resolvedIn, hleft, if_neg (hne p List.mem_cons_self)]
            rfl
          rw [hrow]
          exact ih.cons _

theorem finalRow_of_none {rest : List Record} {p : PendingGap}
    (hof : snapshotOf d useYesPrice r = none) (hne : p.waiting ≠ ∅) :
    finalRow d useYesPrice (r :: rest) p = finalRow d useYesPrice rest p := by
  have hleft : remaining d useYesPrice p.sid p.waiting r = p.waiting := by rw [remaining, hof]
  rw [finalRow, resolvedIn, hleft, if_neg hne]
  rfl

/-! ## A whole segment -/

/-- A pending gap waits for something, and its row does not say it is over. -/
def Pending (s : Segment) : Prop :=
  ∀ p ∈ s.pendingGaps, p.waiting ≠ ∅ ∧ p.row = base p.row ++ [.null]

theorem resolved_pending {image : Sid × Ticker} {w : Int} {gaps : List PendingGap}
    (h : ∀ p ∈ gaps, p.waiting ≠ ∅ ∧ p.row = base p.row ++ [.null]) :
    ∀ p ∈ (resolved image.1 image.2 w gaps).1, p.waiting ≠ ∅ ∧ p.row = base p.row ++ [.null] := by
  induction gaps with
  | nil => exact nofun
  | cons p gaps ih =>
      have ih := ih fun q hq => h q (List.mem_cons_of_mem _ hq)
      rw [resolved]
      dsimp only
      split
      · split
        · exact ih
        · next hmore =>
            intro q hq
            rcases List.mem_cons.mp hq with rfl | hq
            · exact ⟨hmore, (h p List.mem_cons_self).2⟩
            · exact ih q hq
      · intro q hq
        rcases List.mem_cons.mp hq with rfl | hq
        · exact h q List.mem_cons_self
        · exact ih q hq

theorem GapStep.pending (h : GapStep d s s' r) (hp : s.Pending) : s'.Pending := by
  cases h with
  | neither _ _ hwaits =>
      rw [Pending, hwaits.pending]
      exact hp
  | snapshot image _ _ hpending _ =>
      rw [Pending, hpending]
      exact @resolved_pending (image.sid, image.ticker) _ _ hp
  | closed _ _ _ _ hpending _ =>
      rw [Pending, hpending]
      exact hp
  | opened gap _ _ hsome hpending _ =>
      rw [Pending, hpending]
      intro p hin
      rcases List.mem_append.mp hin with hin | hin
      · exact hp p hin
      · rw [List.mem_singleton.mp hin]
        exact ⟨hsome, rfl⟩

theorem feedAll_concat {s₀ : Segment} {before : List Record} (h : s₀.feedAll d before = .ok s)
    (hr : s.feed d r = .ok s') : s₀.feedAll d (before ++ [r]) = .ok s' := by
  induction before generalizing s₀ with
  | nil =>
      obtain rfl := Except.ok.inj h
      rw [List.nil_append, feedAll, hr]
      rfl
  | cons r' before ih =>
      rw [feedAll] at h
      rw [List.cons_append, feedAll]
      split at h
      · cases h
      · exact ih h

theorem finish_gaps (s : Segment) :
    rowsOf .gaps s.finish.1.hour.rows =
      rowsOf .gaps s.hour.rows ++ s.pendingGaps.map PendingGap.row := by
  have hquiet := quiet_ended s
  rw [finish]
  simp only [emitAll_eq, onHour]
  rw [rowsOf_append, rowsOf_map_self, hquiet.rows, hquiet.pending]

/-- The row of a gap among the records of a segment. -/
def GivenFor (d : Decoders) (useYesPrice : Bool) (s₀ : Segment) (g : GapAt) (row : Row) : Prop :=
  ∃ s, s₀.feedAll d g.before = .ok s ∧ ∃ value, row = base (gapRow g.gap g.record) ++ [value] ∧
    Resolves d useYesPrice g.gap.sid (s.staled g.gap.sid) g.after value

theorem feedAll_gaps {s₀ : Segment} {before rest : List Record}
    (hbefore : s₀.feedAll d before = .ok s) (hprice : s.useYesPrice = useYesPrice)
    (hp : s.Pending) (h : s.feedAll d rest = .ok s') :
    ∃ rows, (rowsOf .gaps s'.finish.1.hour.rows).Perm (rowsOf .gaps s.hour.rows ++
        s.pendingGaps.map (finalRow d useYesPrice rest) ++ rows) ∧
      List.Forall₂ (GivenFor d useYesPrice s₀) (gapsAt d before rest) rows := by
  induction rest generalizing s before with
  | nil =>
      obtain rfl := Except.ok.inj h
      refine ⟨[], ?_, .nil⟩
      have hrows : s.pendingGaps.map PendingGap.row =
          s.pendingGaps.map (finalRow d useYesPrice []) :=
        List.map_congr_left fun p hin => (hp p hin).2
      rw [List.append_nil, finish_gaps, hrows]
  | cons r rest ih =>
      rw [Segment.feedAll] at h
      split at h
      · cases h
      · next s₁ hfeed =>
          have hstep := feed_gapStep hfeed
          obtain ⟨rows, hperm, hrows⟩ := ih (feedAll_concat hbefore hfeed)
            ((feed_accounts hfeed).2.trans hprice) (hstep.pending hp) h
          rw [gapsAt]
          cases hstep with
          | neither hof hgap hwaits =>
              rw [hprice] at hof
              have hfinal : s.pendingGaps.map (finalRow d useYesPrice (r :: rest)) =
                  s.pendingGaps.map (finalRow d useYesPrice rest) :=
                List.map_congr_left fun p hin => finalRow_of_none hof (hp p hin).1
              rw [hwaits.rows, hwaits.pending, ← hfinal] at hperm
              rw [hgap]
              exact ⟨rows, hperm, hrows⟩
          | snapshot image hof hgap hpending hmore =>
              rw [hprice] at hof
              rw [hpending, hmore] at hperm
              have hfinal := @resolved_finalRow d r useYesPrice image rest s.pendingGaps hof
                fun p hin => (hp p hin).1
              rw [hgap]
              refine ⟨rows, hperm.trans (List.Perm.append_right rows ?_), hrows⟩
              rw [List.append_assoc]
              exact (List.perm_append_comm.trans hfinal).append_left _
          | closed gap hof hgap hnone hpending hmore =>
              rw [hprice] at hof
              have hfinal : s.pendingGaps.map (finalRow d useYesPrice (r :: rest)) =
                  s.pendingGaps.map (finalRow d useYesPrice rest) :=
                List.map_congr_left fun p hin => finalRow_of_none hof (hp p hin).1
              rw [hpending, hmore, ← hfinal] at hperm
              rw [hgap]
              refine ⟨gapRow gap r :: rows, hperm.trans ?_, .cons ?_ hrows⟩
              · simp only [List.append_assoc, List.singleton_append]
                exact List.perm_middle.symm.append_left _
              · exact ⟨s, hbefore, .null, rfl, .inr ⟨rfl, .inl hnone⟩⟩
          | opened gap hof hgap hsome hpending hmore =>
              rw [hprice] at hof
              have hfinal : s.pendingGaps.map (finalRow d useYesPrice (r :: rest)) =
                  s.pendingGaps.map (finalRow d useYesPrice rest) :=
                List.map_congr_left fun p hin => finalRow_of_none hof (hp p hin).1
              rw [hpending, hmore, List.map_append, ← hfinal] at hperm
              rw [hgap]
              refine ⟨finalRow d useYesPrice rest ⟨gapRow gap r, gap.sid, s.staled gap.sid⟩ :: rows,
                hperm.trans ?_, .cons ?_ hrows⟩
              · simp only [List.append_assoc, List.map_cons, List.map_nil, List.singleton_append]
                exact List.Perm.refl _
              · exact ⟨s, hbefore, _, rfl, resolves_resolvedIn hsome rest⟩

end Segment

/-- Of each gap a segment records there is one row, and it tells when the last
market the gap staled was snapshotted again on the subscription. -/
theorem readSegment_gaps {d : Decoders} {h h' : HourInterpreter} {name : String}
    {header : SegmentHeader} {source : RecordSource} {facts : SegmentFacts}
    (hread : h.readSegment d name header source = .ok (h', facts)) :
    ∃ rows, (rowsOf .gaps h'.rows).Perm (rowsOf .gaps h.rows ++ rows) ∧
      List.Forall₂ (Segment.GivenFor d header.useYesPrice (Segment.new h name header))
        (gapsAt d [] source.records) rows := by
  rw [HourInterpreter.readSegment] at hread
  split at hread
  · cases hread
  · next s hfeed =>
      have hnew : (Segment.new h name header).Pending := fun p hp => absurd hp List.not_mem_nil
      have hstart : (Segment.new h name header).feedAll d [] = .ok (Segment.new h name header) :=
        rfl
      obtain ⟨rows, hperm, hrows⟩ := Segment.feedAll_gaps hstart rfl hnew hfeed
      refine ⟨rows, ?_, hrows⟩
      have hnone : (Segment.new h name header).pendingGaps = [] := rfl
      rw [hnone, List.map_nil, List.append_nil] at hperm
      obtain ⟨rfl, -⟩ := Prod.mk.inj (Except.ok.inj hread)
      cases source.corruption with
      | none => exact hperm
      | some detail =>
          have hcorrupt := Segment.finish_gaps
            (s.onHour fun h => h.corruptSegment name detail s.records)
          exact (hcorrupt.trans (Segment.finish_gaps s).symm) ▸ hperm

/-- Decoders of one-byte payloads: 0 and 1 are empty snapshots of two markets
of subscription 1, 2 is a gap on it, and 3 deletes the first market from it. -/
def twoMarkets : Decoders where
  envelope raw :=
    if raw = [0] ∨ raw = [1] then .ok ⟨"orderbook_snapshot", some 1, some 1, none, raw⟩
    else .error "unknown"
  orderbookSnapshot raw :=
    .ok ⟨if raw = [0] then "KXA" else "KXB", none, none⟩
  gap raw := if raw = [2] then .ok ⟨1, 5, 7⟩ else .error "unknown"
  command raw :=
    if raw = [3] then
      .ok ⟨"update_subscription", some 9, some ⟨some 1, none, some "delete_markets", some ["KXA"]⟩⟩
    else .error "unknown"
  trade _ := .error "unknown"
  subscribed _ := .error "unknown"
  orderbookDelta _ := .error "unknown"
  marketLifecycleV2 _ := .error "unknown"
  eventLifecycle _ := .error "unknown"
  eventFeeUpdate _ := .error "unknown"
  audit _ := .error "unknown"
  connection _ := .error "unknown"

/-- The header of the segment. -/
def plainHeader : SegmentHeader := ⟨0, "host", "demo", 0, "wss", true, [], "1", []⟩

/-- Both markets are snapshotted, and a gap stales them at 300. The first is
deleted at 400, and the second snapshotted at 500. -/
def leaving : List Record :=
  [⟨.frame, 0, 100, 100, [0]⟩, ⟨.frame, 0, 200, 200, [1]⟩, ⟨.gap, 0, 300, 300, [2]⟩,
    ⟨.command, 0, 400, 400, [3]⟩, ⟨.frame, 0, 500, 500, [1]⟩]

/-- The rows of the gaps of a segment of these decoders. -/
def gapRowsOf (records : List Record) : Except Escape (List Row) :=
  match (HourInterpreter.new 0).readSegment twoMarkets "a" plainHeader ⟨records, none⟩ with
  | .error e => .error e
  | .ok (h, _) => .ok (rowsOf .gaps h.rows)

/-- When the first market is back at 600 and snapshotted, the gap is over. -/
theorem readSegment_gaps_returned :
    ∃ h' facts rows, (HourInterpreter.new 0).readSegment twoMarkets "a" plainHeader
        ⟨leaving ++ [⟨.frame, 0, 600, 600, [0]⟩], none⟩ = .ok (h', facts) ∧
      rowsOf .gaps h'.rows =
        [[.int 0, .int 1, .int 300, .int 300, .int 5, .int 7, .int 600]] ∧
      (rowsOf .gaps h'.rows).Perm rows ∧
      List.Forall₂ (Segment.GivenFor twoMarkets true
        (Segment.new (HourInterpreter.new 0) "a" plainHeader))
          (gapsAt twoMarkets [] (leaving ++ [⟨.frame, 0, 600, 600, [0]⟩])) rows := by
  have hrows : gapRowsOf (leaving ++ [⟨.frame, 0, 600, 600, [0]⟩]) =
      .ok [[.int 0, .int 1, .int 300, .int 300, .int 5, .int 7, .int 600]] := by decide +kernel
  rw [gapRowsOf] at hrows
  split at hrows
  · cases hrows
  · next h' facts hread =>
      obtain ⟨rows, hperm, hgiven⟩ := readSegment_gaps hread
      exact ⟨h', facts, rows, hread, Except.ok.inj hrows, hperm, hgiven⟩

/-- The gap stales both markets, by 500 the one is snapshotted and the other
left, and the row says that it was never over. -/
theorem left_unresolved :
    (∃ s, (Segment.new (HourInterpreter.new 0) "a" plainHeader).feedAll twoMarkets
        (leaving.take 2) = .ok s ∧ s.staled 1 = {"KXA", "KXB"}) ∧
      (∃ s, (Segment.new (HourInterpreter.new 0) "a" plainHeader).feedAll twoMarkets
        (leaving.take 4) = .ok s ∧ s.markets.keys = ["KXB"]) ∧
      (∃ image, snapshotOf twoMarkets true ⟨.frame, 0, 500, 500, [1]⟩ = some image ∧
        image.sid = 1 ∧ image.ticker = "KXB") ∧
      gapRowsOf leaving = .ok [[.int 0, .int 1, .int 300, .int 300, .int 5, .int 7, .null]] := by
  refine ⟨⟨_, rfl, by decide +kernel⟩, ⟨_, rfl, by decide +kernel⟩, ⟨_, rfl, rfl, rfl⟩, ?_⟩
  decide +kernel

end Tape.Bake
