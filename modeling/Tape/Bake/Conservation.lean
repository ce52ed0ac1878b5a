import Tape.Bake.Accounting
import Tape.Wire.Numerals

/-!
# The hour's accounts balance

`Balanced` is what holds after any number of records: the counts sum up, each
table has the rows its counts say, and the gaps that were decoded are those
given and those pending. A segment ends with none pending. From it follows all
that `Conserves` asks of an hour, as soon as the hour has a result; and it has
one exactly when no record `Escapes`.
-/

namespace Tape.Bake

/-- The records fed, each with the header of its segment. -/
def fed : List Reading → List (SegmentHeader × Record)
  | [] => []
  | .segment _ header source :: rest => source.records.map (fun r => (header, r)) ++ fed rest
  | .corrupt _ _ _ :: rest => fed rest

/-- The snapshots among some records. -/
def bakedSnapshots (d : Decoders) (records : List (SegmentHeader × Record)) : List BookSnapshot :=
  records.filterMap fun e => snapshotOf d e.1.useYesPrice e.2

/-- The rows the decoded gaps owe. -/
def owed (d : Decoders) (records : List (SegmentHeader × Record)) : List Row :=
  records.flatMap fun e => owes d e.2

/-- How many records of a table's sources were baked. -/
def Counters.bakedFor (c : Counters) : TableName → Nat
  | .deltas => c.baked.count "orderbook_delta"
  | .trades => c.baked.count "trade"
  | .audits => c.baked.count "audit"
  | .lifecycle => (lifecycleTypes.map c.baked.count).sum
  | .snapshots => c.baked.count "orderbook_snapshot"
  | .gaps => c.baked.count "gap"

/-- The counts, with what was fed counted. -/
structure Balanced (d : Decoders) (c : Counters) (rows : List (TableName × Row))
    (pending : List Row) (input : List (SegmentHeader × Record)) : Prop where
  records : c.records.total = input.length
  accounted : c.records.total = c.baked.total + c.notBaked.total + c.decodeFailures.total
  kinds : ∀ k ∈ c.records.keys, k ∈ recordKinds
  given : ∀ table, table ≠ .snapshots → table ≠ .gaps →
    (rowsOf table rows).length = c.bakedFor table
  gaps : ((rowsOf .gaps rows).map base ++ pending).Perm (owed d input)
  gapCount : c.bakedFor .gaps = (owed d input).length
  snapshotCount : c.bakedFor .snapshots = (bakedSnapshots d input).length
  images : ∃ images : List (List Row), images.flatten = rowsOf .snapshots rows ∧
    images.map List.length = (bakedSnapshots d input).map imageRows

theorem sum_count_bump (counts : Tally String) (k : String) {keys : List String}
    (hn : keys.Nodup) :
    (keys.map (Tally.count (counts.bump k))).sum =
      (keys.map counts.count).sum + if k ∈ keys then 1 else 0 := by
  induction keys with
  | nil => rfl
  | cons k' keys ih =>
      obtain ⟨hout, hn⟩ := List.nodup_cons.mp hn
      have ih := ih hn
      rw [List.map_cons, List.map_cons, List.sum_cons, List.sum_cons, ih, Tally.count_bump]
      by_cases hk : k = k'
      · subst hk
        rw [if_pos rfl, if_neg hout, if_pos List.mem_cons_self]
        omega
      · have hmem : (k ∈ k' :: keys) ↔ k ∈ keys := by simp [hk]
        rw [if_neg hk]
        simp only [hmem]
        omega

theorem bakedFor_count (c : Counters) (outcome : Outcome) {table : TableName}
    (hs : table ≠ .snapshots) (hg : table ≠ .gaps) :
    (outcome.count c).bakedFor table = c.bakedFor table + outcome.rowsIn table := by
  cases outcome with
  | baked source =>
      cases table with
      | lifecycle => exact sum_count_bump c.baked source (by decide)
      | snapshots => exact absurd rfl hs
      | gaps => exact absurd rfl hg
      | _ => exact Tally.count_bump c.baked source _
  | _ => cases table <;> rfl

theorem bakedFor_snapshots (c : Counters) (outcome : Outcome) :
    (outcome.count c).bakedFor .snapshots =
      c.bakedFor .snapshots + if outcome = .baked "orderbook_snapshot" then 1 else 0 := by
  cases outcome with
  | baked source =>
      have hiff : Outcome.baked source = .baked "orderbook_snapshot" ↔
          source = "orderbook_snapshot" := by simp
      simp only [hiff]
      exact Tally.count_bump c.baked source _
  | _ => rfl

theorem bakedFor_gaps (c : Counters) (outcome : Outcome) :
    (outcome.count c).bakedFor .gaps =
      c.bakedFor .gaps + if outcome = .baked "gap" then 1 else 0 := by
  cases outcome with
  | baked source =>
      have hiff : Outcome.baked source = .baked "gap" ↔ source = "gap" := by simp
      simp only [hiff]
      exact Tally.count_bump c.baked source _
  | _ => rfl

/-- One outcome more is one record more. -/
theorem total_count (c : Counters) (outcome : Outcome) :
    (outcome.count c).records = c.records ∧
      (outcome.count c).baked.total + (outcome.count c).notBaked.total +
          (outcome.count c).decodeFailures.total =
        c.baked.total + c.notBaked.total + c.decodeFailures.total + 1 := by
  cases outcome with
  | baked source =>
      refine ⟨rfl, ?_⟩
      have hbump := Tally.total_bump c.baked source
      show (c.baked.bump source).total + c.notBaked.total + c.decodeFailures.total = _
      omega
  | notBaked reason =>
      refine ⟨rfl, ?_⟩
      have hbump := Tally.total_bump c.notBaked reason
      show c.baked.total + (c.notBaked.bump reason).total + c.decodeFailures.total = _
      omega
  | failed failure =>
      refine ⟨rfl, ?_⟩
      have hbump := Tally.total_bump c.decodeFailures failure
      show c.baked.total + c.notBaked.total + (c.decodeFailures.bump failure).total = _
      omega

/-! ## What escapes -/

/-- The exception of a computation that raised one. -/
def raised {ε α : Type} : Except ε α → Option ε
  | .error e => some e
  | .ok _ => none

/-- What reading a data frame raises, whatever the state it is fed in. -/
def dataError (d : Decoders) (useYesPrice : Bool) (env : Raw.Envelope) (receipt : Receipt) :
    Option FrameError :=
  match env.type with
  | "orderbook_delta" =>
      (raised (readDelta (decodeMsg env d.orderbookDelta) env.address receipt useYesPrice)).map
        .convert
  | "orderbook_snapshot" =>
      (raised (readSnapshot (decodeMsg env d.orderbookSnapshot) env.address receipt
        useYesPrice)).map .convert
  | "trade" => raised (Segment.readTrade d env receipt)
  | "market_lifecycle_v2" => raised (Segment.readMarketLifecycle d env receipt)
  | _ => raised (Segment.readEventMessage d env receipt)

/-- Not a `WireError` and not a `FixedPointError`. -/
def Uncaught (e : FrameError) : Prop := e = .unicode ∨ e = .convert (.numeral .overflow)

/-- A record that raises what nothing catches: a data frame with a numeral of a
million digits where the conversion reads one, or with a payload kept as text
that is not UTF-8; an audit with such levels. -/
def Escapes (d : Decoders) (useYesPrice : Bool) (r : Record) : Prop :=
  match r.kind with
  | .frame => ∃ env e, d.envelope r.payload = .ok env ∧ env.type ∈ bakedFrameTypes ∧
      dataError d useYesPrice env (receiptOf r) = some e ∧ Uncaught e
  | .audit => ∃ audit, d.audit r.payload = .ok audit ∧
      (utf8 audit.restLevels = none ∨ utf8 audit.localLevels = none)
  | _ => False

theorem caught_error_iff {e : FrameError} : (∃ escape, caught e = .error escape) ↔ Uncaught e := by
  cases e with
  | unicode => exact iff_of_true ⟨_, rfl⟩ (.inl rfl)
  | convert e =>
      cases e with
      | wire e => exact iff_of_false (by rintro ⟨_, h⟩; cases h) (by rintro (h | h) <;> cases h)
      | numeral e =>
          cases e with
          | overflow => exact iff_of_true ⟨_, rfl⟩ (.inr rfl)
          | _ => exact iff_of_false (by rintro ⟨_, h⟩; cases h) (by rintro (h | h) <;> cases h)

namespace Segment

variable {d : Decoders} {s s' : Segment} {r : Record} {header : SegmentHeader}
variable {input : List (SegmentHeader × Record)}

/-- The gaps that wait, without what resolves them. -/
def pendingBases (s : Segment) : List Row := s.pendingGaps.map fun p => base p.row

/-- The accounts of a segment's hour. -/
def InBalance (d : Decoders) (s : Segment) (input : List (SegmentHeader × Record)) : Prop :=
  Balanced d s.hour.counters s.hour.rows s.pendingBases input

/-- Before its kind is looked at, a record is only counted. -/
theorem arrive_accounts (d : Decoders) (s : Segment) (r : Record) :
    (s.arrive d r).hour.rows = s.hour.rows ∧
      (s.arrive d r).pendingGaps = s.pendingGaps ∧
      (s.arrive d r).useYesPrice = s.useYesPrice ∧
      (s.arrive d r).hour.counters =
        { s.hour.counters with records := s.hour.counters.records.bump (kindName r.kind) } := by
  rw [arrive]
  cases s.firstWallNs with
  | some _ => exact ⟨rfl, rfl, rfl, rfl⟩
  | none =>
      dsimp only
      rw [begin]
      split <;> exact ⟨rfl, rfl, rfl, rfl⟩

theorem snapshots_concat (d : Decoders) (input : List (SegmentHeader × Record))
    (e : SegmentHeader × Record) :
    bakedSnapshots d (input ++ [e]) =
      bakedSnapshots d input ++ (snapshotOf d e.1.useYesPrice e.2).toList := by
  rw [bakedSnapshots, List.filterMap_append]
  cases hof : snapshotOf d e.1.useYesPrice e.2 <;>
    simp [bakedSnapshots, hof]

theorem owed_concat (d : Decoders) (input : List (SegmentHeader × Record))
    (e : SegmentHeader × Record) : owed d (input ++ [e]) = owed d input ++ owes d e.2 := by
  rw [owed, List.flatMap_append, List.flatMap_singleton]
  rfl

/-- `1` where a record has the thing, read off the thing itself. -/
theorem length_toList_isSome {α : Type} {o : Option α} {p : Prop} [Decidable p]
    (h : p ↔ o.isSome) : o.toList.length = if p then 1 else 0 := by
  cases o with
  | none => rw [if_neg (fun hp => absurd (h.mp hp) nofun)]; rfl
  | some a => rw [if_pos (h.mpr rfl)]; rfl

/-- A record that was fed is in the accounts. -/
theorem InBalance.fed {outcome : Outcome} {more : List (TableName × Row)}
    (hb : s.InBalance d input) (ha : Accounts d (s.arrive d r) s' r outcome more)
    (hprice : s.useYesPrice = header.useYesPrice) : s'.InBalance d (input ++ [(header, r)]) := by
  obtain ⟨hrows, hpending, hyes, harrived⟩ := arrive_accounts d s r
  have hcounters := ha.entered.counters
  obtain ⟨hrecords, htotal⟩ := total_count (s.arrive d r).hour.counters outcome
  have hof := ha.snapshot
  have himage := ha.image
  rw [hyes, hprice] at hof himage
  have hbump : s'.hour.counters.records = s.hour.counters.records.bump (kindName r.kind) := by
    rw [hcounters, hrecords, harrived]
  have hmore : s'.hour.rows = s.hour.rows ++ more := by rw [ha.entered.rows, hrows]
  refine ⟨?_, ?_, ?_, ?_, ?_, ?_, ?_, ?_⟩
  · rw [hbump, Tally.total_bump, hb.records, List.length_append]
    rfl
  · rw [hbump, Tally.total_bump, hb.accounted, hcounters, htotal, harrived]
  · intro k hk
    rw [hbump, Tally.mem_keys_bump] at hk
    rcases hk with rfl | hk
    · cases r.kind <;> decide
    · exact hb.kinds k hk
  · intro table hs hg
    have hbaked : (s.arrive d r).hour.counters.bakedFor table =
        s.hour.counters.bakedFor table := by
      rw [harrived]
      cases table <;> rfl
    rw [hcounters, bakedFor_count _ _ hs hg, hbaked, ← hb.given table hs hg,
      ← ha.entered.given table hs hg, hmore, rowsOf_append, List.length_append]
  · have hgaps := ha.entered.gaps.append_left ((rowsOf .gaps s.hour.rows).map base)
    rw [hmore, rowsOf_append, List.map_append, owed_concat, List.append_assoc]
    refine hgaps.trans ?_
    rw [hpending, ← List.append_assoc]
    exact hb.gaps.append_right _
  · have hbaked : (s.arrive d r).hour.counters.bakedFor .gaps = s.hour.counters.bakedFor .gaps := by
      rw [harrived]
      rfl
    have hlength : (owes d r).length = if outcome = .baked "gap" then 1 else 0 := by
      rw [owes]
      refine length_toList_isSome ?_
      rw [Option.isSome_map]
      exact ha.gap
    rw [hcounters, bakedFor_gaps, hbaked, hb.gapCount, owed_concat, List.length_append, hlength]
  · have hbaked : (s.arrive d r).hour.counters.bakedFor .snapshots =
        s.hour.counters.bakedFor .snapshots := by
      rw [harrived]
      rfl
    rw [hcounters, bakedFor_snapshots, hbaked, hb.snapshotCount, snapshots_concat,
      List.length_append, length_toList_isSome hof]
  · obtain ⟨images, hflat, hlen⟩ := hb.images
    rw [snapshots_concat, hmore, rowsOf_append, List.map_append, ← hflat, ← hlen]
    cases hcase : snapshotOf d header.useYesPrice r with
    | none =>
        rw [hcase] at himage
        have hnone : rowsOf .snapshots more = [] := List.length_eq_zero_iff.mp himage
        exact ⟨images, by rw [hnone, List.append_nil], by simp⟩
    | some image =>
        rw [hcase] at himage
        refine ⟨images ++ [rowsOf .snapshots more], by simp, ?_⟩
        rw [List.map_append, List.map_singleton, himage]
        rfl

/-! ## Feeding -/

theorem dataFrame_error_iff {env : Raw.Envelope} {receipt : Receipt} {e : FrameError} :
    s.dataFrame d env receipt = .error e ↔ dataError d s.useYesPrice env receipt = some e := by
  rw [dataFrame]
  split
  · next htype =>
      rw [dataError, htype, delta]
      cases readDelta (decodeMsg env d.orderbookDelta) env.address receipt s.useYesPrice with
      | error e' => simp [raised]
      | ok image => simp [raised]
  · next htype =>
      rw [dataError, htype]
      cases hread : readSnapshot (decodeMsg env d.orderbookSnapshot) env.address receipt
          s.useYesPrice with
      | error e' =>
          rw [snapshot, hread]
          simp [raised]
      | ok image =>
          rw [snapshot_eq hread]
          simp [raised]
  · next htype =>
      rw [dataError, htype, trade]
      cases readTrade d env receipt with
      | error e' => simp [raised]
      | ok trade => simp [raised]
  · next htype =>
      rw [dataError, htype]
      cases readMarketLifecycle d env receipt with
      | error e' => simp [raised, lifecycle]
      | ok row => simp [raised, lifecycle]
  · next hd hs ht hm =>
      rw [dataError]
      split
      · next htype => exact absurd htype hd
      · next htype => exact absurd htype hs
      · next htype => exact absurd htype ht
      · next htype => exact absurd htype hm
      · cases readEventMessage d env receipt with
        | error e' => simp [raised, lifecycle]
        | ok row => simp [raised, lifecycle]

theorem rawText_error_iff {raw : List UInt8} :
    (∃ e, rawText raw = .error e) ↔ utf8 raw = none := by
  rw [rawText]
  split
  · next hnil =>
      rw [hnil]
      exact iff_of_false (by rintro ⟨_, h⟩; cases h) (by decide)
  · cases utf8 raw with
    | none => exact iff_of_true ⟨_, rfl⟩ rfl
    | some text => exact iff_of_false (by rintro ⟨_, h⟩; cases h) nofun

theorem notBaked_not_baked {type : String} (h : type ∈ notBakedFrameTypes) :
    type ∉ bakedFrameTypes := by
  have hdisjoint : ∀ t ∈ notBakedFrameTypes, t ∉ bakedFrameTypes := by decide
  exact hdisjoint type h

/-- A record is lost to an exception exactly if it escapes. -/
theorem interpret_error_iff :
    (∃ e, s.interpret d r = .error e) ↔ Escapes d s.useYesPrice r := by
  rw [interpret, Escapes]
  cases r.kind with
  | frame =>
      dsimp only
      rw [frame, decodeEnvelope]
      cases henv : d.envelope r.payload with
      | error e => exact iff_of_false (by rintro ⟨_, h⟩; cases h) (by rintro ⟨_, _, h, _⟩; cases h)
      | ok env =>
          dsimp only
          split
          · next hin =>
              refine iff_of_false (by rintro ⟨_, h⟩; cases h) ?_
              rintro ⟨env', e, heq, hbaked, -⟩
              obtain rfl := Except.ok.inj heq
              exact notBaked_not_baked hin hbaked
          · split
            · next hout =>
                refine iff_of_false (by rintro ⟨_, h⟩; cases h) ?_
                rintro ⟨env', e, heq, hbaked, -⟩
                obtain rfl := Except.ok.inj heq
                exact hout hbaked
            · next hin =>
                cases hframe : s.dataFrame d env ⟨r.connId, r.recvMonoNs, r.recvWallNs⟩ with
                | error e =>
                    have hraises := dataFrame_error_iff.mp hframe
                    dsimp only
                    constructor
                    · rintro ⟨escape, hescape⟩
                      refine ⟨env, e, rfl, not_not.mp hin, hraises, caught_error_iff.mp ?_⟩
                      cases hcaught : caught e with
                      | error escape => exact ⟨escape, rfl⟩
                      | ok detail =>
                          rw [hcaught] at hescape
                          cases hescape
                    · rintro ⟨env', e', heq, -, hraises', huncaught⟩
                      obtain rfl := Except.ok.inj heq
                      obtain rfl := Option.some.inj (hraises.symm.trans hraises')
                      obtain ⟨escape, hcaught⟩ := caught_error_iff.mpr huncaught
                      exact ⟨escape, by rw [hcaught]⟩
                | ok s' =>
                    refine iff_of_false (by rintro ⟨_, h⟩; cases h) ?_
                    rintro ⟨env', e, heq, -, hraises, -⟩
                    obtain rfl := Except.ok.inj heq
                    rw [receiptOf, ← dataFrame_error_iff, hframe] at hraises
                    cases hraises
  | audit =>
      dsimp only
      rw [audit]
      cases d.audit r.payload with
      | error e => exact iff_of_false (by rintro ⟨_, h⟩; cases h) (by rintro ⟨_, h, _⟩; cases h)
      | ok audit =>
          dsimp only
          have hiff : (∃ a, Except.ok audit = (.ok a : Except String AuditPayload) ∧
              (utf8 a.restLevels = none ∨ utf8 a.localLevels = none)) ↔
              utf8 audit.restLevels = none ∨ utf8 audit.localLevels = none := by simp
          rw [hiff, ← rawText_error_iff, ← rawText_error_iff]
          cases rawText audit.restLevels with
          | error e => exact iff_of_true ⟨e, rfl⟩ (.inl ⟨e, rfl⟩)
          | ok restLevels =>
              cases rawText audit.localLevels with
              | error e => exact iff_of_true ⟨e, rfl⟩ (.inr ⟨e, rfl⟩)
              | ok localLevels =>
                  exact iff_of_false (by rintro ⟨_, h⟩; cases h)
                    (by rintro (⟨_, h⟩ | ⟨_, h⟩) <;> cases h)
  | _ => exact iff_of_false (by rintro ⟨_, h⟩; cases h) id

theorem feed_error_iff : (∃ e, s.feed d r = .error e) ↔ Escapes d s.useYesPrice r := by
  have hprice := (arrive_accounts d s r).2.2.1
  rw [feed, ← hprice, ← interpret_error_iff]
  cases (s.arrive d r).interpret d r with
  | error e => exact iff_of_true ⟨e, rfl⟩ ⟨e, rfl⟩
  | ok s' => exact iff_of_false (by rintro ⟨_, h⟩; cases h) (by rintro ⟨_, h⟩; cases h)

theorem feed_accounts (h : s.feed d r = .ok s') :
    (∃ outcome more, Accounts d (s.arrive d r) s' r outcome more) ∧
      s'.useYesPrice = s.useYesPrice := by
  rw [feed] at h
  split at h
  · cases h
  · next s₀ hstep =>
      obtain ⟨outcome, more, ha⟩ := interpret_accounts hstep
      obtain rfl := Except.ok.inj h
      exact ⟨⟨outcome, more, ha.after ⟨rfl, rfl, rfl, rfl⟩⟩,
        ha.entered.price.trans (arrive_accounts d s r).2.2.1⟩

theorem InBalance.feedAll {records : List Record} (hb : s.InBalance d input)
    (hprice : s.useYesPrice = header.useYesPrice) (h : s.feedAll d records = .ok s') :
    s'.InBalance d (input ++ records.map fun r => (header, r)) := by
  induction records generalizing s input with
  | nil =>
      obtain rfl := Except.ok.inj h
      rw [List.map_nil, List.append_nil]
      exact hb
  | cons r rest ih =>
      rw [Segment.feedAll] at h
      split at h
      · cases h
      · next s₁ hfeed =>
          obtain ⟨⟨outcome, more, ha⟩, hsame⟩ := feed_accounts hfeed
          have hrest := ih (hb.fed ha hprice) (hsame.trans hprice) h
          rwa [List.append_assoc] at hrest

/-- A segment is lost exactly if one of its records escapes. -/
theorem feedAll_error_iff {records : List Record} (hprice : s.useYesPrice = header.useYesPrice) :
    (∃ e, s.feedAll d records = .error e) ↔ ∃ r ∈ records, Escapes d header.useYesPrice r := by
  induction records generalizing s with
  | nil => exact iff_of_false (by rintro ⟨_, h⟩; cases h) (by rintro ⟨_, h, _⟩; cases h)
  | cons r rest ih =>
      have hfirst := @feed_error_iff d s r
      rw [feedAll]
      cases hfeed : s.feed d r with
      | error e =>
          rw [hfeed, hprice] at hfirst
          exact iff_of_true ⟨e, rfl⟩ ⟨r, List.mem_cons_self, hfirst.mp ⟨e, rfl⟩⟩
      | ok s₁ =>
          rw [hfeed, hprice] at hfirst
          have hno : ¬ Escapes d header.useYesPrice r := fun h => by
            obtain ⟨_, he⟩ := hfirst.mpr h
            cases he
          dsimp only
          rw [ih ((feed_accounts hfeed).2.trans hprice)]
          simp [hno]

theorem quiet_ended (s : Segment) : Quiet s s.ended := by
  have hends : ∀ (markets : List Market) (s : Segment) (w : Int),
      Quiet s (markets.foldl (fun s market => s.endMarket market w) s) := by
    intro markets
    induction markets with
    | nil => exact fun s _ => .refl s
    | cons m markets ih => exact fun s w => (quiet_endMarket s m w).trans (ih _ w)
  rw [ended]
  split
  · exact .refl s
  · next last _ => exact (hends s.markets.values s last).trans (quiet_closeSpan _ last false)

/-- The end of a segment gives the gaps that still wait. -/
theorem InBalance.finish (hb : s.InBalance d input) :
    Balanced d s.finish.1.hour.counters s.finish.1.hour.rows [] input := by
  have hquiet := quiet_ended s
  have hb' : s.ended.InBalance d input := by
    rw [InBalance, pendingBases, hquiet.counters, hquiet.rows, hquiet.pending]
    exact hb
  have hrows : s.finish.1.hour.rows = s.ended.hour.rows ++
      (s.ended.pendingGaps.map PendingGap.row).map fun row => (TableName.gaps, row) := by
    rw [Segment.finish]
    simp only [emitAll_eq, onHour]
  have hcounters : s.finish.1.hour.counters = s.ended.hour.counters := by
    rw [Segment.finish]
    simp only [emitAll_eq, onHour]
  rw [hrows, hcounters]
  refine { hb' with given := fun table hs hg => ?_, gaps := ?_, images := ?_ }
  · rw [rowsOf_append, rowsOf_map_ne hg.symm, List.append_nil]
    exact hb'.given table hs hg
  · rw [rowsOf_append, rowsOf_map_self, List.map_append, List.map_map, List.append_nil]
    exact hb'.gaps
  · rw [rowsOf_append, @rowsOf_map_ne .snapshots .gaps (by rintro ⟨⟩), List.append_nil]
    exact hb'.images

end Segment

namespace HourInterpreter

variable {d : Decoders} {h h' : HourInterpreter} {input : List (SegmentHeader × Record)}

/-- The accounts of an hour between two segments. -/
def InBalance (d : Decoders) (h : HourInterpreter) (input : List (SegmentHeader × Record)) :
    Prop := Balanced d h.counters h.rows [] input

theorem inBalance_new (d : Decoders) (start : Int) : (new start).InBalance d [] where
  records := rfl
  accounted := rfl
  kinds k hk := by cases hk
  given table _ _ := by cases table <;> rfl
  gaps := List.Perm.refl _
  gapCount := rfl
  snapshotCount := rfl
  images := ⟨[], rfl, rfl⟩

theorem InBalance.readSegment {name : String} {header : SegmentHeader} {source : RecordSource}
    {facts : SegmentFacts} (hb : h.InBalance d input)
    (hread : h.readSegment d name header source = .ok (h', facts)) :
    h'.InBalance d (input ++ source.records.map fun r => (header, r)) := by
  rw [HourInterpreter.readSegment] at hread
  split at hread
  · cases hread
  · next s hfeed =>
      have hfirst : (Segment.new h name header).InBalance d input := hb
      have hs := hfirst.feedAll rfl hfeed
      obtain ⟨rfl, -⟩ := Prod.mk.inj (Except.ok.inj hread)
      cases source.corruption with
      | none => exact hs.finish
      | some detail =>
          have hcorrupt : (s.onHour fun h => h.corruptSegment name detail s.records).InBalance d
              (input ++ source.records.map fun r => (header, r)) := hs
          exact hcorrupt.finish

theorem InBalance.readAll {readings : List Reading} (hb : h.InBalance d input)
    (hread : h.readAll d readings = .ok h') : h'.InBalance d (input ++ fed readings) := by
  induction readings generalizing h input with
  | nil =>
      obtain rfl := Except.ok.inj hread
      rw [fed, List.append_nil]
      exact hb
  | cons reading rest ih =>
      rw [HourInterpreter.readAll] at hread
      split at hread
      · cases hread
      · next h₁ hfirst =>
          cases reading with
          | corrupt name detail index =>
              obtain rfl := Except.ok.inj hfirst
              have hcorrupt : (h.corruptSegment name detail index).InBalance d input := hb
              exact ih hcorrupt hread
          | segment name header source =>
              rw [read] at hfirst
              split at hfirst
              · cases hfirst
              · next facts hsegment =>
                  obtain rfl := Except.ok.inj hfirst
                  have hrest := ih (hb.readSegment hsegment) hread
                  rwa [List.append_assoc] at hrest

/-- An hour is lost exactly if one of its records escapes. -/
theorem readAll_error_iff {readings : List Reading} :
    (∃ e, h.readAll d readings = .error e) ↔
      ∃ e ∈ fed readings, Escapes d e.1.useYesPrice e.2 := by
  induction readings generalizing h with
  | nil => exact iff_of_false (by rintro ⟨_, h⟩; cases h) (by rintro ⟨_, h, _⟩; cases h)
  | cons reading rest ih =>
      rw [readAll]
      cases reading with
      | corrupt name detail index => exact ih
      | segment name header source =>
          have hsegment := @Segment.feedAll_error_iff d (Segment.new h name header) header
            source.records rfl
          have hfed : (∃ e ∈ fed (.segment name header source :: rest),
              Escapes d e.1.useYesPrice e.2) ↔
              (∃ r ∈ source.records, Escapes d header.useYesPrice r) ∨
                ∃ e ∈ fed rest, Escapes d e.1.useYesPrice e.2 := by
            simp only [fed, List.mem_append, List.mem_map, or_and_right, exists_or]
            simp
          rw [hfed, read, readSegment]
          cases hfeed : (Segment.new h name header).feedAll d source.records with
          | error e =>
              rw [hfeed] at hsegment
              exact iff_of_true ⟨e, rfl⟩ (.inl (hsegment.mp ⟨e, rfl⟩))
          | ok s =>
              rw [hfeed] at hsegment
              have hno : ¬ ∃ r ∈ source.records, Escapes d header.useYesPrice r := fun hr => by
                obtain ⟨_, he⟩ := hsegment.mpr hr
                cases he
              rw [or_iff_right hno, ← ih]

/-- An hour in balance has a result. -/
theorem InBalance.finish (hb : h.InBalance d input) :
    ∃ result, h.finish = .ok result ∧
      result.accounting.records = h.counters.records.sorted ∧
      result.accounting.baked = h.counters.baked.sorted ∧
      result.accounting.notBaked = h.counters.notBaked.sorted ∧
      result.accounting.decodeFailures = h.counters.decodeFailures.sorted ∧
      result.integrity = h.integrity := by
  have hk : ∀ k ∈ h.counters.records.sorted.keys, k ∈ recordKinds := fun k hk =>
    hb.kinds k (Dict.mem_keys_sorted.mp hk)
  have ha : Tally.total h.counters.records.sorted = Tally.total h.counters.baked.sorted +
      Tally.total h.counters.notBaked.sorted + Tally.total h.counters.decodeFailures.sorted := by
    simp only [Tally.total_sorted]
    exact hb.accounted
  rw [HourInterpreter.finish, RecordAccounting.build, dif_pos hk, dif_pos ha]
  exact ⟨_, rfl, rfl, rfl, rfl, rfl, rfl⟩

end HourInterpreter

/-! ## The hour -/

/-- What the counts of an hour say about its rows. -/
structure Conserves (d : Decoders) (readings : List Reading) (h : HourInterpreter)
    (result : HourResult) : Prop where
  records : result.accounting.records.total = (fed readings).length
  accounted : result.accounting.records.total = result.accounting.baked.total +
    result.accounting.notBaked.total + result.accounting.decodeFailures.total
  deltas : (rowsOf .deltas h.rows).length = result.accounting.baked.count "orderbook_delta"
  trades : (rowsOf .trades h.rows).length = result.accounting.baked.count "trade"
  gaps : (rowsOf .gaps h.rows).length = result.accounting.baked.count "gap"
  audits : (rowsOf .audits h.rows).length = result.accounting.baked.count "audit"
  lifecycle : (rowsOf .lifecycle h.rows).length =
    (lifecycleTypes.map result.accounting.baked.count).sum
  /-- The rows of the snapshots, cut into the images baked. -/
  images : ∃ images : List (List Row), images.flatten = rowsOf .snapshots h.rows ∧
    images.map List.length = (bakedSnapshots d (fed readings)).map imageRows ∧
    images.length = result.accounting.baked.count "orderbook_snapshot"
  /-- The gaps decoded, each with its row. -/
  eachGap : ((rowsOf .gaps h.rows).map base).Perm (owed d (fed readings))
  /-- A record that is counted as a failure gives no row. -/
  silent : ∀ (s s' : Segment) (r : Record), s.feed d r = .ok s' →
    s.hour.counters.decodeFailures.total < s'.hour.counters.decodeFailures.total →
    s'.hour.rows = s.hour.rows

variable {d : Decoders}

/-- Only a failure adds to the failures. -/
theorem Segment.feed_silent {s s' : Segment} {r : Record} (h : s.feed d r = .ok s')
    (hmore : s.hour.counters.decodeFailures.total < s'.hour.counters.decodeFailures.total) :
    s'.hour.rows = s.hour.rows := by
  obtain ⟨⟨outcome, more, ha⟩, -⟩ := feed_accounts h
  obtain ⟨hrows, -, -, harrived⟩ := arrive_accounts d s r
  have hcounters := ha.entered.counters
  rw [harrived] at hcounters
  cases outcome with
  | failed failure =>
      rw [ha.entered.rows, ha.silent failure rfl, List.append_nil, hrows]
  | baked source =>
      rw [hcounters] at hmore
      exact absurd hmore (lt_irrefl _)
  | notBaked reason =>
      rw [hcounters] at hmore
      exact absurd hmore (lt_irrefl _)

/-- An hour has a result that conserves every record exactly if no record
escapes. -/
theorem hour_conserves_iff (d : Decoders) (start : Int) (readings : List Reading) :
    (∃ h result, (HourInterpreter.new start).readAll d readings = .ok h ∧
      h.finish = .ok result ∧ Conserves d readings h result) ↔
      ∀ e ∈ fed readings, ¬ Escapes d e.1.useYesPrice e.2 := by
  have hlost := @HourInterpreter.readAll_error_iff d (.new start) readings
  constructor
  · rintro ⟨h, result, hread, -⟩ e he hescapes
    rw [hread] at hlost
    obtain ⟨_, herror⟩ := hlost.mpr ⟨e, he, hescapes⟩
    cases herror
  · intro hnone
    cases hread : (HourInterpreter.new start).readAll d readings with
    | error e =>
        rw [hread] at hlost
        obtain ⟨e, he, hescapes⟩ := hlost.mp ⟨e, rfl⟩
        exact absurd hescapes (hnone e he)
    | ok h =>
        have hb : h.InBalance d (fed readings) :=
          (HourInterpreter.inBalance_new d start).readAll hread
        obtain ⟨result, hfinish, hrecords, hbaked, hnot, hfailures, -⟩ := hb.finish
        obtain ⟨images, hflat, hlen⟩ := hb.images
        have hcount : ∀ k, result.accounting.baked.count k = h.counters.baked.count k := fun k => by
          rw [hbaked, Tally.count_sorted]
        have hsum : (lifecycleTypes.map result.accounting.baked.count).sum =
            h.counters.bakedFor .lifecycle := by
          rw [funext hcount]
          rfl
        refine ⟨h, result, rfl, hfinish, ?_⟩
        exact {
          records := by rw [hrecords, Tally.total_sorted, hb.records]
          accounted := result.accounting.accounted
          deltas := (hb.given .deltas nofun nofun).trans (hcount _).symm
          trades := (hb.given .trades nofun nofun).trans (hcount _).symm
          audits := (hb.given .audits nofun nofun).trans (hcount _).symm
          lifecycle := (hb.given .lifecycle nofun nofun).trans hsum.symm
          gaps := by
            have hlength := hb.gaps.length_eq
            rw [List.append_nil, List.length_map, ← hb.gapCount] at hlength
            exact hlength.trans (hcount _).symm
          images := by
            refine ⟨images, hflat, hlen, ?_⟩
            have hlength := congrArg List.length hlen
            rw [List.length_map, List.length_map, ← hb.snapshotCount] at hlength
            exact hlength.trans (hcount _).symm
          eachGap := by
            have hgaps := hb.gaps
            rwa [List.append_nil] at hgaps
          silent := fun _ _ _ => Segment.feed_silent }

/-- Decoders that know one trade: its frame, the payload in it, and the count
this holds. -/
def tradeDecoders (frame msg : List UInt8) (count : String) : Decoders where
  envelope raw := if raw = frame then .ok ⟨"trade", some 1, some 1, none, msg⟩ else .error "unknown"
  trade raw :=
    if raw = msg then .ok ⟨"a", "KXA", "0.5000", count, .bid, 1, false⟩ else .error "unknown"
  subscribed _ := .error "unknown"
  orderbookSnapshot _ := .error "unknown"
  orderbookDelta _ := .error "unknown"
  marketLifecycleV2 _ := .error "unknown"
  eventLifecycle _ := .error "unknown"
  eventFeeUpdate _ := .error "unknown"
  gap _ := .error "unknown"
  audit _ := .error "unknown"
  connection _ := .error "unknown"
  command _ := .error "unknown"

theorem trade_escapes (frame msg : List UInt8) {count : String}
    (hcount : parseCount count = .error .overflow) :
    Escapes (tradeDecoders frame msg count) true ⟨.frame, 0, 0, 0, frame⟩ := by
  have hbaked : "trade" ∈ bakedFrameTypes := by decide
  refine ⟨⟨"trade", some 1, some 1, none, msg⟩, .convert (.numeral .overflow), if_pos rfl,
    hbaked, ?_, .inr rfl⟩
  have hmsg : decodeMsg ⟨"trade", some 1, some 1, none, msg⟩
      (tradeDecoders frame msg count).trade =
        .ok ⟨"a", "KXA", "0.5000", count, .bid, 1, false⟩ := by
    rw [decodeMsg, tradeDecoders]
    simp only [if_true]
  have hprice : parsePrice "0.5000" = .ok 5000 := by decide +kernel
  show raised (Segment.readTrade _ _ _) = _
  rw [Segment.readTrade, hmsg]
  dsimp only
  rw [toTrade]
  dsimp only
  rw [hprice, hcount]
  rfl

/-- A count of a million digits. -/
def longCount : String := String.ofList (FixedUnit.powerOfTen 999999).text

/-- A trade of that count; its frame is about a megabyte. -/
def longMsg : String :=
  "\x7b\"trade_id\":\"a\",\"market_ticker\":\"KXA\",\"yes_price_dollars\":\"0.5000\"," ++
    "\"no_price_dollars\":\"0.5000\",\"count_fp\":\"" ++ longCount ++
    "\",\"taker_book_side\":\"bid\",\"ts_ms\":1\x7d"

/-- The text of a trade frame. -/
def longFrame : String :=
  "\x7b\"type\":\"trade\",\"sid\":1,\"seq\":1,\"msg\":" ++ longMsg ++ "\x7d"

/-- The header of its segment. -/
def longHeader : SegmentHeader := ⟨0, "host", "prod", 0, "wss", true, [], "1", []⟩

/-- The record of the frame. -/
def longRecord : Record := ⟨.frame, 0, 0, 0, longFrame.toUTF8.toList⟩

/-- The hour that holds it has no result. -/
theorem hour_lost_to_numeral :
    ¬ ∃ h result,
      (HourInterpreter.new 0).readAll
        (tradeDecoders longFrame.toUTF8.toList longMsg.toUTF8.toList longCount)
        [.segment "conn-00" longHeader ⟨[longRecord], none⟩] = .ok h ∧
      h.finish = .ok result ∧
      Conserves (tradeDecoders longFrame.toUTF8.toList longMsg.toUTF8.toList longCount)
        [.segment "conn-00" longHeader ⟨[longRecord], none⟩] h result := by
  have hescapes := trade_escapes longFrame.toUTF8.toList longMsg.toUTF8.toList
    (@FixedUnit.parseCount_powerOfTen 999999 (by decide))
  rw [longRecord, longCount]
  -- only that the record escapes matters, not what its bytes are
  generalize longFrame.toUTF8.toList = frame at hescapes ⊢
  generalize longMsg.toUTF8.toList = msg at hescapes ⊢
  generalize String.ofList (FixedUnit.powerOfTen 999999).text = count at hescapes ⊢
  rintro ⟨h, -, hread, -⟩
  have hlost := @HourInterpreter.readAll_error_iff (tradeDecoders frame msg count) (.new 0)
    [.segment "conn-00" longHeader ⟨[⟨.frame, 0, 0, 0, frame⟩], none⟩]
  rw [hread] at hlost
  obtain ⟨_, herror⟩ := hlost.mpr
    ⟨(longHeader, ⟨.frame, 0, 0, 0, frame⟩), List.mem_cons_self, hescapes⟩
  cases herror

end Tape.Bake
