import Tape.Bake.Conservation
import Tape.Recorder.Built

/-!
# Rows that can be stored

An array of a column is built with integers of the column's type only, and one
that is not is an exception when the hour is written. The interpreter does not
look at the types: what it reads is unbounded where JSON and decimal strings
are, and only prices are checked. `Fits` says of a record that the integers it
brings into a table are within their columns, and an hour has a result that can
be stored exactly if every record fits and none raises what nothing catches.
A keyframe can be stored exactly if the counts of the book can, and its times.
-/

namespace Tape.Bake

namespace ColumnType

/-- An integer of the type, or nothing. -/
def HoldsAny (t : ColumnType) (v : Option Int) : Prop := ∀ n ∈ v, t.Holds n

instance (t : ColumnType) (v : Option Int) : Decidable (t.HoldsAny v) :=
  inferInstanceAs (Decidable (∀ n ∈ v, t.Holds n))

end ColumnType

open ColumnType

/-! ## What a column takes -/

section Takes

variable {name : String} {t : ColumnType}

@[simp] theorem takes_required_int {v : Int} : (required name t).Takes (.int v) ↔ t.Holds v :=
  Iff.rfl

@[simp] theorem takes_optional_int {v : Int} : (optional name t).Takes (.int v) ↔ t.Holds v :=
  Iff.rfl

@[simp] theorem takes_required_text {s : String} : (required name .string).Takes (.text s) := rfl

@[simp] theorem takes_optional_text {s : String} : (optional name .string).Takes (.text s) := rfl

@[simp] theorem takes_required_bool {b : Bool} : (required name .bool).Takes (.bool b) := rfl

@[simp] theorem takes_optional_null : (optional name t).Takes .null := rfl

@[simp] theorem takes_optional_text? {s : Option String} :
    (optional name .string).Takes (.text? s) := by
  cases s with
  | none => rfl
  | some s => rfl

@[simp] theorem takes_optional_int? {v : Option Int} :
    (optional name t).Takes (.int? v) ↔ t.HoldsAny v := by
  cases v with
  | none => exact iff_of_true rfl nofun
  | some v => exact ⟨fun h n hn => Option.some.inj hn ▸ h, fun h => h v rfl⟩

end Takes

instance (table : TableName) (row : Row) : Decidable (Stores table row) :=
  inferInstanceAs (Decidable (List.Forall₂ _ _ _))

theorem holds_side (s : Side) : int8.Holds s.toInt := by cases s <;> decide

theorem holds_reason {reason : Int} (h : reason ∈ reasons) : int8.Holds reason := by
  rcases List.mem_cons.mp h with rfl | h
  · decide
  · rcases List.mem_cons.mp h with rfl | h
    · decide
    · rw [List.mem_singleton.mp h]
      decide

/-- A price on the scale of the exchange. -/
def IsPrice (p : Int) : Prop := 0 ≤ p ∧ p ≤ Fixedpoint.priceScale

theorem IsPrice.holds {p : Int} (h : IsPrice p) : int32.Holds p := by
  obtain ⟨hlow, hhigh⟩ := h
  have hscale : Fixedpoint.priceScale = 10000 := rfl
  exact ⟨by show -2147483648 ≤ p; omega, by show p < 2147483648; omega⟩

theorem IsPrice.complement {p : Int} (h : IsPrice p) : IsPrice (complement p) := by
  obtain ⟨hlow, hhigh⟩ := h
  exact ⟨by rw [Tape.complement]; omega, by rw [Tape.complement]; omega⟩

theorem isPrice_wireLevels {toYes : Bool} {pairs : List (String × String)} {levels : List Level}
    (h : wireLevels toYes pairs = .ok levels) : ∀ level ∈ levels, IsPrice level.price := by
  induction pairs generalizing levels with
  | nil =>
      obtain rfl := Except.ok.inj h
      exact nofun
  | cons pair rest ih =>
      rw [wireLevels] at h
      split at h
      · cases h
      · next price hprice =>
          split at h
          · cases h
          · next count hcount =>
              split at h
              · cases h
              · next others hothers =>
                  have hrange : IsPrice price := parsePrice_range hprice
                  split at h
                  · obtain rfl := Except.ok.inj h
                    exact ih hothers
                  · obtain rfl := Except.ok.inj h
                    refine List.forall_mem_cons.mpr ⟨?_, ih hothers⟩
                    show IsPrice (if toYes then Tape.complement price else price)
                    split
                    · exact hrange.complement
                    · exact hrange

theorem isPrice_readSnapshot {msg : Except WireError OrderbookSnapshotMsg} {env : Envelope}
    {receipt : Receipt} {useYesPrice : Bool} {image : BookSnapshot}
    (h : readSnapshot msg env receipt useYesPrice = .ok image) :
    (∀ level ∈ image.bids, IsPrice level.price) ∧ ∀ level ∈ image.asks, IsPrice level.price := by
  cases msg with
  | error e => cases h
  | ok m =>
      rw [readSnapshot, toBookSnapshot] at h
      split at h
      · cases h
      · split at h
        · cases h
        · next bids hbids =>
            split at h
            · cases h
            · next asks hasks =>
                obtain rfl := Except.ok.inj h
                exact ⟨isPrice_wireLevels hbids, isPrice_wireLevels hasks⟩

theorem isPrice_readDelta {msg : Except WireError OrderbookDeltaMsg} {env : Envelope}
    {receipt : Receipt} {useYesPrice : Bool} {delta : BookDelta}
    (h : readDelta msg env receipt useYesPrice = .ok delta) : IsPrice delta.price := by
  cases msg with
  | error e => cases h
  | ok m =>
      rw [readDelta, toBookDelta] at h
      split at h
      · cases h
      · split at h
        · cases h
        · next price hprice =>
            split at h
            · cases h
            · obtain rfl := Except.ok.inj h
              have hrange : IsPrice price := parsePrice_range hprice
              show IsPrice (if _ then Tape.complement price else price)
              split
              · exact hrange.complement
              · exact hrange

theorem isPrice_toTrade {msg : TradeMsg} {env : Raw.Envelope} {receipt : Receipt} {trade : Trade}
    (h : toTrade msg env receipt = .ok trade) : IsPrice trade.price := by
  rw [toTrade] at h
  split at h
  · cases h
  · split at h
    · cases h
    · next price hprice =>
        split at h
        · cases h
        · obtain rfl := Except.ok.inj h
          exact parsePrice_range hprice

/-! ## Records whose integers fit -/

/-- The numbers of a delta and its receipt fit their columns. -/
def DeltaFits (delta : BookDelta) (receipt : Receipt) : Prop :=
  int64.HoldsAny delta.tsMs ∧ int64.Holds receipt.recvMonoNs ∧ int64.Holds receipt.recvWallNs ∧
    int16.Holds receipt.connId ∧ int32.Holds delta.sid ∧ int64.HoldsAny delta.seq ∧
    int64.Holds delta.delta

/-- The numbers of a snapshot and its receipt fit their columns. -/
def SnapshotFits (image : BookSnapshot) (receipt : Receipt) : Prop :=
  int64.Holds receipt.recvWallNs ∧ int64.Holds receipt.recvMonoNs ∧ int16.Holds receipt.connId ∧
    int32.Holds image.sid ∧ int64.HoldsAny image.seq ∧
    ∀ level ∈ image.bids ++ image.asks, int64.Holds level.count

/-- The numbers of a trade and its receipt fit their columns. -/
def TradeFits (trade : Trade) (receipt : Receipt) : Prop :=
  int64.Holds trade.tsMs ∧ int64.Holds receipt.recvWallNs ∧ int32.Holds trade.sid ∧
    int64.HoldsAny trade.seq ∧ int64.Holds trade.count

/-- The numbers of a lifecycle event and its receipt fit their columns. -/
def LifecycleFits (tsS : Option Int) (receipt : Receipt) (sid : Sid) (seq : Option Int) : Prop :=
  int64.HoldsAny tsS ∧ int64.Holds receipt.recvWallNs ∧ int32.Holds sid ∧ int64.HoldsAny seq

/-- The numbers of a gap and its receipt fit their columns. -/
def GapFits (gap : GapPayload) (r : Record) : Prop :=
  int16.Holds r.connId ∧ int32.Holds gap.sid ∧ int64.Holds r.recvWallNs ∧
    int64.Holds r.recvMonoNs ∧ int64.Holds gap.expectedSeq ∧ int64.Holds gap.gotSeq

/-- The numbers of an audit and its receipt fit their columns. -/
def AuditFits (audit : AuditPayload) (r : Record) : Prop :=
  int64.Holds r.recvWallNs ∧ int16.Holds r.connId ∧ int64.Holds audit.sendWallNs ∧
    int64.Holds audit.sendMonoNs ∧ int64.Holds r.recvMonoNs ∧
    int64.Holds audit.windowOpenMonoNs ∧ int64.Holds audit.windowCloseMonoNs ∧
    int32.Holds audit.windowEvents ∧ int32.HoldsAny audit.matchIndex ∧
    int32.Holds audit.levelsRest ∧ int32.HoldsAny audit.levelsLocal ∧
    int32.HoldsAny audit.mismatchedLevels ∧ int64.HoldsAny audit.maxAbsDiffE2

theorem stores_deltaRow {delta : BookDelta} (hprice : IsPrice delta.price) (receipt : Receipt) :
    Stores .deltas (Segment.deltaRow delta receipt) ↔ DeltaFits delta receipt := by
  simp [Stores, tables, deltas, Segment.deltaRow, DeltaFits, hprice.holds, holds_side]

theorem stores_levelRow {image : BookSnapshot} {receipt : Receipt} {reason side : Int}
    {level : Level} (hreason : int8.Holds reason) (hside : int8.Holds side)
    (hprice : IsPrice level.price) :
    Stores .snapshots (Segment.levelRow image receipt reason side level) ↔
      int64.Holds receipt.recvWallNs ∧ int64.Holds receipt.recvMonoNs ∧
        int16.Holds receipt.connId ∧ int32.Holds image.sid ∧ int64.HoldsAny image.seq ∧
        int64.Holds level.count := by
  simp [Stores, tables, snapshots, Segment.levelRow, hprice.holds, hreason, hside]

theorem stores_tradeRow {trade : Trade} (hprice : IsPrice trade.price) (receipt : Receipt) :
    Stores .trades (Segment.tradeRow trade receipt) ↔ TradeFits trade receipt := by
  simp [Stores, tables, trades, Segment.tradeRow, TradeFits, hprice.holds, holds_side]

theorem stores_snapshotRows {image : BookSnapshot} {receipt : Receipt} {reason : Int}
    (hreason : reason ∈ reasons) (hbids : ∀ level ∈ image.bids, IsPrice level.price)
    (hasks : ∀ level ∈ image.asks, IsPrice level.price) :
    (∀ row ∈ Segment.snapshotRows image receipt reason, Stores .snapshots row) ↔
      SnapshotFits image receipt := by
  have hlevel : ∀ (side : Int) (levels : List Level), int8.Holds side →
      (∀ level ∈ levels, IsPrice level.price) →
      ∀ level ∈ levels, (Stores .snapshots (Segment.levelRow image receipt reason side level) ↔
        int64.Holds receipt.recvWallNs ∧ int64.Holds receipt.recvMonoNs ∧
          int16.Holds receipt.connId ∧ int32.Holds image.sid ∧ int64.HoldsAny image.seq ∧
          int64.Holds level.count) :=
    fun side levels hside hprices level hin =>
      stores_levelRow (holds_reason hreason) hside (hprices level hin)
  rw [Segment.snapshotRows]
  split
  · next hempty =>
      -- the one row of an empty book has no count to fit
      obtain ⟨hnobid, hnoask⟩ := List.append_eq_nil_iff.mp hempty
      rw [List.map_eq_nil_iff] at hnobid hnoask
      rw [List.forall_mem_singleton, stores_levelRow (holds_reason hreason) (by decide)
        ⟨Int.le_refl 0, by decide⟩, SnapshotFits, hnobid, hnoask]
      have hzero : int64.Holds 0 := by decide
      simp [hzero]
  · next hsome =>
      rw [List.forall_mem_append, List.forall_mem_map, List.forall_mem_map,
        forall₂_congr (hlevel 0 _ (by decide) hbids), forall₂_congr (hlevel 1 _ (by decide) hasks),
        SnapshotFits, List.forall_mem_append]
      constructor
      · rintro ⟨hb, ha⟩
        have hone : ∃ level, level ∈ image.bids ∨ level ∈ image.asks := by
          by_contra hnone
          push Not at hnone
          refine hsome (List.append_eq_nil_iff.mpr ⟨?_, ?_⟩)
          · exact List.map_eq_nil_iff.mpr (List.eq_nil_iff_forall_not_mem.mpr fun l => (hnone l).1)
          · exact List.map_eq_nil_iff.mpr (List.eq_nil_iff_forall_not_mem.mpr fun l => (hnone l).2)
        obtain ⟨level, hin⟩ := hone
        obtain ⟨hw, hm, hc, hs, hq, -⟩ := hin.elim (hb level) (ha level)
        exact ⟨hw, hm, hc, hs, hq, fun l hl => (hb l hl).2.2.2.2.2, fun l hl => (ha l hl).2.2.2.2.2⟩
      · rintro ⟨hw, hm, hc, hs, hq, hb, ha⟩
        exact ⟨fun l hl => ⟨hw, hm, hc, hs, hq, hb l hl⟩,
          fun l hl => ⟨hw, hm, hc, hs, hq, ha l hl⟩⟩

theorem stores_auditRow {audit : AuditPayload} {r : Record}
    {restLevels localLevels : Option String} :
    Stores .audits (Segment.auditRow audit r restLevels localLevels) ↔ AuditFits audit r := by
  simp [Stores, tables, audits, Segment.auditRow, AuditFits]

theorem stores_gapRow {gap : GapPayload} {r : Record} {value : Cell} :
    Stores .gaps (base (Segment.gapRow gap r) ++ [value]) ↔
      GapFits gap r ∧ (optional "resolved_recv_wall_ns" .int64).Takes value := by
  simp [Stores, tables, gaps, Segment.gapRow, base, GapFits, and_assoc]

/-- What a frame brings into its table is within the columns. -/
def FrameFits (d : Decoders) (useYesPrice : Bool) (env : Raw.Envelope) (receipt : Receipt) :
    Prop :=
  match env.type with
  | "orderbook_delta" =>
      ∀ delta ∈ (readDelta (decodeMsg env d.orderbookDelta) env.address receipt
        useYesPrice).toOption, DeltaFits delta receipt
  | "orderbook_snapshot" =>
      ∀ image ∈ (readSnapshot (decodeMsg env d.orderbookSnapshot) env.address receipt
        useYesPrice).toOption, SnapshotFits image receipt
  | "trade" =>
      ∀ trade ∈ (Segment.readTrade d env receipt).toOption, TradeFits trade receipt
  | "market_lifecycle_v2" =>
      ∀ msg ∈ (decodeMsg env d.marketLifecycleV2).toOption, ∀ sid ∈ env.sid,
        LifecycleFits (MarketLifecycleV2Msg.tsS msg) receipt sid env.seq
  | "event_lifecycle" =>
      (decodeMsg env d.eventLifecycle).toOption.isSome = true →
        ∀ sid ∈ env.sid, LifecycleFits none receipt sid env.seq
  | "event_fee_update" =>
      (decodeMsg env d.eventFeeUpdate).toOption.isSome = true →
        ∀ sid ∈ env.sid, LifecycleFits none receipt sid env.seq
  | _ => True

/-- What a record brings into the tables is within the columns. -/
def Fits (d : Decoders) (useYesPrice : Bool) (r : Record) : Prop :=
  match r.kind with
  | .frame => ∀ env ∈ (d.envelope r.payload).toOption, FrameFits d useYesPrice env (receiptOf r)
  | .gap => ∀ gap ∈ (d.gap r.payload).toOption, GapFits gap r
  | .audit => ∀ audit ∈ (d.audit r.payload).toOption, AuditFits audit r
  | _ => True

/-! ## The rows of a record -/

theorem mem_toOption {ε α : Type} {x : Except ε α} {a : α} : a ∈ x.toOption ↔ x = .ok a := by
  cases x with
  | error e => exact iff_of_false nofun nofun
  | ok b => exact ⟨fun h => congrArg Except.ok (Option.some.inj h),
      fun h => congrArg some (Except.ok.inj h)⟩

theorem stores_marketLifecycle {d : Decoders} {env : Raw.Envelope} {receipt : Receipt}
    (hsafe : ∀ e, Segment.readMarketLifecycle d env receipt = .error e → ¬ Uncaught e) :
    (∀ row ∈ (Segment.readMarketLifecycle d env receipt).toOption, Stores .lifecycle row) ↔
      ∀ msg ∈ (decodeMsg env d.marketLifecycleV2).toOption, ∀ sid ∈ env.sid,
        LifecycleFits (MarketLifecycleV2Msg.tsS msg) receipt sid env.seq := by
  rw [Segment.readMarketLifecycle] at hsafe ⊢
  cases hdecode : decodeMsg env d.marketLifecycleV2 with
  | error e => exact iff_of_true (by rintro _ ⟨⟩) (by rintro _ ⟨⟩)
  | ok msg =>
      rw [hdecode] at hsafe
      simp only [toLifecycle] at hsafe ⊢
      cases hsid : env.sid with
      | none => exact iff_of_true (by rintro _ ⟨⟩) (by rintro _ _ _ ⟨⟩)
      | some sid =>
          dsimp only
          cases hutf : utf8 env.msg with
          | none =>
              rw [hsid, hutf] at hsafe
              exact absurd (.inl rfl) (hsafe .unicode rfl)
          | some payload =>
              simp [Except.toOption, Stores, tables, lifecycle, LifecycleFits]

theorem stores_eventMessage {d : Decoders} {env : Raw.Envelope} {receipt : Receipt}
    (hsafe : ∀ e, Segment.readEventMessage d env receipt = .error e → ¬ Uncaught e) :
    (∀ row ∈ (Segment.readEventMessage d env receipt).toOption, Stores .lifecycle row) ↔
      ((decodeMsg env (if env.type = "event_lifecycle" then d.eventLifecycle
        else d.eventFeeUpdate)).toOption.isSome = true →
        ∀ sid ∈ env.sid, LifecycleFits none receipt sid env.seq) := by
  rw [Segment.readEventMessage] at hsafe ⊢
  cases hdecode : decodeMsg env (if env.type = "event_lifecycle" then d.eventLifecycle
      else d.eventFeeUpdate) with
  | error e => exact iff_of_true (by rintro _ ⟨⟩) nofun
  | ok msg =>
      rw [hdecode] at hsafe
      dsimp only at hsafe ⊢
      cases hsid : env.sid with
      | none => exact iff_of_true (by rintro _ ⟨⟩) fun _ => by rintro _ ⟨⟩
      | some sid =>
          dsimp only
          cases hutf : utf8 env.msg with
          | none =>
              rw [hsid, hutf] at hsafe
              exact absurd (.inl rfl) (hsafe .unicode rfl)
          | some payload =>
              have hnone : int64.HoldsAny none := nofun
              simp [Except.toOption, Stores, tables, lifecycle, LifecycleFits, hnone]

theorem forall_rows {α : Type} {table : TableName} {f : α → Row} {o : Option α} :
    (∀ e ∈ (o.map fun a => (table, f a)).toList, Stores e.1 e.2) ↔ ∀ a ∈ o, Stores table (f a) := by
  cases o with
  | none => simp
  | some a => simp

/-- The rows of a frame can be stored exactly if the frame fits. -/
theorem stores_frameRows {d : Decoders} {useYesPrice : Bool} {env : Raw.Envelope}
    {receipt : Receipt} {reason : Int} (hreason : reason ∈ reasons)
    (hsafe : ∀ e, env.type ∈ bakedFrameTypes → dataError d useYesPrice env receipt = some e →
      ¬ Uncaught e) :
    (∀ e ∈ frameRows d useYesPrice reason env receipt, Stores e.1 e.2) ↔
      FrameFits d useYesPrice env receipt := by
  rw [frameRows]
  split
  · next htype =>
      rw [FrameFits, htype, forall_rows]
      refine forall₂_congr fun delta hread => stores_deltaRow ?_ receipt
      exact isPrice_readDelta (mem_toOption.mp hread)
  · next htype =>
      rw [FrameFits, htype]
      cases hread : readSnapshot (decodeMsg env d.orderbookSnapshot) env.address receipt
          useYesPrice with
      | error e => exact iff_of_true (by rintro _ ⟨⟩) (by rintro _ ⟨⟩)
      | ok image =>
          obtain ⟨hbids, hasks⟩ := isPrice_readSnapshot hread
          have hrows := @stores_snapshotRows image receipt reason hreason hbids hasks
          simpa [Except.toOption] using hrows
  · next htype =>
      rw [FrameFits, htype, forall_rows]
      refine forall₂_congr fun trade hread => stores_tradeRow ?_ receipt
      have hok := mem_toOption.mp hread
      rw [Segment.readTrade] at hok
      split at hok
      · cases hok
      · split at hok
        · cases hok
        · next hto =>
            obtain rfl := Except.ok.inj hok
            exact isPrice_toTrade hto
  · next htype =>
      rw [FrameFits, htype, forall_rows]
      refine stores_marketLifecycle fun e he => hsafe e (by rw [htype]; decide) ?_
      rw [dataError, htype, he]
      rfl
  · next hdelta hsnapshot htrade hmarket =>
      split
      · next hbaked =>
          have herror : ∀ e, Segment.readEventMessage d env receipt = .error e → ¬ Uncaught e := by
            intro e he
            refine hsafe e hbaked ?_
            rw [dataError]
            split
            all_goals first
              | contradiction
              | rw [he]; rfl
          rw [forall_rows, stores_eventMessage herror]
          rcases Segment.mem_bakedFrameTypes hbaked hdelta hsnapshot htrade hmarket with
            htype | htype
          · rw [FrameFits, htype, if_pos rfl]
            exact Iff.rfl
          · rw [FrameFits, htype, if_neg (by decide)]
            exact Iff.rfl
      · next hout =>
          refine iff_of_true (by rintro _ ⟨⟩) ?_
          rw [FrameFits]
          split
          all_goals first
            | trivial
            | exact absurd (by rw [‹env.type = _›]; decide) hout

/-- The rows a record gives at once can be stored exactly if it fits, gaps
apart: their rows wait. -/
theorem stores_rowsGiven {d : Decoders} {useYesPrice : Bool} {r : Record} {reason : Int}
    (hreason : reason ∈ reasons) (hsafe : ¬ Escapes d useYesPrice r) (hgap : r.kind ≠ .gap) :
    (∀ e ∈ rowsGiven d useYesPrice reason r, Stores e.1 e.2) ↔ Fits d useYesPrice r := by
  rw [rowsGiven, Fits]
  rw [Escapes] at hsafe
  cases hk : r.kind with
  | frame =>
      rw [hk] at hsafe
      dsimp only at hsafe ⊢
      cases henv : d.envelope r.payload with
      | error e => exact iff_of_true (by rintro _ ⟨⟩) (by rintro _ ⟨⟩)
      | ok env =>
          have hrows := @stores_frameRows d useYesPrice env (receiptOf r) reason hreason
            fun e hbaked he huncaught => hsafe ⟨env, e, henv, hbaked, he, huncaught⟩
          refine hrows.trans ⟨fun h env' hmem => ?_, fun h => h env rfl⟩
          rw [← Option.some.inj hmem]
          exact h
  | audit =>
      rw [hk] at hsafe
      dsimp only at hsafe ⊢
      cases haudit : d.audit r.payload with
      | error e => exact iff_of_true (by rintro _ ⟨⟩) (by rintro _ ⟨⟩)
      | ok audit =>
          dsimp only
          have hutf : ¬ (utf8 audit.restLevels = none ∨ utf8 audit.localLevels = none) :=
            fun h => hsafe ⟨audit, haudit, h⟩
          rw [← Segment.rawText_error_iff, ← Segment.rawText_error_iff] at hutf
          cases hrest : Segment.rawText audit.restLevels with
          | error e => exact absurd (.inl ⟨e, hrest⟩) hutf
          | ok restLevels =>
              cases hlocal : Segment.rawText audit.localLevels with
              | error e => exact absurd (.inr ⟨e, hlocal⟩) hutf
              | ok localLevels =>
                  rw [List.forall_mem_singleton]
                  refine stores_auditRow.trans ⟨fun h audit' hmem => ?_, fun h => h audit rfl⟩
                  rw [← Option.some.inj hmem]
                  exact h
  | gap => exact absurd hk hgap
  | _ => exact iff_of_true (by simp) trivial

theorem rowsGiven_gap {d : Decoders} {useYesPrice : Bool} {r : Record} {reason : Int}
    (hk : r.kind = .gap) : rowsGiven d useYesPrice reason r = [] := by
  rw [rowsGiven, hk]

theorem snapshotOf_eq_some {d : Decoders} {useYesPrice : Bool} {r : Record} {image : BookSnapshot}
    (h : snapshotOf d useYesPrice r = some image) :
    ∃ env, r.kind = .frame ∧ d.envelope r.payload = .ok env ∧ env.type = "orderbook_snapshot" ∧
      readSnapshot (decodeMsg env d.orderbookSnapshot) env.address (receiptOf r) useYesPrice =
        .ok image := by
  rw [snapshotOf] at h
  split at h
  · next hk =>
      split at h
      · cases h
      · next env henv =>
          split at h
          · next htype => exact ⟨env, hk, henv, htype, mem_toOption.mp h⟩
          · cases h
  · cases h

/-- An image that fits has a receipt that does. -/
theorem fits_snapshotOf {d : Decoders} {useYesPrice : Bool} {r : Record}
    (hsome : (snapshotOf d useYesPrice r).isSome) (hfits : Fits d useYesPrice r) :
    int64.Holds r.recvWallNs := by
  obtain ⟨image, himage⟩ := Option.isSome_iff_exists.mp hsome
  obtain ⟨env, hk, henv, htype, hread⟩ := snapshotOf_eq_some himage
  rw [Fits, hk] at hfits
  have hframe := hfits env (mem_toOption.mpr henv)
  rw [FrameFits, htype] at hframe
  exact (hframe image (mem_toOption.mpr hread)).1

/-! ## The rows of an hour -/

/-- A gap row ends with nothing, or with the receipt of an image that was
fed. -/
def Closed (d : Decoders) (input : List (SegmentHeader × Record)) (row : Row) : Prop :=
  row = base row ++ [.null] ∨ ∃ x ∈ input, (snapshotOf d x.1.useYesPrice x.2).isSome ∧
    row = base row ++ [.int x.2.recvWallNs]

theorem Closed.more {d : Decoders} {input : List (SegmentHeader × Record)} {row : Row}
    (h : Closed d input row) (x : SegmentHeader × Record) : Closed d (input ++ [x]) row := by
  rcases h with h | ⟨y, hy, h⟩
  · exact .inl h
  · exact .inr ⟨y, List.mem_append_left _ hy, h⟩

/-- The rows given so far can be stored exactly if what was fed fits, the gaps
apart; and gaps are closed. -/
structure Stowed (d : Decoders) (rows : List (TableName × Row))
    (input : List (SegmentHeader × Record)) : Prop where
  given : (∀ e ∈ rows, e.1 ≠ .gaps → Stores e.1 e.2) ↔
    ∀ x ∈ input, x.2.kind ≠ .gap → Fits d x.1.useYesPrice x.2
  closed : ∀ row, (TableName.gaps, row) ∈ rows → Closed d input row

namespace Segment

variable {d : Decoders} {s s' : Segment} {r : Record} {header : SegmentHeader}
variable {input : List (SegmentHeader × Record)}

/-- One record more. -/
theorem stowed_fed {outcome : Outcome} {more : List (TableName × Row)}
    (hs : Stowed d s.hour.rows input) (ho : Open s)
    (ha : Accounts d (s.arrive d r) s' r outcome more)
    (hprice : s.useYesPrice = header.useYesPrice) (hsafe : ¬ Escapes d header.useYesPrice r) :
    Stowed d s'.hour.rows (input ++ [(header, r)]) ∧ Open s' := by
  obtain ⟨hrows, hpending, hyes, -⟩ := arrive_accounts d s r
  obtain ⟨hopen, hclosed⟩ := ha.closed (ho.of_same hpending)
  obtain ⟨reason, hreason, hgiven⟩ := ha.given
  rw [hyes, hprice] at hclosed hgiven
  rw [ha.entered.rows, hrows]
  have hmore : (∀ e ∈ more, e.1 ≠ .gaps → Stores e.1 e.2) ↔
      ∀ e ∈ rowsGiven d header.useYesPrice reason r, Stores e.1 e.2 := by
    rw [← hgiven]
    simp only [List.mem_filter, decide_eq_true_eq, and_imp]
  have hrecord : (∀ e ∈ more, e.1 ≠ .gaps → Stores e.1 e.2) ↔
      (r.kind ≠ .gap → Fits d header.useYesPrice r) := by
    rw [hmore]
    by_cases hk : r.kind = .gap
    · rw [rowsGiven_gap hk]
      exact iff_of_true nofun (absurd hk)
    · rw [stores_rowsGiven hreason hsafe hk]
      exact ⟨fun h _ => h, fun h => h hk⟩
  refine ⟨⟨?_, fun row hrow => ?_⟩, hopen⟩
  · rw [List.forall_mem_append, List.forall_mem_append, List.forall_mem_singleton, hs.given,
      hrecord]
  · rcases List.mem_append.mp hrow with hrow | hrow
    · exact (hs.closed row hrow).more _
    · rcases hclosed row hrow with h | ⟨himage, h⟩
      · exact .inl h
      · exact .inr ⟨(header, r), List.mem_append_right _ List.mem_cons_self, himage, h⟩

theorem stowed_feedAll {records : List Record} (hs : Stowed d s.hour.rows input) (ho : Open s)
    (hprice : s.useYesPrice = header.useYesPrice) (h : s.feedAll d records = .ok s') :
    Stowed d s'.hour.rows (input ++ records.map fun r => (header, r)) ∧ Open s' := by
  induction records generalizing s input with
  | nil =>
      obtain rfl := Except.ok.inj h
      rw [List.map_nil, List.append_nil]
      exact ⟨hs, ho⟩
  | cons r rest ih =>
      rw [Segment.feedAll] at h
      split at h
      · cases h
      · next s₁ hfeed =>
          obtain ⟨⟨outcome, more, ha⟩, hsame⟩ := feed_accounts hfeed
          have hsafe : ¬ Escapes d header.useYesPrice r := by
            rw [← hprice, ← feed_error_iff, hfeed]
            rintro ⟨e, he⟩
            cases he
          obtain ⟨hs₁, ho₁⟩ := stowed_fed hs ho ha hprice hsafe
          have hrest := ih hs₁ ho₁ (hsame.trans hprice) h
          rwa [List.append_assoc] at hrest

/-- The gaps that still wait are given as they are. -/
theorem stowed_finish (hs : Stowed d s.hour.rows input) (ho : Open s) :
    Stowed d s.finish.1.hour.rows input := by
  have hquiet := quiet_ended s
  have hrows : s.finish.1.hour.rows = s.hour.rows ++
      (s.pendingGaps.map PendingGap.row).map fun row => (TableName.gaps, row) := by
    rw [Segment.finish, ← hquiet.rows, ← hquiet.pending]
    simp only [emitAll_eq, onHour]
  rw [hrows]
  refine ⟨?_, fun row hrow => ?_⟩
  · rw [List.forall_mem_append, hs.given]
    refine and_iff_left ?_
    intro e he hout
    obtain ⟨row, -, rfl⟩ := List.mem_map.mp he
    exact absurd rfl hout
  · rcases List.mem_append.mp hrow with hrow | hrow
    · exact hs.closed row hrow
    · obtain ⟨row', hin, heq⟩ := List.mem_map.mp hrow
      obtain ⟨p, hp, rfl⟩ := List.mem_map.mp hin
      rw [← (Prod.mk.inj heq).2]
      exact .inl (ho p hp)

end Segment

namespace HourInterpreter

variable {d : Decoders} {h h' : HourInterpreter} {input : List (SegmentHeader × Record)}

theorem stowed_readSegment {name : String} {header : SegmentHeader} {source : RecordSource}
    {facts : SegmentFacts} (hs : Stowed d h.rows input)
    (hread : h.readSegment d name header source = .ok (h', facts)) :
    Stowed d h'.rows (input ++ source.records.map fun r => (header, r)) := by
  rw [HourInterpreter.readSegment] at hread
  split at hread
  · cases hread
  · next s hfeed =>
      obtain ⟨hall, hopen⟩ :=
        @Segment.stowed_feedAll d (Segment.new h name header) s header input source.records hs
          (by rintro _ ⟨⟩) rfl hfeed
      obtain ⟨rfl, -⟩ := Prod.mk.inj (Except.ok.inj hread)
      cases source.corruption with
      | none => exact Segment.stowed_finish hall hopen
      | some detail =>
          exact @Segment.stowed_finish d (s.onHour fun h => h.corruptSegment name detail s.records)
            _ hall hopen

theorem stowed_readAll {readings : List Reading} (hs : Stowed d h.rows input)
    (hread : h.readAll d readings = .ok h') : Stowed d h'.rows (input ++ fed readings) := by
  induction readings generalizing h input with
  | nil =>
      obtain rfl := Except.ok.inj hread
      rw [fed, List.append_nil]
      exact hs
  | cons reading rest ih =>
      rw [HourInterpreter.readAll] at hread
      split at hread
      · cases hread
      · next h₁ hfirst =>
          cases reading with
          | corrupt name detail index =>
              obtain rfl := Except.ok.inj hfirst
              exact @ih (h.corruptSegment name detail index) input hs hread
          | segment name header source =>
              rw [read] at hfirst
              split at hfirst
              · cases hfirst
              · next facts hsegment =>
                  obtain rfl := Except.ok.inj hfirst
                  have hrest := ih (stowed_readSegment hs hsegment) hread
                  rwa [List.append_assoc] at hrest

end HourInterpreter

theorem mem_rowsOf {table : TableName} {rows : List (TableName × Row)} {row : Row} :
    row ∈ rowsOf table rows ↔ (table, row) ∈ rows := by
  rw [rowsOf, List.mem_map]
  constructor
  · rintro ⟨⟨t, row'⟩, hin, rfl⟩
    obtain ⟨hin, ht⟩ := List.mem_filter.mp hin
    rwa [← of_decide_eq_true ht]
  · exact fun h => ⟨_, List.mem_filter.mpr ⟨h, decide_eq_true rfl⟩, rfl⟩

theorem mem_owed {d : Decoders} {input : List (SegmentHeader × Record)} {row : Row} :
    row ∈ owed d input ↔
      ∃ x ∈ input, ∃ gap, gapOf d x.2 = some gap ∧ row = base (Segment.gapRow gap x.2) := by
  rw [owed, List.mem_flatMap]
  refine exists_congr fun x => and_congr_right fun _ => ?_
  rw [owes, Option.mem_toList, Option.map_eq_some_iff]
  exact exists_congr fun gap => and_congr_right fun _ => eq_comm

/-- A gap fits as the record it is. -/
theorem fits_gap_iff {d : Decoders} {useYesPrice : Bool} {r : Record} (hk : r.kind = .gap) :
    Fits d useYesPrice r ↔ ∀ gap, gapOf d r = some gap → GapFits gap r := by
  rw [Fits, gapOf, hk]
  exact Iff.rfl

theorem kind_of_gapOf {d : Decoders} {r : Record} {gap : GapPayload}
    (h : gapOf d r = some gap) : r.kind = .gap := by
  by_contra hk
  rw [Segment.gapOf_of_kind hk] at h
  cases h

/-- The gap rows of an hour can be stored exactly if its gaps fit, once its
images do. -/
theorem stores_gaps {d : Decoders} {rows : List (TableName × Row)}
    {input : List (SegmentHeader × Record)} (hs : Stowed d rows input)
    (hgaps : ((rowsOf .gaps rows).map base).Perm (owed d input))
    (himages : ∀ x ∈ input, x.2.kind ≠ .gap → Fits d x.1.useYesPrice x.2) :
    (∀ row, (TableName.gaps, row) ∈ rows → Stores .gaps row) ↔
      ∀ x ∈ input, x.2.kind = .gap → Fits d x.1.useYesPrice x.2 := by
  constructor
  · intro h x hx hk
    rw [fits_gap_iff hk]
    intro gap hgap
    -- the gap owes a row, and the row is there with what closes it
    have howed : base (Segment.gapRow gap x.2) ∈ owed d input :=
      mem_owed.mpr ⟨x, hx, gap, hgap, rfl⟩
    obtain ⟨row, hrow, hbase⟩ := List.mem_map.mp (hgaps.mem_iff.mpr howed)
    have hin := mem_rowsOf.mp hrow
    have hstores := h row hin
    rcases hs.closed row hin with heq | ⟨_, -, -, heq⟩
    · rw [heq, hbase, stores_gapRow] at hstores
      exact hstores.1
    · rw [heq, hbase, stores_gapRow] at hstores
      exact hstores.1
  · intro h row hin
    have hbase : base row ∈ owed d input :=
      hgaps.mem_iff.mp (List.mem_map_of_mem (mem_rowsOf.mpr hin))
    obtain ⟨x, hx, gap, hgap, heq⟩ := mem_owed.mp hbase
    have hk := kind_of_gapOf hgap
    have hfits := (fits_gap_iff hk).mp (h x hx hk) gap hgap
    rcases hs.closed row hin with hclosed | ⟨y, hy, himage, hclosed⟩
    · rw [hclosed, heq, stores_gapRow]
      exact ⟨hfits, rfl⟩
    · rw [hclosed, heq, stores_gapRow]
      refine ⟨hfits, fits_snapshotOf himage (himages y hy fun hgap => ?_)⟩
      rw [Segment.snapshotOf_of_kind (by rw [hgap]; nofun)] at himage
      cases himage

/-- An hour has rows, and all of them can be stored, exactly if no record
escapes and every record fits. -/
theorem hour_stores_iff (d : Decoders) (start : Int) (readings : List Reading) :
    (∃ h, (HourInterpreter.new start).readAll d readings = .ok h ∧
      ∀ e ∈ h.rows, Stores e.1 e.2) ↔
      ∀ x ∈ fed readings, ¬ Escapes d x.1.useYesPrice x.2 ∧ Fits d x.1.useYesPrice x.2 := by
  have hlost := @HourInterpreter.readAll_error_iff d (.new start) readings
  cases hread : (HourInterpreter.new start).readAll d readings with
  | error e =>
      rw [hread] at hlost
      obtain ⟨x, hx, hescapes⟩ := hlost.mp ⟨e, rfl⟩
      exact iff_of_false (by rintro ⟨_, h, -⟩; cases h) fun h => (h x hx).1 hescapes
  | ok h =>
      rw [hread] at hlost
      have hsafe : ∀ x ∈ fed readings, ¬ Escapes d x.1.useYesPrice x.2 := fun x hx hescapes => by
        obtain ⟨_, he⟩ := hlost.mpr ⟨x, hx, hescapes⟩
        cases he
      have hb : h.InBalance d (fed readings) :=
        (HourInterpreter.inBalance_new d start).readAll hread
      have hempty : Stowed d (HourInterpreter.new start).rows [] :=
        ⟨iff_of_true nofun nofun, nofun⟩
      have hs : Stowed d h.rows (fed readings) := HourInterpreter.stowed_readAll hempty hread
      have hgaps : ((rowsOf .gaps h.rows).map base).Perm (owed d (fed readings)) := by
        have hperm := hb.gaps
        rwa [List.append_nil] at hperm
      have hall : (∀ e ∈ h.rows, Stores e.1 e.2) ↔
          (∀ e ∈ h.rows, e.1 ≠ .gaps → Stores e.1 e.2) ∧
            ∀ row, (TableName.gaps, row) ∈ h.rows → Stores .gaps row := by
        constructor
        · exact fun hrows => ⟨fun e he _ => hrows e he, fun row hin => hrows _ hin⟩
        · rintro ⟨hgiven, hgap⟩ ⟨table, row⟩ he
          by_cases htable : table = .gaps
          · subst htable
            exact hgap row he
          · exact hgiven _ he htable
      have hrows : (∀ e ∈ h.rows, Stores e.1 e.2) ↔
          ∀ x ∈ fed readings, Fits d x.1.useYesPrice x.2 := by
        rw [hall, hs.given]
        constructor
        · rintro ⟨himages, hgap⟩ x hx
          by_cases hk : x.2.kind = .gap
          · exact (stores_gaps hs hgaps himages).mp hgap x hx hk
          · exact himages x hx hk
        · intro hfits
          have himages : ∀ x ∈ fed readings, x.2.kind ≠ .gap → Fits d x.1.useYesPrice x.2 :=
            fun x hx _ => hfits x hx
          exact ⟨himages, (stores_gaps hs hgaps himages).mpr fun x hx _ => hfits x hx⟩
      constructor
      · rintro ⟨h', hok, hstores⟩ x hx
        obtain rfl := Except.ok.inj hok
        exact ⟨hsafe x hx, hrows.mp hstores x hx⟩
      · exact fun hfits => ⟨h, rfl, hrows.mpr fun x hx => (hfits x hx).2⟩

/-! ## Keyframes -/

/-- `KEYFRAME_SCHEMA`. -/
def keyframeSchema : List Column :=
  [required "ticker" .string, required "side" .int8, required "price_e4" .int32,
    required "count_e2" .int64, required "as_of_recv_ns" .int64, optional "last_ts_ms" .int64,
    required "stale" .bool]

/-- The row as `write_keyframe` lays it out. -/
def keyframeCells (row : KeyframeRow) : Row :=
  [.text row.ticker, .int row.side, .int row.priceE4, .int row.countE2, .int row.asOfRecvNs,
    .int? row.lastTsMs, .bool row.stale]

/-- Every column of a keyframe row takes its cell. -/
def StoresKeyframe (row : KeyframeRow) : Prop :=
  List.Forall₂ Column.Takes keyframeSchema (keyframeCells row)

instance (row : KeyframeRow) : Decidable (StoresKeyframe row) :=
  inferInstanceAs (Decidable (List.Forall₂ _ _ _))

/-- Every level is at a price. -/
def Priced (b : Book) : Prop := ∀ s p c, (b.side s).get? p = some c → IsPrice p

theorem priced_writeLevel {b : Book} {s : Side} {p u : Int} (h : Priced b) (hp : IsPrice p) :
    Priced (b.writeLevel s p u) := by
  intro s' p' c hget
  rw [Book.writeLevel_get?] at hget
  split at hget
  · next heq => exact heq.2 ▸ hp
  · exact h s' p' c hget

theorem priced_applySnapshot {b : Book} {bids asks : List Level} {ts : Option Int}
    (h : Priced b) (hbids : ∀ level ∈ bids, IsPrice level.price)
    (hasks : ∀ level ∈ asks, IsPrice level.price) : Priced (b.applySnapshot bids asks ts).1 := by
  rcases Book.applySnapshot_cases b bids asks ts with
    ⟨b', heq, -, -, -, -, hb, ha, -, -⟩ | ⟨e, heq⟩
  · rw [heq]
    intro s p c hget
    have hmem := Dict.get?_eq_some_iff.mp hget
    cases s with
    | bid =>
        have hmem : (p, c) ∈ b'.bids.entries := hmem
        rw [hb] at hmem
        obtain ⟨level, hin, hentry⟩ := List.mem_map.mp hmem
        have hprice := hbids level hin
        rwa [show level.price = p from congrArg Prod.fst hentry] at hprice
    | ask =>
        have hmem : (p, c) ∈ b'.asks.entries := hmem
        rw [ha] at hmem
        obtain ⟨level, hin, hentry⟩ := List.mem_map.mp hmem
        have hprice := hasks level hin
        rwa [show level.price = p from congrArg Prod.fst hentry] at hprice
  · rw [heq]
    exact h

theorem priced_applyDelta {b : Book} {s : Side} {p delta : Int} {ts : Option Int}
    (h : Priced b) (hp : IsPrice p) : Priced (b.applyDelta s p delta ts).1 := by
  have hwritten := priced_writeLevel (u := b.depth s p + delta) (s := s) h hp
  rcases Book.applyDelta_cases b s p delta ts with
    ⟨-, heq⟩ | ⟨-, -, e, heq⟩ | ⟨-, -, ⟨e, heq⟩, -⟩ | ⟨-, -, heq, -⟩
  · rw [heq]
    exact h
  · rw [heq]
    exact h
  · rw [heq]
    exact hwritten
  · rw [heq]
    cases ts with
    | none => exact hwritten
    | some ts => exact hwritten

/-- Only prices come from frames. -/
theorem priced_fromFrames {useYesPrice : Bool} {b : Book} (hb : b.FromFrames useYesPrice) :
    Priced b := by
  induction hb with
  | new ticker => exact fun s p c hget => by cases s <;> cases hget
  | snapshot hb hread ih =>
      obtain ⟨hbids, hasks⟩ := isPrice_readSnapshot hread
      exact priced_applySnapshot ih hbids hasks
  | delta hb hread ih => exact priced_applyDelta ih (isPrice_readDelta hread)
  | stale hb ih => exact ih

/-- The counts of a book and its times are within the columns. -/
def BookFits (b : Book) (asOfRecvNs : Int) : Prop :=
  int64.Holds asOfRecvNs ∧ int64.HoldsAny b.lastTsMs ∧
    ∀ s p c, (b.side s).get? p = some c → int64.Holds c

theorem stores_keyframeRow {b : Book} {asOfRecvNs side price count : Int}
    (hside : int8.Holds side) (hprice : IsPrice price) :
    StoresKeyframe (b.keyframeRow asOfRecvNs side price count) ↔
      int64.Holds asOfRecvNs ∧ int64.HoldsAny b.lastTsMs ∧ int64.Holds count := by
  simp only [StoresKeyframe, keyframeSchema, keyframeCells, Book.keyframeRow,
    List.forall₂_cons, takes_required_text, takes_required_int, takes_optional_int?,
    takes_required_bool, hside, hprice.holds, List.forall₂_nil_left_iff, and_true, true_and]
  exact and_rotate

/-- The keyframe of a book can be written exactly if the book fits. -/
theorem keyframe_stores_iff {useYesPrice : Bool} {b : Book} (hb : b.FromFrames useYesPrice)
    (asOfRecvNs : Int) :
    (∀ row ∈ b.toKeyframe asOfRecvNs, StoresKeyframe row) ↔ BookFits b asOfRecvNs := by
  have hside : ∀ s : Side, (∀ row ∈ b.sideRows asOfRecvNs s, StoresKeyframe row) ↔
      ∀ p c, (b.side s).get? p = some c →
        int64.Holds asOfRecvNs ∧ int64.HoldsAny b.lastTsMs ∧ int64.Holds c := by
    intro s
    rw [Book.sideRows, List.forall_mem_map]
    constructor
    · intro h p c hget
      have hrow := h (p, c) (Dict.get?_eq_some_iff.mp hget)
      rwa [stores_keyframeRow (holds_side s) (priced_fromFrames hb s p c hget)] at hrow
    · intro h e he
      have hget : (b.side s).get? e.1 = some e.2 := Dict.get?_eq_some_iff.mpr he
      rw [stores_keyframeRow (holds_side s) (priced_fromFrames hb s e.1 e.2 hget)]
      exact h e.1 e.2 hget
  have hrows : (∀ row ∈ b.sideRows asOfRecvNs .bid ++ b.sideRows asOfRecvNs .ask,
      StoresKeyframe row) ↔ ∀ s p c, (b.side s).get? p = some c →
        int64.Holds asOfRecvNs ∧ int64.HoldsAny b.lastTsMs ∧ int64.Holds c := by
    rw [List.forall_mem_append, hside, hside]
    constructor
    · rintro ⟨hbid, hask⟩ s
      cases s with
      | bid => exact hbid
      | ask => exact hask
    · exact fun h => ⟨h .bid, h .ask⟩
  rw [Book.toKeyframe]
  split
  · next hempty =>
      -- a book without levels has one row, of count zero
      have hnone : ∀ s p c, (b.side s).get? p ≠ some c := by
        intro s p c hget
        have hnil := List.append_eq_nil_iff.mp (List.isEmpty_iff.mp hempty)
        have hmem : (p, c) ∈ (b.side s).entries := Dict.get?_eq_some_iff.mp hget
        have hentries : (b.side s).entries = [] := by
          cases s with
          | bid => exact List.map_eq_nil_iff.mp hnil.1
          | ask => exact List.map_eq_nil_iff.mp hnil.2
        rw [hentries] at hmem
        cases hmem
      have hzero : int64.Holds 0 := by decide
      rw [List.forall_mem_singleton, stores_keyframeRow (by decide) ⟨le_refl 0, by decide⟩]
      constructor
      · rintro ⟨hasOf, hts, -⟩
        exact ⟨hasOf, hts, fun s p c hget => absurd hget (hnone s p c)⟩
      · rintro ⟨hasOf, hts, -⟩
        exact ⟨hasOf, hts, hzero⟩
  · next hsome =>
      rw [hrows]
      constructor
      · intro h
        have hone : ∃ s p c, (b.side s).get? p = some c := by
          by_contra hnone
          push Not at hnone
          refine hsome (List.isEmpty_iff.mpr (List.append_eq_nil_iff.mpr ⟨?_, ?_⟩))
          · refine List.map_eq_nil_iff.mpr (List.eq_nil_iff_forall_not_mem.mpr fun e he => ?_)
            exact hnone .bid e.1 e.2 (Dict.get?_eq_some_iff.mpr he)
          · refine List.map_eq_nil_iff.mpr (List.eq_nil_iff_forall_not_mem.mpr fun e he => ?_)
            exact hnone .ask e.1 e.2 (Dict.get?_eq_some_iff.mpr he)
        obtain ⟨s, p, c, hget⟩ := hone
        obtain ⟨hasOf, hts, -⟩ := h s p c hget
        exact ⟨hasOf, hts, fun s p c hget => (h s p c hget).2.2⟩
      · rintro ⟨hasOf, hts, hcounts⟩ s p c hget
        exact ⟨hasOf, hts, hcounts s p c hget⟩

/-- The keyframe of a book of a connection, after any run of it. -/
theorem connection_keyframe_stores_iff (config : SupervisorConfig) (es : List ConnEvent)
    {t : Ticker} {b : Book}
    (hget : (Run.final Conn.step (Conn.new config) es).sup.books.get? t = some b)
    (asOfRecvNs : Int) :
    (∀ row ∈ b.toKeyframe asOfRecvNs, StoresKeyframe row) ↔ BookFits b asOfRecvNs :=
  keyframe_stores_iff (Conn.built_run config es t b hget) asOfRecvNs

/-- Whatever is recorded can be stored exactly if no record escapes and every
record fits, and a keyframe of a book exactly if the book fits. -/
theorem storable_iff (d : Decoders) (start : Int) (readings : List Reading) {useYesPrice : Bool}
    {b : Book} (hb : b.FromFrames useYesPrice) (asOfRecvNs : Int) :
    ((∃ h, (HourInterpreter.new start).readAll d readings = .ok h ∧
        ∀ e ∈ h.rows, Stores e.1 e.2) ↔
      ∀ x ∈ fed readings, ¬ Escapes d x.1.useYesPrice x.2 ∧ Fits d x.1.useYesPrice x.2) ∧
    ((∀ row ∈ b.toKeyframe asOfRecvNs, StoresKeyframe row) ↔ BookFits b asOfRecvNs) :=
  ⟨hour_stores_iff d start readings, keyframe_stores_iff hb asOfRecvNs⟩

/-- An image of one level, of the count given. -/
def levelMsg (count : String) : OrderbookSnapshotMsg :=
  { marketTicker := "KXA", yesDollarsFp := some [("0.5000", count)], noDollarsFp := none }

/-- The book of that image. -/
def levelBook (count : Int) : Book :=
  ((Book.new "KXA").applySnapshot [⟨5000, count⟩] [] none).1

theorem levelBook_fromFrames {text : String} {count : Int} (hcount : parseCount text = .ok count)
    (hsome : count ≠ 0) : (levelBook count).FromFrames true := by
  have hprice : parsePrice "0.5000" = .ok 5000 := by decide +kernel
  have hread : readSnapshot (.ok (levelMsg text)) ⟨some 1, some 1, none, .uninterpreted ""⟩
      ⟨0, 0, 0⟩ true = .ok ⟨"KXA", none, ⟨0, 0, 0⟩, 1, some 1, [⟨5000, count⟩], []⟩ := by
    simp [readSnapshot, toBookSnapshot, levelMsg, wireLevels, hprice, hcount, hsome]
  exact .snapshot (.new "KXA") hread

/-- A trade of one contract fits, and a book that has one: both can be stored. -/
theorem storable_narrow :
    (∀ x ∈ fed [.segment "conn-00" longHeader ⟨[⟨.frame, 0, 0, 0, [1]⟩], none⟩],
      ¬ Escapes (tradeDecoders [1] [2] "1.00") x.1.useYesPrice x.2 ∧
        Fits (tradeDecoders [1] [2] "1.00") x.1.useYesPrice x.2) ∧
    BookFits (levelBook 100) 0 := by
  have hrun : (match (HourInterpreter.new 0).readAll (tradeDecoders [1] [2] "1.00")
        [.segment "conn-00" longHeader ⟨[⟨.frame, 0, 0, 0, [1]⟩], none⟩] with
      | .ok h => decide (∀ e ∈ h.rows, Stores e.1 e.2)
      | .error _ => false) = true := by decide +kernel
  have hcount : parseCount "1.00" = .ok 100 := by decide +kernel
  obtain ⟨hhour, hkeyframe⟩ := storable_iff (tradeDecoders [1] [2] "1.00") 0
    [.segment "conn-00" longHeader ⟨[⟨.frame, 0, 0, 0, [1]⟩], none⟩]
    (levelBook_fromFrames hcount (by decide)) 0
  refine ⟨hhour.mp ?_, hkeyframe.mp (by decide)⟩
  cases hread : (HourInterpreter.new 0).readAll (tradeDecoders [1] [2] "1.00")
      [.segment "conn-00" longHeader ⟨[⟨.frame, 0, 0, 0, [1]⟩], none⟩] with
  | error e =>
      rw [hread] at hrun
      cases hrun
  | ok h =>
      rw [hread] at hrun
      exact ⟨h, rfl, of_decide_eq_true hrun⟩

/-- A trade of 2 ^ 63 hundredths, one more than its column holds. -/
def wideMsg : String :=
  "\x7b\"trade_id\":\"a\",\"market_ticker\":\"KXA\",\"yes_price_dollars\":\"0.5000\"," ++
    "\"no_price_dollars\":\"0.5000\",\"count_fp\":\"92233720368547758.08\"," ++
    "\"taker_book_side\":\"bid\",\"ts_ms\":1\x7d"

/-- The text of a trade frame. -/
def wideFrame : String :=
  "\x7b\"type\":\"trade\",\"sid\":1,\"seq\":1,\"msg\":" ++ wideMsg ++ "\x7d"

/-- Decoders that read its message as a trade of one contract more than a column
takes. -/
def wideDecoders : Decoders :=
  tradeDecoders wideFrame.toUTF8.toList wideMsg.toUTF8.toList "92233720368547758.08"

/-- A segment of that frame alone. -/
def wideReadings : List Reading :=
  [.segment "conn-00" longHeader ⟨[⟨.frame, 0, 0, 0, wideFrame.toUTF8.toList⟩], none⟩]

/-- The trade is a row and not a failure, and its row cannot be stored; nor can
the row of a level of that count. -/
theorem wide_count_not_stored :
    (∃ h, (HourInterpreter.new 0).readAll wideDecoders wideReadings = .ok h ∧
      h.counters.decodeFailures.total = 0 ∧ ¬ ∀ e ∈ h.rows, Stores e.1 e.2) ∧
    (levelBook (2 ^ 63)).FromFrames true ∧
    ¬ ∀ row ∈ (levelBook (2 ^ 63)).toKeyframe 0, StoresKeyframe row := by
  have hrun : (match (HourInterpreter.new 0).readAll wideDecoders wideReadings with
      | .ok h => decide (h.counters.decodeFailures.total = 0 ∧ ¬ ∀ e ∈ h.rows, Stores e.1 e.2)
      | .error _ => false) = true := by decide +kernel
  have hcount : parseCount "92233720368547758.08" = .ok (2 ^ 63) := by decide +kernel
  refine ⟨?_, levelBook_fromFrames hcount (by decide), by decide⟩
  cases hread : (HourInterpreter.new 0).readAll wideDecoders wideReadings with
  | error e =>
      rw [hread] at hrun
      cases hrun
  | ok h =>
      rw [hread] at hrun
      exact ⟨h, rfl, of_decide_eq_true hrun⟩

end Tape.Bake
