import Tape.Page.Decoded

/-!
# The page reads the REST bodies

A body is read as it was written if it is in range and refused otherwise, but
for the list of markets: a row that is out of range is left out of it and
counted, whatever it is, and the others are read.
-/

namespace Tape.Page.Decode

open Api.Contract
open Json (bind_eq_ok_iff map_eq_ok_iff)

/-! ## Values in range -/

/-- A row the page accepts. -/
structure MarketRow.InRange (r : MarketRow) : Prop where
  named : r.ticker ≠ ""
  volume : IsCount r.volume24hE2
  closes : ∀ ts ∈ r.closeTs, IsCount ts
  bid : ∀ p ∈ r.bidE4, IsPrice p
  ask : ∀ p ∈ r.askE4, IsPrice p
  last : ∀ p ∈ r.lastE4, IsPrice p

instance (r : MarketRow) : Decidable (MarketRow.InRange r) :=
  decidable_of_iff (r.ticker ≠ "" ∧ IsCount r.volume24hE2 ∧ (∀ ts ∈ r.closeTs, IsCount ts) ∧
      (∀ p ∈ r.bidE4, IsPrice p) ∧ (∀ p ∈ r.askE4, IsPrice p) ∧ ∀ p ∈ r.lastE4, IsPrice p)
    ⟨fun h => ⟨h.1, h.2.1, h.2.2.1, h.2.2.2.1, h.2.2.2.2.1, h.2.2.2.2.2⟩,
      fun h => ⟨h.named, h.volume, h.closes, h.bid, h.ask, h.last⟩⟩

/-- A price range the page accepts. -/
def PriceRange.InRange (r : PriceRange) : Prop :=
  IsPrice r.startE4 ∧ IsPrice r.endE4 ∧ 1 ≤ r.stepE4 ∧ r.stepE4 ≤ maxPriceE4 ∧
    r.startE4 < r.endE4

/-- Ladders the page accepts. -/
def Depth.InRange (d : Api.Contract.Depth) : Prop :=
  (∀ ms ∈ d.tsMs, IsCount ms) ∧ Ladder .bid d.bids ∧ Ladder .ask d.asks

/-- A detail the page accepts. -/
def MarketDetail.InRange (m : MarketDetail) : Prop :=
  MarketRow.InRange m.toMarketRow ∧
    (∀ ranges ∈ m.priceRanges, ∀ r ∈ ranges, PriceRange.InRange r) ∧
    ∀ d ∈ m.depth, Depth.InRange d

/-- A connection's report the page accepts. -/
def ConnectionHealth.InRange (c : ConnectionHealth) : Prop :=
  IsCount c.connId ∧ IsCount c.frames ∧ IsCount c.gaps ∧ IsCount c.reconnects ∧
    IsCount c.staleBooks ∧ IsCount c.sinkDropped

/-- A recorder's report the page accepts. -/
def RecorderHealth.InRange (r : RecorderHealth) : Prop :=
  IsCount r.universeSize ∧ IsCount r.subscribedMarkets ∧
    ∀ c ∈ r.connections, ConnectionHealth.InRange c

/-- Counts of the bus the page accepts. -/
def BusHealth.InRange (b : BusHealth) : Prop :=
  (∀ epoch ∈ b.epoch, isDecimal epoch = true) ∧ (∀ seq ∈ b.lastSeq, IsCount seq) ∧
    IsCount b.messages ∧ IsCount b.resets ∧ IsCount b.missed ∧ IsCount b.booksKnown

/-- A status the page accepts. -/
def ServiceStatus.InRange (s : ServiceStatus) : Prop :=
  (∀ age ∈ s.recorderStatusAgeMs, IsCount age) ∧ (∀ r ∈ s.recorder, RecorderHealth.InRange r) ∧
    BusHealth.InRange s.bus ∧ IsCount s.clients

/-! ## Reading what was written -/

variable {fields : Fields} {key path : String}

theorem record_bind {α : Type} (f : Fields → Decoded α) :
    record (some (.object fields)) path >>= f = f fields := rfl

theorem flag_bool {b b' : Bool} (h : Json.field fields key = some (.bool b)) :
    flag fields key path = .ok b' ↔ b' = b := by
  rw [flag_eq_ok_iff, h]
  simp [eq_comm]

theorem string_ne_null (s : String) : Json.string s ≠ .null := nofun

theorem nullableText_encoded {o out : Option String}
    (h : Json.field fields key = some (Api.Contract.nullable .string o)) :
    nullableText fields key path = .ok out ↔ out = o := by
  have hread : nullableText fields key path = .ok out ↔ out = o ∧ ∀ s ∈ o, True :=
    nullable_encoded string_ne_null h fun _ _ hvalue =>
      (text_string hvalue).trans (and_iff_left trivial).symm
  exact hread.trans (and_iff_left fun _ _ => trivial)

theorem decimalText_string {s out : String} (h : Json.field fields key = some (.string s)) :
    decimalText fields key path = .ok out ↔ out = s ∧ isDecimal s = true := by
  unfold decimalText
  simp only [bind_eq_ok_iff, text_string h]
  constructor
  · rintro ⟨_, rfl, hout⟩
    split at hout
    · next hdecimal => exact ⟨(Except.ok.inj hout).symm, hdecimal⟩
    · cases hout
  · rintro ⟨rfl, hdecimal⟩
    exact ⟨out, rfl, by rw [if_pos hdecimal]; rfl⟩

theorem nullableDecimalText_encoded {o out : Option String}
    (h : Json.field fields key = some (Api.Contract.nullable .string o)) :
    nullableDecimalText fields key path = .ok out ↔
      out = o ∧ ∀ s ∈ o, isDecimal s = true :=
  nullable_encoded string_ne_null h fun _ _ hvalue => decimalText_string hvalue

theorem nullableDecimalText_good {o : Option String}
    (h : nullableDecimalText fields key path = .ok o) : ∀ s ∈ o, isDecimal s = true :=
  nullable_good h fun s hs => by
    unfold decimalText at hs
    obtain ⟨s', -, hs'⟩ := bind_eq_ok_iff.mp hs
    split at hs'
    · next hdecimal =>
        obtain rfl := Except.ok.inj hs'
        exact hdecimal
    · cases hs'

/-! ## Rows -/

/-- The fields of a row, among which others may stand. -/
def Carries (fields : Fields) (r : MarketRow) : Prop :=
  ∀ key value, Json.field r.fields key = some value → Json.field fields key = some value

theorem marketRowFields_carried {r out : MarketRow} (h : Carries fields r) :
    marketRowFields fields path = .ok out ↔ out = r ∧ MarketRow.InRange r := by
  have hticker := h "ticker" _ (by simp [MarketRow.fields]; rfl)
  have hevent := h "event_ticker" _ (by simp [MarketRow.fields]; rfl)
  have hseries := h "series_ticker" _ (by simp [MarketRow.fields]; rfl)
  have htitle := h "title" _ (by simp [MarketRow.fields]; rfl)
  have hsubtitle := h "subtitle" _ (by simp [MarketRow.fields]; rfl)
  have hcategory := h "category" _ (by simp [MarketRow.fields]; rfl)
  have hshowcase := h "showcase" _ (by simp [MarketRow.fields]; rfl)
  have hvolume := h "volume_24h_e2" _ (by simp [MarketRow.fields]; rfl)
  have hcloseTs := h "close_ts" _ (by simp [MarketRow.fields]; rfl)
  have hbid := h "bid_e4" _ (by simp [MarketRow.fields]; rfl)
  have hask := h "ask_e4" _ (by simp [MarketRow.fields]; rfl)
  have hlast := h "last_e4" _ (by simp [MarketRow.fields]; rfl)
  have hbook := h "book" _ (by simp [MarketRow.fields]; rfl)
  unfold marketRowFields
  simp only [bind_eq_ok_iff, nonEmptyText_string hticker, text_string hevent,
    text_string hseries, nullableText_encoded htitle, nullableText_encoded hsubtitle,
    nullableText_encoded hcategory, flag_bool hshowcase, count_int hvolume,
    nullableInteger_encoded hcloseTs, nullablePrice_encoded hbid, nullablePrice_encoded hask,
    nullablePrice_encoded hlast, oneOf_encoded hbook (find_bookStates r.book)]
  constructor
  · rintro ⟨_, ⟨rfl, h₁⟩, _, rfl, _, rfl, _, rfl, _, rfl, _, rfl, _, rfl, _, ⟨rfl, h₂⟩, _,
      ⟨rfl, h₃⟩, _, ⟨rfl, h₄⟩, _, ⟨rfl, h₅⟩, _, ⟨rfl, h₆⟩, _, rfl, hout⟩
    exact ⟨(Except.ok.inj hout).symm, h₁, h₂, h₃, h₄, h₅, h₆⟩
  · rintro ⟨rfl, h₁, h₂, h₃, h₄, h₅, h₆⟩
    exact ⟨_, ⟨rfl, h₁⟩, _, rfl, _, rfl, _, rfl, _, rfl, _, rfl, _, rfl, _, ⟨rfl, h₂⟩, _,
      ⟨rfl, h₃⟩, _, ⟨rfl, h₄⟩, _, ⟨rfl, h₅⟩, _, ⟨rfl, h₆⟩, _, rfl, rfl⟩

theorem marketRowFields_good {r : MarketRow} (h : marketRowFields fields path = .ok r) :
    MarketRow.InRange r := by
  unfold marketRowFields at h
  simp only [bind_eq_ok_iff] at h
  obtain ⟨ticker, h₁, eventTicker, -, seriesTicker, -, title, -, subtitle, -, category, -,
    showcase, -, volume, h₂, closeTs, h₃, bid, h₄, ask, h₅, last, h₆, book, -, hout⟩ := h
  obtain rfl := Except.ok.inj hout
  exact ⟨(nonEmptyText_eq_ok_iff.mp h₁).2, integer_good h₂, nullableInteger_good h₃,
    nullablePrice_good h₄, nullablePrice_good h₅, nullablePrice_good h₆⟩

theorem exact_marketRow (i : Nat) :
    Json.Exact (fun r => Json.object (MarketRow.fields r)) (marketRow i) MarketRow.InRange where
  encoded r out := by
    unfold marketRow
    rw [bind_eq_ok_iff]
    constructor
    · rintro ⟨fields, hfields, hread⟩
      obtain rfl := Json.object.inj (Option.some.inj (record_eq_ok_iff.mp hfields))
      exact (marketRowFields_carried fun _ _ h => h).mp hread
    · intro h
      exact ⟨r.fields, rfl, (marketRowFields_carried fun _ _ h => h).mpr h⟩
  good json r h := by
    unfold marketRow at h
    obtain ⟨fields, -, hread⟩ := bind_eq_ok_iff.mp h
    exact marketRowFields_good hread

/-- The rows in range are read, in their order, and no other. -/
theorem marketRows_encoded (i : Nat) (rows : List MarketRow) :
    marketRows i (rows.map fun r => .object (MarketRow.fields r)) =
      rows.filter fun r => decide (MarketRow.InRange r) := by
  induction rows generalizing i with
  | nil => rfl
  | cons r rest ih =>
      rw [List.map_cons, marketRows, List.filter_cons]
      by_cases hrange : MarketRow.InRange r
      · rw [((exact_marketRow i).accepts_iff r).mpr hrange, if_pos (decide_eq_true hrange)]
        exact congrArg (r :: ·) (ih (i + 1))
      · obtain ⟨e, he⟩ := (exact_marketRow i).refuses hrange
        rw [he, if_neg (by simpa using hrange)]
        exact ih (i + 1)

theorem marketRows_good (i : Nat) (rows : List Json) :
    ∀ r ∈ marketRows i rows, MarketRow.InRange r := by
  induction rows generalizing i with
  | nil => exact fun _ h => absurd h List.not_mem_nil
  | cons row rest ih =>
      rw [marketRows]
      split
      · next market hmarket =>
          exact List.forall_mem_cons.mpr ⟨(exact_marketRow i).good row market hmarket, ih _⟩
      · exact ih _

theorem length_marketRows_le (i : Nat) (rows : List Json) :
    (marketRows i rows).length ≤ rows.length := by
  induction rows generalizing i with
  | nil => rfl
  | cons row rest ih =>
      have hrest := ih (i + 1)
      rw [marketRows, List.length_cons]
      split
      · rw [List.length_cons]
        omega
      · omega

/-! ## Ranges, books, connections -/

theorem exact_priceRange (i : Nat) :
    Json.Exact Api.Contract.priceRange (priceRange path i) PriceRange.InRange where
  encoded r out := by
    let fields : Fields :=
      [("start_e4", int r.startE4), ("end_e4", int r.endE4), ("step_e4", int r.stepE4)]
    have hstart : Json.field fields "start_e4" = some (int r.startE4) := by simp [fields]
    have hend : Json.field fields "end_e4" = some (int r.endE4) := by simp [fields]
    have hstep : Json.field fields "step_e4" = some (int r.stepE4) := by simp [fields]
    have hbounds : ∀ path n, integer 1 maxPriceE4 fields "step_e4" path = .ok n ↔
        n = r.stepE4 ∧ 1 ≤ r.stepE4 ∧ r.stepE4 ≤ maxPriceE4 := fun path n =>
      integer_int hstep (by decide) (by decide)
    show priceRange path i (.object fields) = .ok out ↔ _
    unfold priceRange
    dsimp only
    rw [record_bind]
    simp only [bind_eq_ok_iff, price_int hstart, price_int hend, hbounds]
    constructor
    · rintro ⟨_, ⟨rfl, h₁⟩, _, ⟨rfl, h₂⟩, _, ⟨rfl, h₃⟩, hout⟩
      split at hout
      · cases hout
      · next horder =>
          exact ⟨(Except.ok.inj hout).symm, h₁, h₂, h₃.1, h₃.2, by omega⟩
    · rintro ⟨rfl, h₁, h₂, h₃, h₄, h₅⟩
      refine ⟨_, ⟨rfl, h₁⟩, _, ⟨rfl, h₂⟩, _, ⟨rfl, h₃, h₄⟩, ?_⟩
      rw [if_neg (by omega)]
      rfl
  good json r h := by
    unfold priceRange at h
    simp only [bind_eq_ok_iff] at h
    obtain ⟨fields, -, start, h₁, last, h₂, step, h₃, hout⟩ := h
    split at hout
    · cases hout
    · next horder =>
        obtain rfl := Except.ok.inj hout
        have hstep := integer_good h₃
        exact ⟨integer_good h₁, integer_good h₂, hstep.1, hstep.2, by
          show start < last
          omega⟩

theorem depth_encoded {d out : Api.Contract.Depth} :
    depth (some (Api.Contract.depth d)) path = .ok out ↔ out = d ∧ Depth.InRange d := by
  let fields : Fields :=
    [("ts_ms", Api.Contract.nullable int d.tsMs), ("bids", Api.Contract.levels d.bids),
      ("asks", Api.Contract.levels d.asks)]
  have htsMs : Json.field fields "ts_ms" = some (Api.Contract.nullable int d.tsMs) := by
    simp [fields]
  have hbids : Json.field fields "bids" = some (Api.Contract.levels d.bids) := by simp [fields]
  have hasks : Json.field fields "asks" = some (Api.Contract.levels d.asks) := by simp [fields]
  show depth (some (.object fields)) path = .ok out ↔ _
  unfold depth
  rw [record_bind]
  simp only [bind_eq_ok_iff, nullableInteger_encoded htsMs, levels_encoded hbids,
    levels_encoded hasks]
  constructor
  · rintro ⟨_, ⟨rfl, h₁⟩, _, ⟨rfl, h₂⟩, _, ⟨rfl, h₃⟩, hout⟩
    exact ⟨(Except.ok.inj hout).symm, h₁, h₂, h₃⟩
  · rintro ⟨rfl, h₁, h₂, h₃⟩
    exact ⟨_, ⟨rfl, h₁⟩, _, ⟨rfl, h₂⟩, _, ⟨rfl, h₃⟩, rfl⟩

theorem depth_good {value : Option Json} {d : Api.Contract.Depth}
    (h : depth value path = .ok d) : Depth.InRange d := by
  unfold depth at h
  simp only [bind_eq_ok_iff] at h
  obtain ⟨fields, -, tsMs, h₁, bids, h₂, asks, h₃, hout⟩ := h
  obtain rfl := Except.ok.inj hout
  exact ⟨nullableInteger_good h₁, levels_good h₂, levels_good h₃⟩

theorem exact_connectionHealth (i : Nat) :
    Json.Exact Api.Contract.connectionHealth (connectionHealth path i)
      ConnectionHealth.InRange where
  encoded c out := by
    let fields : Fields :=
      [("conn_id", int c.connId), ("taped", .bool c.taped), ("frames", int c.frames),
        ("gaps", int c.gaps), ("reconnects", int c.reconnects),
        ("stale_books", int c.staleBooks), ("sink_dropped", int c.sinkDropped)]
    have hconn : Json.field fields "conn_id" = some (int c.connId) := by simp [fields]
    have htaped : Json.field fields "taped" = some (.bool c.taped) := by simp [fields]
    have hframes : Json.field fields "frames" = some (int c.frames) := by simp [fields]
    have hgaps : Json.field fields "gaps" = some (int c.gaps) := by simp [fields]
    have hreconnects : Json.field fields "reconnects" = some (int c.reconnects) := by
      simp [fields]
    have hstale : Json.field fields "stale_books" = some (int c.staleBooks) := by simp [fields]
    have hdropped : Json.field fields "sink_dropped" = some (int c.sinkDropped) := by
      simp [fields]
    show connectionHealth path i (.object fields) = .ok out ↔ _
    unfold connectionHealth
    dsimp only
    rw [record_bind]
    simp only [bind_eq_ok_iff, count_int hconn, flag_bool htaped, count_int hframes,
      count_int hgaps, count_int hreconnects, count_int hstale, count_int hdropped]
    constructor
    · rintro ⟨_, ⟨rfl, h₁⟩, _, rfl, _, ⟨rfl, h₂⟩, _, ⟨rfl, h₃⟩, _, ⟨rfl, h₄⟩, _,
        ⟨rfl, h₅⟩, _, ⟨rfl, h₆⟩, hout⟩
      exact ⟨(Except.ok.inj hout).symm, h₁, h₂, h₃, h₄, h₅, h₆⟩
    · rintro ⟨rfl, h₁, h₂, h₃, h₄, h₅, h₆⟩
      exact ⟨_, ⟨rfl, h₁⟩, _, rfl, _, ⟨rfl, h₂⟩, _, ⟨rfl, h₃⟩, _, ⟨rfl, h₄⟩, _,
        ⟨rfl, h₅⟩, _, ⟨rfl, h₆⟩, rfl⟩
  good json c h := by
    unfold connectionHealth at h
    simp only [bind_eq_ok_iff] at h
    obtain ⟨fields, -, connId, h₁, taped, -, frames, h₂, gaps, h₃, reconnects, h₄, stale, h₅,
      dropped, h₆, hout⟩ := h
    obtain rfl := Except.ok.inj hout
    exact ⟨integer_good h₁, integer_good h₂, integer_good h₃, integer_good h₄, integer_good h₅,
      integer_good h₆⟩

theorem recorderHealth_encoded {r out : RecorderHealth} :
    recorderHealth (some (Api.Contract.recorderHealth r)) path = .ok out ↔
      out = r ∧ RecorderHealth.InRange r := by
  let fields : Fields :=
    [("universe_size", int r.universeSize), ("subscribed_markets", int r.subscribedMarkets),
      ("connections", .array (r.connections.map Api.Contract.connectionHealth))]
  have huniverse : Json.field fields "universe_size" = some (int r.universeSize) := by
    simp [fields]
  have hsubscribed : Json.field fields "subscribed_markets" =
      some (int r.subscribedMarkets) := by
    simp [fields]
  have hconnections : Json.field fields "connections" =
      some (.array (r.connections.map Api.Contract.connectionHealth)) := by
    simp [fields]
  have hlist : ∀ connections,
      (array (Json.field fields "connections") s!"{path}.connections" >>=
        Json.decodeItems (connectionHealth path) 0) = .ok connections ↔
        connections = r.connections ∧ ∀ c ∈ r.connections, ConnectionHealth.InRange c :=
    fun _ => items_encoded exact_connectionHealth hconnections
  show recorderHealth (some (.object fields)) path = .ok out ↔ _
  unfold recorderHealth
  rw [record_bind]
  simp only [bind_eq_ok_iff, count_int huniverse, count_int hsubscribed]
    at hlist ⊢
  constructor
  · rintro ⟨_, ⟨rfl, h₁⟩, _, ⟨rfl, h₂⟩, items, hitems, connections, hread, hout⟩
    obtain ⟨rfl, h₃⟩ := (hlist connections).mp ⟨items, hitems, hread⟩
    exact ⟨(Except.ok.inj hout).symm, h₁, h₂, h₃⟩
  · rintro ⟨rfl, h₁, h₂, h₃⟩
    obtain ⟨items, hitems, hread⟩ := (hlist out.connections).mpr ⟨rfl, h₃⟩
    exact ⟨_, ⟨rfl, h₁⟩, _, ⟨rfl, h₂⟩, items, hitems, _, hread, rfl⟩

theorem recorderHealth_good {value : Option Json} {r : RecorderHealth}
    (h : recorderHealth value path = .ok r) : RecorderHealth.InRange r := by
  unfold recorderHealth at h
  simp only [bind_eq_ok_iff] at h
  obtain ⟨fields, -, size, h₁, subscribed, h₂, items, -, connections, h₃, hout⟩ := h
  obtain rfl := Except.ok.inj hout
  exact ⟨integer_good h₁, integer_good h₂, items_good exact_connectionHealth h₃⟩

theorem busHealth_encoded {b out : BusHealth} :
    busHealth (some (Api.Contract.busHealth b)) path = .ok out ↔
      out = b ∧ BusHealth.InRange b := by
  let fields : Fields :=
    [("epoch", Api.Contract.nullable .string b.epoch),
      ("last_seq", Api.Contract.nullable int b.lastSeq), ("messages", int b.messages),
      ("resets", int b.resets), ("missed", int b.missed), ("books_known", int b.booksKnown)]
  have hepoch : Json.field fields "epoch" =
      some (Api.Contract.nullable .string b.epoch) := by simp [fields]
  have hseq : Json.field fields "last_seq" = some (Api.Contract.nullable int b.lastSeq) := by
    simp [fields]
  have hmessages : Json.field fields "messages" = some (int b.messages) := by simp [fields]
  have hresets : Json.field fields "resets" = some (int b.resets) := by simp [fields]
  have hmissed : Json.field fields "missed" = some (int b.missed) := by simp [fields]
  have hbooks : Json.field fields "books_known" = some (int b.booksKnown) := by simp [fields]
  show busHealth (some (.object fields)) path = .ok out ↔ _
  unfold busHealth
  rw [record_bind]
  simp only [bind_eq_ok_iff, nullableDecimalText_encoded hepoch, nullableInteger_encoded hseq,
    count_int hmessages, count_int hresets, count_int hmissed, count_int hbooks]
  constructor
  · rintro ⟨_, ⟨rfl, h₁⟩, _, ⟨rfl, h₂⟩, _, ⟨rfl, h₃⟩, _, ⟨rfl, h₄⟩, _, ⟨rfl, h₅⟩, _,
      ⟨rfl, h₆⟩, hout⟩
    exact ⟨(Except.ok.inj hout).symm, h₁, h₂, h₃, h₄, h₅, h₆⟩
  · rintro ⟨rfl, h₁, h₂, h₃, h₄, h₅, h₆⟩
    exact ⟨_, ⟨rfl, h₁⟩, _, ⟨rfl, h₂⟩, _, ⟨rfl, h₃⟩, _, ⟨rfl, h₄⟩, _, ⟨rfl, h₅⟩, _,
      ⟨rfl, h₆⟩, rfl⟩

theorem busHealth_good {value : Option Json} {b : BusHealth}
    (h : busHealth value path = .ok b) : BusHealth.InRange b := by
  unfold busHealth at h
  simp only [bind_eq_ok_iff] at h
  obtain ⟨fields, -, epoch, h₁, seq, h₂, messages, h₃, resets, h₄, missed, h₅, books, h₆,
    hout⟩ := h
  obtain rfl := Except.ok.inj hout
  exact ⟨nullableDecimalText_good h₁, nullableInteger_good h₂, integer_good h₃,
    integer_good h₄, integer_good h₅, integer_good h₆⟩

/-! ## The bodies -/

/-- A value that may be null, read where it was written. -/
theorem orNull_encoded {α : Type} {read : Option Json → String → Decoded α} {encode : α → Json}
    {InRange : α → Prop} {o out : Option α} (hnull : ∀ a, encode a ≠ .null)
    (hread : ∀ {a b}, read (some (encode a)) path = .ok b ↔ b = a ∧ InRange a) :
    orNull read (some (Api.Contract.nullable encode o)) path = .ok out ↔
      out = o ∧ ∀ a ∈ o, InRange a := by
  cases o with
  | none =>
      have habsent : orNull read (some (Api.Contract.nullable encode none)) path = .ok none := rfl
      rw [habsent]
      simp [eq_comm]
  | some a =>
      have hpresent : orNull read (some (encode a)) path =
          (read (some (encode a)) path).map some := by
        unfold orNull
        split
        · next hsame => exact absurd (Option.some.inj hsame) (hnull a)
        · rfl
      show orNull read (some (encode a)) path = .ok out ↔ _
      rw [hpresent, map_eq_ok_iff]
      constructor
      · rintro ⟨b, hb, rfl⟩
        obtain ⟨rfl, hrange⟩ := hread.mp hb
        exact ⟨rfl, fun c hc => Option.mem_some.mp hc ▸ hrange⟩
      · rintro ⟨rfl, hrange⟩
        exact ⟨a, hread.mpr ⟨rfl, hrange a rfl⟩, rfl⟩

theorem orNull_good {α : Type} {read : Option Json → String → Decoded α} {InRange : α → Prop}
    {value : Option Json} {out : Option α} (h : orNull read value path = .ok out)
    (hread : ∀ {a}, read value path = .ok a → InRange a) : ∀ a ∈ out, InRange a := by
  unfold orNull at h
  split at h
  · obtain rfl := Except.ok.inj h
    exact fun _ ha => by cases ha
  · obtain ⟨a, ha, rfl⟩ := map_eq_ok_iff.mp h
    exact fun b hb => Option.mem_some.mp hb ▸ hread ha

theorem priceRanges_encoded {l out : List PriceRange} :
    priceRanges (some (.array (l.map Api.Contract.priceRange))) path = .ok out ↔
      out = l ∧ ∀ r ∈ l, PriceRange.InRange r :=
  Json.decodeItems_map_iff exact_priceRange 0 l out

theorem priceRanges_good {value : Option Json} {l : List PriceRange}
    (h : priceRanges value path = .ok l) : ∀ r ∈ l, PriceRange.InRange r := by
  unfold priceRanges at h
  obtain ⟨items, -, hread⟩ := bind_eq_ok_iff.mp h
  exact items_good exact_priceRange hread

theorem exact_marketDetail :
    Json.Exact MarketDetail.encode decodeMarketDetail MarketDetail.InRange where
  encoded m out := by
    let later : Fields :=
      [("price_ranges", Api.Contract.nullable
          (fun ranges => .array (ranges.map Api.Contract.priceRange)) m.priceRanges),
        ("depth", Api.Contract.nullable Api.Contract.depth m.depth)]
    let fields : Fields := m.toMarketRow.fields ++ later
    have hranges : Json.field fields "price_ranges" = some (Api.Contract.nullable
        (fun ranges => .array (ranges.map Api.Contract.priceRange)) m.priceRanges) := by
      simp [fields, later, MarketRow.fields]
    have hdepth : Json.field fields "depth" =
        some (Api.Contract.nullable Api.Contract.depth m.depth) := by
      simp [fields, later, MarketRow.fields]
    have hrow : Carries fields m.toMarketRow := by
      intro key value h
      have hne : key ≠ "price_ranges" ∧ key ≠ "depth" := by
        constructor
        · rintro rfl
          simp [MarketRow.fields] at h
        · rintro rfl
          simp [MarketRow.fields] at h
      have hlater : Json.field later key = none := by simp [later, hne.1.symm, hne.2.symm]
      rw [Json.field_append, hlater, Option.none_or, h]
    have hreadRanges : ∀ {out}, orNull priceRanges (some (Api.Contract.nullable
        (fun ranges => .array (ranges.map Api.Contract.priceRange)) m.priceRanges))
        "market.price_ranges" = .ok out ↔
        out = m.priceRanges ∧ ∀ l ∈ m.priceRanges, ∀ r ∈ l, PriceRange.InRange r :=
      orNull_encoded (fun _ => nofun) priceRanges_encoded
    have hreadDepth : ∀ {out}, orNull depth (some (Api.Contract.nullable Api.Contract.depth
        m.depth)) "market.depth" = .ok out ↔
        out = m.depth ∧ ∀ d ∈ m.depth, Depth.InRange d :=
      orNull_encoded (fun _ => nofun) depth_encoded
    show decodeMarketDetail (.object fields) = .ok out ↔ _
    unfold decodeMarketDetail
    rw [record_bind]
    simp only [bind_eq_ok_iff, marketRowFields_carried hrow, hranges, hreadRanges,
      hdepth, hreadDepth]
    constructor
    · rintro ⟨_, ⟨rfl, h₁⟩, _, ⟨rfl, h₂⟩, _, ⟨rfl, h₃⟩, hout⟩
      exact ⟨(Except.ok.inj hout).symm, h₁, h₂, h₃⟩
    · rintro ⟨rfl, h₁, h₂, h₃⟩
      exact ⟨_, ⟨rfl, h₁⟩, _, ⟨rfl, h₂⟩, _, ⟨rfl, h₃⟩, rfl⟩
  good json m h := by
    unfold decodeMarketDetail at h
    simp only [bind_eq_ok_iff] at h
    obtain ⟨fields, -, row, h₁, ranges, h₂, depth, h₃, hout⟩ := h
    obtain rfl := Except.ok.inj hout
    exact ⟨marketRowFields_good h₁, orNull_good h₂ priceRanges_good, orNull_good h₃ depth_good⟩

theorem exact_serviceStatus :
    Json.Exact ServiceStatus.encode decodeServiceStatus ServiceStatus.InRange where
  encoded s out := by
    let fields : Fields :=
      [("recording", .bool s.recording),
        ("recorder_status_age_ms", Api.Contract.nullable int s.recorderStatusAgeMs),
        ("recorder", Api.Contract.nullable Api.Contract.recorderHealth s.recorder),
        ("bus", Api.Contract.busHealth s.bus), ("clients", int s.clients)]
    have hrecording : Json.field fields "recording" = some (.bool s.recording) := by
      simp [fields]
    have hage : Json.field fields "recorder_status_age_ms" =
        some (Api.Contract.nullable int s.recorderStatusAgeMs) := by simp [fields]
    have hrecorder : Json.field fields "recorder" =
        some (Api.Contract.nullable Api.Contract.recorderHealth s.recorder) := by simp [fields]
    have hbus : Json.field fields "bus" = some (Api.Contract.busHealth s.bus) := by
      simp [fields]
    have hclients : Json.field fields "clients" = some (int s.clients) := by simp [fields]
    have hreadRecorder : ∀ {out}, orNull recorderHealth (some (Api.Contract.nullable
        Api.Contract.recorderHealth s.recorder)) "status.recorder" = .ok out ↔
        out = s.recorder ∧ ∀ r ∈ s.recorder, RecorderHealth.InRange r :=
      orNull_encoded (fun _ => nofun) recorderHealth_encoded
    show decodeServiceStatus (.object fields) = .ok out ↔ _
    unfold decodeServiceStatus
    rw [record_bind]
    simp only [bind_eq_ok_iff, flag_bool hrecording, nullableInteger_encoded hage, hrecorder,
      hreadRecorder, hbus, busHealth_encoded, count_int hclients]
    constructor
    · rintro ⟨_, rfl, _, ⟨rfl, h₁⟩, _, ⟨rfl, h₂⟩, _, ⟨rfl, h₃⟩, _, ⟨rfl, h₄⟩, hout⟩
      exact ⟨(Except.ok.inj hout).symm, h₁, h₂, h₃, h₄⟩
    · rintro ⟨rfl, h₁, h₂, h₃, h₄⟩
      exact ⟨_, rfl, _, ⟨rfl, h₁⟩, _, ⟨rfl, h₂⟩, _, ⟨rfl, h₃⟩, _, ⟨rfl, h₄⟩, rfl⟩
  good json s h := by
    unfold decodeServiceStatus at h
    simp only [bind_eq_ok_iff] at h
    obtain ⟨fields, -, recording, -, age, h₁, recorder, h₂, bus, h₃, clients, h₄, hout⟩ := h
    obtain rfl := Except.ok.inj hout
    exact ⟨nullableInteger_good h₁, orNull_good h₂ recorderHealth_good, busHealth_good h₃,
      integer_good h₄⟩

theorem exact_apiError : Json.Exact errorResponse decodeApiError fun _ => True where
  encoded e out := by
    let error : Fields := [("code", .string e.code), ("message", .string e.message)]
    have herror : Json.field [("error", Json.object error)] "error" = some (.object error) := by
      simp
    have hcode : Json.field error "code" = some (.string e.code) := by simp [error]
    have hmessage : Json.field error "message" = some (.string e.message) := by simp [error]
    show decodeApiError (.object [("error", .object error)]) = .ok out ↔ _
    unfold decodeApiError
    rw [record_bind, herror, record_bind]
    simp only [bind_eq_ok_iff, text_string hcode, text_string hmessage]
    constructor
    · rintro ⟨_, rfl, _, rfl, hout⟩
      exact ⟨(Except.ok.inj hout).symm, trivial⟩
    · rintro ⟨rfl, -⟩
      exact ⟨_, rfl, _, rfl, rfl⟩
  good _ _ _ := trivial

theorem decodeMarketList_rows (rows : List Json) :
    decodeMarketList (.object [("markets", .array rows)]) =
      .ok ⟨marketRows 0 rows, rows.length - (marketRows 0 rows).length⟩ := rfl

/-- The list of the rows in range, and the number of the others. -/
theorem decodeMarketList_encoded (rows : List MarketRow) :
    decodeMarketList (marketsResponse rows) =
      .ok ⟨rows.filter fun r => decide (MarketRow.InRange r),
        rows.countP fun r => !decide (MarketRow.InRange r)⟩ := by
  have hcount : rows.length = (rows.filter fun r => decide (MarketRow.InRange r)).length +
      rows.countP fun r => !decide (MarketRow.InRange r) := by
    rw [← List.countP_eq_length_filter, List.length_eq_countP_add_countP
      fun r => decide (MarketRow.InRange r)]
    simp
  rw [marketsResponse, decodeMarketList_rows, marketRows_encoded, List.length_map, hcount,
    Nat.add_sub_cancel_left]

theorem decodeMarketList_good {json : Json} {list : MarketList}
    (h : decodeMarketList json = .ok list) : ∃ fields rows,
      json = .object fields ∧ Json.field fields "markets" = some (.array rows) ∧
        list.markets.length + list.invalidRows = rows.length ∧
        ∀ r ∈ list.markets, MarketRow.InRange r := by
  unfold decodeMarketList at h
  simp only [bind_eq_ok_iff, record_eq_ok_iff, array_eq_ok_iff] at h
  obtain ⟨fields, hjson, rows, hrows, hout⟩ := h
  obtain rfl := Except.ok.inj hout
  have hlength := length_marketRows_le 0 rows
  exact ⟨fields, rows, Option.some.inj hjson, hrows, Nat.add_sub_cancel' hlength,
    marketRows_good 0 rows⟩

/-- The bodies of the API are read as they were written where they are in range,
and refused otherwise; nothing out of range is read of any JSON. Of the list of
markets each row is in the result or counted, and those in range are the ones
that are in it. -/
theorem bodies_exact :
    (∀ rows, decodeMarketList (marketsResponse rows) =
      .ok ⟨rows.filter fun r => decide (MarketRow.InRange r),
        rows.countP fun r => !decide (MarketRow.InRange r)⟩) ∧
    (∀ json list, decodeMarketList json = .ok list → ∃ fields rows,
      json = .object fields ∧ Json.field fields "markets" = some (.array rows) ∧
        list.markets.length + list.invalidRows = rows.length ∧
        ∀ r ∈ list.markets, MarketRow.InRange r) ∧
    Json.Exact MarketDetail.encode decodeMarketDetail MarketDetail.InRange ∧
    Json.Exact ServiceStatus.encode decodeServiceStatus ServiceStatus.InRange ∧
    Json.Exact errorResponse decodeApiError fun _ => True :=
  ⟨decodeMarketList_encoded, fun _ _ h => decodeMarketList_good h, exact_marketDetail,
    exact_serviceStatus, exact_apiError⟩

end Tape.Page.Decode
