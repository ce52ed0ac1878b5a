import Tape.Api.Delivered
import Tape.Api.Listing
import Tape.Page.DecodedRest
import Tape.Percent
import Mathlib

/-!
# The page asks, and reads the answer

`RestClient` over the routes: what a request comes to once it is answered. The
texts the page asks with are ones the routes take, and their answers are ones
the page reads: of the errors that a request can end with, an answered one ends
with none but an unknown ticker, or with an unknown path where the ticker has a
slash inside. A ticker is escaped in the path and read back by the server as it
was, so the route sees the ticker that was asked for.
-/

namespace Tape.Page.Rest

open Api.Contract
open Api.Directory (Update MarketDirectory Views Response MarketMetadata Listed lastCatalog
  closes after)
open Decode (Decoded IsPrice IsCount Ladder)

/-- Why a request failed. -/
structure ApiRequestError where
  code : String
  status : Option Nat
  message : String
  deriving DecidableEq, Repr

/-- `#get`, of a response with a JSON body. -/
def get {α : Type} (decode : Json → Decoded α) (route : String) (response : Response) :
    Except ApiRequestError α :=
  let status := some response.statusCode
  if ¬ (200 ≤ response.statusCode ∧ response.statusCode ≤ 299) then
    match Decode.decodeApiError response.body with
    | .ok error => .error ⟨error.code, status, error.message⟩
    | .error _ => .error ⟨"http_error", status, s!"HTTP {response.statusCode} from {route}"⟩
  else
    match decode response.body with
    | .error e => .error ⟨"malformed_response", status, e⟩
    | .ok value => .ok value

/-- `MAX_MARKETS_LIMIT`, as the page has it. -/
def maxMarketsLimit : Int := 200

/-- The limit asked for, which may be any number. -/
def clamped (limit : ℚ) : Int := min maxMarketsLimit (max 1 ⌊limit⌋)

/-- Ask for the list of markets, within the limits. -/
def listMarkets (server : Option String → Response) (limit : ℚ) :
    Except ApiRequestError Decode.MarketList :=
  get Decode.decodeMarketList s!"/markets?limit={clamped limit}"
    (server (some (toString (clamped limit))))

/-- What `encodeURIComponent` leaves as it is. -/
def isUnreserved (c : Char) : Bool := c.isAlphanum || "-_.!~*'()".toList.contains c

/-- A text as a segment of a path. -/
def encodeURIComponent (s : String) : String := Percent.encode isUnreserved s

/-- `#fetch` takes the route and brings the response to it. -/
def getMarket (fetch : String → Response) (ticker : Ticker) :
    Except ApiRequestError MarketDetail :=
  let route := "/markets/" ++ encodeURIComponent ticker
  get Decode.decodeMarketDetail route (fetch route)

/-- Ask for the status of the service. -/
def getStatus (server : Response) : Except ApiRequestError ServiceStatus :=
  get Decode.decodeServiceStatus "/status" server

/-! ## What the bus and the resolver bring, in range -/

/-- What an update brings is in range. -/
def UpdateInRange : Update → Prop
  | .catalog markets => ∀ e ∈ markets,
      e.ticker ≠ "" ∧ IsCount e.volume24h ∧ ∀ ts ∈ e.closeTs, IsCount ts
  | .ticker w =>
      (∀ p ∈ w.bid, IsPrice p) ∧ (∀ p ∈ w.ask, IsPrice p) ∧ ∀ p ∈ w.last, IsPrice p
  | .lifecycle e => ∀ ts ∈ e.closeTs, IsCount ts
  | .status report _ =>
      IsCount report.universeSize ∧ IsCount report.subscribedMarkets ∧
        ∀ c ∈ report.connections,
          Decode.ConnectionHealth.InRange (MarketDirectory.connectionHealth c)

/-- The metadata and the books that stand beside the directory are in range. -/
structure ViewsInRange (views : Views) : Prop where
  ranges : ∀ e, ∀ ranges ∈ (views.metadata e).priceRanges, ∀ r ∈ ranges,
    Decode.PriceRange.InRange r
  books : ∀ t b, views.book t = some b → Api.Sendable t b
  counts : ∀ t b, views.book t = some b → ∀ s, ∀ l ∈ b.levels s, l.count ≤ Decode.maxSafeInteger

variable {us : List Update} {views : Views} {e : Api.Directory.CatalogEntry}

theorem mem_of_since {u : Update} (h : u ∈ Api.Directory.sinceCatalog us) : u ∈ us :=
  (List.rtakeWhile_suffix _ us).subset h

theorem closes_inRange (hus : ∀ u ∈ us, UpdateInRange u) (he : e ∈ (lastCatalog us).getD []) :
    ∀ ts ∈ closes us e, IsCount ts := by
  intro ts hts
  rw [closes, Option.mem_def, Option.or_eq_some_iff] at hts
  rcases hts with hmoved | ⟨-, hlisted⟩
  · obtain ⟨u, hu, hmoves⟩ := List.exists_of_findSome?_eq_some hmoved
    cases u with
    | lifecycle event =>
        rw [Update.moves] at hmoves
        split at hmoves
        · exact hus _ (mem_of_since (List.mem_reverse.mp hu)) ts hmoves
        · cases hmoves
    | _ => cases hmoves
  · cases hlast : lastCatalog us with
    | none =>
        rw [hlast] at he
        cases he
    | some markets =>
        rw [hlast] at he
        exact (hus _ (Api.Directory.mem_of_lastCatalog hlast) e he).2.2 ts hlisted

theorem entry_inRange (hus : ∀ u ∈ us, UpdateInRange u) (he : e ∈ (lastCatalog us).getD []) :
    e.ticker ≠ "" ∧ IsCount e.volume24h := by
  cases hlast : lastCatalog us with
  | none =>
      rw [hlast] at he
      cases he
  | some markets =>
      rw [hlast] at he
      obtain ⟨hne, hvolume, -⟩ := hus _ (Api.Directory.mem_of_lastCatalog hlast) e he
      exact ⟨hne, hvolume⟩

theorem row_inRange (hus : ∀ u ∈ us, UpdateInRange u) (he : e ∈ (lastCatalog us).getD [])
    (metadata : MarketMetadata) (book : Option Tape.Book) :
    Decode.MarketRow.InRange ((after us).row e metadata book) := by
  have hlisted : Listed us e.ticker := Api.Directory.listed_iff.mpr ⟨e, he, rfl⟩
  obtain ⟨update, hupdate, hrow⟩ := (Api.Directory.tells_after us).row hlisted metadata book
  obtain ⟨hne, hvolume⟩ := entry_inRange hus he
  have hprices : ∀ w, update = some w → UpdateInRange (.ticker w) := by
    intro w hw
    obtain ⟨⟨before, later, rfl, -, -⟩, -⟩ := (hupdate w).mp hw
    exact hus _ (List.mem_append_right _ List.mem_cons_self)
  rw [hrow]
  cases update with
  | none => exact ⟨hne, hvolume, closes_inRange hus he, nofun, nofun, nofun⟩
  | some w =>
      obtain ⟨hbid, hask, hlast⟩ := hprices w rfl
      exact ⟨hne, hvolume, closes_inRange hus he, hbid, hask, hlast⟩

theorem depth_inRange {t : Ticker} {b : Tape.Book} (hviews : ViewsInRange views)
    (hb : views.book t = some b) :
    Decode.Depth.InRange ⟨b.lastTsMs, (b.levels .bid).take Api.Directory.depthLevels,
      (b.levels .ask).take Api.Directory.depthLevels⟩ := by
  obtain ⟨-, hinv, hwithin⟩ := hviews.books t b hb
  have hladder : ∀ s, Ladder s ((b.levels s).take Api.Directory.depthLevels) := by
    intro s
    have hwhole := Api.ladder_levels hinv hwithin (hviews.counts t b hb s)
    refine ⟨fun l hl => hwhole.inRange l (List.mem_of_mem_take hl), ?_⟩
    exact hwhole.ordered.sublist ((List.take_sublist _ _).map Level.price)
  exact ⟨hwithin.time, hladder .bid, hladder .ask⟩

theorem report_mem {report : Api.Directory.StatusReport} {receivedMonoNs : Int}
    (h : (after us).report = some (report, receivedMonoNs)) :
    .status report receivedMonoNs ∈ us := by
  induction us using List.reverseRecOn with
  | nil => cases h
  | append_singleton rest u ih =>
      rw [after, List.foldl_append, List.foldl_cons, List.foldl_nil] at h
      cases u with
      | status report' received =>
          obtain ⟨rfl, rfl⟩ := Prod.mk.inj (Option.some.inj h)
          exact List.mem_append_right _ List.mem_cons_self
      | catalog markets => exact List.mem_append_left _ (ih h)
      | ticker w =>
          refine List.mem_append_left _ (ih ?_)
          rw [MarketDirectory.step, MarketDirectory.applyTicker] at h
          split at h
          · exact h
          · exact h
      | lifecycle e =>
          refine List.mem_append_left _ (ih ?_)
          rw [MarketDirectory.step, MarketDirectory.applyLifecycle] at h
          split at h
          · exact h
          · split at h
            · exact h
            · split at h
              · split at h
                · exact h
                · exact h
              · exact h

theorem status_inRange (hus : ∀ u ∈ us, UpdateInRange u) {monoNs clients : Int}
    {bus : BusHealth} (hbus : Decode.BusHealth.InRange bus) (hclients : IsCount clients)
    (hage : ∀ report receivedMonoNs, (after us).report = some (report, receivedMonoNs) →
      IsCount ((monoNs - receivedMonoNs) / Api.Directory.nsPerMs)) :
    Decode.ServiceStatus.InRange ((after us).serviceStatus monoNs bus clients) := by
  rw [MarketDirectory.serviceStatus]
  cases hreport : (after us).report with
  | none => exact ⟨nofun, nofun, hbus, hclients⟩
  | some last =>
      obtain ⟨report, receivedMonoNs⟩ := last
      obtain ⟨huniverse, hsubscribed, hconnections⟩ := hus _ (report_mem hreport)
      refine ⟨fun age h => ?_, fun r h => ?_, hbus, hclients⟩
      · obtain rfl := Option.some.inj h
        exact hage report receivedMonoNs hreport
      · obtain rfl := Option.some.inj h
        refine ⟨huniverse, hsubscribed, fun c hc => ?_⟩
        obtain ⟨report', hin, rfl⟩ := List.mem_map.mp hc
        exact hconnections report' hin

/-! ## The path of a market -/

/-- `fetch` sends a segment that needs no escape, and is no dot segment, as it is
written; the server takes it for what is escaped in it, and where it does not
redirect, its answer is what `fetch` brings. -/
def Brings (fetch : String → Response) (replaced : List UInt8 → String) (d : MarketDirectory)
    (views : Views) : Prop :=
  ∀ segment : String, (∀ c ∈ segment.toList, isUnreserved c = true ∨ c = '%') →
    Percent.decode replaced segment ≠ "." → Percent.decode replaced segment ≠ ".." →
      ∀ response, Api.Directory.answered d views
        (Percent.decode replaced ("/markets/" ++ segment)) = some response →
          fetch ("/markets/" ++ segment) = response

/-- A ticker that a path can end with: not nothing and not a dot segment, which
make it another path, and with no slash at its end, which is redirected. -/
structure Addressable (t : Ticker) : Prop where
  ne : t ≠ ""
  ne_dot : t ≠ "."
  ne_dots : t ≠ ".."
  last : t.toList.getLast? ≠ some '/'

theorem isUnreserved_percent : isUnreserved '%' = false := by decide

/-- The server reads the text that was escaped. -/
theorem decode_encodeURIComponent (replaced : List UInt8 → String) (s : String) :
    Percent.decode replaced (encodeURIComponent s) = s :=
  Percent.decode_encode isUnreserved_percent replaced s

/-- The escaped ticker is such a segment. -/
theorem encodeURIComponent_plain {s : String} :
    ∀ c ∈ (encodeURIComponent s).toList, isUnreserved c = true ∨ c = '%' := by
  intro c hc
  rcases Percent.mem_encode hc with hkeep | hpercent | ⟨n, hn, rfl⟩
  · exact .inl hkeep
  · exact .inr hpercent
  · have hdigits : ∀ n < 16, isUnreserved (Percent.hexDigit n) = true := by decide
    exact .inl (hdigits n hn)

/-- The response to a request for a market. -/
theorem fetch_market {fetch : String → Response} {replaced : List UInt8 → String}
    {d : MarketDirectory} {views : Views} (hfetch : Brings fetch replaced d views) {t : Ticker}
    (ht : Addressable t) :
    fetch ("/markets/" ++ encodeURIComponent t) =
      if '/' ∈ t.toList then Api.Directory.notFound else Api.Directory.market d views t := by
  have hdecode := decode_encodeURIComponent replaced t
  refine hfetch _ encodeURIComponent_plain ?_ ?_ _ ?_
  · rw [hdecode]
    exact ht.ne_dot
  · rw [hdecode]
    exact ht.ne_dots
  · rw [encodeURIComponent,
      Percent.decode_append_encode isUnreserved_percent replaced "/markets/" (by decide) t]
    exact Api.Directory.answered_market d views ht.ne ht.last

/-! ## Requests -/

/-- The limits the page asks for are the ones the route takes. -/
theorem parseLimit_clamped (limit : ℚ) :
    Api.Directory.parseLimit (toString (clamped limit)) = some (clamped limit) := by
  have hall : ∀ n ∈ List.range 201, 1 ≤ n →
      Api.Directory.parseLimit (toString (n : Int)) = some (n : Int) := by decide +kernel
  have hmax : maxMarketsLimit = 200 := rfl
  have hlow : 1 ≤ clamped limit := by
    unfold clamped
    omega
  have hhigh : clamped limit ≤ 200 := by
    unfold clamped
    omega
  obtain ⟨n, hn⟩ := Int.eq_ofNat_of_zero_le (by omega : 0 ≤ clamped limit)
  rw [hn] at hlow hhigh ⊢
  exact hall n (List.mem_range.mpr (by omega)) (by omega)

theorem get_ok {α : Type} {decode : Json → Decoded α} {route : String} {body : Json} {a : α}
    (h : decode body = .ok a) : get decode route ⟨200, body⟩ = .ok a := by
  rw [get]
  dsimp only
  rw [if_neg (by decide), h]

theorem get_error {α : Type} (decode : Json → Decoded α) (route : String) {statusCode : Nat}
    (h : ¬ (200 ≤ statusCode ∧ statusCode ≤ 299)) (error : Api.Contract.ErrorBody) :
    get decode route ⟨statusCode, errorResponse error⟩ =
      .error ⟨error.code, some statusCode, error.message⟩ := by
  rw [get]
  dsimp only
  rw [if_pos h, (Decode.exact_apiError.accepts_iff _).mpr trivial]

/-- Whatever the bus brought, a list of markets that is asked for is answered
with the first rows of the directory, and all of them are read; a market is
answered with its row, ranges and depth if it is in the last catalog, and is
otherwise said to be unknown, or not found where its ticker has a slash inside;
and a status is read as it is. -/
theorem requests_answered (us : List Update) (hus : ∀ u ∈ us, UpdateInRange u) (views : Views)
    (hviews : ViewsInRange views) :
    (∀ limit wallNs, ∃ entries,
      (after us).top (clamped limit) (wallNs / Api.nsPerS) = .ok entries ∧
      listMarkets (fun text => Api.Directory.markets (after us) views text wallNs) limit =
        .ok ⟨entries.map fun e => (after us).row e (views.metadata e) (views.book e.ticker),
          0⟩) ∧
    (∀ fetch replaced, Brings fetch replaced (after us) views → ∀ t, Addressable t →
      getMarket fetch t =
        if '/' ∈ t.toList then .error ⟨"not_found", some 404, "Not Found"⟩
        else match (after us).entry t with
          | none => .error ⟨"unknown_ticker", some 404, s!"market {views.repr t} is not recorded"⟩
          | some e => .ok ((after us).detail e (views.metadata e) (views.book t))) ∧
    ∀ monoNs bus clients, Decode.BusHealth.InRange bus → IsCount clients →
      (∀ report receivedMonoNs, (after us).report = some (report, receivedMonoNs) →
        IsCount ((monoNs - receivedMonoNs) / Api.Directory.nsPerMs)) →
      getStatus (Api.Directory.status (after us) monoNs bus clients) =
        .ok ((after us).serviceStatus monoNs bus clients) := by
  have htells := Api.Directory.tells_after us
  refine ⟨fun limit wallNs => ?_, fun fetch replaced hfetch t ht => ?_,
    fun monoNs bus clients hbus hclients hage => ?_⟩
  · have hlimit : ¬ clamped limit < 1 := by
      unfold clamped maxMarketsLimit
      omega
    have htop : (after us).top (clamped limit) (wallNs / Api.nsPerS) = .ok _ := if_neg hlimit
    refine ⟨_, htop, ?_⟩
    rw [listMarkets, Api.Directory.markets, parseLimit_clamped]
    dsimp only
    rw [htop]
    refine get_ok ?_
    rw [Decode.decodeMarketList_encoded]
    have hrange : ∀ r ∈ ((after us).ranked.filter fun e => (after us).isOpen e
        (wallNs / Api.nsPerS)).take (clamped limit).toNat |>.map fun e =>
          (after us).row e (views.metadata e) (views.book e.ticker),
        Decode.MarketRow.InRange r := by
      intro r hr
      obtain ⟨e, he, rfl⟩ := List.mem_map.mp hr
      have hin := (List.mem_filter.mp (List.mem_of_mem_take he)).1
      rw [htells.ranked, (Sorted.sortOn_perm _ _).mem_iff] at hin
      exact row_inRange hus hin _ _
    congr 2
    · exact List.filter_eq_self.mpr fun r hr => decide_eq_true (hrange r hr)
    · exact List.countP_eq_zero.mpr fun r hr => by simp [hrange r hr]
  · rw [getMarket, fetch_market hfetch ht]
    by_cases hslash : '/' ∈ t.toList
    · rw [if_pos hslash, if_pos hslash]
      exact get_error _ _ (by decide) _
    · rw [if_neg hslash, if_neg hslash, Api.Directory.market]
      cases hentry : (after us).entry t with
      | none => exact get_error _ _ (by decide) _
      | some e =>
          rw [MarketDirectory.entry, htells.entries] at hentry
          have hin : e ∈ (lastCatalog us).getD [] :=
            List.mem_reverse.mp (List.mem_of_find?_eq_some hentry)
          refine get_ok ((Decode.exact_marketDetail.accepts_iff _).mpr ⟨?_, ?_, ?_⟩)
          · exact row_inRange hus hin _ _
          · exact hviews.ranges e
          · intro d hd
            obtain ⟨b, hb, rfl⟩ := Option.map_eq_some_iff.mp hd
            exact depth_inRange hviews hb
  · refine get_ok ((Decode.exact_serviceStatus.accepts_iff _).mpr ?_)
    exact status_inRange hus hbus hclients hage

/-- Nothing is resolved and no book is held. -/
def plainViews : Views := ⟨fun _ => ⟨none, none, none, none⟩, fun _ => none, id⟩

/-- Every path that is answered, without a network between. -/
def fetchFrom (d : MarketDirectory) (views : Views) (route : String) : Response :=
  (Api.Directory.answered d views (Percent.decode (fun _ => "") route)).getD Api.Directory.notFound

theorem brings_fetchFrom (d : MarketDirectory) (views : Views) :
    Brings (fetchFrom d views) (fun _ => "") d views := by
  intro segment _ _ _ response hresponse
  rw [fetchFrom, hresponse]
  rfl

theorem requests_answered_three :
    let d := after Api.Directory.threeMarkets
    (∃ entries, d.top (clamped (5 / 2)) (100 * 10 ^ 9 / Api.nsPerS) = .ok entries ∧
      listMarkets (fun text => Api.Directory.markets d plainViews text (100 * 10 ^ 9)) (5 / 2) =
        .ok ⟨entries.map fun e => d.row e (plainViews.metadata e) (plainViews.book e.ticker), 0⟩) ∧
      getMarket (fetchFrom d plainViews) "B" = .ok (d.detail Api.Directory.busyMarket
        (plainViews.metadata Api.Directory.busyMarket) none) ∧
      getMarket (fetchFrom d plainViews) "A B" =
        .error ⟨"unknown_ticker", some 404, "market A B is not recorded"⟩ ∧
      getMarket (fetchFrom d plainViews) "A/B" =
        .error ⟨"not_found", some 404, "Not Found"⟩ := by
  intro d
  obtain ⟨hlist, hmarket, -⟩ := requests_answered Api.Directory.threeMarkets (fun u hu => by
      simp only [Api.Directory.threeMarkets, List.mem_cons, List.not_mem_nil, or_false] at hu
      rcases hu with rfl | rfl | rfl | rfl
      · refine ⟨?_, ?_, ?_⟩ <;> simp +decide
      · show ∀ e ∈ _, _
        simp +decide
      · show ∀ ts ∈ _, _
        simp +decide
      · rintro _ ⟨⟩) plainViews
    ⟨by rintro _ _ ⟨⟩, by rintro _ _ ⟨⟩, by rintro _ _ ⟨⟩⟩
  have hmarket := hmarket _ _ (brings_fetchFrom d plainViews)
  refine ⟨hlist (5 / 2) (100 * 10 ^ 9), ?_, ?_, ?_⟩
  · refine (hmarket "B" ⟨by decide, by decide, by decide, by decide⟩).trans ?_
    have hentry : d.entry "B" = some Api.Directory.busyMarket := by decide +kernel
    rw [if_neg (by decide), hentry]
    rfl
  · refine (hmarket "A B" ⟨by decide, by decide, by decide, by decide⟩).trans ?_
    have hentry : d.entry "A B" = none := by decide +kernel
    rw [if_neg (by decide), hentry]
    rfl
  · exact hmarket "A/B" ⟨by decide, by decide, by decide, by decide⟩

end Tape.Page.Rest
