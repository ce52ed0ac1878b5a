import Tape.Recorder.Feed
import Tape.Store.Recall
import Tape.Store.Timeline

/-!
# Does a replay give the recorder's books?

A keyframe is read back, and what one connection recorded since is replayed
onto it. `history` is what the records say happened to one market. The recorder
follows it (`run_follows`) and the replay recalls it (`replay_recalls`), so the
two hold the same book exactly where `recollect_eq_follow_iff` says so: unless a
market that was fresh in the keyframe meets gaps before it changes, and changes
by deltas that fit, or not at all, from then on (`replay_agreement_iff`).

The docstring of `book_at` promises a book that is "stale when the recorder's
book would have been". `quiet_market_replayed_fresh` is the shortest run on
which it is not.
-/

namespace Tape

namespace ReplayChange

variable (S : Sid) (g : Group) (t : Ticker)

/-- What a change is to one market. -/
def steps : ReplayChange → List MarketStep
  | .gap _ sid => if sid = S ∧ t ∈ g.tickers then [.gap] else []
  | .delta ticker _ _ side price x _ =>
      if ticker = t then [.change (.delta side price x)] else []
  | .snapshot ticker _ _ bids asks =>
      if ticker = t then [.change (.snapshot bids asks)] else []

/-- A gap of the connection, or a change of a market of the group on `S`. -/
def On (connId : Int) : ReplayChange → Prop
  | .gap c _ => c = connId
  | .delta ticker c sid _ _ _ _ => (c, sid) = (connId, S) ∧ ticker ∈ g.tickers
  | .snapshot ticker c sid _ _ => (c, sid) = (connId, S) ∧ ticker ∈ g.tickers

variable {S g t}

theorem Alike.on {a b : ReplayChange} (h : a.Alike b) {connId : Int} (hb : b.On S g connId) :
    a.On S g connId := by
  cases h with
  | refl => exact hb
  | snapshot _ _ => exact hb

/-- The order of a snapshot's levels makes no difference to a market. -/
theorem Alike.recollect {a b : ReplayChange} (h : a.Alike b) (k : Option Depth × Bool) :
    (a.steps S g t).foldl Tape.recollect k = (b.steps S g t).foldl Tape.recollect k := by
  cases h with
  | refl => rfl
  | @snapshot ticker _ _ bids bids' asks asks' hbids hasks =>
      rw [steps, steps]
      split
      · obtain ⟨o, seen⟩ := k
        exact Prod.ext (Change.follow_snapshot_perm hbids hasks o) rfl
      · rfl

end ReplayChange

/-- What the events say happened to a market. -/
def history (S : Sid) (g : Group) (t : Ticker) (events : List Stamped) : List MarketStep :=
  events.flatMap fun e => e.change.steps S g t

variable {S : Sid} {g : Group} {t : Ticker}

theorem history_append (l l' : List Stamped) :
    history S g t (l ++ l') = history S g t l ++ history S g t l' := List.flatMap_append

/-! ## The replay recalls -/

/-- What a replay holds of a market, and whether it knows its subscription. -/
structure Recalls (connId : Int) (S : Sid) (g : Group) (t : Ticker) (r : ReplayState)
    (k : Option Depth × Bool) : Prop where
  inv : ∀ b, r.books.get? t = some b → b.Inv
  live : (r.books.get? t).bind Book.live = k.1
  last : r.lastSubscription.get? t = if k.2 then some (connId, S) else none
  group : k.2 = true → t ∈ g.tickers

theorem Recalls.gap {connId : Int} {r : ReplayState} {k : Option Depth × Bool}
    (h : Recalls connId S g t r k) {e : Stamped} {sid : Sid} (he : e.change = .gap connId sid) :
    Recalls connId S g t (r.apply e) ((e.change.steps S g t).foldl recollect k) := by
  obtain ⟨o, seen⟩ := k
  have hbooks : (r.apply e).books.get? t = (r.books.get? t).map fun b =>
      if r.lastSubscription.get? t = some (connId, sid) then b.markStale else b := by
    rw [ReplayState.apply, he]
    exact Dict.get?_mapValues _ _ _
  have hlast : (r.apply e).lastSubscription = r.lastSubscription := by
    rw [ReplayState.apply, he]
  have hinv : ∀ b, (r.apply e).books.get? t = some b → b.Inv := by
    intro b hb
    rw [hbooks] at hb
    obtain ⟨b₀, hb₀, rfl⟩ := Option.map_eq_some_iff.mp hb
    split
    · exact (h.inv b₀ hb₀).markStale
    · exact h.inv b₀ hb₀
  have hlive : ((r.apply e).books.get? t).bind Book.live =
      if r.lastSubscription.get? t = some (connId, sid) then none else o := by
    have ho : (r.books.get? t).bind Book.live = o := h.live
    rw [hbooks, ← ho]
    cases r.books.get? t with
    | none => simp
    | some b =>
        by_cases hs : r.lastSubscription.get? t = some (connId, sid)
        · simp [hs]
        · simp [hs]
  rw [he, ReplayChange.steps]
  cases seen with
  | false =>
      have hnone : r.lastSubscription.get? t = none := h.last
      have hkeep : Recalls connId S g t (r.apply e) (o, false) :=
        ⟨hinv, by rw [hlive, hnone, if_neg (by simp)], by rw [hlast, hnone]; rfl,
          fun hf => by cases hf⟩
      split
      · exact hkeep
      · exact hkeep
  | true =>
      have hsome : r.lastSubscription.get? t = some (connId, S) := h.last
      have hgroup := h.group rfl
      by_cases hsid : sid = S
      · subst hsid
        rw [if_pos ⟨rfl, hgroup⟩]
        exact ⟨hinv, by rw [hlive, if_pos hsome]; rfl, by rw [hlast, hsome]; rfl,
          fun _ => hgroup⟩
      · rw [if_neg (fun hc => hsid hc.1)]
        refine ⟨hinv, ?_, by rw [hlast, hsome]; rfl, fun _ => hgroup⟩
        rw [hlive, hsome, if_neg]
        · rfl
        · rw [Option.some.injEq, Prod.mk.injEq]
          exact fun hc => hsid hc.2.symm

/-- A change of a market: `op` is what it does to a book, `c` what it means. -/
theorem Recalls.change {connId : Int} {r : ReplayState} {k : Option Depth × Bool}
    (h : Recalls connId S g t r k) {ticker : Ticker} (hticker : ticker ∈ g.tickers)
    {op : Book → Book} {c : Change}
    (hop : ∀ b : Book, b.Inv → (op b).Inv ∧ (op b).live = c.follow b.live) :
    Recalls connId S g t (r.change ticker (connId, S) op)
      ((if ticker = t then [.change c] else []).foldl recollect k) := by
  obtain ⟨o, seen⟩ := k
  by_cases ht : ticker = t
  · subst ht
    rw [if_pos rfl]
    have hbook : (r.books.getD ticker (Book.new ticker)).Inv ∧
        (r.books.getD ticker (Book.new ticker)).live = o := by
      have ho : (r.books.get? ticker).bind Book.live = o := h.live
      rw [Dict.getD, ← ho]
      cases hget : r.books.get? ticker with
      | none => exact ⟨Book.inv_new ticker, rfl⟩
      | some b => exact ⟨h.inv b hget, rfl⟩
    obtain ⟨hi, hl⟩ := hop _ hbook.1
    refine ⟨fun b hb => ?_, ?_, Dict.get?_set_self _ _ _, fun _ => hticker⟩
    · rw [ReplayState.change, Dict.get?_set_self] at hb
      exact Option.some.inj hb ▸ hi
    · rw [ReplayState.change, Dict.get?_set_self, Option.bind_some, hl, hbook.2]
      rfl
  · rw [if_neg ht]
    refine ⟨fun b hb => ?_, ?_, ?_, h.group⟩
    · rw [ReplayState.change, Dict.get?_set_ne ht] at hb
      exact h.inv b hb
    · rw [ReplayState.change, Dict.get?_set_ne ht]
      exact h.live
    · rw [ReplayState.change, Dict.get?_set_ne ht]
      exact h.last

theorem Recalls.apply {connId : Int} {r : ReplayState} {k : Option Depth × Bool}
    (h : Recalls connId S g t r k) {e : Stamped} (he : e.change.On S g connId) :
    Recalls connId S g t (r.apply e) ((e.change.steps S g t).foldl recollect k) := by
  cases hc : e.change with
  | gap c sid =>
      rw [hc] at he
      obtain rfl : c = connId := he
      have hgap := h.gap hc
      rw [hc] at hgap
      exact hgap
  | delta ticker c sid side price delta tsMs =>
      rw [hc] at he
      obtain ⟨⟨rfl, rfl⟩, hticker⟩ : (c = connId ∧ sid = S) ∧ _ := by
        exact ⟨Prod.mk.inj he.1, he.2⟩
      rw [ReplayState.apply, hc]
      exact h.change hticker fun b hi =>
        ⟨hi.applyDelta side price delta tsMs, hi.live_applyDelta side price delta tsMs⟩
  | snapshot ticker c sid bids asks =>
      rw [hc] at he
      obtain ⟨⟨rfl, rfl⟩, hticker⟩ : (c = connId ∧ sid = S) ∧ _ := by
        exact ⟨Prod.mk.inj he.1, he.2⟩
      rw [ReplayState.apply, hc]
      exact h.change hticker fun b hi =>
        ⟨hi.applySnapshot bids asks none, b.live_applySnapshot bids asks none⟩

/-- A replay recalls the history of every market. -/
theorem replay_recalls {connId : Int} {events timeline : List Stamped}
    (h : List.Forall₂ Stamped.Alike events timeline)
    (hon : ∀ e ∈ timeline, e.change.On S g connId) {r : ReplayState}
    {k : Option Depth × Bool} (hr : Recalls connId S g t r k) :
    Recalls connId S g t (events.foldl ReplayState.apply r)
      ((history S g t timeline).foldl recollect k) := by
  induction h generalizing r k with
  | nil => exact hr
  | @cons a b events timeline hab _ ih =>
      have hstep := hr.apply (hab.change.on (hon b List.mem_cons_self))
      rw [hab.change.recollect] at hstep
      rw [history, List.flatMap_cons, List.foldl_append]
      exact ih (fun e he => hon e (List.mem_cons_of_mem _ he)) hstep

/-! ## The recorder follows -/

namespace Supervisor

/-- A frame as one orderbook subscription with a fixed set of markets has them:
quiet, with changes of the group's markets only and on `S` only, and never with
a number already seen. -/
def Orderly (S : Sid) (g : Group) (s : Supervisor) (f : RawFrame) : Prop :=
  ∀ env, f.payload = .ok env → s.Quiet S env (s.receiptOf f) ∧
    (∀ u c, changeOf s.config env (s.receiptOf f) = some (u, c) →
      env.sid = some S ∧ u ∈ g.tickers) ∧
    (env.sid = some S → ∀ expected got,
      (s.judgeFrame S env).2 ≠ .duplicate expected got)

variable {s : Supervisor}

theorem history_frame (config : SupervisorConfig) (f : RawFrame) :
    history S g t ((TapeRecord.frame f).stamped config) =
      match bakedEvent config f with
      | none => []
      | some e => if e.ticker = t then [.change e.change] else [] := by
  rw [TapeRecord.stamped]
  rcases bakedEvent config f with _ | ⟨e | e⟩
  · rfl
  · exact List.flatMap_singleton (fun e : Stamped => e.change.steps S g t) _
  · exact List.flatMap_singleton (fun e : Stamped => e.change.steps S g t) _

/-- The gap a frame shows, as far as the subscription is concerned. -/
theorem history_gaps {config : SupervisorConfig} {f : RawFrame} {env : Envelope}
    (hf : f.payload = .ok env)
    (hdup : env.sid = some S → ∀ expected got,
      (s.judgeFrame S env).2 ≠ .duplicate expected got) :
    history S g t ((s.gapsOf f).flatMap (TapeRecord.stamped config)) =
      if (env.sid = some S ∧ (s.judged S env).2 = true) ∧ t ∈ g.tickers then [.gap] else [] := by
  rw [gapsOf, hf]
  simp only [gapOf]
  cases hsid : env.sid with
  | none => simp [history]
  | some sid =>
      rw [hsid] at hdup
      by_cases hS : sid = S
      · subst hS
        have hdup := hdup rfl
        rw [← judgeFrame_isFault]
        simp only []
        cases hv : (s.judgeFrame sid env).2 with
        | ok => simp [gapRecord, history, GapVerdict.isFault]
        | firstMessage => simp [gapRecord, history, GapVerdict.isFault]
        | duplicate expected got => exact absurd hv (hdup expected got)
        | gap expected got =>
            by_cases ht : t ∈ g.tickers
            · simp [gapRecord, history, GapVerdict.isFault, TapeRecord.stamped,
                ReplayChange.steps, ht]
            · simp [gapRecord, history, GapVerdict.isFault, TapeRecord.stamped,
                ReplayChange.steps, ht]
      · simp only []
        cases (s.judgeFrame sid env).2 with
        | gap expected got =>
            simp [gapRecord, history, TapeRecord.stamped, ReplayChange.steps, hS]
        | _ => simp [gapRecord, history, hS]

/-- The events of a frame are of the connection and of the group. -/
theorem entry_on {f : RawFrame} (ho : Orderly S g s f) :
    ∀ e ∈ (s.gapsOf f ++ [TapeRecord.frame f]).flatMap (TapeRecord.stamped s.config),
      e.change.On S g s.config.connId := by
  intro e he
  rw [List.flatMap_append, List.flatMap_singleton, List.mem_append] at he
  rcases he with he | he
  · rcases s.gapsOf_cases f with hg | ⟨sid, expected, got, hg⟩
    · rw [hg] at he
      cases he
    · rw [hg] at he
      obtain rfl := List.mem_singleton.mp he
      rfl
  · rw [TapeRecord.stamped, Option.mem_toList, Option.map_eq_some_iff] at he
    obtain ⟨b, hb, rfl⟩ := he
    have hreceipt := bakedEvent_receipt hb
    rw [bakedEvent] at hb
    cases hf : f.payload with
    | error err => simp only [hf] at hb; cases hb
    | ok env =>
        simp only [hf] at hb
        obtain ⟨hsid, hticker⟩ := (ho env hf).2.1 b.ticker b.change (by
          rw [changeOf_eq]
          exact Option.map_eq_some_iff.mpr ⟨b, hb, rfl⟩)
        obtain rfl := Option.some.inj ((bookEvent_address hb).1.symm.trans hsid)
        cases b with
        | snapshot e => exact ⟨Prod.ext (congrArg Receipt.connId hreceipt) rfl, hticker⟩
        | delta e => exact ⟨Prod.ext (congrArg Receipt.connId hreceipt) rfl, hticker⟩

/-- A frame does to every market what its events say. -/
theorem next_follows (h : s.Serving S g) {f : RawFrame} (ho : Orderly S g s f) :
    (s.next f).Serving S g ∧ (s.next f).config = s.config ∧ Keeps s (s.next f) ∧
      ∀ t, (s.next f).live t =
        (history S g t ((s.gapsOf f ++ [TapeRecord.frame f]).flatMap
          (TapeRecord.stamped s.config))).foldl follow (s.live t) := by
  have hsplit : ∀ t, history S g t ((s.gapsOf f ++ [TapeRecord.frame f]).flatMap
      (TapeRecord.stamped s.config)) =
        history S g t ((s.gapsOf f).flatMap (TapeRecord.stamped s.config)) ++
          history S g t ((TapeRecord.frame f).stamped s.config) := fun t => by
    rw [List.flatMap_append, List.flatMap_singleton, history_append]
  cases hf : f.payload with
  | error err =>
      obtain ⟨s', hs', hsteady, hkeeps, hserv, -, hlive⟩ := onFrame_malformed h hf
      rw [next, hs']
      refine ⟨hserv, hsteady.config, hkeeps, fun t => ?_⟩
      have hbaked : bakedEvent s.config f = none := by rw [bakedEvent, hf]
      rw [hlive, hsplit, history_frame, hbaked, gapsOf, hf]
      rfl
  | ok env =>
      obtain ⟨hq, hchange, hdup⟩ := ho env hf
      obtain ⟨s', hs', hr⟩ := onFrame_spec h hf hq
      rw [next, hs']
      refine ⟨hr.serving, hr.steady.config, hr.keeps, fun t => ?_⟩
      have hbaked : bakedEvent s.config f =
          bookEvent s.config.useYesPrice env (s.receiptOf f) := by
        rw [bakedEvent, hf]
        rfl
      rw [hr.live, hsplit, history_frame, history_gaps hf hdup, hbaked, List.foldl_append]
      rw [changeOf_eq] at hchange ⊢
      -- The gap first, and then the change, on either side.
      have hgap : (if (env.sid = some S ∧ (s.judged S env).2 = true) ∧ t ∈ g.tickers
          then [MarketStep.gap] else []).foldl follow (s.live t) =
          if (env.sid = some S ∧ (s.judged S env).2 = true) ∧ t ∈ g.tickers then none
            else s.live t := by
        split <;> rfl
      rw [hgap]
      cases hb : bookEvent s.config.useYesPrice env (s.receiptOf f) with
      | none =>
          by_cases hsid : env.sid = some S
          · simp [hsid, followed]
          · simp [hsid]
      | some e =>
          obtain ⟨hsid, hticker⟩ := hchange e.ticker e.change (by rw [hb]; rfl)
          simp only [hsid, if_true, true_and, Option.map_some, followed, hticker]
          by_cases ht : e.ticker = t
          · simp [ht, follow]
          · simp [ht]

/-- A run does to every market what its events say. -/
theorem run_follows {fs : List RawFrame} (h : s.Serving S g)
    (ho : Run.Along next (Orderly S g) s fs) :
    (Run.final next s fs).Serving S g ∧ Keeps s (Run.final next s fs) ∧
      (∀ t, (Run.final next s fs).live t =
        (history S g t (s.timeline fs)).foldl follow (s.live t)) ∧
      ∀ e ∈ s.timeline fs, e.change.On S g s.config.connId := by
  induction fs generalizing s with
  | nil => exact ⟨h, fun _ ht => ht, fun _ => rfl, fun e he => by cases he⟩
  | cons f fs ih =>
      obtain ⟨hserv, hconfig, hkeeps, hlive⟩ := next_follows h ho.1
      obtain ⟨hserv', hkeeps', hlive', hon⟩ := ih hserv ho.2
      have htimeline : s.timeline (f :: fs) =
          (s.gapsOf f ++ [TapeRecord.frame f]).flatMap (TapeRecord.stamped s.config) ++
            (s.next f).timeline fs := by
        rw [timeline, tookEffect, List.flatMap_append, timeline, hconfig]
      refine ⟨hserv', hkeeps.trans hkeeps', fun t => ?_, fun e he => ?_⟩
      · rw [Run.final_cons, hlive', hlive, htimeline, history_append, List.foldl_append]
      · rw [htimeline, List.mem_append] at he
        rcases he with he | he
        · exact entry_on ho.1 e he
        · exact hconfig ▸ hon e he

end Supervisor

/-! ## Where the two agree -/

/-- The same stale flag and, where it is not set, the same levels. -/
def Agrees (books : Dict Ticker Book) (s : Supervisor) (t : Ticker) : Prop :=
  ∃ replayed held, books.get? t = some replayed ∧ s.books.get? t = some held ∧
    replayed.stale = held.stale ∧
    (held.stale = false → ∀ side, replayed.levels side = held.levels side)

theorem agrees_iff_live {books : Dict Ticker Book} {s : Supervisor} {t : Ticker}
    {replayed held : Book} (hr : books.get? t = some replayed) (hh : s.books.get? t = some held)
    (hir : replayed.Inv) (hih : held.Inv) :
    Agrees books s t ↔ replayed.live = held.live := by
  constructor
  · rintro ⟨r, h, hr', hh', hstale, hlevels⟩
    obtain rfl := Option.some.inj (hr.symm.trans hr')
    obtain rfl := Option.some.inj (hh.symm.trans hh')
    cases hf : held.stale with
    | true => rw [Book.live_of_stale hf, Book.live_of_stale (hstale.trans hf)]
    | false =>
        rw [Book.live_of_fresh hf, Book.live_of_fresh (hstale.trans hf),
          (hir.levels_eq_iff hih).mp (hlevels hf)]
  · intro hlive
    refine ⟨replayed, held, hr, hh, ?_, fun hf => ?_⟩
    · cases hf : held.stale with
      | true => exact Book.live_eq_none_iff.mp (hlive.trans (Book.live_of_stale hf))
      | false =>
          exact (Book.live_eq_some_iff.mp (hlive.trans (Book.live_of_fresh hf))).1
    · exact (hir.levels_eq_iff hih).mpr
        (Book.live_eq_some_iff.mp (hlive.trans (Book.live_of_fresh hf))).2

theorem replay_books (events : List Stamped) {r : ReplayState} {t : Ticker}
    (h : t ∈ r.books.keys) : t ∈ (events.foldl ReplayState.apply r).books.keys := by
  induction events generalizing r with
  | nil => exact h
  | cons e events ih =>
      refine ih ?_
      rw [ReplayState.apply]
      split
      · rw [Dict.keys_mapValues]
        exact h
      · exact Dict.mem_keys_set.mpr (.inr h)
      · exact Dict.mem_keys_set.mpr (.inr h)

/-- What has been recorded since a keyframe, replayed onto it, gives the
recorder's books exactly if no market that the keyframe holds as fresh has since
met gaps and then, if anything, deltas that fit. -/
theorem replay_agreement_iff (s₀ : Supervisor) (S : Sid) (g : Group) (fs : List RawFrame)
    (read : List Book) (asOf : Ticker → Int) (rows : List KeyframeRow)
    (books : Dict Ticker Book) (records : List TapeRecord) (deltas : List DeltaRow)
    (snapshots : List SnapshotRow) (gaps : List GapRow) (hserv : s₀.Serving S g)
    (hpersist : s₀.config.persist = true)
    (hrun : Run.Along Supervisor.next (Supervisor.Orderly S g) s₀ fs) (hticking : Ticking fs)
    (hread : ∀ b ∈ read, s₀.books.get? b.ticker = some b)
    (hdistinct : (read.map Book.ticker).Nodup)
    (hrows : rows.Perm (keyframeRows read asOf)) (hbooks : booksFromKeyframeRows rows = .ok books)
    (hrecords : (Run.final Supervisor.next s₀ fs).evidence = s₀.evidence ++ records)
    (hdeltas : deltas.Perm (records.flatMap (TapeRecord.deltaRows s₀.config)))
    (hsnapshots : snapshots.Perm (records.flatMap (TapeRecord.snapshotRows s₀.config)))
    (hgaps : gaps.Perm (records.flatMap TapeRecord.gapRows)) :
    (∀ b ∈ read, Agrees (replay books deltas snapshots gaps)
        (Run.final Supervisor.next s₀ fs) b.ticker) ↔
      ∀ b ∈ read, b.stale = false →
        ¬ Unrepaired b.depth (history S g b.ticker (s₀.timeline fs)) := by
  obtain rfl : s₀.written fs = records :=
    List.append_cancel_left ((Supervisor.run_evidence hpersist fs).2.symm.trans hrecords)
  obtain ⟨hserv', hkeeps, hlive, hon⟩ := Supervisor.run_follows hserv hrun
  have halike := Supervisor.inOrder_tables hticking hdeltas hsnapshots hgaps
  refine forall₂_congr fun b hb => ?_
  have hheld := hread b hb
  have hib := hserv.books _ _ hheld
  obtain ⟨image, himage, hii, hsame⟩ := books_of_rows hdistinct
    (fun b hb => hserv.books _ _ (hread b hb)) hrows hbooks hb
  have himage' : image.live = b.live := by
    rw [Book.live, Book.live, hsame.stale, (hii.levels_eq_iff hib).mp hsame.levels]
  have hrecall := replay_recalls (t := b.ticker) halike hon (r := ⟨books, ∅⟩)
    (k := (b.live, false))
    { inv := fun b' hb' => Option.some.inj (himage.symm.trans hb') ▸ hii
      live := by rw [himage, Option.bind_some, himage']
      last := rfl
      group := fun h => by cases h }
  obtain ⟨replayed, hreplayed⟩ := Dict.mem_keys_iff.mp
    (replay_books (inOrder (deltaEvents deltas ++ snapshotEvents snapshots ++ gapEvents gaps))
      (r := ⟨books, ∅⟩) (Dict.mem_keys_of_get? himage))
  obtain ⟨held, hheld'⟩ := Dict.mem_keys_iff.mp (hkeeps _ (Dict.mem_keys_of_get? hheld))
  have hrlive := hrecall.live
  rw [hreplayed, Option.bind_some] at hrlive
  have hhlive : held.live = (history S g b.ticker (s₀.timeline fs)).foldl follow b.live := by
    have h := hlive b.ticker
    rw [Supervisor.live, Supervisor.live, hheld', hheld, Option.bind_some, Option.bind_some] at h
    exact h
  rw [replay, agrees_iff_live hreplayed hheld' (hrecall.inv _ hreplayed) (hserv'.books _ _ hheld'),
    hrlive, hhlive, recollect_eq_follow_iff]
  constructor
  · exact fun h hfresh => h _ (Book.live_of_fresh hfresh)
  · intro h d hd
    obtain ⟨hfresh, rfl⟩ := Book.live_eq_some_iff.mp hd
    exact h hfresh

/-! Two markets quoted on subscription 1, a keyframe, and one frame after it. -/

/-- A supervisor that holds both markets fresh. -/
def keptSupervisor : Supervisor :=
  Run.final Supervisor.next World.quotedSupervisor
    [World.quoteSnapshot 1 "KXA" "1.00", World.quoteSnapshot 2 "KXB" "1.00"]

/-- The books of its keyframe, as it is read back. -/
def keptBooks : Dict Ticker Book :=
  match booksFromKeyframeRows (keyframeRows keptSupervisor.books.values fun _ => 2) with
  | .ok books => books
  | .error _ => ∅

theorem orderly_of_quiet {s : Supervisor} {f : RawFrame} {env : Envelope}
    (hf : f.payload = .ok env) (hq : s.Quiet S env (s.receiptOf f)) (hsid : env.sid = some S)
    {u : Ticker} {c : Change}
    (hc : Supervisor.changeOf s.config env (s.receiptOf f) = some (u, c)) (hu : u ∈ g.tickers)
    (hv : ∀ expected got, (s.judgeFrame S env).2 ≠ .duplicate expected got) :
    Supervisor.Orderly S g s f := by
  intro env' henv
  obtain rfl := Except.ok.inj (hf.symm.trans henv)
  refine ⟨hq, fun u' c' hc' => ?_, fun _ => hv⟩
  obtain ⟨rfl, -⟩ := Prod.mk.inj (Option.some.inj (hc.symm.trans hc'))
  exact ⟨hsid, hu⟩

theorem kept_serving : keptSupervisor.Serving 1 World.quotedGroup := by
  have hrun : Run.Along Supervisor.next (Supervisor.Orderly 1 World.quotedGroup)
      World.quotedSupervisor
      [World.quoteSnapshot 1 "KXA" "1.00", World.quoteSnapshot 2 "KXB" "1.00"] :=
    ⟨orderly_of_quiet rfl nofun rfl rfl (by decide) nofun,
      orderly_of_quiet rfl nofun rfl rfl (by decide) nofun, trivial⟩
  exact (Supervisor.run_follows World.quoted_started.serving hrun).1

/-- The books a replay of what the frames `fs` wrote makes of the keyframe. -/
def keptReplay (fs : List RawFrame) : Dict Ticker Book :=
  replay keptBooks
    ((keptSupervisor.written fs).flatMap (TapeRecord.deltaRows keptSupervisor.config))
    ((keptSupervisor.written fs).flatMap (TapeRecord.snapshotRows keptSupervisor.config))
    ((keptSupervisor.written fs).flatMap TapeRecord.gapRows)

/-- Number 3 comes next: no gap, and both markets are replayed as they are. -/
theorem next_frame_replayed :
    Agrees (keptReplay [World.quoteDelta 3 "KXA" "0.50"])
        (Run.final Supervisor.next keptSupervisor [World.quoteDelta 3 "KXA" "0.50"]) "KXA" ∧
      Agrees (keptReplay [World.quoteDelta 3 "KXA" "0.50"])
        (Run.final Supervisor.next keptSupervisor [World.quoteDelta 3 "KXA" "0.50"]) "KXB" := by
  have hhead : ∀ b ∈ keptSupervisor.books.values, (history 1 World.quotedGroup b.ticker
      (keptSupervisor.timeline [World.quoteDelta 3 "KXA" "0.50"])).head? ≠ some .gap := by
    decide
  have h := (replay_agreement_iff keptSupervisor 1 World.quotedGroup
    [World.quoteDelta 3 "KXA" "0.50"] keptSupervisor.books.values (fun _ => 2) _ keptBooks
    (keptSupervisor.written [World.quoteDelta 3 "KXA" "0.50"]) _ _ _ kept_serving rfl
    ⟨orderly_of_quiet rfl nofun rfl rfl (by decide) nofun, trivial⟩
    (List.pairwise_singleton _ _) (by decide) (by decide) (List.Perm.refl _) rfl rfl
    (List.Perm.refl _) (List.Perm.refl _) (List.Perm.refl _)).mpr (by
      rintro b hb - ⟨n, deltas, heq, -⟩
      have hgap := hhead b hb
      rw [heq] at hgap
      exact hgap rfl)
  exact ⟨h (keptSupervisor.books.getD "KXA" (Book.new "KXA")) (by decide),
    h (keptSupervisor.books.getD "KXB" (Book.new "KXB")) (by decide)⟩

/-- Number 3 is lost. The gap stales both markets, and the replay of the one
frame after it leaves both fresh. -/
theorem quiet_market_replayed_fresh :
    keptSupervisor.Serving 1 World.quotedGroup ∧
      Run.Along Supervisor.next (Supervisor.Orderly 1 World.quotedGroup) keptSupervisor
        [World.quoteDelta 4 "KXA" "0.50"] ∧
      booksFromKeyframeRows (keyframeRows keptSupervisor.books.values fun _ => 2) =
        .ok keptBooks ∧
      ¬ ∀ b ∈ keptSupervisor.books.values,
        Agrees (keptReplay [World.quoteDelta 4 "KXA" "0.50"])
          (Run.final Supervisor.next keptSupervisor [World.quoteDelta 4 "KXA" "0.50"])
          b.ticker := by
  refine ⟨kept_serving, ⟨orderly_of_quiet rfl nofun rfl rfl (by decide) nofun, trivial⟩, rfl, ?_⟩
  intro h
  have hdiffer : ∃ b ∈ keptSupervisor.books.values,
      ((keptReplay [World.quoteDelta 4 "KXA" "0.50"]).get? b.ticker).map Book.stale ≠
        ((Run.final Supervisor.next keptSupervisor
          [World.quoteDelta 4 "KXA" "0.50"]).books.get? b.ticker).map Book.stale := by
    decide
  obtain ⟨b, hb, hne⟩ := hdiffer
  obtain ⟨replayed, held, hr, hh, hstale, -⟩ := h b hb
  rw [hr, hh, Option.map_some, Option.map_some, hstale] at hne
  exact hne rfl

end Tape
