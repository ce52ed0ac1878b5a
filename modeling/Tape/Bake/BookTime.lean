import Tape.Bake.Books

/-!
# Book time

Most of what an hour counts cannot go below zero, because it is a length or is
cut off at zero. The exceptions are a payload that says how many levels or
records to add, the connection of a header, and the time a snapshot adds when it
ends the stretch its market was stale: that is the receipt of the snapshot less
the receipt of the gap, and receipts are wall times, which step back.

`Forward` says of a record, fed in a state, that it is none of these, and
`Steady` that the stretch it starts or the market it ends is not stamped before
what was last recorded of the market. A run whose records are forward counts
nothing negative (`Kept`), and one whose records are steady besides never
counts more stale time than observed time (`Timed`). The mark of a market is
the receipt of the snapshot that last ended a stretch it was stale, or of its
first book message.
-/

namespace Tape.Bake

/-! ## Nothing negative -/

/-- No count is negative. -/
structure Books.Kept (b : Books) : Prop where
  stale : 0 ≤ b.staleMarketNs
  observed : 0 ≤ b.observedMarketNs
  gaps : 0 ≤ b.gapCount
  levels : 0 ≤ b.levelsMismatched
  dropped : 0 ≤ b.overflowDropped
  spanned : ∀ id ∈ b.spanned, 0 ≤ id

/-- A record that adds nothing negative, and ends no span of a connection with
a negative number. -/
def Segment.Forward (d : Decoders) (s : Segment) (r : Record) : Prop :=
  (∀ image ∈ snapshotOf d s.useYesPrice r, ∀ market ∈ s.markets.get? image.ticker,
    ∀ since ∈ market.staleSinceWallNs, since ≤ r.recvWallNs) ∧
  (∀ audit ∈ auditOf d r, audit.outcome ≠ .undecidable → ∀ n ∈ audit.mismatchedLevels, 0 ≤ n) ∧
  ∀ connection ∈ connectionOf d r,
    (connection.event = "writer_overflow" → ∀ n ∈ connection.dropped, 0 ≤ n) ∧
      (connection.event = "open" ∨ connection.event = "close" →
        s.spanStart.isSome = true → 0 ≤ s.connId)

instance (d : Decoders) (s : Segment) (r : Record) : Decidable (s.Forward d r) :=
  inferInstanceAs (Decidable (_ ∧ _ ∧ _))

namespace Books

variable {b : Books}

theorem le_observedAt (w : Int) (m : Market) : 0 ≤ observedAt w m := le_max_left _ _

theorem le_staleAt (w : Int) (m : Market) : 0 ≤ staleAt w m := by
  rw [staleAt]
  split
  · exact Int.le_refl 0
  · exact le_max_left _ _

theorem Kept.addBookTime {observedNs staleNs : Int} (h : b.Kept) (ho : 0 ≤ observedNs)
    (hs : 0 ≤ staleNs) : (b.addBookTime observedNs staleNs).Kept :=
  { h with
    stale := Int.add_nonneg h.stale hs
    observed := Int.add_nonneg h.observed ho }

theorem Kept.setMarkets (h : b.Kept) (markets : Dict Ticker Market) :
    { b with markets := markets }.Kept := { h with }

theorem Kept.observe (h : b.Kept) (t : Ticker) (sid : Sid) (w : Int) :
    (b.observe t sid w).Kept := by
  rw [Books.observe]
  split
  · exact h
  · exact h.setMarkets _

theorem Kept.freshen {t : Ticker} {w : Int} (h : b.Kept)
    (hlater : ∀ m ∈ b.markets.get? t, ∀ since ∈ m.staleSinceWallNs, since ≤ w) :
    (b.freshen t w).Kept := by
  rw [Books.freshen]
  split
  · exact h
  · next m hget =>
      split
      · exact h
      · next since hsince =>
          have hle := hlater m hget since hsince
          exact (h.addBookTime (Int.le_refl 0) (by omega)).setMarkets _

theorem Kept.leave (h : b.Kept) (t : Ticker) (w : Int) : (b.leave t w).Kept := by
  rw [Books.leave]
  split
  · exact h
  · exact (h.setMarkets _).addBookTime (le_observedAt _ _) (le_staleAt _ _)

theorem Kept.leaveAll (h : b.Kept) (tickers : List Ticker) (w : Int) :
    (b.leaveAll tickers w).Kept := by
  induction tickers generalizing b with
  | nil => exact h
  | cons t rest ih => exact ih (h.leave t w)

theorem Kept.closeSpan (h : b.Kept) (hid : b.spanOpen = true → 0 ≤ b.connId) :
    b.closeSpan.Kept := by
  rw [Books.closeSpan]
  split
  · next hopen =>
      refine { h with spanned := fun id hin => ?_ }
      rcases List.mem_append.mp hin with hin | hin
      · exact h.spanned id hin
      · rw [List.mem_singleton.mp hin]
        exact hid hopen
  · exact h

theorem observe_last (b : Books) (t : Ticker) (sid : Sid) (w : Int) :
    (b.observe t sid w).lastWallNs = b.lastWallNs := by
  rw [observe]
  split
  · rfl
  · rfl

theorem freshen_last (b : Books) (t : Ticker) (w : Int) :
    (b.freshen t w).lastWallNs = b.lastWallNs := by
  rw [freshen]
  split
  · rfl
  · split
    · rfl
    · rfl

theorem leaveAll_last (tickers : List Ticker) (b : Books) (w : Int) :
    (b.leaveAll tickers w).lastWallNs = b.lastWallNs := by
  induction tickers generalizing b with
  | nil => rfl
  | cons t rest ih =>
      refine (ih _).trans ?_
      show (b.leave t w).lastWallNs = b.lastWallNs
      rw [leave]
      split
      · rfl
      · rfl

theorem closeSpan_last (b : Books) : b.closeSpan.lastWallNs = b.lastWallNs := by
  rw [closeSpan]
  split
  · rfl
  · rfl

theorem closeSpan_times (b : Books) : b.closeSpan.staleMarketNs = b.staleMarketNs ∧
    b.closeSpan.observedMarketNs = b.observedMarketNs := by
  rw [closeSpan]
  split
  · exact ⟨rfl, rfl⟩
  · exact ⟨rfl, rfl⟩

/-- A market that is not followed yet is not stale when it is. -/
theorem get?_observe {t t' : Ticker} {sid : Sid} {w : Int} {m : Market}
    (h : (b.observe t sid w).markets.get? t' = some m) :
    b.markets.get? t' = some m ∨
      b.markets.get? t' = none ∧ t = t' ∧ m = ⟨sid, w, none⟩ := by
  rw [observe] at h
  split at h
  · exact .inl h
  · next hnone =>
      rw [Dict.get?_set] at h
      split at h
      · next heq =>
          subst heq
          exact .inr ⟨hnone, rfl, (Option.some.inj h).symm⟩
      · exact .inl h

end Books

namespace Segment

variable {d : Decoders} {s s' : Segment} {r : Record}

theorem BookStep.last (h : BookStep d s s' r) : s'.lastWallNs = s.lastWallNs := by
  show s'.books.lastWallNs = s.books.lastWallNs
  cases h with
  | same _ h => rw [h]
  | seen ticker sid _ h => rw [h, Books.observe_last]
  | shown image _ h => rw [h, Books.freshen_last, Books.observe_last]
  | left cmd params _ h => rw [h, Books.leaveAll_last]
  | staled gap _ markets _ h => rw [h]
  | audited audit _ h =>
      rw [h, Books.addAudit]
      split
      · rfl
      · split
        · rfl
        · rfl
  | connected connection _ h =>
      rw [h, Books.connected]
      split
      · exact Books.closeSpan_last _
      · split
        · exact Books.closeSpan_last _
        · split
          · rfl
          · rfl

theorem BookStep.kept (h : BookStep d s s' r) (hkept : s.books.Kept) (hforward : s.Forward d r) :
    s'.books.Kept := by
  obtain ⟨hsnapshot, haudit, hconnection⟩ := hforward
  cases h with
  | same _ h =>
      rw [h]
      exact hkept
  | seen ticker sid _ h =>
      rw [h]
      exact hkept.observe ticker sid r.recvWallNs
  | shown image hof h =>
      rw [h]
      refine (hkept.observe _ _ _).freshen fun m hget since hsince => ?_
      rcases Books.get?_observe hget with hold | ⟨-, -, rfl⟩
      · exact hsnapshot image hof m hold since hsince
      · cases hsince
  | left cmd params _ h =>
      rw [h]
      exact hkept.leaveAll _ _
  | staled gap _ markets _ h =>
      rw [h]
      exact { hkept with gaps := Int.add_nonneg hkept.gaps (by decide) }
  | audited audit hof h =>
      rw [h, Books.addAudit]
      split
      · exact hkept
      · next n hn =>
          split
          · next hdecidable =>
              have hle := haudit audit hof hdecidable n hn
              exact { hkept with levels := Int.add_nonneg hkept.levels hle }
          · exact hkept
  | connected connection hof h =>
      obtain ⟨hdropped, hid⟩ := hconnection connection hof
      rw [h, Books.connected]
      split
      · next hopen => exact { hkept.closeSpan (hid (.inl hopen)) with }
      · split
        · next hclose => exact hkept.closeSpan (hid (.inr hclose))
        · split
          · next hover =>
              refine { hkept with dropped := Int.add_nonneg hkept.dropped ?_ }
              cases hn : connection.dropped with
              | none => exact Int.le_refl 0
              | some n => exact hdropped hover n hn
          · exact hkept

end Segment

/-! ## Stale time within observed time -/

/-- The marks of the markets lie within their stretches, and what was counted
stale is within what was observed up to the marks. -/
structure Books.Timed (b : Books) (marks : Ticker → Int) : Prop where
  marked : ∀ t m, b.markets.get? t = some m →
    m.sinceWallNs ≤ marks t ∧ ∀ since ∈ m.staleSinceWallNs, marks t ≤ since
  bounded : b.staleMarketNs ≤
    b.observedMarketNs + b.markets.sum fun t m => marks t - m.sinceWallNs

namespace Books

variable {b : Books} {marks marks' : Ticker → Int}

theorem Timed.congr (h : b.Timed marks)
    (hsame : ∀ t m, b.markets.get? t = some m → marks' t = marks t) : b.Timed marks' where
  marked t m hget := by
    rw [hsame t m hget]
    exact h.marked t m hget
  bounded := by
    have hsum : (b.markets.sum fun t m => marks' t - m.sinceWallNs) =
        b.markets.sum fun t m => marks t - m.sinceWallNs :=
      Dict.sum_congr fun t m hget => by rw [hsame t m hget]
    rw [hsum]
    exact h.bounded

theorem Timed.observe {t : Ticker} {w : Int} (h : b.Timed marks)
    (hnew : b.markets.get? t = none → marks t = w) (sid : Sid) :
    (b.observe t sid w).Timed marks := by
  rw [Books.observe]
  split
  · exact h
  · next hnone =>
      refine ⟨fun t' m hget => ?_, ?_⟩
      · rw [Dict.get?_set] at hget
        split at hget
        · next heq =>
            obtain rfl := Option.some.inj hget
            rw [← heq, hnew hnone]
            exact ⟨Int.le_refl w, by rintro _ ⟨⟩⟩
        · exact h.marked t' m hget
      · have hbound := h.bounded
        show b.staleMarketNs ≤ b.observedMarketNs + (b.markets.set t _).sum _
        rw [Dict.sum_set, Dict.erase_of_get?_eq_none hnone, hnew hnone]
        show _ ≤ b.observedMarketNs + (w - w + _)
        omega

theorem freshen_of_fresh {t : Ticker} {w : Int}
    (h : ∀ m, b.markets.get? t = some m → m.staleSinceWallNs = none) : b.freshen t w = b := by
  rw [freshen]
  split
  · rfl
  · next m hget => rw [h m hget]

theorem observe_of_get? {t : Ticker} {sid : Sid} {w : Int} {m : Market}
    (h : b.markets.get? t = some m) : b.observe t sid w = b := by
  rw [observe, h]

/-- The stretch a snapshot ends lies after the mark, and the snapshot is the
new mark. -/
theorem Timed.freshen {t : Ticker} {w since : Int} {m : Market} (h : b.Timed marks)
    (hget : b.markets.get? t = some m) (hsince : m.staleSinceWallNs = some since)
    (hlater : since ≤ w) (hmark : marks' t = w)
    (hothers : ∀ t', t ≠ t' → ∀ m, b.markets.get? t' = some m → marks' t' = marks t') :
    (b.freshen t w).Timed marks' := by
  have hstart := (h.marked t m hget).1
  have hafter := (h.marked t m hget).2 since hsince
  rw [Books.freshen, hget]
  dsimp only
  rw [hsince]
  refine ⟨fun t' m' hget' => ?_, ?_⟩
  · rw [Dict.get?_set] at hget'
    split at hget'
    · next heq =>
        obtain rfl := Option.some.inj hget'
        rw [← heq, hmark]
        exact ⟨by show m.sinceWallNs ≤ w; omega, by rintro _ ⟨⟩⟩
    · next hne =>
        rw [hothers t' hne m' hget']
        exact h.marked t' m' hget'
  · have hbound := h.bounded
    have hrest : ((b.markets.erase t).sum fun t' m' => marks' t' - m'.sinceWallNs) =
        (b.markets.erase t).sum fun t' m' => marks t' - m'.sinceWallNs := by
      refine Dict.sum_congr fun t' m' hget' => ?_
      rw [Dict.get?_erase] at hget'
      split at hget'
      · cases hget'
      · next hne => rw [hothers t' hne m' hget']
    rw [Dict.sum_of_get? _ hget] at hbound
    show b.staleMarketNs + (w - since) ≤ b.observedMarketNs + 0 + (b.markets.set t _).sum _
    rw [Dict.sum_set, hrest, hmark]
    show _ ≤ b.observedMarketNs + 0 + (w - m.sinceWallNs + _)
    omega

/-- What a market that ends adds to the two times. -/
theorem staleAt_le {w mark : Int} {m : Market} (hstart : m.sinceWallNs ≤ mark)
    (hafter : ∀ since ∈ m.staleSinceWallNs, mark ≤ since)
    (hend : mark ≤ w ∨ mark = m.sinceWallNs) :
    staleAt w m + (mark - m.sinceWallNs) ≤ observedAt w m := by
  rw [staleAt, observedAt]
  cases hsince : m.staleSinceWallNs with
  | none =>
      show 0 + _ ≤ _
      omega
  | some since =>
      have hle := hafter since hsince
      show max 0 (w - since) + _ ≤ _
      omega

theorem Timed.leave {t : Ticker} {w : Int} (h : b.Timed marks)
    (hend : ∀ m ∈ b.markets.get? t, marks t ≤ w ∨ marks t = m.sinceWallNs) :
    (b.leave t w).Timed marks := by
  rw [Books.leave]
  split
  · exact h
  · next m hget =>
      obtain ⟨hstart, hafter⟩ := h.marked t m hget
      refine ⟨fun t' m' hget' => ?_, ?_⟩
      · rw [Books.addBookTime, Dict.get?_erase] at hget'
        split at hget'
        · cases hget'
        · exact h.marked t' m' hget'
      · have hbound := h.bounded
        rw [Dict.sum_of_get? _ hget] at hbound
        have hle := staleAt_le hstart hafter (hend m hget)
        show b.staleMarketNs + staleAt w m ≤ b.observedMarketNs + observedAt w m +
          (b.markets.erase t).sum _
        omega

theorem get?_leave {t t' : Ticker} {w : Int} {m : Market}
    (h : (b.leave t w).markets.get? t' = some m) : b.markets.get? t' = some m := by
  rw [leave] at h
  split at h
  · exact h
  · rw [addBookTime, Dict.get?_erase] at h
    split at h
    · cases h
    · exact h

theorem Timed.leaveAll {tickers : List Ticker} {w : Int} (h : b.Timed marks)
    (hend : ∀ t ∈ tickers, ∀ m ∈ b.markets.get? t, marks t ≤ w ∨ marks t = m.sinceWallNs) :
    (b.leaveAll tickers w).Timed marks := by
  induction tickers generalizing b with
  | nil => exact h
  | cons t rest ih =>
      exact ih (h.leave (hend t List.mem_cons_self)) fun t' ht' m hget =>
        hend t' (List.mem_cons_of_mem _ ht') m (get?_leave hget)

/-- The markets a gap stales were last marked before it. -/
theorem Timed.staled {sid : Sid} {w : Int} (h : b.Timed marks)
    (hbefore : ∀ t m, b.markets.get? t = some m → m.sid = sid → m.staleSinceWallNs = none →
      marks t ≤ w) :
    { b with markets := b.markets.mapValues fun _ market => Books.staled sid w market }.Timed
      marks := by
  refine ⟨fun t m hget => ?_, ?_⟩
  · rw [Dict.get?_mapValues] at hget
    obtain ⟨m₀, hget₀, rfl⟩ := Option.map_eq_some_iff.mp hget
    obtain ⟨hstart, hafter⟩ := h.marked t m₀ hget₀
    rw [Books.staled]
    split
    · next hstale =>
        refine ⟨hstart, fun since hsince => ?_⟩
        obtain rfl := Option.some.inj hsince
        exact hbefore t m₀ hget₀ hstale.1 hstale.2
    · exact ⟨hstart, hafter⟩
  · have hsum : ((b.markets.mapValues fun _ market => Books.staled sid w market).sum
          fun t m => marks t - m.sinceWallNs) =
        b.markets.sum fun t m => marks t - m.sinceWallNs := by
      rw [Dict.sum_mapValues]
      refine Dict.sum_congr fun t m _ => ?_
      rw [Books.staled]
      split
      · rfl
      · rfl
    exact h.bounded.trans (Int.le_of_eq (congrArg (b.observedMarketNs + ·) hsum.symm))

theorem Timed.closeSpan (h : b.Timed marks) : b.closeSpan.Timed marks := by
  rw [Books.closeSpan]
  split
  · exact ⟨h.marked, h.bounded⟩
  · exact h

theorem Timed.connected (h : b.Timed marks) (connection : ConnectionPayload) :
    (b.connected connection).Timed marks := by
  rw [Books.connected]
  split
  · exact ⟨h.closeSpan.marked, h.closeSpan.bounded⟩
  · split
    · exact h.closeSpan
    · split
      · exact ⟨h.marked, h.bounded⟩
      · exact h

theorem Timed.addAudit (h : b.Timed marks) (audit : AuditPayload) :
    (b.addAudit audit).Timed marks := by
  rw [Books.addAudit]
  split
  · exact h
  · split
    · exact ⟨h.marked, h.bounded⟩
    · exact h

end Books

namespace Segment

/-- The marks after a record. -/
def marked (d : Decoders) (s : Segment) (marks : Ticker → Int) (r : Record) : Ticker → Int :=
  fun t =>
    match s.markets.get? t with
    | none => r.recvWallNs
    | some market =>
        if market.staleSinceWallNs.isSome = true ∧
            (snapshotOf d s.useYesPrice r).map BookSnapshot.ticker = some t then
          r.recvWallNs
        else marks t

/-- The markets that a gap stales were last marked before it, and the markets
a command ends were marked before it or not since their first book message. -/
def Steady (d : Decoders) (s : Segment) (marks : Ticker → Int) (r : Record) : Prop :=
  (∀ gap ∈ gapOf d r, ∀ t ∈ s.staled gap.sid, ∀ m ∈ s.markets.get? t,
    m.staleSinceWallNs = none → marks t ≤ r.recvWallNs) ∧
  ∀ command ∈ commandOf d r, ∀ t ∈ s.leaves command.1 command.2, ∀ m ∈ s.markets.get? t,
    marks t ≤ r.recvWallNs ∨ marks t = m.sinceWallNs

instance (d : Decoders) (s : Segment) (marks : Ticker → Int) (r : Record) :
    Decidable (s.Steady d marks r) :=
  inferInstanceAs (Decidable (_ ∧ _))

variable {d : Decoders} {s s' : Segment} {r : Record} {marks : Ticker → Int}

theorem marked_of_none {t : Ticker} (h : s.markets.get? t = none) :
    s.marked d marks r t = r.recvWallNs := by
  rw [marked, h]

theorem marked_of_other {t : Ticker} {m : Market} (h : s.markets.get? t = some m)
    (hother : ∀ image ∈ snapshotOf d s.useYesPrice r, image.ticker = t →
      m.staleSinceWallNs = none) : s.marked d marks r t = marks t := by
  rw [marked, h]
  refine if_neg ?_
  rintro ⟨hstale, himage⟩
  obtain ⟨image, hof, ht⟩ := Option.map_eq_some_iff.mp himage
  rw [hother image hof ht] at hstale
  cases hstale

/-- A snapshot starts a market, or ends the stretch it was stale, and marks it
in both cases; of a market that is fresh it changes nothing. -/
theorem timed_shown {image : BookSnapshot} (htimed : s.books.Timed marks)
    (hof : snapshotOf d s.useYesPrice r = some image)
    (hlater : ∀ m ∈ s.markets.get? image.ticker, ∀ since ∈ m.staleSinceWallNs,
      since ≤ r.recvWallNs) :
    ((s.books.observe image.ticker image.sid r.recvWallNs).freshen image.ticker
      r.recvWallNs).Timed (s.marked d marks r) := by
  have hsame : ∀ {image'}, image' ∈ snapshotOf d s.useYesPrice r → image' = image :=
    fun hof' => Option.some.inj (hof'.symm.trans hof)
  have hothers : ∀ t, image.ticker ≠ t → ∀ m, s.books.markets.get? t = some m →
      s.marked d marks r t = marks t := by
    intro t hne m hget
    refine marked_of_other hget fun image' hof' ht => absurd ?_ hne
    rw [← hsame hof']
    exact ht
  cases hget : s.books.markets.get? image.ticker with
  | none =>
      have hall : s.books.Timed (s.marked d marks r) := htimed.congr fun t m ht =>
        hothers t (fun heq => by rw [heq, ht] at hget; cases hget) m ht
      rw [Books.freshen_of_fresh]
      · exact hall.observe (fun _ => marked_of_none hget) image.sid
      · intro m hseen
        rcases Books.get?_observe hseen with hold | ⟨-, -, rfl⟩
        · rw [hget] at hold
          cases hold
        · rfl
  | some m =>
      have honly : ∀ {m'}, s.books.markets.get? image.ticker = some m' → m' = m :=
        fun hget' => Option.some.inj (hget'.symm.trans hget)
      rw [Books.observe_of_get? hget]
      cases hsince : m.staleSinceWallNs with
      | none =>
          rw [Books.freshen_of_fresh fun m' hget' => by rw [honly hget', hsince]]
          refine htimed.congr fun t m' ht => marked_of_other ht fun image' hof' heq => ?_
          rw [hsame hof'] at heq
          have hm : m' = m := honly (heq ▸ ht)
          rw [hm, hsince]
      | some since =>
          have hmark : s.marked d marks r image.ticker = r.recvWallNs := by
            rw [marked, show s.markets.get? image.ticker = some m from hget]
            refine if_pos ⟨?_, ?_⟩
            · rw [hsince]
              rfl
            · rw [hof]
              rfl
          exact htimed.freshen hget hsince (hlater m hget since hsince) hmark hothers

theorem BookStep.timed (h : BookStep d s s' r) (htimed : s.books.Timed marks)
    (hforward : s.Forward d r) (hsteady : s.Steady d marks r) :
    s'.books.Timed (s.marked d marks r) := by
  have hidle : snapshotOf d s.useYesPrice r = none → s.books.Timed (s.marked d marks r) :=
    fun hof => htimed.congr fun t m hget => marked_of_other hget (by rw [hof]; exact nofun)
  have hnone : r.kind ≠ .frame → s.books.Timed (s.marked d marks r) :=
    fun hk => hidle (snapshotOf_of_kind hk)
  have hold : r.kind ≠ .frame → ∀ t m, s.markets.get? t = some m →
      s.marked d marks r t = marks t :=
    fun hk t m hget => marked_of_other hget (by rw [snapshotOf_of_kind hk]; exact nofun)
  cases h with
  | same hof h =>
      rw [h]
      exact hidle hof
  | seen ticker sid hof h =>
      rw [h]
      exact (hidle hof).observe marked_of_none sid
  | shown image hof h =>
      rw [h]
      exact timed_shown htimed hof fun m hget => hforward.1 image hof m hget
  | left cmd params hof h =>
      have hk : r.kind ≠ .frame := fun hk => by
        rw [commandOf, hk] at hof
        cases hof
      rw [h]
      refine (hnone hk).leaveAll fun t ht m hget => ?_
      rw [hold hk t m hget]
      exact hsteady.2 (cmd, params) hof t ht m hget
  | staled gap hof markets hmarkets h =>
      have hk : r.kind ≠ .frame := fun hk => by
        rw [gapOf, hk] at hof
        cases hof
      have hidle := hnone hk
      rw [h]
      rcases hmarkets with rfl | ⟨hbook, rfl⟩
      · exact ⟨hidle.marked, hidle.bounded⟩
      · have hstaled := hidle.staled fun t m hget hsid hfresh => by
          rw [hold hk t m hget]
          exact hsteady.1 gap hof t (mem_staled.mpr ⟨hbook, m, hget, hsid⟩) m hget hfresh
        exact ⟨hstaled.marked, hstaled.bounded⟩
  | audited audit hof h =>
      have hk : r.kind ≠ .frame := fun hk => by
        rw [auditOf, hk] at hof
        cases hof
      rw [h]
      exact (hnone hk).addAudit audit
  | connected connection hof h =>
      have hk : r.kind ≠ .frame := fun hk => by
        rw [connectionOf, hk] at hof
        cases hof
      rw [h]
      exact (hnone hk).connected connection

/-! ## A whole segment -/

/-- The first record opens a span, or tells that none is open. -/
theorem books_arrive (d : Decoders) (s : Segment) (r : Record) :
    ∃ spanOpen, (s.arrive d r).books =
      { s.books with spanOpen, lastWallNs := some r.recvWallNs } := by
  rw [arrive]
  cases s.firstWallNs with
  | some _ => exact ⟨s.spanStart.isSome, rfl⟩
  | none =>
      dsimp only
      rw [begin]
      split
      · exact ⟨s.spanStart.isSome, rfl⟩
      · exact ⟨true, rfl⟩

theorem kept_arrive (h : s.books.Kept) : (s.arrive d r).books.Kept := by
  obtain ⟨spanOpen, hbooks⟩ := books_arrive d s r
  rw [hbooks]
  exact { h with }

theorem timed_arrive (h : s.books.Timed marks) : (s.arrive d r).books.Timed marks := by
  obtain ⟨spanOpen, hbooks⟩ := books_arrive d s r
  rw [hbooks]
  exact ⟨h.marked, h.bounded⟩

theorem feed_bookStep (h : s.feed d r = .ok s') : BookStep d (s.arrive d r) s' r := by
  rw [feed] at h
  split at h
  · cases h
  · next s₁ hstep =>
      obtain rfl := Except.ok.inj h
      have hbook : BookStep d (s.arrive d r) s₁ r := interpret_bookStep hstep
      cases hbook with
      | same hof h => exact .same hof h
      | seen ticker sid hof h => exact .seen ticker sid hof h
      | shown image hof h => exact .shown image hof h
      | left cmd params hof h => exact .left cmd params hof h
      | staled gap hof markets hmarkets h => exact .staled gap hof markets hmarkets h
      | audited audit hof h => exact .audited audit hof h
      | connected connection hof h => exact .connected connection hof h

/-- Every record is forward in the state it is fed in, and the last closes no
span of a connection with a negative number. -/
def ForwardRun (d : Decoders) (s : Segment) : List Record → Prop
  | [] => s.spanStart.isSome = true → 0 ≤ s.connId
  | r :: rest => (s.arrive d r).Forward d r ∧ ∀ s' ∈ (s.feed d r).toOption, ForwardRun d s' rest

/-- Every record is steady in the state it is fed in, and the last is not
stamped before what was last recorded of a market it ends. -/
def SteadyRun (d : Decoders) (s : Segment) (marks : Ticker → Int) : List Record → Prop
  | [] => ∀ last ∈ s.lastWallNs, ∀ e ∈ s.markets.entries,
      marks e.1 ≤ last ∨ marks e.1 = e.2.sinceWallNs
  | r :: rest => (s.arrive d r).Steady d marks r ∧ ∀ s' ∈ (s.feed d r).toOption,
      SteadyRun d s' ((s.arrive d r).marked d marks r) rest

instance decidableForwardRun (d : Decoders) :
    (s : Segment) → (records : List Record) → Decidable (s.ForwardRun d records)
  | s, [] => inferInstanceAs (Decidable (s.spanStart.isSome = true → 0 ≤ s.connId))
  | s, r :: rest =>
      have := fun s' => decidableForwardRun d s' rest
      inferInstanceAs (Decidable ((s.arrive d r).Forward d r ∧
        ∀ s' ∈ (s.feed d r).toOption, s'.ForwardRun d rest))

instance decidableSteadyRun (d : Decoders) :
    (s : Segment) → (marks : Ticker → Int) → (records : List Record) →
      Decidable (s.SteadyRun d marks records)
  | s, marks, [] => inferInstanceAs (Decidable (∀ last ∈ s.lastWallNs, ∀ e ∈ s.markets.entries,
      marks e.1 ≤ last ∨ marks e.1 = e.2.sinceWallNs))
  | s, marks, r :: rest =>
      have := fun s' => decidableSteadyRun d s' ((s.arrive d r).marked d marks r) rest
      inferInstanceAs (Decidable ((s.arrive d r).Steady d marks r ∧
        ∀ s' ∈ (s.feed d r).toOption, s'.SteadyRun d ((s.arrive d r).marked d marks r) rest))

theorem endMarkets_books (s : Segment) (w : Int) :
    (s.endMarkets w).books = s.books.addBookTime
      (s.markets.sum fun _ => Books.observedAt w) (s.markets.sum fun _ => Books.staleAt w) := by
  have hfold : ∀ (l : List Market) (s : Segment),
      (l.foldl (fun s market => s.endMarket market w) s).books =
        s.books.addBookTime (l.map (Books.observedAt w)).sum (l.map (Books.staleAt w)).sum := by
    intro l
    induction l with
    | nil => intro s; simp [Books.addBookTime]
    | cons m l ih =>
        intro s
        rw [List.foldl_cons, ih]
        show (s.books.addBookTime (Books.observedAt w m) (Books.staleAt w m)).addBookTime _ _ = _
        simp [Books.addBookTime, Int.add_assoc]
  rw [endMarkets, hfold, Dict.sum_values, Dict.sum_values]

theorem books_ended (s : Segment) : s.ended.books = s.books.ended := by
  have hlast : s.books.lastWallNs = s.lastWallNs := rfl
  rw [ended, Books.ended, hlast]
  cases s.lastWallNs with
  | none => rfl
  | some last =>
      dsimp only
      rw [books_closeSpan, endMarkets_books]
      rfl

end Segment

namespace Books

variable {b : Books} {marks : Ticker → Int}

theorem Kept.ended (h : b.Kept) (hid : b.spanOpen = true → 0 ≤ b.connId) : b.ended.Kept := by
  rw [Books.ended]
  split
  · exact h
  · next last _ =>
      exact (h.addBookTime (Dict.sum_nonneg (fun _ => le_observedAt last) _)
        (Dict.sum_nonneg (fun _ => le_staleAt last) _)).closeSpan hid

theorem Timed.ended (h : b.Timed marks) (hnone : b.lastWallNs = none → b.markets = ∅)
    (hend : ∀ last ∈ b.lastWallNs, ∀ e ∈ b.markets.entries,
      marks e.1 ≤ last ∨ marks e.1 = e.2.sinceWallNs) :
    b.ended.staleMarketNs ≤ b.ended.observedMarketNs := by
  have hbound := h.bounded
  rw [Books.ended]
  split
  · next hlast =>
      rw [hnone hlast, Dict.sum_empty, Int.add_zero] at hbound
      exact hbound
  · next last hlast =>
      obtain ⟨hstale, hobserved⟩ := closeSpan_times (b.addBookTime
        (b.markets.sum fun _ => observedAt last) (b.markets.sum fun _ => staleAt last))
      rw [hstale, hobserved]
      -- market by market, what ends is no more stale than it was observed
      have hle : (b.markets.sum fun t m => staleAt last m + (marks t - m.sinceWallNs)) ≤
          b.markets.sum fun _ => observedAt last := by
        refine Dict.sum_le fun t m hget => ?_
        obtain ⟨hstart, hafter⟩ := h.marked t m hget
        exact staleAt_le hstart hafter (hend last hlast (t, m) (Dict.get?_eq_some_iff.mp hget))
      rw [Dict.sum_add] at hle
      show b.staleMarketNs + _ ≤ b.observedMarketNs + _
      omega

end Books

namespace Segment

variable {d : Decoders} {s s' : Segment} {r : Record} {marks : Ticker → Int}

variable {records : List Record}

theorem feedAll_kept (h : s.feedAll d records = .ok s') (hkept : s.books.Kept)
    (hforward : s.ForwardRun d records) : s'.books.ended.Kept := by
  induction records generalizing s with
  | nil =>
      obtain rfl := Except.ok.inj h
      exact hkept.ended hforward
  | cons r rest ih =>
      rw [feedAll] at h
      split at h
      · cases h
      · next s₁ hfeed =>
          have hstep := (feed_bookStep hfeed).kept (kept_arrive hkept) hforward.1
          exact ih h hstep (hforward.2 s₁ (by rw [hfeed]; rfl))

theorem feedAll_timed (h : s.feedAll d records = .ok s') (htimed : s.books.Timed marks)
    (hnone : s.lastWallNs = none → s.markets = ∅) (hforward : s.ForwardRun d records)
    (hsteady : s.SteadyRun d marks records) :
    s'.books.ended.staleMarketNs ≤ s'.books.ended.observedMarketNs := by
  induction records generalizing s marks with
  | nil =>
      obtain rfl := Except.ok.inj h
      exact htimed.ended hnone hsteady
  | cons r rest ih =>
      rw [feedAll] at h
      split at h
      · cases h
      · next s₁ hfeed =>
          have hbook := feed_bookStep hfeed
          have hstep := hbook.timed (timed_arrive htimed) hforward.1 hsteady.1
          have hlast : s₁.lastWallNs = some r.recvWallNs := by
            obtain ⟨spanOpen, harrive⟩ := books_arrive d s r
            exact hbook.last.trans (congrArg Books.lastWallNs harrive)
          refine ih h hstep (fun hnone => ?_) (hforward.2 s₁ (by rw [hfeed]; rfl))
            (hsteady.2 s₁ (by rw [hfeed]; rfl))
          rw [hlast] at hnone
          cases hnone

end Segment

/-! ## A whole hour -/

namespace HourInterpreter

variable {d : Decoders} {h h' : HourInterpreter} {readings : List Reading}

/-- No count of an hour is negative. -/
structure Kept (h : HourInterpreter) : Prop where
  stale : 0 ≤ h.staleMarketNs
  observed : 0 ≤ h.observedMarketNs
  gaps : 0 ≤ h.gapCount
  levels : 0 ≤ h.levelsMismatched
  dropped : 0 ≤ h.overflowDropped
  spanned : ∀ span ∈ h.spans, 0 ≤ span.connId

/-- The records of every segment read are forward. -/
def Forward (d : Decoders) (h : HourInterpreter) : List Reading → Prop
  | [] => True
  | .corrupt name detail recordIndex :: rest =>
      Forward d (h.corruptSegment name detail recordIndex) rest
  | .segment name header source :: rest =>
      (Segment.new h name header).ForwardRun d source.records ∧
        ∀ read ∈ (h.readSegment d name header source).toOption, Forward d read.1 rest

/-- The records of every segment read are steady. -/
def Steady (d : Decoders) (h : HourInterpreter) : List Reading → Prop
  | [] => True
  | .corrupt name detail recordIndex :: rest =>
      Steady d (h.corruptSegment name detail recordIndex) rest
  | .segment name header source :: rest =>
      (Segment.new h name header).SteadyRun d (fun _ => 0) source.records ∧
        ∀ read ∈ (h.readSegment d name header source).toOption, Steady d read.1 rest

instance decidableForward (d : Decoders) :
    (h : HourInterpreter) → (readings : List Reading) → Decidable (h.Forward d readings)
  | _, [] => isTrue trivial
  | h, .corrupt name detail recordIndex :: rest =>
      decidableForward d (h.corruptSegment name detail recordIndex) rest
  | h, .segment name header source :: rest =>
      have := fun h' => decidableForward d h' rest
      inferInstanceAs (Decidable ((Segment.new h name header).ForwardRun d source.records ∧
        ∀ read ∈ (h.readSegment d name header source).toOption, Forward d read.1 rest))

instance decidableSteady (d : Decoders) :
    (h : HourInterpreter) → (readings : List Reading) → Decidable (h.Steady d readings)
  | _, [] => isTrue trivial
  | h, .corrupt name detail recordIndex :: rest =>
      decidableSteady d (h.corruptSegment name detail recordIndex) rest
  | h, .segment name header source :: rest =>
      have := fun h' => decidableSteady d h' rest
      inferInstanceAs (Decidable ((Segment.new h name header).SteadyRun d (fun _ => 0)
          source.records ∧
        ∀ read ∈ (h.readSegment d name header source).toOption, Steady d read.1 rest))

theorem kept_new (startWallNs : Int) : (new startWallNs).Kept :=
  ⟨Int.le_refl 0, Int.le_refl 0, Int.le_refl 0, Int.le_refl 0, Int.le_refl 0, nofun⟩

/-- What is left of a segment in its hour is what its books end with. -/
theorem readSegment_books {name : String} {header : SegmentHeader} {source : RecordSource}
    {facts : SegmentFacts} (hread : h.readSegment d name header source = .ok (h', facts)) :
    ∃ s s' : Segment, (Segment.new h name header).feedAll d source.records = .ok s ∧
      s'.hour = h' ∧ s'.books = s.books.ended := by
  rw [readSegment] at hread
  cases hfeed : (Segment.new h name header).feedAll d source.records with
  | error e =>
      rw [hfeed] at hread
      cases hread
  | ok s =>
      rw [hfeed] at hread
      have hfinish : ∀ s : Segment, s.finish.1.books = s.books.ended := fun s =>
        (Segment.books_emitAll _ _ _).trans s.books_ended
      obtain ⟨rfl, -⟩ := Prod.mk.inj (Except.ok.inj hread)
      cases source.corruption with
      | none =>
          exact ⟨s, { s.finish.1 with hour := { s.finish.1.hour with
            lostConnection := s.finish.1.hour.lostConnection.set header.connId s.lostConnection } },
            rfl, rfl, hfinish s⟩
      | some detail =>
          let s₁ := s.onHour fun h => h.corruptSegment name detail s.records
          exact ⟨s, { s₁.finish.1 with hour := { s₁.finish.1.hour with
            lostConnection := s₁.finish.1.hour.lostConnection.set header.connId
              s₁.lostConnection } }, rfl, rfl, hfinish s₁⟩

theorem Kept.readSegment {name : String} {header : SegmentHeader} {source : RecordSource}
    {facts : SegmentFacts} (hkept : h.Kept)
    (hread : h.readSegment d name header source = .ok (h', facts))
    (hforward : (Segment.new h name header).ForwardRun d source.records) : h'.Kept := by
  obtain ⟨s, s', hfeed, rfl, hbooks⟩ := readSegment_books hread
  have hnew : (Segment.new h name header).books.Kept := by
    refine { hkept with spanned := fun id hid => ?_ }
    obtain ⟨span, hspan, rfl⟩ := List.mem_map.mp hid
    exact hkept.spanned span hspan
  have hend := Segment.feedAll_kept hfeed hnew hforward
  rw [← hbooks] at hend
  exact { hend with
    spanned := fun span hspan => hend.spanned span.connId (List.mem_map_of_mem hspan) }

/-- A segment starts with no market to be timed. -/
theorem timed_readSegment {name : String} {header : SegmentHeader} {source : RecordSource}
    {facts : SegmentFacts} (hle : h.staleMarketNs ≤ h.observedMarketNs)
    (hread : h.readSegment d name header source = .ok (h', facts))
    (hforward : (Segment.new h name header).ForwardRun d source.records)
    (hsteady : (Segment.new h name header).SteadyRun d (fun _ => 0) source.records) :
    h'.staleMarketNs ≤ h'.observedMarketNs := by
  obtain ⟨s, s', hfeed, rfl, hbooks⟩ := readSegment_books hread
  have hnew : (Segment.new h name header).books.Timed fun _ => 0 := by
    refine ⟨fun t m hget => ?_, ?_⟩
    · cases hget
    · show h.staleMarketNs ≤ h.observedMarketNs + 0
      omega
  have hend := Segment.feedAll_timed hfeed hnew (fun _ => rfl) hforward hsteady
  rw [← hbooks] at hend
  exact hend

/-- An hour whose records are forward counts nothing negative, and one whose
records are steady besides no more stale time than observed time. -/
theorem Kept.readAll (hkept : h.Kept) (hread : h.readAll d readings = .ok h')
    (hforward : h.Forward d readings) : h'.Kept := by
  induction readings generalizing h with
  | nil =>
      obtain rfl := Except.ok.inj hread
      exact hkept
  | cons reading rest ih =>
      rw [HourInterpreter.readAll] at hread
      cases reading with
      | corrupt name detail recordIndex =>
          have hcorrupt : (h.corruptSegment name detail recordIndex).Kept := { hkept with }
          exact ih hcorrupt hread hforward
      | segment name header source =>
          rw [HourInterpreter.read] at hread
          cases hsegment : h.readSegment d name header source with
          | error e =>
              rw [hsegment] at hread
              cases hread
          | ok read =>
              rw [hsegment] at hread
              exact ih (hkept.readSegment hsegment hforward.1) hread
                (hforward.2 read (by rw [hsegment]; rfl))

theorem timed_readAll (hle : h.staleMarketNs ≤ h.observedMarketNs)
    (hread : h.readAll d readings = .ok h') (hforward : h.Forward d readings)
    (hsteady : h.Steady d readings) : h'.staleMarketNs ≤ h'.observedMarketNs := by
  induction readings generalizing h with
  | nil =>
      obtain rfl := Except.ok.inj hread
      exact hle
  | cons reading rest ih =>
      rw [HourInterpreter.readAll] at hread
      cases reading with
      | corrupt name detail recordIndex =>
          have hcorrupt : (h.corruptSegment name detail recordIndex).staleMarketNs ≤
              (h.corruptSegment name detail recordIndex).observedMarketNs := hle
          exact ih hcorrupt hread hforward hsteady
      | segment name header source =>
          rw [HourInterpreter.read] at hread
          cases hsegment : h.readSegment d name header source with
          | error e =>
              rw [hsegment] at hread
              cases hread
          | ok read =>
              rw [hsegment] at hread
              exact ih (timed_readSegment hle hsegment hforward.1 hsteady.1) hread
                (hforward.2 read (by rw [hsegment]; rfl)) (hsteady.2 read (by rw [hsegment]; rfl))

end HourInterpreter

end Tape.Bake
