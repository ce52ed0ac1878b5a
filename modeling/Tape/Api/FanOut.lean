import Tape.Api.Client

/-!
# What a follower is told of a bus message

The outbox, read for one session: for each change of a market it follows the
announcement, and then the message of the event itself. A client that knew what
the copies were before the message knows what they are after it
(`knows_observed`). The one thing it is not told is a refresh of a copy that is
held, which therefore must not change its levels.
-/

namespace Tape.Api

namespace LiveHub

instance (index : Index) (t : Ticker) (id : SessionId) : Decidable (Follows index t id) :=
  inferInstanceAs (Decidable (id ∈ _))

variable {h : LiveHub} {id : SessionId} {t : Ticker}

theorem contains_of_follows (hf : Follows h.followers t id) :
    h.followers.contains t = true := by
  rw [Dict.contains]
  cases hget : h.followers.get? t with
  | none => exact absurd hf (not_follows_of_none hget id)
  | some ids => rfl

/-- What a follower of the market is sent. -/
def sentTo (h : LiveHub) (id : SessionId) (t : Ticker) (m : ServerMessage) :
    List ServerMessage := if Follows h.followers t id then [m] else []

/-- What a session is told of a change. -/
def told (h : LiveHub) (id : SessionId) (change : StatusChange) : List ServerMessage :=
  (h.announcement change).toList.flatMap (h.sentTo id change.ticker)

/-- What a session is told of the event itself. -/
def toldEvent (h : LiveHub) (id : SessionId) (applied : Bool) (snapshotted : List Ticker)
    (event : BusEvent) : List ServerMessage :=
  (h.eventMessage applied snapshotted event).toList.flatMap fun e => h.sentTo id e.1 e.2

theorem getD_send (h : LiveHub) (outbox : Outbox) (t : Ticker) (m : ServerMessage)
    (id : SessionId) :
    (h.send outbox t m).getD id [] = outbox.getD id [] ++ h.sentTo id t m := by
  have hkeys : ∀ (keys : List SessionId) (outbox : Outbox), keys.Nodup →
      (keys.foldl (fun outbox id => outbox.set id (outbox.getD id [] ++ [m])) outbox).getD id [] =
        outbox.getD id [] ++ if id ∈ keys then [m] else [] := by
    intro keys
    induction keys with
    | nil => exact fun outbox _ => (List.append_nil _).symm
    | cons key keys ih =>
        intro outbox hn
        obtain ⟨hout, hn⟩ := List.nodup_cons.mp hn
        rw [List.foldl_cons, ih _ hn, Dict.getD, Dict.get?_set]
        by_cases hid : key = id
        · subst hid
          rw [if_pos rfl, if_neg hout, if_pos List.mem_cons_self, List.append_nil]
          rfl
        · have hmem : id ∈ key :: keys ↔ id ∈ keys := by simp [Ne.symm hid]
          rw [if_neg hid]
          simp only [hmem]
          rfl
  exact hkeys _ outbox (h.followers.getD t ∅).nodup

theorem told_eq_nil {change : StatusChange} (hf : ¬ Follows h.followers change.ticker id) :
    h.told id change = [] := by
  rw [told, List.flatMap_eq_nil_iff]
  exact fun m _ => if_neg hf

/-- The outbox of the changes, for one session. -/
theorem getD_announce (changes : List StatusChange) (outbox : Outbox)
    (snapshotted : List Ticker) :
    (h.announce changes outbox snapshotted).1.getD id [] =
      outbox.getD id [] ++ changes.flatMap (h.told id) := by
  induction changes generalizing outbox snapshotted with
  | nil => exact (List.append_nil _).symm
  | cons change rest ih =>
      rw [announce, List.flatMap_cons]
      split
      · next hnone =>
          have hf : ¬ Follows h.followers change.ticker id := fun hf =>
            hnone (contains_of_follows hf)
          rw [ih, told_eq_nil hf, List.nil_append]
      · dsimp only
        split
        · next hno =>
            rw [ih, told, hno]
            rfl
        · next m hm =>
            rw [ih, getD_send, told, hm, List.append_assoc]
            simp

/-- The markets of a follower that a change sent a snapshot of. -/
theorem mem_announce_snapshotted (hf : Follows h.followers t id) (changes : List StatusChange)
    (outbox : Outbox) (snapshotted : List Ticker) :
    t ∈ (h.announce changes outbox snapshotted).2 ↔
      t ∈ snapshotted ∨ ∃ change ∈ changes, change.ticker = t ∧ h.snapshots change = true := by
  induction changes generalizing outbox snapshotted with
  | nil => simp [announce]
  | cons change rest ih =>
      have hsplit : (∃ c ∈ change :: rest, c.ticker = t ∧ h.snapshots c = true) ↔
          (change.ticker = t ∧ h.snapshots change = true) ∨
            ∃ c ∈ rest, c.ticker = t ∧ h.snapshots c = true := by
        simp only [List.mem_cons, or_and_right, exists_or, exists_eq_left]
      rw [announce, hsplit]
      split
      · next hnone =>
          have hne : change.ticker ≠ t := by
            rintro rfl
            exact hnone (contains_of_follows hf)
          rw [ih]
          simp [hne]
      · have hsnapshotted : t ∈ (if h.snapshots change = true then snapshotted ++ [change.ticker]
            else snapshotted) ↔ t ∈ snapshotted ∨
              change.ticker = t ∧ h.snapshots change = true := by
          split
          · next hs => simp [hs, eq_comm]
          · next hs => simp [hs]
        dsimp only
        split
        · rw [ih, hsnapshotted, or_assoc]
        · rw [ih, hsnapshotted, or_assoc]

/-- What one session is offered for a bus message. -/
theorem getD_outbox (observation : Observation) (event : BusEvent) :
    (h.outbox observation event).getD id [] =
      observation.changes.flatMap (h.told id) ++
        h.toldEvent id observation.applied (h.announce observation.changes ∅ []).2 event := by
  have hannounced := @getD_announce h id observation.changes ∅ []
  have hempty : (∅ : Outbox).getD id [] = [] := rfl
  rw [hempty, List.nil_append] at hannounced
  rw [outbox, toldEvent, ← hannounced]
  rcases h.announce observation.changes ∅ [] with ⟨announced, snapshotted⟩
  dsimp only
  cases h.eventMessage observation.applied snapshotted event with
  | none => exact (List.append_nil _).symm
  | some e =>
      dsimp only
      rw [getD_send]
      simp

/-- A session is offered its part of the outbox, which may be nothing. -/
theorem offerAll_session (h : LiveHub) (nowNs : SessionId → Int) (outbox : Outbox)
    (id : SessionId) :
    (h.offerAll nowNs outbox).session id =
      (h.session id).offer h.snapshot (nowNs id) (outbox.getD id []) := by
  rw [(h.offerAll_spec nowNs outbox).session, Dict.getD]
  cases outbox.get? id with
  | some messages => rfl
  | none =>
      dsimp only
      rw [ClientSession.offer, if_pos (.inr (.inr rfl))]

end LiveHub

/-- What some copies say of a market, as a client sees it. -/
def viewOf (books : Dict Ticker Book) (t : Ticker) : Option ClientBook :=
  (books.get? t).map fun b => ⟨.of b, b.depth⟩

/-- The client knows what the copies say of the markets of a follower, and could
apply every delta. -/
structure Client.Knows (c : Client) (books : Dict Ticker Book) (index : Index)
    (id : SessionId) : Prop where
  applicable : c.inapplicable = 0
  books : ∀ t, LiveHub.Follows index t id → c.book t = viewOf books t

namespace Client

variable {c : Client} {h : LiveHub} {id : SessionId} {l : LiveBooks} {t : Ticker}

theorem setBook_eq_self {b : Option ClientBook} (hb : c.book t = b) : c.setBook t b = c := by
  subst hb
  exact congrArg (fun f => { c with book := f }) (Function.update_eq_self t c.book)

theorem viewOf_eq_none {books : Dict Ticker Book} (hb : books.get? t = none) :
    viewOf books t = none := by
  rw [viewOf, hb]
  rfl

/-! ## A reset -/

/-- Every copy that was held is announced as lost. -/
theorem knows_reset (hk : c.Knows l.books h.followers id) :
    (c.receiveAll (l.resetChanges.flatMap (h.told id))).Knows ∅ h.followers id := by
  have htickers : ∀ (tickers : List Ticker) (before : Ticker → BookStatus) (c : Client),
      (c.receiveAll ((tickers.map fun t => ⟨t, before t, .unknown⟩).flatMap
        (h.told id))).inapplicable = c.inapplicable ∧
      ∀ t, LiveHub.Follows h.followers t id →
        (c.receiveAll ((tickers.map fun t => ⟨t, before t, .unknown⟩).flatMap
          (h.told id))).book t = if t ∈ tickers then none else c.book t := by
    intro tickers before
    induction tickers with
    | nil => exact fun c => ⟨rfl, fun t _ => rfl⟩
    | cons u rest ih =>
        intro c
        rw [List.map_cons, List.flatMap_cons, receiveAll_append]
        have htold : h.told id ⟨u, before u, .unknown⟩ =
            h.sentTo id u (.resync u resyncBusLoss) := by
          simp [LiveHub.told, LiveHub.announcement]
        rw [htold, LiveHub.sentTo]
        split
        · obtain ⟨happlicable, hbook⟩ := ih (c.setBook u none)
          refine ⟨happlicable, fun t hf => (hbook t hf).trans ?_⟩
          rw [setBook_book]
          by_cases hu : t = u
          · simp [hu]
          · simp [hu]
        · next hout =>
            obtain ⟨happlicable, hbook⟩ := ih c
            refine ⟨happlicable, fun t hf => (hbook t hf).trans ?_⟩
            have hne : t ≠ u := by
              rintro rfl
              exact hout hf
            simp [hne]
  obtain ⟨happlicable, hbook⟩ := htickers (sortedTickers l.books.keys.toFinset) l.status c
  refine ⟨happlicable.trans hk.applicable, fun t hf => (hbook t hf).trans ?_⟩
  split
  · rfl
  · next hout =>
      rw [l.mem_resetTickers, not_not, l.status_eq_unknown_iff] at hout
      rw [hk.books t hf]
      exact viewOf_eq_none hout

/-! ## The event -/

/-- A change that leaves the market unknown. -/
theorem told_unknown {change : StatusChange} (hf : LiveHub.Follows h.followers change.ticker id)
    (hafter : change.after = .unknown) :
    h.told id change = [.resync change.ticker resyncBusLoss] := by
  rw [LiveHub.told, LiveHub.announcement, if_pos hafter]
  simp [LiveHub.sentTo, hf]

/-- A change that is announced with a snapshot. -/
theorem told_snapshot (hs : h.Sane) {change : StatusChange}
    (hf : LiveHub.Follows h.followers change.ticker id) (hafter : change.after ≠ .unknown)
    (hwhole : change.before = .unknown ∨ change.after = .fresh) (c : Client)
    (hheld : h.view change.ticker ≠ none) :
    c.receiveAll (h.told id change) = c.setBook change.ticker (h.view change.ticker) := by
  obtain ⟨m, hm⟩ := Option.ne_none_iff_exists'.mp fun hnone =>
    hheld (snapshot_eq_none_iff.mp hnone)
  rw [LiveHub.told, LiveHub.announcement, if_neg hafter, if_pos hwhole, hm]
  have hsent : h.sentTo id change.ticker m = [m] := if_pos hf
  simp only [Option.toList_some, List.flatMap_cons, List.flatMap_nil, List.append_nil, hsent]
  exact receive_snapshot hs c hm

/-- A change that is announced with the state alone. -/
theorem told_stale {change : StatusChange} (hf : LiveHub.Follows h.followers change.ticker id)
    (hafter : change.after ≠ .unknown)
    (hstate : ¬ (change.before = .unknown ∨ change.after = .fresh)) :
    h.told id change = [.book change.ticker .stale] := by
  rw [LiveHub.told, LiveHub.announcement, if_neg hafter, if_neg hstate]
  simp [LiveHub.sentTo, hf]

/-- What a follower makes of the change an event reports, if there is one. -/
theorem receiveAll_change (hs : h.Sane) (hf : LiveHub.Follows h.followers t id)
    {b b' : Option Book} (hbefore : c.book t = b.map fun b => ⟨.of b, b.depth⟩)
    (hafter : h.live.books.get? t = b')
    (hdepth : ∀ x y, b = some x → b' = some y →
      y.depth = x.depth ∨ x.stale = true ∧ y.stale = false) :
    c.receiveAll ((if BookStatus.of b' ≠ BookStatus.of b then
      [⟨t, BookStatus.of b, BookStatus.of b'⟩] else []).flatMap (h.told id)) =
      c.setBook t (h.view t) := by
  have hview : h.view t = b'.map fun b => ⟨.of b, b.depth⟩ := by
    rw [LiveHub.view, hafter]
  have hone : ∀ change : StatusChange, c.receiveAll ([change].flatMap (h.told id)) =
      c.receiveAll (h.told id change) := fun change => by
    rw [List.flatMap_singleton]
  cases b' with
  | none =>
      cases b with
      | none =>
          rw [if_neg (not_not.mpr rfl), hview]
          exact (setBook_eq_self hbefore).symm
      | some x =>
          have hne : BookStatus.of none ≠ BookStatus.of (some x) := by
            cases hx : x.stale <;> simp [BookStatus.of, hx]
          rw [if_pos hne, hone, told_unknown hf rfl, hview]
          rfl
  | some y =>
      have hheld : h.view t ≠ none := by
        rw [hview]
        rintro ⟨⟩
      have hknown : BookStatus.of (some y) ≠ .unknown := by
        cases hy : y.stale <;> simp [BookStatus.of, hy]
      cases b with
      | none =>
          have hne : BookStatus.of (some y) ≠ BookStatus.of none := hknown
          rw [if_pos hne, hone]
          exact told_snapshot hs hf hknown (.inl rfl) c hheld
      | some x =>
          by_cases hsame : x.stale = y.stale
          · have heq : BookStatus.of (some y) = BookStatus.of (some x) := by
              rw [BookStatus.of, BookStatus.of, hsame]
            have hlevels : y.depth = x.depth := by
              rcases hdepth x y rfl rfl with hlevels | ⟨hx, hy⟩
              · exact hlevels
              · rw [hsame, hy] at hx
                cases hx
            rw [if_neg (not_not.mpr heq), hview]
            refine (setBook_eq_self (hbefore.trans ?_)).symm
            rw [Option.map_some, Option.map_some, KnownBookState.of, KnownBookState.of, hsame,
              hlevels]
          · have hne : BookStatus.of (some y) ≠ BookStatus.of (some x) := by
              cases hx : x.stale <;> cases hy : y.stale <;> simp [BookStatus.of, hx, hy]
              · exact hsame (hx.trans hy.symm)
              · exact hsame (hx.trans hy.symm)
            rw [if_pos hne, hone]
            cases hy : y.stale with
            | false =>
                refine told_snapshot hs hf hknown (.inr ?_) c hheld
                simp [BookStatus.of, hy]
            | true =>
                have hx : x.stale = false := by
                  rw [hy] at hsame
                  exact Bool.eq_false_iff.mpr hsame
                have hlevels : y.depth = x.depth := by
                  refine (hdepth x y rfl rfl).resolve_right fun hboth => ?_
                  rw [hx] at hboth
                  cases hboth.1
                have hstate : ¬ (BookStatus.of (some x) = .unknown ∨
                    BookStatus.of (some y) = .fresh) := by
                  simp [BookStatus.of, hx, hy]
                rw [told_stale hf hknown hstate, receiveAll_cons, receiveAll_nil, receive,
                  hbefore, hview]
                simp [KnownBookState.of, hy, hlevels]

theorem apply_of_some {event : BusEvent} (ht : LiveBooks.bookTicker event = some t) :
    l.apply event = ((l.applyEvent event).1, (l.applyEvent event).2,
      if (l.applyEvent event).1.status t ≠ l.status t then
        [⟨t, l.status t, (l.applyEvent event).1.status t⟩] else []) := by
  rw [LiveBooks.apply, ht]

/-- What a follower makes of a refresh. -/
theorem receiveAll_refresh (hs : h.Sane) {r : BookRefresh}
    (hf : LiveHub.Follows h.followers r.ticker id)
    (hlive : h.live.books = (l.applyEvent (.refresh r)).1.books)
    (hbefore : c.book r.ticker = viewOf l.books r.ticker)
    (hkeeps : ∀ x y, l.books.get? r.ticker = some x → h.live.books.get? r.ticker = some y →
      y.depth = x.depth) (snapshotted : List Ticker) :
    c.receiveAll ((l.apply (.refresh r)).2.2.flatMap (h.told id) ++
      h.toldEvent id (l.apply (.refresh r)).2.1 snapshotted (.refresh r)) =
      c.setBook r.ticker (h.view r.ticker) := by
  have hnone : ∀ applied, h.toldEvent id applied snapshotted (.refresh r) = [] := fun _ => rfl
  rw [hnone, List.append_nil, apply_of_some rfl]
  rw [LiveBooks.status, LiveBooks.status, ← hlive]
  exact receiveAll_change hs hf hbefore rfl fun x y hx hy => .inl (hkeeps x y hx hy)

/-- A market that a follower is told of has an entry. -/
theorem toldEvent_book {applied : Bool} {snapshotted : List Ticker} {e : BookEvent}
    (hf : LiveHub.Follows h.followers e.ticker id) :
    h.toldEvent id applied snapshotted (.book e) =
      if applied = true then (h.bookMessage snapshotted e).toList else [] := by
  rw [LiveHub.toldEvent, LiveHub.eventMessage]
  cases applied with
  | false => simp
  | true =>
      rw [if_pos ⟨rfl, LiveHub.contains_of_follows hf⟩, if_pos rfl]
      cases h.bookMessage snapshotted e with
      | none => rfl
      | some m =>
          have hsent : h.sentTo id e.ticker m = [m] := if_pos hf
          simp [hsent]

/-- A book event put to the copy it is about. -/
theorem change_of_some {e : BookEvent} {b : Book} (hb : l.books.get? e.ticker = some b) :
    (∃ err, (e.perform b).2 = .error err ∧ (l.change e).1.books.get? e.ticker = none ∧
      (l.change e).2 = false) ∨
    ∃ applied, (e.perform b).2 = .ok applied ∧
      (l.change e).1.books.get? e.ticker = some (e.perform b).1 ∧ (l.change e).2 = applied := by
  rw [LiveBooks.change]
  simp only [hb]
  rcases e.perform b with ⟨b', err | applied⟩
  · exact .inl ⟨err, rfl, Dict.get?_erase_self _ _, rfl⟩
  · cases applied with
    | false => exact .inr ⟨false, rfl, Dict.get?_set_self _ _ _, rfl⟩
    | true => exact .inr ⟨true, rfl, Dict.get?_set_self _ _ _, rfl⟩

/-- An event that did not take effect, but broke nothing, left the copy alone. -/
theorem perform_idle {e : BookEvent} {b : Book} (h : (e.perform b).2 = .ok false) :
    (e.perform b).1 = b := by
  cases e with
  | snapshot e =>
      rw [BookEvent.perform] at h
      split at h
      · cases h
      · cases h
  | delta e =>
      rw [BookEvent.perform] at h ⊢
      rcases b.applyDelta_cases e.side e.price e.delta e.tsMs with
        ⟨-, heq⟩ | ⟨-, -, err, heq⟩ | ⟨-, -, ⟨err, heq⟩, -⟩ | ⟨-, -, heq, -⟩
      · rw [heq]
      · rw [heq] at h
        cases h
      · rw [heq] at h
        cases h
      · rw [heq] at h
        cases h

/-- An event that took effect left a fresh copy. -/
theorem perform_fresh {e : BookEvent} {b : Book} (hi : b.Inv) (h : (e.perform b).2 = .ok true) :
    (e.perform b).1.stale = false := by
  obtain ⟨d, hd⟩ := (e.perform_ok_iff hi).mp h
  have hlive := e.live_perform hi
  rw [hd] at hlive
  exact (Book.live_eq_some_iff.mp hlive).1

/-- A delta that took effect is one the client can apply. -/
theorem receive_delta {e : BookDelta} {b : Book}
    (hok : (BookEvent.perform (.delta e) b).2 = .ok true)
    (hbefore : c.book e.ticker = some ⟨.of b, b.depth⟩) :
    b.stale = false ∧ c.receive (.delta e.ticker e.tsMs e.side e.price e.delta) =
      c.setBook e.ticker (some ⟨.of (BookEvent.perform (.delta e) b).1,
        (BookEvent.perform (.delta e) b).1.depth⟩) := by
  rw [BookEvent.perform] at hok ⊢
  rcases b.applyDelta_cases e.side e.price e.delta e.tsMs with
    ⟨-, heq⟩ | ⟨-, -, err, heq⟩ | ⟨-, -, ⟨err, heq⟩, -⟩ | ⟨hfresh, hnonneg, heq, -⟩
  · rw [heq] at hok
    cases hok
  · rw [heq] at hok
    cases hok
  · rw [heq] at hok
    cases hok
  · have hstate : KnownBookState.of b = .fresh := by rw [KnownBookState.of, hfresh]; rfl
    have hstate' : KnownBookState.of (b.applyDelta e.side e.price e.delta e.tsMs).1 = .fresh := by
      rw [heq, KnownBookState.of, Book.withTs_stale, Book.writeLevel_stale, hfresh]
      rfl
    rw [hstate', heq, Book.withTs_depth, Book.writeLevel_depth]
    refine ⟨hfresh, ?_⟩
    rw [receive, hbefore, hstate]
    exact if_pos hnonneg

/-- What a follower makes of a snapshot or a delta. -/
theorem receiveAll_book (hs : h.Sane) {e : BookEvent}
    (hf : LiveHub.Follows h.followers e.ticker id)
    (hbase : ∀ t b, l.books.get? t = some b → b.Inv)
    (hlive : h.live.books = (l.applyEvent (.book e)).1.books)
    (hbefore : c.book e.ticker = viewOf l.books e.ticker) {snapshotted : List Ticker}
    (hsnapshotted : e.ticker ∈ snapshotted ↔ ∃ change ∈ (l.apply (.book e)).2.2,
      change.ticker = e.ticker ∧ h.snapshots change = true) :
    c.receiveAll ((l.apply (.book e)).2.2.flatMap (h.told id) ++
      h.toldEvent id (l.apply (.book e)).2.1 snapshotted (.book e)) =
      c.setBook e.ticker (h.view e.ticker) := by
  rw [apply_of_some rfl] at hsnapshotted ⊢
  dsimp only at hsnapshotted ⊢
  rw [LiveBooks.status, LiveBooks.status, ← hlive] at hsnapshotted ⊢
  rw [toldEvent_book hf]
  have hheld : h.live.books.get? e.ticker = (l.change e).1.books.get? e.ticker := by
    rw [hlive]
    rfl
  have happlied : (l.applyEvent (.book e)).2 = (l.change e).2 := rfl
  rw [happlied]
  cases hb : l.books.get? e.ticker with
  | none =>
      have hignored : l.change e = (l.countIgnored, false) := by rw [LiveBooks.change, hb]
      rw [hignored] at hheld ⊢
      have hafter : h.live.books.get? e.ticker = none := hheld.trans hb
      simp only [Bool.false_eq_true, if_false, List.append_nil]
      exact receiveAll_change hs hf (hbefore.trans (by rw [viewOf, hb])) rfl (by rintro _ _ ⟨⟩)
  | some b =>
      have hknown : c.book e.ticker = (some b).map fun b => ⟨.of b, b.depth⟩ :=
        hbefore.trans (by rw [viewOf, hb])
      rw [hb] at hsnapshotted
      rcases change_of_some hb with ⟨err, -, hgone, hno⟩ | ⟨applied, hp, hchanged, hyes⟩
      · rw [hno]
        simp only [Bool.false_eq_true, if_false, List.append_nil]
        refine receiveAll_change hs hf hknown rfl fun x y _ hy => ?_
        rw [hheld, hgone] at hy
        cases hy
      · rw [hyes]
        rw [hchanged] at hheld
        cases applied with
        | false =>
            rw [perform_idle hp] at hheld
            simp only [Bool.false_eq_true, if_false, List.append_nil]
            refine receiveAll_change hs hf hknown rfl fun x y hx hy => .inl ?_
            rw [hheld] at hy
            rw [← Option.some.inj hx, ← Option.some.inj hy]
        | true =>
            rw [hheld] at hsnapshotted ⊢
            cases e with
            | delta e =>
                obtain ⟨hfresh, hreceived⟩ := receive_delta hp hknown
                have hfresh' : (BookEvent.perform (.delta e) b).1.stale = false :=
                  perform_fresh (hbase _ b hb) hp
                have hsame : BookStatus.of (some (BookEvent.perform (.delta e) b).1) =
                    BookStatus.of (some b) := by
                  rw [BookStatus.of, BookStatus.of, hfresh, hfresh']
                have hview : h.view e.ticker = some ⟨.of (BookEvent.perform (.delta e) b).1,
                    (BookEvent.perform (.delta e) b).1.depth⟩ := by
                  rw [LiveHub.view]
                  exact congrArg (Option.map _) hheld
                rw [if_neg (not_not.mpr hsame), if_pos rfl]
                show c.receive (.delta e.ticker e.tsMs e.side e.price e.delta) = _
                rw [hreceived]
                exact congrArg (c.setBook e.ticker) hview.symm
            | snapshot e =>
                have hfresh' : (BookEvent.perform (.snapshot e) b).1.stale = false :=
                  perform_fresh (hbase _ b hb) hp
                have hsome : h.view e.ticker ≠ none := by
                  rw [LiveHub.view]
                  have hget : h.live.books.get? e.ticker = _ := hheld
                  rw [hget]
                  rintro ⟨⟩
                obtain ⟨m, hm⟩ := Option.ne_none_iff_exists'.mp fun hnone =>
                  hsome (snapshot_eq_none_iff.mp hnone)
                cases hstale : b.stale with
                | false =>
                    -- it stayed fresh, so the snapshot goes out with the event
                    have hsame : BookStatus.of (some (BookEvent.perform (.snapshot e) b).1) =
                        BookStatus.of (some b) := by
                      rw [BookStatus.of, BookStatus.of, hstale, hfresh']
                    rw [if_neg (not_not.mpr hsame)] at hsnapshotted ⊢
                    have hout : e.ticker ∉ snapshotted := fun hin => by
                      obtain ⟨_, hno, -⟩ := hsnapshotted.mp hin
                      cases hno
                    rw [if_pos rfl, LiveHub.bookMessage, if_neg hout, hm]
                    exact receive_snapshot hs c hm
                | true =>
                    have hne : BookStatus.of (some (BookEvent.perform (.snapshot e) b).1) ≠
                        BookStatus.of (some b) := by
                      simp [BookStatus.of, hstale, hfresh']
                    have hin : e.ticker ∈ snapshotted := by
                      refine hsnapshotted.mpr ⟨_, by rw [if_pos hne]; exact List.mem_cons_self,
                        rfl, ?_⟩
                      have hsent : (h.snapshot e.ticker).isSome = true := by rw [hm]; rfl
                      simp [LiveHub.snapshots, BookStatus.of, hfresh', hsent, BookEvent.ticker]
                    have hnone : h.bookMessage snapshotted (.snapshot e) = none := if_pos hin
                    rw [hnone, if_pos rfl, Option.toList_none, List.append_nil]
                    exact receiveAll_change hs hf hknown hheld fun x y hx hy =>
                      .inr ⟨by rw [← Option.some.inj hx]; exact hstale,
                        by rw [← Option.some.inj hy]; exact hfresh'⟩

/-- A client that is told of the one market that changed. -/
theorem knows_setBook {books books' : Dict Ticker Book} {index : Index}
    (hk : c.Knows books index id) (t : Ticker)
    (hother : ∀ u, u ≠ t → books'.get? u = books.get? u) :
    (c.setBook t (viewOf books' t)).Knows books' index id where
  applicable := hk.applicable
  books u hf := by
    rw [setBook_book]
    split
    · next hu => rw [hu]
    · next hu => rw [hk.books u hf, viewOf, viewOf, hother u hu]

/-- A client that does not follow the market that changed. -/
theorem knows_other {books books' : Dict Ticker Book} {index : Index}
    (hk : c.Knows books index id) (t : Ticker) (hf : ¬ LiveHub.Follows index t id)
    (hother : ∀ u, u ≠ t → books'.get? u = books.get? u) : c.Knows books' index id where
  applicable := hk.applicable
  books u hu := by
    have hne : u ≠ t := by
      rintro rfl
      exact hf hu
    rw [hk.books u hu, viewOf, viewOf, hother u hne]

/-- The message of a book event is about its market. -/
theorem eventMessage_ticker {event : BusEvent} (ht : LiveBooks.bookTicker event = some t)
    {applied : Bool} {snapshotted : List Ticker} {u : Ticker} {m : ServerMessage}
    (hm : h.eventMessage applied snapshotted event = some (u, m)) : u = t := by
  cases event with
  | book e =>
      rw [LiveHub.eventMessage] at hm
      split at hm
      · obtain ⟨m', -, heq⟩ := Option.map_eq_some_iff.mp hm
        rw [← (Prod.mk.inj heq).1]
        exact Option.some.inj ht
      · cases hm
  | refresh r => cases hm
  | _ => cases ht

/-- What is told to who does not follow the market of a book message. -/
theorem told_other {event : BusEvent} (ht : LiveBooks.bookTicker event = some t)
    (hf : ¬ LiveHub.Follows h.followers t id) (snapshotted : List Ticker) :
    (l.apply event).2.2.flatMap (h.told id) ++
      h.toldEvent id (l.apply event).2.1 snapshotted event = [] := by
  rw [apply_of_some ht, List.append_eq_nil_iff]
  constructor
  · dsimp only
    split
    · rw [List.flatMap_singleton]
      exact LiveHub.told_eq_nil hf
    · rfl
  · rw [LiveHub.toldEvent, List.flatMap_eq_nil_iff]
    rintro ⟨u, m⟩ hm
    have hu : u = t := eventMessage_ticker ht (Option.mem_toList.mp hm)
    exact if_neg (hu ▸ hf)

/-- An event that is about no book says nothing of one. -/
theorem receiveAll_notice {event : BusEvent} (ht : LiveBooks.bookTicker event = none)
    (c : Client) (applied : Bool) (snapshotted : List Ticker) :
    c.receiveAll (h.toldEvent id applied snapshotted event) = c := by
  cases event with
  | other e =>
      rw [LiveHub.toldEvent, LiveHub.eventMessage]
      split
      · cases e.kind with
        | trade =>
            rw [Option.toList_some, List.flatMap_singleton, LiveHub.sentTo]
            split <;> rfl
        | ticker =>
            rw [Option.toList_some, List.flatMap_singleton, LiveHub.sentTo]
            split <;> rfl
        | lifecycle => rfl
      · rfl
  | book e => cases ht
  | refresh r => cases ht
  | _ => rfl

/-- After an event, a client that knew the copies knows them. -/
theorem knows_event (hs : h.Sane) {event : BusEvent}
    (hbase : ∀ t b, l.books.get? t = some b → b.Inv)
    (hlive : h.live.books = (l.applyEvent event).1.books)
    (hk : c.Knows l.books h.followers id)
    (hkeeps : ∀ r, event = .refresh r → ∀ x y, l.books.get? r.ticker = some x →
      h.live.books.get? r.ticker = some y → y.depth = x.depth) {snapshotted : List Ticker}
    (hsnapshotted : ∀ t, LiveHub.Follows h.followers t id →
      (t ∈ snapshotted ↔ ∃ change ∈ (l.apply event).2.2,
        change.ticker = t ∧ h.snapshots change = true)) :
    (c.receiveAll ((l.apply event).2.2.flatMap (h.told id) ++
      h.toldEvent id (l.apply event).2.1 snapshotted event)).Knows h.live.books h.followers id := by
  cases ht : LiveBooks.bookTicker event with
  | none =>
      have hsame : (l.applyEvent event).1.books = l.books := by
        cases event with
        | book e => cases ht
        | refresh r => cases ht
        | _ => rfl
      have hquiet : l.apply event = (l, false, []) := by rw [LiveBooks.apply, ht]
      rw [hlive, hsame, hquiet, List.flatMap_nil, List.nil_append, receiveAll_notice ht]
      exact hk
  | some t =>
      have hother : ∀ u, u ≠ t → h.live.books.get? u = l.books.get? u := fun u hu => by
        rw [hlive]
        refine l.applyEvent_books_of_ne ?_
        rw [ht]
        exact fun heq => hu (Option.some.inj heq).symm
      by_cases hf : LiveHub.Follows h.followers t id
      · have hreceived : c.receiveAll ((l.apply event).2.2.flatMap (h.told id) ++
            h.toldEvent id (l.apply event).2.1 snapshotted event) = c.setBook t (h.view t) := by
          cases event with
          | refresh r =>
              obtain rfl : r.ticker = t := Option.some.inj ht
              exact receiveAll_refresh hs hf hlive (hk.books _ hf) (hkeeps r rfl) snapshotted
          | book e =>
              obtain rfl : e.ticker = t := Option.some.inj ht
              exact receiveAll_book hs hf hbase hlive (hk.books _ hf) (hsnapshotted _ hf)
          | _ => cases ht
        rw [hreceived]
        exact knows_setBook hk t hother
      · rw [told_other ht hf]
        exact knows_other hk t hf hother

/-- After a bus message, a client that knew the copies knows them. -/
theorem knows_observed {live : LiveBooks} (hlive : ∀ t b, live.books.get? t = some b → b.Inv)
    {envelope : BusEnvelope} (hh : h.live = (live.observe envelope).1) (hs : h.Sane)
    (hk : c.Knows live.books h.followers id) (hkeeps : live.KeepsLevels envelope) :
    (c.receiveAll ((live.observe envelope).2.changes.flatMap (h.told id) ++
      h.toldEvent id (live.observe envelope).2.applied
        (h.announce (live.observe envelope).2.changes ∅ []).2 envelope.event)).Knows
      h.live.books h.followers id := by
  obtain ⟨-, hreset⟩ := live.countMessage.follow_spec envelope
  have hfollowed : (live.countMessage.follow envelope).1.books = live.books :=
    live.countMessage.follow_books envelope
  rcases hfollow : live.countMessage.follow envelope with ⟨followed, none | reason, missed⟩
  · rw [hfollow] at hfollowed hreset
    dsimp only at hfollowed
    have hobserved : live.observe envelope = ((followed.apply envelope.event).1,
        ⟨none, missed, (followed.apply envelope.event).2.1,
          (followed.apply envelope.event).2.2⟩) := by
      rw [LiveBooks.observe, hfollow]
    have hbooks : h.live.books = (followed.applyEvent envelope.event).1.books := by
      rw [hh, hobserved, ← LiveBooks.apply_fst]
    rw [hobserved]
    refine knows_event hs ?_ hbooks ?_ ?_ fun t hf => ?_
    · rw [hfollowed]
      exact hlive
    · rw [hfollowed]
      exact hk
    · intro r hr x y hx hy
      rw [hfollowed] at hx
      rw [hh] at hy
      exact hkeeps r hr (hreset.mp rfl) x y hx hy
    · rw [LiveHub.mem_announce_snapshotted hf]
      simp
  · rw [hfollow] at hfollowed
    dsimp only at hfollowed
    have hobserved : live.observe envelope =
        (((followed.forgetBooks missed).apply envelope.event).1,
          ⟨some reason, missed, ((followed.forgetBooks missed).apply envelope.event).2.1,
            followed.resetChanges ++
              ((followed.forgetBooks missed).apply envelope.event).2.2⟩) := by
      rw [LiveBooks.observe, hfollow]
    have hbooks : h.live.books =
        ((followed.forgetBooks missed).applyEvent envelope.event).1.books := by
      rw [hh, hobserved, ← LiveBooks.apply_fst]
    rw [hobserved, List.flatMap_append, List.append_assoc, receiveAll_append]
    have hk' : c.Knows followed.books h.followers id := by
      rw [hfollowed]
      exact hk
    have hnone : ∀ t, (followed.forgetBooks missed).books.get? t = none := fun _ => rfl
    refine knows_event hs (fun t b hget => ?_) hbooks (knows_reset hk')
      (fun r _ x y hx _ => ?_) fun t hf => ?_
    · rw [hnone] at hget
      cases hget
    · rw [hnone] at hx
      cases hx
    · -- the changes of the reset send no snapshot
      have hno : ∀ change ∈ followed.resetChanges, h.snapshots change = false := by
        intro change hin
        obtain ⟨u, -, rfl⟩ := List.mem_map.mp hin
        simp [LiveHub.snapshots]
      rw [LiveHub.mem_announce_snapshotted hf]
      constructor
      · rintro (hin | ⟨change, hin, hboth⟩)
        · cases hin
        · rcases List.mem_append.mp hin with hin | hin
          · rw [hno change hin] at hboth
            cases hboth.2
          · exact ⟨change, hin, hboth⟩
      · rintro ⟨change, hin, hboth⟩
        exact .inr ⟨change, List.mem_append_right _ hin, hboth⟩

end Client

end Tape.Api
