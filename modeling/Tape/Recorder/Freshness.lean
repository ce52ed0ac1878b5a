import Tape.Recorder.Subscriptions

/-!
# Only maintained books are fresh

A book is maintained while its market is in the applied group and some
orderbook subscription is live: then `_book_for` lets its deltas through. Every
transition that takes a market out of the group stales or drops its book, but
one. An `ok` that merges a subscribe into a running subscription replaces the
applied group by the membership it reports, and the books of the markets it
leaves out stay as they are (`mergedInPart_fresh`).

`fresh_maintained` is the condition on a run: when a reply shrinks what is
maintained, no book outside is fresh.
-/

namespace Tape

namespace Supervisor

/-- Every fresh book is of a market of the applied group, and an orderbook
subscription is live. -/
def Maintained (s : Supervisor) : Prop :=
  ∀ t, s.FreshAt t → t ∈ tickersOf s.applied ∧ ∃ sid, s.isBookSid sid = true

variable {s : Supervisor}

/-- A book that is fresh would be touched by its next delta. -/
theorem Maintained.mayTouch (h : s.Maintained) {t : Ticker} (ht : s.FreshAt t) :
    ∃ sid, s.mayTouch sid t = true := by
  obtain ⟨hmem, sid, hsid⟩ := h t ht
  exact ⟨sid, by simpa [Supervisor.mayTouch] using ⟨hsid, hmem⟩⟩

theorem Maintained.of_same {s' : Supervisor} (h : s.Maintained) (hb : s'.books = s.books)
    (ha : s'.applied = s.applied) (hs : s'.subscriptions = s.subscriptions) : s'.Maintained := by
  intro t ht
  rw [FreshAt, hb] at ht
  obtain ⟨hmem, sid, hsid⟩ := h t ht
  rw [ha]
  refine ⟨hmem, sid, ?_⟩
  rw [isBookSid, hs]
  exact hsid

theorem Maintained.touched {s' : Supervisor} (h : s.Maintained) (ht : s.Touched s') :
    s'.Maintained := by
  intro t hfresh
  have hold : t ∈ tickersOf s.applied ∧ ∃ sid, s.isBookSid sid = true := by
    rcases ht.fresh t hfresh with hf | ⟨sid, hm⟩
    · exact h t hf
    · obtain ⟨hsid, hmem⟩ := isBookSid_of_mayTouch hm
      exact ⟨hmem, sid, hsid⟩
  obtain ⟨hmem, sid, hsid⟩ := hold
  rw [ht.control.applied]
  exact ⟨hmem, sid, ht.control.isBookSid sid ▸ hsid⟩

/-- Nothing is fresh. -/
theorem maintained_of_stale (h : ∀ t, ¬ s.FreshAt t) : s.Maintained :=
  fun t ht => absurd ht (h t)

/-! ## The group shrinks by a command -/

theorem freshAt_releaseBooks {tickers : Finset Ticker} {t : Ticker}
    (h : (s.releaseBooks tickers).FreshAt t) : s.FreshAt t ∧ t ∉ tickers := by
  obtain ⟨b, hb, hf⟩ := h
  rw [releaseBooks, Dict.get?_mapValues] at hb
  obtain ⟨b', hb', rfl⟩ := Option.map_eq_some_iff.mp hb
  rw [Dict.get?_filter, Option.filter_eq_some_iff] at hb'
  split at hf
  · cases hf
  · next hmem => exact ⟨⟨b', hb'.1, hf⟩, hmem⟩

theorem Maintained.recorded (h : s.Maintained) {piece : PlanChange}
    (hf : Fits s.applied piece) : (s.recordChange piece).1.Maintained := by
  cases piece with
  | addGroup g =>
      -- Nothing was applied, so nothing is fresh.
      obtain hf : s.applied = none := hf
      refine maintained_of_stale fun t ht => ?_
      have hmem := (h t ht).1
      rw [hf] at hmem
      cases hmem
  | removeGroup groupId =>
      obtain ⟨g, hg, rfl⟩ := hf
      refine maintained_of_stale fun t ht => ?_
      rw [recordChange, hg] at ht
      simp only [ne_eq, not_true_eq_false, if_false] at ht
      obtain ⟨hold, hnot⟩ := freshAt_releaseBooks ht
      have hmem := (h t hold).1
      rw [hg] at hmem
      exact hnot hmem
  | addMarkets groupId tickers =>
      obtain ⟨g, hg, rfl⟩ := hf
      rw [recordChange, hg]
      simp only [ne_eq, not_true_eq_false, if_false]
      intro t ht
      obtain ⟨hmem, hsid⟩ := h t ht
      rw [hg] at hmem
      exact ⟨Finset.mem_union_left _ hmem, hsid⟩
  | removeMarkets groupId tickers =>
      obtain ⟨g, hg, rfl, -⟩ := hf
      rw [recordChange, hg]
      simp only [ne_eq, not_true_eq_false, if_false]
      intro t ht
      obtain ⟨hold, hnot⟩ := freshAt_releaseBooks ht
      obtain ⟨hmem, hsid⟩ := h t hold
      rw [hg] at hmem
      exact ⟨Finset.mem_sdiff.mpr ⟨hmem, hnot⟩, hsid⟩

/-! ## The group shrinks by a reply -/

/-- The pending subscribe a reply answers, with the sid it binds and the
channel. -/
def answering (s : Supervisor) (env : Envelope) : Option (PendingSubscribe × Sid × String) :=
  match env.id with
  | none => none
  | some id =>
      match s.pending.get? id, env.body, env.sid with
      | some p, .subscribed (.ok msg), _ => some (p, msg.sid, msg.channel)
      | some p, .ok (.ok _), some sid =>
          match s.channelOfSid.get? sid with
          | none => none
          | some channel => if channel ∈ p.channels then some (p, sid, channel) else none
      | _, _, _ => none

/-- A reply takes nothing fresh out of what is maintained. -/
structure SparesFresh (s : Supervisor) (env : Envelope) : Prop where
  /-- A live orderbook id that is bound to another channel is not the last one. -/
  rebound : ∀ p sid channel, s.answering env = some (p, sid, channel) →
    channel ≠ orderbookChannel → ∀ t, s.FreshAt t → ∃ sid', sid' ≠ sid ∧ s.isBookSid sid' = true
  /-- A merge reports every market whose book is fresh. -/
  merged : ∀ p sid channel msg tickers, s.answering env = some (p, sid, channel) →
    env.body = .ok (.ok msg) → msg.marketTickers = some tickers → tickers ≠ [] →
    s.appliedId = some p.groupId → ∀ t, s.FreshAt t → t ∈ tickers
  /-- A group is refused as a whole only while nothing is fresh. -/
  refused : ∀ id p msg, env.body = .error (.ok msg) → env.id = some id →
    s.pending.get? id = some p → p.groupId ≠ firehoseGroupId → ¬ s.Carried p.groupId →
    ∀ t, ¬ s.FreshAt t

theorem sparesFresh_of_stale {env : Envelope} (h : ∀ t, ¬ s.FreshAt t) : s.SparesFresh env where
  rebound _ _ _ _ _ t ht := absurd ht (h t)
  merged _ _ _ _ _ _ _ _ _ _ t ht := absurd ht (h t)
  refused _ _ _ _ _ _ _ _ := h

theorem Maintained.answer (h : s.Maintained) (id : Int) (p : PendingSubscribe) (sid : Sid)
    (channel : String)
    (hspare : channel ≠ orderbookChannel → ∀ t, s.FreshAt t →
      ∃ sid', sid' ≠ sid ∧ s.isBookSid sid' = true) : (s.answer id p sid channel).Maintained := by
  intro t ht
  obtain ⟨hmem, sid', hsid'⟩ := h t ht
  refine ⟨hmem, ?_⟩
  by_cases hc : channel = orderbookChannel
  · refine ⟨sid, ?_⟩
    rw [isBookSid, Supervisor.answer, Dict.get?_set_self]
    exact decide_eq_true hc
  · obtain ⟨sid'', hne, hbook⟩ := hspare hc t ht
    refine ⟨sid'', ?_⟩
    rw [isBookSid, Supervisor.answer, Dict.get?_set_ne hne.symm]
    exact hbook

theorem Maintained.adoptMembership (h : s.Maintained) (groupId : String) (sid : Sid)
    (channel : String) (marketTickers : Option (List Ticker))
    (hspare : ∀ tickers, marketTickers = some tickers → tickers ≠ [] →
      s.appliedId = some groupId → ∀ t, s.FreshAt t → t ∈ tickers) :
    (s.adoptMembership groupId sid channel marketTickers).1.Maintained := by
  have hsnap : ∀ {s : Supervisor} (tickers : Finset Ticker), s.Maintained →
      (s.requestSnapshot sid tickers).1.Maintained := by
    intro s tickers h
    obtain ⟨hc, hb⟩ := s.requestSnapshot_control sid tickers
    exact h.of_same hb hc.applied hc.subscriptions
  rw [Supervisor.adoptMembership.eq_def]
  split
  · next _ _ t ts g hg =>
      split
      · exact h
      · next hgroup =>
          have hadopted : (if (t :: ts).toFinset ≠ g.tickers then
              { s with applied := some { g with tickers := (t :: ts).toFinset }
                       reconcileDeferred := true }
              else s).Maintained := by
            split
            · intro u hu
              have hreport := hspare (t :: ts) rfl (List.cons_ne_nil _ _)
                (by rw [appliedId, hg]; exact congrArg some (not_not.mp hgroup)) u hu
              exact ⟨List.mem_toFinset.mpr hreport, (h u hu).2⟩
            · exact h
          simp only
          split
          · exact hadopted
          · exact hsnap _ hadopted
  · exact h

theorem Maintained.withLock (h : s.Maintained) {env : Envelope} (hs : s.SparesFresh env) :
    (s.withLock env).1.Maintained := by
  rw [Supervisor.withLock.eq_def]
  split
  · next msg hbody =>
      have hnoted : { s with channelOfSid := s.channelOfSid.set msg.sid msg.channel }.Maintained :=
        h.of_same rfl rfl rfl
      simp only
      split
      · exact hnoted
      · next id hid =>
          split
          · exact hnoted
          · next p hp =>
              refine hnoted.answer id p msg.sid msg.channel ?_
              exact hs.rebound p msg.sid msg.channel (by simp only [answering, hid, hp, hbody])
  · next msg hbody =>
      split
      · exact h
      · next id hid =>
          split
          · next p sid hp hsid =>
              split
              · exact h
              · next channel hchannel =>
                  split
                  · exact h
                  · next hin =>
                      split
                      · exact h.of_same rfl rfl rfl
                      · next m =>
                          have hanswering : s.answering env = some (p, sid, channel) := by
                            simp only [answering, hid, hp, hbody, hsid, hchannel]
                            rw [if_pos (not_not.mp hin)]
                          refine (h.answer id p sid channel
                            (hs.rebound p sid channel hanswering)).adoptMembership _ _ _ _ ?_
                          exact fun tickers => hs.merged p sid channel m tickers hanswering hbody
          · exact h
  · next msg hbody =>
      split
      · exact h
      · next id hid =>
          split
          · exact h
          · next p hp =>
              simp only
              split
              · exact h.of_same rfl rfl rfl
              · next hnot =>
                  split
                  · next hall =>
                      refine maintained_of_stale (hs.refused id p msg hbody hid hp hnot ?_)
                      rintro ⟨sid, info, hinfo, hg⟩
                      rw [List.all_eq_true] at hall
                      have := hall info (List.mem_map_of_mem (Dict.get?_eq_some_iff.mp hinfo))
                      exact absurd hg (by simpa using this)
                  · exact h.of_same rfl rfl rfl
  · exact h

end Supervisor

namespace Conn

theorem maintained_bookkeeping :
    Bookkeeping Supervisor.Maintained (fun _ => True) True (fun _ => True)
      Supervisor.SparesFresh (fun _ _ _ => True) where
  touched s s' h ht := h.touched ht
  setGroup s group h _ _ := h.of_same rfl rfl rfl
  deferred s b h := h.of_same rfl rfl rfl
  firehose s h := h.of_same rfl rfl rfl
  firehoseSent s id h _ := h.of_same rfl rfl rfl
  planned _ _ _ _ := trivial
  unplanned _ _ _ _ _ _ _ _ _ := trivial
  recorded s piece id h hp _ _ := by
    have hsame : (s.afterCommand piece id).Maintained ∧
        (s.afterCommand piece id).applied = s.applied := by
      cases piece with
      | addGroup g => exact ⟨h.of_same rfl rfl rfl, rfl⟩
      | removeGroup groupId => exact ⟨h, rfl⟩
      | addMarkets groupId tickers => exact ⟨h, rfl⟩
      | removeMarkets groupId tickers => exact ⟨h, rfl⟩
    exact hsame.1.recorded (hsame.2 ▸ hp.chain.1)
  reply s env h hm := h.withLock hm
  prune s h := by
    intro t ht
    exact h t (Supervisor.freshAt_pruneBooks ht)
  forget s h hd := Supervisor.maintained_of_stale hd.stale
  ended s detail h := Supervisor.maintained_of_stale (s.endConnection_dormant detail).stale

theorem fresh_maintained (config : SupervisorConfig) (es : List ConnEvent)
    (hes : Run.Along step (Meets (fun _ => True) Supervisor.SparesFresh fun _ _ => True)
      (.new config) es) :
    Run.Throughout step (fun c => c.sup.Maintained) (.new config) es := by
  have D := maintained_bookkeeping.discipline
  have hnew : Supervisor.Maintained (.new config) := by
    intro t ⟨b, hb, _⟩
    cases hb
  exact (D.throughout config hnew es (hes.mono fun _ _ => Meets.records)).mono fun c hc => hc.state

/-! A group is unsubscribed and subscribed again, and the exchange merges both
channels into what is still there. The merge of the trade channel reports one of
the two markets, after the book of the other was snapshotted. -/

/-- A recorder of the books and trades of one group. -/
def mergeConfig : SupervisorConfig := ⟨0, [orderbookChannel, "trade"], [], true, true, 500⟩

/-- Two markets of one group. -/
def mergeGroup : Group := ⟨"g0000", 0, {"KXA", "KXB"}⟩

/-- A snapshot on subscription `sid`, a bid at 40 cents under an ask at 60. -/
def snapshotFrame (sid : Sid) (seq : Int) (t : Ticker) : RawFrame :=
  ⟨0, 0, .ok ⟨some sid, some seq, none, .orderbookSnapshot
    (.ok ⟨t, some [("0.4000", "2.00")], some [("0.6000", "1.00")]⟩)⟩⟩

/-- A reply that names the markets of a subscription. -/
def okFrame (id : Int) (sid : Sid) (tickers : List Ticker) : RawFrame :=
  replyFrame id (some sid) (.ok (.ok ⟨some tickers⟩))

/-- Up to the merge of the orderbook channel, and a snapshot of one market. -/
def snapshotBeforeMerge : List ConnEvent :=
  [.begin, .opened, .setGroup (some mergeGroup), .acquire, .transmit, .sendReturns,
    .receive (subscribedFrame 1 orderbookChannel 1), .acquireFrame,
    .receive (subscribedFrame 1 "trade" 2), .acquireFrame,
    .setGroup none, .acquire, .transmit, .sendReturns,
    .setGroup (some mergeGroup), .acquire, .transmit, .sendReturns,
    .receive (okFrame 3 1 ["KXA", "KXB"]), .acquireFrame, .transmit, .sendReturns,
    .receive (snapshotFrame 1 1 "KXA")]

theorem mergedWhole_maintained :
    Run.Throughout step (fun c => c.sup.Maintained) (.new mergeConfig)
      (snapshotBeforeMerge ++ [.receive (okFrame 3 2 ["KXA", "KXB"]), .acquireFrame]) := by
  have hstale : ∀ {c : Conn} (env : Envelope), c.sup.books = ∅ → c.sup.SparesFresh env := by
    intro c env hnone
    refine Supervisor.sparesFresh_of_stale fun t ⟨b, hb, _⟩ => ?_
    rw [hnone] at hb
    cases hb
  refine fresh_maintained mergeConfig _ ?_
  refine ⟨trivial, trivial, trivial, trivial, trivial, fun _ _ => trivial, trivial, ?_, trivial,
    ?_, trivial, trivial, trivial, fun _ _ => trivial, trivial, trivial, trivial,
    fun _ _ => trivial, trivial, ?_, trivial, fun _ _ => trivial, trivial, trivial, ?_, trivial⟩
  · exact fun env _ => hstale env rfl
  · exact fun env _ => hstale env rfl
  · exact fun env _ => hstale env rfl
  · intro env henv
    obtain rfl := FrameTask.waiting.inj (Option.some.inj henv)
    refine ⟨?_, ?_, nofun⟩
    · intro p sid channel hanswering _ t _
      obtain ⟨-, rfl, -⟩ : _ ∧ 2 = sid ∧ _ := by simpa using Option.some.inj hanswering
      exact ⟨1, by decide, rfl⟩
    · intro p sid channel msg tickers _ hbody htickers _ _ t ⟨b, hb, _⟩
      obtain rfl := Except.ok.inj (Body.ok.inj hbody)
      obtain rfl := Option.some.inj htickers
      have ht : t ∈ ["KXA"] := Dict.mem_keys_of_get? hb
      exact List.mem_append_left ["KXB"] ht

theorem mergedInPart_fresh :
    ¬ Run.Throughout step (fun c => c.sup.Maintained) (.new mergeConfig)
        (snapshotBeforeMerge ++ [.receive (okFrame 3 2 ["KXB"]), .acquireFrame]) := by
  intro h
  have hmem : "KXA" ∈ ({"KXB"} : Finset Ticker) := (h.last "KXA" ⟨_, rfl, rfl⟩).1
  exact absurd hmem (by decide)

end Conn

end Tape
