import Tape.Recorder.Freshness

/-!
# What awaits a snapshot

An entry of `_resyncing` names the markets of a subscription whose snapshots
were asked for and have not come. While it stands every snapshot on that
subscription becomes the new baseline of its sequence numbers, so an entry that
is left over hides the next gap. `Resyncs` is what the bookkeeping aims at:
every entry names some market, its subscription is a live orderbook
subscription, and its markets are in the applied group.

Entries are retired by snapshots, by an unsubscribe and by an error frame. They
are not retired when markets leave the group by a `delete_markets` or by the
membership a merge reports, and a merge with nothing left to ask for makes an
entry that names no market (`leftover_unsettled`). `resyncs_throughout` is the
condition on a run.
-/

namespace Tape

namespace Supervisor

/-- What is awaited are markets of the group, of subscriptions of books. -/
structure Resyncs (s : Supervisor) : Prop where
  nonempty : ∀ sid awaiting, s.resyncing.get? sid = some awaiting → awaiting ≠ ∅
  keyed : ∀ sid awaiting, s.resyncing.get? sid = some awaiting → s.isBookSid sid = true
  applied : ∀ sid awaiting, s.resyncing.get? sid = some awaiting →
    awaiting ⊆ tickersOf s.applied

/-- The groups name some market each, as their constructor checks. -/
structure Populated (config : SupervisorConfig) (s : Supervisor) : Prop where
  configured : s.config = config
  desired : ∀ g, s.desired = some g → g.tickers ≠ ∅
  applied : ∀ g, s.applied = some g → g.tickers ≠ ∅

variable {config : SupervisorConfig} {s : Supervisor}

theorem Resyncs.of_same {s' : Supervisor} (h : s.Resyncs) (hr : s'.resyncing = s.resyncing)
    (ha : s'.applied = s.applied) (hs : s'.subscriptions = s.subscriptions) : s'.Resyncs where
  nonempty := by rw [hr]; exact h.nonempty
  keyed sid awaiting hget := by
    rw [isBookSid, hs]
    exact h.keyed sid awaiting (hr ▸ hget)
  applied sid awaiting hget := by
    rw [ha]
    exact h.applied sid awaiting (hr ▸ hget)

theorem Populated.of_same {s' : Supervisor} (h : s.Populated config)
    (hc : s'.config = s.config) (hd : s'.desired = s.desired) (ha : s'.applied = s.applied) :
    s'.Populated config where
  configured := hc.trans h.configured
  desired := by rw [hd]; exact h.desired
  applied := by rw [ha]; exact h.applied

theorem Resyncs.touched {s' : Supervisor} (h : s.Resyncs) (hp : s.Populated config)
    (ht : s.Touched s') : s'.Resyncs where
  nonempty sid awaiting hget hempty := by
    subst hempty
    rcases ht.empty sid hget with hold | ⟨g, hg, hnone⟩
    · exact h.nonempty sid ∅ hold rfl
    · exact hp.applied g hg hnone
  keyed sid awaiting hget := by
    rw [ht.control.isBookSid]
    rcases ht.awaiting sid awaiting hget with ⟨old, hold⟩ | hbook
    · exact h.keyed sid old hold
    · exact hbook
  applied sid awaiting hget := by
    intro t hmem
    rw [ht.control.applied]
    rcases ht.awaited sid awaiting hget t hmem with ⟨old, hold, hin⟩ | hin
    · exact h.applied sid old hold hin
    · exact hin

/-- Nothing awaits a snapshot. -/
theorem resyncs_of_none (h : ∀ sid, s.resyncing.get? sid = none) : s.Resyncs where
  nonempty sid awaiting hget := by rw [h sid] at hget; cases hget
  keyed sid awaiting hget := by rw [h sid] at hget; cases hget
  applied sid awaiting hget := by rw [h sid] at hget; cases hget

/-- Without an applied group nothing awaits a snapshot. -/
theorem Resyncs.none_of_unapplied (h : s.Resyncs) (ha : s.applied = none) (sid : Sid) :
    s.resyncing.get? sid = none := by
  cases hget : s.resyncing.get? sid with
  | none => rfl
  | some awaiting =>
      have hsub := h.applied sid awaiting hget
      rw [ha] at hsub
      exact absurd (Finset.subset_empty.mp hsub) (h.nonempty sid awaiting hget)

/-! ## Snapshots retire an entry -/

theorem get?_finishResync (s : Supervisor) (sid : Sid) (t : Ticker) :
    (s.finishResync sid t).resyncing.get? sid =
      (s.resyncing.get? sid).bind fun awaiting =>
        if awaiting.erase t = ∅ then none else some (awaiting.erase t) := by
  rw [finishResync]
  cases hget : s.resyncing.get? sid with
  | none => simp [hget]
  | some awaiting =>
      simp only [Option.bind_some]
      split
      · exact Dict.get?_erase_self _ _
      · exact Dict.get?_set_self _ _ _

/-- Once every market an entry may name was snapshotted, the entry is gone. -/
theorem resyncing_gone {sid : Sid} (ts : List Ticker)
    (h : ∀ awaiting, s.resyncing.get? sid = some awaiting →
      awaiting ≠ ∅ ∧ awaiting ⊆ ts.toFinset) :
    (ts.foldl (fun s t => s.finishResync sid t) s).resyncing.get? sid = none := by
  induction ts generalizing s with
  | nil =>
      cases hget : s.resyncing.get? sid with
      | none => exact hget
      | some awaiting =>
          obtain ⟨hne, hsub⟩ := h awaiting hget
          exact absurd (Finset.subset_empty.mp hsub) hne
  | cons t ts ih =>
      refine ih fun awaiting hget => ?_
      rw [get?_finishResync, Option.bind_eq_some_iff] at hget
      obtain ⟨old, hold, hget⟩ := hget
      split at hget
      · cases hget
      · next hne =>
          obtain rfl := Option.some.inj hget
          refine ⟨hne, fun u hu => ?_⟩
          obtain ⟨hut, hu⟩ := Finset.mem_erase.mp hu
          have hmem := (h old hold).2 hu
          rw [List.toFinset_cons, Finset.mem_insert] at hmem
          exact hmem.resolve_left hut

/-! ## The record of a piece -/

/-- When the last command of a piece was sent, nothing awaits a snapshot that
the piece takes away: no market it removes, and no market at all where the
group goes but the subscription stays. -/
def TakesNothingAwaited : Conn.RecordCondition
  | resyncing, _, .removeMarkets _ tickers =>
      ∀ sid awaiting, resyncing.get? sid = some awaiting → ∀ t ∈ awaiting, t ∉ tickers
  | resyncing, subscriptions, .removeGroup groupId =>
      ∀ sid awaiting, resyncing.get? sid = some awaiting →
        ∃ info, subscriptions.get? sid = some info ∧ info.groupId = groupId
  | _, _, _ => True

theorem Resyncs.recorded (h : s.Resyncs) {piece : PlanChange} (hf : Fits s.applied piece)
    (hm : TakesNothingAwaited s.resyncing s.subscriptions piece) :
    (s.recordChange piece).1.Resyncs := by
  cases piece with
  | addGroup g => exact resyncs_of_none (h.none_of_unapplied hf)
  | removeGroup groupId =>
      obtain ⟨g, hg, rfl⟩ := hf
      rw [recordChange, hg]
      simp only [ne_eq, not_true_eq_false, if_false]
      refine resyncs_of_none fun sid => ?_
      refine Option.eq_none_iff_forall_ne_some.mpr fun awaiting hget => ?_
      rw [releaseBooks, Dict.get?_filter, Option.filter_eq_some_iff] at hget
      obtain ⟨info, hinfo, hgroup⟩ := hm sid awaiting hget.1
      have hgone : sid ∈ (s.subscriptions.filter fun _ info => info.groupId = g.groupId).keys := by
        refine Dict.mem_keys_iff.mpr ⟨info, ?_⟩
        rw [Dict.get?_filter, hinfo]
        simp [hgroup]
      simpa [hgone] using hget.2
  | addMarkets groupId tickers =>
      obtain ⟨g, hg, rfl⟩ := hf
      rw [recordChange, hg]
      simp only [ne_eq, not_true_eq_false, if_false]
      refine ⟨h.nonempty, h.keyed, fun sid awaiting hget t ht => ?_⟩
      have hmem := h.applied sid awaiting hget ht
      rw [hg] at hmem
      exact Finset.mem_union_left _ hmem
  | removeMarkets groupId tickers =>
      obtain ⟨g, hg, rfl, -⟩ := hf
      rw [recordChange, hg]
      simp only [ne_eq, not_true_eq_false, if_false]
      refine ⟨h.nonempty, h.keyed, fun sid awaiting hget t ht => ?_⟩
      have hmem := h.applied sid awaiting hget ht
      rw [hg] at hmem
      refine Finset.mem_sdiff.mpr ⟨hmem, fun hin => ?_⟩
      exact hm sid awaiting hget t ht (List.mem_toFinset.mp hin)

theorem Populated.recorded (h : s.Populated config) {piece : PlanChange}
    (hf : Fits s.applied piece) (hq : ∀ g, piece = .addGroup g → g.tickers ≠ ∅) :
    (s.recordChange piece).1.Populated config := by
  cases piece with
  | addGroup g =>
      refine ⟨h.configured, h.desired, fun g' hg' => ?_⟩
      obtain rfl := Option.some.inj hg'
      exact hq g rfl
  | removeGroup groupId =>
      obtain ⟨g, hg, rfl⟩ := hf
      rw [recordChange, hg]
      simp only [ne_eq, not_true_eq_false, if_false]
      exact ⟨h.configured, h.desired, by rintro _ ⟨⟩⟩
  | addMarkets groupId tickers =>
      obtain ⟨g, hg, rfl⟩ := hf
      rw [recordChange, hg]
      simp only [ne_eq, not_true_eq_false, if_false]
      refine ⟨h.configured, h.desired, fun g' hg' => ?_⟩
      obtain rfl := Option.some.inj hg'
      intro hempty
      exact h.applied g hg (Finset.union_eq_empty.mp hempty).1
  | removeMarkets groupId tickers =>
      obtain ⟨g, hg, rfl, hne⟩ := hf
      rw [recordChange, hg]
      simp only [ne_eq, not_true_eq_false, if_false]
      refine ⟨h.configured, h.desired, fun g' hg' => ?_⟩
      obtain rfl := Option.some.inj hg'
      exact hne

/-! ## Replies -/

/-- A reply leaves no entry behind, and makes none that is empty. -/
structure SparesAwaited (s : Supervisor) (env : Envelope) : Prop where
  /-- No orderbook id on which snapshots are awaited is bound to another channel. -/
  rebound : ∀ p sid channel, s.answering env = some (p, sid, channel) →
    channel ≠ orderbookChannel → s.resyncing.get? sid = none
  /-- A merge reports every market that is awaited. -/
  merged : ∀ p sid channel msg tickers, s.answering env = some (p, sid, channel) →
    env.body = .ok (.ok msg) → msg.marketTickers = some tickers → tickers ≠ [] →
    s.appliedId = some p.groupId →
    ∀ sid awaiting, s.resyncing.get? sid = some awaiting → ∀ t ∈ awaiting, t ∈ tickers
  /-- A merge of the orderbook channel leaves something to ask for, or something
  is awaited on its subscription already. -/
  wanted : ∀ p sid msg tickers, s.answering env = some (p, sid, orderbookChannel) →
    env.body = .ok (.ok msg) → msg.marketTickers = some tickers → tickers ≠ [] →
    s.appliedId = some p.groupId → s.resyncing.get? sid = none →
    ∃ t ∈ tickers, t ∈ tickersOf s.desired ∧ s.fresh t = false
  /-- A group is refused as a whole only while nothing is awaited. -/
  refused : ∀ id p msg, env.body = .error (.ok msg) → env.id = some id →
    s.pending.get? id = some p → p.groupId ≠ firehoseGroupId → ¬ s.Carried p.groupId →
    ∀ sid, s.resyncing.get? sid = none

theorem Resyncs.answer (h : s.Resyncs) (id : Int) (p : PendingSubscribe) (sid : Sid)
    (channel : String) (hspare : channel ≠ orderbookChannel → s.resyncing.get? sid = none) :
    (s.answer id p sid channel).Resyncs where
  nonempty := h.nonempty
  applied := h.applied
  keyed sid' awaiting hget := by
    by_cases hsid : sid = sid'
    · subst hsid
      have hc : channel = orderbookChannel := by
        by_contra hc
        have hnone : (s.answer id p sid channel).resyncing.get? sid = none := hspare hc
        rw [hget] at hnone
        cases hnone
      rw [isBookSid, Supervisor.answer, Dict.get?_set_self]
      exact decide_eq_true hc
    · rw [isBookSid, Supervisor.answer, Dict.get?_set_ne hsid]
      exact h.keyed sid' awaiting hget

theorem Resyncs.requestSnapshot (h : s.Resyncs) {sid : Sid} {tickers : Finset Ticker}
    (hbook : s.isBookSid sid = true) (hsub : tickers ⊆ tickersOf s.applied)
    (hne : tickers ≠ ∅ ∨ s.resyncing.get? sid ≠ none) :
    (s.requestSnapshot sid tickers).1.Resyncs := by
  obtain ⟨hc, -⟩ := s.requestSnapshot_control sid tickers
  -- Every entry is an old one, or the one asked for.
  have hcases : ∀ sid' awaiting, (s.requestSnapshot sid tickers).1.resyncing.get? sid' =
      some awaiting → s.resyncing.get? sid' = some awaiting ∨
        sid = sid' ∧ awaiting = s.resyncing.getD sid ∅ ∪ tickers := by
    intro sid' awaiting hget
    rw [requestSnapshot_resyncing, Dict.get?_set] at hget
    split at hget
    · next heq => exact .inr ⟨heq, (Option.some.inj hget).symm⟩
    · exact .inl hget
  refine ⟨?_, ?_, ?_⟩
  · intro sid' awaiting hget
    rcases hcases sid' awaiting hget with hold | ⟨rfl, rfl⟩
    · exact h.nonempty sid' awaiting hold
    · intro hempty
      obtain ⟨hold, hnone⟩ := Finset.union_eq_empty.mp hempty
      rcases hne with hne | hne
      · exact hne hnone
      · cases hget : s.resyncing.get? sid with
        | none => exact hne hget
        | some old =>
            rw [Dict.getD, hget] at hold
            exact h.nonempty sid old hget hold
  · intro sid' awaiting hget
    rw [hc.isBookSid]
    rcases hcases sid' awaiting hget with hold | ⟨rfl, -⟩
    · exact h.keyed sid' awaiting hold
    · exact hbook
  · intro sid' awaiting hget
    rw [hc.applied]
    rcases hcases sid' awaiting hget with hold | ⟨rfl, rfl⟩
    · exact h.applied sid' awaiting hold
    · refine Finset.union_subset ?_ hsub
      cases hget : s.resyncing.get? sid with
      | none => simp [Dict.getD, hget]
      | some old =>
          rw [Dict.getD, hget]
          exact h.applied sid old hget

theorem Resyncs.adoptMembership (h : s.Resyncs) (groupId : String) (sid : Sid)
    (channel : String) (marketTickers : Option (List Ticker))
    (hbook : channel = orderbookChannel → s.isBookSid sid = true)
    (hmerged : ∀ tickers, marketTickers = some tickers → tickers ≠ [] →
      s.appliedId = some groupId →
      ∀ sid awaiting, s.resyncing.get? sid = some awaiting → ∀ t ∈ awaiting, t ∈ tickers)
    (hwanted : channel = orderbookChannel → ∀ tickers, marketTickers = some tickers →
      tickers ≠ [] → s.appliedId = some groupId → s.resyncing.get? sid = none →
      ∃ t ∈ tickers, t ∈ tickersOf s.desired ∧ s.fresh t = false) :
    (s.adoptMembership groupId sid channel marketTickers).1.Resyncs := by
  rw [Supervisor.adoptMembership.eq_def]
  split
  · next _ _ t ts g hg =>
      split
      · exact h
      · next hgroup =>
          have hown : s.appliedId = some groupId := by
            rw [appliedId, hg]
            exact congrArg some (not_not.mp hgroup)
          have hmerged := hmerged (t :: ts) rfl (List.cons_ne_nil _ _) hown
          have hadopted : ∃ s' : Supervisor, (if (t :: ts).toFinset ≠ g.tickers then
              { s with applied := some { g with tickers := (t :: ts).toFinset }
                       reconcileDeferred := true }
              else s) = s' ∧ s'.Resyncs ∧ tickersOf s'.applied = (t :: ts).toFinset ∧
                s'.resyncing = s.resyncing ∧ s'.subscriptions = s.subscriptions ∧
                s'.desired = s.desired ∧ s'.books = s.books := by
            refine ⟨_, rfl, ?_⟩
            split
            · refine ⟨⟨h.nonempty, h.keyed, ?_⟩, rfl, rfl, rfl, rfl, rfl⟩
              intro sid' awaiting hget u hu
              exact List.mem_toFinset.mpr (hmerged sid' awaiting hget u hu)
            · next heq =>
                refine ⟨h, ?_, rfl, rfl, rfl, rfl⟩
                rw [hg]
                exact (not_not.mp heq).symm
          obtain ⟨s', hs', hr, htickers, hres, hsub, hdes, hbooks⟩ := hadopted
          simp only [hs']
          split
          · exact hr
          · next hc =>
              have hc := not_not.mp hc
              refine hr.requestSnapshot ?_ ?_ ?_
              · rw [isBookSid, hsub]
                exact hbook hc
              · rw [htickers]
                exact (Finset.filter_subset _ _).trans Finset.inter_subset_left
              · by_cases hnone : s.resyncing.get? sid = none
                · obtain ⟨u, hu, hdesired, hstale⟩ := hwanted hc (t :: ts) rfl
                    (List.cons_ne_nil _ _) hown hnone
                  refine .inl (Finset.ne_empty_of_mem (Finset.mem_filter.mpr
                    ⟨Finset.mem_inter.mpr ⟨List.mem_toFinset.mpr hu, hdes ▸ hdesired⟩, ?_⟩))
                  rw [fresh] at hstale ⊢
                  simp only [hbooks, hstale, Bool.not_false]
                · exact .inr (hres ▸ hnone)
  · exact h

theorem Populated.adoptMembership (h : s.Populated config) (groupId : String) (sid : Sid)
    (channel : String) (marketTickers : Option (List Ticker)) :
    (s.adoptMembership groupId sid channel marketTickers).1.Populated config := by
  have hsnap : ∀ {s : Supervisor} (tickers : Finset Ticker), s.Populated config →
      (s.requestSnapshot sid tickers).1.Populated config := by
    intro s tickers h
    obtain ⟨hc, -⟩ := s.requestSnapshot_control sid tickers
    exact h.of_same hc.config hc.desired hc.applied
  rw [Supervisor.adoptMembership.eq_def]
  split
  · next _ _ t ts g hg =>
      split
      · exact h
      · have hadopted : (if (t :: ts).toFinset ≠ g.tickers then
            { s with applied := some { g with tickers := (t :: ts).toFinset }
                     reconcileDeferred := true }
            else s).Populated config := by
          split
          · refine ⟨h.configured, h.desired, fun g' hg' => ?_⟩
            obtain rfl := Option.some.inj hg'
            simp
          · exact h
        simp only
        split
        · exact hadopted
        · exact hsnap _ hadopted
  · exact h

theorem Resyncs.withLock (h : s.Resyncs) {env : Envelope} (hs : s.SparesAwaited env) :
    (s.withLock env).1.Resyncs := by
  rw [Supervisor.withLock.eq_def]
  split
  · next msg hbody =>
      have hnoted : { s with channelOfSid := s.channelOfSid.set msg.sid msg.channel }.Resyncs :=
        h.of_same rfl rfl rfl
      simp only
      split
      · exact hnoted
      · next id hid =>
          split
          · exact hnoted
          · next p hp =>
              refine hnoted.answer id p msg.sid msg.channel ?_
              exact hs.rebound p msg.sid msg.channel (by simp only [answering, hid, hp, hbody])
  · next msg hbody =>
      split
      · exact h
      · next id hid =>
          split
          · next p sid hp hsid =>
              split
              · exact h
              · next channel hchannel =>
                  split
                  · exact h
                  · next hin =>
                      split
                      · exact h.of_same rfl rfl rfl
                      · next m =>
                          have hanswering : s.answering env = some (p, sid, channel) := by
                            simp only [answering, hid, hp, hbody, hsid, hchannel]
                            rw [if_pos (not_not.mp hin)]
                          refine (h.answer id p sid channel
                            (hs.rebound p sid channel hanswering)).adoptMembership _ _ _ _ ?_ ?_ ?_
                          · rintro rfl
                            rw [isBookSid, Supervisor.answer, Dict.get?_set_self]
                            exact decide_eq_true rfl
                          · exact fun tickers => hs.merged p sid channel m tickers hanswering hbody
                          · rintro rfl tickers
                            exact hs.wanted p sid m tickers hanswering hbody
          · exact h
  · next msg hbody =>
      split
      · exact h
      · next id hid =>
          split
          · exact h
          · next p hp =>
              simp only
              split
              · exact h.of_same rfl rfl rfl
              · next hnot =>
                  split
                  · next hall =>
                      refine resyncs_of_none (hs.refused id p msg hbody hid hp hnot ?_)
                      rintro ⟨sid, info, hinfo, hg⟩
                      rw [List.all_eq_true] at hall
                      have := hall info (List.mem_map_of_mem (Dict.get?_eq_some_iff.mp hinfo))
                      exact absurd hg (by simpa using this)
                  · exact h.of_same rfl rfl rfl
  · exact h

theorem Populated.withLock (h : s.Populated config) (env : Envelope) :
    (s.withLock env).1.Populated config := by
  have hanswer : ∀ id p sid channel, (s.answer id p sid channel).Populated config :=
    fun _ _ _ _ => h.of_same rfl rfl rfl
  have hunapplied : ∀ {s' : Supervisor}, s'.config = s.config → s'.desired = s.desired →
      s'.applied = none → s'.Populated config := fun hc hd ha =>
    ⟨hc.trans h.configured, hd ▸ h.desired, fun g hg => by rw [ha] at hg; cases hg⟩
  rw [Supervisor.withLock.eq_def]
  split
  · simp only
    split
    · exact h.of_same rfl rfl rfl
    · split
      · exact h.of_same rfl rfl rfl
      · exact h.of_same rfl rfl rfl
  · split
    · exact h
    · split
      · split
        · exact h
        · split
          · exact h
          · split
            · exact h.of_same rfl rfl rfl
            · exact (hanswer _ _ _ _).adoptMembership _ _ _ _
      · exact h
  · split
    · exact h
    · split
      · exact h
      · simp only
        split
        · exact h.of_same rfl rfl rfl
        · split
          · exact hunapplied rfl rfl rfl
          · exact h.of_same rfl rfl rfl
  · exact h

end Supervisor

namespace Conn

theorem resyncs_bookkeeping {config : SupervisorConfig}
    (hmax : 0 < config.maxMarketsPerCommand) :
    Bookkeeping (fun s => s.Resyncs ∧ s.Populated config)
      (fun piece => ∀ g, piece = .addGroup g → g.tickers ≠ ∅) True
      (fun group => ∀ g, group = some g → g.tickers ≠ ∅)
      Supervisor.SparesAwaited Supervisor.TakesNothingAwaited where
  touched s s' h ht :=
    ⟨h.1.touched h.2 ht, h.2.of_same ht.control.config ht.control.desired ht.control.applied⟩
  setGroup s group h _ hm := ⟨h.1.of_same rfl rfl rfl, h.2.configured, hm, h.2.applied⟩
  deferred s b h := ⟨h.1.of_same rfl rfl rfl, h.2.of_same rfl rfl rfl⟩
  firehose s h := ⟨h.1.of_same rfl rfl rfl, h.2.of_same rfl rfl rfl⟩
  firehoseSent s id h _ := ⟨h.1.of_same rfl rfl rfl, h.2.of_same rfl rfl rfl⟩
  planned s h piece hmem g hpiece := by
    obtain ⟨d, hd, -, hne⟩ :=
      (reshaping_pieces s.config.maxMarketsPerCommand s.applied s.desired).addGroup (hpiece ▸ hmem)
    exact hne (h.2.configured ▸ hmax) (h.2.desired d hd)
  unplanned _ _ _ _ _ _ _ _ _ := trivial
  recorded s piece id h hp hq hm := by
    have hafter : (s.afterCommand piece id).Resyncs ∧
        (s.afterCommand piece id).Populated config ∧
        Fits (s.afterCommand piece id).applied piece ∧
        Supervisor.TakesNothingAwaited (s.afterCommand piece id).resyncing
          (s.afterCommand piece id).subscriptions piece := by
      cases piece with
      | addGroup g =>
          exact ⟨h.1.of_same rfl rfl rfl, h.2.of_same rfl rfl rfl, hp.chain.1, trivial⟩
      | removeGroup groupId => exact ⟨h.1, h.2, hp.chain.1, hm⟩
      | addMarkets groupId tickers => exact ⟨h.1, h.2, hp.chain.1, hm⟩
      | removeMarkets groupId tickers => exact ⟨h.1, h.2, hp.chain.1, hm⟩
    exact ⟨hafter.1.recorded hafter.2.2.1 hafter.2.2.2, hafter.2.1.recorded hafter.2.2.1 hq⟩
  reply s env h hm := ⟨h.1.withLock hm, h.2.withLock env⟩
  prune s h := ⟨h.1.of_same rfl rfl rfl, h.2.of_same rfl rfl rfl⟩
  forget s h _ := ⟨Supervisor.resyncs_of_none fun _ => rfl, h.2.configured, h.2.desired, nofun⟩
  ended s detail h :=
    ⟨Supervisor.resyncs_of_none fun _ => rfl, h.2.configured, h.2.desired, nofun⟩

/-- The bookkeeping of the awaited snapshots, and what it is for: once every
market of the group was snapshotted, nothing on the subscription is awaited. -/
structure Settles (c : Conn) : Prop where
  resyncs : c.sup.Resyncs
  gone : ∀ sid (ts : List Ticker), tickersOf c.sup.applied ⊆ ts.toFinset →
    (ts.foldl (fun s t => s.finishResync sid t) c.sup).resyncing.get? sid = none

theorem resyncs_throughout {config : SupervisorConfig}
    (hmax : 0 < config.maxMarketsPerCommand) (es : List ConnEvent)
    (hes : Run.Along step
      (Meets (fun group => ∀ g, group = some g → g.tickers ≠ ∅) Supervisor.SparesAwaited
        (Records Supervisor.TakesNothingAwaited)) (.new config) es) :
    Run.Throughout step Settles (.new config) es := by
  have hnew : (Supervisor.new config).Resyncs ∧ (Supervisor.new config).Populated config :=
    ⟨Supervisor.resyncs_of_none fun _ => rfl, rfl, nofun, nofun⟩
  have hrun := (resyncs_bookkeeping hmax).discipline.throughout config hnew es hes
  refine hrun.mono fun c hc => ⟨hc.state.1, fun sid ts hts => ?_⟩
  refine Supervisor.resyncing_gone ts fun awaiting hget => ⟨?_, ?_⟩
  · exact hc.state.1.nonempty sid awaiting hget
  · exact (hc.state.1.applied sid awaiting hget).trans hts

/-! A gap on a subscription of two markets: one is snapshotted again, and the
other leaves the group, after its own snapshot came or before. -/

/-- Two markets of one group. -/
def twoMarkets : Group := ⟨"g0000", 0, {"KXA", "KXB"}⟩

/-- The second market's snapshot meets a gap, and a new one is asked for. -/
def gapBeforeSecond : List ConnEvent :=
  [.begin, .opened, .setGroup (some twoMarkets), .acquire, .transmit, .sendReturns,
    .receive (subscribedFrame 1 orderbookChannel 1), .acquireFrame,
    .receive (snapshotFrame 1 1 "KXA"), .receive (snapshotFrame 1 3 "KXB"), .transmitFrame,
    .frameSendReturns]

/-- The group loses its first market. -/
def dropFirst : List ConnEvent :=
  [.setGroup (some ⟨"g0000", 0, {"KXB"}⟩), .acquire, .transmit, .sendReturns]

theorem snapshotBeforeDrop_settles :
    Run.Throughout step Settles (.new groupConfig)
      (gapBeforeSecond ++ .receive (snapshotFrame 1 4 "KXA") :: dropFirst) := by
  refine resyncs_throughout (by decide) _ ?_
  refine ⟨trivial, trivial, ?_, trivial, trivial, ?_, trivial, ?_, trivial, trivial, trivial,
    trivial, trivial, ?_, trivial, trivial, ?_, trivial⟩
  · intro g hg
    obtain rfl := Option.some.inj hg
    decide
  · intro h hh
    obtain rfl := Option.some.inj hh
    trivial
  · intro env henv
    obtain rfl := FrameTask.waiting.inj (Option.some.inj henv)
    exact ⟨fun _ _ _ _ _ => rfl, nofun, nofun, nofun⟩
  · intro g hg
    obtain rfl := Option.some.inj hg
    decide
  · intro h hh
    obtain rfl := Option.some.inj hh
    intro sid awaiting hget
    cases hget

/-- The market is removed while its snapshot is awaited. Likewise a merge that
reports another market, while the trade channel has not answered. -/
theorem leftover_unsettled :
    ¬ Run.Throughout step Settles (.new groupConfig) (gapBeforeSecond ++ dropFirst) ∧
      ¬ Run.Throughout step Settles (.new mergeConfig)
        (snapshotBeforeMerge.take 18 ++
          [.receive (okFrame 3 1 ["KXC"]), .acquireFrame]) := by
  constructor
  · intro h
    have hsub : ({"KXA"} : Finset Ticker) ⊆ {"KXB"} := h.last.resyncs.applied 1 {"KXA"} rfl
    exact absurd hsub (by decide)
  · intro h
    exact h.last.resyncs.nonempty 1 ∅ rfl rfl

end Conn

end Tape
