import Tape.Recorder.Feed

/-!
# Frames delivered again

A number that does not advance stales the group and asks for its snapshots, and
the frame is then dispatched like any other. A delta finds its market stale and
is ignored. A snapshot does not: it makes its market fresh again, with the
contents it had when it was first sent. If its market was awaiting a snapshot
the frame is not even judged, and the baseline moves back to its number.

`replay_soundness_iff` gives the replays that do no harm.
-/

namespace Tape

namespace World

variable {S : Sid} {g : Group} {w : World}

variable (S) in
/-- The events of a run in which nothing is lost and frames come again. -/
def Replaying (w : World) : FeedEvent → Prop
  | .deliver f => w.Honest S f
  | .replay f => w.Replayed S f
  | .aside f => w.Aside S f
  | _ => False

variable (S) in
/-- What a frame delivered again must not do. A snapshot must show the book as
it still is, unless no book can hold it. A delta must not be next after the
baseline, which a replayed snapshot may have set back, for a fresh market that
takes it. -/
def HarmlessChange (w : World) (seq : Option Int) (t : Ticker) : Change → Prop
  | .snapshot bids asks =>
      Book.ValidImage bids asks → Depth.ofLevels bids asks = w.seen t
  | .delta s p x =>
      (∃ k, w.sup.tracker.baseline S = some k ∧ seq = some (k + 1)) →
        w.sup.live t ≠ none → Book.Fits (w.seen t) s p x → x = 0

variable (S g) in
/-- The changes of the replays of a run are harmless. -/
def HarmlessReplay (w : World) : FeedEvent → Prop
  | .replay f => ∀ env t c, f.payload = .ok env →
      Supervisor.changeOf w.sup.config env (w.sup.receiptOf f) = some (t, c) →
      t ∈ g.tickers → w.HarmlessChange S env.seq t c
  | _ => True

variable (S g) in
/-- Where the recorder stands on any run with replays: its baseline is the last
number, or an older one a replayed snapshot set it back to. -/
structure ReplayInv (w : World) : Prop where
  serving : w.sup.Serving S g
  current : ∀ k, w.last = some k → k + 1 = w.next ∧ w.books = w.seen
  fresh : w.last = none → w.log = [] ∧ w.sup.tracker.baseline S = none ∧
    ∀ t ∈ g.tickers, w.sup.live t = none
  baseline : ∀ k, w.last = some k → ∃ b, w.sup.tracker.baseline S = some b ∧ b ≤ k
  log : ∀ f ∈ w.log, ∃ env n, f.payload = .ok env ∧ env.sid = some S ∧ env.seq = some n ∧
    n < w.next

theorem ReplayInv.known (hi : ReplayInv S g w) (hs : w.Sound g) {t : Ticker}
    (ht : t ∈ g.tickers) {d : Depth} (hd : w.sup.live t = some d) : d = w.books t := by
  cases hlast : w.last with
  | none =>
      rw [(hi.fresh hlast).2.2 t ht] at hd
      cases hd
  | some k =>
      rw [(hi.current k hlast).2]
      exact hs t ht d hd

/-- A new frame moves the baseline to its number. -/
theorem ReplayInv.judged (hi : ReplayInv S g w) {f : RawFrame} {env : Envelope}
    (hn : w.Numbered S f env) : (w.sup.judged S env).1 = some w.next := by
  rw [Supervisor.judged, hn.seq]
  cases env.body.isSnapshot && w.sup.awaits S with
  | true => rfl
  | false =>
      cases hlast : w.last with
      | none => rw [(hi.fresh hlast).2.1, GapTracker.judge_first]
      | some k =>
          obtain ⟨b, hb, hle⟩ := hi.baseline k hlast
          have hnext := (hi.current k hlast).1
          rw [hb]
          rcases eq_or_lt_of_le (show b + 1 ≤ w.next by omega) with heq | hgt
          · rw [← heq, GapTracker.judge_next]
          · rw [GapTracker.judge_ahead hgt]

/-- A frame delivered again leaves a baseline no newer than the last number. -/
theorem judge_le {b : Int} (awaited : Bool) {n k : Int} (hb : b ≤ k) (hn : n ≤ k) :
    ∃ b', (GapTracker.judge (some b) awaited (some n)).1 = some b' ∧ b' ≤ k := by
  cases awaited with
  | true => exact ⟨n, rfl, hn⟩
  | false =>
      rcases lt_trichotomy n (b + 1) with hlt | heq | hgt
      · exact ⟨b, by rw [GapTracker.judge_behind (by omega)], hb⟩
      · exact ⟨n, by rw [heq, GapTracker.judge_next], hn⟩
      · exact ⟨n, by rw [GapTracker.judge_ahead hgt], hn⟩

theorem ReplayInv.step (hi : ReplayInv S g w) {e : FeedEvent} (hL : w.Replaying S e) :
    ReplayInv S g (w.step e) := by
  cases e with
  | garble f => exact hL.elim
  | lose f => exact hL.elim
  | deliver f =>
      obtain ⟨env, hn, -, -⟩ := hL
      obtain ⟨hserv, -, hbase, -⟩ := receive hi.serving hn.payload hn.sid hn.quiet
      refine ⟨hserv, fun k hk => ⟨?_, rfl⟩, fun h => (by cases h), fun k hk => ?_, ?_⟩
      · obtain rfl := Option.some.inj hk
        rfl
      · obtain rfl := Option.some.inj hk
        exact ⟨w.next, hbase.trans (hi.judged hn), le_refl _⟩
      · intro f' hf'
        rcases List.mem_append.mp hf' with hold | hnew
        · obtain ⟨env', n, hp, hs, hq, hlt⟩ := hi.log f' hold
          exact ⟨env', n, hp, hs, hq, lt_trans hlt (Int.lt_succ _)⟩
        · obtain rfl := List.mem_singleton.mp hnew
          exact ⟨env, w.next, hn.payload, hn.sid, hn.seq, Int.lt_succ _⟩
  | replay f =>
      obtain ⟨hlog, hquiet⟩ := hL
      obtain ⟨env, n, hpayload, hsid, hseq, hlt⟩ := hi.log f hlog
      obtain ⟨hserv, -, hbase, -⟩ :=
        receive hi.serving hpayload hsid (hquiet env hpayload)
      refine ⟨hserv, hi.current, fun h => ?_, fun k hk => ?_, hi.log⟩
      · rw [(hi.fresh h).1] at hlog
        cases hlog
      · obtain ⟨b, hb, hle⟩ := hi.baseline k hk
        have hnext := (hi.current k hk).1
        obtain ⟨b', hb', hle'⟩ := judge_le (env.body.isSnapshot && w.sup.awaits S) hle
          (show n ≤ k by omega)
        refine ⟨b', hbase.trans ?_, hle'⟩
        rw [Supervisor.judged, hb, hseq]
        exact hb'
  | aside f =>
      obtain ⟨hserv, -, hbase, hlive⟩ := receive_aside hi.serving hL
      refine ⟨hserv, hi.current, fun h => ?_, fun k hk => ?_, hi.log⟩
      · obtain ⟨hlog, hb, hnone⟩ := hi.fresh h
        exact ⟨hlog, hbase.trans hb, fun t ht => (hlive t).trans (hnone t ht)⟩
      · obtain ⟨b, hb, hle⟩ := hi.baseline k hk
        exact ⟨b, hbase.trans hb, hle⟩

/-- A delta envelope is not a snapshot envelope. -/
theorem changeOf_of_delta {config : SupervisorConfig} {env : Envelope} {receipt : Receipt}
    {t : Ticker} {s : Side} {p x : Int}
    (h : Supervisor.changeOf config env receipt = some (t, .delta s p x)) :
    env.body.isSnapshot = false := by
  by_contra hsnap
  obtain ⟨bids, asks, hc⟩ := changeOf_of_isSnapshot (by simpa using hsnap) h
  cases hc

/-- On a frame delivered again, a delta escapes the verdict exactly when its
number is next after the baseline. -/
theorem ReplayInv.judged_delta_iff (hi : ReplayInv S g w) {f : RawFrame} (hlog : f ∈ w.log)
    {env : Envelope} {n : Int} (hseq : env.seq = some n)
    (hsnap : env.body.isSnapshot = false) :
    (w.sup.judged S env).2 = false ↔
      ∃ k, w.sup.tracker.baseline S = some k ∧ env.seq = some (k + 1) := by
  have hlast : w.last ≠ none := by
    intro h
    rw [(hi.fresh h).1] at hlog
    cases hlog
  obtain ⟨k, hk⟩ := Option.ne_none_iff_exists'.mp hlast
  obtain ⟨b, hb, -⟩ := hi.baseline k hk
  rw [Supervisor.judged, hsnap, Bool.false_and, hb, hseq]
  constructor
  · intro h
    refine ⟨b, rfl, ?_⟩
    rcases lt_trichotomy n (b + 1) with hlt | heq | hgt
    · rw [GapTracker.judge_behind (by omega)] at h
      cases h
    · rw [heq]
    · rw [GapTracker.judge_ahead hgt] at h
      cases h
  · rintro ⟨k, hk, hn⟩
    obtain rfl := Option.some.inj hk
    obtain rfl := Option.some.inj hn
    rw [GapTracker.judge_next]

/-- One step: from a sound state, a frame leads to a sound one exactly when it
is not a harmful replay. -/
theorem replay_step_iff (hi : ReplayInv S g w) (hP : w.Sound g) {e : FeedEvent}
    (hL : w.Replaying S e) : (w.step e).Sound g ↔ HarmlessReplay S g w e := by
  cases e with
  | garble f => exact hL.elim
  | lose f => exact hL.elim
  | aside f =>
      obtain ⟨-, -, -, hlive⟩ := receive_aside hi.serving hL
      exact iff_of_true (fun t ht d hd => hP t ht d ((hlive t).symm.trans hd)) trivial
  | deliver f =>
      obtain ⟨env, hn, htruth, -⟩ := hL
      obtain ⟨-, -, -, hlive⟩ := receive hi.serving hn.payload hn.sid hn.quiet
      rw [← htruth] at hlive
      refine iff_of_true (fun u hu d hd => ?_) trivial
      refine followed_sound u (fun e he => ?_) ((hlive u).symm.trans hd) hu
      split at he
      · cases he
      · exact hi.known hP hu he
  | replay f =>
      obtain ⟨hlog, hquiet⟩ := hL
      obtain ⟨env, n, hpayload, hsid, hseq, -⟩ := hi.log f hlog
      obtain ⟨-, -, -, hlive⟩ := receive hi.serving hpayload hsid (hquiet env hpayload)
      have hbase : ∀ u ∈ g.tickers, ∀ d, (if (w.sup.judged S env).2 = true ∧ u ∈ g.tickers
          then none else w.sup.live u) = some d → d = w.seen u := by
        intro u hu d hd
        split at hd
        · cases hd
        · exact hP u hu d hd
      cases hc : Supervisor.changeOf w.sup.config env (w.sup.receiptOf f) with
      | none =>
          rw [hc] at hlive
          refine iff_of_true (fun u hu d hd => hbase u hu d ((hlive u).symm.trans hd)) ?_
          intro env' t c henv' hc' _
          obtain rfl := Except.ok.inj (hpayload.symm.trans henv')
          rw [hc] at hc'
          cases hc'
      | some tc =>
          obtain ⟨t, c⟩ := tc
          rw [hc] at hlive
          -- Only the market the frame names can be wrong after it.
          have hmarket : (w.step (.replay f)).Sound g ↔ (t ∈ g.tickers → ∀ d, c.follow
              (if (w.sup.judged S env).2 = true ∧ t ∈ g.tickers then none
                else w.sup.live t) = some d → d = w.seen t) := by
            constructor
            · intro h ht d hd
              refine h t ht d ((hlive t).trans ?_)
              rw [Supervisor.followed, if_pos ⟨ht, rfl⟩]
              exact hd
            · intro h u hu d hd
              have hd' := (hlive u).symm.trans hd
              simp only [Supervisor.followed] at hd'
              by_cases htu : t ∈ g.tickers ∧ t = u
              · rw [if_pos htu] at hd'
                obtain ⟨ht, rfl⟩ := htu
                exact h ht d hd'
              · rw [if_neg htu] at hd'
                exact hbase u hu d hd'
          have hharmless : HarmlessReplay S g w (.replay f) ↔
              (t ∈ g.tickers → w.HarmlessChange S env.seq t c) := by
            constructor
            · exact fun h ht => h env t c hpayload hc ht
            · intro h env' t' c' henv' hc' ht
              obtain rfl := Except.ok.inj (hpayload.symm.trans henv')
              obtain ⟨rfl, rfl⟩ := Prod.mk.inj (Option.some.inj (hc.symm.trans hc'))
              exact h ht
          rw [hmarket, hharmless]
          refine imp_congr_right fun ht => ?_
          cases c with
          | snapshot bids asks =>
              rw [HarmlessChange]
              by_cases hv : Book.ValidImage bids asks
              · rw [Change.follow_snapshot_of_valid hv]
                constructor
                · exact fun h _ => h _ rfl
                · rintro h d hd
                  obtain rfl := Option.some.inj hd
                  exact h hv
              · rw [Change.follow_snapshot_of_invalid hv]
                exact iff_of_true (fun d hd => by cases hd) (fun h => absurd h hv)
          | delta s p x =>
              rw [HarmlessChange]
              have hnext := hi.judged_delta_iff hlog hseq (changeOf_of_delta hc)
              cases hv : (w.sup.judged S env).2 with
              | true =>
                  rw [if_pos ⟨rfl, ht⟩, Change.follow_delta_none]
                  refine iff_of_true (fun d hd => by cases hd) (fun h => ?_)
                  rw [hnext.mpr h] at hv
                  cases hv
              | false =>
                  rw [if_neg (by simp)]
                  cases hl : w.sup.live t with
                  | none =>
                      rw [Change.follow_delta_none]
                      exact iff_of_true (fun d hd => by cases hd) (fun _ h => absurd rfl h)
                  | some e =>
                      obtain rfl := hP t ht e hl
                      by_cases hfit : Book.Fits (w.seen t) s p x
                      · rw [Change.follow_delta_of_fits hfit]
                        constructor
                        · exact fun h _ _ _ => Depth.add_eq_self_iff.mp (h _ rfl)
                        · intro h d hd
                          obtain rfl := Option.some.inj hd
                          exact Depth.add_eq_self_iff.mpr (h (hnext.mp hv) (by simp) hfit)
                      · rw [Change.follow_delta_of_not_fits hfit]
                        exact iff_of_true (fun d hd => by cases hd)
                          (fun _ _ h => absurd h hfit)

/-- With nothing lost and earlier frames delivered again, the books stay sound
exactly on the runs in which every replay is harmless. -/
theorem replay_soundness_iff (S : Sid) (g : Group) (w : World) (es : List FeedEvent)
    (hw : w.Started S g) (hes : Run.Along step (Replaying S) w es) :
    Run.Throughout step (Sound g) w es ↔ Run.Along step (HarmlessReplay S g) w es := by
  have hI : ReplayInv S g w :=
    { serving := hw.serving
      current := fun k hk => by rw [hw.last] at hk; cases hk
      fresh := fun _ => ⟨hw.log, hw.baseline, hw.stale⟩
      baseline := fun k hk => by rw [hw.last] at hk; cases hk
      log := fun f hf => by rw [hw.log] at hf; cases hf }
  have hP : w.Sound g := fun t ht d hd => by rw [hw.stale t ht] at hd; cases hd
  exact Run.throughout_iff_along (fun _ _ hi hL => hi.step hL)
    (fun _ _ hi hp hL => replay_step_iff hi hp hL) hI hP hes

/-- A delta comes twice: the group is staled and the delta ignored. -/
def deltaTwice : List FeedEvent :=
  [.deliver (meant (quoteSnapshot 1 "KXA" "1.00")),
    .deliver (meant (quoteDelta 2 "KXA" "0.50")), .replay (quoteDelta 2 "KXA" "0.50")]

theorem deltaTwice_sound :
    Run.Throughout step (Sound quotedGroup) quotedWorld deltaTwice := by
  refine (replay_soundness_iff 1 quotedGroup quotedWorld deltaTwice quoted_started
    ⟨?_, ?_, ?_, trivial⟩).mpr ⟨trivial, trivial, ?_, trivial⟩
  · exact ⟨_, ⟨rfl, rfl, rfl, nofun⟩, rfl, nofun⟩
  · exact ⟨_, ⟨rfl, rfl, rfl, nofun⟩, rfl, nofun⟩
  · refine ⟨List.mem_cons_of_mem _ List.mem_cons_self, fun env henv => ?_⟩
    obtain rfl := Except.ok.inj henv
    exact nofun
  · intro env t c henv hc _
    obtain rfl := Except.ok.inj henv
    have hdelta : some ("KXA", Change.delta .bid 4000 50) = some (t, c) := hc
    obtain ⟨-, rfl⟩ := Prod.mk.inj (Option.some.inj hdelta)
    rintro ⟨k, hbase, hseq⟩
    have hone : (2 : Int) = k + 1 := Option.some.inj hseq
    have htwo : ((quotedWorld.step (.deliver (meant (quoteSnapshot 1 "KXA" "1.00")))).step
        (.deliver (meant (quoteDelta 2 "KXA" "0.50")))).sup.tracker.baseline 1 = some 2 := by
      decide
    have hk := Option.some.inj (htwo.symm.trans hbase)
    omega

/-- A snapshot comes once more after a delta: the group is staled, and then the
snapshot is applied. -/
def snapshotTwice : List FeedEvent :=
  [.deliver (meant (quoteSnapshot 1 "KXA" "1.00")),
    .deliver (meant (quoteDelta 2 "KXA" "0.50")), .replay (quoteSnapshot 1 "KXA" "1.00")]

/-- The recorder then holds KXA fresh with 100 where the exchange has 150. -/
theorem snapshotTwice_unsound :
    quotedWorld.Started 1 quotedGroup ∧
      Run.Along step (Replaying 1) quotedWorld snapshotTwice ∧
      ¬ Run.Throughout step (Sound quotedGroup) quotedWorld snapshotTwice := by
  refine ⟨quoted_started, ⟨?_, ?_, ?_, trivial⟩, fun h => ?_⟩
  · exact ⟨_, ⟨rfl, rfl, rfl, nofun⟩, rfl, nofun⟩
  · exact ⟨_, ⟨rfl, rfl, rfl, nofun⟩, rfl, nofun⟩
  · refine ⟨List.mem_cons_self, fun env henv => ?_⟩
    obtain rfl := Except.ok.inj henv
    exact nofun
  · have hlast := h.last "KXA" (by decide) _ rfl
    have hbid := congrFun (congrFun hlast .bid) 4000
    revert hbid
    decide

end World

end Tape
