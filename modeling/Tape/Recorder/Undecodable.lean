import Tape.Recorder.Feed

/-!
# Payloads that do not decode

The sequence check comes before the payload is decoded. A delta that does not
decode has its number counted, so the next frame is no gap, and its change is
lost: the market stays fresh without it. Nothing later tells.

`undecodable_soundness_iff` says that this is the only way a run without losses
goes wrong, and that every such delta of a fresh market does go wrong.
-/

namespace Tape

namespace World

variable {S : Sid} {g : Group} {w : World}

variable (S g) in
/-- What is fresh is right, and a market with a missed frame is not fresh until it
is snapshotted. -/
structure MissSound (w : World) : Prop where
  sound : w.Sound g
  missed : ∀ t ∈ g.tickers, w.missed t = true → w.sup.live t = none

variable (S) in
/-- The events of a run in which nothing is lost. -/
def Garbling (w : World) : FeedEvent → Prop
  | .deliver f => w.Honest S f
  | .garble f => w.Garbled S f
  | .aside f => w.Aside S f
  | _ => False

variable (g) in
/-- No undecodable delta names a market of the group that is fresh. -/
def NoFreshMiss (w : World) : FeedEvent → Prop
  | .garble f => ∀ t ∈ g.tickers, deltas f.truth t = true → w.sup.live t = none
  | _ => True

variable (S g) in
/-- Where the recorder stands on any run without losses. -/
structure LosslessInv (w : World) : Prop where
  serving : w.sup.Serving S g
  baseline : w.sup.tracker.baseline S = w.last
  unknown : w.last = none → ∀ t ∈ g.tickers, w.sup.live t = none
  current : ∀ k, w.last = some k → k + 1 = w.next ∧ w.books = w.seen

/-- Without losses and replays no frame is judged a fault. -/
theorem LosslessInv.judged (hi : LosslessInv S g w) {f : RawFrame} {env : Envelope}
    (hn : w.Numbered S f env) : w.sup.judged S env = (some w.next, false) := by
  rw [Supervisor.judged, hi.baseline, hn.seq]
  cases env.body.isSnapshot && w.sup.awaits S with
  | true => rfl
  | false =>
      cases hlast : w.last with
      | none => rfl
      | some k => rw [← (hi.current k hlast).1, GapTracker.judge_next]

theorem LosslessInv.known (hi : LosslessInv S g w) (hs : w.Sound g) {t : Ticker}
    (ht : t ∈ g.tickers) {d : Depth} (hd : w.sup.live t = some d) : d = w.books t := by
  cases hlast : w.last with
  | none =>
      rw [hi.unknown hlast t ht] at hd
      cases hd
  | some k =>
      rw [(hi.current k hlast).2]
      exact hs t ht d hd

theorem LosslessInv.step (hi : LosslessInv S g w) {e : FeedEvent} (hL : w.Garbling S e) :
    LosslessInv S g (w.step e) := by
  have hnumbered : ∀ f : RawFrame, ∀ env, w.Numbered S f env →
      (w.sup.onFrame f).1.Serving S g ∧
        (w.sup.onFrame f).1.tracker.baseline S = some w.next := by
    intro f env hn
    obtain ⟨hserv, -, hbase, -⟩ := receive hi.serving hn.payload hn.sid hn.quiet
    exact ⟨hserv, by rw [hbase, hi.judged hn]⟩
  cases e with
  | deliver f =>
      obtain ⟨env, hn, -, -⟩ := hL
      obtain ⟨hserv, hbase⟩ := hnumbered f.frame env hn
      refine ⟨hserv, hbase, fun h => (by cases h), fun k hk => ⟨?_, rfl⟩⟩
      obtain rfl := Option.some.inj hk
      rfl
  | garble f =>
      obtain ⟨env, -, -, -, -, -, hn, -, -, -⟩ := hL
      obtain ⟨hserv, hbase⟩ := hnumbered f.frame env hn
      refine ⟨hserv, hbase, fun h => (by cases h), fun k hk => ⟨?_, rfl⟩⟩
      obtain rfl := Option.some.inj hk
      rfl
  | lose f => exact hL.elim
  | replay f => exact hL.elim
  | aside f =>
      obtain ⟨hserv, -, hbase, hlive⟩ := receive_aside hi.serving hL
      exact ⟨hserv, hbase.trans hi.baseline, fun h t ht => (hlive t).trans (hi.unknown h t ht),
        hi.current⟩

/-- One step: a frame keeps `MissSound` exactly when it is not an undecodable
delta of a fresh market. -/
theorem garble_step_iff (hi : LosslessInv S g w) (hP : MissSound g w) {e : FeedEvent}
    (hL : w.Garbling S e) : MissSound g (w.step e) ↔ NoFreshMiss g w e := by
  cases e with
  | lose f => exact hL.elim
  | replay f => exact hL.elim
  | aside f =>
      obtain ⟨-, -, -, hlive⟩ := receive_aside hi.serving hL
      refine iff_of_true ⟨fun t ht d hd => ?_, fun t ht hm => ?_⟩ trivial
      · exact hP.sound t ht d ((hlive t).symm.trans hd)
      · exact (hlive t).trans (hP.missed t ht hm)
  | deliver f =>
      obtain ⟨env, hn, htruth, -⟩ := hL
      obtain ⟨-, -, -, hlive⟩ := receive hi.serving hn.payload hn.sid hn.quiet
      rw [← htruth, hi.judged hn] at hlive
      simp only [Bool.false_eq_true, false_and, if_false] at hlive
      refine iff_of_true ⟨fun u hu d hd => ?_, fun u hu hm => ?_⟩ trivial
      · exact followed_sound u (fun e he => hi.known hP.sound hu he)
          ((hlive u).symm.trans hd) hu
      · obtain ⟨hs, hm'⟩ : snapshots f.truth u = false ∧ w.missed u = true := by
          have hm' : (!snapshots f.truth u && w.missed u) = true := hm
          simpa using hm'
        by_contra hne
        have hsnap := snapshots_of_followed g f.truth w.sup.live
          (hP.missed u hu hm') (fun hnone => hne ((hlive u).trans hnone))
        rw [hs] at hsnap
        cases hsnap
  | garble f =>
      obtain ⟨env, msg, t, s, p, x, hn, hbody, hc, htruth⟩ := hL
      obtain ⟨-, -, -, hlive⟩ := receive hi.serving hn.payload hn.sid hn.quiet
      rw [hc, hi.judged hn] at hlive
      simp only [Bool.false_eq_true, false_and, if_false, Supervisor.followed] at hlive
      constructor
      · intro h u hu hdelta
        have hm : (deltas f.truth u || w.missed u) = true := by rw [hdelta, Bool.true_or]
        exact (hlive u).symm.trans (h.missed u hu hm)
      · intro hC
        refine ⟨fun u hu d hd => ?_, fun u hu hm => ?_⟩
        · have hknown := (hlive u).symm.trans hd
          have hother : ∀ t' c, f.truth = some (t', c) → t' ≠ u := by
            rintro t' c htc rfl
            obtain ⟨rfl, rfl⟩ := Prod.mk.inj (Option.some.inj (htruth.symm.trans htc))
            rw [hC _ hu (by rw [htruth]; simp [deltas])] at hknown
            cases hknown
          show d = applyTruth f.truth w.books u
          rw [applyTruth_other hother]
          exact hi.known hP.sound hu hknown
        · have hm' : (deltas f.truth u || w.missed u) = true := hm
          rcases Bool.or_eq_true_iff.mp hm' with hdelta | hmissed
          · exact (hlive u).trans (hC u hu hdelta)
          · exact (hlive u).trans (hP.missed u hu hmissed)

/-- With nothing lost, the books stay sound and a market that missed a delta
stays unknown until its next snapshot, exactly on the runs in which no
undecodable delta names a fresh market. -/
theorem undecodable_soundness_iff (S : Sid) (g : Group) (w : World) (es : List FeedEvent)
    (hw : w.Started S g) (hes : Run.Along step (Garbling S) w es) :
    Run.Throughout step (MissSound g) w es ↔ Run.Along step (NoFreshMiss g) w es := by
  have hI : LosslessInv S g w :=
    { serving := hw.serving
      baseline := hw.baseline.trans hw.last.symm
      unknown := fun _ => hw.stale
      current := fun k hk => by rw [hw.last] at hk; cases hk }
  have hP : MissSound g w :=
    { sound := fun t ht d hd => by rw [hw.stale t ht] at hd; cases hd
      missed := fun t ht hm => by rw [hw.missed t] at hm; cases hm }
  exact Run.throughout_iff_along (fun _ _ hi hL => hi.step hL)
    (fun _ _ hi hp hL => garble_step_iff hi hp hL) hI hP hes

/-- Half a contract more at 40 cents, with a sign the codec does not take. -/
def plusSigned (seq : Int) (t : Ticker) : SentFrame :=
  ⟨quoteDelta seq t "+0.50", some (t, .delta .bid 4000 50)⟩

theorem plusSigned_unread (t : Ticker) (env : Envelope) (hsid : env.sid = some 1)
    (receipt : Receipt) :
    readDelta (.ok ⟨t, "0.4000", "+0.50", .yes, none, none⟩) env receipt true =
      .error (.numeral (.notPlain "count delta" "+0.50")) := by
  rw [readDelta, toBookDelta, hsid]
  simp only []
  rw [show parsePrice "0.4000" = .ok 4000 from rfl,
    show parseSignedCount "+0.50" = .error (.notPlain "count delta" "+0.50") from rfl]

theorem plusSigned_garbled {w : World} {seq : Int} {t : Ticker} (hnext : w.next = seq)
    (hprice : w.sup.config.useYesPrice = true) : w.Garbled 1 (plusSigned seq t) := by
  refine ⟨_, _, t, .bid, 4000, 50, ⟨rfl, rfl, by rw [hnext], ?_⟩, rfl, ?_, rfl⟩
  · rw [Supervisor.Quiet, hprice]
    simp only []
    rw [plusSigned_unread t _ rfl]
    simp
  · rw [Supervisor.changeOf, hprice]
    simp only []
    rw [plusSigned_unread t _ rfl]

/-- The delta that does not decode is of a market no snapshot has come for. -/
theorem plusSigned_of_unknown_sound :
    Run.Throughout step (MissSound quotedGroup) quotedWorld
      [.deliver (meant (quoteSnapshot 1 "KXA" "1.00")), .garble (plusSigned 2 "KXB")] := by
  refine (undecodable_soundness_iff 1 quotedGroup quotedWorld
    [.deliver (meant (quoteSnapshot 1 "KXA" "1.00")), .garble (plusSigned 2 "KXB")]
    quoted_started ⟨?_, ?_, trivial⟩).mpr ⟨trivial, ?_, trivial⟩
  · exact ⟨_, ⟨rfl, rfl, rfl, nofun⟩, rfl, nofun⟩
  · exact plusSigned_garbled rfl rfl
  · intro t ht hdelta
    obtain rfl : "KXB" = t := of_decide_eq_true hdelta
    rfl

/-- A fresh market misses a delta and stays fresh, with 100 where the exchange
has 150. -/
theorem plusSigned_of_fresh_unsound :
    quotedWorld.Started 1 quotedGroup ∧
      Run.Along step (Garbling 1) quotedWorld
        [.deliver (meant (quoteSnapshot 1 "KXA" "1.00")), .garble (plusSigned 2 "KXA")] ∧
      ¬ Run.Throughout step (Sound quotedGroup) quotedWorld
        [.deliver (meant (quoteSnapshot 1 "KXA" "1.00")), .garble (plusSigned 2 "KXA")] := by
  refine ⟨quoted_started, ⟨?_, ?_, trivial⟩, fun h => ?_⟩
  · exact ⟨_, ⟨rfl, rfl, rfl, nofun⟩, rfl, nofun⟩
  · exact plusSigned_garbled rfl rfl
  · have hlast := h.last "KXA" (by decide) _ rfl
    have hbid := congrFun (congrFun hlast .bid) 4000
    revert hbid
    decide

end World

end Tape
