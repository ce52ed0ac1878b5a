import Tape.Recorder.Feed

/-!
# Frames lost

A hole in the numbers stales the group and asks for every market. While the
snapshots of that request are on their way, each of them becomes the new
baseline, so a hole just before one of them is not noticed. Markets that are
fresh by then keep their books, and the lost frames may have changed them.

`gap_soundness_iff` is the whole of it: the books stay sound over a run exactly
when no awaited snapshot arrives just past a hole while another market of the
group is fresh.
-/

namespace Tape

namespace World

variable {S : Sid} {g : Group} {w : World}

variable (S g) in
/-- After gaps, what is fresh is right: its book is the exchange's, and was
snapshotted since the last hole. -/
structure GapSound (w : World) : Prop where
  sound : w.Sound g
  rebuilt : ∀ t ∈ g.tickers, w.sup.live t ≠ none → w.rebuilt t = true

variable (S) in
/-- The events of a run with frames lost. -/
def Lossy (w : World) : FeedEvent → Prop
  | .deliver f => w.Honest S f
  | .lose _ => True
  | .aside f => w.Aside S f
  | _ => False

variable (S g) in
/-- A snapshot that is awaited does not arrive just past a hole while another
market of the group is fresh. -/
def NoHoleBeforeResnapshot (w : World) : FeedEvent → Prop
  | .deliver f => ∀ env, f.frame.payload = .ok env → env.body.isSnapshot = true →
      w.sup.awaits S = true → w.hole = true →
      ∀ u ∈ g.tickers, snapshots f.truth u = false → w.sup.live u = none
  | _ => True

variable (S g) in
/-- Where the recorder stands on any run with losses, right or wrong. -/
structure GapInv (w : World) : Prop where
  serving : w.sup.Serving S g
  baseline : w.sup.tracker.baseline S = w.last
  unknown : w.last = none → ∀ t ∈ g.tickers, w.sup.live t = none
  ahead : ∀ k, w.last = some k → k < w.next
  current : ∀ k, w.last = some k → k + 1 = w.next → w.books = w.seen

theorem GapInv.step (hi : GapInv S g w) {e : FeedEvent} (hL : w.Lossy S e) :
    GapInv S g (w.step e) := by
  cases e with
  | deliver f =>
      obtain ⟨env, hn, htruth, -⟩ := hL
      obtain ⟨hserv, -, hbase, hlive⟩ := receive hi.serving hn.payload hn.sid hn.quiet
      refine ⟨hserv, hbase.trans ?_, fun h => (by cases h), fun k hk => ?_, fun _ _ _ => rfl⟩
      · show (w.sup.judged S env).1 = some w.next
        rw [Supervisor.judged, hi.baseline, hn.seq]
        cases env.body.isSnapshot && w.sup.awaits S with
        | true => rfl
        | false =>
            cases hlast : w.last with
            | none => rfl
            | some k =>
                have hlt := hi.ahead k hlast
                rcases eq_or_lt_of_le (show k + 1 ≤ w.next by omega) with heq | hgt
                · rw [← heq, GapTracker.judge_next]
                · rw [GapTracker.judge_ahead hgt]
      · obtain rfl := Option.some.inj hk
        exact Int.lt_succ _
  | garble f => exact hL.elim
  | lose f =>
      refine ⟨hi.serving, hi.baseline, hi.unknown, fun k hk => ?_, fun k hk hnext => ?_⟩
      · exact lt_trans (hi.ahead k hk) (Int.lt_succ _)
      · have := hi.ahead k hk
        have hnext' : k + 1 = w.next + 1 := hnext
        omega
  | replay f => exact hL.elim
  | aside f =>
      obtain ⟨hserv, -, hbase, hlive⟩ := receive_aside hi.serving hL
      exact ⟨hserv, hbase.trans hi.baseline, fun h t ht => (hlive t).trans (hi.unknown h t ht),
        hi.ahead, hi.current⟩

/-- One step: a frame keeps `GapSound` exactly when it is not a resnapshot past a
hole. -/
theorem gap_step_iff (hi : GapInv S g w) (hP : GapSound g w) {e : FeedEvent}
    (hL : w.Lossy S e) :
    GapSound g (w.step e) ↔ NoHoleBeforeResnapshot S g w e := by
  cases e with
  | garble f => exact hL.elim
  | replay f => exact hL.elim
  | lose f => exact iff_of_true ⟨hP.sound, hP.rebuilt⟩ trivial
  | aside f =>
      obtain ⟨-, -, -, hlive⟩ := receive_aside hi.serving hL
      refine iff_of_true ⟨fun t ht d hd => ?_, fun t ht hne => ?_⟩ trivial
      · exact hP.sound t ht d ((hlive t).symm.trans hd)
      · exact hP.rebuilt t ht (fun hnone => hne ((hlive t).trans hnone))
  | deliver f =>
      obtain ⟨env, hn, htruth, hsnap⟩ := hL
      obtain ⟨-, -, -, hlive⟩ := receive hi.serving hn.payload hn.sid hn.quiet
      rw [← htruth] at hlive
      -- The one way to a good state in which nothing older survives the frame.
      have hfresh : (∀ u ∈ g.tickers, snapshots f.truth u = false →
          (if (w.sup.judged S env).2 = true ∧ u ∈ g.tickers then none else w.sup.live u) =
            none) → GapSound g (w.step (.deliver f)) := by
        intro hnone
        refine ⟨fun u hu d hd => ?_, fun u hu hne => ?_⟩
        · exact (sound_of_unknown w.books hu (hnone u hu) ((hlive u).symm.trans hd)).2
        · obtain ⟨d, hd⟩ := Option.ne_none_iff_exists'.mp hne
          have hs := (sound_of_unknown w.books hu (hnone u hu)
            ((hlive u).symm.trans hd)).1
          show (snapshots f.truth u || _) = true
          rw [hs, Bool.true_or]
      have hjudged : (w.sup.judged S env).2 = (GapTracker.judge w.last
          (env.body.isSnapshot && w.sup.awaits S) (some w.next)).2 := by
        rw [Supervisor.judged, hi.baseline, hn.seq]
      cases hlast : w.last with
      | none =>
          have hhole : w.hole = false := by rw [hole, hlast]
          refine iff_of_true (hfresh fun u hu _ => ?_) (fun _ _ _ _ h => ?_)
          · rw [hi.unknown hlast u hu, ite_self]
          · rw [hhole] at h
            cases h
      | some k =>
          have hlt := hi.ahead k hlast
          rcases eq_or_lt_of_le (show k + 1 ≤ w.next by omega) with heq | hgt
          · have hhole : w.hole = false := by
              rw [hole, hlast]
              exact decide_eq_false (fun h => h heq)
            have hbooks := hi.current k hlast heq
            refine iff_of_true ⟨fun u hu d hd => ?_, fun u hu hne => ?_⟩ (fun _ _ _ _ h => ?_)
            · refine followed_sound u (fun e he => ?_) ((hlive u).symm.trans hd) hu
              split at he
              · cases he
              · rw [hP.sound u hu e he, hbooks]
            · show (snapshots f.truth u || (w.rebuilt u && !w.hole)) = true
              by_cases hu' : w.sup.live u = none
              · have hs := snapshots_of_followed g f.truth
                  (fun u => if (w.sup.judged S env).2 = true ∧ u ∈ g.tickers then none
                    else w.sup.live u) (u := u) (by simp [hu'])
                  (fun hnone => hne ((hlive u).trans hnone))
                rw [hs, Bool.true_or]
              · rw [hP.rebuilt u hu hu', hhole]
                simp
            · rw [hhole] at h
              cases h
          · have hhole : w.hole = true := by
              rw [hole, hlast]
              exact decide_eq_true (fun h => by omega)
            cases hawait : env.body.isSnapshot && w.sup.awaits S with
            | false =>
                have hstale : (w.sup.judged S env).2 = true := by
                  rw [hjudged, hlast, hawait, GapTracker.judge_ahead hgt]
                refine iff_of_true (hfresh fun u hu _ => ?_) (fun env' henv' hsn haw => ?_)
                · rw [if_pos ⟨hstale, hu⟩]
                · obtain rfl := Except.ok.inj (hn.payload.symm.trans henv')
                  rw [hsn, haw] at hawait
                  cases hawait
            | true =>
                have hstale : (w.sup.judged S env).2 = false := by
                  rw [hjudged, hawait, GapTracker.judge_awaited]
                obtain ⟨hsn, haw⟩ := Bool.and_eq_true_iff.mp hawait
                constructor
                · intro h env' henv' _ _ _ u hu hs
                  by_contra hknown
                  have hother : ∀ t c, f.truth = some (t, c) → t ≠ u := by
                    rintro t c htc rfl
                    obtain ⟨bids, asks, rfl⟩ :=
                      changeOf_of_isSnapshot hsn (htruth.symm.trans htc)
                    rw [htc] at hs
                    simp [snapshots] at hs
                  have hlive' : (w.step (.deliver f)).sup.live u = w.sup.live u := by
                    refine (hlive u).trans ((followed_other hother).trans ?_)
                    rw [hstale]
                    simp
                  have hreb : (snapshots f.truth u || (w.rebuilt u && !w.hole)) = true :=
                    h.rebuilt u hu (by rw [hlive']; exact hknown)
                  rw [hs, hhole] at hreb
                  simp at hreb
                · intro hC
                  refine hfresh fun u hu hs => ?_
                  rw [hC env hn.payload hsn haw hhole u hu hs, ite_self]

/-- The books stay sound, whatever is lost, exactly on the runs in which no
awaited snapshot arrives past a hole while another market is fresh. -/
theorem gap_soundness_iff (S : Sid) (g : Group) (w : World) (es : List FeedEvent)
    (hw : w.Started S g) (hes : Run.Along step (Lossy S) w es) :
    Run.Throughout step (GapSound g) w es ↔
      Run.Along step (NoHoleBeforeResnapshot S g) w es := by
  have hI : GapInv S g w :=
    { serving := hw.serving
      baseline := hw.baseline.trans hw.last.symm
      unknown := fun _ => hw.stale
      ahead := fun k hk => by rw [hw.last] at hk; cases hk
      current := fun k hk => by rw [hw.last] at hk; cases hk }
  have hP : GapSound g w :=
    { sound := fun t ht d hd => by rw [hw.stale t ht] at hd; cases hd
      rebuilt := fun t ht hne => absurd (hw.stale t ht) hne }
  exact Run.throughout_iff_along (fun _ _ hi hL => hi.step hL)
    (fun _ _ hi hp hL => gap_step_iff hi hp hL) hI hP hes

/-- A hole that is noticed: the delta after the lost one stales the group. -/
def noticedHole : List FeedEvent :=
  [.deliver (meant (quoteSnapshot 1 "KXA" "1.00")),
    .lose (meant (quoteDelta 2 "KXA" "1.00")), .deliver (meant (quoteDelta 3 "KXA" "0.50"))]

theorem noticedHole_sound :
    Run.Throughout step (GapSound quotedGroup) quotedWorld noticedHole := by
  refine (gap_soundness_iff 1 quotedGroup quotedWorld noticedHole quoted_started
    ⟨?_, trivial, ?_, trivial⟩).mpr ⟨?_, trivial, ?_, trivial⟩
  · exact ⟨_, ⟨rfl, rfl, rfl, nofun⟩, rfl, nofun⟩
  · exact ⟨_, ⟨rfl, rfl, rfl, nofun⟩, rfl, nofun⟩
  · exact fun _ _ _ _ hhole => absurd hhole (by decide)
  · intro env henv hsnap
    obtain rfl := Except.ok.inj henv
    cases hsnap

/-- While KXB awaits its snapshot a delta of KXA is lost, and the snapshot of
KXB becomes the new baseline. -/
def holeBeforeResnapshot : List FeedEvent :=
  [.deliver (meant (quoteSnapshot 1 "KXA" "1.00")),
    .deliver (meant (quoteSnapshot 2 "KXB" "1.00")),
    .lose (meant (quoteDelta 3 "KXB" "1.00")), .deliver (meant (quoteDelta 4 "KXB" "1.00")),
    .deliver (meant (quoteSnapshot 5 "KXA" "1.00")),
    .lose (meant (quoteDelta 6 "KXA" "0.50")),
    .deliver (meant (quoteSnapshot 7 "KXB" "3.00"))]

/-- The recorder then holds KXA fresh with 100 where the exchange has 150. -/
theorem holeBeforeResnapshot_unsound :
    quotedWorld.Started 1 quotedGroup ∧
      Run.Along step (Lossy 1) quotedWorld holeBeforeResnapshot ∧
      ¬ Run.Throughout step (Sound quotedGroup) quotedWorld holeBeforeResnapshot := by
  refine ⟨quoted_started, ⟨?_, ?_, trivial, ?_, ?_, trivial, ?_, trivial⟩, fun h => ?_⟩
  · exact ⟨_, ⟨rfl, rfl, rfl, nofun⟩, rfl, nofun⟩
  · exact ⟨_, ⟨rfl, rfl, rfl, nofun⟩, rfl, nofun⟩
  · exact ⟨_, ⟨rfl, rfl, rfl, nofun⟩, rfl, nofun⟩
  · exact ⟨_, ⟨rfl, rfl, rfl, nofun⟩, rfl, nofun⟩
  · exact ⟨_, ⟨rfl, rfl, rfl, nofun⟩, rfl, nofun⟩
  · have hlast := h.last "KXA" (by decide) _ rfl
    have hbid := congrFun (congrFun hlast .bid) 4000
    revert hbid
    decide

end World

end Tape
