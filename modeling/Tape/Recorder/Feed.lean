import Tape.Run
import Tape.Recorder.Serving

/-!
# The exchange, the wire and the recorder

The exchange numbers every frame of one orderbook subscription consecutively,
and its books are what its frames make of them. A frame it sends is delivered,
delivered with a payload that does not decode, or lost, and a frame delivered
earlier may be delivered once more. The recorder sees the frames that arrive
and nothing else.

`Sound` is what its books are for: whatever it holds as fresh is the exchange's
book as of the last number received. Three results say how far this goes.

With frames lost, a snapshot that is awaited resets the baseline, and a hole
before it is not noticed: `gap_soundness_iff`. The comment in the source that
the reset "is right either way" is about a sequence that restarts; it is wrong
about one that continues with a hole in it. With payloads that do not decode,
the number is consumed and the change is not: `undecodable_soundness_iff`. With
frames replayed, the duplicate stales the books and is then applied like any
other frame: `replay_soundness_iff`. Each is an equivalence, with the condition
on a step that keeps a run sound.
-/

namespace Tape

/-- A frame of the subscription, and what the exchange's own books went through
when it was sent. -/
structure SentFrame where
  frame : RawFrame
  truth : Option (Ticker × Change)

/-- The books of the exchange after a change. -/
def applyTruth (truth : Option (Ticker × Change)) (books : Ticker → Depth) : Ticker → Depth :=
  match truth with
  | none => books
  | some (t, c) => fun u => if t = u then c.apply (books u) else books u

/-- The recorder and the exchange, with what happened to the frames between
them. -/
structure World where
  sup : Supervisor
  /-- The exchange's books now, and as of the last frame received. -/
  books : Ticker → Depth
  seen : Ticker → Depth
  /-- The number of the next frame, and of the last frame received. -/
  next : Int
  last : Option Int
  /-- The frames delivered. -/
  log : List RawFrame
  /-- The markets of which a snapshot came since the last hole. -/
  rebuilt : Ticker → Bool
  /-- The markets with a delta that did not decode, and no snapshot since. -/
  missed : Ticker → Bool

/-- What can happen to a frame. -/
inductive FeedEvent where
  | deliver (f : SentFrame)
  | garble (f : SentFrame)
  | lose (f : SentFrame)
  | replay (f : RawFrame)
  | aside (f : RawFrame)

/-- Whether a frame is a snapshot of a market. -/
def snapshots (truth : Option (Ticker × Change)) (u : Ticker) : Bool :=
  match truth with
  | some (t, .snapshot _ _) => t = u
  | _ => false

/-- Whether a frame is a delta of a market. -/
def deltas (truth : Option (Ticker × Change)) (u : Ticker) : Bool :=
  match truth with
  | some (t, .delta _ _ _) => t = u
  | _ => false

namespace World

/-- Numbers were skipped since the last frame received. -/
def hole (w : World) : Bool :=
  match w.last with
  | none => false
  | some last => last + 1 ≠ w.next

/-- One frame, or the loss of one. -/
def step (w : World) : FeedEvent → World
  | .deliver f =>
      { sup := (w.sup.onFrame f.frame).1
        books := applyTruth f.truth w.books
        seen := applyTruth f.truth w.books
        next := w.next + 1
        last := some w.next
        log := w.log ++ [f.frame]
        rebuilt := fun u => snapshots f.truth u || (w.rebuilt u && !w.hole)
        missed := fun u => !snapshots f.truth u && w.missed u }
  | .garble f =>
      { w with
        sup := (w.sup.onFrame f.frame).1
        books := applyTruth f.truth w.books
        seen := applyTruth f.truth w.books
        next := w.next + 1
        last := some w.next
        missed := fun u => deltas f.truth u || w.missed u }
  | .lose f => { w with books := applyTruth f.truth w.books, next := w.next + 1 }
  | .replay f => { w with sup := (w.sup.onFrame f).1 }
  | .aside f => { w with sup := (w.sup.onFrame f).1 }

variable (S : Sid) (g : Group)

/-- Whatever is fresh in the group is the exchange's book as of the last frame
received. -/
def Sound (w : World) : Prop := ∀ t ∈ g.tickers, ∀ d, w.sup.live t = some d → d = w.seen t

/-- The first frame of the subscription has not come, and no market of the
group is fresh. -/
structure Started (w : World) : Prop where
  serving : w.sup.Serving S g
  baseline : w.sup.tracker.baseline S = none
  stale : ∀ t ∈ g.tickers, w.sup.live t = none
  last : w.last = none
  log : w.log = []
  missed : ∀ t, w.missed t = false

/-- The frame carries the next number of the subscription. -/
structure Numbered (w : World) (f : RawFrame) (env : Envelope) : Prop where
  payload : f.payload = .ok env
  sid : env.sid = some S
  seq : env.seq = some w.next
  quiet : w.sup.Quiet S env (w.sup.receiptOf f)

/-- The next frame of the subscription, decoded to what the exchange meant. -/
def Honest (w : World) (f : SentFrame) : Prop :=
  ∃ env, w.Numbered S f.frame env ∧
    f.truth = Supervisor.changeOf w.sup.config env (w.sup.receiptOf f.frame) ∧
    (env.body.isSnapshot = true → f.truth ≠ none)

/-- The next frame of the subscription: a delta whose payload does not decode,
or does not convert. -/
def Garbled (w : World) (f : SentFrame) : Prop :=
  ∃ env msg t s p x, w.Numbered S f.frame env ∧ env.body = .orderbookDelta msg ∧
    Supervisor.changeOf w.sup.config env (w.sup.receiptOf f.frame) = none ∧
    f.truth = some (t, .delta s p x)

/-- A frame that is not a numbered frame of the subscription. -/
def Aside (w : World) (f : RawFrame) : Prop :=
  ∀ env, f.payload = .ok env → w.sup.Quiet S env (w.sup.receiptOf f) ∧
    (env.sid = some S → env.seq = none ∧ env.body.isSnapshot = false ∧
      Supervisor.changeOf w.sup.config env (w.sup.receiptOf f) = none)

/-- A frame delivered before, with its number and its contents. -/
def Replayed (w : World) (f : RawFrame) : Prop :=
  f ∈ w.log ∧ ∀ env, f.payload = .ok env → w.sup.Quiet S env (w.sup.receiptOf f)

/-! ## One frame -/

variable {S g} {w : World}

/-- The step of the supervisor on a frame of the subscription. -/
theorem receive (h : w.sup.Serving S g) {f : RawFrame} {env : Envelope}
    (hf : f.payload = .ok env) (hsid : env.sid = some S)
    (hq : w.sup.Quiet S env (w.sup.receiptOf f)) :
    (w.sup.onFrame f).1.Serving S g ∧
      (w.sup.onFrame f).1.config = w.sup.config ∧
      (w.sup.onFrame f).1.tracker.baseline S = (w.sup.judged S env).1 ∧
      ∀ t, (w.sup.onFrame f).1.live t =
        Supervisor.followed g (Supervisor.changeOf w.sup.config env (w.sup.receiptOf f))
          (fun u => if (w.sup.judged S env).2 = true ∧ u ∈ g.tickers then none
            else w.sup.live u) t := by
  obtain ⟨s', hframe, hr⟩ := Supervisor.onFrame_spec h hf hq
  rw [hframe]
  refine ⟨hr.serving, hr.steady.config, ?_, fun t => ?_⟩
  · rw [hr.baseline, if_pos hsid]
  · rw [hr.live, if_pos hsid]

/-- The step of the supervisor on a frame that is none of the subscription's. -/
theorem receive_aside (h : w.sup.Serving S g) {f : RawFrame} (ha : w.Aside S f) :
    (w.sup.onFrame f).1.Serving S g ∧ (w.sup.onFrame f).1.config = w.sup.config ∧
      (w.sup.onFrame f).1.tracker.baseline S = w.sup.tracker.baseline S ∧
      ∀ t, (w.sup.onFrame f).1.live t = w.sup.live t := by
  cases hf : f.payload with
  | error e =>
      obtain ⟨s', hframe, hs, -, hserv, ht, hl⟩ := Supervisor.onFrame_malformed h hf
      rw [hframe]
      exact ⟨hserv, hs.config, by rw [ht], hl⟩
  | ok env =>
      obtain ⟨hq, hS⟩ := ha env hf
      obtain ⟨s', hframe, hr⟩ := Supervisor.onFrame_spec h hf hq
      rw [hframe]
      refine ⟨hr.serving, hr.steady.config, ?_, fun t => ?_⟩
      · rw [hr.baseline]
        split
        · next hsid =>
            obtain ⟨hseq, hsnap, -⟩ := hS hsid
            rw [Supervisor.judged, hseq, hsnap]
            rfl
        · rfl
      · rw [hr.live]
        split
        · next hsid =>
            obtain ⟨hseq, hsnap, hc⟩ := hS hsid
            rw [Supervisor.judged, hseq, hsnap, hc]
            simp [Supervisor.followed, GapTracker.judge]
        · rfl

/-- Known markets that were right before a change and are known after it are
right after it. -/
theorem followed_sound {live : Ticker → Option Depth} {books : Ticker → Depth}
    {truth : Option (Ticker × Change)} (t : Ticker)
    (hright : ∀ d, live t = some d → d = books t) {d : Depth}
    (h : Supervisor.followed g truth live t = some d) (ht : t ∈ g.tickers) :
    d = applyTruth truth books t := by
  cases truth with
  | none => exact hright d h
  | some uc =>
      obtain ⟨u, c⟩ := uc
      simp only [Supervisor.followed, applyTruth] at h ⊢
      by_cases hu : u = t
      · rw [if_pos ⟨hu ▸ ht, hu⟩] at h
        rw [if_pos hu]
        exact Change.follow_apply hright h
      · rw [if_neg (fun hc => hu hc.2)] at h
        rw [if_neg hu]
        exact hright d h

/-- The market a change does not name keeps what is known of it. -/
theorem followed_other {truth : Option (Ticker × Change)} {live : Ticker → Option Depth}
    {u : Ticker} (h : ∀ t c, truth = some (t, c) → t ≠ u) :
    Supervisor.followed g truth live u = live u := by
  cases truth with
  | none => rfl
  | some tc =>
      obtain ⟨t, c⟩ := tc
      rw [Supervisor.followed]
      exact if_neg (fun hc => h t c rfl hc.2)

theorem applyTruth_other {truth : Option (Ticker × Change)} {books : Ticker → Depth}
    {u : Ticker} (h : ∀ t c, truth = some (t, c) → t ≠ u) :
    applyTruth truth books u = books u := by
  cases truth with
  | none => rfl
  | some tc =>
      obtain ⟨t, c⟩ := tc
      exact if_neg (h t c rfl)

/-- A snapshot's market is known as the exchange has it, or not at all. -/
theorem followed_snapshot {truth : Option (Ticker × Change)} {live : Ticker → Option Depth}
    {books : Ticker → Depth} {u : Ticker} (hs : snapshots truth u = true) (hu : u ∈ g.tickers)
    {d : Depth} (h : Supervisor.followed g truth live u = some d) :
    d = applyTruth truth books u := by
  cases truth with
  | none => cases hs
  | some tc =>
      obtain ⟨t, c⟩ := tc
      cases c with
      | delta s p x => cases hs
      | snapshot bids asks =>
          obtain rfl : t = u := of_decide_eq_true hs
          simp only [Supervisor.followed, hu, and_self, if_true] at h
          simp only [applyTruth, if_true]
          have hfollow : (Change.snapshot bids asks).follow none = some d := h
          exact Change.follow_apply (o := none) (d := books t) (fun _ he => by cases he) hfollow

/-- A market that was unknown and is known after a frame was snapshotted by it. -/
theorem snapshots_of_followed (g : Group) (truth : Option (Ticker × Change))
    (live : Ticker → Option Depth) {u : Ticker} (hu : live u = none)
    (h : Supervisor.followed g truth live u ≠ none) : snapshots truth u = true := by
  cases truth with
  | none => exact absurd hu h
  | some tc =>
      obtain ⟨t, c⟩ := tc
      simp only [Supervisor.followed] at h
      by_cases ht : t ∈ g.tickers ∧ t = u
      · rw [if_pos ht, hu] at h
        cases c with
        | snapshot bids asks => exact decide_eq_true ht.2
        | delta s p x => exact absurd rfl h
      · rw [if_neg ht] at h
        exact absurd hu h

/-- A snapshot envelope that is decoded carries a snapshot. -/
theorem changeOf_of_isSnapshot {config : SupervisorConfig} {env : Envelope}
    {receipt : Receipt} (hsnap : env.body.isSnapshot = true) {t : Ticker} {c : Change}
    (h : Supervisor.changeOf config env receipt = some (t, c)) :
    ∃ bids asks, c = .snapshot bids asks := by
  rw [Supervisor.changeOf] at h
  cases hbody : env.body with
  | orderbookSnapshot msg =>
      rw [hbody] at h
      simp only [] at h
      split at h
      · cases h
      · obtain ⟨-, rfl⟩ := Prod.mk.inj (Option.some.inj h)
        exact ⟨_, _, rfl⟩
  | orderbookDelta msg => rw [hbody] at hsnap; cases hsnap
  | market event => rw [hbody] at hsnap; cases hsnap
  | subscribed msg => rw [hbody] at hsnap; cases hsnap
  | ok msg => rw [hbody] at hsnap; cases hsnap
  | unsubscribed => rw [hbody] at hsnap; cases hsnap
  | error msg => rw [hbody] at hsnap; cases hsnap
  | uninterpreted type => rw [hbody] at hsnap; cases hsnap

/-- If nothing but the market of a snapshot was known before a frame, nothing
wrong is known after it. -/
theorem sound_of_unknown {truth : Option (Ticker × Change)} {live : Ticker → Option Depth}
    (books : Ticker → Depth) {u : Ticker} (hu : u ∈ g.tickers)
    (hlive : snapshots truth u = false → live u = none) {d : Depth}
    (h : Supervisor.followed g truth live u = some d) :
    snapshots truth u = true ∧ d = applyTruth truth books u := by
  cases hs : snapshots truth u with
  | true => exact ⟨rfl, followed_snapshot hs hu h⟩
  | false =>
      have := snapshots_of_followed g truth live (hlive hs) (by rw [h]; simp)
      rw [hs] at this
      cases this

/-! Two markets on subscription 1, from its first frame on. -/

/-- Two markets of one group. -/
def quotedGroup : Group := ⟨"g0000", 0, {"KXA", "KXB"}⟩

/-- A supervisor that is subscribed to them. -/
def quotedSupervisor : Supervisor :=
  { Supervisor.new ⟨0, [orderbookChannel, "trade"], [], true, true, 500⟩ with
    desired := some quotedGroup
    applied := some quotedGroup
    session := some ⟨true, 2⟩
    subscriptions := (∅ : Dict Sid SubscriptionInfo).set 1 ⟨1, orderbookChannel, "g0000"⟩ }

/-- Nothing was quoted yet. -/
def quotedWorld : World :=
  { sup := quotedSupervisor, books := fun _ _ _ => 0, seen := fun _ _ _ => 0, next := 1,
    last := none, log := [], rebuilt := fun _ => false, missed := fun _ => false }

/-- A frame of the subscription. -/
def quotedFrame (seq : Int) (body : Body) : RawFrame :=
  ⟨seq, seq, .ok ⟨some 1, some seq, none, body⟩⟩

/-- A bid of `count` at 40 cents under an ask of one contract at 60. -/
def quoteSnapshot (seq : Int) (t : Ticker) (count : String) : RawFrame :=
  quotedFrame seq
    (.orderbookSnapshot (.ok ⟨t, some [("0.4000", count)], some [("0.6000", "1.00")]⟩))

/-- A delta of a bid at forty cents. -/
def quoteDelta (seq : Int) (t : Ticker) (delta : String) : RawFrame :=
  quotedFrame seq (.orderbookDelta (.ok ⟨t, "0.4000", delta, .yes, none, none⟩))

/-- A frame sent as it is meant. -/
def meant (f : RawFrame) : SentFrame :=
  ⟨f, match f.payload with
    | .error _ => none
    | .ok env =>
        Supervisor.changeOf quotedSupervisor.config env (quotedSupervisor.receiptOf f)⟩

theorem quoted_started : quotedWorld.Started 1 quotedGroup where
  serving :=
    { session := ⟨2, rfl⟩
      applied := rfl
      bookSid := fun sid => by
        have hget : quotedWorld.sup.subscriptions.get? sid =
            ((∅ : Dict Sid SubscriptionInfo).set 1 ⟨1, orderbookChannel, "g0000"⟩).get? sid := rfl
        rw [Supervisor.isBookSid, hget, Dict.get?_set]
        by_cases h : 1 = sid
        · rw [if_pos h]
          exact iff_of_true rfl h.symm
        · rw [if_neg h]
          exact iff_of_false (by simp) (Ne.symm h)
      books := fun t b h => by cases h }
  baseline := rfl
  stale := fun _ _ => rfl
  last := rfl
  log := rfl
  missed := fun _ => rfl

end World

end Tape
