import Tape.Recorder.Connection

/-!
# The invariant rule of a connection

A run of a connection takes many events, and most of them do one of a few
things to the supervisor: nothing to its tables, what a frame may do without
the lock (`Touched`), or a stretch of the lock's holder. `Discipline` lists
what an invariant owes to each of these, and `Discipline.throughout` makes an
invariant of every run of it. The files that follow use the rule and never look
at the events again.

An invariant comes in two parts. One speaks of the supervisor at any moment
(`J`), the other of the supervisor while the holder of the lock waits for a
send (`K`). What the invariant asks of a run is put into conditions on the
three places where the outside comes in: the groups given to `set_group`, the
replies that get the lock, and the sends that return.
-/

namespace Tape

namespace Supervisor

/-! ## Frames, without the lock -/

/-- The tables a reconciliation works on. -/
structure SameControl (s s' : Supervisor) : Prop where
  config : s'.config = s.config
  desired : s'.desired = s.desired
  applied : s'.applied = s.applied
  subscriptions : s'.subscriptions = s.subscriptions
  channelOfSid : s'.channelOfSid = s.channelOfSid
  pending : s'.pending = s.pending
  reconcileDeferred : s'.reconcileDeferred = s.reconcileDeferred
  firehoseRequested : s'.firehoseRequested = s.firehoseRequested

theorem SameControl.refl (s : Supervisor) : SameControl s s :=
  ⟨rfl, rfl, rfl, rfl, rfl, rfl, rfl, rfl⟩

theorem SameControl.trans {s s' s'' : Supervisor} (h : SameControl s s')
    (h' : SameControl s' s'') : SameControl s s'' where
  config := h'.config.trans h.config
  desired := h'.desired.trans h.desired
  applied := h'.applied.trans h.applied
  subscriptions := h'.subscriptions.trans h.subscriptions
  channelOfSid := h'.channelOfSid.trans h.channelOfSid
  pending := h'.pending.trans h.pending
  reconcileDeferred := h'.reconcileDeferred.trans h.reconcileDeferred
  firehoseRequested := h'.firehoseRequested.trans h.firehoseRequested

/-- The book of a market is fresh. -/
def FreshAt (s : Supervisor) (t : Ticker) : Prop :=
  ∃ b, s.books.get? t = some b ∧ b.stale = false

/-- What the handling of a frame may do without the lock: freshen a book that a
live orderbook subscription carries, and ask for markets of the group. -/
structure Touched (s s' : Supervisor) : Prop where
  control : SameControl s s'
  fresh : ∀ t, s'.FreshAt t → s.FreshAt t ∨ ∃ sid, s.mayTouch sid t = true
  awaited : ∀ sid awaiting', s'.resyncing.get? sid = some awaiting' → ∀ t ∈ awaiting',
    (∃ awaiting, s.resyncing.get? sid = some awaiting ∧ t ∈ awaiting) ∨
      t ∈ tickersOf s.applied
  awaiting : ∀ sid awaiting', s'.resyncing.get? sid = some awaiting' →
    (∃ awaiting, s.resyncing.get? sid = some awaiting) ∨ s.isBookSid sid = true
  empty : ∀ sid, s'.resyncing.get? sid = some ∅ →
    s.resyncing.get? sid = some ∅ ∨ ∃ g, s.applied = some g ∧ g.tickers = ∅

theorem SameControl.isBookSid {s s' : Supervisor} (h : SameControl s s') (sid : Sid) :
    s'.isBookSid sid = s.isBookSid sid := by
  rw [Supervisor.isBookSid, h.subscriptions, Supervisor.isBookSid]

theorem SameControl.mayTouch {s s' : Supervisor} (h : SameControl s s') (sid : Sid)
    (t : Ticker) : s'.mayTouch sid t = s.mayTouch sid t := by
  rw [Supervisor.mayTouch, h.isBookSid, h.applied, Supervisor.mayTouch]

/-- The tables and the books are the same. -/
theorem Touched.of_same {s s' : Supervisor} (hc : SameControl s s') (hb : s'.books = s.books)
    (hr : s'.resyncing = s.resyncing) : Touched s s' where
  control := hc
  fresh t h := by
    rw [FreshAt, hb] at h
    exact .inl h
  awaited _ awaiting h _ ht := .inl ⟨awaiting, hr ▸ h, ht⟩
  awaiting _ awaiting h := .inl ⟨awaiting, hr ▸ h⟩
  empty _ h := .inl (hr ▸ h)

theorem Touched.trans {s s' s'' : Supervisor} (h : Touched s s') (h' : Touched s' s'') :
    Touched s s'' where
  control := h.control.trans h'.control
  fresh t ht := by
    rcases h'.fresh t ht with hf | ⟨sid, hm⟩
    · exact h.fresh t hf
    · exact .inr ⟨sid, h.control.mayTouch sid t ▸ hm⟩
  awaited sid awaiting' hget t ht := by
    rcases h'.awaited sid awaiting' hget t ht with ⟨awaiting, hold, hmem⟩ | hin
    · exact h.awaited sid awaiting hold t hmem
    · exact .inr (h.control.applied ▸ hin)
  awaiting sid awaiting' hget := by
    rcases h'.awaiting sid awaiting' hget with ⟨awaiting, hold⟩ | hb
    · exact h.awaiting sid awaiting hold
    · exact .inr (h.control.isBookSid sid ▸ hb)
  empty sid hget := by
    rcases h'.empty sid hget with hold | hnone
    · exact h.empty sid hold
    · exact .inr (h.control.applied ▸ hnone)

/-- Only books changed, and each book that is fresh now was fresh or may be
touched. -/
theorem Touched.of_books {s s' : Supervisor} (hc : SameControl s s')
    (hr : s'.resyncing = s.resyncing)
    (hb : ∀ t, s'.FreshAt t → s.FreshAt t ∨ ∃ sid, s.mayTouch sid t = true) :
    Touched s s' where
  control := hc
  fresh := hb
  awaited _ awaiting h _ ht := .inl ⟨awaiting, hr ▸ h, ht⟩
  awaiting _ awaiting h := .inl ⟨awaiting, hr ▸ h⟩
  empty _ h := .inl (hr ▸ h)

theorem requestSnapshot_resyncing (s : Supervisor) (sid : Sid) (tickers : Finset Ticker) :
    (s.requestSnapshot sid tickers).1.resyncing =
      s.resyncing.set sid (s.resyncing.getD sid ∅ ∪ tickers) := by
  rw [requestSnapshot]
  split
  · next h =>
      simp only [Finset.sdiff_eq_empty_iff_subset] at h
      simp [Finset.union_eq_left.mpr h]
  · simp

theorem requestSnapshot_control (s : Supervisor) (sid : Sid) (tickers : Finset Ticker) :
    SameControl s (s.requestSnapshot sid tickers).1 ∧
      (s.requestSnapshot sid tickers).1.books = s.books := by
  rw [requestSnapshot]
  split <;> exact ⟨⟨rfl, rfl, rfl, rfl, rfl, rfl, rfl, rfl⟩, rfl⟩

/-- A request on a live orderbook subscription for markets of the group. -/
theorem touched_requestSnapshot {s : Supervisor} {sid : Sid} {tickers : Finset Ticker}
    (hsid : s.isBookSid sid = true) (hsub : tickers ⊆ tickersOf s.applied)
    (hne : tickers ≠ ∅ ∨ ∃ g, s.applied = some g ∧ g.tickers = ∅) :
    Touched s (s.requestSnapshot sid tickers).1 := by
  obtain ⟨hc, hb⟩ := s.requestSnapshot_control sid tickers
  have hget : ∀ sid', (s.requestSnapshot sid tickers).1.resyncing.get? sid' =
      if sid = sid' then some (s.resyncing.getD sid ∅ ∪ tickers)
      else s.resyncing.get? sid' := by
    intro sid'
    rw [requestSnapshot_resyncing, Dict.get?_set]
  refine ⟨hc, ?_, ?_, ?_, ?_⟩
  · intro t ht
    rw [FreshAt, hb] at ht
    exact .inl ht
  · intro sid' awaiting' h t ht
    rw [hget] at h
    split at h
    · next heq =>
        subst heq
        obtain rfl := Option.some.inj h
        rcases Finset.mem_union.mp ht with hold | hnew
        · rw [Dict.getD] at hold
          cases hr : s.resyncing.get? sid with
          | none => rw [hr] at hold; simp at hold
          | some awaiting =>
              rw [hr] at hold
              exact .inl ⟨awaiting, rfl, hold⟩
        · exact .inr (hsub hnew)
    · exact .inl ⟨awaiting', h, ht⟩
  · intro sid' awaiting' h
    rw [hget] at h
    split at h
    · next heq => exact .inr (heq ▸ hsid)
    · exact .inl ⟨awaiting', h⟩
  · intro sid' h
    rw [hget] at h
    split at h
    · have hempty := Option.some.inj h
      rw [Finset.union_eq_empty] at hempty
      rcases hne with hne | hnone
      · exact absurd hempty.2 hne
      · exact .inr hnone
    · exact .inl h

theorem freshAt_markStale {s : Supervisor} {tickers : Finset Ticker} {t : Ticker}
    (h : (s.markStale tickers).FreshAt t) : s.FreshAt t ∧ t ∉ tickers := by
  obtain ⟨b, hb, hf⟩ := h
  rw [markStale, Dict.get?_mapValues] at hb
  obtain ⟨b', hb', rfl⟩ := Option.map_eq_some_iff.mp hb
  split at hf
  · cases hf
  · next hmem => exact ⟨⟨b', hb', hf⟩, hmem⟩

/-- Fewer entries await, and those that do await less, but something. -/
theorem Touched.of_awaiting {s s' : Supervisor} (hc : SameControl s s')
    (hb : s'.books = s.books)
    (hr : ∀ sid awaiting', s'.resyncing.get? sid = some awaiting' →
      ∃ awaiting, s.resyncing.get? sid = some awaiting ∧ awaiting' ⊆ awaiting ∧
        (awaiting' = ∅ → awaiting = ∅)) : Touched s s' where
  control := hc
  fresh t h := by
    rw [FreshAt, hb] at h
    exact .inl h
  awaited sid awaiting' h t ht := by
    obtain ⟨awaiting, hget, hsub, -⟩ := hr sid awaiting' h
    exact .inl ⟨awaiting, hget, hsub ht⟩
  awaiting sid awaiting' h := by
    obtain ⟨awaiting, hget, -⟩ := hr sid awaiting' h
    exact .inl ⟨awaiting, hget⟩
  empty sid h := by
    obtain ⟨awaiting, hget, -, hne⟩ := hr sid ∅ h
    exact .inl (hne rfl ▸ hget)

theorem touched_eraseResyncing {s s' : Supervisor} (hc : SameControl s s')
    (hb : s'.books = s.books) {sid : Sid} (hr : s'.resyncing = s.resyncing.erase sid) :
    Touched s s' := by
  refine Touched.of_awaiting hc hb fun sid' awaiting' h => ?_
  rw [hr, Dict.get?_erase] at h
  split at h
  · cases h
  · exact ⟨awaiting', h, Finset.Subset.refl _, id⟩

theorem touched_finishResync (s : Supervisor) (sid : Sid) (t : Ticker) :
    Touched s (s.finishResync sid t) := by
  refine Touched.of_awaiting ⟨rfl, rfl, rfl, rfl, rfl, rfl, rfl, rfl⟩ rfl fun sid' awaiting' h => ?_
  rw [finishResync] at h
  cases hr : s.resyncing.get? sid with
  | none =>
      simp only [hr] at h
      exact ⟨awaiting', h, Finset.Subset.refl _, id⟩
  | some awaiting =>
      simp only [hr] at h
      split at h
      · rw [Dict.get?_erase] at h
        split at h
        · cases h
        · exact ⟨awaiting', h, Finset.Subset.refl _, id⟩
      · next hne =>
          rw [Dict.get?_set] at h
          split at h
          · next heq =>
              subst heq
              obtain rfl := Option.some.inj h
              exact ⟨awaiting, hr, Finset.erase_subset t awaiting, fun he => absurd he hne⟩
          · exact ⟨awaiting', h, Finset.Subset.refl _, id⟩

theorem touched_markStale (s : Supervisor) (tickers : Finset Ticker) :
    Touched s (s.markStale tickers) :=
  Touched.of_books ⟨rfl, rfl, rfl, rfl, rfl, rfl, rfl, rfl⟩ rfl
    fun _ h => .inl (freshAt_markStale h).1

/-- A book set where a frame may touch it. -/
theorem touched_setBook {s : Supervisor} {sid : Sid} {t : Ticker}
    (hmay : s.mayTouch sid t = true) (book : Book) : Touched s (s.setBook t book) := by
  refine Touched.of_books ⟨rfl, rfl, rfl, rfl, rfl, rfl, rfl, rfl⟩ rfl ?_
  intro u ⟨b, hb, hf⟩
  rw [setBook, Dict.get?_set] at hb
  split at hb
  · next heq => exact .inr ⟨sid, heq ▸ hmay⟩
  · exact .inl ⟨b, hb, hf⟩

theorem touched_onSnapshot (s : Supervisor) (e : BookSnapshot) : Touched s (s.onSnapshot e) := by
  have hfinish := s.touched_finishResync e.sid e.ticker
  rw [onSnapshot]
  split
  · next hmay =>
      refine hfinish.trans ?_
      simp only
      split
      · next book _ _ =>
          exact (touched_setBook hmay book).trans (Touched.of_same
            ⟨rfl, rfl, rfl, rfl, rfl, rfl, rfl, rfl⟩ rfl rfl)
      · next book _ =>
          exact (touched_setBook hmay book).trans (Touched.of_same
            ⟨rfl, rfl, rfl, rfl, rfl, rfl, rfl, rfl⟩ rfl rfl)
  · exact hfinish

theorem isBookSid_of_mayTouch {s : Supervisor} {sid : Sid} {t : Ticker}
    (h : s.mayTouch sid t = true) : s.isBookSid sid = true ∧ t ∈ tickersOf s.applied := by
  rw [mayTouch, decide_eq_true_eq] at h
  exact h

theorem touched_onDelta (s : Supervisor) (e : BookDelta) : Touched s (s.onDelta e).1 := by
  have hrefl : Touched s s := Touched.of_same (SameControl.refl s) rfl rfl
  rw [onDelta]
  split
  · next hmay =>
      split
      · exact hrefl
      · split
        · next book _ _ =>
            have hset : Touched s (s.setBook e.ticker book).bookError :=
              (touched_setBook hmay book).trans (Touched.of_same
                ⟨rfl, rfl, rfl, rfl, rfl, rfl, rfl, rfl⟩ rfl rfl)
            obtain ⟨hsid, hmem⟩ := isBookSid_of_mayTouch hmay
            refine hset.trans (touched_requestSnapshot ?_ ?_ (.inl (by simp)))
            · rw [hset.control.isBookSid]
              exact hsid
            · rw [hset.control.applied]
              exact Finset.singleton_subset_iff.mpr hmem
        · next book _ =>
            exact (touched_setBook hmay book).trans (Touched.of_same
              ⟨rfl, rfl, rfl, rfl, rfl, rfl, rfl, rfl⟩ rfl rfl)
        · next book _ => exact touched_setBook hmay book
  · exact hrefl

theorem touched_resyncConnection (s : Supervisor) (sid : Sid) (askAgain : Bool) :
    Touched s (s.resyncConnection sid askAgain).1 := by
  rw [resyncConnection]
  split
  · exact Touched.of_same (SameControl.refl s) rfl rfl
  · next g hg =>
      split
      · next hsid =>
          have hstaled := s.touched_markStale g.tickers
          have hpopped : Touched s (if askAgain then (s.markStale g.tickers).popResyncing sid
              else s.markStale g.tickers) := by
            split
            · exact hstaled.trans (touched_eraseResyncing
                ⟨rfl, rfl, rfl, rfl, rfl, rfl, rfl, rfl⟩ rfl rfl)
            · exact hstaled
          refine hpopped.trans (touched_requestSnapshot ?_ ?_ ?_)
          · rw [hpopped.control.isBookSid]
            exact hsid
          · rw [hpopped.control.applied, hg]
            exact Finset.Subset.refl _
          · by_cases hnone : g.tickers = ∅
            · exact .inr ⟨g, hpopped.control.applied.trans hg, hnone⟩
            · exact .inl hnone
      · exact Touched.of_same (SameControl.refl s) rfl rfl

theorem touched_checkSequence (s : Supervisor) (env : Envelope) (receipt : Receipt) :
    Touched s (s.checkSequence env receipt).1 := by
  have hsame : ∀ {s s' : Supervisor}, SameControl s s' → s'.books = s.books →
      s'.resyncing = s.resyncing → Touched s s' := Touched.of_same
  rw [checkSequence]
  split
  · exact hsame (SameControl.refl s) rfl rfl
  · simp only
    split
    · refine Touched.trans ?_ (touched_resyncConnection _ _ _)
      exact hsame ⟨rfl, rfl, rfl, rfl, rfl, rfl, rfl, rfl⟩ rfl rfl
    · refine Touched.trans ?_ (touched_resyncConnection _ _ _)
      exact hsame ⟨rfl, rfl, rfl, rfl, rfl, rfl, rfl, rfl⟩ rfl rfl
    · exact hsame ⟨rfl, rfl, rfl, rfl, rfl, rfl, rfl, rfl⟩ rfl rfl

theorem touched_receiveFrame (s : Supervisor) (f : RawFrame) :
    Touched s (s.receiveFrame f).1 := by
  have hcount : Touched s (s.countFrame f) :=
    Touched.of_same ⟨rfl, rfl, rfl, rfl, rfl, rfl, rfl, rfl⟩ rfl rfl
  rw [receiveFrame]
  split
  · exact hcount.trans (Touched.of_same ⟨rfl, rfl, rfl, rfl, rfl, rfl, rfl, rfl⟩ rfl rfl)
  · exact hcount.trans (touched_checkSequence _ _ _)

theorem touched_notDecoded (s : Supervisor) (e : ConvertError) :
    Touched s (s.notDecoded e).1 := by
  rw [notDecoded.eq_def]
  split <;> exact Touched.of_same ⟨rfl, rfl, rfl, rfl, rfl, rfl, rfl, rfl⟩ rfl rfl

theorem touched_dispatch (s : Supervisor) (env : Envelope) (receipt : Receipt) :
    Touched s (s.dispatch env receipt).1 := by
  have hsame : ∀ {s s' : Supervisor}, SameControl s s' → s'.books = s.books →
      s'.resyncing = s.resyncing → Touched s s' := Touched.of_same
  have hrefl : Touched s s := hsame (SameControl.refl s) rfl rfl
  rw [dispatch]
  split
  · split
    · exact touched_notDecoded _ _
    · exact touched_onSnapshot _ _
  · split
    · exact touched_notDecoded _ _
    · exact touched_onDelta _ _
  · split
    · exact touched_notDecoded _ _
    · exact hsame ⟨rfl, rfl, rfl, rfl, rfl, rfl, rfl, rfl⟩ rfl rfl
  · split
    · exact touched_notDecoded _ _
    · exact hrefl
  · exact hrefl
  · split
    · exact hrefl
    · exact hsame ⟨rfl, rfl, rfl, rfl, rfl, rfl, rfl, rfl⟩ rfl rfl
  · split
    · exact touched_notDecoded _ _
    · next m =>
        cases hsid : env.sid with
        | none => exact hsame ⟨rfl, rfl, rfl, rfl, rfl, rfl, rfl, rfl⟩ rfl rfl
        | some sid =>
            exact @touched_eraseResyncing _ _ ⟨rfl, rfl, rfl, rfl, rfl, rfl, rfl, rfl⟩ rfl sid rfl
  · exact hrefl

/-- A supervisor without a connection. -/
structure Dormant (s : Supervisor) : Prop where
  applied : s.applied = none
  subscriptions : s.subscriptions = ∅
  pending : s.pending = ∅
  resyncing : s.resyncing = ∅
  stale : ∀ t, ¬ s.FreshAt t
  session : ∀ session, s.session = some session → session.isOpen = false

theorem Dormant.startReconcile {s : Supervisor} (h : s.Dormant) :
    s.startReconcile = (s, .done) := by
  have hguard : s.reconcileGuard = (s, false) := by
    rw [reconcileGuard]
    cases hs : s.session with
    | none => rfl
    | some session =>
        have hclosed := h.session session hs
        simp [hclosed]
  rw [Supervisor.startReconcile, hguard]

theorem freshAt_pruneBooks {s : Supervisor} {t : Ticker} (h : s.pruneBooks.FreshAt t) :
    s.FreshAt t := by
  obtain ⟨b, hb, hf⟩ := h
  rw [pruneBooks, Dict.get?_filter, Option.filter_eq_some_iff] at hb
  exact ⟨b, hb.1, hf⟩

theorem endConnection_dormant (s : Supervisor) (detail : String) :
    (s.endConnection detail).Dormant where
  applied := rfl
  subscriptions := rfl
  pending := rfl
  resyncing := rfl
  stale t := by
    intro ⟨b, hb, hf⟩
    rw [endConnection, Dict.get?_mapValues] at hb
    obtain ⟨b', -, rfl⟩ := Option.map_eq_some_iff.mp hb
    cases hf
  session session h := by cases h

end Supervisor

namespace Conn

open Supervisor (Pause)

variable (J : Supervisor → Prop) (K : Supervisor → Work → Prop) (R : Prop)

/-- How a stretch of the holder may end; `R` says whether it may raise. -/
def Ready : Supervisor × Pause → Prop
  | (s, .done) => J s
  | (s, .send work) => J s ∧ K s work
  | (s, .raise _) => J s ∧ R

/-- What an invariant owes. -/
structure Discipline (meetsGroup : Option Group → Prop)
    (meetsReply : Supervisor → Envelope → Prop) (meetsReturn : Supervisor → Work → Prop) :
    Prop where
  touched : ∀ s s', J s → s.Touched s' → J s'
  touchedWork : ∀ s s' work, J s → K s work → s.Touched s' → K s' work
  setGroup : ∀ s group, J s → s.accepts group = true → meetsGroup group →
    J { s with desired := group }
  setGroupWork : ∀ s group work, J s → K s work → s.accepts group = true →
    meetsGroup group → K { s with desired := group } work
  start : ∀ s, J s → Ready J K R s.startReconcile
  reply : ∀ s env, J s → meetsReply s env → Ready J K R (s.lockedReply env)
  afterSend : ∀ s work id, J s → K s work → meetsReturn s work →
    Ready J K R (s.afterSend work id)
  putReturn : ∀ s record work, meetsReturn s work → meetsReturn (s.put record) work
  prune : ∀ s, J s → J s.pruneBooks
  forget : ∀ s, J s → s.Dormant → J s.forgetConnection
  ended : ∀ s detail, J s → J (s.endConnection detail)

/-- The invariant, of a connection. -/
structure Holds (c : Conn) : Prop where
  state : J c.sup
  work : ∀ h, c.holder = some h → h.work = .closing ∨ K c.sup h.work
  raised : R ∨ c.raised = none
  closed : c.opened = false → c.sup.Dormant ∧ c.holder = none ∧ c.frame = none

/-- What an invariant asks of a run. -/
def Meets (meetsGroup : Option Group → Prop) (meetsReply : Supervisor → Envelope → Prop)
    (meetsReturn : Supervisor → Work → Prop) (c : Conn) : ConnEvent → Prop
  | .setGroup group => meetsGroup group
  | .acquireFrame => ∀ env, c.frame = some (.waiting env) → meetsReply c.sup env
  | .sendReturns => ∀ h, c.holder = some h → meetsReturn c.sup h.work
  | _ => True

variable {J K R} {meetsGroup : Option Group → Prop} {meetsReply : Supervisor → Envelope → Prop}
  {meetsReturn : Supervisor → Work → Prop} {c : Conn}

theorem Discipline.of_same (D : Discipline J K R meetsGroup meetsReply meetsReturn)
    {s s' : Supervisor} (h : J s) (hc : s.SameControl s') (hb : s'.books = s.books)
    (hr : s'.resyncing = s.resyncing) : J s' :=
  D.touched s s' h (Supervisor.Touched.of_same hc hb hr)

theorem no_holder {P : Holder → Prop} (h : Holder) (hh : none = some h) : P h := by
  cases hh

theorem not_closed {P : Prop} (ho : c.opened = true) (hc : c.opened = false) : P :=
  Bool.noConfusion (ho.symm.trans hc)

/-- A stretch of the holder ended. -/
theorem Discipline.settled (D : Discipline J K R meetsGroup meetsReply meetsReturn)
    (h : R ∨ c.raised = none) (ho : c.opened = true) (owner : Owner)
    {r : Supervisor × Pause} (hr : Ready J K R r) : Holds J K R (c.settle owner r) := by
  obtain ⟨s, pause⟩ := r
  cases pause with
  | done =>
      cases owner with
      | setGroup => exact ⟨D.prune s hr, no_holder, h, not_closed ho⟩
      | frame => exact ⟨hr, no_holder, h, not_closed ho⟩
      | run => exact ⟨hr, no_holder, h, not_closed ho⟩
  | send work =>
      refine ⟨hr.1, ?_, h, not_closed ho⟩
      intro held hh
      obtain rfl := Option.some.inj hh
      exact .inr hr.2
  | raise failure =>
      exact ⟨hr.1, no_holder, .inl hr.2, not_closed ho⟩

theorem closeSession_same (s : Supervisor) : s.SameControl s.closeSession :=
  ⟨rfl, rfl, rfl, rfl, rfl, rfl, rfl, rfl⟩

theorem transmit_touched (s : Supervisor) (cmd : Command) : s.Touched (s.transmit cmd).1 := by
  rw [Supervisor.transmit]
  split
  · exact Supervisor.Touched.of_same (Supervisor.SameControl.refl s) rfl rfl
  · split
    · exact Supervisor.Touched.of_same ⟨rfl, rfl, rfl, rfl, rfl, rfl, rfl, rfl⟩ rfl rfl
    · exact Supervisor.Touched.of_same (Supervisor.SameControl.refl s) rfl rfl

/-- The holder's send failed. -/
theorem Discipline.failed (D : Discipline J K R meetsGroup meetsReply meetsReturn)
    (h : Holds J K R c) (ho : c.opened = true) (owner : Owner) :
    Holds J K R (c.sendFailed owner) := by
  cases owner with
  | setGroup =>
      refine ⟨D.of_same h.state (closeSession_same c.sup) rfl rfl, ?_, h.raised, not_closed ho⟩
      intro held hh
      obtain rfl := Option.some.inj hh
      exact .inl rfl
  | frame => exact ⟨h.state, no_holder, h.raised, not_closed ho⟩
  | run => exact ⟨h.state, no_holder, h.raised, not_closed ho⟩

/-- Where something is in flight, the connection is open. -/
theorem Holds.opened_of_holder (h : Holds J K R c) {held : Holder}
    (hh : c.holder = some held) : c.opened = true := by
  by_contra ho
  have hnone := (h.closed (Bool.eq_false_iff.mpr ho)).2.1
  rw [hh] at hnone
  cases hnone

theorem Holds.opened_of_frame (h : Holds J K R c) {task : FrameTask}
    (hf : c.frame = some task) : c.opened = true := by
  by_contra ho
  have hnone := (h.closed (Bool.eq_false_iff.mpr ho)).2.2
  rw [hf] at hnone
  cases hnone

theorem dormant_of_same {s s' : Supervisor} (h : s.Dormant) (hc : s.SameControl s')
    (hb : s'.books = s.books) (hr : s'.resyncing = s.resyncing)
    (hs : ∀ session, s'.session = some session → session.isOpen = false) : s'.Dormant where
  applied := hc.applied.trans h.applied
  subscriptions := hc.subscriptions.trans h.subscriptions
  pending := hc.pending.trans h.pending
  resyncing := hr.trans h.resyncing
  stale t ht := by
    rw [Supervisor.FreshAt, hb] at ht
    exact h.stale t ht
  session := hs


theorem put_touched (s : Supervisor) (r : TapeRecord) : s.Touched (s.put r) :=
  Supervisor.Touched.of_same ⟨rfl, rfl, rfl, rfl, rfl, rfl, rfl, rfl⟩ rfl rfl

/-! ## The frame task -/

/-- The frame task moves beside the holder: it leaves the holder and the
bookkeeping alone, and changes what a frame may change. -/
structure Beside (c c' : Conn) : Prop where
  opened : c'.opened = c.opened
  holder : c'.holder = c.holder
  raised : c'.raised = c.raised
  touched : c.sup.Touched c'.sup

theorem Beside.of_touched {s : Supervisor} (ht : c.sup.Touched s) (frame : Option FrameTask)
    (wire : List (Int × Command)) : Beside c { c with sup := s, frame, wire } :=
  ⟨rfl, rfl, rfl, ht⟩

theorem Beside.refl (c : Conn) : Beside c c :=
  .of_touched (Supervisor.Touched.of_same (Supervisor.SameControl.refl _) rfl rfl) c.frame c.wire

theorem Beside.trans {c' c'' : Conn} (h : Beside c c') (h' : Beside c' c'') : Beside c c'' :=
  ⟨h'.opened.trans h.opened, h'.holder.trans h.holder, h'.raised.trans h.raised,
    h.touched.trans h'.touched⟩

/-- The frame task ends, and nothing else changes. -/
theorem Beside.over (c : Conn) : Beside c { c with frame := none } :=
  .of_touched (Beside.refl c).touched none c.wire

theorem beside_dispatched (c : Conn) (env : Envelope) (receipt : Receipt) :
    Beside c (c.dispatched env receipt) := by
  have ht := c.sup.touched_dispatch env receipt
  rw [Conn.dispatched]
  split <;> next hd => rw [hd] at ht; exact .of_touched ht _ c.wire

theorem beside_receive (c : Conn) (f : RawFrame) : Beside c (c.step (.receive f)) := by
  rw [Conn.step]
  split
  · have ht := c.sup.touched_receiveFrame f
    split
    · next hr => rw [hr] at ht; exact .of_touched ht c.frame c.wire
    · next hr =>
        rw [hr] at ht
        exact (Beside.of_touched ht c.frame c.wire).trans (beside_dispatched _ _ _)
    · next hr => rw [hr] at ht; exact .of_touched ht _ c.wire
  · exact .refl c

theorem beside_transmitFrame (c : Conn) : Beside c (c.step .transmitFrame) := by
  rw [Conn.step]
  split
  · next cmd _ =>
      have ht := transmit_touched c.sup cmd
      split
      · next hs => rw [hs] at ht; exact .of_touched ht _ _
      · exact .over c
  · next cmd _ =>
      have ht := transmit_touched c.sup cmd
      split
      · next hs => rw [hs] at ht; exact .of_touched ht _ _
      · exact .over c
  · exact .refl c

theorem beside_frameSendReturns (c : Conn) : Beside c (c.step .frameSendReturns) := by
  rw [Conn.step]
  split
  · exact (Beside.of_touched (put_touched c.sup _) c.frame c.wire).trans (beside_dispatched _ _ _)
  · exact .of_touched (put_touched c.sup _) none c.wire
  · exact .refl c

theorem beside_frameSendFails (c : Conn) : Beside c (c.step .frameSendFails) := by
  rw [Conn.step]
  split
  · exact .over c
  · exact .over c
  · exact .refl c

/-- What the frame task does on an open connection keeps an invariant. -/
theorem Discipline.beside (D : Discipline J K R meetsGroup meetsReply meetsReturn)
    (h : Holds J K R c) (ho : c.opened = true) {c' : Conn} (hb : Beside c c') :
    Holds J K R c' where
  state := D.touched c.sup c'.sup h.state hb.touched
  work held hh := by
    refine (h.work held (hb.holder ▸ hh)).imp id fun hk => ?_
    exact D.touchedWork c.sup c'.sup held.work h.state hk hb.touched
  raised := by
    rw [hb.raised]
    exact h.raised
  closed hc := not_closed ho (hb.opened ▸ hc)

/-! ## One step -/

/-- A connection begins to be opened. -/
theorem Discipline.step_begin (D : Discipline J K R meetsGroup meetsReply meetsReturn)
    (h : Holds J K R c) : Holds J K R (c.step .begin) := by
  rw [Conn.step]
  split
  · next hc =>
      obtain ⟨hopen, hholder, -, -⟩ := hc
      have hclosed : c.opened = false := by simpa using hopen
      obtain ⟨hd, -, hframe⟩ := h.closed hclosed
      have hforget := D.forget c.sup h.state hd
      refine ⟨D.of_same hforget ⟨rfl, rfl, rfl, rfl, rfl, rfl, rfl, rfl⟩ rfl rfl, ?_,
        h.raised, fun _ => ⟨⟨rfl, rfl, rfl, rfl, hd.stale, ?_⟩, hholder, hframe⟩⟩
      · intro held hh
        rw [hholder] at hh
        cases hh
      · intro session hs
        rw [← Option.some.inj hs]
  · exact h

/-- The connection is open. -/
theorem Discipline.step_opened (D : Discipline J K R meetsGroup meetsReply meetsReturn)
    (h : Holds J K R c) : Holds J K R (c.step .opened) := by
  rw [Conn.step]
  split
  · refine ⟨D.of_same h.state ⟨rfl, rfl, rfl, rfl, rfl, rfl, rfl, rfl⟩ rfl rfl, ?_,
      h.raised, nofun⟩
    intro held hh
    rw [(h.closed ‹_›).2.1] at hh
    cases hh
  · exact h

/-- The session is closed under it. -/
theorem Discipline.step_lost (D : Discipline J K R meetsGroup meetsReply meetsReturn)
    (h : Holds J K R c) : Holds J K R (c.step .lost) := by
  refine ⟨D.of_same h.state (closeSession_same c.sup) rfl rfl, ?_, h.raised, ?_⟩
  · intro held hh
    exact (h.work held hh).imp id fun hk => D.touchedWork c.sup _ held.work h.state hk
      (Supervisor.Touched.of_same (closeSession_same c.sup) rfl rfl)
  · intro hc
    obtain ⟨hd, hholder, hframe⟩ := h.closed hc
    refine ⟨dormant_of_same hd (closeSession_same c.sup) rfl rfl ?_, hholder, hframe⟩
    intro session hs
    obtain ⟨session', -, rfl⟩ := Option.map_eq_some_iff.mp hs
    rfl

/-- Another group is wanted. -/
theorem Discipline.step_setGroup (D : Discipline J K R meetsGroup meetsReply meetsReturn)
    (h : Holds J K R c) (group : Option Group) (he : meetsGroup group) :
    Holds J K R (c.step (.setGroup group)) := by
  rw [Conn.step]
  split
  · next hacc =>
      refine ⟨D.setGroup c.sup group h.state hacc he, ?_, h.raised, ?_⟩
      · intro held hh
        exact (h.work held hh).imp id fun hk =>
          D.setGroupWork c.sup group held.work h.state hk hacc he
      · intro hc
        obtain ⟨hd, hholder, hframe⟩ := h.closed hc
        exact ⟨⟨hd.applied, hd.subscriptions, hd.pending, hd.resyncing, hd.stale,
          hd.session⟩, hholder, hframe⟩
  · exact h

/-- A caller of `set_group` gets the lock. -/
theorem Discipline.step_acquire (D : Discipline J K R meetsGroup meetsReply meetsReturn)
    (h : Holds J K R c) : Holds J K R (c.step .acquire) := by
  rw [Conn.step]
  split
  · next hc =>
      rcases Bool.eq_false_or_eq_true c.opened with ho | ho
      · exact D.settled (c := { c with callers := c.callers - 1 }) h.raised ho .setGroup
          (D.start c.sup h.state)
      · -- Without a connection there is nothing to send.
        obtain ⟨hd, hholder, hframe⟩ := h.closed ho
        rw [hd.startReconcile]
        refine ⟨D.prune c.sup h.state, no_holder, h.raised, fun _ => ⟨?_, rfl, hframe⟩⟩
        exact ⟨hd.applied, hd.subscriptions, hd.pending, hd.resyncing,
          fun t ht => hd.stale t (Supervisor.freshAt_pruneBooks ht), hd.session⟩
  · exact h

/-- A frame arrives. -/
theorem Discipline.step_receive (D : Discipline J K R meetsGroup meetsReply meetsReturn)
    (h : Holds J K R c) (f : RawFrame) : Holds J K R (c.step (.receive f)) := by
  by_cases ho : c.opened = true
  · exact D.beside h ho (beside_receive c f)
  · rw [Conn.step, if_neg fun hc => ho hc.1]
    exact h

/-- A reply gets the lock. -/
theorem Discipline.step_acquireFrame (D : Discipline J K R meetsGroup meetsReply meetsReturn)
    (h : Holds J K R c)
    (he : ∀ env, c.frame = some (.waiting env) → meetsReply c.sup env) :
    Holds J K R (c.step .acquireFrame) := by
  rw [Conn.step]
  split
  · next env hf =>
      split
      · exact D.settled (c := { c with frame := some .locked }) h.raised
          (h.opened_of_frame hf) .frame (D.reply c.sup env h.state (he env hf))
      · exact h
  · exact h

/-- The holder's command leaves. -/
theorem Discipline.step_transmit (D : Discipline J K R meetsGroup meetsReply meetsReturn)
    (h : Holds J K R c) : Holds J K R (c.step .transmit) := by
  rw [Conn.step]
  split
  · next owner work hh =>
      have ho := h.opened_of_holder hh
      split
      · exact h
      · next cmd _ =>
          have ht := transmit_touched c.sup cmd
          split
          · next hs =>
              rw [hs] at ht
              have hmoved := D.beside h ho (.of_touched ht c.frame c.wire)
              refine ⟨hmoved.state, ?_, h.raised, not_closed ho⟩
              intro held hheld
              obtain rfl := Option.some.inj hheld
              exact hmoved.work ⟨owner, work, none⟩ hh
          · exact D.failed h ho owner
  · exact h

/-- The holder's send returns. -/
theorem Discipline.step_sendReturns (D : Discipline J K R meetsGroup meetsReply meetsReturn)
    (h : Holds J K R c)
    (he : ∀ held, c.holder = some held → meetsReturn c.sup held.work) :
    Holds J K R (c.step .sendReturns) := by
  rw [Conn.step]
  split
  · next owner _ hh =>
      have ho := h.opened_of_holder hh
      exact D.settled h.raised ho owner (r := (c.sup, .done)) h.state
  · next owner work id hne hh =>
      have ho := h.opened_of_holder hh
      split
      · exact h
      · next cmd _ =>
          have ht := put_touched c.sup (.command id cmd)
          have hk := (h.work _ hh).resolve_left fun hw => hne hw
          exact D.settled h.raised ho owner (D.afterSend _ work id
            (D.touched _ _ h.state ht) (D.touchedWork _ _ work h.state hk ht)
            (D.putReturn _ _ work (he _ hh)))
  · exact h

/-- The frame task goes on where it waits for its send. -/
theorem Discipline.step_frame (D : Discipline J K R meetsGroup meetsReply meetsReturn)
    (h : Holds J K R c) {e : ConnEvent} (hb : Beside c (c.step e))
    (hnone : c.frame = none → c.step e = c) : Holds J K R (c.step e) := by
  cases hf : c.frame with
  | none =>
      rw [hnone hf]
      exact h
  | some task => exact D.beside h (h.opened_of_frame hf) hb

/-- The connection ends. -/
theorem Discipline.step_finish (D : Discipline J K R meetsGroup meetsReply meetsReturn)
    (h : Holds J K R c) (detail : String) : Holds J K R (c.step (.finish detail)) := by
  rw [Conn.step]
  split
  · next hc =>
      obtain ⟨hholder, hframe, -⟩ := hc
      have hnone : c.frame = none := by simpa using hframe
      have hwork : ∀ held, c.holder = some held →
          held.work = .closing ∨ K (c.sup.endConnection detail) held.work := by
        intro held hh
        rw [hholder] at hh
        cases hh
      split
      · exact ⟨D.ended c.sup detail h.state, hwork, h.raised,
          fun _ => ⟨c.sup.endConnection_dormant detail, hholder, hnone⟩⟩
      · next ho =>
          obtain ⟨hd, -, -⟩ := h.closed (Bool.eq_false_iff.mpr ho)
          refine ⟨D.of_same (D.forget c.sup h.state hd)
            ⟨rfl, rfl, rfl, rfl, rfl, rfl, rfl, rfl⟩ rfl rfl, ?_, h.raised,
            fun _ => ⟨⟨rfl, rfl, rfl, rfl, hd.stale, nofun⟩, hholder, hnone⟩⟩
          intro held hh
          rw [hholder] at hh
          cases hh
  · exact h

/-- The step lemma: an invariant is kept by every event the run may take. -/
theorem Discipline.step (D : Discipline J K R meetsGroup meetsReply meetsReturn)
    (h : Holds J K R c) (e : ConnEvent) (he : Meets meetsGroup meetsReply meetsReturn c e) :
    Holds J K R (c.step e) := by
  cases e with
  | begin => exact D.step_begin h
  | opened => exact D.step_opened h
  | start =>
      rw [Conn.step]
      split
      · next hc => exact D.settled h.raised hc.1 .run (D.start c.sup h.state)
      · exact h
  | lost => exact D.step_lost h
  | setGroup group => exact D.step_setGroup h group he
  | acquire => exact D.step_acquire h
  | receive f => exact D.step_receive h f
  | acquireFrame => exact D.step_acquireFrame h he
  | transmit => exact D.step_transmit h
  | sendReturns => exact D.step_sendReturns h he
  | sendFails =>
      rw [Conn.step]
      split
      · exact h
      · next owner _ _ _ hh => exact D.failed h (h.opened_of_holder hh) owner
      · exact h
  | transmitFrame => exact D.step_frame h (beside_transmitFrame c) fun hf => by rw [Conn.step, hf]
  | frameSendReturns =>
      exact D.step_frame h (beside_frameSendReturns c) fun hf => by rw [Conn.step, hf]
  | frameSendFails =>
      exact D.step_frame h (beside_frameSendFails c) fun hf => by rw [Conn.step, hf]
  | cancelHolder =>
      rw [Conn.step]
      split
      · exact ⟨h.state, no_holder, h.raised, fun hc => ⟨(h.closed hc).1, rfl, rfl⟩⟩
      · exact ⟨h.state, no_holder, h.raised, fun hc => ⟨(h.closed hc).1, rfl, (h.closed hc).2.2⟩⟩
  | cancelFrame =>
      rw [Conn.step]
      split
      · exact ⟨h.state, no_holder, h.raised, fun hc => ⟨(h.closed hc).1, rfl, rfl⟩⟩
      · exact ⟨h.state, h.work, h.raised, fun hc => ⟨(h.closed hc).1, (h.closed hc).2.1, rfl⟩⟩
  | finish detail => exact D.step_finish h detail

theorem holds_new (config : SupervisorConfig) (h : J (.new config)) :
    Holds J K R (.new config) where
  state := h
  work := no_holder
  raised := .inr rfl
  closed _ := by
    refine ⟨⟨rfl, rfl, rfl, rfl, ?_, nofun⟩, rfl, rfl⟩
    intro t ⟨b, hb, _⟩
    cases hb

/-- The run lemma. -/
theorem Discipline.throughout (D : Discipline J K R meetsGroup meetsReply meetsReturn)
    (config : SupervisorConfig) (h : J (.new config)) (es : List ConnEvent)
    (hes : Run.Along Conn.step (Meets meetsGroup meetsReply meetsReturn) (.new config) es) :
    Run.Throughout Conn.step (Holds J K R) (.new config) es :=
  Run.throughout_of_step (fun _ e hc he => D.step hc e he) (holds_new config h) hes

end Conn

end Tape
