import Tape.Api.Followers
import Tape.Bus.Mirrored

/-!
# A client of the live feed

What a client that follows the protocol makes of the messages it is sent, and
what it would know if it had processed all that its session has queued. A reply
to a subscribe makes every market unknown that the client did not follow before
it, and the client knows what it follows by these replies only. A snapshot and a
resync speak for their market whatever the client knew; a delta needs a fresh
book.

An offer that overflows drops the queue, and what is queued instead begins with
the replies among the messages offered and then says, for each market followed,
all there is to know (`receiveAll_recovery`).
-/

namespace Tape.Api

/-- What a client knows of a market. -/
structure ClientBook where
  state : KnownBookState
  depth : Depth

/-- What a client knows: the markets the last reply named, what it makes of
each, and how many deltas it could not apply. -/
structure Client where
  followed : List Ticker
  /-- `none`: unknown. -/
  book : Ticker → Option ClientBook
  inapplicable : Nat

namespace Client

/-- A client that was sent nothing yet. -/
def new : Client where
  followed := []
  book _ := none
  inapplicable := 0

/-- What is known of one market is replaced. -/
def setBook (c : Client) (t : Ticker) (b : Option ClientBook) : Client :=
  { c with book := Function.update c.book t b }

/-- A delta that could not be applied is counted. -/
def refuse (c : Client) : Client := { c with inapplicable := c.inapplicable + 1 }

/-- What the client makes of a message. -/
def receive (c : Client) : ServerMessage → Client
  | .subscribed tickers _ =>
      { c with followed := tickers, book := fun t => if t ∈ c.followed then c.book t else none }
  | .snapshot t state _ bids asks => c.setBook t (some ⟨state, Depth.ofLevels bids asks⟩)
  | .delta t _ side price delta =>
      match c.book t with
      | some ⟨.fresh, depth⟩ =>
          if 0 ≤ depth side price + delta then
            c.setBook t (some ⟨.fresh, depth.add side price delta⟩)
          else c.refuse
      | _ => c.refuse
  | .book t state => c.setBook t ((c.book t).map fun b => { b with state })
  | .resync t _ => c.setBook t none
  | _ => c

/-- The client after some messages. -/
def receiveAll (c : Client) (messages : List ServerMessage) : Client :=
  messages.foldl receive c

variable {c : Client} {t u : Ticker}

@[simp] theorem receiveAll_nil (c : Client) : c.receiveAll [] = c := rfl

@[simp] theorem receiveAll_cons (c : Client) (m : ServerMessage) (rest : List ServerMessage) :
    c.receiveAll (m :: rest) = (c.receive m).receiveAll rest := rfl

@[simp] theorem receiveAll_append (c : Client) (messages rest : List ServerMessage) :
    c.receiveAll (messages ++ rest) = (c.receiveAll messages).receiveAll rest :=
  List.foldl_append

@[simp] theorem setBook_book (c : Client) (t : Ticker) (b : Option ClientBook) (u : Ticker) :
    (c.setBook t b).book u = if u = t then b else c.book u :=
  Function.update_apply _ _ _ _

@[simp] theorem setBook_followed (c : Client) (t : Ticker) (b : Option ClientBook) :
    (c.setBook t b).followed = c.followed := rfl

@[simp] theorem setBook_inapplicable (c : Client) (t : Ticker) (b : Option ClientBook) :
    (c.setBook t b).inapplicable = c.inapplicable := rfl

/-- What a client could not apply stays counted. -/
theorem inapplicable_le_receive (c : Client) (m : ServerMessage) :
    c.inapplicable ≤ (c.receive m).inapplicable := by
  cases m with
  | delta t tsMs side price delta =>
      rw [receive]
      split
      · split
        · exact le_refl _
        · exact Nat.le_succ _
      · exact Nat.le_succ _
  | _ => exact le_refl _

theorem inapplicable_le_receiveAll (c : Client) (messages : List ServerMessage) :
    c.inapplicable ≤ (c.receiveAll messages).inapplicable := by
  induction messages generalizing c with
  | nil => exact le_refl _
  | cons m rest ih => exact (inapplicable_le_receive c m).trans (ih _)

end Client

/-- What the hub holds of a market, as a client sees it. -/
def LiveHub.view (h : LiveHub) (t : Ticker) : Option ClientBook :=
  (h.live.books.get? t).map fun b => ⟨.of b, b.depth⟩

/-- The hub's copies keep their invariant. -/
def LiveHub.Sane (h : LiveHub) : Prop := ∀ t b, h.live.books.get? t = some b → b.Inv

namespace Client

variable {c : Client} {h : LiveHub}

/-- A snapshot is what the hub holds. -/
theorem receive_snapshot (hs : h.Sane) (c : Client) {t : Ticker} {m : ServerMessage}
    (hm : h.snapshot t = some m) : c.receive m = c.setBook t (h.view t) := by
  obtain ⟨b, hb, rfl⟩ := Option.map_eq_some_iff.mp hm
  rw [receive, (hs t b hb).ofLevels_levels, LiveHub.view, hb]
  rfl

theorem snapshot_eq_none_iff {t : Ticker} : h.snapshot t = none ↔ h.view t = none := by
  rw [LiveHub.snapshot, LiveHub.view, Option.map_eq_none_iff, Option.map_eq_none_iff]

/-- The client knows of some markets what the hub holds, and could apply every
delta. -/
structure Shows (c : Client) (h : LiveHub) (tickers : List Ticker) : Prop where
  applicable : c.inapplicable = 0
  books : ∀ t ∈ tickers, c.book t = h.view t

/-- What a client knows is compared with the books of the hub only. -/
theorem shows_congr {h' : LiveHub} (hlive : h'.live = h.live) (tickers : List Ticker) :
    c.Shows h' tickers ↔ c.Shows h tickers := by
  have hview : h'.view = h.view := by
    funext t
    rw [LiveHub.view, hlive]
    rfl
  constructor
  · intro ⟨happlicable, hbooks⟩
    exact ⟨happlicable, hview ▸ hbooks⟩
  · intro ⟨happlicable, hbooks⟩
    exact ⟨happlicable, hview ▸ hbooks⟩

/-- A recovery says all there is to know. -/
theorem receiveAll_recovery (hs : h.Sane) (c : Client) (tickers : List Ticker) :
    (c.receiveAll (ClientSession.recovery h.snapshot tickers)).inapplicable = c.inapplicable ∧
      ∀ t, (c.receiveAll (ClientSession.recovery h.snapshot tickers)).book t =
        if t ∈ tickers then h.view t else c.book t := by
  induction tickers generalizing c with
  | nil => exact ⟨rfl, fun t => rfl⟩
  | cons u rest ih =>
      have hfirst : ∃ c' : Client, c.receiveAll (.resync u resyncClientLag ::
          (h.snapshot u).toList) = c' ∧ c'.inapplicable = c.inapplicable ∧
          ∀ t, c'.book t = if t = u then h.view u else c.book t := by
        rw [receiveAll_cons]
        cases hsnapshot : h.snapshot u with
        | none =>
            refine ⟨_, rfl, rfl, fun t => ?_⟩
            rw [snapshot_eq_none_iff.mp hsnapshot]
            exact setBook_book c u none t
        | some m =>
            refine ⟨_, rfl, ?_, fun t => ?_⟩
            · show ((c.setBook u none).receive m).inapplicable = _
              rw [receive_snapshot hs _ hsnapshot]
              rfl
            · show ((c.setBook u none).receive m).book t = _
              rw [receive_snapshot hs _ hsnapshot, setBook_book, setBook_book]
              split
              · rfl
              · rfl
      obtain ⟨c', hc', happlicable, hbook⟩ := hfirst
      obtain ⟨happlicable', hbook'⟩ := ih c'
      have hsplit : c.receiveAll (ClientSession.recovery h.snapshot (u :: rest)) =
          c'.receiveAll (ClientSession.recovery h.snapshot rest) := by
        rw [← hc', ← receiveAll_append]
        rfl
      rw [hsplit]
      refine ⟨happlicable'.trans happlicable, fun t => ?_⟩
      rw [hbook', hbook]
      by_cases ht : t ∈ rest
      · rw [if_pos ht, if_pos (List.mem_cons_of_mem _ ht)]
      · rw [if_neg ht]
        by_cases hu : t = u
        · rw [if_pos hu, if_pos (hu ▸ List.mem_cons_self), hu]
        · have hout : t ∉ u :: rest := by simp [hu, ht]
          rw [if_neg hu, if_neg hout]

/-- Snapshots of the markets new to a session. -/
theorem receiveAll_snapshots (hs : h.Sane) (c : Client) (tickers previous : List Ticker) :
    (c.receiveAll (tickers.filterMap fun t =>
      if t ∈ previous then none else h.snapshot t)).inapplicable = c.inapplicable ∧
      ∀ t, (c.receiveAll (tickers.filterMap fun t =>
        if t ∈ previous then none else h.snapshot t)).book t =
        if t ∈ tickers ∧ t ∉ previous ∧ h.view t ≠ none then h.view t else c.book t := by
  induction tickers generalizing c with
  | nil => exact ⟨rfl, fun t => (if_neg fun hin => nomatch hin.1).symm⟩
  | cons u rest ih =>
      by_cases hsent : u ∉ previous ∧ h.view u ≠ none
      · obtain ⟨m, hm⟩ := Option.ne_none_iff_exists'.mp fun hnone =>
          hsent.2 (snapshot_eq_none_iff.mp hnone)
        have hfirst : (if u ∈ previous then none else h.snapshot u) = some m := by
          rw [if_neg hsent.1, hm]
        simp only [List.filterMap_cons, hfirst, receiveAll_cons, receive_snapshot hs c hm]
        obtain ⟨happlicable, hbook⟩ := ih (c.setBook u (h.view u))
        refine ⟨happlicable, fun t => (hbook t).trans ?_⟩
        rw [setBook_book]
        by_cases hu : t = u
        · subst hu
          rw [if_pos rfl, ite_self, if_pos ⟨List.mem_cons_self, hsent⟩]
        · simp [hu]
      · have hfirst : (if u ∈ previous then none else h.snapshot u) = none := by
          split
          · rfl
          · next hnew =>
              exact snapshot_eq_none_iff.mpr (not_not.mp fun hheld => hsent ⟨hnew, hheld⟩)
        simp only [List.filterMap_cons, hfirst]
        obtain ⟨happlicable, hbook⟩ := ih c
        refine ⟨happlicable, fun t => (hbook t).trans ?_⟩
        by_cases hu : t = u
        · subst hu
          rw [if_neg fun hin => hsent hin.2, if_neg fun hin => hsent hin.2]
        · simp [hu]

/-- The reply to a subscribe with the snapshots that go with it, for a client
that knew the markets followed until now: enough or not. -/
theorem shows_subscribe_iff (hs : h.Sane) {previous : List Ticker} (hc : c.Shows h previous)
    (accepted : List Ticker) (rejected : List Rejection) :
    (c.receiveAll (.subscribed accepted rejected :: accepted.filterMap fun t =>
      if t ∈ previous then none else h.snapshot t)).Shows h accepted ↔
      ∀ t ∈ accepted,
        if t ∈ previous then h.view t ≠ none → t ∈ c.followed
        else h.view t = none → t ∈ c.followed → c.book t = none := by
  rw [receiveAll_cons]
  obtain ⟨happlicable, hbook⟩ :=
    receiveAll_snapshots hs (c.receive (.subscribed accepted rejected)) accepted previous
  have hone : ∀ t ∈ accepted,
      ((if t ∈ accepted ∧ t ∉ previous ∧ h.view t ≠ none then h.view t
        else if t ∈ c.followed then c.book t else none) = h.view t ↔
      if t ∈ previous then h.view t ≠ none → t ∈ c.followed
      else h.view t = none → t ∈ c.followed → c.book t = none) := by
    intro t ht
    by_cases hprevious : t ∈ previous
    · rw [if_neg fun hin => hin.2.1 hprevious, if_pos hprevious, hc.books t hprevious]
      by_cases hfollowed : t ∈ c.followed
      · simp [hfollowed]
      · simp [hfollowed, eq_comm]
    · rw [if_neg hprevious]
      by_cases hheld : h.view t = none
      · rw [if_neg fun hin => hin.2.2 hheld, hheld]
        by_cases hfollowed : t ∈ c.followed
        · simp [hfollowed]
        · simp [hfollowed]
      · rw [if_pos ⟨ht, hprevious, hheld⟩]
        exact iff_of_true rfl fun hnone => absurd hnone hheld
  constructor
  · intro hshows t ht
    exact (hone t ht).mp ((hbook t).symm.trans (hshows.books t ht))
  · intro hall
    refine ⟨happlicable.trans hc.applicable, fun t ht => ?_⟩
    exact (hbook t).trans ((hone t ht).mpr (hall t ht))

/-- Replies are no deltas. -/
theorem inapplicable_receiveAll_replies (c : Client) {messages : List ServerMessage}
    (hreplies : ∀ m ∈ messages, m.isReply = true) :
    (c.receiveAll messages).inapplicable = c.inapplicable := by
  induction messages generalizing c with
  | nil => rfl
  | cons m rest ih =>
      obtain ⟨hm, hrest⟩ := List.forall_mem_cons.mp hreplies
      rw [receiveAll_cons, ih _ hrest]
      cases m with
      | subscribed tickers rejected => rfl
      | error code message => rfl
      | _ => cases hm

/-- After a recovery the client knows all, whatever replies came before it. -/
theorem shows_lag (hs : h.Sane) (hc : c.inapplicable = 0) {replies : List ServerMessage}
    (hreplies : ∀ m ∈ replies, m.isReply = true) (tickers : List Ticker) :
    (c.receiveAll (replies ++ ClientSession.recovery h.snapshot tickers)).Shows h tickers := by
  obtain ⟨happlicable, hbook⟩ := receiveAll_recovery hs (c.receiveAll replies) tickers
  rw [receiveAll_append]
  refine ⟨?_, fun t ht => ?_⟩
  · rw [happlicable, inapplicable_receiveAll_replies c hreplies, hc]
  · rw [hbook, if_pos ht]

end Client

/-- The session is neither closed nor gone. -/
def ClientSession.Connected (s : ClientSession) : Prop := s.closeCode = none ∧ s.gone = false

instance (s : ClientSession) : Decidable s.Connected := inferInstanceAs (Decidable (_ ∧ _))

theorem ClientSession.not_connected_close (s : ClientSession) (code : Nat) :
    ¬ (s.close code).Connected := by
  rintro ⟨hopen, -⟩
  rw [close] at hopen
  split at hopen
  · next hclosed =>
      rw [hclosed] at hopen
      cases hopen
  · cases hopen

/-- No offer reopens a session. -/
theorem ClientSession.connected_of_offer {s : ClientSession}
    {snapshot : Ticker → Option ServerMessage} {nowNs : Int} {messages : List ServerMessage}
    (h : (s.offer snapshot nowNs messages).Connected) : s.Connected := by
  rw [offer] at h
  split at h
  · exact h
  · next hgo =>
      rw [not_or, not_or, not_not, Bool.not_eq_true] at hgo
      exact ⟨hgo.1, hgo.2.1⟩

namespace Client

variable {c : Client} {h : LiveHub} {s : ClientSession}

/-- An offer, seen by a client that processes all that is queued: the messages
go to it where they fit, and else it starts over. -/
theorem shows_offer (hs : h.Sane) (hc : (c.receiveAll s.queue).inapplicable = 0)
    (hopen : s.Connected) {nowNs : Int} {messages : List ServerMessage}
    (hall : messages = [] ∨ s.queue.length + messages.length ≤ s.queueMax →
      ((c.receiveAll s.queue).receiveAll messages).Shows h s.subscriptions)
    (hafter : (s.offer h.snapshot nowNs messages).closeCode = none) :
    (c.receiveAll (s.offer h.snapshot nowNs messages).queue).Shows h s.subscriptions := by
  obtain ⟨hclose, hgone⟩ := hopen
  rw [ClientSession.offer] at hafter ⊢
  by_cases hnone : messages = []
  · rw [if_pos (.inr (.inr hnone))]
    have hshows := hall (.inl hnone)
    rwa [hnone] at hshows
  · have hgo : ¬ (s.closeCode ≠ none ∨ s.gone = true ∨ messages = []) := by
      rw [hclose, hgone]
      simp [hnone]
    rw [if_neg hgo] at hafter ⊢
    by_cases hfits : s.queue.length + messages.length ≤ s.queueMax
    · rw [if_pos hfits]
      dsimp only
      rw [receiveAll_append]
      exact hall (.inr hfits)
    · rw [if_neg hfits] at hafter ⊢
      have hbefore : c.inapplicable = 0 :=
        Nat.le_zero.mp (hc ▸ inapplicable_le_receiveAll c s.queue)
      have hreplies : ∀ m ∈ messages.filter ServerMessage.isReply, m.isReply = true :=
        fun m hm => (List.mem_filter.mp hm).2
      rw [ClientSession.lag] at hafter ⊢
      dsimp only at hafter ⊢
      split at hafter
      · rw [ClientSession.close, hclose] at hafter
        cases hafter
      · next hkept =>
          rw [if_neg hkept]
          exact shows_lag hs hbefore hreplies s.subscriptions

end Client

end Tape.Api
