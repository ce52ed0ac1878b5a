import Tape.Book.Change
import Tape.Wire.Messages

/-!
# Book events

A converted snapshot or delta, as what it does to the book it is applied to.
The recorder, the replay and the consumers of the bus all apply them the same
way, so what follows is stated once: the event takes effect exactly when the
copy of the book is known after it, and what is known then is the change it
carries, followed.
-/

namespace Tape

/-- What a book frame says, once decoded and converted. -/
inductive BookEvent where
  | snapshot (e : BookSnapshot)
  | delta (e : BookDelta)
  deriving DecidableEq

namespace BookEvent

/-- The market of the event. -/
def ticker : BookEvent → Ticker
  | .snapshot e => e.ticker
  | .delta e => e.ticker

/-- When and where it was received. -/
def receipt : BookEvent → Receipt
  | .snapshot e => e.receipt
  | .delta e => e.receipt

/-- The subscription it came on. -/
def sid : BookEvent → Sid
  | .snapshot e => e.sid
  | .delta e => e.sid

/-- What it does to the depth. -/
def change : BookEvent → Change
  | .snapshot e => .snapshot e.bids e.asks
  | .delta e => .delta e.side e.price e.delta

/-- The event among those the recorder passes on. -/
def toMarket : BookEvent → MarketEvent
  | .snapshot e => .snapshot e
  | .delta e => .delta e

/-- The event applied to a book: the book it leaves, and whether it took effect. -/
def perform (e : BookEvent) (b : Book) : Book × Except BookInvariantError Bool :=
  match e with
  | .snapshot e =>
      match b.applySnapshot e.bids e.asks e.tsMs with
      | (b, .error err) => (b, .error err)
      | (b, .ok ()) => (b, .ok true)
  | .delta e => b.applyDelta e.side e.price e.delta e.tsMs

theorem perform_snapshot_fst (e : BookSnapshot) (b : Book) :
    ((snapshot e).perform b).1 = (b.applySnapshot e.bids e.asks e.tsMs).1 := by
  rw [perform]
  rcases b.applySnapshot e.bids e.asks e.tsMs with ⟨b', err | ⟨⟩⟩ <;> rfl

theorem inv_perform (e : BookEvent) {b : Book} (hi : b.Inv) : (e.perform b).1.Inv := by
  cases e with
  | snapshot e =>
      rw [perform_snapshot_fst]
      exact hi.applySnapshot e.bids e.asks e.tsMs
  | delta e => exact hi.applyDelta e.side e.price e.delta e.tsMs

@[simp] theorem ticker_perform (e : BookEvent) (b : Book) :
    (e.perform b).1.ticker = b.ticker := by
  cases e with
  | snapshot e =>
      rw [perform_snapshot_fst]
      rcases b.applySnapshot_cases e.bids e.asks e.tsMs with
        ⟨b', heq, -, -, hticker, -⟩ | ⟨err, heq⟩
      · rw [heq, hticker]
      · rw [heq, Book.markStale_ticker]
  | delta e =>
      show (b.applyDelta e.side e.price e.delta e.tsMs).1.ticker = b.ticker
      rcases b.applyDelta_cases e.side e.price e.delta e.tsMs with
        ⟨-, heq⟩ | ⟨-, -, err, heq⟩ | ⟨-, -, ⟨err, heq⟩, -⟩ | ⟨-, -, heq, -⟩
      · rw [heq]
      · rw [heq, Book.markStale_ticker]
      · rw [heq, Book.markStale_ticker, Book.writeLevel_ticker]
      · rw [heq, Book.withTs_ticker, Book.writeLevel_ticker]

theorem live_perform (e : BookEvent) {b : Book} (hi : b.Inv) :
    (e.perform b).1.live = e.change.follow b.live := by
  cases e with
  | snapshot e =>
      rw [perform_snapshot_fst]
      exact b.live_applySnapshot e.bids e.asks e.tsMs
  | delta e => exact hi.live_applyDelta e.side e.price e.delta e.tsMs

/-- An event took effect when the book is known after it. -/
theorem perform_ok_iff (e : BookEvent) {b : Book} (hi : b.Inv) :
    (e.perform b).2 = .ok true ↔ ∃ d, e.change.follow b.live = some d := by
  rw [← live_perform e hi]
  cases e with
  | snapshot e =>
      have hok : (b.applySnapshot e.bids e.asks e.tsMs).2 = .ok () ↔
        Book.ValidImage e.bids e.asks :=
        Book.applySnapshot_ok_iff b e.tsMs
      by_cases hv : Book.ValidImage e.bids e.asks
      · obtain ⟨-, hfresh, -⟩ := Book.applySnapshot_of_valid b e.tsMs hv
        refine iff_of_true ?_ ⟨_, by rw [perform_snapshot_fst, Book.live_of_fresh hfresh]⟩
        have hret := hok.mpr hv
        rw [perform]
        split
        · next heq => rw [heq] at hret; cases hret
        · rfl
      · have hret : (b.applySnapshot e.bids e.asks e.tsMs).2 ≠ .ok () := fun h => hv (hok.mp h)
        refine iff_of_false ?_ ?_
        · rw [perform]
          split
          · nofun
          · next heq => rw [heq] at hret; exact absurd rfl hret
        · rintro ⟨d, hd⟩
          rw [perform_snapshot_fst, Book.applySnapshot_of_invalid b e.tsMs hv] at hd
          cases hd
  | delta e =>
      rw [live_perform (.delta e) hi]
      refine Iff.trans hi.applyDelta_ok_iff ?_
      cases hf : b.stale with
      | true => simp [Book.live_of_stale hf, change, Change.follow]
      | false =>
          rw [Book.live_of_fresh hf, change, Change.follow]
          by_cases hfit : Book.Fits b.depth e.side e.price e.delta
          · simp [hfit]
          · simp [hfit]

end BookEvent

end Tape
