import Tape.Bus.Envelope
import Tape.Recorder.Supervisor

/-!
# The publisher

One book for each market, and the numbered messages that leave it. A snapshot
or a delta is published when it took effect, and only then. A book goes stale,
and is let go, without a message. In between the refresh cycle publishes the
image of a book as it is held. A restart takes a new epoch and starts with no
books.

A market that is held by two connections while it moves between them has two
books for a while; the publisher here is the one that holds it, as the refresh
cycle sees it.
-/

namespace Tape

/-- The book an event is applied to: a snapshot opens the book it is for, a
delta needs one. -/
def bookFor (books : Dict Ticker Book) : BookEvent → Option Book
  | .snapshot e => some (books.getD e.ticker (Book.new e.ticker))
  | .delta e => books.get? e.ticker

/-- A book event applied to the books held, and whether it took effect. -/
def applyToBooks (books : Dict Ticker Book) (e : BookEvent) : Dict Ticker Book × Bool :=
  match bookFor books e with
  | none => (books, false)
  | some book =>
      match e.perform book with
      | (book, .error _) => (books.set e.ticker book, false)
      | (book, .ok applied) => (books.set e.ticker book, applied)

/-- An event that is about no book. -/
abbrev Notice := { e : BusEvent // e.isBook = false }

/-- What the recorder does to its books and the bus. -/
inductive PublisherOp where
  | book (e : BookEvent)
  | markStale (tickers : Finset Ticker)
  | release (tickers : Finset Ticker)
  | refresh (ticker : Ticker) (receipt : Receipt)
  | announce (notice : Notice)
  | restart (epoch : Nat)

/-- The image of a book the publisher holds. -/
def refreshOf (ticker : Ticker) (receipt : Receipt) (book : Book) : BookRefresh :=
  { ticker, tsMs := book.lastTsMs, receipt, stale := book.stale,
    bids := book.levels .bid, asks := book.levels .ask }

/-- The books of the recorder, and what numbers its messages. -/
structure Publisher where
  books : Dict Ticker Book
  bus : SequencedPublisher

namespace Publisher

/-- A recorder that just started. -/
def new (epoch : Nat) : Publisher := ⟨∅, SequencedPublisher.new epoch⟩

/-- An event is published. -/
def publish (p : Publisher) (event : BusEvent) : Publisher × Option BusEnvelope :=
  let (bus, envelope) := p.bus.publish event
  ({ p with bus }, some envelope)

/-- One operation, and the message it publishes. -/
def perform (p : Publisher) : PublisherOp → Publisher × Option BusEnvelope
  | .book e =>
      match applyToBooks p.books e with
      | (books, true) => { p with books }.publish (.book e)
      | (books, false) => ({ p with books }, none)
  | .markStale tickers =>
      ({ p with books := p.books.mapValues fun t b => if t ∈ tickers then b.markStale else b },
        none)
  | .release tickers => ({ p with books := p.books.filter fun t _ => t ∉ tickers }, none)
  | .refresh ticker receipt =>
      match p.books.get? ticker with
      | none => (p, none)
      | some book => p.publish (.refresh (refreshOf ticker receipt book))
  | .announce notice => p.publish notice.val
  | .restart epoch => (new epoch, none)

/-- The publisher after its operations. -/
def after (p : Publisher) (ops : List PublisherOp) : Publisher :=
  Run.final (fun p o => (p.perform o).1) p ops

/-- The messages it attempted on the way. -/
def sent (p : Publisher) : List PublisherOp → List BusEnvelope
  | [] => []
  | o :: ops => (p.perform o).2.toList ++ sent (p.perform o).1 ops

theorem after_append (p : Publisher) (ops ops' : List PublisherOp) :
    p.after (ops ++ ops') = (p.after ops).after ops' :=
  Run.final_append p ops ops'

theorem sent_append (p : Publisher) (ops ops' : List PublisherOp) :
    p.sent (ops ++ ops') = p.sent ops ++ (p.after ops).sent ops' := by
  induction ops generalizing p with
  | nil => rfl
  | cons o ops ih =>
      rw [List.cons_append, sent, sent, ih, List.append_assoc]
      rfl

end Publisher

/-! ## What an operation does -/

section

variable {books : Dict Ticker Book} {e : BookEvent}

theorem bookFor_of_some (hi : ∀ t b, books.get? t = some b → b.Inv) {book : Book}
    (h : bookFor books e = some book) :
    book.Inv ∧ book.live = Book.liveOf books e.ticker := by
  cases e with
  | snapshot e =>
      obtain rfl := Option.some.inj h
      rw [Book.liveOf, BookEvent.ticker, Dict.getD]
      cases hget : books.get? e.ticker with
      | none => exact ⟨Book.inv_new e.ticker, rfl⟩
      | some b => exact ⟨hi e.ticker b hget, rfl⟩
  | delta e =>
      rw [bookFor] at h
      rw [Book.liveOf, BookEvent.ticker, h]
      exact ⟨hi e.ticker book h, rfl⟩

theorem bookFor_of_none (h : bookFor books e = none) :
    e.change.follow (Book.liveOf books e.ticker) = none := by
  cases e with
  | snapshot e => cases h
  | delta e =>
      rw [bookFor] at h
      rw [Book.liveOf, BookEvent.ticker, h]
      rfl

theorem applyToBooks_of_some {book : Book} (h : bookFor books e = some book) :
    (applyToBooks books e).1 = books.set e.ticker (e.perform book).1 ∧
      ((applyToBooks books e).2 = true ↔ (e.perform book).2 = .ok true) := by
  simp only [applyToBooks, h]
  rcases e.perform book with ⟨b, err | applied⟩
  · simp
  · simp

theorem applyToBooks_of_none (h : bookFor books e = none) :
    applyToBooks books e = (books, false) := by rw [applyToBooks, h]

theorem inv_applyToBooks (hi : ∀ t b, books.get? t = some b → b.Inv) :
    ∀ t b, (applyToBooks books e).1.get? t = some b → b.Inv := by
  cases h : bookFor books e with
  | none =>
      rw [applyToBooks_of_none h]
      exact hi
  | some book =>
      intro t b hget
      rw [(applyToBooks_of_some h).1, Dict.get?_set] at hget
      split at hget
      · obtain rfl := Option.some.inj hget
        exact e.inv_perform (bookFor_of_some hi h).1
      · exact hi t b hget

theorem keys_applyToBooks {t : Ticker} (ht : t ∈ books.keys) :
    t ∈ (applyToBooks books e).1.keys := by
  cases h : bookFor books e with
  | none =>
      rw [applyToBooks_of_none h]
      exact ht
  | some book =>
      rw [(applyToBooks_of_some h).1]
      exact Dict.mem_keys_set.mpr (.inr ht)

/-- A book event, seen from outside: its market follows it. -/
theorem liveOf_applyToBooks (hi : ∀ t b, books.get? t = some b → b.Inv) (t : Ticker) :
    Book.liveOf (applyToBooks books e).1 t =
      if e.ticker = t then e.change.follow (Book.liveOf books e.ticker)
      else Book.liveOf books t := by
  cases h : bookFor books e with
  | none =>
      rw [applyToBooks_of_none h, bookFor_of_none h]
      split
      · next ht =>
          -- An event with no book to go to is a delta.
          subst ht
          cases e with
          | snapshot e => cases h
          | delta e =>
              rw [bookFor] at h
              rw [Book.liveOf, BookEvent.ticker, h]
              rfl
      · rfl
  | some book =>
      obtain ⟨hb, hlive⟩ := bookFor_of_some hi h
      rw [Book.liveOf, (applyToBooks_of_some h).1, Dict.get?_set]
      split
      · rw [← hlive]
        exact e.live_perform hb
      · rfl

/-- It took effect when its market is known after it. -/
theorem applyToBooks_took_iff (hi : ∀ t b, books.get? t = some b → b.Inv) :
    (applyToBooks books e).2 = true ↔
      ∃ d, e.change.follow (Book.liveOf books e.ticker) = some d := by
  cases h : bookFor books e with
  | none =>
      rw [applyToBooks_of_none h, bookFor_of_none h]
      simp
  | some book =>
      obtain ⟨hb, hlive⟩ := bookFor_of_some hi h
      rw [(applyToBooks_of_some h).2, e.perform_ok_iff hb, hlive]

end

/-- The epoch an operation takes, if it is a restart. -/
def PublisherOp.epochs : PublisherOp → List Nat
  | .restart epoch => [epoch]
  | _ => []

/-- Some operation let the market go. -/
def Released (ops : List PublisherOp) (t : Ticker) : Prop :=
  ∃ tickers, .release tickers ∈ ops ∧ t ∈ tickers

end Tape
