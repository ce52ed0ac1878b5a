import Tape.Book.Event
import Tape.Book.Keyframe
import Tape.Recorder.Planner
import Tape.Run

/-!
# A tap on live books

`LiveBookTap` copies the fresh books of its markets as it opens and then keeps
every change it is told of, until it is closed. A window is what it saw of one
market. A window with a fault vouches for nothing; one without is meant to pass,
replayed from its copy, through every state the book held in between. Whether
it does depends on what the supervisor tells the tap, which is the business of
the next module.

A recording and a window carry what their fields owe each other: there is a
copy unless the fault is that there was no fresh book, and without a copy there
are no events. The source checks this of a window when it is built.
-/

namespace Tape

/-- An immutable copy of a book's levels, best first on each side. -/
structure BookImage where
  bids : List Level
  asks : List Level
  deriving DecidableEq, Repr

namespace BookImage

/-- What a book shows. -/
def of (b : Book) : BookImage := ⟨b.levels .bid, b.levels .ask⟩

/-- A fresh book holding exactly these levels. -/
def toBook (i : BookImage) (ticker : Ticker) : Except BookInvariantError Book :=
  match (Book.new ticker).applySnapshot i.bids i.asks none with
  | (_, .error e) => .error e
  | (book, .ok ()) => .ok book

end BookImage

/-- Why a window tells nothing. -/
inductive TapFault where
  | noBook
  | stale
  | overflow
  deriving DecidableEq, Repr

/-- What a tap saw of one market between opening and closing. -/
structure TapWindow where
  ticker : Ticker
  start : Option BookImage
  events : List BookEvent
  fault : Option TapFault
  absent : start = none ↔ fault = some .noBook
  silent : start = none → events = []

/-- A book of the supervisor: the object, which is told from one created later
for the same market, and its contents. -/
structure HeldBook where
  ref : Nat
  book : Book
  deriving DecidableEq

/-- One market's recording inside an open tap. -/
structure Recording where
  book : Option Nat
  start : Option BookImage
  events : List BookEvent
  fault : Option TapFault
  absent : start = none ↔ fault = some .noBook
  silent : start = none → events = []

namespace Recording

/-- `LiveBookTap._open`. -/
def opening (books : Dict Ticker HeldBook) (ticker : Ticker) : Recording :=
  match books.get? ticker with
  | none => ⟨none, none, [], some .noBook, by simp, fun _ => rfl⟩
  | some held =>
      if held.book.stale then ⟨none, none, [], some .noBook, by simp, fun _ => rfl⟩
      else ⟨some held.ref, some (BookImage.of held.book), [], none, by simp, fun _ => rfl⟩

/-- A fault, after which nothing more is recorded. -/
def withFault (r : Recording) (hnone : r.fault = none) (fault : TapFault)
    (hfault : fault ≠ .noBook) : Recording :=
  { r with
    fault := some fault
    absent := by
      rw [r.absent, hnone]
      simp [hfault] }

/-- One more change, if nothing is wrong yet. -/
def add (r : Recording) (hnone : r.fault = none) (change : BookEvent) : Recording :=
  { r with
    events := r.events ++ [change]
    silent := fun h => by
      rw [r.absent, hnone] at h
      cases h }

/-- `LiveBookTap.record`, for the recording of the change's market. -/
def record (r : Recording) (maxEvents : Int) (change : BookEvent) (wasStale : Bool) :
    Recording :=
  if hnone : r.fault = none then
    if wasStale then r.withFault hnone .stale (by simp)
    else if r.events.length ≥ maxEvents then r.withFault hnone .overflow (by simp)
    else r.add hnone change
  else r

/-- Whether the book is still the one copied, and fresh. -/
def vouched (r : Recording) (current : Option HeldBook) : Bool :=
  match current with
  | none => false
  | some held => r.book = some held.ref ∧ held.book.stale = false

/-- `LiveBookTap._finish`. -/
def finish (r : Recording) (books : Dict Ticker HeldBook) (ticker : Ticker) : TapWindow :=
  if h : r.fault = none ∧ r.vouched (books.get? ticker) = false then
    let faulted := r.withFault h.1 .stale (by simp)
    ⟨ticker, faulted.start, faulted.events, faulted.fault, faulted.absent, faulted.silent⟩
  else ⟨ticker, r.start, r.events, r.fault, r.absent, r.silent⟩

/-- A window without a fault is a recording without one, of a book that is the
same and fresh. -/
theorem finish_faultless {r : Recording} {books : Dict Ticker HeldBook} {ticker : Ticker}
    (h : (r.finish books ticker).fault = none) :
    r.fault = none ∧ (∃ held, books.get? ticker = some held ∧ held.book.stale = false) ∧
      (r.finish books ticker).start = r.start ∧ (r.finish books ticker).events = r.events := by
  rw [finish] at h ⊢
  split at h
  · cases h
  · next hkept =>
      rw [dif_neg hkept]
      refine ⟨h, ?_, rfl, rfl⟩
      cases hbook : books.get? ticker with
      | none => exact absurd ⟨h, by rw [hbook]; rfl⟩ hkept
      | some held =>
          refine ⟨held, rfl, ?_⟩
          cases hstale : held.book.stale with
          | false => rfl
          | true => exact absurd ⟨h, by rw [hbook, vouched, hstale]; simp⟩ hkept

@[simp] theorem finish_ticker (r : Recording) (books : Dict Ticker HeldBook) (ticker : Ticker) :
    (r.finish books ticker).ticker = ticker := by
  rw [finish]
  split <;> rfl

/-- What a recording that is still without a fault was before, and what it has
taken. -/
theorem record_faultless {r : Recording} {maxEvents : Int} {change : BookEvent}
    {wasStale : Bool} (h : (r.record maxEvents change wasStale).fault = none) :
    r.fault = none ∧ wasStale = false ∧
      (r.record maxEvents change wasStale).start = r.start ∧
      (r.record maxEvents change wasStale).events = r.events ++ [change] := by
  rw [record] at h ⊢
  split at h
  · next hnone =>
      rw [dif_pos hnone]
      cases wasStale with
      | true => cases h
      | false =>
          simp only [Bool.false_eq_true, if_false] at h ⊢
          split at h
          · cases h
          · next hroom =>
              rw [if_neg hroom]
              exact ⟨hnone, trivial, rfl, rfl⟩
  · next hfault => exact absurd h hfault

end Recording

/-- `ValueError` of a bound that is not positive. -/
structure MaxEventsError where
  detail : String
  deriving DecidableEq, Repr

/-- A supervisor's tap over some of its books. -/
structure LiveBookTap where
  tickers : Finset Ticker
  maxEvents : Int
  recordings : Dict Ticker Recording
  windows : Option (Dict Ticker TapWindow)
  positive : 0 < maxEvents

namespace LiveBookTap

/-- `LiveBookTap.__init__`. -/
def new (tickers : Finset Ticker) (books : Dict Ticker HeldBook) (maxEvents : Int) :
    Except MaxEventsError LiveBookTap :=
  if h : maxEvents ≤ 0 then
    .error ⟨s!"max_events must be positive, got {maxEvents}"⟩
  else
    .ok { tickers, maxEvents
          recordings := Dict.tabulate (sortedTickers tickers) (nodup_sortedTickers tickers)
            (Recording.opening books)
          windows := none
          positive := by omega }

/-- `LiveBookTap.record`. -/
def record (tap : LiveBookTap) (change : BookEvent) (wasStale : Bool) : LiveBookTap :=
  { tap with
    recordings := tap.recordings.mapValues fun ticker r =>
      if ticker = change.ticker then r.record tap.maxEvents change wasStale else r }

/-- `LiveBookTap.close`, up to `on_close`. -/
def close (tap : LiveBookTap) (books : Dict Ticker HeldBook) : LiveBookTap :=
  match tap.windows with
  | some _ => tap
  | none =>
      { tap with
        windows := some (tap.recordings.mapValues fun ticker r => r.finish books ticker)
        recordings := ∅ }

end LiveBookTap

/-! ## Replaying a window -/

/-- `_replay`: a change that does not apply raises. -/
def replayChange (b : Book) (change : BookEvent) : Except BookInvariantError Book :=
  match change.perform b with
  | (_, .error e) => .error e
  | (b, .ok _) => .ok b

/-- The states passed through so far, and the book. -/
def passThrough (passed : List BookImage × Book) (change : BookEvent) :
    Except BookInvariantError (List BookImage × Book) :=
  match replayChange passed.2 change with
  | .error e => .error e
  | .ok b => .ok (passed.1 ++ [BookImage.of b], b)

namespace TapWindow

/-- The level states a window passes through: its copy, and then one for each
of its events. -/
def states (w : TapWindow) : Except BookInvariantError (List BookImage) :=
  match w.start with
  | none => .ok []
  | some start =>
      match start.toBook w.ticker with
      | .error e => .error e
      | .ok b =>
          match w.events.foldlM passThrough ([BookImage.of b], b) with
          | .error e => .error e
          | .ok (passed, _) => .ok passed

end TapWindow

end Tape
