import Tape.Book.Keyframe
import Tape.Bus.Envelope
import Tape.Recorder.Planner

/-!
# A consumer's copies of the books

`LiveBooks` as the source has it: one envelope observed at a time, the numbers
followed, everything dropped at the first message, at a new epoch and at a
number that is not the next, and the event applied to the copy it is about.

What a consumer is told is the list of changes of each observation. Folding
them reproduces the statuses exactly, whatever the messages were
(`observe_changes`): each change starts from the status held and ends in
another one.
-/

namespace Tape

/-- What a follower knows of a market's book. -/
inductive BookStatus where
  | unknown
  | fresh
  | stale
  deriving DecidableEq, Repr

/-- Why a follower begins anew. -/
inductive ResetReason where
  | start
  | epoch
  | gap
  deriving DecidableEq, Repr

/-- A market's status before and after. -/
structure StatusChange where
  ticker : Ticker
  before : BookStatus
  after : BookStatus
  deriving DecidableEq, Repr

/-- What became of an envelope. -/
structure Observation where
  reset : Option ResetReason
  missed : Int
  applied : Bool
  changes : List StatusChange
  deriving DecidableEq, Repr

/-- What a follower counts. -/
structure LiveBooksStats where
  messages : Nat := 0
  resets : Nat := 0
  missed : Int := 0
  refreshes : Nat := 0
  ignored : Nat := 0
  bookErrors : Nat := 0
  deriving DecidableEq, Repr

/-- A follower's copies of the books, and its place in the sequence. -/
structure LiveBooks where
  books : Dict Ticker Book
  epoch : Option Nat
  lastSeq : Option Int
  stats : LiveBooksStats
  deriving DecidableEq

/-- The status of a copy, or of none. -/
def BookStatus.of : Option Book → BookStatus
  | none => .unknown
  | some b => if b.stale then .stale else .fresh

namespace LiveBooks

/-- A follower that heard nothing. -/
def new : LiveBooks := { books := ∅, epoch := none, lastSeq := none, stats := {} }

/-- The status of a market. -/
def status (l : LiveBooks) (ticker : Ticker) : BookStatus := .of (l.books.get? ticker)

/-- `_follow`: adopt the numbers, and say why the books must be reset and how
many messages are known to be lost. -/
def follow (l : LiveBooks) (envelope : BusEnvelope) : LiveBooks × Option ResetReason × Int :=
  let adopted := { l with epoch := some envelope.busEpoch, lastSeq := some envelope.busSeq }
  match l.epoch, l.lastSeq with
  | some previousEpoch, some previousSeq =>
      if envelope.busEpoch ≠ previousEpoch then
        (adopted, some .epoch, envelope.busSeq - firstBusSeq)
      else if envelope.busSeq ≠ previousSeq + 1 then
        (adopted, some .gap, max (envelope.busSeq - previousSeq - 1) 0)
      else (adopted, none, 0)
  | _, _ => (adopted, some .start, 0)

/-- An image was taken. -/
def countRefresh (l : LiveBooks) : LiveBooks :=
  { l with stats := { l.stats with refreshes := l.stats.refreshes + 1 } }

/-- An event was not applied. -/
def countIgnored (l : LiveBooks) : LiveBooks :=
  { l with stats := { l.stats with ignored := l.stats.ignored + 1 } }

/-- An event was refused by its book. -/
def countBookError (l : LiveBooks) : LiveBooks :=
  { l with stats := { l.stats with bookErrors := l.stats.bookErrors + 1 } }

/-- The copy of a market is replaced. -/
def setBook (l : LiveBooks) (ticker : Ticker) (book : Book) : LiveBooks :=
  { l with books := l.books.set ticker book }

/-- The copy of a market is let go. -/
def dropBook (l : LiveBooks) (ticker : Ticker) : LiveBooks :=
  { l with books := l.books.erase ticker }

/-- `_adopt`: an image no book can hold drops the copy. -/
def adopt (l : LiveBooks) (refresh : BookRefresh) : LiveBooks × Bool :=
  match (Book.new refresh.ticker).applySnapshot refresh.bids refresh.asks refresh.tsMs with
  | (_, .error _) => (l.countBookError.dropBook refresh.ticker, false)
  | (book, .ok ()) =>
      let book := if refresh.stale then book.markStale else book
      ((l.setBook refresh.ticker book).countRefresh, true)

/-- `_change`: a broken invariant drops the copy. -/
def change (l : LiveBooks) (event : BookEvent) : LiveBooks × Bool :=
  match l.books.get? event.ticker with
  | none => (l.countIgnored, false)
  | some book =>
      match event.perform book with
      | (_, .error _) => (l.countBookError.dropBook event.ticker, false)
      | (book, .ok true) => (l.setBook event.ticker book, true)
      | (book, .ok false) => ((l.setBook event.ticker book).countIgnored, false)

/-- The book event of a bus event, put to the copies. -/
def applyEvent (l : LiveBooks) : BusEvent → LiveBooks × Bool
  | .refresh refresh => l.adopt refresh
  | .book event => l.change event
  | _ => (l, false)

/-- The market whose copy an event may change. -/
def bookTicker : BusEvent → Option Ticker
  | .refresh refresh => some refresh.ticker
  | .book event => some event.ticker
  | _ => none

/-- `_apply`: the event, and the status change it makes. -/
def apply (l : LiveBooks) (event : BusEvent) : LiveBooks × Bool × List StatusChange :=
  match bookTicker event with
  | none => (l, false, [])
  | some ticker =>
      let (l', applied) := l.applyEvent event
      let before := l.status ticker
      let after := l'.status ticker
      (l', applied, if after ≠ before then [{ ticker, before, after }] else [])

/-- The changes of a reset, in ticker order. -/
def resetChanges (l : LiveBooks) : List StatusChange :=
  (sortedTickers l.books.keys.toFinset).map fun ticker =>
    { ticker, before := l.status ticker, after := .unknown }

/-- An envelope was heard. -/
def countMessage (l : LiveBooks) : LiveBooks :=
  { l with stats := { l.stats with messages := l.stats.messages + 1 } }

/-- Every copy dropped, and the losses counted. -/
def forgetBooks (l : LiveBooks) (missed : Int) : LiveBooks :=
  { l with
    books := ∅
    stats := { l.stats with
      resets := l.stats.resets + 1
      missed := l.stats.missed + missed } }

/-- An envelope is followed, and applied to the copies. -/
def observe (l : LiveBooks) (envelope : BusEnvelope) : LiveBooks × Observation :=
  match l.countMessage.follow envelope with
  | (l, none, missed) =>
      let (l', applied, changes) := l.apply envelope.event
      (l', { reset := none, missed, applied, changes })
  | (l, some reason, missed) =>
      let (l', applied, changes) := (l.forgetBooks missed).apply envelope.event
      (l', { reset := some reason, missed, applied, changes := l.resetChanges ++ changes })

/-- Every observation of a list of messages, and what is held after them. -/
def observeAll (l : LiveBooks) : List BusEnvelope → LiveBooks × List Observation
  | [] => (l, [])
  | envelope :: rest =>
      let (l, observation) := l.observe envelope
      let (l, observations) := observeAll l rest
      (l, observation :: observations)

/-! ## The changes reported -/

end LiveBooks

/-- A change, for who keeps only the statuses: it starts from the status held
and ends in another one, or it is none. -/
def StatusChange.apply (c : StatusChange) (held : Ticker → BookStatus) :
    Option (Ticker → BookStatus) :=
  if c.before = held c.ticker ∧ c.before ≠ c.after then
    some (Function.update held c.ticker c.after)
  else none

/-- What some changes make of statuses, if each starts from the one before
it. -/
def foldChanges (held : Ticker → BookStatus) : List StatusChange → Option (Ticker → BookStatus)
  | [] => some held
  | c :: rest => (c.apply held).bind fun held => foldChanges held rest

theorem foldChanges_append (held : Ticker → BookStatus) (cs cs' : List StatusChange) :
    foldChanges held (cs ++ cs') = (foldChanges held cs).bind fun held => foldChanges held cs' := by
  induction cs generalizing held with
  | nil => rfl
  | cons c cs ih =>
      rw [List.cons_append, foldChanges, foldChanges, Option.bind_assoc]
      congr 1
      funext held
      exact ih held

/-- Declaring markets unknown, one after the other. -/
theorem foldChanges_unknown {tickers : List Ticker} (hn : tickers.Nodup)
    {held before : Ticker → BookStatus} (hb : ∀ t ∈ tickers, before t = held t)
    (hk : ∀ t ∈ tickers, held t ≠ .unknown) :
    foldChanges held (tickers.map fun t => ⟨t, before t, .unknown⟩) =
      some fun t => if t ∈ tickers then .unknown else held t := by
  induction tickers generalizing held with
  | nil => simp [foldChanges]
  | cons t ts ih =>
      obtain ⟨ht, hn⟩ := List.nodup_cons.mp hn
      have hne : ∀ u ∈ ts, Function.update held t .unknown u = held u := by
        intro u hu
        have hut : u ≠ t := by
          rintro rfl
          exact ht hu
        exact Function.update_of_ne hut _ _
      rw [List.map_cons, foldChanges, StatusChange.apply, if_pos, Option.bind_some, ih hn]
      · congr 1
        funext u
        by_cases hu : u = t
        · subst hu
          simp
        · simp [hu]
      · intro u hu
        rw [hne u hu]
        exact hb u (List.mem_cons_of_mem t hu)
      · intro u hu
        rw [hne u hu]
        exact hk u (List.mem_cons_of_mem t hu)
      · refine ⟨hb t List.mem_cons_self, ?_⟩
        rw [hb t List.mem_cons_self]
        exact hk t List.mem_cons_self

namespace LiveBooks

variable (l : LiveBooks)

theorem status_eq_unknown_iff {t : Ticker} : l.status t = .unknown ↔ l.books.get? t = none := by
  rw [status]
  cases l.books.get? t with
  | none => simp [BookStatus.of]
  | some b => cases h : b.stale <;> simp [BookStatus.of, h]

theorem status_eq_stale_iff {t : Ticker} :
    l.status t = .stale ↔ ∃ c, l.books.get? t = some c ∧ c.stale = true := by
  rw [status]
  cases l.books.get? t with
  | none => simp [BookStatus.of]
  | some b => cases h : b.stale <;> simp [BookStatus.of, h]

/-- An event changes the copy of its own market only. -/
theorem applyEvent_books_of_ne {event : BusEvent} {t : Ticker}
    (h : bookTicker event ≠ some t) :
    (l.applyEvent event).1.books.get? t = l.books.get? t := by
  cases event with
  | refresh r =>
      have hne : r.ticker ≠ t := fun he => h (congrArg some he)
      rw [applyEvent, adopt]
      split
      · exact (Dict.get?_erase _ _ _).trans (if_neg hne)
      · exact (Dict.get?_set _ _ _ _).trans (if_neg hne)
  | book e =>
      have hne : e.ticker ≠ t := fun he => h (congrArg some he)
      rw [applyEvent, change]
      split
      · rfl
      · split
        · exact (Dict.get?_erase _ _ _).trans (if_neg hne)
        · exact (Dict.get?_set _ _ _ _).trans (if_neg hne)
        · exact (Dict.get?_set _ _ _ _).trans (if_neg hne)
  | _ => rfl

/-- A copy that survives a book event follows it. -/
theorem change_copy {event : BookEvent} {c' : Book}
    (hi : ∀ t c, l.books.get? t = some c → c.Inv)
    (h : (l.change event).1.books.get? event.ticker = some c') :
    ∃ c, l.books.get? event.ticker = some c ∧ c'.Inv ∧
      c'.live = event.change.follow c.live := by
  rw [change] at h
  cases hc : l.books.get? event.ticker with
  | none =>
      rw [hc] at h
      exact absurd (hc.symm.trans h) nofun
  | some c =>
      have hinv := hi event.ticker c hc
      have hperformed : c' = (event.perform c).1 := by
        rw [hc] at h
        rcases hp : event.perform c with ⟨b, err | applied⟩
        · simp only [hp] at h
          exact absurd ((Dict.get?_erase_self _ _).symm.trans h) nofun
        · cases applied <;> simp only [hp] at h <;>
            exact (Option.some.inj ((Dict.get?_set_self _ _ _).symm.trans h)).symm
      refine ⟨c, rfl, ?_, ?_⟩
      · rw [hperformed]
        exact event.inv_perform hinv
      · rw [hperformed]
        exact event.live_perform hinv

/-- A copy that survives a refresh is its image. -/
theorem adopt_copy {refresh : BookRefresh} {c' : Book}
    (h : (l.adopt refresh).1.books.get? refresh.ticker = some c') :
    c'.Inv ∧ c'.live =
      if refresh.stale then none else some (Depth.ofLevels refresh.bids refresh.asks) := by
  have hi := (Book.inv_new refresh.ticker).applySnapshot refresh.bids refresh.asks refresh.tsMs
  have hok : ((Book.new refresh.ticker).applySnapshot refresh.bids refresh.asks
      refresh.tsMs).2 = .ok () ↔ Book.ValidImage refresh.bids refresh.asks :=
    Book.applySnapshot_ok_iff (Book.new refresh.ticker) refresh.tsMs
  rw [adopt] at h
  rcases ha : (Book.new refresh.ticker).applySnapshot refresh.bids refresh.asks refresh.tsMs
    with ⟨b, err | ⟨⟩⟩
  · simp only [ha] at h
    exact absurd ((Dict.get?_erase_self _ _).symm.trans h) (by rintro ⟨⟩)
  · simp only [ha] at h
    obtain rfl := Option.some.inj ((Dict.get?_set_self _ _ _).symm.trans h)
    rw [ha] at hi hok
    obtain ⟨-, hfresh, hdepth, -⟩ := Book.applySnapshot_of_valid (Book.new refresh.ticker)
      refresh.tsMs (hok.mp rfl)
    rw [ha] at hfresh hdepth
    cases hs : refresh.stale with
    | true => exact ⟨hi.markStale, rfl⟩
    | false =>
        refine ⟨hi, ?_⟩
        change b.live = some _
        rw [Book.live_of_fresh hfresh, hdepth]

/-- The change an event reports leads from the statuses before to those after. -/
theorem foldChanges_apply (event : BusEvent) :
    foldChanges l.status (l.apply event).2.2 = some (l.apply event).1.status := by
  rw [apply]
  cases ht : bookTicker event with
  | none => rfl
  | some t =>
      have hother : ∀ u, u ≠ t → (l.applyEvent event).1.status u = l.status u := by
        intro u hu
        rw [status, status, applyEvent_books_of_ne]
        rw [ht]
        exact fun h => hu (Option.some.inj h).symm
      by_cases hs : (l.applyEvent event).1.status t = l.status t
      · simp only [ne_eq, hs, not_true_eq_false, if_false, foldChanges]
        congr 1
        funext u
        by_cases hu : u = t
        · rw [hu, hs]
        · exact (hother u hu).symm
      · simp only [ne_eq, hs, not_false_eq_true, if_true, foldChanges, StatusChange.apply]
        rw [if_pos ⟨trivial, fun h => hs h.symm⟩]
        change some _ = some _
        congr 1
        funext u
        by_cases hu : u = t
        · rw [hu, Function.update_self]
        · rw [Function.update_of_ne hu, hother u hu]

theorem mem_resetTickers {t : Ticker} :
    t ∈ sortedTickers l.books.keys.toFinset ↔ l.status t ≠ .unknown := by
  rw [mem_sortedTickers, List.mem_toFinset, Ne, status_eq_unknown_iff, Dict.get?_eq_none_iff,
    not_not]

theorem foldChanges_reset : foldChanges l.status l.resetChanges = some fun _ => .unknown := by
  rw [resetChanges, foldChanges_unknown (nodup_sortedTickers _) (fun _ _ => rfl)
    (fun t ht => l.mem_resetTickers.mp ht)]
  congr 1
  funext t
  by_cases ht : t ∈ sortedTickers l.books.keys.toFinset
  · rw [if_pos ht]
  · rw [if_neg ht]
    exact not_not.mp (fun h => ht (l.mem_resetTickers.mpr h))

@[simp] theorem follow_books (envelope : BusEnvelope) : (l.follow envelope).1.books = l.books := by
  rw [follow]
  split
  · split
    · rfl
    · split <;> rfl
  · rfl

/-- Folding the changes of an observation leads to the statuses after it. -/
theorem observe_changes (envelope : BusEnvelope) :
    foldChanges l.status (l.observe envelope).2.changes = some (l.observe envelope).1.status := by
  have hfollow : (l.countMessage.follow envelope).1.status = l.status := by
    funext t
    rw [status, status, follow_books]
    rfl
  rw [observe]
  rcases h : l.countMessage.follow envelope with ⟨followed, none | reason, missed⟩
  · rw [h] at hfollow
    rw [← hfollow]
    exact followed.foldChanges_apply envelope.event
  · rw [h] at hfollow
    rw [← hfollow]
    change foldChanges followed.status (followed.resetChanges ++ _) = _
    rw [foldChanges_append, foldChanges_reset]
    exact (followed.forgetBooks missed).foldChanges_apply envelope.event

/-- A message that follows the last one observed. -/
def Follows (envelope : BusEnvelope) : Prop :=
  l.epoch = some envelope.busEpoch ∧ l.lastSeq = some (envelope.busSeq - 1)

theorem apply_fst (event : BusEvent) : (l.apply event).1 = (l.applyEvent event).1 := by
  cases event <;> rfl

/-- An event leaves the numbers alone. -/
theorem applyEvent_numbers (event : BusEvent) :
    (l.applyEvent event).1.epoch = l.epoch ∧ (l.applyEvent event).1.lastSeq = l.lastSeq := by
  cases event with
  | refresh r =>
      rw [applyEvent, adopt]
      split <;> exact ⟨rfl, rfl⟩
  | book e =>
      rw [applyEvent, change]
      split
      · exact ⟨rfl, rfl⟩
      · split <;> exact ⟨rfl, rfl⟩
  | _ => exact ⟨rfl, rfl⟩

theorem follow_spec (envelope : BusEnvelope) :
    (l.follow envelope).1 =
        { l with epoch := some envelope.busEpoch, lastSeq := some envelope.busSeq } ∧
      ((l.follow envelope).2.1 = none ↔ l.Follows envelope) := by
  rw [follow, Follows]
  split
  · next previousEpoch previousSeq he hs =>
      rw [he, hs]
      split
      · next hne => exact ⟨rfl, iff_of_false nofun fun h => hne (Option.some.inj h.1).symm⟩
      · next heq =>
          rw [not_not] at heq
          split
          · next hne =>
              refine ⟨rfl, iff_of_false nofun fun h => hne ?_⟩
              have := Option.some.inj h.2
              omega
          · next hseq =>
              refine ⟨rfl, iff_of_true rfl ⟨congrArg some heq.symm, congrArg some ?_⟩⟩
              omega
  · next hnot =>
      refine ⟨rfl, iff_of_false nofun ?_⟩
      intro h
      exact hnot _ _ h.1 h.2

/-- A message that follows the last one goes to the copies held, any other one
to none. -/
theorem observe_spec (envelope : BusEnvelope) :
    (l.observe envelope).1.epoch = some envelope.busEpoch ∧
      (l.observe envelope).1.lastSeq = some envelope.busSeq ∧
      ∃ base : LiveBooks,
        (l.observe envelope).1.books = (base.applyEvent envelope.event).1.books ∧
        (l.Follows envelope ∧ base.books = l.books ∨
          ¬ l.Follows envelope ∧ base.books = ∅) := by
  obtain ⟨hadopted, hreset⟩ := l.countMessage.follow_spec envelope
  rw [observe]
  rcases h : l.countMessage.follow envelope with ⟨followed, none | reason, missed⟩
  · rw [h] at hadopted hreset
    obtain rfl : followed = _ := hadopted
    change ((apply _ envelope.event).1.epoch = _ ∧ (apply _ envelope.event).1.lastSeq = _ ∧
      ∃ base : LiveBooks, (apply _ envelope.event).1.books = _ ∧ _)
    rw [apply_fst]
    obtain ⟨he, hs⟩ := applyEvent_numbers { l.countMessage with
      epoch := some envelope.busEpoch, lastSeq := some envelope.busSeq } envelope.event
    exact ⟨he, hs, _, rfl, .inl ⟨hreset.mp rfl, rfl⟩⟩
  · rw [h] at hadopted hreset
    obtain rfl : followed = _ := hadopted
    change ((apply _ envelope.event).1.epoch = _ ∧ (apply _ envelope.event).1.lastSeq = _ ∧
      ∃ base : LiveBooks, (apply _ envelope.event).1.books = _ ∧ _)
    rw [apply_fst]
    obtain ⟨he, hs⟩ := applyEvent_numbers (forgetBooks { l.countMessage with
      epoch := some envelope.busEpoch, lastSeq := some envelope.busSeq } missed) envelope.event
    exact ⟨he, hs, _, rfl, .inr ⟨fun hf => absurd (hreset.mpr hf) nofun, rfl⟩⟩

/-- Every copy that is held after a message is in order, if those before it were. -/
theorem inv_observe (hi : ∀ t c, l.books.get? t = some c → c.Inv) (envelope : BusEnvelope) :
    ∀ t c, (l.observe envelope).1.books.get? t = some c → c.Inv := by
  obtain ⟨-, -, base, hbooks, hbase⟩ := l.observe_spec envelope
  rw [hbooks]
  have hi' : ∀ t c, base.books.get? t = some c → c.Inv := by
    rcases hbase with ⟨-, hsame⟩ | ⟨-, hempty⟩
    · rw [hsame]
      exact hi
    · rw [hempty]
      exact nofun
  intro t c hc
  by_cases ht : bookTicker envelope.event = some t
  · cases hevent : envelope.event with
    | refresh r =>
        rw [hevent] at ht hc
        obtain rfl : r.ticker = t := Option.some.inj ht
        exact (base.adopt_copy hc).1
    | book e =>
        rw [hevent] at ht hc
        obtain rfl : e.ticker = t := Option.some.inj ht
        obtain ⟨-, -, hinv, -⟩ := base.change_copy hi' hc
        exact hinv
    | _ =>
        rw [hevent] at ht
        cases ht
  · rw [base.applyEvent_books_of_ne ht] at hc
    exact hi' t c hc

theorem observeAll_snoc (envelopes : List BusEnvelope) (envelope : BusEnvelope) :
    (l.observeAll (envelopes ++ [envelope])).1 =
      ((l.observeAll envelopes).1.observe envelope).1 := by
  induction envelopes generalizing l with
  | nil => rfl
  | cons first rest ih => exact ih (l.observe first).1

/-- Folding the changes of all observations reproduces the statuses. -/
theorem observeAll_changes (envelopes : List BusEnvelope) :
    foldChanges l.status ((l.observeAll envelopes).2.flatMap Observation.changes) =
      some (l.observeAll envelopes).1.status := by
  induction envelopes generalizing l with
  | nil => rfl
  | cons envelope rest ih =>
      change foldChanges l.status ((l.observe envelope).2.changes ++
        ((l.observe envelope).1.observeAll rest).2.flatMap Observation.changes) = _
      rw [foldChanges_append, observe_changes]
      exact ih (l.observe envelope).1

end LiveBooks

end Tape
