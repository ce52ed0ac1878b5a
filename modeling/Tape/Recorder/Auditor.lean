import Tape.Book.Diff
import Tape.Nearest
import Tape.Recorder.Tap

/-!
# Classifying a REST book against a window

`classify_window` replays a window once. Up to the reply it notes the last
state that equals the REST book; after the reply it looks for the first one,
no further than a match could be nearer than the one noted. Seen from the list
of the window's states these are the two passes of `Nearest.search`, so the
verdict is the match nearest the reply whatever states the window repeats.

Two books are only compared level by level once their level counts and their
checksums agree. Both are necessary, so neither changes the answer.
-/

namespace Tape

/-- How a REST snapshot relates to the local states in its window. -/
inductive AuditOutcome where
  | exact
  | consistent
  | inconsistent
  | undecidable
  deriving DecidableEq, Repr

/-- What an audit of a window comes to. -/
structure WindowVerdict where
  outcome : AuditOutcome
  matchIndex : Option Nat
  replyState : Option BookImage
  deriving DecidableEq, Repr

/-- What `classify_window` raises. -/
inductive ClassifyError where
  | market (error : MarketMismatch)
  | invariant (error : BookInvariantError)
  deriving DecidableEq, Repr

/-- `_received_by`. -/
def receivedBy (replyMonoNs : Int) : List BookEvent → Nat
  | [] => 0
  | event :: events =>
      if event.receipt.recvMonoNs > replyMonoNs then 0 else receivedBy replyMonoNs events + 1

namespace Classifier

/-- `_same_levels`: `diff` has the final word. -/
def sameLevels (restBook : Book) (restChecksum : Int) (checksum : Book → Int) (ours : Book) :
    Except ClassifyError Bool :=
  if ours.levelCount .bid ≠ restBook.levelCount .bid then .ok false
  else if ours.levelCount .ask ≠ restBook.levelCount .ask then .ok false
  else if checksum ours ≠ restChecksum then .ok false
  else
    match restBook.diff ours with
    | .error e => .error (.market e)
    | .ok d => .ok d.isEmpty

variable (same : Book → Except ClassifyError Bool)

/-- The states up to the reply: the book there, and the last index that
matched. -/
def upToReply (book : Book) (index : Nat) (nearest : Option Nat) :
    List BookEvent → Except ClassifyError (Book × Option Nat)
  | [] =>
      match same book with
      | .error e => .error e
      | .ok hit => .ok (book, if hit then some index else nearest)
  | event :: events =>
      match same book with
      | .error e => .error e
      | .ok hit =>
          match replayChange book event with
          | .error e => .error (.invariant e)
          | .ok book => upToReply book (index + 1) (if hit then some index else nearest) events

/-- The states after the reply: the first index that matches. -/
def afterReply (book : Book) (index : Nat) : List BookEvent → Except ClassifyError (Option Nat)
  | [] => .ok none
  | event :: events =>
      match replayChange book event with
      | .error e => .error (.invariant e)
      | .ok book =>
          match same book with
          | .error e => .error e
          | .ok hit => if hit then .ok (some index) else afterReply book (index + 1) events

end Classifier

open Classifier in
/-- A fault decides nothing; else the book asked for is looked for among the
states of the window. -/
def classifyWindow (window : TapWindow) (restBook : Book) (replyMonoNs : Int)
    (checksum : Book → Int) : Except ClassifyError WindowVerdict :=
  if restBook.ticker ≠ window.ticker then
    .error (.market ⟨restBook.ticker, window.ticker⟩)
  else
    match window.fault, window.start with
    | some _, _ => .ok ⟨.undecidable, none, none⟩
    | none, none => .ok ⟨.undecidable, none, none⟩
    | none, some start =>
        let events := window.events
        let replyIndex := receivedBy replyMonoNs events
        let same := sameLevels restBook (checksum restBook) checksum
        match start.toBook window.ticker with
        | .error e => .error (.invariant e)
        | .ok book =>
            match upToReply same book 0 none (events.take replyIndex) with
            | .error e => .error e
            | .ok (book, nearest) =>
                let replyState := BookImage.of book
                if nearest = some replyIndex then .ok ⟨.exact, nearest, some replyState⟩
                else
                  -- a tie goes to the earlier state, so only strictly nearer ones count
                  let last := Nearest.reach replyIndex events.length nearest
                  match afterReply same book (replyIndex + 1)
                      ((events.drop replyIndex).take (last - replyIndex)) with
                  | .error e => .error e
                  | .ok (some index) => .ok ⟨.consistent, some index, some replyState⟩
                  | .ok none =>
                      match nearest with
                      | none => .ok ⟨.inconsistent, none, some replyState⟩
                      | some n => .ok ⟨.consistent, some n, some replyState⟩

theorem receivedBy_eq (replyMonoNs : Int) (events : List BookEvent) :
    receivedBy replyMonoNs events =
      (events.takeWhile fun event => event.receipt.recvMonoNs ≤ replyMonoNs).length := by
  induction events with
  | nil => rfl
  | cons event events ih =>
      rw [receivedBy, List.takeWhile_cons]
      by_cases hlate : event.receipt.recvMonoNs > replyMonoNs
      · rw [if_pos hlate, if_neg (by simpa using hlate)]
        rfl
      · rw [if_neg hlate, if_pos (by simpa using hlate), List.length_cons, ih]

theorem receivedBy_le (replyMonoNs : Int) (events : List BookEvent) :
    receivedBy replyMonoNs events ≤ events.length := by
  rw [receivedBy_eq]
  exact List.takeWhile_prefix _ |>.length_le

/-! ## The books of a window -/

/-- The book, and then the book after each of the events. -/
def booksFrom (book : Book) : List BookEvent → Except BookInvariantError (List Book)
  | [] => .ok [book]
  | event :: events =>
      match replayChange book event with
      | .error e => .error e
      | .ok next =>
          match booksFrom next events with
          | .error e => .error e
          | .ok books => .ok (book :: books)

theorem booksFrom_cons {book : Book} {event : BookEvent} {events : List BookEvent}
    {books : List Book} :
    booksFrom book (event :: events) = .ok books ↔
      ∃ next rest, replayChange book event = .ok next ∧ booksFrom next events = .ok rest ∧
        books = book :: rest := by
  rw [booksFrom]
  constructor
  · intro h
    split at h
    · cases h
    · next next hreplay =>
        split at h
        · cases h
        · next rest hrest =>
            cases h
            exact ⟨next, rest, hreplay, hrest, rfl⟩
  · rintro ⟨next, rest, hreplay, hrest, rfl⟩
    rw [hreplay]
    dsimp only
    rw [hrest]

/-- A window that replays has its images from these books. -/
theorem booksFrom_of_passThrough {book last : Book} {passed images : List BookImage}
    {events : List BookEvent}
    (h : events.foldlM passThrough (passed ++ [BookImage.of book], book) = .ok (images, last)) :
    ∃ books, booksFrom book events = .ok books ∧ images = passed ++ books.map BookImage.of := by
  induction events generalizing book passed with
  | nil =>
      obtain ⟨rfl, -⟩ := Prod.mk.inj (Except.ok.inj h)
      exact ⟨[book], rfl, rfl⟩
  | cons event events ih =>
      rw [List.foldlM_cons, passThrough] at h
      cases hreplay : replayChange book event with
      | error e =>
          rw [hreplay] at h
          cases h
      | ok next =>
          rw [hreplay] at h
          obtain ⟨books, hbooks, himages⟩ := ih h
          refine ⟨book :: books, booksFrom_cons.mpr ⟨next, books, hreplay, hbooks, rfl⟩, ?_⟩
          rw [himages, List.map_cons, List.append_assoc]
          rfl

theorem booksFrom_length {book : Book} {events : List BookEvent} {books : List Book}
    (h : booksFrom book events = .ok books) : books.length = events.length + 1 := by
  induction events generalizing book books with
  | nil =>
      cases h
      rfl
  | cons event events ih =>
      obtain ⟨next, rest, -, hrest, rfl⟩ := booksFrom_cons.mp h
      rw [List.length_cons, ih hrest, List.length_cons]

theorem booksFrom_zero {book : Book} {events : List BookEvent} {books : List Book}
    (h : booksFrom book events = .ok books) : books[0]? = some book := by
  cases events with
  | nil =>
      cases h
      rfl
  | cons event events =>
      obtain ⟨next, rest, -, -, rfl⟩ := booksFrom_cons.mp h
      rfl

/-- The books from a later one on are those of the events from there on. -/
theorem booksFrom_drop {book : Book} {events : List BookEvent} {books : List Book}
    (h : booksFrom book events = .ok books) {n : Nat} {b : Book} (hb : books[n]? = some b) :
    booksFrom b (events.drop n) = .ok (books.drop n) := by
  induction n generalizing book events books with
  | zero =>
      rw [booksFrom_zero h] at hb
      cases hb
      exact h
  | succ n ih =>
      cases events with
      | nil =>
          cases h
          cases hb
      | cons event events =>
          obtain ⟨next, rest, -, hrest, rfl⟩ := booksFrom_cons.mp h
          exact ih hrest hb

/-- What every book of a window of one market is. -/
structure Rebuilt (ticker : Ticker) (b : Book) : Prop where
  inv : b.Inv
  ticker : b.ticker = ticker

theorem rebuilt_toBook {image : BookImage} {ticker : Ticker} {b : Book}
    (h : image.toBook ticker = .ok b) : Rebuilt ticker b := by
  rw [BookImage.toBook] at h
  rcases (Book.new ticker).applySnapshot_cases image.bids image.asks none with
    ⟨b', heq, hinv, -, hticker, -⟩ | ⟨e, heq⟩
  · rw [heq] at h
    cases h
    exact ⟨hinv, hticker⟩
  · rw [heq] at h
    cases h

theorem Rebuilt.replayChange {ticker : Ticker} {b next : Book} {event : BookEvent}
    (hb : Rebuilt ticker b) (h : Tape.replayChange b event = .ok next) : Rebuilt ticker next := by
  rw [Tape.replayChange] at h
  have hinv := event.inv_perform hb.inv
  have hticker := event.ticker_perform b
  split at h
  · cases h
  · next b' heq =>
      cases h
      rw [heq] at hinv hticker
      exact ⟨hinv, hticker.trans hb.ticker⟩

theorem Rebuilt.booksFrom {ticker : Ticker} {b : Book} {events : List BookEvent}
    {books : List Book} (hb : Rebuilt ticker b) (h : Tape.booksFrom b events = .ok books) :
    ∀ book ∈ books, Rebuilt ticker book := by
  induction events generalizing b books with
  | nil =>
      cases h
      intro book hmem
      obtain rfl := List.mem_singleton.mp hmem
      exact hb
  | cons event events ih =>
      obtain ⟨next, rest, hreplay, hrest, rfl⟩ := booksFrom_cons.mp h
      intro book hmem
      rcases List.mem_cons.mp hmem with rfl | hmem
      · exact hb
      · exact ih (hb.replayChange hreplay) hrest book hmem

theorem BookImage.of_eq_iff {a b : Book} (ha : a.Inv) (hb : b.Inv) :
    BookImage.of a = BookImage.of b ↔ a.depth = b.depth := by
  rw [← ha.levels_eq_iff hb]
  constructor
  · intro h s
    obtain ⟨hbids, hasks⟩ := BookImage.mk.inj h
    cases s with
    | bid => exact hbids
    | ask => exact hasks
  · intro h
    rw [BookImage.of, BookImage.of, h .bid, h .ask]

/-! ## The two passes -/

namespace Classifier

variable {same : Book → Except ClassifyError Bool} {p : Nat → Bool}

/-- The first loop is the first pass. -/
theorem upToReply_eq {book : Book} {events : List BookEvent} {books : List Book} {index n : Nat}
    {nearest : Option Nat} (h : booksFrom book events = .ok books) (hn : n ≤ events.length)
    (hsame : ∀ j b, books[j]? = some b → same b = .ok (p (index + j))) :
    ∃ b, books[n]? = some b ∧
      upToReply same book index nearest (events.take n) =
        .ok (b, Nearest.lastFrom p index (n + 1) nearest) := by
  induction events generalizing book books index nearest n with
  | nil =>
      cases h
      obtain rfl : n = 0 := by simpa using hn
      refine ⟨book, rfl, ?_⟩
      rw [List.take_nil, upToReply, hsame 0 book rfl]
      rfl
  | cons event events ih =>
      have hfirst := hsame 0 book (booksFrom_zero h)
      cases n with
      | zero =>
          refine ⟨book, booksFrom_zero h, ?_⟩
          rw [List.take_zero, upToReply, hfirst]
          rfl
      | succ n =>
          obtain ⟨next, rest, hreplay, hbooks, rfl⟩ := booksFrom_cons.mp h
          have hrest : ∀ j b, rest[j]? = some b → same b = .ok (p (index + 1 + j)) := by
            intro j b hj
            rw [hsame (j + 1) b hj]
            congr 2
            omega
          obtain ⟨b, hb, heq⟩ := ih hbooks (by simpa using hn) hrest
          refine ⟨b, hb, ?_⟩
          rw [List.take_succ_cons, upToReply, hfirst]
          dsimp only
          rw [hreplay]
          exact heq

/-- The second loop is the second pass. -/
theorem afterReply_eq {book : Book} {events : List BookEvent} {books : List Book} {index n : Nat}
    (h : booksFrom book events = .ok books) (hn : n ≤ events.length)
    (hsame : ∀ j b, books[j + 1]? = some b → same b = .ok (p (index + j))) :
    afterReply same book index (events.take n) = .ok (Nearest.firstFrom p index n) := by
  induction events generalizing book books index n with
  | nil =>
      obtain rfl : n = 0 := by simpa using hn
      rfl
  | cons event events ih =>
      cases n with
      | zero => rfl
      | succ n =>
          obtain ⟨next, rest, hreplay, hbooks, rfl⟩ := booksFrom_cons.mp h
          have hfirst := hsame 0 next (booksFrom_zero hbooks)
          have hrest : ∀ j b, rest[j + 1]? = some b →
              same b = .ok (p (index + 1 + j)) := by
            intro j b hj
            rw [hsame (j + 1) b hj]
            congr 2
            omega
          rw [List.take_succ_cons, afterReply, hreplay]
          dsimp only
          rw [hfirst, Nearest.firstFrom]
          dsimp only
          rw [Nat.add_zero]
          split
          · rfl
          · exact ih hbooks (by simpa using hn) hrest

/-- Neither the level counts nor the checksums decide anything: the comparison
is of the images. -/
theorem sameLevels_eq {ours restBook : Book} {checksum : Book → Int} {ticker : Ticker}
    (hours : Rebuilt ticker ours) (hrest : Rebuilt ticker restBook)
    (hchecksum : ∀ a b : Book, (∀ s, a.levels s = b.levels s) → checksum a = checksum b) :
    sameLevels restBook (checksum restBook) checksum ours =
      .ok (BookImage.of ours = BookImage.of restBook) := by
  obtain ⟨d, hdiff, hempty⟩ := Book.diff_isEmpty (hrest.ticker.trans hours.ticker.symm)
  have himage := BookImage.of_eq_iff hours.inv hrest.inv
  rw [sameLevels]
  by_cases hsame : ours.depth = restBook.depth
  · have hcount := Book.levelCount_of_depth hours.inv hrest.inv hsame
    have hsum := hchecksum ours restBook ((hours.inv.levels_eq_iff hrest.inv).mpr hsame)
    rw [if_neg (not_not.mpr (hcount .bid)), if_neg (not_not.mpr (hcount .ask)),
      if_neg (not_not.mpr hsum), hdiff]
    dsimp only
    rw [hempty.mpr hsame.symm, decide_eq_true (himage.mpr hsame)]
  · have hdiffers : d.isEmpty = false := by
      rw [Bool.eq_false_iff]
      exact fun h => hsame (hempty.mp h).symm
    rw [decide_eq_false fun h => hsame (himage.mp h), hdiff]
    dsimp only
    rw [hdiffers]
    split
    · rfl
    · split
      · rfl
      · split <;> rfl

end Classifier

/-! ## The verdict -/

/-- The states of the window that equal the REST book, by their indices. -/
def TapWindow.matchesAt (images : List BookImage) (restBook : Book) (i : Nat) : Bool :=
  images[i]? = some (BookImage.of restBook)

theorem TapWindow.books_of_states {window : TapWindow} {images : List BookImage}
    (hfault : window.fault = none) (hstates : window.states = .ok images) :
    ∃ start b books, window.start = some start ∧ start.toBook window.ticker = .ok b ∧
      booksFrom b window.events = .ok books ∧ images = books.map BookImage.of := by
  rw [TapWindow.states] at hstates
  cases hstart : window.start with
  | none =>
      have hnoBook := window.absent.mp hstart
      rw [hfault] at hnoBook
      cases hnoBook
  | some start =>
      rw [hstart] at hstates
      dsimp only at hstates
      cases hbook : start.toBook window.ticker with
      | error e =>
          rw [hbook] at hstates
          cases hstates
      | ok b =>
          rw [hbook] at hstates
          dsimp only at hstates
          split at hstates
          · cases hstates
          · next passed last hfold =>
              cases hstates
              rw [← List.nil_append [BookImage.of b]] at hfold
              obtain ⟨books, hbooks, himages⟩ := booksFrom_of_passThrough hfold
              exact ⟨start, b, books, rfl, hbook, hbooks, himages⟩

open Classifier in
/-- The verdict is what the nearest match says. -/
theorem classifyWindow_eq {window : TapWindow} {restBook : Book} {replyMonoNs : Int}
    {checksum : Book → Int} {images : List BookImage} (hfault : window.fault = none)
    (hstates : window.states = .ok images) (hrest : restBook.Inv)
    (hticker : restBook.ticker = window.ticker)
    (hchecksum : ∀ a b : Book, (∀ s, a.levels s = b.levels s) → checksum a = checksum b) :
    classifyWindow window restBook replyMonoNs checksum =
      let replyIndex := receivedBy replyMonoNs window.events
      let found := Nearest.search (TapWindow.matchesAt images restBook) replyIndex
        window.events.length
      .ok ⟨match found with
          | none => .inconsistent
          | some i => if i = replyIndex then .exact else .consistent,
        found, images[replyIndex]?⟩ := by
  obtain ⟨start, b, books, hstart, hbook, hbooks, rfl⟩ := window.books_of_states hfault hstates
  have hrebuilt := (rebuilt_toBook hbook).booksFrom hbooks
  have hsame : ∀ j ours, books[j]? = some ours →
      sameLevels restBook (checksum restBook) checksum ours =
        .ok (TapWindow.matchesAt (books.map BookImage.of) restBook j) := by
    intro j ours hj
    rw [sameLevels_eq (hrebuilt ours (List.mem_of_getElem? hj)) ⟨hrest, hticker⟩ hchecksum,
      TapWindow.matchesAt, List.getElem?_map, hj, Option.map_some]
    simp only [Option.some.injEq]
  have hplace := receivedBy_le replyMonoNs window.events
  have hpass : ∃ reply, books[receivedBy replyMonoNs window.events]? = some reply ∧
      upToReply (sameLevels restBook (checksum restBook) checksum) b 0 none
        (window.events.take (receivedBy replyMonoNs window.events)) =
          .ok (reply, Nearest.lastFrom (TapWindow.matchesAt (books.map BookImage.of) restBook) 0
            (receivedBy replyMonoNs window.events + 1) none) :=
    upToReply_eq hbooks hplace fun j ours hj => by
      rw [Nat.zero_add]
      exact hsame j ours hj
  obtain ⟨reply, hreply, hbefore⟩ := hpass
  have himage : (books.map BookImage.of)[receivedBy replyMonoNs window.events]? =
      some (BookImage.of reply) := by
    rw [List.getElem?_map, hreply, Option.map_some]
  rw [classifyWindow, if_neg (not_not.mpr hticker), hfault, hstart]
  dsimp only
  rw [hbook]
  dsimp only
  rw [hbefore]
  dsimp only
  rw [Nearest.search, himage]
  generalize hnearest : Nearest.lastFrom (TapWindow.matchesAt (books.map BookImage.of) restBook) 0
    (receivedBy replyMonoNs window.events + 1) none = nearest
  split
  · next hexact =>
      rw [hexact]
      simp
  · next hexact =>
      have hle := Nearest.reach_le
        (receivedBy replyMonoNs window.events) window.events.length nearest
      have hafter : afterReply (sameLevels restBook (checksum restBook) checksum) reply
          (receivedBy replyMonoNs window.events + 1)
          ((window.events.drop (receivedBy replyMonoNs window.events)).take
            (Nearest.reach (receivedBy replyMonoNs window.events) window.events.length nearest -
              receivedBy replyMonoNs window.events)) =
          .ok (Nearest.firstFrom (TapWindow.matchesAt (books.map BookImage.of) restBook)
            (receivedBy replyMonoNs window.events + 1)
            (Nearest.reach (receivedBy replyMonoNs window.events) window.events.length nearest -
              receivedBy replyMonoNs window.events)) := by
        refine afterReply_eq (booksFrom_drop hbooks hreply) ?_ fun j ours hj => ?_
        · rw [List.length_drop]
          omega
        · rw [List.getElem?_drop] at hj
          rw [hsame _ ours hj]
          congr 2
          omega
      rw [hafter]
      cases hfirst : Nearest.firstFrom (TapWindow.matchesAt (books.map BookImage.of) restBook)
          (receivedBy replyMonoNs window.events + 1)
          (Nearest.reach (receivedBy replyMonoNs window.events) window.events.length nearest -
            receivedBy replyMonoNs window.events) with
      | some j =>
          obtain ⟨hlater, -⟩ := Nearest.firstFrom_eq_some.mp hfirst
          dsimp only
          rw [if_neg (by omega)]
      | none =>
          cases nearest with
          | none => rfl
          | some n =>
              dsimp only
              rw [if_neg fun h => hexact (congrArg some h)]

/-- The verdict on a window: exact if and only if the state as of the reply is
the REST book's, else the matching state nearest the reply. -/
theorem classifyWindow_spec {window : TapWindow} {restBook : Book} (replyMonoNs : Int)
    {checksum : Book → Int} {images : List BookImage} (hfault : window.fault = none)
    (hstates : window.states = .ok images) (hrest : restBook.Reachable)
    (hticker : restBook.ticker = window.ticker)
    (hchecksum : ∀ a b : Book, (∀ s, a.levels s = b.levels s) → checksum a = checksum b) :
    let replyIndex :=
      (window.events.takeWhile fun event => event.receipt.recvMonoNs ≤ replyMonoNs).length
    let matchesAt := fun i => decide (images[i]? = some (BookImage.of restBook))
    ∃ verdict, classifyWindow window restBook replyMonoNs checksum = .ok verdict ∧
      verdict.replyState = images[replyIndex]? ∧
      (verdict.outcome = .exact ↔ matchesAt replyIndex = true) ∧
      (matchesAt replyIndex = true → verdict.matchIndex = some replyIndex) ∧
      (matchesAt replyIndex = false → (∃ i, matchesAt i = true) →
        verdict.outcome = .consistent ∧
          ∃ i, verdict.matchIndex = some i ∧
            Nearest.IsNearest matchesAt replyIndex window.events.length i) ∧
      ((∀ i, matchesAt i = false) →
        verdict.outcome = .inconsistent ∧ verdict.matchIndex = none) := by
  intro replyIndex matchesAt
  have hplace : replyIndex ≤ window.events.length := List.takeWhile_prefix _ |>.length_le
  have hinside : ∀ i, matchesAt i = true → i ≤ window.events.length := by
    intro i hi
    obtain ⟨start, b, books, -, -, hbooks, rfl⟩ := window.books_of_states hfault hstates
    obtain ⟨hlt, -⟩ := List.getElem?_eq_some_iff.mp (of_decide_eq_true hi)
    rw [List.length_map, booksFrom_length hbooks] at hlt
    omega
  have hverdict : classifyWindow window restBook replyMonoNs checksum =
      .ok ⟨match Nearest.search matchesAt replyIndex window.events.length with
          | none => .inconsistent
          | some i => if i = replyIndex then .exact else .consistent,
        Nearest.search matchesAt replyIndex window.events.length, images[replyIndex]?⟩ := by
    rw [classifyWindow_eq hfault hstates hrest.inv hticker hchecksum, receivedBy_eq]
    rfl
  refine ⟨_, hverdict, rfl, ?_⟩
  cases hfound : Nearest.search matchesAt replyIndex window.events.length with
  | none =>
      have hnone := (Nearest.search_eq_none_iff hplace).mp hfound
      refine ⟨iff_of_false nofun ?_, fun hreply => ?_, fun _ hsome => ?_, fun _ => ⟨rfl, rfl⟩⟩
      · rw [hnone replyIndex hplace]
        exact nofun
      · rw [hnone replyIndex hplace] at hreply
        cases hreply
      · obtain ⟨i, hi⟩ := hsome
        rw [hnone i (hinside i hi)] at hi
        cases hi
  | some i =>
      have hnearest := Nearest.search_eq_some hplace hfound
      have hexact : i = replyIndex ↔ matchesAt replyIndex = true := by
        rw [← Nearest.search_eq_place_iff hplace, hfound, Option.some.injEq]
      dsimp only
      refine ⟨?_, fun hreply => ?_, fun hreply _ => ?_, fun hnone => ?_⟩
      · rw [← hexact]
        split
        · next h => exact iff_of_true rfl h
        · next h => exact iff_of_false nofun h
      · rw [hexact.mpr hreply]
      · rw [if_neg fun h => by rw [hexact.mp h] at hreply; cases hreply]
        exact ⟨rfl, i, rfl, hnearest⟩
      · have hmatch := hnearest.isMatch
        rw [hnone i] at hmatch
        cases hmatch

/-- A level is raised and lowered again around the reply. -/
def raisedWindow : TapWindow where
  ticker := "KXA"
  start := some ⟨[⟨4000, 100⟩], [⟨5000, 100⟩]⟩
  events :=
    [.delta ⟨"KXA", none, ⟨0, 10, 10⟩, 1, none, .bid, 4000, 50, none⟩,
      .delta ⟨"KXA", none, ⟨0, 20, 20⟩, 1, none, .bid, 4000, -50, none⟩]
  fault := none
  absent := by simp
  silent := nofun

/-- Both neighbours of the reply match, and the earlier one is taken. -/
theorem classifyWindow_raised :
    ∃ verdict,
      classifyWindow raisedWindow (quotedBook "KXA") 15 Book.checksum = .ok verdict ∧
        verdict.outcome = .consistent ∧
        ∃ i, verdict.matchIndex = some i ∧
          Nearest.IsNearest
            (fun i => decide ([(⟨[⟨4000, 100⟩], [⟨5000, 100⟩]⟩ : BookImage),
              ⟨[⟨4000, 150⟩], [⟨5000, 100⟩]⟩, ⟨[⟨4000, 100⟩], [⟨5000, 100⟩]⟩][i]? =
                some (BookImage.of (quotedBook "KXA")))) 1 2 i := by
  obtain ⟨verdict, hverdict, -, -, -, hconsistent, -⟩ :=
    @classifyWindow_spec raisedWindow (quotedBook "KXA") 15 Book.checksum
      [⟨[⟨4000, 100⟩], [⟨5000, 100⟩]⟩, ⟨[⟨4000, 150⟩], [⟨5000, 100⟩]⟩,
        ⟨[⟨4000, 100⟩], [⟨5000, 100⟩]⟩]
      rfl rfl ⟨_, rfl⟩ rfl fun _ _ h => Book.checksum_of_levels h
  exact ⟨verdict, hverdict, hconsistent (by decide) ⟨0, by decide⟩⟩

end Tape
