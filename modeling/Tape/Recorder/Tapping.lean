import Tape.Recorder.Auditor
import Tape.Recorder.Discipline

/-!
# The supervisor under tap

A supervisor with taps open on its books: the handlers that let a frame at a
book, told again with what they do about the taps, and every other piece of the
supervisor beside them. A tap changes nothing the supervisor does
(`onSnapshot_supervisor`, `onDelta_supervisor`, `dispatch_supervisor`).

What a tap needs of the supervisor is that a book is altered in two ways only.
Either a change took effect, and then the taps of the market have it, or the
book is stale afterwards or gone. `act_cases` says that of every piece. A book
that is gone and comes back does so as a new one, which is stale until a
snapshot, and the tap is told that the book was stale before the snapshot.
-/

namespace Tape

/-- A supervisor and the taps opened on its books. A book is told from one
created later for its market by a number, of which `refs` keeps the newest. -/
structure Tapped where
  supervisor : Supervisor
  refs : Ticker → Nat
  created : Nat
  taps : Dict Nat LiveBookTap
  routes : Dict Ticker (List Nat)
  opened : Nat

namespace Tapped

/-- A supervisor that is not tapped. -/
def new (config : SupervisorConfig) : Tapped :=
  ⟨.new config, fun _ => 0, 0, ∅, ∅, 0⟩

/-- `_books`, as a tap sees them. -/
def books (s : Tapped) : Dict Ticker HeldBook :=
  s.supervisor.books.mapValues fun t b => ⟨s.refs t, b⟩

/-- The level state of a market's book, if there is a book. -/
def imageOf (t : Ticker) (s : Tapped) : Option BookImage :=
  (s.supervisor.books.get? t).map BookImage.of

/-! ## Taps -/

/-- A change is recorded by a tap that is still open. -/
def recordTap (change : BookEvent) (wasStale : Bool) (taps : Dict Nat LiveBookTap)
    (id : Nat) : Dict Nat LiveBookTap :=
  match taps.get? id with
  | none => taps
  | some tap => taps.set id (tap.record change wasStale)

/-- `_record_in_taps`. -/
def recordInTaps (s : Tapped) (change : BookEvent) (wasStale : Bool) : Tapped :=
  { s with
    taps := (s.routes.getD change.ticker []).foldl (recordTap change wasStale) s.taps }

/-- A tap gets the changes of a market. -/
def routeTo (id : Nat) (routes : Dict Ticker (List Nat)) (t : Ticker) :
    Dict Ticker (List Nat) :=
  routes.set t (routes.getD t [] ++ [id])

/-- `open_tap`: a bound that is not positive raises. -/
def openTap (s : Tapped) (tickers : Finset Ticker) (maxEvents : Int) : Tapped :=
  match LiveBookTap.new tickers s.books maxEvents with
  | .error _ => s
  | .ok tap =>
      { s with
        taps := s.taps.set s.opened tap
        routes := (sortedTickers tickers).foldl (routeTo s.opened) s.routes
        opened := s.opened + 1 }

/-- A tap gets them no longer. -/
def unroute (id : Nat) (routes : Dict Ticker (List Nat)) (t : Ticker) :
    Dict Ticker (List Nat) :=
  let remaining := (routes.getD t []).filter fun open_ => open_ ≠ id
  if remaining = [] then routes.erase t else routes.set t remaining

/-- `_release_tap`. -/
def releaseTap (s : Tapped) (id : Nat) (tap : LiveBookTap) : Tapped :=
  { s with routes := (sortedTickers tap.tickers).foldl (unroute id) s.routes }

/-- `LiveBookTap.close`, and `on_close` the first time. -/
def closeTap (s : Tapped) (id : Nat) : Tapped :=
  match s.taps.get? id with
  | none => s
  | some tap =>
      let closed := { s with taps := s.taps.set id (tap.close s.books) }
      match tap.windows with
      | some _ => closed
      | none => closed.releaseTap id tap

/-- What closing a tap returned. -/
def windowsOf (s : Tapped) (id : Nat) : Option (Dict Ticker TapWindow) :=
  (s.taps.get? id).bind LiveBookTap.windows

/-! ## The handlers that record -/

/-- The book a snapshot is applied to: one that does not exist is created. -/
def bookFor (s : Tapped) (ticker : Ticker) : Tapped × Book :=
  match s.supervisor.books.get? ticker with
  | some book => (s, book)
  | none =>
      ({ s with refs := Function.update s.refs ticker s.created, created := s.created + 1 },
        Book.new ticker)

/-- `_on_snapshot`, once the book is found. -/
def applySnapshot (s : Tapped) (book : Book) (snapshot : BookSnapshot) : Tapped :=
  let tapped := s.routes.contains snapshot.ticker
  -- Read before applying: a snapshot is the only way out of the stale state.
  let wasStale := tapped && book.stale
  match book.applySnapshot snapshot.bids snapshot.asks snapshot.tsMs with
  | (book, .error _) =>
      { s with supervisor := (s.supervisor.setBook snapshot.ticker book).bookError }
  | (book, .ok ()) =>
      let s := { s with supervisor := s.supervisor.setBook snapshot.ticker book }
      let s := if tapped then s.recordInTaps (.snapshot snapshot) wasStale else s
      { s with supervisor := s.supervisor.emit (.snapshot snapshot) }

/-- `_on_snapshot`, after the conversion. -/
def onSnapshot (s : Tapped) (snapshot : BookSnapshot) : Tapped :=
  let s := { s with supervisor := s.supervisor.finishResync snapshot.sid snapshot.ticker }
  if s.supervisor.mayTouch snapshot.sid snapshot.ticker then
    (s.bookFor snapshot.ticker).1.applySnapshot (s.bookFor snapshot.ticker).2 snapshot
  else s

/-- `_on_delta`, after the conversion and up to its send. -/
def onDelta (s : Tapped) (delta : BookDelta) : Tapped × Option Command :=
  if s.supervisor.mayTouch delta.sid delta.ticker then
    match s.supervisor.books.get? delta.ticker with
    | none => (s, none)
    | some book =>
        match book.applyDelta delta.side delta.price delta.delta delta.tsMs with
        | (book, .error _) =>
            let (supervisor, request) :=
              (s.supervisor.setBook delta.ticker book).bookError.requestSnapshot
                delta.sid {delta.ticker}
            ({ s with supervisor }, request)
        | (book, .ok true) =>
            let s := { s with supervisor := s.supervisor.setBook delta.ticker book }
            let s :=
              if s.routes.contains delta.ticker then s.recordInTaps (.delta delta) false else s
            ({ s with supervisor := s.supervisor.emit (.delta delta) }, none)
        | (book, .ok false) =>
            ({ s with supervisor := s.supervisor.setBook delta.ticker book }, none)
  else (s, none)

/-- `_dispatch` and the `except` around it, up to the first send or the lock. -/
def dispatch (s : Tapped) (env : Envelope) (receipt : Receipt) : Tapped × Supervisor.Wait :=
  match env.body with
  | .orderbookSnapshot msg =>
      match readSnapshot msg env receipt s.supervisor.config.useYesPrice with
      | .error e => ({ s with supervisor := (s.supervisor.notDecoded e).1 },
          (s.supervisor.notDecoded e).2)
      | .ok snapshot => (s.onSnapshot snapshot, .nothing)
  | .orderbookDelta msg =>
      match readDelta msg env receipt s.supervisor.config.useYesPrice with
      | .error e => ({ s with supervisor := (s.supervisor.notDecoded e).1 },
          (s.supervisor.notDecoded e).2)
      | .ok delta =>
          let (s, request) := s.onDelta delta
          (s, .ofRequest request)
  | _ =>
      ({ s with supervisor := (s.supervisor.dispatch env receipt).1 },
        (s.supervisor.dispatch env receipt).2)

/-! ## The taps do not disturb -/

theorem bookFor_spec (s : Tapped) (t : Ticker) :
    (s.bookFor t).1.supervisor = s.supervisor ∧ (s.bookFor t).1.taps = s.taps ∧
      (s.bookFor t).1.routes = s.routes ∧ (s.bookFor t).1.opened = s.opened ∧
      (s.bookFor t).2 = s.supervisor.books.getD t (Book.new t) := by
  rw [bookFor, Dict.getD]
  cases s.supervisor.books.get? t with
  | none => exact ⟨rfl, rfl, rfl, rfl, rfl⟩
  | some book => exact ⟨rfl, rfl, rfl, rfl, rfl⟩

theorem onSnapshot_supervisor (s : Tapped) (e : BookSnapshot) :
    (s.onSnapshot e).supervisor = s.supervisor.onSnapshot e := by
  rw [onSnapshot, Supervisor.onSnapshot]
  dsimp only
  split
  · obtain ⟨hsupervisor, -, -, -, hbook⟩ :=
      { s with supervisor := s.supervisor.finishResync e.sid e.ticker }.bookFor_spec e.ticker
    rw [applySnapshot, hbook, hsupervisor]
    dsimp only
    rcases ((s.supervisor.finishResync e.sid e.ticker).books.getD e.ticker
      (Book.new e.ticker)).applySnapshot e.bids e.asks e.tsMs with ⟨book, err | ⟨⟩⟩
    · rfl
    · dsimp only
      split <;> rfl
  · rfl

theorem onDelta_supervisor (s : Tapped) (e : BookDelta) :
    (s.onDelta e).1.supervisor = (s.supervisor.onDelta e).1 ∧
      (s.onDelta e).2 = (s.supervisor.onDelta e).2 := by
  rw [onDelta, Supervisor.onDelta]
  split
  · cases s.supervisor.books.get? e.ticker with
    | none => exact ⟨rfl, rfl⟩
    | some book =>
        dsimp only
        rcases book.applyDelta e.side e.price e.delta e.tsMs with ⟨book', err | applied⟩
        · exact ⟨rfl, rfl⟩
        · cases applied with
          | false => exact ⟨rfl, rfl⟩
          | true =>
              dsimp only
              refine ⟨?_, rfl⟩
              split <;> rfl
  · exact ⟨rfl, rfl⟩

/-- A supervisor under tap handles a frame as one that is not. -/
theorem dispatch_supervisor (s : Tapped) (env : Envelope) (receipt : Receipt) :
    (s.dispatch env receipt).1.supervisor = (s.supervisor.dispatch env receipt).1 ∧
      (s.dispatch env receipt).2 = (s.supervisor.dispatch env receipt).2 := by
  rw [dispatch]
  split
  · next msg hbody =>
      rw [Supervisor.dispatch, hbody]
      dsimp only
      cases readSnapshot msg env receipt s.supervisor.config.useYesPrice with
      | error e => exact ⟨rfl, rfl⟩
      | ok snapshot => exact ⟨s.onSnapshot_supervisor snapshot, rfl⟩
  · next msg hbody =>
      rw [Supervisor.dispatch, hbody]
      dsimp only
      cases readDelta msg env receipt s.supervisor.config.useYesPrice with
      | error e => exact ⟨rfl, rfl⟩
      | ok delta =>
          obtain ⟨hsupervisor, hrequest⟩ := s.onDelta_supervisor delta
          exact ⟨hsupervisor, congrArg Supervisor.Wait.ofRequest hrequest⟩
  · exact ⟨rfl, rfl⟩

end Tapped

/-! ## What does not freshen a book -/

namespace Supervisor

/-- Every book the supervisor holds keeps the representation invariant. -/
def SoundBooks (s : Supervisor) : Prop := ∀ t b, s.books.get? t = some b → b.Inv

/-- Each book that is left is the one there was, or stale. -/
def Worsens (s s' : Supervisor) : Prop :=
  ∀ t b', s'.books.get? t = some b' → s.books.get? t = some b' ∨ b'.stale = true ∧ b'.Inv

variable {s s' : Supervisor}

theorem worsens_of_books (h : s'.books = s.books) : s.Worsens s' := by
  intro t b' hb'
  exact .inl (h ▸ hb')

theorem Worsens.of_books {s₁ : Supervisor} (h : s.Worsens s₁) (hb : s'.books = s₁.books) :
    s.Worsens s' := by
  intro t b' hb'
  exact h t b' (hb ▸ hb')

theorem Worsens.from_books {s₁ : Supervisor} (h : s₁.Worsens s') (hb : s₁.books = s.books) :
    s.Worsens s' := by
  intro t b' hb'
  exact hb ▸ h t b' hb'

theorem SoundBooks.of_books (hs : s.SoundBooks) (hb : s'.books = s.books) : s'.SoundBooks := by
  intro t b h
  exact hs t b (hb ▸ h)

theorem Worsens.sound (h : s.Worsens s') (hs : s.SoundBooks) : s'.SoundBooks := by
  intro t b' hb'
  rcases h t b' hb' with hold | ⟨-, hinv⟩
  · exact hs t b' hold
  · exact hinv

theorem worsens_markStale (hs : s.SoundBooks) (tickers : Finset Ticker) :
    s.Worsens (s.markStale tickers) := by
  intro t b' hb'
  rw [markStale, Dict.get?_mapValues] at hb'
  obtain ⟨b, hb, rfl⟩ := Option.map_eq_some_iff.mp hb'
  split
  · exact .inr ⟨rfl, (hs t b hb).markStale⟩
  · exact .inl hb

theorem worsens_releaseBooks (hs : s.SoundBooks) (tickers : Finset Ticker) :
    s.Worsens (s.releaseBooks tickers) := by
  intro t b' hb'
  rw [releaseBooks, Dict.get?_mapValues] at hb'
  obtain ⟨b, hb, rfl⟩ := Option.map_eq_some_iff.mp hb'
  rw [Dict.get?_filter, Option.filter_eq_some_iff] at hb
  split
  · exact .inr ⟨rfl, (hs t b hb.1).markStale⟩
  · exact .inl hb.1

theorem worsens_pruneBooks : s.Worsens s.pruneBooks := by
  intro t b' hb'
  rw [pruneBooks, Dict.get?_filter, Option.filter_eq_some_iff] at hb'
  exact .inl hb'.1

theorem worsens_endConnection (hs : s.SoundBooks) (detail : String) :
    s.Worsens (s.endConnection detail) := by
  intro t b' hb'
  rw [endConnection, Dict.get?_mapValues] at hb'
  obtain ⟨b, hb, rfl⟩ := Option.map_eq_some_iff.mp hb'
  exact .inr ⟨rfl, (hs t b hb).markStale⟩

theorem worsens_setBook {b : Book} (t : Ticker) (hstale : b.stale = true) (hinv : b.Inv) :
    s.Worsens (s.setBook t b) := by
  intro t' b' hb'
  rw [setBook, Dict.get?_set] at hb'
  split at hb'
  · obtain rfl := Option.some.inj hb'
    exact .inr ⟨hstale, hinv⟩
  · exact .inl hb'

theorem worsens_resyncConnection (hs : s.SoundBooks) (sid : Sid) (askAgain : Bool) :
    s.Worsens (s.resyncConnection sid askAgain).1 := by
  rw [resyncConnection]
  split
  · exact worsens_of_books rfl
  · next applied _ =>
      split
      · refine (worsens_markStale hs applied.tickers).of_books ?_
        rw [(requestSnapshot_control _ sid applied.tickers).2]
        split <;> rfl
      · exact worsens_of_books rfl

theorem worsens_checkSequence (hs : s.SoundBooks) (env : Envelope) (receipt : Receipt) :
    s.Worsens (s.checkSequence env receipt).1 := by
  have hresync : ∀ (s₁ : Supervisor) (sid : Sid) (askAgain : Bool), s₁.books = s.books →
      s.Worsens (s₁.resyncConnection sid askAgain).1 := fun s₁ sid askAgain hb =>
    (worsens_resyncConnection (hs.of_books hb) sid askAgain).from_books hb
  rw [checkSequence]
  split
  · exact worsens_of_books rfl
  · dsimp only
    split
    · exact hresync _ _ true rfl
    · exact hresync _ _ false rfl
    · exact worsens_of_books rfl

theorem worsens_receiveFrame (hs : s.SoundBooks) (f : RawFrame) :
    s.Worsens (s.receiveFrame f).1 := by
  rw [receiveFrame]
  split
  · exact worsens_of_books rfl
  · next env _ => exact worsens_checkSequence (s := s.countFrame f) hs env (s.receiptOf f)

theorem worsens_notDecoded (e : ConvertError) : s.Worsens (s.notDecoded e).1 := by
  rw [notDecoded.eq_def]
  split <;> exact worsens_of_books rfl

theorem worsens_recordChange (hs : s.SoundBooks) (piece : PlanChange) :
    s.Worsens (s.recordChange piece).1 := by
  rw [recordChange.eq_def]
  split
  · exact worsens_of_books rfl
  · split
    · exact worsens_of_books rfl
    · next group _ =>
        split
        · exact worsens_of_books rfl
        · exact worsens_releaseBooks (s := { s with
            applied := none, subscriptions := _, resyncing := _ }) hs group.tickers
  · split
    · exact worsens_of_books rfl
    · split <;> exact worsens_of_books rfl
  · next tickers =>
    split
    · exact worsens_of_books rfl
    · split
      · exact worsens_of_books rfl
      · exact worsens_releaseBooks (s := { s with applied := _ }) hs tickers.toFinset

/-- Only the frames of the book channel touch a book. -/
theorem books_dispatch {env : Envelope} (s : Supervisor) (receipt : Receipt)
    (hsnapshot : ∀ msg, env.body ≠ .orderbookSnapshot msg)
    (hdelta : ∀ msg, env.body ≠ .orderbookDelta msg) :
    (s.dispatch env receipt).1.books = s.books := by
  have hnot : ∀ e, (s.notDecoded e).1.books = s.books := by
    intro e
    rw [notDecoded.eq_def]
    split <;> rfl
  rw [dispatch.eq_def]
  split
  · next msg hbody => exact absurd hbody (hsnapshot msg)
  · next msg hbody => exact absurd hbody (hdelta msg)
  · split
    · exact hnot _
    · rfl
  · split
    · exact hnot _
    · rfl
  · rfl
  · split <;> rfl
  · split
    · exact hnot _
    · rfl
  · rfl

theorem books_adoptMembership (s : Supervisor) (groupId : String) (sid : Sid) (channel : String)
    (marketTickers : Option (List Ticker)) :
    (s.adoptMembership groupId sid channel marketTickers).1.books = s.books := by
  rw [adoptMembership.eq_def]
  split
  · split
    · rfl
    · dsimp only
      split
      · split <;> rfl
      · rw [(requestSnapshot_control _ _ _).2]
        split <;> rfl
  · rfl

theorem books_withLock (s : Supervisor) (env : Envelope) : (s.withLock env).1.books = s.books := by
  rw [withLock.eq_def]
  split
  · dsimp only
    split
    · rfl
    · split <;> rfl
  · split
    · rfl
    · split
      · split
        · rfl
        · split
          · rfl
          · split
            · rfl
            · exact books_adoptMembership _ _ _ _ _
      · rfl
  · split
    · rfl
    · split
      · rfl
      · dsimp only
        split
        · rfl
        · split <;> rfl
  · rfl

end Supervisor

namespace Tapped

/-! ## The pieces of a run -/

/-- The pieces a supervisor under tap goes on by, any of them at any time. -/
inductive Act where
  | receive (f : RawFrame)
  | dispatch (env : Envelope) (receipt : Receipt)
  | reply (env : Envelope)
  | recordChange (piece : PlanChange)
  | awaitReplies (commandId : Int) (groupId : String) (channels : List String)
  | setGroup (group : Option Group)
  | pruneBooks
  | beginConnection
  | endConnection (detail : String)
  | openTap (tickers : Finset Ticker) (maxEvents : Int)
  | closeTap (id : Nat)

/-- One act. -/
def step (s : Tapped) : Act → Tapped
  | .receive f => { s with supervisor := (s.supervisor.receiveFrame f).1 }
  | .dispatch env receipt => (s.dispatch env receipt).1
  | .reply env => { s with supervisor := (s.supervisor.withLock env).1 }
  | .recordChange piece => { s with supervisor := (s.supervisor.recordChange piece).1 }
  | .awaitReplies commandId groupId channels =>
      { s with supervisor := s.supervisor.awaitReplies commandId groupId channels }
  | .setGroup group => { s with supervisor := { s.supervisor with desired := group } }
  | .pruneBooks => { s with supervisor := s.supervisor.pruneBooks }
  | .beginConnection => { s with supervisor := s.supervisor.beginConnection }
  | .endConnection detail => { s with supervisor := s.supervisor.endConnection detail }
  | .openTap tickers maxEvents => s.openTap tickers maxEvents
  | .closeTap id => s.closeTap id

/-- Nothing for the taps: no book has changed but to be stale or gone. -/
structure Idle (s s' : Tapped) : Prop where
  taps : s'.taps = s.taps
  routes : s'.routes = s.routes
  opened : s'.opened = s.opened
  worsens : s.supervisor.Worsens s'.supervisor

/-- An event took effect on the book of its market, and the market's taps have
it. -/
structure Took (s : Tapped) (e : BookEvent) (b b' : Book) (s' : Tapped) : Prop where
  routes : s'.routes = s.routes
  opened : s'.opened = s.opened
  inv : b.Inv
  before : s.supervisor.books.get? e.ticker = some b ∨ b.stale = true
  perform : e.perform b = (b', .ok true)
  books : ∀ t, s'.supervisor.books.get? t =
    if e.ticker = t then some b' else s.supervisor.books.get? t
  taps : s'.taps = (s.routes.getD e.ticker []).foldl
    (recordTap e (s.routes.contains e.ticker && b.stale)) s.taps

/-- Only the taps of the market are told, if there are any. -/
theorem taps_recorded (s : Tapped) (e : BookEvent) (wasStale : Bool) :
    (if s.routes.contains e.ticker then s.recordInTaps e wasStale else s).taps =
      (s.routes.getD e.ticker []).foldl (recordTap e wasStale) s.taps := by
  split
  · rfl
  · next huntapped =>
      rw [Dict.contains, Bool.not_eq_true, Option.isSome_eq_false_iff,
        Option.isNone_iff_eq_none] at huntapped
      rw [Dict.getD, huntapped]
      rfl

theorem recorded_rest (s : Tapped) (p : Prop) [Decidable p] (e : BookEvent) (wasStale : Bool) :
    (if p then s.recordInTaps e wasStale else s).supervisor = s.supervisor ∧
      (if p then s.recordInTaps e wasStale else s).routes = s.routes ∧
      (if p then s.recordInTaps e wasStale else s).opened = s.opened := by
  split <;> exact ⟨rfl, rfl, rfl⟩

theorem applySnapshot_cases {s : Tapped} {b : Book} (hinv : b.Inv) (e : BookSnapshot)
    (hb : s.supervisor.books.get? e.ticker = some b ∨ b.stale = true) :
    Idle s (s.applySnapshot b e) ∨ ∃ b', Took s (.snapshot e) b b' (s.applySnapshot b e) := by
  have hperformed := (BookEvent.snapshot e).inv_perform hinv
  rw [BookEvent.perform_snapshot_fst] at hperformed
  rw [applySnapshot]
  rcases b.applySnapshot_cases e.bids e.asks e.tsMs with
    ⟨b', heq, -⟩ | ⟨err, heq⟩
  · rw [heq]
    dsimp only
    obtain ⟨hsupervisor, hroutes, hopened⟩ := recorded_rest
      { s with supervisor := s.supervisor.setBook e.ticker b' }
      (s.routes.contains e.ticker = true) (.snapshot e) (s.routes.contains e.ticker && b.stale)
    refine .inr ⟨b', hroutes, hopened, hinv, hb, ?_, fun t => ?_, ?_⟩
    · rw [BookEvent.perform, heq]
    · rw [hsupervisor]
      exact Dict.get?_set _ _ _ _
    · exact taps_recorded { s with supervisor := s.supervisor.setBook e.ticker b' }
        (.snapshot e) _
  · rw [heq]
    exact .inl ⟨rfl, rfl, rfl, Supervisor.worsens_setBook e.ticker rfl hinv.markStale⟩

theorem onSnapshot_cases {s : Tapped} (hs : s.supervisor.SoundBooks) (e : BookSnapshot) :
    Idle s (s.onSnapshot e) ∨ ∃ b b', Took s (.snapshot e) b b' (s.onSnapshot e) := by
  rw [onSnapshot]
  dsimp only
  split
  · obtain ⟨hsupervisor, htaps, hroutes, hopened, hbook⟩ :=
      { s with supervisor := s.supervisor.finishResync e.sid e.ticker }.bookFor_spec e.ticker
    generalize { s with
      supervisor := s.supervisor.finishResync e.sid e.ticker }.bookFor e.ticker = found at *
    obtain ⟨s₁, b⟩ := found
    dsimp only at hsupervisor htaps hroutes hopened hbook ⊢
    have hsame : s₁.supervisor.books = s.supervisor.books := by
      rw [hsupervisor]
      rfl
    have hbook : b = (s.supervisor.books.get? e.ticker).getD (Book.new e.ticker) := hbook
    have hb : b.Inv ∧ (s₁.supervisor.books.get? e.ticker = some b ∨ b.stale = true) := by
      rw [hbook, hsame]
      cases hget : s.supervisor.books.get? e.ticker with
      | none => exact ⟨Book.inv_new _, .inr rfl⟩
      | some book => exact ⟨hs _ _ hget, .inl rfl⟩
    rcases applySnapshot_cases hb.1 e hb.2 with hidle | ⟨b', htook⟩
    · exact .inl ⟨hidle.taps.trans htaps, hidle.routes.trans hroutes, hidle.opened.trans hopened,
        hidle.worsens.from_books hsame⟩
    · refine .inr ⟨b, b', htook.routes.trans hroutes, htook.opened.trans hopened, htook.inv,
        hsame ▸ htook.before, htook.perform, fun t => ?_, ?_⟩
      · rw [htook.books, hsame]
      · rw [htook.taps, hroutes, htaps]
  · exact .inl ⟨rfl, rfl, rfl, Supervisor.worsens_of_books rfl⟩

theorem onDelta_cases {s : Tapped} (hs : s.supervisor.SoundBooks) (e : BookDelta) :
    Idle s (s.onDelta e).1 ∨ ∃ b b', Took s (.delta e) b b' (s.onDelta e).1 := by
  have hidle : Idle s s := ⟨rfl, rfl, rfl, Supervisor.worsens_of_books rfl⟩
  rw [onDelta]
  split
  · cases hget : s.supervisor.books.get? e.ticker with
    | none => exact .inl hidle
    | some b =>
        have hinv := hs _ _ hget
        have hperformed := hinv.applyDelta e.side e.price e.delta e.tsMs
        -- An error leaves the book stale, whatever the delta wrote.
        have hfailed : ∀ b', b'.stale = true → b'.Inv → s.supervisor.Worsens
            ((s.supervisor.setBook e.ticker b').bookError.requestSnapshot e.sid {e.ticker}).1 :=
          fun b' hstale hb' => (Supervisor.worsens_setBook e.ticker hstale hb').of_books
            (Supervisor.requestSnapshot_control _ _ _).2
        dsimp only
        rcases b.applyDelta_cases e.side e.price e.delta e.tsMs with
          ⟨hstale, heq⟩ | ⟨-, -, err, heq⟩ | ⟨-, -, ⟨err, heq⟩, -⟩ | ⟨hfresh, -, heq, -⟩
        · rw [heq] at hperformed ⊢
          exact .inl ⟨rfl, rfl, rfl, Supervisor.worsens_setBook e.ticker hstale hperformed⟩
        · rw [heq] at hperformed ⊢
          exact .inl ⟨rfl, rfl, rfl, hfailed _ rfl hperformed⟩
        · rw [heq] at hperformed ⊢
          exact .inl ⟨rfl, rfl, rfl, hfailed _ rfl hperformed⟩
        · rw [heq]
          dsimp only
          generalize hnew : (b.writeLevel e.side e.price (b.depth e.side e.price + e.delta)).withTs
            e.tsMs = b' at *
          obtain ⟨hsupervisor, hroutes, hopened⟩ := recorded_rest
            { s with supervisor := s.supervisor.setBook e.ticker b' }
            (s.routes.contains e.ticker = true) (.delta e) false
          refine .inr ⟨b, b', hroutes, hopened, hinv, .inl hget, heq, fun t => ?_, ?_⟩
          · rw [hsupervisor]
            exact Dict.get?_set _ _ _ _
          · rw [hfresh, Bool.and_false]
            exact taps_recorded { s with supervisor := s.supervisor.setBook e.ticker b' }
              (.delta e) false
  · exact .inl hidle

theorem dispatch_cases {s : Tapped} (hs : s.supervisor.SoundBooks) (env : Envelope)
    (receipt : Receipt) :
    Idle s (s.dispatch env receipt).1 ∨ ∃ e b b', Took s e b b' (s.dispatch env receipt).1 := by
  rw [dispatch]
  split
  · split
    · exact .inl ⟨rfl, rfl, rfl, Supervisor.worsens_notDecoded _⟩
    · next snapshot _ => exact (onSnapshot_cases hs snapshot).imp_right fun h => ⟨_, h⟩
  · split
    · exact .inl ⟨rfl, rfl, rfl, Supervisor.worsens_notDecoded _⟩
    · next delta _ => exact (onDelta_cases hs delta).imp_right fun h => ⟨_, h⟩
  · next hsnapshot hdelta =>
      exact .inl ⟨rfl, rfl, rfl,
        Supervisor.worsens_of_books (Supervisor.books_dispatch _ receipt hsnapshot hdelta)⟩

/-- Every piece but the opening and closing of a tap lets one event take effect
or none. -/
theorem step_cases {s : Tapped} (hs : s.supervisor.SoundBooks) (a : Act)
    (hopen : ∀ tickers maxEvents, a ≠ .openTap tickers maxEvents)
    (hclose : ∀ id, a ≠ .closeTap id) :
    Idle s (s.step a) ∨ ∃ e b b', Took s e b b' (s.step a) := by
  have hidle : ∀ sup, s.supervisor.Worsens sup → Idle s { s with supervisor := sup } :=
    fun sup h => ⟨rfl, rfl, rfl, h⟩
  cases a with
  | receive f => exact .inl (hidle _ (Supervisor.worsens_receiveFrame hs f))
  | dispatch env receipt => exact dispatch_cases hs env receipt
  | reply env =>
      exact .inl (hidle _ (Supervisor.worsens_of_books (s.supervisor.books_withLock env)))
  | recordChange piece => exact .inl (hidle _ (Supervisor.worsens_recordChange hs piece))
  | awaitReplies _ _ _ => exact .inl (hidle _ (Supervisor.worsens_of_books rfl))
  | setGroup _ => exact .inl (hidle _ (Supervisor.worsens_of_books rfl))
  | pruneBooks => exact .inl (hidle _ Supervisor.worsens_pruneBooks)
  | beginConnection => exact .inl (hidle _ (Supervisor.worsens_of_books rfl))
  | endConnection detail => exact .inl (hidle _ (Supervisor.worsens_endConnection hs detail))
  | openTap tickers maxEvents => exact absurd rfl (hopen tickers maxEvents)
  | closeTap id => exact absurd rfl (hclose id)

end Tapped

end Tape
