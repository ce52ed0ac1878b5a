import Tape.Recorder.Connection

/-!
# The books of a recorder come from frames

A book of a supervisor is built by the images and deltas its frames convert to,
whatever came of applying them, and by being marked stale. Everything else a
connection does leaves the books as they are, marks some stale or drops some
(`Leaves`), so that after any run `FromFrames` holds of every book.
-/

namespace Tape

/-- A book that is built from frames that convert: it is new, or it took an
image or a delta, with whatever came of it, or was marked stale. -/
inductive Book.FromFrames (useYesPrice : Bool) : Book → Prop where
  | new (ticker : Ticker) : FromFrames useYesPrice (Book.new ticker)
  | snapshot {b : Book} {msg : Except WireError OrderbookSnapshotMsg} {env : Envelope}
      {receipt : Receipt} {image : BookSnapshot} (hb : FromFrames useYesPrice b)
      (hread : readSnapshot msg env receipt useYesPrice = .ok image) :
      FromFrames useYesPrice (b.applySnapshot image.bids image.asks image.tsMs).1
  | delta {b : Book} {msg : Except WireError OrderbookDeltaMsg} {env : Envelope}
      {receipt : Receipt} {delta : BookDelta} (hb : FromFrames useYesPrice b)
      (hread : readDelta msg env receipt useYesPrice = .ok delta) :
      FromFrames useYesPrice (b.applyDelta delta.side delta.price delta.delta delta.tsMs).1
  | stale {b : Book} (hb : FromFrames useYesPrice b) : FromFrames useYesPrice b.markStale

namespace Supervisor

variable {s s' s'' : Supervisor}

/-- Every book is one that was there, or was marked stale. -/
structure Leaves (s s' : Supervisor) : Prop where
  config : s'.config = s.config
  books : ∀ t b', s'.books.get? t = some b' →
    ∃ b, s.books.get? t = some b ∧ (b' = b ∨ b' = b.markStale)

theorem Leaves.of_books (hc : s'.config = s.config) (hb : s'.books = s.books) : Leaves s s' :=
  ⟨hc, fun _ b' hget => ⟨b', hb ▸ hget, .inl rfl⟩⟩

theorem Leaves.refl (s : Supervisor) : Leaves s s := .of_books rfl rfl

theorem Leaves.trans (h : Leaves s s') (h' : Leaves s' s'') : Leaves s s'' where
  config := h'.config.trans h.config
  books t b'' hget := by
    obtain ⟨b', hb', hfrom'⟩ := h'.books t b'' hget
    obtain ⟨b, hb, hfrom⟩ := h.books t b' hb'
    refine ⟨b, hb, ?_⟩
    rcases hfrom' with rfl | rfl
    · exact hfrom
    · rcases hfrom with rfl | rfl
      · exact .inr rfl
      · exact .inr rfl

theorem leaves_put (s : Supervisor) (r : TapeRecord) : Leaves s (s.put r) := .of_books rfl rfl

theorem leaves_markStale (s : Supervisor) (tickers : Finset Ticker) :
    Leaves s (s.markStale tickers) where
  config := rfl
  books t b' hget := by
    rw [markStale, Dict.get?_mapValues, Option.map_eq_some_iff] at hget
    obtain ⟨b, hb, rfl⟩ := hget
    refine ⟨b, hb, ?_⟩
    split
    · exact .inr rfl
    · exact .inl rfl

theorem leaves_requestSnapshot (s : Supervisor) (sid : Sid) (tickers : Finset Ticker) :
    Leaves s (s.requestSnapshot sid tickers).1 := by
  rw [requestSnapshot]
  dsimp only
  split
  · exact .of_books rfl rfl
  · exact .of_books rfl rfl

theorem leaves_resyncConnection (s : Supervisor) (sid : Sid) (askAgain : Bool) :
    Leaves s (s.resyncConnection sid askAgain).1 := by
  rw [resyncConnection]
  split
  · exact .refl s
  · next applied _ =>
      split
      · have hstale := leaves_markStale s applied.tickers
        dsimp only
        split
        · have hpop : Leaves s ((s.markStale applied.tickers).popResyncing sid) :=
            hstale.trans (.of_books rfl rfl)
          exact hpop.trans (leaves_requestSnapshot _ sid _)
        · exact hstale.trans (leaves_requestSnapshot _ sid _)
      · exact .refl s

theorem leaves_checkSequence (s : Supervisor) (env : Envelope) (receipt : Receipt) :
    Leaves s (s.checkSequence env receipt).1 := by
  rw [checkSequence]
  split
  · exact .refl s
  · next sid _ =>
      have hjudged : Leaves s { s with tracker := (s.judgeFrame sid env).1 } := .of_books rfl rfl
      dsimp only
      split
      · next expected got _ =>
          have hgap : Leaves s ({ s with tracker := (s.judgeFrame sid env).1 }.reportGap sid
              expected got receipt) := .of_books rfl rfl
          exact hgap.trans (leaves_resyncConnection _ sid true)
      · have hcount : Leaves s { s with tracker := (s.judgeFrame sid env).1 }.countDuplicate :=
          .of_books rfl rfl
        exact hcount.trans (leaves_resyncConnection _ sid false)
      · exact hjudged

theorem leaves_receiveFrame (s : Supervisor) (f : RawFrame) : Leaves s (s.receiveFrame f).1 := by
  rw [receiveFrame]
  split
  · exact .of_books rfl rfl
  · next env _ =>
      have hcount : Leaves s (s.countFrame f) := .of_books rfl rfl
      exact hcount.trans (leaves_checkSequence _ env _)

/-! ## Under the lock -/

theorem leaves_adoptMembership (s : Supervisor) (groupId : String) (sid : Sid) (channel : String)
    (tickers : Option (List Ticker)) :
    Leaves s (s.adoptMembership groupId sid channel tickers).1 := by
  rw [adoptMembership.eq_def]
  split
  · next t ts applied _ =>
      split
      · exact .refl s
      · have hmerged : Leaves s
            (if (t :: ts).toFinset ≠ applied.tickers then
              { s with applied := some { applied with tickers := (t :: ts).toFinset }
                       reconcileDeferred := true }
            else s) := by
          split
          · exact .of_books rfl rfl
          · exact .refl s
        dsimp only
        split
        · exact hmerged
        · exact hmerged.trans (leaves_requestSnapshot _ sid _)
  · exact .refl s

theorem leaves_withLock (s : Supervisor) (env : Envelope) : Leaves s (s.withLock env).1 := by
  rw [withLock]
  split
  · split
    · exact .of_books rfl rfl
    · dsimp only
      split
      · exact .of_books rfl rfl
      · exact .of_books rfl rfl
  · split
    · exact .refl s
    · next id _ =>
        split
        · next pending sid _ _ =>
            split
            · exact .refl s
            · next channel _ =>
                split
                · exact .refl s
                · split
                  · exact .of_books rfl rfl
                  · next m _ =>
                      have hanswer : Leaves s (s.answer id pending sid channel) :=
                        .of_books rfl rfl
                      exact hanswer.trans (leaves_adoptMembership _ _ sid channel _)
        · exact .refl s
  · split
    · exact .refl s
    · split
      · exact .refl s
      · dsimp only
        split
        · exact .of_books rfl rfl
        · split
          · exact .of_books rfl rfl
          · exact .of_books rfl rfl
  · exact .refl s

theorem leaves_releaseBooks (s : Supervisor) (tickers : Finset Ticker) :
    Leaves s (s.releaseBooks tickers) where
  config := rfl
  books t b' hget := by
    rw [releaseBooks, Dict.get?_mapValues, Option.map_eq_some_iff] at hget
    obtain ⟨b, hb, rfl⟩ := hget
    rw [Dict.get?_filter, Option.filter_eq_some_iff] at hb
    refine ⟨b, hb.1, ?_⟩
    split
    · exact .inr rfl
    · exact .inl rfl

theorem leaves_pruneBooks (s : Supervisor) : Leaves s s.pruneBooks where
  config := rfl
  books t b' hget := by
    rw [pruneBooks, Dict.get?_filter, Option.filter_eq_some_iff] at hget
    exact ⟨b', hget.1, .inl rfl⟩

theorem leaves_recordChange (s : Supervisor) (piece : PlanChange) :
    Leaves s (s.recordChange piece).1 := by
  cases piece with
  | addGroup group => exact .of_books rfl rfl
  | removeGroup groupId =>
      rw [recordChange]
      split
      · exact .refl s
      · split
        · exact .refl s
        · refine Leaves.trans ?_ (leaves_releaseBooks _ _)
          exact .of_books rfl rfl
  | addMarkets groupId tickers =>
      rw [recordChange]
      split
      · exact .refl s
      · split
        · exact .refl s
        · exact .of_books rfl rfl
  | removeMarkets groupId tickers =>
      rw [recordChange]
      split
      · exact .refl s
      · split
        · exact .refl s
        · refine Leaves.trans ?_ (leaves_releaseBooks _ _)
          exact .of_books rfl rfl

theorem leaves_nextPiece (s : Supervisor) (pieces : List PlanChange) :
    Leaves s (s.nextPiece pieces).1 := by
  induction pieces generalizing s with
  | nil => exact .refl s
  | cons piece later ih =>
      rw [nextPiece]
      split
      · exact .of_books rfl rfl
      · split
        · exact .refl s
        · exact .refl s
        · have hrecorded := leaves_recordChange s piece
          split
          · next heq =>
              rw [heq] at hrecorded
              exact hrecorded
          · next heq =>
              rw [heq] at hrecorded
              exact hrecorded.trans (ih _)

theorem leaves_startReconcile (s : Supervisor) : Leaves s s.startReconcile.1 := by
  have hguard : Leaves s s.reconcileGuard.1 := by
    rw [reconcileGuard]
    split
    · exact .refl s
    · split
      · exact .refl s
      · split
        · exact .of_books rfl rfl
        · exact .refl s
  rw [startReconcile]
  split
  · next heq =>
      rw [heq] at hguard
      exact hguard
  · next heq =>
      rw [heq] at hguard
      split
      · exact hguard.trans (.of_books rfl rfl)
      · exact hguard.trans (leaves_nextPiece _ _)

theorem leaves_resume (s : Supervisor) : Leaves s s.resume.1 := by
  rw [resume]
  split
  · have hcleared : Leaves s { s with reconcileDeferred := false } := .of_books rfl rfl
    exact hcleared.trans (leaves_startReconcile _)
  · exact .refl s

theorem leaves_afterCommand (s : Supervisor) (piece : PlanChange) (id : Int) :
    Leaves s (s.afterCommand piece id) := by
  rw [afterCommand.eq_def]
  split
  · exact .of_books rfl rfl
  · exact .refl s

theorem leaves_afterSend (s : Supervisor) (work : Work) (id : Int) :
    Leaves s (s.afterSend work id).1 := by
  rw [afterSend.eq_def]
  split
  · exact leaves_resume s
  · have hawait : Leaves s (s.awaitReplies id firehoseGroupId s.config.firehoseChannels) :=
      .of_books rfl rfl
    exact hawait.trans (leaves_nextPiece _ _)
  · next piece _ _ _ _ => exact leaves_afterCommand s piece id
  · next piece _ later =>
      have hrecorded := (leaves_afterCommand s piece id).trans (leaves_recordChange _ piece)
      split
      · next heq =>
          rw [heq] at hrecorded
          exact hrecorded
      · next heq =>
          rw [heq] at hrecorded
          exact hrecorded.trans (leaves_nextPiece _ later)
  · exact .refl s

theorem leaves_lockedReply (s : Supervisor) (env : Envelope) :
    Leaves s (s.lockedReply env).1 := by
  have hlock := leaves_withLock s env
  rw [lockedReply]
  split
  · next heq =>
      rw [heq] at hlock
      exact hlock
  · next heq =>
      rw [heq] at hlock
      exact hlock.trans (leaves_resume _)
  · next heq =>
      rw [heq] at hlock
      exact hlock

theorem leaves_transmit (s : Supervisor) (cmd : Command) : Leaves s (s.transmit cmd).1 := by
  rw [transmit]
  split
  · exact .refl s
  · split
    · exact .of_books rfl rfl
    · exact .refl s

theorem leaves_endConnection (s : Supervisor) (detail : String) :
    Leaves s (s.endConnection detail) where
  config := rfl
  books t b' hget := by
    rw [endConnection, Dict.get?_mapValues, Option.map_eq_some_iff] at hget
    obtain ⟨b, hb, rfl⟩ := hget
    exact ⟨b, hb, .inr rfl⟩

/-! ## Dispatch -/

/-- The books of a supervisor are built from frames. -/
def Built (s : Supervisor) : Prop :=
  ∀ t b, s.books.get? t = some b → b.FromFrames s.config.useYesPrice

theorem Built.leaves (hb : s.Built) (h : Leaves s s') : s'.Built := by
  intro t b' hget
  obtain ⟨b, hb', hfrom⟩ := h.books t b' hget
  rw [h.config]
  rcases hfrom with rfl | rfl
  · exact hb t b' hb'
  · exact (hb t b hb').stale

theorem Built.setBook {t : Ticker} {b : Book} (h : s.Built)
    (hb : b.FromFrames s.config.useYesPrice) : (s.setBook t b).Built := by
  intro t' b' hget
  rw [Supervisor.setBook, Dict.get?_set] at hget
  split at hget
  · obtain rfl := Option.some.inj hget
    exact hb
  · exact h t' b' hget

theorem leaves_finishResync (s : Supervisor) (sid : Sid) (t : Ticker) :
    Leaves s (s.finishResync sid t) := .of_books rfl rfl

theorem Built.onSnapshot {msg : Except WireError OrderbookSnapshotMsg} {env : Envelope}
    {receipt : Receipt} {image : BookSnapshot} (h : s.Built)
    (hread : readSnapshot msg env receipt s.config.useYesPrice = .ok image) :
    (s.onSnapshot image).Built := by
  have hfinished := h.leaves (leaves_finishResync s image.sid image.ticker)
  rw [Supervisor.onSnapshot]
  dsimp only
  split
  · have hbook : ((s.finishResync image.sid image.ticker).books.getD image.ticker
        (Book.new image.ticker)).FromFrames s.config.useYesPrice := by
      rw [Dict.getD]
      cases hget : (s.finishResync image.sid image.ticker).books.get? image.ticker with
      | none => exact .new image.ticker
      | some b => exact hfinished _ _ hget
    have happlied := hbook.snapshot hread
    split
    · next heq =>
        rw [heq] at happlied
        exact hfinished.setBook happlied
    · next heq =>
        rw [heq] at happlied
        exact hfinished.setBook happlied
  · exact hfinished

theorem Built.onDelta {msg : Except WireError OrderbookDeltaMsg} {env : Envelope}
    {receipt : Receipt} {delta : BookDelta} (h : s.Built)
    (hread : readDelta msg env receipt s.config.useYesPrice = .ok delta) :
    (s.onDelta delta).1.Built := by
  rw [Supervisor.onDelta]
  split
  · split
    · exact h
    · next b hget =>
        have happlied := (h _ b hget).delta hread
        split
        · next book _ heq =>
            rw [heq] at happlied
            have hset : (s.setBook delta.ticker book).bookError.Built := h.setBook happlied
            exact hset.leaves (leaves_requestSnapshot _ _ _)
        · next heq =>
            rw [heq] at happlied
            exact h.setBook happlied
        · next heq =>
            rw [heq] at happlied
            exact h.setBook happlied
  · exact h

theorem leaves_notDecoded (s : Supervisor) (e : ConvertError) : Leaves s (s.notDecoded e).1 := by
  rw [notDecoded.eq_def]
  split
  · exact .refl s
  · exact .of_books rfl rfl

/-- Only the frames that convert change a book. -/
theorem Built.dispatch (h : s.Built) (env : Envelope) (receipt : Receipt) :
    (s.dispatch env receipt).1.Built := by
  rw [Supervisor.dispatch]
  split
  · split
    · exact h.leaves (leaves_notDecoded s _)
    · next hread => exact h.onSnapshot hread
  · split
    · exact h.leaves (leaves_notDecoded s _)
    · next hread => exact h.onDelta hread
  · split
    · exact h.leaves (leaves_notDecoded s _)
    · exact h
  · split
    · exact h.leaves (leaves_notDecoded s _)
    · exact h
  · exact h
  · split
    · exact h
    · exact h
  · split
    · exact h.leaves (leaves_notDecoded s _)
    · exact h
  · exact h

end Supervisor

namespace Conn

open Supervisor (Leaves Pause)

variable {c : Conn}

theorem leaves_release (c : Conn) (owner : Owner) (s : Supervisor) :
    Leaves s (c.release owner s).sup := by
  cases owner with
  | setGroup => exact Supervisor.leaves_pruneBooks s
  | frame => exact .refl s
  | run => exact .refl s

theorem leaves_settle (c : Conn) (owner : Owner) (p : Supervisor × Pause) :
    Leaves p.1 (c.settle owner p).sup := by
  obtain ⟨s, pause⟩ := p
  cases pause with
  | done => exact leaves_release c owner s
  | send work => exact .refl s
  | raise failure => exact .refl s

theorem leaves_sendFailed (c : Conn) (owner : Owner) : Leaves c.sup (c.sendFailed owner).sup := by
  cases owner with
  | setGroup => exact .of_books rfl rfl
  | frame => exact .refl c.sup
  | run => exact .refl c.sup

theorem built_settle {owner : Owner} {s : Supervisor} {p : Supervisor × Pause} (h : s.Built)
    (hp : Leaves s p.1) : (c.settle owner p).sup.Built :=
  h.leaves (hp.trans (leaves_settle c owner p))

theorem built_dispatched (h : c.sup.Built) (env : Envelope) (receipt : Receipt) :
    (c.dispatched env receipt).sup.Built := by
  rw [dispatched_sup]
  exact h.dispatch env receipt

theorem built_receive (h : c.sup.Built) (f : RawFrame) : (c.step (.receive f)).sup.Built := by
  have hreceived := h.leaves (Supervisor.leaves_receiveFrame c.sup f)
  rw [step]
  split
  · split
    · next heq =>
        rw [heq] at hreceived
        exact hreceived
    · next heq =>
        rw [heq] at hreceived
        exact built_dispatched hreceived _ _
    · next heq =>
        rw [heq] at hreceived
        exact hreceived
  · exact h

theorem built_transmit (h : c.sup.Built) : (c.step .transmit).sup.Built := by
  rw [step]
  split
  · split
    · exact h
    · next cmd _ =>
        have hsent := Supervisor.leaves_transmit c.sup cmd
        split
        · next heq =>
            rw [heq] at hsent
            exact h.leaves hsent
        · exact h.leaves (leaves_sendFailed c _)
  · exact h

theorem built_transmitFrame (h : c.sup.Built) : (c.step .transmitFrame).sup.Built := by
  have hsent := Supervisor.leaves_transmit c.sup
  rw [step]
  split
  · next cmd _ =>
      have hcmd := hsent cmd
      split
      · next heq =>
          rw [heq] at hcmd
          exact h.leaves hcmd
      · exact h
  · next cmd _ =>
      have hcmd := hsent cmd
      split
      · next heq =>
          rw [heq] at hcmd
          exact h.leaves hcmd
      · exact h
  · exact h

theorem built_sendReturns (h : c.sup.Built) : (c.step .sendReturns).sup.Built := by
  rw [step]
  split
  · exact h.leaves (leaves_release c _ c.sup)
  · next id _ _ =>
      split
      · exact h
      · next cmd _ =>
          have hput := Supervisor.leaves_put c.sup (.command id cmd)
          exact built_settle h (hput.trans (Supervisor.leaves_afterSend _ _ id))
  · exact h

/-- Whatever happens to a connection, its books are built from frames. -/
theorem built_step (h : c.sup.Built) (e : ConnEvent) : (c.step e).sup.Built := by
  cases e with
  | receive f => exact built_receive h f
  | transmit => exact built_transmit h
  | transmitFrame => exact built_transmitFrame h
  | sendReturns => exact built_sendReturns h
  | start =>
      rw [step]
      split
      · exact built_settle h (Supervisor.leaves_startReconcile c.sup)
      · exact h
  | acquire =>
      rw [step]
      split
      · exact built_settle h (Supervisor.leaves_startReconcile c.sup)
      · exact h
  | acquireFrame =>
      rw [step]
      split
      · split
        · exact built_settle h (Supervisor.leaves_lockedReply c.sup _)
        · exact h
      · exact h
  | sendFails =>
      rw [step]
      split
      · exact h
      · exact h.leaves (leaves_sendFailed c _)
      · exact h
  | frameSendReturns =>
      rw [step]
      split
      · exact built_dispatched (c := { c with sup := c.sup.put _ }) h _ _
      · exact h
      · exact h
  | finish detail =>
      rw [step]
      split
      · split
        · exact h.leaves (Supervisor.leaves_endConnection c.sup detail)
        · exact h
      · exact h
  | _ =>
      rw [step]
      try split
      all_goals exact h

/-- After any run of a connection, its books are built from frames. -/
theorem built_run (config : SupervisorConfig) (es : List ConnEvent) :
    (Run.final step (new config) es).sup.Built := by
  have hnew : (new config).sup.Built := fun t b hget => by cases hget
  have hrun : Run.Throughout step (fun c => c.sup.Built) (new config) es :=
    Run.throughout_of_step (L := fun _ _ => True) (fun _ e hb _ => built_step hb e) hnew
      (Run.along_true _ es)
  exact hrun.last

end Conn

end Tape
