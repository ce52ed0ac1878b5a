import Tape.Bus.Soundness

/-!
# The recorder as the publisher

What a connection does to its books and what it emits on the way is a run of
the publisher, whatever the handler: `Acts` says so, and it is proved for every
handler of the supervisor. With the bus beside it, a recording is therefore a
run of the publisher that started with it (`recording_published`), and the
copies of a consumer of its bus are sound.
-/

namespace Tape

namespace Supervisor

/-- What led from one state to the other is, for books and events, a run of the
publisher within one epoch. -/
def Acts (s s' : Supervisor) : Prop :=
  ∃ ops events, ops.flatMap PublisherOp.epochs = [] ∧ s'.emitted = s.emitted ++ events ∧
    ∀ bus, ((Publisher.mk s.books bus).after ops).books = s'.books ∧
      ((Publisher.mk s.books bus).sent ops).map BusEnvelope.event =
        events.map BusEvent.ofMarket

variable {s s' s'' : Supervisor}

theorem Acts.of_eq (hb : s'.books = s.books) (he : s'.emitted = s.emitted) : Acts s s' :=
  ⟨[], [], rfl, by rw [he, List.append_nil], fun _ => ⟨hb.symm, rfl⟩⟩

theorem Acts.trans (h : Acts s s') (h' : Acts s' s'') : Acts s s'' := by
  obtain ⟨ops, events, hn, he, hrun⟩ := h
  obtain ⟨ops', events', hn', he', hrun'⟩ := h'
  refine ⟨ops ++ ops', events ++ events', ?_, ?_, ?_⟩
  · rw [List.flatMap_append, hn, hn']
    rfl
  · rw [he', he, List.append_assoc]
  · intro bus
    obtain ⟨hb, hs⟩ := hrun bus
    have hmid : (Publisher.mk s.books bus).after ops =
        ⟨s'.books, ((Publisher.mk s.books bus).after ops).bus⟩ := by rw [← hb]
    obtain ⟨hb', hs'⟩ := hrun' ((Publisher.mk s.books bus).after ops).bus
    rw [Publisher.after_append, Publisher.sent_append, List.map_append, List.map_append, hs,
      hmid]
    exact ⟨hb', congrArg _ hs'⟩

/-- One operation of the publisher. -/
theorem Acts.one (o : PublisherOp) (ho : o.epochs = []) (events : List MarketEvent)
    (he : s'.emitted = s.emitted ++ events)
    (hb : ∀ bus, ((Publisher.mk s.books bus).perform o).1.books = s'.books)
    (hs : ∀ bus, ((Publisher.mk s.books bus).perform o).2.toList.map BusEnvelope.event =
      events.map BusEvent.ofMarket) : Acts s s' := by
  refine ⟨[o], events, by simp [ho], he, fun bus => ⟨hb bus, ?_⟩⟩
  rw [Publisher.sent, Publisher.sent, List.append_nil]
  exact hs bus

/-- An event that is about no book. -/
theorem acts_emit (s : Supervisor) (e : MarketEvent) (h : (BusEvent.ofMarket e).isBook = false) :
    Acts s (s.emit e) :=
  Acts.one (.announce ⟨BusEvent.ofMarket e, h⟩) rfl [e] rfl (fun _ => rfl) (fun _ => rfl)

theorem acts_markStale (s : Supervisor) (tickers : Finset Ticker) :
    Acts s (s.markStale tickers) :=
  Acts.one (.markStale tickers) rfl [] (List.append_nil _).symm (fun _ => rfl) (fun _ => rfl)

/-- A book event, applied as the publisher applies it. -/
theorem acts_book {e : BookEvent} {books : Dict Ticker Book} {took : Bool}
    (ha : applyToBooks s.books e = (books, took)) (hb : s'.books = books)
    (he : s'.emitted = s.emitted ++ if took then [e.toMarket] else []) : Acts s s' := by
  refine Acts.one (.book e) rfl _ he ?_ ?_
  · intro bus
    simp only [Publisher.perform, ha, hb]
    cases took <;> rfl
  · intro bus
    simp only [Publisher.perform, ha]
    cases took <;> cases e <;> rfl

theorem acts_onSnapshot (s : Supervisor) (e : BookSnapshot) : Acts s (s.onSnapshot e) := by
  have hbooks : (s.finishResync e.sid e.ticker).books = s.books := rfl
  rw [onSnapshot]
  split
  · rcases h : (s.books.getD e.ticker (Book.new e.ticker)).applySnapshot e.bids e.asks e.tsMs
      with ⟨b, err | ⟨⟩⟩
    · have ha : applyToBooks s.books (.snapshot e) = (s.books.set e.ticker b, false) := by
        simp only [applyToBooks, bookFor, BookEvent.perform, h]
        rfl
      simp only [hbooks, h]
      exact acts_book ha rfl (List.append_nil _).symm
    · have ha : applyToBooks s.books (.snapshot e) = (s.books.set e.ticker b, true) := by
        simp only [applyToBooks, bookFor, BookEvent.perform, h]
        rfl
      simp only [hbooks, h]
      exact acts_book ha rfl rfl
  · exact Acts.of_eq rfl rfl

theorem requestSnapshot_quiet (s : Supervisor) (sid : Sid) (tickers : Finset Ticker) :
    (s.requestSnapshot sid tickers).1.books = s.books ∧
      (s.requestSnapshot sid tickers).1.emitted = s.emitted := by
  rw [requestSnapshot]
  split <;> exact ⟨rfl, rfl⟩

theorem acts_onDelta (s : Supervisor) (e : BookDelta) : Acts s (s.onDelta e).1 := by
  rw [onDelta]
  split
  · cases hget : s.books.get? e.ticker with
    | none => exact Acts.of_eq rfl rfl
    | some book =>
        rcases h : book.applyDelta e.side e.price e.delta e.tsMs with ⟨b, err | applied⟩
        · have ha : applyToBooks s.books (.delta e) = (s.books.set e.ticker b, false) := by
            simp only [applyToBooks, bookFor, BookEvent.perform, hget, h]
            rfl
          obtain ⟨hb, he⟩ :=
            requestSnapshot_quiet ((s.setBook e.ticker b).bookError) e.sid {e.ticker}
          simp only [h]
          exact acts_book ha hb (he.trans (List.append_nil _).symm)
        · have ha : applyToBooks s.books (.delta e) = (s.books.set e.ticker b, applied) := by
            simp only [applyToBooks, bookFor, BookEvent.perform, hget, h]
            rfl
          simp only [h]
          cases applied with
          | true => exact acts_book ha rfl rfl
          | false => exact acts_book ha rfl (List.append_nil _).symm
  · exact Acts.of_eq rfl rfl

/-! ## Frames -/

theorem acts_send (s : Supervisor) (cmd : Command) : Acts s (s.send cmd).1 := by
  rw [send]
  split
  · exact Acts.of_eq rfl rfl
  · split <;> exact Acts.of_eq rfl rfl

theorem acts_sendRequest (s : Supervisor) (request : Option Command) :
    Acts s (s.sendRequest request).1 := by
  cases request with
  | none => exact Acts.of_eq rfl rfl
  | some cmd =>
      have h := s.acts_send cmd
      rw [sendRequest]
      split <;> next heq => rwa [heq] at h

theorem acts_requestSnapshot (s : Supervisor) (sid : Sid) (tickers : Finset Ticker) :
    Acts s (s.requestSnapshot sid tickers).1 :=
  Acts.of_eq (s.requestSnapshot_quiet sid tickers).1 (s.requestSnapshot_quiet sid tickers).2

theorem acts_resyncConnection (s : Supervisor) (sid : Sid) (askAgain : Bool) :
    Acts s (s.resyncConnection sid askAgain).1 := by
  rw [resyncConnection]
  split
  · exact Acts.of_eq rfl rfl
  · split
    · next g _ _ =>
        refine (s.acts_markStale g.tickers).trans (Acts.trans ?_ (acts_requestSnapshot _ _ _))
        split <;> exact Acts.of_eq rfl rfl
    · exact Acts.of_eq rfl rfl

theorem acts_reportGap (s : Supervisor) (sid : Sid) (expected got : Int) (receipt : Receipt) :
    Acts s (s.reportGap sid expected got receipt) :=
  (Acts.of_eq rfl rfl : Acts s (Supervisor.put { s with
    stats := { s.stats with gaps := s.stats.gaps + 1 } }
      (.gap receipt.connId receipt.recvMonoNs receipt.recvWallNs sid expected got))).trans
    (acts_emit _ _ rfl)

theorem acts_checkSequence (s : Supervisor) (env : Envelope) (receipt : Receipt) :
    Acts s (s.checkSequence env receipt).1 := by
  rw [checkSequence]
  split
  · exact Acts.of_eq rfl rfl
  · next sid _ =>
      have hjudged : Acts s { s with tracker := (s.judgeFrame sid env).1 } := Acts.of_eq rfl rfl
      simp only
      split
      · exact hjudged.trans ((acts_reportGap _ _ _ _ _).trans (acts_resyncConnection _ _ _))
      · refine hjudged.trans (Acts.trans ?_ (acts_resyncConnection _ _ _))
        exact Acts.of_eq rfl rfl
      · exact hjudged

theorem acts_notDecoded (s : Supervisor) (e : ConvertError) : Acts s (s.notDecoded e).1 := by
  rw [notDecoded.eq_def]
  split <;> exact Acts.of_eq rfl rfl

theorem acts_dispatch (s : Supervisor) (env : Envelope) (receipt : Receipt) :
    Acts s (s.dispatch env receipt).1 := by
  rw [dispatch]
  split
  · split
    · exact acts_notDecoded _ _
    · exact acts_onSnapshot _ _
  · split
    · exact acts_notDecoded _ _
    · exact acts_onDelta _ _
  · split
    · exact acts_notDecoded _ _
    · exact acts_emit _ _ rfl
  · split
    · exact acts_notDecoded _ _
    · exact Acts.of_eq rfl rfl
  · exact Acts.of_eq rfl rfl
  · split <;> exact Acts.of_eq rfl rfl
  · split
    · exact acts_notDecoded _ _
    · exact Acts.of_eq rfl rfl
  · exact Acts.of_eq rfl rfl

theorem acts_receiveFrame (s : Supervisor) (f : RawFrame) : Acts s (s.receiveFrame f).1 := by
  have hcount : Acts s (s.countFrame f) := Acts.of_eq rfl rfl
  rw [receiveFrame]
  split
  · exact hcount.trans (Acts.of_eq rfl rfl)
  · exact hcount.trans (acts_checkSequence _ _ _)

/-! ## Subscriptions -/

theorem acts_adoptMembership (s : Supervisor) (groupId : String) (sid : Sid) (channel : String)
    (marketTickers : Option (List Ticker)) :
    Acts s (s.adoptMembership groupId sid channel marketTickers).1 := by
  rw [adoptMembership.eq_def]
  split
  · split
    · exact Acts.of_eq rfl rfl
    · simp only
      split
      · split <;> exact Acts.of_eq rfl rfl
      · refine Acts.trans ?_ (acts_requestSnapshot _ _ _)
        split <;> exact Acts.of_eq rfl rfl
  · exact Acts.of_eq rfl rfl

theorem acts_withLock (s : Supervisor) (env : Envelope) : Acts s (s.withLock env).1 := by
  rw [withLock.eq_def]
  split
  · simp only
    split
    · exact Acts.of_eq rfl rfl
    · split <;> exact Acts.of_eq rfl rfl
  · split
    · exact Acts.of_eq rfl rfl
    · split
      · split
        · exact Acts.of_eq rfl rfl
        · split
          · exact Acts.of_eq rfl rfl
          · split
            · exact Acts.of_eq rfl rfl
            · refine Acts.trans ?_ (acts_adoptMembership _ _ _ _ _)
              exact Acts.of_eq rfl rfl
      · exact Acts.of_eq rfl rfl
  · split
    · exact Acts.of_eq rfl rfl
    · split
      · exact Acts.of_eq rfl rfl
      · simp only
        split
        · exact Acts.of_eq rfl rfl
        · split <;> exact Acts.of_eq rfl rfl
  · exact Acts.of_eq rfl rfl

/-- The books of the markets no longer wanted are let go, the others of the
group only staled. -/
theorem acts_releaseBooks (s : Supervisor) (tickers : Finset Ticker) :
    Acts s (s.releaseBooks tickers) := by
  refine ⟨[.release (tickers \ tickersOf s.desired), .markStale tickers], [], rfl,
    (List.append_nil _).symm, fun bus => ⟨?_, rfl⟩⟩
  have hfilter : (s.books.filter fun t _ => decide (t ∉ tickers \ tickersOf s.desired)) =
      s.books.filter fun t _ => !decide (t ∈ tickers ∧ t ∉ tickersOf s.desired) := by
    congr 1
    funext t _
    simp
  change (s.books.filter fun t _ => decide (t ∉ tickers \ tickersOf s.desired)).mapValues
    (fun t b => if t ∈ tickers then b.markStale else b) = (s.releaseBooks tickers).books
  rw [hfilter]
  rfl

theorem acts_pruneBooks (s : Supervisor) : Acts s s.pruneBooks := by
  refine ⟨[.release (s.books.keys.toFinset \ (tickersOf s.desired ∪ tickersOf s.applied))], [],
    rfl, (List.append_nil _).symm, fun bus => ⟨?_, rfl⟩⟩
  change (s.books.filter fun t _ => decide
      (t ∉ s.books.keys.toFinset \ (tickersOf s.desired ∪ tickersOf s.applied))) =
    s.books.filter fun t _ => decide (t ∈ tickersOf s.desired ∪ tickersOf s.applied)
  refine Dict.filter_congr fun e he => ?_
  have hmem : e.1 ∈ s.books.keys := List.mem_map_of_mem he
  by_cases hd : e.1 ∈ tickersOf s.desired <;> by_cases ha : e.1 ∈ tickersOf s.applied <;>
    simp [hmem, hd, ha]

theorem acts_recordChange (s : Supervisor) (change : PlanChange) :
    Acts s (s.recordChange change).1 := by
  cases change with
  | addGroup group => exact Acts.of_eq rfl rfl
  | removeGroup groupId =>
      rw [recordChange]
      split
      · exact Acts.of_eq rfl rfl
      · split
        · exact Acts.of_eq rfl rfl
        · refine Acts.trans ?_ (acts_releaseBooks _ _)
          exact Acts.of_eq rfl rfl
  | addMarkets groupId tickers =>
      rw [recordChange]
      split
      · exact Acts.of_eq rfl rfl
      · split <;> exact Acts.of_eq rfl rfl
  | removeMarkets groupId tickers =>
      rw [recordChange]
      split
      · exact Acts.of_eq rfl rfl
      · split
        · exact Acts.of_eq rfl rfl
        · refine Acts.trans ?_ (acts_releaseBooks _ _)
          exact Acts.of_eq rfl rfl

theorem acts_afterCommand (s : Supervisor) (piece : PlanChange) (commandId : Int) :
    Acts s (s.afterCommand piece commandId) := by
  cases piece <;> exact Acts.of_eq rfl rfl

theorem acts_sendPiece (s : Supervisor) (piece : PlanChange) (commands : List Command) :
    Acts s (s.sendPiece piece commands).1 := by
  induction commands generalizing s with
  | nil => exact acts_recordChange s piece
  | cons cmd rest ih =>
      have hsend := s.acts_send cmd
      rw [sendPiece]
      split
      · next heq => rwa [heq] at hsend
      · next s' id heq =>
          rw [heq] at hsend
          exact hsend.trans ((acts_afterCommand s' piece id).trans (ih _))

theorem acts_reconcilePieces (s : Supervisor) (pieces : List PlanChange) :
    Acts s (s.reconcilePieces pieces).1 := by
  induction pieces generalizing s with
  | nil => exact Acts.of_eq rfl rfl
  | cons piece later ih =>
      rw [reconcilePieces]
      split
      · exact Acts.of_eq rfl rfl
      · split
        · exact Acts.of_eq rfl rfl
        · next commands _ =>
            have hsend := s.acts_sendPiece piece commands
            split
            · next heq => rwa [heq] at hsend
            · next s' heq =>
                rw [heq] at hsend
                exact hsend.trans (ih s')

theorem acts_reconcileLocked (s : Supervisor) : Acts s s.reconcileLocked.1 := by
  have hguard : Acts s s.reconcileGuard.1 := by
    rw [reconcileGuard]
    split
    · exact Acts.of_eq rfl rfl
    · split
      · exact Acts.of_eq rfl rfl
      · split <;> exact Acts.of_eq rfl rfl
  rw [reconcileLocked]
  split
  · next heq => rwa [heq] at hguard
  · next s' heq =>
      rw [heq] at hguard
      refine hguard.trans ?_
      split
      · have hsend := acts_send { s' with firehoseRequested := true }
          (.subscribe s'.config.firehoseChannels none none)
        have hflag : Acts s' { s' with firehoseRequested := true } := Acts.of_eq rfl rfl
        split
        · next hsent =>
            rw [hsent] at hsend
            exact hflag.trans hsend
        · next s'' id hsent =>
            rw [hsent] at hsend
            refine hflag.trans (hsend.trans (Acts.trans ?_ (acts_reconcilePieces _ _)))
            exact Acts.of_eq rfl rfl
      · exact acts_reconcilePieces _ _

theorem acts_resumeReconcile (s : Supervisor) : Acts s s.resumeReconcile.1 := by
  rw [resumeReconcile]
  split
  · refine Acts.trans ?_ (acts_reconcileLocked _)
    exact Acts.of_eq rfl rfl
  · exact Acts.of_eq rfl rfl

theorem acts_onReply (s : Supervisor) (env : Envelope) : Acts s (s.onReply env).1 := by
  have hlock := s.acts_withLock env
  rw [onReply]
  split
  · next heq => rwa [heq] at hlock
  · next s' request heq =>
      rw [heq] at hlock
      have hsend := s'.acts_sendRequest request
      split
      · next hsent =>
          rw [hsent] at hsend
          exact hlock.trans hsend
      · next hsent =>
          rw [hsent] at hsend
          exact hlock.trans (hsend.trans (acts_resumeReconcile _))

theorem acts_handle (s : Supervisor) (env : Envelope) (receipt : Receipt) :
    Acts s (s.handle env receipt).1 := by
  have hdispatch := s.acts_dispatch env receipt
  rw [handle]
  split
  · next heq => rwa [heq] at hdispatch
  · next s' cmd heq =>
      rw [heq] at hdispatch
      exact hdispatch.trans (acts_sendRequest s' (some cmd))
  · next s' heq =>
      rw [heq] at hdispatch
      exact hdispatch.trans (acts_onReply s' env)
  · next heq => rwa [heq] at hdispatch

/-- A frame, whatever it is. -/
theorem acts_onFrame (s : Supervisor) (f : RawFrame) : Acts s (s.onFrame f).1 := by
  have hreceive := s.acts_receiveFrame f
  rw [onFrame]
  split
  · next heq => rwa [heq] at hreceive
  · next s' env request heq =>
      rw [heq] at hreceive
      have hsend := s'.acts_sendRequest request
      split
      · next hsent =>
          rw [hsent] at hsend
          exact hreceive.trans hsend
      · next s'' hsent =>
          rw [hsent] at hsend
          exact hreceive.trans (hsend.trans (acts_handle s'' env _))

theorem acts_endConnection (s : Supervisor) (detail : String) :
    Acts s (s.endConnection detail) := by
  refine ⟨[.markStale s.books.keys.toFinset], [], rfl, (List.append_nil _).symm,
    fun bus => ⟨?_, rfl⟩⟩
  change (s.books.mapValues fun t b => if t ∈ s.books.keys.toFinset then b.markStale else b) =
    s.books.mapValues fun _ b => b.markStale
  refine Dict.mapValues_congr fun e he => if_pos ?_
  exact List.mem_toFinset.mpr (List.mem_map_of_mem he)

/-- `set_group`, for a connection it is given the right group for. -/
def setGroup (s : Supervisor) (group : Option Group) : Supervisor :=
  { s with desired := group }.reconcileLocked.1.pruneBooks

theorem acts_setGroup (s : Supervisor) (group : Option Group) : Acts s (s.setGroup group) := by
  have hdesired : Acts s { s with desired := group } := Acts.of_eq rfl rfl
  exact hdesired.trans ((acts_reconcileLocked _).trans (acts_pruneBooks _))

theorem acts_beginConnection (s : Supervisor) : Acts s s.beginConnection.reconcileLocked.1 := by
  have hbegin : Acts s s.beginConnection := Acts.of_eq rfl rfl
  exact hbegin.trans (acts_reconcileLocked _)

end Supervisor

/-! ## A recording, with its bus -/

/-- Events published one after the other. -/
def SequencedPublisher.publishAll (bus : SequencedPublisher) :
    List BusEvent → SequencedPublisher × List BusEnvelope
  | [] => (bus, [])
  | event :: events =>
      let (bus, envelope) := bus.publish event
      let (bus, envelopes) := publishAll bus events
      (bus, envelope :: envelopes)

/-- Within an epoch, the messages of a run are its events, numbered. -/
theorem publishAll_sent (p : Publisher) {ops : List PublisherOp}
    (h : ops.flatMap PublisherOp.epochs = []) :
    p.bus.publishAll ((p.sent ops).map BusEnvelope.event) = ((p.after ops).bus, p.sent ops) := by
  induction ops generalizing p with
  | nil => rfl
  | cons o ops ih =>
      obtain ⟨ho, hops⟩ := List.append_eq_nil_iff.mp h
      have hone : (p.perform o).1.bus = p.bus ∧ (p.perform o).2 = none ∨
          ∃ e, (p.perform o).1.bus = (p.bus.publish e).1 ∧
            (p.perform o).2 = some (p.bus.publish e).2 := by
        cases o with
        | book e =>
            rw [Publisher.perform]
            split
            · exact .inr ⟨.book e, rfl, rfl⟩
            · exact .inl ⟨rfl, rfl⟩
        | refresh ticker receipt =>
            rw [Publisher.perform]
            split
            · exact .inl ⟨rfl, rfl⟩
            · exact .inr ⟨_, rfl, rfl⟩
        | announce notice => exact .inr ⟨notice.val, rfl, rfl⟩
        | restart epoch => cases ho
        | markStale tickers => exact .inl ⟨rfl, rfl⟩
        | release tickers => exact .inl ⟨rfl, rfl⟩
      have hrest := ih (p.perform o).1 hops
      rw [Publisher.sent, List.map_append]
      change _ = (((p.perform o).1.after ops).bus, _)
      rcases hone with ⟨hbus, hnone⟩ | ⟨e, hbus, hsome⟩
      · rw [hbus] at hrest
        rw [hnone]
        exact hrest
      · rw [hbus] at hrest
        rw [hsome]
        change (_, _ :: _) = _
        exact congrArg (fun r : SequencedPublisher × List BusEnvelope =>
          (r.1, (p.bus.publish e).2 :: r.2)) hrest

/-- A connection and the bus beside it. -/
structure BusRecorder where
  sup : Supervisor
  bus : SequencedPublisher

/-- What happens to the recorder of one connection. -/
inductive RecorderOp where
  | connect
  | frame (f : RawFrame)
  | setGroup (group : Option Group)
  | disconnect (detail : String)
  | refresh (ticker : Ticker) (receipt : Receipt)
  | announce (notice : Notice)

namespace BusRecorder

/-- A recorder that just started. -/
def new (config : SupervisorConfig) (epoch : Nat) : BusRecorder :=
  ⟨Supervisor.new config, SequencedPublisher.new epoch⟩

/-- A handler ran: what it emitted is published. -/
def publishEmitted (r : BusRecorder) (sup : Supervisor) : BusRecorder × List BusEnvelope :=
  let events := sup.emitted.drop r.sup.emitted.length
  let (bus, envelopes) := r.bus.publishAll (events.map BusEvent.ofMarket)
  (⟨sup, bus⟩, envelopes)

/-- One operation, and what it publishes. -/
def perform (r : BusRecorder) : RecorderOp → BusRecorder × List BusEnvelope
  | .connect => r.publishEmitted r.sup.beginConnection.reconcileLocked.1
  | .frame f => r.publishEmitted (r.sup.onFrame f).1
  | .setGroup group => r.publishEmitted (r.sup.setGroup group)
  | .disconnect detail => r.publishEmitted (r.sup.endConnection detail)
  | .refresh ticker receipt =>
      match r.sup.books.get? ticker with
      | none => (r, [])
      | some book =>
          let (bus, envelope) := r.bus.publish (.refresh (refreshOf ticker receipt book))
          ({ r with bus }, [envelope])
  | .announce notice =>
      let (bus, envelope) := r.bus.publish notice.val
      ({ r with bus }, [envelope])

/-- The recorder after some operations. -/
def after (r : BusRecorder) (ops : List RecorderOp) : BusRecorder :=
  Run.final (fun r o => (r.perform o).1) r ops

/-- What it published in them. -/
def sent (r : BusRecorder) : List RecorderOp → List BusEnvelope
  | [] => []
  | o :: ops => (r.perform o).2 ++ sent (r.perform o).1 ops

/-- The publisher a recorder is. -/
def publisher (r : BusRecorder) : Publisher := ⟨r.sup.books, r.bus⟩

theorem publishEmitted_acts (r : BusRecorder) {sup : Supervisor} (h : r.sup.Acts sup) :
    ∃ ops, ops.flatMap PublisherOp.epochs = [] ∧
      r.publisher.after ops = (r.publishEmitted sup).1.publisher ∧
      r.publisher.sent ops = (r.publishEmitted sup).2 := by
  obtain ⟨ops, events, hn, he, hrun⟩ := h
  obtain ⟨hbooks, hsent⟩ := hrun r.bus
  have hdrop : sup.emitted.drop r.sup.emitted.length = events := by
    rw [he, List.drop_left]
  have hnumbers := publishAll_sent r.publisher hn
  have hevents : (r.publisher.sent ops).map BusEnvelope.event = events.map BusEvent.ofMarket :=
    hsent
  rw [hevents] at hnumbers
  refine ⟨ops, hn, ?_, ?_⟩
  · rw [publishEmitted, hdrop]
    change Publisher.mk (r.publisher.after ops).books (r.publisher.after ops).bus =
      ⟨sup.books, (r.publisher.bus.publishAll (events.map BusEvent.ofMarket)).1⟩
    rw [hnumbers]
    exact congrArg (Publisher.mk · _) hbooks
  · rw [publishEmitted, hdrop]
    exact (congrArg Prod.snd hnumbers).symm

/-- One step of a recording is a run of the publisher. -/
theorem perform_publisher (r : BusRecorder) (o : RecorderOp) :
    ∃ ops, ops.flatMap PublisherOp.epochs = [] ∧
      r.publisher.after ops = (r.perform o).1.publisher ∧
      r.publisher.sent ops = (r.perform o).2 := by
  cases o with
  | connect => exact r.publishEmitted_acts r.sup.acts_beginConnection
  | frame f => exact r.publishEmitted_acts (r.sup.acts_onFrame f)
  | setGroup group => exact r.publishEmitted_acts (r.sup.acts_setGroup group)
  | disconnect detail => exact r.publishEmitted_acts (r.sup.acts_endConnection detail)
  | refresh ticker receipt =>
      refine ⟨[.refresh ticker receipt], rfl, ?_⟩
      have hone : r.publisher.perform (.refresh ticker receipt) =
          ((r.perform (.refresh ticker receipt)).1.publisher,
            (r.perform (.refresh ticker receipt)).2.head?) := by
        rw [Publisher.perform, perform]
        change (match r.sup.books.get? ticker with
          | none => (r.publisher, none)
          | some book => r.publisher.publish (.refresh (refreshOf ticker receipt book))) = _
        cases r.sup.books.get? ticker <;> rfl
      refine ⟨congrArg Prod.fst hone, ?_⟩
      rw [Publisher.sent, Publisher.sent, hone, perform]
      cases r.sup.books.get? ticker <;> rfl
  | announce notice => exact ⟨[.announce notice], rfl, rfl, rfl⟩

/-- A recording is a run of the publisher. -/
theorem recording_published (r : BusRecorder) (ops : List RecorderOp) :
    ∃ pops, pops.flatMap PublisherOp.epochs = [] ∧
      r.publisher.after pops = (r.after ops).publisher ∧ r.publisher.sent pops = r.sent ops := by
  induction ops generalizing r with
  | nil => exact ⟨[], rfl, rfl, rfl⟩
  | cons o ops ih =>
      obtain ⟨first, hn, hafter, hsent⟩ := r.perform_publisher o
      obtain ⟨rest, hn', hafter', hsent'⟩ := ih (r.perform o).1
      refine ⟨first ++ rest, ?_, ?_, ?_⟩
      · rw [List.flatMap_append, hn, hn']
        rfl
      · rw [Publisher.after_append, hafter]
        exact hafter'
      · rw [Publisher.sent_append, hafter, hsent, hsent']
        rfl

/-- A consumer of the recorder's bus that has observed its last message holds
sound copies, whatever it missed before. -/
theorem recording_sound (config : SupervisorConfig) (epoch : Nat) (ops : List RecorderOp)
    (heard : List BusEnvelope) (hheard : heard.Sublist ((new config epoch).sent ops))
    (hepoch : (LiveBooks.new.observeAll heard).1.epoch = some epoch)
    (hlast : (LiveBooks.new.observeAll heard).1.lastSeq =
      some ((new config epoch).after ops).bus.lastSeq) :
    ∃ pops, (LiveBooks.new.observeAll heard).1.Sound pops ((new config epoch).sent ops) heard
      ((new config epoch).after ops).publisher := by
  obtain ⟨pops, hn, hafter, hsent⟩ := (new config epoch).recording_published ops
  have hafter' : (Publisher.new epoch).after pops = ((new config epoch).after ops).publisher :=
    hafter
  have hsent' : (Publisher.new epoch).sent pops = (new config epoch).sent ops := hsent
  have hone : epochsOf epoch pops = [epoch] := by rw [epochsOf, hn]
  have hnew : (epochsOf epoch pops).Nodup := by
    rw [hone]
    exact List.nodup_singleton epoch
  rw [← hsent'] at hheard
  have htracks := tracks_of_sublist hnew hheard
  rw [hafter'] at htracks
  have hbus : ((new config epoch).after ops).publisher.bus.epoch = epoch := by
    have hmem := htracks.epoch
    rw [hone] at hmem
    exact List.mem_singleton.mp hmem
  refine ⟨pops, ?_⟩
  rw [← hsent']
  exact htracks.sound (htracks.current (by rw [hbus]; exact hepoch) hlast)

end BusRecorder

end Tape
