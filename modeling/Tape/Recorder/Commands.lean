import Tape.Recorder.Freshness

/-!
# What a connection sends and asks for

A command leaves at two events, the holder's `transmit` and the frame task's
`transmitFrame`; `departs` is what leaves at an event, and no other event
changes what has been sent (`step_sent`). What the frame task sends is a
request for snapshots, and so is what a merge sends: `receiveFrame_asks`,
`dispatch_asks` and `withLock_asks` say for which markets.
-/

namespace Tape

/-! ## What leaves -/

namespace Supervisor

/-- A command that leaves, with its id. -/
def departs (s : Supervisor) (cmd : Command) : List (Int × Command) :=
  match (s.transmit cmd).2 with
  | some id => [(id, cmd)]
  | none => []

variable {s : Supervisor}

theorem transmit_sent (cmd : Command) :
    (s.transmit cmd).1.sent = s.sent ++ s.departs cmd := by
  rw [departs, transmit]
  cases s.session with
  | none => simp
  | some session => cases h : session.isOpen <;> simp [h]

theorem requestSnapshot_sent (sid : Sid) (tickers : Finset Ticker) :
    (s.requestSnapshot sid tickers).1.sent = s.sent := by
  rw [requestSnapshot]
  split <;> rfl

theorem resyncConnection_sent (sid : Sid) (askAgain : Bool) :
    (s.resyncConnection sid askAgain).1.sent = s.sent := by
  rw [resyncConnection]
  split
  · rfl
  · split
    · rw [requestSnapshot_sent]
      split <;> rfl
    · rfl

theorem checkSequence_sent (env : Envelope) (receipt : Receipt) :
    (s.checkSequence env receipt).1.sent = s.sent := by
  rw [checkSequence]
  split
  · rfl
  · simp only
    split
    · exact resyncConnection_sent _ _
    · exact resyncConnection_sent _ _
    · rfl

theorem receiveFrame_sent (f : RawFrame) : (s.receiveFrame f).1.sent = s.sent := by
  rw [receiveFrame]
  split
  · rfl
  · exact checkSequence_sent _ _

theorem notDecoded_sent (e : ConvertError) : (s.notDecoded e).1.sent = s.sent := by
  rw [notDecoded.eq_def]
  split <;> rfl

theorem onSnapshot_sent (e : BookSnapshot) : (s.onSnapshot e).sent = s.sent := by
  rw [onSnapshot]
  split
  · simp only
    split <;> rfl
  · rfl

theorem onDelta_sent (e : BookDelta) : (s.onDelta e).1.sent = s.sent := by
  rw [onDelta]
  split
  · split
    · rfl
    · split
      · exact requestSnapshot_sent _ _
      · rfl
      · rfl
  · rfl

theorem dispatch_sent (env : Envelope) (receipt : Receipt) :
    (s.dispatch env receipt).1.sent = s.sent := by
  rw [dispatch]
  split
  · split
    · exact notDecoded_sent _
    · exact onSnapshot_sent _
  · split
    · exact notDecoded_sent _
    · exact onDelta_sent _
  · split
    · exact notDecoded_sent _
    · rfl
  · split
    · exact notDecoded_sent _
    · rfl
  · rfl
  · split <;> rfl
  · split
    · exact notDecoded_sent _
    · rfl
  · rfl

theorem recordChange_sent (piece : PlanChange) : (s.recordChange piece).1.sent = s.sent := by
  cases piece with
  | addGroup g => rfl
  | removeGroup id =>
      rw [recordChange]
      split
      · rfl
      · split <;> rfl
  | addMarkets id tickers =>
      rw [recordChange]
      split
      · rfl
      · split <;> rfl
  | removeMarkets id tickers =>
      rw [recordChange]
      split
      · rfl
      · split <;> rfl

theorem nextPiece_sent (pieces : List PlanChange) : (s.nextPiece pieces).1.sent = s.sent := by
  induction pieces generalizing s with
  | nil => rfl
  | cons piece later ih =>
      rw [nextPiece]
      split
      · rfl
      · split
        · rfl
        · rfl
        · have hrecord := s.recordChange_sent piece
          split
          · next h => rw [h] at hrecord; exact hrecord
          · next h =>
              rw [h] at hrecord
              rw [ih]
              exact hrecord

theorem startReconcile_sent : s.startReconcile.1.sent = s.sent := by
  have hguard : s.reconcileGuard.1.sent = s.sent := by
    rw [reconcileGuard]
    split
    · rfl
    · split
      · rfl
      · split <;> rfl
  rw [startReconcile]
  split
  · next h => rw [h] at hguard; exact hguard
  · next h =>
      rw [h] at hguard
      split
      · exact hguard
      · rw [nextPiece_sent]
        exact hguard

theorem resume_sent : s.resume.1.sent = s.sent := by
  rw [resume]
  split
  · exact startReconcile_sent
  · rfl

theorem afterCommand_sent (piece : PlanChange) (id : Int) :
    (s.afterCommand piece id).sent = s.sent := by
  cases piece <;> rfl

theorem afterSend_sent (work : Work) (id : Int) : (s.afterSend work id).1.sent = s.sent := by
  rcases work with cmd | _ | ⟨piece, cmd, rest, later⟩ | _
  · exact resume_sent
  · exact nextPiece_sent _
  · cases rest with
    | nil =>
        have hrecord := (s.afterCommand piece id).recordChange_sent piece
        rw [afterCommand_sent] at hrecord
        rw [afterSend]
        split
        · next h => rw [h] at hrecord; exact hrecord
        · next h =>
            rw [h] at hrecord
            rw [nextPiece_sent]
            exact hrecord
    | cons next rest => exact afterCommand_sent piece id
  · rfl

theorem adoptMembership_sent (groupId : String) (sid : Sid) (channel : String)
    (marketTickers : Option (List Ticker)) :
    (s.adoptMembership groupId sid channel marketTickers).1.sent = s.sent := by
  rw [adoptMembership.eq_def]
  split
  · split
    · rfl
    · simp only
      split
      · split <;> rfl
      · rw [requestSnapshot_sent]
        split <;> rfl
  · rfl

theorem withLock_sent (env : Envelope) : (s.withLock env).1.sent = s.sent := by
  rw [withLock.eq_def]
  split
  · simp only
    split
    · rfl
    · split <;> rfl
  · split
    · rfl
    · split
      · split
        · rfl
        · split
          · rfl
          · split
            · rfl
            · exact adoptMembership_sent _ _ _ _
      · rfl
  · split
    · rfl
    · split
      · rfl
      · simp only
        split
        · rfl
        · split <;> rfl
  · rfl

theorem lockedReply_sent (env : Envelope) : (s.lockedReply env).1.sent = s.sent := by
  have hlock := s.withLock_sent env
  rw [lockedReply]
  split
  · next h => rw [h] at hlock; exact hlock
  · next h =>
      rw [h] at hlock
      rw [resume_sent]
      exact hlock
  · next h => rw [h] at hlock; exact hlock

end Supervisor

/-! ## What is asked for -/

namespace Supervisor

/-- The markets a frame of an orderbook subscription concerns: after a gap the
whole group, after a repeated number those that are not awaited. -/
def concerned (s : Supervisor) (sid : Sid) (env : Envelope) : Finset Ticker :=
  match (s.judgeFrame sid env).2 with
  | .gap _ _ => tickersOf s.applied
  | .duplicate _ _ => tickersOf s.applied \ s.resyncing.getD sid ∅
  | _ => ∅

/-- The markets a merge concerns: those it reports that are desired, are not
fresh and are not awaited. -/
def unfresh (s : Supervisor) (sid : Sid) (tickers : List Ticker) : Finset Ticker :=
  ((tickers.toFinset ∩ tickersOf s.desired).filter fun t => !s.fresh t) \ s.resyncing.getD sid ∅

variable {s : Supervisor} {cmd : Command}

theorem requestSnapshot_asks {sid : Sid} {tickers : Finset Ticker}
    (h : (s.requestSnapshot sid tickers).2 = some cmd) :
    tickers \ s.resyncing.getD sid ∅ ≠ ∅ ∧
      cmd = .updateSubscription sid .getSnapshot
        (sortedTickers (tickers \ s.resyncing.getD sid ∅)) := by
  rw [requestSnapshot] at h
  split at h
  · cases h
  · next hne => exact ⟨hne, (Option.some.inj h).symm⟩

theorem resyncConnection_asks {sid : Sid} {askAgain : Bool}
    (h : (s.resyncConnection sid askAgain).2 = some cmd) :
    s.isBookSid sid = true ∧
      ∃ wanted, wanted = (if askAgain then tickersOf s.applied
          else tickersOf s.applied \ s.resyncing.getD sid ∅) ∧
        wanted ≠ ∅ ∧ cmd = .updateSubscription sid .getSnapshot (sortedTickers wanted) := by
  rw [resyncConnection] at h
  split at h
  · cases h
  · next g hg =>
      split at h
      · next hsid =>
          refine ⟨hsid, _, rfl, ?_⟩
          rw [hg]
          obtain ⟨hne, hcmd⟩ := requestSnapshot_asks h
          cases askAgain with
          | false => exact ⟨hne, hcmd⟩
          | true =>
              have hnone : (((s.markStale g.tickers).popResyncing sid).resyncing.getD sid ∅ :
                  Finset Ticker) = ∅ := by
                rw [popResyncing, Dict.getD, Dict.get?_erase_self]
                rfl
              rw [if_pos rfl, hnone, Finset.sdiff_empty] at hne hcmd
              exact ⟨hne, hcmd⟩
      · cases h

/-- A frame asks for the markets it concerns, each once. -/
theorem receiveFrame_asks {f : RawFrame} {env : Envelope}
    (h : (s.receiveFrame f).2 = some (env, some cmd)) :
    ∃ sid, f.payload = .ok env ∧ env.sid = some sid ∧ s.isBookSid sid = true ∧
      s.concerned sid env ≠ ∅ ∧
      cmd = .updateSubscription sid .getSnapshot (sortedTickers (s.concerned sid env)) := by
  rw [receiveFrame] at h
  split at h
  · cases h
  · next env' hpayload =>
      obtain ⟨rfl, hcheck⟩ := Prod.mk.inj (Option.some.inj h)
      rw [checkSequence] at hcheck
      split at hcheck
      · cases hcheck
      · next sid hsid =>
          have hjudge : (s.countFrame f).judgeFrame sid env' = s.judgeFrame sid env' := rfl
          rw [hjudge] at hcheck
          simp only at hcheck
          split at hcheck
          · next hv =>
              obtain ⟨hbook, wanted, hw, hne, hcmd⟩ := resyncConnection_asks hcheck
              obtain rfl : wanted = s.concerned sid env' := by rw [concerned, hv]; exact hw
              exact ⟨sid, hpayload, hsid, hbook, hne, hcmd⟩
          · next hv =>
              obtain ⟨hbook, wanted, hw, hne, hcmd⟩ := resyncConnection_asks hcheck
              obtain rfl : wanted = s.concerned sid env' := by rw [concerned, hv]; exact hw
              exact ⟨sid, hpayload, hsid, hbook, hne, hcmd⟩
          · cases hcheck

/-- A delta that fails asks for its market. -/
theorem dispatch_asks {env : Envelope} {receipt : Receipt}
    (h : (s.dispatch env receipt).2 = .send cmd) :
    ∃ sid t, cmd = .updateSubscription sid .getSnapshot [t] := by
  have hnot : ∀ e, (s.notDecoded e).2 ≠ .send cmd := by
    intro e he
    rw [notDecoded.eq_def] at he
    split at he <;> cases he
  have hdelta : ∀ e, Wait.ofRequest (s.onDelta e).2 = .send cmd →
      ∃ sid t, cmd = .updateSubscription sid .getSnapshot [t] := by
    intro e he
    rw [onDelta] at he
    split at he
    · split at he
      · cases he
      · split at he
        · next book _ _ =>
            cases hr : ((s.setBook e.ticker book).bookError.requestSnapshot e.sid {e.ticker}).2 with
            | none => rw [hr] at he; cases he
            | some cmd' =>
                rw [hr] at he
                obtain rfl := Wait.send.inj he
                obtain ⟨hne, hcmd⟩ := requestSnapshot_asks hr
                have hsub : ({e.ticker} : Finset Ticker) \
                    (s.setBook e.ticker book).bookError.resyncing.getD e.sid ∅ = {e.ticker} := by
                  refine (Finset.subset_singleton_iff.mp Finset.sdiff_subset).resolve_left ?_
                  exact hne
                rw [hsub] at hcmd
                exact ⟨e.sid, e.ticker, hcmd⟩
        · cases he
        · cases he
    · cases he
  rw [dispatch] at h
  split at h
  · split at h
    · exact absurd h (hnot _)
    · cases h
  · split at h
    · exact absurd h (hnot _)
    · exact hdelta _ h
  · split at h
    · exact absurd h (hnot _)
    · cases h
  · split at h
    · exact absurd h (hnot _)
    · cases h
  · cases h
  · split at h <;> cases h
  · split at h
    · exact absurd h (hnot _)
    · simp only at h
      split at h <;> cases h
  · cases h

/-- A merge asks for the markets it concerns, each once. -/
theorem withLock_asks {env : Envelope} (h : (s.withLock env).2 = .resume (some cmd)) :
    ∃ p sid msg tickers, s.answering env = some (p, sid, orderbookChannel) ∧
      env.body = .ok (.ok msg) ∧ msg.marketTickers = some tickers ∧
      s.appliedId = some p.groupId ∧ s.unfresh sid tickers ≠ ∅ ∧
      cmd = .updateSubscription sid .getSnapshot (sortedTickers (s.unfresh sid tickers)) := by
  rw [withLock.eq_def] at h
  split at h
  · simp only at h
    split at h
    · cases h
    · split at h <;> cases h
  · next msg hbody =>
      split at h
      · cases h
      · next id hid =>
          split at h
          · next p sid hp hsid =>
              split at h
              · cases h
              · next channel hchannel =>
                  split at h
                  · cases h
                  · next hin =>
                      split at h
                      · cases h
                      · next m =>
                          have hanswering : s.answering env = some (p, sid, channel) := by
                            simp only [answering, hid, hp, hbody, hsid, hchannel]
                            rw [if_pos (not_not.mp hin)]
                          have hadopt := Locked.resume.inj h
                          rw [adoptMembership.eq_def] at hadopt
                          split at hadopt
                          · next _ _ t ts g hm hg =>
                              have happlied : s.applied = some g := hg
                              split at hadopt
                              · cases hadopt
                              · next hgroup =>
                                  simp only at hadopt
                                  split at hadopt
                                  · cases hadopt
                                  · next hbook =>
                                      obtain rfl := not_not.mp hbook
                                      obtain ⟨hne, hcmd⟩ := requestSnapshot_asks hadopt
                                      refine ⟨p, sid, m, t :: ts, hanswering, hbody, hm, ?_, ?_⟩
                                      · rw [appliedId, happlied]
                                        exact congrArg some (not_not.mp hgroup)
                                      · split at hne <;> split at hcmd <;> exact ⟨hne, hcmd⟩
                          · cases hadopt
          · cases h
  · split at h
    · cases h
    · split at h
      · cases h
      · simp only at h
        split at h
        · cases h
        · split at h <;> cases h
  · cases h

end Supervisor

namespace Conn

variable {c : Conn}

/-- What leaves at an event. -/
def departs (c : Conn) : ConnEvent → List (Int × Command)
  | .transmit =>
      match c.holder with
      | some ⟨_, work, none⟩ =>
          match c.sup.command work with
          | none => []
          | some cmd => c.sup.departs cmd
      | _ => []
  | .transmitFrame =>
      match c.frame with
      | some (.resync _ _ cmd none) => c.sup.departs cmd
      | some (.repair cmd none) => c.sup.departs cmd
      | _ => []
  | _ => []

theorem settle_sent (owner : Owner) (r : Supervisor × Supervisor.Pause) :
    (c.settle owner r).sup.sent = r.1.sent := by
  obtain ⟨s, pause⟩ := r
  cases pause with
  | done => cases owner <;> rfl
  | send work => rfl
  | raise failure => rfl

theorem sendFailed_sent (owner : Owner) : (c.sendFailed owner).sup.sent = c.sup.sent := by
  cases owner <;> rfl

theorem dispatched_sent (env : Envelope) (receipt : Receipt) :
    (c.dispatched env receipt).sup.sent = c.sup.sent := by
  have h := c.sup.dispatch_sent env receipt
  rw [dispatched]
  split <;> next hd => rw [hd] at h; exact h

/-- The command of the holder is sent as it leaves. -/
theorem transmit_sent (c : Conn) :
    (c.step .transmit).sup.sent = c.sup.sent ++ c.departs .transmit := by
  rw [step, departs]
  cases c.holder with
  | none => exact (List.append_nil _).symm
  | some h =>
      obtain ⟨owner, work, id⟩ := h
      cases id with
      | some id => exact (List.append_nil _).symm
      | none =>
          simp only
          cases c.sup.command work with
          | none => exact (List.append_nil _).symm
          | some cmd =>
              have hs := c.sup.transmit_sent cmd
              simp only
              split
              · next h => rw [h] at hs; exact hs
              · next h =>
                  rw [Supervisor.departs, h, sendFailed_sent]
                  exact (List.append_nil _).symm

/-- The command of the frame task is sent as it leaves. -/
theorem transmitFrame_sent (c : Conn) :
    (c.step .transmitFrame).sup.sent = c.sup.sent ++ c.departs .transmitFrame := by
  rw [step, departs]
  cases c.frame with
  | none => exact (List.append_nil _).symm
  | some task =>
      rcases task with ⟨env, receipt, cmd, id⟩ | ⟨cmd, id⟩ | env | _
      · cases id with
        | some id => exact (List.append_nil _).symm
        | none =>
            have hs := c.sup.transmit_sent cmd
            simp only
            split
            · next h => rw [h] at hs; exact hs
            · next h => rw [Supervisor.departs, h]; exact (List.append_nil _).symm
      · cases id with
        | some id => exact (List.append_nil _).symm
        | none =>
            have hs := c.sup.transmit_sent cmd
            simp only
            split
            · next h => rw [h] at hs; exact hs
            · next h => rw [Supervisor.departs, h]; exact (List.append_nil _).symm
      · exact (List.append_nil _).symm
      · exact (List.append_nil _).symm

/-- What has been sent grows by what leaves at the event. -/
theorem step_sent (e : ConnEvent) : (c.step e).sup.sent = c.sup.sent ++ c.departs e := by
  have hsame : ∀ {l : List (Int × Command)}, l = c.sup.sent → l = c.sup.sent ++ [] :=
    fun h => h.trans (List.append_nil _).symm
  cases e with
  | begin => rw [step]; split <;> exact hsame rfl
  | opened => rw [step]; split <;> exact hsame rfl
  | start =>
      rw [step]
      split
      · exact hsame (by rw [settle_sent, Supervisor.startReconcile_sent])
      · exact hsame rfl
  | lost => exact hsame rfl
  | setGroup group => rw [step]; split <;> exact hsame rfl
  | acquire =>
      rw [step]
      split
      · exact hsame (by rw [settle_sent, Supervisor.startReconcile_sent])
      · exact hsame rfl
  | receive f =>
      rw [step]
      split
      · have hf := c.sup.receiveFrame_sent f
        split
        · next h => rw [h] at hf; exact hsame hf
        · next h =>
            rw [h] at hf
            exact hsame ((dispatched_sent _ _).trans hf)
        · next h => rw [h] at hf; exact hsame hf
      · exact hsame rfl
  | acquireFrame =>
      rw [step]
      split
      · split
        · exact hsame (by rw [settle_sent, Supervisor.lockedReply_sent])
        · exact hsame rfl
      · exact hsame rfl
  | transmit => exact c.transmit_sent
  | sendReturns =>
      rw [step]
      split
      · next owner _ _ =>
          refine hsame ?_
          cases owner <;> rfl
      · split
        · exact hsame rfl
        · exact hsame (by rw [settle_sent, Supervisor.afterSend_sent]; rfl)
      · exact hsame rfl
  | sendFails =>
      rw [step]
      split
      · exact hsame rfl
      · exact hsame (sendFailed_sent _)
      · exact hsame rfl
  | transmitFrame => exact c.transmitFrame_sent
  | frameSendReturns =>
      rw [step]
      split
      · exact hsame (dispatched_sent _ _)
      · exact hsame rfl
      · exact hsame rfl
  | frameSendFails => rw [step]; split <;> exact hsame rfl
  | cancelHolder => rw [step]; split <;> exact hsame rfl
  | cancelFrame => rw [step]; split <;> exact hsame rfl
  | finish detail =>
      rw [step]
      split
      · split <;> exact hsame rfl
      · exact hsame rfl

/-- The command the frame task sends, or waits for. -/
def asked (c : Conn) : Option Command :=
  match c.frame with
  | some (.resync _ _ cmd _) => some cmd
  | some (.repair cmd _) => some cmd
  | _ => none

theorem settle_asked {c : Conn} {owner : Owner} {r : Supervisor × Supervisor.Pause}
    {cmd : Command} (h : (c.settle owner r).asked = some cmd) : c.asked = some cmd := by
  obtain ⟨s, pause⟩ := r
  cases pause with
  | done => cases owner <;> first | exact h | cases h
  | send work => exact h
  | raise failure => cases owner <;> first | exact h | cases h

theorem sendFailed_asked {owner : Owner} {cmd : Command}
    (h : (c.sendFailed owner).asked = some cmd) : c.asked = some cmd := by
  cases owner <;> first | exact h | cases h

/-- A dispatch asks for a snapshot of one market, if for anything. -/
theorem dispatched_asked {c : Conn} {env : Envelope} {receipt : Receipt} {cmd : Command}
    (h : (c.dispatched env receipt).asked = some cmd) :
    ∃ sid t, cmd = .updateSubscription sid .getSnapshot [t] := by
  rw [dispatched] at h
  split at h
  · cases h
  · next hd =>
      obtain rfl := Option.some.inj h
      exact Supervisor.dispatch_asks (congrArg Prod.snd hd)
  · cases h
  · cases h

/-- What the frame task asks for after an event: what it asked before, or what
the frame just received or dispatched makes it ask. -/
theorem asked_step (e : ConnEvent) {cmd : Command} (h : (c.step e).asked = some cmd) :
    c.asked = some cmd ∨ (∃ sid t, cmd = .updateSubscription sid .getSnapshot [t]) ∨
      ∃ f env, e = .receive f ∧ c.opened = true ∧ c.frame.isNone = true ∧
        (c.sup.receiveFrame f).2 = some (env, some cmd) := by
  cases e with
  | begin => rw [step] at h; split at h <;> exact .inl h
  | opened => rw [step] at h; split at h <;> exact .inl h
  | start =>
      rw [step] at h
      split at h
      · exact .inl (settle_asked h)
      · exact .inl h
  | lost => exact .inl h
  | setGroup group => rw [step] at h; split at h <;> exact .inl h
  | acquire =>
      rw [step] at h
      split at h
      · exact .inl (settle_asked (c := { c with callers := c.callers - 1 }) h)
      · exact .inl h
  | receive f =>
      rw [step] at h
      split at h
      · next hopen =>
          split at h
          · exact .inl h
          · exact .inr (.inl (dispatched_asked h))
          · next env cmd' hf =>
              obtain rfl := Option.some.inj h
              exact .inr (.inr ⟨f, env, rfl, hopen.1, hopen.2, congrArg Prod.snd hf⟩)
      · exact .inl h
  | acquireFrame =>
      rw [step] at h
      split at h
      · split at h
        · cases settle_asked h
        · exact .inl h
      · exact .inl h
  | transmit =>
      rw [step] at h
      split at h
      · split at h
        · exact .inl h
        · split at h
          · exact .inl h
          · exact .inl (sendFailed_asked h)
      · exact .inl h
  | sendReturns =>
      rw [step] at h
      split at h
      · next owner _ _ => cases owner <;> first | exact .inl h | cases h
      · split at h
        · exact .inl h
        · exact .inl (settle_asked h)
      · exact .inl h
  | sendFails =>
      rw [step] at h
      split at h
      · exact .inl h
      · exact .inl (sendFailed_asked h)
      · exact .inl h
  | transmitFrame =>
      rw [step] at h
      split at h
      · next hf =>
          split at h
          · exact .inl (by rw [asked, hf]; exact h)
          · cases h
      · next hf =>
          split at h
          · exact .inl (by rw [asked, hf]; exact h)
          · cases h
      · exact .inl h
  | frameSendReturns =>
      rw [step] at h
      split at h
      · exact .inr (.inl (dispatched_asked h))
      · cases h
      · exact .inl h
  | frameSendFails => rw [step] at h; split at h <;> first | exact .inl h | cases h
  | cancelHolder => rw [step] at h; split at h <;> first | exact .inl h | cases h
  | cancelFrame => rw [step] at h; split at h <;> first | exact .inl h | cases h
  | finish detail =>
      rw [step] at h
      split at h
      · split at h <;> exact .inl h
      · exact .inl h

end Conn

end Tape
