import Tape.Run
import Tape.Recorder.Supervisor

/-!
# What a frame writes

Of everything the sink is handed, the frames and the gaps are what the baked
tables are made from. `evidence` keeps those two, and `onFrame_evidence` says
what a frame adds: itself, and one gap record if its number skipped others and
nothing else. It holds of every frame and every state of a connection that
persists, and the reconciliation a reply may set off writes commands only.
-/

namespace Tape

/-- Frames and gaps, which the baked tables come from. -/
def TapeRecord.isEvidence : TapeRecord → Bool
  | .frame _ => true
  | .gap .. => true
  | _ => false

namespace Supervisor

/-- What the tape holds of frames and gaps. -/
def evidence (s : Supervisor) : List TapeRecord := s.tape.filter TapeRecord.isEvidence

variable {s : Supervisor}

theorem evidence_put (hp : s.config.persist = true) (r : TapeRecord) :
    (s.put r).evidence = s.evidence ++ if r.isEvidence then [r] else [] := by
  rw [evidence, put, hp]
  simp only [if_true, List.filter_append, evidence]
  cases h : r.isEvidence <;> simp [h]

/-- `s'` wrote the records `rs`, and persists as `s` does. -/
def Wrote (s s' : Supervisor) (rs : List TapeRecord) : Prop :=
  s'.config = s.config ∧ s'.evidence = s.evidence ++ rs

theorem Wrote.refl (s : Supervisor) : Wrote s s [] := ⟨rfl, (List.append_nil _).symm⟩

theorem Wrote.trans {s' s'' : Supervisor} {rs rs' : List TapeRecord} (h : Wrote s s' rs)
    (h' : Wrote s' s'' rs') : Wrote s s'' (rs ++ rs') :=
  ⟨h'.1.trans h.1, by rw [h'.2, h.2, List.append_assoc]⟩

/-- Nothing is written by a change of the other fields. -/
theorem Wrote.of_tape {s' : Supervisor} (hc : s'.config = s.config) (ht : s'.tape = s.tape) :
    Wrote s s' [] := ⟨hc, by rw [evidence, ht, List.append_nil, evidence]⟩

theorem Wrote.persist {s' : Supervisor} {rs : List TapeRecord} (h : Wrote s s' rs)
    (hp : s.config.persist = true) : s'.config.persist = true := by
  rw [h.1, hp]

theorem put_wrote (hp : s.config.persist = true) (r : TapeRecord) :
    Wrote s (s.put r) (if r.isEvidence then [r] else []) := ⟨rfl, evidence_put hp r⟩

theorem send_wrote (hp : s.config.persist = true) (cmd : Command) :
    Wrote s (s.send cmd).1 [] := by
  rw [send]
  split
  · exact Wrote.refl s
  · next session _ =>
      split
      · have hsent : Wrote s { s with
            session := some { session with nextCommandId := session.nextCommandId + 1 }
            sent := s.sent ++ [(session.nextCommandId, cmd)] } [] := Wrote.of_tape rfl rfl
        exact hsent.trans (put_wrote hp (.command session.nextCommandId cmd))
      · exact Wrote.refl s

theorem sendRequest_wrote (hp : s.config.persist = true) (request : Option Command) :
    Wrote s (s.sendRequest request).1 [] := by
  cases request with
  | none => exact Wrote.refl s
  | some cmd =>
      have h := send_wrote hp cmd
      rw [sendRequest]
      split
      · next hs => rw [hs] at h; exact h
      · next hs => rw [hs] at h; exact h

theorem requestSnapshot_wrote (sid : Sid) (tickers : Finset Ticker) :
    Wrote s (s.requestSnapshot sid tickers).1 [] := by
  rw [requestSnapshot]
  split
  · exact Wrote.of_tape rfl rfl
  · exact Wrote.of_tape rfl rfl

theorem resyncConnection_wrote (sid : Sid) (askAgain : Bool) :
    Wrote s (s.resyncConnection sid askAgain).1 [] := by
  rw [resyncConnection]
  split
  · exact Wrote.refl s
  · next g _ =>
      split
      · have hstaled : Wrote s (if askAgain then (s.markStale g.tickers).popResyncing sid
            else s.markStale g.tickers) [] := by
          cases askAgain with
          | true => exact Wrote.of_tape rfl rfl
          | false => exact Wrote.of_tape rfl rfl
        exact hstaled.trans (requestSnapshot_wrote sid g.tickers)
      · exact Wrote.refl s

/-- The record of a gap, if that is what a verdict is. -/
def gapRecord (receipt : Receipt) (sid : Sid) : GapVerdict → List TapeRecord
  | .gap expected got =>
      [.gap receipt.connId receipt.recvMonoNs receipt.recvWallNs sid expected got]
  | _ => []

/-- The record of a gap that the sequence check writes. -/
def gapOf (s : Supervisor) (env : Envelope) (receipt : Receipt) : List TapeRecord :=
  match env.sid with
  | none => []
  | some sid => gapRecord receipt sid (s.judgeFrame sid env).2

theorem checkSequence_wrote (hp : s.config.persist = true) (env : Envelope)
    (receipt : Receipt) : Wrote s (s.checkSequence env receipt).1 (s.gapOf env receipt) := by
  rw [checkSequence, gapOf]
  cases env.sid with
  | none => exact Wrote.refl s
  | some sid =>
      simp only []
      cases hv : (s.judgeFrame sid env).2 with
      | ok => exact Wrote.of_tape rfl rfl
      | firstMessage => exact Wrote.of_tape rfl rfl
      | duplicate expected got =>
          have hcount : Wrote s
              ({ s with tracker := (s.judgeFrame sid env).1 } : Supervisor).countDuplicate [] :=
            Wrote.of_tape rfl rfl
          exact hcount.trans (resyncConnection_wrote sid false)
      | gap expected got =>
          have hreport : Wrote s (({ s with tracker := (s.judgeFrame sid env).1 } :
              Supervisor).reportGap sid expected got receipt)
              (gapRecord receipt sid (.gap expected got)) := by
            refine ⟨rfl, ?_⟩
            exact evidence_put (s := { s with
              tracker := (s.judgeFrame sid env).1
              stats := { s.stats with gaps := s.stats.gaps + 1 } }) hp _
          have h := hreport.trans (resyncConnection_wrote sid true)
          rw [List.append_nil] at h
          exact h

theorem onSnapshot_wrote (e : BookSnapshot) : Wrote s (s.onSnapshot e) [] := by
  rw [onSnapshot]
  simp only []
  split
  · split
    · exact Wrote.of_tape rfl rfl
    · exact Wrote.of_tape rfl rfl
  · exact Wrote.of_tape rfl rfl

theorem onDelta_wrote (e : BookDelta) : Wrote s (s.onDelta e).1 [] := by
  rw [onDelta]
  split
  · split
    · exact Wrote.refl s
    · split
      · next book _ _ =>
          have hset : Wrote s (s.setBook e.ticker book).bookError [] := Wrote.of_tape rfl rfl
          exact hset.trans (requestSnapshot_wrote e.sid {e.ticker})
      · exact Wrote.of_tape rfl rfl
      · exact Wrote.of_tape rfl rfl
  · exact Wrote.refl s

theorem notDecoded_wrote (e : ConvertError) : Wrote s (s.notDecoded e).1 [] := by
  unfold notDecoded
  split
  · exact Wrote.refl s
  · exact Wrote.of_tape rfl rfl

theorem dispatch_wrote (env : Envelope) (receipt : Receipt) :
    Wrote s (s.dispatch env receipt).1 [] := by
  rw [dispatch]
  cases env.body with
  | orderbookSnapshot msg =>
      simp only []
      split
      · exact notDecoded_wrote _
      · exact onSnapshot_wrote _
  | orderbookDelta msg =>
      simp only []
      split
      · exact notDecoded_wrote _
      · exact onDelta_wrote _
  | market event =>
      simp only []
      split
      · exact notDecoded_wrote _
      · exact Wrote.of_tape rfl rfl
  | subscribed msg =>
      simp only []
      split
      · exact notDecoded_wrote _
      · exact Wrote.refl s
  | ok msg => exact Wrote.refl s
  | unsubscribed =>
      simp only []
      split
      · exact Wrote.refl s
      · exact Wrote.of_tape rfl rfl
  | error msg =>
      simp only []
      split
      · exact notDecoded_wrote _
      · exact Wrote.of_tape rfl rfl
  | uninterpreted type => exact Wrote.refl s

/-! ## Replies -/

theorem adoptMembership_wrote (groupId : String) (sid : Sid) (channel : String)
    (marketTickers : Option (List Ticker)) :
    Wrote s (s.adoptMembership groupId sid channel marketTickers).1 [] := by
  rw [adoptMembership.eq_def]
  split
  · next t ts applied _ =>
      simp only []
      split
      · exact Wrote.refl s
      · have hmerged : Wrote s (if (t :: ts).toFinset ≠ applied.tickers then
            { s with applied := some { applied with tickers := (t :: ts).toFinset }
                     reconcileDeferred := true } else s) [] := by
          split
          · exact Wrote.of_tape rfl rfl
          · exact Wrote.refl s
        split
        · exact hmerged
        · exact hmerged.trans (requestSnapshot_wrote sid _)
  · exact Wrote.refl s

theorem withLock_wrote (env : Envelope) : Wrote s (s.withLock env).1 [] := by
  unfold withLock
  split
  · simp only []
    split
    · exact Wrote.of_tape rfl rfl
    · split
      · exact Wrote.of_tape rfl rfl
      · exact Wrote.of_tape rfl rfl
  · split
    · exact Wrote.refl s
    · split
      · split
        · exact Wrote.refl s
        · next id _ _ _ pending sid _ _ _ channel _ =>
            split
            · exact Wrote.refl s
            · split
              · exact Wrote.of_tape rfl rfl
              · have hanswer : Wrote s (s.answer id pending sid channel) [] :=
                  Wrote.of_tape rfl rfl
                exact hanswer.trans (adoptMembership_wrote _ _ _ _)
      · exact Wrote.refl s
  · split
    · exact Wrote.refl s
    · split
      · exact Wrote.refl s
      · simp only []
        split
        · exact Wrote.of_tape rfl rfl
        · split
          · exact Wrote.of_tape rfl rfl
          · exact Wrote.of_tape rfl rfl
  · exact Wrote.refl s

theorem recordChange_wrote (piece : PlanChange) : Wrote s (s.recordChange piece).1 [] := by
  cases piece with
  | addGroup group => exact Wrote.of_tape rfl rfl
  | removeGroup groupId =>
      simp only [recordChange]
      split
      · exact Wrote.refl s
      · split
        · exact Wrote.refl s
        · exact Wrote.of_tape rfl rfl
  | addMarkets groupId tickers =>
      simp only [recordChange]
      split
      · exact Wrote.refl s
      · split
        · exact Wrote.refl s
        · exact Wrote.of_tape rfl rfl
  | removeMarkets groupId tickers =>
      simp only [recordChange]
      split
      · exact Wrote.refl s
      · split
        · exact Wrote.refl s
        · exact Wrote.of_tape rfl rfl

theorem afterCommand_wrote (piece : PlanChange) (id : Int) :
    Wrote s (s.afterCommand piece id) [] := by
  cases piece <;> exact Wrote.of_tape rfl rfl

theorem sendPiece_wrote (piece : PlanChange) (commands : List Command) :
    ∀ {s : Supervisor}, s.config.persist = true → Wrote s (s.sendPiece piece commands).1 [] := by
  induction commands with
  | nil => intro s _; exact recordChange_wrote piece
  | cons cmd rest ih =>
      intro s hp
      have hsend := send_wrote hp cmd
      rw [sendPiece]
      split
      · next hs => rw [hs] at hsend; exact hsend
      · next s' id hs =>
          rw [hs] at hsend
          have hnext := hsend.trans (afterCommand_wrote piece id)
          exact hnext.trans (ih (hnext.persist hp))

theorem reconcilePieces_wrote (todo : List PlanChange) :
    ∀ {s : Supervisor}, s.config.persist = true → Wrote s (s.reconcilePieces todo).1 [] := by
  induction todo with
  | nil => intro s _; exact Wrote.refl s
  | cons piece later ih =>
      intro s hp
      rw [reconcilePieces]
      split
      · exact Wrote.of_tape rfl rfl
      · split
        · exact Wrote.refl s
        · next commands _ =>
            have hsent := sendPiece_wrote piece commands hp
            split
            · next hs => rw [hs] at hsent; exact hsent
            · next hs =>
                rw [hs] at hsent
                exact hsent.trans (ih (hsent.persist hp))

theorem reconcileGuard_wrote : Wrote s s.reconcileGuard.1 [] := by
  rw [reconcileGuard]
  split
  · exact Wrote.refl s
  · split
    · exact Wrote.refl s
    · split
      · exact Wrote.of_tape rfl rfl
      · exact Wrote.refl s

theorem reconcileLocked_wrote (hp : s.config.persist = true) :
    Wrote s s.reconcileLocked.1 [] := by
  have hguard := reconcileGuard_wrote (s := s)
  rw [reconcileLocked]
  split
  · next hg => rw [hg] at hguard; exact hguard
  · next s' hg =>
      rw [hg] at hguard
      have hp' := hguard.persist hp
      split
      · have hasked : Wrote s { s' with firehoseRequested := true } [] :=
          hguard.trans (Wrote.of_tape rfl rfl)
        have hsend := hasked.trans (send_wrote (hasked.persist hp)
          (.subscribe s'.config.firehoseChannels none none))
        split
        · next hs => rw [hs] at hsend; exact hsend
        · next s'' id hs =>
            rw [hs] at hsend
            have hawait : Wrote s (s''.awaitReplies id firehoseGroupId
                s''.config.firehoseChannels) [] := hsend.trans (Wrote.of_tape rfl rfl)
            exact hawait.trans (reconcilePieces_wrote _ (hawait.persist hp))
      · exact hguard.trans (reconcilePieces_wrote _ hp')

theorem resumeReconcile_wrote (hp : s.config.persist = true) :
    Wrote s s.resumeReconcile.1 [] := by
  rw [resumeReconcile]
  split
  · have hcleared : Wrote s { s with reconcileDeferred := false } [] := Wrote.of_tape rfl rfl
    exact hcleared.trans (reconcileLocked_wrote (hcleared.persist hp))
  · exact Wrote.refl s

theorem onReply_wrote (hp : s.config.persist = true) (env : Envelope) :
    Wrote s (s.onReply env).1 [] := by
  have hlocked := withLock_wrote (s := s) env
  rw [onReply]
  split
  · next hl => rw [hl] at hlocked; exact hlocked
  · next s' request hl =>
      rw [hl] at hlocked
      have hsent := hlocked.trans (sendRequest_wrote (hlocked.persist hp) request)
      split
      · next hs => rw [hs] at hsent; exact hsent
      · next hs =>
          rw [hs] at hsent
          exact hsent.trans (resumeReconcile_wrote (hsent.persist hp))

theorem handle_wrote (hp : s.config.persist = true) (env : Envelope) (receipt : Receipt) :
    Wrote s (s.handle env receipt).1 [] := by
  have hdispatched := dispatch_wrote (s := s) env receipt
  rw [handle]
  split
  · next hd => rw [hd] at hdispatched; exact hdispatched
  · next s' cmd hd =>
      rw [hd] at hdispatched
      exact hdispatched.trans (sendRequest_wrote (hdispatched.persist hp) (some cmd))
  · next s' hd =>
      rw [hd] at hdispatched
      exact hdispatched.trans (onReply_wrote (hdispatched.persist hp) env)
  · next hd => rw [hd] at hdispatched; exact hdispatched

/-! ## Frames -/

/-- The record of the gap a frame shows. -/
def gapsOf (s : Supervisor) (f : RawFrame) : List TapeRecord :=
  match f.payload with
  | .error _ => []
  | .ok env => s.gapOf env (s.receiptOf f)

/-- A frame is written first, and then the gap it shows. -/
theorem onFrame_evidence (hp : s.config.persist = true) (f : RawFrame) :
    Wrote s (s.onFrame f).1 (.frame f :: s.gapsOf f) := by
  have hcount : Wrote s (s.countFrame f) [.frame f] := by
    have hcounted : Wrote s { s with
        framesThisConnection := s.framesThisConnection + 1
        stats := { s.stats with frames := s.stats.frames + 1 } } [] := Wrote.of_tape rfl rfl
    exact hcounted.trans (put_wrote hp (.frame f))
  rw [onFrame.eq_def, receiveFrame, gapsOf]
  cases hpay : f.payload with
  | error e => exact hcount.trans (Wrote.of_tape rfl rfl)
  | ok env =>
      have hgap : (s.countFrame f).gapOf env (s.receiptOf f) = s.gapOf env (s.receiptOf f) := rfl
      have hchecked := hcount.trans
        (checkSequence_wrote (hcount.persist hp) env (s.receiptOf f))
      have hsent := hchecked.trans (sendRequest_wrote (hchecked.persist hp)
        ((s.countFrame f).checkSequence env (s.receiptOf f)).2)
      rw [hgap, List.append_nil] at hsent
      simp only []
      split
      · next hs => rw [hs] at hsent; exact hsent
      · next s' hs =>
          rw [hs] at hsent
          have h := hsent.trans (handle_wrote (hsent.persist hp) env (s'.receiptOf f))
          rw [List.append_nil] at h
          exact h

/-! ## Runs -/

/-- The supervisor after a frame. -/
def next (s : Supervisor) (f : RawFrame) : Supervisor := (s.onFrame f).1

/-- What the frames of a run write. -/
def written (s : Supervisor) : List RawFrame → List TapeRecord
  | [] => []
  | f :: fs => .frame f :: s.gapsOf f ++ (s.next f).written fs

/-- The same records in the order in which they took effect: the gap a frame
shows stales the books before the frame is dispatched. -/
def tookEffect (s : Supervisor) : List RawFrame → List TapeRecord
  | [] => []
  | f :: fs => s.gapsOf f ++ [.frame f] ++ (s.next f).tookEffect fs

theorem run_evidence (hp : s.config.persist = true) (fs : List RawFrame) :
    Wrote s (Run.final next s fs) (s.written fs) := by
  induction fs generalizing s with
  | nil => exact Wrote.refl s
  | cons f fs ih =>
      have hf := onFrame_evidence hp f
      exact hf.trans (ih (hf.persist hp))

theorem written_perm (s : Supervisor) (fs : List RawFrame) :
    (s.written fs).Perm (s.tookEffect fs) := by
  induction fs generalizing s with
  | nil => exact List.Perm.nil
  | cons f fs ih =>
      exact (show ([TapeRecord.frame f] ++ s.gapsOf f).Perm
        (s.gapsOf f ++ [TapeRecord.frame f]) from
        List.perm_append_comm).append (ih _)

end Supervisor

end Tape
