import Tape.Recorder.Sizes

/-!
# The commands of one reconciliation

A reconciliation sends the commands of its pieces one after another, and other
tasks run in between. `due` is what a list of pieces still has to send, read
off the state: the sids a command goes to are those of the group, and nothing
that happens under the lock changes them before a piece that needs them. So
what the reconciliation has sent and what it has to send stay together what it
had to send at its start (`piece_step`). The rest is about that list: on a sid
of the group it names the markets that leave and the markets that join, each
once (`due_update`).
-/

namespace Tape

/-- The markets a subscribe names. -/
def Command.subscribed : Command → List Ticker
  | .subscribe _ (some tickers) _ => tickers
  | _ => []

/-- The change adds a group. -/
def PlanChange.subscribes : PlanChange → Bool
  | .addGroup _ => true
  | _ => false

/-- What commands name, read by `view`. -/
def named (view : Command → List Ticker) (sent : List (Int × Command)) : List Ticker :=
  sent.flatMap fun x => view x.2

/-- A view that does not see the requests for snapshots. -/
def Unasked (view : Command → List Ticker) : Prop :=
  ∀ sid tickers, view (.updateSubscription sid .getSnapshot tickers) = []

theorem unasked_added (sid : Sid) : Unasked (Command.namedOn sid .addMarkets) := by
  intro sid' tickers
  simp [Command.namedOn]

theorem unasked_removed (sid : Sid) : Unasked (Command.namedOn sid .deleteMarkets) := by
  intro sid' tickers
  simp [Command.namedOn]

theorem unasked_subscribed : Unasked Command.subscribed := fun _ _ => rfl

/-- The subscribe of a group. -/
def SupervisorConfig.subscribeOf (config : SupervisorConfig) (g : Group) : Command :=
  .subscribe config.groupChannels (some (sortedTickers g.tickers))
    (if orderbookChannel ∈ config.groupChannels then some config.useYesPrice else none)

namespace Supervisor

/-- What pieces have to send. A group that is subscribed answers before
anything else is sent for it. -/
def due (s : Supervisor) : List PlanChange → List Command
  | [] => []
  | piece :: later =>
      if s.mustDefer piece then []
      else
        match s.pieceCommands piece with
        | .error _ => []
        | .ok cmds => cmds ++ if piece.subscribes then [] else s.due later

/-- What the pieces after `piece` have to send. -/
def dueAfter (s : Supervisor) (piece : PlanChange) (later : List PlanChange) : List Command :=
  if piece.subscribes then [] else s.due later

variable {s s' : Supervisor} {piece : PlanChange} {later : List PlanChange}

theorem due_cons {cmds : List Command} (hd : s.mustDefer piece = false)
    (hok : s.pieceCommands piece = .ok cmds) :
    s.due (piece :: later) = cmds ++ s.dueAfter piece later := by
  rw [due, hd, hok]
  rfl

/-- What is due depends on the subscriptions and on what is pending. -/
theorem due_congr (hc : s'.config = s.config) (hs : s'.subscriptions = s.subscriptions)
    (hp : s'.pending = s.pending) (pieces : List PlanChange) : s'.due pieces = s.due pieces := by
  have hcommands : ∀ piece, s'.pieceCommands piece = s.pieceCommands piece := by
    intro piece
    rw [pieceCommands, pieceCommands, sidOf, sidOf, hc, hs]
  have hdefer : ∀ piece, s'.mustDefer piece = s.mustDefer piece := by
    intro piece
    cases piece <;> simp only [mustDefer, subscribing, hp]
  induction pieces with
  | nil => rfl
  | cons piece later ih => rw [due, due, hcommands, hdefer, ih]

theorem dueAfter_congr (hc : s'.config = s.config) (hs : s'.subscriptions = s.subscriptions)
    (hp : s'.pending = s.pending) (piece : PlanChange) (later : List PlanChange) :
    s'.dueAfter piece later = s.dueAfter piece later := by
  rw [dueAfter, dueAfter, due_congr hc hs hp]

/-- Up to its next send, a reconciliation finds what is due. -/
theorem nextPiece_due {pieces : List PlanChange} {cmd : Command} {rest : List Command}
    (h : (s.nextPiece pieces).2 = .send (.piece piece cmd rest later)) :
    (s.nextPiece pieces).1 = s ∧ s.due pieces = cmd :: rest ++ s.dueAfter piece later := by
  cases pieces with
  | nil => cases h
  | cons p ps =>
      rw [nextPiece] at h ⊢
      split at h
      · cases h
      · next hd =>
          have hd : s.mustDefer p = false := by simpa using hd
          split at h
          · cases h
          · next cmd' rest' hok =>
              obtain ⟨rfl, rfl, rfl, rfl⟩ := Work.piece.inj (Pause.send.inj h)
              refine ⟨?_, due_cons hd hok⟩
              simp [hd]
          · next hok => exact absurd rfl (realizes_pieceCommands hok).ne_nil

/-- A reconciliation that has nothing to send has nothing due. -/
theorem nextPiece_done {pieces : List PlanChange} (h : (s.nextPiece pieces).2 = .done) :
    s.due pieces = [] := by
  cases pieces with
  | nil => rfl
  | cons p ps =>
      rw [nextPiece] at h
      split at h
      · next hd => rw [due, if_pos hd]
      · split at h
        · cases h
        · cases h
        · next hok => exact absurd rfl (realizes_pieceCommands hok).ne_nil

/-- A subscribe is all there is to send, for now. -/
theorem due_addGroup (g : Group) (later : List PlanChange) :
    s.due (.addGroup g :: later) =
      if s.config.groupChannels = [] then [] else [s.config.subscribeOf g] := by
  by_cases hc : s.config.groupChannels = []
  · have herror : s.pieceCommands (.addGroup g) = .error .noChannels := by
      rw [pieceCommands, toCommands, if_pos hc]
    rw [due, herror, if_pos hc]
    rfl
  · have hok : s.pieceCommands (.addGroup g) = .ok [s.config.subscribeOf g] := by
      rw [pieceCommands, toCommands_singleton hc]
      rfl
    rw [due_cons rfl hok, if_neg hc]
    rfl

/-- A piece of a subscribed group, as long as the replies are awaited. -/
theorem due_deferred {pieces : List PlanChange} {groupId : String}
    (hp : s.subscribing groupId = true)
    (hpieces : ∀ piece later, pieces = piece :: later →
      ∃ tickers, piece = .addMarkets groupId tickers ∨ piece = .removeMarkets groupId tickers) :
    s.due pieces = [] := by
  cases pieces with
  | nil => rfl
  | cons piece later =>
      obtain ⟨tickers, rfl | rfl⟩ := hpieces piece later rfl
      · rw [due, mustDefer, if_pos hp]
      · rw [due, mustDefer, if_pos hp]

/-- Recording a piece leaves due what was to come after it. -/
theorem recorded_due (id : Int) (hplan : s.Planned (piece :: later)) :
    ((s.afterCommand piece id).recordChange piece).1.due later = s.dueAfter piece later := by
  obtain ⟨hfits, hchain⟩ := hplan.chain
  cases piece with
  | addGroup g =>
      refine @due_deferred _ later g.groupId ?_ ?_
      · have hget :
          ((s.afterCommand (.addGroup g) id).recordChange (.addGroup g)).1.pending.get? id =
            some ⟨g.groupId, s.config.groupChannels.toFinset⟩ := Dict.get?_set_self _ _ _
        rw [subscribing, List.any_eq_true]
        refine ⟨_, List.mem_map_of_mem (Dict.get?_eq_some_iff.mp hget), ?_⟩
        exact decide_eq_true rfl
      · rintro next later rfl
        obtain ⟨hnext, -⟩ := hchain
        cases next with
        | addGroup g' => cases hnext
        | removeGroup groupId => exact absurd List.mem_cons_self (hplan.first groupId)
        | addMarkets groupId tickers =>
            obtain ⟨g', hg', rfl⟩ := hnext
            rw [← Option.some.inj hg']
            exact ⟨tickers, .inl rfl⟩
        | removeMarkets groupId tickers =>
            obtain ⟨g', hg', rfl, -⟩ := hnext
            rw [← Option.some.inj hg']
            exact ⟨tickers, .inr rfl⟩
  | removeGroup groupId =>
      -- Of what may follow, only a subscribe fits, and it names no sid.
      obtain ⟨g, hg, rfl⟩ := hfits
      have hrec : (s.recordChange (.removeGroup g.groupId)).1.config = s.config := by
        rw [recordChange, hg]
        simp [releaseBooks]
      cases later with
      | nil => rfl
      | cons next later =>
          obtain ⟨hnext, -⟩ := hchain
          cases next with
          | addGroup g' =>
              show due _ _ = s.due _
              rw [due_addGroup, due_addGroup]
              exact congrArg (fun config : SupervisorConfig =>
                if config.groupChannels = [] then [] else [config.subscribeOf g']) hrec
          | removeGroup groupId => exact absurd List.mem_cons_self (hplan.first groupId)
          | addMarkets groupId tickers =>
              obtain ⟨g', hg', -⟩ := hnext
              cases hg'
          | removeMarkets groupId tickers =>
              obtain ⟨g', hg', -⟩ := hnext
              cases hg'
  | addMarkets groupId tickers =>
      obtain ⟨g, hg, rfl⟩ := hfits
      refine due_congr ?_ ?_ ?_ later <;>
        rw [afterCommand, recordChange, hg] <;> simp
  | removeMarkets groupId tickers =>
      obtain ⟨g, hg, rfl, -⟩ := hfits
      refine due_congr ?_ ?_ ?_ later <;>
        rw [afterCommand, recordChange, hg] <;> simp [releaseBooks]

end Supervisor

namespace Conn

variable {config : SupervisorConfig} {c : Conn} {view : Command → List Ticker}

/-- The holder of the lock is at a piece of a reconciliation. -/
def AtPiece (c : Conn) : Prop :=
  ∃ owner piece cmd rest later id, c.holder = some ⟨owner, .piece piece cmd rest later, id⟩

/-- What the reconciliation under way has still to send. -/
def remaining (c : Conn) : List Command :=
  match c.holder with
  | some ⟨_, .piece piece cmd rest later, none⟩ => cmd :: rest ++ c.sup.dueAfter piece later
  | some ⟨_, .piece piece _ rest later, some _⟩ => rest ++ c.sup.dueAfter piece later
  | _ => []

theorem remaining_of_same {c' : Conn} (hh : c'.holder = c.holder)
    (hs : c'.sup.config = c.sup.config ∧ c'.sup.subscriptions = c.sup.subscriptions ∧
      c'.sup.pending = c.sup.pending) : c'.remaining = c.remaining := by
  have hdue : ∀ piece later, c'.sup.dueAfter piece later = c.sup.dueAfter piece later :=
    Supervisor.dueAfter_congr hs.1 hs.2.1 hs.2.2
  rw [remaining, remaining, hh]
  split
  · rw [hdue]
  · rw [hdue]
  · rfl

/-- What the frame task sends is not seen. -/
theorem Sized.unseen (h : Sized config c) (hview : Unasked view) :
    named view (c.departs .transmitFrame) = [] := by
  have hcmd : ∀ cmd, c.asked = some cmd → named view (c.sup.departs cmd) = [] := by
    intro cmd hasked
    obtain ⟨⟨sid, tickers, rfl⟩, -⟩ := h.asked cmd hasked
    rw [Supervisor.departs]
    split
    · simp [named, hview sid tickers]
    · rfl
  rw [Conn.departs]
  split
  · next hf => exact hcmd _ (by rw [Conn.asked, hf])
  · next hf => exact hcmd _ (by rw [Conn.asked, hf])
  · rfl

/-- One event of a reconciliation, as far as `view` sees it: what leaves is
taken from what remained, and where the reconciliation ends well nothing
remained. -/
structure PieceStep (view : Command → List Ticker) (c : Conn) (e : ConnEvent) : Prop where
  goes : (c.step e).AtPiece →
    named view (c.departs e) ++ (c.step e).remaining.flatMap view = c.remaining.flatMap view
  ends : ¬ (c.step e).AtPiece → named view (c.departs e) = []
  done : ¬ (c.step e).AtPiece → e = .sendReturns → (c.step e).raised = none → c.remaining = []

theorem PieceStep.of_same {e : ConnEvent} (hat : c.AtPiece) (he : named view (c.departs e) = [])
    (hh : (c.step e).holder = c.holder)
    (hs : (c.step e).sup.config = c.sup.config ∧
      (c.step e).sup.subscriptions = c.sup.subscriptions ∧
      (c.step e).sup.pending = c.sup.pending) : PieceStep view c e where
  goes _ := by rw [he, List.nil_append, remaining_of_same hh hs]
  ends _ := he
  done hnot _ _ := absurd (show (c.step e).AtPiece by rw [AtPiece, hh]; exact hat) hnot

theorem PieceStep.of_ended {e : ConnEvent} (he : c.departs e = [])
    (hnot : ¬ (c.step e).AtPiece) (hne : e ≠ .sendReturns) : PieceStep view c e where
  goes h := absurd h hnot
  ends _ := by rw [he]; rfl
  done _ heq _ := absurd heq hne

/-- A send of the holder returned. -/
theorem pieceStep_sendReturns (h : Sized config c) {owner : Owner} {piece : PlanChange}
    {cmd : Command} {rest : List Command} {later : List PlanChange} {id : Int}
    (hh : c.holder = some ⟨owner, .piece piece cmd rest later, some id⟩) :
    PieceStep view c .sendReturns := by
  have hstep : c.step .sendReturns = c.settle owner
      ((c.sup.put (.command id cmd)).afterSend (.piece piece cmd rest later) id) := by
    rw [step, hh]
    rfl
  have hremaining : c.remaining = rest ++ c.sup.dueAfter piece later := by rw [remaining, hh]
  obtain ⟨⟨hplan, -, hreal⟩, -⟩ := (h.holds.work _ hh).resolve_left (by rintro ⟨⟩)
  set s := c.sup.put (.command id cmd) with hput
  have hdue : ∀ later, s.dueAfter piece later = c.sup.dueAfter piece later :=
    fun later => @Supervisor.dueAfter_congr c.sup s rfl rfl rfl piece later
  cases rest with
  | cons next rest =>
      obtain ⟨-, hnot⟩ := hreal.tail
      have hsame : s.afterCommand piece id = s := by
        cases piece with
        | addGroup g => exact absurd rfl (hnot g)
        | removeGroup _ => rfl
        | addMarkets _ _ => rfl
        | removeMarkets _ _ => rfl
      have hnext : c.step .sendReturns =
          { c with sup := s, holder := some ⟨owner, .piece piece next rest later, none⟩ } := by
        rw [hstep, Supervisor.afterSend, hsame]
        rfl
      have hat : (c.step .sendReturns).AtPiece := by
        rw [hnext]
        exact ⟨owner, piece, next, rest, later, none, rfl⟩
      refine ⟨fun _ => ?_, fun hno => absurd hat hno, fun hno => absurd hat hno⟩
      rw [hremaining, hnext, ← hdue]
      rfl
  | nil =>
      have hafter := Supervisor.recorded_due (s := s) id (hplan.of_same rfl rfl)
      have hfits : Fits (s.afterCommand piece id).applied piece := by
        cases piece <;> exact hplan.chain.1
      obtain ⟨hraise, -, -⟩ := Supervisor.recordChange_of_fits hfits
      obtain ⟨s', hrecord⟩ : ∃ s', (s.afterCommand piece id).recordChange piece = (s', none) :=
        ⟨_, Prod.ext rfl hraise⟩
      rw [hrecord, hdue] at hafter
      have hnext : c.step .sendReturns = c.settle owner (s'.nextPiece later) := by
        rw [hstep, Supervisor.afterSend, hrecord]
      rw [List.nil_append, ← hafter] at hremaining
      generalize hr : s'.nextPiece later = r at hnext
      obtain ⟨s'', pause⟩ := r
      cases pause with
      | done =>
          have hnot : ¬ (c.step .sendReturns).AtPiece := by
            rintro ⟨_, _, _, _, _, _, hheld⟩
            rw [hnext] at hheld
            cases owner <;> cases hheld
          refine ⟨fun hat => absurd hat hnot, fun _ => rfl, fun _ _ _ => ?_⟩
          rw [hremaining]
          exact Supervisor.nextPiece_done (congrArg Prod.snd hr)
      | raise failure =>
          have hraised : (c.step .sendReturns).raised = some failure := by rw [hnext]; rfl
          have hnot : ¬ (c.step .sendReturns).AtPiece := by
            rintro ⟨_, _, _, _, _, _, hheld⟩
            rw [hnext] at hheld
            cases hheld
          refine ⟨fun hat => absurd hat hnot, fun _ => rfl, fun _ _ hnone => ?_⟩
          rw [hraised] at hnone
          cases hnone
      | send work =>
          refine ⟨fun hat => ?_, fun _ => rfl, ?_⟩
          · obtain ⟨_, piece', cmd', rest', later', _, hheld⟩ := hat
            rw [hnext] at hheld
            obtain ⟨rfl, rfl, rfl⟩ := Holder.mk.inj (Option.some.inj hheld)
            obtain ⟨hs, hwas⟩ := Supervisor.nextPiece_due (congrArg Prod.snd hr)
            obtain rfl : s'' = s' := by rw [← hs, hr]
            rw [hremaining, hwas, hnext]
            rfl
          · intro hnot
            obtain ⟨piece', cmd', rest', later', rfl⟩ := nextPiece_send (congrArg Prod.snd hr)
            refine absurd ?_ hnot
            rw [hnext]
            exact ⟨owner, piece', cmd', rest', later', none, rfl⟩

theorem not_atPiece_of_none {c : Conn} (h : c.holder = none) : ¬ c.AtPiece := by
  rintro ⟨_, _, _, _, _, _, hh⟩
  rw [h] at hh
  cases hh

theorem not_atPiece_sendFailed (owner : Owner) : ¬ (c.sendFailed owner).AtPiece := by
  rintro ⟨_, _, _, _, _, _, hh⟩
  cases owner <;> cases hh

/-- What the frame task does leaves the piece being sent. -/
theorem PieceStep.beside {e : ConnEvent} (hat : c.AtPiece) (he : named view (c.departs e) = [])
    (hb : Beside c (c.step e)) : PieceStep view c e :=
  .of_same hat he hb.holder ⟨hb.touched.control.config, hb.touched.control.subscriptions,
    hb.touched.control.pending⟩

/-- The command of a piece leaves, or its send fails at once. -/
theorem pieceStep_transmit {owner : Owner} {piece : PlanChange} {cmd : Command}
    {rest : List Command} {later : List PlanChange}
    (hh : c.holder = some ⟨owner, .piece piece cmd rest later, none⟩) :
    PieceStep view c .transmit := by
  have hdeparts : c.departs .transmit = c.sup.departs cmd := by rw [Conn.departs, hh]; rfl
  have hs := transmit_touched c.sup cmd
  cases hsend : c.sup.transmit cmd with
  | mk s sent =>
      rw [hsend] at hs
      cases sent with
      | none =>
          have hnext : c.step .transmit = c.sendFailed owner := by
            rw [step, hh]
            simp only [Supervisor.command, hsend]
          refine .of_ended ?_ (hnext ▸ not_atPiece_sendFailed owner) (by rintro ⟨⟩)
          rw [hdeparts, Supervisor.departs, hsend]
      | some id =>
          have hnext : c.step .transmit =
              { c with
                sup := s, holder := some ⟨owner, .piece piece cmd rest later, some id⟩
                wire := c.wire ++ [(id, cmd)] } := by
            rw [step, hh]
            simp only [Supervisor.command, hsend]
          have hat : (c.step .transmit).AtPiece := by
            rw [hnext]
            exact ⟨owner, piece, cmd, rest, later, some id, rfl⟩
          refine ⟨fun _ => ?_, fun hno => absurd hat hno, fun hno => absurd hat hno⟩
          have hdue : s.dueAfter piece later = c.sup.dueAfter piece later :=
            Supervisor.dueAfter_congr hs.control.config hs.control.subscriptions
              hs.control.pending piece later
          rw [hdeparts, Supervisor.departs, hsend, hnext, remaining, remaining, hh]
          simp only [hdue, named, List.flatMap_cons, List.flatMap_nil, List.append_nil,
            List.cons_append]

/-- A reply that is cut off takes the lock with it; a frame that waits does not. -/
theorem cancelFrame_cases (c : Conn) :
    (c.step .cancelFrame).holder = none ∨ c.step .cancelFrame = { c with frame := none } := by
  rw [step]
  split
  · exact .inl rfl
  · exact .inr rfl

theorem pieceStep (h : Sized config c) (hat : c.AtPiece) (hview : Unasked view)
    (e : ConnEvent) : PieceStep view c e := by
  obtain ⟨owner, piece, cmd, rest, later, id, hh⟩ := hat
  have hat : c.AtPiece := ⟨owner, piece, cmd, rest, later, id, hh⟩
  have hsame : ∀ {e : ConnEvent}, c.departs e = [] → (c.step e).holder = c.holder →
      c.sup.SameControl (c.step e).sup → PieceStep view c e := fun he hh hs =>
    .of_same hat (by rw [he]; rfl) hh ⟨hs.config, hs.subscriptions, hs.pending⟩
  have hidle : ∀ {e : ConnEvent}, c.departs e = [] → c.step e = c → PieceStep view c e :=
    fun he hc => hsame he (by rw [hc]) (by rw [hc]; exact Supervisor.SameControl.refl _)
  cases e with
  | begin => exact hidle rfl (by rw [step, hh]; simp)
  | opened =>
      refine hsame rfl ?_ ?_
      · rw [step]
        split <;> rfl
      · rw [step]
        split
        · exact ⟨rfl, rfl, rfl, rfl, rfl, rfl, rfl, rfl⟩
        · exact Supervisor.SameControl.refl _
  | start => exact hidle rfl (by rw [step, hh]; simp)
  | lost => exact hsame rfl rfl (closeSession_same c.sup)
  | setGroup group =>
      -- What is being sent was computed from the group desired before.
      refine .of_same hat rfl ?_ ?_
      · rw [step]
        split <;> rfl
      · rw [step]
        split <;> exact ⟨rfl, rfl, rfl⟩
  | acquire => exact hidle rfl (by rw [step, hh]; simp)
  | receive f => exact .beside hat rfl (beside_receive c f)
  | acquireFrame =>
      refine hidle rfl ?_
      rw [step, hh]
      split
      · rfl
      · rfl
  | transmit =>
      cases id with
      | some id =>
          refine hidle ?_ ?_
          · rw [Conn.departs, hh]
          · rw [step, hh]
      | none => exact pieceStep_transmit hh
  | sendReturns =>
      cases id with
      | some id => exact pieceStep_sendReturns h hh
      | none => exact hidle rfl (by rw [step, hh])
  | sendFails =>
      refine .of_ended rfl ?_ (by rintro ⟨⟩)
      have hnext : c.step .sendFails = c.sendFailed owner := by rw [step, hh]
      exact hnext ▸ not_atPiece_sendFailed owner
  | transmitFrame => exact .beside hat (h.unseen hview) (beside_transmitFrame c)
  | frameSendReturns => exact .beside hat rfl (beside_frameSendReturns c)
  | frameSendFails => exact .beside hat rfl (beside_frameSendFails c)
  | cancelHolder =>
      refine .of_ended rfl (not_atPiece_of_none ?_) (by rintro ⟨⟩)
      rw [step]
      split <;> rfl
  | cancelFrame =>
      rcases c.cancelFrame_cases with hnone | hnext
      · exact .of_ended rfl (not_atPiece_of_none hnone) (by rintro ⟨⟩)
      · exact .beside hat rfl (hnext ▸ Beside.over c)
  | finish detail => exact hidle rfl (by rw [step, hh]; simp)

/-! ## The start of a reconciliation -/

/-- A stretch that ends at a piece ends at the first of its state. -/
def Opens (r : Supervisor × Supervisor.Pause) : Prop :=
  ∀ piece cmd rest later, r.2 = .send (.piece piece cmd rest later) →
    r.1.due r.1.pieces = cmd :: rest ++ r.1.dueAfter piece later

theorem opens_nextPiece (s : Supervisor) : Opens (s.nextPiece s.pieces) := by
  intro piece cmd rest later h
  obtain ⟨hs, hdue⟩ := Supervisor.nextPiece_due h
  rw [hs]
  exact hdue

theorem opens_startReconcile (s : Supervisor) : Opens s.startReconcile := by
  rw [Supervisor.startReconcile]
  split
  · intro piece cmd rest later h
    cases h
  · split
    · intro piece cmd rest later h
      cases h
    · exact opens_nextPiece _

theorem opens_resume (s : Supervisor) : Opens s.resume := by
  rw [Supervisor.resume]
  split
  · exact opens_startReconcile _
  · intro piece cmd rest later h
    cases h

theorem opens_lockedReply (s : Supervisor) (env : Envelope) : Opens (s.lockedReply env) := by
  rw [Supervisor.lockedReply]
  split
  · intro piece cmd rest later h
    cases h
  · exact opens_resume _
  · intro piece cmd rest later h
    cases h

theorem opens_afterSend (s : Supervisor) {work : Work} (id : Int)
    (hw : ∀ piece cmd rest later, work ≠ .piece piece cmd rest later) :
    Opens (s.afterSend work id) := by
  rcases work with cmd | _ | ⟨piece, cmd, rest, later⟩ | _
  · exact opens_resume s
  · exact opens_nextPiece _
  · exact absurd rfl (hw piece cmd rest later)
  · intro piece cmd rest later h
    cases h

theorem opens_settle (c : Conn) {owner : Owner} {r : Supervisor × Supervisor.Pause}
    (hr : Opens r) (hat : (c.settle owner r).AtPiece) :
    (c.settle owner r).remaining ≠ [] ∧ (c.settle owner r).remaining =
      (c.settle owner r).sup.due (c.settle owner r).sup.pieces := by
  obtain ⟨_, piece, cmd, rest, later, _, hh⟩ := hat
  obtain ⟨s, pause⟩ := r
  cases pause with
  | done => cases owner <;> cases hh
  | send work =>
      obtain ⟨rfl, rfl, rfl⟩ := Holder.mk.inj (Option.some.inj hh)
      exact ⟨List.cons_ne_nil _ _, (hr piece cmd rest later rfl).symm⟩
  | raise failure => cases hh

/-- A command that leaves is of the work that was being sent. -/
theorem atPiece_of_transmit (hat : (c.step .transmit).AtPiece) : c.AtPiece := by
  obtain ⟨owner, piece, cmd, rest, later, id, hh⟩ := hat
  rw [step] at hh
  split at hh
  · next owner' work hc =>
      split at hh
      · exact ⟨owner, piece, cmd, rest, later, id, hh⟩
      · split at hh
        · obtain ⟨-, rfl, -⟩ := Holder.mk.inj (Option.some.inj hh)
          exact ⟨owner', piece, cmd, rest, later, none, hc⟩
        · exact absurd ⟨owner, piece, cmd, rest, later, id, hh⟩ (not_atPiece_sendFailed _)
  · exact ⟨owner, piece, cmd, rest, later, id, hh⟩

/-- A send that returns outside a piece may start a reconciliation. -/
theorem opens_sendReturns (hnot : ¬ c.AtPiece) (hat : (c.step .sendReturns).AtPiece) :
    (c.step .sendReturns).remaining ≠ [] ∧ (c.step .sendReturns).remaining =
      (c.step .sendReturns).sup.due (c.step .sendReturns).sup.pieces := by
  rw [step] at hat ⊢
  split
  · next owner _ hh =>
      simp only [hh] at hat
      obtain ⟨_, _, _, _, _, _, hheld⟩ := hat
      cases owner <;> cases hheld
  · next owner work id hne hh =>
      simp only [hh] at hat
      split
      · next hcmd =>
          simp only [hcmd] at hat
          exact absurd hat hnot
      · next cmd hcmd =>
          simp only [hcmd] at hat
          refine opens_settle c (opens_afterSend _ id ?_) hat
          rintro piece cmd rest later rfl
          exact hnot ⟨owner, piece, cmd, rest, later, some id, hh⟩
  · next hclosing hother =>
      refine absurd ?_ hnot
      split at hat
      · next owner work hh => exact absurd hh (hclosing owner work)
      · next owner work id _ hh => exact absurd hh (hother owner work id)
      · exact hat

/-- A reconciliation that starts has the commands of its pieces to send. -/
theorem opens (hnot : ¬ c.AtPiece) {e : ConnEvent} (hat : (c.step e).AtPiece) :
    (c.step e).remaining ≠ [] ∧
      (c.step e).remaining = (c.step e).sup.due (c.step e).sup.pieces := by
  have hheld : (c.step e).holder ≠ c.holder := by
    intro heq
    rw [AtPiece, heq] at hat
    exact hnot hat
  cases e with
  | begin => exact absurd (by rw [step]; split <;> rfl) hheld
  | opened => exact absurd (by rw [step]; split <;> rfl) hheld
  | start =>
      rw [step] at hat hheld ⊢
      split
      · next hc =>
          rw [if_pos hc] at hat
          exact opens_settle c (opens_startReconcile _) hat
      · next hc => exact absurd (by rw [if_neg hc]) hheld
  | lost => exact absurd rfl hheld
  | setGroup group => exact absurd (by rw [step]; split <;> rfl) hheld
  | acquire =>
      rw [step] at hat hheld ⊢
      split
      · next hc =>
          rw [if_pos hc] at hat
          exact opens_settle _ (opens_startReconcile _) hat
      · next hc => exact absurd (by rw [if_neg hc]) hheld
  | receive f => exact absurd (beside_receive c f).holder hheld
  | acquireFrame =>
      rw [step] at hat hheld ⊢
      split
      · next env hf =>
          simp only [hf] at hat hheld
          split
          · next hc =>
              rw [if_pos hc] at hat
              exact opens_settle _ (opens_lockedReply _ _) hat
          · next hc => exact absurd (by rw [if_neg hc]) hheld
      · next hf =>
          refine absurd ?_ hheld
          split
          · next env hf' => exact absurd hf' (hf env)
          · rfl
  | transmit => exact absurd (atPiece_of_transmit hat) hnot
  | sendReturns => exact opens_sendReturns hnot hat
  | sendFails =>
      rw [step] at hat
      split at hat
      · exact absurd hat hnot
      · exact absurd hat (not_atPiece_sendFailed _)
      · exact absurd hat hnot
  | transmitFrame => exact absurd (beside_transmitFrame c).holder hheld
  | frameSendReturns => exact absurd (beside_frameSendReturns c).holder hheld
  | frameSendFails => exact absurd (beside_frameSendFails c).holder hheld
  | cancelHolder =>
      refine absurd hat (not_atPiece_of_none ?_)
      rw [step]
      split <;> rfl
  | cancelFrame =>
      rcases c.cancelFrame_cases with hnone | hnext
      · exact absurd hat (not_atPiece_of_none hnone)
      · exact absurd (by rw [hnext]) hheld
  | finish detail =>
      refine absurd ?_ hheld
      rw [step]
      split
      · split <;> rfl
      · rfl

end Conn

/-! ## What a reconciliation names -/

theorem Cut.addMarkets_chunks {groupId : String} {tickers : List Ticker}
    {pieces : List PlanChange} (h : Cut (.addMarkets groupId tickers) pieces) :
    ∃ chunks : List (List Ticker), chunks.flatten = tickers ∧
      pieces = chunks.map (.addMarkets groupId) := by
  cases h with
  | addMarkets groupId chunks => exact ⟨chunks, rfl, rfl⟩

theorem Cut.removeMarkets_chunks {groupId : String} {tickers : List Ticker}
    {pieces : List PlanChange} (h : Cut (.removeMarkets groupId tickers) pieces) :
    ∃ chunks : List (List Ticker), chunks.flatten = tickers ∧
      pieces = chunks.map (.removeMarkets groupId) := by
  cases h with
  | removeMarkets groupId chunks => exact ⟨chunks, rfl, rfl⟩

/-- The pieces of a membership change, unless there is none. -/
theorem chunks_unless {n : Nat} (hn : 1 ≤ n) {change : List Ticker → PlanChange}
    (hchunks : ∀ {tickers pieces}, Cut (change tickers) pieces →
      ∃ chunks : List (List Ticker), chunks.flatten = tickers ∧ pieces = chunks.map change)
    (s : Finset Ticker) :
    ∃ chunks : List (List Ticker), chunks.flatten = sortedTickers s ∧
      (if s = ∅ then [] else [change (sortedTickers s)]).flatMap (splitChange n) =
        chunks.map change := by
  split
  · next hempty => exact ⟨[], (sortedTickers_eq_nil_iff.mpr hempty).symm, rfl⟩
  · obtain ⟨chunks, hflat, hpieces⟩ := hchunks (cut_splitChange hn (change (sortedTickers s))).1
    exact ⟨chunks, hflat, by rw [List.flatMap_singleton, hpieces]⟩

theorem pairwise_sortedTickers (s : Finset Ticker) : (sortedTickers s).Pairwise (· ≤ ·) := by
  obtain ⟨v, hv⟩ := s
  induction v using Quot.inductionOn with
  | h l => exact List.pairwise_insertionSort _ l

theorem sortedTickers_toFinset {l : List Ticker} (hs : l.Pairwise (· ≤ ·)) (hn : l.Nodup) :
    sortedTickers l.toFinset = l := by
  have hperm : (sortedTickers l.toFinset).Perm l := by
    refine (List.perm_ext_iff_of_nodup (nodup_sortedTickers _) hn).mpr fun t => ?_
    rw [mem_sortedTickers, List.mem_toFinset]
  exact hperm.eq_of_pairwise' (pairwise_sortedTickers _) hs

/-- The group a subscribe of `d` names: its first markets. -/
def firstOf (n : Nat) (d : Group) : Group :=
  if (sortedTickers d.tickers).length ≤ n then d
  else { d with tickers := ((sortedTickers d.tickers).take n).toFinset }

theorem splitChange_firstOf (n : Nat) (d : Group) :
    ∃ chunks : List (List Ticker), splitChange n (.addGroup d) =
      .addGroup (firstOf n d) :: chunks.map (.addMarkets d.groupId) := by
  rw [splitChange, firstOf]
  split
  · exact ⟨[], rfl⟩
  · exact ⟨_, rfl⟩

theorem sortedTickers_firstOf (n : Nat) (d : Group) :
    sortedTickers (firstOf n d).tickers = (sortedTickers d.tickers).take n := by
  rw [firstOf]
  split
  · next hle => exact (List.take_of_length_le hle).symm
  · have hsub : ((sortedTickers d.tickers).take n).Sublist (sortedTickers d.tickers) :=
      List.take_sublist n _
    exact sortedTickers_toFinset ((pairwise_sortedTickers _).sublist hsub)
      ((nodup_sortedTickers _).sublist hsub)

/-- One command to each sid names the markets on each of them. -/
theorem named_sids (sids : List Sid) (hn : sids.Nodup) (sid : Sid)
    (action action' : SubscriptionAction) (tickers : List Ticker) :
    (sids.map fun sid => Command.updateSubscription sid action tickers).flatMap
        (Command.namedOn sid action') =
      if sid ∈ sids ∧ action = action' then tickers else [] := by
  induction sids with
  | nil => simp
  | cons sid' sids ih =>
      obtain ⟨hnotin, hn⟩ := List.nodup_cons.mp hn
      rw [List.map_cons, List.flatMap_cons, ih hn, Command.namedOn]
      by_cases heq : sid' = sid
      · subst heq
        by_cases hact : action = action' <;> simp [hact, hnotin]
      · have hne : sid ≠ sid' := fun h => heq h.symm
        simp [heq, hne]

theorem named_subscribed (sids : List Sid) (action : SubscriptionAction) (tickers : List Ticker) :
    (sids.map fun sid => Command.updateSubscription sid action tickers).flatMap
      Command.subscribed = [] := by
  induction sids with
  | nil => rfl
  | cons sid sids ih => exact ih

namespace Supervisor

variable {s : Supervisor}

/-- The sids a command of a group goes to, ascending. -/
def groupSids (s : Supervisor) (groupId : String) : List Sid :=
  (s.sidOf.getD groupId []).dedup.insertionSort (· ≤ ·)

theorem mem_groupSids {groupId : String} {sid : Sid} :
    sid ∈ s.groupSids groupId ↔
      ∃ info, s.subscriptions.get? sid = some info ∧ info.groupId = groupId := by
  rw [groupSids, List.mem_insertionSort, List.mem_dedup, sidOf, mem_foldl_sids]
  constructor
  · rintro (h | ⟨info, hmem, hg⟩)
    · cases h
    · exact ⟨info, Dict.get?_eq_some_iff.mpr ((List.mem_insertionSort _).mp hmem), hg⟩
  · rintro ⟨info, hget, hg⟩
    exact .inr ⟨info, (List.mem_insertionSort _).mpr (Dict.get?_eq_some_iff.mp hget), hg⟩

theorem nodup_groupSids (groupId : String) : (s.groupSids groupId).Nodup :=
  (List.perm_insertionSort _ _).nodup_iff.mpr (List.nodup_dedup _)

theorem sidsOf_eq (groupId action : String) :
    sidsOf s.sidOf groupId action =
      if s.groupSids groupId = [] then .error (.noSid action groupId)
      else .ok (s.groupSids groupId) := by
  rw [sidsOf, groupSids]
  split
  · next h => rw [if_pos h]
  · next h => rw [if_neg (by rw [h]; exact List.cons_ne_nil _ _), h]

/-- Changes of one subscribed group, each with a command to each of its sids. -/
theorem due_markets (hc : s.config.groupChannels ≠ []) {groupId : String}
    (hp : s.subscribing groupId = false) (hsids : s.groupSids groupId ≠ [])
    (gone added : List (List Ticker)) :
    s.due (gone.map (.removeMarkets groupId) ++ added.map (.addMarkets groupId)) =
      (gone.flatMap fun chunk => (s.groupSids groupId).map fun sid =>
          .updateSubscription sid .deleteMarkets chunk) ++
        added.flatMap fun chunk => (s.groupSids groupId).map fun sid =>
          .updateSubscription sid .addMarkets chunk := by
  have hadded : s.due (added.map (.addMarkets groupId)) =
      added.flatMap fun chunk => (s.groupSids groupId).map fun sid =>
        .updateSubscription sid .addMarkets chunk := by
    induction added with
    | nil => rfl
    | cons chunk added ih =>
        have hok : s.pieceCommands (.addMarkets groupId chunk) =
            .ok ((s.groupSids groupId).map fun sid =>
              .updateSubscription sid .addMarkets chunk) := by
          rw [pieceCommands, toCommands_singleton hc, commandsOf, sidsOf_eq, if_neg hsids]
        rw [List.map_cons,
          due_cons (show s.mustDefer (.addMarkets groupId chunk) = false from hp) hok,
          List.flatMap_cons, ← ih]
        rfl
  induction gone with
  | nil => exact hadded
  | cons chunk gone ih =>
      have hok : s.pieceCommands (.removeMarkets groupId chunk) =
          .ok ((s.groupSids groupId).map fun sid =>
            .updateSubscription sid .deleteMarkets chunk) := by
        rw [pieceCommands, toCommands_singleton hc, commandsOf, sidsOf_eq, if_neg hsids]
      rw [List.map_cons, List.cons_append,
        due_cons (show s.mustDefer (.removeMarkets groupId chunk) = false from hp) hok,
        List.flatMap_cons, List.append_assoc, ← ih]
      rfl

/-- Changes of a group that cannot be sent. -/
theorem due_markets_none {groupId : String}
    (h : s.subscribing groupId = true ∨ s.groupSids groupId = [])
    (gone added : List (List Ticker)) :
    s.due (gone.map (.removeMarkets groupId) ++ added.map (.addMarkets groupId)) = [] := by
  have hnone : ∀ piece later,
      (∃ tickers, piece = .addMarkets groupId tickers ∨ piece = .removeMarkets groupId tickers) →
        s.due (piece :: later) = [] := by
    rintro piece later ⟨tickers, hpiece⟩
    rcases h with hp | hsids
    · refine due_deferred hp fun piece' later' heq => ?_
      obtain ⟨rfl, -⟩ := List.cons.inj heq
      exact ⟨tickers, hpiece⟩
    · have herror : ∃ e, s.pieceCommands piece = .error e := by
        by_cases hc : s.config.groupChannels = []
        · exact ⟨_, by rw [pieceCommands, toCommands, if_pos hc]⟩
        · rw [pieceCommands, toCommands_singleton hc]
          rcases hpiece with rfl | rfl
          · rw [commandsOf, sidsOf_eq, if_pos hsids]
            exact ⟨_, rfl⟩
          · rw [commandsOf, sidsOf_eq, if_pos hsids]
            exact ⟨_, rfl⟩
      obtain ⟨e, he⟩ := herror
      rw [due, he]
      split <;> rfl
  cases gone with
  | cons chunk gone => exact hnone _ _ ⟨chunk, .inr rfl⟩
  | nil =>
      cases added with
      | cons chunk added => exact hnone _ _ ⟨chunk, .inl rfl⟩
      | nil => rfl

/-- Whether a reconciliation changes the applied group in place. -/
def InPlace (old d : Group) : Prop := d.groupId = old.groupId ∧ mustRebuild old d = false

/-- What the commands of a change in place name: on each sid of the group the
markets that join and those that leave. -/
theorem due_inPlace (hm : 1 ≤ s.config.maxMarketsPerCommand) (hc : s.config.groupChannels ≠ [])
    {old d : Group} (hold : s.applied = some old) (hd : s.desired = some d) (hin : InPlace old d)
    (hdue : s.due s.pieces ≠ []) (sid : Sid) :
    (s.due s.pieces).flatMap (Command.namedOn sid .addMarkets) =
        (if sid ∈ s.groupSids old.groupId then sortedTickers (d.tickers \ old.tickers) else []) ∧
      (s.due s.pieces).flatMap (Command.namedOn sid .deleteMarkets) =
        (if sid ∈ s.groupSids old.groupId then sortedTickers (old.tickers \ d.tickers) else []) ∧
      (s.due s.pieces).flatMap Command.subscribed = [] := by
  obtain ⟨gone, hgone, hremoves⟩ := chunks_unless hm (@Cut.removeMarkets_chunks old.groupId)
    (old.tickers \ d.tickers)
  obtain ⟨added, hadded, hadds⟩ := chunks_unless hm (@Cut.addMarkets_chunks old.groupId)
    (d.tickers \ old.tickers)
  have hpieces : s.pieces =
      gone.map (.removeMarkets old.groupId) ++ added.map (.addMarkets old.groupId) := by
    rw [pieces, hold, hd, diff_some_some,
      if_pos (show d.groupId = old.groupId ∧ mustRebuild old d = false from hin),
      List.flatMap_append, hremoves, hadds]
  rw [hpieces] at hdue ⊢
  by_cases hp : s.subscribing old.groupId = true
  · exact absurd (due_markets_none (.inl hp) gone added) hdue
  by_cases hsids : s.groupSids old.groupId = []
  · exact absurd (due_markets_none (.inr hsids) gone added) hdue
  rw [due_markets hc (by simpa using hp) hsids]
  have hnamed := named_sids (s.groupSids old.groupId) (nodup_groupSids _) sid
  simp only [List.flatMap_append, List.flatMap_assoc, hnamed, named_subscribed]
  by_cases hsid : sid ∈ s.groupSids old.groupId
  · simp [hsid, ← hgone, ← hadded, List.flatMap_id']
  · simp [hsid]

theorem due_removeGroup (groupId : String) (later : List PlanChange) :
    s.due (.removeGroup groupId :: later) = [] ∨
      ∃ sids, s.due (.removeGroup groupId :: later) = .unsubscribe sids :: s.due later := by
  cases hok : s.pieceCommands (.removeGroup groupId) with
  | error e =>
      refine .inl ?_
      rw [due, hok]
      rfl
  | ok cmds =>
      obtain ⟨sids, rfl⟩ := realizes_pieceCommands hok
      exact .inr ⟨sids, due_cons rfl hok⟩

/-- What the commands of any other reconciliation name: a group that is
subscribed, its first markets. -/
theorem due_other (hc : s.config.groupChannels ≠ [])
    (hother : ∀ old d, s.applied = some old → s.desired = some d → ¬ InPlace old d) :
    (∀ sid action, (s.due s.pieces).flatMap (Command.namedOn sid action) = []) ∧
      ((s.due s.pieces).flatMap Command.subscribed = [] ∨
        ∃ d, s.desired = some d ∧ (s.due s.pieces).flatMap Command.subscribed =
          (sortedTickers d.tickers).take s.config.maxMarketsPerCommand) ∧
      ∀ d, s.desired = some d → s.due s.pieces ≠ [] →
        (s.due s.pieces).flatMap Command.subscribed =
          (sortedTickers d.tickers).take s.config.maxMarketsPerCommand := by
  have hadd : ∀ d, s.due (splitChange s.config.maxMarketsPerCommand (.addGroup d)) =
      [s.config.subscribeOf (firstOf s.config.maxMarketsPerCommand d)] := by
    intro d
    obtain ⟨chunks, hsplit⟩ := splitChange_firstOf s.config.maxMarketsPerCommand d
    rw [hsplit, due_addGroup, if_neg hc]
  have hfirst : ∀ d, [s.config.subscribeOf (firstOf s.config.maxMarketsPerCommand d)].flatMap
      Command.subscribed = (sortedTickers d.tickers).take s.config.maxMarketsPerCommand := by
    intro d
    rw [List.flatMap_singleton]
    exact sortedTickers_firstOf _ d
  cases happlied : s.applied with
  | none =>
      cases hdesired : s.desired with
      | none =>
          have hnone : s.due s.pieces = [] := by rw [pieces, happlied, hdesired]; rfl
          rw [hnone]
          exact ⟨fun _ _ => rfl, .inl rfl, nofun⟩
      | some d =>
          have hdue : s.due s.pieces =
              [s.config.subscribeOf (firstOf s.config.maxMarketsPerCommand d)] := by
            rw [pieces, happlied, hdesired, diff_none_some, List.flatMap_singleton, hadd]
          rw [hdue]
          refine ⟨fun _ _ => rfl, .inr ⟨d, rfl, hfirst d⟩, fun d' hd' _ => ?_⟩
          obtain rfl := Option.some.inj hd'
          exact hfirst d
  | some old =>
      cases hdesired : s.desired with
      | none =>
          have hpieces : s.pieces = [.removeGroup old.groupId] := by
            rw [pieces, happlied, hdesired, diff_some_none]
            rfl
          rw [hpieces]
          rcases due_removeGroup (s := s) old.groupId [] with hdue | ⟨sids, hdue⟩
          · rw [hdue]
            exact ⟨fun _ _ => rfl, .inl rfl, nofun⟩
          · rw [hdue]
            exact ⟨fun _ _ => rfl, .inl rfl, nofun⟩
      | some d =>
          have hpieces : s.pieces = .removeGroup old.groupId ::
              splitChange s.config.maxMarketsPerCommand (.addGroup d) := by
            have hnot : ¬ (d.groupId = old.groupId ∧ mustRebuild old d = false) :=
              hother old d happlied hdesired
            rw [pieces, happlied, hdesired, diff_some_some, if_neg hnot]
            simp [splitChange]
          rw [hpieces]
          rcases due_removeGroup (s := s) old.groupId
              (splitChange s.config.maxMarketsPerCommand (.addGroup d)) with hdue | ⟨sids, hdue⟩
          · rw [hdue]
            exact ⟨fun _ _ => rfl, .inl rfl, fun _ _ h => absurd rfl h⟩
          · rw [hdue, hadd]
            refine ⟨fun _ _ => rfl, .inr ⟨d, rfl, hfirst d⟩, fun d' hd' _ => ?_⟩
            obtain rfl := Option.some.inj hd'
            exact hfirst d

end Supervisor

/-- What a reconciliation has sent names each market once: on any sid only
markets that join and markets that leave, and in its subscribe only markets of
the group. -/
structure NamesOnce (s : Supervisor) (sent : List (Int × Command)) : Prop where
  added : ∀ sid, (named (Command.namedOn sid .addMarkets) sent).Nodup ∧
    ∀ t ∈ named (Command.namedOn sid .addMarkets) sent,
      t ∈ tickersOf s.desired \ tickersOf s.applied
  removed : ∀ sid, (named (Command.namedOn sid .deleteMarkets) sent).Nodup ∧
    ∀ t ∈ named (Command.namedOn sid .deleteMarkets) sent,
      t ∈ tickersOf s.applied \ tickersOf s.desired
  subscribed : (named Command.subscribed sent).Nodup ∧
    ∀ t ∈ named Command.subscribed sent, t ∈ tickersOf s.desired

/-- What a reconciliation sends from beginning to end leaves no market out: on
each sid of a group that is changed in place, and in the subscribe of a group,
which names as many as it may. -/
structure NamesAll (s : Supervisor) (sent : List (Int × Command)) : Prop where
  inPlace : ∀ old d, s.applied = some old → s.desired = some d → Supervisor.InPlace old d →
    ∀ sid info, s.subscriptions.get? sid = some info → info.groupId = old.groupId →
      (∀ t ∈ d.tickers \ old.tickers, t ∈ named (Command.namedOn sid .addMarkets) sent) ∧
        ∀ t ∈ old.tickers \ d.tickers, t ∈ named (Command.namedOn sid .deleteMarkets) sent
  subscribed : ∀ d, s.desired = some d →
    (∀ old, s.applied = some old → ¬ Supervisor.InPlace old d) →
    named Command.subscribed sent =
      (sortedTickers d.tickers).take s.config.maxMarketsPerCommand

/-- What has been sent is the beginning of what was due. -/
theorem namesOnce_of_due {s : Supervisor} {sent : List (Int × Command)}
    (hm : 1 ≤ s.config.maxMarketsPerCommand) (hc : s.config.groupChannels ≠ [])
    (hdue : s.due s.pieces ≠ [])
    (hpre : ∀ view, Unasked view → named view sent <+: (s.due s.pieces).flatMap view) :
    NamesOnce s sent := by
  have hsorted : ∀ {l : List Ticker} {m : Finset Ticker}, l <+: sortedTickers m →
      l.Nodup ∧ ∀ t ∈ l, t ∈ m := fun hl =>
    ⟨(nodup_sortedTickers _).sublist hl.sublist, fun t ht => mem_sortedTickers.mp (hl.subset ht)⟩
  have hempty : ∀ {l : List Ticker} {m : Finset Ticker}, l <+: [] → l.Nodup ∧ ∀ t ∈ l, t ∈ m := by
    intro l m hl
    rw [List.prefix_nil.mp hl]
    exact ⟨List.nodup_nil, nofun⟩
  have hadded := fun sid => hpre _ (unasked_added sid)
  have hremoved := fun sid => hpre _ (unasked_removed sid)
  have hsubscribed := hpre _ unasked_subscribed
  by_cases hin : ∃ old d, s.applied = some old ∧ s.desired = some d ∧ Supervisor.InPlace old d
  · obtain ⟨old, d, hold, hd, hin⟩ := hin
    have hnamed := Supervisor.due_inPlace hm hc hold hd hin hdue
    rw [(hnamed 0).2.2] at hsubscribed
    refine ⟨fun sid => ?_, fun sid => ?_, hempty hsubscribed⟩
    · have h := hadded sid
      rw [(hnamed sid).1] at h
      rw [hold, hd]
      split at h
      · exact hsorted h
      · exact hempty h
    · have h := hremoved sid
      rw [(hnamed sid).2.1] at h
      rw [hold, hd]
      split at h
      · exact hsorted h
      · exact hempty h
  · obtain ⟨hnone, hfirst, -⟩ := Supervisor.due_other hc fun old d hold hd h =>
      hin ⟨old, d, hold, hd, h⟩
    refine ⟨fun sid => hempty (hnone sid .addMarkets ▸ hadded sid),
      fun sid => hempty (hnone sid .deleteMarkets ▸ hremoved sid), ?_⟩
    rcases hfirst with hfirst | ⟨d, hd, hfirst⟩
    · rw [hfirst] at hsubscribed
      exact hempty hsubscribed
    · rw [hfirst] at hsubscribed
      rw [hd]
      exact hsorted (hsubscribed.trans (List.take_prefix _ _))

/-- What has been sent is all that was due. -/
theorem namesAll_of_due {s : Supervisor} {sent : List (Int × Command)}
    (hm : 1 ≤ s.config.maxMarketsPerCommand) (hc : s.config.groupChannels ≠ [])
    (hdue : s.due s.pieces ≠ [])
    (hall : ∀ view, Unasked view → named view sent = (s.due s.pieces).flatMap view) :
    NamesAll s sent where
  inPlace old d hold hd hin sid info hinfo hg := by
    have hsid : sid ∈ s.groupSids old.groupId := Supervisor.mem_groupSids.mpr ⟨info, hinfo, hg⟩
    obtain ⟨hadded, hremoved, -⟩ := Supervisor.due_inPlace hm hc hold hd hin hdue sid
    rw [if_pos hsid] at hadded hremoved
    rw [hall _ (unasked_added sid), hall _ (unasked_removed sid), hadded, hremoved]
    exact ⟨fun t ht => mem_sortedTickers.mpr ht, fun t ht => mem_sortedTickers.mpr ht⟩
  subscribed d hd hother := by
    obtain ⟨-, -, hfirst⟩ := Supervisor.due_other hc fun old d' hold hd' => by
      obtain rfl := Option.some.inj (hd.symm.trans hd')
      exact hother old hold
    rw [hall _ unasked_subscribed]
    exact hfirst d hd hdue

namespace Conn

variable {config : SupervisorConfig} {c : Conn}

/-- `e` starts a reconciliation at `c`, and it is under way during `mid`. -/
structure Reconciles (c : Conn) (e : ConnEvent) (mid : List ConnEvent) : Prop where
  before : ¬ c.AtPiece
  during : Run.Throughout step AtPiece (c.step e) mid

/-- What has been sent since `c`. -/
def sentSince (c c' : Conn) : List (Int × Command) := c'.sup.sent.drop c.sup.sent.length

/-- All along a reconciliation, what was sent and what remains are what
remained at the start. -/
theorem named_during {mid : List ConnEvent} (hin : Run.Throughout step (Sized config) c mid)
    (hat : Run.Throughout step AtPiece c mid) :
    ∃ sent, (Run.final step c mid).sup.sent = c.sup.sent ++ sent ∧
      ∀ view, Unasked view → named view sent ++ (Run.final step c mid).remaining.flatMap view =
        c.remaining.flatMap view := by
  induction mid generalizing c with
  | nil => exact ⟨[], (List.append_nil _).symm, fun _ _ => rfl⟩
  | cons e mid ih =>
      obtain ⟨sent, hsent, hnamed⟩ := ih hin.2 hat.2
      refine ⟨c.departs e ++ sent, ?_, fun view hview => ?_⟩
      · rw [Run.final_cons, hsent, step_sent, List.append_assoc]
      · have hstep := (pieceStep hin.1 hat.1 hview e).goes hat.2.head
        rw [Run.final_cons, ← hstep, ← hnamed view hview, named, List.flatMap_append,
          List.append_assoc]
        rfl

/-- The commands of one reconciliation, up to any event: they name each market
once, and all of them when it ends. -/
theorem reconciliation_once (hm : 0 < config.maxMarketsPerCommand)
    (hc : config.groupChannels ≠ []) {e last : ConnEvent} {mid : List ConnEvent}
    (hr : Reconciles c e mid) (hin : Run.Throughout step (Sized config) (c.step e) mid) :
    NamesOnce (c.step e).sup
        (sentSince (c.step e) ((Run.final step (c.step e) mid).step last)) ∧
      (last = .sendReturns → ¬ ((Run.final step (c.step e) mid).step last).AtPiece →
        ((Run.final step (c.step e) mid).step last).raised = none →
        NamesAll (c.step e).sup
          (sentSince (c.step e) ((Run.final step (c.step e) mid).step last))) := by
  obtain ⟨hsome, hopens⟩ := opens hr.before hr.during.head
  obtain ⟨sent, hsent, hnamed⟩ := named_during hin hr.during
  have hlast := fun view hview =>
    @pieceStep _ _ view hin.last hr.during.last hview last
  have hsince : sentSince (c.step e) ((Run.final step (c.step e) mid).step last) =
      sent ++ (Run.final step (c.step e) mid).departs last := by
    have hstep := @step_sent (Run.final step (c.step e) mid) last
    rw [sentSince, hstep, hsent, List.append_assoc, List.drop_left]
  have hconfig : (c.step e).sup.config = config := hin.head.holds.state.configured
  rw [hopens] at hsome hnamed
  rw [hsince]
  have hsplit : ∀ view, named view (sent ++ (Run.final step (c.step e) mid).departs last) =
      named view sent ++ named view ((Run.final step (c.step e) mid).departs last) :=
    fun view => List.flatMap_append
  refine ⟨namesOnce_of_due (by rw [hconfig]; exact hm) (by rw [hconfig]; exact hc) hsome
    fun view hview => ?_, fun hreturns hover hraised =>
    namesAll_of_due (by rw [hconfig]; exact hm) (by rw [hconfig]; exact hc) hsome
      fun view hview => ?_⟩
  · rw [hsplit, ← hnamed view hview]
    by_cases hgoes : ((Run.final step (c.step e) mid).step last).AtPiece
    · rw [← (hlast view hview).goes hgoes, ← List.append_assoc]
      exact List.prefix_append _ _
    · rw [(hlast view hview).ends hgoes, List.append_nil]
      exact List.prefix_append _ _
  · have hdone := (hlast view hview).done hover hreturns hraised
    rw [hsplit, (hlast view hview).ends hover, ← hnamed view hview, hdone]
    rfl

/-- What a frame or a merge makes a connection ask for, in one command, is each
market it concerns, once. -/
structure AsksOnce (c : Conn) : Prop where
  frame : ∀ f env cmd, (c.sup.receiveFrame f).2 = some (env, some cmd) →
    ∃ sid tickers, env.sid = some sid ∧ cmd = .updateSubscription sid .getSnapshot tickers ∧
      tickers.Nodup ∧ tickers.toFinset = c.sup.concerned sid env
  delta : ∀ env receipt cmd, (c.sup.dispatch env receipt).2 = .send cmd →
    ∃ sid t, cmd = .updateSubscription sid .getSnapshot [t]
  merge : ∀ env cmd, (c.sup.withLock env).2 = .resume (some cmd) →
    ∃ sid reported tickers, cmd = .updateSubscription sid .getSnapshot tickers ∧
      tickers.Nodup ∧ tickers.toFinset = c.sup.unfresh sid reported

theorem asksOnce (c : Conn) : AsksOnce c where
  frame f env cmd h := by
    obtain ⟨sid, -, hsid, -, -, rfl⟩ := Supervisor.receiveFrame_asks h
    exact ⟨sid, _, hsid, rfl, nodup_sortedTickers _, toFinset_sortedTickers _⟩
  delta env receipt cmd h := Supervisor.dispatch_asks h
  merge env cmd h := by
    obtain ⟨p, sid, msg, reported, -, -, -, -, -, rfl⟩ := Supervisor.withLock_asks h
    exact ⟨sid, reported, _, rfl, nodup_sortedTickers _, toFinset_sortedTickers _⟩

/-- Every command a connection has sent names as many markets as it may, and
what it asks for is each market concerned, once. -/
structure Respects (config : SupervisorConfig) (c : Conn) : Prop where
  sent : ∀ x ∈ c.sup.sent, x.2.Within config
  asks : AsksOnce c

/-- Every reconciliation of a run names each market concerned once. -/
def ReconcilesOnce (config : SupervisorConfig) (es : List ConnEvent) : Prop :=
  ∀ pre e mid last, pre ++ e :: (mid ++ [last]) <+: es →
    let before := Run.final step (.new config) pre
    let start := before.step e
    let stop := (Run.final step start mid).step last
    Reconciles before e mid →
      NamesOnce start.sup (sentSince start stop) ∧
        (last = .sendReturns → ¬ stop.AtPiece → stop.raised = none →
          NamesAll start.sup (sentSince start stop))

theorem commands_respect (config : SupervisorConfig) (hc : config.groupChannels ≠ [])
    (hm : 0 < config.maxMarketsPerCommand) (es : List ConnEvent)
    (hes : Run.Along step FitsOneCommand (.new config) es) :
    Run.Throughout step (Respects config) (.new config) es ∧ ReconcilesOnce config es := by
  have hsized := sized_throughout hm es hes
  refine ⟨hsized.mono fun c h => ⟨h.sent, asksOnce c⟩, ?_⟩
  intro pre e mid last hpre before start stop hr
  refine reconciliation_once hm hc hr (Run.throughout_iff_prefix.mpr fun run hrun => ?_)
  have hreach : Run.final step start run = Run.final step (.new config) (pre ++ e :: run) := by
    rw [Run.final_append, Run.final_cons]
  rw [hreach]
  refine Run.throughout_iff_prefix.mp hsized _ (List.IsPrefix.trans ?_ hpre)
  refine (List.prefix_append_right_inj pre).mpr (List.cons_prefix_cons.mpr ⟨rfl, ?_⟩)
  exact hrun.trans (List.prefix_append _ _)

/-! A group of two markets on a connection whose commands name one, and on one
whose commands name two, up to a gap. -/

/-- Two markets of which the second meets a gap, sent in pieces of a size. -/
def gapOfPair (n : Nat) : List ConnEvent :=
  [.begin, .opened, .setGroup (some twoMarkets), .acquire, .transmit, .sendReturns,
    .receive (subscribedFrame 1 orderbookChannel 1), .acquireFrame] ++
  (if n = 1 then [.transmit, .sendReturns] else []) ++
  [.receive (snapshotFrame 1 1 "KXA"), .receive (snapshotFrame 1 3 "KXB"), .transmitFrame]

/-- A recorder that sends commands in pieces of a size. -/
def sizeConfig (n : Nat) : SupervisorConfig := ⟨0, [orderbookChannel], [], true, true, n⟩

theorem pair_respected :
    Run.Throughout step (Respects (sizeConfig 2)) (.new (sizeConfig 2)) (gapOfPair 2) ∧
      ReconcilesOnce (sizeConfig 2) (gapOfPair 2) := by
  refine commands_respect (sizeConfig 2) (by decide) (by decide) (gapOfPair 2) ?_
  refine ⟨trivial, trivial, ?_, trivial, trivial, trivial, ?_, ?_, ?_, ?_, trivial, trivial⟩
  · intro g hg
    obtain rfl := Option.some.inj hg
    decide
  · intro _ _ env sid henv hsid
    obtain rfl := Except.ok.inj henv
    cases hsid
  · intro env henv p sid msg tickers _ hbody
    obtain rfl := FrameTask.waiting.inj (Option.some.inj henv)
    cases hbody
  · intro _ _ env sid henv hsid _
    obtain rfl := Except.ok.inj henv
    obtain rfl := Option.some.inj hsid
    decide +kernel
  · intro _ _ env sid henv hsid _
    obtain rfl := Except.ok.inj henv
    obtain rfl := Option.some.inj hsid
    decide +kernel

/-- The request after the gap names both markets. -/
theorem pair_exceeded :
    ¬ Run.Throughout step (Respects (sizeConfig 1)) (.new (sizeConfig 1)) (gapOfPair 1) := by
  intro h
  have hmem : (3, Command.updateSubscription 1 .getSnapshot ["KXA", "KXB"]) ∈
      (Run.final step (.new (sizeConfig 1)) (gapOfPair 1)).sup.sent := by decide +kernel
  have hmany : 2 ≤ 1 := (h.last.sent _ hmem).2.1
  omega

end Conn

end Tape
