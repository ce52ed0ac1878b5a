import Tape.Recorder.Freshness

/-!
# The snapshots of markets that join

A membership change is one command per subscription, and the markets join the
applied group when the last of them has been sent. Frames do not wait for that:
a snapshot that answers the first command may be handled while the second is
being sent, and it is dropped, since its market is not in the group yet. Nothing
asks for it again. The docstring of `_book_for` means to drop stragglers of
subscriptions and markets that are retired; this market is about to join
(`snapshotWhileSending_dropped`).

`added_snapshot_kept` says when the snapshot is kept: on every run after the
command on which the change that adds the market is carried to its end before
the snapshot is handled, and no reply leaves the market out.
-/

namespace Tape

/-- A command names a market to join. -/
def Command.Adds (t : Ticker) : Command → Prop
  | .subscribe _ (some tickers) _ => t ∈ tickers
  | .updateSubscription _ .addMarkets tickers => t ∈ tickers
  | _ => False

/-- A command takes a market away; an unsubscribe takes the whole group. -/
def Command.Removes (t : Ticker) : Command → Prop
  | .updateSubscription _ .deleteMarkets tickers => t ∈ tickers
  | .unsubscribe _ => True
  | _ => False

/-- A piece adds a market. -/
def PlanChange.Adds (t : Ticker) : PlanChange → Prop
  | .addGroup g => t ∈ g.tickers
  | .addMarkets _ tickers => t ∈ tickers
  | _ => False

/-- A piece takes a market away. -/
def PlanChange.Removes (t : Ticker) : PlanChange → Prop
  | .removeGroup _ => True
  | .removeMarkets _ tickers => t ∈ tickers
  | _ => False

variable {t : Ticker} {piece : PlanChange}

theorem Realizes.adds {cmds : List Command} (h : Realizes piece cmds) {cmd : Command}
    (hc : cmd ∈ cmds) (ha : cmd.Adds t) : piece.Adds t := by
  cases piece with
  | addGroup g =>
      obtain ⟨_, _, rfl⟩ := h
      obtain rfl := List.mem_singleton.mp hc
      exact mem_sortedTickers.mp ha
  | removeGroup id =>
      obtain ⟨_, rfl⟩ := h
      obtain rfl := List.mem_singleton.mp hc
      exact ha
  | addMarkets id tickers =>
      obtain ⟨sid, rfl⟩ := h.2 cmd hc
      exact ha
  | removeMarkets id tickers =>
      obtain ⟨sid, rfl⟩ := h.2 cmd hc
      exact ha

theorem Realizes.removes {cmds : List Command} (h : Realizes piece cmds) {cmd : Command}
    (hc : cmd ∈ cmds) (hr : piece.Removes t) : cmd.Removes t := by
  cases piece with
  | addGroup g => exact hr.elim
  | removeGroup id =>
      obtain ⟨_, rfl⟩ := h
      obtain rfl := List.mem_singleton.mp hc
      trivial
  | addMarkets id tickers => exact hr.elim
  | removeMarkets id tickers =>
      obtain ⟨sid, rfl⟩ := h.2 cmd hc
      exact hr

/-- A market stays in the group through every piece that does not take it away. -/
theorem mem_recordedGroup {applied : Option Group} (hf : Fits applied piece)
    (h : t ∈ tickersOf applied ∨ piece.Adds t) (hr : ¬ piece.Removes t) :
    t ∈ tickersOf (recordedGroup applied piece) := by
  cases piece with
  | addGroup g =>
      obtain rfl : applied = none := hf
      exact h.resolve_left (Finset.notMem_empty t)
  | removeGroup id => exact absurd trivial hr
  | addMarkets id tickers =>
      obtain ⟨g, rfl, -⟩ := hf
      rcases h with h | h
      · exact Finset.mem_union_left _ h
      · exact Finset.mem_union_right _ (List.mem_toFinset.mpr h)
  | removeMarkets id tickers =>
      obtain ⟨g, rfl, -⟩ := hf
      refine Finset.mem_sdiff.mpr ⟨h.resolve_right fun hno => hno, fun hin => hr ?_⟩
      exact List.mem_toFinset.mp hin

namespace Supervisor

variable {s : Supervisor}

/-! ## What leaves the applied group as it is -/

theorem nextPiece_applied {pieces : List PlanChange} :
    (s.nextPiece pieces).1.applied = s.applied := by
  cases pieces with
  | nil => rfl
  | cons piece later =>
      rw [nextPiece]
      split
      · rfl
      · split
        · rfl
        · rfl
        · next hok =>
            exact absurd rfl (realizes_pieceCommands hok).ne_nil

theorem startReconcile_applied : s.startReconcile.1.applied = s.applied := by
  rw [startReconcile]
  have hguard : s.reconcileGuard.1.applied = s.applied := by
    rw [reconcileGuard]
    split
    · rfl
    · split
      · rfl
      · split <;> rfl
  split
  · next h => rw [h] at hguard; exact hguard
  · next s' h =>
      rw [h] at hguard
      split
      · exact hguard
      · rw [nextPiece_applied]
        exact hguard

theorem resume_applied : s.resume.1.applied = s.applied := by
  rw [resume]
  split
  · exact startReconcile_applied
  · rfl

theorem transmit_applied (cmd : Command) : (s.transmit cmd).1.applied = s.applied :=
  (Conn.transmit_touched s cmd).control.applied

/-! ## Replies -/

/-- A reply leaves a market of the group in it. -/
structure KeepsMember (s : Supervisor) (t : Ticker) (env : Envelope) : Prop where
  /-- A merge reports the market. -/
  merged : ∀ p sid channel msg tickers, s.answering env = some (p, sid, channel) →
    env.body = .ok (.ok msg) → msg.marketTickers = some tickers → tickers ≠ [] →
    s.appliedId = some p.groupId → t ∈ tickers
  /-- The group is not refused as a whole. -/
  refused : ∀ id p msg, env.body = .error (.ok msg) → env.id = some id →
    s.pending.get? id = some p → p.groupId ≠ firehoseGroupId → s.Carried p.groupId

theorem mem_adoptMembership (ht : t ∈ tickersOf s.applied) (groupId : String) (sid : Sid)
    (channel : String) (marketTickers : Option (List Ticker))
    (hmerged : ∀ tickers, marketTickers = some tickers → tickers ≠ [] →
      s.appliedId = some groupId → t ∈ tickers) :
    t ∈ tickersOf (s.adoptMembership groupId sid channel marketTickers).1.applied := by
  have hsnap : ∀ {s : Supervisor} (tickers : Finset Ticker), t ∈ tickersOf s.applied →
      t ∈ tickersOf (s.requestSnapshot sid tickers).1.applied := by
    intro s tickers h
    rw [(s.requestSnapshot_control sid tickers).1.applied]
    exact h
  rw [adoptMembership.eq_def]
  split
  · next _ _ u us g hg =>
      split
      · exact ht
      · next hgroup =>
          have hin := hmerged (u :: us) rfl (List.cons_ne_nil _ _)
            (by rw [appliedId, hg]; exact congrArg some (not_not.mp hgroup))
          have hadopted : t ∈ tickersOf (if (u :: us).toFinset ≠ g.tickers then
              { s with applied := some { g with tickers := (u :: us).toFinset }
                       reconcileDeferred := true }
              else s).applied := by
            split
            · exact List.mem_toFinset.mpr hin
            · exact ht
          simp only
          split
          · exact hadopted
          · exact hsnap _ hadopted
  · exact ht

theorem mem_withLock (ht : t ∈ tickersOf s.applied) {env : Envelope}
    (hk : s.KeepsMember t env) : t ∈ tickersOf (s.withLock env).1.applied := by
  rw [withLock.eq_def]
  split
  · simp only
    split
    · exact ht
    · split <;> exact ht
  · next msg hbody =>
      split
      · exact ht
      · next id hid =>
          split
          · next p sid hp hsid =>
              split
              · exact ht
              · next channel hchannel =>
                  split
                  · exact ht
                  · next hin =>
                      split
                      · exact ht
                      · next m =>
                          have hanswering : s.answering env = some (p, sid, channel) := by
                            simp only [answering, hid, hp, hbody, hsid, hchannel]
                            rw [if_pos (not_not.mp hin)]
                          refine mem_adoptMembership (s := s.answer id p sid channel) ht _ _ _ _ ?_
                          exact fun tickers => hk.merged p sid channel m tickers hanswering hbody
          · exact ht
  · next msg hbody =>
      split
      · exact ht
      · next id hid =>
          split
          · exact ht
          · next p hp =>
              simp only
              split
              · exact ht
              · next hnot =>
                  split
                  · next hall =>
                      obtain ⟨sid, info, hinfo, hg⟩ := hk.refused id p msg hbody hid hp hnot
                      rw [List.all_eq_true] at hall
                      have := hall info (List.mem_map_of_mem (Dict.get?_eq_some_iff.mp hinfo))
                      exact absurd hg (by simpa using this)
                  · exact ht
  · exact ht

theorem mem_lockedReply (ht : t ∈ tickersOf s.applied) {env : Envelope}
    (hk : s.KeepsMember t env) : t ∈ tickersOf (s.lockedReply env).1.applied := by
  have hin := mem_withLock ht hk
  rw [lockedReply]
  split
  · next h => rw [h] at hin; exact hin
  · next h =>
      rw [h] at hin
      rw [resume_applied]
      exact hin
  · next h => rw [h] at hin; exact hin

/-! ## The snapshot -/

/-- A valid snapshot of a market a frame may touch is the book. -/
theorem onSnapshot_kept {e : BookSnapshot} (hmay : s.mayTouch e.sid e.ticker = true)
    (hv : Book.ValidImage e.bids e.asks) :
    ∃ b, (s.onSnapshot e).books.get? e.ticker = some b ∧ b.stale = false ∧
      b.depth = Depth.ofLevels e.bids e.asks := by
  have hfinish : (s.finishResync e.sid e.ticker).mayTouch e.sid e.ticker = true := hmay
  rw [onSnapshot]
  simp only [hfinish, if_true]
  obtain ⟨-, hfresh, hdepth, -⟩ := Book.applySnapshot_of_valid
    ((s.finishResync e.sid e.ticker).books.getD e.ticker (Book.new e.ticker)) e.tsMs hv
  split <;> next happly =>
    rw [happly] at hfresh hdepth
    exact ⟨_, Dict.get?_set_self _ _ _, hfresh, hdepth⟩

end Supervisor

namespace Conn

variable {c : Conn}

/-- The change that adds a market is being sent. -/
def Adding (t : Ticker) (c : Conn) : Prop :=
  ∃ h piece cmd rest later, c.holder = some h ∧ h.work = .piece piece cmd rest later ∧
    piece.Adds t

/-- The connection lasts, and no command that leaves takes the market away. -/
def Keeps (t : Ticker) (c : Conn) : ConnEvent → Prop
  | .finish _ => False
  | .transmit => ∀ h cmd, c.holder = some h → c.sup.command h.work = some cmd → ¬ cmd.Removes t
  | _ => True

/-- The change that adds the market is not cut off, and no reply leaves the
market out. -/
def CarriesOut (t : Ticker) (c : Conn) : ConnEvent → Prop
  | .transmit => c.Adding t → ∃ session, c.sup.session = some session ∧ session.isOpen = true
  | .sendFails => ¬ c.Adding t
  | .cancelHolder => ¬ c.Adding t
  | .cancelFrame => c.frame = some .locked → ¬ c.Adding t
  | .acquireFrame => ∀ env, c.frame = some (.waiting env) → c.sup.KeepsMember t env
  | _ => True

/-- The market is in the group, or the change that adds it is being sent. -/
structure Joined (t : Ticker) (c : Conn) : Prop where
  opened : c.opened = true
  member : t ∈ tickersOf c.sup.applied ∨ c.Adding t
  /-- Nothing that has left takes the market away. -/
  stays : ∀ owner piece cmd rest later id,
    c.holder = some ⟨owner, .piece piece cmd rest later, some id⟩ → ¬ piece.Removes t

/-- What every run keeps to: what is under way fits. -/
theorem underway_bookkeeping :
    Bookkeeping (fun _ => True) (fun _ => True) True (fun _ => True) (fun _ _ => True)
      (fun _ _ _ => True) where
  touched _ _ _ _ := trivial
  setGroup _ _ _ _ _ := trivial
  deferred _ _ _ := trivial
  firehose _ _ := trivial
  firehoseSent _ _ _ _ := trivial
  planned _ _ _ _ := trivial
  unplanned _ _ _ _ _ _ _ _ _ := trivial
  recorded _ _ _ _ _ _ _ := trivial
  reply _ _ _ _ := trivial
  prune _ _ := trivial
  forget _ _ _ := trivial
  ended _ _ _ := trivial

theorem Joined.moved (h : Joined t c) {s : Supervisor} (ha : s.applied = c.sup.applied)
    (frame : Option FrameTask) (callers : Nat) (wire : List (Int × Command)) :
    Joined t { c with sup := s, frame, callers, wire } where
  opened := h.opened
  member := by rw [ha]; exact h.member
  stays := h.stays

theorem no_sent {P : PlanChange → Prop} (owner : Owner) (piece : PlanChange) (cmd : Command)
    (rest : List Command) (later : List PlanChange) (id : Int)
    (hh : none = some (Holder.mk owner (.piece piece cmd rest later) (some id))) : P piece := by
  cases hh

/-- A stretch of the holder that ends with the market in the group. -/
theorem joined_settle (ho : c.opened = true) (owner : Owner) {r : Supervisor × Supervisor.Pause}
    (ht : t ∈ tickersOf r.1.applied) : Joined t (c.settle owner r) := by
  obtain ⟨s, pause⟩ := r
  cases pause with
  | done =>
      cases owner with
      | setGroup => exact ⟨ho, .inl ht, no_sent⟩
      | frame => exact ⟨ho, .inl ht, no_sent⟩
      | run => exact ⟨ho, .inl ht, no_sent⟩
  | send work =>
      refine ⟨ho, .inl ht, fun _ _ _ _ _ _ hh => ?_⟩
      cases hh
  | raise failure => exact ⟨ho, .inl ht, no_sent⟩

/-- Without a change under way, the market is in the group. -/
theorem Joined.mem (h : Joined t c) (hn : ¬ c.Adding t) : t ∈ tickersOf c.sup.applied :=
  h.member.resolve_right hn

theorem not_adding_of_none (h : c.holder = none) : ¬ c.Adding t := by
  rintro ⟨_, _, _, _, _, hh, -⟩
  rw [h] at hh
  cases hh

theorem not_adding_of_work {h : Holder} (hh : c.holder = some h)
    (hw : ∀ piece cmd rest later, h.work ≠ .piece piece cmd rest later) : ¬ c.Adding t := by
  rintro ⟨h', piece, cmd, rest, later, hh', hw', -⟩
  obtain rfl := Option.some.inj (hh.symm.trans hh')
  exact hw piece cmd rest later hw'

theorem Joined.sendFailed (h : Joined t c) (hn : ¬ c.Adding t) (owner : Owner) :
    Joined t (c.sendFailed owner) := by
  have ht := h.mem hn
  cases owner with
  | setGroup =>
      refine ⟨h.opened, .inl ht, fun _ _ _ _ _ _ hh => ?_⟩
      cases hh
  | frame => exact ⟨h.opened, .inl ht, no_sent⟩
  | run => exact ⟨h.opened, .inl ht, no_sent⟩

/-- The frame task leaves the group and what is being sent as they are. -/
theorem Joined.beside (h : Joined t c) {c' : Conn} (hb : Beside c c') : Joined t c' where
  opened := hb.opened.trans h.opened
  member := by
    rw [hb.touched.control.applied, Adding, hb.holder]
    exact h.member
  stays := by
    rw [hb.holder]
    exact h.stays

/-- The end of a send: the piece goes on, or is recorded. -/
theorem Joined.sent (h : Joined t c) {owner : Owner} {work : Work} {id : Int}
    (hh : c.holder = some ⟨owner, work, some id⟩) (hk : Underway (fun _ => True) c.sup work)
    (cmd : Command) : Joined t
    (c.settle owner ((c.sup.put (.command id cmd)).afterSend work id)) := by
  have hput : (c.sup.put (.command id cmd)).applied = c.sup.applied := rfl
  generalize c.sup.put (.command id cmd) = s at hput
  cases work with
  | request cmd =>
      refine joined_settle h.opened owner ?_
      rw [Supervisor.afterSend, Supervisor.resume_applied, hput]
      exact h.mem (not_adding_of_work hh (by simp))
  | firehose =>
      refine joined_settle h.opened owner ?_
      rw [Supervisor.afterSend, Supervisor.nextPiece_applied]
      exact hput ▸ h.mem (not_adding_of_work hh (by simp))
  | closing =>
      refine joined_settle h.opened owner ?_
      rw [Supervisor.afterSend, hput]
      exact h.mem (not_adding_of_work hh (by simp))
  | piece piece cmd rest later =>
      obtain ⟨hplan, -, -⟩ := hk
      have hafter : (s.afterCommand piece id).applied = c.sup.applied := by
        cases piece <;> exact hput
      have hadds : t ∈ tickersOf c.sup.applied ∨ piece.Adds t := by
        refine h.member.imp (fun ht => ht) ?_
        rintro ⟨_, _, _, _, _, hh', hw, hadds⟩
        obtain rfl := Option.some.inj (hh.symm.trans hh')
        cases hw
        exact hadds
      cases rest with
      | nil =>
          refine joined_settle h.opened owner ?_
          have hfits : Fits (s.afterCommand piece id).applied piece := hafter ▸ hplan.chain.1
          have hmem := mem_recordedGroup (hafter ▸ hfits) hadds (h.stays _ _ _ _ _ _ hh)
          obtain ⟨-, hrecorded, -⟩ := Supervisor.recordChange_of_fits hfits
          rw [hafter] at hrecorded
          rw [Supervisor.afterSend]
          split
          · next hr =>
              rw [hr] at hrecorded
              exact hrecorded ▸ hmem
          · next hr =>
              rw [hr] at hrecorded
              rw [Supervisor.nextPiece_applied]
              exact hrecorded ▸ hmem
      | cons next rest =>
          refine ⟨h.opened, ?_, fun _ _ _ _ _ _ hheld => ?_⟩
          · rw [Supervisor.afterSend]
            refine hadds.imp (fun ht => ?_) fun ha => ⟨_, piece, next, rest, later, rfl, rfl, ha⟩
            exact hafter ▸ ht
          · cases hheld

/-- A command leaves: the change that adds the market goes on, and none that has
left takes it away. -/
theorem Joined.step_transmit (h : Joined t c)
    (hb : Holds (fun _ => True) (Underway fun _ => True) True c) (hk : Keeps t c .transmit)
    (hc : CarriesOut t c .transmit) : Joined t (c.step .transmit) := by
  rw [Conn.step]
  split
  · next owner work hh =>
      split
      · exact h
      · next cmd hcmd =>
          have ha := c.sup.transmit_applied cmd
          split
          · next hs =>
              rw [hs] at ha
              refine ⟨h.opened, ?_, ?_⟩
              · refine h.member.imp (fun ht => ha ▸ ht) ?_
                rintro ⟨_, piece, cmd', rest, later, hh', hw, hadds⟩
                obtain rfl := Option.some.inj (hh.symm.trans hh')
                exact ⟨_, piece, cmd', rest, later, rfl, hw, hadds⟩
              · intro owner' piece cmd' rest later id' hheld hremoves
                cases hheld
                obtain rfl := Option.some.inj hcmd
                obtain ⟨-, -, hreal⟩ := (hb.work _ hh).resolve_left (by rintro ⟨⟩)
                exact hk _ _ hh rfl (hreal.removes List.mem_cons_self hremoves)
          · next hs =>
              -- A send that fails is not one of the change that adds the market.
              refine h.sendFailed (fun hadding => ?_) owner
              obtain ⟨session, hsession, hopen⟩ := hc hadding
              rw [Supervisor.transmit, hsession] at hs
              simp only [hopen, if_true] at hs
              cases hs
  · exact h

/-- The holder's send returns. -/
theorem Joined.step_sendReturns (h : Joined t c)
    (hb : Holds (fun _ => True) (Underway fun _ => True) True c) :
    Joined t (c.step .sendReturns) := by
  rw [Conn.step]
  split
  · next owner _ hh =>
      exact joined_settle (r := (c.sup, .done)) h.opened owner
        (h.mem (not_adding_of_work hh (by simp)))
  · next owner work id hne hh =>
      split
      · exact h
      · next cmd _ => exact h.sent hh ((hb.work _ hh).resolve_left fun hw => hne hw) cmd
  · exact h

theorem Joined.step (h : Joined t c) (hb : Holds (fun _ => True) (Underway fun _ => True) True c)
    (e : ConnEvent) (hk : Keeps t c e) (hc : CarriesOut t c e) : Joined t (c.step e) := by
  have hstart : ∀ {s : Supervisor}, s.applied = c.sup.applied → t ∈ tickersOf c.sup.applied →
      t ∈ tickersOf s.startReconcile.1.applied := by
    intro s ha ht
    rw [Supervisor.startReconcile_applied, ha]
    exact ht
  cases e with
  | begin =>
      rw [Conn.step, if_neg (by simp [h.opened])]
      exact h
  | opened =>
      rw [Conn.step]
      split
      · next ho => rw [h.opened] at ho; cases ho
      · exact h
  | start =>
      rw [Conn.step]
      split
      · next hc => exact joined_settle h.opened .run (hstart rfl (h.mem (not_adding_of_none hc.2)))
      · exact h
  | lost => exact h.moved (s := c.sup.closeSession) rfl c.frame c.callers c.wire
  | setGroup group =>
      rw [Conn.step]
      split
      · exact h.moved (s := { c.sup with desired := group }) rfl c.frame _ c.wire
      · exact h
  | acquire =>
      rw [Conn.step]
      split
      · next hc =>
          exact joined_settle (c := { c with callers := c.callers - 1 }) h.opened .setGroup
            (hstart rfl (h.mem (not_adding_of_none hc.1)))
      · exact h
  | receive f => exact h.beside (beside_receive c f)
  | acquireFrame =>
      rw [Conn.step]
      split
      · next env hf =>
          split
          · next hnone =>
              refine joined_settle (c := { c with frame := some .locked }) h.opened .frame ?_
              exact Supervisor.mem_lockedReply (h.mem (not_adding_of_none hnone)) (hc env hf)
          · exact h
      · exact h
  | transmit => exact h.step_transmit hb hk hc
  | sendReturns => exact h.step_sendReturns hb
  | sendFails =>
      rw [Conn.step]
      split
      · exact h
      · next owner _ _ _ _ => exact h.sendFailed hc owner
      · exact h
  | transmitFrame => exact h.beside (beside_transmitFrame c)
  | frameSendReturns => exact h.beside (beside_frameSendReturns c)
  | frameSendFails => exact h.beside (beside_frameSendFails c)
  | cancelHolder =>
      rw [Conn.step]
      split
      · exact ⟨h.opened, .inl (h.mem hc), no_sent⟩
      · exact ⟨h.opened, .inl (h.mem hc), no_sent⟩
  | cancelFrame =>
      rw [Conn.step]
      split
      · next hf => exact ⟨h.opened, .inl (h.mem (hc hf)), no_sent⟩
      · exact h.moved (s := c.sup) rfl none c.callers c.wire
  | finish detail => exact hk.elim

/-! ## The snapshot of a market that joins -/

/-- The event dispatches a frame. -/
def Dispatches (c : Conn) (e : ConnEvent) (env : Envelope) (receipt : Receipt) : Prop :=
  match e with
  | .receive f => c.opened = true ∧ c.frame.isNone = true ∧
      (c.sup.receiveFrame f).2 = some (env, none) ∧ receipt = c.sup.receiptOf f
  | .frameSendReturns => ∃ cmd id, c.frame = some (.resync env receipt cmd (some id))
  | _ => False

/-- The connection after the command that a run leads up to, and after what
follows it. -/
def afterCommand (config : SupervisorConfig) (es₁ : List ConnEvent) : Conn :=
  (Run.final step (.new config) es₁).step .transmit

/-- The connection after the command, and after what happened since. -/
def later (config : SupervisorConfig) (es₁ es₂ : List ConnEvent) : Conn :=
  Run.final step (afterCommand config es₁) es₂

/-- A run sends a command that adds a market and none that takes it away, the
market stays desired, and then a valid snapshot of it is handled on a live
orderbook subscription. -/
structure SnapshotAfterAdd (config : SupervisorConfig) (t : Ticker) (es₁ es₂ : List ConnEvent)
    (e : ConnEvent) (snapshot : BookSnapshot) : Prop where
  sent : ∃ id cmd, (afterCommand config es₁).wire =
    (Run.final step (.new config) es₁).wire ++ [(id, cmd)] ∧ cmd.Adds t
  keeps : Run.Along step (Keeps t) (afterCommand config es₁) es₂
  desired : Run.Throughout step (fun c => t ∈ tickersOf c.sup.desired)
    (afterCommand config es₁) es₂
  handled : ∃ env receipt msg, (later config es₁ es₂).Dispatches e env receipt ∧
    env.body = .orderbookSnapshot msg ∧
    readSnapshot msg env receipt (later config es₁ es₂).sup.config.useYesPrice = .ok snapshot
  ticker : snapshot.ticker = t
  live : (later config es₁ es₂).sup.isBookSid snapshot.sid = true
  valid : Book.ValidImage snapshot.bids snapshot.asks

/-- The book of a market is fresh, with exactly the levels of a snapshot. -/
def Shows (c : Conn) (snapshot : BookSnapshot) : Prop :=
  ∃ b, c.sup.books.get? snapshot.ticker = some b ∧ b.stale = false ∧
    b.depth = Depth.ofLevels snapshot.bids snapshot.asks

/-- What every run keeps to. -/
theorem holds_underway (config : SupervisorConfig) (es : List ConnEvent) :
    Holds (fun _ => True) (Underway fun _ => True) True (Run.final step (.new config) es) := by
  have hall : Run.Along step (Meets (fun _ => True) (fun _ _ => True) fun _ _ => True)
      (.new config) es := by
    refine (Run.along_true _ es).mono fun c e _ => ?_
    cases e <;> simp [Meets]
  exact (underway_bookkeeping.discipline.throughout config trivial es
    (hall.mono fun _ _ => Meets.records)).last

/-- The command that adds a market is of a change that adds it. -/
theorem joined_of_sent (hb : Holds (fun _ => True) (Underway fun _ => True) True c) {id : Int}
    {cmd : Command} (hsent : (c.step .transmit).wire = c.wire ++ [(id, cmd)])
    (ha : cmd.Adds t) : Joined t (c.step .transmit) := by
  have hgrew : ∀ {c' : Conn}, c'.wire = c.wire → c'.wire ≠ c.wire ++ [(id, cmd)] := by
    intro c' hsame hgrown
    simp [hsame] at hgrown
  rw [Conn.step] at hsent ⊢
  split at hsent
  · next owner work hh =>
      split at hsent
      · exact absurd hsent (hgrew rfl)
      · next cmd' hcmd =>
          split at hsent
          · next s id' hs =>
              obtain ⟨-, rfl⟩ : id' = id ∧ cmd' = cmd := by simpa using hsent
              have hunder := hb.work _ hh
              cases work with
              | request cmd =>
                  obtain ⟨sid, tickers, rfl⟩ := hunder.resolve_left (by rintro ⟨⟩)
                  obtain rfl := Option.some.inj hcmd
                  exact ha.elim
              | firehose =>
                  obtain rfl := Option.some.inj hcmd
                  exact ha.elim
              | closing => cases hcmd
              | piece piece cmd rest later =>
                  obtain rfl := Option.some.inj hcmd
                  obtain ⟨-, -, hreal⟩ := hunder.resolve_left (by rintro ⟨⟩)
                  have hadds : piece.Adds t := hreal.adds List.mem_cons_self ha
                  refine ⟨hb.opened_of_holder hh, .inr ⟨_, piece, _, rest, later, rfl, rfl, hadds⟩,
                    ?_⟩
                  intro owner' piece' cmd' rest' later' id'' hheld hremoves
                  cases hheld
                  cases piece with
                  | addGroup g => exact hremoves
                  | addMarkets groupId tickers => exact hremoves
                  | removeGroup groupId => exact hadds
                  | removeMarkets groupId tickers => exact hadds
          · refine absurd hsent (hgrew ?_)
            cases owner <;> rfl
  · exact absurd hsent (hgrew rfl)

/-- The frame that is dispatched is handled as it stands. -/
theorem Dispatches.step {e : ConnEvent} {env : Envelope} {receipt : Receipt}
    (h : c.Dispatches e env receipt) :
    ∃ s, (c.step e).sup = (s.dispatch env receipt).1 ∧ c.sup.SameControl s := by
  cases e with
  | receive f =>
      obtain ⟨ho, hnone, hframe, rfl⟩ := h
      have hc := (c.sup.touched_receiveFrame f).control
      rw [Conn.step, if_pos ⟨ho, hnone⟩]
      split
      · next hr => rw [hr] at hframe; cases hframe
      · next s env' hr =>
          rw [hr] at hframe hc
          obtain rfl : env' = env := congrArg Prod.fst (Option.some.inj hframe)
          refine ⟨s, ?_, hc⟩
          have hreceipt : s.receiptOf f = c.sup.receiptOf f := by
            rw [Supervisor.receiptOf, Supervisor.receiptOf, hc.config]
          rw [← hreceipt]
          exact dispatched_sup { c with sup := s } env' _
      · next hr => rw [hr] at hframe; cases hframe
  | frameSendReturns =>
      obtain ⟨cmd, id, hframe⟩ := h
      refine ⟨c.sup.put (.command id cmd), ?_, (put_touched c.sup _).control⟩
      rw [Conn.step]
      simp only [hframe]
      exact dispatched_sup _ env receipt
  | _ => exact h.elim

theorem added_snapshot_kept {config : SupervisorConfig} {t : Ticker} {es₁ es₂ : List ConnEvent}
    {e : ConnEvent} {snapshot : BookSnapshot}
    (h : SnapshotAfterAdd config t es₁ es₂ e snapshot)
    (hcarried : Run.Along step (CarriesOut t) (afterCommand config es₁) es₂)
    (hdone : ¬ (later config es₁ es₂).Adding t) :
    ((later config es₁ es₂).step e).Shows snapshot := by
  obtain ⟨id, cmd, hsent, hadds⟩ := h.sent
  have hstart := joined_of_sent (holds_underway config es₁) hsent hadds
  have hbase : Holds (fun _ => True) (Underway fun _ => True) True (afterCommand config es₁) := by
    have := holds_underway config (es₁ ++ [.transmit])
    rwa [Run.final_append] at this
  have hboth : Run.Along step (fun c e => Keeps t c e ∧ CarriesOut t c e)
      (afterCommand config es₁) es₂ := h.keeps.and hcarried
  have hrun := Run.throughout_of_step
    (I := fun c => Joined t c ∧ Holds (fun _ => True) (Underway fun _ => True) True c)
    (fun c e hc he => ⟨hc.1.step hc.2 e he.1 he.2, underway_bookkeeping.discipline.step hc.2 e
      (Meets.records (by cases e <;> simp [Meets]))⟩) ⟨hstart, hbase⟩ hboth
  have hmem := hrun.last.1.mem hdone
  obtain ⟨env, receipt, msg, hdispatches, hbody, hread⟩ := h.handled
  obtain ⟨s, hs, hc⟩ := hdispatches.step
  have hmay : s.mayTouch snapshot.sid snapshot.ticker = true := by
    rw [hc.mayTouch, Supervisor.mayTouch, decide_eq_true_eq, h.ticker]
    exact ⟨h.live, hmem⟩
  rw [Shows, hs, Supervisor.dispatch, hbody]
  rw [← hc.config] at hread
  simp only [hread]
  exact Supervisor.onSnapshot_kept hmay h.valid

/-! A market joins a group on two subscriptions, the orderbook's and the trades'.
Its snapshot answers the command on the first. -/

/-- Up to the command that adds the market on the orderbook subscription. -/
def beforeAddition : List ConnEvent :=
  [.begin, .opened, .setGroup (some ⟨"g0000", 0, {"KXA"}⟩), .acquire, .transmit, .sendReturns,
    .receive (subscribedFrame 1 orderbookChannel 1), .acquireFrame,
    .receive (subscribedFrame 1 "trade" 2), .acquireFrame,
    .setGroup (some mergeGroup), .acquire]

/-- The snapshot of the market that joins. -/
def joiningSnapshot : BookSnapshot :=
  { ticker := "KXB", tsMs := none, receipt := ⟨0, 0, 0⟩, sid := 1, seq := some 1
    bids := [⟨4000, 200⟩], asks := [⟨6000, 100⟩] }

theorem joiningSnapshot_valid : Book.ValidImage joiningSnapshot.bids joiningSnapshot.asks :=
  (Book.applySnapshot_ok_iff (Book.new "KXB") none).mp rfl

theorem snapshotAfterSending_kept :
    ((later mergeConfig beforeAddition [.sendReturns, .transmit, .sendReturns]).step
      (.receive (snapshotFrame 1 1 "KXB"))).Shows joiningSnapshot := by
  have hin : "KXB" ∈ mergeGroup.tickers := by decide
  refine added_snapshot_kept (t := "KXB")
    { sent := ⟨2, .updateSubscription 1 .addMarkets ["KXB"], rfl, List.mem_cons_self⟩
      keeps := ⟨trivial, ?_, trivial, trivial⟩
      desired := ⟨hin, hin, hin, hin⟩
      handled := ⟨_, _, _, ⟨rfl, rfl, rfl, rfl⟩, rfl, rfl⟩
      ticker := rfl
      live := rfl
      valid := joiningSnapshot_valid } ⟨trivial, ?_, trivial, trivial⟩ ?_
  · intro h cmd hh hcmd
    obtain rfl := Option.some.inj hh
    obtain rfl := Option.some.inj hcmd
    exact id
  · exact fun _ => ⟨_, rfl, rfl⟩
  · exact not_adding_of_none rfl

/-- Between the two sends the snapshot is dropped, and when the change is done
the market is in the group without a book, and nothing is awaited. -/
theorem snapshotWhileSending_dropped :
    SnapshotAfterAdd mergeConfig "KXB" beforeAddition [.sendReturns]
        (.receive (snapshotFrame 1 1 "KXB")) joiningSnapshot ∧
      ¬ ((later mergeConfig beforeAddition [.sendReturns]).step
        (.receive (snapshotFrame 1 1 "KXB"))).Shows joiningSnapshot ∧
      ∃ done, done = later mergeConfig beforeAddition
          [.sendReturns, .receive (snapshotFrame 1 1 "KXB"), .transmit, .sendReturns] ∧
        "KXB" ∈ tickersOf done.sup.applied ∧ done.sup.books.get? "KXB" = none ∧
        done.sup.resyncing = ∅ := by
  have hin : "KXB" ∈ mergeGroup.tickers := by decide
  refine ⟨?_, ?_, _, rfl, by decide, rfl, rfl⟩
  · exact
      { sent := ⟨2, .updateSubscription 1 .addMarkets ["KXB"], rfl, List.mem_cons_self⟩
        keeps := ⟨trivial, trivial⟩
        desired := ⟨hin, hin⟩
        handled := ⟨_, _, _, ⟨rfl, rfl, rfl, rfl⟩, rfl, rfl⟩
        ticker := rfl
        live := rfl
        valid := joiningSnapshot_valid }
  · rintro ⟨b, hb, -⟩
    cases hb

end Conn

end Tape
