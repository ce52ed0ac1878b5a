import Tape.Recorder.Commands
import Tape.Recorder.PlanDiff
import Tape.Recorder.Resyncs

/-!
# How much a command names

`Sized` says that every command sent so far, and every one about to be, names
between one and `max_markets_per_command` markets, each once. The pieces of a
reconciliation are cut to that size. A request for snapshots is not cut at all:
it names all the markets it wants. `FitsOneCommand` asks of a run that those
are no more than a command may name, wherever a frame or a merge makes the
connection ask.
-/

namespace Tape

/-- The markets a command names on a sid for an action. -/
def Command.namedOn (sid : Sid) (action : SubscriptionAction) : Command → List Ticker
  | .updateSubscription sid' action' tickers =>
      if sid' = sid ∧ action' = action then tickers else []
  | _ => []

/-- A number of markets a command may name, each of them once. -/
def Countable (config : SupervisorConfig) (tickers : List Ticker) : Prop :=
  1 ≤ tickers.length ∧ tickers.length ≤ config.maxMarketsPerCommand ∧ tickers.Nodup

/-- A command names as many markets as it may. Only the subscribe of the
firehose channels names none, and an unsubscribe names sids. -/
def Command.Within (config : SupervisorConfig) : Command → Prop
  | .subscribe channels none _ => channels = config.firehoseChannels
  | .subscribe _ (some tickers) _ => Countable config tickers
  | .updateSubscription _ _ tickers => Countable config tickers
  | .unsubscribe _ => True

/-- The command asks for snapshots. -/
def Command.IsRequest (cmd : Command) : Prop :=
  ∃ sid tickers, cmd = .updateSubscription sid .getSnapshot tickers

/-- A piece names as many markets as a command may. -/
def PlanChange.Within (config : SupervisorConfig) : PlanChange → Prop
  | .addGroup group => 1 ≤ group.tickers.card ∧ group.tickers.card ≤ config.maxMarketsPerCommand
  | .removeGroup _ => True
  | .addMarkets _ tickers => Countable config tickers
  | .removeMarkets _ tickers => Countable config tickers

variable {config : SupervisorConfig} {piece : PlanChange} {cmds : List Command}

theorem countable_sorted {tickers : Finset Ticker} (h : 1 ≤ tickers.card)
    (hm : tickers.card ≤ config.maxMarketsPerCommand) :
    Countable config (sortedTickers tickers) := by
  refine ⟨?_, ?_, nodup_sortedTickers tickers⟩
  · rw [length_sortedTickers]
    exact h
  · rw [length_sortedTickers]
    exact hm

/-- The commands of a piece name what the piece names. -/
theorem Realizes.within (h : Realizes piece cmds) (hp : piece.Within config) :
    ∀ cmd ∈ cmds, cmd.Within config := by
  intro cmd hcmd
  cases piece with
  | addGroup g =>
      obtain ⟨channels, useYesPrice, rfl⟩ := h
      rw [List.mem_singleton.mp hcmd]
      exact countable_sorted hp.1 hp.2
  | removeGroup id =>
      obtain ⟨sids, rfl⟩ := h
      rw [List.mem_singleton.mp hcmd]
      trivial
  | addMarkets id tickers =>
      obtain ⟨sid, rfl⟩ := h.2 cmd hcmd
      exact hp
  | removeMarkets id tickers =>
      obtain ⟨sid, rfl⟩ := h.2 cmd hcmd
      exact hp

/-! ## The pieces of a reconciliation -/

theorem Cut.nodup {c piece : PlanChange} {pieces : List PlanChange} (h : Cut c pieces)
    (hn : ∀ id l, c = .addMarkets id l ∨ c = .removeMarkets id l → l.Nodup)
    (hp : piece ∈ pieces) :
    ∀ id l, piece = .addMarkets id l ∨ piece = .removeMarkets id l → l.Nodup := by
  intro id l hl
  have hchunk : ∀ {chunks : List (List Ticker)} {chunk}, chunks.flatten.Nodup → chunk ∈ chunks →
      chunk.Nodup := fun hflat hc => (List.nodup_flatten.mp hflat).1 _ hc
  cases h with
  | removeGroup groupId =>
      rw [List.mem_singleton.mp hp] at hl
      rcases hl with hl | hl <;> cases hl
  | addMarkets groupId chunks =>
      obtain ⟨chunk, hc, rfl⟩ := List.mem_map.mp hp
      rcases hl with hl | hl <;> cases hl
      exact hchunk (hn _ _ (.inl rfl)) hc
  | removeMarkets groupId chunks =>
      obtain ⟨chunk, hc, rfl⟩ := List.mem_map.mp hp
      rcases hl with hl | hl <;> cases hl
      exact hchunk (hn _ _ (.inr rfl)) hc
  | addGroup group first chunks _ once _ _ =>
      rcases List.mem_cons.mp hp with rfl | hp
      · rcases hl with hl | hl <;> cases hl
      · obtain ⟨chunk, hc, rfl⟩ := List.mem_map.mp hp
        rcases hl with hl | hl <;> cases hl
        exact hchunk once hc

/-- What one connection's difference names is sorted out of sets, and some. -/
theorem diff_listed {applied desired : Option Group}
    (hne : ∀ g, desired = some g → g.tickers ≠ ∅) {c : PlanChange}
    (hc : c ∈ diff (planOf applied) (planOf desired)) :
    (∀ k, c.names = some k → 1 ≤ k) ∧
      ∀ id l, c = .addMarkets id l ∨ c = .removeMarkets id l → l.Nodup := by
  have hadd : ∀ {d : Group}, desired = some d → c = .addGroup d →
      (∀ k, c.names = some k → 1 ≤ k) ∧
        ∀ id l, c = .addMarkets id l ∨ c = .removeMarkets id l → l.Nodup := by
    intro d hd hcd
    subst hcd
    refine ⟨fun k hk => ?_, fun id l hl => ?_⟩
    · obtain rfl := Option.some.inj hk
      exact Finset.card_pos.mpr (Finset.nonempty_iff_ne_empty.mpr (hne d hd))
    · rcases hl with hl | hl <;> cases hl
  have hremove : ∀ {id : String}, c = .removeGroup id → (∀ k, c.names = some k → 1 ≤ k) ∧
      ∀ id l, c = .addMarkets id l ∨ c = .removeMarkets id l → l.Nodup := by
    intro id hcd
    subst hcd
    refine ⟨nofun, fun id l hl => ?_⟩
    rcases hl with hl | hl <;> cases hl
  have hsome : ∀ {s : Finset Ticker}, s ≠ ∅ → 1 ≤ (sortedTickers s).length := by
    intro s hs
    rw [length_sortedTickers]
    exact Finset.card_pos.mpr (Finset.nonempty_iff_ne_empty.mpr hs)
  cases applied with
  | none =>
      cases desired with
      | none => cases hc
      | some d =>
          rw [diff_none_some] at hc
          exact hadd rfl (List.mem_singleton.mp hc)
  | some old =>
      cases desired with
      | none =>
          rw [diff_some_none] at hc
          exact hremove (List.mem_singleton.mp hc)
      | some d =>
          rw [diff_some_some] at hc
          split at hc
          · rcases List.mem_append.mp hc with hc | hc
            · split at hc
              · cases hc
              · next hgone =>
                  rw [List.mem_singleton.mp hc]
                  refine ⟨fun k hk => Option.some.inj hk ▸ hsome hgone, fun id l hl => ?_⟩
                  rcases hl with hl | hl <;> cases hl
                  exact nodup_sortedTickers _
            · split at hc
              · cases hc
              · next hadded =>
                  rw [List.mem_singleton.mp hc]
                  refine ⟨fun k hk => Option.some.inj hk ▸ hsome hadded, fun id l hl => ?_⟩
                  rcases hl with hl | hl <;> cases hl
                  exact nodup_sortedTickers _
          · rcases List.mem_cons.mp hc with hc | hc
            · exact hremove hc
            · exact hadd rfl (List.mem_singleton.mp hc)

/-- Every piece of a reconciliation names as many markets as a command may. -/
theorem pieces_within {s : Supervisor} (hm : 0 < s.config.maxMarketsPerCommand)
    (hne : ∀ g, s.desired = some g → g.tickers ≠ ∅) :
    ∀ piece ∈ s.pieces, piece.Within s.config := by
  intro piece hpiece
  obtain ⟨c, hc, hp⟩ := List.mem_flatMap.mp hpiece
  obtain ⟨hnames, hlisted⟩ := diff_listed hne hc
  obtain ⟨hcut, hsizes⟩ := cut_splitChange hm c
  have hsize := hsizes hnames piece hp
  have hnodup := hcut.nodup hlisted hp
  cases piece with
  | addGroup g => exact hsize _ rfl
  | removeGroup id => trivial
  | addMarkets id tickers =>
      obtain ⟨hone, hmany⟩ := hsize _ rfl
      exact ⟨hone, hmany, hnodup id tickers (.inl rfl)⟩
  | removeMarkets id tickers =>
      obtain ⟨hone, hmany⟩ := hsize _ rfl
      exact ⟨hone, hmany, hnodup id tickers (.inr rfl)⟩

namespace Supervisor

/-- A frame concerns no more markets than a command may name. -/
def ResyncFits (s : Supervisor) (f : RawFrame) : Prop :=
  ∀ env sid, f.payload = .ok env → env.sid = some sid → s.isBookSid sid = true →
    (s.concerned sid env).card ≤ s.config.maxMarketsPerCommand

/-- A merge of the orderbook channel concerns no more markets than a command
may name. -/
def MergeFits (s : Supervisor) (env : Envelope) : Prop :=
  ∀ p sid msg tickers, s.answering env = some (p, sid, orderbookChannel) →
    env.body = .ok (.ok msg) → msg.marketTickers = some tickers →
    s.appliedId = some p.groupId →
    (s.unfresh sid tickers).card ≤ s.config.maxMarketsPerCommand

end Supervisor

namespace Conn

variable {c : Conn}

/-- What the outside may do so that no request is over the limit. -/
def FitsOneCommand : Conn → ConnEvent → Prop :=
  fun c e =>
    match e with
    | .setGroup group => ∀ g, group = some g → g.tickers ≠ ∅
    | .receive f => c.opened = true → c.frame.isNone = true → c.sup.ResyncFits f
    | .acquireFrame => ∀ env, c.frame = some (.waiting env) → c.sup.MergeFits env
    | _ => True

/-- What the holder of the lock has under way, and the size of what it asks. -/
def Modest (config : SupervisorConfig) (s : Supervisor) (work : Work) : Prop :=
  Underway (PlanChange.Within config) s work ∧
    ∀ cmd, work = .request cmd → cmd.IsRequest ∧ cmd.Within config

variable {config : SupervisorConfig}

theorem sizes_bookkeeping (hm : 0 < config.maxMarketsPerCommand) :
    Bookkeeping (fun s => s.Populated config) (PlanChange.Within config) True
      (fun group => ∀ g, group = some g → g.tickers ≠ ∅) Supervisor.MergeFits
      (fun _ _ _ => True) where
  touched s s' h ht := h.of_same ht.control.config ht.control.desired ht.control.applied
  setGroup s group h _ hg := ⟨h.configured, hg, h.applied⟩
  deferred s b h := h.of_same rfl rfl rfl
  firehose s h := h.of_same rfl rfl rfl
  firehoseSent s id h _ := h.of_same rfl rfl rfl
  planned s h := by
    obtain rfl := h.configured
    exact pieces_within hm h.desired
  unplanned _ _ _ _ _ _ _ _ _ := trivial
  recorded s piece id h hp hq _ := by
    have hafter : (s.afterCommand piece id).Populated config ∧
        Fits (s.afterCommand piece id).applied piece := by
      cases piece with
      | addGroup g => exact ⟨h.of_same rfl rfl rfl, hp.chain.1⟩
      | removeGroup groupId => exact ⟨h, hp.chain.1⟩
      | addMarkets groupId tickers => exact ⟨h, hp.chain.1⟩
      | removeMarkets groupId tickers => exact ⟨h, hp.chain.1⟩
    refine hafter.1.recorded hafter.2 ?_
    rintro g rfl hnone
    have hsome : 1 ≤ g.tickers.card := hq.1
    rw [hnone, Finset.card_empty] at hsome
    omega
  reply s env h _ := h.withLock env
  prune s h := h.of_same rfl rfl rfl
  forget s h _ := ⟨h.configured, h.desired, nofun⟩
  ended s detail h := ⟨h.configured, h.desired, nofun⟩

/-! ## The sizes of all commands -/

theorem nextPiece_send {s : Supervisor} {pieces : List PlanChange} {work : Work}
    (h : (s.nextPiece pieces).2 = .send work) :
    ∃ piece cmd rest later, work = .piece piece cmd rest later := by
  induction pieces generalizing s with
  | nil => cases h
  | cons piece later ih =>
      rw [Supervisor.nextPiece] at h
      split at h
      · cases h
      · split at h
        · cases h
        · exact ⟨_, _, _, _, (Supervisor.Pause.send.inj h).symm⟩
        · split at h
          · cases h
          · exact ih h

theorem startReconcile_send {s : Supervisor} {work : Work}
    (h : s.startReconcile.2 = .send work) : ∀ cmd, work ≠ .request cmd := by
  rw [Supervisor.startReconcile] at h
  split at h
  · cases h
  · split at h
    · rw [← Supervisor.Pause.send.inj h]
      rintro cmd ⟨⟩
    · obtain ⟨piece, cmd, rest, later, rfl⟩ := nextPiece_send h
      rintro cmd ⟨⟩

theorem resume_send {s : Supervisor} {work : Work} (h : s.resume.2 = .send work) :
    ∀ cmd, work ≠ .request cmd := by
  rw [Supervisor.resume] at h
  split at h
  · exact startReconcile_send h
  · cases h

theorem afterSend_send {s : Supervisor} {work next : Work} {id : Int}
    (h : (s.afterSend work id).2 = .send next) : ∀ cmd, next ≠ .request cmd := by
  rcases work with cmd | _ | ⟨piece, cmd, rest, later⟩ | _
  · exact resume_send h
  · obtain ⟨piece, cmd, rest, later, rfl⟩ := nextPiece_send h
    rintro cmd ⟨⟩
  · cases rest with
    | nil =>
        rw [Supervisor.afterSend] at h
        split at h
        · cases h
        · obtain ⟨piece, cmd, rest, later, rfl⟩ := nextPiece_send h
          rintro cmd ⟨⟩
    | cons cmd' rest =>
        rw [← Supervisor.Pause.send.inj h]
        rintro cmd ⟨⟩
  · cases h

/-- A stretch of the holder that asks for nothing. -/
theorem Ready.modest {J : Supervisor → Prop} {R : Prop} {r : Supervisor × Supervisor.Pause}
    (h : Ready J (Underway (PlanChange.Within config)) R r)
    (hr : ∀ work, r.2 = .send work → ∀ cmd, work = .request cmd →
      cmd.IsRequest ∧ cmd.Within config) : Ready J (Modest config) R r := by
  obtain ⟨s, pause⟩ := r
  cases pause with
  | done => exact h
  | send work => exact ⟨h.1, h.2, hr work rfl⟩
  | raise failure => exact h

theorem request_within {sid : Sid} {tickers : Finset Ticker} (hne : tickers ≠ ∅)
    (hm : tickers.card ≤ config.maxMarketsPerCommand) :
    (Command.updateSubscription sid .getSnapshot (sortedTickers tickers)).IsRequest ∧
      (Command.updateSubscription sid .getSnapshot (sortedTickers tickers)).Within config := by
  refine ⟨⟨sid, _, rfl⟩, countable_sorted ?_ hm⟩
  exact Finset.card_pos.mpr (Finset.nonempty_iff_ne_empty.mpr hne)

theorem sizes_discipline (hm : 0 < config.maxMarketsPerCommand) :
    Discipline (fun s => s.Populated config) (Modest config) True
      (fun group => ∀ g, group = some g → g.tickers ≠ ∅) Supervisor.MergeFits
      (fun _ _ => True) where
  touched := (sizes_bookkeeping hm).touched
  touchedWork s s' work h hk ht :=
    ⟨hk.1.of_same ht.control.applied ht.control.pending, hk.2⟩
  setGroup := (sizes_bookkeeping hm).setGroup
  setGroupWork s group work h hk _ _ := ⟨hk.1.of_same rfl rfl, hk.2⟩
  start s h := ((sizes_bookkeeping hm).startReconcile h).modest fun work hw cmd hc =>
    absurd hc (startReconcile_send hw cmd)
  reply s env h hr := by
    refine ((sizes_bookkeeping hm).lockedReply h env hr).modest fun work hw cmd hc => ?_
    subst hc
    rw [Supervisor.lockedReply] at hw
    split at hw
    · cases hw
    · exact absurd rfl (resume_send hw cmd)
    · next hlock =>
        obtain rfl := Work.request.inj (Supervisor.Pause.send.inj hw)
        obtain ⟨p, sid, msg, tickers, hanswering, hbody, hmarkets, happlied, hne, rfl⟩ :=
          Supervisor.withLock_asks (congrArg Prod.snd hlock)
        refine request_within hne ?_
        rw [← h.configured]
        exact hr p sid msg tickers hanswering hbody hmarkets happlied
  afterSend s work id h hk _ := by
    have hrecords : Records (fun _ _ _ => True) s work := by
      rcases work with _ | _ | ⟨_, _, _ | _, _⟩ | _ <;> trivial
    exact ((sizes_bookkeeping hm).afterSend h hk.1 id hrecords).modest fun next hw cmd hc =>
      absurd hc (afterSend_send hw cmd)
  putReturn _ _ _ _ := trivial
  prune := (sizes_bookkeeping hm).prune
  forget := (sizes_bookkeeping hm).forget
  ended := (sizes_bookkeeping hm).ended

/-- Every command sent, and every one that is about to be, names as many
markets as it may; the frame task and a merge ask for snapshots. -/
structure Sized (config : SupervisorConfig) (c : Conn) : Prop where
  holds : Holds (fun s => s.Populated config) (Modest config) True c
  sent : ∀ x ∈ c.sup.sent, x.2.Within config
  asked : ∀ cmd, c.asked = some cmd → cmd.IsRequest ∧ cmd.Within config

theorem Sized.departs (h : Sized config c) (e : ConnEvent) :
    ∀ x ∈ c.departs e, x.2.Within config := by
  have hleft : ∀ {cmd : Command}, cmd.Within config → ∀ x ∈ c.sup.departs cmd,
      x.2.Within config := by
    intro cmd hw x hx
    rw [Supervisor.departs] at hx
    split at hx
    · rw [List.mem_singleton.mp hx]
      exact hw
    · cases hx
  intro x hx
  rw [Conn.departs.eq_def] at hx
  split at hx
  · split at hx
    · next owner work hh =>
        split at hx
        · cases hx
        · next cmd hcmd =>
            refine hleft ?_ x hx
            rcases work with cmd' | _ | ⟨piece, cmd', rest, later⟩ | _
            · obtain rfl := Option.some.inj hcmd
              obtain ⟨-, hasks⟩ := (h.holds.work _ hh).resolve_left (by rintro ⟨⟩)
              exact (hasks _ rfl).2
            · obtain rfl := Option.some.inj hcmd
              exact congrArg _ h.holds.state.configured
            · obtain rfl := Option.some.inj hcmd
              obtain ⟨⟨-, hpieces, hreal⟩, -⟩ := (h.holds.work _ hh).resolve_left (by rintro ⟨⟩)
              exact hreal.within (hpieces _ List.mem_cons_self) _ List.mem_cons_self
            · cases hcmd
    · cases hx
  · split at hx
    · next hf => exact hleft (h.asked _ (by rw [Conn.asked, hf])).2 x hx
    · next hf => exact hleft (h.asked _ (by rw [Conn.asked, hf])).2 x hx
    · cases hx
  · cases hx

theorem FitsOneCommand.meets {e : ConnEvent} (h : FitsOneCommand c e) :
    Meets (fun group => ∀ g, group = some g → g.tickers ≠ ∅) Supervisor.MergeFits
      (fun _ _ => True) c e := by
  cases e with
  | setGroup group => exact h
  | acquireFrame => exact h
  | sendReturns => exact fun _ _ => trivial
  | _ => trivial

theorem Sized.step (hm : 0 < config.maxMarketsPerCommand) (h : Sized config c) (e : ConnEvent)
    (he : FitsOneCommand c e) : Sized config (c.step e) where
  holds := (sizes_discipline hm).step h.holds e he.meets
  sent x hx := by
    rw [step_sent] at hx
    rcases List.mem_append.mp hx with hx | hx
    · exact h.sent x hx
    · exact h.departs e x hx
  asked cmd hcmd := by
    rcases asked_step e hcmd with hold | ⟨sid, t, rfl⟩ | ⟨f, env, rfl, hopen, hfree, hf⟩
    · exact h.asked cmd hold
    · exact ⟨⟨sid, _, rfl⟩, le_refl 1, hm, List.nodup_singleton t⟩
    · obtain ⟨sid, hpayload, hsid, hbook, hne, rfl⟩ := Supervisor.receiveFrame_asks hf
      refine request_within hne ?_
      rw [← h.holds.state.configured]
      exact he hopen hfree env sid hpayload hsid hbook

theorem sized_throughout (hm : 0 < config.maxMarketsPerCommand) (es : List ConnEvent)
    (hes : Run.Along step FitsOneCommand (.new config) es) :
    Run.Throughout step (Sized config) (.new config) es := by
  refine Run.throughout_of_step (fun c e h he => h.step hm e he) ⟨?_, nofun, nofun⟩ hes
  exact holds_new config ⟨rfl, nofun, nofun⟩

end Conn

end Tape
