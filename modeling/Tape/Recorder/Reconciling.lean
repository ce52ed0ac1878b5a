import Tape.Recorder.Discipline

/-!
# What a reconciliation has planned

A reconciliation computes its pieces once, from the group applied and the group
desired at that moment, and then sends and records them one by one, while
frames go on and `set_group` changes the desired group under it. `Chain` says
that a list of pieces still fits the applied group: each piece, recorded after
those before it, names the group that is then applied. It holds of the pieces
when they are computed, and nothing but the recording of a piece changes the
applied group while the lock is held.

`Bookkeeping` restates the invariant rule of a connection in these terms. What
an invariant owes to a reconciliation is then that each piece that fits, when
it is recorded, keeps it.
-/

namespace Tape

/-- The applied group, once a piece is recorded. -/
def recordedGroup (applied : Option Group) : PlanChange → Option Group
  | .addGroup group => some group
  | .removeGroup _ => none
  | .addMarkets _ tickers =>
      applied.map fun g => { g with tickers := g.tickers ∪ tickers.toFinset }
  | .removeMarkets _ tickers =>
      applied.map fun g => { g with tickers := g.tickers \ tickers.toFinset }

/-- A piece fits the applied group. A removal of markets leaves some. -/
def Fits (applied : Option Group) : PlanChange → Prop
  | .addGroup _ => applied = none
  | .removeGroup groupId => ∃ g, applied = some g ∧ g.groupId = groupId
  | .addMarkets groupId _ => ∃ g, applied = some g ∧ g.groupId = groupId
  | .removeMarkets groupId tickers =>
      ∃ g, applied = some g ∧ g.groupId = groupId ∧ g.tickers \ tickers.toFinset ≠ ∅

/-- Each piece fits what those before it leave. -/
def Chain : Option Group → List PlanChange → Prop
  | _, [] => True
  | applied, piece :: later => Fits applied piece ∧ Chain (recordedGroup applied piece) later

theorem chain_append {applied : Option Group} {pieces more : List PlanChange} :
    Chain applied (pieces ++ more) ↔
      Chain applied pieces ∧ Chain (pieces.foldl recordedGroup applied) more := by
  induction pieces generalizing applied with
  | nil => simp [Chain]
  | cons piece later ih => rw [List.cons_append, Chain, Chain, ih, and_assoc, List.foldl_cons]

/-! ## The pieces of one connection -/

/-- The pieces' list of at most one group has at most one entry. -/
theorem inIdOrder_singleton (id : String) (g : Group) :
    inIdOrder ((∅ : Dict String Group).set id g) = [g] := rfl

theorem get?_singleton (id id' : String) (g : Group) :
    ((∅ : Dict String Group).set id g).get? id' = if id = id' then some g else none := by
  rw [Dict.get?_set, Dict.get?_empty]

theorem diff_none_some (g : Group) : diff (planOf none) (planOf (some g)) = [.addGroup g] := rfl

theorem diff_some_none (g : Group) :
    diff (planOf (some g)) (planOf none) = [.removeGroup g.groupId] := rfl

/-- The difference of two groups: updated in place, or torn down. -/
theorem diff_some_some (old new : Group) :
    diff (planOf (some old)) (planOf (some new)) =
      if new.groupId = old.groupId ∧ mustRebuild old new = false then
        (if old.tickers \ new.tickers = ∅ then []
          else [.removeMarkets old.groupId (sortedTickers (old.tickers \ new.tickers))]) ++
        (if new.tickers \ old.tickers = ∅ then []
          else [.addMarkets old.groupId (sortedTickers (new.tickers \ old.tickers))])
      else [.removeGroup old.groupId, .addGroup new] := by
  have hrun : (planOf (some old)).byId = (∅ : Dict String Group).set old.groupId old := rfl
  have hwant : (planOf (some new)).byId = (∅ : Dict String Group).set new.groupId new := rfl
  rw [diff, hrun, hwant]
  simp only [inIdOrder_singleton, List.map_cons, List.map_nil, List.flatMap_cons,
    List.flatMap_nil, List.append_nil, diffRunning, diffWanted, get?_singleton]
  by_cases hid : new.groupId = old.groupId
  · cases hm : mustRebuild old new <;> simp [hid, hm]
  · have hid' : old.groupId ≠ new.groupId := fun h => hid h.symm
    simp [hid, hid']

theorem mem_chunksOf {α : Type*} {n fuel : Nat} {l chunk : List α} {a : α}
    (hc : chunk ∈ chunksOf n fuel l) (ha : a ∈ chunk) : a ∈ l := by
  induction fuel generalizing l with
  | zero => cases l <;> cases hc
  | succ fuel ih =>
      cases l with
      | nil => cases hc
      | cons b l =>
          rw [chunksOf] at hc
          rcases List.mem_cons.mp hc with rfl | hc
          · exact List.mem_of_mem_take ha
          · exact List.mem_of_mem_drop (ih hc)

/-- Any lists of markets may join a group. -/
theorem chain_addMarkets (chunks : List (List Ticker)) (g : Group) :
    Chain (some g) (chunks.map (.addMarkets g.groupId)) := by
  induction chunks generalizing g with
  | nil => trivial
  | cons chunk chunks ih =>
      refine ⟨⟨g, rfl, rfl⟩, ?_⟩
      exact ih { g with tickers := g.tickers ∪ chunk.toFinset }

/-- Lists of markets may leave a group as long as one market stays; the group
keeps its name. -/
theorem chain_removeMarkets (chunks : List (List Ticker)) (g : Group) {t : Ticker}
    (ht : t ∈ g.tickers) (hstay : ∀ chunk ∈ chunks, t ∉ chunk) :
    Chain (some g) (chunks.map (.removeMarkets g.groupId)) ∧
      ∃ left, (chunks.map (.removeMarkets g.groupId)).foldl recordedGroup (some g) = some left ∧
        left.groupId = g.groupId := by
  induction chunks generalizing g with
  | nil => exact ⟨trivial, g, rfl, rfl⟩
  | cons chunk chunks ih =>
      have hleft : t ∈ g.tickers \ chunk.toFinset :=
        Finset.mem_sdiff.mpr ⟨ht, fun h =>
          hstay chunk List.mem_cons_self (List.mem_toFinset.mp h)⟩
      obtain ⟨hchain, hlast⟩ := ih { g with tickers := g.tickers \ chunk.toFinset } hleft
        fun c hc => hstay c (List.mem_cons_of_mem _ hc)
      exact ⟨⟨⟨g, rfl, rfl, Finset.ne_empty_of_mem hleft⟩, hchain⟩, hlast⟩

theorem splitChange_addMarkets (n : Nat) (id : String) (tickers : List Ticker) :
    ∃ chunks : List (List Ticker), splitChange n (.addMarkets id tickers) =
      chunks.map (.addMarkets id) := by
  rw [splitChange]
  split
  · exact ⟨[tickers], rfl⟩
  · exact ⟨_, rfl⟩

theorem splitChange_removeMarkets (n : Nat) (id : String) (tickers : List Ticker) :
    ∃ chunks : List (List Ticker), splitChange n (.removeMarkets id tickers) =
      chunks.map (.removeMarkets id) ∧
      ∀ chunk ∈ chunks, ∀ t ∈ chunk, t ∈ tickers := by
  rw [splitChange]
  split
  · exact ⟨[tickers], rfl, fun chunk hc t ht => List.mem_singleton.mp hc ▸ ht⟩
  · exact ⟨_, rfl, fun chunk hc t ht => mem_chunksOf hc ht⟩

/-- The pieces of a group to be subscribed: the group, or its first markets and
then the others. -/
theorem splitChange_addGroup (n : Nat) (g : Group) :
    ∃ (first : Group) (chunks : List (List Ticker)), splitChange n (.addGroup g) =
        .addGroup first :: chunks.map (.addMarkets first.groupId) ∧
      first.groupId = g.groupId ∧ (0 < n → g.tickers ≠ ∅ → first.tickers ≠ ∅) := by
  rw [splitChange]
  split
  · exact ⟨g, [], rfl, rfl, fun _ h => h⟩
  · refine ⟨_, _, rfl, rfl, ?_⟩
    intro hn hne
    rw [Ne, List.toFinset_eq_empty_iff, List.take_eq_nil_iff, sortedTickers_eq_nil_iff]
    exact fun h => h.elim (by omega) hne

/-- What a reconciliation of one connection comes to. -/
inductive Reshaping (n : Nat) : Option Group → Option Group → List PlanChange → Prop
  | idle : Reshaping n none none []
  | subscribe (d first : Group) (chunks : List (List Ticker))
      (named : first.groupId = d.groupId)
      (kept : 0 < n → d.tickers ≠ ∅ → first.tickers ≠ ∅) :
      Reshaping n none (some d) (.addGroup first :: chunks.map (.addMarkets first.groupId))
  | unsubscribe (old : Group) : Reshaping n (some old) none [.removeGroup old.groupId]
  | rebuild (old d first : Group) (chunks : List (List Ticker))
      (named : first.groupId = d.groupId)
      (kept : 0 < n → d.tickers ≠ ∅ → first.tickers ≠ ∅) :
      Reshaping n (some old) (some d)
        (.removeGroup old.groupId :: .addGroup first :: chunks.map (.addMarkets first.groupId))
  | update (old d : Group) (gone added : List (List Ticker)) (t : Ticker)
      (held : t ∈ old.tickers) (stays : ∀ chunk ∈ gone, t ∉ chunk) :
      Reshaping n (some old) (some d)
        (gone.map (PlanChange.removeMarkets old.groupId) ++
          added.map (PlanChange.addMarkets old.groupId))

theorem reshaping_update (n : Nat) (old new : Group) (hm : mustRebuild old new = false) :
    Reshaping n (some old) (some new)
      (((if old.tickers \ new.tickers = ∅ then []
          else [PlanChange.removeMarkets old.groupId
            (sortedTickers (old.tickers \ new.tickers))]) ++
        (if new.tickers \ old.tickers = ∅ then []
          else [PlanChange.addMarkets old.groupId
            (sortedTickers (new.tickers \ old.tickers))])).flatMap
        (splitChange n)) := by
  -- A market both groups hold is why the group is not rebuilt.
  obtain ⟨t, ht⟩ : ∃ t, t ∈ old.tickers ∩ new.tickers := by
    refine Finset.nonempty_iff_ne_empty.mpr fun hempty => ?_
    simp [mustRebuild, hempty] at hm
  obtain ⟨hold, hnew⟩ := Finset.mem_inter.mp ht
  obtain ⟨gone, hgone, hfrom⟩ : ∃ gone : List (List Ticker),
      (if old.tickers \ new.tickers = ∅ then []
        else [PlanChange.removeMarkets old.groupId
          (sortedTickers (old.tickers \ new.tickers))]).flatMap (splitChange n) =
        gone.map (.removeMarkets old.groupId) ∧ ∀ chunk ∈ gone, t ∉ chunk := by
    split
    · exact ⟨[], rfl, fun _ hc => absurd hc List.not_mem_nil⟩
    · obtain ⟨gone, hgone, hfrom⟩ := splitChange_removeMarkets n old.groupId
        (sortedTickers (old.tickers \ new.tickers))
      refine ⟨gone, by rw [List.flatMap_singleton, hgone], fun chunk hc hmem => ?_⟩
      have hmem := mem_sortedTickers.mp (hfrom chunk hc t hmem)
      exact (Finset.mem_sdiff.mp hmem).2 hnew
  obtain ⟨added, hadded⟩ : ∃ added : List (List Ticker),
      (if new.tickers \ old.tickers = ∅ then []
        else [PlanChange.addMarkets old.groupId
          (sortedTickers (new.tickers \ old.tickers))]).flatMap (splitChange n) =
        added.map (.addMarkets old.groupId) := by
    split
    · exact ⟨[], rfl⟩
    · obtain ⟨added, hadded⟩ := splitChange_addMarkets n old.groupId
        (sortedTickers (new.tickers \ old.tickers))
      exact ⟨added, by rw [List.flatMap_singleton, hadded]⟩
  rw [List.flatMap_append, hgone, hadded]
  exact .update old new gone added t hold hfrom

theorem reshaping_pieces (n : Nat) (applied desired : Option Group) :
    Reshaping n applied desired
      ((diff (planOf applied) (planOf desired)).flatMap (splitChange n)) := by
  cases applied with
  | none =>
      cases desired with
      | none => exact .idle
      | some d =>
          obtain ⟨first, chunks, hsplit, hid, hne⟩ := splitChange_addGroup n d
          rw [diff_none_some, List.flatMap_singleton, hsplit]
          exact .subscribe d first chunks hid hne
  | some old =>
      cases desired with
      | none => exact .unsubscribe old
      | some d =>
          rw [diff_some_some]
          split
          · next h => exact reshaping_update n old d h.2
          · obtain ⟨first, chunks, hsplit, hid, hne⟩ := splitChange_addGroup n d
            rw [List.flatMap_cons, List.flatMap_singleton, hsplit]
            exact .rebuild old d first chunks hid hne

variable {n : Nat} {applied desired : Option Group} {pieces : List PlanChange}

theorem Reshaping.chain (h : Reshaping n applied desired pieces) : Chain applied pieces := by
  cases h with
  | idle => trivial
  | subscribe d first chunks _ _ => exact ⟨rfl, chain_addMarkets chunks first⟩
  | unsubscribe old => exact ⟨⟨old, rfl, rfl⟩, trivial⟩
  | rebuild old d first chunks _ _ =>
      exact ⟨⟨old, rfl, rfl⟩, rfl, chain_addMarkets chunks first⟩
  | update old d gone added t held stays =>
      obtain ⟨hgone, left, hleft, hid⟩ := chain_removeMarkets gone old held stays
      refine chain_append.mpr ⟨hgone, ?_⟩
      rw [hleft, ← hid]
      exact chain_addMarkets added left

/-- A group is unsubscribed first or not at all. -/
theorem Reshaping.removeGroup_notMem_tail (h : Reshaping n applied desired pieces)
    (id : String) : .removeGroup id ∉ pieces.tail := by
  cases h with
  | idle => simp
  | subscribe d first chunks _ _ => simp
  | unsubscribe old => simp
  | rebuild old d first chunks _ _ => simp
  | update old d gone added t held stays =>
      intro hmem
      have hmem := List.mem_of_mem_tail hmem
      simp at hmem

/-- A group subscribed is the desired one, or its first markets. -/
theorem Reshaping.addGroup (h : Reshaping n applied desired pieces) {g : Group}
    (hg : .addGroup g ∈ pieces) :
    ∃ d, desired = some d ∧ g.groupId = d.groupId ∧
      (0 < n → d.tickers ≠ ∅ → g.tickers ≠ ∅) := by
  cases h with
  | idle => cases hg
  | subscribe d first chunks named kept =>
      simp at hg
      exact ⟨d, rfl, hg ▸ named, hg ▸ kept⟩
  | unsubscribe old => simp at hg
  | rebuild old d first chunks named kept =>
      simp at hg
      exact ⟨d, rfl, hg ▸ named, hg ▸ kept⟩
  | update old d gone added t held stays => simp at hg

/-! ## The commands of a piece -/

/-- The commands that realize a piece, or the last of them. -/
def Realizes : PlanChange → List Command → Prop
  | .addGroup g, cmds => ∃ channels useYesPrice,
      cmds = [.subscribe channels (some (sortedTickers g.tickers)) useYesPrice]
  | .removeGroup _, cmds => ∃ sids, cmds = [.unsubscribe sids]
  | .addMarkets _ tickers, cmds => cmds ≠ [] ∧
      ∀ cmd ∈ cmds, ∃ sid, cmd = .updateSubscription sid .addMarkets tickers
  | .removeMarkets _ tickers, cmds => cmds ≠ [] ∧
      ∀ cmd ∈ cmds, ∃ sid, cmd = .updateSubscription sid .deleteMarkets tickers

/-- A piece has a command. -/
theorem Realizes.ne_nil {piece : PlanChange} {cmds : List Command} (h : Realizes piece cmds) :
    cmds ≠ [] := by
  cases piece with
  | addGroup g =>
      obtain ⟨_, _, rfl⟩ := h
      exact List.cons_ne_nil _ _
  | removeGroup id =>
      obtain ⟨_, rfl⟩ := h
      exact List.cons_ne_nil _ _
  | addMarkets id tickers => exact h.1
  | removeMarkets id tickers => exact h.1

/-- Of several commands, the first may be dropped: the piece does not subscribe
a group. -/
theorem Realizes.tail {piece : PlanChange} {cmd next : Command} {rest : List Command}
    (h : Realizes piece (cmd :: next :: rest)) :
    Realizes piece (next :: rest) ∧ ∀ g, piece ≠ .addGroup g := by
  cases piece with
  | addGroup g =>
      obtain ⟨_, _, h⟩ := h
      cases h
  | removeGroup id =>
      obtain ⟨_, h⟩ := h
      cases h
  | addMarkets id tickers =>
      exact ⟨⟨List.cons_ne_nil _ _, fun c hc => h.2 c (List.mem_cons_of_mem _ hc)⟩, nofun⟩
  | removeMarkets id tickers =>
      exact ⟨⟨List.cons_ne_nil _ _, fun c hc => h.2 c (List.mem_cons_of_mem _ hc)⟩, nofun⟩

theorem sidsOf_ok {sidOf : Dict String (List Sid)} {groupId action : String} {sids : List Sid}
    (h : sidsOf sidOf groupId action = .ok sids) : sids ≠ [] := by
  rw [sidsOf] at h
  split at h
  · cases h
  · obtain rfl := Except.ok.inj h
    exact List.cons_ne_nil _ _

theorem realizes_commandsOf {channels : List String} {useYesPrice : Option Bool}
    {sidOf : Dict String (List Sid)} {piece : PlanChange} {cmds : List Command}
    (h : commandsOf channels useYesPrice sidOf piece = .ok cmds) : Realizes piece cmds := by
  cases piece with
  | addGroup g => exact ⟨channels, useYesPrice, (Except.ok.inj h).symm⟩
  | removeGroup id =>
      rw [commandsOf] at h
      split at h
      · cases h
      · exact ⟨_, (Except.ok.inj h).symm⟩
  | addMarkets id tickers =>
      rw [commandsOf] at h
      split at h
      · cases h
      · next sids hsids =>
          obtain rfl := Except.ok.inj h
          refine ⟨by simpa using sidsOf_ok hsids, fun cmd hcmd => ?_⟩
          obtain ⟨sid, -, rfl⟩ := List.mem_map.mp hcmd
          exact ⟨sid, rfl⟩
  | removeMarkets id tickers =>
      rw [commandsOf] at h
      split at h
      · cases h
      · next sids hsids =>
          obtain rfl := Except.ok.inj h
          refine ⟨by simpa using sidsOf_ok hsids, fun cmd hcmd => ?_⟩
          obtain ⟨sid, -, rfl⟩ := List.mem_map.mp hcmd
          exact ⟨sid, rfl⟩

theorem toCommands_singleton {channels : List String} (h : channels ≠ []) (piece : PlanChange)
    (useYesPrice : Option Bool) (sidOf : Dict String (List Sid)) :
    toCommands [piece] channels useYesPrice sidOf =
      commandsOf channels useYesPrice sidOf piece := by
  rw [toCommands, if_neg h, List.mapM_cons, List.mapM_nil]
  cases commandsOf channels useYesPrice sidOf piece with
  | error e => rfl
  | ok cmds => exact congrArg Except.ok (List.append_nil cmds)

namespace Supervisor

variable {s : Supervisor} {piece : PlanChange}

theorem realizes_pieceCommands {cmds : List Command} (h : s.pieceCommands piece = .ok cmds) :
    Realizes piece cmds := by
  by_cases hc : s.config.groupChannels = []
  · rw [pieceCommands, toCommands, if_pos hc] at h
    cases h
  · rw [pieceCommands, toCommands_singleton hc] at h
    exact realizes_commandsOf h

theorem requestSnapshot_command {sid : Sid} {tickers : Finset Ticker} {cmd : Command}
    (h : (s.requestSnapshot sid tickers).2 = some cmd) :
    ∃ tickers, cmd = .updateSubscription sid .getSnapshot tickers := by
  rw [requestSnapshot] at h
  split at h
  · cases h
  · exact ⟨_, (Option.some.inj h).symm⟩

/-- What a reply asks for with the lock held is snapshots. -/
theorem withLock_request {env : Envelope} {cmd : Command}
    (h : (s.withLock env).2 = .resume (some cmd)) :
    ∃ sid tickers, cmd = .updateSubscription sid .getSnapshot tickers := by
  have hadopt : ∀ {s : Supervisor} {groupId sid channel marketTickers},
      (s.adoptMembership groupId sid channel marketTickers).2 = some cmd →
        ∃ sid tickers, cmd = .updateSubscription sid .getSnapshot tickers := by
    intro s groupId sid channel marketTickers h
    rw [adoptMembership.eq_def] at h
    split at h
    · split at h
      · cases h
      · simp only at h
        split at h
        · cases h
        · exact ⟨sid, requestSnapshot_command h⟩
    · cases h
  rw [withLock.eq_def] at h
  split at h
  · simp only at h
    split at h
    · cases h
    · split at h <;> cases h
  · split at h
    · cases h
    · split at h
      · split at h
        · cases h
        · split at h
          · cases h
          · split at h
            · cases h
            · exact hadopt (Locked.resume.inj h)
      · cases h
  · split at h
    · cases h
    · split at h
      · cases h
      · simp only at h
        split at h
        · cases h
        · split at h <;> cases h
  · cases h

/-- The record of a piece that fits. -/
theorem recordChange_of_fits (h : Fits s.applied piece) :
    (s.recordChange piece).2 = none ∧
      (s.recordChange piece).1.applied = recordedGroup s.applied piece ∧
      (s.recordChange piece).1.pending = s.pending := by
  cases piece with
  | addGroup g => exact ⟨rfl, rfl, rfl⟩
  | removeGroup id =>
      obtain ⟨g, hg, rfl⟩ := h
      rw [recordChange, hg]
      simp [recordedGroup, releaseBooks]
  | addMarkets id tickers =>
      obtain ⟨g, hg, rfl⟩ := h
      rw [recordChange, hg]
      simp [recordedGroup]
  | removeMarkets id tickers =>
      obtain ⟨g, hg, rfl, -⟩ := h
      rw [recordChange, hg]
      simp [recordedGroup, releaseBooks]

/-- What a reconciliation has still to send fits the state. -/
structure Planned (s : Supervisor) (pieces : List PlanChange) : Prop where
  chain : Chain s.applied pieces
  quiet : ∀ groupId, .removeGroup groupId ∈ pieces →
    ∀ id p, s.pending.get? id = some p → p.groupId = firehoseGroupId
  first : ∀ groupId, .removeGroup groupId ∉ pieces.tail

theorem planned_pieces
    (h : ∀ id p, s.pending.get? id = some p → p.groupId = firehoseGroupId) :
    s.Planned s.pieces where
  chain := (reshaping_pieces _ s.applied s.desired).chain
  quiet _ _ := h
  first := (reshaping_pieces _ s.applied s.desired).removeGroup_notMem_tail

theorem Planned.of_same {s' : Supervisor} {pieces : List PlanChange} (h : s.Planned pieces)
    (ha : s'.applied = s.applied) (hp : s'.pending = s.pending) : s'.Planned pieces where
  chain := ha ▸ h.chain
  quiet := hp ▸ h.quiet
  first := h.first

end Supervisor

namespace Conn

open Supervisor (Pause)

variable (J : Supervisor → Prop) (Q : PlanChange → Prop) (R : Prop)

/-- What the holder of the lock has under way fits the state. -/
def Underway (s : Supervisor) : Work → Prop
  | .request cmd => ∃ sid tickers, cmd = .updateSubscription sid .getSnapshot tickers
  | .firehose => s.pending = ∅
  | .piece piece cmd rest later =>
      s.Planned (piece :: later) ∧ (∀ p ∈ piece :: later, Q p) ∧ Realizes piece (cmd :: rest)
  | .closing => True

/-- A condition on the record of a piece, in terms of what is awaited and what
is subscribed. -/
abbrev RecordCondition :=
  Dict Sid (Finset Ticker) → Dict Sid SubscriptionInfo → PlanChange → Prop

/-- The last send of a piece returns in a state where its record is safe. -/
def Records (meetsRecord : RecordCondition) (s : Supervisor) : Work → Prop
  | .piece piece _ [] _ => meetsRecord s.resyncing s.subscriptions piece
  | _ => True

/-- What an invariant owes, piece by piece. `Q` is what it knows of the pieces,
and `R` says whether a reconciliation may raise. -/
structure Bookkeeping (meetsGroup : Option Group → Prop)
    (meetsReply : Supervisor → Envelope → Prop) (meetsRecord : RecordCondition) : Prop where
  touched : ∀ s s', J s → s.Touched s' → J s'
  setGroup : ∀ s group, J s → s.accepts group = true → meetsGroup group →
    J { s with desired := group }
  deferred : ∀ s b, J s → J { s with reconcileDeferred := b }
  firehose : ∀ s, J s → J { s with firehoseRequested := true }
  firehoseSent : ∀ s id, J s → s.pending = ∅ →
    J (s.awaitReplies id firehoseGroupId s.config.firehoseChannels)
  planned : ∀ s, J s → ∀ p ∈ s.pieces, Q p
  unplanned : ∀ s p e, J s → Fits s.applied p → Q p → s.mustDefer p = false →
    (∀ groupId, p = .removeGroup groupId →
      ∀ id p, s.pending.get? id = some p → p.groupId = firehoseGroupId) →
    s.pieceCommands p = .error e → R
  recorded : ∀ s p id, J s → s.Planned [p] → Q p →
    meetsRecord s.resyncing s.subscriptions p →
    J ((s.afterCommand p id).recordChange p).1
  reply : ∀ s env, J s → meetsReply s env → J (s.withLock env).1
  prune : ∀ s, J s → J s.pruneBooks
  forget : ∀ s, J s → s.Dormant → J s.forgetConnection
  ended : ∀ s detail, J s → J (s.endConnection detail)

variable {J Q R} {meetsGroup : Option Group → Prop} {meetsReply : Supervisor → Envelope → Prop}
  {meetsRecord : RecordCondition} {s : Supervisor}

theorem Underway.of_same {s' : Supervisor} {work : Work} (h : Underway Q s work)
    (ha : s'.applied = s.applied) (hp : s'.pending = s.pending) : Underway Q s' work := by
  cases work with
  | request cmd => exact h
  | firehose => exact hp.trans h
  | piece piece cmd rest later => exact ⟨h.1.of_same ha hp, h.2⟩
  | closing => trivial

/-- The pieces up to the next send. -/
theorem Bookkeeping.nextPiece (B : Bookkeeping J Q R meetsGroup meetsReply meetsRecord)
    (h : J s) {pieces : List PlanChange} (hp : s.Planned pieces) (hq : ∀ p ∈ pieces, Q p) :
    Ready J (Underway Q) R (s.nextPiece pieces) := by
  cases pieces with
  | nil => exact h
  | cons piece later =>
      rw [Supervisor.nextPiece]
      split
      · exact B.deferred s true h
      · next hdefer =>
          have hrealizes : ∀ cmds, s.pieceCommands piece = .ok cmds → Realizes piece cmds :=
            fun cmds => Supervisor.realizes_pieceCommands
          split
          · next e he =>
              refine ⟨h, B.unplanned s piece e h hp.chain.1 (hq _ List.mem_cons_self)
                (by simpa using hdefer) ?_ he⟩
              exact fun id hid => hp.quiet id (hid ▸ List.mem_cons_self)
          · next cmd rest hok => exact ⟨h, hp, hq, hrealizes _ hok⟩
          · next hok =>
              exact absurd rfl (hrealizes _ hok).ne_nil

theorem Bookkeeping.startReconcile (B : Bookkeeping J Q R meetsGroup meetsReply meetsRecord)
    (h : J s) : Ready J (Underway Q) R s.startReconcile := by
  rw [Supervisor.startReconcile, Supervisor.reconcileGuard]
  cases hsession : s.session with
  | none => exact h
  | some session =>
      simp only
      by_cases hopen : session.isOpen = true
      · by_cases hpending : s.pending.isEmpty = true
        · have hnone : s.pending = ∅ := Dict.ext (List.isEmpty_iff.mp hpending)
          simp only [hopen, hpending, Bool.not_true, Bool.false_eq_true, if_false]
          split
          · exact ⟨B.firehose s h, hnone⟩
          · refine B.nextPiece h (Supervisor.planned_pieces ?_) (B.planned s h)
            intro id p hp
            rw [hnone] at hp
            cases hp
        · simp only [hopen, hpending, Bool.not_true, Bool.false_eq_true, if_false,
            Bool.not_false, if_true]
          have hd := B.deferred s true h
          rw [hsession] at hd
          exact hd
      · simp only [hopen, Bool.not_false, if_true]
        exact h

theorem Bookkeeping.resume (B : Bookkeeping J Q R meetsGroup meetsReply meetsRecord)
    (h : J s) : Ready J (Underway Q) R s.resume := by
  rw [Supervisor.resume]
  split
  · exact B.startReconcile (B.deferred s false h)
  · exact h

theorem Bookkeeping.afterSend (B : Bookkeeping J Q R meetsGroup meetsReply meetsRecord)
    (h : J s) {work : Work} (hk : Underway Q s work) (id : Int)
    (hm : Records meetsRecord s work) : Ready J (Underway Q) R (s.afterSend work id) := by
  cases work with
  | request cmd => exact B.resume h
  | firehose =>
      refine B.nextPiece (B.firehoseSent s id h hk) (Supervisor.planned_pieces ?_)
        (B.planned _ (B.firehoseSent s id h hk))
      intro id' p hp
      rw [Supervisor.awaitReplies, hk, Dict.get?_set] at hp
      split at hp
      · rw [← Option.some.inj hp]
      · cases hp
  | piece piece cmd rest later =>
      obtain ⟨hplan, hq, hreal⟩ := hk
      cases rest with
      | nil =>
          have hone : s.Planned [piece] :=
            ⟨⟨hplan.chain.1, trivial⟩,
              fun id hid => hplan.quiet id (List.mem_singleton.mp hid ▸ List.mem_cons_self),
              fun id => List.not_mem_nil⟩
          have hj := B.recorded s piece id h hone (hq _ List.mem_cons_self) hm
          have happlied : (s.afterCommand piece id).applied = s.applied := by
            cases piece <;> rfl
          obtain ⟨hraise, hafter, -⟩ :=
            Supervisor.recordChange_of_fits (s := s.afterCommand piece id)
            (happlied ▸ hplan.chain.1)
          rw [Supervisor.afterSend]
          split
          · next hr => rw [hr] at hraise; cases hraise
          · next s' hr =>
              rw [hr] at hj hafter
              refine B.nextPiece hj ⟨?_, ?_, ?_⟩ fun p hp => hq p (List.mem_cons_of_mem _ hp)
              · rw [hafter, happlied]
                exact hplan.chain.2
              · exact fun id hid => absurd hid (hplan.first id)
              · exact fun id hid => absurd (List.mem_of_mem_tail hid) (hplan.first id)
      | cons next rest =>
          obtain ⟨hreal, hnot⟩ := hreal.tail
          have hsame : s.afterCommand piece id = s := by
            cases piece with
            | addGroup g => exact absurd rfl (hnot g)
            | removeGroup _ => rfl
            | addMarkets _ _ => rfl
            | removeMarkets _ _ => rfl
          rw [Supervisor.afterSend, hsame]
          exact ⟨h, hplan, hq, hreal⟩
  | closing => exact h

theorem Bookkeeping.lockedReply (B : Bookkeeping J Q R meetsGroup meetsReply meetsRecord)
    (h : J s) (env : Envelope) (hm : meetsReply s env) :
    Ready J (Underway Q) R (s.lockedReply env) := by
  have hj := B.reply s env h hm
  rw [Supervisor.lockedReply]
  split
  · next hw =>
      rw [hw] at hj
      exact hj
  · next hw =>
      rw [hw] at hj
      exact B.resume hj
  · next hw =>
      rw [hw] at hj
      exact ⟨hj, Supervisor.withLock_request (by rw [hw])⟩

/-- A run without a condition on what the sends find. -/
theorem Meets.records {c : Conn} {e : ConnEvent}
    (h : Meets meetsGroup meetsReply (fun _ _ => True) c e) :
    Meets meetsGroup meetsReply (Records fun _ _ _ => True) c e := by
  cases e with
  | sendReturns =>
      intro held _
      rcases held.work with _ | _ | ⟨_, _, _ | _, _⟩ | _ <;> trivial
  | _ => exact h

theorem Bookkeeping.discipline (B : Bookkeeping J Q R meetsGroup meetsReply meetsRecord) :
    Discipline J (Underway Q) R meetsGroup meetsReply (Records meetsRecord) where
  touched := B.touched
  touchedWork _ _ _ _ hk ht := hk.of_same ht.control.applied ht.control.pending
  setGroup := B.setGroup
  setGroupWork _ _ _ _ hk _ _ := hk.of_same rfl rfl
  start _ h := B.startReconcile h
  reply _ env h hm := B.lockedReply h env hm
  afterSend _ _ id h hk hm := B.afterSend h hk id hm
  putReturn _ _ work hm := by
    cases work with
    | piece piece cmd rest later => cases rest <;> exact hm
    | _ => trivial
  prune := B.prune
  forget := B.forget
  ended := B.ended

end Conn

end Tape
