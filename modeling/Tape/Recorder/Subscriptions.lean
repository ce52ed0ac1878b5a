import Tape.Recorder.Reconciling

/-!
# The subscription table

A group is applied once its subscribe has left, and is subscribed once the
exchange has answered with a subscription id. In between a subscribe of the
group is pending, and afterwards some id carries the group's name: `Tabled`.
It is why the planner always finds an id for a change of membership, so that a
reconciliation raises nothing but a failed send.

Two inputs break the table, and the source excludes both elsewhere. The
firehose subscription is told apart from the groups by its name, so a group of
that name is not tracked as one; the planner never gives it to a group. And a
reply to the firehose subscribe takes over whatever id it names; "a sid names
one channel for its connection's life".
-/

namespace Tape

namespace Supervisor

/-- The name of the applied group. -/
def appliedId (s : Supervisor) : Option String := s.applied.map Group.groupId

/-- A subscribe of the group awaits a reply. -/
def AwaitsReply (s : Supervisor) (groupId : String) : Prop :=
  ∃ id p, s.pending.get? id = some p ∧ p.groupId = groupId

/-- A live subscription carries the group. -/
def Carried (s : Supervisor) (groupId : String) : Prop :=
  ∃ sid info, s.subscriptions.get? sid = some info ∧ info.groupId = groupId

/-- The pending subscribes, the live subscriptions and the applied group agree. -/
structure Tabled (config : SupervisorConfig) (s : Supervisor) : Prop where
  configured : s.config = config
  desired : ∀ g, s.desired = some g → g.groupId ≠ firehoseGroupId ∧ config.groupChannels ≠ []
  applied : ∀ groupId, s.appliedId = some groupId →
    groupId ≠ firehoseGroupId ∧ config.groupChannels ≠ []
  pending : ∀ id p, s.pending.get? id = some p →
    p.groupId = firehoseGroupId ∨ s.appliedId = some p.groupId
  unique : ∀ id id' p p', s.pending.get? id = some p → s.pending.get? id' = some p' →
    p.groupId = p'.groupId → id = id'
  bound : ∀ groupId, s.appliedId = some groupId → s.AwaitsReply groupId ∨ s.Carried groupId

variable {config : SupervisorConfig} {s : Supervisor}

theorem Tabled.of_same {s' : Supervisor} (h : s.Tabled config) (hc : s'.config = s.config)
    (hd : s'.desired = s.desired) (ha : s'.appliedId = s.appliedId)
    (hp : s'.pending = s.pending) (hs : s'.subscriptions = s.subscriptions) :
    s'.Tabled config where
  configured := hc.trans h.configured
  desired := by rw [hd]; exact h.desired
  applied := by rw [ha]; exact h.applied
  pending := by rw [hp, ha]; exact h.pending
  unique := by rw [hp]; exact h.unique
  bound := by
    intro groupId hg
    rw [AwaitsReply, Carried, hp, hs]
    exact h.bound groupId (ha ▸ hg)

/-! ## The sids of a group -/

theorem mem_foldl_sids (groupId : String) (sid : Sid) (l : List (Sid × SubscriptionInfo))
    (d : Dict String (List Sid)) :
    sid ∈ (l.foldl (fun d e => d.set e.2.groupId (d.getD e.2.groupId [] ++ [e.1])) d).getD
        groupId [] ↔
      sid ∈ d.getD groupId [] ∨ ∃ info, (sid, info) ∈ l ∧ info.groupId = groupId := by
  induction l generalizing d with
  | nil => simp
  | cons e l ih =>
      obtain ⟨sid', info'⟩ := e
      rw [List.foldl_cons, ih]
      by_cases hg : info'.groupId = groupId
      · subst hg
        simp [Dict.getD]
        constructor
        · rintro ((h | rfl) | h)
          · exact .inl h
          · exact .inr ⟨info', .inl ⟨rfl, rfl⟩, rfl⟩
          · obtain ⟨info, hmem, hi⟩ := h
            exact .inr ⟨info, .inr hmem, hi⟩
        · rintro (h | ⟨info, ⟨rfl, -⟩ | hmem, hi⟩)
          · exact .inl (.inl h)
          · exact .inl (.inr rfl)
          · exact .inr ⟨info, hmem, hi⟩
      · simp only [Dict.getD, Dict.get?_set_ne hg, List.mem_cons, Prod.mk.injEq]
        constructor
        · rintro (h | ⟨info, hmem, hi⟩)
          · exact .inl h
          · exact .inr ⟨info, .inr hmem, hi⟩
        · rintro (h | ⟨info, ⟨-, rfl⟩ | hmem, hi⟩)
          · exact .inl h
          · exact absurd hi hg
          · exact .inr ⟨info, hmem, hi⟩

theorem sidsOf_carried {groupId : String} (h : s.Carried groupId) (action : String) :
    ∃ sids, sidsOf s.sidOf groupId action = .ok sids := by
  obtain ⟨sid, info, hget, hg⟩ := h
  have hmem : sid ∈ s.sidOf.getD groupId [] := by
    refine (mem_foldl_sids groupId sid _ ∅).mpr (.inr ⟨info, ?_, hg⟩)
    exact (List.mem_insertionSort _).mpr (Dict.get?_eq_some_iff.mp hget)
  have hmem : sid ∈ (s.sidOf.getD groupId []).dedup.insertionSort (· ≤ ·) :=
    (List.mem_insertionSort _).mpr (List.mem_dedup.mpr hmem)
  rw [sidsOf]
  split
  · next hnil => rw [hnil] at hmem; cases hmem
  · exact ⟨_, rfl⟩

/-- The planner finds the commands of every piece of a group that is carried. -/
theorem pieceCommands_ok {piece : PlanChange} (hc : s.config.groupChannels ≠ [])
    (h : ∀ g, Fits (some g) piece → s.applied = some g → s.Carried g.groupId)
    (hf : Fits s.applied piece) : ∃ cmds, s.pieceCommands piece = .ok cmds := by
  rw [pieceCommands, toCommands_singleton hc]
  cases piece with
  | addGroup g => exact ⟨_, rfl⟩
  | removeGroup id =>
      obtain ⟨g, hg, rfl⟩ := hf
      obtain ⟨sids, hsids⟩ := sidsOf_carried (h g ⟨g, rfl, rfl⟩ hg) "unsubscribe"
      simp only [commandsOf, hsids]
      exact ⟨_, rfl⟩
  | addMarkets id tickers =>
      obtain ⟨g, hg, rfl⟩ := hf
      obtain ⟨sids, hsids⟩ := sidsOf_carried (h g ⟨g, rfl, rfl⟩ hg) "add_markets"
      simp only [commandsOf, hsids]
      exact ⟨_, rfl⟩
  | removeMarkets id tickers =>
      obtain ⟨g, hg, rfl, hne⟩ := hf
      obtain ⟨sids, hsids⟩ := sidsOf_carried (h g ⟨g, rfl, rfl, hne⟩ hg) "delete_markets"
      simp only [commandsOf, hsids]
      exact ⟨_, rfl⟩

/-! ## What keeps the table -/

theorem Tabled.addGroup (h : s.Tabled config) (hnone : s.applied = none) {g : Group}
    (hg : g.groupId ≠ firehoseGroupId ∧ config.groupChannels ≠ []) (id : Int) :
    ((s.awaitReplies id g.groupId s.config.groupChannels).recordChange (.addGroup g)).1.Tabled
      config where
  configured := h.configured
  desired := h.desired
  applied groupId hid := by
    obtain rfl := Option.some.inj hid
    exact hg
  pending id' p hp := by
    rw [recordChange, awaitReplies] at hp
    rw [Dict.get?_set] at hp
    split at hp
    · obtain rfl := Option.some.inj hp
      exact .inr rfl
    · refine .inl ((h.pending id' p hp).resolve_right ?_)
      simp [appliedId, hnone]
  unique id' id'' p p' hp hp' heq := by
    -- The other pending subscribes are of the firehose: nothing was applied.
    have hother : ∀ id q, s.pending.get? id = some q → q.groupId = firehoseGroupId := by
      intro id q hq
      refine (h.pending id q hq).resolve_right ?_
      simp [appliedId, hnone]
    rw [recordChange, awaitReplies] at hp hp'
    rw [Dict.get?_set] at hp hp'
    split at hp <;> split at hp'
    · next h₁ h₂ => exact h₁.symm.trans h₂
    · obtain rfl := Option.some.inj hp
      exact absurd (heq.trans (hother _ _ hp')) hg.1
    · obtain rfl := Option.some.inj hp'
      exact absurd (heq.symm.trans (hother _ _ hp)) hg.1
    · exact h.unique _ _ _ _ hp hp' heq
  bound groupId hid := by
    obtain rfl := Option.some.inj hid
    exact .inl ⟨id, _, Dict.get?_set_self _ _ _, rfl⟩

theorem Tabled.removeGroup (h : s.Tabled config)
    (hquiet : ∀ id p, s.pending.get? id = some p → p.groupId = firehoseGroupId)
    {groupId : String} (hf : Fits s.applied (.removeGroup groupId)) :
    (s.recordChange (.removeGroup groupId)).1.Tabled config := by
  obtain ⟨g, hg, rfl⟩ := hf
  rw [recordChange, hg]
  simp only [ne_eq, not_true_eq_false, if_false]
  exact
    { configured := h.configured
      desired := h.desired
      applied := fun groupId hid => by cases hid
      pending := fun id p hp => .inl (hquiet id p hp)
      unique := h.unique
      bound := fun groupId hid => by cases hid }

/-- The tickers of the applied group change, and nothing else does. -/
theorem Tabled.reapply (h : s.Tabled config) {g : Group} (hg : s.applied = some g)
    (tickers : Finset Ticker) :
    { s with applied := some { g with tickers := tickers } }.Tabled config :=
  h.of_same rfl rfl (by simp [appliedId, hg]) rfl rfl

theorem Tabled.recorded (h : s.Tabled config) {piece : PlanChange} (id : Int)
    (hp : s.Planned [piece])
    (hq : ∀ g, piece = .addGroup g →
      g.groupId ≠ firehoseGroupId ∧ config.groupChannels ≠ []) :
    ((s.afterCommand piece id).recordChange piece).1.Tabled config := by
  cases piece with
  | addGroup g => exact h.addGroup hp.chain.1 (hq g rfl) id
  | removeGroup groupId =>
      exact h.removeGroup (hp.quiet groupId List.mem_cons_self) hp.chain.1
  | addMarkets groupId tickers =>
      obtain ⟨g, hg, rfl⟩ := hp.chain.1
      show (s.recordChange _).1.Tabled config
      rw [recordChange, hg]
      simp only [ne_eq, not_true_eq_false, if_false]
      exact h.reapply hg _
  | removeMarkets groupId tickers =>
      obtain ⟨g, hg, rfl, -⟩ := hp.chain.1
      show (s.recordChange _).1.Tabled config
      rw [recordChange, hg]
      simp only [ne_eq, not_true_eq_false, if_false]
      exact (h.reapply hg _).of_same rfl rfl rfl rfl rfl

/-- The id a reply binds. -/
def replySid (env : Envelope) : Option Sid :=
  match env.body with
  | .subscribed (.ok msg) => some msg.sid
  | .ok _ => env.sid
  | _ => none

/-- The reply does not answer the firehose subscribe with an id that carries
the applied group. -/
def SparesGroup (s : Supervisor) (env : Envelope) : Prop :=
  ∀ id p sid info, env.id = some id → s.pending.get? id = some p →
    p.groupId = firehoseGroupId → replySid env = some sid →
    s.subscriptions.get? sid = some info → s.appliedId ≠ some info.groupId

theorem Tabled.answer (h : s.Tabled config) {id : Int} {p : PendingSubscribe}
    (hp : s.pending.get? id = some p) (sid : Sid) (channel : String)
    (hs : p.groupId = firehoseGroupId → ∀ info, s.subscriptions.get? sid = some info →
      s.appliedId ≠ some info.groupId) : (s.answer id p sid channel).Tabled config := by
  -- What is pending afterwards was pending before, for the same group.
  have hbefore : ∀ id' p', (s.answer id p sid channel).pending.get? id' = some p' →
      ∃ q, s.pending.get? id' = some q ∧ q.groupId = p'.groupId := by
    intro id' p' hp'
    simp only [Supervisor.answer] at hp'
    split at hp'
    · rw [Dict.get?_erase] at hp'
      split at hp'
      · cases hp'
      · exact ⟨p', hp', rfl⟩
    · rw [Dict.get?_set] at hp'
      split at hp'
      · next heq =>
          subst heq
          obtain rfl := Option.some.inj hp'
          exact ⟨p, hp, rfl⟩
      · exact ⟨p', hp', rfl⟩
  refine
    { configured := h.configured
      desired := h.desired
      applied := h.applied
      pending := ?_
      unique := ?_
      bound := ?_ }
  · intro id' p' hp'
    obtain ⟨q, hq, hid⟩ := hbefore id' p' hp'
    rw [← hid]
    exact h.pending id' q hq
  · intro id₁ id₂ p₁ p₂ hp₁ hp₂ heq
    obtain ⟨q₁, hq₁, hid₁⟩ := hbefore id₁ p₁ hp₁
    obtain ⟨q₂, hq₂, hid₂⟩ := hbefore id₂ p₂ hp₂
    exact h.unique id₁ id₂ q₁ q₂ hq₁ hq₂ (by rw [hid₁, hid₂, heq])
  · intro groupId hid
    by_cases hgroup : p.groupId = groupId
    · exact .inr ⟨sid, _, Dict.get?_set_self _ _ _, hgroup⟩
    · rcases h.bound groupId hid with ⟨id', q, hq, hqid⟩ | ⟨sid', info, hinfo, hi⟩
      · left
        have hne : id ≠ id' := by
          rintro rfl
          rw [hp] at hq
          exact hgroup (Option.some.inj hq ▸ hqid)
        refine ⟨id', q, ?_, hqid⟩
        simp only [Supervisor.answer]
        split
        · rw [Dict.get?_erase_ne hne, hq]
        · rw [Dict.get?_set_ne hne, hq]
      · right
        refine ⟨sid', info, ?_, hi⟩
        have hfirehose : p.groupId = firehoseGroupId := by
          refine (h.pending id p hp).resolve_right fun happlied => hgroup ?_
          exact Option.some.inj (happlied.symm.trans hid)
        have hne : sid ≠ sid' := by
          rintro rfl
          exact hs hfirehose info hinfo (hi ▸ hid)
        rw [Supervisor.answer, Dict.get?_set_ne hne, hinfo]

theorem Tabled.adoptMembership (h : s.Tabled config) (groupId : String) (sid : Sid)
    (channel : String) (marketTickers : Option (List Ticker)) :
    (s.adoptMembership groupId sid channel marketTickers).1.Tabled config := by
  have hsnap : ∀ {s : Supervisor} (tickers : Finset Ticker), s.Tabled config →
      (s.requestSnapshot sid tickers).1.Tabled config := by
    intro s tickers h
    obtain ⟨hc, -⟩ := s.requestSnapshot_control sid tickers
    exact h.of_same hc.config hc.desired (by rw [appliedId, hc.applied]; rfl) hc.pending
      hc.subscriptions
  rw [Supervisor.adoptMembership.eq_def]
  split
  · next _ _ t ts g hg =>
      split
      · exact h
      · have hadopted : (if (t :: ts).toFinset ≠ g.tickers then
            { s with applied := some { g with tickers := (t :: ts).toFinset }
                     reconcileDeferred := true }
            else s).Tabled config := by
          split
          · exact (h.reapply hg _).of_same rfl rfl rfl rfl rfl
          · exact h
        simp only
        split
        · exact hadopted
        · exact hsnap _ hadopted
  · exact h

theorem Tabled.refused (h : s.Tabled config) {id : Int} {p : PendingSubscribe}
    (hp : s.pending.get? id = some p) {s' : Supervisor} (hc : s'.config = s.config)
    (hd : s'.desired = s.desired) (hs : s'.subscriptions = s.subscriptions)
    (hpend : s'.pending = s.pending.erase id)
    (ha : s'.applied = s.applied ∧ (p.groupId = firehoseGroupId ∨ s.Carried p.groupId) ∨
      s'.applied = none ∧ p.groupId ≠ firehoseGroupId) : s'.Tabled config := by
  have hbefore : ∀ id' q, s'.pending.get? id' = some q →
      id ≠ id' ∧ s.pending.get? id' = some q := by
    intro id' q hq
    rw [hpend, Dict.get?_erase] at hq
    split at hq
    · cases hq
    · next hne => exact ⟨hne, hq⟩
  refine
    { configured := hc.trans h.configured
      desired := hd ▸ h.desired
      applied := ?_
      pending := ?_
      unique := fun _ _ q q' hq hq' => h.unique _ _ q q' (hbefore _ q hq).2 (hbefore _ q' hq').2
      bound := ?_ }
  · intro groupId hid
    rcases ha with ⟨ha, -⟩ | ⟨ha, -⟩
    · rw [appliedId, ha] at hid
      exact h.applied groupId hid
    · rw [appliedId, ha] at hid
      cases hid
  · intro id' q hq
    obtain ⟨hne, hq⟩ := hbefore id' q hq
    rcases h.pending id' q hq with hfire | hown
    · exact .inl hfire
    · rcases ha with ⟨ha, -⟩ | ⟨-, hp'⟩
      · rw [appliedId, ha]
        exact .inr hown
      · -- The refused subscribe was the only one of its group.
        have hown' := (h.pending id p hp).resolve_left hp'
        exact absurd (h.unique id id' p q hp hq
          (Option.some.inj (hown'.symm.trans hown))) hne
  · intro groupId hid
    rcases ha with ⟨ha, hcarried⟩ | ⟨ha, -⟩
    · rw [appliedId, ha] at hid
      rw [AwaitsReply, Carried, hs]
      rcases h.bound groupId hid with ⟨id', q, hq, hqid⟩ | hlive
      · by_cases heq : id = id'
        · subst heq
          obtain rfl := Option.some.inj (hp.symm.trans hq)
          rcases hcarried with hfire | hlive
          · exact absurd (hqid.symm.trans hfire) (h.applied groupId hid).1
          · exact .inr (hqid ▸ hlive)
        · left
          refine ⟨id', q, ?_, hqid⟩
          rw [hpend, Dict.get?_erase_ne heq, hq]
      · exact .inr hlive
    · rw [appliedId, ha] at hid
      cases hid

theorem Tabled.withLock (h : s.Tabled config) {env : Envelope} (hs : s.SparesGroup env) :
    (s.withLock env).1.Tabled config := by
  rw [Supervisor.withLock.eq_def]
  split
  · next msg hbody =>
      have hnoted : { s with channelOfSid := s.channelOfSid.set msg.sid msg.channel }.Tabled
          config := h.of_same rfl rfl rfl rfl rfl
      simp only
      split
      · exact hnoted
      · next id hid =>
          split
          · exact hnoted
          · next p hp =>
              refine hnoted.answer hp msg.sid msg.channel fun hfire info hinfo => ?_
              exact hs id p msg.sid info hid hp hfire (by rw [replySid, hbody]) hinfo
  · next msg hbody =>
      split
      · exact h
      · next id hid =>
          split
          · next p sid hp hsid =>
              split
              · exact h
              · split
                · exact h
                · split
                  · exact h.of_same rfl rfl rfl rfl rfl
                  · refine (h.answer hp sid _ fun hfire info hinfo => ?_).adoptMembership _ _ _ _
                    exact hs id p sid info hid hp hfire (by rw [replySid, hbody]; exact hsid) hinfo
          · exact h
  · next msg hbody =>
      split
      · exact h
      · next id hid =>
          split
          · exact h
          · next p hp =>
              simp only
              split
              · next hfire => exact h.refused hp rfl rfl rfl rfl (.inl ⟨rfl, .inl hfire⟩)
              · next hnot =>
                  split
                  · exact h.refused hp rfl rfl rfl rfl (.inr ⟨rfl, hnot⟩)
                  · next hall =>
                      refine h.refused hp rfl rfl rfl rfl (.inl ⟨rfl, .inr ?_⟩)
                      simp only [List.all_eq_true, decide_eq_true_eq, not_forall, Dict.values,
                        List.mem_map] at hall
                      obtain ⟨info, ⟨⟨sid, info'⟩, hmem, rfl⟩, hgroup⟩ := hall
                      exact ⟨sid, info', Dict.get?_eq_some_iff.mpr hmem, not_not.mp hgroup⟩
  · exact h

theorem subscribing_of_awaitsReply {groupId : String} (h : s.AwaitsReply groupId) :
    s.subscribing groupId = true := by
  obtain ⟨id, p, hp, hg⟩ := h
  rw [subscribing, List.any_eq_true]
  exact ⟨p, List.mem_map_of_mem (Dict.get?_eq_some_iff.mp hp), by simpa using hg⟩

/-- The planner finds the ids of every piece that need not wait. -/
theorem Tabled.planned (h : s.Tabled config) {piece : PlanChange} (hf : Fits s.applied piece)
    (hq : ∀ g, piece = .addGroup g →
      g.groupId ≠ firehoseGroupId ∧ config.groupChannels ≠ [])
    (hdefer : s.mustDefer piece = false)
    (hquiet : ∀ groupId, piece = .removeGroup groupId →
      ∀ id p, s.pending.get? id = some p → p.groupId = firehoseGroupId) :
    ∃ cmds, s.pieceCommands piece = .ok cmds := by
  have hnamed : ∀ g, s.applied = some g →
      g.groupId ≠ firehoseGroupId ∧ config.groupChannels ≠ [] :=
    fun g hg => h.applied g.groupId (by rw [appliedId, hg]; rfl)
  refine pieceCommands_ok ?_ ?_ hf
  · rw [h.configured]
    cases piece with
    | addGroup g => exact (hq g rfl).2
    | removeGroup groupId =>
        obtain ⟨g, hg, -⟩ := hf
        exact (hnamed g hg).2
    | addMarkets groupId tickers =>
        obtain ⟨g, hg, -⟩ := hf
        exact (hnamed g hg).2
    | removeMarkets groupId tickers =>
        obtain ⟨g, hg, -⟩ := hf
        exact (hnamed g hg).2
  · intro g hfit hg
    refine (h.bound g.groupId (by rw [appliedId, hg]; rfl)).resolve_left fun hawaits => ?_
    have hsubscribing := subscribing_of_awaitsReply hawaits
    cases piece with
    | addGroup _ => cases hfit
    | removeGroup groupId =>
        obtain ⟨id, p, hp, hpg⟩ := hawaits
        exact (hnamed g hg).1 (hpg.symm.trans (hquiet groupId rfl id p hp))
    | addMarkets groupId tickers =>
        obtain ⟨g', hg', rfl⟩ := hfit
        obtain rfl := Option.some.inj hg'
        rw [mustDefer, hsubscribing] at hdefer
        cases hdefer
    | removeMarkets groupId tickers =>
        obtain ⟨g', hg', rfl, -⟩ := hfit
        obtain rfl := Option.some.inj hg'
        rw [mustDefer, hsubscribing] at hdefer
        cases hdefer

/-- A supervisor without a connection has an empty table. -/
theorem Tabled.unconnected {s' : Supervisor} (h : s.Tabled config)
    (hc : s'.config = s.config) (hd : s'.desired = s.desired) (ha : s'.applied = none)
    (hp : s'.pending = ∅) : s'.Tabled config where
  configured := hc.trans h.configured
  desired := hd ▸ h.desired
  applied groupId hid := by
    rw [appliedId, ha] at hid
    cases hid
  pending id p hget := by
    rw [hp] at hget
    cases hget
  unique id id' p p' hget := by
    rw [hp] at hget
    cases hget
  bound groupId hid := by
    rw [appliedId, ha] at hid
    cases hid

end Supervisor

namespace Conn

/-- A group is not named like the firehose subscription. -/
def Named (group : Option Group) : Prop := ∀ g, group = some g → g.groupId ≠ firehoseGroupId

theorem tabled_bookkeeping (config : SupervisorConfig) :
    Bookkeeping (Supervisor.Tabled config)
      (fun piece => ∀ g, piece = .addGroup g →
        g.groupId ≠ firehoseGroupId ∧ config.groupChannels ≠ [])
      False Named Supervisor.SparesGroup (fun _ _ _ => True) where
  touched s s' h ht :=
    h.of_same ht.control.config ht.control.desired
      (by rw [Supervisor.appliedId, ht.control.applied]; rfl) ht.control.pending
      ht.control.subscriptions
  setGroup s group h hacc hm :=
    { configured := h.configured
      desired := by
        intro g hg
        refine ⟨hm g hg, ?_⟩
        obtain rfl : group = some g := hg
        simp only [Supervisor.accepts, decide_eq_true_eq] at hacc
        exact h.configured ▸ hacc.2
      applied := h.applied
      pending := h.pending
      unique := h.unique
      bound := h.bound }
  deferred s b h := h.of_same rfl rfl rfl rfl rfl
  firehose s h := h.of_same rfl rfl rfl rfl rfl
  firehoseSent s id h hnone :=
    { configured := h.configured
      desired := h.desired
      applied := h.applied
      pending := by
        intro id' p hp
        rw [Supervisor.awaitReplies, hnone, Dict.get?_set] at hp
        split at hp
        · exact .inl (congrArg PendingSubscribe.groupId (Option.some.inj hp)).symm
        · cases hp
      unique := by
        intro id' id'' p p' hp hp' _
        rw [Supervisor.awaitReplies, hnone, Dict.get?_set] at hp hp'
        split at hp <;> split at hp'
        · next h₁ h₂ => exact h₁.symm.trans h₂
        · cases hp'
        · cases hp
        · cases hp
      bound := by
        intro groupId hid
        refine .inr ((h.bound groupId hid).resolve_left ?_)
        rintro ⟨id', p, hp, -⟩
        rw [hnone] at hp
        cases hp }
  planned s h piece hmem g hpiece := by
    obtain ⟨d, hd, hid, -⟩ :=
      (reshaping_pieces s.config.maxMarketsPerCommand s.applied s.desired).addGroup (hpiece ▸ hmem)
    rw [hid]
    exact h.desired d hd
  unplanned s piece e h hf hq hdefer hquiet herr := by
    obtain ⟨cmds, hok⟩ := h.planned hf hq hdefer hquiet
    rw [hok] at herr
    cases herr
  recorded s piece id h hp hq _ := h.recorded id hp hq
  reply s env h hm := h.withLock hm
  prune s h := h.of_same rfl rfl rfl rfl rfl
  forget s h _ := h.unconnected rfl rfl rfl rfl
  ended s detail h := h.unconnected rfl rfl rfl rfl

/-- An applied group awaits a reply or is subscribed, with one subscribe pending
at most; and no reconciliation has raised anything but a failed send. -/
structure SubscriptionTable (c : Conn) : Prop where
  carried : ∀ g, c.sup.applied = some g → ¬ c.sup.AwaitsReply g.groupId →
    c.sup.Carried g.groupId
  unique : ∀ id id' p p', c.sup.pending.get? id = some p → c.sup.pending.get? id' = some p' →
    p.groupId = p'.groupId → id = id'
  raised : c.raised = none

theorem subscriptionTable_throughout (config : SupervisorConfig) (es : List ConnEvent)
    (hes : Run.Along step (Meets Named Supervisor.SparesGroup fun _ _ => True) (.new config) es) :
    Run.Throughout step SubscriptionTable (.new config) es := by
  have D := (tabled_bookkeeping config).discipline
  have hnew : Supervisor.Tabled config (.new config) :=
    { configured := rfl, desired := nofun, applied := nofun, pending := nofun, unique := nofun,
      bound := nofun }
  have hrun := D.throughout config hnew es (hes.mono fun _ _ => Meets.records)
  refine hrun.mono fun c hc => ⟨?_, hc.state.unique, hc.raised.resolve_left id⟩
  intro g hg hawaits
  exact (hc.state.bound g.groupId (by rw [Supervisor.appliedId, hg]; rfl)).resolve_left hawaits

/-! Runs on which the table holds, and two on which it breaks. -/

/-- A reply to command `id`. -/
def replyFrame (id : Int) (sid : Option Sid) (body : Body) : RawFrame :=
  ⟨0, 0, .ok ⟨sid, none, some id, body⟩⟩

/-- The reply to a subscribe. -/
def subscribedFrame (id : Int) (channel : String) (sid : Sid) : RawFrame :=
  replyFrame id none (.subscribed (.ok ⟨channel, sid⟩))

/-- A connection with a firehose subscription, and one with a group, up to
their first replies. -/
def subscribeBoth (group : Group) : List ConnEvent :=
  [.begin, .opened, .setGroup (some group), .start, .transmit, .sendReturns, .transmit,
    .sendReturns]

/-- A recorder of a group's books and of a firehose. -/
def bothConfig : SupervisorConfig := ⟨0, [orderbookChannel], ["ticker"], true, true, 500⟩

/-- A recorder of a group's books alone. -/
def groupConfig : SupervisorConfig := ⟨0, [orderbookChannel], [], true, true, 500⟩

theorem subscriptionTable_answered :
    Run.Throughout step SubscriptionTable (.new bothConfig)
      (subscribeBoth ⟨"g0000", 0, {"KXA"}⟩ ++
        [.receive (subscribedFrame 2 orderbookChannel 1), .acquireFrame,
          .receive (subscribedFrame 1 "ticker" 2), .acquireFrame]) := by
  refine subscriptionTable_throughout bothConfig _ ?_
  refine ⟨trivial, trivial, ?_, trivial, trivial, fun _ _ => trivial, trivial,
    fun _ _ => trivial, trivial, ?_, trivial, ?_, trivial⟩
  · intro g hg
    obtain rfl := Option.some.inj hg
    decide
  · intro env henv id p sid info hid hp hfire
    obtain rfl := FrameTask.waiting.inj (Option.some.inj henv)
    obtain rfl := Option.some.inj hid
    obtain rfl := Option.some.inj hp
    exact absurd hfire (by decide)
  · intro env henv id p sid info hid hp hfire hsid hinfo
    obtain rfl := FrameTask.waiting.inj (Option.some.inj henv)
    obtain rfl := Option.some.inj hsid
    cases hinfo

/-- The firehose reply takes over the group's sid, and the next change of the
group finds none. Likewise a group that is named like the firehose: its refusal
leaves it applied. -/
theorem subscriptionTable_broken :
    ¬ Run.Throughout step SubscriptionTable (.new bothConfig)
        (subscribeBoth ⟨"g0000", 0, {"KXA"}⟩ ++
          [.receive (subscribedFrame 2 orderbookChannel 1), .acquireFrame,
            .receive (subscribedFrame 1 "ticker" 1), .acquireFrame,
            .setGroup (some ⟨"g0000", 0, {"KXA", "KXB"}⟩), .acquire]) ∧
      ¬ Run.Throughout step SubscriptionTable (.new groupConfig)
        [.begin, .opened, .setGroup (some ⟨"*", 0, {"KXA"}⟩), .start, .transmit, .sendReturns,
          .receive (replyFrame 1 none (.error (.ok ⟨8, "unknown market"⟩))), .acquireFrame,
          .setGroup (some ⟨"*", 0, {"KXA", "KXB"}⟩), .acquire] := by
  constructor
  · intro h
    have hraised : some (Failure.uncaught "planner") = none := h.last.raised
    cases hraised
  · intro h
    have hraised : some (Failure.uncaught "planner") = none := h.last.raised
    cases hraised

end Conn

end Tape
