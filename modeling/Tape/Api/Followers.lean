import Tape.Api.Queues

/-!
# The index of followers

The hub keeps, for each market, the sessions that follow it, and moves this
index by the difference of two subscription sets. `Follows` reads the index;
`follow` and `unfollow` change one of its pairs each, and the operations of the
hub change a list of them. What the index must agree with is `Indexed`.

A session is detached once its tasks have ended, so it does not subscribe
again. The hub does not check it: a subscribe after the detach would put the
session back.
-/

namespace Tape.Api

/-- Which sessions follow each market; dictionaries used as ordered sets. -/
abbrev Index := Dict Ticker (Dict SessionId Unit)

namespace LiveHub

/-- The session is in the market's entry. -/
def Follows (index : Index) (t : Ticker) (id : SessionId) : Prop := id ∈ (index.getD t ∅).keys

/-- No entry is empty. -/
def NoneEmpty (index : Index) : Prop := ∀ t ids, index.get? t = some ids → ids.isEmpty = false

variable {index : Index} {id : SessionId} {t : Ticker}

theorem follows_of_get? {ids : Dict SessionId Unit} (h : index.get? t = some ids)
    (j : SessionId) : Follows index t j ↔ j ∈ ids.keys := by
  rw [Follows, Dict.getD, h]
  rfl

theorem not_follows_of_none (h : index.get? t = none) (j : SessionId) : ¬ Follows index t j := by
  rw [Follows, Dict.getD, h]
  exact List.not_mem_nil

theorem isEmpty_iff {ids : Dict SessionId Unit} : ids.isEmpty = true ↔ ∀ j, j ∉ ids.keys := by
  rw [Dict.isEmpty, List.isEmpty_iff, Dict.keys]
  constructor
  · intro h
    simp [h]
  · intro h
    exact List.map_eq_nil_iff.mp (List.eq_nil_iff_forall_not_mem.mpr h)

/-! ## One pair of the index -/

theorem follows_unfollow (index : Index) (id : SessionId) (t u : Ticker) (j : SessionId) :
    Follows (unfollow index id t) u j ↔ Follows index u j ∧ ¬ (u = t ∧ j = id) := by
  rw [unfollow]
  cases hget : index.get? t with
  | none =>
      refine ⟨fun h => ⟨h, ?_⟩, And.left⟩
      rintro ⟨rfl, rfl⟩
      exact not_follows_of_none hget j h
  | some ids =>
      have hself : ∀ j, j ∈ (ids.erase id).keys ↔ Follows index t j ∧ j ≠ id := by
        intro j
        rw [Dict.mem_keys_erase, follows_of_get? hget]
      dsimp only
      split
      · next hempty =>
          by_cases hu : t = u
          · subst hu
            refine iff_of_false (not_follows_of_none (Dict.get?_erase_self _ _) j) ?_
            intro ⟨hin, hnot⟩
            refine isEmpty_iff.mp hempty j ((hself j).mpr ⟨hin, ?_⟩)
            rintro rfl
            exact hnot ⟨rfl, rfl⟩
          · rw [Follows, Dict.getD, Dict.get?_erase_ne hu]
            exact ⟨fun h => ⟨h, fun hboth => hu hboth.1.symm⟩, And.left⟩
      · by_cases hu : t = u
        · subst hu
          rw [follows_of_get? (Dict.get?_set_self _ _ _), hself]
          exact and_congr_right fun _ => ⟨fun hne hboth => hne hboth.2, fun hnot heq =>
            hnot ⟨rfl, heq⟩⟩
        · rw [Follows, Dict.getD, Dict.get?_set_ne hu]
          exact ⟨fun h => ⟨h, fun hboth => hu hboth.1.symm⟩, And.left⟩

theorem noneEmpty_unfollow (h : NoneEmpty index) (id : SessionId) (t : Ticker) :
    NoneEmpty (unfollow index id t) := by
  rw [unfollow]
  cases hget : index.get? t with
  | none => exact h
  | some ids =>
      dsimp only
      intro u ids' hu
      split at hu
      · rw [Dict.get?_erase] at hu
        split at hu
        · cases hu
        · exact h u ids' hu
      · next hsome =>
          rw [Dict.get?_set] at hu
          split at hu
          · obtain rfl := Option.some.inj hu
            exact Bool.eq_false_iff.mpr hsome
          · exact h u ids' hu

theorem follows_follow (index : Index) (id : SessionId) (t u : Ticker) (j : SessionId) :
    Follows (follow index id t) u j ↔ Follows index u j ∨ u = t ∧ j = id := by
  rw [follow]
  by_cases hu : t = u
  · subst hu
    rw [follows_of_get? (Dict.get?_set_self _ _ _), Dict.mem_keys_set, Follows]
    constructor
    · rintro (rfl | hin)
      · exact .inr ⟨rfl, rfl⟩
      · exact .inl hin
    · rintro (hin | ⟨-, rfl⟩)
      · exact .inr hin
      · exact .inl rfl
  · rw [Follows, Dict.getD, Dict.get?_set_ne hu]
    exact ⟨.inl, fun h => h.resolve_right fun hboth => hu hboth.1.symm⟩

theorem noneEmpty_follow (h : NoneEmpty index) (id : SessionId) (t : Ticker) :
    NoneEmpty (follow index id t) := by
  intro u ids hu
  rw [follow, Dict.get?_set] at hu
  split at hu
  · obtain rfl := Option.some.inj hu
    rw [Bool.eq_false_iff, Ne, isEmpty_iff]
    exact fun hnone => hnone id (Dict.mem_keys_set.mpr (.inl rfl))
  · exact h u ids hu

/-! ## A list of pairs -/

theorem follows_unfollows (ts : List Ticker) (index : Index) (id : SessionId) (u : Ticker)
    (j : SessionId) :
    Follows (ts.foldl (fun f t => unfollow f id t) index) u j ↔
      Follows index u j ∧ ¬ (u ∈ ts ∧ j = id) := by
  induction ts generalizing index with
  | nil => exact ⟨fun h => ⟨h, fun hboth => nomatch hboth.1⟩, And.left⟩
  | cons t ts ih =>
      rw [List.foldl_cons, ih, follows_unfollow, List.mem_cons]
      tauto

theorem noneEmpty_unfollows (ts : List Ticker) {index : Index} (h : NoneEmpty index)
    (id : SessionId) : NoneEmpty (ts.foldl (fun f t => unfollow f id t) index) := by
  induction ts generalizing index with
  | nil => exact h
  | cons t ts ih => exact ih (noneEmpty_unfollow h id t)

theorem follows_follows (ts : List Ticker) (index : Index) (id : SessionId) (u : Ticker)
    (j : SessionId) :
    Follows (ts.foldl (fun f t => follow f id t) index) u j ↔
      Follows index u j ∨ u ∈ ts ∧ j = id := by
  induction ts generalizing index with
  | nil => exact ⟨.inl, fun h => h.resolve_right fun hboth => nomatch hboth.1⟩
  | cons t ts ih =>
      rw [List.foldl_cons, ih, follows_follow, List.mem_cons]
      tauto

theorem noneEmpty_follows (ts : List Ticker) {index : Index} (h : NoneEmpty index)
    (id : SessionId) : NoneEmpty (ts.foldl (fun f t => follow f id t) index) := by
  induction ts generalizing index with
  | nil => exact h
  | cons t ts ih => exact ih (noneEmpty_follow h id t)

/-! ## The hub -/

/-- The index agrees with the sessions attached and their subscriptions, which
keep to the limits. -/
structure Indexed (h : LiveHub) : Prop where
  followers : ∀ t id, Follows h.followers t id ↔
    id ∈ h.sessions.keys ∧ t ∈ (h.session id).subscriptions
  noneEmpty : NoneEmpty h.followers
  subscriptions : ∀ id, (h.session id).subscriptions.length ≤ h.config.maxTickers
  clients : h.sessions.size ≤ h.config.maxClients

/-- What numbers the sessions: those attached were admitted, and those to come
follow nothing. -/
structure Numbered (h : LiveHub) : Prop where
  attached : ∀ id ∈ h.sessions.keys, id < h.opened
  unopened : ∀ id, h.opened ≤ id → (h.session id).subscriptions = []

/-- A subscribe, or a frame, of a session that is attached. -/
def Attached (h : LiveHub) : HubAct → Prop
  | .subscribe id _ _ => id ∈ h.sessions.keys
  | .handle id _ _ _ => id ∈ h.sessions.keys
  | _ => True

instance (h : LiveHub) (act : HubAct) : Decidable (h.Attached act) :=
  match act with
  | .subscribe id _ _ => inferInstanceAs (Decidable (id ∈ h.sessions.keys))
  | .handle id _ _ _ => inferInstanceAs (Decidable (id ∈ h.sessions.keys))
  | .admitSession _ => instDecidableTrue
  | .detach _ => instDecidableTrue
  | .closeSessions _ => instDecidableTrue
  | .take _ => instDecidableTrue
  | .lose _ => instDecidableTrue
  | .receive _ _ => instDecidableTrue

/-- A session that left is as it was, gives away a message, or is found gone:
it is offered nothing. -/
def OffersLeftNothing (h : LiveHub) (act : HubAct) : Prop :=
  ∀ id, id < h.opened → id ∉ h.sessions.keys →
    (h.step act).session id ∈ [h.session id, (h.session id).take, (h.session id).lose]

theorem indexed_new (config : ServeConfig) : (new config).Indexed where
  followers _ id := iff_of_false (not_follows_of_none rfl id) fun h => nomatch h.1
  noneEmpty _ _ h := nomatch h
  subscriptions _ := Nat.zero_le _
  clients := Nat.zero_le _

theorem numbered_new (config : ServeConfig) : (new config).Numbered where
  attached _ h := nomatch h
  unopened _ _ := rfl

variable {h h' : LiveHub}

/-- Only what a session has queued, or its limits, has changed. -/
structure SameIndex (h h' : LiveHub) : Prop where
  config : h'.config = h.config
  sessions : h'.sessions = h.sessions
  followers : h'.followers = h.followers
  opened : h'.opened = h.opened
  subscriptions : ∀ id, (h'.session id).subscriptions = (h.session id).subscriptions

theorem Indexed.of_same (hi : h.Indexed) (hs : SameIndex h h') : h'.Indexed where
  followers t id := by
    rw [hs.followers, hs.sessions, hs.subscriptions]
    exact hi.followers t id
  noneEmpty := by
    rw [hs.followers]
    exact hi.noneEmpty
  subscriptions id := by
    rw [hs.subscriptions, hs.config]
    exact hi.subscriptions id
  clients := by
    rw [hs.sessions, hs.config]
    exact hi.clients

theorem Numbered.of_same (hn : h.Numbered) (hs : SameIndex h h') : h'.Numbered where
  attached := by
    rw [hs.sessions, hs.opened]
    exact hn.attached
  unopened id hle := by
    rw [hs.opened] at hle
    rw [hs.subscriptions]
    exact hn.unopened id hle

theorem sameIndex_setSession (h : LiveHub) {id : SessionId} {s : ClientSession}
    (hsubs : s.subscriptions = (h.session id).subscriptions) :
    SameIndex h (h.setSession id s) := by
  refine ⟨rfl, rfl, rfl, rfl, fun j => ?_⟩
  rw [setSession_session]
  split
  · next hj => rw [hj, hsubs]
  · rfl

theorem sameIndex_offer (h : LiveHub) (id : SessionId) (nowNs : Int)
    (messages : List ServerMessage) : SameIndex h (h.offer id nowNs messages) :=
  h.sameIndex_setSession (ClientSession.offer_subscriptions _ _ _ _)

theorem SameIndex.trans {h'' : LiveHub} (h₁ : SameIndex h h') (h₂ : SameIndex h' h'') :
    SameIndex h h'' where
  config := h₂.config.trans h₁.config
  sessions := h₂.sessions.trans h₁.sessions
  followers := h₂.followers.trans h₁.followers
  opened := h₂.opened.trans h₁.opened
  subscriptions id := (h₂.subscriptions id).trans (h₁.subscriptions id)

theorem sameIndex_closeSessions (h : LiveHub) (code : Nat) :
    SameIndex h (h.closeSessions code) := by
  obtain ⟨hc, hs, hf, ho, -, hsession⟩ := h.closeSessions_spec code
  refine ⟨hc, hs, hf, ho, fun id => ?_⟩
  rw [hsession]
  split
  · exact ClientSession.close_subscriptions _
  · rfl

theorem sameIndex_receive (h : LiveHub) (nowNs : SessionId → Int) (message : Option BusEnvelope) :
    SameIndex h (h.receive nowNs message) := by
  cases message with
  | none => exact ⟨rfl, rfl, rfl, rfl, fun _ => rfl⟩
  | some envelope =>
      have hspec := (h.observed envelope).offerAll_spec nowNs
        ((h.observed envelope).outbox (h.live.observe envelope).2 envelope.event)
      have hsession : (h.observed envelope).session = h.session := updateDirectory_session _ _
      refine ⟨hspec.config.trans (updateDirectory_config _ _),
        hspec.sessions.trans (updateDirectory_sessions _ _),
        hspec.followers.trans (updateDirectory_followers _ _),
        hspec.opened.trans (updateDirectory_opened _ _), fun id => ?_⟩
      have hoffered := hspec.session id
      rw [hsession] at hoffered
      rw [LiveHub.receive, fanOut, hoffered]
      split
      · rfl
      · exact ClientSession.offer_subscriptions _ _ _ _

/-! ## Each operation -/

theorem indexed_admitSession (hi : h.Indexed) (hn : h.Numbered) (nowNs : Int) :
    (h.admitSession nowNs).Indexed ∧ (h.admitSession nowNs).Numbered := by
  rw [admitSession]
  split
  · exact ⟨hi, hn⟩
  · next hroom =>
      have hnew : h.opened ∉ h.sessions.keys := fun hin => lt_irrefl _ (hn.attached _ hin)
      have hsubs := hn.unopened h.opened (le_refl _)
      have hadmitted : Indexed { h with
          sessions := h.sessions.set h.opened (), opened := h.opened + 1 } := by
        refine ⟨fun t id => ?_, hi.noneEmpty, hi.subscriptions, ?_⟩
        · show Follows h.followers t id ↔ id ∈ (h.sessions.set h.opened ()).keys ∧ _
          rw [hi.followers, Dict.mem_keys_set]
          constructor
          · rintro ⟨hin, hfollowed⟩
            exact ⟨.inr hin, hfollowed⟩
          · rintro ⟨rfl | hin, hfollowed⟩
            · rw [hsubs] at hfollowed
              cases hfollowed
            · exact ⟨hin, hfollowed⟩
        · show (h.sessions.set h.opened ()).size ≤ h.config.maxClients
          rw [Dict.size, Dict.entries_set_of_not_mem hnew, List.length_append,
            List.length_singleton]
          exact not_le.mp hroom
      have hnumbered : Numbered { h with
          sessions := h.sessions.set h.opened (), opened := h.opened + 1 } := by
        refine ⟨fun id hin => ?_, fun id hle => hn.unopened id (Nat.le_of_succ_le hle)⟩
        rcases Dict.mem_keys_set.mp hin with rfl | hin
        · exact Nat.lt_succ_self _
        · exact Nat.lt_succ_of_lt (hn.attached id hin)
      exact ⟨hadmitted.of_same (sameIndex_offer _ _ _ _),
        hnumbered.of_same (sameIndex_offer _ _ _ _)⟩

theorem indexed_detach (hi : h.Indexed) (hn : h.Numbered) (id : SessionId) :
    (h.detach id).Indexed ∧ (h.detach id).Numbered := by
  refine ⟨⟨fun t j => ?_, noneEmpty_unfollows _ hi.noneEmpty id, hi.subscriptions, ?_⟩,
    fun j hin => hn.attached j (Dict.mem_keys_erase.mp hin).1, hn.unopened⟩
  · show Follows ((h.session id).subscriptions.foldl _ _) t j ↔ j ∈ (h.sessions.erase id).keys ∧ _
    rw [follows_unfollows, hi.followers, Dict.mem_keys_erase]
    constructor
    · intro ⟨⟨hin, hfollowed⟩, hnot⟩
      refine ⟨⟨hin, ?_⟩, hfollowed⟩
      rintro rfl
      exact hnot ⟨hfollowed, rfl⟩
    · intro ⟨⟨hin, hne⟩, hfollowed⟩
      exact ⟨⟨hin, hfollowed⟩, fun hboth => hne hboth.2⟩
  · refine le_trans ?_ hi.clients
    exact List.length_filter_le _ _

theorem indexed_resubscribe (hi : h.Indexed) (hn : h.Numbered) {id : SessionId}
    (hattached : id ∈ h.sessions.keys) {accepted : List Ticker}
    (hfew : accepted.length ≤ h.config.maxTickers) :
    (h.resubscribe id accepted).Indexed ∧ (h.resubscribe id accepted).Numbered := by
  have hsession : ∀ j, (h.resubscribe id accepted).session j =
      if j = id then (h.session id).replaceSubscriptions accepted else h.session j :=
    fun j => setSession_session _ _ _ _
  refine ⟨⟨fun t j => ?_, ?_, fun j => ?_, hi.clients⟩, hn.attached, fun j hle => ?_⟩
  · show Follows (accepted.foldl _ (List.foldl _ _ _)) t j ↔ j ∈ h.sessions.keys ∧ _
    rw [hsession, follows_follows, follows_unfollows, hi.followers, List.mem_filter,
      decide_eq_true_iff]
    by_cases hj : j = id
    · subst hj
      rw [if_pos rfl]
      show _ ↔ _ ∧ t ∈ accepted
      constructor
      · rintro (⟨⟨hin, hfollowed⟩, hnot⟩ | ⟨hin, -⟩)
        · refine ⟨hin, ?_⟩
          by_contra hout
          exact hnot ⟨⟨hfollowed, hout⟩, rfl⟩
        · exact ⟨hattached, hin⟩
      · intro ⟨_, hin⟩
        exact .inr ⟨hin, rfl⟩
    · rw [if_neg hj]
      constructor
      · rintro (⟨hboth, -⟩ | ⟨-, heq⟩)
        · exact hboth
        · exact absurd heq hj
      · intro hboth
        exact .inl ⟨hboth, fun hno => hj hno.2⟩
  · exact noneEmpty_follows _ (noneEmpty_unfollows _ hi.noneEmpty id) id
  · rw [hsession]
    split
    · exact hfew
    · exact hi.subscriptions j
  · have hne : j ≠ id := by
      rintro rfl
      exact not_lt.mpr hle (hn.attached j hattached)
    rw [hsession, if_neg hne]
    exact hn.unopened j hle

theorem indexed_subscribe (hi : h.Indexed) (hn : h.Numbered) {id : SessionId}
    (hattached : id ∈ h.sessions.keys) (tickers : List Ticker) (nowNs : Int) :
    (h.subscribe id tickers nowNs).Indexed ∧ (h.subscribe id tickers nowNs).Numbered := by
  obtain ⟨hi', hn'⟩ := indexed_resubscribe hi hn hattached (h.accepts_length tickers)
  exact ⟨hi'.of_same (sameIndex_offer _ _ _ _), hn'.of_same (sameIndex_offer _ _ _ _)⟩

theorem indexed_handle (hi : h.Indexed) (hn : h.Numbered) {id : SessionId}
    (hattached : id ∈ h.sessions.keys) (size : Nat) (nowNs : Int) (frame : ClientFrame) :
    (h.handle id size nowNs frame).Indexed ∧ (h.handle id size nowNs frame).Numbered := by
  have hcounted : SameIndex h (h.setSession id ((h.session id).withinLimits size nowNs).1) :=
    h.sameIndex_setSession (withinLimits_spec (h.session id) size nowNs).2.1
  rw [LiveHub.handle.eq_def]
  dsimp only
  split
  · exact ⟨hi.of_same hcounted, hn.of_same hcounted⟩
  · cases frame with
    | subscribe tickers =>
        exact indexed_subscribe (hi.of_same hcounted) (hn.of_same hcounted) hattached tickers nowNs
    | malformed text =>
        exact ⟨hi.of_same (hcounted.trans (sameIndex_offer _ _ _ _)),
          hn.of_same (hcounted.trans (sameIndex_offer _ _ _ _))⟩
    | invalid text =>
        exact ⟨hi.of_same (hcounted.trans (sameIndex_offer _ _ _ _)),
          hn.of_same (hcounted.trans (sameIndex_offer _ _ _ _))⟩
    | unknownOp opRepr =>
        exact ⟨hi.of_same (hcounted.trans (sameIndex_offer _ _ _ _)),
          hn.of_same (hcounted.trans (sameIndex_offer _ _ _ _))⟩

theorem indexed_step (hi : h.Indexed) (hn : h.Numbered) {act : HubAct} (ha : h.Attached act) :
    (h.step act).Indexed ∧ (h.step act).Numbered := by
  rw [LiveHub.step.eq_def]
  split
  · exact ⟨hi, hn⟩
  · cases act with
    | admitSession nowNs => exact indexed_admitSession hi hn nowNs
    | detach id => exact indexed_detach hi hn id
    | closeSessions code =>
        have hsame := h.sameIndex_closeSessions code
        exact ⟨hi.of_same hsame, hn.of_same hsame⟩
    | subscribe id tickers nowNs => exact indexed_subscribe hi hn ha tickers nowNs
    | handle id size nowNs frame => exact indexed_handle hi hn ha size nowNs frame
    | take id =>
        have hsame : SameIndex h (h.setSession id (h.session id).take) :=
          h.sameIndex_setSession rfl
        exact ⟨hi.of_same hsame, hn.of_same hsame⟩
    | lose id =>
        have hsame : SameIndex h (h.setSession id (h.session id).lose) :=
          h.sameIndex_setSession rfl
        exact ⟨hi.of_same hsame, hn.of_same hsame⟩
    | receive message nowNs =>
        have hsame := h.sameIndex_receive nowNs message
        exact ⟨hi.of_same hsame, hn.of_same hsame⟩

/-! ## Sessions that left -/

theorem mem_send {outbox : Outbox} {t : Ticker} {m : ServerMessage}
    (hin : id ∈ (h.send outbox t m).keys) : id ∈ outbox.keys ∨ Follows h.followers t id := by
  have hkeys : ∀ (keys : List SessionId) (outbox : Outbox),
      id ∈ (keys.foldl (fun outbox id => outbox.set id (outbox.getD id [] ++ [m])) outbox).keys →
        id ∈ outbox.keys ∨ id ∈ keys := by
    intro keys
    induction keys with
    | nil => exact fun _ hin => .inl hin
    | cons key keys ih =>
        intro outbox hin
        rcases ih _ hin with hset | hrest
        · rcases Dict.mem_keys_set.mp hset with rfl | hold
          · exact .inr List.mem_cons_self
          · exact .inl hold
        · exact .inr (List.mem_cons_of_mem _ hrest)
  exact hkeys _ outbox hin

theorem mem_announce {changes : List StatusChange} {outbox : Outbox} {snapshotted : List Ticker}
    (hin : id ∈ (h.announce changes outbox snapshotted).1.keys) :
    id ∈ outbox.keys ∨ ∃ t, Follows h.followers t id := by
  induction changes generalizing outbox snapshotted with
  | nil => exact .inl hin
  | cons change rest ih =>
      rw [announce] at hin
      split at hin
      · exact ih hin
      · dsimp only at hin
        split at hin
        · exact ih hin
        · rcases ih hin with hsent | hfollows
          · rcases mem_send hsent with hold | hfollows
            · exact .inl hold
            · exact .inr ⟨_, hfollows⟩
          · exact .inr hfollows

/-- Who is offered something follows a market. -/
theorem mem_outbox {observation : Observation} {event : BusEvent}
    (hin : id ∈ (h.outbox observation event).keys) : ∃ t, Follows h.followers t id := by
  rw [outbox] at hin
  rcases hannounced : h.announce observation.changes ∅ [] with ⟨announced, snapshotted⟩
  have hfirst : id ∈ announced.keys → ∃ t, Follows h.followers t id := by
    intro hin
    have hmem : id ∈ (h.announce observation.changes ∅ []).1.keys := by
      rw [hannounced]
      exact hin
    exact (mem_announce hmem).resolve_left fun hno => by cases hno
  rw [hannounced] at hin
  dsimp only at hin
  split at hin
  · exact hfirst hin
  · rcases mem_send hin with hold | hfollows
    · exact hfirst hold
    · exact ⟨_, hfollows⟩

/-- A session that is not attached, on which no call is made and which is not
now admitted, is left alone. -/
theorem step_session_eq (hi : h.Indexed) {act : HubAct} (ha : h.Attached act)
    (hout : id ∉ h.sessions.keys) (hcaller : act.caller ≠ some id)
    (hid : id < h.opened ∨ (h.step act).opened ≤ id) : (h.step act).session id = h.session id := by
  rw [LiveHub.step.eq_def] at hid ⊢
  by_cases hguard : act.caller.any (· ≥ h.opened) = true
  · rw [if_pos hguard]
  · rw [if_neg hguard] at hid ⊢
    cases act with
    | admitSession nowNs =>
        show (h.admitSession nowNs).session id = _
        have hne : h.sessions.size < h.config.maxClients → id ≠ h.opened := by
          rintro hroom rfl
          rcases hid with hlt | hle
          · exact lt_irrefl _ hlt
          · dsimp only at hle
            rw [admitSession, if_neg (not_le.mpr hroom)] at hle
            exact Nat.not_succ_le_self _ hle
        rw [admitSession]
        split
        · rfl
        · next hroom =>
            dsimp only
            rw [offer_session, if_neg (hne (not_le.mp hroom))]
    | detach j => rfl
    | closeSessions code =>
        obtain ⟨-, -, -, -, -, hsession⟩ := h.closeSessions_spec code
        show (h.closeSessions code).session id = _
        rw [hsession, if_neg hout]
    | subscribe j tickers nowNs =>
        have hne : id ≠ j := fun heq => hcaller (congrArg some heq.symm)
        show (h.subscribe j tickers nowNs).session id = _
        rw [LiveHub.subscribe, offer_session, if_neg hne, resubscribe, setSession_session,
          if_neg hne]
    | handle j size nowNs frame =>
        have hne : id ≠ j := fun heq => hcaller (congrArg some heq.symm)
        show (h.handle j size nowNs frame).session id = _
        rw [LiveHub.handle.eq_def]
        dsimp only
        split
        · rw [setSession_session, if_neg hne]
        · split
          · rw [LiveHub.subscribe, offer_session, if_neg hne, resubscribe, setSession_session,
              if_neg hne]
            exact (setSession_session _ _ _ _).trans (if_neg hne)
          · rw [offer_session, if_neg hne, setSession_session, if_neg hne]
    | take j =>
        have hne : id ≠ j := fun heq => hcaller (congrArg some heq.symm)
        exact (setSession_session _ _ _ _).trans (if_neg hne)
    | lose j =>
        have hne : id ≠ j := fun heq => hcaller (congrArg some heq.symm)
        exact (setSession_session _ _ _ _).trans (if_neg hne)
    | receive message nowNs =>
        cases message with
        | none => rfl
        | some envelope =>
            have hspec := (h.observed envelope).offerAll_spec nowNs
              ((h.observed envelope).outbox (h.live.observe envelope).2 envelope.event)
            have hfollowers : (h.observed envelope).followers = h.followers :=
              updateDirectory_followers _ _
            have hsession : (h.observed envelope).session = h.session :=
              updateDirectory_session _ _
            have hnone : ((h.observed envelope).outbox (h.live.observe envelope).2
                envelope.event).get? id = none := by
              rw [Dict.get?_eq_none_iff]
              intro hin
              obtain ⟨t, hfollows⟩ := mem_outbox hin
              rw [hfollowers, hi.followers] at hfollows
              exact hout hfollows.1
            have hoffered := hspec.session id
            rw [hnone, hsession] at hoffered
            exact hoffered

theorem offersLeftNothing_step (hi : h.Indexed) {act : HubAct} (ha : h.Attached act) :
    h.OffersLeftNothing act := by
  intro id hid hleft
  by_cases hcaller : act.caller = some id
  · have hguard : ¬ act.caller.any (· ≥ h.opened) = true := by
      rw [hcaller]
      simpa using hid
    rw [LiveHub.step.eq_def, if_neg hguard]
    cases act with
    | detach j => exact List.mem_cons_self
    | subscribe j tickers nowNs => exact absurd (Option.some.inj hcaller ▸ ha) hleft
    | handle j size nowNs frame => exact absurd (Option.some.inj hcaller ▸ ha) hleft
    | take j =>
        obtain rfl : j = id := Option.some.inj hcaller
        show (h.setSession j (h.session j).take).session j ∈ _
        rw [setSession_session, if_pos rfl]
        exact List.mem_cons_of_mem _ List.mem_cons_self
    | lose j =>
        obtain rfl : j = id := Option.some.inj hcaller
        show (h.setSession j (h.session j).lose).session j ∈ _
        rw [setSession_session, if_pos rfl]
        exact List.mem_cons_of_mem _ (List.mem_cons_of_mem _ List.mem_cons_self)
    | _ => cases hcaller
  · rw [step_session_eq hi ha hleft hcaller (.inl hid)]
    exact List.mem_cons_self

/-- In every run in which only attached sessions subscribe, the index agrees
with the sessions in every state, and no session that left is offered
anything. -/
theorem followers_indexed (config : ServeConfig) (acts : List HubAct)
    (ha : Run.Along step Attached (new config) acts) :
    Run.Throughout step Indexed (new config) acts ∧
      Run.Along step OffersLeftNothing (new config) acts := by
  have hstep : ∀ h act, h.Indexed ∧ h.Numbered → Attached h act →
      (h.step act).Indexed ∧ (h.step act).Numbered :=
    fun _ _ hboth ha => indexed_step hboth.1 hboth.2 ha
  have hnew : (new config).Indexed ∧ (new config).Numbered :=
    ⟨indexed_new config, numbered_new config⟩
  constructor
  · exact (Run.throughout_of_step hstep hnew ha).mono fun _ hboth => hboth.1
  · exact Run.along_of_step hstep (fun _ _ hboth ha => offersLeftNothing_step hboth.1 ha) hnew ha

/-- Two sessions on one market, of which the first leaves. -/
theorem followers_indexed_left :
    let config : ServeConfig := ⟨2, 1, 100, 5⟩
    let acts : List HubAct := [.receive (some ⟨1, 1, .catalog ⟨[⟨"M"⟩]⟩⟩) fun _ => 0,
      .admitSession 0, .admitSession 0, .subscribe 0 ["M", "N"] 0,
        .handle 1 40 0 (.subscribe ["M"]), .detach 0]
    Run.Throughout step Indexed (new config) acts ∧
      Run.Along step OffersLeftNothing (new config) acts := by
  intro config acts
  refine followers_indexed config acts ⟨trivial, trivial, trivial, ?_, ?_, trivial, trivial⟩
  · show 0 ∈ Dict.keys _
    decide
  · show 1 ∈ Dict.keys _
    decide

/-- A session that subscribes after it was detached is a follower again. -/
theorem detached_subscribes :
    ¬ Run.Throughout step Indexed (new ⟨1, 1, 100, 5⟩)
      [.receive (some ⟨1, 1, .catalog ⟨[⟨"M"⟩]⟩⟩) fun _ => 0, .admitSession 0, .detach 0,
        .subscribe 0 ["M"] 0] := by
  intro hrun
  have hfollows : Follows (Run.final step (new ⟨1, 1, 100, 5⟩)
      [.receive (some ⟨1, 1, .catalog ⟨[⟨"M"⟩]⟩⟩) fun _ => 0, .admitSession 0, .detach 0,
        .subscribe 0 ["M"] 0]).followers "M" 0 := by
    show 0 ∈ Dict.keys _
    decide
  exact absurd ((hrun.last.followers "M" 0).mp hfollows).1 (by decide)

end LiveHub

end Tape.Api
