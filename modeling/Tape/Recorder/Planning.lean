import Mathlib
import Tape.Wire.Numerals
import Tape.Recorder.PlanDiff

/-!
# Assigning markets to connections

`tape.recorder.planner.plan`: what a running plan may keep stays where it is,
and the other markets go one by one to the connection with the fewest.

`Placed` says that the members by connection are a plan within the limits, and
`Room` that the heap holds the load of every connection below the cap. Each
market that is dealt keeps both. When the dealing ends, either every wanted
market has a connection or every connection is full, and that determines how
many markets the plan holds.
-/

namespace Tape

/-! ## The planner -/

/-- How many digits a group's id has. -/
def groupIdDigits : Nat := 4

/-- `_group_id`. A minus takes a place. -/
def groupIdOf (connId : Int) : String :=
  String.ofList ('g' ::
    if connId < 0 then '-' :: Fixedpoint.zeroPadded connId.natAbs (groupIdDigits - 1)
    else Fixedpoint.zeroPadded connId.natAbs groupIdDigits)

/-- Members by connection. -/
abbrev Members := Dict Int (List Ticker)

/-- `_carry_over`. -/
def carryOver (previous : Plan) (desired : Finset Ticker) (cap : Nat) (maxConnections : Int) :
    Members :=
  previous.groups.foldl (fun members group =>
    if group.connId ≥ maxConnections then members
    else
      let kept := (sortedTickers (group.tickers.filter (· ∈ desired))).take cap
      if kept = [] then members else members.set group.connId kept) ∅

/-- The markets of a connection. -/
def Members.on (members : Members) (connId : Int) : List Ticker := members.getD connId []

/-- The loads of the connections below the cap, the least loaded first. -/
def roomOf (members : Members) (cap maxConnections : Nat) : List (Nat × Int) :=
  Sorted.sortOn (fun e => toLex e)
    (((List.range maxConnections).map fun c : Nat => ((members.on c).length, (c : Int))).filter
      fun e => e.1 < cap)

/-- `heappush`, on a heap kept in order. -/
def heapPush (room : List (Nat × Int)) (e : Nat × Int) : List (Nat × Int) :=
  room.orderedInsert (fun e e' => toLex e ≤ toLex e') e

/-- The loop of `_fill`. -/
def fill (cap : Nat) : Members → List (Nat × Int) → List Ticker → Members
  | members, _, [] => members
  | members, [], _ :: _ => members
  | members, (load, connId) :: room, ticker :: unplaced =>
      fill cap (members.set connId (members.on connId ++ [ticker]))
        (if load + 1 < cap then heapPush room (load + 1, connId) else room) unplaced

/-- The groups of the members, in the order of their connections. -/
def Plan.ofMembers (members : Members) : Plan :=
  ⟨(Sorted.sortOn Prod.fst members.entries).map fun e =>
    ⟨groupIdOf e.1, e.1, e.2.toFinset⟩⟩

/-- The two `ValueError`s of `plan`. -/
inductive LimitError where
  | maxPerGroup (got : Int)
  | maxConnections (got : Int)
  deriving DecidableEq

/-- The text of the error. -/
def LimitError.text : LimitError → String
  | .maxPerGroup got => "max_per_group must be at least 1, got " ++ toString got
  | .maxConnections got => "max_connections must be at least 1, got " ++ toString got

/-- The markets of all groups. -/
def Members.tickers (members : Members) : Finset Ticker := members.values.flatten.toFinset

/-- The markets are put into groups, each where it was before if it fits. -/
def plan (tickers : List Ticker) (maxPerGroup maxConnections : Int) (previous : Option Plan) :
    Except LimitError Plan :=
  if maxPerGroup < 1 then .error (.maxPerGroup maxPerGroup)
  else if maxConnections < 1 then .error (.maxConnections maxConnections)
  else
    let desired := tickers.toFinset
    let members :=
      previous.elim ∅ fun p => carryOver p desired maxPerGroup.toNat maxConnections
    .ok (.ofMembers (fill maxPerGroup.toNat members
      (roomOf members maxPerGroup.toNat maxConnections.toNat)
      (sortedTickers (desired \ members.tickers))))

/-- How many markets a plan has on a connection. -/
def Plan.load (p : Plan) (connId : Int) : Nat :=
  (p.groups.find? fun g => g.connId = connId).elim 0 fun g => g.tickers.card

/-- Every market of a plan. -/
def Plan.tickers (p : Plan) : Finset Ticker := p.groups.foldr (fun g s => g.tickers ∪ s) ∅

/-! ## Members within the limits -/

/-- The members by connection, as a plan of some of the wanted markets. -/
structure Placed (wanted : Finset Ticker) (cap conns : Nat) (members : Members) : Prop where
  nonempty : ∀ c l, members.get? c = some l → l ≠ []
  conns : ∀ c, members.on c ≠ [] → 0 ≤ c ∧ c < conns
  sizes : ∀ c, (members.on c).length ≤ cap
  once : ∀ c, (members.on c).Nodup
  wanted : ∀ c, ∀ t ∈ members.on c, t ∈ wanted
  owners : ∀ c c' t, t ∈ members.on c → t ∈ members.on c' → c = c'

/-- The heap holds the loads of the connections that have room. -/
structure Room (cap conns : Nat) (members : Members) (room : List (Nat × Int)) : Prop where
  sorted : room.Pairwise fun e e' => toLex e ≤ toLex e'
  once : (room.map Prod.snd).Nodup
  mem : ∀ load c, (load, c) ∈ room ↔
    (0 ≤ c ∧ c < conns) ∧ load = (members.on c).length ∧ load < cap

theorem Members.on_of_get? {members : Members} {c : Int} {l : List Ticker}
    (h : members.get? c = some l) : members.on c = l := by
  rw [Members.on, Dict.getD, h, Option.getD_some]

theorem Members.get?_of_on {members : Members} {c : Int} (h : members.on c ≠ []) :
    members.get? c = some (members.on c) := by
  rw [Members.on, Dict.getD] at h ⊢
  cases hc : members.get? c with
  | none => exact absurd (by rw [hc]; rfl) h
  | some l => rfl

theorem Members.on_set (members : Members) (c c' : Int) (l : List Ticker) :
    Members.on (members.set c l) c' = if c = c' then l else members.on c' := by
  rw [Members.on, Dict.getD, Dict.get?_set]
  split
  · rfl
  · rfl

theorem Members.mem_tickers {members : Members} {t : Ticker} :
    t ∈ members.tickers ↔ ∃ c, t ∈ members.on c := by
  rw [Members.tickers, List.mem_toFinset, List.mem_flatten]
  constructor
  · rintro ⟨l, hl, ht⟩
    obtain ⟨⟨c, l'⟩, hmem, rfl⟩ := List.mem_map.mp hl
    exact ⟨c, by rwa [Members.on_of_get? (Dict.get?_eq_some_iff.mpr hmem)]⟩
  · rintro ⟨c, ht⟩
    have hget := Members.get?_of_on (List.ne_nil_of_mem ht)
    exact ⟨_, List.mem_map.mpr ⟨_, Dict.get?_eq_some_iff.mp hget, rfl⟩, ht⟩

theorem placed_empty (wanted : Finset Ticker) (cap conns : Nat) : Placed wanted cap conns ∅ where
  nonempty := nofun
  conns := fun _ h => absurd rfl h
  sizes := fun _ => Nat.zero_le cap
  once := fun _ => List.nodup_nil
  wanted := nofun
  owners := nofun

theorem room_roomOf (members : Members) (cap conns : Nat) :
    Room cap conns members (roomOf members cap conns) where
  sorted := Sorted.sortOn_pairwise (fun e => toLex e) _
  once := by
    rw [roomOf, ((Sorted.sortOn_perm _ _).map Prod.snd).nodup_iff]
    refine List.Nodup.sublist (List.filter_sublist.map Prod.snd) ?_
    rw [List.map_map]
    exact (List.nodup_range).map Nat.cast_injective
  mem := by
    intro load c
    rw [roomOf, (Sorted.sortOn_perm _ _).mem_iff, List.mem_filter, List.mem_map]
    simp only [List.mem_range, Prod.mk.injEq, decide_eq_true_eq]
    constructor
    · rintro ⟨⟨n, hn, rfl, rfl⟩, hlt⟩
      exact ⟨by omega, rfl, hlt⟩
    · rintro ⟨hc, rfl, hlt⟩
      have hcast : ((c.toNat : Nat) : Int) = c := Int.toNat_of_nonneg hc.1
      exact ⟨⟨c.toNat, by omega, by rw [hcast], hcast⟩, hlt⟩

/-! ## Dealing -/

section

variable {wanted : Finset Ticker} {cap conns : Nat} {members : Members} {room : List (Nat × Int)}
  {load : Nat} {c : Int} {ticker : Ticker} {unplaced : List Ticker}

/-- Every connection that exists is full. -/
def Full (cap conns : Nat) (members : Members) : Prop :=
  ∀ c : Int, 0 ≤ c → c < conns → (members.on c).length = cap

/-- No connection has two markets more than another. -/
def Balanced (conns : Nat) (members : Members) : Prop :=
  ∀ c c' : Int, 0 ≤ c → c < conns → 0 ≤ c' → c' < conns →
    (members.on c).length ≤ (members.on c').length + 1

/-- One market that has no connection yet joins the least loaded one. -/
theorem Placed.deal (hp : Placed wanted cap conns members)
    (hr : Room cap conns members ((load, c) :: room)) (hwanted : ticker ∈ wanted)
    (hnew : ∀ c', ticker ∉ members.on c') :
    Placed wanted cap conns (members.set c (members.on c ++ [ticker])) := by
  obtain ⟨hconn, hload, hlt⟩ := (hr.mem load c).mp List.mem_cons_self
  have hon := Members.on_set members c
  constructor
  · intro c' l hl
    rw [Dict.get?_set] at hl
    split at hl
    · obtain rfl := Option.some.inj hl
      simp
    · exact hp.nonempty c' l hl
  · intro c' h
    rw [hon] at h
    split at h
    · next heq => exact heq ▸ hconn
    · exact hp.conns c' h
  · intro c'
    rw [hon]
    split
    · rw [List.length_append, List.length_singleton, ← hload]
      exact hlt
    · exact hp.sizes c'
  · intro c'
    rw [hon]
    split
    · refine List.nodup_append.mpr ⟨hp.once c, List.nodup_singleton _, fun t ht t' ht' heq => ?_⟩
      exact hnew c (List.mem_singleton.mp ht' ▸ heq ▸ ht)
    · exact hp.once c'
  · intro c' t ht
    rw [hon] at ht
    split at ht
    · rcases List.mem_append.mp ht with ht | ht
      · exact hp.wanted c t ht
      · exact List.mem_singleton.mp ht ▸ hwanted
    · exact hp.wanted c' t ht
  · intro c₁ c₂ t h₁ h₂
    have hwho : ∀ c', t ∈ Members.on (members.set c (members.on c ++ [ticker])) c' →
        t ∈ members.on c' ∨ t = ticker ∧ c' = c := by
      intro c' h
      rw [hon] at h
      split at h
      · next heq =>
          rcases List.mem_append.mp h with h | h
          · exact .inl (heq ▸ h)
          · exact .inr ⟨List.mem_singleton.mp h, heq.symm⟩
      · exact .inl h
    rcases hwho c₁ h₁ with hold₁ | ⟨ht₁, hc₁⟩ <;> rcases hwho c₂ h₂ with hold₂ | ⟨ht₂, hc₂⟩
    · exact hp.owners c₁ c₂ t hold₁ hold₂
    · exact absurd (ht₂ ▸ hold₁) (hnew c₁)
    · exact absurd (ht₁ ▸ hold₂) (hnew c₂)
    · exact hc₁.trans hc₂.symm

/-- The heap follows. -/
theorem Room.deal (hr : Room cap conns members ((load, c) :: room)) :
    Room cap conns (members.set c (members.on c ++ [ticker]))
      (if load + 1 < cap then heapPush room (load + 1, c) else room) := by
  obtain ⟨hconn, hload, hlt⟩ := (hr.mem load c).mp List.mem_cons_self
  have honce := hr.once
  rw [List.map_cons, List.nodup_cons] at honce
  have hrest : ∀ load' c', (load', c') ∈ room ↔
      c' ≠ c ∧ (0 ≤ c' ∧ c' < conns) ∧ load' = (members.on c').length ∧ load' < cap := by
    intro load' c'
    rw [← hr.mem, List.mem_cons, Prod.mk.injEq]
    constructor
    · intro h
      exact ⟨fun heq => honce.1 (List.mem_map.mpr ⟨_, h, heq⟩), .inr h⟩
    · rintro ⟨hne, ⟨-, heq⟩ | h⟩
      · exact absurd heq hne
      · exact h
  have hpushed : ∀ e, e ∈ (if load + 1 < cap then heapPush room (load + 1, c) else room) ↔
      e ∈ room ∨ e = (load + 1, c) ∧ load + 1 < cap := by
    intro e
    split
    · next h => rw [heapPush, List.mem_orderedInsert, or_comm, and_iff_left h]
    · next h => simp [h]
  constructor
  · split
    · have : Std.Total fun e e' : Nat × Int => toLex e ≤ toLex e' := ⟨fun e e' => le_total _ _⟩
      have : IsTrans (Nat × Int) fun e e' => toLex e ≤ toLex e' := ⟨fun _ _ _ h h' => le_trans h h'⟩
      exact hr.sorted.of_cons.orderedInsert _ _
    · exact hr.sorted.of_cons
  · split
    · have hperm : (heapPush room (load + 1, c)).Perm ((load + 1, c) :: room) :=
        List.perm_orderedInsert _ _ _
      rw [(hperm.map Prod.snd).nodup_iff, List.map_cons, List.nodup_cons]
      exact honce
    · exact honce.2
  · intro load' c'
    rw [hpushed, hrest, Members.on_set, Prod.mk.injEq]
    by_cases hc : c = c'
    · subst hc
      rw [if_pos rfl, List.length_append, List.length_singleton, ← hload]
      constructor
      · rintro (⟨hne, -⟩ | ⟨⟨rfl, -⟩, h⟩)
        · exact absurd rfl hne
        · exact ⟨hconn, rfl, h⟩
      · rintro ⟨-, rfl, h⟩
        exact .inr ⟨⟨rfl, rfl⟩, h⟩
    · rw [if_neg hc]
      constructor
      · rintro (⟨-, h⟩ | ⟨⟨-, heq⟩, -⟩)
        · exact h
        · exact absurd heq.symm hc
      · exact fun h => .inl ⟨Ne.symm hc, h⟩

/-- The least loaded connection is the least loaded of all. -/
theorem Room.least
    (hr : Room cap conns members ((load, c) :: room)) {c' : Int} (h0 : 0 ≤ c') (h1 : c' < conns) :
    load ≤ (members.on c').length := by
  obtain ⟨-, -, hlt⟩ := (hr.mem load c).mp List.mem_cons_self
  by_cases hfull : (members.on c').length < cap
  · have hmem := (hr.mem _ c').mpr ⟨⟨h0, h1⟩, rfl, hfull⟩
    rcases List.mem_cons.mp hmem with heq | hmem
    · exact le_of_eq (congrArg Prod.fst heq).symm
    · have hle : toLex (load, c) ≤ toLex ((members.on c').length, c') :=
        (List.pairwise_cons.mp hr.sorted).1 _ hmem
      rcases Prod.Lex.toLex_le_toLex.mp hle with h | h
      · exact h.le
      · exact h.1.le
  · omega

theorem Balanced.deal (hb : Balanced conns members)
    (hr : Room cap conns members ((load, c) :: room)) :
    Balanced conns (members.set c (members.on c ++ [ticker])) := by
  obtain ⟨hconn, hload, -⟩ := (hr.mem load c).mp List.mem_cons_self
  intro c₁ c₂ h₁ h₁' h₂ h₂'
  have hbound := hb c₁ c₂ h₁ h₁' h₂ h₂'
  have hleast := hr.least h₂ h₂'
  rw [Members.on_set, Members.on_set]
  by_cases hc₁ : c = c₁ <;> by_cases hc₂ : c = c₂
  · rw [if_pos hc₁, if_pos hc₂]
    omega
  · rw [if_pos hc₁, if_neg hc₂, List.length_append, List.length_singleton, ← hload]
    omega
  · rw [if_neg hc₁, if_pos hc₂, List.length_append, List.length_singleton]
    subst hc₂
    omega
  · rw [if_neg hc₁, if_neg hc₂]
    exact hbound

/-- What the dealing comes to. -/
structure Dealt (wanted : Finset Ticker) (cap conns : Nat) (members : Members)
    (unplaced : List Ticker) (members' : Members) : Prop where
  placed : Placed wanted cap conns members'
  stays : ∀ c, members.on c ⊆ members'.on c
  all : (∀ t ∈ unplaced, ∃ c, t ∈ members'.on c) ∨ Full cap conns members'
  balanced : Balanced conns members → Balanced conns members'

theorem fill_dealt (hp : Placed wanted cap conns members) (hr : Room cap conns members room)
    (honce : unplaced.Nodup) (hwanted : ∀ t ∈ unplaced, t ∈ wanted)
    (hnew : ∀ t ∈ unplaced, ∀ c, t ∉ members.on c) :
    Dealt wanted cap conns members unplaced (fill cap members room unplaced) := by
  induction unplaced generalizing members room with
  | nil => exact ⟨hp, fun c => List.Subset.refl _, .inl nofun, id⟩
  | cons ticker unplaced ih =>
      cases room with
      | nil =>
          refine ⟨hp, fun c => List.Subset.refl _, .inr fun c h0 h1 => ?_, id⟩
          have hsize := hp.sizes c
          by_contra hne
          have hne' : (members.on c).length ≠ cap := hne
          cases (hr.mem _ c).mpr ⟨⟨h0, h1⟩, rfl, by omega⟩
      | cons e room =>
          obtain ⟨load, c⟩ := e
          rw [List.nodup_cons] at honce
          have hon := Members.on_set members c
          have hd := ih (hp.deal hr (hwanted _ List.mem_cons_self) (hnew _ List.mem_cons_self))
            hr.deal honce.2
            (fun t ht => hwanted t (List.mem_cons_of_mem _ ht)) (fun t ht c' h => by
              rw [hon] at h
              split at h
              · rcases List.mem_append.mp h with h | h
                · exact hnew t (List.mem_cons_of_mem _ ht) c h
                · exact honce.1 (List.mem_singleton.mp h ▸ ht)
              · exact hnew t (List.mem_cons_of_mem _ ht) c' h)
          have hgrows : ∀ c', members.on c' ⊆
              Members.on (members.set c (members.on c ++ [ticker])) c' := by
            intro c' t ht
            rw [hon]
            split
            · next heq => exact List.mem_append_left _ (heq ▸ ht)
            · exact ht
          refine ⟨hd.placed, fun c' t ht => hd.stays c' (hgrows c' ht), ?_,
            fun hb => hd.balanced (hb.deal hr)⟩
          refine hd.all.imp_left fun hall t ht => ?_
          rcases List.mem_cons.mp ht with rfl | ht
          · refine ⟨c, hd.stays c ?_⟩
            rw [hon, if_pos rfl]
            exact List.mem_append_right _ (List.mem_singleton_self _)
          · exact hall t ht

/-- A second dealing with nothing to deal, or with no room. -/
theorem fill_idle (h : unplaced = [] ∨ room = []) : fill cap members room unplaced = members := by
  rcases h with rfl | rfl
  · cases room <;> rfl
  · cases unplaced <;> rfl

/-! ## Members that make a plan -/

theorem groupIdOf_injective {c c' : Int} (h : 0 ≤ c) (h' : 0 ≤ c')
    (heq : groupIdOf c = groupIdOf c') : c = c' := by
  rw [groupIdOf, groupIdOf, if_neg (not_lt.mpr h), if_neg (not_lt.mpr h'),
    String.ofList_inj, List.cons.injEq] at heq
  have habs := FixedUnit.zeroPadded_injective heq.2
  omega

/-- The members of a connection are those of its group. -/
theorem Placed.mem_groups (hp : Placed wanted cap conns members) {g : Group} :
    g ∈ (Plan.ofMembers members).groups ↔
      members.on g.connId ≠ [] ∧
        g = ⟨groupIdOf g.connId, g.connId, (members.on g.connId).toFinset⟩ := by
  rw [Plan.ofMembers, List.mem_map]
  constructor
  · rintro ⟨⟨c, l⟩, hmem, rfl⟩
    have hget := Dict.get?_eq_some_iff.mpr ((Sorted.sortOn_perm _ _).mem_iff.mp hmem)
    have hon := Members.on_of_get? hget
    exact ⟨by rw [hon]; exact hp.nonempty c l hget, by rw [hon]⟩
  · rintro ⟨hne, heq⟩
    have hget := Dict.get?_eq_some_iff.mp (Members.get?_of_on hne)
    exact ⟨_, (Sorted.sortOn_perm _ _).mem_iff.mpr hget, heq.symm⟩

theorem Placed.group_mem (hp : Placed wanted cap conns members) (hne : members.on c ≠ []) :
    (⟨groupIdOf c, c, (members.on c).toFinset⟩ : Group) ∈ (Plan.ofMembers members).groups :=
  hp.mem_groups.mpr ⟨hne, rfl⟩

theorem Placed.valid (hp : Placed wanted cap conns members) : (Plan.ofMembers members).Valid := by
  have hkeys : ((Plan.ofMembers members).groups.map Group.connId).Nodup := by
    rw [Plan.ofMembers, List.map_map]
    exact ((Sorted.sortOn_perm Prod.fst members.entries).map Prod.fst).nodup_iff.mpr members.nodup
  have hstrict : (Plan.ofMembers members).groups.Pairwise fun g h => g.connId ≠ h.connId := by
    rwa [List.nodup_iff_pairwise_ne, List.pairwise_map] at hkeys
  have hsorted : (Plan.ofMembers members).groups.Pairwise fun g h => g.connId ≤ h.connId := by
    rw [Plan.ofMembers, List.pairwise_map]
    exact Sorted.sortOn_pairwise Prod.fst members.entries
  have hmem : ∀ g ∈ (Plan.ofMembers members).groups, members.on g.connId ≠ [] ∧
      g = ⟨groupIdOf g.connId, g.connId, (members.on g.connId).toFinset⟩ :=
    fun g hg => hp.mem_groups.mp hg
  constructor
  · intro g hg
    obtain ⟨hne, heq⟩ := hmem g hg
    refine ⟨?_, (hp.conns _ hne).1⟩
    rw [heq]
    exact fun h => hne ((List.toFinset_eq_empty_iff _).mp h)
  · exact (hsorted.and hstrict).imp fun h => lt_of_le_of_ne h.1 h.2
  · rw [List.nodup_iff_pairwise_ne, List.pairwise_map]
    refine hstrict.imp_of_mem fun {g h} hg hh hne heq => hne ?_
    obtain ⟨hg1, hg2⟩ := hmem g hg
    obtain ⟨hh1, hh2⟩ := hmem h hh
    rw [hg2, hh2] at heq
    exact groupIdOf_injective (hp.conns _ hg1).1 (hp.conns _ hh1).1 heq
  · refine hstrict.imp_of_mem fun {g h} hg hh hne => ?_
    obtain ⟨-, hg2⟩ := hmem g hg
    obtain ⟨-, hh2⟩ := hmem h hh
    rw [hg2, hh2, Finset.disjoint_left]
    intro t ht ht'
    exact hne (hp.owners _ _ t (List.mem_toFinset.mp ht) (List.mem_toFinset.mp ht'))

theorem Placed.load_eq (hp : Placed wanted cap conns members) (c : Int) :
    (Plan.ofMembers members).load c = (members.on c).length := by
  rw [Plan.load]
  cases hfind : (Plan.ofMembers members).groups.find? fun g => g.connId = c with
  | none =>
      rw [List.find?_eq_none] at hfind
      by_contra hne
      have hon : members.on c ≠ [] := by
        intro hnil
        rw [hnil] at hne
        exact hne rfl
      exact hfind _ (hp.group_mem hon) (by simp)
  | some g =>
      obtain ⟨-, heq⟩ := hp.mem_groups.mp (List.mem_of_find?_eq_some hfind)
      have hc : g.connId = c := by simpa using List.find?_some hfind
      rw [Option.elim_some, heq, hc, List.toFinset_card_of_nodup (hp.once c)]

theorem mem_planTickers {p : Plan} {t : Ticker} :
    t ∈ p.tickers ↔ ∃ g ∈ p.groups, t ∈ g.tickers := by
  rw [Plan.tickers]
  induction p.groups with
  | nil => simp
  | cons g l ih => simp [ih]

theorem Placed.tickers_eq (hp : Placed wanted cap conns members) :
    (Plan.ofMembers members).tickers =
      (Finset.range conns).biUnion fun c => (members.on (c : Int)).toFinset := by
  ext t
  rw [mem_planTickers, Finset.mem_biUnion]
  constructor
  · rintro ⟨g, hg, ht⟩
    obtain ⟨hne, heq⟩ := hp.mem_groups.mp hg
    obtain ⟨h0, h1⟩ := hp.conns _ hne
    rw [heq] at ht
    have hcast : ((g.connId.toNat : Nat) : Int) = g.connId := Int.toNat_of_nonneg h0
    exact ⟨g.connId.toNat, Finset.mem_range.mpr (by omega), by rwa [hcast]⟩
  · rintro ⟨c, -, ht⟩
    have hne := List.ne_nil_of_mem (List.mem_toFinset.mp ht)
    exact ⟨_, hp.group_mem hne, ht⟩

/-- A plan holds what there is room for, and not more than is wanted. -/
theorem Placed.card (hp : Placed wanted cap conns members)
    (hall : (∀ t ∈ wanted, ∃ c, t ∈ members.on c) ∨ Full cap conns members) :
    (Plan.ofMembers members).tickers.card = min wanted.card (cap * conns) := by
  have hsub : (Plan.ofMembers members).tickers ⊆ wanted := by
    intro t ht
    rw [hp.tickers_eq, Finset.mem_biUnion] at ht
    obtain ⟨c, -, ht⟩ := ht
    exact hp.wanted c t (List.mem_toFinset.mp ht)
  have hcards : ∀ c : Nat, (members.on (c : Int)).toFinset.card = (members.on (c : Int)).length :=
    fun c => List.toFinset_card_of_nodup (hp.once c)
  have hle : (Plan.ofMembers members).tickers.card ≤ conns * cap := by
    rw [hp.tickers_eq]
    refine (Finset.card_biUnion_le_card_mul _ _ cap fun c _ => ?_).trans ?_
    · rw [hcards]
      exact hp.sizes c
    · rw [Finset.card_range]
  rw [Nat.mul_comm]
  refine le_antisymm (le_min (Finset.card_le_card hsub) hle) ?_
  rcases hall with hall | hfull
  · refine min_le_of_left_le (Finset.card_le_card fun t ht => ?_)
    obtain ⟨c, hc⟩ := hall t ht
    obtain ⟨h0, h1⟩ := hp.conns c (List.ne_nil_of_mem hc)
    rw [hp.tickers_eq, Finset.mem_biUnion]
    have hcast : ((c.toNat : Nat) : Int) = c := Int.toNat_of_nonneg h0
    exact ⟨c.toNat, Finset.mem_range.mpr (by omega), by rw [hcast]; exact List.mem_toFinset.mpr hc⟩
  · refine min_le_of_right_le (le_of_eq ?_)
    rw [hp.tickers_eq, Finset.card_biUnion]
    · rw [Finset.sum_congr rfl fun c hc => (hcards c).trans
        (hfull c (by omega) (by exact_mod_cast Finset.mem_range.mp hc))]
      rw [Finset.sum_const, Finset.card_range, Nat.nsmul_eq_mul]
    · intro c _ c' _ hne
      rw [Function.onFun, Finset.disjoint_left]
      intro t ht ht'
      have howner := hp.owners c c' t (List.mem_toFinset.mp ht) (List.mem_toFinset.mp ht')
      exact hne (by exact_mod_cast howner)

/-! ## Carrying over -/

/-- What a group of the running plan keeps. -/
def keptOf (g : Group) (wanted : Finset Ticker) (cap : Nat) : List Ticker :=
  (sortedTickers (g.tickers.filter (· ∈ wanted))).take cap

theorem carryOver_get {previous : Plan} (hv : previous.Valid) {c : Int} {l : List Ticker} :
    (carryOver previous wanted cap conns).get? c = some l ↔
      ∃ g ∈ previous.groups, g.connId = c ∧ c < conns ∧ l = keptOf g wanted cap ∧ l ≠ [] := by
  have hkeys : (previous.groups.map Group.connId).Nodup := by
    rw [List.nodup_iff_pairwise_ne, List.pairwise_map]
    exact hv.sorted.imp ne_of_lt
  let value : Group → Option (List Ticker) := fun g =>
    if g.connId ≥ (conns : Int) then none
    else if keptOf g wanted cap = [] then none else some (keptOf g wanted cap)
  have hstep : ∀ (d : Members) (g : Group),
      (if g.connId ≥ (conns : Int) then d
        else if keptOf g wanted cap = [] then d else d.set g.connId (keptOf g wanted cap)) =
      (value g).elim d (d.set g.connId) := by
    intro d g
    simp only [value]
    split
    · rfl
    · split
      · rfl
      · rfl
  refine (Dict.get?_foldl_set hstep hkeys fun _ _ => Dict.get?_empty _).trans ?_
  rw [Dict.get?_empty]
  have hvalue : ∀ g : Group, value g = some l ↔
      g.connId < conns ∧ l = keptOf g wanted cap ∧ l ≠ [] := by
    intro g
    simp only [value]
    split
    · next h => exact iff_of_false nofun fun h' => absurd h'.1 (not_lt.mpr h)
    · next h =>
        split
        · next hnil => exact iff_of_false nofun fun h' => h'.2.2 (h'.2.1.trans hnil)
        · next hne =>
            rw [Option.some.injEq]
            constructor
            · rintro rfl
              exact ⟨not_le.mp h, rfl, hne⟩
            · exact fun h' => h'.2.1.symm
  constructor
  · rintro (hnone | ⟨g, hg, rfl, hval⟩)
    · cases hnone
    · exact ⟨g, hg, rfl, (hvalue g).mp hval⟩
  · rintro ⟨g, hg, rfl, hval⟩
    exact .inr ⟨g, hg, rfl, (hvalue g).mpr hval⟩

theorem keptOf_spec (g : Group) (wanted : Finset Ticker) (cap : Nat) :
    (keptOf g wanted cap).Nodup ∧ (keptOf g wanted cap).length ≤ cap ∧
      ∀ t ∈ keptOf g wanted cap, t ∈ g.tickers ∧ t ∈ wanted := by
  refine ⟨(nodup_sortedTickers _).sublist (List.take_sublist _ _), List.length_take_le _ _, ?_⟩
  intro t ht
  rw [keptOf] at ht
  exact Finset.mem_filter.mp (mem_sortedTickers.mp (List.mem_of_mem_take ht))

/-- Within the cap, a group keeps every wanted member. -/
theorem keptOf_fits {g : Group} (h : (g.tickers.filter (· ∈ wanted)).card ≤ cap) :
    keptOf g wanted cap = sortedTickers (g.tickers.filter (· ∈ wanted)) := by
  refine List.take_of_length_le ?_
  rw [length_sortedTickers]
  exact h

theorem carryOver_on (wanted : Finset Ticker) (cap : Nat) {previous : Plan}
    (hv : previous.Valid) {g : Group} (hg : g ∈ previous.groups) (hconn : g.connId < conns) :
    (carryOver previous wanted cap conns).on g.connId = keptOf g wanted cap := by
  by_cases hne : keptOf g wanted cap = []
  · by_contra hon
    have hon' : (carryOver previous wanted cap conns).on g.connId ≠ [] := by
      intro hnil
      exact hon (hnil.trans hne.symm)
    obtain ⟨g', hg', hc, -, hl, -⟩ := (carryOver_get hv).mp (Members.get?_of_on hon')
    have heq : g' = g := by
      have hkeys : (previous.groups.map Group.connId).Nodup := by
        rw [List.nodup_iff_pairwise_ne, List.pairwise_map]
        exact hv.sorted.imp ne_of_lt
      exact List.inj_on_of_nodup_map hkeys hg' hg hc
    exact hon (heq ▸ hl)
  · exact Members.on_of_get? ((carryOver_get hv).mpr ⟨g, hg, rfl, hconn, rfl, hne⟩)

theorem carryOver_mem {previous : Plan} (hv : previous.Valid)
    (hne : (carryOver previous wanted cap conns).on c ≠ []) :
    ∃ g ∈ previous.groups, g.connId = c ∧ c < conns ∧
      (carryOver previous wanted cap conns).on c = keptOf g wanted cap := by
  obtain ⟨g, hg, hc, hlt, hl, -⟩ := (carryOver_get hv).mp (Members.get?_of_on hne)
  exact ⟨g, hg, hc, hlt, hl⟩

theorem carryOver_placed (wanted : Finset Ticker) (cap conns : Nat) {previous : Plan}
    (hv : previous.Valid) :
    Placed wanted cap conns (carryOver previous wanted cap conns) := by
  have hcases : ∀ c, (carryOver previous wanted cap conns).on c = [] ∨
      ∃ g ∈ previous.groups, g.connId = c ∧ c < conns ∧
        (carryOver previous wanted cap conns).on c = keptOf g wanted cap := by
    intro c
    by_cases hne : (carryOver previous wanted cap conns).on c = []
    · exact .inl hne
    · exact .inr (carryOver_mem hv hne)
  constructor
  · intro c l hl
    obtain ⟨-, -, -, -, -, hne⟩ := (carryOver_get hv).mp hl
    exact hne
  · intro c hne
    obtain ⟨g, hg, rfl, hlt, -⟩ := carryOver_mem hv hne
    exact ⟨(hv.members g hg).2, hlt⟩
  · intro c
    rcases hcases c with hnil | ⟨g, -, -, -, hon⟩
    · rw [hnil]
      exact Nat.zero_le cap
    · rw [hon]
      exact (keptOf_spec g wanted cap).2.1
  · intro c
    rcases hcases c with hnil | ⟨g, -, -, -, hon⟩
    · rw [hnil]
      exact List.nodup_nil
    · rw [hon]
      exact (keptOf_spec g wanted cap).1
  · intro c t ht
    obtain ⟨g, -, -, -, hon⟩ := carryOver_mem hv (List.ne_nil_of_mem ht)
    rw [hon] at ht
    exact ((keptOf_spec g wanted cap).2.2 t ht).2
  · intro c c' t ht ht'
    obtain ⟨g, hg, rfl, -, hon⟩ := carryOver_mem hv (List.ne_nil_of_mem ht)
    obtain ⟨g', hg', rfl, -, hon'⟩ := carryOver_mem hv (List.ne_nil_of_mem ht')
    rw [hon] at ht
    rw [hon'] at ht'
    by_contra hne
    have hsymm : Std.Symm fun a b : Group => Disjoint a.tickers b.tickers :=
      ⟨fun _ _ hab => hab.symm⟩
    have hgne : g ≠ g' := fun heq => hne (heq ▸ rfl)
    have hdisj := hv.owners.forall hg hg' hgne
    exact Finset.disjoint_left.mp hdisj ((keptOf_spec g wanted cap).2.2 t ht).1
      ((keptOf_spec g' wanted cap).2.2 t ht').1

/-! ## Planning -/

/-- The members that `plan` arrives at, from those it starts with. -/
def filled (wanted : Finset Ticker) (cap conns : Nat) (members : Members) : Members :=
  fill cap members (roomOf members cap conns) (sortedTickers (wanted \ members.tickers))

theorem filled_dealt (hp : Placed wanted cap conns members) :
    Dealt wanted cap conns members (sortedTickers (wanted \ members.tickers))
      (filled wanted cap conns members) := by
  refine fill_dealt hp (room_roomOf members cap conns) (nodup_sortedTickers _) ?_ ?_
  · intro t ht
    exact (Finset.mem_sdiff.mp (mem_sortedTickers.mp ht)).1
  · intro t ht c hc
    exact (Finset.mem_sdiff.mp (mem_sortedTickers.mp ht)).2 (Members.mem_tickers.mpr ⟨c, hc⟩)

/-- After the dealing every wanted market has a connection, or there is no room. -/
theorem filled_all (hp : Placed wanted cap conns members) :
    (∀ t ∈ wanted, ∃ c, t ∈ (filled wanted cap conns members).on c) ∨
      Full cap conns (filled wanted cap conns members) := by
  have hd := filled_dealt hp
  refine hd.all.imp_left fun hall t ht => ?_
  by_cases hplaced : t ∈ members.tickers
  · obtain ⟨c, hc⟩ := Members.mem_tickers.mp hplaced
    exact ⟨c, hd.stays c hc⟩
  · exact hall t (mem_sortedTickers.mpr (Finset.mem_sdiff.mpr ⟨ht, hplaced⟩))

/-- What was planned is carried over whole. -/
theorem carryOver_again (hp : Placed wanted cap conns members) (c : Int) :
    ((carryOver (Plan.ofMembers members) wanted cap conns).on c).toFinset =
      (members.on c).toFinset := by
  by_cases hne : members.on c = []
  · have hnil : (carryOver (Plan.ofMembers members) wanted cap conns).on c = [] := by
      by_contra hon
      obtain ⟨g, hg, hc, -⟩ := carryOver_mem hp.valid hon
      exact (hp.mem_groups.mp hg).1 (hc ▸ hne)
    rw [hnil, hne]
  · have hg := hp.group_mem hne
    have hall : (members.on c).toFinset.filter (· ∈ wanted) = (members.on c).toFinset :=
      Finset.filter_true_of_mem fun t ht => hp.wanted c t (List.mem_toFinset.mp ht)
    have hfits : ((members.on c).toFinset.filter (· ∈ wanted)).card ≤ cap := by
      rw [hall, List.toFinset_card_of_nodup (hp.once c)]
      exact hp.sizes c
    have hon := carryOver_on wanted cap hp.valid hg (hp.conns c hne).2
    rw [hon, keptOf_fits hfits, toFinset_sortedTickers, hall]

/-- Dealing the same markets again changes nothing. -/
theorem filled_again (hp : Placed wanted cap conns members)
    (hall : (∀ t ∈ wanted, ∃ c, t ∈ members.on c) ∨ Full cap conns members) :
    Plan.ofMembers (filled wanted cap conns
      (carryOver (Plan.ofMembers members) wanted cap conns)) = Plan.ofMembers members := by
  have hsame := carryOver_again hp
  have hp' := carryOver_placed wanted cap conns hp.valid
  have hmem : ∀ c t, t ∈ (carryOver (Plan.ofMembers members) wanted cap conns).on c ↔
      t ∈ members.on c := by
    intro c t
    rw [← List.mem_toFinset, hsame, List.mem_toFinset]
  have hidle : filled wanted cap conns (carryOver (Plan.ofMembers members) wanted cap conns) =
      carryOver (Plan.ofMembers members) wanted cap conns := by
    refine fill_idle ?_
    rcases hall with hall | hfull
    · left
      rw [sortedTickers_eq_nil_iff, Finset.sdiff_eq_empty_iff_subset]
      intro t ht
      obtain ⟨c, hc⟩ := hall t ht
      exact Members.mem_tickers.mpr ⟨c, (hmem c t).mpr hc⟩
    · right
      rw [List.eq_nil_iff_forall_not_mem]
      rintro ⟨load, c⟩ h
      obtain ⟨hconn, hload, hlt⟩ := ((room_roomOf _ cap conns).mem load c).mp h
      have hlength := congrArg Finset.card (hsame c)
      rw [List.toFinset_card_of_nodup (hp'.once c), List.toFinset_card_of_nodup (hp.once c),
        hfull c hconn.1 hconn.2] at hlength
      omega
  rw [hidle]
  refine hp'.valid.ext hp.valid fun g => ?_
  have hempty : (carryOver (Plan.ofMembers members) wanted cap conns).on g.connId = [] ↔
      members.on g.connId = [] := by
    rw [← List.toFinset_eq_empty_iff, hsame, List.toFinset_eq_empty_iff]
  rw [hp'.mem_groups, hp.mem_groups, hsame, Ne, Ne, hempty]

end

/-- What the documentation of `plan` promises of a plan for some markets. -/
structure PlansFor (tickers : List Ticker) (maxPerGroup maxConnections : Int)
    (previous : Option Plan) (p : Plan) : Prop where
  valid : p.Valid
  limits : ∀ g ∈ p.groups, g.connId < maxConnections ∧ (g.tickers.card : Int) ≤ maxPerGroup
  wanted : p.tickers ⊆ tickers.toFinset
  card : (p.tickers.card : Int) = min (tickers.toFinset.card : Int) (maxPerGroup * maxConnections)
  stays : ∀ q, previous = some q → ∀ old ∈ q.groups, old.connId < maxConnections →
    ((old.tickers.filter (· ∈ tickers.toFinset)).card : Int) ≤ maxPerGroup →
    ∀ t ∈ old.tickers, t ∈ tickers → ∃ g ∈ p.groups, g.connId = old.connId ∧ t ∈ g.tickers
  balanced : previous = none → ∀ c c', 0 ≤ c → c < maxConnections → 0 ≤ c' → c' < maxConnections →
    p.load c ≤ p.load c' + 1
  again : plan tickers maxPerGroup maxConnections (some p) = .ok p

theorem plan_plansFor (tickers : List Ticker) {maxPerGroup maxConnections : Int}
    (hcap : 1 ≤ maxPerGroup) (hconns : 1 ≤ maxConnections) (previous : Option Plan)
    (hprevious : ∀ p, previous = some p → p.Valid) :
    ∃ p, plan tickers maxPerGroup maxConnections previous = .ok p ∧
      PlansFor tickers maxPerGroup maxConnections previous p := by
  obtain ⟨cap, rfl⟩ := Int.eq_ofNat_of_zero_le (a := maxPerGroup) (by omega)
  obtain ⟨conns, rfl⟩ := Int.eq_ofNat_of_zero_le (a := maxConnections) (by omega)
  have hplan : ∀ q, plan tickers cap conns q = .ok (Plan.ofMembers (filled tickers.toFinset cap
      conns (q.elim ∅ fun p => carryOver p tickers.toFinset cap conns))) := by
    intro q
    rw [plan, if_neg (not_lt.mpr hcap), if_neg (not_lt.mpr hconns)]
    rfl
  have hstart : Placed tickers.toFinset cap conns
      (previous.elim ∅ fun p => carryOver p tickers.toFinset cap conns) := by
    cases previous with
    | none => exact placed_empty _ _ _
    | some q => exact carryOver_placed _ _ _ (hprevious q rfl)
  have hd := filled_dealt hstart
  have hall := filled_all hstart
  refine ⟨_, hplan previous, ?_⟩
  generalize hmembers : filled tickers.toFinset cap conns
    (previous.elim ∅ fun p => carryOver p tickers.toFinset cap conns) = members at hd hall ⊢
  have hp := hd.placed
  constructor
  · exact hp.valid
  · intro g hg
    obtain ⟨hne, heq⟩ := hp.mem_groups.mp hg
    refine ⟨(hp.conns _ hne).2, ?_⟩
    rw [heq, List.toFinset_card_of_nodup (hp.once _)]
    exact_mod_cast hp.sizes _
  · intro t ht
    obtain ⟨g, hg, ht⟩ := mem_planTickers.mp ht
    obtain ⟨-, heq⟩ := hp.mem_groups.mp hg
    rw [heq] at ht
    exact hp.wanted _ t (List.mem_toFinset.mp ht)
  · rw [hp.card hall]
    push_cast
    rfl
  · rintro q rfl old hold hconn hfits t ht hwanted
    have hon := carryOver_on tickers.toFinset cap (hprevious q rfl) hold hconn
    rw [keptOf_fits (by exact_mod_cast hfits)] at hon
    have hkept : t ∈ (carryOver q tickers.toFinset cap conns).on old.connId := by
      rw [hon, mem_sortedTickers, Finset.mem_filter]
      exact ⟨ht, List.mem_toFinset.mpr hwanted⟩
    have hstays := hd.stays old.connId hkept
    exact ⟨_, hp.group_mem (List.ne_nil_of_mem hstays), rfl, List.mem_toFinset.mpr hstays⟩
  · rintro rfl c c' h0 h1 h0' h1'
    have hbalanced : Balanced conns members := hd.balanced fun _ _ _ _ _ _ => Nat.zero_le _
    rw [hp.load_eq, hp.load_eq]
    exact hbalanced c c' h0 h1 h0' h1'
  · rw [hplan, Option.elim_some, filled_again hp hall]

/-- Four wanted markets on two connections of two each, one of them running
where it may stay and one on a connection that is gone. -/
theorem plan_replanned :
    ∃ p, plan ["KXA", "KXB", "KXC", "KXD", "KXE"] 2 2
        (some ⟨[⟨"g0001", 1, {"KXD", "KXZ"}⟩, ⟨"g0002", 2, {"KXA"}⟩]⟩) = .ok p ∧
      PlansFor ["KXA", "KXB", "KXC", "KXD", "KXE"] 2 2
        (some ⟨[⟨"g0001", 1, {"KXD", "KXZ"}⟩, ⟨"g0002", 2, {"KXA"}⟩]⟩) p :=
  plan_plansFor _ (by decide) (by decide) _ fun p hp => by
    obtain rfl := Option.some.inj hp
    exact ⟨by decide, by decide, by decide, by decide⟩

end Tape
