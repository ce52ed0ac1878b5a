import Tape.Api.Metadata

/-!
# The metadata queue and its caches

The keys being fetched or queued are those whose slot says queued, each once,
on every run: a slot that is queued is never forgotten, and a fetch that
settles clears its slot in the same stretch (`Sound`).

A request leaves each cache within its bound, or within its queued slots. A
fetch that settles takes one slot from the queued ones and forgets none, so a
cache that was too large because of them is then larger than the bound by the
slots that are no longer queued, until the next request (`SettlesWithin`).
-/

namespace Tape.Api

section Evict

variable {α : Type} {slots : Dict String (Slot α)} {n : Nat} {key : String} {slot : Slot α}

/-- The keys a cache forgets. -/
def forgotten (n : Nat) (slots : Dict String (Slot α)) : List String :=
  ((slots.entries.filter fun e => ¬ e.2.queued).map Prod.fst).take (slots.size - n)

theorem evict_eq (n : Nat) (slots : Dict String (Slot α)) :
    evict n slots = (forgotten n slots).foldl Dict.erase slots := rfl

/-- What is forgotten is not queued. -/
theorem not_queued_of_forgotten (h : key ∈ forgotten n slots)
    (hget : slots.get? key = some slot) : slot.queued = false := by
  obtain ⟨e, he, rfl⟩ := List.mem_map.mp (List.mem_of_mem_take h)
  obtain ⟨hin, hidle⟩ := List.mem_filter.mp he
  have hsame : slots.get? e.1 = some e.2 := Dict.get?_eq_some_iff.mpr hin
  obtain rfl := Option.some.inj (hsame.symm.trans hget)
  simpa using hidle

theorem get?_of_evict (h : (evict n slots).get? key = some slot) :
    slots.get? key = some slot := by
  rw [evict_eq, Dict.get?_foldl_erase] at h
  split at h
  · cases h
  · exact h

theorem get?_evict_of_queued (h : slots.get? key = some slot) (hq : slot.queued = true) :
    (evict n slots).get? key = some slot := by
  have hkept : key ∉ forgotten n slots := fun hin =>
    absurd (hq.symm.trans (not_queued_of_forgotten hin h)) (by decide)
  rw [evict_eq, Dict.get?_foldl_erase, if_neg hkept, h]

open MetadataResolver in
theorem queuedSlots_evict (n : Nat) (slots : Dict String (Slot α)) :
    queuedSlots (evict n slots) = queuedSlots slots := by
  rw [queuedSlots, queuedSlots, evict_eq, Dict.entries_foldl_erase, List.countP_filter]
  refine List.countP_congr fun e he => ?_
  rw [Bool.and_eq_true, decide_eq_true_iff]
  refine ⟨And.left, fun hq => ⟨hq, fun hin => ?_⟩⟩
  have hget : slots.get? e.1 = some e.2 := Dict.get?_eq_some_iff.mpr he
  exact absurd (hq.symm.trans (not_queued_of_forgotten hin hget)) (by decide)

open MetadataResolver in
/-- What is left fits, or is all queued. -/
theorem size_evict (n : Nat) (slots : Dict String (Slot α)) :
    (evict n slots).size ≤ max n (queuedSlots (evict n slots)) := by
  have hidle : (slots.entries.filter fun e => ¬ e.2.queued).length + queuedSlots slots =
      slots.size := by
    have hsplit := @List.length_eq_countP_add_countP (String × Slot α)
      (fun e => e.2.queued) slots.entries
    rw [queuedSlots, Dict.size, hsplit, Nat.add_comm, ← List.countP_eq_length_filter]
  have hnodup : (forgotten n slots).Nodup :=
    ((List.take_sublist _ _).trans (List.filter_sublist.map Prod.fst)).nodup slots.nodup
  have hkeys : ∀ k ∈ forgotten n slots, k ∈ slots.keys := fun k hk =>
    (List.filter_sublist.map Prod.fst).subset (List.mem_of_mem_take hk)
  have hlength := Dict.length_foldl_erase hnodup hkeys
  have hsize : ∀ d : Dict String (Slot α), d.keys.length = d.size := fun d => List.length_map _
  rw [← evict_eq, hsize, hsize, forgotten, List.length_take, List.length_map] at hlength
  rw [queuedSlots_evict]
  omega

end Evict

namespace MetadataResolver

variable {Info : Kind → Type} {limits : ResolverLimits} {m : MetadataResolver Info}
  {kind : Kind} {key : String} {nowNs : Int}

@[simp] theorem place_busy (slots : Dict String (Slot (Info kind))) :
    (m.place kind slots).busy = m.busy := rfl

/-- A slot put at the end of its cache: its key is queued if it says so, and
every other key as before. -/
theorem queued_touched (slot : Slot (Info kind)) (kind' : Kind) (key' : String) :
    (m.place kind (m.touched limits kind key slot)).Queued kind' key' ↔
      if (kind', key') = (kind, key) then slot.queued = true else m.Queued kind' key' := by
  by_cases hkind : kind' = kind
  · subst hkind
    have hslots : (m.place kind' (m.touched limits kind' key slot)).slots kind' =
        m.touched limits kind' key slot := Function.update_self _ _ _
    rw [Queued, hslots, touched]
    by_cases hkey : key = key'
    · subst hkey
      rw [if_pos rfl]
      constructor
      · rintro ⟨s, hget, hq⟩
        have hset := get?_of_evict hget
        rw [Dict.get?_set_self] at hset
        obtain rfl := Option.some.inj hset
        exact hq
      · exact fun hq => ⟨slot, get?_evict_of_queued (Dict.get?_set_self _ _ _) hq, hq⟩
    · have hne : (kind', key') ≠ (kind', key) := fun heq => hkey (Prod.mk.inj heq).2.symm
      have hsame : (((m.slots kind').erase key).set key slot).get? key' =
          (m.slots kind').get? key' := by
        rw [Dict.get?_set_ne hkey, Dict.get?_erase_ne hkey]
      rw [if_neg hne, Queued]
      constructor
      · rintro ⟨s, hget, hq⟩
        exact ⟨s, hsame.symm.trans (get?_of_evict hget), hq⟩
      · rintro ⟨s, hget, hq⟩
        exact ⟨s, get?_evict_of_queued (hsame.trans hget) hq, hq⟩
  · have hne : (kind', key') ≠ (kind, key) := fun heq => hkind (Prod.mk.inj heq).1
    have hslots : (m.place kind (m.touched limits kind key slot)).slots kind' = m.slots kind' :=
      Function.update_of_ne hkind _ _
    rw [if_neg hne, Queued, hslots, Queued]

/-- A slot settled: its key is no longer queued. -/
theorem queued_settled {slot : Slot (Info kind)} (hslot : slot.queued = false) (kind' : Kind)
    (key' : String) :
    (m.place kind ((m.slots kind).set key slot)).Queued kind' key' ↔
      (kind', key') ≠ (kind, key) ∧ m.Queued kind' key' := by
  by_cases hkind : kind' = kind
  · subst hkind
    have hslots : (m.place kind' ((m.slots kind').set key slot)).slots kind' =
        (m.slots kind').set key slot := Function.update_self _ _ _
    rw [Queued, hslots]
    by_cases hkey : key = key'
    · subst hkey
      refine iff_of_false ?_ fun hboth => hboth.1 rfl
      rintro ⟨s, hget, hq⟩
      rw [Dict.get?_set_self] at hget
      obtain rfl := Option.some.inj hget
      exact absurd (hq.symm.trans hslot) (by decide)
    · have hne : (kind', key') ≠ (kind', key) := fun heq => hkey (Prod.mk.inj heq).2.symm
      rw [Dict.get?_set_ne hkey]
      exact (and_iff_right hne).symm
  · have hne : (kind', key') ≠ (kind, key) := fun heq => hkind (Prod.mk.inj heq).1
    have hslots : (m.place kind ((m.slots kind).set key slot)).slots kind' = m.slots kind' :=
      Function.update_of_ne hkind _ _
    rw [Queued, hslots]
    exact (and_iff_right hne).symm

/-- Whether the slot of a key says queued. -/
theorem queued_iff_slot : m.Queued kind key ↔ (m.slot kind key).queued = true := by
  rw [Queued, slot]
  cases (m.slots kind).get? key with
  | none => exact iff_of_false (fun ⟨_, hno, _⟩ => nomatch hno) Bool.false_ne_true
  | some s =>
      constructor
      · rintro ⟨s', heq, hq⟩
        rw [Option.some.inj heq]
        exact hq
      · exact fun hq => ⟨s, rfl, hq⟩

theorem needed_iff {α : Type} {slot : Slot α} : slot.needed nowNs = true ↔
    slot.queued = false ∧ slot.fresh nowNs = false ∧ slot.retryAtNs ≤ nowNs := by
  rw [Slot.needed, decide_eq_true_iff, not_or, not_or, Bool.not_eq_true, Bool.not_eq_true]
  exact and_congr_right fun _ => and_congr_right fun _ => Int.not_lt

/-! ## A want -/

/-- A want queues the key, or leaves the queue alone. -/
inductive Wanted (limits : ResolverLimits) (nowNs : Int) (m m' : MetadataResolver Info)
    (w : Kind × String) : Prop where
  | left (hbusy : m'.busy = m.busy) (hpending : m'.pending = m.pending)
      (hqueued : ∀ kind key, m'.Queued kind key ↔ m.Queued kind key)
  | queued (hneeded : (m.slot w.1 w.2).needed nowNs = true) (hbusy : m'.busy = m.busy ++ [w])
      (hpending : m'.pending = m.pending ++ [w]) (hroom : m.pending.length < limits.maxPending)
      (hqueued : ∀ kind key, m'.Queued kind key ↔ (kind, key) = w ∨ m.Queued kind key)

theorem wanted (limits : ResolverLimits) (nowNs : Int) (m : MetadataResolver Info)
    (w : Kind × String) : Wanted limits nowNs m (m.want limits nowNs w) w := by
  -- the slot moved to the end as it is
  have hmoved : ∀ kind key, (m.place w.1 (m.touched limits w.1 w.2 (m.slot w.1 w.2))).Queued
      kind key ↔ m.Queued kind key := by
    intro kind key
    rw [queued_touched]
    split
    · next heq =>
        obtain ⟨rfl, rfl⟩ := Prod.mk.inj heq
        exact queued_iff_slot.symm
    · rfl
  rw [want]
  dsimp only
  split
  · next hneeded =>
      split
      · exact .left rfl rfl hmoved
      · next hroom =>
          refine .queued hneeded ?_ rfl (not_le.mp hroom) fun kind key => ?_
          · rw [busy, busy, List.append_assoc]
            rfl
          · refine (queued_touched _ kind key).trans ?_
            split
            · next heq => exact iff_of_true rfl (.inl heq)
            · next hne => exact (or_iff_right hne).symm
  · exact .left rfl rfl hmoved

theorem want_keyError (limits : ResolverLimits) (nowNs : Int) (m : MetadataResolver Info)
    (w : Kind × String) : (m.want limits nowNs w).keyError = m.keyError := by
  rw [want]
  dsimp only
  split
  · split <;> rfl
  · rfl

theorem Sound.not_busy_of_needed (hs : Sound limits m)
    (hneeded : (m.slot kind key).needed nowNs = true) : (kind, key) ∉ m.busy := by
  intro hin
  have hq := queued_iff_slot.mp ((hs.queued kind key).mp hin)
  exact absurd (hq.symm.trans (needed_iff.mp hneeded).1) (by decide)

theorem Sound.want (hs : Sound limits m) (nowNs : Int) (w : Kind × String) :
    Sound limits (m.want limits nowNs w) := by
  have hrunning := (want_keyError limits nowNs m w).trans hs.running
  rcases m.wanted limits nowNs w with ⟨hbusy, hpending, hqueued⟩ |
    ⟨hneeded, hbusy, hpending, hroom, hqueued⟩
  · refine ⟨?_, fun kind key => ?_, ?_, hrunning⟩
    · rw [hbusy]
      exact hs.once
    · rw [hbusy, hqueued]
      exact hs.queued kind key
    · rw [hpending]
      exact hs.bounded
  · refine ⟨?_, fun kind key => ?_, ?_, hrunning⟩
    · rw [hbusy, List.nodup_append]
      refine ⟨hs.once, List.nodup_singleton w, fun w' hin w'' hw => ?_⟩
      rw [List.mem_singleton.mp hw]
      rintro rfl
      exact hs.not_busy_of_needed hneeded hin
    · rw [hbusy, hqueued, List.mem_append, List.mem_singleton, hs.queued, or_comm]
    · rw [hpending, List.length_append, List.length_singleton]
      exact hroom

theorem queuesNeeded (limits : ResolverLimits) (nowNs : Int) (m : MetadataResolver Info)
    (w : Kind × String) : QueuesNeeded limits nowNs m w := by
  intro w' hin hout
  rcases m.wanted limits nowNs w with ⟨hbusy, -, -⟩ | ⟨hneeded, hbusy, -, -, -⟩
  · rw [hbusy] at hin
    exact absurd hin hout
  · rw [hbusy, List.mem_append, List.mem_singleton] at hin
    exact ⟨hin.resolve_left hout, (needed_iff.mp hneeded).2⟩

/-- A want leaves its own cache capped, and the others as they were. -/
theorem want_slots (limits : ResolverLimits) (nowNs : Int) (m : MetadataResolver Info)
    (w : Kind × String) (kind : Kind) :
    (m.want limits nowNs w).slots kind = m.slots kind ∨
      ((m.want limits nowNs w).slots kind).size ≤
        max limits.maxCached (queuedSlots ((m.want limits nowNs w).slots kind)) := by
  have hplaced : ∀ slot : Slot (Info w.1),
      (m.place w.1 (m.touched limits w.1 w.2 slot)).slots kind = m.slots kind ∨
        ((m.place w.1 (m.touched limits w.1 w.2 slot)).slots kind).size ≤
          max limits.maxCached
            (queuedSlots ((m.place w.1 (m.touched limits w.1 w.2 slot)).slots kind)) := by
    intro slot
    by_cases hkind : kind = w.1
    · subst hkind
      have hslots : (m.place w.1 (m.touched limits w.1 w.2 slot)).slots w.1 =
          m.touched limits w.1 w.2 slot := Function.update_self _ _ _
      rw [hslots]
      exact .inr (size_evict _ _)
    · exact .inl (Function.update_of_ne hkind _ _)
  rw [MetadataResolver.want]
  dsimp only
  split
  · split
    · exact hplaced _
    · exact hplaced _
  · exact hplaced _

theorem Capped.want (hc : Capped limits m) (nowNs : Int) (w : Kind × String) :
    Capped limits (m.want limits nowNs w) := by
  intro kind
  rcases m.want_slots limits nowNs w kind with heq | hle
  · rw [heq]
    exact hc kind
  · exact hle

/-! ## The steps -/

theorem sound_request (hs : Sound limits m) (entries : List MetadataKeys) (nowNs : Int) :
    Sound limits (m.request limits entries nowNs) :=
  (Run.throughout_of_step (L := fun _ _ => True) (fun _ w hs _ => hs.want nowNs w) hs
    (Run.along_true m (wants entries))).last

theorem capped_request (hc : Capped limits m) (entries : List MetadataKeys) (nowNs : Int) :
    Capped limits (m.request limits entries nowNs) :=
  (Run.throughout_of_step (L := fun _ _ => True) (fun _ w hc _ => hc.want nowNs w) hc
    (Run.along_true m (wants entries))).last

/-- The loop waits, or takes the next key, whose slot is there. -/
theorem Sound.fetch_cases (hs : Sound limits m) :
    m.fetch = m ∨ ∃ w rest, m.pending = w :: rest ∧ m.fetching = none ∧
      m.fetch = { m with pending := rest, fetching := some w, requests := m.requests + 1 } := by
  rw [MetadataResolver.fetch, hs.running]
  cases hfetching : m.fetching with
  | some w => exact .inl rfl
  | none =>
      cases hpending : m.pending with
      | nil => exact .inl rfl
      | cons w rest =>
          obtain ⟨kind, key⟩ := w
          have hbusy : (kind, key) ∈ m.busy := by
            rw [busy, hfetching, hpending]
            exact List.mem_cons_self
          obtain ⟨slot, hget, -⟩ := (hs.queued kind key).mp hbusy
          have hin : (m.slots kind).contains key = true :=
            Dict.contains_iff.mpr (Dict.mem_keys_of_get? hget)
          refine .inr ⟨(kind, key), rest, rfl, rfl, ?_⟩
          dsimp only
          rw [if_pos hin]

theorem sound_fetch (hs : Sound limits m) :
    Sound limits m.fetch ∧ m.fetch.busy = m.busy ∧ m.fetch.slots = m.slots := by
  rcases hs.fetch_cases with heq | ⟨w, rest, hpending, hfetching, heq⟩
  · rw [heq]
    exact ⟨hs, rfl, rfl⟩
  · have hbusy : m.fetch.busy = m.busy := by
      rw [heq, busy, busy, hfetching, hpending]
      rfl
    have hslots : m.fetch.slots = m.slots := by rw [heq]
    refine ⟨⟨?_, fun kind key => ?_, ?_, ?_⟩, hbusy, hslots⟩
    · rw [hbusy]
      exact hs.once
    · rw [hbusy, hs.queued, Queued, Queued, hslots]
    · rw [heq]
      have hle := hs.bounded
      rw [hpending] at hle
      exact Nat.le_of_succ_le hle
    · rw [heq]
      exact hs.running

/-- The fetch loop waits for nothing, or the key it waits for has its slot, and
the answer settles it. -/
theorem Sound.settle_cases (hs : Sound limits m) (answer : (kind : Kind) → Option (Info kind))
    (nowNs : Int) :
    m.fetching = none ∧ m.settle limits answer nowNs = m ∨
      ∃ kind key before after, m.fetching = some (kind, key) ∧
        (m.slots kind).get? key = some before ∧ before.queued = true ∧ after.queued = false ∧
        ∃ failures, m.settle limits answer nowNs =
          { m.place kind ((m.slots kind).set key after) with fetching := none, failures } := by
  rw [settle]
  cases hfetching : m.fetching with
  | none => exact .inl ⟨rfl, rfl⟩
  | some w =>
      obtain ⟨kind, key⟩ := w
      have hbusy : (kind, key) ∈ m.busy := by
        rw [busy, hfetching]
        exact List.mem_cons_self
      obtain ⟨slot, hget, hq⟩ := (hs.queued kind key).mp hbusy
      dsimp only
      rw [hget]
      cases answer kind with
      | none => exact .inr ⟨kind, key, slot, _, rfl, hget, hq, rfl, _, rfl⟩
      | some value => exact .inr ⟨kind, key, slot, _, rfl, hget, hq, rfl, _, rfl⟩

theorem sound_settle (hs : Sound limits m) (answer : (kind : Kind) → Option (Info kind))
    (nowNs : Int) : Sound limits (m.settle limits answer nowNs) ∧
      ∀ w ∈ (m.settle limits answer nowNs).busy, w ∈ m.busy := by
  rcases hs.settle_cases answer nowNs with ⟨-, heq⟩ |
    ⟨kind, key, before, after, hfetching, hget, hbefore, hafter, failures, heq⟩
  · rw [heq]
    exact ⟨hs, fun _ hin => hin⟩
  · have hbusy : m.busy = (kind, key) :: m.pending := by
      rw [busy, hfetching]
      rfl
    have honce := hs.once
    rw [hbusy] at honce
    obtain ⟨hout, hrest⟩ := List.nodup_cons.mp honce
    rw [heq]
    refine ⟨⟨hrest, fun kind' key' => ?_, hs.bounded, hs.running⟩, fun w hin => ?_⟩
    · show (kind', key') ∈ m.pending ↔
        (m.place kind ((m.slots kind).set key after)).Queued kind' key'
      rw [queued_settled hafter, ← hs.queued, hbusy, List.mem_cons]
      constructor
      · intro hin
        refine ⟨?_, .inr hin⟩
        rintro heq
        exact hout (heq ▸ hin)
      · intro ⟨hne, hin⟩
        exact hin.resolve_left hne
    · rw [hbusy]
      exact List.mem_cons_of_mem _ hin

/-- Setting a slot that is there replaces its count. -/
theorem queuedSlots_set {α : Type} {slots : Dict String (Slot α)} {key : String}
    {before after : Slot α} (hget : slots.get? key = some before) (hbefore : before.queued = true)
    (hafter : after.queued = false) :
    (slots.set key after).size = slots.size ∧
      queuedSlots (slots.set key after) + 1 = queuedSlots slots := by
  have hentries : ∀ l : List (String × Slot α), Dict.lookup key l = some before →
      (Dict.setEntry key after l).length = l.length ∧
        (Dict.setEntry key after l).countP (fun e => e.2.queued) + 1 =
          l.countP fun e => e.2.queued := by
    intro l
    induction l with
    | nil => exact fun hno => nomatch hno
    | cons e l ih =>
        intro hlookup
        rw [Dict.lookup] at hlookup
        rw [Dict.setEntry]
        split at hlookup
        · next heq =>
            obtain rfl := Option.some.inj hlookup
            rw [if_pos heq, List.countP_cons, List.countP_cons, hbefore]
            dsimp only
            rw [hafter]
            exact ⟨rfl, rfl⟩
        · next hne =>
            obtain ⟨hlength, hcount⟩ := ih hlookup
            rw [if_neg hne, List.length_cons, List.length_cons, List.countP_cons, List.countP_cons]
            dsimp only
            exact ⟨by omega, by omega⟩
  exact hentries slots.entries hget

/-- A fetch that settles leaves the caches capped exactly when its own was
within the bound. -/
theorem capped_settle_iff (hs : Sound limits m) (hc : Capped limits m)
    (answer : (kind : Kind) → Option (Info kind)) (nowNs : Int) :
    Capped limits (m.settle limits answer nowNs) ↔
      ∀ kind key, m.fetching = some (kind, key) → (m.slots kind).size ≤ limits.maxCached := by
  rcases hs.settle_cases answer nowNs with ⟨hfetching, heq⟩ |
    ⟨kind, key, before, after, hfetching, hget, hbefore, hafter, failures, heq⟩
  · rw [heq, hfetching]
    exact iff_of_true hc fun _ _ hno => nomatch hno
  · obtain ⟨hsize, hcount⟩ := queuedSlots_set hget hbefore hafter
    have hself : (m.settle limits answer nowNs).slots kind = (m.slots kind).set key after := by
      rw [heq]
      exact Function.update_self _ _ _
    have hother : ∀ kind', kind' ≠ kind →
        (m.settle limits answer nowNs).slots kind' = m.slots kind' := by
      intro kind' hne
      rw [heq]
      exact Function.update_of_ne hne _ _
    have hown := hc kind
    constructor
    · intro hcapped kind' key' hsome
      obtain ⟨rfl, rfl⟩ := Prod.mk.inj (Option.some.inj (hfetching.symm.trans hsome))
      have hle := hcapped kind
      rw [hself, hsize] at hle
      have hqueued : queuedSlots (m.slots kind) ≤ (m.slots kind).size := List.countP_le_length
      -- above the bound every slot was queued, and one of them no longer is
      omega
    · intro hwithin kind'
      by_cases hkind : kind' = kind
      · subst hkind
        rw [hself, hsize]
        exact Nat.le_trans (hwithin kind' key hfetching) (Nat.le_max_left _ _)
      · rw [hother kind' hkind]
        exact hc kind'

theorem sound_step (hs : Sound limits m) (act : ResolverAct Info) :
    Sound limits (m.step limits act) := by
  cases act with
  | request entries nowNs => exact sound_request hs entries nowNs
  | fetch => exact (sound_fetch hs).1
  | settle answer nowNs => exact (sound_settle hs answer nowNs).1

theorem neededOnly_step (hs : Sound limits m) (act : ResolverAct Info) :
    NeededOnly limits m act := by
  cases act with
  | request entries nowNs =>
      exact (Run.along_true m (wants entries)).mono fun m w _ => queuesNeeded limits nowNs m w
  | fetch =>
      intro w hin
      rw [← (sound_fetch hs).2.1]
      exact hin
  | settle answer nowNs => exact (sound_settle hs answer nowNs).2

theorem capped_step_iff (hs : Sound limits m) (hc : Capped limits m) (act : ResolverAct Info) :
    Capped limits (m.step limits act) ↔ SettlesWithin limits m act := by
  cases act with
  | request entries nowNs => exact iff_of_true (capped_request hc entries nowNs) trivial
  | fetch =>
      refine iff_of_true (fun kind => ?_) trivial
      show (m.fetch.slots kind).size ≤ max _ (queuedSlots (m.fetch.slots kind))
      rw [(sound_fetch hs).2.2]
      exact hc kind
  | settle answer nowNs => exact capped_settle_iff hs hc answer nowNs

/-- On every run of requests and fetches the queue and the slots agree, and
only what is needed is queued; and no cache is larger than its bound or its
queued slots in any state exactly when no fetch settles while its cache is
larger than its bound. -/
theorem metadata_queue_sound (limits : ResolverLimits) (acts : List (ResolverAct Info)) :
    Run.Throughout (step limits) (Sound limits) (@new Info) acts ∧
      Run.Along (step limits) (NeededOnly limits) new acts ∧
      (Run.Throughout (step limits) (Capped limits) new acts ↔
        Run.Along (step limits) (SettlesWithin limits) new acts) := by
  have hstep : ∀ m act, Sound limits m → True → Sound limits (m.step limits act) :=
    fun _ act hs _ => @sound_step Info limits _ hs act
  have hall : Run.Along (step limits) (fun _ _ => True) (@new Info) acts := Run.along_true _ acts
  refine ⟨Run.throughout_of_step hstep (sound_new limits) hall,
    Run.along_of_step hstep (fun _ act hs _ => neededOnly_step hs act) (sound_new limits) hall, ?_⟩
  exact Run.throughout_iff_along hstep (fun _ act hs hc _ => capped_step_iff hs hc act)
    (sound_new limits) (fun _ => Nat.zero_le _) hall

/-- One slot may be cached, and two events and their series are queued; the
first event arrives. -/
theorem settled_slot_kept :
    let limits : ResolverLimits := ⟨3600, 30, 900, 3, 1, by decide, by decide⟩
    ¬ Run.Throughout (step limits) (Capped limits) (@new fun _ => String)
      [.request [⟨"E1", "S"⟩, ⟨"E2", "S"⟩] 0, .fetch, .settle (fun _ => some "title") 1] := by
  intro limits hrun
  exact absurd (hrun.last .event) (by decide)

end MetadataResolver

end Tape.Api
