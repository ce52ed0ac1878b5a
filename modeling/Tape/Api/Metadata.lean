import Tape.Dict
import Tape.Run

/-!
# Metadata fetched in the background

`MetadataResolver`: two caches of slots by key, one of events and one of
series, and one queue of the keys to fetch. `request` queues what the markets
need and never waits; the loop of `run` fetches one key at a time, and requests
go on arriving while it waits for the answer. What an answer holds is a
parameter, `Info`.

A cache is a dictionary in the order of the latest requests. When it is too
large it forgets slots from the front, but never one that is queued.
-/

namespace Tape.Api

/-- `_Kind`. -/
inductive Kind where
  | event
  | series
  deriving DecidableEq, Repr

/-- Of a catalog entry, what its metadata is kept under. -/
structure MetadataKeys where
  eventTicker : String
  seriesTicker : String
  deriving DecidableEq, Repr

/-- `_Slot`. -/
structure Slot (α : Type) where
  value : Option α := none
  expiresNs : Int := 0
  failures : Nat := 0
  retryAtNs : Int := 0
  queued : Bool := false

/-- The arguments the resolver accepts. -/
structure ResolverLimits where
  ttlS : Nat
  retryInitialS : Nat
  retryMaxS : Nat
  maxPending : Nat
  maxCached : Nat
  positive : 1 ≤ ttlS ∧ 1 ≤ retryInitialS ∧ 1 ≤ maxPending ∧ 1 ≤ maxCached
  ordered : retryInitialS ≤ retryMaxS

/-- How often the retry delay doubles at most. -/
def maxDoublings : Nat := 16

/-- Nanoseconds of a second. -/
def slotNsPerS : Int := 1000000000

namespace Slot

variable {α : Type}

/-- A value that has not expired. -/
def fresh (slot : Slot α) (nowNs : Int) : Bool := slot.value.isSome ∧ nowNs < slot.expiresNs

/-- Neither queued nor fresh nor before its retry time. -/
def needed (slot : Slot α) (nowNs : Int) : Bool :=
  ¬ (slot.queued ∨ slot.fresh nowNs ∨ nowNs < slot.retryAtNs)

/-- The delay after a failure. -/
def retryInS (limits : ResolverLimits) (slot : Slot α) : Nat :=
  min limits.retryMaxS (limits.retryInitialS * 2 ^ min slot.failures maxDoublings)

/-- The slot after its fetch failed. -/
def fail (limits : ResolverLimits) (slot : Slot α) (nowNs : Int) : Slot α :=
  { slot with
    failures := slot.failures + 1
    retryAtNs := nowNs + slot.retryInS limits * slotNsPerS
    queued := false }

/-- The slot after its fetch brought a value. -/
def succeed (limits : ResolverLimits) (value : α) (nowNs : Int) : Slot α :=
  { value := some value
    expiresNs := nowNs + limits.ttlS * slotNsPerS
    failures := 0
    retryAtNs := 0
    queued := false }

end Slot

/-- The cached slots of each kind, and the keys waiting to be looked up. -/
structure MetadataResolver (Info : Kind → Type) where
  slots : (kind : Kind) → Dict String (Slot (Info kind))
  pending : List (Kind × String)
  /-- The key the loop waits for. -/
  fetching : Option (Kind × String)
  /-- The loop ended: a key it took had no slot. -/
  keyError : Bool
  requests : Nat
  failures : Nat
  refused : Nat

/-- The keys of a request, in its order. -/
def wants (entries : List MetadataKeys) : List (Kind × String) :=
  entries.flatMap fun entry => [(.event, entry.eventTicker), (.series, entry.seriesTicker)]

/-- The end of `_want`: the excess of a cache forgotten, least recently requested first. -/
def evict {α : Type} (maxCached : Nat) (slots : Dict String (Slot α)) : Dict String (Slot α) :=
  let excess := slots.size - maxCached
  let idle := (slots.entries.filter fun e => ¬ e.2.queued).map Prod.fst
  (idle.take excess).foldl Dict.erase slots

namespace MetadataResolver

variable {Info : Kind → Type}

/-- Nothing is cached or asked for. -/
def new : MetadataResolver Info where
  slots _ := ∅
  pending := []
  fetching := none
  keyError := false
  requests := 0
  failures := 0
  refused := 0

/-- The slots of one kind are replaced. -/
def place (m : MetadataResolver Info) (kind : Kind) (slots : Dict String (Slot (Info kind))) :
    MetadataResolver Info :=
  { m with slots := Function.update m.slots kind slots }

/-- The slot of a key, or a new one. -/
def slot (m : MetadataResolver Info) (kind : Kind) (key : String) : Slot (Info kind) :=
  ((m.slots kind).get? key).getD {}

/-- A cache with the slot of a key at its end, and what is too much forgotten. -/
def touched (limits : ResolverLimits) (m : MetadataResolver Info) (kind : Kind) (key : String)
    (slot : Slot (Info kind)) : Dict String (Slot (Info kind)) :=
  evict limits.maxCached (((m.slots kind).erase key).set key slot)

/-- `_want`. -/
def want (limits : ResolverLimits) (nowNs : Int) (m : MetadataResolver Info)
    (w : Kind × String) : MetadataResolver Info :=
  let slot := m.slot w.1 w.2
  if slot.needed nowNs then
    if m.pending.length ≥ limits.maxPending then
      { m.place w.1 (m.touched limits w.1 w.2 slot) with refused := m.refused + 1 }
    else
      { m.place w.1 (m.touched limits w.1 w.2 { slot with queued := true }) with
        pending := m.pending ++ [w] }
  else m.place w.1 (m.touched limits w.1 w.2 slot)

/-- The keys of some entries are wanted. -/
def request (limits : ResolverLimits) (m : MetadataResolver Info) (entries : List MetadataKeys)
    (nowNs : Int) : MetadataResolver Info :=
  (wants entries).foldl (want limits nowNs) m

/-- The loop of `run` takes the next key, and `_fetch` looks its slot up. -/
def fetch (m : MetadataResolver Info) : MetadataResolver Info :=
  match m.keyError, m.fetching, m.pending with
  | false, none, (kind, key) :: rest =>
      if (m.slots kind).contains key then
        { m with pending := rest, fetching := some (kind, key), requests := m.requests + 1 }
      else { m with pending := rest, keyError := true }
  | _, _, _ => m

/-- The answer to the fetch, `none` for a `KalshiError` or a `WireError`. -/
def settle (limits : ResolverLimits) (m : MetadataResolver Info)
    (answer : (kind : Kind) → Option (Info kind)) (nowNs : Int) : MetadataResolver Info :=
  match m.fetching with
  | none => m
  | some (kind, key) =>
      match (m.slots kind).get? key, answer kind with
      | none, _ => { m with fetching := none }
      | some slot, none =>
          { m.place kind ((m.slots kind).set key (slot.fail limits nowNs)) with
            fetching := none, failures := m.failures + 1 }
      | some _, some value =>
          { m.place kind ((m.slots kind).set key (.succeed limits value nowNs)) with
            fetching := none }

end MetadataResolver

/-- A stretch of the event loop: a call of `request`, or the fetch loop until
it waits. -/
inductive ResolverAct (Info : Kind → Type) where
  | request (entries : List MetadataKeys) (nowNs : Int)
  | fetch
  | settle (answer : (kind : Kind) → Option (Info kind)) (nowNs : Int)

namespace MetadataResolver

variable {Info : Kind → Type}

/-- One call of the resolver. -/
def step (limits : ResolverLimits) (m : MetadataResolver Info) :
    ResolverAct Info → MetadataResolver Info
  | .request entries nowNs => m.request limits entries nowNs
  | .fetch => m.fetch
  | .settle answer nowNs => m.settle limits answer nowNs

/-! ## What is queued -/

/-- The key being fetched and those queued. -/
def busy (m : MetadataResolver Info) : List (Kind × String) := m.fetching.toList ++ m.pending

/-- The key has a slot, which says queued. -/
def Queued (m : MetadataResolver Info) (kind : Kind) (key : String) : Prop :=
  ∃ slot, (m.slots kind).get? key = some slot ∧ slot.queued = true

/-- The queue and the slots agree, and the loop has not ended. -/
structure Sound (limits : ResolverLimits) (m : MetadataResolver Info) : Prop where
  once : m.busy.Nodup
  queued : ∀ kind key, (kind, key) ∈ m.busy ↔ m.Queued kind key
  bounded : m.pending.length ≤ limits.maxPending
  running : m.keyError = false

/-- How many slots of a cache are queued. -/
def queuedSlots {α : Type} (slots : Dict String (Slot α)) : Nat :=
  slots.entries.countP fun e => e.2.queued

/-- No cache is larger than it may be, or than its queued slots. -/
def Capped (limits : ResolverLimits) (m : MetadataResolver Info) : Prop :=
  ∀ kind, (m.slots kind).size ≤ max limits.maxCached (queuedSlots (m.slots kind))

/-- What a want queues is the key wanted, which is neither fresh nor before its
retry time. -/
def QueuesNeeded (limits : ResolverLimits) (nowNs : Int) (m : MetadataResolver Info)
    (w : Kind × String) : Prop :=
  ∀ w' ∈ (m.want limits nowNs w).busy, w' ∉ m.busy →
    w' = w ∧ (m.slot w.1 w.2).fresh nowNs = false ∧ (m.slot w.1 w.2).retryAtNs ≤ nowNs

/-- Only wants queue, and only what they need. -/
def NeededOnly (limits : ResolverLimits) (m : MetadataResolver Info) :
    ResolverAct Info → Prop
  | .request entries nowNs =>
      Run.Along (want limits nowNs) (QueuesNeeded limits nowNs) m (wants entries)
  | act => ∀ w ∈ (m.step limits act).busy, w ∈ m.busy

/-- No fetch settles while its cache is larger than it may be. -/
def SettlesWithin (limits : ResolverLimits) (m : MetadataResolver Info) :
    ResolverAct Info → Prop
  | .settle _ _ => ∀ kind key, m.fetching = some (kind, key) →
      (m.slots kind).size ≤ limits.maxCached
  | _ => True

theorem sound_new (limits : ResolverLimits) : Sound limits (@new Info) where
  once := List.nodup_nil
  queued _ _ := by
    refine iff_of_false List.not_mem_nil ?_
    rintro ⟨slot, hslot, -⟩
    cases hslot
  bounded := Nat.zero_le _
  running := rfl

end MetadataResolver

end Tape.Api
