import Tape.Tally

/-!
# What an hour contributes to its day's manifest

The structs of `tape.bake.manifest` that hold one hour. Some carry a check of
their own, made when they are built: the check is a field here, so that a value
that fails it cannot be built. The constraints on single fields, such as a
counter that is not negative, are not among these: they are annotations, and
only decoding looks at them. They come with the manifest.
-/

namespace Tape.Bake

/-- The kinds of records, by name. -/
def recordKinds : List String := ["frame", "command", "gap", "connection", "audit"]

/-- What became of the records of an hour. -/
structure RecordAccounting where
  records : Tally String
  baked : Tally String
  notBaked : Tally String
  decodeFailures : Tally String
  corruptSegments : Nat
  kinds : ∀ k ∈ records.keys, k ∈ recordKinds
  accounted : records.total = baked.total + notBaked.total + decodeFailures.total

namespace RecordAccounting

/-- `RecordAccounting(…)`, whose `__post_init__` may raise. -/
def build (records baked notBaked decodeFailures : Tally String) (corruptSegments : Nat) :
    Except String RecordAccounting :=
  if hk : ∀ k ∈ records.keys, k ∈ recordKinds then
    if ha : records.total = baked.total + notBaked.total + decodeFailures.total then
      .ok ⟨records, baked, notBaked, decodeFailures, corruptSegments, hk, ha⟩
    else .error "records read but not accounted for"
  else .error "unknown record kinds"

end RecordAccounting

/-- A stretch in which a connection was recorded. -/
structure ConnectionSpan where
  connId : Int
  startWallNs : Int
  endWallNs : Int
  opened : Bool
  closed : Bool
  ordered : startWallNs ≤ endWallNs
  deriving DecidableEq, Repr

/-- A stretch in which the host slept. -/
structure Sleep where
  startWallNs : Int
  endWallNs : Int
  ordered : startWallNs ≤ endWallNs
  deriving DecidableEq, Repr

/-- The gaps of an hour, and how long its books were stale. -/
structure GapFacts where
  count : Int
  staleMarketNs : Int
  observedMarketNs : Int
  deriving DecidableEq, Repr

/-- The audits of an hour by outcome. -/
structure AuditFacts where
  exact : Int
  consistent : Int
  inconsistent : Int
  undecidable : Int
  levelsMismatched : Int
  deriving DecidableEq, Repr

/-- What an hour tells of its completeness. -/
structure HourIntegrity where
  spans : List ConnectionSpan
  sleeps : List Sleep
  gaps : GapFacts
  audits : AuditFacts
  writerOverflowDropped : Int
  deriving DecidableEq, Repr

/-- One completed bake of one hour. -/
structure HourBake where
  hour : Int
  bakeVersion : Int
  softwareVersion : String
  accounting : RecordAccounting
  integrity : HourIntegrity

end Tape.Bake
