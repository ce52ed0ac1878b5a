import Mathlib
import Tape.Run

/-!
# The token bucket

`TokenBucket` of `tape.client.ratelimit`. Tokens are kept in billionths, so a
refill is exact. The bucket is told the time by every call, and a reading below
one it was told before adds nothing: its own time is the highest reading so
far, and that is the time its promises are about.

What a bucket may still grant up to some time is what it holds and what is
refilled until then, and before the window starts it is a full bucket and what
is refilled in the window: its `allowance`. A call grants no more than it takes
from the allowance (`granted_add_allowance_le`), which is all that the bound on
a window needs.
-/

namespace Tape

/-- Nanoseconds of a second. -/
def nsPerS : Int := 1000000000

/-- The limits a bucket is made of. -/
structure BucketLimits where
  refillPerS : Int
  capacity : Int
  deriving DecidableEq, Repr

/-- The texts of the `ValueError`s, by what they say. -/
inductive BucketError where
  | limitsNotPositive (limits : BucketLimits)
  | capacityBelowRefill (limits : BucketLimits)
  | tokensNotPositive (tokens : Int)
  | exceedsCapacity (tokens capacity : Int)
  deriving DecidableEq, Repr

/-- A bucket; its limits are checked when it is built. -/
structure TokenBucket where
  refillPerS : Int
  capacity : Int
  tokensE9 : Int
  lastNs : Int
  refills : 0 < refillPerS
  covers : refillPerS ≤ capacity
  deriving Repr

namespace TokenBucket

/-- A full bucket, unless the limits are refused. -/
def new (limits : BucketLimits) (nowNs : Int) : Except BucketError TokenBucket :=
  if hp : limits.refillPerS ≤ 0 ∨ limits.capacity ≤ 0 then .error (.limitsNotPositive limits)
  else if hc : limits.capacity < limits.refillPerS then .error (.capacityBelowRefill limits)
  else
    .ok
      { refillPerS := limits.refillPerS
        capacity := limits.capacity
        tokensE9 := limits.capacity * nsPerS
        lastNs := nowNs
        refills := by omega
        covers := by omega }

/-- `_refill`. -/
def refill (b : TokenBucket) (nowNs : Int) : TokenBucket :=
  let elapsed := nowNs - b.lastNs
  -- A clock that does not advance adds nothing; it never removes tokens.
  if elapsed ≤ 0 then { b with lastNs := max b.lastNs nowNs }
  else
    { b with
      lastNs := nowNs
      tokensE9 := min (b.capacity * nsPerS) (b.tokensE9 + elapsed * b.refillPerS) }

/-- `_check`. -/
def check (b : TokenBucket) (tokens : Int) : Except BucketError Unit :=
  if tokens ≤ 0 then .error (.tokensNotPositive tokens)
  else if tokens > b.capacity then .error (.exceedsCapacity tokens b.capacity)
  else .ok ()

/-- Whole tokens available, and the bucket refilled. -/
def tokens (b : TokenBucket) (nowNs : Int) : Int × TokenBucket :=
  let b := b.refill nowNs
  (b.tokensE9 / nsPerS, b)

/-- Tokens are taken if there are enough. -/
def tryTake (b : TokenBucket) (tokens nowNs : Int) : Except BucketError (Bool × TokenBucket) :=
  match b.check tokens with
  | .error e => .error e
  | .ok () =>
      let b := b.refill nowNs
      let costE9 := tokens * nsPerS
      if b.tokensE9 < costE9 then .ok (false, b)
      else .ok (true, { b with tokensE9 := b.tokensE9 - costE9 })

/-- How long until there are enough tokens. -/
def waitNs (b : TokenBucket) (tokens nowNs : Int) : Except BucketError (Int × TokenBucket) :=
  match b.check tokens with
  | .error e => .error e
  | .ok () =>
      let b := b.refill nowNs
      let shortfallE9 := tokens * nsPerS - b.tokensE9
      if shortfallE9 ≤ 0 then .ok (0, b)
      -- rounded up, so that the caller never wakes a nanosecond early
      else .ok (-(-shortfallE9 / b.refillPerS), b)

end TokenBucket

/-- A call on a bucket, with the reading it is made at. -/
inductive BucketCall where
  | tokens (nowNs : Int)
  | tryTake (tokens nowNs : Int)
  | waitNs (tokens nowNs : Int)
  deriving DecidableEq, Repr

/-- The clock a call is made with. -/
def BucketCall.nowNs : BucketCall → Int
  | .tokens nowNs => nowNs
  | .tryTake _ nowNs => nowNs
  | .waitNs _ nowNs => nowNs

namespace TokenBucket

/-- The bucket after a call; one that raises leaves it as it was. -/
def after (b : TokenBucket) : BucketCall → TokenBucket
  | .tokens nowNs => (b.tokens nowNs).2
  | .tryTake tokens nowNs =>
      match b.tryTake tokens nowNs with
      | .error _ => b
      | .ok (_, b') => b'
  | .waitNs tokens nowNs =>
      match b.waitNs tokens nowNs with
      | .error _ => b
      | .ok (_, b') => b'

/-- The tokens a call grants. -/
def granted (b : TokenBucket) : BucketCall → Int
  | .tryTake tokens nowNs =>
      match b.tryTake tokens nowNs with
      | .ok (true, _) => tokens
      | _ => 0
  | _ => 0

/-- The call raises, so that the bucket is told nothing. -/
def raises (b : TokenBucket) : BucketCall → Bool
  | .tokens _ => false
  | .tryTake tokens _ => b.check tokens ≠ .ok ()
  | .waitNs tokens _ => b.check tokens ≠ .ok ()

/-- The readings a bucket is told by some calls. -/
def told (b : TokenBucket) (calls : List BucketCall) : List Int :=
  (calls.filter fun c => !b.raises c).map BucketCall.nowNs

/-- The bucket's time at a call: the highest reading it was told so far. -/
def timeOf (b : TokenBucket) (c : BucketCall) : Int := max b.lastNs c.nowNs

/-- The tokens granted by the calls, one after another, that are made at a
time, by some clock, from `fromNs` to `toNs`. -/
def grantedBy (time : TokenBucket → BucketCall → Int) (fromNs toNs : Int) (b : TokenBucket) :
    List BucketCall → Int
  | [] => 0
  | c :: calls =>
      (if fromNs ≤ time b c ∧ time b c ≤ toNs then b.granted c else 0) +
        (b.after c).grantedBy time fromNs toNs calls

/-- The tokens granted within a time of the bucket's. -/
def grantedWithin (b : TokenBucket) (fromNs toNs : Int) (calls : List BucketCall) : Int :=
  grantedBy timeOf fromNs toNs b calls

/-- The tokens granted between two readings. -/
def grantedBetween (b : TokenBucket) (fromNs toNs : Int) (calls : List BucketCall) : Int :=
  grantedBy (fun _ c => c.nowNs) fromNs toNs b calls

variable {b b' : TokenBucket}

/-! ## Refilling -/

@[simp] theorem refill_refillPerS (b : TokenBucket) (nowNs : Int) :
    (b.refill nowNs).refillPerS = b.refillPerS := by
  rw [refill]
  split <;> rfl

@[simp] theorem refill_capacity (b : TokenBucket) (nowNs : Int) :
    (b.refill nowNs).capacity = b.capacity := by
  rw [refill]
  split <;> rfl

@[simp] theorem refill_lastNs (b : TokenBucket) (nowNs : Int) :
    (b.refill nowNs).lastNs = max b.lastNs nowNs := by
  rw [refill]
  split
  · rfl
  · show nowNs = max b.lastNs nowNs
    omega

/-- What a bucket holds. -/
structure Holds (b : TokenBucket) : Prop where
  nonneg : 0 ≤ b.tokensE9
  le_capacity : b.tokensE9 ≤ b.capacity * nsPerS

theorem Holds.refill (h : b.Holds) (nowNs : Int) : (b.refill nowNs).Holds := by
  have hnonneg := h.nonneg
  have hle := h.le_capacity
  constructor
  · rw [TokenBucket.refill]
    split
    · exact hnonneg
    · next hpos =>
        have hadd : 0 ≤ (nowNs - b.lastNs) * b.refillPerS :=
          mul_nonneg (by omega) b.refills.le
        have hfull : 0 ≤ b.capacity * nsPerS := le_trans hnonneg hle
        show 0 ≤ min _ _
        omega
  · rw [refill_capacity, TokenBucket.refill]
    split
    · exact hle
    · exact min_le_left _ _

/-- A refill adds at most what the time since the last one is worth. -/
theorem refill_tokensE9_le (b : TokenBucket) (nowNs : Int) :
    (b.refill nowNs).tokensE9 ≤
      b.tokensE9 + b.refillPerS * ((b.refill nowNs).lastNs - b.lastNs) := by
  rw [refill]
  split
  · next hle =>
      have hsame : max b.lastNs nowNs = b.lastNs := by omega
      show b.tokensE9 ≤ b.tokensE9 + b.refillPerS * (max b.lastNs nowNs - b.lastNs)
      rw [hsame, sub_self, mul_zero, add_zero]
  · show min _ _ ≤ b.tokensE9 + b.refillPerS * (nowNs - b.lastNs)
    rw [mul_comm b.refillPerS]
    exact min_le_right _ _

/-- Short of a full bucket, the refill is exact. -/
theorem refill_tokensE9 {nowNs : Int} (h : b.lastNs ≤ nowNs)
    (hfull : b.tokensE9 ≤ b.capacity * nsPerS) :
    (b.refill nowNs).tokensE9 =
      min (b.capacity * nsPerS) (b.tokensE9 + (nowNs - b.lastNs) * b.refillPerS) := by
  rw [refill]
  split
  · next hle =>
      have hsame : nowNs - b.lastNs = 0 := by omega
      rw [hsame, zero_mul, add_zero]
      show b.tokensE9 = min (b.capacity * nsPerS) b.tokensE9
      omega
  · rfl

/-- A full bucket stays full. -/
theorem refill_of_full {nowNs : Int} (hfull : b.tokensE9 = b.capacity * nsPerS) :
    (b.refill nowNs).tokensE9 = b.capacity * nsPerS := by
  rw [TokenBucket.refill]
  split
  · exact hfull
  · have hadd : 0 ≤ (nowNs - b.lastNs) * b.refillPerS :=
      mul_nonneg (by omega) b.refills.le
    show min _ _ = _
    omega

/-! ## Calls -/

theorem check_ok_iff {k : Int} : b.check k = .ok () ↔ 0 < k ∧ k ≤ b.capacity := by
  rw [check]
  split
  · exact iff_of_false nofun (by omega)
  · split
    · exact iff_of_false nofun (by omega)
    · exact iff_of_true rfl (by omega)

/-- What a call that does not raise does. -/
theorem tryTake_cases {k nowNs : Int} {taken : Bool} (h : b.tryTake k nowNs = .ok (taken, b')) :
    (0 < k ∧ k ≤ b.capacity) ∧
      ((taken = false ∧ (b.refill nowNs).tokensE9 < k * nsPerS ∧ b' = b.refill nowNs) ∨
        (taken = true ∧ k * nsPerS ≤ (b.refill nowNs).tokensE9 ∧
          b' = { b.refill nowNs with tokensE9 := (b.refill nowNs).tokensE9 - k * nsPerS })) := by
  rw [tryTake] at h
  split at h
  · cases h
  · next hcheck =>
      refine ⟨check_ok_iff.mp hcheck, ?_⟩
      dsimp only at h
      split at h
      · next hshort =>
          obtain ⟨rfl, rfl⟩ := Prod.mk.inj (Except.ok.inj h)
          exact .inl ⟨rfl, hshort, rfl⟩
      · next henough =>
          obtain ⟨rfl, rfl⟩ := Prod.mk.inj (Except.ok.inj h)
          exact .inr ⟨rfl, not_lt.mp henough, rfl⟩

theorem tryTake_of_enough {k nowNs : Int} (hk : 0 < k ∧ k ≤ b.capacity)
    (h : k * nsPerS ≤ (b.refill nowNs).tokensE9) :
    b.tryTake k nowNs =
      .ok (true, { b.refill nowNs with tokensE9 := (b.refill nowNs).tokensE9 - k * nsPerS }) := by
  rw [tryTake, check_ok_iff.mpr hk]
  dsimp only
  rw [if_neg (not_lt.mpr h)]

theorem tryTake_of_short {k nowNs : Int} (hk : 0 < k ∧ k ≤ b.capacity)
    (h : (b.refill nowNs).tokensE9 < k * nsPerS) :
    b.tryTake k nowNs = .ok (false, b.refill nowNs) := by
  rw [tryTake, check_ok_iff.mpr hk]
  dsimp only
  rw [if_pos h]

theorem tryTake_of_refused {k nowNs : Int} (hk : ¬ (0 < k ∧ k ≤ b.capacity)) :
    ∃ e, b.tryTake k nowNs = .error e := by
  cases hcheck : b.check k with
  | error e =>
      refine ⟨e, ?_⟩
      rw [tryTake, hcheck]
  | ok _ => exact absurd (check_ok_iff.mp hcheck) hk

theorem waitNs_cases {k nowNs w : Int} (h : b.waitNs k nowNs = .ok (w, b')) :
    (0 < k ∧ k ≤ b.capacity) ∧ b' = b.refill nowNs ∧
      w = if k * nsPerS - b'.tokensE9 ≤ 0 then 0
        else -(-(k * nsPerS - b'.tokensE9) / b'.refillPerS) := by
  rw [waitNs] at h
  split at h
  · cases h
  · next hcheck =>
      refine ⟨check_ok_iff.mp hcheck, ?_⟩
      dsimp only at h
      split at h
      · next henough =>
          obtain ⟨rfl, rfl⟩ := Prod.mk.inj (Except.ok.inj h)
          exact ⟨rfl, (if_pos henough).symm⟩
      · next hshort =>
          obtain ⟨rfl, rfl⟩ := Prod.mk.inj (Except.ok.inj h)
          exact ⟨rfl, (if_neg hshort).symm⟩

theorem waitNs_of_check {k : Int} (nowNs : Int) (h : b.check k = .ok ()) :
    ∃ w, b.waitNs k nowNs = .ok (w, b.refill nowNs) := by
  rw [waitNs, h]
  dsimp only
  split
  · exact ⟨_, rfl⟩
  · exact ⟨_, rfl⟩

/-- A call refills the bucket, or raises before it does, and then takes what it
grants. -/
theorem after_cases (b : TokenBucket) (c : BucketCall) :
    (b.after c = b ∧ b.granted c = 0) ∨
      (0 ≤ b.granted c ∧ b.granted c * nsPerS ≤ (b.refill c.nowNs).tokensE9 ∧
        b.after c = { b.refill c.nowNs with
          tokensE9 := (b.refill c.nowNs).tokensE9 - b.granted c * nsPerS }) ∨
      (b.granted c = 0 ∧ b.after c = b.refill c.nowNs) := by
  cases c with
  | tokens nowNs => exact .inr (.inr ⟨rfl, rfl⟩)
  | waitNs k nowNs =>
      cases hcall : b.waitNs k nowNs with
      | error e => exact .inl ⟨by rw [after, hcall], rfl⟩
      | ok result =>
          obtain ⟨w, b'⟩ := result
          refine .inr (.inr ⟨rfl, ?_⟩)
          rw [after, hcall]
          exact (waitNs_cases hcall).2.1
  | tryTake k nowNs =>
      cases hcall : b.tryTake k nowNs with
      | error e => exact .inl ⟨by rw [after, hcall], by rw [granted, hcall]⟩
      | ok result =>
          obtain ⟨taken, b'⟩ := result
          obtain ⟨⟨hpos, -⟩, ⟨rfl, -, rfl⟩ | ⟨rfl, henough, rfl⟩⟩ := tryTake_cases hcall
          · exact .inr (.inr ⟨by rw [granted, hcall], by rw [after, hcall]; rfl⟩)
          · have hgranted : b.granted (.tryTake k nowNs) = k := by rw [granted, hcall]
            refine .inr (.inl ?_)
            rw [hgranted]
            exact ⟨hpos.le, henough, by rw [after, hcall]; rfl⟩

@[simp] theorem after_refillPerS (b : TokenBucket) (c : BucketCall) :
    (b.after c).refillPerS = b.refillPerS := by
  obtain ⟨h, -⟩ | ⟨-, -, h⟩ | ⟨-, h⟩ := after_cases b c
  · rw [h]
  · rw [h]
    exact refill_refillPerS b c.nowNs
  · rw [h]
    exact refill_refillPerS b c.nowNs

@[simp] theorem after_capacity (b : TokenBucket) (c : BucketCall) :
    (b.after c).capacity = b.capacity := by
  obtain ⟨h, -⟩ | ⟨-, -, h⟩ | ⟨-, h⟩ := after_cases b c
  · rw [h]
  · rw [h]
    exact refill_capacity b c.nowNs
  · rw [h]
    exact refill_capacity b c.nowNs

/-- The bucket's time never runs back. -/
theorem le_after_lastNs (b : TokenBucket) (c : BucketCall) : b.lastNs ≤ (b.after c).lastNs := by
  obtain ⟨h, -⟩ | ⟨-, -, h⟩ | ⟨-, h⟩ := after_cases b c
  · rw [h]
  · rw [h]
    show b.lastNs ≤ (b.refill c.nowNs).lastNs
    rw [refill_lastNs]
    exact le_max_left _ _
  · rw [h, refill_lastNs]
    exact le_max_left _ _

theorem after_lastNs_le (b : TokenBucket) (c : BucketCall) :
    (b.after c).lastNs ≤ b.timeOf c := by
  obtain ⟨h, -⟩ | ⟨-, -, h⟩ | ⟨-, h⟩ := after_cases b c
  · rw [h]
    exact le_max_left _ _
  · rw [h]
    exact (refill_lastNs b c.nowNs).le
  · rw [h]
    exact (refill_lastNs b c.nowNs).le

theorem Holds.after (h : b.Holds) (c : BucketCall) : (b.after c).Holds := by
  obtain ⟨heq, -⟩ | ⟨hpos, henough, heq⟩ | ⟨-, heq⟩ := after_cases b c
  · rw [heq]
    exact h
  · have hrefilled := h.refill c.nowNs
    have hcost : 0 ≤ b.granted c * nsPerS := mul_nonneg hpos (by decide)
    rw [heq]
    constructor
    · show 0 ≤ (b.refill c.nowNs).tokensE9 - b.granted c * nsPerS
      omega
    · have hle := hrefilled.le_capacity
      show (b.refill c.nowNs).tokensE9 - b.granted c * nsPerS ≤ (b.refill c.nowNs).capacity * nsPerS
      omega
  · rw [heq]
    exact h.refill c.nowNs

theorem raises_after (b : TokenBucket) (c c' : BucketCall) :
    (b.after c).raises c' = b.raises c' := by
  cases c' with
  | tokens nowNs => rfl
  | tryTake k nowNs =>
      rw [raises, raises, check, check, after_capacity]
  | waitNs k nowNs =>
      rw [raises, raises, check, check, after_capacity]

theorem after_of_raises {c : BucketCall} (h : b.raises c = true) : b.after c = b := by
  cases c with
  | tokens nowNs => cases h
  | tryTake k nowNs =>
      rw [raises, decide_eq_true_eq] at h
      rw [after, tryTake]
      cases hcheck : b.check k with
      | error e => rfl
      | ok _ => exact absurd hcheck h
  | waitNs k nowNs =>
      rw [raises, decide_eq_true_eq] at h
      rw [after, waitNs]
      cases hcheck : b.check k with
      | error e => rfl
      | ok _ => exact absurd hcheck h

theorem after_lastNs_of_told {c : BucketCall} (h : b.raises c = false) :
    (b.after c).lastNs = max b.lastNs c.nowNs := by
  cases c with
  | tokens nowNs => exact refill_lastNs b nowNs
  | tryTake k nowNs =>
      rw [raises, decide_eq_false_iff_not, not_not, check_ok_iff] at h
      by_cases henough : k * nsPerS ≤ (b.refill nowNs).tokensE9
      · rw [after, tryTake_of_enough h henough]
        exact refill_lastNs b nowNs
      · rw [after, tryTake_of_short h (not_le.mp henough)]
        exact refill_lastNs b nowNs
  | waitNs k nowNs =>
      rw [raises, decide_eq_false_iff_not, not_not] at h
      obtain ⟨w, hcall⟩ := waitNs_of_check nowNs h
      rw [after, hcall]
      exact refill_lastNs b nowNs

/-- The bucket's time is the highest reading it was told. -/
theorem run_lastNs (b : TokenBucket) (calls : List BucketCall) :
    (Run.final after b calls).lastNs = (b.told calls).foldl max b.lastNs := by
  induction calls generalizing b with
  | nil => rfl
  | cons c calls ih =>
      have hrest : (b.after c).told calls = b.told calls := by
        rw [told, told]
        congr 1
        exact List.filter_congr fun c' _ => by rw [raises_after]
      rw [Run.final_cons, ih, hrest]
      cases hraises : b.raises c with
      | true =>
          rw [after_of_raises hraises, told, told, List.filter_cons_of_neg (by simp [hraises])]
      | false =>
          rw [after_lastNs_of_told hraises, told, told,
            List.filter_cons_of_pos (by simp [hraises]), List.map_cons, List.foldl_cons]

/-- A run of calls keeps what a bucket holds within its capacity. -/
theorem Holds.run (h : b.Holds) (calls : List BucketCall) :
    (Run.final TokenBucket.after b calls).Holds ∧
      (Run.final TokenBucket.after b calls).refillPerS = b.refillPerS ∧
      (Run.final TokenBucket.after b calls).capacity = b.capacity := by
  induction calls generalizing b with
  | nil => exact ⟨h, rfl, rfl⟩
  | cons c calls ih =>
      obtain ⟨hholds, hrefill, hcapacity⟩ := ih (h.after c)
      rw [after_refillPerS] at hrefill
      rw [after_capacity] at hcapacity
      exact ⟨hholds, hrefill, hcapacity⟩

/-! ## What is granted in a window -/

/-- What a bucket may still grant, in billionths, from `fromNs` to `toNs`. -/
def allowance (b : TokenBucket) (fromNs toNs : Int) : Int :=
  if b.lastNs < fromNs then b.capacity * nsPerS + b.refillPerS * (toNs - fromNs)
  else b.tokensE9 + b.refillPerS * (toNs - b.lastNs)

/-- What a window allows, whatever came before it. -/
theorem Holds.allowance_le (h : b.Holds) (fromNs toNs : Int) :
    b.allowance fromNs toNs ≤ b.capacity * nsPerS + b.refillPerS * (toNs - fromNs) := by
  rw [allowance]
  split
  · exact le_refl _
  · have hrefilled : b.refillPerS * (toNs - b.lastNs) ≤ b.refillPerS * (toNs - fromNs) :=
      mul_le_mul_of_nonneg_left (by omega) b.refills.le
    have hle := h.le_capacity
    omega

theorem Holds.allowance_nonneg (h : b.Holds) {fromNs toNs : Int} (hle : fromNs ≤ toNs)
    (hlast : b.lastNs ≤ toNs) : 0 ≤ b.allowance fromNs toNs := by
  have hnonneg := h.nonneg
  have hcapacity := h.le_capacity
  rw [allowance]
  split
  · have hrefilled : 0 ≤ b.refillPerS * (toNs - fromNs) :=
      mul_nonneg b.refills.le (by omega)
    omega
  · have hrefilled : 0 ≤ b.refillPerS * (toNs - b.lastNs) :=
      mul_nonneg b.refills.le (by omega)
    omega

/-- A refill brings no allowance. -/
theorem Holds.allowance_refill_le (h : b.Holds) {fromNs toNs nowNs : Int} :
    (b.refill nowNs).allowance fromNs toNs ≤ b.allowance fromNs toNs := by
  by_cases hlast : b.lastNs < fromNs
  · have hle := (h.refill nowNs).allowance_le fromNs toNs
    rw [refill_capacity, refill_refillPerS] at hle
    rw [allowance.eq_def b, if_pos hlast]
    exact hle
  · have htokens := refill_tokensE9_le b nowNs
    have hbefore : ¬ (b.refill nowNs).lastNs < fromNs := by
      rw [refill_lastNs]
      omega
    rw [allowance, if_neg hbefore, allowance, if_neg hlast, refill_refillPerS]
    have hsplit : b.refillPerS * (toNs - b.lastNs) =
        b.refillPerS * (toNs - (b.refill nowNs).lastNs) +
          b.refillPerS * ((b.refill nowNs).lastNs - b.lastNs) := by ring
    omega

/-- What a call grants within the window is taken from the allowance. -/
theorem Holds.granted_add_allowance_le (h : b.Holds) (c : BucketCall) (fromNs toNs : Int) :
    (if fromNs ≤ b.timeOf c ∧ b.timeOf c ≤ toNs then b.granted c else 0) * nsPerS +
      (b.after c).allowance fromNs toNs ≤ b.allowance fromNs toNs := by
  have hrefill := @Holds.allowance_refill_le b h fromNs toNs c.nowNs
  obtain ⟨heq, hnone⟩ | ⟨hpos, -, heq⟩ | ⟨hnone, heq⟩ := after_cases b c
  · rw [hnone, heq, ite_self, zero_mul, zero_add]
  · have hcost : 0 ≤ b.granted c * nsPerS := mul_nonneg hpos (by decide)
    have htime : (b.after c).lastNs = b.timeOf c := by
      rw [heq]
      exact refill_lastNs b c.nowNs
    have hlast : (b.refill c.nowNs).lastNs = b.timeOf c := refill_lastNs b c.nowNs
    by_cases hbefore : b.timeOf c < fromNs
    · rw [if_neg (by omega), zero_mul, zero_add, allowance, htime, if_pos hbefore,
        after_capacity, after_refillPerS]
      rw [allowance, hlast, if_pos hbefore, refill_capacity, refill_refillPerS] at hrefill
      exact hrefill
    · have htokens : (b.after c).tokensE9 =
          (b.refill c.nowNs).tokensE9 - b.granted c * nsPerS := by rw [heq]
      rw [allowance, hlast, if_neg hbefore, refill_refillPerS] at hrefill
      rw [allowance, htime, if_neg hbefore, after_refillPerS, htokens]
      split
      · omega
      · rw [zero_mul]
        omega
  · rw [hnone, heq, ite_self, zero_mul, zero_add]
    exact hrefill

/-- Nothing is granted within a window that is over. -/
theorem grantedWithin_of_lt {toNs : Int} (fromNs : Int) (calls : List BucketCall)
    (h : toNs < b.lastNs) : b.grantedWithin fromNs toNs calls = 0 := by
  induction calls generalizing b with
  | nil => rfl
  | cons c calls ih =>
      have htime : toNs < b.timeOf c := lt_of_lt_of_le h (le_max_left _ _)
      have hrest := ih (lt_of_lt_of_le h (le_after_lastNs b c))
      rw [grantedWithin] at hrest
      rw [grantedWithin, grantedBy, if_neg (by omega), hrest, add_zero]

/-- A run grants no more than its allowance. -/
theorem Holds.grantedWithin_le_allowance (h : b.Holds) {fromNs toNs : Int} (hle : fromNs ≤ toNs)
    (calls : List BucketCall) (hlast : b.lastNs ≤ toNs) :
    b.grantedWithin fromNs toNs calls * nsPerS ≤ b.allowance fromNs toNs := by
  induction calls generalizing b with
  | nil =>
      rw [grantedWithin, grantedBy, zero_mul]
      exact h.allowance_nonneg hle hlast
  | cons c calls ih =>
      have hstep := h.granted_add_allowance_le c fromNs toNs
      rw [grantedWithin, grantedBy, add_mul]
      by_cases hover : (b.after c).lastNs ≤ toNs
      · have hrest := ih (h.after c) hover
        rw [grantedWithin] at hrest
        omega
      · have hnone := grantedWithin_of_lt fromNs calls (not_le.mp hover)
        have htime := after_lastNs_le b c
        have hnonneg := h.allowance_nonneg hle hlast
        rw [grantedWithin] at hnone
        rw [hnone, if_neg (by omega)]
        omega

/-- A run grants no more within a window than a full bucket and what is
refilled in the window. -/
theorem Holds.grantedWithin_le (h : b.Holds) {fromNs toNs : Int} (hle : fromNs ≤ toNs)
    (calls : List BucketCall) :
    b.grantedWithin fromNs toNs calls * nsPerS ≤
      b.capacity * nsPerS + b.refillPerS * (toNs - fromNs) := by
  by_cases hlast : b.lastNs ≤ toNs
  · exact le_trans (h.grantedWithin_le_allowance hle calls hlast) (h.allowance_le fromNs toNs)
  · rw [grantedWithin_of_lt fromNs calls (not_le.mp hlast), zero_mul]
    have hrefilled : 0 ≤ b.refillPerS * (toNs - fromNs) :=
      mul_nonneg b.refills.le (by omega)
    have hcapacity := le_trans h.nonneg h.le_capacity
    omega

theorem new_ok {limits : BucketLimits} {nowNs : Int} (h : new limits nowNs = .ok b) :
    b.Holds ∧ b.refillPerS = limits.refillPerS ∧ b.capacity = limits.capacity ∧
      b.lastNs = nowNs ∧ b.tokensE9 = limits.capacity * nsPerS := by
  rw [new] at h
  split at h
  · cases h
  · next hpos =>
      split at h
      · cases h
      · obtain rfl := Except.ok.inj h
        have hfull : 0 ≤ limits.capacity * nsPerS := mul_nonneg (by omega) (by decide)
        exact ⟨⟨hfull, le_refl _⟩, rfl, rfl, rfl, rfl⟩

/-- While no reading is below one before it, the readings are the bucket's
time. -/
theorem grantedBetween_eq {fromNs toNs : Int} (calls : List BucketCall)
    (h : (b.lastNs :: calls.map BucketCall.nowNs).Pairwise (· ≤ ·)) :
    b.grantedBetween fromNs toNs calls = b.grantedWithin fromNs toNs calls := by
  induction calls generalizing b with
  | nil => rfl
  | cons c calls ih =>
      obtain ⟨hfirst, hrest⟩ := List.pairwise_cons.mp h
      have hnow : b.lastNs ≤ c.nowNs := hfirst _ List.mem_cons_self
      have htime : b.timeOf c = c.nowNs := max_eq_right hnow
      have hnext : ((b.after c).lastNs :: calls.map BucketCall.nowNs).Pairwise (· ≤ ·) := by
        rw [List.map_cons, List.pairwise_cons] at hrest
        refine List.pairwise_cons.mpr ⟨fun t ht => ?_, hrest.2⟩
        exact le_trans (after_lastNs_le b c) (htime ▸ hrest.1 t ht)
      have hcalls := ih hnext
      rw [grantedBetween, grantedWithin] at hcalls
      rw [grantedBetween, grantedWithin, grantedBy, grantedBy, htime, hcalls]

/-! ## Waiting -/

theorem ceil_bounds {s r : Int} (hr : 0 < r) :
    s ≤ -(-s / r) * r ∧ (-(-s / r) - 1) * r < s := by
  have hlow := Int.ediv_mul_le (-s) hr.ne'
  have hhigh := Int.lt_ediv_add_one_mul_self (-s) hr
  constructor
  · rw [neg_mul]
    omega
  · have hflip : (-(-s / r) - 1) * r = -((-s / r + 1) * r) := by ring
    omega

/-- The wait is exact: the tokens are there when it is over, counted from the
bucket's time, and not a nanosecond earlier. -/
theorem Holds.waitNs_exact (h : b.Holds) {k t w : Int} (hwait : b.waitNs k t = .ok (w, b')) :
    (∃ b'', b'.tryTake k (max b.lastNs t + w) = .ok (true, b'')) ∧
      (0 < w → ∃ b'', b'.tryTake k (max b.lastNs t + w - 1) = .ok (false, b'')) := by
  obtain ⟨⟨hpos, hle⟩, rfl, hw⟩ := waitNs_cases hwait
  have hholds := h.refill t
  have hk : 0 < k ∧ k ≤ (b.refill t).capacity := by
    rw [refill_capacity]
    exact ⟨hpos, hle⟩
  rw [← refill_lastNs]
  generalize b.refill t = b' at hholds hk hw
  have hcost : k * nsPerS ≤ b'.capacity * nsPerS :=
    mul_le_mul_of_nonneg_right hk.2 (by decide)
  have hcapacity := hholds.le_capacity
  split at hw
  · next henough =>
      subst hw
      refine ⟨⟨_, tryTake_of_enough hk ?_⟩, fun hlt => absurd hlt (lt_irrefl 0)⟩
      rw [refill_tokensE9 (by omega) hcapacity]
      have hsame : b'.lastNs + 0 - b'.lastNs = 0 := by omega
      rw [hsame, zero_mul]
      omega
  · next hshort =>
      obtain ⟨hdone, hearly⟩ := @ceil_bounds (k * nsPerS - b'.tokensE9) _ b'.refills
      rw [← hw] at hdone hearly
      -- a shortfall takes at least a nanosecond to make up
      have hwpos : 0 < w := by
        by_contra hneg
        have hzero : w * b'.refillPerS ≤ 0 :=
          mul_nonpos_of_nonpos_of_nonneg (by omega) b'.refills.le
        omega
      have hlater : b'.lastNs + w - b'.lastNs = w := by omega
      have hbefore : b'.lastNs + w - 1 - b'.lastNs = w - 1 := by omega
      refine ⟨⟨_, tryTake_of_enough hk ?_⟩, fun _ => ⟨_, tryTake_of_short hk ?_⟩⟩
      · rw [refill_tokensE9 (by omega) hcapacity, hlater]
        omega
      · rw [refill_tokensE9 (by omega) hcapacity, hbefore]
        omega

/-! ## What a bucket promises -/

/-- Whatever readings its calls are made at, a bucket keeps what it holds
within its capacity, grants no more in a window of its time than its capacity
and the refill of the window, and tells a wait to the nanosecond. Its time is
the highest reading it was told, so the readings themselves while they never
decrease. -/
theorem bucket_promises {limits : BucketLimits} {nowNs : Int} (hnew : new limits nowNs = .ok b)
    (calls : List BucketCall) :
    (Run.final after b calls).lastNs = (b.told calls).foldl max nowNs ∧
      (0 ≤ (Run.final after b calls).tokensE9 ∧
        (Run.final after b calls).tokensE9 ≤ limits.capacity * nsPerS) ∧
      (∀ t₁ t₂, t₁ ≤ t₂ → b.grantedWithin t₁ t₂ calls * nsPerS ≤
        limits.capacity * nsPerS + limits.refillPerS * (t₂ - t₁)) ∧
      ((nowNs :: calls.map BucketCall.nowNs).Pairwise (· ≤ ·) → ∀ t₁ t₂,
        b.grantedBetween t₁ t₂ calls = b.grantedWithin t₁ t₂ calls) ∧
      ∀ k t w s, (Run.final after b calls).waitNs k t = .ok (w, s) →
        (∃ s', s.tryTake k (max (Run.final after b calls).lastNs t + w) = .ok (true, s')) ∧
          (0 < w →
            ∃ s', s.tryTake k (max (Run.final after b calls).lastNs t + w - 1) =
              .ok (false, s')) := by
  obtain ⟨hholds, hrefill, hcapacity, hlast, -⟩ := new_ok hnew
  obtain ⟨hrun, -, hkept⟩ := hholds.run calls
  refine ⟨hlast ▸ run_lastNs b calls, ⟨hrun.nonneg, ?_⟩, fun t₁ t₂ hle => ?_,
    fun hreadings t₁ t₂ => ?_, fun k t w s hwait => hrun.waitNs_exact hwait⟩
  · rw [← hcapacity, ← hkept]
    exact hrun.le_capacity
  · rw [← hcapacity, ← hrefill]
    exact hholds.grantedWithin_le hle calls
  · rw [← hlast] at hreadings
    exact grantedBetween_eq calls hreadings

end TokenBucket

/-- `BASIC_READ`: 200 tokens per second with two seconds of burst. -/
def basicRead : BucketLimits := ⟨200, 400⟩

namespace TokenBucket

/-- A full bucket for reads at the basic tier. -/
def fullBasicRead : TokenBucket := ⟨200, 400, 400000000000, 0, by decide, by decide⟩

/-- The burst, a refill of a second, and the wait for one token more. -/
theorem basicRead_promises :
    new basicRead 0 = .ok fullBasicRead ∧
      fullBasicRead.grantedBetween 0 1000000000 [.tryTake 400 0, .tryTake 200 1000000000] *
          nsPerS ≤ 400 * nsPerS + 200 * (1000000000 - 0) ∧
      ∃ s w, (Run.final after fullBasicRead
          [.tryTake 400 0, .tryTake 200 1000000000]).waitNs 1 1000000000 = .ok (w, s) ∧
        ∃ s', s.tryTake 1 (1000000000 + w) = .ok (true, s') := by
  have hnew : new basicRead 0 = .ok fullBasicRead := rfl
  obtain ⟨-, -, hwindow, htime, hwait⟩ :=
    bucket_promises hnew [.tryTake 400 0, .tryTake 200 1000000000]
  refine ⟨hnew, ?_, _, 5000000, rfl, (hwait 1 1000000000 5000000 _ rfl).1⟩
  rw [htime (by decide)]
  exact hwindow 0 1000000000 (by decide)

/-- A bucket of 100 tokens that fills in a second: its time, and what it
holds. -/
def emptied (lastNs tokensE9 : Int) : TokenBucket :=
  ⟨100, 100, tokensE9, lastNs, by decide, by decide⟩

/-- A reading that runs ahead and back: the bucket grants its capacity twice at
one reading, and a wait counted from the lower reading is too short. -/
theorem stepped_back_overdraws :
    new ⟨100, 100⟩ 0 = .ok (emptied 0 100000000000) ∧
      ¬ (emptied 0 100000000000).grantedBetween 0 0
            [.tryTake 100 0, .tokens 1000000000, .tryTake 100 0] * nsPerS ≤
          100 * nsPerS + 100 * (0 - 0) ∧
      Run.final after (emptied 0 100000000000)
          [.tryTake 100 0, .tokens 1000000000, .tryTake 100 0] = emptied 1000000000 0 ∧
      (emptied 1000000000 0).waitNs 100 0 = .ok (1000000000, emptied 1000000000 0) ∧
      (emptied 1000000000 0).tryTake 100 (0 + 1000000000) =
        .ok (false, emptied 1000000000 0) := by
  refine ⟨rfl, by decide, rfl, rfl, rfl⟩

end TokenBucket

end Tape
