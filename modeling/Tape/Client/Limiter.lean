import Mathlib
import Tape.Client.Bucket

/-!
# Resizing the limiter

`BucketRateLimiter` of `tape.client.ratelimit`, seen from one of its two
buckets; the other has a lock and callers of its own. An `acquire` chooses the
bucket it draws on when it is called, then waits for the lock, and then takes
turns: it tries, and sleeps when the bucket is short. `resize` puts a new
bucket in the old one's place, and the lock stays.

So the calls under way at a resize go on drawing on the bucket they chose, next
to the calls that come later. Where there is none, all that is granted comes
out of the new bucket, and a window costs it no more than its allowance. Where
there is one that its bucket can serve, it is served at last, and a call that
takes the new bucket's capacity at the same reading makes the two together
exceed it (`resize_takes_effect_iff`).
-/

namespace Tape

/-- An `acquire` under way: its cost, and the bucket it chose, by number. -/
structure Caller where
  cost : Int
  target : Nat
  deriving DecidableEq, Repr

/-- One bucket of the limiter, with its lock and its callers. -/
structure Lane where
  /-- The last reading of the clock. -/
  nowNs : Int
  /-- Every bucket there was, by number. -/
  bucket : Nat → TokenBucket
  /-- The bucket `acquire` chooses. -/
  current : Nat
  /-- The calls under way, first the one that has the lock, or gets it next. -/
  line : List Caller

/-- What can happen next. The clock never runs back: each event says how much
later than the last reading its own is, and its second one. -/
inductive LaneEvent where
  | acquire (cost : Int) (elapsedNs againNs : Nat)
  /-- The first of the line takes a turn: it got the lock, or its sleep is over. -/
  | proceed (elapsedNs againNs : Nat)
  /-- A call under way is cancelled. -/
  | cancel (i : Nat)
  | resize (limits : BucketLimits) (elapsedNs : Nat)
  deriving DecidableEq, Repr

namespace LaneEvent

/-- The time that has passed before an event. -/
def elapsedNs : LaneEvent → Nat
  | .acquire _ elapsedNs _ => elapsedNs
  | .proceed elapsedNs _ => elapsedNs
  | .cancel _ => 0
  | .resize _ elapsedNs => elapsedNs

/-- The limits are changed. -/
def isResize : LaneEvent → Bool
  | .resize _ _ => true
  | _ => false

end LaneEvent

/-- How a turn ends: the cost is refused, or taken, or the caller sleeps. -/
inductive Turn where
  | refused
  | taken
  | sleeps
  deriving DecidableEq, Repr

namespace TokenBucket

/-- A turn of the loop in `acquire`, with its two readings. How long the caller
means to sleep is not kept: it goes on at whatever reading it wakes at. -/
def turn (b : TokenBucket) (cost nowNs againNs : Int) : Turn × TokenBucket :=
  match b.tryTake cost nowNs with
  | .error _ => (.refused, b)
  | .ok (true, b) => (.taken, b)
  | .ok (false, b) =>
      match b.waitNs cost againNs with
      | .error _ => (.refused, b)
      | .ok (_, b) => (.sleeps, b)

end TokenBucket

namespace Lane

/-- A lane that nobody waits in. -/
def new (limits : BucketLimits) (nowNs : Int) : Except BucketError Lane :=
  match TokenBucket.new limits nowNs with
  | .error e => .error e
  | .ok b => .ok ⟨nowNs, fun _ => b, 0, []⟩

/-- A call takes a turn, with the others behind it. -/
def attend (s : Lane) (c : Caller) (rest : List Caller) (againNs : Nat) : Lane :=
  let (turn, b) := (s.bucket c.target).turn c.cost s.nowNs (s.nowNs + againNs)
  { s with
    nowNs := if turn = .sleeps then s.nowNs + againNs else s.nowNs
    bucket := Function.update s.bucket c.target b
    line := if turn = .sleeps then c :: rest else rest }

/-- Time passes. -/
def pass (s : Lane) (elapsedNs : Nat) : Lane := { s with nowNs := s.nowNs + elapsedNs }

/-- One event of the lane. -/
def step (s : Lane) : LaneEvent → Lane
  | .acquire cost elapsedNs againNs =>
      let s := s.pass elapsedNs
      let c : Caller := ⟨cost, s.current⟩
      -- a lock that nobody holds or waits for is taken at once
      match s.line with
      | [] => s.attend c [] againNs
      | _ => { s with line := s.line ++ [c] }
  | .proceed elapsedNs againNs =>
      let s := s.pass elapsedNs
      match s.line with
      | [] => s
      | c :: rest => s.attend c rest againNs
  | .cancel i => { s with line := s.line.eraseIdx i }
  | .resize limits elapsedNs =>
      let s := s.pass elapsedNs
      match TokenBucket.new limits s.nowNs with
      | .error _ => s
      | .ok b =>
          { s with
            bucket := Function.update s.bucket (s.current + 1) b
            current := s.current + 1 }

/-- The call that takes a turn. -/
def turns (s : Lane) : LaneEvent → Option Caller
  | .acquire cost _ _ => if s.line = [] then some ⟨cost, s.current⟩ else none
  | .proceed _ _ => s.line.head?
  | _ => none

/-- The tokens granted by an `acquire` that returns. -/
def granted (s : Lane) (e : LaneEvent) : Int :=
  match s.turns e with
  | none => 0
  | some c => (s.bucket c.target).granted (.tryTake c.cost (s.nowNs + e.elapsedNs))

/-- The tokens granted from one reading to another. -/
def grantedWithin (fromNs toNs : Int) : Lane → List LaneEvent → Int
  | _, [] => 0
  | s, e :: es =>
      (if fromNs ≤ s.nowNs + e.elapsedNs ∧ s.nowNs + e.elapsedNs ≤ toNs then s.granted e else 0) +
        grantedWithin fromNs toNs (s.step e) es

/-- The bucket the caller chose can hold what it asks for. -/
def Allows (s : Lane) (c : Caller) : Prop := 0 < c.cost ∧ c.cost ≤ (s.bucket c.target).capacity

instance (s : Lane) : DecidablePred s.Allows :=
  fun c => inferInstanceAs (Decidable (0 < c.cost ∧ c.cost ≤ (s.bucket c.target).capacity))

end Lane

namespace TokenBucket

variable {b : TokenBucket}

/-- A turn is a try, and one that sleeps a look at the wait as well. -/
theorem turn_cases (b : TokenBucket) (cost nowNs againNs : Int) :
    (¬ (0 < cost ∧ cost ≤ b.capacity) ∧
        b.turn cost nowNs againNs = (.refused, b.after (.tryTake cost nowNs)) ∧
        b.granted (.tryTake cost nowNs) = 0) ∨
      ((0 < cost ∧ cost ≤ b.capacity) ∧
        b.turn cost nowNs againNs = (.taken, b.after (.tryTake cost nowNs)) ∧
        b.granted (.tryTake cost nowNs) = cost ∧
        cost * nsPerS ≤ (b.refill nowNs).tokensE9) ∨
      ((0 < cost ∧ cost ≤ b.capacity) ∧
        b.turn cost nowNs againNs =
          (.sleeps, (b.after (.tryTake cost nowNs)).after (.waitNs cost againNs)) ∧
        b.granted (.tryTake cost nowNs) = 0 ∧ (b.refill nowNs).tokensE9 < cost * nsPerS) := by
  by_cases hcost : 0 < cost ∧ cost ≤ b.capacity
  · by_cases henough : cost * nsPerS ≤ (b.refill nowNs).tokensE9
    · have htake := tryTake_of_enough hcost henough
      refine .inr (.inl ⟨hcost, ?_, ?_, henough⟩)
      · rw [turn, after, htake]
      · rw [granted, htake]
    · have htake := tryTake_of_short hcost (not_le.mp henough)
      have hcheck : (b.refill nowNs).check cost = .ok () := by
        rw [check_ok_iff, refill_capacity]
        exact hcost
      obtain ⟨w, hwait⟩ := waitNs_of_check againNs hcheck
      refine .inr (.inr ⟨hcost, ?_, ?_, not_le.mp henough⟩)
      · rw [turn, after, after, htake]
        dsimp only
        rw [hwait]
      · rw [granted, htake]
  · obtain ⟨e, hrefused⟩ := tryTake_of_refused hcost
    refine .inl ⟨hcost, ?_, ?_⟩
    · rw [turn, after, hrefused]
    · rw [granted, hrefused]

theorem granted_tryTake_nonneg (b : TokenBucket) (cost nowNs : Int) :
    0 ≤ b.granted (.tryTake cost nowNs) := by
  obtain ⟨-, -, h⟩ | ⟨hcost, -, h, -⟩ | ⟨-, -, h, -⟩ := turn_cases b cost nowNs nowNs
  · exact h.ge
  · rw [h]
    exact hcost.1.le
  · exact h.ge

end TokenBucket

namespace Lane

variable {s : Lane} {c : Caller} {rest : List Caller}

/-! ## The buckets of a lane -/

/-- Every bucket holds what it can, and was told no later reading. -/
structure Sound (s : Lane) : Prop where
  holds : ∀ i, (s.bucket i).Holds
  told : ∀ i, (s.bucket i).lastNs ≤ s.nowNs

/-- Every call chose a bucket there was. -/
def Known (s : Lane) : Prop := ∀ c ∈ s.line, c.target ≤ s.current

/-- What a turn does: the bucket the call chose makes the call, and the line
moves up unless it sleeps. -/
theorem attend_spec (s : Lane) (c : Caller) (rest : List Caller) (againNs : Nat) :
    (s.attend c rest againNs).current = s.current ∧
      (∀ i, i ≠ c.target → (s.attend c rest againNs).bucket i = s.bucket i) ∧
      ((s.attend c rest againNs).line = rest ∧ (s.attend c rest againNs).nowNs = s.nowNs ∧
          (s.attend c rest againNs).bucket c.target =
            (s.bucket c.target).after (.tryTake c.cost s.nowNs) ∨
        (s.attend c rest againNs).line = c :: rest ∧
          (s.attend c rest againNs).nowNs = s.nowNs + againNs ∧
          (s.Allows c ∧ (s.bucket c.target).granted (.tryTake c.cost s.nowNs) = 0) ∧
          (s.attend c rest againNs).bucket c.target =
            ((s.bucket c.target).after (.tryTake c.cost s.nowNs)).after
              (.waitNs c.cost (s.nowNs + againNs))) := by
  obtain ⟨-, hturn, -⟩ | ⟨-, hturn, -⟩ | ⟨hcost, hturn, hnone, -⟩ :=
    TokenBucket.turn_cases (s.bucket c.target) c.cost s.nowNs (s.nowNs + againNs)
  all_goals
    rw [attend, hturn]
    refine ⟨rfl, fun i hi => Function.update_of_ne hi _ _, ?_⟩
  · exact .inl ⟨rfl, rfl, Function.update_self ..⟩
  · exact .inl ⟨rfl, rfl, Function.update_self ..⟩
  · exact .inr ⟨rfl, rfl, ⟨hcost, hnone⟩, Function.update_self ..⟩

/-- Where one bucket changes, it is enough to look at this one. -/
theorem Sound.change {s' : Lane} (h : s.Sound) {i : Nat} (hnow : s.nowNs ≤ s'.nowNs)
    (hothers : ∀ j, j ≠ i → s'.bucket j = s.bucket j) (hholds : (s'.bucket i).Holds)
    (htold : (s'.bucket i).lastNs ≤ s'.nowNs) : s'.Sound := by
  constructor
  · intro j
    by_cases hj : j = i
    · exact hj ▸ hholds
    · rw [hothers j hj]
      exact h.holds j
  · intro j
    by_cases hj : j = i
    · exact hj ▸ htold
    · rw [hothers j hj]
      exact le_trans (h.told j) hnow

theorem Sound.attend (h : s.Sound) (c : Caller) (rest : List Caller) (againNs : Nat) :
    (s.attend c rest againNs).Sound := by
  have htry := (h.holds c.target).after (.tryTake c.cost s.nowNs)
  have htime : ((s.bucket c.target).after (.tryTake c.cost s.nowNs)).lastNs ≤ s.nowNs :=
    le_trans (TokenBucket.after_lastNs_le _ _) (max_le (h.told c.target) (le_refl _))
  obtain ⟨-, hothers, ⟨-, hnow, hafter⟩ | ⟨-, hnow, -, hafter⟩⟩ := attend_spec s c rest againNs
  · refine h.change hnow.ge hothers (hafter ▸ htry) ?_
    rw [hafter, hnow]
    exact htime
  · refine h.change (by omega) hothers (hafter ▸ htry.after _) ?_
    rw [hafter, hnow]
    exact le_trans (TokenBucket.after_lastNs_le _ _) (max_le (by omega) (le_refl _))

theorem Sound.pass (h : s.Sound) (elapsedNs : Nat) : (s.pass elapsedNs).Sound :=
  ⟨h.holds, fun i => le_trans (h.told i) (show s.nowNs ≤ s.nowNs + elapsedNs by omega)⟩

/-- What an event does: a call takes a turn; or the line changes and no bucket
does; or there is a new bucket. -/
theorem step_cases (s : Lane) (e : LaneEvent) :
    (∃ c rest againNs, s.turns e = some c ∧ e.isResize = false ∧
        s.step e = (s.pass e.elapsedNs).attend c rest againNs ∧
        (c.target = s.current ∨ c ∈ s.line) ∧ ∀ c' ∈ rest, c' ∈ s.line) ∨
      (s.turns e = none ∧ (s.step e).bucket = s.bucket ∧ (s.step e).current = s.current ∧
        (s.step e).nowNs = s.nowNs + e.elapsedNs ∧
        ∀ c ∈ (s.step e).line, c.target = s.current ∨ c ∈ s.line) ∨
      (∃ limits b, e = .resize limits e.elapsedNs ∧
        TokenBucket.new limits (s.nowNs + e.elapsedNs) = .ok b ∧ s.turns e = none ∧
        s.step e =
          { s.pass e.elapsedNs with
            bucket := Function.update s.bucket (s.current + 1) b
            current := s.current + 1 }) := by
  cases e with
  | acquire cost elapsedNs againNs =>
      cases hline : s.line with
      | nil =>
          refine .inl ⟨⟨cost, s.current⟩, [], againNs, ?_, rfl, ?_, .inl rfl, nofun⟩
          · rw [turns, if_pos hline]
          · have hpass : (s.pass elapsedNs).line = [] := hline
            rw [step, hpass]
            rfl
      | cons c rest =>
          have hpass : (s.pass elapsedNs).line = c :: rest := hline
          have hstep : s.step (.acquire cost elapsedNs againNs) =
              { s.pass elapsedNs with line := s.line ++ [⟨cost, s.current⟩] } := by
            rw [step]
            dsimp only
            rw [hpass, hline]
            rfl
          rw [hstep]
          refine .inr (.inl ⟨?_, rfl, rfl, rfl, fun c' hc' => ?_⟩)
          · rw [turns, hline, if_neg nofun]
          · rcases List.mem_append.mp hc' with hc' | hc'
            · exact .inr (hline ▸ hc')
            · obtain rfl := List.mem_singleton.mp hc'
              exact .inl rfl
  | proceed elapsedNs againNs =>
      cases hline : s.line with
      | nil =>
          have hpass : (s.pass elapsedNs).line = [] := hline
          have hstep : s.step (.proceed elapsedNs againNs) = s.pass elapsedNs := by
            rw [step, hpass]
          rw [hstep]
          refine .inr (.inl ⟨?_, rfl, rfl, rfl, fun c' hc' => .inr ?_⟩)
          · rw [turns, hline]
            rfl
          · exact hline ▸ hc'
      | cons c rest =>
          have hpass : (s.pass elapsedNs).line = c :: rest := hline
          refine .inl ⟨c, rest, againNs, ?_, rfl, ?_, .inr List.mem_cons_self, fun c' hc' =>
            List.mem_cons_of_mem _ hc'⟩
          · rw [turns, hline]
            rfl
          · rw [step, hpass]
            rfl
  | cancel i =>
      refine .inr (.inl ⟨rfl, rfl, rfl, (add_zero _).symm, fun c hc => .inr ?_⟩)
      exact List.mem_of_mem_eraseIdx hc
  | resize limits elapsedNs =>
      cases hnew : TokenBucket.new limits (s.nowNs + elapsedNs) with
      | error e =>
          have hstep : s.step (.resize limits elapsedNs) = s.pass elapsedNs := by
            have hpass : TokenBucket.new limits (s.pass elapsedNs).nowNs = .error e := hnew
            rw [step, hpass]
          rw [hstep]
          exact .inr (.inl ⟨rfl, rfl, rfl, rfl, fun c hc => .inr hc⟩)
      | ok b =>
          refine .inr (.inr ⟨limits, b, rfl, hnew, rfl, ?_⟩)
          have hpass : TokenBucket.new limits (s.pass elapsedNs).nowNs = .ok b := hnew
          rw [step, hpass]
          rfl

theorem Sound.step (h : s.Sound) (e : LaneEvent) : (s.step e).Sound := by
  have hpass := h.pass e.elapsedNs
  obtain ⟨c, rest, againNs, -, -, hstep, -⟩ | ⟨-, hbucket, -, hnow, -⟩ |
    ⟨limits, b, -, hnew, -, hstep⟩ :=
    step_cases s e
  · rw [hstep]
    exact hpass.attend c rest againNs
  · refine ⟨fun i => hbucket ▸ h.holds i, fun i => ?_⟩
    rw [hbucket, hnow]
    exact hpass.told i
  · obtain ⟨hholds, -, -, hlast, -⟩ := TokenBucket.new_ok hnew
    rw [hstep]
    refine @Sound.change _ _ hpass (s.current + 1) (le_refl _)
      (fun j hj => Function.update_of_ne hj _ _) ?_ ?_
    · dsimp only
      rw [Function.update_self]
      exact hholds
    · dsimp only
      rw [Function.update_self]
      exact hlast.le

theorem Known.step (h : s.Known) (e : LaneEvent) : (s.step e).Known := by
  have hknown : ∀ c : Caller, c.target = s.current ∨ c ∈ s.line → c.target ≤ s.current :=
    fun c hc => hc.elim (fun heq => heq.le) (h c)
  obtain ⟨c, rest, againNs, -, -, hstep, hc, hrest⟩ | ⟨-, -, hcurrent, -, hline⟩ |
    ⟨limits, b, -, -, -, hstep⟩ := step_cases s e
  · obtain ⟨hcurrent, -, ⟨hline, -⟩ | ⟨hline, -⟩⟩ :=
      attend_spec (s.pass e.elapsedNs) c rest againNs
    · rw [hstep, Known, hline, hcurrent]
      exact fun c' hc' => h c' (hrest c' hc')
    · rw [hstep, Known, hline, hcurrent]
      exact List.forall_mem_cons.mpr ⟨hknown c hc, fun c' hc' => h c' (hrest c' hc')⟩
  · rw [Known, hcurrent]
    exact fun c hc => hknown c (hline c hc)
  · rw [hstep]
    exact fun c hc => le_trans (h c hc) (Nat.le_succ _)

theorem Sound.run (h : s.Sound) (es : List LaneEvent) : (Run.final Lane.step s es).Sound := by
  induction es generalizing s with
  | nil => exact h
  | cons e es ih => exact ih (h.step e)

theorem Known.run (h : s.Known) (es : List LaneEvent) : (Run.final Lane.step s es).Known := by
  induction es generalizing s with
  | nil => exact h
  | cons e es ih => exact ih (h.step e)

/-- What holds of a lane at all times. -/
theorem reachable {limits : BucketLimits} {nowNs : Int} (hnew : new limits nowNs = .ok s)
    (es : List LaneEvent) : (Run.final step s es).Sound ∧ (Run.final step s es).Known := by
  rw [new] at hnew
  split at hnew
  · cases hnew
  · next b hb =>
      obtain rfl := Except.ok.inj hnew
      obtain ⟨hholds, -, -, hlast, -⟩ := TokenBucket.new_ok hb
      have hsound : Sound ⟨nowNs, fun _ => b, 0, []⟩ := ⟨fun _ => hholds, fun _ => hlast.le⟩
      have hknown : Known ⟨nowNs, fun _ => b, 0, []⟩ := nofun
      exact ⟨hsound.run es, hknown.run es⟩

/-! ## Nobody under way -/

theorem attend_capacity (s : Lane) (c : Caller) (rest : List Caller) (againNs i : Nat) :
    ((s.attend c rest againNs).bucket i).capacity = (s.bucket i).capacity := by
  obtain ⟨-, hothers, ⟨-, -, hafter⟩ | ⟨-, -, -, hafter⟩⟩ := attend_spec s c rest againNs
  all_goals by_cases hi : i = c.target
  · rw [hi, hafter, TokenBucket.after_capacity]
  · rw [hothers i hi]
  · rw [hi, hafter, TokenBucket.after_capacity, TokenBucket.after_capacity]
  · rw [hothers i hi]

theorem attend_allows_iff {c' : Caller} {againNs : Nat} :
    (s.attend c rest againNs).Allows c' ↔ s.Allows c' := by
  rw [Allows, attend_capacity, Allows]

/-- A cost that is refused takes nothing. -/
theorem after_of_refused {nowNs : Int} (h : ¬ s.Allows c) :
    (s.bucket c.target).after (.tryTake c.cost nowNs) = s.bucket c.target ∧
      (s.bucket c.target).granted (.tryTake c.cost nowNs) = 0 := by
  obtain ⟨e, hrefused⟩ := @TokenBucket.tryTake_of_refused _ _ nowNs h
  constructor
  · rw [TokenBucket.after, hrefused]
  · rw [TokenBucket.granted, hrefused]

/-- A turn on a bucket takes what it grants from the bucket's allowance. -/
theorem Sound.attend_allowance_le (h : s.Sound) {g : Nat} (hc : c.target = g ∨ ¬ s.Allows c)
    (rest : List Caller) (againNs : Nat) (fromNs toNs : Int) :
    (if fromNs ≤ s.nowNs ∧ s.nowNs ≤ toNs then
        (s.bucket c.target).granted (.tryTake c.cost s.nowNs) else 0) * nsPerS +
      ((s.attend c rest againNs).bucket g).allowance fromNs toNs ≤
        (s.bucket g).allowance fromNs toNs := by
  obtain ⟨-, hothers, hturn⟩ := attend_spec s c rest againNs
  by_cases hallows : s.Allows c
  · obtain rfl : c.target = g := hc.resolve_right (not_not.mpr hallows)
    have htry := (h.holds c.target).granted_add_allowance_le (.tryTake c.cost s.nowNs) fromNs toNs
    have htime : (s.bucket c.target).timeOf (.tryTake c.cost s.nowNs) = s.nowNs :=
      max_eq_right (h.told c.target)
    rw [htime] at htry
    obtain ⟨-, -, hafter⟩ | ⟨-, -, -, hafter⟩ := hturn
    · rw [hafter]
      exact htry
    · have hwait := ((h.holds c.target).after (.tryTake c.cost s.nowNs)).granted_add_allowance_le
        (.waitNs c.cost (s.nowNs + againNs)) fromNs toNs
      have hnone : ((s.bucket c.target).after (.tryTake c.cost s.nowNs)).granted
        (.waitNs c.cost (s.nowNs + againNs)) = 0 := rfl
      rw [hnone, ite_self, zero_mul, zero_add] at hwait
      rw [hafter]
      omega
  · obtain ⟨hsame, hnone⟩ := @after_of_refused s c s.nowNs hallows
    rw [hnone, ite_self, zero_mul, zero_add]
    by_cases hg : g = c.target
    · subst hg
      obtain ⟨-, -, hafter⟩ | ⟨-, -, -, hafter⟩ := hturn
      · rw [hafter, hsame]
      · have hwait := (h.holds c.target).granted_add_allowance_le
          (.waitNs c.cost (s.nowNs + againNs)) fromNs toNs
        have hnone : (s.bucket c.target).granted (.waitNs c.cost (s.nowNs + againNs)) = 0 := rfl
        rw [hnone, ite_self, zero_mul, zero_add] at hwait
        rw [hafter, hsame]
        exact hwait
    · rw [hothers g hg]

/-- Whoever draws on a bucket other than the current one is refused. -/
structure Settled (s : Lane) : Prop where
  sound : s.Sound
  line : ∀ c ∈ s.line, c.target = s.current ∨ ¬ s.Allows c

/-- What one event does to a settled lane: it stays settled, and what is
granted is taken from the allowance of the current bucket. -/
theorem Settled.step (h : s.Settled) {e : LaneEvent} (he : e.isResize = false)
    (fromNs toNs : Int) :
    (s.step e).Settled ∧ (s.step e).current = s.current ∧
      (if fromNs ≤ s.nowNs + e.elapsedNs ∧ s.nowNs + e.elapsedNs ≤ toNs then s.granted e
        else 0) * nsPerS + ((s.step e).bucket s.current).allowance fromNs toNs ≤
          (s.bucket s.current).allowance fromNs toNs := by
  have hpass := h.sound.pass e.elapsedNs
  have hsound := h.sound.step e
  have hdraws : ∀ c : Caller, c.target = s.current ∨ c ∈ s.line →
      c.target = s.current ∨ ¬ s.Allows c := fun c hc => hc.elim .inl (h.line c)
  obtain ⟨c, rest, againNs, hturns, -, hstep, hc, hrest⟩ |
    ⟨hturns, hbucket, hcurrent, hnow, hline⟩ | ⟨limits, b, hresize, -⟩ := step_cases s e
  · obtain ⟨hcurrent, -, hturn⟩ := attend_spec (s.pass e.elapsedNs) c rest againNs
    rw [granted, hturns, hstep]
    rw [hstep] at hsound
    refine ⟨⟨hsound, fun c' hc' => ?_⟩, hcurrent,
      hpass.attend_allowance_le (hdraws c hc) rest againNs fromNs toNs⟩
    rw [hcurrent, attend_allows_iff]
    obtain ⟨hline, -⟩ | ⟨hline, -⟩ := hturn
    · exact h.line c' (hrest c' (hline ▸ hc'))
    · rcases List.mem_cons.mp (hline ▸ hc') with rfl | hc'
      · exact hdraws c' hc
      · exact h.line c' (hrest c' hc')
  · rw [granted, hturns, hbucket]
    dsimp only
    rw [ite_self, zero_mul, zero_add]
    refine ⟨⟨hsound, fun c hc => ?_⟩, hcurrent, le_refl _⟩
    rw [hcurrent, Allows, hbucket]
    exact hdraws c (hline c hc)
  · rw [hresize] at he
    cases he

/-- The clock of a lane never runs back. -/
theorem le_step_nowNs (s : Lane) (e : LaneEvent) :
    s.nowNs + e.elapsedNs ≤ (s.step e).nowNs := by
  obtain ⟨c, rest, againNs, -, -, hstep, -⟩ | ⟨-, -, -, hnow, -⟩ | ⟨limits, b, -, -, -, hstep⟩ :=
    step_cases s e
  · obtain ⟨-, -, ⟨-, hnow, -⟩ | ⟨-, hnow, -⟩⟩ :=
      attend_spec (s.pass e.elapsedNs) c rest againNs
    · rw [hstep, hnow]
      exact le_refl _
    · rw [hstep, hnow]
      exact Int.le_add_of_nonneg_right (Int.natCast_nonneg _)
  · exact hnow.ge
  · rw [hstep]
    exact le_refl _

/-- A call that is granted its tokens takes them at the reading of its try. -/
theorem step_nowNs_of_granted {e : LaneEvent} (h : s.granted e ≠ 0) :
    (s.step e).nowNs = s.nowNs + e.elapsedNs := by
  obtain ⟨c, rest, againNs, hturns, -, hstep, -⟩ | ⟨-, -, -, hnow, -⟩ |
    ⟨limits, b, -, -, -, hstep⟩ :=
    step_cases s e
  · obtain ⟨-, -, ⟨-, hnow, -⟩ | ⟨-, -, ⟨-, hnone⟩, -⟩⟩ :=
      attend_spec (s.pass e.elapsedNs) c rest againNs
    · rw [hstep, hnow]
      rfl
    · rw [granted, hturns] at h
      exact absurd hnone h
  · exact hnow
  · rw [hstep]
    rfl

/-- Nothing is granted within a window that is over. -/
theorem grantedWithin_of_lt {fromNs toNs : Int} (later : List LaneEvent) (h : toNs < s.nowNs) :
    grantedWithin fromNs toNs s later = 0 := by
  induction later generalizing s with
  | nil => rfl
  | cons e later ih =>
      have hnow := le_step_nowNs s e
      rw [grantedWithin, if_neg (by omega), zero_add]
      exact ih (by omega)

/-- What is granted from now on is taken from the allowance. -/
theorem Settled.grantedWithin_le (h : s.Settled) {later : List LaneEvent}
    (hlater : ∀ e ∈ later, e.isResize = false) {fromNs toNs : Int} (hle : fromNs ≤ toNs)
    (hlast : (s.bucket s.current).lastNs ≤ toNs) :
    grantedWithin fromNs toNs s later * nsPerS ≤ (s.bucket s.current).allowance fromNs toNs := by
  induction later generalizing s with
  | nil =>
      rw [grantedWithin, zero_mul]
      exact (h.sound.holds _).allowance_nonneg hle hlast
  | cons e later ih =>
      have hrest := fun e he => hlater e (List.mem_cons_of_mem _ he)
      obtain ⟨hnext, hcurrent, hgranted⟩ := h.step (hlater e List.mem_cons_self) fromNs toNs
      rw [grantedWithin, add_mul]
      by_cases hover : ((s.step e).bucket s.current).lastNs ≤ toNs
      · rw [← hcurrent] at hover
        have htail := ih hnext hrest hover
        rw [hcurrent] at htail
        omega
      · -- the window was over when the current bucket was looked at last
        have htold := hnext.sound.told s.current
        have hnonneg := (h.sound.holds s.current).allowance_nonneg hle hlast
        rw [grantedWithin_of_lt later (by omega), zero_mul, add_zero]
        by_cases hnone : s.granted e = 0
        · rw [hnone, ite_self, zero_mul]
          exact hnonneg
        · have hnow := step_nowNs_of_granted hnone
          rw [if_neg (by omega), zero_mul]
          exact hnonneg

/-! ## Somebody under way -/

theorem granted_nonneg (s : Lane) (e : LaneEvent) : 0 ≤ s.granted e := by
  rw [granted]
  split
  · exact le_refl 0
  · exact TokenBucket.granted_tryTake_nonneg _ _ _

theorem grantedWithin_nonneg (fromNs toNs : Int) (s : Lane) (es : List LaneEvent) :
    0 ≤ grantedWithin fromNs toNs s es := by
  induction es generalizing s with
  | nil => exact le_refl 0
  | cons e es ih =>
      have hrest := ih (s.step e)
      have hfirst := granted_nonneg s e
      rw [grantedWithin]
      split
      · omega
      · omega

theorem grantedWithin_append (fromNs toNs : Int) (s : Lane) (es fs : List LaneEvent) :
    grantedWithin fromNs toNs s (es ++ fs) =
      grantedWithin fromNs toNs s es + grantedWithin fromNs toNs (Run.final step s es) fs := by
  induction es generalizing s with
  | nil => exact (zero_add _).symm
  | cons e es ih =>
    rw [List.cons_append, grantedWithin, ih, grantedWithin, Run.final_cons, add_assoc]

theorem step_proceed (hline : s.line = c :: rest) (elapsedNs againNs : Nat) :
    s.step (.proceed elapsedNs againNs) = (s.pass elapsedNs).attend c rest againNs ∧
      s.granted (.proceed elapsedNs againNs) =
        (s.bucket c.target).granted (.tryTake c.cost (s.nowNs + elapsedNs)) := by
  have hpass : (s.pass elapsedNs).line = c :: rest := hline
  constructor
  · rw [step, hpass]
  · rw [granted, turns, hline]
    rfl

/-- After a capacity's worth of nanoseconds, any cost that is allowed is there. -/
theorem Sound.enough (h : s.Sound) (hc : s.Allows c) :
    c.cost * nsPerS ≤ ((s.bucket c.target).refill
      (s.nowNs + ((s.bucket c.target).capacity * nsPerS).toNat)).tokensE9 := by
  obtain ⟨hpos, hle⟩ := hc
  have hholds := h.holds c.target
  have htold := h.told c.target
  generalize s.bucket c.target = b at hle hholds htold
  have hcost : c.cost * nsPerS ≤ b.capacity * nsPerS := mul_le_mul_of_nonneg_right hle (by decide)
  have hnonneg := hholds.nonneg
  have hcapacity := hholds.le_capacity
  have hrefilled : (b.capacity * nsPerS) * 1 ≤
      (s.nowNs + (b.capacity * nsPerS).toNat - b.lastNs) * b.refillPerS :=
    mul_le_mul (by omega) b.refills (by decide) (by omega)
  rw [TokenBucket.refill_tokensE9 (by omega) hcapacity]
  omega

/-- The first of the line leaves it, some time from now: served if its bucket
allows its cost, and refused at once if it does not. -/
theorem Sound.step_out (h : s.Sound) (hline : s.line = c :: rest) :
    ∃ elapsedNs : Nat, (s.step (.proceed elapsedNs 0)).line = rest ∧
      (s.step (.proceed elapsedNs 0)).current = s.current ∧
      (s.step (.proceed elapsedNs 0)).nowNs = s.nowNs + elapsedNs ∧
      (∀ i, i ≠ c.target → (s.step (.proceed elapsedNs 0)).bucket i = s.bucket i) ∧
      (s.Allows c → s.granted (.proceed elapsedNs 0) = c.cost) ∧
      (¬ s.Allows c → elapsedNs = 0) := by
  by_cases hc : s.Allows c
  · obtain ⟨hstep, hgranted⟩ :=
      step_proceed hline ((s.bucket c.target).capacity * nsPerS).toNat 0
    have hserved : s.granted (.proceed ((s.bucket c.target).capacity * nsPerS).toNat 0) =
        c.cost := by
      rw [hgranted, TokenBucket.granted, TokenBucket.tryTake_of_enough hc (h.enough hc)]
    obtain ⟨hcurrent, hothers, ⟨hrest, hnow, -⟩ | ⟨-, -, ⟨-, hnone⟩, -⟩⟩ :=
      attend_spec (s.pass ((s.bucket c.target).capacity * nsPerS).toNat) c rest 0
    · refine ⟨_, ?_, ?_, ?_, ?_, fun _ => hserved, fun hno => absurd hc hno⟩
      · rw [hstep, hrest]
      · rw [hstep, hcurrent]
        rfl
      · rw [hstep, hnow]
        rfl
      · rw [hstep]
        exact hothers
    · have hpos : c.cost = 0 := hserved.symm.trans (hgranted.trans hnone)
      exact absurd hc.1 (by omega)
  · obtain ⟨hstep, -⟩ := step_proceed hline 0 0
    obtain ⟨hcurrent, hothers, ⟨hrest, hnow, -⟩ | ⟨-, -, ⟨hallows, -⟩, -⟩⟩ :=
      attend_spec (s.pass 0) c rest 0
    · refine ⟨0, ?_, ?_, ?_, ?_, fun hno => absurd hno hc, fun _ => rfl⟩
      · rw [hstep, hrest]
      · rw [hstep, hcurrent]
        rfl
      · rw [hstep, hnow]
        rfl
      · rw [hstep]
        exact hothers
    · exact absurd hallows hc

theorem step_allows_iff {e : LaneEvent} (he : e.isResize = false) {c' : Caller} :
    (s.step e).Allows c' ↔ s.Allows c' := by
  obtain ⟨c, rest, againNs, -, -, hstep, -⟩ | ⟨-, hbucket, -⟩ | ⟨limits, b, hresize, -⟩ :=
    step_cases s e
  · rw [hstep, attend_allows_iff]
    exact Iff.rfl
  · rw [Allows, hbucket, Allows]
  · rw [hresize] at he
    cases he

/-- How a line that does not draw on some bucket is emptied. -/
structure Emptied (s s' : Lane) (i : Nat) : Prop where
  line : s'.line = []
  current : s'.current = s.current
  bucket : s'.bucket i = s.bucket i

/-- A line of calls that are refused is emptied at once. -/
theorem Sound.refuse_all {i : Nat} (h : s.Sound) (hline : ∀ c ∈ s.line, ¬ s.Allows c)
    (htargets : ∀ c ∈ s.line, c.target ≠ i) :
    ∃ later, (∀ e ∈ later, LaneEvent.isResize e = false) ∧
      Emptied s (Run.final Lane.step s later) i ∧
        (Run.final Lane.step s later).nowNs = s.nowNs := by
  generalize hrest : s.line = line at hline htargets
  induction line generalizing s with
  | nil => exact ⟨[], nofun, ⟨hrest, rfl, rfl⟩, rfl⟩
  | cons c rest ih =>
      obtain ⟨elapsedNs, hout, hcurrent, hnow, hothers, -, hat⟩ := h.step_out hrest
      obtain rfl := hat (hline c List.mem_cons_self)
      obtain ⟨later, hno, hemptied, hsame⟩ := ih (h.step _) hout
        (fun c' hc' => fun hallows => hline c' (List.mem_cons_of_mem _ hc')
          ((step_allows_iff rfl).mp hallows))
        fun c' hc' => htargets c' (List.mem_cons_of_mem _ hc')
      refine ⟨.proceed 0 0 :: later, List.forall_mem_cons.mpr ⟨rfl, hno⟩,
        ⟨hemptied.line, hemptied.current.trans hcurrent, hemptied.bucket.trans ?_⟩, ?_⟩
      · exact hothers i (htargets c List.mem_cons_self).symm
      · rw [Run.final_cons, hsame, hnow]
        exact add_zero _

/-- A line with a call that its bucket allows is emptied in time, and the last
such call is served at the very end. -/
theorem Sound.serve_all {i : Nat} (h : s.Sound) (hline : ∃ c ∈ s.line, s.Allows c)
    (htargets : ∀ c ∈ s.line, c.target ≠ i) :
    ∃ later, (∀ e ∈ later, LaneEvent.isResize e = false) ∧
      Emptied s (Run.final Lane.step s later) i ∧ s.nowNs ≤ (Run.final Lane.step s later).nowNs ∧
      0 < grantedWithin (Run.final Lane.step s later).nowNs
        (Run.final Lane.step s later).nowNs s later := by
  generalize hrest : s.line = line at hline htargets
  induction line generalizing s with
  | nil =>
      obtain ⟨c, hc, -⟩ := hline
      cases hc
  | cons c rest ih =>
      obtain ⟨elapsedNs, hout, hcurrent, hnow, hothers, hserved, -⟩ := h.step_out hrest
      have hbucket := hothers i (htargets c List.mem_cons_self).symm
      have htargets' := fun c' hc' => htargets c' (List.mem_cons_of_mem _ hc')
      by_cases hlast : ∃ c' ∈ rest, s.Allows c'
      · obtain ⟨c', hc', hallows⟩ := hlast
        obtain ⟨later, hno, hemptied, hle, hgranted⟩ :=
          ih (h.step _) hout ⟨c', hc', (step_allows_iff rfl).mpr hallows⟩ htargets'
        refine ⟨.proceed elapsedNs 0 :: later, List.forall_mem_cons.mpr ⟨rfl, hno⟩,
          ⟨hemptied.line, hemptied.current.trans hcurrent, hemptied.bucket.trans hbucket⟩, ?_, ?_⟩
        · rw [Run.final_cons]
          omega
        · have hfirst := granted_nonneg s (.proceed elapsedNs 0)
          rw [Run.final_cons, grantedWithin]
          split
          · omega
          · omega
      · have hnone : ∀ c' ∈ rest, ¬ s.Allows c' := fun c' hc' hallows => hlast ⟨c', hc', hallows⟩
        have hc : s.Allows c := by
          obtain ⟨c', hc', hallows⟩ := hline
          rcases List.mem_cons.mp hc' with rfl | hc'
          · exact hallows
          · exact absurd hallows (hnone c' hc')
        have hrefused : ∀ c' ∈ (s.step (.proceed elapsedNs 0)).line,
            ¬ (s.step (.proceed elapsedNs 0)).Allows c' := by
          rw [hout]
          exact fun c' hc' hallows => hnone c' hc' ((step_allows_iff rfl).mp hallows)
        obtain ⟨later, hno, hemptied, hsame⟩ := (h.step _).refuse_all hrefused (by
          rw [hout]
          exact htargets')
        refine ⟨.proceed elapsedNs 0 :: later, List.forall_mem_cons.mpr ⟨rfl, hno⟩,
          ⟨hemptied.line, hemptied.current.trans hcurrent, hemptied.bucket.trans hbucket⟩, ?_, ?_⟩
        · rw [Run.final_cons, hsame, hnow]
          omega
        · have htail := grantedWithin_nonneg (s.nowNs + elapsedNs) (s.nowNs + elapsedNs)
            (s.step (.proceed elapsedNs 0)) later
          have hpos := hc.1
          rw [Run.final_cons, hsame, hnow, grantedWithin, if_pos ⟨le_refl _, le_refl _⟩,
            hserved hc]
          omega

/-! ## The resize -/

/-- A resize whose limits are accepted. -/
theorem step_resize {limits : BucketLimits} {elapsedNs : Nat} {b : TokenBucket}
    (hnew : TokenBucket.new limits (s.nowNs + elapsedNs) = .ok b) :
    s.step (.resize limits elapsedNs) =
      { s.pass elapsedNs with
        bucket := Function.update s.bucket (s.current + 1) b
        current := s.current + 1 } := by
  have hpass : TokenBucket.new limits (s.pass elapsedNs).nowNs = .ok b := hnew
  rw [step, hpass]
  rfl

/-- What the limiter is after some events and then a resize. -/
def resized (s : Lane) (before : List LaneEvent) (limits : BucketLimits) (elapsedNs : Nat) :
    Lane :=
  (Run.final step s before).step (.resize limits elapsedNs)

/-- The new limits hold for all that is granted after a resize, in any window,
exactly if no call is under way at the resize that its bucket can serve. -/
theorem resize_takes_effect_iff {limits₀ limits : BucketLimits} {nowNs : Int} {elapsedNs : Nat}
    {b : TokenBucket} (hs : new limits₀ nowNs = .ok s) (before : List LaneEvent)
    (hnew : TokenBucket.new limits ((Run.final step s before).nowNs + elapsedNs) = .ok b) :
    (∀ later, (∀ e ∈ later, LaneEvent.isResize e = false) → ∀ fromNs toNs,
        (s.resized before limits elapsedNs).nowNs ≤ fromNs → fromNs ≤ toNs →
        grantedWithin fromNs toNs (s.resized before limits elapsedNs) later * nsPerS ≤
          limits.capacity * nsPerS + limits.refillPerS * (toNs - fromNs)) ↔
      ∀ c ∈ (Run.final step s before).line, ¬ (Run.final step s before).Allows c := by
  obtain ⟨hsound, hknown⟩ := reachable hs before
  rw [resized]
  generalize Run.final step s before = s₀ at hsound hknown hnew
  obtain ⟨hholds, hrefill, hcapacity, hlast, hfull⟩ := TokenBucket.new_ok hnew
  have hstep := step_resize hnew
  have hsound' := hsound.step (.resize limits elapsedNs)
  have hbucket : (s₀.step (.resize limits elapsedNs)).bucket (s₀.current + 1) = b := by
    rw [hstep]
    exact Function.update_self ..
  have hcurrent : (s₀.step (.resize limits elapsedNs)).current = s₀.current + 1 := by rw [hstep]
  have hline : (s₀.step (.resize limits elapsedNs)).line = s₀.line := by
    rw [hstep]
    rfl
  have hallows : ∀ c ∈ s₀.line,
      ((s₀.step (.resize limits elapsedNs)).Allows c ↔ s₀.Allows c) := by
    intro c hc
    have htarget : c.target ≠ s₀.current + 1 := by
      have hle := hknown c hc
      omega
    have hold : (s₀.step (.resize limits elapsedNs)).bucket c.target = s₀.bucket c.target := by
      rw [hstep]
      exact Function.update_of_ne htarget _ _
    rw [Allows, hold, Allows]
  generalize s₀.step (.resize limits elapsedNs) = s' at hsound' hbucket hcurrent hline hallows
  constructor
  · intro hbound c hc hserved
    -- the calls under way are served, and then the capacity of the new bucket is asked for
    obtain ⟨later, hno, hemptied, hnow, hgranted⟩ := @Sound.serve_all s' (s₀.current + 1) hsound'
      ⟨c, hline ▸ hc, (hallows c hc).mpr hserved⟩ (by
        rw [hline]
        intro c' hc'
        have hle := hknown c' hc'
        omega)
    have hsound'' := hsound'.run later
    have hlimit := hbound (later ++ [.acquire limits.capacity 0 0])
      (List.forall_mem_append.mpr ⟨hno, by simp [LaneEvent.isResize]⟩)
      (Run.final step s' later).nowNs (Run.final step s' later).nowNs hnow (le_refl _)
    rw [grantedWithin_append, sub_self, mul_zero, add_zero] at hlimit
    generalize Run.final step s' later = s'' at hemptied hgranted hlimit hsound''
    have hheld : s''.bucket s''.current = b := by
      rw [hemptied.current, hcurrent, hemptied.bucket, hbucket]
    have htaken : s''.granted (.acquire limits.capacity 0 0) = limits.capacity := by
      rw [granted, turns, if_pos hemptied.line]
      dsimp only
      rw [hheld, TokenBucket.granted, TokenBucket.tryTake_of_enough]
      · have hrefills := b.refills
        have hcovers := b.covers
        omega
      · rw [TokenBucket.refill_of_full (hcapacity ▸ hfull), hcapacity]
    rw [grantedWithin, grantedWithin, htaken, if_pos (by simp [LaneEvent.elapsedNs])] at hlimit
    rw [add_zero, add_mul] at hlimit
    have hpositive := mul_pos hgranted (show 0 < nsPerS by decide)
    omega
  · intro hnone later hlater fromNs toNs hfrom hle
    have hsettled : s'.Settled := ⟨hsound', fun c hc => .inr fun hserved =>
      hnone c (hline ▸ hc) ((hallows c (hline ▸ hc)).mp hserved)⟩
    have htold := hsound'.told s'.current
    have hgranted := @Settled.grantedWithin_le s' hsettled later hlater fromNs toNs hle (by omega)
    have hallowance := (hsound'.holds s'.current).allowance_le fromNs toNs
    rw [hcurrent, hbucket] at hgranted hallowance
    rw [hcapacity, hrefill] at hallowance
    exact le_trans hgranted hallowance

/-- A limiter at the limits of the Basic tier. -/
def basic : Lane := ⟨0, fun _ => TokenBucket.fullBasicRead, 0, []⟩

/-- Its burst is taken, and nobody waits when it is resized. -/
theorem basic_resized :
    grantedWithin 2000000000 2000000000
        (basic.resized [.acquire 400 0 0] ⟨20, 20⟩ 1900000000)
        [.acquire 20 100000000 0, .acquire 20 0 0] * nsPerS ≤
      20 * nsPerS + 20 * (2000000000 - 2000000000) := by
  have hs : new basicRead 0 = .ok basic := rfl
  have hnew : TokenBucket.new ⟨20, 20⟩
      ((Run.final step basic [.acquire 400 0 0]).nowNs + (1900000000 : Nat)) =
        .ok ⟨20, 20, 20000000000, 1900000000, by decide, by decide⟩ := rfl
  have heffect := (resize_takes_effect_iff hs [.acquire 400 0 0] hnew).mpr (by decide)
  exact heffect [.acquire 20 100000000 0, .acquire 20 0 0] (by decide) 2000000000 2000000000
    (by decide) (le_refl _)

/-- A second caller sleeps when the limiter is resized: it is granted the burst
of the old bucket when a later one is granted the new bucket's. -/
theorem resized_twice_drawn :
    ¬ grantedWithin 2000000000 2000000000
        (basic.resized [.acquire 400 0 0, .acquire 400 0 0] ⟨20, 20⟩ 1900000000)
        [.proceed 100000000 0, .acquire 20 0 0] * nsPerS ≤
      20 * nsPerS + 20 * (2000000000 - 2000000000) := by
  decide

end Lane

end Tape
