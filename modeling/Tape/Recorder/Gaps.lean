import Tape.Wire.Messages

/-!
# Sequence gaps

`tape.recorder.gaps`: one baseline per subscription, and a verdict on every
message. The baseline is the last number that moved it, or nothing before the
first message and after a reset; the counters beside it never influence a
verdict.

`advance` is the tracker with one subscription in view. The three theorems
about `observe` say that this view loses nothing: the verdict is that of
`advance` on the subscription's own baseline, which moves as `advance` moves
it, and every other baseline stays.
-/

namespace Tape

/-- What a sequence number says of the one before it. -/
inductive GapVerdict where
  | ok
  | firstMessage
  | gap (expected got : Int)
  | duplicate (expected got : Int)
  deriving DecidableEq, Repr

/-- A message that does not continue the sequence. -/
def GapVerdict.isFault : GapVerdict → Bool
  | .ok => false
  | .firstMessage => false
  | .gap _ _ => true
  | .duplicate _ _ => true

/-- What the tracker remembers about one subscription. -/
structure SidState where
  lastSeq : Option Int := none
  messages : Nat := 0
  gaps : Nat := 0
  duplicates : Nat := 0
  deriving DecidableEq, Repr

/-- The numbers of each subscription. -/
structure GapTracker where
  states : Dict Sid SidState

namespace GapTracker

/-- Nothing was observed. -/
def new : GapTracker := ⟨∅⟩

/-- A frame of a subscription, by its number. -/
def observe (t : GapTracker) (sid : Sid) (seq : Option Int) : GapTracker × GapVerdict :=
  let state := t.states.getD sid {}
  let state := { state with messages := state.messages + 1 }
  match seq with
  | none => (⟨t.states.set sid state⟩, .ok)
  | some seq =>
      match state.lastSeq with
      | none => (⟨t.states.set sid { state with lastSeq := some seq }⟩, .firstMessage)
      | some lastSeq =>
          let expected := lastSeq + 1
          if seq = expected then
            (⟨t.states.set sid { state with lastSeq := some seq }⟩, .ok)
          else if seq > expected then
            (⟨t.states.set sid { state with lastSeq := some seq, gaps := state.gaps + 1 }⟩,
              .gap expected seq)
          else
            (⟨t.states.set sid { state with duplicates := state.duplicates + 1 }⟩,
              .duplicate expected seq)

/-- Forget a baseline; an unknown sid stays unknown. -/
def reset (t : GapTracker) (sid : Sid) : GapTracker :=
  match t.states.get? sid with
  | none => t
  | some state => ⟨t.states.set sid { state with lastSeq := none }⟩

/-- The subscription is gone. -/
def forget (t : GapTracker) (sid : Sid) : GapTracker := ⟨t.states.erase sid⟩

/-- The baseline of a subscription. -/
def baseline (t : GapTracker) (sid : Sid) : Option Int :=
  (t.states.get? sid).bind SidState.lastSeq

/-- One message against one baseline. -/
def advance : Option Int → Int → Option Int × GapVerdict
  | none, seq => (some seq, .firstMessage)
  | some lastSeq, seq =>
      if seq = lastSeq + 1 then (some seq, .ok)
      else if seq > lastSeq + 1 then (some seq, .gap (lastSeq + 1) seq)
      else (some lastSeq, .duplicate (lastSeq + 1) seq)

theorem getD_lastSeq (t : GapTracker) (sid : Sid) :
    (t.states.getD sid {}).lastSeq = t.baseline sid := by
  rw [Dict.getD, baseline]
  cases t.states.get? sid <;> rfl

theorem baseline_set (t : GapTracker) (sid sid' : Sid) (state : SidState) :
    baseline ⟨t.states.set sid state⟩ sid' =
      if sid = sid' then state.lastSeq else t.baseline sid' := by
  rw [baseline, Dict.get?_set]
  split <;> rfl

theorem observe_unsequenced (t : GapTracker) (sid sid' : Sid) :
    (t.observe sid none).2 = .ok ∧ (t.observe sid none).1.baseline sid' = t.baseline sid' := by
  refine ⟨rfl, ?_⟩
  show baseline ⟨t.states.set sid _⟩ sid' = _
  rw [baseline_set]
  split
  · next h => rw [← h, getD_lastSeq]
  · rfl

theorem observe_sequenced (t : GapTracker) (sid : Sid) (seq : Int) :
    (t.observe sid (some seq)).2 = (advance (t.baseline sid) seq).2 ∧
      (t.observe sid (some seq)).1.baseline sid = (advance (t.baseline sid) seq).1 := by
  rw [observe]
  simp only [getD_lastSeq]
  cases hb : t.baseline sid with
  | none =>
      refine ⟨rfl, ?_⟩
      rw [baseline_set, if_pos rfl]
      rfl
  | some lastSeq =>
      simp only [advance]
      split
      · refine ⟨rfl, ?_⟩
        rw [baseline_set, if_pos rfl]
      · split
        · refine ⟨rfl, ?_⟩
          rw [baseline_set, if_pos rfl]
        · refine ⟨rfl, ?_⟩
          rw [baseline_set, if_pos rfl]

theorem observe_other (t : GapTracker) {sid sid' : Sid} (h : sid ≠ sid') (seq : Option Int) :
    (t.observe sid seq).1.baseline sid' = t.baseline sid' := by
  cases seq with
  | none => exact (observe_unsequenced t sid sid').2
  | some seq =>
      rw [observe]
      simp only [getD_lastSeq]
      cases t.baseline sid with
      | none => rw [baseline_set, if_neg h]
      | some lastSeq =>
          simp only []
          split
          · rw [baseline_set, if_neg h]
          · split
            · rw [baseline_set, if_neg h]
            · rw [baseline_set, if_neg h]

theorem baseline_reset (t : GapTracker) (sid sid' : Sid) :
    (t.reset sid).baseline sid' = if sid = sid' then none else t.baseline sid' := by
  rw [reset]
  split
  · next h =>
      split
      · next hs => rw [← hs, baseline, h]; rfl
      · rfl
  · rw [baseline_set]

theorem baseline_forget_ne (t : GapTracker) {sid sid' : Sid} (h : sid ≠ sid') :
    (t.forget sid).baseline sid' = t.baseline sid' := by
  rw [baseline, forget, Dict.get?_erase_ne h, baseline]

/-- The baseline after a message, and whether the message is a fault; an
awaited snapshot is judged after a reset. -/
def judge (baseline : Option Int) (awaited : Bool) : Option Int → Option Int × Bool
  | none => (if awaited then none else baseline, false)
  | some seq =>
      let r := advance (if awaited then none else baseline) seq
      (r.1, r.2.isFault)

@[simp] theorem judge_awaited (baseline : Option Int) (seq : Int) :
    judge baseline true (some seq) = (some seq, false) := rfl

@[simp] theorem judge_first (seq : Int) : judge none false (some seq) = (some seq, false) := rfl

@[simp] theorem judge_next (k : Int) :
    judge (some k) false (some (k + 1)) = (some (k + 1), false) := by
  simp [judge, advance, GapVerdict.isFault]

theorem judge_ahead {k seq : Int} (h : k + 1 < seq) :
    judge (some k) false (some seq) = (some seq, true) := by
  rw [judge]
  simp only [Bool.false_eq_true, if_false, advance]
  rw [if_neg (by omega), if_pos (by omega)]
  rfl

theorem judge_behind {k seq : Int} (h : seq ≤ k) :
    judge (some k) false (some seq) = (some k, true) := by
  rw [judge]
  simp only [Bool.false_eq_true, if_false, advance]
  rw [if_neg (by omega), if_neg (by omega)]
  rfl

theorem observe_judge (t : GapTracker) (sid : Sid) (awaited : Bool) (seq : Option Int) :
    ((if awaited then t.reset sid else t).observe sid seq).1.baseline sid =
        (judge (t.baseline sid) awaited seq).1 ∧
      ((if awaited then t.reset sid else t).observe sid seq).2.isFault =
        (judge (t.baseline sid) awaited seq).2 := by
  have hbase : (if awaited then t.reset sid else t).baseline sid =
      if awaited then none else t.baseline sid := by
    cases awaited with
    | true => simp [baseline_reset]
    | false => rfl
  cases seq with
  | none =>
      obtain ⟨hv, hb⟩ := observe_unsequenced (if awaited then t.reset sid else t) sid sid
      exact ⟨hb.trans hbase, by rw [hv]; rfl⟩
  | some seq =>
      obtain ⟨hv, hb⟩ := observe_sequenced (if awaited then t.reset sid else t) sid seq
      rw [hbase] at hv hb
      exact ⟨hb, by rw [hv]; rfl⟩

theorem observe_judge_other (t : GapTracker) {sid sid' : Sid} (h : sid ≠ sid')
    (awaited : Bool) (seq : Option Int) :
    ((if awaited then t.reset sid else t).observe sid seq).1.baseline sid' =
      t.baseline sid' := by
  rw [observe_other _ h]
  cases awaited with
  | true => simp [baseline_reset, h]
  | false => rfl

end GapTracker

end Tape
