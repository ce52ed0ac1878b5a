import Tape.Run
import Tape.Recorder.Gaps

/-!
# What the gap ranges of a subscription cover

A subscription's sequence numbers are seen one by one or named in the range of
a gap. Put together, over any interleaving of messages, what advanced the
baseline and what was reported skipped make up the numbers from the first
baseline to the current one, each of them once.

The counting is done on half-open intervals: a number that advances the
baseline is the interval of that number alone. A step from a baseline `k` to a
baseline `k'` adds the intervals of the numbers above `k` up to `k'`
(`cover_step`), and the run lemma adds them up.
-/

namespace Tape

/-- What the supervisor does with the tracker. -/
inductive GapOp where
  | observe (sid : Sid) (seq : Option Int)
  | reset (sid : Sid)
  | forget (sid : Sid)
  deriving DecidableEq, Repr

/-- A reset or forget of the subscription. -/
def GapOp.Clears (sid : Sid) : GapOp → Prop
  | .observe _ _ => False
  | .reset sid' => sid' = sid
  | .forget sid' => sid' = sid

/-- The number of a sequenced message of the subscription. -/
def GapOp.seqOn (sid : Sid) : GapOp → Option Int
  | .observe sid' (some seq) => if sid' = sid then some seq else none
  | _ => none

namespace GapTracker

/-- The counts of a subscription; zero when it is not tracked. -/
def messages (t : GapTracker) (sid : Sid) : Nat := (t.states.get? sid).elim 0 SidState.messages
/-- How often a number was ahead, and how often it was behind. -/
def gaps (t : GapTracker) (sid : Sid) : Nat := (t.states.get? sid).elim 0 SidState.gaps
def duplicates (t : GapTracker) (sid : Sid) : Nat := (t.states.get? sid).elim 0 SidState.duplicates

/-- One call of the tracker. -/
def step (t : GapTracker) : GapOp → GapTracker
  | .observe sid seq => (t.observe sid seq).1
  | .reset sid => t.reset sid
  | .forget sid => t.forget sid

/-- The verdict on a sequenced message of the subscription. -/
def verdict (sid : Sid) (t : GapTracker) (op : GapOp) : List GapVerdict :=
  match op.seqOn sid with
  | none => []
  | some seq => [(t.observe sid (some seq)).2]

/-- The verdicts on the sequenced messages of the subscription, in a run. -/
def verdicts (sid : Sid) : GapTracker → List GapOp → List GapVerdict
  | _, [] => []
  | t, op :: ops => t.verdict sid op ++ verdicts sid (t.step op) ops

/-- The half-open interval of numbers a verdict reports skipped. -/
def GapVerdict.range : GapVerdict → List (Int × Int)
  | .gap expected got => [(expected, got)]
  | _ => []

/-- The range an operation reports skipped on the subscription, and the number
by itself if it advanced the baseline. -/
def pieces (sid : Sid) (t : GapTracker) (op : GapOp) : List (Int × Int) :=
  match op.seqOn sid with
  | none => []
  | some seq =>
      GapVerdict.range (t.observe sid (some seq)).2 ++
        if (t.step op).baseline sid = t.baseline sid then [] else [(seq, seq + 1)]

/-- The ranges of numbers that some calls found missing. -/
def piecesOf (sid : Sid) : GapTracker → List GapOp → List (Int × Int)
  | _, [] => []
  | t, op :: ops => t.pieces sid op ++ piecesOf sid (t.step op) ops

/-- How many of some half-open intervals a number lies in. -/
def cover (ranges : List (Int × Int)) (n : Int) : Nat :=
  ranges.countP fun r => r.1 ≤ n ∧ n < r.2

theorem cover_append (l m : List (Int × Int)) (n : Int) :
    cover (l ++ m) n = cover l n + cover m n :=
  List.countP_append

theorem cover_nil (n : Int) : cover [] n = 0 := rfl

theorem cover_singleton (a b n : Int) : cover [(a, b)] n = if a ≤ n ∧ n < b then 1 else 0 := by
  rw [cover, List.countP_singleton]
  simp only [decide_eq_true_eq]

/-! ## One step -/

variable {t : GapTracker} {sid : Sid} {op : GapOp}

theorem seqOn_eq_some {seq : Int} (h : op.seqOn sid = some seq) : op = .observe sid (some seq) := by
  cases op with
  | observe sid' seq' =>
      cases seq' with
      | none => cases h
      | some n =>
          rw [GapOp.seqOn] at h
          split at h
          · next heq =>
              obtain rfl := Option.some.inj h
              rw [heq]
          · cases h
  | reset sid' => cases h
  | forget sid' => cases h

theorem baseline_step_none (hkept : ¬ op.Clears sid) (hseq : op.seqOn sid = none) :
    (t.step op).baseline sid = t.baseline sid := by
  cases op with
  | observe sid' seq =>
      by_cases heq : sid' = sid
      · subst heq
        cases seq with
        | none => exact (observe_unsequenced t sid' sid').2
        | some n =>
            rw [GapOp.seqOn, if_pos rfl] at hseq
            cases hseq
      · exact observe_other t heq seq
  | reset sid' =>
      rw [step, baseline_reset]
      exact if_neg hkept
  | forget sid' => exact baseline_forget_ne t hkept

theorem baseline_step_some {seq : Int} (hseq : op.seqOn sid = some seq) :
    (t.step op).baseline sid = (advance (t.baseline sid) seq).1 := by
  rw [seqOn_eq_some hseq]
  exact (observe_sequenced t sid seq).2

theorem pieces_none (hseq : op.seqOn sid = none) : t.pieces sid op = [] := by
  rw [pieces, hseq]

theorem pieces_some {seq : Int} (hseq : op.seqOn sid = some seq) :
    t.pieces sid op = GapVerdict.range (advance (t.baseline sid) seq).2 ++
      if (advance (t.baseline sid) seq).1 = t.baseline sid then [] else [(seq, seq + 1)] := by
  rw [pieces, hseq, baseline_step_some hseq, ← (observe_sequenced t sid seq).1]

/-- From a baseline on, a step covers the numbers up to the new baseline. -/
theorem cover_step (hkept : ¬ op.Clears sid) {k : Int} (hb : t.baseline sid = some k) :
    ∃ k', (t.step op).baseline sid = some k' ∧ k ≤ k' ∧
      ∀ n, cover (t.pieces sid op) n = if k < n ∧ n ≤ k' then 1 else 0 := by
  cases hseq : op.seqOn sid with
  | none =>
      refine ⟨k, (baseline_step_none hkept hseq).trans hb, le_refl k, fun n => ?_⟩
      rw [pieces_none hseq, cover_nil, if_neg (by omega)]
  | some seq =>
      rw [pieces_some hseq, baseline_step_some hseq, hb, advance]
      split
      · next hnext =>
          refine ⟨seq, rfl, by omega, fun n => ?_⟩
          rw [if_neg (fun h => by have := Option.some.inj h; omega)]
          show cover [(seq, seq + 1)] n = _
          rw [cover_singleton]
          refine if_congr ?_ rfl rfl
          omega
      · split
        · next hgap =>
            refine ⟨seq, rfl, by omega, fun n => ?_⟩
            rw [if_neg (fun h => by have := Option.some.inj h; omega), GapVerdict.range,
              cover_append, cover_singleton, cover_singleton]
            by_cases hskipped : k + 1 ≤ n ∧ n < seq
            · rw [if_pos hskipped, if_neg (by omega), if_pos (by omega)]
            · rw [if_neg hskipped, Nat.zero_add]
              refine if_congr ?_ rfl rfl
              omega
        · -- a number at or below the baseline
          refine ⟨k, rfl, le_refl k, fun n => ?_⟩
          rw [if_pos rfl, if_neg (by omega)]
          rfl

/-! ## The counts -/

/-- Numbers are missing. -/
def GapVerdict.isGap : GapVerdict → Bool
  | .gap _ _ => true
  | _ => false

/-- The number did not advance. -/
def GapVerdict.isDuplicate : GapVerdict → Bool
  | .duplicate _ _ => true
  | _ => false

/-- A message is counted, and its verdict if it is a fault. -/
theorem observe_counts (t : GapTracker) (sid : Sid) (seq : Option Int) :
    ∃ state, (t.observe sid seq).1.states = t.states.set sid state ∧
      state.messages = t.messages sid + 1 ∧
      state.gaps = t.gaps sid + (GapVerdict.isGap (t.observe sid seq).2).toNat ∧
      state.duplicates =
        t.duplicates sid + (GapVerdict.isDuplicate (t.observe sid seq).2).toNat := by
  have hheld : (t.states.getD sid {}).messages = t.messages sid ∧
      (t.states.getD sid {}).gaps = t.gaps sid ∧
      (t.states.getD sid {}).duplicates = t.duplicates sid := by
    rw [Dict.getD, messages, gaps, duplicates]
    cases t.states.get? sid with
    | none => exact ⟨rfl, rfl, rfl⟩
    | some state => exact ⟨rfl, rfl, rfl⟩
  obtain ⟨hmessages, hgaps, hduplicates⟩ := hheld
  rw [← hmessages, ← hgaps, ← hduplicates, observe.eq_def]
  cases seq with
  | none => exact ⟨_, rfl, rfl, rfl, rfl⟩
  | some seq =>
      dsimp only
      split
      · exact ⟨_, rfl, rfl, rfl, rfl⟩
      · split
        · exact ⟨_, rfl, rfl, rfl, rfl⟩
        · split
          · exact ⟨_, rfl, rfl, rfl, rfl⟩
          · exact ⟨_, rfl, rfl, rfl, rfl⟩

theorem observe_counts_self (t : GapTracker) (sid : Sid) (seq : Option Int) :
    (t.observe sid seq).1.messages sid = t.messages sid + 1 ∧
      (t.observe sid seq).1.gaps sid =
        t.gaps sid + (GapVerdict.isGap (t.observe sid seq).2).toNat ∧
      (t.observe sid seq).1.duplicates sid =
        t.duplicates sid + (GapVerdict.isDuplicate (t.observe sid seq).2).toNat := by
  obtain ⟨state, heq, hmessages, hgaps, hduplicates⟩ := observe_counts t sid seq
  rw [messages, gaps, duplicates, heq, Dict.get?_set_self]
  exact ⟨hmessages, hgaps, hduplicates⟩

theorem observe_counts_other (t : GapTracker) {sid sid' : Sid} (h : sid ≠ sid')
    (seq : Option Int) :
    (t.observe sid seq).1.messages sid' = t.messages sid' ∧
      (t.observe sid seq).1.gaps sid' = t.gaps sid' ∧
      (t.observe sid seq).1.duplicates sid' = t.duplicates sid' := by
  obtain ⟨state, heq, -⟩ := observe_counts t sid seq
  rw [messages, gaps, duplicates, heq, Dict.get?_set_ne h]
  exact ⟨rfl, rfl, rfl⟩

/-- A reset keeps the counts, and a forget drops those of its own. -/
theorem reset_counts (t : GapTracker) (sid sid' : Sid) :
    (t.reset sid).messages sid' = t.messages sid' ∧ (t.reset sid).gaps sid' = t.gaps sid' ∧
      (t.reset sid).duplicates sid' = t.duplicates sid' := by
  rw [reset]
  split
  · exact ⟨rfl, rfl, rfl⟩
  · next state hstate =>
      by_cases heq : sid = sid'
      · subst heq
        rw [messages, gaps, duplicates, messages, gaps, duplicates, Dict.get?_set_self, hstate]
        exact ⟨rfl, rfl, rfl⟩
      · rw [messages, gaps, duplicates, Dict.get?_set_ne heq]
        exact ⟨rfl, rfl, rfl⟩

theorem forget_counts (t : GapTracker) (sid sid' : Sid) :
    ((t.forget sid).messages sid' = t.messages sid' ∧ (t.forget sid).gaps sid' = t.gaps sid' ∧
      (t.forget sid).duplicates sid' = t.duplicates sid') ∨
    ((t.forget sid).gaps sid' = 0 ∧ (t.forget sid).duplicates sid' = 0) := by
  by_cases heq : sid = sid'
  · subst heq
    right
    rw [gaps, duplicates, forget, Dict.get?_erase_self]
    exact ⟨rfl, rfl⟩
  · left
    rw [messages, gaps, duplicates, forget, Dict.get?_erase_ne heq]
    exact ⟨rfl, rfl, rfl⟩

/-- No subscription has more faults than messages. -/
def Counted (t : GapTracker) : Prop := ∀ sid, t.gaps sid + t.duplicates sid ≤ t.messages sid

theorem counted_step (h : t.Counted) (op : GapOp) : (t.step op).Counted := by
  intro sid
  have hsid := h sid
  cases op with
  | observe sid' seq =>
      by_cases heq : sid' = sid
      · subst heq
        obtain ⟨hmessages, hgaps, hduplicates⟩ := observe_counts_self t sid' seq
        rw [step, hmessages, hgaps, hduplicates]
        cases (t.observe sid' seq).2 <;> simp [GapVerdict.isGap, GapVerdict.isDuplicate] <;> omega
      · obtain ⟨hmessages, hgaps, hduplicates⟩ := observe_counts_other t heq seq
        rw [step, hmessages, hgaps, hduplicates]
        exact hsid
  | reset sid' =>
      obtain ⟨hmessages, hgaps, hduplicates⟩ := reset_counts t sid' sid
      rw [step, hmessages, hgaps, hduplicates]
      exact hsid
  | forget sid' =>
      rw [step]
      rcases forget_counts t sid' sid with ⟨hmessages, hgaps, hduplicates⟩ | ⟨hgaps, hduplicates⟩
      · rw [hmessages, hgaps, hduplicates]
        exact hsid
      · rw [hgaps, hduplicates]
        exact Nat.zero_le _

/-! ## What matters to a subscription -/

/-- What two trackers have to agree on to judge a subscription's messages
alike. -/
structure Agree (sid : Sid) (t t' : GapTracker) : Prop where
  baseline : t.baseline sid = t'.baseline sid
  gaps : t.gaps sid = t'.gaps sid
  duplicates : t.duplicates sid = t'.duplicates sid

theorem agree_skip (hkept : ¬ op.Clears sid) (hseq : op.seqOn sid = none) :
    Agree sid (t.step op) t := by
  have hbaseline : (t.step op).baseline sid = t.baseline sid := baseline_step_none hkept hseq
  cases op with
  | observe sid' seq =>
      by_cases heq : sid' = sid
      · subst heq
        cases seq with
        | none =>
            obtain ⟨-, hgaps, hduplicates⟩ := observe_counts_self t sid' none
            exact ⟨hbaseline, hgaps, hduplicates⟩
        | some n =>
            rw [GapOp.seqOn, if_pos rfl] at hseq
            cases hseq
      · obtain ⟨-, hgaps, hduplicates⟩ := observe_counts_other t heq seq
        exact ⟨hbaseline, hgaps, hduplicates⟩
  | reset sid' =>
      obtain ⟨-, hgaps, hduplicates⟩ := reset_counts t sid' sid
      exact ⟨hbaseline, hgaps, hduplicates⟩
  | forget sid' =>
      refine ⟨hbaseline, ?_, ?_⟩
      · rw [step, forget, gaps, gaps, Dict.get?_erase_ne hkept]
      · rw [step, forget, duplicates, duplicates, Dict.get?_erase_ne hkept]

theorem agree_observe {t t' : GapTracker} (h : Agree sid t t') {seq : Int}
    (hseq : op.seqOn sid = some seq) :
    Agree sid (t.step op) (t'.step op) ∧ t.verdict sid op = t'.verdict sid op := by
  have hverdict : (t.observe sid (some seq)).2 = (t'.observe sid (some seq)).2 := by
    rw [(observe_sequenced t sid seq).1, (observe_sequenced t' sid seq).1, h.baseline]
  refine ⟨⟨?_, ?_, ?_⟩, ?_⟩
  · rw [baseline_step_some hseq, baseline_step_some hseq, h.baseline]
  · rw [seqOn_eq_some hseq, step, step, (observe_counts_self t sid (some seq)).2.1,
      (observe_counts_self t' sid (some seq)).2.1, hverdict, h.gaps]
  · rw [seqOn_eq_some hseq, step, step, (observe_counts_self t sid (some seq)).2.2,
      (observe_counts_self t' sid (some seq)).2.2, hverdict, h.duplicates]
  · rw [verdict, verdict, hseq]
    exact congrArg (fun v => [v]) hverdict

/-! ## Whole runs -/

variable {ops : List GapOp}

/-- Every operation of a run leaves the subscription tracked. -/
def Keeps (sid : Sid) (ops : List GapOp) : Prop := ∀ op ∈ ops, ¬ op.Clears sid

/-- The number of the first sequenced message of the subscription. -/
def firstSeq (sid : Sid) (ops : List GapOp) : Option Int := ops.findSome? (GapOp.seqOn sid)

/-- The sequenced messages of the subscription. -/
def onlyOn (sid : Sid) (ops : List GapOp) : List GapOp := ops.filter fun op => (op.seqOn sid).isSome

theorem Keeps.tail (h : Keeps sid (op :: ops)) : Keeps sid ops :=
  fun op' hop' => h op' (List.mem_cons_of_mem _ hop')

theorem cover_run (hkept : Keeps sid ops) {k : Int} (hb : t.baseline sid = some k) :
    ∃ k', (Run.final step t ops).baseline sid = some k' ∧ k ≤ k' ∧
      ∀ n, cover (piecesOf sid t ops) n = if k < n ∧ n ≤ k' then 1 else 0 := by
  induction ops generalizing t k with
  | nil =>
      refine ⟨k, hb, le_refl k, fun n => ?_⟩
      rw [piecesOf, cover_nil, if_neg (by omega)]
  | cons op ops ih =>
      obtain ⟨k₁, hb₁, hle₁, hcover₁⟩ := cover_step (hkept op List.mem_cons_self) hb
      obtain ⟨k', hb', hle', hcover'⟩ := ih hkept.tail hb₁
      refine ⟨k', hb', hle₁.trans hle', fun n => ?_⟩
      rw [piecesOf, cover_append, hcover₁, hcover']
      by_cases hn : n ≤ k₁
      · rw [if_neg (show ¬(k₁ < n ∧ n ≤ k') by omega), Nat.add_zero]
        refine if_congr ?_ rfl rfl
        omega
      · rw [if_neg (show ¬(k < n ∧ n ≤ k₁) by omega), Nat.zero_add]
        refine if_congr ?_ rfl rfl
        omega

/-- Without a baseline at the start, the numbers covered are those from the
first sequenced message on. -/
theorem cover_run_first (hkept : Keeps sid ops) (hb : t.baseline sid = none) :
    match firstSeq sid ops with
    | none => (Run.final step t ops).baseline sid = none ∧ piecesOf sid t ops = []
    | some first => ∃ k, (Run.final step t ops).baseline sid = some k ∧ first ≤ k ∧
        ∀ n, cover (piecesOf sid t ops) n = if first ≤ n ∧ n ≤ k then 1 else 0 := by
  induction ops generalizing t with
  | nil => exact ⟨hb, rfl⟩
  | cons op ops ih =>
      have hop := hkept op List.mem_cons_self
      rw [firstSeq, List.findSome?_cons, piecesOf, Run.final_cons]
      cases hseq : op.seqOn sid with
      | none =>
          rw [pieces_none hseq, List.nil_append]
          exact ih hkept.tail ((baseline_step_none hop hseq).trans hb)
      | some seq =>
          have hfirst : (t.step op).baseline sid = some seq := by
            rw [baseline_step_some hseq, hb, advance]
          obtain ⟨k, hk, hle, hcover⟩ := cover_run hkept.tail hfirst
          refine ⟨k, hk, hle, fun n => ?_⟩
          have hone : t.pieces sid op = [(seq, seq + 1)] := by
            rw [pieces_some hseq, hb, advance]
            rfl
          rw [hone, cover_append, cover_singleton, hcover]
          by_cases hn : n ≤ seq
          · rw [if_neg (show ¬(seq < n ∧ n ≤ k) by omega), Nat.add_zero]
            refine if_congr ?_ rfl rfl
            omega
          · rw [if_neg (show ¬(seq ≤ n ∧ n < seq + 1) by omega), Nat.zero_add]
            refine if_congr ?_ rfl rfl
            omega

/-- A subscription is judged as if its sequenced messages had come alone. -/
theorem agree_run {t t' : GapTracker} (hkept : Keeps sid ops) (h : Agree sid t t') :
    Agree sid (Run.final step t ops) (Run.final step t' (onlyOn sid ops)) ∧
      verdicts sid t ops = verdicts sid t' (onlyOn sid ops) := by
  induction ops generalizing t t' with
  | nil => exact ⟨h, rfl⟩
  | cons op ops ih =>
      have hop := hkept op List.mem_cons_self
      cases hseq : op.seqOn sid with
      | none =>
          have hskip := agree_skip (t := t) hop hseq
          have hagree : Agree sid (t.step op) t' :=
            ⟨hskip.baseline.trans h.baseline, hskip.gaps.trans h.gaps,
              hskip.duplicates.trans h.duplicates⟩
          have honly : onlyOn sid (op :: ops) = onlyOn sid ops :=
            List.filter_cons_of_neg (by rw [hseq]; exact Bool.false_ne_true)
          have hverdict : t.verdict sid op = [] := by rw [verdict, hseq]
          rw [honly, Run.final_cons, verdicts, hverdict, List.nil_append]
          exact ih hkept.tail hagree
      | some seq =>
          obtain ⟨hagree, hverdict⟩ := agree_observe h hseq
          have honly : onlyOn sid (op :: ops) = op :: onlyOn sid ops :=
            List.filter_cons_of_pos (by rw [hseq]; rfl)
          obtain ⟨hfinal, hverdicts⟩ := ih hkept.tail hagree
          rw [honly, Run.final_cons, Run.final_cons, verdicts, verdicts, hverdict, hverdicts]
          exact ⟨hfinal, rfl⟩

/-- Over any interleaving that neither resets nor forgets a subscription: its
baseline never decreases; the numbers that advanced it and the ranges reported
skipped cover each number from the first baseline to the current one exactly
once, and no other; a number at or below the baseline leaves it; and nothing
but its own sequenced messages matters to its baseline, verdicts and faults. No
subscription has more gaps and duplicates than messages. -/
theorem gaps_partition (sid : Sid) (ops : List GapOp) (hkept : Keeps sid ops) :
    (∀ before after, ops = before ++ after →
      ∀ k, (Run.final step new before).baseline sid = some k →
        ∃ k', (Run.final step new ops).baseline sid = some k' ∧ k ≤ k') ∧
    (match firstSeq sid ops with
      | none => (Run.final step new ops).baseline sid = none ∧ piecesOf sid new ops = []
      | some first => ∃ k, (Run.final step new ops).baseline sid = some k ∧ first ≤ k ∧
          ∀ n, cover (piecesOf sid new ops) n = if first ≤ n ∧ n ≤ k then 1 else 0) ∧
    (∀ k seq, (Run.final step new ops).baseline sid = some k → seq ≤ k →
      ((Run.final step new ops).observe sid (some seq)).1.baseline sid = some k) ∧
    Agree sid (Run.final step new ops) (Run.final step new (onlyOn sid ops)) ∧
    verdicts sid new ops = verdicts sid new (onlyOn sid ops) ∧
    ∀ sid', (Run.final step new ops).gaps sid' + (Run.final step new ops).duplicates sid' ≤
      (Run.final step new ops).messages sid' := by
  refine ⟨?_, cover_run_first hkept rfl, ?_, ?_⟩
  · intro before after hsplit k hb
    subst hsplit
    rw [Run.final_append]
    obtain ⟨k', hb', hle, -⟩ :=
      cover_run (fun op hop => hkept op (List.mem_append_right _ hop)) hb
    exact ⟨k', hb', hle⟩
  · intro k seq hb hle
    rw [(observe_sequenced _ sid seq).2, hb, advance, if_neg (by omega), if_neg (by omega)]
  · obtain ⟨hagree, hverdicts⟩ := @agree_run sid ops new new hkept ⟨rfl, rfl, rfl⟩
    refine ⟨hagree, hverdicts, ?_⟩
    have hcounted : Run.Throughout step Counted new ops :=
      Run.throughout_of_step (L := fun _ _ => True) (fun _ op h _ => counted_step h op)
        (fun _ => le_refl 0) (Run.along_true _ ops)
    exact hcounted.last

/-- Two subscriptions interleaved, a jump, a repeat and an unsequenced message. -/
theorem gaps_partition_jump : cover (piecesOf 1 new [.observe 1 (some 4), .observe 2 (some 9),
    .observe 1 (some 7), .observe 1 none, .reset 2, .observe 1 (some 5)]) 6 = 1 := by
  obtain ⟨-, hcover, -⟩ := gaps_partition 1 [.observe 1 (some 4), .observe 2 (some 9),
    .observe 1 (some 7), .observe 1 none, .reset 2, .observe 1 (some 5)] (by
      simp [Keeps, GapOp.Clears])
  obtain ⟨k, hk, -, hone⟩ := hcover
  obtain rfl : (7 : Int) = k := Option.some.inj hk
  exact hone 6

end GapTracker

end Tape
