import Tape.Recorder.SinkFiles

/-!
# What a segment sink makes of its calls

The account is kept at the lock: `Accounted` says of the calls that began, in
the order of the lock, which entries they leave, and what is refused and not yet
reported. A notice stands where the refusals it counts are, before the next
record.

`Tracks` follows the entries from the lock through the queue to the files, and
`Sound` is what the calls and the loop keep of the rest: the bound of the queue
above all. Both are kept by every step in which the disk does not fail.
-/

namespace Tape

/-- The records that were accepted. -/
def acceptedOf (calls : List SinkCall) : List Record :=
  calls.filterMap fun
    | .accepted r => some r
    | _ => none

/-- The records among some entries. -/
def recordsOf (entries : List TapeEntry) : List Record :=
  entries.filterMap fun
    | .record r => some r
    | _ => none

@[simp] theorem acceptedOf_append (l₁ l₂ : List SinkCall) :
    acceptedOf (l₁ ++ l₂) = acceptedOf l₁ ++ acceptedOf l₂ :=
  List.filterMap_append

@[simp] theorem recordsOf_append (l₁ l₂ : List TapeEntry) :
    recordsOf (l₁ ++ l₂) = recordsOf l₁ ++ recordsOf l₂ :=
  List.filterMap_append

/-- What the calls leave to be written, and how many refusals for a full queue
are not yet in a notice. -/
inductive Accounted : List SinkCall → Nat → List TapeEntry → Prop
  | nil : Accounted [] 0 []
  | accepted {calls : List SinkCall} {tape : List TapeEntry} (r : Record) :
      Accounted calls 0 tape → Accounted (calls ++ [.accepted r]) 0 (tape ++ [.record r])
  | refusedFull {calls : List SinkCall} {tape : List TapeEntry} {n : Nat} :
      Accounted calls n tape → Accounted (calls ++ [.refusedFull]) (n + 1) tape
  /-- The notice says how many there were since the last. -/
  | notice {calls : List SinkCall} {tape : List TapeEntry} {n : Nat} (monoNs wallNs : Int) :
      0 < n → Accounted calls n tape → Accounted calls 0 (tape ++ [.notice n monoNs wallNs])
  | other {calls : List SinkCall} {tape : List TapeEntry} {n : Nat} {call : SinkCall} :
      call = .refused ∨ call = .rotated ∨ call = .closed →
      Accounted calls n tape → Accounted (calls ++ [call]) n tape

/-- The counts of the notices. -/
def droppedOf (entries : List TapeEntry) : List Nat :=
  entries.filterMap fun
    | .notice n _ _ => some n
    | _ => none

@[simp] theorem droppedOf_append (l₁ l₂ : List TapeEntry) :
    droppedOf (l₁ ++ l₂) = droppedOf l₁ ++ droppedOf l₂ :=
  List.filterMap_append

variable {codec : HeaderCodec} {cfg : SinkConfig} {calls : List SinkCall}

/-- The records are those accepted, in the order of their acceptance. -/
theorem Accounted.records {n : Nat} {tape : List TapeEntry} (h : Accounted calls n tape) :
    recordsOf tape = acceptedOf calls := by
  induction h with
  | nil => rfl
  | accepted r _ ih => rw [recordsOf_append, acceptedOf_append, ih]; rfl
  | refusedFull _ ih => rw [acceptedOf_append, ih]; exact (List.append_nil _).symm
  | notice _ _ _ _ ih => rw [recordsOf_append, ih]; exact List.append_nil _
  | other hcall _ ih =>
      rw [acceptedOf_append, ih]
      rcases hcall with rfl | rfl | rfl <;> exact (List.append_nil _).symm

/-- Every refusal for a full queue is in one notice, or not yet reported. -/
theorem Accounted.refusals {n : Nat} {tape : List TapeEntry} (h : Accounted calls n tape) :
    calls.count .refusedFull = (droppedOf tape).sum + n := by
  induction h with
  | nil => rfl
  | accepted r _ ih =>
      rw [List.count_append, ih, droppedOf_append, List.sum_append]
      rfl
  | refusedFull _ ih =>
      rw [List.count_append, ih]
      simp only [List.count_singleton_self]
      omega
  | notice _ _ _ _ ih =>
      rw [ih, droppedOf_append, List.sum_append]
      simp [droppedOf]
  | other hcall _ ih =>
      rw [List.count_append, ih]
      rcases hcall with rfl | rfl | rfl <;> rfl

/-- A rotation among the marks has the records accepted before it ahead of it,
and those accepted after it behind. -/
def Apart (before after : List SinkCall) (marks : List Mark) : Prop :=
  ∃ m₁ m₂, marks = m₁ ++ .rotate :: m₂ ∧ recordsOf (entriesOf m₁) = acceptedOf before ∧
    recordsOf (entriesOf m₂) = acceptedOf after

theorem Apart.append {before after : List SinkCall} {marks new : List Mark}
    (h : Apart before after marks) {more : List SinkCall}
    (hnew : recordsOf (entriesOf new) = acceptedOf more) :
    Apart before (after ++ more) (marks ++ new) := by
  obtain ⟨m₁, m₂, rfl, h₁, h₂⟩ := h
  refine ⟨m₁, m₂ ++ new, by rw [List.append_assoc, List.cons_append], h₁, ?_⟩
  rw [entriesOf_append, recordsOf_append, acceptedOf_append, h₂, hnew]

/-- A mark that stands for no record leaves the rotations apart. -/
theorem Apart.snoc {before after : List SinkCall} {done rest : List Mark} {m : Mark}
    (h : Apart before after (done ++ rest)) (hm : recordsOf (entriesOf [m]) = []) :
    Apart before after (done ++ (rest ++ [m])) := by
  rw [← List.append_assoc, ← List.append_nil after]
  exact h.append (hm.trans (rfl : [] = acceptedOf []))

/-- So does a call that accepts nothing. -/
theorem Apart.call {before after : List SinkCall} {marks : List Mark}
    (h : Apart before after marks) {call : SinkCall} (hcall : acceptedOf [call] = []) :
    Apart before (after ++ [call]) marks := by
  rw [← List.append_nil marks]
  exact h.append hcall.symm

/-- One more rotation: it is apart itself or put off, and those before it stay. -/
theorem apart_rotated {calls : List SinkCall} {marks : List Mark} {pending pending' : Bool}
    (h : ∀ before after, calls = before ++ .rotated :: after →
      Apart before after marks ∨ pending = true ∧ acceptedOf after = [])
    (hnew : Apart calls [] marks ∨ pending' = true) (hpending : pending = true → pending' = true)
    (before after : List SinkCall) (hcalls : calls ++ [.rotated] = before ++ .rotated :: after) :
    Apart before after marks ∨ pending' = true ∧ acceptedOf after = [] := by
  rcases split_snoc hcalls with ⟨after', rfl, hbefore⟩ | ⟨rfl, -, rfl⟩
  · rcases h before after' hbefore with hapart | ⟨hp, hafter⟩
    · exact .inl (hapart.call rfl)
    · refine .inr ⟨hpending hp, ?_⟩
      rw [acceptedOf_append, hafter]
      rfl
  · exact hnew.imp_right fun hp => ⟨hp, rfl⟩

/-- The item the loop has taken and not yet handled. -/
def WriterStage.held : WriterStage → List QueueItem
  | .handling item => [item]
  | _ => []

namespace SegmentSink

variable {s : SegmentSink} {done rest : List Mark}

/-- The marks of a run: what is handled lies on the disk, what is not is held,
queued or still with the call that holds the lock. -/
structure Tracks (codec : HeaderCodec) (cfg : SinkConfig) (calls : List SinkCall)
    (done rest : List Mark) (s : SegmentSink) : Prop where
  items : rest.map (Mark.item cfg.connId) = s.stage.held ++ s.queue ++ s.lock
  fit : ∀ m ∈ rest, m.FieldsFit cfg.connId
  lays : ∃ contents current, SinkFiles.Lays codec cfg.connId done s.disk contents current
  accounted : Accounted calls s.unreportedRefusals (entriesOf (done ++ rest))
  /-- A rotation is among the marks, or put off with no record after it. -/
  apart : ∀ before after, calls = before ++ .rotated :: after →
    Apart before after (done ++ rest) ∨ s.rotatePending = true ∧ acceptedOf after = []
  lastRotate : s.lastQueuedRotate = true → s.closed = false → ∃ m, done ++ rest = m ++ [.rotate]
  drained : s.finished = true → ∀ m ∈ rest, m = .wake

/-- What the calls and the loop keep, `close` having been called so often. -/
structure Sound (cfg : SinkConfig) (closes : Nat) (s : SegmentSink) : Prop where
  failure : s.failure = false
  raised : s.raised = false
  opened : s.closed = false → closes = 0 ∧ s.closing = 0 ∧ s.waking = 0 ∧
    s.stopping = false ∧ (s.started = false → s.stage = .absent) ∧
      s.queue.length + s.lock.length ≤ cfg.maxRecords + 2
  reported : s.closed = true → s.unreportedRefusals = 0
  released : s.stopping = true → s.lock = []
  flagged : 0 < s.waking → s.stopping = true
  flag : s.stage = .getting true → s.stopping = true
  /-- Each call of `close` queues one wake-up. -/
  bound : ∃ woken, woken + s.closing + s.waking ≤ closes ∧
    s.queue.length + s.lock.length ≤ cfg.maxRecords + 3 + woken ∧
      (0 < woken → s.stopping = true)
  suppressed : s.suppressed = true → 2 ≤ closes
  unstarted : s.started = false → s.closing + s.waking ≤ 1 ∧
    (s.draining = false → s.stage = .absent ∨ s.stage = .finished) ∧
      (s.draining = true → s.closing + s.waking = 0)
  finished : s.finished = true ↔ s.stage = .finished
  ended : s.finished = true → s.stopping = true

theorem sound_new (monoNs : Int) : Sound cfg 0 (new monoNs) where
  failure := rfl
  raised := rfl
  opened _ := ⟨rfl, rfl, rfl, rfl, fun _ => rfl, Nat.zero_le _⟩
  reported := nofun
  released := nofun
  flagged := nofun
  flag := nofun
  bound := ⟨0, Nat.le_refl _, Nat.zero_le _, nofun⟩
  suppressed := nofun
  unstarted _ := ⟨Nat.zero_le _, fun _ => .inl rfl, nofun⟩
  finished := by constructor <;> nofun
  ended := nofun

theorem tracks_new (monoNs : Int) : Tracks codec cfg [] [] [] (new monoNs) where
  items := rfl
  fit := nofun
  lays := ⟨[], [], .nil, nofun, fun _ => rfl, rfl, fun before after h => by
    cases before <;> cases h⟩
  accounted := .nil
  apart before after h := by cases before <;> cases h
  lastRotate := nofun
  drained := nofun

/-! ## What the calls do to the sink -/

theorem queueOverflowNotice_eq (cfg : SinkConfig) (s : SegmentSink) (monoNs wallNs : Int) :
    ∃ lock last, s.queueOverflowNotice cfg monoNs wallNs =
        { s with unreportedRefusals := 0, lock := lock, lastQueuedRotate := last } ∧
      lock.length ≤ s.lock.length + 1 := by
  rw [queueOverflowNotice]
  split
  · next h =>
      refine ⟨s.lock, s.lastQueuedRotate, ?_, Nat.le_succ _⟩
      rw [← h]
  · exact ⟨_, _, rfl, by rw [List.length_append, List.length_singleton]⟩

theorem queuePendingRotate_eq (s : SegmentSink) :
    ∃ lock, s.queuePendingRotate = { s with rotatePending := false, lock := lock } ∧
      lock.length ≤ s.lock.length + 1 := by
  rw [queuePendingRotate]
  split
  · exact ⟨_, rfl, by rw [List.length_append, List.length_singleton]⟩
  · next h =>
      have hnot : s.rotatePending = false := Bool.eq_false_of_not_eq_true h
      refine ⟨s.lock, ?_, Nat.le_succ _⟩
      rw [← hnot]

variable {closes : Nat} {monoNs wallNs : Int}

theorem Sound.queue_lt (h : Sound cfg closes s) (hlock : s.lock ≠ []) :
    s.queue.length < queueBound cfg := by
  have hpos : 0 < s.lock.length := List.length_pos_iff.mpr hlock
  obtain ⟨woken, -, hbound, hwoken⟩ := h.bound
  have hnone : ¬ 0 < woken := fun hlt => hlock (h.released (hwoken hlt))
  rw [queueBound, controlSlots]
  omega

/-- A call that finds room in an open sink may queue up to three items. -/
theorem Sound.extend (h : Sound cfg closes s) (hclosed : s.closed = false)
    (hroom : s.queue.length < cfg.maxRecords) {lock : List QueueItem} (hlen : lock.length ≤ 3)
    (unreported : Nat) (pending last : Bool) :
    Sound cfg closes { s with
      unreportedRefusals := unreported
      lock := lock
      rotatePending := pending
      lastQueuedRotate := last } := by
  obtain ⟨hcloses, hclosing, hwaking, hstopping, hstage, -⟩ := h.opened hclosed
  refine { h with opened := fun _ => ⟨hcloses, hclosing, hwaking, hstopping, hstage, ?_⟩,
                  reported := fun hc => ?_, released := fun hc => ?_, bound := ⟨0, ?_, ?_, nofun⟩ }
  · dsimp only
    omega
  · exact absurd (hclosed.symm.trans hc) Bool.false_ne_true
  · exact absurd (hstopping.symm.trans hc) Bool.false_ne_true
  · dsimp only
    omega
  · dsimp only
    omega

theorem Sound.unfinished (h : Sound cfg closes s) (hclosed : s.closed = false) :
    s.finished = false := by
  by_contra hfin
  have hstopping := h.ended (Bool.eq_true_of_not_eq_false hfin)
  have hnot := (h.opened hclosed).2.2.2.1
  exact absurd (hnot.symm.trans hstopping) Bool.false_ne_true

theorem Sound.put (h : Sound cfg closes s) (hfree : s.Free) (r : Record) (monoNs wallNs : Int) :
    Sound cfg closes (s.put cfg r monoNs wallNs).1 := by
  rw [SegmentSink.put]
  split
  · exact { h with }
  · next hopen =>
      have hclosed : s.closed = false := by simpa using fun hc => hopen (.inl hc)
      split
      · exact { h with reported := fun hc => absurd hc (by rw [hclosed]; decide) }
      · next hfull =>
          obtain ⟨lock₁, last, hnotice, hlen₁⟩ := queueOverflowNotice_eq cfg s monoNs wallNs
          obtain ⟨lock₂, hpending, hlen₂⟩ := queuePendingRotate_eq
            { s with unreportedRefusals := 0, lock := lock₁, lastQueuedRotate := last }
          rw [hfree, List.length_nil] at hlen₁
          dsimp only at hlen₂ ⊢
          rw [hnotice, hpending]
          refine h.extend hclosed (Nat.lt_of_not_le hfull) ?_ 0 false false
          dsimp only
          rw [List.length_append, List.length_singleton]
          omega

theorem Sound.rotate (h : Sound cfg closes s) (hfree : s.Free) (monoNs wallNs : Int) :
    Sound cfg closes (s.rotate cfg monoNs wallNs) := by
  rw [SegmentSink.rotate]
  split
  · exact h
  · next hopen =>
      have hclosed : s.closed = false := Bool.eq_false_of_not_eq_true hopen
      split
      · exact { h with }
      · next hfull =>
          obtain ⟨lock, last, hnotice, hlen⟩ := queueOverflowNotice_eq cfg s monoNs wallNs
          rw [hfree, List.length_nil] at hlen
          dsimp only
          rw [hnotice]
          split
          · exact h.extend hclosed (Nat.lt_of_not_le hfull) (by omega) 0 s.rotatePending last
          · refine h.extend hclosed (Nat.lt_of_not_le hfull) ?_ 0 s.rotatePending true
            dsimp only
            rw [List.length_append, List.length_singleton]
            omega

/-- The first `close` always has room for its notice. -/
theorem close_open (hclosed : s.closed = false) (hroom : s.queue.length < queueBound cfg) :
    s.close cfg monoNs wallNs =
      { ({ s with closed := true } : SegmentSink).queueOverflowNotice cfg monoNs wallNs with
        closing := s.closing + 1 } := by
  rw [SegmentSink.close, if_neg (by rw [hclosed]; decide), queueOverflowNotice]
  by_cases hnone : s.unreportedRefusals = 0
  · simp [hnone]
  · simp [hnone, hroom, queueOverflowNotice]

theorem Sound.close (h : Sound cfg closes s) (hmay : s.MayClose) :
    Sound cfg (closes + 1) (s.close cfg monoNs wallNs) := by
  obtain ⟨hfree, hoverlap⟩ := hmay
  obtain ⟨woken, hcloses, hbound, hwoken⟩ := h.bound
  have hstarted : s.started = false → s.draining = false ∧ s.closing = 0 ∧ s.waking = 0 := by
    intro hnot
    rcases hoverlap with hyes | hrest
    · exact absurd (hnot.symm.trans hyes) Bool.false_ne_true
    · exact hrest
  have hunstarted : s.started = false → s.closing + 1 + s.waking ≤ 1 ∧
      (s.draining = false → s.stage = .absent ∨ s.stage = .finished) ∧
        (s.draining = true → s.closing + 1 + s.waking = 0) := by
    intro hnot
    obtain ⟨hdraining, hclosing, hwaking⟩ := hstarted hnot
    refine ⟨by omega, (h.unstarted hnot).2.1, fun hyes => ?_⟩
    exact absurd (hdraining.symm.trans hyes) Bool.false_ne_true
  cases hclosed : s.closed with
  | true =>
      rw [SegmentSink.close, if_pos hclosed]
      refine { h with opened := fun hopen => ?_, bound := ⟨woken, ?_, hbound, hwoken⟩,
                      suppressed := fun hs => Nat.le_succ_of_le (h.suppressed hs),
                      unstarted := hunstarted }
      · exact absurd (hopen.symm.trans hclosed) Bool.false_ne_true
      · dsimp only
        omega
  | false =>
      obtain ⟨-, hclosing, hwaking, hstopping, -, hlen⟩ := h.opened hclosed
      have hroom : s.queue.length < queueBound cfg := by
        rw [queueBound, controlSlots]
        omega
      obtain ⟨lock, last, hnotice, hlock⟩ :=
        queueOverflowNotice_eq cfg { s with closed := true } monoNs wallNs
      rw [hfree, List.length_nil] at hlock
      rw [hfree, List.length_nil] at hlen
      rw [close_open hclosed hroom, hnotice]
      refine { h with opened := nofun, reported := fun _ => rfl, released := fun hc => ?_,
                      bound := ⟨0, ?_, ?_, nofun⟩,
                      suppressed := fun hs => Nat.le_succ_of_le (h.suppressed hs),
                      unstarted := hunstarted }
      · exact absurd (hstopping.symm.trans hc) Bool.false_ne_true
      · dsimp only
        omega
      · dsimp only
        omega

theorem Sound.start (h : Sound cfg closes s) : Sound cfg closes s.start := by
  rw [SegmentSink.start]
  split
  · exact h
  · next hnot =>
      have hstarted : s.started = false := by simpa using fun hs => hnot (.inl hs)
      have hclosed : s.closed = false := by simpa using fun hc => hnot (.inr hc)
      obtain ⟨hcloses, hclosing, hwaking, hstopping, hstage, hlen⟩ := h.opened hclosed
      have hunfinished := h.unfinished hclosed
      refine { h with opened := fun _ => ⟨hcloses, hclosing, hwaking, hstopping, nofun, hlen⟩,
                      flag := nofun, unstarted := nofun, finished := ⟨fun hfin => ?_, nofun⟩ }
      exact absurd (hunfinished.symm.trans hfin) Bool.false_ne_true

theorem Sound.enqueue (h : Sound cfg closes s) : Sound cfg closes (s.enqueue cfg) := by
  rw [SegmentSink.enqueue]
  split
  · exact h
  · next item rest hlock =>
      have hroom := h.queue_lt (by rw [hlock]; exact List.cons_ne_nil _ _)
      have hlen : (s.queue ++ [item]).length + rest.length = s.queue.length + s.lock.length := by
        rw [hlock, List.length_append, List.length_singleton, List.length_cons]
        omega
      obtain ⟨woken, hcloses, hbound, hwoken⟩ := h.bound
      rw [if_pos hroom]
      refine { h with opened := fun hopen => ?_, released := fun hc => ?_,
                      bound := ⟨woken, hcloses, ?_, hwoken⟩ }
      · obtain ⟨h₁, h₂, h₃, h₄, h₅, h₆⟩ := h.opened hopen
        exact ⟨h₁, h₂, h₃, h₄, h₅, hlen ▸ h₆⟩
      · exact absurd (h.released hc) (by rw [hlock]; exact List.cons_ne_nil _ _)
      · rw [← hlen] at hbound
        exact hbound

theorem Sound.setStopping (h : Sound cfg closes s) : Sound cfg closes s.setStopping := by
  rw [SegmentSink.setStopping]
  split
  · next hc =>
      obtain ⟨hclosing, hlock⟩ := hc
      obtain ⟨woken, hcloses, hbound, -⟩ := h.bound
      refine { h with opened := fun hopen => ?_, released := fun _ => hlock,
                      flagged := fun _ => rfl,
                      flag := fun _ => rfl, bound := ⟨woken, ?_, hbound, fun _ => rfl⟩,
                      unstarted := fun hnot => ?_,
                      ended := fun _ => rfl }
      · have := (h.opened hopen).2.1
        omega
      · dsimp only
        omega
      · obtain ⟨hone, hstage, hnone⟩ := h.unstarted hnot
        refine ⟨?_, hstage, fun hd => ?_⟩
        · dsimp only
          omega
        · have := hnone hd
          omega
  · exact h

/-- The wake-up of the only `close` finds room. -/
theorem Sound.queueWake (h : Sound cfg closes s) (hwaking : 0 < s.waking) :
    ∃ queue suppressed, (if s.queue.length < queueBound cfg then
        { s with queue := s.queue ++ [.wake] } else { s with suppressed := true }) =
        { s with queue := queue, suppressed := suppressed } ∧
      Sound cfg closes { s with
        queue := queue
        suppressed := suppressed
        waking := s.waking - 1 } := by
  obtain ⟨woken, hcloses, hbound, hwoken⟩ := h.bound
  have hstopping := h.flagged hwaking
  have hlock := h.released hstopping
  have hclosed : s.closed = false → False := fun hopen => by
    have := (h.opened hopen).2.2.1
    omega
  have hunstarted : s.started = false → s.closing + (s.waking - 1) ≤ 1 ∧
      (s.draining = false → s.stage = .absent ∨ s.stage = .finished) ∧
        (s.draining = true → s.closing + (s.waking - 1) = 0) := by
    intro hnot
    obtain ⟨hone, hstage, hnone⟩ := h.unstarted hnot
    exact ⟨by omega, hstage, fun _ => by omega⟩
  by_cases hroom : s.queue.length < queueBound cfg
  · refine ⟨s.queue ++ [.wake], s.suppressed, if_pos hroom, ?_⟩
    refine { h with opened := fun hopen => absurd hopen hclosed, flagged := fun _ => hstopping,
                    bound := ⟨woken + 1, ?_, ?_, fun _ => hstopping⟩, unstarted := hunstarted }
    · dsimp only
      omega
    · dsimp only
      rw [List.length_append, List.length_singleton]
      omega
  · refine ⟨s.queue, true, if_neg hroom, ?_⟩
    refine { h with opened := fun hopen => absurd hopen hclosed, flagged := fun _ => hstopping,
                    bound := ⟨woken, ?_, hbound, hwoken⟩, suppressed := fun _ => ?_,
                    unstarted := hunstarted }
    · dsimp only
      omega
    · rw [queueBound, controlSlots] at hroom
      rw [hlock, List.length_nil] at hbound
      omega

theorem Sound.wake (h : Sound cfg closes s) : Sound cfg closes (s.wake cfg) := by
  rw [SegmentSink.wake]
  split
  · exact h
  · next hwaking =>
      obtain ⟨queue, suppressed, hqueue, h'⟩ := h.queueWake (Nat.pos_of_ne_zero hwaking)
      dsimp only
      rw [hqueue]
      split
      · exact h'
      · next hnot =>
          have hfinished : s.finished = false := by simpa using fun hf => hnot (.inr hf)
          have hstarted : s.started = false := by simpa using fun hs => hnot (.inl hs)
          obtain ⟨hone, -, -⟩ := h.unstarted hstarted
          have hstage : s.closed = false → False := fun hopen => by
            have := (h.opened hopen).2.2.1
            omega
          refine { h' with opened := fun hopen => absurd hopen hstage, flag := nofun,
                           unstarted := fun _ => ⟨?_, nofun, fun _ => ?_⟩,
                           finished := ⟨fun hfin => ?_, nofun⟩ }
          · dsimp only
            omega
          · dsimp only
            omega
          · exact absurd (hfinished.symm.trans hfin) Bool.false_ne_true

/-! ## What the loop does to the sink -/

/-- A step of the loop, which ran before it and runs after it. -/
theorem Sound.loop (h : Sound cfg closes s) (stage : WriterStage)
    (hran : s.stage ≠ .absent ∧ s.stage ≠ .finished) (hruns : stage ≠ .finished)
    (hflag : stage = .getting true → s.stopping = true) {queue : List QueueItem}
    (hqueue : queue.length ≤ s.queue.length) (disk : SinkFiles) :
    Sound cfg closes { s with queue := queue, stage := stage, disk := disk } := by
  obtain ⟨woken, hcloses, hbound, hwoken⟩ := h.bound
  have hfinished : s.finished = false := by
    by_contra hfin
    exact hran.2 (h.finished.mp (Bool.eq_true_of_not_eq_false hfin))
  refine { h with opened := fun hopen => ?_, flag := hflag,
                  bound := ⟨woken, hcloses, ?_, hwoken⟩, unstarted := fun hnot => ?_,
                  finished := ⟨fun hfin => ?_, fun hs => absurd hs hruns⟩ }
  · obtain ⟨h₁, h₂, h₃, h₄, h₅, h₆⟩ := h.opened hopen
    refine ⟨h₁, h₂, h₃, h₄, fun hnot => absurd (h₅ hnot) hran.1, ?_⟩
    dsimp only
    omega
  · dsimp only
    omega
  · obtain ⟨hone, hstage, hnone⟩ := h.unstarted hnot
    refine ⟨hone, fun hd => ?_, hnone⟩
    rcases hstage hd with hs | hs
    · exact absurd hs hran.1
    · exact absurd hs hran.2
  · exact absurd (hfinished.symm.trans hfin) Bool.false_ne_true

theorem Sound.check (h : Sound cfg closes s) : Sound cfg closes s.check := by
  rw [SegmentSink.check]
  split
  · next hstage =>
      refine h.loop (.getting s.stopping) (by rw [hstage]; exact ⟨nofun, nofun⟩) nofun
        (fun hs => ?_) (Nat.le_refl _) s.disk
      exact WriterStage.getting.inj hs
  · exact h

theorem Sound.get (h : Sound cfg closes s) (env : Surroundings) :
    Sound cfg closes (s.get cfg env) := by
  rw [SegmentSink.get]
  split
  · next stopping hstage =>
      have hran : s.stage ≠ .absent ∧ s.stage ≠ .finished := by rw [hstage]; exact ⟨nofun, nofun⟩
      split
      · next item rest hqueue =>
          refine h.loop (.handling item) hran nofun nofun ?_ s.disk
          rw [hqueue]
          exact Nat.le_succ _
      · split
        · next hstop =>
            have hstopping := h.flag (by rw [hstage, hstop])
            rw [finish]
            refine { h with opened := fun hopen => ?_, flag := nofun, unstarted := fun hnot => ?_,
                            finished := ⟨fun _ => rfl, fun _ => rfl⟩, ended := fun _ => hstopping }
            · have hnot := (h.opened hopen).2.2.2.1
              exact absurd (hnot.symm.trans hstopping) Bool.false_ne_true
            · exact ⟨(h.unstarted hnot).1, fun _ => .inr rfl, nofun⟩
        · exact h.loop .loop hran nofun nofun (Nat.le_refl _) _
  · exact h

/-- As long as nothing escapes the handling. -/
theorem Sound.handle (h : Sound cfg closes s) (env : Surroundings)
    (hok : ∀ item, s.stage = .handling item → (handleItem codec s.disk env item).2 = none) :
    Sound cfg closes (s.handle codec cfg env) := by
  rw [SegmentSink.handle]
  split
  · next item hstage =>
      have hran : s.stage ≠ .absent ∧ s.stage ≠ .finished := by rw [hstage]; exact ⟨nofun, nofun⟩
      have hnone := hok item hstage
      split
      · exact h.loop .loop hran nofun nofun (Nat.le_refl _) _
      · next heq =>
          rw [heq] at hnone
          cases hnone
  · exact h

/-! ## The marks of a run -/

/-- The clock's reading, and the connection, fit a record's header. -/
def Reading (monoNs wallNs : Int) : Prop :=
  (0 ≤ monoNs ∧ monoNs < 2 ^ 64) ∧ (0 ≤ wallNs ∧ wallNs < 2 ^ 64)

instance (monoNs wallNs : Int) : Decidable (Reading monoNs wallNs) :=
  inferInstanceAs (Decidable (_ ∧ _))

/-- The refusals so far are reported. -/
theorem Tracks.notice (h : Tracks codec cfg calls done rest s)
    (hconn : 0 ≤ cfg.connId ∧ cfg.connId < 2 ^ 16) (hclock : Reading monoNs wallNs)
    (hfinished : s.finished = false) :
    ∃ rest', Tracks codec cfg calls done rest' (s.queueOverflowNotice cfg monoNs wallNs) ∧
      (s.queueOverflowNotice cfg monoNs wallNs).unreportedRefusals = 0 := by
  rw [queueOverflowNotice]
  split
  · next hnone => exact ⟨rest, h, hnone⟩
  · next hsome =>
      refine ⟨rest ++ [.entry (.notice s.unreportedRefusals monoNs wallNs)],
        ⟨?_, ?_, h.lays, ?_, fun before after hcalls => ?_, nofun, fun hfin => ?_⟩, rfl⟩
      · rw [List.map_append, h.items, List.append_assoc]
        rfl
      · rw [List.forall_mem_append]
        refine ⟨h.fit, List.forall_mem_singleton.mpr fun e he => ?_⟩
        obtain rfl := Mark.entry.inj he
        exact ⟨hconn, hclock⟩
      · rw [← List.append_assoc, entriesOf_append]
        exact .notice monoNs wallNs (Nat.pos_of_ne_zero hsome) h.accounted
      · exact (h.apart before after hcalls).imp_left fun hapart => hapart.snoc rfl
      · exact absurd (hfinished.symm.trans hfin) Bool.false_ne_true

/-- A rotation joins the marks behind everything accepted so far. -/
theorem Tracks.apart_of_last (h : Tracks codec cfg calls done rest s) {before after : List SinkCall}
    (hcalls : calls = before ++ .rotated :: after) (hafter : acceptedOf after = [])
    {m : List Mark} (hm : recordsOf (entriesOf m) = recordsOf (entriesOf (done ++ rest))) :
    Apart before after (m ++ [.rotate]) := by
  refine ⟨m, [], rfl, ?_, hafter.symm⟩
  rw [hm, h.accounted.records, hcalls, acceptedOf_append]
  exact (congrArg (acceptedOf before ++ ·) hafter).trans (List.append_nil _)

theorem Tracks.pendingRotate (h : Tracks codec cfg calls done rest s)
    (hfinished : s.finished = false) :
    ∃ rest', Tracks codec cfg calls done rest' s.queuePendingRotate ∧
      s.queuePendingRotate.rotatePending = false := by
  rw [queuePendingRotate]
  split
  · refine ⟨rest ++ [.rotate], ⟨?_, ?_, h.lays, ?_, fun before after hcalls => .inl ?_,
      fun _ _ => ⟨done ++ rest, (List.append_assoc _ _ _).symm⟩, fun hfin => ?_⟩, rfl⟩
    · rw [List.map_append, h.items, List.append_assoc]
      rfl
    · rw [List.forall_mem_append]
      exact ⟨h.fit, List.forall_mem_singleton.mpr nofun⟩
    · rw [← List.append_assoc, entriesOf_append]
      exact (List.append_nil (entriesOf (done ++ rest))).symm ▸ h.accounted
    · rcases h.apart before after hcalls with hapart | ⟨-, hafter⟩
      · exact hapart.snoc rfl
      · -- Nothing was accepted since it was put off.
        rw [← List.append_assoc]
        exact h.apart_of_last hcalls hafter rfl
    · exact absurd (hfinished.symm.trans hfin) Bool.false_ne_true
  · next hnot => exact ⟨rest, h, Bool.eq_false_of_not_eq_true hnot⟩

/-- A record joins the marks, when nothing is left to report or to rotate. -/
theorem Tracks.record (h : Tracks codec cfg calls done rest s) {r : Record} (hr : r.FieldsFit)
    (hfinished : s.finished = false) (hreported : s.unreportedRefusals = 0)
    (hpending : s.rotatePending = false) :
    ∃ rest', Tracks codec cfg (calls ++ [.accepted r]) done rest'
      { s with lock := s.lock ++ [.record r], lastQueuedRotate := false } := by
  refine ⟨rest ++ [.entry (.record r)], ?_, ?_, h.lays, ?_, fun before after hcalls => .inl ?_,
    nofun, fun hfin => ?_⟩
  · rw [List.map_append, h.items, List.append_assoc]
    rfl
  · rw [List.forall_mem_append]
    refine ⟨h.fit, List.forall_mem_singleton.mpr fun e he => ?_⟩
    obtain rfl := Mark.entry.inj he
    exact hr
  · have hacc := h.accounted
    rw [hreported] at hacc
    rw [← List.append_assoc, entriesOf_append]
    dsimp only
    rw [hreported]
    exact .accepted r hacc
  · rcases split_snoc hcalls with ⟨after', rfl, hbefore⟩ | ⟨-, hc, -⟩
    · rcases h.apart before after' hbefore with hapart | ⟨hyes, -⟩
      · rw [← List.append_assoc]
        exact hapart.append rfl
      · exact absurd (hpending.symm.trans hyes) Bool.false_ne_true
    · cases hc
  · exact absurd (hfinished.symm.trans hfin) Bool.false_ne_true

/-- A call that accepts nothing and is no rotation. -/
theorem Tracks.call (h : Tracks codec cfg calls done rest s) (call : SinkCall)
    (hcall : acceptedOf [call] = []) (hrotated : call ≠ .rotated) {n : Nat}
    (haccounted : Accounted (calls ++ [call]) n (entriesOf (done ++ rest))) :
    Tracks codec cfg (calls ++ [call]) done rest { s with unreportedRefusals := n } where
  items := h.items
  fit := h.fit
  lays := h.lays
  accounted := haccounted
  apart before after hcalls := by
    rcases split_snoc hcalls with ⟨after', rfl, hbefore⟩ | ⟨-, hc, -⟩
    · rw [acceptedOf_append, hcall, List.append_nil]
      exact (h.apart before after' hbefore).imp_left fun hapart => hapart.call hcall
    · exact absurd hc hrotated
  lastRotate := h.lastRotate
  drained := h.drained

theorem Tracks.put (h : Tracks codec cfg calls done rest s) (hsound : Sound cfg closes s)
    (hconn : 0 ≤ cfg.connId ∧ cfg.connId < 2 ^ 16) (hclock : Reading monoNs wallNs) {r : Record}
    (hr : r.FieldsFit) :
    ∃ s' accepted, s.put cfg r monoNs wallNs = (s', accepted) ∧
      ∃ rest', Tracks codec cfg (calls ++ [if accepted then .accepted r else
        if s.closed ∨ s.failure then .refused else .refusedFull]) done rest' s' := by
  rw [SegmentSink.put]
  by_cases hopen : s.closed = true ∨ s.failure = true
  · rw [if_pos hopen]
    have h' : Tracks codec cfg (calls ++ [.refused]) done rest s :=
      h.call .refused rfl nofun (.other (.inl rfl) h.accounted)
    refine ⟨_, _, rfl, rest, ?_⟩
    rw [if_neg Bool.false_ne_true, if_pos hopen]
    exact { h' with }
  · rw [if_neg hopen]
    by_cases hfull : cfg.maxRecords ≤ s.queue.length
    · rw [if_pos hfull]
      have h' : Tracks codec cfg (calls ++ [.refusedFull]) done rest
          { s with unreportedRefusals := s.unreportedRefusals + 1 } :=
        h.call .refusedFull rfl nofun (.refusedFull h.accounted)
      refine ⟨_, _, rfl, rest, ?_⟩
      rw [if_neg Bool.false_ne_true, if_neg hopen]
      exact { h' with }
    · rw [if_neg hfull]
      have hfinished := hsound.unfinished
        (Bool.eq_false_of_not_eq_true fun hc => hopen (.inl hc))
      obtain ⟨lock₁, last, hnotice, -⟩ := queueOverflowNotice_eq cfg s monoNs wallNs
      obtain ⟨rest₁, h₁, hreported⟩ := h.notice hconn hclock hfinished
      rw [hnotice] at h₁
      obtain ⟨lock₂, hpending, -⟩ := queuePendingRotate_eq
        { s with unreportedRefusals := 0, lock := lock₁, lastQueuedRotate := last }
      obtain ⟨rest₂, h₂, hrotated⟩ := h₁.pendingRotate hfinished
      rw [hpending] at h₂
      obtain ⟨rest₃, h₃⟩ := h₂.record hr hfinished rfl rfl
      refine ⟨_, _, rfl, rest₃, ?_⟩
      rw [if_pos rfl, hnotice, hpending]
      exact h₃

theorem Tracks.rotate (h : Tracks codec cfg calls done rest s) (hsound : Sound cfg closes s)
    (hconn : 0 ≤ cfg.connId ∧ cfg.connId < 2 ^ 16) (hclock : Reading monoNs wallNs) :
    ∃ rest', Tracks codec cfg (if s.closed then calls else calls ++ [.rotated]) done rest'
      (s.rotate cfg monoNs wallNs) := by
  rw [SegmentSink.rotate]
  by_cases hopen : s.closed = true
  · rw [if_pos hopen, if_pos hopen]
    exact ⟨rest, h⟩
  · rw [if_neg hopen, if_neg hopen]
    have hclosed : s.closed = false := Bool.eq_false_of_not_eq_true hopen
    split
    · -- The rotation is put off.
      exact ⟨rest, { h with accounted := .other (.inr (.inl rfl)) h.accounted,
                            apart := apart_rotated h.apart (.inr rfl) fun _ => rfl }⟩
    · have hfinished := hsound.unfinished hclosed
      obtain ⟨lock, last, hnotice, -⟩ := queueOverflowNotice_eq cfg s monoNs wallNs
      obtain ⟨rest₁, h₁, hreported⟩ := h.notice hconn hclock hfinished
      rw [hnotice] at h₁
      dsimp only
      rw [hnotice]
      split
      · next hlast =>
          -- The queue ends with a rotation already.
          obtain ⟨m, hm⟩ := h₁.lastRotate hlast hclosed
          have hnew : Apart calls [] (done ++ rest₁) := by
            refine ⟨m, [], hm, ?_, rfl⟩
            rw [← h₁.accounted.records, hm, entriesOf_append, recordsOf_append]
            exact (List.append_nil _).symm
          exact ⟨rest₁, { h₁ with accounted := .other (.inr (.inl rfl)) h₁.accounted,
                                  apart := apart_rotated h₁.apart (.inl hnew) id }⟩
      · have hnew : Apart calls [] (done ++ (rest₁ ++ [.rotate])) :=
          ⟨done ++ rest₁, [], (List.append_assoc _ _ _).symm, h₁.accounted.records, rfl⟩
        have hold := fun before after hcalls =>
          (h₁.apart before after hcalls).imp_left fun hapart => hapart.snoc (m := .rotate) rfl
        refine ⟨rest₁ ++ [.rotate], ?_, ?_, h₁.lays, ?_, apart_rotated hold (.inl hnew) id,
          fun _ _ => ⟨done ++ rest₁, (List.append_assoc _ _ _).symm⟩, fun hfin => ?_⟩
        · rw [List.map_append, h₁.items, List.append_assoc]
          rfl
        · rw [List.forall_mem_append]
          exact ⟨h₁.fit, List.forall_mem_singleton.mpr nofun⟩
        · rw [← List.append_assoc, entriesOf_append]
          refine .other (.inr (.inl rfl)) ?_
          exact (List.append_nil (entriesOf (done ++ rest₁))).symm ▸ h₁.accounted
        · exact absurd (hfinished.symm.trans hfin) Bool.false_ne_true

theorem Tracks.close (h : Tracks codec cfg calls done rest s) (hsound : Sound cfg closes s)
    (hconn : 0 ≤ cfg.connId ∧ cfg.connId < 2 ^ 16) (hclock : Reading monoNs wallNs) :
    ∃ rest', Tracks codec cfg (calls ++ [.closed]) done rest' (s.close cfg monoNs wallNs) := by
  cases hclosed : s.closed with
  | true =>
      rw [SegmentSink.close, if_pos hclosed]
      have h' : Tracks codec cfg (calls ++ [.closed]) done rest s :=
        h.call .closed rfl nofun (.other (.inr (.inr rfl)) h.accounted)
      exact ⟨rest, { h' with }⟩
  | false =>
      have hfinished := hsound.unfinished hclosed
      have hlen := (hsound.opened hclosed).2.2.2.2.2
      have hroom : s.queue.length < queueBound cfg := by
        rw [queueBound, controlSlots]
        omega
      have h₀ : Tracks codec cfg calls done rest { s with closed := true } :=
        { h with lastRotate := nofun }
      obtain ⟨lock, last, hnotice, -⟩ :=
        queueOverflowNotice_eq cfg { s with closed := true } monoNs wallNs
      obtain ⟨rest₁, h₁, hreported⟩ := h₀.notice hconn hclock hfinished
      have h₂ := h₁.call .closed rfl nofun (.other (.inr (.inr rfl)) h₁.accounted)
      rw [close_open hclosed hroom]
      exact ⟨rest₁, { h₂ with }⟩

theorem Tracks.enqueue (h : Tracks codec cfg calls done rest s) (hsound : Sound cfg closes s) :
    Tracks codec cfg calls done rest (s.enqueue cfg) := by
  rw [SegmentSink.enqueue]
  split
  · exact h
  · next item lock hlock =>
      rw [if_pos (hsound.queue_lt (by rw [hlock]; exact List.cons_ne_nil _ _))]
      refine { h with items := ?_ }
      rw [h.items, hlock]
      simp only [List.append_assoc, List.singleton_append]

theorem Tracks.wake (h : Tracks codec cfg calls done rest s) (hsound : Sound cfg closes s) :
    ∃ rest', Tracks codec cfg calls done rest' (s.wake cfg) := by
  rw [SegmentSink.wake]
  split
  · exact ⟨rest, h⟩
  · next hwaking =>
      have hpos := Nat.pos_of_ne_zero hwaking
      have hlock := hsound.released (hsound.flagged hpos)
      have hclosed : s.closed = true := by
        by_contra hopen
        have := (hsound.opened (Bool.eq_false_of_not_eq_true hopen)).2.2.1
        omega
      have hqueued : ∃ rest', Tracks codec cfg calls done rest'
          (if s.queue.length < queueBound cfg then { s with queue := s.queue ++ [.wake] }
            else { s with suppressed := true }) := by
        split
        · refine ⟨rest ++ [.wake], ?_, ?_, h.lays, ?_, fun before after hcalls => ?_,
            fun _ hopen => ?_, fun hfin => ?_⟩
          · rw [List.map_append, h.items, hlock]
            simp only [List.append_nil, List.append_assoc]
            rfl
          · rw [List.forall_mem_append]
            exact ⟨h.fit, List.forall_mem_singleton.mpr nofun⟩
          · rw [← List.append_assoc, entriesOf_append]
            exact (List.append_nil (entriesOf (done ++ rest))).symm ▸ h.accounted
          · exact (h.apart before after hcalls).imp_left fun hapart => hapart.snoc rfl
          · exact absurd (hopen.symm.trans hclosed) Bool.false_ne_true
          · rw [List.forall_mem_append]
            exact ⟨h.drained hfin, List.forall_mem_singleton.mpr rfl⟩
        · exact ⟨rest, { h with }⟩
      obtain ⟨rest', h'⟩ := hqueued
      obtain ⟨queue, suppressed, hqueue, -⟩ := hsound.queueWake hpos
      rw [hqueue] at h'
      dsimp only
      rw [hqueue]
      split
      · exact ⟨rest', { h' with }⟩
      · next hnot =>
          -- The thread was never started, and the call becomes the loop.
          have hstage : s.stage = .absent := by
            obtain ⟨hone, hidle, hnone⟩ :=
              hsound.unstarted (by simpa using fun hs => hnot (.inl hs))
            have hdraining : s.draining = false := by
              by_contra hd
              have := hnone (Bool.eq_true_of_not_eq_false hd)
              omega
            refine (hidle hdraining).resolve_right fun hs => hnot (.inr (hsound.finished.mpr hs))
          refine ⟨rest', { h' with items := ?_ }⟩
          have hitems := h'.items
          dsimp only at hitems
          rw [hstage] at hitems
          exact hitems

theorem Tracks.start (h : Tracks codec cfg calls done rest s) (hsound : Sound cfg closes s) :
    Tracks codec cfg calls done rest s.start := by
  rw [SegmentSink.start]
  split
  · exact h
  · next hnot =>
      have hstarted : s.started = false := by simpa using fun hs => hnot (.inl hs)
      have hclosed : s.closed = false := by simpa using fun hc => hnot (.inr hc)
      have hstage := (hsound.opened hclosed).2.2.2.2.1 hstarted
      refine { h with items := ?_ }
      have hitems := h.items
      rw [hstage] at hitems
      exact hitems

theorem Tracks.setStopping (h : Tracks codec cfg calls done rest s) :
    Tracks codec cfg calls done rest s.setStopping := by
  rw [SegmentSink.setStopping]
  split
  · exact { h with }
  · exact h

theorem Tracks.check (h : Tracks codec cfg calls done rest s) :
    Tracks codec cfg calls done rest s.check := by
  rw [SegmentSink.check]
  split
  · next hstage =>
      refine { h with items := ?_ }
      rw [h.items, hstage]
      rfl
  · exact h

/-- The loop takes an item; at the end there is none. -/
theorem Tracks.get (h : Tracks codec cfg calls done rest s) (hsound : Sound cfg closes s)
    (env : Surroundings) : Tracks codec cfg calls done rest (s.get cfg env) := by
  obtain ⟨contents, current, hlays⟩ := h.lays
  rw [SegmentSink.get]
  split
  · next stopping hstage =>
      split
      · next item queue hqueue =>
          refine { h with items := ?_ }
          rw [h.items, hstage, hqueue]
          rfl
      · next hqueue =>
          split
          · next hstop =>
              have hlock := hsound.released (hsound.flag (by rw [hstage, hstop]))
              obtain ⟨contents', hlays'⟩ := hlays.closeWriter env.closeFails
              have hnone : rest = [] := by
                have hitems := h.items
                rw [hstage, hqueue, hlock] at hitems
                exact List.map_eq_nil_iff.mp hitems
              subst hnone
              rw [finish]
              refine { h with items := ?_, lays := ⟨_, _, hlays'⟩, drained := nofun }
              rw [hqueue, hlock]
              rfl
          · obtain ⟨contents', current', hlays'⟩ := hlays.tick cfg env
            refine { h with items := ?_, lays := ⟨_, _, hlays'⟩ }
            rw [h.items, hstage, hqueue]
            rfl
  · exact h

theorem le_writeErrors_handle (codec : HeaderCodec) (cfg : SinkConfig) (s : SegmentSink)
    (env : Surroundings) {item : QueueItem}
    (hstage : s.stage = .handling item) :
    (handleItem codec s.disk env item).1.writeErrors ≤
      (s.handle codec cfg env).disk.writeErrors := by
  rw [SegmentSink.handle]
  simp only [hstage]
  split
  · next heq =>
      rw [heq]
      exact SinkFiles.le_writeErrors_tick (Nat.le_refl _) env
  · next heq =>
      rw [heq]
      exact SinkFiles.le_writeErrors_closeWriter (Nat.le_refl _) _

/-- The item is handled: its mark is laid, if the disk does not fail. -/
theorem Tracks.handle (h : Tracks codec cfg calls done rest s) (hsound : Sound cfg closes s)
    {env : Surroundings} (henv : env.InOrder codec)
    (herrors : (s.handle codec cfg env).disk.writeErrors = 0) :
    (∀ item, s.stage = .handling item → (handleItem codec s.disk env item).2 = none) ∧
      ∃ done' rest', Tracks codec cfg calls done' rest' (s.handle codec cfg env) := by
  by_cases hhandling : ∃ item, s.stage = .handling item
  · obtain ⟨item, hstage⟩ := hhandling
    obtain ⟨contents, current, hlays⟩ := h.lays
    have hle := le_writeErrors_handle codec cfg s env hstage
    have hitems := h.items
    rw [hstage] at hitems
    obtain ⟨m, rest', rfl, rfl, hrest⟩ := List.map_eq_cons_iff.mp hitems
    obtain ⟨hfit, hfits⟩ := List.forall_mem_cons.mp h.fit
    obtain ⟨d, hd, hlaid⟩ := handleItem_spec henv hfit hlays
    rw [hd] at hle
    obtain ⟨contents', current', hlays'⟩ := hlaid.resolve_left (by dsimp only at hle; omega)
    obtain ⟨_, _, hticked⟩ := hlays'.tick cfg env
    refine ⟨fun item hitem => ?_, done ++ [m], rest', ?_⟩
    · rw [hstage] at hitem
      obtain rfl := WriterStage.handling.inj hitem
      rw [hd]
    · have hmarks : done ++ [m] ++ rest' = done ++ m :: rest' := by
        rw [List.append_assoc, List.singleton_append]
      rw [SegmentSink.handle]
      simp only [hstage, hd]
      refine ⟨?_, hfits, ⟨_, _, hticked⟩, hmarks ▸ h.accounted, hmarks ▸ h.apart,
        hmarks ▸ h.lastRotate, fun hfin => ?_⟩
      · exact hrest
      · have := hsound.finished.mp hfin
        rw [hstage] at this
        cases this
  · have hnone : ∀ item, s.stage = .handling item → False := fun item hs => hhandling ⟨item, hs⟩
    refine ⟨fun item hs => (hnone item hs).elim, done, rest, ?_⟩
    rw [SegmentSink.handle]
    split
    · next item hs => exact (hnone item hs).elim
    · exact h

/-! ## Runs -/

theorem start_disk (s : SegmentSink) : s.start.disk = s.disk := by
  rw [SegmentSink.start]
  split <;> rfl

theorem enqueue_disk (s : SegmentSink) : (s.enqueue cfg).disk = s.disk := by
  rw [SegmentSink.enqueue]
  repeat' split
  all_goals rfl

theorem setStopping_disk (s : SegmentSink) : s.setStopping.disk = s.disk := by
  rw [SegmentSink.setStopping]
  split <;> rfl

theorem wake_disk (s : SegmentSink) : (s.wake cfg).disk = s.disk := by
  rw [SegmentSink.wake]
  dsimp only
  repeat' split
  all_goals rfl

theorem check_disk (s : SegmentSink) : s.check.disk = s.disk := by
  rw [SegmentSink.check]
  split <;> rfl

theorem le_writeErrors_get (cfg : SinkConfig) (s : SegmentSink) (env : Surroundings) :
    s.disk.writeErrors ≤ (s.get cfg env).disk.writeErrors := by
  rw [SegmentSink.get]
  split
  · split
    · exact Nat.le_refl _
    · split
      · exact SinkFiles.le_writeErrors_closeWriter (Nat.le_refl _) _
      · exact SinkFiles.le_writeErrors_tick (Nat.le_refl _) env
  · exact Nat.le_refl _

theorem put_disk (s : SegmentSink) (r : Record) : (s.put cfg r monoNs wallNs).1.disk = s.disk := by
  obtain ⟨lock₁, last, hnotice, -⟩ := queueOverflowNotice_eq cfg s monoNs wallNs
  obtain ⟨lock₂, hpending, -⟩ := queuePendingRotate_eq
    { s with unreportedRefusals := 0, lock := lock₁, lastQueuedRotate := last }
  rw [SegmentSink.put, hnotice, hpending]
  repeat' split
  all_goals rfl

theorem rotate_disk (s : SegmentSink) : (s.rotate cfg monoNs wallNs).disk = s.disk := by
  obtain ⟨lock, last, hnotice, -⟩ := queueOverflowNotice_eq cfg s monoNs wallNs
  rw [SegmentSink.rotate, hnotice]
  dsimp only
  repeat' split
  all_goals rfl

theorem close_disk (s : SegmentSink) : (s.close cfg monoNs wallNs).disk = s.disk := by
  obtain ⟨lock, last, hnotice, -⟩ :=
    queueOverflowNotice_eq cfg { s with closed := true } monoNs wallNs
  rw [SegmentSink.close]
  dsimp only at hnotice ⊢
  rw [hnotice]
  repeat' split
  all_goals rfl

end SegmentSink

/-- What the calls bring fits a record's header, and what the writer meets is in
order. -/
def SinkEvent.Fits (codec : HeaderCodec) : SinkEvent → Prop
  | .put r monoNs wallNs => r.FieldsFit ∧ SegmentSink.Reading monoNs wallNs
  | .rotate monoNs wallNs => SegmentSink.Reading monoNs wallNs
  | .close monoNs wallNs => SegmentSink.Reading monoNs wallNs
  | .handle env => env.InOrder codec
  | _ => True

namespace SegmentSink

/-- What a run keeps while the disk does not fail. -/
def Kept (codec : HeaderCodec) (cfg : SinkConfig) (t : List SinkCall × SegmentSink) : Prop :=
  t.2.disk.writeErrors = 0 → ∃ done rest, Tracks codec cfg t.1 done rest t.2 ∧
    Sound cfg (t.1.count .closed) t.2

theorem Sound.call (h : Sound cfg (calls.count .closed) s) {call : SinkCall}
    (hcall : call ≠ .closed) : Sound cfg ((calls ++ [call]).count .closed) s := by
  rw [List.count_append, List.count_singleton, if_neg (by simpa using hcall), Nat.add_zero]
  exact h

theorem kept_step (hconn : 0 ≤ cfg.connId ∧ cfg.connId < 2 ^ 16) (t : List SinkCall × SegmentSink)
    (e : SinkEvent) (h : Kept codec cfg t) (he : e.Fits codec) :
    Kept codec cfg (step codec cfg t e) := by
  obtain ⟨calls, s⟩ := t
  cases e with
  | start =>
      rw [step]
      split
      · intro herrors
        rw [start_disk] at herrors
        obtain ⟨done, rest, htracks, hsound⟩ := h herrors
        exact ⟨done, rest, htracks.start hsound, hsound.start⟩
      · exact h
  | put r monoNs wallNs =>
      rw [step]
      split
      · next hfree =>
          intro herrors
          have herrors : (s.put cfg r monoNs wallNs).1.disk.writeErrors = 0 := herrors
          rw [put_disk] at herrors
          obtain ⟨done, rest, htracks, hsound⟩ := h herrors
          obtain ⟨s', accepted, hput, rest', htracks'⟩ := htracks.put hsound hconn he.2 he.1
          have hsound' := hsound.put hfree r monoNs wallNs
          rw [hput] at hsound' ⊢
          refine ⟨done, rest', htracks', hsound'.call ?_⟩
          split
          · exact nofun
          · split <;> exact nofun
      · exact h
  | rotate monoNs wallNs =>
      rw [step]
      split
      · next hfree =>
          intro herrors
          have herrors : (s.rotate cfg monoNs wallNs).disk.writeErrors = 0 := herrors
          rw [rotate_disk] at herrors
          obtain ⟨done, rest, htracks, hsound⟩ := h herrors
          obtain ⟨rest', htracks'⟩ := htracks.rotate hsound hconn he
          have hsound' := hsound.rotate hfree monoNs wallNs
          refine ⟨done, rest', htracks', ?_⟩
          dsimp only
          split
          · exact hsound'
          · exact hsound'.call nofun
      · exact h
  | close monoNs wallNs =>
      rw [step]
      split
      · next hmay =>
          intro herrors
          have herrors : (s.close cfg monoNs wallNs).disk.writeErrors = 0 := herrors
          rw [close_disk] at herrors
          obtain ⟨done, rest, htracks, hsound⟩ := h herrors
          obtain ⟨rest', htracks'⟩ := htracks.close hsound hconn he
          refine ⟨done, rest', htracks', ?_⟩
          dsimp only
          rw [List.count_append, List.count_singleton_self]
          exact hsound.close hmay
      · exact h
  | enqueue =>
      intro herrors
      have herrors : (s.enqueue cfg).disk.writeErrors = 0 := herrors
      rw [enqueue_disk] at herrors
      obtain ⟨done, rest, htracks, hsound⟩ := h herrors
      exact ⟨done, rest, htracks.enqueue hsound, hsound.enqueue⟩
  | setStopping =>
      intro herrors
      have herrors : s.setStopping.disk.writeErrors = 0 := herrors
      rw [setStopping_disk] at herrors
      obtain ⟨done, rest, htracks, hsound⟩ := h herrors
      exact ⟨done, rest, htracks.setStopping, hsound.setStopping⟩
  | wake =>
      intro herrors
      have herrors : (s.wake cfg).disk.writeErrors = 0 := herrors
      rw [wake_disk] at herrors
      obtain ⟨done, rest, htracks, hsound⟩ := h herrors
      obtain ⟨rest', htracks'⟩ := htracks.wake hsound
      exact ⟨done, rest', htracks', hsound.wake⟩
  | check =>
      intro herrors
      have herrors : s.check.disk.writeErrors = 0 := herrors
      rw [check_disk] at herrors
      obtain ⟨done, rest, htracks, hsound⟩ := h herrors
      exact ⟨done, rest, htracks.check, hsound.check⟩
  | get env =>
      intro herrors
      have herrors₀ := Nat.le_antisymm ((le_writeErrors_get cfg s env).trans_eq herrors)
        (Nat.zero_le _)
      obtain ⟨done, rest, htracks, hsound⟩ := h herrors₀
      exact ⟨done, rest, htracks.get hsound env, hsound.get env⟩
  | handle env =>
      intro herrors
      have herrors : (s.handle codec cfg env).disk.writeErrors = 0 := herrors
      have hle : s.disk.writeErrors ≤ (s.handle codec cfg env).disk.writeErrors := by
        by_cases hhandling : ∃ item, s.stage = .handling item
        · obtain ⟨item, hstage⟩ := hhandling
          exact Nat.le_trans (le_writeErrors_handleItem (Nat.le_refl _) env item)
            (le_writeErrors_handle codec cfg s env hstage)
        · rw [SegmentSink.handle]
          split
          · next item hs => exact absurd ⟨item, hs⟩ hhandling
          · exact Nat.le_refl _
      obtain ⟨done, rest, htracks, hsound⟩ := h (by dsimp only; omega)
      obtain ⟨hok, done', rest', htracks'⟩ := htracks.handle hsound he herrors
      exact ⟨done', rest', htracks', hsound.handle env hok⟩

end SegmentSink

end Tape
