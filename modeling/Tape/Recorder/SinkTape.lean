import Tape.Recorder.SinkQueue
import Tape.Segment.Reader

/-!
# The tape of a segment sink

`tape_of_calls` is the contract of the sink over any interleaving of its calls
with the steps of its thread: the files hold what was accepted, in order, with a
notice wherever something was refused; a rotation parts the files; and the queue
has room for whatever a producer queues.

Three things it does not promise, each with its run. A record longer than a
record may be is accepted and then dropped by the writer; one whose fields do
not fit ends the thread; and the wake-up of a `close` after the first may find
the queue full, which `close` suppresses.
-/

namespace Tape

/-- Not longer than a record may be. -/
def Record.short (r : Record) : Bool := decide (r.payload.length ≤ maxPayload)

theorem recordsOf_short (connId : Int) (entries : List TapeEntry) :
    recordsOf (entries.filter (TapeEntry.short connId)) =
      (recordsOf entries).filter Record.short := by
  induction entries with
  | nil => rfl
  | cons e entries ih =>
      cases e with
      | record r =>
          have hshort : TapeEntry.short connId (.record r) = r.short := rfl
          have hcons : recordsOf (.record r :: entries) = r :: recordsOf entries := rfl
          rw [hcons, List.filter_cons, List.filter_cons, hshort]
          cases r.short with
          | true => exact congrArg (r :: ·) ih
          | false => exact ih
      | notice n monoNs wallNs =>
          have hcons : recordsOf (.notice n monoNs wallNs :: entries) = recordsOf entries := rfl
          rw [hcons, List.filter_cons, ← ih]
          split <;> rfl

theorem recordsOf_laid (connId : Int) (marks : List Mark) :
    recordsOf (laid connId marks) = (recordsOf (entriesOf marks)).filter Record.short :=
  recordsOf_short connId (entriesOf marks)

variable {codec : HeaderCodec} {cfg : SinkConfig} {calls : List SinkCall}

namespace SegmentSink

variable {s : SegmentSink} {done rest : List Mark}

theorem kept_run (hconn : 0 ≤ cfg.connId ∧ cfg.connId < 2 ^ 16) (monoNs : Int)
    {es : List SinkEvent} (hfits : ∀ e ∈ es, e.Fits codec) :
    Kept codec cfg (Run.final (step codec cfg) ([], new monoNs) es) := by
  have halong : Run.Along (step codec cfg) (fun _ e => e.Fits codec) ([], new monoNs) es := by
    generalize ([], new monoNs) = t
    induction es generalizing t with
    | nil => trivial
    | cons e es ih =>
        obtain ⟨he, hrest⟩ := List.forall_mem_cons.mp hfits
        exact ⟨he, ih hrest _⟩
  refine (Run.throughout_of_step (kept_step hconn) ?_ halong).last
  exact fun _ => ⟨[], [], tracks_new monoNs, sound_new monoNs⟩

/-- A rotation parts the files: what was accepted before it is in some, what was
accepted after it in the ones that follow. -/
theorem Tracks.parts (h : Tracks codec cfg calls done rest s) {cs : List (List TapeEntry)}
    (hwhole : cs.flatten = laid cfg.connId done)
    (hcuts : ∀ m₁ m₂, done = m₁ ++ .rotate :: m₂ → ∃ k,
      (cs.take k).flatten = laid cfg.connId m₁ ∧ (cs.drop k).flatten = laid cfg.connId m₂)
    {before after : List SinkCall} (hcalls : calls = before ++ .rotated :: after) :
    ∃ k, recordsOf (cs.take k).flatten <+: (acceptedOf before).filter Record.short ∧
      recordsOf (cs.drop k).flatten <+: (acceptedOf after).filter Record.short := by
  have hall : recordsOf (laid cfg.connId done) <+: (acceptedOf before).filter Record.short →
      ∃ k, recordsOf (cs.take k).flatten <+: (acceptedOf before).filter Record.short ∧
        recordsOf (cs.drop k).flatten <+: (acceptedOf after).filter Record.short := by
    intro hbefore
    refine ⟨cs.length, ?_, ?_⟩
    · rw [List.take_length, hwhole]
      exact hbefore
    · rw [List.drop_length]
      exact List.nil_prefix
  rcases h.apart before after hcalls with ⟨m₁, m₂, hmarks, h₁, h₂⟩ | ⟨-, hafter⟩
  · rcases List.append_eq_append_iff.mp hmarks with ⟨t, rfl, hrest⟩ | ⟨t, rfl, hrest⟩
    · -- The rotation is still to be handled.
      refine hall ?_
      rw [recordsOf_laid, ← h₁, entriesOf_append, recordsOf_append]
      exact (List.prefix_append _ _).filter _
    · rcases List.append_eq_cons_iff.mp hrest.symm with ⟨rfl, rfl⟩ | ⟨t, rfl, rfl⟩
      · refine hall ?_
        rw [List.append_nil, recordsOf_laid, h₁]
      · obtain ⟨k, hbefore, hafter⟩ := hcuts m₁ t rfl
        refine ⟨k, ?_, ?_⟩
        · rw [hbefore, recordsOf_laid, h₁]
        · rw [hafter, recordsOf_laid, ← h₂, entriesOf_append, recordsOf_append]
          exact (List.prefix_append _ _).filter _
  · refine hall ?_
    have hrecords := h.accounted.records
    rw [entriesOf_append, recordsOf_append, hcalls, acceptedOf_append] at hrecords
    have hnone : acceptedOf (SinkCall.rotated :: after) = [] := hafter
    rw [hnone, List.append_nil] at hrecords
    rw [recordsOf_laid, ← hrecords]
    exact (List.prefix_append _ _).filter _

/-- Any interleaving of calls and steps of the thread in which the disk does not
fail. -/
theorem tape_of_calls (codec : HeaderCodec) (cfg : SinkConfig)
    (hconn : 0 ≤ cfg.connId ∧ cfg.connId < 2 ^ 16) (monoNs : Int) (es : List SinkEvent)
    (hfits : ∀ e ∈ es, e.Fits codec) {calls : List SinkCall} {s : SegmentSink}
    (hrun : Run.final (step codec cfg) ([], new monoNs) es = (calls, s))
    (hdisk : s.disk.writeErrors = 0) :
    (∃ tape contents, List.Forall₂ (SegmentFile.Holds codec cfg.connId) s.disk.all contents ∧
      Accounted calls s.unreportedRefusals tape ∧
      contents.flatten <+: tape.filter (TapeEntry.short cfg.connId) ∧
      (s.finished = true → contents.flatten = tape.filter (TapeEntry.short cfg.connId)) ∧
      (.closed ∈ calls → s.unreportedRefusals = 0 ∧
        calls.count .refusedFull = (droppedOf tape).sum) ∧
      ∀ before after, calls = before ++ .rotated :: after → ∃ k,
        recordsOf (contents.take k).flatten <+: (acceptedOf before).filter Record.short ∧
          recordsOf (contents.drop k).flatten <+: (acceptedOf after).filter Record.short) ∧
    s.raised = false ∧ (s.suppressed = true → 2 ≤ calls.count .closed) := by
  have hkept := kept_run hconn monoNs hfits
  rw [hrun] at hkept
  obtain ⟨done, rest, htracks, hsound⟩ := hkept hdisk
  obtain ⟨contents, current, hlays⟩ := htracks.lays
  obtain ⟨cs, hholds, hwhole, hcuts⟩ := hlays.all
  refine ⟨⟨entriesOf (done ++ rest), cs, hholds, htracks.accounted, ?_, fun hfin => ?_,
    fun hmem => ?_, fun before after hcalls => htracks.parts hwhole hcuts hcalls⟩,
    hsound.raised, hsound.suppressed⟩
  · rw [hwhole, entriesOf_append, List.filter_append]
    exact List.prefix_append _ _
  · have hwakes : entriesOf rest = [] := by
      rw [entriesOf, List.filterMap_eq_nil_iff]
      intro m hm
      rw [htracks.drained hfin m hm]
      rfl
    rw [hwhole, entriesOf_append, hwakes, List.append_nil]
    rfl
  · have hclosed : s.closed = true := by
      by_contra hopen
      have hnone := (hsound.opened (Bool.eq_false_of_not_eq_true hopen)).1
      exact absurd hmem (List.count_eq_zero.mp hnone)
    have hreported := hsound.reported hclosed
    refine ⟨hreported, ?_⟩
    have hrefusals := htracks.accounted.refusals
    rw [hreported] at hrefusals
    exact hrefusals

/-- A writer that meets nothing unusual. -/
def fairSurroundings : Surroundings where
  writeWallNs := 20
  openMonoNs := 10
  tickWallNs := 21
  tickMonoNs := 11
  flushMonoNs := 12
  header := some bareHeader
  touch := fun _ => .created
  createFails := false
  appendFails := false
  flushFails := false
  closeFails := false
  tickCloseFails := false

/-- The loop takes an item and handles it. -/
def turnEvents : List SinkEvent := [.check, .get fairSurroundings, .handle fairSurroundings]

/-- A frame with some payload. -/
def sinkRecord (payload : List UInt8) : Record := ⟨.frame, 1, 10, 20, payload⟩

/-- In a queue of one record: a record, one that is refused, a rotation, and a
record after it; then the end. -/
def smallRun : List SinkEvent :=
  [.start, .put (sinkRecord [1]) 1 2, .enqueue, .put (sinkRecord [2]) 1 2, .rotate 1 2] ++
    turnEvents ++ [.put (sinkRecord [3]) 3 4, .enqueue, .enqueue, .enqueue, .close 5 6,
      .setStopping, .wake] ++ turnEvents ++ turnEvents ++ turnEvents ++ turnEvents ++
    [.check, .get fairSurroundings]

/-- A sink with room for one record. -/
def smallSink : SinkConfig := ⟨1, 1, 1000⟩

theorem fits_turn : ∀ e ∈ turnEvents, e.Fits bareCodec := by
  have hjson : (bareCodec.encode bareHeader).length < 2 ^ 32 := by
    have hlen : (bareCodec.encode bareHeader).length = 149 := tornReads_facts.2.2.2.2.1
    omega
  have henv : fairSurroundings.InOrder bareCodec := ⟨by decide, bareHeader, rfl, hjson⟩
  exact List.forall_mem_cons.mpr ⟨trivial, List.forall_mem_cons.mpr ⟨trivial,
    List.forall_mem_singleton.mpr henv⟩⟩

theorem fits_smallRun : ∀ e ∈ smallRun, e.Fits bareCodec := by
  have hclock : Reading 1 2 ∧ Reading 3 4 ∧ Reading 5 6 := by decide
  have hrecords : (sinkRecord [1]).FieldsFit ∧ (sinkRecord [2]).FieldsFit ∧
      (sinkRecord [3]).FieldsFit := by decide
  intro e he
  simp only [smallRun, List.mem_append, or_assoc, List.mem_cons, List.not_mem_nil, or_false] at he
  rcases he with rfl | rfl | rfl | rfl | rfl | he | rfl | rfl | rfl | rfl | rfl | rfl | rfl |
    he | he | he | he | rfl | rfl
  all_goals first
    | exact fits_turn e he
    | exact ⟨hrecords.1, hclock.1⟩
    | exact ⟨hrecords.2.1, hclock.1⟩
    | exact ⟨hrecords.2.2, hclock.2.1⟩
    | exact hclock.1
    | exact hclock.2.2
    | exact trivial

theorem smallRun_facts :
    let t := Run.final (step bareCodec smallSink) ([], new 0) smallRun
    t.1 = [.accepted (sinkRecord [1]), .refusedFull, .rotated, .accepted (sinkRecord [3]),
      .closed] ∧ t.2.finished = true ∧ t.2.disk.writeErrors = 0 ∧ t.2.disk.all.length = 2 := by
  decide +kernel

/-- The refusal is reported, and the rotation parts the two records. -/
theorem tape_of_smallRun :
    ∃ calls s tape contents,
      Run.final (step bareCodec smallSink) ([], new 0) smallRun = (calls, s) ∧
      calls = [.accepted (sinkRecord [1]), .refusedFull, .rotated, .accepted (sinkRecord [3]),
        .closed] ∧
      s.disk.all.length = 2 ∧
      List.Forall₂ (SegmentFile.Holds bareCodec smallSink.connId) s.disk.all contents ∧
      Accounted calls 0 tape ∧ (droppedOf tape).sum = 1 ∧
      contents.flatten = tape.filter (TapeEntry.short smallSink.connId) ∧ s.raised = false := by
  obtain ⟨hcalls, hfinished, herrors, hfiles⟩ := smallRun_facts
  obtain ⟨⟨tape, contents, hholds, haccounted, -, hwhole, hclosed, -⟩, hraised, -⟩ :=
    tape_of_calls bareCodec smallSink (by decide) 0 smallRun fits_smallRun Prod.mk.eta.symm herrors
  rw [hcalls] at hclosed
  obtain ⟨hreported, hdropped⟩ := hclosed (by decide)
  rw [hreported] at haccounted
  exact ⟨_, _, tape, contents, Prod.mk.eta.symm, hcalls, hfiles, hholds, haccounted,
    hdropped.symm, hwhole hfinished, hraised⟩

/-! ## What the sink does not promise -/

/-- A queue that is full of a notice, a rotation, a record and two wake-ups. -/
def crowdedRun : List SinkEvent :=
  [.start, .put (sinkRecord [1]) 1 2, .enqueue, .put (sinkRecord [2]) 1 2, .rotate 1 2, .check,
    .get fairSurroundings, .put (sinkRecord [3]) 3 4, .enqueue, .enqueue, .enqueue,
    .put (sinkRecord [4]) 3 4, .close 5 6, .enqueue, .setStopping, .wake, .close 5 6, .setStopping,
    .wake]

/-- One record, and the end. -/
def loneRun (r : Record) : List SinkEvent :=
  [.start, .put r 1 2, .enqueue] ++ turnEvents ++ [.close 5 6, .setStopping, .wake] ++
    turnEvents ++ [.check, .get fairSurroundings]

theorem append_long {r : Record} (hlen : maxPayload < r.payload.length) {w : SegmentWriter}
    (hopen : w.closed = false) :
    w.append r = .error (.value "payload too large for segment record") := by
  rw [SegmentWriter.append, hopen]
  simp only [Bool.false_eq_true, if_false, if_pos hlen]

/-- A file with nothing in it but its header. -/
def bareFile (w : SegmentWriter) : SegmentFile := ⟨0, 0, bareHeader, w⟩

/-- The disk after a first record that is too long. -/
def longLost (w : SegmentWriter) : SinkFiles :=
  { SinkFiles.new 0 with
    writer := some (bareFile w)
    writerHour := 0
    counterHour := 0
    nextCounter := 1
    lastFlushNs := 10
    recordsLost := 1
    filesOpened := 1 }

theorem openFrom_first (fuel : Nat) {w : SegmentWriter}
    (hw : SegmentWriter.new bareCodec bareHeader = .ok w) :
    SinkFiles.openFrom bareCodec fairSurroundings 0 (fuel + 1) 0
        { SinkFiles.new 0 with counterHour := 0 } =
      ({ longLost w with recordsLost := 0 }, none) := by
  have hwall : ¬ (fairSurroundings.writeWallNs < 0 ∨
      datetimeEndNs ≤ fairSurroundings.writeWallNs) := by decide
  rw [SinkFiles.openFrom, if_neg hwall]
  simp only [SinkFiles.owns, SinkFiles.new, List.any_nil, Bool.false_eq_true, if_false,
    fairSurroundings, hw]
  rfl

theorem write_long {r : Record} (hlen : maxPayload < r.payload.length) {w : SegmentWriter}
    (hw : SegmentWriter.new bareCodec bareHeader = .ok w) (hopen : w.closed = false) :
    (SinkFiles.new 0).write bareCodec r fairSurroundings = (longLost w, none) := by
  have hhour : hourOf fairSurroundings.writeWallNs = 0 := by decide
  have hcounters : maxSegmentsPerHour - 0 = 9999 + 1 := by decide
  have hfor : (SinkFiles.new 0).writerFor bareCodec fairSurroundings =
      ({ longLost w with recordsLost := 0 }, none) := by
    rw [SinkFiles.writerFor, SinkFiles.openFile, hhour]
    simp only [SinkFiles.closePastHour, SinkFiles.new, Option.isSome_none, Bool.false_eq_true,
      false_and, if_false, ne_eq, (by decide : ¬ (0 : Int) = -1), not_false_eq_true, if_true,
      hcounters]
    exact openFrom_first 9999 hw
  rw [SinkFiles.write, hfor]
  simp only [longLost, bareFile, append_long hlen hopen]

/-- It is accepted, counted as lost, and nowhere on the tape. -/
theorem loneRun_long {r : Record} (hlen : maxPayload < r.payload.length) :
    let t := Run.final (step bareCodec smallSink) ([], new 0) (loneRun r)
    t.1 = [.accepted r, .closed] ∧ t.2.finished = true ∧ t.2.disk.writeErrors = 0 ∧
      ∀ f ∈ t.2.disk.all, f.writer.stream = headerBytes bareCodec f.header := by
  have hjson : (bareCodec.encode bareHeader).length < 2 ^ 32 := by
    have hlen : (bareCodec.encode bareHeader).length = 149 := tornReads_facts.2.2.2.2.1
    omega
  obtain ⟨w, hw, hopen, hstream⟩ := SegmentWriter.new_of_fits hjson
  have htaken : Run.final (step bareCodec smallSink) ([], new 0)
      [.start, .put r 1 2, .enqueue, .check, .get fairSurroundings] =
        ([.accepted r], { new 0 with started := true, stage := .handling (.record r) }) := rfl
  have hhandled : step bareCodec smallSink
      ([.accepted r], { new 0 with started := true, stage := .handling (.record r) })
        (.handle fairSurroundings) =
      ([.accepted r], { new 0 with started := true, stage := .loop, disk := longLost w }) := by
    have hwrite : handleItem bareCodec (new 0).disk fairSurroundings (.record r) =
        (longLost w, none) := write_long hlen hw hopen
    rw [step, SegmentSink.handle]
    simp only [hwrite]
    rfl
  have hsplit : loneRun r = [.start, .put r 1 2, .enqueue, .check, .get fairSurroundings] ++
      .handle fairSurroundings :: ([.close 5 6, .setStopping, .wake] ++ (turnEvents ++
        [.check, .get fairSurroundings])) := rfl
  have hclosed : Run.final (step bareCodec smallSink)
      ([.accepted r], { new 0 with started := true, stage := .loop, disk := longLost w })
      [.close 5 6, .setStopping, .wake] = ([.accepted r, .closed], { new 0 with
        started := true
        closed := true
        stopping := true
        queue := [.wake]
        stage := .loop
        disk := longLost w }) := rfl
  have hawake : Run.final (step bareCodec smallSink) ([.accepted r, .closed], { new 0 with
        started := true
        closed := true
        stopping := true
        queue := [.wake]
        stage := .loop
        disk := longLost w }) turnEvents = ([.accepted r, .closed], { new 0 with
        started := true
        closed := true
        stopping := true
        stage := .loop
        disk := longLost w }) := rfl
  have hended : Run.final (step bareCodec smallSink) ([.accepted r, .closed], { new 0 with
        started := true
        closed := true
        stopping := true
        stage := .loop
        disk := longLost w }) [.check, .get fairSurroundings] =
      ([.accepted r, .closed], { new 0 with
        started := true
        closed := true
        stopping := true
        stage := .finished
        finished := true
        disk := (longLost w).closeWriter false }) := rfl
  dsimp only
  rw [hsplit, Run.final_append, htaken, Run.final_cons, hhandled, Run.final_append, hclosed,
    Run.final_append, hawake, hended]
  have hall : ((longLost w).closeWriter false).all = [{ bareFile w with writer := w.close }] := rfl
  refine ⟨rfl, rfl, rfl, fun f hf => ?_⟩
  have hf : f ∈ ((longLost w).closeWriter false).all := hf
  rw [hall, List.mem_singleton] at hf
  rw [hf]
  exact hstream

theorem loneRun_misfit :
    let r : Record := { sinkRecord [1] with connId := 2 ^ 16 }
    let t := Run.final (step bareCodec smallSink) ([], new 0) (loneRun r)
    t.1 = [.accepted r, .closed] ∧ t.2.disk.writeErrors = 0 ∧ t.2.failure = true := by
  decide +kernel

/-- A `close` after the first meets a full queue; a record too long is accepted
and is not on the tape; and one whose fields do not fit ends the thread. -/
theorem sink_limits :
    (Run.final (step bareCodec smallSink) ([], new 0) crowdedRun).2.suppressed = true ∧
    (∃ r : Record, r.FieldsFit ∧
      let t := Run.final (step bareCodec smallSink) ([], new 0) (loneRun r)
      t.1 = [.accepted r, .closed] ∧ t.2.finished = true ∧ t.2.disk.writeErrors = 0 ∧
        ∀ f ∈ t.2.disk.all, f.writer.stream = headerBytes bareCodec f.header) ∧
    ∃ r : Record,
      let t := Run.final (step bareCodec smallSink) ([], new 0) (loneRun r)
      t.1 = [.accepted r, .closed] ∧ t.2.disk.writeErrors = 0 ∧ t.2.failure = true := by
  obtain ⟨payload, hlen⟩ : ∃ payload : List UInt8, maxPayload < payload.length :=
    ⟨List.replicate (maxPayload + 1) 0, by
      rw [List.length_replicate]
      exact Nat.lt_succ_self _⟩
  have hfields : (sinkRecord payload).FieldsFit := (by decide : (sinkRecord []).FieldsFit)
  have hcrowded : (Run.final (step bareCodec smallSink) ([], new 0) crowdedRun).2.suppressed =
      true := by decide +kernel
  exact ⟨hcrowded, ⟨_, hfields, loneRun_long hlen⟩, _, loneRun_misfit⟩

end SegmentSink

end Tape
