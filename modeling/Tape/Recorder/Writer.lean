import Tape.Run
import Tape.Segment.Format

/-!
# The writer thread of a connection

`SegmentSink` hands records from the asyncio side to one thread that owns the
segment files. Between the two is a bounded queue, which also carries the
rotations and a wake-up, and a lock that keeps the calls of the producers apart.

Both sides are here with every step another thread could notice. A call takes
the lock and decides what it will queue; each `put_nowait` is then a step of its
own, so the writer may take items in between. The writer reads the stopping
flag, takes an item, and handles it; what it does with its files nobody else
sees, so that is one step. The clock, the header factory and the disk are what
the writer meets in a step.

Calls of `close` may overlap like any others, except on a sink that was never
started: there the call itself runs the writer's loop, and one such call ends
before the next begins.
-/

namespace Tape

/-- `_CONTROL_SLOTS`. -/
def controlSlots : Nat := 4

/-- How many names there are for the segments of an hour. -/
def maxSegmentsPerHour : Nat := 10000

/-- Nanoseconds of an hour. -/
def nsPerHour : Int := 3600 * 10 ^ 9

/-- The first wall time that is no `datetime`, in nanoseconds. -/
def datetimeEndNs : Int := 253402300800 * 10 ^ 9

/-- A queued item: a record, `_ROTATE` or `_WAKE`. -/
inductive QueueItem where
  | record (r : Record)
  | rotate
  | wake
  deriving DecidableEq, Repr

/-- The JSON of an overflow notice. -/
def overflowPayload (dropped : Nat) : List UInt8 :=
  ("\x7b\"event\":\"writer_overflow\",\"dropped\":" ++ toString dropped ++ "\x7d").toList.map
    fun c => UInt8.ofNat c.toNat

/-- The report of refused records. -/
def overflowNotice (connId : Int) (dropped : Nat) (monoNs wallNs : Int) : Record :=
  ⟨.connection, connId, monoNs, wallNs, overflowPayload dropped⟩

/-- A segment file, by the hour and the counter in its path. -/
structure SegmentFile where
  hour : Int
  counter : Nat
  header : SegmentHeader
  writer : SegmentWriter
  deriving DecidableEq, Repr

/-- Where the writer's loop is. -/
inductive WriterStage where
  | absent
  | loop
  /-- The stopping flag was read. -/
  | getting (stopping : Bool)
  | handling (item : QueueItem)
  | finished
  deriving DecidableEq, Repr

/-- The settings of a sink. -/
structure SinkConfig where
  connId : Int
  maxRecords : Nat
  flushIntervalNs : Int
  deriving DecidableEq, Repr

/-- The state of the writer thread. -/
structure SinkFiles where
  writer : Option SegmentFile
  /-- The files that are closed. -/
  files : List SegmentFile
  writerHour : Int
  counterHour : Int
  nextCounter : Nat
  dirty : Bool
  lastFlushNs : Int
  recordsWritten : Nat
  recordsLost : Nat
  filesOpened : Nat
  closedFileBytes : Nat
  flushes : Nat
  writeErrors : Nat

/-- The queue of a sink, its writer's thread and the files. -/
structure SegmentSink where
  queue : List QueueItem
  stopping : Bool
  started : Bool
  closed : Bool
  refused : Nat
  unreportedRefusals : Nat
  rotatePending : Bool
  lastQueuedRotate : Bool
  /-- What the call that holds the lock has still to queue. -/
  lock : List QueueItem
  /-- Calls of `close` that have left the lock and not yet set the flag. -/
  closing : Nat
  /-- Calls of `close` that have set the flag and not yet queued their wake-up. -/
  waking : Nat
  /-- A call of `close` runs the writer's loop. -/
  draining : Bool
  /-- `queue.Full` left a call of a producer. -/
  raised : Bool
  /-- `queue.Full` was met by a wake-up, and suppressed. -/
  suppressed : Bool
  stage : WriterStage
  disk : SinkFiles
  finished : Bool
  failure : Bool

/-- What trying a file name comes to. -/
inductive Touch where
  | created
  | exists
  | fails
  deriving DecidableEq, Repr

/-- What the writer meets in a step: the clock, reading by reading, the header
factory, which may raise, and the disk. -/
structure Surroundings where
  writeWallNs : Int
  openMonoNs : Int
  tickWallNs : Int
  tickMonoNs : Int
  flushMonoNs : Int
  header : Option SegmentHeader
  touch : Nat → Touch
  createFails : Bool
  appendFails : Bool
  flushFails : Bool
  closeFails : Bool
  tickCloseFails : Bool

/-- What ends a write: an `OSError`, a `ValueError`, or anything else. -/
inductive WriteFault where
  | os
  | value
  | other
  deriving DecidableEq, Repr

/-- `_hour`. -/
def hourOf (wallNs : Int) : Int := wallNs / nsPerHour

namespace SinkFiles

/-- No file is open. -/
def new (monoNs : Int) : SinkFiles where
  writer := none
  files := []
  writerHour := -1
  counterHour := -1
  nextCounter := 0
  dirty := false
  lastFlushNs := monoNs
  recordsWritten := 0
  recordsLost := 0
  filesOpened := 0
  closedFileBytes := 0
  flushes := 0
  writeErrors := 0

/-- All files, the open one last. -/
def all (s : SinkFiles) : List SegmentFile := s.files ++ s.writer.toList

variable (codec : HeaderCodec) (cfg : SinkConfig)

/-- `_close_writer`. -/
def closeWriter (s : SinkFiles) (fails : Bool) : SinkFiles :=
  match s.writer with
  | none => { s with dirty := false }
  | some f =>
      { s with
        writer := none
        dirty := false
        files := s.files ++ [{ f with writer := f.writer.close }]
        closedFileBytes := s.closedFileBytes + f.writer.bytesWritten
        writeErrors := if fails then s.writeErrors + 1 else s.writeErrors }

/-- A file is closed if its hour is over. -/
def closePastHour (s : SinkFiles) (wallNs : Int) (fails : Bool) : SinkFiles :=
  if s.writer.isSome ∧ hourOf wallNs ≠ s.writerHour then s.closeWriter fails else s

/-- The sink has a file of that name itself. -/
def owns (s : SinkFiles) (hour : Int) (counter : Nat) : Bool :=
  s.files.any fun f => f.hour == hour && f.counter == counter

/-- The loop of `_open`, from one counter on. No file is open here. -/
def openFrom (env : Surroundings) (hour : Int) :
    Nat → Nat → SinkFiles → SinkFiles × Option WriteFault
  | 0, _, s => ({ s with nextCounter := maxSegmentsPerHour }, some .os)
  | fuel + 1, counter, s =>
      -- What `segment_path` refuses.
      if env.writeWallNs < 0 ∨ datetimeEndNs ≤ env.writeWallNs then (s, some .value)
      else
        match if s.owns hour counter then Touch.exists else env.touch counter with
        | .fails => (s, some .os)
        | .exists => openFrom env hour fuel (counter + 1) s
        | .created =>
            let s := { s with nextCounter := counter + 1 }
            match env.header with
            | none => (s, some .other)
            | some header =>
                if env.createFails then (s, some .os)
                else
                  match SegmentWriter.new codec header with
                  | .error _ => (s, some .other)
                  | .ok w =>
                      ({ s with
                        filesOpened := s.filesOpened + 1
                        lastFlushNs := env.openMonoNs
                        writer := some ⟨hour, counter, header, w⟩
                        writerHour := hour }, none)

/-- `_open`. -/
def openFile (s : SinkFiles) (env : Surroundings) : SinkFiles × Option WriteFault :=
  let hour := hourOf env.writeWallNs
  let s := if hour ≠ s.counterHour then { s with counterHour := hour, nextCounter := 0 } else s
  openFrom codec env hour (maxSegmentsPerHour - s.nextCounter) s.nextCounter s

/-- `_writer_for`. -/
def writerFor (s : SinkFiles) (env : Surroundings) : SinkFiles × Option WriteFault :=
  let s := s.closePastHour env.writeWallNs env.closeFails
  if s.writer.isSome then (s, none) else s.openFile codec env

/-- An `OSError` while a record is written. -/
def loseToDisk (s : SinkFiles) (env : Surroundings) : SinkFiles :=
  ({ s with recordsLost := s.recordsLost + 1, writeErrors := s.writeErrors + 1 } :
    SinkFiles).closeWriter env.closeFails

/-- `_write`; or what escapes it. -/
def write (s : SinkFiles) (r : Record) (env : Surroundings) : SinkFiles × Option WriteFault :=
  match s.writerFor codec env with
  | (s, some .os) => (s.loseToDisk env, none)
  | (s, some .value) => ({ s with recordsLost := s.recordsLost + 1 }, none)
  | (s, some .other) => (s, some .other)
  | (s, none) =>
      match s.writer with
      -- There is a writer.
      | none => (s, some .other)
      | some f =>
          match f.writer.append r with
          | .error (.value _) => ({ s with recordsLost := s.recordsLost + 1 }, none)
          | .error .struct => (s, some .other)
          | .ok w =>
              if env.appendFails then (s.loseToDisk env, none)
              else
                ({ s with
                  writer := some { f with writer := w }
                  recordsWritten := s.recordsWritten + 1
                  dirty := true }, none)

/-- `_flush`. -/
def flush (s : SinkFiles) (env : Surroundings) : SinkFiles :=
  let s := { s with dirty := false, lastFlushNs := env.flushMonoNs }
  if s.writer.isNone then s
  else if env.flushFails then
    ({ s with writeErrors := s.writeErrors + 1 } : SinkFiles).closeWriter env.tickCloseFails
  else { s with flushes := s.flushes + 1 }

/-- `_tick`. -/
def tick (s : SinkFiles) (env : Surroundings) : SinkFiles :=
  let s := s.closePastHour env.tickWallNs env.tickCloseFails
  if s.dirty ∧ cfg.flushIntervalNs ≤ env.tickMonoNs - s.lastFlushNs then s.flush env else s

end SinkFiles

namespace SegmentSink

/-- A sink that was not started. -/
def new (monoNs : Int) : SegmentSink where
  queue := []
  stopping := false
  started := false
  closed := false
  refused := 0
  unreportedRefusals := 0
  rotatePending := false
  lastQueuedRotate := false
  lock := []
  closing := 0
  waking := 0
  draining := false
  raised := false
  suppressed := false
  stage := .absent
  disk := .new monoNs
  finished := false
  failure := false

variable (codec : HeaderCodec) (cfg : SinkConfig)

/-! ## The producers -/

/-- The bound of the queue. -/
def queueBound : Nat := cfg.maxRecords + controlSlots

/-- `_queue_overflow_notice`, as the call that holds the lock. -/
def queueOverflowNotice (s : SegmentSink) (monoNs wallNs : Int) : SegmentSink :=
  if s.unreportedRefusals = 0 then s
  else
    { s with
      unreportedRefusals := 0
      lock := s.lock ++ [.record (overflowNotice cfg.connId s.unreportedRefusals monoNs wallNs)]
      lastQueuedRotate := false }

/-- A rotation that was put off is queued ahead of a record. -/
def queuePendingRotate (s : SegmentSink) : SegmentSink :=
  if s.rotatePending then { s with rotatePending := false, lock := s.lock ++ [.rotate] } else s

/-- The writer's thread begins. -/
def start (s : SegmentSink) : SegmentSink :=
  if s.started ∨ s.closed then s else { s with started := true, stage := .loop }

/-- `put`, up to what it queues, and what it returns. -/
def put (s : SegmentSink) (r : Record) (monoNs wallNs : Int) : SegmentSink × Bool :=
  if s.closed ∨ s.failure then ({ s with refused := s.refused + 1 }, false)
  else if cfg.maxRecords ≤ s.queue.length then
    ({ s with
      refused := s.refused + 1
      unreportedRefusals := s.unreportedRefusals + 1 }, false)
  else
    let s := (s.queueOverflowNotice cfg monoNs wallNs).queuePendingRotate
    ({ s with lock := s.lock ++ [.record r], lastQueuedRotate := false }, true)

/-- The writer is to go on in another file. -/
def rotate (s : SegmentSink) (monoNs wallNs : Int) : SegmentSink :=
  if s.closed then s
  else if cfg.maxRecords ≤ s.queue.length then { s with rotatePending := true }
  else
    let s := s.queueOverflowNotice cfg monoNs wallNs
    if s.lastQueuedRotate then s
    else { s with lock := s.lock ++ [.rotate], lastQueuedRotate := true }

/-- `close`, under the lock. -/
def close (s : SegmentSink) (monoNs wallNs : Int) : SegmentSink :=
  let s :=
    if s.closed then s
    else
      let s := { s with closed := true }
      if s.unreportedRefusals ≠ 0 ∧ s.queue.length < queueBound cfg then
        s.queueOverflowNotice cfg monoNs wallNs
      else s
  { s with closing := s.closing + 1 }

/-- The next `put_nowait` of the call that holds the lock. -/
def enqueue (s : SegmentSink) : SegmentSink :=
  match s.lock with
  | [] => s
  | item :: rest =>
      if s.queue.length < queueBound cfg then { s with queue := s.queue ++ [item], lock := rest }
      else { s with lock := [], raised := true }

/-- A call of `close` sets the flag. -/
def setStopping (s : SegmentSink) : SegmentSink :=
  if 0 < s.closing ∧ s.lock = [] then
    { s with stopping := true, closing := s.closing - 1, waking := s.waking + 1 }
  else s

/-- A call of `close` queues its wake-up, and on a sink that was never started
goes on to drain it. -/
def wake (s : SegmentSink) : SegmentSink :=
  if s.waking = 0 then s
  else
    let s :=
      if s.queue.length < queueBound cfg then { s with queue := s.queue ++ [.wake] }
      else { s with suppressed := true }
    let s := { s with waking := s.waking - 1 }
    if s.started ∨ s.finished then s else { s with draining := true, stage := .loop }

/-! ## The writer -/

/-- The `finally` of `_run`. -/
def finish (s : SegmentSink) (env : Surroundings) : SegmentSink :=
  { s with
    disk := s.disk.closeWriter env.closeFails
    finished := true
    stage := .finished
    draining := false }

/-- The loop reads the stopping flag. -/
def check (s : SegmentSink) : SegmentSink :=
  match s.stage with
  | .loop => { s with stage := .getting s.stopping }
  | _ => s

/-- The loop takes an item, or finds the queue empty. -/
def get (s : SegmentSink) (env : Surroundings) : SegmentSink :=
  match s.stage with
  | .getting stopping =>
      match s.queue with
      | item :: rest => { s with queue := rest, stage := .handling item }
      | [] =>
          if stopping then s.finish env
          else { s with disk := s.disk.tick cfg env, stage := .loop }
  | _ => s

/-- What the loop does with an item, or what escapes it. -/
def handleItem (disk : SinkFiles) (env : Surroundings) : QueueItem → SinkFiles × Option WriteFault
  | .record r => disk.write codec r env
  | .rotate => (disk.closeWriter env.closeFails, none)
  | .wake => (disk, none)

/-- The loop handles the item it took. -/
def handle (s : SegmentSink) (env : Surroundings) : SegmentSink :=
  match s.stage with
  | .handling item =>
      match handleItem codec s.disk env item with
      | (disk, none) => { s with disk := disk.tick cfg env, stage := .loop }
      | (disk, some _) => ({ s with disk := disk, failure := true } : SegmentSink).finish env
  | _ => s

end SegmentSink

/-! ## Runs -/

/-- A call of the sink, or a step of its writer. -/
inductive SinkEvent where
  | start
  | put (r : Record) (monoNs wallNs : Int)
  | rotate (monoNs wallNs : Int)
  | close (monoNs wallNs : Int)
  | enqueue
  | setStopping
  | wake
  | check
  | get (env : Surroundings)
  | handle (env : Surroundings)

/-- What a call came to. -/
inductive SinkCall where
  | accepted (r : Record)
  /-- Refused for a full queue. -/
  | refusedFull
  /-- Refused for a closed sink or a failed thread. -/
  | refused
  | rotated
  | closed
  deriving DecidableEq, Repr

namespace SegmentSink

variable (codec : HeaderCodec) (cfg : SinkConfig)

/-- A call of a producer can begin. -/
def Free (s : SegmentSink) : Prop := s.lock = []

instance (s : SegmentSink) : Decidable s.Free := inferInstanceAs (Decidable (s.lock = []))

/-- On a sink that was never started, calls of `close` do not overlap. -/
def MayClose (s : SegmentSink) : Prop :=
  s.Free ∧ (s.started ∨ s.draining = false ∧ s.closing = 0 ∧ s.waking = 0)

instance (s : SegmentSink) : Decidable s.MayClose :=
  inferInstanceAs (Decidable (_ ∧ _))

/-- The calls that began, with what they came to, and the sink. -/
def step (t : List SinkCall × SegmentSink) (e : SinkEvent) : List SinkCall × SegmentSink :=
  let (calls, s) := t
  match e with
  | .start => if s.Free then (calls, s.start) else t
  | .put r monoNs wallNs =>
      if s.Free then
        let (s', accepted) := s.put cfg r monoNs wallNs
        (calls ++ [if accepted then .accepted r
          else if s.closed ∨ s.failure then .refused else .refusedFull], s')
      else t
  | .rotate monoNs wallNs =>
      if s.Free then
        (if s.closed then calls else calls ++ [.rotated], s.rotate cfg monoNs wallNs)
      else t
  | .close monoNs wallNs =>
      if s.MayClose then (calls ++ [.closed], s.close cfg monoNs wallNs) else t
  | .enqueue => (calls, s.enqueue cfg)
  | .setStopping => (calls, s.setStopping)
  | .wake => (calls, s.wake cfg)
  | .check => (calls, s.check)
  | .get env => (calls, s.get cfg env)
  | .handle env => (calls, s.handle codec cfg env)

end SegmentSink

end Tape
