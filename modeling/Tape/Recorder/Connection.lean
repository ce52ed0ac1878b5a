import Tape.Run
import Tape.Recorder.Supervisor

/-!
# A connection, with its tasks interleaved

Three tasks share the state of a supervisor. One handles the frames, one at a
time. Callers of `set_group` come at any moment. The run loop opens a session,
reconciles, and ends the connection. A task gives way where it waits: while a
command is being sent, and for the command lock. The lock is held over a whole
reconciliation, sends included, and a frame does not need it unless it is a
reply.

`Conn` holds what the tasks share and where each of them is suspended, and
`ConnEvent` is one stretch of one task between two such points. An event that
is not enabled changes nothing, so that every list of events is a run. A send
is two events: the command leaves, with its id, and the send returns. Either
may fail. A command that has left may be answered before its send returns.

The machine allows more than the event loop does (a frame after the socket
closed, a cancellation at any point), and what is proved of its runs holds of
the loop's.
-/

namespace Tape

/-- Who took the command lock. -/
inductive Owner where
  | setGroup
  | frame
  | run
  deriving DecidableEq, Repr

/-- What the holder of the lock waits for, and what it goes on with. -/
inductive Work where
  /-- The snapshots of a merge. -/
  | request (cmd : Command)
  | firehose
  | piece (piece : PlanChange) (cmd : Command) (rest : List Command) (later : List PlanChange)
  /-- A failed `set_group` closes the session. -/
  | closing
  deriving DecidableEq

/-- Who has the lock, and how far its work is. -/
structure Holder where
  owner : Owner
  work : Work
  /-- The id of the command, once it has left. -/
  id : Option Int
  deriving DecidableEq

/-- Where the handling of a frame is suspended. -/
inductive FrameTask where
  | resync (env : Envelope) (receipt : Receipt) (cmd : Command) (id : Option Int)
  | repair (cmd : Command) (id : Option Int)
  | waiting (env : Envelope)
  /-- The frame is a reply, and holds the lock. -/
  | locked

/-- The supervisor with what waits for its lock, and the commands on the
wire. -/
structure Conn where
  sup : Supervisor
  opened : Bool
  holder : Option Holder
  frame : Option FrameTask
  /-- The callers of `set_group` that wait for the lock. -/
  callers : Nat
  /-- The commands that have left on this connection. -/
  wire : List (Int × Command)
  /-- What a reconciliation raised, other than a failed send. -/
  raised : Option Failure

/-- What can happen on a connection. -/
inductive ConnEvent where
  | begin
  | opened
  | start
  | lost
  | setGroup (group : Option Group)
  | acquire
  | receive (f : RawFrame)
  | acquireFrame
  | transmit
  | sendReturns
  | sendFails
  | transmitFrame
  | frameSendReturns
  | frameSendFails
  | cancelHolder
  | cancelFrame
  | finish (detail : String)

namespace Supervisor

/-! ## The pieces of a reconciliation -/

/-- How far the holder of the lock gets before it waits. -/
inductive Pause where
  | done
  | send (work : Work)
  | raise (failure : Failure)
  deriving DecidableEq

/-- The next change that is not deferred, up to the first command it sends. -/
def nextPiece (s : Supervisor) : List PlanChange → Supervisor × Pause
  | [] => (s, .done)
  | piece :: later =>
      if s.mustDefer piece then ({ s with reconcileDeferred := true }, .done)
      else
        match s.pieceCommands piece with
        | .error _ => (s, .raise (.uncaught "planner"))
        | .ok (cmd :: rest) => (s, .send (.piece piece cmd rest later))
        | .ok [] =>
            match s.recordChange piece with
            | (s, some failure) => (s, .raise failure)
            | (s, none) => nextPiece s later

/-- `_reconcile_locked`, up to its first send. -/
def startReconcile (s : Supervisor) : Supervisor × Pause :=
  match s.reconcileGuard with
  | (s, false) => (s, .done)
  | (s, true) =>
      if s.config.firehoseChannels ≠ [] ∧ !s.firehoseRequested then
        ({ s with firehoseRequested := true }, .send .firehose)
      else s.nextPiece s.pieces

/-- `_resume_reconcile`, up to its first send. -/
def resume (s : Supervisor) : Supervisor × Pause :=
  if s.reconcileDeferred ∧ s.pending.isEmpty then
    { s with reconcileDeferred := false }.startReconcile
  else (s, .done)

/-- What follows a send that returned. -/
def afterSend (s : Supervisor) (work : Work) (id : Int) : Supervisor × Pause :=
  match work with
  | .request _ => s.resume
  | .firehose =>
      let s := s.awaitReplies id firehoseGroupId s.config.firehoseChannels
      s.nextPiece s.pieces
  | .piece piece _ (cmd :: rest) later =>
      (s.afterCommand piece id, .send (.piece piece cmd rest later))
  | .piece piece _ [] later =>
      match (s.afterCommand piece id).recordChange piece with
      | (s, some failure) => (s, .raise failure)
      | (s, none) => s.nextPiece later
  | .closing => (s, .done)

/-- A reply that got the lock, up to its first send. -/
def lockedReply (s : Supervisor) (env : Envelope) : Supervisor × Pause :=
  match s.withLock env with
  | (s, .release) => (s, .done)
  | (s, .resume none) => s.resume
  | (s, .resume (some cmd)) => (s, .send (.request cmd))

/-- The command a piece of work sends. -/
def command (s : Supervisor) : Work → Option Command
  | .request cmd => some cmd
  | .firehose => some (.subscribe s.config.firehoseChannels none none)
  | .piece _ cmd _ _ => some cmd
  | .closing => none

/-- A command leaves, if the session is open: its id. -/
def transmit (s : Supervisor) (cmd : Command) : Supervisor × Option Int :=
  match s.session with
  | none => (s, none)
  | some session =>
      if session.isOpen then
        ({ s with session := some { session with nextCommandId := session.nextCommandId + 1 }
                  sent := s.sent ++ [(session.nextCommandId, cmd)] },
          some session.nextCommandId)
      else (s, none)

/-- A send is a command that leaves, and its record. -/
theorem send_eq_transmit (s : Supervisor) (cmd : Command) :
    s.send cmd =
      match s.transmit cmd with
      | (s, some id) => (s.put (.command id cmd), .ok id)
      | (s, none) => (s, .error .closed) := by
  rw [send, transmit]
  cases s.session with
  | none => rfl
  | some session => cases h : session.isOpen <;> simp [h]

/-- The session is closed, though not yet gone. -/
def closeSession (s : Supervisor) : Supervisor :=
  { s with session := s.session.map fun session => { session with isOpen := false } }

/-- What `set_group` refuses: a group of another connection, or any group on a
connection without group channels. -/
def accepts (s : Supervisor) (group : Option Group) : Bool :=
  match group with
  | none => true
  | some g => g.connId = s.config.connId ∧ s.config.groupChannels ≠ []

end Supervisor

namespace Conn

open Supervisor (Pause)

/-- A connection that was not begun. -/
def new (config : SupervisorConfig) : Conn :=
  { sup := .new config, opened := false, holder := none, frame := none, callers := 0,
    wire := [], raised := none }

/-- The lock is released, with what its owner does then. -/
def release (c : Conn) (owner : Owner) (s : Supervisor) : Conn :=
  match owner with
  | .setGroup => { c with sup := s.pruneBooks, holder := none }
  | .frame => { c with sup := s, holder := none, frame := none }
  | .run => { c with sup := s, holder := none }

/-- The holder of the lock ran up to its next wait. -/
def settle (c : Conn) (owner : Owner) : Supervisor × Pause → Conn
  | (s, .done) => c.release owner s
  | (s, .send work) => { c with sup := s, holder := some ⟨owner, work, none⟩ }
  | (s, .raise failure) =>
      { c with
        sup := s, holder := none, raised := some failure
        frame := if owner = .frame then none else c.frame }

/-- A send of the holder failed: `set_group` closes the session, any other
owner lets the lock go. -/
def sendFailed (c : Conn) (owner : Owner) : Conn :=
  match owner with
  | .setGroup =>
      { c with sup := c.sup.closeSession, holder := some ⟨.setGroup, .closing, none⟩ }
  | .frame => { c with holder := none, frame := none }
  | .run => { c with holder := none }

/-- The dispatch of a frame ran up to its first wait. -/
def dispatched (c : Conn) (env : Envelope) (receipt : Receipt) : Conn :=
  match c.sup.dispatch env receipt with
  | (s, .nothing) => { c with sup := s, frame := none }
  | (s, .send cmd) => { c with sup := s, frame := some (.repair cmd none) }
  | (s, .lock) => { c with sup := s, frame := some (.waiting env) }
  | (s, .raise _) => { c with sup := s, frame := none }

theorem dispatched_sup (c : Conn) (env : Envelope) (receipt : Receipt) :
    (c.dispatched env receipt).sup = (c.sup.dispatch env receipt).1 := by
  rw [dispatched]
  split <;> next heq => rw [heq]

/-- One event. -/
def step (c : Conn) : ConnEvent → Conn
  | .begin =>
      if !c.opened ∧ c.holder = none ∧ c.frame.isNone ∧ c.sup.session = none then
        { c with
          sup := { c.sup.forgetConnection with session := some ⟨false, 1⟩ }
          wire := [] }
      else c
  | .opened =>
      match c.sup.session, c.opened with
      | some ⟨false, id⟩, false =>
          { c with
            sup := { c.sup with session := some ⟨true, id⟩ }.put (.connection "open" "connected")
            opened := true }
      | _, _ => c
  | .start =>
      if c.opened ∧ c.holder = none then c.settle .run c.sup.startReconcile else c
  | .lost => { c with sup := c.sup.closeSession }
  | .setGroup group =>
      if c.sup.accepts group then
        { c with sup := { c.sup with desired := group }, callers := c.callers + 1 }
      else c
  | .acquire =>
      if c.holder = none ∧ c.callers ≠ 0 then
        { c with callers := c.callers - 1 }.settle .setGroup c.sup.startReconcile
      else c
  | .receive f =>
      if c.opened ∧ c.frame.isNone then
        match c.sup.receiveFrame f with
        | (s, none) => { c with sup := s }
        | (s, some (env, none)) => { c with sup := s }.dispatched env (s.receiptOf f)
        | (s, some (env, some cmd)) =>
            { c with sup := s, frame := some (.resync env (s.receiptOf f) cmd none) }
      else c
  | .acquireFrame =>
      match c.frame with
      | some (.waiting env) =>
          if c.holder = none then
            { c with frame := some .locked }.settle .frame (c.sup.lockedReply env)
          else c
      | _ => c
  | .transmit =>
      match c.holder with
      | some ⟨owner, work, none⟩ =>
          match c.sup.command work with
          | none => c
          | some cmd =>
              match c.sup.transmit cmd with
              | (s, some id) =>
                  { c with
                    sup := s, holder := some ⟨owner, work, some id⟩
                    wire := c.wire ++ [(id, cmd)] }
              | (_, none) => c.sendFailed owner
      | _ => c
  | .sendReturns =>
      match c.holder with
      | some ⟨owner, .closing, _⟩ => c.release owner c.sup
      | some ⟨owner, work, some id⟩ =>
          match c.sup.command work with
          | none => c
          | some cmd => c.settle owner ((c.sup.put (.command id cmd)).afterSend work id)
      | _ => c
  | .sendFails =>
      match c.holder with
      | some ⟨_, .closing, _⟩ => c
      | some ⟨owner, _, _⟩ => c.sendFailed owner
      | none => c
  | .transmitFrame =>
      match c.frame with
      | some (.resync env receipt cmd none) =>
          match c.sup.transmit cmd with
          | (s, some id) =>
              { c with
                sup := s, frame := some (.resync env receipt cmd (some id))
                wire := c.wire ++ [(id, cmd)] }
          | (_, none) => { c with frame := none }
      | some (.repair cmd none) =>
          match c.sup.transmit cmd with
          | (s, some id) =>
              { c with
                sup := s, frame := some (.repair cmd (some id)), wire := c.wire ++ [(id, cmd)] }
          | (_, none) => { c with frame := none }
      | _ => c
  | .frameSendReturns =>
      match c.frame with
      | some (.resync env receipt cmd (some id)) =>
          { c with sup := c.sup.put (.command id cmd) }.dispatched env receipt
      | some (.repair cmd (some id)) =>
          { c with sup := c.sup.put (.command id cmd), frame := none }
      | _ => c
  | .frameSendFails =>
      match c.frame with
      | some (.resync _ _ _ _) => { c with frame := none }
      | some (.repair _ _) => { c with frame := none }
      | _ => c
  | .cancelHolder =>
      match c.holder with
      | some ⟨.frame, _, _⟩ => { c with holder := none, frame := none }
      | _ => { c with holder := none }
  | .cancelFrame =>
      match c.frame with
      | some .locked => { c with holder := none, frame := none }
      | _ => { c with frame := none }
  | .finish detail =>
      if c.holder = none ∧ c.frame.isNone ∧ c.sup.session ≠ none then
        if c.opened then
          { c with sup := c.sup.endConnection detail, opened := false, wire := [] }
        else { c with sup := c.sup.forgetConnection.put (.connection "error" detail), wire := [] }
      else c

end Conn

end Tape
