import Mathlib
import Tape.Recorder.Writer

/-!
# What the writer thread lays on the disk

The items that pass through the queue carry more than their bytes: a record is
one a producer put or a notice of the sink's own. `Mark` says which, and the
invariant of the writer's side, `Lays`, is about the marks it has handled: the
files in order hold the entries among them, none of them across a rotation.
A record too long for a segment is the one thing that is handled and not laid.

The invariant does without the disk's errors: it is kept as long as the sink
counts none.
-/

namespace Tape

/-- What a sink writes: a record it accepted, or a notice of what it refused. -/
inductive TapeEntry where
  | record (r : Record)
  | notice (dropped : Nat) (monoNs wallNs : Int)

/-- An entry as it is written. -/
def TapeEntry.toRecord (connId : Int) : TapeEntry → Record
  | .record r => r
  | .notice dropped monoNs wallNs => overflowNotice connId dropped monoNs wallNs

/-- Not longer than a record may be. -/
def TapeEntry.short (connId : Int) (e : TapeEntry) : Bool :=
  decide ((e.toRecord connId).payload.length ≤ maxPayload)

/-- A queued item, and what it stands for. -/
inductive Mark where
  | entry (e : TapeEntry)
  | rotate
  | wake

/-- A mark as it is queued. -/
def Mark.item (connId : Int) : Mark → QueueItem
  | .entry e => .record (e.toRecord connId)
  | .rotate => .rotate
  | .wake => .wake

/-- The entry of a mark, if it is one. -/
def Mark.entry? : Mark → Option TapeEntry
  | .entry e => some e
  | _ => none

/-- The entries among some marks. -/
def entriesOf (marks : List Mark) : List TapeEntry := marks.filterMap Mark.entry?

/-- What becomes of the marks on the disk. -/
def laid (connId : Int) (marks : List Mark) : List TapeEntry :=
  (entriesOf marks).filter (TapeEntry.short connId)

@[simp] theorem entriesOf_nil : entriesOf [] = [] := rfl

@[simp] theorem entriesOf_append (l₁ l₂ : List Mark) :
    entriesOf (l₁ ++ l₂) = entriesOf l₁ ++ entriesOf l₂ :=
  List.filterMap_append

@[simp] theorem laid_nil (connId : Int) : laid connId [] = [] := rfl

@[simp] theorem laid_append (connId : Int) (l₁ l₂ : List Mark) :
    laid connId (l₁ ++ l₂) = laid connId l₁ ++ laid connId l₂ := by
  rw [laid, entriesOf_append, List.filter_append]
  rfl

/-- The fields of a record fit its header; its payload may be too long. -/
def Record.FieldsFit (r : Record) : Prop :=
  (0 ≤ r.connId ∧ r.connId < 2 ^ 16) ∧ (0 ≤ r.recvMonoNs ∧ r.recvMonoNs < 2 ^ 64) ∧
    (0 ≤ r.recvWallNs ∧ r.recvWallNs < 2 ^ 64)

instance (r : Record) : Decidable r.FieldsFit := inferInstanceAs (Decidable (_ ∧ _))

theorem Record.FieldsFit.fits {r : Record} (h : r.FieldsFit)
    (hlen : r.payload.length ≤ maxPayload) : r.Fits := by
  refine ⟨h.1, h.2.1, h.2.2, ?_⟩
  rw [maxPayload] at hlen
  omega

/-- What the writer meets is in order: the clock's wall reading is a date, and
the header factory gives a header that can be written. -/
def Surroundings.InOrder (codec : HeaderCodec) (env : Surroundings) : Prop :=
  (0 ≤ env.writeWallNs ∧ env.writeWallNs < datetimeEndNs) ∧
    ∃ header, env.header = some header ∧ (codec.encode header).length < 2 ^ 32

/-- Where a list with one more element is split at an element. -/
theorem split_snoc {α : Type} {l a b : List α} {x y : α} (h : l ++ [x] = a ++ y :: b) :
    (∃ b', b = b' ++ [x] ∧ l = a ++ y :: b') ∨ b = [] ∧ x = y ∧ l = a := by
  rcases List.eq_nil_or_concat b with rfl | ⟨b', z, rfl⟩
  · obtain ⟨rfl, hx⟩ := List.append_inj' h rfl
    exact .inr ⟨rfl, List.singleton_inj.mp hx, rfl⟩
  · rw [List.concat_eq_append, ← List.cons_append, ← List.append_assoc] at h
    obtain ⟨rfl, hx⟩ := List.append_inj' h rfl
    obtain rfl := List.singleton_inj.mp hx
    exact .inl ⟨b', List.concat_eq_append, rfl⟩

variable {codec : HeaderCodec} {cfg : SinkConfig} {connId : Int}

/-- A file holds these entries, after its header. -/
def SegmentFile.Holds (codec : HeaderCodec) (connId : Int) (f : SegmentFile)
    (content : List TapeEntry) : Prop :=
  f.writer.stream = headerBytes codec f.header ++
    content.flatMap fun e => (e.toRecord connId).bytes

namespace SinkFiles

/-- The closed files hold the contents and the open one the current entries,
which is together what the handled marks leave; and no file reaches across a
rotation. -/
structure Lays (codec : HeaderCodec) (connId : Int) (done : List Mark) (d : SinkFiles)
    (contents : List (List TapeEntry)) (current : List TapeEntry) : Prop where
  holds : List.Forall₂ (SegmentFile.Holds codec connId) d.files contents
  opened : ∀ f, d.writer = some f → f.writer.closed = false ∧ f.Holds codec connId current
  idle : d.writer = none → current = []
  whole : contents.flatten ++ current = laid connId done
  /-- What comes after a rotation is in files that were opened after it. -/
  apart : ∀ before after, done = before ++ .rotate :: after → ∃ k ≤ contents.length,
    (contents.take k).flatten = laid connId before ∧
      (contents.drop k).flatten ++ current = laid connId after

variable {d d' : SinkFiles} {done : List Mark} {contents : List (List TapeEntry)}
  {current : List TapeEntry} {env : Surroundings}

/-- The invariant is about the files alone. -/
theorem Lays.congr (h : Lays codec connId done d contents current) (hfiles : d'.files = d.files)
    (hwriter : d'.writer = d.writer) : Lays codec connId done d' contents current where
  holds := hfiles ▸ h.holds
  opened := hwriter ▸ h.opened
  idle := hwriter ▸ h.idle
  whole := h.whole
  apart := h.apart

/-- The files all together, the open one last. -/
theorem Lays.all (h : Lays codec connId done d contents current) :
    ∃ cs, List.Forall₂ (SegmentFile.Holds codec connId) d.all cs ∧ cs.flatten = laid connId done ∧
      ∀ before after, done = before ++ .rotate :: after → ∃ k,
        (cs.take k).flatten = laid connId before ∧ (cs.drop k).flatten = laid connId after := by
  cases hw : d.writer with
  | none =>
      obtain rfl := h.idle hw
      refine ⟨contents, ?_, ?_, fun before after hdone => ?_⟩
      · rw [SinkFiles.all, hw, Option.toList_none, List.append_nil]
        exact h.holds
      · rw [← h.whole, List.append_nil]
      · obtain ⟨k, -, hbefore, hafter⟩ := h.apart before after hdone
        rw [List.append_nil] at hafter
        exact ⟨k, hbefore, hafter⟩
  | some f =>
      refine ⟨contents ++ [current], ?_, ?_, fun before after hdone => ?_⟩
      · rw [SinkFiles.all, hw, Option.toList_some]
        exact List.rel_append h.holds (.cons (h.opened f hw).2 .nil)
      · rw [List.flatten_append, List.flatten_singleton, h.whole]
      · obtain ⟨k, hk, hbefore, hafter⟩ := h.apart before after hdone
        refine ⟨k, ?_, ?_⟩
        · rw [List.take_append_of_le_length hk, hbefore]
        · rw [List.drop_append_of_le_length hk, List.flatten_append, List.flatten_singleton, hafter]

/-! ## Closing -/

/-- The open file joins the closed ones, its bytes as they are. -/
theorem Lays.closeWriter (h : Lays codec connId done d contents current) (fails : Bool) :
    ∃ contents', Lays codec connId done (d.closeWriter fails) contents' [] := by
  rw [SinkFiles.closeWriter]
  split
  · next hnone =>
      obtain rfl := h.idle hnone
      exact ⟨contents, h.congr rfl rfl⟩
  · next f hf =>
      obtain ⟨-, hholds⟩ := h.opened f hf
      refine ⟨contents ++ [current], ?_, nofun, fun _ => rfl, ?_, fun before after hdone => ?_⟩
      · exact List.rel_append h.holds (.cons hholds .nil)
      · rw [List.flatten_append, List.flatten_singleton, List.append_nil]
        exact h.whole
      · obtain ⟨k, hk, hbefore, hafter⟩ := h.apart before after hdone
        refine ⟨k, ?_, ?_, ?_⟩
        · rw [List.length_append]
          exact Nat.le_add_right_of_le hk
        · rw [List.take_append_of_le_length hk]
          exact hbefore
        · rw [List.drop_append_of_le_length hk, List.flatten_append, List.flatten_singleton,
            List.append_nil]
          exact hafter

/-- With no file open, a rotation is a cut. -/
theorem Lays.rotate (h : Lays codec connId done d contents []) :
    Lays codec connId (done ++ [.rotate]) d contents [] where
  holds := h.holds
  opened := h.opened
  idle := h.idle
  whole := by
    rw [h.whole, laid_append]
    exact (List.append_nil _).symm
  apart := fun before after hdone => by
    rcases split_snoc hdone with ⟨after', rfl, hbefore⟩ | ⟨rfl, -, rfl⟩
    · obtain ⟨k, hk, hcut, hrest⟩ := h.apart before after' hbefore
      refine ⟨k, hk, hcut, ?_⟩
      rw [hrest, laid_append]
      exact (List.append_nil _).symm
    · refine ⟨contents.length, Nat.le_refl _, ?_, ?_⟩
      · rw [List.take_length, ← h.whole, List.append_nil]
      · rw [List.drop_length]
        rfl

/-- What is handled and leaves nothing. -/
theorem Lays.skip (h : Lays codec connId done d contents current) {m : Mark}
    (hm : laid connId [m] = []) (hrotate : m ≠ .rotate) :
    Lays codec connId (done ++ [m]) d contents current where
  holds := h.holds
  opened := h.opened
  idle := h.idle
  whole := by rw [h.whole, laid_append, hm, List.append_nil]
  apart := fun before after hdone => by
    rcases split_snoc hdone with ⟨after', rfl, hbefore⟩ | ⟨-, hm', -⟩
    · obtain ⟨k, hk, hcut, hrest⟩ := h.apart before after' hbefore
      exact ⟨k, hk, hcut, by rw [hrest, laid_append, hm, List.append_nil]⟩
    · exact absurd hm' hrotate

theorem Lays.flush (h : Lays codec connId done d contents current) (env : Surroundings) :
    ∃ contents' current', Lays codec connId done (d.flush env) contents' current' := by
  rw [SinkFiles.flush]
  dsimp only
  split
  · exact ⟨_, _, h.congr rfl rfl⟩
  · split
    · have h₁ : Lays codec connId done { d with
          dirty := false
          lastFlushNs := env.flushMonoNs
          writeErrors := d.writeErrors + 1 } contents current := h.congr rfl rfl
      obtain ⟨contents', h'⟩ := h₁.closeWriter env.tickCloseFails
      exact ⟨_, _, h'⟩
    · exact ⟨_, _, h.congr rfl rfl⟩

theorem Lays.closePastHour (h : Lays codec connId done d contents current) (wallNs : Int)
    (fails : Bool) :
    ∃ contents' current',
      Lays codec connId done (d.closePastHour wallNs fails) contents' current' := by
  rw [SinkFiles.closePastHour]
  split
  · obtain ⟨contents', h'⟩ := h.closeWriter fails
    exact ⟨_, _, h'⟩
  · exact ⟨_, _, h⟩

theorem Lays.tick (h : Lays codec connId done d contents current) (cfg : SinkConfig)
    (env : Surroundings) :
    ∃ contents' current', Lays codec connId done (d.tick cfg env) contents' current' := by
  obtain ⟨_, _, hclosed⟩ := h.closePastHour env.tickWallNs env.tickCloseFails
  rw [SinkFiles.tick]
  split
  · exact hclosed.flush env
  · exact ⟨_, _, hclosed⟩

/-! ## The count of errors only grows -/

variable {n : Nat}

theorem le_writeErrors_closeWriter (h : n ≤ d.writeErrors) (fails : Bool) :
    n ≤ (d.closeWriter fails).writeErrors := by
  rw [closeWriter]
  split
  · exact h
  · dsimp only
    split
    · exact Nat.le_succ_of_le h
    · exact h

theorem le_writeErrors_flush (h : n ≤ d.writeErrors) (env : Surroundings) :
    n ≤ (d.flush env).writeErrors := by
  rw [flush]
  dsimp only
  split
  · exact h
  · split
    · exact le_writeErrors_closeWriter (Nat.le_succ_of_le h) _
    · exact h

theorem le_writeErrors_closePastHour (h : n ≤ d.writeErrors) (wallNs : Int) (fails : Bool) :
    n ≤ (d.closePastHour wallNs fails).writeErrors := by
  rw [closePastHour]
  split
  · exact le_writeErrors_closeWriter h _
  · exact h

theorem le_writeErrors_tick (h : n ≤ d.writeErrors) (env : Surroundings) :
    n ≤ (d.tick cfg env).writeErrors := by
  have hclosed := le_writeErrors_closePastHour h env.tickWallNs env.tickCloseFails
  rw [tick]
  split
  · exact le_writeErrors_flush hclosed _
  · exact hclosed

/-- A record lost to the disk is an error counted. -/
theorem lt_writeErrors_loseToDisk (h : n ≤ d.writeErrors) (env : Surroundings) :
    n < (d.loseToDisk env).writeErrors := by
  rw [loseToDisk]
  exact le_writeErrors_closeWriter (Nat.succ_le_succ h) _

theorem le_writeErrors_openFrom (h : n ≤ d.writeErrors) (env : Surroundings) (hour : Int)
    (fuel counter : Nat) : n ≤ (openFrom codec env hour fuel counter d).1.writeErrors := by
  induction fuel generalizing counter with
  | zero => exact h
  | succ fuel ih =>
      rw [openFrom]
      repeat' split
      all_goals first
        | exact h
        | exact ih _

theorem le_writeErrors_writerFor (codec : HeaderCodec) (h : n ≤ d.writeErrors)
    (env : Surroundings) :
    n ≤ (d.writerFor codec env).1.writeErrors := by
  have hclosed := le_writeErrors_closePastHour h env.writeWallNs env.closeFails
  rw [writerFor]
  split
  · exact hclosed
  · rw [openFile]
    refine le_writeErrors_openFrom ?_ _ _ _ _
    split
    · exact hclosed
    · exact hclosed

theorem le_writeErrors_write (h : n ≤ d.writeErrors) (r : Record) (env : Surroundings) :
    n ≤ (d.write codec r env).1.writeErrors := by
  have hfor := le_writeErrors_writerFor codec h env
  rw [write]
  split
  · next heq => exact (lt_writeErrors_loseToDisk (by rw [heq] at hfor; exact hfor) env).le
  · next heq => rw [heq] at hfor; exact hfor
  · next heq => rw [heq] at hfor; exact hfor
  · next heq =>
      rw [heq] at hfor
      repeat' split
      all_goals first
        | exact hfor
        | exact (lt_writeErrors_loseToDisk hfor env).le

/-! ## Writing -/

/-- The loop of `_open`: a new file with nothing in it but its header, unless the
disk fails. -/
theorem openFrom_spec (henv : env.InOrder codec) (hour : Int) {fuel counter : Nat}
    (h : Lays codec connId done d contents []) :
    ∃ d' fault, openFrom codec env hour fuel counter d = (d', fault) ∧
      (fault = some .os ∨
        fault = none ∧ d'.writer.isSome ∧ Lays codec connId done d' contents []) := by
  obtain ⟨⟨hpos, hdate⟩, header, hheader, hshort⟩ := henv
  have hwall : ¬ (env.writeWallNs < 0 ∨ datetimeEndNs ≤ env.writeWallNs) := by omega
  induction fuel generalizing counter with
  | zero => exact ⟨_, _, rfl, .inl rfl⟩
  | succ fuel ih =>
      rw [openFrom, if_neg hwall]
      generalize (if d.owns hour counter = true then Touch.exists else env.touch counter) = touch
      cases touch with
      | fails => exact ⟨_, _, rfl, .inl rfl⟩
      | «exists» => exact ih
      | created =>
          obtain ⟨w, hw, hopen, hstream⟩ := SegmentWriter.new_of_fits hshort
          simp only [hheader]
          split
          · exact ⟨_, _, rfl, .inl rfl⟩
          · simp only [hw]
            refine ⟨_, _, rfl, .inr ⟨rfl, rfl, h.holds, ?_, nofun, h.whole, h.apart⟩⟩
            intro f hf
            obtain rfl := Option.some.inj hf
            refine ⟨hopen, ?_⟩
            rw [SegmentFile.Holds, List.flatMap_nil, List.append_nil]
            exact hstream

/-- `_writer_for`: a file is open, unless the disk fails. -/
theorem writerFor_spec (henv : env.InOrder codec) (h : Lays codec connId done d contents current) :
    ∃ d' fault, d.writerFor codec env = (d', fault) ∧
      (fault = some .os ∨ fault = none ∧ d'.writer.isSome ∧
        ∃ contents' current', Lays codec connId done d' contents' current') := by
  obtain ⟨contents₁, current₁, hpast⟩ := h.closePastHour env.writeWallNs env.closeFails
  rw [writerFor]
  split
  · next hsome => exact ⟨_, _, rfl, .inr ⟨rfl, hsome, _, _, hpast⟩⟩
  · next hsome =>
      obtain rfl := hpast.idle (Option.not_isSome_iff_eq_none.mp hsome)
      have hopen : ∃ d' fault, (d.closePastHour env.writeWallNs env.closeFails).openFile codec env =
          (d', fault) ∧ (fault = some .os ∨
            fault = none ∧ d'.writer.isSome ∧ Lays codec connId done d' contents₁ []) := by
        rw [openFile]
        split
        · exact openFrom_spec henv _ (hpast.congr rfl rfl)
        · exact openFrom_spec henv _ hpast
      obtain ⟨d', fault, hopen, hfault⟩ := hopen
      refine ⟨d', fault, hopen, hfault.imp_right ?_⟩
      rintro ⟨hnone, hsome, hlays⟩
      exact ⟨hnone, hsome, _, _, hlays⟩

/-- An entry appended to the open file. -/
theorem Lays.append (h : Lays codec connId done d contents current) {f : SegmentFile}
    (hf : d.writer = some f) {e : TapeEntry} (hshort : e.short connId = true) {w : SegmentWriter}
    (hw : f.writer.append (e.toRecord connId) = .ok w)
    (hfiles : d'.files = d.files) (hwriter : d'.writer = some { f with writer := w }) :
    Lays codec connId (done ++ [.entry e]) d' contents (current ++ [e]) := by
  have hlaid : laid connId [.entry e] = [e] := List.filter_cons_of_pos hshort
  obtain ⟨hopen, hholds⟩ := h.opened f hf
  obtain ⟨-, -, rfl⟩ := SegmentWriter.append_ok_iff.mp hw
  refine ⟨hfiles ▸ h.holds, fun g hg => ?_, fun hnone => ?_, ?_, fun before after hdone => ?_⟩
  · obtain rfl := Option.some.inj (hwriter.symm.trans hg)
    refine ⟨hopen, ?_⟩
    rw [SegmentFile.Holds, List.flatMap_append, ← List.append_assoc, ← hholds]
    simp only [List.flatMap_singleton]
  · rw [hwriter] at hnone
    cases hnone
  · rw [← List.append_assoc, h.whole, laid_append, hlaid]
  · rcases split_snoc hdone with ⟨after', rfl, hbefore⟩ | ⟨-, hm, -⟩
    · obtain ⟨k, hk, hcut, hrest⟩ := h.apart before after' hbefore
      exact ⟨k, hk, hcut, by rw [← List.append_assoc, hrest, laid_append, hlaid]⟩
    · cases hm

/-- `append` refuses an entry only for its length. -/
theorem append_spec {w : SegmentWriter} (hopen : w.closed = false) {e : TapeEntry}
    (hfit : (e.toRecord connId).FieldsFit) :
    e.short connId = true ∧ (∃ w', w.append (e.toRecord connId) = .ok w') ∨
      e.short connId = false ∧ ∃ msg, w.append (e.toRecord connId) = .error (.value msg) := by
  cases hshort : e.short connId with
  | true =>
      have hlen := of_decide_eq_true hshort
      exact .inl ⟨rfl, _, SegmentWriter.append_ok_iff.mpr ⟨hopen, hfit.fits hlen, rfl⟩⟩
  | false =>
      have hlen : (e.toRecord connId).payload.length > maxPayload :=
        Nat.lt_of_not_le (of_decide_eq_false hshort)
      refine .inr ⟨rfl, "payload too large for segment record", ?_⟩
      rw [SegmentWriter.append, hopen]
      simp only [Bool.false_eq_true, if_false, if_pos hlen]

/-- `_write`, of an entry whose fields fit: nothing escapes it, and if it counts
no error the entry is laid, or it is too long. -/
theorem write_spec (henv : env.InOrder codec) {e : TapeEntry} (hfit : (e.toRecord connId).FieldsFit)
    (h : Lays codec connId done d contents current) :
    ∃ d', d.write codec (e.toRecord connId) env = (d', none) ∧ (0 < d'.writeErrors ∨
      ∃ contents' current', Lays codec connId (done ++ [.entry e]) d' contents' current') := by
  obtain ⟨d₁, fault, hfor, hfault⟩ := writerFor_spec henv h
  rcases hfault with rfl | ⟨rfl, hsome, contents₁, current₁, h₁⟩
  · exact ⟨_, by rw [write, hfor], .inl (lt_writeErrors_loseToDisk (Nat.zero_le _) env)⟩
  · obtain ⟨f, hf⟩ := Option.isSome_iff_exists.mp hsome
    rcases append_spec (h₁.opened f hf).1 hfit with ⟨hshort, w, happend⟩ | ⟨hlong, msg, happend⟩
    · by_cases hfails : env.appendFails = true
      · refine ⟨d₁.loseToDisk env, ?_, .inl (lt_writeErrors_loseToDisk (Nat.zero_le _) env)⟩
        rw [write, hfor]
        simp only [hf, happend, if_pos hfails]
      · refine ⟨{ d₁ with
          writer := some { f with writer := w }
          recordsWritten := d₁.recordsWritten + 1
          dirty := true }, ?_, .inr ⟨_, _, h₁.append hf hshort happend rfl rfl⟩⟩
        rw [write, hfor]
        simp only [hf, happend, if_neg hfails]
    · have hlaid : laid connId [.entry e] = [] :=
        List.filter_cons_of_neg (by rw [hlong]; exact Bool.false_ne_true)
      refine ⟨{ d₁ with recordsLost := d₁.recordsLost + 1 }, ?_, .inr ⟨contents₁, current₁, ?_⟩⟩
      · rw [write, hfor]
        simp only [hf, happend]
      · exact (h₁.skip hlaid nofun).congr rfl rfl

end SinkFiles

/-- The record a mark stands for, if any, has fields that fit. -/
def Mark.FieldsFit (connId : Int) (m : Mark) : Prop :=
  ∀ e, m = .entry e → (e.toRecord connId).FieldsFit

namespace SegmentSink

variable {d : SinkFiles} {done : List Mark} {contents : List (List TapeEntry)}
  {current : List TapeEntry} {env : Surroundings}

/-- What the loop does with an item that stands for a mark. -/
theorem handleItem_spec (henv : env.InOrder codec) {m : Mark} (hfit : m.FieldsFit connId)
    (h : SinkFiles.Lays codec connId done d contents current) :
    ∃ d', handleItem codec d env (m.item connId) = (d', none) ∧ (0 < d'.writeErrors ∨
      ∃ contents' current', SinkFiles.Lays codec connId (done ++ [m]) d' contents' current') := by
  cases m with
  | entry e => exact SinkFiles.write_spec henv (hfit e rfl) h
  | rotate =>
      obtain ⟨contents', h'⟩ := h.closeWriter env.closeFails
      exact ⟨_, rfl, .inr ⟨_, _, h'.rotate⟩⟩
  | wake => exact ⟨_, rfl, .inr ⟨_, _, h.skip rfl nofun⟩⟩

theorem le_writeErrors_handleItem {n : Nat} (h : n ≤ d.writeErrors) (env : Surroundings)
    (item : QueueItem) : n ≤ (handleItem codec d env item).1.writeErrors := by
  cases item with
  | record r => exact SinkFiles.le_writeErrors_write h r env
  | rotate => exact SinkFiles.le_writeErrors_closeWriter h _
  | wake => exact h

end SegmentSink

end Tape
