import Tape.Bytes

/-!
# Segments, as they are written

A segment is the bytes a writer hands to its zstd stream: the file header, the
header in JSON, and the records, each with a fixed header of its own. The
fields of a record are Python integers, and `struct.pack` refuses one that does
not fit.

The JSON encoder is a parameter. Compression comes in where the segment is
read; here the stream is the bytes before it.
-/

namespace Tape

/-- The kinds of records. -/
inductive RecordKind where
  | frame
  | command
  | gap
  | connection
  | audit
  deriving DecidableEq, Repr

/-- The number a kind is written as. -/
def RecordKind.value : RecordKind → Nat
  | .frame => 1
  | .command => 2
  | .gap => 3
  | .connection => 4
  | .audit => 5

/-- `RecordKind(value)`. -/
def RecordKind.ofValue : Nat → Option RecordKind
  | 1 => some .frame
  | 2 => some .command
  | 3 => some .gap
  | 4 => some .connection
  | 5 => some .audit
  | _ => none

@[simp] theorem RecordKind.ofValue_value (k : RecordKind) : ofValue k.value = some k := by
  cases k <;> rfl

/-- One subscription of the connection when the segment was opened. -/
structure HeaderSubscription where
  sid : Int
  channel : String
  groupId : String
  deriving DecidableEq, Repr

/-- What a segment begins with. -/
structure SegmentHeader where
  createdWallNs : Int
  host : String
  env : String
  connId : Int
  wsUrl : String
  useYesPrice : Bool
  subscriptions : List HeaderSubscription
  softwareVersion : String
  specVersions : List (String × String)
  deriving DecidableEq, Repr

/-- A record of a segment. -/
structure Record where
  kind : RecordKind
  connId : Int
  recvMonoNs : Int
  recvWallNs : Int
  payload : List UInt8
  deriving DecidableEq, Repr

/-- The JSON encoder and decoder of a header. -/
structure HeaderCodec where
  encode : SegmentHeader → List UInt8
  decode : List UInt8 → Option SegmentHeader

/-- `MAGIC`. -/
def magic : List UInt8 := [0x54, 0x41, 0x50, 0x45]

/-- The version of the format. -/
def formatVersion : Int := 1

/-- `_FILE_HEADER`, after the magic, and `_RECORD_HEADER`. -/
def fileHeaderWidths : List Nat := [2, 4]

/-- How many bytes each field of a record's header takes. -/
def recordHeaderWidths : List Nat := [1, 2, 8, 8, 4]

/-- The bytes before the JSON of a header. -/
def fileHeaderSize : Nat := 10

/-- The bytes before a record's payload. -/
def recordHeaderSize : Nat := 23

/-- The largest payload. -/
def maxPayload : Nat := 2 ^ 32 - 1

/-- Why a writer refuses. -/
inductive WriteError where
  | value (msg : String)
  | struct
  deriving DecidableEq, Repr

/-- A segment that is being written. -/
structure SegmentWriter where
  /-- The bytes handed to the compressor. -/
  stream : List UInt8
  closed : Bool
  recordsWritten : Nat
  bytesWritten : Nat
  deriving DecidableEq, Repr

namespace SegmentWriter

/-- `_write`. -/
def write (w : SegmentWriter) (data : List UInt8) : SegmentWriter :=
  { w with stream := w.stream ++ data, bytesWritten := w.bytesWritten + data.length }

/-- `SegmentWriter.__init__`. -/
def new (codec : HeaderCodec) (header : SegmentHeader) : Except WriteError SegmentWriter :=
  let headerJson := codec.encode header
  match Bytes.pack fileHeaderWidths [formatVersion, headerJson.length] with
  | none => .error .struct
  | some packed =>
      .ok ((write ⟨[], false, 0, 0⟩ (magic ++ packed)).write headerJson)

/-- A record is written. -/
def append (w : SegmentWriter) (r : Record) : Except WriteError SegmentWriter :=
  if w.closed then .error (.value "segment writer is closed")
  else if r.payload.length > maxPayload then
    .error (.value "payload too large for segment record")
  else
    match Bytes.pack recordHeaderWidths
        [r.kind.value, r.connId, r.recvMonoNs, r.recvWallNs, r.payload.length] with
    | none => .error .struct
    | some packed =>
        let w := (w.write packed).write r.payload
        .ok { w with recordsWritten := w.recordsWritten + 1 }

/-- `append`, for one record after another. -/
def appendAll (w : SegmentWriter) : List Record → Except WriteError SegmentWriter
  | [] => .ok w
  | r :: rest =>
      match w.append r with
      | .error e => .error e
      | .ok w => appendAll w rest

/-- Nothing more is written. -/
def close (w : SegmentWriter) : SegmentWriter := { w with closed := true }

end SegmentWriter

/-- A segment written whole. -/
def writeSegment (codec : HeaderCodec) (header : SegmentHeader) (records : List Record) :
    Except WriteError SegmentWriter :=
  match SegmentWriter.new codec header with
  | .error e => .error e
  | .ok w =>
      match w.appendAll records with
      | .error e => .error e
      | .ok w => .ok w.close

/-! ## The bytes of a segment -/

/-- The fields of a record fit its header. -/
def Record.Fits (r : Record) : Prop :=
  (0 ≤ r.connId ∧ r.connId < 2 ^ 16) ∧ (0 ≤ r.recvMonoNs ∧ r.recvMonoNs < 2 ^ 64) ∧
    (0 ≤ r.recvWallNs ∧ r.recvWallNs < 2 ^ 64) ∧ r.payload.length < 2 ^ 32

/-- What `append` writes for a record. -/
def Record.bytes (r : Record) : List UInt8 :=
  ((Bytes.pack recordHeaderWidths
    [r.kind.value, r.connId, r.recvMonoNs, r.recvWallNs, r.payload.length]).getD []) ++ r.payload

/-- What the constructor writes for a header. -/
def headerBytes (codec : HeaderCodec) (header : SegmentHeader) : List UInt8 :=
  magic ++ ((Bytes.pack fileHeaderWidths
    [formatVersion, (codec.encode header).length]).getD []) ++ codec.encode header

theorem RecordKind.value_lt (k : RecordKind) : (k.value : Int) < 256 ^ 1 := by
  cases k <;> decide

/-- The header of a record can be packed exactly if its fields fit. -/
theorem Record.fits_iff (r : Record) :
    r.Fits ↔ ∃ packed, Bytes.pack recordHeaderWidths
      [r.kind.value, r.connId, r.recvMonoNs, r.recvWallNs, r.payload.length] = some packed := by
  have hkind := r.kind.value_lt
  simp only [Fits, recordHeaderWidths, Bytes.exists_pack_cons, Bytes.exists_pack_nil, and_true]
  constructor
  · rintro ⟨hconn, hmono, hwall, hlen⟩
    omega
  · rintro ⟨-, hconn, hmono, hwall, hlen⟩
    omega

/-- A record is appended exactly if it fits and the writer is open. -/
theorem SegmentWriter.append_ok_iff {w w' : SegmentWriter} {r : Record} :
    w.append r = .ok w' ↔ w.closed = false ∧ r.Fits ∧
      w' = { w with stream := w.stream ++ r.bytes, recordsWritten := w.recordsWritten + 1
                    bytesWritten := w.bytesWritten + r.bytes.length } := by
  rw [append]
  cases hclosed : w.closed with
  | true => simp
  | false =>
      by_cases hlen : r.payload.length > maxPayload
      · have hnot : ¬ r.Fits := fun h => by
          have := h.2.2.2
          rw [maxPayload] at hlen
          omega
        simp [hlen, hnot]
      · simp only [Bool.false_eq_true, if_false, if_neg hlen, true_and]
        split
        · next hnone =>
            have hnot : ¬ r.Fits := fun h => by
              obtain ⟨packed, hpacked⟩ := r.fits_iff.mp h
              rw [hnone] at hpacked
              cases hpacked
            simp [hnot]
        · next packed hpacked =>
            have hfits : r.Fits := r.fits_iff.mpr ⟨packed, hpacked⟩
            have hbytes : r.bytes = packed ++ r.payload := by rw [Record.bytes, hpacked]; rfl
            simp only [Except.ok.injEq, hfits, true_and, write, hbytes, List.append_assoc,
              List.length_append, Nat.add_assoc, hclosed]
            exact eq_comm

/-- Records that fit are appended, one after the other. -/
theorem SegmentWriter.appendAll_of_fits {w : SegmentWriter} {records : List Record}
    (hopen : w.closed = false) (hfits : ∀ r ∈ records, r.Fits) :
    ∃ w', w.appendAll records = .ok w' ∧ w'.stream = w.stream ++ records.flatMap Record.bytes := by
  induction records generalizing w with
  | nil => exact ⟨w, rfl, by rw [List.flatMap_nil, List.append_nil]⟩
  | cons r rest ih =>
      obtain ⟨hfit, hrest⟩ := List.forall_mem_cons.mp hfits
      have happend := append_ok_iff.mpr ⟨hopen, hfit, rfl⟩
      obtain ⟨w', hall, hstream⟩ := ih (w := { w with
        stream := w.stream ++ r.bytes
        recordsWritten := w.recordsWritten + 1
        bytesWritten := w.bytesWritten + r.bytes.length }) hopen hrest
      refine ⟨w', ?_, ?_⟩
      · rw [appendAll]
        simp only [happend]
        exact hall
      · rw [hstream, List.flatMap_cons, List.append_assoc]

/-- The file header can be packed if the header's JSON is not too long. -/
theorem exists_pack_header {hdrLen : Nat} (h : hdrLen < 2 ^ 32) :
    ∃ packed, Bytes.pack fileHeaderWidths [formatVersion, hdrLen] = some packed := by
  simp only [fileHeaderWidths, formatVersion, Bytes.exists_pack_cons, Bytes.exists_pack_nil,
    and_true]
  omega

theorem SegmentWriter.new_of_fits {codec : HeaderCodec} {header : SegmentHeader}
    (h : (codec.encode header).length < 2 ^ 32) :
    ∃ w, new codec header = .ok w ∧ w.closed = false ∧ w.stream = headerBytes codec header := by
  obtain ⟨packed, hpacked⟩ := exists_pack_header h
  rw [new, headerBytes]
  simp only [hpacked]
  exact ⟨_, rfl, rfl, rfl⟩

/-- A segment whose header and records fit is written, and its bytes are theirs. -/
theorem writeSegment_of_fits {codec : HeaderCodec} {header : SegmentHeader} {records : List Record}
    (hheader : (codec.encode header).length < 2 ^ 32) (hfits : ∀ r ∈ records, r.Fits) :
    ∃ w, writeSegment codec header records = .ok w ∧
      w.stream = headerBytes codec header ++ records.flatMap Record.bytes := by
  obtain ⟨w, hw, hopen, hhead⟩ := SegmentWriter.new_of_fits hheader
  obtain ⟨w', hall, hstream⟩ := SegmentWriter.appendAll_of_fits hopen hfits
  refine ⟨w'.close, ?_, ?_⟩
  · rw [writeSegment]
    simp only [hw, hall]
  · rw [SegmentWriter.close, hstream, hhead]

end Tape
