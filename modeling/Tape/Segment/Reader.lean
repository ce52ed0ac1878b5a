import Mathlib
import Tape.Segment.Format

/-!
# Segments, as they are read

`SegmentReader` pulls compressed bytes from the file, pushes them through a zstd
decompressor, and cuts records off the front of what comes out. A crash leaves
a file that ends anywhere, so the reader stops quietly where the content does,
and says in `truncated` that it stopped early.

The decompressor is a parameter. `Zstd.Frame` is what it is relied on for: fed
any first part of a frame, in any pieces, it gives a first part of the content,
in pieces of its own, and nothing else; and it knows the end of the frame.
`segment_round_trip` is the format's contract: whatever the pieces, the reader
gives exactly the records that lie inside what was decompressed.
-/

namespace Tape

/-- `zstandard`'s `decompressobj`. -/
structure Zstd (σ : Type) where
  start : σ
  /-- `decompress`, and the object afterwards; or a `ZstdError`. -/
  decompress : σ → List UInt8 → Option (List UInt8 × σ)
  eof : σ → Bool
  unusedData : σ → List UInt8

/-- `TapeCorruptionError`, by its cause. -/
inductive CorruptionError where
  | shorterThanHeader
  | badMagic (magic : List UInt8)
  | unsupportedVersion (version : Nat)
  | truncatedHeader
  | malformedHeader
  | unknownKind (kind : Nat)
  deriving DecidableEq, Repr

/-- A segment that is being read. -/
structure SegmentReader (σ : Type) where
  /-- What the reads of the file give from now on, up to the empty one. -/
  input : List (List UInt8)
  dobj : σ
  buffer : List UInt8
  eof : Bool
  truncated : Bool
  damaged : Bool

namespace SegmentReader

variable {σ : Type} (z : Zstd σ)

/-- `_fill`, before the end of the input. -/
def fillFrom (r : SegmentReader σ) : List (List UInt8) → SegmentReader σ × Bool
  | [] =>
      ({ r with input := [], eof := true, truncated := r.truncated || !z.eof r.dobj }, false)
  | raw :: rest =>
      match z.decompress r.dobj raw with
      | none => ({ r with input := rest, eof := true, damaged := true }, false)
      | some (chunk, dobj) =>
          -- Bytes after the end of the frame: a writer never leaves any.
          let r :=
            if z.eof dobj ∧ z.unusedData dobj ≠ [] then
              { r with dobj := dobj, eof := true, damaged := true }
            else { r with dobj := dobj }
          if chunk ≠ [] then ({ r with input := rest, buffer := r.buffer ++ chunk }, true)
          else if r.eof then ({ r with input := rest }, false)
          else fillFrom r rest

/-- Read on, unless the file is at its end. -/
def fill (r : SegmentReader σ) : SegmentReader σ × Bool :=
  if r.eof then (r, false) else r.fillFrom z r.input

/-- The loop of `_ensure`. Each turn takes a read at least, so their number is
fuel enough. -/
def ensureFrom (needed : Nat) : Nat → SegmentReader σ → SegmentReader σ × Bool
  | 0, r => (r, false)
  | fuel + 1, r =>
      if r.buffer.length < needed then
        match r.fill z with
        | (r, false) => (r, false)
        | (r, true) => ensureFrom needed fuel r
      else (r, true)

/-- Read on until so many bytes are there. -/
def ensure (r : SegmentReader σ) (needed : Nat) : SegmentReader σ × Bool :=
  ensureFrom z needed (r.input.length + 1) r

/-- `_read_header`: the header, and the reader after it. -/
def readHeader (codec : HeaderCodec) (r : SegmentReader σ) :
    Except CorruptionError (SegmentHeader × SegmentReader σ) :=
  match r.ensure z fileHeaderSize with
  | (_, false) => .error .shorterThanHeader
  | (r, true) =>
      if r.buffer.take 4 ≠ magic then .error (.badMagic (r.buffer.take 4))
      else
        match Bytes.unpack fileHeaderWidths (r.buffer.drop 4) with
        | [version, hdrLen] =>
            if (version : Int) ≠ formatVersion then .error (.unsupportedVersion version)
            else
              match r.ensure z (fileHeaderSize + hdrLen) with
              | (_, false) => .error .truncatedHeader
              | (r, true) =>
                  match codec.decode ((r.buffer.drop fileHeaderSize).take hdrLen) with
                  | none => .error .malformedHeader
                  | some header =>
                      .ok (header, { r with buffer := r.buffer.drop (fileHeaderSize + hdrLen) })
        -- There are two widths.
        | _ => .error .shorterThanHeader

/-- `SegmentReader.__init__`, for a file whose reads give `input`. -/
def new (codec : HeaderCodec) (input : List (List UInt8)) :
    Except CorruptionError (SegmentHeader × SegmentReader σ) :=
  readHeader z codec ⟨input, z.start, [], false, false, false⟩

/-- What a turn of `records` comes to. -/
inductive Turn (σ : Type) where
  | stop (r : SegmentReader σ)
  | record (rec : Record) (r : SegmentReader σ)
  | raise (e : CorruptionError)

/-- One turn of the reader's loop. -/
def turn (r : SegmentReader σ) : Turn σ :=
  match r.ensure z recordHeaderSize with
  | (r, false) => .stop { r with truncated := r.truncated || r.buffer.length > 0 }
  | (r, true) =>
      match Bytes.unpack recordHeaderWidths r.buffer with
      | [kind, connId, mono, wall, length] =>
          match r.ensure z (recordHeaderSize + length) with
          | (r, false) => .stop { r with truncated := true }
          | (r, true) =>
              let payload := (r.buffer.drop recordHeaderSize).take length
              let r := { r with buffer := r.buffer.drop (recordHeaderSize + length) }
              match RecordKind.ofValue kind with
              | none => .raise (.unknownKind kind)
              | some recordKind => .record ⟨recordKind, connId, mono, wall, payload⟩ r
      -- There are five widths.
      | _ => .stop r

/-- `records`, to its end: the records it yields, what it raises, if anything,
and the reader afterwards. The fuel counts turns. -/
def records : Nat → SegmentReader σ →
    Option (List Record × Option CorruptionError × SegmentReader σ)
  | 0, _ => none
  | fuel + 1, r =>
      match r.turn z with
      | .stop r => some ([], none, r)
      | .raise e => some ([], some e, r)
      | .record rec r =>
          (records fuel r).map fun (rest, raised, r) => (rec :: rest, raised, r)

end SegmentReader

/-- A decompressor fed one piece after another: the chunks it gives. -/
def Zstd.feed {σ : Type} (z : Zstd σ) : σ → List (List UInt8) → Option (List (List UInt8) × σ)
  | s, [] => some ([], s)
  | s, raw :: rest =>
      match z.decompress s raw with
      | none => none
      | some (chunk, s) => (z.feed s rest).map fun (chunks, s) => (chunk :: chunks, s)

/-- The file is one finished frame with this content. Any first part of it, in
any pieces, decompresses to a first part of the content with nothing left over;
the whole of it, and only that, is the end of the frame, and gives the whole. -/
structure Zstd.Frame {σ : Type} (z : Zstd σ) (file content : List UInt8) : Prop where
  feed : ∀ raws : List (List UInt8), [] ∉ raws → raws.flatten <+: file →
    ∃ chunks s, z.feed z.start raws = some (chunks, s) ∧ chunks.flatten <+: content ∧
      z.unusedData s = [] ∧ (z.eof s = true ↔ raws.flatten = file) ∧
      (raws.flatten = file → chunks.flatten = content)

namespace SegmentReader

variable {σ : Type} {z : Zstd σ}

/-! ## What a reader can still get -/

/-- What the input decompresses to, chunk by chunk, and whether the frame ends
with it. -/
inductive Supplies (z : Zstd σ) : List (List UInt8) → σ → List UInt8 → Bool → Prop
  | done (s : σ) : Supplies z [] s [] (z.eof s)
  | more {raw chunk out : List UInt8} {rest : List (List UInt8)} {s s' : σ} {fin : Bool} :
      z.decompress s raw = some (chunk, s') → z.unusedData s' = [] →
      Supplies z rest s' out fin → Supplies z (raw :: rest) s (chunk ++ out) fin

/-- The reader gives `data`, buffer first, and then stops; `fin` says whether the
frame ends there. -/
structure Reads (z : Zstd σ) (r : SegmentReader σ) (data : List UInt8) (fin : Bool) : Prop where
  damaged : r.damaged = false
  rest : ∃ out, r.buffer ++ out = data ∧
    (r.eof = false ∧ r.truncated = false ∧ Supplies z r.input r.dobj out fin ∨
      r.eof = true ∧ r.truncated = !fin ∧ out = [])

variable {r : SegmentReader σ} {data : List UInt8} {fin : Bool}

/-- Nothing is left to supply: the input is read to its end. -/
theorem fillFrom_of_nil {input : List (List UInt8)} {out : List UInt8}
    (h : Supplies z input r.dobj out fin) (hout : out = []) (heof : r.eof = false)
    (htrunc : r.truncated = false) :
    ∃ s, r.fillFrom z input =
      ({ r with input := [], dobj := s, eof := true, truncated := !fin }, false) := by
  generalize hs : r.dobj = s at h
  induction h generalizing r with
  | done s =>
      subst hs
      refine ⟨r.dobj, ?_⟩
      rw [fillFrom, htrunc, Bool.false_or]
  | @more _ _ _ _ _ s' _ hdec hunused _ ih =>
      subst hs
      obtain ⟨rfl, hout⟩ := List.append_eq_nil_iff.mp hout
      obtain ⟨s, hfill⟩ := ih (r := { r with dobj := s' }) hout heof htrunc rfl
      refine ⟨s, ?_⟩
      rw [fillFrom]
      simp only [hdec, hunused, ne_eq, not_true_eq_false, and_false, if_false, heof,
        Bool.false_eq_true] at hfill ⊢
      exact hfill

/-- Something is left: some chunk of it joins the buffer. -/
theorem fillFrom_of_cons {input : List (List UInt8)} {out : List UInt8}
    (h : Supplies z input r.dobj out fin) (hout : out ≠ []) (heof : r.eof = false) :
    ∃ chunk out' rest s, out = chunk ++ out' ∧ rest.length < input.length ∧
      r.fillFrom z input =
        ({ r with input := rest, dobj := s, buffer := r.buffer ++ chunk }, true) ∧
      Supplies z rest s out' fin := by
  generalize hs : r.dobj = s at h
  induction h generalizing r with
  | done s => exact absurd rfl hout
  | @more raw chunk out rest s s' fin hdec hunused hrest ih =>
      subst hs
      rw [fillFrom]
      simp only [hdec, hunused, ne_eq, not_true_eq_false, and_false, if_false, heof,
        Bool.false_eq_true]
      by_cases hchunk : chunk = []
      · subst hchunk
        obtain ⟨chunk, out', rest', s'', hsplit, hlen, hfill, hsup⟩ :=
          ih (r := { r with dobj := s' }) hout heof rfl
        refine ⟨chunk, out', rest', s'', hsplit, Nat.lt_succ_of_lt hlen, ?_, hsup⟩
        simp only [not_true_eq_false, if_false, heof] at hfill ⊢
        exact hfill
      · refine ⟨chunk, out, rest, s', rfl, Nat.lt_succ_self _, ?_, hrest⟩
        simp only [hchunk, not_false_eq_true, if_true]

/-- The buffer holds everything: the input ends, and the reader knows whether
the frame did. -/
theorem Reads.fill_done (h : Reads z r data fin) (hall : r.buffer = data) :
    ∃ r', r.fill z = (r', false) ∧ Reads z r' data fin ∧ r'.buffer = data ∧ r'.eof = true ∧
      r'.truncated = !fin := by
  obtain ⟨out, hdata, hrest⟩ := h.rest
  have hout : out = [] := List.append_right_eq_self.mp (hdata.trans hall.symm)
  rw [fill]
  rcases hrest with ⟨heof, htrunc, hsup⟩ | ⟨heof, htrunc, -⟩
  · obtain ⟨s, hfill⟩ := fillFrom_of_nil hsup hout heof htrunc
    rw [heof, if_neg (by decide), hfill]
    exact ⟨_, rfl, ⟨h.damaged, [], by rw [List.append_nil]; exact hall, .inr ⟨rfl, rfl, rfl⟩⟩,
      hall, rfl, rfl⟩
  · rw [heof, if_pos rfl]
    exact ⟨r, rfl, h, hall, heof, htrunc⟩

/-- Otherwise the buffer grows. -/
theorem Reads.fill_more (h : Reads z r data fin) (hless : r.buffer.length < data.length) :
    ∃ r', r.fill z = (r', true) ∧ Reads z r' data fin ∧ r'.input.length < r.input.length := by
  obtain ⟨out, hdata, hrest⟩ := h.rest
  have hout : out ≠ [] := by
    rintro rfl
    rw [List.append_nil] at hdata
    rw [hdata] at hless
    exact Nat.lt_irrefl _ hless
  rw [fill]
  rcases hrest with ⟨heof, htrunc, hsup⟩ | ⟨-, -, hnone⟩
  · obtain ⟨chunk, out', rest, s, rfl, hlen, hfill, hsup'⟩ := fillFrom_of_cons hsup hout heof
    rw [heof, if_neg (by decide), hfill]
    refine ⟨_, rfl, ⟨h.damaged, out', ?_, .inl ⟨heof, htrunc, hsup'⟩⟩, hlen⟩
    rw [List.append_assoc]
    exact hdata
  · exact absurd hnone hout

/-- A reader's buffer is the first part of what it gives. -/
theorem Reads.buffer_isPrefix (h : Reads z r data fin) : r.buffer <+: data := by
  obtain ⟨out, hdata, -⟩ := h.rest
  exact ⟨out, hdata⟩

theorem Reads.ensureFrom_ok {needed : Nat} (hneeded : needed ≤ data.length) {fuel : Nat}
    (h : Reads z r data fin) (hfuel : r.input.length < fuel) :
    ∃ r', ensureFrom z needed fuel r = (r', true) ∧ Reads z r' data fin ∧
      needed ≤ r'.buffer.length := by
  induction fuel generalizing r with
  | zero => exact absurd hfuel (Nat.not_lt_zero _)
  | succ fuel ih =>
      rw [ensureFrom]
      split
      · next hless =>
          obtain ⟨r', hfill, hreads, hlen⟩ := h.fill_more (by omega)
          simp only [hfill]
          exact ih hreads (by omega)
      · next hless => exact ⟨r, rfl, h, by omega⟩

theorem Reads.ensureFrom_short {needed : Nat} (hneeded : data.length < needed) {fuel : Nat}
    (h : Reads z r data fin) (hfuel : r.input.length < fuel) :
    ∃ r', ensureFrom z needed fuel r = (r', false) ∧ Reads z r' data fin ∧ r'.buffer = data ∧
      r'.truncated = !fin := by
  induction fuel generalizing r with
  | zero => exact absurd hfuel (Nat.not_lt_zero _)
  | succ fuel ih =>
      have hfirst := h.buffer_isPrefix
      rw [ensureFrom, if_pos (Nat.lt_of_le_of_lt hfirst.length_le hneeded)]
      by_cases hall : r.buffer = data
      · obtain ⟨r', hfill, hreads, hbuffer, -, htrunc⟩ := h.fill_done hall
        simp only [hfill]
        exact ⟨r', rfl, hreads, hbuffer, htrunc⟩
      · have hless : r.buffer.length < data.length := by
          refine Nat.lt_of_le_of_ne hfirst.length_le fun heq => hall ?_
          exact hfirst.eq_of_length heq
        obtain ⟨r', hfill, hreads, hlen⟩ := h.fill_more hless
        simp only [hfill]
        exact ih hreads (by omega)

/-- `_ensure`, where the data reaches. -/
theorem Reads.ensure_ok (h : Reads z r data fin) (needed : Nat) (hneeded : needed ≤ data.length) :
    ∃ r', r.ensure z needed = (r', true) ∧ Reads z r' data fin ∧ needed ≤ r'.buffer.length :=
  h.ensureFrom_ok hneeded (Nat.lt_succ_self _)

/-- `_ensure`, past the end of the data. -/
theorem Reads.ensure_short (h : Reads z r data fin) {needed : Nat}
    (hneeded : data.length < needed) :
    ∃ r', r.ensure z needed = (r', false) ∧ Reads z r' data fin ∧ r'.buffer = data ∧
      r'.truncated = !fin :=
  h.ensureFrom_short hneeded (Nat.lt_succ_self _)

/-- Bytes taken off the front of the buffer are off the front of the data. -/
theorem Reads.drop (h : Reads z r data fin) {n : Nat} (hn : n ≤ r.buffer.length) :
    Reads z { r with buffer := r.buffer.drop n } (data.drop n) fin where
  damaged := h.damaged
  rest := by
    obtain ⟨out, hdata, hrest⟩ := h.rest
    refine ⟨out, ?_, hrest⟩
    rw [← hdata, List.drop_append_of_le_length hn]

/-! ## One record -/

theorem prefix_split {α : Type} {l p q : List α} (h : l <+: p ++ q) (hlen : p.length ≤ l.length) :
    ∃ t, l = p ++ t ∧ t <+: q := by
  obtain ⟨t, rfl⟩ := List.prefix_of_prefix_length_le (List.prefix_append p q) h hlen
  exact ⟨t, rfl, (List.prefix_append_right_inj p).mp h⟩

/-- The header of a record, read back. -/
theorem unpack_record {rec : Record} {packed : List UInt8}
    (h : Bytes.pack recordHeaderWidths [rec.kind.value, rec.connId, rec.recvMonoNs,
      rec.recvWallNs, rec.payload.length] = some packed) (t : List UInt8) :
    ∃ connId mono wall : Nat, Bytes.unpack recordHeaderWidths (packed ++ t) =
        [rec.kind.value, connId, mono, wall, rec.payload.length] ∧
      (connId : Int) = rec.connId ∧ (mono : Int) = rec.recvMonoNs ∧
      (wall : Int) = rec.recvWallNs := by
  have hrow := Bytes.unpack_pack h t
  obtain ⟨kind, l₁, hunpack, hkind, hl₁⟩ := List.map_eq_cons_iff.mp hrow
  obtain ⟨connId, l₂, rfl, hconn, hl₂⟩ := List.map_eq_cons_iff.mp hl₁
  obtain ⟨mono, l₃, rfl, hmono, hl₃⟩ := List.map_eq_cons_iff.mp hl₂
  obtain ⟨wall, l₄, rfl, hwall, hl₄⟩ := List.map_eq_cons_iff.mp hl₃
  obtain ⟨length, l₅, rfl, hlength, hl₅⟩ := List.map_eq_cons_iff.mp hl₄
  obtain rfl := List.map_eq_nil_iff.mp hl₅
  obtain rfl := Int.ofNat.inj hkind
  obtain rfl := Int.ofNat.inj hlength
  exact ⟨connId, mono, wall, hunpack, hconn, hmono, hwall⟩

theorem length_packed {rec : Record} {packed : List UInt8}
    (h : Bytes.pack recordHeaderWidths [rec.kind.value, rec.connId, rec.recvMonoNs,
      rec.recvWallNs, rec.payload.length] = some packed) : packed.length = recordHeaderSize :=
  Bytes.length_pack h

theorem bytes_eq {rec : Record} {packed : List UInt8}
    (h : Bytes.pack recordHeaderWidths [rec.kind.value, rec.connId, rec.recvMonoNs,
      rec.recvWallNs, rec.payload.length] = some packed) : rec.bytes = packed ++ rec.payload := by
  rw [Record.bytes, h, Option.getD_some]

/-- A record that lies inside the data is yielded. -/
theorem Reads.turn_record {rec : Record} (hfits : rec.Fits)
    (h : Reads z r (rec.bytes ++ data) fin) :
    ∃ r', r.turn z = .record rec r' ∧ Reads z r' data fin := by
  obtain ⟨packed, hpacked⟩ := rec.fits_iff.mp hfits
  have hlen := length_packed hpacked
  rw [bytes_eq hpacked, List.append_assoc] at h
  obtain ⟨r₁, hr₁, hreads₁, hbuffer₁⟩ := h.ensure_ok recordHeaderSize (by
    rw [List.length_append, hlen]
    omega)
  obtain ⟨t₁, ht₁, -⟩ := prefix_split hreads₁.buffer_isPrefix (hlen ▸ hbuffer₁)
  obtain ⟨connId, mono, wall, hunpack, hconn, hmono, hwall⟩ := unpack_record hpacked t₁
  obtain ⟨r₂, hr₂, hreads₂, hbuffer₂⟩ := hreads₁.ensure_ok
    (recordHeaderSize + rec.payload.length) (by
      rw [List.length_append, List.length_append, hlen]
      omega)
  rw [← List.append_assoc] at hreads₂
  have hwhole : (packed ++ rec.payload).length = recordHeaderSize + rec.payload.length := by
    rw [List.length_append, hlen]
  obtain ⟨t₂, ht₂, -⟩ := prefix_split hreads₂.buffer_isPrefix (hwhole ▸ hbuffer₂)
  have hpayload : (r₂.buffer.drop recordHeaderSize).take rec.payload.length = rec.payload := by
    rw [ht₂, List.append_assoc, List.drop_left' hlen, List.take_left]
  have hleft := hreads₂.drop hbuffer₂
  rw [← hwhole, List.drop_left] at hleft
  refine ⟨{ r₂ with buffer := r₂.buffer.drop (packed ++ rec.payload).length }, ?_, hleft⟩
  rw [turn]
  simp only [hr₁, ht₁, hunpack, hr₂, hpayload, RecordKind.ofValue_value, hconn, hmono, hwall,
    hwhole]

/-- What is left when no further record lies inside the data: nothing, or the
first part of a record. -/
def Torn (data : List UInt8) : Prop :=
  data = [] ∨ ∃ rec : Record, rec.Fits ∧ data <+: rec.bytes ∧ data.length < rec.bytes.length

/-- At the end of the data the reader stops, and says whether it was cut short. -/
theorem Reads.turn_stop (htorn : Torn data) (h : Reads z r data fin) :
    ∃ r', r.turn z = .stop r' ∧ r'.damaged = false ∧
      r'.truncated = (!fin || decide (data ≠ [])) := by
  by_cases hshort : data.length < recordHeaderSize
  · obtain ⟨r₁, hr₁, hreads₁, hbuffer₁, htrunc₁⟩ := h.ensure_short hshort
    refine ⟨{ r₁ with truncated := r₁.truncated || r₁.buffer.length > 0 }, ?_, hreads₁.damaged, ?_⟩
    · rw [turn, hr₁]
    · simp only [htrunc₁, hbuffer₁, gt_iff_lt, List.length_pos_iff]
  · obtain ⟨rec, hfits, hfirst, hless⟩ := htorn.resolve_left (by
      rintro rfl
      exact hshort (by decide))
    obtain ⟨packed, hpacked⟩ := rec.fits_iff.mp hfits
    have hlen := length_packed hpacked
    rw [bytes_eq hpacked] at hfirst hless
    obtain ⟨r₁, hr₁, hreads₁, hbuffer₁⟩ := h.ensure_ok _ (Nat.le_of_not_lt hshort)
    obtain ⟨t₁, ht₁, -⟩ := prefix_split (hreads₁.buffer_isPrefix.trans hfirst) (hlen ▸ hbuffer₁)
    obtain ⟨connId, mono, wall, hunpack, -⟩ := unpack_record hpacked t₁
    rw [List.length_append, hlen] at hless
    obtain ⟨r₂, hr₂, hreads₂, -⟩ := hreads₁.ensure_short hless
    refine ⟨{ r₂ with truncated := true }, ?_, hreads₂.damaged, ?_⟩
    · rw [turn]
      simp only [hr₁, ht₁, hunpack, hr₂]
    · have hne : data ≠ [] := by
        rintro rfl
        exact hshort (by decide)
      simp [hne]

/-- The run lemma: the records that lie inside the data, and then the end. -/
theorem Reads.records {recs : List Record} {tail : List UInt8} (hfits : ∀ rec ∈ recs, rec.Fits)
    (htorn : Torn tail) (h : Reads z r (recs.flatMap Record.bytes ++ tail) fin) {fuel : Nat}
    (hfuel : recs.length < fuel) :
    ∃ r', r.records z fuel = some (recs, none, r') ∧ r'.damaged = false ∧
      r'.truncated = (!fin || decide (tail ≠ [])) := by
  induction recs generalizing r fuel with
  | nil =>
      obtain ⟨fuel, rfl⟩ := Nat.exists_eq_add_of_lt hfuel
      obtain ⟨r', hturn, hdamaged, htrunc⟩ := Reads.turn_stop htorn h
      refine ⟨r', ?_, hdamaged, htrunc⟩
      rw [List.length_nil, Nat.zero_add, SegmentReader.records]
      simp only [hturn]
  | cons rec recs ih =>
      obtain ⟨fuel, rfl⟩ : ∃ n, fuel = n + 1 := ⟨fuel - 1, by omega⟩
      rw [List.flatMap_cons, List.append_assoc] at h
      obtain ⟨r₁, hturn, hreads⟩ := h.turn_record (hfits rec List.mem_cons_self)
      obtain ⟨r', hrest, hdamaged, htrunc⟩ :=
        ih (fun rec hrec => hfits rec (List.mem_cons_of_mem _ hrec)) hreads
          (Nat.lt_of_succ_lt_succ hfuel)
      refine ⟨r', ?_, hdamaged, htrunc⟩
      rw [SegmentReader.records]
      simp only [hturn, hrest, Option.map_some]

/-! ## The header -/

theorem Reads.readHeader {codec : HeaderCodec} {header : SegmentHeader} {packed : List UInt8}
    (hcodec : codec.decode (codec.encode header) = some header)
    (hpacked : Bytes.pack fileHeaderWidths [formatVersion, (codec.encode header).length] =
      some packed)
    (h : Reads z r (headerBytes codec header ++ data) fin) :
    ∃ r', r.readHeader z codec = .ok (header, r') ∧ Reads z r' data fin := by
  have hlen : packed.length = 6 := Bytes.length_pack hpacked
  have hfour : magic.length = 4 := rfl
  have hfixed : (magic ++ packed).length = fileHeaderSize := by
    rw [List.length_append, hlen]
    rfl
  have hbytes : headerBytes codec header ++ data =
      (magic ++ packed) ++ (codec.encode header ++ data) := by
    rw [headerBytes, hpacked, Option.getD_some, List.append_assoc]
  rw [hbytes] at h
  obtain ⟨r₁, hr₁, hreads₁, hbuffer₁⟩ := h.ensure_ok fileHeaderSize (by
    rw [List.length_append, hfixed]
    omega)
  obtain ⟨t₁, ht₁, -⟩ := prefix_split hreads₁.buffer_isPrefix (hfixed ▸ hbuffer₁)
  rw [List.append_assoc] at ht₁
  have hmagic : r₁.buffer.take 4 = magic := by rw [ht₁, List.take_left' hfour]
  have hrow : (Bytes.unpack fileHeaderWidths (r₁.buffer.drop 4)).map Int.ofNat =
      [formatVersion, (codec.encode header).length] := by
    rw [ht₁, List.drop_left' hfour]
    exact Bytes.unpack_pack hpacked t₁
  obtain ⟨version, l₁, hunpack, hversion, hl₁⟩ := List.map_eq_cons_iff.mp hrow
  obtain ⟨hdrLen, l₂, rfl, hhdr, hl₂⟩ := List.map_eq_cons_iff.mp hl₁
  obtain rfl := List.map_eq_nil_iff.mp hl₂
  obtain rfl := Int.ofNat.inj hhdr
  obtain ⟨r₂, hr₂, hreads₂, hbuffer₂⟩ := hreads₁.ensure_ok
    (fileHeaderSize + (codec.encode header).length) (by
      rw [List.length_append, hfixed, List.length_append]
      omega)
  rw [← List.append_assoc] at hreads₂
  have hwhole : (magic ++ packed ++ codec.encode header).length =
      fileHeaderSize + (codec.encode header).length := by
    rw [List.length_append, hfixed]
  obtain ⟨t₂, ht₂, -⟩ := prefix_split hreads₂.buffer_isPrefix (hwhole ▸ hbuffer₂)
  have hjson : (r₂.buffer.drop fileHeaderSize).take (codec.encode header).length =
      codec.encode header := by
    rw [ht₂, List.append_assoc, List.drop_left' hfixed, List.take_left]
  have hleft := hreads₂.drop hbuffer₂
  rw [← hwhole, List.drop_left] at hleft
  refine ⟨{ r₂ with
    buffer := r₂.buffer.drop (magic ++ packed ++ codec.encode header).length }, ?_, hleft⟩
  have hversion : (version : Int) = formatVersion := hversion
  rw [SegmentReader.readHeader]
  simp only [hr₁, hmagic, ne_eq, not_true_eq_false, if_false, hunpack, hversion, hr₂, hjson,
    hcodec, hwhole]

/-! ## The format's contract -/

/-- What a decompressor gives is what a reader over it is supplied with. -/
theorem supplies_of_feed {raws chunks : List (List UInt8)} {s s' : σ}
    (hfeed : z.feed s raws = some (chunks, s'))
    (hclean : ∀ first chunks t, first <+: raws → z.feed s first = some (chunks, t) →
      z.unusedData t = []) :
    Supplies z raws s chunks.flatten (z.eof s') := by
  induction raws generalizing s chunks with
  | nil =>
      obtain ⟨rfl, rfl⟩ := Prod.mk.inj (Option.some.inj hfeed)
      exact .done s
  | cons raw rest ih =>
      cases hdec : z.decompress s raw with
      | none =>
          rw [Zstd.feed, hdec] at hfeed
          cases hfeed
      | some step =>
          obtain ⟨chunk, s₁⟩ := step
          rw [Zstd.feed, hdec] at hfeed
          obtain ⟨⟨chunks', t⟩, hrest, heq⟩ := Option.map_eq_some_iff.mp hfeed
          obtain ⟨rfl, rfl⟩ := Prod.mk.inj heq
          have hunused : z.unusedData s₁ = [] := by
            refine hclean [raw] [chunk] s₁ ⟨rest, rfl⟩ ?_
            rw [Zstd.feed, hdec]
            rfl
          refine .more hdec hunused (ih hrest fun first chunks t hfirst hfed => ?_)
          refine hclean (raw :: first) (chunk :: chunks) t ?_ ?_
          · exact (List.prefix_cons_inj raw).mpr hfirst
          · rw [Zstd.feed, hdec]
            simp only [hfed, Option.map_some]

/-- A first part of a list's pieces is its first pieces whole, and a first part
of the next. -/
theorem exists_cut {α β : Type} (f : α → List β) {l : List α} {d : List β}
    (h : d <+: l.flatMap f) :
    ∃ n ≤ l.length, ∃ tail, d = (l.take n).flatMap f ++ tail ∧
      (tail = [] ∧ n = l.length ∨
        ∃ a, l[n]? = some a ∧ tail <+: f a ∧ tail.length < (f a).length) := by
  induction l generalizing d with
  | nil => exact ⟨0, Nat.le_refl _, [], by simpa using h, .inl ⟨rfl, rfl⟩⟩
  | cons a l ih =>
      rw [List.flatMap_cons] at h
      by_cases hlen : (f a).length ≤ d.length
      · obtain ⟨t, rfl, ht⟩ := prefix_split h hlen
        obtain ⟨n, hn, tail, rfl, hcut⟩ := ih ht
        refine ⟨n + 1, Nat.succ_le_succ hn, tail, ?_, ?_⟩
        · rw [List.take_succ_cons, List.flatMap_cons, List.append_assoc]
        · simpa only [List.length_cons, Nat.add_right_cancel_iff, List.getElem?_cons_succ]
            using hcut
      · have hshort : d.length < (f a).length := Nat.lt_of_not_le hlen
        refine ⟨0, Nat.zero_le _, d, rfl, .inr ⟨a, rfl, ?_, hshort⟩⟩
        exact List.prefix_of_prefix_length_le h (List.prefix_append _ _) hshort.le

/-- The pieces before the cut are those that lie whole inside. -/
theorem le_cut_iff {α β : Type} {f : α → List β} {l : List α} {n : Nat} {tail : List β}
    (hcut : tail = [] ∧ n = l.length ∨
      ∃ a, l[n]? = some a ∧ tail <+: f a ∧ tail.length < (f a).length)
    {k : Nat} (hk : k ≤ l.length) :
    k ≤ n ↔ ((l.take k).flatMap f).length ≤ ((l.take n).flatMap f ++ tail).length := by
  have hmono : ∀ {i j : Nat}, i ≤ j →
      ((l.take i).flatMap f).length ≤ ((l.take j).flatMap f).length := by
    intro i j hij
    obtain ⟨t, ht⟩ := List.take_prefix_take_left (l := l) hij
    rw [← ht, List.flatMap_append, List.length_append]
    exact Nat.le_add_right _ _
  rw [List.length_append]
  constructor
  · intro hkn
    exact Nat.le_trans (hmono hkn) (Nat.le_add_right _ _)
  · intro hle
    by_contra hnk
    rcases hcut with ⟨-, rfl⟩ | ⟨a, ha, -, hless⟩
    · exact hnk hk
    · have hnext := hmono (Nat.lt_of_not_le hnk)
      rw [List.take_add_one, ha, Option.toList_some, List.flatMap_append, List.length_append,
        List.flatMap_singleton] at hnext
      omega

end SegmentReader

/-! ## Frames of raw blocks -/

/-- What complete raw blocks hold, up to the last one, and whether it is there. -/
def rawBlocks : Nat → List UInt8 → List UInt8 × Bool
  | 0, _ => ([], false)
  | fuel + 1, bytes =>
      let head := Bytes.ofLe (bytes.take 3)
      let block := (bytes.drop 3).take (head / 8)
      if bytes.length < 3 + head / 8 then ([], false)
      else if head % 2 = 1 then (block, true)
      else
        let (rest, last) := rawBlocks fuel (bytes.drop (3 + head / 8))
        (block ++ rest, last)

theorem rawBlocks_mono {p q : List UInt8} (h : p <+: q) {m n : Nat} (hmn : m ≤ n) :
    (rawBlocks m p).1 <+: (rawBlocks n q).1 ∧
      ((rawBlocks m p).2 = true → (rawBlocks n q).2 = true) := by
  induction m generalizing n p q with
  | zero => exact ⟨List.nil_prefix, fun hlast => absurd hlast Bool.false_ne_true⟩
  | succ m ih =>
      obtain ⟨n, rfl⟩ : ∃ k, n = k + 1 := ⟨n - 1, by omega⟩
      obtain ⟨t, rfl⟩ := h
      rw [rawBlocks]
      dsimp only
      by_cases hshort : p.length < 3 + Bytes.ofLe (p.take 3) / 8
      · rw [if_pos hshort]
        exact ⟨List.nil_prefix, fun hlast => absurd hlast Bool.false_ne_true⟩
      · -- A block that is complete stays as it is.
        have hthree : 3 ≤ p.length := by omega
        have hhead : (p ++ t).take 3 = p.take 3 := List.take_append_of_le_length hthree
        have hblock : ((p ++ t).drop 3).take (Bytes.ofLe (p.take 3) / 8) =
            (p.drop 3).take (Bytes.ofLe (p.take 3) / 8) := by
          rw [List.drop_append_of_le_length hthree, List.take_append_of_le_length]
          rw [List.length_drop]
          omega
        have hlong : ¬ (p ++ t).length < 3 + Bytes.ofLe (p.take 3) / 8 := by
          rw [List.length_append]
          omega
        rw [rawBlocks]
        dsimp only
        rw [hhead, hblock, if_neg hshort, if_neg hlong]
        split
        · exact ⟨List.prefix_rfl, id⟩
        · have hrest : p.drop (3 + Bytes.ofLe (p.take 3) / 8) <+:
              (p ++ t).drop (3 + Bytes.ofLe (p.take 3) / 8) := (List.prefix_append p t).drop _
          obtain ⟨hblocks, hlast⟩ := ih hrest (Nat.le_of_succ_le_succ hmn)
          exact ⟨(List.prefix_append_right_inj _).mpr hblocks, hlast⟩

/-- `zstd`, for a frame of raw blocks after a header of six bytes. It gives a
block when it is complete. -/
def rawFrame : Zstd (List UInt8) where
  start := []
  decompress seen raw :=
    some ((rawBlocks (seen ++ raw).length ((seen ++ raw).drop 6)).1.drop
      (rawBlocks seen.length (seen.drop 6)).1.length, seen ++ raw)
  eof seen := (rawBlocks seen.length (seen.drop 6)).2
  unusedData _ := []

theorem feed_rawFrame (seen : List UInt8) (raws : List (List UInt8)) :
    ∃ chunks, rawFrame.feed seen raws = some (chunks, seen ++ raws.flatten) ∧
      (rawBlocks seen.length (seen.drop 6)).1 ++ chunks.flatten =
        (rawBlocks (seen ++ raws.flatten).length ((seen ++ raws.flatten).drop 6)).1 := by
  induction raws generalizing seen with
  | nil => exact ⟨[], by simp [Zstd.feed], by simp⟩
  | cons raw rest ih =>
      obtain ⟨chunks, hfeed, hcontent⟩ := ih (seen ++ raw)
      have hgrow : (rawBlocks seen.length (seen.drop 6)).1 <+:
          (rawBlocks (seen ++ raw).length ((seen ++ raw).drop 6)).1 :=
        (rawBlocks_mono ((List.prefix_append seen raw).drop 6)
          (List.prefix_append seen raw).length_le).1
      obtain ⟨block, hblock⟩ := hgrow
      refine ⟨block :: chunks, ?_, ?_⟩
      · rw [Zstd.feed]
        simp only [rawFrame, ← hblock, List.drop_left] at hfeed ⊢
        rw [hfeed]
        simp only [Option.map_some, List.flatten_cons, List.append_assoc]
      · rw [List.flatten_cons, ← List.append_assoc, hblock, hcontent, List.flatten_cons,
          List.append_assoc]

/-- A file that ends with its last block, and not before, is a frame. -/
theorem frame_rawFrame {file content : List UInt8}
    (hwhole : rawBlocks file.length (file.drop 6) = (content, true))
    (hearly : (rawBlocks file.length (file.dropLast.drop 6)).2 = false) :
    rawFrame.Frame file content where
  feed raws _ hfirst := by
    obtain ⟨chunks, hfeed, hcontent⟩ := feed_rawFrame [] raws
    rw [List.nil_append] at hfeed hcontent
    have hgiven : chunks.flatten = (rawBlocks raws.flatten.length (raws.flatten.drop 6)).1 := by
      simpa [rawBlocks] using hcontent
    refine ⟨chunks, raws.flatten, hfeed, ?_, rfl, ⟨fun heof => ?_, fun hall => ?_⟩, fun hall => ?_⟩
    · have hmono := (rawBlocks_mono (hfirst.drop 6) hfirst.length_le).1
      rw [hwhole] at hmono
      rw [hgiven]
      exact hmono
    · by_contra hproper
      have hless : raws.flatten.length < file.length :=
        Nat.lt_of_le_of_ne hfirst.length_le fun heq => hproper (hfirst.eq_of_length heq)
      have hbefore : raws.flatten <+: file.dropLast := by
        refine List.prefix_of_prefix_length_le hfirst (List.dropLast_prefix file) ?_
        rw [List.length_dropLast]
        omega
      have hlast := (rawBlocks_mono (hbefore.drop 6) hfirst.length_le).2 heof
      exact absurd (hearly.symm.trans hlast) Bool.false_ne_true
    · show (rawBlocks raws.flatten.length (raws.flatten.drop 6)).2 = true
      rw [hall, hwhole]
    · rw [hgiven, hall, hwhole]

/-! ## The round trip -/

/-- A segment written, cut anywhere after its header and read in any pieces: the
header comes back, and so do exactly the records that lie inside what was
decompressed. -/
theorem segment_round_trip {σ : Type} (z : Zstd σ) (codec : HeaderCodec) (header : SegmentHeader)
    (records : List Record) (hcodec : codec.decode (codec.encode header) = some header)
    (hheader : (codec.encode header).length < 2 ^ 32) (hfits : ∀ rec ∈ records, rec.Fits) :
    ∃ w, writeSegment codec header records = .ok w ∧
      ∀ file, z.Frame file w.stream →
        ∀ raws : List (List UInt8), [] ∉ raws → raws.flatten <+: file →
          ∀ chunks s, z.feed z.start raws = some (chunks, s) →
            (headerBytes codec header).length ≤ chunks.flatten.length →
            ∃ r n, SegmentReader.new z codec raws = .ok (header, r) ∧ n ≤ records.length ∧
              (∀ k ≤ records.length, k ≤ n ↔
                (headerBytes codec header ++ (records.take k).flatMap Record.bytes).length ≤
                  chunks.flatten.length) ∧
              ∀ fuel, n < fuel →
                ∃ final, r.records z fuel = some (records.take n, none, final) ∧
                  final.damaged = false ∧ (final.truncated = true ↔ raws.flatten ≠ file) := by
  obtain ⟨w, hw, hstream⟩ := writeSegment_of_fits hheader hfits
  refine ⟨w, hw, fun file hframe raws hne hpre chunks s hfeed hinside => ?_⟩
  rw [hstream] at hframe
  obtain ⟨chunks', s', hfeed', hcontent, hunused, heof, hwhole⟩ := hframe.feed raws hne hpre
  obtain ⟨rfl, rfl⟩ := Prod.mk.inj (Option.some.inj (hfeed.symm.trans hfeed'))
  -- What the reader gives: the header, and a first part of the records' bytes.
  obtain ⟨body, hbody, hrest⟩ := SegmentReader.prefix_split hcontent hinside
  obtain ⟨n, hn, tail, rfl, hcut⟩ := SegmentReader.exists_cut Record.bytes hrest
  have hsupplies : SegmentReader.Supplies z raws z.start chunks.flatten (z.eof s) := by
    refine SegmentReader.supplies_of_feed hfeed fun first chunks₁ t hfirst hfed => ?_
    obtain ⟨chunks₂, t₂, hfed₂, -, hclean, -⟩ := hframe.feed first
      (fun hmem => hne (hfirst.subset hmem)) (hfirst.flatten.trans hpre)
    obtain ⟨-, rfl⟩ := Prod.mk.inj (Option.some.inj (hfed.symm.trans hfed₂))
    exact hclean
  have hreads : SegmentReader.Reads z ⟨raws, z.start, [], false, false, false⟩
      (headerBytes codec header ++ ((records.take n).flatMap Record.bytes ++ tail)) (z.eof s) :=
    ⟨rfl, chunks.flatten, hbody, .inl ⟨rfl, rfl, hsupplies⟩⟩
  obtain ⟨packed, hpacked⟩ := exists_pack_header hheader
  obtain ⟨r, hnew, hreads⟩ := hreads.readHeader hcodec hpacked
  refine ⟨r, n, hnew, hn, fun k hk => ?_, fun fuel hfuel => ?_⟩
  · rw [SegmentReader.le_cut_iff hcut hk, hbody]
    simp only [List.length_append, Nat.add_le_add_iff_left]
  · have htorn : SegmentReader.Torn tail := by
      rcases hcut with ⟨htail, -⟩ | ⟨rec, hrec, htail, hless⟩
      · exact .inl htail
      · exact .inr ⟨rec, hfits rec (List.mem_of_getElem? hrec), htail, hless⟩
    obtain ⟨final, hrecords, hdamaged, htrunc⟩ := hreads.records
      (fun rec hrec => hfits rec (List.mem_of_mem_take hrec)) htorn
      (Nat.lt_of_le_of_lt (List.length_take_le n records) hfuel)
    refine ⟨final, hrecords, hdamaged, ?_⟩
    rw [htrunc, Bool.or_eq_true, Bool.not_eq_true', ← Bool.not_eq_true, heof,
      decide_eq_true_eq]
    constructor
    · rintro (hproper | htail) hall
      · exact hproper hall
      · -- The whole file gives the whole content, and no record is cut there.
        have hfull := hwhole hall
        rw [hbody] at hfull
        have hlen := congrArg List.length (List.append_cancel_left hfull)
        rw [List.length_append] at hlen
        have hmost := (SegmentReader.le_cut_iff hcut (Nat.le_refl records.length)).mpr (by
          rw [List.take_length, ← List.append_cancel_left hfull])
        obtain rfl := Nat.le_antisymm hn hmost
        rw [List.take_length] at hlen
        exact htail (List.eq_nil_of_length_eq_zero (by omega))
    · exact .inl

/-- A header, and its JSON. -/
def bareHeader : SegmentHeader := ⟨0, "h", "e", 0, "w", false, [], "", []⟩

/-- A header of empty fields, as JSON. -/
def bareJson : List UInt8 :=
  ["\x7b\"created_wall_ns\":0", ",\"host\":\"h\"", ",\"env\":\"e\"", ",\"conn_id\":0",
    ",\"ws_url\":\"w\"", ",\"use_yes_price\":false", ",\"subscriptions\":[]",
    ",\"software_version\":\"\"", ",\"spec_versions\":\x7b\x7d\x7d"].flatMap
      fun field => field.toList.map fun c => UInt8.ofNat c.toNat

/-- A codec that knows this header only. -/
def bareCodec : HeaderCodec where
  encode _ := bareJson
  decode bytes := if bytes = bareJson then some bareHeader else none

theorem bareCodec_decode :
    bareCodec.decode (bareCodec.encode bareHeader) = some bareHeader := by
  simp only [bareCodec, if_true]

/-- A frame and a gap. -/
def twoRecords : List Record :=
  [⟨.frame, 1, 10, 20, [0x7b, 0x7d]⟩, ⟨.gap, 1, 11, 21, [0x5b]⟩]

/-- Two records in two raw blocks, the first block with a part of the second
record. -/
def tornFile : List UInt8 :=
  let content := headerBytes bareCodec bareHeader ++ twoRecords.flatMap Record.bytes
  [0x28, 0xb5, 0x2f, 0xfd, 0, 0] ++ Bytes.le 3 (8 * 204) ++ content.take 204 ++
    Bytes.le 3 (8 * 4 + 1) ++ content.drop 204

/-- Its reads, if it is cut inside the second block. -/
def tornReads : List (List UInt8) := [tornFile.take 50, (tornFile.drop 50).take 165]

theorem frame_tornFile : rawFrame.Frame tornFile
    (headerBytes bareCodec bareHeader ++ twoRecords.flatMap Record.bytes) :=
  frame_rawFrame (by decide +kernel) (by decide +kernel)

/-- What the reads hold: the header and the first record, and a part of the
second. -/
theorem tornReads_facts :
    [] ∉ tornReads ∧ tornReads.flatten <+: tornFile ∧ tornReads.flatten ≠ tornFile ∧
      (rawBlocks tornReads.flatten.length (tornReads.flatten.drop 6)).1.length = 204 ∧
      bareJson.length = 149 ∧ (headerBytes bareCodec bareHeader).length = 159 ∧
      ∀ k ≤ 2, ((twoRecords.take k).flatMap Record.bytes).length = [0, 25, 49].getD k 0 := by
  decide +kernel

/-- Cut inside its second block, the file gives its first record. -/
theorem segment_cut :
    ∃ r final, SegmentReader.new rawFrame bareCodec tornReads = .ok (bareHeader, r) ∧
      r.records rawFrame 3 = some (twoRecords.take 1, none, final) ∧
      final.damaged = false ∧ final.truncated = true := by
  obtain ⟨hne, hfirst, hproper, hgiven, hjson, hheader, hbytes⟩ := tornReads_facts
  have hshort : (bareCodec.encode bareHeader).length < 2 ^ 32 := by
    rw [bareCodec, hjson]
    decide
  have hfits : ∀ rec ∈ twoRecords, rec.Fits := by
    simp only [twoRecords, List.forall_mem_cons, Record.Fits]
    decide
  obtain ⟨w, hw, hread⟩ := segment_round_trip rawFrame bareCodec bareHeader twoRecords
    bareCodec_decode hshort hfits
  obtain ⟨w', hw', hstream⟩ := writeSegment_of_fits hshort hfits
  obtain rfl := Except.ok.inj (hw.symm.trans hw')
  have hframe : rawFrame.Frame tornFile w.stream := hstream ▸ frame_tornFile
  obtain ⟨chunks, hfeed, hchunks⟩ := feed_rawFrame [] tornReads
  have hlen : chunks.flatten.length = 204 := by
    rw [List.length_nil, rawBlocks, List.nil_append, List.nil_append] at hchunks
    rw [hchunks, hgiven]
  obtain ⟨r, n, hnew, hn, hinside, hrecords⟩ := hread tornFile hframe tornReads hne hfirst chunks _
    hfeed (by rw [hheader, hlen]; decide)
  simp only [List.length_append, hheader, hlen] at hinside
  have h1 := hinside 1 (by decide)
  have h2 := hinside 2 (by decide)
  rw [hbytes 1 (by decide)] at h1
  rw [hbytes 2 (by decide)] at h2
  have hone : n = 1 := by
    have : 1 ≤ n := h1.mpr (by decide)
    have : ¬ 2 ≤ n := fun h => absurd (h2.mp h) (by decide)
    omega
  subst hone
  obtain ⟨final, hall, hdamaged, htrunc⟩ := hrecords 3 (by decide)
  exact ⟨r, final, hnew, hall, hdamaged, htrunc.mpr hproper⟩

end Tape
