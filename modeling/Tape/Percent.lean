import Mathlib

/-!
# Percent-encoding

A character that may not stand in a path is written as the bytes of its UTF-8
form, each as a percent sign and two hexadecimal digits; a reader puts the bytes
together again. Whatever characters are kept as they are, the text is read back
as it was, as long as the percent sign itself is not among them
(`decode_encode`).
-/

namespace Percent

/-- The hexadecimal digit, in upper case. -/
def hexDigit (n : Nat) : Char := "0123456789ABCDEF".toList.getD n '0'

/-- What a hexadecimal digit of either case stands for. -/
def hexValue (c : Char) : Option Nat :=
  if '0' ≤ c ∧ c ≤ '9' then some (c.toNat - '0'.toNat)
  else if 'A' ≤ c ∧ c ≤ 'F' then some (c.toNat - 'A'.toNat + 10)
  else if 'a' ≤ c ∧ c ≤ 'f' then some (c.toNat - 'a'.toNat + 10)
  else none

/-- A byte as it is escaped. -/
def encodeByte (b : UInt8) : List Char :=
  ['%', hexDigit (b.toNat / 16), hexDigit (b.toNat % 16)]

variable (keep : Char → Bool)

/-- A character as it is, or with its bytes escaped. -/
def encodeChar (c : Char) : List Char :=
  if keep c then [c] else (String.utf8EncodeChar c).flatMap encodeByte

/-- The text with every character escaped that is not kept. -/
def encode (s : String) : String := String.ofList (s.toList.flatMap (encodeChar keep))

/-- The bytes a text stands for; a percent sign before anything but two digits
stands for itself. -/
def decodeBytes : List Char → List UInt8
  | [] => []
  | '%' :: a :: b :: rest =>
      match hexValue a, hexValue b with
      | some high, some low => UInt8.ofNat (16 * high + low) :: decodeBytes rest
      | _, _ => String.utf8EncodeChar '%' ++ decodeBytes (a :: b :: rest)
  | c :: rest => String.utf8EncodeChar c ++ decodeBytes rest

/-- The text whose bytes these are; `replaced` is what is made of bytes that are
not UTF-8. -/
def decode (replaced : List UInt8 → String) (s : String) : String :=
  let bytes := decodeBytes s.toList
  (String.fromUTF8? bytes.toByteArray).getD (replaced bytes)

/-! ## Reading back -/

theorem hexValue_hexDigit : ∀ n < 16, hexValue (hexDigit n) = some n := by decide

theorem decodeBytes_encodeByte (b : UInt8) (rest : List Char) :
    decodeBytes (encodeByte b ++ rest) = b :: decodeBytes rest := by
  have hb : b.toNat < 256 := b.toNat_lt
  have hhigh := hexValue_hexDigit (b.toNat / 16) (by omega)
  have hlow := hexValue_hexDigit (b.toNat % 16) (by omega)
  rw [encodeByte, List.cons_append, List.cons_append, List.cons_append, List.nil_append,
    decodeBytes, hhigh, hlow]
  dsimp only
  rw [Nat.div_add_mod, UInt8.ofNat_toNat]

theorem decodeBytes_encodeBytes (bytes : List UInt8) (rest : List Char) :
    decodeBytes (bytes.flatMap encodeByte ++ rest) = bytes ++ decodeBytes rest := by
  induction bytes with
  | nil => rfl
  | cons b bytes ih =>
      rw [List.flatMap_cons, List.append_assoc, decodeBytes_encodeByte, ih, List.cons_append]

theorem decodeBytes_cons {c : Char} (h : c ≠ '%') (rest : List Char) :
    decodeBytes (c :: rest) = String.utf8EncodeChar c ++ decodeBytes rest := by
  rw [decodeBytes.eq_def]
  split
  · next heq => cases heq
  · next heq => exact absurd (List.cons.inj heq).1 h
  · next heq =>
      obtain ⟨rfl, rfl⟩ := List.cons.inj heq
      rfl

variable {keep}

/-- What was written stands for the bytes of the text. -/
theorem decodeBytes_encode (h : keep '%' = false) (l : List Char) (rest : List Char) :
    decodeBytes (l.flatMap (encodeChar keep) ++ rest) =
      l.flatMap String.utf8EncodeChar ++ decodeBytes rest := by
  induction l with
  | nil => rfl
  | cons c l ih =>
      rw [List.flatMap_cons, List.flatMap_cons, List.append_assoc, List.append_assoc, ← ih,
        encodeChar]
      split
      · next hkeep =>
          refine decodeBytes_cons ?_ _
          rintro rfl
          rw [h] at hkeep
          cases hkeep
      · exact decodeBytes_encodeBytes _ _

theorem decodeBytes_plain {l : List Char} (h : '%' ∉ l) (rest : List Char) :
    decodeBytes (l ++ rest) = l.flatMap String.utf8EncodeChar ++ decodeBytes rest := by
  induction l with
  | nil => rfl
  | cons c l ih =>
      rw [List.mem_cons, not_or] at h
      rw [List.cons_append, decodeBytes_cons (Ne.symm h.1), ih h.2, List.flatMap_cons,
        List.append_assoc]

theorem fromUTF8?_utf8 (s : String) :
    String.fromUTF8? (s.toList.flatMap String.utf8EncodeChar).toByteArray = some s := by
  have hbytes : (s.toList.flatMap String.utf8EncodeChar).toByteArray = s.toByteArray := by
    conv_rhs => rw [← String.ofList_toList (s := s), String.toByteArray_ofList]
    rfl
  rw [hbytes, String.fromUTF8?, dif_pos s.isValidUTF8]
  rfl

/-- The text is read back, whatever stands before it unescaped. -/
theorem decode_append_encode (h : keep '%' = false) (replaced : List UInt8 → String) (pre : String)
    (hpre : '%' ∉ pre.toList) (s : String) :
    decode replaced (pre ++ encode keep s) = pre ++ s := by
  have hbytes : decodeBytes (pre ++ encode keep s).toList =
      (pre ++ s).toList.flatMap String.utf8EncodeChar := by
    have hrest := decodeBytes_encode h s.toList []
    rw [List.append_nil, decodeBytes, List.append_nil] at hrest
    rw [String.toList_append, decodeBytes_plain hpre, encode, String.toList_ofList, hrest,
      String.toList_append, List.flatMap_append]
  rw [decode, hbytes, fromUTF8?_utf8]
  rfl

theorem decode_encode (h : keep '%' = false) (replaced : List UInt8 → String) (s : String) :
    decode replaced (encode keep s) = s := by
  have hdecode := decode_append_encode h replaced "" List.not_mem_nil s
  rw [String.empty_append, String.empty_append] at hdecode
  exact hdecode

/-- What an encoded text is made of. -/
theorem mem_encode {c : Char} {s : String} (hc : c ∈ (encode keep s).toList) :
    keep c = true ∨ c = '%' ∨ ∃ n < 16, c = hexDigit n := by
  rw [encode, String.toList_ofList] at hc
  obtain ⟨d, -, hd⟩ := List.mem_flatMap.mp hc
  rw [encodeChar] at hd
  split at hd
  · next hkeep =>
      obtain rfl := List.mem_singleton.mp hd
      exact .inl hkeep
  · obtain ⟨b, -, hb⟩ := List.mem_flatMap.mp hd
    have hlt : b.toNat < 256 := b.toNat_lt
    simp only [encodeByte, List.mem_cons, List.not_mem_nil, or_false] at hb
    rcases hb with rfl | rfl | rfl
    · exact .inr (.inl rfl)
    · exact .inr (.inr ⟨_, by omega, rfl⟩)
    · exact .inr (.inr ⟨_, by omega, rfl⟩)

end Percent
