import Mathlib

/-!
# Little-endian fields

A natural number as a fixed number of bytes, the least significant first, and
the number some bytes stand for. Writing loses what does not fit, so reading
after writing is the number modulo the range of the width.

`pack` writes a row of integers at given widths, and refuses one that does not
fit; `unpack` reads such a row off the front of some bytes, whatever follows.
-/

namespace Bytes

/-- The lowest `w` bytes of a number. -/
def le : Nat → Nat → List UInt8
  | 0, _ => []
  | w + 1, v => UInt8.ofNat v :: le w (v / 256)

/-- The number some bytes stand for. -/
def ofLe : List UInt8 → Nat
  | [] => 0
  | b :: rest => b.toNat + 256 * ofLe rest

@[simp] theorem length_le (w v : Nat) : (le w v).length = w := by
  induction w generalizing v with
  | zero => rfl
  | succ w ih => rw [le, List.length_cons, ih]

theorem ofLe_le_mod (w v : Nat) : ofLe (le w v) = v % 256 ^ w := by
  induction w generalizing v with
  | zero => rw [le, ofLe, Nat.pow_zero, Nat.mod_one]
  | succ w ih =>
      have hbyte : (UInt8.ofNat v).toNat = v % 256 := by simp
      rw [le, ofLe, ih, hbyte, Nat.pow_succ, Nat.mul_comm (256 ^ w), Nat.mod_mul]

/-- Reading after writing, for a number that fits. -/
theorem ofLe_le {w v : Nat} (h : v < 256 ^ w) : ofLe (le w v) = v := by
  rw [ofLe_le_mod, Nat.mod_eq_of_lt h]

/-- Integers at the given widths, one after the other. -/
def pack : List Nat → List Int → Option (List UInt8)
  | [], [] => some []
  | w :: ws, v :: vs =>
      if 0 ≤ v ∧ v.toNat < 256 ^ w then (pack ws vs).map fun rest => le w v.toNat ++ rest else none
  | _, _ => none

/-- The numbers at the given widths, off the front. -/
def unpack : List Nat → List UInt8 → List Nat
  | [], _ => []
  | w :: ws, bytes => ofLe (bytes.take w) :: unpack ws (bytes.drop w)

variable {ws : List Nat} {vs : List Int} {bytes : List UInt8}

theorem pack_cons {w : Nat} {v : Int} :
    pack (w :: ws) (v :: vs) = some bytes ↔
      (0 ≤ v ∧ v.toNat < 256 ^ w) ∧ ∃ rest, pack ws vs = some rest ∧
        bytes = le w v.toNat ++ rest := by
  rw [pack]
  split
  · next h =>
      rw [Option.map_eq_some_iff]
      constructor
      · rintro ⟨rest, hrest, rfl⟩
        exact ⟨h, rest, hrest, rfl⟩
      · rintro ⟨-, rest, hrest, rfl⟩
        exact ⟨rest, hrest, rfl⟩
  · next h => exact iff_of_false nofun fun hc => h hc.1

theorem exists_pack_nil : ∃ bytes, pack [] [] = some bytes := ⟨[], rfl⟩

/-- A row can be packed exactly if each of its integers fits. -/
theorem exists_pack_cons {w : Nat} {v : Int} :
    (∃ bytes, pack (w :: ws) (v :: vs) = some bytes) ↔
      (0 ≤ v ∧ v.toNat < 256 ^ w) ∧ ∃ bytes, pack ws vs = some bytes := by
  constructor
  · rintro ⟨bytes, h⟩
    obtain ⟨hfit, rest, hrest, -⟩ := pack_cons.mp h
    exact ⟨hfit, rest, hrest⟩
  · rintro ⟨hfit, rest, hrest⟩
    exact ⟨_, pack_cons.mpr ⟨hfit, rest, hrest, rfl⟩⟩

theorem length_pack (h : pack ws vs = some bytes) : bytes.length = ws.sum := by
  induction ws generalizing vs bytes with
  | nil =>
      cases vs with
      | nil =>
          obtain rfl := Option.some.inj h
          rfl
      | cons v vs => cases h
  | cons w ws ih =>
      cases vs with
      | nil => cases h
      | cons v vs =>
          obtain ⟨-, rest, hrest, rfl⟩ := pack_cons.mp h
          rw [List.length_append, length_le, ih hrest, List.sum_cons]

/-- What was packed is unpacked, whatever follows. -/
theorem unpack_pack (h : pack ws vs = some bytes) (rest : List UInt8) :
    (unpack ws (bytes ++ rest)).map Int.ofNat = vs := by
  induction ws generalizing vs bytes with
  | nil =>
      cases vs with
      | nil => rfl
      | cons v vs => cases h
  | cons w ws ih =>
      cases vs with
      | nil => cases h
      | cons v vs =>
          obtain ⟨⟨hpos, hlt⟩, tail, htail, rfl⟩ := pack_cons.mp h
          rw [unpack, List.append_assoc, List.take_left' (length_le w _),
            List.drop_left' (length_le w _), List.map_cons, ih htail, ofLe_le hlt]
          exact congrArg (· :: vs) (Int.toNat_of_nonneg hpos)

end Bytes
