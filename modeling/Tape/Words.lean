import Mathlib

/-!
# Mixing fixed-width words

The steps multiplicative mixers are made of lose nothing. Exclusive-or with
one's own right shift is injective, because a word equal to its own shift is
zero, and so is multiplication by a factor that has an inverse.
-/

namespace Words

variable {w : Nat}

/-- A word that is its own right shift is zero. -/
theorem eq_zero_of_ushiftRight_eq {x : BitVec w} {n : Nat} (hn : 0 < n) (h : x >>> n = x) :
    x = 0 := by
  have hdiv : x.toNat / 2 ^ n = x.toNat := by
    rw [← Nat.shiftRight_eq_div_pow, ← BitVec.toNat_ushiftRight, h]
  have hzero : x.toNat = 0 := by
    by_contra hpos
    have hlt := Nat.div_lt_self (Nat.pos_of_ne_zero hpos) (Nat.one_lt_two_pow (Nat.ne_of_gt hn))
    omega
  exact BitVec.eq_of_toNat_eq hzero

theorem xor_ushiftRight_injective {n : Nat} (hn : 0 < n) :
    Function.Injective fun x : BitVec w => x ^^^ (x >>> n) := by
  intro x y h
  have hshift : (x ^^^ y) >>> n = x ^^^ y := by
    rw [BitVec.ushiftRight_xor_distrib]
    have hmoved : y ^^^ (x ^^^ (x >>> n)) = y ^^^ (y ^^^ (y >>> n)) := congrArg (y ^^^ ·) h
    rw [← BitVec.xor_assoc y y, BitVec.xor_self, BitVec.zero_xor, ← BitVec.xor_assoc] at hmoved
    rw [← hmoved, BitVec.xor_comm (x >>> n), BitVec.xor_assoc, BitVec.xor_self, BitVec.xor_zero,
      BitVec.xor_comm]
  have hzero := eq_zero_of_ushiftRight_eq hn hshift
  rw [← BitVec.xor_left_inj y, hzero, BitVec.xor_self]
  rfl

theorem mul_injective {c c' : BitVec w} (h : c * c' = 1#w) :
    Function.Injective fun x : BitVec w => x * c := by
  intro x y hxy
  have hboth : x * c * c' = y * c * c' := congrArg (· * c') hxy
  rw [BitVec.mul_assoc, BitVec.mul_assoc, h, BitVec.mul_one, BitVec.mul_one] at hboth
  exact hboth

end Words
