import Mathlib.Data.Nat.Bitwise
import Mathlib.Tactic

/-! # Bits of device registers

A driver looks at one bit of a register through the mask `1 <<< bit`. Some registers clear the bits
that are one in what is written to them.
-/

namespace Register

variable {w bit q : Nat}

/-! ## A masked bit -/

/-- A mask of one bit gives zero when the bit is clear. -/
theorem and_bit (w bit : Nat) : w &&& 1 <<< bit = 0 ↔ w.testBit bit = false := by
  rw [Nat.one_shiftLeft, Nat.and_two_pow]
  cases w.testBit bit with
  | true => simp
  | false => simp

/-- It gives the mask when the bit is set, which is 1 for bit 0 only. -/
theorem and_bit_ne_one (hbit : 0 < bit) : w &&& 1 <<< bit ≠ 1 := by
  have hbig : 2 ≤ 2 ^ bit := Nat.le_self_pow (by omega) 2
  rw [Nat.one_shiftLeft, Nat.and_two_pow]
  cases w.testBit bit with
  | true =>
    rw [Bool.toNat_true, Nat.one_mul]
    omega
  | false =>
    rw [Bool.toNat_false, Nat.zero_mul]
    exact Nat.zero_ne_one

/-! ## Write one to clear -/

/-- A register after a write of `v` that clears the bits that are one in `v`. -/
def writeOneToClear (reg v : Nat) : Nat := reg.ldiff v

@[simp] theorem testBit_writeOneToClear (reg v : Nat) :
    (writeOneToClear reg v).testBit q = (reg.testBit q && !v.testBit q) :=
  Nat.testBit_ldiff reg v q

/-- Writing back what has been read clears all of it. -/
theorem writeOneToClear_readBack (reg v : Nat) : writeOneToClear reg (reg ||| v) = 0 := by
  apply Nat.eq_of_testBit_eq
  intro q
  rw [testBit_writeOneToClear, Nat.testBit_or, Nat.zero_testBit]
  cases reg.testBit q with
  | true => rfl
  | false => rfl

end Register
