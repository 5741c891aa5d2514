import Mathlib.Data.Nat.Bitwise
import MicroEngine.Word
/-!
# Words as signed numbers

The two's complement reading of a word is the number from `-2 ^ 23` up to `2 ^ 23 - 1` that differs
from the word by a multiple of `2 ^ 24`. So it depends on the 24 significant bits only, and the sign
bit and the test for zero are comparisons of that number.

* `trim_congr`: words that agree modulo `2 ^ 24` have the same significant bits.
* **`signed_eq_bmod`**: the two's complement reading is a balanced remainder.
* `isNegative_eq_testBit`: the sign bit by its number.
* `isNegative_iff`, `trim_eq_zero_iff`: the sign bit and the test for zero as comparisons.
-/

namespace MicroEngine

namespace Word

theorem trim_congr {v w : Word} (h : v.toNat % 2 ^ 24 = w.toNat % 2 ^ 24) : v.trim = w.trim := by
  apply UInt32.toNat_inj.mp
  rw [toNat_trim, toNat_trim]
  exact h

/-- Low bits of a word, taken out of its 24 significant bits. -/
theorem toNat_trim_and (w : Word) {mask : Word} {n : Nat} (hn : n ≤ 24)
    (hmask : mask.toNat = 2 ^ n - 1) : (w.trim &&& mask).toNat = w.toNat % 2 ^ n := by
  rw [UInt32.toNat_and, hmask, Nat.and_two_pow_sub_one_eq_mod, toNat_trim]
  exact Nat.mod_mod_of_dvd _ (Nat.pow_dvd_pow 2 hn)

/-- The sign bit is bit 23. -/
theorem isNegative_eq_testBit (w : Word) : w.isNegative = w.toNat.testBit 23 := by
  have hand : (w &&& signBit).toNat = (w.toNat.testBit 23).toNat * 2 ^ 23 := by
    rw [UInt32.toNat_and]
    exact Nat.and_two_pow w.toNat 23
  rw [Bool.eq_iff_iff, isNegative, bne_iff_ne, Ne, ← UInt32.toNat_inj, hand]
  cases w.toNat.testBit 23 <;> simp

/-- The sign bit is set in the upper half of the words. -/
theorem isNegative_iff_upper (w : Word) : w.isNegative = true ↔ 2 ^ 23 ≤ w.toNat % 2 ^ 24 := by
  rw [isNegative_eq_testBit, Nat.testBit_eq_decide_div_mod_eq, decide_eq_true_iff]
  omega

/-- **The two's complement reading** of a word is its balanced remainder modulo `2 ^ 24`. -/
theorem signed_eq_bmod (w : Word) : w.signed = (w.toNat : Int).bmod (2 ^ 24) := by
  have htrim := toNat_trim w
  have hsign := isNegative_iff_upper w.trim
  rw [signed, Int.bmod_def]
  split
  · next h =>
    have := hsign.mp h
    rw [if_neg (by omega)]
    simp only [width]
    omega
  · next h =>
    have := mt hsign.mpr h
    rw [if_pos (by omega)]
    omega

/-- The sign bit is the sign of the two's complement reading. -/
theorem isNegative_iff (w : Word) : w.isNegative = true ↔ w.signed < 0 := by
  rw [isNegative_iff_upper, signed_eq_bmod, Int.bmod_def]
  split <;> omega

theorem isNegative_eq_false_iff (w : Word) : w.isNegative = false ↔ 0 ≤ w.signed := by
  rw [← Bool.not_eq_true, isNegative_iff, Int.not_lt]

theorem trim_eq_zero_iff (w : Word) : w.trim = 0 ↔ w.signed = 0 := by
  rw [← UInt32.toNat_inj, toNat_trim, UInt32.toNat_zero, signed_eq_bmod, Int.bmod_def]
  split <;> omega

@[simp] theorem signed_trim (w : Word) : w.trim.signed = w.signed := by
  rw [signed, signed, trim_trim]

end Word

end MicroEngine
