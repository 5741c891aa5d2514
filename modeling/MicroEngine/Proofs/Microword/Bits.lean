import Mathlib.Data.Nat.Bitwise
import MicroEngine.Microword.Builder
import MicroEngine.Proofs.Width
/-!
# Single bits of a microword

A listing bit is a binary digit of one of the three components, counted from the other end.

* `bit_eq_testBit`, `testBit_component`: the listing bits are the binary digits of the components.
* **`ext_bit`**: a microword of 30 bits in each component is known by its listing bits.
* **`bit_setBit`**: which bits are set after one has been set, `has_setFlag` for a flag.
* `bit_ofBits`: which bits are set in a microword made from bit numbers.
* `Microword.merge`: the bits of two microwords.
-/

namespace MicroEngine

theorem Component.index_lt (c : Component) : c.index < 3 := by cases c <;> decide

theorem Component.index_injective {c d : Component} (h : c.index = d.index) : c = d := by
  cases c <;> cases d <;> first | rfl | exact absurd h (by decide)

namespace Microword

/-! ## Bits as binary digits -/

theorem toNat_bitMask (n : Nat) : (bitMask n).toNat = 2 ^ (29 - n % 30) := by
  have hmasks : ∀ k < 30, ((1 : UInt32) <<< (29 - k).toUInt32).toNat = 2 ^ (29 - k) := by decide
  exact hmasks (n % 30) (Nat.mod_lt n (by decide))

theorem bne_zero_eq (v : UInt32) : (v != 0) = (v.toNat != 0) := by
  rw [Bool.eq_iff_iff, bne_iff_ne, bne_iff_ne, Ne, Ne, ← UInt32.toNat_inj]
  rfl

/-- A listing bit is a binary digit of its component. -/
theorem bit_eq_testBit (w : Microword) {n : Nat} (hn : n < 90) :
    w.bit n = (w.component (bitComponent n)).toNat.testBit (29 - n % 30) := by
  rw [bit, decide_eq_true hn, Bool.true_and, bne_zero_eq, UInt32.toNat_and, toNat_bitMask,
    Nat.and_two_pow]
  cases (w.component (bitComponent n)).toNat.testBit (29 - n % 30) <;> simp

theorem index_bitComponent {n : Nat} (hn : n < 90) : (bitComponent n).index = n / 30 := by
  unfold bitComponent
  split
  · rw [Component.index]; omega
  · split <;> rw [Component.index] <;> omega

theorem bit_of_le (w : Microword) {n : Nat} (hn : 90 ≤ n) : w.bit n = false := by
  rw [bit, decide_eq_false (Nat.not_lt.mpr hn), Bool.false_and]

/-- The binary digits of a component are its listing bits, counted from the other end. -/
theorem testBit_component (w : Microword) (c : Component) {k : Nat} (hk : k < 30) :
    (w.component c).toNat.testBit k = w.bit (30 * c.index + (29 - k)) := by
  have hlt := c.index_lt
  have hc : bitComponent (30 * c.index + (29 - k)) = c := by
    apply Component.index_injective
    rw [index_bitComponent (by omega)]
    omega
  rw [bit_eq_testBit w (by omega), hc]
  congr 1
  omega

/-- **A microword of 30 bits in each component is known by its listing bits.** -/
theorem ext_bit {v w : Microword} (hv : v.Fits) (hw : w.Fits) (h : ∀ n < 90, v.bit n = w.bit n) :
    v = w := by
  refine ext_component fun c => UInt32.toNat_inj.mp (Nat.eq_of_testBit_eq fun k => ?_)
  by_cases hk : k < 30
  · have hlt := c.index_lt
    rw [testBit_component v c hk, testBit_component w c hk, h _ (by omega)]
  · -- Neither component reaches this far.
    have hhigh {u : Microword} (hu : u.Fits) : (u.component c).toNat.testBit k = false :=
      Nat.testBit_lt_two_pow (Nat.lt_of_lt_of_le (hu c)
        (Nat.pow_le_pow_right (n := 2) (by decide) (Nat.not_lt.mp hk)))
    rw [hhigh hv, hhigh hw]

/-- To cut a microword to its width changes no listing bit. -/
theorem bit_trim (w : Microword) (n : Nat) : w.trim.bit n = w.bit n := by
  by_cases hn : n < 90
  · have hcut : (w.trim.component (bitComponent n)).toNat =
        (w.component (bitComponent n)).toNat % 2 ^ 30 := by
      cases bitComponent n <;> exact toNat_mask _
    rw [bit_eq_testBit _ hn, bit_eq_testBit _ hn, hcut, Nat.testBit_mod_two_pow,
      decide_eq_true (by omega), Bool.true_and]
  · rw [bit_of_le _ (by omega), bit_of_le _ (by omega)]

/-! ## Setting bits -/

theorem bitMask_lt (n : Nat) : (bitMask n).toNat < 0o10000000000 := by
  rw [toNat_bitMask]
  exact Nat.pow_lt_pow_right (a := 2) (n := 30) (by decide) (by omega)

theorem Fits.setBit {w : Microword} (h : w.Fits) (n : Nat) : (w.setBit n).Fits := by
  unfold Microword.setBit
  split
  · exact fits_setComponent h _ (Component.or_lt (h _) (bitMask_lt n))
  · exact h

/-- A bit is known by its component and its place in it. -/
theorem eq_of_bitComponent {n m : Nat} (hn : n < 90) (hm : m < 90)
    (hc : bitComponent n = bitComponent m) (hk : n % 30 = m % 30) : n = m := by
  have hindex : n / 30 = m / 30 := by rw [← index_bitComponent hn, ← index_bitComponent hm, hc]
  omega

/-- **Setting a bit sets that bit and no other.** -/
theorem bit_setBit (w : Microword) {n : Nat} (hn : n < 90) (m : Nat) :
    (w.setBit n).bit m = (w.bit m || n == m) := by
  by_cases hm : m < 90
  · rw [bit_eq_testBit _ hm, bit_eq_testBit _ hm, setBit, if_pos hn, component_setComponent]
    by_cases hc : bitComponent n = bitComponent m
    · have hplace : decide (29 - n % 30 = 29 - m % 30) = (n == m) := by
        rw [Bool.eq_iff_iff, decide_eq_true_iff, beq_iff_eq]
        exact ⟨fun h => eq_of_bitComponent hn hm hc (by omega), fun h => by rw [h]⟩
      rw [if_pos hc, hc, UInt32.toNat_or, toNat_bitMask, Nat.testBit_or, Nat.testBit_two_pow, hplace]
    · have hother : n ≠ m := fun h => hc (congrArg bitComponent h)
      rw [if_neg hc, beq_false_of_ne hother, Bool.or_false]
  · have hother : n ≠ m := by omega
    rw [bit_of_le _ (by omega), bit_of_le _ (by omega), beq_false_of_ne hother]
    rfl

theorem setBit_of_le (w : Microword) {n : Nat} (hn : 90 ≤ n) : w.setBit n = w := by
  rw [setBit, if_neg (by omega)]

theorem has_setFlag (w : Microword) (f g : Flag) :
    (w.setFlag f).has g = (w.has g || f == g) := by
  unfold has setFlag
  rw [bit_setBit w f.bit_lt]
  congr 1
  rw [Bool.eq_iff_iff, beq_iff_eq, beq_iff_eq]
  exact ⟨Flag.bit_injective, congrArg Flag.bit⟩

/-! ## Microwords from bit numbers -/

theorem bit_nop (n : Nat) : nop.bit n = false := by
  unfold bit
  have hzero : nop.component (bitComponent n) = 0 := by cases bitComponent n <;> rfl
  rw [hzero, UInt32.zero_and]
  simp

/-- The bits that are set after some more have been set. -/
theorem bit_foldl_setBit (l : List Nat) (w : Microword) (n : Nat) :
    (l.foldl setBit w).bit n = (w.bit n || decide (n < 90 ∧ n ∈ l)) := by
  induction l generalizing w with
  | nil => simp
  | cons m l ih =>
    rw [List.foldl_cons, ih]
    by_cases hm : m < 90
    · rw [bit_setBit w hm, Bool.or_assoc]
      congr 1
      rw [Bool.eq_iff_iff]
      simp only [Bool.or_eq_true, beq_iff_eq, decide_eq_true_eq, List.mem_cons]
      constructor
      · rintro (rfl | ⟨hn, hl⟩)
        · exact ⟨hm, .inl rfl⟩
        · exact ⟨hn, .inr hl⟩
      · rintro ⟨hn, rfl | hl⟩
        · exact .inl rfl
        · exact .inr ⟨hn, hl⟩
    · have hmem : (n < 90 ∧ n ∈ m :: l) ↔ (n < 90 ∧ n ∈ l) := by
        rw [List.mem_cons]
        exact and_congr_right fun hn => or_iff_right (by omega)
      rw [setBit_of_le w (by omega), decide_eq_decide.mpr hmem]

/-- **Just the listed bits are set**, as far as there are bits of those numbers. -/
theorem bit_ofBits (l : List Nat) (n : Nat) : (ofBits l).bit n = true ↔ n < 90 ∧ n ∈ l := by
  rw [ofBits, bit_foldl_setBit, bit_nop, Bool.false_or, decide_eq_true_iff]

theorem fits_ofBits (bits : List Nat) : (ofBits bits).Fits := by
  have hfold (w : Microword) (hw : w.Fits) : (bits.foldl setBit w).Fits := by
    induction bits generalizing w with
    | nil => exact hw
    | cons n bits ih => exact ih _ (hw.setBit n)
  exact hfold nop fits_nop

/-! ## Merging -/

/-- The microword in which the bits of both are set. -/
def merge (v w : Microword) : Microword :=
  ⟨v.high ||| w.high, v.middle ||| w.middle, v.low ||| w.low⟩

theorem component_merge (v w : Microword) (c : Component) :
    (v.merge w).component c = v.component c ||| w.component c := by
  cases c <;> rfl

theorem bit_merge (v w : Microword) (n : Nat) : (v.merge w).bit n = (v.bit n || w.bit n) := by
  by_cases hn : n < 90
  · rw [bit_eq_testBit _ hn, bit_eq_testBit _ hn, bit_eq_testBit _ hn, component_merge,
      UInt32.toNat_or, Nat.testBit_or]
  · rw [bit_of_le _ (by omega), bit_of_le _ (by omega), bit_of_le _ (by omega)]
    rfl

theorem Fits.merge {v w : Microword} (hv : v.Fits) (hw : w.Fits) : (v.merge w).Fits := by
  intro c
  rw [component_merge]
  exact Component.or_lt (hv c) (hw c)

end Microword

end MicroEngine
