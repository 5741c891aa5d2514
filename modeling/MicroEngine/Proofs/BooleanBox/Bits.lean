import MicroEngine.BooleanBox
import MicroEngine.Proofs.Microword.Layout
import MicroEngine.Proofs.SignedWord
/-!
# Boolean boxes bit by bit

A box works on each bit apart, by the truth table of its formula. So what is asked of a box for all
words comes down to the four lines of that table.

* `BoxFormula.holds`: a formula on single bits. **`testBit_apply`**: the bits of what a box gives.
* `apply_lt`, `apply_congr`: a box gives 24 bits and looks at 24 bits.
* `complement_iff`: functions that are complements of each other, by their truth tables.
* `getElem?_all`: the function of a code. `holds_complement_iff`: the codes of complements.
-/

namespace MicroEngine

/-! ## Truth tables -/

def BoxOperand.holds (x y : Bool) : BoxOperand → Bool
  | .a => x
  | .b => y
  | .notA => !x
  | .notB => !y

/-- The formula on one bit of each operand. -/
def BoxFormula.holds (x y : Bool) : BoxFormula → Bool
  | .operand p => p.holds x y
  | .and p q => p.holds x y && q.holds x y
  | .or p q => p.holds x y || q.holds x y
  | .eqv p q => p.holds x y == q.holds x y
  | .ones => true
  | .zero => false

namespace Word

theorem testBit_trim (w : Word) (i : Nat) :
    w.trim.toNat.testBit i = (decide (i < 24) && w.toNat.testBit i) := by
  rw [toNat_trim]
  exact Nat.testBit_mod_two_pow w.toNat 24 i

theorem testBit_ones (i : Nat) : ones.toNat.testBit i = decide (i < 24) :=
  Nat.testBit_two_pow_sub_one 24 i

theorem testBit_trim_complement (w : Word) {i : Nat} (hi : i < 24) :
    (~~~w).trim.toNat.testBit i = !w.toNat.testBit i := by
  rw [testBit_trim, testBit_complement (by omega), decide_eq_true hi, Bool.true_and]

end Word

namespace BoxFunction

/-- **A box works on each bit apart**, by the truth table of its formula. -/
theorem testBit_apply (f : BoxFunction) (a b : Word) (i : Nat) :
    (f.apply a b).toNat.testBit i =
      (decide (i < 24) && f.formula.holds (a.toNat.testBit i) (b.toNat.testBit i)) := by
  by_cases hi : i < 24
  · have hnot (w : Word) : (~~~w).trim.toNat.testBit i = !w.toNat.testBit i :=
      w.testBit_trim_complement hi
    have htrim (w : Word) : w.trim.toNat.testBit i = w.toNat.testBit i := by
      rw [Word.testBit_trim, decide_eq_true hi, Bool.true_and]
    rw [decide_eq_true hi, Bool.true_and]
    cases f with
    | zero => exact Nat.zero_testBit i
    | ones => exact (Word.testBit_ones i).trans (decide_eq_true hi)
    | eqv =>
      simp only [apply, formula, BoxFormula.holds, BoxOperand.holds, hnot, htrim, UInt32.toNat_xor,
        Nat.testBit_xor]
      cases a.toNat.testBit i <;> cases b.toNat.testBit i <;> rfl
    | _ =>
      simp only [apply, formula, BoxFormula.holds, BoxOperand.holds, hnot, htrim, UInt32.toNat_and,
        UInt32.toNat_or, Nat.testBit_and, Nat.testBit_or]
  · cases f <;> simp [apply, Word.testBit_trim, Word.testBit_ones, hi]

/-- **A boolean box gives 24 bits**, whatever its operands are. -/
theorem apply_lt (f : BoxFunction) (a b : Word) : (f.apply a b).toNat < 0o100000000 := by
  refine Nat.lt_pow_two_of_testBit (n := 24) _ fun i hi => ?_
  rw [testBit_apply, decide_eq_false (Nat.not_lt.mpr hi), Bool.false_and]

/-- Of the operands only the significant bits count. -/
theorem apply_congr (f : BoxFunction) {a b a' b' : Word}
    (ha : a'.toNat % 2 ^ 24 = a.toNat % 2 ^ 24) (hb : b'.toNat % 2 ^ 24 = b.toNat % 2 ^ 24) :
    f.apply a' b' = f.apply a b := by
  simp only [apply, Word.trim_congr ha, Word.trim_congr hb]

/-- **Functions are complements of each other** exactly if their truth tables are. -/
theorem complement_iff {f g : BoxFunction} :
    (∀ a b, g.apply a b = (~~~f.apply a b).trim) ↔
      ∀ x y, g.formula.holds x y = !f.formula.holds x y := by
  constructor
  · intro h x y
    have hbit (x : Bool) : (if x then Word.ones else 0).toNat.testBit 0 = x := by cases x <;> rfl
    have hlow : 0 < 24 := by decide
    have hwords := congrArg UInt32.toNat
      (h (if x then Word.ones else 0) (if y then Word.ones else 0))
    have hfirst := congrArg (Nat.testBit · 0) hwords
    rwa [Word.testBit_trim_complement _ hlow, testBit_apply, testBit_apply, hbit, hbit,
      decide_eq_true hlow, Bool.true_and, Bool.true_and] at hfirst
  · intro h a b
    refine UInt32.toNat_inj.mp (Nat.eq_of_testBit_eq fun i => ?_)
    by_cases hi : i < 24
    · rw [Word.testBit_trim_complement _ hi, testBit_apply, testBit_apply, h, decide_eq_true hi,
        Bool.true_and, Bool.true_and]
    · rw [Word.testBit_trim, testBit_apply, decide_eq_false hi, Bool.false_and, Bool.false_and]

/-! ## Codes -/

/-- The functions have their codes as places. -/
theorem getElem?_all (code : UInt8) : all[(code &&& 0o17).toNat]? = some (ofCode code) := by
  have hlt : (code &&& 0o17).toNat < 16 := by
    rw [UInt8.toNat_and]
    exact Nat.lt_of_le_of_lt Nat.and_le_right (by decide)
  unfold ofCode
  generalize (code &&& 0o17).toNat = n at hlt ⊢
  revert n
  decide

/-- Which codes have opposite truth tables. -/
theorem holds_complement_iff (code : UInt8) :
    (∀ x y, (ofCode (0o17 - code)).formula.holds x y = !(ofCode code).formula.holds x y) ↔
      code.toNat % 16 ∉ [0o01, 0o04, 0o13, 0o16] := by
  obtain ⟨⟨n⟩⟩ := code
  revert n
  decide +kernel

end BoxFunction

end MicroEngine
