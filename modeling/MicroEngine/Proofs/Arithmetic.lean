import Mathlib.Data.Int.ModEq
import MicroEngine.Proofs.Engine.Guarded
import MicroEngine.Proofs.SignedWord
/-!
# Arithmetic of the data path

A word is carried in 32 bits and counts modulo `2 ^ 24`: the adder and the shift upward are sum and
product there, and the two's complement reading picks one number of each class.

* `Word.signed_eq_iff`: the number that a word is read as.
* `Word.signed_sum_eq_iff`: the adder adds what is read. `Word.toNat_shiftUp`: a shift multiplies.
* `MergeAmount`, `SpecialFunction.merges`: how far the special functions move the left box up, as
  their listing texts say it. `SpecialFunction.exists_merge`: their texts are true.
* `SpecialFunction.toNat_merge`: what is merged into X.
* **`Word.arithmetic_is_modular`**: adder, shift, signed reading and merges as arithmetic.
-/

namespace MicroEngine

namespace Word

/-! ## Sums and signed readings -/

/-- **The two's complement reading** is the one number from `-2 ^ 23` up to `2 ^ 23 - 1` that agrees
with the word modulo `2 ^ 24`. -/
theorem signed_eq_iff {w : Word} {k : Int} :
    w.signed = k ↔ -2 ^ 23 ≤ k ∧ k < 2 ^ 23 ∧ k ≡ w.toNat [ZMOD 2 ^ 24] := by
  rw [signed_eq_bmod, Int.bmod_eq_iff (by decide), Int.modEq_comm, Int.modEq_iff_dvd]
  rfl

theorem signed_modEq (w : Word) : w.signed ≡ w.toNat [ZMOD 2 ^ 24] := (signed_eq_iff.mp rfl).2.2

theorem sum_modEq (a b : Word) (carry : Bool) :
    (sum a b carry).toNat ≡ a.signed + b.signed + carry.toNat [ZMOD 2 ^ 24] := by
  have hsum : ((sum a b carry).toNat : Int) = (a.toNat + b.toNat + carry.toNat) % 2 ^ 24 := by
    rw [toNat_sum]
    push_cast
    rfl
  rw [hsum]
  exact (Int.mod_modEq _ _).trans ((a.signed_modEq.add b.signed_modEq).add_right _).symm

/-- **The adder adds what is read**: its sum is read as the one number in range that agrees with the
sum of the readings. -/
theorem signed_sum_eq_iff {a b : Word} {carry : Bool} {k : Int} :
    (sum a b carry).signed = k ↔
      -2 ^ 23 ≤ k ∧ k < 2 ^ 23 ∧ k ≡ a.signed + b.signed + carry.toNat [ZMOD 2 ^ 24] := by
  have hclass := sum_modEq a b carry
  rw [signed_eq_iff]
  exact and_congr_right fun _ => and_congr_right fun _ =>
    ⟨fun h => h.trans hclass, fun h => h.trans hclass.symm⟩

/-! ## Shifts -/

/-- **A shift upward multiplies** modulo `2 ^ 24`, whatever the amount. -/
theorem toNat_shiftUp (w : Word) (n : UInt32) :
    (w.shiftUp n).toNat = w.toNat * 2 ^ n.toNat % 2 ^ 24 := by
  unfold shiftUp
  split
  · next hn =>
    have hn : 24 ≤ n.toNat := hn
    have hdvd : 2 ^ 24 ∣ w.toNat * 2 ^ n.toNat := Dvd.dvd.mul_left (Nat.pow_dvd_pow 2 hn) w.toNat
    rw [Nat.mod_eq_zero_of_dvd hdvd, UInt32.toNat_zero]
  · next hn =>
    have hn : ¬ 24 ≤ n.toNat := hn
    rw [toNat_trim, UInt32.toNat_shiftLeft, Nat.mod_eq_of_lt (a := n.toNat) (by omega),
      Nat.shiftLeft_eq]
    exact Nat.mod_mod_of_dvd _ (by decide)

end Word

/-! ## Merges -/

/-- How far the left box is moved up, as a listing text says it. -/
inductive MergeAmount
  | fixed (n : Nat)
  /-- The number that a run of bits of Z forms. -/
  | bitsOfZ (high low : Nat)
  deriving DecidableEq, Repr

namespace MergeAmount

def text : MergeAmount → String
  | fixed n => Text.decimal n
  | bitsOfZ high low => "Z[" ++ Text.decimal high ++ ":" ++ Text.decimal low ++ "]"

def value (z : Word) : MergeAmount → Nat
  | fixed n => n
  | bitsOfZ high low => z.toNat / 2 ^ low % 2 ^ (high + 1 - low)

end MergeAmount

namespace SpecialFunction

/-- The codes of the special functions that merge the left box into X, with the amounts. -/
def merges : List (UInt8 × MergeAmount) :=
  [(0o01, .fixed 1), (0o02, .fixed 2), (0o03, .fixed 3), (0o04, .fixed 4), (0o05, .fixed 8),
    (0o06, .fixed 12), (0o07, .fixed 16), (0o10, .fixed 20), (0o11, .bitsOfZ 1 0),
    (0o12, .bitsOfZ 4 2)]

theorem exists_mem_merges {code : UInt8} (hfirst : 0o01 ≤ code) (hlast : code ≤ 0o12) :
    ∃ amount, (code, amount) ∈ merges := by
  have hcodes : ∀ n ≤ 0o12, 0o01 ≤ n → UInt8.ofNat n ∈ merges.map Prod.fst := by decide
  have hcode := hcodes code.toNat hlast hfirst
  rw [UInt8.ofNat_toNat] at hcode
  obtain ⟨entry, hentry, rfl⟩ := List.mem_map.mp hcode
  exact ⟨entry.2, hentry⟩

theorem amount?_mergeByZ2 (z : Word) :
    (mergeByZ2.amount? z).map UInt32.toNat = some ((MergeAmount.bitsOfZ 1 0).value z) := by
  have hlow : (z &&& 0o3).toNat = z.toNat % 2 ^ 2 := Nat.and_two_pow_sub_one_eq_mod z.toNat 2
  have hvalue : (MergeAmount.bitsOfZ 1 0).value z = z.toNat % 2 ^ 2 := by
    simp [MergeAmount.value]
  exact congrArg some (hlow.trans hvalue.symm)

theorem amount?_mergeByZ3 (z : Word) :
    (mergeByZ3.amount? z).map UInt32.toNat = some ((MergeAmount.bitsOfZ 4 2).value z) := by
  have hlow : (z >>> 2 &&& 0o7).toNat = (z >>> 2).toNat % 2 ^ 3 :=
    Nat.and_two_pow_sub_one_eq_mod (z >>> 2).toNat 3
  have hshift : (z >>> 2).toNat = z.toNat / 2 ^ 2 :=
    (UInt32.toNat_shiftRight z 2).trans (Nat.shiftRight_eq_div_pow _ _)
  have hvalue : (MergeAmount.bitsOfZ 4 2).value z = z.toNat / 2 ^ 2 % 2 ^ 3 := by
    simp [MergeAmount.value]
  rw [hshift] at hlow
  exact congrArg some (hlow.trans hvalue.symm)

theorem describe?_of_mem_merges :
    ∀ entry ∈ merges, describe? entry.1 = some ("X |= BL << " ++ entry.2.text) := by
  decide

/-- **The texts of the merges are true**: the code of each one is decoded to a function that has no
effect beyond X and moves the left box up by the amount in the text. -/
theorem exists_merge :
    ∀ entry ∈ merges, ∃ f, decode entry.1 = .ok f ∧ f.effect = .nothing ∧
      ∀ z, (f.amount? z).map UInt32.toNat = some (entry.2.value z) := by
  simp only [merges, List.forall_mem_cons]
  refine ⟨?_, ?_, ?_, ?_, ?_, ?_, ?_, ?_, ⟨_, rfl, rfl, amount?_mergeByZ2⟩,
    ⟨_, rfl, rfl, amount?_mergeByZ3⟩, List.forall_mem_nil _⟩
  all_goals exact ⟨_, rfl, rfl, fun z => rfl⟩

/-- **What is merged into X** is the left box times a power of two, modulo `2 ^ 24`. -/
theorem toNat_merge {f : SpecialFunction} {z : Word} {n : Nat}
    (h : (f.amount? z).map UInt32.toNat = some n) (box x : Word) :
    (f.merge box x z).toNat = x.toNat ||| box.toNat * 2 ^ n % 2 ^ 24 := by
  obtain ⟨amount, hamount, rfl⟩ := Option.map_eq_some_iff.mp h
  simp only [merge, hamount, UInt32.toNat_or, Word.toNat_shiftUp]

/-- No bit of X is taken away. -/
theorem testBit_merge (f : SpecialFunction) (box z : Word) {x : Word} {i : Nat}
    (h : x.toNat.testBit i = true) : (f.merge box x z).toNat.testBit i = true := by
  unfold merge
  split
  · rw [UInt32.toNat_or, Nat.testBit_or, h, Bool.true_or]
  · exact h

end SpecialFunction

namespace Word

/-- **The data path calculates modulo `2 ^ 24`**, whatever words of 32 bits and amounts it is given:

* the adder adds, and none of its sums overflows;
* a shift upward multiplies, and the word is never shifted by 32 bits or more;
* the two's complement reading is in its range, agrees with the word and is negative exactly if bit
  23 is set;
* the adder's sum is read as the one number in range that agrees with the sum of the readings;
* each of the special functions from 1 to 12 octal leaves in X what was there or the left box times
  the power of two that its listing text says, and has no other effect; so no bit of X is lost. -/
theorem arithmetic_is_modular :
    (∀ (a b : Word) (carry : Bool), Guarded.sum a b carry = .ok (sum a b carry) ∧
      (sum a b carry).toNat = (a.toNat + b.toNat + carry.toNat) % 2 ^ 24) ∧
    (∀ (a : Word) (n : UInt32), Guarded.shiftUp a n = .ok (a.shiftUp n) ∧
      (a.shiftUp n).toNat = a.toNat * 2 ^ n.toNat % 2 ^ 24) ∧
    (∀ a : Word, -2 ^ 23 ≤ a.signed ∧ a.signed < 2 ^ 23 ∧ a.signed ≡ a.toNat [ZMOD 2 ^ 24] ∧
      (a.signed < 0 ↔ a.toNat.testBit 23 = true)) ∧
    (∀ (a b : Word) (carry : Bool) (k : Int), (sum a b carry).signed = k ↔
      -2 ^ 23 ≤ k ∧ k < 2 ^ 23 ∧ k ≡ a.signed + b.signed + carry.toNat [ZMOD 2 ^ 24]) ∧
    ∀ code : UInt8, 0o01 ≤ code → code ≤ 0o12 → ∃ amount f,
      (code, amount) ∈ SpecialFunction.merges ∧
      SpecialFunction.describe? code = some ("X |= BL << " ++ amount.text) ∧
      SpecialFunction.decode code = .ok f ∧ f.effect = .nothing ∧
      ∀ (box x : Word) (s : Registers),
        (f.merge box x s.z).toNat = x.toNat ||| box.toNat * 2 ^ amount.value s.z % 2 ^ 24 ∧
        ∀ i, x.toNat.testBit i = true → (f.merge box x s.z).toNat.testBit i = true := by
  refine ⟨fun a b carry => ⟨Guarded.sum_eq a b carry, toNat_sum a b carry⟩,
    fun a n => ⟨Guarded.shiftUp_eq a n, toNat_shiftUp a n⟩, fun a => ?_,
    fun a b carry k => signed_sum_eq_iff, fun code hfirst hlast => ?_⟩
  · obtain ⟨hlow, hhigh, hclass⟩ := signed_eq_iff.mp (rfl : a.signed = a.signed)
    refine ⟨hlow, hhigh, hclass, ?_⟩
    rw [← isNegative_iff, isNegative_eq_testBit]
  · obtain ⟨amount, hmem⟩ := SpecialFunction.exists_mem_merges hfirst hlast
    obtain ⟨f, hdecode, heffect, hamount⟩ := SpecialFunction.exists_merge _ hmem
    exact ⟨amount, f, hmem, SpecialFunction.describe?_of_mem_merges _ hmem, hdecode, heffect,
      fun box x s => ⟨SpecialFunction.toNat_merge (hamount s.z) box x,
        fun i hi => f.testBit_merge box s.z hi⟩⟩

/-- Words with bits above the significant ones: the sum of the number before zero and the least number
wraps around to the greatest, a shift by 33 bits loses the word, and a merge is by the number of three
bits of Z and keeps the highest bit of X. -/
theorem arithmetic_is_modular_wide :
    let s : Registers := { Registers.zero with z := 0xFFFFFFF6 }
    Guarded.sum 0xFFFFFFFF 0x01800000 false = .ok 0x007FFFFF ∧
      (sum 0xFFFFFFFF 0x01800000 false).signed = 8388607 ∧
      (shiftUp 3 33).toNat = 3 * 2 ^ 33 % 2 ^ 24 ∧
      ∃ f, SpecialFunction.decode 0o12 = .ok f ∧
        (f.merge 0xFF000011 0x80000001 s.z).toNat = 0x80000001 ||| 0xFF000011 * 2 ^ 5 % 2 ^ 24 ∧
        (f.merge 0xFF000011 0x80000001 s.z).toNat.testBit 31 = true := by
  intro s
  obtain ⟨hsum, hshift, -, hread, hmerge⟩ := arithmetic_is_modular
  obtain ⟨amount, f, hmem, -, hdecode, -, hbits⟩ := hmerge 0o12 (by decide) (by decide)
  obtain rfl : amount = .bitsOfZ 4 2 := by simpa [SpecialFunction.merges] using hmem
  obtain ⟨hvalue, hkept⟩ := hbits 0xFF000011 0x80000001 s
  exact ⟨(hsum _ _ _).1, (hread _ _ _ _).mpr (by decide), (hshift _ _).2, f, hdecode,
    hvalue.trans (by decide), hkept 31 (by decide)⟩

end Word

end MicroEngine
