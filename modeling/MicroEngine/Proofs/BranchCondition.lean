import MicroEngine.BranchCondition
import MicroEngine.Proofs.SignedWord
/-!
# What branch conditions ask

The conditions are written with masks and sign bits, and they mean comparisons of numbers: signed
ones of the X and Y buses, of R0 and of Z, and remainders where a condition looks at low bits.

* `BranchCondition.Asks`: what a condition asks of the numbers.
* **`holds_iff`**: a condition holds exactly if what it asks is so.
* `evaluate_congr`: only the low 24 bits of the buses count.
* `BranchCondition.OneHolds`: exactly one of some codes holds; `oneHolds_pair`, `oneHolds_sign`:
  opposite conditions, and the three signs.
* **`evaluate_compares_signed`**: the comparisons by code, and which codes exclude each other.
-/

namespace MicroEngine

namespace BranchCondition

/-- What a condition asks of the numbers on the buses, in the left boolean box and in the
registers. -/
def Asks (x y box : Word) (s : Registers) : BranchCondition → Prop
  | never => False
  | always => True
  | xZero => x.signed = 0
  | xNonzero => x.signed ≠ 0
  | xNegative => x.signed < 0
  | xNonnegative => 0 ≤ x.signed
  | xPositive => 0 < x.signed
  | xNonpositive => x.signed ≤ 0
  | yNonnegative => 0 ≤ y.signed
  | yNegative => y.signed < 0
  | r0Negative => (s.readHolding 0).signed < 0
  | r0Nonnegative => 0 ≤ (s.readHolding 0).signed
  | xFieldOnes => x.toNat % 2 ^ 18 = 2 ^ 18 - 1
  | xFieldNotOnes => x.toNat % 2 ^ 18 ≠ 2 ^ 18 - 1
  | zNonnegative => 0 ≤ s.z.signed
  | zNegative => s.z.signed < 0
  | yFieldNonzero => y.toNat % 2 ^ 3 ≠ 0
  | boxZero => box = 0
  | boxNonzero => box ≠ 0
  | yEven => y.toNat % 2 = 0
  | yOdd => y.toNat % 2 ≠ 0
  | device _ => False

/-! ## Conditions -/

variable (x y box : Word) (s : Registers)

/-- **A condition holds exactly if what it asks is so.** -/
theorem holds_iff (c : BranchCondition) : c.holds x y box s = true ↔ c.Asks x y box s := by
  have hones : x.trim &&& lowField = lowField ↔ x.toNat % 2 ^ 18 = 2 ^ 18 - 1 := by
    rw [← UInt32.toNat_inj, Word.toNat_trim_and x (by decide) (n := 18) rfl]
    rfl
  have hlow : y.trim &&& 0o7 = 0 ↔ y.toNat % 2 ^ 3 = 0 := by
    rw [← UInt32.toNat_inj, Word.toNat_trim_and y (by decide) (n := 3) rfl]
    rfl
  have hparity : y.trim &&& 1 = 0 ↔ y.toNat % 2 = 0 := by
    rw [← UInt32.toNat_inj, Word.toNat_trim_and y (by decide) (n := 1) rfl]
    rfl
  cases c with
  | never | always | device _ => simp [holds, Asks]
  | xZero | xNonzero => simp [holds, Asks, Word.trim_eq_zero_iff]
  | xNegative | yNegative | r0Negative | zNegative => simp [holds, Asks, Word.isNegative_iff]
  | xNonnegative | yNonnegative | r0Nonnegative | zNonnegative =>
    simp [holds, Asks, Word.isNegative_eq_false_iff]
  | xPositive =>
    simp only [holds, Asks, Bool.and_eq_true, bne_iff_ne, Bool.not_eq_true', ne_eq,
      Word.trim_eq_zero_iff, Word.isNegative_eq_false_iff, Word.signed_trim]
    omega
  | xNonpositive =>
    simp only [holds, Asks, Bool.or_eq_true, beq_iff_eq, Word.trim_eq_zero_iff, Word.isNegative_iff,
      Word.signed_trim]
    omega
  | xFieldOnes | xFieldNotOnes => simp [holds, Asks, hones]
  | yFieldNonzero => simp [holds, Asks, hlow]
  | yEven | yOdd => simp [holds, Asks, hparity]
  | boxZero | boxNonzero => simp [holds, Asks]

/-! ## Codes -/

variable {x y box s}

/-- What the condition with a known code comes to. -/
theorem evaluate_eq_ok_iff {code : UInt8} {c : BranchCondition} {taken : Bool}
    (h : ofCode? code = some c) :
    evaluate code x y box s = .ok taken ↔ (c.Asks x y box s ↔ taken = true) := by
  rw [evaluate, h, ← holds_iff, Except.ok.injEq, Bool.eq_iff_iff]

/-- Of the X and Y buses only the significant bits count. -/
theorem evaluate_congr {x' y' : Word} (hx : x'.toNat % 2 ^ 24 = x.toNat % 2 ^ 24)
    (hy : y'.toNat % 2 ^ 24 = y.toNat % 2 ^ 24) (code : UInt8) :
    evaluate code x' y' box s = evaluate code x y box s := by
  unfold evaluate holds
  rw [Word.trim_congr hx, Word.trim_congr hy]

/-- Exactly one of the conditions with these codes holds; the others are known and do not hold. -/
def OneHolds (x y box : Word) (s : Registers) (codes : List UInt8) : Prop :=
  ∃ code ∈ codes, evaluate code x y box s = .ok true ∧
    ∀ other ∈ codes, other ≠ code → evaluate other x y box s = .ok false

/-- Exactly one holds if one condition asks what is so and the others do not. -/
theorem oneHolds_of_asks {codes : List UInt8} {code : UInt8} {c : BranchCondition}
    (hcode : code ∈ codes) (hc : ofCode? code = some c) (h : c.Asks x y box s)
    (hothers : ∀ other ∈ codes, other ≠ code →
      ∃ d, ofCode? other = some d ∧ ¬ d.Asks x y box s) : OneHolds x y box s codes := by
  refine ⟨code, hcode, (evaluate_eq_ok_iff hc).mpr (iff_of_true h rfl), fun other hother hne => ?_⟩
  obtain ⟨d, hd, hnot⟩ := hothers other hother hne
  exact (evaluate_eq_ok_iff hd).mpr (iff_of_false hnot Bool.false_ne_true)

/-- Of two opposite conditions exactly one holds. -/
theorem oneHolds_pair {a b : UInt8} {c d : BranchCondition} (ha : ofCode? a = some c)
    (hb : ofCode? b = some d) (h : d.Asks x y box s ↔ ¬ c.Asks x y box s) :
    OneHolds x y box s [a, b] := by
  by_cases hc : c.Asks x y box s
  · refine oneHolds_of_asks (List.mem_cons_self) ha hc fun other hother hne => ?_
    obtain rfl : other = b := by simpa [hne] using hother
    exact ⟨d, hb, mt h.mp (not_not_intro hc)⟩
  · refine oneHolds_of_asks (List.mem_cons_of_mem a List.mem_cons_self) hb (h.mpr hc)
      fun other hother hne => ?_
    obtain rfl : other = a := by simpa [hne] using hother
    exact ⟨c, ha, hc⟩

/-- The X bus is zero, negative or positive. -/
theorem oneHolds_sign : OneHolds x y box s [0o02, 0o04, 0o06] := by
  rcases Int.lt_trichotomy x.signed 0 with h | h | h
  · refine oneHolds_of_asks (by decide) (rfl : ofCode? 0o04 = some xNegative) h
      fun other hother hne => ?_
    obtain rfl | rfl : other = 0o02 ∨ other = 0o06 := by simpa [hne] using hother
    · exact ⟨xZero, rfl, Int.ne_of_lt h⟩
    · exact ⟨xPositive, rfl, Int.lt_asymm h⟩
  · refine oneHolds_of_asks (by decide) (rfl : ofCode? 0o02 = some xZero) h
      fun other hother hne => ?_
    obtain rfl | rfl : other = 0o04 ∨ other = 0o06 := by simpa [hne] using hother
    · exact ⟨xNegative, rfl, Int.not_lt.mpr (Int.le_of_eq h.symm)⟩
    · exact ⟨xPositive, rfl, Int.not_lt.mpr (Int.le_of_eq h)⟩
  · refine oneHolds_of_asks (by decide) (rfl : ofCode? 0o06 = some xPositive) h
      fun other hother hne => ?_
    obtain rfl | rfl : other = 0o02 ∨ other = 0o04 := by simpa [hne] using hother
    · exact ⟨xZero, rfl, Int.ne_of_gt h⟩
    · exact ⟨xNegative, rfl, Int.lt_asymm h⟩

/-- **Branch conditions compare signed numbers.** Only the 24 significant bits of the X and Y buses
count; each code of a comparison is that comparison of the two's complement readings, or the parity
of Y; and exactly one of each pair of opposite conditions holds, and exactly one of zero, negative
and positive. -/
theorem evaluate_compares_signed (x y box : Word) (s : Registers) :
    (∀ code x' y', x'.toNat % 2 ^ 24 = x.toNat % 2 ^ 24 → y'.toNat % 2 ^ 24 = y.toNat % 2 ^ 24 →
      evaluate code x' y' box s = evaluate code x y box s) ∧
    (∀ comparison ∈ [
        (0o02, decide (x.signed = 0)), (0o03, decide (x.signed ≠ 0)),
        (0o04, decide (x.signed < 0)), (0o05, decide (x.signed ≥ 0)),
        (0o06, decide (x.signed > 0)), (0o13, decide (x.signed ≤ 0)),
        (0o07, decide (y.signed ≥ 0)), (0o10, decide (y.signed < 0)),
        (0o11, decide ((s.readHolding 0).signed < 0)),
        (0o12, decide ((s.readHolding 0).signed ≥ 0)),
        (0o16, decide (s.z.signed ≥ 0)), (0o17, decide (s.z.signed < 0)),
        (0o24, decide (y.toNat % 2 = 0)), (0o25, decide (y.toNat % 2 = 1))],
      evaluate comparison.1 x y box s = .ok comparison.2) ∧
    ∀ codes ∈ [[0o02, 0o03], [0o04, 0o05], [0o06, 0o13], [0o07, 0o10], [0o11, 0o12], [0o14, 0o15],
        [0o16, 0o17], [0o22, 0o23], [0o24, 0o25], [0o02, 0o04, 0o06]],
      OneHolds x y box s codes := by
  refine ⟨fun code x' y' hx hy => evaluate_congr hx hy code, fun comparison h => ?_,
    fun codes h => ?_⟩
  · simp only [List.mem_cons, List.not_mem_nil, or_false] at h
    rcases h with rfl | rfl | rfl | rfl | rfl | rfl | rfl | rfl | rfl | rfl | rfl | rfl | rfl | rfl
    all_goals refine (evaluate_eq_ok_iff rfl).mpr ?_
    all_goals simp [Asks]
  · simp only [List.mem_cons, List.not_mem_nil, or_false] at h
    rcases h with rfl | rfl | rfl | rfl | rfl | rfl | rfl | rfl | rfl | rfl
    · exact oneHolds_pair rfl rfl Iff.rfl
    · exact oneHolds_pair rfl rfl Int.not_lt.symm
    · exact oneHolds_pair rfl rfl Int.not_lt.symm
    · exact oneHolds_pair rfl rfl Int.not_le.symm
    · exact oneHolds_pair rfl rfl Int.not_lt.symm
    · exact oneHolds_pair rfl rfl Iff.rfl
    · exact oneHolds_pair rfl rfl Int.not_le.symm
    · exact oneHolds_pair rfl rfl Iff.rfl
    · exact oneHolds_pair rfl rfl Iff.rfl
    · exact oneHolds_sign

/-- Words with bits above the significant ones: X is the least number there is, Y is odd, R0 is the
number before zero and Z the greatest number. -/
theorem evaluate_compares_wide :
    let s : Registers :=
      { Registers.zero with z := 0xFF7FFFFF, holding := Vector.replicate 7 0xFFFFFFFF }
    evaluate 0o04 0xFF800000 0x01000003 0 s = evaluate 0o04 0x00800000 3 0 s ∧
      (∀ code ∈ [0o04, 0o11, 0o16, 0o25], evaluate code 0xFF800000 0x01000003 0 s = .ok true) ∧
      OneHolds 0xFF800000 0x01000003 0 s [0o02, 0o04, 0o06] := by
  intro s
  obtain ⟨hbits, -, -⟩ := evaluate_compares_signed 0x00800000 3 0 s
  obtain ⟨-, hcompare, hone⟩ := evaluate_compares_signed 0xFF800000 0x01000003 0 s
  refine ⟨hbits 0o04 0xFF800000 0x01000003 (by decide) (by decide), ?_, hone _ (by decide)⟩
  simp only [List.forall_mem_cons]
  exact ⟨hcompare (0o04, true) (by decide), hcompare (0o11, true) (by decide),
    hcompare (0o16, true) (by decide), hcompare (0o25, true) (by decide), by simp⟩

end BranchCondition

end MicroEngine
