import MicroEngine.Proofs.Microword.Bits
/-!
# The layout of a microword

The layout is described twice: by spans, which shift and mask a component and so count from its least
significant end, and by listing numbers, which count from the most significant one. The two agree.

* `Span.Covers`: a span is a run of listing bits. `Covers.testBit_read`, `Covers.bit_write`: what is
  read from it and what a write changes.
* **`testBit_field`**, **`bit_setField`**: the same for a field, the constant in two spans included.
* `ext_parts`: fields and flags cover all bits.
-/

namespace MicroEngine

/-! ## Digits of shifted and masked components -/

theorem testBit_shiftLeft {v n : UInt32} (hn : n.toNat < 32) (k : Nat) :
    (v <<< n).toNat.testBit k =
      (decide (k < 32) && (decide (n.toNat ≤ k) && v.toNat.testBit (k - n.toNat))) := by
  rw [UInt32.toNat_shiftLeft, Nat.mod_eq_of_lt hn, Nat.testBit_mod_two_pow, Nat.testBit_shiftLeft]

theorem testBit_complement {v : UInt32} {k : Nat} (hk : k < 32) :
    (~~~v).toNat.testBit k = !v.toNat.testBit k := by
  have hsub : UInt32.size - 1 - v.toNat = 2 ^ 32 - (v.toNat + 1) := by
    rw [Nat.sub_sub, Nat.add_comm]
    rfl
  rw [UInt32.toNat_not, hsub, Nat.testBit_two_pow_sub_succ v.toNat_lt, decide_eq_true hk,
    Bool.true_and]

/-- The span is the run of `width` listing bits from `first` on. -/
structure Span.Covers (s : Span) (first width : Nat) : Prop where
  ones_eq : s.ones.toNat = 2 ^ width - 1
  fits : s.shift.toNat + width ≤ 30
  /-- The run ends where the shift says, counted from the end of the component. -/
  ends : first + width + s.shift.toNat = 30 * (s.component.index + 1)

namespace Span.Covers

variable {s : Span} {first width : Nat} (h : s.Covers first width)

include h

/-- **What is read from a run of bits**, most significant bit first. -/
theorem testBit_read (w : Microword) (i : Nat) :
    (w.read s).toNat.testBit i = (decide (i < width) && w.bit (first + (width - 1 - i))) := by
  have hfits := h.fits
  have hends := h.ends
  rw [Microword.read, UInt32.toNat_and, UInt32.toNat_shiftRight, Nat.mod_eq_of_lt (by omega),
    Nat.testBit_and, Nat.testBit_shiftRight, h.ones_eq, Nat.testBit_two_pow_sub_one, Bool.and_comm]
  by_cases hi : i < width
  · rw [decide_eq_true hi, Bool.true_and, Bool.true_and, w.testBit_component _ (by omega)]
    congr 1
    omega
  · rw [decide_eq_false hi, Bool.false_and, Bool.false_and]

/-- A digit of the component after a write. -/
theorem testBit_write {a v : UInt32} {k : Nat} (hk : k < 30) :
    ((a &&& ~~~(s.ones <<< s.shift)) ||| ((v &&& s.ones) <<< s.shift)).toNat.testBit k =
      if s.shift.toNat ≤ k ∧ k < s.shift.toNat + width then v.toNat.testBit (k - s.shift.toNat)
      else a.toNat.testBit k := by
  have hfits := h.fits
  rw [UInt32.toNat_or, UInt32.toNat_and, Nat.testBit_or, Nat.testBit_and,
    testBit_complement (by omega), testBit_shiftLeft (by omega), testBit_shiftLeft (by omega),
    UInt32.toNat_and, Nat.testBit_and, h.ones_eq, Nat.testBit_two_pow_sub_one,
    decide_eq_true (show k < 32 by omega)]
  by_cases hlow : s.shift.toNat ≤ k
  · by_cases hhigh : k < s.shift.toNat + width
    · have hin : k - s.shift.toNat < width := by omega
      simp [hlow, hhigh, hin]
    · have hout : ¬ k - s.shift.toNat < width := by omega
      simp [hlow, hhigh, hout]
  · simp [hlow]

/-- **What a write into a run of bits changes**: the bits of the run, to the low bits of the value. -/
theorem bit_write (w : Microword) (v : UInt32) (n : Nat) :
    (w.write s v).bit n =
      if first ≤ n ∧ n < first + width then v.toNat.testBit (first + width - 1 - n) else w.bit n := by
  have hfits := h.fits
  have hends := h.ends
  have hlt := s.component.index_lt
  by_cases hn : n < 90
  · have hindex := Microword.index_bitComponent hn
    rw [Microword.bit_eq_testBit _ hn, Microword.bit_eq_testBit _ hn, Microword.write,
      Microword.component_setComponent]
    by_cases hc : s.component = Microword.bitComponent n
    · rw [if_pos hc, h.testBit_write (by omega), hc]
      rw [hc, hindex] at hends
      congr 1
      · exact propext (by omega)
      · congr 1
        omega
    · have hother : s.component.index ≠ n / 30 :=
        fun heq => hc (Component.index_injective (heq.trans hindex.symm))
      rw [if_neg hc, if_neg (by omega)]
  · rw [Microword.bit_of_le _ (by omega), Microword.bit_of_le _ (by omega), if_neg (by omega)]

end Span.Covers

/-! ## Fields -/

namespace Field

theorem covers {f : Field} (h : f ≠ constant) : f.span.Covers f.firstBit f.width := by
  cases f with
  | constant => exact absurd rfl h
  | _ => exact ⟨by decide, by decide, by decide⟩

theorem covers_upper : constantUpper.Covers 18 12 := ⟨by decide, by decide, by decide⟩

theorem covers_lower : constantLower.Covers 30 12 := ⟨by decide, by decide, by decide⟩

end Field

namespace Microword

/-- A field other than the constant lies in one span. -/
theorem field_eq_read (w : Microword) {f : Field} (h : f ≠ .constant) :
    w.field f = w.read f.span := by
  cases f with
  | constant => exact absurd rfl h
  | _ => rfl

theorem setField_eq_write (w : Microword) {f : Field} (h : f ≠ .constant) (v : UInt32) :
    w.setField f v = w.write f.span v := by
  cases f with
  | constant => exact absurd rfl h
  | _ => rfl

theorem testBit_constant (w : Microword) (i : Nat) :
    (w.field .constant).toNat.testBit i = (decide (i < 24) && w.bit (18 + (24 - 1 - i))) := by
  change (w.read Field.constantUpper <<< 12 ||| w.read Field.constantLower).toNat.testBit i = _
  have hupper := testBit_shiftLeft (v := w.read Field.constantUpper) (n := 12) (by decide) i
  have htwelve : (12 : UInt32).toNat = 12 := rfl
  rw [htwelve, Field.covers_upper.testBit_read] at hupper
  rw [UInt32.toNat_or, Nat.testBit_or, hupper, Field.covers_lower.testBit_read]
  by_cases hlow : i < 12
  · have hplace : 30 + (12 - 1 - i) = 18 + (24 - 1 - i) := by omega
    have hshort : i < 24 := by omega
    simp [hlow, Nat.not_le.mpr hlow, hplace, hshort]
  · by_cases hhigh : i < 24
    · have hplace : 18 + (12 - 1 - (i - 12)) = 18 + (24 - 1 - i) := by omega
      have hrun : i < 32 ∧ 12 ≤ i ∧ i - 12 < 12 := by omega
      simp [hlow, hhigh, hplace, hrun]
    · have hout : ¬ i - 12 < 12 := by omega
      simp [hlow, hhigh, hout]

/-- **The binary digits of a field are its listing bits**, most significant first. -/
theorem testBit_field (w : Microword) (f : Field) (i : Nat) :
    (w.field f).toNat.testBit i =
      (decide (i < f.width) && w.bit (f.firstBit + (f.width - 1 - i))) := by
  by_cases hf : f = .constant
  · rw [hf]
    exact w.testBit_constant i
  · rw [w.field_eq_read hf, (Field.covers hf).testBit_read]

/-- **What setting a field changes**: the listing bits of the field, to the low bits of the value. -/
theorem bit_setField (w : Microword) (f : Field) (v : UInt32) (n : Nat) :
    (w.setField f v).bit n =
      if f.firstBit ≤ n ∧ n < f.firstBit + f.width then
        v.toNat.testBit (f.firstBit + f.width - 1 - n)
      else w.bit n := by
  by_cases hf : f = .constant
  · subst hf
    change ((w.write Field.constantUpper (v >>> 12)).write Field.constantLower v).bit n =
      if 18 ≤ n ∧ n < 18 + 24 then v.toNat.testBit (18 + 24 - 1 - n) else w.bit n
    rw [Field.covers_lower.bit_write, Field.covers_upper.bit_write, UInt32.toNat_shiftRight,
      Nat.testBit_shiftRight]
    by_cases hlower : 30 ≤ n ∧ n < 30 + 12
    · rw [if_pos hlower, if_pos (by omega)]
    · rw [if_neg hlower]
      by_cases hupper : 18 ≤ n ∧ n < 18 + 12
      · have hplace : (12 : UInt32).toNat % 32 + (18 + 12 - 1 - n) = 18 + 24 - 1 - n := by
          have htwelve : (12 : UInt32).toNat % 32 = 12 := rfl
          omega
        rw [if_pos hupper, if_pos (by omega), hplace]
      · rw [if_neg hupper, if_neg (by omega)]
  · rw [w.setField_eq_write hf, (Field.covers hf).bit_write]

/-- A field has no more digits than its width. -/
theorem toNat_field_lt (w : Microword) (f : Field) : (w.field f).toNat < 2 ^ f.width := by
  refine Nat.lt_pow_two_of_testBit _ fun i hi => ?_
  rw [testBit_field, decide_eq_false (Nat.not_lt.mpr hi), Bool.false_and]

/-- A field is known by its listing bits. -/
theorem field_congr {v w : Microword} {f : Field}
    (h : ∀ n, f.firstBit ≤ n → n < f.firstBit + f.width → v.bit n = w.bit n) :
    v.field f = w.field f := by
  refine UInt32.toNat_inj.mp (Nat.eq_of_testBit_eq fun i => ?_)
  rw [testBit_field, testBit_field]
  by_cases hi : i < f.width
  · rw [h _ (by omega) (by omega)]
  · rw [decide_eq_false hi, Bool.false_and, Bool.false_and]

/-- A listing bit of a field is a digit of its value. -/
theorem bit_eq_testBit_field (w : Microword) {f : Field} {n : Nat} (hfirst : f.firstBit ≤ n)
    (hlast : n < f.firstBit + f.width) :
    w.bit n = (w.field f).toNat.testBit (f.firstBit + f.width - 1 - n) := by
  rw [testBit_field, decide_eq_true (by omega), Bool.true_and]
  congr 1
  omega

end Microword

/-! ## Fields and flags together -/

theorem Field.disjoint {f g : Field} (h : f ≠ g) :
    f.firstBit + f.width ≤ g.firstBit ∨ g.firstBit + g.width ≤ f.firstBit := by
  have hpairs : ∀ f ∈ all, ∀ g ∈ all, f ≠ g →
      f.firstBit + f.width ≤ g.firstBit ∨ g.firstBit + g.width ≤ f.firstBit := by decide
  exact hpairs f f.mem_all g g.mem_all h

theorem Flag.bit_outside (g : Flag) (f : Field) :
    g.bit < f.firstBit ∨ f.firstBit + f.width ≤ g.bit := by
  have hpairs : ∀ g ∈ all, ∀ f ∈ Field.all,
      g.bit < f.firstBit ∨ f.firstBit + f.width ≤ g.bit := by decide
  exact hpairs g g.mem_all f f.mem_all

/-- **Every listing bit belongs to a flag or to a field.** -/
theorem exists_part {n : Nat} (hn : n < 90) :
    (∃ g : Flag, g.bit = n) ∨ ∃ f : Field, f.firstBit ≤ n ∧ n < f.firstBit + f.width := by
  have hparts : ∀ n < 90, (∃ g ∈ Flag.all, g.bit = n) ∨
      ∃ f ∈ Field.all, f.firstBit ≤ n ∧ n < f.firstBit + f.width := by decide
  rcases hparts n hn with ⟨g, -, hg⟩ | ⟨f, -, hf⟩
  · exact .inl ⟨g, hg⟩
  · exact .inr ⟨f, hf⟩

namespace Microword

/-- **A microword of 30 bits in each component is known by its fields and flags.** -/
theorem ext_parts {v w : Microword} (hv : v.Fits) (hw : w.Fits)
    (hfield : ∀ f, v.field f = w.field f) (hflag : ∀ g, v.has g = w.has g) : v = w := by
  refine ext_bit hv hw fun n hn => ?_
  rcases exists_part hn with ⟨g, rfl⟩ | ⟨f, hfirst, hlast⟩
  · exact hflag g
  · rw [v.bit_eq_testBit_field hfirst hlast, w.bit_eq_testBit_field hfirst hlast, hfield]

/-- **A field that is set holds the value**, cut to the width of the field. -/
theorem toNat_field_setField (w : Microword) (f : Field) (v : UInt32) :
    ((w.setField f v).field f).toNat = v.toNat % 2 ^ f.width := by
  refine Nat.eq_of_testBit_eq fun i => ?_
  rw [testBit_field, Nat.testBit_mod_two_pow]
  by_cases hi : i < f.width
  · rw [bit_setField, if_pos (by omega)]
    congr 2
    omega
  · rw [decide_eq_false hi, Bool.false_and, Bool.false_and]

/-- **Setting a field changes no other field.** -/
theorem field_setField_of_ne (w : Microword) {f g : Field} (h : f ≠ g) (v : UInt32) :
    (w.setField f v).field g = w.field g := by
  have hdisjoint := Field.disjoint h
  refine field_congr fun n hfirst hlast => ?_
  rw [bit_setField, if_neg (by omega)]

theorem has_setField (w : Microword) (f : Field) (v : UInt32) (g : Flag) :
    (w.setField f v).has g = w.has g := by
  have houtside := g.bit_outside f
  rw [has, bit_setField, if_neg (by omega), has]

theorem field_setFlag (w : Microword) (f : Flag) (x : Field) :
    (w.setFlag f).field x = w.field x := by
  have houtside := f.bit_outside x
  refine field_congr fun n hfirst hlast => ?_
  have hother : f.bit ≠ n := by omega
  rw [setFlag, bit_setBit w f.bit_lt, beq_false_of_ne hother, Bool.or_false]

end Microword

end MicroEngine
