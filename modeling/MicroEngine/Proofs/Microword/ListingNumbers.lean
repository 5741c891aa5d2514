import MicroEngine.Proofs.Microword.Layout
/-!
# Listing numbers

Listings number the 90 control bits from the most significant one on. A microword, its fields and its
flags can all be told from these numbers.

* `Microword.number`: the number that a run of listing bits forms.
* `Microword.reading`: what the accessor of a field returns. **`reading_eq_number`**: that is the
  number of the field's run.
* `Flag.place`: a flag by its mask in a component, `has_eq_mask`.
* `ofBits_congr`, `ofBits_append`, `ofBits_bits`: microwords made from listing numbers.
* **`listing_numbers_faithful`**: all together.
-/

namespace MicroEngine

/-- The component that holds a flag, and the mask of the flag in it. -/
def Flag.place : Flag → Component × UInt32
  | ihr => (.middle, 0o400000)
  | tcx => (.middle, 0o200000)
  | tcy => (.middle, 0o100000)
  | tspy => (.middle, 0o040000)
  | thy => (.middle, 0o020000)
  | txw => (.middle, 0o010000)
  | tyw => (.middle, 0o004000)
  | tax => (.middle, 0o002000)
  | loc => (.middle, 0o001000)
  | tosy => (.middle, 0o4)
  | lr0 => (.middle, 0o2)
  | lspx => (.middle, 0o1)
  | lmx => (.low, 0o400000)
  | lmy => (.low, 0o200000)
  | lqx => (.low, 0o100000)
  | lqy => (.low, 0o040000)
  | lzx => (.low, 0o020000)
  | lzy => (.low, 0o010000)
  | vcy => (.low, 0o10)
  | dgo => (.low, 0o4)
  | te1y => (.low, 0o2)
  | te2y => (.low, 0o1)

/-- The mode of a code has the low two bits of the code. -/
theorem JumpMode.toNat_bits_ofBits (b : UInt8) : (ofBits b).bits.toNat = b.toNat % 4 := by
  have hlow : (b &&& 3).toNat = b.toNat % 4 := Nat.and_two_pow_sub_one_eq_mod b.toNat 2
  have hlt : b.toNat % 4 < 4 := Nat.mod_lt _ (by decide)
  unfold ofBits
  rw [hlow]
  generalize b.toNat % 4 = k at hlt ⊢
  match k, hlt with
  | 0, _ | 1, _ | 2, _ | 3, _ => rfl

namespace Microword

/-- The number that `width` listing bits form, the first of them the most significant. -/
def number (w : Microword) (first width : Nat) : Nat :=
  ((List.range' first width).map w.bit).foldl (fun v b => 2 * v + b.toNat) 0

/-- What the accessor of a field returns, as a number. -/
def reading (w : Microword) : Field → Nat
  | .condition => w.condition.toNat
  | .sequence => w.sequence.bits.toNat
  | .target => w.target.toNat
  | .constant => w.constant.toNat
  | .scratchpad => w.scratchpadSelect.toNat
  | .special => w.special.toNat
  | .readRegister => w.readRegister
  | .loadRegister => w.loadRegister
  | .leftBox => w.leftBox.toNat
  | .rightBox => w.rightBox.toNat

/-! ## Fields and flags by their listing numbers -/

theorem number_succ (w : Microword) (first width : Nat) :
    w.number first (width + 1) = 2 * w.number first width + (w.bit (first + width)).toNat := by
  unfold number
  rw [List.range'_1_concat, List.map_append, List.foldl_append]
  rfl

theorem testBit_number (w : Microword) (first width i : Nat) :
    (w.number first width).testBit i =
      (decide (i < width) && w.bit (first + (width - 1 - i))) := by
  induction width generalizing i with
  | zero => simp [number]
  | succ width ih =>
    -- The last listing bit of the run is the lowest digit.
    rw [number_succ]
    have hdigit : (w.bit (first + width)).toNat < 2 := Bool.toNat_lt _
    cases i with
    | zero =>
      rw [Nat.testBit_zero, Nat.mul_add_mod]
      cases hb : w.bit (first + width) <;> simp [hb]
    | succ i =>
      have hhalf : (2 * w.number first width + (w.bit (first + width)).toNat) / 2 =
          w.number first width := by omega
      have hplace : width + 1 - 1 - (i + 1) = width - 1 - i := by omega
      rw [Nat.testBit_succ, hhalf, ih, hplace]
      simp

/-- No accessor loses a digit of its field. -/
theorem reading_eq (w : Microword) (f : Field) : w.reading f = (w.field f).toNat := by
  have hlt := w.toNat_field_lt f
  cases f with
  | condition | special | leftBox | rightBox =>
    exact (UInt32.toNat_toUInt8 _).trans (Nat.mod_eq_of_lt (Nat.lt_trans hlt (by decide)))
  | target => exact (UInt32.toNat_toUInt16 _).trans (Nat.mod_eq_of_lt (Nat.lt_trans hlt (by decide)))
  | sequence =>
    have hbits : (w.field .sequence).toUInt8.toNat = (w.field .sequence).toNat :=
      (UInt32.toNat_toUInt8 _).trans (Nat.mod_eq_of_lt (Nat.lt_trans hlt (by decide)))
    exact (JumpMode.toNat_bits_ofBits _).trans (by rw [hbits]; exact Nat.mod_eq_of_lt hlt)
  | constant | scratchpad | readRegister | loadRegister => rfl

/-- **The accessor of a field returns the number that the field's listing bits form.** -/
theorem reading_eq_number (w : Microword) (f : Field) :
    w.reading f = w.number f.firstBit f.width := by
  rw [reading_eq]
  refine Nat.eq_of_testBit_eq fun i => ?_
  rw [testBit_field, testBit_number]

/-- **A flag is its listing bit**, tested in the component that holds it. -/
theorem has_eq_mask (w : Microword) (g : Flag) :
    w.has g = (w.component g.place.1 &&& g.place.2 != 0) := by
  have hplace : bitComponent g.bit = g.place.1 ∧ bitMask g.bit = g.place.2 := by
    cases g <;> decide
  rw [has, bit, decide_eq_true g.bit_lt, Bool.true_and, hplace.1, hplace.2]

/-! ## Microwords from listing numbers -/

/-- Order and repetition of the numbers play no part, and numbers from 90 on neither. -/
theorem ofBits_congr {l l' : List Nat} (h : ∀ n < 90, n ∈ l ↔ n ∈ l') : ofBits l = ofBits l' := by
  refine ext_bit (fits_ofBits l) (fits_ofBits l') fun n hn => ?_
  rw [Bool.eq_iff_iff, bit_ofBits, bit_ofBits, h n hn]

theorem ofBits_append (l l' : List Nat) : ofBits (l ++ l') = (ofBits l).merge (ofBits l') := by
  refine ext_bit (fits_ofBits _) ((fits_ofBits l).merge (fits_ofBits l')) fun n hn => ?_
  rw [Bool.eq_iff_iff, bit_merge, Bool.or_eq_true, bit_ofBits, bit_ofBits, bit_ofBits,
    List.mem_append]
  exact and_or_left

/-- **A microword is made from the numbers of its bits.** -/
theorem ofBits_bits {w : Microword} (h : w.Fits) : ofBits w.bits = w := by
  refine ext_bit (fits_ofBits _) h fun n hn => ?_
  rw [Bool.eq_iff_iff, bit_ofBits, bits, List.mem_filter, List.mem_range]
  exact ⟨fun hb => hb.2.2, fun hb => ⟨hn, hn, hb⟩⟩

/-- **Listing numbers are faithful.** In a microword made from a list of bit numbers just the listed
bits are set; a number from 90 on, the order of the numbers and repeated numbers make no difference,
and two lists in a row set the bits of both. A microword of 30 bits in each component is made from
the numbers of its bits. Its accessors return the numbers that the runs of the fields form, and its
flags, tested by their masks, are the bits of their numbers. -/
theorem listing_numbers_faithful :
    (∀ (l : List Nat) (n : Nat), (ofBits l).bit n = true ↔ n < 90 ∧ n ∈ l) ∧
    (∀ l l' : List Nat, (∀ n < 90, n ∈ l ↔ n ∈ l') → ofBits l = ofBits l') ∧
    (∀ (l l' : List Nat) (c : Component),
      (ofBits (l ++ l')).component c = (ofBits l).component c ||| (ofBits l').component c) ∧
    ∀ w : Microword, w.Fits →
      ofBits w.bits = w ∧
      (∀ f : Field, w.reading f = w.number f.firstBit f.width) ∧
      ∀ g : Flag, w.has g = w.bit g.bit ∧
        w.has g = (w.component g.place.1 &&& g.place.2 != 0) := by
  refine ⟨bit_ofBits, fun _ _ => ofBits_congr, fun l l' c => ?_, fun w hw => ⟨ofBits_bits hw, ?_, ?_⟩⟩
  · rw [ofBits_append, component_merge]
  · exact w.reading_eq_number
  · exact fun g => ⟨rfl, w.has_eq_mask g⟩

/-- A constant that lies in two components, and a flag in the third. -/
theorem listing_numbers_of_constant :
    let w : Microword := ⟨0o2021001234, 0o5670200004, 0o10⟩
    ofBits [41, 18, 41, 90] = ofBits [18, 41] ∧ w.Fits ∧ ofBits w.bits = w ∧
      w.reading .constant = 0o12345670 ∧ w.number 18 24 = 0o12345670 ∧
      w.has .vcy = w.bit 86 ∧ w.bit 86 = true := by
  intro w
  have hfits : w.Fits := by
    intro c
    cases c <;> decide
  obtain ⟨-, hcongr, -, hword⟩ := listing_numbers_faithful
  obtain ⟨hbits, hfield, hflag⟩ := hword w hfits
  have hnumber : w.number 18 24 = 0o12345670 := by decide
  exact ⟨hcongr _ _ (by decide), hfits, hbits, (hfield .constant).trans hnumber, hnumber,
    (hflag .vcy).1, by decide⟩

end Microword

end MicroEngine
