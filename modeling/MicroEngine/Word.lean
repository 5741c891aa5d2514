/-!
# Machine words

A machine word has 24 significant bits and is carried in a 32-bit unsigned integer, so that a
register loaded from outside may hold more; each operation of the data path says where the high
bits are dropped.

* `Word.trim`: the low 24 bits of a word.
* `Word.isNegative`, `Word.signed`: bit 23 as a sign, and the two's complement reading.
* `Word.sum`: the adder, modulo `2 ^ 24`, with a carry in.
* `Word.shiftUp`: a left shift within 24 bits.
-/

namespace MicroEngine

/-- A machine word: 24 significant bits carried in 32. -/
abbrev Word := UInt32

namespace Word

/-- The number of significant bits. -/
def width : Nat := 24

/-- The word whose 24 significant bits are all ones. -/
def ones : Word := 0o77777777

/-- The word that holds the sign bit alone. -/
def signBit : Word := 0o40000000

/-- The 24 significant bits of a word. -/
def trim (w : Word) : Word := w &&& ones

/-- Whether the sign bit is set; bits above it play no part. -/
def isNegative (w : Word) : Bool := w &&& signBit != 0

/-- The two's complement reading of the 24 significant bits. -/
def signed (w : Word) : Int :=
  let t := trim w
  if isNegative t then (t.toNat : Int) - (1 <<< width : Nat) else t.toNat

/-- The adder: the sum of the significant bits and the carry, modulo `2 ^ 24`. -/
def sum (a b : Word) (carry : Bool) : Word := trim (trim a + trim b + carry.toUInt32)

/-- The word moved up by `n` bits; what leaves the 24 significant bits is lost. -/
def shiftUp (w : Word) (n : UInt32) : Word := if 24 ≤ n then 0 else trim (w <<< n)

/-! ## Values as numbers -/

theorem toNat_trim (w : Word) : (trim w).toNat = w.toNat % 0o100000000 := by
  simp only [trim, ones, UInt32.toNat_and]
  exact Nat.and_two_pow_sub_one_eq_mod w.toNat 24

theorem toNat_trim_lt (w : Word) : (trim w).toNat < 0o100000000 := by
  rw [toNat_trim]
  exact Nat.mod_lt _ (by decide)

theorem trim_of_lt {w : Word} (h : w.toNat < 0o100000000) : trim w = w := by
  apply UInt32.toNat_inj.mp
  rw [toNat_trim, Nat.mod_eq_of_lt h]

@[simp] theorem trim_trim (w : Word) : trim (trim w) = trim w :=
  trim_of_lt (toNat_trim_lt w)

/-- The adder adds modulo `2 ^ 24`. -/
theorem toNat_sum (a b : Word) (carry : Bool) :
    (sum a b carry).toNat = (a.toNat + b.toNat + carry.toNat) % 0o100000000 := by
  have ha := toNat_trim a
  have hb := toNat_trim b
  have hc : carry.toUInt32.toNat = carry.toNat := by cases carry <;> rfl
  have hc1 : carry.toNat ≤ 1 := by cases carry <;> decide
  simp only [sum, toNat_trim, UInt32.toNat_add, hc]
  omega

end Word

end MicroEngine
