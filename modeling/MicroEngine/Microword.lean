import MicroEngine.Word
import MicroEngine.Sequencer
import MicroEngine.Text.Numeral
import MicroEngine.Microword.Flag
/-!
# Microwords

A microword is three components of 30 bits, 90 control bits in all. Bits are numbered as in
listings: bit 0 is the most significant bit of the first component, bit 89 the least significant bit
of the third.

* `Microword`: the three components, `Microword.trim` their 30 significant bits.
* `Microword.bit`, `Microword.ofBits`: single bits by their listing numbers.
* `Field`, `Microword.field`: the multi-bit fields and their values.
* `Microword.has`: the single-bit controls.
* `Microword.scratchpadIndex`: the scratchpad word that a microword selects.
-/

namespace MicroEngine

/-- A microword: three components, of which 30 bits each are significant. -/
structure Microword where
  /-- Bits 0 to 29: branch condition, sequence control, target, high half of the constant. -/
  high : UInt32
  /-- Bits 30 to 59: low half of the constant, bus controls, scratchpad select. -/
  middle : UInt32
  /-- Bits 60 to 89: special function, register selects and loads, boolean boxes. -/
  low : UInt32
  deriving DecidableEq, Repr, Inhabited

/-- Which of the three components of a microword. -/
inductive Component
  | high
  | middle
  | low
  deriving DecidableEq, Repr

namespace Component

/-- All components, most significant first. -/
def all : List Component := [high, middle, low]

/-- The number of a component in a microcode image. -/
def index : Component → Nat
  | high => 0
  | middle => 1
  | low => 2

def ofIndex? : Nat → Option Component
  | 0 => some high
  | 1 => some middle
  | 2 => some low
  | _ => none

/-- The 30 significant bits of a component. -/
def mask : UInt32 := 0o7777777777

end Component

namespace Microword

/-- The microword of all zeros: never branch, no transfer, no load. -/
def nop : Microword := ⟨0, 0, 0⟩

/-- Whether a microword is all zeros. -/
def isNop (w : Microword) : Bool := w.high == 0 && w.middle == 0 && w.low == 0

/-- The significant bits of a microword. -/
def trim (w : Microword) : Microword :=
  ⟨w.high &&& Component.mask, w.middle &&& Component.mask, w.low &&& Component.mask⟩

def component (w : Microword) : Component → UInt32
  | .high => w.high
  | .middle => w.middle
  | .low => w.low

def setComponent (w : Microword) (c : Component) (v : UInt32) : Microword :=
  match c with
  | .high => ⟨v, w.middle, w.low⟩
  | .middle => ⟨w.high, v, w.low⟩
  | .low => ⟨w.high, w.middle, v⟩

/-- The three components in order. -/
def components (w : Microword) : List UInt32 := [w.high, w.middle, w.low]

@[simp] theorem component_setComponent (w : Microword) (c d : Component) (v : UInt32) :
    (w.setComponent c v).component d = if c = d then v else w.component d := by
  cases c <;> cases d <;> rfl

/-- Two microwords with the same components are equal. -/
theorem ext_component {v w : Microword} (h : ∀ c, v.component c = w.component c) : v = w := by
  obtain ⟨v0, v1, v2⟩ := v
  obtain ⟨w0, w1, w2⟩ := w
  have h0 : v0 = w0 := h .high
  have h1 : v1 = w1 := h .middle
  have h2 : v2 = w2 := h .low
  rw [h0, h1, h2]

theorem toNat_mask (v : UInt32) : (v &&& Component.mask).toNat = v.toNat % 0o10000000000 := by
  simp only [Component.mask, UInt32.toNat_and]
  exact Nat.and_two_pow_sub_one_eq_mod v.toNat 30

/-- The significant bits are 30 for each component. -/
theorem component_trim_lt (w : Microword) (c : Component) :
    (w.trim.component c).toNat < 0o10000000000 := by
  cases c <;> simp only [trim, component, toNat_mask] <;> exact Nat.mod_lt _ (by decide)

/-- The components as three ten-digit octal numerals. -/
def text (w : Microword) : String :=
  " ".intercalate (w.components.map fun c => Text.octalPad 10 c.toNat)

/-- The components' text under the name of the type. -/
def debugText (w : Microword) : String := "Microword(" ++ w.text ++ ")"

/-! ## Single bits -/

/-- The component that holds a listing bit. -/
def bitComponent (n : Nat) : Component :=
  if n < 30 then .high else if n < 60 then .middle else .low

/-- The component value in which listing bit `n` alone is set. -/
def bitMask (n : Nat) : UInt32 := 1 <<< (29 - n % 30).toUInt32

/-- Whether listing bit `n` is set; there are no bits from 90 on. -/
def bit (w : Microword) (n : Nat) : Bool :=
  n < 90 && w.component (bitComponent n) &&& bitMask n != 0

/-- The microword with listing bit `n` set as well; a number from 90 on changes nothing. -/
def setBit (w : Microword) (n : Nat) : Microword :=
  if n < 90 then
    w.setComponent (bitComponent n) (w.component (bitComponent n) ||| bitMask n)
  else w

/-- The microword in which just the listed bits are set. -/
def ofBits (bits : List Nat) : Microword := bits.foldl setBit nop

/-- The numbers of the bits that are set, in ascending order. -/
def bits (w : Microword) : List Nat := (List.range 90).filter w.bit

/-- Whether a control flag is set. -/
def has (w : Microword) (f : Flag) : Bool := w.bit f.bit

/-- The control flags that are set, in the order of their bits. -/
def flags (w : Microword) : List Flag := Flag.all.filter w.has

end Microword

/-! ## Fields -/

/-- A multi-bit field of a microword. -/
inductive Field
  /-- MC, bits 0 to 5: the branch condition. -/
  | condition
  /-- MCONT, bits 6 and 7: the sequence control. -/
  | sequence
  /-- B, bits 8 to 17: the branch target within the bank. -/
  | target
  /-- C, bits 18 to 41: the constant, half of it in each of two components. -/
  | constant
  /-- SSP, bits 51 to 56: the scratchpad select. -/
  | scratchpad
  /-- MS, bits 60 to 65: the special function. -/
  | special
  /-- RRN, bits 66 to 68: the holding register that is read. -/
  | readRegister
  /-- LRN, bits 69 to 71: the holding register that is loaded. -/
  | loadRegister
  /-- BL, bits 78 to 81: the function of the left boolean box. -/
  | leftBox
  /-- BR, bits 82 to 85: the function of the right boolean box. -/
  | rightBox
  deriving DecidableEq, Repr

namespace Field

/-- All fields, in the order of their bits. -/
def all : List Field :=
  [condition, sequence, target, constant, scratchpad, special, readRegister, loadRegister, leftBox,
    rightBox]

/-- The listing number of the field's first bit. -/
def firstBit : Field → Nat
  | condition => 0
  | sequence => 6
  | target => 8
  | constant => 18
  | scratchpad => 51
  | special => 60
  | readRegister => 66
  | loadRegister => 69
  | leftBox => 78
  | rightBox => 82

/-- The number of bits of the field. -/
def width : Field → Nat
  | condition => 6
  | sequence => 2
  | target => 10
  | constant => 24
  | scratchpad => 6
  | special => 6
  | readRegister => 3
  | loadRegister => 3
  | leftBox => 4
  | rightBox => 4

theorem mem_all (f : Field) : f ∈ all := by cases f <;> decide

end Field

/-- A run of bits within one component. -/
structure Span where
  component : Component
  /-- How far the run's last bit is from the component's least significant bit. -/
  shift : UInt32
  /-- The run's bits, moved down to the least significant end. -/
  ones : UInt32
  deriving DecidableEq, Repr

namespace Microword

/-- The bits of a run, as a number. -/
def read (w : Microword) (s : Span) : UInt32 := (w.component s.component >>> s.shift) &&& s.ones

/-- The microword with a run of bits replaced; what does not fit into the run is dropped. -/
def write (w : Microword) (s : Span) (v : UInt32) : Microword :=
  w.setComponent s.component
    ((w.component s.component &&& ~~~(s.ones <<< s.shift)) ||| ((v &&& s.ones) <<< s.shift))

end Microword

namespace Field

def constantUpper : Span := ⟨.high, 0, 0o7777⟩

def constantLower : Span := ⟨.middle, 18, 0o7777⟩

/-- The run of a field that lies in one component; for the constant, its lower half. -/
def span : Field → Span
  | condition => ⟨.high, 24, 0o77⟩
  | sequence => ⟨.high, 22, 0o3⟩
  | target => ⟨.high, 12, 0o1777⟩
  | constant => constantLower
  | scratchpad => ⟨.middle, 3, 0o77⟩
  | special => ⟨.low, 24, 0o77⟩
  | readRegister => ⟨.low, 21, 0o7⟩
  | loadRegister => ⟨.low, 18, 0o7⟩
  | leftBox => ⟨.low, 8, 0o17⟩
  | rightBox => ⟨.low, 4, 0o17⟩

end Field

namespace Microword

def field (w : Microword) : Field → UInt32
  | .constant => (w.read Field.constantUpper <<< 12) ||| w.read Field.constantLower
  | f => w.read f.span

def condition (w : Microword) : UInt8 := (w.field .condition).toUInt8

def sequence (w : Microword) : JumpMode := .ofBits (w.field .sequence).toUInt8

/-- The branch target within the bank. -/
def target (w : Microword) : UInt16 := (w.field .target).toUInt16

def constant (w : Microword) : Word := w.field .constant

def scratchpadSelect (w : Microword) : UInt32 := w.field .scratchpad

def special (w : Microword) : UInt8 := (w.field .special).toUInt8

def readRegister (w : Microword) : Nat := (w.field .readRegister).toNat

def loadRegister (w : Microword) : Nat := (w.field .loadRegister).toNat

/-- The function code of the left boolean box. -/
def leftBox (w : Microword) : UInt8 := (w.field .leftBox).toUInt8

/-- The function code of the right boolean box. -/
def rightBox (w : Microword) : UInt8 := (w.field .rightBox).toUInt8

/-- The special function that indexes the scratchpad with Z. -/
def skzCode : UInt8 := 0o13

/-- The scratchpad word that is selected while the Z register holds `z`: the scratchpad select,
with the low six bits of Z merged in under the special function SKZ. -/
def scratchpadIndex (w : Microword) (z : Word) : Nat :=
  let merged := if w.special == skzCode then z &&& 0o77 else 0
  (w.scratchpadSelect ||| merged).toNat

end Microword

end MicroEngine
