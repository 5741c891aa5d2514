import MicroEngine.Microword
/-!
# The registers of a micro-engine

* `Registers`: micro addresses, working and holding registers, scratchpad, latch, stage.
* `Registers.setAddress`, `setM`, …: the setters, which drop the bits that a register lacks.
* `Registers.advance`, `loadOffset`, `selectBank`: moves of the micro address.
* `Registers.jump`: the effect of a taken jump.
* `Registers.WellFormed`: every register is within its width and the scratchpad has 64 words.

A state that was read from data may be ill-formed; the operations are total on it.
-/

namespace MicroEngine

/-- A micro address, of which 11 bits are significant. -/
abbrev Address := UInt16

namespace Address

/-- The bits of a micro address. -/
def mask : Address := 0o3777

/-- The bit that selects bank B. -/
def bankBit : Address := 0o2000

/-- The bits of the address within its bank. -/
def offsetMask : Address := 0o1777

end Address

/-- A bank of the control store. -/
inductive Bank
  /-- Addresses 0 to 1777 octal. -/
  | a
  /-- Addresses 2000 to 3777 octal. -/
  | b
  deriving DecidableEq, Repr

/-- The bank that an address lies in. -/
def Address.bank (a : Address) : Bank := if a &&& bankBit != 0 then .b else .a

namespace Bank

def all : List Bank := [a, b]

def name : Bank → String
  | a => "A"
  | b => "B"

end Bank

/-- The registers of a micro-engine. -/
structure Registers where
  /-- O: the micro address. -/
  address : Address
  /-- OS: the saved micro address. -/
  saved : Address
  m : Word
  q : Word
  z : Word
  /-- R0 to R6: the holding registers. -/
  holding : Vector Word 7
  /-- The scratchpad, 64 words in a well-formed state. -/
  scratchpad : Array Word
  /-- I: the microword that is executed. -/
  latch : Microword
  stage : Stage
  deriving DecidableEq

namespace Registers

/-- The number of words of a scratchpad. -/
def scratchpadSize : Nat := 64

/-- The state in which every register is zero. -/
def zero : Registers where
  address := 0
  saved := 0
  m := 0
  q := 0
  z := 0
  holding := Vector.replicate 7 0
  scratchpad := Array.replicate scratchpadSize 0
  latch := .nop
  stage := .normal

instance : Inhabited Registers := ⟨zero⟩

/-! ## Micro address -/

def setAddress (s : Registers) (a : Address) : Registers := { s with address := a &&& Address.mask }

def setSaved (s : Registers) (a : Address) : Registers := { s with saved := a &&& Address.mask }

/-- Replace the address within the bank. -/
def loadOffset (s : Registers) (offset : Address) : Registers :=
  { s with address := (s.address &&& Address.bankBit) ||| (offset &&& Address.offsetMask) }

/-- Advance the address by one; the end of a bank is followed by its beginning. -/
def advance (s : Registers) : Registers := s.loadOffset (s.address + 1)

/-- The bank that the address lies in. -/
def bank (s : Registers) : Bank := s.address.bank

/-- Move the address to a bank; the address within the bank stays. -/
def selectBank (s : Registers) : Bank → Registers
  | .a => { s with address := s.address &&& Address.offsetMask }
  | .b => { s with address := s.address ||| Address.bankBit }

/-- The effect of a taken jump, for the target field of the microword and the X bus. -/
def jump (s : Registers) (how : JumpMode) (target : Address) (x : Word) : Registers :=
  match how with
  | .jump => s.loadOffset target
  | .call => (s.setSaved s.address).loadOffset target
  | .ret => s.setAddress s.saved
  | .indirect => s.setAddress (x &&& 0o3777).toUInt16

/-! ## Registers -/

def setM (s : Registers) (v : Word) : Registers := { s with m := v.trim }

def setQ (s : Registers) (v : Word) : Registers := { s with q := v.trim }

def setZ (s : Registers) (v : Word) : Registers := { s with z := v.trim }

def setLatch (s : Registers) (w : Microword) : Registers := { s with latch := w }

def setStage (s : Registers) (stage : Stage) : Registers := { s with stage := stage }

/-- The value of a holding register; a register that is not fitted reads as zero. -/
def readHolding (s : Registers) (index : Nat) : Word := s.holding[index]?.getD 0

/-- Whether a holding register is fitted; the register selects can name one that is not. -/
def isFitted (index : Nat) : Bool := index < 7

/-- Set a holding register; a write to one that is not fitted is dropped. -/
def setHolding (s : Registers) (index : Nat) (v : Word) : Registers :=
  { s with holding := s.holding.setIfInBounds index v.trim }

/-- The value of a scratchpad word; the index is taken modulo 64, and a word that is missing reads
as zero. -/
def readScratchpad (s : Registers) (index : Nat) : Word :=
  s.scratchpad[index % scratchpadSize]?.getD 0

/-- Set a scratchpad word; the index is taken modulo 64, and a write to a missing word is
dropped. -/
def setScratchpad (s : Registers) (index : Nat) (v : Word) : Registers :=
  { s with scratchpad := s.scratchpad.setIfInBounds (index % scratchpadSize) v.trim }

/-- Every register is within its width, and the scratchpad has 64 words. -/
structure WellFormed (s : Registers) : Prop where
  address_lt : s.address.toNat < 0o4000
  saved_lt : s.saved.toNat < 0o4000
  m_lt : s.m.toNat < 0o100000000
  q_lt : s.q.toNat < 0o100000000
  z_lt : s.z.toNat < 0o100000000
  holding_lt : ∀ v ∈ s.holding, v.toNat < 0o100000000
  scratchpad_size : s.scratchpad.size = scratchpadSize
  scratchpad_lt : ∀ v ∈ s.scratchpad, v.toNat < 0o100000000
  latch_lt : ∀ v ∈ s.latch.components, v.toNat < 0o10000000000

/-! ## Reading what was set -/

/-- A holding register reads the word that it was set to, if it is fitted. -/
theorem readHolding_setHolding (s : Registers) (i j : Nat) (v : Word) :
    (s.setHolding i v).readHolding j =
      if i = j ∧ isFitted j then v.trim else s.readHolding j := by
  simp only [readHolding, setHolding, isFitted, Vector.getElem?_setIfInBounds]
  by_cases hij : i = j <;> by_cases hj : j < 7 <;> simp [hij, hj]

/-- A scratchpad word reads the word that it was set to, if it is there. -/
theorem readScratchpad_setScratchpad (s : Registers) (i j : Nat) (v : Word) :
    (s.setScratchpad i v).readScratchpad j =
      if i % scratchpadSize = j % scratchpadSize ∧ j % scratchpadSize < s.scratchpad.size then v.trim
      else s.readScratchpad j := by
  simp only [readScratchpad, setScratchpad, Array.getElem?_setIfInBounds]
  by_cases hij : i % scratchpadSize = j % scratchpadSize <;>
    by_cases hj : j % scratchpadSize < s.scratchpad.size <;> simp [hij, hj]

theorem wellFormed_zero : zero.WellFormed where
  address_lt := by decide
  saved_lt := by decide
  m_lt := by decide
  q_lt := by decide
  z_lt := by decide
  holding_lt := by simp [zero]
  scratchpad_size := by simp [zero]
  scratchpad_lt := by simp [zero]
  latch_lt := by simp [zero, Microword.nop, Microword.components]

/-! ## Diagnostic text -/

/-- The registers but the scratchpad, on one line. -/
def debugText (s : Registers) : String :=
  let address (a : Address) := Text.octal4 a.toNat
  let word (w : Word) := Text.octal8 w.toNat
  let holding := ", ".intercalate (s.holding.toList.map fun r => Text.decimal r.toNat)
  "UnitState \x7b stage: " ++ s.stage.name ++ ", o: " ++ address s.address ++ ", os: " ++
    address s.saved ++ ", m: " ++ word s.m ++ ", q: " ++ word s.q ++ ", z: " ++ word s.z ++
    ", r: [" ++ holding ++ "], i: " ++ s.latch.debugText ++ " \x7d"

end Registers

end MicroEngine
