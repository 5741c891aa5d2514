/-!
# Control flags of a microword

* `Flag`: the 22 single-bit controls.
* `Flag.bit`: the flag's listing bit number.
* `Flag.mnemonic`, `Flag.ofMnemonic?`: its name in listings.
-/

namespace MicroEngine

/-- A single-bit control of a microword. -/
inductive Flag
  /-- Increment the holding register on its way to the Y bus. -/
  | ihr
  /-- Constant to the X bus. -/
  | tcx
  /-- Constant to the Y bus. -/
  | tcy
  /-- Selected scratchpad word to the Y bus. -/
  | tspy
  /-- Selected holding register to the Y bus. -/
  | thy
  /-- X bus to the holding registers. -/
  | txw
  /-- Y bus to the holding registers. -/
  | tyw
  /-- Adder output to the X bus. -/
  | tax
  /-- Carry into the adder. -/
  | loc
  /-- Saved address to the Y bus. -/
  | tosy
  /-- Load holding register R0. -/
  | lr0
  /-- Load the selected scratchpad word from the X bus. -/
  | lspx
  /-- Load M from the X bus. -/
  | lmx
  /-- Load M from the Y bus. -/
  | lmy
  /-- Load Q from the X bus. -/
  | lqx
  /-- Load Q from the Y bus. -/
  | lqy
  /-- Load Z from the X bus. -/
  | lzx
  /-- Load Z from the Y bus. -/
  | lzy
  /-- Extended cycle. -/
  | vcy
  /-- Deferred jump. -/
  | dgo
  /-- First device bus to the Y bus. -/
  | te1y
  /-- Second device bus to the Y bus. -/
  | te2y
  deriving DecidableEq, Repr

namespace Flag

/-- All flags, in the order of their bits. -/
def all : List Flag :=
  [ihr, tcx, tcy, tspy, thy, txw, tyw, tax, loc, tosy, lr0, lspx, lmx, lmy, lqx, lqy, lzx, lzy, vcy,
    dgo, te1y, te2y]

/-- The listing bit number: bit 0 is the most significant bit of the first component. -/
def bit : Flag → Nat
  | ihr => 42
  | tcx => 43
  | tcy => 44
  | tspy => 45
  | thy => 46
  | txw => 47
  | tyw => 48
  | tax => 49
  | loc => 50
  | tosy => 57
  | lr0 => 58
  | lspx => 59
  | lmx => 72
  | lmy => 73
  | lqx => 74
  | lqy => 75
  | lzx => 76
  | lzy => 77
  | vcy => 86
  | dgo => 87
  | te1y => 88
  | te2y => 89

def mnemonic : Flag → String
  | ihr => "IHR"
  | tcx => "TCX"
  | tcy => "TCY"
  | tspy => "TSPY"
  | thy => "THY"
  | txw => "TXW"
  | tyw => "TYW"
  | tax => "TAX"
  | loc => "LOC"
  | tosy => "TOSY"
  | lr0 => "LR0"
  | lspx => "LSPX"
  | lmx => "LMX"
  | lmy => "LMY"
  | lqx => "LQX"
  | lqy => "LQY"
  | lzx => "LZX"
  | lzy => "LZY"
  | vcy => "VCY"
  | dgo => "DGO"
  | te1y => "TE1Y"
  | te2y => "TE2Y"

/-- The flag's name in serialized data. -/
def name : Flag → String
  | ihr => "Ihr"
  | tcx => "Tcx"
  | tcy => "Tcy"
  | tspy => "Tspy"
  | thy => "Thy"
  | txw => "Txw"
  | tyw => "Tyw"
  | tax => "Tax"
  | loc => "Loc"
  | tosy => "Tosy"
  | lr0 => "Lr0"
  | lspx => "Lspx"
  | lmx => "Lmx"
  | lmy => "Lmy"
  | lqx => "Lqx"
  | lqy => "Lqy"
  | lzx => "Lzx"
  | lzy => "Lzy"
  | vcy => "Vcy"
  | dgo => "Dgo"
  | te1y => "Te1y"
  | te2y => "Te2y"

def ofMnemonic? (text : String) : Option Flag := all.find? fun f => f.mnemonic == text

theorem mem_all (f : Flag) : f ∈ all := by cases f <;> decide

theorem bit_lt (f : Flag) : f.bit < 90 := by cases f <;> decide

theorem bit_injective {f g : Flag} (h : f.bit = g.bit) : f = g := by
  cases f <;> cases g <;> first | rfl | exact absurd h (by decide)

end Flag

end MicroEngine
