import MicroEngine.Text.Numeral
/-!
# Opcodes that no unit carries out

* `OpcodeField`: which field of a microword holds the code.
* `OpcodeError`: the only way in which a microcycle fails.
-/

namespace MicroEngine

inductive OpcodeField
  /-- The branch condition. -/
  | branch
  /-- The special function. -/
  | special
  deriving DecidableEq, Repr

namespace OpcodeField

def all : List OpcodeField := [branch, special]

def word : OpcodeField → String
  | branch => "branch"
  | special => "special"

/-- The field's name in serialized data. -/
def name : OpcodeField → String
  | branch => "Branch"
  | special => "Special"

end OpcodeField

/-- Why a microcycle cannot be carried out. -/
inductive OpcodeError
  /-- The code means nothing. -/
  | unimplemented (field : OpcodeField) (code : UInt8)
  deriving DecidableEq, Repr

def OpcodeError.message : OpcodeError → String
  | .unimplemented field code => "unimplemented " ++ field.word ++ " code " ++ Text.octal2 code.toNat

end MicroEngine
