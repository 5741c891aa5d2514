import MicroEngine.Opcode
import MicroEngine.Log
import MicroEngine.Registers
/-!
# Branch conditions

* `BranchCondition`: the conditions, `ofCode?` by their 6-bit codes, `describe?` their listing texts.
* `BranchCondition.holds`: whether a condition holds, given the buses, the left boolean box and the
  registers.
* `BranchCondition.evaluate`: the same by code, an error for a code that means nothing.
-/

namespace MicroEngine

/-- A latch outside the micro-engine that a branch condition asks for. -/
inductive DeviceLatch
  | attention1
  | attention2
  | breakpoint
  deriving DecidableEq, Repr

def DeviceLatch.name : DeviceLatch → String
  | .attention1 => "attention latch 1 set, reset"
  | .attention2 => "attention latch 2 set, reset"
  | .breakpoint => "breakpoint set"

/-- A condition on which a jump is taken. -/
inductive BranchCondition
  | never
  | always
  | xZero
  | xNonzero
  | xNegative
  | xNonnegative
  | xPositive
  | xNonpositive
  | yNonnegative
  | yNegative
  | r0Negative
  | r0Nonnegative
  /-- The low 18 bits of X are all ones. -/
  | xFieldOnes
  /-- The low 18 bits of X are not all ones. -/
  | xFieldNotOnes
  | zNonnegative
  | zNegative
  /-- The low 3 bits of Y are not all zeros. -/
  | yFieldNonzero
  | boxZero
  | boxNonzero
  | yEven
  | yOdd
  /-- A latch of a device; no devices are attached. -/
  | device (latch : DeviceLatch)
  deriving DecidableEq, Repr

namespace BranchCondition

def ofCode? (code : UInt8) : Option BranchCondition :=
  match code.toNat with
  | 0o00 => some never
  | 0o01 => some always
  | 0o02 => some xZero
  | 0o03 => some xNonzero
  | 0o04 => some xNegative
  | 0o05 => some xNonnegative
  | 0o06 => some xPositive
  | 0o07 => some yNonnegative
  | 0o10 => some yNegative
  | 0o11 => some r0Negative
  | 0o12 => some r0Nonnegative
  | 0o13 => some xNonpositive
  | 0o14 => some xFieldOnes
  | 0o15 => some xFieldNotOnes
  | 0o16 => some zNonnegative
  | 0o17 => some zNegative
  | 0o20 => some always
  | 0o21 => some yFieldNonzero
  | 0o22 => some boxZero
  | 0o23 => some boxNonzero
  | 0o24 => some yEven
  | 0o25 => some yOdd
  | 0o26 => some (device .attention1)
  | 0o34 => some (device .attention2)
  | 0o45 => some (device .breakpoint)
  | _ => none

/-- The listing text of the condition with this code, if the code is known. -/
def describe? (code : UInt8) : Option String :=
  match code.toNat with
  | 0o00 => some "never"
  | 0o01 => some "always"
  | 0o02 => some "X = 0"
  | 0o03 => some "X != 0"
  | 0o04 => some "X < 0"
  | 0o05 => some "X >= 0"
  | 0o06 => some "X > 0"
  | 0o07 => some "Y >= 0"
  | 0o10 => some "Y < 0"
  | 0o11 => some "R0 < 0"
  | 0o12 => some "R0 >= 0"
  | 0o13 => some "X <= 0"
  | 0o14 => some "X[17:0] all ones"
  | 0o15 => some "X[17:0] not all ones"
  | 0o16 => some "Z >= 0"
  | 0o17 => some "Z < 0"
  | 0o20 => some "always"
  | 0o21 => some "Y[2:0] != 0"
  | 0o22 => some "BL = 0"
  | 0o23 => some "BL != 0"
  | 0o24 => some "Y even"
  | 0o25 => some "Y odd"
  | 0o26 => some DeviceLatch.attention1.name
  | 0o34 => some DeviceLatch.attention2.name
  | 0o45 => some DeviceLatch.breakpoint.name
  | _ => none

/-- The low 18 bits of a word. -/
def lowField : Word := 0o777777

/-- Whether the condition holds on the buses `x` and `y`, the left boolean box `box` and the
registers. The sign of a word is its bit 23. -/
def holds (c : BranchCondition) (x y box : Word) (s : Registers) : Bool :=
  let x := x.trim
  let y := y.trim
  match c with
  | never => false
  | always => true
  | xZero => x == 0
  | xNonzero => x != 0
  | xNegative => x.isNegative
  | xNonnegative => !x.isNegative
  | xPositive => x != 0 && !x.isNegative
  | xNonpositive => x.isNegative || x == 0
  | yNonnegative => !y.isNegative
  | yNegative => y.isNegative
  | r0Negative => Word.isNegative (s.readHolding 0)
  | r0Nonnegative => !Word.isNegative (s.readHolding 0)
  | xFieldOnes => x &&& lowField == lowField
  | xFieldNotOnes => x &&& lowField != lowField
  | zNonnegative => !s.z.isNegative
  | zNegative => s.z.isNegative
  | yFieldNonzero => y &&& 0o7 != 0
  | boxZero => box == 0
  | boxNonzero => box != 0
  | yEven => y &&& 1 == 0
  | yOdd => y &&& 1 != 0
  | device _ => false

/-- Whether the condition with this code holds. -/
def evaluate (code : UInt8) (x y box : Word) (s : Registers) : Except OpcodeError Bool :=
  match ofCode? code with
  | some c => .ok (c.holds x y box s)
  | none => .error (.unimplemented .branch code)

/-- What is logged when the condition with this code is tested. -/
def log (code : UInt8) : List LogRecord :=
  match ofCode? code with
  | some (device latch) =>
    [⟨.info, .device, "branch " ++ Text.octal2 code.toNat ++ ": " ++ latch.name⟩]
  | _ => []

end BranchCondition

end MicroEngine
