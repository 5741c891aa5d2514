import MicroEngine.Word
/-!
# The boolean boxes

Each micro-engine has two boolean boxes, the left one on M and Q, the right one on Z and Q. A 4-bit
code selects one of sixteen functions of two words.

* `BoxFunction`: the sixteen selections, `ofCode` and `code` their 4-bit codes.
* `BoxFunction.apply`: the function on 24-bit words.
* `BoxFunction.formula`: the function as a formula, `BoxFormula.text` its listing text.
-/

namespace MicroEngine

/-- The selections of a boolean box, in the order of their codes. The box has two spare codes, which
repeat the complement of the second operand and the conjunction. -/
inductive BoxFunction
  | and
  | eqv
  | passB
  | notAOrB
  | passA
  | aOrNotB
  | or
  | ones
  | zero
  | nor
  | notAAndB
  | spareNotB
  | aAndNotB
  | notB
  | spareAnd
  | nand
  deriving DecidableEq, Repr

/-- An operand of a box, plain or complemented. -/
inductive BoxOperand
  | a
  | b
  | notA
  | notB
  deriving DecidableEq, Repr

/-- A formula over the two operands of a box. -/
inductive BoxFormula
  | operand (p : BoxOperand)
  | and (p q : BoxOperand)
  | or (p q : BoxOperand)
  | eqv (p q : BoxOperand)
  | ones
  | zero
  deriving DecidableEq, Repr

/-- The text of an operand whose registers are called `a` and `b`. -/
def BoxOperand.text (a b : String) : BoxOperand → String
  | .a => a
  | .b => b
  | .notA => "NOT " ++ a
  | .notB => "NOT " ++ b

/-- The text of a formula whose registers are called `a` and `b`. -/
def BoxFormula.text (a b : String) : BoxFormula → String
  | .operand p => p.text a b
  | .and p q => p.text a b ++ " AND " ++ q.text a b
  | .or p q => p.text a b ++ " OR " ++ q.text a b
  | .eqv p q => p.text a b ++ " EQV " ++ q.text a b
  | .ones => "-1"
  | .zero => "0"

namespace BoxFunction

/-- All selections, in the order of their codes. -/
def all : List BoxFunction :=
  [and, eqv, passB, notAOrB, passA, aOrNotB, or, ones, zero, nor, notAAndB, spareNotB, aAndNotB,
    notB, spareAnd, nand]

/-- The 4-bit code of a selection. -/
def code : BoxFunction → UInt8
  | and => 0o00
  | eqv => 0o01
  | passB => 0o02
  | notAOrB => 0o03
  | passA => 0o04
  | aOrNotB => 0o05
  | or => 0o06
  | ones => 0o07
  | zero => 0o10
  | nor => 0o11
  | notAAndB => 0o12
  | spareNotB => 0o13
  | aAndNotB => 0o14
  | notB => 0o15
  | spareAnd => 0o16
  | nand => 0o17

/-- The selection of a code, of which only the low four bits count. -/
def ofCode (code : UInt8) : BoxFunction :=
  match (code &&& 0o17).toNat with
  | 0o00 => and
  | 0o01 => eqv
  | 0o02 => passB
  | 0o03 => notAOrB
  | 0o04 => passA
  | 0o05 => aOrNotB
  | 0o06 => or
  | 0o07 => ones
  | 0o10 => zero
  | 0o11 => nor
  | 0o12 => notAAndB
  | 0o13 => spareNotB
  | 0o14 => aAndNotB
  | 0o15 => notB
  | 0o16 => spareAnd
  | _ => nand

/-- The selection's name in serialized data. -/
def name : BoxFunction → String
  | and => "And"
  | eqv => "Eqv"
  | passB => "PassB"
  | notAOrB => "NotAOrB"
  | passA => "PassA"
  | aOrNotB => "AOrNotB"
  | or => "Or"
  | ones => "Ones"
  | zero => "Zero"
  | nor => "Nor"
  | notAAndB => "NotAAndB"
  | spareNotB => "Code13"
  | aAndNotB => "AAndNotB"
  | notB => "NotB"
  | spareAnd => "Code16"
  | nand => "Nand"

/-- The selected function on the significant bits of two words. -/
def apply (f : BoxFunction) (a b : Word) : Word :=
  let a := a.trim
  let b := b.trim
  let notA := (~~~a).trim
  let notB := (~~~b).trim
  match f with
  | and | spareAnd => a &&& b
  | eqv => (~~~(a ^^^ b)).trim
  | passB => b
  | notAOrB => notA ||| b
  | passA => a
  | aOrNotB => a ||| notB
  | or => a ||| b
  | ones => Word.ones
  | zero => 0
  | nor => notA &&& notB
  | notAAndB => notA &&& b
  | aAndNotB => a &&& notB
  | spareNotB | .notB => notB
  | nand => notA ||| notB

/-- The function as a formula over the box's operands. -/
def formula : BoxFunction → BoxFormula
  | and | spareAnd => .and .a .b
  | eqv => .eqv .a .b
  | passB => .operand .b
  | notAOrB => .or .notA .b
  | passA => .operand .a
  | aOrNotB => .or .a .notB
  | or => .or .a .b
  | ones => .ones
  | zero => .zero
  | nor => .and .notA .notB
  | notAAndB => .and .notA .b
  | aAndNotB => .and .a .notB
  | spareNotB | notB => .operand .notB
  | nand => .or .notA .notB

/-- The listing text of the function on the registers called `a` and `b`. -/
def describe (f : BoxFunction) (a b : String) : String := f.formula.text a b

end BoxFunction

end MicroEngine
