import MicroEngine.BooleanBox
import MicroEngine.BranchCondition
import MicroEngine.SpecialFunction
import MicroEngine.ControlStore
/-!
# Listings

A microword is listed by its fields in a fixed order, zero fields left out: `.MC = 20, .MCONT = 1,
.B = 100`. Numbers are octal.

* `Clause`: one field or flag of a listing, `Clause.text` its text.
* `Microword.clauses`, `Microword.disassemble`: the listing of a microword.
* `Microword.annotate`: what the coded fields of a microword do.
* `ControlStore.listing`: the listing of a control store.
-/

namespace MicroEngine

def Field.mnemonic : Field → String
  | .condition => "MC"
  | .sequence => "MCONT"
  | .target => "B"
  | .constant => "C"
  | .scratchpad => "SSP"
  | .special => "MS"
  | .readRegister => "RRN"
  | .loadRegister => "LRN"
  | .leftBox => "BL"
  | .rightBox => "BR"

/-- One part of the listing of a microword. -/
inductive Clause
  /-- A field with its value. -/
  | field (f : Field) (value : UInt32)
  /-- A flag that is set. -/
  | flag (f : Flag)
  deriving DecidableEq, Repr

def Clause.text : Clause → String
  | .field f v => "." ++ f.mnemonic ++ " = " ++ Text.octal v.toNat
  | .flag f => "." ++ f.mnemonic

namespace Microword

/-- Whether a field is listed even if it is zero, because another part of the microword uses it. -/
def uses (w : Microword) : Field → Bool
  | .target => w.field .condition != 0
  | .constant => w.has .tcx || w.has .tcy
  | .readRegister => w.has .thy
  | .loadRegister => w.has .txw || w.has .tyw
  | .leftBox => w.has .tax
  | .rightBox => w.has .tax
  | _ => false

def fieldClause (w : Microword) (f : Field) : List Clause :=
  if w.field f != 0 || w.uses f then [.field f (w.field f)] else []

/-- The listing of a microword: the fields before the flags, the flags, the fields after them. The
zero microword is listed by its branch condition. -/
def clauses (w : Microword) : List Clause :=
  if w.isNop then [.field .condition 0]
  else
    [Field.condition, .sequence, .target, .constant].flatMap w.fieldClause ++
      w.flags.map .flag ++
      [Field.scratchpad, .special, .readRegister, .loadRegister, .leftBox, .rightBox].flatMap
        w.fieldClause

def disassemble (w : Microword) : String := ", ".intercalate (w.clauses.map Clause.text)

/-- What stands for a code that means nothing. -/
def unknownText : String := "??"

/-- What the coded fields of a microword do: the branch condition, the special function, the boolean
boxes. -/
def annotate (w : Microword) : String :=
  let note (isShown : Bool) (text : String) : List String := if isShown then [text] else []
  let box (code : UInt8) (a b : String) := (BoxFunction.ofCode code).describe a b
  "; ".intercalate <|
    note (w.condition != 0)
      ("if " ++ (BranchCondition.describe? w.condition).getD unknownText) ++
    note (w.special != 0) ((SpecialFunction.describe? w.special).getD unknownText) ++
    note (w.has .tax || w.leftBox != 0) ("BL = " ++ box w.leftBox "M" "Q") ++
    note (w.has .tax || w.rightBox != 0) ("BR = " ++ box w.rightBox "Z" "Q")

end Microword

/-- The listing of every populated entry of a control store. -/
def ControlStore.listing (r : ControlStore) : String :=
  let line (e : Nat × Microword) : String :=
    Text.octal4 e.1 ++ ": " ++ e.2.disassemble ++ "  ; " ++ e.2.text ++ "\n"
  "; BCC 500 microcode listing\n; -------------------------\n\n" ++
    String.join (r.populated.map line)

end MicroEngine
