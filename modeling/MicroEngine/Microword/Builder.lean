import MicroEngine.Microword
/-!
# Building microwords field by field

* `Microword.setField`: one field replaced; a value too wide for its field is cut to the field.
* `Microword.setFlag`: one control flag set.
* `BuildStep`, `Microword.build`: a list of such settings, carried out on the zero microword.
-/

namespace MicroEngine

namespace Microword

def setField (w : Microword) (f : Field) (v : UInt32) : Microword :=
  match f with
  | .constant => (w.write Field.constantUpper (v >>> 12)).write Field.constantLower v
  | f => w.write f.span v

def setFlag (w : Microword) (f : Flag) : Microword := w.setBit f.bit

end Microword

/-- One setting in the making of a microword. -/
inductive BuildStep
  /-- Give a field a value. -/
  | field (f : Field) (value : UInt32)
  /-- Set a control flag. -/
  | flag (f : Flag)
  deriving DecidableEq, Repr

def BuildStep.apply (w : Microword) : BuildStep → Microword
  | .field f v => w.setField f v
  | .flag f => w.setFlag f

/-- The microword made by a list of settings, the later ones last. -/
def Microword.build (steps : List BuildStep) : Microword :=
  (steps.foldl BuildStep.apply .nop).trim

end MicroEngine
