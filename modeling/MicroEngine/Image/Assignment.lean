import MicroEngine.Microword
import MicroEngine.Text.Blank
/-!
# Assignments in a microcode image

A microcode image assigns components of microwords one by one:
`ROM[0100][1] = 07777240000;`. All numbers are octal.

* `Assignment`: an entry, a component and its value.
* `AssignmentError`: why a text is no assignment, `AssignmentError.message` in words.
* `readOctal`: an octal number, with an optional `0o` and an optional `+` in front.
* `Assignment.read`: an assignment from its text.
-/

namespace MicroEngine

/-- The assignment of one component of one entry. -/
structure Assignment where
  /-- The address of the entry, below 2048. -/
  address : UInt16
  component : Component
  /-- The value, of 30 bits. -/
  value : UInt32
  deriving DecidableEq, Repr

/-- Why a text is no assignment. -/
inductive AssignmentError
  /-- The text does not begin as an assignment does. -/
  | noStore (found : String)
  | unclosedAddress
  | noComponent
  | unclosedComponent
  | noEquals
  /-- A number is empty. -/
  | missingNumber
  /-- A number is not octal, or does not fit into 32 bits. -/
  | invalidNumber (found : String)
  | addressTooLarge (address : Nat)
  | componentTooLarge (component : Nat)
  | valueTooWide (value : Nat)
  deriving DecidableEq, Repr

def AssignmentError.message : AssignmentError → String
  | .noStore found => "expected `ROM[`, found `" ++ found ++ "`"
  | .unclosedAddress => "missing `]` after address"
  | .noComponent => "expected `[` before component index"
  | .unclosedComponent => "missing `]` after component index"
  | .noEquals => "expected `=`"
  | .missingNumber => "missing number"
  | .invalidNumber found => "invalid octal number `" ++ found ++ "`"
  | .addressTooLarge a => "address " ++ Text.octal a ++ " outside the control store"
  | .componentTooLarge c => "component index " ++ Text.decimal c ++ " out of range"
  | .valueTooWide v => "value " ++ Text.octal v ++ " wider than 30 bits"

/-! ## Octal numbers -/

def isOctalDigit (c : Char) : Bool := '0' ≤ c && c ≤ '7'

/-- The number that octal digits stand for. -/
def octalValue (digits : List Char) : Nat :=
  digits.foldl (fun n c => 8 * n + (c.toNat - '0'.toNat)) 0

/-- The number of a text of octal digits with an optional plus sign, if it fits into 32 bits. -/
def octalDigits? (cs : List Char) : Option Nat :=
  let digits := if cs.head? == some '+' then cs.tail else cs
  if digits ≠ [] && digits.all isOctalDigit && octalValue digits < UInt32.size then
    some (octalValue digits)
  else none

/-- The text without an octal mark in front. -/
def dropOctalMark : List Char → List Char
  | '0' :: 'o' :: rest => rest
  | cs => cs

/-- The octal number of a text, which may have blanks around it and an octal mark in front. -/
def readOctal (cs : List Char) : Except AssignmentError Nat :=
  let trimmed := Text.trim cs
  let digits := dropOctalMark trimmed
  if digits = [] then .error .missingNumber
  else
    match octalDigits? digits with
    | some n => .ok n
    | none => .error (.invalidNumber (String.ofList trimmed))

/-! ## Reading -/

namespace Assignment

/-- The three numerals of an assignment, as they are written. -/
structure Parts where
  address : List Char
  component : List Char
  value : List Char

/-- What follows `ROM[` at the beginning of a text. -/
def afterStore? : List Char → Option (List Char)
  | 'R' :: 'O' :: 'M' :: '[' :: rest => some rest
  | _ => none

/-- What follows the character `c` at the beginning of a text, which may have blanks in front. -/
def afterMark? (c : Char) (cs : List Char) : Option (List Char) :=
  match Text.trimStart cs with
  | d :: rest => if d = c then some rest else none
  | [] => none

/-- The value of an assignment without the blanks and semicolons around it. -/
def trimValue (cs : List Char) : List Char :=
  Text.trimEnd (Text.dropEndWhile (· == ';') (Text.trim cs))

def parts (cs : List Char) : Except AssignmentError Parts := do
  let some rest := afterStore? cs | .error (.noStore (String.ofList cs))
  let some (address, rest) := Text.splitAt? ']' rest | .error .unclosedAddress
  let some rest := afterMark? '[' rest | .error .noComponent
  let some (component, rest) := Text.splitAt? ']' rest | .error .unclosedComponent
  let some rest := afterMark? '=' rest | .error .noEquals
  return ⟨address, component, trimValue rest⟩

def readAddress (cs : List Char) : Except AssignmentError UInt16 := do
  let n ← readOctal cs
  if n < 2048 then .ok n.toUInt16 else .error (.addressTooLarge n)

def readComponent (cs : List Char) : Except AssignmentError Component := do
  let n ← readOctal cs
  match Component.ofIndex? n with
  | some c => .ok c
  | none => .error (.componentTooLarge n)

def readValue (cs : List Char) : Except AssignmentError UInt32 := do
  let n ← readOctal cs
  if n < 0o10000000000 then .ok n.toUInt32 else .error (.valueTooWide n)

/-- The assignment that a text without blanks around it stands for. The shape is looked at before
the numbers, and the numbers from left to right. -/
def read (cs : List Char) : Except AssignmentError Assignment := do
  let p ← parts cs
  let address ← readAddress p.address
  let component ← readComponent p.component
  let value ← readValue p.value
  return ⟨address, component, value⟩

/-- The assignment as a line of an image. -/
def text (a : Assignment) : String :=
  "ROM[" ++ Text.octal4 a.address.toNat ++ "][" ++ Text.decimal a.component.index ++ "] = " ++
    Text.octalPad 11 a.value.toNat ++ ";"

end Assignment

end MicroEngine
