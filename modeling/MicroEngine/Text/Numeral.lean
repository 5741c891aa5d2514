/-!
# Numerals

* `octal`, `decimal`: the shortest numeral of a number.
* `octalPad`: an octal numeral filled up with leading zeros.
* `align`: a text filled up with blanks to a width.
-/

namespace MicroEngine.Text

def octal (n : Nat) : String := String.ofList (Nat.toDigits 8 n)

def decimal (n : Nat) : String := String.ofList (Nat.toDigits 10 n)

/-- The decimal numeral of an integer, with a minus sign in front of a negative one. -/
def decimalInt : Int → String
  | .ofNat n => decimal n
  | .negSucc n => "-" ++ decimal (n + 1)

/-- An octal numeral with zeros in front, at least `width` digits long. -/
def octalPad (width n : Nat) : String :=
  String.ofList ((Nat.toDigits 8 n).leftpad width '0')

/-- The two octal digits in which codes and scratchpad indices are shown. -/
def octal2 (n : Nat) : String := octalPad 2 n

/-- The four octal digits in which micro addresses are shown. -/
def octal4 (n : Nat) : String := octalPad 4 n

/-- The eight octal digits in which machine words are shown. -/
def octal8 (n : Nat) : String := octalPad 8 n

/-! ## Alignment -/

/-- The side of a field on which a text stands. -/
inductive Side
  | left
  | right
  | centre
  deriving DecidableEq, Repr

/-- The text filled up with blanks to `width` characters; a longer text is left as it is. A text in
the centre has the odd blank on its right. -/
def align (side : Side) (width : Nat) (text : String) : String :=
  let fill := width - text.length
  let blanks (n : Nat) := String.ofList (List.replicate n ' ')
  match side with
  | .left => text ++ blanks fill
  | .right => blanks fill ++ text
  | .centre => blanks (fill / 2) ++ text ++ blanks (fill - fill / 2)

end MicroEngine.Text
