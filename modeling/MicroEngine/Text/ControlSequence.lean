/-!
# Control sequences

Text that is meant for a terminal may hold control sequences: they begin with an escape character
and steer the terminal instead of being shown.

* `isText`: the characters that are shown or lay text out.
* `ControlSequence`: a control sequence that is not complete yet.
* `Reader`: what is known after a part of a text.
* `withoutControls`: a text without its control sequences and control characters.
-/

namespace MicroEngine.Text

/-- Whether a character lays text out. -/
def isLayout (c : Char) : Bool := c == '\t' || c == '\n' || c == '\x0c' || c == '\r'

/-- Whether a character is text: every character is, but for the control characters of the ASCII
range that do not lay text out. -/
def isText (c : Char) : Bool := (0x20 ≤ c.toNat && c.toNat != 0x7F) || isLayout c

/-- Whether a character lies outside the ASCII range. -/
def isWide (c : Char) : Bool := 0x80 ≤ c.toNat

/-- Whether the number of a character lies between two numbers. -/
def isBetween (first last : Nat) (c : Char) : Bool := first ≤ c.toNat && c.toNat ≤ last

/-- A control sequence that is not complete yet, by what has been read of it. -/
inductive ControlSequence
  /-- The escape character. -/
  | escape
  /-- An escape sequence of more than one character, of which the last one is missing. -/
  | escapeIntermediate
  /-- A function with its parameters; a letter completes it. -/
  | function
  /-- The mark of a string for a device. -/
  | deviceEntry
  /-- Parameters in front of a string for a device. -/
  | deviceParameters
  /-- What stands between the parameters and the string for a device. -/
  | deviceIntermediate
  /-- A string, which has an end of its own. -/
  | string
  /-- A command to the system, which a bell completes. -/
  | command
  deriving DecidableEq, Repr

namespace ControlSequence

/-- Whether layout inside a sequence is text all the same. -/
def admitsLayout : ControlSequence → Bool
  | escape | escapeIntermediate | function => true
  | deviceEntry | deviceParameters | deviceIntermediate | string | command => false

/-- What the character after the escape character begins, if it does not complete a sequence. -/
def ofIntroducer (c : Char) : Option ControlSequence :=
  if c = '[' then some function
  else if c = ']' then some command
  else if c = 'P' then some deviceEntry
  else if c = 'X' ∨ c = '^' ∨ c = '_' then some string
  else if isBetween 0x30 0x7E c then none
  else if isBetween 0x20 0x2F c then some escapeIntermediate
  else some escape

/-- The sequence after one more character, or none if the character completes it. An escape
character begins a new sequence, and the two cancelling characters end every one. -/
def next (s : ControlSequence) (c : Char) : Option ControlSequence :=
  if c = '\x1b' then some escape
  else if c = '\x18' ∨ c = '\x1a' then none
  else
    match s with
    | escape => ofIntroducer c
    | escapeIntermediate => if isBetween 0x30 0x7E c then none else some s
    | function => if isBetween 0x40 0x7E c then none else some s
    | deviceEntry =>
      if isBetween 0x40 0x7E c then some string
      else if isBetween 0x30 0x3F c then some deviceParameters
      else if isBetween 0x20 0x2F c then some deviceIntermediate
      else some s
    | deviceParameters =>
      if isBetween 0x3C 0x7E c then some string
      else if isBetween 0x20 0x2F c then some deviceIntermediate
      else some s
    | deviceIntermediate => if isBetween 0x30 0x7E c then some string else some s
    | string => if (String.utf8EncodeChar c).contains 0x9C then none else some s
    | command => if c = '\x07' then none else some s

end ControlSequence

/-- What is known after a part of a text. -/
structure Reader where
  /-- The control sequence that is not complete yet. -/
  sequence : Option ControlSequence
  /-- Whether the last character was text. -/
  inText : Bool
  deriving DecidableEq, Repr

namespace Reader

/-- At the beginning of a text. -/
def start : Reader := ⟨none, true⟩

/-- Whether the next character is text. Layout interrupts a sequence that admits it; the text that
follows lasts until the next control character. -/
def isShown (r : Reader) (c : Char) : Bool :=
  if r.inText then isText c
  else
    match r.sequence with
    | none => isText c
    | some s => s.admitsLayout && isLayout c

/-- After one more character. A sequence that text has interrupted goes on after it, unless a
character outside the ASCII range was among that text. -/
def next (r : Reader) (c : Char) : Reader :=
  if r.isShown c then ⟨if isWide c then none else r.sequence, true⟩
  else
    match r.sequence with
    | none => ⟨if c = '\x1b' then some .escape else none, false⟩
    | some s => ⟨s.next c, false⟩

def text (r : Reader) : List Char → List Char
  | [] => []
  | c :: cs => if r.isShown c then c :: (r.next c).text cs else (r.next c).text cs

end Reader

/-- The text without its control sequences and control characters. -/
def withoutControls (text : String) : String := String.ofList (Reader.start.text text.toList)

end MicroEngine.Text
