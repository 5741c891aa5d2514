import MicroEngine.Image.Assignment
import MicroEngine.Microword.Disassembly
/-!
# Microcode images

An image is a text of assignments, one on a line. What follows `//` is a comment, and so is a line
that starts with `;`. What is never assigned is zero.

* `Image.statement`: a line without its comment.
* `Image.parse`: the control store of an image, or the first line that is wrong.
* `Image.format`: the image of a control store.
-/

namespace MicroEngine

/-- A line of an image that is no assignment, with its number, counted from one. -/
structure ImageSyntaxError where
  line : Nat
  cause : AssignmentError
  deriving DecidableEq, Repr

def ImageSyntaxError.message (e : ImageSyntaxError) : String :=
  "parse error on line " ++ Text.decimal e.line ++ ": " ++ e.cause.message

/-- The store with one component of one entry replaced. -/
def ControlStore.assign (r : ControlStore) (a : Assignment) : ControlStore :=
  r.write a.address ((r.read a.address).setComponent a.component a.value)

namespace Image

/-- The part of a line in front of the comment. -/
def beforeComment : List Char → List Char
  | '/' :: '/' :: _ => []
  | c :: cs => c :: beforeComment cs
  | [] => []

/-- The line without comment and without blanks around it. -/
def statement (line : List Char) : List Char := Text.trim (beforeComment line)

/-- Whether a line without comment and blanks holds nothing to read. -/
def isSilent (statement : List Char) : Bool :=
  statement.isEmpty || statement.head? == some ';'

/-- What a line says: nothing, an assignment, or something that is none. -/
def readLine (line : List Char) : Option (Except AssignmentError Assignment) :=
  let s := statement line
  if isSilent s then none else some (Assignment.read s)

/-- Carry out the lines of an image, the first of which has the number `number`. -/
def parseLines (number : Nat) (lines : List (List Char)) (r : ControlStore) :
    Except ImageSyntaxError ControlStore :=
  match lines with
  | [] => .ok r
  | line :: rest =>
    match readLine line with
    | none => parseLines (number + 1) rest r
    | some (.ok a) => parseLines (number + 1) rest (r.assign a)
    | some (.error cause) => .error ⟨number, cause⟩

def parse (text : String) : Except ImageSyntaxError ControlStore :=
  parseLines 1 (Text.lines text.toList) .empty

/-! ## Writing -/

/-- The assignments of the components of an entry that are not zero. -/
def assignments (address : Nat) (w : Microword) : List Assignment :=
  Component.all.filterMap fun c =>
    if w.component c = 0 then none else some ⟨address.toUInt16, c, w.component c⟩

/-- The lines of an entry: its assignments, the first of them with the listing as a comment. -/
def entryLines (address : Nat) (w : Microword) : List String :=
  match assignments address w with
  | [] => []
  | a :: rest => (a.text ++ "  // " ++ w.disassemble) :: rest.map Assignment.text

/-- The image of a control store. Only components that are not zero are written. -/
def format (r : ControlStore) : String :=
  let entries := r.populated
  let header := ["// BCC 500 microcode image",
    "// " ++ Text.decimal entries.length ++ " populated entries"]
  let body := entries.flatMap fun e => entryLines e.1 e.2
  String.join ((header ++ body).map (· ++ "\n"))

end Image

end MicroEngine
