import MicroEngine.Text.Numeral
/-!
# JSON values

* `Json`: the values of JSON texts. Of a number only plain naturals are kept, of a string only those
  that are proper text; what else a JSON text can hold is kept as its kind alone.
* `Json.Layout`: where line breaks and blanks stand in a printed value.
* `Json.render`: the text of a value, `compact` and `pretty` the two layouts in use.
-/

namespace MicroEngine

inductive Json
  | null
  | bool (b : Bool)
  /-- A number; `none` for one that is not written as a plain natural number. -/
  | number (n : Option Nat)
  /-- A string; `none` for one with half of a surrogate pair in it. -/
  | string (s : Option String)
  | array (items : List Json)
  | object (members : List (Option String × Json))
  deriving Inhabited

namespace Json

def nat (n : Nat) : Json := .number (some n)

def text (s : String) : Json := .string (some s)

/-- The object with these members. -/
def record (members : List (String × Json)) : Json :=
  .object (members.map fun m => (some m.1, m.2))

/-! ## Printing -/

/-- The hexadecimal digit of a number below 16, in small letters. -/
def hexDigit (n : Nat) : Char := if n < 10 then Char.ofNat (n + 48) else Char.ofNat (n + 87)

/-- A character as it stands in a JSON string. -/
def escape (c : Char) : List Char :=
  if c = '"' then ['\\', '"']
  else if c = '\\' then ['\\', '\\']
  else if c = '\n' then ['\\', 'n']
  else if c = '\r' then ['\\', 'r']
  else if c = '\t' then ['\\', 't']
  else if c.toNat = 0x08 then ['\\', 'b']
  else if c.toNat = 0x0C then ['\\', 'f']
  else if c.toNat < 0x20 then
    ['\\', 'u', '0', '0', hexDigit (c.toNat / 16), hexDigit (c.toNat % 16)]
  else [c]

/-- A JSON string. What is no proper text is shown by half of a surrogate pair. -/
def quote : Option String → String
  | some s => "\"" ++ String.ofList (s.toList.flatMap escape) ++ "\""
  | none => "\"\\ud800\""

/-- Where blanks stand in a printed value. -/
structure Layout where
  /-- What stands in front of each item at a depth, and in front of the closing bracket. -/
  lineBreak : Nat → String
  /-- What stands between a key and its value beside the colon. -/
  afterColon : String

def Layout.compact : Layout := ⟨fun _ => "", ""⟩

/-- One item on a line, indented by two blanks for each depth. -/
def Layout.pretty : Layout :=
  ⟨fun depth => "\n" ++ String.ofList (List.replicate (2 * depth) ' '), " "⟩

mutual

/-- The text of a value that stands at a depth. -/
def render (l : Layout) (depth : Nat) : Json → String
  | .null => "null"
  | .bool true => "true"
  | .bool false => "false"
  | .number (some n) => Text.decimal n
  | .number none => "-0"
  | .string s => quote s
  | .array [] => "[]"
  | .array (j :: js) =>
    "[" ++ l.lineBreak (depth + 1) ++ render l (depth + 1) j ++ renderItems l (depth + 1) js ++
      l.lineBreak depth ++ "]"
  | .object [] => "\x7b\x7d"
  | .object ((k, j) :: ms) =>
    "\x7b" ++ l.lineBreak (depth + 1) ++ quote k ++ ":" ++ l.afterColon ++
      render l (depth + 1) j ++ renderMembers l (depth + 1) ms ++ l.lineBreak depth ++ "\x7d"

def renderItems (l : Layout) (depth : Nat) : List Json → String
  | [] => ""
  | j :: js => "," ++ l.lineBreak depth ++ render l depth j ++ renderItems l depth js

/-- The members of an object after the first one. -/
def renderMembers (l : Layout) (depth : Nat) : List (Option String × Json) → String
  | [] => ""
  | (k, j) :: ms =>
    "," ++ l.lineBreak depth ++ quote k ++ ":" ++ l.afterColon ++ render l depth j ++
      renderMembers l depth ms

end

/-- The text of a value without blanks. -/
def compact (j : Json) : String := render .compact 0 j

/-- The text of a value with one item on a line. -/
def pretty (j : Json) : String := render .pretty 0 j

end Json

end MicroEngine
