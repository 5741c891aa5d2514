import MicroEngine.Json.Token
/-!
# Reading JSON texts

Tokens are read one after the other, with a stack of the containers that are still open, so that
values may nest to any depth.

* `Reader`: the state of the reading.
* `Json.ofTokens?`: the value of a list of tokens.
* `Json.parse?`: the value of a text.
-/

namespace MicroEngine.Json

/-- A container that is still open and waits for a value; what it holds so far is in reverse. -/
inductive Frame
  | array (items : List Json)
  | object (members : List (Option String × Json)) (key : Option String)

/-- What the reading waits for. -/
inductive Reader
  /-- A value. -/
  | value (stack : List Frame)
  /-- The first item of an array, or its end. -/
  | firstItem (stack : List Frame)
  /-- The first key of an object, or its end. -/
  | firstKey (stack : List Frame)
  /-- A key, after a comma. -/
  | key (members : List (Option String × Json)) (stack : List Frame)
  /-- The colon after a key. -/
  | colon (members : List (Option String × Json)) (key : Option String) (stack : List Frame)
  /-- A comma or the end of an array. -/
  | afterItem (items : List Json) (stack : List Frame)
  /-- A comma or the end of an object. -/
  | afterMember (members : List (Option String × Json)) (stack : List Frame)
  /-- Nothing more. -/
  | done (value : Json)

namespace Reader

/-- A value is complete: it goes into the innermost container. -/
def deliver (j : Json) : List Frame → Reader
  | [] => done j
  | .array items :: stack => afterItem (j :: items) stack
  | .object members k :: stack => afterMember ((k, j) :: members) stack

def stepValue (stack : List Frame) : Token → Option Reader
  | .null => some (deliver .null stack)
  | .bool b => some (deliver (.bool b) stack)
  | .number n => some (deliver (.number n) stack)
  | .string s => some (deliver (.string s) stack)
  | .openArray => some (firstItem stack)
  | .openObject => some (firstKey stack)
  | _ => none

def step (r : Reader) (t : Token) : Option Reader :=
  match r, t with
  | value stack, t => stepValue stack t
  | firstItem stack, .closeArray => some (deliver (.array []) stack)
  | firstItem stack, t => stepValue (.array [] :: stack) t
  | firstKey stack, .closeObject => some (deliver (.object []) stack)
  | firstKey stack, .string k => some (colon [] k stack)
  | key members stack, .string k => some (colon members k stack)
  | colon members k stack, .colon => some (value (.object members k :: stack))
  | afterItem items stack, .comma => some (value (.array items :: stack))
  | afterItem items stack, .closeArray => some (deliver (.array items.reverse) stack)
  | afterMember members stack, .comma => some (key members stack)
  | afterMember members stack, .closeObject => some (deliver (.object members.reverse) stack)
  | _, _ => none

/-- The value, if the reading is complete. -/
def result? : Reader → Option Json
  | done j => some j
  | _ => none

end Reader

def ofTokens? (ts : List Token) : Option Json :=
  (ts.foldlM Reader.step (.value [])).bind Reader.result?

/-- The value of a text. -/
def parse? (s : String) : Option Json := (tokens? s.toList).bind ofTokens?

end MicroEngine.Json
