import MicroEngine.Json
/-!
# Reading values out of JSON values

* `natBelow?`, `bool?`, `text?`, `list?`, `nullable?`: values of one kind.
* `choice?`: one of several names, written as a string or as the key of a null member.
* `fields?`: the fields of a record, written as an object or as a list in the order of the fields.
-/

namespace MicroEngine.Json

def natBelow? (bound : Nat) : Json → Option Nat
  | .number (some n) => if n < bound then some n else none
  | _ => none

def bool? : Json → Option Bool
  | .bool b => some b
  | _ => none

def text? : Json → Option String
  | .string s => s
  | _ => none

/-- A value that may be null. -/
def nullable? {α : Type} (read : Json → Option α) : Json → Option (Option α)
  | .null => some none
  | j => (read j).map some

/-- A list of values of one kind. -/
def list? {α : Type} (read : Json → Option α) : Json → Option (List α)
  | .array items => items.mapM read
  | _ => none

/-- A list of exactly `n` values of one kind. -/
def vector? {α : Type} (n : Nat) (read : Json → Option α) (j : Json) : Option (Vector α n) := do
  let items ← list? read j
  if h : items.toArray.size = n then some ⟨items.toArray, h⟩ else none

/-- The value in `all` whose name is written as a string or as the only key of an object, with the
value null. -/
def choice? {α : Type} (all : List α) (name : α → String) (j : Json) : Option α :=
  let find (s : String) := all.find? fun a => name a == s
  match j with
  | .string (some s) => find s
  | .object [(some s, .null)] => find s
  | _ => none

/-- The members of an object, whose keys all have to be proper text. -/
def properMembers? (members : List (Option String × Json)) : Option (List (String × Json)) :=
  members.mapM fun m => m.1.map fun k => (k, m.2)

/-- Whether every one of the names is the key of one member at most. -/
def areSingle (names : List String) (members : List (String × Json)) : Bool :=
  names.all fun name => (members.filter fun m => m.1 == name).length ≤ 1

/-- The fields of a record, in the order of their names; `none` stands for a field that is missing.
The members of an object are found by their keys, and other keys are skipped; the items of a list
stand for the fields in order, and there may not be too many. -/
def fields? (names : List String) : Json → Option (List (Option Json))
  | .object members => do
    let members ← properMembers? members
    if areSingle names members then
      some (names.map fun name => (members.find? fun m => m.1 == name).map Prod.snd)
    else none
  | .array items =>
    if items.length ≤ names.length then
      some (items.map some ++ List.replicate (names.length - items.length) none)
    else none
  | _ => none

end MicroEngine.Json
