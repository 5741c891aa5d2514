import MicroEngine.Cycle
import MicroEngine.UnitId
import MicroEngine.Json.Decode
/-!
# Serialized registers

The JSON forms of the registers and of their parts. Numbers are taken as they are, so that registers
may come back with bits that they do not have in the machine.

* `Microword.toJson`, `Registers.toJson`, `RegisterLoad.toJson`: the JSON value of a value.
* `Microword.ofJson?`, `Registers.ofJson?`, `RegisterLoad.ofJson?`: the value of a JSON value.
-/

namespace MicroEngine

namespace Json

def word (w : UInt32) : Json := .nat w.toNat

/-- The 32-bit number that a value holds. -/
def word? (j : Json) : Option UInt32 := (natBelow? UInt32.size j).map Nat.toUInt32

def address (a : UInt16) : Json := .nat a.toNat

/-- The 16-bit number that a value holds. -/
def address? (j : Json) : Option UInt16 := (natBelow? UInt16.size j).map Nat.toUInt16

end Json

/-- The unit with the name that a value holds. -/
def UnitId.ofJson? : Json → Option UnitId := Json.choice? all name

/-- The stage with the name that a value holds. -/
def Stage.ofJson? : Json → Option Stage := Json.choice? all name

namespace Microword

def toJson (w : Microword) : Json :=
  .record [("words", .array (w.components.map Json.word))]

/-- The microword of a list of three numbers. -/
def ofWords? (j : Json) : Option Microword :=
  match Json.list? Json.word? j with
  | some [high, middle, low] => some ⟨high, middle, low⟩
  | _ => none

def ofJson? (j : Json) : Option Microword :=
  match Json.fields? ["words"] j with
  | some [some words] => ofWords? words
  | _ => none

end Microword

namespace Registers

/-- The names of the registers in serialized states, in order. -/
def fieldNames : List String := ["o", "os", "m", "q", "z", "r", "sp", "i", "stage"]

/-- The JSON value of a state. -/
def toJson (s : Registers) : Json :=
  .record [("o", .address s.address), ("os", .address s.saved), ("m", .word s.m), ("q", .word s.q),
    ("z", .word s.z), ("r", .array (s.holding.toList.map Json.word)),
    ("sp", .array (s.scratchpad.toList.map Json.word)), ("i", s.latch.toJson),
    ("stage", .text s.stage.name)]

/-- The state of a JSON value. Every register has to be there; the scratchpad may have any number of
words. -/
def ofJson? (j : Json) : Option Registers :=
  match Json.fields? fieldNames j with
  | some [some o, some os, some m, some q, some z, some r, some sp, some i, some stage] => do
    return {
      address := ← Json.address? o
      saved := ← Json.address? os
      m := ← Json.word? m
      q := ← Json.word? q
      z := ← Json.word? z
      holding := ← Json.vector? 7 Json.word? r
      scratchpad := (← Json.list? Json.word? sp).toArray
      latch := ← Microword.ofJson? i
      stage := ← Stage.ofJson? stage }
  | _ => none

end Registers

namespace RegisterLoad

/-- The JSON value of an indexed register load. -/
def indexedJson (index : Nat) (value : Word) : Json :=
  .record [("index", .nat index), ("value", .word value)]

/-- The JSON value of a register load: an object whose only key names the register. -/
def toJson : RegisterLoad → Json
  | .m v => .record [("M", .word v)]
  | .q v => .record [("Q", .word v)]
  | .z v => .record [("Z", .word v)]
  | .holding i v => .record [("Holding", indexedJson i v)]
  | .scratchpad i v => .record [("Scratchpad", indexedJson i v)]

/-- The index and the value of an indexed register load. -/
def indexed? (make : Nat → Word → RegisterLoad) (j : Json) : Option RegisterLoad :=
  match Json.fields? ["index", "value"] j with
  | some [some index, some value] => do
    return make (← Json.natBelow? UInt8.size index) (← Json.word? value)
  | _ => none

def ofJson? : Json → Option RegisterLoad
  | .object [(some "M", v)] => (Json.word? v).map .m
  | .object [(some "Q", v)] => (Json.word? v).map .q
  | .object [(some "Z", v)] => (Json.word? v).map .z
  | .object [(some "Holding", v)] => indexed? .holding v
  | .object [(some "Scratchpad", v)] => indexed? .scratchpad v
  | _ => none

end RegisterLoad

end MicroEngine
