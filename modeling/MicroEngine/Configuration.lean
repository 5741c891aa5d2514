import MicroEngine.FileStore
import MicroEngine.Json.Reader
import MicroEngine.Serialized
/-!
# Machine configurations

Every field of a configuration may be left out; the reference configuration preloads the diagnostic
and enables CPU0 and MSCH.

* `Configuration`, `UnitSettings`: a configuration and its entry for a unit.
* `Configuration.isEnabled`, `image?`, `setImage`: look-ups, and the change of an image path.
* `Configuration.ofJsonText`, `toJsonText`: a configuration from JSON and to JSON.
-/

namespace MicroEngine

structure UnitSettings where
  unit : UnitId
  /-- Whether the unit takes part in scheduling; the reference setting if left out. -/
  enabled : Option Bool
  /-- The path of the image for the unit's control store. -/
  image : Option String
  deriving DecidableEq, Repr

/-- The settings of the whole machine. -/
structure Configuration where
  /-- Load the diagnostic into CPU0 at bootstrap. -/
  preloadDiagnostic : Bool
  /-- How many iterations to run; no limit if left out. -/
  stepLimit : Option UInt64
  units : List UnitSettings
  deriving DecidableEq, Repr

/-- Why a configuration cannot be used. -/
inductive ConfigurationError
  | unreadable (path : String) (cause : FileError)
  /-- The text is no JSON, or no configuration. -/
  | malformed
  | duplicateUnit (unit : UnitId)
  deriving DecidableEq, Repr

def ConfigurationError.message : ConfigurationError → String
  | .unreadable path cause => "cannot read " ++ path ++ ": " ++ cause.message
  | .malformed => "invalid configuration"
  | .duplicateUnit u => "unit " ++ u.name ++ " listed more than once"

namespace Json

def stepCount (n : UInt64) : Json := .nat n.toNat

/-- The number of iterations that a value holds. -/
def stepCount? (j : Json) : Option UInt64 := (natBelow? UInt64.size j).map Nat.toUInt64

end Json

namespace UnitSettings

def toJson (c : UnitSettings) : Json :=
  .record [("unit", .text c.unit.name), ("enabled", (c.enabled.map Json.bool).getD .null),
    ("image", (c.image.map Json.text).getD .null)]

/-- The value of a field that may be missing or null. -/
def optional? {α : Type} (read : Json → Option α) : Option Json → Option (Option α)
  | none => some none
  | some j => Json.nullable? read j

/-- The settings of a JSON value; all but the unit may be missing. -/
def ofJson? (j : Json) : Option UnitSettings :=
  match Json.fields? ["unit", "enabled", "image"] j with
  | some [some unit, enabled, image] => do
    return {
      unit := ← UnitId.ofJson? unit
      enabled := ← optional? Json.bool? enabled
      image := ← optional? Json.text? image }
  | _ => none

end UnitSettings

namespace Configuration

def reference : Configuration := ⟨true, none, []⟩

/-- Whether a unit is enabled when the configuration does not say otherwise. -/
def isReferenceUnit (u : UnitId) : Bool := u == .cpu0 || u == .msch

def entry? (c : Configuration) (u : UnitId) : Option UnitSettings :=
  c.units.find? fun e => e.unit == u

/-- Whether a unit takes part in scheduling. -/
def isEnabled (c : Configuration) (u : UnitId) : Bool :=
  ((c.entry? u).bind UnitSettings.enabled).getD (isReferenceUnit u)

def image? (c : Configuration) (u : UnitId) : Option String := (c.entry? u).bind UnitSettings.image

/-- The entries with an image path set, in the first entry of the unit or in a new one at the
end. -/
def setEntryImage (u : UnitId) (path : String) : List UnitSettings → List UnitSettings
  | [] => [⟨u, none, some path⟩]
  | e :: es =>
    if e.unit = u then { e with image := some path } :: es else e :: setEntryImage u path es

def setImage (c : Configuration) (u : UnitId) (path : String) : Configuration :=
  { c with units := setEntryImage u path c.units }

/-- The unit of the first entry that repeats an earlier one, where `seen` are the units before. -/
def repeated? (seen : List UnitId) : List UnitSettings → Option UnitId
  | [] => none
  | e :: es => if e.unit ∈ seen then some e.unit else repeated? (e.unit :: seen) es

/-! ## JSON -/

/-- The names of the settings, in order. -/
def fieldNames : List String := ["preload_diagnostic", "step_limit", "units"]

def toJson (c : Configuration) : Json :=
  .record [("preload_diagnostic", .bool c.preloadDiagnostic),
    ("step_limit", (c.stepLimit.map Json.stepCount).getD .null),
    ("units", .array (c.units.map UnitSettings.toJson))]

def toJsonText (c : Configuration) : String := c.toJson.pretty

/-- The value of a field that may be missing. -/
def fieldOr? {α : Type} (read : Json → Option α) (default : α) : Option Json → Option α
  | none => some default
  | some j => read j

/-- The configuration of a JSON value. A missing setting is that of the reference configuration. -/
def ofJson? (j : Json) : Option Configuration :=
  match Json.fields? fieldNames j with
  | some [preload, limit, units] => do
    return {
      preloadDiagnostic := ← fieldOr? Json.bool? reference.preloadDiagnostic preload
      stepLimit := ← fieldOr? (Json.nullable? Json.stepCount?) reference.stepLimit limit
      units := ← fieldOr? (Json.list? UnitSettings.ofJson?) reference.units units }
  | _ => none

/-- The configuration, if no unit is listed twice. -/
def validated (c : Configuration) : Except ConfigurationError Configuration :=
  match repeated? [] c.units with
  | some u => .error (.duplicateUnit u)
  | none => .ok c

def ofJsonText (text : String) : Except ConfigurationError Configuration :=
  match (Json.parse? text).bind ofJson? with
  | some c => c.validated
  | none => .error .malformed

def load (read : String → Except FileError String) (path : String) :
    Except ConfigurationError Configuration :=
  match read path with
  | .ok text => ofJsonText text
  | .error cause => .error (.unreadable path cause)

end Configuration

end MicroEngine
