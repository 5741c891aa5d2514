import MicroEngine.Configuration
import MicroEngine.Diagnostic
import MicroEngine.Engine
import MicroEngine.Image
/-!
# The machine

All six micro-engines exist; one iteration runs a microcycle on every enabled unit, in scheduling
order.

* `Machine`: the units, the breakpoints, the bootstrap switch and the count of iterations.
* `Machine.bootstrap`: the reset switch.
* `Machine.ofConfig`: a machine from a configuration and its images.
* `Machine.step`: one iteration; a unit that fails ends it, and the units before it have moved.
* `Machine.breakpointHit?`: the first enabled unit on a breakpoint.
-/

namespace MicroEngine

/-- A unit with its engine, and whether it takes part in scheduling. -/
structure Slot where
  engine : Engine
  enabled : Bool
  deriving DecidableEq

/-- A micro address of a unit at which a run stops. -/
structure Breakpoint where
  unit : UnitId
  address : Address
  deriving DecidableEq, Repr

namespace Breakpoint

/-- Scheduling order of the units, then order of the addresses. -/
def isBefore (b c : Breakpoint) : Bool :=
  b.unit.index < c.unit.index || (b.unit == c.unit && b.address < c.address)

/-- A breakpoint put into its place in a sorted list, unless it is there already. -/
def insertInto (b : Breakpoint) : List Breakpoint → List Breakpoint
  | [] => [b]
  | c :: cs =>
    if b = c then c :: cs
    else if b.isBefore c then b :: c :: cs
    else c :: insertInto b cs

end Breakpoint

/-- The whole machine. -/
structure Machine where
  slots : UnitMap Slot
  /-- The breakpoints, in order and each of them once. -/
  breakpoints : List Breakpoint
  /-- Whether bootstrap loads the diagnostic into CPU0. -/
  preloadDiagnostic : Bool
  /-- Iterations since the last bootstrap. The count has no bound; the overflow of a counter of
  64 bits is left out. -/
  iterations : Nat
  deriving DecidableEq

/-- Why an image cannot be loaded. -/
inductive ImageError
  | unreadable (path : String) (cause : FileError)
  | malformed (cause : ImageSyntaxError)
  deriving DecidableEq, Repr

def ImageError.message : ImageError → String
  | .unreadable path cause => "I/O error: " ++ path ++ ": " ++ cause.message
  | .malformed cause => cause.message

/-- The control store of the image in a file. -/
def Image.load (read : String → Except FileError String) (path : String) :
    Except ImageError ControlStore :=
  match read path with
  | .error cause => .error (.unreadable path cause)
  | .ok text =>
    match Image.parse text with
    | .error cause => .error (.malformed cause)
    | .ok store => .ok store

/-- Why a machine cannot be built. -/
inductive BuildError
  | config (cause : ConfigurationError)
  | image (unit : UnitId) (cause : ImageError)
  deriving DecidableEq, Repr

def BuildError.message : BuildError → String
  | .config cause => cause.message
  | .image u cause => u.name ++ ": " ++ cause.message

/-- A unit that could not carry out its microcycle. -/
structure UnitFault where
  unit : UnitId
  /-- The micro address before the cycle. -/
  address : Address
  cause : OpcodeError
  deriving DecidableEq, Repr

def UnitFault.message (f : UnitFault) : String :=
  f.unit.name ++ " at " ++ Text.octal4 f.address.toNat ++ ": " ++ f.cause.message

namespace Machine

/-! ## Units -/

def engine (m : Machine) (u : UnitId) : Engine := (m.slots.get u).engine

def setEngine (m : Machine) (u : UnitId) (e : Engine) : Machine :=
  { m with slots := m.slots.set u { m.slots.get u with engine := e } }

/-- Whether a unit takes part in scheduling. -/
def isEnabled (m : Machine) (u : UnitId) : Bool := (m.slots.get u).enabled

/-- Let a unit take part in scheduling, or not. -/
def setEnabled (m : Machine) (u : UnitId) (enabled : Bool) : Machine :=
  { m with slots := m.slots.set u { m.slots.get u with enabled := enabled } }

/-- The units that take part in scheduling, in order. -/
def enabledUnits (m : Machine) : List UnitId := UnitId.all.filter m.isEnabled

/-- Set the bootstrap switch, which counts at the next bootstrap. -/
def setPreload (m : Machine) (preload : Bool) : Machine := { m with preloadDiagnostic := preload }

/-! ## Bootstrap -/

/-- The machine with its diagnostic in CPU0's control store, if the switch is on. -/
def preload (m : Machine) : Machine :=
  if m.preloadDiagnostic then m.setEngine .cpu0 { m.engine .cpu0 with store := Diagnostic.store }
  else m

/-- The machine with a function applied to every engine. -/
def mapEngines (f : Engine → Engine) (m : Machine) : Machine :=
  { m with slots := m.slots.map fun s => { s with engine := f s.engine } }

/-- The reset switch: zero every unit, load the diagnostic into CPU0 if the switch is on, and let
every unit latch its first microword. -/
def bootstrap (m : Machine) : Machine :=
  { ((m.mapEngines Engine.reset).preload.mapEngines Engine.prime) with iterations := 0 }

/-- The machine of a configuration, with empty control stores and before its first bootstrap. -/
def unbooted (c : Configuration) : Machine where
  slots := UnitMap.ofFn fun u => ⟨.fresh, c.isEnabled u⟩
  breakpoints := []
  preloadDiagnostic := c.preloadDiagnostic
  iterations := 0

def reference : Machine := (unbooted .reference).bootstrap

/-- Load the images that a configuration names for the units of a list. -/
def loadImages (read : String → Except FileError String) (c : Configuration) :
    List UnitId → Machine → Except BuildError Machine
  | [], m => .ok m
  | u :: us, m =>
    match c.image? u with
    | none => loadImages read c us m
    | some path =>
      match Image.load read path with
      | .error cause => .error (.image u cause)
      | .ok store => loadImages read c us (m.setEngine u { m.engine u with store := store })

/-- The machine of a configuration, with its images loaded in scheduling order. -/
def ofConfig (read : String → Except FileError String) (c : Configuration) :
    Except BuildError Machine :=
  (loadImages read c UnitId.all (unbooted c)).map bootstrap

/-! ## Breakpoints -/

def hasBreakpoint (m : Machine) (b : Breakpoint) : Bool := b ∈ m.breakpoints

def addBreakpoint (m : Machine) (b : Breakpoint) : Machine :=
  { m with breakpoints := b.insertInto m.breakpoints }

def removeBreakpoint (m : Machine) (b : Breakpoint) : Machine :=
  { m with breakpoints := m.breakpoints.filter (· ≠ b) }

/-- Set a breakpoint that is not set, or remove one that is. -/
def toggleBreakpoint (m : Machine) (b : Breakpoint) : Machine :=
  if m.hasBreakpoint b then m.removeBreakpoint b else m.addBreakpoint b

def clearBreakpoints (m : Machine) : Machine := { m with breakpoints := [] }

def position (m : Machine) (u : UnitId) : Breakpoint := ⟨u, (m.engine u).registers.address⟩

/-- The breakpoint that the first enabled unit on a breakpoint sits on. -/
def breakpointHit? (m : Machine) : Option Breakpoint :=
  (m.enabledUnits.map m.position).find? m.hasBreakpoint

/-! ## Scheduling -/

/-- A microcycle on every enabled unit of a list, in order. The first unit that fails ends it. -/
def stepUnits : List UnitId → Machine →
    Machine × Except UnitFault (List (UnitId × CycleReport))
  | [], m => (m, .ok [])
  | u :: us, m =>
    if m.isEnabled u then
      match (m.engine u).step with
      | .error cause => (m, .error ⟨u, (m.engine u).registers.address, cause⟩)
      | .ok (report, e) =>
        let (m', rest) := stepUnits us (m.setEngine u e)
        (m', rest.map ((u, report) :: ·))
    else stepUnits us m

/-- One iteration. It counts only if no unit fails. -/
def step (m : Machine) : Machine × Except UnitFault (List (UnitId × CycleReport)) :=
  match stepUnits UnitId.all m with
  | (m', .ok reports) => ({ m' with iterations := m'.iterations + 1 }, .ok reports)
  | (m', .error fault) => (m', .error fault)

/-! ## Log -/

/-- What the next microcycles of a list of units log. -/
def stepUnitsLog (m : Machine) : List UnitId → List LogRecord
  | [] => []
  | u :: us =>
    if m.isEnabled u then
      let e := m.engine u
      match e.step with
      | .error _ => e.log u
      | .ok _ => e.log u ++ stepUnitsLog m us
    else stepUnitsLog m us

/-- What the next iteration logs. -/
def stepLog (m : Machine) : List LogRecord := m.stepUnitsLog UnitId.all

def bootstrapLog (m : Machine) : List LogRecord :=
  [⟨.debug, .machine, "bootstrap complete (diagnostic: " ++
    (if m.preloadDiagnostic then "true" else "false") ++ ")"⟩]

/-- What the loading of the images of a list of units logs. -/
def loadImagesLog (read : String → Except FileError String) (c : Configuration) :
    List UnitId → List LogRecord
  | [] => (unbooted c).bootstrapLog
  | u :: us =>
    match c.image? u with
    | none => loadImagesLog read c us
    | some path =>
      match Image.load read path with
      | .error _ => []
      | .ok _ => ⟨.info, .machine, u.name ++ ": loaded " ++ path⟩ :: loadImagesLog read c us

/-- What the building of a machine logs. -/
def ofConfigLog (read : String → Except FileError String) (c : Configuration) : List LogRecord :=
  loadImagesLog read c UnitId.all

/-! ## Snapshot -/

def unitJson (m : Machine) (u : UnitId) : Json :=
  .record [("unit", .text u.name), ("enabled", .bool (m.isEnabled u)),
    ("cycles", .nat (m.engine u).cycles), ("state", (m.engine u).registers.toJson)]

/-- The JSON value of the machine: its iterations and the registers of every unit. -/
def snapshot (m : Machine) : Json :=
  .record [("iterations", .nat m.iterations), ("units", .array (UnitId.all.map m.unitJson))]

end Machine

end MicroEngine
