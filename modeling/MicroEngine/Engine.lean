import MicroEngine.ControlStore
import MicroEngine.Cycle
import MicroEngine.UnitId
/-!
# A micro-engine

* `Engine`: registers, control store and a count of completed cycles.
* `Engine.prime`: latch the first microword, as on coming out of reset.
* `Engine.step`: one microcycle, with a `CycleReport`; an engine that fails stays as it was.
* `Engine.log`: what a microcycle logs.
-/

namespace MicroEngine

/-- A micro-engine. -/
structure Engine where
  registers : Registers
  store : ControlStore
  /-- Completed cycles since the last reset. The count has no bound; the overflow of a counter of
  64 bits is left out. -/
  cycles : Nat
  deriving DecidableEq

/-- What happened in one microcycle. -/
structure CycleReport where
  /-- The stage that the cycle ran in. -/
  stage : Stage
  /-- The micro address at the start of the cycle. -/
  address : Address
  /-- The microword that was executed. -/
  microword : Microword
  x : Word
  y : Word
  /-- The output of the left boolean box. -/
  leftBox : Word
  /-- Whether the branch condition held. -/
  branch : Bool
  /-- Whether register loads were committed. -/
  committed : Bool
  /-- The register loads, in order. -/
  loads : List RegisterLoad
  deriving DecidableEq, Repr

namespace Engine

/-- An engine with zero registers and an empty control store. -/
def fresh : Engine := ⟨.zero, .empty, 0⟩

/-- Zero the registers and the cycle count; the control store stays. -/
def reset (e : Engine) : Engine := { e with registers := .zero, cycles := 0 }

/-- Latch the microword at the micro address and advance the address. -/
def prime (e : Engine) : Engine :=
  { e with registers := (e.registers.setLatch (e.store.read e.registers.address)).advance }

/-- The report of a cycle that starts in the state `s` with the signals `sig`. -/
def report (s : Registers) (sig : Signals) : CycleReport where
  stage := s.stage
  address := s.address
  microword := s.latch
  x := sig.x
  y := sig.y
  leftBox := sig.box
  branch := sig.branch
  committed := s.commits sig
  loads := if s.commits sig then s.reportedLoads (s.loaded sig) else []

def step (e : Engine) : Except OpcodeError (CycleReport × Engine) := do
  let sig ← e.registers.signals
  return (report e.registers sig,
    { e with registers := e.registers.finish sig e.store.read, cycles := e.cycles + 1 })

def debugText (u : UnitId) (e : Engine) : String :=
  "Engine \x7b id: " ++ u.capitalName ++ ", cycles: " ++ Text.decimal e.cycles ++ ", state: " ++
    e.registers.debugText ++ " \x7d"

end Engine

/-! ## Log -/

/-- The device name in the first column of a log line. -/
def UnitId.column (u : UnitId) : String := Text.align .left 4 u.name ++ " "

namespace CycleReport

/-- The line of a cycle: unit, stage, address, microword, and a mark when the jump was taken. -/
def line (u : UnitId) (r : CycleReport) : String :=
  u.column ++ r.stage.letter ++ " " ++ Text.octal4 r.address.toNat ++ ": " ++ r.microword.text ++
    if r.branch then " BR" else ""

/-- The line of the buses, for a cycle that committed its loads. -/
def busLine? (r : CycleReport) : Option String :=
  if r.committed then
    some ("X " ++ Text.octal8 r.x.toNat ++ " Y " ++ Text.octal8 r.y.toNat)
  else none

/-- The register whose load was dropped because it is not fitted. -/
def droppedRegister? (r : CycleReport) : Option Nat :=
  let register := r.microword.loadRegister
  if r.committed && (r.microword.has .txw || r.microword.has .tyw) &&
      !Registers.isFitted register then
    some register
  else none

def log (u : UnitId) (r : CycleReport) : List LogRecord :=
  let stateLine (text : String) : LogRecord := ⟨.debug, .state, u.column ++ text⟩
  let dropped := r.droppedRegister?.map fun register =>
    "R" ++ Text.decimal register ++ " not fitted, write dropped"
  dropped.toList.map stateLine ++
    [⟨.trace, .trace, r.line u⟩] ++
    r.busLine?.toList.map stateLine ++
    r.loads.map fun l => stateLine l.text

end CycleReport

/-- What the next microcycle of a unit's engine logs. Device requests are logged as they are found,
so those of a cycle that fails on its condition are logged too. -/
def Engine.log (u : UnitId) (e : Engine) : List LogRecord :=
  let w := e.registers.latch
  match SpecialFunction.decode w.special with
  | .error _ => []
  | .ok _ =>
    SpecialFunction.log w.special ++ BranchCondition.log w.condition ++
      match e.step with
      | .error _ => []
      | .ok (r, _) => r.log u

end MicroEngine
