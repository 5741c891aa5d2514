import MicroEngine.Machine.Run
/-!
# The debugger

* `Debugger`: the machine under the debugger, the unit on view and the status line.
* `Debugger.Key`, `Debugger.press`: the keys and what they do.
* `Debugger.tick`: a batch of iterations while the machine runs.
* `Debugger.disassembly`: the control store around the micro address of the unit on view.
-/

namespace MicroEngine

structure Debugger where
  machine : Machine
  /-- The unit on view. -/
  selected : UnitId
  /-- Whether the machine runs continuously. -/
  running : Bool
  /-- Whether the next batch resumes a run, and so may leave a breakpoint. -/
  resuming : Bool
  /-- Whether the debugger is to end. -/
  quit : Bool
  status : String
  /-- The first scratchpad word on view. -/
  scroll : Nat

namespace Debugger

def batch : Nat := 64

def start (m : Machine) : Debugger where
  machine := m
  selected := .cpu0
  running := false
  resuming := false
  quit := false
  status := "Ready. Press 's' to step, 'r' to run, 'q' to quit."
  scroll := 0

/-- The engine of the unit on view. -/
def engine (d : Debugger) : Engine := d.machine.engine d.selected

/-- Where the unit on view is. -/
def position (d : Debugger) : Breakpoint := d.machine.position d.selected

/-- A unit and an address as they stand in the status line. -/
def place (b : Breakpoint) : String := b.unit.name ++ " at " ++ Text.octal4 b.address.toNat

/-! ## Keys -/

/-- One iteration. The status line shows the microword that the unit on view has executed. -/
def step (d : Debugger) : Debugger :=
  match d.machine.step with
  | (m, .ok reports) =>
    let status :=
      match reports.find? fun r => r.1 == d.selected with
      | some (_, report) =>
        d.selected.name ++ " " ++ Text.octal4 d.engine.registers.address.toNat ++ ": " ++
          report.microword.disassemble
      | none => d.selected.name ++ " is disabled"
    { d with machine := m, status := status }
  | (m, .error fault) =>
    { d with machine := m, status := "Error: " ++ fault.message, running := false }

def run (d : Debugger) : Debugger :=
  { d with running := true, resuming := true, status := "Running..." }

def pause (d : Debugger) : Debugger :=
  { d with
    running := false
    status := "Paused after " ++ Text.decimal d.machine.iterations ++ " iterations." }

/-- The debugger stopped at a breakpoint; the unit on view stays. -/
def stopAt (d : Debugger) (b : Breakpoint) : Debugger :=
  { d with running := false, status := "Breakpoint: " ++ place b }

/-- The breakpoint at which the next batch stops before it begins. -/
def blockedBy? (d : Debugger) : Option Breakpoint :=
  if d.resuming then none else d.machine.breakpointHit?

def batchRun (d : Debugger) : RunEnd Unit := d.machine.runWithin Host.idle batch ()

/-- One batch of a continuous run. A breakpoint that is reached within the batch brings its unit on
view. -/
def tick (d : Debugger) : Debugger :=
  if !d.running then d
  else
    match d.blockedBy? with
    | some b => d.stopAt b
    | none =>
      let ended := d.batchRun
      let d' := { d with machine := ended.machine, resuming := false }
      match ended.outcome with
      | .ok (.breakpoint b) => { d'.stopAt b with selected := b.unit }
      | .ok _ => d'
      | .error cause => { d' with running := false, status := "Error: " ++ cause.message }

/-- Set or remove a breakpoint where the unit on view is. -/
def toggleBreakpoint (d : Debugger) : Debugger :=
  let b := d.position
  let m := d.machine.toggleBreakpoint b
  { d with
    machine := m
    status := (if m.hasBreakpoint b then "Set" else "Removed") ++ " breakpoint: " ++ place b }

/-- Bring the next unit on view. -/
def nextUnit (d : Debugger) : Debugger :=
  let u := d.selected.next
  { d with selected := u, scroll := 0, status := "Viewing " ++ u.name }

/-- Let the unit on view take part in scheduling, or not. -/
def toggleEnabled (d : Debugger) : Debugger :=
  let enabled := !d.machine.isEnabled d.selected
  { d with
    machine := d.machine.setEnabled d.selected enabled
    status := d.selected.name ++ if enabled then " enabled" else " disabled" }

/-- The machine with the bootstrap switch flipped; CPU0's control store is emptied when it is turned
off. -/
def flipPreload (m : Machine) : Machine :=
  let m' := m.setPreload (!m.preloadDiagnostic)
  if m'.preloadDiagnostic then m'
  else m'.setEngine .cpu0 { m'.engine .cpu0 with store := .empty }

/-- Flip the bootstrap switch and reset. -/
def toggleDiagnostic (d : Debugger) : Debugger :=
  let m := flipPreload d.machine
  { d with
    machine := m.bootstrap
    running := false
    status := "Reset with diagnostic " ++ (if m.preloadDiagnostic then "loaded" else "off") ++ "." }

def reset (d : Debugger) : Debugger :=
  { d with machine := d.machine.bootstrap, running := false, status := "Reset. Ready." }

/-- Move the view of the scratchpad up by one word. -/
def scrollUp (d : Debugger) : Debugger := { d with scroll := d.scroll - 1 }

/-- Move the view of the scratchpad down by one word; its last word stays on view. -/
def scrollDown (d : Debugger) : Debugger :=
  if d.scroll + 1 < Registers.scratchpadSize then { d with scroll := d.scroll + 1 } else d

inductive Key
  | step
  | run
  | pause
  | breakpoint
  | enable
  | reset
  | diagnostic
  | nextUnit
  | scrollUp
  | scrollDown
  | quit
  deriving DecidableEq, Repr

/-- What a key does. The step key ends a continuous run first. -/
def press (d : Debugger) : Key → Debugger
  | .step => { d with running := false }.step
  | .run => d.run
  | .pause => d.pause
  | .breakpoint => d.toggleBreakpoint
  | .enable => d.toggleEnabled
  | .reset => d.reset
  | .diagnostic => d.toggleDiagnostic
  | .nextUnit => d.nextUnit
  | .scrollUp => d.scrollUp
  | .scrollDown => d.scrollDown
  | .quit => { d with quit := true }

/-! ## Views -/

/-- A line of the view of the control store. -/
structure ListedWord where
  address : Nat
  text : String
  /-- Whether the unit on view is there. -/
  isCurrent : Bool
  deriving DecidableEq, Repr

/-- The control store around the micro address of the unit on view, cut to `lines` lines and to the
end of the store. -/
def disassembly (d : Debugger) (lines : Nat) : List ListedWord :=
  let current := d.engine.registers.address.toNat
  let first := current - lines / 2
  (List.range' first (min lines (2048 - first))).map fun a =>
    ⟨a, (d.engine.store.read a.toUInt16).disassemble, a == current⟩

/-! ## Log -/

def pressLog (d : Debugger) : Key → List LogRecord
  | .step => d.machine.stepLog
  | .reset => d.machine.bootstrapLog
  | .diagnostic => (flipPreload d.machine).bootstrapLog
  | _ => []

/-- What a batch of a continuous run logs. -/
def tickLog (d : Debugger) : List LogRecord :=
  if d.running && d.blockedBy?.isNone then d.machine.runLog Host.idle batch () else []

end Debugger

end MicroEngine
