import MicroEngine.CommandLine.Arguments
import MicroEngine.Machine.Run
import MicroEngine.Text.ControlSequence
/-!
# The command line

Commands read and write files through `FileAccess`, so that they can be carried out on real files
and on a `FileStore` alike. What they print is returned as a `Transcript`.

* `Transcript`: exit code and output of a command.
* `Command.execute`: a command.
* `CommandLine.execute`: a command line.
-/

namespace MicroEngine

/-- How to read and to write files. What is written to an output is not printed at once but
returned, so that it appears between the lines of the command that writes it. -/
structure FileAccess (m : Type → Type) where
  read : String → m (Except FileError String)
  write : String → String → m (Except FileError Printout)

def FileStore.access : FileAccess (StateM FileStore) where
  read path := do return (← get).read path
  write path text := do
    let s ← get
    match s.write path text with
    | .ok s' =>
      set s'
      return .ok (s.printout path text)
    | .error cause => return .error cause

/-- What a command prints, and its exit code. -/
structure Transcript where
  exit : UInt8
  out : String
  err : String
  deriving DecidableEq, Repr

namespace Transcript

/-- A command that succeeds and prints a text. -/
def printed (text : String) : Transcript := ⟨0, text, ""⟩

def failed (message : String) : Transcript := ⟨1, "", "error: " ++ message ++ "\n"⟩

/-- A command line that cannot be understood. -/
def misused : Transcript :=
  ⟨2, "", "usage: bcc500-emu [--version | run | debug | disasm IMAGE | dump-image]\n"⟩

/-- The transcript with output in front of its own. -/
def after (out err : String) (t : Transcript) : Transcript :=
  ⟨t.exit, out ++ t.out, err ++ t.err⟩

end Transcript

namespace CommandLine

/-- The iterations of a run for which no number is given. -/
def defaultSteps : UInt64 := 10000

def version : String := "0.1.0"

/-- What the program says about itself. -/
def aboutText : String :=
  "BCC 500 Emulator v" ++ version ++
    "\nA microinstruction-level emulator of the BCC 500 micro-engines\n\n" ++
    "Use --help for available commands\n"

/-! ## Trace -/

/-- Whether a record is shown when a run is traced. -/
def isTraced (r : LogRecord) : Bool :=
  match r.level, r.channel with
  | .info, _ => true
  | .debug, .state => true
  | .trace, .trace => true
  | _, _ => false

/-- A message as it is shown: its lines after the first one are indented by four blanks. -/
def indented (message : String) : String :=
  String.ofList (message.toList.flatMap fun c =>
    if c = '\n' then c :: List.replicate 4 ' ' else [c])

/-- A record as it is shown: without control sequences, of which none goes on in the next record. -/
def traceLine (r : LogRecord) : String :=
  Text.withoutControls
    ("[" ++ Text.align .left 5 r.level.name ++ "] " ++ indented r.message ++ "\n")

/-- The records that are shown when a run is traced. -/
def traceText (records : List LogRecord) : String :=
  String.join ((records.filter isTraced).map traceLine)

/-! ## Building the machine -/

def readAll {m : Type → Type} [Monad m] (files : FileAccess m) :
    List String → m (List (String × Except FileError String))
  | [] => return []
  | path :: paths => do
    let content ← files.read path
    let rest ← readAll files paths
    return (path, content) :: rest

/-- Look up a file that has been read. -/
def lookUp (contents : List (String × Except FileError String)) (path : String) :
    Except FileError String :=
  match contents.find? fun c => c.1 == path with
  | some c => c.2
  | none => .error .notFound

def baseConfig {m : Type → Type} [Monad m] (files : FileAccess m) (o : MachineOptions) :
    m (Except ConfigurationError Configuration) :=
  match o.config with
  | none => return .ok .reference
  | some path => do
    let content ← files.read path
    return Configuration.load (fun _ => content) path

def withOptions (o : MachineOptions) (c : Configuration) : Configuration :=
  let c' :=
    match o.image with
    | some path => { c.setImage .cpu0 path with preloadDiagnostic := false }
    | none => c
  if o.noDiagnostic then { c' with preloadDiagnostic := false } else c'

/-- A machine, its configuration, and what its building logged. -/
structure Build where
  config : Configuration
  result : Except BuildError Machine
  log : List LogRecord

def build {m : Type → Type} [Monad m] (files : FileAccess m) (o : MachineOptions) :
    m (Except ConfigurationError Build) := do
  match ← baseConfig files o with
  | .error cause => return .error cause
  | .ok base =>
    let c := withOptions o base
    let contents ← readAll files (UnitId.all.filterMap c.image?)
    let read := lookUp contents
    return .ok ⟨c, Machine.ofConfig read c, Machine.ofConfigLog read c⟩

/-! ## Running -/

def unitLine (m : Machine) (u : UnitId) : String :=
  let e := m.engine u
  let s := e.registers
  u.column ++ "O=" ++ Text.octal4 s.address.toNat ++ " OS=" ++ Text.octal4 s.saved.toNat ++ " M=" ++
    Text.octal8 s.m.toNat ++ " Q=" ++ Text.octal8 s.q.toNat ++ " Z=" ++ Text.octal8 s.z.toNat ++
    " R0=" ++ Text.octal8 (s.readHolding 0).toNat ++ " cycles=" ++ Text.decimal e.cycles ++ "\n"

/-- The line that tells why a run ended. -/
def stopLine : StopReason → String
  | .stepped => "Stopped: step limit reached\n"
  | .breakpoint b =>
    "Stopped: " ++ b.unit.name ++ " breakpoint at " ++ Text.octal4 b.address.toNat ++ "\n"
  | .hostStop => "Stopped: host request\n"

def runTranscript (m : Machine) (limit : Nat) (ended : RunEnd Unit) : Transcript :=
  let first := "Running " ++ ", ".intercalate (m.enabledUnits.map UnitId.name) ++ " for " ++
    Text.decimal limit ++ " iterations\n\n"
  let after := ended.machine
  let last := "Iterations: " ++ Text.decimal after.iterations ++ "\n" ++
    String.join (after.enabledUnits.map (unitLine after))
  match ended.outcome with
  | .ok reason => ⟨0, first ++ stopLine reason ++ last, ""⟩
  | .error cause => ⟨1, first ++ last, "Fatal: " ++ cause.message ++ "\n"⟩

/-- Write the state after a run, if a file for it is given. -/
def dumpState {m : Type → Type} [Monad m] (files : FileAccess m) (path : Option String)
    (after : Machine) (t : Transcript) : m Transcript :=
  match path with
  | none => return t
  | some path => do
    match ← files.write path after.snapshot.pretty with
    | .ok shown =>
      let line := "State written to " ++ path ++ "\n"
      return ⟨t.exit, t.out ++ shown.out ++ line, t.err ++ shown.err⟩
    | .error cause => return (Transcript.failed (path ++ ": " ++ cause.message)).after t.out t.err

/-- Run the machine that the options ask for. -/
def run {m : Type → Type} [Monad m] (files : FileAccess m) (o : RunOptions) : m Transcript := do
  match ← build files o.machine with
  | .error cause => return .failed cause.message
  | .ok b =>
    let shown (log : List LogRecord) := if o.trace then traceText log else ""
    match b.result with
    | .error cause => return (Transcript.failed cause.message).after "" (shown b.log)
    | .ok machine =>
      let limit := ((o.steps.or b.config.stepLimit).getD defaultSteps).toNat
      let ended := machine.runWithin Host.idle limit ()
      let log := if o.trace then b.log ++ machine.runLog Host.idle limit () else []
      let t ← dumpState files o.dumpState ended.machine (runTranscript machine limit ended)
      return t.after "" (shown log)

/-- The answer to the command that needs a terminal, once its machine is built. -/
def debug {m : Type → Type} [Monad m] (files : FileAccess m) (o : MachineOptions) :
    m Transcript := do
  match ← build files o with
  | .error cause => return .failed cause.message
  | .ok b =>
    match b.result with
    | .error cause => return .failed cause.message
    | .ok _ => return .failed "built without the terminal debugger"

def disassemble {m : Type → Type} [Monad m] (files : FileAccess m) (path : String) :
    m Transcript := do
  let content ← files.read path
  match Image.load (fun _ => content) path with
  | .ok store => return .printed store.listing
  | .error cause => return .failed cause.message

/-- Print the diagnostic, or write it to a file. -/
def dumpImage {m : Type → Type} [Monad m] (files : FileAccess m) (output : Option String) :
    m Transcript :=
  let text := Image.format Diagnostic.store
  match output with
  | none => return .printed text
  | some path => do
    match ← files.write path text with
    | .ok shown =>
      let t := Transcript.printed ("Diagnostic written to " ++ path ++ "\n")
      return t.after shown.out shown.err
    | .error cause => return .failed (ImageError.unreadable path cause).message

end CommandLine

def Command.execute {m : Type → Type} [Monad m] (files : FileAccess m) : Command → m Transcript
  | .about => return .printed CommandLine.aboutText
  | .version => return .printed ("bcc500-emu " ++ CommandLine.version ++ "\n")
  | .run o => CommandLine.run files o
  | .debug o => CommandLine.debug files o
  | .disassemble path => CommandLine.disassemble files path
  | .dumpImage output => CommandLine.dumpImage files output

/-- Carry out a command line. -/
def CommandLine.execute {m : Type → Type} [Monad m] (files : FileAccess m)
    (arguments : List String) : m Transcript :=
  match Command.ofArguments? arguments with
  | some c => c.execute files
  | none => return .misused

end MicroEngine
