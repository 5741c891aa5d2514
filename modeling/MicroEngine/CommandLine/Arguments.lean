/-!
# Command line arguments

* `Command`: what a command line asks for.
* `OptionSpec`: an option of a command, by its names, and whether it takes a value.
* `readArguments?`: options and positional arguments of a command.
* `Command.ofArguments?`: the command of a command line, if it can be understood.
-/

namespace MicroEngine

/-- The options that say which machine to build. -/
structure MachineOptions where
  config : Option String
  /-- An image for CPU0, in place of the diagnostic. -/
  image : Option String
  noDiagnostic : Bool
  deriving DecidableEq, Repr

structure RunOptions where
  machine : MachineOptions
  steps : Option UInt64
  trace : Bool
  /-- The file for the final state. -/
  dumpState : Option String
  deriving DecidableEq, Repr

/-- What a command line asks for. -/
inductive Command
  /-- Say what the program is. -/
  | about
  /-- Say which version the program is. -/
  | version
  /-- Bootstrap the machine and run it. -/
  | run (options : RunOptions)
  /-- Debug the machine on a terminal. -/
  | debug (options : MachineOptions)
  /-- List an image. -/
  | disassemble (image : String)
  /-- Write the diagnostic as an image. -/
  | dumpImage (output : Option String)
  deriving DecidableEq, Repr

/-! ## Options and positional arguments -/

structure OptionSpec where
  /-- The name after two dashes. -/
  long : String
  /-- The letter after one dash. -/
  short : Option Char
  takesValue : Bool
  deriving DecidableEq, Repr

/-- The arguments of a command: its options with their values, in order, and the rest. -/
structure Arguments where
  options : List (OptionSpec × String)
  positional : List String

namespace Arguments

def empty : Arguments := ⟨[], []⟩

/-- The arguments with one more option, which may be given once only. -/
def addOption? (a : Arguments) (o : OptionSpec) (value : String) : Option Arguments :=
  if a.options.any fun p => p.1 == o then none
  else some { a with options := a.options ++ [(o, value)] }

def value? (a : Arguments) (long : String) : Option String :=
  (a.options.find? fun p => p.1.long == long).map Prod.snd

/-- Whether an option is given. -/
def has (a : Arguments) (long : String) : Bool := (a.value? long).isSome

end Arguments

/-- Whether an argument looks like an option: a dash with something after it. -/
def looksLikeOption (s : String) : Bool := s.startsWith "-" && s != "-"

/-- The letters after one dash: flags, up to an option with a value, which is what follows in the
same argument. An option with nothing after it waits for the next argument. -/
def readCluster? (specs : List OptionSpec) (a : Arguments) :
    List Char → Option (Arguments × Option OptionSpec)
  | [] => some (a, none)
  | c :: rest => do
    let spec ← specs.find? fun o => o.short == some c
    if spec.takesValue then
      match rest with
      | [] => if a.options.any fun p => p.1 == spec then none else some (a, some spec)
      | '=' :: value => (a.addOption? spec (String.ofList value)).map (·, none)
      | value => (a.addOption? spec (String.ofList value)).map (·, none)
    else readCluster? specs (← a.addOption? spec "") rest

/-- An argument that begins with two dashes: a flag, an option with its value after an equals sign,
or an option that waits for the next argument. -/
def readLong? (specs : List OptionSpec) (a : Arguments) (text : List Char) :
    Option (Arguments × Option OptionSpec) := do
  let name := String.ofList (text.takeWhile (· != '='))
  let spec ← specs.find? fun o => o.long == name
  match text.dropWhile (· != '='), spec.takesValue with
  | [], true => if a.options.any fun p => p.1 == spec then none else some (a, some spec)
  | [], false => (a.addOption? spec "").map (·, none)
  | _ :: value, true => (a.addOption? spec (String.ofList value)).map (·, none)
  | _ :: _, false => none

/-- The arguments of a command. `pending` is an option that waits for its value, which may not look
like an option. After two dashes all arguments are positional. -/
def readArguments? (specs : List OptionSpec) (pending : Option OptionSpec) (a : Arguments) :
    List String → Option Arguments
  | [] => if pending.isSome then none else some a
  | s :: rest =>
    match pending with
    | some spec =>
      if looksLikeOption s then none
      else (a.addOption? spec s).bind fun a' => readArguments? specs none a' rest
    | none =>
      match s.toList with
      | ['-', '-'] => some { a with positional := a.positional ++ rest }
      | '-' :: '-' :: text =>
        (readLong? specs a text).bind fun (a', p) => readArguments? specs p a' rest
      | '-' :: c :: text =>
        (readCluster? specs a (c :: text)).bind fun (a', p) => readArguments? specs p a' rest
      | _ => readArguments? specs none { a with positional := a.positional ++ [s] } rest

/-! ## Values -/

/-- A decimal number of iterations, with an optional plus sign, if it fits into 64 bits. -/
def readSteps? (s : String) : Option UInt64 :=
  let cs := s.toList
  let digits := if cs.head? == some '+' then cs.tail else cs
  let value := digits.foldl (fun n c => 10 * n + (c.toNat - '0'.toNat)) 0
  if digits ≠ [] && digits.all (fun c => '0' ≤ c && c ≤ '9') && value < UInt64.size then
    some value.toUInt64
  else none

/-- A value that may be missing, but is wrong if it is there and cannot be read. -/
def optionalValue? {α : Type} (read : String → Option α) : Option String → Option (Option α)
  | none => some none
  | some s => (read s).map some

def readPath? (s : String) : Option String := if s.isEmpty then none else some s

/-! ## Commands -/

/-- The options that say which machine to build. -/
def machineSpecs : List OptionSpec :=
  [⟨"config", some 'c', true⟩, ⟨"image", some 'i', true⟩, ⟨"no-diagnostic", none, false⟩]

def runSpecs : List OptionSpec :=
  machineSpecs ++
    [⟨"steps", some 's', true⟩, ⟨"trace", some 't', false⟩, ⟨"dump-state", none, true⟩]

/-- The options of the command that writes the diagnostic. -/
def dumpSpecs : List OptionSpec := [⟨"output", some 'o', true⟩]

def MachineOptions.ofArguments? (a : Arguments) : Option MachineOptions := do
  return {
    config := ← optionalValue? readPath? (a.value? "config")
    image := ← optionalValue? readPath? (a.value? "image")
    noDiagnostic := a.has "no-diagnostic" }

def RunOptions.ofArguments? (a : Arguments) : Option RunOptions := do
  return {
    machine := ← MachineOptions.ofArguments? a
    steps := ← optionalValue? readSteps? (a.value? "steps")
    trace := a.has "trace"
    dumpState := ← optionalValue? readPath? (a.value? "dump-state") }

namespace Command

def ofName? (name : String) (arguments : List String) : Option Command :=
  let read (specs : List OptionSpec) := readArguments? specs none .empty arguments
  match name with
  | "run" => do
    let a ← read runSpecs
    if a.positional.isEmpty then return .run (← RunOptions.ofArguments? a) else none
  | "debug" => do
    let a ← read machineSpecs
    if a.positional.isEmpty then return .debug (← MachineOptions.ofArguments? a) else none
  | "disasm" => do
    let a ← read []
    match a.positional with
    | [path] => return .disassemble (← readPath? path)
    | _ => none
  | "dump-image" => do
    let a ← read dumpSpecs
    if a.positional.isEmpty then
      return .dumpImage (← optionalValue? readPath? (a.value? "output"))
    else none
  | _ => none

/-- The command of a command line, if it can be understood. -/
def ofArguments? : List String → Option Command
  | [] => some .about
  | ["--"] => some .about
  | s :: rest =>
    if s = "--version" || s.startsWith "-V" then some .version
    else ofName? s rest

end Command

end MicroEngine
