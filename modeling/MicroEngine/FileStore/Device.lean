import MicroEngine.FileStore.Error
import MicroEngine.FileStore.Place
/-!
# Devices

A device is a file that does not keep what is written to it.

* `Device`: the devices, and `Place.device?`, where they are.
* `Device.read`: what a device reads as.
* `Device.refusal?`, `Device.printout`: whether it takes a text, and where the text then appears.
-/

namespace MicroEngine

/-- A file that does not keep what is written to it. -/
inductive Device
  /-- Reads as an empty file. -/
  | null
  /-- Reads without end. -/
  | endless
  /-- Reads without end, and has room for nothing. -/
  | full
  /-- The terminal of a program that has none. -/
  | terminal
  /-- The input of a program, which is empty. -/
  | input
  /-- Where a program prints. -/
  | output
  /-- Where a program prints what is not its result. -/
  | errorOutput
  deriving DecidableEq, Repr

def Place.device? (p : Place) : Option Device :=
  match p.names with
  | ["dev", "null"] => some .null
  | ["dev", "zero"] | ["dev", "random"] | ["dev", "urandom"] => some .endless
  | ["dev", "full"] => some .full
  | ["dev", "tty"] => some .terminal
  | ["dev", "stdin"] | ["dev", "fd", "0"] => some .input
  | ["dev", "stdout"] | ["dev", "fd", "1"] => some .output
  | ["dev", "stderr"] | ["dev", "fd", "2"] => some .errorOutput
  | _ => none

/-- What appears on the two outputs of a program. -/
structure Printout where
  out : String
  err : String
  deriving DecidableEq, Repr

/-- The printout on which nothing appears. -/
def Printout.empty : Printout := ⟨"", ""⟩

namespace Device

def read : Device → Except FileError (List UInt8)
  | null | input | output | errorOutput => .ok []
  | endless | full => .error .noMemory
  | terminal => .error .noDevice

/-- Why a device does not take a text. -/
def refusal? (text : String) : Device → Option FileError
  | full => if text.isEmpty then none else some .noSpace
  | terminal => some .noDevice
  | null | endless | input | output | errorOutput => none

/-- What appears of a text that is written to a device. -/
def printout (text : String) : Device → Printout
  | output => ⟨text, ""⟩
  | errorOutput => ⟨"", text⟩
  | null | endless | full | terminal | input => .empty

end Device

end MicroEngine
