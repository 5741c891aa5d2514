import MicroEngine.Opcode
import MicroEngine.Log
import MicroEngine.Registers
/-!
# Special functions

* `DeviceRequest`: the requests to devices, `DeviceRequest.ofCode?` by their codes.
* `SpecialFunction`: the functions, `ofCode?` by their 6-bit codes, `describe?` their listing texts.
* `SpecialFunction.merge`: the X bus with a shifted copy of the left boolean box merged in.
* `SpecialFunction.effect`: what a function does beyond the X bus.
-/

namespace MicroEngine

/-- A request to a device; no devices are attached. -/
inductive DeviceRequest
  | alert
  | pot
  | pin
  | strobe1
  | unprotect
  | loadPriority
  | resetStrobe1
  | resetCentral
  | setProtectMask
  | resetConnector
  | setFlagA
  | resetFlagA
  | resetStrobe2
  | strobe2
  deriving DecidableEq, Repr

/-- The name of the request. -/
def DeviceRequest.name : DeviceRequest → String
  | .alert => "alert"
  | .pot => "POT"
  | .pin => "PIN"
  | .strobe1 => "request strobe 1"
  | .unprotect => "unprotect"
  | .loadPriority => "load memory request priority"
  | .resetStrobe1 => "reset request strobe 1"
  | .resetCentral => "reset central memory request"
  | .setProtectMask => "set protect mask"
  | .resetConnector => "reset I/O connector device"
  | .setFlagA => "set special flag A"
  | .resetFlagA => "reset special flag A"
  | .resetStrobe2 => "reset request strobe 2"
  | .strobe2 => "request strobe 2"

/-- The request with this special function code, if there is one. -/
def DeviceRequest.ofCode? (code : UInt8) : Option DeviceRequest :=
  match code.toNat with
  | 0o14 => some alert
  | 0o15 => some pot
  | 0o16 => some pin
  | 0o17 => some strobe1
  | 0o20 => some unprotect
  | 0o22 => some loadPriority
  | 0o23 => some resetStrobe1
  | 0o24 => some resetCentral
  | 0o25 => some setProtectMask
  | 0o26 => some resetConnector
  | 0o30 => some setFlagA
  | 0o31 => some resetFlagA
  | 0o32 => some resetStrobe2
  | 0o33 => some strobe2
  | _ => none

/-- A special function of a microword. -/
inductive SpecialFunction
  /-- Nothing. -/
  | idle
  /-- Merge the left box into X, moved up by a fixed amount. -/
  | mergeBy (amount : UInt32)
  /-- Merge the left box into X, moved up by the low two bits of Z. -/
  | mergeByZ2
  /-- Merge the left box into X, moved up by the three bits of Z above those. -/
  | mergeByZ3
  /-- Index the scratchpad with Z. -/
  | skz
  /-- Move the micro address to a bank. -/
  | selectBank (bank : Bank)
  /-- Ask a device for something. -/
  | request (request : DeviceRequest)
  deriving DecidableEq, Repr

/-- What a special function does beyond the X bus. -/
inductive SpecialEffect
  | nothing
  | selectBank (bank : Bank)
  | request (request : DeviceRequest)
  deriving DecidableEq, Repr

namespace SpecialFunction

def ofCode? (code : UInt8) : Option SpecialFunction :=
  match code.toNat with
  | 0o00 => some idle
  | 0o01 => some (mergeBy 1)
  | 0o02 => some (mergeBy 2)
  | 0o03 => some (mergeBy 3)
  | 0o04 => some (mergeBy 4)
  | 0o05 => some (mergeBy 8)
  | 0o06 => some (mergeBy 12)
  | 0o07 => some (mergeBy 16)
  | 0o10 => some (mergeBy 20)
  | 0o11 => some mergeByZ2
  | 0o12 => some mergeByZ3
  | 0o13 => some skz
  | 0o60 => some (selectBank .a)
  | 0o61 => some (selectBank .b)
  | _ => (DeviceRequest.ofCode? code).map request

/-- The listing text of the function with this code, if the code is known. -/
def describe? (code : UInt8) : Option String :=
  match code.toNat with
  | 0o00 => some "none"
  | 0o01 => some "X |= BL << 1"
  | 0o02 => some "X |= BL << 2"
  | 0o03 => some "X |= BL << 3"
  | 0o04 => some "X |= BL << 4"
  | 0o05 => some "X |= BL << 8"
  | 0o06 => some "X |= BL << 12"
  | 0o07 => some "X |= BL << 16"
  | 0o10 => some "X |= BL << 20"
  | 0o11 => some "X |= BL << Z[1:0]"
  | 0o12 => some "X |= BL << Z[4:2]"
  | 0o13 => some "SKZ"
  | 0o60 => some "select ROM bank A"
  | 0o61 => some "select ROM bank B"
  | _ => (DeviceRequest.ofCode? code).map DeviceRequest.name

/-- How far the left box is moved up before it is merged into X, if the function merges it. -/
def amount? (f : SpecialFunction) (z : Word) : Option UInt32 :=
  match f with
  | mergeBy amount => some amount
  | mergeByZ2 => some (z &&& 0o3)
  | mergeByZ3 => some ((z >>> 2) &&& 0o7)
  | _ => none

/-- The X bus after the function, for the left box `box` and the Z register `z`. -/
def merge (f : SpecialFunction) (box x z : Word) : Word :=
  match f.amount? z with
  | some n => x ||| box.shiftUp n
  | none => x

/-- What the function does beyond the X bus. -/
def effect : SpecialFunction → SpecialEffect
  | selectBank bank => .selectBank bank
  | request r => .request r
  | _ => .nothing

def decode (code : UInt8) : Except OpcodeError SpecialFunction :=
  match ofCode? code with
  | some f => .ok f
  | none => .error (.unimplemented .special code)

/-- What is logged when the function with this code is carried out. -/
def log (code : UInt8) : List LogRecord :=
  match ofCode? code with
  | some (request r) =>
    [⟨.info, .device, "special " ++ Text.octal2 code.toNat ++ ": " ++ r.name⟩]
  | _ => []

end SpecialFunction

end MicroEngine
