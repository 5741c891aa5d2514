import MicroEngine.CommandLine
/-!
# The program

The command line on real files.
-/

namespace MicroEngine

/-- The error with this number, which the system describes as `text`. Some operations give the
negative of the number. -/
def FileError.ofCode (code : UInt32) (text : String) : FileError :=
  match min code.toNat (-code).toNat with
  | 2 => .notFound
  | 6 => .noDevice
  | 12 => .noMemory
  | 20 => .notDirectory
  | 21 => .isDirectory
  | 28 => .noSpace
  | 36 => .nameTooLong
  | n => .system n text.capitalize

/-- Why a file operation failed. -/
def FileError.ofSystem : IO.Error → FileError
  | .noFileOrDirectory _ code text | .interrupted _ code text => ofCode code text
  | .alreadyExists _ code text | .invalidArgument _ code text | .permissionDenied _ code text
  | .resourceExhausted _ code text | .inappropriateType _ code text
  | .noSuchThing _ code text => ofCode code text
  | .otherError code text | .resourceBusy code text | .resourceVanished code text
  | .unsupportedOperation code text | .hardwareFault code text
  | .unsatisfiedConstraints code text | .illegalOperation code text | .protocolError code text
  | .timeExpired code text => ofCode code text
  | .unexpectedEof => .system 0 "unexpected end of file"
  | .userError text => .system 0 text

/-- The files of the system. -/
def systemFiles : FileAccess IO where
  read path := do
    match ← (IO.FS.readBinFile path).toBaseIO with
    | .ok bytes =>
      match String.fromUTF8? bytes with
      | some text => return .ok text
      | none => return .error .notText
    | .error e => return .error (.ofSystem e)
  write path text := do
    match (Path.place path).device? with
    | some .output => return .ok ⟨text, ""⟩
    | some .errorOutput => return .ok ⟨"", text⟩
    | _ =>
      match ← (IO.FS.writeFile path text).toBaseIO with
      | .ok _ => return .ok .empty
      | .error e => return .error (.ofSystem e)

end MicroEngine

/-- Carry out the command line and print what it has to say. -/
def main (arguments : List String) : IO UInt32 := do
  let t ← MicroEngine.CommandLine.execute MicroEngine.systemFiles arguments
  IO.print t.out
  IO.eprint t.err
  return t.exit.toUInt32
