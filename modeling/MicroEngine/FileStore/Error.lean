import MicroEngine.Text.Numeral
/-!
# Errors of files

* `FileError`: why a file cannot be read or written.
* `FileError.message`: its text.
-/

namespace MicroEngine

/-- Why a file cannot be read or written. -/
inductive FileError
  | notFound
  /-- A file stands where a directory is needed. -/
  | notDirectory
  | isDirectory
  | nameTooLong
  /-- There is no device behind a name. -/
  | noDevice
  /-- The device has no room for what is written to it. -/
  | noSpace
  /-- The memory ends before the file does. -/
  | noMemory
  /-- The path has a null character in it. -/
  | nullInName
  /-- The bytes of the file are not UTF-8. -/
  | notText
  /-- Any other error of the system. -/
  | system (code : Nat) (text : String)
  deriving DecidableEq, Repr

namespace FileError

/-- The text of an error with the number that the system gives it. -/
def numbered (code : Nat) (text : String) : String :=
  text ++ " (os error " ++ Text.decimal code ++ ")"

def message : FileError → String
  | notFound => numbered 2 "No such file or directory"
  | notDirectory => numbered 20 "Not a directory"
  | isDirectory => numbered 21 "Is a directory"
  | nameTooLong => numbered 36 "File name too long"
  | noDevice => numbered 6 "No such device or address"
  | noSpace => numbered 28 "No space left on device"
  | noMemory => numbered 12 "Cannot allocate memory"
  | nullInName => "file name contained an unexpected NUL byte"
  | notText => "stream did not contain valid UTF-8"
  | system code text => numbered code text

end FileError

end MicroEngine
