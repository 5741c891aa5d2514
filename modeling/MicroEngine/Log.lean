/-!
# Log records

* `LogRecord`: a line for an observer, with its channel and its severity.
* `LogRecord.isShownAt`: whether a record is at least as severe as a level.
-/

namespace MicroEngine

/-- How severe a record is, the most severe level first. -/
inductive LogLevel
  | info
  | debug
  | trace
  deriving DecidableEq, Repr

namespace LogLevel

/-- The level's place, the most severe level first. -/
def rank : LogLevel → Nat
  | info => 0
  | debug => 1
  | trace => 2

def name : LogLevel → String
  | info => "INFO"
  | debug => "DEBUG"
  | trace => "TRACE"

end LogLevel

/-- What a record is about. -/
inductive LogChannel
  /-- One record for each microcycle. -/
  | trace
  /-- Buses and register loads. -/
  | state
  /-- Requests to devices that are not attached. -/
  | device
  /-- The machine as a whole. -/
  | machine
  deriving DecidableEq, Repr

def LogChannel.name : LogChannel → String
  | .trace => "bcc500::trace"
  | .state => "bcc500::state"
  | .device => "bcc500::device"
  | .machine => "bcc500::machine"

/-- A line for an observer. -/
structure LogRecord where
  level : LogLevel
  channel : LogChannel
  message : String
  deriving DecidableEq, Repr

namespace LogRecord

/-- Whether the record is at least as severe as `level`. -/
def isShownAt (level : LogLevel) (r : LogRecord) : Bool := r.level.rank ≤ level.rank

def line (r : LogRecord) : String := r.level.name ++ " " ++ r.channel.name ++ " " ++ r.message

end LogRecord

end MicroEngine
