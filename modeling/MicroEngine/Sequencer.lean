/-!
# The address sequencer

Each cycle the sequencer decides from the pipeline stage and its inputs whether the register loads
are committed, whether the next microword is fetched, and how the micro address moves.

* `Stage`: the three pipeline stages.
* `JumpMode`: the four ways in which a taken jump finds its address.
* `SequencerInput`: branch outcome, deferred jump, extended cycle.
* `Stage.commits`: whether the loads of a cycle are committed.
* `Stage.transition`: the next stage, the fetch and the move of the micro address.
-/

namespace MicroEngine

/-- The pipeline stage of a micro-engine. -/
inductive Stage
  /-- The first cycle of a microword. -/
  | normal
  /-- A jump was taken or a stretched cycle started; the latched microword runs again. -/
  | branchPending
  /-- The third cycle of a stretched cycle that branched. -/
  | extendedSettle
  deriving DecidableEq, Repr, Inhabited

namespace Stage

/-- All stages, in the order of their numbers. -/
def all : List Stage := [normal, branchPending, extendedSettle]

def index : Stage → Nat
  | normal => 0
  | branchPending => 1
  | extendedSettle => 2

def ofIndex? : Nat → Option Stage
  | 0 => some normal
  | 1 => some branchPending
  | 2 => some extendedSettle
  | _ => none

/-- The letter that stands for the stage in a trace. -/
def letter : Stage → String
  | normal => "A"
  | branchPending => "B"
  | extendedSettle => "C"

/-- The stage's name in serialized data. -/
def name : Stage → String
  | normal => "Normal"
  | branchPending => "BranchPending"
  | extendedSettle => "ExtendedSettle"

end Stage

/-- How a taken jump finds its address. -/
inductive JumpMode
  /-- The low address bits come from the microword. -/
  | jump
  /-- As a jump, with the address saved first. -/
  | call
  /-- The saved address is restored. -/
  | ret
  /-- The whole address comes from the X bus. -/
  | indirect
  deriving DecidableEq, Repr, Inhabited

namespace JumpMode

/-- All modes, in the order of their codes. -/
def all : List JumpMode := [jump, call, ret, indirect]

/-- The mode of a code, of which only the low two bits count. -/
def ofBits (bits : UInt8) : JumpMode :=
  match (bits &&& 3).toNat with
  | 0 => jump
  | 1 => call
  | 2 => ret
  | _ => indirect

def bits : JumpMode → UInt8
  | jump => 0
  | call => 1
  | ret => 2
  | indirect => 3

/-- The name in serialized data. -/
def name : JumpMode → String
  | jump => "Jump"
  | call => "Call"
  | ret => "Return"
  | indirect => "IndirectJump"

def mnemonic : JumpMode → String
  | jump => "JUMP"
  | call => "CALL"
  | ret => "RETURN"
  | indirect => "IJUMP"

end JumpMode

/-- The inputs of the sequencer in one cycle. -/
structure SequencerInput where
  /-- The branch condition holds. -/
  branch : Bool
  /-- The jump takes effect after the next microword. -/
  deferred : Bool
  /-- The cycle is stretched. -/
  extended : Bool
  deriving DecidableEq, Repr

/-- How the micro address moves at the end of a cycle. -/
inductive AddressMove
  /-- The address stays. -/
  | hold
  /-- The address advances by one within its bank. -/
  | increment
  /-- The jump of the microword is taken. -/
  | jump
  deriving DecidableEq, Repr

def AddressMove.name : AddressMove → String
  | .hold => "Hold"
  | .increment => "Increment"
  | .jump => "Jump"

/-- What the sequencer does at the end of a cycle. -/
structure Transition where
  /-- The stage of the next cycle. -/
  next : Stage
  /-- The microword at the current address is latched. -/
  fetch : Bool
  /-- The move of the address, made after the fetch. -/
  address : AddressMove
  deriving DecidableEq, Repr

/-- Whether the register loads of a cycle are committed. -/
def Stage.commits (stage : Stage) (control : SequencerInput) : Bool :=
  match stage with
  | .normal => !control.extended && (control.deferred || !control.branch)
  | .branchPending => !(control.extended && control.branch)
  | .extendedSettle => true

/-- The end of a cycle in the normal stage. A stretched cycle holds everything and runs its
microword again; a jump that is not deferred runs its microword again at the target address. -/
def Transition.ofNormal (control : SequencerInput) : Transition where
  next :=
    if (control.branch && !control.deferred) || control.extended then .branchPending else .normal
  fetch := !control.extended && (!control.branch || control.deferred)
  address :=
    if control.extended then .hold else if control.branch then .jump else .increment

/-- The end of a cycle in the branch-pending stage, which always fetches. -/
def Transition.ofBranchPending (control : SequencerInput) : Transition where
  next :=
    if control.branch && !control.deferred && control.extended then .extendedSettle else .normal
  fetch := true
  address := if control.extended && control.branch then .jump else .increment

/-- The end of a cycle, for each stage. -/
def Stage.transition (stage : Stage) (control : SequencerInput) : Transition :=
  match stage with
  | .normal => .ofNormal control
  | .branchPending => .ofBranchPending control
  | .extendedSettle => ⟨.normal, true, .increment⟩

end MicroEngine
