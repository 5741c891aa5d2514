import MicroEngine.BooleanBox
import MicroEngine.BranchCondition
import MicroEngine.SpecialFunction
/-!
# One microcycle

A microcycle gathers the buses from the registers, decides whether the jump is taken, and then, if
nothing is wrong with the microword, loads registers and moves the sequencer.

* `Registers.leftBox`, `xBus`, `yBus`: the values on the buses.
* `Registers.signals`: all values of a cycle, or why the microword cannot be executed.
* `Registers.load`: the register loads that the microword asks for.
* `RegisterLoad`: a register load in a report, `Registers.reportedLoads` those of a cycle.
* `Registers.finish`: the registers after the cycle.
-/

namespace MicroEngine

/-- A value that is let through or held at zero. -/
def gate (isOpen : Bool) (v : Word) : Word := if isOpen then v else 0

/-- The values of one cycle. -/
structure Signals where
  x : Word
  y : Word
  /-- The output of the left boolean box. -/
  box : Word
  /-- What the special function does beyond the X bus. -/
  effect : SpecialEffect
  /-- Whether the branch condition holds. -/
  branch : Bool
  deriving DecidableEq, Repr

namespace Registers

/-! ## Buses -/

/-- The scratchpad word that the microword selects. -/
def selected (s : Registers) : Nat := s.latch.scratchpadIndex s.z

/-- The output of the left boolean box, on M and Q. -/
def leftBox (s : Registers) : Word := (BoxFunction.ofCode s.latch.leftBox).apply s.m s.q

/-- The output of the right boolean box, on Z and Q. -/
def rightBox (s : Registers) : Word := (BoxFunction.ofCode s.latch.rightBox).apply s.z s.q

def adder (s : Registers) : Word := Word.sum s.leftBox s.rightBox (s.latch.has .loc)

/-- The Y bus: every source that the microword selects, merged. No device is attached, so the device
buses are zero. -/
def yBus (s : Registers) : Word :=
  let w := s.latch
  gate (w.has .tcy) w.constant |||
    gate (w.has .tspy) (s.readScratchpad s.selected) |||
    gate (w.has .thy) (Word.sum (s.readHolding w.readRegister) 0 (w.has .ihr)) |||
    gate (w.has .tosy) s.saved.toUInt32

/-- The X bus: the constant, what the special function merges in, and the adder. -/
def xBus (s : Registers) (f : SpecialFunction) : Word :=
  let w := s.latch
  f.merge s.leftBox (gate (w.has .tcx) w.constant) s.z ||| gate (w.has .tax) s.adder

/-- The values of the cycle. An unknown special function is found before an unknown condition. -/
def signals (s : Registers) : Except OpcodeError Signals := do
  let f ← SpecialFunction.decode s.latch.special
  let x := s.xBus f
  let branch ← BranchCondition.evaluate s.latch.condition x s.yBus s.leftBox s
  return { x := x, y := s.yBus, box := s.leftBox, effect := f.effect, branch := branch }

/-- The sequencer's inputs in a cycle with this branch outcome. -/
def control (s : Registers) (branch : Bool) : SequencerInput where
  branch := branch
  deferred := s.latch.has .dgo
  extended := s.latch.has .vcy

/-! ## Register loads -/

/-- The value that the holding registers are loaded with. -/
def holdingBus (s : Registers) (x y : Word) : Word :=
  gate (s.latch.has .txw) x ||| gate (s.latch.has .tyw) y

/-- Whether the microword loads the holding register that it names. -/
def loadsHolding (s : Registers) : Bool := s.latch.has .txw || s.latch.has .tyw

/-- Load the holding registers that the microword selects. -/
def loadHolding (s : Registers) (x y : Word) : Registers :=
  let v := s.holdingBus x y
  let s' := if s.latch.has .lr0 then s.setHolding 0 v else s
  if s.loadsHolding then s'.setHolding s.latch.loadRegister v else s'

def loadScratchpad (s : Registers) (x : Word) : Registers :=
  if s.latch.has .lspx then s.setScratchpad s.selected x else s

def loadM (s : Registers) (x y : Word) : Registers :=
  if s.latch.has .lmx || s.latch.has .lmy then
    s.setM (gate (s.latch.has .lmx) x ||| gate (s.latch.has .lmy) y)
  else s

def loadQ (s : Registers) (x y : Word) : Registers :=
  if s.latch.has .lqx || s.latch.has .lqy then
    s.setQ (gate (s.latch.has .lqx) x ||| gate (s.latch.has .lqy) y)
  else s

def loadZ (s : Registers) (x y : Word) : Registers :=
  if s.latch.has .lzx || s.latch.has .lzy then
    s.setZ (gate (s.latch.has .lzx) x ||| gate (s.latch.has .lzy) y)
  else s

/-- All register loads that the microword asks for. Z, which takes part in the selection of the
scratchpad word, is loaded last. -/
def load (s : Registers) (x y : Word) : Registers :=
  ((((s.loadHolding x y).loadScratchpad x).loadM x y).loadQ x y).loadZ x y

end Registers

/-! ## Reported loads -/

/-- A register load, with the value that the register holds after it. -/
inductive RegisterLoad
  | m (value : Word)
  | q (value : Word)
  | z (value : Word)
  | holding (index : Nat) (value : Word)
  | scratchpad (index : Nat) (value : Word)
  deriving DecidableEq, Repr

/-- The load as a line of a trace. -/
def RegisterLoad.text : RegisterLoad → String
  | .m v => "M <- " ++ Text.octal8 v.toNat
  | .q v => "Q <- " ++ Text.octal8 v.toNat
  | .z v => "Z <- " ++ Text.octal8 v.toNat
  | .holding i v => "R" ++ Text.decimal i ++ " <- " ++ Text.octal8 v.toNat
  | .scratchpad i v => "SP[" ++ Text.octal2 i ++ "] <- " ++ Text.octal8 v.toNat

namespace Registers

/-- The loads that the microword of `s` asks for, with the values found in the state `after` them.
A load of a holding register that is not fitted is left out. -/
def reportedLoads (s after : Registers) : List RegisterLoad :=
  let w := s.latch
  let loaded (isLoaded : Bool) (l : RegisterLoad) := if isLoaded then [l] else []
  let register := w.loadRegister
  loaded (w.has .lr0) (.holding 0 (after.readHolding 0)) ++
    loaded (s.loadsHolding && isFitted register)
      (.holding register (after.readHolding register)) ++
    loaded (w.has .lspx) (.scratchpad s.selected (after.readScratchpad s.selected)) ++
    loaded (w.has .lmx || w.has .lmy) (.m after.m) ++
    loaded (w.has .lqx || w.has .lqy) (.q after.q) ++
    loaded (w.has .lzx || w.has .lzy) (.z after.z)

/-! ## The end of a cycle -/

/-- The registers after the special function has had its effect. -/
def withEffect (s : Registers) : SpecialEffect → Registers
  | .selectBank bank => s.selectBank bank
  | _ => s

/-- Whether the loads of a cycle with these signals are committed. -/
def commits (s : Registers) (sig : Signals) : Bool := s.stage.commits (s.control sig.branch)

/-- The registers after the bank select and the loads of a cycle, before the sequencer moves. -/
def loaded (s : Registers) (sig : Signals) : Registers :=
  let s' := s.withEffect sig.effect
  if s.commits sig then s'.load sig.x sig.y else s'

/-- The move of the micro address, for the microword `w` that was executed. -/
def moveAddress (s : Registers) (w : Microword) (x : Word) : AddressMove → Registers
  | .hold => s
  | .increment => s.advance
  | .jump => s.jump w.sequence w.target x

/-- The registers at the end of a cycle with these signals; `fetched` gives the microword at an
address. The fetch goes before the move of the address. -/
def finish (s : Registers) (sig : Signals) (fetched : Address → Microword) : Registers :=
  let plan := s.stage.transition (s.control sig.branch)
  let staged := (s.loaded sig).setStage plan.next
  let latched := if plan.fetch then staged.setLatch (fetched staged.address) else staged
  latched.moveAddress s.latch sig.x plan.address

end Registers

end MicroEngine
