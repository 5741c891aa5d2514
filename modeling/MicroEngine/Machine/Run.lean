import MicroEngine.Machine
/-!
# Running the machine

A run polls its host before every iteration and ends at the first of these: the host fails or asks
to stop, the budget is used up, an enabled unit sits on a breakpoint, a unit fails.

* `Host`: a host, which answers each poll and may change its own state.
* `Machine.runWithin`: a run with a budget of iterations.
* `Machine.runUnbounded`: a run without a budget, if it ends within some number of iterations.
-/

namespace MicroEngine

/-- Why a run ended without a fault. -/
inductive StopReason
  /-- The budget is used up. -/
  | stepped
  /-- An enabled unit sits on a breakpoint. -/
  | breakpoint (hit : Breakpoint)
  /-- The host asked to stop. -/
  | hostStop
  deriving DecidableEq, Repr

/-- What a host answers to a poll. -/
inductive HostAnswer
  | proceed
  | stop
  deriving DecidableEq, Repr

structure HostFailure where
  reason : String
  deriving DecidableEq, Repr

/-- The text of the error. -/
def HostFailure.message (e : HostFailure) : String := "host event failure: " ++ e.reason

/-- A host whose own state has the type `σ`; each poll shows it the machine. -/
abbrev Host (σ : Type) := σ → Machine → Except HostFailure HostAnswer × σ

/-- The host that has nothing to say. -/
def Host.idle : Host Unit := fun s _ => (.ok .proceed, s)

/-- Why a run was cut short. -/
inductive RunError
  | fault (cause : UnitFault)
  | host (cause : HostFailure)
  deriving DecidableEq, Repr

def RunError.message : RunError → String
  | .fault cause => cause.message
  | .host cause => cause.message

/-- The end of a run: why it ended, and what it leaves behind. -/
structure RunEnd (σ : Type) where
  outcome : Except RunError StopReason
  machine : Machine
  host : σ

namespace Machine

/-- A run of at most `budget` iterations. A run that has just started does not stop at a breakpoint,
so that it can be resumed from one. -/
def runFrom {σ : Type} (service : Host σ) (isFirst : Bool) (budget : Nat) (h : σ) (m : Machine) :
    RunEnd σ :=
  match service h m with
  | (.error cause, h') => ⟨.error (.host cause), m, h'⟩
  | (.ok .stop, h') => ⟨.ok .hostStop, m, h'⟩
  | (.ok .proceed, h') =>
    match budget with
    | 0 => ⟨.ok .stepped, m, h'⟩
    | left + 1 =>
      match if isFirst then none else m.breakpointHit? with
      | some b => ⟨.ok (.breakpoint b), m, h'⟩
      | none =>
        match m.step with
        | (m', .error cause) => ⟨.error (.fault cause), m', h'⟩
        | (m', .ok _) => runFrom service false left h' m'

def runWithin {σ : Type} (service : Host σ) (budget : Nat) (h : σ) (m : Machine) : RunEnd σ :=
  runFrom service true budget h m

/-- A run without a budget, if it ends before `patience` iterations are done. -/
def runUnbounded {σ : Type} (service : Host σ) (patience : Nat) (h : σ) (m : Machine) :
    Option (RunEnd σ) :=
  let e := runWithin service patience h m
  match e.outcome with
  | .ok .stepped => none
  | _ => some e

/-! ## Log -/

/-- What a run of at most `budget` iterations logs, in reverse, in front of `done`. -/
def runLogFrom {σ : Type} (service : Host σ) (isFirst : Bool) (budget : Nat) (h : σ) (m : Machine)
    (done : List LogRecord) : List LogRecord :=
  let line (text : String) : LogRecord := ⟨.info, .machine, text⟩
  match service h m with
  | (.error _, _) => done
  | (.ok .stop, _) =>
    line ("host stop after " ++ Text.decimal m.iterations ++ " iterations") :: done
  | (.ok .proceed, h') =>
    match budget with
    | 0 => done
    | left + 1 =>
      match if isFirst then none else m.breakpointHit? with
      | some b =>
        line (b.unit.name ++ " breakpoint at " ++ Text.octal4 b.address.toNat) :: done
      | none =>
        let done' := m.stepLog.reverse ++ done
        match m.step with
        | (_, .error _) => done'
        | (m', .ok _) => runLogFrom service false left h' m' done'

def runLog {σ : Type} (service : Host σ) (budget : Nat) (h : σ) (m : Machine) : List LogRecord :=
  (runLogFrom service true budget h m []).reverse

end Machine

end MicroEngine
