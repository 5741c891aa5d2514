import MicroEngine.Engine
/-!
# The parts of a microcycle

The data path of a microcycle reads none of the sequencer's registers, the saved address on the Y
bus apart, and the sequencer reads no data register. So the end of a cycle splits in two.

* `Microword.fault?`: why a microword cannot be executed.
* `Registers.placed`: a state with the sequencer at another place.
* `Registers.signalsOf`: the values of a cycle whose codes are known, `signals_eq_ok_iff`.
* `Registers.signalsOf_placed_of_saved`: they do not depend on where the sequencer is.
* `Registers.dataPath`: the registers after the loads of a cycle, if it commits them.
* **`finish_eq`**: the end of a cycle, data path and sequencer apart.
* `Engine.step_of_codes`, `Engine.step_eq_ok_iff`: what a successful cycle does.
* `Engine.step_eq_error_iff`: when a cycle fails.
-/

namespace MicroEngine

/-- A result of which something can be told is a success. -/
theorem exists_eq_ok_of_toOption_map {ε α β : Type} {result : Except ε α} {f : α → β} {b : β}
    (h : result.toOption.map f = some b) : ∃ a, result = .ok a ∧ f a = b := by
  cases result with
  | error cause => cases h
  | ok a => exact ⟨a, rfl, Option.some.inj h⟩

/-- A gate that is closed lets nothing of its value be seen. -/
theorem gate_congr {isOpen : Bool} {v w : Word} (h : isOpen = true → v = w) :
    gate isOpen v = gate isOpen w := by
  cases isOpen with
  | false => rfl
  | true => exact h rfl

/-- Why a microword cannot be executed, if it cannot. The special function is looked at first. -/
def Microword.fault? (w : Microword) : Option OpcodeError :=
  match SpecialFunction.ofCode? w.special, BranchCondition.ofCode? w.condition with
  | none, _ => some (.unimplemented .special w.special)
  | some _, none => some (.unimplemented .branch w.condition)
  | some _, some _ => none

namespace Registers

/-- The state with the sequencer at another place: micro address, saved address and stage. -/
def placed (s : Registers) (o os : Address) (stage : Stage) : Registers :=
  { s with address := o, saved := os, stage := stage }

/-! ## The data path does not see the sequencer -/

section Placed

variable (s : Registers) (o os : Address) (stage : Stage) (x y : Word)

theorem loadHolding_placed :
    (s.placed o os stage).loadHolding x y = (s.loadHolding x y).placed o os stage := by
  have h := apply_ite (placed · o os stage) (s.latch.has .lr0 = true)
    (s.setHolding 0 (s.holdingBus x y)) s
  unfold loadHolding
  rw [apply_ite (placed · o os stage)]
  change _ = if s.loadsHolding then
    Registers.setHolding (placed _ o os stage) s.latch.loadRegister (s.holdingBus x y) else _
  rw [h]
  rfl

theorem loadScratchpad_placed :
    (s.placed o os stage).loadScratchpad x = (s.loadScratchpad x).placed o os stage := by
  unfold loadScratchpad
  rw [apply_ite (placed · o os stage)]
  rfl

theorem loadM_placed : (s.placed o os stage).loadM x y = (s.loadM x y).placed o os stage := by
  unfold loadM
  rw [apply_ite (placed · o os stage)]
  rfl

theorem loadQ_placed : (s.placed o os stage).loadQ x y = (s.loadQ x y).placed o os stage := by
  unfold loadQ
  rw [apply_ite (placed · o os stage)]
  rfl

theorem loadZ_placed : (s.placed o os stage).loadZ x y = (s.loadZ x y).placed o os stage := by
  unfold loadZ
  rw [apply_ite (placed · o os stage)]
  rfl

/-- **The loads of a cycle commute with moving the sequencer.** -/
theorem load_placed : (s.placed o os stage).load x y = (s.load x y).placed o os stage := by
  rw [load, loadHolding_placed, loadScratchpad_placed, loadM_placed, loadQ_placed, loadZ_placed, load]

theorem latch_loadHolding : (s.loadHolding x y).latch = s.latch := by
  unfold loadHolding
  split <;> split <;> rfl

theorem latch_loadScratchpad : (s.loadScratchpad x).latch = s.latch := by
  unfold loadScratchpad
  split <;> rfl

theorem latch_loadM : (s.loadM x y).latch = s.latch := by
  unfold loadM
  split <;> rfl

theorem latch_loadQ : (s.loadQ x y).latch = s.latch := by
  unfold loadQ
  split <;> rfl

theorem latch_loadZ : (s.loadZ x y).latch = s.latch := by
  unfold loadZ
  split <;> rfl

/-- The loads of a cycle keep the latched microword. -/
theorem latch_load : (s.load x y).latch = s.latch := by
  rw [load, latch_loadZ, latch_loadQ, latch_loadM, latch_loadScratchpad, latch_loadHolding]

theorem holds_placed (c : BranchCondition) (b : Word) :
    c.holds x y b (s.placed o os stage) = c.holds x y b s := by
  cases c <;> rfl

end Placed

/-! ## The values of a cycle -/

/-- The values of a cycle that carries out `f` and tests `c`. -/
def signalsOf (s : Registers) (f : SpecialFunction) (c : BranchCondition) : Signals where
  x := s.xBus f
  y := s.yBus
  box := s.leftBox
  effect := f.effect
  branch := c.holds (s.xBus f) s.yBus s.leftBox s

section Placed

variable (s : Registers) (o os : Address) (stage : Stage)

/-- The Y bus without the saved address. -/
def otherSources : Word :=
  let w := s.latch
  gate (w.has .tcy) w.constant |||
    gate (w.has .tspy) (s.readScratchpad s.selected) |||
    gate (w.has .thy) (Word.sum (s.readHolding w.readRegister) 0 (w.has .ihr))

theorem yBus_eq : s.yBus = s.otherSources ||| gate (s.latch.has .tosy) s.saved.toUInt32 := rfl

theorem yBus_placed : (s.placed o os stage).yBus =
    s.otherSources ||| gate (s.latch.has .tosy) os.toUInt32 := rfl

/-- **A cycle has the same values wherever the sequencer is**, if the saved address is the same or
is not on the Y bus. -/
theorem signalsOf_placed_of_saved (h : s.latch.has .tosy = true → os = s.saved)
    (f : SpecialFunction) (c : BranchCondition) :
    (s.placed o os stage).signalsOf f c = s.signalsOf f c := by
  have hy : (s.placed o os stage).yBus = s.yBus := by
    rw [yBus_placed, yBus_eq, gate_congr fun ht => congrArg UInt16.toUInt32 (h ht)]
  unfold signalsOf
  rw [holds_placed, hy]
  rfl

end Placed

/-- **A cycle has values exactly if the microword has a known special function and a known
condition.** -/
theorem signals_eq_ok_iff {s : Registers} {sig : Signals} :
    s.signals = .ok sig ↔ ∃ f c, SpecialFunction.ofCode? s.latch.special = some f ∧
      BranchCondition.ofCode? s.latch.condition = some c ∧ sig = s.signalsOf f c := by
  unfold signals SpecialFunction.decode BranchCondition.evaluate
  cases hf : SpecialFunction.ofCode? s.latch.special with
  | none => simp [bind, Except.bind]
  | some f =>
    cases hc : BranchCondition.ofCode? s.latch.condition with
    | none => simp [bind, Except.bind]
    | some c =>
      simp only [bind, Except.bind, pure, Except.pure, Except.ok.injEq, Option.some.injEq]
      constructor
      · rintro rfl
        exact ⟨f, c, rfl, rfl, rfl⟩
      · rintro ⟨_, _, rfl, rfl, rfl⟩
        rfl

/-- **A cycle has no values exactly if the microword has a fault.** -/
theorem signals_eq_error_iff {s : Registers} {cause : OpcodeError} :
    s.signals = .error cause ↔ s.latch.fault? = some cause := by
  unfold signals SpecialFunction.decode BranchCondition.evaluate Microword.fault?
  cases SpecialFunction.ofCode? s.latch.special with
  | none => simp [bind, Except.bind]
  | some f =>
    cases BranchCondition.ofCode? s.latch.condition with
    | none => simp [bind, Except.bind]
    | some c => simp [bind, Except.bind, pure, Except.pure]

/-! ## The end of a cycle -/

/-- The registers after the loads of a cycle with these values, if the cycle commits them. -/
def dataPath (s : Registers) (sig : Signals) : Registers :=
  if s.commits sig then s.load sig.x sig.y else s

theorem latch_dataPath (s : Registers) (sig : Signals) : (s.dataPath sig).latch = s.latch := by
  unfold dataPath
  split
  · exact latch_load s sig.x sig.y
  · rfl

/-- A bank select moves the micro address alone. -/
theorem withEffect_eq_placed (s : Registers) (e : SpecialEffect) :
    s.withEffect e = s.placed (s.withEffect e).address s.saved s.stage := by
  cases e with
  | selectBank bank => cases bank <;> rfl
  | _ => rfl

theorem saved_withEffect (s : Registers) (e : SpecialEffect) :
    (s.withEffect e).saved = s.saved := by
  rw [withEffect_eq_placed]; rfl

theorem loaded_eq_placed (s : Registers) (sig : Signals) :
    s.loaded sig =
      (s.dataPath sig).placed (s.withEffect sig.effect).address s.saved s.stage := by
  unfold loaded dataPath
  split
  · have h := load_placed s (s.withEffect sig.effect).address s.saved s.stage sig.x sig.y
    rwa [← withEffect_eq_placed] at h
  · exact withEffect_eq_placed s sig.effect

/-- A move of the micro address depends on the addresses alone. -/
theorem moveAddress_placed (d s : Registers) (stage : Stage) (w : Microword) (x : Word)
    (move : AddressMove) :
    (d.placed s.address s.saved stage).moveAddress w x move =
      d.placed (s.moveAddress w x move).address (s.moveAddress w x move).saved stage := by
  cases move with
  | hold => rfl
  | increment => rfl
  | jump =>
    unfold moveAddress jump
    cases w.sequence <;> rfl

/-- What the sequencer does at the end of a cycle with these values. -/
def plan (s : Registers) (sig : Signals) : Transition :=
  s.stage.transition (s.control sig.branch)

/-- The state of the addresses after a cycle with these values: bank select, then move. -/
def moved (s : Registers) (sig : Signals) : Registers :=
  (s.withEffect sig.effect).moveAddress s.latch sig.x (s.plan sig).address

/-- The microword that is latched after a cycle with these values. The fetch sees the address after
the bank select and before the move. -/
def nextLatch (s : Registers) (sig : Signals) (fetched : Address → Microword) : Microword :=
  if (s.plan sig).fetch then fetched (s.withEffect sig.effect).address else s.latch

/-- **The end of a cycle, data path and sequencer apart.** -/
theorem finish_eq (s : Registers) (sig : Signals) (fetched : Address → Microword) :
    s.finish sig fetched = ((s.dataPath sig).setLatch (s.nextLatch sig fetched)).placed
      (s.moved sig).address (s.moved sig).saved (s.plan sig).next := by
  have hstaged : (s.loaded sig).setStage (s.plan sig).next =
      (s.dataPath sig).placed (s.withEffect sig.effect).address s.saved (s.plan sig).next := by
    rw [loaded_eq_placed]; rfl
  have hlatched : (if (s.plan sig).fetch then ((s.loaded sig).setStage (s.plan sig).next).setLatch
        (fetched ((s.loaded sig).setStage (s.plan sig).next).address)
      else (s.loaded sig).setStage (s.plan sig).next) =
      ((s.dataPath sig).setLatch (s.nextLatch sig fetched)).placed
        (s.withEffect sig.effect).address (s.withEffect sig.effect).saved (s.plan sig).next := by
    rw [hstaged, saved_withEffect]
    unfold nextLatch
    split
    · rfl
    · rw [← latch_dataPath s sig]; rfl
  exact (congrArg (fun t : Registers => t.moveAddress s.latch sig.x (s.plan sig).address)
    hlatched).trans (moveAddress_placed _ _ _ _ _ _)

end Registers

/-! ## Cycles of an engine -/

namespace Engine

/-- The engine after a cycle with these values. -/
def next (e : Engine) (sig : Signals) : Engine :=
  ⟨((e.registers.dataPath sig).setLatch (e.registers.nextLatch sig e.store.read)).placed
    (e.registers.moved sig).address (e.registers.moved sig).saved (e.registers.plan sig).next,
    e.store, e.cycles + 1⟩

theorem step_of_signals {e : Engine} {sig : Signals} (h : e.registers.signals = .ok sig) :
    e.step = .ok (report e.registers sig, e.next sig) := by
  unfold step next
  rw [h, ← Registers.finish_eq]
  rfl

/-- **What a successful cycle does.** -/
theorem step_eq_ok_iff {e e' : Engine} {r : CycleReport} :
    e.step = .ok (r, e') ↔
      ∃ sig, e.registers.signals = .ok sig ∧ r = report e.registers sig ∧ e' = e.next sig := by
  constructor
  · intro h
    cases hs : e.registers.signals with
    | error cause => rw [step, hs] at h; cases h
    | ok sig =>
      rw [step_of_signals hs] at h
      cases h
      exact ⟨sig, rfl, rfl, rfl⟩
  · rintro ⟨sig, hs, rfl, rfl⟩
    exact step_of_signals hs

/-- A microword with a known special function and a known condition is carried out. -/
theorem step_of_codes {e : Engine} {f : SpecialFunction} {c : BranchCondition}
    (hf : SpecialFunction.ofCode? e.registers.latch.special = some f)
    (hc : BranchCondition.ofCode? e.registers.latch.condition = some c) :
    e.step = .ok (report e.registers (e.registers.signalsOf f c),
      e.next (e.registers.signalsOf f c)) :=
  step_of_signals (Registers.signals_eq_ok_iff.mpr ⟨f, c, hf, hc, rfl⟩)

/-- **A cycle fails exactly if the latched microword has a fault**, whatever the registers hold. -/
theorem step_eq_error_iff {e : Engine} {cause : OpcodeError} :
    e.step = .error cause ↔ e.registers.latch.fault? = some cause := by
  rw [← Registers.signals_eq_error_iff]
  cases hs : e.registers.signals with
  | error cause' => simp [step, hs, bind, Except.bind]
  | ok sig => simp [step_of_signals hs]

/-- A cycle leaves the control store alone. -/
theorem store_of_step {e e' : Engine} {r : CycleReport} (h : e.step = .ok (r, e')) :
    e'.store = e.store := by
  obtain ⟨sig, _, _, rfl⟩ := step_eq_ok_iff.mp h
  rfl

end Engine

end MicroEngine
