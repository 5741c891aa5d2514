import MicroEngine.Proofs.Engine.Cycle
/-!
# What a cycle reads of its microword

A part of a microword plays a part only under some flag: the carry only if the adder goes to the X
bus, a register number only if that register is read or loaded, the target of a jump only if there
is a jump. The data path reads nothing but the parts that its flags turn on.

* `Microword.neverBranches`: the branch condition never holds.
* `Microword.ignoresFlag`, `Microword.ignoresField`: the parts of a microword that play no part.
* `Microword.SameData`: two microwords ask the same of the data path.
* **`signals_setLatch`**, **`load_setLatch`**, `reportedLoads_setLatch`: the values, the loads and
  the reported loads of a cycle with another microword that asks the same.
* `branch_of_neverBranches`, `branch_of_jump`: when there is no jump.
* `Engine.AgreeUpTo`: engines that agree but for their microwords.
* **`AgreeUpTo.step`**: a cycle of two engines that agree but for their microwords.
-/

namespace MicroEngine

/-! ## Conditions that never hold -/

/-- The codes of the conditions that never hold: the first one and those of the devices. -/
def BranchCondition.neverCodes : List UInt8 := [0o00, 0o26, 0o34, 0o45]

theorem BranchCondition.holds_of_never {code : UInt8} {c : BranchCondition}
    (h : code ∈ neverCodes) (hc : ofCode? code = some c) (x y box : Word) (s : Registers) :
    c.holds x y box s = false := by
  simp only [neverCodes, List.mem_cons, List.not_mem_nil, or_false] at h
  rcases h with rfl | rfl | rfl | rfl <;>
  · cases hc
    rfl

namespace Microword

/-- The branch condition of the microword never holds. -/
def neverBranches (w : Microword) : Bool := BranchCondition.neverCodes.contains w.condition

/-! ## Parts that play no part -/

/-- The flags that make no difference to the microword, as its other parts are. -/
def ignoresFlag (w : Microword) : Flag → Bool
  | .te1y | .te2y => true
  | .ihr => !w.has .thy
  | .loc => !w.has .tax
  | .dgo => w.neverBranches
  | _ => false

/-- The fields that make no difference to the microword, as its other parts are. -/
def ignoresField (w : Microword) : Field → Bool
  | .readRegister => !w.has .thy
  | .rightBox => !w.has .tax
  | .loadRegister => !w.has .txw && !w.has .tyw
  | .constant => !w.has .tcx && !w.has .tcy
  | .scratchpad => !w.has .tspy && !w.has .lspx
  | .sequence => w.neverBranches
  | .target => w.neverBranches || w.sequence == .ret || w.sequence == .indirect
  | _ => false

/-- The two microwords ask the same of the data path: they may differ in what tells the sequencer how
to move, and in what makes no difference. -/
structure SameData (v w : Microword) : Prop where
  flag : ∀ f, f ≠ .vcy → f ≠ .dgo → v.ignoresFlag f = false → w.has f = v.has f
  field : ∀ f, f ≠ .sequence → f ≠ .target → v.ignoresField f = false → w.field f = v.field f

namespace SameData

variable {v w : Microword} (h : v.SameData w)

include h

theorem condition : w.condition = v.condition :=
  congrArg UInt32.toUInt8 (h.field .condition (by decide) (by decide) rfl)

theorem special : w.special = v.special :=
  congrArg UInt32.toUInt8 (h.field .special (by decide) (by decide) rfl)

theorem leftBox : w.leftBox = v.leftBox :=
  congrArg UInt32.toUInt8 (h.field .leftBox (by decide) (by decide) rfl)

theorem fault?_eq : w.fault? = v.fault? := by
  unfold fault?
  rw [h.special, h.condition]

theorem constant (hc : v.has .tcx = true ∨ v.has .tcy = true) : w.constant = v.constant :=
  h.field .constant (by decide) (by decide) (by rcases hc with hc | hc <;> simp [ignoresField, hc])

theorem scratchpadIndex (hs : v.has .tspy = true ∨ v.has .lspx = true) (z : Word) :
    w.scratchpadIndex z = v.scratchpadIndex z := by
  have hselect : w.scratchpadSelect = v.scratchpadSelect :=
    h.field .scratchpad (by decide) (by decide)
      (by rcases hs with hs | hs <;> simp [ignoresField, hs])
  unfold Microword.scratchpadIndex
  rw [h.special, hselect]

theorem loadRegister (hw : v.has .txw = true ∨ v.has .tyw = true) :
    w.loadRegister = v.loadRegister :=
  congrArg UInt32.toNat (h.field .loadRegister (by decide) (by decide)
    (by rcases hw with hw | hw <;> simp [ignoresField, hw]))

theorem readRegister (hr : v.has .thy = true) : w.readRegister = v.readRegister :=
  congrArg UInt32.toNat (h.field .readRegister (by decide) (by decide) (by simp [ignoresField, hr]))

theorem ihr (hr : v.has .thy = true) : w.has .ihr = v.has .ihr :=
  h.flag .ihr (by decide) (by decide) (by simp [ignoresFlag, hr])

theorem rightBox (ha : v.has .tax = true) : w.rightBox = v.rightBox :=
  congrArg UInt32.toUInt8 (h.field .rightBox (by decide) (by decide) (by simp [ignoresField, ha]))

theorem loc (ha : v.has .tax = true) : w.has .loc = v.has .loc :=
  h.flag .loc (by decide) (by decide) (by simp [ignoresFlag, ha])

end SameData

end Microword

/-! ## The values of a cycle -/

namespace Registers

section SameData

variable {s : Registers} {w : Microword} (h : s.latch.SameData w)

include h

/-- The number of a scratchpad word agrees if it is read or loaded. -/
theorem selected_setLatch (hs : s.latch.has .tspy = true ∨ s.latch.has .lspx = true) :
    (s.setLatch w).selected = s.selected :=
  h.scratchpadIndex hs s.z

theorem leftBox_setLatch : (s.setLatch w).leftBox = s.leftBox := by
  unfold leftBox
  rw [setLatch, h.leftBox]

theorem adder_setLatch (ha : s.latch.has .tax = true) : (s.setLatch w).adder = s.adder := by
  unfold adder rightBox
  rw [leftBox_setLatch h, setLatch, h.rightBox ha, h.loc ha]

theorem xBus_setLatch (f : SpecialFunction) : (s.setLatch w).xBus f = s.xBus f := by
  have htcx := h.flag .tcx (by decide) (by decide) rfl
  have htax := h.flag .tax (by decide) (by decide) rfl
  have hconstant := gate_congr fun hc => h.constant (.inl hc)
  have hadder := gate_congr (adder_setLatch h)
  change f.merge (s.setLatch w).leftBox (gate (w.has .tcx) w.constant) s.z |||
    gate (w.has .tax) (s.setLatch w).adder = _
  rw [leftBox_setLatch h, htcx, htax, hconstant, hadder]
  rfl

theorem yBus_setLatch : (s.setLatch w).yBus = s.yBus := by
  have htcy := h.flag .tcy (by decide) (by decide) rfl
  have htspy := h.flag .tspy (by decide) (by decide) rfl
  have hthy := h.flag .thy (by decide) (by decide) rfl
  have htosy := h.flag .tosy (by decide) (by decide) rfl
  have hconstant := gate_congr fun hc => h.constant (.inr hc)
  have hselected : gate (s.latch.has .tspy) (s.readScratchpad (s.setLatch w).selected) =
      gate (s.latch.has .tspy) (s.readScratchpad s.selected) :=
    gate_congr fun hs => congrArg s.readScratchpad (selected_setLatch h (.inl hs))
  have hread : gate (s.latch.has .thy) (Word.sum (s.readHolding w.readRegister) 0 (w.has .ihr)) =
      gate (s.latch.has .thy)
        (Word.sum (s.readHolding s.latch.readRegister) 0 (s.latch.has .ihr)) :=
    gate_congr fun hr => by rw [h.readRegister hr, h.ihr hr]
  change gate (w.has .tcy) w.constant |||
    gate (w.has .tspy) (s.readScratchpad (s.setLatch w).selected) |||
    gate (w.has .thy) (Word.sum (s.readHolding w.readRegister) 0 (w.has .ihr)) |||
    gate (w.has .tosy) s.saved.toUInt32 = _
  rw [htcy, htspy, hthy, htosy, hconstant, hselected, hread]
  rfl

theorem signalsOf_setLatch (f : SpecialFunction) (c : BranchCondition) :
    (s.setLatch w).signalsOf f c = s.signalsOf f c := by
  have hholds (x y box : Word) : c.holds x y box (s.setLatch w) = c.holds x y box s := by
    cases c <;> rfl
  unfold signalsOf
  rw [xBus_setLatch h, yBus_setLatch h, leftBox_setLatch h, hholds]

/-- **A microword that asks the same has the same values.** -/
theorem signals_setLatch {sig : Signals} (hs : s.signals = .ok sig) :
    (s.setLatch w).signals = .ok sig := by
  obtain ⟨f, c, hf, hc, rfl⟩ := signals_eq_ok_iff.mp hs
  refine signals_eq_ok_iff.mpr ⟨f, c, ?_, ?_, (signalsOf_setLatch h f c).symm⟩
  · rw [← hf, ← h.special]; rfl
  · rw [← hc, ← h.condition]; rfl

/-! ## The loads of a cycle -/

theorem loadsHolding_setLatch : (s.setLatch w).loadsHolding = s.loadsHolding := by
  have htxw := h.flag .txw (by decide) (by decide) rfl
  have htyw := h.flag .tyw (by decide) (by decide) rfl
  unfold loadsHolding
  rw [setLatch, htxw, htyw]

/-- The number of a register agrees if one is loaded. -/
theorem loadRegister_setLatch (hw : s.loadsHolding = true) :
    (s.setLatch w).latch.loadRegister = s.latch.loadRegister :=
  h.loadRegister (by simpa [loadsHolding] using hw)

theorem loadHolding_setLatch (x y : Word) :
    (s.setLatch w).loadHolding x y = (s.loadHolding x y).setLatch w := by
  have hlr0 := h.flag .lr0 (by decide) (by decide) rfl
  have htxw := h.flag .txw (by decide) (by decide) rfl
  have htyw := h.flag .tyw (by decide) (by decide) rfl
  have hbus : (s.setLatch w).holdingBus x y = s.holdingBus x y := by
    unfold holdingBus
    rw [setLatch, htxw, htyw]
  have hzero : (if (s.setLatch w).latch.has .lr0 then (s.setLatch w).setHolding 0 (s.holdingBus x y)
      else s.setLatch w) =
      (if s.latch.has .lr0 then s.setHolding 0 (s.holdingBus x y) else s).setLatch w := by
    rw [apply_ite (setLatch · w)]
    change (if w.has .lr0 then _ else _) = _
    rw [hlr0]
    rfl
  unfold loadHolding
  dsimp only
  rw [hbus, loadsHolding_setLatch h, hzero]
  by_cases hw : s.loadsHolding = true
  · rw [if_pos hw, if_pos hw, loadRegister_setLatch h hw]
    rfl
  · rw [if_neg hw, if_neg hw]

/-- The loads after the first one see the state `t` that it leaves, with the latch of `s`. -/
theorem loadScratchpad_setLatch {t : Registers} (ht : t.latch = s.latch) (x : Word) :
    (t.setLatch w).loadScratchpad x = (t.loadScratchpad x).setLatch w := by
  have hlspx := h.flag .lspx (by decide) (by decide) rfl
  unfold loadScratchpad
  change (if w.has .lspx then (t.setLatch w).setScratchpad (w.scratchpadIndex t.z) x else _) = _
  rw [hlspx, ht]
  by_cases hs : s.latch.has .lspx = true
  · rw [if_pos hs, if_pos hs, h.scratchpadIndex (.inr hs), selected, ht]
    rfl
  · rw [if_neg hs, if_neg hs]

theorem loadM_setLatch {t : Registers} (ht : t.latch = s.latch) (x y : Word) :
    (t.setLatch w).loadM x y = (t.loadM x y).setLatch w := by
  have hlmx := h.flag .lmx (by decide) (by decide) rfl
  have hlmy := h.flag .lmy (by decide) (by decide) rfl
  unfold loadM
  rw [setLatch, hlmx, hlmy, ht]
  split <;> rfl

theorem loadQ_setLatch {t : Registers} (ht : t.latch = s.latch) (x y : Word) :
    (t.setLatch w).loadQ x y = (t.loadQ x y).setLatch w := by
  have hlqx := h.flag .lqx (by decide) (by decide) rfl
  have hlqy := h.flag .lqy (by decide) (by decide) rfl
  unfold loadQ
  rw [setLatch, hlqx, hlqy, ht]
  split <;> rfl

theorem loadZ_setLatch {t : Registers} (ht : t.latch = s.latch) (x y : Word) :
    (t.setLatch w).loadZ x y = (t.loadZ x y).setLatch w := by
  have hlzx := h.flag .lzx (by decide) (by decide) rfl
  have hlzy := h.flag .lzy (by decide) (by decide) rfl
  unfold loadZ
  rw [setLatch, hlzx, hlzy, ht]
  split <;> rfl

/-- **A microword that asks the same has the same loads.** -/
theorem load_setLatch (x y : Word) : (s.setLatch w).load x y = (s.load x y).setLatch w := by
  have hH := latch_loadHolding s x y
  have hS := (latch_loadScratchpad _ x).trans hH
  have hM := (latch_loadM _ x y).trans hS
  have hQ := (latch_loadQ _ x y).trans hM
  rw [load, loadHolding_setLatch h, loadScratchpad_setLatch h hH, loadM_setLatch h hS,
    loadQ_setLatch h hM, loadZ_setLatch h hQ, load]

theorem reportedLoads_setLatch (after : Registers) :
    (s.setLatch w).reportedLoads after = s.reportedLoads after := by
  -- A list of loads asks first whether there is one, and then for what.
  have hload (isLoaded : Bool) {l l' : RegisterLoad} (hl : isLoaded = true → l = l') :
      (if isLoaded then [l] else []) = if isLoaded then [l'] else [] := by
    cases isLoaded with
    | false => rfl
    | true => rw [hl rfl]
  have hflag (f : Flag) (hv : f ≠ .vcy) (hd : f ≠ .dgo) (hf : s.latch.ignoresFlag f = false) :
      (s.setLatch w).latch.has f = s.latch.has f := h.flag f hv hd hf
  have hfitted : (s.loadsHolding && isFitted (s.setLatch w).latch.loadRegister) =
      (s.loadsHolding && isFitted s.latch.loadRegister) := by
    cases hw : s.loadsHolding with
    | false => rfl
    | true => rw [loadRegister_setLatch h hw]
  have hholding := hload (s.loadsHolding && isFitted s.latch.loadRegister) fun hl =>
    congrArg (fun i => RegisterLoad.holding i (after.readHolding i))
      (loadRegister_setLatch h (Bool.and_eq_true_iff.mp hl).1)
  have hscratchpad := hload (s.latch.has .lspx) fun hl =>
    congrArg (fun i => RegisterLoad.scratchpad i (after.readScratchpad i))
      (selected_setLatch h (.inr hl))
  unfold reportedLoads
  dsimp only
  rw [hflag .lr0 (by decide) (by decide) rfl, hflag .lspx (by decide) (by decide) rfl,
    hflag .lmx (by decide) (by decide) rfl, hflag .lmy (by decide) (by decide) rfl,
    hflag .lqx (by decide) (by decide) rfl, hflag .lqy (by decide) (by decide) rfl,
    hflag .lzx (by decide) (by decide) rfl, hflag .lzy (by decide) (by decide) rfl,
    loadsHolding_setLatch h, hfitted, hholding, hscratchpad]

/-! ## The end of a cycle -/

theorem dataPath_setLatch {sig : Signals} (hc : (s.setLatch w).commits sig = s.commits sig) :
    (s.setLatch w).dataPath sig = (s.dataPath sig).setLatch w := by
  unfold dataPath
  rw [hc, load_setLatch h, apply_ite (setLatch · w)]

theorem report_setLatch {sig : Signals} (hc : (s.setLatch w).commits sig = s.commits sig) :
    Engine.report (s.setLatch w) sig = { Engine.report s sig with microword := w } := by
  have hloaded : (s.setLatch w).reportedLoads ((s.setLatch w).loaded sig) =
      s.reportedLoads (s.loaded sig) := by
    rw [reportedLoads_setLatch h, loaded_eq_placed, loaded_eq_placed, dataPath_setLatch h hc]
    rfl
  unfold Engine.report
  rw [hc, hloaded]
  rfl

end SameData

end Registers

/-! ## Moves of the micro address -/

/-- A microword that never branches does not branch. -/
theorem Registers.branch_of_neverBranches {s : Registers} {sig : Signals}
    (hb : s.latch.neverBranches = true) (hs : s.signals = .ok sig) : sig.branch = false := by
  obtain ⟨f, c, -, hc, rfl⟩ := signals_eq_ok_iff.mp hs
  exact BranchCondition.holds_of_never (List.contains_iff_mem.mp hb) hc _ _ _ _

namespace Stage

/-- The end of a cycle is the same for two inputs of the sequencer. -/
def EndsAlike (stage : Stage) (control control' : SequencerInput) : Prop :=
  stage.commits control' = stage.commits control ∧
    stage.transition control' = stage.transition control

/-- Whether a jump is deferred makes no difference if there is none. -/
theorem endsAlike_of_no_branch (stage : Stage) (d d' v : Bool) :
    stage.EndsAlike ⟨false, d, v⟩ ⟨false, d', v⟩ := by
  cases stage <;> cases d <;> cases d' <;> exact ⟨rfl, rfl⟩

/-- Whether a cycle is stretched makes no difference after the first one if there is no branch. -/
theorem endsAlike_of_not_normal {stage : Stage} (h : stage ≠ .normal) (d v v' : Bool) :
    stage.EndsAlike ⟨false, d, v⟩ ⟨false, d, v'⟩ := by
  cases stage with
  | normal => exact absurd rfl h
  | branchPending => cases v <;> cases v' <;> cases d <;> exact ⟨rfl, rfl⟩
  | extendedSettle => exact ⟨rfl, rfl⟩

/-- Only a branch jumps. -/
theorem branch_of_jump {stage : Stage} {control : SequencerInput}
    (h : (stage.transition control).address = .jump) : control.branch = true := by
  obtain ⟨b, d, v⟩ := control
  cases b with
  | true => rfl
  | false => cases stage <;> cases v <;> cases h

end Stage

namespace Registers

theorem withEffect_setLatch (s : Registers) (w : Microword) (eff : SpecialEffect) :
    (s.setLatch w).withEffect eff = (s.withEffect eff).setLatch w := by
  cases eff with
  | selectBank bank => cases bank <;> rfl
  | _ => rfl

/-- A move for a microword that jumps to the same place, if there is a jump. -/
theorem moveAddress_setLatch {s : Registers} {v w : Microword} {x : Word} {move : AddressMove}
    (h : move = .jump → s.jump w.sequence w.target x = s.jump v.sequence v.target x) :
    (s.setLatch w).moveAddress w x move = (s.moveAddress v x move).setLatch w := by
  have hjump (how : JumpMode) (target : Address) :
      (s.setLatch w).jump how target x = (s.jump how target x).setLatch w := by
    cases how <;> rfl
  cases move with
  | hold => rfl
  | increment => rfl
  | jump =>
    change (s.setLatch w).jump w.sequence w.target x = (s.jump v.sequence v.target x).setLatch w
    rw [hjump, h rfl]

end Registers

/-! ## Engines with different microwords -/

namespace Engine

/-- The two engines agree but for their microwords, which are related: the latched ones, and those of
the control stores address by address. -/
structure AgreeUpTo (R : Microword → Microword → Prop) (e e' : Engine) : Prop where
  registers : e'.registers = e.registers.setLatch e'.registers.latch
  latch : R e.registers.latch e'.registers.latch
  store : ∀ a, R (e.store.read a) (e'.store.read a)

variable {R : Microword → Microword → Prop} {e e' : Engine}

/-- A microword that asks the same fails for the same reason. -/
theorem step_eq_error_congr (h : e.registers.latch.SameData e'.registers.latch)
    {cause : OpcodeError} : e'.step = .error cause ↔ e.step = .error cause := by
  rw [step_eq_error_iff, step_eq_error_iff, ← h.fault?_eq]

/-- **A cycle with another microword that asks the same**, of the sequencer as well: the same report
but for the microword, and again two engines that agree but for their microwords. -/
theorem AgreeUpTo.step (h : e.AgreeUpTo R e')
    (hw : e.registers.latch.SameData e'.registers.latch) {sig : Signals}
    (hs : e.registers.signals = .ok sig)
    (hend : e.registers.stage.EndsAlike (e.registers.control sig.branch)
      ⟨sig.branch, e'.registers.latch.has .dgo, e'.registers.latch.has .vcy⟩)
    (hj : (e.registers.plan sig).address = .jump → ∀ t : Registers,
      t.jump e'.registers.latch.sequence e'.registers.latch.target sig.x =
        t.jump e.registers.latch.sequence e.registers.latch.target sig.x) :
    e'.step = .ok ({ report e.registers sig with microword := e'.registers.latch },
        e'.next sig) ∧
      (e.next sig).AgreeUpTo R (e'.next sig) := by
  obtain ⟨s', store', n'⟩ := e'
  obtain ⟨w, rfl⟩ : ∃ w, s' = e.registers.setLatch w := ⟨_, h.registers⟩
  have hs' : (e.registers.setLatch w).signals = .ok sig := Registers.signals_setLatch hw hs
  have hc : (e.registers.setLatch w).commits sig = e.registers.commits sig := hend.1
  have hp : (e.registers.setLatch w).plan sig = e.registers.plan sig := hend.2
  have hd : (e.registers.setLatch w).dataPath sig = (e.registers.dataPath sig).setLatch w :=
    Registers.dataPath_setLatch hw hc
  have hm : (e.registers.setLatch w).moved sig = (e.registers.moved sig).setLatch w := by
    unfold Registers.moved
    rw [hp, Registers.withEffect_setLatch]
    exact Registers.moveAddress_setLatch fun hjump => hj hjump _
  have hlatch : R (e.registers.nextLatch sig e.store.read)
      ((e.registers.setLatch w).nextLatch sig store'.read) := by
    unfold Registers.nextLatch
    rw [hp, Registers.withEffect_setLatch]
    cases (e.registers.plan sig).fetch with
    | true => exact h.store _
    | false => exact h.latch
  refine ⟨?_, ?_, hlatch, h.store⟩
  · rw [step_of_signals (e := ⟨e.registers.setLatch w, store', n'⟩) hs']
    exact congrArg (fun r => Except.ok (r, _)) (Registers.report_setLatch hw hc)
  · unfold next
    dsimp only
    rw [hd, hp, hm]
    rfl

end Engine

end MicroEngine
