import MicroEngine.Proofs.Engine.Run
/-!
# How long a microword takes

A microword that is latched in the normal stage takes one, two or three cycles. Which it is depends
on its extended-cycle and deferred-jump flags and on the branch outcome of its first cycle.

* `Pass`: what a cycle says of the pipeline; `Engine.Passes` lists the passes of a run.
* `Registers.goneTo`: a state with the sequencer of another one; `Registers.jumped`: where a taken
  jump leads to.
* `step_eq_after`, `Passes.cycle`: the next pass of a microword whose codes are known.
* `passes_settled`, `passes_jumping`, `passes_stretched`, `passes_deferred`, `passes_settling`: the
  five ways of a microword through the pipeline.
* **`passes_microword`**: all five together, with the engine after them.
-/

namespace MicroEngine

namespace Registers

/-- The data registers of `s`, with the sequencer where it is in `t`. -/
def goneTo (s t : Registers) (stage : Stage) : Registers := s.placed t.address t.saved stage

/-- Where a taken jump of the latched microword leads to, after its bank select. -/
def jumped (s : Registers) (f : SpecialFunction) : Registers :=
  (s.withEffect f.effect).jump s.latch.sequence s.latch.target (s.xBus f)

/-- A cycle has the same values wherever the sequencer is, if the saved address is the same. -/
theorem signalsOf_placed (s : Registers) (o : Address) (stage : Stage) (f : SpecialFunction)
    (c : BranchCondition) : (s.placed o s.saved stage).signalsOf f c = s.signalsOf f c :=
  s.signalsOf_placed_of_saved o s.saved stage (fun _ => rfl) f c

/-- The bank select of a microword that runs again changes nothing. -/
theorem withEffect_withEffect (s : Registers) (eff : SpecialEffect) :
    (s.withEffect eff).withEffect eff = s.withEffect eff := by
  cases eff with
  | selectBank bank =>
    cases bank with
    | a =>
      change s.placed (s.address &&& Address.offsetMask &&& Address.offsetMask) s.saved s.stage = _
      rw [UInt16.and_assoc, UInt16.and_self]
      rfl
    | b =>
      change s.placed (s.address ||| Address.bankBit ||| Address.bankBit) s.saved s.stage = _
      rw [UInt16.or_assoc, UInt16.or_self]
      rfl
  | _ => rfl

theorem withEffect_goneTo (s t : Registers) (stage : Stage) (eff : SpecialEffect) :
    (s.goneTo t stage).withEffect eff = s.goneTo (t.withEffect eff) stage := by
  cases eff with
  | selectBank bank => cases bank <;> rfl
  | _ => rfl

theorem load_goneTo (s t : Registers) (stage : Stage) (x y : Word) :
    (s.goneTo t stage).load x y = (s.load x y).goneTo t stage :=
  load_placed s t.address t.saved stage x y

/-! ### The second cycle of a stretched microword -/

/-- The state after the first cycle of a stretched microword: the bank is selected, no more. -/
def stretched (s : Registers) (f : SpecialFunction) : Registers :=
  s.goneTo (s.withEffect f.effect) .branchPending

/-- It has the values of the first cycle. -/
theorem signalsOf_stretched (s : Registers) (f : SpecialFunction) (c : BranchCondition) :
    (s.stretched f).signalsOf f c = s.signalsOf f c := by
  unfold stretched goneTo
  rw [saved_withEffect, signalsOf_placed]

theorem yBus_stretched (s : Registers) (f : SpecialFunction) : (s.stretched f).yBus = s.yBus := by
  unfold stretched goneTo
  rw [saved_withEffect]
  rfl

/-- It does not move the bank again. -/
theorem withEffect_stretched (s : Registers) (f : SpecialFunction) :
    (s.stretched f).withEffect f.effect = s.stretched f := by
  unfold stretched
  rw [withEffect_goneTo, withEffect_withEffect]

/-- Its jump leads where the jump of the first cycle would. -/
theorem jumped_stretched (s : Registers) (f : SpecialFunction) :
    (s.stretched f).jumped f = s.goneTo (s.jumped f) .branchPending := by
  unfold jumped
  rw [withEffect_stretched]
  exact moveAddress_placed s (s.withEffect f.effect) .branchPending s.latch (s.xBus f) .jump

end Registers

/-- What a cycle says of the pipeline: the stage it ran in, the microword it executed, and whether
it committed the register loads. -/
structure Pass where
  stage : Stage
  microword : Microword
  commits : Bool
  deriving DecidableEq

/-- The pass of a cycle. -/
def CycleReport.pass (r : CycleReport) : Pass := ⟨r.stage, r.microword, r.committed⟩

namespace Engine

/-- The engine goes through these passes, one a cycle, and is then in the state `e'`. -/
def Passes (e : Engine) (ps : List Pass) (e' : Engine) : Prop :=
  ∃ rs, e.run ps.length = .ok (rs, e') ∧ rs.map CycleReport.pass = ps

theorem Passes.nil (e : Engine) : e.Passes [] e := ⟨[], rfl, rfl⟩

theorem Passes.cons {e e' e'' : Engine} {r : CycleReport} {ps : List Pass}
    (h : e.step = .ok (r, e')) (hps : e'.Passes ps e'') : e.Passes (r.pass :: ps) e'' := by
  obtain ⟨rs, hr, hp⟩ := hps
  exact ⟨r :: rs, run_succ_eq_ok_iff.mpr ⟨r, e', rs, h, hr, rfl⟩, by rw [List.map_cons, hp]⟩

section Microword

variable {e : Engine} {f : SpecialFunction} {c : BranchCondition}

/-- The engine after a cycle in a stage with these values and sequencer inputs. -/
def after (e : Engine) (stage : Stage) (control : SequencerInput) (sig : Signals) : Engine :=
  let s := e.registers
  let s' := s.withEffect sig.effect
  let plan := stage.transition control
  let moved := s'.moveAddress s.latch sig.x plan.address
  ⟨((if stage.commits control then s.load sig.x sig.y else s).setLatch
    (if plan.fetch then e.store.read s'.address else s.latch)).goneTo moved plan.next,
    e.store, e.cycles + 1⟩

/-- A cycle of a microword whose codes are known, by its stage, its branch outcome and its flags. -/
theorem step_eq_after {stage : Stage} {b d v : Bool}
    (hf : SpecialFunction.ofCode? e.registers.latch.special = some f)
    (hc : BranchCondition.ofCode? e.registers.latch.condition = some c)
    (hst : e.registers.stage = stage) (hb : (e.registers.signalsOf f c).branch = b)
    (hd : e.registers.latch.has .dgo = d) (hv : e.registers.latch.has .vcy = v) :
    e.step = .ok (report e.registers (e.registers.signalsOf f c),
      e.after stage ⟨b, d, v⟩ (e.registers.signalsOf f c)) := by
  subst hst hb hd hv
  exact step_of_codes hf hc

/-- **The next pass of a microword whose codes are known**, by its stage, its branch outcome and its
flags. -/
theorem Passes.cycle {stage : Stage} {b d v : Bool} {ps : List Pass} {e' : Engine}
    (hf : SpecialFunction.ofCode? e.registers.latch.special = some f)
    (hc : BranchCondition.ofCode? e.registers.latch.condition = some c)
    (hst : e.registers.stage = stage) (hb : (e.registers.signalsOf f c).branch = b)
    (hd : e.registers.latch.has .dgo = d) (hv : e.registers.latch.has .vcy = v)
    (h : (e.after stage ⟨b, d, v⟩ (e.registers.signalsOf f c)).Passes ps e') :
    e.Passes (⟨stage, e.registers.latch, stage.commits ⟨b, d, v⟩⟩ :: ps) e' := by
  have hstep := step_eq_after hf hc hst hb hd hv
  subst hst hb hd hv
  exact Passes.cons hstep h

/-- The engine in the normal stage so many cycles later, with the data registers of `d`, with the
microword at `fetched` latched and with the sequencer where it is in `p`. -/
def resume (e : Engine) (n : Nat) (d : Registers) (fetched : Address) (p : Registers) : Engine :=
  ⟨(d.setLatch (e.store.read fetched)).goneTo p .normal, e.store, e.cycles + n⟩

/-- The engine after a cycle that commits, fetches and advances. The registers before it are those
of `s`, with the sequencer where it is in `t`. -/
theorem after_last {s t : Registers} {n : Nat} {stage : Stage} {control : SequencerInput}
    (hcommit : stage.commits control = true)
    (hplan : stage.transition control = ⟨.normal, true, .increment⟩) :
    after ⟨s.goneTo t stage, e.store, e.cycles + n⟩ stage control
        ((s.goneTo t stage).signalsOf f c) =
      e.resume (n + 1) (s.load (s.xBus f) (s.goneTo t stage).yBus)
        (t.withEffect f.effect).address (t.withEffect f.effect).advance := by
  unfold after resume
  rw [hcommit, hplan]
  change Engine.mk ((((s.goneTo t stage).load (s.xBus f) (s.goneTo t stage).yBus).setLatch
    (e.store.read ((s.goneTo t stage).withEffect f.effect).address)).goneTo
      ((s.goneTo t stage).withEffect f.effect).advance .normal) e.store _ = _
  rw [Registers.withEffect_goneTo, Registers.load_goneTo]
  rfl

/-- **The last pass of a microword**, in a stage that commits, fetches and advances. -/
theorem Passes.last {s t : Registers} {n : Nat} {stage : Stage} {b d v : Bool}
    (hf : SpecialFunction.ofCode? s.latch.special = some f)
    (hc : BranchCondition.ofCode? s.latch.condition = some c)
    (hb : ((s.goneTo t stage).signalsOf f c).branch = b)
    (hd : s.latch.has .dgo = d) (hv : s.latch.has .vcy = v)
    (hcommit : stage.commits ⟨b, d, v⟩ = true)
    (hplan : stage.transition ⟨b, d, v⟩ = ⟨.normal, true, .increment⟩) :
    Passes ⟨s.goneTo t stage, e.store, e.cycles + n⟩ [⟨stage, s.latch, true⟩]
      (e.resume (n + 1) (s.load (s.xBus f) (s.goneTo t stage).yBus)
        (t.withEffect f.effect).address (t.withEffect f.effect).advance) := by
  have h : Passes ⟨s.goneTo t stage, e.store, e.cycles + n⟩
    [⟨stage, s.latch, _⟩] _ := Passes.cycle hf hc rfl hb hd hv (Passes.nil _)
  rwa [after_last hcommit hplan, hcommit] at h

/-- **The second pass of a stretched microword that jumps** commits nothing, fetches, and then takes
the jump. -/
theorem Passes.second {s : Registers} {n : Nat} {ps : List Pass} {e' : Engine}
    (hst : s.stage = .branchPending)
    (hf : SpecialFunction.ofCode? s.latch.special = some f)
    (hc : BranchCondition.ofCode? s.latch.condition = some c)
    (hb : (s.signalsOf f c).branch = true) (hv : s.latch.has .vcy = true)
    (h : Passes ⟨(s.setLatch (e.store.read (s.withEffect f.effect).address)).goneTo (s.jumped f)
      (if s.latch.has .dgo then .normal else .extendedSettle), e.store, n + 1⟩ ps e') :
    Passes ⟨s, e.store, n⟩ (⟨.branchPending, s.latch, false⟩ :: ps) e' := by
  cases hd : s.latch.has .dgo <;>
  · rw [hd] at h
    exact Passes.cycle (e := ⟨s, e.store, n⟩) hf hc hst hb hd hv h

variable (hn : e.registers.stage = .normal)
  (hf : SpecialFunction.ofCode? e.registers.latch.special = some f)
  (hc : BranchCondition.ofCode? e.registers.latch.condition = some c)

include hn hf hc

/-- **One cycle**, if it is not extended and there is no jump to wait for. -/
theorem passes_settled (hv : e.registers.latch.has .vcy = false)
    (hb : (e.registers.signalsOf f c).branch = false ∨ e.registers.latch.has .dgo = true) :
    e.Passes [⟨.normal, e.registers.latch, true⟩]
      (e.resume 1 (e.registers.load (e.registers.xBus f) e.registers.yBus)
        (e.registers.withEffect f.effect).address
        (if (e.registers.signalsOf f c).branch then e.registers.jumped f
          else (e.registers.withEffect f.effect).advance)) := by
  cases ht : (e.registers.signalsOf f c).branch with
  | false => cases hd : e.registers.latch.has .dgo <;>
      exact Passes.cycle hf hc hn ht hd hv (Passes.nil _)
  | true =>
    have hd : e.registers.latch.has .dgo = true := hb.resolve_left (by rw [ht]; decide)
    exact Passes.cycle hf hc hn ht hd hv (Passes.nil _)

/-- **Two cycles** for a jump that is taken at once. The second executes the microword at the target
of the jump, with the saved address that a call has just written, and its own branch outcome plays
no part. -/
theorem passes_jumping (hv : e.registers.latch.has .vcy = false)
    (hb : (e.registers.signalsOf f c).branch = true) (hd : e.registers.latch.has .dgo = false) :
    e.Passes [⟨.normal, e.registers.latch, false⟩, ⟨.branchPending, e.registers.latch, true⟩]
      (e.resume 2 (e.registers.load (e.registers.xBus f)
          (e.registers.goneTo (e.registers.jumped f) .branchPending).yBus)
        ((e.registers.jumped f).withEffect f.effect).address
        ((e.registers.jumped f).withEffect f.effect).advance) := by
  refine Passes.cycle hf hc hn hb hd hv ?_
  -- A call has changed the saved address, and with it perhaps the Y bus and the branch outcome.
  change Passes ⟨e.registers.goneTo (e.registers.jumped f) .branchPending, e.store,
    e.cycles + 1⟩ _ _
  cases hb' : ((e.registers.goneTo (e.registers.jumped f) .branchPending).signalsOf f c).branch <;>
    exact Passes.last hf hc hb' hd hv rfl rfl

/-- The first cycle of a stretched microword moves the bank, whatever its branch outcome. -/
theorem Passes.stretch (hv : e.registers.latch.has .vcy = true) {ps : List Pass} {e' : Engine}
    (h : Passes ⟨e.registers.stretched f, e.store, e.cycles + 1⟩ ps e') :
    e.Passes (⟨.normal, e.registers.latch, false⟩ :: ps) e' := by
  cases hb : (e.registers.signalsOf f c).branch <;> cases hd : e.registers.latch.has .dgo <;>
    exact Passes.cycle hf hc hn hb hd hv h

/-- **Two cycles** for a stretched microword that does not jump. -/
theorem passes_stretched (hv : e.registers.latch.has .vcy = true)
    (hb : (e.registers.signalsOf f c).branch = false) :
    e.Passes [⟨.normal, e.registers.latch, false⟩, ⟨.branchPending, e.registers.latch, true⟩]
      (e.resume 2 (e.registers.load (e.registers.xBus f) e.registers.yBus)
        (e.registers.withEffect f.effect).address
        (e.registers.withEffect f.effect).advance) := by
  have hb' := (congrArg Signals.branch (e.registers.signalsOf_stretched f c)).trans hb
  have hy : (e.registers.goneTo (e.registers.withEffect f.effect) .branchPending).yBus =
      e.registers.yBus := e.registers.yBus_stretched f
  have h := Passes.last (e := e) (t := e.registers.withEffect f.effect) (n := 1) hf hc hb' rfl hv
    rfl rfl
  rw [Registers.withEffect_withEffect, hy] at h
  exact Passes.stretch hn hf hc hv h

/-- The first two cycles of a stretched microword that jumps: neither commits, and the microword
after this one is latched as the jump is taken. -/
theorem Passes.stretch_jump (hv : e.registers.latch.has .vcy = true)
    (hb : (e.registers.signalsOf f c).branch = true) {ps : List Pass} {e' : Engine}
    (h : Passes ⟨(e.registers.setLatch
        (e.store.read (e.registers.withEffect f.effect).address)).goneTo (e.registers.jumped f)
      (if e.registers.latch.has .dgo then .normal else .extendedSettle), e.store, e.cycles + 2⟩
      ps e') :
    e.Passes (⟨.normal, e.registers.latch, false⟩ :: ⟨.branchPending, e.registers.latch, false⟩ ::
      ps) e' := by
  have hb' := (congrArg Signals.branch (e.registers.signalsOf_stretched f c)).trans hb
  refine Passes.stretch hn hf hc hv (Passes.second rfl hf hc hb' hv ?_)
  rw [Registers.withEffect_stretched, Registers.jumped_stretched]
  exact h

/-- **Two cycles** for a stretched microword with a deferred jump, and none of them commits. -/
theorem passes_deferred (hv : e.registers.latch.has .vcy = true)
    (hb : (e.registers.signalsOf f c).branch = true) (hd : e.registers.latch.has .dgo = true) :
    e.Passes [⟨.normal, e.registers.latch, false⟩, ⟨.branchPending, e.registers.latch, false⟩]
      (e.resume 2 e.registers (e.registers.withEffect f.effect).address
        (e.registers.jumped f)) := by
  refine Passes.stretch_jump hn hf hc hv hb ?_
  rw [hd]
  exact Passes.nil _

/-- The two cycles of a stretched microword that jumps at once; the microword after it, already
latched, is left to run in the third stage. -/
theorem passes_dropped (hv : e.registers.latch.has .vcy = true)
    (hb : (e.registers.signalsOf f c).branch = true) (hd : e.registers.latch.has .dgo = false) :
    e.Passes [⟨.normal, e.registers.latch, false⟩, ⟨.branchPending, e.registers.latch, false⟩]
      ⟨(e.registers.setLatch
          (e.store.read (e.registers.withEffect f.effect).address)).goneTo (e.registers.jumped f)
        .extendedSettle, e.store, e.cycles + 2⟩ := by
  refine Passes.stretch_jump hn hf hc hv hb ?_
  rw [hd]
  exact Passes.nil _

/-- **Three cycles** for a stretched microword that jumps at once. The third executes the microword
that follows it in the store, and commits the loads of that one. -/
theorem passes_settling (hv : e.registers.latch.has .vcy = true)
    (hb : (e.registers.signalsOf f c).branch = true) (hd : e.registers.latch.has .dgo = false)
    {w' : Microword} (hw' : e.store.read (e.registers.withEffect f.effect).address = w')
    {f' : SpecialFunction} {c' : BranchCondition}
    (hf' : SpecialFunction.ofCode? w'.special = some f')
    (hc' : BranchCondition.ofCode? w'.condition = some c') :
    e.Passes [⟨.normal, e.registers.latch, false⟩, ⟨.branchPending, e.registers.latch, false⟩,
        ⟨.extendedSettle, w', true⟩]
      (e.resume 3 ((e.registers.setLatch w').load ((e.registers.setLatch w').xBus f')
          ((e.registers.setLatch w').goneTo (e.registers.jumped f) .extendedSettle).yBus)
        ((e.registers.jumped f).withEffect f'.effect).address
        ((e.registers.jumped f).withEffect f'.effect).advance) := by
  refine Passes.stretch_jump hn hf hc hv hb ?_
  rw [hd, hw']
  exact Passes.last (s := e.registers.setLatch w') (n := 2) hf' hc' rfl rfl rfl rfl rfl

end Microword

/-- **How long a microword takes and what it leaves behind.** From the normal stage, with known
codes: the passes of the latched microword, and the engine after them, by the extended-cycle flag,
the branch outcome of the first cycle and the deferred-jump flag. In the last case the third cycle
executes the microword fetched in the second, if its codes are known as well. -/
theorem passes_microword {e : Engine} {f : SpecialFunction} {c : BranchCondition}
    (hn : e.registers.stage = .normal)
    (hf : SpecialFunction.ofCode? e.registers.latch.special = some f)
    (hc : BranchCondition.ofCode? e.registers.latch.condition = some c) :
    let s := e.registers
    let w := s.latch
    let x := s.xBus f
    let branch := c.holds x s.yBus s.leftBox s
    let selected := s.withEffect f.effect
    let target := s.jumped f
    (w.has .vcy = false → branch = false ∨ w.has .dgo = true →
      e.Passes [⟨.normal, w, true⟩]
        (e.resume 1 (s.load x s.yBus) selected.address
          (if branch then target else selected.advance))) ∧
    (w.has .vcy = false → branch = true → w.has .dgo = false →
      e.Passes [⟨.normal, w, false⟩, ⟨.branchPending, w, true⟩]
        (e.resume 2 (s.load x (s.goneTo target .branchPending).yBus)
          (target.withEffect f.effect).address (target.withEffect f.effect).advance)) ∧
    (w.has .vcy = true → branch = false →
      e.Passes [⟨.normal, w, false⟩, ⟨.branchPending, w, true⟩]
        (e.resume 2 (s.load x s.yBus) selected.address selected.advance)) ∧
    (w.has .vcy = true → branch = true → w.has .dgo = true →
      e.Passes [⟨.normal, w, false⟩, ⟨.branchPending, w, false⟩]
        (e.resume 2 s selected.address target)) ∧
    (w.has .vcy = true → branch = true → w.has .dgo = false →
      let s' := s.setLatch (e.store.read selected.address)
      let settling := s'.goneTo target .extendedSettle
      e.Passes [⟨.normal, w, false⟩, ⟨.branchPending, w, false⟩]
        ⟨settling, e.store, e.cycles + 2⟩ ∧
      ∀ f' c', SpecialFunction.ofCode? s'.latch.special = some f' →
        BranchCondition.ofCode? s'.latch.condition = some c' →
        e.Passes [⟨.normal, w, false⟩, ⟨.branchPending, w, false⟩,
            ⟨.extendedSettle, s'.latch, true⟩]
          (e.resume 3 (s'.load (s'.xBus f') settling.yBus)
            (target.withEffect f'.effect).address (target.withEffect f'.effect).advance)) := by
  intro s w x branch selected target
  refine ⟨?_, ?_, ?_, ?_, ?_⟩
  · exact passes_settled hn hf hc
  · exact passes_jumping hn hf hc
  · exact passes_stretched hn hf hc
  · exact passes_deferred hn hf hc
  · intro hv hb hd
    exact ⟨passes_dropped hn hf hc hv hb hd,
      fun _ _ hf' hc' => passes_settling hn hf hc hv hb hd rfl hf' hc'⟩

/-- A call into the second bank that is taken at once: two cycles, of which the second commits, and
the saved address lies in the bank that was selected before the jump. The same call in a stretched
cycle takes three, of which the third executes the microword that follows it. -/
theorem passes_call_selectB :
    let w := Microword.ofBits [5, 7, 17, 60, 61, 65]
    let v := w.setBit 86
    (∃ e', Passes ⟨{ Registers.zero with latch := w }, .empty, 0⟩
        [⟨.normal, w, false⟩, ⟨.branchPending, w, true⟩] e' ∧
      e'.registers.address = 0o2002 ∧ e'.registers.saved = 0o2000 ∧
      e'.registers.stage = .normal ∧ e'.cycles = 2) ∧
    (∃ e', Passes ⟨{ Registers.zero with latch := v }, .empty, 0⟩
        [⟨.normal, v, false⟩, ⟨.branchPending, v, false⟩, ⟨.extendedSettle, .nop, true⟩] e' ∧
      e'.registers.address = 0o2002 ∧ e'.registers.saved = 0o2000 ∧
      e'.registers.stage = .normal ∧ e'.cycles = 3) := by
  intro w v
  constructor
  · have h := (passes_microword (e := ⟨{ Registers.zero with latch := w }, .empty, 0⟩)
      (f := .selectBank .b) (c := .always) rfl (by decide) (by decide)).2.1
      (by decide) (by decide) (by decide)
    exact ⟨_, h, by decide, by decide, rfl, rfl⟩
  · have h := ((passes_microword (e := ⟨{ Registers.zero with latch := v }, .empty, 0⟩)
      (f := .selectBank .b) (c := .always) rfl (by decide) (by decide)).2.2.2.2
      (by decide) (by decide) (by decide)).2 .idle .never
    have hnext (a : Address) (t : Registers) :
        (t.setLatch (ControlStore.empty.read a)).latch = .nop := ControlStore.read_empty a
    rw [hnext] at h
    exact ⟨_, h (by decide) (by decide), by decide, by decide, rfl, rfl⟩

end Engine

end MicroEngine
