import MicroEngine.Debugger
import MicroEngine.Proofs.Engine.Invariant
import MicroEngine.Proofs.Machine.Bootstrap
/-!
# The widths of a reachable machine

A machine has, by its type, an engine for each of the six units in scheduling order, seven holding
registers in each of them and 2048 entries in its control store. That the values are within their
widths and that every scratchpad has 64 words is an invariant.

* `Machine.WellFormed`: every engine is well formed.
* `wellFormed_stepUnits`, `wellFormed_runFrom`: iterations and runs, whether they fail or not.
* `Machine.Change`: what can be done to a machine, through its operations, its engines or a debugger.
* `Machine.Reachable`: the machines that come about.
* **`reachable_wellFormed`**: every reachable machine is well formed.
-/

namespace MicroEngine

namespace Machine

/-- Every engine is well formed. -/
def WellFormed (m : Machine) : Prop := ∀ u, (m.engine u).WellFormed

/-! ## Operations -/

theorem engine_setEnabled (m : Machine) (u v : UnitId) (enabled : Bool) :
    (m.setEnabled u enabled).engine v = m.engine v := by
  unfold engine setEnabled
  by_cases h : v = u
  · rw [h, UnitMap.get_set_self]
  · rw [UnitMap.get_set_of_ne _ _ h]

theorem wellFormed_unbooted (c : Configuration) : (unbooted c).WellFormed := by
  intro u
  unfold engine unbooted
  rw [UnitMap.get_ofFn]
  exact Engine.wellFormed_fresh

section Operations

variable {m : Machine} (h : m.WellFormed)

include h

theorem wellFormed_setEngine (u : UnitId) {e : Engine} (he : e.WellFormed) :
    (m.setEngine u e).WellFormed := by
  intro v
  by_cases hv : v = u
  · subst hv
    rwa [engine_setEngine_self]
  · rw [engine_setEngine_of_ne m u e hv]
    exact h v

theorem wellFormed_setStore (u : UnitId) {r : ControlStore} (hr : r.WellFormed) :
    (m.setEngine u { m.engine u with store := r }).WellFormed :=
  wellFormed_setEngine h u (.of_parts (h u).registers hr _)

theorem wellFormed_mapEngines {f : Engine → Engine}
    (hf : ∀ e : Engine, e.WellFormed → (f e).WellFormed) : (m.mapEngines f).WellFormed := by
  intro u
  rw [engine_mapEngines]
  exact hf _ (h u)

theorem wellFormed_setEnabled (u : UnitId) (enabled : Bool) :
    (m.setEnabled u enabled).WellFormed := by
  intro v
  rw [engine_setEnabled]
  exact h v

theorem wellFormed_bootstrap : m.bootstrap.WellFormed := by
  have hreset : (m.mapEngines Engine.reset).WellFormed :=
    wellFormed_mapEngines h fun _ he => Engine.wellFormed_reset he
  have hpreload : (m.mapEngines Engine.reset).preload.WellFormed := by
    unfold preload
    split
    · exact wellFormed_setStore hreset .cpu0 ControlStore.wellFormed_diagnostic
    · exact hreset
  exact wellFormed_mapEngines hpreload fun _ he => Engine.wellFormed_prime he

end Operations

theorem wellFormed_of_load {read : String → Except FileError String} {path : String}
    {r : ControlStore} (h : Image.load read path = .ok r) : r.WellFormed := by
  unfold Image.load at h
  split at h
  · cases h
  · split at h
    · cases h
    · next hparse =>
      cases h
      exact Image.wellFormed_of_parse hparse

theorem wellFormed_loadImages {read : String → Except FileError String} {c : Configuration} :
    ∀ {us : List UnitId} {m m' : Machine}, m.WellFormed → loadImages read c us m = .ok m' →
      m'.WellFormed
  | [], m, m', h, hload => by
    cases hload
    exact h
  | u :: us, m, m', h, hload => by
    unfold loadImages at hload
    split at hload
    · exact wellFormed_loadImages h hload
    · split at hload
      · cases hload
      · next hstore =>
        exact wellFormed_loadImages (wellFormed_setStore h u (wellFormed_of_load hstore)) hload

theorem wellFormed_ofConfig {read : String → Except FileError String} {c : Configuration}
    {m : Machine} (h : ofConfig read c = .ok m) : m.WellFormed := by
  unfold ofConfig at h
  cases hload : loadImages read c UnitId.all (unbooted c) with
  | error cause =>
    rw [hload] at h
    cases h
  | ok m₀ =>
    rw [hload] at h
    cases h
    exact wellFormed_bootstrap (wellFormed_loadImages (wellFormed_unbooted c) hload)

theorem wellFormed_reference : reference.WellFormed :=
  wellFormed_bootstrap (wellFormed_unbooted .reference)

/-! ## Iterations and runs -/

theorem wellFormed_stepUnits : ∀ (us : List UnitId) {m : Machine}, m.WellFormed →
    (m.stepUnits us).1.WellFormed
  | [], _, h => h
  | u :: us, m, h => by
    cases hu : m.isEnabled u with
    | false =>
      rw [stepUnits_of_disabled hu]
      exact wellFormed_stepUnits us h
    | true =>
      cases hs : (m.engine u).step with
      | error cause =>
        rw [stepUnits_of_error hu hs]
        exact h
      | ok p =>
        rw [stepUnits_of_ok hu hs]
        exact wellFormed_stepUnits us
          (wellFormed_setEngine h u (Engine.wellFormed_of_step (h u) hs))

/-- **An iteration keeps the widths of a machine**, also if a unit fails. -/
theorem wellFormed_step {m : Machine} (h : m.WellFormed) : m.step.1.WellFormed := by
  have hunits := wellFormed_stepUnits UnitId.all h
  unfold step
  split
  · next hs =>
    rw [hs] at hunits
    exact hunits
  · next hs =>
    rw [hs] at hunits
    exact hunits

/-- **A run keeps the widths of a machine**, however it ends and whatever its host answers. -/
theorem wellFormed_runFrom {σ : Type} (service : Host σ) (isFirst : Bool) (budget : Nat) (s : σ)
    {m : Machine} (h : m.WellFormed) : (m.runFrom service isFirst budget s).machine.WellFormed := by
  induction budget generalizing isFirst s m with
  | zero =>
    unfold runFrom
    split <;> exact h
  | succ left ih =>
    have hstep := wellFormed_step h
    unfold runFrom
    split
    · exact h
    · exact h
    · dsimp only
      split
      · exact h
      · split
        · next hs =>
          rw [hs] at hstep
          exact hstep
        · next hs =>
          rw [hs] at hstep
          exact ih false _ hstep

theorem wellFormed_runUnbounded {σ : Type} {service : Host σ} {patience : Nat} {s : σ}
    {m : Machine} {e : RunEnd σ} (h : m.WellFormed)
    (he : m.runUnbounded service patience s = some e) : e.machine.WellFormed := by
  have hrun := wellFormed_runFrom service true patience s h
  unfold runUnbounded at he
  dsimp only at he
  split at he
  · cases he
  · cases he
    exact hrun

/-! ## Debuggers -/

theorem machine_debuggerStep (d : Debugger) : d.step.machine = d.machine.step.1 := by
  unfold Debugger.step
  split <;> next hs => rw [hs]

/-- A tick leaves the machine alone or runs a batch. -/
theorem machine_tick (d : Debugger) :
    d.tick.machine = d.machine ∨ d.tick.machine = d.batchRun.machine := by
  unfold Debugger.tick
  split
  · exact .inl rfl
  · split
    · exact .inl rfl
    · dsimp only
      split <;> exact .inr rfl

theorem wellFormed_tick {d : Debugger} (h : d.machine.WellFormed) : d.tick.machine.WellFormed := by
  rcases machine_tick d with ht | ht
  · rw [ht]
    exact h
  · rw [ht]
    exact wellFormed_runFrom Host.idle true Debugger.batch () h

theorem wellFormed_toggleDiagnostic {d : Debugger} (h : d.machine.WellFormed) :
    d.toggleDiagnostic.machine.WellFormed := by
  have hflip : (Debugger.flipPreload d.machine).WellFormed := by
    unfold Debugger.flipPreload
    dsimp only
    split
    · exact h
    · exact wellFormed_setStore h .cpu0 ControlStore.wellFormed_empty
  exact wellFormed_bootstrap hflip

theorem wellFormed_toggleBreakpoint {m : Machine} (h : m.WellFormed) (b : Breakpoint) :
    (m.toggleBreakpoint b).WellFormed := by
  unfold toggleBreakpoint
  split <;> exact h

/-- **No key of a debugger leaves the widths of its machine.** -/
theorem wellFormed_press {d : Debugger} (h : d.machine.WellFormed) (k : Debugger.Key) :
    (d.press k).machine.WellFormed := by
  cases k with
  | step =>
    have hstep := machine_debuggerStep { d with running := false }
    rw [Debugger.press, hstep]
    exact wellFormed_step h
  | breakpoint => exact wellFormed_toggleBreakpoint h d.position
  | enable => exact wellFormed_setEnabled h d.selected _
  | reset => exact wellFormed_bootstrap h
  | diagnostic => exact wellFormed_toggleDiagnostic h
  | scrollDown =>
    unfold Debugger.press Debugger.scrollDown
    dsimp only
    split <;> exact h
  | run | pause | nextUnit | scrollUp | quit => exact h

/-! ## Reachable machines -/

/-- What can be done to a machine. -/
inductive Change : Machine → Machine → Prop
  /-- An operation of the engine of a unit, or of its registers or its control store. -/
  | engine {m : Machine} (u : UnitId) {e : Engine} (h : (m.engine u).Change e) :
    Change m (m.setEngine u e)
  | step (m : Machine) : Change m m.step.1
  | run {σ : Type} (m : Machine) (service : Host σ) (budget : Nat) (s : σ) :
    Change m (m.runWithin service budget s).machine
  /-- A run without a budget, if it ends. -/
  | runUnbounded {σ : Type} {m : Machine} {service : Host σ} {patience : Nat} {s : σ} {e : RunEnd σ}
    (h : m.runUnbounded service patience s = some e) : Change m e.machine
  | bootstrap (m : Machine) : Change m m.bootstrap
  | setEnabled (m : Machine) (u : UnitId) (enabled : Bool) : Change m (m.setEnabled u enabled)
  | setPreload (m : Machine) (preload : Bool) : Change m (m.setPreload preload)
  | addBreakpoint (m : Machine) (b : Breakpoint) : Change m (m.addBreakpoint b)
  | removeBreakpoint (m : Machine) (b : Breakpoint) : Change m (m.removeBreakpoint b)
  | toggleBreakpoint (m : Machine) (b : Breakpoint) : Change m (m.toggleBreakpoint b)
  | clearBreakpoints (m : Machine) : Change m m.clearBreakpoints
  /-- A key of a debugger around the machine. -/
  | press (d : Debugger) (k : Debugger.Key) : Change d.machine (d.press k).machine
  | tick (d : Debugger) : Change d.machine d.tick.machine

/-- The machines that come about: the reference machine, those of configurations, and what changes
make of them. -/
inductive Reachable : Machine → Prop
  | reference : Reachable reference
  | ofConfig {read : String → Except FileError String} {c : Configuration} {m : Machine}
    (h : ofConfig read c = .ok m) : Reachable m
  | change {m m' : Machine} (h : Reachable m) (hm : m.Change m') : Reachable m'

/-- **A change keeps a well-formed machine well formed.** -/
theorem WellFormed.change {m m' : Machine} (h : m.WellFormed) (hm : m.Change m') :
    m'.WellFormed := by
  cases hm with
  | engine u he => exact wellFormed_setEngine h u ((h u).change he)
  | step => exact wellFormed_step h
  | run _ service budget s => exact wellFormed_runFrom service true budget s h
  | runUnbounded he => exact wellFormed_runUnbounded h he
  | bootstrap => exact wellFormed_bootstrap h
  | setEnabled _ u enabled => exact wellFormed_setEnabled h u enabled
  | setPreload | addBreakpoint | removeBreakpoint | clearBreakpoints => exact h
  | toggleBreakpoint _ b => exact wellFormed_toggleBreakpoint h b
  | press d k => exact wellFormed_press h k
  | tick d => exact wellFormed_tick h

/-- **Every reachable machine is well formed.** The reference machine is, and every machine of a
configuration; every change keeps it so. -/
theorem reachable_wellFormed :
    reference.WellFormed ∧
    (∀ read c m, ofConfig read c = .ok m → m.WellFormed) ∧
    (∀ m m' : Machine, m.WellFormed → m.Change m' → m'.WellFormed) ∧
    ∀ m, Reachable m → m.WellFormed := by
  refine ⟨wellFormed_reference, fun _ _ _ h => wellFormed_ofConfig h,
    fun _ _ h hm => h.change hm, ?_⟩
  intro m h
  induction h with
  | reference => exact wellFormed_reference
  | ofConfig hc => exact wellFormed_ofConfig hc
  | change _ hm ih => exact ih.change hm

/-- The reference machine with more bits written to Z than it has, after a reset and a batch of
iterations. -/
theorem wellFormed_written :
    ((((reference.setEngine .cpu0
        { reference.engine .cpu0 with
          registers := (reference.engine .cpu0).registers.setZ 0xFFFFFFFF }).bootstrap).runWithin
      Host.idle 64 ()).machine.WellFormed) := by
  obtain ⟨-, -, -, h⟩ := reachable_wellFormed
  have hwritten : Reachable (reference.setEngine .cpu0
      { reference.engine .cpu0 with
        registers := (reference.engine .cpu0).registers.setZ 0xFFFFFFFF }) :=
    .change .reference (.engine .cpu0 (.registers (.setZ 0xFFFFFFFF)))
  exact h _ (.change (.change hwritten (.bootstrap _)) (.run _ Host.idle 64 ()))

end Machine

end MicroEngine
