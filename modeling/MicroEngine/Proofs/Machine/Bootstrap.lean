import MicroEngine.Proofs.Machine.Iteration
/-!
# Machines after bootstrap

Bootstrap leaves of a machine its control stores, its switches and its breakpoints, and sets the rest
to what it is on coming out of reset.

* `Machine.ext_units`: two machines that agree on every unit and on the rest are equal.
* `Engine.booted`: an engine that has come out of reset, with its control store.
* `Machine.bootStore`: the control store of a unit after the next bootstrap.
* **`engine_bootstrap`**: the engines after bootstrap.
* `bootstrap_congr`: what bootstrap depends on.
-/

namespace MicroEngine

/-- The engine with this control store that has come out of reset: its registers are zero, the
microword at 0 is latched and the address has advanced. -/
def Engine.booted (r : ControlStore) : Engine :=
  ⟨{ Registers.zero with address := 1, latch := r.read 0 }, r, 0⟩

theorem Engine.prime_reset (e : Engine) : e.reset.prime = .booted e.store := by
  have haddress : ((0 : Address) &&& Address.bankBit) ||| ((0 + 1) &&& Address.offsetMask) = 1 := by
    decide
  unfold booted
  rw [← haddress]
  rfl

namespace Machine

/-- Two machines that agree on every unit and on the rest are equal. -/
theorem ext_units {m m' : Machine} (he : m.engine = m'.engine) (hu : m.isEnabled = m'.isEnabled)
    (hb : m.breakpoints = m'.breakpoints) (hp : m.preloadDiagnostic = m'.preloadDiagnostic)
    (hi : m.iterations = m'.iterations) : m = m' := by
  have hslots : m.slots = m'.slots := UnitMap.ext_get fun u => by
    have hengine : (m.slots.get u).engine = (m'.slots.get u).engine := congrFun he u
    have henabled : (m.slots.get u).enabled = (m'.slots.get u).enabled := congrFun hu u
    cases h : m.slots.get u
    cases h' : m'.slots.get u
    simp_all
  cases m
  cases m'
  simp_all

theorem engine_mapEngines (f : Engine → Engine) (m : Machine) (u : UnitId) :
    (m.mapEngines f).engine u = f (m.engine u) := by
  unfold engine mapEngines
  rw [UnitMap.get_map]

theorem isEnabled_mapEngines (f : Engine → Engine) (m : Machine) :
    (m.mapEngines f).isEnabled = m.isEnabled := by
  funext u
  unfold isEnabled mapEngines
  rw [UnitMap.get_map]

theorem engine_unbooted (c : Configuration) (u : UnitId) : (unbooted c).engine u = .fresh := by
  unfold engine unbooted
  rw [UnitMap.get_ofFn]

theorem isEnabled_unbooted (c : Configuration) : (unbooted c).isEnabled = c.isEnabled := by
  funext u
  unfold isEnabled unbooted
  rw [UnitMap.get_ofFn]

/-- The control store of a unit after the next bootstrap. -/
def bootStore (m : Machine) (u : UnitId) : ControlStore :=
  if m.preloadDiagnostic = true ∧ u = .cpu0 then Diagnostic.store else (m.engine u).store

theorem store_preload (m : Machine) (u : UnitId) : (m.preload.engine u).store = m.bootStore u := by
  unfold preload bootStore
  cases m.preloadDiagnostic with
  | false => simp
  | true =>
    by_cases h : u = .cpu0
    · subst h
      simp [engine_setEngine_self]
    · simp [h, engine_setEngine_of_ne]

theorem preload_reset (m : Machine) (u : UnitId) :
    ((m.mapEngines Engine.reset).preload.engine u).reset =
      (m.mapEngines Engine.reset).preload.engine u := by
  unfold preload
  split
  · by_cases h : u = .cpu0
    · subst h
      rw [engine_setEngine_self, engine_mapEngines]
      rfl
    · rw [engine_setEngine_of_ne _ _ _ h, engine_mapEngines]
      rfl
  · rw [engine_mapEngines]
    rfl

/-- **The engines after bootstrap** have come out of reset, the first of them with the diagnostic if
the switch is on. -/
theorem engine_bootstrap (m : Machine) (u : UnitId) :
    m.bootstrap.engine u = .booted (m.bootStore u) := by
  have hstore : (m.mapEngines Engine.reset).bootStore u = m.bootStore u := by
    unfold bootStore
    rw [engine_mapEngines]
    rfl
  have hprime : m.bootstrap.engine u = ((m.mapEngines Engine.reset).preload.engine u).prime :=
    engine_mapEngines Engine.prime _ u
  rw [hprime, ← preload_reset, Engine.prime_reset, store_preload, hstore]

theorem isEnabled_preload (m : Machine) : m.preload.isEnabled = m.isEnabled := by
  unfold preload
  split
  · exact isEnabled_setEngine _ _ _
  · rfl

theorem isEnabled_bootstrap (m : Machine) : m.bootstrap.isEnabled = m.isEnabled := by
  have h : m.bootstrap.isEnabled =
      ((m.mapEngines Engine.reset).preload.mapEngines Engine.prime).isEnabled := rfl
  rw [h, isEnabled_mapEngines, isEnabled_preload, isEnabled_mapEngines]

theorem breakpoints_bootstrap (m : Machine) : m.bootstrap.breakpoints = m.breakpoints := by
  unfold bootstrap preload
  split <;> rfl

theorem preloadDiagnostic_bootstrap (m : Machine) :
    m.bootstrap.preloadDiagnostic = m.preloadDiagnostic := by
  unfold bootstrap preload
  split <;> rfl

/-- **What bootstrap depends on**: control stores, switches and breakpoints. -/
theorem bootstrap_congr {m m' : Machine} (hs : m.bootStore = m'.bootStore)
    (hu : m.isEnabled = m'.isEnabled) (hb : m.breakpoints = m'.breakpoints)
    (hp : m.preloadDiagnostic = m'.preloadDiagnostic) : m.bootstrap = m'.bootstrap := by
  refine ext_units (funext fun u => ?_) ?_ ?_ ?_ rfl
  · rw [engine_bootstrap, engine_bootstrap, hs]
  · rw [isEnabled_bootstrap, isEnabled_bootstrap, hu]
  · rw [breakpoints_bootstrap, breakpoints_bootstrap, hb]
  · rw [preloadDiagnostic_bootstrap, preloadDiagnostic_bootstrap, hp]

end Machine

end MicroEngine
