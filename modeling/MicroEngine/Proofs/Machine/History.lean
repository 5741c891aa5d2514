import MicroEngine.Proofs.Machine.DiagnosticLoop
import MicroEngine.Proofs.Machine.StopEvent
/-!
# Bootstrap after any history

Iterations and runs, however they end, leave alone all that bootstrap starts from: the control
stores, the switches and the breakpoints. So a machine that is bootstrapped is the same whatever was
done with it before.

* `Machine.SameSetup`: machines that agree on what bootstrap starts from.
* `Machine.stepped`: the machine after an iteration, completed or not.
* `Machine.RunsTo`: what iterations and runs can make of a machine; `exists_iterate_stepped`: they
  are so many iterations.
* `sameSetup_stepped`, `sameSetup_iterate_stepped`: the setup after iterations.
* `run_iterate_stepped`: each engine has run by itself.
* `exists_iterate_reference`: the reference machine runs without end.
* **`bootstrap_erases_history`**: what bootstrap makes of a machine, and how CPU0 goes on.
-/

namespace MicroEngine

namespace Machine

/-! ## What bootstrap starts from -/

/-- The two machines have the same control stores, the same units enabled, the same breakpoints and
the same bootstrap switch. -/
structure SameSetup (m m' : Machine) : Prop where
  store : ∀ u, (m'.engine u).store = (m.engine u).store
  isEnabled : m'.isEnabled = m.isEnabled
  breakpoints : m'.breakpoints = m.breakpoints
  preload : m'.preloadDiagnostic = m.preloadDiagnostic

theorem SameSetup.refl (m : Machine) : m.SameSetup m := ⟨fun _ => rfl, rfl, rfl, rfl⟩

theorem SameSetup.trans {m m' m'' : Machine} (h : m.SameSetup m') (h' : m'.SameSetup m'') :
    m.SameSetup m'' where
  store u := (h'.store u).trans (h.store u)
  isEnabled := h'.isEnabled.trans h.isEnabled
  breakpoints := h'.breakpoints.trans h.breakpoints
  preload := h'.preload.trans h.preload

/-- **Bootstrap sees the setup alone.** -/
theorem SameSetup.bootstrap_eq {m m' : Machine} (h : m.SameSetup m') :
    m'.bootstrap = m.bootstrap := by
  refine bootstrap_congr (funext fun u => ?_) h.isEnabled h.breakpoints h.preload
  unfold bootStore
  rw [h.preload, h.store]

/-- With the switch on, bootstrap does not see the engine of CPU0 either. -/
theorem bootstrap_setEngine_cpu0 {m : Machine} (hp : m.preloadDiagnostic = true) (e : Engine) :
    (m.setEngine .cpu0 e).bootstrap = m.bootstrap := by
  refine bootstrap_congr (funext fun u => ?_) (isEnabled_setEngine m .cpu0 e) rfl rfl
  have hswitch : (m.setEngine .cpu0 e).preloadDiagnostic = true := hp
  unfold bootStore
  by_cases hu : u = .cpu0
  · rw [if_pos ⟨hswitch, hu⟩, if_pos ⟨hp, hu⟩]
  · rw [if_neg fun h => hu h.2, if_neg fun h => hu h.2, engine_setEngine_of_ne m .cpu0 e hu]

/-- With the switch on, CPU0 comes out of bootstrap as in the reference machine. -/
theorem engine_bootstrap_cpu0 {m : Machine} (hp : m.preloadDiagnostic = true) :
    m.bootstrap.engine .cpu0 = reference.engine .cpu0 := by
  rw [engine_bootstrap, engine_reference, bootStore, if_pos ⟨hp, rfl⟩, if_pos rfl]

/-! ## Iterations, completed or not -/

/-- The machine after an iteration, whether it is completed or not. -/
def stepped (m : Machine) : Machine := m.step.1

/-- **An iteration keeps the setup**, whether it is completed or not. -/
theorem sameSetup_stepped (m : Machine) : m.SameSetup m.stepped := by
  obtain ⟨_, hadv⟩ := m.exists_advances
  refine ⟨fun u => ?_, hadv.isEnabled, hadv.breakpoints, hadv.preload⟩
  rcases m.engine_step_cases u with hstay | ⟨r, hmove⟩
  · exact congrArg Engine.store hstay
  · exact Engine.store_of_step hmove

theorem sameSetup_iterate_stepped (m : Machine) (k : Nat) : m.SameSetup (stepped^[k] m) := by
  induction k with
  | zero => exact .refl m
  | succ k ih =>
    rw [Function.iterate_succ_apply']
    exact ih.trans (sameSetup_stepped _)

/-- **After so many iterations each engine has run by itself**, for as many cycles or for fewer. -/
theorem run_iterate_stepped (m : Machine) (k : Nat) (u : UnitId) :
    ∃ j rs, (m.engine u).run j = .ok (rs, (stepped^[k] m).engine u) := by
  induction k with
  | zero => exact ⟨0, [], rfl⟩
  | succ k ih =>
    obtain ⟨j, rs, hrun⟩ := ih
    rw [Function.iterate_succ_apply']
    rcases (stepped^[k] m).engine_step_cases u with hstay | ⟨r, hmove⟩
    · exact ⟨j, rs, hrun.trans (by rw [stepped, hstay])⟩
    · have hlast : ((stepped^[k] m).engine u).run 1 =
          .ok ([r], (stepped^[k] m).stepped.engine u) :=
        Engine.run_succ_eq_ok_iff.mpr ⟨r, _, [], hmove, rfl, rfl⟩
      exact ⟨j + 1, rs ++ [r], Engine.run_add_eq_ok_iff.mpr ⟨_, rs, [r], hrun, hlast, rfl⟩⟩

/-! ## Runs -/

theorem polled_eq_iterate_stepped {σ : Type} {service : Host σ} {s : σ} {m : Machine} :
    ∀ {k : Nat} {g : σ} {o : Machine}, polled service s m k = some (g, o) → o = stepped^[k] m
  | 0, _, _, hp => by
    cases hp
    rfl
  | k + 1, _, _, hp => by
    obtain ⟨g, o, reports, hp', hs, -⟩ := polled_succ_eq_some_iff.mp hp
    rw [Function.iterate_succ_apply', ← polled_eq_iterate_stepped hp', stepped, hs]

/-- **A run is so many iterations**, the last of which may have failed. -/
theorem machine_of_returns {σ : Type} {service : Host σ} {limit : Option Nat} {s : σ} {m : Machine}
    {e : RunEnd σ} (h : Returns service limit s m e) : ∃ k, e.machine = stepped^[k] m := by
  obtain ⟨k, ⟨g, o, hp, hends⟩, -⟩ := returns_iff.mp h
  have ho := polled_eq_iterate_stepped hp
  -- Only a fault leaves a machine that the last poll has not seen.
  cases hends with
  | fault answer budget free step =>
    refine ⟨k + 1, ?_⟩
    rw [Function.iterate_succ_apply', ← ho, stepped, step]
  | _ => exact ⟨k, ho⟩

/-- What iterations and runs make of a machine, any number of them, whatever the hosts do and
however each of them ends. -/
inductive RunsTo (m : Machine) : Machine → Prop
  | refl : RunsTo m m
  | step {o : Machine} (h : RunsTo m o) : RunsTo m o.step.1
  | run {o : Machine} {σ : Type} {service : Host σ} {limit : Option Nat} {s : σ} {e : RunEnd σ}
    (h : RunsTo m o) (he : Returns service limit s o e) : RunsTo m e.machine

/-- **Iterations and runs are so many iterations**, some of which may have failed. -/
theorem RunsTo.exists_iterate_stepped {m m' : Machine} (h : m.RunsTo m') :
    ∃ k, m' = stepped^[k] m := by
  induction h with
  | refl => exact ⟨0, rfl⟩
  | step _ ih =>
    obtain ⟨k, rfl⟩ := ih
    exact ⟨k + 1, (Function.iterate_succ_apply' stepped k m).symm⟩
  | run _ he ih =>
    obtain ⟨k, rfl⟩ := ih
    obtain ⟨j, hj⟩ := machine_of_returns he
    exact ⟨j + k, hj.trans (Function.iterate_add_apply stepped j k m).symm⟩

/-! ## The reference machine -/

/-- **The reference machine runs without end.** -/
theorem exists_iterate_reference (n : Nat) : ∃ all o, reference.iterate n = .ok (all, o) := by
  refine iterate_of_runs fun u _ => ?_
  obtain ⟨rs, hrun⟩ := reaches_afterPasses u n
  have hsplit : 12 * (n + 1) = n + (11 * n + 12) := by omega
  rw [hsplit] at hrun
  obtain ⟨e, rs₁, rs₂, hfirst, -, -⟩ := Engine.run_add_eq_ok_iff.mp hrun
  exact ⟨rs₁, e, hfirst⟩

/-- **An engine that came out of reset as CPU0 of the reference machine goes on as that**, however
many cycles it makes, and its next cycle succeeds. -/
theorem iterate_reference_of_run {j : Nat} {rs : List CycleReport} {e : Engine}
    (h : (reference.engine .cpu0).run j = .ok (rs, e)) :
    ∃ all o, reference.iterate j = .ok (all, o) ∧ o.engine .cpu0 = e ∧
      all.map (List.lookup .cpu0) = rs.map some ∧ ∃ r e', e.step = .ok (r, e') := by
  obtain ⟨all, o, hi⟩ := exists_iterate_reference j
  obtain ⟨rs', hrun, hmap⟩ := run_of_iterate hi (isEnabled_reference .cpu0)
  rw [h, Except.ok.injEq, Prod.mk.injEq] at hrun
  obtain ⟨rfl, rfl⟩ := hrun
  -- One more iteration of the reference machine holds the next cycle.
  obtain ⟨all', o', hi'⟩ := exists_iterate_reference (j + 1)
  obtain ⟨rs', hrun', -⟩ := run_of_iterate hi' (isEnabled_reference .cpu0)
  obtain ⟨e₁, rs₁, rs₂, hfirst, hlast, -⟩ := Engine.run_add_eq_ok_iff.mp hrun'
  rw [h, Except.ok.injEq, Prod.mk.injEq] at hfirst
  obtain ⟨-, rfl⟩ := hfirst
  obtain ⟨r, e', rs', hstep, -, -⟩ := Engine.run_succ_eq_ok_iff.mp hlast
  exact ⟨all, o, hi, rfl, hmap, r, e', hstep⟩

/-! ## Bootstrap -/

/-- **Bootstrap erases all history.**

* Machines with the same control stores, switches and breakpoints are the same after bootstrap.
* Iterations and runs, however many, whatever their hosts do and however they end, change none of
  these. So bootstrap makes the same machine after them as before them, and iterations of the two
  give the same reports.
* With the bootstrap switch on, the machine does not depend on the engine of CPU0 either, nor on its
  control store. Whatever runs follow, CPU0 is where it is in the reference machine after so many
  iterations, and no fault is its own; if it is enabled, completed iterations give the reports of
  CPU0 that the reference machine gives. -/
theorem bootstrap_erases_history :
    (∀ m m' : Machine, m.SameSetup m' → m'.bootstrap = m.bootstrap) ∧
    (∀ m m' : Machine, m.RunsTo m' → m.SameSetup m' ∧ m'.bootstrap = m.bootstrap ∧
      ∀ n, m'.bootstrap.iterate n = m.bootstrap.iterate n) ∧
    ∀ (m : Machine) (e : Engine), m.preloadDiagnostic = true →
      (m.setEngine .cpu0 e).bootstrap = m.bootstrap ∧
      (∀ o, m.bootstrap.RunsTo o →
        (∃ k all o', reference.iterate k = .ok (all, o') ∧ o'.engine .cpu0 = o.engine .cpu0) ∧
        ∀ fault, o.step.2 = .error fault → fault.unit ≠ .cpu0) ∧
      (m.isEnabled .cpu0 = true → ∀ n all o, m.bootstrap.iterate n = .ok (all, o) →
        ∃ all' o', reference.iterate n = .ok (all', o') ∧ o'.engine .cpu0 = o.engine .cpu0 ∧
          all'.map (List.lookup .cpu0) = all.map (List.lookup .cpu0)) := by
  refine ⟨fun _ _ => SameSetup.bootstrap_eq, fun m m' h => ?_, fun m e hp => ?_⟩
  · obtain ⟨k, rfl⟩ := h.exists_iterate_stepped
    have hsetup := m.sameSetup_iterate_stepped k
    exact ⟨hsetup, hsetup.bootstrap_eq, fun n => by rw [hsetup.bootstrap_eq]⟩
  refine ⟨bootstrap_setEngine_cpu0 hp e, fun o ho => ?_, fun hu n all o hi => ?_⟩
  · obtain ⟨k, rfl⟩ := ho.exists_iterate_stepped
    obtain ⟨j, rs, hrun⟩ := m.bootstrap.run_iterate_stepped k .cpu0
    rw [engine_bootstrap_cpu0 hp] at hrun
    obtain ⟨all, o', hi, hengine, -, r, e', hnext⟩ := iterate_reference_of_run hrun
    refine ⟨⟨j, all, o', hi, hengine⟩, fun fault hf hunit => ?_⟩
    have hcause := (step_eq_error (Prod.ext rfl hf)).2.1
    rw [hunit, hnext] at hcause
    cases hcause
  · rw [← isEnabled_bootstrap] at hu
    obtain ⟨rs, hrun, hmap⟩ := run_of_iterate hi hu
    rw [engine_bootstrap_cpu0 hp] at hrun
    obtain ⟨all', o', hi', hengine, hmap', -⟩ := iterate_reference_of_run hrun
    exact ⟨all', o', hi', hengine, hmap'.trans hmap.symm⟩

/-- A machine whose memory scheduler fails has CPU0 a cycle ahead. Bootstrap undoes that, and it
undoes that the store of CPU0 is emptied in between. -/
theorem bootstrap_erases_fault :
    ∃ m : Machine, (∃ fault, m.step.2 = .error fault ∧ fault.unit = .msch) ∧
      m.step.1.engine .cpu0 ≠ m.engine .cpu0 ∧ m.step.1.bootstrap = m.bootstrap ∧
      (m.step.1.setEngine .cpu0 .fresh).bootstrap = m.bootstrap ∧
      ∃ k all o, reference.iterate k = .ok (all, o) ∧
        o.engine .cpu0 = m.bootstrap.step.1.engine .cpu0 := by
  let faulty := ControlStore.empty.write 0 ⟨0, 0, 0o7700000000⟩
  let m := (reference.setEngine .msch ⟨.zero, faulty, 0⟩).bootstrap
  have hfault : m.step.2 = .error ⟨.msch, 1, .unimplemented .special 0o77⟩ := by
    subst m faulty
    rfl
  have hahead : m.step.1.engine .cpu0 ≠ m.engine .cpu0 := by
    have hcycles : (m.step.1.engine .cpu0).cycles = 1 ∧ (m.engine .cpu0).cycles = 0 := by
      subst m faulty
      exact ⟨rfl, rfl⟩
    intro h
    rw [h, hcycles.2] at hcycles
    exact absurd hcycles.1 (by decide)
  have hran : m.RunsTo m.step.1 := .step .refl
  obtain ⟨-, hruns, hpreload⟩ := bootstrap_erases_history
  obtain ⟨hsetup, hsame, -⟩ := hruns m m.step.1 hran
  have hswitch : m.step.1.preloadDiagnostic = true := hsetup.preload
  obtain ⟨hpatched, hlater, -⟩ := hpreload m.step.1 .fresh hswitch
  obtain ⟨hcpu0, -⟩ := hlater m.step.1.bootstrap.step.1 (.step .refl)
  rw [hsame] at hpatched hcpu0
  exact ⟨m, ⟨_, hfault, rfl⟩, hahead, hsame, hpatched, hcpu0⟩

end Machine

end MicroEngine
