import MicroEngine.Proofs.Engine.Run
import MicroEngine.Proofs.Machine.Iteration
/-!
# Units in lockstep

So many iterations of the machine are so many cycles of each enabled engine, run alone. What the
units share is the moment at which they stop.

* `Machine.iterate`: so many iterations, with the reports of each.
* `solo_of_step`, `idle_of_step`: what an iteration is for one unit.
* `run_of_iterate`, `iterate_of_runs`: iterations and runs of single engines.
* **`iterate_eq_solo_runs`**: the machine as the product of its engines.
-/

namespace MicroEngine

namespace Machine

/-- `n` iterations of the machine, with the reports of each in order. -/
def iterate : Nat → Machine → Except UnitFault (List (List (UnitId × CycleReport)) × Machine)
  | 0, m => .ok ([], m)
  | n + 1, m =>
    match m.step with
    | (_, .error fault) => .error fault
    | (m', .ok reports) =>
      match iterate n m' with
      | .error fault => .error fault
      | .ok (later, m'') => .ok (reports :: later, m'')

/-- **Some iterations are the first of them and the iterations after it.** -/
theorem iterate_succ_eq_ok_iff {n : Nat} {m m'' : Machine}
    {all : List (List (UnitId × CycleReport))} :
    m.iterate (n + 1) = .ok (all, m'') ↔
      ∃ reports m' later, m.step = (m', .ok reports) ∧ m'.iterate n = .ok (later, m'') ∧
        all = reports :: later := by
  rw [iterate]
  obtain ⟨m', result⟩ : Machine × _ := m.step
  cases result with
  | error fault => simp
  | ok reports =>
    cases hr : m'.iterate n with
    | error fault => simp [hr]
    | ok q =>
      obtain ⟨later, m₁⟩ := q
      constructor
      · intro h
        simp only [hr, Except.ok.injEq, Prod.mk.injEq] at h
        obtain ⟨rfl, rfl⟩ := h
        exact ⟨reports, m', later, rfl, hr, rfl⟩
      · rintro ⟨reports', m₂, later', he, hr', rfl⟩
        cases he
        rw [hr] at hr'
        cases hr'
        simp [hr]

/-! ## One unit of an iteration -/

/-- The report of a unit that has moved is in the list. -/
theorem lookup_isSome {reports : List (UnitId × CycleReport)} {u : UnitId}
    (h : u ∈ reports.map Prod.fst) : ∃ r, reports.lookup u = some r := by
  obtain ⟨p, hp, rfl⟩ := List.mem_map.mp h
  exact Option.isSome_iff_exists.mp (List.lookup_isSome_iff.mpr ⟨p, hp, beq_self_eq_true p.1⟩)

/-- A unit that has not moved has no report. -/
theorem lookup_eq_none {reports : List (UnitId × CycleReport)} {u : UnitId}
    (h : u ∉ reports.map Prod.fst) : reports.lookup u = none := by
  refine List.lookup_eq_none_iff.mpr fun p hp => ?_
  rw [bne_iff_ne]
  rintro rfl
  exact h (List.mem_map_of_mem hp)

theorem Advances.step_of_lookup {m m' : Machine} {reports : List (UnitId × CycleReport)}
    {u : UnitId} {r : CycleReport} (h : m.Advances reports m') (hr : reports.lookup u = some r) :
    (m.engine u).step = .ok (r, m'.engine u) := by
  obtain ⟨before, after, rfl, -⟩ := List.lookup_eq_some_iff.mp hr
  exact h.step_of_mem (u, r) (List.mem_append_right _ List.mem_cons_self)

/-- **What a completed iteration is for one enabled unit**: a cycle of its engine, with its report. -/
theorem solo_of_step {m m' : Machine} {reports : List (UnitId × CycleReport)} {u : UnitId}
    (h : m.step = (m', .ok reports)) (hu : m.isEnabled u = true) :
    ∃ r, (m.engine u).step = .ok (r, m'.engine u) ∧ reports.lookup u = some r := by
  obtain ⟨hunits, hadv, -⟩ := step_eq_ok h
  obtain ⟨r, hr⟩ := lookup_isSome (by rw [hunits]; exact mem_enabledUnits.mpr hu)
  exact ⟨r, hadv.step_of_lookup hr, hr⟩

/-- What a completed iteration is for a unit that takes no part: nothing. -/
theorem idle_of_step {m m' : Machine} {reports : List (UnitId × CycleReport)} {u : UnitId}
    (h : m.step = (m', .ok reports)) (hu : m.isEnabled u = false) :
    m'.engine u = m.engine u ∧ reports.lookup u = none := by
  obtain ⟨hunits, hadv, -⟩ := step_eq_ok h
  have hmem : u ∉ reports.map Prod.fst := by
    rw [hunits, mem_enabledUnits, hu]
    exact Bool.false_ne_true
  exact ⟨hadv.engine_of_not_mem u hmem, lookup_eq_none hmem⟩

/-! ## Iterations -/

/-- **Every enabled unit has run by itself**, and gave the reports of that run. -/
theorem run_of_iterate {u : UnitId} : ∀ {n : Nat} {m m' : Machine}
    {all : List (List (UnitId × CycleReport))}, m.iterate n = .ok (all, m') →
    m.isEnabled u = true →
    ∃ rs, (m.engine u).run n = .ok (rs, m'.engine u) ∧
      all.map (List.lookup u) = rs.map some
  | 0, _, _, _, h, _ => by
    cases h
    exact ⟨[], rfl, rfl⟩
  | n + 1, m, m'', _, h, hu => by
    obtain ⟨reports, m', later, hs, hi, rfl⟩ := iterate_succ_eq_ok_iff.mp h
    obtain ⟨r, hr, hlookup⟩ := solo_of_step hs hu
    have hu' : m'.isEnabled u = true := by rw [(step_eq_ok hs).2.1.isEnabled, hu]
    obtain ⟨rs, hrun, hmap⟩ := run_of_iterate hi hu'
    refine ⟨r :: rs, Engine.run_succ_eq_ok_iff.mpr ⟨r, _, rs, hr, hrun, rfl⟩, ?_⟩
    rw [List.map_cons, List.map_cons, hmap, hlookup]

/-- A unit that takes no part has stayed as it was, and gave no reports. -/
theorem idle_of_iterate {u : UnitId} : ∀ {n : Nat} {m m' : Machine}
    {all : List (List (UnitId × CycleReport))}, m.iterate n = .ok (all, m') →
    m.isEnabled u = false →
    m'.engine u = m.engine u ∧ all.map (List.lookup u) = List.replicate n none
  | 0, _, _, _, h, _ => by
    cases h
    exact ⟨rfl, rfl⟩
  | n + 1, m, m'', _, h, hu => by
    obtain ⟨reports, m', later, hs, hi, rfl⟩ := iterate_succ_eq_ok_iff.mp h
    obtain ⟨hstay, hlookup⟩ := idle_of_step hs hu
    have hu' : m'.isEnabled u = false := by rw [(step_eq_ok hs).2.1.isEnabled, hu]
    obtain ⟨hstay', hmap⟩ := idle_of_iterate hi hu'
    exact ⟨hstay'.trans hstay, by rw [List.map_cons, hmap, hlookup, List.replicate_succ]⟩

/-- What iterations keep, and what they count. -/
structure Kept (m : Machine) (n : Nat) (m' : Machine) : Prop where
  isEnabled : m'.isEnabled = m.isEnabled
  breakpoints : m'.breakpoints = m.breakpoints
  preload : m'.preloadDiagnostic = m.preloadDiagnostic
  iterations : m'.iterations = m.iterations + n

/-- Iterations keep the switches and the breakpoints and count themselves; each gives the reports of
the enabled units in scheduling order. -/
theorem kept_of_iterate : ∀ {n : Nat} {m m' : Machine}
    {all : List (List (UnitId × CycleReport))}, m.iterate n = .ok (all, m') →
    m.Kept n m' ∧ all.length = n ∧
      ∀ reports ∈ all, reports.map Prod.fst = UnitId.all.filter m.isEnabled
  | 0, _, _, _, h => by
    cases h
    exact ⟨⟨rfl, rfl, rfl, rfl⟩, rfl, by simp⟩
  | n + 1, m, m'', _, h => by
    obtain ⟨reports, m', later, hs, hi, rfl⟩ := iterate_succ_eq_ok_iff.mp h
    obtain ⟨hunits, hadv, hcount⟩ := step_eq_ok hs
    obtain ⟨hkept, hlength, horder⟩ := kept_of_iterate hi
    refine ⟨⟨hkept.isEnabled.trans hadv.isEnabled, hkept.breakpoints.trans hadv.breakpoints,
      hkept.preload.trans hadv.preload, ?_⟩, by rw [List.length_cons, hlength], ?_⟩
    · have := hkept.iterations
      omega
    · intro reports' hmem
      rcases List.mem_cons.mp hmem with rfl | hmem
      · exact hunits
      · rw [horder reports' hmem, hadv.isEnabled]

/-- **If every enabled unit can run by itself, the machine can iterate.** -/
theorem iterate_of_runs : ∀ {n : Nat} {m : Machine},
    (∀ u, m.isEnabled u = true → ∃ rs e, (m.engine u).run n = .ok (rs, e)) →
    ∃ all m', m.iterate n = .ok (all, m')
  | 0, m, _ => ⟨[], m, rfl⟩
  | n + 1, m, h => by
    cases hs : m.step with
    | mk m' result =>
      cases result with
      | error fault =>
        obtain ⟨u, cause, hu, herr⟩ := m.step_fails_iff.mp ⟨fault, by rw [hs]⟩
        obtain ⟨rs, e, hrun⟩ := h u hu
        obtain ⟨r, e', rs', hok, -, -⟩ := Engine.run_succ_eq_ok_iff.mp hrun
        rw [herr] at hok
        cases hok
      | ok reports =>
        -- Each run loses its first cycle to this iteration.
        have hlater : ∀ u, m'.isEnabled u = true →
            ∃ rs e, (m'.engine u).run n = .ok (rs, e) := by
          intro u hu
          rw [(step_eq_ok hs).2.1.isEnabled] at hu
          obtain ⟨rs, e, hrun⟩ := h u hu
          obtain ⟨r, e', rs', hok, hrest, -⟩ := Engine.run_succ_eq_ok_iff.mp hrun
          obtain ⟨r', hsolo, -⟩ := solo_of_step hs hu
          rw [hok] at hsolo
          cases hsolo
          exact ⟨rs', e, hrest⟩
        obtain ⟨later, m'', hi⟩ := iterate_of_runs hlater
        exact ⟨_, m'', iterate_succ_eq_ok_iff.mpr ⟨reports, m', later, hs, hi, rfl⟩⟩

/-- **No unit sees another one.** Two machines that agree on a unit and its switch agree on it after
as many completed iterations, and on its reports, whatever else is in them. -/
theorem iterate_independent {m m' o o' : Machine} {n : Nat} {u : UnitId}
    {all all' : List (List (UnitId × CycleReport))} (he : o.engine u = m.engine u)
    (hu : o.isEnabled u = m.isEnabled u) (h : m.iterate n = .ok (all, m'))
    (h' : o.iterate n = .ok (all', o')) :
    o'.engine u = m'.engine u ∧ all'.map (List.lookup u) = all.map (List.lookup u) := by
  cases hm : m.isEnabled u with
  | false =>
    obtain ⟨hstay, hmap⟩ := idle_of_iterate h hm
    obtain ⟨hstay', hmap'⟩ := idle_of_iterate h' (hu.trans hm)
    exact ⟨by rw [hstay', he, hstay], hmap'.trans hmap.symm⟩
  | true =>
    obtain ⟨rs, hrun, hmap⟩ := run_of_iterate h hm
    obtain ⟨rs', hrun', hmap'⟩ := run_of_iterate h' (hu.trans hm)
    rw [he, hrun, Except.ok.injEq, Prod.mk.injEq] at hrun'
    obtain ⟨hrs, hengine⟩ := hrun'
    exact ⟨hengine.symm, by rw [hmap', hmap, hrs]⟩

/-- **The machine is the product of its engines.** Iterations succeed exactly if each enabled engine
can run that long by itself. Each is then where its own run leaves it, with the reports of that run,
given unit by unit in scheduling order; everything else is kept, and the iterations are counted.
What another unit holds makes no difference. -/
theorem iterate_eq_solo_runs (m : Machine) (n : Nat) :
    ((∃ all m', m.iterate n = .ok (all, m')) ↔
      ∀ u, m.isEnabled u = true → ∃ rs e, (m.engine u).run n = .ok (rs, e)) ∧
    (∀ all m', m.iterate n = .ok (all, m') →
      (∀ u, m.isEnabled u = true → ∃ rs, (m.engine u).run n = .ok (rs, m'.engine u) ∧
        all.map (List.lookup u) = rs.map some) ∧
      (∀ u, m.isEnabled u = false → m'.engine u = m.engine u) ∧
      (∀ u, (m'.engine u).store = (m.engine u).store) ∧
      all.length = n ∧
      (∀ reports ∈ all, reports.map Prod.fst = UnitId.all.filter m.isEnabled) ∧
      m.Kept n m') ∧
    ∀ (o : Machine) (u : UnitId), o.engine u = m.engine u → o.isEnabled u = m.isEnabled u →
      ∀ all m' all' o', m.iterate n = .ok (all, m') → o.iterate n = .ok (all', o') →
        o'.engine u = m'.engine u ∧ all'.map (List.lookup u) = all.map (List.lookup u) := by
  refine ⟨⟨?_, iterate_of_runs⟩, ?_, ?_⟩
  · rintro ⟨all, m', h⟩ u hu
    obtain ⟨rs, hrun, -⟩ := run_of_iterate h hu
    exact ⟨rs, _, hrun⟩
  · intro all m' h
    obtain ⟨hkept, hlength, horder⟩ := kept_of_iterate h
    refine ⟨fun u => run_of_iterate h, fun u hu => (idle_of_iterate h hu).1, fun u => ?_, hlength,
      horder, hkept⟩
    cases hu : m.isEnabled u with
    | false => rw [(idle_of_iterate h hu).1]
    | true =>
      obtain ⟨rs, hrun, -⟩ := run_of_iterate h hu
      exact Engine.store_of_run hrun
  · intro o u he hu all m' all' o' h h'
    exact iterate_independent he hu h h'

/-- CPU0 makes a pass of the diagnostic while the memory scheduler, whose control store is empty,
counts through its own addresses. CPU0 makes the same pass beside a memory scheduler that runs the
diagnostic too. -/
theorem iterate_diagnostic_beside_scheduler :
    let other := reference.setEngine .msch (reference.engine .cpu0)
    ∃ all m' all' o', reference.iterate 12 = .ok (all, m') ∧ other.iterate 12 = .ok (all', o') ∧
      all.map (fun reports => (reports.lookup .cpu0).map (·.address)) =
        [1, 2, 2, 3, 0o100, 0o101, 0o102, 0o102, 0o103, 3, 4, 0].map some ∧
      (m'.engine .cpu0).registers.readHolding 0 = 1 ∧
      (m'.engine .cpu0).registers.readScratchpad 0 = 0o77777777 ∧
      (m'.engine .msch).registers = { Registers.zero with address := 0o15 } ∧
      m'.engine .amc = reference.engine .amc ∧ m'.iterations = 12 ∧
      o'.engine .cpu0 = m'.engine .cpu0 ∧
      (o'.engine .msch).registers = (m'.engine .cpu0).registers := by
  intro other
  have hdiagnostic : ((reference.engine .cpu0).run 12).toOption.map (fun p =>
      (p.1.map (·.address), p.2.registers.readHolding 0, p.2.registers.readScratchpad 0)) =
      some ([1, 2, 2, 3, 0o100, 0o101, 0o102, 0o102, 0o103, 3, 4, 0], 1, 0o77777777) := by
    decide +kernel
  have hempty : ((reference.engine .msch).run 12).toOption.map (fun p => p.2.registers) =
      some { Registers.zero with address := 0o15 } := by
    decide +kernel
  obtain ⟨⟨rs, e⟩, hcpu0, hsaid⟩ := exists_eq_ok_of_toOption_map hdiagnostic
  simp only [Prod.mk.injEq] at hsaid
  obtain ⟨hplaces, hr0, hsp0⟩ := hsaid
  obtain ⟨⟨rs', e'⟩, hmsch, hregisters⟩ := exists_eq_ok_of_toOption_map hempty
  have hcpu0' : other.engine .cpu0 = reference.engine .cpu0 :=
    engine_setEngine_of_ne _ _ _ (by decide)
  have hmsch' : other.engine .msch = reference.engine .cpu0 := engine_setEngine_self ..
  have henabled : other.isEnabled = reference.isEnabled := isEnabled_setEngine ..
  obtain ⟨hruns, hleaves, hindependent⟩ := iterate_eq_solo_runs reference 12
  obtain ⟨hruns', hleaves', -⟩ := iterate_eq_solo_runs other 12
  obtain ⟨all, m', h⟩ := hruns.mpr fun u hu => by
    cases u with
    | cpu0 => exact ⟨rs, e, hcpu0⟩
    | msch => exact ⟨rs', e', hmsch⟩
    | _ => cases hu
  obtain ⟨all', o', h'⟩ := hruns'.mpr fun u hu => by
    rw [henabled] at hu
    cases u with
    | cpu0 => exact ⟨rs, e, by rw [hcpu0', hcpu0]⟩
    | msch => exact ⟨rs, e, by rw [hmsch', hcpu0]⟩
    | _ => cases hu
  obtain ⟨hsolo, hidle, -, -, -, hkept⟩ := hleaves all m' h
  obtain ⟨rs₁, hrun₁, hreports⟩ := hsolo .cpu0 rfl
  obtain ⟨rs₂, hrun₂, -⟩ := hsolo .msch rfl
  obtain ⟨rs₃, hrun₃, -⟩ := (hleaves' all' o' h').1 .msch (congrFun henabled _)
  -- An engine has one run of this length, so these are the two runs above.
  rw [hmsch'] at hrun₃
  cases hcpu0.symm.trans hrun₁
  cases hmsch.symm.trans hrun₂
  obtain ⟨-, hsame⟩ := Prod.mk.inj (Except.ok.inj (hcpu0.symm.trans hrun₃))
  refine ⟨all, m', all', o', h, h', ?_, hr0, hsp0, hregisters, hidle .amc rfl, hkept.iterations,
    (hindependent other .cpu0 hcpu0' (congrFun henabled _) all m' all' o' h h').1,
    congrArg Engine.registers hsame.symm⟩
  calc all.map (fun reports => (reports.lookup .cpu0).map (·.address))
      = (all.map (List.lookup .cpu0)).map (Option.map (·.address)) := by rw [List.map_map]; rfl
    _ = (rs.map some).map (Option.map (·.address)) := by rw [hreports]
    _ = (rs.map (·.address)).map some := by rw [List.map_map, List.map_map]; rfl
    _ = [1, 2, 2, 3, 0o100, 0o101, 0o102, 0o102, 0o103, 3, 4, 0].map some := by rw [hplaces]

end Machine

end MicroEngine
