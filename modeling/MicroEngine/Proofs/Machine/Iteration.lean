import MicroEngine.Machine
/-!
# One iteration of the machine

An iteration runs the enabled units in scheduling order, and each of them is one cycle further at
the end. A unit that fails ends the iteration: it stays as it was, as do the units after it.

* `Machine.Advances`: which engines have moved by one cycle, and that nothing else has changed.
* `stepUnits_eq_ok`, `stepUnits_eq_error`: an iteration over a list of units.
* `mem_before_iff`: what stands before a unit in the scheduling order.
* **`step_eq_ok`**, **`step_eq_error`**: what a completed and what a failed iteration leave behind.
* `exists_advances`, `engine_step_cases`: what is common to both.
* **`step_ends_at_first_fault`**: when an iteration fails, with which fault, and what a retry does.
-/

namespace MicroEngine

namespace Machine

section Frame

variable (m : Machine) (u : UnitId) (e : Engine)

theorem engine_setEngine_self : (m.setEngine u e).engine u = e := by
  unfold engine setEngine
  rw [UnitMap.get_set_self]

theorem engine_setEngine_of_ne {v : UnitId} (h : v ≠ u) :
    (m.setEngine u e).engine v = m.engine v := by
  unfold engine setEngine
  rw [UnitMap.get_set_of_ne _ _ h]

theorem isEnabled_setEngine : (m.setEngine u e).isEnabled = m.isEnabled := by
  funext v
  unfold isEnabled setEngine
  by_cases h : v = u
  · rw [h, UnitMap.get_set_self]
  · rw [UnitMap.get_set_of_ne _ _ h]

end Frame

/-- The machine `m'` is `m` with just the units of these reports one cycle further; their engines
gave the reports, and the switches and the breakpoints are as before. -/
structure Advances (m : Machine) (reports : List (UnitId × CycleReport)) (m' : Machine) : Prop where
  step_of_mem : ∀ p ∈ reports, (m.engine p.1).step = .ok (p.2, m'.engine p.1)
  engine_of_not_mem : ∀ u, u ∉ reports.map Prod.fst → m'.engine u = m.engine u
  isEnabled : m'.isEnabled = m.isEnabled
  breakpoints : m'.breakpoints = m.breakpoints
  preload : m'.preloadDiagnostic = m.preloadDiagnostic

theorem Advances.refl (m : Machine) : m.Advances [] m where
  step_of_mem p hp := by cases hp
  engine_of_not_mem _ _ := rfl
  isEnabled := rfl
  breakpoints := rfl
  preload := rfl

/-- A unit that runs first is seen by none of the units after it. -/
theorem Advances.cons {m m' : Machine} {u : UnitId} {e : Engine} {r : CycleReport}
    {reports : List (UnitId × CycleReport)} (hu : u ∉ reports.map Prod.fst)
    (hs : (m.engine u).step = .ok (r, e)) (h : (m.setEngine u e).Advances reports m') :
    m.Advances ((u, r) :: reports) m' where
  step_of_mem p hp := by
    rcases List.mem_cons.mp hp with rfl | hp
    · rw [h.engine_of_not_mem u hu, engine_setEngine_self]
      exact hs
    · have hne : p.1 ≠ u := fun he => hu (he ▸ List.mem_map_of_mem hp)
      rw [← h.step_of_mem p hp, engine_setEngine_of_ne m u e hne]
  engine_of_not_mem v hv := by
    rw [List.map_cons, List.mem_cons, not_or] at hv
    rw [h.engine_of_not_mem v hv.2, engine_setEngine_of_ne m u e hv.1]
  isEnabled := h.isEnabled.trans (isEnabled_setEngine m u e)
  breakpoints := h.breakpoints
  preload := h.preload

/-! ## Lists of units -/

section Units

variable {m : Machine} {u : UnitId} {us : List UnitId}

theorem stepUnits_of_disabled (h : m.isEnabled u = false) :
    m.stepUnits (u :: us) = m.stepUnits us := by
  rw [stepUnits, h]
  rfl

theorem stepUnits_of_error {cause : OpcodeError} (h : m.isEnabled u = true)
    (hs : (m.engine u).step = .error cause) :
    m.stepUnits (u :: us) = (m, .error ⟨u, (m.engine u).registers.address, cause⟩) := by
  rw [stepUnits, if_pos h, hs]

theorem stepUnits_of_ok {r : CycleReport} {e : Engine} (h : m.isEnabled u = true)
    (hs : (m.engine u).step = .ok (r, e)) :
    m.stepUnits (u :: us) = (((m.setEngine u e).stepUnits us).1,
      ((m.setEngine u e).stepUnits us).2.map ((u, r) :: ·)) := by
  rw [stepUnits, if_pos h, hs]

end Units

theorem iterations_stepUnits : ∀ (us : List UnitId) (m : Machine),
    (m.stepUnits us).1.iterations = m.iterations
  | [], _ => rfl
  | u :: us, m => by
    cases h : m.isEnabled u with
    | false => rw [stepUnits_of_disabled h, iterations_stepUnits us m]
    | true =>
      cases hs : (m.engine u).step with
      | error cause => rw [stepUnits_of_error h hs]
      | ok p =>
        rw [stepUnits_of_ok h hs]
        exact iterations_stepUnits us (m.setEngine u p.2)

/-- **A completed iteration over a list of units** moves just the enabled ones. -/
theorem stepUnits_eq_ok : ∀ {us : List UnitId} {m m' : Machine}
    {reports : List (UnitId × CycleReport)}, us.Nodup → m.stepUnits us = (m', .ok reports) →
    reports.map Prod.fst = us.filter m.isEnabled ∧ m.Advances reports m'
  | [], m, _, _, _, h => by
    cases h
    exact ⟨rfl, Advances.refl m⟩
  | u :: us, m, m', reports, hnd, h => by
    obtain ⟨hu, hnd⟩ := List.nodup_cons.mp hnd
    cases he : m.isEnabled u with
    | false =>
      rw [stepUnits_of_disabled he] at h
      rw [List.filter_cons_of_neg (by rw [he]; decide)]
      exact stepUnits_eq_ok hnd h
    | true =>
      rw [List.filter_cons_of_pos he]
      cases hs : (m.engine u).step with
      | error cause =>
        rw [stepUnits_of_error he hs] at h
        cases h
      | ok p =>
        obtain ⟨r, e⟩ := p
        rw [stepUnits_of_ok he hs] at h
        cases hr : (m.setEngine u e).stepUnits us with
        | mk m₁ rest =>
          cases rest with
          | error fault =>
            rw [hr] at h
            cases h
          | ok reports' =>
            rw [hr] at h
            cases h
            -- The rest runs on a machine that differs in `u` alone, and `u` is not in the rest.
            obtain ⟨hfst, hadv⟩ := stepUnits_eq_ok hnd hr
            rw [isEnabled_setEngine] at hfst
            have hu' : u ∉ reports'.map Prod.fst := by
              rw [hfst]
              exact fun hmem => hu (List.mem_filter.mp hmem).1
            exact ⟨by rw [List.map_cons, hfst], hadv.cons hu' hs⟩

/-- **A failed iteration over a list of units** moves just the enabled ones before the fault. -/
theorem stepUnits_eq_error : ∀ {us : List UnitId} {m m' : Machine} {fault : UnitFault},
    us.Nodup → m.stepUnits us = (m', .error fault) →
    fault.address = (m.engine fault.unit).registers.address ∧
    (m.engine fault.unit).step = .error fault.cause ∧
    ∃ reports after, us.filter m.isEnabled = reports.map Prod.fst ++ fault.unit :: after ∧
      m.Advances reports m'
  | [], _, _, _, _, h => by cases h
  | u :: us, m, m', fault, hnd, h => by
    obtain ⟨hu, hnd⟩ := List.nodup_cons.mp hnd
    cases he : m.isEnabled u with
    | false =>
      rw [stepUnits_of_disabled he] at h
      rw [List.filter_cons_of_neg (by rw [he]; decide)]
      exact stepUnits_eq_error hnd h
    | true =>
      rw [List.filter_cons_of_pos he]
      cases hs : (m.engine u).step with
      | error cause =>
        rw [stepUnits_of_error he hs] at h
        cases h
        exact ⟨rfl, hs, [], us.filter m.isEnabled, rfl, Advances.refl m⟩
      | ok p =>
        obtain ⟨r, e⟩ := p
        rw [stepUnits_of_ok he hs] at h
        cases hr : (m.setEngine u e).stepUnits us with
        | mk m₁ rest =>
          cases rest with
          | ok reports =>
            rw [hr] at h
            cases h
          | error fault' =>
            rw [hr] at h
            cases h
            obtain ⟨haddr, hcause, reports, after, hfilter, hadv⟩ := stepUnits_eq_error hnd hr
            rw [isEnabled_setEngine] at hfilter
            -- No unit of the rest is `u`, neither those that have moved nor the one at fault.
            have hmem {v : UnitId} (hv : v ∈ reports.map Prod.fst ++ fault.unit :: after) :
                v ≠ u := by
              rw [← hfilter] at hv
              exact fun hvu => hu (hvu ▸ (List.mem_filter.mp hv).1)
            have hne : fault.unit ≠ u := hmem (by simp)
            have hu' : u ∉ reports.map Prod.fst :=
              fun hv => hmem (List.mem_append_left _ hv) rfl
            rw [engine_setEngine_of_ne m u e hne] at haddr hcause
            exact ⟨haddr, hcause, (u, r) :: reports, after,
              by rw [hfilter, List.map_cons, List.cons_append], hadv.cons hu' hs⟩

/-! ## Scheduling order -/

theorem mem_enabledUnits {m : Machine} {u : UnitId} :
    u ∈ m.enabledUnits ↔ m.isEnabled u = true :=
  List.mem_filter.trans (and_iff_right u.mem_all)

theorem pairwise_enabledUnits (m : Machine) :
    m.enabledUnits.Pairwise fun u v => u.index < v.index :=
  List.Pairwise.filter m.isEnabled (by decide)

theorem nodup_all : UnitId.all.Nodup := by decide

theorem eq_of_index_eq {u v : UnitId} (h : u.index = v.index) : u = v := by
  cases u <;> cases v <;> first | rfl | cases h

/-- What stands before a unit in a list in scheduling order are the units of a lower place. -/
theorem mem_before_iff_index {us before after : List UnitId} {u v : UnitId}
    (hp : us.Pairwise fun u v => u.index < v.index) (h : us = before ++ u :: after) :
    v ∈ before ↔ v ∈ us ∧ v.index < u.index := by
  rw [h, List.pairwise_append, List.pairwise_cons] at hp
  obtain ⟨-, ⟨hafter, -⟩, hbefore⟩ := hp
  rw [h]
  constructor
  · exact fun hv => ⟨List.mem_append_left _ hv, hbefore v hv u List.mem_cons_self⟩
  · rintro ⟨hv, hlt⟩
    rw [List.mem_append, List.mem_cons] at hv
    rcases hv with hv | rfl | hv
    · exact hv
    · exact absurd hlt (Nat.lt_irrefl _)
    · exact absurd (hafter v hv) (by omega)

/-- **What stands before an enabled unit in the schedule** are the enabled units of a lower place. -/
theorem mem_before_iff {m : Machine} {before after : List UnitId} {u v : UnitId}
    (h : m.enabledUnits = before ++ u :: after) :
    v ∈ before ↔ m.isEnabled v = true ∧ v.index < u.index := by
  rw [mem_before_iff_index m.pairwise_enabledUnits h, mem_enabledUnits]

/-! ## Iterations -/

/-- **A completed iteration** moves every enabled unit by one cycle and counts. -/
theorem step_eq_ok {m m' : Machine} {reports : List (UnitId × CycleReport)}
    (h : m.step = (m', .ok reports)) :
    reports.map Prod.fst = m.enabledUnits ∧ m.Advances reports m' ∧
      m'.iterations = m.iterations + 1 := by
  unfold step at h
  cases hs : m.stepUnits UnitId.all with
  | mk m₁ result =>
    rw [hs] at h
    cases result with
    | error fault => cases h
    | ok reports' =>
      cases h
      obtain ⟨hfst, hadv⟩ := stepUnits_eq_ok nodup_all hs
      have hit := iterations_stepUnits UnitId.all m
      rw [hs] at hit
      exact ⟨hfst, ⟨hadv.step_of_mem, hadv.engine_of_not_mem, hadv.isEnabled, hadv.breakpoints,
        hadv.preload⟩, congrArg (· + 1) hit⟩

/-- **A failed iteration** moves the enabled units before the fault and does not count. -/
theorem step_eq_error {m m' : Machine} {fault : UnitFault} (h : m.step = (m', .error fault)) :
    fault.address = (m.engine fault.unit).registers.address ∧
    (m.engine fault.unit).step = .error fault.cause ∧
    m'.iterations = m.iterations ∧
    ∃ reports after, m.enabledUnits = reports.map Prod.fst ++ fault.unit :: after ∧
      m.Advances reports m' := by
  unfold step at h
  cases hs : m.stepUnits UnitId.all with
  | mk m₁ result =>
    rw [hs] at h
    cases result with
    | ok reports => cases h
    | error fault' =>
      cases h
      obtain ⟨haddr, hcause, hmoved⟩ := stepUnits_eq_error nodup_all hs
      have hit := iterations_stepUnits UnitId.all m
      rw [hs] at hit
      exact ⟨haddr, hcause, hit, hmoved⟩

/-- The unit of a report in a list of reports has moved. -/
theorem Advances.step_of_mem_map {m m' : Machine} {reports : List (UnitId × CycleReport)}
    {u : UnitId} (h : m.Advances reports m') (hu : u ∈ reports.map Prod.fst) :
    ∃ r, (m.engine u).step = .ok (r, m'.engine u) := by
  obtain ⟨p, hp, rfl⟩ := List.mem_map.mp hu
  exact ⟨p.2, h.step_of_mem p hp⟩

/-- **An iteration fails exactly if an enabled unit would fail by itself.** -/
theorem step_fails_iff (m : Machine) :
    (∃ fault, m.step.2 = .error fault) ↔
      ∃ u cause, m.isEnabled u = true ∧ (m.engine u).step = .error cause := by
  constructor
  · rintro ⟨fault, h⟩
    obtain ⟨-, hcause, -, reports, after, hunits, -⟩ := step_eq_error (Prod.ext rfl h)
    refine ⟨fault.unit, fault.cause, mem_enabledUnits.mp ?_, hcause⟩
    rw [hunits]
    simp
  · rintro ⟨u, cause, he, hs⟩
    cases h : m.step.2 with
    | error fault => exact ⟨fault, rfl⟩
    | ok reports =>
      obtain ⟨hunits, hadv, -⟩ := step_eq_ok (Prod.ext rfl h)
      have hu := mem_enabledUnits.mpr he
      rw [← hunits] at hu
      obtain ⟨r, hr⟩ := hadv.step_of_mem_map hu
      rw [hs] at hr
      cases hr

/-- A unit that cannot run its cycle ends the iteration, unless one before it does. -/
theorem step_of_engine_error {m : Machine} {u : UnitId} {cause : OpcodeError}
    (he : m.isEnabled u = true) (hs : (m.engine u).step = .error cause) :
    m.step.2 = .error ⟨u, (m.engine u).registers.address, cause⟩ ∨
      ∃ fault, m.step.2 = .error fault ∧ fault.unit.index < u.index := by
  obtain ⟨fault, h⟩ := m.step_fails_iff.mpr ⟨u, cause, he, hs⟩
  obtain ⟨haddr, hcause, -, reports, after, hunits, hadv⟩ := step_eq_error (Prod.ext rfl h)
  by_cases hlt : fault.unit.index < u.index
  · exact Or.inr ⟨fault, h, hlt⟩
  · have hu : u ∉ reports.map Prod.fst := fun hmem => by
      obtain ⟨r, hr⟩ := hadv.step_of_mem_map hmem
      rw [hs] at hr
      cases hr
    -- Before the fault every enabled unit succeeds, so `u` can only be the unit at fault.
    have hge : ¬ u.index < fault.unit.index := fun hlt' =>
      hu ((mem_before_iff hunits).mpr ⟨he, hlt'⟩)
    have hunit : fault.unit = u := eq_of_index_eq (by omega)
    rw [hunit] at haddr hcause
    rw [hs] at hcause
    cases hcause
    left
    rw [h, ← haddr, ← hunit]

/-- **An iteration, completed or not**, moves some units by one cycle and nothing else. -/
theorem exists_advances (m : Machine) : ∃ reports, m.Advances reports m.step.1 := by
  cases h : m.step.2 with
  | ok reports => exact ⟨reports, (step_eq_ok (Prod.ext rfl h)).2.1⟩
  | error fault =>
    obtain ⟨-, -, -, reports, -, -, hadv⟩ := step_eq_error (Prod.ext rfl h)
    exact ⟨reports, hadv⟩

/-- In one iteration a unit makes one cycle or none. -/
theorem engine_step_cases (m : Machine) (u : UnitId) :
    m.step.1.engine u = m.engine u ∨ ∃ r, (m.engine u).step = .ok (r, m.step.1.engine u) := by
  obtain ⟨reports, hadv⟩ := m.exists_advances
  by_cases hu : u ∈ reports.map Prod.fst
  · exact .inr (hadv.step_of_mem_map hu)
  · exact .inl (hadv.engine_of_not_mem u hu)

/-- **A unit that cannot run its cycle stays as it was**, whichever unit ends the iteration. -/
theorem engine_of_engine_error {m : Machine} {u : UnitId} {cause : OpcodeError}
    (hs : (m.engine u).step = .error cause) : m.step.1.engine u = m.engine u := by
  rcases m.engine_step_cases u with hstay | ⟨r, hmove⟩
  · exact hstay
  · rw [hs] at hmove
    cases hmove

/-- **Where an iteration ends.** It fails exactly if an enabled unit would fail by itself. The fault
is then that of the first such unit in scheduling order; the enabled units before it are one cycle
further, and nothing else has changed. As long as that unit stays as it is, an iteration fails
again, with the same fault or with one of an earlier unit. -/
theorem step_ends_at_first_fault (m : Machine) :
    ((∃ fault, m.step.2 = .error fault) ↔
      ∃ u cause, m.isEnabled u = true ∧ (m.engine u).step = .error cause) ∧
    ∀ fault, m.step.2 = .error fault →
      m.isEnabled fault.unit = true ∧
      fault.address = (m.engine fault.unit).registers.address ∧
      (m.engine fault.unit).step = .error fault.cause ∧
      (∀ u, m.isEnabled u = true → u.index < fault.unit.index →
        ∃ r, (m.engine u).step = .ok (r, m.step.1.engine u)) ∧
      (∀ u, m.isEnabled u = false ∨ fault.unit.index ≤ u.index →
        m.step.1.engine u = m.engine u) ∧
      m.step.1.isEnabled = m.isEnabled ∧ m.step.1.breakpoints = m.breakpoints ∧
      m.step.1.preloadDiagnostic = m.preloadDiagnostic ∧ m.step.1.iterations = m.iterations ∧
      ∀ m' : Machine, m'.isEnabled fault.unit = true →
        m'.engine fault.unit = m.engine fault.unit →
        m'.step.2 = .error fault ∨
          ∃ fault', m'.step.2 = .error fault' ∧ fault'.unit.index < fault.unit.index := by
  refine ⟨m.step_fails_iff, fun fault h => ?_⟩
  obtain ⟨haddr, hcause, hit, reports, after, hunits, hadv⟩ := step_eq_error (Prod.ext rfl h)
  have henabled : m.isEnabled fault.unit = true :=
    mem_enabledUnits.mp (by rw [hunits]; exact List.mem_append_right _ List.mem_cons_self)
  refine ⟨henabled, haddr, hcause, ?_, ?_, hadv.isEnabled, hadv.breakpoints, hadv.preload, hit, ?_⟩
  · intro u he hlt
    exact hadv.step_of_mem_map ((mem_before_iff hunits).mpr ⟨he, hlt⟩)
  · intro u hu
    refine hadv.engine_of_not_mem u fun hmem => ?_
    obtain ⟨he, hlt⟩ := (mem_before_iff hunits).mp hmem
    rcases hu with hu | hu
    · rw [he] at hu
      cases hu
    · omega
  · intro m' he' heng
    have hretry := step_of_engine_error he' (heng ▸ hcause)
    rw [heng, ← haddr] at hretry
    exact hretry

/-- A memory scheduler whose special function is unknown ends the iteration after CPU0 has moved, and
an iteration from there fails as well. -/
theorem step_ends_at_msch :
    ∃ m : Machine, ∃ fault, m.step.2 = .error fault ∧ fault.unit = .msch ∧
      (∃ r, (m.engine .cpu0).step = .ok (r, m.step.1.engine .cpu0)) ∧
      m.step.1.engine .msch = m.engine .msch ∧ m.step.1.iterations = m.iterations ∧
      ∃ fault', m.step.1.step.2 = .error fault' := by
  let w := Microword.ofBits [60, 61, 62, 63, 64, 65]
  let m := (unbooted .reference).setEngine .msch ⟨{ Registers.zero with latch := w }, .empty, 0⟩
  have h : m.step.2 = .error ⟨.msch, 0, .unimplemented .special 0o77⟩ := by subst m w; rfl
  obtain ⟨he, -, -, hbefore, hafter, henabled, -, -, hit, hretry⟩ :=
    (step_ends_at_first_fault m).2 _ h
  have hstay : m.step.1.engine .msch = m.engine .msch := hafter .msch (Or.inr (Nat.le_refl _))
  refine ⟨m, _, h, rfl, hbefore .cpu0 (by decide) (by decide), hstay, hit, ?_⟩
  rcases hretry m.step.1 (henabled ▸ he) hstay with h' | ⟨fault', h', -⟩
  · exact ⟨_, h'⟩
  · exact ⟨fault', h'⟩

end Machine

end MicroEngine
