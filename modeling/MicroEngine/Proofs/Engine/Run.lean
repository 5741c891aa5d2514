import MicroEngine.Proofs.Engine.Cycle
/-!
# Runs of a single engine

* `Engine.run`: so many microcycles of an engine alone, with their reports.
* `run_succ_eq_ok_iff`: a run is its first cycle and the run after it.
* `run_add_eq_ok_iff`: a run put together from two.
* `run_eq_error_iff`: when a run fails.
* `runs_of_cons`, `runs_of_append`: a run cut where its reports are cut.
* `exists_step_of_run`: the cycle that a report is of.
* `length_of_run`, `store_of_run`, `cycles_of_run`: what every run keeps, and how far it counts.
-/

namespace MicroEngine

namespace Engine

/-- `n` microcycles of an engine alone, with their reports in order. -/
def run : Nat → Engine → Except OpcodeError (List CycleReport × Engine)
  | 0, e => .ok ([], e)
  | n + 1, e =>
    match e.step with
    | .error cause => .error cause
    | .ok (r, e') =>
      match run n e' with
      | .error cause => .error cause
      | .ok (rs, e'') => .ok (r :: rs, e'')

/-- **A run is its first cycle and the run after it.** -/
theorem run_succ_eq_ok_iff {n : Nat} {e e'' : Engine} {rs : List CycleReport} :
    e.run (n + 1) = .ok (rs, e'') ↔
      ∃ r e' rs', e.step = .ok (r, e') ∧ e'.run n = .ok (rs', e'') ∧ rs = r :: rs' := by
  rw [run]
  cases hs : e.step with
  | error cause => simp
  | ok p =>
    obtain ⟨r, e'⟩ := p
    cases hr : e'.run n with
    | error cause => simp [hr]
    | ok q =>
      obtain ⟨rs', f⟩ := q
      constructor
      · intro h
        simp only [hr, Except.ok.injEq, Prod.mk.injEq] at h
        obtain ⟨rfl, rfl⟩ := h
        exact ⟨r, e', rs', rfl, hr, rfl⟩
      · rintro ⟨r₁, e₁, rs₁, he, hr₁, rfl⟩
        cases he
        rw [hr] at hr₁
        cases hr₁
        simp [hr]

/-- **A run of so many cycles and then so many more.** -/
theorem run_add_eq_ok_iff {a b : Nat} {e e'' : Engine} {rs : List CycleReport} :
    e.run (a + b) = .ok (rs, e'') ↔
      ∃ e' rs₁ rs₂, e.run a = .ok (rs₁, e') ∧ e'.run b = .ok (rs₂, e'') ∧ rs = rs₁ ++ rs₂ := by
  induction a generalizing e rs with
  | zero =>
    rw [Nat.zero_add]
    constructor
    · exact fun h => ⟨e, [], rs, rfl, h, rfl⟩
    · rintro ⟨e', rs₁, rs₂, hr, h, rfl⟩
      cases hr
      exact h
  | succ a ih =>
    rw [Nat.add_right_comm, run_succ_eq_ok_iff]
    constructor
    · rintro ⟨r, e₁, rs', hs, hr, rfl⟩
      obtain ⟨e', rs₁, rs₂, ha, hb, rfl⟩ := ih.mp hr
      exact ⟨e', r :: rs₁, rs₂, run_succ_eq_ok_iff.mpr ⟨r, e₁, rs₁, hs, ha, rfl⟩, hb, rfl⟩
    · rintro ⟨e', rs₁, rs₂, ha, hb, rfl⟩
      obtain ⟨r, e₁, rs', hs, hr, rfl⟩ := run_succ_eq_ok_iff.mp ha
      exact ⟨r, e₁, rs' ++ rs₂, hs, ih.mpr ⟨e', rs', rs₂, hr, hb, rfl⟩, rfl⟩

theorem run_succ_eq_error_iff {n : Nat} {e : Engine} {cause : OpcodeError} :
    e.run (n + 1) = .error cause ↔
      e.step = .error cause ∨ ∃ r e', e.step = .ok (r, e') ∧ e'.run n = .error cause := by
  rw [run]
  cases hs : e.step with
  | error cause' => simp
  | ok p =>
    obtain ⟨r, e'⟩ := p
    have hrest : (∃ r' e'', (Except.ok (r, e') : Except OpcodeError _) = .ok (r', e'') ∧
        e''.run n = .error cause) ↔ e'.run n = .error cause := by
      constructor
      · rintro ⟨_, _, heq, hr⟩
        cases heq
        exact hr
      · exact fun hr => ⟨r, e', rfl, hr⟩
    rw [hrest]
    cases hr : e'.run n <;> simp [hr]

/-- **A run fails exactly if a shorter one leads to a cycle that fails.** -/
theorem run_eq_error_iff {n : Nat} {e : Engine} {cause : OpcodeError} :
    e.run n = .error cause ↔
      ∃ k rs f, k < n ∧ e.run k = .ok (rs, f) ∧ f.step = .error cause := by
  induction n generalizing e with
  | zero =>
    constructor
    · nofun
    · rintro ⟨k, _, _, hk, -⟩
      exact absurd hk (Nat.not_lt_zero k)
  | succ n ih =>
    rw [run_succ_eq_error_iff]
    constructor
    · rintro (hs | ⟨r, e', hs, hr⟩)
      · exact ⟨0, [], e, Nat.zero_lt_succ n, rfl, hs⟩
      · obtain ⟨k, rs, f, hk, hk', hf⟩ := ih.mp hr
        exact ⟨k + 1, r :: rs, f, Nat.succ_lt_succ hk,
          run_succ_eq_ok_iff.mpr ⟨r, e', rs, hs, hk', rfl⟩, hf⟩
    · rintro ⟨k, rs, f, hk, hr, hf⟩
      cases k with
      | zero =>
        cases hr
        exact .inl hf
      | succ k =>
        obtain ⟨r, e', rs', hs, hr', -⟩ := run_succ_eq_ok_iff.mp hr
        exact .inr ⟨r, e', hs, ih.mpr ⟨k, rs', f, Nat.lt_of_succ_lt_succ hk, hr', hf⟩⟩

/-- A run that reports something starts with the cycle of its first report. -/
theorem runs_of_cons {n : Nat} {e e'' : Engine} {r : CycleReport} {rs : List CycleReport}
    (h : e.run n = .ok (r :: rs, e'')) :
    ∃ e' k, e.step = .ok (r, e') ∧ e'.run k = .ok (rs, e'') := by
  cases n with
  | zero => cases h
  | succ k =>
    obtain ⟨r', e', rs', hs, hr, heq⟩ := run_succ_eq_ok_iff.mp h
    cases heq
    exact ⟨e', k, hs, hr⟩

/-- The state after a run that reports nothing is the state before it. -/
theorem eq_of_run_nil {n : Nat} {e e' : Engine} (h : e.run n = .ok ([], e')) : e' = e := by
  cases n with
  | zero => cases h; rfl
  | succ k =>
    obtain ⟨r, e₁, rs, _, _, heq⟩ := run_succ_eq_ok_iff.mp h
    cases heq

/-- **A run cut in two**, wherever its reports are cut. -/
theorem runs_of_append : ∀ {rs rs' : List CycleReport} {n : Nat} {e e'' : Engine},
    e.run n = .ok (rs ++ rs', e'') →
    ∃ e' k k', e.run k = .ok (rs, e') ∧ e'.run k' = .ok (rs', e'')
  | [], _, n, e, _, h => ⟨e, 0, n, rfl, h⟩
  | r :: rs, rs', _, e, _, h => by
    obtain ⟨e₁, m, hs, hr⟩ := runs_of_cons h
    obtain ⟨e', k, k', hk, hk'⟩ := runs_of_append hr
    exact ⟨e', k + 1, k', run_succ_eq_ok_iff.mpr ⟨r, e₁, rs, hs, hk, rfl⟩, hk'⟩

/-- **The cycle of a report** in a run, with the run before it. -/
theorem exists_step_of_run {n : Nat} {e e' : Engine} {r : CycleReport}
    {before after : List CycleReport} (h : e.run n = .ok (before ++ r :: after, e')) :
    ∃ e₁ e₂ k, e.run k = .ok (before, e₁) ∧ e₁.step = .ok (r, e₂) := by
  obtain ⟨e₁, k, _, hbefore, hrest⟩ := runs_of_append h
  obtain ⟨e₂, _, hstep, _⟩ := runs_of_cons hrest
  exact ⟨e₁, e₂, k, hbefore, hstep⟩

theorem length_of_run : ∀ {n : Nat} {e e' : Engine} {rs : List CycleReport},
    e.run n = .ok (rs, e') → rs.length = n
  | 0, _, _, _, h => by cases h; rfl
  | n + 1, _, _, _, h => by
    obtain ⟨r, e', rs', _, hr, rfl⟩ := run_succ_eq_ok_iff.mp h
    rw [List.length_cons, length_of_run hr]

/-- **A run leaves the control store alone.** -/
theorem store_of_run : ∀ {n : Nat} {e e' : Engine} {rs : List CycleReport},
    e.run n = .ok (rs, e') → e'.store = e.store
  | 0, _, _, _, h => by cases h; rfl
  | n + 1, _, _, _, h => by
    obtain ⟨r, e', rs', hs, hr, rfl⟩ := run_succ_eq_ok_iff.mp h
    rw [store_of_run hr, store_of_step hs]

theorem cycles_of_run {n : Nat} {e f : Engine} {rs : List CycleReport} (h : e.run n = .ok (rs, f)) :
    f.cycles = e.cycles + n := by
  induction n generalizing e rs with
  | zero =>
    cases h
    rfl
  | succ n ih =>
    obtain ⟨r, e', rs', hs, hr, -⟩ := run_succ_eq_ok_iff.mp h
    obtain ⟨sig, -, -, rfl⟩ := step_eq_ok_iff.mp hs
    rw [ih hr]
    exact Nat.add_right_comm _ _ _

end Engine

end MicroEngine
