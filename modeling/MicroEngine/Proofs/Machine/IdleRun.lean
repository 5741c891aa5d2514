import MicroEngine.Machine.Run
import MicroEngine.Proofs.Machine.Lockstep
/-!
# Runs with an idle host

With a host that has nothing to say, a run can be cut into shorter ones. Between two of them somebody
has to look for a breakpoint, which a run that has just started does not do.

* `runFrom_idle_cases`: one poll of such a run.
* **`runFrom_add`**: a run with the budget of two runs.
* `runFrom_isFirst`: a run that starts away from breakpoints.
* **`visit_ends_run`**: no run goes past an enabled unit on a breakpoint.
-/

namespace MicroEngine

namespace Machine

variable {isFirst : Bool} {m m' : Machine}

theorem runFrom_of_hit {b : Breakpoint} (h : m.breakpointHit? = some b) (n : Nat) :
    m.runFrom Host.idle false (n + 1) () = ⟨.ok (.breakpoint b), m, ()⟩ := by
  rw [runFrom]
  simp [Host.idle, h]

section Free

variable (hfree : isFirst = false → m.breakpointHit? = none)

include hfree

theorem runFrom_of_fault {fault : UnitFault} (hs : m.step = (m', .error fault)) (n : Nat) :
    m.runFrom Host.idle isFirst (n + 1) () = ⟨.error (.fault fault), m', ()⟩ := by
  rw [runFrom]
  cases isFirst <;> simp_all [Host.idle]

theorem runFrom_of_step {reports : List (UnitId × CycleReport)} (hs : m.step = (m', .ok reports))
    (n : Nat) : m.runFrom Host.idle isFirst (n + 1) () = m'.runFrom Host.idle false n () := by
  rw [runFrom]
  cases isFirst <;> simp_all [Host.idle]

end Free

/-- **One poll of a run with an idle host**, if there is budget left. -/
theorem runFrom_idle_cases (isFirst : Bool) (m : Machine) :
    (∃ b, isFirst = false ∧ m.breakpointHit? = some b ∧
      ∀ n, m.runFrom Host.idle isFirst (n + 1) () = ⟨.ok (.breakpoint b), m, ()⟩) ∨
    (∃ m' fault, m.step = (m', .error fault) ∧
      ∀ n, m.runFrom Host.idle isFirst (n + 1) () = ⟨.error (.fault fault), m', ()⟩) ∨
    ∃ m' reports, m.step = (m', .ok reports) ∧
      ∀ n, m.runFrom Host.idle isFirst (n + 1) () = m'.runFrom Host.idle false n () := by
  by_cases hfree : isFirst = false → m.breakpointHit? = none
  · cases hs : m.step with
    | mk m' result =>
      cases result with
      | error fault => exact .inr (.inl ⟨m', fault, rfl, runFrom_of_fault hfree hs⟩)
      | ok reports => exact .inr (.inr ⟨m', reports, rfl, runFrom_of_step hfree hs⟩)
  · obtain ⟨rfl, hhit⟩ := Classical.not_imp.mp hfree
    obtain ⟨b, hb⟩ := Option.ne_none_iff_exists'.mp hhit
    exact .inl ⟨b, rfl, hb, runFrom_of_hit hb⟩

/-- A run that starts away from breakpoints need not be told that it has just started. -/
theorem runFrom_isFirst (h : m.breakpointHit? = none) (isFirst : Bool) (n : Nat) :
    m.runFrom Host.idle isFirst n () = m.runFrom Host.idle false n () := by
  cases n with
  | zero => rfl
  | succ n =>
    cases hs : m.step with
    | mk m' result =>
      cases result with
      | error fault => rw [runFrom_of_fault (fun _ => h) hs, runFrom_of_fault (fun _ => h) hs]
      | ok reports => rw [runFrom_of_step (fun _ => h) hs, runFrom_of_step (fun _ => h) hs]

/-- **A run with the budget of two runs** is the first of them, and the second one after it if the
first has used up its budget. -/
theorem runFrom_add (isFirst : Bool) (a b : Nat) (m : Machine) :
    m.runFrom Host.idle isFirst (a + b) () =
      match m.runFrom Host.idle isFirst a () with
      | ⟨.ok .stepped, m', _⟩ => m'.runFrom Host.idle (isFirst && a == 0) b ()
      | e => e := by
  induction a generalizing isFirst m with
  | zero =>
    rw [Nat.zero_add, beq_self_eq_true, Bool.and_true]
    rfl
  | succ a ih =>
    rw [Nat.add_right_comm]
    obtain ⟨_, -, -, h⟩ | ⟨_, _, -, h⟩ | ⟨m', reports, -, h⟩ := runFrom_idle_cases isFirst m
    · rw [h, h]
    · rw [h, h]
    · -- The later poll is not the first of its run, so nothing depends on `a` any more.
      rw [h, h, ih]
      cases isFirst <;> rfl

/-- An idle host ends no run. -/
theorem outcome_runFrom_idle (isFirst : Bool) (n : Nat) (m : Machine) :
    (m.runFrom Host.idle isFirst n ()).outcome ≠ .ok .hostStop := by
  induction n generalizing isFirst m with
  | zero => nofun
  | succ n ih =>
    obtain ⟨_, -, -, h⟩ | ⟨_, _, -, h⟩ | ⟨m', reports, -, h⟩ := runFrom_idle_cases isFirst m
    · rw [h]; nofun
    · rw [h]; nofun
    · rw [h]; exact ih false m'

/-- **No run goes past an enabled unit on a breakpoint**, the one that it starts from apart: it ends
there or before, and not because its budget is used up if there is some left. -/
theorem visit_ends_run {all : List (List (UnitId × CycleReport))} {b : Breakpoint} {j n : Nat}
    (hj : isFirst = true → j ≠ 0) (h : m.iterate j = .ok (all, m'))
    (hb : m'.breakpointHit? = some b) :
    (m.runFrom Host.idle isFirst n ()).machine.iterations ≤ m.iterations + j ∧
      (j < n → (m.runFrom Host.idle isFirst n ()).outcome ≠ .ok .stepped) := by
  induction j generalizing isFirst m n all with
  | zero =>
    cases h
    cases isFirst with
    | true => exact absurd rfl (hj rfl)
    | false =>
      cases n with
      | zero => exact ⟨Nat.le_refl _, nofun⟩
      | succ n =>
        rw [runFrom_of_hit hb]
        exact ⟨Nat.le_refl _, nofun⟩
  | succ j ih =>
    obtain ⟨reports, m₁, later, hs, hi, -⟩ := iterate_succ_eq_ok_iff.mp h
    have hcount := (step_eq_ok hs).2.2
    cases n with
    | zero => exact ⟨Nat.le_add_right _ _, nofun⟩
    | succ n =>
      obtain ⟨_, -, -, hrun⟩ | ⟨_, _, hs', -⟩ | ⟨_, _, hs', hrun⟩ := runFrom_idle_cases isFirst m
      · rw [hrun]
        exact ⟨Nat.le_add_right _ _, nofun⟩
      · rw [hs] at hs'
        cases hs'
      · rw [hs] at hs'
        cases hs'
        have hlater : false = true → j ≠ 0 := nofun
        obtain ⟨hle, hends⟩ := ih (n := n) hlater hi
        rw [hrun]
        exact ⟨by omega, fun hlt => hends (by omega)⟩

end Machine

end MicroEngine
