import Mathlib.Logic.Function.Iterate
import MicroEngine.Debugger
import MicroEngine.Proofs.Machine.IdleRun
import MicroEngine.Proofs.Machine.StopEvent
/-!
# Continuous running in batches

While the machine runs under the debugger, each tick is a run of its own with a budget of one batch.
A tick that does not resume a run looks for a breakpoint before its batch, and this is the poll that
the run of the batch leaves out.

* `Debugger.Shows`: the debugger is at the end of a run.
* `tick_shows`: one tick is one run that knows whether it resumes.
* `ticks_show`: ticks one after the other are one run.
* **`ticks_eq_run`**: batches do not show in what a run does.
-/

namespace MicroEngine

namespace Debugger

/-- The debugger has the machine that a run with an idle host leaves, and goes on running just if
the run has used up its budget. If not, the status line says why. -/
structure Shows (d : Debugger) (e : RunEnd Unit) : Prop where
  machine : d.machine = e.machine
  running : d.running = true ↔ e.outcome = .ok .stepped
  breakpoint : ∀ b, e.outcome = .ok (.breakpoint b) → d.status = "Breakpoint: " ++ place b
  error : ∀ cause, e.outcome = .error cause → d.status = "Error: " ++ cause.message

theorem tick_of_not_running {d : Debugger} (h : d.running = false) : d.tick = d := by
  unfold tick
  rw [h]
  rfl

theorem tick_of_blocked {d : Debugger} {b : Breakpoint} (h : d.running = true)
    (hb : d.blockedBy? = some b) : d.tick = d.stopAt b := by
  simp [tick, h, hb]

/-- The run of a batch, started where no breakpoint keeps the debugger from it. -/
theorem batchRun_of_not_blocked {d : Debugger} (h : d.blockedBy? = none) :
    d.batchRun = d.machine.runFrom Host.idle d.resuming batch () := by
  unfold blockedBy? at h
  cases hr : d.resuming with
  | true => rfl
  | false =>
    rw [hr] at h
    exact Machine.runFrom_isFirst h true batch

/-- **One tick is one run**, which may leave a breakpoint if the debugger resumes. -/
theorem tick_shows {d : Debugger} (h : d.running = true) :
    d.tick.Shows (d.machine.runFrom Host.idle d.resuming batch ()) ∧ d.tick.resuming = false := by
  cases hb : d.blockedBy? with
  | some b =>
    have htick := tick_of_blocked h hb
    unfold blockedBy? at hb
    cases hr : d.resuming with
    | true =>
      rw [hr] at hb
      cases hb
    | false =>
      rw [hr] at hb
      have hrun : d.machine.runFrom Host.idle false batch () = ⟨.ok (.breakpoint b), d.machine, ()⟩ :=
        Machine.runFrom_of_hit hb 63
      rw [htick, hrun]
      refine ⟨⟨rfl, ⟨nofun, nofun⟩, ?_, nofun⟩, hr⟩
      rintro _ ⟨⟩
      rfl
  | none =>
    have hidle := Machine.outcome_runFrom_idle d.resuming batch d.machine
    rw [← batchRun_of_not_blocked hb] at hidle ⊢
    simp only [tick, h, hb, Bool.not_true, Bool.false_eq_true, if_false]
    generalize d.batchRun = e at hidle ⊢
    obtain ⟨outcome, m, ⟨⟩⟩ := e
    rcases outcome with cause | (_ | b | _)
    case error => exact ⟨⟨rfl, ⟨nofun, nofun⟩, nofun, by rintro _ ⟨⟩; rfl⟩, rfl⟩
    case ok.stepped => exact ⟨⟨rfl, ⟨fun _ => rfl, fun _ => rfl⟩, nofun, nofun⟩, rfl⟩
    case ok.breakpoint => exact ⟨⟨rfl, ⟨nofun, nofun⟩, by rintro _ ⟨⟩; rfl, nofun⟩, rfl⟩
    case ok.hostStop => exact absurd rfl hidle

/-- **Ticks one after the other are one run.** -/
theorem ticks_show (d : Debugger) (k : Nat) :
    (tick^[k + 1] d.run).Shows (d.machine.runWithin Host.idle (batch * (k + 1)) ()) ∧
      (tick^[k + 1] d.run).resuming = false := by
  induction k with
  | zero => exact tick_shows (d := d.run) rfl
  | succ k ih =>
    obtain ⟨hshows, hresuming⟩ := ih
    have hrun := Machine.runFrom_add true (batch * (k + 1)) batch d.machine
    rw [Function.iterate_succ_apply', Machine.runWithin, Nat.mul_succ, hrun]
    rw [Machine.runWithin] at hshows
    generalize tick^[k + 1] d.run = d' at hshows hresuming ⊢
    generalize d.machine.runFrom Host.idle true (batch * (k + 1)) () = e at hshows ⊢
    obtain ⟨outcome, m, ⟨⟩⟩ := e
    rcases outcome with cause | (_ | b | _)
    case ok.stepped =>
      have htick := tick_shows (hshows.running.mpr rfl)
      rw [hshows.machine, hresuming] at htick
      exact htick
    -- The run has ended before, and a greater budget makes no difference.
    all_goals
      have hstopped : d'.running = false := by
        rw [← Bool.not_eq_true, hshows.running]
        nofun
      rw [tick_of_not_running hstopped]
      exact ⟨hshows, hresuming⟩

/-- **Batches do not show in what a run does.** After the run key and some ticks the machine is the
one that a single run with their whole budget leaves, and the debugger has stopped exactly if that
run ends at a breakpoint or with an error, as the status line says. A machine on the way with an
enabled unit on a breakpoint is not left behind, on the border of two batches or elsewhere. -/
theorem ticks_eq_run (d : Debugger) (k : Nat) :
    let d' := tick^[k] (d.press .run)
    let e := d.machine.runWithin Host.idle (batch * k) ()
    d'.machine = e.machine ∧
    (d'.running = false ↔
      (∃ b, e.outcome = .ok (.breakpoint b)) ∨ ∃ cause, e.outcome = .error cause) ∧
    (∀ b, e.outcome = .ok (.breakpoint b) → d'.status = "Breakpoint: " ++ place b) ∧
    (∀ cause, e.outcome = .error cause → d'.status = "Error: " ++ cause.message) ∧
    ∀ j all m' u, j ≠ 0 → d.machine.iterate j = .ok (all, m') →
      m'.isEnabled u = true → m'.SitsOn u →
      d'.machine.iterations ≤ m'.iterations ∧ (j < batch * k → d'.running = false) := by
  intro d' e
  have hshows : d'.Shows e := by
    cases k with
    | zero => exact ⟨rfl, ⟨fun _ => rfl, fun _ => rfl⟩, nofun, nofun⟩
    | succ k => exact (ticks_show d k).1
  have hidle : e.outcome ≠ .ok .hostStop := Machine.outcome_runFrom_idle _ _ _
  refine ⟨hshows.machine, ?_, hshows.breakpoint, hshows.error, ?_⟩
  · rw [← Bool.not_eq_true, hshows.running]
    generalize e.outcome = outcome at hidle ⊢
    rcases outcome with cause | (_ | b | _) <;> simp at hidle ⊢
  · intro j all m' u hj hi hu hs
    obtain ⟨b, hb⟩ : ∃ b, m'.breakpointHit? = some b := by
      rw [← Option.ne_none_iff_exists']
      exact fun hnone => Machine.breakpointHit?_eq_none_iff.mp hnone u hu hs
    have hstart : true = true → j ≠ 0 := fun _ => hj
    obtain ⟨hle, hends⟩ := Machine.visit_ends_run hstart hi hb
    rw [hshows.machine, (Machine.kept_of_iterate hi).1.iterations, ← Bool.not_eq_true,
      hshows.running]
    exact ⟨hle, hends⟩

/-- A processor that counts up reaches its breakpoint on the border of the first two batches, and
the debugger stops there in the second. -/
theorem ticks_stop_on_border :
    let m := (Machine.unbooted .reference).addBreakpoint ⟨.cpu0, 64⟩
    let d' := tick^[2] ((start m).press .run)
    d'.machine = (m.runWithin Host.idle 128 ()).machine ∧ d'.machine.iterations ≤ 64 ∧
      d'.running = false := by
  intro m d'
  obtain ⟨hmachine, -, -, -, hvisit⟩ := ticks_eq_run (start m) 2
  have hplace : (m.iterate 64).toOption.map
      (fun p => (p.2.isEnabled .cpu0, p.2.hasBreakpoint (p.2.position .cpu0), p.2.iterations)) =
      some (true, true, 64) := by
    decide +kernel
  cases hi : m.iterate 64 with
  | error fault =>
    rw [hi] at hplace
    cases hplace
  | ok p =>
    obtain ⟨all, m'⟩ := p
    simp only [hi, Except.toOption, Option.map_some, Option.some.injEq, Prod.mk.injEq] at hplace
    obtain ⟨hu, hs, hcount⟩ := hplace
    have hstop := hvisit 64 all m' .cpu0 (by decide) hi hu (Machine.hasBreakpoint_position.mp hs)
    rw [hcount] at hstop
    exact ⟨hmachine, hstop.1, hstop.2 (by decide)⟩

end Debugger

end MicroEngine
