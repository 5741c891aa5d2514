import MicroEngine.Proofs.Debugger.Batch
/-!
# The unit on view at a breakpoint

A tick finds a breakpoint before its batch or within it, and only the second brings the unit on view
that has reached it. Which of the two happens depends on the number of iterations since the run key
was pressed.

* `Debugger.StoppedAt`: the debugger has stopped at a breakpoint.
* `tick_cases`: how one tick ends.
* **`tick_view`**: the unit on view after a tick that stops at a breakpoint.
* `border_stop_keeps_view`: a unit that reaches its breakpoint between two batches stays out of view.
* `ticks_view`: the unit on view after the run key and some ticks.
-/

namespace MicroEngine

namespace Debugger

/-- The debugger has stopped at a breakpoint: the one that the status line names, and the first
enabled unit that sits on one is there. -/
structure StoppedAt (d : Debugger) (b : Breakpoint) : Prop where
  running : d.running = false
  status : d.status = "Breakpoint: " ++ place b
  hit : d.machine.FirstHit b

/-- The debugger has stopped with an error. -/
def Failed (d : Debugger) : Prop :=
  d.running = false ∧ ∃ cause : RunError, d.status = "Error: " ++ cause.message

theorem StoppedAt.not_failed {d : Debugger} {b : Breakpoint} (h : d.StoppedAt b) : ¬ d.Failed := by
  rintro ⟨-, cause, herror⟩
  have hchars := congrArg String.toList (h.status.symm.trans herror)
  simp at hchars

theorem blockedBy?_eq_some_iff {d : Debugger} {b : Breakpoint} :
    d.blockedBy? = some b ↔ d.resuming = false ∧ d.machine.FirstHit b := by
  unfold blockedBy?
  cases d.resuming <;> simp [Machine.breakpointHit?_eq_some_iff]

/-- **How a tick of a running debugger ends**: after a whole batch, with an error, or at a breakpoint
after fewer iterations than a batch has. -/
theorem tick_cases {d : Debugger} (h : d.running = true) :
    (d.tick.running = true ∧ d.tick.selected = d.selected ∧
      d.tick.machine.iterations = d.machine.iterations + batch) ∨
    (d.tick.Failed ∧ d.tick.selected = d.selected) ∨
    ∃ b n, d.tick.StoppedAt b ∧ n < batch ∧ (n = 0 ↔ d.blockedBy? = some b) ∧
      d.tick.machine.iterations = d.machine.iterations + n ∧
      d.tick.selected = if n = 0 then d.selected else b.unit := by
  cases hb : d.blockedBy? with
  | some b =>
    rw [tick_of_blocked h hb]
    exact .inr (.inr ⟨b, 0, ⟨rfl, rfl, (blockedBy?_eq_some_iff.mp hb).2⟩, by decide,
      ⟨fun _ => rfl, fun _ => rfl⟩, rfl, rfl⟩)
  | none =>
    obtain ⟨k, hk⟩ := Machine.runWithin_eq_iff.mp (rfl : d.batchRun = d.batchRun)
    have hcount := hk.iterations
    have hle := hk.runWithin_eq.2
    obtain ⟨⟨g, o, -, hends⟩, -⟩ := hk
    simp only [tick, h, hb, Bool.not_true, Bool.false_eq_true, if_false]
    generalize d.batchRun = e at hcount hends ⊢
    cases hends with
    | hostFailed answer => cases answer
    | hostStopped answer => cases answer
    | stepped answer budget =>
      cases budget
      exact .inl ⟨rfl, rfl, hcount⟩
    | fault answer budget free step => exact .inr (.inl ⟨⟨rfl, _, rfl⟩, rfl⟩)
    | breakpoint answer budget running hit =>
      have hne : k ≠ batch := fun hkb => budget (by rw [hkb])
      exact .inr (.inr ⟨_, k, ⟨rfl, rfl, hit⟩, by omega,
        iff_of_false running (Option.some_ne_none _).symm, hcount, (if_neg running).symm⟩)

/-- **The unit on view after a tick that stops at a breakpoint**, that is, stops and has not failed. A
tick that has made an iteration brings the unit on view that has reached the breakpoint. A tick that
makes none leaves the view as it is: that happens exactly if no run is resumed and a unit sits on a
breakpoint already. -/
theorem tick_view {d : Debugger} (hrun : d.running = true) (hstop : d.tick.running = false)
    (hok : ¬ d.tick.Failed) :
    ∃ b, d.tick.StoppedAt b ∧
      d.tick.selected =
        (if d.tick.machine.iterations = d.machine.iterations then d.selected else b.unit) ∧
      (d.tick.machine.iterations = d.machine.iterations ↔
        d.resuming = false ∧ d.machine.FirstHit b) ∧
      d.tick.machine.iterations < d.machine.iterations + batch := by
  obtain ⟨hgoes, -⟩ | ⟨hfailed, -⟩ | ⟨b, n, hstopped, hlt, hblocked, hcount, hselected⟩ :=
    tick_cases hrun
  · rw [hstop] at hgoes
    cases hgoes
  · exact absurd hfailed hok
  · refine ⟨b, hstopped, ?_⟩
    simp only [hcount, Nat.add_eq_left, ← blockedBy?_eq_some_iff]
    exact ⟨hselected, hblocked, by omega⟩

/-- The memory scheduler comes on view when it reaches its breakpoint within a batch. -/
theorem tick_view_within_batch :
    let d := (start ((Machine.unbooted .reference).addBreakpoint ⟨.msch, 5⟩)).press .run
    d.running = true ∧ d.selected = .cpu0 ∧ d.tick.StoppedAt ⟨.msch, 5⟩ ∧
      d.tick.selected = .msch := by
  intro d
  obtain ⟨hstatus, hhit, hmoved⟩ : d.tick.status = "Breakpoint: MSCH at 0005" ∧
      d.tick.machine.breakpointHit? = some ⟨.msch, 5⟩ ∧
      d.tick.machine.iterations ≠ d.machine.iterations := by
    decide +kernel
  have hstopped : d.tick.StoppedAt ⟨.msch, 5⟩ :=
    ⟨by decide +kernel, hstatus, Machine.firstHit_of_breakpointHit? hhit⟩
  obtain ⟨b, hb, hview, -⟩ := tick_view rfl hstopped.running hstopped.not_failed
  rw [if_neg hmoved, hb.hit.unique hstopped.hit] at hview
  exact ⟨rfl, rfl, hstopped, hview⟩

/-- The memory scheduler does not come on view when it reaches its breakpoint between two batches:
the debugger stops there as the second one is due, and goes on showing the first processor. -/
theorem border_stop_keeps_view :
    let d := tick ((start ((Machine.unbooted .reference).addBreakpoint ⟨.msch, 64⟩)).press .run)
    d.running = true ∧ d.tick.StoppedAt ⟨.msch, 64⟩ ∧ d.tick.selected = .cpu0 := by
  intro d
  obtain ⟨hrun, hresuming, hselected, hhit⟩ : d.running = true ∧ d.resuming = false ∧
      d.selected = .cpu0 ∧ d.machine.breakpointHit? = some ⟨.msch, 64⟩ := by
    decide +kernel
  have hfirst := Machine.firstHit_of_breakpointHit? hhit
  rw [tick_of_blocked hrun (blockedBy?_eq_some_iff.mpr ⟨hresuming, hfirst⟩)]
  exact ⟨hrun, ⟨rfl, rfl, hfirst⟩, hselected⟩

/-- **The unit on view after the run key and some ticks.** As long as the debugger runs, the view
stays. When it stops at a breakpoint, the number of iterations since the run key was pressed decides:
the unit that has reached the breakpoint comes on view unless they fill whole batches. -/
theorem ticks_view (d : Debugger) (k : Nat) :
    let d' := tick^[k] (d.press .run)
    (d'.running = true ∧ d'.selected = d.selected ∧
      d'.machine.iterations = d.machine.iterations + batch * k) ∨
    (d'.Failed ∧ d'.selected = d.selected) ∨
    ∃ b n, d'.StoppedAt b ∧ d'.machine.iterations = d.machine.iterations + n ∧
      d'.selected = if n % batch = 0 then d.selected else b.unit := by
  induction k with
  | zero => exact .inl ⟨rfl, rfl, rfl⟩
  | succ k ih =>
    rw [Function.iterate_succ_apply']
    generalize tick^[k] (d.press .run) = d' at ih ⊢
    have hstays (h : d'.running = false) := tick_of_not_running h
    obtain ⟨hrun, hview, hcount⟩ | ⟨hfailed, hview⟩ | ⟨b, n, hstop, hend⟩ := ih
    · obtain ⟨hrun', hview', hcount'⟩ | ⟨hfailed, hview'⟩ | ⟨b, n, hstop, hlt, -, hcount', hview'⟩ :=
        tick_cases hrun
      · exact .inl ⟨hrun', hview'.trans hview, by rw [hcount', hcount, Nat.mul_succ, Nat.add_assoc]⟩
      · exact .inr (.inl ⟨hfailed, hview'.trans hview⟩)
      · refine .inr (.inr ⟨b, batch * k + n, hstop, by rw [hcount', hcount, Nat.add_assoc], ?_⟩)
        rw [Nat.mul_add_mod, Nat.mod_eq_of_lt hlt, hview', hview]
    · rw [hstays hfailed.1]
      exact .inr (.inl ⟨hfailed, hview⟩)
    · rw [hstays hstop.running]
      exact .inr (.inr ⟨b, n, hstop, hend⟩)

end Debugger

end MicroEngine
