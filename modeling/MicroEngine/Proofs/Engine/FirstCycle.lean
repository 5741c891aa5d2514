import MicroEngine.Proofs.Engine.CallReturn
import MicroEngine.Proofs.Engine.Invariant
/-!
# When a microword can fail

An engine comes out of reset and then runs; in between, its control store may be written at any
time. A microword that cannot be executed shows this in its first cycle: to run it a second time
takes a cycle of it that has succeeded.

* `Engine.Event`, `Engine.follow`: attempts at microcycles and writes to the control store.
* `Engine.Fetched`: the moments at which a microword is latched.
* `Engine.Unexecuted`: nothing but the store has changed since then.
* `runs_or_unexecuted`: the latched microword can be executed or has not been executed.
* **`fault_precedes_first_cycle`**: what a failing cycle says of the past.
-/

namespace MicroEngine

/-- A cycle that fetches is the last of its microword. -/
theorem CycleReport.next_of_fetch {r : CycleReport} (h : r.plan.fetch = true) :
    r.plan.next ≠ .branchPending := by
  unfold plan at h ⊢
  revert h
  cases r.stage <;> cases r.branch <;> cases r.microword.has .dgo <;>
    cases r.microword.has .vcy <;> decide

namespace Engine

/-- What happens to an engine that is left to run. -/
inductive Event
  /-- A microcycle is attempted. -/
  | cycle
  /-- An entry of the control store is written. -/
  | write (a : Address) (w : Microword)
  /-- The whole control store is written. -/
  | load (r : ControlStore)

/-- The engine after an event. An attempt that fails leaves it as it was. -/
def undergo (e : Engine) : Event → Engine
  | .cycle => e.attempt
  | .write a w => { e with store := e.store.write a w }
  | .load r => { e with store := r }

/-- The engine after some events. -/
def follow (e : Engine) (es : List Event) : Engine := es.foldl undergo e

theorem follow_concat (e : Engine) (es : List Event) (event : Event) :
    e.follow (es ++ [event]) = (e.follow es).undergo event := by
  unfold follow
  rw [List.foldl_append, List.foldl_cons, List.foldl_nil]

theorem attempt_of_error {e : Engine} {cause : OpcodeError} (h : e.step = .error cause) :
    e.attempt = e := by
  unfold attempt
  rw [h]

theorem attempt_of_ok {e e' : Engine} {r : CycleReport} (h : e.step = .ok (r, e')) :
    e.attempt = e' := by
  unfold attempt
  rw [h]

variable {e : Engine} {es : List Event}

/-- The microword `w` is latched in the last of these events of an engine that comes out of reset:
by the engine's coming out of reset itself, or by a cycle that succeeds and fetches. -/
inductive Fetched (e : Engine) : List Event → Microword → Prop
  | prime : Fetched e [] (e.store.read 0)
  | cycle {es : List Event} {r : CycleReport} {f : Engine}
    (h : (e.reset.prime.follow es).step = .ok (r, f)) (hf : r.plan.fetch = true) :
    Fetched e (es ++ [.cycle]) ((e.reset.prime.follow es).store.read r.origin)

/-- Since the latched microword was fetched, the registers and the count of completed cycles have
always been as they are now. -/
def Unexecuted (e : Engine) (es : List Event) : Prop :=
  let f := e.reset.prime.follow es
  ∃ before after, es = before ++ after ∧ e.Fetched before f.registers.latch ∧
    ∀ mid late, after = mid ++ late →
      (e.reset.prime.follow (before ++ mid)).registers = f.registers ∧
        (e.reset.prime.follow (before ++ mid)).cycles = f.cycles

theorem Fetched.unexecuted (h : e.Fetched es (e.reset.prime.follow es).registers.latch) :
    e.Unexecuted es := by
  refine ⟨es, [], (List.append_nil es).symm, h, fun mid late hcut => ?_⟩
  rw [(List.nil_eq_append_iff.mp hcut).1, List.append_nil]
  exact ⟨rfl, rfl⟩

/-- An event that leaves registers and count alone leaves a microword unexecuted. -/
theorem Unexecuted.concat {event : Event} (h : e.Unexecuted es)
    (hs : (e.reset.prime.follow (es ++ [event])).registers = (e.reset.prime.follow es).registers)
    (hc : (e.reset.prime.follow (es ++ [event])).cycles = (e.reset.prime.follow es).cycles) :
    e.Unexecuted (es ++ [event]) := by
  obtain ⟨before, after, rfl, hfetched, hsame⟩ := h
  refine ⟨before, after ++ [event], List.append_assoc _ _ _, by rwa [hs], ?_⟩
  intro mid late hcut
  rcases List.eq_nil_or_concat late with rfl | ⟨late, last, rfl⟩
  · rw [List.append_nil] at hcut
    rw [← hcut, ← List.append_assoc]
    exact ⟨rfl, rfl⟩
  · rw [List.concat_eq_append, ← List.append_assoc] at hcut
    obtain ⟨hs', hc'⟩ := hsame mid late (List.append_inj_left' hcut rfl)
    exact ⟨hs'.trans hs.symm, hc'.trans hc.symm⟩

/-- **A latched microword can be executed, or has not been executed.** In the second stage it can
be executed, whatever has been written to the control store since it was fetched. -/
theorem runs_or_unexecuted (e : Engine) (es : List Event) :
    let f := e.reset.prime.follow es
    (f.registers.stage = .branchPending → f.registers.latch.fault? = none) ∧
      (f.registers.latch.fault? = none ∨ e.Unexecuted es) := by
  induction es using List.reverseRecOn with
  | nil => exact ⟨nofun, .inr (Fetched.unexecuted .prime)⟩
  | append_singleton es event ih =>
    obtain ⟨hpending, hruns⟩ := ih
    -- An event that leaves the registers alone keeps what is known of them.
    have hkeep (hs : (e.reset.prime.follow (es ++ [event])).registers =
        (e.reset.prime.follow es).registers)
        (hc : (e.reset.prime.follow (es ++ [event])).cycles = (e.reset.prime.follow es).cycles) :
        ((e.reset.prime.follow (es ++ [event])).registers.stage = .branchPending →
          (e.reset.prime.follow (es ++ [event])).registers.latch.fault? = none) ∧
        ((e.reset.prime.follow (es ++ [event])).registers.latch.fault? = none ∨
          e.Unexecuted (es ++ [event])) := by
      rw [hs]
      exact ⟨hpending, hruns.imp_right fun h => h.concat hs hc⟩
    cases event with
    | write a w => exact hkeep (by rw [follow_concat]; rfl) (by rw [follow_concat]; rfl)
    | load r => exact hkeep (by rw [follow_concat]; rfl) (by rw [follow_concat]; rfl)
    | cycle =>
      cases hstep : (e.reset.prime.follow es).step with
      | error cause =>
        have hstay : e.reset.prime.follow (es ++ [.cycle]) = e.reset.prime.follow es :=
          (follow_concat _ _ _).trans (attempt_of_error hstep)
        exact hkeep (by rw [hstay]) (by rw [hstay])
      | ok p =>
        obtain ⟨r, f⟩ := p
        have hmove : e.reset.prime.follow (es ++ [.cycle]) = f :=
          (follow_concat _ _ _).trans (attempt_of_ok hstep)
        obtain ⟨hstage, hlatch, -⟩ := sequencer_of_step hstep
        cases hfetch : r.plan.fetch with
        | true =>
          rw [hfetch, if_pos rfl] at hlatch
          constructor
          · rw [hmove, hstage]
            exact fun h => absurd h (CycleReport.next_of_fetch hfetch)
          · refine .inr (Fetched.unexecuted ?_)
            rw [hmove, hlatch]
            exact .cycle hstep hfetch
        | false =>
          -- The microword stays, and it has just been executed.
          have hknown : f.registers.latch.fault? = none := by
            rw [hlatch, hfetch, if_neg Bool.false_ne_true, (report_of_step hstep).2.1,
              Option.eq_none_iff_forall_ne_some]
            intro cause hcause
            rw [step_eq_error_iff.mpr hcause] at hstep
            cases hstep
          rw [hmove]
          exact ⟨fun _ => hknown, .inl hknown⟩

/-- **A microword fails before its first cycle or never.** An engine comes out of reset, microcycles
are attempted and its control store is written. In the second stage the codes of the latched
microword are known and the next cycle succeeds. A cycle that fails is in the first or in the third
stage. Since the failing microword was fetched, which was by a successful cycle or on coming out of
reset, every cycle would have failed in the same way, and the registers and the count of completed
cycles have stayed as they are. -/
theorem fault_precedes_first_cycle (e : Engine) (es : List Event) :
    let f := e.reset.prime.follow es
    (f.registers.stage = .branchPending →
      (∃ s, SpecialFunction.ofCode? f.registers.latch.special = some s) ∧
      (∃ c, BranchCondition.ofCode? f.registers.latch.condition = some c) ∧
      ∃ r f', f.step = .ok (r, f')) ∧
    ∀ cause, f.step = .error cause →
      (f.registers.stage = .normal ∨ f.registers.stage = .extendedSettle) ∧
      ∃ before after, es = before ++ after ∧ e.Fetched before f.registers.latch ∧
        ∀ mid late, after = mid ++ late →
          let g := e.reset.prime.follow (before ++ mid)
          g.step = .error cause ∧ g.registers = f.registers ∧ g.cycles = f.cycles := by
  intro f
  obtain ⟨hpending, hruns⟩ := runs_or_unexecuted e es
  constructor
  · intro hstage
    have hknown := hpending hstage
    cases hstep : f.step with
    | error cause =>
      rw [step_eq_error_iff, hknown] at hstep
      cases hstep
    | ok p =>
      obtain ⟨sig, hsig, -⟩ := step_eq_ok_iff.mp hstep
      obtain ⟨s, c, hs, hc, -⟩ := Registers.signals_eq_ok_iff.mp hsig
      exact ⟨⟨s, hs⟩, ⟨c, hc⟩, p.1, p.2, rfl⟩
  · intro cause hstep
    have hfault := step_eq_error_iff.mp hstep
    have hstage : f.registers.stage ≠ .branchPending := by
      intro hstage
      rw [hpending hstage] at hfault
      cases hfault
    refine ⟨by cases hs : f.registers.stage <;> simp_all, ?_⟩
    have hunexecuted := hruns.resolve_left (by rw [hfault]; nofun)
    obtain ⟨before, after, hes, hfetched, hsame⟩ := hunexecuted
    refine ⟨before, after, hes, hfetched, fun mid late hcut => ?_⟩
    obtain ⟨hregisters, hcycles⟩ := hsame mid late hcut
    exact ⟨by rw [step_eq_error_iff, hregisters]; exact hfault, hregisters, hcycles⟩

/-- A stretched microword runs twice although its entry is spoilt in between. The microword after it
is unknown and fails, before and after its own entry is mended, with the registers as its fetch has
left them. -/
theorem fault_precedes_first_cycle_patched :
    let unknown := Microword.ofBits [60, 61, 62, 63, 64, 65]
    let e : Engine := { fresh with
      store := ControlStore.empty.writeAll [(0, Microword.ofBits [86]), (1, unknown)] }
    let first : List Event := [.cycle, .write 0 unknown]
    let es : List Event := first ++ [.cycle, .cycle, .write 1 .nop, .cycle]
    (e.reset.prime.follow first).registers.stage = .branchPending ∧
      (∃ r f', (e.reset.prime.follow first).step = .ok (r, f')) ∧
      (e.reset.prime.follow es).step = .error (.unimplemented .special 0o77) ∧
      (e.reset.prime.follow es).registers.stage = .normal ∧
      ∃ before after, es = before ++ after ∧ e.Fetched before unknown ∧
        (e.reset.prime.follow before).registers = (e.reset.prime.follow es).registers := by
  intro unknown e first es
  have hpending : (e.reset.prime.follow first).registers.stage = .branchPending := by
    decide +kernel
  have hfails : (e.reset.prime.follow es).registers.latch = unknown ∧
      (e.reset.prime.follow es).registers.stage = .normal := by
    decide +kernel
  have hfault : (e.reset.prime.follow es).step = .error (.unimplemented .special 0o77) := by
    rw [step_eq_error_iff, hfails.1]
    decide
  obtain ⟨-, before, after, hes, hfetched, hsame⟩ := (fault_precedes_first_cycle e es).2 _ hfault
  obtain ⟨-, hregisters, -⟩ := hsame [] after rfl
  rw [List.append_nil] at hregisters
  rw [hfails.1] at hfetched
  exact ⟨hpending, ((fault_precedes_first_cycle e first).1 hpending).2.2, hfault, hfails.2, before,
    after, hes, hfetched, hregisters⟩

end Engine

end MicroEngine
