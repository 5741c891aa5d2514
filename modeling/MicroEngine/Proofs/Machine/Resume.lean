import MicroEngine.Proofs.Engine.CallReturn
import MicroEngine.Proofs.Machine.History
/-!
# Resuming at a breakpoint

A run does not look for a breakpoint before its first iteration, so that it can leave the one that
the last run has stopped at. It comes back with the same breakpoint when the unit comes back to it.

* `Engine.move_of_stay`: a cycle that leaves the address as it was has held it or taken a jump.
* `breakpoint_is_first_return`: a run that stops at a breakpoint has not been there in between.
* **`resumed_run_leaves_breakpoint`**: what the next run does if it stops at the same breakpoint.
* `jump_to_itself_is_reported_again`: a jump that leads back within one iteration.
-/

namespace MicroEngine

/-- **A cycle that leaves the address as it was** has held it or taken a jump: after an advance the
address is at another place. -/
theorem Engine.move_of_stay {e e' : Engine} {r : CycleReport} (h : e.step = .ok (r, e'))
    (hstay : e'.registers.address = e.registers.address) :
    r.plan.address = .hold ∨ r.plan.address = .jump := by
  obtain ⟨-, -, haddress⟩ := report_of_step h
  obtain ⟨-, -, -, hadvance, -⟩ := sequencer_of_step h
  cases hmove : r.plan.address with
  | hold => exact .inl rfl
  | jump => exact .inr rfl
  | increment =>
    have hplace := r.origin_and_offsetMask
    rw [haddress, ← hstay] at hplace
    exact absurd (hadvance hmove).symm (Address.succ_ne hplace)

namespace Machine

/-- The unit is about to run the first cycle of a stretched microword. -/
def StartsStretch (m : Machine) (u : UnitId) : Prop :=
  (m.engine u).registers.stage = .normal ∧ (m.engine u).registers.latch.has .vcy = true

section Run

variable {σ : Type} {service : Host σ} {limit : Option Nat} {h : σ} {m : Machine} {e : RunEnd σ}
  {b : Breakpoint}

theorem exists_polled_of_le {k : Nat} {g : σ} {o : Machine} (hp : polled service h m k = some (g, o)) :
    ∀ {j : Nat}, j ≤ k → ∃ g' o', polled service h m j = some (g', o') := by
  intro j hj
  induction hj using Nat.decreasingInduction with
  | self => exact ⟨g, o, hp⟩
  | of_succ j _ ih =>
    obtain ⟨g', o', hp'⟩ := ih
    obtain ⟨g'', o'', -, hp'', -⟩ := polled_succ_eq_some_iff.mp hp'
    exact ⟨g'', o'', hp''⟩

/-- A run that has started ends at a poll that finds a breakpoint, if not for another reason. -/
theorem exists_endsAt_of_hit {spent started : Prop} (hstarted : started) (hb : m.FirstHit b) :
    ∃ e, EndsAt service spent started h m e := by
  cases ha : service h m with
  | mk answer h' =>
    rcases answer with cause | _ | _
    · exact ⟨_, .hostFailed ha⟩
    · by_cases hspent : spent
      · exact ⟨_, .stepped ha hspent⟩
      · exact ⟨_, .breakpoint ha hspent hstarted hb⟩
    · exact ⟨_, .hostStopped ha⟩

/-- **A run that stops at a breakpoint** stops where it first finds the unit there after an
iteration. -/
theorem breakpoint_is_first_return (hrun : Returns service limit h m e)
    (hb : e.outcome = .ok (.breakpoint b)) :
    e.machine.FirstHit b ∧ ∃ k, k ≠ 0 ∧ e.machine.iterations = m.iterations + k ∧
      e.machine = stepped^[k] m ∧ ∀ j < k, j ≠ 0 → (stepped^[j] m).position b.unit ≠ b := by
  obtain ⟨k, hk⟩ := returns_iff.mp hrun
  have hcount := hk.iterations
  obtain ⟨⟨g, o, hp, hends⟩, hnone⟩ := hk
  cases hends with
  | breakpoint answer budget started hit =>
    cases hb
    obtain rfl := polled_eq_iterate_stepped hp
    refine ⟨hit, k, started, hcount, rfl, ?_⟩
    intro j hj hne hback
    obtain ⟨g', o', hp'⟩ := exists_polled_of_le hp (Nat.le_of_lt hj)
    obtain rfl := polled_eq_iterate_stepped hp'
    -- The unit is enabled and its breakpoint is set all along, so the run would have ended here.
    have hthen := m.sameSetup_iterate_stepped j
    have hnow := m.sameSetup_iterate_stepped k
    have henabled := hit.enabled
    have hsits := hit.sits
    rw [hnow.isEnabled, ← hthen.isEnabled] at henabled
    rw [SitsOn, hit.position, hnow.breakpoints, ← hthen.breakpoints, ← hback] at hsits
    obtain ⟨c, hc⟩ := exists_firstHit henabled hsits
    obtain ⟨e', he'⟩ := exists_endsAt_of_hit hne hc
    exact hnone j hj e' ⟨g', _, hp', he'⟩
  | _ => cases hb

end Run

/-- An iteration that counts is a cycle of every enabled unit. -/
theorem solo_of_counted {m : Machine} {u : UnitId} (hu : m.isEnabled u = true)
    (hcount : m.stepped.iterations = m.iterations + 1) :
    ∃ r, (m.engine u).step = .ok (r, m.stepped.engine u) := by
  cases hs : m.step with
  | mk m' result =>
    have hm : m.stepped = m' := congrArg Prod.fst hs
    rw [hm] at hcount ⊢
    cases result with
    | ok reports =>
      obtain ⟨r, hr, -⟩ := solo_of_step hs hu
      exact ⟨r, hr⟩
    | error fault =>
      have hkept : m'.iterations = m.iterations := (step_eq_error hs).2.2.1
      omega

/-- **The next run leaves a breakpoint.** If a run stops at a breakpoint and the next one stops at the
same breakpoint again, then the unit has been at other addresses in between, at the end of every
iteration but the last, or the next run has ended after its only iteration, in which the unit has
taken a jump that leads to the breakpoint. This takes for granted that the unit was not about to
hold its address for the first cycle of a stretched microword. -/
theorem resumed_run_leaves_breakpoint {σ σ' : Type} {service : Host σ} {service' : Host σ'}
    {limit limit' : Option Nat} {h : σ} {h' : σ'} {m : Machine} {e : RunEnd σ} {e' : RunEnd σ'}
    {b : Breakpoint} (hrun : Returns service limit h m e) (hstop : e.outcome = .ok (.breakpoint b))
    (hrun' : Returns service' limit' h' e.machine e')
    (hstop' : e'.outcome = .ok (.breakpoint b)) (hstretch : ¬ e.machine.StartsStretch b.unit) :
    ∃ k, e'.machine.iterations = e.machine.iterations + k ∧ e'.machine = stepped^[k] e.machine ∧
      ((1 < k ∧ ∀ j < k, j ≠ 0 →
          ((stepped^[j] e.machine).engine b.unit).registers.address ≠ b.address) ∨
        (k = 1 ∧ ∃ r, (e.machine.engine b.unit).step = .ok (r, e'.machine.engine b.unit) ∧
          r.plan.address = .jump)) := by
  obtain ⟨hit, -⟩ := breakpoint_is_first_return hrun hstop
  obtain ⟨hit', k, hk, hcount, hmachine, hfirst⟩ := breakpoint_is_first_return hrun' hstop'
  refine ⟨k, hcount, hmachine, ?_⟩
  by_cases hone : k = 1
  · subst hone
    have hmachine : e'.machine = e.machine.stepped := hmachine
    rw [hmachine] at hcount hit' ⊢
    obtain ⟨r, hcycle⟩ := solo_of_counted hit.enabled hcount
    refine .inr ⟨rfl, r, hcycle, ?_⟩
    have hstay := congrArg Breakpoint.address (hit'.position.trans hit.position.symm)
    refine (Engine.move_of_stay hcycle hstay).resolve_left fun hhold => hstretch ?_
    obtain ⟨hstage, hvcy⟩ := CycleReport.hold_iff.mp hhold
    obtain ⟨hs, hw, -⟩ := Engine.report_of_step hcycle
    exact ⟨hs ▸ hstage, hw ▸ hvcy⟩
  · refine .inl ⟨by omega, fun j hj hne haddress => hfirst j hj hne ?_⟩
    rw [position, haddress]

/-- A loop of three addresses comes back to its breakpoint after two others. -/
theorem loop_leaves_breakpoint :
    let jump : Microword := ⟨0o0100010000, 0, 0o4⟩
    let m := ((unbooted .reference).setEngine .msch
      ⟨.zero, ControlStore.empty.write 2 jump, 0⟩).addBreakpoint ⟨.msch, 1⟩
    let e := runWithin Host.idle 9 () m
    let e' := runWithin Host.idle 9 () e.machine
    e.outcome = .ok (.breakpoint ⟨.msch, 1⟩) ∧ e'.outcome = .ok (.breakpoint ⟨.msch, 1⟩) ∧
      ¬ e.machine.StartsStretch .msch ∧
      ∃ k, 1 < k ∧ ∀ j < k, j ≠ 0 →
        ((stepped^[j] e.machine).engine .msch).registers.address ≠ 1 := by
  intro jump m e e'
  have hstop : e.outcome = .ok (.breakpoint ⟨.msch, 1⟩) := by decide +kernel
  have hstop' : e'.outcome = .ok (.breakpoint ⟨.msch, 1⟩) := by decide +kernel
  have hstretch : ¬ e.machine.StartsStretch .msch :=
    fun h => absurd h.2 (by decide +kernel)
  have hrun : Returns Host.idle (some 9) () m e := rfl
  have hrun' : Returns Host.idle (some 9) () e.machine e' := rfl
  obtain ⟨k, hcount, -, hleaves | ⟨rfl, -⟩⟩ :=
    resumed_run_leaves_breakpoint hrun hstop hrun' hstop' hstretch
  · exact ⟨hstop, hstop', hstretch, k, hleaves⟩
  · exact absurd hcount (by decide +kernel)

/-- A unit whose deferred jump leads to the address that it is at stops at a breakpoint there in
every run anew, though the address does not change. -/
theorem jump_to_itself_is_reported_again :
    let jump : Microword := ⟨0o0100010000, 0, 0o4⟩
    let m := ((unbooted .reference).setEngine .msch
      ⟨.zero, (ControlStore.empty.write 0 jump).write 1 jump, 0⟩).addBreakpoint ⟨.msch, 1⟩
    let e := runWithin Host.idle 5 () m
    let e' := runWithin Host.idle 5 () e.machine
    e.outcome = .ok (.breakpoint ⟨.msch, 1⟩) ∧ e'.outcome = .ok (.breakpoint ⟨.msch, 1⟩) ∧
      e'.machine.iterations = e.machine.iterations + 1 ∧
      (e.machine.engine .msch).registers.address = 1 ∧
      (e'.machine.engine .msch).registers.address = 1 := by
  decide +kernel

end Machine

end MicroEngine
