import Mathlib.Data.List.Forall2
import MicroEngine.Proofs.Engine.CallReturn
import MicroEngine.Proofs.Engine.Footprint
import MicroEngine.Proofs.Engine.Timing
import MicroEngine.Proofs.Microword.Layout
/-!
# Stretching microwords that never branch

A microword that never branches and is made a stretched one does in two cycles what it did in one.
So a control store with such microwords stretched runs as the original one, with some cycles
doubled.

* `Microword.Stretches`: a microword that may have been stretched.
* `Engine.Slowed`: an engine with some of its microwords stretched.
* `CycleReport.SlowedTo`: the one or two cycles that stand for a cycle of the original engine.
* **`step_slowed`**: what one cycle of the original engine becomes.
* `Engine.Stutters`: a run and the run that stands for it.
* **`stretching_costs_time`**: the runs of the two engines, both ways.
-/

namespace MicroEngine

namespace Microword

/-- The second microword is the first one, or the first one stretched if it never branches. -/
def Stretches (v w : Microword) : Prop :=
  w = v ∨ v.neverBranches = true ∧ w = v.setFlag .vcy

namespace Stretches

variable {v w : Microword} (h : v.Stretches w)

include h

theorem has {f : Flag} (hf : f ≠ .vcy) : w.has f = v.has f := by
  obtain rfl | ⟨-, rfl⟩ := h
  · rfl
  · rw [has_setFlag, beq_false_of_ne hf.symm, Bool.or_false]

theorem field (f : Field) : w.field f = v.field f := by
  obtain rfl | ⟨-, rfl⟩ := h
  · rfl
  · exact field_setFlag v .vcy f

theorem sameData : v.SameData w := ⟨fun _ hf _ _ => h.has hf, fun f _ _ _ => h.field f⟩

theorem jump_eq (s : Registers) (x : Word) :
    s.jump w.sequence w.target x = s.jump v.sequence v.target x := by
  unfold Microword.sequence Microword.target
  rw [h.field, h.field]

/-- Either the flag is as it was, or it has been added to a microword that never branches. -/
theorem vcy_cases :
    w.has .vcy = v.has .vcy ∨
      v.neverBranches = true ∧ v.has .vcy = false ∧ w.has .vcy = true := by
  obtain rfl | ⟨hb, rfl⟩ := h
  · exact .inl rfl
  · have hset : (v.setFlag .vcy).has .vcy = true := by rw [has_setFlag, beq_self_eq_true, Bool.or_true]
    cases hv : v.has .vcy with
    | true => exact .inl hset
    | false => exact .inr ⟨hb, rfl, hset⟩

end Stretches

end Microword

/-! ## Reports -/

namespace CycleReport

/-- The cycles that stand for a cycle of the original engine: one, or two if it is the first of a
microword that has been stretched. Of the two, only the second commits, and it starts where the bank
select of the first leads. -/
inductive SlowedTo (r : CycleReport) : List CycleReport → Prop
  | once {w : Microword} (hw : r.microword.Stretches w)
    (hv : r.stage = .normal → w.has .vcy = r.microword.has .vcy) :
    SlowedTo r [{ r with microword := w }]
  | twice {w : Microword} (hw : r.microword.Stretches w) (hn : r.stage = .normal)
    (hv : r.microword.has .vcy = false) (hv' : w.has .vcy = true) :
    SlowedTo r [{ r with microword := w, committed := false, loads := [] },
      { r with stage := .branchPending, address := r.origin, microword := w }]

/-- The report is of a microword that starts and that has been stretched in the cycles that stand for
it. -/
def isStretched (r : CycleReport) (group : List CycleReport) : Bool :=
  r.stage == .normal && !r.microword.has .vcy && group.any (·.microword.has .vcy)

variable {r : CycleReport} {group : List CycleReport}

theorem SlowedTo.loads (h : r.SlowedTo group) : group.flatMap CycleReport.loads = r.loads := by
  cases h <;> simp

theorem SlowedTo.length (h : r.SlowedTo group) :
    group.length = 1 + (if r.isStretched group then 1 else 0) := by
  unfold isStretched
  cases h with
  | once hw hv =>
    by_cases hn : r.stage = .normal
    · simp [hv hn]
    · simp [hn]
  | twice hw hn hv hv' => simp [hn, hv, hv']

end CycleReport

namespace Engine

/-- The second engine is the first with some microwords stretched. -/
def Slowed (e e' : Engine) : Prop := e.AgreeUpTo Microword.Stretches e'

/-! ## One cycle -/

/-- The first cycle of a stretched microword that does not branch selects the bank and holds
everything else. -/
theorem step_stretched {e : Engine} {f : SpecialFunction} {c : BranchCondition}
    (hf : SpecialFunction.ofCode? e.registers.latch.special = some f)
    (hc : BranchCondition.ofCode? e.registers.latch.condition = some c)
    (hn : e.registers.stage = .normal) (hb : (e.registers.signalsOf f c).branch = false)
    (hv : e.registers.latch.has .vcy = true) :
    e.step = .ok (report e.registers (e.registers.signalsOf f c),
      ⟨e.registers.stretched f, e.store, e.cycles + 1⟩) := by
  cases hd : e.registers.latch.has .dgo <;> exact step_eq_after hf hc hn hb hd hv

/-- The second cycle has the same values and does the rest. -/
theorem step_stretched_again {e : Engine} {f : SpecialFunction} {c : BranchCondition}
    (hf : SpecialFunction.ofCode? e.registers.latch.special = some f)
    (hc : BranchCondition.ofCode? e.registers.latch.condition = some c)
    (hb : (e.registers.signalsOf f c).branch = false) (hv : e.registers.latch.has .vcy = true) :
    step ⟨e.registers.stretched f, e.store, e.cycles + 1⟩ =
      .ok (report (e.registers.stretched f) (e.registers.signalsOf f c),
        e.resume 2 (e.registers.load (e.registers.xBus f) e.registers.yBus)
          (e.registers.withEffect f.effect).address
          (e.registers.withEffect f.effect).advance) := by
  have hsig := e.registers.signalsOf_stretched f c
  have hstep := step_eq_after (e := ⟨e.registers.stretched f, e.store, e.cycles + 1⟩) hf hc rfl
    ((congrArg Signals.branch hsig).trans hb) rfl hv
  have hlast : after ⟨e.registers.stretched f, e.store, e.cycles + 1⟩ .branchPending
      ⟨false, e.registers.latch.has .dgo, true⟩ ((e.registers.stretched f).signalsOf f c) = _ :=
    after_last rfl rfl
  have hy : (e.registers.goneTo (e.registers.withEffect f.effect) .branchPending).yBus =
      e.registers.yBus := e.registers.yBus_stretched f
  rw [hy, Registers.withEffect_withEffect] at hlast
  exact hstep.trans (by rw [← hlast, hsig]; rfl)

/-- The second cycle reports the loads that the one cycle would have reported: the bank select moves
the micro address, which no load sees. -/
theorem reportedLoads_stretched {s : Registers} {w : Microword} (h : s.latch.SameData w)
    (f : SpecialFunction) {sig : Signals} (hone : s.commits sig = true)
    (hsecond : ((s.setLatch w).stretched f).commits sig = true) :
    ((s.setLatch w).stretched f).reportedLoads (((s.setLatch w).stretched f).loaded sig) =
      s.reportedLoads (s.loaded sig) := by
  rw [Registers.loaded_eq_placed, Registers.loaded_eq_placed]
  unfold Registers.dataPath
  rw [if_pos hone, if_pos hsecond, Registers.stretched, Registers.load_goneTo,
    Registers.load_setLatch h]
  exact Registers.reportedLoads_setLatch h _

/-- The reports of both cycles, from the report of the one cycle that they stand for. -/
theorem reports_stretched {s : Registers} {w : Microword} (h : s.latch.SameData w)
    (hn : s.stage = .normal) (hv : s.latch.has .vcy = false) (hv' : w.has .vcy = true)
    {f : SpecialFunction} {c : BranchCondition} (hb : (s.signalsOf f c).branch = false) :
    let r := report s (s.signalsOf f c)
    report (s.setLatch w) (s.signalsOf f c) =
      { r with microword := w, committed := false, loads := [] } ∧
    report ((s.setLatch w).stretched f) (s.signalsOf f c) =
      { r with
        stage := .branchPending
        address := (s.withEffect f.effect).address
        microword := w } := by
  intro r
  have hone : s.commits (s.signalsOf f c) = true := by
    change s.stage.commits ⟨_, s.latch.has .dgo, s.latch.has .vcy⟩ = true
    rw [hn, hb, hv]
    cases s.latch.has .dgo <;> rfl
  have hfirst : (s.setLatch w).commits (s.signalsOf f c) = false := by
    change s.stage.commits ⟨_, w.has .dgo, w.has .vcy⟩ = false
    rw [hn, hv']
    rfl
  have hsecond : ((s.setLatch w).stretched f).commits (s.signalsOf f c) = true := by
    change Stage.branchPending.commits ⟨_, w.has .dgo, w.has .vcy⟩ = true
    rw [hb, hv']
    rfl
  have hselected := congrArg Registers.address (Registers.withEffect_setLatch s w f.effect)
  have haddress : ((s.setLatch w).stretched f).address = (s.withEffect f.effect).address := hselected
  have hloads := reportedLoads_stretched h f hone hsecond
  constructor
  · unfold r report
    rw [hfirst]
    rfl
  · unfold r report
    rw [hone, hsecond, if_pos rfl, if_pos rfl, hloads, ← haddress]
    rfl

section Step

variable {e e' : Engine} (h : e.Slowed e')

include h

/-- A cycle with a microword that has not been stretched, or that is not at its first cycle. -/
theorem step_once {sig : Signals} (hs : e.registers.signals = .ok sig)
    (hv : e.registers.stage = .normal →
      e'.registers.latch.has .vcy = e.registers.latch.has .vcy) :
    e'.step = .ok ({ report e.registers sig with microword := e'.registers.latch }, e'.next sig) ∧
      (e.next sig).Slowed (e'.next sig) := by
  have hend : e.registers.stage.EndsAlike (e.registers.control sig.branch)
      ⟨sig.branch, e'.registers.latch.has .dgo, e'.registers.latch.has .vcy⟩ := by
    rw [h.latch.has (by decide)]
    obtain hsame | ⟨hb, hold, hnew⟩ := h.latch.vcy_cases
    · rw [hsame]
      exact ⟨rfl, rfl⟩
    · have hn : e.registers.stage ≠ .normal := by
        intro hn
        have hsame := hv hn
        rw [hold, hnew] at hsame
        cases hsame
      rw [Registers.branch_of_neverBranches hb hs]
      exact Stage.endsAlike_of_not_normal hn _ _ _
  exact h.step h.latch.sameData hs hend fun _ t => h.latch.jump_eq t sig.x

/-- The engines after a microword that takes one cycle and, stretched, two. -/
theorem Slowed.resume (f : SpecialFunction) :
    (e.resume 1 (e.registers.load (e.registers.xBus f) e.registers.yBus)
      (e.registers.withEffect f.effect).address (e.registers.withEffect f.effect).advance).Slowed
    (e'.resume 2 (e'.registers.load (e'.registers.xBus f) e'.registers.yBus)
      (e'.registers.withEffect f.effect).address (e'.registers.withEffect f.effect).advance) := by
  have hdata := h.latch.sameData
  rw [h.registers, Registers.xBus_setLatch hdata, Registers.yBus_setLatch hdata,
    Registers.load_setLatch hdata, Registers.withEffect_setLatch]
  exact ⟨rfl, h.store _, h.store⟩

/-- The two cycles of a microword that has been stretched. -/
theorem step_twice {f : SpecialFunction} {c : BranchCondition}
    (hf : SpecialFunction.ofCode? e.registers.latch.special = some f)
    (hc : BranchCondition.ofCode? e.registers.latch.condition = some c)
    (hn : e.registers.stage = .normal) (hb : (e.registers.signalsOf f c).branch = false)
    (hv : e.registers.latch.has .vcy = false) (hv' : e'.registers.latch.has .vcy = true) :
    let r := report e.registers (e.registers.signalsOf f c)
    let w := e'.registers.latch
    ∃ f', e'.run 2 = .ok ([{ r with microword := w, committed := false, loads := [] },
        { r with stage := .branchPending, address := r.origin, microword := w }], f') ∧
      (e.next (e.registers.signalsOf f c)).Slowed f' := by
  intro r w
  have hdata := h.latch.sameData
  have hf' : SpecialFunction.ofCode? w.special = some f := by rw [hdata.special, hf]
  have hc' : BranchCondition.ofCode? w.condition = some c := by rw [hdata.condition, hc]
  have hsig : e'.registers.signalsOf f c = e.registers.signalsOf f c := by
    rw [h.registers]
    exact Registers.signalsOf_setLatch hdata f c
  have hn' : e'.registers.stage = .normal := by rw [h.registers]; exact hn
  have hb' := (congrArg Signals.branch hsig).trans hb
  have hfirst := step_stretched hf' hc' hn' hb' hv'
  have hsecond := step_stretched_again hf' hc' hb' hv'
  obtain ⟨hreport, hreport'⟩ := reports_stretched hdata hn hv hv' hb
  have horigin : r.origin = (e.registers.withEffect f.effect).address :=
    origin_report (Registers.signals_eq_ok_iff.mpr ⟨f, c, hf, hc, rfl⟩)
  have hnext : e.next (e.registers.signalsOf f c) =
      e.resume 1 (e.registers.load (e.registers.xBus f) e.registers.yBus)
        (e.registers.withEffect f.effect).address (e.registers.withEffect f.effect).advance := by
    have hstep := step_of_codes hf hc
    cases hd : e.registers.latch.has .dgo <;>
    · rw [step_eq_after hf hc hn hb hd hv] at hstep
      exact (Prod.mk.inj (Except.ok.inj hstep)).2.symm
  rw [hnext]
  refine ⟨_, run_succ_eq_ok_iff.mpr ⟨_, _, _, hfirst,
    run_succ_eq_ok_iff.mpr ⟨_, _, _, hsecond, rfl, rfl⟩, ?_⟩, h.resume f⟩
  rw [hsig, horigin, ← hreport, ← hreport', ← h.registers]

/-- **A cycle of the original engine** becomes one cycle or two of the one with stretched
microwords. -/
theorem step_slowed {f : Engine} {r : CycleReport} (hs : e.step = .ok (r, f)) :
    ∃ group f', e'.run group.length = .ok (group, f') ∧ r.SlowedTo group ∧ f.Slowed f' := by
  obtain ⟨sig, hsig, rfl, rfl⟩ := step_eq_ok_iff.mp hs
  -- The added flag tells only at the first cycle of a microword.
  by_cases hv : e.registers.stage = .normal →
      e'.registers.latch.has .vcy = e.registers.latch.has .vcy
  · obtain ⟨hstep, hnext⟩ := step_once h hsig hv
    exact ⟨[_], _, run_succ_eq_ok_iff.mpr ⟨_, _, _, hstep, rfl, rfl⟩, .once h.latch hv, hnext⟩
  · obtain ⟨hn, hadded⟩ := Classical.not_imp.mp hv
    obtain ⟨hb, hold, hnew⟩ := h.latch.vcy_cases.resolve_left hadded
    have hbranch := Registers.branch_of_neverBranches hb hsig
    obtain ⟨special, c, hf, hc, rfl⟩ := Registers.signals_eq_ok_iff.mp hsig
    obtain ⟨f', hrun, hf'⟩ := step_twice h hf hc hn hbranch hold hnew
    exact ⟨[_, _], f', hrun, .twice h.latch hn hold hnew, hf'⟩

end Step

/-! ## Runs -/

/-- A run of the engine `e` to `f` with the reports `rs`, and the run of `e'` to `f'` that stands for
it, with a group of reports for each report of the first. -/
structure Stutters (e e' : Engine) (rs : List CycleReport) (groups : List (List CycleReport))
    (f f' : Engine) : Prop where
  run : e.run rs.length = .ok (rs, f)
  slowedRun : e'.run groups.flatten.length = .ok (groups.flatten, f')
  reports : List.Forall₂ CycleReport.SlowedTo rs groups
  /-- The states after the runs agree but for the stretched microwords. -/
  slowed : f.Slowed f'
  /-- The same registers are loaded with the same values, in the same order. -/
  loads : groups.flatten.flatMap CycleReport.loads = rs.flatMap CycleReport.loads
  /-- There is one more cycle for each start of a stretched microword. -/
  cycles : f'.cycles + e.cycles =
    e'.cycles + f.cycles + (rs.zip groups).countP fun p => p.1.isStretched p.2
  /-- The next cycle fails in both runs or in neither. -/
  fails : ∀ cause, f'.step = .error cause ↔ f.step = .error cause

variable {e e' : Engine}

theorem Stutters.nil (h : e.Slowed e') : e.Stutters e' [] [] e e' :=
  ⟨rfl, rfl, .nil, h, rfl, rfl, fun _ => step_eq_error_congr h.latch.sameData⟩

/-- A cycle and the cycles that stand for it, before two runs. -/
theorem Stutters.cons {e₁ e₁' f f' : Engine} {r : CycleReport} {group : List CycleReport}
    {rs : List CycleReport} {groups : List (List CycleReport)} (hs : e.step = .ok (r, e₁))
    (hg : e'.run group.length = .ok (group, e₁')) (hr : r.SlowedTo group)
    (h : e₁.Stutters e₁' rs groups f f') : e.Stutters e' (r :: rs) (group :: groups) f f' where
  run := run_succ_eq_ok_iff.mpr ⟨r, e₁, rs, hs, h.run, rfl⟩
  slowedRun := by
    rw [List.flatten_cons, List.length_append]
    exact run_add_eq_ok_iff.mpr ⟨e₁', group, groups.flatten, hg, h.slowedRun, rfl⟩
  reports := .cons hr h.reports
  slowed := h.slowed
  loads := by
    rw [List.flatten_cons, List.flatMap_append, List.flatMap_cons, hr.loads, h.loads]
  cycles := by
    have hcycles := h.cycles
    have hgroup := cycles_of_run hg
    have hstep := cycles_of_run (n := 1) (run_succ_eq_ok_iff.mpr ⟨r, e₁, [], hs, rfl, rfl⟩)
    rw [hr.length] at hgroup
    rw [List.zip_cons_cons, List.countP_cons]
    dsimp only
    omega
  fails := h.fails

/-- Each run of the original engine has one that stands for it. -/
theorem exists_slowed_run {n : Nat} {f : Engine} {rs : List CycleReport} (h : e.Slowed e')
    (hr : e.run n = .ok (rs, f)) : ∃ groups f', e.Stutters e' rs groups f f' := by
  induction n generalizing e e' rs with
  | zero =>
    cases hr
    exact ⟨[], e', .nil h⟩
  | succ n ih =>
    obtain ⟨r, e₁, rs', hs, hr', rfl⟩ := run_succ_eq_ok_iff.mp hr
    obtain ⟨group, e₁', hg, hgroup, h₁⟩ := step_slowed h hs
    obtain ⟨groups, f', hrest⟩ := ih h₁ hr'
    exact ⟨group :: groups, f', .cons hs hg hgroup hrest⟩

/-- Each run of the engine with stretched microwords stands for one of the original engine, or does so
a cycle later, if it ends between the two cycles of a stretched microword. -/
theorem exists_original_run {n : Nat} {f' : Engine} {rs' : List CycleReport} (h : e.Slowed e')
    (hr : e'.run n = .ok (rs', f')) : ∃ rs groups f g', e.Stutters e' rs groups f g' ∧
      (groups.flatten = rs' ∧ g' = f' ∨
        ∃ last, groups.flatten = rs' ++ [last] ∧ f'.step = .ok (last, g')) := by
  -- A group takes one or two cycles off the run, so the induction is a strong one.
  induction n using Nat.strongRecOn generalizing e e' rs' with
  | ind n ih =>
  cases n with
  | zero =>
    cases hr
    exact ⟨[], [], e, _, .nil h, .inl ⟨rfl, rfl⟩⟩
  | succ n =>
    cases hs : e.step with
    | error cause =>
      obtain ⟨_, _, _, hs', -⟩ := run_succ_eq_ok_iff.mp hr
      rw [(step_eq_error_congr h.latch.sameData).mpr hs] at hs'
      cases hs'
    | ok p =>
      obtain ⟨r, e₁⟩ := p
      obtain ⟨group, g₁, hg, hgroup, h₁⟩ := step_slowed h hs
      have hpos : 0 < group.length := by cases hgroup <;> exact Nat.succ_pos _
      by_cases hle : group.length ≤ n + 1
      · -- The run goes on after the group.
        obtain ⟨m, hm⟩ := Nat.exists_eq_add_of_le hle
        rw [hm] at hr
        obtain ⟨_, _, rest, hg', hrest, rfl⟩ := run_add_eq_ok_iff.mp hr
        rw [hg] at hg'
        cases hg'
        obtain ⟨rs, groups, f, g', hst, hend⟩ := ih m (by omega) h₁ hrest
        refine ⟨r :: rs, group :: groups, f, g', .cons hs hg hgroup hst, ?_⟩
        obtain ⟨rfl, rfl⟩ | ⟨last, hflat, hlast⟩ := hend
        · exact .inl ⟨rfl, rfl⟩
        · exact .inr ⟨last, by rw [List.flatten_cons, hflat, List.append_assoc], hlast⟩
      · -- The run ends between the two cycles of the group.
        have hstands := Stutters.cons hs hg hgroup (.nil h₁)
        cases hgroup with
        | once => exact absurd (Nat.succ_le_succ (Nat.zero_le n)) hle
        | twice =>
          obtain rfl : n = 0 := by
            rw [List.length_cons, List.length_singleton] at hle
            omega
          obtain ⟨_, e₁', _, hfirst, hrest, heq⟩ := run_succ_eq_ok_iff.mp hg
          obtain ⟨_, _, _, hsecond, hnil, heq'⟩ := run_succ_eq_ok_iff.mp hrest
          obtain ⟨_, _, _, hfirst', hnil', rfl⟩ := run_succ_eq_ok_iff.mp hr
          rw [hfirst] at hfirst'
          cases hnil
          cases heq'
          cases heq
          cases hfirst'
          cases hnil'
          exact ⟨[r], [_], e₁, g₁, hstands, .inr ⟨_, rfl, hsecond⟩⟩

/-- **Stretching microwords that never branch costs time only.** Each run of the original engine has
one that stands for it, each run of the other engine stands for one of the original engine or is
about to, and if one of the engines fails in the end then so does the other, for the same reason. -/
theorem stretching_costs_time (h : e.Slowed e') :
    (∀ n rs f, e.run n = .ok (rs, f) → ∃ groups f', e.Stutters e' rs groups f f') ∧
    (∀ n rs' f', e'.run n = .ok (rs', f') → ∃ rs groups f g', e.Stutters e' rs groups f g' ∧
      (groups.flatten = rs' ∧ g' = f' ∨
        ∃ last, groups.flatten = rs' ++ [last] ∧ f'.step = .ok (last, g'))) ∧
    ∀ cause, (∃ n, e.run n = .error cause) ↔ ∃ n, e'.run n = .error cause := by
  refine ⟨fun n rs f => exists_slowed_run h, fun n rs' f' => exists_original_run h, fun cause => ?_⟩
  constructor
  · rintro ⟨n, hn⟩
    obtain ⟨k, rs, f, -, hr, hf⟩ := run_eq_error_iff.mp hn
    obtain ⟨groups, f', hst⟩ := exists_slowed_run h hr
    exact ⟨groups.flatten.length + 1, run_eq_error_iff.mpr
      ⟨_, _, f', Nat.lt_succ_self _, hst.slowedRun, (hst.fails cause).mpr hf⟩⟩
  · rintro ⟨n, hn⟩
    obtain ⟨k, rs', f', -, hr, hf⟩ := run_eq_error_iff.mp hn
    obtain ⟨rs, groups, f, g', hst, ⟨-, rfl⟩ | ⟨last, -, hlast⟩⟩ := exists_original_run h hr
    · exact ⟨rs.length + 1, run_eq_error_iff.mpr
        ⟨_, _, f, Nat.lt_succ_self _, hst.run, (hst.fails cause).mp hf⟩⟩
    · rw [hf] at hlast
      cases hlast

/-- A microword that loads M and the second one after it are stretched. Three cycles of the original
engine leave the load and the address that their counterparts leave. -/
theorem stretching_costs_time_load :
    let v := Microword.ofBits [41, 43, 72]
    let e : Engine := ⟨{ Registers.zero with latch := v }, .empty, 0⟩
    let e' : Engine := ⟨{ Registers.zero with latch := v.setFlag .vcy },
      ControlStore.empty.write 1 (Microword.nop.setFlag .vcy), 0⟩
    ∃ rs groups f f', e.Stutters e' rs groups f f' ∧ rs.length = 3 ∧
      f'.registers.m = 1 ∧ f'.registers.address = 3 := by
  intro v e e'
  have hstore (a : Address) : (e.store.read a).Stretches (e'.store.read a) := by
    rw [ControlStore.read_write, ControlStore.read_empty]
    split
    · exact .inr ⟨by decide, rfl⟩
    · exact .inl rfl
  have h : e.Slowed e' := ⟨rfl, .inr ⟨by decide, rfl⟩, hstore⟩
  have hrun : (e.run 3).toOption.map (fun p => (p.2.registers.m, p.2.registers.address)) =
      some (1, 3) := by
    decide +kernel
  cases hr : e.run 3 with
  | error cause =>
    rw [hr] at hrun
    cases hrun
  | ok p =>
    obtain ⟨rs, f⟩ := p
    obtain ⟨groups, f', hst⟩ := (stretching_costs_time h).1 3 rs f hr
    rw [hr] at hrun
    simp only [Except.toOption, Option.map_some, Option.some.injEq, Prod.mk.injEq] at hrun
    refine ⟨rs, groups, f, f', hst, length_of_run hr, ?_⟩
    rw [hst.slowed.registers]
    exact hrun

end Engine

end MicroEngine
