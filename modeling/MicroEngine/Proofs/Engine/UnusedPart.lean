import Mathlib.Data.List.Forall2
import MicroEngine.Proofs.Engine.Footprint
import MicroEngine.Proofs.Engine.Run
/-!
# Unused parts of microwords

Two engines whose microwords differ only in parts that make no difference run alike, however long
they run.

* `Microword.Alike`: two microwords agree in every part that makes a difference.
* `Microword.equivalence_alike`: the parts are the same ones in both, so this is an equivalence.
* `Engine.Alike`, `CycleReport.Alike`: engines and reports that agree but for such microwords.
* **`step_alike`**: what one cycle preserves.
* **`unused_parts_inert`**: what a run preserves.
-/

namespace MicroEngine

namespace Microword

/-- The two microwords agree in every flag and field that makes a difference. -/
structure Alike (v w : Microword) : Prop where
  flag : ∀ f, v.ignoresFlag f = false → w.has f = v.has f
  field : ∀ f, v.ignoresField f = false → w.field f = v.field f

namespace Alike

theorem refl (v : Microword) : v.Alike v := ⟨fun _ _ => rfl, fun _ _ => rfl⟩

variable {v w : Microword} (h : v.Alike w)

include h

theorem sameData : v.SameData w := ⟨fun f _ _ => h.flag f, fun f _ _ => h.field f⟩

theorem neverBranches : w.neverBranches = v.neverBranches := by
  unfold Microword.neverBranches
  rw [h.sameData.condition]

theorem sequence (hb : v.neverBranches = false) : w.sequence = v.sequence :=
  congrArg (fun n : UInt32 => JumpMode.ofBits n.toUInt8) (h.field .sequence hb)

/-- The parts that make no difference are the same ones. -/
theorem ignoresFlag (f : Flag) : w.ignoresFlag f = v.ignoresFlag f := by
  have hthy := h.flag .thy rfl
  have htax := h.flag .tax rfl
  have hnever := h.neverBranches
  cases f <;> simp [Microword.ignoresFlag, hthy, htax, hnever]

theorem ignoresField (f : Field) : w.ignoresField f = v.ignoresField f := by
  have hthy := h.flag .thy rfl
  have htax := h.flag .tax rfl
  have htxw := h.flag .txw rfl
  have htyw := h.flag .tyw rfl
  have htcx := h.flag .tcx rfl
  have htcy := h.flag .tcy rfl
  have htspy := h.flag .tspy rfl
  have hlspx := h.flag .lspx rfl
  have hnever := h.neverBranches
  have htarget : w.ignoresField .target = v.ignoresField .target := by
    unfold Microword.ignoresField
    cases hb : v.neverBranches with
    | true => simp [hnever, hb]
    | false => rw [hnever, hb, h.sequence hb]
  cases f with
  | target => exact htarget
  | _ => simp [Microword.ignoresField, hthy, htax, htxw, htyw, htcx, htcy, htspy, hlspx, hnever]

theorem symm : w.Alike v where
  flag f hf := (h.flag f (by rw [← h.ignoresFlag, hf])).symm
  field f hf := (h.field f (by rw [← h.ignoresField, hf])).symm

theorem trans {u : Microword} (h' : w.Alike u) : v.Alike u where
  flag f hf := (h'.flag f (by rw [h.ignoresFlag, hf])).trans (h.flag f hf)
  field f hf := (h'.field f (by rw [h.ignoresField, hf])).trans (h.field f hf)

/-- A jump that can be taken leads to the same place. -/
theorem jump_eq (hb : v.neverBranches = false) (s : Registers) (x : Word) :
    s.jump w.sequence w.target x = s.jump v.sequence v.target x := by
  have htarget (hi : v.ignoresField .target = false) : w.target = v.target :=
    congrArg UInt32.toUInt16 (h.field .target hi)
  have hsequence := h.sequence hb
  unfold Microword.ignoresField at htarget
  rw [hb] at htarget
  rw [hsequence]
  cases hs : v.sequence with
  | jump => rw [htarget (by rw [hs]; rfl)]
  | call => rw [htarget (by rw [hs]; rfl)]
  | ret => rfl
  | indirect => rfl

end Alike

/-- **To agree in every part that makes a difference is an equivalence.** -/
theorem equivalence_alike : Equivalence Alike where
  refl := Alike.refl
  symm := Alike.symm
  trans h h' := h.trans h'

end Microword

/-- The two reports agree but for the microword, and their microwords are alike. -/
structure CycleReport.Alike (r r' : CycleReport) : Prop where
  rest : r' = { r with microword := r'.microword }
  microword : r.microword.Alike r'.microword

namespace Engine

/-- The two engines agree but for their microwords, and those are alike. -/
structure Alike (e e' : Engine) : Prop extends AgreeUpTo Microword.Alike e e' where
  cycles : e'.cycles = e.cycles

/-- **A cycle of engines that are alike**: the reports and the engines after it are alike. -/
theorem step_alike {e e' f : Engine} {r : CycleReport} (h : e.Alike e') (hs : e.step = .ok (r, f)) :
    ∃ r' f', e'.step = .ok (r', f') ∧ r.Alike r' ∧ f.Alike f' := by
  obtain ⟨sig, hsig, rfl, rfl⟩ := step_eq_ok_iff.mp hs
  -- The deferred-jump flag and the target may differ if there is no jump.
  have hend : e.registers.stage.EndsAlike (e.registers.control sig.branch)
      ⟨sig.branch, e'.registers.latch.has .dgo, e'.registers.latch.has .vcy⟩ := by
    rw [h.latch.flag .vcy rfl]
    cases hb : e.registers.latch.neverBranches with
    | true =>
      rw [Registers.branch_of_neverBranches hb hsig]
      exact Stage.endsAlike_of_no_branch _ _ _ _
    | false =>
      rw [h.latch.flag .dgo hb]
      exact ⟨rfl, rfl⟩
  have hjump (hj : (e.registers.plan sig).address = .jump) (t : Registers) :
      t.jump e'.registers.latch.sequence e'.registers.latch.target sig.x =
        t.jump e.registers.latch.sequence e.registers.latch.target sig.x := by
    have hbranch : sig.branch = true := Stage.branch_of_jump hj
    cases hb : e.registers.latch.neverBranches with
    | true =>
      rw [Registers.branch_of_neverBranches hb hsig] at hbranch
      cases hbranch
    | false => exact h.latch.jump_eq hb t sig.x
  obtain ⟨hstep, hnext⟩ := h.step h.latch.sameData hsig hend hjump
  exact ⟨_, _, hstep, ⟨rfl, h.latch⟩, hnext, congrArg (· + 1) h.cycles⟩

/-- Both engines complete so many cycles, with reports that are alike, and are then at `f` and
`f'`, which are alike. -/
def RunAlike (e e' : Engine) (k : Nat) (f f' : Engine) : Prop :=
  ∃ rs rs', e.run k = .ok (rs, f) ∧ e'.run k = .ok (rs', f') ∧
    List.Forall₂ CycleReport.Alike rs rs' ∧ f.Alike f'

theorem RunAlike.zero {e e' : Engine} (h : e.Alike e') : e.RunAlike e' 0 e e' :=
  ⟨[], [], rfl, rfl, .nil, h⟩

theorem RunAlike.succ {e e' e₁ e₁' f f' : Engine} {r r' : CycleReport} {k : Nat}
    (hs : e.step = .ok (r, e₁)) (hs' : e'.step = .ok (r', e₁')) (hr : r.Alike r')
    (h : e₁.RunAlike e₁' k f f') : e.RunAlike e' (k + 1) f f' := by
  obtain ⟨rs, rs', hrun, hrun', hreports, hf⟩ := h
  exact ⟨r :: rs, r' :: rs', run_succ_eq_ok_iff.mpr ⟨r, e₁, rs, hs, hrun, rfl⟩,
    run_succ_eq_ok_iff.mpr ⟨r', e₁', rs', hs', hrun', rfl⟩, .cons hr hreports, hf⟩

/-- **Unused parts of microwords make no difference to a run.** Two engines that are alike both
complete `n` cycles, or both fail after the same number `k` of cycles and for the same reason. After
each cycle on the way they are alike, and so are all their reports. -/
theorem unused_parts_inert {e e' : Engine} (h : e.Alike e') (n : Nat) :
    ∃ k ≤ n, (∀ j ≤ k, ∃ f f', e.RunAlike e' j f f') ∧
      (k < n → ∃ cause, e.run n = .error cause ∧ e'.run n = .error cause ∧
        ∃ f f', e.RunAlike e' k f f' ∧ f.step = .error cause ∧ f'.step = .error cause) := by
  induction n generalizing e e' with
  | zero =>
    refine ⟨0, Nat.le_refl 0, fun j hj => ?_, fun hk => absurd hk (Nat.lt_irrefl 0)⟩
    cases Nat.le_zero.mp hj
    exact ⟨e, e', .zero h⟩
  | succ n ih =>
    cases hs : e.step with
    | error cause =>
      have hs' := (step_eq_error_congr h.latch.sameData).mpr hs
      refine ⟨0, Nat.zero_le _, fun j hj => ?_, fun _ => ⟨cause, ?_, ?_, e, e', .zero h, hs, hs'⟩⟩
      · cases Nat.le_zero.mp hj
        exact ⟨e, e', .zero h⟩
      · exact run_succ_eq_error_iff.mpr (.inl hs)
      · exact run_succ_eq_error_iff.mpr (.inl hs')
    | ok p =>
      obtain ⟨r, e₁⟩ := p
      obtain ⟨r', e₁', hs', hr, h₁⟩ := step_alike h hs
      obtain ⟨k, hk, hpre, hend⟩ := ih h₁
      refine ⟨k + 1, Nat.succ_le_succ hk, fun j hj => ?_, fun hlt => ?_⟩
      · cases j with
        | zero => exact ⟨e, e', .zero h⟩
        | succ j =>
          obtain ⟨f, f', hf⟩ := hpre j (Nat.le_of_succ_le_succ hj)
          exact ⟨f, f', .succ hs hs' hr hf⟩
      · obtain ⟨cause, hfail, hfail', f, f', hf, hends⟩ := hend (Nat.lt_of_succ_lt_succ hlt)
        exact ⟨cause, run_succ_eq_error_iff.mpr (.inr ⟨r, e₁, hs, hfail⟩),
          run_succ_eq_error_iff.mpr (.inr ⟨r', e₁', hs', hfail'⟩), f, f', .succ hs hs' hr hf, hends⟩

/-- Setting every unused field of a microword that loads M, and of the one that is fetched after it,
leaves the load as it is. -/
theorem unused_parts_inert_load :
    let e : Engine := ⟨{ Registers.zero with latch := .ofBits [41, 43, 72] }, .empty, 0⟩
    let w := Microword.ofBits [6, 8, 41, 42, 43, 50, 51, 66, 69, 72, 82, 87, 88, 89]
    let next := Microword.ofBits [7, 17, 41, 42, 50, 56, 68, 71, 85, 87, 88, 89]
    let e' : Engine := ⟨{ Registers.zero with latch := w }, ControlStore.empty.write 0 next, 0⟩
    ∃ f f', e.RunAlike e' 2 f f' ∧ f'.registers.m = 1 ∧ f'.registers.address = 2 := by
  intro e w next e'
  have hlatch : e.registers.latch.Alike e'.registers.latch :=
    ⟨fun f => by cases f <;> decide, fun f => by cases f <;> decide⟩
  have hfetched : Microword.nop.Alike next :=
    ⟨fun f => by cases f <;> decide, fun f => by cases f <;> decide⟩
  have hstore (a : Address) : (e.store.read a).Alike (e'.store.read a) := by
    rw [ControlStore.read_write, ControlStore.read_empty]
    split
    · exact hfetched
    · exact .refl _
  have hrun : (e.run 2).toOption.map (fun p => (p.2.registers.m, p.2.registers.address)) =
      some (1, 2) := by
    decide +kernel
  have h : e.Alike e' := ⟨⟨rfl, hlatch, hstore⟩, rfl⟩
  obtain ⟨k, hk, halike, hfails⟩ := unused_parts_inert h 2
  obtain rfl | hlt := Nat.eq_or_lt_of_le hk
  · obtain ⟨f, f', hf⟩ := halike 2 (Nat.le_refl 2)
    obtain ⟨rs, rs', hok, -, -, hends⟩ := id hf
    rw [hok] at hrun
    simp only [Except.toOption, Option.map_some, Option.some.injEq, Prod.mk.injEq] at hrun
    refine ⟨f, f', hf, ?_⟩
    rw [hends.registers]
    exact hrun
  · obtain ⟨cause, hfail, -⟩ := hfails hlt
    rw [hfail] at hrun
    cases hrun

end Engine

end MicroEngine
