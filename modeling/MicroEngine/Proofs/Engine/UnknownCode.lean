import MicroEngine.Microword.Disassembly
import MicroEngine.Proofs.Engine.Invariant
import MicroEngine.Proofs.Machine.Iteration
import MicroEngine.Proofs.Text.Lines
/-!
# Microwords with unknown codes

The decoders of the two coded fields and the tables of their listing texts know the same codes. So a
microword that is annotated without a question mark is one that every engine executes.

* `isSome_describe?`: the decoder of a field and the table of its texts agree.
* `Microword.mark_mem_annotate_iff`: which annotations have a question mark.
* **`step_rejects_unknown_codes`**: which microcycles fail, with which error, and what they leave.
-/

namespace MicroEngine

/-! ## Decoders and texts -/

theorem BranchCondition.isSome_describe? (code : UInt8) :
    (describe? code).isSome = (ofCode? code).isSome := by
  obtain ⟨⟨n⟩⟩ := code
  revert n
  decide +kernel

theorem SpecialFunction.isSome_describe? (code : UInt8) :
    (describe? code).isSome = (ofCode? code).isSome := by
  obtain ⟨⟨n⟩⟩ := code
  revert n
  decide +kernel

/-- No text has the mark of an unknown code in it. -/
theorem BranchCondition.mark_not_mem_describe? (code : UInt8) :
    ∀ text ∈ describe? code, '?' ∉ text.toList := by
  obtain ⟨⟨n⟩⟩ := code
  revert n
  decide +kernel

theorem SpecialFunction.mark_not_mem_describe? (code : UInt8) :
    ∀ text ∈ describe? code, '?' ∉ text.toList := by
  obtain ⟨⟨n⟩⟩ := code
  revert n
  decide +kernel

theorem BoxFunction.mark_not_mem_describe (f : BoxFunction) :
    '?' ∉ (f.describe "M" "Q").toList ∧ '?' ∉ (f.describe "Z" "Q").toList := by
  cases f <;> decide

namespace Microword

/-- The codes of the microword are known by the tables of texts. -/
theorem fault?_eq_none_iff {w : Microword} :
    w.fault? = none ↔ SpecialFunction.describe? w.special ≠ none ∧
      BranchCondition.describe? w.condition ≠ none := by
  have hs := SpecialFunction.isSome_describe? w.special
  have hb := BranchCondition.isSome_describe? w.condition
  rw [← Option.isSome_iff_ne_none, ← Option.isSome_iff_ne_none, hs, hb]
  unfold fault?
  cases SpecialFunction.ofCode? w.special <;> cases BranchCondition.ofCode? w.condition <;> simp

theorem fault?_of_special {w : Microword} (h : SpecialFunction.describe? w.special = none) :
    w.fault? = some (.unimplemented .special w.special) := by
  have hs := SpecialFunction.isSome_describe? w.special
  rw [h, Option.isSome_none, eq_comm, Option.isSome_eq_false_iff, Option.isNone_iff_eq_none] at hs
  unfold fault?
  rw [hs]

theorem fault?_of_condition {w : Microword} (hs : SpecialFunction.describe? w.special ≠ none)
    (hc : BranchCondition.describe? w.condition = none) :
    w.fault? = some (.unimplemented .branch w.condition) := by
  rw [← Option.isSome_iff_ne_none, SpecialFunction.isSome_describe?, Option.isSome_iff_exists] at hs
  obtain ⟨f, hf⟩ := hs
  have hb := BranchCondition.isSome_describe? w.condition
  rw [hc, Option.isSome_none, eq_comm, Option.isSome_eq_false_iff, Option.isNone_iff_eq_none] at hb
  unfold fault?
  rw [hf, hb]

/-- One note of an annotation, if it is shown. -/
theorem mark_mem_note_iff {isShown : Bool} {text : String} :
    (∃ l ∈ (if isShown then [text] else []).map String.toList, '?' ∈ l) ↔
      isShown = true ∧ '?' ∈ text.toList := by
  cases isShown <;> simp

theorem mark_mem_getD_iff {text : Option String} (h : ∀ t ∈ text, '?' ∉ t.toList) :
    '?' ∈ (text.getD unknownText).toList ↔ text = none := by
  cases text with
  | none => decide
  | some t => simpa using h t rfl

/-- **An annotation has a question mark exactly if the microword has a fault.** -/
theorem mark_mem_annotate_iff (w : Microword) : '?' ∈ w.annotate.toList ↔ w.fault? ≠ none := by
  have hbranch := mark_mem_getD_iff (BranchCondition.mark_not_mem_describe? w.condition)
  have hspecial := mark_mem_getD_iff (SpecialFunction.mark_not_mem_describe? w.special)
  have hleft := (BoxFunction.ofCode w.leftBox).mark_not_mem_describe.1
  have hright := (BoxFunction.ofCode w.rightBox).mark_not_mem_describe.2
  -- A code that is left out of the annotation is zero, and zero is known.
  have hzero (text? : UInt8 → Option String) (h0 : text? 0 ≠ none) {code : UInt8}
      (h : text? code = none) : (code != 0) = true := by
    rw [bne_iff_ne]
    rintro rfl
    exact h0 h
  have hif : '?' ∉ "if ".toList := by decide
  have hbl : '?' ∉ "BL = ".toList := by decide
  have hbr : '?' ∉ "BR = ".toList := by decide
  rw [ne_eq, fault?_eq_none_iff]
  unfold annotate
  dsimp only
  rw [String.toList_intercalate, Text.mem_intercalate_iff (by decide)]
  simp only [List.map_append, List.mem_append, or_and_right, exists_or, mark_mem_note_iff]
  simp only [String.toList_append, List.mem_append, hbranch, hspecial, hleft, hright]
  simp only [hif, hbl, hbr, false_or, or_false, and_false]
  rw [and_iff_right_of_imp (hzero BranchCondition.describe? nofun),
    and_iff_right_of_imp (hzero SpecialFunction.describe? nofun), not_and_or, not_not, not_not,
    or_comm]

end Microword

namespace Engine

/-- **An engine rejects exactly the microwords with an unknown code**, whatever its registers hold.
The error names the special function, if that is unknown, and else the branch condition. The engine
stays as it was, alone and in an iteration of a machine. -/
theorem step_rejects_unknown_codes (e : Engine) :
    let w := e.registers.latch
    ((∃ cause, e.step = .error cause) ↔
      SpecialFunction.describe? w.special = none ∨ BranchCondition.describe? w.condition = none) ∧
    (∀ cause, e.step = .error cause →
      (cause = if SpecialFunction.describe? w.special = none then
          .unimplemented .special w.special
        else .unimplemented .branch w.condition) ∧
      e.attempt = e ∧
      ∀ (m : Machine) (u : UnitId), m.engine u = e → m.step.1.engine u = e) ∧
    ('?' ∈ w.annotate.toList ↔ ∃ cause, e.step = .error cause) ∧
    ∀ e' : Engine, e'.registers.latch = w → ∀ cause, e'.step = .error cause ↔ e.step = .error cause := by
  intro w
  have hfails : (∃ cause, e.step = .error cause) ↔ w.fault? ≠ none := by
    simp only [step_eq_error_iff, Option.ne_none_iff_exists', w]
  refine ⟨?_, ?_, ?_, ?_⟩
  · rw [hfails, ne_eq, Microword.fault?_eq_none_iff, not_and_or, not_not, not_not]
  · intro cause h
    refine ⟨?_, ?_, ?_⟩
    · have hw := step_eq_error_iff.mp h
      split
      · next hs =>
        rw [Microword.fault?_of_special hs] at hw
        exact (Option.some.inj hw).symm
      · next hs =>
        have hc : BranchCondition.describe? w.condition = none := by
          by_contra hc
          rw [Microword.fault?_eq_none_iff.mpr ⟨hs, hc⟩] at hw
          cases hw
        rw [Microword.fault?_of_condition hs hc] at hw
        exact (Option.some.inj hw).symm
    · unfold attempt
      rw [h]
    · rintro m u rfl
      exact Machine.engine_of_engine_error h
  · rw [hfails]
    exact w.mark_mem_annotate_iff
  · intro e' hw cause
    rw [step_eq_error_iff, step_eq_error_iff, hw]

/-- With both codes unknown, in the second cycle of a microword, the special function is at fault. -/
theorem step_rejects_both_unknown :
    let w : Microword := ⟨0o7700000000, 0, 0o7700000000⟩
    let e : Engine := ⟨{ Registers.zero with latch := w, stage := .branchPending }, .empty, 5⟩
    e.step = .error (.unimplemented .special 0o77) ∧ e.attempt = e ∧
      (Machine.reference.setEngine .chio e).step.1.engine .chio = e ∧ '?' ∈ w.annotate.toList := by
  intro w e
  have hunknown : SpecialFunction.describe? w.special = none := by decide
  obtain ⟨hfails, herror, hmark, -⟩ := step_rejects_unknown_codes e
  obtain ⟨cause, h⟩ := hfails.mpr (.inl hunknown)
  obtain ⟨hcause, hstay, hmachine⟩ := herror cause h
  have hcode : w.special = 0o77 := by decide
  rw [if_pos hunknown, hcode] at hcause
  rw [hcause] at h
  exact ⟨h, hstay, hmachine _ _ (Machine.engine_setEngine_self _ _ _), hmark.mpr ⟨_, h⟩⟩

end Engine

end MicroEngine
