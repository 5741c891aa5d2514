import Mathlib.Data.List.Induction
import MicroEngine.Proofs.Microword.ListingNumbers
/-!
# Building a microword and reading it

A microword that is built field by field holds what was last given to each field, cut to the field,
and the flags that were named. To give a microword's own fields and flags builds that microword.

* `lastGiven`: the value that settings give to a field.
* **`toNat_field_build`**, **`has_build`**: fields and flags of what is built.
* `build_congr`, `build_swap`: settings in another order.
* `settings`: the fields and flags of a microword, `build_of_perm`.
* **`build_decodes`**: all together.
-/

namespace MicroEngine

namespace BuildStep

/-- The part of a microword that a setting is about. -/
def part : BuildStep → Field ⊕ Flag
  | .field f _ => .inl f
  | .flag g => .inr g

/-- The value that a setting gives to a field, if it is about that field. -/
def valueFor (f : Field) : BuildStep → Option UInt32
  | .field g v => if g = f then some v else none
  | .flag _ => none

theorem part_of_valueFor {s : BuildStep} {f : Field} {v : UInt32} (h : s.valueFor f = some v) :
    s.part = .inl f := by
  cases s with
  | flag g => cases h
  | field g u =>
    by_cases hg : g = f
    · rw [part, hg]
    · rw [valueFor, if_neg hg] at h
      cases h

end BuildStep

/-- The value that the settings give to a field, the last one if there are several and zero if there
is none. -/
def lastGiven (steps : List BuildStep) (f : Field) : UInt32 :=
  (steps.filterMap (BuildStep.valueFor f)).getLastD 0

theorem lastGiven_concat (steps : List BuildStep) (s : BuildStep) (f : Field) :
    lastGiven (steps ++ [s]) f = (s.valueFor f).getD (lastGiven steps f) := by
  unfold lastGiven
  rw [List.filterMap_append, List.filterMap_cons]
  cases s.valueFor f <;> simp [List.getLastD_eq_getLast?]

namespace Microword

/-! ## What is built -/

theorem field_trim (w : Microword) (f : Field) : w.trim.field f = w.field f :=
  field_congr fun n _ _ => w.bit_trim n

theorem has_trim (w : Microword) (g : Flag) : w.trim.has g = w.has g := w.bit_trim g.bit

theorem fits_build (steps : List BuildStep) : (build steps).Fits := component_trim_lt _

/-- **A field of what is built holds the last value that it was given**, cut to its width. -/
theorem toNat_field_build (steps : List BuildStep) (f : Field) :
    ((build steps).field f).toNat = (lastGiven steps f).toNat % 2 ^ f.width := by
  rw [build, field_trim]
  induction steps using List.reverseRecOn with
  | nil => cases f <;> rfl
  | append_singleton steps s ih =>
    rw [List.foldl_append, List.foldl_cons, List.foldl_nil, lastGiven_concat]
    cases s with
    | flag g =>
      change (((steps.foldl BuildStep.apply nop).setFlag g).field f).toNat = _
      rw [field_setFlag, ih]
      rfl
    | field g v =>
      change (((steps.foldl BuildStep.apply nop).setField g v).field f).toNat = _
      by_cases hg : g = f
      · rw [hg, toNat_field_setField, BuildStep.valueFor, if_pos rfl]
        rfl
      · rw [field_setField_of_ne _ hg, ih, BuildStep.valueFor, if_neg hg]
        rfl

/-- **The flags of what is built are those that were named.** -/
theorem has_build (steps : List BuildStep) (g : Flag) :
    (build steps).has g = true ↔ .flag g ∈ steps := by
  rw [build, has_trim]
  induction steps using List.reverseRecOn with
  | nil => simp [has, bit_nop]
  | append_singleton steps s ih =>
    rw [List.foldl_append, List.foldl_cons, List.foldl_nil, List.mem_append, List.mem_singleton]
    cases s with
    | flag h =>
      change ((steps.foldl BuildStep.apply nop).setFlag h).has g = true ↔ _
      rw [has_setFlag, Bool.or_eq_true, ih, beq_iff_eq, BuildStep.flag.injEq, eq_comm (a := h)]
    | field f v =>
      change ((steps.foldl BuildStep.apply nop).setField f v).has g = true ↔ _
      rw [has_setField, ih]
      simp

/-! ## Settings in another order -/

/-- Settings that give the same last values and name the same flags build the same microword. -/
theorem build_congr {steps steps' : List BuildStep}
    (hvalue : ∀ f, lastGiven steps f = lastGiven steps' f)
    (hflag : ∀ g, .flag g ∈ steps ↔ .flag g ∈ steps') : build steps = build steps' := by
  refine ext_parts (fits_build _) (fits_build _) (fun f => ?_) fun g => ?_
  · rw [← UInt32.toNat_inj, toNat_field_build, toNat_field_build, hvalue]
  · rw [Bool.eq_iff_iff, has_build, has_build, hflag]

/-- **Settings of different parts commute.** -/
theorem build_swap {s t : BuildStep} (h : s.part ≠ t.part) (before after : List BuildStep) :
    build (before ++ s :: t :: after) = build (before ++ t :: s :: after) := by
  refine build_congr (fun f => ?_) fun g => ?_
  · unfold lastGiven
    simp only [List.filterMap_append, List.filterMap_cons]
    cases hs : s.valueFor f with
    | none => cases t.valueFor f <;> rfl
    | some u =>
      cases ht : t.valueFor f with
      | none => rfl
      | some v =>
        -- Both would be about this field.
        exact absurd ((BuildStep.part_of_valueFor hs).trans (BuildStep.part_of_valueFor ht).symm) h
  · simp only [List.mem_append, List.mem_cons]
    rw [or_left_comm (a := .flag g = s)]

/-- The fields of a microword and its flags that are set, as settings. -/
def settings (w : Microword) : List BuildStep :=
  Field.all.map (fun f => .field f (w.reading f).toUInt32) ++ w.flags.map .flag

theorem filterMap_settings (w : Microword) (f : Field) :
    w.settings.filterMap (BuildStep.valueFor f) = [w.field f] := by
  have hvalue : (w.reading f).toUInt32 = w.field f := by
    rw [reading_eq]
    exact UInt32.ofNat_toNat
  have hfields : (Field.all.map fun g => BuildStep.field g (w.reading g).toUInt32).filterMap
      (BuildStep.valueFor f) = [(w.reading f).toUInt32] := by
    cases f <;> rfl
  have hflags : (w.flags.map BuildStep.flag).filterMap (BuildStep.valueFor f) = [] := by
    rw [List.filterMap_map, List.filterMap_eq_nil_iff]
    exact fun _ _ => rfl
  rw [settings, List.filterMap_append, hfields, hflags, hvalue, List.append_nil]

theorem flag_mem_settings_iff {w : Microword} {g : Flag} : .flag g ∈ w.settings ↔ w.has g = true := by
  simp [settings, flags, Flag.mem_all]

/-- **A microword is built from its own fields and flags**, in any order. -/
theorem build_of_perm {w : Microword} (h : w.Fits) {steps : List BuildStep}
    (hperm : steps.Perm w.settings) : build steps = w := by
  refine ext_parts (fits_build steps) h (fun f => ?_) fun g => ?_
  · have hgiven : lastGiven steps f = w.field f := by
      have hvalues := (hperm.filterMap (BuildStep.valueFor f)).trans (.of_eq (w.filterMap_settings f))
      rw [lastGiven, List.perm_singleton.mp hvalues]
      rfl
    rw [← UInt32.toNat_inj, toNat_field_build, hgiven, Nat.mod_eq_of_lt (w.toNat_field_lt f)]
  · rw [Bool.eq_iff_iff, has_build, hperm.mem_iff, flag_mem_settings_iff]

/-- **Building and reading are inverse.** What is built from any settings reads, in each field, the
last value that it was given, modulo the width of the field, and has just the flags that were named;
settings of different parts commute. A microword of 30 bits in each component is what its own
readings and flags build, in whatever order they are given. -/
theorem build_decodes :
    (∀ (steps : List BuildStep) (f : Field),
      (build steps).reading f = (lastGiven steps f).toNat % 2 ^ f.width) ∧
    (∀ (steps : List BuildStep) (g : Flag), (build steps).has g = true ↔ .flag g ∈ steps) ∧
    (∀ s t : BuildStep, s.part ≠ t.part → ∀ before after : List BuildStep,
      build (before ++ s :: t :: after) = build (before ++ t :: s :: after)) ∧
    ∀ w : Microword, w.Fits → ∀ steps : List BuildStep, steps.Perm w.settings →
      build steps = w := by
  refine ⟨fun steps f => ?_, has_build, fun _ _ h => build_swap h, fun _ hw _ => build_of_perm hw⟩
  rw [reading_eq, toNat_field_build]

/-- A constant and a target that are too wide for their fields leave the fields around them alone, and
a microword is built from its settings in reverse order. -/
theorem build_decodes_wide :
    let wide : List BuildStep := [.field .target 0o3777, .field .constant 0o37777777777]
    let w : Microword := ⟨0o2021001234, 0o5670200004, 0o10⟩
    (build wide).reading .target = 0o1777 ∧ (build wide).reading .constant = 0o77777777 ∧
      (build wide).reading .sequence = 0 ∧ (build wide).has .ihr = false ∧
      build wide = build [.field .constant 0o37777777777, .field .target 0o3777] ∧
      w.Fits ∧ build w.settings.reverse = w := by
  intro wide w
  have hfits : w.Fits := by
    intro c
    cases c <;> decide
  obtain ⟨hread, hflag, hswap, hword⟩ := build_decodes
  have hihr : (build wide).has .ihr = false := by
    rw [Bool.eq_false_iff, Ne, hflag]
    decide
  exact ⟨(hread wide .target).trans (by decide), (hread wide .constant).trans (by decide),
    (hread wide .sequence).trans (by decide), hihr, hswap _ _ (by decide) [] [], hfits,
    hword w hfits _ (List.reverse_perm _)⟩

end Microword

end MicroEngine
