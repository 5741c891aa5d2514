import MicroEngine.Proofs.Configuration.Lookup
import MicroEngine.Proofs.Json.RoundTrip
/-!
# Writing a configuration and reading it back

* `UnitSettings.ofJson?_toJson`, `Configuration.ofJson?_toJson`: the JSON values are read back.
* **`ofJsonText_toJsonText`**: the text of a configuration is read back as the configuration, if no
  unit is listed twice.
-/

namespace MicroEngine

open Json

theorem UnitId.ofJson?_text (u : UnitId) : UnitId.ofJson? (.text u.name) = some u :=
  choice?_text (by decide) u.mem_all

theorem Json.stepCount?_stepCount (n : UInt64) : stepCount? (stepCount n) = some n := by
  unfold stepCount? stepCount
  rw [natBelow?_nat n.toNat_lt_size]
  exact congrArg some UInt64.ofNat_toNat

namespace UnitSettings

/-- **The settings of a unit are read back** from their JSON value. -/
theorem ofJson?_toJson (e : UnitSettings) : ofJson? e.toJson = some e := by
  have hnames : ["unit", "enabled", "image"].Nodup := by decide
  have hfields : fields? ["unit", "enabled", "image"] e.toJson =
      some [some (.text e.unit.name), some ((e.enabled.map Json.bool).getD .null),
        some ((e.image.map Json.text).getD .null)] :=
    fields?_record [("unit", .text e.unit.name), ("enabled", (e.enabled.map Json.bool).getD .null),
      ("image", (e.image.map Json.text).getD .null)] hnames
  have henabled : optional? bool? (some ((e.enabled.map Json.bool).getD .null)) = some e.enabled :=
    nullable?_getD Json.bool bool? rfl (fun _ => rfl) e.enabled
  have himage : optional? text? (some ((e.image.map Json.text).getD .null)) = some e.image :=
    nullable?_getD Json.text text? rfl (fun _ => rfl) e.image
  unfold ofJson?
  rw [hfields]
  dsimp only
  rw [UnitId.ofJson?_text, henabled, himage]
  rfl

end UnitSettings

namespace Configuration

/-- **A configuration is read back** from its JSON value. -/
theorem ofJson?_toJson (c : Configuration) : ofJson? c.toJson = some c := by
  have hnames : fieldNames.Nodup := by decide
  have hfields : fields? fieldNames c.toJson = some [some (.bool c.preloadDiagnostic),
      some ((c.stepLimit.map stepCount).getD .null),
      some (.array (c.units.map UnitSettings.toJson))] :=
    fields?_record [("preload_diagnostic", _), ("step_limit", _), ("units", _)] hnames
  have hlimit : nullable? stepCount? ((c.stepLimit.map stepCount).getD .null) = some c.stepLimit :=
    nullable?_getD stepCount stepCount? rfl stepCount?_stepCount c.stepLimit
  have hunits : list? UnitSettings.ofJson? (.array (c.units.map UnitSettings.toJson)) =
      some c.units :=
    list?_array UnitSettings.toJson UnitSettings.ofJson? UnitSettings.ofJson?_toJson c.units
  unfold ofJson?
  rw [hfields]
  dsimp only [fieldOr?, bool?]
  rw [hlimit, hunits]
  rfl

/-- **The text of a configuration** is read back as the configuration, if no unit is listed twice.
Otherwise the error names the unit of the first entry that repeats an earlier one. -/
theorem ofJsonText_toJsonText (c : Configuration) :
    (c.Distinct → ofJsonText c.toJsonText = .ok c) ∧
    (¬ c.Distinct → ∃ before e after, c.units = before ++ e :: after ∧
      (before.map UnitSettings.unit).Nodup ∧ e.unit ∈ before.map UnitSettings.unit ∧
      ofJsonText c.toJsonText = .error (.duplicateUnit e.unit)) := by
  have hvalidated : ofJsonText c.toJsonText = c.validated := by
    unfold ofJsonText toJsonText
    rw [parse?_pretty, Option.bind_some, ofJson?_toJson]
  rw [hvalidated]
  exact validated_eq c

/-- The largest limit and a path with quotes, backslashes, control characters and other letters; and
two units listed twice, the first repetition of which is that of the memory scheduler. -/
theorem ofJsonText_toJsonText_paths :
    ofJsonText (toJsonText ⟨false, some 18446744073709551615,
        [⟨.amc, some true, some "a \"b\" \\ c\n\x01 é 字"⟩, ⟨.msch, none, none⟩]⟩) =
      .ok ⟨false, some 18446744073709551615,
        [⟨.amc, some true, some "a \"b\" \\ c\n\x01 é 字"⟩, ⟨.msch, none, none⟩]⟩ ∧
    ofJsonText (toJsonText ⟨true, none,
        [⟨.msch, none, none⟩, ⟨.amc, none, none⟩, ⟨.msch, some false, none⟩, ⟨.amc, none, none⟩]⟩) =
      .error (.duplicateUnit .msch) := by
  constructor
  · exact (ofJsonText_toJsonText _).1 (by decide)
  · obtain ⟨before, e, after, hunits, hnodup, hseen, herror⟩ := (ofJsonText_toJsonText
      ⟨true, none, [⟨.msch, none, none⟩, ⟨.amc, none, none⟩, ⟨.msch, some false, none⟩,
        ⟨.amc, none, none⟩]⟩).2 (by decide)
    rw [herror]
    -- One entry before it is too few for a repetition, and three already hold one.
    match before, hunits with
    | [], _ => simp at hseen
    | [_], h =>
      cases h
      simp at hseen
    | [_, _], h =>
      cases h
      rfl
    | _ :: _ :: _ :: _, h =>
      simp only [List.cons_append, List.cons.injEq] at h
      obtain ⟨rfl, -, rfl, -⟩ := h
      simp at hnodup

end Configuration

end MicroEngine
