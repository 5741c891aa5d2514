import MicroEngine.Configuration
import MicroEngine.Proofs.Keys
/-!
# Looking up units in a configuration

If no unit is listed twice, the entry that is found for a unit is the entry of that unit, and the order
of the entries plays no part.

* `Configuration.Distinct`: no unit is listed twice.
* `entry?_eq_some_iff`, `image?_eq_some_iff`, `isEnabled_iff`: what is found.
* `entry?_perm`: the order of the entries.
* `repeated?_eq_none_iff`, `exists_of_repeated?`: which entry repeats an earlier one.
* `Configuration.withoutImage`: a configuration without the image of a unit.
-/

namespace MicroEngine

namespace Configuration

/-- No unit is listed twice. -/
def Distinct (c : Configuration) : Prop := (c.units.map UnitSettings.unit).Nodup

instance (c : Configuration) : Decidable c.Distinct := inferInstanceAs (Decidable (List.Nodup _))

/-! ## Entries -/

variable {c : Configuration} {u : UnitId}

theorem entry?_eq_none_iff : c.entry? u = none ↔ ∀ e ∈ c.units, e.unit ≠ u := by
  unfold entry?
  simp [List.find?_eq_none]

section Distinct

variable (hc : c.Distinct)

include hc

/-- The entry that is found for a unit is the entry of that unit. -/
theorem entry?_eq_some_iff {e : UnitSettings} :
    c.entry? u = some e ↔ e ∈ c.units ∧ e.unit = u :=
  find?_key_eq_some_iff hc

theorem image?_eq_some_iff {path : String} :
    c.image? u = some path ↔ ∃ e ∈ c.units, e.unit = u ∧ e.image = some path := by
  unfold image?
  rw [Option.bind_eq_some_iff]
  constructor
  · rintro ⟨e, he, hpath⟩
    obtain ⟨hmem, hu⟩ := (entry?_eq_some_iff hc).mp he
    exact ⟨e, hmem, hu, hpath⟩
  · rintro ⟨e, hmem, hu, hpath⟩
    exact ⟨e, (entry?_eq_some_iff hc).mpr ⟨hmem, hu⟩, hpath⟩

theorem image?_eq_none_iff :
    c.image? u = none ↔ ∀ e ∈ c.units, e.unit = u → e.image = none := by
  simp only [Option.eq_none_iff_forall_ne_some, ne_eq, image?_eq_some_iff hc]
  constructor
  · exact fun h e he hu path hpath => h path ⟨e, he, hu, hpath⟩
  · rintro h path ⟨e, he, hu, hpath⟩
    exact h e he hu path hpath

/-- **Which units are enabled**: those whose entry says so, and CPU0 and the memory scheduler unless
an entry says otherwise. -/
theorem isEnabled_iff :
    c.isEnabled u = true ↔ (∃ e ∈ c.units, e.unit = u ∧ e.enabled = some true) ∨
      ((u = .cpu0 ∨ u = .msch) ∧ ∀ e ∈ c.units, e.unit = u → e.enabled = none) := by
  have hreference : isReferenceUnit u = true ↔ u = .cpu0 ∨ u = .msch := by
    simp [isReferenceUnit]
  rw [← hreference]
  unfold isEnabled
  cases hentry : c.entry? u with
  | none =>
    have hnone := entry?_eq_none_iff.mp hentry
    constructor
    · exact fun h => .inr ⟨h, fun e he hu => absurd hu (hnone e he)⟩
    · rintro (⟨e, he, hu, -⟩ | ⟨h, -⟩)
      · exact absurd hu (hnone e he)
      · exact h
  | some d =>
    obtain ⟨hd, hdu⟩ := (entry?_eq_some_iff hc).mp hentry
    have honly {e : UnitSettings} (he : e ∈ c.units) (hu : e.unit = u) : e = d :=
      Option.some.inj (((entry?_eq_some_iff hc).mpr ⟨he, hu⟩).symm.trans hentry)
    rw [Option.bind_some]
    cases hsaid : d.enabled with
    | none =>
      constructor
      · exact fun h => .inr ⟨h, fun e he hu => honly he hu ▸ hsaid⟩
      · rintro (⟨e, he, hu, htrue⟩ | ⟨h, -⟩)
        · rw [honly he hu, hsaid] at htrue
          cases htrue
        · exact h
    | some said =>
      constructor
      · rintro rfl
        exact .inl ⟨d, hd, hdu, hsaid⟩
      · rintro (⟨e, he, hu, htrue⟩ | ⟨-, h⟩)
        · rw [honly he hu, hsaid, Option.some.injEq] at htrue
          exact htrue
        · rw [h d hd hdu] at hsaid
          cases hsaid

/-- **The order of the entries plays no part.** -/
theorem entry?_perm {d : Configuration} (h : d.units.Perm c.units) :
    d.entry? = c.entry? := by
  have hd : d.Distinct := ((h.map UnitSettings.unit).nodup_iff).mpr hc
  funext u
  apply Option.ext
  intro e
  rw [entry?_eq_some_iff hd, entry?_eq_some_iff hc, h.mem_iff]

end Distinct

theorem isEnabled_congr {d : Configuration} (h : d.entry? = c.entry?) :
    d.isEnabled = c.isEnabled := by
  funext u
  unfold isEnabled
  rw [h]

theorem image?_congr {d : Configuration} (h : d.entry? = c.entry?) : d.image? = c.image? := by
  funext u
  unfold image?
  rw [h]

/-! ## Repeated units -/

theorem repeated?_eq_none_iff : ∀ {es : List UnitSettings} {seen : List UnitId},
    repeated? seen es = none ↔
      (es.map UnitSettings.unit).Nodup ∧ ∀ e ∈ es, e.unit ∉ seen
  | [], seen => by simp [repeated?]
  | e :: es, seen => by
    unfold repeated?
    by_cases hs : e.unit ∈ seen
    · simp [hs]
    · rw [if_neg hs, repeated?_eq_none_iff]
      simp only [List.map_cons, List.nodup_cons, List.mem_cons, List.mem_map, not_or, not_exists,
        not_and, forall_eq_or_imp]
      constructor
      · rintro ⟨hnodup, hnew⟩
        exact ⟨⟨fun d hd => (hnew d hd).1, hnodup⟩, hs, fun d hd => (hnew d hd).2⟩
      · rintro ⟨⟨hne, hnodup⟩, -, hnew⟩
        exact ⟨hnodup, fun d hd => ⟨hne d hd, hnew d hd⟩⟩

/-- The first entry that repeats a unit: before it no unit is listed twice. -/
theorem exists_of_repeated? : ∀ {es : List UnitSettings} {seen : List UnitId} {u : UnitId},
    repeated? seen es = some u →
    ∃ before e after, es = before ++ e :: after ∧ e.unit = u ∧
      repeated? seen before = none ∧ (u ∈ seen ∨ u ∈ before.map UnitSettings.unit)
  | [], _, _, h => by cases h
  | e :: es, seen, u, h => by
    unfold repeated? at h
    split at h
    · next hs =>
      cases h
      exact ⟨[], e, es, rfl, rfl, rfl, .inl hs⟩
    · next hs =>
      obtain ⟨before, d, after, rfl, hd, hnone, hseen⟩ := exists_of_repeated? h
      refine ⟨e :: before, d, after, rfl, hd, ?_, ?_⟩
      · rw [repeated?, if_neg hs, hnone]
      · simpa [or_assoc, or_comm, or_left_comm, eq_comm] using hseen

/-- **Which configurations are valid**, and which entry makes one invalid. -/
theorem validated_eq (c : Configuration) :
    (c.Distinct → c.validated = .ok c) ∧
    (¬ c.Distinct → ∃ before e after, c.units = before ++ e :: after ∧
      (before.map UnitSettings.unit).Nodup ∧ e.unit ∈ before.map UnitSettings.unit ∧
      c.validated = .error (.duplicateUnit e.unit)) := by
  have hnone : repeated? [] c.units = none ↔ c.Distinct := by
    rw [repeated?_eq_none_iff]
    exact and_iff_left fun _ _ => List.not_mem_nil
  unfold validated
  constructor
  · intro hc
    rw [hnone.mpr hc]
  · intro hc
    cases hrepeated : repeated? [] c.units with
    | none => exact absurd (hnone.mp hrepeated) hc
    | some u =>
      obtain ⟨before, e, after, heq, rfl, hbefore, hseen⟩ := exists_of_repeated? hrepeated
      exact ⟨before, e, after, heq, (repeated?_eq_none_iff.mp hbefore).1,
        hseen.resolve_left List.not_mem_nil, rfl⟩

/-! ## Images left out -/

/-- The configuration without an image for a unit. -/
def withoutImage (c : Configuration) (u : UnitId) : Configuration :=
  { c with units := c.units.map fun e => if e.unit = u then { e with image := none } else e }

theorem entry?_withoutImage (c : Configuration) (u v : UnitId) :
    entry? (c.withoutImage u) v =
      (c.entry? v).map fun e => if e.unit = u then { e with image := none } else e := by
  unfold entry? withoutImage
  rw [List.find?_map]
  congr 2
  funext e
  simp only [Function.comp_apply]
  split <;> rfl

theorem isEnabled_withoutImage (c : Configuration) (u : UnitId) :
    (c.withoutImage u).isEnabled = c.isEnabled := by
  funext v
  unfold isEnabled
  rw [entry?_withoutImage]
  cases c.entry? v with
  | none => rfl
  | some e =>
    by_cases h : e.unit = u <;> simp [h]

theorem image?_withoutImage (c : Configuration) (u v : UnitId) :
    (c.withoutImage u).image? v = if v = u then none else c.image? v := by
  unfold image?
  rw [entry?_withoutImage]
  cases hentry : c.entry? v with
  | none => simp
  | some e =>
    have hv : e.unit = v := by simpa using List.find?_some hentry
    rw [← hv]
    by_cases h : e.unit = u <;> simp [h]

end Configuration

end MicroEngine
