import Mathlib.Data.List.Induction
import MicroEngine.Proofs.Configuration.RoundTrip
/-!
# Setting the image paths of a configuration

The entries of a configuration are a list that is used as a map from units: a path goes into the
entry of its unit, and a unit that is not listed gets an entry at the end that says nothing else. So
paths that are set one after another never list a unit twice, and change nothing but images.

* `entry?_setImage`: the entries that are found after one path has been set; `image?_setImage`,
  `isEnabled_setImage`: what they say.
* `Configuration.setImages`: a configuration after some paths have been set.
* `Configuration.lastPath?`, `Configuration.newUnits`: the path that is set last for a unit, and the
  units that get an entry.
* `image?_setImages`, `isEnabled_setImages`, `distinct_setImages`: what is looked up then, and that
  no unit is listed twice.
* **`units_setImages`**: all entries, in order.
* **`setImages_keeps_valid`**: what setting some paths changes, and that the result is valid.
-/

namespace MicroEngine

namespace Configuration

/-- The entry that leaves everything to the reference configuration. -/
def bareEntry (u : UnitId) : UnitSettings := ⟨u, none, none⟩

/-! ## One path -/

section Single

variable {u : UnitId} {path : String} {es : List UnitSettings}

theorem setEntryImage_of_not_mem (h : u ∉ es.map UnitSettings.unit) :
    setEntryImage u path es = es ++ [⟨u, none, some path⟩] := by
  induction es with
  | nil => rfl
  | cons e es ih =>
    rw [List.map_cons, List.mem_cons, not_or] at h
    rw [setEntryImage, if_neg (Ne.symm h.1), ih h.2, List.cons_append]

theorem setEntryImage_of_mem (hes : (es.map UnitSettings.unit).Nodup)
    (h : u ∈ es.map UnitSettings.unit) :
    setEntryImage u path es =
      es.map fun e => if e.unit = u then { e with image := some path } else e := by
  induction es with
  | nil => cases h
  | cons e es ih =>
    obtain ⟨he, hes⟩ := List.nodup_cons.mp hes
    rw [setEntryImage, List.map_cons]
    by_cases hu : e.unit = u
    · -- No other entry is that of the unit.
      have hrest : es.map (fun e => if e.unit = u then { e with image := some path } else e) =
          es.map id := by
        refine List.map_congr_left fun d hd => if_neg fun hdu => he ?_
        rw [hu, ← hdu]
        exact List.mem_map_of_mem hd
      rw [if_pos hu, if_pos hu, hrest, List.map_id]
    · have hmem := (List.mem_cons.mp h).resolve_left (Ne.symm hu)
      rw [if_neg hu, if_neg hu, ih hes hmem]

theorem find?_setEntryImage (v : UnitId) :
    (setEntryImage u path es).find? (fun e => e.unit == v) =
      if v = u then
        some { (es.find? fun e => e.unit == u).getD (bareEntry u) with image := some path }
      else es.find? fun e => e.unit == v := by
  induction es with
  | nil =>
    by_cases hv : v = u
    · simp [setEntryImage, bareEntry, hv]
    · simp [setEntryImage, hv, Ne.symm hv]
  | cons e es ih =>
    rw [setEntryImage]
    by_cases hu : e.unit = u <;> by_cases hv : v = u
    · simp [hu, hv]
    · simp [hu, hv, Ne.symm hv]
    · subst hv
      simp [hu, ih]
    · simp [hu, hv, ih, List.find?_cons]

end Single

variable (c : Configuration) (u v : UnitId) (path : String)

/-- **The entries after a path has been set**: that of the unit, or a new one, has the path, and the
others are as they were. -/
theorem entry?_setImage : entry? (c.setImage u path) v =
    if v = u then some { (c.entry? u).getD (bareEntry u) with image := some path }
    else c.entry? v :=
  find?_setEntryImage v

theorem image?_setImage :
    (c.setImage u path).image? v = if v = u then some path else c.image? v := by
  unfold image?
  rw [entry?_setImage]
  split <;> rfl

/-- A unit that is not listed gets an entry that leaves its reference setting. -/
theorem isEnabled_setImage : (c.setImage u path).isEnabled v = c.isEnabled v := by
  unfold isEnabled
  rw [entry?_setImage]
  split
  · next hv =>
    rw [hv]
    cases c.entry? u <;> rfl
  · rfl

/-! ## Paths set one after another -/

/-- The configuration after the paths have been set in order. -/
def setImages (c : Configuration) (calls : List (UnitId × String)) : Configuration :=
  calls.foldl (fun d call => d.setImage call.1 call.2) c

/-- The path that is set last for a unit, if any is. -/
def lastPath? (calls : List (UnitId × String)) (u : UnitId) : Option String :=
  ((calls.filter fun call => call.1 == u).getLast?).map Prod.snd

/-- The units that get an entry: those that are not listed, in the order in which a path is first
set for them. -/
def newUnits (c : Configuration) (calls : List (UnitId × String)) : List UnitId :=
  ((calls.map Prod.fst).eraseDups).filter fun u => u ∉ c.units.map UnitSettings.unit

section Calls

variable (calls : List (UnitId × String))

theorem setImages_concat :
    c.setImages (calls ++ [(u, path)]) = (c.setImages calls).setImage u path := by
  simp [setImages]

theorem lastPath?_concat :
    lastPath? (calls ++ [(u, path)]) v = if v = u then some path else lastPath? calls v := by
  unfold lastPath?
  by_cases hv : v = u
  · simp [hv]
  · simp [hv, Ne.symm hv]

theorem newUnits_concat :
    c.newUnits (calls ++ [(u, path)]) =
      if u ∈ c.units.map UnitSettings.unit ++ c.newUnits calls then c.newUnits calls
      else c.newUnits calls ++ [u] := by
  unfold newUnits
  generalize c.units.map UnitSettings.unit = listed
  rw [List.map_append, List.map_singleton, eraseDups_concat]
  by_cases hlisted : u ∈ listed <;> by_cases hcalled : u ∈ calls.map Prod.fst
  · rw [if_pos hcalled, if_pos (List.mem_append_left _ hlisted)]
  · rw [if_neg hcalled, if_pos (List.mem_append_left _ hlisted), List.filter_append]
    simp [hlisted]
  · have hnew : u ∈ ((calls.map Prod.fst).eraseDups).filter fun v => v ∉ listed :=
      List.mem_filter.mpr ⟨List.mem_eraseDups.mpr hcalled, decide_eq_true hlisted⟩
    rw [if_pos hcalled, if_pos (List.mem_append_right _ hnew)]
  · have hold : u ∉ ((calls.map Prod.fst).eraseDups).filter fun v => v ∉ listed :=
      fun h => hcalled (List.mem_eraseDups.mp (List.mem_filter.mp h).1)
    rw [if_neg hcalled, if_neg (mt List.mem_append.mp (not_or.mpr ⟨hlisted, hold⟩)),
      List.filter_append]
    simp [hlisted]

/-- **The image of a unit** is the path that was set last for it, or the original one. -/
theorem image?_setImages : (c.setImages calls).image? u = (lastPath? calls u).or (c.image? u) := by
  induction calls using List.reverseRecOn with
  | nil => rfl
  | append_singleton calls call ih =>
    rw [setImages_concat, image?_setImage, lastPath?_concat, ih]
    split <;> rfl

theorem isEnabled_setImages : (c.setImages calls).isEnabled u = c.isEnabled u := by
  induction calls using List.reverseRecOn with
  | nil => rfl
  | append_singleton calls call ih => rw [setImages_concat, isEnabled_setImage, ih]

/-- The entry of a unit with the last path that is set for it. -/
def withLastPath (calls : List (UnitId × String)) (e : UnitSettings) : UnitSettings :=
  { e with image := (lastPath? calls e.unit).or e.image }

theorem withLastPath_concat (e : UnitSettings) :
    withLastPath (calls ++ [(u, path)]) e =
      if e.unit = u then { withLastPath calls e with image := some path }
      else withLastPath calls e := by
  unfold withLastPath
  rw [lastPath?_concat]
  split <;> rfl

section Distinct

variable {c}
variable (hc : c.Distinct)

include hc

theorem units_map_setImage :
    (c.setImage u path).units.map UnitSettings.unit =
      if u ∈ c.units.map UnitSettings.unit then c.units.map UnitSettings.unit
      else c.units.map UnitSettings.unit ++ [u] := by
  unfold setImage
  split
  · next h =>
    rw [setEntryImage_of_mem hc h, List.map_map]
    refine List.map_congr_left fun e _ => ?_
    simp only [Function.comp_apply]
    split <;> rfl
  · next h => rw [setEntryImage_of_not_mem h, List.map_append, List.map_singleton]

/-- **Setting a path lists no unit twice.** -/
theorem distinct_setImage : (c.setImage u path).Distinct := by
  unfold Distinct
  rw [units_map_setImage u path hc]
  split
  · exact hc
  · next h => exact List.nodup_append.mpr ⟨hc, by simp, by simpa using h⟩

theorem distinct_setImages : (c.setImages calls).Distinct := by
  induction calls using List.reverseRecOn with
  | nil => exact hc
  | append_singleton calls call ih =>
    rw [setImages_concat]
    exact distinct_setImage call.1 call.2 ih

/-- The units that are listed: the original ones and the new ones. -/
theorem units_map_setImages :
    (c.setImages calls).units.map UnitSettings.unit =
      c.units.map UnitSettings.unit ++ c.newUnits calls := by
  induction calls using List.reverseRecOn with
  | nil => simp [setImages, newUnits]
  | append_singleton calls call ih =>
    rw [setImages_concat, units_map_setImage _ _ (distinct_setImages calls hc), ih, newUnits_concat]
    split
    · rfl
    · rw [List.append_assoc]

/-- **All entries after some paths have been set**: the original ones and one for each new unit,
each with the last path that is set for its unit. -/
theorem units_setImages :
    (c.setImages calls).units =
      (c.units ++ (c.newUnits calls).map bareEntry).map (withLastPath calls) := by
  induction calls using List.reverseRecOn with
  | nil => exact (List.append_nil _).symm.trans (List.map_id _).symm
  | append_singleton calls call ih =>
    obtain ⟨u, path⟩ := call
    have hd := distinct_setImages calls hc
    have hunits := units_map_setImages calls hc
    rw [setImages_concat, newUnits_concat, ← hunits]
    split
    · next hmem =>
      rw [setImage, setEntryImage_of_mem hd hmem, ih, List.map_map]
      refine List.map_congr_left fun e _ => ?_
      rw [withLastPath_concat]
      rfl
    · next hmem =>
      -- The other entries keep the images that they have, and the new one gets the path.
      have hother : ∀ e ∈ c.units ++ (c.newUnits calls).map bareEntry,
          withLastPath calls e = withLastPath (calls ++ [(u, path)]) e := by
        intro e he
        rw [withLastPath_concat, if_neg]
        rintro rfl
        rw [ih, List.map_map] at hmem
        exact hmem (List.mem_map_of_mem he)
      have hnew : withLastPath (calls ++ [(u, path)]) (bareEntry u) = ⟨u, none, some path⟩ := by
        rw [withLastPath_concat]
        exact if_pos rfl
      rw [setImage, setEntryImage_of_not_mem hmem, ih, List.map_congr_left hother, ← hnew]
      simp

end Distinct

end Calls

/-! ## All together -/

/-- The rest of a configuration stays when paths are set. -/
theorem setImages_eq (calls : List (UnitId × String)) :
    c.setImages calls = { c with units := (c.setImages calls).units } := by
  induction calls using List.reverseRecOn with
  | nil => rfl
  | append_singleton calls call ih =>
    rw [setImages_concat]
    unfold setImage
    rw [ih]

/-- The text of a configuration that lists no unit twice is read back. -/
theorem ofJsonText_toJsonText_of_distinct {c : Configuration} (hc : c.Distinct) :
    ofJsonText c.toJsonText = .ok c := by
  unfold ofJsonText toJsonText
  rw [Json.parse?_pretty, Option.bind_some, ofJson?_toJson]
  exact (validated_eq c).1 hc

/-- **Setting image paths keeps a configuration valid.** After any paths have been set in a
configuration that lists no unit twice:

* no unit is listed twice;
* the image of a unit is the path that was set last for it, or the original one if none was;
* the same units are enabled;
* the original entries stand in their order, and only their images may have changed; behind them
  there is an entry for each new unit, in the order in which the units were first named; and nothing
  else of the configuration has changed;
* paths that are set in another order, with the same order for each unit, lead to the same images
  and the same enabled units;
* the text of the configuration is read back. -/
theorem setImages_keeps_valid {c : Configuration} (hc : c.Distinct)
    (calls : List (UnitId × String)) :
    let d := c.setImages calls
    d.Distinct ∧
    (∀ u, d.image? u = (lastPath? calls u).or (c.image? u)) ∧
    (∀ u, d.isEnabled u = c.isEnabled u) ∧
    d = { c with
      units := c.units.map (fun e => { e with image := (lastPath? calls e.unit).or e.image }) ++
        (c.newUnits calls).map fun u => ⟨u, none, lastPath? calls u⟩ } ∧
    (∀ calls' : List (UnitId × String),
      (∀ u, calls'.filter (fun call => call.1 == u) = calls.filter fun call => call.1 == u) →
      ∀ u, (c.setImages calls').image? u = d.image? u ∧
        (c.setImages calls').isEnabled u = d.isEnabled u) ∧
    ofJsonText d.toJsonText = .ok d := by
  intro d
  have hd : d.Distinct := distinct_setImages calls hc
  refine ⟨hd, fun u => image?_setImages c u calls, fun u => isEnabled_setImages c u calls, ?_, ?_,
    ofJsonText_toJsonText_of_distinct hd⟩
  · have hnew : (c.newUnits calls).map (withLastPath calls ∘ bareEntry) =
        (c.newUnits calls).map fun u => ⟨u, none, lastPath? calls u⟩ := by
      refine List.map_congr_left fun u _ => ?_
      simp [withLastPath, bareEntry]
    calc
      d = { c with units := d.units } := setImages_eq c calls
      _ = _ := by
        rw [units_setImages calls hc, List.map_append, List.map_map, hnew]
        rfl
  · intro calls' hsame u
    have hlast : lastPath? calls' u = lastPath? calls u := by
      unfold lastPath?
      rw [hsame]
    rw [image?_setImages, image?_setImages, isEnabled_setImages, isEnabled_setImages, hlast]
    exact ⟨rfl, rfl⟩

/-- Paths for a listed unit and for two new ones, one of them set twice and the first two also in
the other order. -/
theorem setImages_keeps_valid_swapped :
    let c : Configuration := ⟨true, none, [⟨.msch, some false, none⟩, ⟨.cpu0, none, some "a"⟩]⟩
    let d := c.setImages [(.amc, "x"), (.cpu0, "b"), (.amc, "y"), (.chio, "z")]
    let d' := c.setImages [(.cpu0, "b"), (.amc, "x"), (.amc, "y"), (.chio, "z")]
    d.units = [⟨.msch, some false, none⟩, ⟨.cpu0, none, some "b"⟩, ⟨.amc, none, some "y"⟩,
      ⟨.chio, none, some "z"⟩] ∧
    d.image? .amc = some "y" ∧ d.isEnabled .msch = false ∧ d.isEnabled .cpu0 = true ∧
    (∀ u, d'.image? u = d.image? u ∧ d'.isEnabled u = d.isEnabled u) ∧
    d.Distinct ∧ ofJsonText d.toJsonText = .ok d := by
  intro c d d'
  have hc : c.Distinct := by decide
  obtain ⟨hdistinct, himage, henabled, hunits, horder, hread⟩ :=
    setImages_keeps_valid hc [(.amc, "x"), (.cpu0, "b"), (.amc, "y"), (.chio, "z")]
  refine ⟨(congrArg units hunits).trans (by decide), (himage .amc).trans (by decide),
    (henabled .msch).trans (by decide), (henabled .cpu0).trans (by decide), ?_, hdistinct, hread⟩
  exact horder [(.cpu0, "b"), (.amc, "x"), (.amc, "y"), (.chio, "z")] fun u => by cases u <;> rfl

end Configuration

end MicroEngine
