import MicroEngine.Proofs.Configuration.Lookup
import MicroEngine.Proofs.Engine.Invariant
import MicroEngine.Proofs.Machine.Bootstrap
/-!
# Building a machine from a configuration

The images of a configuration are loaded unit by unit in scheduling order, and the machine is then
bootstrapped. The first image that cannot be loaded ends it.

* `Image.Holds`, `Image.Fails`: what loading the file at a path comes to.
* `imageStore`: what a configuration and its files give to a unit.
* `Machine.withStores`: the machine of a configuration with given control stores, before bootstrap.
* `loadImages_append`, `exists_first_fault`: loading up to a unit, and the first unit that fails.
* **`ofConfig_eq_ok_iff`**, **`ofConfig_eq_error_iff`**: when a machine is built, and which one.
* **`ofConfig_builds`**: the same in terms of the entries, whose order plays no part; an image for
  CPU0 that was written from a store.
-/

namespace MicroEngine

namespace Image

section Load

variable (read : String → Except FileError String) (path : String)

/-- The file is the image of a control store. -/
def Holds (r : ControlStore) : Prop := ∃ text, read path = .ok text ∧ parse text = .ok r

/-- The file cannot be read, or is no image. -/
def Fails (cause : ImageError) : Prop :=
  (∃ e, read path = .error e ∧ cause = .unreadable path e) ∨
    ∃ text e, read path = .ok text ∧ parse text = .error e ∧ cause = .malformed e

end Load

variable {read : String → Except FileError String} {path : String}

theorem load_eq_ok_iff {r : ControlStore} : load read path = .ok r ↔ Holds read path r := by
  unfold load Holds
  cases read path with
  | error e => simp
  | ok text => cases hp : parse text <;> simp [hp]

theorem load_eq_error_iff {cause : ImageError} :
    load read path = .error cause ↔ Fails read path cause := by
  unfold load Fails
  cases read path with
  | error e => simp [eq_comm]
  | ok text => cases hp : parse text <;> simp [hp, eq_comm]

/-- The file that was written from a store is the image of this store, if the store is well
formed, and of no store otherwise. -/
theorem holds_format_iff {r r' : ControlStore} (h : read path = .ok (format r)) :
    Holds read path r' ↔ r.WellFormed ∧ r' = r := by
  rw [← parse_format_eq_ok_iff]
  simp [Holds, h]

end Image

namespace Machine

variable {read : String → Except FileError String} {c : Configuration}

/-- The control store that a configuration and its files give to a unit. -/
def imageStore (read : String → Except FileError String) (c : Configuration) (u : UnitId) :
    Except ImageError ControlStore :=
  match c.image? u with
  | none => .ok .empty
  | some path => Image.load read path

/-- The machine with another control store for a unit. -/
def setStore (m : Machine) (u : UnitId) (r : ControlStore) : Machine :=
  m.setEngine u { m.engine u with store := r }

/-- The machine of a configuration with these control stores, before its first bootstrap. -/
def withStores (c : Configuration) (stores : UnitId → ControlStore) : Machine :=
  { unbooted c with
    slots := UnitMap.ofFn fun u => ⟨{ Engine.fresh with store := stores u }, c.isEnabled u⟩ }

/-! ## Control stores of a machine -/

section Stores

variable (c : Configuration) (stores : UnitId → ControlStore) (u : UnitId)

theorem unbooted_eq_withStores : unbooted c = withStores c fun _ => .empty := rfl

theorem engine_withStores :
    (withStores c stores).engine u = { Engine.fresh with store := stores u } := by
  unfold engine withStores
  rw [UnitMap.get_ofFn]

theorem isEnabled_withStores : (withStores c stores).isEnabled = c.isEnabled := by
  funext u
  unfold isEnabled withStores
  rw [UnitMap.get_ofFn]

theorem setStore_withStores (r : ControlStore) :
    (withStores c stores).setStore u r = withStores c fun v => if v = u then r else stores v := by
  refine ext_units (funext fun v => ?_) ?_ rfl rfl rfl
  · unfold setStore
    rw [engine_withStores c fun v => if v = u then r else stores v]
    by_cases h : v = u
    · rw [h, engine_setEngine_self, engine_withStores, if_pos rfl]
    · rw [engine_setEngine_of_ne _ _ _ h, engine_withStores, if_neg h]
  · unfold setStore
    rw [isEnabled_setEngine, isEnabled_withStores, isEnabled_withStores]

theorem bootStore_withStores : (withStores c stores).bootStore u =
    if c.preloadDiagnostic = true ∧ u = .cpu0 then Diagnostic.store else stores u := by
  unfold bootStore
  rw [engine_withStores]
  rfl

end Stores

/-! ## Loading -/

section Load

variable {stores s : UnitId → ControlStore} {u : UnitId} {us : List UnitId}

theorem loadImages_cons_of_ok {r : ControlStore} (h : imageStore read c u = .ok r)
    (hs : s u = .empty) :
    loadImages read c (u :: us) (withStores c s) =
      loadImages read c us (withStores c fun v => if v = u then r else s v) := by
  rw [loadImages]
  cases himage : c.image? u with
  | none =>
    have hr : r = .empty := by simpa [imageStore, himage, eq_comm] using h
    have hsame : (fun v => if v = u then r else s v) = s := by
      funext v
      split
      · next hv => rw [hv, hs, hr]
      · rfl
    rw [hsame]
  | some path =>
    have hload : Image.load read path = .ok r := by simpa [imageStore, himage] using h
    dsimp only
    rw [hload, ← setStore_withStores]
    rfl

theorem loadImages_cons_of_error {m : Machine} {cause : ImageError}
    (h : imageStore read c u = .error cause) :
    loadImages read c (u :: us) m = .error (.image u cause) := by
  rw [loadImages]
  cases himage : c.image? u with
  | none => simp [imageStore, himage] at h
  | some path =>
    have hload : Image.load read path = .error cause := by simpa [imageStore, himage] using h
    dsimp only
    rw [hload]

/-- **Loading up to a unit** gives every unit before it the store of its image. -/
theorem loadImages_append (us : List UnitId) : ∀ {before : List UnitId} {s : UnitId → ControlStore},
    before.Nodup → (∀ u ∈ before, s u = .empty) →
    (∀ u ∈ before, imageStore read c u = .ok (stores u)) →
    loadImages read c (before ++ us) (withStores c s) =
      loadImages read c us (withStores c fun u => if u ∈ before then stores u else s u)
  | [], _, _, _, _ => by simp
  | u :: before, s, hnodup, hempty, hload => by
    obtain ⟨hu, hnodup⟩ := List.nodup_cons.mp hnodup
    obtain ⟨hs, hempty⟩ := List.forall_mem_cons.mp hempty
    obtain ⟨hstore, hload⟩ := List.forall_mem_cons.mp hload
    have hempty' : ∀ v ∈ before, (if v = u then stores u else s v) = .empty := by
      intro v hv
      rw [if_neg (ne_of_mem_of_not_mem hv hu), hempty v hv]
    rw [List.cons_append, loadImages_cons_of_ok hstore hs,
      loadImages_append us hnodup hempty' hload]
    congr 2
    funext v
    by_cases hv : v = u
    · subst hv
      simp [hu]
    · simp [hv]

variable (read c) in
/-- Either every unit of a list gets a store, or there is a first one that does not. -/
theorem exists_first_fault : ∀ us : List UnitId,
    (∀ u ∈ us, ∃ r, imageStore read c u = .ok r) ∨
      ∃ before u after cause, us = before ++ u :: after ∧ imageStore read c u = .error cause ∧
        ∀ v ∈ before, ∃ r, imageStore read c v = .ok r
  | [] => .inl fun _ h => nomatch h
  | u :: us => by
    cases hu : imageStore read c u with
    | error cause => exact .inr ⟨[], u, us, cause, rfl, hu, fun _ h => nomatch h⟩
    | ok r =>
      rcases exists_first_fault us with h | ⟨before, v, after, cause, rfl, hv, hbefore⟩
      · exact .inl (List.forall_mem_cons.mpr ⟨⟨r, hu⟩, h⟩)
      · exact .inr ⟨u :: before, v, after, cause, rfl, hv,
          List.forall_mem_cons.mpr ⟨⟨r, hu⟩, hbefore⟩⟩

end Load

/-! ## Building -/

theorem ofConfig_of_stores {stores : UnitId → ControlStore}
    (h : ∀ u, imageStore read c u = .ok (stores u)) :
    ofConfig read c = .ok (withStores c stores).bootstrap := by
  have hload := loadImages_append [] (by decide : UnitId.all.Nodup)
    (fun u _ => rfl : ∀ u ∈ UnitId.all, (fun _ => ControlStore.empty) u = .empty) fun u _ => h u
  simp only [UnitId.mem_all, if_true, List.append_nil] at hload
  unfold ofConfig
  rw [unbooted_eq_withStores, hload]
  rfl

theorem ofConfig_of_fault {before after : List UnitId} {u : UnitId} {cause : ImageError}
    (hall : UnitId.all = before ++ u :: after) (hu : imageStore read c u = .error cause)
    (hbefore : ∀ v ∈ before, ∃ r, imageStore read c v = .ok r) :
    ofConfig read c = .error (.image u cause) := by
  have hnodup : before.Nodup :=
    (List.nodup_append.mp (hall ▸ (by decide : UnitId.all.Nodup))).1
  have hstores : ∀ v ∈ before,
      imageStore read c v = .ok ((imageStore read c v).toOption.getD .empty) := by
    intro v hv
    obtain ⟨r, hr⟩ := hbefore v hv
    rw [hr]
    rfl
  have hload := loadImages_append (u :: after) hnodup
    (fun v _ => rfl : ∀ v ∈ before, (fun _ => ControlStore.empty) v = .empty) hstores
  rw [loadImages_cons_of_error hu, ← hall] at hload
  unfold ofConfig
  rw [unbooted_eq_withStores, hload]
  rfl

/-- **When a machine is built, and which one.** -/
theorem ofConfig_eq_ok_iff {m : Machine} :
    ofConfig read c = .ok m ↔ ∃ stores : UnitId → ControlStore,
      (∀ u, imageStore read c u = .ok (stores u)) ∧ m = (withStores c stores).bootstrap := by
  constructor
  · intro h
    rcases exists_first_fault read c UnitId.all with hok | ⟨before, u, after, cause, hall, hu, hb⟩
    · choose stores hstores using fun u => hok u u.mem_all
      rw [ofConfig_of_stores hstores] at h
      exact ⟨stores, hstores, (Except.ok.inj h).symm⟩
    · rw [ofConfig_of_fault hall hu hb] at h
      cases h
  · rintro ⟨stores, hstores, rfl⟩
    exact ofConfig_of_stores hstores

/-- **When none is built, and why.** -/
theorem ofConfig_eq_error_iff {err : BuildError} :
    ofConfig read c = .error err ↔ ∃ u cause, err = .image u cause ∧
      imageStore read c u = .error cause ∧
      ∀ v, v.index < u.index → ∃ r, imageStore read c v = .ok r := by
  have hbefore_iff {before after : List UnitId} {u v : UnitId}
      (hall : UnitId.all = before ++ u :: after) : v ∈ before ↔ v.index < u.index := by
    rw [mem_before_iff_index (by decide) hall]
    exact and_iff_right v.mem_all
  constructor
  · intro h
    rcases exists_first_fault read c UnitId.all with hok | ⟨before, u, after, cause, hall, hu, hb⟩
    · choose stores hstores using fun u => hok u u.mem_all
      rw [ofConfig_of_stores hstores] at h
      cases h
    · rw [ofConfig_of_fault hall hu hb] at h
      exact ⟨u, cause, (Except.error.inj h).symm, hu, fun v hv => hb v ((hbefore_iff hall).mpr hv)⟩
  · rintro ⟨u, cause, rfl, hu, hbefore⟩
    obtain ⟨before, after, hall⟩ := List.append_of_mem u.mem_all
    exact ofConfig_of_fault hall hu fun v hv => hbefore v ((hbefore_iff hall).mp hv)

/-! ## Entries -/

theorem imageStore_eq_ok_iff {u : UnitId} {r : ControlStore} :
    imageStore read c u = .ok r ↔ (c.image? u = none ∧ r = .empty) ∨
      ∃ path, c.image? u = some path ∧ Image.Holds read path r := by
  unfold imageStore
  cases c.image? u with
  | none => simp [eq_comm]
  | some path => simp [Image.load_eq_ok_iff]

theorem imageStore_eq_error_iff {u : UnitId} {cause : ImageError} :
    imageStore read c u = .error cause ↔
      ∃ path, c.image? u = some path ∧ Image.Fails read path cause := by
  unfold imageStore
  cases c.image? u with
  | none => simp
  | some path => simp [Image.load_eq_error_iff]

theorem exists_imageStore_iff (hc : c.Distinct) {u : UnitId} :
    (∃ r, imageStore read c u = .ok r) ↔
      ∀ e ∈ c.units, e.unit = u → ∀ path, e.image = some path → ∃ r, Image.Holds read path r := by
  simp only [imageStore_eq_ok_iff]
  constructor
  · rintro ⟨r, ⟨hnone, -⟩ | ⟨path, hpath, hr⟩⟩ e he hu path' hpath'
    · rw [Configuration.image?_eq_none_iff hc] at hnone
      cases (hnone e he hu).symm.trans hpath'
    · have himage := (Configuration.image?_eq_some_iff hc).mpr ⟨e, he, hu, hpath'⟩
      cases hpath.symm.trans himage
      exact ⟨r, hr⟩
  · intro h
    cases himage : c.image? u with
    | none => exact ⟨.empty, .inl ⟨rfl, rfl⟩⟩
    | some path =>
      obtain ⟨e, he, hu, hpath⟩ := (Configuration.image?_eq_some_iff hc).mp himage
      obtain ⟨r, hr⟩ := h e he hu path hpath
      exact ⟨r, .inr ⟨path, rfl, hr⟩⟩

/-- The machine that a configuration and its files describe: every unit has the control store of its
image, has just come out of reset and is enabled if its entry says so. -/
structure Built (read : String → Except FileError String) (c : Configuration) (m : Machine) :
    Prop where
  registers : ∀ u, (m.engine u).registers =
    { Registers.zero with address := 1, latch := (m.engine u).store.read 0 }
  cycles : ∀ u, (m.engine u).cycles = 0
  /-- CPU0 has the diagnostic if the switch is on. -/
  diagnostic : c.preloadDiagnostic = true → (m.engine .cpu0).store = Diagnostic.store
  /-- Every other unit has the store of its image. -/
  image : ∀ e ∈ c.units, ∀ path, e.image = some path →
    (c.preloadDiagnostic = true → e.unit ≠ .cpu0) → Image.Holds read path (m.engine e.unit).store
  /-- Without an image the store is empty. -/
  empty : ∀ u, (∀ e ∈ c.units, e.unit = u → e.image = none) →
    (c.preloadDiagnostic = true → u ≠ .cpu0) → (m.engine u).store = .empty
  enabled : ∀ u, m.isEnabled u = true ↔ (∃ e ∈ c.units, e.unit = u ∧ e.enabled = some true) ∨
    ((u = .cpu0 ∨ u = .msch) ∧ ∀ e ∈ c.units, e.unit = u → e.enabled = none)
  breakpoints : m.breakpoints = []
  preload : m.preloadDiagnostic = c.preloadDiagnostic
  iterations : m.iterations = 0

section Built

variable {stores : UnitId → ControlStore}

theorem engine_bootstrap_withStores (u : UnitId) : (withStores c stores).bootstrap.engine u =
    .booted (if c.preloadDiagnostic = true ∧ u = .cpu0 then Diagnostic.store else stores u) := by
  rw [engine_bootstrap, bootStore_withStores]

theorem store_bootstrap_withStores {u : UnitId} (h : c.preloadDiagnostic = true → u ≠ .cpu0) :
    ((withStores c stores).bootstrap.engine u).store = stores u := by
  rw [engine_bootstrap_withStores, if_neg fun hboth => h hboth.1 hboth.2]
  rfl

theorem built_withStores (hc : c.Distinct) (h : ∀ u, imageStore read c u = .ok (stores u)) :
    (withStores c stores).bootstrap.Built read c where
  registers u := by
    rw [engine_bootstrap_withStores]
    rfl
  cycles u := by
    rw [engine_bootstrap_withStores]
    rfl
  diagnostic hpreload := by
    rw [engine_bootstrap_withStores, if_pos ⟨hpreload, rfl⟩]
    rfl
  image e he path hpath hu := by
    have himage := (Configuration.image?_eq_some_iff hc).mpr ⟨e, he, rfl, hpath⟩
    rw [store_bootstrap_withStores hu]
    obtain ⟨hnone, -⟩ | ⟨path', hpath', hr⟩ := imageStore_eq_ok_iff.mp (h e.unit)
    · cases himage.symm.trans hnone
    · cases himage.symm.trans hpath'
      exact hr
  empty u hnone hu := by
    have himage := (Configuration.image?_eq_none_iff hc).mpr hnone
    rw [store_bootstrap_withStores hu]
    obtain ⟨-, hr⟩ | ⟨path, hpath, -⟩ := imageStore_eq_ok_iff.mp (h u)
    · exact hr
    · cases himage.symm.trans hpath
  enabled u := by
    rw [isEnabled_bootstrap, isEnabled_withStores]
    exact Configuration.isEnabled_iff hc
  breakpoints := breakpoints_bootstrap _
  preload := preloadDiagnostic_bootstrap _
  iterations := rfl

end Built

/-! ## Two configurations -/

theorem loadImages_congr {c' : Configuration} (h : c'.image? = c.image?) :
    ∀ (us : List UnitId) (m : Machine), loadImages read c' us m = loadImages read c us m
  | [], _ => rfl
  | u :: us, m => by
    rw [loadImages, loadImages, h]
    split
    · exact loadImages_congr h us m
    · split
      · rfl
      · exact loadImages_congr h us _

/-- **The order of the entries plays no part.** -/
theorem ofConfig_perm (hc : c.Distinct) {c' : Configuration}
    (hpreload : c'.preloadDiagnostic = c.preloadDiagnostic) (h : c'.units.Perm c.units) :
    ofConfig read c' = ofConfig read c := by
  have hentry := Configuration.entry?_perm hc h
  have hunbooted : unbooted c' = unbooted c := by
    unfold unbooted
    rw [Configuration.isEnabled_congr hentry, hpreload]
  unfold ofConfig
  rw [hunbooted, loadImages_congr (Configuration.image?_congr hentry)]

theorem imageStore_withoutImage (u v : UnitId) :
    imageStore read (c.withoutImage u) v = if v = u then .ok .empty else imageStore read c v := by
  unfold imageStore
  rw [Configuration.image?_withoutImage]
  by_cases h : v = u <;> simp [h]

theorem withStores_withoutImage (u : UnitId) (stores : UnitId → ControlStore) :
    withStores (c.withoutImage u) stores = withStores c stores := by
  unfold withStores unbooted
  rw [Configuration.isEnabled_withoutImage]
  rfl

theorem bootStore_setStore (m : Machine) (u v : UnitId) (r : ControlStore) :
    (m.setStore u r).bootStore v = if m.preloadDiagnostic = true ∧ v = .cpu0 then Diagnostic.store
      else if v = u then r else (m.engine v).store := by
  have hstore : ((m.setStore u r).engine v).store = if v = u then r else (m.engine v).store := by
    unfold setStore
    split
    · next hv => rw [hv, engine_setEngine_self]
    · next hv => rw [engine_setEngine_of_ne _ _ _ hv]
  unfold bootStore
  rw [hstore]
  rfl

/-- A bootstrap before the store of a unit is put in is of no account. -/
theorem bootstrap_setStore_bootstrap (m : Machine) (u : UnitId) (r : ControlStore) :
    (m.bootstrap.setStore u r).bootstrap = (m.setStore u r).bootstrap := by
  refine bootstrap_congr (funext fun v => ?_) ?_ (breakpoints_bootstrap m)
    (preloadDiagnostic_bootstrap m)
  · rw [bootStore_setStore, bootStore_setStore, preloadDiagnostic_bootstrap, engine_bootstrap]
    split
    · rfl
    · next hboth => rw [bootStore, if_neg hboth, Engine.booted]
  · unfold setStore
    rw [isEnabled_setEngine, isEnabled_setEngine, isEnabled_bootstrap]

/-- **An image that can be loaded** may as well be left out, its control store put into the machine
that is built without it, and that machine bootstrapped. -/
theorem ofConfig_withoutImage {u : UnitId} {r : ControlStore}
    (hu : imageStore read c u = .ok r) : ofConfig read c =
      (ofConfig read (c.withoutImage u)).map fun m => (m.setStore u r).bootstrap := by
  have hothers {v : UnitId} (hv : v ≠ u) :
      imageStore read (c.withoutImage u) v = imageStore read c v := by
    rw [imageStore_withoutImage, if_neg hv]
  cases h : ofConfig read (c.withoutImage u) with
  | ok m =>
    obtain ⟨stores, hstores, rfl⟩ := ofConfig_eq_ok_iff.mp h
    have hall (v : UnitId) : imageStore read c v = .ok (if v = u then r else stores v) := by
      by_cases hv : v = u
      · rw [hv, if_pos rfl, hu]
      · rw [← hothers hv, hstores v, if_neg hv]
    rw [ofConfig_of_stores hall, withStores_withoutImage, ← setStore_withStores,
      ← bootstrap_setStore_bootstrap]
    rfl
  | error err =>
    obtain ⟨w, cause, rfl, hw, hbefore⟩ := ofConfig_eq_error_iff.mp h
    have hne : w ≠ u := by
      rintro rfl
      rw [imageStore_withoutImage, if_pos rfl] at hw
      cases hw
    refine ofConfig_eq_error_iff.mpr ⟨w, cause, rfl, hothers hne ▸ hw, fun v hlt => ?_⟩
    by_cases hv : v = u
    · exact ⟨r, hv ▸ hu⟩
    · exact hothers hv ▸ hbefore v hlt

/-- **Building a machine.** A machine is built exactly if every image can be loaded. If not, the error
is that of the first unit in scheduling order whose image cannot be loaded. What is built is described
by the entries, whose order plays no part. The image that was written from a store counts as this
store, loaded into the machine that is built without that image and then bootstrapped; the image of
an ill-formed store cannot be loaded. -/
theorem ofConfig_builds (read : String → Except FileError String) {c : Configuration}
    (hc : c.Distinct) :
    ((∃ m, ofConfig read c = .ok m) ↔
      ∀ e ∈ c.units, ∀ path, e.image = some path → ∃ r, Image.Holds read path r) ∧
    (∀ err, ofConfig read c = .error err → ∃ e ∈ c.units, ∃ path cause, e.image = some path ∧
      err = .image e.unit cause ∧ Image.Fails read path cause ∧
      ∀ d ∈ c.units, d.unit.index < e.unit.index → ∀ path', d.image = some path' →
        ∃ r, Image.Holds read path' r) ∧
    (∀ m, ofConfig read c = .ok m → m.Built read c) ∧
    (∀ c' : Configuration, c'.preloadDiagnostic = c.preloadDiagnostic → c'.units.Perm c.units →
      ofConfig read c' = ofConfig read c) ∧
    ∀ e ∈ c.units, ∀ path r, e.image = some path → read path = .ok (Image.format r) →
      (r.WellFormed → ofConfig read c =
        (ofConfig read (c.withoutImage e.unit)).map fun m => (m.setStore e.unit r).bootstrap) ∧
      ∀ m, ofConfig read c = .ok m → r.WellFormed := by
  have hstores : (∃ m, ofConfig read c = .ok m) ↔
      ∀ e ∈ c.units, ∀ path, e.image = some path → ∃ r, Image.Holds read path r := by
    constructor
    · rintro ⟨m, hm⟩ e he
      obtain ⟨stores, hstores, -⟩ := ofConfig_eq_ok_iff.mp hm
      exact (exists_imageStore_iff hc).mp ⟨_, hstores e.unit⟩ e he rfl
    · intro h
      choose stores hstores using fun u =>
        (exists_imageStore_iff (u := u) hc).mpr fun e he _ => h e he
      exact ⟨_, ofConfig_of_stores hstores⟩
  refine ⟨hstores, fun err herr => ?_, fun m hm => ?_, fun c' hpreload hperm => ?_,
    fun e he path r hpath htext => ⟨fun hwell => ?_, fun m hm => ?_⟩⟩
  · obtain ⟨u, cause, rfl, hu, hbefore⟩ := ofConfig_eq_error_iff.mp herr
    obtain ⟨path, himage, hfails⟩ := imageStore_eq_error_iff.mp hu
    obtain ⟨e, he, rfl, hpath⟩ := (Configuration.image?_eq_some_iff hc).mp himage
    refine ⟨e, he, path, cause, hpath, rfl, hfails, fun d hd hlt => ?_⟩
    exact (exists_imageStore_iff hc).mp (hbefore d.unit hlt) d hd rfl
  · obtain ⟨stores, hload, rfl⟩ := ofConfig_eq_ok_iff.mp hm
    exact built_withStores hc hload
  · exact ofConfig_perm hc hpreload hperm
  · have himage := (Configuration.image?_eq_some_iff hc).mpr ⟨e, he, rfl, hpath⟩
    have hholds : Image.Holds read path r := (Image.holds_format_iff htext).mpr ⟨hwell, rfl⟩
    exact ofConfig_withoutImage (imageStore_eq_ok_iff.mpr (.inr ⟨path, himage, hholds⟩))
  · obtain ⟨r', hr'⟩ := hstores.mp ⟨m, hm⟩ e he path hpath
    exact ((Image.holds_format_iff htext).mp hr').1

/-- Two entries, against the scheduling order: with no files at all the error names CPU0; with the
diagnostic in every file CPU0 has it, a unit without an entry has an empty store, and the memory
scheduler is switched off. -/
theorem ofConfig_builds_two :
    ofConfig (fun _ => .error .notFound)
        ⟨false, none, [⟨.msch, some false, some "m"⟩, ⟨.cpu0, none, some "c"⟩]⟩ =
      .error (.image .cpu0 (.unreadable "c" .notFound)) ∧
    ∃ m, ofConfig (fun _ => .ok (Image.format Diagnostic.store))
        ⟨false, none, [⟨.msch, some false, some "m"⟩, ⟨.cpu0, none, some "c"⟩]⟩ = .ok m ∧
      (m.engine .cpu0).store = Diagnostic.store ∧ (m.engine .amc).store = .empty ∧
      m.isEnabled .cpu0 = true ∧ m.isEnabled .msch = false := by
  have hdistinct : Configuration.Distinct
      ⟨false, none, [⟨.msch, some false, some "m"⟩, ⟨.cpu0, none, some "c"⟩]⟩ := by
    decide
  constructor
  · obtain ⟨hbuilt, herror, -⟩ := ofConfig_builds (fun _ => .error .notFound) hdistinct
    have hnone (path : String) (r : ControlStore) :
        ¬ Image.Holds (fun _ => .error .notFound) path r := by
      rintro ⟨text, htext, -⟩
      cases htext
    cases h : ofConfig (fun _ => .error .notFound)
        ⟨false, none, [⟨.msch, some false, some "m"⟩, ⟨.cpu0, none, some "c"⟩]⟩ with
    | ok m =>
      obtain ⟨r, hr⟩ := hbuilt.mp ⟨m, h⟩ ⟨.cpu0, none, some "c"⟩ (by simp) "c" rfl
      exact absurd hr (hnone _ _)
    | error err =>
      obtain ⟨e, he, path, cause, hpath, rfl, hfails, hbefore⟩ := herror err h
      simp only [List.mem_cons, List.not_mem_nil, or_false] at he
      rcases he with rfl | rfl
      · obtain ⟨r, hr⟩ := hbefore ⟨.cpu0, none, some "c"⟩ (by simp) (by decide) "c" rfl
        exact absurd hr (hnone _ _)
      · cases hpath
        rcases hfails with ⟨cause, hcause, rfl⟩ | ⟨text, cause, htext, -, -⟩
        · cases hcause
          rfl
        · cases htext
  · obtain ⟨hbuilt, -, hmachine, -⟩ :=
      ofConfig_builds (fun _ => .ok (Image.format Diagnostic.store)) hdistinct
    have hholds (path : String) {r : ControlStore} :
        Image.Holds (fun _ => .ok (Image.format Diagnostic.store)) path r ↔
          Diagnostic.store.WellFormed ∧ r = Diagnostic.store :=
      Image.holds_format_iff rfl
    obtain ⟨m, hm⟩ := hbuilt.mpr fun _ _ path _ =>
      ⟨_, (hholds path).mpr ⟨ControlStore.wellFormed_diagnostic, rfl⟩⟩
    have hb := hmachine m hm
    refine ⟨m, hm, ?_, ?_, ?_, ?_⟩
    · exact ((hholds "c").mp (hb.image ⟨.cpu0, none, some "c"⟩ (by simp) "c" rfl (by simp))).2
    · exact hb.empty .amc (by simp) (by simp)
    · exact (hb.enabled .cpu0).mpr (.inr (by simp))
    · rw [Bool.eq_false_iff, ne_eq, hb.enabled .msch]
      simp

end Machine

end MicroEngine
