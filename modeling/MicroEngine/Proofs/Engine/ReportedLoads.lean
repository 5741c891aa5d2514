import MicroEngine.Proofs.Engine.Cycle
/-!
# Reported loads

The report of a cycle accounts for all that the cycle does to the data registers: working registers,
holding registers and scratchpad.

* `DataRegister`, `DataRegisters`: one data register, and what all of them hold.
* `Registers.targets`, `Registers.busFor`: the registers that a microword loads, in order, and what
  each is loaded with.
* `DataRegisters.loadEach`: loads in order, each reported with what the register holds after it.
* **`loadEach_eq`**: a load that is made later does not change what an earlier one has reported.
* `replay_loadEach`: writing the reported values has the effect of the loads.
* `data_load`, `reportedLoads_eq`: the loads of a cycle and their report as loads in order.
* **`loads_account_for_registers`**: what the report of a cycle says of the registers after it.
-/

namespace MicroEngine

/-- A register of the data path, or a word of the scratchpad. -/
inductive DataRegister
  | m
  | q
  | z
  | holding (index : Nat)
  | scratchpad (index : Nat)
  deriving DecidableEq

namespace DataRegister

/-- Whether the register is fitted; the microword can name a holding register that is not. -/
def isFitted : DataRegister → Bool
  | m | q | z | scratchpad _ => true
  | holding i => Registers.isFitted i

/-- The register alone, if it is asked for. -/
def asked (isAsked : Bool) (reg : DataRegister) : List DataRegister :=
  if isAsked then [reg] else []

theorem mem_asked {isAsked : Bool} {reg reg' : DataRegister} :
    reg' ∈ asked isAsked reg ↔ isAsked = true ∧ reg' = reg := by
  cases isAsked <;> simp [asked]

theorem map_filter_asked {α : Type} (isAsked : Bool) (reg : DataRegister) (f : DataRegister → α) :
    ((asked isAsked reg).filter isFitted).map f =
      if isAsked && reg.isFitted then [f reg] else [] := by
  cases isAsked <;> cases h : reg.isFitted <;> simp [asked, h]

/-- The report of a load of this register. -/
def reported : DataRegister → Word → RegisterLoad
  | m => .m
  | q => .q
  | z => .z
  | holding i => .holding i
  | scratchpad i => .scratchpad i

end DataRegister

namespace RegisterLoad

/-- The register that is loaded. -/
def register : RegisterLoad → DataRegister
  | m _ => .m
  | q _ => .q
  | z _ => .z
  | holding i _ => .holding i
  | scratchpad i _ => .scratchpad i

def value : RegisterLoad → Word
  | m v => v
  | q v => v
  | z v => v
  | holding _ v => v
  | scratchpad _ v => v

@[simp] theorem register_reported (reg : DataRegister) (v : Word) :
    (reg.reported v).register = reg := by
  cases reg <;> rfl

@[simp] theorem value_reported (reg : DataRegister) (v : Word) : (reg.reported v).value = v := by
  cases reg <;> rfl

end RegisterLoad

/-- What the data registers of an engine hold. -/
structure DataRegisters where
  m : Word
  q : Word
  z : Word
  holding : Vector Word 7
  scratchpad : Array Word
  deriving DecidableEq

/-- The data registers of a state. -/
def Registers.data (s : Registers) : DataRegisters := ⟨s.m, s.q, s.z, s.holding, s.scratchpad⟩

namespace DataRegisters

/-- What a register holds, if it is there. -/
def read? (d : DataRegisters) : DataRegister → Option Word
  | .m => some d.m
  | .q => some d.q
  | .z => some d.z
  | .holding i => d.holding[i]?
  | .scratchpad i => d.scratchpad[i]?

/-- What a register holds; one that is missing reads as zero. -/
def read (d : DataRegisters) (reg : DataRegister) : Word := (d.read? reg).getD 0

/-- The registers after a value is put into one of them, with all its bits. -/
def put (d : DataRegisters) (reg : DataRegister) (v : Word) : DataRegisters :=
  match reg with
  | .m => { d with m := v }
  | .q => { d with q := v }
  | .z => { d with z := v }
  | .holding i => { d with holding := d.holding.setIfInBounds i v }
  | .scratchpad i => { d with scratchpad := d.scratchpad.setIfInBounds i v }

variable (d : DataRegisters) (reg : DataRegister)

/-- **A register reads what was put into it**, if it is there. -/
theorem read?_put (reg' : DataRegister) (v : Word) :
    (d.put reg v).read? reg' =
      if reg = reg' then (d.read? reg).map fun _ => v else d.read? reg' := by
  cases reg with
  | m | q | z => cases reg' <;> rfl
  | holding i =>
    cases reg' with
    | holding j =>
      simp only [put, read?, Vector.getElem?_setIfInBounds, DataRegister.holding.injEq]
      by_cases hi : i < 7 <;> simp [hi]
    | _ => rfl
  | scratchpad i =>
    cases reg' with
    | scratchpad j =>
      simp only [put, read?, Array.getElem?_setIfInBounds, DataRegister.scratchpad.injEq]
      by_cases hi : i < d.scratchpad.size <;> simp [hi]
    | _ => rfl

/-- What is put into a missing register is lost. -/
theorem put_eq_self (h : d.read? reg = none) (v : Word) : d.put reg v = d := by
  cases reg with
  | m | q | z => cases h
  | holding i =>
    have hi : 7 ≤ i := Vector.getElem?_eq_none_iff.mp h
    rw [put, Vector.setIfInBounds_eq_of_size_le hi]
  | scratchpad i =>
    have hi : d.scratchpad.size ≤ i := Array.getElem?_eq_none_iff.mp h
    rw [put, Array.setIfInBounds_eq_of_size_le hi]

theorem put_read (v : Word) : d.put reg ((d.put reg v).read reg) = d.put reg v := by
  cases h : d.read? reg with
  | none => rw [put_eq_self d reg h, put_eq_self d reg h]
  | some w =>
    have hread : (d.put reg v).read reg = v := by
      rw [read, read?_put, if_pos rfl, h]
      rfl
    rw [hread]

/-- What is put into a register leaves the same registers there. -/
theorem isSome_read?_put (reg' : DataRegister) (v : Word) :
    ((d.put reg v).read? reg').isSome = (d.read? reg').isSome := by
  rw [read?_put]
  split
  · next h => rw [h, Option.isSome_map]
  · rfl

/-! ## Loads in order -/

/-- The registers after one of them is loaded with the bits of a value that it has. -/
def load (value : DataRegister → Word) (d : DataRegisters) (reg : DataRegister) : DataRegisters :=
  d.put reg (value reg).trim

/-- The registers after the values of reported loads are put into them, in order. -/
def replay (d : DataRegisters) (loads : List RegisterLoad) : DataRegisters :=
  loads.foldl (fun d l => d.put l.register l.value) d

/-- The registers are loaded in order, and each load of a register that is fitted is reported, with
what the register holds after it. -/
def loadEach (value : DataRegister → Word) :
    List DataRegister → DataRegisters → List RegisterLoad × DataRegisters
  | [], d => ([], d)
  | reg :: regs, d =>
    let (loads, d') := loadEach value regs (d.load value reg)
    (if reg.isFitted then reg.reported ((d.load value reg).read reg) :: loads else loads, d')

section Replay

variable {d : DataRegisters} {loads : List RegisterLoad}

/-- A register that no load names stays as it is. -/
theorem read?_replay {reg : DataRegister} (h : ∀ l ∈ loads, l.register ≠ reg) :
    (d.replay loads).read? reg = d.read? reg := by
  induction loads generalizing d with
  | nil => rfl
  | cons l loads ih =>
    have hrest := ih (d := d.put l.register l.value) fun l' hl' =>
      h l' (List.mem_cons_of_mem l hl')
    rw [read?_put, if_neg (h l List.mem_cons_self)] at hrest
    exact hrest

theorem isSome_read?_replay (d : DataRegisters) (loads : List RegisterLoad) (reg : DataRegister) :
    ((d.replay loads).read? reg).isSome = (d.read? reg).isSome := by
  induction loads generalizing d with
  | nil => rfl
  | cons l loads ih =>
    have hrest := ih (d.put l.register l.value)
    rw [isSome_read?_put] at hrest
    exact hrest

end Replay

section LoadEach

variable (value : DataRegister → Word) {regs : List DataRegister} {d : DataRegisters}
  {reg : DataRegister}

theorem read?_load (reg' : DataRegister) :
    (d.load value reg).read? reg' =
      if reg = reg' then (d.read? reg).map fun _ => (value reg).trim else d.read? reg' :=
  d.read?_put reg reg' (value reg).trim

/-- A register that holds what it would be loaded with, or is not loaded, stays as it is. -/
theorem read?_foldl_load
    (h : reg ∈ regs → (d.read? reg).map (fun _ => (value reg).trim) = d.read? reg) :
    (regs.foldl (load value) d).read? reg = d.read? reg := by
  induction regs generalizing d with
  | nil => rfl
  | cons first regs ih =>
    have hfirst : (d.load value first).read? reg = d.read? reg := by
      rw [read?_load]
      split
      · next heq =>
        subst heq
        exact h List.mem_cons_self
      · rfl
    rw [List.foldl_cons, ih, hfirst]
    intro hmem
    rw [hfirst]
    exact h (List.mem_cons_of_mem first hmem)

/-- **A load that is made later does not change what an earlier one has reported**: so each register
is reported with what it holds in the end. -/
theorem loadEach_eq : loadEach value regs d =
    ((regs.filter DataRegister.isFitted).map fun reg =>
      reg.reported ((regs.foldl (load value) d).read reg), regs.foldl (load value) d) := by
  induction regs generalizing d with
  | nil => rfl
  | cons first regs ih =>
    have hloaded : (d.load value first).read? first =
        (d.read? first).map fun _ => (value first).trim := by
      rw [read?_load, if_pos rfl]
    -- A later load of the same register puts the same value into it.
    have hkept : (regs.foldl (load value) (d.load value first)).read first =
        (d.load value first).read first := by
      unfold read
      rw [read?_foldl_load]
      intro _
      rw [hloaded, Option.map_map]
      rfl
    rw [loadEach, ih, List.foldl_cons]
    cases hf : first.isFitted with
    | false => simp [hf]
    | true => simp [hf, hkept]

/-- A load of a register that is not fitted does nothing. -/
theorem load_of_not_isFitted (h : reg.isFitted = false) : d.load value reg = d := by
  refine d.put_eq_self reg ?_ _
  cases reg with
  | holding i =>
    have hi : ¬ i < 7 := of_decide_eq_false h
    exact Vector.getElem?_eq_none_iff.mpr (Nat.le_of_not_lt hi)
  | _ => cases h

/-- **Writing the reported values in order has the effect of the loads.** -/
theorem replay_loadEach (regs : List DataRegister) (d : DataRegisters) :
    d.replay (loadEach value regs d).1 = (loadEach value regs d).2 := by
  induction regs generalizing d with
  | nil => rfl
  | cons first regs ih =>
    rw [loadEach]
    cases hf : first.isFitted with
    | true =>
      have hput : d.put first ((d.load value first).read first) = d.load value first :=
        d.put_read first _
      simp only [if_true, replay, List.foldl_cons, RegisterLoad.register_reported,
        RegisterLoad.value_reported, hput]
      exact ih (d.load value first)
    | false =>
      rw [load_of_not_isFitted value hf]
      exact ih d

/-- **Registers that are not fitted can be left out.** -/
theorem loadEach_filter_isFitted :
    loadEach value (regs.filter DataRegister.isFitted) d = loadEach value regs d := by
  induction regs generalizing d with
  | nil => rfl
  | cons first regs ih =>
    cases hf : first.isFitted with
    | true =>
      rw [List.filter_cons_of_pos hf, loadEach, loadEach, ih]
    | false =>
      rw [List.filter_cons_of_neg (by rw [hf]; decide), ih, loadEach, hf,
        load_of_not_isFitted value hf]
      rfl

end LoadEach

end DataRegisters

/-! ## The loads of a cycle -/

namespace Registers

open DataRegister (asked mem_asked map_filter_asked)

variable (s : Registers) (x y : Word)

/-- The registers that the microword loads, in order. R0 stands there twice if it is loaded both by
its own flag and by its number. -/
def targets : List DataRegister :=
  asked (s.latch.has .lr0) (.holding 0) ++
    asked s.loadsHolding (.holding s.latch.loadRegister) ++
    asked (s.latch.has .lspx) (.scratchpad s.selected) ++
    asked (s.latch.has .lmx || s.latch.has .lmy) .m ++
    asked (s.latch.has .lqx || s.latch.has .lqy) .q ++
    asked (s.latch.has .lzx || s.latch.has .lzy) .z

/-- What a register is loaded with. -/
def busFor : DataRegister → Word
  | .m => gate (s.latch.has .lmx) x ||| gate (s.latch.has .lmy) y
  | .q => gate (s.latch.has .lqx) x ||| gate (s.latch.has .lqy) y
  | .z => gate (s.latch.has .lzx) x ||| gate (s.latch.has .lzy) y
  | .holding _ => s.holdingBus x y
  | .scratchpad _ => x

theorem busFor_congr {t : Registers} (h : t.latch = s.latch) : t.busFor x y = s.busFor x y := by
  funext reg
  cases reg <;> simp [busFor, holdingBus, h]

theorem selected_lt : s.selected < scratchpadSize := by
  have hlow (v : UInt32) : (v &&& 0o77).toNat < 2 ^ 6 := by
    rw [UInt32.toNat_and]
    exact Nat.lt_of_le_of_lt Nat.and_le_right (by decide)
  unfold selected Microword.scratchpadIndex
  dsimp only
  rw [UInt32.toNat_or]
  refine Nat.or_lt_two_pow (n := 6) (hlow _) ?_
  split
  · exact hlow s.z
  · decide

theorem selected_loadHolding : (s.loadHolding x y).selected = s.selected := by
  unfold loadHolding
  split <;> split <;> rfl

theorem data_loadHolding : (s.loadHolding x y).data =
    (asked (s.latch.has .lr0) (.holding 0) ++
      asked s.loadsHolding (.holding s.latch.loadRegister)).foldl
      (DataRegisters.load (s.busFor x y)) s.data := by
  unfold loadHolding
  cases s.latch.has .lr0 <;> cases s.loadsHolding <;> rfl

theorem data_loadScratchpad : (s.loadScratchpad x).data =
    (asked (s.latch.has .lspx) (.scratchpad s.selected)).foldl
      (DataRegisters.load (s.busFor x y)) s.data := by
  unfold loadScratchpad setScratchpad
  rw [Nat.mod_eq_of_lt s.selected_lt]
  cases s.latch.has .lspx <;> rfl

theorem data_loadM : (s.loadM x y).data = (asked (s.latch.has .lmx || s.latch.has .lmy) .m).foldl
    (DataRegisters.load (s.busFor x y)) s.data := by
  unfold loadM
  cases s.latch.has .lmx || s.latch.has .lmy <;> rfl

theorem data_loadQ : (s.loadQ x y).data = (asked (s.latch.has .lqx || s.latch.has .lqy) .q).foldl
    (DataRegisters.load (s.busFor x y)) s.data := by
  unfold loadQ
  cases s.latch.has .lqx || s.latch.has .lqy <;> rfl

theorem data_loadZ : (s.loadZ x y).data = (asked (s.latch.has .lzx || s.latch.has .lzy) .z).foldl
    (DataRegisters.load (s.busFor x y)) s.data := by
  unfold loadZ
  cases s.latch.has .lzx || s.latch.has .lzy <;> rfl

/-- **The loads of a cycle are loads in order.** -/
theorem data_load : (s.load x y).data =
    s.targets.foldl (DataRegisters.load (s.busFor x y)) s.data := by
  -- Each part finds the microword that the parts before it have found, and the scratchpad part, which
  -- comes before that of Z, the same Z.
  have hH := latch_loadHolding s x y
  have hS := (latch_loadScratchpad _ x).trans hH
  have hM := (latch_loadM _ x y).trans hS
  have hQ := (latch_loadQ _ x y).trans hM
  rw [load, data_loadZ, data_loadQ, data_loadM, data_loadScratchpad (y := y), data_loadHolding,
    busFor_congr s x y hH, busFor_congr s x y hS, busFor_congr s x y hM, busFor_congr s x y hQ,
    hH, hS, hM, hQ, selected_loadHolding]
  simp only [targets, List.foldl_append]

/-- **The report of a cycle** names the registers that are loaded and fitted, in order, with what
they hold after the cycle. -/
theorem reportedLoads_eq (after : Registers) : s.reportedLoads after =
    (s.targets.filter DataRegister.isFitted).map fun reg => reg.reported (after.data.read reg) := by
  have hread : after.readScratchpad s.selected = after.data.read (.scratchpad s.selected) := by
    rw [readScratchpad, Nat.mod_eq_of_lt s.selected_lt]
    rfl
  have hr0 : isFitted 0 = true := rfl
  simp only [targets, List.filter_append, List.map_append, map_filter_asked,
    DataRegister.isFitted, hr0, Bool.and_true]
  unfold reportedLoads
  rw [hread]
  rfl

theorem eq_selected_of_mem_targets {i : Nat} (h : .scratchpad i ∈ s.targets) : i = s.selected := by
  have hi : s.latch.has .lspx = true ∧ i = s.selected := by
    simpa [targets, mem_asked] using h
  exact hi.2

/-- The registers that a microword loads are there, if they are fitted and no scratchpad word is
missing. -/
theorem isSome_read?_of_mem_targets {reg : DataRegister} (h : reg ∈ s.targets)
    (hf : reg.isFitted = true) (hsize : s.scratchpad.size = scratchpadSize) :
    (s.data.read? reg).isSome = true := by
  cases reg with
  | m | q | z => rfl
  | holding i =>
    have hi : i < 7 := of_decide_eq_true hf
    simp [DataRegisters.read?, hi]
  | scratchpad i =>
    have hlt := s.selected_lt
    rw [← hsize, ← s.eq_selected_of_mem_targets h] at hlt
    simp [DataRegisters.read?, data, hlt]

end Registers

/-! ## The report of a cycle -/

namespace Engine

section Step

variable {e e' : Engine} {r : CycleReport}

/-- **The loads of a cycle are made and reported in order**, if it commits them; otherwise there are
none. -/
theorem loads_of_step (h : e.step = .ok (r, e')) :
    if r.committed then
      DataRegisters.loadEach (e.registers.busFor r.x r.y) e.registers.targets e.registers.data =
        (r.loads, e'.registers.data)
    else r.loads = [] ∧ e'.registers.data = e.registers.data := by
  obtain ⟨sig, -, rfl, rfl⟩ := step_eq_ok_iff.mp h
  have hdata : (e.next sig).registers.data = (e.registers.dataPath sig).data := rfl
  have hafter : (e.registers.loaded sig).data = (e.registers.dataPath sig).data := by
    rw [Registers.loaded_eq_placed]
    rfl
  cases hc : e.registers.commits sig with
  | false =>
    have hpath : e.registers.dataPath sig = e.registers := by
      rw [Registers.dataPath, hc]
      rfl
    simp [report, hc, hdata, hpath]
  | true =>
    have hpath : e.registers.dataPath sig = e.registers.load sig.x sig.y := by
      rw [Registers.dataPath, hc]
      rfl
    simp only [report, hc, if_true]
    rw [DataRegisters.loadEach_eq, Registers.reportedLoads_eq, hafter, hdata, hpath,
      Registers.data_load]

/-- **Putting the reported values into the registers gives the registers after the cycle.** -/
theorem replay_of_step (h : e.step = .ok (r, e')) :
    e.registers.data.replay r.loads = e'.registers.data := by
  have hloads := loads_of_step h
  cases hc : r.committed with
  | true =>
    rw [hc, if_pos rfl] at hloads
    have hreplay := DataRegisters.replay_loadEach (e.registers.busFor r.x r.y) e.registers.targets
      e.registers.data
    rw [hloads] at hreplay
    exact hreplay
  | false =>
    rw [hc, if_neg Bool.false_ne_true] at hloads
    rw [hloads.1, hloads.2]
    rfl

/-- Each load that is reported is that of a register that the microword loads and that is fitted,
with what the register holds after the cycle. -/
theorem load_of_step (h : e.step = .ok (r, e')) {l : RegisterLoad} (hl : l ∈ r.loads) :
    l.register ∈ e.registers.targets ∧ l.register.isFitted = true ∧
      e'.registers.data.read l.register = l.value := by
  have hloads := loads_of_step h
  cases hc : r.committed with
  | true =>
    rw [hc, if_pos rfl, DataRegisters.loadEach_eq, Prod.mk.injEq] at hloads
    obtain ⟨hloads, hdata⟩ := hloads
    rw [← hloads] at hl
    obtain ⟨reg, hreg, rfl⟩ := List.mem_map.mp hl
    rw [RegisterLoad.register_reported, RegisterLoad.value_reported, hdata]
    exact ⟨(List.mem_filter.mp hreg).1, (List.mem_filter.mp hreg).2, rfl⟩
  | false =>
    rw [hc, if_neg Bool.false_ne_true] at hloads
    rw [hloads.1] at hl
    cases hl

end Step

/-- **The report of a cycle accounts for every data register.** If a cycle succeeds:

* putting the values of the reported loads, in order, into the data registers as they were before
  the cycle gives those after it;
* a cycle that does not commit its loads reports none and changes none of these registers;
* one that does has made the loads that the microword asks for, in order, and has reported each with
  what its register held right after it; loads of a register that is not fitted, as R7 is not, are
  not reported, and without them the cycle is the same;
* a register that no load names is as before;
* the value of each load is what its register holds after the cycle. -/
theorem loads_account_for_registers {e e' : Engine} {r : CycleReport} (h : e.step = .ok (r, e')) :
    e.registers.data.replay r.loads = e'.registers.data ∧
    (r.committed = false → r.loads = [] ∧ e'.registers.data = e.registers.data) ∧
    (r.committed = true →
      DataRegisters.loadEach (e.registers.busFor r.x r.y) e.registers.targets e.registers.data =
        (r.loads, e'.registers.data) ∧
      DataRegisters.loadEach (e.registers.busFor r.x r.y)
        (e.registers.targets.filter DataRegister.isFitted) e.registers.data =
        (r.loads, e'.registers.data)) ∧
    (∀ l ∈ r.loads, l.register.isFitted = true) ∧
    (∀ reg, (∀ l ∈ r.loads, l.register ≠ reg) →
      e'.registers.data.read? reg = e.registers.data.read? reg) ∧
    (e.registers.WellFormed → ∀ l ∈ r.loads,
      e'.registers.data.read? l.register = some l.value) := by
  have hloads := loads_of_step h
  have hreplay := replay_of_step h
  refine ⟨hreplay, fun hc => ?_, fun hc => ?_, fun l hl => (load_of_step h hl).2.1,
    fun reg hreg => ?_, fun hwell l hl => ?_⟩
  · rwa [hc, if_neg Bool.false_ne_true] at hloads
  · rw [hc, if_pos rfl] at hloads
    exact ⟨hloads, (DataRegisters.loadEach_filter_isFitted _).trans hloads⟩
  · rw [← hreplay, DataRegisters.read?_replay hreg]
  · obtain ⟨htarget, hfitted, hvalue⟩ := load_of_step h hl
    have hthere := Registers.isSome_read?_of_mem_targets _ htarget hfitted hwell.scratchpad_size
    rw [← DataRegisters.isSome_read?_replay _ r.loads, hreplay] at hthere
    obtain ⟨v, hv⟩ := Option.isSome_iff_exists.mp hthere
    rw [DataRegisters.read, hv] at hvalue
    rw [hv, ← hvalue]
    rfl

/-- R0 is loaded twice, the scratchpad word is found with Z while Z is loaded; and a load of R7 is
dropped. -/
theorem loads_account_for_registers_overlapping :
    (let w := Microword.ofBits [39, 41, 43, 47, 58, 59, 62, 64, 65, 72, 76]
     let e : Engine := ⟨{ Registers.zero with z := 0o11, latch := w }, .empty, 0⟩
     ∃ r e', e.step = .ok (r, e') ∧
      r.loads = [.holding 0 5, .holding 0 5, .scratchpad 0o11 5, .m 5, .z 5] ∧
      e.registers.data.replay r.loads = e'.registers.data ∧
      (∀ l ∈ r.loads, e'.registers.data.read? l.register = some l.value) ∧
      e'.registers.data.read? .q = e.registers.data.read? .q) ∧
    let w := Microword.ofBits [39, 41, 43, 47, 69, 70, 71]
    let e : Engine := ⟨{ Registers.zero with latch := w }, .empty, 0⟩
    ∃ r e', e.step = .ok (r, e') ∧ r.committed = true ∧ r.loads = [] ∧
      ∀ reg, e'.registers.data.read? reg = e.registers.data.read? reg := by
  constructor
  · intro w e
    have hcomponents : w.components = [0, 0o5210003, 0o1300420000] := by decide +kernel
    have hwell : e.registers.WellFormed := {
      Registers.wellFormed_zero with
      z_lt := by decide
      latch_lt := by
        change ∀ v ∈ w.components, v.toNat < 0o10000000000
        rw [hcomponents]
        simp }
    have hsaid : e.step.toOption.map (fun p => p.1.loads) =
        some [.holding 0 5, .holding 0 5, .scratchpad 0o11 5, .m 5, .z 5] := by
      decide +kernel
    obtain ⟨⟨r, e'⟩, hstep, hloads⟩ := exists_eq_ok_of_toOption_map hsaid
    obtain ⟨hreplay, -, -, -, hunnamed, hvalue⟩ := loads_account_for_registers hstep
    refine ⟨r, e', hstep, hloads, hreplay, hvalue hwell, hunnamed .q ?_⟩
    rw [show r.loads = _ from hloads]
    decide
  · intro w e
    have hsaid : e.step.toOption.map (fun p => (p.1.committed, p.1.loads)) =
        some (true, []) := by
      decide +kernel
    obtain ⟨⟨r, e'⟩, hstep, hsaid⟩ := exists_eq_ok_of_toOption_map hsaid
    obtain ⟨hcommitted, hloads⟩ := Prod.mk.inj hsaid
    obtain ⟨-, -, -, -, hunnamed, -⟩ := loads_account_for_registers hstep
    refine ⟨r, e', hstep, hcommitted, hloads, fun reg => hunnamed reg fun l hl => ?_⟩
    have hnone : l ∈ ([] : List RegisterLoad) := hloads ▸ hl
    cases hnone

end Engine

end MicroEngine
