import MicroEngine.Diagnostic
import MicroEngine.Proofs.Engine.Cycle
import MicroEngine.Proofs.Image.RoundTrip
import MicroEngine.Proofs.Microword.Bits
/-!
# The widths of an engine are kept

A register is written by its setter, by a move of the micro address or by the end of a microcycle.
Each of these cuts what it writes to the width of the register, and a microword that is made in any
of the regular ways has 30 bits in each component; so no change of an engine leaves its widths.

* `Microword.Made`: the ways to make a microword, `Made.fits`.
* `Registers.Change`, `ControlStore.Change`, `Engine.Change`: the changes of an engine.
* `Registers.wellFormed_finish`: the end of a microcycle keeps the widths of the registers.
* **`Engine.WellFormed.change`**: a change keeps a well-formed engine well formed.
-/

namespace MicroEngine

/-! ## Microwords -/

namespace Microword

/-- The microwords that can be made: by cutting components to their width, from bit numbers, field
by field, and by reading an image. -/
inductive Made : Microword → Prop
  | trim (w : Microword) : Made w.trim
  | ofBits (bits : List Nat) : Made (ofBits bits)
  | build (steps : List BuildStep) : Made (build steps)
  | parsed {text : String} {r : ControlStore} (h : Image.parse text = .ok r) (a : Address) :
    Made (r.read a)

/-- **Every microword that can be made has 30 bits in each component.** -/
theorem Made.fits {w : Microword} (h : w.Made) : w.Fits := by
  cases h with
  | trim w => exact component_trim_lt w
  | ofBits bits => exact fits_ofBits bits
  | build steps => exact component_trim_lt _
  | parsed h a => exact ControlStore.wellFormed_iff_fits.mp (Image.wellFormed_of_parse h) a

end Microword

/-! ## Registers -/

namespace Registers

section Setters

variable {s : Registers} (h : s.WellFormed)

include h

theorem wellFormed_setAddress (a : Address) : (s.setAddress a).WellFormed :=
  { h with address_lt := Address.and_lt a (by decide) }

theorem wellFormed_setSaved (a : Address) : (s.setSaved a).WellFormed :=
  { h with saved_lt := Address.and_lt a (by decide) }

theorem wellFormed_loadOffset (offset : Address) : (s.loadOffset offset).WellFormed :=
  { h with address_lt := Address.within_lt s.address offset }

theorem wellFormed_advance : s.advance.WellFormed := wellFormed_loadOffset h (s.address + 1)

/-- To select bank B merges its bit in and cuts nothing: the address stays within the store because
it was there before. -/
theorem wellFormed_selectBank (bank : Bank) : (s.selectBank bank).WellFormed := by
  cases bank with
  | a => exact { h with address_lt := Address.and_lt s.address (by decide) }
  | b => exact { h with address_lt := Address.or_lt h.address_lt (by decide) }

theorem wellFormed_jump (how : JumpMode) (target : Address) (x : Word) :
    (s.jump how target x).WellFormed := by
  cases how with
  | jump => exact wellFormed_loadOffset h target
  | call => exact wellFormed_loadOffset (wellFormed_setSaved h s.address) target
  | ret => exact wellFormed_setAddress h s.saved
  | indirect => exact wellFormed_setAddress h _

theorem wellFormed_setM (v : Word) : (s.setM v).WellFormed :=
  { h with m_lt := Word.toNat_trim_lt v }

theorem wellFormed_setQ (v : Word) : (s.setQ v).WellFormed :=
  { h with q_lt := Word.toNat_trim_lt v }

theorem wellFormed_setZ (v : Word) : (s.setZ v).WellFormed :=
  { h with z_lt := Word.toNat_trim_lt v }

theorem wellFormed_setHolding (i : Nat) (v : Word) : (s.setHolding i v).WellFormed := by
  refine { h with holding_lt := fun w hw => ?_ }
  rw [setHolding, ← Vector.mem_toArray_iff, Vector.toArray_setIfInBounds] at hw
  rcases Array.mem_or_eq_of_mem_setIfInBounds hw with hw | rfl
  · exact h.holding_lt w ((Vector.mem_toArray_iff w s.holding).mp hw)
  · exact Word.toNat_trim_lt v

theorem wellFormed_setScratchpad (i : Nat) (v : Word) : (s.setScratchpad i v).WellFormed := by
  refine { h with scratchpad_size := ?_, scratchpad_lt := fun w hw => ?_ }
  · exact Array.size_setIfInBounds.trans h.scratchpad_size
  · rcases Array.mem_or_eq_of_mem_setIfInBounds hw with hw | rfl
    · exact h.scratchpad_lt w hw
    · exact Word.toNat_trim_lt v

theorem wellFormed_setLatch {w : Microword} (hw : w.Fits) : (s.setLatch w).WellFormed :=
  { h with latch_lt := Microword.fits_iff.mp hw }

theorem wellFormed_setStage (stage : Stage) : (s.setStage stage).WellFormed := { h with }

end Setters

/-- A change of the registers by one of their operations. -/
inductive Change (s : Registers) : Registers → Prop
  | setAddress (a : Address) : Change s (s.setAddress a)
  | setSaved (a : Address) : Change s (s.setSaved a)
  | loadOffset (offset : Address) : Change s (s.loadOffset offset)
  | advance : Change s s.advance
  | selectBank (bank : Bank) : Change s (s.selectBank bank)
  | jump (how : JumpMode) (target : Address) (x : Word) : Change s (s.jump how target x)
  | setM (v : Word) : Change s (s.setM v)
  | setQ (v : Word) : Change s (s.setQ v)
  | setZ (v : Word) : Change s (s.setZ v)
  | setHolding (i : Nat) (v : Word) : Change s (s.setHolding i v)
  | setScratchpad (i : Nat) (v : Word) : Change s (s.setScratchpad i v)
  | setLatch {w : Microword} (hw : w.Made) : Change s (s.setLatch w)
  | setStage (stage : Stage) : Change s (s.setStage stage)
  | reset : Change s zero

/-- **A change of the registers keeps their widths.** -/
theorem WellFormed.change {s s' : Registers} (h : s.WellFormed) (hs : s.Change s') :
    s'.WellFormed := by
  cases hs with
  | setAddress a => exact wellFormed_setAddress h a
  | setSaved a => exact wellFormed_setSaved h a
  | loadOffset offset => exact wellFormed_loadOffset h offset
  | advance => exact wellFormed_advance h
  | selectBank bank => exact wellFormed_selectBank h bank
  | jump how target x => exact wellFormed_jump h how target x
  | setM v => exact wellFormed_setM h v
  | setQ v => exact wellFormed_setQ h v
  | setZ v => exact wellFormed_setZ h v
  | setHolding i v => exact wellFormed_setHolding h i v
  | setScratchpad i v => exact wellFormed_setScratchpad h i v
  | setLatch hw => exact wellFormed_setLatch h hw.fits
  | setStage stage => exact wellFormed_setStage h stage
  | reset => exact wellFormed_zero

/-! ## The end of a microcycle -/

/-- The loads of a cycle are writes by setters, each made or left out. -/
theorem wellFormed_load {s : Registers} (h : s.WellFormed) (x y : Word) :
    (s.load x y).WellFormed := by
  have hset (c : Bool) {t t' : Registers} (ht : t.WellFormed) (ht' : t'.WellFormed) :
      (if c then t' else t).WellFormed := by
    cases c
    · exact ht
    · exact ht'
  -- The loads are gone through in their order, as each starts from what the ones before it left.
  have hH : (s.loadHolding x y).WellFormed := by
    have h0 := hset (s.latch.has .lr0) h (wellFormed_setHolding h 0 (s.holdingBus x y))
    exact hset _ h0 (wellFormed_setHolding h0 _ _)
  have hS : ((s.loadHolding x y).loadScratchpad x).WellFormed :=
    hset _ hH (wellFormed_setScratchpad hH _ _)
  have hM : (((s.loadHolding x y).loadScratchpad x).loadM x y).WellFormed :=
    hset _ hS (wellFormed_setM hS _)
  have hQ : ((((s.loadHolding x y).loadScratchpad x).loadM x y).loadQ x y).WellFormed :=
    hset _ hM (wellFormed_setQ hM _)
  exact hset _ hQ (wellFormed_setZ hQ _)

/-- **The end of a microcycle keeps the widths of the registers**, if the microwords that can be
fetched have theirs. -/
theorem wellFormed_finish {s : Registers} (h : s.WellFormed) (sig : Signals)
    {fetched : Address → Microword} (hf : ∀ a, (fetched a).Fits) :
    (s.finish sig fetched).WellFormed := by
  have heffect : (s.withEffect sig.effect).WellFormed := by
    cases sig.effect with
    | selectBank bank => exact wellFormed_selectBank h bank
    | _ => exact h
  have hloaded : (s.loaded sig).WellFormed := by
    unfold loaded
    dsimp only
    split
    · exact wellFormed_load heffect _ _
    · exact heffect
  have hmove {t : Registers} (ht : t.WellFormed) (move : AddressMove) :
      (t.moveAddress s.latch sig.x move).WellFormed := by
    cases move with
    | hold => exact ht
    | increment => exact wellFormed_advance ht
    | jump => exact wellFormed_jump ht _ _ _
  unfold finish
  dsimp only
  apply hmove
  split
  · exact wellFormed_setLatch (wellFormed_setStage hloaded _) (hf _)
  · exact wellFormed_setStage hloaded _

end Registers

/-! ## The control store -/

namespace ControlStore

/-- The store after it was given an image: the image, if it is complete, or what was there. -/
def loadImage (r : ControlStore) (image : List Microword) : ControlStore :=
  match ofList image with
  | .ok r' => r'
  | .error _ => r

/-- A change of a control store by one of its operations. -/
inductive Change (r : ControlStore) : ControlStore → Prop
  | write (a : Address) {w : Microword} (hw : w.Made) : Change r (r.write a w)
  | clear : Change r empty
  | loadImage {image : List Microword} (h : ∀ w ∈ image, w.Made) : Change r (r.loadImage image)
  | loadDiagnostic : Change r Diagnostic.store

theorem wellFormed_loadImage {r : ControlStore} (h : r.WellFormed) {image : List Microword}
    (himage : ∀ w ∈ image, w.Fits) : (r.loadImage image).WellFormed := by
  unfold loadImage
  by_cases hlength : image.length = 2048
  · obtain ⟨r', hr', -, hwell⟩ := Image.exists_store hlength himage
    rw [hr']
    exact hwell
  · have hrejected : ofList image = .error (.entries image.length) := by
      unfold ofList
      rw [dif_neg hlength]
    rw [hrejected]
    exact h

theorem wellFormed_diagnostic : Diagnostic.store.WellFormed := by
  have hprogram : ∀ e ∈ Diagnostic.program, ∀ v ∈ e.2.components, v.toNat < 0o10000000000 := by
    simp [Diagnostic.program, Microword.components]
  have hwrite (es : List (Address × Microword)) (hes : ∀ e ∈ es, e.2.Fits) (r : ControlStore)
      (hr : r.WellFormed) : (r.writeAll es).WellFormed := by
    induction es generalizing r with
    | nil => exact hr
    | cons e es ih =>
      obtain ⟨he, hes⟩ := List.forall_mem_cons.mp hes
      exact ih hes _ (wellFormed_write hr e.1 he)
  exact hwrite _ (fun e he => Microword.fits_iff.mpr (hprogram e he)) _ wellFormed_empty

/-- **A change of a control store keeps its widths.** -/
theorem WellFormed.change {r r' : ControlStore} (h : r.WellFormed) (hr : r.Change r') :
    r'.WellFormed := by
  cases hr with
  | write a hw => exact wellFormed_write h a hw.fits
  | clear => exact wellFormed_empty
  | loadImage himage => exact wellFormed_loadImage h fun w hw => (himage w hw).fits
  | loadDiagnostic => exact wellFormed_diagnostic

end ControlStore

/-! ## Engines -/

namespace Engine

/-- The registers and the entries of the control store, 2048 of them, have their widths. -/
structure WellFormed (e : Engine) : Prop where
  registers : e.registers.WellFormed
  store : e.store.WellFormed
  store_length : e.store.toList.length = 2048

/-- The engine after an attempt at a microcycle. -/
def attempt (e : Engine) : Engine :=
  match e.step with
  | .ok (_, e') => e'
  | .error _ => e

/-- A change of an engine by one of its operations or one of its parts'. -/
inductive Change (e : Engine) : Engine → Prop
  | registers {s : Registers} (h : e.registers.Change s) : Change e { e with registers := s }
  | store {r : ControlStore} (h : e.store.Change r) : Change e { e with store := r }
  | prime : Change e e.prime
  | reset : Change e e.reset
  | attempt : Change e e.attempt

theorem WellFormed.of_parts {s : Registers} {r : ControlStore} (hs : s.WellFormed)
    (hr : r.WellFormed) (cycles : Nat) : WellFormed ⟨s, r, cycles⟩ :=
  ⟨hs, hr, r.length_toList⟩

theorem wellFormed_fresh : fresh.WellFormed :=
  .of_parts Registers.wellFormed_zero ControlStore.wellFormed_empty 0

section Operations

variable {e : Engine} (h : e.WellFormed)

include h

theorem wellFormed_reset : e.reset.WellFormed :=
  .of_parts Registers.wellFormed_zero h.store 0

theorem wellFormed_prime : e.prime.WellFormed := by
  have hlatch := ControlStore.wellFormed_iff_fits.mp h.store e.registers.address
  exact .of_parts (Registers.wellFormed_advance (Registers.wellFormed_setLatch h.registers hlatch))
    h.store e.cycles

/-- **A successful microcycle keeps the widths of an engine.** -/
theorem wellFormed_of_step {e' : Engine} {r : CycleReport} (hstep : e.step = .ok (r, e')) :
    e'.WellFormed := by
  obtain ⟨sig, -, -, rfl⟩ := step_eq_ok_iff.mp hstep
  have hfinish := Registers.wellFormed_finish h.registers sig
    (ControlStore.wellFormed_iff_fits.mp h.store)
  rw [Registers.finish_eq] at hfinish
  exact .of_parts hfinish h.store _

theorem wellFormed_attempt : e.attempt.WellFormed := by
  unfold attempt
  split
  · next hstep => exact wellFormed_of_step h hstep
  · exact h

end Operations

/-- **A change keeps a well-formed engine well formed.** -/
theorem WellFormed.change {e e' : Engine} (h : e.WellFormed) (he : e.Change e') :
    e'.WellFormed := by
  cases he with
  | registers hs => exact .of_parts (h.registers.change hs) h.store _
  | store hr => exact .of_parts h.registers (h.store.change hr) _
  | prime => exact wellFormed_prime h
  | reset => exact wellFormed_reset h
  | attempt => exact wellFormed_attempt h

end Engine

end MicroEngine
