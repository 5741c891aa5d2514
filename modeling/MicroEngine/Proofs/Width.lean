import MicroEngine.ControlStore
/-!
# Widths

A micro address has 11 bits, a machine word 24, a component of a microword 30. Masks cut to a width,
and the operations that put values together from narrow parts stay within it.

* `Address.and_mask_of_lt`: an address within the store is left alone by the mask.
* `Address.within_lt`: a bank bit and an address within the bank make an address of the store.
* `Address.succ`: the address after another one in its bank; `succ_ne`: it is at another place of it.
* `Component.or_lt`: components of 30 bits merged.
* `Microword.Fits`: a microword of 30 bits in each component.
* `ControlStore.wellFormed_iff_fits`: a store is well formed if every address reads such a microword;
  `ControlStore.wellFormed_write`: it stays so when one is written.
-/

namespace MicroEngine

namespace Address

theorem toNat_and_mask (a : Address) : (a &&& mask).toNat = a.toNat % 0o4000 := by
  simp only [mask, UInt16.toNat_and]
  exact Nat.and_two_pow_sub_one_eq_mod a.toNat 11

theorem toNat_and_offsetMask (a : Address) : (a &&& offsetMask).toNat = a.toNat % 0o2000 := by
  simp only [offsetMask, UInt16.toNat_and]
  exact Nat.and_two_pow_sub_one_eq_mod a.toNat 10

theorem toNat_ofNat {i : Nat} (h : i < 2048) : i.toUInt16.toNat = i := by
  rw [Nat.toUInt16, UInt16.toNat_ofNat']
  omega

theorem and_mask_of_lt {a : Address} (h : a.toNat < 0o4000) : a &&& mask = a := by
  apply UInt16.toNat_inj.mp
  rw [toNat_and_mask, Nat.mod_eq_of_lt h]

theorem and_lt (a : Address) {b : Address} (hb : b.toNat < 0o4000) : (a &&& b).toNat < 0o4000 := by
  rw [UInt16.toNat_and]
  exact Nat.lt_of_le_of_lt Nat.and_le_right hb

theorem or_lt {a b : Address} (ha : a.toNat < 0o4000) (hb : b.toNat < 0o4000) :
    (a ||| b).toNat < 0o4000 := by
  rw [UInt16.toNat_or]
  exact Nat.or_lt_two_pow (n := 11) ha hb

theorem or_and_distrib (a b c : Address) : (a ||| b) &&& c = (a &&& c) ||| (b &&& c) := by
  apply UInt16.toNat_inj.mp
  simp only [UInt16.toNat_and, UInt16.toNat_or, Nat.and_or_distrib_right]

/-- **A bank bit and an address within the bank make an address of the store.** -/
theorem within_lt (bank offset : Address) :
    ((bank &&& bankBit) ||| (offset &&& offsetMask)).toNat < 0o4000 :=
  or_lt (and_lt bank (by decide)) (and_lt offset (by decide))

/-- The address after this one in its bank; the end of a bank is followed by its beginning. -/
def succ (a : Address) : Address := (a &&& bankBit) ||| ((a + 1) &&& offsetMask)

theorem succ_and_mask (a : Address) : a.succ &&& mask = a.succ :=
  and_mask_of_lt (within_lt a (a + 1))

/-- The place within the bank moves on by one. -/
theorem succ_and_offsetMask (a : Address) : a.succ &&& offsetMask = (a + 1) &&& offsetMask := by
  have hbank : bankBit &&& offsetMask = 0 := rfl
  rw [succ, or_and_distrib, UInt16.and_assoc, UInt16.and_assoc, hbank, UInt16.and_self,
    UInt16.and_zero, UInt16.zero_or]

/-- **The address after another one is at another place of the bank**, whichever bank that is. -/
theorem succ_ne {a b : Address} (h : a &&& offsetMask = b &&& offsetMask) : a.succ ≠ b := by
  rintro rfl
  have hplace := congrArg UInt16.toNat (h.trans (succ_and_offsetMask a))
  rw [toNat_and_offsetMask, toNat_and_offsetMask, UInt16.toNat_add] at hplace
  have hone : (1 : UInt16).toNat = 1 := rfl
  omega

end Address

namespace Component

theorem or_lt {v w : UInt32} (hv : v.toNat < 0o10000000000) (hw : w.toNat < 0o10000000000) :
    (v ||| w).toNat < 0o10000000000 := by
  rw [UInt32.toNat_or]
  exact Nat.or_lt_two_pow (n := 30) hv hw

end Component

/-- Each component has 30 bits. -/
def Microword.Fits (w : Microword) : Prop := ∀ c, (w.component c).toNat < 0o10000000000

theorem Microword.fits_iff {w : Microword} :
    w.Fits ↔ ∀ v ∈ w.components, v.toNat < 0o10000000000 := by
  unfold Fits components
  constructor
  · intro h
    simpa using ⟨h .high, h .middle, h .low⟩
  · intro h c
    cases c <;> exact h _ (by simp [component])

theorem Microword.fits_nop : nop.Fits := by
  intro c
  cases c <;> decide

theorem Microword.fits_setComponent {w : Microword} (h : w.Fits) (c : Component) {v : UInt32}
    (hv : v.toNat < 0o10000000000) : (w.setComponent c v).Fits := by
  intro d
  rw [component_setComponent]
  split
  · exact hv
  · exact h d

namespace ControlStore

theorem read_ofNat (r : ControlStore) {i : Nat} (h : i < 2048) :
    r.read i.toUInt16 = r.words[i] := by
  have hslot : (slot i.toUInt16).val = i := by
    rw [slot, Fin.val_ofNat, Address.toNat_ofNat h, Nat.mod_eq_of_lt h]
  simp only [read_eq_getElem, Fin.getElem_fin, hslot]

theorem wellFormed_iff_fits {r : ControlStore} : r.WellFormed ↔ ∀ a, (r.read a).Fits := by
  constructor
  · intro h a
    exact Microword.fits_iff.mpr (h _ (Vector.getElem_mem (slot a).isLt))
  · intro h w hw
    obtain ⟨i, hi, rfl⟩ := Vector.mem_iff_getElem.mp hw
    rw [← read_ofNat r hi]
    exact Microword.fits_iff.mp (h _)

theorem wellFormed_empty : empty.WellFormed := by
  rw [wellFormed_iff_fits]
  intro a
  rw [read_empty]
  exact Microword.fits_nop

theorem wellFormed_write {r : ControlStore} (h : r.WellFormed) (a : Address) {w : Microword}
    (hw : w.Fits) : (r.write a w).WellFormed := by
  rw [wellFormed_iff_fits] at h ⊢
  intro b
  rw [read_write]
  split
  · exact hw
  · exact h b

end ControlStore

end MicroEngine
