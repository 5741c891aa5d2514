import Mathlib.Logic.Function.Iterate
import MicroEngine.Diagnostic
import MicroEngine.Proofs.Engine.Timing
import MicroEngine.Proofs.Width
/-!
# A pass of the diagnostic

The eight microwords of the diagnostic are blocks of one or two cycles. Put together they make a pass
of twelve cycles, from the start of the microword at 0 to its next start.

* `Engine.Reaches`: so many cycles lead from one engine to another.
* `Registers.poised`: a state in which a microword is to start.
* `reaches_settled`, `reaches_deferred`, `reaches_jumping`, `reaches_stretched`: the four kinds of
  blocks.
* `reaches_idle`: an engine with an empty control store.
* `Diagnostic.pass`: what a pass makes of the data registers, **`reaches_pass`**.
* `Diagnostic.Counted`: the data registers after so many passes, `Counted.pass`.
-/

namespace MicroEngine

namespace Microword

theorem has_eq_mem_flags (w : Microword) (f : Flag) : w.has f = decide (f ∈ w.flags) := by
  simp [flags, f.mem_all]

/-- The microword loads no register. -/
def LoadsNothing (w : Microword) : Prop :=
  ∀ f ∈ [Flag.lr0, .txw, .tyw, .lspx, .lmx, .lmy, .lqx, .lqy, .lzx, .lzy], w.has f = false

instance (w : Microword) : Decidable w.LoadsNothing := inferInstanceAs (Decidable (∀ _ ∈ _, _))

end Microword

namespace Registers

/-- The state in which the microword `w` is to start, with the micro address at `o`. -/
def poised (s : Registers) (w : Microword) (o os : Address) : Registers :=
  (s.setLatch w).placed o os .normal

section Poised

variable (s : Registers) (w : Microword) (o os : Address) (i : Nat) (v : Word)

@[simp] theorem latch_poised : (s.poised w o os).latch = w := rfl

@[simp] theorem readHolding_poised : (s.poised w o os).readHolding i = s.readHolding i := rfl

@[simp] theorem readScratchpad_poised :
    (s.poised w o os).readScratchpad i = s.readScratchpad i := rfl

@[simp] theorem setQ_poised : (s.poised w o os).setQ v = (s.setQ v).poised w o os := rfl

@[simp] theorem setZ_poised : (s.poised w o os).setZ v = (s.setZ v).poised w o os := rfl

@[simp] theorem setHolding_poised :
    (s.poised w o os).setHolding i v = (s.setHolding i v).poised w o os := rfl

@[simp] theorem setScratchpad_poised :
    (s.poised w o os).setScratchpad i v = (s.setScratchpad i v).poised w o os := rfl

end Poised

section Jump

variable (s : Registers) (w : Microword) (o os target : Address) (x : Word)

theorem jump_poised : (s.poised w o os).jump .jump target x =
    s.poised w ((o &&& Address.bankBit) ||| (target &&& Address.offsetMask)) os := rfl

theorem call_poised : (s.poised w o os).jump .call target x =
    s.poised w ((o &&& Address.bankBit) ||| (target &&& Address.offsetMask))
      (o &&& Address.mask) := rfl

theorem return_poised : (s.poised w o os).jump .ret target x =
    s.poised w (os &&& Address.mask) os := rfl

end Jump

theorem load_poised {w : Microword} (h : w.LoadsNothing) (s : Registers) (o os : Address)
    (x y : Word) : (s.poised w o os).load x y = s.poised w o os := by
  simp only [Microword.LoadsNothing, List.forall_mem_cons, List.not_mem_nil, false_implies,
    implies_true, and_true] at h
  simp [load, loadHolding, loadsHolding, loadScratchpad, loadM, loadQ, loadZ, h]

/-- Without a special function the X bus carries the constant and the sum. -/
theorem xBus_idle (s : Registers) :
    s.xBus .idle = gate (s.latch.has .tcx) s.latch.constant ||| gate (s.latch.has .tax) s.adder :=
  rfl

/-- A microword without SKZ selects a fixed scratchpad word. -/
theorem selected_poised {w : Microword} {f : SpecialFunction}
    (hf : SpecialFunction.ofCode? w.special = some f) (hne : f ≠ .skz) (s : Registers)
    (o os : Address) : (s.poised w o os).selected = w.scratchpadSelect.toNat := by
  have hspecial : ¬ w.special = Microword.skzCode := by
    intro h
    rw [h] at hf
    cases hf
    exact hne rfl
  simp [selected, Microword.scratchpadIndex, hspecial]

end Registers

namespace Engine

/-- So many cycles lead from the engine `e` to the engine `e'`. -/
def Reaches (e : Engine) (n : Nat) (e' : Engine) : Prop := ∃ rs, e.run n = .ok (rs, e')

theorem Reaches.refl (e : Engine) : e.Reaches 0 e := ⟨[], rfl⟩

theorem Reaches.trans {e e' e'' : Engine} {a b : Nat} (h : e.Reaches a e')
    (h' : e'.Reaches b e'') : e.Reaches (a + b) e'' := by
  obtain ⟨rs, hr⟩ := h
  obtain ⟨rs', hr'⟩ := h'
  exact ⟨rs ++ rs', run_add_eq_ok_iff.mpr ⟨e', rs, rs', hr, hr', rfl⟩⟩

theorem Passes.reaches {e e' : Engine} {ps : List Pass} (h : e.Passes ps e') :
    e.Reaches ps.length e' := by
  obtain ⟨rs, hr, -⟩ := h
  exact ⟨rs, hr⟩

/-! ## Blocks -/

section Blocks

variable (s : Registers) {w : Microword} (o os : Address) (r : ControlStore) (n : Nat)
  (hf : SpecialFunction.ofCode? w.special = some .idle)

include hf

/-- A microword that does not branch takes one cycle. -/
theorem reaches_settled (hc : BranchCondition.ofCode? w.condition = some .never)
    (hv : w.has .vcy = false) :
    let t := s.poised w o os
    Reaches ⟨t, r, n⟩ 1
      ⟨(t.load (t.xBus .idle) t.yBus).poised (r.read o) o.succ os, r, n + 1⟩ :=
  (passes_settled (e := ⟨s.poised w o os, r, n⟩) rfl hf hc hv (.inl rfl)).reaches

/-- It takes two if it is stretched. -/
theorem reaches_stretched (hc : BranchCondition.ofCode? w.condition = some .never)
    (hv : w.has .vcy = true) :
    let t := s.poised w o os
    Reaches ⟨t, r, n⟩ 2
      ⟨(t.load (t.xBus .idle) t.yBus).poised (r.read o) o.succ os, r, n + 2⟩ :=
  (passes_stretched (e := ⟨s.poised w o os, r, n⟩) rfl hf hc hv rfl).reaches

section Jumps

variable {s o os} {a b : Address}
  (hj : (s.poised w o os).jump w.sequence w.target ((s.poised w o os).xBus .idle) = s.poised w a b)

include hj

/-- A deferred jump takes one cycle and fetches before it leaves. -/
theorem reaches_deferred (hc : BranchCondition.ofCode? w.condition = some .always)
    (hv : w.has .vcy = false) (hd : w.has .dgo = true) (hl : w.LoadsNothing) :
    Reaches ⟨s.poised w o os, r, n⟩ 1 ⟨s.poised (r.read o) a b, r, n + 1⟩ := by
  have h := (passes_settled (e := ⟨s.poised w o os, r, n⟩) rfl hf hc hv (.inr hd)).reaches
  have ht : Registers.jumped (s.poised w o os) .idle = s.poised w a b := hj
  rw [Registers.load_poised hl, ht] at h
  exact h

/-- A jump that is taken at once takes two cycles. -/
theorem reaches_jumping (hc : BranchCondition.ofCode? w.condition = some .always)
    (hv : w.has .vcy = false) (hd : w.has .dgo = false) (hl : w.LoadsNothing) :
    Reaches ⟨s.poised w o os, r, n⟩ 2 ⟨s.poised (r.read a) a.succ b, r, n + 2⟩ := by
  have h := (passes_jumping (e := ⟨s.poised w o os, r, n⟩) rfl hf hc hv rfl hd).reaches
  have ht : Registers.jumped (s.poised w o os) .idle = s.poised w a b := hj
  rw [Registers.load_poised hl, ht] at h
  exact h

end Jumps

end Blocks

/-- An engine with an empty control store only advances. -/
theorem reaches_idle (s : Registers) (o os : Address) (n k : Nat) :
    Reaches ⟨s.poised .nop o os, .empty, n⟩ k
      ⟨s.poised .nop ((Address.succ)^[k] o) os, .empty, n + k⟩ := by
  induction k with
  | zero => exact Reaches.refl _
  | succ k ih =>
    have h := reaches_settled s (w := .nop) ((Address.succ)^[k] o) os .empty (n + k) (by decide)
      (by decide) (by decide)
    dsimp only at h
    rw [Registers.load_poised (by decide), ControlStore.read_empty] at h
    rw [Function.iterate_succ_apply']
    exact ih.trans h

end Engine

/-! ## The words of the diagnostic -/

namespace Diagnostic

open Engine

/-- The store holds the program. -/
theorem read_program : ∀ e ∈ program, store.read e.1 = e.2 := by decide +kernel

section Words

variable {r : ControlStore} (hr : ∀ e ∈ program, r.read e.1 = e.2) (s : Registers) (os : Address)
  (n : Nat)

include hr

theorem reaches_start :
    Reaches ⟨s.poised (r.read 0) 1 os, r, n⟩ 1 ⟨s.poised (r.read 1) 2 os, r, n + 1⟩ := by
  have h := reaches_settled s (w := ⟨0, 0, 0⟩) 1 os r n (by decide) (by decide) (by decide)
  dsimp only at h
  rw [Registers.load_poised (by decide)] at h
  have hw : r.read 0 = ⟨0, 0, 0⟩ := hr (0, _) (by decide)
  rw [hw]
  exact h

theorem reaches_jump :
    Reaches ⟨s.poised (r.read 1) 2 os, r, n⟩ 2 ⟨s.poised (r.read 2) 3 os, r, n + 2⟩ := by
  have hw : r.read 1 = ⟨0o2000020000, 0, 0⟩ := hr (1, _) (by decide)
  rw [hw]
  refine reaches_jumping r n (by decide) ?_ (by decide) (by decide) (by decide) (by decide)
  rw [(by decide : Microword.sequence ⟨0o2000020000, 0, 0⟩ = .jump), Registers.jump_poised]
  exact congrArg₂ (s.poised _) (by decide) rfl

theorem reaches_call :
    Reaches ⟨s.poised (r.read 2) 3 os, r, n⟩ 2 ⟨s.poised (r.read 0o100) 0o101 3, r, n + 2⟩ := by
  have hw : r.read 2 = ⟨0o2021000000, 0, 0⟩ := hr (2, _) (by decide)
  rw [hw]
  refine reaches_jumping r n (by decide) ?_ (by decide) (by decide) (by decide) (by decide)
  rw [(by decide : Microword.sequence ⟨0o2021000000, 0, 0⟩ = .call), Registers.call_poised]
  exact congrArg₂ (s.poised _) (by decide) (by decide)

/-- Z becomes all ones and Q the scratchpad word. -/
theorem reaches_set :
    Reaches ⟨s.poised (r.read 0o100) 0o101 os, r, n⟩ 1
      ⟨((s.setQ (s.readScratchpad 0)).setZ Word.ones).poised (r.read 0o101) 0o102 os, r,
        n + 1⟩ := by
  have hw : r.read 0o100 = ⟨0o7777, 0o7777240000, 0o60000⟩ := hr (0o100, _) (by decide)
  generalize r.read 0o100 = w at hw
  have hf : SpecialFunction.ofCode? w.special = some .idle := by rw [hw]; decide
  have hflags : w.flags = [.tcx, .tspy, .lqy, .lzx] := by rw [hw]; decide
  have hconstant : w.constant = Word.ones := by rw [hw]; decide
  have hselect : w.scratchpadSelect.toNat = 0 := by rw [hw]; decide
  have hx : (s.poised w 0o101 os).xBus .idle = Word.ones := by
    have htcx : w.has .tcx = true := by rw [Microword.has_eq_mem_flags, hflags]; decide
    have htax : w.has .tax = false := by rw [Microword.has_eq_mem_flags, hflags]; decide
    rw [Registers.xBus_idle, Registers.latch_poised, htcx, htax, hconstant]
    exact UInt32.or_zero
  have hy : (s.poised w 0o101 os).yBus = s.readScratchpad 0 := by
    have hword := Registers.selected_poised hf (by decide) s 0o101 os
    simp [Registers.yBus, hword, hselect, Microword.has_eq_mem_flags, hflags, gate]
  have hl (x y : Word) :
      (s.poised w 0o101 os).load x y = ((s.setQ y).setZ x).poised w 0o101 os := by
    simp [Registers.load, Registers.loadHolding, Registers.loadsHolding, Registers.loadScratchpad,
      Registers.loadM, Registers.loadQ, Registers.loadZ, Microword.has_eq_mem_flags, hflags, gate]
  have h := reaches_settled s 0o101 os r n hf (by rw [hw]; decide) (by rw [hw]; decide)
  dsimp only at h
  rw [hl, hx, hy] at h
  exact h

/-- The scratchpad word becomes the sum of Q and Z. -/
theorem reaches_add :
    Reaches ⟨s.poised (r.read 0o101) 0o102 os, r, n⟩ 2
      ⟨(s.setScratchpad 0 (Word.sum s.q s.z false)).poised (r.read 0o102) 0o103 os, r,
        n + 2⟩ := by
  have hw : r.read 0o101 = ⟨0, 0o2001, 0o1110⟩ := hr (0o101, _) (by decide)
  generalize r.read 0o101 = w at hw
  have hf : SpecialFunction.ofCode? w.special = some .idle := by rw [hw]; decide
  have hflags : w.flags = [.tax, .lspx, .vcy] := by rw [hw]; decide
  have hselect : w.scratchpadSelect.toNat = 0 := by rw [hw]; decide
  have hleft : BoxFunction.ofCode w.leftBox = .passB := by rw [hw]; decide
  have hright : BoxFunction.ofCode w.rightBox = .passA := by rw [hw]; decide
  have hx : (s.poised w 0o102 os).xBus .idle = Word.sum s.q s.z false := by
    have htcx : w.has .tcx = false := by rw [Microword.has_eq_mem_flags, hflags]; decide
    have htax : w.has .tax = true := by rw [Microword.has_eq_mem_flags, hflags]; decide
    have hloc : w.has .loc = false := by rw [Microword.has_eq_mem_flags, hflags]; decide
    rw [Registers.xBus_idle, Registers.latch_poised, htcx, htax, Registers.adder,
      Registers.leftBox, Registers.rightBox, Registers.latch_poised, hleft, hright, hloc]
    have hsum : Word.sum s.q.trim s.z.trim false = Word.sum s.q s.z false := by
      simp only [Word.sum, Word.trim_trim]
    exact UInt32.zero_or.trans hsum
  have hl (x y : Word) :
      (s.poised w 0o102 os).load x y = (s.setScratchpad 0 x).poised w 0o102 os := by
    have hword := Registers.selected_poised hf (by decide) s 0o102 os
    simp [Registers.load, Registers.loadHolding, Registers.loadsHolding, Registers.loadScratchpad,
      Registers.loadM, Registers.loadQ, Registers.loadZ, hword, hselect,
      Microword.has_eq_mem_flags, hflags]
  have h := reaches_stretched s 0o102 os r n hf (by rw [hw]; decide) (by rw [hw]; decide)
  dsimp only at h
  rw [hl, hx] at h
  exact h

theorem reaches_return :
    Reaches ⟨s.poised (r.read 0o102) 0o103 3, r, n⟩ 2 ⟨s.poised (r.read 3) 4 3, r, n + 2⟩ := by
  have hw : r.read 0o102 = ⟨0o2040000000, 0, 0⟩ := hr (0o102, _) (by decide)
  rw [hw]
  refine reaches_jumping r n (by decide) ?_ (by decide) (by decide) (by decide) (by decide)
  rw [(by decide : Microword.sequence ⟨0o2040000000, 0, 0⟩ = .ret), Registers.return_poised]
  exact congrArg₂ (s.poised _) (by decide) rfl

theorem reaches_restart :
    Reaches ⟨s.poised (r.read 3) 4 os, r, n⟩ 1 ⟨s.poised (r.read 4) 0 os, r, n + 1⟩ := by
  have hw : r.read 3 = ⟨0o2000000000, 0, 0o4⟩ := hr (3, _) (by decide)
  rw [hw]
  refine reaches_deferred r n (by decide) ?_ (by decide) (by decide) (by decide) (by decide)
  rw [(by decide : Microword.sequence ⟨0o2000000000, 0, 0o4⟩ = .jump), Registers.jump_poised]
  exact congrArg₂ (s.poised _) (by decide) rfl

/-- R0 becomes one more. -/
theorem reaches_increment :
    Reaches ⟨s.poised (r.read 4) 0 os, r, n⟩ 1
      ⟨(s.setHolding 0 (Word.sum (s.readHolding 0) 0 true)).poised (r.read 0) 1 os, r, n + 1⟩ := by
  have hw : r.read 4 = ⟨0, 0o424000, 0⟩ := hr (4, _) (by decide)
  generalize r.read 4 = w at hw
  have hf : SpecialFunction.ofCode? w.special = some .idle := by rw [hw]; decide
  have hflags : w.flags = [.ihr, .thy, .tyw] := by rw [hw]; decide
  have hread : w.readRegister = 0 := by rw [hw]; decide
  have hload : w.loadRegister = 0 := by rw [hw]; decide
  have hy : (s.poised w 0 os).yBus = Word.sum (s.readHolding 0) 0 true := by
    simp [Registers.yBus, hread, Microword.has_eq_mem_flags, hflags, gate]
  have hl (x y : Word) : (s.poised w 0 os).load x y = (s.setHolding 0 y).poised w 0 os := by
    simp [Registers.load, Registers.loadHolding, Registers.loadsHolding, Registers.loadScratchpad,
      Registers.loadM, Registers.loadQ, Registers.loadZ, Registers.holdingBus, hload,
      Microword.has_eq_mem_flags, hflags, gate]
  have h := reaches_settled s 0 os r n hf (by rw [hw]; decide) (by rw [hw]; decide)
  dsimp only at h
  rw [hl, hy] at h
  exact h

end Words

/-! ## Passes -/

/-- What a pass makes of the data registers. -/
def pass (s : Registers) : Registers :=
  let t := (s.setQ (s.readScratchpad 0)).setZ Word.ones
  let u := t.setScratchpad 0 (Word.sum t.q t.z false)
  u.setHolding 0 (Word.sum (u.readHolding 0) 0 true)

section Passes

variable {r : ControlStore} (hr : ∀ e ∈ program, r.read e.1 = e.2)

include hr

/-- **A pass takes twelve cycles**, whatever the registers hold. -/
theorem reaches_pass (s : Registers) (os : Address) (n : Nat) :
    Reaches ⟨s.poised (r.read 0) 1 os, r, n⟩ 12 ⟨(pass s).poised (r.read 0) 1 3, r, n + 12⟩ := by
  have hcalled : Reaches ⟨s.poised (r.read 0) 1 os, r, n⟩ 5
      ⟨s.poised (r.read 0o100) 0o101 3, r, n + 5⟩ :=
    (reaches_start hr s os n).trans ((reaches_jump hr s os _).trans (reaches_call hr s os _))
  have hback := ((reaches_set hr s 3 (n + 5)).trans (reaches_add hr _ 3 _)).trans
    (reaches_return hr _ _)
  exact hcalled.trans (hback.trans ((reaches_restart hr _ 3 _).trans (reaches_increment hr _ 3 _)))

/-- **So many passes** after the first one. -/
theorem reaches_passes (s : Registers) (os : Address) (n k : Nat) :
    Reaches ⟨s.poised (r.read 0) 1 os, r, n⟩ (12 * (k + 1))
      ⟨(pass^[k + 1] s).poised (r.read 0) 1 3, r, n + 12 * (k + 1)⟩ := by
  induction k with
  | zero => exact reaches_pass hr s os n
  | succ k ih =>
    rw [Function.iterate_succ_apply']
    exact ih.trans (reaches_pass hr _ 3 _)

end Passes

/-- The data registers count the passes: up in R0, down in the first scratchpad word. -/
structure Counted (k : Nat) (s : Registers) : Prop where
  m : s.m = 0
  holding : (s.readHolding 0).toNat = k % 0o100000000
  holding_rest : ∀ i, i ≠ 0 → s.readHolding i = 0
  scratchpad_size : s.scratchpad.size = Registers.scratchpadSize
  scratchpad : ((s.readScratchpad 0).toNat : Int) = -k % 0o100000000
  scratchpad_rest : ∀ i, i % Registers.scratchpadSize ≠ 0 → s.readScratchpad i = 0

theorem counted_zero : Counted 0 Registers.zero where
  m := rfl
  holding := by decide
  holding_rest i _ := by
    simp only [Registers.readHolding, Registers.zero, Vector.getElem?_replicate]
    split <;> rfl
  scratchpad_size := by simp [Registers.zero]
  scratchpad := by decide
  scratchpad_rest i _ := by
    simp only [Registers.readScratchpad, Registers.zero, Array.getElem?_replicate]
    split <;> rfl

theorem q_pass (s : Registers) : (pass s).q = (s.readScratchpad 0).trim := rfl

theorem z_pass (s : Registers) : (pass s).z = Word.ones := by
  have h : (pass s).z = Word.ones.trim := rfl
  rw [h]
  decide

theorem readHolding_pass (s : Registers) (i : Nat) :
    (pass s).readHolding i =
      if i = 0 then Word.sum (s.readHolding 0) 0 true else s.readHolding i := by
  unfold pass
  rw [Registers.readHolding_setHolding]
  by_cases hi : i = 0
  · subst hi
    exact Word.trim_trim _
  · rw [if_neg hi, if_neg fun h => hi h.1.symm]
    rfl

theorem readScratchpad_pass {s : Registers} (hs : s.scratchpad.size = Registers.scratchpadSize)
    (i : Nat) :
    (pass s).readScratchpad i =
      if i % Registers.scratchpadSize = 0 then
        Word.sum (s.readScratchpad 0) Word.ones false
      else s.readScratchpad i := by
  have hset : (pass s).readScratchpad i = (((s.setQ (s.readScratchpad 0)).setZ
      Word.ones).setScratchpad 0 (Word.sum (s.readScratchpad 0).trim Word.ones.trim
        false)).readScratchpad i := rfl
  have hsum : Word.sum (s.readScratchpad 0).trim Word.ones.trim false =
      Word.sum (s.readScratchpad 0) Word.ones false := by
    simp [Word.sum]
  rw [hset, hsum, Registers.readScratchpad_setScratchpad]
  by_cases hi : i % Registers.scratchpadSize = 0
  · have hsize : i % Registers.scratchpadSize < s.scratchpad.size := by
      rw [hi, hs]
      decide
    rw [if_pos hi, if_pos ⟨hi.symm, hsize⟩]
    exact Word.trim_trim _
  · rw [if_neg hi, if_neg fun h => hi h.1.symm]
    rfl

/-- **A pass counts.** -/
theorem Counted.pass {k : Nat} {s : Registers} (h : Counted k s) :
    Counted (k + 1) (Diagnostic.pass s) where
  m := h.m
  holding := by
    have hcount := h.holding
    rw [readHolding_pass, if_pos rfl, Word.toNat_sum, hcount]
    simp
  holding_rest i hi := by
    rw [readHolding_pass, if_neg hi]
    exact h.holding_rest i hi
  scratchpad_size := Array.size_setIfInBounds.trans h.scratchpad_size
  scratchpad := by
    have hcount := h.scratchpad
    have hones : Word.ones.toNat = 0o77777777 := by decide
    rw [readScratchpad_pass h.scratchpad_size, if_pos (Nat.zero_mod _), Word.toNat_sum, hones,
      Bool.toNat_false]
    omega
  scratchpad_rest i hi := by
    rw [readScratchpad_pass h.scratchpad_size, if_neg hi]
    exact h.scratchpad_rest i hi

theorem counted_passes (k : Nat) : Counted k (Diagnostic.pass^[k] Registers.zero) := by
  induction k with
  | zero => exact counted_zero
  | succ k ih =>
    rw [Function.iterate_succ_apply']
    exact ih.pass

/-- Q holds the count of the pass before. -/
theorem q_passes (k : Nat) :
    ((Diagnostic.pass^[k + 1] Registers.zero).q.toNat : Int) = -k % 0o100000000 := by
  rw [Function.iterate_succ_apply', q_pass, Word.toNat_trim]
  have := (counted_passes k).scratchpad
  omega

end Diagnostic

end MicroEngine
