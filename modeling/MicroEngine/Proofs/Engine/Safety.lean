import MicroEngine.Proofs.Engine.CallReturn
import MicroEngine.Proofs.Engine.Guarded
import MicroEngine.Proofs.Engine.ReportedLoads
import MicroEngine.Proofs.Microword.Layout
/-!
# Cycles from any state

A state that was read from data may hold anything that its integers can hold. A cycle is safe all the
same, and what it puts on the X bus, into the registers and into the micro address is within its
width, though what it starts from is not.

* `Word.sum_lt`, `shiftUp_lt`, `Registers.xBus_lt`: the data path.
* `DataRegisters.read_foldl_load_lt`: a register that is loaded reads 24 bits.
* `Registers.address_moveAddress_lt`: a micro address that is moved has 11 bits.
* `Engine.Settling`, `settling_of_step`, `address_of_settling`: one cycle that holds the address is
  followed by one that moves it.
* `ControlStore.ofWords`: a control store of any length.
* **`Engine.cycle_is_safe`**: what every cycle does not do, and the widths of what it leaves behind.
-/

namespace MicroEngine

/-! ## The data path -/

namespace Word

theorem or_lt {v w : Word} (hv : v.toNat < 0o100000000) (hw : w.toNat < 0o100000000) :
    (v ||| w).toNat < 0o100000000 := by
  rw [UInt32.toNat_or]
  exact Nat.or_lt_two_pow (n := 24) hv hw

theorem zero_lt : (0 : Word).toNat < 0o100000000 := by decide

theorem gate_lt {isOpen : Bool} {v : Word} (hv : v.toNat < 0o100000000) :
    (gate isOpen v).toNat < 0o100000000 := by
  cases isOpen with
  | true => exact hv
  | false => exact zero_lt

theorem sum_lt (a b : Word) (carry : Bool) : (sum a b carry).toNat < 0o100000000 := toNat_trim_lt _

theorem shiftUp_lt (w : Word) (n : UInt32) : (w.shiftUp n).toNat < 0o100000000 := by
  unfold shiftUp
  split
  · exact zero_lt
  · exact toNat_trim_lt _

end Word

namespace Registers

variable (s : Registers)

theorem leftBox_lt : s.leftBox.toNat < 0o100000000 := BoxFunction.apply_lt _ _ _

/-- **The X bus has 24 bits**, whatever the registers and the microword hold. -/
theorem xBus_lt (f : SpecialFunction) : (s.xBus f).toNat < 0o100000000 := by
  have hconstant : (gate (s.latch.has .tcx) s.latch.constant).toNat < 0o100000000 :=
    Word.gate_lt (s.latch.toNat_field_lt .constant)
  have hmerged : (f.merge s.leftBox (gate (s.latch.has .tcx) s.latch.constant) s.z).toNat <
      0o100000000 := by
    unfold SpecialFunction.merge
    split
    · exact Word.or_lt hconstant (Word.shiftUp_lt _ _)
    · exact hconstant
  exact Word.or_lt hmerged (Word.gate_lt (Word.sum_lt _ _ _))

end Registers

/-! ## Register loads -/

namespace DataRegisters

section LoadEach

variable (value : DataRegister → Word) {regs : List DataRegister} {d : DataRegisters}
  {reg : DataRegister}

/-- A load leaves 24 bits in a register that it names, and does not widen another one. -/
theorem read_load_lt (first : DataRegister)
    (h : first = reg ∨ (d.read reg).toNat < 0o100000000) :
    ((d.load value first).read reg).toNat < 0o100000000 := by
  unfold read at h ⊢
  rw [read?_load]
  split
  · next heq =>
    cases d.read? first with
    | none => exact Word.zero_lt
    | some v => exact Word.toNat_trim_lt _
  · next hne => exact h.resolve_left hne

/-- **A register that is loaded reads 24 bits in the end.** -/
theorem read_foldl_load_lt (h : reg ∈ regs ∨ (d.read reg).toNat < 0o100000000) :
    ((regs.foldl (load value) d).read reg).toNat < 0o100000000 := by
  induction regs generalizing d with
  | nil => exact h.resolve_left List.not_mem_nil
  | cons first regs ih =>
    rw [List.foldl_cons]
    rw [List.mem_cons, or_assoc] at h
    rcases h with rfl | h | h
    · exact ih (.inr (read_load_lt value reg (.inl rfl)))
    · exact ih (.inl h)
    · exact ih (.inr (read_load_lt value first (.inr h)))

end LoadEach

end DataRegisters

/-! ## The micro address -/

namespace Registers

/-- **A micro address that is moved has 11 bits**, and one that is held keeps those it has. -/
theorem address_moveAddress_lt {s : Registers} {move : AddressMove} (w : Microword) (x : Word)
    (h : move ≠ .hold ∨ s.address.toNat < 0o4000) :
    (s.moveAddress w x move).address.toNat < 0o4000 := by
  cases move with
  | hold => exact h.resolve_left (fun hne => hne rfl)
  | increment => exact Address.within_lt _ _
  | jump =>
    unfold moveAddress jump
    cases w.sequence with
    | jump => exact Address.within_lt _ _
    | call => exact Address.within_lt _ _
    | ret => exact Address.and_lt _ (by decide)
    | indirect => exact Address.and_lt _ (by decide)

theorem address_withEffect_lt {s : Registers} (h : s.address.toNat < 0o4000) (e : SpecialEffect) :
    (s.withEffect e).address.toNat < 0o4000 := by
  cases e with
  | selectBank bank =>
    cases bank with
    | a => exact Address.and_lt _ (by decide)
    | b => exact Address.or_lt h (by decide)
  | _ => exact h

end Registers

namespace Engine

section Step

variable {e e' : Engine} {r : CycleReport}

theorem address_lt_of_step (h : e.step = .ok (r, e'))
    (hmove : r.plan.address ≠ .hold ∨ e.registers.address.toNat < 0o4000) :
    e'.registers.address.toNat < 0o4000 := by
  obtain ⟨sig, -, rfl, rfl⟩ := step_eq_ok_iff.mp h
  have hplan : (report e.registers sig).plan = e.registers.plan sig := rfl
  rw [hplan] at hmove
  exact Registers.address_moveAddress_lt _ _
    (hmove.imp_right fun ha => Registers.address_withEffect_lt ha sig.effect)

/-- The micro address has 11 bits, or the next cycle moves it. -/
def Settling (e : Engine) : Prop :=
  e.registers.address.toNat < 0o4000 ∨ e.registers.stage = .branchPending

/-- **After one cycle** the address has 11 bits or is moved by the next one, since no two cycles hold
it one after the other. -/
theorem settling_of_step (h : e.step = .ok (r, e')) : e'.Settling := by
  by_cases hhold : r.plan.address = .hold
  · right
    rw [(sequencer_of_step h).1, CycleReport.next_of_hold hhold]
  · exact .inl (address_lt_of_step h (.inl hhold))

theorem address_lt_of_settling (hs : e.Settling) (h : e.step = .ok (r, e')) :
    e'.registers.address.toNat < 0o4000 := by
  refine address_lt_of_step h ?_
  rcases hs with haddress | hpending
  · exact .inr haddress
  · left
    intro hhold
    have hnormal := (CycleReport.hold_iff.mp hhold).1
    rw [(report_of_step h).1, hpending] at hnormal
    cases hnormal

theorem buses_lt_of_step (h : e.step = .ok (r, e')) :
    r.x.toNat < 0o100000000 ∧ r.leftBox.toNat < 0o100000000 := by
  obtain ⟨sig, hs, rfl, -⟩ := step_eq_ok_iff.mp h
  obtain ⟨f, _, -, -, rfl⟩ := Registers.signals_eq_ok_iff.mp hs
  exact ⟨Registers.xBus_lt _ f, Registers.leftBox_lt _⟩

/-- **A reported load gives 24 bits**, and names a register that is fitted or a word of the
scratchpad. -/
theorem load_lt_of_step (h : e.step = .ok (r, e')) {l : RegisterLoad} (hl : l ∈ r.loads) :
    l.value.toNat < 0o100000000 ∧ (∀ i, l.register = .holding i → i ≤ 6) ∧
      ∀ i, l.register = .scratchpad i → i ≤ 63 := by
  obtain ⟨htarget, hfitted, hvalue⟩ := load_of_step h hl
  refine ⟨?_, fun i hi => ?_, fun i hi => ?_⟩
  · have hloads := loads_of_step h
    cases hc : r.committed with
    | true =>
      rw [hc, if_pos rfl, DataRegisters.loadEach_eq, Prod.mk.injEq] at hloads
      rw [← hvalue, ← hloads.2]
      exact DataRegisters.read_foldl_load_lt _ (.inl htarget)
    | false =>
      rw [hc, if_neg Bool.false_ne_true] at hloads
      rw [hloads.1] at hl
      cases hl
  · rw [hi] at hfitted
    exact Nat.le_of_lt_succ (of_decide_eq_true hfitted)
  · rw [hi] at htarget
    rw [Registers.eq_selected_of_mem_targets _ htarget]
    exact Nat.le_of_lt_succ (Registers.selected_lt _)

end Step

/-! ## Runs -/

theorem exists_last_cycle {n : Nat} {e e' : Engine} {rs : List CycleReport}
    (h : e.run (n + 1) = .ok (rs, e')) :
    ∃ rs₁ e₁ r, e.run n = .ok (rs₁, e₁) ∧ e₁.step = .ok (r, e') := by
  obtain ⟨e₁, rs₁, _, hfirst, hlast, -⟩ := run_add_eq_ok_iff.mp h
  obtain ⟨r, e₂, _, hstep, hnil, -⟩ := run_succ_eq_ok_iff.mp hlast
  cases hnil
  exact ⟨rs₁, e₁, r, hfirst, hstep⟩

/-- **From the second cycle on** the micro address has 11 bits, whatever the run has started from. -/
theorem address_lt_of_run {n : Nat} {e e' : Engine} {rs : List CycleReport}
    (h : e.run (n + 2) = .ok (rs, e')) : e'.registers.address.toNat < 0o4000 := by
  obtain ⟨_, e₁, _, hfirst, hlast⟩ := exists_last_cycle h
  obtain ⟨_, _, _, -, hbefore⟩ := exists_last_cycle hfirst
  exact address_lt_of_settling (settling_of_step hbefore) hlast

end Engine

/-! ## Control stores of any length -/

/-- The control store that reads as a list of microwords does: one that is missing in the list is
zero, and those that no address reaches play no part. -/
def ControlStore.ofWords (words : List Microword) : ControlStore :=
  ⟨Vector.ofFn fun i => words[i.val]?.getD .nop⟩

theorem ControlStore.read_ofWords (words : List Microword) (a : Address) :
    (ofWords words).read a = words[(a &&& Address.mask).toNat]?.getD .nop := by
  have hslot : (slot a).val = (a &&& Address.mask).toNat := by
    rw [Address.toNat_and_mask]
    rfl
  rw [read_eq_getElem, Fin.getElem_fin, ← hslot]
  exact Vector.getElem_ofFn _

namespace Engine

/-- **A cycle is safe from any state**, whatever the registers hold, whatever is in the control store
and however long that is:

* no look-up in a table is out of its range, no sum overflows, no shift is by the width of a word;
* a cycle that succeeds reports an X bus, a left box and loads of 24 bits each, and loads holding
  registers and scratchpad words that there are;
* it writes the saved address exactly if it takes a call, and then with 11 bits;
* it leaves a micro address of 11 bits unless it holds the address, and if it holds it, it leaves one
  of 11 bits if there was one;
* after two cycles or more that succeed the micro address has 11 bits. -/
theorem cycle_is_safe (s : Registers) (words : List Microword) (cycles : Nat) :
    let e : Engine := ⟨s, .ofWords words, cycles⟩
    Guarded.step e = .ok e.step ∧
    (∀ r e', e.step = .ok (r, e') →
      r.x.toNat < 2 ^ 24 ∧ r.leftBox.toNat < 2 ^ 24 ∧
      (∀ l ∈ r.loads, l.value.toNat < 2 ^ 24 ∧ (∀ i, l.register = .holding i → i ≤ 6) ∧
        ∀ i, l.register = .scratchpad i → i ≤ 63) ∧
      (if r.Jumps .call then e'.registers.saved.toNat < 2 ^ 11
        else e'.registers.saved = e.registers.saved) ∧
      (r.plan.address ≠ .hold → e'.registers.address.toNat ≤ 0o3777) ∧
      (e.registers.address.toNat ≤ 0o3777 → e'.registers.address.toNat ≤ 0o3777)) ∧
    ∀ n rs e', 2 ≤ n → e.run n = .ok (rs, e') → e'.registers.address.toNat ≤ 0o3777 := by
  intro e
  refine ⟨Guarded.step_eq e, fun r e' h => ?_, fun n rs e' hn h => ?_⟩
  · obtain ⟨hx, hbox⟩ := buses_lt_of_step h
    refine ⟨hx, hbox, fun l hl => load_lt_of_step h hl, ?_, fun hmoves => ?_, fun hlt => ?_⟩
    · rw [saved_of_step h]
      split
      · exact Address.and_lt _ (by decide)
      · rfl
    · exact Nat.le_of_lt_succ (address_lt_of_step h (.inl hmoves))
    · exact Nat.le_of_lt_succ (address_lt_of_step h (.inr (Nat.lt_succ_of_le hlt)))
  · obtain ⟨k, rfl⟩ := Nat.exists_eq_add_of_le' hn
    exact Nat.le_of_lt_succ (address_lt_of_run h)

/-- A deferred call from a state in which everything is too wide: registers and microword have all
the bits that their integers can hold, the address lies beyond the store, and there is neither a
scratchpad nor a control store. -/
theorem cycle_is_safe_all_ones :
    let ones : UInt32 := 0xFFFFFFFF
    let s : Registers := {
      address := 0xFFFF
      saved := 0xFFFF
      m := ones
      q := ones
      z := ones
      holding := Vector.replicate 7 ones
      scratchpad := #[]
      latch := ⟨0o30137777777, ones, 0o31276773567⟩
      stage := .normal }
    let e : Engine := ⟨s, .ofWords [], 0⟩
    Guarded.step e = .ok e.step ∧
      (∃ r e', e.step = .ok (r, e') ∧ r.loads.length = 6 ∧ r.x.toNat < 2 ^ 24 ∧
        (∀ l ∈ r.loads, l.value.toNat < 2 ^ 24) ∧ e'.registers.saved.toNat < 2 ^ 11 ∧
        e'.registers.address.toNat ≤ 0o3777) ∧
      ∃ rs e₂, e.run 2 = .ok (rs, e₂) ∧ e₂.registers.address.toNat ≤ 0o3777 := by
  intro ones s e
  obtain ⟨hsafe, hstep, hrun⟩ := cycle_is_safe s [] 0
  have hone : e.step.toOption.map (fun p => (p.1.loads.length, decide (p.1.Jumps .call))) =
      some (6, true) := by
    decide +kernel
  have hstore : ControlStore.ofWords [] = .empty :=
    ControlStore.ext_read fun a => by rw [ControlStore.read_ofWords, ControlStore.read_empty]; rfl
  have htwo : (e.run 2).toOption.map (fun p => p.1.length) = some 2 := by
    dsimp only [e]
    rw [hstore]
    decide +kernel
  obtain ⟨⟨r, e'⟩, h, hsaid⟩ := exists_eq_ok_of_toOption_map hone
  obtain ⟨hlength, hcall⟩ := Prod.mk.inj hsaid
  have hcall : r.Jumps .call := of_decide_eq_true hcall
  obtain ⟨hx, -, hloads, hsaved, haddress, -⟩ := hstep r e' h
  rw [if_pos hcall] at hsaved
  have hmoves : r.plan.address ≠ .hold := by
    rw [hcall.1]
    decide
  obtain ⟨⟨rs, e₂⟩, h₂, -⟩ := exists_eq_ok_of_toOption_map htwo
  exact ⟨hsafe, ⟨r, e', h, hlength, hx, fun l hl => (hloads l hl).1, hsaved, haddress hmoves⟩,
    rs, e₂, h₂, hrun 2 rs e₂ (Nat.le_refl 2) h₂⟩

end Engine

end MicroEngine
