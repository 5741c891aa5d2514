import Mathlib.Data.Nat.Bitwise
import MicroEngine.Proofs.Engine.DiagnosticPass
import MicroEngine.Proofs.Machine.Bootstrap
import MicroEngine.Proofs.Machine.Lockstep
/-!
# The diagnostic on the reference machine

The reference machine runs the diagnostic on CPU0, twelve iterations a pass, while the memory
scheduler goes around its empty control store.

* `Address.toNat_succ`: the addresses of the first bank in turn.
* `engine_reference`: the engines of the reference machine.
* `exists_iterate_of_reaches`: iterations from runs of the enabled engines.
* **`diagnostic_loop`**: the machine after any number of passes.
-/

namespace MicroEngine

namespace Address

/-- The address after one in the first bank is the next one in it, around its end. -/
theorem toNat_succ {a : Address} (h : a.toNat < 0o2000) :
    a.succ.toNat = (a.toNat + 1) % 0o2000 := by
  have hbank : a.toNat &&& 0o2000 = 0 := by
    have hbit : a.toNat.testBit 10 = false := Nat.testBit_lt_two_pow h
    have := Nat.and_two_pow a.toNat 10
    rw [hbit] at this
    simpa using this
  have hmask (n : Nat) : n &&& 0o1777 = n % 0o2000 := Nat.and_two_pow_sub_one_eq_mod n 10
  have hone : (1 : Address).toNat = 1 := rfl
  simp only [succ, bankBit, offsetMask, UInt16.toNat_or, UInt16.toNat_and, UInt16.toNat_add, hone]
  have h1 : (0o2000 : Address).toNat = 0o2000 := rfl
  have h2 : (0o1777 : Address).toNat = 0o1777 := rfl
  rw [h1, h2, hbank, Nat.zero_or, hmask]
  omega

theorem toNat_iterate_succ {a : Address} (h : a.toNat < 0o2000) (n : Nat) :
    (succ^[n] a).toNat = (a.toNat + n) % 0o2000 := by
  induction n with
  | zero => exact (Nat.mod_eq_of_lt h).symm
  | succ n ih =>
    have hlt : (succ^[n] a).toNat < 0o2000 := by
      rw [ih]
      exact Nat.mod_lt _ (by decide)
    rw [Function.iterate_succ_apply', toNat_succ hlt, ih]
    omega

end Address

namespace Machine

open Engine

theorem isEnabled_reference (u : UnitId) :
    reference.isEnabled u = Configuration.isReferenceUnit u := by
  unfold reference
  rw [isEnabled_bootstrap, isEnabled_unbooted]
  rfl

theorem engine_reference (u : UnitId) :
    reference.engine u = .booted (if u = .cpu0 then Diagnostic.store else .empty) := by
  unfold reference
  rw [engine_bootstrap]
  unfold bootStore
  rw [engine_unbooted]
  simp [unbooted, Configuration.reference, Engine.fresh]

/-- **Iterations of the machine from runs of its enabled engines.** -/
theorem exists_iterate_of_reaches {m : Machine} {n : Nat} (e : UnitId → Engine)
    (h : ∀ u, m.isEnabled u = true → (m.engine u).Reaches n (e u)) :
    ∃ all m', m.iterate n = .ok (all, m') ∧
      (∀ u, m'.engine u = if m.isEnabled u = true then e u else m.engine u) ∧ m.Kept n m' := by
  obtain ⟨all, m', hi⟩ := iterate_of_runs (m := m) (n := n) fun u hu => by
    obtain ⟨rs, hr⟩ := h u hu
    exact ⟨rs, e u, hr⟩
  refine ⟨all, m', hi, fun u => ?_, (kept_of_iterate hi).1⟩
  by_cases hu : m.isEnabled u = true
  · obtain ⟨rs, hr⟩ := h u hu
    obtain ⟨rs', hr', -⟩ := run_of_iterate hi hu
    rw [hr, Except.ok.injEq, Prod.mk.injEq] at hr'
    rw [if_pos hu, hr'.2]
  · rw [if_neg hu]
    exact (idle_of_iterate hi (Bool.eq_false_iff.mpr hu)).1

/-- The enabled engines of the reference machine after so many passes, as they run. -/
def afterPasses (k : Nat) (u : UnitId) : Engine :=
  if u = .cpu0 then
    ⟨(Diagnostic.pass^[k] Registers.zero).poised (Diagnostic.store.read 0) 1 3, Diagnostic.store,
      12 * k⟩
  else ⟨Registers.zero.poised .nop (Address.succ^[12 * k] 1) 0, .empty, 12 * k⟩

theorem reaches_afterPasses (u : UnitId) (k : Nat) :
    (reference.engine u).Reaches (12 * (k + 1)) (afterPasses (k + 1) u) := by
  rw [engine_reference]
  unfold afterPasses booted
  by_cases h : u = .cpu0
  · have hrun := Diagnostic.reaches_passes Diagnostic.read_program Registers.zero 0 0 k
    rw [Nat.zero_add] at hrun
    rw [if_pos h, if_pos h]
    exact hrun
  · have hrun := reaches_idle Registers.zero 1 0 0 (12 * (k + 1))
    rw [Nat.zero_add] at hrun
    rw [if_neg h, if_neg h, ControlStore.read_empty]
    exact hrun

/-- The engine has made `k` passes of the diagnostic, at least one, and is about to start the next.
R0 has counted them up and the first scratchpad word down, each modulo `2 ^ 24`. -/
structure HasPassed (k : Nat) (e : Engine) : Prop where
  r0 : (e.registers.readHolding 0).toNat = k % 2 ^ 24
  sp0 : ((e.registers.readScratchpad 0).toNat : Int) = -k % 2 ^ 24
  q : (e.registers.q.toNat : Int) = -(k - 1) % 2 ^ 24
  z : e.registers.z.toNat = 2 ^ 24 - 1
  m : e.registers.m = 0
  holding_rest : ∀ i, 1 ≤ i → e.registers.readHolding i = 0
  scratchpad_size : e.registers.scratchpad.size = 64
  scratchpad_rest : ∀ i, 1 ≤ i → i < 64 → e.registers.readScratchpad i = 0
  address : e.registers.address = 1
  saved : e.registers.saved = 3
  stage : e.registers.stage = .normal
  latch : e.registers.latch = e.store.read 0
  store : e.store = Diagnostic.store
  cycles : e.cycles = 12 * k

theorem hasPassed_afterPasses (k : Nat) : HasPassed (k + 1) (afterPasses (k + 1) .cpu0) := by
  have hcount := Diagnostic.counted_passes (k + 1)
  exact {
    r0 := hcount.holding
    sp0 := hcount.scratchpad
    q := by
      have hq : ((afterPasses (k + 1) .cpu0).registers.q.toNat : Int) = -k % 0o100000000 :=
        Diagnostic.q_passes k
      rw [hq]
      push_cast
      rw [Int.add_sub_cancel]
    z := by
      have hz : (afterPasses (k + 1) .cpu0).registers.z =
          (Diagnostic.pass^[k + 1] Registers.zero).z := rfl
      rw [hz, Function.iterate_succ_apply', Diagnostic.z_pass]
      rfl
    m := hcount.m
    holding_rest := fun i hi => hcount.holding_rest i (Nat.one_le_iff_ne_zero.mp hi)
    scratchpad_size := hcount.scratchpad_size
    scratchpad_rest := fun i hi hlt => by
      refine hcount.scratchpad_rest i ?_
      rw [Registers.scratchpadSize, Nat.mod_eq_of_lt hlt]
      exact Nat.one_le_iff_ne_zero.mp hi
    address := rfl
    saved := rfl
    stage := rfl
    latch := rfl
    store := rfl
    cycles := rfl }

/-- **The diagnostic, for every number of passes.** The reference machine completes twelve iterations
for each pass. CPU0 has then made the passes; the memory scheduler, which has an empty control store,
has gone around its first bank and is otherwise as it came out of reset; the other units are as
bootstrap has left them. -/
theorem diagnostic_loop {k : Nat} (hk : 1 ≤ k) :
    ∃ all m, reference.iterate (12 * k) = .ok (all, m) ∧
      HasPassed k (m.engine .cpu0) ∧
      (∃ o : Address, o.toNat = (1 + 12 * k) % 1024 ∧
        m.engine .msch = ⟨{ Registers.zero with address := o }, .empty, 12 * k⟩) ∧
      (∀ u, u ≠ .cpu0 → u ≠ .msch → m.engine u = reference.engine u) ∧
      m.iterations = 12 * k := by
  obtain ⟨k, rfl⟩ := Nat.exists_eq_add_of_le' hk
  obtain ⟨all, m, hi, hengine, hkept⟩ :=
    exists_iterate_of_reaches _ fun u _ => reaches_afterPasses u k
  have hcpu0 : m.engine .cpu0 = afterPasses (k + 1) .cpu0 := hengine .cpu0
  have hmsch : m.engine .msch = afterPasses (k + 1) .msch := hengine .msch
  refine ⟨all, m, hi, ?_, ?_, ?_, ?_⟩
  · rw [hcpu0]
    exact hasPassed_afterPasses k
  · refine ⟨_, Address.toNat_iterate_succ (a := 1) (by decide) (12 * (k + 1)), ?_⟩
    rw [hmsch]
    rfl
  · intro u h0 h2
    have hidle : reference.isEnabled u = false := by
      rw [isEnabled_reference, Configuration.isReferenceUnit, beq_eq_false_iff_ne.mpr h0,
        beq_eq_false_iff_ne.mpr h2, Bool.or_false]
    rw [hengine u, hidle, if_neg Bool.false_ne_true]
  · exact hkept.iterations.trans (Nat.zero_add _)

/-- After `2 ^ 24` passes the counters are zero again, and the memory scheduler is where it came out
of reset. -/
theorem diagnostic_loop_wraps :
    ∃ all m, reference.iterate (12 * 2 ^ 24) = .ok (all, m) ∧
      (m.engine .cpu0).registers.readHolding 0 = 0 ∧
      (m.engine .cpu0).registers.readScratchpad 0 = 0 ∧
      (m.engine .cpu0).registers.q = 1 ∧
      (m.engine .msch).registers = (reference.engine .msch).registers := by
  obtain ⟨all, m, hi, hpassed, ⟨o, ho, hmsch⟩, -, -⟩ := diagnostic_loop (k := 2 ^ 24) (by decide)
  have hr0 := hpassed.r0
  have hsp0 := hpassed.sp0
  have hq := hpassed.q
  refine ⟨all, m, hi, UInt32.toNat_inj.mp ?_, UInt32.toNat_inj.mp ?_, UInt32.toNat_inj.mp ?_, ?_⟩
  · exact hr0
  · exact Int.ofNat_inj.mp hsp0
  · exact Int.ofNat_inj.mp hq
  · have hone : o = 1 := UInt16.toNat_inj.mp ho
    rw [hmsch, engine_reference, hone, if_neg (by decide)]
    simp [Engine.booted, Registers.zero]

end Machine

end MicroEngine
