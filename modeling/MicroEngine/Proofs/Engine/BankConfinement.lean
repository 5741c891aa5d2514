import MicroEngine.Proofs.Engine.CallReturn
/-!
# Runs within one bank

An engine leaves the bank of its micro address only by a microword that selects a bank, by a return
or by an indirect jump. As long as it takes none of these, it reads nothing of the other bank.

* `Address.bank_within`: the bank of an address does not depend on the low bits.
* `ControlStore.AgreesOn`: two stores with the same microwords in one bank.
* `CycleReport.MayLeaveBank`: the cycles that can change the bank.
* `bank_of_step`, `step_withStore`: what one other cycle preserves, in one engine and in two that
  differ in the other bank.
* `confined_of_run`: what a run of such cycles preserves.
* **`confined_to_bank`**: where the bank changes, and what a run within one bank depends on.
-/

namespace MicroEngine

/-! ## Banks -/

namespace Address

theorem bank_eq_of_bankBit {a a' : Address} (h : a &&& bankBit = a' &&& bankBit) :
    a.bank = a'.bank := by
  unfold bank
  rw [h]

/-- **An address put together from a bank and an address within it lies in that bank.** -/
theorem bank_within (a offset : Address) :
    bank ((a &&& bankBit) ||| (offset &&& offsetMask)) = a.bank := by
  apply bank_eq_of_bankBit
  have hbank : bankBit &&& bankBit = bankBit := rfl
  have hoffset : offsetMask &&& bankBit = 0 := rfl
  rw [or_and_distrib, UInt16.and_assoc, UInt16.and_assoc, hbank, hoffset, UInt16.and_zero,
    UInt16.or_zero]

/-- Two addresses of one place in the control store lie in the same bank. -/
theorem bank_eq_of_slot {a a' : Address} (h : ControlStore.slot a = ControlStore.slot a') :
    a.bank = a'.bank := by
  have hmask : a &&& mask = a' &&& mask := by
    apply UInt16.toNat_inj.mp
    rw [toNat_and_mask, toNat_and_mask]
    exact congrArg Fin.val h
  have hbit : mask &&& bankBit = bankBit := rfl
  apply bank_eq_of_bankBit
  rw [← hbit, ← UInt16.and_assoc, hmask, UInt16.and_assoc]

end Address

namespace ControlStore

/-- The two stores have the same microwords in a bank. -/
def AgreesOn (bank : Bank) (r r' : ControlStore) : Prop :=
  ∀ a : Address, a.bank = bank → r'.read a = r.read a

/-- **Microwords written outside a bank leave the bank alone.** -/
theorem agreesOn_writeAll {bank : Bank} {entries : List (Address × Microword)} (r : ControlStore)
    (h : ∀ entry ∈ entries, entry.1.bank ≠ bank) : r.AgreesOn bank (r.writeAll entries) := by
  induction entries generalizing r with
  | nil => exact fun _ _ => rfl
  | cons entry entries ih =>
    intro a ha
    have hentry : slot entry.1 ≠ slot a := fun hslot =>
      h entry List.mem_cons_self ((Address.bank_eq_of_slot hslot).trans ha)
    have hrest : (r.write entry.1 entry.2).AgreesOn bank (r.writeAll (entry :: entries)) :=
      ih _ fun e he => h e (List.mem_cons_of_mem entry he)
    rw [hrest a ha, read_write, if_neg hentry]

end ControlStore

/-! ## Cycles that can leave the bank -/

theorem Microword.selectsBank_iff {w : Microword} :
    w.SelectsBank ↔ w.special = 0o60 ∨ w.special = 0o61 := by
  unfold SelectsBank
  generalize w.special = code
  constructor
  · rintro ⟨bank, h⟩
    unfold SpecialFunction.ofCode? at h
    split at h <;> simp_all [← UInt8.toNat_inj]
  · rintro (rfl | rfl)
    · exact ⟨.a, rfl⟩
    · exact ⟨.b, rfl⟩

namespace CycleReport

/-- The cycle selects a bank, or takes a return or an indirect jump. -/
def MayLeaveBank (r : CycleReport) : Prop :=
  r.microword.special = 0o60 ∨ r.microword.special = 0o61 ∨ r.Jumps .ret ∨ r.Jumps .indirect

instance (r : CycleReport) : Decidable r.MayLeaveBank := inferInstanceAs (Decidable (_ ∨ _))

theorem not_selectsBank {r : CycleReport} (h : ¬ r.MayLeaveBank) : ¬ r.microword.SelectsBank :=
  fun hs => h ((Microword.selectsBank_iff.mp hs).imp_right .inl)

end CycleReport

/-- The move of the micro address stays in the bank, unless it is a return or an indirect jump. -/
theorem Registers.bank_moveAddress {s : Registers} {w : Microword} {x : Word} {move : AddressMove}
    (h : move = .jump → w.sequence ≠ .ret ∧ w.sequence ≠ .indirect) :
    (s.moveAddress w x move).bank = s.bank := by
  cases move with
  | hold => rfl
  | increment => exact Address.bank_within s.address (s.address + 1)
  | jump =>
    obtain ⟨hret, hindirect⟩ := h rfl
    unfold moveAddress jump
    cases hs : w.sequence with
    | jump => exact Address.bank_within s.address w.target
    | call => exact Address.bank_within s.address w.target
    | ret => exact absurd hs hret
    | indirect => exact absurd hs hindirect

namespace Engine

/-- The engine with another control store. -/
def withStore (e : Engine) (store : ControlStore) : Engine := { e with store := store }

section Step

variable {e e' : Engine} {r : CycleReport}

/-- **A cycle that cannot leave the bank stays in it.** -/
theorem bank_of_step (h : e.step = .ok (r, e')) (hr : ¬ r.MayLeaveBank) :
    e'.registers.bank = e.registers.bank := by
  obtain ⟨sig, hs, rfl, rfl⟩ := step_eq_ok_iff.mp h
  have horigin := CycleReport.origin_of_not_selectsBank (CycleReport.not_selectsBank hr)
  rw [origin_report hs] at horigin
  have hstart : (e.registers.withEffect sig.effect).bank = e.registers.bank :=
    congrArg Address.bank horigin
  rw [← hstart]
  refine Registers.bank_moveAddress fun hmove => ⟨fun hret => hr ?_, fun hindirect => hr ?_⟩
  · exact .inr (.inr (.inl ⟨hmove, hret⟩))
  · exact .inr (.inr (.inr ⟨hmove, hindirect⟩))

/-- **A cycle that selects no bank fetches from the bank that it is in**, and does the same with any
store that agrees there. -/
theorem step_withStore (h : e.step = .ok (r, e')) (hr : ¬ r.microword.SelectsBank)
    {other : ControlStore} (ho : e.store.AgreesOn e.registers.bank other) :
    (e.withStore other).step = .ok (r, e'.withStore other) := by
  obtain ⟨sig, hs, rfl, rfl⟩ := step_eq_ok_iff.mp h
  have horigin := CycleReport.origin_of_not_selectsBank hr
  rw [origin_report hs] at horigin
  have hlatch : e.registers.nextLatch sig other.read = e.registers.nextLatch sig e.store.read := by
    unfold Registers.nextLatch
    rw [horigin, ho]
    rfl
  have hstep : (e.withStore other).step =
      .ok (report e.registers sig, (e.withStore other).next sig) := step_of_signals hs
  rw [hstep]
  unfold next withStore
  rw [hlatch]

end Step

/-! ## Runs -/

/-- **What a run within one bank preserves**: the bank, and the agreement with an engine that has
the same microwords in that bank. -/
theorem confined_of_run : ∀ {n : Nat} {e e' : Engine} {rs : List CycleReport},
    e.run n = .ok (rs, e') → (∀ r ∈ rs, ¬ r.MayLeaveBank) →
    e'.registers.bank = e.registers.bank ∧
      ∀ {other : ControlStore}, e.store.AgreesOn e.registers.bank other →
        (e.withStore other).run n = .ok (rs, e'.withStore other)
  | 0, _, _, _, h, _ => by
    cases h
    exact ⟨rfl, fun _ => rfl⟩
  | n + 1, e, e'', _, h, hrs => by
    obtain ⟨r, e', rs, hs, hr, rfl⟩ := run_succ_eq_ok_iff.mp h
    have hfirst := hrs r List.mem_cons_self
    have hstay := bank_of_step hs hfirst
    obtain ⟨hbank, hruns⟩ := confined_of_run hr fun r' hr' => hrs r' (List.mem_cons_of_mem r hr')
    -- The rest starts in the same bank, so it is the same bank on which the stores have to agree.
    rw [hstay, store_of_step hs] at hruns
    refine ⟨hbank.trans hstay, fun ho => run_succ_eq_ok_iff.mpr ?_⟩
    exact ⟨r, _, rs, step_withStore hs (CycleReport.not_selectsBank hfirst) ho, hruns ho, rfl⟩

/-- **An engine stays in its bank.** In every run that succeeds:

* the bank bit of the micro address changes only in a cycle that selects a bank, or that takes a
  return or an indirect jump;
* if no cycle of the run does, the address is in the first bank all along and every fetch reads that
  bank;
* and then an engine that differs only in the microwords of the other bank makes the same reports,
  and after each of them it differs in nothing else. -/
theorem confined_to_bank {n : Nat} {e e' : Engine} {rs : List CycleReport}
    (h : e.run n = .ok (rs, e')) :
    (∀ before r after, rs = before ++ r :: after →
      ∃ e₁ e₂ k, e.run k = .ok (before, e₁) ∧ e₁.step = .ok (r, e₂) ∧
        (e₂.registers.bank ≠ e₁.registers.bank → r.MayLeaveBank)) ∧
    ((∀ r ∈ rs, ¬ r.MayLeaveBank) →
      e'.registers.bank = e.registers.bank ∧
      (∀ before r after, rs = before ++ r :: after →
        ∃ e₁ e₂ k, e.run k = .ok (before, e₁) ∧ e₁.step = .ok (r, e₂) ∧
          e₁.registers.bank = e.registers.bank ∧ r.address.bank = e.registers.bank ∧
          (r.plan.fetch = true → e₂.registers.latch = e.store.read r.address)) ∧
      ∀ other, e.store.AgreesOn e.registers.bank other →
        ∀ before after, rs = before ++ after →
          ∃ e₁ k, e.run k = .ok (before, e₁) ∧
            (e.withStore other).run k = .ok (before, e₁.withStore other)) := by
  constructor
  · rintro before r after rfl
    obtain ⟨e₁, e₂, k, hbefore, hstep⟩ := exists_step_of_run h
    exact ⟨e₁, e₂, k, hbefore, hstep, fun hchange =>
      Decidable.of_not_not fun hr => hchange (bank_of_step hstep hr)⟩
  intro hrs
  refine ⟨(confined_of_run h hrs).1, ?_, ?_⟩
  · rintro before r after rfl
    obtain ⟨e₁, e₂, k, hbefore, hstep⟩ := exists_step_of_run h
    have hbank := (confined_of_run hbefore fun r' hr' => hrs r' (List.mem_append_left _ hr')).1
    have hselect := CycleReport.not_selectsBank (hrs r (List.mem_append_right _ List.mem_cons_self))
    refine ⟨e₁, e₂, k, hbefore, hstep, hbank, ?_, fun hfetch => ?_⟩
    · rw [(report_of_step hstep).2.2]
      exact hbank
    · rw [(sequencer_of_step hstep).2.1, if_pos hfetch, store_of_run hbefore,
        CycleReport.origin_of_not_selectsBank hselect]
  · rintro other ho before after rfl
    obtain ⟨e₁, k, _, hbefore, _⟩ := runs_of_append h
    exact ⟨e₁, k, hbefore,
      (confined_of_run hbefore fun r hr => hrs r (List.mem_append_left _ hr)).2 ho⟩

/-- A call at the end of the second bank and a jump back there. The run is the same when every
address of the first bank that has the low bits of a fetch holds a microword that cannot be
executed. -/
theorem confined_to_bank_around_end :
    let store := ControlStore.empty.writeAll
      [(0o3777, ⟨0o2021000000, 0, 0⟩), (0o2100, ⟨0o2017770000, 0, 0⟩)]
    let faulty : Microword := ⟨0, 0, 0o7700000000⟩
    let other := store.writeAll [(0o1777, faulty), (0o0100, faulty), (0, faulty)]
    let e : Engine := ⟨{ Registers.zero with address := 0o3777 }, store, 0⟩
    ∃ rs e₁ k, e.run k = .ok (rs, e₁) ∧ (e.withStore other).run k = .ok (rs, e₁.withStore other) ∧
      rs.map (·.address) = [0o3777, 0o2000, 0o2100, 0o2101, 0o3777, 0o2000] ∧
      (∀ r ∈ rs, ¬ r.MayLeaveBank) ∧ e₁.registers.bank = .b := by
  intro store faulty other e
  have hsaid : (e.run 6).toOption.map (fun p => (p.1.map (·.address),
      p.1.any fun r => decide r.MayLeaveBank)) =
      some ([0o3777, 0o2000, 0o2100, 0o2101, 0o3777, 0o2000], false) := by
    decide +kernel
  have hother : e.store.AgreesOn e.registers.bank other :=
    ControlStore.agreesOn_writeAll store (by decide)
  obtain ⟨⟨rs, e'⟩, hrun, hsaid⟩ := exists_eq_ok_of_toOption_map hsaid
  simp only [Prod.mk.injEq, List.any_eq_false, decide_eq_true_eq] at hsaid
  obtain ⟨hplaces, hstays⟩ := hsaid
  obtain ⟨-, -, hruns⟩ := (confined_to_bank hrun).2 hstays
  obtain ⟨e₁, k, hfirst, halike⟩ := hruns other hother rs [] (List.append_nil rs).symm
  have hsecond : e.registers.bank = .b := by decide
  have hbank := ((confined_to_bank hfirst).2 hstays).1
  exact ⟨rs, e₁, k, hfirst, halike, hplaces, hstays, hbank.trans hsecond⟩

end Engine

end MicroEngine
