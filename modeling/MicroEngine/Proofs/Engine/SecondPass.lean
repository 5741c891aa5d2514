import MicroEngine.Proofs.Engine.CallReturn
/-!
# The second pass of a microword

A microword that is stretched, or that jumps at once, goes through the data path twice. The first
pass leaves every register of the data path as it is, so the second finds the same inputs. One way
from the sequencer back to the buses remains: the saved address, which a call rewrites and which the
microword may put on the Y bus.

* `Stage.holds_of_pending`, `Stage.settles`: the sequencer in the first pass and in the second.
* `registers_of_pending`: the first pass moves the sequencer and changes nothing else.
* `Microword.SeesOwnCall`: the microwords whose second pass sees the call of the first.
* `settled_of_unstretched`: the second pass of a microword that is not stretched.
* **`second_pass_same_inputs`**: what the second pass reports.
-/

namespace MicroEngine

/-! ## The sequencer in two passes -/

namespace Stage

/-- A cycle after which its microword runs again commits no load and fetches nothing. -/
theorem holds_of_pending {control : SequencerInput}
    (h : (normal.transition control).next = .branchPending) :
    normal.commits control = false ∧ (normal.transition control).fetch = false := by
  obtain ⟨branch, deferred, extended⟩ := control
  revert h
  cases branch <;> cases deferred <;> cases extended <;> decide

/-- In a cycle that is not stretched the second pass is the last, whatever its branch outcome: only
the first decides about the jump. -/
theorem settles (control : SequencerInput) (h : control.extended = false) :
    branchPending.commits control = true ∧
      branchPending.transition control = ⟨.normal, true, .increment⟩ := by
  obtain ⟨branch, deferred, extended⟩ := control
  subst h
  cases branch <;> cases deferred <;> decide

end Stage

/-! ## What the second pass reads -/

/-- The first pass of the microword takes a call, and the second has the address that it saves on
the Y bus. A stretched microword calls in its second pass only. -/
def Microword.SeesOwnCall (w : Microword) : Prop :=
  w.has .vcy = false ∧ w.sequence = .call ∧ w.has .tosy = true

instance (w : Microword) : Decidable w.SeesOwnCall :=
  inferInstanceAs (Decidable (_ ∧ _))

namespace Engine

/-! ## The first pass -/

section Pending

variable {e e' : Engine} {r : CycleReport} (hn : e.registers.stage = .normal)
  (h : e.step = .ok (r, e'))

include hn h

/-- **The first pass moves the sequencer and changes nothing else.** -/
theorem registers_of_pending (hp : e'.registers.stage = .branchPending) :
    e'.registers =
      e.registers.placed e'.registers.address e'.registers.saved .branchPending := by
  obtain ⟨sig, -, -, rfl⟩ := step_eq_ok_iff.mp h
  have hplan : e.registers.plan sig = Stage.normal.transition (e.registers.control sig.branch) := by
    rw [Registers.plan, hn]
  have hnext : (e.registers.plan sig).next = .branchPending := hp
  obtain ⟨hcommits, hfetch⟩ := Stage.holds_of_pending (hplan ▸ hnext)
  have hdata : e.registers.dataPath sig = e.registers := by
    rw [Registers.dataPath, Registers.commits, hn, hcommits]
    rfl
  have hlatch : e.registers.nextLatch sig e.store.read = e.registers.latch := by
    rw [Registers.nextLatch, hplan, hfetch]
    rfl
  change ((e.registers.dataPath sig).setLatch (e.registers.nextLatch sig e.store.read)).placed
    _ _ (e.registers.plan sig).next = _
  rw [hdata, hlatch, hnext]
  rfl

/-- The first pass changes the saved address only if it is a call that is not stretched. -/
theorem saved_of_pending (hw : ¬ (r.microword.has .vcy = false ∧ r.microword.sequence = .call)) :
    e'.registers.saved = e.registers.saved := by
  have hno : ¬ r.Jumps .call := by
    rintro ⟨hjump, hcall⟩
    refine hw ⟨Bool.eq_false_iff.mpr fun hv => ?_, hcall⟩
    have hhold := CycleReport.hold_iff.mpr ⟨(report_of_step h).1.trans hn, hv⟩
    rw [hhold] at hjump
    cases hjump
  rw [saved_of_step h, if_neg hno]

/-- A microword that runs again and is not stretched has taken its jump. -/
theorem jumps_of_pending (hp : e'.registers.stage = .branchPending)
    (hv : r.microword.has .vcy = false) : r.Jumps r.microword.sequence := by
  have hnext := (sequencer_of_step h).1.symm.trans hp
  have hs := (report_of_step h).1.trans hn
  refine ⟨?_, rfl⟩
  unfold CycleReport.plan at hnext ⊢
  rw [hs, hv] at hnext ⊢
  revert hnext
  cases r.branch <;> cases r.microword.has .dgo <;> decide

end Pending

/-! ## The second pass -/

/-- **The second pass of a microword that is not stretched** commits its loads and leads to the next
microword. It takes no jump: the saved address stays, and the micro address advances. -/
theorem settled_of_unstretched {e e' : Engine} {r : CycleReport} (h : e.step = .ok (r, e'))
    (hs : e.registers.stage = .branchPending) (hv : r.microword.has .vcy = false) :
    r.committed = true ∧ e'.registers.stage = .normal ∧ (∀ how, ¬ r.Jumps how) ∧
      e'.registers.saved = e.registers.saved ∧ e'.registers.address = r.origin.succ := by
  have hstage : r.stage = .branchPending := (report_of_step h).1.trans hs
  obtain ⟨hcommits, htransition⟩ :=
    Stage.settles ⟨r.branch, r.microword.has .dgo, r.microword.has .vcy⟩ hv
  have hplan : r.plan = ⟨.normal, true, .increment⟩ := by
    rw [CycleReport.plan, hstage, htransition]
  have hno : ∀ how, ¬ r.Jumps how := by
    rintro how ⟨hjump, -⟩
    rw [hplan] at hjump
    cases hjump
  have hcommitted : r.committed = true := by
    obtain ⟨sig, -, rfl, -⟩ := step_eq_ok_iff.mp h
    rw [← hcommits, ← hstage]
    rfl
  obtain ⟨hnext, -, -, hadvance, -⟩ := sequencer_of_step h
  rw [hplan] at hnext hadvance
  exact ⟨hcommitted, hnext, hno, by rw [saved_of_step h, if_neg (hno .call)], hadvance rfl⟩

/-- The reports of both passes, the second as that of a cycle with the sequencer moved. -/
theorem reports_of_pending {e e' : Engine} {r : CycleReport} (hn : e.registers.stage = .normal)
    (h : e.step = .ok (r, e')) (hp : e'.registers.stage = .branchPending) :
    ∃ f c e'', r = report e.registers (e.registers.signalsOf f c) ∧
      let s := e.registers.placed e'.registers.address e'.registers.saved .branchPending
      e'.step = .ok (report s (s.signalsOf f c), e'') := by
  have hregisters := registers_of_pending hn h hp
  obtain ⟨sig, hsig, rfl, -⟩ := step_eq_ok_iff.mp h
  obtain ⟨f, c, hf, hc, rfl⟩ := Registers.signals_eq_ok_iff.mp hsig
  have hlatch : e'.registers.latch = e.registers.latch := by
    rw [hregisters]
    rfl
  rw [← hlatch] at hf hc
  have hstep := step_of_codes hf hc
  rw [hregisters] at hstep
  exact ⟨f, c, _, rfl, hstep⟩

/-- **The second pass of a microword sees the inputs of the first.** If the cycle of an engine in the
normal stage succeeds and leads to the branch-pending stage, the next cycle succeeds as well, with
the same microword, X bus and left box. It has the same Y bus and branch outcome too, unless the
microword is not stretched, calls, and has the saved address on the Y bus. Then the Y bus differs in
that address only, which is now the one that the call has left; and whatever the branch outcome, the
second pass commits its loads, leads back to the normal stage and takes no jump. -/
theorem second_pass_same_inputs {e e' : Engine} {r : CycleReport}
    (hn : e.registers.stage = .normal) (h : e.step = .ok (r, e'))
    (hp : e'.registers.stage = .branchPending) :
    ∃ r' e'', e'.step = .ok (r', e'') ∧
      r'.microword = r.microword ∧ r'.x = r.x ∧ r'.leftBox = r.leftBox ∧
      (¬ r.microword.SeesOwnCall → r'.y = r.y ∧ r'.branch = r.branch) ∧
      (r.microword.SeesOwnCall →
        r.y = e.registers.otherSources ||| e.registers.saved.toUInt32 ∧
        r'.y = e.registers.otherSources ||| (r.origin &&& Address.mask).toUInt32 ∧
        r'.committed = true ∧ e''.registers.stage = .normal ∧ (∀ how, ¬ r'.Jumps how) ∧
        e''.registers.saved = e'.registers.saved ∧ e''.registers.address = r'.origin.succ) := by
  have hkept := saved_of_pending hn h
  have hcall := jumps_of_pending hn h hp
  have hsaved := saved_of_step h
  obtain ⟨f, c, e'', rfl, hstep⟩ := reports_of_pending hn h hp
  refine ⟨_, e'', hstep, rfl, rfl, rfl, ?_, ?_⟩
  · intro hsees
    have hsame : e.registers.latch.has .tosy = true → e'.registers.saved = e.registers.saved :=
      fun ht => hkept fun ⟨hv, hseq⟩ => hsees ⟨hv, hseq, ht⟩
    have hsignals := e.registers.signalsOf_placed_of_saved e'.registers.address
      e'.registers.saved .branchPending hsame f c
    exact ⟨congrArg Signals.y hsignals, congrArg Signals.branch hsignals⟩
  · rintro ⟨hv, hseq, ht⟩
    have ht : e.registers.latch.has .tosy = true := ht
    have hjump := hcall hv
    rw [hseq] at hjump
    rw [if_pos hjump] at hsaved
    refine ⟨?_, ?_, settled_of_unstretched hstep hp hv⟩
    · change e.registers.yBus = _
      rw [Registers.yBus_eq, ht]
      rfl
    · change (e.registers.placed _ e'.registers.saved _).yBus = _
      rw [Registers.yBus_placed, ht, hsaved]
      rfl

/-- A call that is taken if Y is even, with the saved address on the Y bus. The saved address is zero
in the first pass; the call leaves address 1, so that Y is odd in the second pass, which is the last
all the same. -/
theorem second_pass_of_call_on_y :
    let w := Microword.ofBits [1, 3, 7, 57]
    let e : Engine := ⟨{ Registers.zero with address := 1, latch := w }, .empty, 0⟩
    ∃ r e' r' e'', e.step = .ok (r, e') ∧ e'.registers.stage = .branchPending ∧
      w.SeesOwnCall ∧ e'.step = .ok (r', e'') ∧ r.y = 0 ∧ r'.y = 1 ∧ r.branch = true ∧
      r'.branch = false ∧ r'.committed = true ∧ e''.registers.stage = .normal ∧
      e''.registers.saved = 1 ∧ e''.registers.address = 1 := by
  intro w e
  have hstep : e.step = .ok (_, _) :=
    step_of_codes (f := .idle) (c := .yEven) (by decide) (by decide)
  have hpending : (e.next (e.registers.signalsOf .idle .yEven)).registers.stage =
      .branchPending := by decide
  have hsees : w.SeesOwnCall := by decide
  obtain ⟨r', e'', hnext, -, -, -, -, hcall⟩ := second_pass_same_inputs rfl hstep hpending
  obtain ⟨hfirst, hsecond, hcommitted, hstage, -, hsaved, haddress⟩ := hcall hsees
  have hstep' := step_of_codes (e := e.next (e.registers.signalsOf .idle .yEven)) (f := .idle)
    (c := .yEven) (by decide) (by decide)
  cases hnext.symm.trans hstep'
  exact ⟨_, _, _, _, hstep, hpending, hsees, hnext, hfirst.trans (by decide),
    hsecond.trans (by decide), by decide, by decide, hcommitted, hstage, hsaved.trans (by decide),
    haddress.trans (by decide)⟩

end Engine

end MicroEngine
