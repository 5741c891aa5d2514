import MicroEngine.Proofs.Engine.Run
import MicroEngine.Proofs.Width
/-!
# Calls and returns

A taken call saves the micro address that it leaves, and a taken return goes back to it, whatever
the microcode in between does, as long as it takes no other call.

* `CycleReport.plan`, `Jumps`, `origin`: what a report says of the sequencer.
* **`saved_of_step`**: a cycle changes the saved address exactly if it takes a call.
* `sequencer_of_step`: stage, latch and micro address after a cycle.
* `savedAfter`, `saved_of_run`: the saved address after a run.
* `origin_of_fetched_call`: where a call starts that was fetched in sequence.
* **`return_resumes_after_call`**: a return leads to where the last call has started.
-/

namespace MicroEngine

/-- The special function of the microword selects a bank. -/
def Microword.SelectsBank (w : Microword) : Prop :=
  ∃ bank, SpecialFunction.ofCode? w.special = some (.selectBank bank)

/-! ## What a report says of the sequencer -/

namespace CycleReport

/-- What the sequencer did at the end of the cycle. -/
def plan (r : CycleReport) : Transition :=
  r.stage.transition ⟨r.branch, r.microword.has .dgo, r.microword.has .vcy⟩

/-- The cycle took a jump of this kind. -/
def Jumps (r : CycleReport) (how : JumpMode) : Prop :=
  r.plan.address = .jump ∧ r.microword.sequence = how

instance (r : CycleReport) (how : JumpMode) : Decidable (r.Jumps how) :=
  inferInstanceAs (Decidable (_ ∧ _))

/-- The micro address after the bank select of the cycle. The fetch reads it, and the jump starts
from it. -/
def origin (r : CycleReport) : Address :=
  match SpecialFunction.ofCode? r.microword.special with
  | some (.selectBank .a) => r.address &&& Address.offsetMask
  | some (.selectBank .b) => r.address ||| Address.bankBit
  | _ => r.address

theorem origin_of_not_selectsBank {r : CycleReport} (h : ¬ r.microword.SelectsBank) :
    r.origin = r.address := by
  unfold origin
  split
  case h_1 hf => exact absurd ⟨.a, hf⟩ h
  case h_2 hf => exact absurd ⟨.b, hf⟩ h
  case h_3 => rfl

/-- A bank select leaves the place within the bank as it is. -/
theorem origin_and_offsetMask (r : CycleReport) :
    r.origin &&& Address.offsetMask = r.address &&& Address.offsetMask := by
  have hbank : Address.bankBit &&& Address.offsetMask = 0 := rfl
  unfold origin
  split
  · rw [UInt16.and_assoc, UInt16.and_self]
  · rw [Address.or_and_distrib, hbank, UInt16.or_zero]
  · rfl

/-- A cycle that does not fetch is the first of its microword, and the next one runs it again. -/
theorem stage_of_not_fetch {r : CycleReport} (h : r.plan.fetch = false) :
    r.stage = .normal ∧ r.plan.next = .branchPending := by
  unfold plan at h ⊢
  cases hs : r.stage with
  | normal =>
    rw [hs] at h
    revert h
    cases r.branch <;> cases r.microword.has .dgo <;> cases r.microword.has .vcy <;> decide
  | branchPending => rw [hs] at h; cases h
  | extendedSettle => rw [hs] at h; cases h

/-- After a cycle that advances the address, the next microword starts. -/
theorem next_of_increment {r : CycleReport} (h : r.plan.address = .increment) :
    r.plan.next = .normal := by
  unfold plan at h ⊢
  revert h
  cases r.stage <;> cases r.branch <;> cases r.microword.has .dgo <;>
    cases r.microword.has .vcy <;> decide

/-- A jump in the second cycle of a microword belongs to a stretched one. -/
theorem vcy_of_jump {r : CycleReport} (hs : r.stage = .branchPending)
    (h : r.plan.address = .jump) : r.microword.has .vcy = true := by
  unfold plan at h
  rw [hs] at h
  revert h
  cases r.branch <;> cases r.microword.has .dgo <;> cases r.microword.has .vcy <;> decide

/-- The first cycle of a stretched microword holds the address, and no other cycle does. -/
theorem hold_iff {r : CycleReport} :
    r.plan.address = .hold ↔ r.stage = .normal ∧ r.microword.has .vcy = true := by
  unfold plan
  cases r.stage <;> cases r.branch <;> cases r.microword.has .dgo <;>
    cases r.microword.has .vcy <;> decide

/-- After a cycle that holds the address, its microword runs again. -/
theorem next_of_hold {r : CycleReport} (h : r.plan.address = .hold) :
    r.plan.next = .branchPending := by
  obtain ⟨hs, hv⟩ := hold_iff.mp h
  unfold plan
  rw [hs, hv]
  exact if_pos (Bool.or_true _)

/-- A microword that is neither stretched nor deferred jumps in its first cycle, and runs again. -/
theorem plan_of_jump {r : CycleReport} (h : r.plan.address = .jump)
    (hv : r.microword.has .vcy = false) (hd : r.microword.has .dgo = false) :
    r.plan = ⟨.branchPending, false, .jump⟩ := by
  unfold plan at h ⊢
  rw [hv, hd] at h ⊢
  revert h
  cases r.stage <;> cases r.branch <;> decide

end CycleReport

/-! ## One cycle -/

namespace Registers

/-- Only a call changes the saved address. -/
theorem saved_moveAddress (s : Registers) (w : Microword) (x : Word) (move : AddressMove) :
    (s.moveAddress w x move).saved =
      if move = .jump ∧ w.sequence = .call then s.address &&& Address.mask else s.saved := by
  cases move with
  | hold => rfl
  | increment => rfl
  | jump =>
    unfold moveAddress jump
    cases w.sequence <;> rfl

end Registers

namespace Engine

section Step

variable {e e' : Engine} {r : CycleReport}

/-- What a report tells of the engine before its cycle. -/
theorem report_of_step (h : e.step = .ok (r, e')) :
    r.stage = e.registers.stage ∧ r.microword = e.registers.latch ∧
      r.address = e.registers.address := by
  obtain ⟨sig, _, rfl, _⟩ := step_eq_ok_iff.mp h
  exact ⟨rfl, rfl, rfl⟩

/-- The bank select of a cycle, in its values and in its report. -/
theorem origin_report {sig : Signals} (h : e.registers.signals = .ok sig) :
    (report e.registers sig).origin = (e.registers.withEffect sig.effect).address := by
  obtain ⟨f, c, hf, _, rfl⟩ := Registers.signals_eq_ok_iff.mp h
  unfold CycleReport.origin report Registers.signalsOf
  rw [hf]
  cases f with
  | selectBank bank => cases bank <;> rfl
  | _ => rfl

/-- **A cycle changes the saved address exactly if it takes a call**; it then holds the eleven bits
of the address that the call has left. -/
theorem saved_of_step (h : e.step = .ok (r, e')) :
    e'.registers.saved =
      if r.Jumps .call then r.origin &&& Address.mask else e.registers.saved := by
  obtain ⟨sig, hs, rfl, rfl⟩ := step_eq_ok_iff.mp h
  have hsaved := Registers.saved_withEffect e.registers sig.effect
  rw [origin_report hs, ← hsaved]
  exact Registers.saved_moveAddress _ _ _ _

/-- **The sequencer after a cycle**, as far as it does not depend on the target of a jump. -/
theorem sequencer_of_step (h : e.step = .ok (r, e')) :
    e'.registers.stage = r.plan.next ∧
    e'.registers.latch = (if r.plan.fetch then e.store.read r.origin else r.microword) ∧
    (r.plan.address = .hold → e'.registers.address = r.origin) ∧
    (r.plan.address = .increment → e'.registers.address = r.origin.succ) ∧
    (r.Jumps .ret → e'.registers.address = e.registers.saved &&& Address.mask) := by
  obtain ⟨sig, hs, rfl, rfl⟩ := step_eq_ok_iff.mp h
  have haddr : (e.next sig).registers.address =
      ((e.registers.withEffect sig.effect).moveAddress e.registers.latch sig.x
        (report e.registers sig).plan.address).address := rfl
  rw [origin_report hs, haddr]
  refine ⟨rfl, rfl, ?_, ?_, ?_⟩
  · intro hm
    rw [hm]
    rfl
  · intro hm
    rw [hm]
    rfl
  · rintro ⟨hm, hret⟩
    have hret : e.registers.latch.sequence = .ret := hret
    rw [hm, Registers.moveAddress, hret, Registers.jump, Registers.saved_withEffect]
    rfl

/-- A cycle with the microword of a cycle that has succeeded succeeds as well. -/
theorem exists_step_of_latch {e₁ : Engine} (h : e.step = .ok (r, e'))
    (hw : e₁.registers.latch = r.microword) : ∃ r₁ e₁', e₁.step = .ok (r₁, e₁') := by
  obtain ⟨sig, hs, rfl, _⟩ := step_eq_ok_iff.mp h
  obtain ⟨f, c, hf, hc, _⟩ := Registers.signals_eq_ok_iff.mp hs
  have hw : e₁.registers.latch = e.registers.latch := hw
  exact ⟨_, _, step_of_codes (by rw [hw, hf]) (by rw [hw, hc])⟩

end Step

/-! ## Runs -/

/-- The saved address after the cycles of these reports, which was `os` before them. -/
def savedAfter (os : Address) (rs : List CycleReport) : Address :=
  rs.foldl (fun os r => if r.Jumps .call then r.origin &&& Address.mask else os) os

theorem savedAfter_of_no_call {os : Address} : ∀ {rs : List CycleReport},
    (∀ r ∈ rs, ¬ r.Jumps .call) → savedAfter os rs = os
  | [], _ => rfl
  | r :: rs, h => by
    have hr : ¬ r.Jumps .call := h r List.mem_cons_self
    unfold savedAfter
    rw [List.foldl_cons, if_neg hr]
    exact savedAfter_of_no_call fun r' hr' => h r' (List.mem_cons_of_mem r hr')

/-- After a run the saved address is that of the last call, if there was one. -/
theorem saved_of_run : ∀ {n : Nat} {e e' : Engine} {rs : List CycleReport},
    e.run n = .ok (rs, e') → e'.registers.saved = savedAfter e.registers.saved rs
  | 0, _, _, _, h => by cases h; rfl
  | n + 1, e, e'', _, h => by
    obtain ⟨r, e', rs, hs, hr, rfl⟩ := run_succ_eq_ok_iff.mp h
    rw [saved_of_run hr, saved_of_step hs]
    rfl

section Segment

variable {n : Nat} {e e' : Engine} {fetch call ret : CycleReport} {wait body : List CycleReport}

/-- **A return leads to where the last call has started.** -/
theorem address_of_return (h : e.run n = .ok (call :: (body ++ [ret]), e'))
    (hc : call.Jumps .call) (hb : ∀ r ∈ body, ¬ r.Jumps .call) (hr : ret.Jumps .ret) :
    e'.registers.address = call.origin &&& Address.mask := by
  obtain ⟨e₁, _, hcall, hrest⟩ := runs_of_cons h
  obtain ⟨e₂, _, _, hbody, hlast⟩ := runs_of_append hrest
  obtain ⟨e₃, _, hret, hnil⟩ := runs_of_cons hlast
  have hend : e' = e₃ := eq_of_run_nil hnil
  have hsaved : e₁.registers.saved = call.origin &&& Address.mask := by
    rw [saved_of_step hcall, if_pos hc]
  have hkept : e₂.registers.saved = e₁.registers.saved := by
    rw [saved_of_run hbody, savedAfter_of_no_call hb]
  have hback := (sequencer_of_step hret).2.2.2.2 hr
  rw [hend, hback, hkept, hsaved, UInt16.and_assoc, UInt16.and_self]

/-- **Where a call starts that was fetched in sequence**: at the address after the one it was
fetched from. Between the fetch and the call there is at most the first cycle of a stretched call,
which holds the address. -/
theorem origin_of_fetched_call (h : e.run n = .ok (fetch :: (wait ++ [call]), e'))
    (hf : fetch.plan.fetch = true) (hi : fetch.plan.address = .increment)
    (hw : ∀ r ∈ wait, r.plan.fetch = false) (hc : call.Jumps .call)
    (hb : ¬ call.microword.SelectsBank) :
    call.microword = e.store.read fetch.origin ∧ call.origin = fetch.origin.succ := by
  obtain ⟨e₁, _, hfetch, hrest⟩ := runs_of_cons h
  obtain ⟨hstage, hlatch, _, haddr, _⟩ := sequencer_of_step hfetch
  rw [CycleReport.next_of_increment hi] at hstage
  rw [if_pos hf] at hlatch
  have haddr := haddr hi
  rw [CycleReport.origin_of_not_selectsBank hb]
  cases wait with
  | nil =>
    obtain ⟨_, _, hcall, _⟩ := runs_of_cons hrest
    obtain ⟨_, hword, hplace⟩ := report_of_step hcall
    exact ⟨hword.trans hlatch, hplace.trans haddr⟩
  | cons first wait =>
    obtain ⟨e₂, _, hfirst, hrest⟩ := runs_of_cons hrest
    obtain ⟨hs₁, hw₁, ha₁⟩ := report_of_step hfirst
    obtain ⟨hstage₂, hlatch₂, hhold, _, _⟩ := sequencer_of_step hfirst
    have hnofetch := hw first List.mem_cons_self
    rw [(CycleReport.stage_of_not_fetch hnofetch).2] at hstage₂
    rw [hnofetch] at hlatch₂
    cases wait with
    | nil =>
      obtain ⟨_, _, hcall, _⟩ := runs_of_cons hrest
      obtain ⟨hs₂, hw₂, ha₂⟩ := report_of_step hcall
      have hsame : call.microword = first.microword := hw₂.trans hlatch₂
      have hvcy := CycleReport.vcy_of_jump (hs₂.trans hstage₂) hc.1
      rw [hsame] at hvcy hb
      have hheld := hhold (CycleReport.hold_iff.mpr ⟨hs₁.trans hstage, hvcy⟩)
      rw [CycleReport.origin_of_not_selectsBank hb] at hheld
      exact ⟨hsame.trans (hw₁.trans hlatch), by rw [ha₂, hheld, ha₁, haddr]⟩
    | cons second wait =>
      -- The second cycle of a microword always fetches.
      obtain ⟨_, _, hsecond, _⟩ := runs_of_cons hrest
      have hs₂ := (report_of_step hsecond).1.trans hstage₂
      have hno := hw second (List.mem_cons_of_mem _ List.mem_cons_self)
      rw [(CycleReport.stage_of_not_fetch hno).1] at hs₂
      cases hs₂

/-- **After a plain return** comes the fetch at the address it leads to, and the address advances. -/
theorem fetch_after_return (h : e.step = .ok (ret, e')) (hr : ret.Jumps .ret)
    (hv : ret.microword.has .vcy = false) (hd : ret.microword.has .dgo = false)
    (hb : ¬ ret.microword.SelectsBank) :
    ∃ r e'', e'.step = .ok (r, e'') ∧ r.plan.fetch = true ∧
      e''.registers.latch = e.store.read e'.registers.address ∧
      e''.registers.address = e'.registers.address.succ := by
  obtain ⟨hstage, hlatch, _⟩ := sequencer_of_step h
  rw [CycleReport.plan_of_jump hr.1 hv hd] at hstage hlatch
  obtain ⟨r, e'', hnext⟩ := exists_step_of_latch h hlatch
  obtain ⟨hs, hw, ha⟩ := report_of_step hnext
  obtain ⟨_, hlatch', _, haddr', _⟩ := sequencer_of_step hnext
  have hword : r.microword = ret.microword := hw.trans hlatch
  have hplan : r.plan.fetch = true ∧ r.plan.address = .increment := by
    unfold CycleReport.plan
    rw [hs.trans hstage, hword, hv]
    exact ⟨rfl, rfl⟩
  rw [← hword] at hb
  rw [hplan.1, store_of_step h, CycleReport.origin_of_not_selectsBank hb, ha] at hlatch'
  have haddr' := haddr' hplan.2
  rw [CycleReport.origin_of_not_selectsBank hb, ha] at haddr'
  exact ⟨r, e'', hnext, hplan.1, hlatch', haddr'⟩

end Segment

/-- **A return resumes after the last call.** In every run that succeeds:

* a cycle writes the saved address exactly if it takes a call, and then with the eleven bits of the
  address that it is at after its bank select;
* a return that comes after a call and after no other call leads to these eleven bits, whatever the
  cycles in between do, and so to that address itself if it lies in the store;
* if the call was fetched by a cycle that advanced the address, and selects no bank, this is the
  address after the one it was fetched from;
* a return that is neither stretched nor deferred and selects no bank is followed by the fetch at
  that address. -/
theorem return_resumes_after_call {n : Nat} {e e' : Engine} {rs : List CycleReport}
    (h : e.run n = .ok (rs, e')) :
    (∀ before r after, rs = before ++ r :: after →
      ∃ e₁ e₂ k, e.run k = .ok (before, e₁) ∧ e₁.step = .ok (r, e₂) ∧
        e₂.registers.saved =
          if r.Jumps .call then r.origin &&& Address.mask else e₁.registers.saved) ∧
    (∀ before call body ret, rs = before ++ call :: (body ++ [ret]) →
      call.Jumps .call → (∀ r ∈ body, ¬ r.Jumps .call) → ret.Jumps .ret →
      e'.registers.address = call.origin &&& Address.mask ∧
      (call.origin.toNat < 0o4000 → e'.registers.address = call.origin) ∧
      (∀ earlier fetch wait, before = earlier ++ fetch :: wait →
        fetch.plan.fetch = true → fetch.plan.address = .increment →
        (∀ r ∈ wait, r.plan.fetch = false) → ¬ call.microword.SelectsBank →
        call.microword = e.store.read fetch.origin ∧ call.origin = fetch.origin.succ ∧
          e'.registers.address = fetch.origin.succ) ∧
      (ret.microword.has .vcy = false → ret.microword.has .dgo = false →
        ¬ ret.microword.SelectsBank →
        ∃ r e'', e'.step = .ok (r, e'') ∧ r.plan.fetch = true ∧
          e''.registers.latch = e.store.read e'.registers.address ∧
          e''.registers.address = e'.registers.address.succ)) := by
  constructor
  · rintro before r after rfl
    obtain ⟨e₁, k, _, hbefore, hrest⟩ := runs_of_append h
    obtain ⟨e₂, _, hstep, _⟩ := runs_of_cons hrest
    exact ⟨e₁, e₂, k, hbefore, hstep, saved_of_step hstep⟩
  rintro before call body ret rfl hc hb hr
  obtain ⟨e₁, _, _, hbefore, hsegment⟩ := runs_of_append h
  have hback := address_of_return hsegment hc hb hr
  refine ⟨hback, fun hlt => hback.trans (Address.and_mask_of_lt hlt), ?_, ?_⟩
  · rintro earlier fetch wait rfl hf hi hw hbank
    have hcut : earlier ++ fetch :: wait ++ call :: (body ++ [ret]) =
        earlier ++ ((fetch :: (wait ++ [call])) ++ (body ++ [ret])) := by simp
    rw [hcut] at h
    obtain ⟨e₂, _, _, hearlier, hlater⟩ := runs_of_append h
    obtain ⟨e₃, _, _, hfetched, _⟩ := runs_of_append hlater
    obtain ⟨hword, horigin⟩ := origin_of_fetched_call hfetched hf hi hw hc hbank
    rw [store_of_run hearlier] at hword
    rw [horigin, Address.succ_and_mask] at hback
    exact ⟨hword, horigin, hback⟩
  · intro hv hd hbank
    have hcut : before ++ call :: (body ++ [ret]) = (before ++ call :: body) ++ [ret] := by simp
    rw [hcut] at h
    obtain ⟨e₂, _, _, hmost, hlast⟩ := runs_of_append h
    obtain ⟨e₃, _, hret, hnil⟩ := runs_of_cons hlast
    rw [eq_of_run_nil hnil, ← store_of_run hmost]
    exact fetch_after_return hret hr hv hd hbank

/-- A call at the last address of the second bank returns to the first address of that bank. -/
theorem return_resumes_across_bank_end :
    let store := ControlStore.empty.writeAll
      [(0o3777, ⟨0o2021000000, 0, 0⟩), (0o2100, ⟨0o2040000000, 0, 0⟩)]
    let e : Engine := ⟨{ Registers.zero with address := 0o3777 }, store, 0⟩
    ∃ rs e' r e'', e.run 4 = .ok (rs, e') ∧ e'.registers.address = 0o2000 ∧
      e'.step = .ok (r, e'') ∧ e''.registers.latch = store.read 0o2000 ∧
      e''.registers.address = 0o2001 := by
  intro store e
  have hsaid : (e.run 4).toOption.map (fun p => p.1.map fun r => (r.origin, r.microword, r.plan)) =
      some [(0o3777, .nop, ⟨.normal, true, .increment⟩),
        (0o2000, ⟨0o2021000000, 0, 0⟩, ⟨.branchPending, false, .jump⟩),
        (0o2100, ⟨0o2021000000, 0, 0⟩, ⟨.normal, true, .increment⟩),
        (0o2101, ⟨0o2040000000, 0, 0⟩, ⟨.branchPending, false, .jump⟩)] := by
    decide +kernel
  obtain ⟨⟨rs, e'⟩, hrun, hsaid⟩ := Option.map_eq_some_iff.mp hsaid
  have h : e.run 4 = .ok (rs, e') := by
    cases hr : e.run 4 with
    | error cause => rw [hr] at hrun; cases hrun
    | ok p => rw [hr] at hrun; cases hrun; rfl
  simp only [List.map_eq_cons_iff, List.map_eq_nil_iff, Prod.mk.injEq] at hsaid
  obtain ⟨fetch, _, rfl, ⟨hp, -, hfetch⟩, call, _, rfl, ⟨-, hcall, hcplan⟩, second, _, rfl,
    ⟨-, -, hsecond⟩, ret, _, rfl, ⟨-, hret, hrplan⟩, rfl⟩ := hsaid
  have hplain (w : Microword) (hw : SpecialFunction.ofCode? w.special = some .idle) :
      ¬ w.SelectsBank := by
    rintro ⟨bank, hbank⟩
    rw [hw] at hbank
    cases hbank
  have hseq : call.Jumps .call := ⟨by rw [hcplan], by rw [hcall]; decide⟩
  have hback : ret.Jumps .ret := ⟨by rw [hrplan], by rw [hret]; decide⟩
  have hbody : ∀ r ∈ [second], ¬ r.Jumps .call := by
    intro r hr hj
    rw [List.mem_singleton.mp hr, CycleReport.Jumps, hsecond] at hj
    cases hj.1
  obtain ⟨-, hret_eq⟩ := return_resumes_after_call h
  obtain ⟨-, -, hfetched, hnext⟩ := hret_eq [fetch] call [second] ret rfl hseq hbody hback
  obtain ⟨-, -, haddr⟩ := hfetched [] fetch [] rfl (by rw [hfetch]) (by rw [hfetch]) (by simp)
    (hplain _ (by rw [hcall]; decide))
  obtain ⟨r, e'', hstep, -, hlatch, haddr'⟩ := hnext (by rw [hret]; decide) (by rw [hret]; decide)
    (hplain _ (by rw [hret]; decide))
  have hplace : e'.registers.address = 0o2000 := by rw [haddr, hp]; decide
  rw [hplace] at hlatch haddr'
  exact ⟨_, e', r, e'', h, hplace, hstep, hlatch, haddr'.trans (by decide)⟩

/-- The saved address is not the address that the call has left, if this has more than the eleven
bits of a micro address, as it may in a state that was read from data. -/
theorem saved_beyond_store :
    let e : Engine := ⟨{ Registers.zero with address := 0o7777, latch := ⟨0o2021000000, 0, 0⟩ },
      .empty, 0⟩
    ∃ r e', e.step = .ok (r, e') ∧ r.Jumps .call ∧ r.origin = 0o7777 ∧
      e'.registers.saved = 0o3777 ∧ e'.registers.saved ≠ r.origin :=
  ⟨_, _, rfl, ⟨rfl, rfl⟩, rfl, rfl, by decide⟩

end Engine

end MicroEngine
