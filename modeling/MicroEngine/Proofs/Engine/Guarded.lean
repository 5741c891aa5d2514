import Mathlib.Tactic.IntervalCases
import MicroEngine.Engine
import MicroEngine.Proofs.BooleanBox.Bits
import MicroEngine.Proofs.Microword.Bits
/-!
# Cycles with guards

A microcycle reads tables by numbers that it finds in the microword, adds words of 32 bits and shifts
them. Here it is written with a guard at each place where that could go wrong, and no guard ever
stops it, whatever the registers hold.

* `Hazard`, `Guarded`: a computation that stops at the first hazard.
* `Guarded.entry`, `add`, `sub`, `shiftLeft`, `shiftRight`: the operations that have hazards.
* `Guarded.field`, `flag`, `takeApart`: what a microword says, read with guards.
* `Guarded.box`, `sum`, `merge`: the data path with guards.
* **`Guarded.step_eq`**: a cycle with guards is the cycle.
-/

namespace MicroEngine

/-- What stops a computation with guards. -/
inductive Hazard
  /-- A table has no such entry. -/
  | index
  /-- A sum or a difference is outside the range of its integers. -/
  | overflow
  /-- A shift is by the number of bits of the word or by more. -/
  | shift
  deriving DecidableEq, Repr

/-- A computation in which every look-up in a table, every sum and every shift is guarded. -/
abbrev Guarded := Except Hazard

namespace Guarded

@[simp] theorem ok_bind {α β : Type} (a : α) (f : α → Guarded β) : (Except.ok a >>= f) = f a := rfl

/-! ## Operations with hazards -/

def entry {α : Type} (table : List α) (i : Nat) : Guarded α :=
  match table[i]? with
  | some a => .ok a
  | none => .error .index

def add (a b : Word) : Guarded Word :=
  if a.toNat + b.toNat < UInt32.size then .ok (a + b) else .error .overflow

def sub (a b : UInt8) : Guarded UInt8 :=
  if b.toNat ≤ a.toNat then .ok (a - b) else .error .overflow

def shiftLeft (v n : UInt32) : Guarded UInt32 :=
  if n.toNat < 32 then .ok (v <<< n) else .error .shift

def shiftRight (v n : UInt32) : Guarded UInt32 :=
  if n.toNat < 32 then .ok (v >>> n) else .error .shift

theorem entry_of_eq_some {α : Type} {table : List α} {i : Nat} {a : α} (h : table[i]? = some a) :
    entry table i = .ok a := by
  rw [entry, h]

theorem add_of_lt {a b : Word} (h : a.toNat + b.toNat < UInt32.size) : add a b = .ok (a + b) :=
  if_pos h

theorem shiftLeft_of_lt {v n : UInt32} (h : n.toNat < 32) : shiftLeft v n = .ok (v <<< n) :=
  if_pos h

theorem shiftRight_of_lt {v n : UInt32} (h : n.toNat < 32) : shiftRight v n = .ok (v >>> n) :=
  if_pos h

theorem mapM_eq {α β : Type} {f : α → Guarded β} {g : α → β} {as : List α}
    (h : ∀ a ∈ as, f a = .ok (g a)) : as.mapM f = .ok (as.map g) := by
  induction as with
  | nil => rfl
  | cons a as ih =>
    obtain ⟨ha, has⟩ := List.forall_mem_cons.mp h
    rw [List.mapM_cons, ha, ok_bind, ih has]
    rfl

/-! ## Microwords -/

/-- A component of a microword, looked up by its number. -/
def component (w : Microword) (c : Component) : Guarded UInt32 := entry w.components c.index

def read (w : Microword) (s : Span) : Guarded UInt32 := do
  let v ← component w s.component
  let low ← shiftRight v s.shift
  return low &&& s.ones

def field (w : Microword) : Field → Guarded UInt32
  | .constant => do
    let upper ← shiftLeft (← read w Field.constantUpper) 12
    let lower ← read w Field.constantLower
    return upper ||| lower
  | f => read w f.span

def flag (w : Microword) (f : Flag) : Guarded Bool := do
  let v ← component w (Microword.bitComponent f.bit)
  let mask ← shiftLeft 1 (29 - f.bit % 30).toUInt32
  return v &&& mask != 0

/-- Every flag and every field of a microword, taken out of it. What a cycle reads of its microword
is among them. -/
def takeApart (w : Microword) : Guarded Unit := do
  forM Flag.all fun f => discard (flag w f)
  forM Field.all fun f => discard (field w f)

section Microwords

variable (w : Microword)

theorem component_eq (c : Component) : component w c = .ok (w.component c) :=
  entry_of_eq_some (by cases c <;> rfl)

theorem read_eq {s : Span} (h : s.shift.toNat < 32) : read w s = .ok (w.read s) := by
  simp only [read, component_eq, ok_bind, shiftRight_of_lt h]
  rfl

/-- **A field of a microword is read without hazard**, whatever the components are. -/
theorem field_eq (f : Field) : field w f = .ok (w.field f) := by
  cases f with
  | constant =>
    have hupper : read w Field.constantUpper = .ok (w.read Field.constantUpper) :=
      read_eq w (by decide)
    have hlower : read w Field.constantLower = .ok (w.read Field.constantLower) :=
      read_eq w (by decide)
    have hshift (v : UInt32) : shiftLeft v 12 = .ok (v <<< 12) := shiftLeft_of_lt (by decide)
    simp only [field, hupper, hlower, hshift, ok_bind]
    rfl
  | _ => exact read_eq w (by decide)

/-- **A flag of a microword is read without hazard**, whatever the components are. -/
theorem flag_eq (f : Flag) : flag w f = .ok (w.has f) := by
  have hplace : (29 - f.bit % 30).toUInt32.toNat < 32 := by
    rw [Nat.toUInt32, UInt32.toNat_ofNat']
    omega
  simp only [flag, component_eq, shiftLeft_of_lt hplace, ok_bind]
  rw [Microword.has, Microword.bit, decide_eq_true f.bit_lt, Bool.true_and]
  rfl

theorem forM_eq {α : Type} {check : α → Guarded PUnit} (h : ∀ a, check a = .ok ()) :
    ∀ l : List α, forM l check = .ok ()
  | [] => rfl
  | a :: l => by
    rw [List.forM_cons, h, ok_bind]
    exact forM_eq h l

/-- **A microword is taken apart without hazard.** -/
theorem takeApart_eq : takeApart w = .ok () := by
  have hflag (f : Flag) : discard (flag w f) = (.ok () : Guarded PUnit) := by
    rw [flag_eq]
    rfl
  have hfield (f : Field) : discard (field w f) = (.ok () : Guarded PUnit) := by
    rw [field_eq]
    rfl
  rw [takeApart, forM_eq hflag, ok_bind, forM_eq hfield]

end Microwords

/-! ## The data path -/

/-- A boolean box, whose function is looked up in the table of functions. -/
def box (code : UInt8) (a b : Word) : Guarded Word := do
  let f ← entry BoxFunction.all (code &&& 0o17).toNat
  return f.apply a b

def sum (a b : Word) (carry : Bool) : Guarded Word := do
  let s ← add a.trim b.trim
  let t ← add s carry.toUInt32
  return t.trim

def shiftUp (w : Word) (n : UInt32) : Guarded Word :=
  if 24 ≤ n then return 0
  else do
    let v ← shiftLeft w n
    return Word.trim v

/-- The amounts by which the first special functions move the left box up. -/
def mergeAmounts : List UInt32 := [1, 2, 3, 4, 8, 12, 16, 20]

/-- The special function of a code. A fixed amount is looked up by the place of the code among those
that have one. -/
def special (code : UInt8) : Guarded (Except OpcodeError SpecialFunction) :=
  if 0o01 ≤ code ∧ code ≤ 0o10 then do
    let place ← sub code 1
    let amount ← entry mergeAmounts place.toNat
    return .ok (.mergeBy amount)
  else return SpecialFunction.decode code

/-- How far the left box is moved up, if it is. -/
def amount? (f : SpecialFunction) (z : Word) : Guarded (Option UInt32) :=
  match f with
  | .mergeByZ3 => do
    let v ← shiftRight z 2
    return some (v &&& 0o7)
  | f => return f.amount? z

def merge (f : SpecialFunction) (box x z : Word) : Guarded Word := do
  match ← amount? f z with
  | some n => return x ||| (← shiftUp box n)
  | none => return x

/-- **A boolean box has a function for every code.** -/
theorem box_eq (code : UInt8) (a b : Word) :
    box code a b = .ok ((BoxFunction.ofCode code).apply a b) := by
  simp only [box, entry_of_eq_some (BoxFunction.getElem?_all code), ok_bind]
  rfl

/-- **The adder does not overflow**: its sums are of 24 bits each and a carry. -/
theorem sum_eq (a b : Word) (carry : Bool) : sum a b carry = .ok (Word.sum a b carry) := by
  have ha := Word.toNat_trim_lt a
  have hb := Word.toNat_trim_lt b
  have hc : carry.toUInt32.toNat ≤ 1 := by cases carry <;> decide
  have hsize : UInt32.size = 4294967296 := rfl
  have hsum : (a.trim + b.trim).toNat ≤ a.trim.toNat + b.trim.toNat := by
    rw [UInt32.toNat_add]
    exact Nat.mod_le _ _
  have hfirst : add a.trim b.trim = .ok (a.trim + b.trim) := add_of_lt (by omega)
  have hsecond : add (a.trim + b.trim) carry.toUInt32 = .ok (a.trim + b.trim + carry.toUInt32) :=
    add_of_lt (by omega)
  simp only [sum, hfirst, hsecond, ok_bind]
  rfl

theorem shiftUp_eq (w : Word) (n : UInt32) : shiftUp w n = .ok (w.shiftUp n) := by
  unfold shiftUp Word.shiftUp
  split
  · rfl
  · next hn =>
    have hlt : n.toNat < 32 := by
      have hn : ¬ 24 ≤ n.toNat := hn
      omega
    rw [shiftLeft_of_lt hlt]
    rfl

/-- **The table of amounts has a place for every code that is looked up in it.** -/
theorem special_eq (code : UInt8) : special code = .ok (SpecialFunction.decode code) := by
  by_cases h : 0o01 ≤ code ∧ code ≤ 0o10
  · have hplaces (n : Nat) (hfirst : 1 ≤ n) (hlast : n ≤ 8) :
        special (UInt8.ofNat n) = .ok (SpecialFunction.decode (UInt8.ofNat n)) := by
      interval_cases n <;> rfl
    have hcode := hplaces code.toNat h.1 h.2
    rwa [UInt8.ofNat_toNat] at hcode
  · exact if_neg h

theorem amount?_eq (f : SpecialFunction) (z : Word) : amount? f z = .ok (f.amount? z) := by
  cases f with
  | mergeByZ3 =>
    simp only [amount?, shiftRight_of_lt (show (2 : UInt32).toNat < 32 by decide), ok_bind]
    rfl
  | _ => rfl

theorem merge_eq (f : SpecialFunction) (box x z : Word) :
    merge f box x z = .ok (f.merge box x z) := by
  simp only [merge, SpecialFunction.merge, amount?_eq, ok_bind]
  cases f.amount? z with
  | none => rfl
  | some n =>
    simp only [shiftUp_eq, ok_bind]
    rfl

/-! ## The cycle -/

def signals (s : Registers) : Guarded (Except OpcodeError Signals) := do
  let w := s.latch
  takeApart w
  let left ← box w.leftBox s.m s.q
  let right ← box w.rightBox s.z s.q
  let read ← sum (s.readHolding w.readRegister) 0 (w.has .ihr)
  let added ← sum left right (w.has .loc)
  let y := gate (w.has .tcy) w.constant ||| gate (w.has .tspy) (s.readScratchpad s.selected) |||
    gate (w.has .thy) read ||| gate (w.has .tosy) s.saved.toUInt32
  match ← special w.special with
  | .error cause => return .error cause
  | .ok f =>
    let merged ← merge f left (gate (w.has .tcx) w.constant) s.z
    let x := merged ||| gate (w.has .tax) added
    return do
      let branch ← BranchCondition.evaluate w.condition x y left s
      return { x := x, y := y, box := left, effect := f.effect, branch := branch }

/-- A microcycle with guards. Once its values are there, it has no hazard left: a write to a register
that is missing is dropped, the micro address wraps around and every address can be fetched from. -/
def step (e : Engine) : Guarded (Except OpcodeError (CycleReport × Engine)) := do
  match ← signals e.registers with
  | .error cause => return .error cause
  | .ok sig => return .ok (Engine.report e.registers sig,
      { e with registers := e.registers.finish sig e.store.read, cycles := e.cycles + 1 })

theorem signals_eq (s : Registers) : signals s = .ok s.signals := by
  simp only [signals, takeApart_eq, box_eq, sum_eq, special_eq, ok_bind]
  unfold Registers.signals
  cases SpecialFunction.decode s.latch.special with
  | error cause => rfl
  | ok f =>
    simp only [merge_eq, ok_bind]
    rfl

/-- **A cycle with guards is the cycle.** -/
theorem step_eq (e : Engine) : step e = .ok e.step := by
  simp only [step, signals_eq, ok_bind]
  unfold Engine.step
  cases e.registers.signals <;> rfl

end Guarded

end MicroEngine
