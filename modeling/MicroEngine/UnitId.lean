/-!
# The six micro-engines

* `UnitId`: the units, `UnitId.all` in scheduling order.
* `UnitId.name`, `UnitId.ofName?`: device names, found without regard to case.
* `UnitMap`: one value for each unit.
-/

namespace MicroEngine

/-- One of the six micro-engines. -/
inductive UnitId
  /-- General purpose processor 0. -/
  | cpu0
  /-- General purpose processor 1. -/
  | cpu1
  /-- Memory scheduler. -/
  | msch
  /-- Channel input and output processor. -/
  | chio
  /-- Auxiliary memory controller. -/
  | amc
  /-- Auxiliary memory transfer unit. -/
  | amtu
  deriving DecidableEq, Repr, Inhabited

namespace UnitId

/-- All units, in scheduling order. -/
def all : List UnitId := [cpu0, cpu1, msch, chio, amc, amtu]

/-- The unit's place in the scheduling order. -/
def index : UnitId → Nat
  | cpu0 => 0
  | cpu1 => 1
  | msch => 2
  | chio => 3
  | amc => 4
  | amtu => 5

/-- The unit after this one in scheduling order; the first follows the last. -/
def next : UnitId → UnitId
  | cpu0 => cpu1
  | cpu1 => msch
  | msch => chio
  | chio => amc
  | amc => amtu
  | amtu => cpu0

def name : UnitId → String
  | cpu0 => "CPU0"
  | cpu1 => "CPU1"
  | msch => "MSCH"
  | chio => "CHIO"
  | amc => "AMC"
  | amtu => "AMTU"

/-- The name with a capital first letter alone, as it stands in diagnostic dumps. -/
def capitalName : UnitId → String
  | cpu0 => "Cpu0"
  | cpu1 => "Cpu1"
  | msch => "Msch"
  | chio => "Chio"
  | amc => "Amc"
  | amtu => "Amtu"

/-- The unit with this device name; capital and small letters of the Latin alphabet are not told
apart. -/
def ofName? (name : String) : Option UnitId :=
  let sought := name.toList.map Char.toUpper
  all.find? fun u => u.name.toList == sought

theorem mem_all (u : UnitId) : u ∈ all := by cases u <;> decide

end UnitId

/-- One value for each unit. -/
structure UnitMap (α : Type) where
  cpu0 : α
  cpu1 : α
  msch : α
  chio : α
  amc : α
  amtu : α
  deriving DecidableEq, Repr

namespace UnitMap

variable {α : Type}

/-- The map whose value at a unit is given by a function. -/
def ofFn (f : UnitId → α) : UnitMap α :=
  ⟨f .cpu0, f .cpu1, f .msch, f .chio, f .amc, f .amtu⟩

def get (m : UnitMap α) : UnitId → α
  | .cpu0 => m.cpu0
  | .cpu1 => m.cpu1
  | .msch => m.msch
  | .chio => m.chio
  | .amc => m.amc
  | .amtu => m.amtu

def set (m : UnitMap α) (u : UnitId) (a : α) : UnitMap α :=
  match m, u with
  | ⟨_, v1, v2, v3, v4, v5⟩, .cpu0 => ⟨a, v1, v2, v3, v4, v5⟩
  | ⟨v0, _, v2, v3, v4, v5⟩, .cpu1 => ⟨v0, a, v2, v3, v4, v5⟩
  | ⟨v0, v1, _, v3, v4, v5⟩, .msch => ⟨v0, v1, a, v3, v4, v5⟩
  | ⟨v0, v1, v2, _, v4, v5⟩, .chio => ⟨v0, v1, v2, a, v4, v5⟩
  | ⟨v0, v1, v2, v3, _, v5⟩, .amc => ⟨v0, v1, v2, v3, a, v5⟩
  | ⟨v0, v1, v2, v3, v4, _⟩, .amtu => ⟨v0, v1, v2, v3, v4, a⟩

/-- The map with a function applied to every value. -/
def map {β : Type} (f : α → β) (m : UnitMap α) : UnitMap β :=
  ⟨f m.cpu0, f m.cpu1, f m.msch, f m.chio, f m.amc, f m.amtu⟩

@[simp] theorem get_ofFn (f : UnitId → α) (u : UnitId) : (ofFn f).get u = f u := by
  cases u <;> rfl

@[simp] theorem get_map {β : Type} (f : α → β) (m : UnitMap α) (u : UnitId) :
    (m.map f).get u = f (m.get u) := by
  cases u <;> rfl

@[simp] theorem get_set_self (m : UnitMap α) (u : UnitId) (a : α) : (m.set u a).get u = a := by
  cases u <;> rfl

theorem get_set_of_ne (m : UnitMap α) {u v : UnitId} (a : α) (h : v ≠ u) :
    (m.set u a).get v = m.get v := by
  cases u <;> cases v <;> first | rfl | exact absurd rfl h

/-- Two maps with the same value at every unit are equal. -/
theorem ext_get {m n : UnitMap α} (h : ∀ u, m.get u = n.get u) : m = n := by
  have h0 := h .cpu0
  have h1 := h .cpu1
  have h2 := h .msch
  have h3 := h .chio
  have h4 := h .amc
  have h5 := h .amtu
  cases m
  cases n
  simp_all [get]

end UnitMap

end MicroEngine
