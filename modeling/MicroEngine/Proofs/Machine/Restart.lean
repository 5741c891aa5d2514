import MicroEngine.Machine
import MicroEngine.Proofs.Configuration.RoundTrip
import MicroEngine.Proofs.Engine.Run
/-!
# Restarting an engine from a text

The text of a state is read back as that state, with every bit that its registers hold. An engine
with the state that was read and the same control store goes on as the first one would have.

* `Json.word?_word`, `Json.address?_address`: numbers of every size are read back.
* `Microword.ofJson?_toJson`, `Registers.ofJson?_toJson`: a state is read back from its JSON value.
* `Registers.ofText?`, `Machine.dumped?`: the state of a text, and of one unit in a machine's dump.
* `Engine.countedFrom`: an engine with another cycle count; `run_countedFrom`: its runs.
* **`restarts_from_text`**: reading back, and the runs of an engine that starts from what was read.
-/

namespace MicroEngine

open Json

/-! ## Numbers -/

namespace Json

theorem word?_word (w : UInt32) : word? (word w) = some w := by
  unfold word? word
  rw [natBelow?_nat w.toNat_lt_size]
  exact congrArg some UInt32.ofNat_toNat

theorem address?_address (a : UInt16) : address? (address a) = some a := by
  unfold address? address
  rw [natBelow?_nat a.toNat_lt_size]
  exact congrArg some UInt16.ofNat_toNat

/-- A list of the right length is read back as a vector. -/
theorem vector?_array {α : Type} {n : Nat} (write : α → Json) (read : Json → Option α)
    (h : ∀ a, read (write a) = some a) (v : Vector α n) :
    vector? n read (.array (v.toList.map write)) = some v := by
  unfold vector?
  rw [list?_array write read h]
  obtain ⟨as, rfl⟩ := v
  simp

end Json

/-! ## States -/

theorem Stage.ofJson?_text (stage : Stage) : Stage.ofJson? (.text stage.name) = some stage :=
  choice?_text (by decide) (by cases stage <;> decide)

/-- **A microword is read back** from its JSON value, with all 32 bits of each component. -/
theorem Microword.ofJson?_toJson (w : Microword) : ofJson? w.toJson = some w := by
  have hnames : ["words"].Nodup := by decide
  have hfields : fields? ["words"] w.toJson = some [some (.array (w.components.map word))] :=
    fields?_record [("words", .array (w.components.map word))] hnames
  have hwords : list? word? (.array (w.components.map word)) = some w.components :=
    list?_array word word? word?_word w.components
  unfold ofJson?
  rw [hfields]
  dsimp only
  unfold ofWords?
  rw [hwords]
  rfl

namespace Registers

/-- **A state is read back** from its JSON value, whatever its registers hold and however many words
its scratchpad has. -/
theorem ofJson?_toJson (s : Registers) : ofJson? s.toJson = some s := by
  have hnames : fieldNames.Nodup := by decide
  have hfields : fields? fieldNames s.toJson = some [some (.address s.address),
      some (.address s.saved), some (word s.m), some (word s.q), some (word s.z),
      some (.array (s.holding.toList.map word)), some (.array (s.scratchpad.toList.map word)),
      some s.latch.toJson, some (.text s.stage.name)] :=
    fields?_record [("o", _), ("os", _), ("m", _), ("q", _), ("z", _), ("r", _), ("sp", _),
      ("i", _), ("stage", _)] hnames
  unfold ofJson?
  rw [hfields]
  dsimp only
  rw [address?_address, address?_address, word?_word, word?_word, word?_word,
    vector?_array word word? word?_word, list?_array word word? word?_word,
    Microword.ofJson?_toJson, Stage.ofJson?_text]
  rfl

/-- The state that a JSON text holds. -/
def ofText? (text : String) : Option Registers := (parse? text).bind ofJson?

theorem ofText?_render {l : Layout} (hl : l.Blank) (depth : Nat) (s : Registers) :
    ofText? (render l depth s.toJson) = some s := by
  rw [ofText?, parse?_render hl, Option.bind_some, ofJson?_toJson]

end Registers

/-! ## The dump of a machine -/

namespace Machine

/-- The unit and the state of an entry of a dump. -/
def dumpedUnit? (j : Json) : Option (UnitId × Registers) :=
  match fields? ["unit", "enabled", "cycles", "state"] j with
  | some [some unit, _, _, some state] => do
    return (← UnitId.ofJson? unit, ← Registers.ofJson? state)
  | _ => none

/-- The state of a unit in the text of a dump. -/
def dumped? (u : UnitId) (text : String) : Option Registers := do
  match fields? ["iterations", "units"] (← parse? text) with
  | some [_, some units] => (← list? dumpedUnit? units).lookup u
  | _ => none

theorem dumpedUnit?_unitJson (m : Machine) (u : UnitId) :
    dumpedUnit? (m.unitJson u) = some (u, (m.engine u).registers) := by
  have hnames : ["unit", "enabled", "cycles", "state"].Nodup := by decide
  have hfields : fields? ["unit", "enabled", "cycles", "state"] (m.unitJson u) =
      some [some (.text u.name), some (.bool (m.isEnabled u)), some (.nat (m.engine u).cycles),
        some (m.engine u).registers.toJson] :=
    fields?_record [("unit", _), ("enabled", _), ("cycles", _), ("state", _)] hnames
  unfold dumpedUnit?
  rw [hfields]
  dsimp only
  rw [UnitId.ofJson?_text, Registers.ofJson?_toJson]
  rfl

/-- **The dump of a machine holds the state of each of its units.** -/
theorem dumped?_snapshot (m : Machine) (u : UnitId) :
    dumped? u m.snapshot.pretty = some (m.engine u).registers := by
  have hnames : ["iterations", "units"].Nodup := by decide
  have hfields : fields? ["iterations", "units"] m.snapshot =
      some [some (.nat m.iterations), some (.array (UnitId.all.map m.unitJson))] :=
    fields?_record [("iterations", _), ("units", _)] hnames
  have hunits : list? dumpedUnit? (.array (UnitId.all.map m.unitJson)) =
      some (UnitId.all.map fun u => (u, (m.engine u).registers)) := by
    simp [list?, UnitId.all, dumpedUnit?_unitJson]
  unfold dumped?
  rw [parse?_pretty, Option.bind_eq_bind, Option.bind_some, hfields]
  dsimp only
  rw [hunits]
  cases u <;> rfl

end Machine

/-! ## Engines with another cycle count -/

namespace Engine

/-- The engine with another count of completed cycles. -/
def countedFrom (e : Engine) (cycles : Nat) : Engine := { e with cycles := cycles }

theorem step_countedFrom (e : Engine) (c : Nat) :
    (e.countedFrom c).step = e.step.map fun p => (p.1, p.2.countedFrom (c + 1)) := by
  unfold step countedFrom
  cases e.registers.signals <;> rfl

/-- **The cycle count plays no part in a run.** -/
theorem run_countedFrom (e : Engine) (c k : Nat) :
    (e.countedFrom c).run k = (e.run k).map fun p => (p.1, p.2.countedFrom (c + k)) := by
  induction k generalizing e c with
  | zero => rfl
  | succ k ih =>
    rw [run, run, step_countedFrom]
    cases e.step with
    | error cause => rfl
    | ok p =>
      dsimp only [Except.map]
      rw [ih, Nat.add_right_comm]
      cases p.2.run k <;> rfl

/-- **An engine can be restarted from the text of its state.** In every layout of blanks:

* every state is read back from its text, and so is that of each unit from the dump of a machine;
* an engine that has run for so many cycles, and one that starts from the text of its state with the
  same control store, make the same reports from there on, in every number of cycles, and fail
  alike; only their cycle counts may differ. -/
theorem restarts_from_text {l : Layout} (hl : l.Blank) (depth : Nat) :
    (∀ s : Registers, Registers.ofText? (render l depth s.toJson) = some s) ∧
    (∀ (m : Machine) (u : UnitId),
      Machine.dumped? u m.snapshot.pretty = some (m.engine u).registers) ∧
    ∀ (n : Nat) (e e' : Engine) (rs : List CycleReport), e.run n = .ok (rs, e') →
      ∃ s, Registers.ofText? (render l depth e'.registers.toJson) = some s ∧
        ∀ cycles k, (Engine.mk s e.store cycles).run k =
          (e'.run k).map fun p => (p.1, p.2.countedFrom (cycles + k)) := by
  refine ⟨Registers.ofText?_render hl depth, Machine.dumped?_snapshot, fun n e e' rs h => ?_⟩
  refine ⟨e'.registers, Registers.ofText?_render hl depth e'.registers, fun cycles k => ?_⟩
  have hrestarted : Engine.mk e'.registers e.store cycles = e'.countedFrom cycles := by
    rw [← store_of_run h]
    rfl
  rw [hrestarted, run_countedFrom]

/-- A state with more bits than its registers have and with a scratchpad of two words, before and
after the first cycle of a stretched microword. -/
theorem restarts_from_text_wide :
    let s : Registers := ⟨0xFFFF, 0xF000, 0xFFFFFFFF, 0x80000000, 0x1000000,
      #v[0, 1, 2, 3, 4, 5, 0xFFFFFFFF], #[0xFFFFFFFF, 7], ⟨0xC0000000, 0xFFFFFFFF, 0xC0000008⟩,
      .normal⟩
    let e : Engine := ⟨s, .empty, 5⟩
    Registers.ofText? s.toJson.compact = some s ∧
    ∃ rs e' t, e.run 1 = .ok (rs, e') ∧ e'.registers.stage = .branchPending ∧
      Registers.ofText? e'.registers.toJson.pretty = some t ∧ t.scratchpad = #[0xFFFFFFFF, 7] ∧
      ∀ k, (Engine.mk t .empty 0).run k =
        (e'.run k).map fun p => (p.1, p.2.countedFrom (0 + k)) := by
  intro s e
  have hafter : (e.run 1).toOption.map
      (fun p => (p.2.registers.stage, p.2.registers.scratchpad)) =
      some (.branchPending, #[0xFFFFFFFF, 7]) := by
    decide +kernel
  obtain ⟨hread, -, -⟩ := restarts_from_text Layout.blank_compact 0
  obtain ⟨hread', -, hruns⟩ := restarts_from_text Layout.blank_pretty 0
  obtain ⟨⟨rs, e'⟩, hrun, hafter⟩ := exists_eq_ok_of_toOption_map hafter
  obtain ⟨hstage, hscratchpad⟩ := Prod.mk.inj hafter
  obtain ⟨t, ht, hgoes⟩ := hruns 1 e e' rs hrun
  cases (hread' _).symm.trans ht
  exact ⟨hread s, rs, e', _, hrun, hstage, ht, hscratchpad, hgoes 0⟩

end Engine

end MicroEngine
