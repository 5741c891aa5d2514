import Mathlib.Data.List.Nodup
import MicroEngine.Debugger.Screen
import MicroEngine.Proofs.Engine.Guarded
import MicroEngine.Proofs.Machine.Invariant
/-!
# Views of a reachable debugger

The scratchpad and the control store are shown in windows that are cut to the words there are. The
window on the scratchpad begins at the scroll position, which no key moves beyond the last word; the
window on the control store is laid around the micro address of the unit on view, which lies within
the store.

* `Debugger.Change`, `Debugger.Reachable`: what can be done to a debugger, and what comes about.
* `Debugger.WellFormed`: the machine is well formed and the scroll position is that of a word;
  **`Reachable.wellFormed`**: every reachable debugger is well formed.
* `Debugger.guardedLines`: the lines of the scratchpad, drawn with a guard at each look-up.
* **`scratchpad_shows_words`**: the window on the scratchpad.
* **`window_shows_current`**: the window on the control store.
-/

namespace MicroEngine

/-- A scratchpad word that is there is read at its place. -/
theorem Registers.readScratchpad_of_lt {s : Registers} {i : Nat} (hi : i < scratchpadSize)
    (h : i < s.scratchpad.size) : s.readScratchpad i = s.scratchpad[i] := by
  rw [readScratchpad, Nat.mod_eq_of_lt hi, Array.getElem?_eq_getElem h, Option.getD_some]

namespace Debugger

/-! ## Reachable debuggers -/

/-- What can be done to a debugger. -/
inductive Change : Debugger → Debugger → Prop
  | press (d : Debugger) (k : Key) : Change d (d.press k)
  /-- An iteration on its own; the key for it ends a continuous run first. -/
  | step (d : Debugger) : Change d d.step
  | tick (d : Debugger) : Change d d.tick
  /-- A change of the machine that the debugger is around. -/
  | machine (d : Debugger) {m : Machine} (h : d.machine.Change m) : Change d { d with machine := m }

/-- The debuggers that come about: those started on the reference machine or on the machine of a
configuration, and what changes make of them. -/
inductive Reachable : Debugger → Prop
  | reference : Reachable (start .reference)
  | ofConfig {read : String → Except FileError String} {c : Configuration} {m : Machine}
    (h : Machine.ofConfig read c = .ok m) : Reachable (start m)
  | change {d d' : Debugger} (h : Reachable d) (hd : d.Change d') : Reachable d'

/-- The machine is well formed, and the scratchpad is shown from one of its words on. -/
structure WellFormed (d : Debugger) : Prop where
  machine : d.machine.WellFormed
  scroll_lt : d.scroll < Registers.scratchpadSize

theorem scroll_step (d : Debugger) : d.step.scroll = d.scroll := by
  unfold step
  split <;> rfl

theorem scroll_tick (d : Debugger) : d.tick.scroll = d.scroll := by
  unfold tick
  split
  · rfl
  · split
    · rfl
    · dsimp only
      split <;> rfl

/-- **No key moves the scroll position beyond the last word.** -/
theorem scroll_press_lt {d : Debugger} (h : d.scroll < Registers.scratchpadSize) (k : Key) :
    (d.press k).scroll < Registers.scratchpadSize := by
  cases k with
  | step =>
    rw [press, scroll_step]
    exact h
  | nextUnit => exact Nat.zero_lt_succ 63
  | scrollUp => exact Nat.lt_of_le_of_lt (Nat.sub_le d.scroll 1) h
  | scrollDown =>
    rw [press, scrollDown]
    split
    · next hlt => exact hlt
    · exact h
  | run | pause | breakpoint | enable | reset | diagnostic | quit => exact h

theorem WellFormed.change {d d' : Debugger} (h : d.WellFormed) (hd : d.Change d') :
    d'.WellFormed := by
  cases hd with
  | press k => exact ⟨Machine.wellFormed_press h.machine k, scroll_press_lt h.scroll_lt k⟩
  | step =>
    refine ⟨?_, (scroll_step d).trans_lt h.scroll_lt⟩
    rw [Machine.machine_debuggerStep]
    exact Machine.wellFormed_step h.machine
  | tick => exact ⟨Machine.wellFormed_tick h.machine, (scroll_tick d).trans_lt h.scroll_lt⟩
  | machine hm => exact ⟨h.machine.change hm, h.scroll_lt⟩

/-- **Every reachable debugger is well formed.** -/
theorem Reachable.wellFormed {d : Debugger} (h : d.Reachable) : d.WellFormed := by
  induction h with
  | reference => exact ⟨Machine.wellFormed_reference, Nat.zero_lt_succ 63⟩
  | ofConfig hc => exact ⟨Machine.wellFormed_ofConfig hc, Nat.zero_lt_succ 63⟩
  | change _ hd ih => exact ih.change hd

theorem reachable_foldl_press {d : Debugger} (h : d.Reachable) (ks : List Key) :
    (ks.foldl press d).Reachable := by
  induction ks generalizing d with
  | nil => exact h
  | cons k ks ih => exact ih (h.change (.press d k))

/-! ## The scratchpad -/

/-- The line of a scratchpad word. -/
def scratchpadLine (i : Nat) (w : Word) : List Cell :=
  styled (wordStyle w) ("SP[" ++ Text.octal2 i ++ "]: " ++ Text.octal8 w.toNat)

/-- The lines of the scratchpad panel, drawn with a guard: each word is looked up at its place. -/
def guardedLines (d : Debugger) (height : Nat) : Guarded (List (List Cell)) :=
  (d.scratchpadRows height).mapM fun i => do
    let w ← Guarded.entry d.engine.registers.scratchpad.toList i
    return scratchpadLine i w

theorem mem_scratchpadRows {d : Debugger} {height i : Nat} :
    i ∈ d.scratchpadRows height ↔ d.scroll ≤ i ∧ i < min (d.scroll + (height - 2)) 64 := by
  rw [scratchpadRows, List.mem_range'_1, Registers.scratchpadSize]
  omega

/-- **The window on the scratchpad never leaves it.** In every reachable debugger the scroll position
is that of one of the 64 words of the unit on view, and in a panel of any height every look-up finds
its word. The lines are those of the words from the scroll position on, one after another, as many
as fit into the panel and are left in the scratchpad, and each shows the value of its word. -/
theorem scratchpad_shows_words {d : Debugger} (h : d.Reachable) (height : Nat) :
    let words := d.engine.registers.scratchpad
    let lines := (d.scratchpadPanel height).lines
    d.scroll ≤ 63 ∧ words.size = 64 ∧
    guardedLines d height = .ok lines ∧
    lines.length = min (d.scroll + (height - 2)) 64 - d.scroll ∧
    ∀ k (hk : k < lines.length), ∃ hi : d.scroll + k < words.size,
      lines[k] = scratchpadLine (d.scroll + k) words[d.scroll + k] := by
  intro words lines
  have hscroll : d.scroll < 64 := h.wellFormed.scroll_lt
  have hsize : words.size = 64 := (h.wellFormed.machine d.selected).registers.scratchpad_size
  have hlines : lines = (d.scratchpadRows height).map fun i =>
      scratchpadLine i (d.engine.registers.readScratchpad i) := rfl
  have hlength : lines.length = min (d.scroll + (height - 2)) 64 - d.scroll := by
    rw [hlines, List.length_map, scratchpadRows, List.length_range', Registers.scratchpadSize]
  refine ⟨Nat.le_of_lt_succ hscroll, hsize, ?_, hlength, fun k hk => ?_⟩
  · rw [hlines]
    refine Guarded.mapM_eq fun i hi => ?_
    have hlt : i < 64 := lt_of_lt_of_le (mem_scratchpadRows.mp hi).2 (Nat.min_le_right _ 64)
    have hin : i < words.size := hlt.trans_eq hsize.symm
    have hword : words.toList[i]? = some (d.engine.registers.readScratchpad i) := by
      rw [Array.getElem?_toList, Array.getElem?_eq_getElem hin,
        Registers.readScratchpad_of_lt hlt hin]
    rw [Guarded.entry_of_eq_some hword, Guarded.ok_bind]
    rfl
  · have hlt : d.scroll + k < 64 := by omega
    have hin : d.scroll + k < words.size := hlt.trans_eq hsize.symm
    refine ⟨hin, ?_⟩
    simp only [hlines, List.getElem_map, scratchpadRows, List.getElem_range', Nat.one_mul]
    rw [Registers.readScratchpad_of_lt hlt hin]

/-- Seventy times down from the scratchpad of the second processor: only its last word is in a panel
of five rows, and none is in a panel that is all frame. -/
theorem scratchpad_shows_last_word :
    let d := (.step :: .nextUnit :: List.replicate 70 .scrollDown).foldl press (start .reference)
    d.Reachable ∧ d.scroll = 63 ∧ d.selected = .cpu1 ∧ d.engine.registers.scratchpad.size = 64 ∧
      (d.scratchpadPanel 5).lines.length = 1 ∧ (d.scratchpadPanel 1).lines.length = 0 ∧
      guardedLines d 5 = .ok (d.scratchpadPanel 5).lines := by
  intro d
  have hd : d.Reachable := reachable_foldl_press .reference _
  obtain ⟨-, hsize, hlines, hfive, -⟩ := scratchpad_shows_words hd 5
  obtain ⟨-, -, -, hone, -⟩ := scratchpad_shows_words hd 1
  have hscroll : d.scroll = 63 := by decide +kernel
  rw [hscroll] at hfive hone
  exact ⟨hd, hscroll, by decide +kernel, hsize, hfive, hone, hlines⟩

/-! ## The control store -/

theorem length_disassembly (d : Debugger) (n : Nat) :
    (d.disassembly n).length =
      min n (2048 - (d.engine.registers.address.toNat - n / 2)) := by
  rw [disassembly, List.length_map, List.length_range']

theorem address_disassembly (d : Debugger) (n : Nat) :
    (d.disassembly n).map ListedWord.address =
      List.range' (d.engine.registers.address.toNat - n / 2)
        (min n (2048 - (d.engine.registers.address.toNat - n / 2))) := by
  rw [disassembly, List.map_map]
  exact List.map_id _

/-- **The window on the control store always shows the current word.** In every reachable debugger
the listing of `n` lines begins half of them before the micro address of the unit on view, or at the
first word, and goes on one address after another to its length or to the last word. Each line is the
disassembly of the word at its address, and is marked as current if that is the micro address. If a
line is asked for, the micro address is among them, once, and its line is the only one marked. -/
theorem window_shows_current {d : Debugger} (h : d.Reachable) (n : Nat) :
    let store := d.engine.store
    let current := d.engine.registers.address.toNat
    let first := current - n / 2
    let window := d.disassembly n
    window.length = min n (2048 - first) ∧
    (∀ k (hk : k < window.length), ∃ ha : first + k < 2048,
      window[k] = ⟨first + k, store.words[first + k].disassemble, decide (first + k = current)⟩) ∧
    (0 < n → (window.map ListedWord.address).count current = 1 ∧
      ∃ hc : current < 2048, window.filter ListedWord.isCurrent =
        [⟨current, store.words[current].disassemble, true⟩]) := by
  intro store current first window
  have hlt : current < 2048 := (h.wellFormed.machine d.selected).registers.address_lt
  have hlength : window.length = min n (2048 - first) := length_disassembly d n
  refine ⟨hlength, fun k hk => ?_, fun hn => ?_⟩
  · have ha : first + k < 2048 := by omega
    refine ⟨ha, ?_⟩
    simp only [window, disassembly, List.getElem_map, List.getElem_range', Nat.one_mul]
    rw [ControlStore.read_ofNat _ ha]
    rfl
  · have hmem : current ∈ List.range' first (min n (2048 - first)) := by
      rw [List.mem_range'_1]
      omega
    have hcount := List.count_eq_one_of_mem (List.nodup_range' 1) hmem
    refine ⟨(congrArg (List.count current) (address_disassembly d n)).trans hcount, hlt, ?_⟩
    -- The marked lines are those of the micro address, and it is in the window once.
    have hmarked : window.filter ListedWord.isCurrent =
        ((List.range' first (min n (2048 - first))).filter (· == current)).map fun a =>
          ⟨a, (store.read a.toUInt16).disassemble, a == current⟩ := List.filter_map
    rw [hmarked, List.filter_beq, hcount, List.replicate_one, List.map_singleton,
      ControlStore.read_ofNat store hlt, beq_self_eq_true]

/-- A processor that was put one word before the end of the store: of seven lines five are left. -/
theorem window_shows_word_before_end :
    let e := Machine.reference.engine .cpu0
    let d := { start .reference with
      machine := Machine.reference.setEngine .cpu0
        { e with registers := e.registers.setAddress 0o3776 } }
    d.Reachable ∧ (d.disassembly 7).length = 5 ∧
      ((d.disassembly 7).map ListedWord.address).count 0o3776 = 1 ∧
      ∃ text, (d.disassembly 7).filter ListedWord.isCurrent = [⟨0o3776, text, true⟩] := by
  intro e d
  have hd : d.Reachable :=
    .change .reference (.machine _ (.engine .cpu0 (.registers (.setAddress 0o3776))))
  have hcurrent : d.engine.registers.address.toNat = 0o3776 := by decide +kernel
  obtain ⟨hlength, -, hmarked⟩ := window_shows_current hd 7
  obtain ⟨hcount, hc, hfilter⟩ := hmarked (by decide)
  simp only [hcurrent] at hlength hcount hfilter
  exact ⟨hd, hlength, hcount, _, hfilter⟩

end Debugger

end MicroEngine
