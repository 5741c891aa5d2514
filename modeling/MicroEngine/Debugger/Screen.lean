import MicroEngine.Debugger
/-!
# The debugger's screen

A screen is rows of cells. Each view of the debugger is a panel: a frame with a title and a list of
lines, which are cut or filled up to the width of the panel.

* `Style`, `Cell`: a character with its colour.
* `Panel`, `Panel.rows`: a view, and its cells in a given size.
* `Debugger.draw`: the screen of the debugger.
* `Screen.runs`: the coloured runs of a row.
-/

namespace MicroEngine

inductive Colour
  | white
  | darkGray
  | gray
  | yellow
  | cyan
  | green
  | magenta
  | red
  deriving DecidableEq, Repr

def Colour.name : Colour → String
  | .white => "White"
  | .darkGray => "DarkGray"
  | .gray => "Gray"
  | .yellow => "Yellow"
  | .cyan => "Cyan"
  | .green => "Green"
  | .magenta => "Magenta"
  | .red => "Red"

/-- How a character is shown. -/
structure Style where
  /-- The colour, if it is not that of the terminal. -/
  colour : Option Colour
  bold : Bool
  deriving DecidableEq, Repr

namespace Style

def plain : Style := ⟨none, false⟩

def ofColour (c : Colour) : Style := ⟨some c, false⟩

/-- The style of what is selected. -/
def highlight : Style := ⟨some .yellow, true⟩

def name (s : Style) : String :=
  (s.colour.map Colour.name).getD "" ++ if s.bold then " bold" else ""

end Style

/-- A character on the screen. -/
structure Cell where
  char : Char
  style : Style
  deriving DecidableEq, Repr

def styled (style : Style) (text : String) : List Cell := text.toList.map fun c => ⟨c, style⟩

/-- The cells of a text in the style of the terminal. -/
def raw (text : String) : List Cell := styled .plain text

def fit (width : Nat) (fill : Cell) (cells : List Cell) : List Cell :=
  let cut := cells.take width
  cut ++ List.replicate (width - cut.length) fill

/-- A frame with a title and lines. -/
structure Panel where
  title : String
  /-- The style of the frame and the title. -/
  frame : Style
  lines : List (List Cell)

namespace Panel

def rows (p : Panel) (width height : Nat) : List (List Cell) :=
  let edge (c : Char) : Cell := ⟨c, p.frame⟩
  let across (left right : Char) (cells : List Cell) : List Cell :=
    edge left :: fit (width - 2) (edge '─') cells ++ [edge right]
  let line (cells : List Cell) : List Cell :=
    edge '│' :: fit (width - 2) ⟨' ', .plain⟩ cells ++ [edge '│']
  let inner := p.lines.take (height - 2)
  let blank := List.replicate (height - 2 - inner.length) []
  across '┌' '┐' (styled p.frame p.title) :: (inner ++ blank).map line ++ [across '└' '┘' []]

end Panel

namespace Debugger

/-! ## Panels -/

/-- The units: the one on view highlighted, disabled ones dimmed. -/
def unitsPanel (d : Debugger) : Panel where
  title := " Units "
  frame := .plain
  lines := [UnitId.all.flatMap fun u =>
    let style : Style :=
      if u = d.selected then .highlight
      else if d.machine.isEnabled u then .ofColour .white
      else .ofColour .darkGray
    styled style (" " ++ u.name ++ " ") ++ raw "│"]

/-- The control store around the micro address, with marks for the current word and breakpoints. -/
def storePanel (d : Debugger) (height : Nat) : Panel where
  title := " " ++ d.selected.name ++ " control store "
  frame := .ofColour .cyan
  lines := (d.disassembly (height - 2)).map fun w =>
    let isMarked := d.machine.hasBreakpoint ⟨d.selected, w.address.toUInt16⟩
    let style : Style :=
      if w.isCurrent then .highlight else if isMarked then .ofColour .red else .plain
    styled style ((if isMarked then "●" else " ") ++ " " ++ (if w.isCurrent then "▶ " else "  ") ++
      Text.octal4 w.address ++ ": " ++ w.text)

/-- The colour of a pipeline stage. -/
def stageStyle : Stage → Style
  | .normal => .ofColour .green
  | .branchPending => .ofColour .yellow
  | .extendedSettle => .ofColour .red

/-- The sequencer, the working registers and the latched microword. -/
def registersPanel (d : Debugger) : Panel :=
  let s := d.engine.registers
  let white := styled (.ofColour .white)
  let cyan := styled (.ofColour .cyan)
  { title := " Registers "
    frame := .ofColour .green
    lines :=
      [raw "O: " ++ styled (.ofColour .yellow) (Text.octal4 s.address.toNat) ++
          raw "   OS: " ++ white (Text.octal4 s.saved.toNat) ++
          raw "   Stage: " ++ styled (stageStyle s.stage) s.stage.letter,
        raw "M: " ++ white (Text.octal8 s.m.toNat) ++
          raw "   Q: " ++ white (Text.octal8 s.q.toNat) ++
          raw "   Z: " ++ white (Text.octal8 s.z.toNat),
        raw "I: " ++ white s.latch.text,
        styled (.ofColour .gray) ("   " ++ s.latch.disassemble),
        styled (.ofColour .darkGray) ("   " ++ s.latch.annotate),
        raw "Cycles: " ++ cyan (Text.decimal d.engine.cycles) ++
          raw "   Iterations: " ++ cyan (Text.decimal d.machine.iterations)] }

def statusPanel (d : Debugger) : Panel where
  title := " Status "
  frame := .ofColour .white
  lines := [styled (.ofColour .white) d.status]

/-- The style of a register: one that is zero is dimmed. -/
def wordStyle (w : Word) : Style := .ofColour (if w = 0 then .darkGray else .white)

/-- The holding registers, in octal and as signed numbers. -/
def holdingPanel (d : Debugger) : Panel where
  title := " Holding "
  frame := .ofColour .magenta
  lines := d.engine.registers.holding.toList.zipIdx.map fun (w, i) =>
    styled (wordStyle w) ("R" ++ Text.decimal i ++ ": " ++ Text.octal8 w.toNat ++ " " ++
      Text.align .right 9 (Text.decimalInt w.signed))

/-- The indices of the scratchpad words on view in a panel of this height. -/
def scratchpadRows (d : Debugger) (height : Nat) : List Nat :=
  List.range' d.scroll (min (d.scroll + (height - 2)) Registers.scratchpadSize - d.scroll)

/-- The scratchpad from the scroll position on. -/
def scratchpadPanel (d : Debugger) (height : Nat) : Panel where
  title := " Scratchpad "
  frame := .ofColour .magenta
  lines := (d.scratchpadRows height).map fun i =>
    let w := d.engine.registers.readScratchpad i
    styled (wordStyle w) ("SP[" ++ Text.octal2 i ++ "]: " ++ Text.octal8 w.toNat)

def helpPanel : Panel where
  title := " Help "
  frame := .ofColour .darkGray
  lines := ["s: Step  r: Run  p: Pause  b: Breakpoint  x: Reset", "d: Diagnostic on/off",
    "Tab: Unit  e: Enable  ↑↓: Scroll  q: Quit"].map (styled (.ofColour .darkGray))

/-! ## The screen -/

/-- The screen of the debugger, row by row: the control store and the registers on the left three
fifths, the holding registers and the scratchpad on the rest. -/
def draw (d : Debugger) (width height : Nat) : List (List Cell) :=
  let leftWidth := width * 3 / 5
  let rightWidth := width - leftWidth
  let left := d.unitsPanel.rows leftWidth 3 ++
    (d.storePanel (height - 15)).rows leftWidth (height - 15) ++
    d.registersPanel.rows leftWidth 9 ++
    d.statusPanel.rows leftWidth 3
  let right := d.holdingPanel.rows rightWidth 9 ++
    (d.scratchpadPanel (height - 14)).rows rightWidth (height - 14) ++
    helpPanel.rows rightWidth 5
  List.zipWith (· ++ ·) left right

end Debugger

namespace Screen

def rowText (row : List Cell) : String := String.ofList (row.map Cell.char)

/-- Adjacent cells of one style. -/
structure Run where
  first : Nat
  /-- The column after the last cell. -/
  last : Nat
  style : Style
  deriving DecidableEq, Repr

def isStyled (c : Cell) : Bool := c.char != ' ' && c.style != .plain

/-- The styled runs of a row whose first cell is in `column`; blanks separate runs. -/
def runs (column : Nat) : List Cell → List Run
  | [] => []
  | c :: cs =>
    let rest := runs (column + 1) cs
    if isStyled c then
      match rest with
      | r :: rs =>
        if r.first = column + 1 && r.style = c.style then ⟨column, r.last, r.style⟩ :: rs
        else ⟨column, column + 1, c.style⟩ :: rest
      | [] => [⟨column, column + 1, c.style⟩]
    else rest

end Screen

end MicroEngine
