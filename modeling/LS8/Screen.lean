/-
Text screens: rows of cells, each a character in a style.

A screen is put together from boxes that fill their place exactly. A box is
as many rows as it is high, each as many cells as it is wide; boxes one
above the other are the rows of one after those of the other, and columns
side by side are joined row by row. Nothing is drawn over anything else, so
what stands in a box is what its rows say.
-/
import LS8.Numeral

namespace LS8.Screen

inductive Color where
  | yellow
  | red
  | cyan
  | green
  | magenta
  | white
  | darkGray
  deriving DecidableEq, Repr

def Color.name : Color → String
  | yellow => "Yellow"
  | red => "Red"
  | cyan => "Cyan"
  | green => "Green"
  | magenta => "Magenta"
  | white => "White"
  | darkGray => "DarkGray"

/-- How a cell looks; without a colour it has the terminal's own. -/
structure Style where
  color : Option Color := none
  bold : Bool := false
  deriving DecidableEq, Repr

/-- The terminal's own style. -/
def plain : Style := {}

/-- A colour. -/
def colored (c : Color) : Style := { color := some c }

/-- A colour in bold. -/
def bold (c : Color) : Style := { color := some c, bold := true }

/-- `top` laid over a style: what `top` leaves open shows through. -/
def Style.under (base top : Style) : Style where
  color := top.color.or base.color
  bold := base.bold || top.bold

/-- The name of the colour, with a mark if bold. -/
def Style.name (style : Style) : String :=
  ((style.color.map Color.name).getD "") ++ (if style.bold then "+BOLD" else "")

/-- A character in a style. -/
structure Cell where
  glyph : Char
  style : Style
  deriving DecidableEq, Repr

/-- The cells of a row from left to right. -/
abbrev Row := List Cell

/-- The characters of a row. -/
def text (row : Row) : String :=
  String.ofList (row.map (·.glyph))

/-- Exactly `width` cells: the row cut, or filled up with `filler`. -/
def fit (width : Nat) (filler : Cell) (row : Row) : Row :=
  (row.take width).rightpad width filler

theorem length_fit (width : Nat) (filler : Cell) (row : Row) :
    (fit width filler row).length = width := by
  simp only [fit, List.rightpad, List.length_append, List.length_take, List.length_replicate]
  omega

-- ================================================================= runs

/-- A stretch of equal style, from `start` up to but not including `stop`. -/
structure Run where
  start : Nat
  stop : Nat
  style : Style
  deriving DecidableEq, Repr

/-- A cell at `x` in front of the runs that begin behind it. -/
def extend (x : Nat) (cell : Cell) (runs : List Run) : List Run :=
  if cell.style = plain then runs
  else
    match runs with
    | ⟨start, stop, style⟩ :: rest =>
        if start = x + 1 ∧ style = cell.style then ⟨x, stop, style⟩ :: rest
        else ⟨x, x + 1, cell.style⟩ :: runs
    | [] => [⟨x, x + 1, cell.style⟩]

/-- The runs of a row that begins at `x`. -/
def runsFrom (x : Nat) : Row → List Run
  | [] => []
  | cell :: row => extend x cell (runsFrom (x + 1) row)

/-- The longest stretches of equal style other than plain. -/
def runs (row : Row) : List Run := runsFrom 0 row

-- ================================================================ boxes

/-- A text in one style. -/
structure Span where
  text : String
  style : Style := plain
  deriving DecidableEq, Repr

/-- A line of spans. Its own style covers the whole row it stands in. -/
structure Line where
  spans : List Span
  style : Style := plain
  deriving DecidableEq, Repr

/-- A line of one plain text. -/
def Line.ofText (text : String) : Line := { spans := [{ text }] }

/-- A box: a border with a title in it, and lines inside. The base style
covers all of it. -/
structure Panel where
  title : String
  border : Style := plain
  base : Style := plain
  lines : List Line := []
  deriving DecidableEq, Repr

/-- The cells of a text in one style. -/
def cells (text : String) (style : Style) : Row :=
  text.toList.map fun c => ⟨c, style⟩

/-- The cells of a line over a base style. -/
def Line.cells (line : Line) (base : Style) : Row :=
  line.spans.flatMap fun span =>
    Screen.cells span.text ((base.under line.style).under span.style)

namespace Panel

/-- The style of the border. -/
def borderStyle (p : Panel) : Style := p.base.under p.border

/-- The upper border, the title in it from its second cell on. -/
def topRow (p : Panel) (width : Nat) : Row :=
  ⟨'┌', p.borderStyle⟩ ::
    fit (width - 2) ⟨'─', p.borderStyle⟩ (Screen.cells p.title p.borderStyle)
    ++ [⟨'┐', p.borderStyle⟩]

/-- The lower border. -/
def bottomRow (p : Panel) (width : Nat) : Row :=
  ⟨'└', p.borderStyle⟩ :: List.replicate (width - 2) ⟨'─', p.borderStyle⟩
    ++ [⟨'┘', p.borderStyle⟩]

/-- The row of a line between the borders. -/
def lineRow (p : Panel) (width : Nat) (line : Line) : Row :=
  ⟨'│', p.borderStyle⟩ ::
    fit (width - 2) ⟨' ', p.base.under line.style⟩ (line.cells p.base)
    ++ [⟨'│', p.borderStyle⟩]

/-- The lines that are shown in `height` rows: the first ones, and empty
ones behind them. -/
def shownLines (p : Panel) (height : Nat) : List Line :=
  (p.lines.take height).rightpad height { spans := [] }

/-- The rows of the box. -/
def rows (p : Panel) (width height : Nat) : List Row :=
  p.topRow width :: (p.shownLines (height - 2)).map (p.lineRow width) ++ [p.bottomRow width]

/-- A box is as many rows as it is high. -/
theorem length_rows (p : Panel) (width : Nat) {height : Nat} (h : 2 ≤ height) :
    (p.rows width height).length = height := by
  simp only [rows, shownLines, List.rightpad, List.length_cons, List.length_append, List.length_map,
    List.length_take, List.length_replicate, List.length_nil]
  omega

/-- Each of its rows is as many cells as it is wide. -/
theorem length_of_mem_rows {p : Panel} {width height : Nat} {row : Row} (h : 2 ≤ width)
    (hr : row ∈ p.rows width height) : row.length = width := by
  simp only [rows, List.cons_append, List.mem_cons, List.mem_append, List.mem_map,
    List.not_mem_nil, or_false] at hr
  rcases hr with rfl | ⟨line, -, rfl⟩ | rfl
  · simp [topRow, length_fit]; omega
  · simp [lineRow, length_fit]; omega
  · simp [bottomRow]; omega

end Panel

/-- Boxes one above the other, each with its height. -/
def column (width : Nat) (boxes : List (Panel × Nat)) : List Row :=
  boxes.flatMap fun (panel, height) => panel.rows width height

/-- Two columns side by side. -/
def beside (left right : List Row) : List Row :=
  List.zipWith (· ++ ·) left right

end LS8.Screen
