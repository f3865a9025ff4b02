/-
Where the boxes of the debugger stand on its screen.

A place is a rectangle of a screen, and what stands there is cut out of the
rows of the screen (`region`). The boxes of a column stand one below the
other, each in as many rows as it is high (`stack`), and a column beside
another one stands there as it would alone. So each of the six boxes stands
whole in its place (`region_screen`), and no two places have a cell in common
(`pairwise_apart_boxes`).

# Inside a border

Inside its border a box shows a line in each row, cut or filled up to the
width that the border leaves (`region_inner`), and empty ones behind the last
line. Cutting and filling up leave the beginning as it was, which is said once
for cells and for characters (`take_rightpad_take`).
-/
import Mathlib.Algebra.GroupWithZero.Nat
import LS8.Debugger.View

namespace LS8

namespace Screen

-- =========================================================== characters

/-- The characters of a row. -/
def glyphs (row : Row) : List Char :=
  row.map (·.glyph)

/-- A text in `width` columns: cut, or with blanks behind it. -/
def fitted (width : Nat) (chars : List Char) : List Char :=
  (chars.take width).rightpad width ' '

/-- Cut or filled up, a list begins as it did. -/
theorem take_rightpad_take {α : Type} {l : List α} {m : Nat} (width : Nat) (a : α)
    (h : m ≤ l.length) : ((l.take width).rightpad width a).take m = l.take (min m width) := by
  rw [List.rightpad, List.take_append, List.take_take, List.length_take]
  rcases Nat.le_total m width with hm | hm
  · have hnone : m - min width l.length = 0 := by omega
    rw [hnone, List.take_zero, List.append_nil]
  · have hnone : width - min width l.length = 0 := by omega
    rw [hnone, List.replicate_zero, List.take_nil, List.append_nil]

/-- What is whole inside the width is shown as it is. -/
theorem window_fitted {width start count : Nat} {chars : List Char} (hwidth : start + count ≤ width)
    (hlength : start + count ≤ chars.length) :
    ((fitted width chars).drop start).take count = (chars.drop start).take count := by
  rw [List.take_drop, fitted, take_rightpad_take width ' ' hlength, Nat.min_eq_left hwidth,
    ← List.take_drop]

/-- What is shown of a part of a row is of that part. -/
theorem mem_of_mem_window_fit {width start count : Nat} {filler cell : Cell} {row : Row}
    (hlength : start + count ≤ row.length)
    (h : cell ∈ ((fit width filler row).drop start).take count) :
    cell ∈ (row.drop start).take count := by
  rw [List.take_drop, fit, take_rightpad_take width filler hlength, List.drop_take] at h
  have hcount : min (start + count) width - start ≤ count := by omega
  exact (List.take_prefix_take_left hcount).subset h

theorem glyphs_fit (width : Nat) {filler : Cell} (row : Row) (h : filler.glyph = ' ') :
    glyphs (fit width filler row) = fitted width (glyphs row) := by
  simp only [glyphs, fit, fitted, List.rightpad, List.map_append, List.map_take,
    List.map_replicate, List.length_take, List.length_map, h]

theorem glyphs_cells (text : String) (style : Style) : glyphs (cells text style) = text.toList := by
  rw [glyphs, cells, List.map_map]
  exact List.map_id' _

/-- A row of blanks. -/
def blankRow (width : Nat) : Row :=
  List.replicate width ⟨' ', plain⟩

-- ================================================================ lines

/-- The characters of a line. -/
def Line.chars (line : Line) : List Char :=
  line.spans.flatMap fun span => span.text.toList

/-- What `width` columns show of a line. -/
def Line.row (line : Line) (base : Style) (width : Nat) : Row :=
  fit width ⟨' ', base.under line.style⟩ (line.cells base)

theorem plain_under (style : Style) : plain.under style = style := by
  simp [Style.under, plain]

theorem under_plain (style : Style) : style.under plain = style := by
  simp [Style.under, plain]

theorem glyphs_cells_line (line : Line) (base : Style) : glyphs (line.cells base) = line.chars := by
  have hspan : ∀ span : Span, (Screen.cells span.text
      ((base.under line.style).under span.style)).map (·.glyph) = span.text.toList :=
    fun span => glyphs_cells _ _
  simp only [glyphs, Line.cells, List.map_flatMap, hspan, Line.chars]

theorem glyphs_row (line : Line) (base : Style) (width : Nat) :
    glyphs (line.row base width) = fitted width line.chars := by
  rw [Line.row, glyphs_fit width _ rfl, glyphs_cells_line]

/-- If its spans have no style of their own, a line covers its row with its
style. -/
theorem style_of_mem_row {line : Line} (hspans : ∀ span ∈ line.spans, span.style = plain)
    (width : Nat) : ∀ cell ∈ line.row plain width, cell.style = line.style := by
  intro cell hcell
  rw [Line.row, fit, List.rightpad, List.mem_append, plain_under] at hcell
  rcases hcell with hcell | hcell
  · obtain ⟨span, hspan, hcell⟩ := List.mem_flatMap.1 (List.mem_of_mem_take hcell)
    obtain ⟨c, -, rfl⟩ := List.mem_map.1 hcell
    rw [hspans span hspan, plain_under, under_plain]
  · rw [List.eq_of_mem_replicate hcell]

/-- An empty line is a row of blanks. -/
theorem row_empty (width : Nat) : Line.row { spans := [] } plain width = blankRow width := by
  rw [Line.row, fit, List.rightpad]
  show List.take width [] ++ List.replicate (width - (List.take width []).length) _ = _
  rw [List.take_nil]
  rfl

theorem glyphs_blankRow (width : Nat) : glyphs (blankRow width) = fitted width [] := by
  rw [← row_empty, glyphs_row]
  rfl

-- =============================================================== places

/-- A rectangle of a screen: its first column, its first row and its size. -/
structure Place where
  x : Nat
  y : Nat
  width : Nat
  height : Nat
  deriving DecidableEq, Repr

namespace Place

/-- The cell in column `x` and row `y` is in the place. -/
def Covers (place : Place) (x y : Nat) : Prop :=
  place.x ≤ x ∧ x < place.x + place.width ∧ place.y ≤ y ∧ y < place.y + place.height

/-- The places have no cell in common. -/
def Apart (a b : Place) : Prop :=
  ∀ x y, ¬ (a.Covers x y ∧ b.Covers x y)

/-- The place `n` columns further right. -/
def shift (place : Place) (n : Nat) : Place :=
  { place with x := n + place.x }

end Place

/-- What stands at a place, row by row. -/
def region (screen : List Row) (place : Place) : List Row :=
  ((screen.drop place.y).take place.height).map fun row => (row.drop place.x).take place.width

/-- The places of boxes one below the other, the first at column `x` and row
`y`. -/
def stack (x y width : Nat) : List (Panel × Nat) → List (Panel × Place)
  | [] => []
  | (panel, height) :: boxes => (panel, ⟨x, y, width, height⟩) :: stack x (y + height) width boxes

variable {boxes : List (Panel × Nat)} {left right : List Row} {place : Place}
  {x y width n : Nat}

/-- Where the places of a stack are. -/
theorem place_of_mem_stack : ∀ y, ∀ box ∈ stack x y width boxes,
    box.2.x = x ∧ box.2.width = width ∧ y ≤ box.2.y := by
  induction boxes with
  | nil => exact fun y box hbox => absurd hbox List.not_mem_nil
  | cons box boxes ih =>
      intro y
      rw [stack, List.forall_mem_cons]
      refine ⟨⟨rfl, rfl, Nat.le_refl y⟩, fun below hbelow => ?_⟩
      obtain ⟨hx, hwidth, hy⟩ := ih _ below hbelow
      exact ⟨hx, hwidth, Nat.le_trans (Nat.le_add_right y _) hy⟩

/-- A box ends where the next one begins. -/
theorem pairwise_apart_stack : ∀ y, (stack x y width boxes).Pairwise fun a b => a.2.Apart b.2 := by
  induction boxes with
  | nil => exact fun y => .nil
  | cons box boxes ih =>
      intro y
      rw [stack]
      refine .cons (fun below hbelow => ?_) (ih _)
      have hy := (place_of_mem_stack _ below hbelow).2.2
      rintro cx cy ⟨⟨-, -, -, hend⟩, -, -, hbegin, -⟩
      dsimp only at hend
      omega

/-- Two places are apart if one ends where the other begins, or before. -/
theorem Place.apart_of_le {a b : Place} (h : a.x + a.width ≤ b.x) : a.Apart b := by
  rintro cx cy ⟨⟨-, hend, -⟩, hbegin, -⟩
  omega

-- ============================================================== columns

theorem column_cons (width : Nat) (panel : Panel) (height : Nat) (boxes : List (Panel × Nat)) :
    column width ((panel, height) :: boxes) = panel.rows width height ++ column width boxes := rfl

theorem length_column (hheight : ∀ box ∈ boxes, 2 ≤ box.2) :
    (column width boxes).length = (boxes.map (·.2)).sum := by
  induction boxes with
  | nil => rfl
  | cons box boxes ih =>
      obtain ⟨panel, height⟩ := box
      obtain ⟨hhere, hbelow⟩ := List.forall_mem_cons.1 hheight
      rw [column_cons, List.length_append, panel.length_rows width hhere, ih hbelow, List.map_cons,
        List.sum_cons]

theorem length_of_mem_column (hwidth : 2 ≤ width) :
    ∀ row ∈ column width boxes, row.length = width := by
  intro row hrow
  obtain ⟨⟨panel, height⟩, -, hrow⟩ := List.mem_flatMap.1 hrow
  exact Panel.length_of_mem_rows hwidth hrow

/-- Below any rows, the boxes of a column stand whole at the places of a
stack. -/
theorem region_append_column (hwidth : 2 ≤ width) (hheight : ∀ box ∈ boxes, 2 ≤ box.2) :
    ∀ front : List Row, ∀ box ∈ stack 0 front.length width boxes,
      region (front ++ column width boxes) box.2 = box.1.rows box.2.width box.2.height := by
  induction boxes with
  | nil => exact fun front box hbox => absurd hbox List.not_mem_nil
  | cons box boxes ih =>
      obtain ⟨panel, height⟩ := box
      obtain ⟨hhere, hbelow⟩ := List.forall_mem_cons.1 hheight
      have hlength : (panel.rows width height).length = height := panel.length_rows width hhere
      intro front
      rw [stack, List.forall_mem_cons, column_cons]
      constructor
      · have hwhole : ∀ row ∈ panel.rows width height, (row.drop 0).take width = row := by
          intro row hrow
          exact List.take_of_length_le (Nat.le_of_eq (Panel.length_of_mem_rows hwidth hrow))
        rw [region, List.drop_left, List.take_left' hlength]
        exact (List.map_congr_left hwhole).trans (List.map_id' _)
      · have hfront : front.length + height = (front ++ panel.rows width height).length := by
          rw [List.length_append, hlength]
        -- for the boxes below, this one is part of what is in front
        rw [hfront, ← List.append_assoc]
        exact ih hbelow _

/-- What stands in the left one of two columns stands there beside the right
one. -/
theorem region_beside_left (hlength : left.length = right.length)
    (hwidth : ∀ row ∈ left, row.length = n) (hin : place.x + place.width ≤ n) :
    region (beside left right) place = region left place := by
  refine List.ext_getElem (by simp [region, beside, hlength]) fun i hi hi' => ?_
  have hlt : place.y + i < left.length := by
    rw [region, List.length_map, List.length_take, List.length_drop] at hi'
    omega
  have hrow : left[place.y + i].length = n := hwidth _ (List.getElem_mem hlt)
  simp only [region, beside, List.getElem_map, List.getElem_take, List.getElem_drop,
    List.getElem_zipWith]
  rw [List.drop_append_of_le_length (by omega),
    List.take_append_of_le_length (by rw [List.length_drop]; omega)]

/-- What stands in the right one stands as many columns further right as the
left one is wide. -/
theorem region_beside_right (hlength : left.length = right.length)
    (hwidth : ∀ row ∈ left, row.length = n) :
    region (beside left right) (place.shift n) = region right place := by
  refine List.ext_getElem (by simp [region, beside, hlength, Place.shift]) fun i hi hi' => ?_
  have hlt : place.y + i < left.length := by
    rw [region, List.length_map, List.length_take, List.length_drop] at hi'
    omega
  have hrow : left[place.y + i].length = n := hwidth _ (List.getElem_mem hlt)
  have hdrop : ∀ row : Row, (left[place.y + i] ++ row).drop (n + place.x) = row.drop place.x := by
    intro row
    rw [← hrow, List.drop_length_add_append]
  simp only [region, beside, Place.shift, List.getElem_map, List.getElem_take, List.getElem_drop,
    List.getElem_zipWith, hdrop]

/-- A stack further right. -/
theorem stack_eq_map_shift (x y width : Nat) (boxes : List (Panel × Nat)) :
    stack x y width boxes = (stack 0 y width boxes).map fun box => (box.1, box.2.shift x) := by
  induction boxes generalizing y with
  | nil => rfl
  | cons box boxes ih =>
      rw [stack, stack, List.map_cons, ih]
      rfl

-- ======================================================== inside a border

theorem region_inner_rows (panel : Panel) (width height : Nat) :
    region (panel.rows width height) ⟨1, 1, width - 2, height - 2⟩ =
      (panel.shownLines (height - 2)).map fun line => line.row panel.base (width - 2) := by
  have hlines : ((panel.shownLines (height - 2)).map (panel.lineRow width)).length = height - 2 := by
    simp only [Panel.shownLines, List.rightpad, List.length_map, List.length_append,
      List.length_take, List.length_replicate]
    omega
  have hrow : ∀ line, ((panel.lineRow width line).drop 1).take (width - 2)
      = line.row panel.base (width - 2) := fun line => List.take_left' (length_fit _ _ _)
  have hrows : ((panel.rows width height).drop 1).take (height - 2)
      = (panel.shownLines (height - 2)).map (panel.lineRow width) := List.take_left' hlines
  show (((panel.rows width height).drop 1).take (height - 2)).map
    (fun row => (row.drop 1).take (width - 2)) = _
  rw [hrows, List.map_map]
  exact List.map_congr_left fun line _ => hrow line

/-- The first and the last of a stretch are left out. -/
theorem take_drop_inner {α : Type} (l : List α) (start length : Nat) :
    (((l.drop start).take length).drop 1).take (length - 2) =
      (l.drop (start + 1)).take (length - 2) := by
  rw [List.drop_take, List.take_take, List.drop_drop, Nat.min_eq_left (by omega)]

/-- Inside its border a box in the terminal's own style shows its lines, one
in each row, and blanks below. -/
theorem region_inner {screen : List Row} {panel : Panel} {height : Nat}
    (h : region screen ⟨x, y, width, height⟩ = panel.rows width height)
    (hbase : panel.base = plain) (hlines : panel.lines.length ≤ height - 2) :
    region screen ⟨x + 1, y + 1, width - 2, height - 2⟩ =
      panel.lines.map (fun line => line.row plain (width - 2))
        ++ List.replicate (height - 2 - panel.lines.length) (blankRow (width - 2)) := by
  have hinner : region screen ⟨x + 1, y + 1, width - 2, height - 2⟩ =
      (panel.shownLines (height - 2)).map fun line => line.row plain (width - 2) := by
    rw [← hbase, ← region_inner_rows, ← h]
    simp only [region, ← List.map_drop, ← List.map_take, List.map_map, take_drop_inner,
      Function.comp_def]
  rw [hinner, Panel.shownLines, List.take_of_length_le hlines, List.rightpad, List.map_append,
    List.map_replicate, row_empty]

/-- A row inside a border shows what has its number, or is blank because
nothing has. -/
theorem shown_cases {α : Type} {shown : List α} {f : α → Row} {blank cells : Row} {count r : Nat}
    (h : (shown.map f ++ List.replicate count blank)[r]? = some cells) :
    (∃ a, shown[r]? = some a ∧ f a = cells) ∨ (shown[r]? = none ∧ cells = blank) := by
  rw [List.getElem?_append, List.length_map] at h
  split at h
  · rw [List.getElem?_map] at h
    exact Or.inl (Option.map_eq_some_iff.1 h)
  · next hge =>
    refine Or.inr ⟨List.getElem?_eq_none (Nat.le_of_not_lt hge), ?_⟩
    exact List.eq_of_mem_replicate (List.mem_of_getElem? h)

end Screen

namespace Debugger

open Screen

-- =========================================================== the screen

/-- The boxes of the left column, each with its height. -/
def leftBoxes (d : Debugger) (height : Nat) : List (Panel × Nat) :=
  [(d.programPanel (height - 10), height - 10), (d.registersPanel, 7), (d.statusPanel, 3)]

/-- The boxes of the right column. -/
def rightBoxes (d : Debugger) (height : Nat) : List (Panel × Nat) :=
  [(d.memoryPanel (height - 12), height - 12), (d.outputPanel 8, 8), (helpPanel, 4)]

/-- The six boxes of the screen and their places. The left column is as wide
as the right one, or a column wider. -/
def boxes (d : Debugger) (width height : Nat) : List (Panel × Place) :=
  stack 0 0 ((width + 1) / 2) (d.leftBoxes height)
    ++ stack ((width + 1) / 2) 0 (width - (width + 1) / 2) (d.rightBoxes height)

variable {d : Debugger} {w h : Nat}

/-- No box reaches into another one. -/
theorem pairwise_apart_boxes (d : Debugger) (w h : Nat) :
    (d.boxes w h).Pairwise fun a b => a.2.Apart b.2 := by
  rw [boxes, List.pairwise_append]
  refine ⟨pairwise_apart_stack 0, pairwise_apart_stack 0, fun a ha b hb => ?_⟩
  obtain ⟨hax, hawidth, -⟩ := place_of_mem_stack 0 a ha
  obtain ⟨hbx, -, -⟩ := place_of_mem_stack 0 b hb
  exact Place.apart_of_le (by omega)

/-- On a screen with room for them every box stands whole in its place. -/
theorem region_screen (hw : 4 ≤ w) (hh : 14 ≤ h) :
    ∀ box ∈ d.boxes w h,
      region (d.screen w h) box.2 = box.1.rows box.2.width box.2.height := by
  have hleft : ∀ box ∈ d.leftBoxes h, 2 ≤ box.2 := by
    simp only [leftBoxes, List.forall_mem_cons]
    exact ⟨by omega, by omega, by omega, nofun⟩
  have hright : ∀ box ∈ d.rightBoxes h, 2 ≤ box.2 := by
    simp only [rightBoxes, List.forall_mem_cons]
    exact ⟨by omega, by omega, by omega, nofun⟩
  have hlength : (column ((w + 1) / 2) (d.leftBoxes h)).length
      = (column (w - (w + 1) / 2) (d.rightBoxes h)).length := by
    rw [length_column hleft, length_column hright]
    simp only [leftBoxes, rightBoxes, List.map_cons, List.map_nil, List.sum_cons, List.sum_nil]
    omega
  have hwidth : ∀ row ∈ column ((w + 1) / 2) (d.leftBoxes h), row.length = (w + 1) / 2 :=
    length_of_mem_column (by omega)
  intro box hbox
  rw [boxes, List.mem_append] at hbox
  rcases hbox with hbox | hbox
  · obtain ⟨hx, hboxwidth, -⟩ := place_of_mem_stack 0 box hbox
    exact (region_beside_left hlength hwidth (by omega)).trans
      (region_append_column (by omega) hleft [] box hbox)
  · rw [stack_eq_map_shift] at hbox
    obtain ⟨box, hmem, rfl⟩ := List.mem_map.1 hbox
    exact (region_beside_right hlength hwidth).trans
      (region_append_column (by omega) hright [] box hmem)

end Debugger

end LS8
