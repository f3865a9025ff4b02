/-
The debugger on a screen of two columns: on the left the listing, the
registers and the notice, on the right memory, output and the keys.

The listing and memory take what height the other boxes leave.
-/
import LS8.Debugger.Listing
import LS8.Screen

namespace LS8.Debugger

open Screen (Panel Line Span Style plain colored bold)

-- ========================================================== the listing

/-- A row of the listing: a mark for a breakpoint, a mark for the program
counter, address and instruction. -/
def listingLine (d : Debugger) (row : Listing.Row) : Line :=
  let marked := d.breakpoints.any (·.toNat == row.address)
  let breakpoint := if marked then "●" else " "
  let pointer := if row.current then "▶ " else "  "
  { spans :=
      [{ text := breakpoint ++ " " ++ pointer ++ Numeral.decimal3 row.address ++ ": " ++ row.text }]
    style :=
      if row.current then bold .yellow
      else if marked then colored .red
      else plain }

/-- The listing around the program counter, as many rows as fit. -/
def programPanel (d : Debugger) (height : Nat) : Panel :=
  { title := " Program "
    border := colored .cyan
    lines := (d.listing (height - 2)).map d.listingLine }

-- ============================================================ registers

/-- A number in three places. -/
def inThree (n : Nat) : String :=
  Numeral.padLeft ' ' 3 (Numeral.decimal n)

/-- Four general registers; the eighth goes by its other name. -/
def registerLine (regs : Registers) (names : List UInt8) : Line :=
  { spans := names.map fun reg =>
      let name := if reg = 7 then "SP" else "R" ++ Numeral.decimal reg.toNat
      { text := name ++ ": " ++ inThree (regs.get reg).toNat ++ "  " } }

/-- The registers, the counter, the last instruction and the status. -/
def registersPanel (d : Debugger) : Panel :=
  let m := d.machine
  { title := " Registers "
    border := colored .green
    lines :=
      [registerLine m.regs [0, 1, 2, 3],
       registerLine m.regs [4, 5, 6, 7],
       { spans :=
           [{ text := "PC: " },
            { text := inThree m.pc.toNat, style := colored .yellow },
            { text := "   FL: " },
            { text := m.regs.fl.describe, style := colored .magenta }] },
       { spans :=
           [{ text := "Cycles: " },
            { text := Numeral.decimal m.cycles.toNat, style := colored .cyan },
            { text := "   Last: " },
            { text := (m.last.map Instruction.text).getD "-" },
            { text := "   State: " },
            { text := m.status.name,
              style := colored (if m.status = .running then .green else .red) }] }] }

-- =============================================================== memory

/-- The style of a cell of memory: the program counter, the stack pointer
unless it is zero, values, zeros. -/
def cellStyle (regs : Registers) (address : Nat) (value : UInt8) : Style :=
  if address = regs.pc.toNat then bold .yellow
  else if address = regs.sp.toNat ∧ regs.sp ≠ 0 then colored .magenta
  else if value ≠ 0 then colored .white
  else colored .darkGray

/-- A row of memory: its address and its cells. -/
def memoryLine (m : Machine) (row : Nat) : Line :=
  let base := row * rowCells
  let cells := (m.mem.dump base rowCells).toOption.getD []
  { spans :=
      { text := Numeral.hex2 (UInt8.ofNat base) ++ ": " } ::
        cells.map fun (address, value) =>
          { text := Numeral.hex2 value ++ " ", style := cellStyle m.regs address value } }

/-- The rows of memory from where the view stands, as many as fit. -/
def memoryPanel (d : Debugger) (height : Nat) : Panel :=
  { title := " Memory "
    border := colored .magenta
    lines :=
      ((List.range' d.memScroll (memoryRows - d.memScroll)).take (height - 2)).map
        (memoryLine d.machine) }

-- ================================================ output, notice and keys

/-- The last printed lines, as many as fit. -/
def outputPanel (d : Debugger) (height : Nat) : Panel :=
  let lines := d.output.lines
  { title := " Output "
    lines := (lines.drop (lines.length - (height - 2))).map Line.ofText }

def statusPanel (d : Debugger) : Panel :=
  { title := " Status ", base := colored .white, lines := [Line.ofText d.notice.text] }

def helpPanel : Panel :=
  { title := " Help "
    base := colored .darkGray
    lines :=
      [Line.ofText "s: Step  r: Run  p: Pause  b: Breakpoint",
       Line.ofText "x: Reset  ↑↓: Scroll memory  q: Quit"] }

-- =========================================================== the screen

/-- The screen in `width` times `height` cells. -/
def screen (d : Debugger) (width height : Nat) : List Screen.Row :=
  let left := (width + 1) / 2
  Screen.beside
    (Screen.column left
      [(d.programPanel (height - 10), height - 10),
       (d.registersPanel, 7),
       (d.statusPanel, 3)])
    (Screen.column (width - left)
      [(d.memoryPanel (height - 12), height - 12),
       (d.outputPanel 8, 8),
       (helpPanel, 4)])

end LS8.Debugger
