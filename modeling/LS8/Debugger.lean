/-
The debugger: a machine with a program, breakpoints, and a notice of what
happened last.

Continuous execution is a sequence of ticks. A tick executes one
instruction, and execution ends with the first of three: the instruction
faults, a breakpoint stands where it leads, or the machine had stopped
before. Breakpoints are looked at behind an instruction, not before it, so
running on from a breakpoint makes progress.
-/
import LS8.Machine.Step

namespace LS8

/-- What the debugger last has to say. -/
inductive Notice where
  | ready
  | loadFailed (error : MemoryError)
  /-- The machine was found stopped. -/
  | stopped (status : Status)
  /-- The instruction at `pc` has gone through. -/
  | executed (pc : UInt8) (instruction : Instruction)
  | fault (error : Fault)
  | running
  | finished (cycles : UInt64)
  | atBreakpoint (pc : UInt8)
  | breakpointSet (pc : UInt8)
  | breakpointRemoved (pc : UInt8)
  | reset
  | paused
  deriving DecidableEq, Repr

/-- The notice as a reader sees it. -/
def Notice.text : Notice → String
  | ready => "Ready. Press 's' to step, 'r' to run, 'q' to quit."
  | loadFailed error => "Load error: " ++ error.message
  | stopped status => "CPU stopped: " ++ status.name
  | executed pc i => "PC=" ++ Numeral.decimal3 pc.toNat ++ ": " ++ i.text
  | fault error => "Error: " ++ error.message
  | running => "Running..."
  | finished cycles => "Stopped after " ++ Numeral.decimal cycles.toNat ++ " cycles"
  | atBreakpoint pc => "Breakpoint at PC=" ++ Numeral.decimal pc.toNat
  | breakpointSet pc => "Set breakpoint at PC=" ++ Numeral.decimal pc.toNat
  | breakpointRemoved pc => "Removed breakpoint at PC=" ++ Numeral.decimal pc.toNat
  | reset => "Reset. Ready."
  | paused => "Paused."

/-- A machine being debugged. -/
structure Debugger where
  machine : Machine
  /-- What a reset loads. -/
  program : List UInt8
  output : Printout := {}
  breakpoints : List UInt8 := []
  /-- Whether ticks execute. -/
  running : Bool := false
  shouldQuit : Bool := false
  notice : Notice := .ready
  /-- The first row of the memory view, in rows of eight cells. -/
  memScroll : Nat := 0

namespace Debugger

-- ======================================================== the beginning

/-- The machine with the program, or without it if it does not fit. -/
def bootOrFresh (program : List UInt8) : Machine :=
  match Machine.boot program with
  | .ok m => m
  | .error _ => Machine.fresh

/-- The debugger at the beginning of a program. -/
def ofProgram (program : List UInt8) : Debugger :=
  { machine := bootOrFresh program
    program
    notice := match Machine.boot program with
      | .ok _ => .ready
      | .error e => .loadFailed e }

/-- Back to the beginning. Breakpoints and the memory view stay. -/
def reset (d : Debugger) : Debugger :=
  { d with
    machine := bootOrFresh d.program
    output := {}
    running := false
    notice := .reset }

-- ============================================================ execution

/-- One instruction. -/
def step (d : Debugger) : Debugger :=
  if d.machine.status = .running then
    match d.machine.step (.unlimited d.output) with
    | ⟨.ok i, machine, out⟩ =>
        { d with machine, output := out.printed, notice := .executed d.machine.pc i }
    | ⟨.error e, machine, out⟩ =>
        { d with machine, output := out.printed, notice := .fault e, running := false }
  else
    { d with notice := .stopped d.machine.status, running := false }

/-- Continuous execution from now on. -/
def run (d : Debugger) : Debugger :=
  { d with running := true, notice := .running }

/-- No continuous execution from now on. -/
def pause (d : Debugger) : Debugger :=
  { d with running := false, notice := .paused }

/-- The stop at a breakpoint, if execution goes on and has come to one. -/
def checkBreakpoint (d : Debugger) : Debugger :=
  if d.running ∧ d.machine.pc ∈ d.breakpoints then
    { d with running := false, notice := .atBreakpoint d.machine.pc }
  else d

/-- One instruction of continuous execution. -/
def tick (d : Debugger) : Debugger :=
  if d.running then
    if d.machine.status = .running then d.step.checkBreakpoint
    else { d with running := false, notice := .finished d.machine.cycles }
  else d

-- ========================================================== breakpoints

/-- A breakpoint at the program counter, or none if there was one. -/
def toggleBreakpoint (d : Debugger) : Debugger :=
  let pc := d.machine.pc
  if pc ∈ d.breakpoints then
    { d with breakpoints := d.breakpoints.filter (· ≠ pc), notice := .breakpointRemoved pc }
  else
    { d with breakpoints := pc :: d.breakpoints, notice := .breakpointSet pc }

/-- The addresses of the breakpoints, ascending. -/
def breakpointList (d : Debugger) : List UInt8 :=
  ((List.range Memory.capacity).map UInt8.ofNat).filter (· ∈ d.breakpoints)

-- ====================================================== the memory view

/-- Cells in a row of the memory view. -/
def rowCells : Nat := 8

/-- Rows of the memory view. -/
def memoryRows : Nat := Memory.capacity / rowCells

/-- The memory view moved by a number of rows, as far as there are rows. -/
def scroll (d : Debugger) (rows : Int) : Debugger :=
  { d with memScroll := min (d.memScroll + rows).toNat (memoryRows - 1) }

-- ================================================================= keys

/-- The debugger after a key; other keys do nothing. -/
def press (d : Debugger) (key : Char) : Debugger :=
  match key with
  | 'q' => { d with shouldQuit := true }
  | 's' => { d with running := false }.step
  | 'r' => d.run
  | 'p' => d.pause
  | 'b' => d.toggleBreakpoint
  | 'x' => d.reset
  | '↑' => d.scroll (-1)
  | '↓' => d.scroll 1
  | _ => d

end Debugger

end LS8
