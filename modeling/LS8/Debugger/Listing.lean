/-
The listing: memory read as instructions, from address 0 to the end.

Bytes that are no instruction are shown one by one. An instruction that
would run over the program counter is cut there, so the program counter
always begins a row, whatever the bytes before it mean.
-/
import LS8.Debugger

namespace LS8

/-- A row of the listing. -/
structure Listing.Row where
  address : Nat
  text : String
  /-- Whether the program counter is here. -/
  current : Bool
  deriving DecidableEq, Repr

namespace Listing

/-- The instruction at `address`, if the bytes there are one. -/
def instructionAt? (mem : Memory) (address : Nat) : Option Instruction :=
  (Instruction.decode
    (mem.cells.extract address (min (address + 3) Memory.capacity)).toList).toOption

/-- What stands at `address`: an instruction, or a byte that begins none. -/
def textAt (mem : Memory) (address : Nat) : String :=
  match instructionAt? mem address with
  | some i => i.text
  | none => "db " ++ Numeral.binary8 (mem.peek address)

/-- How many bytes that is. -/
def sizeAt (mem : Memory) (address : Nat) : Nat :=
  match instructionAt? mem address with
  | some i => i.size
  | none => 1

/-- How many bytes the row at `address` covers: up to the program counter
at most, if it is ahead. -/
def rowSize (mem : Memory) (pc address : Nat) : Nat :=
  if address < pc ∧ pc < address + sizeAt mem address then pc - address
  else sizeAt mem address

theorem rowSize_pos (mem : Memory) (pc address : Nat) : 0 < rowSize mem pc address := by
  have hs : 0 < sizeAt mem address := by
    unfold sizeAt
    split
    · simp only [Instruction.size, Opcode.size]; omega
    · omega
  unfold rowSize
  split <;> omega

/-- The rows from `address` to the end of memory. -/
def sweep (mem : Memory) (pc address : Nat) : List Row :=
  if address < Memory.capacity then
    ⟨address, textAt mem address, address = pc⟩ :: sweep mem pc (address + rowSize mem pc address)
  else []
termination_by Memory.capacity - address
decreasing_by
  have := rowSize_pos mem pc address
  omega

/-- `lines` of the rows around the current one: half of them before it,
unless that would leave lines unused at an end. -/
def window (rows : List Row) (lines : Nat) : List Row :=
  let current := (rows.findIdx? (·.current)).getD 0
  (rows.drop (min (current - lines / 2) (rows.length - lines))).take lines

end Listing

/-- The listing of a machine's memory. -/
def Machine.listing (m : Machine) : List Listing.Row :=
  Listing.sweep m.mem m.pc.toNat 0

/-- `lines` of the listing around the program counter. -/
def Debugger.listing (d : Debugger) (lines : Nat) : List Listing.Row :=
  Listing.window d.machine.listing lines

end LS8
