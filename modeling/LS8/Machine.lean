/-
The machine: registers, memory, whether it runs, how many instructions have
gone through and which was the last.
-/
import LS8.Registers
import LS8.Fault

namespace LS8

/-- A machine at rest between two instructions. -/
structure Machine where
  regs : Registers
  mem : Memory
  status : Status
  /-- Instructions that have gone through, counted in 64-bit words. -/
  cycles : UInt64
  /-- The last of them. -/
  last : Option Instruction
  deriving DecidableEq, Repr

namespace Machine

/-- A running machine in which all is zero. -/
def fresh : Machine where
  regs := Registers.fresh
  mem := Memory.blank
  status := .running
  cycles := 0
  last := none

/-- The machine started over: all zero, with the cells it has. -/
def reset (m : Machine) : Machine :=
  { fresh with mem := m.mem.clear }

/-- The machine with `bytes` in memory from address 0 on. -/
def load (m : Machine) (bytes : List UInt8) : Except MemoryError Machine :=
  (m.mem.load 0 bytes).map fun mem => { m with mem }

/-- A fresh machine with `bytes` loaded. -/
def boot (bytes : List UInt8) : Except MemoryError Machine :=
  fresh.load bytes

/-- A program is booted exactly if there is an address for each of its bytes,
and then zeros stand behind it. -/
theorem boot_eq_ok_iff {bytes : List UInt8} {m : Machine} :
    boot bytes = .ok m ↔
      bytes.length ≤ Memory.capacity
        ∧ m = { fresh with
            mem := ⟨⟨bytes ++ List.replicate (Memory.capacity - bytes.length) 0⟩⟩ } := by
  have hsize : fresh.mem.cells.size = Memory.capacity := Array.size_replicate
  rw [← Memory.overwrite_blank]
  unfold boot load
  constructor
  · intro h
    cases hload : fresh.mem.load 0 bytes with
    | error e =>
        rw [hload] at h
        cases h
    | ok mem =>
        rw [hload] at h
        cases h
        obtain ⟨hroom, -, rfl⟩ := Memory.load_eq_ok_iff.1 hload
        exact ⟨hroom, rfl⟩
  · rintro ⟨hroom, rfl⟩
    have hcells : 0 + bytes.length ≤ fresh.mem.cells.size := by
      rw [hsize, Nat.zero_add]
      exact hroom
    have hload : fresh.mem.load 0 bytes = .ok ⟨Memory.overwrite fresh.mem.cells 0 bytes⟩ :=
      Memory.load_eq_ok_iff.2 ⟨hroom, hcells, rfl⟩
    rw [hload]
    rfl

def isRunning (m : Machine) : Bool := m.status == .running

def isHalted (m : Machine) : Bool := m.status == .halted

/-- The program counter. -/
def pc (m : Machine) : UInt8 := m.regs.pc

/-- The machine with the program counter at `address`. -/
def jump (m : Machine) (address : UInt8) : Machine :=
  { m with regs := m.regs.jump address }

/-- The instruction at the program counter. Up to three bytes are looked at,
fewer where the addresses end. -/
def fetch (m : Machine) : Except Fault Instruction :=
  match m.mem.slice m.pc.toNat (min (m.pc.toNat + 3) Memory.capacity) with
  | .error e => .error (.memory e)
  | .ok bytes =>
      match Instruction.decode bytes with
      | .error e => .error (.decode m.pc e)
      | .ok i => .ok i

/-- The record form, for diagnostics. -/
def describe (m : Machine) : String :=
  Text.record "Cpu"
    [("state", m.status.name),
     ("cycles", Numeral.decimal m.cycles.toNat),
     ("regs", m.regs.describe)]

end Machine

end LS8
