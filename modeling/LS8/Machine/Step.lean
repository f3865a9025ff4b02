/-
One instruction of a machine.

# Work in place

An instruction is work on the machine and its printer. It asks what may fail
and makes its changes one after the other; should it ask after a change and
the answer be a fault, the change would stay. That this never happens, so
that an instruction goes through as a whole or changes nothing but the
status, is a theorem (`step_eq`), not a matter of how steps are defined.

# Order of the checks

An instruction that goes on behind itself must have an address there, and
that is checked before the stack and the memory are, and once more when the
program counter moves. JMP, RET, HLT and a conditional jump that is taken do
not go on behind themselves, so they may be the last instruction in memory.
-/
import LS8.Machine.Work

namespace LS8

/-- What a step or a run comes to. -/
structure Outcome (α : Type) where
  result : Except Fault α
  machine : Machine
  out : Printer

/-- An outcome is its result with the machine and the printer it leaves. -/
theorem Outcome.eq_of_result {α : Type} {o : Outcome α} {result : Except Fault α}
    (h : o.result = result) : o = ⟨result, o.machine, o.out⟩ := by
  subst h
  rfl

/-- The outcome of a run of a machine whose counter stood at `start`, with
the number of instructions that have gone through. -/
def Outcome.counted (o : Outcome Unit) (start : UInt64) : Outcome UInt64 :=
  { o with result := o.result.map fun _ => o.machine.cycles - start }

/-- An operation on two registers: sums and products are cut to a byte and
replace the first operand, a comparison writes the flags only. -/
def Registers.operate (regs : Registers) (op : AluOp) (regA regB : UInt8) : Registers :=
  let a := regs.get regA
  let b := regs.get regB
  match op with
  | .add => regs.set regA (a + b)
  | .mul => regs.set regA (a * b)
  | .cmp => { regs with fl := Flags.compare a b }

namespace Machine

-- ============================================================ the parts

/-- The address behind the instruction `i` at the program counter. -/
def following (m : Machine) (i : Instruction) : Except Fault UInt8 :=
  let next := m.pc.toNat + i.size
  if next < Memory.capacity then .ok (UInt8.ofNat next) else .error (.pcOutOfRange next)

/-- The value that a pop gives, provided the stack pointer can rise. -/
def top (m : Machine) : Except Fault UInt8 :=
  let sp := m.regs.sp
  if sp = 255 then .error .stackUnderflow
  else
    match m.mem.read sp.toNat with
    | .error e => .error (.memory e)
    | .ok value => .ok value

/-- The stack pointer one up, from wherever it now stands. -/
def shrinkStack (m : Machine) : Machine :=
  { m with regs := m.regs.setSp (m.regs.sp + 1) }

/-- The machine with `value` in the register that `reg` names. -/
def setRegister (m : Machine) (reg value : UInt8) : Machine :=
  { m with regs := m.regs.set reg value }

/-- The machine after a fault. -/
def fail (m : Machine) : Machine :=
  { m with status := .failed }

/-- The machine after `i` has gone through: the counter goes up by one, in
64-bit words. -/
def complete (m : Machine) (i : Instruction) : Machine :=
  { m with cycles := m.cycles + 1, last := some i }

end Machine

-- ============================================================ execution

/-- Where the program counter goes. -/
inductive Next where
  /-- Behind the instruction. -/
  | behind
  | address (address : UInt8)
  | nowhere

namespace Work

open Machine

/-- The stack grows downwards by `value`: the cell below the top takes it,
then the stack pointer moves there. -/
def push (value : UInt8) : Work Unit := do
  let sp := (← machine).regs.sp
  if sp = 0 then
    throw .stackOverflow
  let mem ← ask fun m => (m.mem.write (sp - 1).toNat value).mapError .memory
  change fun m => { m with mem }
  change fun m => { m with regs := m.regs.setSp (sp - 1) }

/-- The stack shrinks by the value that this gives. -/
def pop : Work UInt8 := do
  let value ← ask top
  change shrinkStack
  return value

/-- `work`, provided `i` has an address behind it, where the program counter
then goes. -/
def onward (i : Instruction) (work : Work Unit) : Work Next := do
  let _ ← ask fun m => m.following i
  work
  return .behind

/-- All of `i` but the move of the program counter, and where that goes.

A call reads its register after the push, so through R7 it goes to the new
stack pointer; a pop moves the stack pointer after the load, so into R7 it
leaves the popped value plus one. -/
def operate (i : Instruction) : Work Next := do
  match i with
  | .hlt =>
      change fun m => { m with status := .halted }
      return .nowhere
  | .jmp r => return .address ((← machine).regs.get r)
  | .jeq r =>
      let m ← machine
      return if m.regs.fl.isEqual then .address (m.regs.get r) else .behind
  | .jne r =>
      let m ← machine
      return if m.regs.fl.isEqual then .behind else .address (m.regs.get r)
  | .call r =>
      let back ← ask fun m => m.following i
      push back
      return .address ((← machine).regs.get r)
  | .ret => return .address (← pop)
  | .ldi r value => onward i (change fun m => m.setRegister r value)
  | .prn r => onward i do print ((← machine).regs.get r)
  | .push r => onward i do push ((← machine).regs.get r)
  | .pop r =>
      onward i do
        let value ← ask top
        change fun m => m.setRegister r value
        change shrinkStack
  | .alu op a b => onward i (change fun m => { m with regs := m.regs.operate op a b })

/-- The move of the program counter after `i`. -/
def move (i : Instruction) (next : Next) : Work Unit := do
  match next with
  | .behind =>
      let address ← ask fun m => m.following i
      change fun m => m.jump address
  | .address address => change fun m => m.jump address
  | .nowhere => return

/-- All of `i`, which stands at the program counter. -/
def execute (i : Instruction) : Work Unit := do
  let next ← operate i
  move i next

/-- The instruction at the program counter. -/
def instruction : Work Instruction := do
  let i ← ask fetch
  execute i
  return i

end Work

-- ================================================================ steps

/-- One instruction. Any fault is final: the machine changes to failed and
refuses every further step. -/
def Machine.step (m : Machine) (out : Printer) : Outcome Instruction :=
  if m.status = .running then
    match Work.instruction.run (m, out) with
    | .ok i (m, out) => ⟨.ok i, m.complete i, out⟩
    | .error fault (m, out) => ⟨.error fault, m.fail, out⟩
  else
    ⟨.error (.notRunning m.status), m, out⟩

end LS8
