/-
The state of a machine, and of its parts, as JSON: what a state file holds
and what it may hold to be read back.

# Written form

A structure is an object with its fields in a fixed order; an instruction is
its name, or an object with its name before its operands.

# What is read

More than what is written. The fields of a structure may come in any order
and among others, which are ignored, or as an array of all of them in the
fixed order; a name alone may also be an object with the name before
`null`. A field that comes twice is refused, and so is one that is missing,
except the last instruction, which is then none.
-/
import LS8.Machine
import LS8.Json.Printer
import LS8.Json.Reader

namespace LS8

-- ===================================================== reading the parts

namespace Json

/-- A byte. -/
def byte? : Json → Option UInt8
  | scalar (.integer n) => if n < UInt8.size then some (UInt8.ofNat n) else none
  | _ => none

/-- A 64-bit word. -/
def word? : Json → Option UInt64
  | scalar (.integer n) => if n < UInt64.size then some (UInt64.ofNat n) else none
  | _ => none

/-- An array of bytes. -/
def bytes? : Json → Option (List UInt8)
  | array items => items.mapM byte?
  | _ => none

/-- The value of the member called `name`, or that there is none; nothing
if there are several. -/
def member? (members : List (Option String × Json)) (name : String) : Option (Option Json) :=
  match members.filter fun member => member.1 = some name with
  | [] => some none
  | [(_, value)] => some (some value)
  | _ => none

/-- The values of the fields of a structure, each of which may be missing:
of an array all its items, of an object the members with these names. -/
def fields? (names : List String) : Json → Option (List (Option Json))
  | array items => if items.length = names.length then some (items.map some) else none
  | object members =>
      if members.all (·.1.isSome) then names.mapM (member? members) else none
  | scalar _ => none

/-- The name of an alternative, and what comes with it. -/
def alternative? : Json → Option (String × Option Json)
  | scalar (.text (some name)) => some (name, none)
  | object [(some name, value)] => some (name, some value)
  | _ => none

/-- The name of an alternative that nothing comes with. -/
def name? (value : Json) : Option String :=
  match value.alternative? with
  | some (name, none) => some name
  | some (name, some (scalar .null)) => some name
  | _ => none

end Json

-- ========================================================= instructions

/-- The operation by its name. -/
def AluOp.toJson (op : AluOp) : Json := .text op.name

/-- The operation that a name stands for. -/
def AluOp.ofJson? (value : Json) : Option AluOp :=
  match value.name? with
  | some "Add" => some .add
  | some "Mul" => some .mul
  | some "Cmp" => some .cmp
  | _ => none

namespace Instruction

/-- The operands by their names. -/
def operandFields : Instruction → List (String × Json)
  | hlt | ret => []
  | jmp r | jeq r | jne r | call r | prn r | push r | pop r => [("reg", .byte r)]
  | ldi r v => [("reg", .byte r), ("value", .byte v)]
  | alu op a b => [("op", op.toJson), ("reg_a", .byte a), ("reg_b", .byte b)]

/-- The name, and the operands if there are any. -/
def toJson (i : Instruction) : Json :=
  match i.operandFields with
  | [] => .text i.name
  | fields => .ofFields [(i.name, .ofFields fields)]

/-- An instruction with one register operand. -/
def ofRegister? (instruction : UInt8 → Instruction) (operands : Json) : Option Instruction :=
  match operands.fields? ["reg"] with
  | some [some reg] => reg.byte?.map instruction
  | _ => none

/-- The instruction with the given name and operands. -/
def ofOperands? (name : String) (operands : Json) : Option Instruction :=
  match name with
  | "Jmp" => ofRegister? jmp operands
  | "Jeq" => ofRegister? jeq operands
  | "Jne" => ofRegister? jne operands
  | "Call" => ofRegister? call operands
  | "Prn" => ofRegister? prn operands
  | "Push" => ofRegister? push operands
  | "Pop" => ofRegister? pop operands
  | "Ldi" =>
      match operands.fields? ["reg", "value"] with
      | some [some reg, some value] => do
          let reg ← reg.byte?
          let value ← value.byte?
          return ldi reg value
      | _ => none
  | "Alu" =>
      match operands.fields? ["op", "reg_a", "reg_b"] with
      | some [some op, some a, some b] => do
          let op ← AluOp.ofJson? op
          let a ← a.byte?
          let b ← b.byte?
          return alu op a b
      | _ => none
  | _ => none

/-- The instruction that a value stands for. -/
def ofJson? (value : Json) : Option Instruction :=
  match value.name? with
  | some "Hlt" => some hlt
  | some "Ret" => some ret
  | _ =>
      match value.alternative? with
      | some (name, some operands) => ofOperands? name operands
      | _ => none

end Instruction

-- ================================================== registers and memory

namespace Registers

def toJson (regs : Registers) : Json :=
  .ofFields
    [("gp", .array (regs.gp.toList.map .byte)),
     ("pc", .byte regs.pc),
     ("fl", .byte regs.fl.bits)]

/-- Eight bytes as general registers. -/
def ofBytes? (bytes : List UInt8) : Option (Vector UInt8 8) :=
  if h : bytes.toArray.size = 8 then some ⟨bytes.toArray, h⟩ else none

def ofJson? (value : Json) : Option Registers :=
  match value.fields? ["gp", "pc", "fl"] with
  | some [some gp, some pc, some fl] => do
      let gp ← ofBytes? (← gp.bytes?)
      let pc ← pc.byte?
      let fl ← fl.byte?
      return { gp, pc, fl := ⟨fl⟩ }
  | _ => none

end Registers

namespace Memory

def toJson (mem : Memory) : Json :=
  .ofFields [("cells", .array (mem.cells.toList.map .byte))]

def ofJson? (value : Json) : Option Memory :=
  match value.fields? ["cells"] with
  | some [some cells] => cells.bytes?.map fun bytes => ⟨bytes.toArray⟩
  | _ => none

end Memory

-- ============================================================== machines

def Status.toJson (status : Status) : Json := .text status.name

/-- The status that a name stands for. -/
def Status.ofJson? (value : Json) : Option Status :=
  match value.name? with
  | some "Running" => some .running
  | some "Halted" => some .halted
  | some "Error" => some .failed
  | _ => none

namespace Machine

def toJson (m : Machine) : Json :=
  .ofFields
    [("regs", m.regs.toJson),
     ("mem", m.mem.toJson),
     ("state", m.status.toJson),
     ("cycles", .word m.cycles),
     ("last_instr", match m.last with
       | none => .scalar .null
       | some i => i.toJson)]

/-- The last instruction, which may be missing or null. -/
def lastOfJson? : Option Json → Option (Option Instruction)
  | none => some none
  | some (.scalar .null) => some none
  | some value => (Instruction.ofJson? value).map some

def ofJson? (value : Json) : Option Machine :=
  match value.fields? ["regs", "mem", "state", "cycles", "last_instr"] with
  | some [some regs, some mem, some status, some cycles, last] => do
      let regs ← Registers.ofJson? regs
      let mem ← Memory.ofJson? mem
      let status ← Status.ofJson? status
      let cycles ← cycles.word?
      let last ← lastOfJson? last
      return { regs, mem, status, cycles, last }
  | _ => none

end Machine

end LS8
