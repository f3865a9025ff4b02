/-
The thirteen instructions and their two texts: the mnemonic form that a
trace, a listing or a status line shows, and the record form.

Operands are the raw bytes that stand in memory. What register an operand
names is the register file's business (`Registers.index`), so an instruction
keeps all that its bytes say and can be written back exactly.
-/
import LS8.Numeral
import LS8.Text.Record

namespace LS8

/-- An operation on two registers. -/
inductive AluOp where
  | add
  | mul
  | cmp
  deriving DecidableEq, Repr

/-- One instruction with its operand bytes. -/
inductive Instruction where
  /-- Stop the machine. -/
  | hlt
  /-- Go to the address in a register. -/
  | jmp (reg : UInt8)
  /-- Go there if the last comparison found its operands equal. -/
  | jeq (reg : UInt8)
  /-- Go there unless the last comparison found its operands equal. -/
  | jne (reg : UInt8)
  /-- Push the address of what follows, then go to the address in a
  register. -/
  | call (reg : UInt8)
  /-- Pop an address and go there. -/
  | ret
  /-- Put a byte into a register. -/
  | ldi (reg value : UInt8)
  /-- Print a register in decimal. -/
  | prn (reg : UInt8)
  /-- Push a register. -/
  | push (reg : UInt8)
  /-- Pop into a register. -/
  | pop (reg : UInt8)
  /-- Apply an operation to two registers. -/
  | alu (op : AluOp) (regA regB : UInt8)
  deriving DecidableEq, Repr

-- ==================================================== the mnemonic form

/-- The operation's name in a mnemonic. -/
def AluOp.mnemonic : AluOp → String
  | .add => "ADD"
  | .mul => "MUL"
  | .cmp => "CMP"

namespace Instruction

/-- A register operand as it is written: the raw operand byte, not reduced
to a register number. -/
def registerText (reg : UInt8) : String :=
  "R" ++ Numeral.decimal reg.toNat

/-- The mnemonic form: `LDI R0,8`. -/
def text : Instruction → String
  | hlt => "HLT"
  | ret => "RET"
  | jmp r => "JMP " ++ registerText r
  | jeq r => "JEQ " ++ registerText r
  | jne r => "JNE " ++ registerText r
  | call r => "CALL " ++ registerText r
  | prn r => "PRN " ++ registerText r
  | push r => "PUSH " ++ registerText r
  | pop r => "POP " ++ registerText r
  | ldi r v => "LDI " ++ registerText r ++ "," ++ Numeral.decimal v.toNat
  | alu op a b => op.mnemonic ++ " " ++ registerText a ++ "," ++ registerText b

end Instruction

-- ====================================================== the record form

/-- The operation's name where instructions are written as records. -/
def AluOp.name : AluOp → String
  | .add => "Add"
  | .mul => "Mul"
  | .cmp => "Cmp"

namespace Instruction

/-- The instruction's name where instructions are written as records. -/
def name : Instruction → String
  | hlt => "Hlt"
  | ret => "Ret"
  | jmp _ => "Jmp"
  | jeq _ => "Jeq"
  | jne _ => "Jne"
  | call _ => "Call"
  | prn _ => "Prn"
  | push _ => "Push"
  | pop _ => "Pop"
  | ldi _ _ => "Ldi"
  | alu _ _ _ => "Alu"

/-- The record form: `Alu { op: Add, reg_a: 0, reg_b: 1 }`. -/
def describe (i : Instruction) : String :=
  let byte (b : UInt8) := Numeral.decimal b.toNat
  Text.record i.name <| match i with
    | hlt | ret => []
    | jmp r | jeq r | jne r | call r | prn r | push r | pop r => [("reg", byte r)]
    | ldi r v => [("reg", byte r), ("value", byte v)]
    | alu op a b => [("op", op.name), ("reg_a", byte a), ("reg_b", byte b)]

end Instruction

end LS8
