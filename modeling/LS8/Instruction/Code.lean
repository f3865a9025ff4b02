/-
Instructions as bytes: an opcode, then up to two operand bytes. The two high
bits of an opcode are the number of operands, so the length of an
instruction is known from its first byte, also for bytes that are no opcode.

`encode` and `decode` are two tables over the same opcodes. Decoding looks
at no byte beyond the instruction, and an unknown opcode is reported before
missing operands are.
-/
import LS8.Instruction

namespace LS8

-- ============================================================== opcodes

namespace Opcode

def hlt : UInt8 := 0b00000001
def ret : UInt8 := 0b00010001
def push : UInt8 := 0b01000101
def pop : UInt8 := 0b01000110
def prn : UInt8 := 0b01000111
def call : UInt8 := 0b01010000
def jmp : UInt8 := 0b01010100
def jeq : UInt8 := 0b01010101
def jne : UInt8 := 0b01010110
def ldi : UInt8 := 0b10000010
def add : UInt8 := 0b10100000
def mul : UInt8 := 0b10100010
def cmp : UInt8 := 0b10100111

/-- How many bytes an instruction with this first byte takes. -/
def size (opcode : UInt8) : Nat :=
  1 + opcode.toNat / 64

/-- What an opcode still needs to become an instruction. -/
inductive Form where
  | bare (instruction : Instruction)
  | unary (instruction : UInt8 → Instruction)
  | binary (instruction : UInt8 → UInt8 → Instruction)

/-- The form of each opcode; no other byte is an opcode. -/
def form? (opcode : UInt8) : Option Form :=
  if opcode = hlt then some (.bare .hlt)
  else if opcode = ret then some (.bare .ret)
  else if opcode = prn then some (.unary .prn)
  else if opcode = push then some (.unary .push)
  else if opcode = pop then some (.unary .pop)
  else if opcode = call then some (.unary .call)
  else if opcode = jmp then some (.unary .jmp)
  else if opcode = jeq then some (.unary .jeq)
  else if opcode = jne then some (.unary .jne)
  else if opcode = ldi then some (.binary .ldi)
  else if opcode = add then some (.binary (.alu .add))
  else if opcode = mul then some (.binary (.alu .mul))
  else if opcode = cmp then some (.binary (.alu .cmp))
  else none

end Opcode

-- ============================================================= encoding

namespace Instruction

/-- The first byte of an instruction. -/
def opcode : Instruction → UInt8
  | hlt => Opcode.hlt
  | ret => Opcode.ret
  | jmp _ => Opcode.jmp
  | jeq _ => Opcode.jeq
  | jne _ => Opcode.jne
  | call _ => Opcode.call
  | prn _ => Opcode.prn
  | push _ => Opcode.push
  | pop _ => Opcode.pop
  | ldi _ _ => Opcode.ldi
  | alu .add _ _ => Opcode.add
  | alu .mul _ _ => Opcode.mul
  | alu .cmp _ _ => Opcode.cmp

/-- The bytes after the first. -/
def operands : Instruction → List UInt8
  | hlt | ret => []
  | jmp r | jeq r | jne r | call r | prn r | push r | pop r => [r]
  | ldi r v => [r, v]
  | alu _ a b => [a, b]

/-- How many bytes an instruction takes. -/
def size (i : Instruction) : Nat :=
  Opcode.size i.opcode

/-- The bytes of an instruction. -/
def encode (i : Instruction) : List UInt8 :=
  i.opcode :: i.operands

/-- The length of an instruction is what its opcode says. -/
theorem length_encode (i : Instruction) : i.encode.length = i.size := by
  cases i with
  | alu op a b => cases op <;> simp [encode, operands, size, opcode, Opcode.size, Opcode.add,
      Opcode.mul, Opcode.cmp]
  | _ => simp [encode, operands, size, opcode, Opcode.size, Opcode.hlt, Opcode.ret, Opcode.jmp,
      Opcode.jeq, Opcode.jne, Opcode.call, Opcode.prn, Opcode.push, Opcode.pop, Opcode.ldi]

theorem size_pos (i : Instruction) : 0 < i.size := by
  rw [← length_encode]
  exact Nat.zero_lt_succ _

/-- An instruction has two operands at most. -/
theorem size_le_three (i : Instruction) : i.size ≤ 3 := by
  rw [← length_encode]
  cases i <;> simp [encode, operands]

end Instruction

-- ============================================================= decoding

/-- Why bytes are no instruction. -/
inductive DecodeError where
  | unknownOpcode (opcode : UInt8)
  | truncated (opcode : UInt8) (needed : Nat)
  deriving DecidableEq, Repr

/-- The error as a reader sees it. -/
def DecodeError.message : DecodeError → String
  | .unknownOpcode op =>
      "unknown instruction: " ++ Numeral.decimal op.toNat ++ ", 0b" ++ Numeral.binary op
  | .truncated op needed =>
      "instruction 0b" ++ Numeral.binary8 op ++ " needs " ++ Numeral.decimal needed ++ " bytes"

/-- The instruction that `bytes` begins with. No bytes at all count as an
opcode 0 that is missing. -/
def Instruction.decode : List UInt8 → Except DecodeError Instruction
  | [] => .error (.truncated 0 1)
  | op :: operands =>
      match Opcode.form? op, operands with
      | none, _ => .error (.unknownOpcode op)
      | some (.bare i), _ => .ok i
      | some (.unary i), a :: _ => .ok (i a)
      | some (.binary i), a :: b :: _ => .ok (i a b)
      | some (.unary _), _ | some (.binary _), _ => .error (.truncated op (Opcode.size op))

/-- An instruction is read back from its bytes, whatever follows them. -/
theorem Instruction.decode_encode (i : Instruction) (rest : List UInt8) :
    decode (i.encode ++ rest) = .ok i := by
  cases i with
  | alu op a b => cases op <;> rfl
  | _ => rfl

end LS8
