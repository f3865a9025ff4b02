/-
The register file: eight byte registers R0 to R7, the program counter and
the flags. R7 doubles as the stack pointer.

An operand byte names a register by its value modulo 8, so every byte is a
register name and reading or writing a register cannot fail.
-/
import LS8.Flags
import LS8.Text.Record

namespace LS8

/-- The registers of the machine. -/
structure Registers where
  gp : Vector UInt8 8
  pc : UInt8
  fl : Flags
  deriving DecidableEq, Repr

namespace Registers

/-- Every register zero and no flag set. -/
def fresh : Registers where
  gp := Vector.replicate 8 0
  pc := 0
  fl := Flags.clear

/-- The register that an operand byte names. -/
def index (reg : UInt8) : Fin 8 :=
  ⟨reg.toNat % 8, Nat.mod_lt _ (by decide)⟩

/-- The place of the stack pointer in the register file. -/
def spIndex : Fin 8 := 7

/-- The value of the register that `reg` names. -/
def get (regs : Registers) (reg : UInt8) : UInt8 :=
  regs.gp[index reg]

/-- The register that `reg` names takes `value`. -/
def set (regs : Registers) (reg value : UInt8) : Registers :=
  { regs with gp := regs.gp.set (index reg) value }

/-- The stack pointer. -/
def sp (regs : Registers) : UInt8 :=
  regs.gp[spIndex]

/-- The stack pointer takes `value`. -/
def setSp (regs : Registers) (value : UInt8) : Registers :=
  { regs with gp := regs.gp.set spIndex value }

/-- The program counter takes `address`. -/
def jump (regs : Registers) (address : UInt8) : Registers :=
  { regs with pc := address }

-- ============================================ what is read after a write

/-- The stack pointer is the register that the operand byte 7 names. -/
theorem get_seven (regs : Registers) : regs.get 7 = regs.sp := rfl

@[simp] theorem pc_set (regs : Registers) (reg value : UInt8) :
    (regs.set reg value).pc = regs.pc := rfl

@[simp] theorem fl_set (regs : Registers) (reg value : UInt8) :
    (regs.set reg value).fl = regs.fl := rfl

@[simp] theorem pc_setSp (regs : Registers) (value : UInt8) :
    (regs.setSp value).pc = regs.pc := rfl

@[simp] theorem fl_setSp (regs : Registers) (value : UInt8) :
    (regs.setSp value).fl = regs.fl := rfl

/-- A write shows in the registers of the same number and no other. -/
theorem get_set (regs : Registers) (reg value reg' : UInt8) :
    (regs.set reg value).get reg' = if index reg = index reg' then value else regs.get reg' := by
  simp only [get, set, Fin.getElem_fin, Vector.getElem_set, Fin.ext_iff]

theorem sp_set (regs : Registers) (reg value : UInt8) :
    (regs.set reg value).sp = if index reg = spIndex then value else regs.sp :=
  get_set regs reg value 7

@[simp] theorem sp_setSp (regs : Registers) (value : UInt8) : (regs.setSp value).sp = value := by
  simp [sp, setSp]

theorem get_setSp (regs : Registers) (value reg : UInt8) :
    (regs.setSp value).get reg = if index reg = spIndex then value else regs.get reg := by
  simp only [get, setSp, Fin.getElem_fin, Vector.getElem_set, Fin.ext_iff, eq_comm]

-- ============================================================== display

/-- The record form, for diagnostics. -/
def describe (regs : Registers) : String :=
  Text.record "Registers"
    [("gp", Text.sequence (regs.gp.toList.map fun v => Numeral.decimal v.toNat)),
     ("pc", Numeral.decimal regs.pc.toNat),
     ("fl", regs.fl.describe)]

end Registers

end LS8
