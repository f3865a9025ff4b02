/-
What a trace shows of a machine before an instruction: the program counter,
the three bytes there, the eight registers, and the instruction if the bytes
are one.
-/
import LS8.Machine

namespace LS8.Machine

/-- The machine in one line. Cells that do not exist are shown as 00. -/
def traceLine (m : Machine) : String :=
  let byte (offset : Nat) := Numeral.hex2 (m.mem.peek (m.pc.toNat + offset))
  "TRACE: " ++ Numeral.hex2 m.pc
    ++ " | " ++ " ".intercalate [byte 0, byte 1, byte 2]
    ++ " | " ++ " ".intercalate (m.regs.gp.toList.map Numeral.hex2)

/-- The machine and the instruction it is about to attempt; the machine
alone if there is none. -/
def traceEntry (m : Machine) : String :=
  match m.fetch with
  | .ok i => m.traceLine ++ " | " ++ i.text
  | .error _ => m.traceLine

end LS8.Machine
