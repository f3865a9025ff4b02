/-
What stops a machine that was not stopped by HLT, with the wording and the
exit code of each cause.
-/
import LS8.Instruction.Code
import LS8.Memory

namespace LS8

/-- Whether a machine can go on. -/
inductive Status where
  | running
  | halted
  | failed
  deriving DecidableEq, Repr

/-- The status as a reader sees it. -/
def Status.name : Status → String
  | .running => "Running"
  | .halted => "Halted"
  | .failed => "Error"

/-- Why a step did not go through. -/
inductive Fault where
  /-- The machine had stopped before. -/
  | notRunning (status : Status)
  | memory (error : MemoryError)
  /-- The bytes at `pc` are no instruction. -/
  | decode (pc : UInt8) (error : DecodeError)
  | stackOverflow
  | stackUnderflow
  /-- The instruction would go on at `next`, which is no address. -/
  | pcOutOfRange (next : Nat)
  /-- The printer refused with this text. -/
  | output (text : String)
  deriving DecidableEq, Repr

namespace Fault

/-- The fault as a reader sees it. -/
def message : Fault → String
  | notRunning status => "CPU not running: " ++ status.name
  | memory error => "memory error: " ++ error.message
  | decode pc error => "at PC=" ++ Numeral.decimal pc.toNat ++ ": " ++ error.message
  | stackOverflow => "stack overflow: SP would drop below address 0"
  | stackUnderflow => "stack underflow: SP would rise above address 255"
  | pcOutOfRange next => "program counter out of range: " ++ Numeral.decimal next
  | output text => "output error: " ++ text

/-- The exit code of a program run that ends with the fault: 1 for an
unknown opcode, 4 for an address that does not exist, 74 for output that
cannot be written, 70 for a machine that should not have been stepped. -/
def exitCode : Fault → UInt8
  | decode _ (.unknownOpcode _) => 1
  | decode _ (.truncated _ _) | memory _ | stackOverflow | stackUnderflow | pcOutOfRange _ => 4
  | output _ => 74
  | notRunning _ => 70

end Fault

end LS8
