/-
The condition flags. Only a comparison writes them, and it leaves exactly
one of the three bits set; before the first comparison none is. Any byte is
admitted, because a machine that is read back from text may carry any.
-/
import LS8.Numeral

namespace LS8

/-- The flags register: a byte of which three bits have a meaning. -/
structure Flags where
  bits : UInt8
  deriving DecidableEq, Repr

namespace Flags

/-- The bit set when the operands of a comparison were equal. -/
def equalBit : UInt8 := 0b00000001

/-- The bit set when the first operand was the greater one. -/
def greaterBit : UInt8 := 0b00000010

/-- The bit set when the first operand was the smaller one. -/
def lessBit : UInt8 := 0b00000100

/-- No comparison has been made. -/
def clear : Flags := ⟨0⟩

/-- How `a` relates to `b`. -/
def compare (a b : UInt8) : Flags :=
  if a = b then ⟨equalBit⟩ else if b < a then ⟨greaterBit⟩ else ⟨lessBit⟩

def isEqual (fl : Flags) : Bool := fl.bits &&& equalBit != 0

def isGreater (fl : Flags) : Bool := fl.bits &&& greaterBit != 0

def isLess (fl : Flags) : Bool := fl.bits &&& lessBit != 0

/-- The letter of the first flag that is set, in the order equal, greater,
less. -/
def letter (fl : Flags) : String :=
  if fl.isEqual then "E"
  else if fl.isGreater then "G"
  else if fl.isLess then "L"
  else "-"

/-- The flags as a display shows them: eight bits and a letter. -/
def describe (fl : Flags) : String :=
  "FL=" ++ Numeral.binary8 fl.bits ++ " (" ++ fl.letter ++ ")"

-- ==================================================== reading the bits

theorem isEqual_compare (a b : UInt8) : (compare a b).isEqual = decide (a = b) := by
  unfold compare
  split
  · next h => simp [h]; decide
  · next h => split <;> simp [h] <;> decide

end Flags

end LS8
