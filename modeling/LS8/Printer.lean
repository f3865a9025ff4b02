/-
What a machine prints, and the printer that takes it.

A printout is the values printed so far, one a line. A printer takes a line
whole or refuses it whole; whether it takes one is decided by a rule on all
that it has been offered before and on the value. So every printer that can
be attached (one that takes everything, one that fills up, one whose disk is
full) is a rule, and a run with any of them is a computation.
-/
import LS8.Numeral

namespace LS8

-- ============================================================ printouts

/-- Printed values, in order. -/
structure Printout where
  values : Array UInt8 := #[]
  deriving DecidableEq, Repr

namespace Printout

/-- One more value. -/
def add (p : Printout) (value : UInt8) : Printout :=
  ⟨p.values.push value⟩

/-- The lines, without their ends: each value in decimal. -/
def lines (p : Printout) : List String :=
  p.values.toList.map fun value => Numeral.decimal value.toNat

/-- The text: every line ended. -/
def text (p : Printout) : String :=
  String.join (p.lines.map (· ++ "\n"))

theorem values_add (p : Printout) (value : UInt8) :
    (p.add value).values.toList = p.values.toList ++ [value] := by
  simp [add]

/-- A value adds a line and changes none. -/
theorem lines_add (p : Printout) (value : UInt8) :
    (p.add value).lines = p.lines ++ [Numeral.decimal value.toNat] := by
  simp [lines, values_add]

end Printout

-- ============================================================= printers

/-- A printer: what it has printed, what it has been offered (the latest
first), and for each offer the text of its refusal, if it refuses. -/
structure Printer where
  printed : Printout := {}
  offered : List UInt8 := []
  refusal : List UInt8 → UInt8 → Option String

namespace Printer

/-- Takes everything, behind what has been printed before. -/
def unlimited (printed : Printout) : Printer where
  printed := printed
  refusal := fun _ _ => none

/-- Takes the first `room` lines and refuses all others with `text`. -/
def limited (room : Nat) (text : String) : Printer where
  refusal := fun offered _ => if offered.length < room then none else some text

/-- Offers a value: the printer afterwards, and the text of its refusal if
it refuses. -/
def offer (out : Printer) (value : UInt8) : Except String Unit × Printer :=
  let offered := value :: out.offered
  match out.refusal out.offered value with
  | none => (.ok (), { out with printed := out.printed.add value, offered })
  | some text => (.error text, { out with offered })

/-- Offers what an instruction prints, if it prints. -/
def receive (out : Printer) : Option UInt8 → Except String Unit × Printer
  | none => (.ok (), out)
  | some value => out.offer value

/-- What a printer takes is printed behind what it has printed. -/
theorem printed_of_offer {out out' : Printer} {value : UInt8}
    (h : out.offer value = (.ok (), out')) : out'.printed = out.printed.add value := by
  unfold offer at h
  split at h <;> cases h
  rfl

/-- A printer that refuses has printed nothing. -/
theorem printed_of_offer_error {out out' : Printer} {value : UInt8} {text : String}
    (h : out.offer value = (.error text, out')) : out'.printed = out.printed := by
  unfold offer at h
  split at h <;> cases h
  rfl

theorem printed_of_receive_error {out out' : Printer} {value : Option UInt8} {text : String}
    (h : out.receive value = (.error text, out')) : out'.printed = out.printed := by
  cases value with
  | none => cases h
  | some value => exact printed_of_offer_error h

end Printer

end LS8
