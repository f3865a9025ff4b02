/-
Work in place: what an instruction does to a machine and its printer, one
change after the other. A fault ends the work where it comes up, and every
change that was made before stays made; nothing is rolled back.
-/
import LS8.Machine
import LS8.Printer

namespace LS8

/-- Work on a machine and its printer that gives an `α` or ends with a
fault. -/
abbrev Work (α : Type) := EStateM Fault (Machine × Printer) α

namespace Work

/-- The machine as the work so far has left it. -/
def machine : Work Machine := do
  return (← get).1

/-- One change to the machine. -/
def change (f : Machine → Machine) : Work Unit :=
  modify fun (m, out) => (f m, out)

/-- What the machine answers to a question that changes nothing. -/
def ask {α : Type} (question : Machine → Except Fault α) : Work α := do
  match question (← machine) with
  | .ok a => return a
  | .error fault => throw fault

/-- Prints a value. -/
def print (value : UInt8) : Work Unit := do
  let (m, out) ← get
  match out.offer value with
  | (.ok (), out) => set (m, out)
  | (.error text, out) =>
      set (m, out)
      throw (.output text)

-- ================================================= how each piece ends

variable {α β : Type}

theorem run_pure (a : α) (s : Machine × Printer) :
    (pure a : Work α).run s = .ok a s := rfl

/-- The next piece goes on from what the first has left; after a fault
there is none. -/
theorem run_bind (w : Work α) (f : α → Work β) (s : Machine × Printer) :
    (w >>= f).run s = match w.run s with
      | .ok a s => (f a).run s
      | .error fault s => .error fault s := by
  show EStateM.bind w f s = _
  unfold EStateM.bind EStateM.run
  cases w s <;> rfl

theorem run_machine (s : Machine × Printer) : machine.run s = .ok s.1 s := rfl

theorem run_change (f : Machine → Machine) (s : Machine × Printer) :
    (change f).run s = .ok () (f s.1, s.2) := rfl

theorem run_ask (question : Machine → Except Fault α) (s : Machine × Printer) :
    (ask question).run s = match question s.1 with
      | .ok a => .ok a s
      | .error fault => .error fault s := by
  rw [ask, run_bind, run_machine]
  dsimp only
  cases question s.1 <;> rfl

theorem run_print (value : UInt8) (m : Machine) (out : Printer) :
    (print value).run (m, out) = match out.offer value with
      | (.ok (), out) => .ok () (m, out)
      | (.error text, out) => .error (.output text) (m, out) := by
  show (match out.offer value with
    | (.ok (), out) => set (m, out)
    | (.error text, out) => do
        set (m, out)
        throw (.output text) : Work Unit).run (m, out) = _
  split <;> rfl

end Work

end LS8
