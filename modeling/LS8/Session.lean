/-
A session: a machine for a host program, with the program text that was last
loaded into it and all that it has printed since.

Loading either replaces machine, program and output together or leaves all
three alone, so a session always stands somewhere in a run of its last good
program, and starting over is always possible.
-/
import LS8.Machine.Run
import LS8.Program
import LS8.Snapshot

namespace LS8

/-- A machine for a host program. -/
structure Session where
  machine : Machine := Machine.fresh
  program : List UInt8 := []
  printed : Printout := {}

/-- Why a session refuses. -/
inductive SessionError where
  | load (error : LoadError)
  | memory (error : MemoryError)
  | fault (error : Fault)
  deriving DecidableEq, Repr

/-- The error as a reader sees it. -/
def SessionError.message : SessionError → String
  | .load error => error.message
  | .memory error => error.message
  | .fault error => error.message

namespace Session

/-- The session at the beginning of the program that `text` holds. -/
def ofText (text : String) : Except SessionError Session := do
  let program ← (Program.parse text.toList).mapError .load
  let machine ← (Machine.boot program.bytes).mapError .memory
  return { machine, program := program.bytes }

/-- The session with another program, and the number of its bytes; the same
session if `text` holds no program that fits. -/
def load (s : Session) (text : String) : Except SessionError Nat × Session :=
  match ofText text with
  | .ok loaded => (.ok loaded.program.length, loaded)
  | .error e => (.error e, s)

/-- The session with what a step or run came to. -/
def advance {α : Type} (s : Session) (o : Outcome α) : Except SessionError α × Session :=
  (o.result.mapError .fault, { s with machine := o.machine, printed := o.out.printed })

/-- One instruction. -/
def step (s : Session) : Except SessionError Instruction × Session :=
  s.advance (s.machine.step (.unlimited s.printed))

/-- At most `max` instructions; how many have gone through since the program
was loaded. -/
def run (s : Session) (max : UInt32) : Except SessionError UInt64 × Session :=
  let (result, s) := s.advance (s.machine.runLimited max.toUInt64 (.unlimited s.printed))
  (result.map fun _ => s.machine.cycles, s)

/-- The session at the beginning of its program. -/
def reset (s : Session) : Session :=
  match Machine.boot s.program with
  | .ok machine => { s with machine, printed := {} }
  | .error _ => { s with machine := Machine.fresh, printed := {} }

-- ================================================================ views

/-- Everything printed since the program was loaded. -/
def output (s : Session) : String := s.printed.text

/-- The byte at `address`, zero where there is none. -/
def byteAt (s : Session) (address : Nat) : UInt8 := s.machine.mem.peek address

/-- The bytes of a full memory. -/
def bytes (s : Session) : Except MemoryError (List UInt8) :=
  s.machine.mem.slice 0 Memory.capacity

/-- The state of the machine as JSON. -/
def stateText (s : Session) : String := s.machine.toJson.compact

end Session

end LS8
