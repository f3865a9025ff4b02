/-
The command as a program: it reads, prints and writes as it goes, and leaves
every decision to the library.

A line is printed before the next instruction is begun. Whether the device
takes it is only known then, so an instruction that prints is carried out
with a printer that takes everything, the line is written, and if that fails
the same instruction is carried out again with a printer that refuses it.
-/
import LS8.CommandLine
import LS8.Debugger.View

namespace LS8.CommandLine

-- ========================================================= the outside

/-- The number of a system error, which some operations report negated. -/
def errorNumber (code : UInt32) : UInt32 :=
  if code < 0x80000000 then code else 0 - code

/-- Why the system did not read or write a file. -/
def ofSystem (e : IO.Error) : FileFailure :=
  match e with
  | .resourceExhausted _ code _ =>
      if errorNumber code = 28 then .noSpace else .other (toString e)
  | .noFileOrDirectory _ _ _ => .notFound
  | .inappropriateType _ code _ =>
      if errorNumber code = 21 then .isDirectory
      else if errorNumber code = 20 then .notDirectory
      else .other (toString e)
  | .invalidArgument _ code _ =>
      if errorNumber code = 36 then .nameTooLong else .other (toString e)
  | e => .other (toString e)

/-- Why the system did not print a line. -/
def refusalText (e : IO.Error) : String :=
  match e with
  | .resourceExhausted _ code _ => if errorNumber code = 28 then diskFull else toString e
  | e => toString e

/-- The bytes of a file. -/
def readFile (path : String) : IO (Except FileFailure ByteArray) := do
  try return .ok (← IO.FS.readBinFile path)
  catch e => return .error (ofSystem e)

/-- The text, printed at once; the refusal if the system refuses it. -/
def printNow (text : String) : IO (Except String Unit) := do
  let stdout ← IO.getStdout
  try
    stdout.putStr text
    stdout.flush
    return .ok ()
  catch e => return .error (refusalText e)

/-- What the system still holds back of standard output is written; the fault
if it cannot be. -/
def flushOutput : IO (Except Fault Unit) := do
  try
    (← IO.getStdout).flush
    return .ok ()
  catch e => return .error (.output (refusalText e))

/-- The text on standard error. -/
def report (text : String) : IO Unit := do
  (← IO.getStderr).putStr text

-- ============================================================== running

/-- The step of a machine with its line on standard output. -/
def stepPrinting (m : Machine) : IO (Outcome Instruction) := do
  let taken := m.step (.unlimited {})
  if taken.out.printed.values.isEmpty then return taken
  match ← printNow taken.out.printed.text with
  | .ok () => return taken
  | .error text => return m.step (Printer.limited 0 text)

/-- Steps while the machine runs and its counter is below `limit`. -/
partial def drive (trace : Bool) (limit : UInt64) (m : Machine) :
    IO (Except Fault Unit × Machine) := do
  if m.status = .running ∧ m.cycles < limit then
    if trace then report (m.traceEntry ++ "\n")
    match ← stepPrinting m with
    | ⟨.ok _, m, _⟩ => drive trace limit m
    | ⟨.error fault, m, _⟩ => return (.error fault, m)
  else
    return (.ok (), m)

/-- The state file, if one is asked for. -/
def dumpFile (options : Options) (m : Machine) : IO Unit := do
  match options.dumpState with
  | none => return
  | some path =>
      try IO.FS.writeFile path (stateText m)
      catch e => report (dumpWarning path (ofSystem e))

-- ============================================================ debugging

/-- The debugger on a terminal that is read line by line. Every character of
a line is a key, and the screen is shown after each line. -/
partial def debugLoop (d : Debugger) : IO Unit := do
  let d := if d.running then (List.range 100000).foldl (fun d _ => d.tick) d else d
  for row in d.screen 80 24 do
    let _ ← printNow (Screen.text row ++ "\n")
  let line ← (← IO.getStdin).getLine
  let d := line.toList.foldl Debugger.press d
  if line.isEmpty || d.shouldQuit then return
  debugLoop d

-- ============================================================== command

/-- The command with its arguments; its exit code. -/
def perform (arguments : List String) : IO UInt32 := do
  match Arguments.parse arguments with
  | .version => let _ ← printNow versionText; return 0
  | .help => let _ ← printNow usageText; return 0
  | .misuse => report usageText; return 2
  | .execute options =>
      match launch options (← readFile options.program) with
      | .refused line exitCode => report line; return exitCode.toUInt32
      | .debug program => debugLoop (Debugger.ofProgram program); return 0
      | .execute program m =>
          let (result, m) ← drive options.trace (limit options) m
          let result ←
            match result with
            | .ok () => flushOutput
            | .error fault => pure (.error fault)
          dumpFile options m
          let (lines, exitCode) := closing program m result
          report lines
          return exitCode.toUInt32

end LS8.CommandLine

def main (arguments : List String) : IO UInt32 :=
  LS8.CommandLine.perform arguments
