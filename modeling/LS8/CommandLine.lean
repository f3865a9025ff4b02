/-
The command: load a program, run it, say how it ended.

The parts are functions of what was read and of what a run came to, so that
they serve two outer layers alike: `run` here, in which the directory and
the printer are values, and a program that reads, prints and writes as it
goes.

# Exit codes

0 halted or nothing to run; 2 no readable file, or arguments that make no
command; 3 no program in it; 5 the limit was reached; otherwise that of the
fault (`Fault.exitCode`).
-/
import LS8.CommandLine.Arguments
import LS8.Folder
import LS8.Machine.Run
import LS8.Snapshot

namespace LS8.CommandLine

-- ================================================================ texts

/-- The answer to `--version`. -/
def versionText : String := "ls8 0.1.0\n"

/-- The answer to `--help`, and to arguments that make no command. -/
def usageText : String :=
  "Usage: ls8 [OPTIONS] <PROGRAM>\n\n"
    ++ "  -t, --trace              print a trace line before every instruction\n"
    ++ "  -m, --max-cycles <N>     stop after this many instructions\n"
    ++ "      --dump-state <PATH>  write the final state as JSON\n"
    ++ "  -d, --debug              open the debugger\n"
    ++ "  -h, --help               print this text\n"
    ++ "  -V, --version            print the version\n"

/-- The words of the system for a device that takes no more. -/
def diskFull : String := FileFailure.noSpace.message

/-- An error line. -/
def errorLine (text : String) : String := "❌ " ++ text ++ "\n"

/-- The warning for a state file that could not be written. -/
def dumpWarning (path : String) (failure : FileFailure) : String :=
  "⚠️  Failed to write state to " ++ path ++ ": " ++ failure.message ++ "\n"

-- ============================================================ beginning

/-- What is to be done once the program file has been read. -/
inductive Launch where
  /-- Nothing: the command ends with this line and exit code. -/
  | refused (line : String) (exitCode : UInt8)
  /-- The debugger is opened on these bytes. -/
  | debug (program : List UInt8)
  | execute (program : Program) (machine : Machine)

/-- What is to be done, given what reading the program file came to. -/
def launch (options : Options) (contents : Except FileFailure ByteArray) : Launch :=
  match Program.ofFile options.program contents with
  | .error e => .refused (errorLine e.message) e.exitCode
  | .ok program =>
      if options.debug then
        if program.isEmpty then .refused (errorLine "No instructions to execute") 3
        else .debug program.bytes
      else
        match Machine.boot program.bytes with
        | .error e => .refused (errorLine ("Failed to load program: " ++ e.message)) 3
        | .ok machine => .execute program machine

-- ============================================================== running

/-- The counter value at which a run stops; without a limit the largest. -/
def limit (options : Options) : UInt64 :=
  options.maxCycles.getD (UInt64.ofNat (UInt64.size - 1))

/-- The run of a machine, and its trace if one is asked for. -/
def execute (options : Options) (m : Machine) (out : Printer) : Outcome Unit × Array String :=
  if options.trace then m.runTraced (limit options) out #[]
  else
    let o := m.runLimited (limit options) out
    (⟨o.result.map fun _ => (), o.machine, o.out⟩, #[])

-- =============================================================== ending

/-- The address of the instruction that a fault is put down to. -/
def faultAddress (m : Machine) : Fault → UInt8
  | .decode pc _ => pc
  | _ => m.pc

/-- Where in the program text a fault comes from, if it comes from there. -/
def sourceNote (program : Program) (m : Machine) (e : Fault) : String :=
  let address := faultAddress m e
  match program.sourceLine? address with
  | none => ""
  | some line =>
      "   at line " ++ Numeral.decimal line ++ " (address "
        ++ Numeral.decimal address.toNat ++ ")\n"

/-- The last lines of a run, and its exit code. -/
def closing (program : Program) (m : Machine) (result : Except Fault Unit) : String × UInt8 :=
  match result with
  | .ok () =>
      if m.status = .halted then ("", 0)
      else
        (errorLine ("Reached max cycles limit (" ++ Numeral.decimal m.cycles.toNat ++ ") at PC="
          ++ Numeral.decimal m.pc.toNat), 5)
  | .error e => (errorLine e.message ++ sourceNote program m e, e.exitCode)

/-- The text of a state file. -/
def stateText (m : Machine) : String := m.toJson.pretty

-- ================================================== all of it, as values

/-- How a command ended. -/
structure Ending where
  exitCode : UInt8
  stdout : String := ""
  stderr : String := ""
  folder : Folder

/-- The directory with the state file if one is asked for, and the warning
if it cannot be written. -/
def dump (options : Options) (m : Machine) (folder : Folder) : Folder × String :=
  match options.dumpState with
  | none => (folder, "")
  | some path =>
      match folder.write path (stateText m).toUTF8 with
      | .ok folder => (folder, "")
      | .error failure => (folder, dumpWarning path failure)

/-- A run from its first instruction to the exit code. A printer takes or
refuses a line when it is offered, so none is held back that could still be
refused when the run has ended. -/
def runProgram (folder : Folder) (options : Options) (program : Program) (m : Machine)
    (out : Printer) : Ending :=
  let (o, trace) := execute options m out
  let (folder, warning) := dump options o.machine folder
  let (lines, exitCode) := closing program o.machine o.result
  { exitCode
    stdout := o.out.printed.text
    stderr := String.join (trace.toList.map (· ++ "\n")) ++ warning ++ lines
    folder }

/-- The command in a directory, with the text of the refusal if standard
output refuses every line. No ending if the command opens the debugger. -/
def run (folder : Folder) (refusal : Option String) (arguments : List String) : Option Ending :=
  let printed (text : String) := if refusal.isSome then "" else text
  match Arguments.parse arguments with
  | .version => some { exitCode := 0, stdout := printed versionText, folder }
  | .help => some { exitCode := 0, stdout := printed usageText, folder }
  | .misuse => some { exitCode := 2, stderr := usageText, folder }
  | .execute options =>
      match launch options (folder.read options.program) with
      | .refused line exitCode => some { exitCode, stderr := line, folder }
      | .debug _ => none
      | .execute program m =>
          some (runProgram folder options program m
            { refusal := fun _ _ => refusal })

end LS8.CommandLine
