/-
The arguments of the command.

    ls8 [-t] [-m N] [--dump-state PATH] [-d] PROGRAM

Arguments are taken from left to right, and the first that is wrong, or that
asks for the version or for help, decides. A value may be attached to its
option (`-m3`, `-m=3`, `--max-cycles=3`) or be the next argument, which must
not look like an option. Options of one letter may be joined (`-tm3`). After
`--` nothing is an option. No option may come twice.
-/
import LS8.Numeral

namespace LS8

/-- What the arguments ask for. -/
structure Options where
  program : String
  trace : Bool := false
  maxCycles : Option UInt64 := none
  dumpState : Option String := none
  debug : Bool := false
  deriving DecidableEq, Repr

/-- What a command is to do. -/
inductive Command where
  | execute (options : Options)
  | version
  | help
  /-- The arguments make no command. -/
  | misuse
  deriving DecidableEq, Repr

namespace Arguments

/-- The options that have been met so far. -/
structure Draft where
  program : Option String := none
  trace : Bool := false
  maxCycles : Option UInt64 := none
  dumpState : Option String := none
  debug : Bool := false
  deriving DecidableEq, Repr

-- =============================================================== values

/-- A 64-bit number in decimal; a plus sign in front is allowed. -/
def number? (value : String) : Option UInt64 :=
  let digits := match value.toList with
    | '+' :: digits => digits
    | digits => digits
  match Numeral.ofDecimal? digits with
  | some n => if n < UInt64.size then some (UInt64.ofNat n) else none
  | none => none

/-- A path, which must not be empty. -/
def path? (value : String) : Option String :=
  if value.isEmpty then none else some value

/-- An option with a value. -/
inductive ValueOption where
  | maxCycles
  | dumpState
  deriving DecidableEq, Repr

/-- The draft with the value of an option, unless the option has one or the
value is none for it. -/
def Draft.setValue (d : Draft) (option : ValueOption) (value : String) : Option Draft :=
  match option with
  | .maxCycles =>
      if d.maxCycles.isSome then none
      else (number? value).map fun n => { d with maxCycles := some n }
  | .dumpState =>
      if d.dumpState.isSome then none
      else (path? value).map fun p => { d with dumpState := some p }

/-- The draft with a switch turned on, unless it is on. -/
def Draft.setTrace (d : Draft) : Option Draft :=
  if d.trace then none else some { d with trace := true }

/-- The draft with a switch turned on, unless it is on. -/
def Draft.setDebug (d : Draft) : Option Draft :=
  if d.debug then none else some { d with debug := true }

/-- The draft with its one argument that is no option. -/
def Draft.setProgram (d : Draft) (argument : String) : Option Draft :=
  if d.program.isSome then none
  else (path? argument).map fun p => { d with program := some p }

/-- The command of a draft: a program must have been named. -/
def Draft.command (d : Draft) : Command :=
  match d.program with
  | none => .misuse
  | some program =>
      .execute
        { program, trace := d.trace, maxCycles := d.maxCycles, dumpState := d.dumpState,
          debug := d.debug }

-- ============================================================== options

/-- What one argument comes to. -/
inductive Progress where
  /-- It was taken. -/
  | draft (d : Draft)
  /-- It was taken and the next argument is its value. -/
  | wants (d : Draft) (option : ValueOption)
  /-- It settles the command. -/
  | settled (command : Command)

/-- A draft, or misuse. -/
def Progress.ofDraft? : Option Draft → Progress
  | some d => .draft d
  | none => .settled .misuse

/-- The value that is attached to an option of one letter: what follows it,
without an equals sign. -/
def attached : List Char → String
  | '=' :: value => String.ofList value
  | value => String.ofList value

/-- An option of one letter with a value. -/
def shortValue (d : Draft) (option : ValueOption) (rest : List Char) : Progress :=
  if rest.isEmpty then .wants d option
  else .ofDraft? (d.setValue option (attached rest))

/-- Joined options of one letter. -/
def short (d : Draft) : List Char → Progress
  | [] => .draft d
  | letter :: rest =>
      match letter with
      | 't' =>
          match d.setTrace with
          | some d => short d rest
          | none => .settled .misuse
      | 'd' =>
          match d.setDebug with
          | some d => short d rest
          | none => .settled .misuse
      | 'm' => shortValue d .maxCycles rest
      | 'V' => .settled .version
      | 'h' => .settled .help
      | _ => .settled .misuse

/-- An option with a name, and its value if one is attached. -/
def long (d : Draft) (name : String) (value : Option String) : Progress :=
  match name, value with
  | "trace", none => .ofDraft? d.setTrace
  | "debug", none => .ofDraft? d.setDebug
  | "version", none => .settled .version
  | "help", none => .settled .help
  | "max-cycles", none => .wants d .maxCycles
  | "max-cycles", some value => .ofDraft? (d.setValue .maxCycles value)
  | "dump-state", none => .wants d .dumpState
  | "dump-state", some value => .ofDraft? (d.setValue .dumpState value)
  | _, _ => .settled .misuse

/-- The value that an option with a name brings along, if there is an equals
sign behind the name. -/
def valueOf? : List Char → Option String
  | [] => none
  | _ :: value => some (String.ofList value)

/-- Whether an argument looks like an option: a dash with something behind
it. -/
def isOption (argument : String) : Bool :=
  match argument.toList with
  | '-' :: _ :: _ => true
  | _ => false

/-- One argument, before any `--`. -/
def take (d : Draft) (argument : String) : Progress :=
  match argument.toList with
  | '-' :: '-' :: option =>
      long d (String.ofList (option.takeWhile (· ≠ '='))) (valueOf? (option.dropWhile (· ≠ '=')))
  | '-' :: letter :: letters => short d (letter :: letters)
  | _ => .ofDraft? (d.setProgram argument)

-- ============================================================= commands

/-- The arguments after `--`. -/
def parseOperands (d : Draft) : List String → Command
  | [] => d.command
  | argument :: rest =>
      match d.setProgram argument with
      | some d => parseOperands d rest
      | none => .misuse

mutual

/-- The command that the arguments make, after those in the draft. -/
def parseFrom (d : Draft) : List String → Command
  | [] => d.command
  | argument :: rest =>
      if argument = "--" then parseOperands d rest
      else
        match take d argument with
        | .settled command => command
        | .draft d => parseFrom d rest
        | .wants d option => parseValue d option rest

/-- The command that the arguments make if the first is the value of an
option. -/
def parseValue (d : Draft) (option : ValueOption) : List String → Command
  | [] => .misuse
  | value :: rest =>
      if isOption value then .misuse
      else
        match d.setValue option value with
        | some d => parseFrom d rest
        | none => .misuse

end

/-- The command that the arguments make. -/
def parse (arguments : List String) : Command :=
  parseFrom {} arguments

end Arguments

end LS8
