/-
Program texts. A line that begins with a binary digit is a code line: its
first eight characters, or all if there are fewer, are one byte in binary,
and what follows them is ignored. Every other line is skipped.

A program remembers the line that each byte came from, so a fault at run
time can be traced back to the text. Lines are counted from 1.
-/
import LS8.Numeral
import LS8.Text.Lines
import LS8.Text.Quoted

namespace LS8

/-- A byte of a program and the line it came from. -/
structure Program.Entry where
  byte : UInt8
  line : Nat
  deriving DecidableEq, Repr

/-- A program: its bytes in load order. -/
structure Program where
  entries : List Program.Entry := []
  deriving DecidableEq, Repr

/-- Why a file could not be read or written. -/
inductive FileFailure where
  | notFound
  | isDirectory
  | notDirectory
  /-- The path, or a name in it, has more bytes than the system takes. -/
  | nameTooLong
  /-- The path holds a NUL, which ends every path. -/
  | nulInPath
  /-- The device takes no more. -/
  | noSpace
  /-- The file is there but its bytes are no UTF-8 text. -/
  | notText
  /-- Any other reason, in the words of the system. -/
  | other (text : String)
  deriving DecidableEq, Repr

/-- The failure in the words of the system. -/
def FileFailure.message : FileFailure → String
  | notFound => "No such file or directory (os error 2)"
  | isDirectory => "Is a directory (os error 21)"
  | notDirectory => "Not a directory (os error 20)"
  | nameTooLong => "File name too long (os error 36)"
  | nulInPath => "file name contained an unexpected NUL byte"
  | noSpace => "No space left on device (os error 28)"
  | notText => "stream did not contain valid UTF-8"
  | other text => text

/-- Why there is no program. -/
inductive LoadError where
  | unreadable (path : String) (failure : FileFailure)
  /-- The code line with this number begins with `field`, which is no
  byte. -/
  | malformed (line : Nat) (field : List Char)
  deriving DecidableEq, Repr

namespace LoadError

/-- The error as a reader sees it. -/
def message : LoadError → String
  | unreadable path failure => "cannot read " ++ path ++ ": " ++ failure.message
  | malformed line field =>
      "parse error on line " ++ Numeral.decimal line ++ ": " ++ Text.quoted field
        ++ " is not an 8-bit binary literal"

/-- The exit code of a command that ends with the error. -/
def exitCode : LoadError → UInt8
  | unreadable _ _ => 2
  | malformed _ _ => 3

end LoadError

namespace Program

/-- The bytes in load order. -/
def bytes (p : Program) : List UInt8 := p.entries.map (·.byte)

/-- The line of each byte. -/
def lines (p : Program) : List Nat := p.entries.map (·.line)

/-- The number of bytes. -/
def size (p : Program) : Nat := p.entries.length

def isEmpty (p : Program) : Bool := p.entries.isEmpty

/-- The program with one more byte at its end. -/
def push (p : Program) (byte : UInt8) (line : Nat) : Program :=
  ⟨p.entries ++ [⟨byte, line⟩]⟩

/-- The line that the byte at `address` came from, if the program reaches as
far. -/
def sourceLine? (p : Program) (address : UInt8) : Option Nat :=
  p.lines[address.toNat]?

-- ====================================================== reading a text

/-- Whether a line holds a byte. -/
def isCode : List Char → Bool
  | [] => false
  | c :: _ => Numeral.isBit c

/-- The part of a code line that is its byte. -/
def field (line : List Char) : List Char :=
  line.take 8

/-- The bytes of the given lines, of which the first has number `number`,
or the first code line that holds no byte. -/
def entriesFrom (number : Nat) : List (List Char) → Except LoadError (List Entry)
  | [] => .ok []
  | line :: rest =>
      if isCode line then
        match Numeral.byteOfBits? (field line) with
        | none => .error (.malformed number (field line))
        | some byte => (entriesFrom (number + 1) rest).map (⟨byte, number⟩ :: ·)
      else
        entriesFrom (number + 1) rest

/-- The program that a text holds. -/
def parse (text : List Char) : Except LoadError Program :=
  (entriesFrom 1 (Text.lines text)).map Program.mk

/-- The program in a file at `path`, given what reading the file came
to. -/
def ofFile (path : String) (contents : Except FileFailure ByteArray) : Except LoadError Program :=
  match contents with
  | .error failure => .error (.unreadable path failure)
  | .ok bytes =>
      match String.fromUTF8? bytes with
      | none => .error (.unreadable path .notText)
      | some text => parse text.toList

end Program

end LS8
