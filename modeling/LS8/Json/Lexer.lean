/-
The words of a JSON text. Blanks, tabs and line ends may stand between any
two words and mean nothing; a text that is not made of words is refused.
-/
import LS8.Json

namespace LS8

-- ============================================================== strings

/-- What a JSON string is written with: characters, and numbers of UTF-16
units. -/
inductive StringPart where
  | char (c : Char)
  | unit (number : Nat)
  deriving DecidableEq, Repr

namespace StringPart

/-- The character that a letter stands for behind a backslash. -/
def escaped? (letter : Char) : Option Char :=
  match letter with
  | '"' => some '"'
  | '\\' => some '\\'
  | '/' => some '/'
  | 'b' => some '\x08'
  | 'f' => some '\x0c'
  | 'n' => some '\n'
  | 'r' => some '\r'
  | 't' => some '\t'
  | _ => none

/-- The value of a hexadecimal digit of either case. -/
def hexDigit? (c : Char) : Option Nat :=
  if '0' ≤ c ∧ c ≤ '9' then some (c.toNat - 48)
  else if 'a' ≤ c ∧ c ≤ 'f' then some (c.toNat - 87)
  else if 'A' ≤ c ∧ c ≤ 'F' then some (c.toNat - 55)
  else none

/-- The number of a UTF-16 unit from its four hexadecimal digits. -/
def unit? (digits : List Char) : Option Nat :=
  (digits.mapM hexDigit?).map fun values => values.foldl (16 * · + ·) 0

/-- The parts of a string up to its closing quote, and what follows. -/
def scan : List Char → Option (List StringPart × List Char)
  | [] => none
  | '"' :: rest => some ([], rest)
  | '\\' :: 'u' :: a :: b :: c :: d :: rest => do
      let number ← unit? [a, b, c, d]
      let (parts, rest) ← scan rest
      return (unit number :: parts, rest)
  | '\\' :: letter :: rest => do
      let c ← escaped? letter
      let (parts, rest) ← scan rest
      return (char c :: parts, rest)
  | c :: rest =>
      if c = '\\' ∨ c.toNat < 32 then none
      else do
        let (parts, rest) ← scan rest
        return (char c :: parts, rest)

/-- Whether a UTF-16 unit is the first half of a pair. -/
def isHigh (number : Nat) : Bool := 0xD800 ≤ number && number < 0xDC00

/-- Whether a UTF-16 unit is the second half of a pair. -/
def isLow (number : Nat) : Bool := 0xDC00 ≤ number && number < 0xE000

/-- The text that the parts stand for, unless a half of a pair is without
its other half. -/
def assemble? : List StringPart → Option (List Char)
  | [] => some []
  | char c :: parts => (assemble? parts).map (c :: ·)
  | unit high :: unit low :: parts =>
      if isHigh high then
        if isLow low then
          (assemble? parts).map
            (Char.ofNat (0x10000 + (high - 0xD800) * 0x400 + (low - 0xDC00)) :: ·)
        else none
      else if isLow high then none
      else (assemble? (unit low :: parts)).map (Char.ofNat high :: ·)
  | unit number :: parts =>
      if isHigh number || isLow number then none
      else (assemble? parts).map (Char.ofNat number :: ·)

/-- What follows a string is shorter than what the string began in. -/
theorem length_of_scan {text : List Char} {parts : List StringPart} {rest : List Char}
    (h : scan text = some (parts, rest)) : rest.length < text.length := by
  fun_induction scan text generalizing parts rest <;>
    simp_all [bind, Option.bind_eq_some_iff] <;> grind

end StringPart

-- ============================================================== numbers

namespace Scalar

/-- What is left behind the fraction that `chars` may begin with. -/
def afterFraction? : List Char → Option (List Char)
  | '.' :: chars =>
      if (chars.takeWhile Char.isDigit).isEmpty then none
      else some (chars.dropWhile Char.isDigit)
  | chars => some chars

/-- The digits of an exponent, behind its sign if it has one. -/
def dropSign : List Char → List Char
  | '+' :: chars => chars
  | '-' :: chars => chars
  | chars => chars

/-- Whether `chars` is an exponent or nothing. -/
def isExponent : List Char → Bool
  | [] => true
  | c :: chars =>
      (c == 'e' || c == 'E') && !(dropSign chars).isEmpty && (dropSign chars).all Char.isDigit

/-- Whether digits are an integer: at least one, and no zero in front of
others. -/
def isInteger : List Char → Bool
  | [] => false
  | ['0'] => true
  | c :: digits => c != '0' && (c :: digits).all Char.isDigit

/-- The number that `literal` writes, if it writes one. -/
def ofNumber? (literal : List Char) : Option Scalar :=
  if isInteger literal then some (.integer (Nat.ofDigitChars 10 literal 0))
  else
    let magnitude := match literal with
      | '-' :: chars => chars
      | chars => chars
    if isInteger (magnitude.takeWhile Char.isDigit) then
      match afterFraction? (magnitude.dropWhile Char.isDigit) with
      | some rest => if isExponent rest then some (.number (String.ofList literal)) else none
      | none => none
    else none

/-- The characters that a number is written with. -/
def isNumeral (c : Char) : Bool :=
  c.isDigit || c == '-' || c == '+' || c == '.' || c == 'e' || c == 'E'

/-- The scalar that a name stands for. -/
def ofName? (name : List Char) : Option Scalar :=
  if name = ['n', 'u', 'l', 'l'] then some .null
  else if name = ['t', 'r', 'u', 'e'] then some (.bool true)
  else if name = ['f', 'a', 'l', 's', 'e'] then some (.bool false)
  else none

end Scalar

-- ================================================================ words

namespace Token

/-- The characters that may stand between words. -/
def isBlank (c : Char) : Bool :=
  c == ' ' || c == '\n' || c == '\t' || c == '\r'

/-- The word that a character is by itself. -/
def ofMark? (c : Char) : Option Token :=
  match c with
  | '[' => some openArray
  | ']' => some closeArray
  | '\x7b' => some openObject
  | '\x7d' => some closeObject
  | ',' => some comma
  | ':' => some colon
  | _ => none

/-- The words of a text. -/
def lex? : List Char → Option (List Token)
  | [] => some []
  | c :: rest =>
      if isBlank c then lex? rest
      else
        match ofMark? c with
        | some token => (lex? rest).map (token :: ·)
        | none =>
            if c = '"' then
              match h : StringPart.scan rest with
              | none => none
              | some (parts, rest') =>
                  have := StringPart.length_of_scan h
                  (lex? rest').map
                    (scalar (.text ((StringPart.assemble? parts).map String.ofList)) :: ·)
            else if c.isDigit || c == '-' then
              have := (List.dropWhile_sublist (l := rest) Scalar.isNumeral).length_le
              match Scalar.ofNumber? (c :: rest.takeWhile Scalar.isNumeral) with
              | none => none
              | some s => (lex? (rest.dropWhile Scalar.isNumeral)).map (scalar s :: ·)
            else
              have := (List.dropWhile_sublist (l := rest) Char.isAlpha).length_le
              match Scalar.ofName? (c :: rest.takeWhile Char.isAlpha) with
              | none => none
              | some s => (lex? (rest.dropWhile Char.isAlpha)).map (scalar s :: ·)
termination_by text => text.length
decreasing_by all_goals grind [List.length_cons]

end Token

end LS8
