/-
JSON texts of a value: without blanks, and with every item and member on a
line of its own.
-/
import LS8.Json

namespace LS8

-- ================================================================ words

/-- A character inside a JSON string. Only the double quote, the backslash
and the control characters need an escape. -/
def Scalar.escape (c : Char) : String :=
  match c with
  | '"' => "\\\""
  | '\\' => "\\\\"
  | '\n' => "\\n"
  | '\r' => "\\r"
  | '\t' => "\\t"
  | '\x08' => "\\b"
  | '\x0c' => "\\f"
  | c =>
      if c.toNat < 32 then "\\u" ++ Numeral.padLeft '0' 4 (Numeral.hex c.toNat)
      else String.singleton c

/-- The word for a scalar. A string that stands for no text is written as
half of a surrogate pair. -/
def Scalar.word : Scalar → String
  | null => "null"
  | bool true => "true"
  | bool false => "false"
  | integer n => Numeral.decimal n
  | number literal => literal
  | text none => "\"\\ud800\""
  | text (some content) => "\"" ++ String.join (content.toList.map escape) ++ "\""

/-- The word for a token. -/
def Token.word : Token → String
  | openArray => "["
  | closeArray => "]"
  | openObject => "\x7b"
  | closeObject => "\x7d"
  | comma => ","
  | colon => ":"
  | scalar s => s.word

-- ============================================================== layouts

namespace Token

/-- The words with nothing between them. -/
def compact (tokens : List Token) : String :=
  String.join (tokens.map word)

/-- A new line at a depth of nesting: two blanks for each level. -/
def newLine (depth : Nat) : String :=
  "\n" ++ String.ofList (List.replicate (2 * depth) ' ')

/-- The words with a line for every item and member. An array or object
without any stays on its line. -/
def pretty (depth : Nat) : List Token → String
  | [] => ""
  | openArray :: closeArray :: rest => "[]" ++ pretty depth rest
  | openObject :: closeObject :: rest => "\x7b\x7d" ++ pretty depth rest
  | openArray :: rest => "[" ++ newLine (depth + 1) ++ pretty (depth + 1) rest
  | openObject :: rest => "\x7b" ++ newLine (depth + 1) ++ pretty (depth + 1) rest
  | closeArray :: rest => newLine (depth - 1) ++ "]" ++ pretty (depth - 1) rest
  | closeObject :: rest => newLine (depth - 1) ++ "\x7d" ++ pretty (depth - 1) rest
  | comma :: rest => "," ++ newLine depth ++ pretty depth rest
  | colon :: rest => ": " ++ pretty depth rest
  | scalar s :: rest => s.word ++ pretty depth rest

end Token

/-- The value in one line without blanks. -/
def Json.compact (value : Json) : String :=
  Token.compact value.tokens

/-- The value in many lines. -/
def Json.pretty (value : Json) : String :=
  Token.pretty 0 value.tokens

end LS8
