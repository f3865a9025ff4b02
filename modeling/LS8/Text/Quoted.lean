/-
Quoted text: how a message cites a piece of a program text, so that its
bounds and its invisible characters can be seen.
-/
import LS8.Numeral
import LS8.Text.Printable

namespace LS8.Text

/-- A character inside quotes. The double quote, the backslash, tab, line
feed, carriage return and NUL have short escapes; every other character that
does not stand for itself is given by its number. An apostrophe does stand
for itself. -/
def quotedChar (c : Char) : String :=
  match c with
  | '"' => "\\\""
  | '\\' => "\\\\"
  | '\t' => "\\t"
  | '\n' => "\\n"
  | '\r' => "\\r"
  | '\x00' => "\\0"
  | c =>
      if isPrintable c then String.singleton c
      else "\\u\x7b" ++ Numeral.hex c.toNat ++ "\x7d"

/-- The text in double quotes. -/
def quoted (text : List Char) : String :=
  "\"" ++ String.join (text.map quotedChar) ++ "\""

end LS8.Text
