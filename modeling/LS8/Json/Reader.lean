/-
Reading a JSON text: first its words, then the value that the words make.

The second stage is a machine with a stack. A word either completes a value
or opens a container, and the containers that are open, with what they
already hold, are the stack (`Json.Frame`). Every word is looked at once, so
the stage ends with the words and needs no bound on how deep a value is.
-/
import LS8.Json.Lexer

namespace LS8.Json

/-- A container part way through; what it holds already is held
backwards. -/
inductive Frame where
  | array (items : List Json)
  | object (members : List (Option String × Json)) (name : Option String)

mutual

/-- The value that the words make if they begin with a value, inside the
containers of `stack`. -/
def valueFrom (stack : List Frame) : List Token → Option Json
  | .scalar s :: rest => closeFrom stack (.scalar s) rest
  | .openArray :: .closeArray :: rest => closeFrom stack (.array []) rest
  | .openArray :: rest => valueFrom (.array [] :: stack) rest
  | .openObject :: .closeObject :: rest => closeFrom stack (.object []) rest
  | .openObject :: .scalar (.text name) :: .colon :: rest =>
      valueFrom (.object [] name :: stack) rest
  | _ => none

/-- The value that the words make if they go on behind `value`, inside the
containers of `stack`. -/
def closeFrom (stack : List Frame) (value : Json) : List Token → Option Json
  | [] =>
      match stack with
      | [] => some value
      | _ :: _ => none
  | .comma :: .scalar (.text name) :: .colon :: rest =>
      match stack with
      | .object members name' :: stack =>
          valueFrom (.object ((name', value) :: members) name :: stack) rest
      | _ => none
  | .closeArray :: rest =>
      match stack with
      | .array items :: stack => closeFrom stack (.array (value :: items).reverse) rest
      | _ => none
  | .closeObject :: rest =>
      match stack with
      | .object members name :: stack =>
          closeFrom stack (.object ((name, value) :: members).reverse) rest
      | _ => none
  | .comma :: rest =>
      match stack with
      | .array items :: stack => valueFrom (.array (value :: items) :: stack) rest
      | _ => none
  | _ => none

end

/-- The value that the words make. -/
def ofTokens? (tokens : List Token) : Option Json :=
  valueFrom [] tokens

/-- The value that a text writes. -/
def parse? (text : String) : Option Json :=
  (Token.lex? text.toList).bind ofTokens?

end LS8.Json
