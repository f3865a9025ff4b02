/-
JSON values, and the words that a JSON text is made of.

A value and its words determine each other (`Json.tokens` here, reading in
`LS8.Json.Reader`), and a text determines its words whatever the blanks
between them. So the two layouts in which a value is written are two ways to
put blanks between the same words.

Two kinds of scalar are kept although no machine's state holds them, because
a text that holds them beside a machine's state is still a JSON text: a
number that is not a plain non-negative integer, and a string with half of a
surrogate pair in it, which stands for no text.
-/
import LS8.Numeral

namespace LS8

/-- A JSON value without parts. -/
inductive Scalar where
  | null
  | bool (value : Bool)
  /-- A number written in digits alone. -/
  | integer (value : Nat)
  /-- Any other number, as it is written. -/
  | number (literal : String)
  /-- A string; `none` if it stands for no text. -/
  | text (content : Option String)
  deriving DecidableEq, Repr

/-- A JSON value. The members of an object keep their order, and a name may
occur twice. -/
inductive Json where
  | scalar (value : Scalar)
  | array (items : List Json)
  | object (members : List (Option String × Json))
  deriving Repr

/-- A word of a JSON text. -/
inductive Token where
  | openArray
  | closeArray
  | openObject
  | closeObject
  | comma
  | colon
  | scalar (value : Scalar)
  deriving DecidableEq, Repr

namespace Json

-- ================================================= the words of a value

mutual

/-- The words of a value. -/
def tokens : Json → List Token
  | scalar s => [.scalar s]
  | array items => .openArray :: itemTokens items ++ [.closeArray]
  | object members => .openObject :: memberTokens members ++ [.closeObject]

/-- The words of the items of an array. -/
def itemTokens : List Json → List Token
  | [] => []
  | [item] => item.tokens
  | item :: items => item.tokens ++ .comma :: itemTokens items

/-- The words of the members of an object. -/
def memberTokens : List (Option String × Json) → List Token
  | [] => []
  | [(name, value)] => .scalar (.text name) :: .colon :: value.tokens
  | (name, value) :: members =>
      .scalar (.text name) :: .colon :: value.tokens ++ .comma :: memberTokens members

end

-- =================================================== values by their use

/-- A string. -/
def text (content : String) : Json := scalar (.text (some content))

/-- A byte, as a number. -/
def byte (value : UInt8) : Json := scalar (.integer value.toNat)

/-- A 64-bit word, as a number. -/
def word (value : UInt64) : Json := scalar (.integer value.toNat)

/-- An object with the given names and values. -/
def ofFields (fields : List (String × Json)) : Json :=
  object (fields.map fun (name, value) => (some name, value))

end Json

end LS8
