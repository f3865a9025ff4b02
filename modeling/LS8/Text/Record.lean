/-
The record form of a value, for diagnostics: the name of its kind, then its
fields in braces, `Ldi { reg: 0, value: 8 }`. A kind without fields is
its bare name.
-/
namespace LS8.Text

/-- The record form of `kind` with the given field names and field texts. -/
def record (kind : String) (fields : List (String × String)) : String :=
  if fields.isEmpty then kind
  else
    kind ++ " \x7b "
      ++ ", ".intercalate (fields.map fun (name, text) => name ++ ": " ++ text)
      ++ " \x7d"

/-- The record form of a sequence. -/
def sequence (items : List String) : String :=
  "[" ++ ", ".intercalate items ++ "]"

end LS8.Text
