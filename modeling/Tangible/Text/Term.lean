import Tangible.Text.Quoted

/-!
# Values as terms

The pieces of a diagnostic text: a constructor with arguments, a record with named fields, a tuple
and an optional value.
-/

namespace Tangible.Text

def tuple (items : List String) : String :=
  "(" ++ String.intercalate ", " items ++ ")"

def applied (name : String) (args : List String) : String :=
  name ++ tuple args

def record (name : String) (fields : List (String × String)) : String :=
  name ++ " \x7b " ++ String.intercalate ", " (fields.map fun (field, text) => field ++ ": " ++ text) ++
    " \x7d"

def optional : Option String → String
  | none => "None"
  | some text => applied "Some" [text]

end Tangible.Text
