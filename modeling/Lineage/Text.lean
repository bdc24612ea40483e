/-!
# Diagnostic text

The written forms that diagnostic texts are built from: a record with a tag and named entries, a
value that may be absent, and a list.  Every type of the library that shows up in a message has a
function `inspect` made of these.
-/

namespace Lineage.Text

/-- A tag followed by its entries in braces, `Tag { a: 1, b: 2 }`. -/
def record (tag : String) (entries : List (String × String)) : String :=
  tag ++ " \x7b " ++ ", ".intercalate (entries.map fun e => e.1 ++ ": " ++ e.2) ++ " \x7d"

def optional : Option String → String
  | none => "None"
  | some text => "Some(" ++ text ++ ")"

def list (items : List String) : String :=
  "[" ++ ", ".intercalate items ++ "]"

end Lineage.Text
