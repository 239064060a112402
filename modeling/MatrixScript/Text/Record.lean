import MatrixScript.Text.Quoted

/-!
# Records as text

How reports show structured data: a name, then the fields between braces.
-/

namespace MatrixScript.Text

/-- A named record with its fields, each already written out. -/
def record (name : String) (fields : List (String × String)) : String :=
  name ++ " \x7b " ++ String.intercalate ", " (fields.map fun f ↦ f.1 ++ ": " ++ f.2) ++ " \x7d"

end MatrixScript.Text
